import RemoteCalls.Proofs.Message.RoundTrip

/-!
# RemoteCalls.Proofs.Message.Format

What a reader of messages accepts, for any octets at all.

At the front of any octets stands a whole frame, or the count of a frame that is
too large, or the octets end before a frame does (`Frame.front_cases`).
`Frame.parse` says what reading a frame makes of each, and `HeaderRule` and
`BodyRule` what reading a header and a body make of it.

Main statement: `reader_follows_format`, every read of a sequence follows its rule,
and depends on what is left of the octets alone.
-/

namespace RemoteCalls

namespace Frame

/-! ## The front of octets -/

/-- Whether octets begin with the frame of `payload`, and `rest` stands behind it. -/
def Whole (limit : Nat) (bytes payload rest : Bytes) : Prop :=
  payload.length ≤ limit ∧ bytes = encode payload ++ rest

/-- Whether octets begin with the count of a frame that is too large, and `rest` stands behind it. -/
def Oversized (limit : Nat) (bytes rest : Bytes) : Prop :=
  ∃ n, limit < n ∧ n < Ty.countLimit ∧ bytes = .ofNatLE 4 n ++ rest

/-- Whether octets end before a frame does that is not too large. -/
def CutOff (limit : Nat) (bytes : Bytes) : Prop :=
  bytes.length < 4 ∨ ∃ n rest, n ≤ limit ∧ bytes = .ofNatLE 4 n ++ rest ∧ rest.length < n

/-- Any octets begin in one of the three ways. -/
theorem front_cases (limit : Nat) (bytes : Bytes) :
    (∃ payload rest, Whole limit bytes payload rest) ∨ (∃ rest, Oversized limit bytes rest) ∨
      CutOff limit bytes := by
  by_cases hcount : 4 ≤ bytes.length
  · obtain ⟨hbytes, hlt⟩ := count_append_drop hcount
    generalize Bytes.toNatLE (bytes.take 4) = n at hbytes hlt
    by_cases hlarge : limit < n
    · exact .inr (.inl ⟨bytes.drop 4, n, hlarge, hlt, hbytes.symm⟩)
    · by_cases hroom : n ≤ (bytes.drop 4).length
      · have hlen : ((bytes.drop 4).take n).length = n := List.length_take_of_le hroom
        refine .inl ⟨(bytes.drop 4).take n, (bytes.drop 4).drop n, by omega, ?_⟩
        rw [encode, hlen, List.append_assoc, List.take_append_drop, hbytes]
      · exact .inr (.inr (.inr ⟨n, bytes.drop 4, by omega, hbytes.symm, by omega⟩))
  · exact .inr (.inr (.inl (by omega)))

/-- What reading a frame makes of octets behind which `ending` is reported, and what it leaves. -/
def parse (limit : Nat) (ending : Fault) (bytes : Bytes) : Except Fault Bytes × Bytes :=
  if bytes.length < 4 then (.error ending, [])
  else
    let n := Bytes.toNatLE (bytes.take 4)
    let rest := bytes.drop 4
    if limit < n then (.error .objectTooLarge, rest)
    else if rest.length < n then (.error ending, [])
    else (.ok (rest.take n), rest.drop n)

section Parse

variable {limit : Nat} {ending : Fault} {bytes payload rest : Bytes}

/-- Octets that begin with a count. -/
theorem parse_count {n : Nat} (hn : n < Ty.countLimit) :
    parse limit ending (.ofNatLE 4 n ++ rest) =
      if limit < n then (.error .objectTooLarge, rest)
      else if rest.length < n then (.error ending, [])
      else (.ok (rest.take n), rest.drop n) := by
  have hlen : (Bytes.ofNatLE 4 n).length = 4 := Bytes.length_ofNatLE 4 n
  have hfour : ¬ (Bytes.ofNatLE 4 n ++ rest).length < 4 := by
    rw [List.length_append]
    omega
  have htake : (Bytes.ofNatLE 4 n ++ rest).take 4 = Bytes.ofNatLE 4 n := List.take_left' hlen
  have hdrop : (Bytes.ofNatLE 4 n ++ rest).drop 4 = rest := List.drop_left' hlen
  have hback : Bytes.toNatLE (.ofNatLE 4 n) = n :=
    Bytes.toNatLE_ofNatLE_of_lt (by simpa [Ty.countLimit] using hn)
  rw [parse, if_neg hfour, htake, hdrop, hback]

theorem parse_whole (hlimit : limit < Ty.countLimit) (h : Whole limit bytes payload rest) :
    parse limit ending bytes = (.ok payload, rest) := by
  obtain ⟨hsmall, rfl⟩ := h
  have hroom : ¬ (payload ++ rest).length < payload.length := by
    rw [List.length_append]
    omega
  rw [encode, List.append_assoc, parse_count (Nat.lt_of_le_of_lt hsmall hlimit),
    if_neg (Nat.not_lt.mpr hsmall), if_neg hroom, List.take_left, List.drop_left]

theorem parse_oversized (h : Oversized limit bytes rest) :
    parse limit ending bytes = (.error .objectTooLarge, rest) := by
  obtain ⟨n, hlarge, hn, rfl⟩ := h
  rw [parse_count hn, if_pos hlarge]

theorem parse_cutOff (hlimit : limit < Ty.countLimit) (h : CutOff limit bytes) :
    parse limit ending bytes = (.error ending, []) := by
  obtain hshort | ⟨n, rest, hsmall, rfl, hshort⟩ := h
  · rw [parse, if_pos hshort]
  · rw [parse_count (Nat.lt_of_le_of_lt hsmall hlimit), if_neg (Nat.not_lt.mpr hsmall),
      if_pos hshort]

end Parse

variable {σ : Type} [ByteStream σ] {ending : Fault}

/-- Reading a frame from octets that have arrived makes of them what it must, whatever the buffer
holds. -/
theorem resume_eq_parse (f : Feed σ ending) {limit : Nat} {i : Input σ} {bytes : Bytes}
    (hholds : f.Holds i.stream bytes) :
    ∃ i', resume limit .size i = .done i' (parse limit ending bytes).1 ∧
      f.Holds i'.stream (parse limit ending bytes).2 := by
  obtain ⟨stream, hread, hrest⟩ := f.read 4 hholds
  by_cases hcount : 4 ≤ bytes.length
  · rw [if_pos hcount] at hread
    simp only [resume, hread, parse, if_neg (Nat.not_lt.mpr hcount)]
    by_cases hlarge : limit < Bytes.toNatLE (bytes.take 4)
    · simp only [if_pos hlarge]
      exact ⟨{ i with stream }, rfl, hrest⟩
    · simp only [if_neg hlarge, readPayload]
      obtain ⟨stream', hread', hrest'⟩ := f.read (Bytes.toNatLE (bytes.take 4)) hrest
      by_cases hroom : Bytes.toNatLE (bytes.take 4) ≤ (bytes.drop 4).length
      · rw [if_pos hroom] at hread'
        simp only [hread', if_neg (Nat.not_lt.mpr hroom), Option.elim_none,
          fill_eq (List.length_take_of_le hroom)]
        exact ⟨_, rfl, hrest'⟩
      · rw [if_neg hroom] at hread'
        simp only [hread', if_pos (Nat.not_le.mp hroom), Option.elim_some]
        rw [List.drop_eq_nil_of_le (by omega)] at hrest'
        exact ⟨_, rfl, hrest'⟩
  · rw [if_neg hcount] at hread
    simp only [resume, hread, parse, if_pos (Nat.not_le.mp hcount)]
    rw [List.drop_eq_nil_of_le (by omega)] at hrest
    exact ⟨{ i with stream }, rfl, hrest⟩

end Frame

/-! ## The rules -/

/-- What reading a header gives for octets behind which `ending` is reported: a header `h`, a fault
unless it is a success, and the octets `left`. -/
structure HeaderRule (limit : Nat) (ending : Fault) (bytes : Bytes) (h : Header)
    (fault : Option Fault) (left : Bytes) : Prop where
  accepted_iff : fault = none ↔ ∃ header rest, Frame.Whole limit bytes (Header.encode header) rest
  accepted : ∀ {header : Header} {rest : Bytes}, Frame.Whole limit bytes header.encode rest →
    h = header ∧ left = rest
  invalid : ∀ {payload rest : Bytes}, Frame.Whole limit bytes payload rest →
    (∀ header : Header, payload ≠ header.encode) → fault = some .invalidData ∧ left = rest
  oversized : ∀ {rest : Bytes}, Frame.Oversized limit bytes rest →
    fault = some .objectTooLarge ∧ left = rest
  cutOff : Frame.CutOff limit bytes → fault = some ending ∧ left = []

/-- What reading a body gives for octets behind which `ending` is reported: the reply `after` it, a
fault unless it is a success, and the octets `left`. -/
structure BodyRule {ρ : Type} (limit : Nat) (ending : Fault) (bytes : Bytes)
    (reader : Option (BodyReader ρ)) (reply after : ρ) (fault : Option Fault) (left : Bytes) :
    Prop where
  accepted_iff : fault = none ↔ ∃ payload rest, Frame.Whole limit bytes payload rest ∧
    ∀ read, reader = some read → (read reply (.ofBytes payload)).2 = .accepted
  rejected_iff : fault = some .bodyDecodeFailed ↔ ∃ payload rest read,
    Frame.Whole limit bytes payload rest ∧ reader = some read ∧
      (read reply (.ofBytes payload)).2 ≠ .accepted
  whole : ∀ {payload rest : Bytes}, Frame.Whole limit bytes payload rest →
    after = (BodyReader.result reader reply payload).1 ∧ left = rest
  oversized : ∀ {rest : Bytes}, Frame.Oversized limit bytes rest →
    fault = some .objectTooLarge ∧ after = reply ∧ left = rest
  cutOff : Frame.CutOff limit bytes → fault = some ending ∧ after = reply ∧ left = []

/-- A header or a body that is to be read, and what into. -/
inductive Ask (ρ : Type) where
  | header (old : Header)
  | body (reader : Option (BodyReader ρ)) (reply : ρ)

/-- What became of reading a header or a body. -/
inductive Answer (ρ : Type) where
  | header (h : Header) (fault : Option Fault)
  | body (after : ρ) (fault : Option Fault)

/-- Whether reads, in order, give the answers they must for these octets, and leave `left`. -/
inductive Follows {ρ : Type} (limit : Nat) (ending : Fault) :
    Bytes → List (Ask ρ) → List (Answer ρ) → Bytes → Prop where
  | nil {bytes : Bytes} : Follows limit ending bytes [] [] bytes
  | header {bytes rest left : Bytes} {old h : Header} {fault : Option Fault} {asks : List (Ask ρ)}
      {answers : List (Answer ρ)} (hrule : HeaderRule limit ending bytes h fault rest)
      (hrest : Follows limit ending rest asks answers left) :
      Follows limit ending bytes (.header old :: asks) (.header h fault :: answers) left
  | body {bytes rest left : Bytes} {reader : Option (BodyReader ρ)} {reply after : ρ}
      {fault : Option Fault} {asks : List (Ask ρ)} {answers : List (Answer ρ)}
      (hrule : BodyRule limit ending bytes reader reply after fault rest)
      (hrest : Follows limit ending rest asks answers left) :
      Follows limit ending bytes (.body reader reply :: asks) (.body after fault :: answers) left

/-! ## What a frame is read as -/

section Rules

variable {limit : Nat} {ending : Fault} {bytes : Bytes}

/-- A header is read by its rule. -/
theorem headerRule_parse (hlimit : limit < Ty.countLimit) (old : Header) :
    HeaderRule limit ending bytes (old.receive (Frame.parse limit ending bytes).1).1
      (old.receive (Frame.parse limit ending bytes).1).2 (Frame.parse limit ending bytes).2 := by
  have haccepts {header : Header} {rest : Bytes}
      (hwhole : Frame.Whole limit bytes header.encode rest) :
      Header.ofFrame old header.encode = (header, none) :=
    Header.ofFrame_eq_iff.mpr
      ⟨rfl, Header.fits_of_length (Nat.lt_of_le_of_lt hwhole.1 hlimit)⟩
  constructor
  case accepted_iff =>
    constructor
    · intro hnone
      obtain ⟨payload, rest, hwhole⟩ | ⟨rest, hlarge⟩ | hcut := Frame.front_cases limit bytes
      · rw [Frame.parse_whole hlimit hwhole, Header.receive] at hnone
        rcases hframe : Header.ofFrame old payload with ⟨header, fault⟩
        rw [hframe] at hnone
        obtain rfl : fault = none := hnone
        obtain ⟨rfl, -⟩ := Header.ofFrame_eq_iff.mp hframe
        exact ⟨header, rest, hwhole⟩
      · rw [Frame.parse_oversized hlarge] at hnone
        contradiction
      · rw [Frame.parse_cutOff hlimit hcut] at hnone
        contradiction
    · rintro ⟨header, rest, hwhole⟩
      rw [Frame.parse_whole hlimit hwhole, Header.receive, haccepts hwhole]
  case accepted =>
    intro header rest hwhole
    rw [Frame.parse_whole hlimit hwhole, Header.receive, haccepts hwhole]
    exact ⟨rfl, rfl⟩
  case invalid =>
    intro payload rest hwhole hnone
    rw [Frame.parse_whole hlimit hwhole, Header.receive]
    rcases hframe : Header.ofFrame old payload with ⟨h, fault⟩
    cases fault with
    | none => exact absurd (Header.ofFrame_eq_iff.mp hframe).1 (hnone h)
    | some f => exact ⟨congrArg some (Header.ofFrame_fault hframe).1, rfl⟩
  case oversized =>
    intro rest hlarge
    rw [Frame.parse_oversized hlarge]
    exact ⟨rfl, rfl⟩
  case cutOff =>
    intro hcut
    rw [Frame.parse_cutOff hlimit hcut]
    exact ⟨rfl, rfl⟩

/-- Whether a body reader accepts a body, and how it is told that it does not. -/
theorem BodyReader.result_snd {ρ : Type} (reader : Option (BodyReader ρ)) (reply : ρ)
    (body : Bytes) :
    ((∀ read, reader = some read → (read reply (.ofBytes body)).2 = .accepted) ∧
      (result reader reply body).2 = none) ∨
    ∃ read, reader = some read ∧ (read reply (.ofBytes body)).2 ≠ .accepted ∧
      (result reader reply body).2 = some .bodyDecodeFailed := by
  cases reader with
  | none => exact .inl ⟨fun read hread => by contradiction, rfl⟩
  | some read =>
      by_cases haccepted : (read reply (.ofBytes body)).2 = .accepted
      · refine .inl ⟨?_, if_pos haccepted⟩
        intro read' heq
        obtain rfl := Option.some.inj heq
        exact haccepted
      · exact .inr ⟨read, rfl, haccepted, if_neg haccepted⟩

/-- A body is read by its rule. -/
theorem bodyRule_parse {ρ : Type} (hlimit : limit < Ty.countLimit)
    (hending : ending ≠ .bodyDecodeFailed) (reader : Option (BodyReader ρ)) (reply : ρ) :
    BodyRule limit ending bytes reader reply
      (BodyReader.receive reader reply (Frame.parse limit ending bytes).1).1
      (BodyReader.receive reader reply (Frame.parse limit ending bytes).1).2.2
      (Frame.parse limit ending bytes).2 := by
  have hframe (payload : Bytes) := BodyReader.ofFrame_eq_result reader reply payload
  constructor
  case accepted_iff =>
    constructor
    · intro hnone
      obtain ⟨payload, rest, hwhole⟩ | ⟨rest, hlarge⟩ | hcut := Frame.front_cases limit bytes
      · obtain ⟨entries, hresult⟩ := hframe payload
        rw [Frame.parse_whole hlimit hwhole, BodyReader.receive, hresult] at hnone
        obtain ⟨haccepts, -⟩ | ⟨read, -, -, hfailed⟩ := BodyReader.result_snd reader reply payload
        · exact ⟨payload, rest, hwhole, haccepts⟩
        · rw [hfailed] at hnone
          contradiction
      · rw [Frame.parse_oversized hlarge] at hnone
        contradiction
      · rw [Frame.parse_cutOff hlimit hcut] at hnone
        contradiction
    · rintro ⟨payload, rest, hwhole, haccepts⟩
      obtain ⟨entries, hresult⟩ := hframe payload
      rw [Frame.parse_whole hlimit hwhole, BodyReader.receive, hresult]
      obtain ⟨-, hnone⟩ | ⟨read, hread, hrejected, -⟩ := BodyReader.result_snd reader reply payload
      · exact hnone
      · exact absurd (haccepts read hread) hrejected
  case rejected_iff =>
    constructor
    · intro hfailed
      obtain ⟨payload, rest, hwhole⟩ | ⟨rest, hlarge⟩ | hcut := Frame.front_cases limit bytes
      · obtain ⟨entries, hresult⟩ := hframe payload
        rw [Frame.parse_whole hlimit hwhole, BodyReader.receive, hresult] at hfailed
        obtain ⟨-, hnone⟩ | ⟨read, hread, hrejected, -⟩ :=
          BodyReader.result_snd reader reply payload
        · rw [hnone] at hfailed
          contradiction
        · exact ⟨payload, rest, read, hwhole, hread, hrejected⟩
      · rw [Frame.parse_oversized hlarge] at hfailed
        exact absurd (Option.some.inj hfailed) (by decide)
      · rw [Frame.parse_cutOff hlimit hcut] at hfailed
        exact absurd (Option.some.inj hfailed) hending
    · rintro ⟨payload, rest, read, hwhole, hread, hrejected⟩
      obtain ⟨entries, hresult⟩ := hframe payload
      rw [Frame.parse_whole hlimit hwhole, BodyReader.receive, hresult]
      obtain ⟨haccepts, -⟩ | ⟨-, -, -, hfailed⟩ := BodyReader.result_snd reader reply payload
      · exact absurd (haccepts read hread) hrejected
      · exact hfailed
  case whole =>
    intro payload rest hwhole
    obtain ⟨entries, hresult⟩ := hframe payload
    rw [Frame.parse_whole hlimit hwhole, BodyReader.receive, hresult]
    exact ⟨rfl, rfl⟩
  case oversized =>
    intro rest hlarge
    rw [Frame.parse_oversized hlarge]
    exact ⟨rfl, rfl, rfl⟩
  case cutOff =>
    intro hcut
    rw [Frame.parse_cutOff hlimit hcut]
    exact ⟨rfl, rfl, rfl⟩

end Rules

/-! ## Reading whatever is asked for -/

/-- What a read makes of octets, and what it leaves of them. -/
def Ask.answer {ρ : Type} (limit : Nat) (ending : Fault) (bytes : Bytes) : Ask ρ → Answer ρ × Bytes
  | .header old =>
      let (frame, left) := Frame.parse limit ending bytes
      let (h, fault) := old.receive frame
      (.header h fault, left)
  | .body reader reply =>
      let (frame, left) := Frame.parse limit ending bytes
      let (after, _, fault) := BodyReader.receive reader reply frame
      (.body after fault, left)

/-- What reads make of octets one after another, and what they leave of them. -/
def Ask.answers {ρ : Type} (limit : Nat) (ending : Fault) :
    List (Ask ρ) → Bytes → List (Answer ρ) × Bytes
  | [], bytes => ([], bytes)
  | a :: asks, bytes =>
      let (first, rest) := a.answer limit ending bytes
      let (more, left) := answers limit ending asks rest
      (first :: more, left)

/-- What reads make of octets is what they must. -/
theorem Ask.follows_answers {ρ : Type} {limit : Nat} {ending : Fault}
    (hlimit : limit < Ty.countLimit) (hending : ending ≠ .bodyDecodeFailed) (asks : List (Ask ρ))
    (bytes : Bytes) :
    Follows limit ending bytes asks (answers limit ending asks bytes).1
      (answers limit ending asks bytes).2 := by
  induction asks generalizing bytes with
  | nil => exact .nil
  | cons a asks ih =>
      cases a with
      | header old => exact .header (headerRule_parse hlimit old) (ih _)
      | body reader reply => exact .body (bodyRule_parse hlimit hending reader reply) (ih _)

namespace Codec

variable {σ ρ : Type} [ByteStream σ]

/-- Read a header or a body, unless that has to wait. -/
def ask (c : Codec σ) : Ask ρ → Option (Codec σ × Answer ρ)
  | .header old => (c.readHeader old).map fun (c, h, fault) => (c, .header h fault)
  | .body reader reply =>
      (c.readBody reader reply).map fun (c, after, _, fault) => (c, .body after fault)

/-- Read headers and bodies in order, whatever becomes of each, unless that has to wait. -/
def askAll : List (Ask ρ) → Codec σ → Option (Codec σ × List (Answer ρ))
  | [], c => some (c, [])
  | a :: asks, c =>
      match c.ask a with
      | none => none
      | some (c, first) => (askAll asks c).map fun (c, more) => (c, first :: more)

variable {ending : Fault} (f : Feed σ ending)

/-- A read of octets that have arrived makes of them what it must. -/
theorem ask_eq_answer {c : Codec σ} {bytes : Bytes} (hholds : f.Holds c.stream bytes) (a : Ask ρ) :
    ∃ c', c.ask a = some (c', (a.answer c.limit ending bytes).1) ∧ c'.limit = c.limit ∧
      f.Holds c'.stream (a.answer c.limit ending bytes).2 := by
  obtain ⟨i, hresume, hrest⟩ := @Frame.resume_eq_parse σ _ ending f c.limit c.toInput bytes hholds
  refine ⟨{ c with toInput := i }, ?_, rfl, ?_⟩
  · cases a with
    | header old =>
        simp only [ask, readHeader, Codec.resume, hresume, Frame.Progress.map, Option.map_some]
        rfl
    | body reader reply =>
        simp only [ask, readBody, Codec.resume, hresume, Frame.Progress.map, Option.map_some]
        rfl
  · cases a <;> exact hrest

/-- So do reads one after another. -/
theorem askAll_eq_answers {c : Codec σ} {bytes : Bytes} (hholds : f.Holds c.stream bytes)
    (asks : List (Ask ρ)) :
    ∃ c', c.askAll asks = some (c', (Ask.answers c.limit ending asks bytes).1) ∧
      c'.limit = c.limit ∧ f.Holds c'.stream (Ask.answers c.limit ending asks bytes).2 := by
  induction asks generalizing c bytes with
  | nil => exact ⟨c, rfl, rfl, hholds⟩
  | cons a asks ih =>
      obtain ⟨c₁, hask, hlimit₁, hrest⟩ := ask_eq_answer f hholds a
      obtain ⟨c₂, hmore, hlimit₂, hleft⟩ := ih hrest
      rw [hlimit₁] at hmore hlimit₂ hleft
      refine ⟨c₂, ?_, hlimit₂, hleft⟩
      simp only [askAll, hask, hmore, Option.map_some]
      rfl

end Codec

/-- On a connection that gives any octets and then reports `ending`, reads of headers and bodies in
any order, by any readers, end with the answers that the format and the limit call for, and leave
what stands behind the frames they took.  What is read afterwards depends on these octets alone: a
connection that has read nothing before answers the same. -/
theorem reader_follows_format {σ ρ : Type} [ByteStream σ] {ending : Fault} (f : Feed σ ending)
    (hending : ending ≠ .bodyDecodeFailed) {c : Codec σ} (hlimit : c.limit < Ty.countLimit)
    {bytes : Bytes} (hholds : f.Holds c.stream bytes) (asks : List (Ask ρ)) :
    ∃ c' answers left, c.askAll asks = some (c', answers) ∧
      Follows c.limit ending bytes asks answers left ∧ f.Holds c'.stream left ∧
      ∀ (fresh : Codec σ) (more : List (Ask ρ)), fresh.limit = c.limit →
        f.Holds fresh.stream left →
          (c'.askAll more).map Prod.snd = (fresh.askAll more).map Prod.snd := by
  obtain ⟨c', hall, hlimit', hleft⟩ := Codec.askAll_eq_answers f hholds asks
  refine ⟨c', _, _, hall, Ask.follows_answers hlimit hending asks bytes, hleft, ?_⟩
  intro fresh more hfresh hsame
  obtain ⟨c₁, h₁, -, -⟩ := Codec.askAll_eq_answers f hleft more
  obtain ⟨c₂, h₂, -, -⟩ := Codec.askAll_eq_answers f hsame more
  rw [h₁, h₂, hlimit', hfresh]
  rfl

/-- A header, a body whose reader throws, and a body that is cut off. -/
theorem reader_follows_format_three_asks :
    let header : Header := { service := [65], seq := 3 }
    let cut : Bytes := [2, 0, 0, 0, 9]
    let c : Codec MemoryStream :=
      { stream :=
          { incoming := Frame.encode header.encode ++ (Frame.encode [7, 8] ++ cut)
            ended := true
            endFault := some (.system 104) }
        limit := 64 }
    ∃ c', c.askAll [.header {}, .body (some fun old _ => (old + 1, .raised none)) 5, .body none 6] =
      some (c', [.header header none, .body 6 (some .bodyDecodeFailed),
        .body 6 (some (.system 104))]) := by
  intro header cut c
  obtain ⟨c', answers, left, hall, hfollows, -, -⟩ :=
    reader_follows_format (MemoryStream.feed (.system 104)) (by decide) (c := c) (by decide)
      ⟨rfl, rfl, rfl, rfl⟩
      [.header {}, .body (some fun old _ => (old + 1, .raised none)) 5, .body none 6]
  cases hfollows with
  | header hfirst hrest =>
      obtain ⟨rfl, rfl⟩ := hfirst.accepted ⟨by decide, rfl⟩
      obtain rfl := hfirst.accepted_iff.mpr ⟨_, _, by decide, rfl⟩
      cases hrest with
      | body hsecond hrest =>
          obtain ⟨rfl, rfl⟩ := hsecond.whole ⟨by decide, rfl⟩
          obtain rfl := hsecond.rejected_iff.mpr ⟨_, _, _, ⟨by decide, rfl⟩, rfl, by decide⟩
          cases hrest with
          | body hthird hrest =>
              obtain ⟨rfl, rfl, rfl⟩ := hthird.cutOff (.inr ⟨2, [9], by decide, rfl, by decide⟩)
              cases hrest
              exact ⟨c', hall⟩

end RemoteCalls
