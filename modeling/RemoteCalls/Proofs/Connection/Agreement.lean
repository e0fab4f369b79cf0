import RemoteCalls.Proofs.Connection.Preamble
import RemoteCalls.Proofs.Message.Format

/-!
# RemoteCalls.Proofs.Connection.Agreement

The record that opens a connection, from the one end to the other.

What a writer hands over is one frame or nothing.  What a reader makes of any octets
at all is `ReadRule`: it asks for a frame of at most `limit` octets that begins with a
record, and whatever goes wrong, the variable it reads into keeps what it held.

Main statement: `writer_and_reader_agree`.
-/

namespace RemoteCalls.Preamble

/-! ## The content of a frame -/

/-- The octets of a record, and whatever stands behind them, are read as the record, if it carries
the protocol's mark. -/
theorem ofFrame_octets {p : Preamble} (hfits : layout.Fits p.toVal) (tail : Bytes) :
    ofFrame (p.octets ++ tail) =
      if p.mark = protocolMark then .ok p else .error .badMagicNumber := by
  rw [ofFrame, Source.ofBytes_eq_plain, octets, layout.read_encode hfits (0, []) tail 0]
  simp only [ofVal_toVal]
  rfl

/-- No other octets are read as a record. -/
theorem ofFrame_of_forall_ne {payload : Bytes}
    (h : ∀ (p : Preamble) (tail : Bytes), payload ≠ p.octets ++ tail) :
    ofFrame payload = .error .invalidData := by
  rw [ofFrame, Source.ofBytes_eq_plain]
  rcases hread : layout.read (0, []) (.plain payload 0) with ⟨v, s, fault⟩
  cases fault with
  | some f => rfl
  | none =>
      obtain ⟨tail, hpayload, -, -⟩ := Ty.encode_of_read rfl hread
      exact absurd hpayload (h (ofVal v) tail)

/-- A record in a frame that is not too large has a name that is short enough for its count. -/
theorem fits_of_length {p : Preamble} {tail : Bytes} (h : (p.octets ++ tail).length ≤ limit) :
    layout.Fits p.toVal := by
  have hlimit : limit < Ty.countLimit := by decide
  rw [List.length_append] at h
  exact Ty.fits_of_length (Nat.lt_of_le_of_lt (Nat.le_trans (Nat.le_add_right ..) h) hlimit)

/-! ## What a reader makes of any octets -/

/-- What reading a record into a variable that holds `old` gives for octets behind which `ending` is
reported: the variable `after` it, a fault unless it is a success, and the octets `left`. -/
structure ReadRule (ending : Fault) (bytes : Bytes) (old after : Preamble) (fault : Option Fault)
    (left : Bytes) : Prop where
  accepted_iff : fault = none ↔ ∃ (p : Preamble) (tail rest : Bytes), p.mark = protocolMark ∧
    Frame.Whole limit bytes (p.octets ++ tail) rest
  record : ∀ {p : Preamble} {tail rest : Bytes}, Frame.Whole limit bytes (p.octets ++ tail) rest →
    left = rest ∧
      (after, fault) = if p.mark = protocolMark then (p, none) else (old, some .badMagicNumber)
  invalid : ∀ {payload rest : Bytes}, Frame.Whole limit bytes payload rest →
    (∀ (p : Preamble) (tail : Bytes), payload ≠ p.octets ++ tail) →
      fault = some .invalidData ∧ left = rest
  oversized : ∀ {rest : Bytes}, Frame.Oversized limit bytes rest →
    fault = some .objectTooLarge ∧ left = rest
  cutOff : Frame.CutOff limit bytes → fault = some ending ∧ left = []
  unchanged : fault ≠ none → after = old
  consumed : ∃ taken, bytes = taken ++ left ∧ ∀ {n : Nat} {rest : Bytes}, n < Ty.countLimit →
    bytes = .ofNatLE 4 n ++ rest → taken.length ≤ if limit < n then 4 else 4 + n

/-- A variable changes only if nothing goes wrong. -/
theorem receive_of_fault {old after : Preamble} {result : Except Fault Bytes} {fault : Fault}
    (h : receive old result = (after, some fault)) : after = old := by
  cases result with
  | error f => exact (Prod.mk.inj h).1.symm
  | ok payload =>
      rw [receive] at h
      cases hframe : ofFrame payload with
      | error f =>
          simp only [hframe] at h
          exact (Prod.mk.inj h).1.symm
      | ok p => simp [hframe] at h

/-- What is taken of octets that begin with a count: no more than that, if it is too large, and no
more than it announces. -/
theorem taken_of_count (ending : Fault) {n : Nat} (hn : n < Ty.countLimit) (rest : Bytes) :
    ∃ taken, Bytes.ofNatLE 4 n ++ rest =
        taken ++ (Frame.parse limit ending (.ofNatLE 4 n ++ rest)).2 ∧
      taken.length ≤ if limit < n then 4 else 4 + n := by
  have hlen : (Bytes.ofNatLE 4 n).length = 4 := Bytes.length_ofNatLE 4 n
  rw [Frame.parse_count hn]
  by_cases hlarge : limit < n
  · simp only [if_pos hlarge]
    exact ⟨.ofNatLE 4 n, rfl, Nat.le_of_eq hlen⟩
  · simp only [if_neg hlarge]
    by_cases hshort : rest.length < n
    · simp only [if_pos hshort]
      refine ⟨.ofNatLE 4 n ++ rest, (List.append_nil _).symm, ?_⟩
      rw [List.length_append]
      omega
    · simp only [if_neg hshort]
      refine ⟨.ofNatLE 4 n ++ rest.take n, ?_, ?_⟩
      · rw [List.append_assoc, List.take_append_drop]
      · rw [List.length_append, List.length_take]
        omega

/-- What is taken of any octets. -/
theorem taken_parse (ending : Fault) (bytes : Bytes) :
    ∃ taken, bytes = taken ++ (Frame.parse limit ending bytes).2 ∧
      ∀ {n : Nat} {rest : Bytes}, n < Ty.countLimit → bytes = .ofNatLE 4 n ++ rest →
        taken.length ≤ if limit < n then 4 else 4 + n := by
  by_cases hcount : 4 ≤ bytes.length
  · obtain ⟨hbytes, hlt⟩ := Frame.count_append_drop hcount
    obtain ⟨taken, htaken, hle⟩ := taken_of_count ending hlt (bytes.drop 4)
    rw [hbytes] at htaken
    refine ⟨taken, htaken, ?_⟩
    rintro n rest hn rfl
    rw [List.take_left' (Bytes.length_ofNatLE 4 n),
      Bytes.toNatLE_ofNatLE_of_lt (by simpa [Ty.countLimit] using hn)] at hle
    exact hle
  · refine ⟨bytes, ?_, ?_⟩
    · rw [Frame.parse, if_pos (Nat.not_le.mp hcount), List.append_nil]
    · rintro n rest - rfl
      simp at hcount

/-- A record is read by its rule. -/
theorem readRule_parse (ending : Fault) (bytes : Bytes) (old : Preamble) :
    ReadRule ending bytes old (receive old (Frame.parse limit ending bytes).1).1
      (receive old (Frame.parse limit ending bytes).1).2 (Frame.parse limit ending bytes).2 := by
  have hlimit : limit < Ty.countLimit := by decide
  have hrecord {p : Preamble} {tail rest : Bytes}
      (hwhole : Frame.Whole limit bytes (p.octets ++ tail) rest) :
      receive old (Frame.parse limit ending bytes).1 =
        if p.mark = protocolMark then (p, none) else (old, some .badMagicNumber) := by
    rw [Frame.parse_whole hlimit hwhole, receive, ofFrame_octets (fits_of_length hwhole.1)]
    by_cases hmark : p.mark = protocolMark
    · simp only [if_pos hmark]
    · simp only [if_neg hmark]
  have hinvalid {payload rest : Bytes} (hwhole : Frame.Whole limit bytes payload rest)
      (hnone : ∀ (p : Preamble) (tail : Bytes), payload ≠ p.octets ++ tail) :
      receive old (Frame.parse limit ending bytes).1 = (old, some .invalidData) := by
    rw [Frame.parse_whole hlimit hwhole, receive, ofFrame_of_forall_ne hnone]
  constructor
  case accepted_iff =>
    constructor
    · intro hnone
      obtain ⟨payload, rest, hwhole⟩ | ⟨rest, hlarge⟩ | hcut := Frame.front_cases limit bytes
      · by_cases hsome : ∃ (p : Preamble) (tail : Bytes), payload = p.octets ++ tail
        · obtain ⟨p, tail, rfl⟩ := hsome
          rw [hrecord hwhole] at hnone
          by_cases hmark : p.mark = protocolMark
          · exact ⟨p, tail, rest, hmark, hwhole⟩
          · rw [if_neg hmark] at hnone
            contradiction
        · rw [hinvalid hwhole fun p tail heq => hsome ⟨p, tail, heq⟩] at hnone
          contradiction
      · rw [Frame.parse_oversized hlarge] at hnone
        contradiction
      · rw [Frame.parse_cutOff hlimit hcut] at hnone
        contradiction
    · rintro ⟨p, tail, rest, hmark, hwhole⟩
      rw [hrecord hwhole, if_pos hmark]
  case record =>
    intro p tail rest hwhole
    exact ⟨by rw [Frame.parse_whole hlimit hwhole], hrecord hwhole⟩
  case invalid =>
    intro payload rest hwhole hnone
    exact ⟨by rw [hinvalid hwhole hnone], by rw [Frame.parse_whole hlimit hwhole]⟩
  case oversized =>
    intro rest hlarge
    rw [Frame.parse_oversized hlarge]
    exact ⟨rfl, rfl⟩
  case cutOff =>
    intro hcut
    rw [Frame.parse_cutOff hlimit hcut]
    exact ⟨rfl, rfl⟩
  case unchanged =>
    intro hfault
    obtain ⟨fault, hsome⟩ := Option.ne_none_iff_exists'.mp hfault
    exact receive_of_fault (Prod.ext rfl hsome)
  case consumed => exact taken_parse ending bytes

/-! ## Both ends -/

section Connection

variable {σ : Type} [ByteStream σ]

/-- A record is written at once, unless its name is too long. -/
theorem write_eq (p : Preamble) (stream : σ) :
    p.write stream = if 1016 < p.codec.length then (stream, some .objectTooLarge)
      else ByteStream.write (Frame.encode p.octets) stream := by
  have hlarge : limit < p.octets.length ↔ 1016 < p.codec.length := by
    rw [length_octets, limit]
    omega
  rw [write, encode_eq]
  simp only [hlarge]
  by_cases hlong : 1016 < p.codec.length
  · simp only [if_pos hlong]
  · simp only [if_neg hlong]

/-- Reading a record from octets that have arrived follows its rule. -/
theorem resume_readRule {ending : Fault} (f : Feed σ ending) {stream : σ} {bytes : Bytes}
    (hholds : f.Holds stream bytes) (old : Preamble) :
    ∃ stream' result left, resume .size stream = .done stream' result ∧ f.Holds stream' left ∧
      ReadRule ending bytes old (receive old result).1 (receive old result).2 left := by
  obtain ⟨i, hread, hrest⟩ :=
    @Frame.resume_eq_parse σ _ ending f limit { stream } bytes hholds
  exact ⟨i.stream, _, _, by rw [resume, hread]; rfl, hrest, readRule_parse ending bytes old⟩

/-- A writer hands over nothing, which is so just for names of more than 1016 octets, or its record
in one write.  A reader takes just this record, whatever stands behind it, and returns it if it
carries the protocol's mark.  On any octets at all a reader succeeds just if they begin with a frame
that is not too large and whose content begins with a record that carries the mark; it takes no
octet behind that frame, and none behind the count if that is too large; and whatever goes wrong, it
leaves the variable as it was. -/
theorem writer_and_reader_agree {ending : Fault} (f : Feed σ ending) (old : Preamble) :
    (∀ (p : Preamble) (stream : σ),
      p.write stream = if 1016 < p.codec.length then (stream, some .objectTooLarge)
        else ByteStream.write (Frame.encode p.octets) stream) ∧
    (∀ (p : Preamble) (stream : σ) (rest : Bytes), p.codec.length ≤ 1016 →
      f.Holds stream (Frame.encode p.octets ++ rest) →
        ∃ stream' result, resume .size stream = .done stream' result ∧ f.Holds stream' rest ∧
          receive old result =
            if p.mark = protocolMark then (p, none) else (old, some .badMagicNumber)) ∧
    ∀ (stream : σ) (bytes : Bytes), f.Holds stream bytes →
      ∃ stream' result left, resume .size stream = .done stream' result ∧ f.Holds stream' left ∧
        ReadRule ending bytes old (receive old result).1 (receive old result).2 left := by
  refine ⟨write_eq, ?_, ?_⟩
  · intro p stream rest hshort hholds
    obtain ⟨stream', result, left, hread, hleft, hrule⟩ := resume_readRule f hholds old
    have hwhole : Frame.Whole limit (Frame.encode p.octets ++ rest) (p.octets ++ []) rest := by
      rw [List.append_nil]
      refine ⟨?_, rfl⟩
      rw [length_octets, limit]
      omega
    obtain ⟨rfl, hresult⟩ := hrule.record hwhole
    exact ⟨stream', result, hread, hleft, hresult⟩
  · intro stream bytes hholds
    exact resume_readRule f hholds old

/-- A name of no octets behind which more stands in the frame, a record with another mark, and the
count of a frame that is too large. -/
theorem writer_and_reader_agree_three_records :
    let old : Preamble := { codec := [9] }
    let held (bytes : Bytes) : MemoryStream :=
      { incoming := bytes, ended := true, endFault := some .prematureEof }
    (∃ stream' result, resume .size (held [9, 0, 0, 0, 92, 239, 59, 0, 0, 0, 0, 0, 7, 5]) =
      .done stream' result ∧ receive old result = ({ codec := [] }, none) ∧
        stream'.incoming = [5]) ∧
    (∃ stream' result, resume .size (held (Frame.encode (octets { mark := 6 }) ++ [5])) =
      .done stream' result ∧ receive old result = (old, some .badMagicNumber) ∧
        stream'.incoming = [5]) ∧
    ∃ stream' result, resume .size (held [1, 4, 0, 0, 5]) = .done stream' result ∧
      receive old result = (old, some .objectTooLarge) ∧ stream'.incoming = [5] := by
  intro old held
  obtain ⟨-, hrecord, hany⟩ := writer_and_reader_agree (MemoryStream.feed .prematureEof) old
  refine ⟨?_, ?_, ?_⟩
  · obtain ⟨stream', result, left, hread, hleft, hrule⟩ :=
      hany (held [9, 0, 0, 0, 92, 239, 59, 0, 0, 0, 0, 0, 7, 5]) _ ⟨rfl, rfl, rfl, rfl⟩
    have hwhole : Frame.Whole limit [9, 0, 0, 0, 92, 239, 59, 0, 0, 0, 0, 0, 7, 5]
        (octets { codec := [] } ++ [7]) [5] := ⟨by decide, by decide⟩
    obtain ⟨rfl, hresult⟩ := hrule.record hwhole
    exact ⟨stream', result, hread, hresult, hleft.1⟩
  · obtain ⟨stream', result, hread, hleft, hresult⟩ :=
      hrecord { mark := 6 } (held (Frame.encode (octets { mark := 6 }) ++ [5])) [5] (by decide)
        ⟨rfl, rfl, rfl, rfl⟩
    exact ⟨stream', result, hread, hresult, hleft.1⟩
  · obtain ⟨stream', result, left, hread, hleft, hrule⟩ :=
      hany (held [1, 4, 0, 0, 5]) _ ⟨rfl, rfl, rfl, rfl⟩
    have hlarge : Frame.Oversized limit [1, 4, 0, 0, 5] [5] :=
      ⟨1025, by decide, by decide, by decide⟩
    obtain ⟨hfault, rfl⟩ := hrule.oversized hlarge
    have hold := hrule.unchanged (by rw [hfault]; simp)
    exact ⟨stream', result, hread, Prod.ext hold hfault, hleft.1⟩

end Connection

end RemoteCalls.Preamble
