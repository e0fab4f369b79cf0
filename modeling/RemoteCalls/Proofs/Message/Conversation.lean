import RemoteCalls.Message.Codec
import RemoteCalls.Proofs.Message.Framing
import RemoteCalls.Proofs.Value.RoundTrip

/-!
# RemoteCalls.Proofs.Message.Conversation

Messages one after another on a connection, as octets and as they are read.

A header frame is accepted exactly if it holds the octets of a header
(`ofFrame_eq_iff`), so messages can be told apart wherever they stand
(`encode_append_inj`).  `Ends` says which octets hold no further message, and
`receiveAll_eq` that reading gives just the messages in front of such an
end.
-/

namespace RemoteCalls

/-! ## Headers -/

namespace Header

/-- Whether the fields of a header are short enough for their counts. -/
def Fits (h : Header) : Prop := layout.Fits h.toVal

/-- The octets of a header are its three strings, its number, and their counts. -/
theorem length_encode (h : Header) :
    h.encode.length = h.service.length + h.method.length + h.error.length + 20 := by
  have hcount (n : Nat) : (Ty.encodeCount n).length = 4 := Bytes.length_ofNatLE 4 n
  have hseq : (Ty.encodeInteger .w64 h.seq.toBitVec).length = 8 := Bytes.length_ofNatLE 8 _
  simp only [encode, toVal, Ty.encode, Ty.encodeBytes, List.length_append, hcount, hseq]
  omega

/-- The fields of a header are short enough if its octets are few enough for a frame. -/
theorem fits_of_length {h : Header} (hlength : h.encode.length < Ty.countLimit) : h.Fits :=
  Ty.fits_of_length hlength

theorem read_encode {h : Header} (hfits : h.Fits) (old : Header) (rest : Bytes) :
    old.read (.ofBytes (h.encode ++ rest)) = ⟨h, .plain rest h.encode.length, none⟩ := by
  have hread := layout.read_encode hfits old.toVal rest 0
  rw [Nat.zero_add] at hread
  rw [Header.read, Source.ofBytes_eq_plain, encode, hread]
  rfl

/-- A header that can be written is written as its octets. -/
theorem write_empty {h : Header} (hfits : h.Fits) :
    h.write .empty = (.holding h.encode, none) := by
  rw [write, Sink.empty_eq_holding, Ty.write_holding _ hfits]
  rfl

theorem fits_of_write {h : Header} (hwrite : (h.write .empty).2 = none) : h.Fits := by
  rw [write, Sink.empty_eq_holding] at hwrite
  exact Ty.fits_of_write hwrite

/-- A header with a field that is too long for its count cannot be written. -/
theorem write_of_not_fits {h : Header} (hunfit : ¬ h.Fits) :
    (h.write .empty).2 = some .objectTooLarge := by
  rw [write, Sink.empty_eq_holding]
  exact Ty.write_of_not_fits hunfit []

/-- A frame is accepted as a header exactly if it holds the octets of that header. -/
theorem ofFrame_eq_iff {old h : Header} {payload : Bytes} :
    ofFrame old payload = (h, none) ↔ payload = h.encode ∧ h.Fits := by
  constructor
  · intro hframe
    rw [ofFrame, Header.read, Source.ofBytes_eq_plain] at hframe
    rcases hread : layout.read old.toVal (.plain payload 0) with ⟨v, s, fault⟩
    rw [hread] at hframe
    cases fault with
    | some f => simp [Reading.map] at hframe
    | none =>
        obtain ⟨rest, rfl, rfl, hfits⟩ := Ty.encode_of_read rfl hread
        simp only [Reading.map, Source.peek_plain] at hframe
        cases rest with
        | cons b rest => simp at hframe
        | nil =>
            obtain ⟨rfl, -⟩ := Prod.mk.inj hframe
            exact ⟨by rw [List.append_nil]; rfl, hfits⟩
  · rintro ⟨rfl, hfits⟩
    have hread := read_encode hfits old []
    rw [List.append_nil] at hread
    rw [ofFrame, hread]
    rfl

/-- A frame that is not accepted as a header is reported as invalid. -/
theorem ofFrame_fault {old h : Header} {payload : Bytes} {fault : Fault}
    (hframe : ofFrame old payload = (h, some fault)) :
    fault = .invalidData ∧ ∀ other : Header, other.Fits → payload ≠ other.encode := by
  constructor
  · rw [ofFrame] at hframe
    split at hframe
    · exact (Option.some.inj (Prod.mk.inj hframe).2).symm
    · split at hframe
      · exact (Option.some.inj (Prod.mk.inj hframe).2).symm
      · simp at hframe
  · intro other hfits heq
    rw [ofFrame_eq_iff.mpr ⟨heq, hfits⟩] at hframe
    simp at hframe

/-- Two headers have different octets. -/
theorem encode_inj {h h' : Header} (hfits : h.Fits) (hfits' : h'.Fits)
    (heq : h.encode = h'.encode) : h = h' := by
  have hframe : ofFrame {} h.encode = (h, none) := ofFrame_eq_iff.mpr ⟨rfl, hfits⟩
  rw [ofFrame_eq_iff.mpr ⟨heq, hfits'⟩] at hframe
  exact (Prod.mk.inj hframe).1.symm

end Header

/-! ## Frames on a connection that carries messages -/

namespace Codec

variable {σ : Type} [ByteStream σ] {ending : Fault} (d : Delivery σ ending) {c codec : Codec σ}
  {stage : Frame.Stage} {left : Bytes}

include d

/-- A codec that has done reading a frame has got one, or there is none. -/
theorem resume_done (hholds : d.Holds c.stream left) (hstage : stage.Valid c.limit)
    {result : Except Fault Bytes} (h : c.resume stage = .done codec result) :
    codec.limit = c.limit ∧
      ((∃ payload rest, result = .ok payload ∧ Frame.Fits c.limit payload ∧
        stage.taken ++ left = Frame.encode payload ++ rest ∧ d.Holds codec.stream rest ∧
        (d.Arrived c.stream → d.Arrived codec.stream)) ∨
      ∃ fault, result = .error fault ∧
        Frame.Broken c.limit ending (stage.taken ++ left) fault) := by
  obtain ⟨i, hread, rfl⟩ := Frame.Progress.eq_done_of_map h
  exact ⟨rfl, Frame.resume_done d hholds hstage hread⟩

/-- A codec that has done reading a frame has got the one that was in front. -/
theorem resume_done_encode (hholds : d.Holds c.stream left) (hstage : stage.Valid c.limit)
    {payload rest : Bytes} (hfits : Frame.Fits c.limit payload)
    (hfront : stage.taken ++ left = Frame.encode payload ++ rest) {result : Except Fault Bytes}
    (h : c.resume stage = .done codec result) :
    codec.limit = c.limit ∧ result = .ok payload ∧ d.Holds codec.stream rest := by
  obtain ⟨i, hread, rfl⟩ := Frame.Progress.eq_done_of_map h
  obtain ⟨hresult, hrest, -⟩ := Frame.resume_done_encode d hholds hstage hfits hfront hread
  exact ⟨rfl, hresult, hrest⟩

/-- A codec that has to wait has taken the octets of the stage it has reached. -/
theorem resume_waiting (hholds : d.Holds c.stream left) (hstage : stage.Valid c.limit)
    {reached : Frame.Stage} (h : c.resume stage = .waiting reached codec) :
    codec.limit = c.limit ∧ ¬ d.Arrived c.stream ∧ reached.Valid c.limit ∧
      ∃ rest, stage.taken ++ left = reached.taken ++ rest ∧ d.Holds codec.stream rest := by
  obtain ⟨i, hread, rfl⟩ := Frame.Progress.eq_waiting_of_map h
  exact ⟨rfl, Frame.resume_waiting d hholds hstage hread⟩

/-- A frame that has arrived is read. -/
theorem resume_encode (harrived : d.Arrived c.stream) {payload rest : Bytes}
    (hfits : Frame.Fits c.limit payload)
    (hholds : d.Holds c.stream (Frame.encode payload ++ rest)) :
    ∃ codec, c.resume .size = .done codec (.ok payload) ∧ codec.limit = c.limit ∧
      d.Holds codec.stream rest ∧ d.Arrived codec.stream := by
  obtain ⟨i, hread, hrest, hstill⟩ := Frame.resume_encode d harrived hfits hholds
  exact ⟨{ c with toInput := i }, by rw [resume, hread, Frame.Progress.map], rfl, hrest, hstill⟩

omit d in
/-- Writing a message is one write to the connection, or none, and leaves the limit on frames. -/
theorem write_stream {header : Header} {body : Option BodyWriter} {entries : List Log.Entry}
    {fault : Option Fault} (h : c.write header body = (codec, entries, fault)) :
    codec.limit = c.limit ∧
      (codec.stream = c.stream ∨ ∃ out, codec.stream = (ByteStream.write out c.stream).1) := by
  rw [write] at h
  rcases hencode : encodeMessage c.limit header body with ⟨entries', result⟩
  cases result with
  | error f =>
      simp only [hencode, Prod.mk.injEq] at h
      obtain ⟨rfl, -⟩ := h
      exact ⟨rfl, .inl rfl⟩
  | ok bytes =>
      simp only [hencode, Prod.mk.injEq] at h
      obtain ⟨rfl, -⟩ := h
      exact ⟨rfl, .inr ⟨bytes, rfl⟩⟩

/-- Writing leaves what is still to be read, and the limit on frames. -/
theorem write_holds {header : Header} {body : Option BodyWriter} {entries : List Log.Entry}
    {fault : Option Fault} (h : c.write header body = (codec, entries, fault)) :
    codec.limit = c.limit ∧ ∀ left, d.Holds c.stream left → d.Holds codec.stream left := by
  obtain ⟨hlimit, hsame | ⟨out, hwritten⟩⟩ := write_stream h
  · exact ⟨hlimit, fun _ hholds => hsame ▸ hholds⟩
  · exact ⟨hlimit, fun _ hholds => hwritten ▸ d.write out hholds⟩

end Codec

/-! ## Messages -/

/-- A header, and the content of the body frame behind it. -/
structure Message where
  header : Header
  body : Bytes
  deriving DecidableEq, Repr

namespace Message

/-- The octets of a message. -/
def encode (m : Message) : Bytes := Frame.encode m.header.encode ++ Frame.encode m.body

/-- Whether a message can be sent in frames of at most `limit` octets. -/
structure Fits (limit : Nat) (m : Message) : Prop where
  header : m.header.Fits
  frame : Frame.Fits limit m.header.encode
  body : Frame.Fits limit m.body

variable {limit : Nat} {ending : Fault}

/-- A message fits if neither of its frames exceeds the limit. -/
theorem fits_of_length (hlimit : limit < Ty.countLimit) {m : Message}
    (hheader : m.header.encode.length ≤ limit) (hbody : m.body.length ≤ limit) : m.Fits limit :=
  ⟨Header.fits_of_length (Nat.lt_of_le_of_lt hheader hlimit),
    ⟨hheader, Nat.lt_of_le_of_lt hheader hlimit⟩, ⟨hbody, Nat.lt_of_le_of_lt hbody hlimit⟩⟩

/-- A message and what stands behind it can be told apart. -/
theorem encode_append_inj {m m' : Message} {x y : Bytes} (hm : m.Fits limit) (hm' : m'.Fits limit)
    (h : m.encode ++ x = m'.encode ++ y) : m = m' ∧ x = y := by
  obtain ⟨header, body⟩ := m
  obtain ⟨header', body'⟩ := m'
  rw [encode, encode, List.append_assoc, List.append_assoc] at h
  obtain ⟨hheader, hrest⟩ := Frame.encode_append_inj hm.frame hm'.frame h
  obtain ⟨rfl, hafter⟩ := Frame.encode_append_inj hm.body hm'.body hrest
  obtain rfl := Header.encode_inj hm.header hm'.header hheader
  exact ⟨rfl, hafter⟩

/-- Octets at whose front there is no message: the header that stands there alone, if one does, and
the fault that reading a message ends with, if the end is reported as `ending`. -/
inductive Ends (limit : Nat) (ending : Fault) : Bytes → Option Header → Fault → Prop where
  | frame {bytes : Bytes} {fault : Fault} (h : Frame.Broken limit ending bytes fault) :
      Ends limit ending bytes none fault
  | header {payload : Bytes} (rest : Bytes) (hfits : Frame.Fits limit payload)
      (h : ∀ header : Header, header.Fits → payload ≠ header.encode) :
      Ends limit ending (Frame.encode payload ++ rest) none .invalidData
  | body {header : Header} {rest : Bytes} {fault : Fault} (hheader : header.Fits)
      (hfits : Frame.Fits limit header.encode) (h : Frame.Broken limit ending rest fault) :
      Ends limit ending (Frame.encode header.encode ++ rest) (some header) fault

/-- There is no message at such an end. -/
theorem Ends.ne_encode {bytes : Bytes} {cut : Option Header} {fault : Fault}
    (h : Ends limit ending bytes cut fault) {m : Message} (hm : m.Fits limit) (rest : Bytes) :
    bytes ≠ m.encode ++ rest := by
  intro heq
  rw [encode, List.append_assoc] at heq
  cases h with
  | frame hbroken => exact hbroken.ne_encode hm.frame _ heq
  | header rest' hfits hnone =>
      obtain ⟨hpayload, -⟩ := Frame.encode_append_inj hfits hm.frame heq
      exact hnone m.header hm.header hpayload
  | body hheader hfits hbroken =>
      obtain ⟨-, hrest⟩ := Frame.encode_append_inj hfits hm.frame heq
      exact hbroken.ne_encode hm.body _ hrest

theorem encode_ne_nil (m : Message) : m.encode ≠ [] := by
  intro hnil
  have hlen := congrArg List.length hnil
  rw [encode, List.length_append, Frame.encode, List.length_append, Bytes.length_ofNatLE] at hlen
  simp at hlen

/-- Messages in front of others are the first of them. -/
theorem prefix_of_flatMap {messages all : List Message} {rest : Bytes}
    (hmessages : ∀ m ∈ messages, m.Fits limit) (hall : ∀ m ∈ all, m.Fits limit)
    (h : all.flatMap encode = messages.flatMap encode ++ rest) :
    ∃ more, all = messages ++ more ∧ rest = more.flatMap encode := by
  induction messages generalizing all with
  | nil => exact ⟨all, rfl, h.symm⟩
  | cons m messages ih =>
      rw [List.flatMap_cons, List.append_assoc] at h
      cases all with
      | nil => exact absurd (List.append_eq_nil_iff.mp h.symm).1 m.encode_ne_nil
      | cons m' all =>
          obtain ⟨hm, hlater⟩ := List.forall_mem_cons.mp hmessages
          obtain ⟨hm', hothers⟩ := List.forall_mem_cons.mp hall
          rw [List.flatMap_cons] at h
          obtain ⟨rfl, hsame⟩ := encode_append_inj hm' hm h
          obtain ⟨more, rfl, hrest⟩ := ih hlater hothers hsame
          exact ⟨more, rfl, hrest⟩

/-- A header in front of messages is that of the first. -/
theorem header_of_flatMap {header : Header} {all : List Message} {rest : Bytes}
    (hheader : header.Fits) (hframe : Frame.Fits limit header.encode)
    (hall : ∀ m ∈ all, m.Fits limit)
    (h : all.flatMap encode = Frame.encode header.encode ++ rest) :
    ∃ m more, all = m :: more ∧ m.header = header := by
  cases all with
  | nil =>
      have hlen := congrArg List.length h
      simp only [Frame.encode, List.flatMap_nil, List.length_nil, List.length_append,
        Bytes.length_ofNatLE] at hlen
      omega
  | cons m more =>
      have hm := hall m List.mem_cons_self
      rw [List.flatMap_cons, encode, List.append_assoc] at h
      obtain ⟨hsame, -⟩ := Frame.encode_append_inj hm.frame hframe h
      exact ⟨m, more, rfl, Header.encode_inj hm.header hheader hsame⟩

/-- A message that is cut off anywhere is no message, and reading it comes to the end. -/
theorem ends_of_prefix {m : Message} (hm : m.Fits limit) {part : Bytes} (hpart : part <+: m.encode)
    (hcut : part ≠ m.encode) : ∃ cut, Ends limit ending part cut ending := by
  obtain ⟨rest, hrest⟩ := hpart
  rw [encode] at hrest hcut
  rcases List.append_eq_append_iff.mp hrest with ⟨more, hmore, -⟩ | ⟨begun, rfl, hbody⟩
  · by_cases hall : part = Frame.encode m.header.encode
    · have hbare : Ends limit ending (Frame.encode m.header.encode ++ []) (some m.header) ending :=
        .body hm.header hm.frame (.count (by simp))
      rw [List.append_nil, ← hall] at hbare
      exact ⟨_, hbare⟩
    · exact ⟨none, .frame (Frame.broken_of_prefix hm.frame ⟨more, hmore.symm⟩ hall)⟩
  · have hbegun : begun ≠ Frame.encode m.body := fun heq => hcut (heq ▸ rfl)
    exact ⟨_, .body hm.header hm.frame
      (Frame.broken_of_prefix hm.body ⟨rest, hbody.symm⟩ hbegun)⟩

/-! ## Writing messages -/

/-- The octets of a message that can be written are those of its header and of what its body writer
leaves. -/
theorem encodeMessage_ok {header : Header} {body : Option BodyWriter} {entries : List Log.Entry}
    {bytes : Bytes} (hlimit : limit < Ty.countLimit)
    (h : Codec.encodeMessage limit header body = (entries, .ok bytes)) :
    ∃ m : Message, m.header = header ∧ m.Fits limit ∧ bytes = m.encode ∧
      Codec.bodyPayload body = (m.body, entries, none) := by
  rw [Codec.encodeMessage] at h
  rcases hhead : header.write .empty with ⟨s, fault⟩
  rw [hhead] at h
  cases fault with
  | some f => simp at h
  | none =>
      have hheader : header.Fits := Header.fits_of_write (congrArg Prod.snd hhead)
      rw [Header.write_empty hheader] at hhead
      obtain ⟨rfl, -⟩ := Prod.mk.inj hhead
      rcases hbody : Codec.bodyPayload body with ⟨payload, entries', fault⟩
      cases fault with
      | some f => simp [hbody] at h
      | none =>
          simp only [hbody, Sink.written_holding] at h
          split at h
          case isTrue => simp at h
          case isFalse hsmall =>
            rw [not_or, Nat.not_lt, Nat.not_lt] at hsmall
            obtain ⟨rfl, hbytes⟩ := Prod.mk.inj h
            exact ⟨⟨header, payload⟩, rfl, fits_of_length hlimit hsmall.1 hsmall.2,
              (Except.ok.inj hbytes).symm, rfl⟩

section Write

variable {σ : Type} [ByteStream σ] {c c' : Codec σ} {header : Header} {body : Option BodyWriter}
  {entries : List Log.Entry}

/-- A write that succeeds is one write of a message. -/
theorem write_ok (hlimit : c.limit < Ty.countLimit)
    (h : c.write header body = (c', entries, none)) :
    ∃ (m : Message) (stream : σ), m.header = header ∧ m.Fits c.limit ∧
      Codec.bodyPayload body = (m.body, entries, none) ∧
      ByteStream.write m.encode c.stream = (stream, none) ∧ c' = { c with stream } := by
  rw [Codec.write] at h
  rcases hencode : Codec.encodeMessage c.limit header body with ⟨entries', result⟩
  cases result with
  | error f => simp [hencode] at h
  | ok bytes =>
      obtain ⟨m, hheader, hfits, rfl, hbody⟩ := encodeMessage_ok hlimit hencode
      rcases hwrite : ByteStream.write m.encode c.stream with ⟨stream, fault⟩
      simp only [hencode, hwrite, Prod.mk.injEq] at h
      obtain ⟨rfl, rfl, rfl⟩ := h
      exact ⟨m, stream, hheader, hfits, hbody, hwrite, rfl⟩

/-- A write that fails has not reached the connection, or the connection has failed. -/
theorem write_fault (hlimit : c.limit < Ty.countLimit) {fault : Fault}
    (h : c.write header body = (c', entries, some fault)) :
    c' = c ∨ ∃ (m : Message) (stream : σ), m.header = header ∧ m.Fits c.limit ∧
      Codec.bodyPayload body = (m.body, entries, none) ∧
      ByteStream.write m.encode c.stream = (stream, some fault) ∧ c' = { c with stream } := by
  rw [Codec.write] at h
  rcases hencode : Codec.encodeMessage c.limit header body with ⟨entries', result⟩
  cases result with
  | error f =>
      simp only [hencode, Prod.mk.injEq] at h
      exact .inl h.1.symm
  | ok bytes =>
      obtain ⟨m, hheader, hfits, rfl, hbody⟩ := encodeMessage_ok hlimit hencode
      rcases hwrite : ByteStream.write m.encode c.stream with ⟨stream, fault'⟩
      simp only [hencode, hwrite, Prod.mk.injEq] at h
      obtain ⟨rfl, rfl, rfl⟩ := h
      exact .inr ⟨m, stream, hheader, hfits, hbody, hwrite, rfl⟩

end Write

/-! ## Reading messages one after another -/

/-- Takes a body as it is. -/
def wholeBody : BodyReader Bytes := fun _ s => (s.rest, .accepted)

variable {σ : Type} [ByteStream σ]

/-- Read at most `fuel` messages, a header and a body in turn: those read whole, and the fault at
which the reading stopped, if it did not have to wait. -/
def receiveAll : Nat → Codec σ → List Message × Option Fault
  | 0, _ => ([], none)
  | fuel + 1, c =>
      match c.readHeader {} with
      | none => ([], none)
      | some (_, _, some f) => ([], some f)
      | some (c, header, none) =>
          match c.readBody (some wholeBody) [] with
          | none => ([], none)
          | some (_, _, _, some f) => ([], some f)
          | some (c, body, _, none) =>
              let (messages, fault) := receiveAll fuel c
              (⟨header, body⟩ :: messages, fault)

section Receive

variable (d : Delivery σ ending) {c : Codec σ} (harrived : d.Arrived c.stream)

include harrived

theorem readHeader_encode {h : Header} (old : Header) {rest : Bytes} (hheader : h.Fits)
    (hfits : Frame.Fits c.limit h.encode)
    (hholds : d.Holds c.stream (Frame.encode h.encode ++ rest)) :
    ∃ c', c.readHeader old = some (c', h, none) ∧ c'.limit = c.limit ∧
      d.Holds c'.stream rest ∧ d.Arrived c'.stream := by
  obtain ⟨c', hread, hlimit, hrest, hstill⟩ := c.resume_encode d harrived hfits hholds
  refine ⟨c', ?_, hlimit, hrest, hstill⟩
  simp only [Codec.readHeader, hread, Header.receive, Header.ofFrame_eq_iff.mpr ⟨rfl, hheader⟩]

theorem readBody_encode {ρ : Type} (reader : Option (BodyReader ρ)) (reply : ρ)
    {body rest : Bytes} (hfits : Frame.Fits c.limit body)
    (hholds : d.Holds c.stream (Frame.encode body ++ rest)) :
    ∃ c', c.readBody reader reply = some (c', BodyReader.ofFrame reader reply body) ∧
      c'.limit = c.limit ∧ d.Holds c'.stream rest ∧ d.Arrived c'.stream := by
  obtain ⟨c', hread, hlimit, hrest, hstill⟩ := c.resume_encode d harrived hfits hholds
  refine ⟨c', ?_, hlimit, hrest, hstill⟩
  simp only [Codec.readBody, hread, BodyReader.receive]

/-- At an end nothing is received, and the end is reported. -/
theorem receiveAll_ends {rest : Bytes} {cut : Option Header} {fault : Fault}
    (hends : Ends c.limit ending rest cut fault) (hholds : d.Holds c.stream rest) (fuel : Nat) :
    receiveAll (fuel + 1) c = ([], some fault) := by
  cases hends with
  | frame hbroken =>
      obtain ⟨i, hread⟩ := Frame.resume_broken d harrived hbroken hholds
      simp only [receiveAll, Codec.readHeader, Codec.resume, hread, Frame.Progress.map,
        Header.receive]
  | @header payload rest hfits hnone =>
      obtain ⟨i, hread, -⟩ := Frame.resume_encode d harrived hfits hholds
      rcases hframe : Header.ofFrame {} payload with ⟨h, fault⟩
      cases fault with
      | none =>
          obtain ⟨heq, hheader⟩ := Header.ofFrame_eq_iff.mp hframe
          exact absurd heq (hnone h hheader)
      | some f =>
          obtain ⟨rfl, -⟩ := Header.ofFrame_fault hframe
          simp only [receiveAll, Codec.readHeader, Codec.resume, hread, Frame.Progress.map,
            Header.receive, hframe]
  | body hheader hfits hbroken =>
      obtain ⟨c', hread, hlimit, hrest, hstill⟩ := readHeader_encode d harrived {} hheader hfits hholds
      obtain ⟨i, hbody⟩ := Frame.resume_broken d hstill (hlimit ▸ hbroken) hrest
      simp only [receiveAll, hread, Codec.readBody, Codec.resume, hbody, Frame.Progress.map,
        BodyReader.receive]

end Receive

/-- What is in front of an end is received, and the end is reported. -/
theorem receiveAll_eq (d : Delivery σ ending) {messages : List Message} {rest : Bytes}
    {cut : Option Header} {fault : Fault} {c : Codec σ}
    (hholds : d.Holds c.stream (messages.flatMap encode ++ rest))
    (harrived : d.Arrived c.stream) (hfits : ∀ m ∈ messages, m.Fits c.limit)
    (hends : Ends c.limit ending rest cut fault) {fuel : Nat} (hfuel : messages.length < fuel) :
    receiveAll fuel c = (messages, some fault) := by
  induction messages generalizing c fuel with
  | nil =>
      obtain ⟨fuel, rfl⟩ := Nat.exists_eq_add_one_of_ne_zero (Nat.ne_of_gt hfuel)
      exact receiveAll_ends d harrived hends hholds fuel
  | cons m messages ih =>
      obtain ⟨fuel, rfl⟩ := Nat.exists_eq_add_one_of_ne_zero (Nat.ne_of_gt (Nat.zero_lt_of_lt hfuel))
      obtain ⟨hm, hmore⟩ := List.forall_mem_cons.mp hfits
      rw [List.flatMap_cons, encode, List.append_assoc, List.append_assoc] at hholds
      obtain ⟨c₁, hheader, hlimit₁, hholds₁, harrived₁⟩ :=
        readHeader_encode d harrived {} hm.header hm.frame hholds
      obtain ⟨c₂, hbody, hlimit₂, hholds₂, harrived₂⟩ :=
        readBody_encode d harrived₁ (some wholeBody) [] (hlimit₁ ▸ hm.body) hholds₁
      have hlimit : c₂.limit = c.limit := hlimit₂.trans hlimit₁
      have hlater : receiveAll fuel c₂ = (messages, some fault) :=
        ih hholds₂ harrived₂ (hlimit ▸ hmore) (hlimit ▸ hends) (Nat.lt_of_succ_lt_succ hfuel)
      have hwhole : BodyReader.ofFrame (some wholeBody) [] m.body = (m.body, [], none) := rfl
      simp only [receiveAll, hheader, hbody, hwhole, hlater]

end Message

end RemoteCalls
