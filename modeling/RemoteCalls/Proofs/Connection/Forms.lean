import RemoteCalls.Proofs.Connection.Agreement

/-!
# RemoteCalls.Proofs.Connection.Forms

The forms in which a record is accepted.

A writer gives a record one form, the frame of its octets.  A reader asks for a
frame that begins with a record, and does not look behind the record there.  So
what it accepts is the writer's form or that form with octets added inside the
frame, and nothing else.

Main statement: `accepted_forms`; at `record_with_octet_behind` an octet stands
inside the frame that no writer has put there.
-/

namespace RemoteCalls.Preamble

/-- A frame that holds a record and, behind it, `tail`. -/
def form (p : Preamble) (tail : Bytes) : Bytes := Frame.encode (p.octets ++ tail)

theorem form_nil (p : Preamble) : p.form [] = Frame.encode p.octets := by
  rw [form, List.append_nil]

theorem length_form (p : Preamble) (tail : Bytes) :
    (p.form tail).length = (p.form []).length + tail.length := by
  simp only [form, Frame.encode, List.length_append, Bytes.length_ofNatLE, List.append_nil]
  omega

/-- Only a form without octets behind the record is as long as the writer's. -/
theorem form_eq_form_nil_iff {p : Preamble} {tail : Bytes} :
    p.form tail = p.form [] ↔ tail = [] := by
  constructor
  · intro heq
    have hlen := congrArg List.length heq
    rw [length_form] at hlen
    exact List.eq_nil_of_length_eq_zero (by omega)
  · rintro rfl
    rfl

/-- A record that stands in a frame of a reader is short enough for a writer. -/
theorem short_of_form {p : Preamble} {tail : Bytes} (h : (p.octets ++ tail).length ≤ limit) :
    p.codec.length ≤ 1016 := by
  rw [List.length_append, length_octets, limit] at h
  omega

/-- A record that a reader accepts stands in front of a frame, and nothing but the frame is taken. -/
theorem ReadRule.form_of_accepted {ending : Fault} {bytes left : Bytes} {old p : Preamble}
    (h : ReadRule ending bytes old p none left) :
    p.mark = protocolMark ∧ ∃ tail, (p.octets ++ tail).length ≤ limit ∧
      bytes = p.form tail ++ left := by
  obtain ⟨q, tail, rest, hmark, hwhole⟩ := h.accepted_iff.mp rfl
  obtain ⟨rfl, hread⟩ := h.record hwhole
  rw [if_pos hmark] at hread
  obtain ⟨rfl, -⟩ := Prod.mk.inj hread
  exact ⟨hmark, tail, hwhole⟩

section Connection

variable {σ τ : Type} [ByteStream σ] [ByteStream τ]

/-- Whatever octets a reader has before it, if it accepts a record, the record carries the mark and
the octets that were taken are a form of it.  Every form of a record that carries the mark and fits
into a frame is accepted.  A writer can write each such record, and hands over the form that has
nothing behind the record: so what was taken is what a writer writes exactly if the frame ends where
the record does. -/
theorem accepted_forms {ending : Fault} (f : Feed σ ending) (old p : Preamble) {stream : σ}
    {bytes : Bytes} (hholds : f.Holds stream bytes) :
    (∃ stream' result left, resume .size stream = .done stream' result ∧ f.Holds stream' left ∧
      (receive old result = (p, none) → p.mark = protocolMark ∧
        ∃ tail, (p.octets ++ tail).length ≤ limit ∧ bytes = p.form tail ++ left) ∧
      ∀ tail rest, p.mark = protocolMark → (p.octets ++ tail).length ≤ limit →
        bytes = p.form tail ++ rest → receive old result = (p, none) ∧ left = rest) ∧
    ∀ tail, (p.octets ++ tail).length ≤ limit →
      (∀ out : τ, p.write out = ByteStream.write (p.form []) out) ∧
      (p.form tail = p.form [] ↔ tail = []) := by
  constructor
  · obtain ⟨stream', result, left, hread, hleft, hrule⟩ := resume_readRule f hholds old
    refine ⟨stream', result, left, hread, hleft, ?_, ?_⟩
    · intro haccepted
      rw [haccepted] at hrule
      exact hrule.form_of_accepted
    · intro tail rest hmark hsmall hbytes
      obtain ⟨rfl, hresult⟩ := hrule.record ⟨hsmall, hbytes⟩
      rw [if_pos hmark] at hresult
      exact ⟨hresult, rfl⟩
  · intro tail hsmall
    refine ⟨fun out => ?_, form_eq_form_nil_iff⟩
    rw [write_eq, if_neg (Nat.not_lt.mpr (short_of_form hsmall)), form_nil]

/-- A record in a frame that ends with it, and an octet behind the frame. -/
theorem accepted_forms_short_name :
    let p : Preamble := { codec := [97] }
    let held : MemoryStream :=
      { incoming := p.form [] ++ [5], ended := true, endFault := some .prematureEof }
    (∃ stream' result, resume .size held = .done stream' result ∧
      receive {} result = (p, none) ∧ stream'.incoming = [5]) ∧
    p.write held = ByteStream.write (p.form []) held := by
  intro p held
  have hfits : (p.octets ++ []).length ≤ limit := by decide
  have hholds : (MemoryStream.feed .prematureEof).Holds held (p.form [] ++ [5]) :=
    ⟨rfl, rfl, rfl, rfl⟩
  obtain ⟨⟨stream', result, left, hread, hleft, -, haccepts⟩, hwrites⟩ :=
    accepted_forms (τ := MemoryStream) (MemoryStream.feed .prematureEof) {} p hholds
  obtain ⟨hresult, rfl⟩ := haccepts [] [5] rfl hfits rfl
  exact ⟨⟨stream', result, hread, hresult, hleft.1⟩, (hwrites [] hfits).1 held⟩

/-- An octet behind the record in its frame is taken and passed over: the record is accepted,
although no writer writes it like this. -/
theorem record_with_octet_behind :
    let p : Preamble := { codec := [97] }
    let held : MemoryStream :=
      { incoming := [10, 0, 0, 0, 92, 239, 59, 0, 1, 0, 0, 0, 97, 120]
        ended := true
        endFault := some .prematureEof }
    (∃ stream' result, resume .size held = .done stream' result ∧
      receive {} result = (p, none) ∧ stream'.incoming = []) ∧
    p.encode = .ok [9, 0, 0, 0, 92, 239, 59, 0, 1, 0, 0, 0, 97] := by
  intro p held
  constructor
  · have hholds : (MemoryStream.feed .prematureEof).Holds held held.incoming :=
      ⟨rfl, rfl, rfl, rfl⟩
    obtain ⟨stream', result, left, hread, hleft, hrule⟩ :=
      resume_readRule (MemoryStream.feed .prematureEof) hholds {}
    have hwhole : Frame.Whole limit held.incoming (p.octets ++ [120]) [] :=
      ⟨by decide, by decide⟩
    obtain ⟨rfl, hresult⟩ := hrule.record hwhole
    exact ⟨stream', result, hread, hresult, hleft.1⟩
  · have hsmall : ¬ limit < p.octets.length := by decide
    have hframe : Frame.encode p.octets = [9, 0, 0, 0, 92, 239, 59, 0, 1, 0, 0, 0, 97] := by decide
    rw [encode_eq, if_neg hsmall, hframe]

end Connection

end RemoteCalls.Preamble
