import RemoteCalls.Connection.Preamble
import RemoteCalls.Proofs.Message.Framing
import RemoteCalls.Proofs.Value.RoundTrip

/-!
# RemoteCalls.Proofs.Connection.Preamble

The record that opens a connection, as octets and as it is read.
-/

namespace RemoteCalls.Preamble

/-- The octets of a record, without its count. -/
def octets (p : Preamble) : Bytes := layout.encode p.toVal

/-- A record that can be sent is one frame. -/
theorem encode_ok {p : Preamble} {bytes : Bytes} (h : p.encode = .ok bytes) :
    bytes = Frame.encode p.octets ∧ Frame.Fits limit p.octets ∧ layout.Fits p.toVal := by
  rw [encode, Sink.empty_eq_holding] at h
  rcases hwrite : layout.write p.toVal (.holding []) with ⟨s, fault⟩
  rw [hwrite] at h
  cases fault with
  | some f => simp at h
  | none =>
      have hfits : layout.Fits p.toVal := Ty.fits_of_write (congrArg Prod.snd hwrite)
      rw [Ty.write_holding layout hfits] at hwrite
      obtain ⟨rfl, -⟩ := Prod.mk.inj hwrite
      simp only [Sink.written_holding, List.nil_append] at h
      split at h
      case isTrue => simp at h
      case isFalse hsmall =>
        have hle : p.octets.length ≤ limit := Nat.not_lt.mp hsmall
        refine ⟨(Except.ok.inj h).symm, ⟨hle, Nat.lt_of_le_of_lt hle ?_⟩, hfits⟩
        decide

theorem length_octets (p : Preamble) : p.octets.length = p.codec.length + 8 := by
  have hmark : (Ty.encodeInteger .w32 p.mark.toBitVec).length = 4 := Bytes.length_ofNatLE 4 _
  have hcount : (Ty.encodeCount p.codec.length).length = 4 := Bytes.length_ofNatLE 4 _
  simp only [octets, toVal, Ty.encode, Ty.encodeBytes, List.length_append, hmark, hcount]
  omega

/-- A record is one frame, or too large. -/
theorem encode_eq (p : Preamble) : p.encode =
    if limit < p.octets.length then .error .objectTooLarge else .ok (Frame.encode p.octets) := by
  rw [encode, Sink.empty_eq_holding]
  by_cases hfits : layout.Fits p.toVal
  · rw [Ty.write_holding layout hfits]
    simp only [Sink.written_holding, List.nil_append]
    rfl
  · have hlarge : limit < p.octets.length := by
      have hlimit : limit < Ty.countLimit := by decide
      exact Nat.lt_of_lt_of_le hlimit (Nat.not_lt.mp (mt Ty.fits_of_length hfits))
    rcases hwrite : layout.write p.toVal (.holding []) with ⟨s, fault⟩
    have hfault := Ty.write_of_not_fits hfits []
    rw [hwrite] at hfault
    obtain rfl : fault = some .objectTooLarge := hfault
    rw [if_pos hlarge]

/-- A record is read back, if it carries the protocol's mark. -/
theorem receive_octets {p : Preamble} (hfits : layout.Fits p.toVal) (hmark : p.mark = protocolMark)
    (old : Preamble) : receive old (.ok p.octets) = (p, none) := by
  have hread := layout.read_encode hfits (0, []) [] 0
  rw [List.append_nil] at hread
  rw [receive, ofFrame, Source.ofBytes_eq_plain, octets, hread]
  simp only [ofVal_toVal, hmark, if_true]

section Connection

variable {σ : Type} [ByteStream σ] {p : Preamble} {stream : σ}

/-- Opening a connection that succeeds is one write of the record. -/
theorem write_ok {stream' : σ} (h : p.write stream = (stream', none)) :
    p.encode = .ok (Frame.encode p.octets) ∧
      ByteStream.write (Frame.encode p.octets) stream = (stream', none) ∧
      Frame.Fits limit p.octets ∧ layout.Fits p.toVal := by
  rw [write] at h
  cases hencode : p.encode with
  | error f => simp [hencode] at h
  | ok bytes =>
      obtain ⟨rfl, hframe, hfits⟩ := encode_ok hencode
      rw [hencode] at h
      exact ⟨rfl, h, hframe, hfits⟩

/-- The frame of a record that has arrived is read. -/
theorem resume_encode {ending : Fault} (d : Delivery σ ending) {rest : Bytes}
    (hfits : Frame.Fits limit p.octets) (harrived : d.Arrived stream)
    (hholds : d.Holds stream (Frame.encode p.octets ++ rest)) :
    ∃ stream', resume .size stream = .done stream' (.ok p.octets) ∧ d.Holds stream' rest ∧
      d.Arrived stream' := by
  obtain ⟨i, hread, hrest, hstill⟩ :=
    Frame.resume_encode (i := { stream }) d harrived hfits hholds
  exact ⟨i.stream, by rw [resume, hread]; rfl, hrest, hstill⟩

end Connection

end RemoteCalls.Preamble
