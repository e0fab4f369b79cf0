import Mathlib.Data.List.Infix
import RemoteCalls.Proofs.Message.Framing

/-!
# RemoteCalls.Proofs.Transport.Lossless

Connections that stay open and lose nothing.

On a `Pipe` a read gets all that it asks for, or waits: the connection never ends
while it is in use.  So a frame is read exactly if it is sent, however late its
octets arrive.

Two connections in memory are joined by handing what is written to one on to the
other.  `MemoryStream.pipe` is one end of such a line, on which certain octets
arrive bit by bit (`Inflow`).
-/

namespace RemoteCalls

/-! ## Open connections -/

/-- The connections in state `σ` that give certain octets, sooner or later, and take whatever is
written to them. -/
structure Pipe (σ : Type) [ByteStream σ] where
  /-- These octets are still to be read. -/
  Holds : σ → Bytes → Prop
  /-- What has been taken. -/
  taken : σ → Bytes
  /-- A read that does not have to wait gets what it asks for from the front. -/
  read_done : ∀ {s s' : σ} {bytes got : Bytes} {count : Nat} {fault : Option Fault},
    Holds s bytes → ByteStream.read count s = .done s' got fault →
      count ≤ bytes.length ∧ got = bytes.take count ∧ fault = none ∧
        Holds s' (bytes.drop count) ∧ taken s' = taken s
  write : ∀ {s : σ} {bytes : Bytes} (out : Bytes), Holds s bytes →
    ∃ s', ByteStream.write out s = (s', none) ∧ taken s' = taken s ++ out ∧ Holds s' bytes

namespace Pipe

variable {σ : Type} [ByteStream σ] (p : Pipe σ)

/-- What arrives on an open connection.  It never ends, so it does not matter what its end would be
reported as. -/
def delivery (ending : Fault) : Delivery σ ending where
  Holds := p.Holds
  Arrived _ := False
  read_done hholds hread := by
    obtain ⟨hle, hgot, hfault, hrest, -⟩ := p.read_done hholds hread
    exact .inl ⟨hle, hgot, hfault, hrest, id⟩
  read_arrived _ _ := False.elim
  write out hholds := by
    obtain ⟨s', hwrite, -, hstill⟩ := p.write out hholds
    rw [hwrite]
    exact hstill
  write_arrived _ := False.elim

section Frames

variable {limit : Nat} {stage : Frame.Stage} {i i' : Frame.Input σ} {left : Bytes}
  {result : Except Fault Bytes} (hholds : p.Holds i.stream left)

include hholds

/-- Reading a frame leaves what has been taken. -/
theorem taken_resume : p.taken (Frame.resume limit stage i).state.stream = p.taken i.stream := by
  have hread {s s' : σ} {count : Nat} {got : Bytes} {fault : Option Fault}
      (h : (∃ bytes, p.Holds s bytes) ∧ p.taken s = p.taken i.stream)
      (hread : ByteStream.read count s = .done s' got fault) :
      (∃ bytes, p.Holds s' bytes) ∧ p.taken s' = p.taken i.stream := by
    obtain ⟨⟨bytes, hholds⟩, htaken⟩ := h
    obtain ⟨-, -, -, hrest, hsame⟩ := p.read_done hholds hread
    exact ⟨⟨_, hrest⟩, hsame.trans htaken⟩
  exact (Frame.resume_state hread limit stage ⟨⟨left, hholds⟩, rfl⟩).2

/-- A read that is done has got the frame that was in front. -/
theorem resume_done (hstage : stage.Valid limit) {payload rest : Bytes}
    (hfits : Frame.Fits limit payload) (hfront : stage.taken ++ left = Frame.encode payload ++ rest)
    (h : Frame.resume limit stage i = .done i' result) :
    result = .ok payload ∧ p.Holds i'.stream rest ∧ p.taken i'.stream = p.taken i.stream := by
  obtain ⟨hresult, hrest, -⟩ :=
    Frame.resume_done_encode (p.delivery .connectionClosed) hholds hstage hfits hfront h
  have htaken : p.taken (Frame.resume limit stage i).state.stream = _ := p.taken_resume hholds
  rw [h] at htaken
  exact ⟨hresult, hrest, htaken⟩

/-- A read that has to wait has reached a stage whose octets it has taken. -/
theorem resume_waiting (hstage : stage.Valid limit) {reached : Frame.Stage}
    (h : Frame.resume limit stage i = .waiting reached i') :
    reached.Valid limit ∧ (∃ rest, stage.taken ++ left = reached.taken ++ rest ∧
      p.Holds i'.stream rest) ∧ p.taken i'.stream = p.taken i.stream := by
  obtain ⟨-, hreached, hrest⟩ :=
    Frame.resume_waiting (p.delivery .connectionClosed) hholds hstage h
  have htaken : p.taken (Frame.resume limit stage i).state.stream = _ := p.taken_resume hholds
  rw [h] at htaken
  exact ⟨hreached, hrest, htaken⟩

/-- Where nothing is to come, a read waits. -/
theorem resume_ne_done (hnothing : stage.taken ++ left = []) :
    Frame.resume limit stage i ≠ .done i' result := by
  obtain ⟨htaken, rfl⟩ := List.append_eq_nil_iff.mp hnothing
  cases stage with
  | payload count =>
      have hlen := congrArg List.length htaken
      rw [Frame.Stage.taken, Bytes.length_ofNatLE] at hlen
      contradiction
  | size =>
      intro h
      cases hread : ByteStream.read 4 i.stream with
      | waiting => simp [Frame.resume, hread] at h
      | done stream got fault =>
          have hfour := (p.read_done hholds hread).1
          contradiction

end Frames

end Pipe

/-! ## Connections in memory -/

namespace MemoryStream

/-- A connection that is open and on which nothing is set to happen. -/
structure IsOpen (s : MemoryStream) : Prop where
  closed : s.closed = false
  ended : s.ended = false
  endFault : s.endFault = some .connectionClosed
  writeFault : s.writeFault = none
  duringWrite : s.duringWrite = []
  endsDuringWrite : s.endsDuringWrite = false

/-- Whatever has come and gone, an open connection is open. -/
theorem IsOpen.flow {s : MemoryStream} (h : s.IsOpen) (incoming : Bytes) (consumed : Nat)
    (outgoing : Bytes) : IsOpen { s with incoming, consumed, outgoing } :=
  ⟨h.closed, h.ended, h.endFault, h.writeFault, h.duringWrite, h.endsDuringWrite⟩

/-- A read of an open connection gets what it asks for if that has arrived. -/
theorem read_of_isOpen {s s' : MemoryStream} (h : s.IsOpen) {count : Nat} {got : Bytes}
    {fault : Option Fault} (hread : ByteStream.read count s = .done s' got fault) :
    count ≤ s.incoming.length ∧ got = s.incoming.take count ∧ fault = none ∧
      s' = { s with incoming := s.incoming.drop count, consumed := s.consumed + count } := by
  simp only [ByteStream.read, MemoryStream.read] at hread
  rw [if_neg (by simp [h.closed])] at hread
  split at hread
  case isFalse =>
    rw [if_neg (by simp [h.ended])] at hread
    contradiction
  case isTrue hlen =>
    obtain ⟨rfl, rfl, rfl⟩ := Received.done.inj hread
    rw [hlen]
    rw [List.length_take] at hlen
    exact ⟨by omega, rfl, rfl, rfl⟩

/-- A write to an open connection takes everything. -/
theorem write_of_isOpen {s : MemoryStream} (h : s.IsOpen) (out : Bytes) :
    ByteStream.write out s = ({ s with outgoing := s.outgoing ++ out }, none) := by
  simp [ByteStream.write, MemoryStream.write, meanwhile, h.closed, h.ended, h.writeFault,
    h.duringWrite, h.endsDuringWrite]

/-- Of all the octets that are to arrive, some more arrive. -/
def Inflow (all : Bytes) (s s' : MemoryStream) : Prop :=
  ∃ count, s' = s.arrive ((all.drop (s.consumed + s.incoming.length)).take count)

/-- What arrives when few octets are to arrive may also arrive when more are. -/
theorem Inflow.mono {all all' : Bytes} (hle : all <+: all') {s s' : MemoryStream}
    (h : Inflow all s s') : Inflow all' s s' := by
  obtain ⟨more, rfl⟩ := hle
  obtain ⟨count, rfl⟩ := h
  refine ⟨min count (all.length - (s.consumed + s.incoming.length)), ?_⟩
  rw [List.drop_append, List.take_append_of_le_length (by rw [List.length_drop]; omega),
    ← List.length_drop, List.take_eq_take_min]

/-- One end of a line on which `all` arrives. -/
def pipe (all : Bytes) : Pipe MemoryStream where
  Holds s left := s.IsOpen ∧ left = all.drop s.consumed ∧ s.incoming <+: left
  taken s := s.outgoing
  read_done := by
    rintro s s' bytes got count fault ⟨hopen, rfl, hin⟩ hread
    obtain ⟨hle, rfl, rfl, rfl⟩ := read_of_isOpen hopen hread
    have hcount := Nat.le_trans hle hin.length_le
    refine ⟨hcount, ?_, rfl, ⟨hopen.flow .., ?_, ?_⟩, rfl⟩
    · obtain ⟨rest, hrest⟩ := hin
      rw [← hrest, List.take_append_of_le_length hle]
    · rw [List.drop_drop]
    · exact hin.drop count
  write := by
    rintro s bytes out ⟨hopen, hleft, hin⟩
    exact ⟨_, write_of_isOpen hopen out, rfl, hopen.flow .., hleft, hin⟩

/-- What arrives is what was to arrive. -/
theorem Inflow.holds {all : Bytes} {s s' : MemoryStream} (h : Inflow all s s') {left : Bytes}
    (hholds : (pipe all).Holds s left) : (pipe all).Holds s' left := by
  obtain ⟨count, rfl⟩ := h
  obtain ⟨hopen, rfl, hin⟩ := hholds
  refine ⟨hopen.flow .., rfl, ?_⟩
  obtain ⟨rest, hrest⟩ := hin
  have hnext : all.drop (s.consumed + s.incoming.length) = rest := by
    rw [← List.drop_drop, ← hrest, List.drop_left]
  refine ⟨rest.drop count, ?_⟩
  simp only [arrive, hnext, List.append_assoc, List.take_append_drop, hrest]

/-- A write takes everything, or fails and takes nothing. -/
theorem outgoing_write {s s' : MemoryStream} {bytes : Bytes} {fault : Option Fault}
    (h : ByteStream.write bytes s = (s', fault)) :
    s'.outgoing = s.outgoing ++ if fault = none then bytes else [] := by
  simp only [ByteStream.write, MemoryStream.write] at h
  split at h
  · obtain ⟨rfl, rfl⟩ := Prod.mk.inj h
    simp
  · split at h <;>
    · obtain ⟨rfl, rfl⟩ := Prod.mk.inj h
      simp [meanwhile]

theorem outgoing_read {s s' : MemoryStream} {count : Nat} {got : Bytes} {fault : Option Fault}
    (h : ByteStream.read count s = .done s' got fault) : s'.outgoing = s.outgoing := by
  simp only [ByteStream.read, MemoryStream.read] at h
  repeat' split at h
  all_goals first
    | contradiction
    | obtain ⟨rfl, -⟩ := Received.done.inj h
      rfl

/-- A connection in memory hands on what it takes, and never only a part of a write. -/
def outlet : Outlet MemoryStream where
  taken s := s.outgoing
  Broken _ := False
  write_ok hwrite := by simpa using outgoing_write hwrite
  write_fault hbytes hwrite :=
    ⟨[], List.nil_prefix, Ne.symm hbytes, by simpa using outgoing_write hwrite,
      fun hne => absurd rfl hne⟩
  write_broken _ := False.elim
  read hread := ⟨outgoing_read hread, id⟩
  close s := by
    refine ⟨?_, id⟩
    simp only [ByteStream.close, MemoryStream.close]
    split <;> rfl

end MemoryStream

end RemoteCalls
