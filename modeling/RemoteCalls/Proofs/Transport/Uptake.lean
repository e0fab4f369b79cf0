import RemoteCalls.Message.Codec
import RemoteCalls.Proofs.Message.Framing

/-!
# RemoteCalls.Proofs.Transport.Uptake

Connections on which a write may fail and the next one succeed again.

`Uptake` says what such a connection takes of each write, and nothing about what
a failure means for later ones.  `Admission` is about connections that take a
write whole or not at all.  A socket takes a write whole just if it has room for
it (`Socket.HasRoom`).  `Faltering` is a connection whose writes fail as a script
has it.
-/

namespace RemoteCalls

/-! ## What a connection takes of each write -/

/-- The connections in state `σ` that take all octets of a write that succeeds, a part of one that
fails, but not all of it, and octets in no other way. -/
structure Uptake (σ : Type) [ByteStream σ] where
  /-- What has been taken. -/
  taken : σ → Bytes
  write_ok : ∀ {s s' : σ} {bytes : Bytes}, ByteStream.write bytes s = (s', none) →
    taken s' = taken s ++ bytes
  write_fault : ∀ {s s' : σ} {bytes : Bytes} {fault : Fault}, bytes ≠ [] →
    ByteStream.write bytes s = (s', some fault) →
      ∃ part, part <+: bytes ∧ part ≠ bytes ∧ taken s' = taken s ++ part
  read : ∀ {s s' : σ} {got : Bytes} {count : Nat} {fault : Option Fault},
    ByteStream.read count s = .done s' got fault → taken s' = taken s
  close : ∀ s : σ, taken (ByteStream.close s).1 = taken s

/-- Reading a frame hands nothing over. -/
theorem Uptake.taken_resume {σ : Type} [ByteStream σ] (u : Uptake σ) (c : Codec σ)
    (stage : Frame.Stage) : u.taken (c.resume stage).state.stream = u.taken c.stream := by
  rw [Codec.resume, Frame.Progress.state_map]
  exact Frame.resume_state (P := fun s => u.taken s = u.taken c.stream)
    (fun hkept hread => (u.read hread).trans hkept) c.limit stage rfl

/-- A connection that hands octets on in order takes them. -/
def Outlet.uptake {σ : Type} [ByteStream σ] (o : Outlet σ) : Uptake σ where
  taken := o.taken
  write_ok := o.write_ok
  write_fault hbytes hwrite := by
    obtain ⟨part, hpart, hcut, htaken, -⟩ := o.write_fault hbytes hwrite
    exact ⟨part, hpart, hcut, htaken⟩
  read hread := (o.read hread).1
  close s := (o.close s).1

/-- The connections in state `σ` that take the octets of a write together or not at all. -/
structure Admission (σ : Type) [ByteStream σ] where
  /-- What has been taken. -/
  taken : σ → Bytes
  /-- No write is taken in part. -/
  Whole : σ → Prop
  write_ok : ∀ {s s' : σ} {bytes : Bytes}, Whole s → ByteStream.write bytes s = (s', none) →
    taken s' = taken s ++ bytes ∧ Whole s'
  write_fault : ∀ {s s' : σ} {bytes : Bytes} {fault : Fault}, Whole s →
    ByteStream.write bytes s = (s', some fault) → taken s' = taken s ∧ Whole s'

/-! ## Sockets with room -/

namespace Socket

/-- All these octets can be handed over to the socket. -/
def HasRoom (s : Socket) (bytes : Bytes) : Prop :=
  s.isShut = false ∧
    ∀ most f, s.capacity = some (most, f) → s.outgoing.length + bytes.length ≤ most

/-- A write succeeds just if there is room for all of it. -/
theorem write_eq_none_iff (s : Socket) {bytes : Bytes} (hbytes : bytes ≠ []) :
    (ByteStream.write bytes s).2 = none ↔ s.HasRoom bytes := by
  have hlen := List.length_pos_iff.mpr hbytes
  show (Socket.write bytes s).2 = none ↔ s.HasRoom bytes
  obtain ⟨hshut, fault, heq⟩ | ⟨hopen, hall, heq⟩ |
    ⟨most, f, fault, -, hcapacity, hroom, heq⟩ := write_cases s hbytes
  · simp [heq, HasRoom, hshut]
  · rw [heq]
    refine iff_of_true rfl ⟨hopen, fun most f hcapacity => ?_⟩
    have hle := hall most f hcapacity
    omega
  · rw [heq]
    refine iff_of_false (by simp) ?_
    rintro ⟨-, hall⟩
    have hle := hall most f hcapacity
    omega

/-- A write that succeeds leaves room for what there was room for behind it. -/
theorem hasRoom_append_iff {s left : Socket} {bytes : Bytes} (hbytes : bytes ≠ [])
    (hwrite : ByteStream.write bytes s = (left, none)) (later : Bytes) :
    s.HasRoom (bytes ++ later) ↔ left.HasRoom later := by
  obtain ⟨-, fault, heq⟩ | ⟨-, -, heq⟩ | ⟨_, _, fault, -, -, -, heq⟩ := write_cases s hbytes
  all_goals obtain ⟨rfl, hfault⟩ := Prod.mk.inj (heq.symm.trans hwrite)
  · contradiction
  · simp only [HasRoom, isShut, List.length_append, Nat.add_assoc]
  · contradiction

/-- Two sockets take the same of what is written to them. -/
structure TakesAs (s s' : Socket) : Prop where
  outgoing : s'.outgoing = s.outgoing
  capacity : s'.capacity = s.capacity
  shutdowns : s'.shutdowns = s.shutdowns

theorem TakesAs.hasRoom_iff {s s' : Socket} (h : s.TakesAs s') (bytes : Bytes) :
    s'.HasRoom bytes ↔ s.HasRoom bytes := by
  rw [HasRoom, HasRoom, isShut, isShut, h.outgoing, h.capacity, h.shutdowns]

/-- A read does not change what a socket takes. -/
theorem TakesAs.read {s₀ s s' : Socket} {count : Nat} {got : Bytes} {fault : Option Fault}
    (h : s₀.TakesAs s) (hread : ByteStream.read count s = .done s' got fault) : s₀.TakesAs s' := by
  simp only [ByteStream.read, Socket.read] at hread
  split at hread
  · obtain ⟨rfl, -⟩ := Received.done.inj hread
    exact h
  · split at hread
    · obtain ⟨rfl, -⟩ := Received.done.inj hread
      exact h
    · split at hread
      · contradiction
      · obtain ⟨rfl, -⟩ := Received.done.inj hread
        exact ⟨h.outgoing, h.capacity, h.shutdowns⟩

end Socket

/-! ## Connections that fail by a script -/

/-- A connection on which nothing arrives, with a script of what becomes of the writes. -/
structure Faltering where
  /-- What has been taken. -/
  outgoing : Bytes := []
  /-- What becomes of the next writes: at most how many octets of each are taken, and what it
  reports, if it is to fail.  Writes behind these succeed. -/
  script : List (Option (Nat × Fault)) := []
  closed : Bool := false
  deriving DecidableEq, Repr, Inhabited

namespace Faltering

/-- Nothing arrives, and a closed connection says so. -/
def read (s : Faltering) : Received Faltering :=
  if s.closed then .done s [] (some .connectionClosed) else .waiting

/-- Write octets as the script has it; one that fails leaves at least one behind. -/
def write (bytes : Bytes) (s : Faltering) : Faltering × Option Fault :=
  if s.closed then (s, some .connectionClosed)
  else
    match s.script with
    | [] => ({ s with outgoing := s.outgoing ++ bytes }, none)
    | none :: script => ({ s with outgoing := s.outgoing ++ bytes, script }, none)
    | some (most, f) :: script =>
        ({ s with outgoing := s.outgoing ++ bytes.take (min most (bytes.length - 1)), script },
          some f)

/-- Close the connection, once. -/
def close (s : Faltering) : Faltering × Option Fault :=
  if s.closed then (s, some .connectionClosed) else ({ s with closed := true }, none)

instance : ByteStream Faltering where
  read _ := read
  write := write
  close := close
  unread _ := 0

/-- A write goes by the script: it takes everything, or so much as the next entry allows. -/
theorem write_cases (bytes : Bytes) (s : Faltering) :
    (∃ s', write bytes s = (s', none) ∧ s'.outgoing = s.outgoing ++ bytes ∧
      s'.script ⊆ s.script) ∨
    ∃ s' f count, write bytes s = (s', some f) ∧ count ≤ bytes.length - 1 ∧
      s'.outgoing = s.outgoing ++ bytes.take count ∧ s'.script ⊆ s.script ∧
      (count = 0 ∨ ∃ most, some (most, f) ∈ s.script ∧ count ≤ most) := by
  unfold write
  split
  · exact .inr ⟨s, _, 0, rfl, Nat.zero_le _, by simp, fun _ => id, .inl rfl⟩
  · split
    case h_1 hscript => exact .inl ⟨_, rfl, rfl, fun _ => id⟩
    case h_2 script hscript =>
      exact .inl ⟨_, rfl, rfl, fun _ hmem => hscript ▸ List.mem_cons_of_mem _ hmem⟩
    case h_3 most f script hscript =>
      exact .inr ⟨_, f, _, rfl, Nat.min_le_right .., rfl,
        fun _ hmem => hscript ▸ List.mem_cons_of_mem _ hmem,
        .inr ⟨most, hscript ▸ List.mem_cons_self, Nat.min_le_left ..⟩⟩

/-- What a faltering connection takes. -/
def uptake : Uptake Faltering where
  taken s := s.outgoing
  write_ok := by
    intro s s' bytes hwrite
    obtain ⟨after, heq, htaken, -⟩ | ⟨after, f, count, heq, -⟩ := write_cases bytes s
    · obtain ⟨rfl, -⟩ := Prod.mk.inj (heq.symm.trans hwrite)
      exact htaken
    · obtain ⟨-, hfault⟩ := Prod.mk.inj (heq.symm.trans hwrite)
      contradiction
  write_fault := by
    intro s s' bytes fault hbytes hwrite
    obtain ⟨after, heq, -⟩ | ⟨after, f, count, heq, hcount, htaken, -⟩ := write_cases bytes s
    · obtain ⟨-, hfault⟩ := Prod.mk.inj (heq.symm.trans hwrite)
      contradiction
    · obtain ⟨rfl, -⟩ := Prod.mk.inj (heq.symm.trans hwrite)
      refine ⟨bytes.take count, List.take_prefix count bytes, ?_, htaken⟩
      intro hall
      have hlen := congrArg List.length hall
      have hpos := List.length_pos_iff.mpr hbytes
      rw [List.length_take] at hlen
      omega
  read := by
    intro s s' got count fault hread
    simp only [ByteStream.read, read] at hread
    split at hread
    · obtain ⟨rfl, -⟩ := Received.done.inj hread
      rfl
    · contradiction
  close s := by
    simp only [ByteStream.close, close]
    split <;> rfl

@[simp] theorem taken_uptake (s : Faltering) : uptake.taken s = s.outgoing := rfl

/-- Nothing is taken in part if the script allows no octet of any write that is to fail. -/
def admission : Admission Faltering where
  taken s := s.outgoing
  Whole s := ∀ most f, some (most, f) ∈ s.script → most = 0
  write_ok := by
    intro s s' bytes hwhole hwrite
    obtain ⟨after, heq, htaken, hscript⟩ | ⟨after, f, count, heq, -⟩ := write_cases bytes s
    · obtain ⟨rfl, -⟩ := Prod.mk.inj (heq.symm.trans hwrite)
      exact ⟨htaken, fun most f hmem => hwhole most f (hscript hmem)⟩
    · obtain ⟨-, hfault⟩ := Prod.mk.inj (heq.symm.trans hwrite)
      contradiction
  write_fault := by
    intro s s' bytes fault hwhole hwrite
    obtain ⟨after, heq, -⟩ | ⟨after, f, count, heq, -, htaken, hscript, hcount⟩ :=
      write_cases bytes s
    · obtain ⟨-, hfault⟩ := Prod.mk.inj (heq.symm.trans hwrite)
      contradiction
    · obtain ⟨rfl, -⟩ := Prod.mk.inj (heq.symm.trans hwrite)
      have hnone : count = 0 := by
        obtain hzero | ⟨most, hmem, hle⟩ := hcount
        · exact hzero
        · exact Nat.le_zero.mp (hwhole most f hmem ▸ hle)
      rw [hnone, List.take_zero, List.append_nil] at htaken
      exact ⟨htaken, fun most f hmem => hwhole most f (hscript hmem)⟩

@[simp] theorem taken_admission (s : Faltering) : admission.taken s = s.outgoing := rfl

end Faltering

end RemoteCalls
