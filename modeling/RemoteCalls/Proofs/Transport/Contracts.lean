import RemoteCalls.Transport.Memory
import RemoteCalls.Transport.Socket

/-!
# RemoteCalls.Proofs.Transport.Contracts

What is relied on of a connection.

`Delivery` is about what a peer sends: certain octets, and then the end.  `Feed` is
about a connection on which all of this has arrived.
`Outlet` is about what a peer gets: what is written arrives in order, and nothing
arrives behind octets that have been cut off.  `Acceptance` is about a connection
on which everything that is written arrives.
-/

namespace RemoteCalls

/-! ## What a peer sends -/

/-- The connections in state `σ` that give certain octets, sooner or later, and then report
`ending`. -/
structure Delivery (σ : Type) [ByteStream σ] (ending : Fault) where
  /-- These octets are still to be read. -/
  Holds : σ → Bytes → Prop
  /-- All octets have arrived, so that no read has to wait. -/
  Arrived : σ → Prop
  /-- A read takes what it asks for from the front, or reports the end if there is less. -/
  read_done : ∀ {s s' : σ} {bytes got : Bytes} {count : Nat} {fault : Option Fault},
    Holds s bytes → ByteStream.read count s = .done s' got fault →
      (count ≤ bytes.length ∧ got = bytes.take count ∧ fault = none ∧
        Holds s' (bytes.drop count) ∧ (Arrived s → Arrived s')) ∨
      bytes.length < count ∧ fault = some ending
  read_arrived : ∀ {s : σ} {bytes : Bytes} (count : Nat),
    Holds s bytes → Arrived s → ByteStream.read count s ≠ .waiting
  /-- A write leaves what is still to be read. -/
  write : ∀ {s : σ} {bytes : Bytes} (out : Bytes), Holds s bytes →
    Holds (ByteStream.write out s).1 bytes
  write_arrived : ∀ {s : σ} (out : Bytes), Arrived s → Arrived (ByteStream.write out s).1

/-- The connections in state `σ` that give certain octets at once, and then report `ending`, again
and again. -/
structure Feed (σ : Type) [ByteStream σ] (ending : Fault) where
  /-- These octets are still to be read. -/
  Holds : σ → Bytes → Prop
  read : ∀ {s : σ} {bytes : Bytes} (count : Nat), Holds s bytes →
    ∃ s', ByteStream.read count s =
        .done s' (bytes.take count) (if count ≤ bytes.length then none else some ending) ∧
      Holds s' (bytes.drop count)

/-! ## What a peer gets -/

/-- The connections in state `σ` that hand on in order what is written to them.  A write that fails
may have handed on a part; if it has, nothing more is handed on. -/
structure Outlet (σ : Type) [ByteStream σ] where
  /-- What has been handed on. -/
  taken : σ → Bytes
  /-- Nothing more is handed on. -/
  Broken : σ → Prop
  write_ok : ∀ {s s' : σ} {bytes : Bytes}, ByteStream.write bytes s = (s', none) →
    taken s' = taken s ++ bytes
  write_fault : ∀ {s s' : σ} {bytes : Bytes} {fault : Fault}, bytes ≠ [] →
    ByteStream.write bytes s = (s', some fault) →
      ∃ part, part <+: bytes ∧ part ≠ bytes ∧ taken s' = taken s ++ part ∧ (part ≠ [] → Broken s')
  write_broken : ∀ {s : σ} (bytes : Bytes), Broken s →
    taken (ByteStream.write bytes s).1 = taken s ∧ Broken (ByteStream.write bytes s).1
  read : ∀ {s s' : σ} {got : Bytes} {count : Nat} {fault : Option Fault},
    ByteStream.read count s = .done s' got fault → taken s' = taken s ∧ (Broken s → Broken s')
  close : ∀ s : σ, taken (ByteStream.close s).1 = taken s ∧
    (Broken s → Broken (ByteStream.close s).1)

namespace Outlet

variable {σ : Type} [ByteStream σ]

/-- Nothing has been handed on in between, and a connection that handed on nothing more still does
not. -/
def Kept (o : Outlet σ) (s s' : σ) : Prop :=
  o.taken s' = o.taken s ∧ (o.Broken s → o.Broken s')

theorem Kept.refl (o : Outlet σ) (s : σ) : o.Kept s s := ⟨rfl, id⟩

theorem Kept.trans {o : Outlet σ} {s₁ s₂ s₃ : σ} (h : o.Kept s₁ s₂) (h' : o.Kept s₂ s₃) :
    o.Kept s₁ s₃ := ⟨h'.1.trans h.1, h'.2 ∘ h.2⟩

end Outlet

/-- The connections in state `σ` that take whatever is written to them. -/
structure Acceptance (σ : Type) [ByteStream σ] where
  /-- What has been taken. -/
  taken : σ → Bytes
  /-- Everything is taken. -/
  Open : σ → Prop
  write : ∀ {s : σ} (bytes : Bytes), Open s → ∃ s', ByteStream.write bytes s = (s', none) ∧
    taken s' = taken s ++ bytes ∧ Open s'

/-! ## Connections in memory -/

namespace MemoryStream

/-- A connection in memory that has ended gives what it still holds. -/
def delivery (ending : Fault) : Delivery MemoryStream ending where
  Holds s bytes := s.incoming = bytes ∧ s.closed = false ∧ s.ended = true ∧
    s.endFault = some ending ∧ s.duringWrite = []
  Arrived _ := True
  read_done := by
    rintro s s' bytes got count fault ⟨rfl, hopen, hended, hending, hquiet⟩ hread
    simp only [ByteStream.read, MemoryStream.read, hopen, Bool.false_eq_true, if_false] at hread
    rw [if_pos hended] at hread
    split at hread
    case isTrue hlen =>
      rw [List.length_take] at hlen
      obtain ⟨rfl, rfl, rfl⟩ := Received.done.inj hread
      exact .inl ⟨by omega, rfl, rfl, ⟨rfl, rfl, hended, hending, hquiet⟩, fun _ => trivial⟩
    case isFalse hlen =>
      rw [List.length_take] at hlen
      obtain ⟨-, -, rfl⟩ := Received.done.inj hread
      exact .inr ⟨by omega, hending⟩
  read_arrived := by
    rintro s bytes count ⟨rfl, hopen, hended, -, -⟩ - hread
    simp only [ByteStream.read, MemoryStream.read, hopen, Bool.false_eq_true, if_false] at hread
    rw [if_pos hended] at hread
    split at hread <;> contradiction
  write := by
    rintro s bytes out ⟨rfl, hopen, hended, hending, hquiet⟩
    simp only [ByteStream.write, MemoryStream.write, hopen, Bool.false_eq_true, if_false]
    cases hfault : s.writeFault <;> simp [meanwhile, hfault, hopen, hended, hending, hquiet]
  write_arrived _ _ := trivial

/-- A connection in memory that has ended and is not closed gives what it still holds. -/
def feed (ending : Fault) : Feed MemoryStream ending where
  Holds s bytes := s.incoming = bytes ∧ s.closed = false ∧ s.ended = true ∧
    s.endFault = some ending
  read := by
    rintro s bytes count ⟨rfl, hopen, hended, hending⟩
    refine ⟨{ s with
      incoming := s.incoming.drop count
      consumed := s.consumed + (s.incoming.take count).length }, ?_, rfl, hopen, hended, hending⟩
    simp only [ByteStream.read, MemoryStream.read, hopen, hended, Bool.false_eq_true, if_false,
      if_true]
    by_cases hroom : count ≤ s.incoming.length
    · rw [if_pos (List.length_take_of_le hroom), if_pos hroom]
    · have hshort : (s.incoming.take count).length ≠ count := by
        rw [List.length_take]
        omega
      rw [if_neg hshort, if_neg hroom, hending]

/-- A connection in memory that is not closed takes everything, unless it is set to fail. -/
def acceptance : Acceptance MemoryStream where
  taken s := s.outgoing
  Open s := s.closed = false ∧ s.writeFault = none
  write := by
    rintro s bytes ⟨hopen, hsound⟩
    refine ⟨{ s.meanwhile with outgoing := s.outgoing ++ bytes }, ?_, rfl, hopen, hsound⟩
    simp [ByteStream.write, MemoryStream.write, meanwhile, hopen, hsound]

end MemoryStream

/-! ## Sockets -/

namespace Socket

/-- A socket whose peer has sent everything, and that is not shut down, gives what it still holds. -/
def feed (ending : Fault) : Feed Socket ending where
  Holds s bytes := s.incoming = bytes ∧ s.isShut = false ∧ s.gate ≤ s.outgoing.length ∧
    report s.ending = ending
  read := by
    rintro s bytes count ⟨rfl, hopen, hgate, hending⟩
    refine ⟨{ s with incoming := s.incoming.drop count }, ?_, rfl, hopen, hgate, hending⟩
    simp only [ByteStream.read, Socket.read, hopen, Bool.false_eq_true, if_false,
      Nat.not_lt.mpr hgate]
    by_cases hroom : count ≤ s.incoming.length
    · rw [if_pos (List.length_take_of_le hroom), if_pos hroom]
      split
      · subst count
        rfl
      · rfl
    · have hpos : count ≠ 0 := by omega
      have hshort : (s.incoming.take count).length ≠ count := by
        rw [List.length_take]
        omega
      rw [if_neg hpos, if_neg hshort, if_neg hroom, hending]

/-- A socket that takes nothing more. -/
def IsFull (s : Socket) : Prop :=
  s.isShut = true ∨ ∃ most fault, s.capacity = some (most, fault) ∧ most ≤ s.outgoing.length

/-- A write finds the socket shut down, or room for everything, or room for a part. -/
theorem write_cases (s : Socket) {bytes : Bytes} (hbytes : bytes ≠ []) :
    (s.isShut = true ∧ ∃ fault, Socket.write bytes s = (s, some fault)) ∨
    (s.isShut = false ∧
      (∀ most f, s.capacity = some (most, f) → bytes.length ≤ most - s.outgoing.length) ∧
      Socket.write bytes s = ({ s with outgoing := s.outgoing ++ bytes }, none)) ∨
    ∃ most f fault, s.isShut = false ∧ s.capacity = some (most, f) ∧
      most - s.outgoing.length < bytes.length ∧
      Socket.write bytes s =
        ({ s with outgoing := s.outgoing ++ bytes.take (most - s.outgoing.length) }, some fault) := by
  rw [Socket.write, if_neg hbytes]
  cases hshut : s.isShut with
  | true => exact .inl ⟨rfl, _, rfl⟩
  | false =>
      rw [if_neg (by simp)]
      cases hcapacity : s.capacity with
      | none => exact .inr (.inl ⟨rfl, by simp, rfl⟩)
      | some limit =>
          obtain ⟨most, f⟩ := limit
          by_cases hroom : bytes.length ≤ most - s.outgoing.length
          · refine .inr (.inl ⟨rfl, ?_, if_pos hroom⟩)
            rintro most' f' heq
            obtain ⟨rfl, rfl⟩ := Prod.mk.inj (Option.some.inj heq)
            exact hroom
          · exact .inr (.inr ⟨most, f, report f, rfl, rfl, Nat.not_le.mp hroom, if_neg hroom⟩)

/-- A socket hands on what fits, and nothing once it is full or shut down. -/
def outlet : Outlet Socket where
  taken s := s.outgoing
  Broken := IsFull
  write_ok := by
    intro s s' bytes hwrite
    by_cases hbytes : bytes = []
    · subst hbytes
      obtain ⟨rfl, -⟩ := Prod.mk.inj hwrite
      simp
    · obtain ⟨-, fault, heq⟩ | ⟨-, -, heq⟩ | ⟨most, f, fault, -, -, -, heq⟩ := write_cases s hbytes
      all_goals
        obtain ⟨rfl, hfault⟩ := Prod.mk.inj (heq.symm.trans hwrite)
        first
        | rfl
        | contradiction
  write_fault := by
    intro s s' bytes fault hbytes hwrite
    obtain ⟨-, fault', heq⟩ | ⟨-, -, heq⟩ | ⟨most, f, fault', -, hcapacity, hroom, heq⟩ :=
      write_cases s hbytes
    · obtain ⟨rfl, -⟩ := Prod.mk.inj (heq.symm.trans hwrite)
      exact ⟨[], List.nil_prefix, Ne.symm hbytes, by simp, fun hne => absurd rfl hne⟩
    · obtain ⟨-, hfault⟩ := Prod.mk.inj (heq.symm.trans hwrite)
      contradiction
    · obtain ⟨rfl, -⟩ := Prod.mk.inj (heq.symm.trans hwrite)
      refine ⟨_, List.take_prefix (most - s.outgoing.length) bytes, ?_, rfl, fun _ => ?_⟩
      · intro hall
        have hlen := congrArg List.length hall
        rw [List.length_take] at hlen
        omega
      · refine .inr ⟨most, f, hcapacity, ?_⟩
        rw [List.length_append, List.length_take]
        omega
  write_broken := by
    intro s bytes hfull
    by_cases hbytes : bytes = []
    · subst hbytes
      exact ⟨rfl, hfull⟩
    · have hlen := List.length_pos_iff.mpr hbytes
      obtain ⟨-, fault, heq⟩ | ⟨hopen, hall, -⟩ | ⟨most, f, fault, hopen, hcapacity, -, heq⟩ :=
        write_cases s hbytes
      · have hkept : ByteStream.write bytes s = (s, some fault) := heq
        rw [hkept]
        exact ⟨rfl, hfull⟩
      · obtain hshut | ⟨most, f, hcapacity, hmost⟩ := hfull
        · simp [hopen] at hshut
        · have hnone := hall most f hcapacity
          omega
      · obtain hshut | ⟨most', f', hcapacity', hmost⟩ := hfull
        · simp [hopen] at hshut
        · obtain ⟨rfl, rfl⟩ := Prod.mk.inj (Option.some.inj (hcapacity.symm.trans hcapacity'))
          rw [Nat.sub_eq_zero_of_le hmost, List.take_zero, List.append_nil] at heq
          have hkept : ByteStream.write bytes s = (s, some fault) := heq
          rw [hkept]
          exact ⟨rfl, .inr ⟨most, f, hcapacity, hmost⟩⟩
  read := by
    intro s s' got count fault hread
    simp only [ByteStream.read, Socket.read] at hread
    split at hread
    · obtain ⟨rfl, -⟩ := Received.done.inj hread
      exact ⟨rfl, id⟩
    · split at hread
      · obtain ⟨rfl, -⟩ := Received.done.inj hread
        exact ⟨rfl, id⟩
      · split at hread
        · contradiction
        · obtain ⟨rfl, -⟩ := Received.done.inj hread
          exact ⟨rfl, id⟩
  close s := by
    simp only [ByteStream.close, Socket.close]
    split
    · exact ⟨rfl, id⟩
    · exact ⟨rfl, fun _ => .inl (by simp [isShut])⟩

end Socket

end RemoteCalls
