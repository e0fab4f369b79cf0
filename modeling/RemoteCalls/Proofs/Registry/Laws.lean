import RemoteCalls.Call.Registry

/-!
# RemoteCalls.Proofs.Registry.Laws

What the operations of a registry do to the sequence numbers it hands out.

`Numbered r n` says that `n` registrations have taken the numbers from `1` to `n`
and that the calls in flight are filed in order under some of them, no two under
the same.  Every operation keeps it; a registration does so as long as there are
numbers left (`seqLimit`), and it is the only operation that counts.
-/

namespace RemoteCalls.Registry

/-- There are fewer registrations than this, so that numbers are not used again. -/
def seqLimit : Nat := UInt64.size - 1

/-- The numbers from `1` to `n` have been handed out, and the calls in flight are filed in order
under distinct ones of them. -/
structure Numbered (r : Registry) (n : Nat) : Prop where
  next : r.nextSeq.toNat = n + 1
  rising : r.pending.Pairwise fun e₁ e₂ => e₁.1 < e₂.1
  handedOut : ∀ e ∈ r.pending, 0 < e.1 ∧ e.1 < r.nextSeq

theorem numbered_initial : Numbered {} 0 :=
  ⟨rfl, List.Pairwise.nil, by simp⟩

/-! ## Finding calls -/

/-- Calls that are filed in order are found under their own numbers. -/
theorem Numbered.find?_eq_some_iff {r : Registry} {n : Nat} (h : r.Numbered n) {seq : UInt64}
    {call : CallId} : r.find? seq = some call ↔ (seq, call) ∈ r.pending := by
  constructor
  · intro hfind
    obtain ⟨before, after, heq, -⟩ := List.lookup_eq_some_iff.mp hfind
    rw [heq]
    simp
  · intro hmem
    obtain ⟨before, after, heq⟩ := List.append_of_mem hmem
    refine List.lookup_eq_some_iff.mpr ⟨before, after, heq, ?_⟩
    intro e he
    have hrising := h.rising
    rw [heq, List.pairwise_append] at hrising
    have hlt : e.1 < seq := hrising.2.2 e he (seq, call) List.mem_cons_self
    simpa using UInt64.ne_of_lt hlt |>.symm

/-- No call is filed under a number that is not handed out yet. -/
theorem Numbered.find?_nextSeq {r : Registry} {n : Nat} (h : r.Numbered n) :
    r.find? r.nextSeq = none := by
  rw [find?, List.lookup_eq_none_iff]
  intro e he
  have hlt := (h.handedOut e he).2
  simpa using UInt64.ne_of_lt hlt |>.symm

/-- Two calls in flight are filed under different numbers. -/
theorem Numbered.unique {r : Registry} {n : Nat} (h : r.Numbered n) {seq : UInt64}
    {call other : CallId} (hcall : (seq, call) ∈ r.pending) (hother : (seq, other) ∈ r.pending) :
    call = other := by
  have hfind := h.find?_eq_some_iff.mpr hcall
  rw [h.find?_eq_some_iff.mpr hother] at hfind
  exact (Option.some.inj hfind).symm

/-! ## Operations -/

/-- The registry after one more registration. -/
def filed (r : Registry) (call : CallId) : Registry :=
  { r with pending := r.pending ++ [(r.nextSeq, call)], nextSeq := r.nextSeq + 1 }

/-- A registration fails exactly if one of the flags is set. -/
theorem register?_eq_none_iff {r : Registry} {call : CallId} :
    r.register? call = none ↔ r.closing = true ∨ r.shutdown = true := by
  unfold register? isAvailable
  cases r.closing <;> cases r.shutdown <;> simp

/-- The registry after a registration under a number that a call in flight still has: that call
keeps the number, and the new one is not filed. -/
def passedOver (r : Registry) : Registry := { r with nextSeq := r.nextSeq + 1 }

/-- A registration files its call behind all others if its number is free. -/
theorem register?_of_find?_eq_none {r : Registry} (hfree : r.find? r.nextSeq = none)
    (havail : r.isAvailable = true) (call : CallId) :
    r.register? call = some (r.nextSeq, r.filed call) := by
  rw [register?, if_pos havail, insert, hfree, filed]

/-- A registration under a number that is in use leaves the calls in flight as they are. -/
theorem register?_of_find?_eq_some {r : Registry} {other : CallId}
    (htaken : r.find? r.nextSeq = some other) (havail : r.isAvailable = true) (call : CallId) :
    r.register? call = some (r.nextSeq, r.passedOver) := by
  rw [register?, if_pos havail, insert, htaken, passedOver]

/-- A registration files its call behind all others. -/
theorem Numbered.register?_eq {r : Registry} {n : Nat} (h : r.Numbered n) {call : CallId}
    (havail : r.isAvailable = true) : r.register? call = some (r.nextSeq, r.filed call) :=
  register?_of_find?_eq_none h.find?_nextSeq havail call

/-- As long as numbers are left, the next number is greater than the last. -/
theorem Numbered.toNat_next {r : Registry} {n : Nat} (h : r.Numbered n) (hn : n + 1 < seqLimit) :
    (r.nextSeq + 1).toNat = n + 2 := by
  rw [UInt64.toNat_add, h.next]
  simp only [seqLimit, UInt64.size] at hn
  simp
  omega

theorem Numbered.filed {r : Registry} {n : Nat} (h : r.Numbered n) (hn : n + 1 < seqLimit)
    (call : CallId) : (r.filed call).Numbered (n + 1) := by
  have hnext := h.toNat_next hn
  have hlt : r.nextSeq < r.nextSeq + 1 := by
    rw [UInt64.lt_iff_toNat_lt, hnext, h.next]
    omega
  refine ⟨hnext, ?_, ?_⟩
  · simp only [Registry.filed, List.pairwise_append]
    refine ⟨h.rising, List.pairwise_singleton _ _, ?_⟩
    intro e he e' he'
    rw [List.mem_singleton] at he'
    rw [he']
    exact (h.handedOut e he).2
  · simp only [Registry.filed, List.mem_append, List.mem_singleton]
    intro e he
    cases he with
    | inl hold =>
        have hold := h.handedOut e hold
        exact ⟨hold.1, UInt64.lt_trans hold.2 hlt⟩
    | inr hnew =>
        rw [hnew]
        refine ⟨?_, hlt⟩
        rw [UInt64.lt_iff_toNat_lt, h.next]
        simp

theorem Numbered.remove {r : Registry} {n : Nat} (h : r.Numbered n) (seq : UInt64) :
    (r.remove seq).2.Numbered n :=
  ⟨h.next, h.rising.filter _, fun e he => h.handedOut e (List.mem_filter.mp he).1⟩

theorem Numbered.emptied {r : Registry} {n : Nat} (h : r.Numbered n) : r.emptied.Numbered n :=
  ⟨h.next, List.Pairwise.nil, by simp [Registry.emptied]⟩

/-! ## What is left after a removal -/

/-- Removing a number that no call has leaves all calls. -/
theorem remove_of_find?_eq_none {r : Registry} {seq : UInt64} (h : r.find? seq = none) :
    r.remove seq = (none, r) := by
  have hall : r.pending.filter (fun e => e.1 != seq) = r.pending := by
    rw [List.filter_eq_self]
    intro e he
    have hne := List.lookup_eq_none_iff.mp h e he
    simpa [bne_comm] using hne
  rw [remove, h, hall]

/-- Nothing is found under a number that has been taken out. -/
theorem find?_remove_self (r : Registry) (seq : UInt64) : (r.remove seq).2.find? seq = none := by
  refine List.lookup_eq_none_iff.mpr fun e he => ?_
  have hne := (List.mem_filter.mp he).2
  simpa [bne_comm] using hne

/-- Removing a number leaves the calls with other numbers. -/
theorem find?_remove_of_ne {r : Registry} {seq other : UInt64} (hne : other ≠ seq) :
    (r.remove other).2.find? seq = r.find? seq := by
  have hlookup (entries : List (UInt64 × CallId)) :
      (entries.filter fun e => e.1 != other).lookup seq = entries.lookup seq := by
    induction entries with
    | nil => rfl
    | cons e entries ih =>
        by_cases hother : e.1 = other
        · have hseq : (seq == e.1) = false := by simpa [hother] using hne.symm
          rw [List.filter_cons_of_neg (by simpa using hother), ih, List.lookup_cons, hseq]
        · rw [List.filter_cons_of_pos (by simpa using hother), List.lookup_cons, List.lookup_cons, ih]
  exact hlookup r.pending

/-- A registration leaves the calls that are in flight. -/
theorem find?_filed {r : Registry} {seq : UInt64} {call : CallId} (h : r.find? seq = some call)
    (other : CallId) : (r.filed other).find? seq = some call := by
  rw [find?] at h
  rw [find?, filed, List.lookup_append, h, Option.some_or]

/-- A call that has been registered under a free number is found under it. -/
theorem find?_filed_self {r : Registry} (hfree : r.find? r.nextSeq = none) (call : CallId) :
    (r.filed call).find? r.nextSeq = some call := by
  rw [find?] at hfree
  rw [find?, filed, List.lookup_append, hfree, Option.none_or, List.lookup_cons_self]

/-- Removing the number of a call leaves the other calls in their order. -/
theorem Numbered.pending_remove {r : Registry} {n : Nat} (h : r.Numbered n) {seq : UInt64}
    {call : CallId} (hfind : r.find? seq = some call) :
    ∃ before after, r.pending = before ++ (seq, call) :: after ∧
      (r.remove seq).2.pending = before ++ after := by
  obtain ⟨before, after, heq⟩ := List.append_of_mem (h.find?_eq_some_iff.mp hfind)
  have hrising := h.rising
  rw [heq, List.pairwise_append, List.pairwise_cons] at hrising
  obtain ⟨-, ⟨hafter, -⟩, hbefore⟩ := hrising
  refine ⟨before, after, heq, ?_⟩
  simp only [Registry.remove, heq, List.filter_append, List.filter_cons, bne_self_eq_false,
    Bool.false_eq_true, if_false]
  congr 1
  · refine List.filter_eq_self.mpr fun e he => ?_
    have hlt := hbefore e he (seq, call) List.mem_cons_self
    simpa using UInt64.ne_of_lt hlt
  · refine List.filter_eq_self.mpr fun e he => ?_
    have hlt := hafter e he
    simpa using (UInt64.ne_of_lt hlt).symm

end RemoteCalls.Registry
