import RemoteCalls.Proofs.Board.Operations

/-!
# RemoteCalls.Proofs.Board.Sparing

What a board would be like if one of its calls had only been made.

`sparing` takes a call out of all that it has got into: it is not in flight, waits
in no queue, and its record is as it was made.  Operations on other calls come to
the same with the call and without it, and operations on the call come to nothing,
but that a number is gone when it has been registered.
-/

namespace RemoteCalls

/-- The queue without a call. -/
def CompletionQueue.without (q : CompletionQueue) (id : CallId) : CompletionQueue :=
  { q with items := q.items.filter (· != id) }

/-- The registry without a call. -/
def Registry.without (r : Registry) (id : CallId) : Registry :=
  { r with pending := r.pending.filter (·.2 != id) }

/-! ## Registries -/

namespace Registry

variable {r : Registry} {id : CallId}

@[simp] theorem isAvailable_without : (r.without id).isAvailable = r.isAvailable := rfl

/-- A registry that a call is not in is the same without it. -/
theorem without_of_not_mem (h : id ∉ r.pending.map (·.2)) : r.without id = r := by
  have hall : r.pending.filter (·.2 != id) = r.pending := by
    refine List.filter_eq_self.mpr fun e he => ?_
    have hne : e.2 ≠ id := fun heq => h (heq ▸ List.mem_map_of_mem he)
    simpa using hne
  rw [without, hall]

/-- What is found under a number is found without a call as well, unless it is that call. -/
theorem find?_without {seq : UInt64} (h : r.find? seq ≠ some id) :
    (r.without id).find? seq = r.find? seq := by
  cases hfind : r.find? seq with
  | none =>
      rw [find?, List.lookup_eq_none_iff] at hfind ⊢
      exact fun e he => hfind e (List.mem_filter.mp he).1
  | some other =>
      have hne : other ≠ id := fun heq => h (heq ▸ hfind)
      obtain ⟨before, after, heq, hbefore⟩ := List.lookup_eq_some_iff.mp hfind
      refine List.lookup_eq_some_iff.mpr
        ⟨before.filter (·.2 != id), after.filter (·.2 != id), ?_, fun e he => ?_⟩
      · simp only [without, heq, List.filter_append]
        rw [List.filter_cons_of_pos (by simpa using hne)]
      · exact hbefore e (List.mem_filter.mp he).1

theorem without_remove (r : Registry) (id : CallId) (seq : UInt64) :
    (r.remove seq).2.without id = ((r.without id).remove seq).2 := by
  simp only [remove, without, List.filter_filter, Bool.and_comm]

theorem without_filed {other : CallId} (hne : other ≠ id) :
    (r.filed other).without id = (r.without id).filed other := by
  simp only [filed, without, List.filter_append]
  rw [List.filter_cons_of_pos (by simpa using hne), List.filter_nil]

/-- A call that has been put in flight has taken a number, and nothing else if it is left out. -/
theorem without_filed_self : (r.filed id).without id = (r.without id).passedOver := by
  simp only [filed, without, passedOver, List.filter_append]
  rw [List.filter_cons_of_neg (by simp), List.filter_nil, List.append_nil]

end Registry

/-! ## Boards -/

namespace Board

variable {ρ : Type}

/-- The board with a call as it was made, which is not in flight and waits in no queue. -/
def sparing (b : Board ρ) (id : CallId) (made : Call ρ) : Board ρ :=
  { calls := b.calls.set id made
    queues := b.queues.map (·.without id)
    registry := b.registry.without id }

section Sparing

variable {b b' : Board ρ} {id other : CallId} {made : Call ρ} {queue : QueueId}

@[simp] theorem registry_sparing : (b.sparing id made).registry = b.registry.without id := rfl

@[simp] theorem length_calls_sparing : (b.sparing id made).calls.length = b.calls.length :=
  List.length_set

theorem call?_sparing (hne : other ≠ id) : (b.sparing id made).call? other = b.call? other :=
  List.getElem?_set_ne hne.symm

@[simp] theorem queue?_sparing :
    (b.sparing id made).queue? queue = (b.queue? queue).map (·.without id) :=
  List.getElem?_map

/-- A board on which a call has got nowhere yet is spared nothing. -/
theorem sparing_eq_self (hcall : b.call? id = some made)
    (hflight : id ∉ b.registry.pending.map (·.2))
    (hqueues : ∀ q ∈ b.queues, id ∉ q.items) : b.sparing id made = b := by
  obtain ⟨hlt, rfl⟩ := List.getElem?_eq_some_iff.mp hcall
  have hqueue (q : CompletionQueue) (hq : q ∈ b.queues) : q.without id = q := by
    have hall : q.items.filter (· != id) = q.items := by
      refine List.filter_eq_self.mpr fun item hitem => ?_
      have hne : item ≠ id := fun heq => hqueues q hq (heq ▸ hitem)
      simpa using hne
    rw [CompletionQueue.without, hall]
  rw [sparing, List.set_getElem_self, List.map_congr_left hqueue, List.map_id',
    Registry.without_of_not_mem hflight]

theorem addQueue_sparing (capacity : Nat) : (b.sparing id made).addQueue capacity =
    ((b.addQueue capacity).1.sparing id made, (b.addQueue capacity).2) := by
  simp only [sparing, addQueue, List.map_append, List.map_cons, List.map_nil,
    CompletionQueue.without, List.filter_nil, List.length_map]

theorem addCall_sparing (hlt : id < b.calls.length) (call : Call ρ) :
    (b.sparing id made).addCall call =
      ((b.addCall call).1.sparing id made, (b.addCall call).2) := by
  simp only [sparing, addCall, List.set_append_left _ _ hlt, List.length_set]

theorem sparing_modifyCall (hne : other ≠ id) (f : Call ρ → Call ρ) :
    (b.modifyCall other f).sparing id made = (b.sparing id made).modifyCall other f := by
  have hcalls : (b.calls.modify other f).set id made = (b.calls.set id made).modify other f := by
    refine List.ext_getElem? fun i => ?_
    simp only [List.getElem?_set, List.getElem?_modify, List.length_modify]
    by_cases hi : id = i
    · subst hi
      simp [hne]
    · simp [hi]
  simp only [sparing, modifyCall, hcalls]

theorem sparing_setError (hne : other ≠ id) (status : Status) :
    (b.setError other status).sparing id made = (b.sparing id made).setError other status :=
  sparing_modifyCall hne _

/-- What is done to the call itself is undone. -/
theorem sparing_modifyCall_self (b : Board ρ) (id : CallId) (made : Call ρ)
    (f : Call ρ → Call ρ) :
    (b.modifyCall id f).sparing id made = b.sparing id made := by
  have hcalls : (b.calls.modify id f).set id made = b.calls.set id made := by
    refine List.ext_getElem? fun i => ?_
    simp only [List.getElem?_set, List.getElem?_modify, List.length_modify]
    by_cases hi : id = i <;> simp [hi]
  simp only [sparing, modifyCall, hcalls]

/-- Registering another call comes to the same, unless the next number is still in use by the
call. -/
theorem register_sparing (made : Call ρ) (hne : other ≠ id)
    (hfind : b.registry.find? b.registry.nextSeq ≠ some id) :
    (b.sparing id made).register other =
      ((b.register other).1.sparing id made, (b.register other).2) := by
  cases havail : b.registry.isAvailable with
  | false =>
      rw [register_of_unavailable havail, register_of_unavailable (by simpa using havail)]
  | true =>
      have havail' : (b.sparing id made).registry.isAvailable = true := by simpa using havail
      have hsame := Registry.find?_without hfind
      cases hnext : b.registry.find? b.registry.nextSeq with
      | none =>
          rw [register_of_find?_eq_none hnext havail,
            register_of_find?_eq_none (hsame.trans hnext) havail', registered, registered,
            ← sparing_modifyCall hne, registry_sparing, ← Registry.without_filed hne]
          rfl
      | some taken =>
          rw [register_of_find?_eq_some hnext havail,
            register_of_find?_eq_some (hsame.trans hnext) havail', passedOver, passedOver,
            ← sparing_modifyCall hne]
          rfl

/-- Registering the call comes to skipping a number. -/
theorem sparing_registered_self :
    (b.registered id).sparing id made =
      { b.sparing id made with registry := (b.sparing id made).registry.passedOver } := by
  rw [registry_sparing, ← Registry.without_filed_self,
    ← sparing_modifyCall_self b id made ({ · with seq := b.registry.nextSeq })]
  rfl

theorem remove_sparing (made : Call ρ) {seq : UInt64} (hfind : b.registry.find? seq ≠ some id) :
    (b.sparing id made).remove seq = ((b.remove seq).1, (b.remove seq).2.sparing id made) := by
  have hsame : (b.sparing id made).registry.find? seq = b.registry.find? seq :=
    Registry.find?_without hfind
  have hrest := Registry.without_remove b.registry id seq
  refine Prod.ext hsame ?_
  simp only [remove_snd, sparing, hrest]

theorem takeAll_sparing (order : Registry.Order) (hflight : id ∉ b.registry.pending.map (·.2)) :
    (b.sparing id made).takeAll order =
      ((b.takeAll order).1, (b.takeAll order).2.sparing id made) := by
  simp only [takeAll, registry_sparing, Registry.without_of_not_mem hflight]
  rfl

theorem beginClose_sparing (b : Board ρ) (id : CallId) (made : Call ρ) :
    (b.sparing id made).beginClose = (b.beginClose.1.sparing id made, b.beginClose.2) := by
  have hsame : (b.sparing id made).registry.closing = b.registry.closing := rfl
  rw [beginClose_eq, beginClose_eq, hsame]
  cases b.registry.closing <;> rfl

/-- A board on which one queue has been put in the place of another. -/
theorem sparing_setQueue (q : CompletionQueue) :
    ({ b with queues := b.queues.set queue q } : Board ρ).sparing id made =
      { b.sparing id made with queues := (b.sparing id made).queues.set queue (q.without id) } := by
  simp only [sparing, List.map_set]

/-- A queue that has gained or lost only the call is the same without it. -/
theorem sparing_setQueue_self {q q' : CompletionQueue} (hq : b.queue? queue = some q)
    (h : q'.without id = q.without id) :
    ({ b with queues := b.queues.set queue q' } : Board ρ).sparing id made =
      b.sparing id made := by
  have hsame :
      (b.sparing id made).queues.set queue (q.without id) = (b.sparing id made).queues := by
    refine List.ext_getElem? fun i => ?_
    rw [List.getElem?_set]
    split
    case isTrue heq =>
      subst heq
      obtain ⟨hlt, rfl⟩ := List.getElem?_eq_some_iff.mp hq
      simp [sparing, hlt]
    case isFalse => rfl
  rw [sparing_setQueue, h, hsame]

/-- Another call that can be finished can be finished. -/
theorem finish_sparing (hne : other ≠ id) (h : b.finish other = .moved b') :
    (b.sparing id made).finish other = .moved (b'.sparing id made) := by
  obtain ⟨call, queue, q, hcall, hfinished, hqueue, hq, hroom, rfl⟩ := finish_delivered h
  have hfewer : (q.without id).size ≤ q.size := List.length_filter_le ..
  have hroom' : (q.without id).hasRoom = true := by
    simp only [CompletionQueue.hasRoom, decide_eq_true_eq] at hroom ⊢
    exact Nat.lt_of_le_of_lt hfewer hroom
  have hitems : ({ q with items := q.items ++ [other] } : CompletionQueue).without id =
      { q.without id with items := (q.without id).items ++ [other] } := by
    simp only [CompletionQueue.without, List.filter_append]
    rw [List.filter_cons_of_pos (by simpa using hne), List.filter_nil]
  rw [finish_of_hasRoom ((call?_sparing hne).trans hcall) hfinished hqueue
    (by rw [queue?_sparing, hq, Option.map_some]) hroom', delivered, delivered, ← hitems,
    ← sparing_modifyCall hne]
  simp only [sparing, modifyCall, List.map_set]

/-- Finishing the call comes to nothing. -/
theorem sparing_finish_self (h : b.finish id = .moved b') :
    b'.sparing id made = b.sparing id made := by
  obtain ⟨call, queue, q, -, -, -, hq, -, rfl⟩ := finish_delivered h
  have hitems : ({ q with items := q.items ++ [id] } : CompletionQueue).without id =
      q.without id := by
    simp only [CompletionQueue.without, List.filter_append]
    rw [List.filter_cons_of_neg (by simp), List.filter_nil, List.append_nil]
  have hboard : b.delivered id queue { q with items := q.items ++ [id] } =
      modifyCall { b with queues := b.queues.set queue { q with items := q.items ++ [id] } } id
        ({ · with finished := true }) := rfl
  rw [hboard, sparing_modifyCall_self, sparing_setQueue_self hq hitems]

/-- Another call that can be collected can be collected. -/
theorem pop?_sparing (hne : other ≠ id) (h : b.pop? queue = some (other, b')) :
    (b.sparing id made).pop? queue = some (other, b'.sparing id made) := by
  obtain ⟨q, items, hq, hitems, rfl⟩ := pop?_front h
  have hfront : (q.without id).items = other :: items.filter (· != id) := by
    simp only [CompletionQueue.without, hitems]
    rw [List.filter_cons_of_pos (by simpa using hne)]
  simp only [pop?, queue?_sparing, hq, Option.map_some, CompletionQueue.pop?, hfront]
  rw [sparing_setQueue]
  rfl

/-- Collecting the call comes to nothing. -/
theorem sparing_pop?_self (h : b.pop? queue = some (id, b')) :
    b'.sparing id made = b.sparing id made := by
  obtain ⟨q, items, hq, hitems, rfl⟩ := pop?_front h
  have hrest : ({ q with items } : CompletionQueue).without id = q.without id := by
    simp only [CompletionQueue.without, hitems]
    rw [List.filter_cons_of_neg (by simp)]
  exact sparing_setQueue_self hq hrest

end Sparing

end Board

end RemoteCalls
