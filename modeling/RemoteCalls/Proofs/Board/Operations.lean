import RemoteCalls.Call.Board
import RemoteCalls.Proofs.Registry.Laws

/-!
# RemoteCalls.Proofs.Board.Operations

What each operation on a board does to its calls, its queues and its registry.

Every operation is described once here, by an equation or by what follows from
its having taken place (`finish_moved`, `finish_ne_aborted`), so that nothing else
has to open it.
-/

namespace RemoteCalls.Board

variable {ρ : Type}

/-! ## Calls -/

@[simp] theorem registry_modifyCall (b : Board ρ) (id : CallId) (f : Call ρ → Call ρ) :
    (b.modifyCall id f).registry = b.registry := rfl

@[simp] theorem queues_modifyCall (b : Board ρ) (id : CallId) (f : Call ρ → Call ρ) :
    (b.modifyCall id f).queues = b.queues := rfl

@[simp] theorem length_calls_modifyCall (b : Board ρ) (id : CallId) (f : Call ρ → Call ρ) :
    (b.modifyCall id f).calls.length = b.calls.length := by
  simp [modifyCall]

/-- A change of a call shows there and nowhere else. -/
theorem call?_modifyCall (b : Board ρ) (id other : CallId) (f : Call ρ → Call ρ) :
    (b.modifyCall id f).call? other =
      if id = other then (b.call? other).map f else b.call? other := by
  simp only [call?, modifyCall, List.getElem?_modify]
  split <;> simp

/-- What a change of a call leaves alone in that call it leaves alone in all calls. -/
theorem map_calls_modifyCall {β : Type} {g : Call ρ → β} {f : Call ρ → Call ρ}
    (h : ∀ call, g (f call) = g call) (b : Board ρ) (id : CallId) :
    (b.modifyCall id f).calls.map g = b.calls.map g := by
  refine List.ext_getElem? fun i => ?_
  simp only [modifyCall, List.getElem?_map, List.getElem?_modify]
  split <;> cases b.calls[i]? <;> simp [h]

theorem call?_modifyCall_self {b : Board ρ} {id : CallId} {call : Call ρ}
    (h : b.call? id = some call) (f : Call ρ → Call ρ) :
    (b.modifyCall id f).call? id = some (f call) := by
  rw [call?_modifyCall, if_pos rfl, h, Option.map_some]

theorem call?_modifyCall_of_ne (b : Board ρ) {id other : CallId} (h : id ≠ other)
    (f : Call ρ → Call ρ) : (b.modifyCall id f).call? other = b.call? other := by
  rw [call?_modifyCall, if_neg h]

/-- Two changes of a call that agree on it. -/
theorem modifyCall_congr {b : Board ρ} {id : CallId} {call : Call ρ} {f g : Call ρ → Call ρ}
    (hcall : b.call? id = some call) (h : f call = g call) :
    b.modifyCall id f = b.modifyCall id g := by
  have hcalls : b.calls.modify id f = b.calls.modify id g := by
    refine List.ext_getElem? fun i => ?_
    simp only [List.getElem?_modify]
    by_cases hi : id = i
    · subst hi
      rw [call?] at hcall
      simp [hcall, h]
    · simp [hi]
  rw [modifyCall, modifyCall, hcalls]

@[simp] theorem registry_setError (b : Board ρ) (id : CallId) (status : Status) :
    (b.setError id status).registry = b.registry := rfl

@[simp] theorem queues_setError (b : Board ρ) (id : CallId) (status : Status) :
    (b.setError id status).queues = b.queues := rfl

@[simp] theorem length_calls_setError (b : Board ρ) (id : CallId) (status : Status) :
    (b.setError id status).calls.length = b.calls.length :=
  length_calls_modifyCall ..

/-! ## Registration -/

/-- The board after a call has been registered under the next number. -/
def registered (b : Board ρ) (id : CallId) : Board ρ :=
  { b.modifyCall id ({ · with seq := b.registry.nextSeq }) with registry := b.registry.filed id }

@[simp] theorem registry_registered (b : Board ρ) (id : CallId) :
    (b.registered id).registry = b.registry.filed id := rfl

@[simp] theorem queues_registered (b : Board ρ) (id : CallId) :
    (b.registered id).queues = b.queues := rfl

@[simp] theorem length_calls_registered (b : Board ρ) (id : CallId) :
    (b.registered id).calls.length = b.calls.length :=
  length_calls_modifyCall ..

theorem call?_registered (b : Board ρ) (id other : CallId) :
    (b.registered id).call? other =
      if id = other then (b.call? other).map ({ · with seq := b.registry.nextSeq })
      else b.call? other :=
  call?_modifyCall ..

/-- The board after a call has been given a number that a call in flight still has. -/
def passedOver (b : Board ρ) (id : CallId) : Board ρ :=
  { b.modifyCall id ({ · with seq := b.registry.nextSeq }) with registry := b.registry.passedOver }

/-- A registration that is refused changes nothing. -/
theorem register_of_unavailable {b : Board ρ} (h : b.registry.isAvailable = false)
    (id : CallId) : b.register id = (b, .unavailable) := by
  have hnone : b.registry.register? id = none := by
    rw [Registry.register?, h]
    rfl
  rw [register, hnone]

/-- A call is registered under the next number if that is free. -/
theorem register_of_find?_eq_none {b : Board ρ}
    (hfree : b.registry.find? b.registry.nextSeq = none) (h : b.registry.isAvailable = true)
    (id : CallId) : b.register id = (b.registered id, {}) := by
  rw [register, Registry.register?_of_find?_eq_none hfree h]
  rfl

/-- A call is given the next number, but not put in flight, if a call in flight still has that
number. -/
theorem register_of_find?_eq_some {b : Board ρ} {other : CallId}
    (htaken : b.registry.find? b.registry.nextSeq = some other)
    (h : b.registry.isAvailable = true) (id : CallId) :
    b.register id = (b.passedOver id, {}) := by
  rw [register, Registry.register?_of_find?_eq_some htaken h]
  rfl

theorem register_of_available {b : Board ρ} {n : Nat} (hnumbers : b.registry.Numbered n)
    (h : b.registry.isAvailable = true) (id : CallId) :
    b.register id = (b.registered id, {}) :=
  register_of_find?_eq_none hnumbers.find?_nextSeq h id

/-- A registration succeeds exactly if the registry is neither closing nor shut down. -/
theorem isOk_register_iff {b : Board ρ} {id : CallId} :
    (b.register id).2.isOk = true ↔
      b.registry.closing = false ∧ b.registry.shutdown = false := by
  have hnone : b.registry.register? id = none ↔
      b.registry.closing = true ∨ b.registry.shutdown = true := Registry.register?_eq_none_iff
  unfold register
  split
  case h_1 heq =>
    have hflags := hnone.mp heq
    refine iff_of_false (by simp [Status.isOk, Status.unavailable]) ?_
    rintro ⟨hclosing, hshutdown⟩
    simp [hclosing, hshutdown] at hflags
  case h_2 heq =>
    refine iff_of_true rfl ?_
    rw [heq] at hnone
    simpa using hnone

/-! ## Removal -/

@[simp] theorem remove_fst (b : Board ρ) (seq : UInt64) :
    (b.remove seq).1 = b.registry.find? seq := rfl

@[simp] theorem remove_snd (b : Board ρ) (seq : UInt64) :
    (b.remove seq).2 = { b with registry := (b.registry.remove seq).2 } := rfl

/-- Taking a call out under a number that no call has changes nothing. -/
theorem remove_of_find?_eq_none {b : Board ρ} {seq : UInt64}
    (h : b.registry.find? seq = none) : b.remove seq = (none, b) := by
  rw [remove, Registry.remove_of_find?_eq_none h]

@[simp] theorem takeAll_snd (b : Board ρ) (order : Registry.Order) :
    (b.takeAll order).2 = { b with registry := b.registry.emptied } := rfl

/-- All calls in flight are taken out, whatever the order. -/
theorem takeAll_perm (b : Board ρ) (order : Registry.Order) :
    (b.takeAll order).1.Perm (b.registry.pending.map (·.2)) :=
  order.perm _

@[simp] theorem mem_takeAll {b : Board ρ} {order : Registry.Order} {id : CallId} :
    id ∈ (b.takeAll order).1 ↔ id ∈ b.registry.pending.map (·.2) :=
  (b.takeAll_perm order).mem_iff

@[simp] theorem length_takeAll (b : Board ρ) (order : Registry.Order) :
    (b.takeAll order).1.length = b.registry.pending.length :=
  (b.takeAll_perm order).length_eq.trans (List.length_map _)

/-- Closing changes one flag, and only the first time. -/
theorem beginClose_eq (b : Board ρ) :
    b.beginClose =
      if b.registry.closing then (b, .unavailable)
      else ({ b with registry := { b.registry with closing := true } }, {}) := by
  unfold beginClose Registry.beginClose?
  cases h : b.registry.closing <;> rfl

/-! ## Completion -/

/-- A call that can be finished is unfinished, has a queue, and room is found in it. -/
theorem finish_moved {b b' : Board ρ} {id : CallId} (h : b.finish id = .moved b') :
    ∃ call queue q q', b.call? id = some call ∧ call.finished = false ∧
      call.queue = some queue ∧ b.queue? queue = some q ∧ q.push? id = some q' ∧
      b' = b.delivered id queue q' := by
  simp only [finish, delivery] at h
  cases hcall : b.call? id with
  | none => simp [hcall] at h
  | some call =>
      cases hfinished : call.finished with
      | true => simp [hcall, hfinished] at h
      | false =>
          cases hqueue : call.queue with
          | none => simp [hcall, hfinished, hqueue] at h
          | some queue =>
              simp only [hcall, hfinished, hqueue, Bool.false_eq_true, if_false] at h
              cases hq : b.queue? queue with
              | none => simp [hq] at h
              | some q =>
                  cases hpush : q.push? id with
                  | none => simp [hq, hpush] at h
                  | some q' =>
                      simp only [hq, Option.bind_some, hpush, Turn.moved.injEq] at h
                      exact ⟨call, queue, q, q', rfl, hfinished, hqueue, hq, hpush, h.symm⟩

/-- An unfinished call with a queue can be finished, or has to wait. -/
theorem finish_ne_aborted {b : Board ρ} {id : CallId} {call : Call ρ}
    (hcall : b.call? id = some call) (hfinished : call.finished = false)
    (hqueue : call.queue.isSome) (cause : Abort) : b.finish id ≠ .aborted cause := by
  obtain ⟨queue, hqueue⟩ := Option.isSome_iff_exists.mp hqueue
  simp only [finish, delivery, hcall, hfinished, hqueue, Bool.false_eq_true, if_false]
  split <;> simp

/-- A call that is finished stands behind all others in its queue, which had room for it. -/
theorem finish_delivered {b b' : Board ρ} {id : CallId} (h : b.finish id = .moved b') :
    ∃ call queue q, b.call? id = some call ∧ call.finished = false ∧ call.queue = some queue ∧
      b.queue? queue = some q ∧ q.hasRoom = true ∧
      b' = b.delivered id queue { q with items := q.items ++ [id] } := by
  obtain ⟨call, queue, q, q', hcall, hfinished, hqueue, hq, hpush, rfl⟩ := finish_moved h
  rw [CompletionQueue.push?, Option.ite_none_right_eq_some] at hpush
  obtain ⟨hroom, hpush⟩ := hpush
  obtain rfl := Option.some.inj hpush
  exact ⟨call, queue, q, hcall, hfinished, hqueue, hq, hroom, rfl⟩

/-- Giving a call its outcome and finishing it puts it behind all others in its queue. -/
theorem finishWith_delivered {b b' : Board ρ} {status : Status} {id : CallId}
    (h : b.finishWith status id = .moved b') :
    ∃ call queue q, b.call? id = some call ∧ call.finished = false ∧ call.queue = some queue ∧
      b.queue? queue = some q ∧ q.hasRoom = true ∧
      b' = (b.setError id status).delivered id queue { q with items := q.items ++ [id] } := by
  obtain ⟨told, queue, q, htold, hfinished, hqueue, hq, hroom, rfl⟩ := finish_delivered h
  rw [setError, call?_modifyCall, if_pos rfl, Option.map_eq_some_iff] at htold
  obtain ⟨call, hcall, rfl⟩ := htold
  exact ⟨call, queue, q, hcall, hfinished, hqueue, hq, hroom, rfl⟩

/-- An unfinished call is finished at once if its queue has room. -/
theorem finish_of_hasRoom {b : Board ρ} {id : CallId} {call : Call ρ} {queue : QueueId}
    {q : CompletionQueue} (hcall : b.call? id = some call) (hfinished : call.finished = false)
    (hqueue : call.queue = some queue) (hq : b.queue? queue = some q) (hroom : q.hasRoom = true) :
    b.finish id = .moved (b.delivered id queue { q with items := q.items ++ [id] }) := by
  simp only [finish, delivery, hcall, hfinished, hqueue, Bool.false_eq_true, if_false, hq,
    Option.bind_some, CompletionQueue.push?, hroom, if_true]

/-- An unfinished call has to wait as long as its queue is full. -/
theorem finish_of_full {b : Board ρ} {id : CallId} {call : Call ρ} {queue : QueueId}
    {q : CompletionQueue} (hcall : b.call? id = some call) (hfinished : call.finished = false)
    (hqueue : call.queue = some queue) (hq : b.queue? queue = some q) (hfull : q.hasRoom = false) :
    b.finish id = .blocked := by
  simp only [finish, delivery, hcall, hfinished, hqueue, Bool.false_eq_true, if_false, hq,
    Option.bind_some, CompletionQueue.push?, hfull]

@[simp] theorem registry_delivered (b : Board ρ) (id : CallId) (queue : QueueId)
    (q : CompletionQueue) : (b.delivered id queue q).registry = b.registry := rfl

@[simp] theorem length_calls_delivered (b : Board ρ) (id : CallId) (queue : QueueId)
    (q : CompletionQueue) : (b.delivered id queue q).calls.length = b.calls.length :=
  length_calls_modifyCall ..

theorem call?_delivered (b : Board ρ) (id other : CallId) (queue : QueueId)
    (q : CompletionQueue) :
    (b.delivered id queue q).call? other =
      if id = other then (b.call? other).map ({ · with finished := true }) else b.call? other :=
  call?_modifyCall ..

/-- Finishing a call leaves the registry alone. -/
theorem registry_finish {b b' : Board ρ} {id : CallId} (h : b.finish id = .moved b') :
    b'.registry = b.registry := by
  obtain ⟨call, queue, q, q', -, -, -, -, -, rfl⟩ := finish_moved h
  rfl

/-- A call that is finished with an outcome has been unfinished. -/
theorem call?_finishWith {b b' : Board ρ} {status : Status} {id : CallId}
    (h : b.finishWith status id = .moved b') (other : CallId) :
    (id = other → ∃ call, b.call? other = some call ∧ call.finished = false ∧
      b'.call? other = some { call with error := status, finished := true }) ∧
    (id ≠ other → b'.call? other = b.call? other) := by
  obtain ⟨call, queue, q, q', hcall, hfinished, -, -, -, rfl⟩ := finish_moved h
  rw [setError, call?_modifyCall, if_pos rfl, Option.map_eq_some_iff] at hcall
  obtain ⟨before, hbefore, rfl⟩ := hcall
  rw [call?_delivered, setError, call?_modifyCall]
  constructor
  · rintro rfl
    exact ⟨before, hbefore, hfinished, by simp [hbefore]⟩
  · intro hne
    rw [if_neg hne, if_neg hne]

/-- A queue that is put in the place of another. -/
theorem queue?_setQueue {b : Board ρ} {queue : QueueId} {q : CompletionQueue}
    (hq : b.queue? queue = some q) (q' : CompletionQueue) (other : QueueId) :
    ({ b with queues := b.queues.set queue q' } : Board ρ).queue? other =
      if queue = other then some q' else b.queue? other := by
  have hlt : queue < b.queues.length := (List.getElem?_eq_some_iff.mp hq).1
  simp only [queue?, List.getElem?_set, hlt, if_true]

/-- Collecting a call leaves calls and registry alone. -/
theorem pop?_eq_some {b b' : Board ρ} {queue : QueueId} {id : CallId}
    (h : b.pop? queue = some (id, b')) :
    ∃ q q', b.queue? queue = some q ∧ q.pop? = some (id, q') ∧
      b' = { b with queues := b.queues.set queue q' } := by
  unfold pop? at h
  cases hq : b.queue? queue with
  | none => simp [hq] at h
  | some q =>
      simp only [hq, Option.map_eq_some_iff, Prod.mk.injEq] at h
      obtain ⟨⟨call, q'⟩, hpop, rfl, rfl⟩ := h
      exact ⟨q, q', rfl, hpop, rfl⟩

/-- The call that is collected from a queue stood in front of all others. -/
theorem pop?_front {b b' : Board ρ} {queue : QueueId} {id : CallId}
    (h : b.pop? queue = some (id, b')) :
    ∃ q items, b.queue? queue = some q ∧ q.items = id :: items ∧
      b' = { b with queues := b.queues.set queue { q with items } } := by
  obtain ⟨q, q', hq, hpop, rfl⟩ := pop?_eq_some h
  unfold CompletionQueue.pop? at hpop
  split at hpop
  case h_1 => contradiction
  case h_2 front items hitems =>
    obtain ⟨rfl, rfl⟩ := Prod.mk.inj (Option.some.inj hpop)
    exact ⟨q, items, hq, hitems, rfl⟩

end RemoteCalls.Board
