import RemoteCalls.Proofs.Registry.History

/-!
# RemoteCalls.Proofs.Registry.Termination

A thread that terminates a registry, and what the others find meanwhile.

The thread takes all calls out in one step.  Then it tells one call after another,
in any order: it gives the call its outcome and marks it (`announce`), and waits
until the call's queue has room for it (`push?`).  Both together are `finishWith`
(`finishWith_eq`).  Between its steps other threads register calls, take them out,
close, terminate as well, finish what they have taken out, and collect.

Main statement: `blocked_termination`, whatever the thread waits for, and for how
long: others go on as with any registry that is shut down, and every call that was
taken is told, and delivered once.
-/

namespace RemoteCalls.Board

variable {ρ : Type}

/-! ## Finishing a call in two steps -/

/-- The board after a call has been given its outcome and marked as finished. -/
def announced (b : Board ρ) (status : Status) (id : CallId) : Board ρ :=
  (b.setError id status).modifyCall id ({ · with finished := true })

/-- Give a call its outcome and mark it as finished: the queue that it is to be delivered to. -/
def announce (b : Board ρ) (status : Status) (id : CallId) : Turn (QueueId × Board ρ) :=
  ((b.setError id status).delivery id).map fun queue => (queue, b.announced status id)

/-- The board after a call has been put into a queue, which was `q`. -/
def put (b : Board ρ) (queue : QueueId) (q : CompletionQueue) (id : CallId) : Board ρ :=
  { b with queues := b.queues.set queue { q with items := q.items ++ [id] } }

/-- Put a call into a queue, if it has room. -/
def push? (b : Board ρ) (queue : QueueId) (id : CallId) : Option (Board ρ) :=
  ((b.queue? queue).bind (·.push? id)).map fun q => { b with queues := b.queues.set queue q }

/-- Finishing a call with an outcome is to announce it and to put it into its queue. -/
theorem finishWith_eq (b : Board ρ) (status : Status) (id : CallId) :
    b.finishWith status id =
      match b.announce status id with
      | .blocked => .blocked
      | .aborted cause => .aborted cause
      | .moved (queue, b') => (b'.push? queue id).elim .blocked .moved := by
  rw [finishWith, finish, announce]
  cases (b.setError id status).delivery id with
  | blocked => rfl
  | aborted cause => rfl
  | moved queue =>
      simp only [Turn.map, push?, queue?, announced, queues_modifyCall]
      cases ((b.setError id status).queues[queue]?).bind (·.push? id) <;> rfl

/-- An unfinished call with a queue is announced at once. -/
theorem announce_of_ready {b : Board ρ} {id : CallId} {call : Call ρ} {queue : QueueId}
    (hcall : b.call? id = some call) (hfinished : call.finished = false)
    (hqueue : call.queue = some queue) (status : Status) :
    b.announce status id = .moved (queue, b.announced status id) := by
  have htold : (b.setError id status).call? id = some { call with error := status } :=
    call?_modifyCall_self hcall _
  simp only [announce, delivery, htold, hfinished, hqueue, Bool.false_eq_true, if_false, Turn.map]

/-- A call that can be announced is unfinished and has a queue. -/
theorem announce_moved {b b' : Board ρ} {status : Status} {id : CallId} {queue : QueueId}
    (h : b.announce status id = .moved (queue, b')) :
    ∃ call, b.call? id = some call ∧ call.queue = some queue ∧ b' = b.announced status id := by
  simp only [announce, delivery, setError, call?_modifyCall, if_true] at h
  cases hcall : b.call? id with
  | none => simp [hcall, Turn.map] at h
  | some call =>
      cases hfinished : call.finished with
      | true => simp [hcall, hfinished, Turn.map] at h
      | false =>
          cases hqueue : call.queue with
          | none => simp [hcall, hfinished, hqueue, Turn.map] at h
          | some target =>
              simp only [hcall, hfinished, hqueue, Option.map_some, Bool.false_eq_true, if_false,
                Turn.map, Turn.moved.injEq, Prod.mk.injEq] at h
              obtain ⟨rfl, rfl⟩ := h
              exact ⟨call, rfl, hqueue, rfl⟩

/-- A call that is announced has its outcome and is marked, and nothing else has changed. -/
theorem call?_announced (b : Board ρ) (status : Status) (id other : CallId) :
    (b.announced status id).call? other =
      if id = other then (b.call? other).map ({ · with error := status, finished := true })
      else b.call? other := by
  rw [announced, call?_modifyCall, setError, call?_modifyCall]
  split
  · rw [Option.map_map]
    rfl
  · rfl

/-- A call that is put into a queue stands behind all others there, and there was room. -/
theorem push?_eq_some {b b' : Board ρ} {queue : QueueId} {id : CallId}
    (h : b.push? queue id = some b') :
    ∃ q, b.queue? queue = some q ∧ q.hasRoom = true ∧ b' = b.put queue q id := by
  rw [push?, Option.map_eq_some_iff] at h
  obtain ⟨q', hpush, rfl⟩ := h
  obtain ⟨q, hq, hpush⟩ := Option.bind_eq_some_iff.mp hpush
  rw [CompletionQueue.push?, Option.ite_none_right_eq_some] at hpush
  obtain ⟨hroom, hpush⟩ := hpush
  obtain rfl := Option.some.inj hpush
  exact ⟨q, hq, hroom, rfl⟩

/-- A call is put into a queue exactly if there is room. -/
theorem push?_eq {b : Board ρ} {queue : QueueId} {q : CompletionQueue}
    (hq : b.queue? queue = some q) (id : CallId) :
    b.push? queue id = if q.hasRoom then some (b.put queue q id) else none := by
  rw [push?, hq, Option.bind_some, CompletionQueue.push?]
  split <;> rfl

/-! ## The thread and the others -/

/-- A thread that terminates a registry, after it has taken the calls out. -/
structure Terminator (ρ : Type) where
  /-- The board, which is shared with other threads. -/
  shared : Shared ρ
  /-- What the calls are told. -/
  status : Status
  /-- The call that is announced, and the queue that it waits for. -/
  current : Option (CallId × QueueId) := none
  /-- The calls that are still to be announced. -/
  left : List CallId

/-- A step of the thread or of another. -/
inductive Deed where
  /-- The thread announces its next call. -/
  | announce
  /-- The thread puts the call that it has announced into its queue. -/
  | push
  | other (use : Use)

/-- The call that another thread delivers in a step. -/
def Shared.delivers? (s : Shared ρ) : Use → Option CallId
  | .finish id => some id
  | .proceed t => (s.terminations[t]?).bind (·.left.head?)
  | _ => none

namespace Terminator

/-- The board that all threads share. -/
abbrev board (s : Terminator ρ) : Board ρ := s.shared.board

/-- A termination that has just taken the calls out of a registry, and is to tell them in this
order.  Others may be under way. -/
def begun (b : Board ρ) (others : List Termination) (status : Status) (order : List CallId) :
    Terminator ρ :=
  { shared := { board := { b with registry := b.registry.emptied }, terminations := others }
    status, left := order }

/-- A step of the thread or of another.  The thread waits as long as the queue of the call that it
has announced is full. -/
def step (s : Terminator ρ) : Deed → Turn (Terminator ρ)
  | .announce =>
      match s.current, s.left with
      | none, id :: left => (s.board.announce s.status id).map fun (queue, board) =>
          { s with shared := { s.shared with board }, current := some (id, queue), left }
      | _, _ => .blocked
  | .push =>
      match s.current with
      | none => .blocked
      | some (id, queue) =>
          match s.board.push? queue id with
          | none => .blocked
          | some board => .moved { s with shared := { s.shared with board }, current := none }
  | .other use => (s.shared.step use).map fun shared => { s with shared }

/-- The call that is put into its queue in a step. -/
def delivers? (s : Terminator ρ) : Deed → Option CallId
  | .announce => none
  | .push => s.current.map (·.1)
  | .other use => s.shared.delivers? use

/-- The steps of the thread and the others in any order, and the calls that were put into their
queues, in order.  The others finish no call that the thread has taken. -/
inductive Run (s₀ : Terminator ρ) : List CallId → Terminator ρ → Prop where
  | start : Run s₀ [] s₀
  | step {delivered : List CallId} {s s' : Terminator ρ} (run : Run s₀ delivered s) (deed : Deed)
      (hapart : ∀ id, deed = .other (.finish id) → id ∉ s₀.left) (h : s.step deed = .moved s') :
      Run s₀ (delivered ++ (s.delivers? deed).toList) s'

/-- What a step can be. -/
inductive Advance (s : Terminator ρ) : Deed → Terminator ρ → Prop where
  | announce {id : CallId} {left : List CallId} {call : Call ρ} {queue : QueueId}
      (hcurrent : s.current = none) (hleft : s.left = id :: left)
      (hcall : s.board.call? id = some call) (hqueue : call.queue = some queue) :
      Advance s .announce { s with
        shared := { s.shared with board := s.board.announced s.status id }
        current := some (id, queue)
        left }
  | push {id : CallId} {queue : QueueId} {q : CompletionQueue}
      (hcurrent : s.current = some (id, queue)) (hq : s.board.queue? queue = some q)
      (hroom : q.hasRoom = true) :
      Advance s .push { s with
        shared := { s.shared with board := s.board.put queue q id }
        current := none }
  | other {use : Use} {shared : Shared ρ} (h : s.shared.step use = .moved shared) :
      Advance s (.other use) { s with shared }

theorem advance_of_step {s s' : Terminator ρ} {deed : Deed} (h : s.step deed = .moved s') :
    Advance s deed s' := by
  cases deed with
  | announce =>
      cases hcurrent : s.current with
      | some target => simp [step, hcurrent] at h
      | none =>
          cases hleft : s.left with
          | nil => simp [step, hcurrent, hleft] at h
          | cons id left =>
              simp only [step, hcurrent, hleft] at h
              rcases hannounce : s.board.announce s.status id with _ | cause | ⟨queue, board⟩
              · simp [hannounce, Turn.map] at h
              · simp [hannounce, Turn.map] at h
              · rw [hannounce] at h
                obtain rfl := Turn.moved.inj h
                obtain ⟨call, hcall, hqueue, rfl⟩ := announce_moved hannounce
                exact .announce hcurrent hleft hcall hqueue
  | push =>
      cases hcurrent : s.current with
      | none => simp [step, hcurrent] at h
      | some target =>
          obtain ⟨id, queue⟩ := target
          cases hpush : s.board.push? queue id with
          | none => simp [step, hcurrent, hpush] at h
          | some board =>
              simp only [step, hcurrent, hpush] at h
              obtain rfl := Turn.moved.inj h
              obtain ⟨q, hq, hroom, rfl⟩ := push?_eq_some hpush
              exact .push hcurrent hq hroom
  | other use =>
      cases hmoved : s.shared.step use with
      | blocked => simp [step, hmoved, Turn.map] at h
      | aborted cause => simp [step, hmoved, Turn.map] at h
      | moved shared =>
          simp only [step, hmoved, Turn.map] at h
          obtain rfl := Turn.moved.inj h
          exact .other hmoved

end Terminator

/-! ## What a step does to the queues -/

/-- What a step does to a queue: nothing, or it puts the call that it delivers behind all others
into a queue that has room, or it collects the first call. -/
inductive Passage (delivered : Option CallId) (queue : QueueId) (deed : Deed) :
    Option CompletionQueue → Option CompletionQueue → Prop where
  | same {q : Option CompletionQueue} : Passage delivered queue deed q q
  | put {q : CompletionQueue} {id : CallId} (hroom : q.size < q.capacity)
      (hid : delivered = some id) :
      Passage delivered queue deed (some q) (some { q with items := q.items ++ [id] })
  | collect {q : CompletionQueue} {id : CallId} {items : List CallId}
      (hdeed : deed = .other (.collect queue)) (hfront : q.items = id :: items) :
      Passage delivered queue deed (some q) (some { q with items })

theorem Passage.capacity {delivered : Option CallId} {queue : QueueId} {deed : Deed}
    {q q' : Option CompletionQueue} (h : Passage delivered queue deed q q') :
    q'.map (·.capacity) = q.map (·.capacity) := by
  cases h <;> rfl

/-- A call that is put into a queue with room passes into it. -/
theorem passage_of_setQueue {b : Board ρ} {target : QueueId} {q : CompletionQueue} {id : CallId}
    (hq : b.queue? target = some q) (hroom : q.hasRoom = true) (deed : Deed) (queue : QueueId) :
    Passage (some id) queue deed (b.queue? queue) ((b.put target q id).queue? queue) := by
  rw [put, queue?_setQueue hq]
  split
  case isTrue heq =>
    subst heq
    rw [hq]
    exact .put (by simpa [CompletionQueue.hasRoom] using hroom) rfl
  case isFalse => exact .same

theorem passage_of_finish {b b' : Board ρ} {id : CallId} (h : b.finish id = .moved b')
    (deed : Deed) (queue : QueueId) :
    Passage (some id) queue deed (b.queue? queue) (b'.queue? queue) := by
  obtain ⟨call, target, q, -, -, -, hq, hroom, rfl⟩ := finish_delivered h
  exact passage_of_setQueue hq hroom deed queue

/-- Only deliveries and collections touch the queues. -/
theorem Shared.passage {s s' : Shared ρ} {use : Use} (h : s.step use = .moved s')
    (queue : QueueId) :
    Passage (s.delivers? use) queue (.other use) (s.board.queue? queue)
      (s'.board.queue? queue) := by
  cases use with
  | register id =>
      simp only [step] at h
      cases hcall : s.board.call? id with
      | none => simp [hcall] at h
      | some call =>
          simp only [hcall] at h
          obtain rfl := Turn.moved.inj h
          rw [register]
          split <;> exact .same
  | remove seq =>
      obtain rfl := Turn.moved.inj h
      exact .same
  | beginClose =>
      obtain rfl := Turn.moved.inj h
      rw [beginClose_eq]
      split <;> exact .same
  | terminate status taking =>
      obtain rfl := Turn.moved.inj h
      exact .same
  | proceed t =>
      simp only [step] at h
      split at h
      case h_1 status id left hleft =>
        cases hfinish : s.board.finishWith status id with
        | blocked => simp [hfinish, Turn.map] at h
        | aborted cause => simp [hfinish, Turn.map] at h
        | moved board =>
            rw [hfinish] at h
            obtain rfl := Turn.moved.inj h
            simp only [delivers?, hleft, Option.bind_some, List.head?_cons]
            exact passage_of_finish hfinish _ queue
      case h_2 => contradiction
  | finish id =>
      simp only [step] at h
      cases hfinish : s.board.finish id with
      | blocked => simp [hfinish, Turn.map] at h
      | aborted cause => simp [hfinish, Turn.map] at h
      | moved board =>
          rw [hfinish] at h
          obtain rfl := Turn.moved.inj h
          exact passage_of_finish hfinish _ queue
  | collect target =>
      simp only [step] at h
      cases hpop : s.board.pop? target with
      | none => simp [hpop] at h
      | some popped =>
          obtain ⟨id, board⟩ := popped
          simp only [hpop] at h
          obtain rfl := Turn.moved.inj h
          obtain ⟨q, items, hq, hitems, rfl⟩ := pop?_front hpop
          simp only
          rw [queue?_setQueue hq]
          split
          case isTrue heq =>
            subst heq
            rw [hq]
            exact .collect rfl hitems
          case isFalse => exact .same

/-! ## What others do to a registry that is shut down -/

/-- A step of another thread on an empty registry that is shut down leaves it so, changes no call
but the one that it delivers, and gives no termination more to do. -/
theorem Shared.step_of_shutdown {s s' : Shared ρ} {use : Use}
    (hshut : s.board.registry.shutdown = true) (hempty : s.board.registry.pending = [])
    (h : s.step use = .moved s') :
    s'.board.registry.shutdown = true ∧ s'.board.registry.pending = [] ∧
      (∀ id, s.delivers? use ≠ some id → s'.board.call? id = s.board.call? id) ∧
      ∀ t' ∈ s'.terminations, ∀ id ∈ t'.left, ∃ t ∈ s.terminations, id ∈ t.left := by
  cases use with
  | register id =>
      have hrefused : s.board.register id = (s.board, .unavailable) :=
        register_of_unavailable (by simp [Registry.isAvailable, hshut]) id
      simp only [step, hrefused] at h
      split at h
      case h_1 => contradiction
      case h_2 =>
        obtain rfl := Turn.moved.inj h
        exact ⟨hshut, hempty, fun _ _ => rfl, fun t ht id hid => ⟨t, ht, hid⟩⟩
  | remove seq =>
      have hnone : s.board.remove seq = (none, s.board) :=
        remove_of_find?_eq_none (by simp [Registry.find?, hempty])
      simp only [step, hnone] at h
      obtain rfl := Turn.moved.inj h
      exact ⟨hshut, hempty, fun _ _ => rfl, fun t ht id hid => ⟨t, ht, hid⟩⟩
  | beginClose =>
      obtain rfl := Turn.moved.inj h
      simp only [beginClose_eq]
      split <;> exact ⟨hshut, hempty, fun _ _ => rfl, fun t ht id hid => ⟨t, ht, hid⟩⟩
  | terminate status taking =>
      obtain rfl := Turn.moved.inj h
      refine ⟨rfl, rfl, fun _ _ => rfl, ?_⟩
      intro t' ht' id hid
      obtain hold | hnew := List.mem_append.mp ht'
      · exact ⟨t', hold, hid⟩
      · -- there is nothing left to take
        rw [List.mem_singleton.mp hnew] at hid
        have hmem := mem_takeAll.mp hid
        rw [hempty] at hmem
        contradiction
  | proceed t =>
      simp only [step] at h
      split at h
      case h_1 status id left hleft =>
        cases hfinish : s.board.finishWith status id with
        | blocked => simp [hfinish, Turn.map] at h
        | aborted cause => simp [hfinish, Turn.map] at h
        | moved board =>
            rw [hfinish] at h
            obtain rfl := Turn.moved.inj h
            have htold : (s.board.setError id status).finish id = .moved board := hfinish
            have hregistry : board.registry = s.board.registry :=
              (registry_finish htold).trans (registry_setError ..)
            refine ⟨hregistry ▸ hshut, hregistry ▸ hempty, ?_, ?_⟩
            · intro other hother
              simp only [delivers?, hleft, Option.bind_some, List.head?_cons] at hother
              exact (call?_finishWith hfinish other).2 fun heq => hother (congrArg some heq)
            · intro t' ht' other hother
              obtain hold | rfl := List.mem_or_eq_of_mem_set ht'
              · exact ⟨t', hold, hother⟩
              · exact ⟨_, List.mem_of_getElem? hleft, List.mem_cons_of_mem _ hother⟩
      case h_2 => contradiction
  | finish id =>
      simp only [step] at h
      cases hfinish : s.board.finish id with
      | blocked => simp [hfinish, Turn.map] at h
      | aborted cause => simp [hfinish, Turn.map] at h
      | moved board =>
          rw [hfinish] at h
          obtain rfl := Turn.moved.inj h
          obtain ⟨call, target, q, -, -, -, -, -, rfl⟩ := finish_delivered hfinish
          refine ⟨hshut, hempty, ?_, fun t ht other hother => ⟨t, ht, hother⟩⟩
          intro other hother
          rw [call?_delivered, if_neg fun heq => hother (congrArg some heq)]
  | collect target =>
      simp only [step] at h
      cases hpop : s.board.pop? target with
      | none => simp [hpop] at h
      | some popped =>
          obtain ⟨id, board⟩ := popped
          simp only [hpop] at h
          obtain rfl := Turn.moved.inj h
          obtain ⟨q, items, -, -, rfl⟩ := pop?_front hpop
          exact ⟨hshut, hempty, fun _ _ => rfl, fun t ht other hother => ⟨t, ht, hother⟩⟩

/-- Whether an operation needs nothing of any other thread: every operation of the registry, and the
collection of a call that is there. -/
def Shared.IsPrompt (s : Shared ρ) : Use → Prop
  | .register id => (s.board.call? id).isSome
  | .collect queue => ∃ q, s.board.queue? queue = some q ∧ q.items ≠ []
  | .proceed _ | .finish _ => False
  | _ => True

/-- Such an operation takes place at once. -/
theorem Shared.IsPrompt.moved {s : Shared ρ} {use : Use} (h : s.IsPrompt use) :
    ∃ s', s.step use = .moved s' := by
  cases use with
  | register id =>
      obtain ⟨call, hcall⟩ := Option.isSome_iff_exists.mp h
      simp only [step, hcall]
      exact ⟨_, rfl⟩
  | collect queue =>
      obtain ⟨q, hq, hitems⟩ := h
      obtain ⟨id, items, hcons⟩ := List.exists_cons_of_ne_nil hitems
      simp only [step, pop?, hq, CompletionQueue.pop?, hcons, Option.map_some]
      exact ⟨_, rfl⟩
  | proceed t => exact h.elim
  | finish id => exact h.elim
  | _ => exact ⟨_, rfl⟩

/-- Whether a call can be finished: it is unfinished, and has a queue that can hold calls. -/
def Ready (b : Board ρ) (id : CallId) : Prop :=
  ∃ call queue q, b.call? id = some call ∧ call.finished = false ∧ call.queue = some queue ∧
    b.queue? queue = some q ∧ 0 < q.capacity

namespace Terminator

/-! ## Runs -/

/-- How far a termination has come that was to tell the calls in `order`, of which `delivered` have
been put into their queues, among others. -/
structure Underway (b : Board ρ) (status : Status) (order delivered : List CallId)
    (s : Terminator ρ) : Prop where
  status_eq : s.status = status
  shutdown : s.board.registry.shutdown = true
  empty : s.board.registry.pending = []
  share : delivered.filter (order.contains ·) ++ (s.current.map (·.1)).toList ++ s.left = order
  apart : ∀ t ∈ s.shared.terminations, ∀ id ∈ t.left, id ∉ order
  told : ∀ id ∈ order, ∃ call, b.call? id = some call ∧ s.board.call? id =
    some (if id ∈ s.left then call else { call with error := status, finished := true })
  target : ∀ id queue, s.current = some (id, queue) →
    ∃ call, b.call? id = some call ∧ call.queue = some queue
  capacity : ∀ queue, (s.board.queue? queue).map (·.capacity) = (b.queue? queue).map (·.capacity)

section Steps

variable {b : Board ρ} {others : List Termination} {status : Status}
  {order delivered : List CallId} {s s' : Terminator ρ}

theorem underway_begun (hready : ∀ id ∈ order, b.Ready id)
    (hothers : ∀ t ∈ others, ∀ id ∈ t.left, id ∉ order) :
    Underway b status order [] (begun b others status order) where
  status_eq := rfl
  shutdown := rfl
  empty := rfl
  share := rfl
  apart := hothers
  told id hid := by
    obtain ⟨call, -, -, hcall, -⟩ := hready id hid
    exact ⟨call, hcall, by rw [begun, if_pos hid]; exact hcall⟩
  target _ _ h := by contradiction
  capacity _ := rfl

/-- A call that is still to be announced is one of those that were taken, and stands there once. -/
theorem Underway.of_left (h : Underway b status order delivered s) (honce : order.Nodup)
    {id : CallId} {left : List CallId} (hleft : s.left = id :: left) :
    id ∈ order ∧ id ∉ left := by
  have hshare := h.share
  rw [hleft] at hshare
  rw [← hshare] at honce ⊢
  exact ⟨by simp, (List.nodup_cons.mp (List.nodup_append.mp honce).2.1).1⟩

/-- The next call can be announced. -/
theorem Underway.announce (h : Underway b status order delivered s) (honce : order.Nodup)
    (hready : ∀ id ∈ order, b.Ready id) {id : CallId} {left : List CallId}
    (hcurrent : s.current = none) (hleft : s.left = id :: left) :
    ∃ s', s.step .announce = .moved s' := by
  obtain ⟨hid, -⟩ := h.of_left honce hleft
  obtain ⟨call, queue, q, hcall, hfinished, hqueue, -, -⟩ := hready id hid
  obtain ⟨call', hcall', hnow⟩ := h.told id hid
  obtain rfl := Option.some.inj (hcall.symm.trans hcall')
  rw [hleft, if_pos List.mem_cons_self] at hnow
  simp only [Terminator.step, hcurrent, hleft, announce_of_ready hnow hfinished hqueue, Turn.map]
  exact ⟨_, rfl⟩

/-- A call that has been announced waits for its own queue, and for nothing else. -/
theorem Underway.push (h : Underway b status order delivered s)
    (hready : ∀ id ∈ order, b.Ready id) {id : CallId} {queue : QueueId}
    (hcurrent : s.current = some (id, queue)) :
    ∃ q, s.board.queue? queue = some q ∧ 0 < q.capacity ∧ s.step .push =
      if q.hasRoom then .moved { s with
        shared := { s.shared with board := s.board.put queue q id }
        current := none }
      else .blocked := by
  have hid : id ∈ order := by
    rw [← h.share, hcurrent]
    simp
  obtain ⟨call, hcall, hqueue⟩ := h.target id queue hcurrent
  obtain ⟨call', queue', q₀, hcall', -, hqueue', hq₀, hpos⟩ := hready id hid
  obtain rfl := Option.some.inj (hcall.symm.trans hcall')
  obtain rfl := Option.some.inj (hqueue.symm.trans hqueue')
  have hcapacity := h.capacity queue
  rw [hq₀, Option.map_some, Option.map_eq_some_iff] at hcapacity
  obtain ⟨q, hq, hsame⟩ := hcapacity
  refine ⟨q, hq, hsame ▸ hpos, ?_⟩
  simp only [step, hcurrent, push?_eq hq]
  by_cases hroom : q.hasRoom = true
  · simp only [if_pos hroom]
  · simp only [if_neg hroom]

/-- A call that another thread delivers has not been taken. -/
theorem Underway.not_mem_of_delivers (h : Underway b status order delivered s) {use : Use}
    (hfinish : ∀ id, use = .finish id → id ∉ order) {id : CallId}
    (hid : s.shared.delivers? use = some id) : id ∉ order := by
  cases use with
  | finish other =>
      obtain rfl := Option.some.inj hid
      exact hfinish other rfl
  | proceed t =>
      obtain ⟨termination, ht, hhead⟩ := Option.bind_eq_some_iff.mp hid
      exact h.apart termination (List.mem_of_getElem? ht) id (List.mem_of_head? hhead)
  | _ => contradiction

/-- Every step of a termination, or of another thread, leaves it under way. -/
theorem Underway.step (h : Underway b status order delivered s) (honce : order.Nodup)
    {deed : Deed} (hapart : ∀ id, deed = .other (.finish id) → id ∉ order)
    (hstep : s.step deed = .moved s') :
    Underway b status order (delivered ++ (s.delivers? deed).toList) s' := by
  have hshare := h.share
  cases advance_of_step hstep with
  | @announce id left call queue hcurrent hleft hcall hqueue =>
      obtain ⟨hid, hfresh⟩ := h.of_left honce hleft
      rw [hcurrent, hleft] at hshare
      refine ⟨h.status_eq, h.shutdown, h.empty, ?_, h.apart, ?_, ?_, h.capacity⟩
      · simpa [delivers?] using hshare
      · intro other hother
        obtain ⟨before, hbefore, hnow⟩ := h.told other hother
        refine ⟨before, hbefore, ?_⟩
        rw [hleft] at hnow
        simp only [board]
        rw [call?_announced, hnow, h.status_eq]
        by_cases heq : id = other
        · subst heq
          rw [if_pos rfl, if_pos List.mem_cons_self, if_neg hfresh, Option.map_some]
        · simp only [if_neg heq, List.mem_cons, Ne.symm heq, false_or]
      · intro other target heq
        obtain ⟨rfl, rfl⟩ := Prod.mk.inj (Option.some.inj heq)
        obtain ⟨before, hbefore, hnow⟩ := h.told id hid
        rw [hleft, if_pos List.mem_cons_self, hcall] at hnow
        obtain rfl := Option.some.inj hnow
        exact ⟨call, hbefore, hqueue⟩
  | @push id queue q hcurrent hq hroom =>
      rw [hcurrent] at hshare
      have hid : id ∈ order := by
        rw [← hshare]
        simp
      refine ⟨h.status_eq, h.shutdown, h.empty, ?_, h.apart, h.told, by simp, ?_⟩
      · simpa [delivers?, hcurrent, hid] using hshare
      · intro other
        rw [← h.capacity other]
        exact (passage_of_setQueue hq hroom .push other).capacity
  | @other use shared hmoved =>
      have hfinish : ∀ id, use = .finish id → id ∉ order := fun id heq => hapart id (heq ▸ rfl)
      obtain ⟨hshut, hempty, hcalls, hleft⟩ := Shared.step_of_shutdown h.shutdown h.empty hmoved
      refine ⟨h.status_eq, hshut, hempty, ?_, ?_, ?_, h.target, ?_⟩
      · rw [List.filter_append]
        cases hid : s.shared.delivers? use with
        | none => simpa [delivers?, hid] using hshare
        | some id =>
            have hnot := h.not_mem_of_delivers hfinish hid
            simpa [delivers?, hid, hnot] using hshare
      · intro t' ht' id hid
        obtain ⟨t, ht, hmem⟩ := hleft t' ht' id hid
        exact h.apart t ht id hmem
      · intro id hid
        obtain ⟨call, hcall, hnow⟩ := h.told id hid
        refine ⟨call, hcall, ?_⟩
        rw [← hnow]
        exact hcalls id fun heq => h.not_mem_of_delivers hfinish heq hid
      · intro queue
        rw [← h.capacity queue]
        exact (Shared.passage hmoved queue).capacity

/-- A run of a termination and other threads leaves it under way. -/
theorem Run.underway {s₀ : Terminator ρ} (run : Run s₀ delivered s)
    (h : Underway b status order [] s₀) (hleft : s₀.left = order) (honce : order.Nodup) :
    Underway b status order delivered s := by
  induction run with
  | start => exact h
  | step run deed hapart hstep ih => exact ih.step honce (hleft ▸ hapart) hstep

end Steps

/-! ## What a termination means to others, and to the calls -/

/-- What other threads find while a termination is under way, and afterwards: nothing is in flight,
nothing can be registered, and no operation of theirs has to wait for the thread. -/
structure Refuses (s : Terminator ρ) : Prop where
  register : ∀ id, s.board.register id = (s.board, .unavailable)
  remove : ∀ seq, s.board.remove seq = (none, s.board)
  pending : s.board.registry.pending.length = 0
  unavailable : s.board.registry.isAvailable = false
  prompt : ∀ use, s.shared.IsPrompt use → ∃ s', s.step (.other use) = .moved s'

/-- What becomes of the calls that were taken out of `b`, to be told in this order, when `delivered`
have been put into their queues, among others. -/
structure Serves (b : Board ρ) (status : Status) (order delivered : List CallId)
    (s : Terminator ρ) : Prop where
  /-- Every call has been delivered once, or waits for room, or is still to be announced. -/
  share : delivered.filter (order.contains ·) ++ (s.current.map (·.1)).toList ++ s.left = order
  /-- A call has its outcome once it is announced, and is as it was before. -/
  told : ∀ id ∈ order, ∃ call, b.call? id = some call ∧ s.board.call? id =
    some (if id ∈ s.left then call else { call with error := status, finished := true })
  /-- If the termination has returned, all calls have been delivered. -/
  returned : s.current = none → s.left = [] → delivered.filter (order.contains ·) = order
  /-- The next call is announced without waiting. -/
  announces : ∀ id left, s.current = none → s.left = id :: left → ∃ s', s.step .announce = .moved s'
  /-- An announced call waits for room in its own queue alone, and is then put behind the others
  there; from a queue without room a call can be collected. -/
  waits : ∀ id queue, s.current = some (id, queue) →
    (∃ call, b.call? id = some call ∧ call.queue = some queue) ∧
    ∃ q, s.board.queue? queue = some q ∧
      (q.size < q.capacity → s.step .push = .moved { s with
        shared := { s.shared with board := s.board.put queue q id }
        current := none }) ∧
      (q.capacity ≤ q.size → s.step .push = .blocked ∧
        ∃ s', s.step (.other (.collect queue)) = .moved s')
  /-- No promise is broken. -/
  kept : ∀ cause, s.step .announce ≠ .aborted cause ∧ s.step .push ≠ .aborted cause
  /-- Whatever step comes next, calls get into queues only by being delivered, and with room. -/
  passage : ∀ deed s' queue, s.step deed = .moved s' →
    Passage (s.delivers? deed) queue deed (s.board.queue? queue) (s'.board.queue? queue)
  /-- The thread leaves the registry alone, and all calls that it has not taken. -/
  apart : ∀ deed s', deed = .announce ∨ deed = .push → s.step deed = .moved s' →
    s'.board.registry = s.board.registry ∧ (∀ id ∉ order, s'.board.call? id = s.board.call? id) ∧
      ∀ id, s.delivers? deed = some id → id ∈ order

section Outcome

variable {b : Board ρ} {others : List Termination} {status : Status}
  {order delivered : List CallId} {s s' : Terminator ρ}

theorem Underway.refuses (h : Underway b status order delivered s) : s.Refuses where
  register id := register_of_unavailable (by simp [Registry.isAvailable, h.shutdown]) id
  remove seq := remove_of_find?_eq_none (by simp [Registry.find?, h.empty])
  pending := by rw [h.empty, List.length_nil]
  unavailable := by simp [Registry.isAvailable, h.shutdown]
  prompt use hprompt := by
    obtain ⟨shared, hmoved⟩ := hprompt.moved
    exact ⟨{ s with shared }, by rw [Terminator.step, hmoved, Turn.map]⟩

/-- A step of the thread is an announcement or a delivery of a call that it has taken. -/
theorem Underway.apart_of_step (h : Underway b status order delivered s) (honce : order.Nodup)
    {deed : Deed} (hdeed : deed = .announce ∨ deed = .push) (hstep : s.step deed = .moved s') :
    s'.board.registry = s.board.registry ∧ (∀ id ∉ order, s'.board.call? id = s.board.call? id) ∧
      ∀ id, s.delivers? deed = some id → id ∈ order := by
  cases advance_of_step hstep with
  | @announce id left call queue hcurrent hleft hcall hqueue =>
      refine ⟨rfl, ?_, by simp [delivers?]⟩
      intro other hother
      have hne : id ≠ other := fun heq => hother (heq ▸ (h.of_left honce hleft).1)
      simp only [board]
      rw [call?_announced, if_neg hne]
  | @push id queue q hcurrent hq hroom =>
      refine ⟨rfl, fun _ _ => rfl, ?_⟩
      intro other hother
      rw [delivers?, hcurrent] at hother
      obtain rfl := Option.some.inj hother
      rw [← h.share, hcurrent]
      simp
  | other hmoved => simp at hdeed

/-- What any step does to any queue. -/
theorem passage_of_step {deed : Deed} (hstep : s.step deed = .moved s') (queue : QueueId) :
    Passage (s.delivers? deed) queue deed (s.board.queue? queue) (s'.board.queue? queue) := by
  cases advance_of_step hstep with
  | announce hcurrent hleft hcall hqueue => exact .same
  | push hcurrent hq hroom =>
      rw [delivers?, hcurrent]
      exact passage_of_setQueue hq hroom .push queue
  | other hmoved => exact Shared.passage hmoved queue

/-- The thread breaks no promise. -/
theorem Underway.not_aborted (h : Underway b status order delivered s) (honce : order.Nodup)
    (hready : ∀ id ∈ order, b.Ready id) (cause : Abort) :
    s.step .announce ≠ .aborted cause ∧ s.step .push ≠ .aborted cause := by
  constructor
  · intro haborted
    cases hcurrent : s.current with
    | some target => simp [Terminator.step, hcurrent] at haborted
    | none =>
        cases hleft : s.left with
        | nil => simp [Terminator.step, hcurrent, hleft] at haborted
        | cons id left =>
            obtain ⟨s', hmoved⟩ := h.announce honce hready hcurrent hleft
            rw [hmoved] at haborted
            contradiction
  · intro haborted
    cases hcurrent : s.current with
    | none => simp [Terminator.step, hcurrent] at haborted
    | some target =>
        obtain ⟨q, -, -, hpush⟩ := h.push hready hcurrent
        rw [hpush] at haborted
        split at haborted <;> contradiction

theorem Underway.waits (h : Underway b status order delivered s)
    (hready : ∀ id ∈ order, b.Ready id) {id : CallId} {queue : QueueId}
    (hcurrent : s.current = some (id, queue)) :
    ∃ q, s.board.queue? queue = some q ∧
      (q.size < q.capacity → s.step .push = .moved { s with
        shared := { s.shared with board := s.board.put queue q id }
        current := none }) ∧
      (q.capacity ≤ q.size → s.step .push = .blocked ∧
        ∃ s', s.step (.other (.collect queue)) = .moved s') := by
  obtain ⟨q, hq, hpos, hpush⟩ := h.push hready hcurrent
  refine ⟨q, hq, ?_, ?_⟩
  · intro hroom
    rw [hpush, if_pos (by simpa [CompletionQueue.hasRoom] using hroom)]
  · intro hfull
    refine ⟨by rw [hpush, if_neg (by simpa [CompletionQueue.hasRoom] using hfull)], ?_⟩
    have hitems : q.items ≠ [] := List.ne_nil_of_length_pos (Nat.lt_of_lt_of_le hpos hfull)
    exact h.refuses.prompt (.collect queue) ⟨q, hq, hitems⟩

theorem Underway.serves (h : Underway b status order delivered s) (honce : order.Nodup)
    (hready : ∀ id ∈ order, b.Ready id) : s.Serves b status order delivered where
  share := h.share
  told := h.told
  returned hcurrent hleft := by simpa [hcurrent, hleft] using h.share
  announces id left := h.announce honce hready
  waits id queue hcurrent := ⟨h.target id queue hcurrent, h.waits hready hcurrent⟩
  kept := h.not_aborted honce hready
  passage deed s' queue hstep := passage_of_step hstep queue
  apart deed s' := h.apart_of_step honce

/-- **A termination that is blocked.**  A thread takes all calls out of a registry and tells them,
in any order, waiting for room in their queues as often and as long as it takes, while other threads
do what they like.  From then on, at any time: nothing is in flight, registrations are refused and
change nothing, and no operation of the registry waits for the thread; every call that was taken has
been given the outcome and delivered once, with room, or this is still to come and the call is as it
was; the thread waits for the queue of its next call alone, and touches no call but those it took;
and if it returns, all of them have been delivered. -/
theorem blocked_termination (hdistinct : (b.registry.pending.map (·.2)).Nodup)
    (hready : ∀ e ∈ b.registry.pending, b.Ready e.2)
    (hothers : ∀ t ∈ others, ∀ id ∈ t.left, id ∉ b.registry.pending.map (·.2))
    (horder : order.Perm (b.registry.pending.map (·.2)))
    (run : Run (begun b others status order) delivered s) :
    s.Refuses ∧ s.Serves b status order delivered := by
  have hmem (id : CallId) : id ∈ order ↔ id ∈ b.registry.pending.map (·.2) := horder.mem_iff
  have honce : order.Nodup := horder.nodup_iff.mpr hdistinct
  have hready' : ∀ id ∈ order, b.Ready id := by
    intro id hid
    obtain ⟨e, he, rfl⟩ := List.mem_map.mp ((hmem id).mp hid)
    exact hready e he
  have hothers' : ∀ t ∈ others, ∀ id ∈ t.left, id ∉ order :=
    fun t ht id hid hin => hothers t ht id hid ((hmem id).mp hin)
  have h : Underway b status order delivered s :=
    run.underway (underway_begun hready' hothers') rfl honce
  exact ⟨h.refuses, h.serves honce hready'⟩

/-- Two calls share a queue that has room for one.  The second one is told first; the first one has
to wait, while others register and take out calls in vain, until the second one is collected. -/
theorem blocked_termination_two_calls :
    let b : Board Unit :=
      { calls :=
          [{ reply := (), queue := some 0 }, { reply := (), queue := some 0 }, { reply := () }]
        queues := [{ capacity := 1 }]
        registry := { nextSeq := 3, pending := [(1, 0), (2, 1)] } }
    ∃ full s : Terminator Unit,
      Run (begun b [] .unavailable [1, 0]) [1] full ∧ full.step .push = .blocked ∧
      (∀ seq, full.board.remove seq = (none, full.board)) ∧
      Run (begun b [] .unavailable [1, 0]) [1, 0] s ∧
      s.board.call? 0 =
        some { reply := (), queue := some 0, error := .unavailable, finished := true } ∧
      s.board.registry.isAvailable = false := by
  intro b
  have hready : ∀ e ∈ b.registry.pending, b.Ready e.2 := by
    intro e he
    obtain rfl | rfl : e = (1, 0) ∨ e = (2, 1) := by simpa [b] using he
    · exact ⟨_, 0, _, rfl, rfl, rfl, rfl, Nat.one_pos⟩
    · exact ⟨_, 0, _, rfl, rfl, rfl, rfl, Nat.one_pos⟩
  have begin : Run (begun b [] .unavailable [1, 0]) [] (begun b [] .unavailable [1, 0]) := .start
  have full := (((begin.step .announce (by simp) rfl).step .push (by simp) rfl).step .announce
    (by simp) rfl).step (.other (.register 2)) (by simp) rfl
  have returned := (full.step (.other (.collect 0)) (by simp) rfl).step .push (by simp) rfl
  obtain ⟨hrefuses, hserves⟩ :=
    blocked_termination (by decide) hready (by simp) (.swap 0 1 []) full
  obtain ⟨hrefuses', hserves'⟩ :=
    blocked_termination (by decide) hready (by simp) (.swap 0 1 []) returned
  obtain ⟨-, q, hq, -, hblocked⟩ := hserves.waits 0 0 rfl
  obtain rfl := Option.some.inj hq
  obtain ⟨call, hcall, hnow⟩ := hserves'.told 0 (by simp)
  obtain rfl := Option.some.inj hcall
  exact ⟨_, _, full, (hblocked (by decide)).1, hrefuses.remove, returned, hnow,
    hrefuses'.unavailable⟩

end Outcome

end Terminator

end RemoteCalls.Board
