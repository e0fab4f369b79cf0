import RemoteCalls.Client.Run
import RemoteCalls.Proofs.Client.Turns
import RemoteCalls.Proofs.Client.Walk

/-!
# RemoteCalls.Proofs.Client.Holding

What one party can do to the calls, queues and locks of the others, however long
a client runs.

A move changes only calls that the party making it holds, or finds in the registry
(`Effect.call?_eq`).  `Holding` is what is left of `Custody` when numbers may come
round: a call that is passed over is held by nobody, so a call is held by one
party at most, and by none once it is finished.  Hence what one party holds is safe
from all others, and a finished call never changes again.

`Traffic` says what a move does to the queues, and `Locked` who has the send lock.
-/

namespace RemoteCalls

/-! ## Queues -/

namespace Board

variable {ρ : Type} {b b' : Board ρ}

/-- Every call has a queue, and no queue holds more than it has room for. -/
structure Stocked (b : Board ρ) : Prop where
  queued : ∀ id call, b.call? id = some call →
    ∃ queue, call.queue = some queue ∧ queue < b.queues.length
  sized : ∀ q ∈ b.queues, q.size ≤ q.capacity

/-- Calls of the same standing have the same queue, and are both finished or both not. -/
theorem call?_of_standing (hcalls : b'.calls.map Call.standing = b.calls.map Call.standing)
    {id : CallId} {call : Call ρ} (hcall : b'.call? id = some call) :
    ∃ before, b.call? id = some before ∧ before.queue = call.queue ∧
      before.finished = call.finished := by
  have hstanding := congrArg (·[id]?) hcalls
  rw [call?] at hcall
  simp only [List.getElem?_map, hcall, Option.map_some] at hstanding
  obtain ⟨before, hbefore, heq⟩ := Option.map_eq_some_iff.mp hstanding.symm
  obtain ⟨hqueue, hfinished⟩ := Prod.mk.inj heq
  exact ⟨before, hbefore, hqueue, hfinished⟩

theorem Stocked.congr (h : b.Stocked)
    (hcalls : b'.calls.map Call.standing = b.calls.map Call.standing)
    (hqueues : b'.queues = b.queues) : b'.Stocked := by
  refine ⟨fun id call hcall => ?_, hqueues ▸ h.sized⟩
  obtain ⟨before, hbefore, hqueue, -⟩ := call?_of_standing hcalls hcall
  rw [hqueues, ← hqueue]
  exact h.queued id before hbefore

theorem Stocked.addQueue (h : b.Stocked) (capacity : Nat) : (b.addQueue capacity).1.Stocked := by
  refine ⟨fun id call hcall => ?_, fun q hq => ?_⟩
  · obtain ⟨queue, hqueue, hlt⟩ := h.queued id call hcall
    refine ⟨queue, hqueue, ?_⟩
    rw [Board.addQueue, List.length_append]
    exact Nat.lt_add_right _ hlt
  · rw [Board.addQueue, List.mem_append, List.mem_singleton] at hq
    obtain hold | rfl := hq
    · exact h.sized q hold
    · exact Nat.zero_le _

theorem Stocked.addCall (h : b.Stocked) {queue : QueueId} (hlt : queue < b.queues.length)
    (r : Request ρ) : (b.addCall (r.toCall queue)).1.Stocked := by
  refine ⟨fun id call hcall => ?_, h.sized⟩
  have hmem := List.mem_of_getElem? hcall
  rw [Board.addCall, List.mem_append, List.mem_singleton] at hmem
  obtain hold | rfl := hmem
  · obtain ⟨other, hother⟩ := List.mem_iff_getElem?.mp hold
    exact h.queued other call hother
  · exact ⟨queue, rfl, hlt⟩

/-- A queue may be replaced by one that does not hold too much. -/
theorem Stocked.setQueue (h : b.Stocked) {queue : QueueId} {q : CompletionQueue}
    (hsize : q.size ≤ q.capacity) : Stocked { b with queues := b.queues.set queue q } := by
  refine ⟨fun id call hcall => ?_, fun other hother => ?_⟩
  · rw [List.length_set]
    exact h.queued id call hcall
  · obtain hold | rfl := List.mem_or_eq_of_mem_set hother
    · exact h.sized other hold
    · exact hsize

theorem Stocked.collect (h : b.Stocked) {queue : QueueId} {id : CallId}
    (hpop : b.pop? queue = some (id, b')) : b'.Stocked := by
  obtain ⟨q, items, hq, hitems, rfl⟩ := pop?_front hpop
  have hsize := h.sized q (List.mem_of_getElem? hq)
  refine h.setQueue ?_
  rw [CompletionQueue.size, hitems, List.length_cons] at hsize
  exact Nat.le_of_succ_le hsize

theorem Stocked.finish (h : b.Stocked) {id : CallId} (hfinish : b.finish id = .moved b') :
    b'.Stocked := by
  obtain ⟨call, queue, q, -, -, -, -, hroom, rfl⟩ := finish_delivered hfinish
  have hsize : ({ q with items := q.items ++ [id] } : CompletionQueue).size ≤ q.capacity := by
    simp only [CompletionQueue.hasRoom, decide_eq_true_eq] at hroom
    rw [CompletionQueue.size, List.length_append]
    exact hroom
  refine ⟨fun other call hcall => ?_, (h.setQueue hsize).sized⟩
  obtain ⟨before, hbefore, hsame⟩ : ∃ before, b.call? other = some before ∧
      before.queue = call.queue := by
    rw [call?_delivered] at hcall
    split at hcall
    · obtain ⟨before, hbefore, rfl⟩ := Option.map_eq_some_iff.mp hcall
      exact ⟨before, hbefore, rfl⟩
    · exact ⟨call, hcall, rfl⟩
  obtain ⟨mine, hmine, hlt⟩ := h.queued other before hbefore
  refine ⟨mine, hsame ▸ hmine, ?_⟩
  rwa [delivered, List.length_set]

end Board

namespace Client

open Board

variable {σ ρ : Type}

/-! ## The calls and the queue that a move is about -/

/-- The calls that the party making a move holds, or finds in the registry in this move. -/
def reach (c : Client σ ρ) : Move ρ → List CallId
  | .task t =>
      match c.tasks[t]? with
      | some (.send _ _ (.withdrawing _)) => (c.board.registry.find? c.header.seq).toList
      | some task => task.held.toList
      | none => []
  | .receive =>
      match c.receiver with
      | .matching response => (c.board.registry.find? response.seq).toList
      | place => place.held
  | _ => []

/-- The queue that a call is collected from in a move, if any. -/
def collectsFrom? (c : Client σ ρ) : Move ρ → Option QueueId
  | .collect queue => some queue
  | .task t =>
      match c.tasks[t]? with
      | some (.send id _ .collecting) => (c.board.call? id).bind (·.queue)
      | _ => none
  | _ => none

section Frame

variable [ByteStream σ] {c c' : Client σ ρ} {move : Move ρ}

/-- **A move changes no call but those in its reach.** -/
theorem Effect.call?_eq (h : Effect c move c') {id : CallId} (hid : id ∉ c.reach move)
    (hlt : id < c.board.calls.length) : c'.board.call? id = c.board.call? id := by
  have hset (b : Board ρ) (other : CallId) (f : Call ρ → Call ρ) (hne : id ≠ other) :
      (b.modifyCall other f).call? id = b.call? id := call?_modifyCall_of_ne b (Ne.symm hne) f
  have hfinish {b b' : Board ρ} {other : CallId} (hfinish : b.finish other = .moved b')
      (hne : id ≠ other) : b'.call? id = b.call? id := by
    obtain ⟨call, queue, q, q', -, -, -, -, -, rfl⟩ := finish_moved hfinish
    exact hset _ _ _ hne
  have hpopped {b b' : Board ρ} {queue : QueueId} {other : CallId}
      (hpop : b.pop? queue = some (other, b')) : b'.call? id = b.call? id := by
    obtain ⟨q, q', -, -, rfl⟩ := pop?_eq_some hpop
    rfl
  cases h with
  | alone => exact List.getElem?_append_left hlt
  | go => exact List.getElem?_append_left hlt
  | collect hpop => exact hpopped hpop
  | passOver htask =>
      refine hset _ _ _ ?_
      simpa [reach, htask, Task.held] using hid
  | send htask _ h =>
      simp only [reach, htask] at hid
      cases h with
      | register => exact hset _ _ _ (by simpa [Task.held] using hid)
      | refuse => exact hset _ _ _ (by simpa [Task.held] using hid)
      | withdraw hfind =>
          refine (hset _ _ _ ?_).trans rfl
          simpa [hfind] using hid
      | finish hdone => exact hfinish hdone (by simpa [Task.held] using hid)
      | collect _ hpop => exact hpopped hpop
      | _ => rfl
  | closing _ h => cases h <;> rfl
  | receive h =>
      simp only [reach] at hid
      generalize c.receiver = place at h hid
      cases h with
      | matchError hfind =>
          refine (hset _ _ _ ?_).trans rfl
          simpa [hfind] using hid
      | replyFail => exact hset _ _ _ (by simpa [Receiver.held] using hid)
      | reply => exact hset _ _ _ (by simpa [Receiver.held] using hid)
      | finish hdone => exact hfinish hdone (by simpa [Receiver.held] using hid)
      | terminate hdone =>
          have hne := List.ne_of_not_mem_cons hid
          exact (hfinish hdone hne).trans (hset _ _ _ hne)
      | _ => rfl
  | _ => rfl

theorem SendChange.tasks {t : TaskId} {id : CallId} {call : Call ρ} {waits : Bool}
    {phase : SendPhase} {events : List (Event ρ)}
    (h : SendChange c t id call waits phase events c') :
    ∃ next, c'.tasks = c.tasks.set t (.send id waits next) := by
  cases h <;> exact ⟨_, rfl⟩

theorem CloseChange.tasks {t : TaskId} {drops : Bool} {phase : ClosePhase}
    (h : CloseChange c t drops phase c') :
    ∃ next, c'.tasks = c.tasks.set t (.close drops next) := by
  cases h <;> exact ⟨_, rfl⟩

theorem ReceiverChange.tasks {place : Receiver} {events : List (Event ρ)}
    (h : ReceiverChange c place events c') : c'.tasks = c.tasks := by
  cases h <;> rfl

/-- **A move changes no task but the one that makes it.** -/
theorem Effect.task_eq (h : Effect c move c') {t : TaskId} (hmove : move ≠ .task t)
    (hlt : t < c.tasks.length) : c'.tasks[t]? = c.tasks[t]? := by
  have hset {t' : TaskId} {next : Task} (hmove : Move.task (ρ := ρ) t' ≠ .task t)
      (htasks : c'.tasks = c.tasks.set t' next) : c'.tasks[t]? = c.tasks[t]? := by
    rw [htasks, List.getElem?_set_ne (fun heq => hmove (congrArg Move.task heq))]
  cases h with
  | alone => exact List.getElem?_append_left hlt
  | go => exact List.getElem?_append_left hlt
  | close => exact List.getElem?_append_left hlt
  | send _ _ h =>
      obtain ⟨next, htasks⟩ := h.tasks
      exact hset hmove htasks
  | passOver => exact hset hmove rfl
  | closing _ h =>
      obtain ⟨next, htasks⟩ := h.tasks
      exact hset hmove htasks
  | receive h => rw [h.tasks]
  | _ => rfl

/-- Tasks are never forgotten. -/
theorem Effect.length_tasks_le (h : Effect c move c') : c.tasks.length ≤ c'.tasks.length := by
  cases h with
  | alone => simp [beginSend]
  | go => simp [beginSend]
  | close => simp [Client.beginClose]
  | send _ _ h =>
      obtain ⟨next, htasks⟩ := h.tasks
      simp [htasks]
  | closing _ h =>
      obtain ⟨next, htasks⟩ := h.tasks
      simp [htasks]
  | receive h => exact Nat.le_of_eq (congrArg List.length h.tasks).symm
  | passOver => simp [setTask]
  | _ => exact Nat.le_refl _

theorem SendChange.receiver_eq {t : TaskId} {id : CallId} {call : Call ρ} {waits : Bool}
    {phase : SendPhase} {events : List (Event ρ)}
    (h : SendChange c t id call waits phase events c') : c'.receiver = c.receiver := by
  cases h <;> rfl

theorem CloseChange.receiver_eq {t : TaskId} {drops : Bool} {phase : ClosePhase}
    (h : CloseChange c t drops phase c') : c'.receiver = c.receiver := by
  cases h <;> rfl

/-- The receiver goes on by itself only. -/
theorem Effect.receiver_eq (h : Effect c move c') (hmove : move ≠ .receive) :
    c'.receiver = c.receiver := by
  cases h with
  | send _ _ h => exact h.receiver_eq
  | closing _ h => exact h.receiver_eq
  | receive => exact absurd rfl hmove
  | _ => rfl

/-- The receiver goes on as described. -/
theorem Effect.of_receive (h : Effect c .receive c') :
    ∃ events, ReceiverChange c c.receiver events c' := by
  cases h with
  | alone halone => simp [Move.alone?] at halone
  | receive h => exact ⟨_, h⟩

/-- A thread that goes on with sending a request does so as described, or its call is passed
over. -/
theorem Effect.of_send {t : TaskId} (h : Effect c (.task t) c') {id : CallId} {waits : Bool}
    {phase : SendPhase} (htask : c.tasks[t]? = some (.send id waits phase)) :
    (∃ call events, c.board.call? id = some call ∧
      SendChange c t id call waits phase events c') ∨
    (phase = .registering ∧ c.isAvailable = true ∧
      (c.board.registry.find? c.board.registry.nextSeq).isSome ∧
      c' = setTask { c with board := c.board.passedOver id } t (.send id waits .addressing)) := by
  cases h with
  | alone halone => simp [Move.alone?] at halone
  | send htask' hcall hchange =>
      obtain ⟨rfl, rfl, rfl⟩ := Task.send.inj (Option.some.inj (htask.symm.trans htask'))
      exact .inl ⟨_, _, hcall, hchange⟩
  | passOver htask' havail htaken =>
      obtain ⟨rfl, rfl, rfl⟩ := Task.send.inj (Option.some.inj (htask.symm.trans htask'))
      exact .inr ⟨rfl, havail, by rw [htaken]; rfl, rfl⟩
  | closing htask' => exact Task.noConfusion (Option.some.inj (htask.symm.trans htask'))

/-- A thread that goes on with closing the client does so as described. -/
theorem Effect.of_close {t : TaskId} (h : Effect c (.task t) c') {drops : Bool}
    {phase : ClosePhase} (htask : c.tasks[t]? = some (.close drops phase)) :
    CloseChange c t drops phase c' := by
  cases h with
  | alone halone => simp [Move.alone?] at halone
  | send htask' => exact Task.noConfusion (Option.some.inj (htask.symm.trans htask'))
  | passOver htask' => exact Task.noConfusion (Option.some.inj (htask.symm.trans htask'))
  | closing htask' hchange =>
      obtain ⟨rfl, rfl⟩ := Task.close.inj (Option.some.inj (htask.symm.trans htask'))
      exact hchange

/-- A thread that sends a request has been sending it since it was begun. -/
theorem Effect.exists_send (h : Effect c move c') {t : TaskId} (hlt : t < c.tasks.length)
    {id : CallId} {waits : Bool} {phase : SendPhase}
    (htask : c'.tasks[t]? = some (.send id waits phase)) :
    ∃ before, c.tasks[t]? = some (.send id waits before) := by
  by_cases hmove : move = .task t
  · subst hmove
    have hkind {next : Task} (htasks : c'.tasks = c.tasks.set t next) :
        next = .send id waits phase := by
      rw [htasks, List.getElem?_set_self hlt] at htask
      exact Option.some.inj htask
    have hbefore : c.tasks[t]? = some c.tasks[t] := List.getElem?_eq_getElem hlt
    generalize c.tasks[t] = task at hbefore
    cases task with
    | send id₀ waits₀ phase₀ =>
        obtain ⟨_, _, -, hchange⟩ | ⟨-, -, -, heq⟩ := h.of_send hbefore
        · obtain ⟨next, htasks⟩ := hchange.tasks
          obtain ⟨rfl, rfl, -⟩ := Task.send.inj (hkind htasks)
          exact ⟨phase₀, hbefore⟩
        · obtain ⟨rfl, rfl, -⟩ := Task.send.inj (hkind (congrArg Client.tasks heq))
          exact ⟨phase₀, hbefore⟩
    | close drops phase₀ =>
        obtain ⟨next, htasks⟩ := (h.of_close hbefore).tasks
        exact Task.noConfusion (hkind htasks)
  · exact ⟨phase, (h.task_eq hmove hlt).symm.trans htask⟩

/-- A thread that closes the client has been closing it since it was begun. -/
theorem Effect.exists_close (h : Effect c move c') {t : TaskId} (hlt : t < c.tasks.length)
    {drops : Bool} {phase : ClosePhase} (htask : c'.tasks[t]? = some (.close drops phase)) :
    ∃ before, c.tasks[t]? = some (.close drops before) := by
  by_cases hmove : move = .task t
  · subst hmove
    have hkind {next : Task} (htasks : c'.tasks = c.tasks.set t next) :
        next = .close drops phase := by
      rw [htasks, List.getElem?_set_self hlt] at htask
      exact Option.some.inj htask
    have hbefore : c.tasks[t]? = some c.tasks[t] := List.getElem?_eq_getElem hlt
    generalize c.tasks[t] = task at hbefore
    cases task with
    | send id₀ waits₀ phase₀ =>
        obtain ⟨_, _, -, hchange⟩ | ⟨-, -, -, heq⟩ := h.of_send hbefore
        · obtain ⟨next, htasks⟩ := hchange.tasks
          exact Task.noConfusion (hkind htasks)
        · exact Task.noConfusion (hkind (congrArg Client.tasks heq))
    | close drops₀ phase₀ =>
        obtain ⟨next, htasks⟩ := (h.of_close hbefore).tasks
        obtain ⟨rfl, -⟩ := Task.close.inj (hkind htasks)
        exact ⟨phase₀, hbefore⟩
  · exact ⟨phase, (h.task_eq hmove hlt).symm.trans htask⟩

/-- A task that there was not before has just been begun. -/
theorem Effect.begun (h : Effect c move c') {t : TaskId} {task : Task}
    (htask : c'.tasks[t]? = some task) (hnew : c.tasks.length ≤ t) :
    t = c.tasks.length ∧
      ((∃ r capacity waits, move.alone? = some (r, capacity, waits) ∧
        task = .send c.board.calls.length waits .entering ∧
        c'.board = ((c.board.addQueue capacity).1.addCall (r.toCall c.board.queues.length)).1) ∨
      (∃ r queue, move = .go r (some queue) ∧
        task = .send c.board.calls.length false .entering ∧
        c'.board = (c.board.addCall (r.toCall queue)).1) ∨
      ∃ drops, move = .close drops ∧ task = .close drops .entering ∧ c'.board = c.board) := by
  have hlast {new : Task} (h : (c.tasks ++ [new])[t]? = some task) :
      t = c.tasks.length ∧ task = new := by
    rw [List.getElem?_append_right hnew, List.getElem?_singleton] at h
    split at h
    case isTrue hzero => exact ⟨Nat.le_antisymm (Nat.sub_eq_zero_iff_le.mp hzero) hnew,
      (Option.some.inj h).symm⟩
    case isFalse => contradiction
  have hnone : c.tasks[t]? = none := List.getElem?_eq_none hnew
  have hset {t' : TaskId} {next : Task} (htasks : c'.tasks = c.tasks.set t' next) : False := by
    rw [htasks, List.getElem?_eq_none (by rwa [List.length_set])] at htask
    contradiction
  cases h with
  | alone halone =>
      obtain ⟨rfl, rfl⟩ := hlast htask
      exact ⟨rfl, .inl ⟨_, _, _, halone, rfl, rfl⟩⟩
  | go hqueue =>
      obtain ⟨rfl, rfl⟩ := hlast htask
      exact ⟨rfl, .inr (.inl ⟨_, _, rfl, rfl, rfl⟩)⟩
  | close drops =>
      obtain ⟨rfl, rfl⟩ := hlast htask
      exact ⟨rfl, .inr (.inr ⟨drops, rfl, rfl, rfl⟩)⟩
  | send _ _ h =>
      obtain ⟨next, htasks⟩ := h.tasks
      exact (hset htasks).elim
  | passOver => exact (hset rfl).elim
  | closing _ h =>
      obtain ⟨next, htasks⟩ := h.tasks
      exact (hset htasks).elim
  | receive h =>
      rw [h.tasks, hnone] at htask
      contradiction
  | _ => exact absurd (hnone.symm.trans htask) (Option.some_ne_none _).symm

/-- What a move does to queues, and to the calls that are delivered to them. -/
inductive Traffic (c : Client σ ρ) (move : Move ρ) (b' : Board ρ) : Prop where
  | still (hcalls : b'.calls.map Call.standing = c.board.calls.map Call.standing)
      (hqueues : b'.queues = c.board.queues)
  | queue {capacity : Nat} (hboard : b' = (c.board.addQueue capacity).1)
  | alone {r : Request ρ} {capacity : Nat} {waits : Bool}
      (halone : move.alone? = some (r, capacity, waits))
      (hboard : b' = ((c.board.addQueue capacity).1.addCall (r.toCall c.board.queues.length)).1)
  | go {r : Request ρ} {queue : QueueId} {q : CompletionQueue} (hmove : move = .go r (some queue))
      (hqueue : c.board.queue? queue = some q) (hboard : b' = (c.board.addCall (r.toCall queue)).1)
  | collect {queue : QueueId} {id : CallId} (hfrom : c.collectsFrom? move = some queue)
      (hpop : c.board.pop? queue = some (id, b'))
  | deliver {b : Board ρ} {id : CallId} (hid : id ∈ c.reach move)
      (hcalls : b.calls.map Call.standing = c.board.calls.map Call.standing)
      (hqueues : b.queues = c.board.queues) (hfinish : b.finish id = .moved b')

theorem Effect.traffic (h : Effect c move c') : Traffic c move c'.board := by
  have hstanding (b : Board ρ) (id : CallId) (f : Call ρ → Call ρ)
      (hf : ∀ call, (f call).standing = call.standing) :
      (b.modifyCall id f).calls.map Call.standing = b.calls.map Call.standing :=
    map_calls_modifyCall hf b id
  cases h with
  | queue capacity => exact .queue rfl
  | alone halone => exact .alone halone rfl
  | go hqueue => exact .go rfl hqueue rfl
  | collect hpop => exact .collect rfl hpop
  | passOver => exact .still (hstanding _ _ _ fun _ => rfl) rfl
  | send htask hcall h =>
      cases h with
      | register => exact .still (hstanding _ _ _ fun _ => rfl) rfl
      | refuse => exact .still (hstanding _ _ _ fun _ => rfl) rfl
      | withdraw => exact .still (hstanding _ _ _ fun _ => rfl) rfl
      | finish hdone => exact .deliver (by simp [reach, htask, Task.held]) rfl rfl hdone
      | collect hqueue hpop =>
          exact .collect (by simp [collectsFrom?, htask, hcall, hqueue]) hpop
      | _ => exact .still rfl rfl
  | closing _ h => cases h <;> exact .still rfl rfl
  | receive h =>
      generalize hat : c.receiver = place at h
      cases h with
      | matchError => exact .still (hstanding _ _ _ fun _ => rfl) rfl
      | replyFail => exact .still (hstanding _ _ _ fun _ => rfl) rfl
      | reply => exact .still (hstanding _ _ _ fun _ => rfl) rfl
      | finish hdone => exact .deliver (by simp [reach, hat, Receiver.held]) rfl rfl hdone
      | terminate hdone =>
          exact .deliver (by simp [reach, hat, Receiver.held]) (standing_setError ..) rfl hdone
      | _ => exact .still rfl rfl
  | _ => exact .still rfl rfl

end Frame

theorem Traffic.stocked {c : Client σ ρ} {move : Move ρ} {b' : Board ρ}
    (htraffic : Traffic c move b') (h : c.board.Stocked) : b'.Stocked := by
  cases htraffic with
  | still hcalls hqueues => exact h.congr hcalls hqueues
  | queue hboard => exact hboard ▸ h.addQueue _
  | alone halone hboard =>
      refine hboard ▸ (h.addQueue _).addCall ?_ _
      simp [Board.addQueue]
  | go hmove hqueue hboard => exact hboard ▸ h.addCall (List.getElem?_eq_some_iff.mp hqueue).1 _
  | collect hfrom hpop => exact h.collect hpop
  | deliver hid hcalls hqueues hfinish => exact (h.congr hcalls hqueues).finish hfinish

/-- A call is delivered to the same queue for ever, and finished for ever. -/
theorem Traffic.exists_call {c : Client σ ρ} {move : Move ρ} {b' : Board ρ}
    (htraffic : Traffic c move b') {id : CallId} {call : Call ρ}
    (hcall : c.board.call? id = some call) :
    ∃ call', b'.call? id = some call' ∧ call'.queue = call.queue ∧
      (call.finished = true → call'.finished = true) := by
  have hlt := (List.getElem?_eq_some_iff.mp hcall).1
  have hsame {b : Board ρ} (h : b.call? id = some call) : ∃ call', b.call? id = some call' ∧
      call'.queue = call.queue ∧ (call.finished = true → call'.finished = true) :=
    ⟨call, h, rfl, fun hfinished => hfinished⟩
  cases htraffic with
  | still hcalls =>
      obtain ⟨call', hcall', hqueue, hfinished⟩ := call?_of_standing hcalls.symm hcall
      exact ⟨call', hcall', hqueue, fun hbefore => hfinished.trans hbefore⟩
  | queue hboard => exact hsame (hboard ▸ hcall)
  | alone _ hboard => exact hsame (hboard ▸ (List.getElem?_append_left hlt).trans hcall)
  | go _ _ hboard => exact hsame (hboard ▸ (List.getElem?_append_left hlt).trans hcall)
  | collect _ hpop =>
      obtain ⟨q, q', -, -, rfl⟩ := pop?_eq_some hpop
      exact hsame hcall
  | @deliver b other _ hcalls _ hfinish =>
      obtain ⟨call', hcall', hqueue, hfinished⟩ := call?_of_standing hcalls.symm hcall
      obtain ⟨-, queue, q, -, -, -, -, -, rfl⟩ := finish_delivered hfinish
      rw [call?_delivered]
      split
      · rw [hcall']
        exact ⟨_, rfl, hqueue, fun _ => rfl⟩
      · exact ⟨call', hcall', hqueue, fun hbefore => hfinished.trans hbefore⟩

/-! ## Who holds a call -/

/-- Every call is held by one party at most, and only as long as it is not finished. -/
structure Holding (c : Client σ ρ) : Prop where
  once : c.holdings.Nodup
  unfinished : ∀ id ∈ c.holdings, ∃ call, c.board.call? id = some call ∧ call.finished = false

theorem holding_start (codec : Codec σ) (p : Preamble) (log : List Log.Entry)
    (order : Registry.Order) :
    (start codec p log order : Client σ ρ).Holding := by
  have hnone : (start codec p log order : Client σ ρ).holdings = [] := rfl
  refine ⟨?_, ?_⟩ <;> simp [hnone]

/-- A call that is found in the registry is in flight. -/
theorem mem_pending_of_find? {r : Registry} {seq : UInt64} {id : CallId}
    (hfind : r.find? seq = some id) : id ∈ r.pending.map (·.2) := by
  obtain ⟨before, after, heq, -⟩ := List.lookup_eq_some_iff.mp hfind
  simp [heq]

theorem mem_holdings_of_find? {c : Client σ ρ} {seq : UInt64} {id : CallId}
    (hfind : c.board.registry.find? seq = some id) : id ∈ c.holdings := by
  rw [holdings, List.mem_append, List.mem_append]
  exact .inr (.inr (mem_pending_of_find? hfind))

/-- A call that is found and taken out is in flight once less. -/
theorem count_pending_remove_le {r : Registry} {seq : UInt64} {id : CallId}
    (hfind : r.find? seq = some id) (other : CallId) :
    ((r.remove seq).2.pending.map (·.2)).count other + [id].count other ≤
      (r.pending.map (·.2)).count other := by
  obtain ⟨before, after, heq, -⟩ := List.lookup_eq_some_iff.mp hfind
  have hless (entries : List (UInt64 × CallId)) :
      ((entries.filter fun e => e.1 != seq).map (·.2)).count other ≤
        (entries.map (·.2)).count other :=
    (List.filter_sublist.map _).count_le _
  have hbefore := hless before
  have hafter := hless after
  simp only [Registry.remove, heq, List.filter_append, List.filter_cons, bne_self_eq_false,
    Bool.false_eq_true, if_false, List.map_append, List.map_cons, List.count_append,
    List.count_cons, List.count_nil]
  omega

section Reach

variable {c : Client σ ρ} {move : Move ρ} {id : CallId}

/-- Whatever a move may change is held by somebody. -/
theorem mem_holdings_of_reach (h : id ∈ c.reach move) : id ∈ c.holdings := by
  cases move with
  | task t =>
      simp only [reach] at h
      split at h
      case h_1 => exact mem_holdings_of_find? (Option.mem_toList.mp h)
      case h_2 task htask => exact mem_holdings_of_task htask (Option.mem_toList.mp h)
      case h_3 => contradiction
  | receive =>
      simp only [reach] at h
      split at h
      · exact mem_holdings_of_find? (Option.mem_toList.mp h)
      · exact mem_holdings_of_receiver h
  | _ => contradiction

/-- What a task holds is out of reach for everyone else. -/
theorem Holding.not_mem_reach_of_task (h : c.Holding) {t : TaskId} {task : Task}
    (htask : c.tasks[t]? = some task) (hheld : task.held = some id) (hmove : move ≠ .task t) :
    id ∉ c.reach move := by
  have hmine : id ∈ c.tasks.filterMap Task.held :=
    List.mem_filterMap.mpr ⟨task, List.mem_of_getElem? htask, hheld⟩
  obtain ⟨htasks, hothers, hapart⟩ := List.nodup_append.mp h.once
  have hnot (hid : id ∈ c.receiver.held ∨ id ∈ c.board.registry.pending.map (·.2)) : False :=
    hapart id hmine id (List.mem_append.mpr hid) rfl
  cases move with
  | task t' =>
      have hunique {task' : Task} (htask' : c.tasks[t']? = some task')
          (hheld' : task'.held = some id) : t = t' := by
        have hpairs := List.pairwise_iff_getElem.mp (List.pairwise_filterMap.mp htasks)
        obtain ⟨hlt, rfl⟩ := List.getElem?_eq_some_iff.mp htask
        obtain ⟨hlt', rfl⟩ := List.getElem?_eq_some_iff.mp htask'
        rcases Nat.lt_trichotomy t t' with hless | heq | hmore
        · exact absurd rfl (hpairs t t' hlt hlt' hless id hheld id hheld')
        · exact heq
        · exact absurd rfl (hpairs t' t hlt' hlt hmore id hheld' id hheld)
      simp only [reach]
      split
      case h_1 => exact fun hid => hnot (.inr (mem_pending_of_find? (Option.mem_toList.mp hid)))
      case h_2 task' htask' =>
        exact fun hid => hmove (congrArg Move.task (hunique htask' (Option.mem_toList.mp hid)).symm)
      case h_3 => exact List.not_mem_nil
  | receive =>
      simp only [reach]
      split
      · exact fun hid => hnot (.inr (mem_pending_of_find? (Option.mem_toList.mp hid)))
      · exact fun hid => hnot (.inl hid)
  | _ => exact List.not_mem_nil

/-- What the receiver holds is out of reach for everyone else. -/
theorem Holding.not_mem_reach_of_receiver (h : c.Holding) (hid : id ∈ c.receiver.held)
    (hmove : move ≠ .receive) : id ∉ c.reach move := by
  obtain ⟨-, hothers, hapart⟩ := List.nodup_append.mp h.once
  obtain ⟨-, -, hpending⟩ := List.nodup_append.mp hothers
  cases move with
  | task t =>
      simp only [reach]
      split
      case h_1 =>
        intro hfind
        exact hpending id hid id (mem_pending_of_find? (Option.mem_toList.mp hfind)) rfl
      case h_2 task _ htask =>
        intro hheld
        have hmine : id ∈ c.tasks.filterMap Task.held :=
          List.mem_filterMap.mpr ⟨task, List.mem_of_getElem? htask, Option.mem_toList.mp hheld⟩
        exact hapart id hmine id (List.mem_append_left _ hid) rfl
      case h_3 => exact List.not_mem_nil
  | receive => exact absurd rfl hmove
  | _ => exact List.not_mem_nil

/-- A call that a task holds is not in flight. -/
theorem Holding.not_mem_pending_of_task (h : c.Holding) {t : TaskId} {task : Task}
    (htask : c.tasks[t]? = some task) (hheld : task.held = some id) :
    id ∉ c.board.registry.pending.map (·.2) := by
  intro hmem
  obtain ⟨-, -, hapart⟩ := List.nodup_append.mp h.once
  exact hapart id (List.mem_filterMap.mpr ⟨task, List.mem_of_getElem? htask, hheld⟩) id
    (List.mem_append_right _ hmem) rfl

/-- A finished call is not in flight. -/
theorem Holding.not_mem_pending_of_finished (h : c.Holding) {call : Call ρ}
    (hcall : c.board.call? id = some call) (hfinished : call.finished = true) :
    id ∉ c.board.registry.pending.map (·.2) := by
  intro hmem
  obtain ⟨other, hother, hnot⟩ := h.unfinished id
    (List.mem_append_right _ (List.mem_append_right _ hmem))
  rw [Option.some.inj (hcall.symm.trans hother), hnot] at hfinished
  contradiction

/-- A finished call is out of reach for all. -/
theorem Holding.not_mem_reach_of_finished (h : c.Holding) {call : Call ρ}
    (hcall : c.board.call? id = some call) (hfinished : call.finished = true) :
    id ∉ c.reach move := by
  intro hid
  obtain ⟨other, hother, hnot⟩ := h.unfinished id (mem_holdings_of_reach hid)
  rw [Option.some.inj (hcall.symm.trans hother), hnot] at hfinished
  contradiction

/-- The receiver never reads the reply of a call that has not been made. -/
theorem Holding.readsReply (h : c.Holding) : c.ReadsReply := by
  intro stage other hat
  obtain ⟨call, hcall, -⟩ := h.unfinished other
    (mem_holdings_of_receiver (by simp [hat, Receiver.held]))
  exact Option.isSome_iff_exists.mpr ⟨call, hcall⟩

end Reach

section Steps

variable {c c' c₁ : Client σ ρ}

/-- A step in which calls change hands or are dropped, but none begins or ends. -/
theorem Holding.hand (h : c.Holding)
    (hcalls : c'.board.calls.map Call.standing = c.board.calls.map Call.standing)
    (hheld : ∀ id, c'.holdings.count id ≤ c.holdings.count id) : c'.Holding := by
  refine ⟨?_, fun id hid => ?_⟩
  · exact List.nodup_iff_count.mpr fun id =>
      Nat.le_trans (hheld id) (List.nodup_iff_count.mp h.once id)
  · have hmem : id ∈ c.holdings :=
      List.count_pos_iff.mp (Nat.lt_of_lt_of_le (List.count_pos_iff.mpr hid) (hheld id))
    obtain ⟨call, hcall, hnot⟩ := h.unfinished id hmem
    obtain ⟨after, hafter, -, hfinished⟩ := call?_of_standing hcalls.symm hcall
    exact ⟨after, hafter, hfinished.trans hnot⟩

/-- A step in which a call is finished by whoever holds it. -/
theorem Holding.finish (h : c.Holding) {id : CallId}
    (hfinish : c.board.finish id = .moved c'.board)
    (hheld : ∀ other, c'.holdings.count other + [id].count other ≤ c.holdings.count other) :
    c'.Holding := by
  have hone (other : CallId) := List.nodup_iff_count.mp h.once other
  refine ⟨List.nodup_iff_count.mpr fun other => ?_, fun other hother => ?_⟩
  · exact Nat.le_trans (Nat.le_add_right _ _) (Nat.le_trans (hheld other) (hone other))
  · have hpos := List.count_pos_iff.mpr hother
    have hne : id ≠ other := by
      rintro rfl
      have hleft := hheld id
      have hmost := hone id
      rw [List.count_singleton_self] at hleft
      omega
    have hmem : other ∈ c.holdings := by
      have hmost := hheld other
      exact List.count_pos_iff.mp (by omega)
    obtain ⟨call, hcall, hnot⟩ := h.unfinished other hmem
    obtain ⟨-, queue, q, -, -, -, -, -, hboard⟩ := finish_delivered hfinish
    exact ⟨call, by rw [hboard, call?_delivered, if_neg hne, hcall], hnot⟩

/-- A task that goes on and may swap a call with the registry. -/
theorem Holding.advance (h : c.Holding) {t : TaskId} {old next : Task}
    (htask : c.tasks[t]? = some old) (htasks : c₁.tasks = c.tasks)
    (hreceiver : c₁.receiver = c.receiver)
    (hcalls : c₁.board.calls.map Call.standing = c.board.calls.map Call.standing)
    (hheld : ∀ id, next.held.toList.count id + (c₁.board.registry.pending.map (·.2)).count id ≤
      old.held.toList.count id + (c.board.registry.pending.map (·.2)).count id) :
    (c₁.setTask t next).Holding := by
  refine h.hand hcalls fun id => ?_
  have hcount := count_holdings_setTask (c := c₁) (htasks ▸ htask) next id
  have hswap := hheld id
  simp only [holdings, htasks, hreceiver, List.count_append] at hcount ⊢
  omega

/-- The receiver goes on and may swap a call with the registry. -/
theorem Holding.attend (h : c.Holding) (htasks : c'.tasks = c.tasks)
    (hcalls : c'.board.calls.map Call.standing = c.board.calls.map Call.standing)
    (hheld : ∀ id, c'.receiver.held.count id + (c'.board.registry.pending.map (·.2)).count id ≤
      c.receiver.held.count id + (c.board.registry.pending.map (·.2)).count id) : c'.Holding := by
  refine h.hand hcalls fun id => ?_
  have hswap := hheld id
  simp only [holdings, htasks, List.count_append]
  omega

/-- A call that is begun is held by the thread that begins it. -/
theorem Holding.begin (h : c.Holding) {queues : List CompletionQueue} (r : Request ρ)
    (queue : QueueId) (waits : Bool) :
    (beginSend { c with board := { c.board with queues } } r queue waits).1.Holding := by
  have hnew : c.board.calls.length ∉ c.holdings := by
    intro hid
    obtain ⟨call, hcall, -⟩ := h.unfinished _ hid
    exact absurd (List.getElem?_eq_some_iff.mp hcall).1 (Nat.lt_irrefl _)
  have hperm : (beginSend { c with board := { c.board with queues } } r queue waits).1.holdings.Perm
      (c.board.calls.length :: c.holdings) := by
    have hone : [Task.send c.board.calls.length waits .entering].filterMap Task.held =
        [c.board.calls.length] := rfl
    simp only [holdings, beginSend, addCall, List.filterMap_append, hone, List.append_assoc]
    exact List.perm_middle
  refine ⟨hperm.nodup_iff.mpr (List.nodup_cons.mpr ⟨hnew, h.once⟩), fun id hid => ?_⟩
  obtain rfl | hold := List.mem_cons.mp (hperm.mem_iff.mp hid)
  · exact ⟨r.toCall queue, List.getElem?_concat_length, rfl⟩
  · obtain ⟨call, hcall, hnot⟩ := h.unfinished id hold
    have hlt := (List.getElem?_eq_some_iff.mp hcall).1
    exact ⟨call, (List.getElem?_append_left hlt).trans hcall, hnot⟩

variable [ByteStream σ]

theorem Holding.send (h : c.Holding) {t : TaskId} {id : CallId} {call : Call ρ} {waits : Bool}
    {phase : SendPhase} {events : List (Event ρ)}
    (htask : c.tasks[t]? = some (.send id waits phase))
    (hchange : SendChange c t id call waits phase events c') : c'.Holding := by
  cases hchange with
  | register =>
      refine h.advance htask rfl rfl (standing_registered ..) fun other => ?_
      simp [Task.held, Registry.filed, Nat.add_comm]
  | refuse => exact h.advance htask rfl rfl (standing_setError ..) fun other => Nat.le_refl _
  | withdraw hfind =>
      refine h.advance htask rfl rfl (standing_setError ..) fun other => ?_
      have hless := count_pending_remove_le hfind other
      simp only [Task.held, note, registry_setError, remove_snd, Option.toList_some,
        Option.toList_none, List.count_nil]
      omega
  | @finish other b hfinish =>
      refine h.finish hfinish fun id' => ?_
      have hcount := count_holdings_setTask
        (c := { c with board := b }) htask (.send id waits .leaving) id'
      simp only [holdings, Task.held, registry_finish hfinish, List.count_append,
        Option.toList_some, Option.toList_none, List.count_nil] at hcount ⊢
      omega
  | leave =>
      refine h.advance htask rfl rfl rfl fun other => ?_
      cases waits <;> exact Nat.le_refl _
  | collect _ hpop =>
      obtain ⟨q, q', -, -, rfl⟩ := pop?_eq_some hpop
      exact h.advance htask rfl rfl rfl fun other => Nat.le_refl _
  | _ => exact h.advance htask rfl rfl rfl fun other => Nat.le_refl _

theorem Holding.receive (h : c.Holding) {events : List (Event ρ)}
    (hchange : ReceiverChange c c.receiver events c') : c'.Holding := by
  generalize hat : c.receiver = place at hchange
  have hfound {seq : UInt64} {id : CallId} (hfind : c.board.registry.find? seq = some id)
      (other : CallId) := count_pending_remove_le hfind other
  cases hchange with
  | matchError hfind =>
      refine h.attend rfl (standing_setError ..) fun other => ?_
      have hless := hfound hfind other
      simp only [hat, Receiver.held, registry_setError, remove_snd, Option.toList_some,
        List.count_nil]
      omega
  | matchReply hfind =>
      refine h.attend rfl rfl fun other => ?_
      have hless := hfound hfind other
      simp only [hat, Receiver.held, remove_snd, List.count_nil]
      omega
  | @skipFail _ _ call =>
      refine h.attend rfl rfl fun other => ?_
      rw [hat]
      cases call <;> exact Nat.le_refl _
  | @skip _ _ call =>
      refine h.attend rfl rfl fun other => ?_
      rw [hat]
      cases call <;> exact Nat.le_refl _
  | replyFail =>
      refine h.attend rfl (standing_setError ..) fun other => ?_
      rw [hat]
      exact Nat.le_refl _
  | @reply _ _ id call _ after _ fault =>
      refine h.attend rfl (map_calls_modifyCall (g := Call.standing) (f := fun call' =>
        { call' with reply := after, error := (replyOutcome call.error fault).1 })
        (fun _ => rfl) c.board id) fun other => ?_
      rw [hat]
      exact Nat.le_refl _
  | finish hfinish =>
      refine h.finish hfinish fun other => ?_
      rw [holdings, holdings, hat, Receiver.held_afterCall, registry_finish hfinish]
      simp only [Receiver.held, List.count_append, List.count_nil]
      omega
  | take =>
      refine h.attend rfl rfl fun other => ?_
      simp [hat, Receiver.held, Registry.emptied, (c.board.takeAll_perm c.order).count_eq]
  | @terminate f id ids b hfinish =>
      have hset : Holding { c with board := c.board.setError id (connectionLost f) } :=
        h.attend rfl (standing_setError ..) fun other => Nat.le_refl _
      refine hset.finish hfinish fun other => ?_
      simp only [holdings, hat, Receiver.held, registry_finish hfinish, registry_setError,
        List.count_append, List.count_cons, List.count_nil]
      omega
  | _ =>
      refine h.attend rfl rfl fun other => ?_
      rw [hat]
      exact Nat.le_refl _

theorem Holding.effect (h : c.Holding) {move : Move ρ} (heffect : Effect c move c') :
    c'.Holding := by
  cases heffect with
  | alone => exact h.begin _ _ _
  | go => exact h.begin _ _ _
  | close drops =>
      refine h.hand rfl fun id => ?_
      have hnone : [Task.close drops .entering].filterMap Task.held = [] := rfl
      simp [holdings, Client.beginClose, hnone]
  | collect hpop =>
      obtain ⟨q, q', -, -, rfl⟩ := pop?_eq_some hpop
      exact h.hand rfl fun _ => Nat.le_refl _
  | send htask _ hchange => exact h.send htask hchange
  | passOver htask =>
      refine h.advance htask rfl rfl ?_ fun other => ?_
      · exact map_calls_modifyCall (f := fun call => { call with seq := c.board.registry.nextSeq })
          (fun _ => rfl) c.board _
      · simp [Task.held, Board.passedOver, Registry.passedOver]
  | closing htask hchange =>
      cases hchange with
      | _ => exact h.advance htask rfl rfl rfl fun other => Nat.le_refl _
  | receive hchange => exact h.receive hchange
  | _ => exact h.hand rfl fun _ => Nat.le_refl _

/-- What holds at the start of a walk and is kept by what every move does holds at its end. -/
theorem Walk.induct {outside : σ → σ → Prop} {c₀ : Client σ ρ}
    {P : List (Taken σ ρ) → Client σ ρ → Prop} {steps : List (Taken σ ρ)}
    (walk : Walk outside c₀ steps c) (hholding : c₀.Holding) (hstart : P [] c₀)
    (hstep : ∀ {steps c c'} (move : Move ρ), c.Holding → P steps c → Effect c move c' →
      P (steps ++ [⟨c, move⟩]) c')
    (houtside : ∀ {steps c} (stream : σ), P steps c → P steps (c.withStream stream)) :
    c.Holding ∧ P steps c := by
  induction walk with
  | start => exact ⟨hholding, hstart⟩
  | step _ move h ih =>
      have heffect := effect_of_step ih.1.readsReply h
      exact ⟨ih.1.effect heffect, hstep move ih.1 ih.2 heffect⟩
  | outside _ stream _ ih => exact ⟨⟨ih.1.once, ih.1.unfinished⟩, houtside stream ih.2⟩

end Steps

/-! ## The send lock -/

section Lock

variable [ByteStream σ] {c c' : Client σ ρ} {t : TaskId}

/-- A thread takes the lock only if nobody holds it, and gives it back. -/
theorem Locked.send (h : c.Locked) {id : CallId} {call : Call ρ} {waits : Bool} {phase : SendPhase}
    {events : List (Event ρ)} (htask : c.tasks[t]? = some (.send id waits phase))
    (hchange : SendChange c t id call waits phase events c') : c'.Locked := by
  cases hchange with
  | enter hlock =>
      refine h.advance htask rfl rfl rfl rfl (by simp [Task.isInside]) fun holder hne => ?_
      simpa [hlock] using fun heq => hne heq.symm
  | leave =>
      have hlock := h.lock_eq htask rfl
      refine h.advance htask rfl rfl rfl rfl ?_ fun holder hne => ?_
      · cases waits <;> simp [Task.isInside]
      · simpa [hlock] using fun heq => hne heq.symm
  | register => exact h.proceed htask rfl rfl rfl rfl rfl (length_calls_registered ..)
  | refuse => exact h.proceed htask rfl rfl rfl rfl rfl (length_calls_setError ..)
  | withdraw => exact h.proceed htask rfl rfl rfl rfl rfl (length_calls_setError ..)
  | finish hfinish =>
      obtain ⟨call, queue, q, q', -, -, -, -, -, rfl⟩ := finish_moved hfinish
      exact h.proceed htask rfl rfl rfl rfl rfl (length_calls_delivered ..)
  | collect _ hpop =>
      obtain ⟨q, q', -, -, rfl⟩ := pop?_eq_some hpop
      exact h.proceed htask rfl rfl rfl rfl rfl rfl
  | _ => exact h.proceed htask rfl rfl rfl rfl rfl rfl

/-- The receiver takes the lock only if nobody holds it, and gives it back. -/
theorem Locked.receive (h : c.Locked) {events : List (Event ρ)}
    (hchange : ReceiverChange c c.receiver events c') : c'.Locked := by
  generalize hat : c.receiver = place at hchange
  cases hchange with
  | lock hlock =>
      refine ⟨h.owners, fun t => ?_, by simp [Receiver.isInside]⟩
      simpa [hlock] using h.holder t
  | unlock =>
      have hlock : c.lock = some .receiver := h.receiver.mpr (by rw [hat]; rfl)
      refine ⟨h.owners, fun t => ?_, by simp [Receiver.isInside]⟩
      simpa [hlock] using h.holder t
  | matchError => exact h.keep rfl rfl (by rw [hat]; rfl) (length_calls_setError ..)
  | @skipFail _ _ call => exact h.keep rfl rfl (by rw [hat]; cases call <;> rfl) rfl
  | @skip _ _ call => exact h.keep rfl rfl (by rw [hat]; cases call <;> rfl) rfl
  | replyFail => exact h.keep rfl rfl (by rw [hat]; rfl) (length_calls_setError ..)
  | reply => exact h.keep rfl rfl (by rw [hat]; rfl) (length_calls_modifyCall ..)
  | finish hfinish =>
      obtain ⟨call, queue, q, q', -, -, -, -, -, rfl⟩ := finish_moved hfinish
      refine h.keep rfl rfl ?_ (length_calls_delivered ..)
      rw [hat, Receiver.isInside_afterCall]
      rfl
  | terminate hfinish =>
      obtain ⟨call, queue, q, q', -, -, -, -, -, rfl⟩ := finish_moved hfinish
      refine h.keep rfl rfl (by rw [hat]; rfl) ?_
      rw [length_calls_delivered, length_calls_setError]
  | _ => exact h.keep rfl rfl (by rw [hat]; rfl) rfl

theorem Locked.effect (h : c.Locked) {move : Move ρ} (heffect : Effect c move c') : c'.Locked := by
  cases heffect with
  | alone =>
      refine h.extend rfl rfl rfl rfl ?_
      simp [beginSend, Board.addCall, Board.addQueue, Task.own, List.range_succ]
  | go =>
      refine h.extend rfl rfl rfl rfl ?_
      simp [beginSend, Board.addCall, Task.own, List.range_succ]
  | close drops =>
      refine h.extend rfl rfl rfl rfl ?_
      simp [Client.beginClose, Task.own]
  | collect hpop =>
      obtain ⟨q, q', -, -, rfl⟩ := pop?_eq_some hpop
      exact h.keep rfl rfl rfl rfl
  | send htask _ hchange => exact h.send htask hchange
  | passOver htask => exact h.proceed htask rfl rfl rfl rfl rfl (length_calls_modifyCall ..)
  | closing htask hchange =>
      cases hchange with
      | _ => exact h.proceed htask rfl rfl rfl rfl rfl rfl
  | receive hchange => exact h.receive hchange
  | _ => exact h.keep rfl rfl rfl rfl

end Lock

/-! ## Delivering a call -/

/-- The call that a move delivers to its queue, if any. -/
def pushes? (c : Client σ ρ) : Move ρ → Option CallId
  | .task t =>
      match c.tasks[t]? with
      | some (.send _ _ (.finishing other)) => some other
      | _ => none
  | .receive => c.finishing?
  | _ => none

section Push

variable {c : Client σ ρ} {move : Move ρ} {id : CallId}

/-- A call that is delivered is held by the party that delivers it. -/
theorem mem_reach_of_pushes (h : c.pushes? move = some id) : id ∈ c.reach move := by
  cases move with
  | task t =>
      simp only [pushes?] at h
      split at h
      · obtain rfl := Option.some.inj h
        simp [reach, *, Task.held]
      · contradiction
  | receive =>
      simp only [pushes?, finishing?] at h
      split at h
      · obtain rfl := Option.some.inj h
        simp [reach, *, Receiver.held]
      · obtain rfl := Option.some.inj h
        simp [reach, *, Receiver.held]
      · contradiction
  | _ => contradiction

/-- A call that is to be delivered is not finished, and has a queue. -/
theorem Holding.call_of_pushes (h : c.Holding) (hstocked : c.board.Stocked)
    (hpushes : c.pushes? move = some id) :
    ∃ call queue q, c.board.call? id = some call ∧ call.finished = false ∧
      call.queue = some queue ∧ c.board.queue? queue = some q := by
  obtain ⟨call, hcall, hfinished⟩ :=
    h.unfinished id (mem_holdings_of_reach (mem_reach_of_pushes hpushes))
  obtain ⟨queue, hqueue, hlt⟩ := hstocked.queued id call hcall
  exact ⟨call, queue, _, hcall, hfinished, hqueue, List.getElem?_eq_getElem hlt⟩

/-- Every thread that sends a request has a call. -/
theorem Locked.exists_call (h : c.Locked) {t : TaskId} {waits : Bool} {phase : SendPhase}
    (htask : c.tasks[t]? = some (.send id waits phase)) : ∃ call, c.board.call? id = some call := by
  have hown : id ∈ c.tasks.filterMap Task.own :=
    List.mem_filterMap.mpr ⟨_, List.mem_of_getElem? htask, rfl⟩
  rw [h.owners, List.mem_range] at hown
  exact ⟨_, List.getElem?_eq_getElem hown⟩

variable [ByteStream σ] {call : Call ρ} {queue : QueueId} {q : CompletionQueue}

/-- Delivering a call comes down to finishing it, with the outcome it has or gets. -/
theorem Locked.step_of_pushes (h : c.Locked) (hpushes : c.pushes? move = some id) :
    ∃ b : Board ρ, (b = c.board ∨ ∃ status, b = c.board.setError id status) ∧
      (b.finish id = .blocked → c.step move = .blocked) ∧
      ∀ b', b.finish id = .moved b' → ∃ c', c.step move = .moved c' ∧ c'.board = b' := by
  cases move with
  | task t =>
      simp only [pushes?] at hpushes
      split at hpushes
      case h_1 own waits other htask =>
        obtain rfl := Option.some.inj hpushes
        obtain ⟨call, hcall⟩ := h.exists_call htask
        refine ⟨c.board, .inl rfl, fun hfinish => ?_, fun b' hfinish => ?_⟩
        · simp only [step, stepTask, htask, hcall, stepSend, hfinish]
        · simp only [step, stepTask, htask, hcall, stepSend, hfinish]
          exact ⟨_, rfl, rfl⟩
      case h_2 => contradiction
  | receive =>
      simp only [pushes?, finishing?] at hpushes
      split at hpushes
      case h_1 other fault hat =>
        obtain rfl := Option.some.inj hpushes
        refine ⟨c.board, .inl rfl, fun hfinish => ?_, fun b' hfinish => ?_⟩
        · simp only [step, stepReceiver, hat, hfinish, Turn.map]
        · simp only [step, stepReceiver, hat, hfinish, Turn.map]
          exact ⟨_, rfl, rfl⟩
      case h_2 f other ids hat =>
        obtain rfl := Option.some.inj hpushes
        refine ⟨_, .inr ⟨connectionLost f, rfl⟩, fun hfinish => ?_, fun b' hfinish => ?_⟩
        · simp only [step, stepReceiver, hat, finishWith, hfinish, Turn.map]
        · simp only [step, stepReceiver, hat, finishWith, hfinish, Turn.map]
          exact ⟨_, rfl, rfl⟩
      case h_3 => contradiction
  | _ => contradiction

/-- The call to be delivered and its queue, on the board on which it is finished. -/
theorem Locked.exists_board (h : c.Locked) (hpushes : c.pushes? move = some id)
    (hcall : c.board.call? id = some call) (hfinished : call.finished = false)
    (hqueue : call.queue = some queue) (hq : c.board.queue? queue = some q) :
    ∃ (b : Board ρ) (mine : Call ρ), b.call? id = some mine ∧ mine.finished = false ∧
      mine.queue = some queue ∧ b.queue? queue = some q ∧
      (b.finish id = .blocked → c.step move = .blocked) ∧
      ∀ b', b.finish id = .moved b' → ∃ c', c.step move = .moved c' ∧ c'.board = b' := by
  obtain ⟨b, rfl | ⟨status, rfl⟩, hblocked, hmoves⟩ := h.step_of_pushes hpushes
  · exact ⟨_, call, hcall, hfinished, hqueue, hq, hblocked, hmoves⟩
  · exact ⟨_, _, call?_modifyCall_self hcall _, hfinished, hqueue, hq, hblocked, hmoves⟩

/-- A call is delivered at once if its queue has room. -/
theorem Locked.step_of_hasRoom (h : c.Locked) (hpushes : c.pushes? move = some id)
    (hcall : c.board.call? id = some call) (hfinished : call.finished = false)
    (hqueue : call.queue = some queue) (hq : c.board.queue? queue = some q)
    (hroom : q.hasRoom = true) : ∃ c', c.step move = .moved c' := by
  obtain ⟨b, mine, hmine, hnot, hsame, hq, -, hmoves⟩ :=
    h.exists_board hpushes hcall hfinished hqueue hq
  obtain ⟨c', hstep, -⟩ := hmoves _ (finish_of_hasRoom hmine hnot hsame hq hroom)
  exact ⟨c', hstep⟩

/-- A call has to wait for room as long as its queue is full. -/
theorem Locked.step_of_full (h : c.Locked) (hpushes : c.pushes? move = some id)
    (hcall : c.board.call? id = some call) (hfinished : call.finished = false)
    (hqueue : call.queue = some queue) (hq : c.board.queue? queue = some q)
    (hfull : q.hasRoom = false) : c.step move = .blocked := by
  obtain ⟨b, mine, hmine, hnot, hsame, hq, hblocked, -⟩ :=
    h.exists_board hpushes hcall hfinished hqueue hq
  exact hblocked (finish_of_full hmine hnot hsame hq hfull)

/-- Whoever makes this move has to wait for room in a queue to deliver a call. -/
def WaitsForRoom (c : Client σ ρ) (move : Move ρ) (queue : QueueId) : Prop :=
  ∃ id call q, c.pushes? move = some id ∧ c.board.call? id = some call ∧
    call.finished = false ∧ call.queue = some queue ∧ c.board.queue? queue = some q ∧
    q.hasRoom = false

instance (c : Client σ ρ) (move : Move ρ) (queue : QueueId) :
    Decidable (c.WaitsForRoom move queue) :=
  decidable_of_iff ((c.pushes? move).any fun id => (c.board.call? id).any fun call =>
      !call.finished && call.queue == some queue && (c.board.queue? queue).any (!·.hasRoom))
    (by simp [WaitsForRoom, Option.any_eq_true, and_assoc])

/-- Whoever waits for room cannot go on. -/
theorem WaitsForRoom.blocked (h : c.WaitsForRoom move queue) (hlocked : c.Locked) :
    c.step move = .blocked := by
  obtain ⟨id, call, q, hpushes, hcall, hfinished, hqueue, hq, hfull⟩ := h
  exact hlocked.step_of_full hpushes hcall hfinished hqueue hq hfull

/-- Whoever delivers a call goes on, or has to wait for room. -/
theorem Holding.moves_or_waits (h : c.Holding) (hlocked : c.Locked) (hstocked : c.board.Stocked)
    (hpushes : c.pushes? move = some id) :
    (∃ c', c.step move = .moved c') ∨ ∃ queue, c.WaitsForRoom move queue := by
  obtain ⟨call, queue, q, hcall, hfinished, hqueue, hq⟩ := h.call_of_pushes hstocked hpushes
  cases hroom : q.hasRoom with
  | true => exact .inl (hlocked.step_of_hasRoom hpushes hcall hfinished hqueue hq hroom)
  | false => exact .inr ⟨queue, id, call, q, hpushes, hcall, hfinished, hqueue, hq, hroom⟩

end Push

/-! ## Walks -/

theorem locked_start (codec : Codec σ) (p : Preamble) (log : List Log.Entry)
    (order : Registry.Order) :
    (start codec p log order : Client σ ρ).Locked := by
  refine ⟨rfl, ?_, ?_⟩ <;> simp [start, Receiver.isInside]

theorem stocked_start (codec : Codec σ) (p : Preamble) (log : List Log.Entry)
    (order : Registry.Order) :
    (start codec p log order : Client σ ρ).board.Stocked := by
  refine ⟨?_, ?_⟩ <;> simp [start, call?]

section Walks

variable [ByteStream σ] {outside : σ → σ → Prop} {codec : Codec σ} {p : Preamble}
  {log : List Log.Entry} {order : Registry.Order} {steps : List (Taken σ ρ)} {c : Client σ ρ}

theorem Walk.holding (walk : Walk outside (Client.start codec p log order) steps c) : c.Holding :=
  (walk.induct (P := fun _ _ => True) (holding_start codec p log order) trivial
    (fun _ _ _ _ => trivial) fun _ _ => trivial).1

theorem Walk.locked (walk : Walk outside (Client.start codec p log order) steps c) : c.Locked :=
  (walk.induct (P := fun _ c => c.Locked) (holding_start codec p log order)
    (locked_start codec p log order)
    (fun _ _ h heffect => h.effect heffect)
    fun _ h => ⟨h.owners, h.holder, h.receiver⟩).2

theorem Walk.stocked (walk : Walk outside (Client.start codec p log order) steps c) :
    c.board.Stocked :=
  (walk.induct (P := fun _ c => c.board.Stocked) (holding_start codec p log order)
    (stocked_start codec p log order) (fun _ _ h heffect => heffect.traffic.stocked h)
    fun _ h => h).2

end Walks

end Client

end RemoteCalls
