import RemoteCalls.Client.Open
import RemoteCalls.Proofs.Client.Moves

/-!
# RemoteCalls.Proofs.Client.Walk

Runs of a client that remember their steps.

A `Run` records what happens to calls and messages.  A `Walk` is the same run with
the steps themselves on record, each with the client it was taken in, for what
depends on who has taken which step, or holds as long as some steps are not taken.

`effect_of_step` says once what each move does, like `change_of_step`; it also
covers numbers that have come round to one that is still in use, so that what is
proved from it holds however many calls have been made.
-/

namespace RemoteCalls.Client

open Board

variable {σ ρ : Type}

/-- What a move begins that makes a queue of its own for a call: the request, the room of that
queue, and whether the call is waited for. -/
def Move.alone? : Move ρ → Option (Request ρ × Nat × Bool)
  | .go r none => some (r, ownCapacity, false)
  | .call r => some (r, 1, true)
  | _ => none

variable [ByteStream σ]

/-! ## What a move does -/

/-- What a move does, whatever numbers the calls in flight have. -/
inductive Effect (c : Client σ ρ) : Move ρ → Client σ ρ → Prop where
  | queue (capacity : Nat) :
      Effect c (.queue capacity) { c with board := (c.board.addQueue capacity).1 }
  | alone {move : Move ρ} {r : Request ρ} {capacity : Nat} {waits : Bool}
      (halone : move.alone? = some (r, capacity, waits)) :
      Effect c move (beginSend { c with board := (c.board.addQueue capacity).1 } r
        c.board.queues.length waits).1
  | go {r : Request ρ} {queue : QueueId} {q : CompletionQueue}
      (hqueue : c.board.queue? queue = some q) :
      Effect c (.go r (some queue)) (c.beginSend r queue false).1
  | refuse {r : Request ρ} {queue : QueueId} {q : CompletionQueue}
      (hqueue : c.board.queue? queue = some q) (hzero : q.capacity = 0)
      (entries : List Log.Entry) : Effect c (.go r (some queue)) (c.note entries)
  | close (drops : Bool) : Effect c (.close drops) (c.beginClose drops).1
  | collect {queue : QueueId} {id : CallId} {b : Board ρ}
      (hpop : c.board.pop? queue = some (id, b)) : Effect c (.collect queue) { c with board := b }
  | send {t : TaskId} {id : CallId} {waits : Bool} {phase : SendPhase} {call : Call ρ}
      {events : List (Event ρ)} {c' : Client σ ρ}
      (htask : c.tasks[t]? = some (.send id waits phase)) (hcall : c.board.call? id = some call)
      (h : SendChange c t id call waits phase events c') : Effect c (.task t) c'
  | passOver {t : TaskId} {id other : CallId} {waits : Bool}
      (htask : c.tasks[t]? = some (.send id waits .registering)) (havail : c.isAvailable = true)
      (htaken : c.board.registry.find? c.board.registry.nextSeq = some other) :
      Effect c (.task t)
        (setTask { c with board := c.board.passedOver id } t (.send id waits .addressing))
  | closing {t : TaskId} {drops : Bool} {phase : ClosePhase} {c' : Client σ ρ}
      (htask : c.tasks[t]? = some (.close drops phase)) (h : CloseChange c t drops phase c') :
      Effect c (.task t) c'
  | receive {events : List (Event ρ)} {c' : Client σ ρ}
      (h : ReceiverChange c c.receiver events c') : Effect c .receive c'

/-- A thread that sends a request goes on as described, or its call is passed over. -/
theorem effect_of_stepSend {c c' : Client σ ρ} {t : TaskId} {id : CallId} {call : Call ρ}
    {waits : Bool} {phase : SendPhase} (htask : c.tasks[t]? = some (.send id waits phase))
    (hcall : c.board.call? id = some call)
    (h : c.stepSend t id call waits phase = .moved c') : Effect c (.task t) c' := by
  by_cases hphase : phase = .registering ∧ c.isAvailable = true
  · obtain ⟨rfl, havail⟩ := hphase
    cases hfind : c.board.registry.find? c.board.registry.nextSeq with
    | none => exact .send htask hcall (change_of_stepSend
        (fun _ havail => register_of_find?_eq_none hfind havail id) h)
    | some other =>
        simp only [stepSend, register_of_find?_eq_some hfind havail] at h
        obtain rfl := Turn.moved.inj h
        exact .passOver htask havail hfind
  · exact .send htask hcall (change_of_stepSend
      (fun hregistering havail => absurd ⟨hregistering, havail⟩ hphase) h)

/-- Every move does what is described. -/
theorem effect_of_step {c c' : Client σ ρ} (hreply : c.ReadsReply) {move : Move ρ}
    (h : c.step move = .moved c') : Effect c move c' := by
  cases move with
  | queue capacity =>
      obtain rfl := Turn.moved.inj h
      exact .queue capacity
  | go r queue =>
      cases queue with
      | none =>
          obtain rfl := Turn.moved.inj h
          exact .alone rfl
      | some queue =>
          simp only [step, Option.all_some] at h
          cases hqueue : c.board.queue? queue with
          | none => simp [hqueue] at h
          | some q =>
              by_cases hzero : q.capacity = 0
              · simp only [hqueue, Option.isSome_some, if_true, queueFor, Option.any_some, hzero,
                  decide_true, Turn.moved.injEq] at h
                subst h
                exact .refuse hqueue hzero _
              · simp only [hqueue, Option.isSome_some, if_true, queueFor, Option.any_some, hzero,
                  decide_false, Bool.false_eq_true, if_false, Turn.moved.injEq] at h
                subst h
                exact .go hqueue
  | call r =>
      obtain rfl := Turn.moved.inj h
      exact .alone rfl
  | close drops =>
      obtain rfl := Turn.moved.inj h
      exact .close drops
  | collect queue =>
      simp only [step] at h
      cases hpop : c.board.pop? queue with
      | none => simp [hpop] at h
      | some popped =>
          simp only [hpop, Turn.moved.injEq] at h
          subst h
          exact .collect hpop
  | task t =>
      simp only [step, stepTask] at h
      cases htask : c.tasks[t]? with
      | none => simp [htask] at h
      | some task =>
          cases task with
          | send id waits phase =>
              cases hcall : c.board.call? id with
              | none => simp [htask, hcall] at h
              | some call =>
                  simp only [htask, hcall] at h
                  exact effect_of_stepSend htask hcall h
          | close drops phase =>
              simp only [htask] at h
              exact .closing htask (change_of_stepClose h)
  | receive => exact .receive (change_of_stepReceiver hreply h)

/-! ## Walks -/

/-- A step that has been taken: the client before it, and the move. -/
structure Taken (σ ρ : Type) where
  before : Client σ ρ
  move : Move ρ

/-- What happened in a step. -/
def Taken.events (s : Taken σ ρ) : List (Event ρ) := s.before.observe s.move

/-- Moves and events of the outside in any order, from one client to another, with the moves on
record. -/
inductive Walk (outside : σ → σ → Prop) (c₀ : Client σ ρ) :
    List (Taken σ ρ) → Client σ ρ → Prop where
  | start : Walk outside c₀ [] c₀
  | step {steps : List (Taken σ ρ)} {c c' : Client σ ρ} (walk : Walk outside c₀ steps c)
      (move : Move ρ) (h : c.step move = .moved c') :
      Walk outside c₀ (steps ++ [⟨c, move⟩]) c'
  | outside {steps : List (Taken σ ρ)} {c : Client σ ρ} (walk : Walk outside c₀ steps c)
      (stream : σ) (h : outside c.codec.stream stream) :
      Walk outside c₀ steps (c.withStream stream)

section Walk

variable {outside : σ → σ → Prop} {c₀ c c' : Client σ ρ} {steps later : List (Taken σ ρ)}

/-- A walk is a run in which happens what happens in its steps. -/
theorem Walk.run (walk : Walk outside c₀ steps c) :
    Run outside c₀ (steps.flatMap Taken.events) c := by
  induction walk with
  | start => exact .start
  | step _ move h ih =>
      rw [List.flatMap_append, List.flatMap_singleton]
      exact ih.step move h
  | outside _ stream h ih => exact ih.outside stream h

/-- The steps of a run can be put on record. -/
theorem Run.exists_walk {events : List (Event ρ)} (run : Run outside c₀ events c) :
    ∃ steps, Walk outside c₀ steps c ∧ steps.flatMap Taken.events = events := by
  induction run with
  | start => exact ⟨[], .start, rfl⟩
  | @step _ before _ _ move h ih =>
      obtain ⟨steps, walk, rfl⟩ := ih
      refine ⟨steps ++ [⟨before, move⟩], walk.step move h, ?_⟩
      rw [List.flatMap_append, List.flatMap_singleton, Taken.events]
  | outside _ stream h ih =>
      obtain ⟨steps, walk, heq⟩ := ih
      exact ⟨steps, walk.outside stream h, heq⟩

theorem Walk.trans (walk : Walk outside c₀ steps c) (more : Walk outside c later c') :
    Walk outside c₀ (steps ++ later) c' := by
  induction more with
  | start => rwa [List.append_nil]
  | step _ move h ih =>
      rw [← List.append_assoc]
      exact ih.step move h
  | outside _ stream h ih => exact ih.outside stream h

/-- These moves, one after another, as steps on record, and the client after them, unless one of
them cannot be made. -/
def course (c : Client σ ρ) : List (Move ρ) → Option (List (Taken σ ρ) × Client σ ρ)
  | [] => some ([], c)
  | move :: moves =>
      match c.step move with
      | .moved c' => (course c' moves).map fun (steps, last) => (⟨c, move⟩ :: steps, last)
      | _ => none

theorem Walk.course {moves : List (Move ρ)} (walk : Walk outside c₀ steps c)
    (h : c.course moves = some (later, c')) : Walk outside c₀ (steps ++ later) c' := by
  induction moves generalizing c steps later with
  | nil =>
      simp only [Client.course, Option.some.injEq, Prod.mk.injEq] at h
      obtain ⟨rfl, rfl⟩ := h
      simpa using walk
  | cons move moves ih =>
      simp only [Client.course] at h
      cases hstep : c.step move with
      | moved next =>
          simp only [hstep, Option.map_eq_some_iff, Prod.mk.injEq] at h
          obtain ⟨⟨rest, last⟩, hrest, rfl, rfl⟩ := h
          rw [List.append_cons]
          exact ih (walk.step move hstep) hrest
      | _ => simp [hstep] at h

/-- Moves that can be made are a walk, with what can be checked of it. -/
theorem exists_walk_of_course (outside : σ → σ → Prop) {moves : List (Move ρ)}
    {check : List (Taken σ ρ) × Client σ ρ → Bool} (h : (c.course moves).any check = true) :
    ∃ later c', Walk outside c later c' ∧ check (later, c') = true := by
  obtain ⟨⟨later, c'⟩, hcourse, hcheck⟩ := Option.any_eq_true .. |>.mp h
  have walk : Walk outside c ([] ++ later) c' := Walk.start.course hcourse
  exact ⟨later, c', walk, hcheck⟩

/-- A move that can be made is a step, with what can be checked of it. -/
theorem exists_step_of_course {move : Move ρ} {check : List (Taken σ ρ) × Client σ ρ → Bool}
    (h : (c.course [move]).any check = true) :
    ∃ c', c.step move = .moved c' ∧ check ([⟨c, move⟩], c') = true := by
  cases hstep : c.step move with
  | moved c' =>
      simp only [course, hstep, Option.map_some, Option.any_some] at h
      exact ⟨c', rfl, h⟩
  | _ => simp [course, hstep] at h

end Walk

end RemoteCalls.Client
