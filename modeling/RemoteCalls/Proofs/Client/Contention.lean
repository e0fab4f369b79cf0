import Mathlib.Logic.Relation
import RemoteCalls.Proofs.Client.CutOff

/-!
# RemoteCalls.Proofs.Client.Contention

Who has to wait for whom in a client.

A thread keeps the send lock while it finishes a call that was turned away or could
not be sent, and so does the receiver while it gives calls up.  If the queue of such
a call is full, nobody can send a request until the application collects from that
queue; this is what it costs that no request is half sent at the end.  Whoever has
the lock without waiting for room gives it back by its own steps (`Walk.gives_back`,
`Walk.unlocks`), and a thread that finds the lock free goes on to its return if its
own queue has room: the only call it ever finishes is its own (`Clear`).

All this is so as long as writes return.  When a connection does not take octets
yet is up to a predicate `stalled` on octets and connections, which may be any; a
thread that comes to such a write (`Client.Stalls`) goes no further by itself.
-/

namespace RemoteCalls

/-- How many steps a thread past the send lock takes at most until it has given it back. -/
def SendPhase.rank : SendPhase → Nat
  | .registering => 6
  | .addressing => 5
  | .writing => 4
  | .withdrawing _ => 3
  | .finishing _ => 2
  | .leaving => 1
  | _ => 0

/-- Where a thread stands that has just given the send lock back. -/
def SendPhase.released (waits : Bool) : SendPhase := if waits then .collecting else .returned none

/-- The move in which whoever holds the send lock goes on. -/
def Holder.move {ρ : Type} : Holder → Client.Move ρ
  | .task t => .task t
  | .receiver => .receive

/-- A receiver that has the send lock has stopped reading. -/
theorem Receiver.exists_endsWith {place : Receiver} (hinside : place.isInside = true) :
    ∃ f, place.EndsWith f := by
  cases place with
  | taking f => exact ⟨f, rfl⟩
  | terminating f ids => exact ⟨f, rfl⟩
  | unlocking => exact ⟨.connectionClosed, trivial⟩
  | _ => contradiction

/-- The queue of a call has room. -/
def Board.HasRoomFor {ρ : Type} (b : Board ρ) (id : CallId) : Prop :=
  ∃ call queue q, b.call? id = some call ∧ call.queue = some queue ∧ b.queue? queue = some q ∧
    q.hasRoom = true

instance {ρ : Type} (b : Board ρ) (id : CallId) : Decidable (b.HasRoomFor id) :=
  decidable_of_iff ((b.call? id).any fun call => call.queue.any fun queue =>
      (b.queue? queue).any (·.hasRoom))
    (by simp [Board.HasRoomFor, Option.any_eq_true])

theorem Board.HasRoomFor.congr {ρ : Type} {b b' : Board ρ} {id : CallId} (h : b.HasRoomFor id)
    (hcalls : b'.calls.map Call.standing = b.calls.map Call.standing)
    (hqueues : b'.queues = b.queues) : b'.HasRoomFor id := by
  obtain ⟨call, queue, q, hcall, hqueue, hq, hroom⟩ := h
  obtain ⟨after, hafter, hsame, -⟩ := call?_of_standing hcalls.symm hcall
  refine ⟨after, queue, q, hafter, hsame.trans hqueue, ?_, hroom⟩
  rw [queue?, hqueues]
  exact hq

namespace Client

open Board

variable {σ ρ : Type} [ByteStream σ]

/-! ## Writes that have to wait -/

omit [ByteStream σ] in
/-- The octets of the request that a thread is about to write, if it can be put into frames. -/
def writes? (c : Client σ ρ) : Move ρ → Option Bytes
  | .task t =>
      match c.tasks[t]? with
      | some (.send id _ .writing) => (c.board.call? id).bind fun call =>
          (Codec.encodeMessage c.codec.limit c.header call.args).2.toOption
      | _ => none
  | _ => none

/-- A thread is about to write a request that its connection does not take yet.  `stalled` says what
a connection does not take, and in which state. -/
def Stalls (stalled : Bytes → σ → Prop) (c : Client σ ρ) (move : Move ρ) : Prop :=
  ∃ octets, c.writes? move = some octets ∧ stalled octets c.codec.stream

/-- From one client to another by the same move again and again, without a write that has to
wait. -/
def Proceeds (stalled : Bytes → σ → Prop) (move : Move ρ) : Client σ ρ → Client σ ρ → Prop :=
  Relation.ReflTransGen fun c c' => ¬ c.Stalls stalled move ∧ c.step move = .moved c'

section Proceeds

variable {outside : σ → σ → Prop} {stalled : Bytes → σ → Prop} {c₀ c c' : Client σ ρ}
  {steps : List (Taken σ ρ)} {move : Move ρ} {t : TaskId} {id : CallId} {waits : Bool}
  {phase : SendPhase}

/-- A move that comes closer to a goal each time it is made gets there, unless it comes to a write
that has to wait. -/
theorem Proceeds.reach {goal : Client σ ρ → Prop} (near : Nat → Client σ ρ → Prop)
    (hcloser : ∀ n c, near n c → goal c ∨
      ∃ c', c.step move = .moved c' ∧ (goal c' ∨ ∃ m < n, near m c'))
    (n : Nat) (h : near n c) :
    ∃ c', Proceeds stalled move c c' ∧ (goal c' ∨ c'.Stalls stalled move) := by
  induction n using Nat.strongRecOn generalizing c with
  | ind n ih =>
      by_cases hstalls : c.Stalls stalled move
      · exact ⟨c, .refl, .inr hstalls⟩
      · obtain hthere | ⟨c', hstep, hthere | ⟨m, hless, hnear⟩⟩ := hcloser n c h
        · exact ⟨c, .refl, .inl hthere⟩
        · exact ⟨c', .single ⟨hstalls, hstep⟩, .inl hthere⟩
        · obtain ⟨c'', hrepeats, hend⟩ := ih m hless hnear
          exact ⟨c'', .head ⟨hstalls, hstep⟩ hrepeats, hend⟩

theorem Proceeds.walk (h : Proceeds stalled move c c') (walk : Walk outside c₀ steps c) :
    ∃ steps, Walk outside c₀ steps c' := by
  induction h with
  | refl => exact ⟨steps, walk⟩
  | tail _ hstep ih =>
      obtain ⟨steps, walk⟩ := ih
      exact ⟨_, walk.step move hstep.2⟩

omit [ByteStream σ]

/-- Only a thread that has come to its write can stall. -/
theorem Stalls.exists_task (h : c.Stalls stalled move) :
    ∃ t id waits, move = .task t ∧ c.tasks[t]? = some (.send id waits .writing) := by
  obtain ⟨octets, hwrites, -⟩ := h
  unfold writes? at hwrites
  split at hwrites
  · split at hwrites
    case h_1 t _ id waits htask => exact ⟨t, id, waits, rfl, htask⟩
    case h_2 => contradiction
  · contradiction

theorem not_stalls_receive : ¬ c.Stalls stalled .receive := fun h => by
  obtain ⟨t, id, waits, hmove, -⟩ := h.exists_task
  contradiction

/-- A thread that stands elsewhere does not stall. -/
theorem not_stalls_of_task (htask : c.tasks[t]? = some (.send id waits phase))
    (hphase : phase ≠ .writing) : ¬ c.Stalls stalled (.task t) := fun h => by
  obtain ⟨_, id', waits', hmove, hmine⟩ := h.exists_task
  obtain rfl := Move.task.inj hmove
  obtain ⟨-, -, rfl⟩ := Task.send.inj (Option.some.inj (htask.symm.trans hmine))
  exact hphase rfl

/-- A thread that stalls has the send lock. -/
theorem Stalls.lock_eq (h : c.Stalls stalled (.task t)) (hlocked : c.Locked) :
    c.lock = some (.task t) := by
  obtain ⟨_, id, waits, hmove, htask⟩ := h.exists_task
  obtain rfl := Move.task.inj hmove
  exact hlocked.lock_eq htask rfl

end Proceeds

/-! ## Who waits for room -/

section Waits

variable {c c' : Client σ ρ} {move other : Move ρ} {queue : QueueId} {id : CallId} {t : TaskId}

omit [ByteStream σ]

theorem pushes?_task : c.pushes? (.task t) = some id ↔
    ∃ own waits, c.tasks[t]? = some (.send own waits (.finishing id)) := by
  simp only [pushes?]
  constructor
  · intro h
    split at h
    case h_1 own waits other htask =>
      obtain rfl := Option.some.inj h
      exact ⟨own, waits, htask⟩
    case h_2 => contradiction
  · rintro ⟨own, waits, htask⟩
    rw [htask]

theorem pushes?_receive : c.pushes? .receive = some id ↔
    (∃ fault, c.receiver = .finishing id fault) ∨
      ∃ f ids, c.receiver = .terminating f (id :: ids) := by
  simp only [pushes?, finishing?]
  constructor
  · intro h
    split at h
    case h_1 other fault hat =>
      obtain rfl := Option.some.inj h
      exact .inl ⟨fault, hat⟩
    case h_2 f other ids hat =>
      obtain rfl := Option.some.inj h
      exact .inr ⟨f, ids, hat⟩
    case h_3 => contradiction
  · rintro (⟨fault, hat⟩ | ⟨f, ids, hat⟩) <;> rw [hat]

/-- Whoever delivers a call does not collect one. -/
theorem collectsFrom?_of_pushes (h : c.pushes? move = some id) : c.collectsFrom? move = none := by
  cases move with
  | task t =>
      obtain ⟨own, waits, htask⟩ := pushes?_task.mp h
      simp only [collectsFrom?, htask]
  | receive => rfl
  | _ => contradiction

/-- A call that is being delivered is out of reach for everyone else. -/
theorem Holding.not_mem_reach_of_pushes (h : c.Holding) (hpushes : c.pushes? other = some id)
    (hmove : move ≠ other) : id ∉ c.reach move := by
  cases other with
  | task t =>
      obtain ⟨own, waits, htask⟩ := pushes?_task.mp hpushes
      exact h.not_mem_reach_of_task htask rfl hmove
  | receive =>
      refine h.not_mem_reach_of_receiver ?_ hmove
      obtain ⟨fault, hat⟩ | ⟨f, ids, hat⟩ := pushes?_receive.mp hpushes
      · simp [hat, Receiver.held]
      · simp [hat, Receiver.held]
  | _ => contradiction

/-- A thread that waits for room has the send lock. -/
theorem WaitsForRoom.lock_eq (h : c.WaitsForRoom (.task t) queue) (hlocked : c.Locked) :
    c.lock = some (.task t) := by
  obtain ⟨id, call, q, hpushes, -⟩ := h
  obtain ⟨own, waits, htask⟩ := pushes?_task.mp hpushes
  exact hlocked.lock_eq htask rfl

/-- A receiver that waits for room has the send lock if it gives calls up. -/
theorem WaitsForRoom.lock_eq_receiver_iff (h : c.WaitsForRoom .receive queue)
    (hlocked : c.Locked) :
    c.lock = some .receiver ↔ ∃ f ids, c.receiver = .terminating f ids := by
  obtain ⟨id, call, q, hpushes, -⟩ := h
  rw [hlocked.receiver]
  obtain ⟨fault, hat⟩ | ⟨f, ids, hat⟩ := pushes?_receive.mp hpushes
  · simp [hat, Receiver.isInside]
  · simp [hat, Receiver.isInside]

/-- A full queue stays as it is until somebody collects from it. -/
theorem Traffic.queue?_of_full {b' : Board ρ} {q : CompletionQueue}
    (h : Traffic c move b') (hfrom : c.collectsFrom? move ≠ some queue)
    (hq : c.board.queue? queue = some q) (hfull : q.hasRoom = false) :
    b'.queue? queue = some q := by
  have hlt := (List.getElem?_eq_some_iff.mp hq).1
  cases h with
  | still _ hqueues =>
      rw [queue?, hqueues]
      exact hq
  | queue hboard => exact hboard ▸ (List.getElem?_append_left hlt).trans hq
  | alone _ hboard => exact hboard ▸ (List.getElem?_append_left hlt).trans hq
  | go _ _ hboard => exact hboard ▸ hq
  | collect hcollects hpop =>
      obtain ⟨q', items, -, -, rfl⟩ := pop?_front hpop
      have hne : _ ≠ queue := fun heq => hfrom (hcollects.trans (congrArg some heq))
      exact (List.getElem?_set_ne hne).trans hq
  | deliver _ _ hqueues hfinish =>
      obtain ⟨call, mine, q', -, -, -, hmine, hroom, rfl⟩ := finish_delivered hfinish
      rw [queue?, hqueues] at hmine
      have hne : mine ≠ queue := by
        rintro rfl
        rw [Option.some.inj (hmine.symm.trans hq), hfull] at hroom
        contradiction
      rw [queue?, delivered, List.getElem?_set_ne hne, hqueues]
      exact hq

end Waits

section Waiting

variable {outside : σ → σ → Prop} {codec : Codec σ} {p : Preamble} {log : List Log.Entry}
  {order : Registry.Order} {steps later : List (Taken σ ρ)} {c c' : Client σ ρ}
  {move other : Move ρ} {queue : QueueId} {id : CallId} {t : TaskId} {holder : Holder}

/-- A call that is being delivered is so until whoever delivers it goes on. -/
theorem Effect.pushes?_eq (h : Effect c move c') (hpushes : c.pushes? other = some id)
    (hmove : move ≠ other) : c'.pushes? other = some id := by
  cases other with
  | task t =>
      obtain ⟨own, waits, htask⟩ := pushes?_task.mp hpushes
      have hlt := (List.getElem?_eq_some_iff.mp htask).1
      exact pushes?_task.mpr ⟨own, waits, (h.task_eq hmove hlt).trans htask⟩
  | receive => rwa [pushes?, finishing?, h.receiver_eq hmove]
  | _ => contradiction

/-- Nobody else gets the send lock while somebody has it. -/
theorem Effect.lock_eq (h : Effect c move c') (hlocked : c.Locked) (hlock : c.lock = some holder)
    (hmove : move ≠ holder.move) : c'.lock = some holder := by
  cases h with
  | @send t own waits phase call events _ htask _ h =>
      have hmine (hinside : (Task.send own waits phase).isInside = true) : False := by
        have heq := (hlocked.lock_eq htask hinside).symm.trans hlock
        rw [← Option.some.inj heq] at hmove
        exact hmove rfl
      cases h with
      | enter hnone =>
          rw [hlock] at hnone
          contradiction
      | leave => exact (hmine rfl).elim
      | _ => exact hlock
  | closing _ h => cases h <;> exact hlock
  | receive h =>
      generalize hat : c.receiver = place at h
      cases h with
      | lock hnone =>
          rw [hlock] at hnone
          contradiction
      | unlock =>
          have hmine := hlocked.receiver.mpr (by rw [hat]; rfl)
          rw [← Option.some.inj (hmine.symm.trans hlock)] at hmove
          exact absurd rfl hmove
      | _ => exact hlock
  | _ => exact hlock

/-- Whoever waits for room waits until somebody collects from the queue. -/
theorem WaitsForRoom.effect (h : c.WaitsForRoom other queue) (hholding : c.Holding)
    (heffect : Effect c move c') (hmove : move ≠ other)
    (hfrom : c.collectsFrom? move ≠ some queue) : c'.WaitsForRoom other queue := by
  obtain ⟨id, call, q, hpushes, hcall, hfinished, hqueue, hq, hfull⟩ := h
  have hlt := (List.getElem?_eq_some_iff.mp hcall).1
  have hsame := heffect.call?_eq (hholding.not_mem_reach_of_pushes hpushes hmove) hlt
  exact ⟨id, call, q, heffect.pushes?_eq hpushes hmove, hsame.trans hcall, hfinished, hqueue,
    heffect.traffic.queue?_of_full hfrom hq hfull, hfull⟩

/-- A thread that is about to send waits for the send lock. -/
theorem blocked_of_lock {waits : Bool} (hlock : c.lock = some holder)
    (htask : c.tasks[t]? = some (.send id waits .entering)) : c.step (.task t) = .blocked := by
  simp only [step, stepTask, htask]
  cases c.board.call? id with
  | none => rfl
  | some call => simp only [stepSend, hlock]

/-- **Whoever waits for room with the send lock keeps both**, and all others that are about to send
wait, as long as nobody collects from the queue. -/
theorem Walk.still_waits (walk : Walk outside (Client.start codec p log order) steps c)
    (more : Walk outside c later c') (hlock : c.lock = some holder)
    (h : c.WaitsForRoom holder.move queue)
    (hfrom : ∀ s ∈ later, s.before.collectsFrom? s.move ≠ some queue) :
    c'.lock = some holder ∧ c'.WaitsForRoom holder.move queue ∧
      ∀ (t : TaskId) id waits, c.tasks[t]? = some (.send id waits .entering) →
        c'.tasks[t]? = some (.send id waits .entering) := by
  induction more with
  | start => exact ⟨hlock, h, fun _ _ _ htask => htask⟩
  | outside _ stream _ ih => exact ih hfrom
  | @step later c c' more move hstep ih =>
      obtain ⟨hlock, hwaits, hothers⟩ := ih fun s hs => hfrom s (List.mem_append_left _ hs)
      have walk := walk.trans more
      have heffect := effect_of_step walk.holding.readsReply hstep
      have hmoved {other : Move ρ} (hblocked : c.step other = .blocked) : move ≠ other := by
        rintro rfl
        rw [hblocked] at hstep
        contradiction
      have hmove := hmoved (hwaits.blocked walk.locked)
      refine ⟨heffect.lock_eq walk.locked hlock hmove,
        hwaits.effect walk.holding heffect hmove (hfrom ⟨c, move⟩ (by simp)),
        fun t id waits hbefore => ?_⟩
      have htask := hothers t id waits hbefore
      have hlt := (List.getElem?_eq_some_iff.mp htask).1
      exact (heffect.task_eq (hmoved (blocked_of_lock hlock htask)) hlt).trans htask

/-- A call that is collected stood in the queue it is collected from. -/
theorem Effect.of_collectsFrom? (h : Effect c move c') (hfrom : c.collectsFrom? move = some queue) :
    ∃ id, c.board.pop? queue = some (id, c'.board) := by
  cases move with
  | collect mine =>
      obtain rfl := Option.some.inj hfrom
      cases h with
      | alone halone => simp [Move.alone?] at halone
      | collect hpop => exact ⟨_, hpop⟩
  | task t =>
      simp only [collectsFrom?] at hfrom
      split at hfrom
      case h_1 own waits htask =>
        obtain ⟨call, events, hcall, hchange⟩ | ⟨hphase, -⟩ := h.of_send htask
        · cases hchange with
          | @collect mine other b hqueue hpop =>
              rw [hcall, Option.bind_some, hqueue] at hfrom
              obtain rfl := Option.some.inj hfrom
              exact ⟨other, hpop⟩
        · contradiction
      case h_2 => contradiction
  | _ => contradiction

/-- **Whoever waits for room goes on as soon as somebody has collected from the queue.** -/
theorem Walk.relieved (walk : Walk outside (Client.start codec p log order) steps c)
    (h : c.WaitsForRoom other queue) (hfrom : c.collectsFrom? move = some queue)
    (hstep : c.step move = .moved c') : ∃ c'', c'.step other = .moved c'' := by
  obtain ⟨id, call, q, hpushes, hcall, hfinished, hqueue, hq, -⟩ := h
  have heffect := effect_of_step walk.holding.readsReply hstep
  have hmove : move ≠ other := by
    rintro rfl
    rw [collectsFrom?_of_pushes hpushes] at hfrom
    contradiction
  obtain ⟨front, hpop⟩ := heffect.of_collectsFrom? hfrom
  obtain ⟨q', items, hq', hitems, hboard⟩ := pop?_front hpop
  obtain rfl := Option.some.inj (hq.symm.trans hq')
  have hsize := walk.stocked.sized q (List.mem_of_getElem? hq)
  have hroom : ({ q with items } : CompletionQueue).hasRoom = true := by
    rw [CompletionQueue.size, hitems, List.length_cons] at hsize
    rw [CompletionQueue.hasRoom, decide_eq_true_eq]
    exact hsize
  refine (walk.locked.effect heffect).step_of_hasRoom (heffect.pushes?_eq hpushes hmove)
    (hboard ▸ hcall) hfinished hqueue ?_ hroom
  rw [hboard]
  exact List.getElem?_set_self (List.getElem?_eq_some_iff.mp hq).1

end Waiting

/-! ## Giving the send lock back -/

section Holder

variable {outside : σ → σ → Prop} {stalled : Bytes → σ → Prop} {codec : Codec σ} {p : Preamble}
  {log : List Log.Entry} {order : Registry.Order} {steps : List (Taken σ ρ)} {c c' : Client σ ρ}
  {id : CallId} {t : TaskId} {waits : Bool} {phase : SendPhase}

/-- A thread past the send lock gives it back, or comes closer to that. -/
theorem SendChange.rank_lt {call : Call ρ} {events : List (Event ρ)}
    (h : SendChange c t id call waits phase events c') (hlt : t < c.tasks.length)
    (hinside : (Task.send id waits phase).isInside = true) :
    (c'.lock = none ∧ c'.tasks[t]? = some (.send id waits (SendPhase.released waits))) ∨
      ∃ next, c'.tasks[t]? = some (.send id waits next) ∧
        (Task.send id waits next).isInside = true ∧ next.rank < phase.rank := by
  cases h with
  | enter => contradiction
  | leave => exact .inl ⟨rfl, List.getElem?_set_self hlt⟩
  | collect => contradiction
  | _ => exact .inr ⟨_, List.getElem?_set_self hlt, rfl, by simp [SendPhase.rank]⟩

/-- A thread past the send lock goes on, or has to wait for room. -/
theorem Walk.inside_moves (walk : Walk outside (Client.start codec p log order) steps c)
    (htask : c.tasks[t]? = some (.send id waits phase))
    (hinside : (Task.send id waits phase).isInside = true) :
    (∃ c', c.step (.task t) = .moved c') ∨ ∃ queue, c.WaitsForRoom (.task t) queue := by
  obtain ⟨call, hcall⟩ := walk.locked.exists_call htask
  have hmoves (h : ∃ c', c.stepSend t id call waits phase = .moved c') :
      ∃ c', c.step (.task t) = .moved c' := by
    obtain ⟨c', hsend⟩ := h
    exact ⟨c', by simp only [Client.step, stepTask, htask, hcall, hsend]⟩
  cases phase with
  | registering | writing | withdrawing =>
      refine .inl (hmoves ?_)
      simp only [stepSend]
      split
      · exact ⟨_, rfl⟩
      · exact ⟨_, rfl⟩
  | addressing | leaving => exact .inl (hmoves ⟨_, rfl⟩)
  | finishing other =>
      exact walk.holding.moves_or_waits walk.locked walk.stocked
        (pushes?_task.mpr ⟨id, waits, htask⟩)
  | _ => contradiction

/-- **A thread that has the send lock gives it back by its own steps**, unless it comes to wait
for room, or for its write. -/
theorem Walk.gives_back (stalled : Bytes → σ → Prop)
    (walk : Walk outside (Client.start codec p log order) steps c)
    (htask : c.tasks[t]? = some (.send id waits phase))
    (hinside : (Task.send id waits phase).isInside = true) :
    ∃ c', Proceeds stalled (.task t) c c' ∧
      (((c'.lock = none ∧ c'.tasks[t]? = some (.send id waits (SendPhase.released waits))) ∨
        ∃ queue, c'.WaitsForRoom (.task t) queue) ∨ c'.Stalls stalled (.task t)) := by
  refine Proceeds.reach (fun n c => ∃ steps phase,
    Walk outside (Client.start codec p log order) steps c ∧
    c.tasks[t]? = some (.send id waits phase) ∧ (Task.send id waits phase).isInside = true ∧
    phase.rank = n) ?_ phase.rank ⟨steps, phase, walk, htask, hinside, rfl⟩
  rintro _ c ⟨steps, phase, walk, htask, hinside, rfl⟩
  obtain ⟨c₁, hstep⟩ | hwaits := walk.inside_moves htask hinside
  · have hlt := (List.getElem?_eq_some_iff.mp htask).1
    have hnext : (c₁.lock = none ∧
        c₁.tasks[t]? = some (.send id waits (SendPhase.released waits))) ∨
        ∃ next, c₁.tasks[t]? = some (.send id waits next) ∧
          (Task.send id waits next).isInside = true ∧ next.rank < phase.rank := by
      obtain ⟨call, events, -, hchange⟩ | ⟨rfl, -, -, rfl⟩ :=
        (effect_of_step walk.holding.readsReply hstep).of_send htask
      · exact hchange.rank_lt hlt hinside
      · exact .inr ⟨_, List.getElem?_set_self hlt, rfl, by simp [SendPhase.rank]⟩
    obtain hdone | ⟨next, htask₁, hinside₁, hless⟩ := hnext
    · exact .inr ⟨c₁, hstep, .inl (.inl hdone)⟩
    · exact .inr ⟨c₁, hstep, .inr ⟨_, hless, _, next, walk.step _ hstep, htask₁, hinside₁, rfl⟩⟩
  · exact .inl (.inr hwaits)

/-- A receiver that has the send lock keeps it until it gives it back at the end. -/
theorem ReceiverChange.unlocks {place : Receiver} {events : List (Event ρ)}
    (h : ReceiverChange c place events c') (hinside : place.isInside = true) :
    c'.lock = none ∨ c'.receiver.isInside = true := by
  cases h with
  | take => exact .inr rfl
  | terminate => exact .inr rfl
  | terminated => exact .inr rfl
  | unlock => exact .inl rfl
  | _ => contradiction

/-- **A receiver that has the send lock gives it back by its own steps**, unless it comes to wait
for room. -/
theorem Walk.unlocks (stalled : Bytes → σ → Prop)
    (walk : Walk outside (Client.start codec p log order) steps c)
    (hinside : c.receiver.isInside = true) :
    ∃ c', Proceeds stalled .receive c c' ∧
      ((c'.lock = none ∨ ∃ queue, c'.WaitsForRoom .receive queue) ∨
        c'.Stalls stalled .receive) := by
  refine Proceeds.reach (fun n c => ∃ steps, Walk outside (Client.start codec p log order) steps c ∧
    c.receiver.isInside = true ∧ c.receiver.stepsLeft c.pendingCount 0 = n) ?_ _
    ⟨steps, walk, hinside, rfl⟩
  rintro _ c ⟨steps, walk, hinside, rfl⟩
  obtain ⟨f, hends⟩ := Receiver.exists_endsWith hinside
  have hne : c.receiver ≠ .exited := by
    intro hexited
    rw [hexited] at hinside
    contradiction
  obtain ⟨c₁, hstep, hless⟩ | ⟨hat, -⟩ | hwaits :=
    walk.holding.ends_or_waits walk.locked walk.stocked hends hne
  · obtain ⟨events, hchange⟩ := (effect_of_step walk.holding.readsReply hstep).of_receive
    obtain hnone | hinside₁ := hchange.unlocks hinside
    · exact .inr ⟨c₁, hstep, .inl (.inl hnone)⟩
    · exact .inr ⟨c₁, hstep, .inr ⟨_, hless, _, walk.step _ hstep, hinside₁, rfl⟩⟩
  · rw [hat] at hinside
    contradiction
  · exact .inl (.inr hwaits)

end Holder

/-! ## Going on to the return -/

/-- What a thread past the send lock finds, if the number of its call was free and its queue has
room: the only call that it ever has to finish is its own. -/
inductive Clear (c : Client σ ρ) (id : CallId) : SendPhase → Prop where
  | registering (hroom : c.board.HasRoomFor id)
      (hfree : c.board.registry.find? c.board.registry.nextSeq = none) : Clear c id .registering
  | addressing {call : Call ρ} (hroom : c.board.HasRoomFor id)
      (hcall : c.board.call? id = some call)
      (hfind : c.board.registry.find? call.seq = some id) : Clear c id .addressing
  | writing (hroom : c.board.HasRoomFor id)
      (hfind : c.board.registry.find? c.header.seq = some id) : Clear c id .writing
  | withdrawing {f : Fault} (hroom : c.board.HasRoomFor id)
      (hfind : c.board.registry.find? c.header.seq = some id) : Clear c id (.withdrawing f)
  | finishing (hroom : c.board.HasRoomFor id) : Clear c id (.finishing id)
  | leaving : Clear c id .leaving
  | collecting : Clear c id .collecting
  | returned {collected : Option CallId} : Clear c id (.returned collected)

section Clear

variable {outside : σ → σ → Prop} {stalled : Bytes → σ → Prop} {codec : Codec σ} {p : Preamble}
  {log : List Log.Entry} {order : Registry.Order} {steps : List (Taken σ ρ)} {c c' : Client σ ρ}
  {id : CallId} {t : TaskId} {waits : Bool} {phase : SendPhase}

theorem Clear.turn (h : Clear c id phase) (heffect : Effect c (.task t) c')
    (htask : c.tasks[t]? = some (.send id waits phase)) :
    ∃ next, c'.tasks[t]? = some (.send id waits next) ∧ Clear c' id next := by
  have hlt := (List.getElem?_eq_some_iff.mp htask).1
  obtain ⟨call, events, hcall, hchange⟩ | ⟨rfl, havail, htaken, rfl⟩ := heffect.of_send htask
  · cases h with
    | registering hroom hfree =>
        cases hchange with
        | register =>
            have hmine : (c.board.registered id).call? id =
                some { call with seq := c.board.registry.nextSeq } := by
              rw [call?_registered, if_pos rfl, hcall, Option.map_some]
            exact ⟨_, List.getElem?_set_self hlt, .addressing
              (hroom.congr (standing_registered ..) rfl) hmine (Registry.find?_filed_self hfree id)⟩
        | refuse =>
            exact ⟨_, List.getElem?_set_self hlt,
              .finishing (hroom.congr (standing_setError ..) rfl)⟩
    | addressing hroom hmine hfind =>
        cases hchange
        obtain rfl := Option.some.inj (hcall.symm.trans hmine)
        exact ⟨_, List.getElem?_set_self hlt, .writing hroom hfind⟩
    | writing hroom hfind =>
        cases hchange with
        | write => exact ⟨_, List.getElem?_set_self hlt, .leaving⟩
        | fail => exact ⟨_, List.getElem?_set_self hlt, .withdrawing hroom hfind⟩
    | withdrawing hroom hfind =>
        cases hchange with
        | withdraw hother =>
            obtain rfl := Option.some.inj (hfind.symm.trans hother)
            exact ⟨_, List.getElem?_set_self hlt,
              .finishing (hroom.congr (standing_setError ..) rfl)⟩
        | answered hnone => exact ⟨_, List.getElem?_set_self hlt, .leaving⟩
    | finishing hroom =>
        cases hchange
        exact ⟨_, List.getElem?_set_self hlt, .leaving⟩
    | leaving =>
        cases hchange
        refine ⟨_, List.getElem?_set_self hlt, ?_⟩
        cases waits
        · exact .returned
        · exact .collecting
    | collecting =>
        cases hchange
        exact ⟨_, List.getElem?_set_self hlt, .returned⟩
    | returned => contradiction
  · cases h with
    | registering _ hfree =>
        rw [hfree] at htaken
        contradiction

omit [ByteStream σ] in
/-- A thread that does not have to finish any call but its own, and whose own queue has room, does
not wait for room. -/
theorem Clear.not_waits (h : Clear c id phase) (htask : c.tasks[t]? = some (.send id waits phase))
    (queue : QueueId) : ¬ c.WaitsForRoom (.task t) queue := by
  rintro ⟨other, call, q, hpushes, hcall, -, hqueue, hq, hfull⟩
  obtain ⟨own, waits', hmine⟩ := pushes?_task.mp hpushes
  obtain ⟨rfl, rfl, rfl⟩ := Task.send.inj (Option.some.inj (htask.symm.trans hmine))
  cases h with
  | finishing hroom =>
      obtain ⟨call', queue', q', hcall', hqueue', hq', hroom⟩ := hroom
      obtain rfl := Option.some.inj (hcall.symm.trans hcall')
      obtain rfl := Option.some.inj (hqueue.symm.trans hqueue')
      rw [Option.some.inj (hq'.symm.trans hq), hfull] at hroom
      contradiction

theorem Clear.repeats (h : Clear c id phase)
    (walk : Walk outside (Client.start codec p log order) steps c)
    (htask : c.tasks[t]? = some (.send id waits phase))
    (hrepeats : Proceeds stalled (.task t) c c') :
    ∃ next, c'.tasks[t]? = some (.send id waits next) ∧ Clear c' id next := by
  induction hrepeats with
  | refl => exact ⟨phase, htask, h⟩
  | tail hbefore hstep ih =>
      obtain ⟨next, htask, h⟩ := ih
      obtain ⟨steps, walk⟩ := Proceeds.walk hbefore walk
      exact h.turn (effect_of_step walk.holding.readsReply hstep.2) htask

/-- A thread that has come out of the send lock has returned, or goes on to its return as soon as
there is a call to collect. -/
theorem Walk.released (stalled : Bytes → σ → Prop)
    (walk : Walk outside (Client.start codec p log order) steps c) (hlock : c.lock = none)
    (htask : c.tasks[t]? = some (.send id waits (SendPhase.released waits))) :
    ∃ c' next, Proceeds stalled (.task t) c c' ∧ c'.lock = none ∧
      c'.tasks[t]? = some (.send id waits next) ∧
      ((∃ collected, next = .returned collected) ∨
        (waits = true ∧ next = .collecting ∧ c'.step (.task t) = .blocked)) := by
  cases waits with
  | false => exact ⟨c, _, .refl, hlock, htask, .inl ⟨none, rfl⟩⟩
  | true =>
      have hlt := (List.getElem?_eq_some_iff.mp htask).1
      obtain ⟨call, hcall⟩ := walk.locked.exists_call htask
      have hstep : c.step (.task t) = c.stepSend t id call true .collecting := by
        simp only [Client.step, stepTask, htask, hcall, SendPhase.released, if_true]
      cases hpop : call.queue.bind c.board.pop? with
      | none =>
          refine ⟨c, _, .refl, hlock, htask, .inr ⟨rfl, rfl, ?_⟩⟩
          simp only [hstep, stepSend, hpop]
      | some popped =>
          have hcollect : c.step (.task t) = .moved (setTask { c with board := popped.2 } t
              (.send id true (.returned (some popped.1)))) := by
            simp only [hstep, stepSend, hpop]
          exact ⟨_, _, .single ⟨not_stalls_of_task htask (by simp [SendPhase.released]), hcollect⟩,
            hlock, List.getElem?_set_self hlt, .inl ⟨_, rfl⟩⟩

/-- **A thread that finds the send lock free goes on to its return by its own steps**, if its own
queue has room and its write does not have to wait: at most it has to wait for its call to finish.
Only if the next number is still in use by a call in flight may it have to wait for room in the
queue of that call. -/
theorem Walk.sends (stalled : Bytes → σ → Prop)
    (walk : Walk outside (Client.start codec p log order) steps c) (hlock : c.lock = none)
    (htask : c.tasks[t]? = some (.send id waits .entering)) (hroom : c.board.HasRoomFor id) :
    ∃ c', Proceeds stalled (.task t) c c' ∧
      ((∃ next, c'.lock = none ∧ c'.tasks[t]? = some (.send id waits next) ∧
        ((∃ collected, next = .returned collected) ∨
          (waits = true ∧ next = .collecting ∧ c'.step (.task t) = .blocked))) ∨
      ((c.board.registry.find? c.board.registry.nextSeq).isSome = true ∧
        ∃ queue, c'.WaitsForRoom (.task t) queue) ∨
      c'.Stalls stalled (.task t)) := by
  have hlt := (List.getElem?_eq_some_iff.mp htask).1
  obtain ⟨call, hcall⟩ := walk.locked.exists_call htask
  have hstep : c.step (.task t) = .moved (setTask { c with lock := some (.task t) } t
      (.send id waits .registering)) := by
    simp only [Client.step, stepTask, htask, hcall, stepSend, hlock]
  have hnow : ¬ c.Stalls stalled (.task t) := not_stalls_of_task htask (by simp)
  have walk₁ := walk.step _ hstep
  have htask₁ : (c.tasks.set t (.send id waits .registering))[t]? =
      some (.send id waits .registering) := List.getElem?_set_self hlt
  obtain ⟨c₂, hrepeats, (⟨hlock₂, htask₂⟩ | hwaits) | hstalls⟩ :=
    walk₁.gives_back stalled htask₁ rfl
  · obtain ⟨steps₂, walk₂⟩ := hrepeats.walk walk₁
    obtain ⟨c₃, next, hmore, hdone⟩ := walk₂.released stalled hlock₂ htask₂
    exact ⟨c₃, .head ⟨hnow, hstep⟩ (hrepeats.trans hmore), .inl ⟨next, hdone⟩⟩
  · refine ⟨c₂, .head ⟨hnow, hstep⟩ hrepeats, .inr (.inl ⟨?_, hwaits⟩)⟩
    by_contra hfree
    have hclear : Clear (setTask { c with lock := some (.task t) } t
        (.send id waits .registering)) id .registering :=
      .registering hroom (by simpa using hfree)
    obtain ⟨next, htask₂, hclear₂⟩ := hclear.repeats walk₁ htask₁ hrepeats
    obtain ⟨queue, hwaits⟩ := hwaits
    exact hclear₂.not_waits htask₂ queue hwaits
  · exact ⟨c₂, .head ⟨hnow, hstep⟩ hrepeats, .inr (.inr hstalls)⟩

end Clear

/-! ## Every walk -/

section All

variable {outside : σ → σ → Prop} {codec : Codec σ} {p : Preamble} {log : List Log.Entry}
  {order : Registry.Order} {steps : List (Taken σ ρ)} {c : Client σ ρ}

/-- **Who waits for whom.**  A thread that waits for room in a queue has the send lock, and so does
the receiver if it gives calls up, but not while it reads responses.  Whoever has the send lock
gives it back by its own steps, or comes to wait for room, or for its connection to take its
request.  While it waits for room, all others that are about to send wait as well, until somebody
collects from that queue; then it goes on.  A thread that finds the send lock free goes on to its
return by its own steps if its own queue has room and its write does not have to wait, and waits at
most for its call to finish; unless the next number is still in use by a call in flight. -/
theorem full_queue_keeps_send_lock (walk : Walk outside (start codec p log order) steps c)
    (stalled : Bytes → σ → Prop) :
    (∀ t queue, c.WaitsForRoom (.task t) queue → c.lock = some (.task t)) ∧
    (∀ queue, c.WaitsForRoom .receive queue →
      (c.lock = some .receiver ↔ ∃ f ids, c.receiver = .terminating f ids)) ∧
    (∀ holder, c.lock = some holder → ∃ c', Proceeds stalled holder.move c c' ∧
      (c'.lock = none ∨ (∃ queue, c'.WaitsForRoom holder.move queue) ∨
        c'.lock = some holder ∧ c'.Stalls stalled holder.move)) ∧
    (∀ holder queue, c.lock = some holder → c.WaitsForRoom holder.move queue →
      (∀ later c', Walk outside c later c' →
        (∀ s ∈ later, s.before.collectsFrom? s.move ≠ some queue) →
        c'.lock = some holder ∧ c'.WaitsForRoom holder.move queue ∧
        ∀ (t : TaskId) id waits, c.tasks[t]? = some (.send id waits .entering) →
          c'.tasks[t]? = some (.send id waits .entering)) ∧
      ∀ move c', c.collectsFrom? move = some queue → c.step move = .moved c' →
        ∃ c'', c'.step holder.move = .moved c'') ∧
    (∀ (t : TaskId) id waits, c.lock = none → c.tasks[t]? = some (.send id waits .entering) →
      c.board.HasRoomFor id → ∃ c', Proceeds stalled (.task t) c c' ∧
        ((∃ next, c'.lock = none ∧ c'.tasks[t]? = some (.send id waits next) ∧
          ((∃ collected, next = .returned collected) ∨
            (waits = true ∧ next = .collecting ∧ c'.step (.task t) = .blocked))) ∨
        ((c.board.registry.find? c.board.registry.nextSeq).isSome = true ∧
          ∃ queue, c'.WaitsForRoom (.task t) queue) ∨
        c'.lock = some (.task t) ∧ c'.Stalls stalled (.task t))) := by
  have hstalls {t : TaskId} {c' : Client σ ρ} (hrepeats : Proceeds stalled (.task t) c c')
      (h : c'.Stalls stalled (.task t)) :
      c'.lock = some (.task t) ∧ c'.Stalls stalled (.task t) := by
    obtain ⟨steps', walk'⟩ := hrepeats.walk walk
    exact ⟨h.lock_eq walk'.locked, h⟩
  refine ⟨fun t queue hwaits => hwaits.lock_eq walk.locked,
    fun queue hwaits => hwaits.lock_eq_receiver_iff walk.locked, fun holder hlock => ?_,
    fun holder queue hlock hwaits =>
      ⟨fun later c' more hfrom => walk.still_waits more hlock hwaits hfrom,
        fun move c' hfrom hstep => walk.relieved hwaits hfrom hstep⟩,
    fun t id waits hlock htask hroom => ?_⟩
  · cases holder with
    | task t =>
        obtain ⟨task, htask, hinside⟩ :=
          Option.any_eq_true .. |>.mp ((walk.locked.holder t).mp hlock)
        cases task with
        | send id waits phase =>
            obtain ⟨c', hrepeats, (⟨hfree, -⟩ | hwaits) | hstuck⟩ :=
              walk.gives_back stalled htask hinside
            · exact ⟨c', hrepeats, .inl hfree⟩
            · exact ⟨c', hrepeats, .inr (.inl hwaits)⟩
            · exact ⟨c', hrepeats, .inr (.inr (hstalls hrepeats hstuck))⟩
        | close => contradiction
    | receiver =>
        obtain ⟨c', hrepeats, (hfree | hwaits) | hstuck⟩ :=
          walk.unlocks stalled (walk.locked.receiver.mp hlock)
        · exact ⟨c', hrepeats, .inl hfree⟩
        · exact ⟨c', hrepeats, .inr (.inl hwaits)⟩
        · exact absurd hstuck not_stalls_receive
  · obtain ⟨c', hrepeats, hdone | hwaits | hstuck⟩ := walk.sends stalled hlock htask hroom
    · exact ⟨c', hrepeats, .inl hdone⟩
    · exact ⟨c', hrepeats, .inr (.inl hwaits)⟩
    · exact ⟨c', hrepeats, .inr (.inr (hstalls hrepeats hstuck))⟩

/-- A connection that brings empty replies to two calls. -/
def twoReplies : MemoryStream :=
  { incoming := [1, 2].flatMap fun seq => Message.encode { header := { seq }, body := [] } }

/-- Two queues with room for one call each, and two calls that are delivered to the first. -/
def twoCallsOneQueue : List (Move Unit) :=
  [.queue 1, .queue 1, .go { reply := () } (some 0), .go { reply := () } (some 0),
    .task 0, .task 0, .task 0, .task 0, .task 0, .task 1, .task 1, .task 1, .task 1, .task 1]

/-- The receiver of responses waits for room in one queue, and a call that is delivered to another
is sent nevertheless, on a connection that takes everything at once. -/
theorem full_queue_keeps_send_lock_two_queues :
    ∃ (steps : List (Taken MemoryStream Unit)) (c c' : Client MemoryStream Unit),
      Walk (fun _ _ => True) (start { stream := twoReplies } {} []) steps c ∧
      c.WaitsForRoom .receive 0 ∧ c.lock ≠ some .receiver ∧
      c.tasks[2]? = some (.send 2 false .entering) ∧ c.board.HasRoomFor 2 ∧
      Proceeds (fun _ _ => False) (.task 2) c c' ∧
      ∃ collected, c'.tasks[2]? = some (.send 2 false (.returned collected)) := by
  have hcourse : ((start { stream := twoReplies } {} []).course
      (twoCallsOneQueue ++ List.replicate 7 .receive ++ [.go { reply := () } (some 1)])).any
      (fun (_, c) => decide (c.WaitsForRoom .receive 0) && c.receiver = .finishing 1 none &&
        c.lock = none && c.tasks[2]? = some (.send 2 false .entering) &&
        decide (c.board.HasRoomFor 2) &&
        c.board.registry.find? c.board.registry.nextSeq = none) = true := by
    decide +kernel
  obtain ⟨steps, c, walk, hchecks⟩ := exists_walk_of_course (fun _ _ => True) hcourse
  simp only [Bool.and_eq_true, decide_eq_true_eq] at hchecks
  obtain ⟨⟨⟨⟨⟨hwaits, hat⟩, hlock⟩, htask⟩, hroom⟩, hfree⟩ := hchecks
  obtain ⟨-, hreceiver, -, -, hsends⟩ := full_queue_keeps_send_lock walk fun _ _ => False
  have hnot : c.lock ≠ some .receiver := by
    intro hmine
    obtain ⟨f, ids, hgives⟩ := (hreceiver 0 hwaits).mp hmine
    exact Receiver.noConfusion (hat.symm.trans hgives)
  obtain ⟨c', hrepeats, ⟨next, -, htask', ⟨collected, rfl⟩ | ⟨hcall, -⟩⟩ | ⟨htaken, -⟩ |
    ⟨-, octets, -, hstalled⟩⟩ := hsends 2 2 false hlock htask hroom
  · exact ⟨steps, c, c', walk, hwaits, hnot, htask, hroom, hrepeats, collected, htask'⟩
  · exact absurd hcall Bool.false_ne_true
  · simp [hfree] at htaken
  · exact hstalled.elim

/-- **One queue that nobody collects from can stop all callers.**  The receiver gives two calls up,
finds no room for the second of them, and keeps the send lock; a call that is delivered to another
queue, with room, is not sent until somebody collects from the first. -/
theorem full_queue_stops_other_caller :
    ∃ (steps : List (Taken MemoryStream Unit)) (c : Client MemoryStream Unit),
      Walk (fun _ _ => True) (start { stream := { ended := true } } {} []) steps c ∧
      c.WaitsForRoom .receive 0 ∧ c.lock = some .receiver ∧
      c.tasks[2]? = some (.send 2 false .entering) ∧ c.board.HasRoomFor 2 ∧
      ∀ later c', Walk (fun _ _ => True) c later c' →
        (∀ s ∈ later, s.before.collectsFrom? s.move ≠ some 0) →
        c'.tasks[2]? = some (.send 2 false .entering) := by
  have hcourse : ((start { stream := { ended := true } } {} [] : Client MemoryStream Unit).course
      (twoCallsOneQueue ++ List.replicate 5 .receive ++ [.go { reply := () } (some 1)])).any
      (fun (_, c) => decide (c.WaitsForRoom .receive 0) && c.lock = some .receiver &&
        c.tasks[2]? = some (.send 2 false .entering) && decide (c.board.HasRoomFor 2)) = true := by
    decide +kernel
  obtain ⟨steps, c, walk, hchecks⟩ := exists_walk_of_course (fun _ _ => True) hcourse
  simp only [Bool.and_eq_true, decide_eq_true_eq] at hchecks
  obtain ⟨⟨⟨hwaits, hlock⟩, htask⟩, hroom⟩ := hchecks
  refine ⟨steps, c, walk, hwaits, hlock, htask, hroom, fun later c' more hfrom => ?_⟩
  obtain ⟨-, -, hothers⟩ := walk.still_waits more hlock hwaits hfrom
  exact hothers 2 2 false htask

end All

end Client

end RemoteCalls
