import RemoteCalls.Proofs.Client.Holding
import RemoteCalls.Proofs.Client.Progress
import RemoteCalls.Transport.Memory

/-!
# RemoteCalls.Proofs.Client.Capacity

Queues that are large enough never make anyone wait.

A queue is `Spare` if it has room for all calls that are still to be delivered to
it.  A call that is begun with a queue takes one place of it, and keeps that place
until it is delivered, whoever delivers it; so a queue stays spare as long as it
is only given to calls that find a place left (`Taken.reserves`).

A queue that is made for one call is never given to another, and has a place for
that one.  A thread that waits for its call finds nothing else in that queue.
-/

namespace RemoteCalls

/-- What a thread has collected, once it is gone. -/
def SendPhase.collected? : SendPhase → Option (Option CallId)
  | .returned collected => some collected
  | _ => none

/-! ## Spare queues -/

namespace Board

variable {ρ : Type} {b b' : Board ρ} {queue : QueueId}

/-- A queue has room for all calls that are still to be delivered to it. -/
def Spare (b : Board ρ) (queue : QueueId) : Prop :=
  ∀ q, b.queue? queue = some q → q.size + b.awaiting queue ≤ q.capacity

/-- No call is to be delivered to a queue that has not been made. -/
theorem Stocked.awaiting_eq_zero (h : b.Stocked) (hnew : b.queues.length ≤ queue) :
    b.awaiting queue = 0 := by
  rw [awaiting, List.countP_eq_zero]
  intro call hcall
  obtain ⟨id, hid⟩ := List.mem_iff_getElem?.mp hcall
  obtain ⟨other, hother, hlt⟩ := h.queued id call hid
  have hne : other ≠ queue := Nat.ne_of_lt (Nat.lt_of_lt_of_le hlt hnew)
  simp [hother, hne]

/-- A call that is begun is awaited in its queue. -/
theorem awaiting_addCall (b : Board ρ) (r : Request ρ) (mine queue : QueueId) :
    (b.addCall (r.toCall mine)).1.awaiting queue =
      b.awaiting queue + if mine = queue then 1 else 0 := by
  rw [awaiting, addCall, List.countP_append, List.countP_singleton, awaiting]
  simp [Request.toCall]

/-- A spare queue has room for each call that is to be delivered to it. -/
theorem Spare.hasRoom (h : b.Spare queue) {id : CallId} {call : Call ρ} {q : CompletionQueue}
    (hcall : b.call? id = some call) (hfinished : call.finished = false)
    (hqueue : call.queue = some queue) (hq : b.queue? queue = some q) : q.hasRoom = true := by
  have hspare := h q hq
  have hpos : 0 < b.awaiting queue :=
    List.countP_pos_iff.mpr ⟨call, List.mem_of_getElem? hcall, by simp [hqueue, hfinished]⟩
  rw [CompletionQueue.hasRoom, decide_eq_true_eq]
  omega

theorem Spare.congr (h : b.Spare queue)
    (hcalls : b'.calls.map Call.standing = b.calls.map Call.standing)
    (hqueues : b'.queues = b.queues) : b'.Spare queue := by
  intro q hq
  rw [queue?, hqueues] at hq
  rw [awaiting_congr hcalls]
  exact h q hq

/-- A new queue is empty, and nothing is to be delivered to it. -/
theorem Spare.addQueue (h : b.Spare queue) (hstocked : b.Stocked) (capacity : Nat) :
    (b.addQueue capacity).1.Spare queue := by
  intro q hq
  show q.size + b.awaiting queue ≤ q.capacity
  rw [queue?, Board.addQueue, List.getElem?_append] at hq
  split at hq
  case isTrue => exact h q hq
  case isFalse hnew =>
    obtain ⟨-, rfl⟩ := List.getElem?_eq_some_iff.mp hq
    rw [hstocked.awaiting_eq_zero (Nat.not_lt.mp hnew)]
    simp [CompletionQueue.size]

/-- A queue may be given to a call if one more place is left in it. -/
theorem Spare.addCall (h : b.Spare queue) (r : Request ρ) {mine : QueueId}
    (hplace : mine = queue → ∀ q, b.queue? queue = some q →
      q.size + b.awaiting queue < q.capacity) :
    (b.addCall (r.toCall mine)).1.Spare queue := by
  intro q hq
  rw [awaiting_addCall]
  split
  case isTrue heq => exact hplace heq q hq
  case isFalse => exact h q hq

theorem Spare.collect (h : b.Spare queue) {other : QueueId} {id : CallId}
    (hpop : b.pop? other = some (id, b')) : b'.Spare queue := by
  obtain ⟨q, items, hq, hitems, rfl⟩ := pop?_front hpop
  intro q' hq'
  show q'.size + b.awaiting queue ≤ q'.capacity
  rw [queue?, List.getElem?_set] at hq'
  split at hq'
  case isTrue heq =>
    subst heq
    rw [if_pos (List.getElem?_eq_some_iff.mp hq).1] at hq'
    obtain rfl := Option.some.inj hq'
    have hspare := h q hq
    rw [CompletionQueue.size, hitems, List.length_cons] at hspare
    simp only [CompletionQueue.size]
    omega
  case isFalse => exact h q' hq'

/-- A call that is delivered takes a place that was kept for it. -/
theorem Spare.finish (h : b.Spare queue) {id : CallId} (hfinish : b.finish id = .moved b') :
    b'.Spare queue := by
  obtain ⟨call, other, q, hcall, hfinished, hqueue, hq, -, rfl⟩ := finish_delivered hfinish
  have hleft := awaiting_delivered hcall hfinished hqueue { q with items := q.items ++ [id] } queue
  intro q' hq'
  rw [queue?, delivered, List.getElem?_set] at hq'
  split at hq'
  case isTrue heq =>
    subst heq
    rw [if_pos (List.getElem?_eq_some_iff.mp hq).1] at hq'
    obtain rfl := Option.some.inj hq'
    have hspare := h q hq
    rw [if_pos rfl] at hleft
    simp only [CompletionQueue.size, List.length_append, List.length_singleton] at hspare ⊢
    omega
  case isFalse hne =>
    have hspare := h q' hq'
    rw [if_neg hne] at hleft
    omega

end Board

namespace Client

open Board

variable {σ ρ : Type}

/-- If a queue is given to a call in a step, there is one more place in it than the calls need that
are still to be delivered to it. -/
def Taken.reserves (queue : QueueId) (s : Taken σ ρ) : Bool :=
  match s.move with
  | .go _ (some other) => other != queue || (s.before.board.queue? queue).all fun q =>
      q.size + s.before.board.awaiting queue < q.capacity
  | _ => true

/-- A queue that is made for a call has room for one. -/
theorem Move.capacity_pos {move : Move ρ} {r : Request ρ} {capacity : Nat} {waits : Bool}
    (h : move.alone? = some (r, capacity, waits)) : 0 < capacity := by
  unfold Move.alone? at h
  split at h
  · obtain ⟨-, rfl, -⟩ := h
    decide
  · obtain ⟨-, rfl, -⟩ := h
    decide
  · contradiction

theorem Traffic.spare {c : Client σ ρ} {move : Move ρ} {b' : Board ρ} {queue : QueueId}
    (htraffic : Traffic c move b') (hstocked : c.board.Stocked)
    (hreserves : Taken.reserves queue ⟨c, move⟩ = true) (h : c.board.Spare queue) :
    b'.Spare queue := by
  cases htraffic with
  | still hcalls hqueues => exact h.congr hcalls hqueues
  | queue hboard => exact hboard ▸ h.addQueue hstocked _
  | @alone r capacity waits halone hboard =>
      subst hboard
      refine (h.addQueue hstocked capacity).addCall r ?_
      rintro rfl q hq
      obtain rfl : q = { capacity } := by simpa [queue?, Board.addQueue] using hq.symm
      show _ + c.board.awaiting _ < _
      rw [hstocked.awaiting_eq_zero (Nat.le_refl _)]
      exact Move.capacity_pos halone
  | go hmove hqueue hboard =>
      subst hboard
      refine h.addCall _ ?_
      rintro rfl q hq
      subst hmove
      simpa [Taken.reserves, hq] using hreserves
  | collect _ hpop => exact h.collect hpop
  | deliver _ hcalls hqueues hfinish => exact (h.congr hcalls hqueues).finish hfinish

/-! ## Queues for one call -/

/-- The queue that the application names in a move, if any. -/
def Move.names? : Move ρ → Option QueueId
  | .go _ (some other) => some other
  | .collect other => some other
  | _ => none

/-- Only one call is delivered to a queue, and it stands there from when it is finished until it is
collected. -/
structure Undisturbed (b : Board ρ) (id : CallId) (mine : QueueId)
    (collected : Option (Option CallId)) : Prop where
  sole : ∀ other call, b.call? other = some call → call.queue = some mine → other = id
  content : ∃ call q, b.call? id = some call ∧ call.queue = some mine ∧
    b.queue? mine = some q ∧
    ((collected = none ∧ q.items = if call.finished then [id] else []) ∨
      (collected = some (some id) ∧ call.finished = true))

section Undisturbed

variable {c : Client σ ρ} {move : Move ρ} {b b' : Board ρ} {id : CallId} {mine : QueueId}
  {collected : Option (Option CallId)}

theorem Undisturbed.congr (h : Undisturbed b id mine collected)
    (hcalls : b'.calls.map Call.standing = b.calls.map Call.standing)
    (hqueues : b'.queues = b.queues) : Undisturbed b' id mine collected := by
  refine ⟨fun other call hcall hqueue => ?_, ?_⟩
  · obtain ⟨before, hbefore, hsame, -⟩ := call?_of_standing hcalls hcall
    exact h.sole other before hbefore (hsame.trans hqueue)
  · obtain ⟨call, q, hcall, hqueue, hq, hcontent⟩ := h.content
    obtain ⟨after, hafter, hsame, hfinished⟩ := call?_of_standing hcalls.symm hcall
    refine ⟨after, q, hafter, hsame.trans hqueue, ?_, ?_⟩
    · rw [queue?, hqueues]
      exact hq
    · rwa [hfinished]

/-- More queues may be made, and calls begun that are delivered elsewhere. -/
theorem Undisturbed.addQueue (h : Undisturbed b id mine collected) (capacity : Nat) :
    Undisturbed (b.addQueue capacity).1 id mine collected := by
  obtain ⟨call, q, hcall, hqueue, hq, hcontent⟩ := h.content
  have hlt := (List.getElem?_eq_some_iff.mp hq).1
  exact ⟨h.sole, call, q, hcall, hqueue, (List.getElem?_append_left hlt).trans hq, hcontent⟩

theorem Undisturbed.addCall (h : Undisturbed b id mine collected) (r : Request ρ)
    {other : QueueId} (hother : other ≠ mine) :
    Undisturbed (b.addCall (r.toCall other)).1 id mine collected := by
  obtain ⟨call, q, hcall, hqueue, hq, hcontent⟩ := h.content
  have hlt := (List.getElem?_eq_some_iff.mp hcall).1
  refine ⟨fun id' call' hcall' hqueue' => ?_, call, q,
    (List.getElem?_append_left hlt).trans hcall, hqueue, hq, hcontent⟩
  rw [call?, Board.addCall, List.getElem?_append] at hcall'
  split at hcall'
  case isTrue => exact h.sole id' call' hcall' hqueue'
  case isFalse =>
    obtain ⟨hlast, rfl⟩ := List.getElem?_eq_some_iff.mp hcall'
    have heq : other = mine := by simpa [Request.toCall] using hqueue'
    exact absurd heq hother

/-- The call is finished once, into the empty queue, and all others elsewhere. -/
theorem Undisturbed.finish (h : Undisturbed b id mine collected) {other : CallId}
    (hfinish : b.finish other = .moved b') : Undisturbed b' id mine collected := by
  obtain ⟨call, queue, q, hcall, hnot, hqueue, hq, -, rfl⟩ := finish_delivered hfinish
  obtain ⟨call₁, q₁, hcall₁, hqueue₁, hq₁, hcontent⟩ := h.content
  refine ⟨fun id' call' hcall' hqueue' => ?_, ?_⟩
  · rw [call?_delivered] at hcall'
    split at hcall'
    · obtain ⟨before, hbefore, rfl⟩ := Option.map_eq_some_iff.mp hcall'
      exact h.sole id' before hbefore hqueue'
    · exact h.sole id' call' hcall' hqueue'
  · by_cases hsame : queue = mine
    · subst hsame
      obtain rfl := h.sole other call hcall hqueue
      obtain rfl := Option.some.inj (hcall.symm.trans hcall₁)
      obtain rfl := Option.some.inj (hq.symm.trans hq₁)
      rw [hnot] at hcontent
      obtain ⟨hnone, hitems⟩ | ⟨-, hfinished⟩ := hcontent
      · refine ⟨{ call with finished := true }, { q with items := q.items ++ [other] }, ?_, hqueue,
          List.getElem?_set_self (List.getElem?_eq_some_iff.mp hq).1, .inl ⟨hnone, ?_⟩⟩
        · rw [call?_delivered, if_pos rfl, hcall, Option.map_some]
        · simp [hitems]
      · contradiction
    · have hne : other ≠ id := by
        rintro rfl
        obtain rfl := Option.some.inj (hcall.symm.trans hcall₁)
        exact hsame (Option.some.inj (hqueue.symm.trans hqueue₁))
      refine ⟨call₁, q₁, ?_, hqueue₁, (List.getElem?_set_ne hsame).trans hq₁, hcontent⟩
      rw [call?_delivered, if_neg hne, hcall₁]

/-- A call that is collected from another queue disturbs nobody. -/
theorem Undisturbed.collect_of_ne (h : Undisturbed b id mine collected) {queue : QueueId}
    {other : CallId} (hne : queue ≠ mine) (hpop : b.pop? queue = some (other, b')) :
    Undisturbed b' id mine collected := by
  obtain ⟨q', items, -, -, rfl⟩ := pop?_front hpop
  obtain ⟨call, q, hcall, hqueue, hq, hcontent⟩ := h.content
  exact ⟨h.sole, call, q, hcall, hqueue, (List.getElem?_set_ne hne).trans hq, hcontent⟩

/-- Whoever collects from the queue gets the call. -/
theorem Undisturbed.collect (h : Undisturbed b id mine none) {other : CallId}
    (hpop : b.pop? mine = some (other, b')) :
    other = id ∧ Undisturbed b' id mine (some (some id)) := by
  obtain ⟨q', items, hq', hitems, rfl⟩ := pop?_front hpop
  obtain ⟨call, q, hcall, hqueue, hq, ⟨-, hcontent⟩ | ⟨hnone, -⟩⟩ := h.content
  · obtain rfl := Option.some.inj (hq.symm.trans hq')
    rw [hitems] at hcontent
    split at hcontent
    case isTrue hfinished =>
      exact ⟨(List.cons.inj hcontent).1, h.sole, call, _, hcall, hqueue,
        List.getElem?_set_self (List.getElem?_eq_some_iff.mp hq).1, .inr ⟨rfl, hfinished⟩⟩
    case isFalse => contradiction
  · contradiction

theorem Undisturbed.traffic (h : Undisturbed c.board id mine collected)
    (htraffic : Traffic c move b') (hnames : move.names? ≠ some mine)
    (hfrom : c.collectsFrom? move ≠ some mine) : Undisturbed b' id mine collected := by
  obtain ⟨call, q, -, -, hq, -⟩ := h.content
  have hlt := (List.getElem?_eq_some_iff.mp hq).1
  cases htraffic with
  | still hcalls hqueues => exact h.congr hcalls hqueues
  | queue hboard => exact hboard ▸ h.addQueue _
  | alone _ hboard => exact hboard ▸ (h.addQueue _).addCall _ (Nat.ne_of_gt hlt)
  | go hmove _ hboard =>
      subst hmove
      exact hboard ▸ h.addCall _ fun heq => hnames (congrArg some heq)
  | collect hcollects hpop =>
      exact h.collect_of_ne (fun heq => hfrom (hcollects.trans (congrArg some heq))) hpop
  | deliver _ hcalls hqueues hfinish => exact (h.congr hcalls hqueues).finish hfinish

/-- A queue that has just been made for a call. -/
theorem undisturbed_alone (h : b.Stocked) (r : Request ρ) (capacity : Nat) :
    Undisturbed ((b.addQueue capacity).1.addCall (r.toCall b.queues.length)).1 b.calls.length
      b.queues.length none := by
  refine ⟨fun other call hcall hqueue => ?_, r.toCall b.queues.length, { capacity },
    List.getElem?_concat_length, rfl, List.getElem?_concat_length, .inl ⟨rfl, rfl⟩⟩
  have hle : other < b.calls.length + 1 := by
    simpa [Board.addCall, Board.addQueue] using (List.getElem?_eq_some_iff.mp hcall).1
  obtain hlt | rfl := Nat.lt_succ_iff_lt_or_eq.mp hle
  · have hbefore : b.call? other = some call := (List.getElem?_append_left hlt).symm.trans hcall
    obtain ⟨queue, hmine, hless⟩ := h.queued other call hbefore
    rw [hmine] at hqueue
    exact absurd hless (Nat.not_lt.mpr (Nat.le_of_eq (Option.some.inj hqueue).symm))
  · rfl

/-- Nobody but the thread that waits for the call collects from its queue. -/
theorem Undisturbed.collectsFrom?_ne (h : Undisturbed c.board id mine collected)
    (hlocked : c.Locked) {t : TaskId} {waits : Bool} {phase : SendPhase}
    (htask : c.tasks[t]? = some (.send id waits phase)) (hmove : move ≠ .task t)
    (hnames : move.names? ≠ some mine) : c.collectsFrom? move ≠ some mine := by
  cases move with
  | collect other => exact hnames
  | task t' =>
      simp only [collectsFrom?]
      split
      case h_2 => simp
      case h_1 id' waits' htask' =>
        intro hfrom
        obtain ⟨call, hcall, hqueue⟩ := Option.bind_eq_some_iff.mp hfrom
        obtain rfl := h.sole id' call hcall hqueue
        have hne : t' ≠ t := fun heq => hmove (congrArg Move.task heq)
        exact hlocked.own_ne htask' rfl htask rfl hne rfl
  | _ => simp [collectsFrom?]

end Undisturbed

/-! ## Walks -/

section Walks

variable [ByteStream σ] {outside : σ → σ → Prop} {codec : Codec σ} {p : Preamble}
  {log : List Log.Entry} {order : Registry.Order} {steps : List (Taken σ ρ)} {c c' : Client σ ρ}

/-- A thread that waits for its call collects once, in the step in which it goes. -/
theorem SendChange.collected_cases {t : TaskId} {id : CallId} {call : Call ρ} {phase : SendPhase}
    {events : List (Event ρ)}
    (h : SendChange c t id call true phase events c') :
    (∃ queue other, phase = .collecting ∧ call.queue = some queue ∧
      c.board.pop? queue = some (other, c'.board) ∧
      c'.tasks = c.tasks.set t (.send id true (.returned (some other)))) ∨
    (phase ≠ .collecting ∧ phase.collected? = none ∧
      ∃ next, next.collected? = none ∧ c'.tasks = c.tasks.set t (.send id true next)) := by
  cases h with
  | collect hqueue hpop => exact .inl ⟨_, _, rfl, hqueue, hpop, rfl⟩
  | leave => exact .inr ⟨SendPhase.noConfusion, rfl, .collecting, rfl, rfl⟩
  | _ => exact .inr ⟨SendPhase.noConfusion, rfl, _, rfl, rfl⟩

/-- A queue stays spare that is only given to calls which find a place left. -/
theorem Walk.spare (walk : Walk outside (Client.start codec p log order) steps c) {queue : QueueId}
    (hreserves : ∀ s ∈ steps, s.reserves queue = true) : c.board.Spare queue := by
  induction walk with
  | start => simp [Client.start, Spare, queue?]
  | step walk move h ih =>
      have heffect := effect_of_step walk.holding.readsReply h
      exact heffect.traffic.spare walk.stocked (hreserves _ (by simp))
        (ih fun s hs => hreserves s (List.mem_append_left _ hs))
  | outside _ stream _ ih => exact ih hreserves

/-- What the thread that waits for a call does to its queue. -/
theorem Undisturbed.turn {t : TaskId} {id : CallId} {mine : QueueId}
    {phase phase' : SendPhase} (h : Undisturbed c.board id mine phase.collected?)
    (heffect : Effect c (.task t) c') (htask : c.tasks[t]? = some (.send id true phase))
    (htask' : c'.tasks[t]? = some (.send id true phase')) :
    Undisturbed c'.board id mine phase'.collected? := by
  have hlt := (List.getElem?_eq_some_iff.mp htask).1
  have hphase {next : SendPhase} (htasks : c'.tasks = c.tasks.set t (.send id true next)) :
      phase' = next := by
    rw [htasks, List.getElem?_set_self hlt] at htask'
    simpa using htask'.symm
  have hpass {next : SendPhase} (hnot : phase ≠ .collecting) (hnone : phase.collected? = none)
      (hnext : next.collected? = none) (htasks : c'.tasks = c.tasks.set t (.send id true next)) :
      Undisturbed c'.board id mine phase'.collected? := by
    rw [hphase htasks, hnext, ← hnone]
    refine h.traffic heffect.traffic (by simp [Move.names?]) ?_
    simp only [collectsFrom?, htask]
    split
    · simp_all
    · simp
  obtain ⟨call, events, hcall, hchange⟩ | ⟨rfl, -, -, rfl⟩ := heffect.of_send htask
  · obtain ⟨queue, other, rfl, hqueue, hpop, htasks⟩ | ⟨hnot, hnone, next, hnext, htasks⟩ :=
      hchange.collected_cases
    · obtain ⟨call₁, q, hcall₁, hqueue₁, -⟩ := h.content
      obtain rfl := Option.some.inj (hcall.symm.trans hcall₁)
      obtain rfl := Option.some.inj (hqueue.symm.trans hqueue₁)
      obtain ⟨rfl, hafter⟩ := h.collect hpop
      rw [hphase htasks]
      exact hafter
    · exact hpass hnot hnone hnext htasks
  · exact hpass SendPhase.noConfusion rfl rfl rfl

/-- The queue of a call that is waited for is undisturbed as long as the application does not name
it. -/
theorem Walk.undisturbed (walk : Walk outside (Client.start codec p log order) steps c) {t : TaskId}
    {id : CallId} {phase : SendPhase} {call : Call ρ} {mine : QueueId}
    (htask : c.tasks[t]? = some (.send id true phase)) (hcall : c.board.call? id = some call)
    (hqueue : call.queue = some mine) (hnames : ∀ s ∈ steps, s.move.names? ≠ some mine) :
    Undisturbed c.board id mine phase.collected? := by
  induction walk generalizing t phase call with
  | start => simp [Client.start] at htask
  | outside _ stream _ ih => exact ih htask hcall hqueue hnames
  | @step steps c c' walk move h ih =>
      have hlocked := walk.locked
      have heffect := effect_of_step walk.holding.readsReply h
      have hlast : move.names? ≠ some mine := hnames ⟨c, move⟩ (by simp)
      have hbefore {phase₀ : SendPhase} (htask₀ : c.tasks[t]? = some (.send id true phase₀)) :
          Undisturbed c.board id mine phase₀.collected? := by
        obtain ⟨call₀, hcall₀⟩ := hlocked.exists_call htask₀
        obtain ⟨after, hafter, hsame, -⟩ := heffect.traffic.exists_call hcall₀
        obtain rfl := Option.some.inj (hafter.symm.trans hcall)
        exact ih htask₀ hcall₀ (hsame.symm.trans hqueue)
          fun s hs => hnames s (List.mem_append_left _ hs)
      by_cases hold : t < c.tasks.length
      · obtain ⟨phase₀, htask₀⟩ := heffect.exists_send hold htask
        have hundisturbed := hbefore htask₀
        by_cases hmove : move = .task t
        · subst hmove
          exact hundisturbed.turn heffect htask₀ htask
        · obtain rfl : phase₀ = phase := by
            simpa [htask₀] using (heffect.task_eq hmove hold).symm.trans htask
          exact hundisturbed.traffic heffect.traffic hlast
            (hundisturbed.collectsFrom?_ne hlocked htask₀ hmove hlast)
      · obtain ⟨-, ⟨r, capacity, waits, -, htask₀, hboard⟩ | ⟨r, queue, -, htask₀, -⟩ |
          ⟨drops, -, htask₀, -⟩⟩ := heffect.begun htask (Nat.not_lt.mp hold)
        · obtain ⟨rfl, -, rfl⟩ := Task.send.inj htask₀
          have hnew : c'.board.call? c.board.calls.length =
              some (r.toCall c.board.queues.length) := by
            rw [hboard]
            exact List.getElem?_concat_length
          obtain rfl := Option.some.inj (hnew.symm.trans hcall)
          obtain rfl := Option.some.inj hqueue
          rw [hboard]
          exact undisturbed_alone walk.stocked r capacity
        · obtain ⟨-, hwaits, -⟩ := Task.send.inj htask₀
          contradiction
        · contradiction

/-- **Enough room means that nobody waits for room.**  A call that is about to be delivered, by
whichever thread, finds room in its queue if that has only been given to calls as long as it had a
place left for them, and the thread goes on.  This holds of every queue that has been made for one
call.  A thread that waits for its call, alone with its queue, goes with that call and no other, and
does so at once when the call is finished. -/
theorem enough_room_for_all (walk : Walk outside (start codec p log order) steps c) :
    (∀ move id, c.pushes? move = some id →
      ∃ call queue q, c.board.call? id = some call ∧ call.finished = false ∧
        call.queue = some queue ∧ c.board.queue? queue = some q ∧
        ((∀ s ∈ steps, s.reserves queue = true) →
          q.hasRoom = true ∧ ∃ c', c.step move = .moved c')) ∧
    (∀ move id call queue, c.pushes? move = some id → c.board.call? id = some call →
      call.queue = some queue → (∀ s ∈ steps, ∀ r, s.move ≠ .go r (some queue)) →
      ∃ c', c.step move = .moved c') ∧
    (∀ t id phase call queue, c.tasks[t]? = some (.send id true phase) →
      c.board.call? id = some call → call.queue = some queue →
      (∀ s ∈ steps, s.move.names? ≠ some queue) →
      (∀ collected, phase = .returned collected → collected = some id ∧ call.finished = true) ∧
      (phase = .collecting → call.finished = true →
        ∃ c', c.step (.task t) = .moved c' ∧
          c'.tasks[t]? = some (.send id true (.returned (some id))))) := by
  have hlocked := walk.locked
  have hroom (move : Move ρ) (id : CallId) (hpushes : c.pushes? move = some id) :
      ∃ call queue q, c.board.call? id = some call ∧ call.finished = false ∧
        call.queue = some queue ∧ c.board.queue? queue = some q ∧
        ((∀ s ∈ steps, s.reserves queue = true) →
          q.hasRoom = true ∧ ∃ c', c.step move = .moved c') := by
    obtain ⟨call, queue, q, hcall, hfinished, hqueue, hq⟩ :=
      walk.holding.call_of_pushes walk.stocked hpushes
    refine ⟨call, queue, q, hcall, hfinished, hqueue, hq, fun hreserves => ?_⟩
    have hroom := (walk.spare hreserves).hasRoom hcall hfinished hqueue hq
    exact ⟨hroom, hlocked.step_of_hasRoom hpushes hcall hfinished hqueue hq hroom⟩
  refine ⟨hroom, fun move id call queue hpushes hcall hqueue hgives => ?_,
    fun t id phase call queue htask hcall hqueue hnames => ?_⟩
  · obtain ⟨call', queue', q, hcall', -, hqueue', -, hmoves⟩ := hroom move id hpushes
    obtain rfl := Option.some.inj (hcall.symm.trans hcall')
    obtain rfl := Option.some.inj (hqueue.symm.trans hqueue')
    refine (hmoves fun s hs => ?_).2
    have hgives := hgives s hs
    unfold Taken.reserves
    split
    case h_1 r other hmove => simpa using .inl fun heq => hgives r (heq ▸ hmove)
    case h_2 => rfl
  · have hundisturbed := walk.undisturbed htask hcall hqueue hnames
    obtain ⟨call', q, hcall', -, hq, hcontent⟩ := hundisturbed.content
    obtain rfl := Option.some.inj (hcall.symm.trans hcall')
    constructor
    · rintro collected rfl
      obtain ⟨hnone, -⟩ | ⟨hcollected, hfinished⟩ := hcontent
      · contradiction
      · exact ⟨Option.some.inj hcollected, hfinished⟩
    · rintro rfl hfinished
      obtain ⟨-, hitems⟩ | ⟨hsome, -⟩ := hcontent
      · rw [hfinished, if_pos rfl] at hitems
        have hpop : c.board.pop? queue = some (id,
            { c.board with queues := c.board.queues.set queue { q with items := [] } }) := by
          simp [Board.pop?, hq, CompletionQueue.pop?, hitems]
        have hlt := (List.getElem?_eq_some_iff.mp htask).1
        simp only [step, stepTask, htask, hcall, stepSend, hqueue, Option.bind_some, hpop]
        exact ⟨_, rfl, List.getElem?_set_self hlt⟩
      · contradiction

/-- One call is given a queue with room for one, another is waited for, and the connection ends
while both are in flight. -/
theorem enough_room_for_all_two_calls :
    ∃ (steps : List (Taken MemoryStream Unit)) (c : Client MemoryStream Unit),
      Walk (fun _ _ => True) (start { stream := { ended := true } } {} []) steps c ∧
      (∀ s ∈ steps, s.reserves 0 = true) ∧ c.pushes? .receive = some 0 ∧
      (∃ c', c.step .receive = .moved c') ∧
      c.tasks[1]? = some (.send 1 true .collecting) ∧
      ∃ c', c.step (.task 1) = .moved c' ∧
        c'.tasks[1]? = some (.send 1 true (.returned (some 1))) := by
  have hcourse : ∃ (steps : List (Taken MemoryStream Unit)) (c : Client MemoryStream Unit),
      (start { stream := { ended := true } } {} []).course
        [.queue 1, .go { reply := () } (some 0), .call { reply := () },
          .task 0, .task 0, .task 0, .task 0, .task 0,
          .task 1, .task 1, .task 1, .task 1, .task 1,
          .receive, .receive, .receive, .receive, .receive] = some (steps, c) ∧
      (∀ s ∈ steps, s.reserves 0 = true) ∧ (∀ s ∈ steps, s.move.names? ≠ some 1) ∧
      c.pushes? .receive = some 0 ∧ c.tasks[1]? = some (.send 1 true .collecting) ∧
      (∃ call, c.board.call? 0 = some call ∧ call.queue = some 0) ∧
      ∃ call, c.board.call? 1 = some call ∧ call.queue = some 1 ∧ call.finished = true :=
    ⟨_, _, rfl, by decide +kernel, by decide +kernel, by decide +kernel, by decide +kernel,
      ⟨_, rfl, rfl⟩, ⟨_, rfl, rfl, rfl⟩⟩
  obtain ⟨steps, c, hcourse, hreserves, hnames, hpushes, htask, ⟨call₀, hcall₀, hqueue₀⟩,
    call, hcall, hqueue, hfinished⟩ := hcourse
  have walk : Walk (fun _ _ => True) _ _ c := Walk.start.course hcourse
  rw [List.nil_append] at walk
  obtain ⟨hroom, -, hwaits⟩ := enough_room_for_all walk
  obtain ⟨call', queue, q, hcall', -, hqueue', -, hmoves⟩ := hroom .receive 0 hpushes
  obtain rfl := Option.some.inj (hcall₀.symm.trans hcall')
  obtain rfl := Option.some.inj (hqueue₀.symm.trans hqueue')
  exact ⟨steps, c, walk, hreserves, hpushes, (hmoves hreserves).2, htask,
    (hwaits 1 1 .collecting call 1 htask hcall hqueue hnames).2 rfl hfinished⟩

end Walks

end Client

end RemoteCalls
