import RemoteCalls.Proofs.Client.Holding
import RemoteCalls.Transport.Memory

/-!
# RemoteCalls.Proofs.Client.Lifecycle

How a client is closed and comes to its end.

Two flags of the registry end registration: one is set by the close that comes
first, the other by the receiver when it gives all calls up.  Neither is ever
reset, so each is set in one step at most; `Tally` counts these steps, and the
step in which the connection is closed, which is taken by the thread that has set
the first flag.

A call that is begun afterwards is turned away.  `Refusal` says how far that has
come: its thread neither writes nor registers anything, and finishes the call
itself.
-/

namespace RemoteCalls

/-! ## Where tasks and the receiver stand -/

/-- The outcome of closing the client, once there is one. -/
def ClosePhase.status? : ClosePhase → Option Status
  | .reporting status => some status
  | .joining status => some status
  | .returned status => some status
  | _ => none

/-- Whether a task is about to close the connection. -/
def Task.isShutting : Task → Bool
  | .close _ .shutting => true
  | _ => false

/-- Whether a task is gone. -/
def Task.hasReturned : Task → Bool
  | .send _ _ (.returned _) => true
  | .close _ (.returned _) => true
  | _ => false

/-- Whether the receiver reads responses and finishes their calls. -/
def Receiver.isLooping : Receiver → Bool
  | .header _ => true
  | .matching _ => true
  | .skipping _ _ => true
  | .reply _ _ => true
  | .finishing _ _ => true
  | _ => false

namespace Client

open Board

variable {σ ρ : Type}

/-- Whether a task is begun in a move. -/
def Move.opens : Move ρ → Bool
  | .go _ _ => true
  | .call _ => true
  | .close _ => true
  | _ => false

/-- Whether the client is dropped in a move. -/
def Move.drops : Move ρ → Bool
  | .close drops => drops
  | _ => false

/-! ## The steps that are counted -/

/-- Whether a thread is the first to close the client in a step. -/
def Taken.passes (s : Taken σ ρ) : Bool :=
  match s.move with
  | .task t =>
      match s.before.tasks[t]? with
      | some (.close _ .entering) => !s.before.board.registry.closing
      | _ => false
  | _ => false

/-- Whether the connection is closed in a step. -/
def Taken.shuts (s : Taken σ ρ) : Bool :=
  match s.move with
  | .task t => (s.before.tasks[t]?).any Task.isShutting
  | _ => false

/-- Whether the receiver takes all calls out of the registry in a step. -/
def Taken.givesUp (s : Taken σ ρ) : Bool :=
  match s.move, s.before.receiver with
  | .receive, .taking _ => true
  | _, _ => false

/-- Whether the client has only been dropped when all other tasks were gone, with none begun
since. -/
def orderly : List (Taken σ ρ) → Bool
  | [] => true
  | s :: later =>
      (!s.move.drops || (s.before.tasks.all Task.hasReturned && later.all (!·.move.opens)))
        && orderly later

section Effects

variable [ByteStream σ] {c c' : Client σ ρ} {move : Move ρ}

/-- A send leaves both flags. -/
theorem SendChange.flags {t : TaskId} {id : CallId} {call : Call ρ} {waits : Bool}
    {phase : SendPhase} {events : List (Event ρ)}
    (h : SendChange c t id call waits phase events c') :
    c'.board.registry.closing = c.board.registry.closing ∧
      c'.board.registry.shutdown = c.board.registry.shutdown := by
  cases h with
  | finish hfinish =>
      have hsame := registry_finish hfinish
      exact ⟨congrArg Registry.closing hsame, congrArg Registry.shutdown hsame⟩
  | collect _ hpop =>
      obtain ⟨q, q', -, -, rfl⟩ := pop?_eq_some hpop
      exact ⟨rfl, rfl⟩
  | _ => exact ⟨rfl, rfl⟩

/-- The receiver leaves one flag, and sets the other when it gives all calls up. -/
theorem ReceiverChange.flags {place : Receiver} {events : List (Event ρ)}
    (h : ReceiverChange c place events c') :
    c'.board.registry.closing = c.board.registry.closing ∧
      ((∃ f, place = .taking f ∧ c'.board.registry.shutdown = true ∧
        c'.receiver.hasTaken = true) ∨
      ((∀ f, place ≠ .taking f) ∧ c'.board.registry.shutdown = c.board.registry.shutdown ∧
        c'.receiver.hasTaken = place.hasTaken)) := by
  cases h with
  | take => exact ⟨rfl, .inl ⟨_, rfl, rfl, rfl⟩⟩
  | finish hfinish =>
      have hsame := registry_finish hfinish
      exact ⟨congrArg Registry.closing hsame, .inr ⟨fun _ => Receiver.noConfusion,
        congrArg Registry.shutdown hsame, Receiver.hasTaken_afterCall _⟩⟩
  | terminate hfinish =>
      have hsame := registry_finish hfinish
      exact ⟨congrArg Registry.closing hsame, .inr ⟨fun _ => Receiver.noConfusion,
        congrArg Registry.shutdown hsame, rfl⟩⟩
  | @skipFail _ _ call => cases call <;> exact ⟨rfl, .inr ⟨fun _ => Receiver.noConfusion, rfl, rfl⟩⟩
  | @skip _ _ call => cases call <;> exact ⟨rfl, .inr ⟨fun _ => Receiver.noConfusion, rfl, rfl⟩⟩
  | _ => exact ⟨rfl, .inr ⟨fun _ => Receiver.noConfusion, rfl, rfl⟩⟩

theorem Effect.closing_eq (h : Effect c move c') :
    c'.board.registry.closing = (c.board.registry.closing || Taken.passes ⟨c, move⟩) := by
  cases h with
  | alone halone =>
      simp only [beginSend, Board.addCall, Board.addQueue, Taken.passes]
      split
      · simp [Move.alone?] at halone
      · simp
  | collect hpop =>
      obtain ⟨q, q', -, -, rfl⟩ := pop?_eq_some hpop
      simp [Taken.passes]
  | send htask _ h => simp [h.flags.1, Taken.passes, htask]
  | passOver htask =>
      simp [setTask, Board.passedOver, Registry.passedOver, Taken.passes, htask]
  | closing htask h =>
      cases h with
      | begin hclosing => simp [setTask, note, Taken.passes, htask, hclosing]
      | refuse hclosing => simp [setTask, Taken.passes, htask, hclosing]
      | _ => simp [setTask, note, Taken.passes, htask]
  | receive h => simp [h.flags.1, Taken.passes]
  | _ => simp [beginSend, Client.beginClose, note, Board.addCall, Board.addQueue, Taken.passes]

omit [ByteStream σ] in
theorem Taken.givesUp_eq_true_iff :
    Taken.givesUp ⟨c, move⟩ = true ↔ move = .receive ∧ ∃ f, c.receiver = .taking f := by
  simp only [Taken.givesUp]
  constructor
  · intro h
    split at h
    case h_1 f hat => exact ⟨rfl, f, hat⟩
    case h_2 => contradiction
  · rintro ⟨rfl, f, hat⟩
    rw [hat]

omit [ByteStream σ] in
theorem Taken.givesUp_of_ne (hmove : move ≠ .receive) : Taken.givesUp ⟨c, move⟩ = false :=
  Bool.eq_false_iff.mpr fun h => hmove (givesUp_eq_true_iff.mp h).1

omit [ByteStream σ] in
theorem Taken.givesUp_of_not_taking (hat : ∀ f, c.receiver ≠ .taking f) :
    Taken.givesUp ⟨c, move⟩ = false :=
  Bool.eq_false_iff.mpr fun h => (givesUp_eq_true_iff.mp h).2.elim hat

omit [ByteStream σ] in
/-- The calls are not given up while a thread has the send lock. -/
theorem Locked.givesUp_eq_false {t : TaskId} {task : Task} (h : c.Locked)
    (htask : c.tasks[t]? = some task) (hinside : task.isInside = true) :
    Taken.givesUp ⟨c, move⟩ = false := by
  refine Taken.givesUp_of_not_taking fun f hat => ?_
  have hreceiver : c.lock = some .receiver := h.receiver.mpr (by rw [hat]; rfl)
  rw [h.lock_eq htask hinside] at hreceiver
  exact Holder.noConfusion (Option.some.inj hreceiver)

theorem Effect.shutdown_eq (h : Effect c move c') :
    c'.board.registry.shutdown = (c.board.registry.shutdown || Taken.givesUp ⟨c, move⟩) := by
  by_cases hmove : move = .receive
  · subst hmove
    obtain ⟨events, hchange⟩ := h.of_receive
    obtain ⟨-, ⟨f, hat, hset, -⟩ | ⟨hat, hkept, -⟩⟩ := hchange.flags
    · simp [hset, Taken.givesUp, hat]
    · rw [hkept, Taken.givesUp_of_not_taking hat, Bool.or_false]
  · rw [Taken.givesUp_of_ne hmove, Bool.or_false]
    cases h with
    | collect hpop =>
        obtain ⟨q, q', -, -, rfl⟩ := pop?_eq_some hpop
        rfl
    | send _ _ h => exact h.flags.2
    | closing _ h => cases h <;> rfl
    | receive => exact absurd rfl hmove
    | _ => rfl

theorem Effect.hasTaken_eq (h : Effect c move c') :
    c'.receiver.hasTaken = (c.receiver.hasTaken || Taken.givesUp ⟨c, move⟩) := by
  by_cases hmove : move = .receive
  · subst hmove
    obtain ⟨events, hchange⟩ := h.of_receive
    obtain ⟨-, ⟨f, hat, -, hset⟩ | ⟨hat, -, hkept⟩⟩ := hchange.flags
    · simp [hset, Taken.givesUp, hat]
    · rw [hkept, Taken.givesUp_of_not_taking hat, Bool.or_false]
  · rw [Taken.givesUp_of_ne hmove, Bool.or_false, h.receiver_eq hmove]

omit [ByteStream σ] in
/-- One task less stands there, and one more here. -/
theorem countP_setTask {t : TaskId} {old : Task} (h : c.tasks[t]? = some old) (P : Task → Bool)
    (new : Task) :
    (c.setTask t new).tasks.countP P + (P old).toNat = c.tasks.countP P + (P new).toNat := by
  obtain ⟨before, after, hall, hset⟩ := setTask_split h
  rw [hall, hset, List.countP_append, List.countP_append, List.countP_cons, List.countP_cons]
  cases P old <;> cases P new <;> simp <;> omega

/-- A thread that passes is about to close the connection, and no thread else. -/
theorem Effect.shutting_eq (h : Effect c move c') :
    c'.tasks.countP Task.isShutting + (Taken.shuts ⟨c, move⟩).toNat =
      c.tasks.countP Task.isShutting + (Taken.passes ⟨c, move⟩).toNat := by
  have hset {t : TaskId} {old next : Task} (htask : c.tasks[t]? = some old)
      (htasks : c'.tasks = c.tasks.set t next) :
      c'.tasks.countP Task.isShutting + old.isShutting.toNat =
        c.tasks.countP Task.isShutting + next.isShutting.toNat := by
    rw [htasks]
    exact countP_setTask htask Task.isShutting next
  cases h with
  | alone halone =>
      have hmove : ∀ t, move ≠ .task t := by
        rintro t rfl
        simp [Move.alone?] at halone
      simp only [beginSend, List.countP_append, Taken.shuts, Taken.passes]
      simp [Task.isShutting]
  | send htask _ h =>
      obtain ⟨next, htasks⟩ := h.tasks
      simpa [Taken.shuts, Taken.passes, htask, Task.isShutting] using hset htask htasks
  | passOver htask =>
      have hcount := hset htask rfl
      simpa [Taken.shuts, Taken.passes, htask, Task.isShutting] using hcount
  | closing htask h =>
      cases h with
      | begin hclosing =>
          have hcount := hset htask rfl
          simpa [Taken.shuts, Taken.passes, htask, Task.isShutting, hclosing] using hcount
      | refuse hclosing =>
          have hcount := hset htask rfl
          simpa [Taken.shuts, Taken.passes, htask, Task.isShutting, hclosing] using hcount
      | _ =>
          have hcount := hset htask rfl
          simpa [Taken.shuts, Taken.passes, htask, Task.isShutting] using hcount
  | receive h => simp [h.tasks, Taken.shuts, Taken.passes]
  | _ => simp [beginSend, Client.beginClose, note, Task.isShutting, Taken.shuts, Taken.passes]

/-- Nothing is put in flight again once the receiver has given all calls up. -/
theorem Effect.pending_eq_nil (h : Effect c move c')
    (hempty : c.board.registry.shutdown = true → c.board.registry.pending = [])
    (hshutdown : c'.board.registry.shutdown = true) : c'.board.registry.pending = [] := by
  have hregistry (heq : c'.board.registry = c.board.registry) :
      c'.board.registry.pending = [] := by
    rw [heq] at hshutdown ⊢
    exact hempty hshutdown
  have hremove {seq : UInt64} (heq : c'.board.registry = (c.board.registry.remove seq).2) :
      c'.board.registry.pending = [] := by
    rw [heq] at hshutdown ⊢
    rw [Registry.remove, hempty hshutdown]
    rfl
  cases h with
  | collect hpop =>
      obtain ⟨q, q', -, -, rfl⟩ := pop?_eq_some hpop
      exact hregistry rfl
  | send _ _ h =>
      cases h with
      | register havail =>
          simp [isAvailable, Registry.isAvailable] at havail
          simp [setTask, Registry.filed, havail.2] at hshutdown
      | withdraw => exact hremove rfl
      | finish hfinish => exact hregistry (registry_finish hfinish)
      | collect _ hpop =>
          obtain ⟨q, q', -, -, rfl⟩ := pop?_eq_some hpop
          exact hregistry rfl
      | _ => exact hregistry rfl
  | passOver _ havail => exact hempty hshutdown
  | closing _ h =>
      cases h with
      | begin => exact hempty hshutdown
      | _ => exact hregistry rfl
  | receive h =>
      generalize c.receiver = place at h
      cases h with
      | matchError => exact hremove rfl
      | matchReply => exact hremove rfl
      | finish hfinish => exact hregistry (registry_finish hfinish)
      | take => rfl
      | terminate hfinish =>
          have hsame := registry_finish hfinish
          exact hregistry hsame
      | _ => exact hregistry rfl
  | _ => exact hregistry rfl

/-- **A client that cannot make calls never can again.** -/
theorem Effect.isAvailable_eq_false (h : Effect c move c') (hno : c.isAvailable = false) :
    c'.isAvailable = false := by
  simp only [isAvailable, Registry.isAvailable, Bool.and_eq_false_imp, Bool.not_eq_eq_eq_not,
    Bool.not_true, Bool.not_false] at hno ⊢
  rw [h.closing_eq, h.shutdown_eq, Bool.or_eq_false_iff]
  rintro ⟨hclosing, -⟩
  rw [hno hclosing, Bool.true_or]

end Effects

/-! ## Counting -/

/-- How often what can happen once has happened. -/
structure Tally (steps : List (Taken σ ρ)) (c : Client σ ρ) : Prop where
  passes : steps.countP Taken.passes = c.board.registry.closing.toNat
  shuts : steps.countP Taken.shuts + c.tasks.countP Task.isShutting =
    c.board.registry.closing.toNat
  givesUp : steps.countP Taken.givesUp = c.receiver.hasTaken.toNat
  shutdown : c.board.registry.shutdown = c.receiver.hasTaken
  emptied : c.board.registry.shutdown = true → c.board.registry.pending = []

section Tally

variable {steps : List (Taken σ ρ)} {c c' : Client σ ρ} {move : Move ρ}

theorem tally_start (codec : Codec σ) (p : Preamble) (log : List Log.Entry)
    (order : Registry.Order) :
    Tally [] (start codec p log order : Client σ ρ) := by
  refine ⟨rfl, rfl, rfl, rfl, fun _ => rfl⟩

theorem closing_of_passes (h : Taken.passes ⟨c, move⟩ = true) :
    c.board.registry.closing = false := by
  unfold Taken.passes at h
  split at h
  · split at h
    · simpa using h
    · contradiction
  · contradiction

theorem hasTaken_of_givesUp (h : Taken.givesUp ⟨c, move⟩ = true) :
    c.receiver.hasTaken = false := by
  obtain ⟨-, f, hat⟩ := Taken.givesUp_eq_true_iff.mp h
  rw [hat]
  rfl

/-- One more step is counted if it is of the kind. -/
theorem countP_concat (P : Taken σ ρ → Bool) (s : Taken σ ρ) :
    (steps ++ [s]).countP P = steps.countP P + (P s).toNat := by
  rw [List.countP_append, List.countP_singleton]
  cases P s <;> rfl

theorem Tally.effect [ByteStream σ] (h : Tally steps c) (heffect : Effect c move c') :
    Tally (steps ++ [⟨c, move⟩]) c' := by
  have hpasses := heffect.closing_eq
  have hgives := heffect.hasTaken_eq
  refine ⟨?_, ?_, ?_, ?_, heffect.pending_eq_nil h.emptied⟩
  · rw [countP_concat, h.passes, hpasses]
    cases hp : Taken.passes ⟨c, move⟩ with
    | false => simp
    | true => simp [closing_of_passes hp]
  · have hcount := h.shuts
    have hshuts := heffect.shutting_eq
    rw [countP_concat, hpasses]
    cases hp : Taken.passes ⟨c, move⟩ with
    | false =>
        rw [hp] at hshuts
        simp only [Bool.or_false, Bool.toNat_false] at hshuts ⊢
        omega
    | true =>
        rw [closing_of_passes hp] at hcount
        rw [hp] at hshuts
        simp only [Bool.or_true, Bool.toNat_false, Bool.toNat_true] at hcount hshuts ⊢
        omega
  · rw [countP_concat, h.givesUp, hgives]
    cases hp : Taken.givesUp ⟨c, move⟩ with
    | false => simp
    | true => simp [hasTaken_of_givesUp hp]
  · rw [heffect.shutdown_eq, hgives, h.shutdown]

/-- Once the client has been closed, or all calls have been given up, it cannot make calls. -/
theorem Tally.isAvailable_eq_false (h : Tally steps c) {s : Taken σ ρ} (hs : s ∈ steps)
    (hset : s.passes = true ∨ s.givesUp = true) : c.isAvailable = false := by
  have hflag {P : Taken σ ρ → Bool} {flag : Bool} (hcount : steps.countP P = flag.toNat)
      (hP : P s = true) : flag = true := by
    have hpos : 0 < flag.toNat := hcount ▸ List.countP_pos_iff.mpr ⟨s, hs, hP⟩
    cases flag with
    | true => rfl
    | false => contradiction
  obtain hpasses | hgives := hset
  · simp [isAvailable, Registry.isAvailable, hflag h.passes hpasses]
  · simp [isAvailable, Registry.isAvailable, h.shutdown, hflag h.givesUp hgives]

/-- As long as a call is in flight, the receiver has not given the calls up. -/
theorem Tally.hasTaken_of_find? (h : Tally steps c) {seq : UInt64} {id : CallId}
    (hfind : c.board.registry.find? seq = some id) : c.receiver.hasTaken = false := by
  refine Bool.eq_false_iff.mpr fun htaken => ?_
  have hempty := h.emptied (h.shutdown.trans htaken)
  rw [Registry.find?, hempty] at hfind
  contradiction

end Tally

/-! ## Closing -/

section Close

variable [ByteStream σ] {c c' : Client σ ρ} {move : Move ρ} {t : TaskId} {drops : Bool}

/-- A thread that closes the client gets its outcome by closing the connection, or by being refused,
and keeps it. -/
theorem CloseChange.outcome {phase next : ClosePhase} (h : CloseChange c t drops phase c')
    (hnext : c'.tasks[t]? = some (.close drops next)) (hlt : t < c.tasks.length) :
    (phase = .shutting ∧ next.status? = some (c.codec.close.2.elim {} closeFailure)) ∨
    (phase = .entering ∧ (next.status? = none ∨ next.status? = some .unavailable)) ∨
    (phase ≠ .shutting ∧ next.status? = phase.status?) := by
  cases h <;>
  · simp only [setTask, note, List.getElem?_set_self hlt, Option.some.injEq, Task.close.injEq,
      true_and] at hnext
    subst hnext
    simp [ClosePhase.status?]

/-- A thread that closes the client leaves the connection alone, but for the step in which it
closes it. -/
theorem CloseChange.codec_eq {phase : ClosePhase} (h : CloseChange c t drops phase c')
    (hphase : phase ≠ .shutting) : c'.codec = c.codec := by
  cases h with
  | shut => exact absurd rfl hphase
  | _ => rfl

/-- What has come of a close: it has closed the connection and has the outcome of that, or it has
not and can only be refused. -/
def Outcome (steps : List (Taken σ ρ)) (t : TaskId) (phase : ClosePhase) : Prop :=
  (∃ s ∈ steps, s.move = .task t ∧ s.shuts = true ∧
    phase.status? = some (s.before.codec.close.2.elim {} closeFailure)) ∨
  ((∀ s ∈ steps, s.move = .task t → s.shuts = false) ∧
    (phase.status? = none ∨ phase.status? = some .unavailable))

/-- A step in which the thread does not close the connection leaves what has come of its close. -/
theorem Outcome.keep {steps : List (Taken σ ρ)} {phase next : ClosePhase} {s : Taken σ ρ}
    (h : Outcome steps t phase) (hlast : s.move = .task t → s.shuts = false)
    (hstatus : next.status? = phase.status?) : Outcome (steps ++ [s]) t next := by
  rw [Outcome, hstatus]
  obtain ⟨s', hs', hclosed⟩ | ⟨hbefore, hnone⟩ := h
  · exact .inl ⟨s', List.mem_append_left _ hs', hclosed⟩
  · refine .inr ⟨fun s' hs' hmove => ?_, hnone⟩
    obtain hold | hnew := List.mem_append.mp hs'
    · exact hbefore s' hold hmove
    · rw [List.mem_singleton] at hnew
      subst hnew
      exact hlast hmove

/-- A thread that begins to close the client is about to enter. -/
theorem Effect.entering_of_begun (h : Effect c move c') {phase : ClosePhase}
    (htask : c'.tasks[t]? = some (.close drops phase)) (hnew : ¬ t < c.tasks.length) :
    phase = .entering := by
  obtain ⟨-, ⟨r, capacity, waits, -, heq, -⟩ | ⟨r, queue, -, heq, -⟩ | ⟨_, -, heq, -⟩⟩ :=
    h.begun htask (Nat.not_lt.mp hnew)
  · contradiction
  · contradiction
  · exact (Task.close.inj heq).2

end Close

section Walks

variable [ByteStream σ] {outside : σ → σ → Prop} {codec : Codec σ} {p : Preamble}
  {log : List Log.Entry} {order : Registry.Order} {steps : List (Taken σ ρ)} {c : Client σ ρ}

theorem Walk.tally (walk : Walk outside (Client.start codec p log order) steps c) : Tally steps c :=
  (walk.induct (P := Tally) (holding_start codec p log order) (tally_start codec p log order)
    (fun _ _ h heffect => h.effect heffect)
    fun _ h => ⟨h.passes, h.shuts, h.givesUp, h.shutdown, h.emptied⟩).2

/-- Only tasks that have been begun take steps. -/
theorem Walk.known (walk : Walk outside (Client.start codec p log order) steps c) {s : Taken σ ρ}
    (hs : s ∈ steps) {t : TaskId} (hmove : s.move = .task t) : t < c.tasks.length := by
  induction walk with
  | start => contradiction
  | outside _ _ _ ih => exact ih hs
  | @step _ c _ walk move h ih =>
      have heffect := effect_of_step walk.holding.readsReply h
      refine Nat.lt_of_lt_of_le ?_ heffect.length_tasks_le
      obtain hbefore | rfl := List.mem_append.mp hs |>.imp_right List.mem_singleton.mp
      · exact ih hbefore
      · subst hmove
        refine Nat.lt_of_not_le fun hge => ?_
        simp [Client.step, stepTask, List.getElem?_eq_none hge] at h

/-- The client is closing as soon as a close has entered. -/
theorem Walk.closing (walk : Walk outside (Client.start codec p log order) steps c) {t : TaskId}
    {drops : Bool} {phase : ClosePhase} (htask : c.tasks[t]? = some (.close drops phase))
    (hphase : phase ≠ .entering) : c.board.registry.closing = true := by
  induction walk generalizing phase with
  | start => simp [Client.start] at htask
  | outside _ _ _ ih => exact ih htask hphase
  | @step _ c _ walk move h ih =>
      have heffect := effect_of_step walk.holding.readsReply h
      have hkept (hclosing : c.board.registry.closing = true) := heffect.closing_eq.trans
        (by rw [hclosing, Bool.true_or])
      by_cases hlt : t < c.tasks.length
      · obtain ⟨before, hbefore⟩ := heffect.exists_close hlt htask
        by_cases hmove : move = .task t
        · subst hmove
          have hchange := heffect.of_close hbefore
          by_cases hentering : before = .entering
          · subst hentering
            cases hchange with
            | begin => rfl
            | refuse hclosing => exact hclosing
          · exact hkept (ih hbefore hentering)
        · rw [heffect.task_eq hmove hlt] at htask
          exact hkept (ih htask hphase)
      · exact absurd (heffect.entering_of_begun htask hlt) hphase

/-- A thread that has dropped the client has waited for the receiver. -/
theorem Walk.exited (walk : Walk outside (Client.start codec p log order) steps c) {t : TaskId}
    {status : Status} (htask : c.tasks[t]? = some (.close true (.returned status))) :
    c.receiver = .exited := by
  induction walk with
  | start => simp [Client.start] at htask
  | outside _ _ _ ih => exact ih htask
  | @step _ c c' walk move h ih =>
      have heffect := effect_of_step walk.holding.readsReply h
      have hkept (hexited : c.receiver = .exited) : c'.receiver = .exited := by
        by_cases hmove : move = .receive
        · subst hmove
          simp [Client.step, stepReceiver, hexited] at h
        · rw [heffect.receiver_eq hmove, hexited]
      by_cases hlt : t < c.tasks.length
      · obtain ⟨before, hbefore⟩ := heffect.exists_close hlt htask
        by_cases hmove : move = .task t
        · subst hmove
          have hchange := heffect.of_close hbefore
          have hreceiver := hchange.receiver_eq
          cases hchange with
          | join hexited => exact hexited
          | _ => simp_all [setTask, note]
        · rw [heffect.task_eq hmove hlt] at htask
          exact hkept (ih htask)
      · exact ClosePhase.noConfusion (heffect.entering_of_begun htask hlt)

/-- What has come of a close is known. -/
theorem Walk.outcome (walk : Walk outside (Client.start codec p log order) steps c) {t : TaskId}
    {drops : Bool} {phase : ClosePhase} (htask : c.tasks[t]? = some (.close drops phase)) :
    Outcome steps t phase := by
  induction walk generalizing phase with
  | start => simp [Client.start] at htask
  | outside _ _ _ ih => exact ih htask
  | @step steps c c' walk move h ih =>
      have heffect := effect_of_step walk.holding.readsReply h
      by_cases hlt : t < c.tasks.length
      · obtain ⟨before, hbefore⟩ := heffect.exists_close hlt htask
        by_cases hmove : move = .task t
        · subst hmove
          have hshuts : Taken.shuts ⟨c, .task t⟩ = (Task.close drops before).isShutting := by
            simp [Taken.shuts, hbefore]
          obtain ⟨rfl, hstatus⟩ | ⟨rfl, hstatus⟩ | ⟨hnot, hstatus⟩ :=
            (heffect.of_close hbefore).outcome htask hlt
          · exact .inl ⟨⟨c, .task t⟩, by simp, rfl, hshuts, hstatus⟩
          · obtain ⟨s, hs, -, -, hnone⟩ | ⟨hbefore, -⟩ := ih hbefore
            · contradiction
            · exact .inr ⟨fun s hs hmove => (List.mem_append.mp hs).elim
                (hbefore s · hmove) fun hlast => List.mem_singleton.mp hlast ▸ hshuts, hstatus⟩
          · refine (ih hbefore).keep (fun _ => hshuts.trans ?_) hstatus
            cases before <;> first | rfl | contradiction
        · rw [heffect.task_eq hmove hlt] at htask
          exact (ih htask).keep (fun heq => absurd heq hmove) rfl
      · obtain rfl := heffect.entering_of_begun htask hlt
        refine .inr ⟨fun s hs hmove => ?_, .inl rfl⟩
        obtain hold | hlast := List.mem_append.mp hs
        · exact absurd (walk.known hold hmove) hlt
        · rw [List.mem_singleton] at hlast
          subst hlast
          obtain rfl : move = .task t := hmove
          simp [Taken.shuts, List.getElem?_eq_none (Nat.not_lt.mp hlt)]

/-- A task that is gone takes no steps. -/
theorem Effect.not_hasReturned {c c' : Client σ ρ} {t : TaskId} {task : Task}
    (h : Effect c (.task t) c') (htask : c.tasks[t]? = some task) :
    ¬ task.hasReturned = true := by
  intro hreturned
  cases task with
  | send id waits phase =>
      obtain ⟨call, events, -, hchange⟩ | ⟨rfl, -⟩ := h.of_send htask
      · cases hchange <;> contradiction
      · contradiction
  | close drops phase =>
      have hchange := h.of_close htask
      cases hchange <;> contradiction

/-- A task is only begun in a move that begins one. -/
theorem Effect.opens_of_begun {c c' : Client σ ρ} {move : Move ρ} {t : TaskId} {task : Task}
    (h : Effect c move c') (htask : c'.tasks[t]? = some task) (hnew : ¬ t < c.tasks.length) :
    move.opens = true := by
  obtain ⟨-, ⟨r, capacity, waits, halone, -⟩ | ⟨r, queue, rfl, -⟩ | ⟨drops, rfl, -⟩⟩ :=
    h.begun htask (Nat.not_lt.mp hnew)
  · unfold Move.alone? at halone
    split at halone <;> first | rfl | contradiction
  · rfl
  · rfl

omit [ByteStream σ] in
/-- In an orderly history, whoever has dropped the client is followed by nobody. -/
theorem orderly_concat {s : Taken σ ρ} : orderly (steps ++ [s]) = true ↔
    orderly steps = true ∧
      (s.move.drops = true → ∀ task ∈ s.before.tasks, task.hasReturned = true) ∧
      (s.move.opens = true → ∀ s' ∈ steps, s'.move.drops = false) := by
  induction steps with
  | nil => cases hdrops : s.move.drops <;> simp [orderly, hdrops]
  | cons first steps ih =>
      rw [List.cons_append, orderly, orderly, Bool.and_eq_true, ih, Bool.and_eq_true]
      cases hdrops : first.move.drops <;> cases hopens : s.move.opens <;>
        simp [hdrops, hopens, and_assoc]

/-- When the client is dropped in an orderly way, all other tasks are gone and stay so. -/
theorem Walk.alone (walk : Walk outside (Client.start codec p log order) steps c)
    (horderly : orderly steps = true) {t : TaskId} {phase : ClosePhase}
    (htask : c.tasks[t]? = some (.close true phase)) :
    (∃ s ∈ steps, s.move.drops = true) ∧
      ∀ t' task, t' ≠ t → c.tasks[t']? = some task → task.hasReturned = true := by
  induction walk generalizing phase with
  | start => simp [Client.start] at htask
  | outside _ _ _ ih => exact ih horderly htask
  | @step steps c c' walk move h ih =>
      have heffect := effect_of_step walk.holding.readsReply h
      obtain ⟨hbefore, hlast, hopens⟩ := orderly_concat.mp horderly
      have hstill {t' : TaskId} {task : Task} (hlt : t' < c.tasks.length)
          (htask' : c'.tasks[t']? = some task)
          (hgone : ∀ old, c.tasks[t']? = some old → old.hasReturned = true) :
          task.hasReturned = true := by
        have hold : c.tasks[t']? = some c.tasks[t'] := List.getElem?_eq_getElem hlt
        have hmove : move ≠ .task t' := by
          rintro rfl
          exact heffect.not_hasReturned hold (hgone _ hold)
        exact hgone task ((heffect.task_eq hmove hlt).symm.trans htask')
      by_cases hlt : t < c.tasks.length
      · obtain ⟨before, hold⟩ := heffect.exists_close hlt htask
        obtain ⟨⟨s, hs, hdrops⟩, hothers⟩ := ih hbefore hold
        refine ⟨⟨s, List.mem_append_left _ hs, hdrops⟩, fun t' task hne htask' => ?_⟩
        by_cases hlt' : t' < c.tasks.length
        · exact hstill hlt' htask' fun old => hothers t' old hne
        · have hnone := hopens (heffect.opens_of_begun htask' hlt') s hs
          rw [hdrops] at hnone
          contradiction
      · obtain ⟨rfl, ⟨r, capacity, waits, -, heq, -⟩ | ⟨r, queue, -, heq, -⟩ |
          ⟨drops, rfl, heq, -⟩⟩ := heffect.begun htask (Nat.not_lt.mp hlt)
        · contradiction
        · contradiction
        · obtain ⟨rfl, -⟩ := Task.close.inj heq
          refine ⟨⟨⟨c, .close true⟩, by simp, rfl⟩, fun t' task hne htask' => ?_⟩
          by_cases hlt' : t' < c.tasks.length
          · exact hstill hlt' htask' fun old hold => hlast rfl old (List.mem_of_getElem? hold)
          · exact absurd (heffect.begun htask' (Nat.not_lt.mp hlt')).1 hne

end Walks

/-! ## Calls that are turned away -/

/-- How far a thread has come whose call is turned away, and what has become of the call: its
request is never on its way. -/
inductive Refusal (id : CallId) (call : Call ρ) : SendPhase → Prop where
  | entering : Refusal id call .entering
  | registering : Refusal id call .registering
  | finishing (herror : call.error = .unavailable) : Refusal id call (.finishing id)
  | leaving (herror : call.error = .unavailable) (hfinished : call.finished = true) :
      Refusal id call .leaving
  | collecting (herror : call.error = .unavailable) (hfinished : call.finished = true) :
      Refusal id call .collecting
  | returned (collected : Option CallId) (herror : call.error = .unavailable)
      (hfinished : call.finished = true) : Refusal id call (.returned collected)

section Refusal

variable [ByteStream σ] {c c' : Client σ ρ} {move : Move ρ} {t : TaskId} {id : CallId}
  {waits : Bool} {phase : SendPhase} {call : Call ρ}

/-- A thread whose call is turned away goes on with that, and leaves connection and registry as they
are. -/
theorem Refusal.turn (h : Refusal id call phase) (hno : c.isAvailable = false)
    (heffect : Effect c (.task t) c') (htask : c.tasks[t]? = some (.send id waits phase))
    (hcall : c.board.call? id = some call) :
    c'.codec = c.codec ∧ c'.board.registry = c.board.registry ∧
      ∃ next call', c'.tasks[t]? = some (.send id waits next) ∧
        c'.board.call? id = some call' ∧ call'.seq = call.seq ∧ Refusal id call' next := by
  have hlt := (List.getElem?_eq_some_iff.mp htask).1
  obtain ⟨call₀, events, hcall₀, hchange⟩ | ⟨-, havail, -⟩ := heffect.of_send htask
  · obtain rfl := Option.some.inj (hcall.symm.trans hcall₀)
    cases h with
    | entering =>
        cases hchange
        exact ⟨rfl, rfl, _, call, List.getElem?_set_self hlt, hcall, rfl, .registering⟩
    | registering =>
        cases hchange with
        | register havail =>
            rw [hno] at havail
            contradiction
        | refuse =>
            exact ⟨rfl, rfl, _, _, List.getElem?_set_self hlt, call?_modifyCall_self hcall _, rfl,
              .finishing rfl⟩
    | finishing herror =>
        cases hchange with
        | finish hfinish =>
            obtain ⟨_, queue, q, hmine, -, -, -, -, rfl⟩ := finish_delivered hfinish
            refine ⟨rfl, rfl, _, { call with finished := true }, List.getElem?_set_self hlt, ?_,
              rfl, .leaving herror rfl⟩
            simp only [setTask_board, call?_delivered, if_true, hcall, Option.map_some]
    | leaving herror hfinished =>
        cases hchange
        refine ⟨rfl, rfl, _, call, List.getElem?_set_self hlt, hcall, rfl, ?_⟩
        cases waits
        · exact .returned none herror hfinished
        · exact .collecting herror hfinished
    | collecting herror hfinished =>
        cases hchange with
        | collect hqueue hpop =>
            obtain ⟨q, q', -, -, rfl⟩ := pop?_eq_some hpop
            exact ⟨rfl, rfl, _, call, List.getElem?_set_self hlt, hcall, rfl,
              .returned _ herror hfinished⟩
    | returned => cases hchange
  · rw [hno] at havail
    contradiction

omit [ByteStream σ] in
/-- A call that is being turned away is out of reach for everyone else. -/
theorem Refusal.not_mem_reach (h : Refusal id call phase) (hholding : c.Holding)
    (htask : c.tasks[t]? = some (.send id waits phase)) (hcall : c.board.call? id = some call)
    (hmove : move ≠ .task t) : id ∉ c.reach move := by
  cases h with
  | entering => exact hholding.not_mem_reach_of_task htask rfl hmove
  | registering => exact hholding.not_mem_reach_of_task htask rfl hmove
  | finishing => exact hholding.not_mem_reach_of_task htask rfl hmove
  | leaving _ hfinished => exact hholding.not_mem_reach_of_finished hcall hfinished
  | collecting _ hfinished => exact hholding.not_mem_reach_of_finished hcall hfinished
  | returned _ _ hfinished => exact hholding.not_mem_reach_of_finished hcall hfinished

/-- A call goes on being turned away until it is finished, whatever anyone does. -/
theorem Walk.refusal {outside : σ → σ → Prop} {later : List (Taken σ ρ)}
    (walk : Walk outside c later c') (hholding : c.Holding) (hno : c.isAvailable = false)
    (h : Refusal id call phase) (htask : c.tasks[t]? = some (.send id waits phase))
    (hcall : c.board.call? id = some call) :
    c'.Holding ∧ c'.isAvailable = false ∧
      ∃ next call', c'.tasks[t]? = some (.send id waits next) ∧
        c'.board.call? id = some call' ∧ call'.seq = call.seq ∧ Refusal id call' next := by
  refine walk.induct (P := fun _ c' => c'.isAvailable = false ∧
    ∃ next call', c'.tasks[t]? = some (.send id waits next) ∧
      c'.board.call? id = some call' ∧ call'.seq = call.seq ∧ Refusal id call' next)
    hholding ⟨hno, phase, call, htask, hcall, rfl, h⟩ ?_ fun _ h => h
  rintro steps c c' move hholding ⟨hno, phase, call', htask, hcall, hseq, h⟩ heffect
  refine ⟨heffect.isAvailable_eq_false hno, ?_⟩
  by_cases hmove : move = .task t
  · subst hmove
    obtain ⟨-, -, next, call'', htask', hcall', hsame, h'⟩ := h.turn hno heffect htask hcall
    exact ⟨next, call'', htask', hcall', hsame.trans hseq, h'⟩
  · have hlt := (List.getElem?_eq_some_iff.mp htask).1
    have hid := (List.getElem?_eq_some_iff.mp hcall).1
    refine ⟨phase, call', (heffect.task_eq hmove hlt).trans htask, ?_, hseq, h⟩
    exact (heffect.call?_eq (h.not_mem_reach hholding htask hcall hmove) hid).trans hcall

end Refusal

/-! ## Every walk -/

section All

variable [ByteStream σ] {outside : σ → σ → Prop} {codec : Codec σ} {p : Preamble}
  {log : List Log.Entry} {order : Registry.Order} {steps : List (Taken σ ρ)} {c : Client σ ρ}

/-- A thread enters once. -/
theorem SendChange.ne_entering {c' : Client σ ρ} {t : TaskId} {id : CallId} {call : Call ρ}
    {waits : Bool} {phase : SendPhase} {events : List (Event ρ)}
    (h : SendChange c t id call waits phase events c') (hlt : t < c.tasks.length) :
    c'.tasks[t]? ≠ some (.send id waits .entering) := by
  cases h with
  | leave => cases waits <;> simp [setTask, List.getElem?_set_self hlt]
  | _ => simp [setTask, note, List.getElem?_set_self hlt]

/-- A call has no number before its thread enters. -/
theorem Walk.seq_eq_zero (walk : Walk outside (Client.start codec p log order) steps c) {t : TaskId}
    {id : CallId} {waits : Bool} {call : Call ρ}
    (htask : c.tasks[t]? = some (.send id waits .entering))
    (hcall : c.board.call? id = some call) : call.seq = 0 := by
  induction walk generalizing call with
  | start => simp [Client.start] at htask
  | outside _ _ _ ih => exact ih htask hcall
  | @step _ c c' walk move h ih =>
      have heffect := effect_of_step walk.holding.readsReply h
      by_cases hlt : t < c.tasks.length
      · obtain ⟨phase, hold⟩ := heffect.exists_send hlt htask
        have hmove : move ≠ .task t := by
          rintro rfl
          obtain ⟨_, _, -, hchange⟩ | ⟨-, -, -, rfl⟩ := heffect.of_send hold
          · exact hchange.ne_entering hlt htask
          · simp [setTask, List.getElem?_set_self hlt] at htask
        rw [heffect.task_eq hmove hlt] at htask
        obtain ⟨before, hbefore⟩ := walk.locked.exists_call htask
        have hid := (List.getElem?_eq_some_iff.mp hbefore).1
        rw [heffect.call?_eq (walk.holding.not_mem_reach_of_task htask rfl hmove) hid] at hcall
        exact ih htask hcall
      · have hlast (board : Board ρ) {r : Request ρ} {queue : QueueId}
            (hlen : board.calls.length = c.board.calls.length)
            (hid : id = c.board.calls.length)
            (hboard : c'.board = (board.addCall (r.toCall queue)).1) : call.seq = 0 := by
          have hnew : c'.board.call? id = some (r.toCall queue) := by
            rw [hboard, hid, ← hlen]
            exact List.getElem?_concat_length
          rw [← Option.some.inj (hnew.symm.trans hcall)]
          rfl
        obtain ⟨-, ⟨r, capacity, _, -, heq, hboard⟩ | ⟨r, queue, -, heq, hboard⟩ |
          ⟨drops, -, heq, -⟩⟩ := heffect.begun htask (Nat.not_lt.mp hlt)
        · exact hlast (c.board.addQueue capacity).1 rfl (Task.send.inj heq).1 hboard
        · exact hlast c.board rfl (Task.send.inj heq).1 hboard
        · contradiction

/-- **How a client is closed and ends.**  One close at most gets past the registry, and one closes
the connection; the others are refused and leave the connection alone.  Once a close has got past
the registry, or the receiver has given all calls up, the client cannot make calls, and never can
again.  A call whose thread enters only then is turned away: its thread writes nothing, takes no
number and leaves the registry as it is, and when it is gone the call is finished as unavailable,
without a number.  The receiver gives all calls up once, after its loop.  Whoever has dropped the
client leaves no receiver and no call in flight, and the connection closed once if nobody else was
using the client. -/
theorem closed_once_and_for_all (walk : Walk outside (start codec p log order) steps c) :
    (steps.countP Taken.passes ≤ 1 ∧ steps.countP Taken.shuts ≤ steps.countP Taken.passes) ∧
    (∀ t drops phase status, c.tasks[t]? = some (.close drops phase) →
      phase.status? = some status →
      (∃ s ∈ steps, s.move = .task t ∧ s.shuts = true ∧
        status = s.before.codec.close.2.elim {} fun f =>
          { code := .connectionFailure
            message := .ofText "closing connection"
            details := f.message }) ∨
      (status = { code := .unavailable, message := .ofText "connection has been shut down" } ∧
        ∀ s ∈ steps, s.move = .task t → s.shuts = false)) ∧
    (∀ t drops phase c', c.tasks[t]? = some (.close drops phase) → phase ≠ .shutting →
      c.step (.task t) = .moved c' → c'.codec = c.codec) ∧
    (∀ s ∈ steps, s.passes = true ∨ s.givesUp = true → c.isAvailable = false) ∧
    (∀ later c', c.isAvailable = false → Walk outside c later c' → c'.isAvailable = false) ∧
    (∀ t id waits later c', c.isAvailable = false →
      c.tasks[t]? = some (.send id waits .entering) → Walk outside c later c' →
      ∃ phase call, c'.tasks[t]? = some (.send id waits phase) ∧
        c'.board.call? id = some call ∧ call.seq = 0 ∧ Refusal id call phase ∧
        ∀ c'', c'.step (.task t) = .moved c'' →
          c''.codec = c'.codec ∧ c''.board.registry = c'.board.registry) ∧
    (c.receiver.isLooping = true → steps.countP Taken.givesUp = 0) ∧
    (c.receiver = .exited → steps.countP Taken.givesUp = 1) ∧
    (∀ (t : TaskId) (status : Status), c.tasks[t]? = some (.close true (.returned status)) →
      c.receiver = .exited ∧ c.board.registry.pending = [] ∧
      (orderly steps = true → steps.countP Taken.shuts = 1)) := by
  have htally := walk.tally
  refine ⟨⟨?_, ?_⟩, fun t drops phase status htask hstatus => ?_,
    fun t drops phase c' htask hphase h => ?_, fun s hs hset => htally.isAvailable_eq_false hs hset,
    fun later c' hno more => ?_, fun t id waits later c' hno htask more => ?_,
    fun hlooping => ?_, fun hexited => ?_, fun t status htask => ?_⟩
  · rw [htally.passes]
    exact Bool.toNat_le _
  · rw [htally.passes]
    exact Nat.le.intro htally.shuts
  · obtain ⟨s, hs, hmove, hshuts, heq⟩ | ⟨hnever, hnone | hrefused⟩ := walk.outcome htask
    · exact .inl ⟨s, hs, hmove, hshuts, Option.some.inj (hstatus.symm.trans heq)⟩
    · rw [hstatus] at hnone
      contradiction
    · exact .inr ⟨Option.some.inj (hstatus.symm.trans hrefused), hnever⟩
  · exact ((effect_of_step walk.holding.readsReply h).of_close htask).codec_eq hphase
  · exact (more.induct (P := fun _ c' => c'.isAvailable = false) walk.holding hno
      (fun _ _ hno heffect => heffect.isAvailable_eq_false hno) fun _ hno => hno).2
  · obtain ⟨call, hcall⟩ := walk.locked.exists_call htask
    obtain ⟨hholding, hno', phase, call', htask', hcall', hseq, hrefusal⟩ :=
      more.refusal walk.holding hno .entering htask hcall
    refine ⟨phase, call', htask', hcall', hseq.trans (walk.seq_eq_zero htask hcall), hrefusal,
      fun c'' h => ?_⟩
    obtain ⟨hcodec, hregistry, -⟩ :=
      hrefusal.turn hno' (effect_of_step hholding.readsReply h) htask' hcall'
    exact ⟨hcodec, hregistry⟩
  · rw [htally.givesUp]
    generalize c.receiver = place at hlooping
    cases place <;> first | rfl | contradiction
  · rw [htally.givesUp, hexited]
    rfl
  · have hexited := walk.exited htask
    refine ⟨hexited, htally.emptied ?_, fun horderly => ?_⟩
    · rw [htally.shutdown, hexited]
      rfl
    · have hnobody : c.tasks.countP Task.isShutting = 0 := by
        rw [List.countP_eq_zero]
        intro task hmem hshutting
        obtain ⟨t', htask'⟩ := List.mem_iff_getElem?.mp hmem
        by_cases hsame : t' = t
        · subst hsame
          rw [Option.some.inj (htask'.symm.trans htask)] at hshutting
          contradiction
        · have hgone := (walk.alone horderly htask).2 t' task hsame htask'
          cases task with
          | send => contradiction
          | close _ phase => cases phase <;> contradiction
      have hshuts := htally.shuts
      rw [hnobody, walk.closing htask ClosePhase.noConfusion] at hshuts
      exact hshuts

/-- A client is closed, a call is turned away, and the client is dropped. -/
theorem closed_once_and_for_all_one_call :
    ∃ (steps later : List (Taken MemoryStream Unit)) (c c' : Client MemoryStream Unit),
      Walk (fun _ _ => True) (start { stream := {} } {} []) steps c ∧ c.isAvailable = false ∧
      Walk (fun _ _ => True) c later c' ∧
      (∃ call, c'.board.call? 0 = some call ∧ call.seq = 0 ∧ call.finished = true ∧
        call.error = .unavailable) ∧
      c'.receiver = .exited ∧ c'.board.registry.pending = [] ∧
      (steps ++ later).countP Taken.shuts = 1 ∧ (steps ++ later).countP Taken.givesUp = 1 := by
  have hcourse : ∃ (steps later : List (Taken MemoryStream Unit))
      (c c' : Client MemoryStream Unit),
      (start { stream := {} } {} []).course
        [.close false, .task 0, .task 0, .task 0, .go { reply := () } none] = some (steps, c) ∧
      c.course [.task 1, .task 1, .task 1, .task 1, .receive, .receive, .receive, .receive,
        .receive, .receive, .close true, .task 2, .task 2, .task 2] = some (later, c') ∧
      c.isAvailable = false ∧ c.tasks[1]? = some (.send 0 false .entering) ∧
      c'.tasks[1]? = some (.send 0 false (.returned none)) ∧
      c'.tasks[2]? = some (.close true (.returned .unavailable)) ∧
      orderly (steps ++ later) = true :=
    ⟨_, _, _, _, rfl, rfl, by decide +kernel, by decide +kernel, by decide +kernel,
      by decide +kernel, by decide +kernel⟩
  obtain ⟨steps, later, c, c', hcourse, hlater, hno, htask, hreturned, hdropped, horderly⟩ :=
    hcourse
  have walk : Walk (fun _ _ => True) _ _ c := Walk.start.course hcourse
  rw [List.nil_append] at walk
  have more : Walk (fun _ _ => True) c later c' := Walk.start.course hlater
  obtain ⟨-, -, -, -, -, hrefused, -⟩ := closed_once_and_for_all walk
  obtain ⟨phase, call, htask', hcall, hseq, hrefusal, -⟩ :=
    hrefused 1 0 false later c' hno htask more
  obtain ⟨-, -, -, -, -, -, -, hgives, hdrops⟩ := closed_once_and_for_all (walk.trans more)
  obtain ⟨hexited, hempty, honce⟩ := hdrops 2 _ hdropped
  obtain rfl : phase = .returned none := by simpa using htask'.symm.trans hreturned
  obtain ⟨herror, hfinished⟩ : call.error = .unavailable ∧ call.finished = true := by
    cases hrefusal with
    | returned _ herror hfinished => exact ⟨herror, hfinished⟩
  exact ⟨steps, later, c, c', walk, hno, more, ⟨call, hcall, hseq, hfinished, herror⟩, hexited,
    hempty, honce horderly, hgives hexited⟩

end All

end Client

end RemoteCalls
