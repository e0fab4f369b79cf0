import RemoteCalls.Proofs.Board.Sparing
import RemoteCalls.Proofs.Client.Holding

/-!
# RemoteCalls.Proofs.Client.Sparing

What a client would be like if one of its calls had only been begun.

A client is `Spared` a call if it differs from another in that this call is as it
was made and its thread stands where it began.  All other parties can take their
steps in it as well (`Spared.step`), and the same happens in them
(`Spared.observe_eq`): nobody depends on what becomes of a call of someone else.
-/

namespace RemoteCalls

/-- A call that a thread sends: the thread, the call, and the call as it was made. -/
structure Attempt (ρ : Type) where
  task : TaskId
  id : CallId
  made : Call ρ

/-- Whether a task goes by what is in the shared header. -/
def Task.usesHeader : Task → Bool
  | .send _ _ .writing => true
  | .send _ _ (.withdrawing _) => true
  | _ => false

/-- Whoever goes by the header is past the send lock. -/
theorem Task.isInside_of_usesHeader (task : Task) (h : task.usesHeader = true) :
    task.isInside = true := by
  unfold Task.usesHeader at h
  split at h
  · rfl
  · rfl
  · contradiction

namespace Client

open Board

variable {σ ρ : Type}

/-! ## Clients -/

/-- The call that is collected in a move, if any. -/
def collects? (c : Client σ ρ) (move : Move ρ) : Option CallId :=
  (c.collectsFrom? move).bind fun queue => (c.board.pop? queue).map (·.1)

/-- The client with a call that has only been begun, another header and another log. -/
def sparing (c : Client σ ρ) (a : Attempt ρ) (header : Header) (log : List Log.Entry) :
    Client σ ρ :=
  { c with
    board := c.board.sparing a.id a.made
    lock := if c.lock = some (.task a.task) then none else c.lock
    header
    tasks := c.tasks.set a.task (.send a.id false .entering)
    log }

/-- Whoever else goes by the shared header would find the same in this one. -/
def Agrees (c : Client σ ρ) (a : Attempt ρ) (header : Header) : Prop :=
  ∀ (t : TaskId) task, t ≠ a.task → c.tasks[t]? = some task → task.usesHeader = true →
    header = c.header

/-- A client that differs from another in that a call has only been begun, in what nobody else goes
by, and in that less is logged. -/
inductive Spared (a : Attempt ρ) (c : Client σ ρ) : Client σ ρ → Prop where
  | intro {header : Header} {log : List Log.Entry} (hlog : log.Sublist c.log)
      (hheader : c.Agrees a header) : Spared a c (c.sparing a header log)

section Sparing

variable {c c' : Client σ ρ} {a : Attempt ρ} {header : Header} {log : List Log.Entry} {t : TaskId}
  {task next : Task}

@[simp] theorem board_sparing :
    (c.sparing a header log).board = c.board.sparing a.id a.made := rfl

@[simp] theorem header_sparing : (c.sparing a header log).header = header := rfl

@[simp] theorem order_sparing : (c.sparing a header log).order = c.order := rfl

@[simp] theorem receiver_sparing : (c.sparing a header log).receiver = c.receiver := rfl

@[simp] theorem codec_sparing : (c.sparing a header log).codec = c.codec := rfl

theorem tasks_sparing (hne : t ≠ a.task) :
    (c.sparing a header log).tasks[t]? = c.tasks[t]? :=
  List.getElem?_set_ne hne.symm

theorem sparing_setTask (hne : t ≠ a.task) (next : Task) :
    (c.setTask t next).sparing a header log = (c.sparing a header log).setTask t next :=
  congrArg (fun tasks => ({ c.sparing a header log with tasks } : Client σ ρ))
    (List.set_comm _ _ hne)

/-- What its own thread does is undone. -/
theorem sparing_setTask_self (next : Task) :
    (c.setTask a.task next).sparing a header log = c.sparing a header log :=
  congrArg (fun tasks => ({ c.sparing a header log with tasks } : Client σ ρ)) (List.set_set ..)

/-- A board that has changed only in what is spared. -/
theorem sparing_withBoard {b : Board ρ}
    (h : b.sparing a.id a.made = c.board.sparing a.id a.made) :
    Client.sparing { c with board := b } a header log = c.sparing a header log :=
  congrArg (fun board => ({ c.sparing a header log with board } : Client σ ρ)) h

theorem lock_sparing (h : c.lock = none) : (c.sparing a header log).lock = none := by
  simp only [sparing, h]
  rfl

theorem sparing_withLock {lock : Option Holder} (hne : lock ≠ some (.task a.task)) :
    ({ c with lock } : Client σ ρ).sparing a header log =
      { c.sparing a header log with lock } := by
  simp only [sparing, if_neg hne]

theorem Agrees.congr (h : c.Agrees a header) (htasks : c'.tasks = c.tasks)
    (hheader : c'.header = c.header) : c'.Agrees a header := by
  intro t task hne htask huses
  rw [hheader]
  exact h t task hne (htasks ▸ htask) huses

/-- A task that goes on, but not with the header. -/
theorem Agrees.setTask (h : c.Agrees a header) (hnext : next.usesHeader = false)
    (htasks : c'.tasks = c.tasks.set t next) (hheader : c'.header = c.header) :
    c'.Agrees a header := by
  intro t' task hne htask huses
  rw [htasks, List.getElem?_set] at htask
  split at htask
  case isTrue =>
    split at htask
    · rw [← Option.some.inj htask, hnext] at huses
      contradiction
    · contradiction
  case isFalse =>
    rw [hheader]
    exact h t' task hne htask huses

/-- A task that is begun has nothing to do with the header. -/
theorem Agrees.append (h : c.Agrees a header) (hnext : next.usesHeader = false)
    (htasks : c'.tasks = c.tasks ++ [next]) (hheader : c'.header = c.header) :
    c'.Agrees a header := by
  intro t' task hne htask huses
  rw [htasks, List.getElem?_append] at htask
  split at htask
  case isTrue =>
    rw [hheader]
    exact h t' task hne htask huses
  case isFalse =>
    rw [List.getElem?_singleton] at htask
    split at htask
    · rw [← Option.some.inj htask, hnext] at huses
      contradiction
    · contradiction

/-- Where the thread itself stands is of no matter. -/
theorem Agrees.setTask_self (h : c.Agrees a header) (next : Task) :
    (c.setTask a.task next).Agrees a header := by
  intro t task hne htask huses
  have hsame : (c.tasks.set a.task next)[t]? = c.tasks[t]? := List.getElem?_set_ne hne.symm
  exact h t task hne (hsame.symm.trans htask) huses

/-- A task that is not past the send lock does not have it. -/
theorem Locked.lock_ne (h : c.Locked) (htask : c.tasks[t]? = some task)
    (houtside : task.isInside = false) : c.lock ≠ some (.task t) := by
  rw [Ne, h.holder, htask, Option.any_some, houtside]
  exact Bool.false_ne_true

/-- While the thread has the send lock, nobody else goes by the header. -/
theorem Locked.agrees (h : c.Locked) (htask : c.tasks[a.task]? = some task)
    (hinside : task.isInside = true) (htasks : c'.tasks = c.tasks) : c'.Agrees a header := by
  intro t task' hne htask' huses
  rw [htasks] at htask'
  have hout := h.outside_of_ne htask hinside htask' hne.symm
  rw [task'.isInside_of_usesHeader huses] at hout
  contradiction

/-- What a step changes in both clients alike, besides what is spared, does not set them apart. -/
theorem Spared.map {d : Client σ ρ} (h : Spared a c d) (g : Client σ ρ → Client σ ρ)
    (hsame : ∀ header log, c'.sparing a header log = g (c.sparing a header log))
    (hlog : c.log.Sublist c'.log) (hagrees : ∀ header, c.Agrees a header → c'.Agrees a header) :
    Spared a c' (g d) := by
  obtain ⟨hless, hheader⟩ := h
  rw [← hsame]
  exact .intro (hless.trans hlog) (hagrees _ hheader)

theorem Spared.codec_eq {d : Client σ ρ} (h : Spared a c d) : d.codec = c.codec := by
  cases h
  rfl

/-- A client in which a call has only been begun is spared nothing. -/
theorem spared_self (hcall : c.board.call? a.id = some a.made)
    (htask : c.tasks[a.task]? = some (.send a.id false .entering)) (hholding : c.Holding)
    (hlocked : c.Locked) (hqueues : ∀ q ∈ c.board.queues, a.id ∉ q.items) : Spared a c c := by
  have hflight := hholding.not_mem_pending_of_task htask rfl
  have hlock := hlocked.lock_ne htask rfl
  have htasks : c.tasks.set a.task (.send a.id false .entering) = c.tasks := by
    obtain ⟨hlt, heq⟩ := List.getElem?_eq_some_iff.mp htask
    rw [← heq, List.set_getElem_self]
  have hsame : c.sparing a c.header c.log = c := by
    simp only [sparing, sparing_eq_self hcall hflight hqueues, if_neg hlock, htasks]
  have h : Spared a c (c.sparing a c.header c.log) :=
    .intro (List.Sublist.refl _) fun _ _ _ _ _ => rfl
  rwa [hsame] at h

end Sparing

/-! ## The steps of the others -/

section Steps

variable [ByteStream σ] {c c' d : Client σ ρ} {a : Attempt ρ} {t : TaskId} {id : CallId}
  {call : Call ρ} {waits drops : Bool} {phase : SendPhase}

/-- A thread that registers another call. -/
theorem Spared.register (h : Spared a c d) (hne : t ≠ a.task) (hother : id ≠ a.id)
    (hnext : c.board.registry.find? c.board.registry.nextSeq ≠ some a.id)
    (hstep : c.stepSend t id call waits .registering = .moved c') :
    ∃ d', d.stepSend t id call waits .registering = .moved d' ∧ Spared a c' d' := by
  obtain @⟨header, log, hlog, hheader⟩ := h
  have hregister := register_sparing a.made hother hnext
  cases hok : (c.board.register id).2.isOk with
  | true =>
      simp only [stepSend, hok, if_true, Turn.moved.injEq] at hstep
      subst hstep
      refine ⟨_, ?_, .intro hlog (hheader.setTask rfl rfl rfl)⟩
      rw [sparing_setTask hne]
      simp only [stepSend, board_sparing, hregister, hok, if_true]
      rfl
  | false =>
      simp only [stepSend, hok, Bool.false_eq_true, if_false, Turn.moved.injEq] at hstep
      subst hstep
      refine ⟨_, ?_, .intro hlog (hheader.setTask rfl rfl rfl)⟩
      rw [sparing_setTask hne]
      simp only [stepSend, board_sparing, hregister, hok, Bool.false_eq_true, if_false]
      rw [← sparing_setError hother]
      rfl

/-- A thread that writes another request, under the header that both clients have then. -/
theorem Spared.write (h : Spared a c d) (hne : t ≠ a.task)
    (htask : c.tasks[t]? = some (.send id waits .writing))
    (hstep : c.stepSend t id call waits .writing = .moved c') :
    ∃ d', d.stepSend t id call waits .writing = .moved d' ∧ Spared a c' d' := by
  obtain @⟨header, log, hlog, hheader⟩ := h
  obtain rfl := hheader t _ hne htask rfl
  rcases hwrite : c.codec.write c.header call.args with ⟨codec, entries, fault⟩
  have hwrote : (c.sparing a c.header log).writeRequest call =
      (note { c.sparing a c.header log with codec } entries, fault) := by
    simp only [writeRequest, sparing, hwrite]
  have hspared (next : SendPhase) : Spared a
      (setTask (note { c with codec } entries) t (.send id waits next))
      (setTask (note { c.sparing a c.header log with codec } entries) t (.send id waits next)) := by
    have h : Spared a _ (Client.sparing (setTask (note { c with codec } entries) t
        (.send id waits next)) a c.header (log ++ entries)) :=
      .intro (hlog.append_right entries) fun _ _ _ _ _ => rfl
    rwa [sparing_setTask hne] at h
  simp only [stepSend, hwrote]
  simp only [stepSend, writeRequest, hwrite] at hstep
  cases fault with
  | none => exact ⟨_, rfl, Turn.moved.inj hstep ▸ hspared .leaving⟩
  | some f => exact ⟨_, rfl, Turn.moved.inj hstep ▸ hspared (.withdrawing f)⟩

/-- A thread that takes another call out, under the number that both clients have in the header. -/
theorem Spared.withdraw {f : Fault} (h : Spared a c d) (hne : t ≠ a.task)
    (htask : c.tasks[t]? = some (.send id waits (.withdrawing f)))
    (hfind : c.board.registry.find? c.header.seq ≠ some a.id)
    (hstep : c.stepSend t id call waits (.withdrawing f) = .moved c') :
    ∃ d', d.stepSend t id call waits (.withdrawing f) = .moved d' ∧ Spared a c' d' := by
  obtain @⟨header, log, hlog, hheader⟩ := h
  obtain rfl := hheader t _ hne htask rfl
  have hremove := remove_sparing a.made hfind
  have hfound := c.board.remove_fst c.header.seq
  rcases hboard : c.board.remove c.header.seq with ⟨found, b⟩
  rw [hboard] at hremove hfound
  cases found with
  | none =>
      simp only [stepSend, Client.withdraw, hboard, Turn.moved.injEq] at hstep
      subst hstep
      refine ⟨_, ?_, .intro hlog (hheader.setTask rfl rfl rfl)⟩
      rw [sparing_setTask hne]
      simp only [stepSend, Client.withdraw, board_sparing, header_sparing, hremove]
      rfl
  | some other =>
      have hnot : other ≠ a.id := fun heq => hfind (hfound.symm.trans (congrArg some heq))
      simp only [stepSend, Client.withdraw, hboard, Turn.moved.injEq] at hstep
      subst hstep
      refine ⟨_, ?_, .intro (hlog.append_right [sendWarning c.header f])
        (hheader.setTask rfl rfl rfl)⟩
      rw [sparing_setTask hne]
      simp only [stepSend, Client.withdraw, board_sparing, header_sparing, hremove]
      rw [← sparing_setError hnot]
      rfl

/-- A thread that sends another request. -/
theorem Spared.send (h : Spared a c d) (hne : t ≠ a.task) (hother : id ≠ a.id)
    (htask : c.tasks[t]? = some (.send id waits phase))
    (hnext : phase = .registering → c.board.registry.find? c.board.registry.nextSeq ≠ some a.id)
    (hreach : a.id ∉ c.reach (.task t))
    (hcollect : phase = .collecting → ∀ queue, call.queue = some queue →
      (c.board.pop? queue).map (·.1) ≠ some a.id)
    (hstep : c.stepSend t id call waits phase = .moved c') :
    ∃ d', d.stepSend t id call waits phase = .moved d' ∧ Spared a c' d' := by
  cases phase with
  | registering => exact h.register hne hother (hnext rfl) hstep
  | writing => exact h.write hne htask hstep
  | withdrawing f =>
      refine h.withdraw hne htask ?_ hstep
      simpa only [reach, htask, Option.mem_toList] using hreach
  | entering =>
      obtain @⟨header, log, hlog, hheader⟩ := h
      cases hlock : c.lock with
      | some holder => simp [stepSend, hlock] at hstep
      | none =>
          simp only [stepSend, hlock, Turn.moved.injEq] at hstep
          subst hstep
          refine ⟨_, ?_, .intro hlog (hheader.setTask rfl rfl rfl)⟩
          have hlocked : Client.sparing { c with lock := some (.task t) } a header log =
              { c.sparing a header log with lock := some (.task t) } :=
            sparing_withLock (by simpa using hne)
          rw [sparing_setTask hne, hlocked]
          simp only [stepSend, lock_sparing hlock]
  | addressing =>
      obtain @⟨header, log, hlog, hheader⟩ := h
      obtain rfl := Turn.moved.inj hstep
      refine ⟨_, ?_, .intro hlog fun _ _ _ _ _ => rfl⟩
      rw [sparing_setTask hne]
      rfl
  | finishing other =>
      obtain @⟨header, log, hlog, hheader⟩ := h
      have hnot : other ≠ a.id := by
        rintro rfl
        simp [reach, htask, Task.held] at hreach
      cases hfinish : c.board.finish other with
      | moved b =>
          simp only [stepSend, hfinish, Turn.moved.injEq] at hstep
          subst hstep
          refine ⟨_, ?_, .intro hlog (hheader.setTask rfl rfl rfl)⟩
          rw [sparing_setTask hne]
          simp only [stepSend, board_sparing, finish_sparing hnot hfinish]
          rfl
      | _ => simp [stepSend, hfinish] at hstep
  | leaving =>
      obtain @⟨header, log, hlog, hheader⟩ := h
      obtain rfl := Turn.moved.inj hstep
      refine ⟨_, ?_, .intro hlog (hheader.setTask (by cases waits <;> rfl) rfl rfl)⟩
      have hfree : Client.sparing { c with lock := none } a header log =
          { c.sparing a header log with lock := none } := sparing_withLock (by simp)
      rw [sparing_setTask hne, hfree]
      rfl
  | collecting =>
      obtain @⟨header, log, hlog, hheader⟩ := h
      cases hpop : call.queue.bind c.board.pop? with
      | none => simp [stepSend, hpop] at hstep
      | some popped =>
          obtain ⟨other, b⟩ := popped
          obtain ⟨queue, hqueue, hpop'⟩ := Option.bind_eq_some_iff.mp hpop
          have hnot : other ≠ a.id := by
            rintro rfl
            exact hcollect rfl queue hqueue (by rw [hpop', Option.map_some])
          simp only [stepSend, hpop, Turn.moved.injEq] at hstep
          subst hstep
          refine ⟨_, ?_, .intro hlog (hheader.setTask rfl rfl rfl)⟩
          rw [sparing_setTask hne]
          simp only [stepSend, board_sparing, hqueue, Option.bind_some, pop?_sparing hnot hpop']
          rfl
  | returned collected => contradiction

/-- A thread that closes the client. -/
theorem Spared.close {phase : ClosePhase} (h : Spared a c d) (hne : t ≠ a.task)
    (hstep : c.stepClose t drops phase = .moved c') :
    ∃ d', d.stepClose t drops phase = .moved d' ∧ Spared a c' d' := by
  obtain @⟨header, log, hlog, hheader⟩ := h
  have hset {c₁ : Client σ ρ} {next : ClosePhase} (htasks : c₁.tasks = c.tasks)
      (hsame : c₁.header = c.header) : (c₁.setTask t (.close drops next)).Agrees a header :=
    (hheader.congr htasks hsame).setTask rfl rfl rfl
  cases phase with
  | entering =>
      have hclose := beginClose_sparing c.board a.id a.made
      cases hok : c.board.beginClose.2.isOk with
      | true =>
          simp only [stepClose, hok, if_true, Turn.moved.injEq] at hstep
          subst hstep
          refine ⟨_, ?_, .intro (hlog.append_right [Log.info (.ofText "closing rpc client")])
            (hset rfl rfl)⟩
          rw [sparing_setTask hne]
          simp only [stepClose, board_sparing, hclose, hok, if_true]
          rfl
      | false =>
          simp only [stepClose, hok, Bool.false_eq_true, if_false, Turn.moved.injEq] at hstep
          subst hstep
          refine ⟨_, ?_, .intro hlog (hset rfl rfl)⟩
          rw [sparing_setTask hne]
          simp only [stepClose, board_sparing, hclose, hok, Bool.false_eq_true, if_false]
          rfl
  | shutting =>
      obtain rfl := Turn.moved.inj hstep
      refine ⟨_, ?_, .intro hlog (hset rfl rfl)⟩
      rw [sparing_setTask hne]
      rfl
  | reporting status =>
      cases drops with
      | true =>
          obtain rfl := Turn.moved.inj hstep
          refine ⟨_, ?_, .intro (hlog.append_right _) (hset rfl rfl)⟩
          rw [sparing_setTask hne]
          rfl
      | false =>
          obtain rfl := Turn.moved.inj hstep
          refine ⟨_, ?_, .intro hlog (hset rfl rfl)⟩
          rw [sparing_setTask hne]
          rfl
  | joining status =>
      by_cases hexited : c.receiver = .exited
      · simp only [stepClose, hexited, if_true, Turn.moved.injEq] at hstep
        subst hstep
        refine ⟨_, ?_, .intro hlog (hset rfl rfl)⟩
        rw [sparing_setTask hne]
        simp only [stepClose, receiver_sparing, hexited, if_true]
      · simp [stepClose, hexited] at hstep
  | returned status => contradiction

/-- Reading on in a frame has nothing to do with the call, if what is done with the frame has
not. -/
theorem stepFrame_sparing {header : Header} {log : List Log.Entry} {stage : Frame.Stage}
    {waiting : Frame.Stage → Receiver} {finish : Client σ ρ → Except Fault Bytes → Client σ ρ}
    (hfinish : ∀ codec result, finish { c.sparing a header log with codec } result =
      (finish { c with codec } result).sparing a header log)
    (h : c.stepFrame stage waiting finish = .moved c') :
    (c.sparing a header log).stepFrame stage waiting finish =
      .moved (c'.sparing a header log) := by
  obtain ⟨reached, codec, hread, hnew, rfl⟩ | ⟨codec, result, hread, rfl⟩ := stepFrame_moved h
  · simp only [stepFrame, codec_sparing, hread, if_neg hnew]
    rfl
  · simp only [stepFrame, codec_sparing, hread, hfinish]

omit [ByteStream σ] in
theorem onReply_sparing {header : Header} {log : List Log.Entry} {codec : Codec σ}
    (hother : id ≠ a.id) (result : Except Fault Bytes) :
    onReply { c.sparing a header log with codec } id result =
      (onReply { c with codec } id result).sparing a header log := by
  have hcall : (c.board.sparing a.id a.made).call? id = c.board.call? id := call?_sparing hother
  simp only [onReply, board_sparing, hcall]
  cases c.board.call? id with
  | none => rfl
  | some call =>
      simp only [← sparing_modifyCall hother]
      rfl

omit [ByteStream σ] in
theorem onResponse_sparing {header : Header} {log : List Log.Entry} {response : Header}
    (hfind : c.board.registry.find? response.seq ≠ some a.id) :
    (c.sparing a header log).onResponse response =
      (c.onResponse response).sparing a header log := by
  have hremove := remove_sparing a.made hfind
  have hfound := c.board.remove_fst response.seq
  rcases hboard : c.board.remove response.seq with ⟨found, b⟩
  rw [hboard] at hremove hfound
  cases found with
  | none =>
      simp only [onResponse, board_sparing, hboard, hremove]
      rfl
  | some other =>
      have hnot : other ≠ a.id := fun heq => hfind (hfound.symm.trans (congrArg some heq))
      simp only [onResponse, board_sparing, hboard, hremove]
      split
      · rfl
      · rw [← sparing_setError hnot]
        rfl

/-- The receiver. -/
theorem stepReceiver_sparing {header : Header} {log : List Log.Entry}
    (hreach : a.id ∉ c.reach .receive)
    (htaking : ∀ f, c.receiver = .taking f → a.id ∉ c.board.registry.pending.map (·.2))
    (h : c.stepReceiver = .moved c') :
    (c.sparing a header log).stepReceiver = .moved (c'.sparing a header log) := by
  unfold stepReceiver at h ⊢
  simp only [receiver_sparing]
  cases hat : c.receiver with
  | header stage =>
      simp only [hat] at h
      refine stepFrame_sparing (fun codec result => ?_) h
      unfold onHeader
      split <;> rfl
  | matching response =>
      simp only [hat, Turn.moved.injEq] at h
      subst h
      refine congrArg Turn.moved (onResponse_sparing ?_)
      simpa only [reach, hat, Option.mem_toList] using hreach
  | skipping stage call =>
      simp only [hat] at h
      refine stepFrame_sparing (fun codec result => ?_) h
      cases call <;> rfl
  | reply stage id =>
      simp only [hat] at h
      have hother : id ≠ a.id := by
        rintro rfl
        simp [reach, hat, Receiver.held] at hreach
      exact stepFrame_sparing (fun codec result => onReply_sparing hother result) h
  | finishing id fault =>
      simp only [hat] at h
      have hother : id ≠ a.id := by
        rintro rfl
        simp [reach, hat, Receiver.held] at hreach
      cases hfinish : c.board.finish id with
      | moved b =>
          simp only [hfinish, Turn.map, Turn.moved.injEq] at h
          subst h
          simp only [board_sparing, finish_sparing hother hfinish, Turn.map]
          rfl
      | _ => simp [hfinish, Turn.map] at h
  | stopping f =>
      simp only [hat, Turn.moved.injEq] at h
      subst h
      rfl
  | locking f =>
      simp only [hat] at h
      cases hfree : c.lock with
      | some holder => simp [hfree] at h
      | none =>
          simp only [hfree, Turn.moved.injEq] at h
          subst h
          simp only [lock_sparing hfree]
          exact congrArg Turn.moved (sparing_withLock (c := { c with receiver := .taking f })
            (by simp)).symm
  | taking f =>
      simp only [hat, Turn.moved.injEq] at h
      subst h
      simp only [board_sparing, order_sparing, takeAll_sparing c.order (htaking f hat)]
      rfl
  | terminating f ids =>
      cases ids with
      | nil =>
          simp only [hat, Turn.moved.injEq] at h
          subst h
          rfl
      | cons id ids =>
          have hother : id ≠ a.id := by
            rintro rfl
            simp [reach, hat, Receiver.held] at hreach
          simp only [hat] at h
          cases hfinish : c.board.finishWith (connectionLost f) id with
          | moved b =>
              simp only [hfinish, Turn.map, Turn.moved.injEq] at h
              subst h
              rw [finishWith] at hfinish
              simp only [board_sparing, finishWith, ← sparing_setError hother,
                finish_sparing hother hfinish, Turn.map]
              rfl
          | _ => simp [hfinish, Turn.map] at h
  | unlocking =>
      simp only [hat, Turn.moved.injEq] at h
      subst h
      exact congrArg Turn.moved (sparing_withLock (c := { c with receiver := .exited })
        (by simp)).symm
  | exited => simp [hat] at h

omit [ByteStream σ] in
theorem beginSend_sparing {header : Header} {log : List Log.Entry}
    (hid : a.id < c.board.calls.length) (ht : a.task < c.tasks.length) (r : Request ρ)
    (queue : QueueId) (waits : Bool) :
    ((c.sparing a header log).beginSend r queue waits).1 =
      (c.beginSend r queue waits).1.sparing a header log := by
  simp only [beginSend, board_sparing, addCall_sparing hid]
  simp only [sparing, List.set_append_left _ _ ht]

/-- The application starts another call. -/
theorem Spared.go {r : Request ρ} {queue : Option QueueId} (h : Spared a c d)
    (hid : a.id < c.board.calls.length) (ht : a.task < c.tasks.length)
    (hstep : c.step (.go r queue) = .moved c') :
    ∃ d', d.step (.go r queue) = .moved d' ∧ Spared a c' d' := by
  obtain @⟨header, log, hlog, hheader⟩ := h
  cases queue with
  | none =>
      obtain rfl := Turn.moved.inj hstep
      refine ⟨_, ?_, .intro hlog (hheader.append rfl rfl rfl)⟩
      simp only [step, Option.all_none, if_true, queueFor, board_sparing, addQueue_sparing]
      exact congrArg Turn.moved (beginSend_sparing
        (c := { c with board := (c.board.addQueue ownCapacity).1 }) hid ht r _ false)
  | some queue =>
      simp only [step, Option.all_some] at hstep ⊢
      cases hqueue : c.board.queue? queue with
      | none => simp [hqueue] at hstep
      | some q =>
          have hqueue' : (c.board.sparing a.id a.made).queue? queue = some (q.without a.id) := by
            rw [queue?_sparing, hqueue, Option.map_some]
          by_cases hzero : q.capacity = 0
          · simp only [hqueue, Option.isSome_some, if_true, queueFor, Option.any_some, hzero,
              decide_true, Turn.moved.injEq] at hstep
            subst hstep
            refine ⟨_, ?_, .intro (hlog.append_right _) (hheader.congr rfl rfl)⟩
            have hzero' : (q.without a.id).capacity = 0 := hzero
            simp only [board_sparing, hqueue', Option.isSome_some, if_true, queueFor,
              Option.any_some, hzero', decide_true]
            rfl
          · simp only [hqueue, Option.isSome_some, if_true, queueFor, Option.any_some, hzero,
              decide_false, Bool.false_eq_true, if_false, Turn.moved.injEq] at hstep
            subst hstep
            refine ⟨_, ?_, .intro hlog (hheader.append rfl rfl rfl)⟩
            have hzero' : (q.without a.id).capacity ≠ 0 := hzero
            simp only [board_sparing, hqueue', Option.isSome_some, if_true, queueFor,
              Option.any_some, hzero', decide_false, Bool.false_eq_true, if_false]
            exact congrArg Turn.moved (beginSend_sparing hid ht r queue false)

/-- Another thread goes on. -/
theorem Spared.goOn (h : Spared a c d) (hlocked : c.Locked)
    (htask : c.tasks[a.task]? = some (.send a.id false phase))
    (hflight : a.id ∈ c.board.registry.pending.map (·.2) → c.lock = some (.task a.task))
    (hne : t ≠ a.task) (hreach : a.id ∉ c.reach (.task t))
    (hcollect : c.collects? (.task t) ≠ some a.id) (hstep : c.stepTask t = .moved c') :
    ∃ d', d.stepTask t = .moved d' ∧ Spared a c' d' := by
  have hsame : d.tasks[t]? = c.tasks[t]? := by
    obtain ⟨hlog, hheader⟩ := h
    exact tasks_sparing hne
  simp only [stepTask, hsame] at hstep ⊢
  cases htask' : c.tasks[t]? with
  | none => simp [htask'] at hstep
  | some task =>
      cases task with
      | send id waits phase =>
          have hother : id ≠ a.id := hlocked.own_ne htask' rfl htask rfl hne
          have hcall : d.board.call? id = c.board.call? id := by
            obtain ⟨hlog, hheader⟩ := h
            exact call?_sparing hother
          simp only [htask', hcall] at hstep ⊢
          cases hmine : c.board.call? id with
          | none => simp [hmine] at hstep
          | some call =>
              simp only [hmine] at hstep ⊢
              refine h.send hne hother htask' ?_ hreach ?_ hstep
              · rintro rfl hfind
                have hlock := hflight (mem_pending_of_find? hfind)
                rw [hlocked.lock_eq htask' rfl] at hlock
                exact hne (by simpa using hlock)
              · rintro rfl queue hqueue hpop
                refine hcollect ?_
                simp only [collects?, collectsFrom?, htask', hmine, Option.bind_some, hqueue, hpop]
      | close drops phase =>
          simp only [htask'] at hstep ⊢
          exact h.close hne hstep

/-- What the receiver does has nothing to do with threads and their header. -/
theorem ReceiverChange.header_eq {place : Receiver} {events : List (Event ρ)}
    (h : ReceiverChange c place events c') : c'.header = c.header := by
  cases h <;> rfl

theorem ReceiverChange.log_eq {place : Receiver} {events : List (Event ρ)}
    (h : ReceiverChange c place events c') : c'.log = c.log := by
  cases h <;> rfl

/-- **All others can go on as they do, had the call only been begun.** -/
theorem Spared.step {move : Move ρ} (h : Spared a c d) (hholding : c.Holding)
    (hlocked : c.Locked) (htask : c.tasks[a.task]? = some (.send a.id false phase))
    (hflight : a.id ∈ c.board.registry.pending.map (·.2) → c.lock = some (.task a.task))
    (hmove : move ≠ .task a.task) (hreach : a.id ∉ c.reach move)
    (hcollect : c.collects? move ≠ some a.id) (hstep : c.step move = .moved c') :
    ∃ d', d.step move = .moved d' ∧ Spared a c' d' := by
  have ht := (List.getElem?_eq_some_iff.mp htask).1
  have hid : a.id < c.board.calls.length := by
    obtain ⟨call, hcall⟩ := hlocked.exists_call htask
    exact (List.getElem?_eq_some_iff.mp hcall).1
  cases move with
  | queue capacity =>
      obtain @⟨header, log, hlog, hheader⟩ := h
      obtain rfl := Turn.moved.inj hstep
      refine ⟨_, ?_, .intro hlog (hheader.congr rfl rfl)⟩
      simp only [Client.step, board_sparing, addQueue_sparing]
      rfl
  | go r queue => exact h.go hid ht hstep
  | call r =>
      obtain @⟨header, log, hlog, hheader⟩ := h
      obtain rfl := Turn.moved.inj hstep
      refine ⟨_, ?_, .intro hlog (hheader.append rfl rfl rfl)⟩
      simp only [Client.step, board_sparing, addQueue_sparing]
      exact congrArg Turn.moved (beginSend_sparing (c := { c with board := (c.board.addQueue 1).1 })
        hid ht r _ true)
  | close drops =>
      obtain @⟨header, log, hlog, hheader⟩ := h
      obtain rfl := Turn.moved.inj hstep
      refine ⟨_, ?_, .intro hlog (hheader.append rfl rfl rfl)⟩
      simp only [Client.step, Client.beginClose, sparing, List.set_append_left _ _ ht]
      rfl
  | collect queue =>
      obtain @⟨header, log, hlog, hheader⟩ := h
      simp only [Client.step] at hstep
      cases hpop : c.board.pop? queue with
      | none => simp [hpop] at hstep
      | some popped =>
          obtain ⟨other, b⟩ := popped
          have hnot : other ≠ a.id := by
            rintro rfl
            exact hcollect (by simp [collects?, collectsFrom?, hpop])
          simp only [hpop, Turn.moved.injEq] at hstep
          subst hstep
          refine ⟨_, ?_, .intro hlog (hheader.congr rfl rfl)⟩
          simp only [Client.step, board_sparing, pop?_sparing hnot hpop]
          rfl
  | task t =>
      have hne : t ≠ a.task := fun heq => hmove (congrArg Move.task heq)
      exact h.goOn hlocked htask hflight hne hreach hcollect hstep
  | receive =>
      obtain @⟨header, log, hlog, hheader⟩ := h
      have heffect : Effect c .receive c' := effect_of_step hholding.readsReply hstep
      obtain ⟨events, hchange⟩ := heffect.of_receive
      refine ⟨_, stepReceiver_sparing hreach (fun f hat hmine => ?_) hstep,
        .intro (hchange.log_eq ▸ hlog) (hheader.congr hchange.tasks hchange.header_eq)⟩
      have hlock : c.lock = some .receiver := hlocked.receiver.mpr (by rw [hat]; rfl)
      exact Holder.noConfusion (Option.some.inj ((hflight hmine).symm.trans hlock))

/-- In what the others do there happens the same. -/
theorem Spared.observe_eq {move : Move ρ} (h : Spared a c d) (hlocked : c.Locked)
    (htask : c.tasks[a.task]? = some (.send a.id false phase)) (hmove : move ≠ .task a.task) :
    d.observe move = c.observe move := by
  obtain @⟨header, log, hlog, hheader⟩ := h
  cases move with
  | go r queue =>
      cases queue with
      | none => simp only [observe, queueFor, board_sparing, addQueue_sparing, length_calls_sparing]
      | some queue =>
          have hqueue : ((c.board.sparing a.id a.made).queue? queue).any (·.capacity = 0) =
              (c.board.queue? queue).any (·.capacity = 0) := by
            rw [queue?_sparing, Option.any_map]
            rfl
          simp only [observe, queueFor, board_sparing, hqueue, length_calls_sparing]
          cases (c.board.queue? queue).any (·.capacity = 0) <;> rfl
  | call r => simp only [observe, board_sparing, length_calls_sparing]
  | task t =>
      have hne : t ≠ a.task := fun heq => hmove (congrArg Move.task heq)
      simp only [observe, tasks_sparing hne]
      split
      case h_2 => rfl
      case h_1 id waits phase htask' =>
        have hother : id ≠ a.id := hlocked.own_ne htask' rfl htask rfl hne
        simp only [board_sparing, call?_sparing hother]
        cases c.board.call? id with
        | none => rfl
        | some call =>
            cases phase with
            | writing =>
                obtain rfl := hheader t _ hne htask' rfl
                rfl
            | _ => rfl
  | _ => rfl

end Steps

end Client

end RemoteCalls
