import RemoteCalls.Client.Open
import RemoteCalls.Proofs.Client.Moves
import RemoteCalls.Transport.Memory

/-!
# RemoteCalls.Proofs.Client.Custody

Who has to finish a call.

From its beginning to its end a call is in the custody of exactly one party: the
thread that begins it, the registry, a thread whose request could not be written,
or the receiver.  `Custody` says so by counting: the calls held by all parties and
the calls finished so far are all calls ever begun, each once.

Nobody finishes a call that it does not hold, so no call is finished twice; and
when the receiver is gone and no thread is sending, no party is left to hold any.
The step in which a call is finished puts it into its queue (`Change.delivered`).

Main statement: `finished_exactly_once`.
-/

namespace RemoteCalls

/-! ## Holding a call -/

/-- The call that a task has to finish, or to hand on. -/
def Task.held : Task → Option CallId
  | .send id _ .entering => some id
  | .send id _ .registering => some id
  | .send _ _ (.finishing other) => some other
  | _ => none

/-- Whether a task has begun to send a request and has not given the send lock back yet. -/
def Task.isSending : Task → Bool
  | .send _ _ .collecting => false
  | .send _ _ (.returned _) => false
  | .send _ _ _ => true
  | .close _ _ => false

/-- A task that is not sending holds nothing. -/
theorem Task.held_eq_none {task : Task} (h : task.isSending = false) : task.held = none := by
  cases task with
  | send id waits phase => cases phase <;> first | rfl | contradiction
  | close drops phase => rfl

/-- The calls that the receiver has to finish. -/
def Receiver.held : Receiver → List CallId
  | .skipping _ call => call.toList
  | .reply _ id => [id]
  | .finishing id _ => [id]
  | .terminating _ ids => ids
  | _ => []

/-- Whether the receiver has taken all calls out of the registry. -/
def Receiver.hasTaken : Receiver → Bool
  | .terminating _ _ => true
  | .unlocking => true
  | .exited => true
  | _ => false

@[simp] theorem Receiver.held_afterCall (fault : Option Fault) :
    (Client.afterCall fault).held = [] := by
  cases fault <;> rfl

@[simp] theorem Receiver.hasTaken_afterCall (fault : Option Fault) :
    (Client.afterCall fault).hasTaken = false := by
  cases fault <;> rfl

/-- What finishing a call depends on. -/
def Call.standing {ρ : Type} (call : Call ρ) : Option QueueId × Bool := (call.queue, call.finished)

namespace Client

open Board

variable {σ ρ : Type}

/-- The calls that somebody has to finish. -/
def holdings (c : Client σ ρ) : List CallId :=
  c.tasks.filterMap Task.held ++ (c.receiver.held ++ c.board.registry.pending.map (·.2))

/-- A task that goes on changes what is held by what the task itself holds. -/
theorem count_holdings_setTask {c : Client σ ρ} {t : TaskId} {old : Task}
    (h : c.tasks[t]? = some old) (new : Task) (id : CallId) :
    (c.setTask t new).holdings.count id + old.held.toList.count id =
      c.holdings.count id + new.held.toList.count id := by
  obtain ⟨before, after, hall, hset⟩ := setTask_split h
  have hcount (task : Task) : ((before ++ task :: after).filterMap Task.held).count id =
      (before.filterMap Task.held).count id +
        (task.held.toList.count id + (after.filterMap Task.held).count id) := by
    rw [List.filterMap_append, List.count_append, List.filterMap_cons]
    cases task.held <;> simp [List.count_cons, Nat.add_comm]
  have hnew := hcount new
  have hold := hcount old
  simp only [holdings, hall, hset, setTask_receiver, setTask_board, List.count_append]
  omega

/-- Who has to finish which call, after a run with this history. -/
structure Custody (events : List (Event ρ)) (c : Client σ ρ) : Prop where
  numbered : c.board.registry.Numbered (registrations events).length
  /-- Every call ever begun is held by one party, or else has been finished once. -/
  ledger : ∀ id, c.holdings.count id + (finishes events).count id =
    if id < c.board.calls.length then 1 else 0
  begun : (requests events).map (·.1) = List.range c.board.calls.length
  calls : ∀ id call, c.board.call? id = some call →
    call.queue.isSome ∧ (call.finished = true ↔ id ∈ finishes events)
  ended : c.receiver.hasTaken = true → c.board.registry.shutdown = true
  emptied : c.board.registry.shutdown = true → c.board.registry.pending = []

theorem custody_start (codec : Codec σ) (p : Preamble) (log : List Log.Entry)
    (order : Registry.Order) :
    Custody (ρ := ρ) [] (start codec p log order) where
  numbered := Registry.numbered_initial
  ledger _ := rfl
  begun := rfl
  calls := by simp [start, call?]
  ended := by simp [start, Receiver.hasTaken]
  emptied _ := rfl

theorem mem_holdings_of_task {c : Client σ ρ} {t : TaskId} {task : Task} {id : CallId}
    (h : c.tasks[t]? = some task) (hheld : task.held = some id) : id ∈ c.holdings := by
  rw [holdings, List.mem_append, List.mem_filterMap]
  exact .inl ⟨task, List.mem_of_getElem? h, hheld⟩

theorem mem_holdings_of_receiver {c : Client σ ρ} {id : CallId} (h : id ∈ c.receiver.held) :
    id ∈ c.holdings := by
  rw [holdings, List.mem_append, List.mem_append]
  exact .inr (.inl h)

/-! ## What custody says about one call -/

section One

variable {events : List (Event ρ)} {c : Client σ ρ} {id : CallId}

/-- A call that somebody holds has been begun and has a queue, and is not finished. -/
theorem Custody.call_of_mem_holdings (h : c.Custody events) (hid : id ∈ c.holdings) :
    ∃ call, c.board.call? id = some call ∧ call.finished = false ∧ call.queue.isSome ∧
      id ∉ finishes events := by
  have hheld := List.count_pos_iff.mpr hid
  have hledger := h.ledger id
  have hlt : id < c.board.calls.length := by
    refine Decidable.byContradiction fun hge => ?_
    rw [if_neg hge] at hledger
    omega
  rw [if_pos hlt] at hledger
  have hnot : id ∉ finishes events := by
    rw [← List.count_eq_zero]
    omega
  have hcall : c.board.call? id = some c.board.calls[id] := List.getElem?_eq_getElem hlt
  obtain ⟨hqueue, hfinished⟩ := h.calls id _ hcall
  rw [← hfinished, Bool.not_eq_true] at hnot
  exact ⟨_, hcall, hnot, hqueue, by simpa [hnot] using hfinished⟩

/-- What the receiver holds has been begun. -/
theorem Custody.readsReply (h : c.Custody events) : c.ReadsReply := by
  intro stage id hat
  have hid : id ∈ c.holdings := by simp [holdings, hat, Receiver.held]
  obtain ⟨call, hcall, -⟩ := h.call_of_mem_holdings hid
  exact Option.isSome_iff_exists.mpr ⟨call, hcall⟩

/-- A call that is finished has been finished once. -/
theorem Custody.count_finishes (h : c.Custody events) {call : Call ρ}
    (hcall : c.board.call? id = some call) (hfinished : call.finished = true) :
    (finishes events).count id = 1 := by
  have hledger := h.ledger id
  have hmem := List.count_pos_iff.mpr ((h.calls id call hcall).2.mp hfinished)
  split at hledger <;> omega

/-- A call that somebody holds can be finished without ending the process. -/
theorem Custody.finish_ne_aborted (h : c.Custody events) (hid : id ∈ c.holdings)
    (cause : Abort) : c.board.finish id ≠ .aborted cause := by
  obtain ⟨call, hcall, hfinished, hqueue, -⟩ := h.call_of_mem_holdings hid
  exact Board.finish_ne_aborted hcall hfinished hqueue cause

theorem Custody.finishWith_ne_aborted (h : c.Custody events) (hid : id ∈ c.holdings)
    (status : Status) (cause : Abort) : c.board.finishWith status id ≠ .aborted cause := by
  obtain ⟨call, hcall, hfinished, hqueue, -⟩ := h.call_of_mem_holdings hid
  have hset := call?_modifyCall_self hcall fun call => { call with error := status }
  exact Board.finish_ne_aborted hset hfinished hqueue cause

end One

/-! ## Steps that hand calls on -/

section Hand

variable {events new : List (Event ρ)} {c c' : Client σ ρ}

/-- A step in which calls may change hands, but none begins or ends. -/
theorem Custody.hand (h : c.Custody events)
    (hnumbered : c'.board.registry.Numbered (registrations (events ++ new)).length)
    (hcalls : c'.board.calls.map Call.standing = c.board.calls.map Call.standing)
    (hheld : ∀ id, c'.holdings.count id = c.holdings.count id)
    (hbegun : requests new = []) (hfinished : finishes new = [])
    (hended : c'.receiver.hasTaken = true → c'.board.registry.shutdown = true)
    (hemptied : c'.board.registry.shutdown = true → c'.board.registry.pending = []) :
    c'.Custody (events ++ new) := by
  have hlen : c'.board.calls.length = c.board.calls.length := by
    simpa using congrArg List.length hcalls
  refine ⟨hnumbered, ?_, ?_, ?_, hended, hemptied⟩
  · intro id
    rw [finishes_append, hfinished, List.append_nil, hheld, hlen]
    exact h.ledger id
  · rw [requests_append, hbegun, List.append_nil, hlen]
    exact h.begun
  · intro id call hcall
    have hstanding := congrArg (·[id]?) hcalls
    rw [call?] at hcall
    simp only [List.getElem?_map, hcall, Option.map_some, Call.standing] at hstanding
    obtain ⟨before, hbefore, heq⟩ := Option.map_eq_some_iff.mp hstanding.symm
    obtain ⟨hqueue, hfinish⟩ := Prod.mk.inj heq
    rw [finishes_append, hfinished, List.append_nil, ← hqueue, ← hfinish]
    exact h.calls id before hbefore

/-- A step that leaves the registry alone. -/
theorem Custody.keep (h : c.Custody events)
    (hnew : requests new = [] ∧ registrations new = [] ∧ finishes new = [])
    (hregistry : c'.board.registry = c.board.registry)
    (hcalls : c'.board.calls.map Call.standing = c.board.calls.map Call.standing)
    (hheld : ∀ id, c'.holdings.count id = c.holdings.count id)
    (htaken : c'.receiver.hasTaken = true → c.receiver.hasTaken = true) :
    c'.Custody (events ++ new) := by
  obtain ⟨hbegun, hregistered, hfinished⟩ := hnew
  refine h.hand ?_ hcalls hheld hbegun hfinished ?_ ?_
  · rw [registrations_append, hregistered, List.append_nil, hregistry]
    exact h.numbered
  · rw [hregistry]
    exact fun htook => h.ended (htaken htook)
  · rw [hregistry]
    exact h.emptied

/-- A step in which a call is finished by whoever holds it. -/
theorem Custody.finish (h : c.Custody events) {id : CallId}
    (hfinish : c.board.finish id = .moved c'.board)
    (hheld : ∀ other, c'.holdings.count other + [id].count other = c.holdings.count other)
    (htaken : c'.receiver.hasTaken = true → c.receiver.hasTaken = true) :
    c'.Custody (events ++ [.finished id]) := by
  obtain ⟨call, queue, q, q', hcall, -, -, -, -, hboard⟩ := finish_moved hfinish
  have hlen : c'.board.calls.length = c.board.calls.length := by
    rw [hboard, length_calls_delivered]
  have hends : finishes (events ++ [Event.finished (ρ := ρ) id]) = finishes events ++ [id] := by
    rw [finishes_append]
    rfl
  refine ⟨?_, ?_, ?_, ?_, ?_, ?_⟩
  · simpa [hboard, registrations] using h.numbered
  · intro other
    rw [hends, List.count_append, hlen]
    have hledger := h.ledger other
    have hother := hheld other
    omega
  · simpa [requests, hlen] using h.begun
  · intro other after hafter
    rw [hboard, call?_delivered] at hafter
    rw [hends, List.mem_append, List.mem_singleton]
    by_cases hsame : id = other
    · subst hsame
      rw [if_pos rfl, hcall, Option.map_some, Option.some.injEq] at hafter
      subst hafter
      exact ⟨(h.calls id call hcall).1, by simp⟩
    · rw [if_neg hsame] at hafter
      obtain ⟨hqueue, hfinished⟩ := h.calls other after hafter
      exact ⟨hqueue, hfinished.trans (by simp [Ne.symm hsame])⟩
  · rw [hboard]
    exact fun htook => h.ended (htaken htook)
  · rw [hboard]
    exact h.emptied

/-- A step that only leaves something else of a task that holds what it held. -/
theorem Custody.advance (h : c.Custody events)
    (hnew : requests new = [] ∧ registrations new = [] ∧ finishes new = []) {t : TaskId}
    {old next : Task} {c₁ : Client σ ρ} (htask : c.tasks[t]? = some old)
    (hheld : next.held = old.held) (htasks : c₁.tasks = c.tasks)
    (hreceiver : c₁.receiver = c.receiver) (hregistry : c₁.board.registry = c.board.registry)
    (hcalls : c₁.board.calls.map Call.standing = c.board.calls.map Call.standing) :
    (c₁.setTask t next).Custody (events ++ new) := by
  refine h.keep hnew hregistry hcalls (fun id => ?_) ?_
  · have hcount := count_holdings_setTask (c := c₁) (htasks ▸ htask) next id
    have hsame : c₁.holdings = c.holdings := by
      rw [holdings, holdings, htasks, hreceiver, hregistry]
    rw [hheld, hsame] at hcount
    omega
  · exact fun htook => hreceiver ▸ htook

/-- A step of the receiver, which holds afterwards what it held before. -/
theorem Custody.attend (h : c.Custody events)
    (hnew : requests new = [] ∧ registrations new = [] ∧ finishes new = [])
    (htasks : c'.tasks = c.tasks) (hheld : c'.receiver.held = c.receiver.held)
    (htaken : c'.receiver.hasTaken = true → c.receiver.hasTaken = true)
    (hregistry : c'.board.registry = c.board.registry)
    (hcalls : c'.board.calls.map Call.standing = c.board.calls.map Call.standing) :
    c'.Custody (events ++ new) := by
  refine h.keep hnew hregistry hcalls (fun id => ?_) htaken
  rw [holdings, holdings, htasks, hheld, hregistry]

/-- The registry has handed a call out: it is held by one more party, and the registry holds one
less. -/
theorem Custody.count_pending_remove (h : c.Custody events) {seq : UInt64} {id : CallId}
    (hfind : c.board.registry.find? seq = some id) (other : CallId) :
    ((c.board.registry.remove seq).2.pending.map (·.2)).count other + [id].count other =
      (c.board.registry.pending.map (·.2)).count other := by
  obtain ⟨before, after, hpending, hleft⟩ := h.numbered.pending_remove hfind
  rw [hpending, hleft]
  simp only [List.map_append, List.map_cons, List.count_append, List.count_cons, List.count_nil]
  omega

end Hand

/-! ## Every step -/

section Steps

variable {events new : List (Event ρ)} {c c' : Client σ ρ}

/-- What is done to the outcome of a call does not bear on finishing it. -/
theorem standing_setError (b : Board ρ) (id : CallId) (status : Status) :
    (b.setError id status).calls.map Call.standing = b.calls.map Call.standing :=
  map_calls_modifyCall (f := fun call => { call with error := status }) (fun _ => rfl) b id

theorem standing_registered (b : Board ρ) (id : CallId) :
    (b.registered id).calls.map Call.standing = b.calls.map Call.standing :=
  map_calls_modifyCall (f := fun call => { call with seq := b.registry.nextSeq })
    (fun _ => rfl) b id

theorem Custody.send [ByteStream σ] (h : c.Custody events) {t : TaskId} {id : CallId}
    {call : Call ρ} {waits : Bool} {phase : SendPhase}
    (hfew : (registrations (events ++ new)).length < Registry.seqLimit)
    (htask : c.tasks[t]? = some (.send id waits phase))
    (hchange : SendChange c t id call waits phase new c') : c'.Custody (events ++ new) := by
  cases hchange with
  | enter => exact h.advance ⟨rfl, rfl, rfl⟩ htask rfl rfl rfl rfl rfl
  | register havail =>
      have hregistered : registrations (events ++ [Event.registered id c.board.registry.nextSeq]) =
          registrations events ++ [(id, c.board.registry.nextSeq)] := by
        rw [registrations_append]
        rfl
      rw [registrations_append, List.length_append] at hfew
      refine h.hand ?_ (standing_registered ..) (fun other => ?_) rfl rfl h.ended ?_
      · rw [hregistered, List.length_append]
        exact h.numbered.filed hfew id
      · have hcount := count_holdings_setTask
          (c := { c with board := c.board.registered id }) htask (.send id waits .addressing) other
        simp only [holdings, Task.held, registry_registered, Registry.filed, List.map_append,
          List.map_singleton, List.count_append, Option.toList_some, Option.toList_none,
          List.count_nil] at hcount ⊢
        omega
      · intro hshut
        simp [isAvailable, Registry.isAvailable] at havail
        simp [setTask, Registry.filed, havail.2] at hshut
  | refuse => exact h.advance ⟨rfl, rfl, rfl⟩ htask rfl rfl rfl rfl (standing_setError ..)
  | address => exact h.advance ⟨rfl, rfl, rfl⟩ htask rfl rfl rfl rfl rfl
  | write => exact h.advance ⟨rfl, rfl, rfl⟩ htask rfl rfl rfl rfl rfl
  | fail => exact h.advance ⟨rfl, rfl, rfl⟩ htask rfl rfl rfl rfl rfl
  | @withdraw f other hfind =>
      refine h.hand ?_ (standing_setError ..) (fun id' => ?_) rfl rfl h.ended ?_
      · simpa [setTask, note] using h.numbered.remove c.header.seq
      · have hcount := count_holdings_setTask
          (c := note { c with
              board := (c.board.remove c.header.seq).2.setError other (sendFailure f) }
            [sendWarning c.header f]) htask (.send id waits (.finishing other)) id'
        have hpending := h.count_pending_remove hfind id'
        simp only [holdings, note, Task.held, registry_setError, remove_snd, List.count_append,
          Option.toList_some, Option.toList_none, List.count_nil] at hcount ⊢
        omega
      · intro hshut
        have hempty := h.emptied hshut
        simp [Registry.find?, hempty] at hfind
  | answered => exact h.advance ⟨rfl, rfl, rfl⟩ htask rfl rfl rfl rfl rfl
  | @finish other b hfinish =>
      refine h.finish hfinish (fun id' => ?_) fun htook => htook
      have hcount := count_holdings_setTask
        (c := { c with board := b }) htask (.send id waits .leaving) id'
      simp only [holdings, Task.held, registry_finish hfinish, List.count_append,
        Option.toList_some, Option.toList_none, List.count_nil] at hcount ⊢
      omega
  | leave =>
      refine h.advance ⟨rfl, rfl, rfl⟩ htask ?_ rfl rfl rfl rfl
      cases waits <;> rfl
  | collect _ hpop =>
      obtain ⟨q, q', -, -, rfl⟩ := pop?_eq_some hpop
      exact h.advance ⟨rfl, rfl, rfl⟩ htask rfl rfl rfl rfl rfl

theorem Custody.close [ByteStream σ] (h : c.Custody events) {t : TaskId} {drops : Bool}
    {phase : ClosePhase} (htask : c.tasks[t]? = some (.close drops phase))
    (hchange : CloseChange c t drops phase c') : c'.Custody events := by
  rw [← List.append_nil events]
  cases hchange with
  | begin =>
      refine h.hand ?_ rfl (fun id => ?_) rfl rfl h.ended h.emptied
      · rw [List.append_nil]
        exact ⟨h.numbered.next, h.numbered.rising, h.numbered.handedOut⟩
      · have hcount := count_holdings_setTask (c := c) htask (.close drops .shutting) id
        simp only [Task.held, Option.toList_none, List.count_nil, Nat.add_zero] at hcount
        exact hcount
  | _ => exact h.advance ⟨rfl, rfl, rfl⟩ htask rfl rfl rfl rfl rfl

/-- The receiver finds a call of a response, and holds it from then on. -/
theorem Custody.take (h : c.Custody events) {response : Header} {id : CallId}
    (hat : c.receiver = .matching response)
    (hfind : c.board.registry.find? response.seq = some id)
    (htasks : c'.tasks = c.tasks) (hheld : c'.receiver.held = [id])
    (htaken : c'.receiver.hasTaken = false)
    (hregistry : c'.board.registry = (c.board.registry.remove response.seq).2)
    (hcalls : c'.board.calls.map Call.standing = c.board.calls.map Call.standing) :
    c'.Custody (events ++ [.matched response]) := by
  have hsame : registrations (events ++ [Event.matched (ρ := ρ) response]) =
      registrations events := by
    simp [registrations]
  refine h.hand ?_ hcalls (fun other => ?_) rfl rfl ?_ ?_
  · rw [hsame, hregistry]
    exact h.numbered.remove response.seq
  · have hbefore : c.receiver.held = [] := hat ▸ rfl
    have hpending := h.count_pending_remove hfind other
    simp only [holdings, htasks, hheld, hregistry, hbefore, List.count_append, List.nil_append]
    omega
  · simp [htaken]
  · rw [hregistry]
    intro hshut
    have hempty := h.emptied hshut
    simp [Registry.find?, hempty] at hfind

theorem Custody.receive [ByteStream σ] (h : c.Custody events)
    (hchange : ReceiverChange c c.receiver new c') : c'.Custody (events ++ new) := by
  generalize hat : c.receiver = place at hchange
  cases hchange with
  | stray =>
      refine h.attend ⟨rfl, rfl, rfl⟩ rfl ?_ ?_ rfl rfl
      · simp [noteReceiver, hat, Receiver.held]
      · simp [noteReceiver, hat, Receiver.hasTaken]
  | matchError hfind => exact h.take hat hfind rfl rfl rfl rfl (standing_setError ..)
  | matchReply hfind => exact h.take hat hfind rfl rfl rfl rfl rfl
  | @finish id fault b hfinish =>
      refine h.finish hfinish (fun other => ?_) (by simp)
      have hbefore : c.receiver.held = [id] := hat ▸ rfl
      simp only [holdings, hbefore, Receiver.held_afterCall, registry_finish hfinish,
        List.count_append, List.count_nil]
      omega
  | @take f =>
      refine h.hand ?_ rfl (fun id => ?_) rfl rfl (fun _ => rfl) fun _ => rfl
      · rw [List.append_nil]
        exact h.numbered.emptied
      · simp [holdings, hat, Receiver.held, Registry.emptied, List.count_append,
          (c.board.takeAll_perm c.order).count_eq]
  | @terminate f id ids b hfinish =>
      have hset : Custody events { c with board := c.board.setError id (connectionLost f) } := by
        rw [← List.append_nil events]
        exact h.attend ⟨rfl, rfl, rfl⟩ rfl rfl (fun htook => htook) rfl (standing_setError ..)
      refine hset.finish hfinish (fun other => ?_) (by simp [hat, Receiver.hasTaken])
      simp only [holdings, hat, Receiver.held, registry_finish hfinish, registry_setError,
        List.count_append, List.count_cons, List.count_nil]
      omega
  | @skipFail stage codec call =>
      refine h.attend ⟨rfl, rfl, rfl⟩ rfl (hat ▸ ?_) ?_ rfl rfl
      · cases call <;> rfl
      · cases call <;> simp [Receiver.hasTaken]
  | @skip stage codec call =>
      refine h.attend ⟨rfl, rfl, rfl⟩ rfl (hat ▸ ?_) ?_ rfl rfl
      · cases call <;> rfl
      · cases call <;> simp [Receiver.hasTaken]
  | replyFail =>
      refine h.attend ⟨rfl, rfl, rfl⟩ rfl (hat ▸ rfl) ?_ rfl (standing_setError ..)
      simp [Receiver.hasTaken]
  | @reply stage codec id call body after entries fault =>
      refine h.attend ⟨rfl, rfl, rfl⟩ rfl (hat ▸ rfl) ?_ rfl ?_
      · simp [noteReceiver, Receiver.hasTaken]
      · exact map_calls_modifyCall (g := Call.standing) (f := fun call' =>
          { call' with reply := after, error := (replyOutcome call.error fault).1 })
          (fun _ => rfl) c.board id
  | _ =>
      refine h.attend ⟨rfl, rfl, rfl⟩ rfl (hat ▸ rfl) ?_ rfl rfl
      simp [hat, noteReceiver, Receiver.hasTaken]

/-- A call that has been begun is held by the thread that begins it. -/
theorem Custody.begin (h : c.Custody events) {queues : List CompletionQueue} (r : Request ρ)
    (queue : QueueId) (waits : Bool) :
    (beginSend { c with board := { c.board with queues } } r queue waits).1.Custody
      (events ++ [.begun c.board.calls.length r]) := by
  have hsame : registrations (events ++ [Event.begun c.board.calls.length r]) =
      registrations events := by
    simp [registrations]
  have hkept : finishes (events ++ [Event.begun c.board.calls.length r]) = finishes events := by
    simp [finishes]
  have hnew : c.board.calls.length ∉ finishes events := by
    have hledger := h.ledger c.board.calls.length
    rw [if_neg (Nat.lt_irrefl _)] at hledger
    rw [← List.count_eq_zero]
    omega
  refine ⟨hsame ▸ h.numbered, fun id => ?_, ?_, fun id call hcall => ?_, h.ended, h.emptied⟩
  · rw [hkept]
    have hledger := h.ledger id
    have hone : [Task.send c.board.calls.length waits .entering].filterMap Task.held =
        [c.board.calls.length] := rfl
    simp only [holdings, beginSend, addCall, hone, List.filterMap_append, List.count_append,
      List.length_append, List.length_singleton, List.count_singleton, beq_iff_eq] at hledger ⊢
    rcases Nat.lt_trichotomy id c.board.calls.length with hlt | heq | hgt
    · rw [if_pos hlt] at hledger
      rw [if_neg (Nat.ne_of_gt hlt), if_pos (Nat.lt_succ_of_lt hlt)]
      omega
    · rw [if_neg (heq ▸ Nat.lt_irrefl _)] at hledger
      rw [if_pos heq.symm, if_pos (heq ▸ Nat.lt_succ_self _)]
      omega
    · rw [if_neg (Nat.lt_asymm hgt)] at hledger
      rw [if_neg (Nat.ne_of_lt hgt), if_neg (Nat.not_lt.mpr hgt)]
      omega
  · simpa [requests, beginSend, addCall, List.range_succ] using h.begun
  · rw [hkept]
    simp only [beginSend, addCall, call?, List.getElem?_append] at hcall
    split at hcall
    case isTrue hold => exact h.calls id call hcall
    case isFalse hlast =>
      obtain ⟨hle, rfl⟩ : id ≤ c.board.calls.length ∧ r.toCall queue = call := by
        simpa [List.getElem?_singleton, Nat.sub_eq_zero_iff_le] using hcall
      obtain rfl := Nat.le_antisymm hle (Nat.not_lt.mp hlast)
      exact ⟨rfl, by simp [Request.toCall, hnew]⟩

theorem Custody.change [ByteStream σ] (h : c.Custody events)
    (hfew : (registrations (events ++ new)).length < Registry.seqLimit)
    (hchange : Change c new c') : c'.Custody (events ++ new) := by
  cases hchange with
  | begin => exact h.begin _ _ _
  | send htask _ hsend => exact h.send hfew htask hsend
  | closing htask hclose =>
      rw [List.append_nil]
      exact h.close htask hclose
  | receive hreceive => exact h.receive hreceive
  | collect hpop =>
      obtain ⟨q, q', -, -, rfl⟩ := pop?_eq_some hpop
      exact h.keep ⟨rfl, rfl, rfl⟩ rfl rfl (fun _ => rfl) fun htook => htook
  | close drops =>
      refine h.keep ⟨rfl, rfl, rfl⟩ rfl rfl (fun id => ?_) fun htook => htook
      have hnone : [Task.close drops .entering].filterMap Task.held = [] := rfl
      simp [holdings, Client.beginClose, hnone]
  | _ => exact h.keep ⟨rfl, rfl, rfl⟩ rfl rfl (fun _ => rfl) fun htook => htook

end Steps

/-! ## Runs -/

variable [ByteStream σ] {outside : σ → σ → Prop} {codec : Codec σ} {p : Preamble}
  {log : List Log.Entry} {order : Registry.Order} {events : List (Event ρ)} {c : Client σ ρ}

/-- Every run leaves all calls in custody. -/
theorem Run.custody (run : Run outside (Client.start codec p log order) events c)
    (hfew : (registrations events).length < Registry.seqLimit) : c.Custody events := by
  induction run with
  | start => exact custody_start codec p log order
  | step _ move hstep ih =>
      have hbefore := ih (few_of_append hfew)
      exact hbefore.change hfew (change_of_step hbefore.numbered hbefore.readsReply hstep)
  | outside _ stream _ ih =>
      have hbefore := ih hfew
      exact ⟨hbefore.numbered, hbefore.ledger, hbefore.begun, hbefore.calls, hbefore.ended,
        hbefore.emptied⟩

theorem Custody.stepSend_ne_aborted (h : c.Custody events) {t : TaskId} {id : CallId}
    {call : Call ρ} {waits : Bool} {phase : SendPhase}
    (htask : c.tasks[t]? = some (.send id waits phase)) (cause : Abort) :
    c.stepSend t id call waits phase ≠ .aborted cause := by
  cases phase with
  | finishing other =>
      have hheld : other ∈ c.holdings := mem_holdings_of_task htask rfl
      cases hfinish : c.board.finish other with
      | aborted cause' => exact absurd hfinish (h.finish_ne_aborted hheld cause')
      | _ => simp [stepSend, hfinish]
  | _ =>
      simp only [stepSend]
      repeat' split
      all_goals simp

theorem stepClose_ne_aborted (c : Client σ ρ) (t : TaskId) (drops : Bool) (phase : ClosePhase)
    (cause : Abort) : c.stepClose t drops phase ≠ .aborted cause := by
  cases phase with
  | shutting => simp [stepClose]
  | returned => simp [stepClose]
  | _ =>
      simp only [stepClose]
      split <;> simp

theorem stepFrame_ne_aborted (c : Client σ ρ) (stage : Frame.Stage)
    (waiting : Frame.Stage → Receiver) (finish : Client σ ρ → Except Fault Bytes → Client σ ρ)
    (cause : Abort) : c.stepFrame stage waiting finish ≠ .aborted cause := by
  unfold stepFrame
  split
  · split <;> simp
  · simp

theorem Custody.stepReceiver_ne_aborted (h : c.Custody events) (cause : Abort) :
    c.stepReceiver ≠ .aborted cause := by
  unfold stepReceiver
  split
  case h_1 => exact stepFrame_ne_aborted c _ _ _ cause
  case h_2 => simp
  case h_3 => exact stepFrame_ne_aborted c _ _ _ cause
  case h_4 => exact stepFrame_ne_aborted c _ _ _ cause
  case h_5 id fault hat =>
    have hheld : id ∈ c.holdings := mem_holdings_of_receiver (by simp [hat, Receiver.held])
    cases hfinish : c.board.finish id with
    | aborted cause' => exact absurd hfinish (h.finish_ne_aborted hheld cause')
    | _ => simp [Turn.map]
  case h_6 => simp
  case h_7 => split <;> simp
  case h_8 => simp
  case h_9 => simp
  case h_10 f id ids hat =>
    have hheld : id ∈ c.holdings := mem_holdings_of_receiver (by simp [hat, Receiver.held])
    cases hfinish : c.board.finishWith (connectionLost f) id with
    | aborted cause' => exact absurd hfinish (h.finishWith_ne_aborted hheld (connectionLost f) cause')
    | _ => simp [Turn.map]
  case h_11 => simp
  case h_12 => simp

/-- Nobody ends the process by finishing a call that it holds. -/
theorem Custody.step_ne_aborted (h : c.Custody events) (move : Move ρ) (cause : Abort) :
    c.step move ≠ .aborted cause := by
  cases move with
  | queue capacity => simp [step]
  | go r queue =>
      simp only [step]
      split
      · split <;> simp
      · simp
  | call r => simp [step]
  | close drops => simp [step]
  | collect queue =>
      simp only [step]
      split <;> simp
  | task t =>
      simp only [step, stepTask]
      split
      case h_1 => simp
      case h_2 id waits phase htask =>
        split
        case h_1 => simp
        case h_2 call hcall => exact h.stepSend_ne_aborted htask cause
      case h_3 drops phase htask => exact stepClose_ne_aborted c t drops phase cause
  | receive => exact h.stepReceiver_ne_aborted cause

/-- A call that is finished in a step is put into its queue, behind all others. -/
theorem Change.delivered {new : List (Event ρ)} {c' : Client σ ρ} {id : CallId}
    (h : Change c new c') (hfinished : .finished id ∈ new) :
    ∃ call queue q, c.board.call? id = some call ∧ call.queue = some queue ∧
      c.board.queue? queue = some q ∧ q.hasRoom = true ∧
      c'.board.queue? queue = some { q with items := q.items ++ [id] } := by
  have hfinish {b : Board ρ} (hfinish : c.board.finish id = .moved b) :
      ∃ call queue q, c.board.call? id = some call ∧ call.queue = some queue ∧
        c.board.queue? queue = some q ∧ q.hasRoom = true ∧
        b.queue? queue = some { q with items := q.items ++ [id] } := by
    obtain ⟨call, queue, q, hcall, -, hqueue, hq, hroom, rfl⟩ := finish_delivered hfinish
    exact ⟨call, queue, q, hcall, hqueue, hq, hroom,
      List.getElem?_set_self (List.getElem?_eq_some_iff.mp hq).1⟩
  cases h with
  | send _ _ h =>
      cases h with
      | finish hdone =>
          obtain rfl : id = _ := by simpa using hfinished
          exact hfinish hdone
      | _ => simp at hfinished
  | receive h =>
      generalize c.receiver = place at h
      cases h with
      | finish hdone =>
          obtain rfl : id = _ := by simpa using hfinished
          exact hfinish hdone
      | terminate hdone =>
          obtain rfl : id = _ := by simpa using hfinished
          obtain ⟨call, queue, q, hcall, -, hqueue, hq, hroom, rfl⟩ := finishWith_delivered hdone
          exact ⟨call, queue, q, hcall, hqueue, hq, hroom,
            List.getElem?_set_self (List.getElem?_eq_some_iff.mp hq).1⟩
      | _ => simp at hfinished
  | _ => simp at hfinished

/-- **Every call is finished exactly once.**  Whatever the connection does and however threads go
on, as long as the numbers do not run out: the process is never ended by a call that is finished
again, no call is finished twice, a call in flight is not finished, and when the receiver is gone
and no thread is sending, nothing is in flight and every call ever begun has been finished once.  A
call that is finished is put into its queue in the same step, behind all others. -/
theorem finished_exactly_once (run : Run outside (start codec p log order) events c)
    (hfew : (registrations events).length < Registry.seqLimit) :
    (∀ move cause, c.step move ≠ .aborted cause) ∧
    (finishes events).Nodup ∧
    (∀ id call, c.board.call? id = some call → (call.finished = true ↔ id ∈ finishes events)) ∧
    (∀ move c' id, c.step move = .moved c' → .finished id ∈ c.observe move →
      ∃ call queue q, c.board.call? id = some call ∧ call.queue = some queue ∧
        c.board.queue? queue = some q ∧ q.hasRoom = true ∧
        c'.board.queue? queue = some { q with items := q.items ++ [id] }) ∧
    (∀ entry ∈ c.board.registry.pending,
      ∃ call, c.board.call? entry.2 = some call ∧ call.finished = false) ∧
    (requests events).map (·.1) = List.range c.board.calls.length ∧
    (c.receiver = .exited → (∀ task ∈ c.tasks, task.isSending = false) →
      c.board.registry.pending = [] ∧
      ∀ id < c.board.calls.length, (finishes events).count id = 1 ∧
        ∃ call, c.board.call? id = some call ∧ call.finished = true) := by
  have h := run.custody hfew
  refine ⟨h.step_ne_aborted, ?_, fun id call hcall => (h.calls id call hcall).2,
    fun move c' id hstep hdone =>
      (change_of_step h.numbered h.readsReply hstep).delivered hdone, ?_, h.begun, ?_⟩
  · refine List.nodup_iff_count.mpr fun id => ?_
    have hledger := h.ledger id
    split at hledger <;> omega
  · intro entry hentry
    have hheld : entry.2 ∈ c.holdings := by
      rw [holdings, List.mem_append, List.mem_append]
      exact .inr (.inr (List.mem_map_of_mem hentry))
    obtain ⟨call, hcall, hfinished, -⟩ := h.call_of_mem_holdings hheld
    exact ⟨call, hcall, hfinished⟩
  · intro hexited hidle
    have hempty : c.board.registry.pending = [] := h.emptied (h.ended (by rw [hexited]; rfl))
    refine ⟨hempty, fun id hid => ?_⟩
    have hnobody : c.holdings = [] := by
      have htasks : c.tasks.filterMap Task.held = [] := by
        rw [List.filterMap_eq_nil_iff]
        exact fun task htask => Task.held_eq_none (hidle task htask)
      rw [holdings, htasks, hexited, hempty]
      rfl
    have hledger := h.ledger id
    rw [hnobody, if_pos hid, List.count_nil, Nat.zero_add] at hledger
    have hcall : c.board.call? id = some c.board.calls[id] := List.getElem?_eq_getElem hid
    refine ⟨hledger, _, hcall, (h.calls id _ hcall).2.mpr ?_⟩
    exact List.count_pos_iff.mp (by omega)

/-- One request cannot be written, and the connection ends before another one is sent. -/
theorem finished_exactly_once_two_calls :
    ∃ (events : List (Event Unit)) (c : Client MemoryStream Unit),
      Run (fun _ _ => True) (start { stream := { ended := true } } {} []) events c ∧
      (registrations events).length < Registry.seqLimit ∧ c.receiver = .exited ∧
      c.board.registry.pending = [] ∧ (finishes events).count 1 = 1 := by
  have htrace : ∃ (events : List (Event Unit)) (c : Client MemoryStream Unit),
      (start { stream := { ended := true } } {} []).trace
        [.go { args := some fun s => (s, .refused .fail), reply := () } none, .task 0, .task 0,
          .go { reply := () } none, .receive, .receive, .task 0, .task 0, .task 0, .task 0,
          .task 0, .receive, .receive, .receive, .receive, .task 1, .task 1, .task 1,
          .task 1] = some (events, c) ∧
      registrations events = [(0, 1)] ∧ c.receiver = .exited ∧
      (∀ task ∈ c.tasks, task.isSending = false) ∧ c.board.calls.length = 2 :=
    ⟨_, _, rfl, by decide +kernel, rfl, by decide +kernel, rfl⟩
  obtain ⟨events, c, htrace, hone, hexited, hidle, hcalls⟩ := htrace
  have run : Run (fun _ _ => True) _ _ c := Run.start.trace htrace
  have hfew : (registrations ([] ++ events)).length < Registry.seqLimit := by
    rw [List.nil_append, hone]
    decide
  obtain ⟨-, -, -, -, -, -, hend⟩ := finished_exactly_once run hfew
  obtain ⟨hempty, honce⟩ := hend hexited hidle
  exact ⟨_, c, run, hfew, hexited, hempty, (honce 1 (by rw [hcalls]; decide)).1⟩

end Client

end RemoteCalls
