import RemoteCalls.Client.Receiver
import RemoteCalls.Client.Sender
import RemoteCalls.Proofs.Board.Operations

/-!
# RemoteCalls.Proofs.Client.Moves

Runs of a client: the application's threads, the receiver and the rest of the
world take their steps in any order.

A run records what happens to calls and messages (`Event`); everything else can
be read off the client it leads to.  `Run` takes as a parameter what the rest of
the world may do to the connection between two steps, such as octets arriving.

`change_of_step` says once what a step can do to a client, for each place a
thread can be at.  Everything that holds throughout a run is proved by cases on
`Change`.
-/

namespace RemoteCalls.Client

open Board

variable {σ ρ : Type}

/-! ## Moves -/

/-- Who takes the next step. -/
inductive Move (ρ : Type) where
  /-- The application makes a queue. -/
  | queue (capacity : Nat)
  /-- The application starts a call, to be delivered to the queue given or to one of its own. -/
  | go (request : Request ρ) (queue : Option QueueId)
  /-- The application makes a call and waits for it. -/
  | call (request : Request ρ)
  /-- The application closes the client, or drops it. -/
  | close (drops : Bool)
  /-- The application collects a call from a queue. -/
  | collect (queue : QueueId)
  /-- A thread of the application goes on with its task. -/
  | task (id : TaskId)
  /-- The receiver goes on. -/
  | receive

/-- Whether the application may begin a call in this move. -/
def Move.begins : Move ρ → Bool
  | .go _ _ => true
  | .call _ => true
  | _ => false

/-- What happens to calls and messages. -/
inductive Event (ρ : Type) where
  | begun (call : CallId) (request : Request ρ)
  | registered (call : CallId) (seq : UInt64)
  /-- The request of a call has been written. -/
  | sent (call : CallId)
  /-- The request of a call could not be written. -/
  | unsent (call : CallId)
  /-- A response's header has been read, and its call looked for. -/
  | matched (response : Header)
  /-- The body behind the latest header has been read. -/
  | consumed (body : Bytes)
  | finished (call : CallId)
  /-- The application has begun to close the client. -/
  | closing

variable [ByteStream σ]

/-- The client after a move.  A call can only be given a queue that has been made. -/
def step (c : Client σ ρ) : Move ρ → Turn (Client σ ρ)
  | .queue capacity => .moved { c with board := (c.board.addQueue capacity).1 }
  | .go r queue =>
      if queue.all fun id => (c.board.queue? id).isSome then
        match c.queueFor r queue with
        | (c, .ok id) => .moved (c.beginSend r id false).1
        | (c, .error _) => .moved c
      else .blocked
  | .call r =>
      let (board, queue) := c.board.addQueue 1
      .moved (beginSend { c with board } r queue true).1
  | .close drops => .moved (c.beginClose drops).1
  | .collect queue =>
      match c.board.pop? queue with
      | none => .blocked
      | some (_, board) => .moved { c with board }
  | .task id => c.stepTask id
  | .receive => c.stepReceiver

/-! ## Events -/

/-- What happens when a thread that sends a request goes on. -/
def observeSend (c : Client σ ρ) (id : CallId) (call : Call ρ) : SendPhase → List (Event ρ)
  | .registering =>
      if c.isAvailable then [.registered id c.board.registry.nextSeq] else []
  | .writing => if (c.writeRequest call).2.isNone then [.sent id] else [.unsent id]
  | .finishing other => [.finished other]
  | _ => []

/-- What happens when a body is read on. -/
def observeBody (c : Client σ ρ) (stage : Frame.Stage) : List (Event ρ) :=
  match c.codec.resume stage with
  | .done _ (.ok body) => [.consumed body]
  | _ => []

/-- What happens when the receiver goes on. -/
def observeReceiver (c : Client σ ρ) : List (Event ρ) :=
  match c.receiver with
  | .matching response => [.matched response]
  | .skipping stage _ => c.observeBody stage
  | .reply stage _ => c.observeBody stage
  | .finishing id _ => [.finished id]
  | .terminating _ (id :: _) => [.finished id]
  | _ => []

/-- What happens in a move. -/
def observe (c : Client σ ρ) : Move ρ → List (Event ρ)
  | .go r queue =>
      match (c.queueFor r queue).2 with
      | .ok _ => [.begun c.board.calls.length r]
      | .error _ => []
  | .call r => [.begun c.board.calls.length r]
  | .close _ => [.closing]
  | .task t =>
      match c.tasks[t]? with
      | some (.send id _ phase) => (c.board.call? id).elim [] fun call => c.observeSend id call phase
      | _ => []
  | .receive => c.observeReceiver
  | _ => []

/-- Moves and events of the outside in any order, from one client to another.  `outside` says what
may happen to the connection between two moves. -/
inductive Run (outside : σ → σ → Prop) (c₀ : Client σ ρ) : List (Event ρ) → Client σ ρ → Prop where
  | start : Run outside c₀ [] c₀
  | step {events : List (Event ρ)} {c c' : Client σ ρ} (run : Run outside c₀ events c)
      (move : Move ρ) (h : c.step move = .moved c') :
      Run outside c₀ (events ++ c.observe move) c'
  | outside {events : List (Event ρ)} {c : Client σ ρ} (run : Run outside c₀ events c)
      (stream : σ) (h : outside c.codec.stream stream) :
      Run outside c₀ events (c.withStream stream)

theorem Run.mono {outside outside' : σ → σ → Prop} {c₀ c : Client σ ρ} {events : List (Event ρ)}
    (run : Run outside c₀ events c) (hle : ∀ s s', outside s s' → outside' s s') :
    Run outside' c₀ events c := by
  induction run with
  | start => exact .start
  | step _ move h ih => exact ih.step move h
  | outside _ stream h ih => exact ih.outside stream (hle _ _ h)

/-- What happens in these moves, one after another, and the client after them, unless one of them
cannot be made. -/
def trace (c : Client σ ρ) : List (Move ρ) → Option (List (Event ρ) × Client σ ρ)
  | [] => some ([], c)
  | move :: moves =>
      match c.step move with
      | .moved c' => (trace c' moves).map fun (events, last) => (c.observe move ++ events, last)
      | _ => none

theorem Run.trace {outside : σ → σ → Prop} {c₀ c c' : Client σ ρ} {events new : List (Event ρ)}
    {moves : List (Move ρ)} (run : Run outside c₀ events c)
    (h : c.trace moves = some (new, c')) : Run outside c₀ (events ++ new) c' := by
  induction moves generalizing c events new with
  | nil =>
      simp only [Client.trace, Option.some.injEq, Prod.mk.injEq] at h
      obtain ⟨rfl, rfl⟩ := h
      simpa using run
  | cons move moves ih =>
      simp only [Client.trace] at h
      cases hstep : c.step move with
      | moved next =>
          simp only [hstep, Option.map_eq_some_iff, Prod.mk.injEq] at h
          obtain ⟨⟨later, last⟩, hlater, rfl, rfl⟩ := h
          rw [← List.append_assoc]
          exact ih (run.step move hstep) hlater
      | _ => simp [hstep] at h

/-! ## What a history holds -/

/-- The calls that have been begun, in order, and what they ask for. -/
def requests (events : List (Event ρ)) : List (CallId × Request ρ) :=
  events.filterMap fun
    | .begun call request => some (call, request)
    | _ => none

/-- The registrations in a history, in order. -/
def registrations (events : List (Event ρ)) : List (CallId × UInt64) :=
  events.filterMap fun
    | .registered call seq => some (call, seq)
    | _ => none

/-- The calls whose requests have been written, in order. -/
def sentCalls (events : List (Event ρ)) : List CallId :=
  events.filterMap fun
    | .sent call => some call
    | _ => none

/-- The headers of the responses, in order. -/
def headersRead (events : List (Event ρ)) : List Header :=
  events.filterMap fun
    | .matched response => some response
    | _ => none

/-- The bodies of the responses, in order. -/
def bodiesRead (events : List (Event ρ)) : List Bytes :=
  events.filterMap fun
    | .consumed body => some body
    | _ => none

/-- The calls that have been finished, in order. -/
def finishes (events : List (Event ρ)) : List CallId :=
  events.filterMap fun
    | .finished call => some call
    | _ => none

section Append

variable (es fs : List (Event ρ))

@[simp] theorem requests_append : requests (es ++ fs) = requests es ++ requests fs :=
  List.filterMap_append

@[simp] theorem registrations_append :
    registrations (es ++ fs) = registrations es ++ registrations fs := List.filterMap_append

/-- There were not more registrations before. -/
theorem few_of_append {es fs : List (Event ρ)} {n : Nat}
    (h : (registrations (es ++ fs)).length < n) : (registrations es).length < n := by
  rw [registrations_append, List.length_append] at h
  omega

@[simp] theorem sentCalls_append : sentCalls (es ++ fs) = sentCalls es ++ sentCalls fs :=
  List.filterMap_append

@[simp] theorem headersRead_append :
    headersRead (es ++ fs) = headersRead es ++ headersRead fs := List.filterMap_append

@[simp] theorem bodiesRead_append :
    bodiesRead (es ++ fs) = bodiesRead es ++ bodiesRead fs := List.filterMap_append

@[simp] theorem finishes_append : finishes (es ++ fs) = finishes es ++ finishes fs :=
  List.filterMap_append

end Append

/-- A thread that goes on does one thing at a time. -/
theorem observe_task_cases (c : Client σ ρ) (t : TaskId) :
    c.observe (.task t) = [] ∨ ∃ id, (∃ seq, c.observe (.task t) = [.registered id seq]) ∨
      c.observe (.task t) = [.sent id] ∨ c.observe (.task t) = [.unsent id] ∨
      c.observe (.task t) = [.finished id] := by
  simp only [observe]
  split
  case h_2 => exact .inl rfl
  case h_1 id _ phase _ =>
    cases c.board.call? id with
    | none => exact .inl rfl
    | some call =>
        cases phase with
        | registering =>
            simp only [Option.elim_some, observeSend]
            split
            · exact .inr ⟨id, .inl ⟨_, rfl⟩⟩
            · exact .inl rfl
        | writing =>
            simp only [Option.elim_some, observeSend]
            split
            · exact .inr ⟨id, .inr (.inl rfl)⟩
            · exact .inr ⟨id, .inr (.inr (.inl rfl))⟩
        | finishing other => exact .inr ⟨other, .inr (.inr (.inr rfl))⟩
        | _ => exact .inl rfl

/-- The receiver does one thing at a time. -/
theorem observeReceiver_cases (c : Client σ ρ) :
    c.observeReceiver = [] ∨
      (∃ response, c.receiver = .matching response ∧ c.observeReceiver = [.matched response]) ∨
      (∃ body, c.observeReceiver = [.consumed body]) ∨ ∃ id, c.observeReceiver = [.finished id] := by
  have hbody (stage : Frame.Stage) :
      c.observeBody stage = [] ∨ ∃ body, c.observeBody stage = [.consumed body] := by
    unfold observeBody
    split
    · exact .inr ⟨_, rfl⟩
    · exact .inl rfl
  unfold observeReceiver
  split
  case h_1 response hat => exact .inr (.inl ⟨response, hat, rfl⟩)
  case h_2 stage call hat => exact (hbody stage).imp_right fun hconsumed => .inr (.inl hconsumed)
  case h_3 stage id hat => exact (hbody stage).imp_right fun hconsumed => .inr (.inl hconsumed)
  case h_4 id fault hat => exact .inr (.inr (.inr ⟨id, rfl⟩))
  case h_5 f id ids hat => exact .inr (.inr (.inr ⟨id, rfl⟩))
  case h_6 => exact .inl rfl

/-- The receiver registers no calls. -/
theorem registrations_observeReceiver (c : Client σ ρ) : registrations c.observeReceiver = [] := by
  obtain h | ⟨response, -, h⟩ | ⟨body, h⟩ | ⟨id, h⟩ := c.observeReceiver_cases <;>
  · rw [h]
    rfl

/-- Calls are only begun in moves that begin one. -/
theorem requests_observe (c : Client σ ρ) {move : Move ρ} (h : move.begins = false) :
    requests (c.observe move) = [] := by
  cases move with
  | go r queue => contradiction
  | call r => contradiction
  | task t =>
      obtain h | ⟨id, ⟨seq, h⟩ | h | h | h⟩ := c.observe_task_cases t <;>
      · rw [h]
        rfl
  | receive =>
      rw [observe]
      obtain h | ⟨response, -, h⟩ | ⟨body, h⟩ | ⟨id, h⟩ := c.observeReceiver_cases <;>
      · rw [h]
        rfl
  | _ => rfl

/-- Calls are only looked for by a receiver that has a header. -/
theorem headersRead_observe (c : Client σ ρ) (move : Move ρ) :
    headersRead (c.observe move) = [] ∨ ∃ response, move = .receive ∧
      c.receiver = .matching response ∧ c.observe move = [.matched response] := by
  cases move with
  | go r queue =>
      simp only [observe]
      split <;> exact .inl rfl
  | task t =>
      obtain h | ⟨id, ⟨seq, h⟩ | h | h | h⟩ := c.observe_task_cases t <;>
      · rw [h]
        exact .inl rfl
  | receive =>
      obtain h | ⟨response, hat, h⟩ | ⟨body, h⟩ | ⟨id, h⟩ := c.observeReceiver_cases
      · exact .inl (congrArg headersRead h)
      · exact .inr ⟨response, rfl, hat, h⟩
      · exact .inl (congrArg headersRead h)
      · exact .inl (congrArg headersRead h)
  | _ => exact .inl rfl

/-! ## What a move does -/

section Task

omit [ByteStream σ]

@[simp] theorem setTask_codec (c : Client σ ρ) (t : TaskId) (task : Task) :
    (c.setTask t task).codec = c.codec := rfl

@[simp] theorem setTask_board (c : Client σ ρ) (t : TaskId) (task : Task) :
    (c.setTask t task).board = c.board := rfl

@[simp] theorem setTask_lock (c : Client σ ρ) (t : TaskId) (task : Task) :
    (c.setTask t task).lock = c.lock := rfl

@[simp] theorem setTask_header (c : Client σ ρ) (t : TaskId) (task : Task) :
    (c.setTask t task).header = c.header := rfl

@[simp] theorem setTask_receiver (c : Client σ ρ) (t : TaskId) (task : Task) :
    (c.setTask t task).receiver = c.receiver := rfl

/-- A task that goes on is one among others, which stay as they are. -/
theorem setTask_split {c : Client σ ρ} {t : TaskId} {old : Task} (h : c.tasks[t]? = some old) :
    ∃ before after, c.tasks = before ++ old :: after ∧
      ∀ new, (c.setTask t new).tasks = before ++ new :: after := by
  obtain ⟨hlt, rfl⟩ := List.getElem?_eq_some_iff.mp h
  refine ⟨c.tasks.take t, c.tasks.drop (t + 1), ?_, fun new => ?_⟩
  · rw [List.getElem_cons_drop, List.take_append_drop]
  · exact List.set_eq_take_append_cons_drop.trans (if_pos hlt)

/-- A task is the one that goes on, or one in another place that stays as it is. -/
theorem eq_or_getElem?_of_mem_set {tasks : List Task} {t : TaskId} {next task : Task}
    (h : task ∈ tasks.set t next) : task = next ∨ ∃ t', t ≠ t' ∧ tasks[t']? = some task := by
  obtain ⟨t', htask⟩ := List.mem_iff_getElem?.mp h
  rw [List.getElem?_set] at htask
  split at htask
  case isTrue =>
    split at htask
    · exact .inl (Option.some.inj htask).symm
    · contradiction
  case isFalse hne => exact .inr ⟨t', hne, htask⟩

/-- A task that goes on is such as to have `P` only if it was before. -/
theorem exists_task_of_set {P : Task → Prop} {tasks : List Task} {t : TaskId} {old next : Task}
    (htask : tasks[t]? = some old) (hnext : P next → P old)
    (h : ∃ task ∈ tasks.set t next, P task) : ∃ task ∈ tasks, P task := by
  obtain ⟨task, hmem, htrue⟩ := h
  obtain hold | rfl := List.mem_or_eq_of_mem_set hmem
  · exact ⟨task, hold, htrue⟩
  · exact ⟨old, List.mem_of_getElem? htask, hnext htrue⟩

end Task

/-- What a thread that sends the request of `call` does in its next step. -/
inductive SendChange (c : Client σ ρ) (t : TaskId) (id : CallId) (call : Call ρ) (waits : Bool) :
    SendPhase → List (Event ρ) → Client σ ρ → Prop where
  | enter (hlock : c.lock = none) :
      SendChange c t id call waits .entering []
        (setTask { c with lock := some (.task t) } t (.send id waits .registering))
  | register (havail : c.isAvailable = true) :
      SendChange c t id call waits .registering [.registered id c.board.registry.nextSeq]
        (setTask { c with board := c.board.registered id } t (.send id waits .addressing))
  | refuse (havail : c.isAvailable = false) :
      SendChange c t id call waits .registering []
        (setTask { c with board := c.board.setError id .unavailable } t
          (.send id waits (.finishing id)))
  | address :
      SendChange c t id call waits .addressing []
        (setTask { c with header := requestHeader call } t (.send id waits .writing))
  | write {codec : Codec σ} {entries : List Log.Entry}
      (hwrite : c.codec.write c.header call.args = (codec, entries, none)) :
      SendChange c t id call waits .writing [.sent id]
        (setTask (note { c with codec } entries) t (.send id waits .leaving))
  | fail {codec : Codec σ} {entries : List Log.Entry} {f : Fault}
      (hwrite : c.codec.write c.header call.args = (codec, entries, some f)) :
      SendChange c t id call waits .writing [.unsent id]
        (setTask (note { c with codec } entries) t (.send id waits (.withdrawing f)))
  | withdraw {f : Fault} {other : CallId}
      (hfind : c.board.registry.find? c.header.seq = some other) :
      SendChange c t id call waits (.withdrawing f) []
        (setTask (note
            { c with board := (c.board.remove c.header.seq).2.setError other (sendFailure f) }
            [sendWarning c.header f]) t (.send id waits (.finishing other)))
  | answered {f : Fault} (hfind : c.board.registry.find? c.header.seq = none) :
      SendChange c t id call waits (.withdrawing f) [] (c.setTask t (.send id waits .leaving))
  | finish {other : CallId} {b : Board ρ} (hfinish : c.board.finish other = .moved b) :
      SendChange c t id call waits (.finishing other) [.finished other]
        (setTask { c with board := b } t (.send id waits .leaving))
  | leave :
      SendChange c t id call waits .leaving []
        (setTask { c with lock := none } t
          (.send id waits (if waits then .collecting else .returned none)))
  | collect {queue : QueueId} {other : CallId} {b : Board ρ} (hqueue : call.queue = some queue)
      (hpop : c.board.pop? queue = some (other, b)) :
      SendChange c t id call waits .collecting []
        (setTask { c with board := b } t (.send id waits (.returned (some other))))

/-- What a thread that closes the client does in its next step. -/
inductive CloseChange (c : Client σ ρ) (t : TaskId) (drops : Bool) :
    ClosePhase → Client σ ρ → Prop where
  | begin (hclosing : c.board.registry.closing = false) :
      CloseChange c t drops .entering
        (setTask (note
            { c with board := { c.board with registry := { c.board.registry with closing := true } } }
            [Log.info (.ofText "closing rpc client")]) t (.close drops .shutting))
  | refuse (hclosing : c.board.registry.closing = true) :
      CloseChange c t drops .entering (c.setTask t (.close drops (.reporting .unavailable)))
  | shut :
      CloseChange c t drops .shutting
        (setTask { c with codec := c.codec.close.1 } t
          (.close drops (.reporting (c.codec.close.2.elim {} closeFailure))))
  | report {status : Status} (entries : List Log.Entry) (hdrops : drops = true) :
      CloseChange c t drops (.reporting status)
        ((c.note entries).setTask t (.close drops (.joining status)))
  | done {status : Status} (hdrops : drops = false) :
      CloseChange c t drops (.reporting status) (c.setTask t (.close drops (.returned status)))
  | join {status : Status} (hexited : c.receiver = .exited) :
      CloseChange c t drops (.joining status) (c.setTask t (.close drops (.returned status)))

/-- What the receiver does in its next step. -/
inductive ReceiverChange (c : Client σ ρ) : Receiver → List (Event ρ) → Client σ ρ → Prop where
  | headerWait {stage reached : Frame.Stage} {codec : Codec σ}
      (hread : c.codec.resume stage = .waiting reached codec) (hnew : reached ≠ stage) :
      ReceiverChange c (.header stage) [] { c with codec, receiver := .header reached }
  | headerFail {stage : Frame.Stage} {codec : Codec σ} {f : Fault}
      (hread : c.codec.resume stage = .done codec (.error f)) :
      ReceiverChange c (.header stage) [] { c with codec, receiver := .stopping f }
  | headerInvalid {stage : Frame.Stage} {codec : Codec σ} {payload : Bytes} {h : Header} {f : Fault}
      (hread : c.codec.resume stage = .done codec (.ok payload))
      (hheader : Header.ofFrame {} payload = (h, some f)) :
      ReceiverChange c (.header stage) [] { c with codec, receiver := .stopping f }
  | header {stage : Frame.Stage} {codec : Codec σ} {payload : Bytes} {h : Header}
      (hread : c.codec.resume stage = .done codec (.ok payload))
      (hheader : Header.ofFrame {} payload = (h, none)) :
      ReceiverChange c (.header stage) [] { c with codec, receiver := .matching h }
  | stray {h : Header} (hfind : c.board.registry.find? h.seq = none) :
      ReceiverChange c (.matching h) [.matched h]
        (noteReceiver { c with receiver := .skipping .size none } [strayResponse h])
  | matchError {h : Header} {id : CallId} (hfind : c.board.registry.find? h.seq = some id)
      (herror : h.error ≠ []) :
      ReceiverChange c (.matching h) [.matched h]
        { c with
          board := (c.board.remove h.seq).2.setError id (remoteError h.error)
          receiver := .skipping .size (some id) }
  | matchReply {h : Header} {id : CallId} (hfind : c.board.registry.find? h.seq = some id)
      (herror : h.error = []) :
      ReceiverChange c (.matching h) [.matched h]
        { c with board := (c.board.remove h.seq).2, receiver := .reply .size id }
  | skipWait {stage reached : Frame.Stage} {codec : Codec σ} {call : Option CallId}
      (hread : c.codec.resume stage = .waiting reached codec) (hnew : reached ≠ stage) :
      ReceiverChange c (.skipping stage call) []
        { c with codec, receiver := .skipping reached call }
  | skipFail {stage : Frame.Stage} {codec : Codec σ} {call : Option CallId} {f : Fault}
      (hread : c.codec.resume stage = .done codec (.error f)) :
      ReceiverChange c (.skipping stage call) []
        { c with codec, receiver := call.elim (.stopping f) (.finishing · (some f)) }
  | skip {stage : Frame.Stage} {codec : Codec σ} {call : Option CallId} {body : Bytes}
      (hread : c.codec.resume stage = .done codec (.ok body)) :
      ReceiverChange c (.skipping stage call) [.consumed body]
        { c with codec, receiver := call.elim (.header .size) (.finishing · none) }
  | replyWait {stage reached : Frame.Stage} {codec : Codec σ} {id : CallId}
      (hread : c.codec.resume stage = .waiting reached codec) (hnew : reached ≠ stage) :
      ReceiverChange c (.reply stage id) [] { c with codec, receiver := .reply reached id }
  | replyFail {stage : Frame.Stage} {codec : Codec σ} {id : CallId} {call : Call ρ} {f : Fault}
      (hread : c.codec.resume stage = .done codec (.error f))
      (hcall : c.board.call? id = some call) :
      ReceiverChange c (.reply stage id) []
        { c with
          codec
          board := c.board.setError id (replyOutcome call.error (some f)).1
          receiver := .finishing id (replyOutcome call.error (some f)).2 }
  | reply {stage : Frame.Stage} {codec : Codec σ} {id : CallId} {call : Call ρ} {body : Bytes}
      {after : ρ} {entries : List Log.Entry} {fault : Option Fault}
      (hread : c.codec.resume stage = .done codec (.ok body))
      (hcall : c.board.call? id = some call)
      (hbody : BodyReader.ofFrame call.reader call.reply body = (after, entries, fault)) :
      ReceiverChange c (.reply stage id) [.consumed body]
        (noteReceiver
          { c with
            codec
            board := c.board.modifyCall id
              ({ · with reply := after, error := (replyOutcome call.error fault).1 })
            receiver := .finishing id (replyOutcome call.error fault).2 } entries)
  | finish {id : CallId} {fault : Option Fault} {b : Board ρ}
      (hfinish : c.board.finish id = .moved b) :
      ReceiverChange c (.finishing id fault) [.finished id]
        { c with board := b, receiver := afterCall fault }
  | report {f : Fault} :
      ReceiverChange c (.stopping f) []
        (noteReceiver { c with receiver := .locking f } [farewell c.isAvailable f])
  | lock {f : Fault} (hlock : c.lock = none) :
      ReceiverChange c (.locking f) []
        { c with lock := some .receiver, receiver := .taking f }
  | take {f : Fault} :
      ReceiverChange c (.taking f) []
        { c with
          board := (c.board.takeAll c.order).2
          receiver := .terminating f (c.board.takeAll c.order).1 }
  | terminate {f : Fault} {id : CallId} {ids : List CallId} {b : Board ρ}
      (hfinish : c.board.finishWith (connectionLost f) id = .moved b) :
      ReceiverChange c (.terminating f (id :: ids)) [.finished id]
        { c with board := b, receiver := .terminating f ids }
  | terminated {f : Fault} :
      ReceiverChange c (.terminating f []) [] { c with receiver := .unlocking }
  | unlock :
      ReceiverChange c .unlocking [] { c with lock := none, receiver := .exited }

/-- What a move does. -/
inductive Change (c : Client σ ρ) : List (Event ρ) → Client σ ρ → Prop where
  | queue (capacity : Nat) : Change c [] { c with board := (c.board.addQueue capacity).1 }
  | begin {queues : List CompletionQueue} {r : Request ρ} {queue : QueueId} {waits : Bool}
      (hqueues : c.board.queues <+: queues)
      (hqueue : (queues[queue]?).isSome) :
      Change c [.begun c.board.calls.length r]
        (beginSend { c with board := { c.board with queues } } r queue waits).1
  | refuse (entries : List Log.Entry) : Change c [] (c.note entries)
  | close (drops : Bool) : Change c [.closing] (c.beginClose drops).1
  | collect {queue : QueueId} {id : CallId} {b : Board ρ}
      (hpop : c.board.pop? queue = some (id, b)) : Change c [] { c with board := b }
  | send {t : TaskId} {id : CallId} {waits : Bool} {phase : SendPhase} {call : Call ρ}
      {events : List (Event ρ)} {c' : Client σ ρ}
      (htask : c.tasks[t]? = some (.send id waits phase)) (hcall : c.board.call? id = some call)
      (h : SendChange c t id call waits phase events c') : Change c events c'
  | closing {t : TaskId} {drops : Bool} {phase : ClosePhase} {c' : Client σ ρ}
      (htask : c.tasks[t]? = some (.close drops phase)) (h : CloseChange c t drops phase c') :
      Change c [] c'
  | receive {events : List (Event ρ)} {c' : Client σ ρ}
      (h : ReceiverChange c c.receiver events c') : Change c events c'

/-! ## Every move is one of these -/

theorem change_of_stepSend {c c' : Client σ ρ} {t : TaskId} {id : CallId} {call : Call ρ}
    {waits : Bool} {phase : SendPhase}
    (hregister : phase = .registering → c.isAvailable = true →
      c.board.register id = (c.board.registered id, {}))
    (h : c.stepSend t id call waits phase = .moved c') :
    SendChange c t id call waits phase (c.observeSend id call phase) c' := by
  cases phase with
  | entering =>
      cases hlock : c.lock with
      | some holder => simp [stepSend, hlock] at h
      | none =>
          simp only [stepSend, hlock, Turn.moved.injEq] at h
          subst h
          exact .enter hlock
  | registering =>
      cases havail : c.isAvailable with
      | false =>
          simp only [stepSend, register_of_unavailable havail] at h
          obtain rfl := Turn.moved.inj h
          rw [observeSend, havail]
          exact .refuse havail
      | true =>
          simp only [stepSend, hregister rfl havail] at h
          obtain rfl := Turn.moved.inj h
          rw [observeSend, havail]
          exact .register havail
  | addressing =>
      obtain rfl := Turn.moved.inj h
      exact .address
  | writing =>
      rcases hwrite : c.codec.write c.header call.args with ⟨codec, entries, fault⟩
      cases fault with
      | none =>
          simp only [stepSend, writeRequest, hwrite, Turn.moved.injEq] at h
          simp only [observeSend, writeRequest, hwrite, Option.isNone_none, if_true]
          subst h
          exact .write hwrite
      | some f =>
          simp only [stepSend, writeRequest, hwrite, Turn.moved.injEq] at h
          simp only [observeSend, writeRequest, hwrite, Option.isNone_some, Bool.false_eq_true,
            if_false]
          subst h
          exact .fail hwrite
  | withdrawing f =>
      cases hfind : c.board.registry.find? c.header.seq with
      | none =>
          simp only [stepSend, Client.withdraw, remove_of_find?_eq_none hfind,
            Turn.moved.injEq] at h
          subst h
          exact .answered hfind
      | some other =>
          simp only [stepSend, Client.withdraw, Board.remove, Registry.remove, hfind,
            Turn.moved.injEq] at h
          subst h
          exact .withdraw hfind
  | finishing other =>
      cases hfinish : c.board.finish other with
      | moved b =>
          simp only [stepSend, hfinish, Turn.moved.injEq] at h
          subst h
          exact .finish hfinish
      | _ => simp [stepSend, hfinish] at h
  | leaving =>
      obtain rfl := Turn.moved.inj h
      exact .leave
  | collecting =>
      cases hqueue : call.queue with
      | none => simp [stepSend, hqueue] at h
      | some queue =>
          cases hpop : c.board.pop? queue with
          | none => simp [stepSend, hqueue, hpop] at h
          | some popped =>
              simp only [stepSend, hqueue, Option.bind_some, hpop, Turn.moved.injEq] at h
              subst h
              exact .collect hqueue hpop
  | returned collected => contradiction

theorem change_of_stepClose {c c' : Client σ ρ} {t : TaskId} {drops : Bool} {phase : ClosePhase}
    (h : c.stepClose t drops phase = .moved c') : CloseChange c t drops phase c' := by
  cases phase with
  | entering =>
      cases hclosing : c.board.registry.closing with
      | true =>
          simp only [stepClose, beginClose_eq, hclosing, if_true] at h
          obtain rfl := Turn.moved.inj h
          exact .refuse hclosing
      | false =>
          simp only [stepClose, beginClose_eq, hclosing, Bool.false_eq_true, if_false] at h
          obtain rfl := Turn.moved.inj h
          exact .begin hclosing
  | shutting =>
      obtain rfl := Turn.moved.inj h
      exact .shut
  | reporting status =>
      cases drops with
      | true =>
          obtain rfl := Turn.moved.inj h
          exact .report _ rfl
      | false =>
          obtain rfl := Turn.moved.inj h
          exact .done rfl
  | joining status =>
      by_cases hexited : c.receiver = .exited
      · simp only [stepClose, hexited, if_true, Turn.moved.injEq] at h
        subst h
        exact .join hexited
      · simp [stepClose, hexited] at h
  | returned status => contradiction

/-- Reading on in a frame moves unless nothing has come, and ends with what it leaves to do. -/
theorem stepFrame_moved {c c' : Client σ ρ} {stage : Frame.Stage}
    {waiting : Frame.Stage → Receiver} {finish : Client σ ρ → Except Fault Bytes → Client σ ρ}
    (h : c.stepFrame stage waiting finish = .moved c') :
    (∃ reached codec, c.codec.resume stage = .waiting reached codec ∧ reached ≠ stage ∧
      c' = { c with codec, receiver := waiting reached }) ∨
    ∃ codec result, c.codec.resume stage = .done codec result ∧
      c' = finish { c with codec } result := by
  unfold stepFrame at h
  cases hread : c.codec.resume stage with
  | waiting reached codec =>
      by_cases hsame : reached = stage
      · simp [hread, hsame] at h
      · simp only [hread, hsame, if_false, Turn.moved.injEq] at h
        exact .inl ⟨reached, codec, rfl, hsame, h.symm⟩
  | done codec result =>
      simp only [hread, Turn.moved.injEq] at h
      exact .inr ⟨codec, result, rfl, h.symm⟩

/-- The receiver never reads the reply of a call that has not been made. -/
def ReadsReply (c : Client σ ρ) : Prop :=
  ∀ stage id, c.receiver = .reply stage id → (c.board.call? id).isSome

/-- What is done with a header frame is one of the changes above. -/
theorem change_of_onHeader {c : Client σ ρ} {stage : Frame.Stage} {codec : Codec σ}
    {result : Except Fault Bytes} (hread : c.codec.resume stage = .done codec result) :
    ReceiverChange c (.header stage) [] (onHeader { c with codec } result) := by
  cases result with
  | error f => exact .headerFail hread
  | ok payload =>
      rcases hheader : Header.ofFrame {} payload with ⟨response, fault⟩
      simp only [onHeader, Header.receive, hheader]
      cases fault with
      | none => exact .header hread hheader
      | some f => exact .headerInvalid hread hheader

theorem change_of_onResponse (c : Client σ ρ) (response : Header) :
    ReceiverChange c (.matching response) [.matched response] (c.onResponse response) := by
  unfold onResponse
  cases hfind : c.board.registry.find? response.seq with
  | none =>
      rw [remove_of_find?_eq_none hfind]
      exact .stray hfind
  | some id =>
      simp only [Board.remove, Registry.remove, hfind]
      by_cases herror : response.error = []
      · rw [if_pos herror]
        exact .matchReply hfind herror
      · rw [if_neg herror]
        exact .matchError hfind herror

theorem change_of_onSkipped {c : Client σ ρ} {stage : Frame.Stage} {codec : Codec σ}
    {result : Except Fault Bytes} (hread : c.codec.resume stage = .done codec result)
    (call : Option CallId) :
    ReceiverChange c (.skipping stage call) (c.observeBody stage)
      (onSkipped { c with codec } call result) := by
  cases result with
  | error f =>
      simp only [observeBody, hread]
      have hskip : ReceiverChange c (.skipping stage call) [] _ := .skipFail hread
      cases call <;> exact hskip
  | ok body =>
      simp only [observeBody, hread]
      have hskip : ReceiverChange c (.skipping stage call) [.consumed body] _ := .skip hread
      cases call <;> exact hskip

theorem change_of_onReply {c : Client σ ρ} {stage : Frame.Stage} {codec : Codec σ}
    {result : Except Fault Bytes} (hread : c.codec.resume stage = .done codec result)
    {id : CallId} {call : Call ρ} (hcall : c.board.call? id = some call) :
    ReceiverChange c (.reply stage id) (c.observeBody stage)
      (onReply { c with codec } id result) := by
  cases result with
  | error f =>
      simp only [observeBody, hread, onReply, hcall, BodyReader.receive, noteReceiver,
        List.append_nil]
      have hboard : c.board.modifyCall id
            ({ · with reply := call.reply, error := (replyOutcome call.error (some f)).1 }) =
          c.board.setError id (replyOutcome call.error (some f)).1 :=
        modifyCall_congr hcall rfl
      rw [hboard]
      exact .replyFail hread hcall
  | ok body =>
      rcases hbody : BodyReader.ofFrame call.reader call.reply body with ⟨after, entries, fault⟩
      simp only [observeBody, hread, onReply, hcall, BodyReader.receive, hbody]
      exact .reply hread hcall hbody

theorem change_of_stepReceiver {c c' : Client σ ρ} (hreply : c.ReadsReply)
    (h : c.stepReceiver = .moved c') : ReceiverChange c c.receiver c.observeReceiver c' := by
  unfold stepReceiver at h
  unfold observeReceiver
  cases hat : c.receiver with
  | header stage =>
      simp only [hat] at h
      obtain ⟨reached, codec, hread, hnew, rfl⟩ | ⟨codec, result, hread, rfl⟩ := stepFrame_moved h
      · exact .headerWait hread hnew
      · exact change_of_onHeader hread
  | matching response =>
      simp only [hat, Turn.moved.injEq] at h
      subst h
      exact change_of_onResponse c response
  | skipping stage call =>
      simp only [hat] at h
      obtain ⟨reached, codec, hread, hnew, rfl⟩ | ⟨codec, result, hread, rfl⟩ := stepFrame_moved h
      · simp only [observeBody, hread]
        exact .skipWait hread hnew
      · exact change_of_onSkipped hread call
  | reply stage id =>
      simp only [hat] at h
      obtain ⟨call, hcall⟩ := Option.isSome_iff_exists.mp (hreply stage id hat)
      obtain ⟨reached, codec, hread, hnew, rfl⟩ | ⟨codec, result, hread, rfl⟩ := stepFrame_moved h
      · simp only [observeBody, hread]
        exact .replyWait hread hnew
      · exact change_of_onReply hread hcall
  | finishing id fault =>
      simp only [hat] at h
      cases hfinish : c.board.finish id with
      | moved b =>
          simp only [hfinish, Turn.map, Turn.moved.injEq] at h
          subst h
          exact .finish hfinish
      | _ => simp [hfinish, Turn.map] at h
  | stopping f =>
      simp only [hat, Turn.moved.injEq] at h
      subst h
      exact .report
  | locking f =>
      simp only [hat] at h
      cases hlock : c.lock with
      | some holder => simp [hlock] at h
      | none =>
          simp only [hlock, Turn.moved.injEq] at h
          subst h
          exact .lock hlock
  | taking f =>
      simp only [hat, Turn.moved.injEq] at h
      subst h
      exact .take
  | terminating f calls =>
      cases calls with
      | nil =>
          simp only [hat, Turn.moved.injEq] at h
          subst h
          exact .terminated
      | cons id ids =>
          simp only [hat] at h
          cases hfinish : c.board.finishWith (connectionLost f) id with
          | moved b =>
              simp only [hfinish, Turn.map, Turn.moved.injEq] at h
              subst h
              exact .terminate hfinish
          | _ => simp [hfinish, Turn.map] at h
  | unlocking =>
      simp only [hat, Turn.moved.injEq] at h
      subst h
      exact .unlock
  | exited => simp [hat] at h

/-- Every move is one of the changes above, as long as the numbers of the registry are in order. -/
theorem change_of_step {c c' : Client σ ρ} {n : Nat} (hnumbers : c.board.registry.Numbered n)
    (hreply : c.ReadsReply) {move : Move ρ} (h : c.step move = .moved c') :
    Change c (c.observe move) c' := by
  cases move with
  | queue capacity =>
      obtain rfl := Turn.moved.inj h
      exact .queue capacity
  | go r queue =>
      cases queue with
      | none =>
          obtain rfl := Turn.moved.inj h
          exact .begin (List.prefix_append ..) (by simp)
      | some queue =>
          simp only [step, Option.all_some] at h
          cases hqueue : c.board.queue? queue with
          | none => simp [hqueue] at h
          | some q =>
              by_cases hzero : q.capacity = 0
              · simp only [hqueue, Option.isSome_some, if_true, queueFor, Option.any_some, hzero,
                  decide_true, Turn.moved.injEq] at h
                simp only [observe, queueFor, hqueue, Option.any_some, hzero, decide_true, if_true]
                subst h
                exact .refuse _
              · simp only [hqueue, Option.isSome_some, if_true, queueFor, Option.any_some, hzero,
                  decide_false, Bool.false_eq_true, if_false, Turn.moved.injEq] at h
                simp only [observe, queueFor, hqueue, Option.any_some, hzero, decide_false,
                  Bool.false_eq_true, if_false]
                subst h
                exact .begin (List.prefix_refl _) (Option.isSome_iff_exists.mpr ⟨q, hqueue⟩)
  | call r =>
      obtain rfl := Turn.moved.inj h
      exact .begin (List.prefix_append ..) (by simp)
  | close drops =>
      obtain rfl := Turn.moved.inj h
      exact .close drops
  | collect queue =>
      simp only [step] at h
      cases hpop : c.board.pop? queue with
      | none => simp [hpop] at h
      | some popped =>
          simp only [hpop, Turn.moved.injEq] at h
          subst h
          exact .collect hpop
  | task t =>
      simp only [step, stepTask] at h
      cases htask : c.tasks[t]? with
      | none => simp [htask] at h
      | some task =>
          cases task with
          | send id waits phase =>
              cases hcall : c.board.call? id with
              | none => simp [htask, hcall] at h
              | some call =>
                  simp only [htask, hcall] at h
                  simp only [observe, htask, hcall, Option.elim_some]
                  refine .send htask hcall (change_of_stepSend (fun _ havail => ?_) h)
                  exact register_of_available hnumbers havail id
          | close drops phase =>
              simp only [htask] at h
              simp only [observe, htask]
              exact .closing htask (change_of_stepClose h)
  | receive => exact .receive (change_of_stepReceiver hreply h)

end RemoteCalls.Client
