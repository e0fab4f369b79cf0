import RemoteCalls.Client.State

/-!
# RemoteCalls.Client.Sender

The steps of the application's threads in a client: sending a request, and
closing the client.

A request that could not be written fails its call only if nobody has answered
the call in the meantime; whoever takes a call out of the registry finishes it.
-/

namespace RemoteCalls.Client

variable {σ ρ : Type} [ByteStream σ]

/-! ## Wordings -/

/-- The outcome of a call whose request could not be written. -/
def sendFailure (f : Fault) : Status :=
  { code := .sendFailure, message := .ofText "writing request", details := f.message }

/-- What is logged about a request that could not be written. -/
def sendWarning (h : Header) (f : Fault) : Log.Entry :=
  Log.warning (.ofText "failed to send " ++ h.service ++ .ofText "." ++ h.method ++ .ofText " seq="
    ++ .decimal h.seq.toNat ++ .ofText ": " ++ f.message)

/-- The outcome of closing a client whose connection does not close properly. -/
def closeFailure (f : Fault) : Status :=
  { code := .connectionFailure, message := .ofText "closing connection", details := f.message }

/-- Whether dropping a client has to report this outcome of closing it. -/
def isReported (s : Status) : Bool := !s.isOk && s.code != .unavailable

/-! ## Sending -/

/-- The header of the request of a call. -/
def requestHeader (call : Call ρ) : Header :=
  { service := call.service, method := call.method, seq := call.seq }

/-- Write the request of a call under the header that has been filled in. -/
def writeRequest (c : Client σ ρ) (call : Call ρ) : Client σ ρ × Option Fault :=
  let (codec, entries, fault) := c.codec.write c.header call.args
  (note { c with codec } entries, fault)

/-- Take the call of a failed request out of the registry: the call found there, if any, has its
outcome now. -/
def withdraw (c : Client σ ρ) (f : Fault) : Client σ ρ × Option CallId :=
  match c.board.remove c.header.seq with
  | (none, board) => ({ c with board }, none)
  | (some id, board) =>
      (note { c with board := board.setError id (sendFailure f) } [sendWarning c.header f], some id)

/-- The next step of a thread that sends a request. -/
def stepSend (c : Client σ ρ) (task : TaskId) (id : CallId) (call : Call ρ) (waits : Bool)
    (phase : SendPhase) : Turn (Client σ ρ) :=
  let go (c : Client σ ρ) (phase : SendPhase) : Turn (Client σ ρ) :=
    .moved (c.setTask task (.send id waits phase))
  match phase with
  | .entering =>
      match c.lock with
      | some _ => .blocked
      | none => go { c with lock := some (.task task) } .registering
  | .registering =>
      let (board, status) := c.board.register id
      if status.isOk then go { c with board } .addressing
      else go { c with board := board.setError id status } (.finishing id)
  | .addressing => go { c with header := requestHeader call } .writing
  | .writing =>
      match c.writeRequest call with
      | (c, none) => go c .leaving
      | (c, some f) => go c (.withdrawing f)
  | .withdrawing f =>
      match c.withdraw f with
      | (c, none) => go c .leaving
      | (c, some removed) => go c (.finishing removed)
  | .finishing other =>
      match c.board.finish other with
      | .blocked => .blocked
      | .aborted cause => .aborted cause
      | .moved board => go { c with board } .leaving
  | .leaving => go { c with lock := none } (if waits then .collecting else .returned none)
  | .collecting =>
      match call.queue.bind c.board.pop? with
      | none => .blocked
      | some (collected, board) => go { c with board } (.returned (some collected))
  | .returned _ => .blocked

/-! ## Closing -/

/-- The next step of a thread that closes the client. -/
def stepClose (c : Client σ ρ) (task : TaskId) (drops : Bool) (phase : ClosePhase) :
    Turn (Client σ ρ) :=
  let go (c : Client σ ρ) (phase : ClosePhase) : Turn (Client σ ρ) :=
    .moved (c.setTask task (.close drops phase))
  match phase with
  | .entering =>
      let (board, status) := c.board.beginClose
      if status.isOk then
        go (note { c with board } [Log.info (.ofText "closing rpc client")]) .shutting
      else go { c with board } (.reporting status)
  | .shutting =>
      let (codec, fault) := c.codec.close
      go { c with codec } (.reporting (fault.elim {} closeFailure))
  | .reporting status =>
      if drops then
        let entries := if isReported status then
            [Log.warning (.ofText "error closing rpc client: " ++ status.render)]
          else []
        go (c.note entries) (.joining status)
      else go c (.returned status)
  | .joining status => if c.receiver = .exited then go c (.returned status) else .blocked
  | .returned _ => .blocked

/-- The next step of a task. -/
def stepTask (c : Client σ ρ) (task : TaskId) : Turn (Client σ ρ) :=
  match c.tasks[task]? with
  | none => .blocked
  | some (.send id waits phase) =>
      match c.board.call? id with
      | none => .blocked
      | some call => c.stepSend task id call waits phase
  | some (.close drops phase) => c.stepClose task drops phase

end RemoteCalls.Client
