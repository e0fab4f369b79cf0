import RemoteCalls.Call.Board
import RemoteCalls.Connection.Preamble
import RemoteCalls.Message.Codec

/-!
# RemoteCalls.Client.State

The client's end of a connection.  Threads of the application send requests and
close the connection; one more thread, the receiver, reads the responses and
finishes the calls they belong to.

Requests are written one at a time, under the send lock, and share one header
that is filled in for each of them.  The receiver takes the same lock when it
gives the remaining calls up, so that no request is half sent at that moment.
-/

namespace RemoteCalls

/-- The place of a task among all tasks ever begun. -/
abbrev TaskId := Nat

/-- Where a thread stands that sends a request. -/
inductive SendPhase where
  /-- About to take the send lock. -/
  | entering
  /-- About to register its call. -/
  | registering
  /-- Its call is registered; about to fill in the header of the request. -/
  | addressing
  /-- About to write its request. -/
  | writing
  /-- The write has failed; about to take its call out of the registry. -/
  | withdrawing (fault : Fault)
  /-- About to finish a call, which has its outcome. -/
  | finishing (call : CallId)
  /-- About to give the send lock back. -/
  | leaving
  /-- About to collect a call from the queue its own call is delivered to. -/
  | collecting
  /-- Gone, with the call it has collected if it had to. -/
  | returned (collected : Option CallId)
  deriving DecidableEq, Repr

/-- Where a thread stands that closes the client. -/
inductive ClosePhase where
  /-- About to mark the registry as closing. -/
  | entering
  /-- About to shut the connection down. -/
  | shutting
  /-- Has its outcome, and is about to report a failure. -/
  | reporting (status : Status)
  /-- Waits for the receiver to end. -/
  | joining (status : Status)
  /-- Gone. -/
  | returned (status : Status)
  deriving DecidableEq, Repr

/-- What a thread of the application does with the client. -/
inductive Task where
  /-- Sends the request of a call, and then collects a finished call if `waits`. -/
  | send (call : CallId) (waits : Bool) (phase : SendPhase)
  /-- Closes the client, and also waits for its receiver if `drops`. -/
  | close (drops : Bool) (phase : ClosePhase)
  deriving DecidableEq, Repr

/-- Where the receiver stands. -/
inductive Receiver where
  /-- Reading a header. -/
  | header (stage : Frame.Stage)
  /-- Has read a header, and is about to take its call out of the registry. -/
  | matching (response : Header)
  /-- Reading past a body, for a call that failed at the peer or for none. -/
  | skipping (stage : Frame.Stage) (call : Option CallId)
  /-- Reading the reply of a call. -/
  | reply (stage : Frame.Stage) (call : CallId)
  /-- About to finish a call, and then to stop if there is a fault. -/
  | finishing (call : CallId) (fault : Option Fault)
  /-- Has stopped reading, and is about to report it. -/
  | stopping (fault : Fault)
  /-- About to take the send lock. -/
  | locking (fault : Fault)
  /-- About to take all calls out of the registry. -/
  | taking (fault : Fault)
  /-- Finishing these calls. -/
  | terminating (fault : Fault) (calls : List CallId)
  /-- About to give the send lock back. -/
  | unlocking
  | exited
  deriving DecidableEq, Repr

/-- Who holds the send lock. -/
inductive Holder where
  | task (id : TaskId)
  | receiver
  deriving DecidableEq, Repr

/-- The client's end of a connection with state `σ`, for replies of type `ρ`. -/
structure Client (σ ρ : Type) where
  codec : Codec σ
  /-- The record the connection was opened with. -/
  preamble : Preamble := {}
  board : Board ρ := {}
  /-- Who holds the send lock. -/
  lock : Option Holder := none
  /-- The header of the latest request, for whoever holds the send lock. -/
  header : Header := {}
  tasks : List Task := []
  receiver : Receiver := .header .size
  /-- In which order the receiver takes calls out of the registry that have to be given up. -/
  order : Registry.Order := .newestFirst
  /-- What threads of the application have logged. -/
  log : List Log.Entry := []
  /-- What the receiver has logged. -/
  receiverLog : List Log.Entry := []

/-- What a call asks for. -/
structure Request (ρ : Type) where
  service : Bytes := []
  method : Bytes := []
  args : Option BodyWriter := none
  reader : Option (BodyReader ρ) := none
  /-- What the reply holds before it is read. -/
  reply : ρ

namespace Request

/-- The call of a request that is delivered to `queue`. -/
def toCall {ρ : Type} (r : Request ρ) (queue : QueueId) : Call ρ :=
  { service := r.service, method := r.method, args := r.args, reader := r.reader
    reply := r.reply, queue := some queue }

end Request

namespace Client

variable {σ ρ : Type}

/-- Whether calls can be made. -/
def isAvailable (c : Client σ ρ) : Bool := c.board.registry.isAvailable

/-- How many calls wait for a response. -/
def pendingCount (c : Client σ ρ) : Nat := c.board.registry.pending.length

/-- Put a task into another state. -/
def setTask (c : Client σ ρ) (id : TaskId) (t : Task) : Client σ ρ :=
  { c with tasks := c.tasks.set id t }

/-- Log entries of a thread of the application. -/
def note (c : Client σ ρ) (entries : List Log.Entry) : Client σ ρ :=
  { c with log := c.log ++ entries }

/-- Log entries of the receiver. -/
def noteReceiver (c : Client σ ρ) (entries : List Log.Entry) : Client σ ρ :=
  { c with receiverLog := c.receiverLog ++ entries }

/-- Change the state of the connection. -/
def withStream (c : Client σ ρ) (stream : σ) : Client σ ρ :=
  { c with codec := c.codec.withStream stream }

/-! ## Beginning a task -/

/-- The room of the queue that is made for a call without one. -/
def ownCapacity : Nat := 10

/-- A queue without any room was given for a call. -/
def zeroCapacity : Bytes := .ofText "rpc client: completion queue has zero capacity"

/-- The queue for a call: the one given, which must have room for at least one call, or a new
one. -/
def queueFor (c : Client σ ρ) (r : Request ρ) (queue : Option QueueId) :
    Client σ ρ × Except Bytes QueueId :=
  match queue with
  | none =>
      let (board, id) := c.board.addQueue ownCapacity
      ({ c with board }, .ok id)
  | some id =>
      if (c.board.queue? id).any (·.capacity = 0) then
        (c.note [Log.error (.ofText "rpc client: completion queue for " ++ r.service ++ .ofText "."
          ++ r.method ++ .ofText " has zero capacity")], .error zeroCapacity)
      else (c, .ok id)

/-- Begin to send a request. -/
def beginSend (c : Client σ ρ) (r : Request ρ) (queue : QueueId) (waits : Bool) :
    Client σ ρ × CallId × TaskId :=
  let (board, call) := c.board.addCall (r.toCall queue)
  ({ c with board, tasks := c.tasks ++ [.send call waits .entering] }, call, c.tasks.length)

/-- Begin to close the client. -/
def beginClose (c : Client σ ρ) (drops : Bool) : Client σ ρ × TaskId :=
  ({ c with tasks := c.tasks ++ [.close drops .entering] }, c.tasks.length)

end Client

end RemoteCalls
