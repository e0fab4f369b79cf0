import RemoteCalls.Client.Receiver
import RemoteCalls.Client.Sender

/-!
# RemoteCalls.Client.Run

Running a client by one particular schedule: threads of the application take
their steps one at a time, and after each of them the receiver goes on until it
has to wait.
-/

namespace RemoteCalls.Client

variable {σ ρ : Type} [ByteStream σ]

/-- How many calls the receiver still has to finish. -/
def backlog (c : Client σ ρ) : Nat :=
  match c.receiver with
  | .terminating _ calls => calls.length
  | _ => 0

/-- More steps than the receiver can take before it has to wait: a response takes fewer steps than
it has octets. -/
def receiverSteps (c : Client σ ρ) : Nat :=
  ByteStream.unread c.codec.stream + c.pendingCount + c.backlog + 32

/-- Let the receiver take at most `fuel` steps. -/
def runReceiver : Nat → Client σ ρ → Except Abort (Client σ ρ)
  | 0, c => .ok c
  | fuel + 1, c =>
      match c.stepReceiver with
      | .blocked => .ok c
      | .aborted cause => .error cause
      | .moved c => runReceiver fuel c

/-- Put the calls that the end of the connection has finished in order of their numbers. -/
def arrangeLost (c : Client σ ρ) : Client σ ρ :=
  { c with board := c.board.arrange fun id => (c.board.call? id).any fun call => isLost call.error }

/-- Let the receiver go on until it has to wait. -/
def settle (c : Client σ ρ) : Except Abort (Client σ ρ) := do
  return (← runReceiver c.receiverSteps c).arrangeLost

/-- Let a task take at most `fuel` steps, and the receiver all it can after each. -/
def runTask (task : TaskId) : Nat → Client σ ρ → Except Abort (Client σ ρ)
  | 0, c => .ok c
  | fuel + 1, c =>
      match c.stepTask task with
      | .blocked => .ok c
      | .aborted cause => .error cause
      | .moved c => do runTask task fuel (← c.settle)

/-- More steps than a task can take. -/
def taskSteps : Nat := 10

/-- Let a task go on until it has to wait or is done. -/
def complete (c : Client σ ρ) (task : TaskId) : Except Abort (Client σ ρ) :=
  runTask task taskSteps c

/-! ## What an application does -/

/-- Start a call that is delivered to `queue`. -/
def go (c : Client σ ρ) (r : Request ρ) (queue : QueueId) :
    Except Abort (Client σ ρ × CallId) := do
  let (c, call, task) := c.beginSend r queue false
  return (← c.complete task, call)

/-- Make a call and wait for it: the call collected. -/
def call (c : Client σ ρ) (r : Request ρ) : Except Abort (Client σ ρ × Option (Call ρ)) := do
  let (board, queue) := c.board.addQueue 1
  let (c, _, task) := beginSend { c with board } r queue true
  let c ← c.complete task
  match c.tasks[task]? with
  | some (.send _ _ (.returned collected)) => return (c, collected.bind c.board.call?)
  | _ => return (c, none)

/-- The outcome of a task that has closed the client. -/
def closeStatus (c : Client σ ρ) (task : TaskId) : Option Status :=
  match c.tasks[task]? with
  | some (.close _ (.returned status)) => some status
  | _ => none

/-- Close the client. -/
def close (c : Client σ ρ) : Except Abort (Client σ ρ × Option Status) := do
  let (c, task) := c.beginClose false
  let c ← c.complete task
  return (c, c.closeStatus task)

/-- Collect a call from a queue. -/
def pop (c : Client σ ρ) (queue : QueueId) : Except Abort (Client σ ρ × Option CallId) :=
  match c.board.pop? queue with
  | none => return (c, none)
  | some (call, board) => return (← settle { c with board }, some call)

/-- The call that the receiver is about to finish. -/
def finishing? (c : Client σ ρ) : Option CallId :=
  match c.receiver with
  | .finishing call _ | .terminating _ (call :: _) => some call
  | _ => none

/-- The queue that the receiver needs room in. -/
def awaitedQueue? (c : Client σ ρ) : Option QueueId :=
  (c.finishing?.bind c.board.call?).bind (·.queue)

/-- Collect at most `fuel` calls, as long as the receiver needs room for one. -/
def drain : Nat → Client σ ρ → Except Abort (Client σ ρ)
  | 0, c => .ok c
  | fuel + 1, c =>
      match c.awaitedQueue? with
      | none => .ok c
      | some queue => do
          let (c, _) ← c.pop queue
          drain fuel c

/-- Drop the client: close it and wait for its receiver, collecting calls from the queues that the
receiver needs room in. -/
def drop (c : Client σ ρ) : Except Abort (Client σ ρ) := do
  let (c, task) := c.beginClose true
  let c ← c.complete task
  let c ← drain (c.pendingCount + c.backlog + c.board.calls.length) c
  c.complete task

end RemoteCalls.Client
