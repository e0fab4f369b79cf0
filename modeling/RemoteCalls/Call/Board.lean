import RemoteCalls.Abort
import RemoteCalls.Call.Registry
import RemoteCalls.Message.Body
import RemoteCalls.Status

/-!
# RemoteCalls.Call.Board

All calls ever made, the queues they are delivered to, and the registry of those
in flight.

A call is finished by marking it and delivering it to its queue, which has to
have room.  Finishing a call twice, or one without a queue, ends the process.
-/

namespace RemoteCalls

/-- A call, with a reply of type `ρ`. -/
structure Call (ρ : Type) where
  service : Bytes := []
  method : Bytes := []
  /-- Given at registration; zero before. -/
  seq : UInt64 := 0
  /-- Writes the arguments. -/
  args : Option BodyWriter := none
  /-- Reads the reply. -/
  reader : Option (BodyReader ρ) := none
  reply : ρ
  error : Status := {}
  /-- Where the call is delivered when it finishes. -/
  queue : Option QueueId := none
  finished : Bool := false

/-- Calls, queues and registry. -/
structure Board (ρ : Type) where
  calls : List (Call ρ) := []
  queues : List CompletionQueue := []
  registry : Registry := {}

namespace Board

variable {ρ : Type}

/-! ## Calls and queues -/

/-- Make a queue. -/
def addQueue (b : Board ρ) (capacity : Nat) : Board ρ × QueueId :=
  ({ b with queues := b.queues ++ [{ capacity }] }, b.queues.length)

/-- Make a call. -/
def addCall (b : Board ρ) (call : Call ρ) : Board ρ × CallId :=
  ({ b with calls := b.calls ++ [call] }, b.calls.length)

/-- The call in this place. -/
def call? (b : Board ρ) (id : CallId) : Option (Call ρ) := b.calls[id]?

/-- The queue in this place. -/
def queue? (b : Board ρ) (id : QueueId) : Option CompletionQueue := b.queues[id]?

/-- Change a call. -/
def modifyCall (b : Board ρ) (id : CallId) (f : Call ρ → Call ρ) : Board ρ :=
  { b with calls := b.calls.modify id f }

/-- Give a call its outcome. -/
def setError (b : Board ρ) (id : CallId) (status : Status) : Board ρ :=
  b.modifyCall id fun c => { c with error := status }

/-- Collect the oldest call of a queue. -/
def pop? (b : Board ρ) (id : QueueId) : Option (CallId × Board ρ) :=
  match b.queue? id with
  | none => none
  | some q => q.pop?.map fun (call, q) => (call, { b with queues := b.queues.set id q })

/-! ## Registration -/

/-- Register a call, or refuse it and leave everything as it is. -/
def register (b : Board ρ) (id : CallId) : Board ρ × Status :=
  match b.registry.register? id with
  | none => (b, .unavailable)
  | some (seq, registry) => ({ b.modifyCall id ({ · with seq }) with registry }, {})

/-- As `register`, for a caller that promises a call. -/
def registerGiven (b : Board ρ) (id : Option CallId) : Except Abort (Board ρ × Status) :=
  match id with
  | none => .error .missingCall
  | some id => .ok (b.register id)

/-- Take the call with this number out of the registry. -/
def remove (b : Board ρ) (seq : UInt64) : Option CallId × Board ρ :=
  let (call, registry) := b.registry.remove seq
  (call, { b with registry })

/-- Shut the registry down and take all calls out of it in this order. -/
def takeAll (b : Board ρ) (order : Registry.Order) : List CallId × Board ρ :=
  let (calls, registry) := b.registry.takeAll order
  (calls, { b with registry })

/-- Start to close the registry. -/
def beginClose (b : Board ρ) : Board ρ × Status :=
  match b.registry.beginClose? with
  | none => (b, .unavailable)
  | some registry => ({ b with registry }, {})

/-! ## Completion -/

/-- The queue a call is delivered to if it finishes now; a call can finish once, and needs one. -/
def delivery (b : Board ρ) (id : CallId) : Turn QueueId :=
  match b.call? id with
  | none => .blocked
  | some call =>
      if call.finished then .aborted (.finishedTwice call.service call.method call.seq)
      else
        match call.queue with
        | none => .aborted .missingQueue
        | some queue => .moved queue

/-- Mark a call as finished, and leave its queue as `q`. -/
def delivered (b : Board ρ) (id : CallId) (queue : QueueId) (q : CompletionQueue) : Board ρ :=
  { b.modifyCall id ({ · with finished := true }) with queues := b.queues.set queue q }

/-- Finish a call: wait for room in its queue, deliver it and mark it. -/
def finish (b : Board ρ) (id : CallId) : Turn (Board ρ) :=
  match b.delivery id with
  | .blocked => .blocked
  | .aborted cause => .aborted cause
  | .moved queue =>
      match (b.queue? queue).bind (·.push? id) with
      | none => .blocked
      | some q => .moved (b.delivered id queue q)

/-- Finish a call with this outcome. -/
def finishWith (b : Board ρ) (status : Status) (id : CallId) : Turn (Board ρ) :=
  (b.setError id status).finish id

/-- Finish calls with this outcome, one after another. -/
def finishAll (status : Status) : List CallId → Board ρ → Turn (Board ρ)
  | [], b => .moved b
  | id :: ids, b =>
      match b.finishWith status id with
      | .blocked => .blocked
      | .aborted cause => .aborted cause
      | .moved b => finishAll status ids b

/-- Put the calls for which `p` holds in order of their numbers, in every queue.  Calls that end
together are delivered in no order of their own. -/
def arrange (b : Board ρ) (p : CallId → Bool) : Board ρ :=
  let key (id : CallId) := (b.call? id).elim 0 (·.seq)
  { b with queues := b.queues.map (·.arrange p key) }

/-- Whether the calls in flight fit into the room that their queues have. -/
def fits (b : Board ρ) : Bool :=
  let queues := b.registry.pending.filterMap fun entry => (b.call? entry.2).bind (·.queue)
  queues.all fun id =>
    (b.queue? id).elim false fun q => q.size + queues.count id ≤ q.capacity

/-- Shut the registry down and finish all calls in it with this outcome, one after another in this
order.  In their queues they come in order of their numbers. -/
def terminate (b : Board ρ) (status : Status) (order : Registry.Order) : Turn (Board ρ) :=
  let (calls, b) := b.takeAll order
  (finishAll status calls b).map (·.arrange calls.contains)

end Board

end RemoteCalls
