/-!
# RemoteCalls.Call.Queue

The queues that finished calls are delivered to: first in, first out, with room
for a fixed number of calls that have not been collected.
-/

namespace RemoteCalls

/-- The place of a call among the calls ever made. -/
abbrev CallId := Nat

/-- The place of a queue among the queues ever made. -/
abbrev QueueId := Nat

/-- A queue of finished calls. -/
structure CompletionQueue where
  capacity : Nat
  /-- The calls not yet collected, the oldest first. -/
  items : List CallId := []
  deriving DecidableEq, Repr, Inhabited

namespace CompletionQueue

/-- How many calls wait to be collected. -/
def size (q : CompletionQueue) : Nat := q.items.length

/-- Whether one more call can be delivered. -/
def hasRoom (q : CompletionQueue) : Bool := q.size < q.capacity

/-- Deliver a call, if there is room. -/
def push? (q : CompletionQueue) (call : CallId) : Option CompletionQueue :=
  if q.hasRoom then some { q with items := q.items ++ [call] } else none

/-- Collect the oldest call, if there is one. -/
def pop? (q : CompletionQueue) : Option (CallId × CompletionQueue) :=
  match q.items with
  | [] => none
  | call :: items => some (call, { q with items })

/-- Put the calls for which `p` holds, which stand together, in ascending order of `key`. -/
def arrange (q : CompletionQueue) (p : CallId → Bool) (key : CallId → UInt64) : CompletionQueue :=
  let (mine, others) := (q.items.dropWhile fun id => !p id).partition p
  { q with
    items := (q.items.takeWhile fun id => !p id) ++ mine.mergeSort (fun x y => key x ≤ key y)
      ++ others }

end CompletionQueue

end RemoteCalls
