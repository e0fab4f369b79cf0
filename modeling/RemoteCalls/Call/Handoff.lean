import RemoteCalls.Call.Board
import RemoteCalls.Call.Monitor

/-!
# RemoteCalls.Call.Handoff

Finishing a call in one thread while another thread collects calls from a queue.
Both go by the rules of `Monitor`.
-/

namespace RemoteCalls.Board

variable {ρ : Type}

/-- Collect a call from a queue if that is full: what was collected, and the board after it. -/
def relieve (b : Board ρ) (queue : QueueId) : Option CallId × Board ρ :=
  match b.queue? queue, b.pop? queue with
  | some q, some (call, after) => if q.hasRoom then (none, b) else (some call, after)
  | _, _ => (none, b)

/-- Finish a call in a thread of its own, and collect one call from a queue meanwhile if that is
full: what was collected, and the board after both. -/
def finishBeside (b : Board ρ) (queue : QueueId) (id : CallId) : Turn (Option CallId × Board ρ) :=
  match b.delivery id with
  | .blocked => .blocked
  | .aborted cause => .aborted cause
  | .moved target =>
      if target = queue then
        match b.queue? queue with
        | none => .blocked
        | some q =>
            let (popped, q) := Monitor.deliverBeside q id
            .moved (popped, b.delivered id queue q)
      else (b.finish id).map (relieve · queue)

/-- Collect a call from a queue in a thread of its own, and finish a call meanwhile: what was
collected, and the board after both. -/
def collectBeside (b : Board ρ) (queue : QueueId) (patient : Bool) (id : CallId) :
    Turn (Option CallId × Board ρ) :=
  match b.delivery id with
  | .blocked => .blocked
  | .aborted cause => .aborted cause
  | .moved target =>
      if target = queue then
        match b.queue? queue with
        | none => .blocked
        | some q =>
            let (popped, q) := Monitor.collectBeside q patient id
            .moved (popped, b.delivered id queue q)
      else
        match b.pop? queue with
        | none => .blocked
        | some (popped, b) => (b.finish id).map (some popped, ·)

end RemoteCalls.Board
