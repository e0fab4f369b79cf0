import RemoteCalls.Call.Queue

/-!
# RemoteCalls.Call.Monitor

A completion queue and the threads that use it.  A thread that finds the queue
full, or empty, falls asleep until it is woken; a thread that has delivered a
call, or collected one, goes on to wake one sleeper on the other side.

Each step is atomic, and steps of different threads come in any order:

1. a test of the queue, which takes effect or puts the thread to sleep;
2. a signal, which is due after a test took effect, and wakes one sleeper of the
   other side if there is any;
3. a wake-up without a signal;
4. the end of a collector's patience, which is one last test.

A thread that has been woken tests again.
-/

namespace RemoteCalls

/-- What a thread is doing with a completion queue. -/
inductive Worker where
  /-- About to test whether there is room for a call. -/
  | delivering (call : CallId)
  /-- Asleep until there is room. -/
  | awaitingRoom (call : CallId)
  /-- Has delivered a call, and still has to wake a collector. -/
  | announcing
  /-- Has delivered a call and is gone. -/
  | delivered
  /-- About to test whether there is a call.  A patient collector waits for ever. -/
  | collecting (patient : Bool)
  /-- Asleep until there is a call. -/
  | awaitingCall (patient : Bool)
  /-- Has collected a call, and still has to wake a deliverer. -/
  | releasing (call : CallId)
  /-- Has collected a call, or has run out of patience, and is gone. -/
  | collected (call : Option CallId)
  deriving DecidableEq, Repr

namespace Worker

/-- Whether a thread sleeps until there is room. -/
def awaitsRoom : Worker → Bool
  | awaitingRoom _ => true
  | _ => false

/-- Whether a thread sleeps until there is a call. -/
def awaitsCall : Worker → Bool
  | awaitingCall _ => true
  | _ => false

/-- A sleeper that has been woken; others are as they were. -/
def wake : Worker → Worker
  | awaitingRoom call => delivering call
  | awaitingCall patient => collecting patient
  | w => w

end Worker

/-- A step of a thread. -/
inductive QueueStep where
  /-- The thread tests the queue. -/
  | test
  /-- The thread's signal reaches this sleeper, or nobody. -/
  | signal (sleeper : Option Nat)
  /-- The thread wakes up by itself. -/
  | stir
  /-- The thread's patience ends. -/
  | expire
  deriving DecidableEq, Repr

/-- A completion queue and its threads. -/
structure Monitor where
  queue : CompletionQueue
  workers : List Worker := []
  deriving DecidableEq, Repr

namespace Monitor

/-- Put a thread into another state. -/
def set (m : Monitor) (thread : Nat) (w : Worker) : Monitor :=
  { m with workers := m.workers.set thread w }

/-- Wake one of the sleepers for which `asleep` holds: the one named, or nobody if there is
none. -/
def wakeOne? (m : Monitor) (asleep : Worker → Bool) : Option Nat → Option Monitor
  | none => if m.workers.any asleep then none else some m
  | some thread =>
      (m.workers[thread]?).bind fun w => if asleep w then some (m.set thread w.wake) else none

/-- The monitor after a step of a thread, if the thread can take it now. -/
def step? (m : Monitor) (thread : Nat) (s : QueueStep) : Option Monitor :=
  (m.workers[thread]?).bind fun w =>
    match w, s with
    | .delivering call, .test =>
        match m.queue.push? call with
        | some queue => some ({ m with queue }.set thread .announcing)
        | none => some (m.set thread (.awaitingRoom call))
    | .collecting patient, .test =>
        match m.queue.pop? with
        | some (call, queue) => some ({ m with queue }.set thread (.releasing call))
        | none => some (m.set thread (.awaitingCall patient))
    | .announcing, .signal sleeper =>
        (m.wakeOne? Worker.awaitsCall sleeper).map (·.set thread .delivered)
    | .releasing call, .signal sleeper =>
        (m.wakeOne? Worker.awaitsRoom sleeper).map (·.set thread (.collected (some call)))
    | .awaitingRoom call, .stir => some (m.set thread (.delivering call))
    | .awaitingCall patient, .stir => some (m.set thread (.collecting patient))
    | .collecting false, .expire | .awaitingCall false, .expire =>
        match m.queue.pop? with
        | some (call, queue) => some ({ m with queue }.set thread (.releasing call))
        | none => some (m.set thread (.collected none))
    | _, _ => none

/-! ## Schedules -/

/-- The first sleeper for which `asleep` holds. -/
def sleeper? (m : Monitor) (asleep : Worker → Bool) : Option Nat := m.workers.findIdx? asleep

/-- The next step of a thread, when threads sleep until they are signalled and the first sleeper
is the one woken. -/
def next? (m : Monitor) (thread : Nat) : Option QueueStep :=
  match m.workers[thread]? with
  | some (.delivering _) | some (.collecting _) => some .test
  | some .announcing => some (.signal (m.sleeper? Worker.awaitsCall))
  | some (.releasing _) => some (.signal (m.sleeper? Worker.awaitsRoom))
  | _ => none

/-- Let a thread take at most `fuel` steps. -/
def advance (thread : Nat) : Nat → Monitor → Monitor
  | 0, m => m
  | fuel + 1, m =>
      match (m.next? thread).bind (m.step? thread) with
      | none => m
      | some m => advance thread fuel m

/-- Let a thread go on until it sleeps or is gone: it tests, and then signals. -/
def settle (m : Monitor) (thread : Nat) : Monitor := advance thread 2 m

/-- The call that a thread has collected. -/
def collectedBy (m : Monitor) (thread : Nat) : Option CallId :=
  match m.workers[thread]? with
  | some (.collected call) => call
  | _ => none

/-- A thread delivers a call, and if it finds no room another thread collects one meanwhile: what
that thread collected, and the queue after both. -/
def deliverBeside (queue : CompletionQueue) (call : CallId) : Option CallId × CompletionQueue :=
  let m := Monitor.settle { queue, workers := [.delivering call] } 0
  if m.workers.any Worker.awaitsRoom then
    let m := settle { m with workers := m.workers ++ [.collecting true] } 1
    let m := m.settle 0
    (m.collectedBy 1, m.queue)
  else (none, m.queue)

/-- A thread collects a call while another delivers one: what it collected, and the queue after
both. -/
def collectBeside (queue : CompletionQueue) (patient : Bool) (call : CallId) :
    Option CallId × CompletionQueue :=
  let m := Monitor.settle { queue, workers := [.collecting patient, .delivering call] } 0
  let m := m.settle 1
  let m := m.settle 0
  (m.collectedBy 0, m.queue)

end Monitor

end RemoteCalls
