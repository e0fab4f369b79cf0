import RemoteCalls.Stream.Condition

/-!
# RemoteCalls.Stream.Sink

The stream a value is written to.  A sink may have room for only so many more
octets; what does not fit is refused, and that is a loss.

What a sink has taken is kept with the latest octet first, so that taking more
costs no more than what is taken.  `written` shows it in order, and
`written_transfer` says what a transfer adds to it.
-/

namespace RemoteCalls

/-- A stream that takes octets. -/
structure Sink where
  /-- The octets taken so far, the latest first. -/
  latestFirst : Bytes := []
  /-- How many more octets fit; no limit if absent. -/
  room : Option Nat := none
  /-- Whether refusing octets throws out of the transfer itself. -/
  escapes : Bool := false
  marks : List Mark := []
  condition : Condition := .good
  deriving DecidableEq, Repr, Inhabited

namespace Sink

/-- An unlimited, good sink without marks that has taken nothing yet. -/
def empty : Sink := {}

/-- The octets taken so far, in order. -/
def written (s : Sink) : Bytes := s.latestFirst.reverse

@[simp] theorem written_empty : empty.written = [] := rfl

/-- The part of `bytes` that fits. -/
def fitting (s : Sink) (bytes : Bytes) : Bytes :=
  match s.room with
  | none => bytes
  | some n => bytes.take n

/-- Hand octets over: the sink after it, and whether an exception left the transfer.  A sink that
is not good takes nothing. -/
def transfer (s : Sink) (bytes : Bytes) : Sink × Bool :=
  if s.condition.isGood then
    let taken := s.fitting bytes
    let short := taken.length < bytes.length
    let loss : Condition := { bad := short }
    ({ s with
        latestFirst := taken.reverse ++ s.latestFirst
        room := s.room.map (· - taken.length)
        marks := Mark.pass s.marks taken.length
        condition := (s.condition.raise (Mark.raised s.marks taken.length)).raise loss },
      s.escapes && short)
  else (s, false)

/-- A transfer adds what fits, if the sink is good, and nothing otherwise. -/
theorem written_transfer (s : Sink) (bytes : Bytes) :
    (s.transfer bytes).1.written =
      s.written ++ if s.condition.isGood then s.fitting bytes else [] := by
  unfold transfer
  split <;> simp [written]

/-- Hand octets over and judge the condition that the sink is left in. -/
def put (s : Sink) (bytes : Bytes) : Sink × Option Fault :=
  let (after, escaped) := s.transfer bytes
  (after, if escaped then some .exceptionOccurred else after.condition.verdict)

/-- As `put`, on a sink that must be good to begin with. -/
def putReady (s : Sink) (bytes : Bytes) : Sink × Option Fault :=
  match s.condition.readiness with
  | some f => (s, some f)
  | none => s.put bytes

/-- Raise bits from outside. -/
def raise (s : Sink) (bits : Condition) : Sink := { s with condition := s.condition.raise bits }

/-- Lower all bits. -/
def clear (s : Sink) : Sink := { s with condition := .good }

end Sink

/-- Go on with a sink unless something went wrong before. -/
def andThen (r : Sink × Option Fault) (next : Sink → Sink × Option Fault) : Sink × Option Fault :=
  match r with
  | (s, none) => next s
  | (s, some f) => (s, some f)

/-- All of it goes well just if both parts do. -/
theorem snd_andThen_eq_none {r : Sink × Option Fault} {next : Sink → Sink × Option Fault} :
    (andThen r next).2 = none ↔ r.2 = none ∧ (next r.1).2 = none := by
  rcases r with ⟨s, _ | f⟩ <;> simp [andThen]

end RemoteCalls
