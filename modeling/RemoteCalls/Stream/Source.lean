import RemoteCalls.Stream.Condition

/-!
# RemoteCalls.Stream.Source

The stream a value is read from.  A source that has fewer octets than asked for
gives what it has, and then ends in its own way: it reports the end of the file,
or it fails, or its failure throws out of the transfer.
-/

namespace RemoteCalls

/-- What a source does when it has no more octets. -/
inductive Ending where
  /-- It reports the end of the file. -/
  | endOfFile
  /-- It fails, which counts as loss. -/
  | failing
  /-- It fails, and the failure leaves the transfer as an exception. -/
  | escaping
  deriving DecidableEq, Repr, Inhabited

namespace Ending

/-- The bits that a transfer raises when it comes short. -/
def shortfall : Ending → Condition
  | endOfFile => { eof := true, fail := true }
  | _ => { bad := true }

/-- The bits that looking ahead raises at the end. -/
def exhaustion : Ending → Condition
  | endOfFile => { eof := true }
  | _ => { bad := true }

end Ending

/-- A stream that gives octets. -/
structure Source where
  /-- The octets not read yet. -/
  rest : Bytes
  /-- How many octets have been read. -/
  position : Nat := 0
  ending : Ending := .endOfFile
  marks : List Mark := []
  condition : Condition := .good
  deriving DecidableEq, Repr, Inhabited

/-- What a transfer out of a source gave. -/
structure Taken where
  bytes : Bytes
  source : Source
  /-- Whether an exception left the transfer. -/
  escaped : Bool
  deriving DecidableEq, Repr

namespace Taken

/-- The fault that the transfer amounts to. -/
def fault (t : Taken) : Option Fault :=
  if t.escaped then some .exceptionOccurred else t.source.condition.verdict

end Taken

namespace Source

/-- A good source over these octets, without marks. -/
def ofBytes (bytes : Bytes) : Source := { rest := bytes }

/-- Ask for `count` octets.  A source that is not good gives none and has failed. -/
def transfer (s : Source) (count : Nat) : Taken :=
  if s.condition.isGood then
    let bytes := s.rest.take count
    let short := bytes.length < count
    let fetched := s.condition.raise (Mark.raised s.marks bytes.length)
    { bytes
      source :=
        { s with
          rest := s.rest.drop count
          position := s.position + bytes.length
          marks := Mark.pass s.marks bytes.length
          condition := if short then fetched.raise s.ending.shortfall else fetched }
      escaped := short && s.ending == .escaping }
  else
    { bytes := []
      source := { s with condition := s.condition.raise { fail := true } }
      escaped := false }

/-- Ask a source, which must be good to begin with, for `count` octets and nothing less. -/
def fetch (s : Source) (count : Nat) : Source × Except Fault Bytes :=
  match s.condition.readiness with
  | some f => (s, .error f)
  | none =>
      let t := s.transfer count
      match t.fault with
      | some f => (t.source, .error f)
      | none => (t.source, .ok t.bytes)

/-- Look at the next octet without reading it.  It has passed then, and raises nothing when it is
read. -/
def peek (s : Source) : Source × Option UInt8 :=
  if s.condition.isGood then
    match s.rest with
    | [] => ({ s with condition := s.condition.raise s.ending.exhaustion }, none)
    | b :: _ =>
        ({ s with
            marks := Mark.spend s.marks
            condition := s.condition.raise (Mark.raised s.marks 1) }, some b)
  else ({ s with condition := s.condition.raise { fail := true } }, none)

/-- Raise bits from outside. -/
def raise (s : Source) (bits : Condition) : Source :=
  { s with condition := s.condition.raise bits }

/-- Lower all bits. -/
def clear (s : Source) : Source := { s with condition := .good }

end Source

end RemoteCalls
