import RemoteCalls.Log

/-!
# RemoteCalls.Abort

Misuse that ends the process.  These are promises that callers of the library
have broken, so there is nothing to report to them: the reason is logged as
critical and nothing more happens.
-/

namespace RemoteCalls

/-- A promise that a caller has broken. -/
inductive Abort where
  /-- A call was registered that is none. -/
  | missingCall
  /-- A call finished that has no queue to be delivered to. -/
  | missingQueue
  /-- A codec was made without a connection. -/
  | missingStream
  /-- A client was opened without a connection. -/
  | missingConnection
  /-- A codec factory was registered that is none. -/
  | missingFactory
  /-- An argument index lies outside the command line. -/
  | argumentIndex
  /-- A call was finished a second time. -/
  | finishedTwice (service method : Bytes) (seq : UInt64)
  deriving DecidableEq, Repr

namespace Abort

/-- The report of a condition that does not hold. -/
def precondition (condition : String) : Bytes :=
  .ofText "precondition failed: " ++ .ofText condition

/-- What is logged about a broken promise. -/
def message : Abort → Bytes
  | missingCall => precondition "call != nullptr"
  | missingQueue => precondition "done != nullptr"
  | missingStream => precondition "stream_ != nullptr"
  | missingConnection => precondition "stream != nullptr"
  | missingFactory => precondition "factory != nullptr"
  | argumentIndex => precondition "i >= 0 && i < argc"
  | finishedTwice service method seq =>
      .ofText "call " ++ service ++ .ofText "." ++ method ++ .ofText " seq="
        ++ .decimal seq.toNat ++ .ofText " finished twice"

/-- What is done after something else is done just if that went well. -/
theorem bind_eq_ok {α β : Type} {x : Except Abort α} {f : α → Except Abort β} {b : β} :
    (x >>= f) = .ok b ↔ ∃ a, x = .ok a ∧ f a = .ok b := by
  cases x with
  | error cause =>
      constructor
      · intro h
        contradiction
      · rintro ⟨a, ha, -⟩
        contradiction
  | ok a =>
      constructor
      · exact fun h => ⟨a, rfl, h⟩
      · rintro ⟨a', ha, h⟩
        obtain rfl := Except.ok.inj ha
        exact h

end Abort

/-- What became of a step that may have to wait. -/
inductive Turn (α : Type) where
  /-- The step cannot be taken now. -/
  | blocked
  /-- The step ended the process. -/
  | aborted (cause : Abort)
  | moved (value : α)

namespace Turn

/-- The same step with its result seen through `f`. -/
def map {α β : Type} (f : α → β) : Turn α → Turn β
  | blocked => blocked
  | aborted cause => aborted cause
  | moved a => moved (f a)

end Turn

end RemoteCalls
