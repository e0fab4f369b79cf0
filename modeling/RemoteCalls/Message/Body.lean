import RemoteCalls.Log
import RemoteCalls.Value.Read
import RemoteCalls.Value.Write

/-!
# RemoteCalls.Message.Body

Bodies of messages are written and read by the application.  Its code may
succeed, refuse, or throw, and may do so after having done part of its work.

A thrown exception is reported in the log and counts as a fault like any other.
-/

namespace RemoteCalls

/-- How the application's code for a body ended. -/
inductive Verdict where
  | accepted
  | refused (fault : Fault)
  /-- It threw, with a text if the exception carried one. -/
  | raised (what : Option Bytes)
  deriving DecidableEq, Repr, Inhabited

namespace Verdict

/-- The verdict of an operation that went wrong in this way, if at all. -/
def ofFault : Option Fault → Verdict
  | none => accepted
  | some f => refused f

/-- The fault that a verdict amounts to. -/
def fault : Verdict → Option Fault
  | accepted => none
  | refused f => some f
  | raised _ => some .exceptionOccurred

/-- What is shown of the text of an exception, which ends before its first zero octet. -/
def shown (what : Bytes) : Bytes := what.takeWhile (· != 0)

/-- What the log says about a verdict. -/
def log : Verdict → List Log.Entry
  | raised (some what) => [Log.warning (.ofText "message body threw: " ++ shown what)]
  | raised none => [Log.warning (.ofText "message body threw an unknown exception")]
  | _ => []

end Verdict

/-- Writes a body. -/
abbrev BodyWriter := Sink → Sink × Verdict

namespace BodyWriter

/-- Writes values in order, and then ends with `verdict`. -/
def ofValues (values : List TypedValue) (verdict : Verdict) : BodyWriter := fun s =>
  match TypedValue.writeAll values s with
  | (s, some f) => (s, .refused f)
  | (s, none) => (s, verdict)

/-- Writes one value. -/
def ofValue (t : Ty) (v : t.Val) : BodyWriter := fun s =>
  let (after, fault) := t.write v s
  (after, .ofFault fault)

end BodyWriter

/-- Reads a body into a reply of type `ρ`. -/
abbrev BodyReader (ρ : Type) := ρ → Source → ρ × Verdict

namespace BodyReader

/-- Reads one value of each type, adding it to the reply, and then ends with `verdict`. -/
def ofTypes : List Ty → Verdict → BodyReader (List TypedValue)
  | [], verdict => fun got _ => (got, verdict)
  | t :: ts, verdict => fun got s =>
      match t.read t.blank s with
      | ⟨_, _, some f⟩ => (got, .refused f)
      | ⟨v, s, none⟩ => ofTypes ts verdict (got ++ [⟨t, v⟩]) s

/-- Reads one value into a variable. -/
def ofType (t : Ty) : BodyReader t.Val := fun old s =>
  let r := t.read old s
  (r.value, .ofFault r.fault)

/-- Hand the content of a body frame to its reader, if there is one: the reply after it, what is
logged, and what went wrong. -/
def ofFrame {ρ : Type} (reader : Option (BodyReader ρ)) (reply : ρ) (payload : Bytes) :
    ρ × List Log.Entry × Option Fault :=
  match reader with
  | none => (reply, [], none)
  | some read =>
      let (after, verdict) := read reply (.ofBytes payload)
      match verdict.fault with
      | none => (after, verdict.log, none)
      | some f =>
          let note := Log.debug (.ofText "failed to decode " ++ .decimal payload.length
            ++ .ofText " byte body: " ++ f.message)
          (after, verdict.log ++ [note], some .bodyDecodeFailed)

/-- As `ofFrame`, for a frame that may not have arrived. -/
def receive {ρ : Type} (reader : Option (BodyReader ρ)) (reply : ρ) :
    Except Fault Bytes → ρ × List Log.Entry × Option Fault
  | .error f => (reply, [], some f)
  | .ok payload => ofFrame reader reply payload

end BodyReader

end RemoteCalls
