import RemoteCalls.Stream.Sink
import RemoteCalls.Value.Ty

/-!
# RemoteCalls.Value.Write

Writing a value to a sink.  A value is written part by part, and the first part
that goes wrong is the last one tried.
-/

namespace RemoteCalls

namespace Ty

/-- Write a count. -/
def writeCount (n : Nat) (s : Sink) : Sink × Option Fault := s.putReady (encodeCount n)

/-- Write an octet string of this size behind its count.  A size that the count cannot hold is found
before anything else is looked at, the sink and the octets included. -/
def writeSized (size : Nat) (octets : Unit → Bytes) (s : Sink) : Sink × Option Fault :=
  if countLimit ≤ size then (s, some .objectTooLarge)
  else andThen (writeCount size s) fun s => s.put (octets ())

/-- Write an octet string behind its count. -/
def writeBytes (bytes : Bytes) : Sink → Sink × Option Fault :=
  writeSized bytes.length fun _ => bytes

/-- Write octet strings one after another. -/
def writeEach : List Bytes → Sink → Sink × Option Fault
  | [], s => (s, none)
  | b :: bs, s => andThen (writeBytes b s) (writeEach bs)

/-- Write a value. -/
def write : (t : Ty) → t.Val → Sink → Sink × Option Fault
  | bool, v, s => s.putReady (encodeBool v)
  | unsigned w, v, s => s.putReady (encodeInteger w v)
  | signed w, v, s => s.putReady (encodeInteger w v)
  | bytes, v, s => writeBytes v s
  | bytesList, v, s =>
      if countLimit ≤ List.length v then (s, some .objectTooLarge)
      else andThen (writeCount (List.length v) s) (writeEach v)
  | pair a b, v, s => andThen (a.write v.1 s) (b.write v.2)

end Ty

namespace TypedValue

/-- Write values in order until one goes wrong. -/
def writeAll : List TypedValue → Sink → Sink × Option Fault
  | [], s => (s, none)
  | v :: vs, s => andThen (v.ty.write v.val s) (writeAll vs)

end TypedValue

end RemoteCalls
