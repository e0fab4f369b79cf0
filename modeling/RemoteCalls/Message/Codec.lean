import RemoteCalls.Message.Body
import RemoteCalls.Message.Frame
import RemoteCalls.Message.Header

/-!
# RemoteCalls.Message.Codec

Messages on a connection: a header frame followed by a body frame.

A message is written whole, in one write, and only if both of its frames are
within the limit.  A body frame that arrives whole has been consumed, whatever
its reader makes of it, so that the next message can be read in any case.
-/

namespace RemoteCalls

/-- The codec's own limit on the octets of a frame. -/
def defaultLimit : Nat := 16 * 1024 * 1024

/-- A connection that carries messages. -/
structure Codec (σ : Type) extends Frame.Input σ where
  /-- The most octets a frame may have. -/
  limit : Nat := defaultLimit

namespace Codec

/-! ## Writing -/

/-- What a body writer leaves in its frame, what is logged, and what went wrong. -/
def bodyPayload (body : Option BodyWriter) : Bytes × List Log.Entry × Option Fault :=
  match body with
  | none => ([], [], none)
  | some write =>
      let (s, verdict) := write .empty
      (s.written, verdict.log, verdict.fault)

/-- The octets of a message, unless its body cannot be written or a frame exceeds the limit. -/
def encodeMessage (limit : Nat) (h : Header) (body : Option BodyWriter) :
    List Log.Entry × Except Fault Bytes :=
  match h.write .empty with
  | (_, some f) => ([], .error f)
  | (head, none) =>
      match bodyPayload body with
      | (_, entries, some f) => (entries, .error f)
      | (payload, entries, none) =>
          if limit < head.written.length ∨ limit < payload.length then
            (entries, .error .objectTooLarge)
          else (entries, .ok (Frame.encode head.written ++ Frame.encode payload))

variable {σ : Type} [ByteStream σ]

/-- Write a message. -/
def write (c : Codec σ) (h : Header) (body : Option BodyWriter) :
    Codec σ × List Log.Entry × Option Fault :=
  match encodeMessage c.limit h body with
  | (entries, .error f) => (c, entries, some f)
  | (entries, .ok bytes) =>
      let (stream, fault) := ByteStream.write bytes c.stream
      ({ c with stream }, entries, fault)

/-! ## Reading -/

/-- Change the state of the connection. -/
def withStream (c : Codec σ) (stream : σ) : Codec σ := { c with stream }

/-- Read a frame from the stage it has reached. -/
def resume (c : Codec σ) (stage : Frame.Stage) : Frame.Progress (Codec σ) :=
  (Frame.resume c.limit stage c.toInput).map fun toInput => { c with toInput }

/-- Read a header into a variable that holds `old`, unless that has to wait. -/
def readHeader (c : Codec σ) (old : Header) : Option (Codec σ × Header × Option Fault) :=
  match c.resume .size with
  | .waiting _ _ => none
  | .done c result => some (c, old.receive result)

/-- Read a body into a reply, or past it if nobody reads it, unless that has to wait: also what is
logged. -/
def readBody {ρ : Type} (c : Codec σ) (reader : Option (BodyReader ρ)) (reply : ρ) :
    Option (Codec σ × ρ × List Log.Entry × Option Fault) :=
  match c.resume .size with
  | .waiting _ _ => none
  | .done c result => some (c, BodyReader.receive reader reply result)

/-- Shut the connection down. -/
def close (c : Codec σ) : Codec σ × Option Fault :=
  let (stream, fault) := ByteStream.close c.stream
  ({ c with stream }, fault)

/-- Shut the connection down while another thread reads a frame, which goes as far as it can before
and on afterwards: what the shutdown reports, and what the reader gets unless it still waits. -/
def closeDuringRead (c : Codec σ) : Codec σ × Option Fault × Option (Except Fault Bytes) :=
  match c.resume .size with
  | .done c result =>
      let (c, fault) := c.close
      (c, fault, some result)
  | .waiting stage c =>
      let (c, fault) := c.close
      match c.resume stage with
      | .waiting _ c => (c, fault, none)
      | .done c result => (c, fault, some result)

end Codec

end RemoteCalls
