import RemoteCalls.Message.Frame
import RemoteCalls.Value.Read
import RemoteCalls.Value.Write

/-!
# RemoteCalls.Connection.Preamble

The record that opens a connection, before any message: the protocol's mark and
the name of the codec the messages are in.

The record is one frame of at most `limit` octets.  A reader asks for the mark
and the name at its front, and for the mark to be the protocol's own.
-/

namespace RemoteCalls

/-- The protocol's mark. -/
def protocolMark : UInt32 := 0x3bef5c

/-- The name of the codec that this library provides. -/
def binaryCodec : Bytes := .ofText "application/binary"

/-- The record that opens a connection. -/
structure Preamble where
  mark : UInt32 := protocolMark
  /-- The name of the codec. -/
  codec : Bytes := binaryCodec
  deriving DecidableEq, Repr, Inhabited

namespace Preamble

/-- The most octets a record may have behind its count. -/
def limit : Nat := 1024

/-- Fill in what a caller has left open: the mark is the protocol's, and no codec means this
library's own. -/
def resolve : Option Preamble → Preamble
  | none => {}
  | some p => { mark := protocolMark, codec := if p.codec = [] then binaryCodec else p.codec }

/-- The order of the fields on the wire. -/
abbrev layout : Ty := .pair (.unsigned .w32) .bytes

/-- The fields of a record in the order of the wire. -/
def toVal (p : Preamble) : layout.Val := (p.mark.toBitVec, p.codec)

/-- The record with these fields. -/
def ofVal (v : layout.Val) : Preamble := ⟨⟨v.1⟩, v.2⟩

@[simp] theorem ofVal_toVal (p : Preamble) : ofVal p.toVal = p := rfl

/-- The octets of a record, unless it is too large. -/
def encode (p : Preamble) : Except Fault Bytes :=
  match layout.write p.toVal .empty with
  | (_, some f) => .error f
  | (s, none) =>
      if limit < s.written.length then .error .objectTooLarge else .ok (Frame.encode s.written)

/-- Read the content of a record's frame. -/
def ofFrame (payload : Bytes) : Except Fault Preamble :=
  match layout.read (0, []) (.ofBytes payload) with
  | ⟨_, _, some _⟩ => .error .invalidData
  | ⟨v, _, none⟩ =>
      let p := ofVal v
      if p.mark = protocolMark then .ok p else .error .badMagicNumber

variable {σ : Type} [ByteStream σ]

/-- Open a connection with a record. -/
def write (p : Preamble) (stream : σ) : σ × Option Fault :=
  match p.encode with
  | .error f => (stream, some f)
  | .ok bytes => ByteStream.write bytes stream

/-- Read the frame of a record into a buffer of its own, from the stage that has been reached. -/
def resume (stage : Frame.Stage) (stream : σ) : Frame.Progress σ :=
  (Frame.resume limit stage { stream }).map (·.stream)

/-- A variable that holds `old`, after a record has been read into it: it changes only if nothing
went wrong. -/
def receive (old : Preamble) (result : Except Fault Bytes) : Preamble × Option Fault :=
  match result with
  | .error f => (old, some f)
  | .ok payload =>
      match ofFrame payload with
      | .error f => (old, some f)
      | .ok p => (p, none)

end Preamble

end RemoteCalls
