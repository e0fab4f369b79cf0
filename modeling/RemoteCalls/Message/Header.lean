import RemoteCalls.Value.Read
import RemoteCalls.Value.Write

/-!
# RemoteCalls.Message.Header

What stands in front of every message: whom it is for, which call it belongs to,
and whether that call failed.

A header frame holds one header and nothing else: content that is cut short and
content behind the header are both refused.
-/

namespace RemoteCalls

/-- The header of a request or a response. -/
structure Header where
  service : Bytes := []
  method : Bytes := []
  /-- Ties a response to its request. -/
  seq : UInt64 := 0
  /-- What went wrong at the peer; empty if nothing did. -/
  error : Bytes := []
  deriving DecidableEq, Repr, Inhabited

namespace Header

/-- The order of the fields on the wire. -/
abbrev layout : Ty := .pair .bytes (.pair .bytes (.pair (.unsigned .w64) .bytes))

/-- The fields of a header in the order of the wire. -/
def toVal (h : Header) : layout.Val := (h.service, h.method, h.seq.toBitVec, h.error)

/-- The header with these fields. -/
def ofVal (v : layout.Val) : Header := ⟨v.1, v.2.1, ⟨v.2.2.1⟩, v.2.2.2⟩

@[simp] theorem ofVal_toVal (h : Header) : ofVal h.toVal = h := rfl

@[simp] theorem toVal_ofVal (v : layout.Val) : (ofVal v).toVal = v := rfl

/-- The octets of a header. -/
def encode (h : Header) : Bytes := layout.encode h.toVal

/-- Write a header. -/
def write (h : Header) (s : Sink) : Sink × Option Fault := layout.write h.toVal s

/-- Read a header into a variable that holds `old`. -/
def read (old : Header) (s : Source) : Reading Header := (layout.read old.toVal s).map ofVal

/-- Read the content of a header frame into a variable that holds `old`. -/
def ofFrame (old : Header) (payload : Bytes) : Header × Option Fault :=
  match old.read (.ofBytes payload) with
  | ⟨h, _, some _⟩ => (h, some .invalidData)
  | ⟨h, s, none⟩ =>
      match s.peek.2 with
      | some _ => (h, some .invalidData)
      | none => (h, none)

/-- A variable that holds `old`, after a header has been received into it in a frame. -/
def receive (old : Header) : Except Fault Bytes → Header × Option Fault
  | .error f => (old, some f)
  | .ok payload => ofFrame old payload

end Header

end RemoteCalls
