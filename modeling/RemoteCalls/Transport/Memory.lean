import RemoteCalls.Transport.ByteStream

/-!
# RemoteCalls.Transport.Memory

A connection in memory.  What arrives is put in by its owner, who also decides
when no more will come, what reads past the end report, and whether writes and
the close succeed.
-/

namespace RemoteCalls

/-- A connection whose two directions are octet strings. -/
structure MemoryStream where
  /-- What has arrived and is not read yet. -/
  incoming : Bytes := []
  /-- How many octets have been read. -/
  consumed : Nat := 0
  /-- Whether no more will arrive, so that reads need not wait. -/
  ended : Bool := false
  /-- What a read past the end reports; the end is quiet if that is no fault. -/
  endFault : Option Fault := some .connectionClosed
  /-- What has been written. -/
  outgoing : Bytes := []
  /-- What writes report, if they are to fail. -/
  writeFault : Option Fault := none
  /-- What the close reports. -/
  closeFault : Option Fault := none
  closed : Bool := false
  /-- What arrives while the next write is going on, whatever becomes of it. -/
  duringWrite : Bytes := []
  /-- Whether nothing more arrives after that. -/
  endsDuringWrite : Bool := false
  deriving DecidableEq, Repr, Inhabited

namespace MemoryStream

/-- Octets arrive. -/
def arrive (bytes : Bytes) (s : MemoryStream) : MemoryStream :=
  { s with incoming := s.incoming ++ bytes }

/-- Nothing more arrives. -/
def finish (s : MemoryStream) : MemoryStream := { s with ended := true }

/-- Read `count` octets.  A closed stream gives none; one that has ended gives up what is left and
reports how it ended. -/
def read (count : Nat) (s : MemoryStream) : Received MemoryStream :=
  if s.closed then .done s [] (some .connectionClosed)
  else
    let bytes := s.incoming.take count
    let rest :=
      { s with incoming := s.incoming.drop count, consumed := s.consumed + bytes.length }
    if bytes.length = count then .done rest bytes none
    else if s.ended then .done rest bytes s.endFault
    else .waiting

/-- What was to arrive during a write arrives. -/
def meanwhile (s : MemoryStream) : MemoryStream :=
  { s with
    incoming := s.incoming ++ s.duringWrite
    ended := s.ended || s.endsDuringWrite
    duringWrite := []
    endsDuringWrite := false }

/-- Write octets.  A closed stream and one set to fail keep none of them. -/
def write (bytes : Bytes) (s : MemoryStream) : MemoryStream × Option Fault :=
  if s.closed then (s, some .connectionClosed)
  else
    let s := s.meanwhile
    match s.writeFault with
    | some f => (s, some f)
    | none => ({ s with outgoing := s.outgoing ++ bytes }, none)

/-- Close the stream, once. -/
def close (s : MemoryStream) : MemoryStream × Option Fault :=
  if s.closed then (s, some .connectionClosed) else ({ s with closed := true }, s.closeFault)

instance : ByteStream MemoryStream where
  read := read
  write := write
  close := close
  unread s := s.incoming.length

end MemoryStream

end RemoteCalls
