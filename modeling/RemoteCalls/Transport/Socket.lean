import RemoteCalls.Transport.ByteStream

/-!
# RemoteCalls.Transport.Socket

A connection over a connected socket.  A read collects what the socket gives
until it has enough or the socket ends; a write goes on until everything is
handed over or the socket refuses.

The end of the peer's data is reported as a closed connection.  The first close
shuts the socket down; that the peer was gone already is no failure.
-/

namespace RemoteCalls

/-- A connected socket and what its peer and its system will do. -/
structure Socket where
  /-- What the peer sends and has not been read yet. -/
  incoming : Bytes := []
  /-- What reads report when the peer has nothing more. -/
  ending : Fault := .endOfStream
  /-- What has been handed over. -/
  outgoing : Bytes := []
  /-- How many octets the peer must have got before it sends. -/
  gate : Nat := 0
  /-- How many octets can be handed over at most, and what happens then. -/
  capacity : Option (Nat × Fault) := none
  /-- What the shutdown reports. -/
  shutdownFault : Option Fault := none
  /-- How often the socket has been shut down. -/
  shutdowns : Nat := 0
  deriving DecidableEq, Repr, Inhabited

namespace Socket

/-- The condition of writing to a socket that is shut down. -/
def brokenPipe : Fault := .system 32

/-- The condition of shutting a socket down that has lost its peer. -/
def notConnected : Fault := .system 107

/-- Whether the socket has been shut down. -/
def isShut (s : Socket) : Bool := s.shutdowns != 0

/-- How a fault of the socket is reported by the connection. -/
def report : Fault → Fault
  | .endOfStream => .connectionClosed
  | f => f

/-- Read `count` octets. -/
def read (count : Nat) (s : Socket) : Received Socket :=
  if count = 0 then .done s [] none
  else if s.isShut then .done s [] (some (report .endOfStream))
  else if s.outgoing.length < s.gate then .waiting
  else
    let bytes := s.incoming.take count
    let rest := { s with incoming := s.incoming.drop count }
    .done rest bytes (if bytes.length = count then none else some (report s.ending))

/-- Write octets, as far as they can be handed over. -/
def write (bytes : Bytes) (s : Socket) : Socket × Option Fault :=
  if bytes = [] then (s, none)
  else if s.isShut then (s, some (report brokenPipe))
  else
    match s.capacity with
    | none => ({ s with outgoing := s.outgoing ++ bytes }, none)
    | some (most, f) =>
        let room := most - s.outgoing.length
        if bytes.length ≤ room then ({ s with outgoing := s.outgoing ++ bytes }, none)
        else ({ s with outgoing := s.outgoing ++ bytes.take room }, some (report f))

/-- Shut the socket down, once. -/
def close (s : Socket) : Socket × Option Fault :=
  if s.isShut then (s, some .connectionClosed)
  else
    ({ s with shutdowns := s.shutdowns + 1 },
      if s.shutdownFault = some notConnected then none else s.shutdownFault)

instance : ByteStream Socket where
  read := read
  write := write
  close := close
  unread s := s.incoming.length

end Socket

end RemoteCalls
