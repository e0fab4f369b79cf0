import RemoteCalls.Fault

/-!
# RemoteCalls.Transport.ByteStream

Open duplex connections that carry octets.  A read asks for a number of octets
and may have to wait for them; a write hands over all its octets, and if it
fails the transport may have taken any part of them.  A write may have to wait as
well, for the transport to take what it is given.  What a write does is what it
has done when it returns: as long as it waits it has not been made.

A read leaves the octets that came in its buffer, also if it fails for want of
more.  A transport may also end quietly: a read is then a success with fewer
octets than were asked for.  In either case the rest of the buffer stays as it
was.
-/

namespace RemoteCalls

/-- What became of a read. -/
inductive Received (σ : Type) where
  /-- The octets are not there yet, and may still come. -/
  | waiting
  /-- The read ended, left the stream so, and put these octets at the front of its buffer.  If they
  are fewer than were asked for, there is a fault unless the connection has ended quietly. -/
  | done (stream : σ) (bytes : Bytes) (fault : Option Fault)

/-- Connections in state `σ`. -/
class ByteStream (σ : Type) where
  /-- Read this many octets. -/
  read : Nat → σ → Received σ
  /-- Write all these octets, once there is no more waiting for this. -/
  write : Bytes → σ → σ × Option Fault
  /-- Shut both directions down. -/
  close : σ → σ × Option Fault
  /-- How many octets have arrived and are not read yet. -/
  unread : σ → Nat

end RemoteCalls
