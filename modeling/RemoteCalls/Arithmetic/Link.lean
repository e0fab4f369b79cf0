import RemoteCalls.Arithmetic.Server
import RemoteCalls.Transport.Memory

/-!
# RemoteCalls.Arithmetic.Link

A connection to an arithmetic server: two connections in memory, where what is
written to one arrives at the other, and where nothing more arrives when the
other end is closed or gone.

The server handles what it is sent before a write returns.
-/

namespace RemoteCalls.Arithmetic

/-- What has been written to `source` arrives at `target`, and nothing more if `source` is gone: both
afterwards. -/
def carry (source target : MemoryStream) (gone : Bool) : MemoryStream × MemoryStream :=
  let target := target.arrive source.outgoing
  ({ source with outgoing := [] }, if gone then target.finish else target)

/-- The near end of a connection, and the server at its far end. -/
structure Link where
  near : MemoryStream := {}
  server : Server MemoryStream := .start {}

namespace Link

/-- Carry octets to the server, let it handle them, and carry its octets back. -/
def exchange (l : Link) : Link :=
  let (near, far) := carry l.near l.server.codec.stream l.near.closed
  let server := (l.server.withStream far).settle
  let (far, near) := carry server.codec.stream near (server.isStopped || server.codec.stream.closed)
  { near, server := server.withStream far }

instance : ByteStream Link where
  read count l :=
    match l.near.read count with
    | .waiting => .waiting
    | .done near bytes fault => .done { l with near } bytes fault
  write bytes l :=
    let (near, fault) := l.near.write bytes
    (exchange { l with near }, fault)
  close l :=
    let (near, fault) := l.near.close
    (exchange { l with near }, fault)
  unread l := l.near.incoming.length

end Link

end RemoteCalls.Arithmetic
