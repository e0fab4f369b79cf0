import RemoteCalls.Fault

/-!
# RemoteCalls.Transport.Network

Networks that can be asked for a connection.  The name of a host and that of a
service are looked up, and one of the endpoints that they stand for is connected
to.  What a network does may depend on all it has been asked before.
-/

namespace RemoteCalls

/-- Networks in state `ν`, on which names stand for endpoints `ε` and connections are in state
`σ`. -/
class Network (ν : Type) (ε σ : outParam Type) where
  /-- Look up a host and a service. -/
  resolve : Bytes → Bytes → ν → ν × Except Fault ε
  /-- Connect to an endpoint. -/
  connect : ε → ν → ν × Except Fault σ

/-- A network with one connection to give, on which every name stands for its own endpoint.  It does
as it has been told, and keeps a record of what it has been asked. -/
structure Switchboard (σ : Type) where
  /-- What looking a name up reports. -/
  resolveFault : Option Fault := none
  /-- What connecting reports. -/
  connectFault : Option Fault := none
  /-- The connection that is made. -/
  connection : σ
  /-- The hosts and services that have been looked up, in order. -/
  lookups : List (Bytes × Bytes) := []
  /-- The endpoints that have been tried, in order. -/
  attempts : List (Bytes × Bytes) := []
  deriving DecidableEq, Repr

namespace Switchboard

/-- The result of something that may report a fault. -/
def outcome {α : Type} (fault : Option Fault) (a : α) : Except Fault α :=
  match fault with
  | some f => .error f
  | none => .ok a

instance {σ : Type} : Network (Switchboard σ) (Bytes × Bytes) σ where
  resolve host service net :=
    ({ net with lookups := net.lookups ++ [(host, service)] },
      outcome net.resolveFault (host, service))
  connect endpoint net :=
    ({ net with attempts := net.attempts ++ [endpoint] }, outcome net.connectFault net.connection)

end Switchboard

end RemoteCalls
