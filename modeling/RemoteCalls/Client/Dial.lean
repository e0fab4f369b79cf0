import RemoteCalls.Client.Open
import RemoteCalls.Transport.Network

/-!
# RemoteCalls.Client.Dial

Dialling a peer: resolving its name, connecting to it, and opening a client on
the connection.
-/

namespace RemoteCalls.Client

variable {ν ε σ ρ : Type} [ByteStream σ] [Network ν ε σ]

/-- A peer as it is shown: its host and its port. -/
def peer (host : Bytes) (port : UInt16) : Bytes :=
  host ++ .ofText ":" ++ .decimal port.toNat

/-- Open a client on a connection to a peer, with the record `given` completed: the network
afterwards, and what became of it. -/
def dial (factories : Catalog (σ → Codec σ)) (host : Bytes) (port : UInt16)
    (given : Option Preamble) (net : ν) (order : Registry.Order := .newestFirst) :
    ν × Opening σ ρ :=
  let p := Preamble.resolve given
  match Network.resolve host (.decimal port.toNat) net with
  | (net, .error f) =>
      (net, .unreached f [Log.error (.ofText "rpc client: failed to resolve " ++ peer host port
        ++ .ofText ": " ++ f.message)])
  | (net, .ok endpoint) =>
      match Network.connect endpoint net with
      | (net, .error f) =>
          (net, .unreached f [Log.error (.ofText "rpc client: failed to connect to "
            ++ peer host port ++ .ofText ": " ++ f.message)])
      | (net, .ok stream) =>
          (net, establish factories p stream
            [Log.info (.ofText "rpc client: connected to " ++ peer host port
              ++ .ofText " with codec '" ++ p.codec ++ .ofText "'")] order)

end RemoteCalls.Client
