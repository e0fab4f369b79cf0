import RemoteCalls.Client.State
import RemoteCalls.Connection.Catalog

/-!
# RemoteCalls.Client.Open

Opening a client on a connection.

Opening is all or nothing.  The codec is looked up and the opening record sent
before there is a client; if either goes wrong the connection is closed.
-/

namespace RemoteCalls

/-- What became of opening a client. -/
inductive Opening (σ ρ : Type) where
  /-- There was no connection to open it on. -/
  | unreached (fault : Fault) (log : List Log.Entry)
  /-- The connection was closed again. -/
  | refused (fault : Fault) (stream : σ) (log : List Log.Entry)
  | opened (client : Client σ ρ)

namespace Opening

variable {σ ρ : Type}

/-- What went wrong, if anything. -/
def fault : Opening σ ρ → Option Fault
  | unreached f _ => some f
  | refused f _ _ => some f
  | opened _ => none

/-- The client, if there is one. -/
def client? : Opening σ ρ → Option (Client σ ρ)
  | opened c => some c
  | _ => none

/-- What has been logged. -/
def log : Opening σ ρ → List Log.Entry
  | unreached _ log => log
  | refused _ _ log => log
  | opened c => c.log

end Opening

namespace Client

variable {σ ρ : Type} [ByteStream σ]

/-- A client on a connection whose opening record has been sent. -/
def start (codec : Codec σ) (p : Preamble) (log : List Log.Entry)
    (order : Registry.Order := .newestFirst) : Client σ ρ :=
  { codec, preamble := p, log, order }

/-- Close a connection on which no client could be opened. -/
def refuse (f : Fault) (stream : σ) (log : List Log.Entry) : Opening σ ρ :=
  let (stream, closing) := ByteStream.close stream
  let note := match closing with
    | none => []
    | some g => [Log.debug (.ofText "closing stream after failed connect: " ++ g.message)]
  .refused f stream (log ++ note)

/-- Open a client on a connection: `factories` make the codecs, and `log` is what has been logged
before. -/
def establish (factories : Catalog (σ → Codec σ)) (p : Preamble) (stream : σ)
    (log : List Log.Entry) (order : Registry.Order := .newestFirst) : Opening σ ρ :=
  match factories.find? p.codec with
  | none =>
      refuse .invalidCodec stream
        (log ++ [Log.error (.ofText "rpc client: invalid codec type '" ++ p.codec ++ .ofText "'")])
  | some factory =>
      match p.write stream with
      | (stream, some f) =>
          refuse f stream
            (log ++ [Log.error (.ofText "rpc client: failed to send options: " ++ f.message)])
      | (stream, none) => .opened (start (factory stream) p log order)

end Client

/-- The codecs that are there from the start. -/
def builtinCodecs {σ : Type} : Catalog (σ → Codec σ) := .initial fun stream => { stream }

end RemoteCalls
