import RemoteCalls.Client.Dial
import RemoteCalls.Client.Run
import RemoteCalls.CommandLine.Config
import RemoteCalls.Transport.Socket

/-!
# RemoteCalls.CommandLine.Program

The program behind the command line: it makes one call, with a list of strings
as its arguments, and prints the string that comes back.
-/

namespace RemoteCalls

/-- What a run of the program leaves. -/
structure Outcome where
  exitCode : Nat
  stdout : Bytes := []
  stderr : Bytes := []
  /-- The connection at the end, if one was made. -/
  socket : Option Socket := none
  /-- What was logged. -/
  log : List Log.Entry := []
  deriving DecidableEq, Repr

namespace Program

/-- Lines of text. -/
def lines (ls : List Bytes) : Bytes := ls.flatMap fun l => l ++ Bytes.ofText "\n"

/-- How the program is used. -/
def help (name : Bytes) : Bytes :=
  lines
    [[], [], .ofText "   Usage: " ++ name ++ .ofText " [OPTIONS...] <service> <method> [ARGS...]",
     [],
     .ofText "      Calls <service>.<method> on a muxrpc server, passing ARGS as a list",
     .ofText "      of strings, and prints the string reply.",
     [],
     .ofText "   Options:",
     [],
     .ofText "      -h, --host <host>     Server host, default is 'localhost'.",
     .ofText "      -p, --port <port>     Server port, default is 9999.",
     .ofText "      -c, --codec <type>    Codec type, default is '" ++ binaryCodec ++ .ofText "'.",
     .ofText "      --help                Show this help.",
     [],
     .ofText "   Environment:",
     [],
     .ofText "      LOG_LEVEL_OVERRIDE    spdlog level, e.g., 'debug', 'info', 'off'.",
     []]

/-- The request that a command line asks for: a list of strings, for a string. -/
def request (config : Config) : Request Bytes :=
  { service := config.service, method := config.method
    args := some (.ofValue .bytesList config.args), reader := some (.ofType .bytes)
    reply := [] }

variable {ν ε : Type} [Network ν ε Socket]

/-- Dial the peer that a command line asks for. -/
def dial (config : Config) (net : ν) : ν × Opening Socket Bytes :=
  Client.dial builtinCodecs config.host (UInt16.ofNat config.port.toNat)
    (some { codec := config.codec }) net

/-- Make the call that a command line asks for: the network afterwards, and what the run leaves.
Nothing comes back from a call that is never answered. -/
def call (config : Config) (net : ν) : Except Abort (ν × Option Outcome) :=
  let (net, opening) := dial config net
  let failed (f : Fault) (socket : Option Socket) (log : List Log.Entry) : Outcome :=
    { exitCode := 1
      stderr := lines [.ofText "failed to connect to "
        ++ Client.peer config.host (UInt16.ofNat config.port.toNat) ++ .ofText ": " ++ f.message]
      socket, log }
  match opening with
  | .unreached f log => .ok (net, some (failed f none log))
  | .refused f socket log => .ok (net, some (failed f (some socket) log))
  | .opened c => do
      let (c, answer) ← c.call (request config)
      match answer with
      | none => return (net, none)
      | some call => do
          let c ← c.drop
          let socket := some c.codec.stream
          let log := c.log ++ c.receiverLog
          if call.error.isOk then
            return (net, some { exitCode := 0, stdout := lines [call.reply], socket, log })
          else
            return (net, some
              { exitCode := 1
                stderr := lines [config.service ++ .ofText "." ++ config.method
                  ++ .ofText " failed: " ++ call.error.render]
                socket, log })

/-- Run the program with these arguments, its own name first, on a network. -/
def run (args : List Bytes) (net : ν) : Except Abort (ν × Option Outcome) := do
  let (config, complaints) ← Config.scan args
  let told := lines complaints
  if config.showHelp then
    return (net, some { exitCode := 0, stdout := help (args.headD []), stderr := told })
  else if complaints ≠ [] then
    return (net, some { exitCode := 1, stderr := told ++ lines [.ofText "aborting..."] })
  else call config net

end Program

end RemoteCalls
