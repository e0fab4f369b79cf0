import RemoteCalls.CommandLine.Program

/-!
# RemoteCalls.Main

The command line itself.  No network is attached to it, so that every peer is
unreachable; log lines go to the standard output, as far as the environment lets
them through.
-/

namespace RemoteCalls.Main

/-- A network that reaches nobody. -/
def offline : Switchboard Socket := { resolveFault := some (.system 101), connection := {} }

/-- Write octets to a stream. -/
def put (out : IO.FS.Stream) (bytes : Bytes) : IO Unit := do
  out.write ⟨bytes.toArray⟩
  out.flush

/-- Write log entries to a stream, as far as the logger lets them through. -/
def putLog (out : IO.FS.Stream) (logger : Log.Logger) (entries : List Log.Entry) : IO Unit :=
  put out (Program.lines ((entries.foldl Log.Logger.add logger).entries.map fun e =>
    .ofText "[" ++ e.level.name ++ .ofText "] " ++ e.text))

end RemoteCalls.Main

open RemoteCalls in
/-- Make one call and print the string that comes back. -/
def main (args : List String) : IO UInt32 := do
  let out ← IO.getStdout
  let err ← IO.getStderr
  let override ← IO.getEnv "LOG_LEVEL_OVERRIDE"
  let logger := Log.Logger.start (override.map Bytes.ofText)
  match Program.run (.ofText "remotecalls" :: args.map .ofText) Main.offline with
  | .error cause =>
      Main.putLog out logger [⟨.critical, cause.message⟩]
      return 134
  | .ok (_, none) => return 1
  | .ok (_, some o) =>
      Main.putLog out logger o.log
      Main.put out o.stdout
      Main.put err o.stderr
      return o.exitCode.toUInt32
