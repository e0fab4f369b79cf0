import RemoteCalls.Bytes

/-!
# RemoteCalls.Log

What the library reports about its connections while it works: entries with a
level and a text, and the logger that lets through the entries at or above its
threshold.

The threshold is read from the value of an environment variable.  A name the
logger does not know leaves the default in force and is itself reported.
-/

namespace RemoteCalls.Log

/-! ## Levels -/

/-- How grave an entry is. -/
inductive Level where
  | trace
  | debug
  | info
  | warning
  | error
  | critical
  deriving DecidableEq, Repr, Inhabited

namespace Level

/-- Levels in ascending gravity. -/
def rank : Level → Nat
  | trace => 0
  | debug => 1
  | info => 2
  | warning => 3
  | error => 4
  | critical => 5

/-- The name an entry of this level carries. -/
def name : Level → Bytes
  | trace => .ofText "trace"
  | debug => .ofText "debug"
  | info => .ofText "info"
  | warning => .ofText "warning"
  | error => .ofText "error"
  | critical => .ofText "critical"

end Level

/-- What a logger lets through: everything from a level upwards, or nothing. -/
inductive Threshold where
  | atLeast (level : Level)
  | off
  deriving DecidableEq, Repr, Inhabited

namespace Threshold

/-- Whether entries of this level pass. -/
def passes : Threshold → Level → Bool
  | atLeast least, level => least.rank ≤ level.rank
  | off, _ => false

/-- The long name of a threshold. -/
def name : Threshold → Bytes
  | atLeast level => level.name
  | off => .ofText "off"

/-- The thresholds that can be asked for by name, with the two short spellings. -/
def named : List (String × Threshold) :=
  [("trace", .atLeast .trace), ("debug", .atLeast .debug), ("info", .atLeast .info),
   ("warning", .atLeast .warning), ("error", .atLeast .error), ("critical", .atLeast .critical),
   ("off", .off), ("warn", .atLeast .warning), ("err", .atLeast .error)]

/-- The threshold called `name`. -/
def ofName? (name : Bytes) : Option Threshold :=
  (named.find? fun entry => Bytes.ofText entry.1 == name).map (·.2)

end Threshold

/-! ## Entries -/

/-- One line of the log. -/
structure Entry where
  level : Level
  text : Bytes
  deriving DecidableEq, Repr, Inhabited

namespace Entry

/-- An entry as it is shown: its level, a colon and its text. -/
def render (e : Entry) : Bytes := e.level.name ++ .ofText ": " ++ e.text

end Entry

/-- An entry of level `debug`. -/
def debug (text : Bytes) : Entry := ⟨.debug, text⟩

/-- An entry of level `info`. -/
def info (text : Bytes) : Entry := ⟨.info, text⟩

/-- An entry of level `warning`. -/
def warning (text : Bytes) : Entry := ⟨.warning, text⟩

/-- An entry of level `error`. -/
def error (text : Bytes) : Entry := ⟨.error, text⟩

/-! ## Loggers -/

/-- The environment variable that overrides the threshold. -/
def overrideVariable : Bytes := .ofText "LOG_LEVEL_OVERRIDE"

/-- How a line is laid out: date and time, level, text. -/
def pattern : Bytes := .ofText "[%Y-%m-%d %T] [%^%l%$] %v"

/-- A logger and what it has let through. -/
structure Logger where
  threshold : Threshold := .atLeast .trace
  entries : List Entry := []
  deriving DecidableEq, Repr, Inhabited

namespace Logger

/-- Offer an entry to the logger, which keeps it if the threshold lets it pass. -/
def add (l : Logger) (e : Entry) : Logger :=
  if l.threshold.passes e.level then { l with entries := l.entries ++ [e] } else l

/-- The logger at start, given the value of `overrideVariable` if it is set. -/
def start : Option Bytes → Logger
  | none => {}
  | some value =>
      match Threshold.ofName? value with
      | some threshold => { threshold }
      | none =>
          ({} : Logger).add (error (.ofText "failed to set log level from environment variable "
            ++ overrideVariable ++ .ofText "=" ++ value))

/-- Offer entries to the logger in order, up to the first critical one, which ends the process: the
logger after it, and whether there was one. -/
def addAll (l : Logger) : List Entry → Logger × Bool
  | [] => (l, false)
  | e :: es => if e.level = .critical then (l.add e, true) else (l.add e).addAll es

end Logger

end RemoteCalls.Log
