import RemoteCalls.CommandLine.Arguments
import RemoteCalls.Connection.Preamble

/-!
# RemoteCalls.CommandLine.Config

What the command line asks for: the call to make and where to make it.

Flags take the next argument, whatever it looks like; everything else is
positional.  A complaint does not end the reading, so that all complaints are
made at once.
-/

namespace RemoteCalls

/-- What the command line asks for. -/
structure Config where
  showHelp : Bool := false
  host : Bytes := .ofText "localhost"
  port : Int := 9999
  codec : Bytes := binaryCodec
  service : Bytes := []
  method : Bytes := []
  args : List Bytes := []
  deriving DecidableEq, Repr

namespace Config

/-- A command line as far as it has been read. -/
structure Draft where
  config : Config := {}
  /-- The arguments that belong to no flag, in order. -/
  positional : List Bytes := []
  /-- What has to be complained about, in order, a line each. -/
  complaints : List Bytes := []
  deriving DecidableEq, Repr

/-- The flags that take an argument. -/
inductive Flag where
  | host
  | port
  | codec
  deriving DecidableEq, Repr

/-- The flag that an argument is. -/
def Flag.ofArgument? (arg : Bytes) : Option Flag :=
  if arg = .ofText "-h" ∨ arg = .ofText "--host" then some host
  else if arg = .ofText "-p" ∨ arg = .ofText "--port" then some port
  else if arg = .ofText "-c" ∨ arg = .ofText "--codec" then some codec
  else none

/-- Complain about an argument of a flag. -/
def Draft.complain (d : Draft) (what : Bytes) : Draft :=
  { d with complaints := d.complaints ++ [.ofText "Error on command-line: " ++ what] }

/-- Set what a flag stands for, or complain about its argument. -/
def Draft.keep {α : Type} (d : Draft) (set : Config → α → Config) : Except Bytes α → Draft
  | .error what => d.complain what
  | .ok v => { d with config := set d.config v }

/-- Note that help is asked for. -/
def Draft.askHelp (d : Draft) : Draft := { d with config := { d.config with showHelp := true } }

/-- Note an argument that belongs to no flag. -/
def Draft.addPositional (d : Draft) (arg : Bytes) : Draft :=
  { d with positional := d.positional ++ [arg] }

def Draft.keepHost (d : Draft) : Except Bytes Bytes → Draft :=
  d.keep fun config host => { config with host }

def Draft.keepPort (d : Draft) : Except Bytes Int → Draft :=
  d.keep fun config port => { config with port }

def Draft.keepCodec (d : Draft) : Except Bytes Bytes → Draft :=
  d.keep fun config codec => { config with codec }

/-! ## Place by place -/

/-- Read what belongs to the flag in place `i`: also the place that has been reached. -/
def Draft.readFlagAt (d : Draft) (flag : Flag) (args : List Bytes) (i : Int) :
    Except Abort (Draft × Int) := do
  match flag with
  | .host =>
      let (host, i) ← Arguments.stringAt args i
      return (d.keepHost host, i)
  | .port =>
      let (port, i) ← Arguments.integerAt args i
      return (d.keepPort port, i)
  | .codec =>
      let (codec, i) ← Arguments.stringAt args i
      return (d.keepCodec codec, i)

/-- Read the argument in place `i` and what belongs to it: also the place that has been reached. -/
def Draft.readAt (d : Draft) (args : List Bytes) (i : Int) : Except Abort (Draft × Int) := do
  let arg ← Arguments.argument args i
  if arg = .ofText "--help" then return (d.askHelp, i)
  else
    match Flag.ofArgument? arg with
    | none => return (d.addPositional arg, i)
    | some flag => d.readFlagAt flag args i

theorem Draft.place_of_readFlagAt {d d' : Draft} {flag : Flag} {args : List Bytes} {i j : Int}
    (h : d.readFlagAt flag args i = .ok (d', j)) : j = i + 1 := by
  cases flag with
  | host =>
      obtain ⟨⟨host, place⟩, hread, h⟩ := Abort.bind_eq_ok.mp h
      obtain rfl : place = j := congrArg Prod.snd (Except.ok.inj h)
      exact Arguments.place_of_valueAt hread
  | port =>
      obtain ⟨⟨port, place⟩, hread, h⟩ := Abort.bind_eq_ok.mp h
      obtain rfl : place = j := congrArg Prod.snd (Except.ok.inj h)
      exact Arguments.place_of_valueAt hread
  | codec =>
      obtain ⟨⟨codec, place⟩, hread, h⟩ := Abort.bind_eq_ok.mp h
      obtain rfl : place = j := congrArg Prod.snd (Except.ok.inj h)
      exact Arguments.place_of_valueAt hread

/-- Reading does not go back. -/
theorem Draft.le_of_readAt {d d' : Draft} {args : List Bytes} {i j : Int}
    (h : d.readAt args i = .ok (d', j)) : i ≤ j := by
  obtain ⟨arg, -, h⟩ := Abort.bind_eq_ok.mp h
  split at h
  · exact Int.le_of_eq (congrArg Prod.snd (Except.ok.inj h))
  · split at h
    · exact Int.le_of_eq (congrArg Prod.snd (Except.ok.inj h))
    · rw [place_of_readFlagAt h]
      omega

/-- Read the arguments from place `i` on. -/
def Draft.readFrom (args : List Bytes) (d : Draft) (i : Int) : Except Abort Draft :=
  if i < args.length then
    match h : d.readAt args i with
    | .error cause => .error cause
    | .ok (d, j) => readFrom args d (j + 1)
  else .ok d
termination_by (args.length - i).toNat
decreasing_by
  have hle := Draft.le_of_readAt h
  omega

/-! ## As a list -/

/-- Read what belongs to a flag, out of what follows the flag. -/
def Draft.readFlag (d : Draft) (flag : Flag) (arg : Bytes) (rest : List Bytes) : Draft :=
  match flag with
  | .host => d.keepHost (Arguments.stringAfter arg rest)
  | .port => d.keepPort (Arguments.integerAfter arg rest)
  | .codec => d.keepCodec (Arguments.stringAfter arg rest)

/-- Read arguments one after another. -/
def Draft.read : Draft → List Bytes → Draft
  | d, [] => d
  | d, arg :: rest =>
      if arg = .ofText "--help" then read d.askHelp rest
      else
        match Flag.ofArgument? arg with
        | none => read (d.addPositional arg) rest
        | some flag =>
            match rest with
            | [] => d.readFlag flag arg []
            | value :: others => read (d.readFlag flag arg (value :: others)) others

/-! ## Once everything has been read -/

/-- Whether a port can be connected to. -/
def portInRange (port : Int) : Bool := 0 < port && port ≤ 65535

/-- What there is to complain about once everything has been read. -/
def Draft.finalComplaints (d : Draft) : List Bytes :=
  (if portInRange d.config.port then []
    else [.ofText "port out of range: " ++ .signedDecimal d.config.port])
  ++ (if d.positional.length < 2 then [.ofText "expected <service> and <method>"] else [])

/-- Distribute the positional arguments. -/
def Draft.assign (d : Draft) : Config :=
  match d.positional with
  | service :: method :: args => { d.config with service, method, args }
  | _ => d.config

/-- What a command line asks for, and all complaints.  One that asks for help is not checked any
further. -/
def Draft.finish (d : Draft) : Config × List Bytes :=
  if d.config.showHelp then (d.config, d.complaints)
  else (d.assign, d.complaints ++ d.finalComplaints)

/-- Read a command line place by place, the program's name first. -/
def scan (args : List Bytes) : Except Abort (Config × List Bytes) := do
  return (← Draft.readFrom args {} 1).finish

/-- Read a command line as a list, the program's name first. -/
def parse (args : List Bytes) : Config × List Bytes := (Draft.read {} (args.drop 1)).finish

end Config

end RemoteCalls
