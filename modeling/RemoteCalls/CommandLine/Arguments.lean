import RemoteCalls.Abort

/-!
# RemoteCalls.CommandLine.Arguments

The argument that belongs to a flag: the one after it, taken as a string or as
an integer.

A number may have blanks and a sign in front, and an integer has nothing behind
its digits.  Where a text has no number at its front, nothing of it is taken and
zero is read, so the empty argument counts as zero.
-/

namespace RemoteCalls.Arguments

/-! ## Integers -/

/-- Blank space: the space, and the five controls from tab to carriage return. -/
def isBlank (b : UInt8) : Bool := b == 32 || (9 ≤ b && b ≤ 13)

/-- The decimal digits. -/
def isDigit (b : UInt8) : Bool := 48 ≤ b && b ≤ 57

/-- The number that digits stand for. -/
def digitsValue (ds : Bytes) : Nat := ds.foldl (fun n d => 10 * n + (d.toNat - 48)) 0

/-- Split a sign off: whether it was a minus, and the rest. -/
def splitSign : Bytes → Bool × Bytes
  | 45 :: rest => (true, rest)
  | 43 :: rest => (false, rest)
  | rest => (false, rest)

/-- The closest number that fits into 64 bits with a sign. -/
def saturate (v : Int) : Int := max (-9223372036854775808) (min v 9223372036854775807)

/-- Read the number at the front of a text: the number, and the text that is left. -/
def leadingNumber (text : Bytes) : Int × Bytes :=
  let (negative, rest) := splitSign (text.dropWhile isBlank)
  let digits := rest.takeWhile isDigit
  if digits = [] then (0, text)
  else
    let n : Int := digitsValue digits
    (saturate (if negative then -n else n), rest.dropWhile isDigit)

/-- Whether a number fits into 32 bits with a sign. -/
def inRange (v : Int) : Bool := -2147483648 ≤ v && v ≤ 2147483647

/-- The integer that an argument stands for. -/
def integer? (arg : Bytes) : Option Int :=
  let (v, rest) := leadingNumber arg
  if rest = [] && inRange v then some v else none

/-! ## Arguments of flags -/

/-- What is said when the argument of a flag is missing or is not what it should be. -/
def expected (kind : String) (flag : Bytes) : Bytes :=
  .ofText "expected " ++ .ofText kind ++ .ofText " after argument '" ++ flag ++ .ofText "'"

/-- What belongs to a flag and can be read with `read`, out of what follows the flag. -/
def valueAfter {α : Type} (kind : String) (read : Bytes → Option α) (flag : Bytes)
    (rest : List Bytes) : Except Bytes α :=
  match rest.head?.bind read with
  | none => .error (expected kind flag)
  | some v => .ok v

theorem valueAfter_eq_ok {α : Type} {kind : String} {read : Bytes → Option α} {flag : Bytes}
    {rest : List Bytes} {v : α} :
    valueAfter kind read flag rest = .ok v ↔ ∃ arg, rest.head? = some arg ∧ read arg = some v := by
  rw [← Option.bind_eq_some_iff, valueAfter]
  cases rest.head?.bind read <;> simp

/-- There is one complaint about a flag. -/
theorem eq_expected_of_valueAfter {α : Type} {kind : String} {read : Bytes → Option α}
    {flag what : Bytes} {rest : List Bytes} (h : valueAfter kind read flag rest = .error what) :
    what = expected kind flag := by
  unfold valueAfter at h
  split at h
  · exact (Except.error.inj h).symm
  · contradiction

/-- The string that belongs to a flag, out of what follows the flag. -/
def stringAfter : Bytes → List Bytes → Except Bytes Bytes := valueAfter "string" some

/-- The integer that belongs to a flag, out of what follows the flag. -/
def integerAfter : Bytes → List Bytes → Except Bytes Int := valueAfter "integer" integer?

/-! ## Places on the command line -/

/-- The argument in a place, which must be one of the command line, and those behind it. -/
def locate (args : List Bytes) (i : Int) : Except Abort (Bytes × List Bytes) :=
  if 0 ≤ i then
    match args.drop i.toNat with
    | [] => .error .argumentIndex
    | flag :: rest => .ok (flag, rest)
  else .error .argumentIndex

/-- The argument in a place, which must be one of the command line. -/
def argument (args : List Bytes) (i : Int) : Except Abort Bytes := do
  return (← locate args i).1

/-- What belongs to the flag in place `i` and can be read with `read`, and the place that has been
reached. -/
def valueAt {α : Type} (kind : String) (read : Bytes → Option α) (args : List Bytes) (i : Int) :
    Except Abort (Except Bytes α × Int) := do
  let flag ← argument args i
  let i := i + 1
  if args.length ≤ i then return (.error (expected kind flag), i)
  else
    match read (← argument args i) with
    | none => return (.error (expected kind flag), i)
    | some v => return (.ok v, i)

/-- The string that belongs to the flag in place `i`, and the place that has been reached. -/
def stringAt : List Bytes → Int → Except Abort (Except Bytes Bytes × Int) := valueAt "string" some

/-- The integer that belongs to the flag in place `i`, and the place that has been reached. -/
def integerAt : List Bytes → Int → Except Abort (Except Bytes Int × Int) :=
  valueAt "integer" integer?

/-- The argument behind the flag is all that is passed. -/
theorem place_of_valueAt {α : Type} {kind : String} {read : Bytes → Option α} {args : List Bytes}
    {i j : Int} {r : Except Bytes α} (h : valueAt kind read args i = .ok (r, j)) : j = i + 1 := by
  obtain ⟨flag, -, h⟩ := Abort.bind_eq_ok.mp h
  dsimp only at h
  split at h
  · exact (congrArg Prod.snd (Except.ok.inj h)).symm
  · obtain ⟨arg, -, h⟩ := Abort.bind_eq_ok.mp h
    split at h <;> exact (congrArg Prod.snd (Except.ok.inj h)).symm

theorem argument_eq {args : List Bytes} {i : Nat} (h : i < args.length) :
    argument args i = .ok args[i] := by
  rw [argument, locate, if_pos (Int.natCast_nonneg i), Int.toNat_natCast,
    List.drop_eq_getElem_cons h]
  rfl

/-- Outside the command line there is no argument. -/
theorem argument_outside {args : List Bytes} {i : Int} (h : ¬ (0 ≤ i ∧ i < args.length)) :
    argument args i = .error .argumentIndex := by
  unfold argument locate
  split
  case isTrue hi =>
    have hdrop : args.drop i.toNat = [] := List.drop_eq_nil_of_le (by omega)
    rw [hdrop]
    rfl
  case isFalse => rfl

/-- What belongs to a flag is looked for in the place behind it, if there is one. -/
theorem valueAt_eq {α : Type} (kind : String) (read : Bytes → Option α) {args : List Bytes}
    {i : Nat} (h : i < args.length) :
    valueAt kind read args i =
      .ok (valueAfter kind read args[i] (args.drop (i + 1)), (i + 1 : Nat)) := by
  rw [valueAt, argument_eq h]
  by_cases hlast : args.length ≤ i + 1
  · rw [List.drop_eq_nil_of_le hlast]
    exact if_pos (by omega)
  · have hnext : i + 1 < args.length := Nat.not_le.mp hlast
    have hplace : (i : Int) + 1 = ((i + 1 : Nat) : Int) := rfl
    refine (if_neg (by omega)).trans ?_
    rw [hplace, argument_eq hnext, List.drop_eq_getElem_cons hnext, valueAfter, List.head?_cons,
      Option.bind_some]
    show (match read args[i + 1] with
      | none => Except.ok (Except.error (expected kind args[i]), ((i + 1 : Nat) : Int))
      | some v => Except.ok (Except.ok v, ((i + 1 : Nat) : Int))) = _
    cases read args[i + 1] <;> rfl

end RemoteCalls.Arguments
