import Mathlib.Data.List.Induction
import Mathlib.Data.List.TakeWhile
import Mathlib.Data.Nat.Digits.Defs
import RemoteCalls.CommandLine.Arguments

/-!
# RemoteCalls.Proofs.CommandLine.Integers

Which arguments are integers.

A numeral is blanks, a sign and decimal digits, and stands for the number that its
digits have by their places.  A number is read from a numeral of any length: beyond
64 bits the closest one is read, which 32 bits do not hold either.

Main statement: `integerAt_reads_numerals`.  The empty argument is read as zero as
well, though it is no numeral (`integerAt_of_empty`).
-/

namespace RemoteCalls.Arguments

/-! ## Numerals -/

/-- What may stand in front of the digits of a number. -/
inductive Sign where
  | absent
  | plus
  | minus
  deriving DecidableEq, Repr

namespace Sign

def octets : Sign → Bytes
  | absent => []
  | plus => [43]
  | minus => [45]

/-- The number with this sign. -/
def apply (s : Sign) (n : Nat) : Int := if s = minus then -n else n

end Sign

/-- The number that a digit stands for. -/
def digitValue (d : UInt8) : Nat := d.toNat - 48

/-- A number as it is written down. -/
structure Numeral where
  blanks : Bytes := []
  sign : Sign := .absent
  digits : Bytes
  all_blank : ∀ b ∈ blanks, isBlank b = true
  all_digits : ∀ d ∈ digits, isDigit d = true
  nonempty : digits ≠ []

namespace Numeral

/-- The octets of a numeral. -/
def text (n : Numeral) : Bytes := n.blanks ++ (n.sign.octets ++ n.digits)

/-- The number that a numeral stands for: a digit counts ten times as much as the one behind it. -/
def value (n : Numeral) : Int := n.sign.apply (Nat.ofDigits 10 (n.digits.reverse.map digitValue))

end Numeral

/-! ## Reading a numeral -/

theorem digitsValue_append (ds : Bytes) (d : UInt8) :
    digitsValue (ds ++ [d]) = 10 * digitsValue ds + digitValue d := by
  rw [digitsValue, List.foldl_append]
  rfl

theorem digitsValue_eq_ofDigits (ds : Bytes) :
    digitsValue ds = Nat.ofDigits 10 (ds.reverse.map digitValue) := by
  induction ds using List.reverseRecOn with
  | nil => rfl
  | append_singleton ds d ih =>
      rw [digitsValue_append, ih, List.reverse_append, List.reverse_singleton,
        List.singleton_append, List.map_cons, Nat.ofDigits_cons, Nat.add_comm]

theorem isBlank_of_isDigit {d : UInt8} (h : isDigit d = true) : isBlank d = false := by
  simp only [isDigit, Bool.and_eq_true, decide_eq_true_eq, UInt8.le_iff_toNat_le] at h
  have hspace : d ≠ 32 := by
    rintro rfl
    exact absurd h.1 (by decide)
  have hcontrol : ¬ d ≤ 13 := fun hle => by
    have hle := UInt8.le_iff_toNat_le.mp hle
    exact absurd (Nat.le_trans h.1 hle) (by decide)
  simp [isBlank, hspace, hcontrol]

/-- A digit is no sign. -/
theorem splitSign_of_isDigit {d : UInt8} (h : isDigit d = true) (ds : Bytes) :
    splitSign (d :: ds) = (false, d :: ds) := by
  unfold splitSign
  split
  case h_1 heq =>
    obtain rfl := (List.cons.inj heq).1
    contradiction
  case h_2 heq =>
    obtain rfl := (List.cons.inj heq).1
    contradiction
  case h_3 => rfl

/-- The sign in front of digits is found. -/
theorem splitSign_octets (s : Sign) {digits : Bytes} (hdigits : ∀ d ∈ digits, isDigit d = true) :
    splitSign (s.octets ++ digits) = (decide (s = .minus), digits) := by
  cases s with
  | absent =>
      cases digits with
      | nil => rfl
      | cons d ds => exact splitSign_of_isDigit (hdigits d List.mem_cons_self) ds
  | plus => rfl
  | minus => rfl

/-- Whatever is split off is a sign. -/
theorem exists_sign (rest : Bytes) :
    ∃ s : Sign, rest = s.octets ++ (splitSign rest).2 ∧
      (splitSign rest).1 = decide (s = .minus) := by
  unfold splitSign
  split
  case h_1 rest => exact ⟨.minus, rfl, rfl⟩
  case h_2 rest => exact ⟨.plus, rfl, rfl⟩
  case h_3 rest => exact ⟨.absent, rfl, rfl⟩

/-- No blank is left in front of a sign or a digit. -/
theorem dropWhile_isBlank (n : Numeral) :
    n.text.dropWhile isBlank = n.sign.octets ++ n.digits := by
  rw [Numeral.text, List.dropWhile_append_of_pos n.all_blank]
  obtain ⟨d, ds, hdigits⟩ := List.exists_cons_of_ne_nil n.nonempty
  have hd : isBlank d = false := isBlank_of_isDigit (n.all_digits d (hdigits ▸ List.mem_cons_self))
  rw [hdigits]
  cases n.sign with
  | absent => exact List.dropWhile_cons_of_neg (by simp [hd])
  | plus => rfl
  | minus => rfl

/-- A numeral is read whole, as its value. -/
theorem leadingNumber_text (n : Numeral) : leadingNumber n.text = (saturate n.value, []) := by
  have htake : n.digits.takeWhile isDigit = n.digits := List.takeWhile_eq_self_iff.mpr n.all_digits
  have hdrop : n.digits.dropWhile isDigit = [] := List.dropWhile_eq_nil_iff.mpr n.all_digits
  simp only [leadingNumber, dropWhile_isBlank, splitSign_octets n.sign n.all_digits, htake, hdrop,
    n.nonempty, if_false, decide_eq_true_eq, Numeral.value, Sign.apply, digitsValue_eq_ofDigits]

/-- A text that is read whole is a numeral, unless it is empty. -/
theorem exists_numeral {text : Bytes} {v : Int} (h : leadingNumber text = (v, [])) :
    (text = [] ∧ v = 0) ∨ ∃ n : Numeral, n.text = text ∧ v = saturate n.value := by
  obtain ⟨s, hrest, hnegative⟩ := exists_sign (text.dropWhile isBlank)
  rcases hsplit : splitSign (text.dropWhile isBlank) with ⟨negative, rest⟩
  rw [hsplit] at hrest hnegative
  obtain rfl : negative = decide (s = .minus) := hnegative
  simp only [leadingNumber, hsplit] at h
  split at h
  case isTrue hnone =>
    obtain ⟨rfl, rfl⟩ := Prod.mk.inj h
    exact .inl ⟨rfl, rfl⟩
  case isFalse hsome =>
    obtain ⟨rfl, hleft⟩ := Prod.mk.inj h
    have hdigits : ∀ d ∈ rest, isDigit d = true := List.dropWhile_eq_nil_iff.mp hleft
    have hall : rest.takeWhile isDigit = rest := List.takeWhile_eq_self_iff.mpr hdigits
    rw [hall] at hsome ⊢
    let n : Numeral :=
      { blanks := text.takeWhile isBlank, sign := s, digits := rest
        all_blank := fun b hb => List.mem_takeWhile_imp hb
        all_digits := hdigits, nonempty := hsome }
    refine .inr ⟨n, ?_, ?_⟩
    · rw [Numeral.text, ← hrest, List.takeWhile_append_dropWhile]
    · simp only [decide_eq_true_eq, Numeral.value, Sign.apply, digitsValue_eq_ofDigits, n]

theorem inRange_iff {v : Int} : inRange v = true ↔ -2 ^ 31 ≤ v ∧ v ≤ 2 ^ 31 - 1 := by
  simp [inRange]

/-- Numbers that fit into 32 bits are not changed, and no other becomes one that fits. -/
theorem inRange_saturate {v : Int} (h : inRange (saturate v) = true) : saturate v = v := by
  rw [inRange_iff] at h
  unfold saturate at h ⊢
  omega

theorem saturate_of_inRange {v : Int} (h : inRange v = true) : saturate v = v := by
  rw [inRange_iff] at h
  unfold saturate
  omega

/-- An argument is taken as an integer just if it is a numeral for a number that fits, or empty. -/
theorem integer?_eq_some {text : Bytes} {v : Int} :
    integer? text = some v ↔
      (text = [] ∧ v = 0) ∨
        ∃ n : Numeral, n.text = text ∧ n.value = v ∧ -2 ^ 31 ≤ v ∧ v ≤ 2 ^ 31 - 1 := by
  constructor
  · intro h
    rcases hread : leadingNumber text with ⟨w, rest⟩
    simp only [integer?, hread] at h
    split at h
    case isFalse => contradiction
    case isTrue hwhole =>
      obtain rfl := Option.some.inj h
      obtain ⟨rfl, hrange⟩ : rest = [] ∧ inRange w = true := by simpa using hwhole
      obtain hempty | ⟨n, htext, rfl⟩ := exists_numeral hread
      · exact .inl hempty
      · exact .inr ⟨n, htext, (inRange_saturate hrange).symm, inRange_iff.mp hrange⟩
  · rintro (⟨rfl, rfl⟩ | ⟨n, rfl, rfl, hrange⟩)
    · rfl
    · have hfits := inRange_iff.mpr hrange
      simp [integer?, leadingNumber_text, saturate_of_inRange hfits, hfits]

/-! ## The argument behind a flag -/

/-- Asked in a place of the command line for the integer that belongs to the argument there, the
program goes on by one place whatever it finds.  It takes the argument behind if that is a numeral
for a number of 32 bits, or empty; otherwise, or if there is none, it says that it expected an
integer. -/
theorem integerAt_reads_numerals {args : List Bytes} {i : Int} (hi : 0 ≤ i)
    (hlast : i < args.length) :
    ∃ flag r, args[i.toNat]? = some flag ∧ integerAt args i = .ok (r, i + 1) ∧
      (∀ v : Int, r = .ok v ↔ ∃ text, args[i.toNat + 1]? = some text ∧
        (text = [] ∧ v = 0 ∨
          ∃ n : Numeral, n.text = text ∧ n.value = v ∧ -2 ^ 31 ≤ v ∧ v ≤ 2 ^ 31 - 1)) ∧
      (∀ what, r = .error what → what = expected "integer" flag) := by
  obtain ⟨place, rfl⟩ := Int.eq_ofNat_of_zero_le hi
  have hplace : place < args.length := by omega
  refine ⟨args[place], integerAfter args[place] (args.drop (place + 1)),
    List.getElem?_eq_getElem hplace, valueAt_eq "integer" integer? hplace, ?_, ?_⟩
  · intro v
    simp only [integerAfter, valueAfter_eq_ok, List.head?_drop, integer?_eq_some,
      Int.toNat_natCast]
  · intro what h
    exact eq_expected_of_valueAfter h

/-- Blanks, a sign and zeros in front do not matter. -/
theorem integerAt_reads_numerals_minus_seventy :
    (0 : Int) ≤ 0 ∧ (0 : Int) < [Bytes.ofText "-p", .ofText " -0070"].length ∧
    integerAt [.ofText "-p", .ofText " -0070"] 0 = .ok (.ok (-70), 1) := by
  have hlast : (0 : Int) < [Bytes.ofText "-p", .ofText " -0070"].length := by decide
  refine ⟨by decide, hlast, ?_⟩
  obtain ⟨flag, r, -, hread, hvalue, -⟩ := integerAt_reads_numerals (by decide) hlast
  let n : Numeral :=
    { blanks := .ofText " ", sign := .minus, digits := .ofText "0070"
      all_blank := by decide +kernel, all_digits := by decide +kernel, nonempty := by decide }
  have hr : r = .ok (-70) :=
    (hvalue (-70)).mpr ⟨.ofText " -0070", rfl, .inr ⟨n, by decide, by decide, by decide⟩⟩
  rw [hread, hr]
  rfl

/-- **The empty argument is taken as zero**, though it has no digits. -/
theorem integerAt_of_empty :
    integerAt [.ofText "p", []] 0 = .ok (.ok 0, 1) ∧ ¬ ∃ n : Numeral, n.text = [] := by
  refine ⟨rfl, ?_⟩
  rintro ⟨n, htext⟩
  obtain ⟨-, hrest⟩ := List.append_eq_nil_iff.mp htext
  exact n.nonempty (List.append_eq_nil_iff.mp hrest).2

end RemoteCalls.Arguments
