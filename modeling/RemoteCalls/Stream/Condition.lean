import RemoteCalls.Fault

/-!
# RemoteCalls.Stream.Condition

The condition of a byte stream: three bits that a transfer may raise and that
stay raised until they are cleared.

Two questions are asked of a condition.  Before an operation, `readiness`: only
a good stream may be used.  After a transfer, `verdict`: loss outweighs an early
end, which outweighs any other failure.
-/

namespace RemoteCalls

/-- The bits of a stream. -/
structure Condition where
  /-- Octets were lost. -/
  bad : Bool := false
  /-- The end of the source was met. -/
  eof : Bool := false
  /-- The last operation did not do what it should. -/
  fail : Bool := false
  deriving DecidableEq, Repr, Inhabited

namespace Condition

/-- No bit is raised. -/
def good : Condition := {}

/-- Whether no bit is raised. -/
def isGood (c : Condition) : Bool := !c.bad && !c.eof && !c.fail

/-- Whether the last operation failed; the end of the source alone is no failure. -/
def isFailed (c : Condition) : Bool := c.bad || c.fail

/-- Raise the bits of `d` as well. -/
def raise (c d : Condition) : Condition :=
  { bad := c.bad || d.bad, eof := c.eof || d.eof, fail := c.fail || d.fail }

/-- The fault of using a stream in this condition. -/
def readiness (c : Condition) : Option Fault :=
  if c.isGood then none else some .streamNotReady

/-- The fault that a transfer ending in this condition amounts to. -/
def verdict (c : Condition) : Option Fault :=
  if c.isGood then none
  else if c.bad then some .bad
  else if c.eof && c.fail then some .prematureEof
  else some .fail

/-! ## Laws -/

theorem isGood_iff {c : Condition} : c.isGood = true ↔ c = good := by
  obtain ⟨b, e, f⟩ := c
  cases b <;> cases e <;> cases f <;> decide

theorem readiness_eq_none {c : Condition} : c.readiness = none ↔ c = good := by
  obtain ⟨b, e, f⟩ := c
  cases b <;> cases e <;> cases f <;> decide

/-- A stream can be used just if no bit is raised. -/
theorem readiness_eq_some {c : Condition} {f : Fault} :
    c.readiness = some f ↔ c ≠ good ∧ f = .streamNotReady := by
  cases hready : c.readiness with
  | none => simp [readiness_eq_none.mp hready]
  | some g =>
      have hnot : c ≠ good := fun hgood => by simp [readiness_eq_none.mpr hgood] at hready
      rw [readiness] at hready
      split at hready
      · contradiction
      · obtain rfl := Option.some.inj hready
        simp [hnot, eq_comm]

theorem verdict_eq_none {c : Condition} : c.verdict = none ↔ c = good := by
  obtain ⟨b, e, f⟩ := c
  cases b <;> cases e <;> cases f <;> decide

/-- No condition stands for something that is too long for its count. -/
theorem verdict_ne_tooLarge (c : Condition) : c.verdict ≠ some .objectTooLarge := by
  obtain ⟨b, e, f⟩ := c
  cases b <;> cases e <;> cases f <;> decide

@[simp] theorem raise_good (c : Condition) : c.raise good = c := by
  simp [raise, good]

theorem raise_eq_good {c d : Condition} : c.raise d = good ↔ c = good ∧ d = good := by
  obtain ⟨b, e, f⟩ := c
  obtain ⟨b', e', f'⟩ := d
  cases b <;> cases e <;> cases f <;> cases b' <;> cases e' <;> cases f' <;> decide

/-- Bits that are raised leave no stream good. -/
theorem raise_ne_good {c d : Condition} (h : d ≠ good) : c.raise d ≠ good :=
  fun hgood => h (raise_eq_good.mp hgood).2

end Condition

/-- Bits that are raised when a certain octet passes, for the first time. -/
structure Mark where
  /-- How many octets are still to pass before that one. -/
  ahead : Nat
  bits : Condition
  deriving DecidableEq, Repr, Inhabited

namespace Mark

/-- The bits raised while the next `count` octets pass. -/
def raised (marks : List Mark) (count : Nat) : Condition :=
  (marks.filter (·.ahead < count)).foldl (fun c m => c.raise m.bits) .good

@[simp] theorem raised_nil (count : Nat) : raised [] count = .good := rfl

/-- The marks that are left when the next `count` octets have passed. -/
def pass (marks : List Mark) (count : Nat) : List Mark :=
  (marks.filter (count ≤ ·.ahead)).map fun m => { m with ahead := m.ahead - count }

@[simp] theorem pass_nil (count : Nat) : pass [] count = [] := rfl

/-- The marks that are left when the next octet has been looked at, which is still to pass but will
raise nothing then. -/
def spend (marks : List Mark) : List Mark := marks.filter (·.ahead != 0)

@[simp] theorem spend_nil : spend [] = [] := rfl

end Mark

end RemoteCalls
