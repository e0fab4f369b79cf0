/-!
# RemoteCalls.Bytes

Octet strings, and the two things the protocol puts into them: text, and
unsigned integers with the least significant octet first.

`Bytes.Lemmas` shows that writing and reading an integer undo each other, up to
the number of octets written.

Names of services, error texts and log lines are all opaque octets to this
library, so they are `Bytes` too and `ofText` brings in the fixed wordings.
-/

namespace RemoteCalls

/-- Octets, in order. -/
abbrev Bytes := List UInt8

namespace Bytes

/-! ## Text -/

/-- The UTF-8 octets of a text. -/
def ofText (s : String) : Bytes := s.toList.flatMap String.utf8EncodeChar

/-- A natural number in decimal digits. -/
def decimal (n : Nat) : Bytes := (Nat.toDigits 10 n).flatMap String.utf8EncodeChar

/-- An integer in decimal digits, with a minus sign below zero. -/
def signedDecimal : Int → Bytes
  | .ofNat n => decimal n
  | .negSucc n => ofText "-" ++ decimal (n + 1)

/-! ## Little-endian integers -/

/-- The `k` low octets of `n`, least significant first. -/
def ofNatLE : Nat → Nat → Bytes
  | 0, _ => []
  | k + 1, n => UInt8.ofNat n :: ofNatLE k (n / 256)

/-- The number whose octets these are, least significant first. -/
def toNatLE : Bytes → Nat
  | [] => 0
  | b :: bs => b.toNat + 256 * toNatLE bs

@[simp] theorem length_ofNatLE (k n : Nat) : (ofNatLE k n).length = k := by
  induction k generalizing n with
  | zero => rfl
  | succ k ih => simp [ofNatLE, ih]

end Bytes

end RemoteCalls
