import Mathlib.Algebra.Group.Nat.Defs
import RemoteCalls.Bytes

/-!
# RemoteCalls.Bytes.Lemmas

Writing an integer in a number of octets and reading it back.

Main statements: `toNatLE_ofNatLE`, reading back gives the number without what
did not fit; `ofNatLE_toNatLE`, no other octets write the same number.
-/

namespace RemoteCalls.Bytes

/-- Reading back `k` octets of `n` gives `n` without its higher octets. -/
theorem toNatLE_ofNatLE (k n : Nat) : toNatLE (ofNatLE k n) = n % 256 ^ k := by
  induction k generalizing n with
  | zero => simp [ofNatLE, toNatLE, Nat.mod_one]
  | succ k ih =>
      have hb : (UInt8.ofNat n).toNat = n % 256 := by simp
      rw [ofNatLE, toNatLE, ih, hb, Nat.pow_succ, Nat.mul_comm (256 ^ k) 256, Nat.mod_mul]

theorem toNatLE_ofNatLE_of_lt {k n : Nat} (h : n < 256 ^ k) : toNatLE (ofNatLE k n) = n := by
  rw [toNatLE_ofNatLE, Nat.mod_eq_of_lt h]

/-- `k` octets hold a number below `256 ^ k`. -/
theorem toNatLE_lt (bs : Bytes) : toNatLE bs < 256 ^ bs.length := by
  induction bs with
  | nil => simp [toNatLE]
  | cons b bs ih =>
      have hb : b.toNat < 256 := b.toNat_lt
      rw [toNatLE, List.length_cons, Nat.pow_succ]
      omega

/-- No octets but these write the number they hold. -/
theorem ofNatLE_toNatLE (bs : Bytes) : ofNatLE bs.length (toNatLE bs) = bs := by
  induction bs with
  | nil => rfl
  | cons b bs ih =>
      have hb : b.toNat < 256 := b.toNat_lt
      have hlow : UInt8.ofNat (b.toNat + 256 * toNatLE bs) = b := by
        apply UInt8.toNat_inj.mp
        simp
      have hhigh : (b.toNat + 256 * toNatLE bs) / 256 = toNatLE bs := by omega
      rw [List.length_cons, toNatLE, ofNatLE, hlow, hhigh, ih]

end RemoteCalls.Bytes
