import Mathlib.Algebra.GroupWithZero.Nat
import Mathlib.Data.List.Basic

/-!
# Integers of a fixed number of bytes

A number is written with `w` bytes, least significant first (`le`) or most significant first (`be`),
and read back. What does not fit is cut off.

* **`ofLe_le`**, **`ofBe_be`** — reading back gives the number modulo `256 ^ w`.
-/

namespace Bytes

/-- `w` bytes, the least significant first. -/
def le : Nat → Nat → List UInt8
  | 0, _ => []
  | w + 1, n => UInt8.ofNat n :: le w (n / 256)

def ofLe : List UInt8 → Nat
  | [] => 0
  | b :: bs => b.toNat + 256 * ofLe bs

/-- `w` bytes, the most significant first. -/
def be (w n : Nat) : List UInt8 := (le w n).reverse

def ofBe (bs : List UInt8) : Nat := ofLe bs.reverse

@[simp] theorem length_le (w n : Nat) : (le w n).length = w := by
  induction w generalizing n with
  | zero => rfl
  | succ _ ih => rw [le, List.length_cons, ih]

@[simp] theorem length_be (w n : Nat) : (be w n).length = w := by
  rw [be, List.length_reverse, length_le]

theorem ofLe_le (w n : Nat) : ofLe (le w n) = n % 256 ^ w := by
  induction w generalizing n with
  | zero => rw [le, ofLe, Nat.pow_zero, Nat.mod_one]
  | succ w ih =>
    have hpow : 256 ^ (w + 1) = 256 * 256 ^ w := by rw [Nat.pow_succ, Nat.mul_comm]
    rw [le, ofLe, ih, UInt8.toNat_ofNat', hpow, Nat.mod_mul]

theorem ofLe_le_of_lt {w n : Nat} (h : n < 256 ^ w) : ofLe (le w n) = n := by
  rw [ofLe_le, Nat.mod_eq_of_lt h]

theorem ofBe_be_of_lt {w n : Nat} (h : n < 256 ^ w) : ofBe (be w n) = n := by
  rw [ofBe, be, List.reverse_reverse, ofLe_le_of_lt h]

end Bytes
