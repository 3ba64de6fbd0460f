import Mathlib.Tactic.Common
import Mathlib.Algebra.Ring.Int.Defs
import Mathlib.Algebra.Order.Ring.Nat

/-!
# Wow.Lib.CNum — the conversions between machine numbers

A sum, a difference or a product of machine numbers is that of the integers, brought into the range of its type: `asInt`
for `int`, `asSize` for the unsigned types of eight octets.
-/

namespace Wow

/-- The conversion to `int`. -/
def asInt (n : Int) : Int := n.bmod (2 ^ 32)

/-- The conversion to `size_t` or `uint64_t`. -/
def asSize (n : Int) : Nat := (n % 2 ^ 64).toNat

theorem asInt_lt (n : Int) : asInt n < 2 ^ 31 := by
  have h : n.bmod (2 ^ 32) < ((2 ^ 32 : Nat) + 1) / 2 := Int.bmod_lt (by decide)
  exact h

theorem le_asInt (n : Int) : -2 ^ 31 ≤ asInt n := by
  have h : -((2 ^ 32 : Nat) / 2 : Int) ≤ n.bmod (2 ^ 32) := Int.le_bmod (by decide)
  exact h

theorem asInt_of_lt {n : Int} (h : 0 ≤ n) (hn : n < 2 ^ 31) : asInt n = n :=
  Int.bmod_eq_of_le (by omega) (by omega)

/-- A number that fits is itself. -/
theorem asInt_natCast {n : Nat} (h : n < 2 ^ 31) : asInt n = n := asInt_of_lt (Int.natCast_nonneg n) (by omega)

/-- A number of the upper half is a negative one. -/
theorem asInt_of_ge {n : Int} (h : 2 ^ 31 ≤ n) (hn : n < 2 ^ 32) : asInt n = n - 2 ^ 32 := by
  have hwrap : (n - (2 ^ 32 : Nat)).bmod (2 ^ 32) = n.bmod (2 ^ 32) := Int.sub_mul_bmod_self_left n _ 1
  have hself : (n - (2 ^ 32 : Nat)).bmod (2 ^ 32) = n - (2 ^ 32 : Nat) := Int.bmod_eq_of_le (by omega) (by omega)
  rw [asInt, ← hwrap, hself]
  rfl

/-- A sum that fits. -/
theorem asInt_add {m n : Nat} (h : m + n < 2 ^ 31) : asInt ((m : Int) + n) = (m + n : Nat) :=
  asInt_of_lt (by omega) (by omega)

theorem asSize_of_lt {n : Int} (h : 0 ≤ n) (hn : n < 2 ^ 64) : asSize n = n.toNat := by
  rw [asSize, Int.emod_eq_of_lt h hn]

/-- A number that fits is itself. -/
theorem asSize_natCast {n : Nat} (hn : n < 2 ^ 64) : asSize n = n := by
  rw [asSize_of_lt (Int.natCast_nonneg n) (by omega), Int.toNat_natCast]

/-- A sum that fits. -/
theorem asSize_add {m n : Nat} (h : m + n < 2 ^ 64) : asSize ((m : Int) + n) = m + n := by
  rw [← Int.natCast_add, asSize_natCast h]

/-- A difference that is no negative number. -/
theorem asSize_sub {m n : Nat} (h : n ≤ m) (hm : m < 2 ^ 64) : asSize ((m : Int) - n) = m - n := by
  rw [← Int.ofNat_sub h, asSize_natCast (by omega)]

/-- A negative number. -/
theorem asSize_neg {n : Int} (h : n < 0) (hn : -2 ^ 64 ≤ n) : (asSize n : Int) = n + 2 ^ 64 := by
  rw [asSize]
  omega

/-- The conversion to `uint32_t`. -/
def asUint32 (n : Int) : Nat := (n % 2 ^ 32).toNat

theorem asUint32_natCast {n : Nat} (h : n < 2 ^ 32) : asUint32 n = n := by
  rw [asUint32]
  omega

/-- The conversion to `long` or `off_t`. -/
def asLong (n : Int) : Int := n.bmod (2 ^ 64)

end Wow
