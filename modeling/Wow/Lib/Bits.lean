import Mathlib.Data.Nat.Bitwise
import Wow.Lib.Block

/-!
# Wow.Lib.Bits — arrays of bits, eight to an octet

Bit `n` of an array is bit `n % 8` of octet `n / 8`.  `setBit`, `clearBit` and `getBit` take the two numbers and are
`none` outside.

* `exists_setBit`, `exists_clearBit`: inside the array they write one bit.
* `exists_getBit`: a read gives an octet that is not zero where the bit is 1.
-/

namespace Wow

namespace Bits

open Block

/-- The octet with one bit. -/
def mask (j : Nat) : UInt8 := 1 <<< UInt8.ofNat j

/-- `xs[k] |= 1 << j`. -/
def setBit (xs : List UInt8) (k j : Nat) : Option (List UInt8) := do
  let b ← xs[k]?
  store xs k [b ||| mask j]

/-- `xs[k] &= ~(1 << j)`. -/
def clearBit (xs : List UInt8) (k j : Nat) : Option (List UInt8) := do
  let b ← xs[k]?
  store xs k [b &&& ~~~ mask j]

/-- `xs[k] & (1 << j)`. -/
def getBit (xs : List UInt8) (k j : Nat) : Option UInt8 := do
  let b ← xs[k]?
  return b &&& mask j

/-- A bit of the array; behind its end there are zeros. -/
def bitAt (xs : List UInt8) (n : Nat) : Bool := (xs.getD (n / 8) 0).toNat.testBit (n % 8)

/-- One bit is written, and the others are kept. -/
structure Written (xs xs' : List UInt8) (n : Nat) (v : Bool) : Prop where
  length : xs'.length = xs.length
  bit : ∀ i, bitAt xs' i = if i = n then v else bitAt xs i

/-! ### One octet -/

theorem testBit_mask : ∀ j < 8, ∀ i < 8, (mask j).toNat.testBit i = decide (i = j) := by decide

theorem testBit_not_mask : ∀ j < 8, ∀ i < 8, (~~~ mask j).toNat.testBit i = !decide (i = j) := by decide

theorem toNat_mask : ∀ j < 8, (mask j).toNat = 2 ^ j := by decide

theorem testBit_or_mask {b : UInt8} {i j : Nat} (hi : i < 8) (hj : j < 8) :
    (b ||| mask j).toNat.testBit i = if i = j then true else b.toNat.testBit i := by
  rw [UInt8.toNat_or, Nat.testBit_or, testBit_mask j hj i hi]
  by_cases hij : i = j
  · rw [if_pos hij, decide_eq_true hij, Bool.or_true]
  · rw [if_neg hij, decide_eq_false hij, Bool.or_false]

theorem testBit_and_not_mask {b : UInt8} {i j : Nat} (hi : i < 8) (hj : j < 8) :
    (b &&& ~~~ mask j).toNat.testBit i = if i = j then false else b.toNat.testBit i := by
  rw [UInt8.toNat_and, Nat.testBit_and, testBit_not_mask j hj i hi]
  by_cases hij : i = j
  · rw [if_pos hij, decide_eq_true hij, Bool.not_true, Bool.and_false]
  · rw [if_neg hij, decide_eq_false hij, Bool.not_false, Bool.and_true]

theorem and_mask_ne_zero_iff {b : UInt8} {j : Nat} (hj : j < 8) : b &&& mask j ≠ 0 ↔ b.toNat.testBit j = true := by
  rw [ne_eq, ← UInt8.toNat_inj, UInt8.toNat_and, toNat_mask j hj, Nat.and_two_pow]
  cases b.toNat.testBit j with
  | true => simp
  | false => simp

/-! ### The array -/

theorem store_singleton {xs : List UInt8} {k : Nat} (h : k < xs.length) (v : UInt8) :
    store xs k [v] = some (xs.set k v) := by
  rw [store, if_pos (show k + [v].length ≤ xs.length from h), List.set_eq_take_append_cons_drop, if_pos h,
    List.append_assoc]
  rfl

/-- An octet is replaced by one that differs in a bit. -/
theorem written_set {xs : List UInt8} {n : Nat} (h : n < 8 * xs.length) {b' : UInt8} {v : Bool}
    (hbit : ∀ i < 8, b'.toNat.testBit i = if i = n % 8 then v else (xs.getD (n / 8) 0).toNat.testBit i) :
    Written xs (xs.set (n / 8) b') n v := by
  refine ⟨List.length_set, fun i => ?_⟩
  rw [bitAt, bitAt, List.getD_eq_getElem?_getD, List.getElem?_set]
  by_cases hoctet : n / 8 = i / 8
  · rw [if_pos hoctet, if_pos (show n / 8 < xs.length by omega), Option.getD_some, hbit _ (Nat.mod_lt _ (by decide)),
      hoctet]
    by_cases hi : i = n
    · rw [if_pos hi, if_pos (by rw [hi])]
    · rw [if_neg hi, if_neg (by omega)]
  · rw [if_neg hoctet, ← List.getD_eq_getElem?_getD, if_neg (by rintro rfl; exact hoctet rfl)]

variable {xs : List UInt8} {n : Nat}

theorem getElem?_octet (h : n < 8 * xs.length) : xs[n / 8]? = some (xs.getD (n / 8) 0) := by
  rw [List.getD_eq_getElem?_getD, List.getElem?_eq_getElem (show n / 8 < xs.length by omega)]
  rfl

/-- **A bit is set.** -/
theorem exists_setBit (h : n < 8 * xs.length) : ∃ xs', setBit xs (n / 8) (n % 8) = some xs' ∧
    Written xs xs' n true := by
  refine ⟨xs.set (n / 8) (xs.getD (n / 8) 0 ||| mask (n % 8)), ?_, ?_⟩
  · rw [setBit, getElem?_octet h, Option.bind_eq_bind, Option.bind_some, store_singleton (by omega)]
  · exact written_set h fun i hi => testBit_or_mask hi (Nat.mod_lt _ (by decide))

/-- **A bit is cleared.** -/
theorem exists_clearBit (h : n < 8 * xs.length) :
    ∃ xs', clearBit xs (n / 8) (n % 8) = some xs' ∧ Written xs xs' n false := by
  refine ⟨xs.set (n / 8) (xs.getD (n / 8) 0 &&& ~~~ mask (n % 8)), ?_, ?_⟩
  · rw [clearBit, getElem?_octet h, Option.bind_eq_bind, Option.bind_some, store_singleton (by omega)]
  · exact written_set h fun i hi => testBit_and_not_mask hi (Nat.mod_lt _ (by decide))

/-- **A bit is read.** -/
theorem exists_getBit (h : n < 8 * xs.length) :
    ∃ b, getBit xs (n / 8) (n % 8) = some b ∧ (b ≠ 0 ↔ bitAt xs n = true) := by
  refine ⟨xs.getD (n / 8) 0 &&& mask (n % 8), ?_, ?_⟩
  · rw [getBit, getElem?_octet h]
    rfl
  · exact and_mask_ne_zero_iff (Nat.mod_lt _ (by decide))

theorem length_setBit {xs' : List UInt8} {k j : Nat} (h : setBit xs k j = some xs') : xs'.length = xs.length := by
  obtain ⟨b, -, hstore⟩ := Option.bind_eq_some_iff.mp h
  exact length_store hstore

theorem length_clearBit {xs' : List UInt8} {k j : Nat} (h : clearBit xs k j = some xs') : xs'.length = xs.length := by
  obtain ⟨b, -, hstore⟩ := Option.bind_eq_some_iff.mp h
  exact length_store hstore

/-- In an array of zeros no bit is set. -/
theorem bitAt_replicate (k n : Nat) : bitAt (List.replicate k 0) n = false := by
  have hzero : (List.replicate k (0 : UInt8)).getD (n / 8) 0 = 0 := by
    rw [List.getD_eq_getElem?_getD, List.getElem?_replicate]
    split <;> rfl
  rw [bitAt, hzero]
  exact Nat.zero_testBit _

end Bits

end Wow
