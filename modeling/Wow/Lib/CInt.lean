import Mathlib.Algebra.Order.Ring.Int
import Mathlib.Algebra.Order.Ring.Nat
import Mathlib.Tactic.Common

/-!
# Wow.Lib.CInt — integer types of fixed width

The types `int8_t` to `uint64_t` with the numbers that they hold (`Holds`) and the conversion to them (`conv`), which
keeps a number modulo two to the width.

* `conv_of_holds`: a number that a type holds is left alone.
* `conv_conv`: a conversion through a type of no smaller width can be left out.
* `conv_twin_eq_iff`, `holds_twin_iff`: the signed type of the same width keeps an unsigned number in the lower half of
  its range.
-/

namespace Wow

/-- A width of a machine integer. -/
inductive CWidth where
  | w8
  | w16
  | w32
  | w64
  deriving DecidableEq

def CWidth.bits : CWidth → Nat
  | w8 => 8
  | w16 => 16
  | w32 => 32
  | w64 => 64

/-- `int8_t` to `uint64_t`. -/
structure CInt where
  signed : Bool
  width : CWidth
  deriving DecidableEq

namespace CInt

def int8 : CInt := ⟨true, .w8⟩
def int16 : CInt := ⟨true, .w16⟩
def int32 : CInt := ⟨true, .w32⟩
def int64 : CInt := ⟨true, .w64⟩
def uint8 : CInt := ⟨false, .w8⟩
def uint16 : CInt := ⟨false, .w16⟩
def uint32 : CInt := ⟨false, .w32⟩
def uint64 : CInt := ⟨false, .w64⟩

/-- Two to the width. -/
def size (t : CInt) : Nat := 2 ^ t.width.bits

/-- The numbers of the type. -/
def Holds (t : CInt) (n : Int) : Prop :=
  if t.signed = true then -(t.size : Int) ≤ n * 2 ∧ n * 2 < t.size else 0 ≤ n ∧ n < t.size

/-- The conversion to the type. -/
def conv (t : CInt) (n : Int) : Int := if t.signed = true then n.bmod t.size else n % t.size

/-- The signed type of the same width. -/
def twin (t : CInt) : CInt := ⟨true, t.width⟩

@[simp] theorem size_twin (t : CInt) : t.twin.size = t.size := rfl

theorem size_pos (t : CInt) : 0 < t.size := Nat.pow_pos (by decide)

/-- A conversion keeps the number modulo the size. -/
theorem conv_emod (t : CInt) (n : Int) : t.conv n % t.size = n % t.size := by
  rw [conv]
  split
  · exact Int.bmod_emod
  · exact Int.emod_emod_of_dvd n (dvd_refl _)

/-- It looks at nothing else. -/
theorem conv_congr {t : CInt} {m n : Int} (h : m % t.size = n % t.size) : t.conv m = t.conv n := by
  rw [conv, conv]
  split
  · rw [← Int.emod_bmod, h, Int.emod_bmod]
  · exact h

theorem holds_conv (t : CInt) (n : Int) : t.Holds (t.conv n) := by
  have hpos := t.size_pos
  rw [Holds, conv]
  split
  · have hle := Int.le_bmod (x := n) hpos
    have hlt := Int.bmod_lt (x := n) hpos
    omega
  · exact ⟨Int.emod_nonneg n (by omega), Int.emod_lt_of_pos n (by omega)⟩

/-- **A number that the type holds** is left alone. -/
theorem conv_of_holds {t : CInt} {n : Int} (h : t.Holds n) : t.conv n = n := by
  rw [Holds] at h
  rw [conv]
  split
  · next hs =>
    rw [if_pos hs] at h
    exact Int.bmod_eq_of_le_mul_two h.1 h.2
  · next hs =>
    rw [if_neg hs] at h
    exact Int.emod_eq_of_lt h.1 h.2

/-- **A conversion through a wider type** can be left out. -/
theorem conv_conv {t u : CInt} (h : t.width.bits ≤ u.width.bits) (n : Int) : t.conv (u.conv n) = t.conv n := by
  have hdvd : (t.size : Int) ∣ u.size := Int.natCast_dvd_natCast.mpr (Nat.pow_dvd_pow 2 h)
  refine conv_congr ?_
  rw [← Int.emod_emod_of_dvd _ hdvd, conv_emod, Int.emod_emod_of_dvd _ hdvd]

/-- A wider signed type holds what a signed type holds. -/
theorem Holds.widen {t u : CInt} {n : Int} (h : t.Holds n) (ht : t.signed = true) (hu : u.signed = true)
    (hle : t.width.bits ≤ u.width.bits) : u.Holds n := by
  have hsize : t.size ≤ u.size := Nat.pow_le_pow_right (by decide) hle
  rw [Holds, if_pos ht] at h
  rw [Holds, if_pos hu]
  omega

/-- The signed type of the same width keeps what it holds itself. -/
theorem conv_twin_eq_iff {t : CInt} {n : Int} : t.twin.conv n = n ↔ t.twin.Holds n := by
  constructor
  · intro h
    rw [← h]
    exact holds_conv t.twin n
  · exact conv_of_holds

/-- **The numbers of a type that its twin holds**: all where it is signed, else those of the lower half. -/
theorem holds_twin_iff {t : CInt} {n : Int} (h : t.Holds n) : t.twin.Holds n ↔ t.signed = true ∨ n * 2 < t.size := by
  have htwin : t.twin.Holds n ↔ -(t.size : Int) ≤ n * 2 ∧ n * 2 < t.size := by
    rw [Holds, if_pos (show t.twin.signed = true from rfl), size_twin]
  rw [Holds] at h
  rw [htwin]
  split at h
  · next hs => exact iff_of_true h (Or.inl hs)
  · next hs =>
    rw [or_iff_right hs]
    omega

end CInt

end Wow
