import Mathlib.Tactic.Common
import Mathlib.Data.List.Basic

/-!
# Wow.Lib.Mem — byte memory, slices and little-endian fields

A receive buffer is a total function `Mem = ℕ → UInt8`: what lies behind the bytes of the last read is
whatever an earlier read (or the stack) left there, and a program that runs past the received length
reads exactly that.  `fill` is a read of a chunk into the start of the buffer, `slice` the bytes of a
window, `AgreeBelow` the relation of two buffers that hold the same received bytes.
-/

namespace Wow

/-- A buffer, total: an index past the received bytes reads what happens to be there. -/
abbrev Mem := Nat → UInt8

namespace Mem

/-- A read of `c` into the start of the buffer. -/
def fill (m : Mem) (c : List UInt8) : Mem := fun i => c.getD i (m i)

/-- The `n` bytes from `p`. -/
def slice (m : Mem) (p n : Nat) : List UInt8 := (List.range n).map fun i => m (p + i)

/-- Little-endian `uint16_t` at `p`. -/
def u16 (m : Mem) (p : Nat) : UInt16 := UInt16.ofNat ((m p).toNat + 256 * (m (p + 1)).toNat)

/-- `m` and `m'` hold the same first `n` bytes. -/
def AgreeBelow (n : Nat) (m m' : Mem) : Prop := ∀ i < n, m i = m' i

/-! ### Filled buffers -/

theorem fill_of_lt {m : Mem} {w : List UInt8} {i : Nat} (h : i < w.length) : m.fill w i = w[i] := by
  simp [fill, List.getElem?_eq_getElem h]

theorem fill_of_le {m : Mem} {c : List UInt8} {i : Nat} (h : c.length ≤ i) : m.fill c i = m i := by
  simp [fill, List.getElem?_eq_none h]

@[simp] theorem fill_nil (m : Mem) : m.fill [] = m := rfl

theorem agreeBelow_fill (m m' : Mem) (c : List UInt8) : AgreeBelow c.length (m.fill c) (m'.fill c) := by
  intro i hi
  rw [fill_of_lt hi, fill_of_lt hi]

theorem AgreeBelow.symm {n : Nat} {m m' : Mem} (h : AgreeBelow n m m') : AgreeBelow n m' m :=
  fun i hi => (h i hi).symm

/-! ### Slices -/

@[simp] theorem length_slice (m : Mem) (p n : Nat) : (m.slice p n).length = n := by simp [slice]

@[simp] theorem slice_zero (m : Mem) (p : Nat) : m.slice p 0 = [] := rfl

theorem slice_succ (m : Mem) (p n : Nat) : m.slice p (n + 1) = m p :: m.slice (p + 1) n := by
  simp only [slice, List.range_succ_eq_map, List.map_cons, List.map_map, Nat.add_zero]
  exact congrArg _ (List.map_congr_left fun i _ => congrArg m (by simp only [Nat.succ_eq_add_one]; omega))

@[simp] theorem getElem_slice (m : Mem) (p n i : Nat) (h : i < (m.slice p n).length) :
    (m.slice p n)[i] = m (p + i) := by simp [slice]

theorem slice_congr {m m' : Mem} {p n : Nat} (h : ∀ i < n, m (p + i) = m' (p + i)) :
    m.slice p n = m'.slice p n := by
  refine List.map_congr_left fun i hi => h i ?_
  simpa using hi

/-- Two slices of one length are the same when their bytes are. -/
theorem slice_eq_iff {m m' : Mem} {p p' n : Nat} :
    m.slice p n = m'.slice p' n ↔ ∀ i < n, m (p + i) = m' (p' + i) := by
  simp only [slice, List.map_inj_left, List.mem_range]

/-- A part of a slice. -/
theorem take_drop_slice (m : Mem) (p n i k : Nat) :
    ((m.slice p n).drop i).take k = m.slice (p + i) (min k (n - i)) := by
  apply List.ext_getElem
  · simp
  · intro j h1 h2
    simp [Nat.add_assoc]

theorem slice_fill {m : Mem} {c : List UInt8} {p n : Nat} (h : p + n ≤ c.length) :
    (m.fill c).slice p n = (c.drop p).take n := by
  apply List.ext_getElem
  · simp; omega
  · intro i h1 h2
    simp at h1 h2
    rw [getElem_slice, fill_of_lt (by omega)]
    simp

end Mem

/-! ### Octets -/

/-- A property of octets is decided by the 256 octets. -/
theorem forall_uint8 {P : UInt8 → Prop} : (∀ b, P b) ↔ ∀ n < 256, P (UInt8.ofNat n) := by
  constructor
  · exact fun h n _ => h _
  · intro h b
    have := h b.toNat b.toNat_lt
    simpa using this

/-- The two octets of a little-endian `uint16_t`. -/
def leU16 (a : UInt16) : List UInt8 := [UInt8.ofNat (a.toNat % 256), UInt8.ofNat (a.toNat / 256)]

@[simp] theorem length_leU16 (a : UInt16) : (leU16 a).length = 2 := rfl

theorem u16_of_octets (a : UInt16) :
    UInt16.ofNat ((UInt8.ofNat (a.toNat % 256)).toNat + 256 * (UInt8.ofNat (a.toNat / 256)).toNat) = a := by
  have h := a.toNat_lt
  simp only [UInt8.toNat_ofNat']
  rw [show a.toNat % 256 % 2 ^ 8 + 256 * (a.toNat / 256 % 2 ^ 8) = a.toNat by omega]
  simp

end Wow
