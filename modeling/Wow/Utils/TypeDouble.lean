import Wow.Utils.TypeParse

/-!
# Wow.Utils.TypeDouble — the digits that `str2double` keeps

The decimals go to `int8_t decimals[256]`: zeros are counted and stored when a digit other than 0 follows them.  The
model keeps the stores with their places; the number itself, in floating point, is left out.

* `safe_iff_within`: from any place of the loop, in the count of the digits behind the point.
* `stores_iff`: the 256th of these digits is the one that matters.
-/

namespace Wow.Utils.TypeDouble

open Decimal (isSpace isDigit)
open TypeParse (readSign dropWhile_append_stop dropWhile_append_head head_dropWhile)

/-! ### The function -/

/-- `sizeof(decimals)`. -/
def decimalsSize : Nat := 256

def PARAM_INPUT_DATA_ERROR : Int := 103

/-- The variables of the loop; `d` is a place of the buffer, and the stores are in the order in which they are made. -/
structure DoubleState where
  dec : Bool
  lhs : BitVec 64
  d : Nat
  zeros : Nat
  stores : List (Nat × UInt8)

namespace DoubleState

/-- `*d++ = v`. -/
def store (st : DoubleState) (v : UInt8) : DoubleState := { st with d := st.d + 1, stores := st.stores ++ [(st.d, v)] }

/-- `while (zeros--) *d++ = 0`, and `zeros = 0`. -/
def fill (st : DoubleState) : DoubleState :=
  { st with d := st.d + st.zeros, zeros := 0, stores := st.stores ++ (List.range' st.d st.zeros).map fun i => (i, 0) }

/-- A digit behind the point. -/
def decimal (st : DoubleState) (ch : UInt8) : DoubleState :=
  if st.d < decimalsSize then
    if ch ≠ 48 then st.fill.store (ch - 48) else { st with zeros := st.zeros + 1 }
  else st

end DoubleState

/-- `while (*pcStr)`. -/
def str2doubleLoop : List UInt8 → DoubleState → DoubleState
  | [], st => st
  | ch :: s, st =>
    if ch = 46 then if st.dec then st else str2doubleLoop s { st with dec := true }
    else if isDigit ch then
      if st.dec then str2doubleLoop s (st.decimal ch)
      else str2doubleLoop s { st with lhs := st.lhs * 10 + BitVec.ofNat 64 (ch.toNat - 48) }
    else st

/-- `str2double`: its code, and the variables at the end of the loop. -/
def str2double (pcStr : List UInt8) : Int × DoubleState :=
  let s := (readSign (pcStr.dropWhile isSpace)).2.dropWhile (· = 48)
  let st := str2doubleLoop s ⟨false, 0, 0, 0, []⟩
  (if st.d ≤ decimalsSize then 0 else -PARAM_INPUT_DATA_ERROR, st)

/-! ### The requirement -/

/-- The digits behind the point: after white space, a sign and the digits in front of it. -/
def fraction (pcStr : List UInt8) : List UInt8 :=
  match (readSign (pcStr.dropWhile isSpace)).2.dropWhile isDigit with
  | 46 :: s => s.takeWhile isDigit
  | _ => []

/-- **The requirement**: every store is inside the buffer. -/
def Inside (st : DoubleState) : Prop := ∀ e ∈ st.stores, e.1 < decimalsSize

instance (st : DoubleState) : Decidable (Inside st) := inferInstanceAs (Decidable (∀ e ∈ st.stores, e.1 < decimalsSize))

/-- What the digits still to come may be, behind `i` others. -/
def Within (i : Nat) (fs : List UInt8) : Prop :=
  if i < 256 then fs[255 - i]? ≠ some 48 ∨ ∀ c ∈ fs.drop (256 - i), c = 48 else ∀ c ∈ fs, c = 48

/-- **The condition**: the 256th digit behind the point is not 0, or no digit behind it is other than 0. -/
def Fits (pcStr : List UInt8) : Prop :=
  (fraction pcStr)[255]? ≠ some 48 ∨ ∀ c ∈ (fraction pcStr).drop 256, c = 48

/-! ### The digits behind the point -/

namespace DoubleState

variable {st : DoubleState}

theorem inside_store (v : UInt8) : Inside (st.store v) ↔ Inside st ∧ st.d < decimalsSize := by
  simp only [Inside, store, List.forall_mem_append, List.forall_mem_singleton]

theorem inside_fill : Inside st.fill ↔ Inside st ∧ ∀ i, st.d ≤ i → i < st.d + st.zeros → i < decimalsSize := by
  simp only [Inside, fill, List.forall_mem_append, List.forall_mem_map, List.mem_range'_1, and_imp]

/-- **A digit other than 0** takes the zeros in front of it along. -/
theorem inside_fill_store (v : UInt8) :
    Inside (st.fill.store v) ↔ Inside st ∧ st.d + st.zeros < decimalsSize := by
  rw [inside_store, inside_fill, and_assoc]
  refine and_congr_right fun _ => ?_
  constructor
  · exact fun h' => h'.2
  · exact fun h' => ⟨fun i _ hi => by omega, h'⟩

theorem dec_decimal (st : DoubleState) (ch : UInt8) : (st.decimal ch).dec = st.dec := by
  rw [decimal]
  split
  · split <;> rfl
  · rfl

theorem decimal_of_full (h : ¬ st.d < decimalsSize) (ch : UInt8) : st.decimal ch = st := if_neg h

/-- What has been stored stays stored. -/
theorem inside_of_decimal {ch : UInt8} (h : Inside (st.decimal ch)) : Inside st := by
  rw [decimal] at h
  split at h
  · split at h
    · exact (inside_fill.mp ((inside_store _).mp h).1).1
    · exact h
  · exact h

theorem inside_of_foldl {fs : List UInt8} (h : Inside (fs.foldl DoubleState.decimal st)) : Inside st := by
  induction fs generalizing st with
  | nil => exact h
  | cons c fs ih => exact inside_of_decimal (ih h)

end DoubleState

/-- In front of the 256th digit the condition only looks ahead. -/
theorem within_cons_lt {i : Nat} (hi : i + 1 < 256) (c : UInt8) (fs : List UInt8) :
    Within i (c :: fs) ↔ Within (i + 1) fs := by
  rw [Within, Within, if_pos (by omega), if_pos hi, show 255 - i = 255 - (i + 1) + 1 by omega, List.getElem?_cons_succ,
    show 256 - i = 256 - (i + 1) + 1 by omega, List.drop_succ_cons]

/-- A zero counts as one digit more. -/
theorem within_zero (i : Nat) (fs : List UInt8) : Within i (48 :: fs) ↔ Within (i + 1) fs := by
  rcases Nat.lt_trichotomy i 255 with hlt | rfl | hgt
  · exact within_cons_lt (by omega) 48 fs
  · simp [Within]
  · rw [Within, Within, if_neg (by omega), if_neg (by omega), List.forall_mem_cons, and_iff_right rfl]

/-- Another digit has to lie inside the buffer, and fills it if it is the 256th. -/
theorem within_digit {c : UInt8} (hc : c ≠ 48) (i : Nat) (fs : List UInt8) :
    Within i (c :: fs) ↔ i < 256 ∧ (256 ≤ i + 1 ∨ Within (i + 1) fs) := by
  rcases Nat.lt_trichotomy i 255 with hlt | rfl | hgt
  · rw [within_cons_lt (by omega), and_iff_right (by omega), or_iff_right (by omega)]
  · exact iff_of_true (by simp [Within, hc]) ⟨by omega, Or.inl (by omega)⟩
  · rw [Within, if_neg (by omega), List.forall_mem_cons]
    exact iff_of_false (fun h => hc h.1) fun h => by omega

open DoubleState

/-- **From any place of the loop**: the stores stay inside the buffer if it is full, or if the digits allow it. -/
theorem safe_iff_within (fs : List UInt8) (st : DoubleState) (hst : Inside st) :
    Inside (fs.foldl DoubleState.decimal st) ↔ decimalsSize ≤ st.d ∨ Within (st.d + st.zeros) fs := by
  induction fs generalizing st with
  | nil => exact iff_of_true hst (Or.inr (by simp [Within]))
  | cons c fs ih =>
    rw [List.foldl_cons]
    by_cases hfull : st.d < decimalsSize
    · rw [or_iff_right (not_le.mpr hfull)]
      by_cases hc : c = 48
      · subst hc
        rw [decimal, if_pos hfull, if_neg (not_not.mpr rfl), ih { st with zeros := st.zeros + 1 } hst,
          or_iff_right (not_le.mpr hfull), within_zero]
        rfl
      · rw [decimal, if_pos hfull, if_pos hc, within_digit hc]
        by_cases hin : st.d + st.zeros < decimalsSize
        · rw [ih _ ((inside_fill_store _).mpr ⟨hst, hin⟩), and_iff_right (show st.d + st.zeros < 256 from hin)]
          rfl
        · refine iff_of_false (fun h => hin ?_) fun h => hin h.1
          exact ((inside_fill_store _).mp (inside_of_foldl h)).2
    · rw [decimal_of_full hfull, ih st hst]
      exact iff_of_true (Or.inl (not_lt.mp hfull)) (Or.inl (not_lt.mp hfull))

/-! ### The whole string -/

/-- Behind the point the loop takes the digits. -/
theorem str2doubleLoop_dec (s : List UInt8) {st : DoubleState} (h : st.dec = true) :
    str2doubleLoop s st = (s.takeWhile isDigit).foldl DoubleState.decimal st := by
  induction s generalizing st with
  | nil => rfl
  | cons ch s ih =>
    by_cases hdigit : isDigit ch = true
    · have hpoint : ch ≠ 46 := by
        rintro rfl
        exact absurd hdigit (by decide)
      rw [str2doubleLoop, if_neg hpoint, if_pos hdigit, if_pos h, List.takeWhile_cons_of_pos hdigit, List.foldl_cons]
      exact ih (by rw [dec_decimal, h])
    · rw [str2doubleLoop, List.takeWhile_cons_of_neg hdigit]
      by_cases hpoint : ch = 46
      · rw [if_pos hpoint, if_pos h]
        rfl
      · rw [if_neg hpoint, if_neg hdigit]
        rfl

/-- In front of the point it only adds up. -/
theorem str2doubleLoop_int (s : List UInt8) (st : DoubleState) (h : st.dec = false) :
    ∃ lhs, str2doubleLoop s st = match s.dropWhile isDigit with
      | 46 :: t => str2doubleLoop t { st with dec := true, lhs := lhs }
      | _ => { st with lhs := lhs } := by
  induction s generalizing st with
  | nil => exact ⟨st.lhs, rfl⟩
  | cons ch s ih =>
    by_cases hdigit : isDigit ch = true
    · have hpoint : ch ≠ 46 := by
        rintro rfl
        exact absurd hdigit (by decide)
      rw [str2doubleLoop, if_neg hpoint, if_pos hdigit, if_neg (by rw [h]; exact Bool.false_ne_true),
        List.dropWhile_cons_of_pos hdigit]
      exact ih _ h
    · rw [str2doubleLoop, List.dropWhile_cons_of_neg hdigit]
      refine ⟨st.lhs, ?_⟩
      by_cases hpoint : ch = 46
      · subst hpoint
        rw [if_pos rfl, if_neg (by rw [h]; exact Bool.false_ne_true)]
        rfl
      · rw [if_neg hpoint, if_neg hdigit]
        split
        · next heq => exact absurd (List.cons.inj heq).1 hpoint
        · rfl

/-- The zeros in front are digits. -/
theorem dropWhile_zeros (s : List UInt8) : (s.dropWhile (· = 48)).dropWhile isDigit = s.dropWhile isDigit := by
  induction s with
  | nil => rfl
  | cons c s ih =>
    by_cases hc : c = 48
    · subst hc
      rw [List.dropWhile_cons_of_pos (by decide), List.dropWhile_cons_of_pos (by decide), ih]
    · rw [List.dropWhile_cons_of_neg (by simpa using hc)]

/-- **The stores of `str2double`** are inside the buffer if and only if the 256th digit behind the point is not 0, or no
digit behind it is other than 0. -/
theorem stores_iff (pcStr : List UInt8) : Inside (str2double pcStr).2 ↔ Fits pcStr := by
  obtain ⟨lhs, hloop⟩ := str2doubleLoop_int ((readSign (pcStr.dropWhile isSpace)).2.dropWhile (· = 48))
    ⟨false, 0, 0, 0, []⟩ rfl
  have hnil : ∀ dec, Inside ⟨dec, lhs, 0, 0, []⟩ := fun _ e he => by cases he
  have hfits : Fits pcStr ↔ Within 0 (fraction pcStr) := by rw [Within, if_pos (by decide), Fits]
  rw [dropWhile_zeros] at hloop
  rw [hfits]
  simp only [str2double, fraction]
  rw [hloop]
  split
  · rw [str2doubleLoop_dec _ rfl, safe_iff_within _ _ (hnil true), or_iff_right (show ¬ decimalsSize ≤ 0 by decide)]
    rfl
  · exact iff_of_true (hnil false) (Or.inr fun c hc => by cases hc)

/-- A point, 256 zeros and a one: the one goes to place 256. -/
theorem not_inside_zeros : ¬ Inside (str2double (46 :: (List.replicate 256 48 ++ [49]))).2 := by
  decide +kernel

end Wow.Utils.TypeDouble
