import Wow.Utils.ByteArrayGrowth

/-!
# Wow.Utils.ByteArraySlice — the calls that cut a byte array

`wow_byte_array_left`, `right`, `mid` and `remove` with every `memmove` and `memset` they make: one that leaves the
memory of the array, reading or writing, is `none`.  An index and a length are of type `size_t`, and so are their sum
and the differences.

* `Op.ref`: what a call does to a list of octets.
* `Op.Fits`: the arrays on which it does that; `slice_right_iff`.
-/

namespace Wow.Utils.ByteArraySlice

open ByteArrayT ByteArrayGrowth

/-! ### The calls -/

/-- `memmove(&ptArray->data[dst], &ptArray->data[src], n)`. -/
def memmove (a : ByteArrayT) (dst src n : Nat) : Option ByteArrayT :=
  if dst + n ≤ a.capicity ∧ src + n ≤ a.capicity then
    some { a with data := fun i => if dst ≤ i ∧ i < dst + n then a.data (src + (i - dst)) else a.data i }
  else none

/-- `memset(&ptArray->data[i], 0, n)`. -/
def memset (a : ByteArrayT) (i n : Nat) : Option ByteArrayT :=
  if i + n ≤ a.capicity then some { a with data := fun j => if i ≤ j ∧ j < i + n then 0 else a.data j } else none

/-- `wow_byte_array_left`. -/
def left (a : ByteArrayT) (snLen : Nat) : Option (Int × ByteArrayT) :=
  if a.size > snLen then do
    let b ← memset a snLen (asSize (a.size - snLen))
    some (WOW_SUCCESS, { b with size := snLen })
  else some (-PARAM_INPUT_ARG_INVALID, a)

/-- `wow_byte_array_right`. -/
def right (a : ByteArrayT) (snLen : Nat) : Option (Int × ByteArrayT) :=
  if a.size > snLen then do
    let b ← memmove a 0 (asSize (a.size - snLen)) snLen
    let b ← memset b snLen (asSize (a.size - snLen))
    some (WOW_SUCCESS, { b with size := snLen })
  else some (-PARAM_INPUT_ARG_INVALID, a)

/-- `wow_byte_array_mid`. -/
def mid (a : ByteArrayT) (snIdx snLen : Nat) : Option (Int × ByteArrayT) :=
  if snIdx < a.size then
    if a.size > asSize (snLen + snIdx) then do
      let b ← memmove a 0 snIdx (asSize (a.size - snLen))
      let b ← memset b snLen (asSize (a.size - snLen))
      some (WOW_SUCCESS, { b with size := snLen })
    else do
      let b ← memmove a 0 snIdx (asSize (a.size - snIdx))
      let b ← memset b snLen (asSize (a.size - snIdx))
      some (WOW_SUCCESS, { b with size := asSize (a.size - snIdx) })
  else some (-PARAM_INPUT_ARG_INVALID, a)

/-- `wow_byte_array_remove`; what is moved goes to the start of the array. -/
def remove (a : ByteArrayT) (snIdx snLen : Nat) : Option (Int × ByteArrayT) :=
  if snIdx < a.size then
    if a.size > asSize (snLen + snIdx) then do
      let b ← memmove a 0 (asSize (snIdx + snLen)) (asSize (a.size - snLen))
      let b ← memset b (asSize (a.size - snLen)) snLen
      some (WOW_SUCCESS, { b with size := asSize (a.size - snLen) })
    else do
      let b ← memset a snIdx (asSize (a.size - snIdx))
      some (WOW_SUCCESS, { b with size := snIdx })
  else some (-PARAM_INPUT_ARG_INVALID, a)

/-- A call. -/
inductive Op where
  | left (snLen : Nat)
  | right (snLen : Nat)
  | mid (snIdx snLen : Nat)
  | remove (snIdx snLen : Nat)

namespace Op

def call (a : ByteArrayT) : Op → Option (Int × ByteArrayT)
  | left n => ByteArraySlice.left a n
  | right n => ByteArraySlice.right a n
  | mid i n => ByteArraySlice.mid a i n
  | remove i n => ByteArraySlice.remove a i n

/-- The arguments are of type `size_t`. -/
def InRange : Op → Prop
  | left n | right n => n < 2 ^ 64
  | mid i n | remove i n => i < 2 ^ 64 ∧ n < 2 ^ 64

/-- The call does not return an error. -/
def Accepted (a : ByteArrayT) : Op → Prop
  | left n | right n => n < a.size
  | mid i _ | remove i _ => i < a.size

/-! ### The requirement -/

/-- The octets after the call. -/
def ref (l : List UInt8) : Op → List UInt8
  | left n => l.take n
  | right n => l.drop (l.length - n)
  | mid i n => (l.drop i).take n
  | remove i n => l.take i ++ l.drop (i + n)

/-- **The requirement**: the call keeps inside the memory of the array and leaves the octets that it should. -/
def Right (a : ByteArrayT) (op : Op) : Prop :=
  ∃ b, op.call a = some (WOW_SUCCESS, b) ∧ b.octets = op.ref a.octets ∧ b.capicity = a.capicity

/-- Where `snIdx + snLen` is in front of the end, `mid` moves `size - snLen` octets, whatever `snLen` is, and `remove`
moves as many to the start; else `mid` clears `size - snIdx` octets behind `snLen`.  Octets that repeat with the
distance `snIdx` hide it. -/
def Fits (a : ByteArrayT) : Op → Prop
  | left _ | right _ => True
  | mid i n => i + n < 2 ^ 64 ∧
      if i + n < a.size then
        i + a.size ≤ a.capicity + n ∧ ∀ j < n, a.size ≤ j + n → a.data (j + i) = a.data j
      else n + a.size ≤ a.capicity + i
  | remove i n => i + n < 2 ^ 64 ∧
      if i + n < a.size then
        i + a.size ≤ a.capicity ∧ (∀ j < i, a.data (j + (i + n)) = a.data j) ∧
          ∀ j < a.size, i + n ≤ j → a.data (j + i) = a.data j
      else True

end Op

/-! ### What each call leaves -/

section Calls

variable {a b : ByteArrayT} {op : Op}

theorem right_of_some (h : op.call a = some (WOW_SUCCESS, b)) (hcap : b.capicity = a.capicity) :
    op.Right a ↔ b.octets = op.ref a.octets := by
  constructor
  · rintro ⟨c, hcall, hoct, -⟩
    rw [h] at hcall
    cases hcall
    exact hoct
  · intro hoct
    exact ⟨b, h, hoct, hcap⟩

theorem not_right_of_none (h : op.call a = none) : ¬op.Right a := by
  rintro ⟨b, hcall, -⟩
  rw [h] at hcall
  cases hcall

/-- A part of what the array holds. -/
theorem take_drop_octets (a : ByteArrayT) (i n : Nat) :
    (a.octets.drop i).take n = a.data.slice i (min n (a.size - i)) := by
  have h := Mem.take_drop_slice a.data 0 a.size i n
  rwa [Nat.zero_add] at h

theorem take_octets {n : Nat} (hn : n ≤ a.size) : a.octets.take n = a.data.slice 0 n := by
  have h := take_drop_octets a 0 n
  rwa [List.drop_zero, Nat.sub_zero, Nat.min_eq_left hn] at h

/-- What the array holds, against other octets of its memory. -/
theorem octets_eq_slice {m : Mem} {p n : Nat} (hn : b.size = n) :
    b.octets = m.slice p n ↔ ∀ i < n, b.data i = m (p + i) := by
  rw [octets, hn, Mem.slice_eq_iff]
  simp only [Nat.zero_add]

/-- Without the octets of a range. -/
theorem ref_remove {i n : Nat} (h : i + n < a.size) :
    (Op.remove i n).ref a.octets = Mem.slice (fun j => a.data (if j < i then j else j + n)) 0 (a.size - n) := by
  apply List.ext_getElem
  · simp [Op.ref]
    omega
  · intro j h1 h2
    rw [Mem.getElem_slice, Nat.zero_add]
    simp only [Op.ref]
    by_cases hj : j < i
    · rw [List.getElem_append_left (by simp; omega), List.getElem_take, getElem_octets, if_pos hj]
    · rw [List.getElem_append_right (by simp; omega), List.getElem_drop, getElem_octets, if_neg hj]
      simp only [List.length_take, length_octets]
      congr 1
      omega

/-- What is left by a move of `n` octets to the start and the clearing of `m` octets from `p` on. -/
def moved (a : ByteArrayT) (src n p m : Nat) : ByteArrayT :=
  { a with data := fun j => if p ≤ j ∧ j < p + m then 0 else if j < n then a.data (src + j) else a.data j }

section MoveClear

variable {src n p m : Nat} {f : ByteArrayT → Option (Int × ByteArrayT)}

theorem memmove_clear (hmove : n ≤ a.capicity ∧ src + n ≤ a.capicity) (hclear : p + m ≤ a.capicity) :
    ((memmove a 0 src n).bind fun b => (memset b p m).bind f) = f (moved a src n p m) := by
  have hmove' : 0 + n ≤ a.capicity ∧ src + n ≤ a.capicity := by rwa [Nat.zero_add]
  rw [memmove, if_pos hmove', Option.bind_some, memset, if_pos hclear, Option.bind_some, moved]
  simp only [Nat.zero_le, true_and, Nat.zero_add, Nat.sub_zero]

theorem memmove_clear_none (h : ¬(n ≤ a.capicity ∧ src + n ≤ a.capicity ∧ p + m ≤ a.capicity)) :
    ((memmove a 0 src n).bind fun b => (memset b p m).bind f) = none := by
  rw [memmove]
  split
  · next hmove =>
    rw [Nat.zero_add] at hmove
    have hclear : ¬ p + m ≤ a.capicity := fun hclear => h ⟨hmove.1, hmove.2, hclear⟩
    rw [Option.bind_some, memset, if_neg hclear]
    rfl
  · rfl

end MoveClear

variable (hs : a.size ≤ a.capicity) (hc : a.capicity < 2 ^ 63)
include hs hc

theorem left_right {n : Nat} (hn : n < a.size) : (Op.left n).Right a := by
  have hd : asSize (a.size - n) = a.size - n := asSize_sub (by omega) (by omega)
  have hcall : (Op.left n).call a = some (WOW_SUCCESS,
      { a with data := fun j => if n ≤ j ∧ j < n + (a.size - n) then 0 else a.data j, size := n }) := by
    rw [Op.call, ByteArraySlice.left, if_pos hn, hd, memset, if_pos (by omega)]
    rfl
  rw [right_of_some hcall rfl, Op.ref, take_octets (Nat.le_of_lt hn), octets_eq_slice (n := n) rfl]
  intro i hi
  rw [Nat.zero_add]
  exact if_neg (by omega)

theorem right_right {n : Nat} (hn : n < a.size) : (Op.right n).Right a := by
  have hd : asSize (a.size - n) = a.size - n := asSize_sub (by omega) (by omega)
  have hcall : (Op.right n).call a = some (WOW_SUCCESS, { moved a (a.size - n) n n (a.size - n) with size := n }) := by
    rw [Op.call, ByteArraySlice.right, if_pos hn, hd]
    exact memmove_clear (by omega) (by omega)
  have href : (Op.right n).ref a.octets = a.data.slice (a.size - n) n := by
    have h := take_drop_octets a (a.size - n) n
    rw [Nat.sub_sub_self (Nat.le_of_lt hn), Nat.min_self,
      List.take_of_length_le (by rw [List.length_drop, length_octets]; omega)] at h
    rw [Op.ref, length_octets, h]
  rw [right_of_some hcall rfl, href, octets_eq_slice (n := n) rfl]
  intro j hj
  simp only [moved]
  rw [if_neg (by omega), if_pos hj]

/-! ### The calls with an index -/

section Index

variable {i n : Nat} (hi : i < a.size)
include hi

/-- **A part in front of the end**: too much is moved. -/
theorem mid_inside_iff (hin : i + n < a.size) : (Op.mid i n).Right a ↔
    i + a.size ≤ a.capicity + n ∧ ∀ j < n, a.size ≤ j + n → a.data (j + i) = a.data j := by
  have hsum : asSize (n + i) = n + i := asSize_add (by omega)
  have hdn : asSize (a.size - n) = a.size - n := asSize_sub (by omega) (by omega)
  have hcall : (Op.mid i n).call a = (memmove a 0 i (a.size - n)).bind fun b =>
      (memset b n (a.size - n)).bind fun b => some (WOW_SUCCESS, { b with size := n }) := by
    rw [Op.call, ByteArraySlice.mid, if_pos hi, hsum, if_pos (by omega), hdn]
    rfl
  by_cases hm : i + a.size ≤ a.capicity + n
  · rw [memmove_clear (by omega) (by omega)] at hcall
    rw [right_of_some hcall rfl, Op.ref, take_drop_octets, Nat.min_eq_left (by omega), octets_eq_slice (n := n) rfl]
    simp only [moved]
    constructor
    · intro h
      refine ⟨hm, fun j hj hge => ?_⟩
      have hget := h j hj
      rw [if_neg (by omega), if_neg (by omega)] at hget
      rw [hget, Nat.add_comm]
    · rintro ⟨-, h⟩ j hj
      rw [if_neg (by omega)]
      by_cases hlt : j < a.size - n
      · rw [if_pos hlt]
      · rw [if_neg hlt, ← h j hj (by omega), Nat.add_comm]
  · rw [memmove_clear_none (by omega)] at hcall
    exact iff_of_false (not_right_of_none hcall) fun h => hm h.1

/-- **A part up to the end**: too much is cleared. -/
theorem mid_end_iff (hw : i + n < 2 ^ 64) (hin : ¬ i + n < a.size) :
    (Op.mid i n).Right a ↔ n + a.size ≤ a.capicity + i := by
  have hsum : asSize (n + i) = n + i := asSize_add (by omega)
  have hdi : asSize (a.size - i) = a.size - i := asSize_sub (by omega) (by omega)
  have hcall : (Op.mid i n).call a = (memmove a 0 i (a.size - i)).bind fun b =>
      (memset b n (a.size - i)).bind fun b => some (WOW_SUCCESS, { b with size := a.size - i }) := by
    rw [Op.call, ByteArraySlice.mid, if_pos hi, hsum, if_neg (by omega), hdi]
    rfl
  by_cases hm : n + a.size ≤ a.capicity + i
  · rw [memmove_clear (by omega) (by omega)] at hcall
    refine iff_of_true ?_ hm
    rw [right_of_some hcall rfl, Op.ref, take_drop_octets, Nat.min_eq_right (by omega),
      octets_eq_slice (n := a.size - i) rfl]
    intro j hj
    simp only [moved]
    rw [if_neg (by omega), if_pos hj]
  · rw [memmove_clear_none (by omega)] at hcall
    exact iff_of_false (not_right_of_none hcall) hm

/-- **Octets in front of the end**: what is behind them goes to the start. -/
theorem remove_inside_iff (hin : i + n < a.size) : (Op.remove i n).Right a ↔
    i + a.size ≤ a.capicity ∧ (∀ j < i, a.data (j + (i + n)) = a.data j) ∧
      ∀ j < a.size, i + n ≤ j → a.data (j + i) = a.data j := by
  have hsum : asSize (n + i) = n + i := asSize_add (by omega)
  have hsum' : asSize (i + n) = i + n := asSize_add (by omega)
  have hdn : asSize (a.size - n) = a.size - n := asSize_sub (by omega) (by omega)
  have hcall : (Op.remove i n).call a = (memmove a 0 (i + n) (a.size - n)).bind fun b =>
      (memset b (a.size - n) n).bind fun b => some (WOW_SUCCESS, { b with size := a.size - n }) := by
    rw [Op.call, ByteArraySlice.remove, if_pos hi, hsum, if_pos (by omega), hdn, hsum']
    rfl
  by_cases hm : i + a.size ≤ a.capicity
  · rw [memmove_clear (by omega) (by omega)] at hcall
    rw [right_of_some hcall rfl, ref_remove hin, octets_eq_slice (n := a.size - n) rfl]
    simp only [moved]
    constructor
    · intro h
      have hget : ∀ j < a.size - n, a.data (i + n + j) = a.data (if j < i then j else j + n) := by
        intro j hj
        have hj' := h j hj
        rwa [if_neg (by omega), if_pos hj, Nat.zero_add] at hj'
      refine ⟨hm, fun j hj => ?_, fun j hj hge => ?_⟩
      · rw [Nat.add_comm, hget j (by omega), if_pos hj]
      · have hback := hget (j - n) (by omega)
        rw [if_neg (by omega), Nat.sub_add_cancel (by omega)] at hback
        rw [← hback]
        congr 1
        omega
    · rintro ⟨-, hfront, hback⟩ j hj
      rw [if_neg (by omega), if_pos hj, Nat.zero_add]
      by_cases hlt : j < i
      · rw [if_pos hlt, ← hfront j hlt, Nat.add_comm]
      · rw [if_neg hlt, ← hback (j + n) (by omega) (by omega)]
        congr 1
        omega
  · rw [memmove_clear_none (by omega)] at hcall
    exact iff_of_false (not_right_of_none hcall) fun h => hm h.1

/-- **Octets up to the end** are removed as they should be. -/
theorem remove_end (hw : i + n < 2 ^ 64) (hin : ¬ i + n < a.size) : (Op.remove i n).Right a := by
  have hsum : asSize (n + i) = n + i := asSize_add (by omega)
  have hdi : asSize (a.size - i) = a.size - i := asSize_sub (by omega) (by omega)
  have hcall : (Op.remove i n).call a = some (WOW_SUCCESS,
      { a with data := fun j => if i ≤ j ∧ j < i + (a.size - i) then 0 else a.data j, size := i }) := by
    rw [Op.call, ByteArraySlice.remove, if_pos hi, hsum, if_neg (by omega), hdi, memset, if_pos (by omega)]
    rfl
  rw [right_of_some hcall rfl, Op.ref, List.drop_of_length_le (by rw [length_octets]; omega), List.append_nil,
    take_octets (Nat.le_of_lt hi), octets_eq_slice (n := i) rfl]
  intro j hj
  rw [Nat.zero_add]
  exact if_neg (by omega)

/-- **A sum that wraps** is in front of the end, and then so many octets are moved and cleared that one of the two leaves
the array. -/
theorem not_right_wrapped (hn : n < 2 ^ 64) (hw : ¬ i + n < 2 ^ 64) :
    ¬(Op.mid i n).Right a ∧ ¬(Op.remove i n).Right a := by
  have hsum : a.size > asSize (n + i) := by
    rw [asSize]
    omega
  have hdn : asSize (a.size - n) = a.size + (2 ^ 64 - n) := by
    rw [asSize]
    omega
  constructor
  · apply not_right_of_none
    rw [Op.call, ByteArraySlice.mid, if_pos hi, if_pos hsum, hdn]
    exact memmove_clear_none (by omega)
  · apply not_right_of_none
    rw [Op.call, ByteArraySlice.remove, if_pos hi, if_pos hsum, hdn]
    exact memmove_clear_none (by omega)

theorem mid_iff (hn : n < 2 ^ 64) : (Op.mid i n).Right a ↔ (Op.mid i n).Fits a := by
  rw [Op.Fits]
  by_cases hw : i + n < 2 ^ 64
  · rw [and_iff_right hw]
    by_cases hin : i + n < a.size
    · rw [if_pos hin]
      exact mid_inside_iff hs hc hi hin
    · rw [if_neg hin]
      exact mid_end_iff hs hc hi hw hin
  · exact iff_of_false (not_right_wrapped hs hc hi hn hw).1 fun h => hw h.1

theorem remove_iff (hn : n < 2 ^ 64) : (Op.remove i n).Right a ↔ (Op.remove i n).Fits a := by
  rw [Op.Fits]
  by_cases hw : i + n < 2 ^ 64
  · rw [and_iff_right hw]
    by_cases hin : i + n < a.size
    · rw [if_pos hin]
      exact remove_inside_iff hs hc hi hin
    · rw [if_neg hin]
      exact iff_of_true (remove_end hs hc hi hw hin) trivial
  · exact iff_of_false (not_right_wrapped hs hc hi hn hw).2 fun h => hw h.1

end Index

/-- The removals from the front, which the stations make, are `ByteArrayT.remove`. -/
theorem remove_front {n : Nat} (hpos : 0 < a.size) (hn : n < 2 ^ 64) :
    ByteArraySlice.remove a 0 n = some (WOW_SUCCESS, a.remove 0 n) := by
  have hsum : asSize (n + (0 : Nat)) = n := asSize_add (by omega)
  have hsum' : asSize ((0 : Nat) + (n : Int)) = n := by rw [asSize_add (by omega), Nat.zero_add]
  rw [ByteArraySlice.remove, ByteArrayT.remove, if_pos hpos, if_pos hpos, hsum]
  by_cases hin : a.size > n
  · have hdn : asSize (a.size - n) = a.size - n := asSize_sub (by omega) (by omega)
    rw [if_pos hin, if_pos (by omega), hdn, hsum', memmove, if_pos (by omega)]
    simp only [memset, Option.bind_eq_bind, Option.bind_some]
    rw [if_pos (by omega)]
    refine congrArg (fun d => some (WOW_SUCCESS, { a with data := d, size := a.size - n })) (funext fun j => ?_)
    rw [show a.size - n + n = a.size by omega]
    simp
  · have hd : asSize (a.size - (0 : Nat)) = a.size := asSize_sub (by omega) (by omega)
    rw [if_neg hin, if_neg (by omega), hd, memset, if_pos (by omega), Nat.zero_add]
    rfl

/-- **A call that is accepted does what it should exactly on the arrays that fit.** -/
theorem slice_right_iff (hr : op.InRange) (ha : op.Accepted a) : op.Right a ↔ op.Fits a := by
  cases op with
  | left n => exact iff_of_true (left_right hs hc ha) trivial
  | right n => exact iff_of_true (right_right hs hc ha) trivial
  | mid i n => exact mid_iff hs hc ha hr.2
  | remove i n => exact remove_iff hs hc ha hr.2

end Calls

/-- Three octets in the memory of a new array. -/
def demo : ByteArrayT := ⟨3, defaultSize, Mem.fill (fun _ => 0) [1, 2, 3]⟩

/-- Two octets from the second on. -/
theorem slice_right_iff_demo : (Op.mid 1 2).Right demo := by
  have hfit : (Op.mid 1 2).Fits demo := ⟨by decide, show 2 + 3 ≤ defaultSize + 1 by decide⟩
  refine (slice_right_iff ?_ ?_ ⟨?_, ?_⟩ ?_ : (Op.mid 1 2).Right demo ↔ _).2 hfit
  · show 3 ≤ defaultSize
    decide
  · show defaultSize < 2 ^ 63
    decide
  · decide
  · decide
  · show 1 < 3
    decide

/-- Of 1, 2, 3 without the second octet are left 3 and a zero from behind the array. -/
theorem not_right_remove : ¬(Op.remove 1 1).Right demo := by
  rintro ⟨b, hcall, hoct, -⟩
  have hrun : ((Op.remove 1 1).call demo).map (fun r => r.2.octets) = some [3, 0] := by decide
  have href : (Op.remove 1 1).ref demo.octets = [1, 3] := by decide
  rw [hcall, Option.map_some, hoct, href] at hrun
  exact absurd hrun (by decide)

end Wow.Utils.ByteArraySlice
