import Wow.Lib.CNum
import Wow.Utils.ByteArray

/-!
# Wow.Utils.ByteArrayGrowth — the calls that let a byte array grow

Any number of arrays, each with an initial size of its own, and any sequence of the calls that append, insert and clear.
`REALLOC` may fail at each of them (`ok`); what `byte_array_resize` then returns nobody looks at.  A write at or behind
the capacity is `none`.

* `Op.ref`: what a call does to lists of octets, `Does` what it may return.
* `Op.Fits`: the calls in front of which everything is right.
* `call_does`: one call; `byteArray_refines`: whole runs.
-/

namespace Wow.Utils.ByteArrayGrowth

open ByteArrayT

def WOW_SUCCESS : Int := 0
def PARAM_INPUT_ARG_INVALID : Int := 104

/-! ### The calls -/

/-- `ptArray->data[i] = u8Value`. -/
def put (a : ByteArrayT) (i : Nat) (u8Value : UInt8) : Option ByteArrayT :=
  if i < a.capicity then some { a with data := Function.update a.data i u8Value } else none

/-- `memcpy(&ptArray->data[i], xs, ..)`. -/
def putAll (a : ByteArrayT) (i : Nat) (xs : List UInt8) : Option ByteArrayT :=
  if i + xs.length ≤ a.capicity then
    some { a with data := fun j => if i ≤ j ∧ j < i + xs.length then xs.getD (j - i) 0 else a.data j }
  else none

/-- `byte_array_resize`, when `REALLOC` is `ok`. -/
def resize (ok : Bool) (a : ByteArrayT) (nSize : Nat) : ByteArrayT := if ok then a.resize nSize else a

/-- `wow_byte_array_append_data`. -/
def appendData (ok : Bool) (a : ByteArrayT) (u8Value : UInt8) : Option (Int × ByteArrayT) := do
  let a := if a.size ≥ a.capicity then resize ok a (a.size * 2) else a
  let b ← put a a.size u8Value
  some (WOW_SUCCESS, { b with size := a.size + 1 })

/-- `wow_byte_array_append_ndata`, with the number of octets in a `uint8_t`. -/
def appendNdata (ok : Bool) (a : ByteArrayT) (u8Value : List UInt8) : Option (Int × ByteArrayT) := do
  let snLen := u8Value.length % 256
  let a := if a.size + snLen ≥ a.capicity then
    resize ok a (if a.size + snLen > a.size * 2 then a.size + snLen else a.size * 2) else a
  let b ← putAll a a.size (u8Value.take snLen)
  some (WOW_SUCCESS, { b with size := a.size + snLen })

/-- `wow_byte_array_append_array`. -/
def appendArray (a toAdd : ByteArrayT) : Option (Int × ByteArrayT) :=
  if toAdd.size < a.capicity - a.size then do
    let b ← putAll a a.size (toAdd.data.slice 0 toAdd.size)
    some (WOW_SUCCESS, { b with size := a.size + toAdd.size })
  else some (-PARAM_INPUT_ARG_INVALID, a)

/-- The loop of `wow_byte_array_insert` from the index `i` down. -/
def shiftUp (snIdx : Nat) : Nat → ByteArrayT → Option ByteArrayT
  | 0, a => some a
  | i + 1, a => if i + 1 > snIdx then (put a (i + 1) (a.data i)).bind (shiftUp snIdx i) else some a

/-- `wow_byte_array_insert`; the index of the loop is an `int`, and one below zero lies in front of the data. -/
def insert (ok : Bool) (a : ByteArrayT) (snIdx : Nat) (u8Value : UInt8) : Option (Int × ByteArrayT) :=
  if snIdx < a.size then do
    let a := if a.size ≥ a.capicity then resize ok a (a.size * 2) else a
    let b ← if asInt a.size < 0 then none else shiftUp snIdx (asInt a.size).toNat a
    let b ← put b snIdx u8Value
    some (WOW_SUCCESS, { b with size := a.size + 1 })
  else some (-PARAM_INPUT_ARG_INVALID, a)

/-- `wow_byte_array_clear`. -/
def clear (a : ByteArrayT) : Int × ByteArrayT :=
  (WOW_SUCCESS, { a with data := fun i => if i < a.size then 0 else a.data i, size := 0 })

/-- A call on one of the arrays. -/
inductive Op where
  | appendData (ok : Bool) (u8Value : UInt8)
  | appendNdata (ok : Bool) (u8Value : List UInt8)
  | appendArray (toAdd : Nat)
  | insert (ok : Bool) (snIdx : Nat) (u8Value : UInt8)
  | clear

/-- The arrays of the program. -/
abbrev Arrays := Nat → ByteArrayT

/-- The call on the array `k`: what it returns, and the array. -/
def call (s : Arrays) (k : Nat) : Op → Option (Int × ByteArrayT)
  | .appendData ok v => appendData ok (s k) v
  | .appendNdata ok vs => appendNdata ok (s k) vs
  | .appendArray j => appendArray (s k) (s j)
  | .insert ok i v => insert ok (s k) i v
  | .clear => some (clear (s k))

def step (s : Arrays) (k : Nat) (op : Op) : Option (Int × Arrays) :=
  (call s k op).map fun (r, a) => (r, Function.update s k a)

/-! ### The requirement -/

/-- The list after the call, when it succeeds. -/
def Op.ref (l : Nat → List UInt8) (k : Nat) : Op → List UInt8
  | .appendData _ v => l k ++ [v]
  | .appendNdata _ vs => l k ++ vs
  | .appendArray j => l k ++ l j
  | .insert _ i v => (l k).insertIdx i v
  | .clear => []

/-- The reasons for an error: an index outside, or no room for the other array. -/
def Op.Invalid (s : Arrays) (l : Nat → List UInt8) (k : Nat) : Op → Prop
  | .insert _ i _ => (l k).length ≤ i
  | .appendArray j => (s k).capicity ≤ (l k).length + (l j).length
  | _ => False

/-- The array holds the list inside its capacity. -/
structure Holds (a : ByteArrayT) (l : List UInt8) : Prop where
  octets : a.octets = l
  size : a.size ≤ a.capicity

/-- The call does what it does to lists, or it returns an error, for a reason, and the list stays. -/
def Does (s : Arrays) (l : Nat → List UInt8) (k : Nat) (op : Op) (r : Int) (x : List UInt8) : Prop :=
  r = WOW_SUCCESS ∧ x = op.ref l k ∨ r ≠ WOW_SUCCESS ∧ op.Invalid s l k ∧ x = l k

/-- **The requirement**: no call leaves the memory of its array, each does what it does to lists, and in every state the
arrays hold the lists. -/
def Refines : Arrays → (Nat → List UInt8) → List (Nat × Op) → Prop
  | s, l, [] => ∀ k, Holds (s k) (l k)
  | s, l, (k, op) :: ops => (∀ k, Holds (s k) (l k)) ∧
    ∃ r s' x, step s k op = some (r, s') ∧ Does s l k op r x ∧ Refines s' (Function.update l k x) ops

/-- The length of an append fits its type, there is room or `REALLOC` gives it, and an array is short enough for the
loop of an insertion. -/
def Op.Fits (a : ByteArrayT) : Op → Prop
  | .appendData ok _ => ok = true ∨ a.size < a.capicity
  | .appendNdata ok vs => vs.length < 256 ∧ (ok = true ∨ a.size + vs.length ≤ a.capicity)
  | .insert ok i _ => i < a.size → a.size < 2 ^ 31 ∧ (ok = true ∨ a.size < a.capicity)
  | _ => True

instance (a : ByteArrayT) : DecidablePred (Op.Fits a)
  | .appendData _ _ => inferInstanceAs (Decidable (_ ∨ _))
  | .appendNdata _ _ => inferInstanceAs (Decidable (_ ∧ _))
  | .insert _ _ _ => inferInstanceAs (Decidable (_ → _))
  | .appendArray _ | .clear => inferInstanceAs (Decidable True)

/-- The condition, before every call of the run. -/
def Fitting : Arrays → List (Nat × Op) → Prop
  | _, [] => True
  | s, (k, op) :: ops => op.Fits (s k) ∧ (step s k op).elim True fun r => Fitting r.2 ops

instance decidableFitting : ∀ (s : Arrays) (ops : List (Nat × Op)), Decidable (Fitting s ops)
  | _, [] => inferInstanceAs (Decidable True)
  | s, (k, op) :: ops =>
    have (o : Option (Int × Arrays)) : Decidable (o.elim True fun r => Fitting r.2 ops) :=
      o.casesOn (inferInstanceAs (Decidable True)) fun r => decidableFitting r.2 ops
    inferInstanceAs (Decidable (op.Fits (s k) ∧ _))

/-! ### Writing into the memory -/

section Memory

variable {a : ByteArrayT} {l : List UInt8}

theorem getElem_of_holds (h : Holds a l) {i : Nat} (hi : i < l.length) : l[i] = a.data i := by
  obtain ⟨rfl, -⟩ := h
  exact getElem_octets a hi

theorem Holds.length (h : Holds a l) : l.length = a.size := by
  rw [← h.octets, length_octets]

/-- An array holds what its octets are. -/
theorem holds_iff_forall {n : Nat} : Holds { a with size := n } l ↔
    n ≤ a.capicity ∧ l.length = n ∧ ∀ i (h : i < l.length), l[i] = a.data i := by
  constructor
  · intro h
    exact ⟨h.size, h.length, fun i hi => getElem_of_holds h hi⟩
  · rintro ⟨hsize, hlen, hget⟩
    refine ⟨List.ext_getElem (by rw [length_octets, hlen]) fun i h₁ h₂ => ?_, hsize⟩
    rw [hget i h₂]
    exact getElem_octets _ h₁

/-- The array holds the list, and it has some memory. -/
structure Good (a : ByteArrayT) (l : List UInt8) : Prop extends Holds a l where
  capicity : 0 < a.capicity

/-- Making room keeps what the array holds. -/
theorem good_resize (h : Good a l) {nSize : Nat} (hn : a.capicity ≤ nSize) (ok : Bool) :
    Good (resize ok a nSize) l := by
  have hpos := h.capicity
  rw [resize]
  split
  · refine ⟨(holds_iff_forall (a := a.resize nSize)).mpr ⟨Nat.le_trans h.size hn, h.length, fun i hi => ?_⟩,
      Nat.lt_of_lt_of_le hpos hn⟩
    have hlt := h.length ▸ hi
    have hcap := h.size
    rw [getElem_of_holds h.toHolds hi]
    exact (if_neg (by omega)).symm
  · exact h

theorem size_resize (ok : Bool) (a : ByteArrayT) (nSize : Nat) : (resize ok a nSize).size = a.size := by
  cases ok <;> rfl

/-- **A copy** behind what the array holds. -/
theorem good_putAll (h : Good a l) {xs : List UInt8} (hroom : a.size + xs.length ≤ a.capicity) :
    ∃ b, putAll a a.size xs = some b ∧ Good { b with size := a.size + xs.length } (l ++ xs) := by
  refine ⟨_, if_pos hroom,
    holds_iff_forall.mpr ⟨hroom, by rw [List.length_append, h.length], fun i hi => ?_⟩, h.capicity⟩
  rw [List.length_append, h.length] at hi
  by_cases hlt : i < a.size
  · rw [List.getElem_append_left (by rwa [h.length]), getElem_of_holds h.toHolds]
    exact (if_neg (by omega)).symm
  · rw [List.getElem_append_right (by rw [h.length]; omega)]
    have hget : xs.getD (i - a.size) 0 = xs[i - a.size] := by
      rw [List.getD_eq_getElem?_getD, List.getElem?_eq_getElem (by omega), Option.getD_some]
    simp only [h.length]
    exact ((if_pos (by omega)).trans hget).symm

/-- One octet more. -/
theorem good_put (h : Good a l) (hroom : a.size < a.capicity) (v : UInt8) :
    ∃ b, put a a.size v = some b ∧ Good { b with size := a.size + 1 } (l ++ [v]) := by
  refine ⟨_, if_pos hroom,
    holds_iff_forall.mpr ⟨hroom, by rw [List.length_append, h.length]; rfl, fun i hi => ?_⟩, h.capicity⟩
  rw [List.length_append, h.length, List.length_singleton] at hi
  by_cases hlt : i < a.size
  · rw [List.getElem_append_left (by rwa [h.length]), getElem_of_holds h.toHolds]
    exact (Function.update_of_ne (Nat.ne_of_lt hlt) _ _).symm
  · obtain rfl : i = a.size := by omega
    rw [List.getElem_append_right (by rw [h.length])]
    simp only [h.length, Nat.sub_self, List.getElem_singleton]
    exact (Function.update_self a.size v a.data).symm

/-- The octets from `snIdx` on go up by one. -/
theorem shiftUp_eq {snIdx : Nat} : ∀ (i : Nat) (a : ByteArrayT), snIdx ≤ i → i < a.capicity →
    shiftUp snIdx i a =
      some { a with data := fun j => if snIdx < j ∧ j ≤ i then a.data (j - 1) else a.data j }
  | 0, a, hle, _ => by
    obtain rfl : snIdx = 0 := Nat.le_zero.mp hle
    have hdata : (fun j => if 0 < j ∧ j ≤ 0 then a.data (j - 1) else a.data j) = a.data :=
      funext fun j => if_neg (by omega)
    exact congrArg (fun d => some { a with data := d }) hdata.symm
  | i + 1, a, hle, hcap => by
    rw [shiftUp]
    by_cases hlt : i + 1 > snIdx
    · rw [if_pos hlt, put, if_pos hcap, Option.bind_some]
      refine (shiftUp_eq i _ (Nat.le_of_lt_succ hlt) ?_).trans
        (congrArg (fun d => some { a with data := d }) (funext fun j => ?_))
      · exact Nat.lt_of_succ_lt hcap
      simp only
      by_cases hj : j = i + 1
      · subst hj
        rw [if_neg (by omega), Function.update_self, if_pos ⟨hlt, Nat.le_refl _⟩]
        rfl
      · rw [Function.update_of_ne hj]
        by_cases hin : snIdx < j ∧ j ≤ i
        · rw [if_pos hin, Function.update_of_ne (by omega), if_pos (by omega)]
        · rw [if_neg hin, if_neg (by omega)]
    · have hdata : (fun j => if snIdx < j ∧ j ≤ i + 1 then a.data (j - 1) else a.data j) = a.data :=
        funext fun j => if_neg (by omega)
      rw [if_neg hlt, hdata]

/-- **An insertion** between what the array holds. -/
theorem good_insert (h : Good a l) {snIdx : Nat} (hi : snIdx < a.size) (hroom : a.size < a.capicity) (v : UInt8) :
    ∃ b c, shiftUp snIdx a.size a = some b ∧ put b snIdx v = some c ∧
      Good { c with size := a.size + 1 } (l.insertIdx snIdx v) := by
  have hlen : (l.insertIdx snIdx v).length = a.size + 1 := by
    rw [List.length_insertIdx_of_le_length (by rw [h.length]; omega), h.length]
  refine ⟨_, _, shiftUp_eq a.size a (Nat.le_of_lt hi) hroom, if_pos (Nat.lt_trans hi hroom),
    holds_iff_forall.mpr ⟨hroom, hlen, fun i hlt => ?_⟩, h.capicity⟩
  rw [hlen] at hlt
  show _ = Function.update (fun j => if snIdx < j ∧ j ≤ a.size then a.data (j - 1) else a.data j) snIdx v i
  rcases Nat.lt_trichotomy i snIdx with hb | rfl | ha
  · rw [List.getElem_insertIdx_of_lt hb, getElem_of_holds h.toHolds, Function.update_of_ne (Nat.ne_of_lt hb),
      if_neg (by omega)]
  · rw [List.getElem_insertIdx_self, Function.update_self]
  · rw [List.getElem_insertIdx_of_gt ha, getElem_of_holds h.toHolds, Function.update_of_ne (Nat.ne_of_gt ha),
      if_pos (by omega)]

end Memory

/-! ### What each call does -/

section Calls

variable {a : ByteArrayT} {l : List UInt8}

theorem good_new (nSize : Nat) : Good (ByteArrayT.new nSize) [] := by
  refine ⟨⟨octets_new nSize, Nat.zero_le _⟩, ?_⟩
  show 0 < if nSize = 0 then defaultSize else nSize
  split
  · decide
  · omega

theorem good_clear (h : Good a l) : Good (clear a).2 [] := ⟨⟨rfl, Nat.zero_le _⟩, h.capicity⟩

/-- Room for one octet more. -/
theorem good_room (h : Good a l) {ok : Bool} (hfit : ok = true ∨ a.size < a.capicity) :
    ∃ b, (if a.size ≥ a.capicity then resize ok a (a.size * 2) else a) = b ∧ Good b l ∧ b.size = a.size ∧
      b.size < b.capicity := by
  have hpos := h.capicity
  refine ⟨_, rfl, ?_⟩
  by_cases hfull : a.size ≥ a.capicity
  · obtain rfl := hfit.resolve_right (by omega)
    rw [if_pos hfull]
    exact ⟨good_resize h (by omega) true, rfl, show a.size < a.size * 2 by omega⟩
  · rw [if_neg hfull]
    exact ⟨h, rfl, by omega⟩

theorem appendData_good (h : Good a l) {ok : Bool} (hfit : ok = true ∨ a.size < a.capicity) (v : UInt8) :
    ∃ b, appendData ok a v = some (WOW_SUCCESS, b) ∧ Good b (l ++ [v]) := by
  obtain ⟨b, hb, hgood, -, hroom⟩ := good_room h hfit
  obtain ⟨c, hc, hgood'⟩ := good_put hgood hroom v
  exact ⟨_, by simp only [appendData, hb, hc, Option.bind_eq_bind, Option.bind_some], hgood'⟩

theorem appendNdata_good (h : Good a l) {ok : Bool} {vs : List UInt8} (hlen : vs.length < 256)
    (hfit : ok = true ∨ a.size + vs.length ≤ a.capicity) :
    ∃ b, appendNdata ok a vs = some (WOW_SUCCESS, b) ∧ Good b (l ++ vs) := by
  have hmod : vs.length % 256 = vs.length := Nat.mod_eq_of_lt hlen
  obtain ⟨b, hb, hgood, hsize, hroom⟩ : ∃ b, (if a.size + vs.length ≥ a.capicity then
      resize ok a (if a.size + vs.length > a.size * 2 then a.size + vs.length else a.size * 2) else a) = b ∧
      Good b l ∧ b.size = a.size ∧ b.size + vs.length ≤ b.capicity := by
    refine ⟨_, rfl, ?_⟩
    by_cases hfull : a.size + vs.length ≥ a.capicity
    · rw [if_pos hfull]
      have hmax : a.size + vs.length ≤ if a.size + vs.length > a.size * 2 then a.size + vs.length else a.size * 2 := by
        split <;> omega
      refine ⟨good_resize h (by omega) ok, by rw [size_resize], ?_⟩
      rw [size_resize]
      cases ok with
      | true => exact hmax
      | false => exact hfit.resolve_left Bool.false_ne_true
    · rw [if_neg hfull]
      exact ⟨h, rfl, by omega⟩
  obtain ⟨c, hc, hgood'⟩ := good_putAll hgood hroom
  exact ⟨{ c with size := b.size + vs.length },
    by simp only [appendNdata, hmod, List.take_length, hb, hc, Option.bind_eq_bind, Option.bind_some], hgood'⟩

/-- The append of the stations is this one, when `REALLOC` gives the room. -/
theorem appendNdata_eq (vs : List UInt8) :
    appendNdata true a vs = some (WOW_SUCCESS, a.appendNdata vs) := by
  have hlen : (vs.take (vs.length % 256)).length = vs.length % 256 := by
    rw [List.length_take]
    exact Nat.min_eq_left (Nat.mod_le _ _)
  have hroom := capicity_grow a (vs.length % 256)
  have hgrow : (if a.size + vs.length % 256 ≥ a.capicity then resize true a (if a.size + vs.length % 256 > a.size * 2
      then a.size + vs.length % 256 else a.size * 2) else a) = a.grow (vs.length % 256) := rfl
  have hsize : (a.grow (vs.length % 256)).size = a.size := by
    rw [grow]
    split <;> rfl
  simp only [appendNdata, hgrow, hsize, putAll, hlen, if_pos hroom, Option.bind_eq_bind, Option.bind_some]
  refine congrArg (fun d => some (WOW_SUCCESS, { a.grow (vs.length % 256) with
    data := d, size := a.size + vs.length % 256 })) (funext fun j => ?_)
  by_cases hj : a.size ≤ j ∧ j < a.size + vs.length % 256
  · rw [if_pos hj, if_pos hj, List.getD_eq_getElem?_getD, List.getD_eq_getElem?_getD,
      List.getElem?_take_of_lt (by omega)]
  · rw [if_neg hj, if_neg hj]

theorem appendArray_good {b : ByteArrayT} {m : List UInt8} (h : Good a l) (hm : Holds b m) :
    (∃ c, appendArray a b = some (WOW_SUCCESS, c) ∧ Good c (l ++ m)) ∨
      a.capicity ≤ l.length + m.length ∧ appendArray a b = some (-PARAM_INPUT_ARG_INVALID, a) := by
  have hsize := h.size
  by_cases hlt : b.size < a.capicity - a.size
  · have hroom : a.size + b.octets.length ≤ a.capicity := by
      rw [length_octets]
      omega
    obtain ⟨c, hc, hgood⟩ := good_putAll h hroom
    rw [length_octets, hm.octets] at hgood
    refine Or.inl ⟨{ c with size := a.size + b.size }, ?_, hgood⟩
    rw [appendArray, if_pos hlt, show b.data.slice 0 b.size = b.octets from rfl, hc]
    rfl
  · exact Or.inr ⟨by rw [h.length, hm.length]; omega, if_neg hlt⟩

theorem insert_good (h : Good a l) {ok : Bool} {snIdx : Nat} (v : UInt8) (hi : snIdx < a.size)
    (hfit : a.size < 2 ^ 31 ∧ (ok = true ∨ a.size < a.capicity)) :
    ∃ b, insert ok a snIdx v = some (WOW_SUCCESS, b) ∧ Good b (l.insertIdx snIdx v) := by
  obtain ⟨b, hb, hgood, hsize, hroom⟩ := good_room h hfit.2
  obtain ⟨c, d, hc, hd, hgood'⟩ := good_insert hgood (hsize.symm ▸ hi) hroom v
  have hint : asInt (b.size : Int) = b.size := asInt_of_lt (by omega) (by omega)
  refine ⟨{ d with size := b.size + 1 }, ?_, hgood'⟩
  rw [insert, if_pos hi]
  simp only [hb, hint, Int.toNat_natCast, if_neg (Int.not_lt.mpr (Int.natCast_nonneg b.size)), hc, hd,
    Option.bind_eq_bind, Option.bind_some]

end Calls

/-! ### Runs -/

section Runs

variable {s : Arrays} {l : Nat → List UInt8}

/-- All arrays hold their lists. -/
abbrev AllGood (s : Arrays) (l : Nat → List UInt8) : Prop := ∀ k, Good (s k) (l k)

theorem allGood_update (h : AllGood s l) {k : Nat} {a : ByteArrayT} {x : List UInt8} (ha : Good a x) :
    AllGood (Function.update s k a) (Function.update l k x) := by
  intro j
  by_cases hj : j = k
  · subst hj
    rwa [Function.update_self, Function.update_self]
  · rw [Function.update_of_ne hj, Function.update_of_ne hj]
    exact h j

/-- **One call** under the condition. -/
theorem call_does (h : AllGood s l) (k : Nat) {op : Op} (hfit : op.Fits (s k)) :
    ∃ r a x, call s k op = some (r, a) ∧ Does s l k op r x ∧ Good a x := by
  cases op with
  | appendData ok v =>
    obtain ⟨a, ha, hgood⟩ := appendData_good (h k) hfit v
    exact ⟨_, a, _, ha, Or.inl ⟨rfl, rfl⟩, hgood⟩
  | appendNdata ok vs =>
    obtain ⟨a, ha, hgood⟩ := appendNdata_good (h k) hfit.1 hfit.2
    exact ⟨_, a, _, ha, Or.inl ⟨rfl, rfl⟩, hgood⟩
  | appendArray j =>
    obtain ⟨a, ha, hgood⟩ | ⟨hfull, ha⟩ := appendArray_good (h k) (h j).toHolds
    · exact ⟨_, a, _, ha, Or.inl ⟨rfl, rfl⟩, hgood⟩
    · exact ⟨_, s k, _, ha, Or.inr ⟨by decide, hfull, rfl⟩, h k⟩
  | insert ok i v =>
    by_cases hi : i < (s k).size
    · obtain ⟨a, ha, hgood⟩ := insert_good (h k) v hi (hfit hi)
      exact ⟨_, a, _, ha, Or.inl ⟨rfl, rfl⟩, hgood⟩
    · exact ⟨_, s k, _, if_neg hi, Or.inr ⟨by decide, show (l k).length ≤ i by rw [(h k).length]; omega, rfl⟩, h k⟩
  | clear => exact ⟨_, _, _, rfl, Or.inl ⟨rfl, rfl⟩, good_clear (h k)⟩

/-- **Whole runs** under the condition. -/
theorem refines_of_good (h : AllGood s l) {ops : List (Nat × Op)} (hfit : Fitting s ops) : Refines s l ops := by
  induction ops generalizing s l with
  | nil => exact fun k => (h k).toHolds
  | cons e ops ih =>
    obtain ⟨k, op⟩ := e
    obtain ⟨hop, hops⟩ := hfit
    obtain ⟨r, a, x, hcall, hdoes, hgood⟩ := call_does h k hop
    have hstep : step s k op = some (r, Function.update s k a) := by
      rw [step, hcall]
      rfl
    rw [hstep] at hops
    exact ⟨fun k => (h k).toHolds, r, _, x, hstep, hdoes, ih (allGood_update h hgood) hops⟩

end Runs

/-- New arrays, of these initial sizes. -/
def fresh (nSize : Nat → Nat) : Arrays := fun k => ByteArrayT.new (nSize k)

/-- **The byte arrays are lists**, in every run that meets the condition at every call. -/
theorem byteArray_refines (nSize : Nat → Nat) (ops : List (Nat × Op)) (hfit : Fitting (fresh nSize) ops) :
    Refines (fresh nSize) (fun _ => []) ops :=
  refines_of_good (fun k => good_new (nSize k)) hfit

/-- Two arrays of one octet that grow by all the calls. -/
def demoOps : List (Nat × Op) :=
  [(0, .appendData false 1), (0, .appendData true 2), (1, .appendNdata true [3, 4, 5]), (1, .appendArray 1),
    (0, .insert true 0 6), (0, .appendArray 0), (0, .insert false 7 7), (1, .clear)]

theorem byteArray_refines_demo : Refines (fresh fun _ => 1) (fun _ => []) demoOps :=
  byteArray_refines (fun _ => 1) demoOps (by decide)

/-- Of three hundred octets forty-four are appended. -/
theorem not_byteArray_refines : ¬ Refines (fresh fun _ => 2048) (fun _ => [])
    [(0, .appendNdata true (List.replicate 300 7))] := by
  rintro ⟨-, r, s', x, hstep, hdoes, hrest⟩
  rw [step, call, appendNdata_eq] at hstep
  obtain ⟨-, rfl⟩ := Prod.mk.inj (Option.some.inj hstep)
  obtain ⟨-, rfl⟩ | ⟨-, hinv, -⟩ := hdoes
  · have hlen := (hrest 0).length
    rw [Function.update_self, Function.update_self, size_appendNdata, Op.ref, List.nil_append,
      List.length_replicate] at hlen
    exact absurd hlen (by decide)
  · exact hinv

end Wow.Utils.ByteArrayGrowth
