import Mathlib.Data.List.Induction
import Wow.Lib.Block

/-!
# Wow.Lib.Parts — numbers and their parts, arrays and their octets

A number of `w` bits is cut into parts of `u` bits, one for each shift of a list: `split`, and `join` for the way back.
An array of numbers is cut by a loop over its elements, and put together by one over the groups of parts.

* `join_split`, `split_join`: the shifts of a `Layout` lose nothing.
* `setLoop_eq`, `getLoop_eq`: what the loops leave, and what they keep.
* `exists_groups`: an array cut into groups of one length.
-/

namespace Wow

namespace Parts

variable {w u : Nat} {shifts : List Nat}

/-! ### Numbers -/

/-- The parts of a number. -/
def split (u : Nat) (shifts : List Nat) (x : BitVec w) : List (BitVec u) := shifts.map fun s => (x >>> s).setWidth u

/-- The number of some parts. -/
def join (w : Nat) : List Nat → List (BitVec u) → BitVec w
  | s :: shifts, p :: ps => (p.setWidth w <<< s) ||| join w shifts ps
  | _, _ => 0

/-- The parts lie in the number, do not overlap and leave no bit out. -/
structure Layout (w u : Nat) (shifts : List Nat) : Prop where
  covers : ∀ n < w, ∃ s ∈ shifts, s ≤ n ∧ n < s + u
  fits : ∀ s ∈ shifts, s + u ≤ w
  apart : shifts.Pairwise fun s t => s + u ≤ t ∨ t + u ≤ s

@[simp] theorem length_split (x : BitVec w) : (split u shifts x).length = shifts.length := List.length_map _

/-- A bit of the number is a bit of a part. -/
theorem getLsbD_join {ps : List (BitVec u)} {n : Nat} (hn : n < w) :
    (join w shifts ps).getLsbD n = true ↔ ∃ sp ∈ shifts.zip ps, sp.1 ≤ n ∧ sp.2.getLsbD (n - sp.1) = true := by
  induction shifts generalizing ps with
  | nil => simp [join]
  | cons s shifts ih =>
    cases ps with
    | nil => simp [join]
    | cons p ps =>
      rw [join, BitVec.getLsbD_or, Bool.or_eq_true, ih, List.zip_cons_cons]
      simp [hn]

/-- **The parts give the number.** -/
theorem join_split (h : Layout w u shifts) (x : BitVec w) : join w shifts (split u shifts x) = x := by
  have hzip : shifts.zip (split u shifts x) = shifts.map fun s => (s, (x >>> s).setWidth u) := by
    have hmap := List.zip_map' (f := id) (g := fun s => (x >>> s).setWidth u) (l := shifts)
    rwa [List.map_id] at hmap
  refine BitVec.eq_of_getLsbD_eq fun n hn => Bool.eq_iff_iff.mpr ?_
  rw [getLsbD_join hn, hzip]
  constructor
  · rintro ⟨sp, hmem, hle, hbit⟩
    obtain ⟨s, -, rfl⟩ := List.mem_map.mp hmem
    rw [BitVec.getLsbD_setWidth, BitVec.getLsbD_ushiftRight, Bool.and_eq_true, Nat.add_sub_cancel' hle] at hbit
    exact hbit.2
  · intro hbit
    obtain ⟨s, hs, hle, hlt⟩ := h.covers n hn
    refine ⟨_, List.mem_map.mpr ⟨s, hs, rfl⟩, hle, ?_⟩
    rw [BitVec.getLsbD_setWidth, BitVec.getLsbD_ushiftRight, Nat.add_sub_cancel' hle, hbit, Bool.and_true,
      decide_eq_true_iff]
    dsimp only
    omega

/-- **The number gives the parts.** -/
theorem split_join (h : Layout w u shifts) {ps : List (BitVec u)} (hlen : ps.length = shifts.length) :
    split u shifts (join w shifts ps) = ps := by
  refine List.ext_getElem (by rw [length_split, hlen]) fun i hi hi' => ?_
  have hi'' : i < shifts.length := hlen ▸ hi'
  have hfits := h.fits _ (List.getElem_mem hi'')
  refine BitVec.eq_of_getLsbD_eq fun m hm => Bool.eq_iff_iff.mpr ?_
  have hbit : ((split u shifts (join w shifts ps))[i]).getLsbD m = (join w shifts ps).getLsbD (shifts[i] + m) := by
    simp only [split, List.getElem_map, BitVec.getLsbD_setWidth, BitVec.getLsbD_ushiftRight, decide_eq_true hm,
      Bool.true_and]
  rw [hbit, getLsbD_join (by omega)]
  constructor
  · rintro ⟨sp, hmem, hle, hset⟩
    obtain ⟨j, hj, rfl⟩ := List.getElem_of_mem hmem
    rw [List.length_zip, Nat.lt_min] at hj
    rw [List.getElem_zip] at hle hset
    dsimp only at hle hset
    -- the bits of another part are elsewhere
    have hlt : shifts[i] + m - shifts[j] < u := by
      by_contra hge
      rw [BitVec.getLsbD_of_ge _ _ (Nat.le_of_not_lt hge)] at hset
      cases hset
    obtain rfl : j = i := by
      by_contra hne
      rcases Nat.lt_or_gt_of_ne hne with hji | hij
      · have := List.pairwise_iff_getElem.mp h.apart j i hj.1 hi'' hji
        omega
      · have := List.pairwise_iff_getElem.mp h.apart i j hi'' hj.1 hij
        omega
    rwa [Nat.add_sub_cancel_left] at hset
  · intro hset
    have hzip : i < (shifts.zip ps).length := by
      rw [List.length_zip]
      omega
    refine ⟨_, List.getElem_mem hzip, ?_⟩
    rw [List.getElem_zip]
    exact ⟨Nat.le_add_right _ _, by rwa [Nat.add_sub_cancel_left]⟩

/-! ### Arrays -/

variable {α β : Type}

open Block

/-- The loop over the elements: the parts of element `i` go to the places from `k * i`. -/
def setLoop (set : α → List β) (k : Nat) (src : List α) : Nat → List β → Option (List β)
  | 0, dst => some dst
  | n + 1, dst => do
    let dst ← setLoop set k src n dst
    let x ← src[n]?
    store dst (k * n) (set x)

/-- The loop over the groups of `k` parts: that from `k * i` gives element `i`. -/
def getLoop (get : List α → β) (k : Nat) (src : List α) : Nat → List β → Option (List β)
  | 0, dst => some dst
  | n + 1, dst => do
    let dst ← getLoop get k src n dst
    let xs ← load src (k * n) k
    store dst n [get xs]

theorem length_flatten {k : Nat} {gs : List (List α)} (h : ∀ g ∈ gs, g.length = k) :
    gs.flatten.length = k * gs.length := by
  induction gs with
  | nil => rfl
  | cons g gs ih =>
    rw [List.flatten_cons, List.length_append, h g List.mem_cons_self, ih fun g' hg' => h g' (List.mem_cons_of_mem g hg'),
      List.length_cons, Nat.mul_succ, Nat.add_comm]

theorem length_flatMap {set : α → List β} {k : Nat} (hset : ∀ x, (set x).length = k) (xs : List α) :
    (xs.flatMap set).length = k * xs.length := by
  have hparts : ∀ g ∈ xs.map set, g.length = k := by
    intro g hg
    obtain ⟨x, -, rfl⟩ := List.mem_map.mp hg
    exact hset x
  have hlen := length_flatten hparts
  rwa [List.length_map] at hlen

/-- **The parts of the elements**, in front of what is behind them. -/
theorem setLoop_eq {set : α → List β} {k : Nat} (hset : ∀ x, (set x).length = k) (rest : List α) (tail : List β)
    (xs : List α) {old : List β} (hold : old.length = k * xs.length) :
    setLoop set k (xs ++ rest) xs.length (old ++ tail) = some (xs.flatMap set ++ tail) := by
  induction xs using List.reverseRecOn generalizing rest old tail with
  | nil =>
    rw [List.length_nil, Nat.mul_zero, List.length_eq_zero_iff] at hold
    rw [hold]
    rfl
  | append_singleton xs x ih =>
    rw [List.length_append, List.length_singleton, Nat.mul_succ] at hold
    obtain ⟨old, part, rfl, hold', hpart⟩ := exists_cut (show k * xs.length ≤ old.length by omega)
    have hx : (xs ++ ([x] ++ rest))[xs.length]? = some x := by
      rw [List.getElem?_append_right (Nat.le_refl _), Nat.sub_self]
      rfl
    have hstore : store (xs.flatMap set ++ (part ++ tail)) (k * xs.length) (set x) =
        some (xs.flatMap set ++ set x ++ tail) := by
      refine store_eq (List.append_assoc _ _ _).symm (length_flatMap hset xs).symm ?_
      rw [hset]
      omega
    rw [List.length_append, List.length_singleton, setLoop, List.append_assoc xs, List.append_assoc old,
      ih _ _ hold', Option.bind_eq_bind, Option.bind_some, hx, Option.bind_eq_bind, Option.bind_some, hstore,
      List.flatMap_append, List.flatMap_singleton]

/-- **The elements of the groups**, in front of what is behind them. -/
theorem getLoop_eq (get : List α → β) {k : Nat} (rest : List α) (tail : List β) {gs : List (List α)}
    (hgs : ∀ g ∈ gs, g.length = k) {old : List β} (hold : old.length = gs.length) :
    getLoop get k (gs.flatten ++ rest) gs.length (old ++ tail) = some (gs.map get ++ tail) := by
  induction gs using List.reverseRecOn generalizing rest old tail with
  | nil =>
    rw [List.length_nil, List.length_eq_zero_iff] at hold
    rw [hold]
    rfl
  | append_singleton gs g ih =>
    rw [List.length_append, List.length_singleton] at hold
    obtain ⟨old, last, rfl, hold', hlast⟩ := exists_cut (show gs.length ≤ old.length by omega)
    have hgs' : ∀ g' ∈ gs, g'.length = k := fun g' hg' => hgs g' (List.mem_append_left _ hg')
    have hg : g.length = k := hgs g (List.mem_append_right _ List.mem_cons_self)
    have hload : load (gs.flatten ++ (g ++ rest)) (k * gs.length) k = some g :=
      load_eq (List.append_assoc _ _ _).symm (length_flatten hgs').symm hg.symm
    have hstore : store (gs.map get ++ (last ++ tail)) gs.length [get g] = some (gs.map get ++ [get g] ++ tail) := by
      refine store_eq (List.append_assoc _ _ _).symm (List.length_map _).symm ?_
      rw [List.length_singleton]
      omega
    rw [List.length_append, List.length_singleton, getLoop, List.flatten_append, List.flatten_singleton,
      List.append_assoc gs.flatten, List.append_assoc old, ih _ _ hgs' hold', Option.bind_eq_bind, Option.bind_some,
      hload, Option.bind_eq_bind, Option.bind_some, hstore, List.map_append, List.map_singleton]

/-- **The groups of an array.** -/
theorem exists_groups {k n : Nat} {xs : List α} (h : xs.length = k * n) :
    ∃ gs : List (List α), xs = gs.flatten ∧ gs.length = n ∧ ∀ g ∈ gs, g.length = k := by
  induction n generalizing xs with
  | zero => exact ⟨[], List.eq_nil_of_length_eq_zero h, rfl, fun g hg => by cases hg⟩
  | succ n ih =>
    obtain ⟨g, rest, rfl, hg, hrest⟩ := exists_cut (show k ≤ xs.length by rw [h, Nat.mul_succ]; omega)
    have hrest' : rest.length = k * n := by
      rw [hrest, h, Nat.mul_succ]
      omega
    obtain ⟨gs, rfl, hlen, hgs⟩ := ih hrest'
    refine ⟨g :: gs, rfl, by rw [List.length_cons, hlen], fun g' hg' => ?_⟩
    rcases List.mem_cons.mp hg' with rfl | hg'
    · exact hg
    · exact hgs g' hg'

end Parts

end Wow
