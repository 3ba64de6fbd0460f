import Mathlib.Tactic.Common
import Mathlib.Data.List.Basic

/-!
# Wow.Lib.Block — blocks of memory with a fixed size

A block is the list of its cells.  `load` and `store` are a read and a write of neighbouring cells, `none` where they
leave the block; `copy` is a `memcpy` between two blocks.

* `load_append`, `store_append`: the cells cut into what lies in front, what is meant and what lies behind.
* `getElem?_next`, `store_next`: the cell in front of which a loop stands.
* `length_store`: a write keeps the size.
-/

namespace Wow

namespace Block

variable {α : Type}

/-- The `n` cells from `p`. -/
def load (b : List α) (p n : Nat) : Option (List α) :=
  if p + n ≤ b.length then some ((b.drop p).take n) else none

/-- The cells from `p` are set to `xs`. -/
def store (b : List α) (p : Nat) (xs : List α) : Option (List α) :=
  if p + xs.length ≤ b.length then some (b.take p ++ xs ++ b.drop (p + xs.length)) else none

/-- `memcpy` of `n` cells. -/
def copy (dst : List α) (d : Nat) (src : List α) (s n : Nat) : Option (List α) :=
  (load src s n).bind fun xs => store dst d xs

/-- The cells in front of a place and behind it. -/
theorem exists_cut {b : List α} {n : Nat} (h : n ≤ b.length) :
    ∃ x y, b = x ++ y ∧ x.length = n ∧ y.length = b.length - n :=
  ⟨b.take n, b.drop n, (List.take_append_drop n b).symm, List.length_take_of_le h, List.length_drop⟩

/-- Two cuts of the same cells: what lies between them. -/
theorem exists_between {a b x y : List α} (h : a ++ b = x ++ y) (hle : a.length ≤ x.length) :
    ∃ z, x = a ++ z ∧ b = z ++ y := by
  obtain ⟨z, rfl⟩ := List.prefix_of_prefix_length_le (List.prefix_append a b) (h ▸ List.prefix_append x y) hle
  rw [List.append_assoc] at h
  exact ⟨z, rfl, List.append_cancel_left h⟩

/-- **A read** of the middle part. -/
theorem load_append (a xs c : List α) : load (a ++ xs ++ c) a.length xs.length = some xs := by
  rw [load, if_pos (by simp), List.append_assoc, List.drop_left, List.take_left]

/-- **A write** of the middle part. -/
theorem store_append (a old c : List α) {xs : List α} (h : xs.length = old.length) :
    store (a ++ old ++ c) a.length xs = some (a ++ xs ++ c) := by
  rw [store, if_pos (by simp [h]), h, ← List.length_append, List.drop_left, List.append_assoc a, List.take_left]

theorem load_eq {b a xs c : List α} {p n : Nat} (hb : b = a ++ xs ++ c) (hp : p = a.length) (hn : n = xs.length) :
    load b p n = some xs := by
  rw [hb, hp, hn, load_append]

theorem store_eq {b a old xs c : List α} {p : Nat} (hb : b = a ++ old ++ c) (hp : p = a.length)
    (hn : xs.length = old.length) : store b p xs = some (a ++ xs ++ c) := by
  rw [hb, hp, store_append a old c hn]

section Next

variable {done : List α} {i : Nat}

/-- The cell that a loop comes to. -/
theorem getElem?_next (hdone : done.length = i) (x : α) (rest : List α) : (done ++ x :: rest)[i]? = some x := by
  rw [← hdone, List.getElem?_append_right (Nat.le_refl _), Nat.sub_self]
  rfl

/-- A write of the cell that a loop comes to. -/
theorem store_next (hdone : done.length = i) (o x : α) (rest : List α) :
    store (done ++ o :: rest) i [x] = some (done ++ x :: rest) := by
  have hstore : store (done ++ [o] ++ rest) done.length [x] = some (done ++ [x] ++ rest) :=
    store_append done [o] rest rfl
  rwa [hdone, List.append_assoc, List.append_assoc] at hstore

end Next

/-- There is a cell where the loop goes on. -/
theorem exists_room {rest : List α} {n : Nat} (h : n + 1 ≤ rest.length) :
    ∃ o rest', rest = o :: rest' ∧ n ≤ rest'.length := by
  obtain ⟨o, rest', rfl⟩ := List.exists_cons_of_length_pos (show 0 < rest.length by omega)
  exact ⟨o, rest', rfl, Nat.le_of_succ_le_succ h⟩

/-- **A copy** between the middle parts of two blocks. -/
theorem copy_eq {dst a o c src x y xs : List α} {d s n : Nat} (hd : dst = a ++ o ++ c) (hda : d = a.length)
    (hs : src = x ++ xs ++ y) (hsa : s = x.length) (hn : n = xs.length) (hold : xs.length = o.length) :
    copy dst d src s n = some (a ++ xs ++ c) := by
  rw [copy, load_eq hs hsa hn, Option.bind_some, store_eq hd hda hold]

theorem length_store {b b' : List α} {p : Nat} {xs : List α} (h : store b p xs = some b') : b'.length = b.length := by
  rw [store] at h
  split at h
  · obtain rfl := Option.some_inj.mp h
    simp only [List.length_append, List.length_take, List.length_drop]
    omega
  · cases h

end Block

end Wow
