import Mathlib.Data.Set.Lattice
import Mathlib.Order.CompletePartialOrder

/-!
# Wow.Lib.Bloom — Bloom filters as sets of bits

Every element has a set of bits.  To add an element sets its bits, and it is present where they are all set.

* `present_run`: no false negatives: what has been added since the last clear is present, whatever else was added.
* `present_remove_iff`: a removal leaves another element present where the two share no bit.
-/

namespace Wow

namespace Bloom

variable {α ι : Type} (idx : α → Set ι)

/-- All the bits of the element are set. -/
def Present (S : Set ι) (x : α) : Prop := idx x ⊆ S

/-- What happens to a filter. -/
inductive Op (α : Type) where
  | add (x : α)
  | remove (x : α)
  | clear

def step (S : Set ι) : Op α → Set ι
  | .add x => S ∪ idx x
  | .remove x => S \ idx x
  | .clear => ∅

def run (S : Set ι) (ops : List (Op α)) : Set ι := ops.foldl (step idx) S

/-- What has been added since the last clear, with what counts as added before. -/
def added : List α → List (Op α) → List α
  | xs, [] => xs
  | xs, .add x :: ops => added (xs ++ [x]) ops
  | xs, .remove _ :: ops => added xs ops
  | _, .clear :: ops => added [] ops

/-- Nothing is removed. -/
def NoRemoval (ops : List (Op α)) : Prop := ∀ x, Op.remove x ∉ ops

/-- The element that is added is present. -/
theorem present_add (S : Set ι) (x : α) : Present idx (S ∪ idx x) x := Set.subset_union_right

/-- What is present stays present when another element is added. -/
theorem present_mono {S T : Set ι} {x : α} (h : S ⊆ T) (hx : Present idx S x) : Present idx T x := hx.trans h

/-- **No false negatives.** -/
theorem present_run {S : Set ι} {xs : List α} (h : ∀ x ∈ xs, Present idx S x) {ops : List (Op α)}
    (hops : NoRemoval ops) : ∀ x ∈ added xs ops, Present idx (run idx S ops) x := by
  induction ops generalizing S xs with
  | nil => exact h
  | cons op ops ih =>
    have hrest : NoRemoval ops := fun x hx => hops x (List.mem_cons_of_mem op hx)
    cases op with
    | add y =>
      refine ih (fun x hx => ?_) hrest
      rcases List.mem_append.mp hx with hx | hx
      · exact present_mono idx Set.subset_union_left (h x hx)
      · rw [List.mem_singleton.mp hx]
        exact present_add idx S y
    | remove y => exact absurd List.mem_cons_self (hops y)
    | clear => exact ih (List.forall_mem_nil _) hrest

/-- **A removal** leaves the elements that share no bit with the one removed. -/
theorem present_remove_iff {S : Set ι} {x y : α} (hy : Present idx S y) :
    Present idx (S \ idx x) y ↔ Disjoint (idx y) (idx x) := by
  rw [Present, Set.subset_sdiff]
  exact and_iff_right hy

end Bloom

end Wow
