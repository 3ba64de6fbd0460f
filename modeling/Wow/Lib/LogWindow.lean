import Mathlib.Tactic.Common
import Mathlib.Data.List.Basic
import Mathlib.Data.List.Induction
import Mathlib.Logic.Function.Basic
import Mathlib.Algebra.Order.Ring.Nat

/-!
# Wow.Lib.LogWindow — what a log keeps

Records with a size go one by one into groups.  A group that has grown over `cap` is closed; a fixed number of closed
groups is kept, and the oldest one goes when another is closed.

* `Window.of_spec`: after any records the groups hold the most recent ones, each group within `cap` and one record.
* `cyclic_set`, `cyclic_next`: the groups kept in the cells of a cycle.
-/

namespace Wow

/-- The closed groups, the oldest one first, and the one that grows. -/
structure Window (β : Type) where
  closed : List (List β)
  open_ : List β

namespace Window

variable {β : Type} (size : β → Nat)

/-- The size of a group. -/
def total (g : List β) : Nat := (g.map size).sum

/-- The greatest size of the records. -/
def longest (hist : List β) : Nat := (hist.map size).foldr max 0

/-- The empty groups, `n` of them closed. -/
def start (n : Nat) : Window β := ⟨List.replicate n [], []⟩

/-- A record is added. -/
def write (cap : Nat) (w : Window β) (x : β) : Window β :=
  if cap < total size (w.open_ ++ [x]) then ⟨w.closed.tail ++ [w.open_ ++ [x]], []⟩ else ⟨w.closed, w.open_ ++ [x]⟩

/-- After the records of a history. -/
def of (n cap : Nat) (hist : List β) : Window β := hist.foldl (write size cap) (start n)

/-- All that is kept, the oldest record first. -/
def records (w : Window β) : List β := w.closed.flatten ++ w.open_

variable {size} {n cap : Nat} {w : Window β} {hist : List β} {x : β}

@[simp] theorem total_nil : total size ([] : List β) = 0 := rfl

@[simp] theorem total_concat (g : List β) (x : β) : total size (g ++ [x]) = total size g + size x := by
  rw [total, List.map_append, List.sum_append, List.map_singleton, List.sum_singleton, total]

theorem of_concat : of size n cap (hist ++ [x]) = write size cap (of size n cap hist) x := by
  rw [of, List.foldl_append, List.foldl_cons, List.foldl_nil, of]

theorem le_longest_concat : longest size hist ≤ longest size (hist ++ [x]) := by
  induction hist with
  | nil => exact Nat.zero_le _
  | cons y ys ih => exact max_le_max (Nat.le_refl _) ih

theorem size_le_longest_concat : size x ≤ longest size (hist ++ [x]) := by
  induction hist with
  | nil => exact le_max_left _ _
  | cons y ys ih => exact Nat.le_trans ih (le_max_right _ _)

/-- **What is kept**: the groups in their bounds, the most recent records, and nothing gone before all groups are full. -/
structure Spec (size : β → Nat) (n cap : Nat) (hist : List β) (w : Window β) : Prop where
  length : w.closed.length = n
  open_le : total size w.open_ ≤ cap
  closed_le : ∀ g ∈ w.closed, total size g ≤ cap + longest size hist
  recent : ∃ k j full, w.closed = List.replicate j [] ++ full ∧ (∀ g ∈ full, cap < total size g) ∧
    k ≤ hist.length ∧ w.records = hist.drop k ∧ (k = 0 ∨ j = 0)

theorem spec_start : Spec size n cap [] (start n : Window β) where
  length := List.length_replicate
  open_le := Nat.zero_le _
  closed_le := by
    intro g hg
    rw [List.eq_of_mem_replicate hg]
    exact Nat.zero_le _
  recent := by
    refine ⟨0, n, [], (List.append_nil _).symm, fun g hg => absurd hg List.not_mem_nil, Nat.le_refl _, ?_, Or.inl rfl⟩
    simp [records, start]

/-- A record that leaves its group open. -/
theorem Spec.grow (h : Spec size n cap hist w) (hle : total size (w.open_ ++ [x]) ≤ cap) :
    Spec size n cap (hist ++ [x]) ⟨w.closed, w.open_ ++ [x]⟩ where
  length := h.length
  open_le := hle
  closed_le := by
    intro g hg
    exact Nat.le_trans (h.closed_le g hg) (Nat.add_le_add_left le_longest_concat _)
  recent := by
    obtain ⟨k, j, full, hclosed, hfull, hk, hrec, hkj⟩ := h.recent
    refine ⟨k, j, full, hclosed, hfull, ?_, ?_, hkj⟩
    · rw [List.length_append]
      omega
    · rw [List.drop_append_of_le_length hk, ← hrec, records, records, List.append_assoc]

/-- A record that closes its group. -/
theorem Spec.close (h : Spec size n cap hist w) (hn : 0 < n) (hlt : cap < total size (w.open_ ++ [x])) :
    Spec size n cap (hist ++ [x]) ⟨w.closed.tail ++ [w.open_ ++ [x]], []⟩ where
  length := by
    rw [List.length_append, List.length_tail, h.length, List.length_singleton]
    omega
  open_le := Nat.zero_le _
  closed_le := by
    intro g hg
    rcases List.mem_append.mp hg with hold | hnew
    · exact Nat.le_trans (h.closed_le g (List.mem_of_mem_tail hold)) (Nat.add_le_add_left le_longest_concat _)
    · rw [List.mem_singleton.mp hnew, total_concat]
      exact Nat.add_le_add h.open_le size_le_longest_concat
  recent := by
    obtain ⟨k, j, full, hclosed, hfull, hk, hrec, hkj⟩ := h.recent
    have hfull' : ∀ gs : List (List β), (∀ g ∈ gs, cap < total size g) →
        ∀ g ∈ gs ++ [w.open_ ++ [x]], cap < total size g := by
      intro gs hgs g hg
      rcases List.mem_append.mp hg with hold | hnew
      · exact hgs g hold
      · rwa [List.mem_singleton.mp hnew]
    rw [records, hclosed] at hrec
    rcases j with - | j
    · -- the oldest group is full, and its records go
      rw [List.replicate_zero, List.nil_append] at hclosed hrec
      rcases full with - | ⟨g, full⟩
      · exact absurd (h.length.symm.trans (congrArg List.length hclosed)) (Nat.ne_of_gt hn)
      · rw [List.flatten_cons, List.append_assoc] at hrec
        have hlen := congrArg List.length hrec
        rw [List.length_append, List.length_drop] at hlen
        refine ⟨k + g.length, 0, full ++ [w.open_ ++ [x]], ?_, ?_, ?_, ?_, Or.inr rfl⟩
        · rw [hclosed]
          rfl
        · exact hfull' full fun g' hg' => hfull g' (List.mem_cons_of_mem _ hg')
        · rw [List.length_append]
          omega
        · rw [List.drop_append_of_le_length (by omega), ← List.drop_drop, ← hrec, List.drop_left, records, hclosed]
          simp only [List.tail_cons, List.flatten_append, List.flatten_singleton, List.append_nil, List.append_assoc]
    · -- the oldest group is still empty
      refine ⟨k, j, full ++ [w.open_ ++ [x]], ?_, hfull' full hfull, ?_, ?_, ?_⟩
      · rw [hclosed, List.replicate_succ, List.cons_append, List.tail_cons, List.append_assoc]
      · rw [List.length_append]
        omega
      · rw [List.drop_append_of_le_length hk, ← hrec, records, hclosed, List.replicate_succ]
        simp only [List.cons_append, List.tail_cons, List.flatten_append, List.flatten_cons, List.nil_append,
          List.append_nil, List.append_assoc]
        rfl
      · exact Or.inl (hkj.resolve_right (Nat.succ_ne_zero j))

/-- **One record.** -/
theorem Spec.write (h : Spec size n cap hist w) (hn : 0 < n) : Spec size n cap (hist ++ [x]) (write size cap w x) := by
  rw [Window.write]
  by_cases hlt : cap < total size (w.open_ ++ [x])
  · rw [if_pos hlt]
    exact h.close hn hlt
  · rw [if_neg hlt]
    exact h.grow (Nat.le_of_not_lt hlt)

/-- **After any records.** -/
theorem of_spec (hn : 0 < n) (hist : List β) : Spec size n cap hist (of size n cap hist) := by
  induction hist using List.reverseRecOn with
  | nil => exact spec_start
  | append_singleton hist x ih =>
    rw [of_concat]
    exact ih.write hn

/-- When records have gone, the kept ones fill the closed groups. -/
theorem Spec.kept (h : Spec size n cap hist w) :
    ∃ k, w.records = hist.drop k ∧ (k = 0 ∨ n * cap ≤ total size w.records) := by
  obtain ⟨k, j, full, hclosed, hfull, -, hrec, hkj⟩ := h.recent
  refine ⟨k, hrec, hkj.imp id ?_⟩
  rintro rfl
  have hsum : ∀ gs : List (List β), (∀ g ∈ gs, cap < total size g) → gs.length * cap ≤ total size gs.flatten := by
    intro gs hgs
    induction gs with
    | nil => exact Nat.zero_mul _ ▸ Nat.zero_le _
    | cons g gs ih =>
      have hg := hgs g (List.mem_cons_self ..)
      have hrest := ih fun g' h' => hgs g' (List.mem_cons_of_mem _ h')
      rw [List.flatten_cons, List.length_cons, Nat.succ_mul, total, List.map_append, List.sum_append]
      rw [total] at hg hrest
      omega
  have hn : full.length = n := by
    rw [← h.length, hclosed, List.replicate_zero, List.nil_append]
  have hle := hsum full hfull
  rw [records, hclosed, List.replicate_zero, List.nil_append, total, List.map_append, List.sum_append]
  rw [total, hn] at hle
  omega

end Window

/-! ### Cycles of cells -/

/-- The cells of a cycle of `n`, from the one behind `c` round to `c`. -/
def cyclic {α : Type} (n c : Nat) (f : Nat → α) : List α := (List.range n).map fun i => f ((c + 1 + i) % n)

section Cyclic

variable {α : Type} {n c : Nat}

@[simp] theorem length_cyclic (f : Nat → α) : (cyclic n c f).length = n := by
  rw [cyclic, List.length_map, List.length_range]

theorem getElem_cyclic (f : Nat → α) {i : Nat} (hi : i < (cyclic n c f).length) :
    (cyclic n c f)[i] = f ((c + 1 + i) % n) := by
  simp only [cyclic, List.getElem_map, List.getElem_range]

/-- The last cell is `c`. -/
theorem cyclic_mod (hc : c < n) {i : Nat} (hi : i < n) : (c + 1 + i) % n = c ↔ i = n - 1 := by
  rw [Nat.mod_eq_iff]
  constructor
  · rintro (⟨h, -⟩ | ⟨-, k, hk⟩)
    · omega
    · rcases k with - | - | k
      · omega
      · omega
      · rw [Nat.mul_succ, Nat.mul_succ] at hk
        omega
  · rintro rfl
    exact Or.inr ⟨hc, 1, by omega⟩

/-- **The last cell is set.** -/
theorem cyclic_set (hc : c < n) (f : Nat → α) (v : α) :
    cyclic n c (Function.update f c v) = (cyclic n c f).dropLast ++ [v] := by
  refine List.ext_getElem (by simp; omega) fun i hi hi' => ?_
  rw [length_cyclic] at hi
  rw [getElem_cyclic]
  by_cases hlast : i = n - 1
  · rw [(cyclic_mod hc hi).mpr hlast, Function.update_self, List.getElem_append_right (by simp; omega)]
    simp [hlast]
  · rw [Function.update_of_ne (mt (cyclic_mod hc hi).mp hlast), List.getElem_append_left (by simp; omega),
      List.getElem_dropLast, getElem_cyclic]

/-- **The cycle goes on** to its next cell, which is set. -/
theorem cyclic_next (hc : c < n) (f : Nat → α) (v : α) :
    cyclic n ((c + 1) % n) (Function.update f ((c + 1) % n) v) = (cyclic n c f).tail ++ [v] := by
  have hnext : (c + 1) % n < n := Nat.mod_lt _ (by omega)
  rw [cyclic_set hnext]
  refine congrArg (· ++ [v]) (List.ext_getElem (by simp) fun i hi hi' => ?_)
  rw [List.getElem_dropLast, List.getElem_tail, getElem_cyclic, getElem_cyclic]
  rw [show (c + 1) % n + 1 + i = (c + 1) % n + (1 + i) by omega, Nat.mod_add_mod]
  congr 2
  omega

/-- Where all cells are the same, every cycle is. -/
theorem cyclic_const (f : Nat → α) {v : α} (h : ∀ i < n, f i = v) : cyclic n c f = List.replicate n v := by
  refine List.eq_replicate_iff.mpr ⟨length_cyclic f, fun b hb => ?_⟩
  obtain ⟨i, hi, rfl⟩ := List.mem_map.mp hb
  exact h _ (Nat.mod_lt _ (Nat.zero_lt_of_lt (List.mem_range.mp hi)))

end Cyclic

end Wow
