import Mathlib.Algebra.Order.Ring.Nat
import Mathlib.Data.Finset.Card
import Mathlib.Tactic.Common

/-!
# Wow.Lib.Cells — a heap of cells, and chains in it

`Cells β` are the live cells of one type, by address.  A read, a write or a release at an address that is not live
has no result (`none`).  `calloc` is told where the allocator would put the new cell: at a free address, or
nowhere.  `made` counts the allocations, so it bounds every list of different live addresses (`Sized.length_le`):
a walk that takes more steps has met a cell twice.

* `Seg h p L q`: following `next` from `p` one meets the cells of `L`, and then `q`.
* `seg_append`, `Seg.set`, `Seg.erase`: chains are cut where the list is cut, and keep what other cells do.
* `advance_of_seg`, `seek_of_seg`, `seek_of_forall`: the two walks over a chain, by number and by content.
-/

namespace Wow

/-- The live cells, and how many were ever allocated. -/
structure Cells (β : Type) where
  cell : Nat → Option β
  made : Nat

namespace Cells

variable {β : Type}

/-- No cell is live. -/
def empty : Cells β := ⟨fun _ => none, 0⟩

def set (h : Cells β) (a : Nat) (c : β) : Cells β := { h with cell := Function.update h.cell a (some c) }

def erase (h : Cells β) (a : Nat) : Cells β := { h with cell := Function.update h.cell a none }

/-- A write through a pointer. -/
def write (h : Cells β) (a : Nat) (c : β) : Option (Cells β) := (h.cell a).map fun _ => h.set a c

/-- A release. -/
def free (h : Cells β) (a : Nat) : Option (Cells β) := (h.cell a).map fun _ => h.erase a

/-- The allocator puts a new cell at `at?`, unless this address is in use. -/
def calloc (h : Cells β) (at? : Option Nat) (c : β) : Option (Nat × Cells β) :=
  (at?.filter fun a => (h.cell a).isNone).map fun a => (a, { h.set a c with made := h.made + 1 })

@[simp] theorem cell_set_self (h : Cells β) (a : Nat) (c : β) : (h.set a c).cell a = some c := by
  simp [set]

@[simp] theorem cell_set_of_ne {a b : Nat} (hab : b ≠ a) (h : Cells β) (c : β) : (h.set a c).cell b = h.cell b :=
  Function.update_of_ne hab _ _

@[simp] theorem cell_erase_self (h : Cells β) (a : Nat) : (h.erase a).cell a = none := by
  simp [erase]

@[simp] theorem cell_erase_of_ne {a b : Nat} (hab : b ≠ a) (h : Cells β) : (h.erase a).cell b = h.cell b :=
  Function.update_of_ne hab _ _

theorem write_of_cell {h : Cells β} {a : Nat} {b : β} (hb : h.cell a = some b) (c : β) :
    h.write a c = some (h.set a c) := by
  rw [write, hb, Option.map_some]

theorem free_of_cell {h : Cells β} {a : Nat} {b : β} (hb : h.cell a = some b) : h.free a = some (h.erase a) := by
  rw [free, hb, Option.map_some]

/-- An allocation takes an address that was free. -/
theorem of_calloc {h h' : Cells β} {at? : Option Nat} {c : β} {a : Nat} (hc : h.calloc at? c = some (a, h')) :
    h.cell a = none ∧ h' = { h.set a c with made := h.made + 1 } := by
  obtain ⟨b, hb, hp⟩ := Option.map_eq_some_iff.mp hc
  obtain ⟨-, hfree⟩ := Option.filter_eq_some_iff.mp hb
  obtain ⟨rfl, rfl⟩ := Prod.mk.injEq .. ▸ hp
  exact ⟨Option.isNone_iff_eq_none.mp hfree, rfl⟩

/-- The new cell is there. -/
theorem cell_of_calloc {h h' : Cells β} {at? : Option Nat} {c : β} {a : Nat} (hc : h.calloc at? c = some (a, h')) :
    h'.cell a = some c := by
  obtain ⟨-, rfl⟩ := of_calloc hc
  exact cell_set_self h a c

/-- The allocator can take every free address. -/
theorem calloc_of_free {h : Cells β} {a : Nat} (ha : h.cell a = none) (c : β) :
    h.calloc (some a) c = some (a, { h.set a c with made := h.made + 1 }) := by
  rw [calloc, Option.filter_some, ha]
  rfl

/-- What the allocator refuses, it refuses whatever the cell. -/
theorem calloc_eq_none {h : Cells β} {at? : Option Nat} {c : β} (hc : h.calloc at? c = none) (c' : β) :
    h.calloc at? c' = none := by
  rw [calloc, Option.map_eq_none_iff] at hc ⊢
  exact hc

/-! ### How many cells there are -/

/-- The live cells are no more than were made. -/
def Sized (h : Cells β) : Prop := ∃ s : Finset Nat, (∀ a, h.cell a ≠ none → a ∈ s) ∧ s.card ≤ h.made

theorem sized_empty : (empty : Cells β).Sized := ⟨∅, fun _ h => absurd rfl h, Nat.le_refl 0⟩

/-- Writing to a live cell makes none. -/
theorem Sized.set {h : Cells β} {a : Nat} {b : β} (hs : h.Sized) (hb : h.cell a = some b) (c : β) :
    (h.set a c).Sized := by
  obtain ⟨s, hmem, hcard⟩ := hs
  refine ⟨s, fun x hx => ?_, hcard⟩
  by_cases hxa : x = a
  · exact hmem x (by rw [hxa, hb]; exact Option.some_ne_none b)
  · exact hmem x (by rwa [cell_set_of_ne hxa] at hx)

theorem Sized.erase {h : Cells β} (hs : h.Sized) (a : Nat) : (h.erase a).Sized := by
  obtain ⟨s, hmem, hcard⟩ := hs
  refine ⟨s, fun x hx => hmem x ?_, hcard⟩
  by_cases hxa : x = a
  · rw [hxa, cell_erase_self] at hx
    exact absurd rfl hx
  · rwa [cell_erase_of_ne hxa] at hx

theorem Sized.calloc {h h' : Cells β} {at? : Option Nat} {c : β} {a : Nat} (hs : h.Sized)
    (hc : h.calloc at? c = some (a, h')) : h'.Sized := by
  obtain ⟨-, rfl⟩ := of_calloc hc
  obtain ⟨s, hmem, hcard⟩ := hs
  refine ⟨insert a s, fun x hx => ?_, ?_⟩
  · by_cases hxa : x = a
    · exact hxa ▸ Finset.mem_insert_self a s
    · exact Finset.mem_insert_of_mem (hmem x (by rwa [show _ = h.cell x from cell_set_of_ne hxa h c] at hx))
  · exact (Finset.card_insert_le a s).trans (Nat.succ_le_succ hcard)

/-- **Different live addresses** are no more than were made. -/
theorem Sized.length_le {h : Cells β} (hs : h.Sized) {l : List Nat} (hnd : l.Nodup)
    (hl : ∀ a ∈ l, h.cell a ≠ none) : l.length ≤ h.made := by
  obtain ⟨s, hmem, hcard⟩ := hs
  rw [← List.toFinset_card_of_nodup hnd]
  exact (Finset.card_le_card fun a ha => hmem a (hl a (List.mem_toFinset.mp ha))).trans hcard

end Cells

/-! ### Chains -/

/-- A cell of a singly linked list. -/
structure Node (α : Type) where
  data : α
  next : Option Nat

variable {α : Type} {h : Cells (Node α)} {p q : Option Nat} {L L₁ L₂ : List (Nat × α)} {a : Nat} {x : α}

/-- The cells from the pointer `p` to the pointer `q`: their addresses and their data. -/
def Seg (h : Cells (Node α)) : Option Nat → List (Nat × α) → Option Nat → Prop
  | p, [], q => p = q
  | p, (a, x) :: L, q => p = some a ∧ ∃ n, h.cell a = some ⟨x, n⟩ ∧ Seg h n L q

theorem seg_append : Seg h p (L₁ ++ L₂) q ↔ ∃ r, Seg h p L₁ r ∧ Seg h r L₂ q := by
  induction L₁ generalizing p with
  | nil => exact ⟨fun hs => ⟨p, rfl, hs⟩, fun ⟨r, hr, hs⟩ => hr ▸ hs⟩
  | cons c L₁ ih =>
    constructor
    · rintro ⟨hp, n, hc, hs⟩
      obtain ⟨r, hr, hs⟩ := ih.mp hs
      exact ⟨r, ⟨hp, n, hc, hr⟩, hs⟩
    · rintro ⟨r, ⟨hp, n, hc, hr⟩, hs⟩
      exact ⟨hp, n, hc, ih.mpr ⟨r, hr, hs⟩⟩

/-- Every cell of a chain is live. -/
theorem Seg.live (hs : Seg h p L q) : ∀ b ∈ L.map Prod.fst, h.cell b ≠ none := by
  induction L generalizing p with
  | nil => exact fun b hb => by cases hb
  | cons c L ih =>
    obtain ⟨-, n, hc, hs⟩ := hs
    intro b hb
    rcases List.mem_cons.mp hb with rfl | hb
    · rw [hc]
      exact Option.some_ne_none _
    · exact ih hs b hb

/-- Chains in two heaps that agree on the chain. -/
theorem Seg.congr {h' : Cells (Node α)} (hs : Seg h p L q) (hh : ∀ b ∈ L.map Prod.fst, h'.cell b = h.cell b) :
    Seg h' p L q := by
  induction L generalizing p with
  | nil => exact hs
  | cons c L ih =>
    obtain ⟨hp, n, hc, hs⟩ := hs
    refine ⟨hp, n, ?_, ih hs fun b hb => hh b (List.mem_cons_of_mem _ hb)⟩
    rw [hh c.1 List.mem_cons_self, hc]

theorem Seg.set (hs : Seg h p L q) (ha : a ∉ L.map Prod.fst) (c : Node α) : Seg (h.set a c) p L q :=
  hs.congr fun b hb => Cells.cell_set_of_ne (fun hba : b = a => ha (hba ▸ hb)) h c

theorem Seg.erase (hs : Seg h p L q) (ha : a ∉ L.map Prod.fst) : Seg (h.erase a) p L q :=
  hs.congr fun b hb => Cells.cell_erase_of_ne (fun hba : b = a => ha (hba ▸ hb)) h

theorem Seg.calloc {h' : Cells (Node α)} {at? : Option Nat} {c : Node α} (hs : Seg h p L q)
    (hc : h.calloc at? c = some (a, h')) : Seg h' p L q := by
  obtain ⟨hfree, rfl⟩ := Cells.of_calloc hc
  exact hs.congr fun b hb => Cells.cell_set_of_ne (fun hba : b = a => hs.live b hb (hba ▸ hfree)) h c

/-- The cell in the middle of a chain. -/
theorem Seg.cell_of_mid (hs : Seg h p (L₁ ++ (a, x) :: L₂) q) : ∃ n, h.cell a = some ⟨x, n⟩ ∧ Seg h n L₂ q := by
  obtain ⟨r, -, -, n, hc, hs⟩ := seg_append.mp hs
  exact ⟨n, hc, hs⟩

/-- A chain that ends in `NULL` is empty when it starts there. -/
theorem Seg.eq_none_iff (hs : Seg h p L none) : p = none ↔ L = [] := by
  cases L with
  | nil => exact iff_of_true hs rfl
  | cons c L => exact iff_of_false (by rw [hs.1]; exact Option.some_ne_none _) (List.cons_ne_nil c L)

/-! ### Changing a chain -/

section Change

variable {b : Nat} {y : α}

/-- A new cell behind the cell `a`. -/
theorem Seg.insert {n : Option Nat} (hs : Seg h p (L₁ ++ (a, x) :: L₂) q) (hn : h.cell a = some ⟨x, n⟩)
    (hnd : ((L₁ ++ (a, x) :: L₂).map Prod.fst).Nodup) (hb : b ∉ (L₁ ++ (a, x) :: L₂).map Prod.fst) :
    Seg ((h.set b ⟨y, n⟩).set a ⟨x, some b⟩) p (L₁ ++ (a, x) :: (b, y) :: L₂) q := by
  simp only [List.map_append, List.map_cons, List.mem_append, List.mem_cons, not_or, List.nodup_append,
    List.nodup_cons] at hnd hb
  obtain ⟨hb₁, hba, hb₂⟩ := hb
  obtain ⟨-, ⟨ha₂, -⟩, hd⟩ := hnd
  have ha₁ : a ∉ L₁.map Prod.fst := fun ha => hd a ha a (Or.inl rfl) rfl
  obtain ⟨r, hs₁, hr, n', hn', hs₂⟩ := seg_append.mp hs
  obtain rfl : n' = n := by rw [hn] at hn'; exact (Node.mk.inj (Option.some.inj hn')).2.symm
  refine seg_append.mpr ⟨r, (hs₁.set hb₁ _).set ha₁ _, hr, some b, Cells.cell_set_self _ _ _, rfl, n', ?_, ?_⟩
  · rw [Cells.cell_set_of_ne hba, Cells.cell_set_self]
  · exact (hs₂.set hb₂ _).set ha₂ _

/-- A live cell behind the last one. -/
theorem Seg.concat (hs : Seg h p (L₁ ++ [(a, x)]) none) (hb : h.cell b = some ⟨y, none⟩)
    (hnd : ((L₁ ++ [(a, x)]).map Prod.fst).Nodup) (hne : b ≠ a) :
    Seg (h.set a ⟨x, some b⟩) p (L₁ ++ [(a, x)] ++ [(b, y)]) none := by
  simp only [List.map_append, List.map_cons, List.map_nil, List.nodup_append, List.mem_singleton] at hnd
  have ha₁ : a ∉ L₁.map Prod.fst := fun ha => hnd.2.2 a ha a rfl rfl
  obtain ⟨r, hs₁, hr, -⟩ := seg_append.mp hs
  rw [List.append_assoc]
  refine seg_append.mpr ⟨r, hs₁.set ha₁ _, hr, some b, Cells.cell_set_self _ _ _, rfl, none, ?_, rfl⟩
  rw [Cells.cell_set_of_ne hne, hb]

/-- The first cell taken out. -/
theorem Seg.unlink_head {n : Option Nat} (hs : Seg h p ((a, x) :: L₂) q) (hn : h.cell a = some ⟨x, n⟩)
    (hnd : (((a, x) :: L₂).map Prod.fst).Nodup) : Seg (h.erase a) n L₂ q := by
  obtain ⟨-, n', hn', hs⟩ := hs
  obtain rfl : n' = n := by rw [hn] at hn'; exact (Node.mk.inj (Option.some.inj hn')).2.symm
  exact hs.erase (List.nodup_cons.mp hnd).1

/-- The cell `a` taken out behind the cell `b`. -/
theorem Seg.unlink {n : Option Nat} (hs : Seg h p (L₁ ++ (b, y) :: (a, x) :: L₂) q) (hn : h.cell a = some ⟨x, n⟩)
    (hnd : ((L₁ ++ (b, y) :: (a, x) :: L₂).map Prod.fst).Nodup) :
    Seg ((h.set b ⟨y, n⟩).erase a) p (L₁ ++ (b, y) :: L₂) q := by
  simp only [List.map_append, List.map_cons, List.nodup_append, List.nodup_cons, List.mem_cons, not_or] at hnd
  obtain ⟨-, ⟨⟨hba, hb₂⟩, ha₂, -⟩, hd⟩ := hnd
  have hb₁ : b ∉ L₁.map Prod.fst := fun hb => hd b hb b (Or.inl rfl) rfl
  have ha₁ : a ∉ L₁.map Prod.fst := fun ha => hd a ha a (Or.inr (Or.inl rfl)) rfl
  obtain ⟨r, hs₁, hr, n₁, -, -, n', hn', hs₂⟩ := seg_append.mp hs
  obtain rfl : n' = n := by rw [hn] at hn'; exact (Node.mk.inj (Option.some.inj hn')).2.symm
  refine seg_append.mpr ⟨r, (hs₁.set hb₁ _).erase ha₁, hr, n', ?_, (hs₂.set hb₂ _).erase ha₂⟩
  rw [Cells.cell_erase_of_ne hba, Cells.cell_set_self]

/-- New data in the cell `a`. -/
theorem Seg.replace {n : Option Nat} (hs : Seg h p (L₁ ++ (a, x) :: L₂) q) (hn : h.cell a = some ⟨x, n⟩)
    (hnd : ((L₁ ++ (a, x) :: L₂).map Prod.fst).Nodup) : Seg (h.set a ⟨y, n⟩) p (L₁ ++ (a, y) :: L₂) q := by
  simp only [List.map_append, List.map_cons, List.nodup_append, List.nodup_cons, List.mem_cons] at hnd
  obtain ⟨-, ⟨ha₂, -⟩, hd⟩ := hnd
  have ha₁ : a ∉ L₁.map Prod.fst := fun ha => hd a ha a (Or.inl rfl) rfl
  obtain ⟨r, hs₁, hr, n', hn', hs₂⟩ := seg_append.mp hs
  obtain rfl : n' = n := by rw [hn] at hn'; exact (Node.mk.inj (Option.some.inj hn')).2.symm
  exact seg_append.mpr ⟨r, hs₁.set ha₁ _, hr, n', Cells.cell_set_self _ _ _, hs₂.set ha₂ _⟩

end Change

/-- The last cell of a chain, or the pointer before it. -/
def lastOr (prev : Option Nat) (L : List (Nat × α)) : Option Nat := L.foldl (fun _ c => some c.1) prev

@[simp] theorem lastOr_nil (prev : Option Nat) : lastOr prev ([] : List (Nat × α)) = prev := rfl

@[simp] theorem lastOr_cons (prev : Option Nat) (c : Nat × α) (L : List (Nat × α)) :
    lastOr prev (c :: L) = lastOr (some c.1) L := rfl

@[simp] theorem lastOr_append_cons (prev : Option Nat) (c : Nat × α) :
    lastOr prev (L₁ ++ c :: L₂) = lastOr (some c.1) L₂ := by
  rw [lastOr, List.foldl_append]
  rfl

/-! ### Walks -/

/-- `n` steps along `next`, or up to the end: the cell before, and the cell. -/
def advance (h : Cells (Node α)) : Nat → Option Nat → Option Nat → Option (Option Nat × Option Nat)
  | _, prev, none => some (prev, none)
  | 0, prev, some a => some (prev, some a)
  | n + 1, _, some a => (h.cell a).bind fun c => advance h n (some a) c.next

/-- Along `next` up to a cell whose data stop the walk: the cell before, and the cell. -/
def seek (h : Cells (Node α)) (stop : α → Bool) : Nat → Option Nat → Option Nat → Option (Option Nat × Option Nat)
  | 0, _, _ => none
  | _ + 1, prev, none => some (prev, none)
  | fuel + 1, prev, some a =>
    (h.cell a).bind fun c => if stop c.data then some (prev, some a) else seek h stop fuel (some a) c.next

theorem advance_of_seg (prev : Option Nat) (hs : Seg h p (L₁ ++ (a, x) :: L₂) q) :
    advance h L₁.length prev p = some (lastOr prev L₁, some a) := by
  induction L₁ generalizing p prev with
  | nil =>
    obtain ⟨rfl, -⟩ := hs
    rfl
  | cons c L₁ ih =>
    obtain ⟨rfl, n, hc, hs⟩ := hs
    rw [List.length_cons, advance, hc, Option.bind_some, ih _ hs, lastOr_cons]

theorem seek_of_seg {stop : α → Bool} {fuel : Nat} (prev : Option Nat) (hs : Seg h p (L₁ ++ (a, x) :: L₂) q)
    (hx : stop x = true) (hL : ∀ c ∈ L₁, stop c.2 = false) (hf : L₁.length < fuel) :
    seek h stop fuel prev p = some (lastOr prev L₁, some a) := by
  induction L₁ generalizing p prev fuel with
  | nil =>
    obtain ⟨rfl, n, hc, -⟩ := hs
    obtain ⟨k, rfl⟩ : ∃ k, fuel = k + 1 := Nat.exists_eq_succ_of_ne_zero (Nat.ne_of_gt hf)
    rw [seek, hc, Option.bind_some, if_pos hx, lastOr_nil]
  | cons c L₁ ih =>
    obtain ⟨rfl, n, hc, hs⟩ := hs
    cases fuel with
    | zero => exact absurd hf (Nat.not_lt_zero _)
    | succ fuel =>
      have hstop : ¬ stop c.2 = true := by simp [hL c List.mem_cons_self]
      rw [seek, hc, Option.bind_some, if_neg hstop, lastOr_cons]
      exact ih _ hs (fun d hd => hL d (List.mem_cons_of_mem c hd)) (by simpa using hf)

/-- A walk that nothing stops comes to the end. -/
theorem seek_of_forall {stop : α → Bool} {fuel : Nat} (prev : Option Nat) (hs : Seg h p L none)
    (hL : ∀ c ∈ L, stop c.2 = false) (hf : L.length < fuel) :
    seek h stop fuel prev p = some (lastOr prev L, none) := by
  induction L generalizing p prev fuel with
  | nil =>
    obtain ⟨k, rfl⟩ : ∃ k, fuel = k + 1 := Nat.exists_eq_succ_of_ne_zero (Nat.ne_of_gt hf)
    rw [show p = none from hs, seek, lastOr_nil]
  | cons c L ih =>
    obtain ⟨rfl, n, hc, hs⟩ := hs
    cases fuel with
    | zero => exact absurd hf (Nat.not_lt_zero _)
    | succ fuel =>
      have hstop : ¬ stop c.2 = true := by simp [hL c List.mem_cons_self]
      rw [seek, hc, Option.bind_some, if_neg hstop, lastOr_cons]
      exact ih _ hs (fun d hd => hL d (List.mem_cons_of_mem c hd)) (by simpa using hf)

end Wow
