import Mathlib.Data.List.Basic
import Mathlib.Data.List.Nodup
import Wow.Base.Slist

/-!
# Wow.Base.SlistRefine — the linked list is a list

`Op.ref` is what an operation does to a list of data, `Rep` what it means for the linked list to hold one:
following `next` from the head gives its elements, the tail is the last entry and the count its length.

* `Holds`: the invariant, with the addresses of the entries.
* `insertAfter_holds`, `removeAt_holds`, `replaceAt_holds`: the three changes behind all operations.
* `step_kept`: one operation, while the count fits its type; from it, whole runs.
-/

namespace Wow.Slist

/-! ### The reference -/

/-- The returned value and the new list; `none` where the operation must fail. -/
def Op.ref (l : List Nat) : Op → Option (Ret × List Nat)
  | .insertHead _ d => if d = 0 then none else some (.code 0, d :: l)
  | .insertTail _ d => if d = 0 then none else some (.code 0, l ++ [d])
  | .insertByIndex _ i d => if d = 0 then none else some (.code 0, l.insertIdx (min i.toNat l.length) d)
  | .insertByMatch _ f e d => f.bind fun f => (l.findIdx? (f · e)).map fun i => (.code 0, l.insertIdx (i + 1) d)
  | .peekHead => some (.data (l.head?.getD 0), l)
  | .peekTail => some (.data (l.getLast?.getD 0), l)
  | .peekByIndex i => some (.data (if 0 ≤ i then l.getD i.toNat 0 else 0), l)
  | .peekByMatch f x => some (.data ((f.bind fun f => l.find? (f · x)).getD 0), l)
  | .removeHead => if l = [] then none else some (.code 0, l.tail)
  | .removeTail => if l = [] then none else some (.code 0, l.dropLast)
  | .remove d => if d ≠ 0 ∧ d ∈ l then some (.code 0, l.erase d) else none
  | .removeByIndex i => if 0 ≤ i ∧ i < l.length then some (.code 0, l.eraseIdx i.toNat) else none
  | .removeByMatch f x => f.bind fun f =>
    if x ≠ 0 ∧ l.any (f · x) then some (.code 0, l.eraseP (f · x)) else none
  | .replaceHead d => if l = [] then none else some (.code 0, l.set 0 d)
  | .replaceTail d => if l = [] then none else some (.code 0, l.set (l.length - 1) d)
  | .replaceByIndex i d => if 0 ≤ i ∧ i < l.length then some (.code 0, l.set i.toNat d) else none
  | .replaceByMatch f x d => f.bind fun f =>
    if x = 0 then none else some (.code 0, l.map fun y => if f y x then d else y)
  | .clear => some (.code 0, [])

/-- Following `next` from the head gives `l`, the tail is the last entry, and the count is the length. -/
def Rep (s : State) (l : List Nat) : Prop :=
  ∃ L : List (Nat × Nat), L.map Prod.snd = l ∧ Seg s.heap s.list.head L none ∧
    s.list.tail = lastOr none L ∧ s.list.entries = L.length

/-- An error return. -/
def Ret.IsError : Ret → Prop
  | .code n => n ≠ 0
  | .data _ => False

/-- The allocator has no place for the new entry. -/
def Op.Refused (s : State) : Op → Prop
  | .insertHead at? _ | .insertTail at? _ | .insertByIndex at? _ _ | .insertByMatch at? _ _ _ =>
    ∀ c, s.heap.calloc at? c = none
  | _ => False

/-- The operation does what the reference does, or reports an error, for a reason, and leaves the list alone. -/
def Does (s : State) (op : Op) (l : List Nat) (r : Ret) (l' : List Nat) : Prop :=
  op.ref l = some (r, l') ∨ r.IsError ∧ l' = l ∧ (op.ref l = none ∨ op.Refused s)

/-- Every operation of the run returns and does what it should, and the list is held in every state. -/
def Refines : State → List Nat → List Op → Prop
  | s, l, [] => Rep s l
  | s, l, op :: ops => Rep s l ∧ ∃ r s' l', step s op = some (r, s') ∧ Does s op l r l' ∧ Refines s' l' ops

/-- The count of the entries fits: an `int` where it is used as an index, else a `uint32_t`. -/
def Op.Fits (s : State) : Op → Prop
  | .insertHead _ _ | .insertByIndex _ _ _ | .insertByMatch _ _ _ _ => s.list.entries + 1 < 2 ^ 32
  | .insertTail _ _ | .removeTail => s.list.entries < 2 ^ 31
  | _ => True

instance decidableFits (s : State) : ∀ op : Op, Decidable (op.Fits s)
  | .insertHead _ _ | .insertByIndex _ _ _ | .insertByMatch _ _ _ _ =>
    inferInstanceAs (Decidable (s.list.entries + 1 < 2 ^ 32))
  | .insertTail _ _ | .removeTail => inferInstanceAs (Decidable (s.list.entries < 2 ^ 31))
  | .peekHead | .peekTail | .peekByIndex _ | .peekByMatch _ _ | .removeHead | .remove _ | .removeByIndex _
  | .removeByMatch _ _ | .replaceHead _ | .replaceTail _ | .replaceByIndex _ _ | .replaceByMatch _ _ _
  | .clear => inferInstanceAs (Decidable True)

/-- The count fits at every operation of the run. -/
def Fitting : State → List Op → Prop
  | _, [] => True
  | s, op :: ops => op.Fits s ∧ match step s op with
    | none => True
    | some r => Fitting r.2 ops

instance decidableFitting : ∀ (s : State) (ops : List Op), Decidable (Fitting s ops)
  | _, [] => inferInstanceAs (Decidable True)
  | s, op :: ops =>
    have : Decidable (match step s op with
      | none => True
      | some r => Fitting r.2 ops) :=
      match step s op with
      | none => inferInstanceAs (Decidable True)
      | some r => decidableFitting r.2 ops
    inferInstanceAs (Decidable (op.Fits s ∧ _))

/-! ### The invariant -/

/-- The list holds the entries `L`, given with their addresses. -/
structure Holds (s : State) (L : List (Nat × Nat)) : Prop where
  seg : Seg s.heap s.list.head L none
  nodup : (L.map Prod.fst).Nodup
  tail : s.list.tail = lastOr none L
  entries : s.list.entries = L.length
  lt : s.list.entries < 2 ^ 32
  sized : s.heap.Sized

section Holds

variable {s : State} {L L₁ L₂ : List (Nat × Nat)} {a x d new : Nat} {h : Cells (Node Nat)} {at? : Option Nat}

theorem holds_create : Holds create [] := ⟨rfl, List.nodup_nil, rfl, rfl, by decide, Cells.sized_empty⟩

theorem Holds.rep (hs : Holds s L) : Rep s (L.map Prod.snd) := ⟨L, rfl, hs.seg, hs.tail, hs.entries⟩

/-- A walk along the list is shorter than the fuel. -/
theorem Holds.lt_fuel (hs : Holds s L) : L.length < s.fuel := by
  have h := hs.sized.length_le hs.nodup hs.seg.live
  rw [List.length_map] at h
  exact Nat.lt_succ_of_le h

/-- The head decides whether the list is empty. -/
theorem Holds.head_eq_none_iff (hs : Holds s L) : s.list.head = none ↔ L = [] := hs.seg.eq_none_iff

/-- An allocation takes an address the list does not use. -/
theorem Holds.not_mem_of_calloc (hs : Holds s L) {c : Node Nat} (hc : s.heap.calloc at? c = some (new, h)) :
    new ∉ L.map Prod.fst := fun hn => hs.seg.live new hn (Cells.of_calloc hc).1

theorem lastOr_eq_none_iff : lastOr none L = none ↔ L = [] := by
  rcases List.eq_nil_or_concat L with rfl | ⟨L, c, rfl⟩
  · exact iff_of_true rfl rfl
  · rw [List.concat_eq_append, lastOr_append_cons, lastOr_nil]
    exact iff_of_false (Option.some_ne_none _) (by simp)

theorem setNext_some {b : Nat} {n : Option Nat} (hb : h.cell b = some ⟨x, n⟩) (next : Option Nat) :
    setNext h (some b) next = some (h.set b ⟨x, next⟩) := by
  rw [setNext, hb, Option.bind_some, Cells.write_of_cell hb]

/-- **A new entry** at the head. -/
theorem prepend_holds (hs : Holds s L) (hc : s.heap.calloc at? ⟨d, none⟩ = some (new, h))
    (hfit : s.list.entries + 1 < 2 ^ 32) :
    Holds ⟨⟨some new, if s.list.tail = none then some new else s.list.tail, (s.list.entries + 1) % 2 ^ 32⟩,
      h.set new ⟨d, s.list.head⟩⟩ ((new, d) :: L) := by
  have hnew := hs.not_mem_of_calloc hc
  refine ⟨⟨rfl, _, Cells.cell_set_self _ _ _, (hs.seg.calloc hc).set hnew _⟩,
    List.nodup_cons.mpr ⟨hnew, hs.nodup⟩, ?_, ?_, Nat.mod_lt _ (by decide),
    (hs.sized.calloc hc).set (Cells.cell_of_calloc hc) _⟩
  · have ht := hs.tail
    cases L with
    | nil => exact if_pos ht
    | cons c L =>
      refine (if_neg ?_).trans ht
      rw [ht]
      exact fun hn => List.cons_ne_nil c L (lastOr_eq_none_iff.mp hn)
  · rw [List.length_cons, ← hs.entries]
    exact Nat.mod_eq_of_lt hfit

/-- **A new entry** at the end. -/
theorem append_holds (hs : Holds s L) (hc : s.heap.calloc at? ⟨d, none⟩ = some (new, h))
    (hfit : s.list.entries + 1 < 2 ^ 32) : ∃ h', setNext h s.list.tail (some new) = some h' ∧
      Holds ⟨⟨if s.list.head = none then some new else s.list.head, some new, (s.list.entries + 1) % 2 ^ 32⟩, h'⟩
        (L ++ [(new, d)]) := by
  have hnew := hs.not_mem_of_calloc hc
  have hcell := Cells.cell_of_calloc hc
  have hnd : ((L ++ [(new, d)]).map Prod.fst).Nodup := by
    rw [List.map_append, List.nodup_append]
    refine ⟨hs.nodup, List.nodup_singleton _, ?_⟩
    rintro a ha b hb rfl
    obtain rfl : a = new := List.mem_singleton.mp hb
    exact hnew ha
  have hent : (s.list.entries + 1) % 2 ^ 32 = (L ++ [(new, d)]).length := by
    rw [List.length_append, List.length_singleton, ← hs.entries]
    exact Nat.mod_eq_of_lt hfit
  rcases List.eq_nil_or_concat L with rfl | ⟨L, ⟨b, y⟩, rfl⟩
  · rw [show s.list.tail = none from hs.tail]
    refine ⟨h, rfl, ⟨?_, none, hcell, rfl⟩, hnd, rfl, hent, Nat.mod_lt _ (by decide), hs.sized.calloc hc⟩
    exact if_pos (hs.head_eq_none_iff.mpr rfl)
  · rw [List.concat_eq_append] at *
    have ht : s.list.tail = some b := by rw [hs.tail, lastOr_append_cons, lastOr_nil]
    have hhead : ¬ s.list.head = none := fun hh => by simpa using hs.head_eq_none_iff.mp hh
    have hseg := hs.seg.calloc hc
    obtain ⟨n, hb, rfl⟩ := hseg.cell_of_mid
    have hne : new ≠ b := fun hbn => hnew (by simp [hbn])
    rw [ht, setNext_some hb, if_neg hhead]
    refine ⟨_, rfl, hseg.concat hcell hs.nodup hne, hnd, ?_, hent, Nat.mod_lt _ (by decide),
      (hs.sized.calloc hc).set hb _⟩
    rw [lastOr_append_cons, lastOr_nil]

/-- The addresses of a list with a new one behind `a`. -/
theorem nodup_insert (hnd : ((L₁ ++ (a, x) :: L₂).map Prod.fst).Nodup)
    (hnew : new ∉ (L₁ ++ (a, x) :: L₂).map Prod.fst) : ((L₁ ++ (a, x) :: (new, d) :: L₂).map Prod.fst).Nodup := by
  have hp : (L₁ ++ (a, x) :: (new, d) :: L₂).Perm ((new, d) :: (L₁ ++ (a, x) :: L₂)) := by
    rw [show L₁ ++ (a, x) :: (new, d) :: L₂ = (L₁ ++ [(a, x)]) ++ (new, d) :: L₂ by simp,
      show L₁ ++ (a, x) :: L₂ = (L₁ ++ [(a, x)]) ++ L₂ by simp]
    exact List.perm_middle
  exact (hp.map Prod.fst).nodup_iff.mpr (List.nodup_cons.mpr ⟨hnew, hnd⟩)

theorem insertAfter_eq {n : Option Nat} {c : Node Nat} (hn : h.cell a = some ⟨x, n⟩) (hnew : h.cell new = some c)
    (hna : a ≠ new) : insertAfter s h new d a =
      some ⟨⟨s.list.head, if n = none then some new else s.list.tail, (s.list.entries + 1) % 2 ^ 32⟩,
        (h.set new ⟨d, n⟩).set a ⟨x, some new⟩⟩ := by
  have ha : (h.set new ⟨d, n⟩).cell a = some ⟨x, n⟩ := by rw [Cells.cell_set_of_ne hna, hn]
  simp only [insertAfter, hn, Cells.write_of_cell hnew, Cells.write_of_cell ha, Option.bind_eq_bind,
    Option.bind_some, Option.pure_def]

/-- **A new entry** behind an entry of the list. -/
theorem insertAfter_holds (hs : Holds s (L₁ ++ (a, x) :: L₂)) {c : Node Nat}
    (hc : s.heap.calloc at? c = some (new, h)) (hfit : s.list.entries + 1 < 2 ^ 32) :
    ∃ s', insertAfter s h new d a = some s' ∧ Holds s' (L₁ ++ (a, x) :: (new, d) :: L₂) := by
  have hnew := hs.not_mem_of_calloc hc
  have hseg := hs.seg.calloc hc
  obtain ⟨n, hn, hrest⟩ := hseg.cell_of_mid
  have hnew' := Cells.cell_of_calloc hc
  have hna : a ≠ new := fun hna => hnew (by simp [hna])
  have ha : (h.set new ⟨d, n⟩).cell a = some ⟨x, n⟩ := by rw [Cells.cell_set_of_ne hna, hn]
  refine ⟨_, insertAfter_eq hn hnew' hna, hseg.insert hn hs.nodup hnew, nodup_insert hs.nodup hnew, ?_, ?_,
    Nat.mod_lt _ (by decide), ((hs.sized.calloc hc).set hnew' _).set ha _⟩
  · have ht := hs.tail
    rw [lastOr_append_cons] at ht ⊢
    cases L₂ with
    | nil => exact if_pos (hrest.eq_none_iff.mpr rfl)
    | cons b L₂ =>
      rw [lastOr_cons] at ht
      exact (if_neg fun hn => List.cons_ne_nil b L₂ (hrest.eq_none_iff.mp hn)).trans ht
  · have he := hs.entries
    simp only [List.length_append, List.length_cons] at he ⊢
    omega

theorem removeAt_eq {n prev : Option Nat} {h' : Cells (Node Nat)} (hn : s.heap.cell a = some ⟨x, n⟩)
    (hh : setNext s.heap prev n = some h') (ha : h'.cell a = some ⟨x, n⟩) : removeAt s (prev, some a) =
      some (WOW_SUCCESS, ⟨⟨if prev = none then n else s.list.head, if n = none then prev else s.list.tail,
        (s.list.entries + 2 ^ 32 - 1) % 2 ^ 32⟩, h'.erase a⟩) := by
  simp only [removeAt, unlink, hn, hh, Cells.free_of_cell ha, Option.bind_eq_bind, Option.bind_some, Option.pure_def,
    Option.map_some]

/-- **An entry taken out** of the list, found with the entry before it. -/
theorem removeAt_holds (hs : Holds s (L₁ ++ (a, x) :: L₂)) :
    ∃ s', removeAt s (lastOr none L₁, some a) = some (WOW_SUCCESS, s') ∧ Holds s' (L₁ ++ L₂) := by
  obtain ⟨n, hn, hrest⟩ := hs.seg.cell_of_mid
  have hnd := hs.nodup
  have he := hs.entries
  have ht := hs.tail
  rw [lastOr_append_cons] at ht
  have hsub : (L₁ ++ L₂).Sublist (L₁ ++ (a, x) :: L₂) :=
    List.Sublist.append (List.Sublist.refl L₁) (List.sublist_cons_self (a, x) L₂)
  have hnd' := hnd.sublist (hsub.map Prod.fst)
  have hlt := hs.lt
  simp only [List.length_append, List.length_cons] at he
  have hlen : (s.list.entries + 2 ^ 32 - 1) % 2 ^ 32 = (L₁ ++ L₂).length := by
    rw [List.length_append]
    omega
  rcases List.eq_nil_or_concat L₁ with rfl | ⟨L₀, ⟨b, y⟩, rfl⟩
  · refine ⟨_, removeAt_eq hn rfl hn, hs.seg.unlink_head hn hnd, hnd', ?_, hlen, Nat.mod_lt _ (by decide), hs.sized.erase a⟩
    cases L₂ with
    | nil => exact if_pos (hrest.eq_none_iff.mpr rfl)
    | cons c L₂ => exact (if_neg fun hn => List.cons_ne_nil c L₂ (hrest.eq_none_iff.mp hn)).trans ht
  · rw [List.concat_eq_append] at hs hnd hnd' hlen ⊢
    rw [List.append_assoc, List.singleton_append] at hs hnd
    rw [List.append_assoc, List.singleton_append] at hnd' hlen
    obtain ⟨n', hb, hn', -, -⟩ := hs.seg.cell_of_mid
    have hab : a ≠ b := by
      rintro rfl
      simp [List.nodup_append] at hnd
    have ha : (s.heap.set b ⟨y, n⟩).cell a = some ⟨x, n⟩ := by rw [Cells.cell_set_of_ne hab, hn]
    refine ⟨_, by rw [lastOr_append_cons]; exact removeAt_eq hn (setNext_some hb n) ha, ?_⟩
    rw [List.append_assoc, List.singleton_append]
    refine ⟨hs.seg.unlink hn hnd, hnd', ?_, hlen, Nat.mod_lt _ (by decide), (hs.sized.set hb _).erase a⟩
    rw [lastOr_append_cons]
    cases L₂ with
    | nil => exact if_pos (hrest.eq_none_iff.mpr rfl)
    | cons c L₂ => exact (if_neg fun hn => List.cons_ne_nil c L₂ (hrest.eq_none_iff.mp hn)).trans ht

/-- **New data** for an entry of the list. -/
theorem replaceAt_holds (hs : Holds s (L₁ ++ (a, x) :: L₂)) :
    ∃ s', replaceAt s d a = some (WOW_SUCCESS, s') ∧ Holds s' (L₁ ++ (a, d) :: L₂) := by
  obtain ⟨n, hn, -⟩ := hs.seg.cell_of_mid
  refine ⟨{ s with heap := s.heap.set a ⟨d, n⟩ }, ?_, hs.seg.replace hn hs.nodup, ?_, ?_, ?_, hs.lt,
    hs.sized.set hn _⟩
  · simp only [replaceAt, hn, Cells.write_of_cell hn, Option.bind_eq_bind, Option.bind_some, Option.pure_def]
  · simpa using hs.nodup
  · simpa using hs.tail
  · simpa using hs.entries

/-! ### Where the walks stop -/

/-- The entry with the number `i`. -/
theorem Holds.advance_eq (hs : Holds s L) {i : Nat} (hi : i < L.length) : ∃ L₁ a x L₂, L = L₁ ++ (a, x) :: L₂ ∧
    L₁.length = i ∧ advance s.heap i none s.list.head = some (lastOr none L₁, some a) := by
  have hL : L = L.take i ++ (L[i].1, L[i].2) :: L.drop (i + 1) := by simp
  have hlen : (L.take i).length = i := List.length_take_of_le (Nat.le_of_lt hi)
  refine ⟨L.take i, L[i].1, L[i].2, L.drop (i + 1), hL, hlen, ?_⟩
  have h : Seg s.heap s.list.head (L.take i ++ (L[i].1, L[i].2) :: L.drop (i + 1)) none := hL ▸ hs.seg
  have hadvance := advance_of_seg none h
  rwa [hlen] at hadvance

/-- The first entry that stops a walk, or none. -/
theorem Holds.seek_eq (hs : Holds s L) (stop : Nat → Bool) :
    (∀ c ∈ L, stop c.2 = false) ∧ seek s.heap stop s.fuel none s.list.head = some (lastOr none L, none) ∨
    ∃ L₁ a x L₂, L = L₁ ++ (a, x) :: L₂ ∧ stop x = true ∧ (∀ c ∈ L₁, stop c.2 = false) ∧
      seek s.heap stop s.fuel none s.list.head = some (lastOr none L₁, some a) := by
  by_cases hall : ∀ c ∈ L, stop c.2 = false
  · exact Or.inl ⟨hall, seek_of_forall none hs.seg hall hs.lt_fuel⟩
  · right
    have hf : (L.find? fun c => stop c.2).isSome := by
      rw [List.find?_isSome]
      simpa using hall
    obtain ⟨⟨a, x⟩, hf⟩ := Option.isSome_iff_exists.mp hf
    obtain ⟨hx, L₁, L₂, rfl, hL₁⟩ := List.find?_eq_some_iff_append.mp hf
    have hL₁' : ∀ c ∈ L₁, stop c.2 = false := fun c hc => by simpa using hL₁ c hc
    refine ⟨L₁, a, x, L₂, rfl, hx, hL₁', seek_of_seg none hs.seg hx hL₁' ?_⟩
    have h := hs.lt_fuel
    rw [List.length_append, List.length_cons] at h
    omega

end Holds

/-! ### Lists cut in two -/

section Cut

variable {l₁ l₂ : List Nat} {x d : Nat} {p : Nat → Bool}

theorem findIdx?_cut (hp : ∀ y ∈ l₁, p y = false) (hx : p x = true) :
    (l₁ ++ x :: l₂).findIdx? p = some l₁.length := by
  induction l₁ with
  | nil => simp [List.findIdx?_cons, hx]
  | cons y l₁ ih =>
    rw [List.cons_append, List.findIdx?_cons, hp y List.mem_cons_self,
      ih fun z hz => hp z (List.mem_cons_of_mem y hz)]
    rfl

theorem insertIdx_cut (l₁ l₂ : List Nat) (d : Nat) : (l₁ ++ l₂).insertIdx l₁.length d = l₁ ++ d :: l₂ := by
  induction l₁ with
  | nil => simp
  | cons y l₁ ih => rw [List.cons_append, List.length_cons, List.insertIdx_succ_cons, ih, List.cons_append]

theorem insertIdx_cut_succ : (l₁ ++ x :: l₂).insertIdx (l₁.length + 1) d = l₁ ++ x :: d :: l₂ := by
  have h := insertIdx_cut (l₁ ++ [x]) l₂ d
  simpa using h

theorem set_cut (l₁ l₂ : List Nat) (x d : Nat) : (l₁ ++ x :: l₂).set l₁.length d = l₁ ++ d :: l₂ := by
  rw [List.set_append_right _ _ (Nat.le_refl _), Nat.sub_self, List.set_cons_zero]

theorem eraseIdx_cut : (l₁ ++ x :: l₂).eraseIdx l₁.length = l₁ ++ l₂ := by
  rw [List.eraseIdx_append_of_length_le (Nat.le_refl _), Nat.sub_self, List.eraseIdx_cons_zero]

theorem eraseP_cut (hp : ∀ y ∈ l₁, p y = false) (hx : p x = true) : (l₁ ++ x :: l₂).eraseP p = l₁ ++ l₂ := by
  rw [List.eraseP_append_right _ (fun y hy => by simp [hp y hy]), List.eraseP_cons_of_pos hx]

theorem find?_cut (hp : ∀ y ∈ l₁, p y = false) (hx : p x = true) : (l₁ ++ x :: l₂).find? p = some x := by
  rw [List.find?_append, List.find?_eq_none.mpr fun y hy => by simp [hp y hy], Option.none_or,
    List.find?_cons_of_pos hx]

end Cut

/-! ### The operations -/

section Operations

variable {s : State} {L : List (Nat × Nat)} {at? : Option Nat} {d : Nat}

/-- The operation returns `r` as it should, and the list is held afterwards. -/
def Kept (s : State) (op : Op) (L : List (Nat × Nat)) (r : Ret × State) : Prop :=
  ∃ L', Does s op (L.map Prod.snd) r.1 (L'.map Prod.snd) ∧ Holds r.2 L'

theorem kept_of_ref {op : Op} {r : Ret} {s' : State} (L' : List (Nat × Nat)) (hs : Holds s' L')
    (hr : op.ref (L.map Prod.snd) = some (r, L'.map Prod.snd)) : Kept s op L (r, s') := ⟨L', Or.inl hr, hs⟩

theorem kept_of_error {op : Op} {n : Int} (hs : Holds s L) (hn : n ≠ 0)
    (hr : op.ref (L.map Prod.snd) = none ∨ op.Refused s) : Kept s op L (.code n, s) :=
  ⟨L, Or.inr ⟨hn, rfl, hr⟩, hs⟩

/-- **Insertion by index**: at the head, at the end, or behind an entry. -/
theorem insertByIndex_holds (at? : Option Nat) (d : Nat) (hs : Holds s L) (i : Int)
    (hfit : s.list.entries + 1 < 2 ^ 32) :
    (d = 0 ∧ insertByIndex s at? i d = some (-PARAM_INPUT_DATA_IS_NULL, s)) ∨
    ((∀ c, s.heap.calloc at? c = none) ∧ insertByIndex s at? i d = some (-SYSTEM_MALLOC_FAILED, s)) ∨
    (d ≠ 0 ∧ ∃ s' L', insertByIndex s at? i d = some (WOW_SUCCESS, s') ∧ Holds s' L' ∧
      L'.map Prod.snd = (L.map Prod.snd).insertIdx (min i.toNat L.length) d) := by
  by_cases hd : d = 0
  · exact Or.inl ⟨hd, by rw [insertByIndex, if_pos hd]⟩
  cases hc : s.heap.calloc at? ⟨d, none⟩ with
  | none => exact Or.inr (Or.inl ⟨Cells.calloc_eq_none hc, by rw [insertByIndex, if_neg hd, hc]⟩)
  | some r =>
    obtain ⟨new, h⟩ := r
    refine Or.inr (Or.inr ⟨hd, ?_⟩)
    rw [insertByIndex, if_neg hd, hc]
    have he := hs.entries
    by_cases hi : i ≤ 0
    · refine ⟨_, _, ?_, prepend_holds hs hc hfit, ?_⟩
      · simp only [if_pos hi, Cells.write_of_cell (Cells.cell_of_calloc hc), Option.bind_eq_bind,
          Option.bind_some, Option.pure_def]
      · rw [show min i.toNat L.length = 0 by omega]
        simp
    by_cases hn : i > s.list.entries
    · obtain ⟨h', hset, hs'⟩ := append_holds hs hc hfit
      refine ⟨_, _, ?_, hs', ?_⟩
      · simp only [if_neg hi, if_pos hn, hset, Option.bind_eq_bind, Option.bind_some, Option.pure_def]
      · have h := insertIdx_cut (L.map Prod.snd) [] d
        rw [List.append_nil, List.length_map] at h
        rw [show min i.toNat L.length = L.length by omega, h, List.map_append]
        rfl
    · obtain ⟨L₁, a, x, L₂, rfl, hlen, hadvance⟩ := hs.advance_eq (i := i.toNat - 1) (by omega)
      have hseg := hs.seg.calloc hc
      have hadvance' := advance_of_seg none hseg
      rw [hlen] at hadvance'
      obtain ⟨s', hins, hs'⟩ := insertAfter_holds (d := d) hs hc hfit
      refine ⟨s', _, ?_, hs', ?_⟩
      · simp only [if_neg hi, if_neg hn, hadvance', hins, Option.bind_eq_bind, Option.bind_some, Option.map_some]
      · have hmin : min i.toNat (L₁ ++ (a, x) :: L₂).length = (L₁.map Prod.snd).length + 1 := by
          rw [List.length_map, hlen]
          omega
        rw [hmin]
        simp only [List.map_append, List.map_cons]
        exact insertIdx_cut_succ.symm

/-- An insertion at the index that the reference means. -/
theorem kept_insertByIndex {op : Op} (hs : Holds s L) (i : Int) (hfit : s.list.entries + 1 < 2 ^ 32)
    (href : op.ref (L.map Prod.snd) =
      if d = 0 then none else some (.code 0, (L.map Prod.snd).insertIdx (min i.toNat L.length) d))
    (hop : op.Refused s ↔ ∀ c, s.heap.calloc at? c = none) :
    ∃ r, (insertByIndex s at? i d).map (Prod.map Ret.code id) = some r ∧ Kept s op L r := by
  rcases insertByIndex_holds at? d hs i hfit with ⟨hd, h⟩ | ⟨hc, h⟩ | ⟨hd, s', L', h, hs', hL⟩
  · rw [h]
    exact ⟨_, rfl, kept_of_error hs (by decide) (Or.inl (by rw [href, if_pos hd]))⟩
  · rw [h]
    exact ⟨_, rfl, kept_of_error hs (by decide) (Or.inr (hop.mpr hc))⟩
  · rw [h]
    exact ⟨_, rfl, kept_of_ref L' hs' (by rw [href, if_neg hd, hL]; rfl)⟩

/-- **Insertion by match**: behind the first entry that matches. -/
theorem kept_insertByMatch (hs : Holds s L) (f : Option Match) (e : Nat) (hfit : s.list.entries + 1 < 2 ^ 32) :
    ∃ r, step s (.insertByMatch at? f e d) = some r ∧ Kept s (.insertByMatch at? f e d) L r := by
  cases f with
  | none => exact ⟨_, rfl, kept_of_error hs (by decide) (Or.inl rfl)⟩
  | some f =>
    by_cases hhead : s.list.head = none
    · obtain rfl := hs.head_eq_none_iff.mp hhead
      refine ⟨(.code (-SLIST_NO_ENTRY), s), ?_, kept_of_error hs (by decide) (Or.inl rfl)⟩
      simp only [step, insertByMatch, if_pos hhead, Option.map_some, Prod.map_apply, id_eq]
    rcases hs.seek_eq (f · e) with ⟨hall, hseek⟩ | ⟨L₁, a, x, L₂, rfl, hx, hL₁, hseek⟩
    · refine ⟨(.code (-SLIST_NOT_MATCH), s), ?_, kept_of_error hs (by decide) (Or.inl ?_)⟩
      · simp only [step, insertByMatch, if_neg hhead, hseek, Option.bind_eq_bind, Option.bind_some, Option.pure_def,
          Option.map_some, Prod.map_apply, id_eq]
      · simp only [Op.ref, Option.bind_some, Option.map_eq_none_iff, List.findIdx?_eq_none_iff, List.forall_mem_map]
        exact hall
    · cases hc : s.heap.calloc at? ⟨d, none⟩ with
      | none =>
        refine ⟨(.code (-1), s), ?_, kept_of_error hs (by decide) (Or.inr (Cells.calloc_eq_none hc))⟩
        simp only [step, insertByMatch, if_neg hhead, hseek, hc, Option.bind_eq_bind, Option.bind_some,
          Option.pure_def, Option.map_some, Prod.map_apply, id_eq]
      | some r =>
        obtain ⟨new, h⟩ := r
        obtain ⟨s', hins, hs'⟩ := insertAfter_holds (d := d) hs hc hfit
        refine ⟨(.code WOW_SUCCESS, s'), ?_, kept_of_ref _ hs' ?_⟩
        · simp only [step, insertByMatch, if_neg hhead, hseek, hc, hins, Option.bind_eq_bind, Option.bind_some,
            Option.map_some, Prod.map_apply, id_eq]
        · have hL₁' : ∀ y ∈ L₁.map Prod.snd, f y e = false := by
            rw [List.forall_mem_map]
            exact hL₁
          simp only [Op.ref, Option.bind_some, List.map_append, List.map_cons]
          rw [findIdx?_cut hL₁' hx, Option.map_some, insertIdx_cut_succ]
          rfl

/-- **Removal** of the entry a walk has found. -/
theorem kept_removeAt {op : Op} {L₁ L₂ : List (Nat × Nat)} {a x : Nat} (hs : Holds s (L₁ ++ (a, x) :: L₂))
    (href : op.ref ((L₁ ++ (a, x) :: L₂).map Prod.snd) = some (.code 0, (L₁ ++ L₂).map Prod.snd)) :
    ∃ r, (removeAt s (lastOr none L₁, some a)).map (Prod.map Ret.code id) = some r ∧
      Kept s op (L₁ ++ (a, x) :: L₂) r := by
  obtain ⟨s', h, hs'⟩ := removeAt_holds hs
  rw [h]
  exact ⟨_, rfl, kept_of_ref _ hs' href⟩

/-- **Removal by index**. -/
theorem kept_removeByIndex {op : Op} (hs : Holds s L) (i : Int)
    (href : op.ref (L.map Prod.snd) =
      if 0 ≤ i ∧ i < L.length then some (.code 0, (L.map Prod.snd).eraseIdx i.toNat) else none) :
    ∃ r, (removeByIndex s i).map (Prod.map Ret.code id) = some r ∧ Kept s op L r := by
  rw [removeByIndex, hs.entries]
  by_cases hi : 0 ≤ i ∧ i < L.length
  · obtain ⟨L₁, a, x, L₂, rfl, hlen, hadvance⟩ := hs.advance_eq (i := i.toNat) (by omega)
    rw [if_pos hi, hadvance, Option.bind_some]
    refine kept_removeAt hs ?_
    rw [href, if_pos hi, List.map_append, List.map_cons, ← hlen, ← List.length_map Prod.snd, eraseIdx_cut,
      List.map_append]
  · rw [if_neg hi]
    exact ⟨_, rfl, kept_of_error hs (by decide) (Or.inl (by rw [href, if_neg hi]))⟩

/-- **Removal by content**. -/
theorem kept_removeSeek {op : Op} (hs : Holds s L) (stop : Nat → Bool)
    (href : op.ref (L.map Prod.snd) =
      if (L.map Prod.snd).any stop then some (.code 0, (L.map Prod.snd).eraseP stop) else none) :
    ∃ r, ((seek s.heap stop s.fuel none s.list.head).bind (removeAt s)).map (Prod.map Ret.code id) = some r ∧
      Kept s op L r := by
  rcases hs.seek_eq stop with ⟨hall, hseek⟩ | ⟨L₁, a, x, L₂, rfl, hx, hL₁, hseek⟩
  · rw [hseek, Option.bind_some]
    refine ⟨_, rfl, kept_of_error hs (by decide) (Or.inl ?_)⟩
    rw [href, if_neg]
    simpa using fun a b hab => hall (a, b) hab
  · have hL₁' : ∀ y ∈ L₁.map Prod.snd, stop y = false := by
      rw [List.forall_mem_map]
      exact hL₁
    rw [hseek, Option.bind_some]
    refine kept_removeAt hs ?_
    rw [href, if_pos (by simp [hx]), List.map_append, List.map_cons, eraseP_cut hL₁' hx, List.map_append]

/-- **Replacement** at the entry of a number. -/
theorem kept_replaceAt {op : Op} {L₁ L₂ : List (Nat × Nat)} {a x : Nat} (hs : Holds s (L₁ ++ (a, x) :: L₂))
    (href : op.ref ((L₁ ++ (a, x) :: L₂).map Prod.snd) = some (.code 0, (L₁ ++ (a, d) :: L₂).map Prod.snd)) :
    ∃ r, (replaceAt s d a).map (Prod.map Ret.code id) = some r ∧ Kept s op (L₁ ++ (a, x) :: L₂) r := by
  obtain ⟨s', h, hs'⟩ := replaceAt_holds (d := d) hs
  rw [h]
  exact ⟨_, rfl, kept_of_ref _ hs' href⟩

/-- The loop of a replacement by match. -/
theorem replaceAll_of_seg (stop : Nat → Bool) (d : Nat) {fuel : Nat} {h : Cells (Node Nat)} {p : Option Nat}
    (hs : Seg h p L none) (hnd : (L.map Prod.fst).Nodup) (hf : L.length < fuel) (hz : h.Sized) :
    ∃ h', replaceAll stop d fuel h p = some h' ∧
      Seg h' p (L.map fun c => (c.1, if stop c.2 then d else c.2)) none ∧ h'.Sized ∧
      ∀ b ∉ L.map Prod.fst, h'.cell b = h.cell b := by
  induction L generalizing fuel h p with
  | nil =>
    obtain ⟨k, rfl⟩ : ∃ k, fuel = k + 1 := Nat.exists_eq_succ_of_ne_zero (Nat.ne_of_gt hf)
    rw [show p = none from hs]
    exact ⟨h, rfl, rfl, hz, fun _ _ => rfl⟩
  | cons c L ih =>
    obtain ⟨a, x⟩ := c
    obtain ⟨rfl, n, hc, hs⟩ := hs
    obtain ⟨ha, hnd⟩ := List.nodup_cons.mp hnd
    cases fuel with
    | zero => exact absurd hf (Nat.not_lt_zero _)
    | succ fuel =>
      -- the entry after its own turn
      obtain ⟨h₁, hw, hcell, hother, hz₁⟩ : ∃ h₁, (if stop x then h.write a ⟨d, n⟩ else some h) = some h₁ ∧
          h₁.cell a = some ⟨if stop x then d else x, n⟩ ∧ (∀ b, b ≠ a → h₁.cell b = h.cell b) ∧ h₁.Sized := by
        by_cases hx : stop x = true
        · simp only [hx, if_true]
          exact ⟨_, Cells.write_of_cell hc _, Cells.cell_set_self _ _ _, fun b hb => Cells.cell_set_of_ne hb _ _,
            hz.set hc _⟩
        · simp only [hx]
          exact ⟨h, rfl, hc, fun _ _ => rfl, hz⟩
      have hs₁ : Seg h₁ n L none := hs.congr fun b hb => hother b fun hba => ha (hba ▸ hb)
      obtain ⟨h', hr, hseg, hz', hframe⟩ := ih hs₁ hnd (by simpa using hf) hz₁
      refine ⟨h', ?_, ⟨rfl, n, (hframe a ha).trans hcell, hseg⟩, hz', fun b hb => ?_⟩
      · simp only [replaceAll, hc, Option.bind_some, hw, hr]
      · rw [List.map_cons, List.mem_cons, not_or] at hb
        rw [hframe b hb.2, hother b hb.1]

/-- The loop of `wow_slist_clear`. -/
theorem freeAll_of_seg {fuel : Nat} {h : Cells (Node Nat)} {p : Option Nat} (hs : Seg h p L none)
    (hnd : (L.map Prod.fst).Nodup) (hf : L.length < fuel) (hz : h.Sized) :
    ∃ h', freeAll fuel h p = some h' ∧ h'.Sized := by
  induction L generalizing fuel h p with
  | nil =>
    obtain ⟨k, rfl⟩ : ∃ k, fuel = k + 1 := Nat.exists_eq_succ_of_ne_zero (Nat.ne_of_gt hf)
    rw [show p = none from hs]
    exact ⟨h, rfl, hz⟩
  | cons c L ih =>
    obtain ⟨rfl, n, hc, hs⟩ := hs
    obtain ⟨ha, hnd⟩ := List.nodup_cons.mp hnd
    cases fuel with
    | zero => exact absurd hf (Nat.not_lt_zero _)
    | succ fuel =>
      obtain ⟨h', hr, hz'⟩ := ih (hs.erase ha) hnd (by simpa using hf) (hz.erase c.1)
      refine ⟨h', ?_, hz'⟩
      simp only [freeAll, hc, Cells.free_of_cell hc, hr, Option.bind_eq_bind, Option.bind_some]

/-- **Replacement by match**: at every entry that matches. -/
theorem kept_replaceByMatch (hs : Holds s L) (f : Option Match) (x : Nat) :
    ∃ r, step s (.replaceByMatch f x d) = some r ∧ Kept s (.replaceByMatch f x d) L r := by
  cases f with
  | none => exact ⟨_, rfl, kept_of_error hs (by decide) (Or.inl rfl)⟩
  | some f =>
    by_cases hx : x = 0
    · refine ⟨(.code PARAM_INPUT_DATA_IS_NULL, s), ?_, kept_of_error hs (by decide) (Or.inl ?_)⟩
      · simp only [step, replaceByMatch, if_pos hx, Option.map_some, Prod.map_apply, id_eq]
      · simp only [Op.ref, Option.bind_some, if_pos hx]
    · obtain ⟨h', hr, hseg, hz, -⟩ := replaceAll_of_seg (f · x) d hs.seg hs.nodup hs.lt_fuel hs.sized
      have hfst : (L.map fun c => (c.1, if f c.2 x then d else c.2)).map Prod.fst = L.map Prod.fst := by
        rw [List.map_map]
        rfl
      refine ⟨(.code WOW_SUCCESS, { s with heap := h' }), ?_, kept_of_ref
        (L.map fun c => (c.1, if f c.2 x then d else c.2)) ⟨hseg, hfst ▸ hs.nodup, ?_, ?_, hs.lt, hz⟩ ?_⟩
      · simp only [step, replaceByMatch, if_neg hx, hr, Option.map_some, Prod.map_apply, id_eq]
      · rw [hs.tail]
        simp only [lastOr, List.foldl_map]
      · rw [List.length_map]
        exact hs.entries
      · simp only [Op.ref, Option.bind_some, if_neg hx, List.map_map]
        rfl

/-- **Removal at the end**. -/
theorem kept_removeTail (hs : Holds s L) (hfit : Op.removeTail.Fits s) :
    ∃ r, step s .removeTail = some r ∧ Kept s .removeTail L r := by
  have hlen : (L.map Prod.snd).length = L.length := List.length_map _
  have h31 : s.list.entries < 2 ^ 31 := hfit
  refine kept_removeByIndex hs _ ?_
  rw [toInt_of_lt h31, hs.entries]
  by_cases hL : L = []
  · simp [Op.ref, hL]
  · have hpos : 0 < L.length := List.length_pos_iff.mpr hL
    have htoNat : ((L.length : Int) - 1).toNat = L.length - 1 := by omega
    rw [if_pos (by omega), htoNat, ← hlen, List.eraseIdx_length_sub_one]
    simp [Op.ref, hL]

/-- **Removal of data**: of the first entry that holds it. -/
theorem kept_remove (hs : Holds s L) (d : Nat) :
    ∃ r, step s (.remove d) = some r ∧ Kept s (.remove d) L r := by
  by_cases hd : d = 0
  · refine ⟨(.code PARAM_INPUT_DATA_IS_NULL, s), ?_, kept_of_error hs (by decide) (Or.inl ?_)⟩
    · simp only [step, remove, if_pos hd, Option.map_some, Prod.map_apply, id_eq]
    · simp [Op.ref, hd]
  · simp only [step, remove, if_neg hd]
    refine kept_removeSeek hs (· == d) ?_
    rw [Op.ref, List.erase_eq_eraseP']
    exact if_congr (by simp [hd]) rfl rfl

/-- **Removal by match**. -/
theorem kept_removeByMatch (hs : Holds s L) (f : Option Match) (x : Nat) :
    ∃ r, step s (.removeByMatch f x) = some r ∧ Kept s (.removeByMatch f x) L r := by
  cases f with
  | none => exact ⟨_, rfl, kept_of_error hs (by decide) (Or.inl rfl)⟩
  | some f =>
    by_cases hx : x = 0
    · refine ⟨(.code PARAM_INPUT_DATA_IS_NULL, s), ?_, kept_of_error hs (by decide) (Or.inl ?_)⟩
      · simp only [step, removeByMatch, if_pos hx, Option.map_some, Prod.map_apply, id_eq]
      · simp [Op.ref, hx]
    · simp only [step, removeByMatch, if_neg hx]
      refine kept_removeSeek hs (f · x) ?_
      exact if_congr (and_iff_right hx) rfl rfl

/-- **Replacement at the head**. -/
theorem kept_replaceHead (hs : Holds s L) (d : Nat) :
    ∃ r, step s (.replaceHead d) = some r ∧ Kept s (.replaceHead d) L r := by
  cases L with
  | nil =>
    refine ⟨(.code (-SLIST_NO_ENTRY), s), ?_, kept_of_error hs (by decide) (Or.inl rfl)⟩
    simp only [step, replaceHead, hs.head_eq_none_iff.mpr rfl, Option.map_some, Prod.map_apply, id_eq]
  | cons c L =>
    simp only [step, replaceHead, hs.seg.1]
    exact kept_replaceAt (show Holds s ([] ++ c :: L) from hs) rfl

/-- **Replacement at the end**. -/
theorem kept_replaceTail (hs : Holds s L) (d : Nat) :
    ∃ r, step s (.replaceTail d) = some r ∧ Kept s (.replaceTail d) L r := by
  rcases List.eq_nil_or_concat L with rfl | ⟨L, ⟨a, x⟩, rfl⟩
  · refine ⟨(.code (-SLIST_NO_ENTRY), s), ?_, kept_of_error hs (by decide) (Or.inl rfl)⟩
    simp only [step, replaceTail, hs.tail, lastOr_nil, Option.map_some, Prod.map_apply, id_eq]
  · rw [List.concat_eq_append] at *
    simp only [step, replaceTail, hs.tail, lastOr_append_cons, lastOr_nil]
    refine kept_replaceAt hs ?_
    have h := set_cut (L.map Prod.snd) [] x d
    rw [List.length_map] at h
    simp [Op.ref, h]

/-- **Replacement by index**. -/
theorem kept_replaceByIndex (hs : Holds s L) (i : Int) (d : Nat) :
    ∃ r, step s (.replaceByIndex i d) = some r ∧ Kept s (.replaceByIndex i d) L r := by
  have hlen : (L.map Prod.snd).length = L.length := List.length_map _
  by_cases hi : 0 ≤ i ∧ i < L.length
  · obtain ⟨L₁, a, x, L₂, rfl, hl, hadvance⟩ := hs.advance_eq (i := i.toNat) (by omega)
    simp only [step, replaceByIndex, hs.entries, if_pos hi, hadvance, Option.bind_eq_bind, Option.bind_some]
    refine kept_replaceAt hs ?_
    rw [Op.ref, hlen, if_pos hi]
    simp only [List.map_append, List.map_cons]
    rw [← hl, show L₁.length = (L₁.map Prod.snd).length from (List.length_map _).symm, set_cut]
  · refine ⟨(.code PARAM_INPUT_ARG_INVALID, s), ?_, kept_of_error hs (by decide) (Or.inl ?_)⟩
    · simp only [step, replaceByIndex, hs.entries, if_neg hi, Option.map_some, Prod.map_apply, id_eq]
    · simp only [Op.ref, hlen, if_neg hi]

/-- **Clearing**. -/
theorem kept_clear (hs : Holds s L) : ∃ r, step s .clear = some r ∧ Kept s .clear L r := by
  by_cases hhead : s.list.head = none
  · obtain rfl := hs.head_eq_none_iff.mp hhead
    refine ⟨(.code WOW_SUCCESS, s), ?_, kept_of_ref _ hs rfl⟩
    simp only [step, clear, if_pos hhead, Option.map_some, Prod.map_apply, id_eq]
  · obtain ⟨h', hr, hz⟩ := freeAll_of_seg hs.seg hs.nodup hs.lt_fuel hs.sized
    refine ⟨(.code WOW_SUCCESS, ⟨⟨none, none, 0⟩, h'⟩), ?_,
      kept_of_ref [] ⟨rfl, List.nodup_nil, rfl, rfl, Nat.two_pow_pos 32, hz⟩ rfl⟩
    simp only [step, clear, if_neg hhead, hr, Option.map_some, Prod.map_apply, id_eq]

/-! ### Peeking -/

/-- The data of an entry of the list. -/
theorem dataOf_mid {L₁ L₂ : List (Nat × Nat)} {a x : Nat} (hs : Holds s (L₁ ++ (a, x) :: L₂)) :
    dataOf s (some a) = some x := by
  obtain ⟨n, hn, -⟩ := hs.seg.cell_of_mid
  rw [dataOf, hn]
  rfl

theorem peekHead_eq (hs : Holds s L) : peekHead s = some ((L.map Prod.snd).head?.getD 0) := by
  cases L with
  | nil => rw [peekHead, hs.head_eq_none_iff.mpr rfl]; rfl
  | cons c L =>
    rw [peekHead, hs.seg.1]
    exact dataOf_mid (show Holds s ([] ++ c :: L) from hs)

theorem peekTail_eq (hs : Holds s L) : peekTail s = some ((L.map Prod.snd).getLast?.getD 0) := by
  rcases List.eq_nil_or_concat L with rfl | ⟨L, ⟨a, x⟩, rfl⟩
  · rw [peekTail, if_pos (hs.head_eq_none_iff.mpr rfl)]
    rfl
  · rw [List.concat_eq_append] at *
    have hhead : ¬ s.list.head = none := fun hh => by simpa using hs.head_eq_none_iff.mp hh
    rw [peekTail, if_neg hhead, hs.tail, lastOr_append_cons, lastOr_nil, Option.bind_some,
      show (s.heap.cell a).map Node.data = some x from dataOf_mid hs]
    simp

theorem peekByIndex_eq (hs : Holds s L) (i : Int) :
    peekByIndex s i = some (if 0 ≤ i then (L.map Prod.snd).getD i.toNat 0 else 0) := by
  rw [peekByIndex, hs.entries]
  by_cases hi : 0 ≤ i ∧ i < L.length
  · obtain ⟨L₁, a, x, L₂, rfl, hlen, hadvance⟩ := hs.advance_eq (i := i.toNat) (by omega)
    rw [if_pos hi, hadvance, Option.bind_some, dataOf_mid hs, if_pos hi.1, ← hlen]
    simp [List.getD_eq_getElem?_getD]
  · rw [if_neg hi]
    by_cases h0 : 0 ≤ i
    · rw [if_pos h0, List.getD_eq_getElem?_getD, List.getElem?_eq_none (by rw [List.length_map]; omega)]
      rfl
    · rw [if_neg h0]

theorem peekByMatch_eq (hs : Holds s L) (f : Option Match) (x : Nat) :
    peekByMatch s f x = some ((f.bind fun f => (L.map Prod.snd).find? (f · x)).getD 0) := by
  cases f with
  | none => rfl
  | some f =>
    rw [peekByMatch, Option.bind_some]
    rcases hs.seek_eq (f · x) with ⟨hall, hseek⟩ | ⟨L₁, a, y, L₂, rfl, hy, hL₁, hseek⟩
    · have hnone : (L.map Prod.snd).find? (f · x) = none := by
        rw [List.find?_eq_none, List.forall_mem_map]
        exact fun c hc => by simp [hall c hc]
      rw [hseek, Option.bind_some, hnone]
      rfl
    · have hL₁' : ∀ z ∈ L₁.map Prod.snd, f z x = false := by
        rw [List.forall_mem_map]
        exact hL₁
      rw [hseek, Option.bind_some, dataOf_mid hs, List.map_append, List.map_cons, find?_cut hL₁' hy]
      rfl

theorem kept_peek {op : Op} {v : Nat} {p : Option Nat} (hs : Holds s L) (hp : p = some v)
    (href : op.ref (L.map Prod.snd) = some (.data v, L.map Prod.snd)) :
    ∃ r, p.map (fun p => (Ret.data p, s)) = some r ∧ Kept s op L r :=
  ⟨(.data v, s), by rw [hp, Option.map_some], kept_of_ref _ hs href⟩

/-! ### One operation, and a run -/

/-- **One operation** does what the reference does, while the count fits its type. -/
theorem step_kept (hs : Holds s L) (op : Op) (hfit : op.Fits s) : ∃ r, step s op = some r ∧ Kept s op L r := by
  have hlen : (L.map Prod.snd).length = L.length := List.length_map _
  cases op with
  | insertHead at? d =>
    refine kept_insertByIndex hs 0 hfit ?_ Iff.rfl
    simp [Op.ref]
  | insertTail at? d =>
    have h31 : s.list.entries < 2 ^ 31 := hfit
    have hi : toInt s.list.entries = L.length := by rw [toInt_of_lt h31, hs.entries]
    refine kept_insertByIndex hs (toInt s.list.entries) (by omega) ?_ Iff.rfl
    have h := insertIdx_cut (L.map Prod.snd) [] d
    rw [List.append_nil, hlen] at h
    rw [hi, Int.toNat_natCast, Nat.min_self, h]
    rfl
  | insertByIndex at? i d =>
    refine kept_insertByIndex hs i hfit ?_ Iff.rfl
    rw [← hlen]
    rfl
  | insertByMatch at? f e d => exact kept_insertByMatch hs f e hfit
  | peekHead => exact kept_peek hs (peekHead_eq hs) rfl
  | peekTail => exact kept_peek hs (peekTail_eq hs) rfl
  | peekByIndex i => exact kept_peek hs (peekByIndex_eq hs i) rfl
  | peekByMatch f x => exact kept_peek hs (peekByMatch_eq hs f x) rfl
  | removeHead =>
    refine kept_removeByIndex hs 0 ?_
    cases L <;> simp [Op.ref]
  | removeTail => exact kept_removeTail hs hfit
  | remove d => exact kept_remove hs d
  | removeByIndex i =>
    refine kept_removeByIndex hs i ?_
    rw [← hlen]
    rfl
  | removeByMatch f x => exact kept_removeByMatch hs f x
  | replaceHead d => exact kept_replaceHead hs d
  | replaceTail d => exact kept_replaceTail hs d
  | replaceByIndex i d => exact kept_replaceByIndex hs i d
  | replaceByMatch f x d => exact kept_replaceByMatch hs f x
  | clear => exact kept_clear hs

theorem refines_of_holds (hs : Holds s L) {ops : List Op} (hfit : Fitting s ops) :
    Refines s (L.map Prod.snd) ops := by
  induction ops generalizing s L with
  | nil => exact hs.rep
  | cons op ops ih =>
    obtain ⟨⟨r, s'⟩, hstep, L', hdoes, hs'⟩ := step_kept hs op hfit.1
    have hfit' := hfit.2
    rw [hstep] at hfit'
    exact ⟨hs.rep, r, s', _, hstep, hdoes, ih hs' hfit'⟩

/-- **The linked list is a list** in every run whose count fits its type. -/
theorem slist_refines (ops : List Op) (hfit : Fitting create ops) : Refines create [] ops :=
  refines_of_holds holds_create hfit

/-- A run through all four kinds of operations. -/
def demoOps : List Op :=
  [.insertHead (some 8) 1, .insertTail (some 3) 2, .insertByMatch (some 5) (some (· == ·)) 1 4,
    .replaceByIndex 2 6, .removeTail, .peekTail, .removeByMatch (some (· == ·)) 1, .clear]

theorem slist_refines_demo : Fitting create demoOps ∧ Refines create [] demoOps :=
  ⟨by decide, slist_refines demoOps (by decide)⟩

/-! ### A list of `2 ^ 31` entries -/

/-- A list of `n` entries that were all inserted at the head. -/
structure Built (n : Nat) (s : State) (L : List (Nat × Nat)) : Prop where
  holds : Holds s L
  data : L.map Prod.snd = List.replicate n 1
  free : ∀ a, n ≤ a → s.heap.cell a = none

theorem Built.entries {n : Nat} (hb : Built n s L) : s.list.entries = n := by
  rw [hb.holds.entries, ← List.length_map Prod.snd, hb.data, List.length_replicate]

/-- An insertion at an index that is no positive number. -/
theorem insertByIndex_head {n : Nat} {i : Int} (hs : Holds s L) (hfree : ∀ a, n ≤ a → s.heap.cell a = none)
    (hi : i ≤ 0) (hd : d ≠ 0) (hfit : s.list.entries + 1 < 2 ^ 32) :
    ∃ s', insertByIndex s (some n) i d = some (WOW_SUCCESS, s') ∧ Holds s' ((n, d) :: L) ∧
      ∀ a, n + 1 ≤ a → s'.heap.cell a = none := by
  have hc := Cells.calloc_of_free (hfree n (Nat.le_refl n)) ⟨d, none⟩
  have hcell := Cells.cell_of_calloc hc
  refine ⟨_, ?_, prepend_holds hs hc hfit, fun a ha => ?_⟩
  · simp only [insertByIndex, if_neg hd, hc, if_pos hi, Cells.write_of_cell hcell, Option.bind_eq_bind,
      Option.bind_some, Option.pure_def]
  · have hna : a ≠ n := by omega
    rw [Cells.cell_set_of_ne hna]
    exact (Cells.cell_set_of_ne hna _ _).trans (hfree a (by omega))

/-- `k` insertions at the head, at the addresses from `n` on. -/
def heads (n k : Nat) : List Op := (List.range' n k).map fun a => .insertHead (some a) 1

/-- What a step of the run says when the operation succeeds. -/
theorem refines_cons {op : Op} {ops : List Op} {l : List Nat} (s' : State) (h : Refines s l (op :: ops))
    (hstep : step s op = some (.code WOW_SUCCESS, s')) :
    ∃ l', op.ref l = some (.code WOW_SUCCESS, l') ∧ Refines s' l' ops := by
  obtain ⟨-, r, s₁, l', hstep₁, hdoes, hrest⟩ := h
  obtain ⟨rfl, rfl⟩ := Prod.mk.inj (Option.some.inj (hstep.symm.trans hstep₁))
  rcases hdoes with href | ⟨hr, -⟩
  · exact ⟨l', href, hrest⟩
  · exact absurd rfl hr

/-- The head of a list that is held. -/
theorem Rep.head_data {a x : Nat} {n : Option Nat} {l : List Nat} (h : Rep s (x :: l)) (hh : s.list.head = some a)
    (hc : s.heap.cell a = some ⟨d, n⟩) : d = x := by
  obtain ⟨L, hL, hseg, -⟩ := h
  cases L with
  | nil => simp at hL
  | cons c L =>
    obtain ⟨hhead, n', hn', -⟩ := hseg
    obtain rfl : a = c.1 := Option.some.inj (hh.symm.trans hhead)
    rw [hc] at hn'
    exact (Node.mk.inj (Option.some.inj hn')).1.trans (List.cons.inj hL).1

/-- The last of the insertions goes to the wrong end. -/
theorem not_refines_of_built {n k : Nat} (hk : n + k = 2 ^ 31) (hb : Built n s L) :
    ¬ Refines s (List.replicate n 1) (heads n k ++ [.insertTail (some (n + k)) 2]) := by
  induction k generalizing n s L with
  | zero =>
    intro h
    have hneg : toInt s.list.entries ≤ 0 := by
      rw [hb.entries, ← Nat.add_zero n, hk]
      decide
    have hfit : s.list.entries + 1 < 2 ^ 32 := by rw [hb.entries]; omega
    obtain ⟨s₁, hs₁, hholds, -⟩ := insertByIndex_head (d := 2) hb.holds hb.free hneg (by decide) hfit
    obtain ⟨l', href, hrest⟩ := refines_cons s₁ h (by rw [step, insertTail, Nat.add_zero, hs₁]; rfl)
    obtain ⟨m, rfl⟩ : ∃ m, n = m + 1 := Nat.exists_eq_succ_of_ne_zero (by omega)
    rw [Op.ref, if_neg (by decide), List.replicate_succ] at href
    obtain rfl : 1 :: List.replicate m 1 ++ [2] = l' := (Prod.mk.inj (Option.some.inj href)).2
    obtain ⟨hhead, n', hn', -⟩ := hholds.seg
    exact absurd (Rep.head_data hrest hhead hn') (by decide)
  | succ k ih =>
    rw [heads, List.range'_succ, List.map_cons, List.cons_append, show n + (k + 1) = n + 1 + k by omega]
    intro h
    have hfit : s.list.entries + 1 < 2 ^ 32 := by rw [hb.entries]; omega
    obtain ⟨s₁, hs₁, hholds, hfree⟩ :=
      insertByIndex_head (d := 1) hb.holds hb.free (Int.le_refl 0) (by decide) hfit
    obtain ⟨l', href, hrest⟩ := refines_cons s₁ h (by rw [step, insertHead, hs₁]; rfl)
    rw [Op.ref, if_neg (by decide), ← List.replicate_succ] at href
    obtain rfl : List.replicate (n + 1) 1 = l' := (Prod.mk.inj (Option.some.inj href)).2
    refine ih (by omega) ⟨hholds, ?_, hfree⟩ hrest
    rw [List.map_cons, hb.data, List.replicate_succ]

theorem not_refines_heads {k : Nat} (hk : k = 2 ^ 31) :
    ¬ Refines create [] (heads 0 k ++ [.insertTail (some (0 + k)) 2]) := by
  have hb : Built 0 create [] := ⟨holds_create, rfl, fun _ _ => rfl⟩
  exact not_refines_of_built (by omega) hb

/-- An entry more than an `int` counts, inserted at the end, becomes the first. -/
theorem not_slist_refines : ¬ ∀ ops, Refines create [] ops := fun h => not_refines_heads rfl (h _)

end Operations

end Wow.Slist
