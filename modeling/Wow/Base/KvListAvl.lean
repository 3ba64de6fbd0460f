import Wow.Base.KvListTree

/-!
# Wow.Base.KvListAvl — the tree of the key-value list stays balanced

The keys are read through buffers that nobody else touches, so a buffer is its string: `strings`.  On these the
code of the list runs as the trees of the library do, and every tree it reaches is a search tree under `strcmp`
with the heights stored as they are.

* `avlInsert_strings`, `avlDelete_strings`, `avlUpdate_strings`: one call.
* `kvlist_balanced`: every sequence of calls.
-/

namespace Wow.KvList

open Avl Avl.Tree

/-- Buffers that are their strings. -/
def strings : Buffers Unit CStr where
  strcmp _ a b := some (strcmp a.chars b.chars)
  dup s a := some (a, s)
  copy s a := some (a, s)
  free s _ := some s

/-- The calls from `s` on. -/
def calls (s : KvList Unit CStr) : List (Call CStr) → Option (KvList Unit CStr)
  | [] => some s
  | c :: cs => (s.call strings c).bind fun r => calls r.2 cs

/-- Keys to the left compare as less, keys to the right as greater. -/
def SearchTree : AVLNode CStr → Prop
  | nil => True
  | node k _ _ l r => SearchTree l ∧ SearchTree r ∧ (∀ e ∈ l.toList, strcmp e.1.chars k.chars < 0) ∧
      ∀ e ∈ r.toList, strcmp e.1.chars k.chars > 0

theorem searchTree_iff {t : AVLNode CStr} : SearchTree t ↔ t.Ordered := by
  induction t with
  | nil => exact Iff.rfl
  | node k v h l r ihl ihr => simp only [SearchTree, Ordered, ihl, ihr, strcmp_neg_iff, gt_iff_lt, strcmp_pos_iff]

/-! ### One call -/

/-- A balanced search tree whose keys are the strings they read as. -/
structure Tidy (T : Tree CStr (CStr × CStr)) : Prop where
  avl : T.IsAvl
  ordered : T.Ordered
  keys : ∀ e ∈ T.toList, e.2.1 = e.1

namespace Tidy

variable {T : Tree CStr (CStr × CStr)} {k v : CStr}

theorem reads (hT : Tidy T) (k : CStr) : Reads strings () k k T := by
  intro e he
  change some _ = _
  rw [hT.keys e he]

theorem readsAll (hT : Tidy T) : ReadsAll strings () T := by
  intro e he
  rw [hT.keys e he]
  exact hT.reads e.1

theorem insert (hT : Tidy T) : Tidy (T.insert k (k, v)) := by
  refine ⟨(isAvl_insert hT.avl).1, hT.ordered.insert, fun e he => ?_⟩
  rw [toList_insert hT.ordered, insertList, List.mem_append, List.mem_cons] at he
  rcases he with he | rfl | he
  · exact hT.keys e (List.mem_filter.mp he).1
  · rfl
  · exact hT.keys e (List.mem_filter.mp he).1

theorem update (hT : Tidy T) : Tidy (T.update k (k, v)) := by
  refine ⟨(isAvl_update hT.avl).1, hT.ordered.update, fun e he => ?_⟩
  rw [toList_update hT.ordered] at he
  obtain ⟨d, hd, rfl⟩ := List.mem_map.mp he
  split_ifs
  · rfl
  · exact hT.keys d hd

theorem delete (hT : Tidy T) (k : CStr) : Tidy (T.delete k) := by
  refine ⟨(isAvl_delete hT.avl k).1, hT.ordered.delete k, fun e he => ?_⟩
  rw [toList_delete hT.ordered] at he
  exact hT.keys e (List.mem_filter.mp he).1

/-- A key is there with its string, or it is not there. -/
theorem mem_or_absent (hT : Tidy T) (k : CStr) : (∃ v, (k, k, v) ∈ T.toList) ∨ ∀ e ∈ T.toList, e.1 ≠ k := by
  by_cases habs : ∀ e ∈ T.toList, e.1 ≠ k
  · exact Or.inr habs
  · push Not at habs
    obtain ⟨⟨k', kp, v⟩, he, rfl⟩ := habs
    exact Or.inl ⟨v, by rw [show kp = k' from hT.keys _ he] at he; exact he⟩

theorem avlInsert_strings (hT : Tidy T) (k v : CStr) :
    avlInsert strings () k v (ptrs T) = some (ptrs (T.insert k (k, v)), ()) := by
  rcases hT.mem_or_absent k with ⟨v₀, hmem⟩ | habs
  · rw [avlInsert_old hT.avl hT.ordered (hT.reads k) hmem, insert_eq_update hT.avl hT.ordered hmem]
  · exact avlInsert_new hT.avl habs (hT.reads k) rfl (hT.reads k)

theorem avlUpdate_strings (hT : Tidy T) (k v : CStr) :
    avlUpdate strings k v () (ptrs T) = some (ptrs (T.update k (k, v)), ()) := by
  rcases hT.mem_or_absent k with ⟨v₀, hmem⟩ | habs
  · exact avlUpdate_present hT.avl hT.ordered (hT.reads k) hmem rfl rfl
  · rw [avlUpdate_absent hT.avl habs (hT.reads k), update_of_absent habs]

theorem avlDelete_strings (hT : Tidy T) (k : CStr) :
    avlDelete strings () (ptrs T) k = some (ptrs (T.delete k), ()) :=
  avlDelete_free (fun _ _ => rfl) hT.avl (hT.reads k) hT.readsAll

/-- The tree of the strings is a balanced search tree as well. -/
theorem ordered_ptrs (hT : Tidy T) : (ptrs T).Ordered := by
  have hkeys : T.toList.Pairwise fun a b => a.2.1 < b.2.1 :=
    (ordered_iff.mp hT.ordered).imp_of_mem fun {a b} ha hb hab => by rwa [hT.keys a ha, hT.keys b hb]
  rw [ordered_iff, ptrs, toList_relabel, List.pairwise_map]
  exact hkeys

end Tidy

/-- One call keeps the tree tidy. -/
theorem call_strings {T : Tree CStr (CStr × CStr)} (hT : Tidy T) (c : Call CStr) :
    ∃ n T', (⟨ptrs T, ()⟩ : KvList Unit CStr).call strings c = some (n, ⟨ptrs T', ()⟩) ∧ Tidy T' := by
  have herr : ∃ n T', some (-PARAM_INPUT_DATA_IS_NULL, (⟨ptrs T, ()⟩ : KvList Unit CStr)) = some (n, ⟨ptrs T', ()⟩) ∧
      Tidy T' := ⟨_, T, rfl, hT⟩
  match c with
  | .set none _ | .set (some _) none | .update none _ | .update (some _) none | .delete none => exact herr
  | .set (some k) (some v) =>
    exact ⟨WOW_SUCCESS, _, by simp only [KvList.call, wowKvlistSet, hT.avlInsert_strings]; rfl, hT.insert⟩
  | .update (some k) (some v) =>
    exact ⟨WOW_SUCCESS, _, by simp only [KvList.call, wowKvlistUpdate, hT.avlUpdate_strings]; rfl, hT.update⟩
  | .delete (some k) =>
    exact ⟨WOW_SUCCESS, _, by simp only [KvList.call, wowKvlistDelete, hT.avlDelete_strings]; rfl, hT.delete k⟩

/-! ### Every sequence of calls -/

theorem calls_strings {T : Tree CStr (CStr × CStr)} (hT : Tidy T) (cs : List (Call CStr)) :
    ∃ T', calls ⟨ptrs T, ()⟩ cs = some ⟨ptrs T', ()⟩ ∧ Tidy T' := by
  induction cs generalizing T with
  | nil => exact ⟨T, rfl, hT⟩
  | cons c cs ih =>
    obtain ⟨n, T₁, hcall, hT₁⟩ := call_strings hT c
    obtain ⟨T', hcalls, hT'⟩ := ih hT₁
    exact ⟨T', by rw [calls, hcall]; exact hcalls, hT'⟩

/-- **The tree of the list.**  Whatever calls have been made from the empty list on, none of them has followed
`NULL`, and the tree is a search tree under `strcmp` with distinct keys, with every height stored as it is and no
two subtrees of a node more than one level apart. -/
theorem kvlist_balanced (cs : List (Call CStr)) : ∃ s, calls (wowKvlistCreate ()) cs = some s ∧
    SearchTree s.root ∧ (s.root.toList.map Prod.fst).Nodup ∧ s.root.Balanced := by
  obtain ⟨T, hcalls, hT⟩ := calls_strings ⟨isAvl_nil, trivial, nofun⟩ cs
  refine ⟨_, hcalls, searchTree_iff.mpr hT.ordered_ptrs, ?_, (isAvl_ptrs hT.avl).balanced⟩
  rw [List.nodup_iff_pairwise_ne, List.pairwise_map]
  exact (ordered_iff.mp hT.ordered_ptrs).imp fun hlt => ne_of_lt hlt

end Wow.KvList
