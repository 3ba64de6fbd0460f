import Wow.Base.KvListHeap

/-!
# Wow.Base.KvListMap — the key-value list owns its buffers and is a finite map

Three calls go wrong: to set a key that exists stores the caller's pointer, an update may leave the new value
without its terminator, and to delete a node with two children releases the buffers that its successor has just
handed over.  A caller who avoids them (`Fits`) finds the list in order after every event.

* `Inv.set`, `Inv.update`, `Inv.delete`: what a call does to the entries and their buffers.
* `step_kept`: one event of the list beside the map it stands for.
* `kvlist_owns`: the list owns its buffers; `kvlist_agrees`: what it answers is what the map holds.
-/

namespace Wow.KvList

open Avl Avl.Tree

/-! ### The map -/

/-- What a call does to the map from keys to values, by what the pointers read as. -/
def Call.ref {P : Type} (str : P → Option CStr) (m : CStr → Option CStr) : Call P → CStr → Option CStr
  | .set (some key) (some val) =>
    match str key, str val with
    | some k, some v => Function.update m k (some v)
    | _, _ => m
  | .update (some key) (some val) =>
    match str key, str val with
    | some k, some v => if (m k).isSome then Function.update m k (some v) else m
    | _, _ => m
  | .delete (some key) =>
    match str key with
    | some k => Function.update m k none
    | none => m
  | _ => m

/-- The map after an event. -/
def Event.ref (s : World) (m : CStr → Option CStr) : Event → CStr → Option CStr
  | .call c _ => if Passes s c then c.ref s.mem.str m else m
  | _ => m

/-- The list and the map, event by event. -/
def lock (s : World) (m : CStr → Option CStr) : List Event → Option (World × (CStr → Option CStr))
  | [] => some (s, m)
  | e :: es => (step s e).bind fun s' => lock s' (e.ref s m) es

/-- **What the list answers** is what the map holds: every search, the listing and the size. -/
structure Agrees (s : World) (m : CStr → Option CStr) : Prop where
  get : ∀ p k, s.mem.str p = some k →
    ∃ r, wowKvlistGet heap s (some p) = some r ∧ r.map s.mem.str = (m k).map some
  listing : ∃ L : List (CStr × CStr), (wowKvlistForeach s).1.map s.mem.str = L.map (fun e => some e.1) ∧
    (wowKvlistForeach s).2.1.map s.mem.str = L.map (fun e => some e.2) ∧ (wowKvlistForeach s).2.2 = L.length ∧
    L.Pairwise (fun a b => strcmp a.1.chars b.1.chars < 0) ∧ (∀ k v, (k, v) ∈ L ↔ m k = some v) ∧
    wowKvlistSize s = L.length

/-! ### The condition -/

/-- The key is not in the tree. -/
def Absent (s : World) (key : Nat) : Prop := avlSearch heap s.mem key s.root = some none

instance (s : World) (key : Nat) : Decidable (Absent s key) := inferInstanceAs (Decidable (_ = _))

/-- The node of the key lacks a child. -/
def lacksChild (s : Heap) (key : Nat) : AVLNode Nat → Bool
  | nil => true
  | node k _ _ l r =>
    match heap.strcmp s key k with
    | none => false
    | some c => if c < 0 then lacksChild s key l else if c > 0 then lacksChild s key r else l.isNil || r.isNil

/-- **The condition**: a key is set only when it is not there; a new value of a key that is there gets a terminator
by chance; a node that is deleted lacks a child. -/
def Fits (s : World) : Event → Prop
  | .call (.set (some key) (some _)) _ => Absent s key
  | .call (.update (some key) (some _)) fill => Absent s key ∨ fill = 0
  | .call (.delete (some key)) _ => Absent s key ∨ lacksChild s.mem key s.root = true
  | _ => True

instance (s : World) (e : Event) : Decidable (Fits s e) := by
  unfold Fits
  split <;> infer_instance

/-- Keys that a call may add. -/
def Event.grows : Event → Nat
  | .call (.set (some _) (some _)) _ => 1
  | _ => 0

/-- The condition, and that the keys can be counted in an `int`. -/
def FitsCount (s : World) (e : Event) : Prop := Fits s e ∧ (avlGetAll s.root).length + e.grows < 2 ^ 31

instance (s : World) (e : Event) : Decidable (FitsCount s e) := inferInstanceAs (Decidable (_ ∧ _))

/-- Every event up to a fault meets the condition `Q`. -/
def Fitting (Q : World → Event → Prop) : World → List Event → Prop
  | _, [] => True
  | s, e :: es => Q s e ∧ match step s e with
    | none => True
    | some s' => Fitting Q s' es

instance decidableFitting {Q : World → Event → Prop} [∀ s e, Decidable (Q s e)] :
    ∀ (s : World) (es : List Event), Decidable (Fitting Q s es)
  | _, [] => inferInstanceAs (Decidable True)
  | s, e :: es =>
    have : Decidable (match step s e with
      | none => True
      | some s' => Fitting Q s' es) :=
      match step s e with
      | none => inferInstanceAs (Decidable True)
      | some s' => decidableFitting s' es
    inferInstanceAs (Decidable (Q s e ∧ _))

/-! ### The entries and the map -/

/-- The entries hold the values of the map. -/
def Stores (h : Heap) (L : List (CStr × Nat × Nat)) (m : CStr → Option CStr) : Prop :=
  ∀ k v, m k = some v ↔ ∃ e ∈ L, e.1 = k ∧ h.str e.2.2 = some v

namespace Stores

variable {h h' : Heap} {L L' : List (CStr × Nat × Nat)} {m : CStr → Option CStr} {k v : CStr} {kp vp : Nat}

theorem perm (hm : Stores h L m) (hp : L.Perm L') : Stores h L' m := by
  intro k v
  rw [hm k v]
  exact exists_congr fun e => and_congr_left' hp.mem_iff

theorem frame (hm : Stores h L m) (hstr : ∀ p ∈ buffers L, h'.str p = h.str p) : Stores h' L m := by
  intro k v
  rw [hm k v]
  refine exists_congr fun e => and_congr_right fun he => ?_
  rw [hstr _ (mem_buffers.mpr ⟨e, he, Or.inr rfl⟩)]

/-- A key that no entry has is not in the map. -/
theorem eq_none (hm : Stores h L m) (habs : ∀ e ∈ L, e.1 ≠ k) : m k = none := by
  rw [Option.eq_none_iff_forall_not_mem]
  intro v hv
  obtain ⟨e, he, hek, -⟩ := (hm k v).mp hv
  exact habs e he hek

theorem isSome (hm : Stores h L m) (hmem : (k, kp, vp) ∈ L) (hv : (h.str vp).isSome = true) :
    (m k).isSome = true := by
  obtain ⟨v, hv⟩ := Option.isSome_iff_exists.mp hv
  rw [(hm k v).mpr ⟨_, hmem, rfl, hv⟩]
  rfl

theorem cons (hm : Stores h L m) (habs : ∀ e ∈ L, e.1 ≠ k) (hv : h.str vp = some v) :
    Stores h ((k, kp, vp) :: L) (Function.update m k (some v)) := by
  intro k' v'
  simp only [List.exists_mem_cons_iff]
  by_cases hk : k' = k
  · subst hk
    rw [Function.update_self, hv]
    refine ⟨fun heq => Or.inl ⟨rfl, heq⟩, ?_⟩
    rintro (⟨-, heq⟩ | ⟨e, he, hek, -⟩)
    · exact heq
    · exact absurd hek (habs e he)
  · rw [Function.update_of_ne hk, hm k' v']
    exact ⟨Or.inr, fun h => h.resolve_left fun h => hk h.1.symm⟩

theorem tail (hm : Stores h ((k, kp, vp) :: L) m) (habs : ∀ e ∈ L, e.1 ≠ k) :
    Stores h L (Function.update m k none) := by
  intro k' v'
  by_cases hk : k' = k
  · subst hk
    rw [Function.update_self]
    exact iff_of_false nofun fun ⟨e, he, hek, _⟩ => habs e he hek
  · rw [Function.update_of_ne hk, hm k' v', List.exists_mem_cons_iff]
    exact ⟨fun h => h.resolve_left fun h => hk h.1.symm, Or.inr⟩

end Stores

/-! ### The invariant -/

/-- The tree of the list, with the strings of its keys. -/
structure Inv (s : World) (T : Tree CStr (Nat × Nat)) : Prop where
  root : s.root = ptrs T
  avl : T.IsAvl
  ordered : T.Ordered
  owned : Owned s.mem T.toList

namespace Inv

variable {s : World} {T : Tree CStr (Nat × Nat)} {m : CStr → Option CStr} {k v : CStr} {p q : Nat}

theorem reads_of {h : Heap} {L : List (CStr × Nat × Nat)} (hL : Owned h L) (hT : T.toList = L)
    (hp : h.str p = some k) :
    Reads heap h p k T := by
  intro e he
  change (h.str p).bind _ = _
  rw [hp, Option.bind_some, hL.keys e (hT ▸ he), Option.map_some]

theorem reads (hs : Inv s T) (hp : s.mem.str p = some k) : Reads heap s.mem p k T := reads_of hs.owned rfl hp

/-- The condition, in terms of the strings. -/
theorem absent_iff (hs : Inv s T) (hp : s.mem.str p = some k) : Absent s p ↔ ∀ e ∈ T.toList, e.1 ≠ k := by
  rw [Absent, hs.root, avlSearch_eq (hs.reads hp), ← search_eq_none_iff hs.ordered, Option.some_inj, Option.map_eq_none_iff]

theorem lacksChild_iff {h : Heap} (hread : Reads heap h p k T) : lacksChild h p (ptrs T) = true ↔ T.AtEnd k := by
  induction T with
  | nil => exact iff_of_true rfl trivial
  | node k' e n l r ihl ihr =>
    simp only [ptrs_node, lacksChild, hread.root, AtEnd]
    by_cases hk : k < k'
    · rw [if_pos (strcmp_neg_iff.mpr hk), if_pos hk, ihl hread.left]
    rw [if_neg (fun h => hk (strcmp_neg_iff.mp h)), if_neg hk]
    by_cases hk' : k' < k
    · rw [if_pos (strcmp_pos_iff.mpr hk'), if_pos hk', ihr hread.right]
    · rw [if_neg (fun h => hk' (strcmp_pos_iff.mp h)), if_neg hk', isNil_ptrs, isNil_ptrs, Bool.or_eq_true]

/-- A key is there with its buffers, or it is not there. -/
theorem mem_or_absent (T : Tree CStr (Nat × Nat)) (k : CStr) :
    (∃ kp vp, (k, kp, vp) ∈ T.toList) ∨ ∀ e ∈ T.toList, e.1 ≠ k := by
  by_cases habs : ∀ e ∈ T.toList, e.1 ≠ k
  · exact Or.inr habs
  · push Not at habs
    obtain ⟨⟨k', kp, vp⟩, he, rfl⟩ := habs
    exact Or.inl ⟨kp, vp, he⟩

end Inv

/-! ### The calls -/

/-- The list is in order, stands for the map `m` and has at most `n` keys. -/
def Kept (n : Nat) (m : CStr → Option CStr) (s : World) : Prop :=
  ∃ T, Inv s T ∧ Stores s.mem T.toList m ∧ T.toList.length ≤ n

namespace Inv

variable {s : World} {T : Tree CStr (Nat × Nat)} {m : CStr → Option CStr} {k v : CStr} {key val : Nat}

theorem lt_next (hs : Inv s T) (hp : s.mem.str key = some k) : key < s.mem.next :=
  hs.owned.bound key (Or.inl (bufs_ne_none hp))

/-- **A new key** gets copies of the two strings. -/
theorem set (hs : Inv s T) (hm : Stores s.mem T.toList m) (hkey : s.mem.str key = some k)
    (hval : s.mem.str val = some v)
    (habs : ∀ e ∈ T.toList, e.1 ≠ k) : ∃ r, wowKvlistSet heap s (some key) (some val) = some r ∧
      Kept (T.toList.length + 1) (Function.update m k (some v)) r.2 := by
  set h₁ := (s.mem.malloc k.bytes).2 with hh₁
  set h₂ := (h₁.malloc v.bytes).2 with hh₂
  have hnext : h₁.next = s.mem.next + 1 := rfl
  have hval₁ : h₁.str val = some v := by rw [hh₁, str_malloc_of_ne (Nat.ne_of_lt (hs.lt_next hval)), hval]
  have hkey₂ : h₂.str key = some k := by
    have hlt := hs.lt_next hkey
    rw [hh₂, str_malloc_of_ne (by omega), hh₁, str_malloc_of_ne (by omega), hkey]
  have hkp : h₂.str s.mem.next = some k := by
    rw [hh₂, str_malloc_of_ne (by omega), hh₁, str_malloc, cstr_bytes]
  have hvp : h₂.str h₁.next = some v := by rw [hh₂, str_malloc, cstr_bytes]
  have hnew : avlNewNode heap s.mem key val = some (node s.mem.next h₁.next 1 nil nil, h₂) := by
    have hdup : heap.dup s.mem key = some (s.mem.next, h₁) := by
      change (s.mem.str key).map _ = _
      rw [hkey]
      rfl
    have hdup₁ : heap.dup h₁ val = some (h₁.next, h₂) := by
      change (h₁.str val).map _ = _
      rw [hval₁]
      rfl
    simp only [avlNewNode, hdup, hdup₁, Option.bind_eq_bind, Option.bind_some]
    rfl
  have hold : Owned h₂ T.toList := (hs.owned.malloc _).malloc _
  have hstr : ∀ p ∈ buffers T.toList, h₂.str p = s.mem.str p := by
    intro p hp
    have hlt := hs.owned.lt_next hp
    rw [hh₂, str_malloc_of_ne (by omega), hh₁, str_malloc_of_ne (by omega)]
  have howned : Owned h₂ ((k, s.mem.next, h₁.next) :: T.toList) :=
    hold.cons hkp (by rw [hvp]; rfl) (by omega) (fun hp => Nat.lt_irrefl _ (hs.owned.lt_next hp))
      (fun hp => by have := hs.owned.lt_next hp; omega) (List.mem_cons_of_mem _ List.mem_cons_self) List.mem_cons_self
  have hperm := insertList_perm (v := (s.mem.next, h₁.next)) habs
  rw [← toList_insert hs.ordered] at hperm
  have hset : wowKvlistSet heap s (some key) (some val) = some (KvList.done (ptrs (T.insert k (s.mem.next, h₁.next)), h₂)) := by
    rw [wowKvlistSet, hs.root, avlInsert_new hs.avl habs (hs.reads hkey) hnew (reads_of hold rfl hkey₂), Option.map_some]
  refine ⟨_, hset, T.insert k (s.mem.next, h₁.next), ?_, ?_, hperm.length_eq.le⟩
  · exact ⟨rfl, (isAvl_insert hs.avl).1, hs.ordered.insert, howned.perm hperm.symm⟩
  · exact ((hm.frame hstr).cons habs hvp).perm hperm.symm

/-- **A new value** for a key that is there: the old one is released. -/
theorem update (hs : Inv s T) (hm : Stores s.mem T.toList m) (hkey : s.mem.str key = some k)
    (hval : s.mem.str val = some v) {kp vp : Nat} (hmem : (k, kp, vp) ∈ T.toList) (hne : val ≠ vp)
    (hfill : s.mem.fill = 0) : ∃ r, wowKvlistUpdate heap s (some key) (some val) = some r ∧
      Kept T.toList.length (Function.update m k (some v)) r.2 := by
  set F := T.toList.filter (·.1 ≠ k) with hF
  have hFk : ∀ e ∈ F, e.1 ≠ k := fun e he => by simpa using (List.mem_filter.mp he).2
  have hpermT : T.toList.Perm ((k, kp, vp) :: F) := perm_of_mem (ordered_iff.mp hs.ordered) hmem
  have hfst := hs.owned.perm hpermT
  obtain ⟨⟨hkv, hkF, hvF⟩, ⟨hkm, hvm⟩, hklive, hvlive⟩ := hfst.head
  set h₁ := s.mem.release vp with hh₁
  set h₂ := (h₁.malloc v.bytes).2 with hh₂
  have hnext : h₁.next = s.mem.next := rfl
  have hcopy : heap.copy h₁ val = some (h₁.next, h₂) := by
    change (h₁.str val).map _ = _
    rw [hh₁, str_release_of_ne hne, hval, Option.map_some, hh₂, hh₁, CStr.bytes, ← hfill]
    rfl
  have hold : Owned h₂ F := (hfst.tail.release hvm hvlive hvF).malloc _
  have hstr : ∀ p, p ≠ vp → p < s.mem.next → h₂.str p = s.mem.str p := by
    intro p hp hlt
    rw [hh₂, str_malloc_of_ne (by omega), hh₁, str_release_of_ne hp]
  have hvp : h₂.str h₁.next = some v := by rw [hh₂, str_malloc, cstr_bytes]
  have hkp : h₂.str kp = some k := by
    rw [hstr kp hkv (hs.owned.bound kp (Or.inr hkm)), hfst.keys _ List.mem_cons_self]
  have howned : Owned h₂ ((k, kp, h₁.next) :: F) :=
    hold.cons hkp (by rw [hvp]; rfl) (by have := hs.owned.bound kp (Or.inr hkm); omega) hkF
      (fun hp => by have := hfst.tail.lt_next hp; omega) (List.mem_cons_of_mem _ hkm) List.mem_cons_self
  have hperm := map_perm (v := (kp, h₁.next)) (ordered_iff.mp hs.ordered) hmem
  rw [← toList_update hs.ordered, ← hF] at hperm
  have hupd : wowKvlistUpdate heap s (some key) (some val) =
      some (KvList.done (ptrs (T.update k (kp, h₁.next)), h₂)) := by
    rw [wowKvlistUpdate, hs.root,
      avlUpdate_present hs.avl hs.ordered (hs.reads hkey) hmem (free_of_live hvlive) hcopy, Option.map_some]
  refine ⟨_, hupd, T.update k (kp, h₁.next), ?_, ?_, ?_⟩
  · exact ⟨rfl, (isAvl_update hs.avl).1, hs.ordered.update, howned.perm hperm.symm⟩
  · have hF₂ : Stores h₂ F (Function.update m k none) := ((hm.perm hpermT).tail hFk).frame fun p hp =>
      hstr p (fun heq => hvF (heq ▸ hp)) (hfst.tail.lt_next hp)
    have hall := (hF₂.cons hFk hvp).perm hperm.symm
    rwa [Function.update_idem] at hall
  · rw [hperm.length_eq, hpermT.length_eq, List.length_cons, List.length_cons]

/-- **A key whose node lacks a child** goes with its two buffers. -/
theorem delete (hs : Inv s T) (hm : Stores s.mem T.toList m) (hkey : s.mem.str key = some k) {kp vp : Nat}
    (hmem : (k, kp, vp) ∈ T.toList) (hend : T.AtEnd k) : ∃ r, wowKvlistDelete heap s (some key) = some r ∧
      Kept T.toList.length (Function.update m k none) r.2 := by
  set F := T.toList.filter (·.1 ≠ k) with hF
  have hFk : ∀ e ∈ F, e.1 ≠ k := fun e he => by simpa using (List.mem_filter.mp he).2
  have hpermT : T.toList.Perm ((k, kp, vp) :: F) := perm_of_mem (ordered_iff.mp hs.ordered) hmem
  have hfst := hs.owned.perm hpermT
  obtain ⟨⟨hkv, hkF, hvF⟩, ⟨hkm, hvm⟩, hklive, hvlive⟩ := hfst.head
  have hvlive₁ : (s.mem.release kp).bufs vp ≠ none := by
    rwa [show (s.mem.release kp).bufs vp = s.mem.bufs vp from Function.update_of_ne hkv.symm _ _]
  have hfree : avlFreeNode heap s.mem kp vp = some ((s.mem.release kp).release vp) := by
    simp only [avlFreeNode, free_of_live hklive, Option.bind_eq_bind, Option.bind_some, free_of_live hvlive₁]
  have howned : Owned ((s.mem.release kp).release vp) F := (hfst.tail.release hkm hklive hkF).release hvm hvlive₁ hvF
  have htoList := toList_delete hs.ordered k
  rw [← hF] at htoList
  have hdel : wowKvlistDelete heap s (some key) =
      some (KvList.done (ptrs (T.delete k), (s.mem.release kp).release vp)) := by
    rw [wowKvlistDelete, hs.root, avlDelete_end hs.avl hs.ordered hend (hs.reads hkey) hmem hfree, Option.map_some]
  refine ⟨_, hdel, T.delete k, ?_, ?_, ?_⟩
  · exact ⟨rfl, (isAvl_delete hs.avl k).1, hs.ordered.delete k, htoList ▸ howned⟩
  · rw [htoList]
    refine ((hm.perm hpermT).tail hFk).frame fun p hp => ?_
    have hpk : p ≠ kp := fun heq => hkF (heq ▸ hp)
    have hpv : p ≠ vp := fun heq => hvF (heq ▸ hp)
    rw [KvList.done, str_release_of_ne hpv, str_release_of_ne hpk]
  · rw [htoList, hpermT.length_eq]
    exact Nat.le_succ _

/-- A key that is not there is neither updated nor deleted. -/
theorem update_absent (hs : Inv s T) (hkey : s.mem.str key = some k) (habs : ∀ e ∈ T.toList, e.1 ≠ k) :
    wowKvlistUpdate heap s (some key) (some val) = some (WOW_SUCCESS, s) := by
  rw [wowKvlistUpdate, hs.root, avlUpdate_absent hs.avl habs (hs.reads hkey), Option.map_some, KvList.done, ← hs.root]

theorem delete_absent (hs : Inv s T) (hkey : s.mem.str key = some k) (habs : ∀ e ∈ T.toList, e.1 ≠ k) :
    wowKvlistDelete heap s (some key) = some (WOW_SUCCESS, s) := by
  rw [wowKvlistDelete, hs.root, avlDelete_absent hs.avl habs (hs.reads hkey), Option.map_some, KvList.done, ← hs.root]

/-- What the caller does to his own buffers is nothing to the list. -/
theorem frame (hs : Inv s T) (hm : Stores s.mem T.toList m) {h' : Heap}
    (hbufs : ∀ p ∈ s.mem.made, h'.bufs p = s.mem.bufs p) (hmade : h'.made = s.mem.made)
    (hfreed : h'.freed = s.mem.freed)
    (hbound : ∀ p, h'.bufs p ≠ none ∨ p ∈ h'.made → p < h'.next) : Kept T.toList.length m { s with mem := h' } := by
  have hstr : ∀ p ∈ buffers T.toList, h'.str p = s.mem.str p := fun p hp => str_congr (hbufs p (hs.owned.made p hp))
  refine ⟨T, ⟨hs.root, hs.avl, hs.ordered, ?_⟩, hm.frame hstr, Nat.le_refl _⟩
  exact hs.owned.frame hstr hmade hfreed (fun p hp hnone => by rw [hbufs p hp, hnone]) hbound

/-- A change to a buffer of the caller. -/
theorem frame_callers (hs : Inv s T) (hm : Stores s.mem T.toList m) {p : Nat} (hp : s.mem.Callers p)
    (b : Option (List UInt8)) : Kept T.toList.length m { s with mem := s.mem.put p b } := by
  refine hs.frame hm (fun q hq => put_of_ne (fun heq : q = p => hp.2 (heq ▸ hq)) b) rfl rfl fun q hq => ?_
  by_cases hqp : q = p
  · subst hqp
    exact hs.owned.bound q (Or.inl fun hnone => by simpa [hnone] using hp.1)
  · rw [put_of_ne hqp] at hq
    exact hs.owned.bound q hq

theorem filled (hs : Inv s T) (fill : UInt8) : Inv (s.filled fill) T :=
  ⟨hs.root, hs.avl, hs.ordered, hs.owned.frame (fun _ _ => rfl) rfl rfl (fun _ _ h => h) hs.owned.bound⟩

end Inv

/-! ### Every run -/

section Run

variable {s : World} {T : Tree CStr (Nat × Nat)} {m : CStr → Option CStr}

/-- One call of strings that are the caller's. -/
theorem call_kept (hs : Inv s T) (hm : Stores s.mem T.toList m) {c : Call Nat} {fill : UInt8} (hpass : Passes s c)
    (hfit : Fits s (.call c fill)) : ∃ r, (s.filled fill).call heap c = some r ∧
      Kept (T.toList.length + (Event.call c fill).grows) (c.ref s.mem.str m) r.2 := by
  have hs' := hs.filled fill
  have hm' : Stores (s.filled fill).mem T.toList m := hm.frame fun _ _ => rfl
  have hsame : Kept T.toList.length m (s.filled fill) := ⟨T, hs', hm', Nat.le_refl _⟩
  have harg : ∀ p ∈ c.args, ∃ k, s.mem.str p = some k := fun p hp => Option.isSome_iff_exists.mp (hpass p hp).2
  match c with
  | .set none _ | .set (some _) none | .update none _ | .update (some _) none | .delete none => exact ⟨_, rfl, hsame⟩
  | .set (some key) (some val) =>
    obtain ⟨k, hk⟩ := harg key (by simp [Call.args])
    obtain ⟨v, hv⟩ := harg val (by simp [Call.args])
    simp only [Call.ref, hk, hv]
    exact hs'.set hm' hk hv ((hs.absent_iff hk).mp hfit)
  | .update (some key) (some val) =>
    obtain ⟨k, hk⟩ := harg key (by simp [Call.args])
    obtain ⟨v, hv⟩ := harg val (by simp [Call.args])
    simp only [Call.ref, hk, hv]
    rcases Inv.mem_or_absent T k with ⟨kp, vp, hmem⟩ | habs
    · have hfill : fill = 0 := hfit.resolve_left fun h => (hs.absent_iff hk).mp h _ hmem rfl
      have hvp : val ≠ vp := fun heq =>
        hs.owned.ne_of_callers (hpass val (by simp [Call.args])).1 (mem_buffers.mpr ⟨_, hmem, Or.inr rfl⟩) heq.symm
      rw [if_pos (hm.isSome hmem (hs.owned.values _ hmem))]
      exact hs'.update hm' hk hv hmem hvp hfill
    · rw [hm.eq_none habs]
      exact ⟨_, hs'.update_absent hk habs, hsame⟩
  | .delete (some key) =>
    obtain ⟨k, hk⟩ := harg key (by simp [Call.args])
    simp only [Call.ref, hk]
    rcases Inv.mem_or_absent T k with ⟨kp, vp, hmem⟩ | habs
    · have hend : lacksChild s.mem key s.root = true := hfit.resolve_left fun h => (hs.absent_iff hk).mp h _ hmem rfl
      rw [hs.root, Inv.lacksChild_iff (hs.reads hk)] at hend
      exact hs'.delete hm' hk hmem hend
    · rw [← hm.eq_none habs, Function.update_eq_self]
      exact ⟨_, hs'.delete_absent hk habs, hsame⟩

/-- **One event** that meets the condition keeps the list in order and the map beside it. -/
theorem step_kept (hs : Inv s T) (hm : Stores s.mem T.toList m) {e : Event} (hfit : Fits s e) :
    ∃ s', step s e = some s' ∧ Kept (T.toList.length + e.grows) (e.ref s m) s' := by
  have hsame : ∀ n, Kept (T.toList.length + n) m s := fun n => ⟨T, hs, hm, Nat.le_add_right _ n⟩
  match e with
  | .own bytes =>
    refine ⟨_, rfl, hs.frame hm (fun p hp => ?_) rfl rfl fun p hp => ?_⟩
    · exact put_of_ne (Nat.ne_of_lt (hs.owned.bound p (Or.inr hp))) _
    · by_cases hpn : p = s.mem.next
      · exact hpn ▸ Nat.lt_succ_self _
      · change (s.mem.put s.mem.next (some bytes)).bufs p ≠ none ∨ p ∈ s.mem.made at hp
        rw [put_of_ne hpn] at hp
        exact Nat.lt_succ_of_lt (hs.owned.bound p hp)
  | .write p bytes =>
    refine ⟨_, rfl, ?_⟩
    split_ifs with hp
    · exact hs.frame_callers hm hp _
    · exact hsame 0
  | .drop p =>
    refine ⟨_, rfl, ?_⟩
    split_ifs with hp
    · exact hs.frame_callers hm hp _
    · exact hsame 0
  | .call c fill =>
    simp only [step, Event.ref]
    by_cases hpass : Passes s c
    · obtain ⟨r, hcall, hr⟩ := call_kept hs hm hpass hfit
      rw [if_pos hpass, if_pos hpass, hcall]
      exact ⟨_, rfl, hr⟩
    · rw [if_neg hpass, if_neg hpass]
      exact ⟨s, rfl, hsame _⟩

theorem length_avlGetAll (hs : Inv s T) : (avlGetAll s.root).length = T.toList.length := by
  rw [avlGetAll_eq, hs.root, ptrs, toList_relabel, List.length_map]

/-- **Every run** whose events meet the condition; `J` is a bound that they keep on the number of keys. -/
theorem lock_kept {Q : World → Event → Prop} {J : Nat → Prop} (hQ : ∀ s e, Q s e → Fits s e)
    (hJ : ∀ s e n, Q s e → n ≤ (avlGetAll s.root).length + e.grows → J n) (hs : Inv s T)
    (hm : Stores s.mem T.toList m) (hn : J T.toList.length) {es : List Event} (hfit : Fitting Q s es) :
    ∃ s' T' m', events s es = some s' ∧ lock s m es = some (s', m') ∧ Inv s' T' ∧ Stores s'.mem T'.toList m' ∧
      J T'.toList.length := by
  induction es generalizing s T m with
  | nil => exact ⟨s, T, m, rfl, rfl, hs, hm, hn⟩
  | cons e es ih =>
    obtain ⟨s₁, hstep, T₁, hs₁, hm₁, hlen⟩ := step_kept hs hm (hQ s e hfit.1)
    have hn₁ : J T₁.toList.length := hJ s e _ hfit.1 (by rw [length_avlGetAll hs]; exact hlen)
    have hrest := hfit.2
    rw [hstep] at hrest
    obtain ⟨s', T', m', hev, hlock, h⟩ := ih hs₁ hm₁ hn₁ hrest
    exact ⟨s', T', m', by rw [events, hstep]; exact hev, by rw [lock, hstep]; exact hlock, h⟩

theorem inv_create : Inv create nil where
  root := rfl
  avl := isAvl_nil
  ordered := trivial
  owned := ⟨nofun, nofun, List.nodup_nil, nofun, nofun, List.nodup_nil, nofun, fun _ h => h.elim (fun h => absurd rfl h) nofun⟩

theorem stores_create : Stores create.mem (nil : Tree CStr (Nat × Nat)).toList fun _ => none :=
  fun _ _ => iff_of_false nofun fun ⟨_, he, _⟩ => nomatch he

end Run

/-! ### Ownership -/

/-- The entries of the tree own their buffers. -/
theorem Inv.owns {s : World} {T : Tree CStr (Nat × Nat)} (hs : Inv s T) : Owns s := by
  have hlist : s.root.toList = T.toList.map Prod.snd := by rw [hs.root, ptrs, toList_relabel]
  have hmem : ∀ e ∈ s.root.toList, ∃ k, (k, e.1, e.2) ∈ T.toList := by
    intro e he
    rw [hlist] at he
    obtain ⟨⟨k, d⟩, hd, rfl⟩ := List.mem_map.mp he
    exact ⟨k, hd⟩
  refine ⟨fun e he => ?_, fun e he => ?_, ?_, hs.owned.freed_made, hs.owned.freed_once⟩
  · obtain ⟨k, hk⟩ := hmem e he
    exact ⟨by rw [hs.owned.keys _ hk]; rfl, hs.owned.values _ hk⟩
  · obtain ⟨k, hk⟩ := hmem e he
    exact ⟨hs.owned.made _ (mem_buffers.mpr ⟨_, hk, Or.inl rfl⟩), hs.owned.made _ (mem_buffers.mpr ⟨_, hk, Or.inr rfl⟩)⟩
  · rw [hlist, List.flatMap_map]
    exact hs.owned.once

/-- **The list owns its buffers** in every state that a run meeting the condition reaches, and no call of the run
reads or releases a buffer that is not there. -/
theorem kvlist_owns (es : List Event) (hfit : Fitting Fits create es) :
    ∃ s, events create es = some s ∧ Owns s := by
  obtain ⟨s, T, -, hev, -, hs, -⟩ := lock_kept (J := fun _ => True) (fun _ _ h => h) (fun _ _ _ _ _ => trivial) inv_create
    stores_create trivial hfit
  exact ⟨s, hev, hs.owns⟩

/-- Two keys are set, one of them is updated and both are deleted. -/
def demoEvents : List Event :=
  [.own [107, 0], .own [118, 0], .own [108, 0], .call (.set (some 0) (some 1)) 7, .write 1 [119, 119, 0],
    .call (.set (some 2) (some 0)) 7, .call (.update (some 0) (some 1)) 0, .drop 1, .call (.delete (some 0)) 7,
    .call (.delete (some 2)) 7]

theorem kvlist_owns_demo : Fitting Fits create demoEvents ∧ ∃ s, events create demoEvents = some s ∧ Owns s :=
  ⟨by decide, kvlist_owns demoEvents (by decide)⟩

/-- The key `k` is set to `v` twice: the node ends with the buffer of the caller. -/
def twiceEvents : List Event :=
  [.own [107, 0], .own [118, 0], .call (.set (some 0) (some 1)) 0, .call (.set (some 0) (some 1)) 0]

theorem not_kvlist_owns : ¬ ∀ es, ∃ s, events create es = some s ∧ Owns s := by
  intro h
  obtain ⟨s, hs, howns⟩ := h twiceEvents
  have hroot : (events create twiceEvents).map (fun s => (s.root.toList, s.mem.made)) = some ([(2, 1)], [3, 2]) := rfl
  rw [hs, Option.map_some, Option.some_inj, Prod.mk.injEq] at hroot
  have hmade := (howns.made (2, 1) (by rw [hroot.1]; exact List.mem_cons_self)).2
  rw [hroot.2] at hmade
  exact absurd hmade (by decide)

/-! ### The map -/

/-- The invariant answers for the map, as long as the keys can be counted. -/
theorem Inv.agrees {s : World} {T : Tree CStr (Nat × Nat)} {m : CStr → Option CStr} (hs : Inv s T)
    (hm : Stores s.mem T.toList m) (hn : T.toList.length < 2 ^ 31) : Agrees s m := by
  have hall : avlGetAll s.root = T.toList.map Prod.snd := by rw [avlGetAll_eq, hs.root, ptrs, toList_relabel]
  have hcount : ((T.toList.length : Int)).bmod (2 ^ 32) = T.toList.length := Int.bmod_eq_of_le (by omega) (by omega)
  have hval : ∀ e ∈ T.toList, s.mem.str e.2.2 = some ((s.mem.str e.2.2).getD e.1) := by
    intro e he
    obtain ⟨v, hv⟩ := Option.isSome_iff_exists.mp (hs.owned.values e he)
    rw [hv, Option.getD_some]
  refine ⟨fun p k hp => ?_, T.toList.map fun e => (e.1, (s.mem.str e.2.2).getD e.1), ?_, ?_, ?_, ?_, ?_, ?_⟩
  · refine ⟨_, by rw [wowKvlistGet, hs.root]; exact avlSearch_eq (hs.reads hp), ?_⟩
    cases hsearch : T.search k with
    | none => rw [hm.eq_none ((search_eq_none_iff hs.ordered).mp hsearch)]; rfl
    | some d =>
      have hmem := (search_eq_some_iff hs.ordered).mp hsearch
      rw [(hm k _).mpr ⟨_, hmem, rfl, hval _ hmem⟩]
      exact congrArg some (hval _ hmem)
  · simp only [wowKvlistForeach, hall, List.map_map]
    exact List.map_congr_left fun e he => hs.owned.keys e he
  · simp only [wowKvlistForeach, hall, List.map_map]
    exact List.map_congr_left fun e he => hval e he
  · rw [wowKvlistForeach, hall, List.length_map, List.length_map, hcount]
  · rw [List.pairwise_map]
    exact (ordered_iff.mp hs.ordered).imp fun hlt => strcmp_neg_iff.mpr hlt
  · intro k v
    rw [hm k v, List.mem_map]
    refine exists_congr fun e => and_congr_right fun he => ?_
    rw [Prod.mk.injEq]
    refine and_congr_right fun _ => ?_
    rw [← Option.some_inj, ← hval e he]
  · rw [wowKvlistSize, avlGetSize_eq, hs.root, ptrs, toList_relabel, List.length_map, List.length_map, hcount]

/-- **The list is a finite map** in every state that a run meeting the condition reaches: whatever the caller has
done to his buffers, it answers with the strings as they were when they were stored. -/
theorem kvlist_agrees (es : List Event) (hfit : Fitting FitsCount create es) :
    ∃ s m, lock create (fun _ => none) es = some (s, m) ∧ Agrees s m := by
  obtain ⟨s, T, m, -, hlock, hs, hm, hn⟩ := lock_kept (J := fun n => n < 2 ^ 31) (fun _ _ h => h.1)
    (fun _ _ _ h hle => hle.trans_lt h.2) inv_create stores_create (by decide) hfit
  exact ⟨s, m, hlock, hs.agrees hm hn⟩

theorem kvlist_agrees_demo : Fitting FitsCount create demoEvents ∧
    ∃ s m, lock create (fun _ => none) demoEvents = some (s, m) ∧ Agrees s m :=
  ⟨by decide, kvlist_agrees demoEvents (by decide)⟩

/-- The caller sets the key `k` twice, and then changes his buffer. -/
def changedEvents : List Event := twiceEvents ++ [.write 1 [119, 0]]

theorem not_kvlist_agrees : ¬ ∀ es, ∃ s m, lock create (fun _ => none) es = some (s, m) ∧ Agrees s m := by
  intro h
  obtain ⟨s, m, hs, hagrees⟩ := h changedEvents
  have hread : (lock create (fun _ => none) changedEvents).map (fun r => (r.1.mem.str 0, wowKvlistGet heap r.1 (some 0),
      (r.1.mem.str 1).map CStr.chars, (r.2 ⟨[107], by decide⟩).map CStr.chars)) =
      some (some ⟨[107], by decide⟩, some (some 1), some [119], some [118]) := rfl
  rw [hs, Option.map_some, Option.some_inj] at hread
  simp only [Prod.mk.injEq] at hread
  obtain ⟨hkey, hget, hval, hmap⟩ := hread
  obtain ⟨r, hr, hrm⟩ := hagrees.get 0 _ hkey
  rw [hget, Option.some_inj] at hr
  subst hr
  cases hv : s.mem.str 1 with
  | none => rw [hv] at hval; cases hval
  | some v =>
    rw [Option.map_some, hv] at hrm
    cases hmk : m ⟨[107], by decide⟩ with
    | none => rw [hmk] at hmap; cases hmap
    | some w =>
      rw [hmk, Option.map_some, Option.some_inj, Option.some_inj] at hrm
      rw [hv, hrm] at hval
      rw [hmk] at hmap
      rw [hmap] at hval
      exact absurd hval (by decide)

end Wow.KvList
