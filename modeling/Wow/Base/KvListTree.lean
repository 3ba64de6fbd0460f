import Wow.Base.KvList

/-!
# Wow.Base.KvListTree — what the code of the key-value list does to a tree

A tree of buffers is looked at with the strings that its keys read as: `T : Tree CStr (P × P)` has at every node
the string and the two buffers, and `ptrs T` is the tree the code works on.  As long as the comparisons read the
strings of `T`, the code does what the balanced search trees of the library do.

* `avlFix_eq`, `avlInsertFix_left`, `avlInsertFix_right`: the rotations of the code are those of `Tree.balance`.
* `avlInsert_new`, `avlInsert_old`, `avlSearch_eq`, `avlDelete_absent`, `avlDelete_end`, `avlUpdate_absent`,
  `avlUpdate_present`: the functions.
* `avlGetSize_eq`, `avlGetAll_eq`: the size and the listing.
-/

namespace Wow.KvList

open Avl Avl.Tree

variable {σ P : Type} {B : Buffers σ P}

/-- The tree of the buffers. -/
def ptrs (T : Tree CStr (P × P)) : AVLNode P := T.relabel Prod.snd

@[simp] theorem ptrs_nil : ptrs (nil : Tree CStr (P × P)) = nil := rfl
@[simp] theorem ptrs_node (k : CStr) (e : P × P) (h : Nat) (l r : Tree CStr (P × P)) :
    ptrs (node k e h l r) = node e.1 e.2 h (ptrs l) (ptrs r) := rfl
@[simp] theorem ptrs_join (k : CStr) (e : P × P) (l r : Tree CStr (P × P)) :
    ptrs (join k e l r) = join e.1 e.2 (ptrs l) (ptrs r) := relabel_join _ _ _ _ _
@[simp] theorem height_ptrs (T : Tree CStr (P × P)) : (ptrs T).height = T.height := height_relabel _ _
@[simp] theorem factor_ptrs (T : Tree CStr (P × P)) : (ptrs T).factor = T.factor := factor_relabel _ _
@[simp] theorem isNil_ptrs (T : Tree CStr (P × P)) : (ptrs T).isNil = T.isNil := isNil_relabel _ _

/-! ### Rotations -/

/-- Two trees that the rotations of the code can work on. -/
theorem avlFix_eq {k : P} {v : P} {l r : AVLNode P} (hl : l.IsAvl) (hr : r.IsAvl) :
    avlFix (join k v l r) = some (join k v l r).balance := by
  rw [join, avlFix, balance, factor]
  by_cases hgt : l.height > r.height + 1
  · obtain ⟨k₁, v₁, a, b, rfl, ha, hb, hab, hba⟩ := hl.exists_join (by omega)
    rw [if_pos (by omega), if_pos hgt]
    by_cases hf : 0 ≤ (join k₁ v₁ a b).factor
    · rw [if_pos hf, if_pos hf]
      rfl
    · rw [if_neg hf, if_neg hf]
      rw [factor_join] at hf
      obtain ⟨k₂, v₂, c, d, rfl, -⟩ := hb.exists_join (by omega)
      rfl
  rw [if_neg (by omega), if_neg hgt]
  by_cases hlt : r.height > l.height + 1
  · obtain ⟨k₁, v₁, a, b, rfl, ha, hb, hab, hba⟩ := hr.exists_join (by omega)
    rw [if_pos (by omega), if_pos hlt]
    by_cases hf : (join k₁ v₁ a b).factor ≤ 0
    · rw [if_pos hf, if_pos hf]
      rfl
    · rw [if_neg hf, if_neg hf]
      rw [factor_join] at hf
      obtain ⟨k₂, v₂, c, d, rfl, -⟩ := ha.exists_join (by omega)
      rfl
  · rw [if_neg (by omega), if_neg hlt]

theorem isAvl_ptrs {T : Tree CStr (P × P)} (hT : T.IsAvl) : (ptrs T).IsAvl := by
  induction T with
  | nil => trivial
  | node k e h l r ihl ihr =>
    obtain ⟨hl, hr, hh, h₁, h₂⟩ := hT
    simp only [ptrs_node, IsAvl, height_ptrs]
    exact ⟨ihl hl, ihr hr, hh, h₁, h₂⟩

/-- The rotations of a deletion, with the strings. -/
theorem avlFix_ptrs {k : CStr} {e : P × P} {l r : Tree CStr (P × P)} (hl : l.IsAvl) (hr : r.IsAvl) :
    avlFix (ptrs (join k e l r)) = some (ptrs (join k e l r).balance) := by
  rw [ptrs_join, avlFix_eq (isAvl_ptrs hl) (isAvl_ptrs hr), ← ptrs_join, ptrs, ptrs, relabel_balance]

/-- Nothing is rotated where nothing is out of balance. -/
theorem avlFix_of_avl {k : CStr} {e : P × P} {l r : Tree CStr (P × P)} (hT : (join k e l r).IsAvl) :
    avlFix (ptrs (join k e l r)) = some (ptrs (join k e l r)) := by
  obtain ⟨hl, hr, -, h₁, h₂⟩ := hT
  rw [avlFix_ptrs hl hr, show (join k e l r).balance = join k e l r from balance_of_le h₁ h₂]

/-! ### Reading -/

/-- The comparisons with `key` read the strings of the tree. -/
def Reads (B : Buffers σ P) (s : σ) (key : P) (k : CStr) (T : Tree CStr (P × P)) : Prop :=
  ∀ e ∈ T.toList, B.strcmp s key e.2.1 = some (strcmp k.chars e.1.chars)

section Reads

variable {s : σ} {key : P} {k k' : CStr} {e : P × P} {h : Nat} {l r : Tree CStr (P × P)}

theorem Reads.root (hT : Reads B s key k (node k' e h l r)) : B.strcmp s key e.1 = some (strcmp k.chars k'.chars) :=
  hT (k', e) (by simp)

theorem Reads.left (hT : Reads B s key k (node k' e h l r)) : Reads B s key k l :=
  fun d hd => hT d (by simp [hd])

theorem Reads.right (hT : Reads B s key k (node k' e h l r)) : Reads B s key k r :=
  fun d hd => hT d (by simp [hd])

end Reads

/-- **A search** of the code is a search of the library. -/
theorem avlSearch_eq {s : σ} {key : P} {k : CStr} {T : Tree CStr (P × P)} (hT : Reads B s key k T) :
    avlSearch B s key (ptrs T) = some ((T.search k).map Prod.snd) := by
  induction T with
  | nil => rfl
  | node k' e h l r ihl ihr =>
    simp only [ptrs_node, avlSearch, hT.root, Option.bind_eq_bind, Option.bind_some, search]
    by_cases hk : k < k'
    · rw [if_pos (strcmp_neg_iff.mpr hk), if_pos hk, ihl hT.left]
    · rw [if_neg (fun h => hk (strcmp_neg_iff.mp h)), if_neg hk]
      by_cases hk' : k' < k
      · rw [if_pos (strcmp_pos_iff.mpr hk'), if_pos hk', ihr hT.right]
      · rw [if_neg (fun h => hk' (strcmp_pos_iff.mp h)), if_neg hk']
        rfl

/-! ### Insertion -/

section Insert

variable {s s' : σ} {key value kp vp : P} {k k' : CStr} {e : P × P} {l l' r r' T : Tree CStr (P × P)}

/-- Where the left side has grown by one, the key tells how it leans. -/
theorem avlInsertFix_left (hl' : l'.IsAvl) (hle : l'.height ≤ r.height + 2) (hge : r.height ≤ l'.height + 1)
    (hlean : l'.height = r.height + 2 → 0 < l.height ∧ l.Leans k l') (hread : Reads B s key k l) :
    avlInsertFix B s key (ptrs (join k' e l' r)) = some (ptrs (join k' e l' r).balance) := by
  rw [join, balance]
  simp only [ptrs_node, avlInsertFix, factor_node, height_ptrs]
  by_cases hgt : l'.height > r.height + 1
  · obtain ⟨hpos, hlean⟩ := hlean (by omega)
    rw [if_pos (by omega), if_pos hgt]
    cases l with
    | nil => exact absurd hpos (Nat.lt_irrefl 0)
    | node k₁ e₁ h a₀ b₀ =>
      obtain ⟨a, b, rfl, hlt, hgt', hne⟩ := hlean
      have hkey : keyOf (ptrs (join k₁ e₁ a b)) = some e₁.1 := by rw [ptrs_join, join]; rfl
      simp only [hkey, hread.root, Option.bind_eq_bind, Option.bind_some]
      rw [factor_join]
      rcases lt_or_gt_of_ne hne with hk | hk
      · rw [if_pos (strcmp_neg_iff.mpr hk), if_pos (by have := hlt hk; omega), ptrs_join]
        simp only [ptrs_join, rotateRight_join]
        rfl
      · have hb := hgt' hk
        rw [if_neg (fun h => lt_asymm hk (strcmp_neg_iff.mp h)), if_pos (strcmp_pos_iff.mpr hk), if_neg (by omega)]
        obtain ⟨k₂, e₂, c, d, rfl, -⟩ := hl'.2.1.exists_join (by omega)
        rw [ptrs_join, ptrs_join]
        change some _ = _
        simp only [show rotateLeft (join k₁ e₁ a (join k₂ e₂ c d)) = join k₂ e₂ (join k₁ e₁ a c) d from rfl,
          rotateRight_join, ptrs_join]
  · rw [if_neg (by omega), if_neg hgt, if_neg (by omega), if_neg (by omega), ptrs_node]

theorem avlInsertFix_right (hr' : r'.IsAvl) (hle : r'.height ≤ l.height + 2) (hge : l.height ≤ r'.height + 1)
    (hlean : r'.height = l.height + 2 → 0 < r.height ∧ r.Leans k r') (hread : Reads B s key k r) :
    avlInsertFix B s key (ptrs (join k' e l r')) = some (ptrs (join k' e l r').balance) := by
  rw [join, balance]
  simp only [ptrs_node, avlInsertFix, factor_node, height_ptrs]
  rw [if_neg (show ¬ (l.height : Int) - r'.height > 1 by omega), if_neg (show ¬ l.height > r'.height + 1 by omega)]
  by_cases hgt : r'.height > l.height + 1
  · obtain ⟨hpos, hlean⟩ := hlean (by omega)
    rw [if_pos (by omega), if_pos hgt]
    cases r with
    | nil => exact absurd hpos (Nat.lt_irrefl 0)
    | node k₁ e₁ h a₀ b₀ =>
      obtain ⟨a, b, rfl, hlt, hgt', hne⟩ := hlean
      have hkey : keyOf (ptrs (join k₁ e₁ a b)) = some e₁.1 := by rw [ptrs_join, join]; rfl
      simp only [hkey, hread.root, Option.bind_eq_bind, Option.bind_some]
      rw [factor_join]
      rcases lt_or_gt_of_ne hne with hk | hk
      · have ha := hlt hk
        rw [if_neg (fun h => lt_asymm hk (strcmp_pos_iff.mp h)), if_pos (strcmp_neg_iff.mpr hk), if_neg (by omega)]
        obtain ⟨k₂, e₂, c, d, rfl, -⟩ := hr'.1.exists_join (by omega)
        rw [ptrs_join, ptrs_join]
        change some _ = _
        simp only [show rotateRight (join k₁ e₁ (join k₂ e₂ c d) b) = join k₂ e₂ c (join k₁ e₁ d b) from rfl,
          rotateLeft_join, ptrs_join]
      · rw [if_pos (strcmp_pos_iff.mpr hk), if_pos (by have := hgt' hk; omega), ptrs_join]
        simp only [ptrs_join, rotateLeft_join]
        rfl
  · rw [if_neg (by omega), if_neg hgt, ptrs_node]

/-- **A new key**: its node holds the two copies. -/
theorem avlInsert_new (hT : T.IsAvl) (habs : ∀ e ∈ T.toList, e.1 ≠ k) (hread : Reads B s key k T)
    (hnew : avlNewNode B s key value = some (node kp vp 1 nil nil, s')) (hread' : Reads B s' key k T) :
    avlInsert B s key value (ptrs T) = some (ptrs (T.insert k (kp, vp)), s') := by
  induction T with
  | nil => exact hnew
  | node k' e h l r ihl ihr =>
    obtain ⟨hl, hk', hr⟩ := ne_of_absent habs
    have h₁ := hT.2.2.2.1
    have h₂ := hT.2.2.2.2
    simp only [ptrs_node, avlInsert, hread.root, Option.bind_eq_bind, Option.bind_some]
    rcases lt_or_gt_of_ne hk' with hk | hk
    · obtain ⟨havl, hgrow⟩ := isAvl_insert (k := k) (v := (kp, vp)) hT.2.1
      rw [if_neg (fun h => lt_asymm hk (strcmp_neg_iff.mp h)), if_pos (strcmp_pos_iff.mpr hk),
        ihr hT.2.1 hr hread.right hread'.right, Tree.insert, if_neg (lt_asymm hk), if_pos hk]
      have hfix : avlInsertFix B s' key (ptrs (join k' e l (r.insert k (kp, vp)))) = _ :=
        avlInsertFix_right havl (by omega) (by omega) (fun h => ⟨by omega, (hgrow.resolve_left (by omega)).2⟩)
          hread'.right
      rw [ptrs_join] at hfix
      simp only [Option.bind_some, hfix, Option.map_some]
    · obtain ⟨havl, hgrow⟩ := isAvl_insert (k := k) (v := (kp, vp)) hT.1
      rw [if_pos (strcmp_neg_iff.mpr hk), ihl hT.1 hl hread.left hread'.left, Tree.insert, if_pos hk]
      have hfix : avlInsertFix B s' key (ptrs (join k' e (l.insert k (kp, vp)) r)) = _ :=
        avlInsertFix_left havl (by omega) (by omega) (fun h => ⟨by omega, (hgrow.resolve_left (by omega)).2⟩)
          hread'.left
      rw [ptrs_join] at hfix
      simp only [Option.bind_some, hfix, Option.map_some]

/-- Nothing is rotated where nothing has changed. -/
theorem avlInsertFix_of_avl (hT : (join k' e l r).IsAvl) :
    avlInsertFix B s key (ptrs (join k' e l r)) = some (ptrs (join k' e l r)) := by
  obtain ⟨-, -, -, h₁, h₂⟩ := hT
  rw [join]
  simp only [ptrs_node, avlInsertFix, factor_node, height_ptrs]
  rw [if_neg (by omega), if_neg (by omega)]

/-- **A key that exists**: its node gets the pointer that was passed. -/
theorem avlInsert_old (hT : T.IsAvl) (hord : T.Ordered) (hread : Reads B s key k T) (hmem : (k, kp, vp) ∈ T.toList) :
    avlInsert B s key value (ptrs T) = some (ptrs (T.update k (kp, value)), s) := by
  induction T with
  | nil => cases hmem
  | node k' e h l r ihl ihr =>
    obtain ⟨hl, hr, hh, h₁, h₂⟩ := hT
    simp only [ptrs_node, avlInsert, hread.root, Option.bind_eq_bind, Option.bind_some]
    rw [update]
    rcases mem_node hord hmem with ⟨hk, he⟩ | ⟨rfl, rfl⟩ | ⟨hk, he⟩
    · obtain ⟨havl, hlh⟩ := isAvl_update (k := k) (v := (kp, value)) hl
      have hfix : avlInsertFix B s key (ptrs (join k' e (l.update k (kp, value)) r)) = _ :=
        avlInsertFix_of_avl (isAvl_join havl hr (by omega) (by omega))
      rw [ptrs_join] at hfix
      rw [if_pos (strcmp_neg_iff.mpr hk), ihl hl hord.1 hread.left he, if_pos hk]
      simp only [Option.bind_some, hfix, Option.map_some]
      rw [← ptrs_join, join, hlh, ← hh]
    · rw [if_neg (fun h => lt_irrefl k (strcmp_neg_iff.mp h)), if_neg (fun h => lt_irrefl k (strcmp_pos_iff.mp h)),
        if_neg (lt_irrefl k), if_neg (lt_irrefl k)]
      rfl
    · obtain ⟨havl, hrh⟩ := isAvl_update (k := k) (v := (kp, value)) hr
      have hfix : avlInsertFix B s key (ptrs (join k' e l (r.update k (kp, value)))) = _ :=
        avlInsertFix_of_avl (isAvl_join hl havl (by omega) (by omega))
      rw [ptrs_join] at hfix
      rw [if_neg (fun h => lt_asymm hk (strcmp_neg_iff.mp h)), if_pos (strcmp_pos_iff.mpr hk),
        ihr hr hord.2.1 hread.right he, if_neg (lt_asymm hk), if_pos hk]
      simp only [Option.bind_some, hfix, Option.map_some]
      rw [← ptrs_join, join, hrh, ← hh]

end Insert

/-! ### Deletion -/

/-- The comparisons of any two keys of the tree read their strings. -/
def ReadsAll (B : Buffers σ P) (s : σ) (T : Tree CStr (P × P)) : Prop :=
  ∀ e ∈ T.toList, Reads B s e.2.1 e.1 T

section Delete

variable {s s' : σ} {key kp vp : P} {k k' : CStr} {e : P × P} {h : Nat} {l r T : Tree CStr (P × P)}

theorem ReadsAll.left (hT : ReadsAll B s (node k' e h l r)) : ReadsAll B s l :=
  fun d hd => (hT d (by simp [hd])).left

theorem ReadsAll.right (hT : ReadsAll B s (node k' e h l r)) : ReadsAll B s r :=
  fun d hd => (hT d (by simp [hd])).right

/-- The first entry of the right side, with its buffers. -/
theorem minD_ptrs (r : Tree CStr (P × P)) (k' : CStr) (e : P × P) : (ptrs r).minD e = (r.minD (k', e)).2 :=
  minD_relabel Prod.snd r (k', e)

/-- **Deletion where nothing is released**: the code deletes as the library does. -/
theorem avlDelete_free (hfree : ∀ s p, B.free s p = some s) (hT : T.IsAvl) (hread : Reads B s key k T)
    (hall : ReadsAll B s T) : avlDelete B s (ptrs T) key = some (ptrs (T.delete k), s) := by
  induction T generalizing key k with
  | nil => rfl
  | node k' e h l r ihl ihr =>
    obtain ⟨hl, hr, hh, h₁, h₂⟩ := hT
    have hfixl : ∀ k₀ e₀ k, avlFix (ptrs (join k₀ e₀ (l.delete k) r)) = some (ptrs (join k₀ e₀ (l.delete k) r).balance) :=
      fun k₀ e₀ k => avlFix_ptrs (isAvl_delete hl k).1 hr
    have hfixr : ∀ k₀ e₀ k, avlFix (ptrs (join k₀ e₀ l (r.delete k))) = some (ptrs (join k₀ e₀ l (r.delete k)).balance) :=
      fun k₀ e₀ k => avlFix_ptrs hl (isAvl_delete hr k).1
    simp only [ptrs_node, avlDelete, hread.root, Option.bind_eq_bind, Option.bind_some, isNil_ptrs, avlFreeNode, hfree,
      Option.map_some]
    rw [delete]
    by_cases hk : k < k'
    · rw [if_pos (strcmp_neg_iff.mpr hk), if_pos hk, ihl hl hread.left hall.left]
      have hfix := hfixl k' e k
      rw [ptrs_join] at hfix
      simp only [Option.bind_some, hfix, Option.map_some]
    rw [if_neg (fun h => hk (strcmp_neg_iff.mp h)), if_neg hk]
    by_cases hk' : k' < k
    · rw [if_pos (strcmp_pos_iff.mpr hk'), if_pos hk', ihr hr hread.right hall.right]
      have hfix := hfixr k' e k
      rw [ptrs_join] at hfix
      simp only [Option.bind_some, hfix, Option.map_some]
    rw [if_neg (fun h => hk' (strcmp_pos_iff.mp h)), if_neg hk']
    by_cases hln : l.isNil = true
    · rw [if_pos hln, if_pos hln]
    by_cases hrn : r.isNil = true
    · rw [if_neg hln, if_pos hrn, if_neg hln, if_pos hrn]
    · -- the successor takes the place of the node, and its key deletes it on the right
      obtain ⟨L, hL⟩ := toList_eq_minD (k', e) fun hnil => hrn (isNil_iff.mpr hnil)
      have hmin : r.minD (k', e) ∈ r.toList := hL ▸ List.mem_cons_self
      rw [if_neg hln, if_neg hrn, if_neg hln, if_neg hrn]
      simp only [minD_ptrs r k' e]
      rw [ihr hr (hall.right _ hmin) hall.right]
      have hfix := hfixr (r.minD (k', e)).1 (r.minD (k', e)).2 (r.minD (k', e)).1
      rw [ptrs_join] at hfix
      simp only [Option.bind_some, hfix, Option.map_some]

/-- A node of a balanced tree is put together again as it was. -/
theorem avlFix_node (hT : (node k' e h l r).IsAvl) :
    (node e.1 e.2 h (ptrs l) (ptrs r) : AVLNode P) = join e.1 e.2 (ptrs l) (ptrs r) ∧
      avlFix (join e.1 e.2 (ptrs l) (ptrs r)) = some (join e.1 e.2 (ptrs l) (ptrs r)) := by
  have hfix := avlFix_of_avl (hT.eq_join ▸ hT)
  rw [ptrs_join] at hfix
  refine ⟨?_, hfix⟩
  rw [← ptrs_join, ← ptrs_node, hT.eq_join]

/-- **A key that is not there** is not deleted, and nothing is released. -/
theorem avlDelete_absent (hT : T.IsAvl) (habs : ∀ e ∈ T.toList, e.1 ≠ k) (hread : Reads B s key k T) :
    avlDelete B s (ptrs T) key = some (ptrs T, s) := by
  induction T with
  | nil => rfl
  | node k' e h l r ihl ihr =>
    obtain ⟨hl, hk', hr⟩ := ne_of_absent habs
    obtain ⟨hjoin, hfix⟩ := avlFix_node hT
    simp only [ptrs_node, avlDelete, hread.root, Option.bind_eq_bind, Option.bind_some]
    rw [hjoin]
    rcases lt_or_gt_of_ne hk' with hk | hk
    · rw [if_neg (fun h => lt_asymm hk (strcmp_neg_iff.mp h)), if_pos (strcmp_pos_iff.mpr hk),
        ihr hT.2.1 hr hread.right]
      simp only [Option.bind_some, hfix, Option.map_some]
    · rw [if_pos (strcmp_neg_iff.mpr hk), ihl hT.1 hl hread.left]
      simp only [Option.bind_some, hfix, Option.map_some]

/-- **A node that lacks a child** is released with its buffers, and the other child takes its place. -/
theorem avlDelete_end (hT : T.IsAvl) (hord : T.Ordered) (hend : T.AtEnd k) (hread : Reads B s key k T)
    (hmem : (k, kp, vp) ∈ T.toList) (hfree : avlFreeNode B s kp vp = some s') :
    avlDelete B s (ptrs T) key = some (ptrs (T.delete k), s') := by
  induction T with
  | nil => cases hmem
  | node k' e h l r ihl ihr =>
    obtain ⟨hl, hr, hh, h₁, h₂⟩ := hT
    simp only [ptrs_node, avlDelete, hread.root, Option.bind_eq_bind, Option.bind_some, isNil_ptrs]
    rw [delete]
    rw [AtEnd] at hend
    rcases mem_node hord hmem with ⟨hk, he⟩ | ⟨rfl, rfl⟩ | ⟨hk, he⟩
    · rw [if_pos hk] at hend
      have hfix := avlFix_ptrs (k := k') (e := e) (isAvl_delete hl k).1 hr
      rw [ptrs_join] at hfix
      rw [if_pos (strcmp_neg_iff.mpr hk), ihl hl hord.1 hend hread.left he, if_pos hk]
      simp only [Option.bind_some, hfix, Option.map_some]
    · rw [if_neg (lt_irrefl k), if_neg (lt_irrefl k)] at hend
      rw [if_neg (fun h => lt_irrefl k (strcmp_neg_iff.mp h)), if_neg (fun h => lt_irrefl k (strcmp_pos_iff.mp h)),
        if_neg (lt_irrefl k), if_neg (lt_irrefl k)]
      by_cases hln : l.isNil = true
      · rw [if_pos hln, if_pos hln, hfree]
        rfl
      · have hrn := hend.resolve_left hln
        rw [if_neg hln, if_neg hln, if_pos hrn, if_pos hrn, hfree]
        rfl
    · rw [if_neg (lt_asymm hk), if_pos hk] at hend
      have hfix := avlFix_ptrs (k := k') (e := e) hl (isAvl_delete hr k).1
      rw [ptrs_join] at hfix
      rw [if_neg (fun h => lt_asymm hk (strcmp_neg_iff.mp h)), if_pos (strcmp_pos_iff.mpr hk),
        ihr hr hord.2.1 hend hread.right he, if_neg (lt_asymm hk), if_pos hk]
      simp only [Option.bind_some, hfix, Option.map_some]

end Delete

/-! ### Update -/

section Update

variable {s s₁ s' : σ} {key value kp vp vp' : P} {k : CStr} {T : Tree CStr (P × P)}

theorem avlUpdate_absent (hT : T.IsAvl) (habs : ∀ e ∈ T.toList, e.1 ≠ k) (hread : Reads B s key k T) :
    avlUpdate B key value s (ptrs T) = some (ptrs T, s) := by
  induction T with
  | nil => rfl
  | node k' e h l r ihl ihr =>
    obtain ⟨hl, hk', hr⟩ := ne_of_absent habs
    obtain ⟨hjoin, hfix⟩ := avlFix_node hT
    simp only [ptrs_node, avlUpdate, hread.root, Option.bind_eq_bind, Option.bind_some]
    rw [hjoin]
    rcases lt_or_gt_of_ne hk' with hk | hk
    · rw [if_neg (fun h => lt_asymm hk (strcmp_neg_iff.mp h)), if_pos (strcmp_pos_iff.mpr hk),
        ihr hT.2.1 hr hread.right]
      simp only [Option.bind_some, hfix, Option.map_some]
    · rw [if_pos (strcmp_neg_iff.mpr hk), ihl hT.1 hl hread.left]
      simp only [Option.bind_some, hfix, Option.map_some]

/-- **A key that exists**: its old value is released and its node gets the copy of the new one. -/
theorem avlUpdate_present (hT : T.IsAvl) (hord : T.Ordered) (hread : Reads B s key k T)
    (hmem : (k, kp, vp) ∈ T.toList) (hfree : B.free s vp = some s₁) (hcopy : B.copy s₁ value = some (vp', s')) :
    avlUpdate B key value s (ptrs T) = some (ptrs (T.update k (kp, vp')), s') := by
  induction T with
  | nil => cases hmem
  | node k' e h l r ihl ihr =>
    obtain ⟨hl, hr, hh, h₁, h₂⟩ := hT
    simp only [ptrs_node, avlUpdate, hread.root, Option.bind_eq_bind, Option.bind_some]
    rw [update]
    rcases mem_node hord hmem with ⟨hk, he⟩ | ⟨rfl, rfl⟩ | ⟨hk, he⟩
    · obtain ⟨havl, hlh⟩ := isAvl_update (k := k) (v := (kp, vp')) hl
      have hfix := avlFix_of_avl (k := k') (e := e) (isAvl_join havl hr (by omega) (by omega))
      rw [ptrs_join] at hfix
      rw [if_pos (strcmp_neg_iff.mpr hk), ihl hl hord.1 hread.left he, if_pos hk]
      simp only [Option.bind_some, hfix, Option.map_some]
      rw [← ptrs_join, join, hlh, ← hh]
    · have hfix := avlFix_of_avl (k := k) (e := (kp, vp')) (isAvl_join hl hr h₁ h₂)
      rw [ptrs_join] at hfix
      rw [if_neg (fun h => lt_irrefl k (strcmp_neg_iff.mp h)), if_neg (fun h => lt_irrefl k (strcmp_pos_iff.mp h)),
        if_neg (lt_irrefl k), if_neg (lt_irrefl k)]
      simp only [hfree, hcopy, Option.bind_some, hfix, Option.map_some]
      rw [join, height_ptrs, height_ptrs, ← hh]
      rfl
    · obtain ⟨havl, hrh⟩ := isAvl_update (k := k) (v := (kp, vp')) hr
      have hfix := avlFix_of_avl (k := k') (e := e) (isAvl_join hl havl (by omega) (by omega))
      rw [ptrs_join] at hfix
      rw [if_neg (fun h => lt_asymm hk (strcmp_neg_iff.mp h)), if_pos (strcmp_pos_iff.mpr hk),
        ihr hr hord.2.1 hread.right he, if_neg (lt_asymm hk), if_pos hk]
      simp only [Option.bind_some, hfix, Option.map_some]
      rw [← ptrs_join, join, hrh, ← hh]

end Update

/-! ### The listing and the size -/

/-- **The listing** is the list of the entries. -/
theorem avlGetAll_eq (t : AVLNode P) : avlGetAll t = t.toList := by
  induction t with
  | nil => rfl
  | node k v h l r ihl ihr => rw [avlGetAll, toList_node, ihl, ihr]

theorem addInt_bmod (m n : Int) : addInt (m.bmod (2 ^ 32)) (n.bmod (2 ^ 32)) = (m + n).bmod (2 ^ 32) := by
  rw [addInt, Int.bmod_add_bmod, Int.add_bmod_bmod]

/-- **The size** is the number of the entries, as an `int`. -/
theorem avlGetSize_eq (t : AVLNode P) : avlGetSize t = (t.toList.length : Int).bmod (2 ^ 32) := by
  induction t with
  | nil => exact Int.zero_bmod.symm
  | node k v h l r ihl ihr =>
    rw [avlGetSize, ihl, ihr, addInt_bmod, addInt, Int.bmod_add_bmod, toList_node, List.length_append, List.length_cons]
    congr 1

end Wow.KvList
