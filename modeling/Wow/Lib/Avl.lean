import Mathlib.Algebra.Order.Ring.Nat
import Mathlib.Order.Basic
import Mathlib.Data.List.Basic
import Mathlib.Tactic.Common

/-!
# Wow.Lib.Avl — height-balanced search trees

A node stores a key, a value and the height of its tree.  `IsAvl` says that every stored height is the real one
and that the two subtrees of a node differ by at most one; `Ordered` that the keys ascend from left to right.

* `isAvl_balance`: where the subtrees differ by at most two, one rotation or two restore the balance.
* `toList_insert`, `toList_delete`: what insertion and deletion do to the ordered list of the entries.
* `isAvl_insert`, `isAvl_delete`: both keep the balance; `Leans` says which way an insertion leans.
* `search_eq_some_iff`: a search finds exactly the entries of the list.
-/

namespace Wow.Avl

inductive Tree (κ ν : Type) where
  | nil
  | node (key : κ) (value : ν) (height : Nat) (left right : Tree κ ν)

namespace Tree

variable {κ ν : Type}

/-! ### Heights -/

/-- The stored height. -/
def height : Tree κ ν → Nat
  | nil => 0
  | node _ _ h _ _ => h

/-- The real height. -/
def depth : Tree κ ν → Nat
  | nil => 0
  | node _ _ _ l r => max l.depth r.depth + 1

/-- The stored height of the left subtree less that of the right one. -/
def factor : Tree κ ν → Int
  | nil => 0
  | node _ _ _ l r => l.height - r.height

/-- A node with its height computed. -/
def join (k : κ) (v : ν) (l r : Tree κ ν) : Tree κ ν := node k v (max l.height r.height + 1) l r

@[simp] theorem height_nil : (nil : Tree κ ν).height = 0 := rfl
@[simp] theorem height_node (k : κ) (v : ν) (h : Nat) (l r : Tree κ ν) : (node k v h l r).height = h := rfl
@[simp] theorem factor_node (k : κ) (v : ν) (h : Nat) (l r : Tree κ ν) :
    (node k v h l r).factor = (l.height : Int) - r.height := rfl
@[simp] theorem height_join (k : κ) (v : ν) (l r : Tree κ ν) :
    (join k v l r).height = max l.height r.height + 1 := rfl
@[simp] theorem factor_join (k : κ) (v : ν) (l r : Tree κ ν) :
    (join k v l r).factor = (l.height : Int) - r.height := rfl

/-- Stored heights are those of the children, and these differ by at most one. -/
def IsAvl : Tree κ ν → Prop
  | nil => True
  | node _ _ h l r => l.IsAvl ∧ r.IsAvl ∧ h = max l.height r.height + 1 ∧
      l.height ≤ r.height + 1 ∧ r.height ≤ l.height + 1

theorem isAvl_nil : (nil : Tree κ ν).IsAvl := trivial

theorem isAvl_join {k : κ} {v : ν} {l r : Tree κ ν} (hl : l.IsAvl) (hr : r.IsAvl) (h₁ : l.height ≤ r.height + 1)
    (h₂ : r.height ≤ l.height + 1) : (join k v l r).IsAvl := ⟨hl, hr, rfl, h₁, h₂⟩

/-- A node of a balanced tree is the join of its parts. -/
theorem IsAvl.eq_join {k : κ} {v : ν} {h : Nat} {l r : Tree κ ν} (ht : (node k v h l r).IsAvl) :
    node k v h l r = join k v l r := by rw [ht.2.2.1, join]

/-- **Stored heights are real.** -/
theorem IsAvl.height_eq {t : Tree κ ν} (ht : t.IsAvl) : t.height = t.depth := by
  induction t with
  | nil => rfl
  | node k v h l r ihl ihr =>
    obtain ⟨hl, hr, hh, -⟩ := ht
    rw [height_node, hh, ihl hl, ihr hr, depth]

/-- Every node stores its height, and its subtrees differ by at most one, in real heights. -/
def Balanced : Tree κ ν → Prop
  | nil => True
  | t@(node _ _ h l r) => l.Balanced ∧ r.Balanced ∧ h = t.depth ∧ l.depth ≤ r.depth + 1 ∧ r.depth ≤ l.depth + 1

theorem IsAvl.balanced {t : Tree κ ν} (ht : t.IsAvl) : t.Balanced := by
  induction t with
  | nil => trivial
  | node k v h l r ihl ihr =>
    have hh := ht.height_eq
    obtain ⟨hl, hr, -, h₁, h₂⟩ := ht
    rw [hl.height_eq, hr.height_eq] at h₁ h₂
    exact ⟨ihl hl, ihr hr, hh, h₁, h₂⟩

/-- A tree without height is empty. -/
theorem IsAvl.eq_nil {t : Tree κ ν} (ht : t.IsAvl) (h : t.height = 0) : t = nil := by
  cases t with
  | nil => rfl
  | node k v n l r =>
    rw [height_node, ht.2.2.1] at h
    omega

theorem IsAvl.exists_join {t : Tree κ ν} (ht : t.IsAvl) (h : 0 < t.height) :
    ∃ k v l r, t = join k v l r ∧ l.IsAvl ∧ r.IsAvl ∧ l.height ≤ r.height + 1 ∧ r.height ≤ l.height + 1 := by
  cases t with
  | nil => exact absurd h (Nat.lt_irrefl 0)
  | node k v n l r => exact ⟨k, v, l, r, ht.eq_join, ht.1, ht.2.1, ht.2.2.2⟩

/-! ### The entries in order -/

def toList : Tree κ ν → List (κ × ν)
  | nil => []
  | node k v _ l r => l.toList ++ (k, v) :: r.toList

@[simp] theorem toList_nil : (nil : Tree κ ν).toList = [] := rfl
@[simp] theorem toList_node (k : κ) (v : ν) (h : Nat) (l r : Tree κ ν) :
    (node k v h l r).toList = l.toList ++ (k, v) :: r.toList := rfl
@[simp] theorem toList_join (k : κ) (v : ν) (l r : Tree κ ν) :
    (join k v l r).toList = l.toList ++ (k, v) :: r.toList := rfl

/-! ### Rotations -/

def rotateRight : Tree κ ν → Tree κ ν
  | node k v _ (node k' v' _ a b) r => join k' v' a (join k v b r)
  | t => t

def rotateLeft : Tree κ ν → Tree κ ν
  | node k v _ l (node k' v' _ a b) => join k' v' (join k v l a) b
  | t => t

@[simp] theorem rotateRight_join (k k' : κ) (v v' : ν) (h : Nat) (a b r : Tree κ ν) :
    rotateRight (node k v h (join k' v' a b) r) = join k' v' a (join k v b r) := rfl
@[simp] theorem rotateLeft_join (k k' : κ) (v v' : ν) (h : Nat) (l a b : Tree κ ν) :
    rotateLeft (node k v h l (join k' v' a b)) = join k' v' (join k v l a) b := rfl

@[simp] theorem toList_rotateRight (t : Tree κ ν) : t.rotateRight.toList = t.toList := by
  unfold rotateRight
  split <;> simp

@[simp] theorem toList_rotateLeft (t : Tree κ ν) : t.rotateLeft.toList = t.toList := by
  unfold rotateLeft
  split <;> simp

/-- The rotations that a node needs, by the heights of its subtrees and theirs. -/
def balance : Tree κ ν → Tree κ ν
  | nil => nil
  | node k v h l r =>
    if l.height > r.height + 1 then
      if 0 ≤ l.factor then rotateRight (node k v h l r) else rotateRight (node k v h l.rotateLeft r)
    else if r.height > l.height + 1 then
      if r.factor ≤ 0 then rotateLeft (node k v h l r) else rotateLeft (node k v h l r.rotateRight)
    else node k v h l r

@[simp] theorem toList_balance (t : Tree κ ν) : t.balance.toList = t.toList := by
  cases t with
  | nil => rfl
  | node k v h l r =>
    simp only [balance]
    split_ifs <;> simp

section Balance

variable {k : κ} {v : ν} {h : Nat} {l r : Tree κ ν}

theorem balance_of_le (h₁ : l.height ≤ r.height + 1) (h₂ : r.height ≤ l.height + 1) :
    balance (node k v h l r) = node k v h l r := by
  rw [balance, if_neg (by omega), if_neg (by omega)]

/-- The left side too high: balanced again, and not higher than the left side was, unless that was even. -/
theorem isAvl_balance_left (hl : l.IsAvl) (hr : r.IsAvl) (hlr : l.height = r.height + 2) :
    (balance (node k v h l r)).IsAvl ∧ (balance (node k v h l r)).height ≤ l.height + 1 ∧
      l.height ≤ (balance (node k v h l r)).height ∧
      (l.factor ≠ 0 → (balance (node k v h l r)).height = l.height) := by
  obtain ⟨k₁, v₁, a, b, rfl, ha, hb, hab, hba⟩ := hl.exists_join (by omega)
  rw [height_join] at hlr
  rw [balance, if_pos (by rw [height_join]; omega)]
  by_cases hf : 0 ≤ (join k₁ v₁ a b).factor
  · rw [if_pos hf, rotateRight_join]
    rw [factor_join] at hf ⊢
    refine ⟨isAvl_join ha (isAvl_join hb hr (by omega) (by omega)) ?_ ?_, ?_, ?_, fun hne => ?_⟩ <;>
      simp only [height_join] <;> omega
  · rw [if_neg hf]
    rw [factor_join] at hf ⊢
    obtain ⟨k₂, v₂, c, d, rfl, hc, hd, hcd, hdc⟩ := hb.exists_join (by omega)
    rw [height_join] at *
    rw [show rotateLeft (join k₁ v₁ a (join k₂ v₂ c d)) = join k₂ v₂ (join k₁ v₁ a c) d from rfl, rotateRight_join]
    refine ⟨isAvl_join (isAvl_join ha hc (by omega) (by omega)) (isAvl_join hd hr (by omega) (by omega)) ?_ ?_,
      ?_, ?_, fun hne => ?_⟩ <;> simp only [height_join] <;> omega

theorem isAvl_balance_right (hl : l.IsAvl) (hr : r.IsAvl) (hlr : r.height = l.height + 2) :
    (balance (node k v h l r)).IsAvl ∧ (balance (node k v h l r)).height ≤ r.height + 1 ∧
      r.height ≤ (balance (node k v h l r)).height ∧
      (r.factor ≠ 0 → (balance (node k v h l r)).height = r.height) := by
  obtain ⟨k₁, v₁, a, b, rfl, ha, hb, hab, hba⟩ := hr.exists_join (by omega)
  rw [height_join] at hlr
  rw [balance, if_neg (by rw [height_join]; omega), if_pos (by rw [height_join]; omega)]
  by_cases hf : (join k₁ v₁ a b).factor ≤ 0
  · rw [if_pos hf, rotateLeft_join]
    rw [factor_join] at hf ⊢
    refine ⟨isAvl_join (isAvl_join hl ha (by omega) (by omega)) hb ?_ ?_, ?_, ?_, fun hne => ?_⟩ <;>
      simp only [height_join] <;> omega
  · rw [if_neg hf]
    rw [factor_join] at hf ⊢
    obtain ⟨k₂, v₂, c, d, rfl, hc, hd, hcd, hdc⟩ := ha.exists_join (by omega)
    rw [height_join] at *
    rw [show rotateRight (join k₁ v₁ (join k₂ v₂ c d) b) = join k₂ v₂ c (join k₁ v₁ d b) from rfl, rotateLeft_join]
    refine ⟨isAvl_join (isAvl_join hl hc (by omega) (by omega)) (isAvl_join hd hb (by omega) (by omega)) ?_ ?_,
      ?_, ?_, fun hne => ?_⟩ <;> simp only [height_join] <;> omega

/-- **Balancing**: a node whose subtrees differ by at most two becomes balanced, and loses at most one level. -/
theorem isAvl_balance (hl : l.IsAvl) (hr : r.IsAvl) (h₁ : l.height ≤ r.height + 2) (h₂ : r.height ≤ l.height + 2) :
    (balance (join k v l r)).IsAvl ∧ (balance (join k v l r)).height ≤ max l.height r.height + 1 ∧
      max l.height r.height ≤ (balance (join k v l r)).height ∧
      (l.height ≤ r.height + 1 → r.height ≤ l.height + 1 →
        (balance (join k v l r)).height = max l.height r.height + 1) := by
  by_cases hgt : l.height = r.height + 2
  · obtain ⟨h, hle, hge, -⟩ := isAvl_balance_left (k := k) (v := v) (h := max l.height r.height + 1) hl hr hgt
    exact ⟨h, by rw [join]; omega, by rw [join]; omega, fun _ _ => by omega⟩
  by_cases hlt : r.height = l.height + 2
  · obtain ⟨h, hle, hge, -⟩ := isAvl_balance_right (k := k) (v := v) (h := max l.height r.height + 1) hl hr hlt
    exact ⟨h, by rw [join]; omega, by rw [join]; omega, fun _ _ => by omega⟩
  · rw [join, balance_of_le (by omega) (by omega)]
    exact ⟨isAvl_join hl hr (by omega) (by omega), Nat.le_refl _, Nat.le_succ _, fun _ _ => rfl⟩

end Balance

def isNil : Tree κ ν → Bool
  | nil => true
  | node _ _ _ _ _ => false

theorem isNil_iff {t : Tree κ ν} : t.isNil = true ↔ t = nil := by
  cases t with
  | nil => exact iff_of_true rfl rfl
  | node k v h l r => exact iff_of_false Bool.false_ne_true nofun

/-- The first entry, `e` in an empty tree. -/
def minD (e : κ × ν) : Tree κ ν → κ × ν
  | nil => e
  | node k v _ l _ => l.minD (k, v)

/-! ### Other labels -/

section Relabel

variable {κ' ν' : Type} (f : κ × ν → κ' × ν')

/-- The same tree with other entries. -/
def relabel : Tree κ ν → Tree κ' ν'
  | nil => nil
  | node k v h l r => node (f (k, v)).1 (f (k, v)).2 h l.relabel r.relabel

@[simp] theorem height_relabel (t : Tree κ ν) : (t.relabel f).height = t.height := by cases t <;> rfl

@[simp] theorem factor_relabel (t : Tree κ ν) : (t.relabel f).factor = t.factor := by
  cases t with
  | nil => rfl
  | node k v h l r => simp only [relabel, factor, height_relabel]

@[simp] theorem isNil_relabel (t : Tree κ ν) : (t.relabel f).isNil = t.isNil := by cases t <;> rfl

@[simp] theorem relabel_join (k : κ) (v : ν) (l r : Tree κ ν) :
    (join k v l r).relabel f = join (f (k, v)).1 (f (k, v)).2 (l.relabel f) (r.relabel f) := by
  simp only [join, relabel, height_relabel]

theorem toList_relabel (t : Tree κ ν) : (t.relabel f).toList = t.toList.map f := by
  induction t with
  | nil => rfl
  | node k v h l r ihl ihr => simp only [relabel, toList_node, ihl, ihr, List.map_append, List.map_cons]

theorem minD_relabel (t : Tree κ ν) (e : κ × ν) : (t.relabel f).minD (f e) = f (t.minD e) := by
  induction t generalizing e with
  | nil => rfl
  | node k v h l r ihl ihr => exact ihl (k, v)

theorem relabel_rotateRight (t : Tree κ ν) : t.rotateRight.relabel f = (t.relabel f).rotateRight := by
  match t with
  | nil => rfl
  | node _ _ _ nil _ => rfl
  | node _ _ _ (node _ _ _ _ _) _ => simp [rotateRight, relabel]

theorem relabel_rotateLeft (t : Tree κ ν) : t.rotateLeft.relabel f = (t.relabel f).rotateLeft := by
  match t with
  | nil => rfl
  | node _ _ _ _ nil => rfl
  | node _ _ _ _ (node _ _ _ _ _) => simp [rotateLeft, relabel]

theorem relabel_balance (t : Tree κ ν) : t.balance.relabel f = (t.relabel f).balance := by
  cases t with
  | nil => rfl
  | node k v h l r =>
    simp only [relabel, balance, height_relabel, factor_relabel]
    split_ifs <;> simp only [relabel, relabel_rotateRight, relabel_rotateLeft]

end Relabel

/-! ### Operations -/

section Order

variable [LinearOrder κ] {k : κ} {v : ν} {t : Tree κ ν}

def search (k : κ) : Tree κ ν → Option ν
  | nil => none
  | node k' v' _ l r => if k < k' then l.search k else if k' < k then r.search k else some v'

/-- A new entry, or a new value for the key. -/
def insert (k : κ) (v : ν) : Tree κ ν → Tree κ ν
  | nil => join k v nil nil
  | node k' v' h l r =>
    if k < k' then balance (join k' v' (l.insert k v) r)
    else if k' < k then balance (join k' v' l (r.insert k v))
    else node k' v h l r

/-- A new value for the key, if it is there. -/
def update (k : κ) (v : ν) : Tree κ ν → Tree κ ν
  | nil => nil
  | node k' v' h l r =>
    if k < k' then node k' v' h (l.update k v) r
    else if k' < k then node k' v' h l (r.update k v)
    else node k' v h l r

def delete : Tree κ ν → κ → Tree κ ν
  | nil, _ => nil
  | node k' v' _ l r, k =>
    if k < k' then balance (join k' v' (l.delete k) r)
    else if k' < k then balance (join k' v' l (r.delete k))
    else if l.isNil then r
    else if r.isNil then l
    else balance (join (r.minD (k', v')).1 (r.minD (k', v')).2 l (r.delete (r.minD (k', v')).1))

/-! ### Balance -/

/-- The node that an insertion has made higher leans to the side of the new key. -/
def Leans (k : κ) : Tree κ ν → Tree κ ν → Prop
  | nil, _ => True
  | node k' v' _ _ _, t' => ∃ l r, t' = join k' v' l r ∧ (k < k' → l.height = r.height + 1) ∧
      (k' < k → r.height = l.height + 1) ∧ k ≠ k'

/-- A tree that leans is not even, unless it was empty. -/
theorem Leans.factor_ne {t' : Tree κ ν} (h : t.Leans k t') (ht : 0 < t.height) : t'.factor ≠ 0 := by
  cases t with
  | nil => exact absurd ht (Nat.lt_irrefl 0)
  | node k' v' n l r =>
    obtain ⟨a, b, rfl, hlt, hgt, hne⟩ := h
    rw [factor_join]
    rcases lt_or_gt_of_ne hne with hk | hk
    · have := hlt hk
      omega
    · have := hgt hk
      omega

/-- **Insertion keeps the balance**, and a tree that grows leans to the side of the new key. -/
theorem isAvl_insert (ht : t.IsAvl) : (t.insert k v).IsAvl ∧ ((t.insert k v).height = t.height ∨
    (t.insert k v).height = t.height + 1 ∧ t.Leans k (t.insert k v)) := by
  induction t with
  | nil => exact ⟨isAvl_join isAvl_nil isAvl_nil (Nat.zero_le _) (Nat.zero_le _), Or.inr ⟨rfl, trivial⟩⟩
  | node k' v' h l r ihl ihr =>
    obtain ⟨hl, hr, hh, h₁, h₂⟩ := ht
    rw [height_node]
    rcases lt_trichotomy k k' with hk | rfl | hk
    · obtain ⟨hl', hgrow⟩ := ihl hl
      rw [insert, if_pos hk]
      by_cases htall : (l.insert k v).height = r.height + 2
      · -- it can only be the side that was higher already
        obtain ⟨hsame, hlean⟩ := hgrow.resolve_left (by omega)
        obtain ⟨havl, -, -, heq⟩ := isAvl_balance_left (k := k') (v := v') (h := max (l.insert k v).height r.height + 1)
          hl' hr htall
        have hfac := heq (hlean.factor_ne (by omega))
        exact ⟨havl, Or.inl (by rw [join, hfac]; omega)⟩
      · rw [join, balance_of_le (by omega) (by omega)]
        refine ⟨isAvl_join hl' hr (by omega) (by omega), ?_⟩
        by_cases heq : (l.insert k v).height = r.height + 1 ∧ l.height = r.height
        · refine Or.inr ⟨by rw [height_node]; omega, _, _, rfl, fun _ => heq.1, fun hk' => ?_, ne_of_lt hk⟩
          exact absurd hk' (lt_asymm hk)
        · refine Or.inl ?_
          rw [height_node]
          rcases hgrow with hsame | ⟨hgrown, -⟩ <;> omega
    · rw [insert, if_neg (lt_irrefl k), if_neg (lt_irrefl k)]
      exact ⟨⟨hl, hr, hh, h₁, h₂⟩, Or.inl rfl⟩
    · obtain ⟨hr', hgrow⟩ := ihr hr
      rw [insert, if_neg (lt_asymm hk), if_pos hk]
      by_cases htall : (r.insert k v).height = l.height + 2
      · obtain ⟨hsame, hlean⟩ := hgrow.resolve_left (by omega)
        obtain ⟨havl, -, -, heq⟩ := isAvl_balance_right (k := k') (v := v') (h := max l.height (r.insert k v).height + 1)
          hl hr' htall
        have hfac := heq (hlean.factor_ne (by omega))
        exact ⟨havl, Or.inl (by rw [join, hfac]; omega)⟩
      · rw [join, balance_of_le (by omega) (by omega)]
        refine ⟨isAvl_join hl hr' (by omega) (by omega), ?_⟩
        by_cases heq : (r.insert k v).height = l.height + 1 ∧ r.height = l.height
        · refine Or.inr ⟨by rw [height_node]; omega, _, _, rfl, fun hk' => ?_, fun _ => heq.1, ne_of_gt hk⟩
          exact absurd hk' (lt_asymm hk)
        · refine Or.inl ?_
          rw [height_node]
          rcases hgrow with hsame | ⟨hgrown, -⟩ <;> omega

/-- **Deletion keeps the balance**, and takes away at most one level. -/
theorem isAvl_delete (ht : t.IsAvl) (k : κ) :
    (t.delete k).IsAvl ∧ (t.delete k).height ≤ t.height ∧ t.height ≤ (t.delete k).height + 1 := by
  induction t generalizing k with
  | nil => exact ⟨isAvl_nil, Nat.le_refl _, Nat.zero_le _⟩
  | node k' v' h l r ihl ihr =>
    obtain ⟨hl, hr, hh, h₁, h₂⟩ := ht
    have hleft : ∀ (k₀ : κ) (v₀ : ν) (k : κ), (balance (join k₀ v₀ (l.delete k) r)).IsAvl ∧
        (balance (join k₀ v₀ (l.delete k) r)).height ≤ h ∧ h ≤ (balance (join k₀ v₀ (l.delete k) r)).height + 1 := by
      intro k₀ v₀ k
      obtain ⟨hl', hle, hge⟩ := ihl hl k
      obtain ⟨havl, hhle, hhge, hexact⟩ := isAvl_balance (k := k₀) (v := v₀) hl' hr (by omega) (by omega)
      exact ⟨havl, by omega, by omega⟩
    have hright : ∀ (k₀ : κ) (v₀ : ν) (k : κ), (balance (join k₀ v₀ l (r.delete k))).IsAvl ∧
        (balance (join k₀ v₀ l (r.delete k))).height ≤ h ∧ h ≤ (balance (join k₀ v₀ l (r.delete k))).height + 1 := by
      intro k₀ v₀ k
      obtain ⟨hr', hle, hge⟩ := ihr hr k
      obtain ⟨havl, hhle, hhge, hexact⟩ := isAvl_balance (k := k₀) (v := v₀) hl hr' (by omega) (by omega)
      exact ⟨havl, by omega, by omega⟩
    rw [height_node]
    by_cases hk : k < k'
    · rw [delete, if_pos hk]
      exact hleft k' v' k
    by_cases hk' : k' < k
    · rw [delete, if_neg hk, if_pos hk']
      exact hright k' v' k
    rw [delete, if_neg hk, if_neg hk']
    by_cases hln : l.isNil = true
    · have hl0 : l.height = 0 := by rw [isNil_iff.mp hln, height_nil]
      rw [if_pos hln]
      exact ⟨hr, by omega, by omega⟩
    by_cases hrn : r.isNil = true
    · have hr0 : r.height = 0 := by rw [isNil_iff.mp hrn, height_nil]
      rw [if_neg hln, if_pos hrn]
      exact ⟨hl, by omega, by omega⟩
    · rw [if_neg hln, if_neg hrn]
      exact hright _ _ _

theorem isAvl_update (ht : t.IsAvl) : (t.update k v).IsAvl ∧ (t.update k v).height = t.height := by
  induction t with
  | nil => exact ⟨isAvl_nil, rfl⟩
  | node k' v' h l r ihl ihr =>
    obtain ⟨hl, hr, hh, h₁, h₂⟩ := ht
    rw [update]
    split_ifs with hk hk'
    · obtain ⟨hl', hlh⟩ := ihl hl
      exact ⟨⟨hl', hr, by rw [hlh]; exact hh, by rw [hlh]; exact h₁, by rw [hlh]; exact h₂⟩, rfl⟩
    · obtain ⟨hr', hrh⟩ := ihr hr
      exact ⟨⟨hl, hr', by rw [hrh]; exact hh, by rw [hrh]; exact h₁, by rw [hrh]; exact h₂⟩, rfl⟩
    · exact ⟨⟨hl, hr, hh, h₁, h₂⟩, rfl⟩

/-! ### Order -/

/-- Smaller keys on the left, greater ones on the right. -/
def Ordered : Tree κ ν → Prop
  | nil => True
  | node k _ _ l r => l.Ordered ∧ r.Ordered ∧ (∀ e ∈ l.toList, e.1 < k) ∧ ∀ e ∈ r.toList, k < e.1

/-- **The tree is ordered** exactly when its list is. -/
theorem ordered_iff : t.Ordered ↔ t.toList.Pairwise (·.1 < ·.1) := by
  induction t with
  | nil => exact iff_of_true trivial List.Pairwise.nil
  | node k' v' h l r ihl ihr =>
    rw [Ordered, ihl, ihr, toList_node, List.pairwise_append, List.pairwise_cons]
    constructor
    · rintro ⟨hl, hr, hlk, hkr⟩
      refine ⟨hl, ⟨hkr, hr⟩, fun a ha b hb => ?_⟩
      rcases List.mem_cons.mp hb with rfl | hb
      · exact hlk a ha
      · exact (hlk a ha).trans (hkr b hb)
    · rintro ⟨hl, ⟨hkr, hr⟩, hlr⟩
      exact ⟨hl, hr, fun e he => hlr e he _ List.mem_cons_self, hkr⟩

/-- An ordered list of entries with one more, or with one changed. -/
def insertList (k : κ) (v : ν) (L : List (κ × ν)) : List (κ × ν) :=
  L.filter (·.1 < k) ++ (k, v) :: L.filter (k < ·.1)

omit [LinearOrder κ] in
theorem filter_all {p : κ × ν → Bool} {L : List (κ × ν)} (h : ∀ e ∈ L, p e = true) : L.filter p = L :=
  List.filter_eq_self.mpr h

omit [LinearOrder κ] in
theorem filter_none {p : κ × ν → Bool} {L : List (κ × ν)} (h : ∀ e ∈ L, p e = false) : L.filter p = [] :=
  List.filter_eq_nil_iff.mpr fun e he => by simp [h e he]

theorem toList_insert (ht : t.Ordered) : (t.insert k v).toList = insertList k v t.toList := by
  induction t with
  | nil => rfl
  | node k' v' h l r ihl ihr =>
    obtain ⟨hl, hr, hlk, hkr⟩ := ht
    rw [insert]
    simp only [insertList, toList_node, List.filter_append, List.filter_cons]
    rcases lt_trichotomy k k' with hk | rfl | hk
    · have hr₁ := filter_none (p := fun e => decide (e.1 < k)) fun e he =>
        decide_eq_false (lt_asymm (hk.trans (hkr e he)))
      have hr₂ := filter_all (p := fun e => decide (k < e.1)) fun e he => decide_eq_true (hk.trans (hkr e he))
      simp [ihl hl, insertList, hr₁, hr₂, lt_asymm hk, hk]
    · have hl₁ := filter_all (p := fun e => decide (e.1 < k)) fun e he => decide_eq_true (hlk e he)
      have hl₂ := filter_none (p := fun e => decide (k < e.1)) fun e he => decide_eq_false (lt_asymm (hlk e he))
      have hr₁ := filter_none (p := fun e => decide (e.1 < k)) fun e he => decide_eq_false (lt_asymm (hkr e he))
      have hr₂ := filter_all (p := fun e => decide (k < e.1)) fun e he => decide_eq_true (hkr e he)
      simp [hl₁, hl₂, hr₁, hr₂]
    · have hl₁ := filter_all (p := fun e => decide (e.1 < k)) fun e he => decide_eq_true ((hlk e he).trans hk)
      have hl₂ := filter_none (p := fun e => decide (k < e.1)) fun e he =>
        decide_eq_false (lt_asymm ((hlk e he).trans hk))
      simp [ihr hr, insertList, hl₁, hl₂, lt_asymm hk, hk]

omit [LinearOrder κ] in
/-- The first entry of the list. -/
theorem toList_eq_minD (e : κ × ν) (ht : t ≠ nil) : ∃ L, t.toList = t.minD e :: L := by
  induction t generalizing e with
  | nil => exact absurd rfl ht
  | node k' v' h l r ihl ihr =>
    rw [minD, toList_node]
    cases l with
    | nil => exact ⟨r.toList, rfl⟩
    | node k₁ v₁ h₁ a b =>
      obtain ⟨L, hL⟩ := ihl (k', v') nofun
      exact ⟨L ++ (k', v') :: r.toList, by rw [hL, List.cons_append]⟩

/-- **Deletion** takes the entries of the key out of the list. -/
theorem toList_delete (ht : t.Ordered) (k : κ) : (t.delete k).toList = t.toList.filter (·.1 ≠ k) := by
  induction t generalizing k with
  | nil => rfl
  | node k' v' h l r ihl ihr =>
    obtain ⟨hl, hr, hlk, hkr⟩ := ht
    rw [toList_node, List.filter_append, List.filter_cons]
    rcases lt_trichotomy k k' with hk | rfl | hk
    · have hr₁ := filter_all (p := fun e => decide (e.1 ≠ k)) fun e he =>
        decide_eq_true (ne_of_gt (hk.trans (hkr e he)))
      rw [delete, if_pos hk, toList_balance, toList_join, ihl hl, hr₁, if_pos (by simpa using ne_of_gt hk)]
    · have hl₁ := filter_all (p := fun e => decide (e.1 ≠ k)) fun e he => decide_eq_true (ne_of_lt (hlk e he))
      have hr₁ := filter_all (p := fun e => decide (e.1 ≠ k)) fun e he => decide_eq_true (ne_of_gt (hkr e he))
      rw [delete, if_neg (lt_irrefl k), if_neg (lt_irrefl k), hl₁, hr₁,
        if_neg (show ¬ decide ((k, v').1 ≠ k) = true by simp)]
      by_cases hln : l.isNil = true
      · rw [if_pos hln, isNil_iff.mp hln, toList_nil, List.nil_append]
      by_cases hrn : r.isNil = true
      · rw [if_neg hln, if_pos hrn, isNil_iff.mp hrn, toList_nil, List.append_nil]
      -- the first entry of the right side takes the place of the deleted one
      obtain ⟨L, hL⟩ := toList_eq_minD (k, v') fun hnil => hrn (isNil_iff.mpr hnil)
      have hord := ordered_iff.mp hr
      rw [hL, List.pairwise_cons] at hord
      have hL₁ := filter_all (p := fun e => decide (e.1 ≠ (r.minD (k, v')).1)) fun e he =>
        decide_eq_true (ne_of_gt (hord.1 e he))
      rw [if_neg hln, if_neg hrn, toList_balance, toList_join, ihr hr, hL, List.filter_cons,
        if_neg (show ¬ decide ((r.minD (k, v')).1 ≠ (r.minD (k, v')).1) = true by simp), hL₁]
    · have hl₁ := filter_all (p := fun e => decide (e.1 ≠ k)) fun e he =>
        decide_eq_true (ne_of_lt ((hlk e he).trans hk))
      rw [delete, if_neg (lt_asymm hk), if_pos hk, toList_balance, toList_join, ihr hr, hl₁,
        if_pos (by simpa using ne_of_lt hk)]

/-- **An update** changes the value of the key where it stands. -/
theorem toList_update (ht : t.Ordered) :
    (t.update k v).toList = t.toList.map fun e => if e.1 = k then (k, v) else e := by
  induction t with
  | nil => rfl
  | node k' v' h l r ihl ihr =>
    obtain ⟨hl, hr, hlk, hkr⟩ := ht
    have hmap : ∀ {L : List (κ × ν)}, (∀ e ∈ L, e.1 ≠ k) → (L.map fun e => if e.1 = k then (k, v) else e) = L := by
      intro L hL
      calc (L.map fun e => if e.1 = k then (k, v) else e) = L.map id :=
            List.map_congr_left fun e he => if_neg (hL e he)
        _ = L := List.map_id L
    rw [toList_node, List.map_append, List.map_cons]
    rcases lt_trichotomy k k' with hk | rfl | hk
    · rw [update, if_pos hk, toList_node, ihl hl, if_neg (ne_of_gt hk),
        hmap fun e he => ne_of_gt (hk.trans (hkr e he))]
    · rw [update, if_neg (lt_irrefl k), if_neg (lt_irrefl k), toList_node, if_pos rfl,
        hmap fun e he => ne_of_lt (hlk e he), hmap fun e he => ne_of_gt (hkr e he)]
    · rw [update, if_neg (lt_asymm hk), if_pos hk, toList_node, ihr hr, if_neg (ne_of_lt hk),
        hmap fun e he => ne_of_lt ((hlk e he).trans hk)]

/-- **A search** finds exactly the entries of the list. -/
theorem search_eq_some_iff (ht : t.Ordered) : t.search k = some v ↔ (k, v) ∈ t.toList := by
  induction t with
  | nil => exact iff_of_false nofun nofun
  | node k' v' h l r ihl ihr =>
    obtain ⟨hl, hr, hlk, hkr⟩ := ht
    rw [toList_node, List.mem_append, List.mem_cons, Prod.mk.injEq]
    rcases lt_trichotomy k k' with hk | rfl | hk
    · have hr₁ : (k, v) ∉ r.toList := fun he => lt_asymm hk (hkr _ he)
      rw [search, if_pos hk, ihl hl]
      exact ⟨Or.inl, fun h => h.resolve_right fun h => h.elim (fun h => ne_of_lt hk h.1) hr₁⟩
    · have hl₁ : (k, v) ∉ l.toList := fun he => lt_irrefl k (hlk _ he)
      have hr₁ : (k, v) ∉ r.toList := fun he => lt_irrefl k (hkr _ he)
      rw [search, if_neg (lt_irrefl k), if_neg (lt_irrefl k), Option.some_inj]
      exact ⟨fun h => Or.inr (Or.inl ⟨rfl, h.symm⟩),
        fun h => ((h.resolve_left hl₁).resolve_right hr₁).2.symm⟩
    · have hl₁ : (k, v) ∉ l.toList := fun he => lt_asymm hk (hlk _ he)
      rw [search, if_neg (lt_asymm hk), if_pos hk, ihr hr]
      exact ⟨fun h => Or.inr (Or.inr h), fun h => ((h.resolve_left hl₁).resolve_left fun h => ne_of_gt hk h.1)⟩

/-! ### Keys that are there and keys that are not -/

theorem search_eq_none_iff (ht : t.Ordered) : t.search k = none ↔ ∀ e ∈ t.toList, e.1 ≠ k := by
  rw [Option.eq_none_iff_forall_not_mem]
  constructor
  · rintro h ⟨k', v⟩ he rfl
    exact h v ((search_eq_some_iff ht).mpr he)
  · intro h v hv
    exact h _ ((search_eq_some_iff ht).mp hv) rfl

omit [LinearOrder κ] in
theorem ne_of_absent {k' : κ} {v' : ν} {h : Nat} {l r : Tree κ ν} (habs : ∀ e ∈ (node k' v' h l r).toList, e.1 ≠ k) :
    (∀ e ∈ l.toList, e.1 ≠ k) ∧ k' ≠ k ∧ ∀ e ∈ r.toList, e.1 ≠ k :=
  ⟨fun e he => habs e (by simp [he]), habs (k', v') (by simp), fun e he => habs e (by simp [he])⟩

theorem update_of_absent (habs : ∀ e ∈ t.toList, e.1 ≠ k) : t.update k v = t := by
  induction t with
  | nil => rfl
  | node k' v' h l r ihl ihr =>
    obtain ⟨hl, hk', hr⟩ := ne_of_absent habs
    rw [update]
    rcases lt_or_gt_of_ne hk' with hk | hk
    · rw [if_neg (lt_asymm hk), if_pos hk, ihr hr]
    · rw [if_pos hk, ihl hl]

/-- Where an entry of the key stands. -/
theorem mem_node {k' : κ} {v₀ v' : ν} {h : Nat} {l r : Tree κ ν} (ht : (node k' v' h l r).Ordered)
    (hmem : (k, v₀) ∈ (node k' v' h l r).toList) :
    k < k' ∧ (k, v₀) ∈ l.toList ∨ k = k' ∧ v₀ = v' ∨ k' < k ∧ (k, v₀) ∈ r.toList := by
  obtain ⟨-, -, hlk, hkr⟩ := ht
  rw [toList_node, List.mem_append, List.mem_cons] at hmem
  rcases hmem with he | he | he
  · exact Or.inl ⟨hlk _ he, he⟩
  · exact Or.inr (Or.inl (Prod.mk.inj he))
  · exact Or.inr (Or.inr ⟨hkr _ he, he⟩)

/-- Inserting a key that is there is an update. -/
theorem insert_eq_update {v₀ : ν} (ht : t.IsAvl) (ho : t.Ordered) (hmem : (k, v₀) ∈ t.toList) :
    t.insert k v = t.update k v := by
  induction t with
  | nil => cases hmem
  | node k' v' h l r ihl ihr =>
    have hh := ht.2.2.1
    rw [insert, update]
    rcases mem_node ho hmem with ⟨hk, he⟩ | ⟨rfl, -⟩ | ⟨hk, he⟩
    · have hlh : (l.update k v).height = l.height := (isAvl_update ht.1).2
      rw [if_pos hk, if_pos hk, ihl ht.1 ho.1 he, join, hlh, ← hh,
        balance_of_le (by rw [hlh]; exact ht.2.2.2.1) (by rw [hlh]; exact ht.2.2.2.2)]
    · rw [if_neg (lt_irrefl k), if_neg (lt_irrefl k), if_neg (lt_irrefl k), if_neg (lt_irrefl k)]
    · have hrh : (r.update k v).height = r.height := (isAvl_update ht.2.1).2
      rw [if_neg (lt_asymm hk), if_pos hk, if_neg (lt_asymm hk), if_pos hk, ihr ht.2.1 ho.2.1 he, join, hrh, ← hh,
        balance_of_le (by rw [hrh]; exact ht.2.2.2.1) (by rw [hrh]; exact ht.2.2.2.2)]

/-- The node of the key, if there is one, lacks a child. -/
def AtEnd (k : κ) : Tree κ ν → Prop
  | nil => True
  | node k' _ _ l r => if k < k' then l.AtEnd k else if k' < k then r.AtEnd k else l.isNil = true ∨ r.isNil = true

/-! ### Order is kept -/

theorem pairwise_insertList {L : List (κ × ν)} (hL : L.Pairwise (·.1 < ·.1)) :
    (insertList k v L).Pairwise (·.1 < ·.1) := by
  rw [insertList, List.pairwise_append, List.pairwise_cons]
  refine ⟨hL.filter _, ⟨fun e he => ?_, hL.filter _⟩, fun e he d hd => ?_⟩
  · simpa using (List.mem_filter.mp he).2
  · have hek : e.1 < k := by simpa using (List.mem_filter.mp he).2
    rcases List.mem_cons.mp hd with rfl | hd
    · exact hek
    · have hkd : k < d.1 := by simpa using (List.mem_filter.mp hd).2
      exact hek.trans hkd

theorem Ordered.insert (ht : t.Ordered) : (t.insert k v).Ordered := by
  rw [ordered_iff, toList_insert ht]
  exact pairwise_insertList (ordered_iff.mp ht)

theorem Ordered.delete (ht : t.Ordered) (k : κ) : (t.delete k).Ordered := by
  rw [ordered_iff, toList_delete ht k]
  exact (ordered_iff.mp ht).filter _

theorem Ordered.update (ht : t.Ordered) : (t.update k v).Ordered := by
  rw [ordered_iff, toList_update ht, List.pairwise_map]
  refine (ordered_iff.mp ht).imp fun {a b} hab => ?_
  have hfst : ∀ e : κ × ν, (if e.1 = k then (k, v) else e).1 = e.1 := by
    intro e
    split_ifs with he
    · exact he.symm
    · rfl
  rw [hfst, hfst]
  exact hab

/-! ### The entries of a key and the others -/

section Perm

variable {L : List (κ × ν)}

/-- A new entry comes to the others. -/
theorem insertList_perm (habs : ∀ e ∈ L, e.1 ≠ k) : (insertList k v L).Perm ((k, v) :: L) := by
  have hgt : L.filter (fun e => decide (k < e.1)) = L.filter fun e => !decide (e.1 < k) := by
    refine List.filter_congr fun e he => ?_
    rw [← decide_not, decide_eq_decide, not_lt]
    exact ⟨le_of_lt, fun hle => lt_of_le_of_ne hle (habs e he).symm⟩
  rw [insertList, hgt]
  exact List.perm_middle.trans ((List.filter_append_perm _ L).cons _)

/-- The one entry of a key stands beside the others. -/
theorem perm_of_mem (hL : L.Pairwise (·.1 < ·.1)) (hmem : (k, v) ∈ L) : L.Perm ((k, v) :: L.filter (·.1 ≠ k)) := by
  induction L with
  | nil => cases hmem
  | cons e L ih =>
    obtain ⟨he, hL⟩ := List.pairwise_cons.mp hL
    rcases List.mem_cons.mp hmem with rfl | hmem
    · rw [List.filter_cons, if_neg (by simp), filter_all fun d hd => decide_eq_true (ne_of_gt (he d hd))]
    · rw [List.filter_cons, if_pos (by simpa using ne_of_lt (he _ hmem))]
      exact ((ih hL hmem).cons e).trans (List.Perm.swap _ _ _)

/-- The changed entry beside the others. -/
theorem map_perm {v₀ : ν} (hL : L.Pairwise (·.1 < ·.1)) (hmem : (k, v₀) ∈ L) :
    (L.map fun e => if e.1 = k then (k, v) else e).Perm ((k, v) :: L.filter (·.1 ≠ k)) := by
  have hrest : ((L.filter (·.1 ≠ k)).map fun e => if e.1 = k then (k, v) else e) = L.filter (·.1 ≠ k) := by
    calc ((L.filter (·.1 ≠ k)).map fun e => if e.1 = k then (k, v) else e) = (L.filter (·.1 ≠ k)).map id :=
          List.map_congr_left fun e he => if_neg (by simpa using (List.mem_filter.mp he).2)
      _ = L.filter (·.1 ≠ k) := List.map_id _
  refine ((perm_of_mem hL hmem).map _).trans ?_
  rw [List.map_cons, if_pos rfl, hrest]

end Perm

end Order

end Tree

end Wow.Avl
