import Wow.Iec101.Slave

/-!
# Wow.Iec101.Grouping — the node groups of the slave

`wow_iec101_s_set_node_info` is to cut the nodes of each kind into groups with consecutive addresses.  Its loops
insert a node only when its address is one below that of the node before it, and the branch that opens a group
leaves the node out.

* `kept`: the nodes the loops insert; `flatten_groupLoop`: the groups hold these and no others.
* `Grouped`: what the groups of a kind are to be.
-/

namespace Wow.Iec101.Slave

open Iec10x

/-! ### The nodes that are inserted -/

/-- The nodes whose address is one below that of the node before them, `baddr` for the first. -/
def kept : Int → List DevNodeInfo → List DevNodeInfo
  | _, [] => []
  | baddr, x :: l => if baddr = x.addr.toNat + 1 then x :: kept x.addr.toNat l else kept x.addr.toNat l

theorem length_kept_le (baddr : Int) (l : List DevNodeInfo) : (kept baddr l).length ≤ l.length := by
  induction l generalizing baddr with
  | nil => exact Nat.le_refl 0
  | cons x l ih =>
    have h := ih x.addr.toNat
    unfold kept
    split <;> simp only [List.length_cons] <;> omega

/-- The first node of a kind is never inserted. -/
theorem length_kept_lt {l : List DevNodeInfo} (hl : l ≠ []) : (kept (-1) l).length < l.length := by
  cases l with
  | nil => exact absurd rfl hl
  | cons x l =>
    have h := length_kept_le x.addr.toNat l
    rw [kept, if_neg (by omega), List.length_cons]
    omega

theorem flatten_insertTail (lists : List (List DevNodeInfo)) (x : DevNodeInfo) :
    (insertTail lists x).flatten = lists.flatten ++ [x] := by
  rcases List.eq_nil_or_concat lists with rfl | ⟨l, g, rfl⟩
  · rfl
  · simp [insertTail]

/-- A round inserts its node or opens a group. -/
theorem flatten_groupRound (limit : Nat) (baddr : Int) (lists : List (List DevNodeInfo)) (x : DevNodeInfo) :
    (groupRound limit (baddr, lists) x).1 = x.addr.toNat ∧
      (groupRound limit (baddr, lists) x).2.flatten =
        lists.flatten ++ (if baddr = x.addr.toNat + 1 then [x] else []) := by
  unfold groupRound
  by_cases h : baddr = x.addr.toNat + 1
  · simp only [h, if_true]
    split
    · exact ⟨rfl, by rw [List.flatten_append, flatten_insertTail]; simp⟩
    · exact ⟨rfl, flatten_insertTail lists x⟩
  · simp only [h, if_false]
    exact ⟨trivial, by simp⟩

theorem flatten_foldl_groupRound (limit : Nat) (l : List DevNodeInfo) (baddr : Int)
    (lists : List (List DevNodeInfo)) :
    (l.foldl (groupRound limit) (baddr, lists)).2.flatten = lists.flatten ++ kept baddr l := by
  induction l generalizing baddr lists with
  | nil => exact (List.append_nil _).symm
  | cons x l ih =>
    obtain ⟨h1, h2⟩ := flatten_groupRound limit baddr lists x
    rw [List.foldl_cons]
    generalize groupRound limit (baddr, lists) x = st at h1 h2
    obtain ⟨baddr', lists'⟩ := st
    dsimp only at h1 h2
    rw [ih, h1, h2, kept, List.append_assoc]
    split <;> rfl

/-- **What the groups of a kind hold**. -/
theorem flatten_groupLoop (limit : Nat) (p : DevNodeInfo → Bool) (nodes : List DevNodeInfo) :
    (groupLoop limit p [] nodes).flatten = kept (-1) (nodes.filter p) :=
  flatten_foldl_groupRound limit _ (-1) []

theorem mem_of_mem_kept {x : DevNodeInfo} {baddr : Int} {l : List DevNodeInfo} (h : x ∈ kept baddr l) : x ∈ l := by
  induction l generalizing baddr with
  | nil => exact h
  | cons y l ih =>
    unfold kept at h
    split at h
    · exact (List.mem_cons.mp h).elim (fun hx => hx ▸ List.mem_cons_self) fun hx => List.mem_cons_of_mem y (ih hx)
    · exact List.mem_cons_of_mem y (ih h)

/-- A group holds nodes of its kind. -/
theorem of_mem_groupLoop {limit : Nat} {p : DevNodeInfo → Bool} {nodes list : List DevNodeInfo} {x : DevNodeInfo}
    (hlist : list ∈ groupLoop limit p [] nodes) (hx : x ∈ list) : p x = true := by
  have hflat : x ∈ (groupLoop limit p [] nodes).flatten := List.mem_flatten.mpr ⟨list, hlist, hx⟩
  rw [flatten_groupLoop] at hflat
  exact (List.mem_filter.mp (mem_of_mem_kept hflat)).2

/-! ### What is asked of the groups -/

/-- The groups of a kind: its nodes in the order of the array, in non-empty groups of consecutive addresses, none
above the limit. -/
structure Grouped (limit : Nat) (p : DevNodeInfo → Bool) (nodes : List DevNodeInfo)
    (lists : List (List DevNodeInfo)) : Prop where
  flatten : lists.flatten = nodes.filter p
  nonempty : ∀ g ∈ lists, g ≠ []
  consecutive : ∀ g ∈ lists, g.IsChain fun x y => y.addr.toNat = x.addr.toNat + 1
  length_le : ∀ g ∈ lists, g.length ≤ limit

/-- **A kind is grouped as it should be only when it has no node**. -/
theorem grouped_groupLoop (limit : Nat) (p : DevNodeInfo → Bool) (nodes : List DevNodeInfo) :
    Grouped limit p nodes (groupLoop limit p [] nodes) ↔ ∀ x ∈ nodes, p x = false := by
  constructor
  · intro h
    have hkept : kept (-1) (nodes.filter p) = nodes.filter p := (flatten_groupLoop limit p nodes).symm.trans h.flatten
    have hnil : nodes.filter p = [] := by
      by_contra hne
      have := length_kept_lt hne
      rw [hkept] at this
      exact absurd this (Nat.lt_irrefl _)
    intro x hx
    simpa using List.filter_eq_nil_iff.mp hnil x hx
  · intro h
    have hnil : nodes.filter p = [] := List.filter_eq_nil_iff.mpr fun x hx => by rw [h x hx]; exact Bool.false_ne_true
    have hlists : groupLoop limit p [] nodes = [] := by rw [groupLoop, hnil, List.foldl_nil]
    rw [hlists]
    exact ⟨hnil.symm, fun g hg => absurd hg List.not_mem_nil, fun g hg => absurd hg List.not_mem_nil,
      fun g hg => absurd hg List.not_mem_nil⟩

/-- All four kinds are grouped as they should be. -/
def AllGrouped (nodes : List DevNodeInfo) (l : NodeListInfo) : Prop :=
  Grouped 200 isYx nodes l.yx ∧ Grouped 100 isYcN nodes l.ycN ∧ Grouped 50 isYcF nodes l.ycF ∧
    Grouped 50 isYm nodes l.ym

/-- A node without monitored value is of none of the four kinds. -/
theorem kinds_iff (x : DevNodeInfo) : (isYx x = false ∧ isYcN x = false ∧ isYcF x = false ∧ isYm x = false) ↔
    x.mode = .yt ∨ x.mode = .yk := by
  obtain ⟨mode, addr, type⟩ := x
  cases mode <;> simp [isYx, isYcN, isYcF, isYm]

/-- **The groups of a fresh slave** are right exactly for the arrays with no node to group. -/
theorem allGrouped_setNodeInfo_iff (nodes : List DevNodeInfo) :
    AllGrouped nodes (setNodeInfo .empty nodes) ↔ ∀ x ∈ nodes, x.mode = .yt ∨ x.mode = .yk := by
  simp only [AllGrouped, setNodeInfo, NodeListInfo.empty, grouped_groupLoop, ← kinds_iff]
  constructor
  · rintro ⟨h1, h2, h3, h4⟩ x hx
    exact ⟨h1 x hx, h2 x hx, h3 x hx, h4 x hx⟩
  · intro h
    exact ⟨fun x hx => (h x hx).1, fun x hx => (h x hx).2.1, fun x hx => (h x hx).2.2.1,
      fun x hx => (h x hx).2.2.2⟩

/-- Two yx nodes with consecutive addresses: two empty groups. -/
theorem not_allGrouped_two :
    (setNodeInfo .empty [⟨.yx, 1, .sint8⟩, ⟨.yx, 2, .sint8⟩]).yx = [[], []] ∧
      ¬ AllGrouped [⟨.yx, 1, .sint8⟩, ⟨.yx, 2, .sint8⟩]
        (setNodeInfo .empty [⟨.yx, 1, .sint8⟩, ⟨.yx, 2, .sint8⟩]) :=
  ⟨rfl, fun h => absurd (h.1.nonempty [] (by decide)) (fun hne => hne rfl)⟩

end Wow.Iec101.Slave
