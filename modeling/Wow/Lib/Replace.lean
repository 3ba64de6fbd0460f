import Mathlib.Data.List.Basic
import Mathlib.Data.List.Infix
import Mathlib.Order.Basic
import Mathlib.Data.Nat.Find

/-!
# Wow.Lib.Replace — a list with the occurrences of a pattern replaced

`Replaced pattern rep src out`: the occurrences are those that are found from the left to the right without overlap.

* `Replaced.functional`, `exists_replaced`: every list has one such replacement, where the pattern is not empty.
* `replaced_replicate`: a list of equal elements.
-/

namespace Wow

variable {α : Type} {pattern rep : List α}

/-- The pattern does not occur further in front. -/
def Leftmost (pattern a b : List α) : Prop := ∀ x y, a ++ pattern ++ b = x ++ pattern ++ y → a.length ≤ x.length

/-- **The replacement** of the occurrences. -/
inductive Replaced (pattern rep : List α) : List α → List α → Prop where
  | rest {src : List α} (h : ¬ pattern <:+: src) : Replaced pattern rep src src
  | occurrence {src a b out : List α} (hsrc : src = a ++ pattern ++ b) (hfirst : Leftmost pattern a b)
      (h : Replaced pattern rep b out) : Replaced pattern rep src (a ++ rep ++ out)

namespace Replaced

/-- There is one replacement only. -/
theorem functional {src out out' : List α} (h : Replaced pattern rep src out) (h' : Replaced pattern rep src out') :
    out' = out := by
  induction h generalizing out' with
  | rest hno =>
    cases h' with
    | rest _ => rfl
    | occurrence hsrc _ _ => exact absurd ⟨_, _, hsrc.symm⟩ hno
  | @occurrence src a b out hsrc hfirst hb ih =>
    cases h' with
    | rest hno => exact absurd ⟨_, _, hsrc.symm⟩ hno
    | @occurrence _ a' b' out' hsrc' hfirst' hb' =>
      have heq : a ++ pattern ++ b = a' ++ pattern ++ b' := hsrc.symm.trans hsrc'
      have hlen : a.length = a'.length := le_antisymm (hfirst _ _ heq) (hfirst' _ _ heq.symm)
      rw [List.append_assoc, List.append_assoc] at heq
      obtain ⟨rfl, htail⟩ := List.append_inj heq hlen
      obtain rfl := List.append_cancel_left htail
      rw [ih hb']

/-- A replacement that is put in is not longer than the whole. -/
theorem length_rep_le {src out : List α} (h : Replaced pattern rep src out) (hin : pattern <:+: src) :
    rep.length ≤ out.length := by
  cases h with
  | rest hno => exact absurd hin hno
  | occurrence _ _ _ =>
    simp only [List.length_append]
    omega

end Replaced

/-- Where a pattern occurs, it has a first occurrence. -/
theorem exists_leftmost {src : List α} (h : pattern <:+: src) : ∃ a b, src = a ++ pattern ++ b ∧
    Leftmost pattern a b := by
  classical
  have hplace : ∃ n a b, src = a ++ pattern ++ b ∧ a.length = n := by
    obtain ⟨a, b, hab⟩ := h
    exact ⟨a.length, a, b, hab.symm, rfl⟩
  obtain ⟨a, b, hsrc, hlen⟩ := Nat.find_spec hplace
  refine ⟨a, b, hsrc, fun x y hxy => ?_⟩
  rw [hlen]
  exact Nat.find_min' hplace ⟨x, y, hsrc.trans hxy, rfl⟩

/-- **Every list has its replacement**, for a pattern that is not empty. -/
theorem exists_replaced (hpattern : pattern ≠ []) (rep src : List α) : ∃ out, Replaced pattern rep src out := by
  induction hn : src.length using Nat.strong_induction_on generalizing src with
  | _ n ih =>
    by_cases hno : pattern <:+: src
    · obtain ⟨a, b, hsrc, hfirst⟩ := exists_leftmost hno
      have hpos : 0 < pattern.length := List.length_pos_iff.mpr hpattern
      have hlt : b.length < n := by
        rw [← hn, hsrc, List.length_append, List.length_append]
        omega
      obtain ⟨out, hout⟩ := ih b.length hlt b rfl
      exact ⟨_, .occurrence hsrc hfirst hout⟩
    · exact ⟨src, .rest hno⟩

/-- A list of equal elements, each of them replaced. -/
theorem replaced_replicate (x : α) (rep : List α) (n : Nat) :
    Replaced [x] rep (List.replicate n x) (List.replicate n rep).flatten := by
  induction n with
  | zero => exact .rest fun h => by cases List.infix_nil.mp h
  | succ n ih => exact .occurrence (a := []) rfl (fun _ _ _ => Nat.zero_le _) ih

end Wow
