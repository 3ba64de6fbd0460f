import Mathlib.Algebra.Order.Ring.Nat
import Mathlib.Tactic.Common

/-!
# Wow.Lib.Runs — the longest run of places with a property

One pass over the places keeps the run that ends at the last one and the best run so far.

* `firstLongest_unique`: the first of the longest runs is one.
* `inv_step`, `inv_scan`: the state of the pass holds it over every prefix.
-/

namespace Wow

namespace Runs

variable {b : Nat → Bool} {n : Nat}

/-- The places from `s`, `l` of them, have the property. -/
def IsRun (b : Nat → Bool) (n s l : Nat) : Prop := s + l ≤ n ∧ ∀ i, s ≤ i → i < s + l → b i = true

/-- **The first of the longest runs**, in front of place `n`. -/
structure FirstLongest (b : Nat → Bool) (n s l : Nat) : Prop where
  isRun : IsRun b n s l
  longest : ∀ s' l', IsRun b n s' l' → l' ≤ l
  first : ∀ s', IsRun b n s' l → s ≤ s'

theorem firstLongest_unique {s s' l l' : Nat} (h : FirstLongest b n s l) (h' : FirstLongest b n s' l') :
    s = s' ∧ l = l' := by
  obtain rfl : l = l' := Nat.le_antisymm (h'.longest s l h.isRun) (h.longest s' l' h'.isRun)
  exact ⟨Nat.le_antisymm (h.first s' h'.isRun) (h'.first s h.isRun), rfl⟩

theorem IsRun.mono {m s l : Nat} (h : IsRun b n s l) (hle : n ≤ m) : IsRun b m s l := ⟨h.1.trans hle, h.2⟩

/-- A run in front of a place is a run of the places in front of it. -/
theorem IsRun.restrict {m s l : Nat} (h : IsRun b n s l) (hle : s + l ≤ m) : IsRun b m s l := ⟨hle, h.2⟩

theorem IsRun.shorten {s l k : Nat} (h : IsRun b n s l) (hle : k ≤ l) : IsRun b n s k := by
  have hend := h.1
  exact ⟨by omega, fun i hi hlt => h.2 i hi (by omega)⟩

/-! ### The pass -/

/-- The run that ends at the last place, where it starts, and the best run with its start. -/
structure Scan where
  current : Nat
  start : Nat
  best : Nat
  bestStart : Nat

/-- The state in front of the first place. -/
def Scan.init : Scan := ⟨0, 0, 0, 0⟩

/-- The step over place `i`. -/
def Scan.step (matched : Bool) (i : Nat) (st : Scan) : Scan :=
  if matched then
    let start := if st.current = 0 then i else st.start
    if st.current + 1 > st.best then ⟨st.current + 1, start, st.current + 1, start⟩
    else ⟨st.current + 1, start, st.best, st.bestStart⟩
  else { st with current := 0 }

/-- The state behind `n` places. -/
def scan (b : Nat → Bool) : Nat → Scan
  | 0 => Scan.init
  | n + 1 => (scan b n).step (b n) n

/-- What the state says about the places in front of `n`. -/
structure Inv (b : Nat → Bool) (n : Nat) (st : Scan) : Prop where
  current_le : st.current ≤ n
  current : ∀ i, n - st.current ≤ i → i < n → b i = true
  maximal : st.current < n → b (n - st.current - 1) = false
  start : 0 < st.current → st.start + st.current = n
  best : FirstLongest b n st.bestStart st.best

/-- A run that ends with the last place is no longer than the current one. -/
theorem Inv.le_current {st : Scan} (h : Inv b n st) {s l : Nat} (hrun : IsRun b n s l) (hend : s + l = n) :
    l ≤ st.current := by
  by_contra hlt
  have hmaximal := h.maximal (by omega)
  rw [hrun.2 (n - st.current - 1) (by omega) (by omega)] at hmaximal
  exact Bool.noConfusion hmaximal

theorem inv_init : Inv b 0 Scan.init where
  current_le := Nat.le_refl 0
  current := fun i _ hlt => absurd hlt (Nat.not_lt_zero i)
  maximal := fun h => absurd h (Nat.lt_irrefl 0)
  start := fun h => absurd h (Nat.lt_irrefl 0)
  best := {
    isRun := ⟨Nat.le_refl 0, fun i _ hlt => absurd hlt (Nat.not_lt_zero i)⟩
    longest := fun s l h => (Nat.le_add_left l s).trans h.1
    first := fun s _ => Nat.zero_le s }

/-- A run behind a place without the property is in front of it, or empty. -/
theorem isRun_of_unmatched (hb : b n = false) {s l : Nat} (h : IsRun b (n + 1) s l) : s + l ≤ n ∨ l = 0 := by
  rcases Nat.lt_or_ge n (s + l) with hlt | hle
  · rcases Nat.eq_zero_or_pos l with hl | hl
    · exact Or.inr hl
    · have hend := h.1
      have htrue := h.2 n (by omega) hlt
      rw [hb] at htrue
      exact Bool.noConfusion htrue
  · exact Or.inl hle

/-- **The step over a place without the property** ends the current run. -/
theorem inv_unmatched {st : Scan} (h : Inv b n st) (hb : b n = false) : Inv b (n + 1) { st with current := 0 } where
  current_le := Nat.zero_le _
  current := fun i hi hlt => absurd hlt (by dsimp only at hi; omega)
  maximal := fun _ => hb
  start := fun hpos => absurd hpos (Nat.lt_irrefl 0)
  best := {
    isRun := h.best.isRun.mono (Nat.le_succ n)
    longest := by
      intro s l hrun
      rcases isRun_of_unmatched hb hrun with hle | rfl
      · exact h.best.longest s l (hrun.restrict hle)
      · exact Nat.zero_le _
    first := by
      intro s hrun
      have hend := h.best.isRun.1
      rcases isRun_of_unmatched hb hrun with hle | hzero
      · exact h.best.first s (hrun.restrict hle)
      · rcases Nat.lt_or_ge n s with hlt | hge
        · dsimp only
          omega
        · exact h.best.first s (hrun.restrict (by omega)) }

/-- What a place with the property makes of the current run. -/
theorem inv_matched_current {st : Scan} (h : Inv b n st) (hb : b n = true) {start : Nat}
    (hstart : start = if st.current = 0 then n else st.start) :
    start + (st.current + 1) = n + 1 ∧ IsRun b (n + 1) start (st.current + 1) := by
  have hend : start + (st.current + 1) = n + 1 := by
    rcases Nat.eq_zero_or_pos st.current with hzero | hpos
    · rw [if_pos hzero] at hstart
      omega
    · have hsum := h.start hpos
      rw [if_neg hpos.ne'] at hstart
      omega
  refine ⟨hend, hend.le, fun i hi hlt => ?_⟩
  rcases Nat.lt_or_ge i n with hin | hge
  · exact h.current i (by omega) hin
  · obtain rfl : i = n := by omega
    exact hb

/-- A run over the place continues one in front of it. -/
theorem isRun_succ {st : Scan} (h : Inv b n st) {s l : Nat} (hrun : IsRun b (n + 1) s l) :
    s + l ≤ n ∨ s + l = n + 1 ∧ l ≤ st.current + 1 := by
  rcases Nat.lt_or_ge n (s + l) with hlt | hle
  · have hend := hrun.1
    rcases Nat.eq_zero_or_pos l with hl | hl
    · exact Or.inr ⟨by omega, by omega⟩
    · have hfront : IsRun b n s (l - 1) := (hrun.shorten (Nat.sub_le l 1)).restrict (by omega)
      have hle := h.le_current hfront (by omega)
      exact Or.inr ⟨by omega, by omega⟩
  · exact Or.inl hle

/-- **The step over a place with the property.** -/
theorem inv_matched {st : Scan} (h : Inv b n st) (hb : b n = true) : Inv b (n + 1) (st.step true n) := by
  obtain ⟨hend, hrun⟩ := inv_matched_current h hb rfl
  have hle := h.current_le
  have hcurrent : ∀ i, n + 1 - (st.current + 1) ≤ i → i < n + 1 → b i = true := fun i hi hlt =>
    hrun.2 i (by omega) (by omega)
  have hmaximal : st.current + 1 < n + 1 → b (n + 1 - (st.current + 1) - 1) = false := by
    intro hlt
    rw [Nat.add_sub_add_right]
    exact h.maximal (by omega)
  rw [Scan.step, if_pos rfl]
  dsimp only
  generalize (if st.current = 0 then n else st.start) = start at hend hrun ⊢
  by_cases hbetter : st.current + 1 > st.best
  · rw [if_pos hbetter]
    refine ⟨Nat.succ_le_succ hle, hcurrent, hmaximal, fun _ => hend, hrun, fun s l hr => ?_, fun s hr => ?_⟩
    · rcases isRun_succ h hr with hfront | ⟨-, hle⟩
      · exact (h.best.longest s l (hr.restrict hfront)).trans hbetter.le
      · exact hle
    · dsimp only at hr ⊢
      rcases isRun_succ h hr with hfront | ⟨hlast, -⟩
      · have hlong := h.best.longest s _ (hr.restrict hfront)
        omega
      · omega
  · rw [if_neg hbetter]
    have hfirst := h.best.isRun.1
    refine ⟨Nat.succ_le_succ hle, hcurrent, hmaximal, fun _ => hend, h.best.isRun.mono (Nat.le_succ n),
      fun s l hr => ?_, fun s hr => ?_⟩
    · rcases isRun_succ h hr with hfront | ⟨-, hle⟩
      · exact h.best.longest s l (hr.restrict hfront)
      · dsimp only
        omega
    · rcases isRun_succ h hr with hfront | ⟨hlast, -⟩
      · exact h.best.first s (hr.restrict hfront)
      · dsimp only at hlast ⊢
        omega

/-- **One step.** -/
theorem inv_step {st : Scan} (h : Inv b n st) : Inv b (n + 1) (st.step (b n) n) := by
  cases hb : b n with
  | false => exact inv_unmatched h hb
  | true => exact inv_matched h hb

/-- **The whole pass.** -/
theorem inv_scan (b : Nat → Bool) (n : Nat) : Inv b n (scan b n) := by
  induction n with
  | zero => exact inv_init
  | succ n ih => exact inv_step ih

end Runs

end Wow
