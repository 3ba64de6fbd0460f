import Mathlib.Data.Nat.Prime.Basic
import Mathlib.Order.Bounds.Basic

/-!
# Wow.Utils.Math — the largest prime, `wow_math_getMaxPrime`

A search downwards, with trial division.  The counters stay below the number asked for, so no sum wraps.

* `divisorLoop_eq_iff`: the inner loop runs to its end where no number in front of it divides.
* `searchLoop_greatest`: what the outer loop returns is the largest prime, where there is one above 2.
* `getMaxPrime_right_iff`: the outer loop stops in front of 2, the one number that is answered with no prime.
-/

namespace Wow.Utils.Math

/-! ### The functions -/

/-- The inner loop, with `j` at a divisor to try: where it ends. -/
def divisorLoop (i : Nat) : Nat → Nat → Nat
  | 0, j => j
  | passes + 1, j =>
    if j < i - 1 then
      if i % j = 0 then j else divisorLoop i passes (j + 1)
    else j

/-- The outer loop, from `i` downwards. -/
def searchLoop : Nat → Nat
  | 0 => 1
  | i + 1 =>
    if i + 1 > 2 then
      if divisorLoop (i + 1) (i + 1) 2 = i + 1 - 1 then i + 1 else searchLoop i
    else 1

/-- `wow_math_getMaxPrime`. -/
def getMaxPrime (num : Nat) : Nat := searchLoop num

/-- **The requirement**: the largest prime up to a number from 2 on, and 1 below. -/
def Right (num : Nat) : Prop :=
  (2 ≤ num → IsGreatest {p | p.Prime ∧ p ≤ num} (getMaxPrime num)) ∧ (num < 2 → getMaxPrime num = 1)

/-! ### The inner loop -/

/-- **The verdict**: the loop gets to its end where it meets no divisor. -/
theorem divisorLoop_eq_iff {i : Nat} :
    ∀ {passes j : Nat}, j ≤ i - 1 → i - 1 - j ≤ passes →
      (divisorLoop i passes j = i - 1 ↔ ∀ m, j ≤ m → m < i - 1 → ¬ m ∣ i) := by
  intro passes
  induction passes with
  | zero =>
    intro j hj hpasses
    have hend : j = i - 1 := by omega
    rw [divisorLoop]
    refine ⟨fun _ m hm hlt => ?_, fun _ => hend⟩
    omega
  | succ passes ih =>
    intro j hj hpasses
    rw [divisorLoop]
    by_cases hlt : j < i - 1
    · rw [if_pos hlt]
      by_cases hdvd : i % j = 0
      · rw [if_pos hdvd]
        constructor
        · intro h
          omega
        · intro h
          exact absurd (Nat.dvd_of_mod_eq_zero hdvd) (h j le_rfl hlt)
      · rw [if_neg hdvd, ih (by omega) (by omega)]
        constructor
        · intro h m hm hmlt
          rcases Nat.eq_or_lt_of_le hm with rfl | hm
          · exact fun hdiv => hdvd (Nat.mod_eq_zero_of_dvd hdiv)
          · exact h m hm hmlt
        · intro h m hm hmlt
          exact h m (by omega) hmlt
    · rw [if_neg hlt]
      refine ⟨fun _ m hm hmlt => ?_, fun _ => by omega⟩
      omega

/-- The number in front divides none from 3 on. -/
theorem pred_not_dvd {i : Nat} (hi : 2 < i) : ¬ (i - 1) ∣ i := by
  intro h
  have hone : (i - 1) ∣ 1 := by
    have hsub := Nat.dvd_sub h (Nat.dvd_refl (i - 1))
    rwa [show i - (i - 1) = 1 by omega] at hsub
  have hle := Nat.le_of_dvd Nat.one_pos hone
  omega

/-- From 3 on the verdict is that the number is prime. -/
theorem divisorLoop_eq_iff_prime {i : Nat} (hi : 2 < i) : divisorLoop i i 2 = i - 1 ↔ i.Prime := by
  rw [divisorLoop_eq_iff (by omega) (by omega), Nat.prime_def_lt']
  constructor
  · intro h
    refine ⟨by omega, fun m hm hlt => ?_⟩
    rcases Nat.lt_or_ge m (i - 1) with hlt' | hge
    · exact h m hm hlt'
    · obtain rfl : m = i - 1 := by omega
      exact pred_not_dvd hi
  · intro h m hm hlt
    exact h.2 m hm (by omega)

/-! ### The outer loop -/

/-- **The search**: from 3 on it returns the largest prime. -/
theorem searchLoop_greatest {num : Nat} (h : 2 < num) :
    IsGreatest {p | p.Prime ∧ p ≤ num} (searchLoop num) := by
  induction num with
  | zero => omega
  | succ i ih =>
    rw [searchLoop, if_pos h]
    by_cases hprime : (i + 1).Prime
    · rw [if_pos ((divisorLoop_eq_iff_prime h).mpr hprime)]
      exact ⟨⟨hprime, le_rfl⟩, fun p hp => hp.2⟩
    · rw [if_neg (fun hend => hprime ((divisorLoop_eq_iff_prime h).mp hend))]
      have hi : 2 < i := by
        -- 3 is a prime, so the search has not come down to 2
        rcases Nat.eq_or_lt_of_le (Nat.le_of_lt_succ h) with rfl | hi
        · exact absurd Nat.prime_three hprime
        · exact hi
      obtain ⟨⟨hp, hle⟩, hmax⟩ := ih hi
      refine ⟨⟨hp, by omega⟩, ?_⟩
      rintro p ⟨hpp, hple⟩
      rcases Nat.eq_or_lt_of_le hple with rfl | hlt
      · exact absurd hpp hprime
      · exact hmax ⟨hpp, by omega⟩

/-- Up to 2 the search is not begun. -/
theorem searchLoop_of_le {num : Nat} (h : num ≤ 2) : searchLoop num = 1 := by
  cases num with
  | zero => rfl
  | succ i => rw [searchLoop, if_neg (by omega)]

/-! ### The requirement -/

/-- **Which numbers are answered right**: all but 2. -/
theorem getMaxPrime_right_iff (num : Nat) : Right num ↔ num ≠ 2 := by
  rw [Right, getMaxPrime]
  constructor
  · rintro h rfl
    have hprime := (h.1 le_rfl).1.1
    rw [searchLoop_of_le le_rfl] at hprime
    exact Nat.not_prime_one hprime
  · intro hne
    refine ⟨fun h => searchLoop_greatest (by omega), fun h => searchLoop_of_le (by omega)⟩

/-- 2 is answered with 1. -/
theorem two_not_right : ¬ Right 2 := by
  intro h
  have hprime := (h.1 le_rfl).1.1
  exact Nat.not_prime_one hprime

example : (List.range 12).map getMaxPrime = [1, 1, 1, 3, 3, 5, 5, 7, 7, 7, 7, 11] := by decide

end Wow.Utils.Math
