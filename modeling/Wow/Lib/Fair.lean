import Mathlib.Order.WellFounded
import Mathlib.Data.Prod.Lex
import Wow.Lib.Monitor

/-!
# Wow.Lib.Fair — endless runs under fair schedules

A schedule is an endless sequence of events.  What a run under it comes to is proved with a rank: every event either
lowers it or leaves it alone, and those that help lower it.  A schedule is fair when the events that help come again
and again.

* `exists_trail`: the ranking rule; `trail_stable`: what is reached for good.
* `place`: where the first message of a kind stands in a queue.
-/

namespace Wow

variable {σ ε τ α : Type}

/-! ### Endless runs -/

/-- The states of a run under a schedule. -/
def trail (step : σ → ε → σ) (sched : ℕ → ε) (s : σ) : ℕ → σ
  | 0 => s
  | n + 1 => step (trail step sched s n) (sched n)

/-- Events with `A` come again and again. -/
def Recurs (sched : ℕ → ε) (A : ε → Prop) : Prop := ∀ n, ∃ m, n ≤ m ∧ A (sched m)

/-- A machine with everything it has done so far. -/
def logged (step : σ → ε → σ × List α) : σ × List α → ε → σ × List α :=
  fun s e => ((step s.1 e).1, s.2 ++ (step s.1 e).2)

section Trail

variable {step : σ → ε → σ} {sched : ℕ → ε} {s : σ}

/-- **Invariant rule** for endless runs. -/
theorem trail_invariant {I : σ → Prop} (hI : ∀ s e, I s → I (step s e)) (hs : I s) : ∀ n, I (trail step sched s n)
  | 0 => hs
  | n + 1 => hI _ _ (trail_invariant hI hs n)

/-- A schedule may look at the state. -/
theorem exists_schedule (step : σ → ε → σ) (s : σ) (strategy : ℕ → σ → ε) :
    ∃ sched, ∀ n, sched n = strategy n (trail step sched s n) := by
  let x : ℕ → σ := fun n => Nat.rec s (fun k t => step t (strategy k t)) n
  refine ⟨fun n => strategy n (x n), fun n => ?_⟩
  have hx : ∀ k, trail step (fun n => strategy n (x n)) s k = x k := by
    intro k
    induction k with
    | zero => rfl
    | succ k ih => rw [trail, ih]
  rw [hx]

/-- What an event never undoes. -/
theorem trail_stable {I : σ → Prop} (hI : ∀ s e, I s → I (step s e)) {n m : ℕ} (hnm : n ≤ m)
    (hn : I (trail step sched s n)) : I (trail step sched s m) := by
  induction hnm with
  | refl => exact hn
  | step _ ih => exact hI _ _ ih

/-- What is done stays done. -/
theorem logged_grows (step : σ → ε → σ × List α) (sched : ℕ → ε) (s : σ × List α) {n m : ℕ} (hnm : n ≤ m) :
    (trail (logged step) sched s n).2 <+: (trail (logged step) sched s m).2 :=
  trail_stable (I := fun x : σ × List α => (trail (logged step) sched s n).2 <+: x.2)
    (fun _ _ hx => hx.trans (List.prefix_append _ _)) hnm List.prefix_rfl

/-- **Simulation rule**: a run is followed by the run of another machine under the schedule that `f` reads off it. -/
theorem trail_follows {δ : Type} (R : σ → τ → Prop) (step : σ → ε → σ) (step' : τ → δ → τ) (f : σ → ε → δ) {a : τ}
    (hs : R s a) (hstep : ∀ n b, R (trail step sched s n) b →
      R (step (trail step sched s n) (sched n)) (step' b (f (trail step sched s n) (sched n)))) :
    ∀ n, R (trail step sched s n) (trail step' (fun k => f (trail step sched s k) (sched k)) a n)
  | 0 => hs
  | n + 1 => hstep n _ (trail_follows R step step' f hs hstep n)

/-- **Ranking rule**: a run whose rank every event lowers or leaves, together with what helps, and every event that
helps lowers, comes to `G`. -/
theorem exists_trail [Preorder τ] [WellFoundedLT τ] (rank : σ → τ) {I G : σ → Prop} (helps : σ → ε → Prop)
    (hI : ∀ n, I (trail step sched s n))
    (hstep : ∀ s e, I s → ¬ G s → G (step s e) ∨ rank (step s e) < rank s ∨
      rank (step s e) = rank s ∧ helps (step s e) = helps s ∧ ¬ helps s e)
    (hfair : ∀ s, I s → ¬ G s → Recurs sched (helps s)) : ∃ n, G (trail step sched s n) := by
  by_contra hnone
  have hG : ∀ n, ¬ G (trail step sched s n) := fun n hn => hnone ⟨n, hn⟩
  -- from every point on the rank sinks further
  have hsinks : ∀ n, ∃ m, rank (trail step sched s m) < rank (trail step sched s n) := by
    intro n
    by_contra hstays
    have hsame : ∀ k, rank (trail step sched s (n + k)) = rank (trail step sched s n) ∧
        helps (trail step sched s (n + k)) = helps (trail step sched s n) := by
      intro k
      induction k with
      | zero => exact ⟨rfl, rfl⟩
      | succ k ih =>
        rcases hstep _ (sched (n + k)) (hI (n + k)) (hG (n + k)) with hgoal | hlt | ⟨hrank, hhelps, -⟩
        · exact absurd hgoal (hG (n + k + 1))
        · exact absurd ⟨n + k + 1, ih.1 ▸ hlt⟩ hstays
        · exact ⟨hrank.trans ih.1, hhelps.trans ih.2⟩
    obtain ⟨m, hnm, hm⟩ := hfair _ (hI n) (hG n) n
    obtain ⟨k, rfl⟩ := Nat.exists_eq_add_of_le hnm
    rcases hstep _ (sched (n + k)) (hI (n + k)) (hG (n + k)) with hgoal | hlt | ⟨-, -, hno⟩
    · exact hG (n + k + 1) hgoal
    · exact hstays ⟨n + k + 1, (hsame k).1 ▸ hlt⟩
    · rw [(hsame k).2] at hno
      exact hno hm
  obtain ⟨t, ⟨n, rfl⟩, hmin⟩ := wellFounded_lt.has_min (Set.range fun n => rank (trail step sched s n))
    (Set.range_nonempty _)
  obtain ⟨m, hm⟩ := hsinks n
  exact hmin _ ⟨m, rfl⟩ hm

end Trail

/-! ### Queues -/

section Queue

variable (p : α → Bool) (q r : List α)

/-- How many messages are in front of the first one with `p`. -/
def place : ℕ := q.findIdx p

variable {p q}

/-- Messages behind it make no difference. -/
theorem place_append (h : ∃ x ∈ q, p x = true) : place p (q ++ r) = place p q := by
  rw [place, List.findIdx_append, if_pos (List.findIdx_lt_length_of_exists h)]
  rfl

/-- **A message that is taken** and is not the one brings it nearer. -/
theorem place_tail_lt {x : α} (h : p x = false) : place p q < place p (x :: q) := by
  unfold place
  rw [List.findIdx_cons, h]
  exact Nat.lt_succ_self _

end Queue

end Wow
