import Mathlib.Tactic.Common
import Mathlib.Data.List.Basic

/-!
# Wow.Lib.Duplex — two deterministic parties over two lossless queues

Each party consumes one message at a time and answers with a new state, the messages it sends and a log of
what else it did.  The network delivers, in any order of the two directions, the head of a nonempty queue:
no loss, no reordering within a direction.

Both parties are deterministic and own one queue each, so the two deliveries commute (`step_diamond`), and
with them the whole exchange: if one schedule comes to rest, every schedule does, in the same number of
deliveries and in the same configuration (`Settles.unique`).  The relation facts behind it
(`Steps`, `steps_of_diamond`) are stated for any relation with the one-step diamond property.
-/

namespace Wow

/-! ## Counted runs of a relation -/

section Relation

variable {α : Type} {R : α → α → Prop}

/-- `n` steps of `R`. -/
inductive Steps (R : α → α → Prop) : Nat → α → α → Prop
  | refl (a : α) : Steps R 0 a a
  | head {n : Nat} {a b c : α} : R a b → Steps R n b c → Steps R (n + 1) a c

/-- No step leaves `a`. -/
def AtRest (R : α → α → Prop) (a : α) : Prop := ∀ b, ¬ R a b

theorem Steps.trans {n k : Nat} {a b c : α} (h : Steps R n a b) (h' : Steps R k b c) :
    Steps R (n + k) a c := by
  induction h with
  | refl a => simpa using h'
  | @head n a b c hab _ ih =>
    rw [Nat.add_right_comm]
    exact .head hab (ih h')

/-- **Invariant rule** for counted runs. -/
theorem Steps.invariant {I : α → Prop} (hI : ∀ a b, I a → R a b → I b) {n : Nat} {a b : α}
    (h : Steps R n a b) (ha : I a) : I b := by
  induction h with
  | refl a => exact ha
  | head hab _ ih => exact ih (hI _ _ ha hab)

/-- Two steps out of one state meet again after one more step each, or are the same step. -/
def Diamond (R : α → α → Prop) : Prop :=
  ∀ a b c, R a b → R a c → b = c ∨ ∃ d, R b d ∧ R c d

/-- With the diamond property a first step can always be completed to a given run that comes to rest. -/
theorem steps_after_step (hD : Diamond R) {n : Nat} {a t : α} (h : Steps R n a t) (ht : AtRest R t) :
    ∀ b, R a b → ∃ k, n = k + 1 ∧ Steps R k b t := by
  induction h with
  | refl a => exact fun b hab => absurd hab (ht b)
  | @head n a c t hac hct ih =>
    intro b hab
    rcases hD a b c hab hac with rfl | ⟨d, hbd, hcd⟩
    · exact ⟨n, rfl, hct⟩
    · obtain ⟨k, rfl, hdt⟩ := ih ht d hcd
      exact ⟨k + 1, rfl, .head hbd hdt⟩

/-- **Uniform termination**: next to a run that comes to rest in `n` steps, every run has at most `n` steps
and can be completed to it. -/
theorem steps_of_diamond (hD : Diamond R) {n k : Nat} {a b t : α} (h : Steps R n a t) (ht : AtRest R t)
    (hb : Steps R k a b) : ∃ j, n = k + j ∧ Steps R j b t := by
  induction hb generalizing n with
  | refl a => exact ⟨n, by omega, h⟩
  | @head k a c b hac _ ih =>
    obtain ⟨i, rfl, hct⟩ := steps_after_step hD h ht c hac
    obtain ⟨j, rfl, hbt⟩ := ih hct
    exact ⟨j, by omega, hbt⟩

theorem rest_unique_of_diamond (hD : Diamond R) {n k : Nat} {a t u : α} (h : Steps R n a t)
    (ht : AtRest R t) (h' : Steps R k a u) (hu : AtRest R u) : u = t := by
  obtain ⟨j, -, hut⟩ := steps_of_diamond hD h ht h'
  cases hut with
  | refl => rfl
  | head hab _ => exact absurd hab (hu _)

end Relation

/-! ## The network -/

/-- Two parties: what each does with one message. -/
structure Duplex (σ τ μ α β : Type) where
  left : σ → μ → σ × List μ × List α
  right : τ → μ → τ × List μ × List β

namespace Duplex

variable {σ τ μ α β : Type}

/-- The two states, the messages under way in each direction, and the two logs. -/
structure Config (σ τ μ α β : Type) where
  l : σ
  r : τ
  toL : List μ
  toR : List μ
  logL : List α
  logR : List β

variable (N : Duplex σ τ μ α β)

/-- One delivery. -/
inductive Step : Config σ τ μ α β → Config σ τ μ α β → Prop
  | toLeft {l r x q toR logL logR} :
      Step ⟨l, r, x :: q, toR, logL, logR⟩
        ⟨(N.left l x).1, r, q, toR ++ (N.left l x).2.1, logL ++ (N.left l x).2.2, logR⟩
  | toRight {l r toL x q logL logR} :
      Step ⟨l, r, toL, x :: q, logL, logR⟩
        ⟨l, (N.right r x).1, toL ++ (N.right r x).2.1, q, logL, logR ++ (N.right r x).2.2⟩

/-- Nothing is under way. -/
def Quiet (c : Config σ τ μ α β) : Prop := c.toL = [] ∧ c.toR = []

variable {N}

theorem atRest_iff {c : Config σ τ μ α β} : AtRest N.Step c ↔ Quiet c := by
  obtain ⟨l, r, toL, toR, logL, logR⟩ := c
  constructor
  · intro h
    cases toL with
    | cons x q => exact absurd .toLeft (h _)
    | nil =>
      cases toR with
      | cons x q => exact absurd .toRight (h _)
      | nil => exact ⟨rfl, rfl⟩
  · rintro ⟨hL, hR⟩ d hd
    dsimp only at hL hR
    subst hL hR
    cases hd

/-- **The two deliveries commute.** -/
theorem step_diamond : Diamond N.Step := by
  intro a b c hb hc
  cases hb with
  | toLeft =>
    cases hc with
    | toLeft => exact Or.inl rfl
    | toRight => exact Or.inr ⟨_, by rw [List.cons_append]; exact .toRight, by rw [List.cons_append]; exact .toLeft⟩
  | toRight =>
    cases hc with
    | toRight => exact Or.inl rfl
    | toLeft => exact Or.inr ⟨_, by rw [List.cons_append]; exact .toLeft, by rw [List.cons_append]; exact .toRight⟩

variable (N)

/-- The exchange that starts in `c` comes to rest in `d`. -/
def Settles (c d : Config σ τ μ α β) : Prop := ∃ n, Steps N.Step n c d ∧ Quiet d

variable {N}

theorem Settles.unique {c d e : Config σ τ μ α β} (hd : N.Settles c d) (he : N.Settles c e) : e = d := by
  obtain ⟨n, hn, hq⟩ := hd
  obtain ⟨k, hk, hq'⟩ := he
  exact rest_unique_of_diamond step_diamond hn (atRest_iff.mpr hq) hk (atRest_iff.mpr hq')

theorem Settles.head {c d e : Config σ τ μ α β} (h : N.Step c d) (hd : N.Settles d e) : N.Settles c e := by
  obtain ⟨n, hn, hq⟩ := hd
  exact ⟨n + 1, .head h hn, hq⟩

theorem Settles.of_quiet {c : Config σ τ μ α β} (h : Quiet c) : N.Settles c c := ⟨0, .refl c, h⟩

/-- **Invariant rule** for exchanges. -/
theorem Settles.invariant {I : Config σ τ μ α β → Prop} (hI : ∀ a b, I a → N.Step a b → I b)
    {c d : Config σ τ μ α β} (h : N.Settles c d) (hc : I c) : I d := by
  obtain ⟨n, hn, -⟩ := h
  exact hn.invariant hI hc

end Duplex

end Wow
