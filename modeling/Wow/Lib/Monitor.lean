import Mathlib.Tactic.Common
import Mathlib.Data.List.Basic

/-!
# Wow.Lib.Monitor — machines that emit traces, and monitors that judge them

A machine consumes events and emits a list of actions for each; `run` is a whole run with its trace.  A
monitor follows a trace with a state of its own (what has happened so far, in the words of a requirement)
and `Meets next P g tr` says that `P` holds of every action of `tr` at the monitor state it meets.

* `meets_append`: the trace of a run is judged piece by piece; `forall_mem_run_iff`: step by step (`Along`).
* `Contract`: a monitor with what it assumes, what it promises and how it is related to the machine.  Code
  that keeps a contract is put together by `Keeps.seq`, `keeps_ite` and, for whole runs, `keeps_run` and
  `keeps_along`; `always` is the contract of a property of actions.
-/

namespace Wow

variable {σ ε α γ : Type}

/-! ### Runs -/

/-- A whole run: the final state and the trace. -/
def run (step : σ → ε → σ × List α) : σ → List ε → σ × List α
  | s, [] => (s, [])
  | s, e :: es =>
    let r := step s e
    let r' := run step r.1 es
    (r'.1, r.2 ++ r'.2)

@[simp] theorem run_nil (step : σ → ε → σ × List α) (s : σ) : run step s [] = (s, []) := rfl

theorem run_cons (step : σ → ε → σ × List α) (s : σ) (e : ε) (es : List ε) :
    run step s (e :: es) =
      ((run step (step s e).1 es).1, (step s e).2 ++ (run step (step s e).1 es).2) := rfl

theorem run_append (step : σ → ε → σ × List α) (s : σ) (es fs : List ε) :
    run step s (es ++ fs) =
      ((run step (run step s es).1 fs).1, (run step s es).2 ++ (run step (run step s es).1 fs).2) := by
  induction es generalizing s with
  | nil => rfl
  | cons e es ih => simp only [List.cons_append, run_cons, ih, List.append_assoc]

theorem run_map {ε' : Type} (step : σ → ε → σ × List α) (f : ε' → ε) (s : σ) (es : List ε') :
    run step s (es.map f) = run (fun s e => step s (f e)) s es := by
  induction es generalizing s with
  | nil => rfl
  | cons e es ih => rw [List.map_cons, run_cons, run_cons, ih]

/-- Two machines that do the same at every event of the run, whatever the state. -/
theorem run_congr {step step' : σ → ε → σ × List α} {es : List ε} (h : ∀ e ∈ es, ∀ s, step s e = step' s e)
    (s : σ) : run step s es = run step' s es := by
  induction es generalizing s with
  | nil => rfl
  | cons e es ih =>
    rw [run_cons, run_cons, h e List.mem_cons_self s, ih fun f hf => h f (List.mem_cons_of_mem e hf)]

/-- **Invariant rule** for runs. -/
theorem run_invariant {step : σ → ε → σ × List α} {I : σ → Prop} (hI : ∀ s e, I s → I (step s e).1)
    {s : σ} (hs : I s) (es : List ε) : I (run step s es).1 := by
  induction es generalizing s with
  | nil => exact hs
  | cons e es ih => exact ih (hI s e hs)

/-! ### Monitors -/

/-- `P` holds of every action of the trace, at the monitor state that action meets. -/
def Meets (next : γ → α → γ) (P : γ → α → Prop) : γ → List α → Prop
  | _, [] => True
  | g, a :: tr => P g a ∧ Meets next P (next g a) tr

variable {next : γ → α → γ} {P A G : γ → α → Prop}

@[simp] theorem meets_nil (g : γ) : Meets next P g [] := trivial

@[simp] theorem meets_cons {g : γ} {a : α} {tr : List α} :
    Meets next P g (a :: tr) ↔ P g a ∧ Meets next P (next g a) tr := Iff.rfl

theorem meets_append {g : γ} {tr tr' : List α} :
    Meets next P g (tr ++ tr') ↔ Meets next P g tr ∧ Meets next P (tr.foldl next g) tr' := by
  induction tr generalizing g with
  | nil => simp
  | cons a tr ih => simp only [List.cons_append, meets_cons, ih, List.foldl_cons, and_assoc]

/-- What holds at every monitor state is met by every trace. -/
theorem meets_of_forall (g : γ) {tr : List α} (h : ∀ g, ∀ a ∈ tr, P g a) : Meets next P g tr := by
  induction tr generalizing g with
  | nil => trivial
  | cons a tr ih => exact ⟨h g a (by simp), ih _ fun g b hb => h g b (by simp [hb])⟩

/-- A trace of actions the monitor does not follow leaves its state alone. -/
theorem foldl_of_stay {g : γ} {tr : List α} (h : ∀ a ∈ tr, next g a = g) : tr.foldl next g = g := by
  induction tr with
  | nil => rfl
  | cons a tr ih =>
    rw [List.foldl_cons, h a (by simp)]
    exact ih fun b hb => h b (by simp [hb])

theorem meets_of_stay {g : γ} {tr : List α} (hs : ∀ a ∈ tr, next g a = g) (hP : ∀ a ∈ tr, P g a) :
    Meets next P g tr := by
  induction tr with
  | nil => trivial
  | cons a tr ih =>
    refine ⟨hP a (by simp), ?_⟩
    rw [hs a (by simp)]
    exact ih (fun b hb => hs b (by simp [hb])) fun b hb => hP b (by simp [hb])

theorem meets_mono {g : γ} {tr : List α} (h : ∀ g a, A g a → G g a) (hA : Meets next A g tr) :
    Meets next G g tr := by
  induction tr generalizing g with
  | nil => trivial
  | cons a tr ih => exact ⟨h g a hA.1, ih hA.2⟩

/-- Two requirements that agree wherever the trace goes. -/
theorem meets_congr {g : γ} {tr : List α} (h : Meets next (fun g a => A g a ↔ G g a) g tr) :
    Meets next A g tr ↔ Meets next G g tr := by
  induction tr generalizing g with
  | nil => rfl
  | cons a tr ih => exact and_congr h.1 (ih h.2)

instance decidableMeets (next : γ → α → γ) (P : γ → α → Prop) [∀ g a, Decidable (P g a)] :
    ∀ (g : γ) (tr : List α), Decidable (Meets next P g tr)
  | _, [] => inferInstanceAs (Decidable True)
  | g, a :: tr =>
    have := decidableMeets next P (next g a) tr
    inferInstanceAs (Decidable (P g a ∧ Meets next P (next g a) tr))

/-! ### Step by step -/

section Along

variable {step : σ → ε → σ × List α} {P : α → Prop} {Q : σ → ε → Prop}

/-- Every step of the run from `s` is taken in a state and on an event with `Q`. -/
def Along (step : σ → ε → σ × List α) (Q : σ → ε → Prop) : σ → List ε → Prop
  | _, [] => True
  | s, e :: es => Q s e ∧ Along step Q (step s e).1 es

/-- **A property of actions** holds along a run when it holds step by step. -/
theorem forall_mem_run_iff (h : ∀ s e, (∀ a ∈ (step s e).2, P a) ↔ Q s e) (s : σ) (es : List ε) :
    (∀ a ∈ (run step s es).2, P a) ↔ Along step Q s es := by
  induction es generalizing s with
  | nil => exact iff_of_true (fun a ha => by cases ha) trivial
  | cons e es ih =>
    rw [run_cons, List.forall_mem_append, h, ih]
    rfl

instance decidableAlong (step : σ → ε → σ × List α) (Q : σ → ε → Prop) [∀ s e, Decidable (Q s e)] :
    ∀ (s : σ) (es : List ε), Decidable (Along step Q s es)
  | _, [] => inferInstanceAs (Decidable True)
  | s, e :: es =>
    have := decidableAlong step Q (step s e).1 es
    inferInstanceAs (Decidable (Q s e ∧ Along step Q (step s e).1 es))

theorem along_append {Q : σ → ε → Prop} (s : σ) (es fs : List ε) :
    Along step Q s (es ++ fs) ↔ Along step Q s es ∧ Along step Q (run step s es).1 fs := by
  induction es generalizing s with
  | nil => exact (and_iff_right trivial).symm
  | cons e es ih => exact (and_congr_right fun _ => ih _).trans and_assoc.symm

theorem along_mono {Q Q' : σ → ε → Prop} (h : ∀ s e, Q s e → Q' s e) {s : σ} {es : List ε} (hQ : Along step Q s es) :
    Along step Q' s es := by
  induction es generalizing s with
  | nil => trivial
  | cons e es ih => exact ⟨h s e hQ.1, ih hQ.2⟩

/-- Two conditions that agree on every step of the run. -/
theorem along_congr {Q Q' : σ → ε → Prop} (h : ∀ s e, Q s e ↔ Q' s e) (s : σ) (es : List ε) :
    Along step Q s es ↔ Along step Q' s es := by
  induction es generalizing s with
  | nil => exact Iff.rfl
  | cons e es ih => exact and_congr (h s e) (ih _)

/-- Two conditions that agree wherever an invariant holds that the first of them preserves. -/
theorem along_congr_of_invariant {Q Q' : σ → ε → Prop} {I : σ → Prop} (h : ∀ s e, I s → (Q s e ↔ Q' s e))
    (hI : ∀ s e, I s → Q s e → I (step s e).1) {s : σ} (hs : I s) (es : List ε) :
    Along step Q s es ↔ Along step Q' s es := by
  induction es generalizing s with
  | nil => exact Iff.rfl
  | cons e es ih =>
    constructor
    · exact fun hQ => ⟨(h s e hs).mp hQ.1, (ih (hI s e hs hQ.1)).mp hQ.2⟩
    · intro hQ'
      have hQ := (h s e hs).mpr hQ'.1
      exact ⟨hQ, (ih (hI s e hs hQ)).mpr hQ'.2⟩

/-- **Invariant rule** for what holds at every step. -/
theorem along_of_invariant {Q : σ → ε → Prop} {I : σ → Prop} (h : ∀ s e, I s → Q s e ∧ I (step s e).1) {s : σ}
    (hs : I s) (es : List ε) : Along step Q s es := by
  induction es generalizing s with
  | nil => trivial
  | cons e es ih => exact ⟨(h s e hs).1, ih (h s e hs).2⟩

/-- **What every action of a run has** when the steps keep an invariant under a condition that holds along it. -/
theorem forall_mem_run_of_along {I : σ → Prop} (h : ∀ s e, I s → Q s e → I (step s e).1 ∧ ∀ a ∈ (step s e).2, P a)
    {s : σ} (hs : I s) {es : List ε} (hQ : Along step Q s es) : ∀ a ∈ (run step s es).2, P a := by
  induction es generalizing s with
  | nil => exact fun a ha => by cases ha
  | cons e es ih =>
    obtain ⟨hs', hP⟩ := h s e hs hQ.1
    rw [run_cons, List.forall_mem_append]
    exact ⟨hP, ih hs' hQ.2⟩

/-- A condition on the events alone. -/
theorem along_iff_forall {Q : ε → Prop} (s : σ) (es : List ε) :
    Along step (fun _ e => Q e) s es ↔ ∀ e ∈ es, Q e := by
  induction es generalizing s with
  | nil => exact iff_of_true trivial (fun e he => by cases he)
  | cons e es ih =>
    rw [List.forall_mem_cons, ← ih (step s e).1]
    rfl

/-- A condition on every step that a beginning of the run ends with. -/
theorem along_of_prefix {Q : σ → ε → Prop} {s : σ} {es : List ε}
    (h : ∀ p e, p ++ [e] <+: es → Q (run step s p).1 e) : Along step Q s es := by
  induction es generalizing s with
  | nil => trivial
  | cons e es ih =>
    refine ⟨h [] e (List.prefix_append [e] es), ih fun p e' hp => ?_⟩
    exact h (e :: p) e' (List.prefix_cons_inj e |>.mpr hp)

/-- The machine with a monitor at its side. -/
def watched (next : γ → α → γ) (step : σ → ε → σ × List α) : σ × γ → ε → (σ × γ) × List α :=
  fun s e => (((step s.1 e).1, (step s.1 e).2.foldl next s.2), (step s.1 e).2)

theorem run_watched (next : γ → α → γ) (step : σ → ε → σ × List α) (s : σ) (g : γ) (es : List ε) :
    run (watched next step) (s, g) es = (((run step s es).1, (run step s es).2.foldl next g), (run step s es).2) := by
  induction es generalizing s g with
  | nil => rfl
  | cons e es ih =>
    rw [run_cons, run_cons, watched, ih]
    dsimp only
    rw [List.foldl_append]

end Along

/-! ### Contracts -/

/-- A monitor that knows the machine: `inv` relates the two states, `assume` is what the actions of a piece
of code may be relied on to meet, `promise` what they then meet. -/
structure Contract (σ γ α : Type) where
  next : γ → α → γ
  assume : γ → α → Prop
  promise : γ → α → Prop
  inv : σ → γ → Prop

namespace Contract

variable (K : Contract σ γ α)

/-- The piece of code `f` keeps the contract. -/
def Keeps (f : σ → σ × List α) : Prop :=
  ∀ s g, K.inv s g → Meets K.next K.assume g (f s).2 →
    Meets K.next K.promise g (f s).2 ∧ K.inv (f s).1 ((f s).2.foldl K.next g)

variable {K} {f h : σ → σ × List α}

theorem keeps_skip : K.Keeps fun s => (s, []) := fun _ _ hI _ => ⟨trivial, hI⟩

/-- One piece after the other. -/
theorem Keeps.seq (hf : K.Keeps f) (hh : K.Keeps h) :
    K.Keeps fun s => ((h (f s).1).1, (f s).2 ++ (h (f s).1).2) := by
  intro s g hI hA
  obtain ⟨hA1, hA2⟩ := meets_append.mp hA
  obtain ⟨hG1, hI1⟩ := hf s g hI hA1
  obtain ⟨hG2, hI2⟩ := hh _ _ hI1 hA2
  exact ⟨meets_append.mpr ⟨hG1, hG2⟩, by rw [List.foldl_append]; exact hI2⟩

/-- A choice on the state. -/
theorem keeps_ite {c : σ → Prop} [∀ s, Decidable (c s)] (hf : K.Keeps f) (hh : K.Keeps h) :
    K.Keeps fun s => if c s then f s else h s := by
  intro s g hI hA
  by_cases hc : c s
  · simp only [if_pos hc] at hA ⊢
    exact hf s g hI hA
  · simp only [if_neg hc] at hA ⊢
    exact hh s g hI hA

/-- A piece of code whose actions the monitor does not follow. -/
theorem keeps_of_stay
    (hf : ∀ s g, K.inv s g → K.inv (f s).1 g ∧ ∀ a ∈ (f s).2, K.next g a = g ∧ K.promise g a) :
    K.Keeps f := by
  intro s g hI _
  obtain ⟨hI', ha⟩ := hf s g hI
  refine ⟨meets_of_stay (fun a h => (ha a h).1) fun a h => (ha a h).2, ?_⟩
  rw [foldl_of_stay fun a h => (ha a h).1]
  exact hI'

/-- **Whole runs**: events that keep the contract one by one keep it together. -/
theorem keeps_run {step : σ → ε → σ × List α} :
    ∀ {es : List ε}, (∀ e ∈ es, K.Keeps fun s => step s e) → K.Keeps fun s => run step s es
  | [], _ => keeps_skip
  | e :: es, hs =>
    (hs e (by simp)).seq (keeps_run fun e' he' => hs e' (by simp [he']))

/-- A property of actions as a contract. -/
def always (P : α → Prop) : Contract σ Unit α where
  next := fun _ _ => ()
  assume := fun _ _ => True
  promise := fun _ a => P a
  inv := fun _ _ => True

theorem keeps_always {P : α → Prop} {f : σ → σ × List α} : (always P).Keeps f ↔ ∀ s, ∀ a ∈ (f s).2, P a := by
  have hmeets : ∀ tr : List α, Meets (fun _ _ => ()) (fun _ a => P a) () tr ↔ ∀ a ∈ tr, P a := by
    intro tr
    induction tr with
    | nil => exact iff_of_true trivial (fun a ha => by cases ha)
    | cons a tr ih => rw [meets_cons, List.forall_mem_cons, ih]
  constructor
  · exact fun h s => (hmeets _).mp (h s () trivial (meets_of_forall () fun _ _ _ => trivial)).1
  · exact fun h s _ _ _ => ⟨(hmeets _).mpr (h s), trivial⟩

/-- **Whole runs under a condition** on each event, in the state of machine and monitor it meets. -/
theorem keeps_along {step : σ → ε → σ × List α} {Q : σ × γ → ε → Prop} : ∀ {es : List ε},
    (∀ e ∈ es, ∀ s g, K.inv s g → Q (s, g) e →
      Meets K.next K.promise g (step s e).2 ∧ K.inv (step s e).1 ((step s e).2.foldl K.next g)) →
    ∀ {s : σ} {g : γ}, K.inv s g → Along (watched K.next step) Q (s, g) es →
      Meets K.next K.promise g (run step s es).2 ∧
        K.inv (run step s es).1 ((run step s es).2.foldl K.next g)
  | [], _, _, _, hI, _ => ⟨trivial, hI⟩
  | e :: es, h, s, g, hI, hQ => by
    obtain ⟨hM, hI'⟩ := h e List.mem_cons_self s g hI hQ.1
    obtain ⟨hM', hI''⟩ := keeps_along (fun e' he' => h e' (List.mem_cons_of_mem _ he')) hI' hQ.2
    rw [run_cons, List.foldl_append]
    exact ⟨meets_append.mpr ⟨hM, hM'⟩, hI''⟩

end Contract

end Wow
