import Wow.Lib.Monitor
import Mathlib.Logic.Function.Basic

/-!
# Wow.Utils.Singleton — `wow_singleton_instance` and `_wow_singleton_exit`

Any number of calls are under way at the same time.  A call is a machine of its own, `Pc`: each access of a slot is one
step, and the calls take their steps in any order.  An init function runs for any time (`ended` is its end).

The requirement follows the trace of a run: `Watch` knows for each index what has come of its init functions, and which
calls have come after one that failed, with no other begun since.

* `Inv`, `inv_step`: at most one call holds the slot of an index, and the slot tells what has come of the index.
* `runRight_iff`: the requirement is met where no call comes to the compare-and-swap of a slot that is taken and not
  initialised, and where `_wow_singleton_exit` is not called before an exit function is stored.
-/

namespace Wow.Utils.Singleton

variable {F X : Type}

/-! ### The calls -/

/-- `SINGLETON_TYPE_MAXN`. -/
def maxN : Nat := 0xFF

def PARAM_INPUT_FUNC_IS_NULL : Int := 101

def PARAM_INPUT_ARG_INVALID : Int := 104

def WOW_CB_FAILED : Int := 4

/-- `Singleton_T`. -/
structure Slot (X : Type) where
  exit : Option X
  instance_ : Int

/-- The arguments of a call. -/
structure Call (F X : Type) where
  eIndex : Nat
  fInit : Option F
  fExit : Option X

/-- Where a call stands: the statement that it comes to. -/
inductive Pc (F X : Type) where
  | idle
  | swap (c : Call F X)
  | check (c : Call F X) (instance_ : Bool)
  | fInit (c : Call F X)
  | set (c : Call F X)
  | exit (c : Call F X)

/-- The slots, and the calls by their names. -/
structure State (F X : Type) where
  slots : Nat → Slot X
  pcs : Nat → Pc F X

/-- What happens: a call is made, a call takes its step, an init function returns. -/
inductive Event (F X : Type) where
  | call (t : Nat) (c : Call F X)
  | step (t : Nat)
  | ended (t : Nat) (ret : Int)

/-- What is seen of it. -/
inductive Act (F X : Type) where
  | arrived (t : Nat) (c : Call F X)
  | began (t : Nat) (c : Call F X)
  | ended (t : Nat) (c : Call F X) (ret : Int)
  | returned (t : Nat) (c : Call F X) (ret : Int)

namespace State

def goto (s : State F X) (t : Nat) (pc : Pc F X) : State F X := { s with pcs := Function.update s.pcs t pc }

def put (s : State F X) (e : Nat) (slot : Slot X) : State F X := { s with slots := Function.update s.slots e slot }

variable (s : State F X) (t e : Nat) (pc : Pc F X) (slot : Slot X)

@[simp] theorem slots_goto : (s.goto t pc).slots = s.slots := rfl

@[simp] theorem pcs_put : (s.put e slot).pcs = s.pcs := rfl

@[simp] theorem pcs_goto : (s.goto t pc).pcs t = pc := by simp [goto]

@[simp] theorem slots_put : (s.put e slot).slots e = slot := by simp [put]

variable {s t e}

theorem pcs_goto_of_ne {t' : Nat} (h : t' ≠ t) : (s.goto t pc).pcs t' = s.pcs t' := by
  simp [goto, h]

theorem slots_put_of_ne {e' : Nat} (h : e' ≠ e) : (s.put e slot).slots e' = s.slots e' := by
  simp [put, h]

end State

/-- The checks of the arguments. -/
def paramError (c : Call F X) : Option Int :=
  if ¬ c.eIndex < maxN then some (-PARAM_INPUT_ARG_INVALID)
  else if c.fInit.isNone then some (-PARAM_INPUT_FUNC_IS_NULL) else none

/-- The statement of a call that has the turn. -/
def stepCall (s : State F X) (t : Nat) : Pc F X → State F X × List (Act F X)
  | .swap c =>
    let slot := s.slots c.eIndex
    if slot.instance_ = 0 then
      ((s.put c.eIndex { slot with instance_ := 1 }).goto t (.check c true), [])
    else (s.goto t (.check c false), [])
  | .check c instance_ =>
    if instance_ ∧ (s.slots c.eIndex).instance_ = 1 then (s.goto t (.fInit c), [.began t c])
    else (s.goto t .idle, [.returned t c 0])
  | .set c => ((s.put c.eIndex { s.slots c.eIndex with instance_ := 1 }).goto t (.exit c), [])
  | .exit c => ((s.put c.eIndex { s.slots c.eIndex with exit := c.fExit }).goto t .idle, [.returned t c 0])
  | _ => (s, [])

/-- The init function of a call has returned. -/
def endCall (s : State F X) (t : Nat) (ret : Int) : Pc F X → State F X × List (Act F X)
  | .fInit c =>
    if ret = 0 then (s.goto t (.set c), [.ended t c ret])
    else (s.goto t .idle, [.ended t c ret, .returned t c (-WOW_CB_FAILED)])
  | _ => (s, [])

/-- `wow_singleton_instance`, as far as the event goes. -/
def wowSingletonInstance (s : State F X) : Event F X → State F X × List (Act F X)
  | .call t c =>
    match s.pcs t, paramError c with
    | .idle, none => (s.goto t (.swap c), [.arrived t c])
    | .idle, some ret => (s, [.returned t c ret])
    | _, _ => (s, [])
  | .step t => stepCall s t (s.pcs t)
  | .ended t ret => endCall s t ret (s.pcs t)

/-- After `_wow_singleton_init`. -/
def init : State F X := ⟨fun _ => ⟨none, 0⟩, fun _ => .idle⟩

/-- The loop of `_wow_singleton_exit`, with the exit functions that it calls. -/
def exitLoop (slots : Nat → Slot X) : Nat → List (Nat × X)
  | 0 => []
  | i + 1 =>
    match (slots i).exit with
    | some exit => (if (slots i).instance_ = 1 then [(i, exit)] else []) ++ exitLoop slots i
    | none => exitLoop slots i

/-- `_wow_singleton_exit`. -/
def wowSingletonExit (s : State F X) : State F X × List (Nat × X) :=
  ({ s with slots := fun _ => ⟨none, 0⟩ }, exitLoop s.slots maxN)

/-! ### The requirement -/

/-- What has come of the init functions of an index; a success with the exit function of that call. -/
inductive Phase (X : Type) where
  | none
  | running
  | failed
  | done (fExit : Option X)

namespace Phase

def isDone : Phase X → Bool
  | done _ => true
  | _ => false

def isFailed : Phase X → Bool
  | failed => true
  | _ => false

theorem eq_failed {ph : Phase X} (h : ph.isFailed = true) : ph = failed := by
  cases ph with
  | failed => rfl
  | _ => cases h

/-- The exit function of an index that is initialised. -/
def exit : Phase X → Option X
  | done fExit => fExit
  | _ => Option.none

end Phase

/-- What the requirement follows: the indices, and the index of each call that owes the start of an init function. -/
structure Watch (X : Type) where
  phase : Nat → Phase X
  owed : Nat → Option Nat

/-- Before the first call. -/
def fresh : Watch X := ⟨fun _ => .none, fun _ => none⟩

def Watch.next (g : Watch X) : Act F X → Watch X
  | .arrived t c =>
    if (g.phase c.eIndex).isFailed then { g with owed := Function.update g.owed t (some c.eIndex) } else g
  | .began _ c =>
    ⟨Function.update g.phase c.eIndex .running, fun t => if g.owed t = some c.eIndex then none else g.owed t⟩
  | .ended _ c ret =>
    { g with phase := Function.update g.phase c.eIndex (if ret = 0 then .done c.fExit else .failed) }
  | .returned t _ _ => { g with owed := Function.update g.owed t none }

namespace Watch

variable (g : Watch X) (t : Nat) (c : Call F X) (ret : Int)

@[simp] theorem phase_arrived : (g.next (.arrived t c)).phase = g.phase := by
  rw [next]
  split <;> rfl

@[simp] theorem phase_began : (g.next (.began t c)).phase = Function.update g.phase c.eIndex .running := rfl

@[simp] theorem phase_ended : (g.next (.ended t c ret)).phase =
    Function.update g.phase c.eIndex (if ret = 0 then .done c.fExit else .failed) := rfl

@[simp] theorem phase_returned : (g.next (.returned t c ret)).phase = g.phase := rfl

end Watch

/-- **The requirement** on a call: a success is the success of its index, which there is once, and an init function that
failed has been run again. -/
def Right (g : Watch X) : Act F X → Prop
  | .ended _ c ret => ret = 0 → (g.phase c.eIndex).isDone = false
  | .returned t c ret => (ret = 0 → (g.phase c.eIndex).isDone = true) ∧ g.owed t = none
  | _ => True

instance decidableRight (g : Watch X) : ∀ a : Act F X, Decidable (Right g a)
  | .arrived _ _ => inferInstanceAs (Decidable True)
  | .began _ _ => inferInstanceAs (Decidable True)
  | .ended _ c ret => inferInstanceAs (Decidable (ret = 0 → (g.phase c.eIndex).isDone = false))
  | .returned t c ret =>
    inferInstanceAs (Decidable ((ret = 0 → (g.phase c.eIndex).isDone = true) ∧ g.owed t = none))

/-- The exit functions of the indices that are initialised, from the last to the first. -/
def exits (g : Watch X) : List (Nat × X) :=
  (List.range maxN).reverse.filterMap fun e => (g.phase e).exit.map (e, ·)

/-! ### What an event can do -/

/-- The steps of the machine. -/
inductive Move (s : State F X) : Event F X → State F X → List (Act F X) → Prop where
  | stay (ev : Event F X) : Move s ev s []
  | arrive {t : Nat} {c : Call F X} (hpc : s.pcs t = .idle) (hc : c.eIndex < maxN) :
      Move s (.call t c) (s.goto t (.swap c)) [.arrived t c]
  | refuse {t : Nat} {c : Call F X} {ret : Int} (hpc : s.pcs t = .idle) (hret : ret ≠ 0) :
      Move s (.call t c) s [.returned t c ret]
  | claim {t : Nat} {c : Call F X} (hpc : s.pcs t = .swap c) (h : (s.slots c.eIndex).instance_ = 0) :
      Move s (.step t) ((s.put c.eIndex { s.slots c.eIndex with instance_ := 1 }).goto t (.check c true)) []
  | miss {t : Nat} {c : Call F X} (hpc : s.pcs t = .swap c) (h : (s.slots c.eIndex).instance_ ≠ 0) :
      Move s (.step t) (s.goto t (.check c false)) []
  | start {t : Nat} {c : Call F X} (hpc : s.pcs t = .check c true) :
      Move s (.step t) (s.goto t (.fInit c)) [.began t c]
  | pass {t : Nat} {c : Call F X} {instance_ : Bool} (hpc : s.pcs t = .check c instance_)
      (h : instance_ = true → (s.slots c.eIndex).instance_ ≠ 1) :
      Move s (.step t) (s.goto t .idle) [.returned t c 0]
  | set {t : Nat} {c : Call F X} (hpc : s.pcs t = .set c) :
      Move s (.step t) ((s.put c.eIndex { s.slots c.eIndex with instance_ := 1 }).goto t (.exit c)) []
  | exit {t : Nat} {c : Call F X} (hpc : s.pcs t = .exit c) :
      Move s (.step t) ((s.put c.eIndex { s.slots c.eIndex with exit := c.fExit }).goto t .idle) [.returned t c 0]
  | succeed {t : Nat} {c : Call F X} (hpc : s.pcs t = .fInit c) :
      Move s (.ended t 0) (s.goto t (.set c)) [.ended t c 0]
  | fail {t : Nat} {c : Call F X} {ret : Int} (hpc : s.pcs t = .fInit c) (hret : ret ≠ 0) :
      Move s (.ended t ret) (s.goto t .idle) [.ended t c ret, .returned t c (-WOW_CB_FAILED)]

theorem paramError_of_none {c : Call F X} (h : paramError c = none) : c.eIndex < maxN := by
  rw [paramError] at h
  split at h
  · cases h
  · next hlt => exact not_not.mp hlt

theorem paramError_ne_zero {c : Call F X} {ret : Int} (h : paramError c = some ret) : ret ≠ 0 := by
  rw [paramError] at h
  split at h
  · obtain rfl := Option.some_inj.mp h
    decide
  · split at h
    · obtain rfl := Option.some_inj.mp h
      decide
    · cases h

theorem move (s : State F X) (ev : Event F X) :
    Move s ev (wowSingletonInstance s ev).1 (wowSingletonInstance s ev).2 := by
  cases ev with
  | call t c =>
    rcases hpc : s.pcs t <;> rcases hparam : paramError c with _ | ret
    all_goals simp only [wowSingletonInstance, hpc, hparam]
    case idle.none => exact .arrive hpc (paramError_of_none hparam)
    case idle.some => exact .refuse hpc (paramError_ne_zero hparam)
    all_goals exact .stay _
  | step t =>
    rw [wowSingletonInstance]
    cases hpc : s.pcs t with
    | idle => exact .stay _
    | swap c =>
      rw [stepCall]
      split
      · next h => exact .claim hpc h
      · next h => exact .miss hpc h
    | check c instance_ =>
      rw [stepCall]
      split
      · next h =>
        obtain ⟨rfl, -⟩ := h
        exact .start hpc
      · next h => exact .pass hpc fun hinstance hone => h ⟨hinstance, hone⟩
    | fInit c => exact .stay _
    | set c => exact .set hpc
    | exit c => exact .exit hpc
  | ended t ret =>
    rw [wowSingletonInstance]
    cases hpc : s.pcs t with
    | fInit c =>
      rw [endCall]
      split
      · next h =>
        subst h
        exact .succeed hpc
      · next h => exact .fail hpc h
    | _ => exact .stay _

/-! ### The slots -/

namespace Pc

/-- The call that is under way. -/
def call : Pc F X → Option (Call F X)
  | idle => none
  | swap c => some c
  | check c _ => some c
  | fInit c => some c
  | set c => some c
  | exit c => some c

/-- The call that holds the slot of its index. -/
def held : Pc F X → Option (Call F X)
  | check c true => some c
  | fInit c => some c
  | set c => some c
  | exit c => some c
  | _ => none

/-- The index of a call that has begun no init function yet. -/
def waits : Pc F X → Option Nat
  | swap c => some c.eIndex
  | check c _ => some c.eIndex
  | _ => Option.none

/-- What has come of the index that it holds. -/
def phase : Pc F X → Phase X
  | fInit _ => .running
  | set c => .done c.fExit
  | exit c => .done c.fExit
  | _ => .none

end Pc

/-- No call but this one holds the slot. -/
def Alone (s : State F X) (e t : Nat) : Prop := ∀ t' c, (s.pcs t').held = some c → c.eIndex = e → t' = t

/-- No call holds the slot. -/
def Nobody (s : State F X) (e : Nat) : Prop := ∀ t c, (s.pcs t).held = some c → c.eIndex ≠ e

/-- **What there is of an index.** -/
inductive Stage (s : State F X) (g : Watch X) (e : Nat) : Prop where
  | free (hs : s.slots e = ⟨none, 0⟩) (hg : g.phase e = .none) (hn : Nobody s e)
  | held {t : Nat} {c : Call F X} (hc : (s.pcs t).held = some c) (he : c.eIndex = e) (hs : s.slots e = ⟨none, 1⟩)
      (hg : g.phase e = (s.pcs t).phase) (ha : Alone s e t)
  | failed (hs : s.slots e = ⟨none, 1⟩) (hg : g.phase e = .failed) (hn : Nobody s e)
  | done {x : Option X} (hs : s.slots e = ⟨x, 1⟩) (hg : g.phase e = .done x) (hn : Nobody s e)

/-- **The invariant.** -/
structure Inv (s : State F X) (g : Watch X) : Prop where
  stage : ∀ e, Stage s g e
  owed : ∀ t e, g.owed t = some e → g.phase e = .failed ∧ (s.pcs t).waits = some e
  index_lt : ∀ t c, (s.pcs t).call = some c → c.eIndex < maxN

theorem inv_init : Inv (F := F) (X := X) init fresh := by
  refine ⟨fun e => .free rfl rfl fun t c h => ?_, fun t e h => ?_, fun t c h => ?_⟩
  · cases h
  · cases h
  · cases h

section Step

variable {s s' : State F X} {g k : Watch X} {t e : Nat} {c : Call F X}

/-- What is known of the index of a call that holds its slot. -/
theorem Inv.of_held (hI : Inv s g) (hc : (s.pcs t).held = some c) : s.slots c.eIndex = ⟨none, 1⟩ ∧
    g.phase c.eIndex = (s.pcs t).phase ∧ Alone s c.eIndex t := by
  cases hI.stage c.eIndex with
  | free _ _ hn => exact absurd rfl (hn t c hc)
  | failed _ _ hn => exact absurd rfl (hn t c hc)
  | done _ _ hn => exact absurd rfl (hn t c hc)
  | @held t' c' hc' he hs hg ha =>
    obtain rfl := ha t c hc rfl
    exact ⟨hs, hg, ha⟩

theorem Alone.of_same (ha : Alone s e t) (hpcs : ∀ t', t' ≠ t → s'.pcs t' = s.pcs t') : Alone s' e t := by
  intro t' c hc he
  by_contra hne
  rw [hpcs t' hne] at hc
  exact hne (ha t' c hc he)

theorem Alone.nobody (ha : Alone s e t) (hpcs : ∀ t', t' ≠ t → s'.pcs t' = s.pcs t')
    (hnew : (s'.pcs t).held = none) : Nobody s' e := by
  intro t' c hc he
  obtain rfl := ha.of_same hpcs t' c hc he
  rw [hnew] at hc
  cases hc

/-- **The frame**: what there is of an index stays, where the call that moves holds no slot of it. -/
theorem Stage.frame (h : Stage s g e) (hs : s'.slots e = s.slots e) (hg : k.phase e = g.phase e)
    (hpcs : ∀ t', t' ≠ t → s'.pcs t' = s.pcs t') (hold : ∀ c, (s.pcs t).held = some c → c.eIndex ≠ e)
    (hnew : ∀ c, (s'.pcs t).held = some c → c.eIndex ≠ e) : Stage s' k e := by
  have hback : ∀ t' c, (s'.pcs t').held = some c → c.eIndex = e → (s.pcs t').held = some c := by
    intro t' c hc he
    have hne : t' ≠ t := by
      rintro rfl
      exact hnew c hc he
    rwa [hpcs t' hne] at hc
  have hnobody : Nobody s e → Nobody s' e := fun hn t' c hc he => hn t' c (hback t' c hc he) he
  cases h with
  | free hs' hk hn => exact .free (hs.trans hs') (hg.trans hk) (hnobody hn)
  | failed hs' hk hn => exact .failed (hs.trans hs') (hg.trans hk) (hnobody hn)
  | done hs' hk hn => exact .done (hs.trans hs') (hg.trans hk) (hnobody hn)
  | @held t' c hc he hs' hk ha =>
    have hne : t' ≠ t := by
      rintro rfl
      exact hold c hc he
    rw [← hpcs t' hne] at hc hk
    exact .held hc he (hs.trans hs') (hg.trans hk) fun t'' c' hc' he' => ha t'' c' (hback t'' c' hc' he') he'

/-- The same for a call that holds no slot before and behind its step. -/
theorem Inv.frame (hI : Inv s g) (hs : s'.slots = s.slots) (hg : k.phase = g.phase)
    (hpcs : ∀ t', t' ≠ t → s'.pcs t' = s.pcs t') (hold : (s.pcs t).held = none) (hnew : (s'.pcs t).held = none)
    (e : Nat) : Stage s' k e := by
  refine (hI.stage e).frame (congrFun hs e) (congrFun hg e) hpcs ?_ ?_
  · intro c h
    rw [hold] at h
    cases h
  · intro c h
    rw [hnew] at h
    cases h

/-- A step of a call changes what there is of its index only. -/
theorem Inv.stage_own (hI : Inv s g) {slot : Slot X} {pc : Pc F X}
    (hown : Stage ((s.put c.eIndex slot).goto t pc) k c.eIndex)
    (hg : ∀ e, e ≠ c.eIndex → k.phase e = g.phase e) (hold : ∀ c', (s.pcs t).held = some c' → c' = c)
    (hnew : ∀ c', pc.held = some c' → c' = c) (e : Nat) : Stage ((s.put c.eIndex slot).goto t pc) k e := by
  by_cases he : e = c.eIndex
  · subst he
    exact hown
  · refine (hI.stage e).frame (t := t) ?_ (hg e he) ?_ ?_ ?_
    · exact State.slots_put_of_ne slot he
    · exact fun t' h => State.pcs_goto_of_ne pc h
    · intro c' h
      rw [hold c' h]
      exact fun h => he h.symm
    · intro c' h
      rw [State.pcs_goto] at h
      rw [hnew c' h]
      exact fun h => he h.symm

/-- The call keeps the slot. -/
theorem Inv.stage_keep (hI : Inv s g) {slot : Slot X} (pc : Pc F X) (ha : Alone s c.eIndex t)
    (hslot : slot = ⟨none, 1⟩) (hpc : pc.held = some c) (hphase : k.phase c.eIndex = pc.phase)
    (hg : ∀ e, e ≠ c.eIndex → k.phase e = g.phase e) (hold : ∀ c', (s.pcs t).held = some c' → c' = c) (e : Nat) :
    Stage ((s.put c.eIndex slot).goto t pc) k e := by
  have hself : ((s.put c.eIndex slot).goto t pc).pcs t = pc := State.pcs_goto _ _ _
  refine hI.stage_own (.held (t := t) (c := c) ?_ rfl ?_ ?_ ?_) hg hold ?_ e
  · rw [hself]
    exact hpc
  · rw [State.slots_goto, State.slots_put]
    exact hslot
  · rw [hself]
    exact hphase
  · exact ha.of_same fun t' h => State.pcs_goto_of_ne pc h
  · intro c' h
    exact (Option.some_inj.mp (hpc.symm.trans h)).symm

/-- The call leaves the slot. -/
theorem Inv.stage_leave (hI : Inv s g) {slot : Slot X} (ha : Alone s c.eIndex t)
    (hphase : (slot = ⟨none, 1⟩ ∧ k.phase c.eIndex = .failed) ∨
      ∃ x, slot = ⟨x, 1⟩ ∧ k.phase c.eIndex = .done x)
    (hg : ∀ e, e ≠ c.eIndex → k.phase e = g.phase e) (hold : ∀ c', (s.pcs t).held = some c' → c' = c) (e : Nat) :
    Stage ((s.put c.eIndex slot).goto t .idle) k e := by
  have hslot : ((s.put c.eIndex slot).goto t .idle).slots c.eIndex = slot := State.slots_put _ _ _
  have hn : Nobody ((s.put c.eIndex slot).goto t .idle) c.eIndex := by
    refine ha.nobody (fun t' h => State.pcs_goto_of_ne _ h) ?_
    rw [State.pcs_goto]
    rfl
  refine hI.stage_own ?_ hg hold (fun c' h => by cases h) e
  rcases hphase with ⟨rfl, hfailed⟩ | ⟨x, rfl, hdone⟩
  · exact .failed hslot hfailed hn
  · exact .done hslot hdone hn

theorem State.put_self : s.put e (s.slots e) = s := by
  rw [State.put, Function.update_eq_self]

/-- A step of a call that holds no slot before and behind it. -/
theorem Inv.stage_goto (hI : Inv s g) (pc : Pc F X) (hg : k.phase = g.phase) (hold : (s.pcs t).held = none)
    (hnew : pc.held = none) (e : Nat) : Stage (s.goto t pc) k e := by
  refine hI.frame (t := t) ?_ hg ?_ hold ?_ e
  · rfl
  · exact fun t' h => State.pcs_goto_of_ne pc h
  · rw [State.pcs_goto]
    exact hnew

theorem of_held_eq {pc : Pc F X} (hpc : s.pcs t = pc) (hc : pc.held = some c) :
    (s.pcs t).held = some c ∧ ∀ c', (s.pcs t).held = some c' → c' = c := by
  rw [hpc, hc]
  exact ⟨rfl, fun c' h => (Option.some_inj.mp h).symm⟩

theorem Inv.pass_false (hI : Inv s g) {instance_ : Bool} (hpc : s.pcs t = .check c instance_)
    (h : instance_ = true → (s.slots c.eIndex).instance_ ≠ 1) : instance_ = false := by
  cases instance_ with
  | false => rfl
  | true =>
    have hone := (hI.of_held (of_held_eq hpc rfl).1).1
    exact absurd (congrArg Slot.instance_ hone) (h rfl)

/-- **The stages** after a step. -/
theorem Inv.stage_move {ev : Event F X} {tr : List (Act F X)} (hI : Inv s g) (h : Move s ev s' tr) (e : Nat) :
    Stage s' (tr.foldl Watch.next g) e := by
  cases h with
  | stay _ => exact hI.stage e
  | arrive hpc _ => exact hI.stage_goto _ (Watch.phase_arrived _ _ _) (by rw [hpc]; rfl) rfl e
  | @refuse t c ret hpc _ =>
    refine hI.frame (t := t) rfl (Watch.phase_returned g t c ret) (fun _ _ => rfl) ?_ ?_ e
    · rw [hpc]
      rfl
    · rw [hpc]
      rfl
  | @claim t c hpc h0 =>
    have hold : ∀ c', (s.pcs t).held = some c' → c' = c := by
      intro c' h
      rw [hpc] at h
      cases h
    cases hI.stage c.eIndex with
    | free hs hg hn =>
      refine hI.stage_keep _ (fun t' c' h he => absurd he (hn t' c' h)) ?_ rfl hg (fun _ _ => rfl) hold e
      rw [hs]
    | held _ _ hs _ _ => rw [hs] at h0; cases h0
    | failed hs _ _ => rw [hs] at h0; cases h0
    | done hs _ _ => rw [hs] at h0; cases h0
  | miss hpc _ => exact hI.stage_goto _ rfl (by rw [hpc]; rfl) rfl e
  | @start t c hpc =>
    obtain ⟨hheld, hold⟩ := of_held_eq hpc (c := c) rfl
    obtain ⟨hs, -, ha⟩ := hI.of_held hheld
    have hkeep := hI.stage_keep (k := g.next (.began t c)) (.fInit c) ha hs rfl
      (Function.update_self _ _ _) (fun e' h => Function.update_of_ne h _ _) hold e
    rwa [State.put_self] at hkeep
  | @pass t c instance_ hpc h =>
    obtain rfl := hI.pass_false hpc h
    exact hI.stage_goto _ (Watch.phase_returned g t c 0) (by rw [hpc]; rfl) rfl e
  | @set t c hpc =>
    obtain ⟨hheld, hold⟩ := of_held_eq hpc (c := c) rfl
    obtain ⟨hs, hg, ha⟩ := hI.of_held hheld
    refine hI.stage_keep _ ha ?_ rfl ?_ (fun _ _ => rfl) hold e
    · rw [hs]
    · rw [hg, hpc]
      rfl
  | @exit t c hpc =>
    obtain ⟨hheld, hold⟩ := of_held_eq hpc (c := c) rfl
    obtain ⟨hs, hg, ha⟩ := hI.of_held hheld
    refine hI.stage_leave (k := g.next (.returned t c 0)) ha (.inr ⟨c.fExit, ?_, ?_⟩) (fun _ _ => rfl) hold e
    · rw [hs]
    · rw [Watch.phase_returned, hg, hpc]
      rfl
  | @succeed t c hpc =>
    obtain ⟨hheld, hold⟩ := of_held_eq hpc (c := c) rfl
    obtain ⟨hs, -, ha⟩ := hI.of_held hheld
    have hkeep := hI.stage_keep (k := g.next (.ended t c 0)) (.set c) ha hs rfl
      (Function.update_self _ _ _) (fun e' h => Function.update_of_ne h _ _) hold e
    rwa [State.put_self] at hkeep
  | @fail t c ret hpc hret =>
    obtain ⟨hheld, hold⟩ := of_held_eq hpc (c := c) rfl
    obtain ⟨hs, -, ha⟩ := hI.of_held hheld
    have hphase : ((g.next (.ended t c ret)).next (.returned t c (-WOW_CB_FAILED))).phase c.eIndex = .failed := by
      rw [Watch.phase_returned, Watch.phase_ended, Function.update_self, if_neg hret]
    have hleave := hI.stage_leave ha (.inl ⟨hs, hphase⟩) (fun e' h => Function.update_of_ne h _ _) hold e
    rwa [State.put_self] at hleave

/-- The debts after a step of a call: those of the others stay. -/
theorem Inv.owed_of (hI : Inv s g) (hpcs : ∀ t', t' ≠ t → s'.pcs t' = s.pcs t')
    (hg : ∀ e, g.phase e = .failed → k.phase e = .failed)
    (hothers : ∀ t' e, t' ≠ t → k.owed t' = some e → g.owed t' = some e)
    (hown : ∀ e, k.owed t = some e → k.phase e = .failed ∧ (s'.pcs t).waits = some e) (t' e : Nat)
    (h : k.owed t' = some e) : k.phase e = .failed ∧ (s'.pcs t').waits = some e := by
  by_cases ht : t' = t
  · subst ht
    exact hown e h
  · obtain ⟨hfailed, hwaits⟩ := hI.owed t' e (hothers t' e ht h)
    rw [hpcs t' ht]
    exact ⟨hg e hfailed, hwaits⟩

/-- A call that returns owes nothing any more. -/
theorem Inv.owed_returned (hI : Inv s g) (c : Call F X) (ret : Int) (hpcs : ∀ t', t' ≠ t → s'.pcs t' = s.pcs t')
    (hg : ∀ e, g.phase e = .failed → k.phase e = .failed) (hk : k.owed = g.owed) (t' e : Nat)
    (h : (k.next (.returned t c ret)).owed t' = some e) :
    (k.next (.returned t c ret)).phase e = .failed ∧ (s'.pcs t').waits = some e := by
  refine hI.owed_of (k := k.next (.returned t c ret)) hpcs hg (fun t' e hne h => ?_) (fun e h => ?_) t' e h
  · have h' : Function.update k.owed t none t' = some e := h
    rwa [Function.update_of_ne hne, hk] at h'
  · have h' : Function.update k.owed t none t = some e := h
    rw [Function.update_self] at h'
    cases h'

/-- A call that goes on waiting keeps its debt. -/
theorem Inv.owed_waits (hI : Inv s g) (hpcs : ∀ t', t' ≠ t → s'.pcs t' = s.pcs t')
    (hwaits : (s'.pcs t).waits = (s.pcs t).waits) (t' e : Nat) (h : g.owed t' = some e) :
    g.phase e = .failed ∧ (s'.pcs t').waits = some e := by
  refine hI.owed_of hpcs (fun _ h => h) (fun _ _ _ h => h) (fun e h => ?_) t' e h
  rw [hwaits]
  exact hI.owed t e h

/-- A call that does not wait owes nothing. -/
theorem Inv.owed_ne (hI : Inv s g) (hw : (s.pcs t).waits = none) (e : Nat) : g.owed t ≠ some e := by
  intro h
  have hwaits := (hI.owed t e h).2
  rw [hw] at hwaits
  cases hwaits

/-- A call that holds a slot has not failed. -/
theorem Inv.phase_ne_failed (hI : Inv s g) (hc : (s.pcs t).held = some c) : g.phase c.eIndex ≠ .failed := by
  obtain ⟨-, hg, -⟩ := hI.of_held hc
  rw [hg]
  cases s.pcs t <;> exact fun h => by cases h

/-- Nor does a failure come or go elsewhere. -/
theorem failed_of_update {ph : Phase X} (hc : g.phase c.eIndex ≠ .failed) (h : g.phase e = .failed) :
    Function.update g.phase c.eIndex ph e = .failed := by
  have hne : e ≠ c.eIndex := by
    rintro rfl
    exact hc h
  rw [Function.update_of_ne hne, h]

theorem owed_began {t' : Nat} (h : (g.next (.began t c)).owed t' = some e) : e ≠ c.eIndex ∧ g.owed t' = some e := by
  have h' : (if g.owed t' = some c.eIndex then none else g.owed t') = some e := h
  split at h'
  · cases h'
  · next hne =>
    refine ⟨?_, h'⟩
    rintro rfl
    exact hne h'

/-- **The debts** after a step. -/
theorem Inv.owed_move {ev : Event F X} {tr : List (Act F X)} (hI : Inv s g) (h : Move s ev s' tr) :
    ∀ t e, (tr.foldl Watch.next g).owed t = some e →
      (tr.foldl Watch.next g).phase e = .failed ∧ (s'.pcs t).waits = some e := by
  have hgoto (s : State F X) (t : Nat) (pc : Pc F X) : ∀ t', t' ≠ t → (s.goto t pc).pcs t' = s.pcs t' :=
    fun t' h => State.pcs_goto_of_ne pc h
  cases h with
  | stay _ => exact hI.owed
  | @arrive t c hpc _ =>
    refine hI.owed_of (t := t) (hgoto s t _) (fun e h => (congrFun (Watch.phase_arrived g t c) e).trans h) ?_ ?_
    · intro t' e hne h
      rw [List.foldl_cons, Watch.next] at h
      split at h
      · exact (Function.update_of_ne hne _ _).symm.trans h
      · exact h
    · intro e h
      rw [List.foldl_cons, List.foldl_nil, Watch.phase_arrived, State.pcs_goto]
      rw [List.foldl_cons, List.foldl_nil, Watch.next] at h
      split at h
      · next hfailed =>
        dsimp only at h
        rw [Function.update_self] at h
        obtain rfl := Option.some_inj.mp h
        exact ⟨Phase.eq_failed hfailed, rfl⟩
      · exact absurd h (hI.owed_ne (by rw [hpc]; rfl) e)
  | @refuse t c ret hpc _ => exact hI.owed_returned c ret (fun _ _ => rfl) (fun _ h => h) rfl
  | @claim t c hpc _ =>
    refine hI.owed_waits (t := t) (hgoto _ t _) ?_
    rw [hpc, State.pcs_goto]
    rfl
  | @miss t c hpc _ =>
    refine hI.owed_waits (t := t) (hgoto s t _) ?_
    rw [hpc, State.pcs_goto]
    rfl
  | @start t c hpc =>
    have hne := hI.phase_ne_failed (of_held_eq hpc (c := c) rfl).1
    refine hI.owed_of (t := t) (hgoto s t _) (fun _ => failed_of_update hne) (fun t' e _ h => ?_) fun e h => ?_
    · exact (owed_began (t := t) h).2
    · obtain ⟨hother, howed⟩ := owed_began (t := t) h
      have hwaits := (hI.owed t e howed).2
      rw [hpc] at hwaits
      exact absurd (Option.some_inj.mp hwaits).symm hother
  | @pass t c instance_ hpc _ => exact hI.owed_returned c 0 (hgoto s t _) (fun _ h => h) rfl
  | @set t c hpc =>
    refine hI.owed_waits (t := t) (hgoto _ t _) ?_
    rw [hpc, State.pcs_goto]
    rfl
  | @exit t c hpc => exact hI.owed_returned c 0 (hgoto _ t _) (fun _ h => h) rfl
  | @succeed t c hpc =>
    have hne := hI.phase_ne_failed (of_held_eq hpc (c := c) rfl).1
    refine hI.owed_of (t := t) (hgoto s t _) (fun _ => failed_of_update hne) (fun _ _ _ h => h) fun e h => ?_
    exact absurd h (hI.owed_ne (by rw [hpc]; rfl) e)
  | @fail t c ret hpc hret =>
    have hne := hI.phase_ne_failed (of_held_eq hpc (c := c) rfl).1
    exact hI.owed_returned (k := g.next (.ended t c ret)) c (-WOW_CB_FAILED) (hgoto s t _) (fun _ => failed_of_update hne) rfl

/-- **The indices** after a step. -/
theorem Inv.index_move {ev : Event F X} {tr : List (Act F X)} (hI : Inv s g) (h : Move s ev s' tr) :
    ∀ t c, (s'.pcs t).call = some c → c.eIndex < maxN := by
  have hgoto {t : Nat} {pc : Pc F X} (s' : State F X) (hs : s'.pcs = s.pcs)
      (hpc : ∀ c, pc.call = some c → c.eIndex < maxN) (t' : Nat) (c : Call F X)
      (hc : ((s'.goto t pc).pcs t').call = some c) : c.eIndex < maxN := by
    by_cases ht : t' = t
    · subst ht
      rw [State.pcs_goto] at hc
      exact hpc c hc
    · rw [State.pcs_goto_of_ne pc ht, hs] at hc
      exact hI.index_lt t' c hc
  have hidle : ∀ c : Call F X, (Pc.idle : Pc F X).call = some c → c.eIndex < maxN := fun c h => by cases h
  have hsame {t : Nat} {c : Call F X} {pc : Pc F X} (hc : (s.pcs t).call = some c) (hpc : pc.call = some c) :
      ∀ c', pc.call = some c' → c'.eIndex < maxN := fun c' h => by
    obtain rfl := Option.some_inj.mp (hpc.symm.trans h)
    exact hI.index_lt t c hc
  cases h with
  | stay _ => exact hI.index_lt
  | arrive hpc hc => exact hgoto s rfl fun c' h => (Option.some_inj.mp h) ▸ hc
  | refuse _ _ => exact hI.index_lt
  | claim hpc _ => exact hgoto _ rfl (hsame (by rw [hpc]; rfl) rfl)
  | miss hpc _ => exact hgoto _ rfl (hsame (by rw [hpc]; rfl) rfl)
  | start hpc => exact hgoto _ rfl (hsame (by rw [hpc]; rfl) rfl)
  | pass _ _ => exact hgoto _ rfl hidle
  | set hpc => exact hgoto _ rfl (hsame (by rw [hpc]; rfl) rfl)
  | exit _ => exact hgoto _ rfl hidle
  | succeed hpc => exact hgoto _ rfl (hsame (by rw [hpc]; rfl) rfl)
  | fail _ _ => exact hgoto _ rfl hidle

/-- **The invariant** after a step. -/
theorem Inv.move {ev : Event F X} {tr : List (Act F X)} (hI : Inv s g) (h : Move s ev s' tr) :
    Inv s' (tr.foldl Watch.next g) := ⟨hI.stage_move h, hI.owed_move h, hI.index_move h⟩

/-! ### The requirement on the calls -/

/-- What a run has to keep to: a call that comes to its compare-and-swap finds the slot free, or the index
initialised. -/
def Free (sg : State F X × Watch X) : Event F X → Prop
  | .step t => ∀ c, sg.1.pcs t = .swap c →
      (sg.1.slots c.eIndex).instance_ = 0 ∨ (sg.2.phase c.eIndex).isDone = true
  | _ => True

/-- A call that found its slot taken found the index initialised. -/
def Late (s : State F X) (g : Watch X) : Prop := ∀ t c, s.pcs t = .check c false → (g.phase c.eIndex).isDone = true

/-- A call that does not wait owes nothing. -/
theorem Inv.owed_none (hI : Inv s g) (h : (s.pcs t).waits = none) : g.owed t = none := by
  rw [Option.eq_none_iff_forall_ne_some]
  intro e howed
  have hwaits := (hI.owed t e howed).2
  rw [h] at hwaits
  cases hwaits

/-- **A step meets the requirement**, where the calls that found their slots taken came late. -/
theorem Inv.right_move {ev : Event F X} {tr : List (Act F X)} (hI : Inv s g) (hl : Late s g) (h : Move s ev s' tr) :
    Meets Watch.next Right g tr := by
  cases h with
  | stay _ => trivial
  | arrive _ _ => exact ⟨trivial, trivial⟩
  | refuse hpc hret => exact ⟨⟨fun h => absurd h hret, hI.owed_none (by rw [hpc]; rfl)⟩, trivial⟩
  | claim _ _ => trivial
  | miss _ _ => trivial
  | start _ => exact ⟨trivial, trivial⟩
  | @pass t c instance_ hpc h =>
    obtain rfl := hI.pass_false hpc h
    have hdone := hl t c hpc
    refine ⟨⟨fun _ => hdone, Option.eq_none_iff_forall_ne_some.mpr fun e howed => ?_⟩, trivial⟩
    obtain ⟨hfailed, hwaits⟩ := hI.owed t e howed
    rw [hpc] at hwaits
    obtain rfl := Option.some_inj.mp hwaits
    rw [hfailed] at hdone
    cases hdone
  | set _ => trivial
  | exit hpc =>
    obtain ⟨-, hg, -⟩ := hI.of_held (of_held_eq hpc rfl).1
    refine ⟨⟨fun _ => ?_, hI.owed_none (by rw [hpc]; rfl)⟩, trivial⟩
    rw [hg, hpc]
    rfl
  | succeed hpc =>
    obtain ⟨-, hg, -⟩ := hI.of_held (of_held_eq hpc rfl).1
    refine ⟨fun _ => ?_, trivial⟩
    rw [hg, hpc]
    rfl
  | fail hpc hret =>
    have hcode : -WOW_CB_FAILED ≠ 0 := by decide
    exact ⟨fun h => absurd h hret, ⟨fun h => absurd h hcode, hI.owed_none (by rw [hpc]; rfl)⟩, trivial⟩

/-- An index that is initialised stays so. -/
theorem Inv.done_stays {ev : Event F X} {tr : List (Act F X)} (hI : Inv s g) (h : Move s ev s' tr)
    (hdone : (g.phase e).isDone = true) : ((tr.foldl Watch.next g).phase e).isDone = true := by
  have hupdate {t : Nat} {c : Call F X} {pc : Pc F X} (ph : Phase X) (hpc : s.pcs t = pc) (hc : pc.held = some c)
      (hno : pc.phase.isDone = false) : (Function.update g.phase c.eIndex ph e).isDone = true := by
    obtain ⟨-, hg, -⟩ := hI.of_held (of_held_eq hpc hc).1
    have hne : e ≠ c.eIndex := by
      rintro rfl
      rw [hg, hpc, hno] at hdone
      cases hdone
    rw [Function.update_of_ne hne]
    exact hdone
  cases h with
  | arrive _ _ =>
    rw [List.foldl_cons, List.foldl_nil, Watch.phase_arrived]
    exact hdone
  | start hpc => exact hupdate _ hpc rfl rfl
  | succeed hpc => exact hupdate _ hpc rfl rfl
  | fail hpc _ => exact hupdate _ hpc rfl rfl
  | _ => exact hdone

theorem Late.goto (hl : Late s g) (pc : Pc F X) (hs : s'.pcs = s.pcs)
    (hg : ∀ e, (g.phase e).isDone = true → (k.phase e).isDone = true)
    (hown : ∀ c, pc = .check c false → (k.phase c.eIndex).isDone = true) : Late (s'.goto t pc) k := by
  intro t' c hc
  by_cases ht : t' = t
  · subst ht
    rw [State.pcs_goto] at hc
    exact hown c hc
  · rw [State.pcs_goto_of_ne pc ht, hs] at hc
    exact hg _ (hl t' c hc)

/-- **The late calls** after a step. -/
theorem Inv.late_move {ev : Event F X} {tr : List (Act F X)} (hI : Inv s g) (hl : Late s g) (hev : Free (s, g) ev)
    (h : Move s ev s' tr) : Late s' (tr.foldl Watch.next g) := by
  have hg : ∀ e, (g.phase e).isDone = true → ((tr.foldl Watch.next g).phase e).isDone = true :=
    fun e => hI.done_stays h
  cases h with
  | stay _ => exact hl
  | refuse _ _ => exact fun t c hc => hg _ (hl t c hc)
  | miss hpc hne =>
    refine hl.goto _ rfl hg fun c h => ?_
    cases h
    exact (hev _ hpc).resolve_left hne
  | arrive _ _ => exact hl.goto _ rfl hg fun c h => by cases h
  | claim _ _ => exact hl.goto _ rfl hg fun c h => by cases h
  | start _ => exact hl.goto _ rfl hg fun c h => by cases h
  | pass _ _ => exact hl.goto _ rfl hg fun c h => by cases h
  | set _ => exact hl.goto _ rfl hg fun c h => by cases h
  | exit _ => exact hl.goto _ rfl hg fun c h => by cases h
  | succeed _ => exact hl.goto _ rfl hg fun c h => by cases h
  | fail _ _ => exact hl.goto _ rfl hg fun c h => by cases h

end Step

/-- What holds in every state of a run. -/
theorem inv_run (es : List (Event F X)) : Inv (run wowSingletonInstance init es).1
    ((run wowSingletonInstance init es).2.foldl Watch.next fresh) := by
  have hstep : ∀ (sg : State F X × Watch X) ev, Inv sg.1 sg.2 →
      Inv (watched Watch.next wowSingletonInstance sg ev).1.1 (watched Watch.next wowSingletonInstance sg ev).1.2 :=
    fun sg ev hI => hI.move (move sg.1 ev)
  have hI := run_invariant hstep (s := (init, fresh)) inv_init es
  rwa [run_watched] at hI

/-- **The calls of a run** meet the requirement, where none comes to a slot that is taken and not initialised. -/
theorem right_run {es : List (Event F X)}
    (h : Along (watched Watch.next wowSingletonInstance) Free (init, fresh) es) :
    Meets Watch.next Right fresh (run wowSingletonInstance init es).2 ∧
      Late (run wowSingletonInstance init es).1 ((run wowSingletonInstance init es).2.foldl Watch.next fresh) := by
  let K : Contract (State F X) (Watch X) (Act F X) :=
    ⟨Watch.next, fun _ _ => True, Right, fun s g => Inv s g ∧ Late s g⟩
  have hstep : ∀ ev ∈ es, ∀ s g, K.inv s g → Free (s, g) ev →
      Meets K.next K.promise g (wowSingletonInstance s ev).2 ∧
        K.inv (wowSingletonInstance s ev).1 ((wowSingletonInstance s ev).2.foldl K.next g) := by
    rintro ev - s g ⟨hI, hl⟩ hev
    exact ⟨hI.right_move hl (move s ev), hI.move (move s ev), hI.late_move hl hev (move s ev)⟩
  have hinit : K.inv (init : State F X) fresh := ⟨inv_init, fun t c h => by cases h⟩
  obtain ⟨hmeets, -, hlate⟩ := Contract.keeps_along hstep hinit h
  exact ⟨hmeets, hlate⟩

/-! ### The exit functions -/

/-- The requirement on `_wow_singleton_exit`. -/
def ExitRight (s : State F X) (g : Watch X) : Prop := (wowSingletonExit s).2 = exits g

/-- No call stands between the success of its init function and the storing of an exit function. -/
def Settled (s : State F X) : Prop := ∀ t c, s.pcs t = .set c ∨ s.pcs t = .exit c → c.fExit = none

/-- What the loop calls for a slot. -/
def Slot.called (slot : Slot X) : Option X := if slot.instance_ = 1 then slot.exit else none

theorem exitLoop_eq (slots : Nat → Slot X) (n : Nat) :
    exitLoop slots n = (List.range n).reverse.filterMap fun e => (slots e).called.map (e, ·) := by
  induction n with
  | zero => rfl
  | succ n ih =>
    rw [exitLoop, List.range_succ, List.reverse_append, List.reverse_singleton, List.singleton_append,
      List.filterMap_cons, ← ih, Slot.called]
    by_cases hone : (slots n).instance_ = 1
    · rw [if_pos hone]
      rcases (slots n).exit with _ | exit
      · rfl
      · dsimp only
        rw [if_pos hone]
        rfl
    · rw [if_neg hone]
      rcases (slots n).exit with _ | exit
      · rfl
      · dsimp only
        rw [if_neg hone]
        rfl

/-- **The exit functions that are called** are those of the indices that are initialised, exactly where no call stands
in between. -/
theorem Inv.exitRight_iff {s : State F X} {g : Watch X} (hI : Inv s g) : ExitRight s g ↔ Settled s := by
  rw [ExitRight, wowSingletonExit, exitLoop_eq, exits]
  constructor
  · intro h t c hpc
    have hheld : (s.pcs t).held = some c ∧ (s.pcs t).call = some c ∧ (s.pcs t).phase = .done c.fExit := by
      rcases hpc with hpc | hpc <;> rw [hpc] <;> exact ⟨rfl, rfl, rfl⟩
    obtain ⟨hc, hcall, hphase⟩ := hheld
    obtain ⟨hs, hg, -⟩ := hI.of_held hc
    rw [Option.eq_none_iff_forall_ne_some]
    intro x hx
    have hmem : (c.eIndex, x) ∈ exits g := by
      refine List.mem_filterMap.mpr ⟨c.eIndex, List.mem_reverse.mpr (List.mem_range.mpr (hI.index_lt t c hcall)), ?_⟩
      rw [hg, hphase, Phase.exit, hx]
      rfl
    rw [exits, ← h] at hmem
    obtain ⟨e, -, he⟩ := List.mem_filterMap.mp hmem
    obtain ⟨x', hx', hpair⟩ := Option.map_eq_some_iff.mp he
    obtain ⟨rfl, -⟩ := Prod.mk.inj hpair
    rw [hs] at hx'
    cases hx'
  · intro h
    refine List.filterMap_congr fun e _ => ?_
    congr 1
    cases hI.stage e with
    | free hs hg _ =>
      rw [hs, hg]
      rfl
    | failed hs hg _ =>
      rw [hs, hg]
      rfl
    | done hs hg _ =>
      rw [hs, hg]
      rfl
    | @held t c hc he hs hg _ =>
      rw [hs, hg]
      cases hpc : s.pcs t with
      | set c => exact (h t c (.inl hpc)).symm
      | exit c => exact (h t c (.inr hpc)).symm
      | _ => rfl

/-! ### The requirement on a run -/

/-- **The requirement on a run**: the calls meet it in every state that is reached, whatever happens next, and so does
`_wow_singleton_exit` in the end. -/
def RunRight (es : List (Event F X)) : Prop :=
  (∀ p ev, p <+: es → Meets Watch.next Right fresh (run wowSingletonInstance init (p ++ [ev])).2) ∧
    ExitRight (run wowSingletonInstance init es).1 ((run wowSingletonInstance init es).2.foldl Watch.next fresh)

/-- A call that has missed its slot returns a success with its next step. -/
theorem missed_trace {s : State F X} {t : Nat} {c : Call F X} (hpc : s.pcs t = .swap c)
    (hne : (s.slots c.eIndex).instance_ ≠ 0) :
    (run wowSingletonInstance s [.step t, .step t]).2 = [.returned t c 0] := by
  have hmiss : wowSingletonInstance s (.step t) = (s.goto t (.check c false), []) := by
    rw [wowSingletonInstance, hpc, stepCall]
    exact if_neg hne
  have hpass : (wowSingletonInstance (s.goto t (.check c false)) (.step t)).2 = [.returned t c 0] := by
    rw [wowSingletonInstance, State.pcs_goto, stepCall, if_neg (fun h => by cases h.1)]
  rw [run_cons, run_cons, run_nil, hmiss, hpass]
  rfl

/-- **A run is right** exactly where no call comes to the compare-and-swap of a slot that is taken while the index is not
initialised, and the exit functions are called with all of them stored. -/
theorem runRight_iff (es : List (Event F X)) : RunRight es ↔
    Along (watched Watch.next wowSingletonInstance) Free (init, fresh) es ∧
      Settled (run wowSingletonInstance init es).1 := by
  rw [RunRight, (inv_run es).exitRight_iff]
  refine and_congr_left fun _ => ⟨fun h => along_of_prefix fun p ev hp => ?_, fun h p ev hp => ?_⟩
  · rw [run_watched]
    cases ev with
    | step t =>
      intro c hpc
      by_contra! hboth
      obtain ⟨hne, hdone⟩ := hboth
      have hmeets := h (p ++ [.step t]) (.step t) hp
      rw [List.append_assoc, run_append, meets_append] at hmeets
      have htrace := missed_trace hpc hne
      rw [List.singleton_append, htrace] at hmeets
      exact hdone (hmeets.2.1.1 rfl)
    | _ => trivial
  · obtain ⟨q, rfl⟩ := hp
    obtain ⟨hmeets, hlate⟩ := right_run ((along_append _ _ _).mp h).1
    rw [run_append, meets_append, run_cons, run_nil, List.append_nil]
    exact ⟨hmeets, (inv_run p).right_move hlate (move _ ev)⟩

/-- The init function of an index fails, and the next call of the index returns 0 without one. -/
theorem not_runRight_failed : ¬ RunRight (F := Unit) (X := Unit) [.call 0 ⟨0x91, some (), none⟩, .step 0, .step 0,
    .ended 0 (-1), .call 1 ⟨0x91, some (), none⟩, .step 1, .step 1] := by
  rintro ⟨h, -⟩
  have hmeets := h [.call 0 ⟨0x91, some (), none⟩, .step 0, .step 0, .ended 0 (-1), .call 1 ⟨0x91, some (), none⟩,
    .step 1] (.step 1) (List.prefix_append _ [Event.step 1])
  exact absurd hmeets (by decide)

end Wow.Utils.Singleton
