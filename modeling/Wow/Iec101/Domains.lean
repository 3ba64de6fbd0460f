import Wow.Iec101.Slave

/-!
# Wow.Iec101.Domains — the four states of the slave

Each service has a field of its own in `stat`, with constants of its own, and its frames and its machine are to
keep to that field.  Three places of the code do not.

* `Moves`: what keeps to the field of a service; all machines do, that of remote control but for the execute.
* `Apart`: what is asked of a step; `Slips`: the three places.
-/

namespace Wow.Iec101.Slave

open Iec10x
open Iec104 (ytFmt)

variable {P : Type} {c : Conf P} {s : Core}

/-! ### The machines one by one -/

/-- Every field holds a state of its own service. -/
def InDomain (x : Iec10xState) : Prop := ∀ v : Svc, v.state x ∈ v.own

/-- The machine of a service, with its readings of the clock. -/
def machineOf (c : Conf P) (clock : Clock) : Svc → Cmd Core
  | .callall => machineCallall c clock.callall
  | .callpulse => machineCallpulse c clock.callpulse
  | .yt => machineYt c clock.yt clock.yt'
  | .yk => machineYk c clock.yk clock.yk'

/-- The services in the order of a turn. -/
def turn : List Svc := [.callall, .callpulse, .yt, .yk]

/-- Only the field of `v` changes, within its constants. -/
def Moves (v : Svc) (s : Core) (r : Core × List Act) : Prop := ∃ x ∈ v.own, r.1.stat = v.set x s.stat

theorem Moves.state {v w : Svc} {r : Core × List Act} (h : Moves v s r) (hw : w ≠ v) :
    w.state r.1.stat = w.state s.stat := by
  obtain ⟨x, -, hx⟩ := h
  rw [hx, Svc.state_set_of_ne hw]

theorem Moves.inDomain {v : Svc} {r : Core × List Act} (h : Moves v s r) (hs : InDomain s.stat) :
    InDomain r.1.stat := by
  intro w
  by_cases hw : w = v
  · obtain ⟨x, hx, hr⟩ := h
    rw [hw, hr, Svc.state_set]
    exact hx
  · rw [h.state hw]
    exact hs w

/-- What stays in place. -/
theorem moves_self {v : Svc} (h : v.state s.stat ∈ v.own) {r : Core × List Act} (hr : r.1.stat = s.stat) :
    Moves v s r :=
  ⟨v.state s.stat, h, by rw [hr]; cases v <;> rfl⟩

theorem moves_machineCallall (now : Int) (h : s.stat.callall ∈ Svc.own .callall) :
    Moves .callall s (machineCallall c now s) := by
  have hawait : ∀ acts next, next ∈ Svc.own .callall →
      (awaitTack s.tack now s.time.callall callAllTimeout acts s.stat.callall next .callAllFaild).1 ∈
        Svc.own .callall := by
    intro acts next hn
    have hf : Iec10xStat.callAllFaild ∈ Svc.own .callall := by decide
    unfold awaitTack
    split
    · exact hf
    · split
      · exact hn
      · exact h
  unfold machineCallall
  dsimp only
  split
  · exact ⟨_, by decide, rfl⟩
  · exact ⟨_, hawait _ _ (by decide), rfl⟩
  · exact ⟨_, hawait _ _ (by decide), rfl⟩
  · exact ⟨_, hawait _ _ (by decide), rfl⟩
  · split
    · exact ⟨_, by decide, rfl⟩
    · exact moves_self h rfl
  · exact ⟨_, by decide, rfl⟩
  · exact moves_self h rfl

theorem machineCallpulse_idle (now : Int) (h : s.stat.callpulse = .callPulseIdle) :
    machineCallpulse c now s = (s, []) := by
  unfold machineCallpulse
  rw [h]

theorem moves_machineYt (now now' : Int) (h : s.stat.yt ∈ Svc.own .yt) : Moves .yt s (machineYt c now now' s) := by
  unfold machineYt
  split
  · exact ⟨_, by split <;> decide, rfl⟩
  · exact ⟨_, by split; exacts [by decide, h], rfl⟩
  · exact ⟨_, by split <;> decide, rfl⟩
  · exact ⟨_, by decide, rfl⟩
  · exact ⟨_, by decide, rfl⟩
  · exact moves_self h rfl

theorem moves_machineYk (now now' : Int) (h : s.stat.yk ∈ Svc.own .yk) (hexec : s.stat.yk ≠ .ykCmdExec) :
    Moves .yk s (machineYk c now now' s) := by
  unfold machineYk
  split
  · exact ⟨_, by split <;> decide, rfl⟩
  · exact ⟨_, by split; exacts [by decide, h], rfl⟩
  · rename_i he
    exact absurd he hexec
  · exact ⟨_, by decide, rfl⟩
  · exact ⟨_, by decide, rfl⟩
  · exact moves_self h rfl

/-- The case of the execute sets the state of the set-points to a state of remote control. -/
theorem machineYk_exec (now now' : Int) (h : s.stat.yk = .ykCmdExec) :
    (machineYk c now now' s).1.stat.yt = .ykCmdSuccess := by
  unfold machineYk
  rw [h]

/-- The states a run of the slave keeps to: no event starts the counter interrogation. -/
def Sane (s : Core) : Prop := InDomain s.stat ∧ s.stat.callpulse = .callPulseIdle

theorem Moves.sane {v : Svc} {r : Core × List Act} (h : Moves v s r) (hv : v ≠ .callpulse) (hs : Sane s) :
    Sane r.1 :=
  ⟨h.inDomain hs.1, (h.state (w := .callpulse) hv.symm).trans hs.2⟩

/-- **Every machine keeps to its field**, but for remote control in its execute. -/
theorem moves_machineOf (clock : Clock) (v : Svc) (hs : Sane s) (hexec : v = .yk → s.stat.yk ≠ .ykCmdExec) :
    Moves v s (machineOf c clock v s) := by
  cases v with
  | callall => exact moves_machineCallall _ (hs.1 .callall)
  | callpulse =>
    have hskip : machineOf c clock .callpulse s = (s, []) := machineCallpulse_idle _ hs.2
    exact moves_self (hs.1 .callpulse) (by rw [hskip])
  | yt => exact moves_machineYt _ _ (hs.1 .yt)
  | yk => exact moves_machineYk _ _ (hs.1 .yk) (hexec rfl)

theorem sane_machineOf (clock : Clock) (v : Svc) (hs : Sane s) (hexec : v = .yk → s.stat.yk ≠ .ykCmdExec) :
    Sane (machineOf c clock v s).1 := by
  by_cases hv : v = .callpulse
  · subst hv
    have hskip : machineOf c clock .callpulse s = (s, []) := machineCallpulse_idle _ hs.2
    rw [hskip]
    exact hs
  · exact (moves_machineOf clock v hs hexec).sane hv hs

/-! ### A turn -/

/-- The turn of one service, as a step of a run. -/
def turnStep (c : Conf P) (clock : Clock) (s : Core) (v : Svc) : Core × List Act := machineOf c clock v s

/-- The step of a service leaves the fields of the others alone. -/
def StepApart (c : Conf P) (clock : Clock) (s : Core) (v : Svc) : Prop :=
  ∀ w : Svc, w ≠ v → w.state (turnStep c clock s v).1.stat = w.state s.stat

/-- Up to the machine of remote control. -/
theorem turn_before (clock : Clock) {vs : List Svc} (hvs : Svc.yk ∉ vs) (hs : Sane s) :
    (run (turnStep c clock) s vs).1.stat.yk = s.stat.yk ∧ Sane (run (turnStep c clock) s vs).1 ∧
      Along (turnStep c clock) (StepApart c clock) s vs := by
  induction vs generalizing s with
  | nil => exact ⟨rfl, hs, trivial⟩
  | cons v vs ih =>
    have hv : v ≠ .yk := fun h => hvs (by rw [h]; exact List.mem_cons_self)
    have hmoves : Moves v s (turnStep c clock s v) := moves_machineOf clock v hs fun h => absurd h hv
    have hsane : Sane (turnStep c clock s v).1 := sane_machineOf clock v hs fun h => absurd h hv
    obtain ⟨h1, h2, h3⟩ := ih (fun h => hvs (List.mem_cons_of_mem v h)) hsane
    exact ⟨h1.trans (hmoves.state (w := .yk) hv.symm), h2, fun w hw => hmoves.state hw, h3⟩

/-- **A turn without an execute** keeps the services apart. -/
theorem turn_apart (clock : Clock) (hs : Sane s) (hexec : s.stat.yk ≠ .ykCmdExec) :
    Sane (run (turnStep c clock) s turn).1 ∧ Along (turnStep c clock) (StepApart c clock) s turn := by
  have hvs : Svc.yk ∉ [Svc.callall, .callpulse, .yt] := by decide
  obtain ⟨hyk, hsane, halong⟩ := turn_before (c := c) clock hvs hs
  rw [← hyk] at hexec
  have hlast := moves_machineOf (c := c) clock .yk hsane fun _ => hexec
  rw [show turn = [.callall, .callpulse, .yt] ++ [.yk] from rfl, run_append, along_append]
  exact ⟨sane_machineOf clock .yk hsane fun _ => hexec, halong, fun w hw => hlast.state hw, trivial⟩

/-- **A turn with an execute** leaves a state of remote control behind for the set-points. -/
theorem turn_exec (clock : Clock) (hs : Sane s) (hexec : s.stat.yk = .ykCmdExec) :
    (run (turnStep c clock) s turn).1.stat.yt = .ykCmdSuccess := by
  have hvs : Svc.yk ∉ [Svc.callall, .callpulse, .yt] := by decide
  obtain ⟨hyk, -, -⟩ := turn_before (c := c) clock hvs hs
  rw [show turn = [.callall, .callpulse, .yt] ++ [.yk] from rfl, run_append]
  exact machineYk_exec _ _ (hyk.trans hexec)

theorem stateMachine_eq (clock : Clock) : stateMachine c clock s =
    if (machineWork c s).1.stat.init ≠ .linkIdle then machineWork c s
    else
      ((run (turnStep c clock) (machineWork c s).1 turn).1,
        (machineWork c s).2 ++ (run (turnStep c clock) (machineWork c s).1 turn).2) := rfl

theorem sane_machineWork (hs : Sane s) : Sane (machineWork c s).1 ∧
    ((machineWork c s).1.stat.init = .linkIdle → (machineWork c s).1.stat.yk = s.stat.yk) := by
  obtain ⟨hd, hp⟩ := hs
  have hinit : ∀ x, InDomain { s.stat with init := x } := fun x v => by
    have := hd v
    cases v <;> exact this
  have hreset : InDomain ⟨.linkOpen, .callAllIdle, .callPulseIdle, .ytCmdIdle, .ykCmdIdle, .testerStart⟩ :=
    fun v => by cases v <;> decide
  unfold machineWork
  split
  · exact ⟨⟨hreset, rfl⟩, fun h => by cases h⟩
  · exact ⟨⟨hinit _, hp⟩, fun _ => rfl⟩
  · exact ⟨⟨hinit _, hp⟩, fun _ => rfl⟩
  · exact ⟨⟨hinit _, hp⟩, fun _ => rfl⟩
  · exact ⟨⟨hinit _, hp⟩, fun _ => rfl⟩
  · exact ⟨⟨hd, hp⟩, fun _ => rfl⟩

/-! ### What is asked of a step -/

/-- The service a frame with user data is for. -/
def svcOf (m : Mem) : Option Svc :=
  match AsduType.ofCode (Fld.type m) with
  | some .cIcNa1 => some .callall
  | some .cCiNa1 => some .callpulse
  | some .cScNa1 | some .cDcNa1 => some .yk
  | some .cSeNa1 | some .cSeNc1 => some .yt
  | _ => none

/-- The service a step is for, when it is one for a frame. -/
def takenSvc : Taken → Option Svc
  | .on68 m _ => svcOf m
  | _ => none

variable (c)

/-- **What is asked of a step**: every field holds a state of its own service; a frame changes the field of its
service at most, and so does every machine of a turn on an idle link. -/
def Apart (t : Station Core) (e : Event) : Prop :=
  InDomain (step c t e).1.core.stat ∧
    match e with
    | .recv read => ∀ v, some v ≠ takenSvc (t.taken read) → v.state (step c t e).1.core.stat = v.state t.core.stat
    | .machine clock => t.looping = false → (machineWork c t.core).1.stat.init = .linkIdle →
        Along (turnStep c clock) (StepApart c clock) (machineWork c t.core).1 turn
    | _ => (step c t e).1.core.stat = t.core.stat

/-- A frame that goes wrong: an activated counter interrogation, or the execute of a set-point that finds remote
control elsewhere than in its own execute. -/
def FrameSlips (yk : Iec10xStat) (m : Mem) : Prop :=
  Fld.func m = Func.sendUsrDataAck ∧
    (AsduType.ofCode (Fld.type m) = some .cCiNa1 ∧ Activates m Cot.reqcogen ∨
      Fld.reason m = Cot.act ∧ ytExecute m = true ∧ yk ≠ .ykCmdExec)

/-- The steps that go wrong: such a frame, and a turn that finds remote control in its execute. -/
def Slips (t : Station Core) : Event → Prop
  | .recv read =>
    match t.taken read with
    | .on68 m _ => FrameSlips t.core.stat.yk m
    | _ => False
  | .machine _ =>
    t.looping = false ∧ (machineWork c t.core).1.stat.init = .linkIdle ∧ t.core.stat.yk = .ykCmdExec
  | _ => False

variable {c}

theorem inDomain_set {x : Iec10xState} (hx : InDomain x) {v : Svc} {y : Iec10xStat} (hy : y ∈ v.own) :
    InDomain (v.set y x) := by
  intro w
  by_cases hw : w = v
  · rw [hw, Svc.state_set]
    exact hy
  · rw [Svc.state_set_of_ne hw]
    exact hx w

theorem stat_on68 (m : Mem) (len : Nat) : ((on68 c s len).run m).1.stat =
    if Fld.func m = Func.sendUsrDataAck then statAfter m s.stat else s.stat := by
  rw [run_on68]
  split
  · exact stat_onUserData c s m len
  · split <;> rfl

/-- A frame that changes one field to a state of its service. -/
theorem apart_set {x : Iec10xState} (hx : InDomain x) {v : Svc} {y : Iec10xStat} (hy : y ∈ v.own) :
    InDomain (v.set y x) ∧ ∀ w : Svc, some w ≠ some v → w.state (v.set y x) = w.state x :=
  ⟨inDomain_set hx hy, fun _ hw => Svc.state_set_of_ne (fun h => hw (congrArg some h)) y x⟩

/-- **A frame keeps the services apart** unless it is one of the two that slip. -/
theorem frame_apart_iff {x : Iec10xState} (hx : InDomain x) (m : Mem) :
    (InDomain (statAfter m x) ∧ ∀ v, some v ≠ svcOf m → v.state (statAfter m x) = v.state x) ↔
      ¬ (AsduType.ofCode (Fld.type m) = some .cCiNa1 ∧ Activates m Cot.reqcogen ∨
        Fld.reason m = Cot.act ∧ ytExecute m = true ∧ x.yk ≠ .ykCmdExec) := by
  unfold statAfter svcOf
  cases ht : AsduType.ofCode (Fld.type m) with
  | none =>
    have hyt : ytExecute m = false := by simp [ytExecute, ht]
    exact iff_of_true ⟨hx, fun _ _ => rfl⟩ (by simp [hyt])
  | some t =>
    have hyt : ytFmt t = none → ytExecute m = false := fun h => by simp [ytExecute, ht, h]
    cases t with
    | cIcNa1 =>
      refine iff_of_true ?_ (by simp [hyt rfl])
      dsimp only
      split
      · exact apart_set (v := .callall) (y := .callAllStart) hx (by decide)
      · exact ⟨hx, fun _ _ => rfl⟩
    | cCiNa1 =>
      dsimp only
      by_cases ha : Activates m Cot.reqcogen
      · rw [if_pos ha]
        exact iff_of_false (fun h => absurd (h.1 .callall) (by decide : Iec10xStat.callPulseStart ∉ Svc.own .callall))
          (by simp [ha])
      · rw [if_neg ha]
        exact iff_of_true ⟨hx, fun _ _ => rfl⟩ (by simp [ha, hyt rfl])
    | cScNa1 | cDcNa1 =>
      refine iff_of_true ?_ (by simp [hyt rfl])
      dsimp only
      split
      · exact ⟨hx, fun _ _ => rfl⟩
      · split
        · exact apart_set (v := .yk) (y := .ykCmdStart) hx (by decide)
        · exact apart_set (v := .yk) (y := .ykCmdExec) hx (by decide)
    | cSeNa1 | cSeNc1 =>
      dsimp only
      by_cases hr : Fld.reason m = Cot.act
      · rw [if_neg (not_not.mpr hr)]
        by_cases he : ytExecute m = true ∧ x.yk ≠ .ykCmdExec
        · refine iff_of_false (fun h => ?_) (by simp [hr, he])
          have hstate : (if ytExecute m then Iec10xStat.ykCmdExec else x.yk) = x.yk := h.2 .yk (by decide)
          rw [if_pos he.1] at hstate
          exact he.2 hstate.symm
        · refine iff_of_true ?_ (by rintro (h | ⟨-, h⟩); exacts [absurd h.1 (by decide), he h])
          have hyk : (if ytExecute m then Iec10xStat.ykCmdExec else x.yk) = x.yk := by
            split
            · rename_i hx'
              exact (not_not.mp fun hn => he ⟨hx', hn⟩).symm
            · rfl
          rw [hyk]
          exact apart_set (v := .yt) (y := .ytCmdStart) hx (by decide)
      · rw [if_pos hr]
        exact iff_of_true ⟨hx, fun _ _ => rfl⟩ (by rintro (h | h); exacts [absurd h.1 (by decide), hr h.1])
    | _ =>
      exact iff_of_true ⟨hx, fun _ _ => rfl⟩ (by simp [hyt rfl])

/-! ### Runs -/

theorem callpulse_statAfter (m : Mem) (x : Iec10xState) : (statAfter m x).callpulse = x.callpulse := by
  unfold statAfter
  split <;> (try split) <;> (try split) <;> rfl

theorem stat_buildSpon (type : DevNodeCtrl → AsduType) (obj : DevNodeCtrl → DevNodeCtrl → List UInt8)
    (nodes : NodeArr) (s : Core) : (buildSpon c type obj nodes s).1.stat = s.stat := by
  unfold buildSpon
  split
  · rfl
  · split <;> rfl

/-- **One step**: it is apart unless it slips. -/
theorem apart_iff (t : Station Core) (e : Event) (hs : Sane t.core) : Apart c t e ↔ ¬ Slips c t e := by
  cases e with
  | recv read =>
    have hcore := core_recv (handlers c) read t
    unfold Apart Slips
    rw [show step c t (.recv read) = recv (handlers c) read t from rfl, hcore]
    dsimp only
    generalize t.taken read = f
    cases f with
    | nothing => exact iff_of_true ⟨hs.1, fun _ _ => rfl⟩ id
    | on10 m =>
      refine iff_of_true ?_ id
      have hinit : ∀ y, InDomain { t.core.stat with init := y } ∧
          ∀ v : Svc, v.state { t.core.stat with init := y } = v.state t.core.stat :=
        fun y => ⟨fun v => by have := hs.1 v; cases v <;> exact this, fun v => by cases v <;> rfl⟩
      have hself : InDomain t.core.stat ∧ ∀ v : Svc, v.state t.core.stat = v.state t.core.stat :=
        ⟨hs.1, fun _ => rfl⟩
      suffices h : InDomain ((on10 c t.core).run m).1.stat ∧
          ∀ v : Svc, v.state ((on10 c t.core).run m).1.stat = v.state t.core.stat from ⟨h.1, fun v _ => h.2 v⟩
      rw [run_on10]
      split
      · split
        · exact hself
        · split
          · exact hinit .linkConnectOk
          · split
            · exact hself
            · split <;> exact hself
      · exact hself
    | on68 m len =>
      show InDomain ((on68 c t.core len).run m).1.stat ∧ (∀ v, some v ≠ svcOf m →
        v.state ((on68 c t.core len).run m).1.stat = v.state t.core.stat) ↔ ¬ FrameSlips t.core.stat.yk m
      rw [stat_on68]
      by_cases hf : Fld.func m = Func.sendUsrDataAck
      · rw [if_pos hf, frame_apart_iff hs.1]
        exact not_congr (and_iff_right hf).symm
      · rw [if_neg hf]
        exact iff_of_true ⟨hs.1, fun _ _ => rfl⟩ (fun h => hf h.1)
  | machine clock =>
    show InDomain (t.machine (stateMachine c clock)).1.core.stat ∧ _ ↔ _
    unfold Station.machine Slips
    by_cases hl : t.looping = true
    · rw [if_pos hl]
      exact iff_of_true ⟨hs.1, fun h => by rw [hl] at h; cases h⟩ (fun h => by rw [hl] at h; cases h.1)
    have hl' : t.looping = false := by simpa using hl
    rw [if_neg hl]
    show InDomain (stateMachine c clock t.core).1.stat ∧ _ ↔ _
    rw [stateMachine_eq]
    obtain ⟨hwork, hyk⟩ := sane_machineWork (c := c) hs
    by_cases hi : (machineWork c t.core).1.stat.init = .linkIdle
    · rw [if_neg (not_not.mpr hi)]
      by_cases he : t.core.stat.yk = .ykCmdExec
      · refine iff_of_false (fun h => ?_) (fun h => h ⟨hl', hi, he⟩)
        have hyt : (run (turnStep c clock) (machineWork c t.core).1 turn).1.stat.yt ∈ Svc.own .yt := h.1 .yt
        rw [turn_exec clock hwork ((hyk hi).trans he)] at hyt
        exact absurd hyt (by decide)
      · obtain ⟨hsane, halong⟩ := turn_apart (c := c) clock hwork (by rw [hyk hi]; exact he)
        exact iff_of_true ⟨hsane.1, fun _ _ => halong⟩ (fun h => he h.2.2)
    · rw [if_pos hi]
      exact iff_of_true ⟨hwork.1, fun _ h => absurd h hi⟩ (fun h => hi h.2.1)
  | yxSpon nodes =>
    have hstat : (step c t (.yxSpon nodes)).1.core.stat = t.core.stat := stat_buildSpon _ _ nodes t.core
    exact iff_of_true ⟨by rw [hstat]; exact hs.1, hstat⟩ id
  | ycSpon nodes =>
    have hstat : (step c t (.ycSpon nodes)).1.core.stat = t.core.stat := stat_buildSpon _ _ nodes t.core
    exact iff_of_true ⟨by rw [hstat]; exact hs.1, hstat⟩ id

/-! The counter interrogation stays idle. -/

theorem callpulse_machineWork (h : s.stat.callpulse = .callPulseIdle) :
    (machineWork c s).1.stat.callpulse = .callPulseIdle := by
  unfold machineWork
  split <;> first | exact h | rfl

theorem callpulse_machineOf (clock : Clock) (v : Svc) (h : s.stat.callpulse = .callPulseIdle) :
    (machineOf c clock v s).1.stat.callpulse = .callPulseIdle := by
  cases v with
  | callall =>
    simp only [machineOf, machineCallall]
    split
    all_goals try exact h
    split <;> exact h
  | callpulse =>
    rw [show machineOf c clock .callpulse s = (s, []) from machineCallpulse_idle _ h]
    exact h
  | yt =>
    simp only [machineOf, machineYt]
    split <;> exact h
  | yk =>
    simp only [machineOf, machineYk]
    split <;> exact h

theorem callpulse_stateMachine (clock : Clock) (h : s.stat.callpulse = .callPulseIdle) :
    (stateMachine c clock s).1.stat.callpulse = .callPulseIdle := by
  have hwork := callpulse_machineWork (c := c) h
  rw [stateMachine_eq]
  split
  · exact hwork
  · exact run_invariant (I := fun s : Core => s.stat.callpulse = .callPulseIdle)
      (fun s v hs => callpulse_machineOf clock v hs) hwork turn

theorem callpulse_serve (f : Taken) (h : s.stat.callpulse = .callPulseIdle) :
    (f.serve (handlers c) s).1.stat.callpulse = .callPulseIdle := by
  cases f with
  | nothing => exact h
  | on10 m =>
    show ((on10 c s).run m).1.stat.callpulse = .callPulseIdle
    rw [run_on10]
    split
    · split
      · exact h
      · split
        · exact h
        · split
          · exact h
          · split <;> exact h
    · exact h
  | on68 m len =>
    show ((on68 c s len).run m).1.stat.callpulse = .callPulseIdle
    rw [stat_on68]
    split
    · rw [callpulse_statAfter]
      exact h
    · exact h

/-- **The counter interrogation of the slave is never started**. -/
theorem callpulse_step (t : Station Core) (e : Event) (h : t.core.stat.callpulse = .callPulseIdle) :
    (step c t e).1.core.stat.callpulse = .callPulseIdle := by
  cases e with
  | recv read =>
    show (recv (handlers c) read t).1.core.stat.callpulse = .callPulseIdle
    rw [core_recv]
    exact callpulse_serve _ h
  | machine clock =>
    show (t.machine (stateMachine c clock)).1.core.stat.callpulse = .callPulseIdle
    unfold Station.machine
    split
    · exact h
    · exact callpulse_stateMachine clock h
  | yxSpon nodes =>
    exact (congrArg Iec10xState.callpulse (stat_buildSpon _ _ nodes t.core)).trans h
  | ycSpon nodes =>
    exact (congrArg Iec10xState.callpulse (stat_buildSpon _ _ nodes t.core)).trans h

/-- **The states of the slave**: in every run all fields stay in their domains and all services apart, exactly when
no step slips. -/
theorem along_apart_iff (c : Conf P) (es : List Event) :
    Along (step c) (Apart c) init es ↔ Along (step c) (fun t e => ¬ Slips c t e) init es :=
  along_congr_of_invariant (I := fun t => Sane t.core) (fun t e hs => apart_iff t e hs)
    (fun t e hs hA => ⟨hA.1, callpulse_step t e hs.2⟩) ⟨fun v => by cases v <;> decide, rfl⟩ es

/-- The activation of a counter interrogation. -/
def pulseFrame : Read :=
  ⟨[0x68, 0x0B, 0x0B, 0x68, 0xD3, 1, 0, 0x65, 1, 6, 1, 0, 0, 0, 0x25, 0x66, 0x16], by decide⟩

/-- A counter interrogation leaves a state of its own in the field of the general one. -/
theorem not_apart_pulse : ¬ Along (step sampleConf) (Apart sampleConf) init (sampleStart ++ [.recv pulseFrame]) := by
  intro h
  have hlast : InDomain (step sampleConf (run (step sampleConf) init sampleStart).1 (.recv pulseFrame)).1.core.stat :=
    h.2.2.2.2.1.1
  exact absurd (hlast .callall) (by decide +kernel)

end Wow.Iec101.Slave
