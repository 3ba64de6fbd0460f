import Wow.Iec101.Requests

/-!
# Wow.Iec101.Failures — how the master reports the failure of a service

A negative confirmation or the expiry of its time is to take a running service to its failed state, where the next
turn of the machines reports it and makes it idle.  Some places assign the result code of the report in place of the
state; the number is that of another state, which no machine of the service knows.

* `TurnOf`: what the machine of a service can do in a turn; `turnOf_stateMachine`: so does a turn of all of them.
* `Reported`: what is asked of a step; `Overlooked`: where the code does something else.
-/

namespace Wow.Iec101.Master

open Iec10x

variable {c : Conf} {s : Core} {v : Svc}

/-! ### One turn of a service -/

/-- The states in which a service waits for the slave. -/
def waiting : Svc → List Iec10xStat
  | .callall => [.callAllConfirm, .callAllYx, .callAllYc]
  | .callpulse => [.callPulseConfirm, .callPulseYm]
  | .yt => [.ytCmdConfirm, .ytCmdExec]
  | .yk => [.ykCmdConfirm, .ykCmdExec]

/-- The states of a start, its confirmation and a success. -/
def confirm : Svc → Iec10xStat
  | .callall => .callAllConfirm
  | .callpulse => .callPulseConfirm
  | .yt => .ytCmdConfirm
  | .yk => .ykCmdConfirm

def succeeded : Svc → Iec10xStat
  | .callall => .callAllSuccess
  | .callpulse => .callPulseSuccess
  | .yt => .ytCmdSuccess
  | .yk => .ykCmdSuccess

/-- The reading of the clock its machine compares, and with what. -/
def overdue (clock : Clock) (time : Iec10xTime) : Svc → Bool
  | .callall => expired clock.callall time.callall callAllTimeout
  | .callpulse => expired clock.callpulse time.callpulse callPulseTimeout
  | .yt => expired clock.yt time.yt ytCmdTimeout
  | .yk => expired clock.yk time.yk ykCmdTimeout

/-- What a service is set to when its time is over. -/
def onTimeout : Svc → Iec10xStat
  | .callall => .ofService .callAllFaild
  | .callpulse => .ofService .callPulseFaild
  | .yt => .ytCmdFaild
  | .yk => .ykCmdFaild

/-- **What the machine of a service can do**: its next state and its reports. -/
inductive TurnOf (c : Conf) (v : Svc) (clock : Clock) (s : Core) (r : Core × List Act) : Prop where
  | start (h : v.state s.stat = v.start) (hs : v.state r.1.stat = confirm v) (hr : v.reports r.2 = [])
  | wait (h : v.state s.stat ∈ waiting v)
      (hs : v.state r.1.stat = if overdue clock s.time v then onTimeout v else v.state s.stat)
      (hr : v.reports r.2 = [])
  | succeed (h : v.state s.stat = succeeded v) (hs : v.state r.1.stat = v.idle)
      (hr : v.reports r.2 = v.reports (serv c v.success))
  | fail (h : v.state s.stat = v.faild) (hs : v.state r.1.stat = v.idle)
      (hr : v.reports r.2 = v.reports (serv c v.failure))
  | skip (h : v.state s.stat ∉ v.faild :: succeeded v :: v.start :: waiting v)
      (hs : v.state r.1.stat = v.state s.stat) (hr : v.reports r.2 = [])

theorem pollTack_keeps (v : Svc) : v.state (pollTack c s).1.stat = v.state s.stat ∧
    (pollTack c s).1.time = s.time ∧ v.reports (pollTack c s).2 = [] := by
  unfold pollTack
  split <;> exact ⟨rfl, rfl, rfl⟩

/-- The waiting states, with or without a look at `tack`. -/
theorem turnOf_wait {clock : Clock} {r r' : Core × List Act} {late : Bool} (h : v.state s.stat ∈ waiting v)
    (hr : v.state r.1.stat = v.state s.stat ∧ r.1.time = s.time ∧ v.reports r.2 = [])
    (hlate : late = overdue clock r.1.time v)
    (hr' : r' = if late then (put v (onTimeout v) r.1, r.2) else r) : TurnOf c v clock s r' := by
  obtain ⟨h1, h2, h3⟩ := hr
  rw [h2] at hlate
  subst hr' hlate
  refine .wait h ?_ ?_
  · split
    · exact Svc.state_set _ _ v
    · exact h1
  · split
    · exact h3
    · exact h3

/-- **The machines**, one by one. -/
theorem turnOf_machineOf (clock : Clock) (v : Svc) : TurnOf c v clock s (machineOf c clock v s) := by
  have hpoll := pollTack_keeps (c := c) (s := s)
  have hself : ∀ v : Svc, v.state (s, ([] : List Act)).1.stat = v.state s.stat ∧ (s, ([] : List Act)).1.time = s.time ∧
      v.reports (s, ([] : List Act)).2 = [] := fun _ => ⟨rfl, rfl, rfl⟩
  cases v with
  | callall =>
    simp only [machineOf, machineCallall]
    split
    · exact .start ‹_› rfl rfl
    · exact turnOf_wait (by simp [Svc.state, waiting, *]) (hpoll .callall) rfl rfl
    · exact turnOf_wait (r := (s, [])) (by simp [Svc.state, waiting, *]) (hself .callall) rfl rfl
    · exact turnOf_wait (r := (s, [])) (by simp [Svc.state, waiting, *]) (hself .callall) rfl rfl
    · exact .succeed ‹_› rfl rfl
    · exact .fail ‹_› rfl rfl
    · exact .skip (by simp_all [Svc.state, waiting, succeeded, Svc.start, Svc.faild]) rfl rfl
  | callpulse =>
    simp only [machineOf, machineCallpulse]
    split
    · exact .start ‹_› rfl rfl
    · exact turnOf_wait (by simp [Svc.state, waiting, *]) (hpoll .callpulse) rfl rfl
    · exact turnOf_wait (r := (s, [])) (by simp [Svc.state, waiting, *]) (hself .callpulse) rfl rfl
    · exact .succeed ‹_› rfl rfl
    · exact .fail ‹_› rfl rfl
    · exact .skip (by simp_all [Svc.state, waiting, succeeded, Svc.start, Svc.faild]) rfl rfl
  | yt =>
    simp only [machineOf, machineYt]
    split
    · exact .start ‹_› rfl rfl
    · exact turnOf_wait (by simp [Svc.state, waiting, *]) (hpoll .yt) rfl rfl
    · exact turnOf_wait (by simp [Svc.state, waiting, *]) (hpoll .yt) rfl rfl
    · exact .succeed ‹_› rfl rfl
    · exact .fail ‹_› rfl rfl
    · exact .skip (by simp_all [Svc.state, waiting, succeeded, Svc.start, Svc.faild]) rfl rfl
  | yk =>
    simp only [machineOf, machineYk]
    split
    · exact .start ‹_› rfl rfl
    · exact turnOf_wait (by simp [Svc.state, waiting, *]) (hpoll .yk) rfl rfl
    · exact turnOf_wait (by simp [Svc.state, waiting, *]) (hpoll .yk) rfl rfl
    · exact .succeed ‹_› rfl rfl
    · exact .fail ‹_› rfl rfl
    · exact .skip (by simp_all [Svc.state, waiting, succeeded, Svc.start, Svc.faild]) rfl rfl

/-! ### A whole turn -/

/-- The time of a service is nobody else's. -/
theorem overdue_machineOf {w : Svc} (h : v ≠ w) (clock : Clock) :
    overdue clock (machineOf c clock w s).1.time v = overdue clock s.time v := by
  have hpoll : (pollTack c s).1.time = s.time := (pollTack_keeps .callall).2.1
  cases w with
  | callall =>
    simp only [machineOf, machineCallall]
    split
    · cases v <;> first | rfl | exact absurd rfl h
    · split <;> exact congrArg (overdue clock · v) hpoll
    · split <;> rfl
    · split <;> rfl
    · rfl
    · rfl
    · rfl
  | callpulse =>
    simp only [machineOf, machineCallpulse]
    split
    · cases v <;> first | rfl | exact absurd rfl h
    · split <;> exact congrArg (overdue clock · v) hpoll
    · split <;> rfl
    · cases v <;> rfl
    · rfl
    · rfl
  | yt =>
    simp only [machineOf, machineYt]
    split
    · cases v <;> first | rfl | exact absurd rfl h
    · split <;> exact congrArg (overdue clock · v) hpoll
    · split <;> exact congrArg (overdue clock · v) hpoll
    · rfl
    · rfl
    · rfl
  | yk =>
    simp only [machineOf, machineYk]
    split
    · cases v <;> first | rfl | exact absurd rfl h
    · split <;> exact congrArg (overdue clock · v) hpoll
    · split <;> exact congrArg (overdue clock · v) hpoll
    · rfl
    · rfl
    · rfl

/-- A turn of the service between pieces that leave it alone. -/
theorem TurnOf.frame {clock : Clock} {s' : Core} {r r' : Core × List Act} (h : TurnOf c v clock s' r')
    (hs : v.state s'.stat = v.state s.stat) (ht : overdue clock s'.time v = overdue clock s.time v)
    (hr : v.state r.1.stat = v.state r'.1.stat) (hrep : v.reports r.2 = v.reports r'.2) : TurnOf c v clock s r := by
  cases h with
  | start h1 h2 h3 => exact .start (hs ▸ h1) (hr.trans h2) (hrep.trans h3)
  | wait h1 h2 h3 => exact .wait (hs ▸ h1) (by rw [hr, h2, ht, hs]) (hrep.trans h3)
  | succeed h1 h2 h3 => exact .succeed (hs ▸ h1) (hr.trans h2) (hrep.trans h3)
  | fail h1 h2 h3 => exact .fail (hs ▸ h1) (hr.trans h2) (hrep.trans h3)
  | skip h1 h2 h3 => exact .skip (hs ▸ h1) (by rw [hr, h2, hs]) (hrep.trans h3)

/-- The services in the order of a turn. -/
def turn : List Svc := [.callall, .callpulse, .yt, .yk]

/-- The turn of one service, as a step of a run. -/
def turnStep (c : Conf) (clock : Clock) (s : Core) (v : Svc) : Core × List Act := machineOf c clock v s

theorem leaves_turn (clock : Clock) {vs : List Svc} (hv : v ∉ vs) (s : Core) :
    Leaves v s (run (turnStep c clock) s vs) := by
  induction vs generalizing s with
  | nil => exact leaves_skip
  | cons w vs ih =>
    have hw : v ≠ w := fun h => hv (by rw [h]; exact List.mem_cons_self)
    have hstep : Leaves v s (turnStep c clock s w) := leaves_machineOf hw clock
    exact hstep.seq (ih (fun h => hv (List.mem_cons_of_mem w h)) _)

/-- **A turn over several services** is one turn for each of them. -/
theorem turnOf_turn (clock : Clock) {vs : List Svc} (hn : vs.Nodup) (hv : v ∈ vs) (s : Core) :
    TurnOf c v clock s (run (turnStep c clock) s vs) := by
  induction vs generalizing s with
  | nil => exact absurd hv List.not_mem_nil
  | cons w vs ih =>
    rw [run_cons]
    by_cases hw : v = w
    · subst hw
      obtain ⟨h1, h2⟩ := leaves_turn (c := c) clock (List.nodup_cons.mp hn).1 (turnStep c clock s v).1
      refine (turnOf_machineOf clock v).frame rfl rfl h1 ?_
      rw [Svc.reports_append, h2, List.append_nil]
      rfl
    · have hstep : Leaves v s (turnStep c clock s w) := leaves_machineOf hw clock
      refine (ih (List.nodup_cons.mp hn).2 ((List.mem_cons.mp hv).resolve_left hw) _).frame hstep.1
        (overdue_machineOf hw clock) rfl ?_
      rw [Svc.reports_append, hstep.2, List.nil_append]

/-- **A turn of the machines** on a link that is idle. -/
theorem turnOf_stateMachine (clock : Clock) (hi : (machineWork c clock.work clock.work' s).1.stat.init = .linkIdle) :
    TurnOf c v clock s (stateMachine c clock s) := by
  have hwork : v.state (machineWork c clock.work clock.work' s).1.stat = v.state s.stat ∧
      overdue clock (machineWork c clock.work clock.work' s).1.time v = overdue clock s.time v ∧
      v.reports (machineWork c clock.work clock.work' s).2 = [] := by
    have hconn : v.reports (serv c .connected) = [] := reports_serv c v (by cases v <;> decide)
    unfold machineWork at hi ⊢
    split at hi
    · cases hi
    · cases hi
    · split
      · exact ⟨by cases v <;> rfl, by cases v <;> rfl, hconn⟩
      · exact ⟨rfl, rfl, rfl⟩
    · cases hi
    · cases hi
    · split
      · exact ⟨rfl, by cases v <;> rfl, rfl⟩
      · exact ⟨rfl, rfl, rfl⟩
    · exact ⟨rfl, rfl, rfl⟩
  have hsm : stateMachine c clock s =
      ((run (turnStep c clock) (machineWork c clock.work clock.work' s).1 turn).1,
        (machineWork c clock.work clock.work' s).2 ++
          (run (turnStep c clock) (machineWork c clock.work clock.work' s).1 turn).2) :=
    if_neg (not_not.mpr hi)
  have hv : v ∈ turn := by cases v <;> decide
  rw [hsm]
  refine (turnOf_turn clock (by decide) hv _).frame hwork.1 hwork.2.1 rfl ?_
  rw [Svc.reports_append, hwork.2.2, List.nil_append]

/-- The link machine leaves the link idle. -/
theorem machineWork_idle_iff (now now' : Int) : (machineWork c now now' s).1.stat.init = .linkIdle ↔
    s.stat.init = .linkIdle ∨ s.stat.init = .linkConnectOk ∧ s.tack = true := by
  unfold machineWork
  split
  next h => exact iff_of_false nofun (by rw [h]; rintro (h' | ⟨h', -⟩) <;> cases h')
  next h => exact iff_of_false nofun (by rw [h]; rintro (h' | ⟨h', -⟩) <;> cases h')
  next h =>
    split
    next ht => exact iff_of_true rfl (Or.inr ⟨h, ht⟩)
    next ht => exact iff_of_false (by rw [h]; nofun) (by rw [h]; rintro (h' | ⟨-, h'⟩) <;> first | cases h' | exact ht h')
  next h => exact iff_of_false nofun (by rw [h]; rintro (h' | ⟨h', -⟩) <;> cases h')
  next h => exact iff_of_false nofun (by rw [h]; rintro (h' | ⟨h', -⟩) <;> cases h')
  next h => exact iff_of_true (by split <;> exact h) (Or.inl h)
  next h1 h2 h3 h4 h5 h6 => exact iff_of_false h6 (by rintro (h' | ⟨h', -⟩); exacts [h6 h', h3 h'])

/-! ### What is asked of a step -/

/-- The service a confirmation is for. -/
def svcOf (m : Mem) : Option Svc :=
  match AsduType.ofCode (Fld.type m) with
  | some .cIcNa1 => some .callall
  | some .cCiNa1 => some .callpulse
  | some .cScNa1 | some .cDcNa1 => some .yk
  | some .cSeNa1 | some .cSeNc1 => some .yt
  | _ => none

/-- The causes that refuse a frame as unknown. -/
def unknown : List Nat := [Cot.unknowType, Cot.unknowCot, Cot.unknowAddr, Cot.unknowInf]

/-- A negative confirmation for a service. -/
def Negative (m : Mem) (v : Svc) : Prop :=
  UserData m ∧ svcOf m = some v ∧ (Fld.pn m = true ∨ Fld.reason m ∈ unknown)

/-- The service is under way. -/
def Running (s : Core) (v : Svc) : Prop := v.state s.stat ≠ v.idle ∧ v.state s.stat ≠ v.faild

/-- The frame a step takes in, when it has user data. -/
def takenIn (t : Station Core) : Event → Option Mem
  | .recv read _ =>
    match t.taken read with
    | .on68 m _ => some m
    | _ => none
  | _ => none

/-- The step is a turn of the machines of the services: the link is idle, or about to be. -/
def Turn (t : Station Core) : Event → Prop
  | .machine _ =>
    t.looping = false ∧ (t.core.stat.init = .linkIdle ∨ t.core.stat.init = .linkConnectOk ∧ t.core.tack = true)
  | _ => False

/-- The step is a turn that finds the time of a waiting service over. -/
def Expires (v : Svc) (t : Station Core) (e : Event) : Prop :=
  Turn t e ∧ v.state t.core.stat ∈ waiting v ∧
    match e with
    | .machine clock => overdue clock t.core.time v = true
    | _ => False

/-- A request the API accepts. -/
def Accepted (t : Station Core) : Event → Prop
  | .yk nodes | .yt nodes => nodes.val ≠ [] ∧ t.core.stat.init = .linkIdle
  | _ => True

/-- **What is asked of a step** for a service. -/
structure Reported (c : Conf) (v : Svc) (t : Station Core) (e : Event) : Prop where
  domain : v.state (step c t e).1.core.stat ∈ v.own
  negative : ∀ m, takenIn t e = some m → Negative m v → Running t.core v →
    v.state (step c t e).1.core.stat = v.faild
  expiry : Expires v t e → v.state (step c t e).1.core.stat = v.faild
  report : Turn t e → v.state t.core.stat = v.faild →
    v.state (step c t e).1.core.stat = v.idle ∧ v.reports (step c t e).2 = v.reports (serv c v.failure)
  stay : ¬ Turn t e → v.state t.core.stat = v.faild → v.state (step c t e).1.core.stat = v.faild
  once : v.failure ∈ v.reports (step c t e).2 → Turn t e ∧ v.state t.core.stat = v.faild
  restart : e.request = some v → Accepted t e → v.state t.core.stat = v.idle →
    v.state (step c t e).1.core.stat = v.start

/-- A frame that goes wrong: one that moves a service whose failure is not yet reported; for a command one with a
negative sign or with a cause other than confirmation and termination; for an interrogation a negative confirmation
while it is under way. -/
def FrameOverlooked (s : Core) (m : Mem) (v : Svc) : Prop :=
  v.state s.stat = v.faild ∧ Starts m v ∨
    match v with
    | .yt | .yk => svcOf m = some v ∧ (Fld.pn m = true ∨ Fld.reason m ∉ [Cot.actcon, Cot.actterm])
    | .callall | .callpulse => svcOf m = some v ∧ (Fld.pn m = true ∨ Fld.reason m ∈ unknown) ∧ Running s v

/-- **The steps that go wrong**: such a frame, the expiry of an interrogation, and a request that comes before the
failure of the service is reported. -/
def Overlooked (v : Svc) (t : Station Core) (e : Event) : Prop :=
  (∃ m, takenIn t e = some m ∧ UserData m ∧ FrameOverlooked t.core m v) ∨
    (v = .callall ∨ v = .callpulse) ∧ Expires v t e ∨
    e.request = some v ∧ Accepted t e ∧ v.state t.core.stat = v.faild

/-! ### Frames -/

section Frames

variable (m : Mem)

/-- A confirmation of a command leads to a state of its service when it is positive and of a known cause. -/
theorem cmdAssigned_mem_iff {exec success : Iec10xStat} {failure : Service} {own : List Iec10xStat}
    (he : exec ∈ own) (hs : success ∈ own) (hf : Iec10xStat.ofService failure ∉ own) :
    cmdAssigned m exec success failure ∈ own ↔
      ¬ (Fld.pn m = true ∨ Fld.reason m ∉ [Cot.actcon, Cot.actterm]) := by
  unfold cmdAssigned
  cases hp : Fld.pn m with
  | true => simp [hf]
  | false =>
    by_cases hc : Fld.reason m = Cot.actcon
    · simp [hc, he]
    · by_cases ht : Fld.reason m = Cot.actterm
      · have hne : ¬ Cot.actterm = Cot.actcon := by decide
        simp [ht, hs, hne]
      · simp [hc, ht, hf]

theorem cmdAssigned_ne {exec success x : Iec10xStat} {failure : Service} (he : exec ≠ x) (hs : success ≠ x)
    (hf : Iec10xStat.ofService failure ≠ x) : cmdAssigned m exec success failure ≠ x := by
  unfold cmdAssigned
  split
  · exact hf
  · split
    · exact he
    · split
      · exact hs
      · exact hf

theorem callAssigned_mem {qualifier : Nat} {confirmed success x : Iec10xStat}
    (h : callAssigned m qualifier confirmed success = some x) : x = confirmed ∨ x = success := by
  unfold callAssigned at h
  split at h
  · cases h
  · split at h
    · split at h
      · exact Or.inl (Option.some.inj h).symm
      · cases h
    · split at h
      · exact Or.inr (Option.some.inj h).symm
      · cases h

/-- Where a frame of a command leads. -/
theorem assigned_yk (h : svcOf m = some .yk) :
    assigned m = some (.yk, cmdAssigned m .ykCmdExec .ykCmdSuccess .ykCmdFaild) := by
  unfold svcOf at h
  unfold assigned
  cases ht : AsduType.ofCode (Fld.type m) with
  | none =>
    rw [ht] at h
    cases h
  | some t =>
    rw [ht] at h
    cases t <;> first | rfl | cases h

theorem assigned_yt (h : svcOf m = some .yt) :
    assigned m = some (.yt, cmdAssigned m .ytCmdExec .ytCmdSuccess .ytCmdFaild) := by
  unfold svcOf at h
  unfold assigned
  cases ht : AsduType.ofCode (Fld.type m) with
  | none =>
    rw [ht] at h
    cases h
  | some t =>
    rw [ht] at h
    cases t <;> first | rfl | cases h

/-- Every frame of a command moves its service, and no other frame does. -/
theorem starts_cmd_iff : (Starts m .yk ↔ svcOf m = some .yk) ∧ (Starts m .yt ↔ svcOf m = some .yt) := by
  unfold Starts typeIn svcOf
  cases ht : AsduType.ofCode (Fld.type m) with
  | none => simp
  | some t => cases t <;> simp

/-- Where a frame leads that moves an interrogation. -/
theorem assigned_call {x : Iec10xStat} :
    (assigned m = some (.callall, x) → x ∈ [Iec10xStat.callAllYx, .callAllYc, .callAllSuccess]) ∧
      (assigned m = some (.callpulse, x) → x ∈ [Iec10xStat.callPulseYm, .callPulseSuccess]) := by
  unfold assigned
  cases ht : AsduType.ofCode (Fld.type m) with
  | none => exact ⟨nofun, nofun⟩
  | some t =>
    cases t with
    | mMeNa1 =>
      refine ⟨fun h => ?_, fun h => ?_⟩
      · dsimp only at h
        split at h
        · cases h
          decide
        · cases h
      · dsimp only at h
        split at h <;> cases h
    | mItNa1 | mItTa1 | cIcNa1 =>
      refine ⟨fun h => ?_, fun h => ?_⟩
      · obtain ⟨y, hy, hyx⟩ := Option.map_eq_some_iff.mp h
        cases hyx
        rcases callAssigned_mem m hy with rfl | rfl <;> decide
      · obtain ⟨y, hy, hyx⟩ := Option.map_eq_some_iff.mp h
        cases hyx
    | cCiNa1 =>
      refine ⟨fun h => ?_, fun h => ?_⟩
      · obtain ⟨y, hy, hyx⟩ := Option.map_eq_some_iff.mp h
        cases hyx
      · obtain ⟨y, hy, hyx⟩ := Option.map_eq_some_iff.mp h
        cases hyx
        rcases callAssigned_mem m hy with rfl | rfl <;> decide
    | _ => exact ⟨nofun, nofun⟩

/-- No frame leads to the failed state. -/
theorem assigned_ne_faild {x : Iec10xStat} (h : assigned m = some (v, x)) : x ≠ v.faild := by
  cases v with
  | callall =>
    have := (assigned_call m).1 h
    rintro rfl
    exact absurd this (by decide)
  | callpulse =>
    have := (assigned_call m).2 h
    rintro rfl
    exact absurd this (by decide)
  | yt =>
    have hs := (starts_cmd_iff m).2.mp ((assigned_iff m .yt).mp ⟨x, h⟩)
    rw [assigned_yt m hs] at h
    cases h
    exact cmdAssigned_ne m (by decide) (by decide) (by decide)
  | yk =>
    have hs := (starts_cmd_iff m).1.mp ((assigned_iff m .yk).mp ⟨x, h⟩)
    rw [assigned_yk m hs] at h
    cases h
    exact cmdAssigned_ne m (by decide) (by decide) (by decide)

/-- A frame that does not move the service. -/
theorem state_assign_of_not_starts (h : ¬ Starts m v) : v.state (assign (assigned m) s).stat = v.state s.stat := by
  cases ha : assigned m with
  | none => rfl
  | some wx =>
    obtain ⟨w, x⟩ := wx
    have hw : v ≠ w := fun hv => h ((assigned_iff m v).mp ⟨x, by rw [ha, hv]⟩)
    exact Svc.state_set_of_ne hw x s.stat

/-- A cause that refuses a frame is neither a confirmation nor a termination. -/
theorem bad_of_unknown (h : Fld.pn m = true ∨ Fld.reason m ∈ unknown) :
    Fld.pn m = true ∨ Fld.reason m ∉ [Cot.actcon, Cot.actterm] := by
  refine h.imp_right fun hr hb => ?_
  simp only [unknown, Cot.unknowType, Cot.unknowCot, Cot.unknowAddr, Cot.unknowInf, Cot.actcon, Cot.actterm,
    List.mem_cons, List.not_mem_nil, or_false] at hr hb
  omega

/-- A refused frame is one of the bad ones. -/
theorem refused_iff {refused running bad failed : Prop} (h : refused → bad) :
    (¬ bad ∧ (refused → ¬ running) ∧ ¬ failed) ↔ ¬ (failed ∨ bad) := by
  constructor
  · rintro ⟨hbad, -, hfailed⟩ (hf | hb)
    · exact hfailed hf
    · exact hbad hb
  · intro hn
    exact ⟨fun hb => hn (Or.inr hb), fun hr _ => hn (Or.inr (h hr)), fun hf => hn (Or.inl hf)⟩

/-- **A frame and a service**. -/
theorem frame_reported_iff (hd : v.state s.stat ∈ v.own) (hu : UserData m) :
    (v.state (assign (assigned m) s).stat ∈ v.own ∧
      (Negative m v → Running s v → v.state (assign (assigned m) s).stat = v.faild) ∧
      (v.state s.stat = v.faild → v.state (assign (assigned m) s).stat = v.faild)) ↔ ¬ FrameOverlooked s m v := by
  by_cases hst : Starts m v
  · obtain ⟨x, hx⟩ := (assigned_iff m v).mpr hst
    have hx' : v.state (assign (assigned m) s).stat = x := by
      rw [hx]
      exact Svc.state_set x s.stat v
    have hne := assigned_ne_faild m hx
    rw [hx']
    cases v with
    | callall =>
      have hown : x ∈ Svc.own .callall := by
        have := (assigned_call m).1 hx
        simp only [List.mem_cons, List.not_mem_nil, or_false] at this
        rcases this with rfl | rfl | rfl <;> decide
      simp only [FrameOverlooked, Negative, hown, hne, hst, hu, true_and, imp_false, not_or, and_comm, not_and]
      tauto
    | callpulse =>
      have hown : x ∈ Svc.own .callpulse := by
        have := (assigned_call m).2 hx
        simp only [List.mem_cons, List.not_mem_nil, or_false] at this
        rcases this with rfl | rfl <;> decide
      simp only [FrameOverlooked, Negative, hown, hne, hst, hu, true_and, imp_false, not_or, and_comm, not_and]
      tauto
    | yt =>
      have hsv := (starts_cmd_iff m).2.mp hst
      have hown : x ∈ Svc.own .yt ↔ ¬ (Fld.pn m = true ∨ Fld.reason m ∉ [Cot.actcon, Cot.actterm]) := by
        rw [assigned_yt m hsv] at hx
        cases hx
        exact cmdAssigned_mem_iff m (by decide) (by decide) (by decide)
      simp only [FrameOverlooked, Negative, hown, hne, hst, hsv, hu, true_and, and_true, imp_false]
      exact refused_iff (bad_of_unknown m)
    | yk =>
      have hsv := (starts_cmd_iff m).1.mp hst
      have hown : x ∈ Svc.own .yk ↔ ¬ (Fld.pn m = true ∨ Fld.reason m ∉ [Cot.actcon, Cot.actterm]) := by
        rw [assigned_yk m hsv] at hx
        cases hx
        exact cmdAssigned_mem_iff m (by decide) (by decide) (by decide)
      simp only [FrameOverlooked, Negative, hown, hne, hst, hsv, hu, true_and, and_true, imp_false]
      exact refused_iff (bad_of_unknown m)
  · rw [state_assign_of_not_starts m hst]
    cases v with
    | callall | callpulse =>
      simp only [FrameOverlooked, Negative, hd, hst, hu, true_and, and_false, false_or]
      constructor
      · rintro ⟨h, -⟩ ⟨h1, h2, h3⟩
        exact h3.2 (h ⟨h1, h2⟩ h3)
      · exact fun h => ⟨fun h1 h2 => absurd ⟨h1.1, h1.2, h2⟩ h, id⟩
    | yt =>
      have hsv : svcOf m ≠ some .yt := fun h => hst ((starts_cmd_iff m).2.mpr h)
      simp [FrameOverlooked, Negative, hd, hst, hsv]
    | yk =>
      have hsv : svcOf m ≠ some .yk := fun h => hst ((starts_cmd_iff m).1.mpr h)
      simp [FrameOverlooked, Negative, hd, hst, hsv]

end Frames

/-- What a run keeps to, beside the domain: a failure comes after the start of the link. -/
structure Ready (v : Svc) (s : Core) : Prop where
  domain : v.state s.stat ∈ v.own
  link : s.stat.init ≠ .linkDisconnect ∧ s.stat.init ≠ .linkClose
  started : v.state s.stat = v.faild → s.stat.init ≠ .linkInit

/-! ### Steps -/

section Steps

variable {t : Station Core} {e : Event}

/-- A step that is no turn, no request of the service and no report. -/
theorem reported_iff_of_quiet (hturn : ¬ Turn t e) (hreq : e.request ≠ some v)
    (hrep : v.reports (step c t e).2 = []) : Reported c v t e ↔ v.state (step c t e).1.core.stat ∈ v.own ∧
      (∀ m, takenIn t e = some m → Negative m v → Running t.core v → v.state (step c t e).1.core.stat = v.faild) ∧
      (v.state t.core.stat = v.faild → v.state (step c t e).1.core.stat = v.faild) := by
  constructor
  · exact fun h => ⟨h.domain, h.negative, h.stay hturn⟩
  · rintro ⟨h1, h2, h3⟩
    exact ⟨h1, h2, fun h => absurd h.1 hturn, fun h => absurd h hturn, fun _ => h3,
      fun h => absurd (hrep ▸ h) List.not_mem_nil, fun h => absurd h hreq⟩

/-- A step that leaves the service alone. -/
theorem reported_of_leaves (hturn : ¬ Turn t e) (hreq : e.request ≠ some v) (htaken : takenIn t e = none)
    (hd : v.state t.core.stat ∈ v.own) (hs : v.state (step c t e).1.core.stat = v.state t.core.stat)
    (hrep : v.reports (step c t e).2 = []) : Reported c v t e ∧ ¬ Overlooked v t e := by
  refine ⟨(reported_iff_of_quiet hturn hreq hrep).mpr ⟨by rw [hs]; exact hd, fun m hm => ?_, hs.trans⟩, ?_⟩
  · rw [htaken] at hm
    cases hm
  · rintro (⟨m, hm, -⟩ | ⟨-, h⟩ | ⟨h, -⟩)
    · rw [htaken] at hm
      cases hm
    · exact hturn h.1
    · exact hreq h

theorem reported_recv_iff (read : Read) (sendBuf : UInt8) (hd : v.state t.core.stat ∈ v.own) :
    Reported c v t (.recv read sendBuf) ↔ ¬ Overlooked v t (.recv read sendBuf) := by
  have hcore := core_recv (handlers c sendBuf) read t
  have hacts := acts_recv (handlers c sendBuf) read t
  have hturn : ¬ Turn t (.recv read sendBuf) := id
  have hreq : (Event.recv read sendBuf).request ≠ some v := nofun
  cases hf : t.taken read with
  | nothing =>
    rw [hf] at hcore hacts
    have h := reported_of_leaves (c := c) (e := .recv read sendBuf) hturn hreq (by simp only [takenIn, hf]) hd
      (congrArg (fun s : Core => v.state s.stat) hcore) (congrArg v.reports hacts)
    exact iff_of_true h.1 h.2
  | on10 m =>
    rw [hf] at hcore hacts
    have hleaves : v.state ((on10 c t.core).run m).1.stat = v.state t.core.stat ∧
        v.reports (.rx (m.slice 0 stableLen) :: ((on10 c t.core).run m).2) = [] := by
      rw [run_on10]
      split
      · exact ⟨by cases v <;> rfl, rfl⟩
      · split <;> exact ⟨rfl, rfl⟩
    have h := reported_of_leaves (c := c) (e := .recv read sendBuf) hturn hreq (by simp only [takenIn, hf]) hd
      ((congrArg (fun s : Core => v.state s.stat) hcore).trans hleaves.1)
      ((congrArg v.reports hacts).trans hleaves.2)
    exact iff_of_true h.1 h.2
  | on68 m len =>
    rw [hf] at hcore hacts
    have hserved := served_on68 c t.core m sendBuf len
    have htaken : takenIn t (.recv read sendBuf) = some m := by simp only [takenIn, hf]
    have hrep : v.reports (step c t (.recv read sendBuf)).2 = [] :=
      (congrArg v.reports hacts).trans (hserved.reports v)
    have hs : v.state (step c t (.recv read sendBuf)).1.core.stat =
        v.state (assign (if UserData m then assigned m else none) t.core).stat :=
      (congrArg (fun s : Core => v.state s.stat) hcore).trans (hserved.state v)
    rw [reported_iff_of_quiet hturn hreq hrep, hs]
    have hover : Overlooked v t (.recv read sendBuf) ↔ UserData m ∧ FrameOverlooked t.core m v := by
      constructor
      · rintro (⟨m', hm, h⟩ | ⟨-, h⟩ | ⟨h, -⟩)
        · rw [htaken] at hm
          exact Option.some.inj hm ▸ h
        · exact absurd h.1 hturn
        · exact absurd h hreq
      · exact fun h => Or.inl ⟨m, htaken, h⟩
    simp only [hover, htaken, Option.some.injEq, forall_eq']
    by_cases hu : UserData m
    · rw [if_pos hu, frame_reported_iff m hd hu, and_iff_right hu]
    · rw [if_neg hu]
      exact iff_of_true ⟨hd, fun h => absurd h.1 hu, id⟩ (fun h => hu h.1)

/-- What the constants of a service are to each other. -/
theorem constants (v : Svc) : v.start ∉ waiting v ∧ succeeded v ∉ waiting v ∧ v.faild ∉ waiting v ∧
    v.start ≠ v.faild ∧ succeeded v ≠ v.faild ∧ confirm v ∈ v.own ∧ v.idle ∈ v.own ∧ v.faild ∈ v.own ∧
    v.success ≠ v.failure ∧ v.idle ≠ v.faild ∧ v.start ∈ v.own := by
  cases v <;> decide

/-- The report of a success is not that of a failure. -/
theorem failure_notMem_success : v.failure ∉ v.reports (serv c v.success) := by
  unfold serv
  split
  · cases v <;> decide
  · exact List.not_mem_nil

theorem step_turn {clock : Clock} (hl : t.looping = false) : step c t (.machine clock) =
    ({ t with core := (stateMachine c clock t.core).1 }, (stateMachine c clock t.core).2) := by
  show t.machine (stateMachine c clock) = _
  rw [Station.machine, if_neg (by rw [hl]; exact Bool.false_ne_true)]
  rfl

/-- What is asked of a turn of the machine. -/
theorem reported_turn {clock : Clock} (hturn : Turn t (.machine clock))
    (hdomain : v.state (stateMachine c clock t.core).1.stat ∈ v.own)
    (hexpiry : Expires v t (.machine clock) → v.state (stateMachine c clock t.core).1.stat = v.faild)
    (hreport : v.state t.core.stat = v.faild → v.state (stateMachine c clock t.core).1.stat = v.idle ∧
      v.reports (stateMachine c clock t.core).2 = v.reports (serv c v.failure))
    (honce : v.failure ∈ v.reports (stateMachine c clock t.core).2 → v.state t.core.stat = v.faild) :
    Reported c v t (.machine clock) := by
  have hstep : step c t (.machine clock) = _ := step_turn hturn.1
  refine ⟨?_, nofun, ?_, fun _ => ?_, fun h => absurd hturn h, ?_, nofun⟩
  · rw [hstep]
    exact hdomain
  · rw [hstep]
    exact hexpiry
  · rw [hstep]
    exact hreport
  · rw [hstep]
    exact fun h => ⟨hturn, honce h⟩

/-- The turns that go wrong. -/
theorem overlooked_turn_iff {clock : Clock} : Overlooked v t (.machine clock) ↔
    (v = .callall ∨ v = .callpulse) ∧ Expires v t (.machine clock) := by
  constructor
  · rintro (⟨m, hm, -⟩ | h | ⟨h, -⟩)
    · cases hm
    · exact h
    · cases h
  · exact fun h => Or.inr (Or.inl h)

/-- A turn while a service waits: an expired command has failed, an expired interrogation is in no state of its own. -/
theorem reported_wait_iff {clock : Clock} (hd : v.state t.core.stat ∈ v.own) (hturn : Turn t (.machine clock))
    (h : v.state t.core.stat ∈ waiting v)
    (hs : v.state (stateMachine c clock t.core).1.stat =
      if overdue clock t.core.time v then onTimeout v else v.state t.core.stat)
    (hr : v.reports (stateMachine c clock t.core).2 = []) :
    Reported c v t (.machine clock) ↔ ¬ Overlooked v t (.machine clock) := by
  obtain ⟨-, -, hfaild, -, -, -, -, hown, -⟩ := constants v
  have hnf : v.state t.core.stat ≠ v.faild := fun h' => hfaild (h' ▸ h)
  have honce : v.failure ∈ v.reports (stateMachine c clock t.core).2 → v.state t.core.stat = v.faild := by
    rw [hr]
    exact fun h' => absurd h' List.not_mem_nil
  rw [overlooked_turn_iff]
  by_cases ho : overdue clock t.core.time v = true
  · rw [if_pos ho] at hs
    by_cases hv : v = .callall ∨ v = .callpulse
    · refine iff_of_false (fun h' => ?_) (fun h' => h' ⟨hv, hturn, h, ho⟩)
      have hd' := h'.domain
      rw [step_turn hturn.1, hs] at hd'
      rcases hv with rfl | rfl <;> exact absurd hd' (by decide)
    · have hf : onTimeout v = v.faild := by
        cases v with
        | callall => exact absurd (Or.inl rfl) hv
        | callpulse => exact absurd (Or.inr rfl) hv
        | yt | yk => rfl
      rw [hf] at hs
      refine iff_of_true (reported_turn hturn ?_ (fun _ => hs) (fun h' => absurd h' hnf) honce) fun h' => hv h'.1
      rw [hs]
      exact hown
  · rw [if_neg ho] at hs
    refine iff_of_true (reported_turn hturn ?_ (fun h' => absurd h'.2.2 ho) (fun h' => absurd h' hnf) honce)
      fun h' => ho h'.2.2.2
    rw [hs]
    exact hd

theorem reported_turn_iff {clock : Clock} (hd : v.state t.core.stat ∈ v.own) (hl : t.looping = false)
    (hi : (machineWork c clock.work clock.work' t.core).1.stat.init = .linkIdle) :
    Reported c v t (.machine clock) ↔ ¬ Overlooked v t (.machine clock) := by
  obtain ⟨k1, k2, k3, k4, k5, k6, k7, -⟩ := constants v
  have hturn : Turn t (.machine clock) := ⟨hl, (machineWork_idle_iff clock.work clock.work').mp hi⟩
  have hnot : v.state t.core.stat ∉ waiting v → ¬ Expires v t (.machine clock) := fun h h' => h h'.2.1
  have hnone : v.reports (stateMachine c clock t.core).2 = [] →
      v.failure ∈ v.reports (stateMachine c clock t.core).2 → v.state t.core.stat = v.faild := by
    intro hr
    rw [hr]
    exact fun h' => absurd h' List.not_mem_nil
  cases turnOf_stateMachine (c := c) (v := v) clock hi with
  | wait h hs hr => exact reported_wait_iff hd hturn h hs hr
  | start h hs hr =>
    have hw := hnot (h ▸ k1)
    rw [overlooked_turn_iff]
    refine iff_of_true (reported_turn hturn ?_ (fun h' => absurd h' hw) (fun h' => absurd (h ▸ h') k4) (hnone hr))
      fun h' => hw h'.2
    rw [hs]
    exact k6
  | succeed h hs hr =>
    have hw := hnot (h ▸ k2)
    rw [overlooked_turn_iff]
    refine iff_of_true (reported_turn hturn ?_ (fun h' => absurd h' hw) (fun h' => absurd (h ▸ h') k5) fun h' => ?_)
      fun h' => hw h'.2
    · rw [hs]
      exact k7
    · exact absurd (hr ▸ h') failure_notMem_success
  | fail h hs hr =>
    have hw := hnot (h ▸ k3)
    rw [overlooked_turn_iff]
    refine iff_of_true (reported_turn hturn ?_ (fun h' => absurd h' hw) (fun _ => ⟨hs, hr⟩) fun _ => h)
      fun h' => hw h'.2
    rw [hs]
    exact k7
  | skip h hs hr =>
    simp only [List.mem_cons, not_or] at h
    have hw := hnot h.2.2.2
    rw [overlooked_turn_iff]
    refine iff_of_true (reported_turn hturn ?_ (fun h' => absurd h' hw) (fun h' => absurd h' h.1) (hnone hr))
      fun h' => hw h'.2
    rw [hs]
    exact hd

/-- The link machine on a link that is not being closed: the start of the link makes every service idle. -/
theorem machineWork_cases (now now' : Int) (h : s.stat.init ≠ .linkDisconnect ∧ s.stat.init ≠ .linkClose) :
    v.reports (machineWork c now now' s).2 = [] ∧
      ((machineWork c now now' s).1.stat.init ≠ .linkDisconnect ∧
        (machineWork c now now' s).1.stat.init ≠ .linkClose ∧ (machineWork c now now' s).1.stat.init ≠ .linkInit) ∧
      (v.state (machineWork c now now' s).1.stat = v.state s.stat ∨
        s.stat.init = .linkInit ∧ v.state (machineWork c now now' s).1.stat = v.idle) := by
  have hconn : v.reports (serv c .connected) = [] := reports_serv c v (by cases v <;> decide)
  unfold machineWork
  split
  next h' => exact ⟨rfl, ⟨nofun, nofun, nofun⟩, Or.inr ⟨h', by cases v <;> rfl⟩⟩
  next => exact ⟨rfl, ⟨nofun, nofun, nofun⟩, Or.inl (by cases v <;> rfl)⟩
  next h' =>
    split
    · exact ⟨hconn, ⟨nofun, nofun, nofun⟩, Or.inl (by cases v <;> rfl)⟩
    · exact ⟨rfl, ⟨h.1, h.2, by rw [h']; nofun⟩, Or.inl rfl⟩
  next h' => exact absurd h' h.1
  next h' => exact absurd h' h.2
  next h' =>
    have hne : s.stat.init ≠ .linkInit := by rw [h']; nofun
    split
    · exact ⟨rfl, ⟨h.1, h.2, hne⟩, Or.inl rfl⟩
    · exact ⟨rfl, ⟨h.1, h.2, hne⟩, Or.inl rfl⟩
  next h' _ _ _ _ _ => exact ⟨rfl, ⟨h.1, h.2, h'⟩, Or.inl rfl⟩

theorem init_machineOf (clock : Clock) (w : Svc) : (machineOf c clock w s).1.stat.init = s.stat.init := by
  have hpoll : (pollTack c s).1.stat.init = s.stat.init := by
    unfold pollTack
    split <;> rfl
  cases w with
  | callall =>
    simp only [machineOf, machineCallall]
    split
    · rfl
    · split <;> exact hpoll
    · split <;> rfl
    · split <;> rfl
    all_goals rfl
  | callpulse =>
    simp only [machineOf, machineCallpulse]
    split
    · rfl
    · split <;> exact hpoll
    · split <;> rfl
    all_goals rfl
  | yt =>
    simp only [machineOf, machineYt]
    split
    · rfl
    · split <;> exact hpoll
    · split <;> exact hpoll
    all_goals rfl
  | yk =>
    simp only [machineOf, machineYk]
    split
    · rfl
    · split <;> exact hpoll
    · split <;> exact hpoll
    all_goals rfl

theorem init_turn (clock : Clock) (vs : List Svc) (s : Core) :
    (run (turnStep c clock) s vs).1.stat.init = s.stat.init := by
  induction vs generalizing s with
  | nil => rfl
  | cons w vs ih =>
    rw [run_cons]
    exact (ih _).trans (init_machineOf clock w)

/-- The link after a turn. -/
theorem init_stateMachine (clock : Clock) :
    (stateMachine c clock s).1.stat.init = (machineWork c clock.work clock.work' s).1.stat.init := by
  by_cases hi : (machineWork c clock.work clock.work' s).1.stat.init = .linkIdle
  · rw [show stateMachine c clock s = _ from if_neg (not_not.mpr hi)]
    exact init_turn clock turn _
  · rw [show stateMachine c clock s = _ from if_pos hi]

/-- A call of the machines that is no turn. -/
theorem reported_machine_of_not_turn {clock : Clock} (h : Ready v t.core) (hturn : ¬ Turn t (.machine clock)) :
    Reported c v t (.machine clock) ∧ ¬ Overlooked v t (.machine clock) := by
  have hreq : (Event.machine clock).request ≠ some v := nofun
  by_cases hl : t.looping = true
  · have hstep : step c t (.machine clock) = (t, []) := if_pos hl
    exact reported_of_leaves hturn hreq rfl h.domain (by rw [hstep]) (by rw [hstep]; rfl)
  have hi : (machineWork c clock.work clock.work' t.core).1.stat.init ≠ .linkIdle :=
    fun hi => hturn ⟨Bool.eq_false_iff.mpr hl, (machineWork_idle_iff _ _).mp hi⟩
  have hstep : step c t (.machine clock) = ({ t with core := (machineWork c clock.work clock.work' t.core).1 },
      (machineWork c clock.work clock.work' t.core).2) := by
    show t.machine (stateMachine c clock) = _
    rw [Station.machine, if_neg hl, Station.call, show stateMachine c clock t.core = _ from if_pos hi]
  obtain ⟨hrep, -, hs⟩ := machineWork_cases (c := c) (v := v) clock.work clock.work' h.link
  rcases hs with hs | ⟨hinit, hidle⟩
  · exact reported_of_leaves hturn hreq rfl h.domain (by rw [hstep]; exact hs) (by rw [hstep]; exact hrep)
  · have hnf : v.state t.core.stat ≠ v.faild := fun hf => h.started hf hinit
    refine ⟨(reported_iff_of_quiet hturn hreq (by rw [hstep]; exact hrep)).mpr ⟨?_, nofun, fun hf => absurd hf hnf⟩, ?_⟩
    · rw [hstep]
      exact hidle ▸ (constants v).2.2.2.2.2.2.1
    · rintro (⟨m, hm, -⟩ | ⟨-, he⟩ | ⟨hr, -⟩)
      · cases hm
      · exact hturn he.1
      · exact hreq hr

/-- **A call of the API**: refused, or its service is set to its start. -/
theorem stat_request {w : Svc} (hreq : e.request = some w) : (∀ v : Svc, v.reports (step c t e).2 = []) ∧
    (Accepted t e ∧ (step c t e).1.core.stat = w.set w.start t.core.stat ∨
      ¬ Accepted t e ∧ (step c t e).1.core.stat = t.core.stat) := by
  cases e with
  | recv read sendBuf => cases hreq
  | machine clock => cases hreq
  | callAll junk =>
    cases hreq
    exact ⟨fun v => rfl, Or.inl ⟨trivial, rfl⟩⟩
  | callPulse junk =>
    cases hreq
    exact ⟨fun v => rfl, Or.inl ⟨trivial, rfl⟩⟩
  | yk nodes =>
    cases hreq
    have hstep : step c t (.yk nodes) =
        ({ t with core := (buildYk c nodes t.core).1 }, (buildYk c nodes t.core).2) := rfl
    rw [hstep]
    unfold buildYk
    split
    next h => exact ⟨fun v => rfl, Or.inr ⟨fun ha => ha.1 (List.eq_nil_of_length_eq_zero h), rfl⟩⟩
    next h =>
      split
      next hi => exact ⟨fun v => rfl, Or.inr ⟨fun ha => hi ha.2, rfl⟩⟩
      next hi => exact ⟨fun v => rfl, Or.inl ⟨⟨fun hn => h (by rw [hn]; rfl), not_not.mp hi⟩, rfl⟩⟩
  | yt nodes =>
    cases hreq
    have hstep : step c t (.yt nodes) =
        ({ t with core := (buildYt c nodes t.core).1 }, (buildYt c nodes t.core).2) := rfl
    rw [hstep]
    unfold buildYt
    split
    next h => exact ⟨fun v => rfl, Or.inr ⟨fun ha => ha.1 h, rfl⟩⟩
    next first rest h =>
      split
      next hi => exact ⟨fun v => rfl, Or.inr ⟨fun ha => hi ha.2, rfl⟩⟩
      next hi => exact ⟨fun v => rfl, Or.inl ⟨⟨fun hn => absurd (hn.symm.trans h) nofun, not_not.mp hi⟩, rfl⟩⟩

theorem reported_request_iff {w : Svc} (hd : v.state t.core.stat ∈ v.own) (hreq : e.request = some w)
    (hturn : ¬ Turn t e) (htaken : takenIn t e = none) : Reported c v t e ↔ ¬ Overlooked v t e := by
  obtain ⟨-, -, -, k4, -, -, -, -, -, -, k11⟩ := constants v
  obtain ⟨hrep, hs⟩ := stat_request (c := c) (t := t) hreq
  have hnone : ∀ m, takenIn t e = some m → False := fun m hm => by
    rw [htaken] at hm
    cases hm
  by_cases hv : v = w
  · subst hv
    have hover : Overlooked v t e ↔ Accepted t e ∧ v.state t.core.stat = v.faild := by
      constructor
      · rintro (⟨m, hm, -⟩ | ⟨-, he⟩ | h)
        · exact (hnone m hm).elim
        · exact absurd he.1 hturn
        · exact h.2
      · exact fun h => Or.inr (Or.inr ⟨hreq, h⟩)
    rw [hover]
    rcases hs with ⟨ha, hs⟩ | ⟨ha, hs⟩
    · have hs' : v.state (step c t e).1.core.stat = v.start := by rw [hs, Svc.state_set]
      constructor
      · rintro h ⟨-, hf⟩
        exact k4 (hs'.symm.trans (h.stay hturn hf))
      · intro h
        exact ⟨hs' ▸ k11, fun m hm => (hnone m hm).elim, fun he => absurd he.1 hturn, fun ht => absurd ht hturn,
          fun _ hf => absurd ⟨ha, hf⟩ h, fun hm => absurd (hrep v ▸ hm) List.not_mem_nil, fun _ _ _ => hs'⟩
    · exact iff_of_true ⟨by rw [hs]; exact hd, fun m hm => (hnone m hm).elim, fun he => absurd he.1 hturn,
        fun ht => absurd ht hturn, fun _ hf => by rw [hs]; exact hf,
        fun hm => absurd (hrep v ▸ hm) List.not_mem_nil, fun _ ha' => absurd ha' ha⟩ (fun h => ha h.1)
  · have hne : e.request ≠ some v := by
      rw [hreq]
      exact fun h => hv (Option.some.inj h).symm
    have hs' : v.state (step c t e).1.core.stat = v.state t.core.stat := by
      rcases hs with ⟨-, hs⟩ | ⟨-, hs⟩
      · rw [hs]
        exact Svc.state_set_of_ne hv _ _
      · rw [hs]
    have h := reported_of_leaves hturn hne htaken hd hs' (hrep v)
    exact iff_of_true h.1 h.2

/-- **One step**. -/
theorem reported_iff (h : Ready v t.core) : Reported c v t e ↔ ¬ Overlooked v t e := by
  cases e with
  | recv read sendBuf => exact reported_recv_iff read sendBuf h.domain
  | machine clock =>
    by_cases hturn : Turn t (.machine clock)
    · exact reported_turn_iff h.domain hturn.1 ((machineWork_idle_iff _ _).mpr hturn.2)
    · have hq := reported_machine_of_not_turn (c := c) h hturn
      exact iff_of_true hq.1 hq.2
  | callAll junk => exact reported_request_iff h.domain rfl id rfl
  | callPulse junk => exact reported_request_iff h.domain rfl id rfl
  | yk nodes => exact reported_request_iff h.domain rfl id rfl
  | yt nodes => exact reported_request_iff h.domain rfl id rfl

/-- A step that leaves the state of the service, and of the link. -/
theorem Ready.of_eq {s' : Core} (h : Ready v s) (hs : v.state s'.stat = v.state s.stat)
    (hi : s'.stat.init = s.stat.init) : Ready v s' :=
  ⟨hs ▸ h.domain, hi ▸ h.link, fun hf => hi ▸ h.started (hs ▸ hf)⟩

theorem ready_request {w : Svc} (h : Ready v t.core) (hreq : e.request = some w) : Ready v (step c t e).1.core := by
  obtain ⟨-, -, -, k4, -, -, -, -, -, -, k11⟩ := constants v
  obtain ⟨-, hs⟩ := stat_request (c := c) (t := t) hreq
  rcases hs with ⟨-, hs⟩ | ⟨-, hs⟩
  · by_cases hv : v = w
    · subst hv
      have hstart : v.state (step c t e).1.core.stat = v.start := by rw [hs, Svc.state_set]
      refine ⟨hstart ▸ k11, by rw [hs, Svc.init_set]; exact h.link, fun hf => absurd (hstart.symm.trans hf) k4⟩
    · exact h.of_eq (by rw [hs]; exact Svc.state_set_of_ne hv _ _) (by rw [hs, Svc.init_set])
  · exact h.of_eq (by rw [hs]) (by rw [hs])

/-- **The invariant**: a failed service has a link that was started. -/
theorem ready_step (h : Ready v t.core) (hr : Reported c v t e) : Ready v (step c t e).1.core := by
  cases e with
  | recv read sendBuf =>
    have hcore : (step c t (.recv read sendBuf)).1.core = _ := core_recv (handlers c sendBuf) read t
    have hdomain := hr.domain
    rw [hcore] at hdomain ⊢
    cases hf : t.taken read with
    | nothing => exact h
    | on10 m =>
      show Ready v ((on10 c t.core).run m).1
      rw [run_on10]
      split
      · exact ⟨by cases v <;> exact h.domain, ⟨nofun, nofun⟩, nofun⟩
      · split
        · exact h.of_eq rfl rfl
        · exact h
    | on68 m len =>
      rw [hf] at hdomain
      obtain ⟨⟨b, hb⟩, -⟩ := served_on68 c t.core m sendBuf len
      have hinit : ((on68 c t.core sendBuf len).run m).1.stat.init = t.core.stat.init := by
        rw [hb]
        cases if UserData m then assigned m else none with
        | none => rfl
        | some wx => exact Svc.init_set _ _ _
      have hstate : v.state ((on68 c t.core sendBuf len).run m).1.stat =
          v.state (assign (if UserData m then assigned m else none) t.core).stat := by rw [hb]
      have hserve : (Taken.serve (handlers c sendBuf) t.core (.on68 m len)).1 =
          ((on68 c t.core sendBuf len).run m).1 := rfl
      rw [hserve] at hdomain ⊢
      refine ⟨hdomain, hinit ▸ h.link, fun hfail => hinit ▸ h.started ?_⟩
      rw [hstate] at hfail
      by_cases hu : UserData m
      · rw [if_pos hu] at hfail
        cases ha : assigned m with
        | none =>
          rw [ha] at hfail
          exact hfail
        | some wx =>
          obtain ⟨w, x⟩ := wx
          rw [ha] at hfail
          by_cases hw : v = w
          · subst hw
            exact absurd ((Svc.state_set x t.core.stat v).symm.trans hfail) (assigned_ne_faild m ha)
          · exact (Svc.state_set_of_ne hw x t.core.stat).symm.trans hfail
      · rw [if_neg hu] at hfail
        exact hfail
  | machine clock =>
    by_cases hl : t.looping = true
    · rw [show step c t (.machine clock) = (t, []) from if_pos hl]
      exact h
    · have hcore : (step c t (.machine clock)).1.core = (stateMachine c clock t.core).1 := by
        show (t.machine (stateMachine c clock)).1.core = _
        rw [Station.machine, if_neg hl]
        rfl
      obtain ⟨-, ⟨h1, h2, h3⟩, -⟩ := machineWork_cases (c := c) (v := v) clock.work clock.work' h.link
      refine ⟨hr.domain, ?_, fun _ => ?_⟩
      · rw [hcore, init_stateMachine]
        exact ⟨h1, h2⟩
      · rw [hcore, init_stateMachine]
        exact h3
  | callAll junk | callPulse junk | yk nodes | yt nodes => exact ready_request h rfl

end Steps

theorem ready_fresh (v : Svc) : Ready v .fresh := by
  refine ⟨?_, ⟨nofun, nofun⟩, fun h => ?_⟩
  · cases v <;> decide
  · cases v <;> cases h

/-- A remote control of one object. -/
def sampleYk : NodeArr := ⟨[⟨⟨.yk, 0x6001, .sint8⟩, ⟨.replicate 8 1, .replicate 7 0⟩⟩], by decide⟩

/-- The confirmation that refuses it. -/
def refusal : Read :=
  ⟨[0x68, 0x0B, 0x0B, 0x68, 0x08, 1, 0, 45, 1, 0x47, 1, 0, 0x01, 0x60, 0x81, 0x61, 0x16], by decide⟩

end Wow.Iec101.Master
