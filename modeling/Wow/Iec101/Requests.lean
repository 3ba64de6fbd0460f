import Wow.Iec101.Master

/-!
# Wow.Iec101.Requests — what starts a service of the master

A service is to leave its idle state on a request of its own and on nothing else.  The handlers assign the state
of the service without a look at it, so a frame can start one too.

* `Leaves`: what leaves a service alone; the machines of the others do, and its own when it is idle.
* `Starts`: the frames that move an idle service.
-/

namespace Wow.Iec101.Master

open Iec10x

variable {c : Conf} {s : Core} {w : Svc}

/-! ### What leaves a service alone -/

/-- The state of the service is as it was, and nothing is reported for it. -/
def Leaves (w : Svc) (s : Core) (r : Core × List Act) : Prop :=
  w.state r.1.stat = w.state s.stat ∧ w.reports r.2 = []

theorem leaves_skip : Leaves w s (s, []) := ⟨rfl, rfl⟩

/-- One piece after the other. -/
theorem Leaves.seq {r r' : Core × List Act} (h : Leaves w s r) (h' : Leaves w r.1 r') :
    Leaves w s (r'.1, r.2 ++ r'.2) :=
  ⟨h'.1.trans h.1, by rw [Svc.reports_append, h.2, h'.2]; rfl⟩

theorem leaves_andThen {calls : List (Cmd Core)} (h : ∀ f ∈ calls, ∀ s', w.state s'.stat = w.state s.stat →
    Leaves w s' (f s')) : Leaves w s (andThen s calls) := by
  suffices hs : ∀ s', w.state s'.stat = w.state s.stat → Leaves w s' (andThen s' calls) from hs s rfl
  induction calls with
  | nil => exact fun s' _ => leaves_skip
  | cons f calls ih =>
    intro s' hs'
    have hf := h f List.mem_cons_self s' hs'
    exact hf.seq (ih (fun g hg => h g (List.mem_cons_of_mem _ hg)) _ (hf.1.trans hs'))

theorem reports_serv (c : Conf) (w : Svc) {x : Service} (h : ¬ (x = w.success ∨ x = w.failure)) :
    w.reports (serv c x) = [] := by
  unfold serv
  split
  · simp [Svc.reports, h]
  · rfl

/-- The report of one service is none of another. -/
theorem report_ne {v : Svc} (h : w ≠ v) :
    ¬ (v.success = w.success ∨ v.success = w.failure) ∧ ¬ (v.failure = w.success ∨ v.failure = w.failure) := by
  cases v <;> cases w <;> first | exact absurd rfl h | decide

theorem reports_serv_of_ne (c : Conf) {v : Svc} (h : w ≠ v) :
    w.reports (serv c v.success) = [] ∧ w.reports (serv c v.failure) = [] :=
  ⟨reports_serv c w (report_ne h).1, reports_serv c w (report_ne h).2⟩

theorem Served.reports {o : Option (Svc × Iec10xStat)} {r : Core × List Act} (h : Served s o r) (w : Svc) :
    w.reports r.2 = [] := by
  refine Svc.reports_eq_nil fun x hx => ?_
  rcases h.acts _ hx with ⟨n, v, hv⟩ | ⟨f, hf⟩
  · cases hv
  · cases hf

theorem Served.state {o : Option (Svc × Iec10xStat)} {r : Core × List Act} (h : Served s o r) (w : Svc) :
    w.state r.1.stat = w.state (assign o s).stat := by
  obtain ⟨b, hb⟩ := h.core
  rw [hb]

/-! ### The machines -/

/-- The machine of a service, with its reading of the clock. -/
def machineOf (c : Conf) (clock : Clock) : Svc → Cmd Core
  | .callall => machineCallall c clock.callall
  | .callpulse => machineCallpulse c clock.callpulse
  | .yt => machineYt c clock.yt
  | .yk => machineYk c clock.yk

theorem leaves_pollTack : Leaves w s (pollTack c s) := by
  unfold pollTack
  split
  · exact ⟨rfl, rfl⟩
  · exact leaves_skip

theorem leaves_ite {b : Prop} [Decidable b] {r r' : Core × List Act} (h : Leaves w s r) (h' : Leaves w s r') :
    Leaves w s (if b then r else r') := by
  split
  · exact h
  · exact h'

/-- The machine of another service. -/
theorem leaves_machineOf {v : Svc} (h : w ≠ v) (clock : Clock) : Leaves w s (machineOf c clock v s) := by
  have hserv := reports_serv_of_ne c h
  have hset := fun x y => Svc.state_set_of_ne h x y
  have hpoll : Leaves w s (pollTack c s) := leaves_pollTack
  obtain ⟨hp1, hp2⟩ := hpoll
  cases v with
  | callall =>
    simp only [machineOf, machineCallall]
    split
    · exact ⟨hset _ _, rfl⟩
    · exact leaves_ite ⟨(hset _ _).trans hp1, hp2⟩ ⟨hp1, hp2⟩
    · exact leaves_ite ⟨hset _ _, rfl⟩ leaves_skip
    · exact leaves_ite ⟨hset _ _, rfl⟩ leaves_skip
    · exact ⟨hset _ _, hserv.1⟩
    · exact ⟨hset _ _, hserv.2⟩
    · exact leaves_skip
  | callpulse =>
    simp only [machineOf, machineCallpulse]
    split
    · exact ⟨hset _ _, rfl⟩
    · exact leaves_ite ⟨(hset _ _).trans hp1, hp2⟩ ⟨hp1, hp2⟩
    · exact leaves_ite ⟨hset _ _, rfl⟩ leaves_skip
    · exact ⟨hset _ _, hserv.1⟩
    · exact ⟨hset _ _, hserv.2⟩
    · exact leaves_skip
  | yt =>
    simp only [machineOf, machineYt]
    split
    · exact ⟨hset _ _, rfl⟩
    · exact leaves_ite ⟨(hset _ _).trans hp1, hp2⟩ ⟨hp1, hp2⟩
    · exact leaves_ite ⟨(hset _ _).trans hp1, hp2⟩ ⟨hp1, hp2⟩
    · exact ⟨hset _ _, hserv.1⟩
    · exact ⟨hset _ _, hserv.2⟩
    · exact leaves_skip
  | yk =>
    simp only [machineOf, machineYk]
    split
    · exact ⟨hset _ _, rfl⟩
    · exact leaves_ite ⟨(hset _ _).trans hp1, hp2⟩ ⟨hp1, hp2⟩
    · exact leaves_ite ⟨(hset _ _).trans hp1, hp2⟩ ⟨hp1, hp2⟩
    · exact ⟨hset _ _, hserv.1⟩
    · exact ⟨hset _ _, hserv.2⟩
    · exact leaves_skip

/-- The machine of an idle service does nothing. -/
theorem machineOf_idle (clock : Clock) (h : w.state s.stat = w.idle) : machineOf c clock w s = (s, []) := by
  cases w with
  | callall =>
    have h' : s.stat.callall = .callAllIdle := h
    simp only [machineOf, machineCallall, h']
  | callpulse =>
    have h' : s.stat.callpulse = .callPulseIdle := h
    simp only [machineOf, machineCallpulse, h']
  | yt =>
    have h' : s.stat.yt = .ytCmdIdle := h
    simp only [machineOf, machineYt, h']
  | yk =>
    have h' : s.stat.yk = .ykCmdIdle := h
    simp only [machineOf, machineYk, h']

/-- The link machine. -/
theorem leaves_machineWork (now now' : Int) (h : w.state s.stat = w.idle) :
    Leaves w s (machineWork c now now' s) := by
  have hconn : w.reports (serv c .connected) = [] := reports_serv c w (by cases w <;> decide)
  have hdisc : w.reports (serv c .disconnected) = [] := reports_serv c w (by cases w <;> decide)
  unfold machineWork
  split
  · exact ⟨by rw [h]; cases w <;> rfl, rfl⟩
  · exact ⟨by cases w <;> rfl, rfl⟩
  · split
    · exact ⟨by cases w <;> rfl, hconn⟩
    · exact leaves_skip
  · exact ⟨by cases w <;> rfl, hdisc⟩
  · exact ⟨by cases w <;> rfl, rfl⟩
  · split
    · exact ⟨rfl, rfl⟩
    · exact leaves_skip
  · exact leaves_skip

/-- **A turn of the machines** leaves an idle service alone. -/
theorem leaves_stateMachine (clock : Clock) (h : w.state s.stat = w.idle) : Leaves w s (stateMachine c clock s) := by
  have hwork := leaves_machineWork (c := c) clock.work clock.work' h
  unfold stateMachine
  dsimp only
  split
  · exact hwork
  · refine hwork.seq (leaves_andThen fun f hf s' hs' => ?_)
    have hidle : w.state s'.stat = w.idle := hs'.trans (hwork.1.trans h)
    have hall : ∀ v, Leaves w s' (machineOf c clock v s') := fun v => by
      by_cases hv : w = v
      · rw [← hv, machineOf_idle clock hidle]
        exact leaves_skip
      · exact leaves_machineOf hv clock
    simp only [List.mem_cons, List.not_mem_nil, or_false] at hf
    rcases hf with rfl | rfl | rfl | rfl
    · exact hall .callall
    · exact hall .callpulse
    · exact hall .yt
    · exact hall .yk

/-! ### The frames that start a service -/

section Starts

variable (m : Mem)

/-- An interrogation frame that moves its service: a confirmation with the general qualifier, or a termination. -/
def CallMoves (qualifier : Nat) : Prop :=
  Fld.infoAddr m = 0 ∧ (Fld.reason m = Cot.actcon ∧ (Fld.elem0 m).toNat = qualifier ∨ Fld.reason m = Cot.actterm)

/-- The types a service reacts to. -/
def typeIn (types : List AsduType) : Prop := ∃ t ∈ types, AsduType.ofCode (Fld.type m) = some t

/-- The frames with user data that start a service: normalised values of any cause the master takes, confirmations
and terminations of an interrogation (integrated totals count for the general one), every frame of a command. -/
def Starts : Svc → Prop
  | .callall => typeIn m [.mMeNa1] ∧ Fld.reason m ∈ monReasons ∨
      typeIn m [.mItNa1, .mItTa1, .cIcNa1] ∧ CallMoves m Cot.introgen
  | .callpulse => typeIn m [.cCiNa1] ∧ CallMoves m Cot.reqcogen
  | .yt => typeIn m [.cSeNa1, .cSeNc1]
  | .yk => typeIn m [.cScNa1, .cDcNa1]

theorem callAssigned_iff {qualifier : Nat} {confirmed success : Iec10xStat} :
    (∃ x, callAssigned m qualifier confirmed success = some x) ↔ CallMoves m qualifier := by
  have hne : ¬ Cot.actterm = Cot.actcon := by decide
  unfold callAssigned CallMoves
  by_cases ha : Fld.infoAddr m = 0
  · by_cases hc : Fld.reason m = Cot.actcon
    · by_cases hq : (Fld.elem0 m).toNat = qualifier
      · simp [ha, hc, hq]
      · simp [ha, hc, hq, Ne.symm hne]
    · by_cases ht : Fld.reason m = Cot.actterm
      · simp [ha, ht, hne]
      · simp [ha, hc, ht]
  · simp [ha]

/-- **The frames that move a service**. -/
theorem assigned_iff (w : Svc) : (∃ x, assigned m = some (w, x)) ↔ Starts m w := by
  have hcall := @callAssigned_iff m Cot.introgen .callAllYx .callAllSuccess
  have hpulse := @callAssigned_iff m Cot.reqcogen .callPulseYm .callPulseSuccess
  unfold assigned
  cases ht : AsduType.ofCode (Fld.type m) with
  | none => cases w <;> simp [Starts, typeIn, ht]
  | some t =>
    cases t with
    | mMeNa1 =>
      by_cases hr : Fld.reason m ∈ monReasons
      · cases w <;> simp [Starts, typeIn, ht, hr]
      · cases w <;> simp [Starts, typeIn, ht, hr]
    | mItNa1 | mItTa1 | cIcNa1 => cases w <;> simp [Starts, typeIn, ht, ← hcall]
    | cCiNa1 => cases w <;> simp [Starts, typeIn, ht, ← hpulse]
    | _ => cases w <;> simp [Starts, typeIn, ht]

/-- No frame leads to an idle state. -/
theorem assigned_ne_idle {w : Svc} {x : Iec10xStat} (h : assigned m = some (w, x)) : x ≠ w.idle := by
  have hcall : ∀ q a b y, a ≠ w.idle → b ≠ w.idle → callAssigned m q a b = some y → y ≠ w.idle := by
    intro q a b y ha hb hy
    unfold callAssigned at hy
    split at hy
    · cases hy
    · split at hy
      · split at hy
        · exact Option.some.inj hy ▸ ha
        · cases hy
      · split at hy
        · exact Option.some.inj hy ▸ hb
        · cases hy
  have hcmd : ∀ a b f, a ≠ w.idle → b ≠ w.idle → Iec10xStat.ofService f ≠ w.idle → cmdAssigned m a b f ≠ w.idle := by
    intro a b f ha hb hf
    unfold cmdAssigned
    split
    · exact hf
    · split
      · exact ha
      · split
        · exact hb
        · exact hf
  unfold assigned at h
  split at h
  · split at h
    · cases h
      decide
    · cases h
  all_goals first
    | (obtain ⟨y, hy, hyx⟩ := Option.map_eq_some_iff.mp h
       cases hyx
       exact hcall _ _ _ _ (by decide) (by decide) hy)
    | (cases h
       exact hcmd _ _ _ (by decide) (by decide) (by decide))
    | cases h

end Starts

/-! ### Services start on request -/

/-- The service an event requests. -/
def Event.request : Event → Option Svc
  | .callAll _ => some .callall
  | .callPulse _ => some .callpulse
  | .yk _ => some .yk
  | .yt _ => some .yt
  | _ => none

variable (c)

/-- The step leaves the service idle when it finds it so and does not request it, and reports nothing for it. -/
def StaysIdle (w : Svc) (t : Station Core) (e : Event) : Prop :=
  e.request ≠ some w → w.state t.core.stat = w.idle →
    w.state (step c t e).1.core.stat = w.idle ∧ w.reports (step c t e).2 = []

/-- The step takes in a frame that starts the service. -/
def StartedByFrame (w : Svc) (t : Station Core) : Event → Prop
  | .recv read _ =>
    match t.taken read with
    | .on68 m _ => UserData m ∧ Starts m w
    | _ => False
  | _ => False

variable {c}

/-- **A frame and an idle service**. -/
theorem serve_idle_iff {sendBuf : UInt8} {s : Core} {w : Svc} {f : Taken} (h : w.state s.stat = w.idle) :
    (w.state (f.serve (handlers c sendBuf) s).1.stat = w.idle ∧ w.reports (f.serve (handlers c sendBuf) s).2 = []) ↔
      ¬ (match f with
        | .on68 m _ => UserData m ∧ Starts m w
        | _ => False) := by
  cases f with
  | nothing => exact iff_of_true ⟨h, rfl⟩ id
  | on10 m =>
    refine iff_of_true ?_ id
    show w.state ((on10 c s).run m).1.stat = w.idle ∧ w.reports (.rx _ :: ((on10 c s).run m).2) = []
    rw [run_on10]
    split
    · exact ⟨by rw [← h]; cases w <;> rfl, rfl⟩
    · split
      · exact ⟨h, rfl⟩
      · exact ⟨h, rfl⟩
  | on68 m len =>
    have hserved := served_on68 c s m sendBuf len
    show w.state ((on68 c s sendBuf len).run m).1.stat = w.idle ∧
      w.reports (.rx _ :: ((on68 c s sendBuf len).run m).2) = [] ↔ ¬ (UserData m ∧ Starts m w)
    have hrep : w.reports (.rx (m.slice 0 len) :: ((on68 c s sendBuf len).run m).2) = [] := hserved.reports w
    rw [and_iff_left hrep, hserved.state w]
    by_cases hu : UserData m
    · rw [if_pos hu, and_iff_right hu, ← assigned_iff]
      cases ha : assigned m with
      | none => exact iff_of_true h (fun ⟨x, hx⟩ => by cases hx)
      | some vx =>
        obtain ⟨v, x⟩ := vx
        by_cases hv : w = v
        · subst hv
          have hx := assigned_ne_idle m ha
          exact iff_of_false (by rw [assign, put, Svc.state_set]; exact hx) (fun hn => hn ⟨x, rfl⟩)
        · refine iff_of_true ?_ (fun ⟨y, hy⟩ => hv (congrArg Prod.fst (Option.some.inj hy)).symm)
          rw [assign, put]
          exact (Svc.state_set_of_ne hv x s.stat).trans h
    · rw [if_neg hu]
      exact iff_of_true h (fun hn => hu hn.1)

/-- **One step**: only a frame that starts the service takes it out of its idle state unasked. -/
theorem staysIdle_iff (w : Svc) (t : Station Core) (e : Event) :
    StaysIdle c w t e ↔ (w.state t.core.stat = w.idle → ¬ StartedByFrame w t e) := by
  cases e with
  | recv read sendBuf =>
    have hcore := core_recv (handlers c sendBuf) read t
    have hacts := acts_recv (handlers c sendBuf) read t
    unfold StaysIdle
    rw [show (step c t (.recv read sendBuf)) = recv (handlers c sendBuf) read t from rfl, hcore, hacts]
    constructor
    · exact fun h hi => (serve_idle_iff hi).mp (h (fun hr => by cases hr) hi)
    · exact fun h _ hi => (serve_idle_iff hi).mpr (h hi)
  | machine clock =>
    refine iff_of_true (fun _ hi => ?_) (fun _ h => h)
    show w.state (t.machine (stateMachine c clock)).1.core.stat = w.idle ∧
      w.reports (t.machine (stateMachine c clock)).2 = []
    unfold Station.machine
    split
    · exact ⟨hi, rfl⟩
    · have hleaves := leaves_stateMachine (c := c) clock hi
      exact ⟨hleaves.1.trans hi, hleaves.2⟩
  | callAll junk =>
    refine iff_of_true (fun hr hi => ?_) (fun _ h => h)
    have hw : w ≠ .callall := fun h => hr (by rw [h]; rfl)
    exact ⟨(Svc.state_set_of_ne hw _ _).trans hi, rfl⟩
  | callPulse junk =>
    refine iff_of_true (fun hr hi => ?_) (fun _ h => h)
    have hw : w ≠ .callpulse := fun h => hr (by rw [h]; rfl)
    exact ⟨(Svc.state_set_of_ne hw _ _).trans hi, rfl⟩
  | yk nodes =>
    refine iff_of_true (fun hr hi => ?_) (fun _ h => h)
    have hw : w ≠ .yk := fun h => hr (by rw [h]; rfl)
    show w.state (buildYk c nodes t.core).1.stat = w.idle ∧ w.reports (buildYk c nodes t.core).2 = []
    unfold buildYk
    split
    · exact ⟨hi, rfl⟩
    · split
      · exact ⟨hi, rfl⟩
      · exact ⟨(Svc.state_set_of_ne hw _ _).trans hi, rfl⟩
  | yt nodes =>
    refine iff_of_true (fun hr hi => ?_) (fun _ h => h)
    have hw : w ≠ .yt := fun h => hr (by rw [h]; rfl)
    show w.state (buildYt c nodes t.core).1.stat = w.idle ∧ w.reports (buildYt c nodes t.core).2 = []
    unfold buildYt
    split
    · exact ⟨hi, rfl⟩
    · split
      · exact ⟨hi, rfl⟩
      · exact ⟨(Svc.state_set_of_ne hw _ _).trans hi, rfl⟩

/-- **Services start on request**: in every run every service stays idle until it is asked for, exactly when no step
takes in a frame that starts an idle one. -/
theorem along_staysIdle_iff (c : Conf) (es : List Event) :
    Along (step c) (fun t e => ∀ w, StaysIdle c w t e) init es ↔
      Along (step c) (fun t e => ∀ w : Svc, w.state t.core.stat = w.idle → ¬ StartedByFrame w t e) init es :=
  along_congr (fun t e => forall_congr' fun w => staysIdle_iff w t e) init es

/-- A spontaneous normalised value at address 1. -/
def spontFrame : Read :=
  ⟨[0x68, 0x0D, 0x0D, 0x68, 0x08, 1, 0, 9, 1, 3, 1, 0, 1, 0, 0x34, 0x12, 0, 0x5E, 0x16], by decide⟩

/-- A spontaneous value takes an idle general interrogation to the state in front of its end. -/
theorem not_staysIdle_spont : ¬ Along (step sampleConf) (fun t e => ∀ w, StaysIdle sampleConf w t e) init
    (sampleStart ++ [.recv spontFrame 0]) := by
  intro h
  have hlast := h.2.2.2.2.2.1 .callall (by decide) (by decide +kernel)
  exact absurd hlast.1 (by decide +kernel)

end Wow.Iec101.Master
