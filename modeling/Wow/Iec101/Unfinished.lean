import Wow.Iec101.Pair
import Wow.Iec101.Wire
import Wow.Iec101.Failures
import Wow.Iec104.Command

/-!
# Wow.Iec101.Unfinished — the services the slave never ends

The execute of remote control sets the state of the set-points, a set-point never leaves the state in which it is
confirmed, and the counter interrogation is never started.  So the slave never terminates a command, and no exchange
of these three services ends as it should.

* `Unfinished`: the states the slave keeps to, whatever it reads.
* `YkExchanged`, `YtExchanged`, `PulseExchanged`: what is asked of an exchange.
-/

namespace Wow.Iec101

open Iec10x
open Iec104 (ykValues ytValues ytFmt ykFmt)

namespace Slave

variable {P : Type} {c : Conf P} {s : Core}

/-! ### What the slave keeps to -/

/-- No counter interrogation is under way, no command is at its end, and no set-point at its execute. -/
structure Unfinished (x : Iec10xState) : Prop where
  callpulse : x.callpulse = .callPulseIdle
  yk : x.yk ≠ .ykCmdSuccess
  yt : x.yt ≠ .ytCmdExec ∧ x.yt ≠ .ytCmdSuccess

theorem unfinished_statAfter (m : Mem) {x : Iec10xState} (h : Unfinished x) : Unfinished (statAfter m x) := by
  obtain ⟨h1, h2, h3⟩ := h
  unfold statAfter
  split
  · split <;> exact ⟨h1, h2, h3⟩
  · split <;> exact ⟨h1, h2, h3⟩
  · split
    · exact ⟨h1, h2, h3⟩
    · split
      · exact ⟨h1, by rintro ⟨⟩, h3⟩
      · exact ⟨h1, by rintro ⟨⟩, h3⟩
  · split
    · exact ⟨h1, h2, h3⟩
    · split
      · exact ⟨h1, by rintro ⟨⟩, h3⟩
      · exact ⟨h1, by rintro ⟨⟩, h3⟩
  · split
    · exact ⟨h1, h2, h3⟩
    · refine ⟨h1, ?_, by rintro ⟨⟩, by rintro ⟨⟩⟩
      dsimp only
      split
      · rintro ⟨⟩
      · exact h2
  · split
    · exact ⟨h1, h2, h3⟩
    · refine ⟨h1, ?_, by rintro ⟨⟩, by rintro ⟨⟩⟩
      dsimp only
      split
      · rintro ⟨⟩
      · exact h2
  · exact ⟨h1, h2, h3⟩

theorem unfinished_machineWork (h : Unfinished s.stat) : Unfinished (machineWork c s).1.stat := by
  obtain ⟨h1, h2, h3⟩ := h
  unfold machineWork
  split
  · exact ⟨rfl, by rintro ⟨⟩, by rintro ⟨⟩, by rintro ⟨⟩⟩
  · exact ⟨h1, h2, h3⟩
  · exact ⟨h1, h2, h3⟩
  · exact ⟨h1, h2, h3⟩
  · exact ⟨h1, h2, h3⟩
  · exact ⟨h1, h2, h3⟩

theorem unfinished_machineOf (clock : Clock) (v : Svc) (h : Unfinished s.stat) :
    Unfinished (machineOf c clock v s).1.stat := by
  have hpulse := callpulse_machineOf (c := c) clock v h.callpulse
  obtain ⟨h1, h2, h3⟩ := h
  refine ⟨hpulse, ?_, ?_⟩
  · cases v with
    | callall =>
      simp only [machineOf, machineCallall]
      split
      all_goals try exact h2
      split <;> exact h2
    | callpulse =>
      rw [show machineOf c clock .callpulse s = (s, []) from machineCallpulse_idle _ h1]
      exact h2
    | yt =>
      simp only [machineOf, machineYt]
      split <;> exact h2
    | yk =>
      simp only [machineOf, machineYk]
      split
      · dsimp only
        split <;> rintro ⟨⟩
      · dsimp only
        split
        · rintro ⟨⟩
        · exact h2
      · dsimp only
        split
        · rintro ⟨⟩
        · exact h2
      · rintro ⟨⟩
      · rintro ⟨⟩
      · exact h2
  · cases v with
    | callall =>
      simp only [machineOf, machineCallall]
      split
      all_goals try exact h3
      split <;> exact h3
    | callpulse =>
      rw [show machineOf c clock .callpulse s = (s, []) from machineCallpulse_idle _ h1]
      exact h3
    | yt =>
      simp only [machineOf, machineYt]
      split
      · dsimp only
        split <;> exact ⟨by rintro ⟨⟩, by rintro ⟨⟩⟩
      · dsimp only
        split
        · exact ⟨by rintro ⟨⟩, by rintro ⟨⟩⟩
        · exact h3
      next h => exact absurd h h3.1
      next h => exact absurd h h3.2
      · exact ⟨by rintro ⟨⟩, by rintro ⟨⟩⟩
      · exact h3
    | yk =>
      simp only [machineOf, machineYk]
      split
      all_goals try exact h3
      exact ⟨by rintro ⟨⟩, by rintro ⟨⟩⟩

theorem unfinished_stateMachine (clock : Clock) (h : Unfinished s.stat) :
    Unfinished (stateMachine c clock s).1.stat := by
  have hwork := unfinished_machineWork (c := c) h
  rw [stateMachine_eq]
  split
  · exact hwork
  · exact run_invariant (I := fun s : Core => Unfinished s.stat) (fun s v hs => unfinished_machineOf clock v hs) hwork
      turn

theorem unfinished_serve (f : Taken) (h : Unfinished s.stat) : Unfinished (f.serve (handlers c) s).1.stat := by
  cases f with
  | nothing => exact h
  | on10 m =>
    show Unfinished ((on10 c s).run m).1.stat
    rw [run_on10]
    split
    · split
      · exact h
      · split
        · exact ⟨h.1, h.2, h.3⟩
        · split
          · exact h
          · split <;> exact h
    · exact h
  | on68 m len =>
    show Unfinished ((on68 c s len).run m).1.stat
    rw [stat_on68]
    split
    · exact unfinished_statAfter m h
    · exact h

/-- **Whatever the slave reads**, it ends no command and starts no counter interrogation. -/
theorem unfinished_step (t : Station Core) (e : Event) (h : Unfinished t.core.stat) :
    Unfinished (step c t e).1.core.stat := by
  cases e with
  | recv read =>
    show Unfinished (recv (handlers c) read t).1.core.stat
    rw [core_recv]
    exact unfinished_serve _ h
  | machine clock =>
    show Unfinished (t.machine (stateMachine c clock)).1.core.stat
    unfold Station.machine
    split
    · exact h
    · exact unfinished_stateMachine clock h
  | yxSpon nodes =>
    rw [show (step c t (.yxSpon nodes)).1.core.stat = t.core.stat from stat_buildSpon _ _ nodes t.core]
    exact h
  | ycSpon nodes =>
    rw [show (step c t (.ycSpon nodes)).1.core.stat = t.core.stat from stat_buildSpon _ _ nodes t.core]
    exact h

/-! ### What the slave never sends -/

end Slave

/-- A frame of one of the types, with this cause, as it is on the wire. -/
def IsFrame (types : List AsduType) (reason : Nat) (f : List UInt8) : Prop :=
  10 ≤ f.length ∧ (∃ t ∈ types, f.getD 7 0 = t.code) ∧ (f.getD 9 0).toNat % 64 = reason

/-- The types of commands. -/
def cmdTypes : List AsduType := [.cScNa1, .cDcNa1, .cSeNa1, .cSeNc1]

/-- The action does not terminate a command. -/
def EndsNothing (a : Act) : Prop := ∀ f, a.wire? = some f → ¬ IsFrame cmdTypes Cot.actterm f

theorem endsNothing_mk10 (ctrl : UInt8) (addr : UInt16) : EndsNothing (.send (mk10 ctrl addr) true) := by
  rintro f hf ⟨hlen, -⟩
  obtain rfl := Option.some.inj hf
  exact absurd hlen (show ¬ 10 ≤ 6 by decide)

/-- A frame of another type. -/
theorem endsNothing_mk68 {ctrl : UInt8} {addr : UInt16} {h : AsduHead} {info : List UInt8} {len : Nat} {t : AsduType}
    (ht : h.type = t.code) (hne : t ∉ cmdTypes) :
    EndsNothing (.send (mk68 ctrl addr (h.octets ++ info) len) true) := by
  rintro f hf ⟨hlen, ⟨t', ht', hf7⟩, -⟩
  obtain rfl := Option.some.inj hf
  have hle := hlen.trans (length_wire_le _ _ _ _)
  have hpos : 0 < (h.octets ++ info).length := Nat.zero_lt_succ _
  have h7 := getD_wire_mk68 ctrl addr hpos (show 7 + 0 + 2 < (UInt8.ofNat len).toNat by omega)
  have hcode : t.code = t'.code := by
    rw [← ht, ← hf7]
    exact h7.symm
  have htt : some t = some t' := by rw [← AsduType.ofCode_code t, ← AsduType.ofCode_code t', hcode]
  exact hne (Option.some.inj htt ▸ ht')

theorem endsNothing_of_not_send {a : Act} (h : a.wire? = none) : EndsNothing a := by
  intro f hf
  rw [h] at hf
  cases hf

namespace Slave

variable {P : Type} (c : Conf P)

theorem endsNothing_serv (x : Service) : ∀ a ∈ serv c x, EndsNothing a := by
  intro a ha
  unfold serv at ha
  split at ha
  · obtain rfl := List.mem_singleton.mp ha
    exact endsNothing_of_not_send rfl
  · exact absurd ha List.not_mem_nil

theorem endsNothing_buildGroup {type : DevNodeInfo → AsduType} (htype : ∀ x, type x ∉ cmdTypes)
    (elem : Nat → DevNodeInfo → List UInt8) (reason : Nat) (lists : List (List DevNodeInfo)) :
    ∀ a ∈ lists.flatMap (buildGroup c type elem reason), EndsNothing a := by
  intro a ha
  obtain ⟨list, -, hl⟩ := List.mem_flatMap.mp ha
  unfold buildGroup at hl
  split at hl
  next => exact absurd hl List.not_mem_nil
  next first rest =>
    obtain rfl := List.mem_singleton.mp hl
    rw [List.append_assoc]
    exact endsNothing_mk68 rfl (htype first)

theorem endsNothing_buildCall (acd : Bool) (reason : Nat) (qoi : UInt8) :
    EndsNothing (buildCall c acd reason qoi) := by
  unfold buildCall send
  rw [List.append_assoc]
  exact endsNothing_mk68 (t := .cIcNa1) rfl (by decide)

/-- A confirmation is no termination. -/
theorem endsNothing_buildCmdAck (bak : Option (List UInt8)) : ∀ a ∈ buildCmdAck c Cot.actcon bak, EndsNothing a := by
  intro a ha
  cases bak with
  | none => exact absurd ha List.not_mem_nil
  | some bak =>
    obtain rfl := List.mem_singleton.mp ha
    rintro f hf ⟨-, -, hreason⟩
    obtain rfl := Option.some.inj hf
    have hlen : (UInt8.ofNat (variableLen + (bak.getD 1 0).toNat % 128)).toNat =
        variableLen + (bak.getD 1 0).toNat % 128 :=
      Nat.mod_eq_of_lt (by simp only [variableLen]; omega)
    have hlen3 : 2 < (bak ++ List.replicate (3 - bak.length) (0 : UInt8)).length := by
      rw [List.length_append, List.length_replicate]
      omega
    have hset : 2 < (setReason Cot.actcon bak).length := by
      rw [setReason, List.length_set]
      exact hlen3
    have hlt : 7 + 2 + 2 < (UInt8.ofNat (variableLen + (bak.getD 1 0).toNat % 128)).toNat := by
      rw [hlen, variableLen]
      omega
    have h9 := getD_wire_mk68 (ctrlUp false false true false Func.resUsrDataAck) c.asduAddr hset hlt
    have hval : (setReason Cot.actcon bak)[2] =
        UInt8.ofNat (Cot.actcon % 64 + ((bak ++ List.replicate (3 - bak.length) (0 : UInt8)).getD 2 0).toNat / 64 * 64) := by
      simp only [setReason, List.getElem_set_self]
    rw [hval] at h9
    rw [h9] at hreason
    generalize ((bak ++ List.replicate (3 - bak.length) (0 : UInt8)).getD 2 0) = b at hreason
    have hb := b.toNat_lt
    rw [UInt8.toNat_ofNat'] at hreason
    simp only [Cot.actcon, Cot.actterm] at hreason
    omega

variable {c} {s : Core}

theorem endsNothing_ite {b : Bool} {acts : List Act} (h : ∀ a ∈ acts, EndsNothing a) :
    ∀ a ∈ (if b then acts else []), EndsNothing a := by
  cases b
  · exact fun a ha => absurd ha List.not_mem_nil
  · exact h

theorem endsNothing_nil : ∀ a ∈ ([] : List Act), EndsNothing a := fun _ ha => absurd ha List.not_mem_nil

theorem endsNothing_userAck : ∀ a ∈ [buildRequestUserAck c], EndsNothing a := by
  intro a ha
  obtain rfl := List.mem_singleton.mp ha
  exact endsNothing_mk10 _ _

theorem endsNothing_machineOf (clock : Clock) (v : Svc) (h : Unfinished s.stat) :
    ∀ a ∈ (machineOf c clock v s).2, EndsNothing a := by
  have hyc : ∀ x : DevNodeInfo, (if x.type = .float then AsduType.mMeNc1 else .mMeNa1) ∉ cmdTypes := fun x => by
    split <;> decide
  cases v with
  | callall =>
    simp only [machineOf, machineCallall]
    split
    · exact endsNothing_userAck
    · refine endsNothing_ite fun a ha => ?_
      obtain rfl := List.mem_singleton.mp ha
      exact endsNothing_buildCall c _ _ _
    · exact endsNothing_ite (endsNothing_buildGroup c (fun _ => by decide) _ _ _)
    · refine endsNothing_ite fun a ha => ?_
      exact (List.mem_append.mp ha).elim (endsNothing_buildGroup c hyc _ _ _ a) (endsNothing_buildGroup c hyc _ _ _ a)
    · split
      · intro a ha
        rcases List.mem_cons.mp ha with rfl | ha
        · exact endsNothing_buildCall c _ _ _
        · exact endsNothing_serv c _ a ha
      · exact endsNothing_nil
    · exact endsNothing_serv c _
    · exact endsNothing_nil
  | callpulse =>
    rw [show machineOf c clock .callpulse s = (s, []) from machineCallpulse_idle _ h.callpulse]
    exact endsNothing_nil
  | yt =>
    simp only [machineOf, machineYt]
    split
    · exact endsNothing_userAck
    · exact endsNothing_ite (endsNothing_buildCmdAck c _)
    next he => exact absurd he h.yt.1
    next he => exact absurd he h.yt.2
    · exact endsNothing_serv c _
    · exact endsNothing_nil
  | yk =>
    simp only [machineOf, machineYk]
    split
    · exact endsNothing_userAck
    · exact endsNothing_ite (endsNothing_buildCmdAck c _)
    · exact endsNothing_userAck
    next he => exact absurd he h.yk
    · exact endsNothing_serv c _
    · exact endsNothing_nil

theorem endsNothing_stateMachine (clock : Clock) (h : Unfinished s.stat) :
    ∀ a ∈ (stateMachine c clock s).2, EndsNothing a := by
  have hwork : ∀ a ∈ (machineWork c s).2, EndsNothing a := by
    unfold machineWork
    split
    · exact endsNothing_nil
    · exact endsNothing_nil
    · exact endsNothing_serv c _
    · intro a ha
      rcases List.mem_cons.mp ha with rfl | ha
      · exact endsNothing_of_not_send rfl
      · exact endsNothing_serv c _ a ha
    · exact endsNothing_nil
    · exact endsNothing_nil
  have hturn : ∀ {s : Core} (vs : List Svc), Unfinished s.stat →
      ∀ a ∈ (run (turnStep c clock) s vs).2, EndsNothing a := by
    intro s vs
    induction vs generalizing s with
    | nil => exact fun _ => endsNothing_nil
    | cons v vs ih =>
      intro hs a ha
      rw [run_cons, List.mem_append] at ha
      exact ha.elim (endsNothing_machineOf clock v hs a) (ih (unfinished_machineOf clock v hs) a)
  rw [stateMachine_eq]
  split
  · exact hwork
  · intro a ha
    exact (List.mem_append.mp ha).elim (hwork a) (hturn turn (unfinished_machineWork h) a)

theorem endsNothing_setValue (fmt : Iec104.CmdFmt) (value : List UInt8 → List UInt8)
    (objs : List (UInt16 × List UInt8)) :
    ∀ a ∈ objs.filterMap (setValue c fmt value), EndsNothing a := by
  intro a ha
  obtain ⟨o, -, ho⟩ := List.mem_filterMap.mp ha
  unfold setValue at ho
  split at ho
  · cases ho
    exact endsNothing_of_not_send rfl
  · cases ho

theorem endsNothing_serve (f : Taken) : ∀ a ∈ (f.serve (handlers c) s).2, EndsNothing a := by
  have hone : ∀ {a}, EndsNothing a → ∀ b ∈ [a], EndsNothing b := fun h b hb => List.mem_singleton.mp hb ▸ h
  cases f with
  | nothing => exact endsNothing_nil
  | on10 m =>
    have h10 : ∀ a ∈ ((on10 c s).run m).2, EndsNothing a := by
      rw [run_on10]
      split
      · split
        · exact hone (endsNothing_mk10 _ _)
        · split
          · exact hone (endsNothing_mk10 _ _)
          · split
            · exact endsNothing_nil
            · split
              · exact hone (endsNothing_mk10 _ _)
              · exact endsNothing_nil
      · exact endsNothing_nil
    intro a ha
    rcases List.mem_cons.mp ha with rfl | ha
    · exact endsNothing_of_not_send rfl
    · exact h10 a ha
  | on68 m len =>
    have hyk : ∀ a ∈ ((asduYk c s len).run m).2, EndsNothing a := by
      rw [run_asduYk]
      split
      · exact endsNothing_nil
      · split
        · exact endsNothing_nil
        · dsimp only
          split
          · exact endsNothing_serv c _
          · exact endsNothing_setValue _ _ _
    have hyt : ∀ a ∈ ((asduYt c s len).run m).2, EndsNothing a := by
      rw [run_asduYt]
      split
      · exact endsNothing_nil
      · split
        · exact endsNothing_serv c _
        · exact endsNothing_setValue _ _ _
    have hdata : ∀ a ∈ ((onUserData c s len).run m).2, EndsNothing a := by
      simp only [onUserData, Rd.run_bind, Rd.run_octet, Rd.mem_octet]
      cases AsduType.ofCode (m 7) with
      | none => exact endsNothing_nil
      | some t =>
        cases t with
        | cIcNa1 =>
          simp only [Rd.run_bind, Rd.run_pure]
          exact endsNothing_nil
        | cCiNa1 =>
          simp only [Rd.run_bind, Rd.run_pure]
          exact hone (endsNothing_mk10 _ _)
        | cCdNa1 => exact hone (endsNothing_mk10 _ _)
        | cScNa1 | cDcNa1 => exact hyk
        | cSeNa1 | cSeNc1 => exact hyt
        | _ => exact endsNothing_nil
    have h68 : ∀ a ∈ ((on68 c s len).run m).2, EndsNothing a := by
      rw [run_on68]
      split
      · exact hdata
      · split
        · exact hone (endsNothing_mk10 _ _)
        · exact endsNothing_nil
    intro a ha
    rcases List.mem_cons.mp ha with rfl | ha
    · exact endsNothing_of_not_send rfl
    · exact h68 a ha

/-- **The slave terminates no command**. -/
theorem endsNothing_step (t : Station Core) (e : Event) (h : Unfinished t.core.stat) :
    ∀ a ∈ (step c t e).2, EndsNothing a := by
  have hspon : ∀ {type : DevNodeCtrl → AsduType} {obj} {nodes : NodeArr} {s : Core}, (∀ x, type x ∉ cmdTypes) →
      ∀ a ∈ (buildSpon c type obj nodes s).2, EndsNothing a := by
    intro type obj nodes s htype a ha
    obtain ⟨list, hlist⟩ := nodes
    cases list with
    | nil => exact absurd ha List.not_mem_nil
    | cons first rest =>
      unfold buildSpon at ha
      dsimp only at ha
      split at ha
      · exact absurd ha List.not_mem_nil
      · obtain rfl := List.mem_singleton.mp ha
        exact endsNothing_mk68 rfl (htype first)
  cases e with
  | recv read =>
    show ∀ a ∈ (recv (handlers c) read t).2, EndsNothing a
    rw [acts_recv]
    exact endsNothing_serve _
  | machine clock =>
    show ∀ a ∈ (t.machine (stateMachine c clock)).2, EndsNothing a
    unfold Station.machine
    split
    · exact endsNothing_nil
    · exact endsNothing_stateMachine clock h
  | yxSpon nodes => exact hspon fun x => by unfold yxSponType; split <;> decide
  | ycSpon nodes =>
    refine hspon fun x => ?_
    unfold ycSponType
    split <;> split <;> decide

end Slave

/-! ### Exchanges -/

namespace Pair

variable {P : Type} (cm : Master.Conf) (cs : Slave.Conf P) (rounds : List Round) (p : Pair)

/-- **Remote control, select before execute**: every node is applied once, the slave confirms and terminates and is
idle again, and the master reports one success and no failure. -/
structure YkExchanged (nodes : NodeArr) : Prop where
  applied : (values (Trace.slave (exchange cm cs (.yk nodes) rounds p).2)).Perm (ykValues nodes.val)
  confirmed : ∃ f ∈ wires (Trace.slave (exchange cm cs (.yk nodes) rounds p).2), IsFrame [.cScNa1, .cDcNa1] Cot.actcon f
  terminated : ∃ f ∈ wires (Trace.slave (exchange cm cs (.yk nodes) rounds p).2),
    IsFrame [.cScNa1, .cDcNa1] Cot.actterm f
  idle : (exchange cm cs (.yk nodes) rounds p).1.slave.core.stat.yk = .ykCmdIdle
  reported : Svc.yk.reports (Trace.master (exchange cm cs (.yk nodes) rounds p).2) = [.ykCmdSuccess]

/-- The commands of a set-point the slave has taken in. -/
def ytTaken (tr : List Act) : List (List UInt8) :=
  (Iec104.rxs tr).filter fun f => (AsduType.ofCode (f.getD 7 0)).bind ytFmt |>.isSome

/-- **A set-point, select before execute**: every node is applied once, with its value, and none before the second
command; the slave comes back to idle by way of its success, and the master reports one success and no failure. -/
structure YtExchanged (nodes : NodeArr) : Prop where
  applied : ∃ first ∈ nodes.val.head?,
    (values (Trace.slave (exchange cm cs (.yt nodes) rounds p).2)).Perm (ytValues first nodes.val)
  onExecute : ∀ n, (ytTaken (Trace.slave (exchange cm cs (.yt nodes) (rounds.take n) p).2)).length ≤ 1 →
    values (Trace.slave (exchange cm cs (.yt nodes) (rounds.take n) p).2) = []
  success : ∃ n, (exchange cm cs (.yt nodes) (rounds.take n) p).1.slave.core.stat.yt = .ytCmdSuccess
  idle : (exchange cm cs (.yt nodes) rounds p).1.slave.core.stat.yt = .ytCmdIdle
  reported : Svc.yt.reports (Trace.master (exchange cm cs (.yt nodes) rounds p).2) = [.ytCmdSuccess]

/-- What the master should see of the counters of a slave. -/
def ymValues : List (DevNodeInfo × List UInt8) :=
  cs.nodeList.ym.flatten.map fun x => (⟨.ym, x.addr, .sint32⟩, (Slave.ymElem cs 0 x).take 4)

/-- **A counter interrogation**: the slave starts its machine for it and no other, the values arrive, both machines are
idle in the end and have reported one success, and the general interrogation is left alone on both sides. -/
structure PulseExchanged (junk : Master.Junk) : Prop where
  started : ∃ n, (exchange cm cs (.callPulse junk) (rounds.take n) p).1.slave.core.stat.callpulse ≠ .callPulseIdle
  alone : ∀ n, ∀ v : Svc, v ≠ .callpulse →
    v.state (exchange cm cs (.callPulse junk) (rounds.take n) p).1.slave.core.stat = v.idle
  untouched : ∀ n, (exchange cm cs (.callPulse junk) (rounds.take n) p).1.master.core.stat.callall = .callAllIdle
  values : (values (Trace.master (exchange cm cs (.callPulse junk) rounds p).2)).Perm (ymValues cs)
  idle : (exchange cm cs (.callPulse junk) rounds p).1.master.core.stat.callpulse = .callPulseIdle ∧
    (exchange cm cs (.callPulse junk) rounds p).1.slave.core.stat.callpulse = .callPulseIdle
  reported : Svc.callpulse.reports (Trace.master (exchange cm cs (.callPulse junk) rounds p).2) = [.callPulseSuccess] ∧
    Svc.callpulse.reports (Trace.slave (exchange cm cs (.callPulse junk) rounds p).2) = [.callPulseSuccess]

variable {cm cs rounds p}

theorem unfinished_of_idle (h : Idle p) : Slave.Unfinished p.slave.core.stat := by
  have hp := h.slave .callpulse
  have hyk := h.slave .yk
  have hyt := h.slave .yt
  simp only [Svc.state, Svc.idle] at hp hyk hyt
  exact ⟨hp, by rw [hyk]; rintro ⟨⟩, by rw [hyt]; exact ⟨by rintro ⟨⟩, by rintro ⟨⟩⟩⟩

/-- No state of an exchange ends a command. -/
theorem unfinished_exchange (e : Master.Event) (h : Idle p) (n : Nat) :
    Slave.Unfinished (exchange cm cs e (rounds.take n) p).1.slave.core.stat :=
  slave_exchange (I := fun t => Slave.Unfinished t.core.stat) Slave.unfinished_step (unfinished_of_idle h)

/-- **Remote control never ends as it should**: the slave sends no termination. -/
theorem never_ykExchanged (cm : Master.Conf) (cs : Slave.Conf P) (nodes : NodeArr) (rounds : List Round) (p : Pair)
    (h : Idle p) : ¬ YkExchanged cm cs rounds p nodes := by
  rintro ⟨-, -, ⟨f, hf, hframe⟩, -, -⟩
  obtain ⟨a, ha, hwire⟩ := List.mem_filterMap.mp hf
  have hends := forall_slave_exchange (I := fun t => Slave.Unfinished t.core.stat) (A := EndsNothing)
    Slave.unfinished_step Slave.endsNothing_step (unfinished_of_idle h) a ha
  obtain ⟨hlen, ⟨t, ht, hcode⟩, hreason⟩ := hframe
  refine hends f hwire ⟨hlen, ⟨t, ?_, hcode⟩, hreason⟩
  simp only [List.mem_cons, List.not_mem_nil, or_false] at ht
  rcases ht with rfl | rfl <;> decide

/-- **Set-points never end as they should**: the slave does not come to their success. -/
theorem never_ytExchanged (cm : Master.Conf) (cs : Slave.Conf P) (nodes : NodeArr) (rounds : List Round) (p : Pair)
    (h : Idle p) : ¬ YtExchanged cm cs rounds p nodes := by
  rintro ⟨-, -, ⟨n, hn⟩, -, -⟩
  exact (unfinished_exchange (.yt nodes) h n).yt.2 hn

/-- **A counter interrogation never takes place**: the slave does not start it. -/
theorem never_pulseExchanged (cm : Master.Conf) (cs : Slave.Conf P) (junk : Master.Junk) (rounds : List Round)
    (p : Pair) (h : Idle p) : ¬ PulseExchanged cm cs rounds p junk := by
  rintro ⟨⟨n, hn⟩, -, -, -, -, -⟩
  exact hn (unfinished_exchange (.callPulse junk) h n).callpulse

/-! A command on the sample pair: select, confirmation, execute, each delivered at once. -/

def sampleRounds : List Round :=
  [.slave true Slave.sampleClock, .master true 0 Slave.sampleClock, .master true 0 Slave.sampleClock,
    .slave true Slave.sampleClock, .master true 0 Slave.sampleClock, .slave true Slave.sampleClock]

theorem never_ykExchanged_sample :
    ¬ YkExchanged Master.sampleConf Slave.sampleConf sampleRounds sample Master.sampleYk :=
  never_ykExchanged Master.sampleConf Slave.sampleConf Master.sampleYk sampleRounds sample idle_sample

/-- After the execute the slave is not idle. -/
theorem not_ykExchanged_stuck :
    ¬ YkExchanged Master.sampleConf Slave.sampleConf sampleRounds sample Master.sampleYk :=
  fun h => absurd h.idle (by decide +kernel)

/-- A set-point of one float. -/
def sampleYt : NodeArr := ⟨[⟨⟨.yt, 0x6201, .float⟩, ⟨.replicate 8 1, .replicate 7 0⟩⟩], by decide⟩

theorem never_ytExchanged_sample : ¬ YtExchanged Master.sampleConf Slave.sampleConf sampleRounds sample sampleYt :=
  never_ytExchanged Master.sampleConf Slave.sampleConf sampleYt sampleRounds sample idle_sample

/-- After the execute the slave is not idle. -/
theorem not_ytExchanged_stuck : ¬ YtExchanged Master.sampleConf Slave.sampleConf sampleRounds sample sampleYt :=
  fun h => absurd h.idle (by decide +kernel)

theorem never_pulseExchanged_sample :
    ¬ PulseExchanged Master.sampleConf Slave.sampleConf sampleRounds sample ⟨false, false, false⟩ :=
  never_pulseExchanged Master.sampleConf Slave.sampleConf ⟨false, false, false⟩ sampleRounds sample idle_sample

/-- The request starts something in the field of the general interrogation. -/
theorem not_pulseExchanged_callall :
    ¬ PulseExchanged Master.sampleConf Slave.sampleConf sampleRounds sample ⟨false, false, false⟩ :=
  fun h => absurd (h.alone 1 .callall (by decide)) (by decide +kernel)

end Pair

end Wow.Iec101
