import Wow.Iec104.Contracts
import Wow.Iec104.Interrogation

/-!
# Wow.Iec104.Timers — what a received frame does to the states of the link and of the link test

The timers of a station belong to its state machine; a frame changes the two states they are about and
nothing else of them, and does so by its function octet alone.

* `Steady`: an I-frame leaves states and times, on both stations.
* `Handled`: one dispatch, as a function of the function octet (`uStat`).
-/

namespace Wow.Iec104

open Iec10x

/-- The actions behind which a connection is the one it was, and nothing has come in. -/
def quiet : Act → Bool
  | .rx _ | .conn | .reset => false
  | _ => true

/-- What follows a monitor that looks at other actions only. -/
theorem foldl_of_quiet {γ : Type} {next : γ → Act → γ} (hnext : ∀ g a, quiet a = true → next g a = g) {g : γ}
    {tr : List Act} (h : ∀ a ∈ tr, quiet a = true) : tr.foldl next g = g :=
  foldl_of_stay fun a ha => hnext g a (h a ha)

/-! ### Handlers that leave states and times -/

/-- States and times are left, and nothing is taken in. -/
structure Steady (s : Core) (r : Core × List Act) : Prop where
  stat : r.1.stat = s.stat
  time : r.1.time = s.time
  quiet : ∀ a ∈ r.2, Iec104.quiet a = true

section Steady

variable {s : Core} {r r' : Core × List Act}

theorem steady_acts {acts : List Act} (h : ∀ a ∈ acts, quiet a = true) : Steady s (s, acts) := ⟨rfl, rfl, h⟩

theorem steady_nil : Steady s (s, []) := steady_acts (List.forall_mem_nil _)

theorem steady_sendI (h : AsduHead) (info : List UInt8) : Steady s (sendI h info s) :=
  ⟨rfl, rfl, List.forall_mem_singleton.mpr rfl⟩

theorem steady_skipI : Steady s (skipI s) := ⟨rfl, rfl, List.forall_mem_nil _⟩

theorem steady_sAck : Steady s (buildSAck s) := steady_acts (List.forall_mem_singleton.mpr rfl)

theorem steady_serv (cb : Bool) (x : Service) : Steady s (serv cb x s) := by
  cases cb with
  | true => exact steady_acts (List.forall_mem_singleton.mpr rfl)
  | false => exact steady_nil

theorem steady_uAck (t : UInt8) : Steady s (buildUAck t s) := by
  have hsend : ∀ ctrl : Core → List UInt8, Steady s (sendCtrl ctrl s) := fun _ =>
    steady_acts (List.forall_mem_singleton.mpr rfl)
  unfold buildUAck
  split_ifs
  · exact hsend _
  · exact hsend _
  · exact hsend _
  · exact steady_nil

theorem Steady.trans (h : Steady s r) (h' : Steady r.1 r') : Steady s (r'.1, r.2 ++ r'.2) :=
  ⟨h'.stat.trans h.stat, h'.time.trans h.time, List.forall_mem_append.mpr ⟨h.quiet, h'.quiet⟩⟩

theorem steady_ite {b : Prop} [Decidable b] (h : Steady s r) (h' : Steady s r') :
    Steady s (if b then r else r') := by
  split_ifs
  · exact h
  · exact h'

theorem steady_andThen {calls : List Cmd} (h : ∀ f ∈ calls, ∀ s, Steady s (f s)) : Steady s (andThen s calls) := by
  induction calls generalizing s with
  | nil => exact steady_nil
  | cons f calls ih =>
    rw [andThen_cons]
    exact (h f List.mem_cons_self s).trans (ih fun f' hf' => h f' (List.mem_cons_of_mem f hf'))

end Steady

/-! ### One frame -/

/-- The states behind a frame with the function octet `b`, on a station that takes `start` and `stop`. -/
def uStat (start stop b : UInt8) (st : Iec10xState) : Iec10xState :=
  if b = start then { st with init := .linkConnectOk }
  else if b = stop then { st with init := .linkDisconnect }
  else if b = UFunc.testerAck then { st with test := .testerStop }
  else st

/-- **One dispatch**: states by the function octet, the times of the two states left. -/
structure Handled (start stop b : UInt8) (s : Core) (r : Core × List Act) : Prop where
  stat : r.1.stat = uStat start stop b s.stat
  init : r.1.time.init = s.time.init
  test : r.1.time.test = s.time.test
  quiet : ∀ a ∈ r.2, Iec104.quiet a = true

section Handled

variable {start stop b : UInt8} {s : Core} {r : Core × List Act}

theorem Steady.handled (h : Steady s r) (hb : uStat start stop b s.stat = s.stat) : Handled start stop b s r :=
  ⟨h.stat.trans hb.symm, by rw [h.time], by rw [h.time], h.quiet⟩

theorem uStat_of_ne {st : Iec10xState} (hstart : b ≠ start) (hstop : b ≠ stop) (hack : b ≠ UFunc.testerAck) :
    uStat start stop b st = st := by
  rw [uStat, if_neg hstart, if_neg hstop, if_neg hack]

/-- The three octets are those of U-frames. -/
theorem uStat_of_not_u {st : Iec10xState} (hstart : start.toNat % 4 = 3) (hstop : stop.toNat % 4 = 3)
    (hb : b.toNat % 4 ≠ 3) : uStat start stop b st = st := by
  refine uStat_of_ne ?_ ?_ ?_
  · exact fun h => hb (by rw [h]; exact hstart)
  · exact fun h => hb (by rw [h]; exact hstop)
  · exact fun h => hb (by rw [h]; rfl)

/-- **The `switch`** of `frame_u_parse`, with what the station does about a stop. -/
theorem handled_switch {down : Core × List Act} (hdown : Handled start stop stop s down)
    (hstart' : UFunc.tester ≠ start) (hstop' : UFunc.tester ≠ stop) : Handled start stop b s
      (if b = start then setInit .linkConnectOk s
      else if b = stop then down
      else if b = UFunc.tester then buildUAck UFunc.tester s
      else if b = UFunc.testerAck then setTest .testerStop s
      else (s, [])) := by
  by_cases hstart : b = start
  · rw [if_pos hstart]
    exact ⟨by rw [uStat, if_pos hstart]; rfl, rfl, rfl, List.forall_mem_nil _⟩
  rw [if_neg hstart]
  by_cases hstop : b = stop
  · rw [if_pos hstop, hstop]
    exact hdown
  rw [if_neg hstop]
  by_cases htest : b = UFunc.tester
  · rw [if_pos htest]
    rw [htest]
    exact (steady_uAck _).handled (uStat_of_ne hstart' hstop' (by decide))
  rw [if_neg htest]
  by_cases hack : b = UFunc.testerAck
  · rw [if_pos hack]
    exact ⟨by rw [uStat, if_neg hstart, if_neg hstop, if_pos hack]; rfl, rfl, rfl, List.forall_mem_nil _⟩
  · rw [if_neg hack]
    exact steady_nil.handled (uStat_of_ne hstart hstop hack)

/-- The `switch` on the format: frames of the other two formats leave states and times. -/
theorem handled_format {info u : Core × List Act} (hinfo : Steady s info) (hu : Handled start stop b s u)
    (hstart : start.toNat % 4 = 3) (hstop : stop.toNat % 4 = 3) : Handled start stop b s
      (if b.toNat % 2 = 0 then info else if b.toNat % 4 = 1 then (s, []) else u) := by
  split_ifs with hI hS
  · exact hinfo.handled (uStat_of_not_u hstart hstop (by omega))
  · exact steady_nil.handled (uStat_of_not_u hstart hstop (by omega))
  · exact hu

end Handled

/-! ### The master -/

namespace Master

variable (c : Conf) (s : Core) (p : Nat) (m : Mem)

theorem steady_asduCall (success faild : Service) : Steady s ((asduCall c s p success faild).run m) := by
  rw [run_asduCall]
  refine steady_ite steady_nil (steady_ite steady_nil (steady_ite (steady_andThen ?_) (steady_serv _ _)))
  simpa using ⟨fun _ => steady_serv _ _, fun _ => steady_sAck⟩

theorem steady_asduClock : Steady s ((asduClock c s p).run m) := by
  simp only [asduClock, Rd.run_bind, mem_rdReason, mem_rdAddrZero, Rd.mem_octets, Rd.run_ite, Rd.run_pure]
  refine steady_ite steady_nil (steady_ite (steady_andThen ?_) steady_nil)
  simpa using ⟨fun _ => steady_serv _ _, fun _ => steady_sAck⟩

theorem steady_asduMon (reasons : List Nat) (fmts : AsduType → Option MonFmt) :
    Steady s ((asduMon c s p reasons fmts).run m) := by
  rw [run_asduMon]
  refine steady_ite steady_nil ?_
  cases (AsduType.ofCode (m (p + 6))).bind fmts with
  | none => exact steady_nil
  | some f =>
    refine steady_acts fun a ha => ?_
    simp only [valCalls] at ha
    split at ha
    · obtain ⟨i, hi, rfl⟩ := List.mem_mapIdx.mp ha
      rfl
    · cases ha

theorem steady_buildCmdAck (fmts : AsduType → Option CmdFmt) : Steady s ((buildCmdAck c s p fmts).run m) := by
  rw [run_buildCmdAck]
  cases (AsduType.ofCode (m (p + 6))).bind fmts with
  | none => exact steady_skipI
  | some fmt => exact steady_sendI _ _

theorem steady_asduParse : Steady s ((asduParse c s p).run m) := by
  have hyk : Steady s ((asduYk c s p).run m) := by
    simp only [asduYk, Rd.run_bind, Rd.mem_octet, mem_rdReason, Rd.run_ite, Rd.run_pure]
    exact steady_ite (steady_ite (steady_buildCmdAck c s p m _) (steady_serv _ _)) (steady_serv _ _)
  have hyt : Steady s ((asduYt c s p).run m) := by
    simp only [asduYt, Rd.run_bind, mem_rdReason, Rd.run_ite, Rd.run_pure]
    exact steady_ite (steady_buildCmdAck c s p m _) (steady_ite (steady_serv _ _) (steady_serv _ _))
  have hym : Steady s ((asduYm c s p).run m) := by
    simp only [asduYm, Rd.run_bind, mem_rdReason, Rd.run_ite, Rd.run_pure, mem_rdInfoAddr]
    exact steady_ite steady_nil (steady_asduMon c s p m _ _)
  simp only [asduParse, Rd.run_bind, mem_rdType]
  cases AsduType.ofCode ((rdType p).run m) with
  | none => exact steady_nil
  | some t =>
    cases t with
    | mEiNa1 => exact steady_sAck
    | cIcNa1 | cCiNa1 => exact steady_asduCall c s p m _ _
    | cCsNa1 => exact steady_asduClock c s p m
    | cScNa1 | cDcNa1 => exact hyk
    | cSeNa1 | cSeNc1 => exact hyt
    | mSpNa1 | mDpNa1 | mSpTb1 | mDpTb1 | mMeNa1 | mMeNc1 | mMeTd1 | mMeTf1 => exact steady_asduMon c s p m _ _
    | mItNa1 | mItTa1 => exact hym
    | cCdNa1 => exact steady_nil

theorem steady_frameIParse : Steady s ((frameIParse c s p).run m) := by
  rw [run_frameIParse]
  have hparse := steady_asduParse c (dealSn s (Fld.sendSn m p) (Fld.recvSn m p)) p m
  refine steady_ite (steady_acts (List.forall_mem_singleton.mpr rfl)) (steady_ite
    (steady_acts (List.forall_mem_singleton.mpr rfl)) ⟨hparse.stat, hparse.time, ?_⟩)
  exact List.forall_mem_cons.mpr ⟨rfl, hparse.quiet⟩

theorem handled_frameUParse :
    Handled UFunc.startdtAck UFunc.stopdtAck (m (p + 2)) s ((frameUParse s p).run m) := by
  simp only [frameUParse, Rd.run_bind, Rd.mem_octet, Rd.run_ite, Rd.run_pure]
  exact handled_switch ⟨rfl, rfl, rfl, List.forall_mem_nil _⟩ (by decide) (by decide)

/-- **One dispatch of the master.** -/
theorem handled_frameDispatch (now : Int) (l : Nat) :
    Handled UFunc.startdtAck UFunc.stopdtAck (m (p + 2)) s ((frameDispatch c now s p l).run m) := by
  have hformat : Handled UFunc.startdtAck UFunc.stopdtAck (m (p + 2)) s ((frameFormat c s p).run m) := by
    simp only [frameFormat, Rd.run_bind, Rd.mem_octet, Rd.run_ite, Rd.run_pure]
    exact handled_format (steady_frameIParse c s p m) (handled_frameUParse s p m) rfl rfl
  simp only [frameDispatch, Rd.run_bind, Rd.run_pure]
  exact ⟨hformat.stat, hformat.init, hformat.test, hformat.quiet⟩

/-! The calls of the API. -/

theorem steady_buildCall (type : AsduType) (qualifier : UInt8) : Steady s (buildCall c type qualifier s) :=
  steady_ite steady_nil (steady_sendI _ _)

theorem steady_buildCmd (type : AsduType) (nodes : List DevNodeCtrl) (info : List UInt8) :
    Steady s (buildCmd c type nodes info s) := by
  refine steady_andThen ?_
  simpa using ⟨fun _ => steady_acts (List.forall_mem_singleton.mpr rfl), fun _ => steady_sendI _ _⟩

theorem steady_buildYk (nodes : NodeArr) : Steady s (buildYk c nodes s) :=
  steady_ite steady_nil (steady_ite steady_nil (steady_buildCmd c s _ _ _))

theorem steady_buildYt (nodes : NodeArr) : Steady s (buildYt c nodes s) := by
  unfold buildYt
  cases nodes.val with
  | nil => exact steady_nil
  | cons first rest => exact steady_ite steady_nil (steady_buildCmd c s _ _ _)

end Master

/-! ### The slave -/

namespace Slave

variable {P : Type} (c : Conf P) (s : Core) (p : Nat) (m : Mem)

theorem time_asduParse : ((asduParse c s p).run m).1.time = s.time := by
  cases ht : AsduType.ofCode (m (p + 6)) with
  | none => simp only [asduParse, Rd.run_bind, run_rdType, mem_rdType, ht, Rd.run_pure]
  | some t =>
    have hcmd : ∀ fmt, cmdFmt t = some fmt → ((asduParse c s p).run m).1.time = s.time := by
      intro fmt hf
      rw [run_asduParse_cmd c s p m ht hf]
      rfl
    cases t with
    | cScNa1 | cDcNa1 | cSeNa1 | cSeNc1 => exact hcmd _ rfl
    | cIcNa1 =>
      simp only [asduParse, Rd.run_bind, run_rdType, mem_rdType, ht, run_asduCallAll, andThen_sendAll]
      split <;> rfl
    | cCiNa1 =>
      simp only [asduParse, Rd.run_bind, run_rdType, mem_rdType, ht, run_asduCallPulse, andThen_sendAll]
      split <;> rfl
    | cCsNa1 =>
      simp only [asduParse, Rd.run_bind, run_rdType, mem_rdType, ht, Rd.run_pure, run_asduClock]
      split <;> rfl
    | _ => simp only [asduParse, Rd.run_bind, run_rdType, mem_rdType, ht, Rd.run_pure]

theorem steady_asduParse : Steady s ((asduParse c s p).run m) := by
  obtain ⟨hstat, -, hacts⟩ := plain_asduParse c s p m
  refine ⟨hstat, time_asduParse c s p m, fun a ha => ?_⟩
  rcases hacts a ha with ⟨f, up, rfl⟩ | ⟨n, v, rfl⟩ | ⟨b, rfl⟩ <;> rfl

theorem steady_frameIParse : Steady s ((frameIParse c s p).run m) := by
  rw [run_frameIParse]
  have hparse := steady_asduParse c (dealSn s (Fld.sendSn m p) (Fld.recvSn m p)) p m
  refine steady_ite (steady_acts (List.forall_mem_singleton.mpr rfl)) ⟨hparse.stat, hparse.time, ?_⟩
  exact List.forall_mem_cons.mpr ⟨rfl, hparse.quiet⟩

theorem handled_frameUParse : Handled UFunc.startdt UFunc.stopdt (m (p + 2)) s ((frameUParse s p).run m) := by
  rw [run_frameUParse]
  exact handled_switch ⟨rfl, rfl, rfl, List.forall_mem_singleton.mpr rfl⟩ (by decide) (by decide)

/-- **One dispatch of the slave.** -/
theorem handled_frameDispatch (l : Nat) :
    Handled UFunc.startdt UFunc.stopdt (m (p + 2)) s ((frameDispatch c s p l).run m) := by
  simp only [frameDispatch, Rd.run_bind, Rd.mem_octet, Rd.run_ite, Rd.run_pure]
  exact handled_format (steady_frameIParse c s p m) (handled_frameUParse s p m) rfl rfl

/-! The spontaneous reports. -/

theorem steady_buildYxSpon (nodes : NodeArr) : Steady s (buildYxSpon c nodes s) := by
  unfold buildYxSpon
  cases nodes.val with
  | nil => exact steady_nil
  | cons first rest => exact steady_ite steady_nil (steady_sendI _ _)

theorem steady_buildYcSpon (nodes : NodeArr) : Steady s (buildYcSpon c nodes s) := by
  unfold buildYcSpon
  cases nodes.val with
  | nil => exact steady_nil
  | cons first rest => exact steady_ite steady_nil (steady_sendI _ _)

end Slave

end Wow.Iec104
