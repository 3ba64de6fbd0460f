import Wow.Iec104.Loop
import Wow.Iec104.Slave
import Wow.Iec104.Master

/-!
# Wow.Iec104.Contracts — from the calls the stations are made of to their steps

A contract that the small calls of `Wow.Iec104.Link` keep (`LinkKept`) is kept by every handler put together
from them.  What a station does beyond these calls is a hypothesis of each theorem, so that a contract proves
its own core and nothing else.
-/

namespace Wow.Iec104

open Iec10x

variable {γ : Type} {K : Contract Core γ Act}

/-- The calls both stations make keep `K`. -/
structure LinkKept (K : Contract Core γ Act) : Prop where
  uAck : ∀ t, K.Keeps (buildUAck t)
  u : ∀ t, K.Keeps (buildU t)
  sAck : K.Keeps buildSAck
  serv : ∀ cb x, K.Keeps (serv cb x)
  setTest : ∀ x, K.Keeps (setTest x)
  time : ∀ f : Core → Iec10xTime, K.Keeps fun s => ({ s with time := f s }, [])
  close : K.Keeps linkClose
  setDown : ∀ x, x ≠ .linkConnectOk → x ≠ .linkIdle → K.Keeps (setInit x)

/-- A single command is a command. -/
theorem keeps_congr {f h : Cmd} (hf : K.Keeps f) (e : ∀ s, h s = f s) : K.Keeps h := by
  rw [show h = f from funext e]
  exact hf

/-- A property of actions that holds of what both stations do beyond I-frames. -/
theorem linkKept_always {P : Act → Prop} (hctrl : ∀ ctrl up, ctrl.length = 4 → P (.send (mkFrame ctrl []) up))
    (hserv : ∀ x, P (.serv x)) (hclose : P .close) : LinkKept (Contract.always P : Contract Core Unit Act) := by
  have hsend : ∀ {ctrl : Core → List UInt8}, (∀ s, (ctrl s).length = 4) →
      (Contract.always P).Keeps (sendCtrl ctrl) := fun h => Contract.keeps_always.mpr fun s a ha => by
    obtain rfl := List.mem_singleton.mp ha
    exact hctrl _ _ (h s)
  refine
    { uAck := fun t => ?_
      u := fun t => ?_
      sAck := hsend fun _ => rfl
      serv := fun cb x => Contract.keeps_always.mpr fun s a ha => ?_
      setTest := fun x => Contract.keeps_always.mpr fun s a ha => by cases ha
      time := fun f => Contract.keeps_always.mpr fun s a ha => by cases ha
      close := Contract.keeps_always.mpr fun s a ha => ?_
      setDown := fun x _ _ => Contract.keeps_always.mpr fun s a ha => by cases ha }
  · unfold buildUAck
    split_ifs
    · exact hsend fun _ => rfl
    · exact hsend fun _ => rfl
    · exact hsend fun _ => rfl
    · exact Contract.keeps_skip
  · unfold buildU
    split_ifs
    · exact hsend fun _ => rfl
    · exact hsend fun _ => rfl
    · exact hsend fun _ => rfl
    · exact Contract.keeps_skip
  · cases cb with
    | true =>
      obtain rfl := List.mem_singleton.mp ha
      exact hserv x
    | false => cases ha
  · obtain rfl := List.mem_singleton.mp ha
    exact hclose

section Tester

variable (h : LinkKept K)
include h

theorem LinkKept.setTimer (now : Int) : K.Keeps (setTimer now) := h.time fun s => { s.time with timer := now }

/-- The end of a connection from this side. -/
theorem LinkKept.closeDown : K.Keeps fun s => andThen s [linkClose, setInit .linkInit] :=
  keeps_andThen (by simpa using ⟨h.close, h.setDown .linkInit (by decide) (by decide)⟩)

theorem keeps_testerMachine (now : Int) : K.Keeps (testerMachine now) := by
  have hsend : K.Keeps fun s => andThen s [buildU UFunc.tester, setTimer now, setTest .testerIdle] :=
    keeps_andThen (by simpa using ⟨h.u _, h.setTimer now, h.setTest _⟩)
  intro s g hI hA
  rcases testerMachine_cases now s with ⟨-, hs⟩ | ⟨-, hs⟩ | ⟨-, -, hs⟩ | ⟨-, hs⟩ | ⟨-, hs⟩
  · rw [hs] at hA ⊢
    exact ((h.time fun s => { s.time with test := now }).seq hsend) s g hI hA
  · rw [hs] at hA ⊢
    exact h.time (fun s => { s.time with test := now }) s g hI hA
  · rw [hs] at hA ⊢
    exact h.closeDown s g hI hA
  · rw [hs] at hA ⊢
    exact ((h.time fun s => { s.time with test := 0 }).seq (h.setTest .testerStart)) s g hI hA
  · rw [hs]
    exact ⟨trivial, hI⟩

end Tester

/-! ### The master -/

namespace Master

variable (c : Conf) (p : Nat) (m : Mem)

/-- The calls of the master beyond those of both stations. -/
structure Kept (K : Contract Core γ Act) : Prop extends LinkKept K where
  setInit : ∀ x, K.Keeps (setInit x)
  reset : K.Keeps resetParam
  linkOpen : ∀ b, K.Keeps (linkOpen b)
  val : ∀ acts : List Act, (∀ a ∈ acts, ∃ n v, a = .setVal n v) → K.Keeps fun s => (s, acts)

variable {c p m} (h : Kept K)
include h

theorem keeps_asduCall (success faild : Service) :
    K.Keeps fun s => (asduCall c s p success faild).run m := by
  simp only [asduCall, Rd.run_bind, mem_rdReason, mem_rdAddrZero, Rd.run_ite, Rd.run_pure]
  refine Contract.keeps_ite Contract.keeps_skip (Contract.keeps_ite Contract.keeps_skip
    (Contract.keeps_ite (keeps_andThen ?_) (h.serv _ _)))
  simpa using ⟨h.serv _ _, h.sAck⟩

theorem keeps_asduClock : K.Keeps fun s => (asduClock c s p).run m := by
  simp only [asduClock, Rd.run_bind, mem_rdReason, mem_rdAddrZero, Rd.mem_octets, Rd.run_ite, Rd.run_pure]
  refine Contract.keeps_ite Contract.keeps_skip (Contract.keeps_ite (keeps_andThen ?_) Contract.keeps_skip)
  simpa using ⟨h.serv _ _, h.sAck⟩

theorem keeps_asduMon (reasons : List Nat) (fmts : AsduType → Option MonFmt) :
    K.Keeps fun s => (asduMon c s p reasons fmts).run m := by
  simp only [asduMon, Rd.run_bind, mem_rdType, mem_rdNum, mem_rdSq, mem_rdReason, Rd.run_ite, Rd.run_pure]
  refine Contract.keeps_ite Contract.keeps_skip ?_
  cases (AsduType.ofCode ((rdType p).run m)).bind fmts with
  | none => exact Contract.keeps_skip
  | some f =>
    simp only [Rd.run_bind, mem_rdObjs, Rd.run_pure]
    refine h.val _ fun a ha => ?_
    simp only [valCalls] at ha
    split at ha
    · obtain ⟨i, hi, rfl⟩ := List.mem_mapIdx.mp ha
      exact ⟨_, _, rfl⟩
    · simp at ha

/-- The handlers, but for the two that command equipment. -/
theorem keeps_asduParse
    (hyk : K.Keeps fun s => (asduYk c s p).run m) (hyt : K.Keeps fun s => (asduYt c s p).run m) :
    K.Keeps fun s => (asduParse c s p).run m := by
  have hyx := keeps_asduMon (c := c) (p := p) (m := m) h [Cot.perCyc, Cot.introgen, Cot.spont] yxFmt
  have hyc := keeps_asduMon (c := c) (p := p) (m := m) h [Cot.perCyc, Cot.introgen, Cot.spont] ycFmt
  have hym : K.Keeps fun s => (asduYm c s p).run m := by
    simp only [asduYm, Rd.run_bind, mem_rdReason, Rd.run_ite, Rd.run_pure, mem_rdInfoAddr]
    exact Contract.keeps_ite Contract.keeps_skip (keeps_asduMon h _ _)
  simp only [asduParse, Rd.run_bind, mem_rdType]
  cases AsduType.ofCode ((rdType p).run m) with
  | none => exact Contract.keeps_skip
  | some t =>
    cases t with
    | mEiNa1 => exact h.sAck
    | cIcNa1 | cCiNa1 => exact keeps_asduCall h _ _
    | cCsNa1 => exact keeps_asduClock h
    | cScNa1 | cDcNa1 => exact hyk
    | cSeNa1 | cSeNc1 => exact hyt
    | mSpNa1 | mDpNa1 | mSpTb1 | mDpTb1 => exact hyx
    | mMeNa1 | mMeNc1 | mMeTd1 | mMeTf1 => exact hyc
    | mItNa1 | mItTa1 => exact hym
    | cCdNa1 => exact Contract.keeps_skip

theorem keeps_frameUParse : K.Keeps fun s => (frameUParse s p).run m := by
  simp only [frameUParse, Rd.run_bind, Rd.mem_octet, Rd.run_ite, Rd.run_pure]
  refine Contract.keeps_ite (h.setInit _) (Contract.keeps_ite (keeps_andThen ?_)
    (Contract.keeps_ite (h.uAck _) (Contract.keeps_ite (h.setTest _) Contract.keeps_skip)))
  simpa using ⟨h.setInit _, h.uAck _⟩

theorem keeps_asduYk (hack : K.Keeps fun s => (buildYkAck c s p).run m) :
    K.Keeps fun s => (asduYk c s p).run m := by
  simp only [asduYk, Rd.run_bind, Rd.mem_octet, mem_rdReason, Rd.run_ite, Rd.run_pure]
  exact Contract.keeps_ite (Contract.keeps_ite hack (h.serv _ _)) (h.serv _ _)

theorem keeps_asduYt (hack : K.Keeps fun s => (buildYtAck c s p).run m) :
    K.Keeps fun s => (asduYt c s p).run m := by
  simp only [asduYt, Rd.run_bind, mem_rdReason, Rd.run_ite, Rd.run_pure]
  exact Contract.keeps_ite hack (Contract.keeps_ite (h.serv _ _) (h.serv _ _))

/-- One dispatch, from what the I-frame handler keeps. -/
theorem keeps_frameDispatch (hI : K.Keeps fun s => (frameIParse c s p).run m) (now : Int) (l : Nat) :
    K.Keeps fun s => (frameDispatch c now s p l).run m := by
  have hf : K.Keeps fun s => (frameFormat c s p).run m := by
    simp only [frameFormat, Rd.run_bind, Rd.mem_octet, Rd.run_ite, Rd.run_pure]
    exact Contract.keeps_ite hI (Contract.keeps_ite Contract.keeps_skip (keeps_frameUParse h))
  refine keeps_congr (hf.seq (h.setTimer now)) fun s => ?_
  simp [frameDispatch, setTimer]

theorem keeps_linkMachine (now : Int) (opened : Bool) : K.Keeps (linkMachine c now opened) := by
  intro s
  unfold linkMachine
  cases s.stat.init with
  | linkInit => exact keeps_andThen (by simpa using ⟨h.reset, h.setInit _⟩) s
  | linkOpen =>
    cases opened with
    | true => exact keeps_andThen (by simpa using ⟨h.linkOpen _, h.setInit _, h.setTimer now, h.u _⟩) s
    | false => exact h.linkOpen false s
  | linkConnect =>
    dsimp only
    split
    · exact h.closeDown s
    · exact Contract.keeps_skip s
  | linkConnectOk =>
    have hs : K.Keeps fun s => andThen s [setInit .linkIdle, setTimer now, serv c.servCb .connected] :=
      keeps_andThen (by simpa using ⟨h.setInit _, h.setTimer now, h.serv _ _⟩)
    exact fun g hI hA => ((h.time fun s => { s.time with init := 0 }).seq hs) s g hI hA
  | linkDisconnect => exact keeps_andThen (by simpa using ⟨h.close, h.setInit _, h.serv _ _⟩) s
  | linkClose => exact keeps_andThen (by simpa using ⟨h.u _, h.setInit _⟩) s
  | _ => exact Contract.keeps_skip s

theorem keeps_stateMachine (now now' : Int) (opened : Bool) : K.Keeps (stateMachine c now now' opened) := by
  intro s g hI hA
  unfold stateMachine at hA ⊢
  by_cases hc : (linkMachine c now opened s).1.stat.init ≠ .linkIdle
  · simp only [if_pos hc] at hA ⊢
    exact keeps_linkMachine h now opened s g hI hA
  · simp only [if_neg hc] at hA ⊢
    exact ((keeps_linkMachine h now opened).seq (keeps_testerMachine h.toLinkKept now')) s g hI hA

end Master

/-! ### The slave -/

namespace Slave

variable {P : Type} {c : Conf P} {p : Nat} {m : Mem}

/-- The calls of the slave beyond those of both stations.  Its end of initialisation goes out in one state of
the link only. -/
structure Kept (c : Conf P) (K : Contract Core γ Act) : Prop extends LinkKept K where
  reset : K.Keeps resetParam
  accept : K.Keeps acceptCb
  connected : ∀ now, K.Keeps fun s => if s.stat.init = .linkConnectOk then linkMachine c now s else (s, [])

theorem keeps_linkMachine (h : Kept c K) (now : Int) : K.Keeps (linkMachine c now) := by
  intro s
  cases hi : s.stat.init with
  | linkInit =>
    have hs : linkMachine c now s = andThen s [resetParam, setInit .linkOpen] := by simp only [linkMachine, hi]
    rw [hs]
    exact keeps_andThen (by simpa using ⟨h.reset, h.setDown _ (by decide) (by decide)⟩) s
  | linkConnectOk =>
    have hc := h.connected now s
    simp only [if_pos hi] at hc
    exact hc
  | linkDisconnect =>
    have hs : linkMachine c now s = andThen s [setInit .linkInit, serv c.servCb .disconnected] := by
      simp only [linkMachine, hi]
    rw [hs]
    exact keeps_andThen (by simpa using ⟨h.setDown _ (by decide) (by decide), h.serv _ _⟩) s
  | linkClose =>
    have hs : linkMachine c now s = andThen s [buildU UFunc.stopdt, setInit .linkInit] := by
      simp only [linkMachine, hi]
    rw [hs]
    exact keeps_andThen (by simpa using ⟨h.u _, h.setDown _ (by decide) (by decide)⟩) s
  | _ =>
    have hs : linkMachine c now s = (s, []) := by simp only [linkMachine, hi]
    rw [hs]
    exact Contract.keeps_skip s

theorem keeps_stateMachine (h : Kept c K) (now now' : Int) : K.Keeps (stateMachine c now now') := by
  intro s g hI hA
  unfold stateMachine at hA ⊢
  by_cases hc : (linkMachine c now s).1.stat.init ≠ .linkIdle
  · simp only [if_pos hc] at hA ⊢
    exact keeps_linkMachine h now s g hI hA
  · simp only [if_neg hc] at hA ⊢
    exact ((keeps_linkMachine h now).seq (keeps_testerMachine h.toLinkKept now')) s g hI hA

/-- U-frames, but for the activation. -/
theorem keeps_frameUParse (h : LinkKept K) (hstart : K.Keeps (setInit .linkConnectOk)) :
    K.Keeps fun s => (frameUParse s p).run m := by
  simp only [frameUParse, Rd.run_bind, Rd.mem_octet, Rd.run_ite, Rd.run_pure]
  refine Contract.keeps_ite hstart (Contract.keeps_ite (keeps_andThen ?_)
    (Contract.keeps_ite (h.uAck _) (Contract.keeps_ite (h.setTest _) Contract.keeps_skip)))
  simpa using ⟨h.close, h.setDown _ (by decide) (by decide)⟩

end Slave

end Wow.Iec104
