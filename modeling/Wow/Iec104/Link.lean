import Wow.Iec104.Frame
import Wow.Lib.Monitor

/-!
# Wow.Iec104.Link — what `wow_iec104s.c` and `wow_iec104m.c` have word for word in common

`Core` is the part of `Iec104s_T` and of `Iec104m_T` that a run changes; the two structures agree in it.
A `Cmd` is a piece of code that reads no received octet; a sequence of calls is a run of them (`andThen`).
The senders, `build_u`, `build_u_ack`, `build_s_ack`, `reset_param`, the test machine and the layout of
the command elements are the same text in both files.
-/

namespace Wow.Iec104

open Iec10x

/-- What a run of a station changes.  `link` says that a `link_send` reaches a peer: `port->client` is set
and the connection stands. -/
structure Core where
  stat : Iec10xState
  sn : Sn
  time : Iec10xTime
  link : Bool
  deriving DecidableEq

/-- A step of the code that reads no received octet: the new state, and what it does in order. -/
abbrev Cmd := Core → Core × List Act

/-- One call after the other. -/
def andThen (s : Core) (calls : List Cmd) : Core × List Act := run (fun s f => f s) s calls

theorem andThen_cons (s : Core) (f : Cmd) (calls : List Cmd) : andThen s (f :: calls) =
    ((andThen (f s).1 calls).1, (f s).2 ++ (andThen (f s).1 calls).2) := run_cons ..

/-- `serv_cb(serv_priv, x, NULL)`, when the callback is set. -/
def serv (cb : Bool) (x : Service) : Cmd := fun s => (s, if cb then [.serv x] else [])

/-! ### Senders -/

/-- The state of a station after the `build_send++` of a builder. -/
def sent (s : Core) : Core := { s with sn := s.sn.next }

/-- The send of an I-frame: `build_send++` and `link_send`. -/
def sendI (h : AsduHead) (info : List UInt8) : Cmd := fun s => (sent s, [.send (mkI s.sn h info) s.link])

/-- The `build_send++` of a builder that then returns `-1`. -/
def skipI : Cmd := fun s => (sent s, [])

/-- The send of a frame without ASDU. -/
def sendCtrl (ctrl : Core → List UInt8) : Cmd := fun s => (s, [.send (mkFrame (ctrl s) []) s.link])

/-- `build_u`; a stop is sent as a test. -/
def buildU (uType : UInt8) : Cmd :=
  if uType = UFunc.startdt then sendCtrl fun _ => ctrlU UFunc.startdt
  else if uType = UFunc.stopdt then sendCtrl fun _ => ctrlU UFunc.tester
  else if uType = UFunc.tester then sendCtrl fun _ => ctrlU UFunc.tester
  else fun s => (s, [])

/-- `build_u_ack`. -/
def buildUAck (uType : UInt8) : Cmd :=
  if uType = UFunc.startdt then sendCtrl fun _ => ctrlU UFunc.startdtAck
  else if uType = UFunc.stopdt then sendCtrl fun _ => ctrlU UFunc.stopdtAck
  else if uType = UFunc.tester then sendCtrl fun _ => ctrlU UFunc.testerAck
  else fun s => (s, [])

/-- `build_s_ack`. -/
def buildSAck : Cmd := sendCtrl fun s => ctrlS s.sn.buildRecv

/-! ### Link and test machine -/

/-- `link_close`. -/
def linkClose : Cmd := fun s => ({ s with link := false }, [.close])

def setInit (x : Iec10xStat) : Cmd := fun s => ({ s with stat := { s.stat with init := x } }, [])

def setTest (x : Iec10xStat) : Cmd := fun s => ({ s with stat := { s.stat with test := x } }, [])

def setTimer (now : Int) : Cmd := fun s => ({ s with time := { s.time with timer := now } }, [])

/-- `reset_param`; `time.timer` is left. -/
def resetParam : Cmd := fun s =>
  ({ s with
      stat := ⟨.linkInit, .callAllIdle, .callPulseIdle, .ytCmdIdle, .ykCmdIdle, .testerStart⟩
      sn := ⟨0, 0, -1, 0⟩
      time := ⟨0, 0, 0, 0, 0, 0, s.time.timer⟩ }, [.reset])

/-- The last `switch` of `state_machine`, on an idle link; `now` is its reading of `wow_time_get_msec`. -/
def testerMachine (now : Int) : Cmd := fun s =>
  match s.stat.test with
  | .testerStart =>
    let s := { s with time := { s.time with test := now } }
    if now - s.time.timer > circleTesterU then
      andThen s [buildU UFunc.tester, setTimer now, setTest .testerIdle]
    else (s, [])
  | .testerIdle =>
    if now - s.time.test > testerUTimeout then andThen s [linkClose, setInit .linkInit] else (s, [])
  | .testerStop => setTest .testerStart { s with time := { s.time with test := 0 } }
  | _ => (s, [])

/-- **What a pass of the test machine does**: test, wait, give the link up, start over, or nothing. -/
theorem testerMachine_cases (now : Int) (s : Core) :
    (s.stat.test = .testerStart ∧ testerMachine now s = andThen { s with time := { s.time with test := now } }
        [buildU UFunc.tester, setTimer now, setTest .testerIdle]) ∨
      (s.stat.test = .testerStart ∧ testerMachine now s = ({ s with time := { s.time with test := now } }, [])) ∨
      (s.stat.test = .testerIdle ∧ now - s.time.test > testerUTimeout ∧
        testerMachine now s = andThen s [linkClose, setInit .linkInit]) ∨
      (s.stat.test = .testerStop ∧
        testerMachine now s = setTest .testerStart { s with time := { s.time with test := 0 } }) ∨
      (s.stat.test ≠ .testerStop ∧ testerMachine now s = (s, [])) := by
  cases ht : s.stat.test with
  | testerStart =>
    by_cases hc : now - s.time.timer > circleTesterU
    · exact Or.inl ⟨rfl, by simp only [testerMachine, ht, if_pos hc]⟩
    · exact Or.inr (Or.inl ⟨rfl, by simp only [testerMachine, ht, if_neg hc]⟩)
  | testerIdle =>
    by_cases hc : now - s.time.test > testerUTimeout
    · exact Or.inr (Or.inr (Or.inl ⟨rfl, hc, by simp only [testerMachine, ht, if_pos hc]⟩))
    · refine Or.inr (Or.inr (Or.inr (Or.inr ⟨Iec10xStat.noConfusion, ?_⟩)))
      simp only [testerMachine, ht, if_neg hc]
  | testerStop => exact Or.inr (Or.inr (Or.inr (Or.inl ⟨rfl, by simp only [testerMachine, ht]⟩)))
  | _ => exact Or.inr (Or.inr (Or.inr (Or.inr ⟨Iec10xStat.noConfusion, by simp only [testerMachine, ht]⟩)))

/-- A station after `calloc` and `reset_param`. -/
def Core.fresh : Core :=
  ⟨⟨.linkInit, .callAllIdle, .callPulseIdle, .ytCmdIdle, .ykCmdIdle, .testerStart⟩, ⟨0, 0, -1, 0⟩,
    ⟨0, 0, 0, 0, 0, 0, 0⟩, false⟩

/-- What one `link_recv` with a result above 0 delivers into the 1500 octets of `recv_buf`. -/
structure Chunk where
  octets : List UInt8
  pos : 0 < octets.length
  le : octets.length ≤ 1500

/-- A station with the `recv_buf` of its exec thread, which keeps the octets of earlier reads. -/
structure Station where
  core : Core
  recvBuf : Mem

/-- A call that leaves `recv_buf` alone. -/
def Station.call (t : Station) (f : Cmd) : Station × List Act := (⟨(f t.core).1, t.recvBuf⟩, (f t.core).2)

/-- A station after its `init` call, with the zeroed `recv_buf` of its thread. -/
def Station.init : Station := ⟨.fresh, fun _ => 0⟩

theorem keeps_andThen {γ : Type} {K : Contract Core γ Act} {calls : List Cmd} (h : ∀ f ∈ calls, K.Keeps f) :
    K.Keeps fun s => andThen s calls := Contract.keeps_run h

/-! ### Elements of commands -/

/-- What a command type says about its elements: the octets of an element, the kind of node it is for and
the value in it.  The last octet holds the select bit. -/
structure CmdFmt where
  mode : DevTypeMod
  type : DevDataType
  size : Nat
  value : List UInt8 → List UInt8

/-- The select bit of an element. -/
def selected (e : List UInt8) : Bool := e.getLastD 0 &&& 0x80 != 0

/-- An element without its select bit. -/
def unselect (e : List UInt8) : List UInt8 := e.dropLast ++ [e.getLastD 0 &&& 0x7F]

/-- The `switch` of the `yk` functions. -/
def ykFmt : AsduType → Option CmdFmt
  | .cScNa1 => some ⟨.yk, .sint8, 1, fun e => [e.getD 0 0 &&& 0x01]⟩
  | .cDcNa1 => some ⟨.yk, .sint8, 1, fun e => [e.getD 0 0 &&& 0x03]⟩
  | _ => none

/-- The `switch` of the `yt` functions. -/
def ytFmt : AsduType → Option CmdFmt
  | .cSeNa1 => some ⟨.yt, .sint16, 3, fun e => e.take 2⟩
  | .cSeNc1 => some ⟨.yt, .float, 5, fun e => e.take 4⟩
  | _ => none

/-- The command types, with the elements of each. -/
def cmdFmt (t : AsduType) : Option CmdFmt := (ykFmt t).or (ytFmt t)

theorem and_7F_idem (b : UInt8) : b &&& 0x7F &&& 0x7F = b &&& 0x7F := by
  rw [UInt8.and_assoc]
  rfl

theorem cmdFmt_size_pos {t : AsduType} {fmt : CmdFmt} (h : cmdFmt t = some fmt) : 0 < fmt.size := by
  cases t <;> simp only [cmdFmt, ykFmt, ytFmt, Option.or, Option.some.injEq, reduceCtorEq] at h
  all_goals (subst h; decide)

theorem size_of_ykFmt {t : AsduType} {fmt : CmdFmt} (h : cmdFmt t = some fmt) (hyk : (ykFmt t).isSome = true) :
    fmt.size = 1 := by
  cases t <;> simp only [cmdFmt, ykFmt, ytFmt, Option.or, Option.some.injEq, reduceCtorEq, Option.isSome_none,
    Bool.false_eq_true] at h hyk
  all_goals (subst h; rfl)

end Wow.Iec104
