import Wow.Iec101.Link
import Wow.Iec104.Link

/-!
# Wow.Iec101.Master — the controlling station, `wow_iec101m.c`

As in `Wow.Iec101.Slave`, with a handler that also writes: the execute frame of a set-point is the received
confirmation, its select bits cleared in the byte array and then copied (`buildYtAck`).

* `step`: the events of the station: a read, a turn of the machines, the four calls of the API.
-/

namespace Wow.Iec101.Master

open Iec10x
open Iec104 (CmdFmt ykFmt ytFmt)

/-! ### State and builders -/

/-- What the set-up calls leave. -/
structure Conf where
  asduAddr : UInt16
  valCb : Bool
  servCb : Bool

/-- What a run changes: beside the common part the two `static` frame count bits. -/
structure Core extends Iec101.Core where
  fcbAck : Bool
  fcbData : Bool
  deriving DecidableEq

/-- A master after `calloc` and `reset_param`. -/
def Core.fresh : Core := ⟨.fresh, false, false⟩

variable (c : Conf) (s : Core)

/-- A frame onto the link. -/
def send (f : SendBuf) : Act := .send f true

/-- `serv_cb`. -/
def serv (v : Service) : List Act := if c.servCb then [.serv v] else []

/-- `iec101_m_build_request_user_ack`; the frame count bit changes with every call. -/
def buildRequestUserAck : Cmd Core := fun s =>
  ({ s with fcbAck := !s.fcbAck },
    [send (mk10 (ctrlDown false true (!s.fcbAck) true Func.reqUsrData1) c.asduAddr)])

def buildRequestUserData : Cmd Core := fun s =>
  ({ s with fcbData := !s.fcbData },
    [send (mk10 (ctrlDown false true (!s.fcbData) true Func.reqUsrData2) c.asduAddr)])

def buildRequestLinkStatus : Act := send (mk10 (ctrlDown false true false false Func.reqLinkStatus) c.asduAddr)

def buildResetRemoteLink : Act := send (mk10 (ctrlDown false true false false Func.resetLink) c.asduAddr)

/-- The control octet of all frames with user data. -/
def ctrlUser : UInt8 := ctrlDown true true false true Func.sendUsrDataAck

/-- An assignment to the state of a service. -/
def put (v : Svc) (x : Iec10xStat) (s : Core) : Core := { s with stat := v.set x s.stat }

/-! ### Monitored values -/

/-- What a monitor type says about its elements: the kind of node, the octets of an element and how many of them
the value takes. -/
structure MonFmt where
  mode : DevTypeMod
  type : DevDataType
  size : Nat
  value : Nat

/-- The `switch` of `iec101_m_asdu_yx`: types with a time tag are passed over. -/
def yxFmt : AsduType → Option MonFmt
  | .mSpNa1 | .mDpNa1 => some ⟨.yx, .sint8, 1, 1⟩
  | _ => none

/-- The `switch` of `iec101_m_asdu_yc`. -/
def ycFmt : AsduType → Option MonFmt
  | .mMeNa1 => some ⟨.yc, .sint16, 3, 2⟩
  | .mMeNc1 => some ⟨.yc, .float, 5, 4⟩
  | _ => none

/-- The `switch` of `iec101_m_asdu_ym`. -/
def ymFmt : AsduType → Option MonFmt
  | .mItNa1 => some ⟨.ym, .sint32, 5, 4⟩
  | _ => none

/-- `val_cb` for every object. -/
def valCalls (f : MonFmt) (objs : List (UInt16 × List UInt8)) : List Act :=
  if c.valCb then objs.map fun o => .setVal ⟨f.mode, o.1, f.type⟩ o.2 else []

/-- The common text of `iec101_m_asdu_yx`, `iec101_m_asdu_yc` and `iec101_m_asdu_ym`; `after` is what the case of
the type does to the state. -/
def asduMon (reasons : List Nat) (fmts : AsduType → Option MonFmt) (after : AsduType → Core → Core)
    (type : AsduType) : Rd (Core × List Act) := do
  let n ← rdNum
  let sq ← rdSq
  let reason ← rdReason
  if reason ∉ reasons then pure (s, []) else do
  let vals ← match fmts type with
    | none => pure []
    | some f => do
      let objs ← rdObjs n sq f.value f.size
      pure (valCalls c f objs)
  let r := buildRequestUserAck c (after type s)
  pure (r.1, vals ++ r.2)

def asduYx : AsduType → Rd (Core × List Act) :=
  asduMon c s [Cot.perCyc, Cot.introgen, Cot.spont] yxFmt fun _ => id

/-- `iec101_m_asdu_yc`; normalised values move `stat.callall`, floats do not. -/
def asduYc : AsduType → Rd (Core × List Act) :=
  asduMon c s [Cot.perCyc, Cot.introgen, Cot.spont] ycFmt fun
    | .mMeNa1 => put .callall .callAllYc
    | _ => id

def asduYm : AsduType → Rd (Core × List Act) := asduMon c s [Cot.req] ymFmt fun _ => id

/-! ### Remote control and set-points -/

/-- The place of the select bit of the `i`-th element. -/
def selectAt (sq : Bool) (sz i : Nat) : Nat := 14 + i * (if sq then sz else 2 + sz) + (sz - 1)

/-- The loop that clears the select bits in the byte array. -/
def clearSelect (n : Nat) (sq : Bool) (sz : Nat) : Rd (List Unit) :=
  Rd.forN n fun i => do
    let b ← Rd.octet (selectAt sq sz i)
    Rd.store (selectAt sq sz i) (b &&& 0x7F)

/-- `iec101_m_build_yt_ack`.  With `SQ=1` the elements are copied without their information address.  The length
is taken from a pointer that starts at `NULL`, so it depends on the address of `send_buf`, whose low octet is
`sendBuf`. -/
def buildYtAck (sendBuf : UInt8) : Rd (List Act) :=
  if s.stat.init ≠ .linkIdle then pure [] else do
  let type ← Rd.octet 7
  let n ← rdNum
  let sq ← rdSq
  match (AsduType.ofCode type).bind ytFmt with
  | none => pure []
  | some fmt => do
    let _ ← clearSelect n sq fmt.size
    let sz := if sq then fmt.size else 2 + fmt.size
    let info ← Rd.octets (if sq then 14 else 12) (n * sz)
    pure [send (mk68 ctrlUser c.asduAddr (AsduHead.octets ⟨type, sq, n, Cot.act, false, false, c.asduAddr⟩ ++ info)
      (n * sz + 2 + (256 - sendBuf.toNat)))]

/-- `iec101_m_asdu_yt`; two branches assign the result code of the service. -/
def asduYt (sendBuf : UInt8) : Rd (Core × List Act) := do
  let reason ← rdReason
  let pn ← rdPn
  if pn then pure (put .yt (.ofService .ytCmdFaild) s, [])
  else if reason = Cot.actcon then do
    let acts ← buildYtAck c (put .yt .ytCmdExec s) sendBuf
    pure (put .yt .ytCmdExec s, acts)
  else if reason = Cot.actterm then pure (put .yt .ytCmdSuccess s, [])
  else pure (put .yt (.ofService .ytCmdFaild) s, [])

/-- The objects of an execute of remote control: the received ones with the select bits cleared. -/
def clearYk (sq : Bool) (info : List UInt8) : List UInt8 :=
  info.mapIdx fun i b => if (if sq then 2 ≤ i else i % 3 = 2) then b &&& 0x7F else b

/-- `iec101_m_build_yk_ack`. -/
def buildYkAck : Rd (List Act) :=
  if s.stat.init ≠ .linkIdle then pure [] else do
  let type ← Rd.octet 7
  let n ← rdNum
  let sq ← rdSq
  match (AsduType.ofCode type).bind ykFmt with
  | none => pure []
  | some _ => do
    let info ← Rd.octets 12 (if sq then n + 2 else n * 3)
    let asdu := AsduHead.octets ⟨type, sq, n, Cot.act, false, false, c.asduAddr⟩ ++ clearYk sq info
    pure [send (mk68 ctrlUser c.asduAddr asdu (lenOf asdu))]

/-- `iec101_m_asdu_yk`; two branches assign the result code of the service. -/
def asduYk : Rd (Core × List Act) := do
  let reason ← rdReason
  let pn ← rdPn
  if pn then pure (put .yk (.ofService .ykCmdFaild) s, [])
  else if reason = Cot.actcon then do
    let acts ← buildYkAck c (put .yk .ykCmdExec s)
    pure (put .yk .ykCmdExec s, acts)
  else if reason = Cot.actterm then pure (put .yk .ykCmdSuccess s, [])
  else pure (put .yk (.ofService .ykCmdFaild) s, [])

/-! ### Interrogations -/

/-- The common text of `iec101_m_asdu_call_all` and `iec101_m_asdu_call_pulse`; the sign of the confirmation is not
looked at. -/
def asduCall (qualifier : Nat) (confirmed success : Core → Core) : Rd (Core × List Act) := do
  let q ← Rd.octet 14
  let addr ← Rd.u16 12
  if addr ≠ 0 then pure (s, []) else do
  let reason ← rdReason
  if reason = Cot.actcon then
    if q.toNat = qualifier then pure (buildRequestUserAck c (confirmed s)) else pure (s, [])
  else if reason = Cot.actterm then pure (success s, [])
  else pure (s, [])

def asduCallAll : Rd (Core × List Act) :=
  asduCall c s Cot.introgen (put .callall .callAllYx) (put .callall .callAllSuccess)

def asduCallPulse : Rd (Core × List Act) :=
  asduCall c s Cot.reqcogen (put .callpulse .callPulseYm) (put .callpulse .callPulseSuccess)

/-! ### Received frames -/

/-- `iec101_m_deal_10` behind its checks. -/
def on10 : Rd (Core × List Act) := do
  let ctrl ← Rd.octet 1
  let cfun := ctrl.toNat % 16
  if ctrl.toNat / 64 % 2 = 0 then
    if cfun = Func.resLinkStatus then
      pure ({ s with stat := { s.stat with init := .linkConnectOk } }, [buildResetRemoteLink c])
    else if cfun = Func.confirmAck then pure ({ s with tack := true }, [])
    else pure (s, [])
  else pure (s, [])

/-- The `switch` on the type; integrated totals fall through to the general interrogation. -/
def onUserData (sendBuf : UInt8) : Rd (Core × List Act) := do
  let type ← Rd.octet 7
  match AsduType.ofCode type with
  | some .mSpNa1 => asduYx c s .mSpNa1
  | some .mDpNa1 => asduYx c s .mDpNa1
  | some .mSpTb1 => asduYx c s .mSpTb1
  | some .mDpTb1 => asduYx c s .mDpTb1
  | some .mMeNa1 => asduYc c s .mMeNa1
  | some .mMeNc1 => asduYc c s .mMeNc1
  | some .mMeTd1 => asduYc c s .mMeTd1
  | some .mMeTf1 => asduYc c s .mMeTf1
  | some .mItNa1 => do
    let r ← asduYm c s .mItNa1
    let r' ← asduCallAll c r.1
    pure (r'.1, r.2 ++ r'.2)
  | some .mItTa1 => do
    let r ← asduYm c s .mItTa1
    let r' ← asduCallAll c r.1
    pure (r'.1, r.2 ++ r'.2)
  | some .cIcNa1 => asduCallAll c s
  | some .cCiNa1 => asduCallPulse c s
  | some .cScNa1 | some .cDcNa1 => asduYk c s
  | some .cSeNa1 | some .cSeNc1 => asduYt c s sendBuf
  | _ => pure (s, [])

/-- `iec101_m_deal_68` behind its checks; the function code of a request falls through to that of an answer. -/
def on68 (sendBuf : UInt8) (_len : Nat) : Rd (Core × List Act) := do
  let cfun ← rdFunc 4
  if cfun = Func.sendUsrDataAck ∨ cfun = Func.resUsrDataAck then onUserData c s sendBuf else pure (s, [])

def handlers (sendBuf : UInt8) : Handlers Core := ⟨on10 c, fun s len => on68 c s sendBuf len⟩

/-! ### The machines -/

/-- `iec101_m_state_machine_work`, with its two readings of the clock. -/
def machineWork (now now' : Int) : Cmd Core := fun s =>
  match s.stat.init with
  | .linkInit =>
    ({ s with toCore := { resetParam s.toCore with stat := { (resetParam s.toCore).stat with init := .linkOpen } } }, [])
  | .linkOpen => ({ s with stat := { s.stat with init := .linkConnect } }, [buildRequestLinkStatus c])
  | .linkConnectOk =>
    if s.tack then ({ s with stat := { s.stat with init := .linkIdle }, tack := false }, serv c .connected)
    else (s, [])
  | .linkDisconnect => ({ s with stat := { s.stat with init := .linkInit } }, .close :: serv c .disconnected)
  | .linkClose => ({ s with stat := { s.stat with init := .linkInit } }, [])
  | .linkIdle =>
    if now - s.time.init > heartbeatTimeout then
      let r := buildRequestUserData c s
      ({ r.1 with time := { r.1.time with init := now' } }, r.2)
    else (s, [])
  | _ => (s, [])

/-- The service has taken too long. -/
def expired (now since limit : Int) : Bool := decide (now - since > limit)

/-- `if(tack == 1)` of the waiting cases: the request for the data that is ready. -/
def pollTack : Cmd Core := fun s =>
  if s.tack then
    let r := buildRequestUserAck c s
    ({ r.1 with tack := false }, r.2)
  else (s, [])

/-- `iec101_m_state_machine_callall`: the timeouts assign the result code of the service. -/
def machineCallall (now : Int) : Cmd Core := fun s =>
  let timeout (r : Core × List Act) : Core × List Act :=
    if expired now r.1.time.callall callAllTimeout then (put .callall (.ofService .callAllFaild) r.1, r.2) else r
  match s.stat.callall with
  | .callAllStart => (put .callall .callAllConfirm { s with time := { s.time with callall := now } }, [])
  | .callAllConfirm => timeout (pollTack c s)
  | .callAllYx | .callAllYc => timeout (s, [])
  | .callAllSuccess =>
    let r := buildRequestUserAck c s
    (put .callall .callAllIdle r.1, r.2 ++ serv c .callAllSuccess)
  | .callAllFaild => (put .callall .callAllIdle s, serv c .callAllFaild)
  | _ => (s, [])

/-- `iec101_m_state_machine_callpulse`: the timeouts assign the result code of the service; `now` is the only reading
of the clock in every case. -/
def machineCallpulse (now : Int) : Cmd Core := fun s =>
  let timeout (r : Core × List Act) : Core × List Act :=
    if expired now r.1.time.callpulse callPulseTimeout then (put .callpulse (.ofService .callPulseFaild) r.1, r.2)
    else r
  match s.stat.callpulse with
  | .callPulseStart => (put .callpulse .callPulseConfirm { s with time := { s.time with callpulse := now } }, [])
  | .callPulseConfirm => timeout (pollTack c s)
  | .callPulseYm => timeout (s, [])
  | .callPulseSuccess =>
    let r := buildRequestUserAck c s
    ({ put .callpulse .callPulseIdle r.1 with time := { r.1.time with init := now } }, r.2 ++ serv c .callPulseSuccess)
  | .callPulseFaild => (put .callpulse .callPulseIdle s, serv c .callPulseFaild)
  | _ => (s, [])

/-- `iec101_m_state_machine_yt`. -/
def machineYt (now : Int) : Cmd Core := fun s =>
  let timeout (r : Core × List Act) : Core × List Act :=
    if expired now r.1.time.yt ytCmdTimeout then (put .yt .ytCmdFaild r.1, r.2) else r
  match s.stat.yt with
  | .ytCmdStart => (put .yt .ytCmdConfirm { s with time := { s.time with yt := now } }, [])
  | .ytCmdConfirm | .ytCmdExec => timeout (pollTack c s)
  | .ytCmdSuccess => (put .yt .ytCmdIdle s, serv c .ytCmdSuccess)
  | .ytCmdFaild => (put .yt .ytCmdIdle s, serv c .ytCmdFaild)
  | _ => (s, [])

/-- `iec101_m_state_machine_yk`. -/
def machineYk (now : Int) : Cmd Core := fun s =>
  let timeout (r : Core × List Act) : Core × List Act :=
    if expired now r.1.time.yk ykCmdTimeout then (put .yk .ykCmdFaild r.1, r.2) else r
  match s.stat.yk with
  | .ykCmdStart => (put .yk .ykCmdConfirm { s with time := { s.time with yk := now } }, [])
  | .ykCmdConfirm | .ykCmdExec => timeout (pollTack c s)
  | .ykCmdSuccess => (put .yk .ykCmdIdle s, serv c .ykCmdSuccess)
  | .ykCmdFaild => (put .yk .ykCmdIdle s, serv c .ykCmdFaild)
  | _ => (s, [])

/-- `iec101_m_state_machine`. -/
def stateMachine (clock : Clock) : Cmd Core := fun s =>
  let r := machineWork c clock.work clock.work' s
  if r.1.stat.init ≠ .linkIdle then r
  else
    let r' := andThen r.1 [machineCallall c clock.callall, machineCallpulse c clock.callpulse,
      machineYt c clock.yt, machineYk c clock.yk]
    (r'.1, r.2 ++ r'.2)

/-! ### The API -/

/-- The bits of a frame that `wow_iec101_m_build_call_all` and `wow_iec101_m_build_call_pulse` leave as they find them
on the stack. -/
structure Junk where
  sq : Bool
  pn : Bool
  test : Bool

/-- The common text of the two calls: the frame goes out whatever the state of the link. -/
def buildCall (type : AsduType) (qualifier : Nat) (start : Core → Core) (junk : Junk) : Cmd Core := fun s =>
  (start s, [send (mk68 ctrlUser c.asduAddr
    (AsduHead.octets ⟨type.code, junk.sq, 1, Cot.act, junk.pn, junk.test, c.asduAddr⟩ ++ leU16 0 ++
      [UInt8.ofNat qualifier]) (variableLen + 1))])

def buildCallAll : Junk → Cmd Core := buildCall c .cIcNa1 Cot.introgen (put .callall .callAllStart)

def buildCallPulse : Junk → Cmd Core := buildCall c .cCiNa1 Cot.reqcogen (put .callpulse .callPulseStart)

/-- An accepted command: the request is on the record from here, and the select frame goes out. -/
def buildCmd (type : AsduType) (nodes : List DevNodeCtrl) (info : List UInt8) (start : Core → Core) : Cmd Core :=
  fun s =>
    let asdu := AsduHead.octets ⟨type.code, false, nodes.length, Cot.act, false, false, c.asduAddr⟩ ++ info
    (start s, [.req type nodes, send (mk68 ctrlUser c.asduAddr asdu (lenOf asdu))])

/-- The object of a node in `wow_iec101_m_build_yk`. -/
def ykObj (x : DevNodeCtrl) : List UInt8 := leU16 x.info.addr ++ [0x80 ||| x.value.u8]

def buildYk (nodes : NodeArr) : Cmd Core := fun s =>
  if nodes.val.length = 0 then (s, [])
  else if s.stat.init ≠ .linkIdle then (s, [])
  else buildCmd c .cScNa1 nodes.val (nodes.val.flatMap ykObj) (put .yk .ykCmdStart) s

/-- The type of a `wow_iec101_m_build_yt`, after its first node. -/
def ytType (first : DevNodeCtrl) : AsduType := if first.info.type = .float then .cSeNc1 else .cSeNa1

/-- The object of a node in `wow_iec101_m_build_yt`. -/
def ytObj (first x : DevNodeCtrl) : List UInt8 :=
  leU16 x.info.addr ++ x.value.octets (if first.info.type = .float then 4 else 2) ++ [0x80 ||| 0x00]

def buildYt (nodes : NodeArr) : Cmd Core := fun s =>
  match nodes.val with
  | [] => (s, [])
  | first :: _ =>
    if s.stat.init ≠ .linkIdle then (s, [])
    else buildCmd c (ytType first) nodes.val (nodes.val.flatMap (ytObj first)) (put .yt .ytCmdStart) s

/-! ### The station -/

inductive Event where
  | recv (read : Read) (sendBuf : UInt8)
  | machine (clock : Clock)
  | callAll (junk : Junk)
  | callPulse (junk : Junk)
  | yk (nodes : NodeArr)
  | yt (nodes : NodeArr)

def step (t : Station Core) : Event → Station Core × List Act
  | .recv read sendBuf => recv (handlers c sendBuf) read t
  | .machine clock => t.machine (stateMachine c clock)
  | .callAll junk => t.call (buildCallAll c junk)
  | .callPulse junk => t.call (buildCallPulse c junk)
  | .yk nodes => t.call (buildYk c nodes)
  | .yt nodes => t.call (buildYt c nodes)

/-- A master after its `init` call. -/
def init : Station Core := .init .fresh

/-! A start-up, and the master it leaves: the link is open, every service idle. -/

def sampleConf : Conf := ⟨1, true, true⟩

def sampleClock : Clock := ⟨0, 0, 0, 0, 0, 0, 0, 0⟩

def sampleStart : List Event :=
  [.machine sampleClock, .machine sampleClock, .recv ⟨[0x10, 0x0B, 1, 0, 0x0C, 0x16], by decide⟩ 0,
    .recv ⟨[0x10, 0x00, 1, 0, 0x01, 0x16], by decide⟩ 0, .machine sampleClock]

/-! ### What a frame does -/

section Served

variable (m : Mem)

/-- The state an interrogation frame assigns. -/
def callAssigned (qualifier : Nat) (confirmed success : Iec10xStat) : Option Iec10xStat :=
  if Fld.infoAddr m ≠ 0 then none
  else if Fld.reason m = Cot.actcon then
    if (Fld.elem0 m).toNat = qualifier then some confirmed else none
  else if Fld.reason m = Cot.actterm then some success
  else none

/-- The state a confirmation of a command assigns. -/
def cmdAssigned (exec success : Iec10xStat) (failure : Service) : Iec10xStat :=
  if Fld.pn m then .ofService failure
  else if Fld.reason m = Cot.actcon then exec
  else if Fld.reason m = Cot.actterm then success
  else .ofService failure

/-- The causes with which the master takes yx and yc. -/
def monReasons : List Nat := [Cot.perCyc, Cot.introgen, Cot.spont]

/-- The service a frame with user data moves, and where to. -/
def assigned : Option (Svc × Iec10xStat) :=
  match AsduType.ofCode (Fld.type m) with
  | some .mMeNa1 => if Fld.reason m ∈ monReasons then some (.callall, .callAllYc) else none
  | some .mItNa1 | some .mItTa1 | some .cIcNa1 =>
    (callAssigned m Cot.introgen .callAllYx .callAllSuccess).map (Prod.mk .callall)
  | some .cCiNa1 => (callAssigned m Cot.reqcogen .callPulseYm .callPulseSuccess).map (Prod.mk .callpulse)
  | some .cScNa1 | some .cDcNa1 => some (.yk, cmdAssigned m .ykCmdExec .ykCmdSuccess .ykCmdFaild)
  | some .cSeNa1 | some .cSeNc1 => some (.yt, cmdAssigned m .ytCmdExec .ytCmdSuccess .ytCmdFaild)
  | _ => none

/-- The assignment. -/
def assign : Option (Svc × Iec10xStat) → Core → Core
  | none, s => s
  | some (v, x), s => put v x s

/-- What a handler makes of a state: one assignment at most, the frame count bit, frames and values. -/
structure Served (s : Core) (o : Option (Svc × Iec10xStat)) (r : Core × List Act) : Prop where
  core : ∃ b, r.1 = { assign o s with fcbAck := b }
  acts : ∀ a ∈ r.2, (∃ n v, a = .setVal n v) ∨ ∃ f, a = send f

theorem served_nothing : Served s none (s, []) := ⟨⟨s.fcbAck, rfl⟩, fun _ ha => absurd ha List.not_mem_nil⟩

theorem served_assign (o : Option (Svc × Iec10xStat)) : Served s o (assign o s, []) :=
  ⟨⟨(assign o s).fcbAck, rfl⟩, fun _ ha => absurd ha List.not_mem_nil⟩

theorem served_userAck (o : Option (Svc × Iec10xStat)) : Served s o (buildRequestUserAck c (assign o s)) :=
  ⟨⟨_, rfl⟩, fun _ ha => Or.inr ⟨_, List.mem_singleton.mp ha⟩⟩

theorem setVal_of_mem_valCalls {f : MonFmt} {objs : List (UInt16 × List UInt8)} :
    ∀ a ∈ valCalls c f objs, ∃ n v, a = .setVal n v := by
  intro a ha
  unfold valCalls at ha
  split at ha
  · obtain ⟨o, -, rfl⟩ := List.mem_map.mp ha
    exact ⟨_, _, rfl⟩
  · exact absurd ha List.not_mem_nil

/-- The values of a monitor frame. -/
def monVals (fmt : Option MonFmt) : List Act :=
  match fmt with
  | none => []
  | some f => valCalls c f (Fld.objs m (Fld.num m) (Fld.sq m) f.value f.size)

/-- **A monitor frame**: its values, and a request for more. -/
theorem run_asduMon (reasons : List Nat) (fmts : AsduType → Option MonFmt) (after : AsduType → Core → Core)
    (type : AsduType) : (asduMon c s reasons fmts after type).run m =
      if Fld.reason m ∈ reasons then
        ((buildRequestUserAck c (after type s)).1,
          monVals c m (fmts type) ++ (buildRequestUserAck c (after type s)).2)
      else (s, []) := by
  by_cases hr : Fld.reason m ∈ reasons
  · cases hf : fmts type <;> simp [asduMon, hr, hf, monVals]
  · simp [asduMon, hr]

theorem served_asduMon (reasons : List Nat) (fmts : AsduType → Option MonFmt) (after : AsduType → Core → Core)
    (type : AsduType) (o : Option (Svc × Iec10xStat)) (ho : after type s = assign o s) :
    Served s (if Fld.reason m ∈ reasons then o else none) ((asduMon c s reasons fmts after type).run m) := by
  rw [run_asduMon, ho]
  by_cases hr : Fld.reason m ∈ reasons
  · rw [if_pos hr, if_pos hr]
    have hack := served_userAck c s o
    refine ⟨hack.core, fun a ha => ?_⟩
    rcases List.mem_append.mp ha with hv | hs
    · refine Or.inl ?_
      unfold monVals at hv
      split at hv
      · exact absurd hv List.not_mem_nil
      · exact setVal_of_mem_valCalls c a hv
    · exact hack.acts a hs
  · rw [if_neg hr, if_neg hr]
    exact served_nothing s

theorem mem_asduMon (reasons : List Nat) (fmts : AsduType → Option MonFmt) (after : AsduType → Core → Core)
    (type : AsduType) : (asduMon c s reasons fmts after type).mem m = m := by
  by_cases hr : Fld.reason m ∈ reasons
  · cases hf : fmts type <;> simp [asduMon, hr, hf]
  · simp [asduMon, hr]

/-- **An interrogation frame**, as a function of the buffer. -/
theorem run_asduCall (v : Svc) (qualifier : Nat) (confirmed success : Iec10xStat) :
    (asduCall c s qualifier (put v confirmed) (put v success)).run m =
      if Fld.infoAddr m ≠ 0 then (s, [])
      else if Fld.reason m = Cot.actcon then
        if (Fld.elem0 m).toNat = qualifier then buildRequestUserAck c (put v confirmed s) else (s, [])
      else if Fld.reason m = Cot.actterm then (put v success s, []) else (s, []) := by
  by_cases ha : Fld.infoAddr m = 0
  · have ha' : m.u16 12 = 0 := ha
    by_cases hc : Fld.reason m = Cot.actcon
    · by_cases hq : (m 14).toNat = qualifier <;> simp [asduCall, ha, ha', hc, hq, Fld.elem0]
    · have hne : ¬ Cot.actterm = Cot.actcon := by decide
      by_cases ht : Fld.reason m = Cot.actterm
      · simp [asduCall, ha, ha', ht, hne]
      · simp [asduCall, ha, ha', hc, ht]
  · have ha' : ¬ m.u16 12 = 0 := ha
    simp [asduCall, ha, ha']

theorem served_asduCall (v : Svc) (qualifier : Nat) (confirmed success : Iec10xStat) :
    Served s ((callAssigned m qualifier confirmed success).map (Prod.mk v))
      ((asduCall c s qualifier (put v confirmed) (put v success)).run m) := by
  rw [run_asduCall]
  unfold callAssigned
  split
  · exact served_nothing s
  · split
    · split
      · exact served_userAck c s (some (v, confirmed))
      · exact served_nothing s
    · split
      · exact served_assign s (some (v, success))
      · exact served_nothing s

/-- The execute frames are frames. -/
theorem send_of_mem_buildYtAck (sendBuf : UInt8) : ∀ a ∈ (buildYtAck c s sendBuf).run m, ∃ f, a = send f := by
  intro a ha
  unfold buildYtAck at ha
  by_cases hi : s.stat.init = .linkIdle
  · simp only [hi, ne_eq, not_true_eq_false, if_false, Rd.run_bind] at ha
    split at ha
    · exact absurd ha List.not_mem_nil
    · simp only [Rd.run_bind, Rd.run_pure] at ha
      exact ⟨_, List.mem_singleton.mp ha⟩
  · simp only [hi, ne_eq, not_false_eq_true, if_true] at ha
    exact absurd ha List.not_mem_nil

theorem send_of_mem_buildYkAck : ∀ a ∈ (buildYkAck c s).run m, ∃ f, a = send f := by
  intro a ha
  unfold buildYkAck at ha
  by_cases hi : s.stat.init = .linkIdle
  · simp only [hi, ne_eq, not_true_eq_false, if_false, Rd.run_bind] at ha
    split at ha
    · exact absurd ha List.not_mem_nil
    · simp only [Rd.run_bind, Rd.run_pure] at ha
      exact ⟨_, List.mem_singleton.mp ha⟩
  · simp only [hi, ne_eq, not_false_eq_true, if_true] at ha
    exact absurd ha List.not_mem_nil

/-- **A confirmation of a set-point**, as a function of the buffer. -/
theorem run_asduYt (sendBuf : UInt8) : (asduYt c s sendBuf).run m =
    (put .yt (cmdAssigned m .ytCmdExec .ytCmdSuccess .ytCmdFaild) s,
      if Fld.pn m = false ∧ Fld.reason m = Cot.actcon then (buildYtAck c (put .yt .ytCmdExec s) sendBuf).run m
      else []) := by
  have hne : ¬ Cot.actterm = Cot.actcon := by decide
  cases hp : Fld.pn m with
  | true => simp [asduYt, cmdAssigned, hp]
  | false =>
    by_cases hc : Fld.reason m = Cot.actcon
    · simp [asduYt, cmdAssigned, hp, hc]
    · by_cases ht : Fld.reason m = Cot.actterm
      · simp [asduYt, cmdAssigned, hp, ht, hne]
      · simp [asduYt, cmdAssigned, hp, hc, ht]

/-- **A confirmation of remote control**, as a function of the buffer. -/
theorem run_asduYk : (asduYk c s).run m =
    (put .yk (cmdAssigned m .ykCmdExec .ykCmdSuccess .ykCmdFaild) s,
      if Fld.pn m = false ∧ Fld.reason m = Cot.actcon then (buildYkAck c (put .yk .ykCmdExec s)).run m
      else []) := by
  have hne : ¬ Cot.actterm = Cot.actcon := by decide
  cases hp : Fld.pn m with
  | true => simp [asduYk, cmdAssigned, hp]
  | false =>
    by_cases hc : Fld.reason m = Cot.actcon
    · simp [asduYk, cmdAssigned, hp, hc]
    · by_cases ht : Fld.reason m = Cot.actterm
      · simp [asduYk, cmdAssigned, hp, ht, hne]
      · simp [asduYk, cmdAssigned, hp, hc, ht]

theorem served_asduYt (sendBuf : UInt8) :
    Served s (some (.yt, cmdAssigned m .ytCmdExec .ytCmdSuccess .ytCmdFaild)) ((asduYt c s sendBuf).run m) := by
  rw [run_asduYt]
  refine ⟨⟨s.fcbAck, rfl⟩, fun a ha => Or.inr ?_⟩
  split at ha
  · exact send_of_mem_buildYtAck c _ m sendBuf a ha
  · exact absurd ha List.not_mem_nil

theorem served_asduYk :
    Served s (some (.yk, cmdAssigned m .ykCmdExec .ykCmdSuccess .ykCmdFaild)) ((asduYk c s).run m) := by
  rw [run_asduYk]
  refine ⟨⟨s.fcbAck, rfl⟩, fun a ha => Or.inr ?_⟩
  split at ha
  · exact send_of_mem_buildYkAck c _ m a ha
  · exact absurd ha List.not_mem_nil

/-- Integrated totals: a monitor frame that assigns nothing, then an interrogation frame. -/
theorem served_asduYm_asduCallAll (type : AsduType) :
    Served s ((callAssigned m Cot.introgen .callAllYx .callAllSuccess).map (Prod.mk .callall))
      ((asduYm c s type >>= fun r => asduCallAll c r.1 >>= fun r' =>
        (pure (r'.1, r.2 ++ r'.2) : Rd (Core × List Act))).run m) := by
  have hym := served_asduMon c s m [Cot.req] ymFmt (fun _ => id) type none rfl
  rw [ite_self] at hym
  have hmem := mem_asduMon c s m [Cot.req] ymFmt (fun _ => id) type
  simp only [Rd.run_bind, Rd.run_pure, asduYm, hmem]
  obtain ⟨⟨b, hb⟩, hacts⟩ := hym
  have hcall := served_asduCall c ((asduMon c s [Cot.req] ymFmt (fun _ => id) type).run m).1 m .callall Cot.introgen
    .callAllYx .callAllSuccess
  obtain ⟨⟨b', hb'⟩, hacts'⟩ := hcall
  refine ⟨⟨b', ?_⟩, fun a ha => (List.mem_append.mp ha).elim (hacts a) (hacts' a)⟩
  rw [show (asduCallAll c _).run m = _ from rfl] at *
  rw [asduCallAll, hb', hb]
  cases (callAssigned m Cot.introgen .callAllYx .callAllSuccess).map (Prod.mk Svc.callall) <;> rfl

/-- **What a frame with user data does**: at most one service is moved, and nothing is reported. -/
theorem served_onUserData (sendBuf : UInt8) : Served s (assigned m) ((onUserData c s sendBuf).run m) := by
  have hyx := fun t => served_asduMon c s m monReasons yxFmt (fun _ => id) t none rfl
  have hyc := fun t (ht : t ≠ AsduType.mMeNa1) => served_asduMon c s m monReasons ycFmt
    (fun | .mMeNa1 => put .callall .callAllYc | _ => id) t none (by cases t <;> first | rfl | exact absurd rfl ht)
  simp only [ite_self] at hyx hyc
  simp only [onUserData, assigned, Fld.type, Rd.run_bind, Rd.run_octet, Rd.mem_octet]
  cases AsduType.ofCode (m 7) with
  | none => exact served_nothing s
  | some t =>
    cases t with
    | mSpNa1 | mDpNa1 | mSpTb1 | mDpTb1 => exact hyx _
    | mMeNa1 => exact served_asduMon c s m monReasons ycFmt _ .mMeNa1 (some (.callall, .callAllYc)) rfl
    | mMeNc1 | mMeTd1 | mMeTf1 => exact hyc _ (by decide)
    | mItNa1 | mItTa1 => exact served_asduYm_asduCallAll c s m _
    | cIcNa1 => exact served_asduCall c s m .callall Cot.introgen .callAllYx .callAllSuccess
    | cCiNa1 => exact served_asduCall c s m .callpulse Cot.reqcogen .callPulseYm .callPulseSuccess
    | cScNa1 | cDcNa1 => exact served_asduYk c s m
    | cSeNa1 | cSeNc1 => exact served_asduYt c s m sendBuf
    | _ => exact served_nothing s

/-- A frame whose function code goes with user data. -/
def UserData : Prop := Fld.func m = Func.sendUsrDataAck ∨ Fld.func m = Func.resUsrDataAck

instance : Decidable (UserData m) := inferInstanceAs (Decidable (_ ∨ _))

theorem run_on68 (sendBuf : UInt8) (len : Nat) : (on68 c s sendBuf len).run m =
    if UserData m then (onUserData c s sendBuf).run m else (s, []) := by
  show Rd.run (if UserData m then onUserData c s sendBuf else pure (s, [])) m = _
  split <;> rfl

theorem served_on68 (sendBuf : UInt8) (len : Nat) :
    Served s (if UserData m then assigned m else none) ((on68 c s sendBuf len).run m) := by
  rw [run_on68]
  split
  · exact served_onUserData c s m sendBuf
  · exact served_nothing s

/-- **What a frame of fixed length does**: no service is moved, and nothing is reported. -/
theorem run_on10 : (on10 c s).run m =
    if (m 1).toNat / 64 % 2 = 0 ∧ (m 1).toNat % 16 = Func.resLinkStatus then
      ({ s with stat := { s.stat with init := .linkConnectOk } }, [buildResetRemoteLink c])
    else if (m 1).toNat / 64 % 2 = 0 ∧ (m 1).toNat % 16 = Func.confirmAck then ({ s with tack := true }, [])
    else (s, []) := by
  by_cases hp : (m 1).toNat / 64 % 2 = 0
  · by_cases h1 : (m 1).toNat % 16 = Func.resLinkStatus
    · simp [on10, hp, h1]
    · by_cases h2 : (m 1).toNat % 16 = Func.confirmAck <;> simp [on10, hp, h1, h2]
  · simp [on10, hp]

end Served

end Wow.Iec101.Master
