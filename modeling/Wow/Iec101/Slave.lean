import Wow.Iec101.Link
import Wow.Iec104.Link

/-!
# Wow.Iec101.Slave — the controlled station, `wow_iec101s.c`

The configuration (`Conf`, what the `init` and `set_…` calls leave) is apart from what a run changes (`Core`).
The elements of commands are those of IEC 104 (`CmdFmt`); frames, byte array and exec thread are those of
`Wow.Iec101.Link`.

* `setNodeInfo`: the grouping of the nodes.
* `step`: the events of the station: a read, a turn of the machines, a spontaneous report.  The exec thread
  alternates the first two; runs here may take them in any order.
-/

namespace Wow.Iec101.Slave

open Iec10x
open Iec104 (CmdFmt selected ykFmt ytFmt)

/-! ### Configuration -/

/-- `NodeListInfo_T`: the groups of each kind of node, every group an `Slist_T`. -/
structure NodeListInfo where
  yx : List (List DevNodeInfo)
  ycN : List (List DevNodeInfo)
  ycF : List (List DevNodeInfo)
  ym : List (List DevNodeInfo)
  deriving DecidableEq

/-- The lists of a fresh slave. -/
def NodeListInfo.empty : NodeListInfo := ⟨[], [], [], []⟩

/-- `wow_slist_insert_tail` into the list made last. -/
def insertTail (lists : List (List DevNodeInfo)) (x : DevNodeInfo) : List (List DevNodeInfo) :=
  lists.dropLast ++ [lists.getLastD [] ++ [x]]

/-- One round of a loop of `wow_iec101_s_set_node_info`, with `baddr` and the lists of its kind.  The branch of a
new list does not insert the node. -/
def groupRound (limit : Nat) (st : Int × List (List DevNodeInfo)) (x : DevNodeInfo) :
    Int × List (List DevNodeInfo) :=
  if st.1 = x.addr.toNat + 1 then
    let lists := insertTail st.2 x
    if (lists.getLastD []).length ≥ limit then (x.addr.toNat, lists ++ [[]]) else (x.addr.toNat, lists)
  else (x.addr.toNat, st.2 ++ [[]])

/-- One of the four loops: the nodes `p` lets through, into the lists of their kind. -/
def groupLoop (limit : Nat) (p : DevNodeInfo → Bool) (lists : List (List DevNodeInfo)) (nodes : List DevNodeInfo) :
    List (List DevNodeInfo) :=
  ((nodes.filter p).foldl (groupRound limit) (-1, lists)).2

def isYx (x : DevNodeInfo) : Bool := decide (x.mode = .yx)

def isYcN (x : DevNodeInfo) : Bool := decide (x.mode = .yc ∧ x.type ≠ .float)

def isYcF (x : DevNodeInfo) : Bool := decide (x.mode = .yc ∧ x.type = .float)

def isYm (x : DevNodeInfo) : Bool := decide (x.mode = .ym)

/-- `wow_iec101_s_set_node_info`. -/
def setNodeInfo (l : NodeListInfo) (nodes : List DevNodeInfo) : NodeListInfo where
  yx := groupLoop 200 isYx l.yx nodes
  ycN := groupLoop 100 isYcN l.ycN nodes
  ycF := groupLoop 50 isYcF l.ycF nodes
  ym := groupLoop 50 isYm l.ym nodes

/-- What the set-up calls leave: the callbacks, their private data (of a type `P`) and the node lists.
`getValCb p x` is what `val` holds after `get_val_cb(p, x, &val)`, whose result is not looked at. -/
structure Conf (P : Type) where
  asduAddr : UInt16
  setValCb : Bool
  getValCb : Option (P → DevNodeInfo → DevNodeVal)
  servCb : Bool
  getValPriv : P
  nodeList : NodeListInfo

variable {P : Type} (c : Conf P)

/-! ### Builders -/

/-- A frame onto the link. -/
def send (f : SendBuf) : Act := .send f true

/-- `serv_cb`. -/
def serv (v : Service) : List Act := if c.servCb then [.serv v] else []

def buildLinkStatusAck : Act := send (mk10 (ctrlUp false false false false Func.resLinkStatus) c.asduAddr)

def buildRequestConfirm : Act := send (mk10 (ctrlUp false false false false Func.confirmAck) c.asduAddr)

def buildRequestUserNack : Act := send (mk10 (ctrlUp false false false false Func.resUsrDataNack) c.asduAddr)

def buildRequestUserAck : Act := send (mk10 (ctrlUp false false true false Func.confirmAck) c.asduAddr)

/-- What `get_val_cb` stores for a node. -/
def getVal (node : DevNodeInfo) : Option DevNodeVal := c.getValCb.map fun f => f c.getValPriv node

/-- The element of a node in `iec101_s_build_yx`. -/
def yxElem (_ : Nat) (node : DevNodeInfo) : List UInt8 :=
  match getVal c node with
  | some v => [v.u8]
  | none => [0]

/-- The element of a node in `iec101_s_build_yc`: its own type gives the size. -/
def ycElem (_ : Nat) (node : DevNodeInfo) : List UInt8 :=
  let size := match node.type with
    | .float => 4
    | _ => 2
  match getVal c node with
  | some v => v.octets size ++ [0]
  | none => List.replicate size 0 ++ [0]

/-- The element of a node in `iec101_s_build_ym`, with the number of the element behind the value. -/
def ymElem (i : Nat) (node : DevNodeInfo) : List UInt8 :=
  match getVal c node with
  | some v => v.octets 4 ++ [UInt8.ofNat i]
  | none => List.replicate 4 0 ++ [UInt8.ofNat i]

/-- The common text of `build_yx`, `build_yc` and `build_ym`: the nodes of a group, as many as the 7-bit `_num`
holds, behind the address of the first. -/
def buildGroup (type : DevNodeInfo → AsduType) (elem : Nat → DevNodeInfo → List UInt8) (reason : Nat)
    (list : List DevNodeInfo) : List Act :=
  match list with
  | [] => []
  | first :: _ =>
    let asdu := AsduHead.octets ⟨(type first).code, true, list.length, reason, false, false, c.asduAddr⟩ ++
      leU16 first.addr ++ ((list.take (list.length % 128)).mapIdx elem).flatten
    [send (mk68 (ctrlUp false false true false Func.resUsrDataAck) c.asduAddr asdu (lenOf asdu))]

def buildYx (reason : Nat) : List DevNodeInfo → List Act := buildGroup c (fun _ => .mSpNa1) (yxElem c) reason

def buildYc (reason : Nat) : List DevNodeInfo → List Act :=
  buildGroup c (fun x => if x.type = .float then .mMeNc1 else .mMeNa1) (ycElem c) reason

def buildYm (reason : Nat) : List DevNodeInfo → List Act := buildGroup c (fun _ => .mItNa1) (ymElem c) reason

/-- The common text of `build_call_ack` and `build_call_finsh`. -/
def buildCall (acd : Bool) (reason : Nat) (qoi : UInt8) : Act :=
  send (mk68 (ctrlUp false false acd false Func.resUsrDataAck) c.asduAddr
    (AsduHead.octets ⟨AsduType.cIcNa1.code, false, 1, reason, false, false, c.asduAddr⟩ ++ leU16 0 ++ [qoi])
    (variableLen + 1))

def buildCallAck : Act := buildCall c true Cot.actcon (UInt8.ofNat Cot.introgen)

def buildCallFinsh (qoi : UInt8) : Act := buildCall c false Cot.actterm qoi

/-- `asdu->_reason._reason = reason` in a cleared buffer that begins with `bak`. -/
def setReason (reason : Nat) (bak : List UInt8) : List UInt8 :=
  let asdu := bak ++ List.replicate (3 - bak.length) 0
  asdu.set 2 (UInt8.ofNat (reason % 64 + (asdu.getD 2 0).toNat / 64 * 64))

/-- The common text of `build_yk_ack` and `build_yt_ack`: the saved command with another cause, under a length
that counts one octet for each object.  The call is never made without a saved command. -/
def buildCmdAck (reason : Nat) : Option (List UInt8) → List Act
  | none => []
  | some bak =>
    [send (mk68 (ctrlUp false false true false Func.resUsrDataAck) c.asduAddr (setReason reason bak)
      (variableLen + (bak.getD 1 0).toNat % 128))]

variable (s : Core)

def buildYtAck (reason : Nat) : List Act := buildCmdAck c reason s.back.ytBak

def buildYkAck (reason : Nat) : List Act := buildCmdAck c reason s.back.ykBak

/-! ### Set-points and remote control -/

/-- The conversion of a `float` to an `int16_t`: towards zero, by way of 32 bits; 0 for what does not fit them,
which the language leaves open. -/
def sint16OfFloat (e : List UInt8) : UInt16 :=
  let w := (e.getD 0 0).toNat + 256 * ((e.getD 1 0).toNat + 256 * ((e.getD 2 0).toNat + 256 * (e.getD 3 0).toNat))
  let exp := w / 2 ^ 23 % 256
  let frac := 2 ^ 23 + w % 2 ^ 23
  let t := if exp < 127 then 0 else if exp ≤ 150 then frac / 2 ^ (150 - exp)
    else if exp ≤ 157 then frac * 2 ^ (exp - 150) else 0
  if w / 2 ^ 31 = 1 then - UInt16.ofNat t else UInt16.ofNat t

/-- What `iec101_s_asdu_yt` stores in `val` for an element; a single float goes through `val.s16`. -/
def ytValue (fmt : CmdFmt) (sq : Bool) (e : List UInt8) : List UInt8 :=
  if fmt.type = .float ∧ sq = false then leU16 (sint16OfFloat e) else fmt.value e

/-- `set_val_cb` for an object. -/
def setValue (fmt : CmdFmt) (value : List UInt8 → List UInt8) (o : UInt16 × List UInt8) : Option Act :=
  if c.setValCb then some (.setVal ⟨fmt.mode, o.1, fmt.type⟩ (value o.2)) else none

/-- The octets a saved command keeps of a frame of `len` octets, in a `uint16_t`. -/
def bakSize (len : Nat) : Nat := (len + 65536 - 8) % 65536

/-- `iec101_s_asdu_yt`: the objects are applied up to the first one with the select bit; when none has it, the
state of remote control is set. -/
def asduYt (len : Nat) : Rd (Core × List Act) := do
  let type ← Rd.octet 7
  let n ← rdNum
  let sq ← rdSq
  let reason ← rdReason
  if reason ≠ Cot.act then pure (s, []) else
  match (AsduType.ofCode type).bind ytFmt with
  | none => pure (s, serv c .ytCmdFaild)
  | some fmt => do
    let r ← rdObjsUntil n sq fmt.size fmt.size fun o => selected o.2
    let yk := if r.2 then s.stat.yk else .ykCmdExec
    let bak ← Rd.octets 7 (bakSize len)
    pure ({ s with
      stat := { s.stat with yk := yk, yt := .ytCmdStart }
      back := { s.back with ytBak := some bak } },
      r.1.filterMap (setValue c fmt (ytValue fmt sq)))

/-- `iec101_s_asdu_yk`: the first element tells select and execute apart. -/
def asduYk (len : Nat) : Rd (Core × List Act) := do
  let type ← Rd.octet 7
  let n ← rdNum
  let sq ← rdSq
  let reason ← rdReason
  if reason ≠ Cot.act then pure (s, []) else do
  let e0 ← Rd.octet 14
  if selected [e0] then do
    let bak ← Rd.octets 7 (bakSize len)
    pure ({ s with stat := { s.stat with yk := .ykCmdStart }, back := { s.back with ykBak := some bak } }, [])
  else
    let s := { s with stat := { s.stat with yk := .ykCmdExec } }
    match (AsduType.ofCode type).bind ykFmt with
    | none => pure (s, serv c .ykCmdFaild)
    | some fmt => do
      let objs ← rdObjs n sq fmt.size fmt.size
      pure (s, (objs.filter fun o => !selected o.2).filterMap (setValue c fmt fmt.value))

/-! ### Interrogations -/

/-- The common text of `iec101_s_asdu_call_all` and `iec101_s_asdu_call_pulse`: a positive qualifier sets
`stat.callall`. -/
def asduCall (qualifier : Nat) (start : Iec10xStat) : Rd Core := do
  let q ← Rd.octet 14
  let addr ← Rd.u16 12
  if addr ≠ 0 then pure s else do
  let reason ← rdReason
  if reason ≠ Cot.act then pure s else
  if q.toNat = qualifier then pure { s with stat := { s.stat with callall := start } } else pure s

def asduCallAll : Rd Core := asduCall s Cot.introgen .callAllStart

def asduCallPulse : Rd Core := asduCall s Cot.reqcogen .callPulseStart

/-! ### Received frames -/

/-- `iec101_s_deal_10` behind its checks. -/
def on10 : Rd (Core × List Act) := do
  let ctrl ← Rd.octet 1
  let cfun := ctrl.toNat % 16
  if ctrl.toNat / 64 % 2 = 1 then
    if cfun = Func.resetLink then pure (s, [buildRequestConfirm c])
    else if cfun = Func.reqLinkStatus then
      pure ({ s with stat := { s.stat with init := .linkConnectOk } }, [buildLinkStatusAck c])
    else if cfun = Func.reqUsrData1 then pure ({ s with tack := true }, [])
    else if cfun = Func.reqUsrData2 then pure (s, [buildRequestUserNack c])
    else pure (s, [])
  else pure (s, [])

/-- The `switch` on the type of a frame with `IEC101_CTRL_SEND_USR_DATA_ACK`; a counter interrogation falls through
to the confirmation. -/
def onUserData (len : Nat) : Rd (Core × List Act) := do
  let type ← Rd.octet 7
  match AsduType.ofCode type with
  | some .cIcNa1 => do
    let s ← asduCallAll s
    pure (s, [])
  | some .cCiNa1 => do
    let s ← asduCallPulse s
    pure (s, [buildRequestConfirm c])
  | some .cCdNa1 => pure (s, [buildRequestConfirm c])
  | some .cScNa1 | some .cDcNa1 => asduYk c s len
  | some .cSeNa1 | some .cSeNc1 => asduYt c s len
  | _ => pure (s, [])

/-- `iec101_s_deal_68` behind its checks. -/
def on68 (len : Nat) : Rd (Core × List Act) := do
  let cfun ← rdFunc 4
  if cfun = Func.sendUsrDataAck then onUserData c s len
  else if cfun = Func.resUsrDataAck then do
    let type ← Rd.octet 7
    if AsduType.ofCode type = some .cCsNa1 then pure (s, [buildRequestConfirm c]) else pure (s, [])
  else pure (s, [])

def handlers : Handlers Core := ⟨on10 c, on68 c⟩

/-! ### The machines -/

/-- `iec101_s_state_machine_work`. -/
def machineWork : Cmd Core := fun s =>
  match s.stat.init with
  | .linkInit => ({ resetParam s with stat := { (resetParam s).stat with init := .linkOpen } }, [])
  | .linkOpen => ({ s with stat := { s.stat with init := .linkConnect } }, [])
  | .linkConnectOk => ({ s with stat := { s.stat with init := .linkIdle } }, serv c .connected)
  | .linkDisconnect => ({ s with stat := { s.stat with init := .linkInit } }, .close :: serv c .disconnected)
  | .linkClose => ({ s with stat := { s.stat with init := .linkInit } }, [])
  | _ => (s, [])

/-- The last test of a case: the service has taken too long. -/
def expired (now since limit : Int) : Bool := decide (now - since > limit)

/-- A case of a machine that waits for `tack`: what it then sends, and its next state; then the timeout. -/
def awaitTack (tack : Bool) (now since limit : Int) (acts : List Act) (here next faild : Iec10xStat) :
    Iec10xStat × List Act :=
  (if expired now since limit then faild else if tack then next else here, if tack then acts else [])

/-- `iec101_s_state_machine_callall`; `now` is its reading of the clock. -/
def machineCallall (now : Int) : Cmd Core := fun s =>
  let await (acts : List Act) (next : Iec10xStat) : Core × List Act :=
    let r := awaitTack s.tack now s.time.callall callAllTimeout acts s.stat.callall next .callAllFaild
    ({ s with stat := { s.stat with callall := r.1 }, tack := false }, r.2)
  match s.stat.callall with
  | .callAllStart =>
    ({ s with stat := { s.stat with callall := .callAllConfirm }, time := { s.time with callall := now } },
      [buildRequestUserAck c])
  | .callAllConfirm => await [buildCallAck c] .callAllYx
  | .callAllYx => await (c.nodeList.yx.flatMap (buildYx c Cot.introgen)) .callAllYc
  | .callAllYc =>
    await (c.nodeList.ycN.flatMap (buildYc c Cot.introgen) ++ c.nodeList.ycF.flatMap (buildYc c Cot.introgen))
      .callAllSuccess
  | .callAllSuccess =>
    if s.tack then
      ({ s with stat := { s.stat with callall := .callAllIdle }, tack := false },
        buildCallFinsh c (UInt8.ofNat Cot.introgen) :: serv c .callAllSuccess)
    else (s, [])
  | .callAllFaild => ({ s with stat := { s.stat with callall := .callAllIdle } }, serv c .callAllFaild)
  | _ => (s, [])

/-- `iec101_s_state_machine_callpulse`: its timeouts are those of the general interrogation, and the second one
falls on `stat.callall`. -/
def machineCallpulse (now : Int) : Cmd Core := fun s =>
  match s.stat.callpulse with
  | .callPulseStart =>
    ({ s with stat := { s.stat with callpulse := .callPulseConfirm }, time := { s.time with callpulse := now } },
      [buildRequestUserAck c])
  | .callPulseConfirm =>
    let r := awaitTack s.tack now s.time.callpulse callAllTimeout [buildCallAck c] s.stat.callpulse .callPulseYm
      .callPulseIdle
    ({ s with stat := { s.stat with callpulse := r.1 }, tack := false }, r.2)
  | .callPulseYm =>
    ({ s with
      stat := { s.stat with
        callpulse := if s.tack then .callPulseSuccess else s.stat.callpulse
        callall := if expired now s.time.callpulse callAllTimeout then .callPulseIdle else s.stat.callall }
      tack := false },
      if s.tack then c.nodeList.ym.flatMap (buildYm c Cot.reqcogen) else [])
  | .callPulseSuccess =>
    if s.tack then
      ({ s with stat := { s.stat with callpulse := .callPulseIdle }, tack := false },
        buildCallFinsh c (UInt8.ofNat Cot.introgen) :: serv c .callPulseSuccess)
    else (s, [])
  | _ => (s, [])

/-- `iec101_s_state_machine_yt`, with its two readings of the clock. -/
def machineYt (now now' : Int) : Cmd Core := fun s =>
  match s.stat.yt with
  | .ytCmdStart =>
    ({ s with
      stat := { s.stat with yt := if expired now' now ytCmdTimeout then .ytCmdFaild else .ytCmdConfirm }
      time := { s.time with yt := now } }, [buildRequestUserAck c])
  | .ytCmdConfirm =>
    ({ s with
      stat := { s.stat with yt := if expired now s.time.yt ytCmdTimeout then .ytCmdFaild else s.stat.yt }
      tack := false }, if s.tack then buildYtAck c s Cot.actcon else [])
  | .ytCmdExec =>
    ({ s with
      stat := { s.stat with yt := if expired now s.time.yt ytCmdTimeout then .ytCmdFaild else .ytCmdSuccess }
      tack := false }, [buildRequestUserAck c])
  | .ytCmdSuccess =>
    ({ s with stat := { s.stat with yt := .ytCmdIdle }, tack := false },
      if s.tack then buildYtAck c s Cot.actterm ++ serv c .ytCmdSuccess else [])
  | .ytCmdFaild => ({ s with stat := { s.stat with yt := .ytCmdIdle } }, serv c .ytCmdFaild)
  | _ => (s, [])

/-- `iec101_s_state_machine_yk`: the case of the execute sets `stat.yt`. -/
def machineYk (now now' : Int) : Cmd Core := fun s =>
  match s.stat.yk with
  | .ykCmdStart =>
    ({ s with
      stat := { s.stat with yk := if expired now' now ykCmdTimeout then .ykCmdFaild else .ykCmdConfirm }
      time := { s.time with yk := now } }, [buildRequestUserAck c])
  | .ykCmdConfirm =>
    ({ s with
      stat := { s.stat with yk := if expired now s.time.yk ykCmdTimeout then .ykCmdFaild else s.stat.yk }
      tack := false }, if s.tack then buildYkAck c s Cot.actcon else [])
  | .ykCmdExec =>
    ({ s with
      stat := { s.stat with
        yt := .ykCmdSuccess
        yk := if expired now s.time.yk ykCmdTimeout then .ykCmdFaild else s.stat.yk }
      tack := false }, [buildRequestUserAck c])
  | .ykCmdSuccess =>
    ({ s with
      stat := { s.stat with yk := .ykCmdIdle }
      back := if s.tack then { s.back with ykBak := none } else s.back
      tack := false },
      if s.tack then buildYkAck c s Cot.actterm ++ serv c .ykCmdSuccess else [])
  | .ykCmdFaild =>
    ({ s with stat := { s.stat with yk := .ykCmdIdle }, back := { s.back with ykBak := none } },
      serv c .ykCmdFaild)
  | _ => (s, [])

/-- `iec101_s_state_machine`. -/
def stateMachine (clock : Clock) : Cmd Core := fun s =>
  let r := machineWork c s
  if r.1.stat.init ≠ .linkIdle then r
  else
    let r' := andThen r.1 [machineCallall c clock.callall, machineCallpulse c clock.callpulse,
      machineYt c clock.yt clock.yt', machineYk c clock.yk clock.yk']
    (r'.1, r.2 ++ r'.2)

/-! ### Spontaneous reports -/

/-- The common text of `wow_iec101_s_build_yx_spon` and `wow_iec101_s_build_yc_spon`. -/
def buildSpon (type : DevNodeCtrl → AsduType) (obj : DevNodeCtrl → DevNodeCtrl → List UInt8) (nodes : NodeArr) :
    Cmd Core := fun s =>
  match nodes.val with
  | [] => (s, [])
  | first :: _ =>
    if s.stat.init ≠ .linkIdle then (s, [])
    else
      let asdu := AsduHead.octets ⟨(type first).code, false, nodes.val.length, Cot.spont, false, false, c.asduAddr⟩ ++
        nodes.val.flatMap (obj first)
      (s, [send (mk68 (ctrlUp false false false false Func.resUsrDataAck) c.asduAddr asdu (lenOf asdu))])

/-- The time tag of a node: the first one decides. -/
def timeTag (first x : DevNodeCtrl) : List UInt8 := if first.value.year > 0 then x.value.time.toList else []

/-- The type of a `wow_iec101_s_build_yx_spon`: the one without a time tag goes with the tags. -/
def yxSponType (first : DevNodeCtrl) : AsduType := if first.value.year > 0 then .mSpNa1 else .mSpTb1

def buildYxSpon : NodeArr → Cmd Core :=
  buildSpon c yxSponType fun first x => leU16 x.info.addr ++ [x.value.u8] ++ timeTag first x

/-- The type of a `wow_iec101_s_build_yc_spon`. -/
def ycSponType (first : DevNodeCtrl) : AsduType :=
  if first.info.type = .float then
    if first.value.year > 0 then .mMeTf1 else .mMeNc1
  else
    if first.value.year > 0 then .mMeTd1 else .mMeNa1

/-- The object of a node in `wow_iec101_s_build_yc_spon`: its own type gives the size. -/
def buildYcSpon : NodeArr → Cmd Core :=
  buildSpon c ycSponType fun first x =>
    leU16 x.info.addr ++ x.value.octets (if x.info.type = .float then 4 else 2) ++ [0] ++ timeTag first x

/-! ### The station -/

inductive Event where
  | recv (read : Read)
  | machine (clock : Clock)
  | yxSpon (nodes : NodeArr)
  | ycSpon (nodes : NodeArr)

def step (t : Station Core) : Event → Station Core × List Act
  | .recv read => recv (handlers c) read t
  | .machine clock => t.machine (stateMachine c clock)
  | .yxSpon nodes => t.call (buildYxSpon c nodes)
  | .ycSpon nodes => t.call (buildYcSpon c nodes)

/-- A slave after its `init` call. -/
def init : Station Core := .init .fresh

/-! A start-up, and the slave it leaves: the link is open, every service idle. -/

def sampleConf : Conf Unit := ⟨1, true, none, true, (), .empty⟩

def sampleClock : Clock := ⟨0, 0, 0, 0, 0, 0, 0, 0⟩

def sampleStart : List Event :=
  [.machine sampleClock, .machine sampleClock, .recv ⟨[0x10, 0x49, 1, 0, 0x4A, 0x16], by decide⟩,
    .machine sampleClock]

/-! ### What a frame does -/

section Served

variable (m : Mem)

/-- The frame activates an interrogation with this qualifier. -/
def Activates (qualifier : Nat) : Prop :=
  (Fld.elem0 m).toNat = qualifier ∧ Fld.infoAddr m = 0 ∧ Fld.reason m = Cot.act

instance (qualifier : Nat) : Decidable (Activates m qualifier) := inferInstanceAs (Decidable (_ ∧ _ ∧ _))

/-- The objects of a set-point frame, with their elements. -/
def ytObjs (fmt : CmdFmt) : List (UInt16 × List UInt8) := Fld.objs m (Fld.num m) (Fld.sq m) fmt.size fmt.size

/-- A set-point frame none of whose objects has the select bit. -/
def ytExecute : Bool :=
  match (AsduType.ofCode (Fld.type m)).bind ytFmt with
  | none => false
  | some fmt => (ytObjs m fmt).all fun o => !selected o.2

/-- The states after a frame with user data. -/
def statAfter (x : Iec10xState) : Iec10xState :=
  match AsduType.ofCode (Fld.type m) with
  | some .cIcNa1 => if Activates m Cot.introgen then { x with callall := .callAllStart } else x
  | some .cCiNa1 => if Activates m Cot.reqcogen then { x with callall := .callPulseStart } else x
  | some .cScNa1 | some .cDcNa1 =>
    if Fld.reason m ≠ Cot.act then x
    else if selected [Fld.elem0 m] then { x with yk := .ykCmdStart } else { x with yk := .ykCmdExec }
  | some .cSeNa1 | some .cSeNc1 =>
    if Fld.reason m ≠ Cot.act then x
    else { x with yk := if ytExecute m then .ykCmdExec else x.yk, yt := .ytCmdStart }
  | _ => x

theorem run_asduCall (qualifier : Nat) (start : Iec10xStat) : (asduCall s qualifier start).run m =
    if Activates m qualifier then { s with stat := { s.stat with callall := start } } else s := by
  by_cases ha : Fld.infoAddr m = 0
  · have ha' : m.u16 12 = 0 := ha
    by_cases hr : Fld.reason m = Cot.act
    · by_cases hq : (m 14).toNat = qualifier
      · rw [if_pos ⟨hq, ha, hr⟩]
        simp [asduCall, ha', hr, hq]
      · rw [if_neg fun h => hq h.1]
        simp [asduCall, ha', hq]
    · rw [if_neg fun h => hr h.2.2]
      simp [asduCall, ha', hr]
  · have ha' : ¬ m.u16 12 = 0 := ha
    rw [if_neg fun h => ha h.2.1]
    simp [asduCall, ha']

/-- **A set-point frame**, as a function of the buffer. -/
theorem run_asduYt (len : Nat) : (asduYt c s len).run m =
    if Fld.reason m ≠ Cot.act then (s, [])
    else match (AsduType.ofCode (Fld.type m)).bind ytFmt with
      | none => (s, serv c .ytCmdFaild)
      | some fmt =>
        ({ s with
          stat := { s.stat with yk := if ytExecute m then .ykCmdExec else s.stat.yk, yt := .ytCmdStart }
          back := { s.back with ytBak := some (m.slice 7 (bakSize len)) } },
          ((ytObjs m fmt).takeWhile fun o => !selected o.2).filterMap
            (setValue c fmt (ytValue fmt (Fld.sq m)))) := by
  by_cases hr : Fld.reason m = Cot.act
  · cases hf : (AsduType.ofCode (m 7)).bind ytFmt with
    | none => simp [asduYt, hr, hf, Fld.type]
    | some fmt =>
      have hyk : (if (ytObjs m fmt).any fun o => selected o.2 then s.stat.yk else Iec10xStat.ykCmdExec) =
          if ytExecute m then .ykCmdExec else s.stat.yk := by
        have hx : ytExecute m = (ytObjs m fmt).all fun o => !selected o.2 := by
          rw [ytExecute, Fld.type, hf]
        rw [hx, List.any_eq_not_all_not]
        cases (ytObjs m fmt).all fun o => !selected o.2 <;> rfl
      simp only [asduYt, Rd.run_bind, Rd.run_octet, Rd.mem_octet, run_rdNum, mem_rdNum, run_rdSq, mem_rdSq,
        run_rdReason, mem_rdReason, hr, ne_eq, not_true_eq_false, if_false, Fld.type, hf, run_rdObjsUntil,
        mem_rdObjsUntil, Rd.run_octets, Rd.mem_octets, Rd.run_pure]
      rw [← hyk]
      rfl
  · simp [asduYt, hr]

/-- **A frame of remote control**, as a function of the buffer. -/
theorem run_asduYk (len : Nat) : (asduYk c s len).run m =
    if Fld.reason m ≠ Cot.act then (s, [])
    else if selected [Fld.elem0 m] then
      ({ s with
        stat := { s.stat with yk := .ykCmdStart }
        back := { s.back with ykBak := some (m.slice 7 (bakSize len)) } }, [])
    else ({ s with stat := { s.stat with yk := .ykCmdExec } },
      match (AsduType.ofCode (Fld.type m)).bind ykFmt with
      | none => serv c .ykCmdFaild
      | some fmt =>
        ((Fld.objs m (Fld.num m) (Fld.sq m) fmt.size fmt.size).filter fun o => !selected o.2).filterMap
          (setValue c fmt fmt.value)) := by
  by_cases hr : Fld.reason m = Cot.act
  · cases hsel : selected [m 14] with
    | true => simp [asduYk, hr, hsel, Fld.elem0]
    | false =>
      cases hf : (AsduType.ofCode (m 7)).bind ykFmt with
      | none => simp [asduYk, hr, hsel, hf, Fld.type, Fld.elem0]
      | some fmt => simp [asduYk, hr, hsel, hf, Fld.type, Fld.elem0]
  · simp [asduYk, hr]

/-- **What a frame with user data does to the states**. -/
theorem stat_onUserData (len : Nat) : ((onUserData c s len).run m).1.stat = statAfter m s.stat := by
  simp only [onUserData, statAfter, Fld.type, Rd.run_bind, Rd.run_octet, Rd.mem_octet]
  cases ht : AsduType.ofCode (m 7) with
  | none => rfl
  | some t =>
    cases t with
    | cIcNa1 =>
      simp only [asduCallAll, Rd.run_bind, Rd.run_pure, run_asduCall]
      split <;> rfl
    | cCiNa1 =>
      simp only [asduCallPulse, Rd.run_bind, Rd.run_pure, run_asduCall]
      split <;> rfl
    | cScNa1 | cDcNa1 =>
      simp only [run_asduYk]
      split
      · rfl
      · split <;> rfl
    | cSeNa1 | cSeNc1 =>
      simp only [run_asduYt, Fld.type, ht, Option.bind_some, ytFmt]
      split <;> rfl
    | _ => rfl

theorem run_on68 (len : Nat) : (on68 c s len).run m =
    if Fld.func m = Func.sendUsrDataAck then (onUserData c s len).run m
    else if Fld.func m = Func.resUsrDataAck ∧ AsduType.ofCode (Fld.type m) = some .cCsNa1 then
      (s, [buildRequestConfirm c])
    else (s, []) := by
  by_cases h1 : (m 4).toNat % 16 = Func.sendUsrDataAck
  · simp [on68, Fld.func, h1]
  · by_cases h2 : (m 4).toNat % 16 = Func.resUsrDataAck
    · by_cases h3 : AsduType.ofCode (m 7) = some .cCsNa1
      · have hne : ¬ Func.resUsrDataAck = Func.sendUsrDataAck := by decide
        simp [on68, Fld.func, Fld.type, h2, h3, hne]
      · have hne : ¬ Func.resUsrDataAck = Func.sendUsrDataAck := by decide
        simp [on68, Fld.func, Fld.type, h2, h3, hne]
    · simp [on68, Fld.func, h1, h2]

/-- **What a frame of fixed length does**, as a function of the buffer. -/
theorem run_on10 : (on10 c s).run m =
    if (m 1).toNat / 64 % 2 = 1 then
      if (m 1).toNat % 16 = Func.resetLink then (s, [buildRequestConfirm c])
      else if (m 1).toNat % 16 = Func.reqLinkStatus then
        ({ s with stat := { s.stat with init := .linkConnectOk } }, [buildLinkStatusAck c])
      else if (m 1).toNat % 16 = Func.reqUsrData1 then ({ s with tack := true }, [])
      else if (m 1).toNat % 16 = Func.reqUsrData2 then (s, [buildRequestUserNack c])
      else (s, [])
    else (s, []) := by
  by_cases hp : (m 1).toNat / 64 % 2 = 1
  · by_cases h1 : (m 1).toNat % 16 = Func.resetLink
    · simp [on10, hp, h1]
    by_cases h2 : (m 1).toNat % 16 = Func.reqLinkStatus
    · simp [on10, hp, h2]
    by_cases h3 : (m 1).toNat % 16 = Func.reqUsrData1
    · simp [on10, hp, h3]
    by_cases h4 : (m 1).toNat % 16 = Func.reqUsrData2
    · simp [on10, hp, h4]
    · simp [on10, hp, h1, h2, h3, h4]
  · simp [on10, hp]

end Served

end Wow.Iec101.Slave
