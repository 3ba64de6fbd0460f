import Wow.Iec104.Loop

/-!
# Wow.Iec104.Slave — the controlled station, `wow_iec104s.c`

The configuration (`Conf`, what the `init` and `set_…` calls leave) is apart from what a run changes
(`Slave`).  Builders and handlers give the new state and what they do, in order; handlers are `Rd` programs
over the receive buffer, with the reads of the code.

* `step`: the events of the station: a pass of the state machine, a read of the exec thread, a connection
  accepted or lost, a spontaneous report.  The exec thread alternates the first two; runs here may take them
  in any order.
* Sequences of builder calls are runs of `andThen`.
-/

namespace Wow.Iec104.Slave

open Iec10x

/-! ### Configuration and state -/

/-- `NodeListInfo_T`: the four node lists, each with what `wow_iec104_s_set_node_info` puts into it. -/
structure NodeListInfo where
  yx : List DevNodeInfo
  ycN : List DevNodeInfo
  ycF : List DevNodeInfo
  ym : List DevNodeInfo
  mode_yx : ∀ x ∈ yx, x.mode = .yx
  mode_ycN : ∀ x ∈ ycN, x.mode = .yc
  mode_ycF : ∀ x ∈ ycF, x.mode = .yc
  mode_ym : ∀ x ∈ ym, x.mode = .ym
  type_ycN : ∀ x ∈ ycN, x.type ≠ .float
  type_ycF : ∀ x ∈ ycF, x.type = .float

/-- The lists of a fresh slave. -/
def NodeListInfo.empty : NodeListInfo :=
  ⟨[], [], [], [], by simp, by simp, by simp, by simp, by simp, by simp⟩

/-- One round of `wow_iec104_s_set_node_info`: `wow_slist_insert_tail` into the list of the node's kind. -/
def NodeListInfo.insert (l : NodeListInfo) (x : DevNodeInfo) : NodeListInfo :=
  match h : x.mode with
  | .yx => { l with
      yx := l.yx ++ [x]
      mode_yx := List.forall_mem_append.mpr ⟨l.mode_yx, by simpa using h⟩ }
  | .yc =>
    if hf : x.type = .float then { l with
      ycF := l.ycF ++ [x]
      mode_ycF := List.forall_mem_append.mpr ⟨l.mode_ycF, by simpa using h⟩
      type_ycF := List.forall_mem_append.mpr ⟨l.type_ycF, by simpa using hf⟩ }
    else { l with
      ycN := l.ycN ++ [x]
      mode_ycN := List.forall_mem_append.mpr ⟨l.mode_ycN, by simpa using h⟩
      type_ycN := List.forall_mem_append.mpr ⟨l.type_ycN, by simpa using hf⟩ }
  | .ym => { l with
      ym := l.ym ++ [x]
      mode_ym := List.forall_mem_append.mpr ⟨l.mode_ym, by simpa using h⟩ }
  | .yt => l
  | .yk => l

/-- `wow_iec104_s_set_node_info`. -/
def setNodeInfo (l : NodeListInfo) (nodes : List DevNodeInfo) : NodeListInfo := nodes.foldl .insert l

/-- What the set-up calls leave: the callbacks, their private data (of a type `P`) and the node table.
`getValCb p x` is what `get_val_cb(p, x, &val)` stores, `none` when it returns nonzero. -/
structure Conf (P : Type) where
  asduAddr : UInt16
  setValCb : Bool
  getValCb : Option (P → DevNodeInfo → Option DevNodeVal)
  servCb : Bool
  setValPriv : P
  getValPriv : P
  nodeList : NodeListInfo

variable {P : Type} (c : Conf P)

/-! ### Builders -/

def buildInitFinsh : Cmd :=
  sendI ⟨AsduType.mEiNa1.code, false, 1, Cot.init, c.asduAddr⟩ (infoAddr 0 ++ [0])

def buildCallAck (qoi : UInt8) : Cmd :=
  sendI ⟨AsduType.cIcNa1.code, false, 1, Cot.actcon, c.asduAddr⟩ (infoAddr 0 ++ [qoi])

/-- `get_val_cb(set_val_priv, node, &val)`. -/
def getVal (node : DevNodeInfo) : Option DevNodeVal := c.getValCb.bind fun f => f c.setValPriv node

/-- The element of a node in `iec104_s_build_yx`. -/
def yxElem (_ : Nat) (node : DevNodeInfo) : List UInt8 :=
  match getVal c node with
  | some v => [v.u8]
  | none => [0xFF]

/-- The element of a node in `iec104_s_build_yc`: its own type gives the size. -/
def ycElem (_ : Nat) (node : DevNodeInfo) : List UInt8 :=
  let size := match node.type with
    | .float => 4
    | _ => 2
  match getVal c node with
  | some v => v.octets size ++ [0]
  | none => List.replicate size 0xFF ++ [0]

/-- The element of a node in `iec104_s_build_ym`, with the number of the element behind the value. -/
def ymElem (i : Nat) (node : DevNodeInfo) : List UInt8 :=
  match getVal c node with
  | some v => v.octets 4 ++ [UInt8.ofNat i]
  | none => List.replicate 4 0xFF ++ [UInt8.ofNat i]

/-- The common text of `build_yx`, `build_yc` and `build_ym`: the nodes `index …` of `list`, as many as the
7-bit `_num` holds, behind the address of the first. -/
def buildGroup (type : DevNodeInfo → AsduType) (elem : Nat → DevNodeInfo → List UInt8) (reason : Nat)
    (list : List DevNodeInfo) (index count : Nat) : Cmd :=
  match list[index]? with
  | none => fun s => (s, [])
  | some first =>
    match (List.range (count % 128)).mapM fun i => list[index + i]? with
    | none => skipI
    | some nodes => sendI ⟨(type first).code, true, count, reason, c.asduAddr⟩
        (infoAddr first.addr.toNat ++ (nodes.mapIdx elem).flatten)

def buildYx (reason : Nat) : List DevNodeInfo → Nat → Nat → Cmd :=
  buildGroup c (fun _ => .mSpNa1) (yxElem c) reason

def buildYc (reason : Nat) : List DevNodeInfo → Nat → Nat → Cmd :=
  buildGroup c (fun x => if x.type = .float then .mMeNc1 else .mMeNa1) (ycElem c) reason

def buildYm (reason : Nat) : List DevNodeInfo → Nat → Nat → Cmd :=
  buildGroup c (fun _ => .mItNa1) (ymElem c) reason

/-- `IEC10X_INFO_ADDR_SIG_BASE + IEC10X_INFO_ADDR_SIG_TEMP_HX_OFF`. -/
def callFinshAddr : Nat := 0x0001 + 0x1000

def buildCallFinsh (qoi : UInt8) : Cmd :=
  sendI ⟨AsduType.cIcNa1.code, true, 0, Cot.actterm, c.asduAddr⟩ (infoAddr callFinshAddr ++ [qoi])

/-! ### Interrogations -/

/-- `IEC104X_YX_NODE_NUM`, the group size of all four lists (`IEC104X_YC_NODE_NUM` and
`IEC104X_YM_NODE_NUM` are defined and not used). -/
def nodeNum : Nat := 50

/-- The loop over a list of `size` nodes: `(i, count)` of every round. -/
def groups (size : Nat) : Nat → Nat → List (Nat × Nat)
  | 0, _ => []
  | fuel + 1, i =>
    if i < size then
      let count := if size - i > nodeNum then nodeNum else size - i
      (i, count) :: groups size fuel (i + count)
    else []

/-- The builder calls of that loop. -/
def groupCalls (build : List DevNodeInfo → Nat → Nat → Cmd) (list : List DevNodeInfo) : List Cmd :=
  (groups list.length list.length 0).map fun g => build list g.1 g.2

/-- The answer to a general interrogation. -/
def callAllAnswer (qoi : UInt8) : List Cmd :=
  [buildCallAck c qoi] ++ groupCalls (buildYx c qoi.toNat) c.nodeList.yx ++
    groupCalls (buildYc c qoi.toNat) c.nodeList.ycN ++ groupCalls (buildYc c qoi.toNat) c.nodeList.ycF ++
    [buildCallFinsh c qoi]

/-- The answer to a counter interrogation. -/
def callPulseAnswer (qcc : UInt8) : List Cmd :=
  [buildCallAck c qcc] ++ groupCalls (buildYm c Cot.reqcogen) c.nodeList.ym ++ [buildCallFinsh c qcc]

variable (s : Core) (p : Nat)

def asduCallAll : Rd (Core × List Act) := do
  let qoi ← Rd.octet (p + 15)
  if c.getValCb.isNone then pure (s, []) else do
  let addr ← rdInfoAddr (p + 12)
  if addr ≠ 0 then pure (s, []) else do
  let reason ← rdReason p
  if reason ≠ Cot.act then pure (s, []) else
  if qoi.toNat = Cot.introgen then pure (andThen s (callAllAnswer c qoi)) else pure (s, [])

def asduCallPulse : Rd (Core × List Act) := do
  let qcc ← Rd.octet (p + 15)
  if c.getValCb.isNone then pure (s, []) else do
  let addr ← rdInfoAddr (p + 12)
  if addr ≠ 0 then pure (s, []) else do
  let reason ← rdReason p
  if reason ≠ Cot.act then pure (s, []) else
  if qcc.toNat % 64 = 5 then pure (andThen s (callPulseAnswer c qcc)) else pure (s, [])

/-! ### Clock, remote control and set-points -/

/-- `iec104_s_asdu_clock`; the three address octets are tested one after the other. -/
def asduClock : Rd (Core × List Act) := do
  let a0 ← Rd.octet (p + 12)
  if a0 ≠ 0 then pure (s, []) else do
  let a1 ← Rd.octet (p + 13)
  if a1 ≠ 0 then pure (s, []) else do
  let a2 ← Rd.octet (p + 14)
  if a2 ≠ 0 then pure (s, []) else do
  let cp56time2a ← Rd.octets (p + 15) 7
  let reason ← rdReason p
  if reason = Cot.act then pure (s, [.setTime cp56time2a]) else pure (s, [])

/-- The body of the element loops: an element with the select bit is left for the execute, the others go to
`set_val_cb`. -/
def applyObjs (fmt : CmdFmt) (objs : List (UInt16 × List UInt8)) : List Act :=
  if c.setValCb then
    objs.filterMap fun o =>
      if selected o.2 then none else some (.setVal ⟨fmt.mode, o.1, fmt.type⟩ (fmt.value o.2))
  else []

/-- The common text of `iec104_s_asdu_yk` and `iec104_s_asdu_yt`. -/
def asduCmd (fmts : AsduType → Option CmdFmt) : Rd (Core × List Act) := do
  let type ← rdType p
  let n ← rdNum p
  let sq ← rdSq p
  let reason ← rdReason p
  if reason ≠ Cot.act then pure (s, []) else
  match (AsduType.ofCode type).bind fmts with
  | none => pure (s, [])
  | some fmt => do
    let objs ← rdObjs p n sq fmt.size fmt.size
    pure (s, applyObjs c fmt objs)

def asduYk : Rd (Core × List Act) := asduCmd c s p ykFmt

def asduYt : Rd (Core × List Act) := asduCmd c s p ytFmt

/-- The common text of `iec104_s_build_yk_ack` and `iec104_s_build_yt_ack`: the received objects with the
cause `IEC10X_COT_ACTCON`, whatever the handler did with them. -/
def buildCmdAck (fmts : AsduType → Option CmdFmt) : Rd (Core × List Act) := do
  let type ← rdType p
  let n ← rdNum p
  let sq ← rdSq p
  match (AsduType.ofCode type).bind fmts with
  | none => pure (skipI s)
  | some fmt => do
    let info ← Rd.octets (p + 12) (objsLen n sq fmt.size)
    pure (sendI ⟨type, sq, n, Cot.actcon, c.asduAddr⟩ info s)

def buildYkAck : Rd (Core × List Act) := buildCmdAck c s p ykFmt

def buildYtAck : Rd (Core × List Act) := buildCmdAck c s p ytFmt

/-! ### Received frames -/

/-- `iec104_s_deal_sn`: the comparison of the numbers is commented out. -/
def dealSn (sendSn recvSn : Nat) : Core :=
  { s with sn := { s.sn with buildRecv := sendSn + 1, dealSend := sendSn, dealRecv := recvSn } }

/-- The `switch` on the type. -/
def asduParse : Rd (Core × List Act) := do
  let type ← rdType p
  match AsduType.ofCode type with
  | some .cIcNa1 => asduCallAll c s p
  | some .cCiNa1 => asduCallPulse c s p
  | some .cCsNa1 => do
    let r ← asduClock s p
    let r' := buildSAck r.1
    pure (r'.1, r.2 ++ r'.2)
  | some .cScNa1 | some .cDcNa1 => do
    let r ← asduYk c s p
    let r' ← buildYkAck c r.1 p
    pure (r'.1, r.2 ++ r'.2)
  | some .cSeNa1 | some .cSeNc1 => do
    let r ← asduYt c s p
    let r' ← buildYtAck c r.1 p
    pure (r'.1, r.2 ++ r'.2)
  | _ => pure (s, [])

def frameIParse : Rd (Core × List Act) := do
  let sendSn ← rdSendSn p
  let recvSn ← rdRecvSn p
  let addr ← Rd.u16 (p + 10)
  if c.asduAddr ≠ addr then pure (s, [.checked false sendSn recvSn false]) else do
  let r ← asduParse c (dealSn s sendSn recvSn) p
  pure (r.1, .checked true sendSn recvSn true :: r.2)

def frameUParse : Rd (Core × List Act) := do
  let func ← Rd.octet (p + 2)
  if func = UFunc.startdt then pure (setInit .linkConnectOk s)
  else if func = UFunc.stopdt then pure (andThen s [linkClose, setInit .linkDisconnect])
  else if func = UFunc.tester then pure (buildUAck UFunc.tester s)
  else if func = UFunc.testerAck then pure (setTest .testerStop s)
  else pure (s, [])

/-- The three formats, told apart by the two low bits of the first control octet. -/
def frameDispatch (s : Core) (p _lenTmp : Nat) : Rd (Core × List Act) := do
  let ctrl ← Rd.octet (p + 2)
  if ctrl.toNat % 2 = 0 then frameIParse c s p
  else if ctrl.toNat % 4 = 1 then pure (s, [])
  else frameUParse s p

/-! ### The state machine -/

/-- The first `switch`, `now` the reading of `wow_time_get_msec`. -/
def linkMachine (now : Int) : Cmd := fun s =>
  match s.stat.init with
  | .linkInit => andThen s [resetParam, setInit .linkOpen]
  | .linkConnectOk => andThen s [buildUAck UFunc.startdt, buildInitFinsh c, setInit .linkIdle,
      setTimer now, serv c.servCb .connected]
  | .linkDisconnect => andThen s [setInit .linkInit, serv c.servCb .disconnected]
  | .linkClose => andThen s [buildU UFunc.stopdt, setInit .linkInit]
  | _ => (s, [])

/-- `iec104_s_state_machine`; the clock is read once in either part. -/
def stateMachine (now now' : Int) : Cmd := fun s =>
  let r := linkMachine c now s
  if r.1.stat.init ≠ .linkIdle then r
  else
    let r' := testerMachine now' r.1
    (r'.1, r.2 ++ r'.2)

/-! ### Spontaneous reports -/

/-- The time tag of a node. -/
def timeTag (x : DevNodeCtrl) (tagged : Bool) : List UInt8 := if tagged then x.value.time.toList else []

/-- The object of a node in `wow_iec104_s_build_yx_spon`: its own year decides about its time tag. -/
def yxSponObj (x : DevNodeCtrl) : List UInt8 :=
  infoAddr x.info.addr.toNat ++ [x.value.u8] ++ timeTag x (decide (x.value.year > 0))

def buildYxSpon (nodes : NodeArr) : Cmd :=
  match nodes.val with
  | [] => fun s => (s, [])
  | first :: _ => fun s =>
    if s.stat.init ≠ .linkIdle then (s, [])
    else
      let type := if first.value.year = 0 then AsduType.mSpNa1 else .mSpTb1
      sendI ⟨type.code, false, nodes.val.length, Cot.spont, c.asduAddr⟩ (nodes.val.flatMap yxSponObj) s

/-- The object of a node in `wow_iec104_s_build_yc_spon`: type and year of the first node decide. -/
def ycSponObj (first x : DevNodeCtrl) : List UInt8 :=
  infoAddr x.info.addr.toNat ++ x.value.octets (if first.info.type = .float then 4 else 2) ++ [0] ++
    timeTag x (decide (first.value.year > 0))

/-- The type of a `wow_iec104_s_build_yc_spon`. -/
def ycSponType (first : DevNodeCtrl) : AsduType :=
  if first.info.type = .float then
    if first.value.year > 0 then .mMeTf1 else .mMeNc1
  else
    if first.value.year > 0 then .mMeTd1 else .mMeNa1

def buildYcSpon (nodes : NodeArr) : Cmd :=
  match nodes.val with
  | [] => fun s => (s, [])
  | first :: _ => fun s =>
    if s.stat.init ≠ .linkIdle then (s, [])
    else sendI ⟨(ycSponType first).code, false, nodes.val.length, Cot.spont, c.asduAddr⟩
      (nodes.val.flatMap (ycSponObj first)) s

/-! ### The station -/

/-- `iec104_s_frame_parse`. -/
def frameParse (len : Nat) (s : Core) : Rd (Core × List Act) := Iec104.frameParse (frameDispatch c) len s

inductive Event where
  | machine (now now' : Int)
  | recv (chunk : Chunk)
  | accept
  | lost
  | yxSpon (nodes : NodeArr)
  | ycSpon (nodes : NodeArr)

/-- `eth_link_aceept_cb`: an open connection is closed, `iec104_s_reset_param` runs, the new one is taken. -/
def acceptCb : Cmd := fun s =>
  andThen s [fun s => if s.link then linkClose s else (s, []), resetParam,
    fun s => ({ s with link := true }, [.conn])]

def step (t : Station) : Event → Station × List Act
  | .machine now now' => t.call (stateMachine c now now')
  | .recv chunk =>
    let buf := t.recvBuf.fill chunk.octets
    let r := (frameParse c chunk.octets.length t.core).run buf
    (⟨r.1, buf⟩, r.2)
  | .accept => t.call acceptCb
  | .lost => t.call fun s => ({ s with link := false }, [.lost])
  | .yxSpon nodes => t.call (buildYxSpon c nodes)
  | .ycSpon nodes => t.call (buildYcSpon c nodes)

/-! ### The handlers on a buffer -/

section Run

variable (m : Mem)

/-- **The judgement of an I-frame**: own address, no number test. -/
theorem run_frameIParse : (frameIParse c s p).run m =
    if c.asduAddr ≠ m.u16 (p + 10) then (s, [.checked false (Fld.sendSn m p) (Fld.recvSn m p) false])
    else (((asduParse c (dealSn s (Fld.sendSn m p) (Fld.recvSn m p)) p).run m).1,
      .checked true (Fld.sendSn m p) (Fld.recvSn m p) true ::
        ((asduParse c (dealSn s (Fld.sendSn m p) (Fld.recvSn m p)) p).run m).2) := by
  by_cases ha : c.asduAddr = m.u16 (p + 10)
  · simp [frameIParse, ha]
  · simp [frameIParse, ha]

theorem run_asduCmd (fmts : AsduType → Option CmdFmt) : (asduCmd c s p fmts).run m =
    if Fld.reason m p ≠ Cot.act then (s, [])
    else match (AsduType.ofCode (m (p + 6))).bind fmts with
      | none => (s, [])
      | some fmt => (s, applyObjs c fmt (Fld.objs m p (Fld.num m p) (Fld.sq m p) fmt.size fmt.size)) := by
  by_cases hr : Fld.reason m p = Cot.act
  · cases hf : (AsduType.ofCode (m (p + 6))).bind fmts with
    | none => simp [asduCmd, hr, hf]
    | some fmt => simp [asduCmd, hr, hf]
  · simp [asduCmd, hr]

theorem run_buildCmdAck (fmts : AsduType → Option CmdFmt) : (buildCmdAck c s p fmts).run m =
    match (AsduType.ofCode (m (p + 6))).bind fmts with
    | none => skipI s
    | some fmt => sendI ⟨m (p + 6), Fld.sq m p, Fld.num m p, Cot.actcon, c.asduAddr⟩
        (m.slice (p + 12) (objsLen (Fld.num m p) (Fld.sq m p) fmt.size)) s := by
  simp only [buildCmdAck, Rd.run_bind, mem_rdType, mem_rdNum, mem_rdSq, run_rdType, run_rdNum, run_rdSq]
  cases (AsduType.ofCode (m (p + 6))).bind fmts with
  | none => rfl
  | some fmt => simp only [Rd.run_bind, Rd.run_octets, Rd.run_pure]

theorem setVal_of_mem_applyObjs {fmt : CmdFmt} {objs : List (UInt16 × List UInt8)} :
    ∀ a ∈ applyObjs c fmt objs, ∃ n v, a = .setVal n v := by
  intro a ha
  unfold applyObjs at ha
  split at ha
  · obtain ⟨o, -, ho⟩ := List.mem_filterMap.mp ha
    split at ho
    · cases ho
    · exact ⟨_, _, (Option.some.inj ho).symm⟩
  · cases ha

/-- **The clock**: set by an activation with a zero address. -/
theorem run_asduClock : (asduClock s p).run m =
    if (m (p + 12) = 0 ∧ m (p + 13) = 0 ∧ m (p + 14) = 0) ∧ Fld.reason m p = Cot.act then
      (s, [.setTime (m.slice (p + 15) 7)])
    else (s, []) := by
  by_cases h0 : m (p + 12) = 0
  · by_cases h1 : m (p + 13) = 0
    · by_cases h2 : m (p + 14) = 0
      · by_cases hr : Fld.reason m p = Cot.act <;> simp [asduClock, h0, h1, h2, hr]
      · simp [asduClock, h0, h1, h2]
    · simp [asduClock, h0, h1]
  · simp [asduClock, h0]

/-- **A U-frame**, as a function of its first control octet. -/
theorem run_frameUParse : (frameUParse s p).run m =
    if m (p + 2) = UFunc.startdt then setInit .linkConnectOk s
    else if m (p + 2) = UFunc.stopdt then andThen s [linkClose, setInit .linkDisconnect]
    else if m (p + 2) = UFunc.tester then buildUAck UFunc.tester s
    else if m (p + 2) = UFunc.testerAck then setTest .testerStop s
    else (s, []) := by
  by_cases h1 : m (p + 2) = UFunc.startdt
  · simp [frameUParse, h1]
  by_cases h2 : m (p + 2) = UFunc.stopdt
  · simp [frameUParse, h2]
  by_cases h3 : m (p + 2) = UFunc.tester
  · simp [frameUParse, h3]
  by_cases h4 : m (p + 2) = UFunc.testerAck
  · simp [frameUParse, h4]
  · simp [frameUParse, h1, h2, h3, h4]

theorem mem_asduCmd (fmts : AsduType → Option CmdFmt) : (asduCmd c s p fmts).mem m = m := by
  simp only [asduCmd, Rd.mem_bind, mem_rdType, mem_rdNum, mem_rdSq, mem_rdReason, Rd.mem_ite, Rd.mem_pure]
  split
  · rfl
  · cases (AsduType.ofCode ((rdType p).run m)).bind fmts with
    | none => rfl
    | some fmt => simp only [Rd.mem_bind, mem_rdObjs, Rd.mem_pure]

theorem mem_buildCmdAck (fmts : AsduType → Option CmdFmt) : (buildCmdAck c s p fmts).mem m = m := by
  simp only [buildCmdAck, Rd.mem_bind, mem_rdType, mem_rdNum, mem_rdSq]
  cases (AsduType.ofCode ((rdType p).run m)).bind fmts with
  | none => rfl
  | some fmt => simp only [Rd.mem_bind, Rd.mem_octets, Rd.mem_pure]

/-- What a command does before it is confirmed: if it is an activation, its unselected objects are applied. -/
def cmdActs (fmt : CmdFmt) : List Act :=
  if Fld.reason m p ≠ Cot.act then []
  else applyObjs c fmt (Fld.objs m p (Fld.num m p) (Fld.sq m p) fmt.size fmt.size)

/-- The confirmation of a command. -/
def cmdCon (fmt : CmdFmt) : Cmd :=
  sendI ⟨m (p + 6), Fld.sq m p, Fld.num m p, Cot.actcon, c.asduAddr⟩
    (m.slice (p + 12) (objsLen (Fld.num m p) (Fld.sq m p) fmt.size))

theorem run_handleCmd {t : AsduType} {fmt : CmdFmt} {fmts : AsduType → Option CmdFmt}
    (ht : AsduType.ofCode (m (p + 6)) = some t) (hf : fmts t = some fmt) :
    (asduCmd c s p fmts >>= fun r => buildCmdAck c r.1 p fmts >>= fun r' =>
      (pure (r'.1, r.2 ++ r'.2) : Rd (Core × List Act))).run m =
      ((cmdCon c p m fmt s).1, cmdActs c p m fmt ++ (cmdCon c p m fmt s).2) := by
  simp only [Rd.run_bind, mem_asduCmd, mem_buildCmdAck, Rd.run_pure, run_asduCmd, run_buildCmdAck, ht,
    Option.bind_some, hf, cmdActs]
  split <;> rfl

/-- **A command**: applied, then confirmed. -/
theorem run_asduParse_cmd {t : AsduType} {fmt : CmdFmt} (ht : AsduType.ofCode (m (p + 6)) = some t)
    (hf : cmdFmt t = some fmt) : (asduParse c s p).run m =
      ((cmdCon c p m fmt s).1, cmdActs c p m fmt ++ (cmdCon c p m fmt s).2) := by
  simp only [asduParse, Rd.run_bind, mem_rdType, run_rdType, ht]
  cases t with
  | cScNa1 | cDcNa1 | cSeNa1 | cSeNc1 => exact run_handleCmd c s p m ht hf
  | _ => cases hf

theorem mem_asduCallAll : (asduCallAll c s p).mem m = m := by
  simp only [asduCallAll, Rd.mem_bind, Rd.mem_octet, Rd.mem_ite, mem_rdInfoAddr, mem_rdReason, Rd.mem_pure,
    ite_self]

theorem mem_asduCallPulse : (asduCallPulse c s p).mem m = m := by
  simp only [asduCallPulse, Rd.mem_bind, Rd.mem_octet, Rd.mem_ite, mem_rdInfoAddr, mem_rdReason, Rd.mem_pure,
    ite_self]

theorem mem_asduClock : (asduClock s p).mem m = m := by
  simp only [asduClock, Rd.mem_bind, Rd.mem_octet, Rd.mem_ite, Rd.mem_octets, mem_rdReason, Rd.mem_pure,
    ite_self]

theorem mem_asduParse : (asduParse c s p).mem m = m := by
  simp only [asduParse, Rd.mem_bind, mem_rdType]
  cases AsduType.ofCode ((rdType p).run m) with
  | none => rfl
  | some t =>
    cases t with
    | cIcNa1 => exact mem_asduCallAll c s p m
    | cCiNa1 => exact mem_asduCallPulse c s p m
    | cCsNa1 => simp only [Rd.mem_bind, mem_asduClock, Rd.mem_pure]
    | cScNa1 | cDcNa1 =>
      simp only [asduYk, buildYkAck, Rd.mem_bind, mem_asduCmd, mem_buildCmdAck, Rd.mem_pure]
    | cSeNa1 | cSeNc1 =>
      simp only [asduYt, buildYtAck, Rd.mem_bind, mem_asduCmd, mem_buildCmdAck, Rd.mem_pure]
    | _ => rfl

end Run

/-- **The slave leaves its receive buffer alone.** -/
theorem pure_frameDispatch (l : Nat) : (frameDispatch c s p l).Pure := by
  intro m
  have hI : (frameIParse c s p).mem m = m := by
    simp only [frameIParse, Rd.mem_bind, mem_rdSendSn, mem_rdRecvSn, Rd.mem_u16]
    split
    · rfl
    · simp only [Rd.mem_bind, mem_asduParse, Rd.mem_pure]
  have hU : (frameUParse s p).mem m = m := by
    simp only [frameUParse, Rd.mem_bind, Rd.mem_octet, Rd.mem_ite, Rd.mem_pure, ite_self]
  simp only [frameDispatch, Rd.mem_bind, Rd.mem_octet, Rd.mem_ite, hI, hU, Rd.mem_pure, ite_self]

/-- **A read of the exec thread**: one run over the frames of the buffer. -/
theorem step_recv (t : Station) (chunk : Chunk) :
    step c t (.recv chunk) =
      (⟨(run (serve (frameDispatch c) (t.recvBuf.fill chunk.octets) chunk.octets.length) t.core
          (frames (t.recvBuf.fill chunk.octets) chunk.octets.length)).1, t.recvBuf.fill chunk.octets⟩,
        (run (serve (frameDispatch c) (t.recvBuf.fill chunk.octets) chunk.octets.length) t.core
          (frames (t.recvBuf.fill chunk.octets) chunk.octets.length)).2) := by
  have hl : chunk.octets.length < 65536 := Nat.lt_of_le_of_lt chunk.le (by decide)
  simp only [step, frameParse, run_frameParse (frameDispatch c) (pure_frameDispatch c) hl]

/-! A slave as it is after the start-up, its end of initialisation sent. -/

def sampleConf : Conf Unit := ⟨1, true, none, true, (), (), .empty⟩

def sample : Station :=
  ⟨{ Core.fresh with stat := { Core.fresh.stat with init := .linkIdle }, sn := ⟨1, 0, -1, 0⟩, link := true },
    fun _ => 0⟩

end Wow.Iec104.Slave
