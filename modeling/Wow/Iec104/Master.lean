import Wow.Iec104.Loop

/-!
# Wow.Iec104.Master — the controlling station, `wow_iec104m.c`

As in `Wow.Iec104.Slave`, with handlers that also write: the execute frame of a command is the received
confirmation, its select bits cleared in the receive buffer and then copied (`buildCmdAck`).

* `step`: the events of the station: a read of the exec thread, a pass of the state machine with its clock
  readings and the result of `link_open`, a lost connection, the four calls of the API.
-/

namespace Wow.Iec104.Master

open Iec10x

/-- What the set-up calls leave. -/
structure Conf where
  asduAddr : UInt16
  valCb : Bool
  servCb : Bool

variable (c : Conf) (s : Core) (p : Nat)

/-! ### Interrogations and clock -/

/-- The test of the three octets of the information address, one after the other. -/
def rdAddrZero : Rd Bool := do
  let a0 ← Rd.octet (p + 12)
  if a0 ≠ 0 then pure false else do
  let a1 ← Rd.octet (p + 13)
  if a1 ≠ 0 then pure false else do
  let a2 ← Rd.octet (p + 14)
  pure (decide (a2 = 0))

/-- The common text of `iec104_m_asdu_call_all` and `iec104_m_asdu_call_pulse`. -/
def asduCall (success faild : Service) : Rd (Core × List Act) := do
  let reason ← rdReason p
  let zero ← rdAddrZero p
  if !zero then pure (s, []) else
  if reason = Cot.actcon then pure (s, [])
  else if reason = Cot.introgen ∨ reason = Cot.actterm then
    pure (andThen s [serv c.servCb success, buildSAck])
  else pure (serv c.servCb faild s)

def asduCallAll : Rd (Core × List Act) := asduCall c s p .callAllSuccess .callAllFaild

def asduCallPulse : Rd (Core × List Act) := asduCall c s p .callPulseSuccess .callPulseFaild

def asduClock : Rd (Core × List Act) := do
  let zero ← rdAddrZero p
  if !zero then pure (s, []) else do
  let _cp56time2a ← Rd.octets (p + 15) 7
  let reason ← rdReason p
  if reason = Cot.spont ∨ reason = Cot.act then pure (andThen s [serv c.servCb .clockSync, buildSAck])
  else pure (s, [])

/-! ### Monitored values -/

/-- What a monitor type says about its elements: the octets of an element, how many of them the value takes,
the kind of node, and whether the addresses of single objects count up too. -/
structure MonFmt where
  mode : DevTypeMod
  type : DevDataType
  size : Nat
  value : Nat
  countUp : Bool

/-- The `switch` of `iec104_m_asdu_yx`; types with a time tag are passed over. -/
def yxFmt : AsduType → Option MonFmt
  | .mSpNa1 | .mDpNa1 => some ⟨.yx, .sint8, 1, 1, false⟩
  | _ => none

/-- The `switch` of `iec104_m_asdu_yc`; single normalised values get `addr + i`. -/
def ycFmt : AsduType → Option MonFmt
  | .mMeNa1 => some ⟨.yc, .sint16, 3, 2, true⟩
  | .mMeNc1 => some ⟨.yc, .float, 5, 4, false⟩
  | _ => none

/-- The `switch` of `iec104_m_asdu_ym`. -/
def ymFmt : AsduType → Option MonFmt
  | .mItNa1 => some ⟨.ym, .sint32, 5, 4, false⟩
  | _ => none

/-- The node of the `i`-th object. -/
def MonFmt.node (f : MonFmt) (sq : Bool) (i : Nat) (addr : UInt16) : DevNodeInfo :=
  ⟨f.mode, if f.countUp && !sq then addr + UInt16.ofNat i else addr, f.type⟩

/-- `val_cb` for every object. -/
def valCalls (f : MonFmt) (sq : Bool) (objs : List (UInt16 × List UInt8)) : List Act :=
  if c.valCb then objs.mapIdx fun i o => .setVal (f.node sq i o.1) o.2 else []

/-- The common text of `iec104_m_asdu_yx`, `iec104_m_asdu_yc` and `iec104_m_asdu_ym`. -/
def asduMon (reasons : List Nat) (fmts : AsduType → Option MonFmt) : Rd (Core × List Act) := do
  let type ← rdType p
  let n ← rdNum p
  let sq ← rdSq p
  let reason ← rdReason p
  if reason ∉ reasons then pure (s, []) else
  match (AsduType.ofCode type).bind fmts with
  | none => pure (s, [])
  | some f => do
    let objs ← rdObjs p n sq f.value f.size
    pure (s, valCalls c f sq objs)

def asduYx : Rd (Core × List Act) := asduMon c s p [Cot.perCyc, Cot.introgen, Cot.spont] yxFmt

def asduYc : Rd (Core × List Act) := asduMon c s p [Cot.perCyc, Cot.introgen, Cot.spont] ycFmt

/-- `iec104_m_asdu_ym` takes the address in front before it looks at the type. -/
def asduYm : Rd (Core × List Act) := do
  let reason ← rdReason p
  if reason ∉ [Cot.req, Cot.reqcogen, Cot.spont] then pure (s, []) else do
  let _addr ← rdInfoAddr (p + 12)
  asduMon c s p [Cot.req, Cot.reqcogen, Cot.spont] ymFmt

/-! ### Remote control and set-points -/

/-- The offset of the octet with the select bit of the `i`-th element. -/
def selectAt (sq : Bool) (sz i : Nat) : Nat := p + 15 + i * (if sq then sz else 3 + sz) + (sz - 1)

/-- The loop that clears the select bits in the receive buffer. -/
def clearSelect (n : Nat) (sq : Bool) (sz : Nat) : Rd (List Unit) :=
  Rd.forN n fun i => do
    let b ← Rd.octet (selectAt p sq sz i)
    Rd.store (selectAt p sq sz i) (b &&& 0x7F)

/-- The common text of `iec104_m_build_yk_ack` and `iec104_m_build_yt_ack`: the execute frame, made of the
objects of the confirmation just received. -/
def buildCmdAck (fmts : AsduType → Option CmdFmt) : Rd (Core × List Act) := do
  let type ← rdType p
  let n ← rdNum p
  let sq ← rdSq p
  match (AsduType.ofCode type).bind fmts with
  | none => pure (skipI s)
  | some fmt => do
    let _ ← clearSelect p n sq fmt.size
    let info ← Rd.octets (p + 12) (objsLen n sq fmt.size)
    pure (sendI ⟨type, sq, n, Cot.act, c.asduAddr⟩ info s)

def buildYtAck : Rd (Core × List Act) := buildCmdAck c s p ytFmt

def buildYkAck : Rd (Core × List Act) := buildCmdAck c s p ykFmt

/-- `iec104_m_asdu_yt`: every confirmation is answered by an execute. -/
def asduYt : Rd (Core × List Act) := do
  let reason ← rdReason p
  if reason = Cot.actcon then buildYtAck c s p
  else if reason = Cot.actterm then pure (serv c.servCb .ytCmdSuccess s)
  else pure (serv c.servCb .ytCmdFaild s)

/-- `iec104_m_asdu_yk`: the test of the first element is `sco && 0x80`, true of every nonzero octet. -/
def asduYk : Rd (Core × List Act) := do
  let sco ← Rd.octet (p + 15)
  let reason ← rdReason p
  if reason = Cot.actcon then
    if sco ≠ 0 then buildYkAck c s p else pure (serv c.servCb .ykCmdSuccess s)
  else pure (serv c.servCb .ykCmdFaild s)

/-! ### Received frames -/

/-- The test of `iec104_m_deal_sn`, on plain integers. -/
def snOk (sendSn recvSn : Nat) : Bool := decide (s.sn.dealSend ≤ sendSn ∧ s.sn.dealRecv ≤ recvSn)

/-- The assignments of `iec104_m_deal_sn`. -/
def dealSn (sendSn recvSn : Nat) : Core :=
  { s with sn := { s.sn with buildRecv := sendSn + 1, dealSend := sendSn, dealRecv := recvSn } }

/-- The `switch` on the type. -/
def asduParse : Rd (Core × List Act) := do
  let type ← rdType p
  match AsduType.ofCode type with
  | some .mEiNa1 => pure (buildSAck s)
  | some .cIcNa1 => asduCallAll c s p
  | some .cCiNa1 => asduCallPulse c s p
  | some .cCsNa1 => asduClock c s p
  | some .cScNa1 | some .cDcNa1 => asduYk c s p
  | some .cSeNa1 | some .cSeNc1 => asduYt c s p
  | some .mSpNa1 | some .mDpNa1 | some .mSpTb1 | some .mDpTb1 => asduYx c s p
  | some .mMeNa1 | some .mMeNc1 | some .mMeTd1 | some .mMeTf1 => asduYc c s p
  | some .mItNa1 | some .mItTa1 => asduYm c s p
  | some .cCdNa1 | none => pure (s, [])

def frameIParse : Rd (Core × List Act) := do
  let sendSn ← rdSendSn p
  let recvSn ← rdRecvSn p
  let addr ← Rd.u16 (p + 10)
  if c.asduAddr ≠ addr then pure (s, [.checked false sendSn recvSn false]) else
  if !snOk s sendSn recvSn then pure (s, [.checked true sendSn recvSn false]) else do
  let r ← asduParse c (dealSn s sendSn recvSn) p
  pure (r.1, .checked true sendSn recvSn true :: r.2)

/-- `iec104_m_frame_u_parse`; `build_u_ack` knows no `IEC104_U_FUNC_STOPDT_ACK` and sends nothing. -/
def frameUParse : Rd (Core × List Act) := do
  let func ← Rd.octet (p + 2)
  if func = UFunc.startdtAck then pure (setInit .linkConnectOk s)
  else if func = UFunc.stopdtAck then
    pure (andThen s [setInit .linkDisconnect, buildUAck UFunc.stopdtAck])
  else if func = UFunc.tester then pure (buildUAck UFunc.tester s)
  else if func = UFunc.testerAck then pure (setTest .testerStop s)
  else pure (s, [])

/-- The three formats, told apart by the two low bits of the first control octet. -/
def frameFormat : Rd (Core × List Act) := do
  let ctrl ← Rd.octet (p + 2)
  if ctrl.toNat % 2 = 0 then frameIParse c s p
  else if ctrl.toNat % 4 = 1 then pure (s, [])
  else frameUParse s p

/-- `time.timer` takes the reading of the clock behind every frame. -/
def frameDispatch (now : Int) (s : Core) (p _lenTmp : Nat) : Rd (Core × List Act) := do
  let r ← frameFormat c s p
  pure ((setTimer now r.1).1, r.2)

/-- `iec104_m_frame_parse`. -/
def frameParse (now : Int) (len : Nat) (s : Core) : Rd (Core × List Act) :=
  Iec104.frameParse (frameDispatch c now) len s

/-! ### The state machine -/

/-- `link_open`, which leaves no connection behind when it fails. -/
def linkOpen (opened : Bool) : Cmd := fun s =>
  ({ s with link := opened }, if opened then [.conn] else [])

/-- The first `switch`; `now` is its reading of the clock and `opened` the result of `link_open`. -/
def linkMachine (now : Int) (opened : Bool) : Cmd := fun s =>
  match s.stat.init with
  | .linkInit => andThen s [resetParam, setInit .linkOpen]
  | .linkOpen =>
    if opened then
      andThen s [linkOpen true, setInit .linkConnect, setTimer now, buildU UFunc.startdt]
    else linkOpen false s
  | .linkConnect =>
    if now - s.time.init > connectTimeout then andThen s [linkClose, setInit .linkInit] else (s, [])
  | .linkConnectOk => andThen { s with time := { s.time with init := 0 } }
      [setInit .linkIdle, setTimer now, serv c.servCb .connected]
  | .linkDisconnect => andThen s [linkClose, setInit .linkInit, serv c.servCb .disconnected]
  | .linkClose => andThen s [buildU UFunc.stopdt, setInit .linkInit]
  | _ => (s, [])

/-- `iec104_m_state_machine`. -/
def stateMachine (now now' : Int) (opened : Bool) : Cmd := fun s =>
  let r := linkMachine c now opened s
  if r.1.stat.init ≠ .linkIdle then r
  else
    let r' := testerMachine now' r.1
    (r'.1, r.2 ++ r'.2)

/-! ### The API -/

/-- The common text of `wow_iec104_m_build_call_all` and `wow_iec104_m_build_call_pulse`. -/
def buildCall (type : AsduType) (qualifier : UInt8) : Cmd := fun s =>
  if s.stat.init ≠ .linkIdle then (s, [])
  else sendI ⟨type.code, false, 1, Cot.act, c.asduAddr⟩ (infoAddr 0 ++ [qualifier]) s

def buildCallAll : Cmd := buildCall c .cIcNa1 (UInt8.ofNat Cot.introgen)

def buildCallPulse : Cmd := buildCall c .cCiNa1 0x05

/-- An accepted command: the request is on the record from here, and the select frame goes out. -/
def buildCmd (type : AsduType) (nodes : List DevNodeCtrl) (info : List UInt8) : Cmd := fun s =>
  andThen s [fun s => (s, [.req type nodes]),
    sendI ⟨type.code, false, nodes.length, Cot.act, c.asduAddr⟩ info]

/-- The object of a node in `wow_iec104_m_build_yk`. -/
def ykObj (x : DevNodeCtrl) : List UInt8 := infoAddr x.info.addr.toNat ++ [0x80 ||| x.value.u8]

def buildYk (nodes : NodeArr) : Cmd := fun s =>
  if nodes.val.length = 0 then (s, [])
  else if s.stat.init ≠ .linkIdle then (s, [])
  else buildCmd c .cScNa1 nodes.val (nodes.val.flatMap ykObj) s

/-- The type of a `wow_iec104_m_build_yt`, after its first node. -/
def ytType (first : DevNodeCtrl) : AsduType := if first.info.type = .float then .cSeNc1 else .cSeNa1

/-- The object of a node in `wow_iec104_m_build_yt`. -/
def ytObj (first x : DevNodeCtrl) : List UInt8 :=
  infoAddr x.info.addr.toNat ++ x.value.octets (if first.info.type = .float then 4 else 2) ++ [0x80 ||| 0x00]

def buildYt (nodes : NodeArr) : Cmd := fun s =>
  match nodes.val with
  | [] => (s, [])
  | first :: _ =>
    if s.stat.init ≠ .linkIdle then (s, [])
    else buildCmd c (ytType first) nodes.val (nodes.val.flatMap (ytObj first)) s

/-! ### The station -/

inductive Event where
  | recv (chunk : Chunk) (now : Int)
  | machine (now now' : Int) (opened : Bool)
  | lost
  | callAll
  | callPulse
  | yk (nodes : NodeArr)
  | yt (nodes : NodeArr)

def step (t : Station) : Event → Station × List Act
  | .recv chunk now =>
    let buf := t.recvBuf.fill chunk.octets
    let prog := frameParse c now chunk.octets.length t.core
    (⟨(prog.run buf).1, prog.mem buf⟩, (prog.run buf).2)
  | .machine now now' opened => t.call (stateMachine c now now' opened)
  | .lost => t.call fun s => ({ s with link := false }, [.lost])
  | .callAll => t.call (buildCallAll c)
  | .callPulse => t.call (buildCallPulse c)
  | .yk nodes => t.call (buildYk c nodes)
  | .yt nodes => t.call (buildYt c nodes)

/-! ### The handlers on a buffer -/

section Run

variable (m : Mem)

@[simp] theorem mem_rdAddrZero : (rdAddrZero p).mem m = m := by
  simp only [rdAddrZero, Rd.mem_bind, Rd.mem_octet, Rd.mem_ite, Rd.mem_pure, ite_self]

/-- The loop clears the select bit of every element and writes nothing else. -/
theorem clearSelect_at {n sz i : Nat} {sq : Bool} (hi : i < n) :
    (clearSelect p n sq sz).mem m (selectAt p sq sz i) = m (selectAt p sq sz i) &&& 0x7F :=
  (Rd.mem_forN_update and_7F_idem n m _).1 ⟨i, hi, rfl⟩

theorem clearSelect_of_ne {n sz j : Nat} {sq : Bool} (h : ∀ i < n, j ≠ selectAt p sq sz i) :
    (clearSelect p n sq sz).mem m j = m j :=
  (Rd.mem_forN_update and_7F_idem n m j).2 h

/-- The objects of an execute frame: the received ones without their select bits. -/
def execInfo (n : Nat) (sq : Bool) (sz : Nat) : List UInt8 :=
  ((clearSelect p n sq sz).mem m).slice (p + 12) (objsLen n sq sz)

/-- **The execute frame**, as a function of the buffer. -/
theorem run_buildCmdAck (s : Core) (fmts : AsduType → Option CmdFmt) :
    (buildCmdAck c s p fmts).run m = match (AsduType.ofCode (m (p + 6))).bind fmts with
      | none => skipI s
      | some fmt => sendI ⟨m (p + 6), Fld.sq m p, Fld.num m p, Cot.act, c.asduAddr⟩
          (execInfo p m (Fld.num m p) (Fld.sq m p) fmt.size) s := by
  simp only [buildCmdAck, Rd.run_bind, mem_rdType, mem_rdNum, mem_rdSq, run_rdType, run_rdNum, run_rdSq]
  cases (AsduType.ofCode (m (p + 6))).bind fmts with
  | none => rfl
  | some fmt => simp only [Rd.run_bind, Rd.run_octets, Rd.run_pure, Rd.mem_octets, execInfo]

/-- **The judgement of an I-frame**, as a function of the buffer. -/
theorem run_frameIParse (s : Core) : (frameIParse c s p).run m =
    if c.asduAddr ≠ m.u16 (p + 10) then (s, [.checked false (Fld.sendSn m p) (Fld.recvSn m p) false])
    else if snOk s (Fld.sendSn m p) (Fld.recvSn m p) = false then
      (s, [.checked true (Fld.sendSn m p) (Fld.recvSn m p) false])
    else (((asduParse c (dealSn s (Fld.sendSn m p) (Fld.recvSn m p)) p).run m).1,
      .checked true (Fld.sendSn m p) (Fld.recvSn m p) true ::
        ((asduParse c (dealSn s (Fld.sendSn m p) (Fld.recvSn m p)) p).run m).2) := by
  by_cases ha : c.asduAddr = m.u16 (p + 10)
  · cases hs : snOk s (Fld.sendSn m p) (Fld.recvSn m p) <;> simp [frameIParse, ha, hs]
  · simp [frameIParse, ha]

/-- The answer to a confirmation that is taken for that of a select. -/
def execute (fmt : CmdFmt) : Cmd :=
  sendI ⟨m (p + 6), Fld.sq m p, Fld.num m p, Cot.act, c.asduAddr⟩
    (execInfo p m (Fld.num m p) (Fld.sq m p) fmt.size)

/-- A confirmation is taken for that of an execute when it is one of remote control and its first element is
zero. -/
def doneCon (t : AsduType) : Bool := (ykFmt t).isSome && m (p + 15) == 0

/-- **A confirmation**: executed again, unless it is `doneCon`. -/
theorem run_asduParse_con {t : AsduType} {fmt : CmdFmt} (ht : AsduType.ofCode (m (p + 6)) = some t)
    (hf : cmdFmt t = some fmt) (hr : Fld.reason m p = Cot.actcon) : (asduParse c s p).run m =
      if doneCon p m t then serv c.servCb .ykCmdSuccess s else execute c p m fmt s := by
  have hack : ∀ fmts : AsduType → Option CmdFmt, fmts t = some fmt →
      (buildCmdAck c s p fmts).run m = execute c p m fmt s := fun fmts hfmts => by
    simp only [run_buildCmdAck, ht, Option.bind_some, hfmts, execute]
  simp only [asduParse, Rd.run_bind, mem_rdType, run_rdType, ht]
  cases t with
  | cScNa1 | cDcNa1 =>
    have h := hack ykFmt hf
    by_cases hz : m (p + 15) = 0
    · simp [asduYk, hr, hz, doneCon, ykFmt]
    · simp [asduYk, buildYkAck, hr, hz, doneCon, h]
  | cSeNa1 | cSeNc1 =>
    have h := hack ytFmt hf
    simp [asduYt, buildYtAck, hr, doneCon, ykFmt, h]
  | _ => cases hf

theorem run_rdAddrZero : (rdAddrZero p).run m =
    decide (m (p + 12) = 0 ∧ m (p + 13) = 0 ∧ m (p + 14) = 0) := by
  by_cases h0 : m (p + 12) = 0
  · by_cases h1 : m (p + 13) = 0
    · simp only [rdAddrZero, Rd.run_bind, Rd.run_octet, Rd.mem_octet, h0, h1, ne_eq, not_true_eq_false, if_false,
        Rd.run_pure, true_and]
      exact decide_eq_decide.mpr Iff.rfl
    · simp [rdAddrZero, h0, h1]
  · simp [rdAddrZero, h0]

/-- **The judgement of an interrogation frame**: success needs a zero address. -/
theorem run_asduCall (success faild : Service) : (asduCall c s p success faild).run m =
    if ¬ (m (p + 12) = 0 ∧ m (p + 13) = 0 ∧ m (p + 14) = 0) then (s, [])
    else if Fld.reason m p = Cot.actcon then (s, [])
    else if Fld.reason m p = Cot.introgen ∨ Fld.reason m p = Cot.actterm then
      andThen s [serv c.servCb success, buildSAck]
    else serv c.servCb faild s := by
  by_cases hz : m (p + 12) = 0 ∧ m (p + 13) = 0 ∧ m (p + 14) = 0
  · by_cases hr : Fld.reason m p = Cot.actcon
    · simp [asduCall, hz, hr]
    · by_cases ht : Fld.reason m p = Cot.introgen ∨ Fld.reason m p = Cot.actterm
      · simp [asduCall, run_rdAddrZero, hz, hr, ht]
      · simp [asduCall, run_rdAddrZero, hz, hr, ht]
  · simp [asduCall, run_rdAddrZero, hz]

/-- **The judgement of a monitored frame**. -/
theorem run_asduMon (reasons : List Nat) (fmts : AsduType → Option MonFmt) : (asduMon c s p reasons fmts).run m =
    if Fld.reason m p ∉ reasons then (s, [])
    else match (AsduType.ofCode (m (p + 6))).bind fmts with
      | none => (s, [])
      | some f => (s, valCalls c f (Fld.sq m p) (Fld.objs m p (Fld.num m p) (Fld.sq m p) f.value f.size)) := by
  by_cases hr : Fld.reason m p ∈ reasons
  · cases hf : (AsduType.ofCode (m (p + 6))).bind fmts with
    | none => simp [asduMon, hr, hf]
    | some f => simp [asduMon, hr, hf]
  · simp [asduMon, hr]

/-- What the three monitor handlers take. -/
def monFmt (t : AsduType) : Option MonFmt := ((yxFmt t).or (ycFmt t)).or (ymFmt t)

/-- The causes with which they take it. -/
def monReasons (t : AsduType) : List Nat :=
  if (ymFmt t).isSome then [Cot.req, Cot.reqcogen, Cot.spont] else [Cot.perCyc, Cot.introgen, Cot.spont]

/-- **A monitored frame**, whichever handler it goes to. -/
theorem run_asduParse_mon {t : AsduType} {f : MonFmt} (ht : AsduType.ofCode (m (p + 6)) = some t)
    (hf : monFmt t = some f) : (asduParse c s p).run m =
      (s, if Fld.reason m p ∈ monReasons t then
        valCalls c f (Fld.sq m p) (Fld.objs m p (Fld.num m p) (Fld.sq m p) f.value f.size) else []) := by
  have hmon : ∀ (reasons : List Nat) (fmts : AsduType → Option MonFmt), fmts t = some f →
      (asduMon c s p reasons fmts).run m = (s, if Fld.reason m p ∈ reasons then
        valCalls c f (Fld.sq m p) (Fld.objs m p (Fld.num m p) (Fld.sq m p) f.value f.size) else []) := by
    intro reasons fmts hfmts
    rw [run_asduMon, ht, Option.bind_some, hfmts]
    by_cases hr : Fld.reason m p ∈ reasons
    · rw [if_neg (not_not.mpr hr), if_pos hr]
    · rw [if_pos hr, if_neg hr]
  simp only [asduParse, Rd.run_bind, mem_rdType, run_rdType, ht]
  cases t with
  | mSpNa1 | mDpNa1 | mMeNa1 | mMeNc1 => exact hmon _ _ hf
  | mItNa1 =>
    have h := hmon [Cot.req, Cot.reqcogen, Cot.spont] ymFmt hf
    by_cases hr : Fld.reason m p ∈ [Cot.req, Cot.reqcogen, Cot.spont]
    · simp only [asduYm, Rd.run_bind, mem_rdReason, run_rdReason, mem_rdInfoAddr, hr,
        not_true_eq_false, if_false]
      exact h
    · have hn : ¬ Fld.reason m p ∈ monReasons .mItNa1 := hr
      simp only [asduYm, Rd.run_bind, mem_rdReason, run_rdReason, hr, hn, not_false_eq_true, if_true,
        if_false, Rd.run_pure]
  | _ => cases hf

end Run

/-! A master as it is after the start-up, with the end of initialisation of the slave taken. -/

def sampleConf : Conf := ⟨1, true, true⟩

def sample : Station :=
  ⟨{ Core.fresh with stat := { Core.fresh.stat with init := .linkIdle }, sn := ⟨0, 1, 0, 0⟩, link := true },
    fun _ => 0⟩

end Wow.Iec104.Master
