import Wow.Modbus.Receive

/-!
# Wow.Modbus.Slave — `wow_modbus_s.c`

The slave's callbacks are functions of what they are called with: `get` gives what it returns and what it leaves
behind the pointer it was given, `set` what it returns.  A turn of the slave's thread gives the octets that go to
`link_send` (none of them where it sends nothing), the call of a callback, and the rest of the link.

* `modbusSReply`: the reply to a request, and the callback it called.
* `execRound`: one turn of `modbus_s_exec_thread`.
-/

namespace Wow.Modbus

/-- `ModbusSlaverDevCtx_T`, both callbacks present, with the private pointer in them. -/
structure SlaverDevCtx where
  getAfnAddrVal : (slave : Nat) → (afn : UInt8) → (addr len : UInt16) → Int × Mem
  setAfnAddrVal : (slave : Nat) → (afn : UInt8) → (addr : UInt16) → (data : Mem) → (len : UInt16) → Int

/-- A call of a callback. -/
inductive Access
  | get (slave : Nat) (afn : UInt8) (addr len : UInt16)
  | set (slave : Nat) (afn : UInt8) (addr : UInt16) (data : Mem) (len : UInt16)

/-- A pointer into a message. -/
def pointer (msg : List UInt8) (i : Nat) : Mem := fun j => msg.getD (i + j) 0

theorem slice_pointer {msg : List UInt8} {i k : Nat} (h : i + k ≤ msg.length) :
    (pointer msg i).slice 0 k = (msg.drop i).take k := by
  apply List.ext_getElem
  · simp
    omega
  · intro j h1 h2
    simp only [Mem.length_slice] at h1
    rw [Mem.getElem_slice]
    simp [pointer, List.getElem?_eq_getElem (show i + j < msg.length by omega)]

/-- `response_exception`. -/
def responseException (b : Backend) (sft : Sft) (code : Int) : List UInt8 :=
  b.buildResponseBasis { sft with function := sft.function + 0x80 } ++ [UInt8.ofInt code]

/-- The locals of `modbus_s_reply`. -/
structure Request where
  req : List UInt8
  offset : Nat
  slave : Nat
  afn : Nat
  addr : UInt16
  sft : Sft

/-- The locals at the start of `modbus_s_reply`. -/
def Request.of (b : Backend) (req : List UInt8) : Request :=
  let offset := b.headerLength
  let slave := octet req (offset - 1)
  let afn := octet req offset
  { req, offset, slave, afn,
    addr := UInt16.ofNat (word req (offset + 1)),
    sft := ⟨slave, afn, b.prepareResponseTid req⟩ }

namespace Request

/-- The number of values. -/
def bulk (r : Request) : Nat := word r.req (r.offset + 3)

/-- The reply to a read of at most `max` values in `bytes` octets; an error is the `goto out`. -/
def readValues (b : Backend) (ctx : SlaverDevCtx) (max bytes : Nat) (r : Request) :
    Except Int (List UInt8) × Option Access :=
  if 1 ≤ r.bulk ∧ r.bulk ≤ max then
    let len := UInt16.ofNat r.bulk
    let (ret, data) := ctx.getAfnAddrVal r.slave (UInt8.ofNat r.afn) r.addr len
    (if ret = 0 then
        .ok (b.sendMsgPre (b.buildResponseBasis r.sft ++ UInt8.ofNat bytes :: data.slice 0 bytes))
      else .error ret,
      some (.get r.slave (UInt8.ofNat r.afn) r.addr len))
  else (.error ErrorCode.illegalDataValue.code, none)

/-- The reply to a single write of what `data` points to: the request again, as it came. -/
def writeSingle (ctx : SlaverDevCtx) (data : Mem) (r : Request) : Except Int (List UInt8) × Option Access :=
  let ret := ctx.setAfnAddrVal r.slave (UInt8.ofNat r.afn) r.addr data 1
  (if ret = 0 then .ok r.req else .error ret, some (.set r.slave (UInt8.ofNat r.afn) r.addr data 1))

/-- The reply to a write of at most `max` values. -/
def writeMultiple (b : Backend) (ctx : SlaverDevCtx) (max : Nat) (r : Request) :
    Except Int (List UInt8) × Option Access :=
  if 1 ≤ r.bulk ∧ r.bulk ≤ max then
    let data := pointer r.req (r.offset + 6)
    let len := UInt16.ofNat r.bulk
    let ret := ctx.setAfnAddrVal r.slave (UInt8.ofNat r.afn) r.addr data len
    let basis := b.buildResponseBasis r.sft
    (if ret = 0 then .ok (b.sendMsgPre (basis ++ (pointer r.req basis.length).slice 0 4)) else .error ret,
      some (.set r.slave (UInt8.ofNat r.afn) r.addr data len))
  else (.error ErrorCode.illegalDataValue.code, none)

/-- The `switch` of `modbus_s_reply`. -/
def answer (b : Backend) (ctx : SlaverDevCtx) (r : Request) : Except Int (List UInt8) × Option Access :=
  match FunctionMode.ofCode r.afn with
  | some .readCoils | some .readDiscreteInputs => r.readValues b ctx maxReadBits ((r.bulk + 7) / 8)
  | some .readHoldingRegisters | some .readInputRegisters => r.readValues b ctx maxReadRegisters (r.bulk * 2)
  | some .writeSingleCoil =>
    let data := word r.req (r.offset + 3)
    if data = 0xFF00 ∨ data = 0 then r.writeSingle ctx (Mem.fill (fun _ => 0) [if data ≠ 0 then 1 else 0])
    else (.error ErrorCode.illegalDataValue.code, none)
  | some .writeSingleRegister => r.writeSingle ctx (pointer r.req (r.offset + 3))
  | some .writeMultipleCoils => r.writeMultiple b ctx maxWriteBits
  | some .writeMultipleRegisters => r.writeMultiple b ctx maxWriteRegisters
  | _ => (.error ErrorCode.illegalFunction.code, none)

end Request

/-- `modbus_s_reply`: the reply, empty where there is none, and the callback it called. -/
def modbusSReply (b : Backend) (ctx : SlaverDevCtx) (req : List UInt8) : List UInt8 × Option Access :=
  let r := Request.of b req
  match r.answer b ctx with
  | (.ok rsp, access) => (rsp, access)
  | (.error ret, access) =>
    (if ret = ErrorCode.errorMax.code then [] else b.sendMsgPre (responseException b r.sft ret), access)

theorem modbusSReply_of_ok {b : Backend} {ctx : SlaverDevCtx} {req rsp : List UInt8} {access : Option Access}
    (h : (Request.of b req).answer b ctx = (.ok rsp, access)) : modbusSReply b ctx req = (rsp, access) := by
  simp only [modbusSReply, h]

theorem modbusSReply_of_error {b : Backend} {ctx : SlaverDevCtx} {req : List UInt8} {ret : Int}
    {access : Option Access}
    (h : (Request.of b req).answer b ctx = (.error ret, access)) :
    modbusSReply b ctx req
      = (if ret = ErrorCode.errorMax.code then [] else b.sendMsgPre (responseException b (Request.of b req).sft ret),
          access) := by
  simp only [modbusSReply, h]

/-- The octets still on the link are read away, until a call gets none. -/
def drain : List Nat → List UInt8 → List UInt8
  | [], up => up
  | k :: sched, up =>
    let n := min k maxMessageLength
    if up.take n = [] then up else drain sched (up.drop n)

/-- `modbus_receive_msg` of the slave; `none` is a return that is not positive. -/
def slaveReceiveMsg (b : Backend) (sched : List Nat) (up : List UInt8) : Option (List UInt8) × List UInt8 :=
  match receive b .indication sched up with
  | (.msg data, sched, up) => if b.checkIntegrity data then (some data, up) else (none, drain sched up)
  | (_, _, up) => (none, up)

/-- What a turn of the slave's thread did: the message it took, the octets it gave to `link_send`, the callback. -/
structure Turn where
  seen : Option (List UInt8)
  sent : List UInt8
  access : Option Access

/-- The turn that answers a message. -/
def answering (b : Backend) (ctx : SlaverDevCtx) (req : List UInt8) : Turn :=
  ⟨some req, (modbusSReply b ctx req).1, (modbusSReply b ctx req).2⟩

/-- A turn of `modbus_s_exec_thread`, and what it leaves on the link. -/
def execRound (b : Backend) (ctx : SlaverDevCtx) (sched : List Nat) (up : List UInt8) : Turn × List UInt8 :=
  match slaveReceiveMsg b sched up with
  | (some req, up) => (answering b ctx req, up)
  | (none, up) => (⟨none, [], none⟩, up)

/-- A message that the slave takes: a frame of the length that it announces, whole and at the front of the link. -/
theorem slaveReceiveMsg_eq_some {b : Backend} {sched : List Nat} {up req up' : List UInt8}
    (h : slaveReceiveMsg b sched up = (some req, up')) :
    up = req ++ up' ∧ frameLength b .indication req = req.length ∧ req.length ≤ b.maxAduLength
      ∧ b.checkIntegrity req = true := by
  unfold slaveReceiveMsg at h
  split at h
  · rename_i data sched' rest hr
    split at h
    · rename_i hok
      cases h
      obtain ⟨hmax, hlen, rfl, rfl⟩ := receive_eq_msg hr
      have hl : (up.take (frameLength b .indication up)).length = frameLength b .indication up := by
        rw [List.length_take]
        omega
      exact ⟨(List.take_append_drop ..).symm, (frameLength_take ..).trans hl.symm, by omega, hok⟩
    · cases h
  · cases h

theorem drain_suffix : ∀ (sched : List Nat) (up : List UInt8), drain sched up <:+ up
  | [], _ => List.suffix_refl _
  | k :: sched, up => by
    simp only [drain]
    split
    · exact List.suffix_refl _
    · exact (drain_suffix sched _).trans (List.drop_suffix ..)

theorem slaveReceiveMsg_suffix (b : Backend) (sched : List Nat) (up : List UInt8) :
    (slaveReceiveMsg b sched up).2 <:+ up := by
  have h := receive_suffix b .indication sched up
  unfold slaveReceiveMsg
  revert h
  rcases receive b .indication sched up with ⟨o, sched', up'⟩
  intro h
  cases o with
  | tooLong => exact h
  | timeout => exact h
  | msg data =>
    dsimp only at h ⊢
    split
    · exact h
    · exact (drain_suffix ..).trans h

/-! ### A turn of the thread -/

/-- What a turn leaves on the link is the end of what was there. -/
theorem execRound_suffix (b : Backend) (ctx : SlaverDevCtx) (sched : List Nat) (up : List UInt8) :
    (execRound b ctx sched up).2 <:+ up := by
  have h := slaveReceiveMsg_suffix b sched up
  unfold execRound
  revert h
  rcases slaveReceiveMsg b sched up with ⟨_ | req, up'⟩ <;> exact id

/-- **A turn that saw a message** answered it, and the message was a frame at the front of the link. -/
theorem execRound_of_seen {b : Backend} {ctx : SlaverDevCtx} {sched : List Nat} {up req : List UInt8}
    (h : (execRound b ctx sched up).1.seen = some req) :
    (execRound b ctx sched up).1 = answering b ctx req ∧ up = req ++ (execRound b ctx sched up).2
      ∧ frameLength b .indication req = req.length := by
  unfold execRound at h ⊢
  rcases hr : slaveReceiveMsg b sched up with ⟨_ | req', up'⟩
  · rw [hr] at h
    cases h
  · rw [hr] at h
    cases h
    obtain ⟨hup, hlen, -⟩ := slaveReceiveMsg_eq_some hr
    exact ⟨rfl, hup, hlen⟩

end Wow.Modbus
