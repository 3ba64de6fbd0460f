import Wow.Modbus.Master
import Wow.Modbus.Slave

/-!
# Wow.Modbus.Exchange — the request at the slave, and the reply at the master

A request is the context's frame around its function code, and so is the reply; each station derives the same
length from the frame that the other one built.

* `execRound_adu`, `confirm_adu`: a station that gets a whole frame in time takes it, and what follows it stays.
* `answer_read`, `answer_write`: what the slave makes of the request of a call.
* `checkConfirmation_read_iff`, `checkConfirmation_write`: what the master takes for the reply to it.
-/

namespace Wow.Modbus

open Backend Master

/-! ### Frames on the link -/

variable {b : Backend}

/-- A body as long as its function code announces. -/
def WellSized (type : MsgType) (pdu : List UInt8) : Prop := pduLength type pdu = pdu.length

theorem pduLength_append {type : MsgType} {pdu : List UInt8} (h : pduLength type pdu ≤ pdu.length)
    (t : List UInt8) : pduLength type (pdu ++ t) = pduLength type pdu := by
  have h1 := frameLength_eq .tcp type (List.replicate 7 0 ++ pdu)
  have h2 := frameLength_eq .tcp type ((List.replicate 7 0 ++ pdu) ++ t)
  have hlen : frameLength .tcp type (List.replicate 7 0 ++ pdu) ≤ (List.replicate 7 (0 : UInt8) ++ pdu).length := by
    rw [h1]
    simp [headerLength, checksumLength]
    omega
  rw [frameLength_append hlen, h1] at h2
  simp [headerLength, checksumLength] at h2
  exact h2.symm

theorem frameLength_adu {type : MsgType} {pdu : List UInt8} (h : WellSized type pdu) (tId : Nat) (slave : UInt8) :
    frameLength b type (b.adu tId slave pdu) = (b.adu tId slave pdu).length := by
  obtain ⟨t, ht, -⟩ := b.drop_adu tId slave pdu
  rw [frameLength_eq, ht, pduLength_append (Nat.le_of_eq h), h, length_adu]

/-- What a station receives when a frame comes in time. -/
theorem receive_adu {type : MsgType} {pdu : List UInt8} (h : WellSized type pdu)
    (hmax : b.headerLength + pdu.length + b.checksumLength ≤ b.maxAduLength) {tId : Nat} {slave : UInt8}
    {sched : List Nat} {rest : List UInt8}
    (hr : (receive b type sched (b.adu tId slave pdu ++ rest)).1 ≠ .timeout) :
    ∃ sched', receive b type sched (b.adu tId slave pdu ++ rest) = (.msg (b.adu tId slave pdu), sched', rest) := by
  have hlen : frameLength b type (b.adu tId slave pdu) = _ := frameLength_adu h tId slave
  have hfl : frameLength b type (b.adu tId slave pdu ++ rest) = (b.adu tId slave pdu).length := by
    rw [frameLength_append (Nat.le_of_eq hlen), hlen]
  have ht := receive_taken b type sched (b.adu tId slave pdu ++ rest)
  revert ht hr
  rcases receive b type sched (b.adu tId slave pdu ++ rest) with ⟨o, sched', up'⟩
  intro hr ht
  cases ht with
  | msg =>
    refine ⟨sched', ?_⟩
    simp only [hfl]
    simp
  | tooLong hlong =>
    rw [hfl, length_adu] at hlong
    omega
  | timeout => exact absurd rfl hr

/-- A steady schedule does not time out on a frame. -/
theorem receive_adu_ne_timeout {type : MsgType} {pdu : List UInt8} (h : WellSized type pdu)
    (hmax : b.headerLength + pdu.length + b.checksumLength ≤ b.maxAduLength) {sched : List Nat} (hs : Steady sched)
    (tId : Nat) (slave : UInt8) (rest : List UInt8) :
    (receive b type sched (b.adu tId slave pdu ++ rest)).1 ≠ .timeout := by
  have hlen : frameLength b type (b.adu tId slave pdu) = _ := frameLength_adu h tId slave
  have hfl : frameLength b type (b.adu tId slave pdu ++ rest) = (b.adu tId slave pdu).length := by
    rw [frameLength_append (Nat.le_of_eq hlen), hlen]
  obtain ⟨sched', hr⟩ := @receive_steady b type sched hs (b.adu tId slave pdu ++ rest) (by rwa [hfl, length_adu])
    (by simp [hfl])
  rw [hr]
  exact Received.noConfusion

/-- **A frame at the slave**: it is taken whole and answered, and what follows it stays. -/
theorem execRound_adu (ctx : SlaverDevCtx) {pdu : List UInt8} (h : WellSized .indication pdu)
    (hmax : b.headerLength + pdu.length + b.checksumLength ≤ b.maxAduLength) {tId : Nat} {slave : UInt8}
    {sched : List Nat} {rest : List UInt8}
    (hr : (receive b .indication sched (b.adu tId slave pdu ++ rest)).1 ≠ .timeout) :
    execRound b ctx sched (b.adu tId slave pdu ++ rest)
      = (answering b ctx (b.adu tId slave pdu), rest) := by
  obtain ⟨sched', hmsg⟩ := receive_adu h hmax hr
  simp [execRound, slaveReceiveMsg, hmsg, checkIntegrity_adu]

/-- **A frame at the master**: it is taken whole and compared with the request. -/
theorem confirm_adu {m : Master} {pdu : List UInt8} (h : WellSized .confirmation pdu)
    (hmax : m.ctx.headerLength + pdu.length + m.ctx.checksumLength ≤ m.ctx.maxAduLength) {tId : Nat}
    {slave : UInt8} {req : List UInt8} {sched : List Nat} {rest : List UInt8}
    (hr : (receive m.ctx .confirmation sched (m.ctx.adu tId slave pdu ++ rest)).1 ≠ .timeout) {n : Nat}
    (hn : checkConfirmation m.ctx req (m.ctx.adu tId slave pdu) = some n) (hpos : 0 < n) :
    m.confirm req sched (m.ctx.adu tId slave pdu ++ rest) = (some (n, m.ctx.adu tId slave pdu), rest) := by
  obtain ⟨sched', hmsg⟩ := receive_adu h hmax hr
  simp [confirm, receiveMsg, hmsg, checkIntegrity_adu, hn, hpos]

/-! ### The request, read by the slave -/

/-- What the master puts behind the number of values. -/
def IsBody (eAfn : FunctionMode) (data : List UInt8) : Prop :=
  match eAfn with
  | .writeMultipleCoils | .writeMultipleRegisters =>
    ∃ body : List UInt8, body.length < 256 ∧ data = UInt8.ofNat body.length :: body
  | .readCoils | .readDiscreteInputs | .readHoldingRegisters | .readInputRegisters
  | .writeSingleCoil | .writeSingleRegister => data = []
  | _ => False

theorem wellSized_requestPdu {eAfn : FunctionMode} {data : List UInt8} (h : IsBody eAfn data) (addr nb : Nat) :
    WellSized .indication (requestPdu eAfn addr nb data) := by
  unfold WellSized
  cases eAfn
  case readExceptionStatus => cases h
  case reportSlaveId => cases h
  case writeMultipleCoils =>
    obtain ⟨body, hb, rfl⟩ := h
    simp [requestPdu, pduLength, FunctionMode.code, computeMetaLengthAfterFunction, FunctionMode.ofCode, be16]
    omega
  case writeMultipleRegisters =>
    obtain ⟨body, hb, rfl⟩ := h
    simp [requestPdu, pduLength, FunctionMode.code, computeMetaLengthAfterFunction, FunctionMode.ofCode, be16]
    omega
  all_goals
    cases h
    rfl

theorem slave_of_adu (b : Backend) (tId : UInt16) (slave : UInt8) (pdu : List UInt8) :
    (Request.of b (b.adu tId.toNat slave pdu)).slave = slave.toNat := octet_adu_slave ..

theorem afn_of_adu (b : Backend) (tId : UInt16) (slave f : UInt8) (body : List UInt8) :
    (Request.of b (b.adu tId.toNat slave (f :: body))).afn = f.toNat := by
  have := @octet_adu b tId.toNat slave (f :: body) 0 (Nat.succ_pos _)
  simpa [Request.of] using this

variable {tId : UInt16} {slave : UInt8} {eAfn : FunctionMode} {addr nb : Nat} {data : List UInt8}

theorem word_adu_addr (b : Backend) (tId : Nat) (slave : UInt8) (eAfn : FunctionMode) (addr nb : Nat)
    (data : List UInt8) :
    word (b.adu tId slave (requestPdu eAfn addr nb data)) (b.headerLength + 1) = addr % 65536 := by
  have hlt : 1 + 1 < (requestPdu eAfn addr nb data).length := by
    rw [length_requestPdu]
    omega
  rw [word_adu b tId slave hlt]
  exact word_be16 addr (be16 nb ++ data)

theorem word_adu_nb (b : Backend) (tId : Nat) (slave : UInt8) (eAfn : FunctionMode) (addr nb : Nat)
    (data : List UInt8) :
    word (b.adu tId slave (requestPdu eAfn addr nb data)) (b.headerLength + 3) = nb % 65536 := by
  have hlt : 3 + 1 < (requestPdu eAfn addr nb data).length := by
    rw [length_requestPdu]
    omega
  rw [word_adu b tId slave hlt]
  exact word_be16 nb data

theorem addr_of_adu :
    (Request.of b (b.adu tId.toNat slave (requestPdu eAfn addr nb data))).addr = UInt16.ofNat addr := by
  simp only [Request.of, word_adu_addr]
  exact UInt16.ofNat_mod_size

theorem bulk_of_adu :
    (Request.of b (b.adu tId.toNat slave (requestPdu eAfn addr nb data))).bulk = nb % 65536 :=
  word_adu_nb ..

theorem slice_pointer_adu {pdu : List UInt8} {i k : Nat} (h : i + k ≤ pdu.length) :
    (pointer (b.adu tId.toNat slave pdu) (b.headerLength + i)).slice 0 k = (pdu.drop i).take k := by
  obtain ⟨t, ht, -⟩ := b.drop_adu tId.toNat slave pdu
  rw [slice_pointer (by rw [length_adu]; omega), ← List.drop_drop, ht, List.drop_append_of_le_length (by omega),
    List.take_append_of_le_length (by rw [List.length_drop]; omega)]

/-! ### The reply of the slave -/

/-- A reply goes out with the ids and the function code of the request. -/
theorem sendMsgPre_reply (f : UInt8) (pdu body : List UInt8) :
    b.sendMsgPre (b.buildResponseBasis (Request.of b (b.adu tId.toNat slave (f :: pdu))).sft ++ body)
      = b.adu tId.toNat slave (f :: body) := by
  have hsft : (Request.of b (b.adu tId.toNat slave (f :: pdu))).sft
      = ⟨slave.toNat, f.toNat, b.prepareResponseTid (b.adu tId.toNat slave (f :: pdu))⟩ := by
    rw [← slave_of_adu b tId slave (f :: pdu), ← afn_of_adu b tId slave f pdu]
    rfl
  rw [hsft, sendMsgPre_responseBasis, adu_prepareResponseTid]
  simp

/-- The reply to a read. -/
theorem readValues_adu (ctx : SlaverDevCtx) (max bytes : Nat) (hnb : nb < 65536) :
    (Request.of b (b.adu tId.toNat slave (requestPdu eAfn addr nb data))).readValues b ctx max bytes
      = let got := ctx.getAfnAddrVal slave.toNat eAfn.code (UInt16.ofNat addr) (UInt16.ofNat nb)
        if 1 ≤ nb ∧ nb ≤ max then
          (if got.1 = 0 then
              .ok (b.adu tId.toNat slave (eAfn.code :: UInt8.ofNat bytes :: got.2.slice 0 bytes))
            else .error got.1,
            some (.get slave.toNat eAfn.code (UInt16.ofNat addr) (UInt16.ofNat nb)))
        else (.error ErrorCode.illegalDataValue.code, none) := by
  unfold Request.readValues
  rw [bulk_of_adu, Nat.mod_eq_of_lt hnb]
  have hafn : (Request.of b (b.adu tId.toNat slave (requestPdu eAfn addr nb data))).afn = eAfn.code.toNat :=
    afn_of_adu ..
  simp only [slave_of_adu, hafn, addr_of_adu, UInt8.ofNat_toNat]
  rw [show requestPdu eAfn addr nb data = eAfn.code :: (be16 addr ++ be16 nb ++ data) from rfl, sendMsgPre_reply]

/-- The reply to a single write: the request. -/
theorem writeSingle_adu (ctx : SlaverDevCtx) (ptr : Mem) :
    (Request.of b (b.adu tId.toNat slave (requestPdu eAfn addr nb data))).writeSingle ctx ptr
      = let ret := ctx.setAfnAddrVal slave.toNat eAfn.code (UInt16.ofNat addr) ptr 1
        (if ret = 0 then .ok (b.adu tId.toNat slave (requestPdu eAfn addr nb data)) else .error ret,
          some (.set slave.toNat eAfn.code (UInt16.ofNat addr) ptr 1)) := by
  have hafn : (Request.of b (b.adu tId.toNat slave (requestPdu eAfn addr nb data))).afn = eAfn.code.toNat :=
    afn_of_adu ..
  unfold Request.writeSingle
  simp only [slave_of_adu, hafn, addr_of_adu, UInt8.ofNat_toNat]
  rfl

theorem length_buildResponseBasis (b : Backend) (sft : Sft) :
    (b.buildResponseBasis sft).length = b.headerLength + 1 := by
  cases b <;> rfl

/-- The reply to a multiple write: its address and its number. -/
theorem writeMultiple_adu (ctx : SlaverDevCtx) (max : Nat) (hnb : nb < 65536) :
    (Request.of b (b.adu tId.toNat slave (requestPdu eAfn addr nb data))).writeMultiple b ctx max
      = let ptr := pointer (b.adu tId.toNat slave (requestPdu eAfn addr nb data)) (b.headerLength + 6)
        let ret := ctx.setAfnAddrVal slave.toNat eAfn.code (UInt16.ofNat addr) ptr (UInt16.ofNat nb)
        if 1 ≤ nb ∧ nb ≤ max then
          (if ret = 0 then .ok (b.adu tId.toNat slave (requestPdu eAfn addr nb [])) else .error ret,
            some (.set slave.toNat eAfn.code (UInt16.ofNat addr) ptr (UInt16.ofNat nb)))
        else (.error ErrorCode.illegalDataValue.code, none) := by
  have hafn : (Request.of b (b.adu tId.toNat slave (requestPdu eAfn addr nb data))).afn = eAfn.code.toNat :=
    afn_of_adu ..
  have hlen : 1 + 4 ≤ (requestPdu eAfn addr nb data).length := by
    rw [length_requestPdu]
    omega
  have hcopy : (pointer (Request.of b (b.adu tId.toNat slave (requestPdu eAfn addr nb data))).req
      (b.headerLength + 1)).slice 0 4 = be16 addr ++ be16 nb := slice_pointer_adu hlen
  unfold Request.writeMultiple
  rw [bulk_of_adu, Nat.mod_eq_of_lt hnb]
  simp only [slave_of_adu, hafn, addr_of_adu, UInt8.ofNat_toNat, length_buildResponseBasis, hcopy]
  rw [show requestPdu eAfn addr nb [] = eAfn.code :: (be16 addr ++ be16 nb) by simp [requestPdu],
    ← sendMsgPre_reply eAfn.code (be16 addr ++ be16 nb ++ data) (be16 addr ++ be16 nb)]
  rfl

/-! ### The reply, read by the master -/

/-- The octets of the values that a read asks for. -/
def valueBytes (eAfn : FunctionMode) (nb : Nat) : Nat :=
  match eAfn with
  | .readCoils | .readDiscreteInputs => bitBytes nb
  | .readHoldingRegisters | .readInputRegisters => nb * 2
  | _ => 0

/-- The calls of `wow_modbus_m_read_data`. -/
def IsRead (eAfn : FunctionMode) : Prop :=
  eAfn = .readCoils ∨ eAfn = .readDiscreteInputs ∨ eAfn = .readHoldingRegisters ∨ eAfn = .readInputRegisters

theorem octet_adu_code (b : Backend) (tId : Nat) (slave f : UInt8) (body : List UInt8) :
    octet (b.adu tId slave (f :: body)) b.headerLength = f.toNat :=
  @octet_adu b tId slave (f :: body) 0 (Nat.succ_pos _)

theorem word_requestPdu (b : Backend) (tId : Nat) (slave : UInt8) (hnb : nb < 65536) :
    word (b.adu tId slave (requestPdu eAfn addr nb data)) (b.headerLength + 3) = nb :=
  (word_adu_nb ..).trans (Nat.mod_eq_of_lt hnb)

/-- The length that the master computes for the reply to a read. -/
theorem computeResponseLength_read (hread : IsRead eAfn) (hnb : nb < 65536) :
    computeResponseLengthFromRequest b (b.adu tId.toNat slave (requestPdu eAfn addr nb data))
      = some (b.headerLength + (2 + valueBytes eAfn nb) + b.checksumLength) := by
  unfold computeResponseLengthFromRequest
  have hcode : octet (b.adu tId.toNat slave (requestPdu eAfn addr nb data)) b.headerLength = eAfn.code.toNat :=
    octet_adu_code ..
  simp only [word_requestPdu b tId.toNat slave hnb, hcode, FunctionMode.ofCode_code]
  rcases hread with rfl | rfl | rfl | rfl <;> simp [valueBytes, bitBytes] <;> omega

/-- **What the master takes for the reply to a read**: the values that were asked for, and nothing else. -/
theorem checkConfirmation_read_iff (addr : Nat) (data : List UInt8) (hread : IsRead eAfn) (hnb : nb < 65536)
    {rsp : List UInt8} {n : Nat} :
    checkConfirmation b (b.adu tId.toNat slave (requestPdu eAfn addr nb data)) rsp = some n
      ↔ octet rsp b.headerLength = eAfn.code.toNat
        ∧ b.checkConfirmation (b.adu tId.toNat slave (requestPdu eAfn addr nb data)) rsp = true
        ∧ rsp.length = b.headerLength + (2 + valueBytes eAfn nb) + b.checksumLength
        ∧ octet rsp (b.headerLength + 1) = valueBytes eAfn nb ∧ n = valueBytes eAfn nb := by
  have hcode : octet (b.adu tId.toNat slave (requestPdu eAfn addr nb data)) b.headerLength = eAfn.code.toNat :=
    octet_adu_code ..
  rw [checkConfirmation_eq_some, computeResponseLength_read hread hnb, hcode]
  refine and_congr_right fun hfun => and_congr_right fun _ => ?_
  have hvalues : nbValues b (b.adu tId.toNat slave (requestPdu eAfn addr nb data)) rsp
      = (valueBytes eAfn nb, octet rsp (b.headerLength + 1)) := by
    simp only [nbValues, hfun, word_requestPdu b tId.toNat slave hnb, FunctionMode.ofCode_code]
    rcases hread with rfl | rfl | rfl | rfl <;> simp [valueBytes]
  rw [hvalues]
  simp only [Option.some.injEq, reduceCtorEq, or_false, Prod.mk.injEq]
  omega

/-- The calls of `wow_modbus_m_write_data`, with the number of values in the reply. -/
def confirmNb (eAfn : FunctionMode) (nb : Nat) : Option Nat :=
  match eAfn with
  | .writeSingleCoil | .writeSingleRegister => some 1
  | .writeMultipleCoils | .writeMultipleRegisters => some nb
  | _ => none

/-- **A reply that repeats the address and the number** is taken. -/
theorem checkConfirmation_write (data : List UInt8) {n : Nat} (hwrite : confirmNb eAfn nb = some n)
    (hnb : nb < 65536) :
    checkConfirmation b (b.adu tId.toNat slave (requestPdu eAfn addr nb data))
        (b.adu tId.toNat slave (requestPdu eAfn addr nb [])) = some n := by
  have hcode : octet (b.adu tId.toNat slave (requestPdu eAfn addr nb data)) b.headerLength = eAfn.code.toNat :=
    octet_adu_code ..
  have hcode' : octet (b.adu tId.toNat slave (requestPdu eAfn addr nb [])) b.headerLength = eAfn.code.toNat :=
    octet_adu_code ..
  have hok : b.checkConfirmation (b.adu tId.toNat slave (requestPdu eAfn addr nb data))
      (b.adu tId.toNat slave (requestPdu eAfn addr nb [])) = true := checkConfirmation_adu ..
  refine checkConfirmation_eq_some.2 ⟨hcode'.trans hcode.symm, hok, Or.inl ?_, ?_⟩
  · rw [length_adu]
    simp only [computeResponseLengthFromRequest, hcode, FunctionMode.ofCode_code]
    cases eAfn <;> simp [confirmNb] at hwrite <;> simp [requestPdu]
  · simp only [nbValues, hcode', word_requestPdu b tId.toNat slave hnb, FunctionMode.ofCode_code]
    cases eAfn <;> simp [confirmNb] at hwrite <;> simp [hwrite]

/-! ### The calls -/

/-- The numbers of values that the stations take: one for a single write. -/
def WithinLimits (eAfn : FunctionMode) (nb : Nat) : Prop :=
  match eAfn with
  | .readCoils | .readDiscreteInputs => 1 ≤ nb ∧ nb ≤ maxReadBits
  | .readHoldingRegisters | .readInputRegisters => 1 ≤ nb ∧ nb ≤ maxReadRegisters
  | .writeSingleCoil | .writeSingleRegister => nb = 1
  | .writeMultipleCoils => 1 ≤ nb ∧ nb ≤ maxWriteBits
  | .writeMultipleRegisters => 1 ≤ nb ∧ nb ≤ maxWriteRegisters
  | _ => False

/-- The calls of `wow_modbus_m_write_data`. -/
def IsWrite (eAfn : FunctionMode) : Prop :=
  eAfn = .writeSingleCoil ∨ eAfn = .writeSingleRegister ∨ eAfn = .writeMultipleCoils
    ∨ eAfn = .writeMultipleRegisters

/-- The functions with a byte count. -/
def IsMultiple (eAfn : FunctionMode) : Bool :=
  eAfn = .writeMultipleCoils ∨ eAfn = .writeMultipleRegisters

/-- What a write callback finds behind its pointer when the master was given `pu8Data`. -/
def writtenOctets (eAfn : FunctionMode) (nb : Nat) (pu8Data : Mem) : List UInt8 :=
  match eAfn with
  | .writeSingleCoil => [if pu8Data.u16 0 ≠ 0 then 1 else 0]
  | .writeSingleRegister => pu8Data.slice 0 2
  | .writeMultipleCoils => pu8Data.slice 0 (bitBytes nb)
  | .writeMultipleRegisters => pu8Data.slice 0 (nb * 2)
  | _ => []

theorem wellSized_reply_read (hread : IsRead eAfn) {values : List UInt8} (h256 : values.length < 256) :
    WellSized .confirmation (eAfn.code :: UInt8.ofNat values.length :: values) := by
  unfold WellSized pduLength
  rcases hread with rfl | rfl | rfl | rfl <;>
    simp [FunctionMode.code, computeMetaLengthAfterFunction, FunctionMode.ofCode] <;> omega

/-- The values in a reply to a read. -/
theorem values_adu (b : Backend) (tId : Nat) (slave f x : UInt8) (values : List UInt8) :
    ((b.adu tId slave (f :: x :: values)).drop (b.headerLength + 2)).take values.length = values := by
  obtain ⟨t, ht, -⟩ := b.drop_adu tId slave (f :: x :: values)
  rw [← List.drop_drop, ht]
  simp

theorem isBody_nil (hread : IsRead eAfn) : IsBody eAfn [] := by
  rcases hread with rfl | rfl | rfl | rfl <;> rfl

/-- A request without values behind it fits every context. -/
theorem fits_requestPdu (b : Backend) (eAfn : FunctionMode) (addr nb : Nat) :
    b.headerLength + (requestPdu eAfn addr nb []).length + b.checksumLength ≤ b.maxAduLength := by
  cases b <;> simp [requestPdu, headerLength, checksumLength, maxAduLength]

/-- The number in the request of a write. -/
def writeNb (eAfn : FunctionMode) (u32Size : UInt32) (pu8Data : Mem) : Nat :=
  match eAfn with
  | .writeSingleCoil => if pu8Data.u16 0 ≠ 0 then 0xFF00 else 0
  | .writeSingleRegister => (pu8Data 0).toNat * 256 + (pu8Data 1).toNat
  | _ => u32Size.toNat

/-- What stands behind it. -/
def writeBody (eAfn : FunctionMode) (u32Size : UInt32) (pu8Data : Mem) : List UInt8 :=
  match eAfn with
  | .writeMultipleCoils =>
    UInt8.ofNat (bitBytes u32Size.toNat) :: pu8Data.slice 0 (bitBytes u32Size.toNat)
  | .writeMultipleRegisters => UInt8.ofNat (u32Size * 2).toNat :: pu8Data.slice 0 (u32Size * 2).toNat
  | _ => []

theorem writeRequest_eq (m : Master) {nSlave : Int} (hs : 0 < nSlave ∧ nSlave ≤ 247) (u32Addr u32Size : UInt32)
    (pu8Data : Mem) (hwrite : IsWrite eAfn) :
    m.writeRequest nSlave eAfn u32Addr u32Size pu8Data
      = .ok (m.request nSlave eAfn u32Addr.toNat (writeNb eAfn u32Size pu8Data)
          (writeBody eAfn u32Size pu8Data)) := by
  simp only [writeRequest, hs, and_self, not_true_eq_false, if_false]
  rcases hwrite with rfl | rfl | rfl | rfl <;> rfl

/-- The values of a multiple write, where the slave's callback finds them. -/
theorem slice_body (b : Backend) (tId : UInt16) (slave : UInt8) (eAfn : FunctionMode) (addr nb : Nat) (x : UInt8)
    (body : List UInt8) :
    (pointer (b.adu tId.toNat slave (requestPdu eAfn addr nb (x :: body))) (b.headerLength + 6)).slice 0 body.length
      = body := by
  rw [slice_pointer_adu (by rw [length_requestPdu, List.length_cons]; omega)]
  simp [requestPdu, be16]

/-- The two octets of a single write. -/
theorem slice_single (b : Backend) (tId : UInt16) (slave : UInt8) (eAfn : FunctionMode) (addr nb : Nat) :
    (pointer (b.adu tId.toNat slave (requestPdu eAfn addr nb [])) (b.headerLength + 3)).slice 0 2 = be16 nb := by
  rw [slice_pointer_adu (by rw [length_requestPdu]; exact Nat.le_refl _)]
  simp [requestPdu, be16]

theorem be16_octets (d0 d1 : UInt8) : be16 (d0.toNat * 256 + d1.toNat) = [d0, d1] := by
  have h := d1.toNat_lt
  have hdiv : (d0.toNat * 256 + d1.toNat) / 256 = d0.toNat := by omega
  have hlow : UInt8.ofNat (d0.toNat * 256 + d1.toNat) = d1 := by
    rw [← UInt8.toNat_inj]
    simp
  rw [be16, hdiv, hlow, UInt8.ofNat_toNat]

theorem wellSized_reply_write (hwrite : IsWrite eAfn) (addr nb : Nat) :
    WellSized .confirmation (requestPdu eAfn addr nb []) := by
  rcases hwrite with rfl | rfl | rfl | rfl <;> rfl

/-- A write whose data fit into a request. -/
def WriteFits (eAfn : FunctionMode) (size : Nat) : Prop :=
  match eAfn with
  | .writeMultipleCoils => size ≤ 1976
  | .writeMultipleRegisters => size ≤ 123
  | _ => True

instance (eAfn : FunctionMode) (size : Nat) : Decidable (WriteFits eAfn size) :=
  match eAfn with
  | .writeMultipleCoils => inferInstanceAs (Decidable (size ≤ 1976))
  | .writeMultipleRegisters => inferInstanceAs (Decidable (size ≤ 123))
  | .readCoils | .readDiscreteInputs | .readHoldingRegisters | .readInputRegisters | .writeSingleCoil
  | .writeSingleRegister | .readExceptionStatus | .reportSlaveId => inferInstanceAs (Decidable True)

/-- What fits bounds the number in the request and its body. -/
theorem write_bounds {u32Size : UInt32} (hwrite : IsWrite eAfn) (hfit : WriteFits eAfn u32Size.toNat)
    (pu8Data : Mem) :
    writeNb eAfn u32Size pu8Data < 65536 ∧ (writeBody eAfn u32Size pu8Data).length ≤ 248
      ∧ IsBody eAfn (writeBody eAfn u32Size pu8Data) := by
  have h0 := (pu8Data 0).toNat_lt
  have h1 := (pu8Data 1).toNat_lt
  rcases hwrite with rfl | rfl | rfl | rfl
  · refine ⟨?_, Nat.zero_le _, rfl⟩
    unfold writeNb
    dsimp only
    split <;> omega
  · refine ⟨?_, Nat.zero_le _, rfl⟩
    unfold writeNb
    dsimp only
    omega
  · simp only [WriteFits] at hfit
    have hb : bitBytes u32Size.toNat ≤ 247 := by
      unfold bitBytes
      split <;> omega
    exact ⟨by simp only [writeNb]; omega, by simp [writeBody]; omega,
      pu8Data.slice 0 (bitBytes u32Size.toNat), by simp; omega, by simp [writeBody]⟩
  · simp only [WriteFits] at hfit
    have hb : (u32Size * 2).toNat ≤ 246 := by
      rw [UInt32.toNat_mul]
      simp
      omega
    exact ⟨by simp only [writeNb]; omega, by simp [writeBody]; omega,
      pu8Data.slice 0 (u32Size * 2).toNat, by simp; omega, by simp [writeBody]⟩

/-- The number that the master reads from the reply to a write is positive. -/
theorem confirmNb_pos {u32Size : UInt32} (hwrite : IsWrite eAfn) (hsize : IsMultiple eAfn = true → 1 ≤ u32Size.toNat)
    (pu8Data : Mem) : ∃ n, confirmNb eAfn (writeNb eAfn u32Size pu8Data) = some n ∧ 0 < n := by
  rcases hwrite with rfl | rfl | rfl | rfl
  · exact ⟨1, rfl, Nat.one_pos⟩
  · exact ⟨1, rfl, Nat.one_pos⟩
  · exact ⟨_, rfl, hsize rfl⟩
  · exact ⟨_, rfl, hsize rfl⟩

theorem slave_toNat {nSlave : Int} (hs : 0 < nSlave ∧ nSlave ≤ 247) :
    (UInt8.ofNat nSlave.toNat).toNat = nSlave.toNat := by
  simp
  omega

/-- A request whose data fit is as long as the context takes. -/
theorem fits_write (b : Backend) {u32Size : UInt32} (hwrite : IsWrite eAfn) (hfit : WriteFits eAfn u32Size.toNat)
    (pu8Data : Mem) (addr : Nat) :
    b.headerLength + (requestPdu eAfn addr (writeNb eAfn u32Size pu8Data) (writeBody eAfn u32Size pu8Data)).length
      + b.checksumLength ≤ b.maxAduLength := by
  have hlen := (write_bounds hwrite hfit pu8Data).2.1
  cases b <;> simp [requestPdu, headerLength, checksumLength, maxAduLength] <;> omega

/-! ### What the slave makes of the request of a call -/

/-- The most values that the slave takes at once. -/
def sizeLimit : FunctionMode → Nat
  | .readCoils | .readDiscreteInputs => maxReadBits
  | .readHoldingRegisters | .readInputRegisters => maxReadRegisters
  | .writeMultipleCoils => maxWriteBits
  | .writeMultipleRegisters => maxWriteRegisters
  | _ => 1

/-- **A read at the slave**: the values that the callback gives, within the limits. -/
theorem answer_read (b : Backend) (tId : UInt16) (slave : UInt8) (addr : Nat) (data : List UInt8) (ctx : SlaverDevCtx)
    (hread : IsRead eAfn) (hnb : nb < 65536) :
    (Request.of b (b.adu tId.toNat slave (requestPdu eAfn addr nb data))).answer b ctx
      = let got := ctx.getAfnAddrVal slave.toNat eAfn.code (UInt16.ofNat addr) (UInt16.ofNat nb)
        if 1 ≤ nb ∧ nb ≤ sizeLimit eAfn then
          (if got.1 = 0 then
              .ok (b.adu tId.toNat slave (eAfn.code :: UInt8.ofNat (valueBytes eAfn nb)
                :: got.2.slice 0 (valueBytes eAfn nb)))
            else .error got.1,
            some (.get slave.toNat eAfn.code (UInt16.ofNat addr) (UInt16.ofNat nb)))
        else (.error ErrorCode.illegalDataValue.code, none) := by
  have hafn : (Request.of b (b.adu tId.toNat slave (requestPdu eAfn addr nb data))).afn = eAfn.code.toNat :=
    afn_of_adu ..
  have hbulk : (Request.of b (b.adu tId.toNat slave (requestPdu eAfn addr nb data))).bulk = nb :=
    bulk_of_adu.trans (Nat.mod_eq_of_lt hnb)
  simp only [Request.answer, hafn, FunctionMode.ofCode_code, hbulk]
  rcases hread with rfl | rfl | rfl | rfl <;> dsimp only <;> rw [readValues_adu ctx _ _ hnb]
  · rw [align8_div]
    rfl
  · rw [align8_div]
    rfl
  · rfl
  · rfl

/-- **A write at the slave**: the values of the request, where they are not too many. -/
theorem answer_write (b : Backend) (tId : UInt16) (slave : UInt8) (addr : Nat) (ctx : SlaverDevCtx) {u32Size : UInt32}
    (hwrite : IsWrite eAfn)
    (hfit : WriteFits eAfn u32Size.toNat) (pu8Data : Mem) :
    ∃ ptr l, ptr.slice 0 (writtenOctets eAfn u32Size.toNat pu8Data).length = writtenOctets eAfn u32Size.toNat pu8Data
      ∧ l = UInt16.ofNat (if IsMultiple eAfn then u32Size.toNat else 1)
      ∧ (Request.of b (b.adu tId.toNat slave
          (requestPdu eAfn addr (writeNb eAfn u32Size pu8Data) (writeBody eAfn u32Size pu8Data)))).answer b ctx
        = let ret := ctx.setAfnAddrVal slave.toNat eAfn.code (UInt16.ofNat addr) ptr l
          if IsMultiple eAfn → 1 ≤ u32Size.toNat ∧ u32Size.toNat ≤ sizeLimit eAfn then
            (if ret = 0 then .ok (b.adu tId.toNat slave (requestPdu eAfn addr (writeNb eAfn u32Size pu8Data) []))
              else .error ret,
              some (.set slave.toNat eAfn.code (UInt16.ofNat addr) ptr l))
          else (.error ErrorCode.illegalDataValue.code, none) := by
  obtain ⟨hnb, -, -⟩ := write_bounds hwrite hfit pu8Data
  generalize hreq : b.adu tId.toNat slave
    (requestPdu eAfn addr (writeNb eAfn u32Size pu8Data) (writeBody eAfn u32Size pu8Data)) = req
  have hafn : (Request.of b req).afn = eAfn.code.toNat := hreq ▸ afn_of_adu ..
  have hbulk : (Request.of b req).bulk = writeNb eAfn u32Size pu8Data := by
    rw [← hreq, bulk_of_adu, Nat.mod_eq_of_lt hnb]
  simp only [Request.answer, hafn, FunctionMode.ofCode_code]
  rcases hwrite with rfl | rfl | rfl | rfl <;> dsimp only
  · have hword : word (Request.of b req).req ((Request.of b req).offset + 3)
        = if pu8Data.u16 0 ≠ 0 then 0xFF00 else 0 := hbulk
    have hval : (if pu8Data.u16 0 ≠ 0 then 0xFF00 else 0) = 0xFF00 ∨ (if pu8Data.u16 0 ≠ 0 then 0xFF00 else 0) = 0 := by
      split <;> simp
    rw [hword, ← hreq, writeSingle_adu ctx]
    refine ⟨_, 1, ?_, rfl, (if_pos hval).trans (if_pos fun h => absurd h (by decide)).symm⟩
    simp only [writtenOctets, List.length_singleton]
    rw [Mem.slice_fill (Nat.le_refl _)]
    by_cases h0 : pu8Data.u16 0 = 0 <;> simp [h0]
  · rw [← hreq, writeSingle_adu ctx]
    refine ⟨_, 1, (slice_single ..).trans ?_, rfl, (if_pos fun h => absurd h (by decide)).symm⟩
    simp only [writeNb, be16_octets]
    rfl
  · subst hreq
    rw [writeMultiple_adu ctx _ hnb]
    refine ⟨pointer (b.adu tId.toNat slave (requestPdu .writeMultipleCoils addr u32Size.toNat
      (writeBody .writeMultipleCoils u32Size pu8Data))) (b.headerLength + 6), UInt16.ofNat u32Size.toNat, ?_, rfl, ?_⟩
    · have := slice_body b tId slave .writeMultipleCoils addr u32Size.toNat (UInt8.ofNat (bitBytes u32Size.toNat))
        (pu8Data.slice 0 (bitBytes u32Size.toNat))
      simpa only [writtenOctets, writeBody] using this
    · by_cases h : 1 ≤ u32Size.toNat ∧ u32Size.toNat ≤ maxWriteBits
      · exact (if_pos h).trans (if_pos fun _ => h).symm
      · exact (if_neg h).trans (if_neg fun h' => h (h' rfl)).symm
  · subst hreq
    have h2 : (u32Size * 2).toNat = u32Size.toNat * 2 := by
      simp only [WriteFits] at hfit
      rw [UInt32.toNat_mul]
      simp
      omega
    rw [writeMultiple_adu ctx _ hnb]
    refine ⟨pointer (b.adu tId.toNat slave (requestPdu .writeMultipleRegisters addr u32Size.toNat
      (writeBody .writeMultipleRegisters u32Size pu8Data))) (b.headerLength + 6), UInt16.ofNat u32Size.toNat, ?_, rfl, ?_⟩
    · have := slice_body b tId slave .writeMultipleRegisters addr u32Size.toNat (UInt8.ofNat (u32Size * 2).toNat)
        (pu8Data.slice 0 (u32Size * 2).toNat)
      simpa only [writtenOctets, writeBody, h2] using this
    · by_cases h : 1 ≤ u32Size.toNat ∧ u32Size.toNat ≤ maxWriteRegisters
      · exact (if_pos h).trans (if_pos fun _ => h).symm
      · exact (if_neg h).trans (if_neg fun h' => h (h' rfl)).symm

end Wow.Modbus
