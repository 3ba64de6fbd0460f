import Wow.Modbus.Receive

/-!
# Wow.Modbus.Master — `wow_modbus_m.c`

A call is its request and, once that is sent, the wait for the reply: `readRequest` and `writeRequest` end in
an early return or in the octets given to `link_send`, `readConfirm` and `writeConfirm` start where these are
sent.  The caller's `pu8Data` is a memory, and what a call does to it is part of its result.

* `request_eq`: the request is the frame of the context around the function code, the address and the number.
-/

namespace Wow.Modbus

/-- What the calls of a master keep in `struct modbus`. -/
structure Master where
  ctx : Backend
  tId : UInt16

/-- The link of one call: what `link_send` returns, when octets arrive, and the octets. -/
structure Link where
  send : List UInt8 → Int
  sched : List Nat
  up : List UInt8

/-- `compute_response_length_from_request`; `none` is `MSG_LENGTH_UNDEFINED`. -/
def computeResponseLengthFromRequest (b : Backend) (req : List UInt8) : Option Nat :=
  let offset := b.headerLength
  let nb := word req (offset + 3)
  let length := match FunctionMode.ofCode (octet req offset) with
    | some .readCoils | some .readDiscreteInputs => some (2 + nb / 8 + if nb % 8 ≠ 0 then 1 else 0)
    | some .readHoldingRegisters | some .readInputRegisters => some (2 + 2 * nb)
    | some .readExceptionStatus => some 3
    | some .reportSlaveId => none
    | _ => some 5
  length.map fun length => offset + length + b.checksumLength

/-- The numbers that `check_confirmation` compares: the request's and the reply's. -/
def nbValues (b : Backend) (req rsp : List UInt8) : Nat × Nat :=
  let offset := b.headerLength
  match FunctionMode.ofCode (octet rsp offset) with
  | some .readCoils | some .readDiscreteInputs => (bitBytes (word req (offset + 3)), octet rsp (offset + 1))
  | some .readHoldingRegisters | some .readInputRegisters => (word req (offset + 3) * 2, octet rsp (offset + 1))
  | some .writeMultipleCoils | some .writeMultipleRegisters => (word req (offset + 3), word rsp (offset + 3))
  | some .reportSlaveId => (octet rsp (offset + 1), octet rsp (offset + 1))
  | _ => (1, 1)

/-- `check_confirmation`; `none` is its return of −1. -/
def checkConfirmation (b : Backend) (req rsp : List UInt8) : Option Nat :=
  if octet rsp b.headerLength ≠ octet req b.headerLength then none
  else if ¬ b.checkConfirmation req rsp then none
  else if computeResponseLengthFromRequest b req ≠ some rsp.length
      ∧ computeResponseLengthFromRequest b req ≠ none then none
  else
    let (reqNb, rspNb) := nbValues b req rsp
    if reqNb = rspNb then some rspNb else none

/-- What `check_confirmation` compares. -/
theorem checkConfirmation_eq_some {b : Backend} {req rsp : List UInt8} {n : Nat} :
    checkConfirmation b req rsp = some n ↔
      octet rsp b.headerLength = octet req b.headerLength ∧ b.checkConfirmation req rsp = true
        ∧ (computeResponseLengthFromRequest b req = some rsp.length
          ∨ computeResponseLengthFromRequest b req = none)
        ∧ nbValues b req rsp = (n, n) := by
  unfold checkConfirmation
  split
  · simp_all
  · split
    · simp_all
    · split
      · simp_all
      · rename_i h1 h2 h3
        have hlen : computeResponseLengthFromRequest b req = some rsp.length
            ∨ computeResponseLengthFromRequest b req = none := by
          by_contra hlen
          exact h3 (not_or.1 hlen)
        rcases hv : nbValues b req rsp with ⟨reqNb, rspNb⟩
        simp only [not_not] at h1 h2
        simp only [h1, h2, hlen, true_and, Prod.mk.injEq]
        split
        · simp_all
        · simp only [reduceCtorEq, false_iff]
          rintro ⟨rfl, rfl⟩
          contradiction

namespace Master

/-- `modbus_receive_msg` of the master; `none` is its return of −1. -/
def receiveMsg (m : Master) (sched : List Nat) (up : List UInt8) : Option (List UInt8) × List UInt8 :=
  match receive m.ctx .confirmation sched up with
  | (.msg data, _, up) => (if m.ctx.checkIntegrity data then some data else none, up)
  | (_, _, up) => (none, up)

/-- The request of the context, and `data` behind it. -/
def request (m : Master) (nSlave : Int) (eAfn : FunctionMode) (u32Addr nb : Nat) (data : List UInt8) :
    Master × List UInt8 :=
  let basis := m.ctx.buildRequestBasis m.tId nSlave.toNat eAfn.code.toNat u32Addr nb
  ({ m with tId := basis.1 }, m.ctx.sendMsgPre (basis.2 ++ data))

/-- `wow_modbus_m_read_data` up to `link_send`: an early return, or the octets to send. -/
def readRequest (m : Master) (nSlave : Int) (eAfn : FunctionMode) (u32Addr u32Size : UInt32) :
    Except Int (Master × List UInt8) :=
  if ¬ (0 < nSlave ∧ nSlave ≤ 247) then .error (-paramInputArgInvalid)
  else match eAfn with
    | .readCoils | .readDiscreteInputs =>
      if u32Size.toNat ≤ maxReadBits then .ok (m.request nSlave eAfn u32Addr.toNat u32Size.toNat []) else .error (-1)
    | .readHoldingRegisters | .readInputRegisters =>
      if u32Size.toNat ≤ maxReadRegisters then .ok (m.request nSlave eAfn u32Addr.toNat u32Size.toNat [])
      else .error (-1)
    | _ => .error (-1)

/-- `wow_modbus_m_write_data` up to `link_send`. -/
def writeRequest (m : Master) (nSlave : Int) (eAfn : FunctionMode) (u32Addr u32Size : UInt32) (pu8Data : Mem) :
    Except Int (Master × List UInt8) :=
  if ¬ (0 < nSlave ∧ nSlave ≤ 247) then .error (-paramInputArgInvalid)
  else match eAfn with
    | .writeSingleCoil =>
      .ok (m.request nSlave eAfn u32Addr.toNat (if pu8Data.u16 0 ≠ 0 then 0xFF00 else 0) [])
    | .writeSingleRegister =>
      .ok (m.request nSlave eAfn u32Addr.toNat ((pu8Data 0).toNat * 256 + (pu8Data 1).toNat) [])
    | .writeMultipleCoils =>
      let byteCount := bitBytes u32Size.toNat
      .ok (m.request nSlave eAfn u32Addr.toNat u32Size.toNat
        (UInt8.ofNat byteCount :: pu8Data.slice 0 byteCount))
    | .writeMultipleRegisters =>
      -- the product is a `uint32_t`, and its low octet the byte count
      let byteCount := (u32Size * 2).toNat
      .ok (m.request nSlave eAfn u32Addr.toNat u32Size.toNat
        (UInt8.ofNat byteCount :: pu8Data.slice 0 byteCount))
    | _ => .error (-1)

/-- `modbus_receive_msg` and `check_confirmation` of a call that sent `req`. -/
def confirm (m : Master) (req : List UInt8) (sched : List Nat) (up : List UInt8) :
    Option (Nat × List UInt8) × List UInt8 :=
  match m.receiveMsg sched up with
  | (some rsp, up) =>
    match checkConfirmation m.ctx req rsp with
    | some ret => (if 0 < ret then some (ret, rsp) else none, up)
    | none => (none, up)
  | (none, up) => (none, up)

/-- `wow_modbus_m_read_data` from the sent request on: what it returns, the caller's data, the rest of the link. -/
def readConfirm (m : Master) (req : List UInt8) (sched : List Nat) (up : List UInt8) (pu8Data : Mem) :
    Int × Mem × List UInt8 :=
  match m.confirm req sched up with
  | (some (ret, rsp), up) => (0, pu8Data.fill ((rsp.drop (m.ctx.headerLength + 2)).take ret), up)
  | (none, up) => (-1, pu8Data, up)

/-- `wow_modbus_m_write_data` from the sent request on. -/
def writeConfirm (m : Master) (req : List UInt8) (sched : List Nat) (up : List UInt8) : Int × List UInt8 :=
  match m.confirm req sched up with
  | (some _, up) => (0, up)
  | (none, up) => (-1, up)

/-- `wow_modbus_m_read_data`. -/
def readData (m : Master) (nSlave : Int) (eAfn : FunctionMode) (u32Addr u32Size : UInt32) (pu8Data : Mem)
    (link : Link) : Master × Int × Mem × List UInt8 :=
  match m.readRequest nSlave eAfn u32Addr u32Size with
  | .error ret => (m, ret, pu8Data, link.up)
  | .ok (m, req) =>
    if link.send req = req.length then (m, m.readConfirm req link.sched link.up pu8Data)
    else (m, -2, pu8Data, link.up)

/-- `wow_modbus_m_write_data`. -/
def writeData (m : Master) (nSlave : Int) (eAfn : FunctionMode) (u32Addr u32Size : UInt32) (pu8Data : Mem)
    (link : Link) : Master × Int × List UInt8 :=
  match m.writeRequest nSlave eAfn u32Addr u32Size pu8Data with
  | .error ret => (m, ret, link.up)
  | .ok (m, req) =>
    if link.send req = req.length then (m, m.writeConfirm req link.sched link.up)
    else (m, -1, link.up)

/-! ### What is taken for a reply -/

/-- A reply that is taken stands whole at the front of the link, and passes the checks. -/
theorem confirm_sound {m : Master} {req rsp up up' : List UInt8} {sched : List Nat} {n : Nat}
    (h : m.confirm req sched up = (some (n, rsp), up')) :
    up = rsp ++ up' ∧ frameLength m.ctx .confirmation rsp = rsp.length ∧ rsp.length ≤ m.ctx.maxAduLength
      ∧ m.ctx.checkIntegrity rsp = true ∧ checkConfirmation m.ctx req rsp = some n ∧ 0 < n := by
  unfold confirm receiveMsg at h
  rcases hr : receive m.ctx .confirmation sched up with ⟨o, sched', rest⟩
  rw [hr] at h
  cases o with
  | tooLong => cases h
  | timeout => cases h
  | msg data =>
    obtain ⟨hmax, hlen, rfl, rfl⟩ := receive_eq_msg hr
    have hl : (up.take (frameLength m.ctx .confirmation up)).length = frameLength m.ctx .confirmation up := by
      rw [List.length_take]
      omega
    dsimp only at h
    by_cases hok : m.ctx.checkIntegrity (up.take (frameLength m.ctx .confirmation up)) = true
    · rw [if_pos hok] at h
      dsimp only at h
      cases hc : checkConfirmation m.ctx req (up.take (frameLength m.ctx .confirmation up)) with
      | none =>
        rw [hc] at h
        cases h
      | some ret =>
        rw [hc] at h
        dsimp only at h
        by_cases hpos : 0 < ret
        · rw [if_pos hpos] at h
          cases h
          exact ⟨(List.take_append_drop ..).symm, (frameLength_take ..).trans hl.symm, by omega, hok, hc, hpos⟩
        · rw [if_neg hpos] at h
          cases h
    · rw [if_neg hok] at h
      cases h

/-- A reply that passes the checks is taken when it comes in time. -/
theorem confirm_complete {m : Master} {req rsp : List UInt8} {sched : List Nat} {n : Nat} (hs : Steady sched)
    (hlen : frameLength m.ctx .confirmation rsp = rsp.length) (hmax : rsp.length ≤ m.ctx.maxAduLength)
    (hok : m.ctx.checkIntegrity rsp = true) (hn : checkConfirmation m.ctx req rsp = some n) (hpos : 0 < n)
    (rest : List UInt8) : m.confirm req sched (rsp ++ rest) = (some (n, rsp), rest) := by
  have hfl : frameLength m.ctx .confirmation (rsp ++ rest) = rsp.length := by
    rw [frameLength_append (Nat.le_of_eq hlen), hlen]
  obtain ⟨sched', hr⟩ := @receive_steady m.ctx .confirmation sched hs (rsp ++ rest) (by rwa [hfl]) (by simp [hfl])
  simp [confirm, receiveMsg, hr, hfl, hok, hn, hpos]

/-! ### The frame of a request -/

/-- The master behind its next request. -/
def next (m : Master) : Master := { m with tId := m.ctx.nextTId m.tId }

/-- The function code and the body of a request. -/
def requestPdu (eAfn : FunctionMode) (u32Addr nb : Nat) (data : List UInt8) : List UInt8 :=
  eAfn.code :: be16 u32Addr ++ be16 nb ++ data

@[simp] theorem length_requestPdu (eAfn : FunctionMode) (u32Addr nb : Nat) (data : List UInt8) :
    (requestPdu eAfn u32Addr nb data).length = 5 + data.length := by
  simp only [requestPdu, List.length_append, List.length_cons, length_be16]

theorem request_eq (m : Master) (nSlave : Int) (eAfn : FunctionMode) (u32Addr nb : Nat) (data : List UInt8) :
    m.request nSlave eAfn u32Addr nb data
      = (m.next, m.ctx.adu m.next.tId.toNat (UInt8.ofNat nSlave.toNat) (requestPdu eAfn u32Addr nb data)) := by
  unfold request
  simp only [Backend.sendMsgPre_requestBasis, Backend.fst_buildRequestBasis, UInt8.ofNat_toNat]
  rfl

end Master

end Wow.Modbus
