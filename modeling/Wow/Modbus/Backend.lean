import Wow.Modbus.Base

/-!
# Wow.Modbus.Backend — `modbus_rtu.c` and `modbus_tcp.c`

The functions of the two contexts, each under its file's name, and the context's function pointers as functions
of the `Backend`.  A function that writes into a buffer and returns a length returns the octets written.

* `adu`: the frame that a context makes around a function code and its body, whichever station builds it
  (`sendMsgPre_requestBasis`, `sendMsgPre_responseBasis`).
* `checkIntegrity_adu`, `checkConfirmation_adu`: what a context says of such a frame.
-/

namespace Wow.Modbus

open Wow.Encrypt

/-- `sft_t`. -/
structure Sft where
  slave : Nat
  function : Nat
  tId : Nat

/-! ### `modbus_rtu.c` -/

namespace Rtu

/-- `modbus_rtu_build_request_basis`. -/
def buildRequestBasis (slave function addr nb : Nat) : List UInt8 :=
  [UInt8.ofNat slave, UInt8.ofNat function] ++ be16 addr ++ be16 nb

/-- `modbus_rtu_build_response_basis`. -/
def buildResponseBasis (sft : Sft) : List UInt8 := [UInt8.ofNat sft.slave, UInt8.ofNat sft.function]

/-- `modbus_rtu_send_msg_pre`: the checksum, low octet first. -/
def sendMsgPre (req : List UInt8) : List UInt8 :=
  let crc := wowCrc16Modbus req
  req ++ [UInt8.ofNat crc.toNat, UInt8.ofNat (crc.toNat / 256)]

/-- `modbus_rtu_check_confirmation`. -/
def checkConfirmation (req rsp : List UInt8) : Bool := 1 ≤ rsp.length ∧ octet req 0 = octet rsp 0

/-- `modbus_rtu_check_integrity`. -/
def checkIntegrity (msg : List UInt8) : Bool :=
  2 ≤ msg.length ∧
    (wowCrc16Modbus (msg.take (msg.length - 2))).toNat
      = octet msg (msg.length - 1) * 256 + octet msg (msg.length - 2)

theorem checkIntegrity_sendMsgPre (req : List UInt8) : checkIntegrity (sendMsgPre req) = true := by
  have h := (wowCrc16Modbus req).toNat_lt
  simp [checkIntegrity, sendMsgPre, octet]
  omega

end Rtu

/-! ### `modbus_tcp.c` -/

namespace Tcp

/-- The transaction id of the next request. -/
def nextTId (tId : UInt16) : UInt16 := if tId < 0xFFFF then tId + 1 else 0

/-- `modbus_tcp_build_request_basis`; octets 4 and 5 are `modbus_tcp_send_msg_pre`'s. -/
def buildRequestBasis (tId : UInt16) (slave function addr nb : Nat) : UInt16 × List UInt8 :=
  let tId := nextTId tId
  (tId, be16 tId.toNat ++ [0, 0] ++ [0, 0] ++ [UInt8.ofNat slave, UInt8.ofNat function] ++ be16 addr ++ be16 nb)

/-- `modbus_tcp_build_response_basis`. -/
def buildResponseBasis (sft : Sft) : List UInt8 :=
  be16 sft.tId ++ [0, 0] ++ [0, 0] ++ [UInt8.ofNat sft.slave, UInt8.ofNat sft.function]

/-- `modbus_tcp_prepare_response_tid`. -/
def prepareResponseTid (req : List UInt8) : Nat := word req 0

/-- `modbus_tcp_send_msg_pre`: the MBAP length. -/
def sendMsgPre (req : List UInt8) : List UInt8 :=
  let mbapLength := req.length - 6
  (req.set 4 (UInt8.ofNat (mbapLength / 256))).set 5 (UInt8.ofNat mbapLength)

/-- `modbus_tcp_check_confirmation`. -/
def checkConfirmation (req rsp : List UInt8) : Bool :=
  4 ≤ rsp.length ∧ (octet req 0 = octet rsp 0 ∧ octet req 1 = octet rsp 1) ∧ octet rsp 2 = 0 ∧ octet rsp 3 = 0

end Tcp

/-! ### The contexts -/

/-- `gt_modbusRtuCtx` and `gt_modbusTcpCtx`. -/
inductive Backend
  | rtu
  | tcp
  deriving DecidableEq, Repr

namespace Backend

/-- `header_length`. -/
def headerLength : Backend → Nat
  | rtu => 1
  | tcp => 7

/-- `checksum_length`. -/
def checksumLength : Backend → Nat
  | rtu => 2
  | tcp => 0

/-- `max_adu_length`. -/
def maxAduLength : Backend → Nat
  | rtu => 256
  | tcp => 260

/-- `build_request_basis`; only the TCP context counts transactions. -/
def buildRequestBasis (b : Backend) (tId : UInt16) (slave function addr nb : Nat) : UInt16 × List UInt8 :=
  match b with
  | rtu => (tId, Rtu.buildRequestBasis slave function addr nb)
  | tcp => Tcp.buildRequestBasis tId slave function addr nb

/-- `build_response_basis`. -/
def buildResponseBasis (b : Backend) (sft : Sft) : List UInt8 :=
  match b with
  | rtu => Rtu.buildResponseBasis sft
  | tcp => Tcp.buildResponseBasis sft

/-- `prepare_response_tid`; neither context changes the length. -/
def prepareResponseTid (b : Backend) (req : List UInt8) : Nat :=
  match b with
  | rtu => 0
  | tcp => Tcp.prepareResponseTid req

/-- `send_msg_pre`. -/
def sendMsgPre (b : Backend) (req : List UInt8) : List UInt8 :=
  match b with
  | rtu => Rtu.sendMsgPre req
  | tcp => Tcp.sendMsgPre req

/-- `check_integrity` returned zero; the TCP one always does. -/
def checkIntegrity (b : Backend) (msg : List UInt8) : Bool :=
  match b with
  | rtu => Rtu.checkIntegrity msg
  | tcp => true

/-- `check_confirmation` returned zero. -/
def checkConfirmation (b : Backend) (req rsp : List UInt8) : Bool :=
  match b with
  | rtu => Rtu.checkConfirmation req rsp
  | tcp => Tcp.checkConfirmation req rsp

/-- The transaction id of the next request. -/
def nextTId (b : Backend) (tId : UInt16) : UInt16 :=
  match b with
  | rtu => tId
  | tcp => Tcp.nextTId tId

/-! ### The frame around a function code and its body -/

/-- The frame with a transaction id, a slave id and the octets `pdu` from the function code on. -/
def adu (b : Backend) (tId : Nat) (slave : UInt8) (pdu : List UInt8) : List UInt8 :=
  match b with
  | rtu => Rtu.sendMsgPre (slave :: pdu)
  | tcp => be16 tId ++ be16 0 ++ be16 (pdu.length + 1) ++ slave :: pdu

variable (b : Backend)

theorem sendMsgPre_requestBasis (tId : UInt16) (slave function addr nb : Nat) (body : List UInt8) :
    b.sendMsgPre ((b.buildRequestBasis tId slave function addr nb).2 ++ body)
      = b.adu (b.nextTId tId).toNat (UInt8.ofNat slave)
          (UInt8.ofNat function :: be16 addr ++ be16 nb ++ body) := by
  cases b with
  | rtu => simp [sendMsgPre, buildRequestBasis, adu, Rtu.buildRequestBasis]
  | tcp =>
    simp only [sendMsgPre, buildRequestBasis, adu, Tcp.sendMsgPre, Tcp.buildRequestBasis, nextTId, be16]
    simp [Nat.add_comm, Nat.add_left_comm]

theorem fst_buildRequestBasis (tId : UInt16) (slave function addr nb : Nat) :
    (b.buildRequestBasis tId slave function addr nb).1 = b.nextTId tId := by cases b <;> rfl

theorem sendMsgPre_responseBasis (sft : Sft) (body : List UInt8) :
    b.sendMsgPre (b.buildResponseBasis sft ++ body)
      = b.adu sft.tId (UInt8.ofNat sft.slave) (UInt8.ofNat sft.function :: body) := by
  cases b with
  | rtu => simp [sendMsgPre, buildResponseBasis, adu, Rtu.buildResponseBasis]
  | tcp =>
    simp only [sendMsgPre, buildResponseBasis, adu, Tcp.sendMsgPre, Tcp.buildResponseBasis, be16]
    simp [Nat.add_comm, Nat.add_left_comm]

theorem length_adu (tId : Nat) (slave : UInt8) (pdu : List UInt8) :
    (b.adu tId slave pdu).length = b.headerLength + pdu.length + b.checksumLength := by
  cases b <;> simp [adu, Rtu.sendMsgPre, headerLength, checksumLength] <;> omega

/-- The octets from the function code on stand behind the header. -/
theorem drop_adu (tId : Nat) (slave : UInt8) (pdu : List UInt8) :
    ∃ t, (b.adu tId slave pdu).drop b.headerLength = pdu ++ t ∧ t.length = b.checksumLength := by
  cases b
  · exact ⟨_, rfl, rfl⟩
  · exact ⟨[], by simp [adu, headerLength, be16], rfl⟩

theorem octet_adu (tId : Nat) (slave : UInt8) {pdu : List UInt8} {i : Nat} (h : i < pdu.length) :
    octet (b.adu tId slave pdu) (b.headerLength + i) = octet pdu i := by
  obtain ⟨t, ht, -⟩ := b.drop_adu tId slave pdu
  rw [← octet_drop, ht, octet_append_left h]

theorem word_adu (tId : Nat) (slave : UInt8) {pdu : List UInt8} {i : Nat} (h : i + 1 < pdu.length) :
    word (b.adu tId slave pdu) (b.headerLength + i) = word pdu i := by
  simp only [word]
  rw [octet_adu b tId slave (by omega), Nat.add_assoc, octet_adu b tId slave h]

theorem octet_adu_slave (tId : Nat) (slave : UInt8) (pdu : List UInt8) :
    octet (b.adu tId slave pdu) (b.headerLength - 1) = slave.toNat := by
  cases b <;> simp [adu, headerLength, Rtu.sendMsgPre, be16]

theorem checkIntegrity_adu (tId : Nat) (slave : UInt8) (pdu : List UInt8) :
    b.checkIntegrity (b.adu tId slave pdu) = true := by
  cases b with
  | tcp => rfl
  | rtu => exact Rtu.checkIntegrity_sendMsgPre (slave :: pdu)

/-- The reply to a frame is made with the transaction id of the frame. -/
theorem adu_prepareResponseTid (tId : UInt16) (slave slave' : UInt8) (pdu pdu' : List UInt8) :
    b.adu (b.prepareResponseTid (b.adu tId.toNat slave pdu)) slave' pdu' = b.adu tId.toNat slave' pdu' := by
  cases b with
  | rtu => rfl
  | tcp =>
    have h : tcp.prepareResponseTid (tcp.adu tId.toNat slave pdu) = tId.toNat := by
      have := tId.toNat_lt
      simp only [prepareResponseTid, Tcp.prepareResponseTid, adu, List.append_assoc, word_be16]
      omega
    rw [h]

theorem checkConfirmation_adu (tId : Nat) (slave : UInt8) (pdu pdu' : List UInt8) :
    b.checkConfirmation (b.adu tId slave pdu) (b.adu tId slave pdu') = true := by
  cases b <;> simp [checkConfirmation, adu, Rtu.checkConfirmation, Tcp.checkConfirmation, Rtu.sendMsgPre, be16]

end Backend

end Wow.Modbus
