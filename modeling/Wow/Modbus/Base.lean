import Wow.Encrypt.Crc
import Wow.Lib.Mem

/-!
# Wow.Modbus.Base — what the two Modbus stations share

The constants of `modbus_internal.h`, the codes of `wow_modbus_x.h` and the two contexts `gt_modbusRtuCtx`
and `gt_modbusTcpCtx`, each function pointer of a context a function of the `Backend`.  A message is the list of
the octets written into `req` or `rsp`; the buffers are cleared before a message is read into them, so a read
behind the end of a message gives zero.

* `adu`: the frame that a context makes around a function code and its body; the requests, replies and exceptions
  of the stations are all of this form.
-/

namespace Wow.Modbus

open Wow.Encrypt

/-! ### Octets -/

/-- Octet `i` of a message. -/
def octet (msg : List UInt8) (i : Nat) : Nat := (msg.getD i 0).toNat

/-- The sixteen bits at `i`, high octet first. -/
def word (msg : List UInt8) (i : Nat) : Nat := octet msg i * 256 + octet msg (i + 1)

/-- The octets `>> 8` and `& 0x00ff` of an `int`. -/
def be16 (n : Nat) : List UInt8 := [UInt8.ofNat (n / 256), UInt8.ofNat n]

theorem octet_lt (msg : List UInt8) (i : Nat) : octet msg i < 256 := (msg.getD i 0).toNat_lt

@[simp] theorem length_be16 (n : Nat) : (be16 n).length = 2 := rfl

@[simp] theorem octet_cons_zero (a : UInt8) (l : List UInt8) : octet (a :: l) 0 = a.toNat := rfl

@[simp] theorem octet_cons_succ (a : UInt8) (l : List UInt8) (i : Nat) : octet (a :: l) (i + 1) = octet l i := rfl

@[simp] theorem octet_nil (i : Nat) : octet [] i = 0 := rfl

theorem octet_append_left {a b : List UInt8} {i : Nat} (h : i < a.length) : octet (a ++ b) i = octet a i := by
  simp [octet, List.getElem?_append_left h]

theorem octet_take {l : List UInt8} {n i : Nat} (h : i < n) : octet (l.take n) i = octet l i := by
  simp [octet, List.getElem?_take_of_lt h]

theorem octet_drop (l : List UInt8) (n i : Nat) : octet (l.drop n) i = octet l (n + i) := by
  simp [octet, List.getElem?_drop]

/-- The two octets of `n` read back. -/
theorem word_be16 (n : Nat) (l : List UInt8) : word (be16 n ++ l) 0 = n % 65536 := by
  simp [word, be16]
  omega

/-! ### Codes and constants -/

/-- `ModbusFunctionMode_E`. -/
inductive FunctionMode
  | readCoils | readDiscreteInputs | readHoldingRegisters | readInputRegisters
  | writeSingleCoil | writeSingleRegister | readExceptionStatus
  | writeMultipleCoils | writeMultipleRegisters | reportSlaveId
  deriving DecidableEq, Repr

/-- The function code. -/
def FunctionMode.code : FunctionMode → UInt8
  | readCoils => 0x01
  | readDiscreteInputs => 0x02
  | readHoldingRegisters => 0x03
  | readInputRegisters => 0x04
  | writeSingleCoil => 0x05
  | writeSingleRegister => 0x06
  | readExceptionStatus => 0x07
  | writeMultipleCoils => 0x0F
  | writeMultipleRegisters => 0x10
  | reportSlaveId => 0x11

/-- The function with a code, for a `switch` over the octet. -/
def FunctionMode.ofCode (n : Nat) : Option FunctionMode :=
  match n with
  | 0x01 => some readCoils
  | 0x02 => some readDiscreteInputs
  | 0x03 => some readHoldingRegisters
  | 0x04 => some readInputRegisters
  | 0x05 => some writeSingleCoil
  | 0x06 => some writeSingleRegister
  | 0x07 => some readExceptionStatus
  | 0x0F => some writeMultipleCoils
  | 0x10 => some writeMultipleRegisters
  | 0x11 => some reportSlaveId
  | _ => none

theorem FunctionMode.ofCode_eq_some {n : Nat} {f : FunctionMode} : ofCode n = some f ↔ n = f.code.toNat := by
  constructor
  · intro h
    unfold ofCode at h
    split at h <;> simp_all [code]
    all_goals subst h; rfl
  · rintro rfl
    cases f <;> rfl

@[simp] theorem FunctionMode.ofCode_code (f : FunctionMode) : ofCode f.code.toNat = some f := ofCode_eq_some.2 rfl

/-- `ModbusErrorCode_E`; `MODBUS_ERROR_MAX` asks the slave for no reply. -/
inductive ErrorCode
  | illegalFunction | illegalDataAddress | illegalDataValue | slaveOrServerFailure | acknowledge
  | slaveOrServerBusy | errorMax
  deriving DecidableEq, Repr

/-- The exception code. -/
def ErrorCode.code : ErrorCode → Int
  | illegalFunction => 1
  | illegalDataAddress => 2
  | illegalDataValue => 3
  | slaveOrServerFailure => 4
  | acknowledge => 5
  | slaveOrServerBusy => 6
  | errorMax => 7

/-- `DEFAULT_ERROR_TRY_TIMES`. -/
def defaultErrorTryTimes : Nat := 10

/-- `MAX_MESSAGE_LENGTH`. -/
def maxMessageLength : Nat := 260

/-- `MODBUS_MAX_READ_BITS`. -/
def maxReadBits : Nat := 2000

/-- `MODBUS_MAX_WRITE_BITS`. -/
def maxWriteBits : Nat := 1968

/-- `MODBUS_MAX_READ_REGISTERS`. -/
def maxReadRegisters : Nat := 125

/-- `MODBUS_MAX_WRITE_REGISTERS`. -/
def maxWriteRegisters : Nat := 123

/-- `PARAM_INPUT_ARG_INVALID`. -/
def paramInputArgInvalid : Int := 104

/-- Octets for `nb` bits. -/
def bitBytes (nb : Nat) : Nat := nb / 8 + if nb % 8 ≠ 0 then 1 else 0

/-- `Align8(nb)/8`, the slave's spelling of the same number. -/
theorem align8_div (nb : Nat) : (nb + 7) / 8 = bitBytes nb := by
  unfold bitBytes
  split <;> omega

end Wow.Modbus
