import Mathlib.Tactic.Common
import Mathlib.Logic.Function.Iterate

/-!
# Wow.Encrypt.Crc — the cyclic redundancy checks of `wow_crc.c`

The reflected routines shift to the right, with the polynomial as `InvertUint8`, `InvertUint16` or `InvertUint32`
leaves it; the others shift to the left.  For each width and direction one definition is a turn of the inner loop
and one a turn of the outer loop (`crcShift` and `crcOctet` for sixteen bits to the right); a routine is the outer
loop with its own polynomial, first value and last exclusive or.
-/

namespace Wow.Encrypt

/-- `InvertUint16`. -/
def invertUint16 (srcBuf : UInt16) : UInt16 :=
  (List.range 16).foldl
    (fun tmp i => if srcBuf &&& (1 <<< UInt16.ofNat i) ≠ 0 then tmp ||| (1 <<< UInt16.ofNat (15 - i)) else tmp) 0

/-- One bit out to the right. -/
def crcShift (wCPoly wCRCin : UInt16) : UInt16 :=
  if wCRCin &&& 1 ≠ 0 then (wCRCin >>> 1) ^^^ wCPoly else wCRCin >>> 1

/-- One octet of the data. -/
def crcOctet (wCPoly wCRCin : UInt16) (b : UInt8) : UInt16 := (crcShift wCPoly)^[8] (wCRCin ^^^ b.toUInt16)

/-- `wow_crc16_modbus`. -/
def wowCrc16Modbus (pu8Data : List UInt8) : UInt16 := pu8Data.foldl (crcOctet (invertUint16 0x8005)) 0xFFFF

example : wowCrc16Modbus [0x01, 0x03, 0x00, 0x00, 0x00, 0x01] = 0x0A84 := by decide +kernel

/-- `wow_crc16_ccitt`. -/
def wowCrc16Ccitt (pu8Data : List UInt8) : UInt16 := pu8Data.foldl (crcOctet (invertUint16 0x1021)) 0x0000

/-- `wow_crc16_x25`. -/
def wowCrc16X25 (pu8Data : List UInt8) : UInt16 := pu8Data.foldl (crcOctet (invertUint16 0x1021)) 0xFFFF ^^^ 0xFFFF

/-- `wow_crc16_ibm`. -/
def wowCrc16Ibm (pu8Data : List UInt8) : UInt16 := pu8Data.foldl (crcOctet (invertUint16 0x8005)) 0x0000

/-- `wow_crc16_maxim`. -/
def wowCrc16Maxim (pu8Data : List UInt8) : UInt16 := pu8Data.foldl (crcOctet (invertUint16 0x8005)) 0x0000 ^^^ 0xFFFF

/-- `wow_crc16_usb`. -/
def wowCrc16Usb (pu8Data : List UInt8) : UInt16 := pu8Data.foldl (crcOctet (invertUint16 0x8005)) 0xFFFF ^^^ 0xFFFF

/-- `wow_crc16_dnp`. -/
def wowCrc16Dnp (pu8Data : List UInt8) : UInt16 := pu8Data.foldl (crcOctet (invertUint16 0x3D65)) 0x0000 ^^^ 0xFFFF

/-! ### Eight and thirty-two bits to the right -/

/-- `InvertUint8`. -/
def invertUint8 (srcBuf : UInt8) : UInt8 :=
  (List.range 8).foldl
    (fun tmp i => if srcBuf &&& (1 <<< UInt8.ofNat i) ≠ 0 then tmp ||| (1 <<< UInt8.ofNat (7 - i)) else tmp) 0

/-- `InvertUint32`. -/
def invertUint32 (srcBuf : UInt32) : UInt32 :=
  (List.range 32).foldl
    (fun tmp i => if srcBuf &&& (1 <<< UInt32.ofNat i) ≠ 0 then tmp ||| (1 <<< UInt32.ofNat (31 - i)) else tmp) 0

/-- One bit out to the right. -/
def crcShift8 (wCPoly wCRCin : UInt8) : UInt8 :=
  if wCRCin &&& 0x01 ≠ 0 then (wCRCin >>> 1) ^^^ wCPoly else wCRCin >>> 1

/-- One octet of the data. -/
def crcOctet8 (wCPoly wCRCin b : UInt8) : UInt8 := (crcShift8 wCPoly)^[8] (wCRCin ^^^ b)

/-- One bit out to the right. -/
def crcShift32 (wCPoly wCRCin : UInt32) : UInt32 :=
  if wCRCin &&& 0x01 ≠ 0 then (wCRCin >>> 1) ^^^ wCPoly else wCRCin >>> 1

/-- One octet of the data. -/
def crcOctet32 (wCPoly wCRCin : UInt32) (b : UInt8) : UInt32 := (crcShift32 wCPoly)^[8] (wCRCin ^^^ b.toUInt32)

/-- `wow_crc8_rohc`. -/
def wowCrc8Rohc (pu8Data : List UInt8) : UInt8 := pu8Data.foldl (crcOctet8 (invertUint8 0x07)) 0xFF

/-- `wow_crc8_maxim`. -/
def wowCrc8Maxim (pu8Data : List UInt8) : UInt8 := pu8Data.foldl (crcOctet8 (invertUint8 0x31)) 0x00

/-- `wow_crc32`. -/
def wowCrc32 (pu8Data : List UInt8) : UInt32 :=
  pu8Data.foldl (crcOctet32 (invertUint32 0x04C11DB7)) 0xFFFFFFFF ^^^ 0xFFFFFFFF

/-! ### To the left -/

/-- One bit out to the left. -/
def crcLeft8 (wCPoly wCRCin : UInt8) : UInt8 :=
  if wCRCin &&& 0x80 ≠ 0 then (wCRCin <<< 1) ^^^ wCPoly else wCRCin <<< 1

/-- One octet of the data. -/
def crcOctetLeft8 (wCPoly wCRCin b : UInt8) : UInt8 := (crcLeft8 wCPoly)^[8] (wCRCin ^^^ b)

/-- One bit out to the left. -/
def crcLeft16 (wCPoly wCRCin : UInt16) : UInt16 :=
  if wCRCin &&& 0x8000 ≠ 0 then (wCRCin <<< 1) ^^^ wCPoly else wCRCin <<< 1

/-- One octet of the data. -/
def crcOctetLeft16 (wCPoly wCRCin : UInt16) (b : UInt8) : UInt16 :=
  (crcLeft16 wCPoly)^[8] (wCRCin ^^^ b.toUInt16 <<< 8)

/-- One bit out to the left. -/
def crcLeft32 (wCPoly wCRCin : UInt32) : UInt32 :=
  if wCRCin &&& 0x80000000 ≠ 0 then (wCRCin <<< 1) ^^^ wCPoly else wCRCin <<< 1

/-- One octet of the data. -/
def crcOctetLeft32 (wCPoly wCRCin : UInt32) (b : UInt8) : UInt32 :=
  (crcLeft32 wCPoly)^[8] (wCRCin ^^^ b.toUInt32 <<< 24)

/-- `wow_crc8`. -/
def wowCrc8 (pu8Data : List UInt8) : UInt8 := pu8Data.foldl (crcOctetLeft8 0x07) 0x00

/-- `wow_crc8_itu`. -/
def wowCrc8Itu (pu8Data : List UInt8) : UInt8 := pu8Data.foldl (crcOctetLeft8 0x07) 0x00 ^^^ 0x55

/-- `wow_crc16_xmodem`. -/
def wowCrc16Xmodem (pu8Data : List UInt8) : UInt16 := pu8Data.foldl (crcOctetLeft16 0x1021) 0x0000

/-- `wow_crc32_mpeg`. -/
def wowCrc32Mpeg (pu8Data : List UInt8) : UInt32 := pu8Data.foldl (crcOctetLeft32 0x04C11DB7) 0xFFFFFFFF

end Wow.Encrypt
