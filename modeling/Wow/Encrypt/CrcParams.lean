import Wow.Encrypt.Crc
import Wow.Lib.Crc

/-!
# Wow.Encrypt.CrcParams — the routines of `wow_crc.c` against the parameters above them

* `info…`: the parameters in the comment above each routine; the first value and the last exclusive or of the two
  32-bit checks, which the comments give seven digits, are 32 one bits.
* `toBitVec_feed…`: the loops of each width and direction are the registers of `Wow.Lib.Crc`.
* `crc_routines`: every routine returns the value of its check.
-/

namespace Wow.Encrypt

open Wow.Crc

/-! ### The parameters -/

/-- `CRC-8`. -/
def infoCrc8 : Params 8 :=
  { poly := 0x07, init := 0x00, refIn := false, refOut := false, xorOut := 0x00 }

/-- `CRC-8/ITU`. -/
def infoCrc8Itu : Params 8 :=
  { poly := 0x07, init := 0x00, refIn := false, refOut := false, xorOut := 0x55 }

/-- `CRC-8/ROHC`. -/
def infoCrc8Rohc : Params 8 :=
  { poly := 0x07, init := 0xFF, refIn := true, refOut := true, xorOut := 0x00 }

/-- `CRC-8/MAXIM`. -/
def infoCrc8Maxim : Params 8 :=
  { poly := 0x31, init := 0x00, refIn := true, refOut := true, xorOut := 0x00 }

/-- `CRC-16/CCITT`. -/
def infoCrc16Ccitt : Params 16 :=
  { poly := 0x1021, init := 0x0000, refIn := true, refOut := true, xorOut := 0x0000 }

/-- `CRC-16/XMODEM`. -/
def infoCrc16Xmodem : Params 16 :=
  { poly := 0x1021, init := 0x0000, refIn := false, refOut := false, xorOut := 0x0000 }

/-- `CRC-16/X25`. -/
def infoCrc16X25 : Params 16 :=
  { poly := 0x1021, init := 0xFFFF, refIn := true, refOut := true, xorOut := 0xFFFF }

/-- `CRC-16/MODBUS`. -/
def infoCrc16Modbus : Params 16 :=
  { poly := 0x8005, init := 0xFFFF, refIn := true, refOut := true, xorOut := 0x0000 }

/-- `CRC-16/IBM`. -/
def infoCrc16Ibm : Params 16 :=
  { poly := 0x8005, init := 0x0000, refIn := true, refOut := true, xorOut := 0x0000 }

/-- `CRC-16/MAXIM`. -/
def infoCrc16Maxim : Params 16 :=
  { poly := 0x8005, init := 0x0000, refIn := true, refOut := true, xorOut := 0xFFFF }

/-- `CRC-16/USB`. -/
def infoCrc16Usb : Params 16 :=
  { poly := 0x8005, init := 0xFFFF, refIn := true, refOut := true, xorOut := 0xFFFF }

/-- `CRC-16/DNP`. -/
def infoCrc16Dnp : Params 16 :=
  { poly := 0x3D65, init := 0x0000, refIn := true, refOut := true, xorOut := 0xFFFF }

/-- `CRC-32`. -/
def infoCrc32 : Params 32 :=
  { poly := 0x04C11DB7, init := 0xFFFFFFFF, refIn := true, refOut := true, xorOut := 0xFFFFFFFF }

/-- `CRC-32/MPEG-2`. -/
def infoCrc32Mpeg : Params 32 :=
  { poly := 0x04C11DB7, init := 0xFFFFFFFF, refIn := false, refOut := false, xorOut := 0x00000000 }

/-! ### The loops as registers -/

/-- The octets of the data as words. -/
def octets (pu8Data : List UInt8) : List (BitVec 8) := pu8Data.map UInt8.toBitVec

/-- A loop over the octets, seen through `v`. -/
theorem foldl_octets {S T : Type} {v : S → T} {f : S → UInt8 → S} {F : T → BitVec 8 → T}
    (h : ∀ s b, v (f s b) = F (v s) b.toBitVec) (s : S) (data : List UInt8) :
    v (data.foldl f s) = (octets data).foldl F (v s) := by
  rw [octets, List.foldl_map]
  exact (List.foldl_hom v (fun s b => (h s b).symm)).symm

/-- Turns of the inner loop, seen through `v`. -/
theorem iterate_seen {S T : Type} {v : S → T} {f : S → S} {F : T → T} (h : ∀ s, v (f s) = F (v s)) (n : ℕ) (s : S) :
    v (f^[n] s) = F^[n] (v s) :=
  (Function.Semiconj.iterate_right h n) s

/-- A mask with one bit tests that bit. -/
theorem and_twoPow_ne_zero {w i : ℕ} (h : i < w) (x : BitVec w) :
    x &&& BitVec.twoPow w i ≠ 0 ↔ x.getLsbD i = true := by
  rw [BitVec.and_twoPow]
  cases hx : x.getLsbD i
  · simp
  · have hne : BitVec.twoPow w i ≠ 0 := by
      intro h0
      have hb : (BitVec.twoPow w i).getLsbD i = true := by simp [h]
      rw [h0] at hb
      simp at hb
    simpa using hne

theorem toBitVec_crcShift (g r : UInt16) : (crcShift g r).toBitVec = turnRight g.toBitVec r.toBitVec := by
  have h : r &&& 1 ≠ 0 ↔ r.toBitVec.getLsbD 0 = true := by
    rw [← and_twoPow_ne_zero (by decide), Ne, ← UInt16.toBitVec_inj]
    rfl
  rw [crcShift, turnRight, apply_ite UInt16.toBitVec, if_congr h rfl rfl]
  rfl

theorem toBitVec_crcShift8 (g r : UInt8) : (crcShift8 g r).toBitVec = turnRight g.toBitVec r.toBitVec := by
  have h : r &&& 1 ≠ 0 ↔ r.toBitVec.getLsbD 0 = true := by
    rw [← and_twoPow_ne_zero (by decide), Ne, ← UInt8.toBitVec_inj]
    rfl
  rw [crcShift8, turnRight, apply_ite UInt8.toBitVec, if_congr h rfl rfl]
  rfl

theorem toBitVec_crcShift32 (g r : UInt32) : (crcShift32 g r).toBitVec = turnRight g.toBitVec r.toBitVec := by
  have h : r &&& 1 ≠ 0 ↔ r.toBitVec.getLsbD 0 = true := by
    rw [← and_twoPow_ne_zero (by decide), Ne, ← UInt32.toBitVec_inj]
    rfl
  rw [crcShift32, turnRight, apply_ite UInt32.toBitVec, if_congr h rfl rfl]
  rfl

theorem toBitVec_crcLeft8 (g r : UInt8) : (crcLeft8 g r).toBitVec = turn g.toBitVec r.toBitVec := by
  have h : r &&& 0x80 ≠ 0 ↔ r.toBitVec.msb = true := by
    rw [BitVec.msb_eq_getLsbD_last, ← and_twoPow_ne_zero (by decide), Ne, ← UInt8.toBitVec_inj]
    rfl
  rw [crcLeft8, turn, apply_ite UInt8.toBitVec, if_congr h rfl rfl]
  rfl

theorem toBitVec_crcLeft16 (g r : UInt16) : (crcLeft16 g r).toBitVec = turn g.toBitVec r.toBitVec := by
  have h : r &&& 0x8000 ≠ 0 ↔ r.toBitVec.msb = true := by
    rw [BitVec.msb_eq_getLsbD_last, ← and_twoPow_ne_zero (by decide), Ne, ← UInt16.toBitVec_inj]
    rfl
  rw [crcLeft16, turn, apply_ite UInt16.toBitVec, if_congr h rfl rfl]
  rfl

theorem toBitVec_crcLeft32 (g r : UInt32) : (crcLeft32 g r).toBitVec = turn g.toBitVec r.toBitVec := by
  have h : r &&& 0x80000000 ≠ 0 ↔ r.toBitVec.msb = true := by
    rw [BitVec.msb_eq_getLsbD_last, ← and_twoPow_ne_zero (by decide), Ne, ← UInt32.toBitVec_inj]
    rfl
  rw [crcLeft32, turn, apply_ite UInt32.toBitVec, if_congr h rfl rfl]
  rfl

theorem toBitVec_crcOctet (g r : UInt16) (b : UInt8) :
    (crcOctet g r b).toBitVec = octetRight g.toBitVec r.toBitVec b.toBitVec := by
  rw [crcOctet, iterate_seen (toBitVec_crcShift g)]
  rfl

theorem toBitVec_crcOctet8 (g r b : UInt8) :
    (crcOctet8 g r b).toBitVec = octetRight g.toBitVec r.toBitVec b.toBitVec := by
  rw [crcOctet8, iterate_seen (toBitVec_crcShift8 g), octetRight, BitVec.setWidth_eq]
  rfl

theorem toBitVec_crcOctet32 (g r : UInt32) (b : UInt8) :
    (crcOctet32 g r b).toBitVec = octetRight g.toBitVec r.toBitVec b.toBitVec := by
  rw [crcOctet32, iterate_seen (toBitVec_crcShift32 g)]
  rfl

theorem toBitVec_crcOctetLeft8 (g r b : UInt8) :
    (crcOctetLeft8 g r b).toBitVec = octet g.toBitVec r.toBitVec b.toBitVec := by
  rw [crcOctetLeft8, iterate_seen (toBitVec_crcLeft8 g), octet, BitVec.setWidth_eq, Nat.sub_self, BitVec.shiftLeft_zero]
  rfl

theorem toBitVec_crcOctetLeft16 (g r : UInt16) (b : UInt8) :
    (crcOctetLeft16 g r b).toBitVec = octet g.toBitVec r.toBitVec b.toBitVec := by
  rw [crcOctetLeft16, iterate_seen (toBitVec_crcLeft16 g)]
  rfl

theorem toBitVec_crcOctetLeft32 (g r : UInt32) (b : UInt8) :
    (crcOctetLeft32 g r b).toBitVec = octet g.toBitVec r.toBitVec b.toBitVec := by
  rw [crcOctetLeft32, iterate_seen (toBitVec_crcLeft32 g)]
  rfl

/-! ### The routines -/

section Routines

variable (pu8Data : List UInt8)

theorem crc_right8 (p : Params 8) (hi : p.refIn = true) (ho : p.refOut = true) {g r : UInt8}
    (hg : g.toBitVec = p.poly.reverse) (hr : r.toBitVec = p.init.reverse) :
    p.crc (octets pu8Data) = (pu8Data.foldl (crcOctet8 g) r).toBitVec ^^^ p.xorOut := by
  rw [p.crc_of_mirror (by decide) hi ho, foldl_octets (toBitVec_crcOctet8 g), hg, hr]

theorem crc_right16 (p : Params 16) (hi : p.refIn = true) (ho : p.refOut = true) {g r : UInt16}
    (hg : g.toBitVec = p.poly.reverse) (hr : r.toBitVec = p.init.reverse) :
    p.crc (octets pu8Data) = (pu8Data.foldl (crcOctet g) r).toBitVec ^^^ p.xorOut := by
  rw [p.crc_of_mirror (by decide) hi ho, foldl_octets (toBitVec_crcOctet g), hg, hr]

theorem crc_right32 (p : Params 32) (hi : p.refIn = true) (ho : p.refOut = true) {g r : UInt32}
    (hg : g.toBitVec = p.poly.reverse) (hr : r.toBitVec = p.init.reverse) :
    p.crc (octets pu8Data) = (pu8Data.foldl (crcOctet32 g) r).toBitVec ^^^ p.xorOut := by
  rw [p.crc_of_mirror (by decide) hi ho, foldl_octets (toBitVec_crcOctet32 g), hg, hr]

theorem crc_left8 (p : Params 8) (hi : p.refIn = false) (ho : p.refOut = false) {g r : UInt8}
    (hg : g.toBitVec = p.poly) (hr : r.toBitVec = p.init) :
    p.crc (octets pu8Data) = (pu8Data.foldl (crcOctetLeft8 g) r).toBitVec ^^^ p.xorOut := by
  rw [p.crc_of_register (by decide) hi ho, foldl_octets (toBitVec_crcOctetLeft8 g), hg, hr]

theorem crc_left16 (p : Params 16) (hi : p.refIn = false) (ho : p.refOut = false) {g r : UInt16}
    (hg : g.toBitVec = p.poly) (hr : r.toBitVec = p.init) :
    p.crc (octets pu8Data) = (pu8Data.foldl (crcOctetLeft16 g) r).toBitVec ^^^ p.xorOut := by
  rw [p.crc_of_register (by decide) hi ho, foldl_octets (toBitVec_crcOctetLeft16 g), hg, hr]

theorem crc_left32 (p : Params 32) (hi : p.refIn = false) (ho : p.refOut = false) {g r : UInt32}
    (hg : g.toBitVec = p.poly) (hr : r.toBitVec = p.init) :
    p.crc (octets pu8Data) = (pu8Data.foldl (crcOctetLeft32 g) r).toBitVec ^^^ p.xorOut := by
  rw [p.crc_of_register (by decide) hi ho, foldl_octets (toBitVec_crcOctetLeft32 g), hg, hr]

/-- `CRC-16/MODBUS`, the check of the Modbus frames. -/
theorem toBitVec_wowCrc16Modbus : (wowCrc16Modbus pu8Data).toBitVec = infoCrc16Modbus.crc (octets pu8Data) := by
  exact ((crc_right16 pu8Data infoCrc16Modbus rfl rfl (by decide) (by decide)).trans BitVec.xor_zero).symm

/-- **Every routine returns the value of its check**, for octets of any number. -/
theorem crc_routines :
    ((wowCrc8 pu8Data).toBitVec = infoCrc8.crc (octets pu8Data)
      ∧ (wowCrc8Itu pu8Data).toBitVec = infoCrc8Itu.crc (octets pu8Data)
      ∧ (wowCrc8Rohc pu8Data).toBitVec = infoCrc8Rohc.crc (octets pu8Data)
      ∧ (wowCrc8Maxim pu8Data).toBitVec = infoCrc8Maxim.crc (octets pu8Data))
    ∧ ((wowCrc16Ccitt pu8Data).toBitVec = infoCrc16Ccitt.crc (octets pu8Data)
      ∧ (wowCrc16Xmodem pu8Data).toBitVec = infoCrc16Xmodem.crc (octets pu8Data)
      ∧ (wowCrc16X25 pu8Data).toBitVec = infoCrc16X25.crc (octets pu8Data)
      ∧ (wowCrc16Modbus pu8Data).toBitVec = infoCrc16Modbus.crc (octets pu8Data)
      ∧ (wowCrc16Ibm pu8Data).toBitVec = infoCrc16Ibm.crc (octets pu8Data)
      ∧ (wowCrc16Maxim pu8Data).toBitVec = infoCrc16Maxim.crc (octets pu8Data)
      ∧ (wowCrc16Usb pu8Data).toBitVec = infoCrc16Usb.crc (octets pu8Data)
      ∧ (wowCrc16Dnp pu8Data).toBitVec = infoCrc16Dnp.crc (octets pu8Data))
    ∧ ((wowCrc32 pu8Data).toBitVec = infoCrc32.crc (octets pu8Data)
      ∧ (wowCrc32Mpeg pu8Data).toBitVec = infoCrc32Mpeg.crc (octets pu8Data)) := by
  refine ⟨⟨?_, ?_, ?_, ?_⟩, ⟨?_, ?_, ?_, ?_, ?_, ?_, ?_, ?_⟩, ?_, ?_⟩
  · exact ((crc_left8 pu8Data infoCrc8 rfl rfl rfl rfl).trans BitVec.xor_zero).symm
  · exact (crc_left8 pu8Data infoCrc8Itu rfl rfl rfl rfl).symm
  · exact ((crc_right8 pu8Data infoCrc8Rohc rfl rfl (by decide) (by decide)).trans BitVec.xor_zero).symm
  · exact ((crc_right8 pu8Data infoCrc8Maxim rfl rfl (by decide) (by decide)).trans BitVec.xor_zero).symm
  · exact ((crc_right16 pu8Data infoCrc16Ccitt rfl rfl (by decide) (by decide)).trans BitVec.xor_zero).symm
  · exact ((crc_left16 pu8Data infoCrc16Xmodem rfl rfl rfl rfl).trans BitVec.xor_zero).symm
  · exact (crc_right16 pu8Data infoCrc16X25 rfl rfl (by decide) (by decide)).symm
  · exact toBitVec_wowCrc16Modbus pu8Data
  · exact ((crc_right16 pu8Data infoCrc16Ibm rfl rfl (by decide) (by decide)).trans BitVec.xor_zero).symm
  · exact (crc_right16 pu8Data infoCrc16Maxim rfl rfl (by decide) (by decide)).symm
  · exact (crc_right16 pu8Data infoCrc16Usb rfl rfl (by decide) (by decide)).symm
  · exact (crc_right16 pu8Data infoCrc16Dnp rfl rfl (by decide) (by decide)).symm
  · exact (crc_right32 pu8Data infoCrc32 rfl rfl (by decide +kernel) (by decide +kernel)).symm
  · exact ((crc_left32 pu8Data infoCrc32Mpeg rfl rfl rfl rfl).trans BitVec.xor_zero).symm

end Routines

end Wow.Encrypt
