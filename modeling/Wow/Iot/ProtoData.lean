import Wow.Lib.CInt
import Wow.Lib.Printf

/-!
# Wow.Iot.ProtoData — a typed value and its text, `wow_proto_data.c`

The members of the union lie over one another: its eight octets are one number, in the order of the CPU.  An access that
leaves a buffer, and a number that the type of a conversion does not hold, are `none`; no pointer is null.  The
conversions of floating point are parameters (`FloatText`).

* `member_setMember`: a member is read back.
* `data_right_iff`: the sizes that the conversions to text get leave no room for the longest numbers, and the case of
  `DATA_SINT_8` goes on into the next one.
-/

namespace Wow.Iot.ProtoData

open Printf

def PARAM_INPUT_ARG_INVALID : Int := 104

def MAXSTR8 : Nat := 3
def MAXSTR16 : Nat := 5
def MAXSTR32 : Nat := 10
def MAXSTR64 : Nat := 22
def MAXSTRFLOAT : Nat := 8
def MAXSTRDOUBLE : Nat := 17

/-! ### Values -/

/-- `DevDataType_E`. -/
inductive DevDataType where
  | bool
  | uint8
  | sint8
  | uint16
  | sint16
  | uint32
  | sint32
  | uint64
  | sint64
  | float
  | double
  | func
  | max
  deriving DecidableEq

/-- Which octet of a number comes first in memory. -/
inductive ByteOrder where
  | little
  | big

/-- `DevValue_U`. -/
structure DevValue where
  bits : Nat

/-- The conversions of `float` and `double`, from and to their bits. -/
structure FloatText where
  printFloat : Nat → List UInt8
  printDouble : Nat → List UInt8
  scanFloat : List UInt8 → Option Nat
  scanDouble : List UInt8 → Option Nat

/-- The octets behind those of a member, in bits. -/
def shift (order : ByteOrder) (w : CWidth) : Nat :=
  match order with
  | .little => 0
  | .big => 64 - w.bits

namespace DevValue

/-- The bits of a member. -/
def field (value : DevValue) (order : ByteOrder) (w : CWidth) : Nat := value.bits / 2 ^ shift order w % 2 ^ w.bits

/-- A store of the bits of a member. -/
def setField (value : DevValue) (order : ByteOrder) (w : CWidth) (n : Nat) : DevValue where
  bits := value.bits / 2 ^ (shift order w + w.bits) * 2 ^ (shift order w + w.bits) + n % 2 ^ w.bits * 2 ^ shift order w +
    value.bits % 2 ^ shift order w

/-- The member of this type. -/
def member (value : DevValue) (order : ByteOrder) (t : CInt) : Int := t.conv (value.field order t.width)

/-- A store to it. -/
def setMember (value : DevValue) (order : ByteOrder) (t : CInt) (n : Int) : DevValue :=
  value.setField order t.width (n % t.size).toNat

end DevValue

/-! ### From text -/

/-- `StrtoS8` to `StrtoU64`: where no number is found, the member is left as it is. -/
def strTo (order : ByteOrder) (t : CInt) (pcStr : List UInt8) (ptVal : DevValue) : Option DevValue :=
  match scan pcStr with
  | none => some ptVal
  | some n => if t.conv n = n then some (ptVal.setMember order t n) else none

/-- `StrtoF32` and `StrtoD64`. -/
def strToFloat (order : ByteOrder) (w : CWidth) (scanned : Option Nat) (ptVal : DevValue) : DevValue :=
  match scanned with
  | none => ptVal
  | some n => ptVal.setField order w n

/-- `wow_data_str_to_val`. -/
def dataStrToVal (order : ByteOrder) (fp : FloatText) (eType : DevDataType) (pcStr : List UInt8) (ptVal : DevValue) :
    Option (Int × DevValue) :=
  match eType with
  | .bool => (strTo order .uint8 pcStr ptVal).map (0, ·)
  | .uint8 => (strTo order .uint8 pcStr ptVal).map (0, ·)
  | .sint8 => (strTo order .int8 pcStr ptVal).map (0, ·)
  | .uint16 => (strTo order .uint16 pcStr ptVal).map (0, ·)
  | .sint16 => (strTo order .int16 pcStr ptVal).map (0, ·)
  | .uint32 => (strTo order .uint32 pcStr ptVal).map (0, ·)
  | .sint32 => (strTo order .int32 pcStr ptVal).map (0, ·)
  | .float => some (0, strToFloat order .w32 (fp.scanFloat pcStr) ptVal)
  | .uint64 => (strTo order .uint64 pcStr ptVal).map (0, ·)
  | .sint64 => (strTo order .int64 pcStr ptVal).map (0, ·)
  | .double => some (0, strToFloat order .w64 (fp.scanDouble pcStr) ptVal)
  | .func => some (PARAM_INPUT_ARG_INVALID, ptVal)
  | .max => some (PARAM_INPUT_ARG_INVALID, ptVal)

/-! ### To text -/

/-- `S8toStr` to `U64toStr`. -/
def toStr (n : Int) (pcStr : List UInt8) (size : Nat) : Option (List UInt8) := snprintf pcStr size (intText n)

/-- `wow_data_val_to_str`. -/
def dataValToStr (order : ByteOrder) (fp : FloatText) (eType : DevDataType) (ptVal : DevValue) (pcStr : List UInt8) :
    Option (Int × List UInt8) :=
  match eType with
  | .bool => (toStr (ptVal.member order .uint8) pcStr MAXSTR8).map (0, ·)
  | .uint8 => (toStr (ptVal.member order .uint8) pcStr MAXSTR8).map (0, ·)
  | .sint8 => do
    let pcStr ← toStr (ptVal.member order .int8) pcStr MAXSTR8
    -- there is no `break`
    let pcStr ← toStr (ptVal.member order .uint16) pcStr MAXSTR16
    return (0, pcStr)
  | .uint16 => (toStr (ptVal.member order .uint16) pcStr MAXSTR16).map (0, ·)
  | .sint16 => (toStr (ptVal.member order .int16) pcStr MAXSTR16).map (0, ·)
  | .uint32 => (toStr (ptVal.member order .uint32) pcStr MAXSTR32).map (0, ·)
  | .sint32 => (toStr (ptVal.member order .int32) pcStr MAXSTR32).map (0, ·)
  | .float => (snprintf pcStr MAXSTRFLOAT (fp.printFloat (ptVal.field order .w32))).map (0, ·)
  | .uint64 => (toStr (ptVal.member order .uint64) pcStr MAXSTR64).map (0, ·)
  | .sint64 => (toStr (ptVal.member order .int64) pcStr MAXSTR64).map (0, ·)
  | .double => (snprintf pcStr MAXSTRDOUBLE (fp.printDouble (ptVal.field order .w64))).map (0, ·)
  | .func => some (PARAM_INPUT_ARG_INVALID, pcStr)
  | .max => some (PARAM_INPUT_ARG_INVALID, pcStr)

/-! ### The requirement -/

/-- The member of an integer type, and the size of the buffer for its text. -/
def intType : DevDataType → Option (CInt × Nat)
  | .bool => some (.uint8, MAXSTR8)
  | .uint8 => some (.uint8, MAXSTR8)
  | .sint8 => some (.int8, MAXSTR8)
  | .uint16 => some (.uint16, MAXSTR16)
  | .sint16 => some (.int16, MAXSTR16)
  | .uint32 => some (.uint32, MAXSTR32)
  | .sint32 => some (.int32, MAXSTR32)
  | .uint64 => some (.uint64, MAXSTR64)
  | .sint64 => some (.int64, MAXSTR64)
  | .float => none
  | .double => none
  | .func => none
  | .max => none

section Requirement

variable (order : ByteOrder) (fp : FloatText) (eType : DevDataType) (t : CInt) (size : Nat) (val : DevValue)

/-- **The requirement**: the decimal text of the value is written within the buffer, and gives the value back. -/
def Right : Prop :=
  ∀ out : List UInt8, size ≤ out.length →
    ∃ out' str, dataValToStr order fp eType val out = some ((0 : Int), out') ∧ cstr out' = some str ∧
      str.chars = intText (val.member order t) ∧ str.chars.length < size ∧ out'.drop size = out.drop size ∧
      ∀ val' : DevValue, ∃ val'', dataStrToVal order fp eType str.chars val' = some ((0 : Int), val'') ∧
        val''.member order t = val.member order t

/-- **The condition**: there is room for a terminator behind the text, and for `DATA_SINT_8` the union holds the same
number as a `uint16_t`. -/
def Fits : Prop :=
  -10 ^ (size - 2) < val.member order t ∧ val.member order t < 10 ^ (size - 1) ∧
    (eType = .sint8 → val.member order .uint16 = val.member order t)

end Requirement

/-! ### The union -/

variable {order : ByteOrder} {fp : FloatText}

theorem field_setField (value : DevValue) (w : CWidth) (n : Nat) :
    (value.setField order w n).field order w = n % 2 ^ w.bits := by
  have hpos : 0 < 2 ^ shift order w := Nat.two_pow_pos _
  have hlow : value.bits % 2 ^ shift order w < 2 ^ shift order w := Nat.mod_lt _ hpos
  have hsplit : (value.setField order w n).bits = value.bits % 2 ^ shift order w +
      2 ^ shift order w * (n % 2 ^ w.bits + 2 ^ w.bits * (value.bits / 2 ^ (shift order w + w.bits))) := by
    simp only [DevValue.setField, Nat.pow_add]
    ring
  rw [DevValue.field, hsplit, Nat.add_mul_div_left _ _ hpos, Nat.div_eq_of_lt hlow, Nat.zero_add,
    Nat.add_mul_mod_self_left, Nat.mod_mod]

/-- **A member is read back.** -/
theorem member_setMember (value : DevValue) {t : CInt} {n : Int} (h : t.conv n = n) :
    (value.setMember order t n).member order t = n := by
  have hpos := t.size_pos
  have hnonneg := Int.emod_nonneg n (show (t.size : Int) ≠ 0 by omega)
  have hsize : t.size = 2 ^ t.width.bits := rfl
  have hcongr : t.conv ((n % t.size).toNat % 2 ^ t.width.bits : Nat) = t.conv n := by
    refine CInt.conv_congr ?_
    rw [← hsize, Int.natCast_emod, Int.toNat_of_nonneg hnonneg, Int.emod_emod_of_dvd n (dvd_refl _),
      Int.emod_emod_of_dvd n (dvd_refl _)]
  rw [DevValue.member, DevValue.setMember, field_setField, hcongr, h]

theorem conv_member (value : DevValue) (t : CInt) : t.conv (value.member order t) = value.member order t :=
  CInt.conv_of_holds (t.holds_conv _)

/-! ### The conversions -/

variable {eType : DevDataType} {t : CInt} {size : Nat}

/-- **From text**: every case reads the member of its type. -/
theorem dataStrToVal_eq (h : intType eType = some (t, size)) (pcStr : List UInt8) (val : DevValue) :
    dataStrToVal order fp eType pcStr val = (strTo order t pcStr val).map (0, ·) := by
  cases eType <;> cases h <;> rfl

/-- **To text**: every case but one writes the member of its type. -/
theorem dataValToStr_eq (h : intType eType = some (t, size)) (hne : eType ≠ .sint8) (val : DevValue)
    (pcStr : List UInt8) :
    dataValToStr order fp eType val pcStr = (toStr (val.member order t) pcStr size).map (0, ·) := by
  cases eType with
  | sint8 => exact absurd rfl hne
  | _ => cases h <;> rfl

theorem three_le_size (h : intType eType = some (t, size)) : 3 ≤ size := by
  cases eType <;> cases h <;> decide

/-- The numbers with a text that fits. -/
theorem length_lt_size_iff (hsize : 3 ≤ size) {n : Int} :
    (intText n).length < size ↔ -10 ^ (size - 2) < n ∧ n < 10 ^ (size - 1) := by
  obtain ⟨k, rfl⟩ : ∃ k, size = k + 2 + 1 := ⟨size - 3, by omega⟩
  exact length_intText_lt_iff

/-- The text of a number of the type gives the number. -/
theorem exists_strTo (h : intType eType = some (t, size)) (val val' : DevValue) :
    ∃ val'', dataStrToVal order fp eType (intText (val.member order t)) val' = some ((0 : Int), val'') ∧
      val''.member order t = val.member order t := by
  have hconv : t.conv (val.member order t) = val.member order t := conv_member val t
  refine ⟨val'.setMember order t (val.member order t), ?_, member_setMember val' hconv⟩
  rw [dataStrToVal_eq h, strTo, scan_intText]
  dsimp only
  rw [if_pos hconv]
  rfl

/-- A text that fits is written as a whole. -/
theorem exists_toStr {n : Int} {out : List UInt8} (hlen : (intText n).length < size)
    (hout : (intText n).length < out.length) : ∃ out' str, toStr n out size = some out' ∧ cstr out' = some str ∧
      str.chars = intText n ∧ out'.length = out.length ∧ ∀ k, (intText n).length < k → out'.drop k = out.drop k := by
  have htake : (intText n).take (size - 1) = intText n := List.take_of_length_le (by omega)
  have hroom : ((intText n).take (size - 1)).length < out.length := by rwa [htake]
  have hwrite := exists_snprintf (show 0 < size by omega) (noNul_intText n) hroom
  rwa [htake] at hwrite

/-! ### The requirement -/

theorem right_iff_of_ne (h : intType eType = some (t, size)) (hne : eType ≠ .sint8) (val : DevValue) :
    Right order fp eType t size val ↔ Fits order eType t size val := by
  have hsize := three_le_size h
  rw [Fits, ← and_assoc, ← length_lt_size_iff hsize]
  constructor
  · intro hright
    obtain ⟨out', str, -, -, hchars, hlen, -⟩ := hright (List.replicate size 0) (by rw [List.length_replicate])
    rw [hchars] at hlen
    exact ⟨hlen, fun heq => absurd heq hne⟩
  · rintro ⟨hlen, -⟩ out hout
    have hroom : (intText (val.member order t)).length < out.length := by omega
    obtain ⟨out', str, hwrite, hstr, hchars, -, hdrop⟩ := exists_toStr hlen hroom
    refine ⟨out', str, ?_, hstr, hchars, ?_, hdrop size hlen, fun val' => ?_⟩
    · rw [dataValToStr_eq h hne, hwrite]
      rfl
    · rwa [hchars]
    · rw [hchars]
      exact exists_strTo h val val'

/-- `DATA_SINT_8` writes the text of another member over its own. -/
theorem right_sint8_iff (val : DevValue) :
    Right order fp .sint8 .int8 MAXSTR8 val ↔ Fits order .sint8 .int8 MAXSTR8 val := by
  have hlenIff := @length_lt_size_iff MAXSTR8 (by decide) (val.member order .int8)
  have hmax8 : MAXSTR8 = 3 := rfl
  have hmax16 : MAXSTR16 = 5 := rfl
  rw [Fits, ← and_assoc, ← hlenIff]
  constructor
  · intro hright
    obtain ⟨out', str, hcall, hstr, hchars, hlen, -⟩ := hright (List.replicate 5 0) (by decide)
    have htake8 := List.length_take_le (MAXSTR8 - 1) (intText (val.member order .int8))
    have htake16 := List.length_take_le (MAXSTR16 - 1) (intText (val.member order .uint16))
    have hreplicate : (List.replicate 5 (0 : UInt8)).length = 5 := rfl
    have hroom1 : ((intText (val.member order .int8)).take (MAXSTR8 - 1)).length <
        (List.replicate 5 (0 : UInt8)).length := by omega
    obtain ⟨out1, -, hwrite1, -, -, hlen1, -⟩ :=
      exists_snprintf (show 0 < MAXSTR8 by decide) (noNul_intText (val.member order .int8)) hroom1
    have hroom2 : ((intText (val.member order .uint16)).take (MAXSTR16 - 1)).length < out1.length := by omega
    obtain ⟨out2, str2, hwrite2, hstr2, hchars2, -, -⟩ :=
      exists_snprintf (show 0 < MAXSTR16 by decide) (noNul_intText (val.member order .uint16)) hroom2
    have hcall' : dataValToStr order fp .sint8 val (List.replicate 5 0) = some (0, out2) := by
      rw [dataValToStr, toStr, hwrite1, Option.bind_eq_bind, Option.bind_some, toStr, hwrite2]
      rfl
    obtain ⟨-, rfl⟩ := Prod.mk.inj (Option.some_inj.mp (hcall.symm.trans hcall'))
    obtain rfl : str = str2 := Option.some_inj.mp (hstr.symm.trans hstr2)
    have hwhole : (intText (val.member order .uint16)).take (MAXSTR16 - 1) = intText (val.member order .uint16) := by
      refine List.take_of_length_le ?_
      rw [hchars2, List.length_take] at hlen
      omega
    refine ⟨?_, fun _ => intText_injective ?_⟩
    · rw [← hchars]
      exact hlen
    · rw [← hchars, hchars2, hwhole]
  · rintro ⟨hlen, hsame⟩ out hout
    have hmember := hsame rfl
    have hroom1 : (intText (val.member order .int8)).length < out.length := by omega
    obtain ⟨out1, -, hwrite1, -, -, hlen1, hdrop1⟩ := exists_toStr hlen hroom1
    have hfits : (intText (val.member order .int8)).length < MAXSTR16 := by omega
    have hroom2 : (intText (val.member order .int8)).length < out1.length := by omega
    obtain ⟨out2, str, hwrite2, hstr, hchars, -, hdrop2⟩ := exists_toStr hfits hroom2
    refine ⟨out2, str, ?_, hstr, hchars, ?_, (hdrop2 _ hlen).trans (hdrop1 _ hlen), fun val' => ?_⟩
    · rw [dataValToStr, hwrite1, Option.bind_eq_bind, Option.bind_some, hmember, hwrite2]
      rfl
    · rw [hchars]
      exact hlen
    · rw [hchars]
      exact exists_strTo (show intType .sint8 = some (.int8, MAXSTR8) from rfl) val val'

/-- **Which values come back**: over every integer type and every content of the union. -/
theorem data_right_iff (h : intType eType = some (t, size)) (val : DevValue) :
    Right order fp eType t size val ↔ Fits order eType t size val := by
  by_cases heq : eType = .sint8
  · subst heq
    cases h
    exact right_sint8_iff val
  · exact right_iff_of_ne h heq val

/-- Conversions that no integer type comes to. -/
def noFloat : FloatText := ⟨fun _ => [], fun _ => [], fun _ => none, fun _ => none⟩

theorem data_right_iff_seven : Right .little noFloat .uint8 .uint8 MAXSTR8 ⟨7⟩ ↔
    Fits .little .uint8 .uint8 MAXSTR8 ⟨7⟩ :=
  data_right_iff rfl ⟨7⟩

/-- The three digits of 100 are cut to two. -/
theorem hundred_not_right : ¬ Right .little noFloat .uint8 .uint8 MAXSTR8 ⟨100⟩ := by
  rw [right_iff_of_ne rfl (by decide), Fits]
  rintro ⟨-, hlt, -⟩
  exact absurd hlt (by decide)

/-- No negative `int8_t` comes back: an `uint16_t` is not negative. -/
theorem negative_sint8_not_right {val : DevValue} (h : val.member order .int8 < 0) :
    ¬ Right order fp .sint8 .int8 MAXSTR8 val := by
  rw [right_sint8_iff, Fits]
  rintro ⟨-, -, hsame⟩
  have hnonneg : 0 ≤ val.member order .uint16 := (CInt.holds_conv .uint16 _).1
  rw [hsame rfl] at hnonneg
  omega

end Wow.Iot.ProtoData
