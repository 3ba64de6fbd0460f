import Wow.Lib.CInt
import Wow.Utils.TypeParse

/-!
# Wow.Iot.DatabaseVal — the tagged values of `wow_database_val.c` and their binding

A value is a tag and a union.  The integer members lie over one another: `bits` are the octets that they share, as a
little-endian number.  A member of text or blob is read under its own tag only, and kept beside them.  The conversions
from floating point are parameters (`FloatConv`).

* `databaseValue_set`: a getter sees what the signed type of the setter's width makes of the number.
* `bind_set`: so does a binding.
* `keeps_iff`: the setters of the unsigned types choose the tags of the signed ones.
-/

namespace Wow.Iot.DatabaseVal

open Utils.TypeParse (str2u64)

/-! ### Values -/

/-- `DatabaseSqlValueType_E`. -/
inductive DatabaseSqlValueType where
  | null
  | int (t : CInt)
  | float
  | double
  | text
  | blob8

/-- `DbSqlValue_T`. -/
structure DbSqlValue where
  type : DatabaseSqlValueType
  /-- The octets of `i8` to `u64`, `f` and `d`. -/
  bits : Nat
  /-- `text.data` and `text.hint`. -/
  text : Option (List UInt8) × Nat
  blob : List UInt8

/-- The conversions of `float` and `double`. -/
structure FloatConv where
  ofFloat : CInt → Nat → Int
  ofDouble : CInt → Nat → Int
  extend : Nat → Nat

namespace DbSqlValue

/-- The member of this type. -/
def member (value : DbSqlValue) (t : CInt) : Int := t.conv value.bits

/-- A store to it, under a tag. -/
def setMember (value : DbSqlValue) (tag t : CInt) (number : Int) : DbSqlValue :=
  { value with type := .int tag, bits := value.bits / t.size * t.size + (number % t.size).toNat }

end DbSqlValue

/-! ### The setters -/

def databaseValueSetInt8 (value : DbSqlValue) (number : Int) : DbSqlValue := value.setMember .int8 .int8 number
def databaseValueSetInt16 (value : DbSqlValue) (number : Int) : DbSqlValue := value.setMember .int16 .int16 number
def databaseValueSetInt32 (value : DbSqlValue) (number : Int) : DbSqlValue := value.setMember .int32 .int32 number
def databaseValueSetInt64 (value : DbSqlValue) (number : Int) : DbSqlValue := value.setMember .int64 .int64 number
def databaseValueSetUint8 (value : DbSqlValue) (number : Int) : DbSqlValue := value.setMember .int8 .uint8 number
def databaseValueSetUint16 (value : DbSqlValue) (number : Int) : DbSqlValue := value.setMember .int16 .uint16 number
def databaseValueSetUint32 (value : DbSqlValue) (number : Int) : DbSqlValue := value.setMember .int32 .uint32 number
def databaseValueSetUint64 (value : DbSqlValue) (number : Int) : DbSqlValue := value.setMember .int64 .uint64 number

/-- The setter of a type. -/
def databaseValueSet : CInt → DbSqlValue → Int → DbSqlValue
  | ⟨true, .w8⟩ => databaseValueSetInt8
  | ⟨true, .w16⟩ => databaseValueSetInt16
  | ⟨true, .w32⟩ => databaseValueSetInt32
  | ⟨true, .w64⟩ => databaseValueSetInt64
  | ⟨false, .w8⟩ => databaseValueSetUint8
  | ⟨false, .w16⟩ => databaseValueSetUint16
  | ⟨false, .w32⟩ => databaseValueSetUint32
  | ⟨false, .w64⟩ => databaseValueSetUint64

/-! ### The getters -/

variable (fp : FloatConv)

/-- The four switches over the tag. -/
def DbSqlValue.number (value : DbSqlValue) (t : CInt) : Int :=
  match value.type with
  | .int s => t.conv (value.member s)
  | .float => fp.ofFloat t value.bits
  | .double => fp.ofDouble t value.bits
  | .text =>
    match value.text.1 with
    | some data => t.conv (str2u64 data).2.toNat
    | none => 0
  | .null | .blob8 => 0

def databaseValueInt32 (value : DbSqlValue) : Int := value.number fp .int32
def databaseValueInt64 (value : DbSqlValue) : Int := value.number fp .int64
def databaseValueUint32 (value : DbSqlValue) : Int := value.number fp .uint32
def databaseValueUint64 (value : DbSqlValue) : Int := value.number fp .uint64
def databaseValueInt8 (value : DbSqlValue) : Int := CInt.int8.conv (databaseValueInt32 fp value)
def databaseValueInt16 (value : DbSqlValue) : Int := CInt.int16.conv (databaseValueInt32 fp value)
def databaseValueUint8 (value : DbSqlValue) : Int := CInt.uint8.conv (databaseValueUint32 fp value)
def databaseValueUint16 (value : DbSqlValue) : Int := CInt.uint16.conv (databaseValueUint32 fp value)

/-- The getter of a type. -/
def databaseValue : CInt → DbSqlValue → Int
  | ⟨true, .w8⟩ => databaseValueInt8 fp
  | ⟨true, .w16⟩ => databaseValueInt16 fp
  | ⟨true, .w32⟩ => databaseValueInt32 fp
  | ⟨true, .w64⟩ => databaseValueInt64 fp
  | ⟨false, .w8⟩ => databaseValueUint8 fp
  | ⟨false, .w16⟩ => databaseValueUint16 fp
  | ⟨false, .w32⟩ => databaseValueUint32 fp
  | ⟨false, .w64⟩ => databaseValueUint64 fp

/-! ### Binding -/

/-- What SQLite keeps of a bound value; `int` and `int64` are both integers of 64 bits. -/
inductive SqliteParam where
  | null
  | integer (n : Int)
  | real (bits : Nat)
  | text (data : List UInt8) (size : Nat)
  | blob (data : List UInt8)
  deriving DecidableEq

/-- `sqlite3_stmt`: its parameters, and whether it is in the middle of an iteration. -/
structure Sqlite3Stmt where
  params : List SqliteParam
  busy : Bool

/-- `sqlite3_bind_int` and its siblings, with the parameter counted from 1: whether it is `SQLITE_OK`. -/
def sqlite3Bind (stmt : Sqlite3Stmt) (i : Nat) (param : SqliteParam) : Option Sqlite3Stmt :=
  if stmt.busy = false ∧ 1 ≤ i ∧ i ≤ stmt.params.length then
    some { stmt with params := stmt.params.set (i - 1) param }
  else none

/-- The switch of `db_sqlite3_statement_bind`. -/
def toParam (value : DbSqlValue) : SqliteParam :=
  match value.type with
  | .text =>
    match value.text with
    | (some data, hint) => .text data (if hint = 0 then data.length else hint)
    | (none, _) => .null
  | .int ⟨_, .w64⟩ => .integer (databaseValueInt64 fp value)
  | .int _ => .integer (databaseValueInt32 fp value)
  | .float => .real (fp.extend value.bits)
  | .double => .real value.bits
  | .null => .null
  | .blob8 => .blob value.blob

def PARAM_INPUT_ARG_INVALID : Int := 104
def SQLITE_BIND_COUNT_ERROR : Int := 30814
def SQLITE_BIND_BODY_ERROR : Int := 30815

/-- The loop of `db_sqlite3_statement_bind`, from parameter `i`. -/
def bindLoop : List DbSqlValue → Nat → Sqlite3Stmt → Int × Sqlite3Stmt
  | [], _, stmt => (0, stmt)
  | value :: list, i, stmt =>
    match sqlite3Bind stmt (i + 1) (toParam fp value) with
    | none => (-SQLITE_BIND_BODY_ERROR, stmt)
    | some stmt => bindLoop list (i + 1) stmt

/-- `db_sqlite3_statement_bind`. -/
def dbSqlite3StatementBind (stmt : Sqlite3Stmt) (list : List DbSqlValue) : Int × Sqlite3Stmt :=
  if ¬ 0 < list.length then (-PARAM_INPUT_ARG_INVALID, stmt)
  else if list.length ≠ stmt.params.length then (-SQLITE_BIND_COUNT_ERROR, stmt)
  else bindLoop fp list 0 stmt

/-! ### The requirement -/

/-- **The requirement** for a number of a type: every getter that can give it does so, and a binding stores it,
whatever the value has held before. -/
def Keeps (t : CInt) (v : Int) : Prop :=
  (∀ value g, CInt.Holds g v → databaseValue fp g (databaseValueSet t value v) = v) ∧
  ∀ value (stmt : Sqlite3Stmt) (list list' : List DbSqlValue), stmt.busy = false →
    stmt.params.length = (list ++ databaseValueSet t value v :: list').length →
    ∃ stmt', dbSqlite3StatementBind fp stmt (list ++ databaseValueSet t value v :: list') = (0, stmt') ∧
      stmt'.params[list.length]? = some (.integer v)

/-! ### What is read back -/

variable {fp} {t : CInt} {v : Int}

/-- **The setters**: each of them takes the tag of the signed type of its width. -/
theorem databaseValueSet_eq (t : CInt) (value : DbSqlValue) (v : Int) :
    databaseValueSet t value v = value.setMember t.twin t v := by
  rcases t with ⟨_ | _, _ | _ | _ | _⟩ <;> rfl

/-- The member of the same width reads the number through its own type. -/
theorem member_setMember (t : CInt) (value : DbSqlValue) (tag : CInt) (v : Int) :
    (value.setMember tag t v).member t.twin = t.twin.conv v := by
  have hpos := t.size_pos
  refine CInt.conv_congr ?_
  have hnonneg := Int.emod_nonneg v (show (t.size : Int) ≠ 0 by omega)
  simp only [DbSqlValue.setMember, CInt.size_twin, Nat.cast_add, Nat.cast_mul, Int.toNat_of_nonneg hnonneg]
  rw [Int.add_comm, Int.add_mul_emod_self_right, Int.emod_emod_of_dvd v (dvd_refl _)]

theorem number_set (fp : FloatConv) (t : CInt) (value : DbSqlValue) (v : Int) (g : CInt) :
    (databaseValueSet t value v).number fp g = g.conv (t.twin.conv v) := by
  rw [databaseValueSet_eq, DbSqlValue.number]
  exact congrArg g.conv (member_setMember t value t.twin v)

/-- **A getter** sees what the signed type makes of the number. -/
theorem databaseValue_set (fp : FloatConv) (t : CInt) (value : DbSqlValue) (v : Int) (g : CInt) :
    databaseValue fp g (databaseValueSet t value v) = g.conv (t.twin.conv v) := by
  -- the getters of 8 and 16 bits convert what the ones of 32 bits return
  have hnarrow (g w : CInt) (hle : g.width.bits ≤ w.width.bits) :
      g.conv ((databaseValueSet t value v).number fp w) = g.conv (t.twin.conv v) := by
    rw [number_set, CInt.conv_conv hle]
  rcases g with ⟨_ | _, _ | _ | _ | _⟩
  · exact hnarrow .uint8 .uint32 (by decide)
  · exact hnarrow .uint16 .uint32 (by decide)
  · exact number_set ..
  · exact number_set ..
  · exact hnarrow .int8 .int32 (by decide)
  · exact hnarrow .int16 .int32 (by decide)
  · exact number_set ..
  · exact number_set ..

/-- The getter that a binding calls is wide enough for the tag. -/
theorem toParam_int (fp : FloatConv) {value : DbSqlValue} {s : CInt} (h : value.type = .int s) :
    ∃ g, toParam fp value = .integer (value.number fp g) ∧ g.signed = true ∧ s.width.bits ≤ g.width.bits := by
  rcases s with ⟨b, _ | _ | _ | _⟩
  · exact ⟨.int32, by rw [toParam, h]; rfl, rfl, Nat.le_of_ble_eq_true rfl⟩
  · exact ⟨.int32, by rw [toParam, h]; rfl, rfl, Nat.le_of_ble_eq_true rfl⟩
  · exact ⟨.int32, by rw [toParam, h]; rfl, rfl, Nat.le_of_ble_eq_true rfl⟩
  · exact ⟨.int64, by rw [toParam, h]; rfl, rfl, Nat.le_of_ble_eq_true rfl⟩

/-- What a binding makes of the value. -/
theorem toParam_set (fp : FloatConv) (t : CInt) (value : DbSqlValue) (v : Int) :
    toParam fp (databaseValueSet t value v) = .integer (t.twin.conv v) := by
  have htype : (databaseValueSet t value v).type = .int t.twin := by
    rw [databaseValueSet_eq]
    rfl
  obtain ⟨g, hparam, hs, hle⟩ := toParam_int fp htype
  rw [hparam, number_set, CInt.conv_of_holds ((CInt.holds_conv t.twin v).widen rfl hs hle)]

/-- **A binding** stores the parameters of all values. -/
theorem bindLoop_append (fp : FloatConv) (done : List SqliteParam) {list : List DbSqlValue} {old : List SqliteParam}
    (hlen : old.length = list.length) :
    bindLoop fp list done.length ⟨done ++ old, false⟩ = (0, ⟨done ++ list.map (toParam fp), false⟩) := by
  induction list generalizing done old with
  | nil =>
    rw [List.length_eq_zero_iff.mp hlen]
    rfl
  | cons value list ih =>
    obtain ⟨p, old, rfl⟩ := List.exists_cons_of_length_eq_add_one hlen
    have hbind : sqlite3Bind ⟨done ++ p :: old, false⟩ (done.length + 1) (toParam fp value) =
        some ⟨(done ++ [toParam fp value]) ++ old, false⟩ := by
      rw [sqlite3Bind, if_pos (by simp), Nat.add_sub_cancel, List.set_append_right _ _ (le_refl _)]
      simp
    rw [bindLoop, hbind]
    dsimp only
    have hlen' : (done ++ [toParam fp value]).length = done.length + 1 := List.length_append
    rw [← hlen', ih _ (Nat.succ_inj.mp hlen), List.append_assoc]
    rfl

/-- **Setters, getters and bindings** keep a number if and only if its type is signed or the number is in the lower half
of its range. -/
theorem keeps_iff (fp : FloatConv) {t : CInt} {v : Int} (h : t.Holds v) :
    Keeps fp t v ↔ t.signed = true ∨ v * 2 < t.size := by
  rw [← CInt.holds_twin_iff h, ← CInt.conv_twin_eq_iff]
  have hbind (value : DbSqlValue) {stmt : Sqlite3Stmt} {list list' : List DbSqlValue} (hbusy : stmt.busy = false)
      (hlen : stmt.params.length = (list ++ databaseValueSet t value v :: list').length) :
      dbSqlite3StatementBind fp stmt (list ++ databaseValueSet t value v :: list') =
        (0, ⟨list.map (toParam fp) ++ .integer (t.twin.conv v) :: list'.map (toParam fp), false⟩) := by
    obtain ⟨params, busy⟩ := stmt
    obtain rfl : busy = false := hbusy
    have hloop := bindLoop_append fp [] hlen
    rw [List.map_append, List.map_cons, toParam_set] at hloop
    rw [dbSqlite3StatementBind, if_neg (by simp), if_neg (not_not.mpr hlen.symm)]
    exact hloop
  have hget (list : List DbSqlValue) (p : SqliteParam) (rest : List SqliteParam) :
      (list.map (toParam fp) ++ p :: rest)[list.length]? = some p := by
    rw [List.getElem?_append_right (by simp)]
    simp
  constructor
  · rintro ⟨-, hbinds⟩
    let value : DbSqlValue := ⟨.null, 0, (none, 0), []⟩
    obtain ⟨stmt', hstmt, hparam⟩ := hbinds value ⟨[.null], false⟩ [] [] rfl rfl
    rw [hbind value rfl rfl] at hstmt
    obtain ⟨-, rfl⟩ := Prod.mk.injEq .. ▸ hstmt
    rw [hget] at hparam
    injection hparam with hparam
    injection hparam
  · intro hconv
    refine ⟨fun value g hg => ?_, fun value stmt list list' hbusy hlen => ⟨_, hbind value hbusy hlen, ?_⟩⟩
    · rw [databaseValue_set, hconv]
      exact CInt.conv_of_holds hg
    · rw [hget, hconv]

/-- Conversions of no value. -/
def noFloat : FloatConv := ⟨fun _ _ => 0, fun _ _ => 0, fun _ => 0⟩

theorem keeps_iff_demo : Keeps noFloat .uint8 100 ∧ ¬ Keeps noFloat .uint8 200 := by
  have h100 : CInt.Holds .uint8 100 := show 0 ≤ (100 : Int) ∧ (100 : Int) < 256 by decide
  have h200 : CInt.Holds .uint8 200 := show 0 ≤ (200 : Int) ∧ (200 : Int) < 256 by decide
  constructor
  · exact (keeps_iff noFloat h100).mpr (by decide)
  · exact fun h => absurd ((keeps_iff noFloat h200).mp h) (by decide)

/-- 4000000000 as an `uint32_t`, read with `database_value_int64`. -/
theorem not_keeps_uint32 : ¬ Keeps noFloat .uint32 4000000000 := by
  intro h
  have hget := h.1 ⟨.null, 0, (none, 0), []⟩ .int64
    (show -(2 ^ 64 : Int) ≤ 4000000000 * 2 ∧ 4000000000 * 2 < (2 ^ 64 : Int) by decide)
  rw [databaseValue_set] at hget
  exact absurd hget (by decide)

end Wow.Iot.DatabaseVal
