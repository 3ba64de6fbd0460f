import Wow.Lib.Mem

/-!
# Wow.Iec10x.Base — what the IEC-101 and IEC-104 stations share

The constants of `iec10x_base.h`, the node and value types of `wow_iec10x.h` and `wow_proto_data.h`, and
`Act`, the actions of a station that its surroundings can see.  Fields that the sources assign from the other
enumeration (`stat.yt = IEC10X_YT_CMD_FAILD`) go through `Iec10xStat.ofService`; the enumerators stand in the order
of the source.
-/

namespace Wow.Iec10x

/-! ### ASDU types and causes of transmission -/

/-- `IEC10X_M_…`, `IEC10X_C_…`: the ASDU types the stations know. -/
inductive AsduType where
  | mSpNa1 | mDpNa1 | mMeNa1 | mMeNc1 | mItNa1 | mItTa1 | mSpTb1 | mDpTb1 | mMeTd1 | mMeTf1
  | cScNa1 | cDcNa1 | cSeNa1 | cSeNc1 | mEiNa1 | cIcNa1 | cCiNa1 | cCsNa1 | cCdNa1
  deriving DecidableEq, Repr

namespace AsduType

/-- The type identification octet. -/
def code : AsduType → UInt8
  | mSpNa1 => 1 | mDpNa1 => 3 | mMeNa1 => 9 | mMeNc1 => 13 | mItNa1 => 15 | mItTa1 => 16
  | mSpTb1 => 30 | mDpTb1 => 31 | mMeTd1 => 34 | mMeTf1 => 36
  | cScNa1 => 45 | cDcNa1 => 46 | cSeNa1 => 48 | cSeNc1 => 50
  | mEiNa1 => 70 | cIcNa1 => 100 | cCiNa1 => 101 | cCsNa1 => 103 | cCdNa1 => 106

def all : List AsduType :=
  [mSpNa1, mDpNa1, mMeNa1, mMeNc1, mItNa1, mItTa1, mSpTb1, mDpTb1, mMeTd1, mMeTf1,
    cScNa1, cDcNa1, cSeNa1, cSeNc1, mEiNa1, cIcNa1, cCiNa1, cCsNa1, cCdNa1]

/-- The type of an octet; `none` is the `default:` of every `switch` on it. -/
def ofCode (b : UInt8) : Option AsduType := all.find? fun t => t.code == b

@[simp] theorem ofCode_code (t : AsduType) : ofCode t.code = some t := by cases t <;> rfl

end AsduType

/-! The causes of transmission the code tests for (`IEC10X_COT_…`); several are also the qualifier of an
interrogation. -/

namespace Cot

def perCyc : Nat := 1
def spont : Nat := 3
def init : Nat := 4
def req : Nat := 5
def act : Nat := 6
def actcon : Nat := 7
def actterm : Nat := 10
def unknowType : Nat := 44
def unknowCot : Nat := 45
def unknowAddr : Nat := 46
def unknowInf : Nat := 47
def introgen : Nat := 20
def intro1 : Nat := 21
def intro2 : Nat := 22
def reqcogen : Nat := 37
def reqco1 : Nat := 38
def reqco2 : Nat := 39

end Cot

/-! ### States and services -/

/-- `Iec10xStat_E`, one enumeration for the link and all service machines. -/
inductive Iec10xStat where
  | linkInit | linkOpen | linkConnect | linkConnectOk | linkDisconnect | linkIdle | linkClose
  | callAllIdle | callAllStart | callAllConfirm | callAllYx | callAllYc | callAllSuccess | callAllFaild
  | callPulseIdle | callPulseStart | callPulseConfirm | callPulseYm | callPulseSuccess | callPulseFaild
  | ykCmdIdle | ykCmdStart | ykCmdConfirm | ykCmdExec | ykCmdSuccess | ykCmdFaild
  | ytCmdIdle | ytCmdStart | ytCmdConfirm | ytCmdExec | ytCmdSuccess | ytCmdFaild
  | testerIdle | testerStart | testerStop
  deriving DecidableEq, Repr

/-- `Ie10xServeice_E`, the services reported to `serv_cb`. -/
inductive Service where
  | clockSync | connected | disconnected | callAllSuccess | callAllFaild | callPulseSuccess
  | callPulseFaild | ytCmdSuccess | ytCmdFaild | ykCmdSuccess | ykCmdFaild | yxSponSuccess | yxSponFaild
  | ycSponSuccess | ycSponFaild
  deriving DecidableEq, Repr

/-- The state a field holds that was assigned an enumerator of `Ie10xServeice_E`: the one with its number. -/
def Iec10xStat.ofService (v : Service) : Iec10xStat := .ofNat v.ctorIdx

/-- `Iec10xState_T`. -/
structure Iec10xState where
  init : Iec10xStat
  callall : Iec10xStat
  callpulse : Iec10xStat
  yt : Iec10xStat
  yk : Iec10xStat
  test : Iec10xStat
  deriving DecidableEq, Repr

/-- `Iec10xTime_T`, in milliseconds. -/
structure Iec10xTime where
  init : Int
  callall : Int
  callpulse : Int
  yt : Int
  yk : Int
  test : Int
  timer : Int
  deriving DecidableEq, Repr

/-! The timeouts of `wow_iec10x.h`, in milliseconds. -/

def circleTesterU : Int := 30 * 1000
def testerUTimeout : Int := 3 * 1000
def connectTimeout : Int := 3 * 1000
def callAllTimeout : Int := 30 * 1000
def callPulseTimeout : Int := 30 * 1000
def ykCmdTimeout : Int := 10 * 1000
def ytCmdTimeout : Int := 10 * 1000

/-! ### Nodes and values -/

/-- `DevTypeMod_E`. -/
inductive DevTypeMod where
  | yx | yc | ym | yt | yk
  deriving DecidableEq, Repr

/-- `DevDataType_E`. -/
inductive DevDataType where
  | bool | uint8 | sint8 | uint16 | sint16 | uint32 | sint32 | uint64 | sint64 | float | double | func | max
  deriving DecidableEq, Repr

/-- `DevNodeInfo_T`. -/
structure DevNodeInfo where
  mode : DevTypeMod
  addr : UInt16
  type : DevDataType
  deriving DecidableEq, Repr

/-- `DevNodeVal_T`: the eight octets of the union `DevValue_U`, in memory order, and the time tag
`CP56Time2a_T`.  `val.u8`, `val.s16`, `val.f` are the first one, two and four octets. -/
structure DevNodeVal where
  val : Vector UInt8 8
  time : Vector UInt8 7
  deriving DecidableEq

/-- The first `k` octets of the union: the member of that size. -/
def DevNodeVal.octets (v : DevNodeVal) (k : Nat) : List UInt8 := v.val.toList.take k

/-- `val.u8` / `val.s8`. -/
def DevNodeVal.u8 (v : DevNodeVal) : UInt8 := v.val[0]

/-- `time.year`, the low seven bits of the last octet. -/
def DevNodeVal.year (v : DevNodeVal) : Nat := v.time[6].toNat % 128

/-- `DevNodeCtrl_T`. -/
structure DevNodeCtrl where
  info : DevNodeInfo
  value : DevNodeVal
  deriving DecidableEq

/-- An array `ptNode` of `u8Count` nodes. -/
abbrev NodeArr := { l : List DevNodeCtrl // l.length < 256 }

@[simp] theorem DevNodeVal.length_octets (v : DevNodeVal) (k : Nat) : (v.octets k).length = min k 8 := by
  simp [DevNodeVal.octets]

theorem DevNodeVal.octets_one (v : DevNodeVal) : v.octets 1 = [v.u8] :=
  List.ext_getElem (by simp) fun i h1 h2 => by
    obtain rfl : i = 0 := by simpa using h2
    simp [DevNodeVal.octets, DevNodeVal.u8]

/-- The member of `k` octets, in front of something else. -/
theorem DevNodeVal.take_octets (v : DevNodeVal) {k : Nat} (hk : k ≤ 8) (l : List UInt8) :
    (v.octets k ++ l).take k = v.octets k :=
  List.take_left' (by rw [DevNodeVal.length_octets, Nat.min_eq_left hk])

/-! ### Actions -/

/-- A filled send buffer and the length handed to `link_send`.  `buf` is everything the builder wrote, from
the first octet of `send_buf`; it is longer than the buffer when the builder runs past its end. -/
structure SendBuf where
  buf : List UInt8
  len : Nat
  deriving DecidableEq, Repr

/-- The octets on the wire. -/
def SendBuf.wire (f : SendBuf) : List UInt8 := f.buf.take f.len

/-- What a station does that its surroundings can see, in order.  `rx`, `conn`, `lost` and `reset` are the
points where the code takes in a frame, is given a connection, loses it and clears its parameters. -/
inductive Act where
  | rx (apdu : List UInt8)
  | conn
  | lost
  | reset
  | checked (own : Bool) (ns nr : Nat) (ok : Bool)
  | req (t : AsduType) (nodes : List DevNodeCtrl)
  | send (f : SendBuf) (up : Bool)
  | setVal (node : DevNodeInfo) (val : List UInt8)
  | serv (s : Service)
  | setTime (cp56 : List UInt8)
  | close
  deriving DecidableEq

/-- The octets an action puts on an open link. -/
def Act.wire? : Act → Option (List UInt8)
  | .send f true => some f.wire
  | _ => none

/-- The value callbacks of a trace. -/
def Act.value? : Act → Option (DevNodeInfo × List UInt8)
  | .setVal n v => some (n, v)
  | _ => none

/-- The messages of a trace. -/
def wires (tr : List Act) : List (List UInt8) := tr.filterMap Act.wire?

/-- The value callbacks of a trace, in order. -/
def values (tr : List Act) : List (DevNodeInfo × List UInt8) := tr.filterMap Act.value?

@[simp] theorem wires_append (tr tr' : List Act) : wires (tr ++ tr') = wires tr ++ wires tr' :=
  List.filterMap_append

@[simp] theorem values_append (tr tr' : List Act) : values (tr ++ tr') = values tr ++ values tr' :=
  List.filterMap_append

/-- Value callbacks put nothing on the link. -/
theorem wires_setVals {acts : List Act} (h : ∀ a ∈ acts, ∃ n v, a = .setVal n v) : wires acts = [] := by
  refine List.filterMap_eq_nil_iff.mpr fun a ha => ?_
  obtain ⟨n, v, rfl⟩ := h a ha
  rfl

/-- The value callbacks of a list of them. -/
theorem values_mapIdx {β : Type} (n : Nat → β → DevNodeInfo) (v : Nat → β → List UInt8) (l : List β) :
    values (l.mapIdx fun i x => .setVal (n i x) (v i x)) = l.mapIdx fun i x => (n i x, v i x) := by
  simp only [values, List.mapIdx_eq_zipIdx_map, List.filterMap_map]
  exact congrFun List.filterMap_eq_map' _

end Wow.Iec10x
