import Mathlib.Algebra.Order.Ring.Nat
import Wow.Lib.Rd
import Wow.Iec10x.Base

/-!
# Wow.Iec101.Frame — the frames of IEC 60870-5-101 as the two stations build and take them

`iec101_base.h`, the two frame formats, and the fields the handlers read.  A frame of fixed length is six octets
behind `0x10`, one of variable length begins with `0x68`, twice its length and `0x68` again; both end in a check
sum and `0x16`.

* Building: `mk10` and `mk68`.  The length of a builder lives in a `uint8_t`, and so do the places where it puts
  check sum and end.
* Reading: the frame lies at the start of the buffer; `rd…` are the reads of the code, `Fld.…` their values.
-/

namespace Wow.Iec101

open Iec10x

/-! ### Constants -/

/-- `IEC101_MAX_BUF_LEN`. -/
def maxBufLen : Nat := 256

/-- `IEC101_STABLE_BEGING`. -/
def stableBegin : UInt8 := 0x10

/-- `IEC101_VARIABLE_BEGING`. -/
def variableBegin : UInt8 := 0x68

/-- `IEC101_STABLE_END` and `IEC101_VARIABLE_END`. -/
def frameEnd : UInt8 := 0x16

/-- `IEC101_STABLE_LEN`. -/
def stableLen : Nat := 6

/-- `IEC101_VARIABLE_LEN`: head, ASDU head, one information address, check sum and end. -/
def variableLen : Nat := 16

/-- `IEC101_HEARTBEART_TIMEOUT`, in milliseconds. -/
def heartbeatTimeout : Int := 1000

/-! `IEC101_CTRL_…`, the function codes of the control octet. -/

namespace Func

def resetLink : Nat := 0x00
def sendUsrDataAck : Nat := 0x03
def sendData : Nat := 0x04
def reqLinkStatus : Nat := 0x09
def reqUsrData1 : Nat := 0x0A
def reqUsrData2 : Nat := 0x0B
def confirmAck : Nat := 0x00
def confirmNack : Nat := 0x01
def resUsrDataAck : Nat := 0x08
def resUsrDataNack : Nat := 0x09
def resLinkStatus : Nat := 0x0B

end Func

/-- A bit of an octet. -/
def bit (b : Bool) (k : Nat) : Nat := if b then 2 ^ k else 0

/-- `Iec101CtrlDown_T`. -/
def ctrlDown (dir prm fcb fcv : Bool) (func : Nat) : UInt8 :=
  UInt8.ofNat (func % 16 + bit fcv 4 + bit fcb 5 + bit prm 6 + bit dir 7)

/-- `Iec101CtrlUp_T`. -/
def ctrlUp (dir prm acd dfc : Bool) (func : Nat) : UInt8 :=
  UInt8.ofNat (func % 16 + bit dfc 4 + bit acd 5 + bit prm 6 + bit dir 7)

/-- The sum of octets in a `uint8_t`. -/
def checkSum (l : List UInt8) : UInt8 := l.foldl (· + ·) 0

/-! ### Building -/

/-- `Iec101Data10_T`. -/
def mk10 (ctrl : UInt8) (addr : UInt16) : SendBuf :=
  { buf := [stableBegin, ctrl] ++ leU16 addr ++ [checkSum (ctrl :: leU16 addr), frameEnd], len := stableLen }

/-- `Iec101Asdu_T` without its information objects, with the values the code assigns to the bit fields. -/
structure AsduHead where
  type : UInt8
  sq : Bool
  num : Nat
  reason : Nat
  pn : Bool
  test : Bool
  addr : UInt16
  deriving DecidableEq, Repr

/-- The five octets of the head, the bit fields truncated. -/
def AsduHead.octets (h : AsduHead) : List UInt8 :=
  [h.type, UInt8.ofNat (h.num % 128 + bit h.sq 7), UInt8.ofNat (h.reason % 64 + bit h.pn 6 + bit h.test 7)] ++
    leU16 h.addr

@[simp] theorem AsduHead.length_octets (h : AsduHead) : h.octets.length = 5 := rfl

/-- The seven octets in front of the ASDU, under the length `len` of the builder. -/
def head68 (len : UInt8) (ctrl : UInt8) (addr : UInt16) : List UInt8 :=
  [variableBegin, len - 6, len - 6, variableBegin, ctrl] ++ leU16 addr

/-- The end of a builder: the sum of the octets from the control octet to `len - 2`, put at `len - 2`, and the
end octet at `len - 1`.  With a `len` below two both lie in front of the buffer. -/
def finish (len : UInt8) (buf : List UInt8) : List UInt8 :=
  let cs := checkSum ((buf.take (len.toNat - 2)).drop 4)
  let buf := if 2 ≤ len.toNat then buf.set (len.toNat - 2) cs else buf
  if 1 ≤ len.toNat then buf.set (len.toNat - 1) frameEnd else buf

/-- A frame of variable length with the octets `asdu` in a cleared buffer, of which the builder sends `len`
(`uint8_t`). -/
def mk68 (ctrl : UInt8) (addr : UInt16) (asdu : List UInt8) (len : Nat) : SendBuf :=
  let l := UInt8.ofNat len
  let buf := head68 l ctrl addr ++ asdu
  { buf := finish l (buf ++ List.replicate (maxBufLen - buf.length) 0), len := l.toNat }

/-- The length of a builder that takes the difference of its pointers. -/
def lenOf (asdu : List UInt8) : Nat := 7 + asdu.length + 2

/-! ### Reading -/

/-! The values of the fields of the frame at the start of the buffer. -/

namespace Fld

def func (m : Mem) : Nat := (m 4).toNat % 16
def type (m : Mem) : UInt8 := m 7
def num (m : Mem) : Nat := (m 8).toNat % 128
def sq (m : Mem) : Bool := decide (128 ≤ (m 8).toNat)
def reason (m : Mem) : Nat := (m 9).toNat % 64
def pn (m : Mem) : Bool := decide ((m 9).toNat / 64 % 2 = 1)
def infoAddr (m : Mem) : UInt16 := m.u16 12
def elem0 (m : Mem) : UInt8 := m 14

/-- The `i`-th information object, of elements of `sz` octets of which the first `k` are read: under `SQ=1` the
elements follow one information address, under `SQ=0` each has its own. -/
def obj (m : Mem) (sq : Bool) (k sz i : Nat) : UInt16 × List UInt8 :=
  if sq then (m.u16 12 + UInt16.ofNat i, m.slice (14 + i * sz) k)
  else (m.u16 (12 + i * (2 + sz)), m.slice (14 + i * (2 + sz)) k)

/-- The information objects. -/
def objs (m : Mem) (n : Nat) (sq : Bool) (k sz : Nat) : List (UInt16 × List UInt8) :=
  (List.range n).map (obj m sq k sz)

end Fld

/-- `_ctrl.down._func` of the control octet at `p`. -/
def rdFunc (p : Nat) : Rd Nat := do
  let b ← Rd.octet p
  pure (b.toNat % 16)

/-- `_num._num`. -/
def rdNum : Rd Nat := do
  let b ← Rd.octet 8
  pure (b.toNat % 128)

/-- `_num._sq`. -/
def rdSq : Rd Bool := do
  let b ← Rd.octet 8
  pure (decide (128 ≤ b.toNat))

/-- `_reason._reason`. -/
def rdReason : Rd Nat := do
  let b ← Rd.octet 9
  pure (b.toNat % 64)

/-- `_reason._pn`. -/
def rdPn : Rd Bool := do
  let b ← Rd.octet 9
  pure (decide (b.toNat / 64 % 2 = 1))

/-- One round of the element loops. -/
def rdObj (sq : Bool) (base : UInt16) (k sz i : Nat) : Rd (UInt16 × List UInt8) :=
  if sq then do
    let e ← Rd.octets (14 + i * sz) k
    pure (base + UInt16.ofNat i, e)
  else do
    let a ← Rd.u16 (12 + i * (2 + sz))
    let e ← Rd.octets (14 + i * (2 + sz)) k
    pure (a, e)

/-- The element loop of the handlers. -/
def rdObjs (n : Nat) (sq : Bool) (k sz : Nat) : Rd (List (UInt16 × List UInt8)) := do
  let base ← if sq then Rd.u16 12 else pure 0
  Rd.forN n (rdObj sq base k sz)

/-- The element loop of a handler that leaves it at the first object with `stop`. -/
def rdObjsUntil (n : Nat) (sq : Bool) (k sz : Nat) (stop : UInt16 × List UInt8 → Bool) :
    Rd (List (UInt16 × List UInt8) × Bool) := do
  let base ← if sq then Rd.u16 12 else pure 0
  Rd.untilN n (rdObj sq base k sz) stop

section Reads

variable (m : Mem)

@[simp] theorem run_rdFunc (p : Nat) : (rdFunc p).run m = (m p).toNat % 16 := rfl
@[simp] theorem run_rdNum : rdNum.run m = Fld.num m := rfl
@[simp] theorem run_rdSq : rdSq.run m = Fld.sq m := rfl
@[simp] theorem run_rdReason : rdReason.run m = Fld.reason m := rfl
@[simp] theorem run_rdPn : rdPn.run m = Fld.pn m := rfl

@[simp] theorem mem_rdFunc (p : Nat) : (rdFunc p).mem m = m := rfl
@[simp] theorem mem_rdNum : rdNum.mem m = m := rfl
@[simp] theorem mem_rdSq : rdSq.mem m = m := rfl
@[simp] theorem mem_rdReason : rdReason.mem m = m := rfl
@[simp] theorem mem_rdPn : rdPn.mem m = m := rfl

variable (n : Nat) (sq : Bool) (base : UInt16) (k sz : Nat)

theorem pure_rdObj (i : Nat) : (rdObj sq base k sz i).Pure := by
  intro m
  cases sq <;> simp [rdObj]

@[simp] theorem mem_rdObjs : (rdObjs n sq k sz).mem m = m := by
  cases sq
  · simp only [rdObjs, Rd.mem_bind, Bool.false_eq_true, if_false, Rd.mem_pure]
    exact Rd.mem_forN (pure_rdObj false _ k sz) m
  · simp only [rdObjs, Rd.mem_bind, if_true, Rd.mem_u16]
    exact Rd.mem_forN (pure_rdObj true _ k sz) m

@[simp] theorem run_rdObjs : (rdObjs n sq k sz).run m = Fld.objs m n sq k sz := by
  cases sq
  · simp only [rdObjs, Rd.run_bind, Bool.false_eq_true, if_false, Rd.mem_pure]
    rw [Rd.run_forN (pure_rdObj false _ k sz)]
    exact List.map_congr_left fun i _ => by simp [rdObj, Fld.obj]
  · simp only [rdObjs, Rd.run_bind, if_true, Rd.mem_u16, Rd.run_u16]
    rw [Rd.run_forN (pure_rdObj true _ k sz)]
    exact List.map_congr_left fun i _ => by simp [rdObj, Fld.obj]

theorem run_rdObj (i : Nat) : (rdObj sq (if sq then m.u16 12 else 0) k sz i).run m = Fld.obj m sq k sz i := by
  cases sq <;> simp [rdObj, Fld.obj]

variable (stop : UInt16 × List UInt8 → Bool)

@[simp] theorem mem_rdObjsUntil : (rdObjsUntil n sq k sz stop).mem m = m := by
  cases sq
  · simp only [rdObjsUntil, Rd.mem_bind, Bool.false_eq_true, if_false, Rd.mem_pure]
    exact Rd.mem_untilN (pure_rdObj false _ k sz) stop m
  · simp only [rdObjsUntil, Rd.mem_bind, if_true, Rd.mem_u16]
    exact Rd.mem_untilN (pure_rdObj true _ k sz) stop m

@[simp] theorem run_rdObjsUntil : (rdObjsUntil n sq k sz stop).run m =
    ((Fld.objs m n sq k sz).takeWhile (fun o => !stop o), (Fld.objs m n sq k sz).any stop) := by
  have hobjs : ((List.range n).map fun i => (rdObj sq (if sq then m.u16 12 else 0) k sz i).run m) =
      Fld.objs m n sq k sz := List.map_congr_left fun i _ => run_rdObj m sq k sz i
  rw [← hobjs]
  cases sq
  · simp only [rdObjsUntil, Rd.run_bind, Bool.false_eq_true, if_false, Rd.mem_pure, Rd.run_pure]
    exact Rd.run_untilN (pure_rdObj false _ k sz) stop m
  · simp only [rdObjsUntil, Rd.run_bind, if_true, Rd.mem_u16, Rd.run_u16]
    exact Rd.run_untilN (pure_rdObj true _ k sz) stop m

end Reads

/-! ### The check sum of a received frame -/

/-- `for(i = …; i < lim; i++) cs_temp += buf[i]`, with `i` in a `uint8_t`; `none` when `fuel` rounds do not end
it. -/
def csLoop (lim : Nat) : Nat → UInt8 → UInt8 → Rd (Option UInt8)
  | 0, _, _ => pure none
  | fuel + 1, i, cs =>
    if i.toNat < lim then do
      let b ← Rd.octet i.toNat
      csLoop lim fuel (i + 1) (cs + b)
    else pure (some cs)

/-- The loop of `deal_68`: a counter of one octet comes to an end in 256 rounds or never. -/
def rdCs68 (len : Nat) : Rd (Option UInt8) := csLoop (len - 2) 256 4 0

theorem mem_csLoop (lim : Nat) : ∀ (fuel : Nat) (i cs : UInt8) (m : Mem), (csLoop lim fuel i cs).mem m = m
  | 0, _, _, _ => rfl
  | fuel + 1, i, cs, m => by
    rw [csLoop]
    split
    · simp only [Rd.mem_bind, Rd.mem_octet, mem_csLoop lim fuel]
    · rfl

/-- **The loop ends**, with the sum of the octets up to `lim`. -/
theorem run_csLoop {lim : Nat} (hlim : lim ≤ 255) (m : Mem) : ∀ (k fuel : Nat) (i cs : UInt8), lim - i.toNat = k →
    k < fuel → (csLoop lim fuel i cs).run m = some ((m.slice i.toNat k).foldl (· + ·) cs)
  | _, 0, _, _, _, hf => absurd hf (Nat.not_lt_zero _)
  | 0, fuel + 1, i, cs, hk, _ => by
    rw [csLoop, if_neg (by omega)]
    rfl
  | k + 1, fuel + 1, i, cs, hk, hf => by
    have hi : (i + 1).toNat = i.toNat + 1 := by
      rw [UInt8.toNat_add]
      exact Nat.mod_eq_of_lt (show i.toNat + 1 < 256 by omega)
    rw [csLoop, if_pos (by omega), Rd.run_bind, Rd.run_octet, Rd.mem_octet,
      run_csLoop hlim m k fuel (i + 1) _ (by omega) (by omega), hi, Mem.slice_succ, List.foldl_cons]

/-- **Past an octet the loop does not end**, however long it runs. -/
theorem run_csLoop_eq_none {lim : Nat} (hlim : 255 < lim) (m : Mem) : ∀ (fuel : Nat) (i cs : UInt8),
    (csLoop lim fuel i cs).run m = none
  | 0, _, _ => rfl
  | fuel + 1, i, cs => by
    have hi := i.toNat_lt
    rw [csLoop, if_pos (by omega), Rd.run_bind, Rd.run_octet, Rd.mem_octet, run_csLoop_eq_none hlim m fuel]

/-- **The check sum of a received frame** of `len` octets. -/
theorem run_rdCs68 (len : Nat) (m : Mem) : (rdCs68 len).run m =
    if len ≤ 257 then some (checkSum (m.slice 4 (len - 6))) else none := by
  have h4 : (4 : UInt8).toNat = 4 := rfl
  split
  · rw [rdCs68, run_csLoop (by omega) m (len - 6) 256 4 0 (by rw [h4]; omega) (by omega)]
    rfl
  · exact run_csLoop_eq_none (by omega) m 256 4 0

end Wow.Iec101
