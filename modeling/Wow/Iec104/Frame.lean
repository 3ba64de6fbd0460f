import Wow.Lib.Rd
import Wow.Iec10x.Base

/-!
# Wow.Iec104.Frame — APDUs of IEC 60870-5-104 as the two stations build and take them

`iec104_base.h`, the head and length code that every builder repeats, the fields a parser reads, and the
loop of `frame_parse`, which is one text in `wow_iec104s.c` and `wow_iec104m.c`.

* Building: `mkFrame` of the control octets and the ASDU; the pointer difference `ptr - send_buf` and the
  length octet live in `uint8_t`.
* Reading: `rd…` are the reads of the code, `Fld.…` the values they have on a buffer.
* `frameLoop` walks the received buffer and hands every frame to `dispatch`.
-/

namespace Wow.Iec104

open Iec10x

/-! ### Constants -/

/-- `IEC104_HEAD`. -/
def headOctet : UInt8 := 0x68

/-- `IEC104_HEAD_LEN`: head, length and the four control octets. -/
def headLen : Nat := 6

/-- `IEC104_MAX_BUF_LEN`. -/
def maxBufLen : Nat := 256

/-! `IEC104_U_FUNC_…`, the first control octet of a U-frame. -/

namespace UFunc

def startdt : UInt8 := 0x07
def stopdt : UInt8 := 0x13
def tester : UInt8 := 0x43
def startdtAck : UInt8 := 0x0b
def stopdtAck : UInt8 := 0x23
def testerAck : UInt8 := 0x83

end UFunc

/-- `Iec104Sn_T`: plain `int` counters. -/
structure Sn where
  buildSend : Nat
  buildRecv : Nat
  dealSend : Int
  dealRecv : Int
  deriving DecidableEq, Repr

/-! ### Building -/

/-- A 15-bit number behind the format bit of its octet pair. -/
def sn15 (n : Nat) : List UInt8 := [UInt8.ofNat (2 * (n % 32768) % 256), UInt8.ofNat (2 * (n % 32768) / 256)]

/-- `Iec104CtrlI_T`. -/
def ctrlI (send recv : Nat) : List UInt8 := sn15 send ++ sn15 recv

/-- `Iec104CtrlS_T`. -/
def ctrlS (recv : Nat) : List UInt8 := [1, 0] ++ sn15 recv

/-- `Iec104CtrlFunc_T`. -/
def ctrlU (func : UInt8) : List UInt8 := [func, 0, 0, 0]

/-- `Iec104Asdu_T` without its information objects; `num` and `reason` are the values the code assigns to
the 7-bit and the 14-bit field. -/
structure AsduHead where
  type : UInt8
  sq : Bool
  num : Nat
  reason : Nat
  addr : UInt16
  deriving DecidableEq, Repr

/-- The six octets of the head, the bit fields truncated. -/
def AsduHead.octets (h : AsduHead) : List UInt8 :=
  [h.type, UInt8.ofNat (h.num % 128 + if h.sq then 128 else 0),
    UInt8.ofNat (h.reason % 256), UInt8.ofNat (h.reason / 256 % 64)] ++ leU16 h.addr

@[simp] theorem AsduHead.length_octets (h : AsduHead) : h.octets.length = 6 := rfl

/-- `memcpy(ptr, &addr, 3)`. -/
def infoAddr (addr : Nat) : List UInt8 :=
  [UInt8.ofNat (addr % 256), UInt8.ofNat (addr / 256 % 256), UInt8.ofNat (addr / 65536 % 256)]

@[simp] theorem length_infoAddr (a : Nat) : (infoAddr a).length = 3 := rfl

/-- The end of every builder: `len = ptr - send_buf` and `Len = len - 2`, both `uint8_t`. -/
def mkFrame (ctrl asdu : List UInt8) : SendBuf :=
  let len := UInt8.ofNat (2 + ctrl.length + asdu.length)
  { buf := headOctet :: (len - 2) :: (ctrl ++ asdu), len := len.toNat }

/-- An I-frame with the head and the information objects of an ASDU. -/
def mkI (sn : Sn) (h : AsduHead) (info : List UInt8) : SendBuf :=
  mkFrame (ctrlI sn.buildSend sn.buildRecv) (h.octets ++ info)

/-- `sn.build_send++`. -/
def Sn.next (sn : Sn) : Sn := { sn with buildSend := sn.buildSend + 1 }

/-! ### Reading -/

/-! The values of the fields of the frame at `p`. -/

namespace Fld

def sendSn (m : Mem) (p : Nat) : Nat := (m (p + 2)).toNat / 2 + 128 * (m (p + 3)).toNat
def recvSn (m : Mem) (p : Nat) : Nat := (m (p + 4)).toNat / 2 + 128 * (m (p + 5)).toNat
def num (m : Mem) (p : Nat) : Nat := (m (p + 7)).toNat % 128
def sq (m : Mem) (p : Nat) : Bool := decide (128 ≤ (m (p + 7)).toNat)
def reason (m : Mem) (p : Nat) : Nat := (m (p + 8)).toNat + 256 * ((m (p + 9)).toNat % 64)
def infoAddr (m : Mem) (q : Nat) : Nat := (m q).toNat + 256 * (m (q + 1)).toNat + 65536 * (m (q + 2)).toNat

end Fld

/-- `Ctrl.I.SendSn`. -/
def rdSendSn (p : Nat) : Rd Nat := do
  let lo ← Rd.octet (p + 2)
  let hi ← Rd.octet (p + 3)
  pure (lo.toNat / 2 + 128 * hi.toNat)

/-- `Ctrl.I.RecvSn`. -/
def rdRecvSn (p : Nat) : Rd Nat := do
  let lo ← Rd.octet (p + 4)
  let hi ← Rd.octet (p + 5)
  pure (lo.toNat / 2 + 128 * hi.toNat)

/-- `_type`. -/
def rdType (p : Nat) : Rd UInt8 := Rd.octet (p + 6)

/-- `_num._num`. -/
def rdNum (p : Nat) : Rd Nat := do
  let b ← Rd.octet (p + 7)
  pure (b.toNat % 128)

/-- `_num._sq`. -/
def rdSq (p : Nat) : Rd Bool := do
  let b ← Rd.octet (p + 7)
  pure (decide (128 ≤ b.toNat))

/-- `_reason._reason`. -/
def rdReason (p : Nat) : Rd Nat := do
  let lo ← Rd.octet (p + 8)
  let hi ← Rd.octet (p + 9)
  pure (lo.toNat + 256 * (hi.toNat % 64))

/-- `memcpy(&addr, ptr, 3)`. -/
def rdInfoAddr (q : Nat) : Rd Nat := do
  let a ← Rd.octet q
  let b ← Rd.octet (q + 1)
  let c ← Rd.octet (q + 2)
  pure (a.toNat + 256 * b.toNat + 65536 * c.toNat)

/-- The `i`-th information object of the ASDU at `p`, of elements of `sz` octets of which the first `k` are
read: under `SQ=1` the elements follow one information address, `base`, under `SQ=0` each has its own. -/
def rdObj (p : Nat) (sq : Bool) (base k sz i : Nat) : Rd (UInt16 × List UInt8) :=
  if sq then do
    let e ← Rd.octets (p + 15 + i * sz) k
    pure (UInt16.ofNat base + UInt16.ofNat i, e)
  else do
    let a ← rdInfoAddr (p + 12 + i * (3 + sz))
    let e ← Rd.octets (p + 15 + i * (3 + sz)) k
    pure (UInt16.ofNat a, e)

/-- The information address in front of the elements under `SQ=1`. -/
def rdBase (p : Nat) (sq : Bool) : Rd Nat := if sq then rdInfoAddr (p + 12) else pure 0

/-- The element loop of the handlers. -/
def rdObjs (p n : Nat) (sq : Bool) (k sz : Nat) : Rd (List (UInt16 × List UInt8)) := do
  let base ← rdBase p sq
  Rd.forN n (rdObj p sq base k sz)

/-- The octets `n` objects take behind the ASDU head. -/
def objsLen (n : Nat) (sq : Bool) (sz : Nat) : Nat := if sq then 3 + n * sz else n * (3 + sz)

namespace Fld

/-- The `i`-th information object. -/
def obj (m : Mem) (p : Nat) (sq : Bool) (k sz i : Nat) : UInt16 × List UInt8 :=
  if sq then (UInt16.ofNat (infoAddr m (p + 12)) + UInt16.ofNat i, m.slice (p + 15 + i * sz) k)
  else (UInt16.ofNat (infoAddr m (p + 12 + i * (3 + sz))), m.slice (p + 15 + i * (3 + sz)) k)

/-- The information objects of the ASDU at `p`. -/
def objs (m : Mem) (p n : Nat) (sq : Bool) (k sz : Nat) : List (UInt16 × List UInt8) :=
  (List.range n).map (obj m p sq k sz)

end Fld

section Reads

variable (p : Nat) (m : Mem)

@[simp] theorem run_rdSendSn : (rdSendSn p).run m = Fld.sendSn m p := rfl
@[simp] theorem run_rdRecvSn : (rdRecvSn p).run m = Fld.recvSn m p := rfl
@[simp] theorem run_rdType : (rdType p).run m = m (p + 6) := rfl
@[simp] theorem run_rdNum : (rdNum p).run m = Fld.num m p := rfl
@[simp] theorem run_rdSq : (rdSq p).run m = Fld.sq m p := rfl
@[simp] theorem run_rdReason : (rdReason p).run m = Fld.reason m p := rfl
@[simp] theorem run_rdInfoAddr : (rdInfoAddr p).run m = Fld.infoAddr m p := rfl

@[simp] theorem mem_rdSendSn : (rdSendSn p).mem m = m := rfl
@[simp] theorem mem_rdRecvSn : (rdRecvSn p).mem m = m := rfl
@[simp] theorem mem_rdType : (rdType p).mem m = m := rfl
@[simp] theorem mem_rdNum : (rdNum p).mem m = m := rfl
@[simp] theorem mem_rdSq : (rdSq p).mem m = m := rfl
@[simp] theorem mem_rdReason : (rdReason p).mem m = m := rfl
@[simp] theorem mem_rdInfoAddr : (rdInfoAddr p).mem m = m := rfl

@[simp] theorem reads_rdSendSn : (rdSendSn p).reads m = [p + 2, p + 3] := rfl
@[simp] theorem reads_rdRecvSn : (rdRecvSn p).reads m = [p + 4, p + 5] := rfl
@[simp] theorem reads_rdType : (rdType p).reads m = [p + 6] := rfl
@[simp] theorem reads_rdNum : (rdNum p).reads m = [p + 7] := rfl
@[simp] theorem reads_rdSq : (rdSq p).reads m = [p + 7] := rfl
@[simp] theorem reads_rdReason : (rdReason p).reads m = [p + 8, p + 9] := rfl
@[simp] theorem reads_rdInfoAddr : (rdInfoAddr p).reads m = [p, p + 1, p + 2] := rfl

variable (sq : Bool) (base k sz n : Nat)

theorem pure_rdObj (i : Nat) : (rdObj p sq base k sz i).Pure := by
  intro m
  cases sq <;> simp [rdObj]

@[simp] theorem mem_rdBase : (rdBase p sq).mem m = m := by cases sq <;> rfl

@[simp] theorem mem_rdObjs : (rdObjs p n sq k sz).mem m = m := by
  simp only [rdObjs, Rd.mem_bind, mem_rdBase]
  exact Rd.mem_forN (pure_rdObj p sq _ k sz) m

@[simp] theorem run_rdObjs : (rdObjs p n sq k sz).run m = Fld.objs m p n sq k sz := by
  simp only [rdObjs, Rd.run_bind, mem_rdBase]
  rw [Rd.run_forN (pure_rdObj p sq _ k sz)]
  refine List.map_congr_left fun i _ => ?_
  cases sq <;> simp [rdObj, rdBase, Fld.obj]

/-- The reads of the element loop: the address in front under `SQ=1`, and every object. -/
theorem mem_reads_rdObjs {j : Nat} : j ∈ (rdObjs p n sq k sz).reads m ↔
    (sq = true ∧ p + 12 ≤ j ∧ j < p + 15) ∨
      ∃ i < n, (sq = false ∧ p + 12 + i * (3 + sz) ≤ j ∧ j < p + 15 + i * (3 + sz)) ∨
        (p + 15 + i * (if sq then sz else 3 + sz) ≤ j ∧ j < p + 15 + i * (if sq then sz else 3 + sz) + k) := by
  simp only [rdObjs, Rd.reads_bind, mem_rdBase, List.mem_append]
  rw [Rd.mem_reads_forN (pure_rdObj p sq _ k sz)]
  cases sq
  · simp only [rdBase, rdObj, Bool.false_eq_true, if_false, Rd.reads_pure, List.not_mem_nil, false_or,
      false_and, true_and, Rd.reads_bind, reads_rdInfoAddr, mem_rdInfoAddr, Rd.reads_pure, List.mem_append,
      List.mem_cons, or_false, Rd.mem_reads_octets]
    refine exists_congr fun i => and_congr_right fun _ => or_congr_left ?_
    omega
  · simp only [rdBase, rdObj, if_true, reads_rdInfoAddr, List.mem_cons, List.not_mem_nil, or_false, true_and,
      Bool.true_eq_false, false_and, false_or, Rd.reads_bind, Rd.reads_pure, List.append_nil,
      Rd.mem_reads_octets]
    refine or_congr_left ?_
    omega

end Reads

/-! ### The frame loop -/

/-- `LenRemain >= IEC104_HEAD_LEN`: an `int16_t` against a `size_t`, so a negative `LenRemain` passes. -/
def headFits (lenRemain : Int) : Bool := decide (lenRemain < 0 ∨ (headLen : Int) ≤ lenRemain)

/-- `int16_t` arithmetic. -/
def int16 (x : Int) : Int := x.bmod 65536

/-- `iec104_s_frame_parse`, `iec104_m_frame_parse`: the loop over the `len` received octets, at `BufTemp =
buf + p` with `lenRemain` to go.  `dispatch` is given the state, the offset of the frame and `LenTmp`.  The
trace gets, for each frame, the received octets it is made of. -/
def frameLoop {σ : Type} (dispatch : σ → Nat → Nat → Rd (σ × List Act)) (len : Nat) :
    Nat → Nat → Int → σ → Rd (σ × List Act)
  | 0, _, _, s => pure (s, [])
  | fuel + 1, p, lenRemain, s =>
    if p < len then do
      let head ← Rd.octet p
      if head = headOctet then do
        let l ← Rd.octet (p + 1)
        let lenTmp := l.toNat + 2
        if headFits lenRemain then do
          let apdu ← Rd.octets p (min lenTmp (len - p))
          let r ← dispatch s p lenTmp
          let rest ← frameLoop dispatch len fuel (p + lenTmp) (int16 (lenRemain - lenTmp)) r.1
          pure (rest.1, .rx apdu :: r.2 ++ rest.2)
        else pure (s, [])
      else pure (s, [])
    else pure (s, [])

/-- The call of the loop; every frame takes at least two octets, so `len` rounds are enough. -/
def frameParse {σ : Type} (dispatch : σ → Nat → Nat → Rd (σ × List Act)) (len : Nat) (s : σ) :
    Rd (σ × List Act) :=
  frameLoop dispatch len len 0 (int16 len) s

theorem int16_sub (x y : Int) : int16 (int16 x - y) = int16 (x - y) := by simp [int16]

/-- As long as octets remain, the mixed comparison is the one meant. -/
theorem headFits_int16 {p len : Nat} (hp : p < len) (hl : len < 65536) :
    headFits (int16 (len - p)) = decide (p + headLen ≤ len) := by
  have h : (int16 (len - p) < 0 ∨ (headLen : Int) ≤ int16 (len - p)) ↔ p + headLen ≤ len := by
    rw [int16, Int.bmod_def, headLen]
    split <;> omega
  simp only [headFits, h]

end Wow.Iec104
