import Wow.Iec104.Loop

/-!
# Wow.Iec104.Objects — an I-frame in a receive buffer, field by field

What a builder writes is what a parser reads: `inBuf stale sn h info` is a receive buffer after the read of
the I-frame `mkI sn h info`, whatever an earlier read left behind it.

* the fields of the head (`sendSn_inBuf` … `addr_inBuf`) and the octets behind it (`slice_inBuf`);
* `objs_encObjs`, `objs_encSeq`: the objects of a frame with `SQ=0` and of one with `SQ=1`.
-/

namespace Wow

/-! ### Chunks of equal length -/

theorem Mem.slice_append (m : Mem) (p a b : Nat) : m.slice p (a + b) = m.slice p a ++ m.slice (p + a) b := by
  induction a generalizing p with
  | zero => simp
  | succ a ih =>
    rw [show a + 1 + b = (a + b) + 1 by omega, Mem.slice_succ, ih, Mem.slice_succ, List.cons_append,
      show p + (a + 1) = p + 1 + a by omega]

/-- A window of a window. -/
theorem Mem.slice_sub {m : Mem} {p j n l : Nat} (h : j + n ≤ l) :
    m.slice (p + j) n = ((m.slice p l).drop j).take n := by
  obtain ⟨r, rfl⟩ : ∃ r, l = j + (n + r) := ⟨l - (j + n), by omega⟩
  rw [Mem.slice_append, Mem.slice_append m (p + j), List.drop_left' (by simp), List.take_left' (by simp)]

/-- The `i`-th chunk. -/
theorem chunk_flatMap {α β : Type} {f : α → List β} {k : Nat} :
    ∀ (l : List α) (i : Nat) (hi : i < l.length), (∀ x ∈ l, (f x).length = k) →
      ((l.flatMap f).drop (i * k)).take k = f l[i]
  | x :: l, 0, _, hf => by
    have hx : (f x).length = k := hf x (by simp)
    simp [← hx]
  | x :: l, i + 1, hi, hf => by
    have hx : (f x).length = k := hf x (by simp)
    have ih := chunk_flatMap l i (by simpa using hi) fun y hy => hf y (by simp [hy])
    rw [List.flatMap_cons, show (i + 1) * k = (f x).length + i * k by rw [hx, Nat.succ_mul]; omega,
      ← List.drop_drop, List.drop_left, List.getElem_cons_succ]
    exact ih

theorem length_flatMap_of_const {α β : Type} {f : α → List β} {k : Nat} :
    ∀ (l : List α), (∀ x ∈ l, (f x).length = k) → (l.flatMap f).length = l.length * k
  | [], _ => by simp
  | x :: l, hf => by
    rw [List.flatMap_cons, List.length_append, hf x (by simp),
      length_flatMap_of_const l fun y hy => hf y (by simp [hy]), List.length_cons, Nat.succ_mul]
    omega

/-- A memory made of chunks. -/
theorem Mem.slice_mul (m : Mem) (p k : Nat) : ∀ n, m.slice p (n * k) =
    (List.range n).flatMap fun i => m.slice (p + i * k) k
  | 0 => by simp
  | n + 1 => by
    rw [Nat.succ_mul, Mem.slice_append, Mem.slice_mul m p k n, List.range_succ, List.flatMap_append]
    simp

namespace Iec104

open Iec10x

/-! ### The head -/

/-- A receive buffer after the read of an I-frame. -/
def inBuf (stale : Mem) (sn : Sn) (h : AsduHead) (info : List UInt8) : Mem := stale.fill (mkI sn h info).buf

section Head

variable (stale : Mem) (sn : Sn) (h : AsduHead) (info : List UInt8)

/-- The six octets of the APCI and the six of the ASDU head. -/
def mkHead (sn : Sn) (h : AsduHead) (info : List UInt8) : List UInt8 :=
  [headOctet, UInt8.ofNat (2 + (ctrlI sn.buildSend sn.buildRecv).length + (h.octets ++ info).length) - 2] ++
    ctrlI sn.buildSend sn.buildRecv ++ h.octets

theorem mkI_buf : (mkI sn h info).buf = mkHead sn h info ++ info := rfl

@[simp] theorem length_mkHead : (mkHead sn h info).length = 12 := rfl

theorem length_mkI : (mkI sn h info).buf.length = 12 + info.length := by
  rw [mkI_buf, List.length_append, length_mkHead]

theorem len_mkI : (mkI sn h info).len = (UInt8.ofNat (12 + info.length)).toNat := by
  show (UInt8.ofNat (2 + (ctrlI sn.buildSend sn.buildRecv).length + (h.octets ++ info).length)).toNat = _
  rw [List.length_append]
  simp only [ctrlI, sn15, List.cons_append, List.nil_append, List.length_cons, List.length_nil,
    AsduHead.length_octets]
  congr 2
  omega

/-- The length octet, with its wrap. -/
theorem lenAt_inBuf : lenAt (inBuf stale sn h info) 0 = (UInt8.ofNat (12 + info.length) - 2).toNat + 2 := by
  have e : inBuf stale sn h info 1 = UInt8.ofNat (2 + (ctrlI sn.buildSend sn.buildRecv).length +
      (h.octets ++ info).length) - 2 := rfl
  rw [lenAt, Nat.zero_add, e]
  have hn : 2 + (ctrlI sn.buildSend sn.buildRecv).length + (h.octets ++ info).length = 12 + info.length := by
    simp only [ctrlI, sn15, List.cons_append, List.nil_append, List.length_append, List.length_cons,
      List.length_nil, AsduHead.length_octets]
    omega
  rw [hn]

theorem lenAt_inBuf_of_le (hle : 12 + info.length ≤ 255) :
    lenAt (inBuf stale sn h info) 0 = 12 + info.length := by
  rw [lenAt_inBuf, UInt8.toNat_sub]
  simp only [UInt8.toNat_ofNat', UInt8.reduceToNat]
  omega

theorem format_inBuf : (inBuf stale sn h info 2).toNat % 2 = 0 := by
  have e : inBuf stale sn h info 2 = UInt8.ofNat (2 * (sn.buildSend % 32768) % 256) := rfl
  rw [e, UInt8.toNat_ofNat']
  omega

theorem sendSn_inBuf : Fld.sendSn (inBuf stale sn h info) 0 = sn.buildSend % 32768 := by
  have e : Fld.sendSn (inBuf stale sn h info) 0 = (UInt8.ofNat (2 * (sn.buildSend % 32768) % 256)).toNat / 2 +
      128 * (UInt8.ofNat (2 * (sn.buildSend % 32768) / 256)).toNat := rfl
  rw [e]
  simp only [UInt8.toNat_ofNat']
  omega

theorem recvSn_inBuf : Fld.recvSn (inBuf stale sn h info) 0 = sn.buildRecv % 32768 := by
  have e : Fld.recvSn (inBuf stale sn h info) 0 = (UInt8.ofNat (2 * (sn.buildRecv % 32768) % 256)).toNat / 2 +
      128 * (UInt8.ofNat (2 * (sn.buildRecv % 32768) / 256)).toNat := rfl
  rw [e]
  simp only [UInt8.toNat_ofNat']
  omega

theorem type_inBuf : inBuf stale sn h info 6 = h.type := rfl

theorem num_inBuf : Fld.num (inBuf stale sn h info) 0 = h.num % 128 := by
  have e : Fld.num (inBuf stale sn h info) 0 =
      (UInt8.ofNat (h.num % 128 + if h.sq then 128 else 0)).toNat % 128 := rfl
  rw [e, UInt8.toNat_ofNat']
  split <;> omega

theorem sq_inBuf : Fld.sq (inBuf stale sn h info) 0 = h.sq := by
  have e : Fld.sq (inBuf stale sn h info) 0 =
      decide (128 ≤ (UInt8.ofNat (h.num % 128 + if h.sq then 128 else 0)).toNat) := rfl
  rw [e, UInt8.toNat_ofNat']
  cases h.sq <;> simp <;> omega

theorem reason_inBuf : Fld.reason (inBuf stale sn h info) 0 = h.reason % 16384 := by
  have e : Fld.reason (inBuf stale sn h info) 0 =
      (UInt8.ofNat (h.reason % 256)).toNat + 256 * ((UInt8.ofNat (h.reason / 256 % 64)).toNat % 64) := rfl
  rw [e]
  simp only [UInt8.toNat_ofNat']
  omega

theorem addr_inBuf : (inBuf stale sn h info).u16 10 = h.addr := u16_of_octets h.addr

theorem slice_inBuf {a n : Nat} (hn : a + n ≤ info.length) :
    (inBuf stale sn h info).slice (12 + a) n = (info.drop a).take n := by
  rw [inBuf, Mem.slice_fill (by rw [length_mkI]; omega), mkI_buf, ← List.drop_drop]
  congr 2

/-- What reaches the link: the length is one octet. -/
theorem length_wire : (mkI sn h info).wire.length = (12 + info.length) % 256 := by
  rw [SendBuf.wire, List.length_take, length_mkI, len_mkI, UInt8.toNat_ofNat']
  exact Nat.min_eq_left (Nat.mod_le _ _)

/-- What reaches the peer is the start of the frame. -/
theorem fill_wire_lt {i : Nat} (hi : i < (mkI sn h info).wire.length) :
    stale.fill (mkI sn h info).wire i = inBuf stale sn h info i := by
  have hlt : i < (mkI sn h info).buf.length := by
    rw [SendBuf.wire, List.length_take] at hi
    omega
  rw [inBuf, Mem.fill_of_lt hi, Mem.fill_of_lt hlt]
  exact List.getElem_take

end Head

/-! ### A frame that fits its buffer -/

section Fits

variable (sn : Sn) (h : AsduHead) {info : List UInt8} (hle : 12 + info.length ≤ 255)
include hle

theorem wire_mkI : (mkI sn h info).wire = (mkI sn h info).buf := by
  rw [SendBuf.wire, len_mkI, UInt8.toNat_ofNat']
  refine List.take_of_length_le ?_
  rw [length_mkI]
  omega

theorem length_wire_mkI : (mkI sn h info).wire.length = 12 + info.length := by
  rw [wire_mkI sn h hle, length_mkI]

theorem fill_wire_mkI (stale : Mem) : stale.fill (mkI sn h info).wire = inBuf stale sn h info := by
  rw [wire_mkI sn h hle, inBuf]

theorem takes_inBuf (stale : Mem) : takes (inBuf stale sn h info) (12 + info.length) 0 :=
  ⟨rfl, by simp only [headLen]; omega⟩

/-- One frame, one dispatch of an I-frame. -/
theorem frameParse_mkI {σ : Type} (dispatch : σ → Nat → Nat → Rd (σ × List Act)) (stale : Mem) (s : σ) :
    (frameParse dispatch (12 + info.length) s).run (inBuf stale sn h info) =
        (((dispatch s 0 (12 + info.length)).run (inBuf stale sn h info)).1,
          .rx (mkI sn h info).wire :: ((dispatch s 0 (12 + info.length)).run (inBuf stale sn h info)).2) ∧
      (frameParse dispatch (12 + info.length) s).mem (inBuf stale sn h info) =
        (dispatch s 0 (12 + info.length)).mem (inBuf stale sn h info) := by
  have hlen := lenAt_inBuf_of_le stale sn h info hle
  have hs : (inBuf stale sn h info).slice 0 (12 + info.length) = (mkI sn h info).wire := by
    rw [inBuf, Mem.slice_fill (by rw [length_mkI]; omega), List.drop_zero, wire_mkI sn h hle]
    exact List.take_of_length_le (Nat.le_of_eq (length_mkI sn h info))
  have := frameParse_single dispatch (by omega) (takes_inBuf sn h hle stale) (Nat.le_of_eq hlen.symm) s
  rw [hlen, hs] at this
  exact this

end Fits

/-! ### Objects -/

theorem infoAddr_of_slice {m : Mem} {q a : Nat} (h : m.slice q 3 = infoAddr a) (ha : a < 16777216) :
    Fld.infoAddr m q = a := by
  have h3 : m.slice q 3 = [m q, m (q + 1), m (q + 2)] := rfl
  rw [h3, infoAddr] at h
  obtain ⟨h0, h1, h2⟩ : m q = _ ∧ m (q + 1) = _ ∧ m (q + 2) = _ := by simpa using h
  rw [Fld.infoAddr, h0, h1, h2]
  simp only [UInt8.toNat_ofNat']
  omega

/-- Objects with addresses of their own. -/
def encObjs (objs : List (UInt16 × List UInt8)) : List UInt8 := objs.flatMap fun o => infoAddr o.1.toNat ++ o.2

/-- Elements behind one address. -/
def encSeq (base : UInt16) (elems : List (List UInt8)) : List UInt8 := infoAddr base.toNat ++ elems.flatten

theorem length_encObjs {objs : List (UInt16 × List UInt8)} {sz : Nat} (hsz : ∀ o ∈ objs, o.2.length = sz) :
    (encObjs objs).length = objs.length * (3 + sz) :=
  length_flatMap_of_const objs fun o ho => by rw [List.length_append, length_infoAddr, hsz o ho]

theorem length_encSeq {base : UInt16} {elems : List (List UInt8)} {sz : Nat}
    (hsz : ∀ e ∈ elems, e.length = sz) : (encSeq base elems).length = 3 + elems.length * sz := by
  have h := length_flatMap_of_const (f := fun e : List UInt8 => e) elems hsz
  rw [List.flatMap_id'] at h
  rw [encSeq, List.length_append, length_infoAddr, h]

section Decode

variable {m : Mem} {k sz : Nat}

theorem uint16_ofNat_infoAddr {q : Nat} {a : UInt16} (h : m.slice q 3 = infoAddr a.toNat) :
    UInt16.ofNat (Fld.infoAddr m q) = a := by
  have ha := a.toNat_lt
  rw [infoAddr_of_slice h (by omega), UInt16.ofNat_toNat]

/-- **Objects with their own addresses** are read back. -/
theorem objs_encObjs {objs : List (UInt16 × List UInt8)}
    (hm : m.slice 12 (encObjs objs).length = encObjs objs) (hsz : ∀ o ∈ objs, o.2.length = sz) (hk : k ≤ sz) :
    Fld.objs m 0 objs.length false k sz = objs.map fun o => (o.1, o.2.take k) := by
  have hlen : ∀ o ∈ objs, (infoAddr o.1.toNat ++ o.2).length = 3 + sz := fun o ho => by
    rw [List.length_append, length_infoAddr, hsz o ho]
  apply List.ext_getElem
  · simp [Fld.objs]
  · intro i h1 h2
    have hi : i < objs.length := by simpa using h2
    have hle : i * (3 + sz) + (3 + sz) ≤ (encObjs objs).length := by
      rw [length_encObjs hsz, ← Nat.succ_mul]
      exact Nat.mul_le_mul_right _ hi
    have hchunk : m.slice (12 + i * (3 + sz)) (3 + sz) = infoAddr objs[i].1.toNat ++ objs[i].2 := by
      rw [Mem.slice_sub hle, hm]
      exact chunk_flatMap objs i hi hlen
    rw [Mem.slice_append] at hchunk
    obtain ⟨ha, he⟩ := List.append_inj hchunk (by simp)
    have hk' : m.slice (12 + i * (3 + sz) + 3) k = objs[i].2.take k := by
      rw [← he]
      exact Mem.slice_sub (p := 12 + i * (3 + sz) + 3) (j := 0) (by omega)
    simp only [Fld.objs, List.getElem_map, List.getElem_range, Fld.obj, Bool.false_eq_true, if_false,
      Nat.zero_add, uint16_ofNat_infoAddr ha]
    rw [show 15 + i * (3 + sz) = 12 + i * (3 + sz) + 3 by omega, hk']

/-- **Elements behind one address** are read back, with the addresses that follow it. -/
theorem objs_encSeq {base : UInt16} {elems : List (List UInt8)}
    (hm : m.slice 12 (encSeq base elems).length = encSeq base elems) (hsz : ∀ e ∈ elems, e.length = sz)
    (hk : k ≤ sz) : Fld.objs m 0 elems.length true k sz =
      elems.mapIdx fun i e => (base + UInt16.ofNat i, e.take k) := by
  have hlen : (encSeq base elems).length = 3 + elems.length * sz := length_encSeq hsz
  have ha : m.slice 12 3 = infoAddr base.toNat := by
    have h := Mem.slice_sub (m := m) (p := 12) (j := 0) (n := 3) (l := (encSeq base elems).length) (by omega)
    rw [hm] at h
    exact h.trans (List.take_left' rfl)
  apply List.ext_getElem
  · simp [Fld.objs]
  · intro i h1 h2
    have hi : i < elems.length := by simpa using h2
    have hle : 3 + i * sz + sz ≤ (encSeq base elems).length := by
      rw [hlen, Nat.add_assoc, ← Nat.succ_mul]
      exact Nat.add_le_add_left (Nat.mul_le_mul_right _ hi) 3
    have hchunk : m.slice (15 + i * sz) sz = elems[i] := by
      have h := chunk_flatMap (f := fun e : List UInt8 => e) elems i hi hsz
      rw [List.flatMap_id'] at h
      rw [show 15 + i * sz = 12 + (3 + i * sz) by omega, Mem.slice_sub hle, hm, encSeq, ← List.drop_drop,
        List.drop_left' (by simp), h]
    have hk' : m.slice (15 + i * sz) k = elems[i].take k := by
      rw [← hchunk]
      exact Mem.slice_sub (p := 15 + i * sz) (j := 0) (by omega)
    simp only [Fld.objs, List.getElem_map, List.getElem_range, Fld.obj, if_true, Nat.zero_add,
      uint16_ofNat_infoAddr ha, hk', List.getElem_mapIdx]

end Decode

/-! ### Objects of a window -/

/-- The octets behind an ASDU head, in place. -/
def infoMem (info : List UInt8) : Mem := fun i => info.getD (i - 12) 0

/-- The objects `info` holds. -/
def objsIn (n : Nat) (sq : Bool) (sz : Nat) (info : List UInt8) : List (UInt16 × List UInt8) :=
  Fld.objs (infoMem info) 0 n sq sz sz

theorem slice_infoMem (info : List UInt8) : (infoMem info).slice 12 info.length = info := by
  apply List.ext_getElem
  · simp
  · intro i h1 h2
    rw [Mem.getElem_slice, infoMem, Nat.add_sub_cancel_left]
    simp [h2]

theorem infoAddr_congr {m m' : Mem} {q q' : Nat} (h : m.slice q 3 = m'.slice q' 3) :
    Fld.infoAddr m q = Fld.infoAddr m' q' := by
  have e : ∀ (x : Mem) (r : Nat), x.slice r 3 = [x r, x (r + 1), x (r + 2)] := fun _ _ => rfl
  rw [e, e] at h
  obtain ⟨h0, h1, h2⟩ : m q = m' q' ∧ m (q + 1) = m' (q' + 1) ∧ m (q + 2) = m' (q' + 2) := by simpa using h
  rw [Fld.infoAddr, Fld.infoAddr, h0, h1, h2]

/-- **The objects are a matter of their window.** -/
theorem objs_congr {m m' : Mem} {p p' n k sz : Nat} {sq : Bool} (hk : k ≤ sz)
    (h : m.slice (p + 12) (objsLen n sq sz) = m'.slice (p' + 12) (objsLen n sq sz)) :
    Fld.objs m p n sq k sz = Fld.objs m' p' n sq k sz := by
  have hwin : ∀ j l, j + l ≤ objsLen n sq sz → m.slice (p + 12 + j) l = m'.slice (p' + 12 + j) l :=
    fun j l hl => by rw [Mem.slice_sub hl, Mem.slice_sub hl, h]
  refine List.map_congr_left fun i hi => ?_
  have hi' : i + 1 ≤ n := List.mem_range.mp hi
  cases sq with
  | true =>
    have hle : i * sz + sz ≤ n * sz := by
      rw [← Nat.succ_mul]
      exact Nat.mul_le_mul_right _ hi'
    have ha := infoAddr_congr (hwin 0 3 (by simp only [objsLen, if_true]; omega))
    have he := hwin (3 + i * sz) k (by simp only [objsLen, if_true]; omega)
    simp only [Fld.obj, if_true]
    rw [show p + 15 + i * sz = p + 12 + (3 + i * sz) by omega,
      show p' + 15 + i * sz = p' + 12 + (3 + i * sz) by omega, he]
    exact congrArg (fun a => (UInt16.ofNat a + _, _)) ha
  | false =>
    have hle : i * (3 + sz) + (3 + sz) ≤ n * (3 + sz) := by
      rw [← Nat.succ_mul]
      exact Nat.mul_le_mul_right _ hi'
    have ha := infoAddr_congr (hwin (i * (3 + sz)) 3 (by simp only [objsLen, Bool.false_eq_true, if_false]; omega))
    have he := hwin (i * (3 + sz) + 3) k (by simp only [objsLen, Bool.false_eq_true, if_false]; omega)
    simp only [Fld.obj, Bool.false_eq_true, if_false]
    rw [show p + 15 + i * (3 + sz) = p + 12 + (i * (3 + sz) + 3) by omega,
      show p' + 15 + i * (3 + sz) = p' + 12 + (i * (3 + sz) + 3) by omega, he, ha]

theorem objs_eq_objsIn {m : Mem} {p n sz : Nat} {sq : Bool} {info : List UInt8}
    (h : m.slice (p + 12) (objsLen n sq sz) = info) : Fld.objs m p n sq sz sz = objsIn n sq sz info := by
  have hlen : info.length = objsLen n sq sz := by rw [← h, Mem.length_slice]
  refine objs_congr (Nat.le_refl sz) ?_
  rw [h, Nat.zero_add, ← hlen, slice_infoMem]

theorem objsIn_encObjs {objs : List (UInt16 × List UInt8)} {sz : Nat} (hsz : ∀ o ∈ objs, o.2.length = sz) :
    objsIn objs.length false sz (encObjs objs) = objs := by
  rw [objsIn, objs_encObjs (slice_infoMem _) hsz (Nat.le_refl sz)]
  refine (List.map_congr_left fun o ho => ?_).trans (List.map_id objs)
  rw [← hsz o ho, List.take_length]
  rfl

end Iec104

end Wow
