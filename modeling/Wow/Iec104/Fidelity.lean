import Mathlib.Algebra.Order.BigOperators.Group.List
import Mathlib.Algebra.Order.Ring.Nat
import Wow.Iec104.CallEnd

/-!
# Wow.Iec104.Fidelity — the values of an interrogation

The slave puts fifty nodes of a list behind the address of the first; the master counts up from there.  So a
node comes out under its own address exactly when the addresses of its group count up too, and it comes out at
all only if the group fits the length octet.

* `said_mon`: what the master reports of a monitored frame, whole or cut.
* `said_slice`: a whole frame gives the nodes of its slice, under the addresses that follow the first.
* `fidelity_iff`: when an interrogation gives each node once, with its address and its value.
-/

namespace Wow.Iec104

open Iec10x Slave

/-- A value callback without the type of the node, which is that of the frame. -/
abbrev Reading := (DevTypeMod × UInt16) × List UInt8

/-- What a value callback says. -/
def reading (v : DevNodeInfo × List UInt8) : Reading := ((v.1.mode, v.1.addr), v.2)

/-- The octets of the union that hold the value of a node. -/
def valueSize (x : DevNodeInfo) : Nat :=
  match x.mode, x.type with
  | .yx, _ => 1
  | .yc, .float => 4
  | .yc, _ => 2
  | _, _ => 4

variable {P : Type} (c : Conf P) (now : Int)

/-- The master of this station. -/
def peer : Master.Conf := ⟨c.asduAddr, true, true⟩

/-- What the master says of one message. -/
def said (t : Station) (w : List UInt8) : List Reading :=
  (values ((exchange (peer c) c now).left t w).2.2).map reading

/-- What the master says of the messages `ws`, taking in the `i`-th as `ts i`. -/
def collected (ts : Nat → Station) (ws : List (List UInt8)) : List Reading :=
  (ws.mapIdx fun i w => said c now (ts i) w).flatten

/-! ### One frame -/

section Frame

variable (t : Station) (sn : Sn) (h : AsduHead) (info : List UInt8)

/-- **A monitored frame**, whole or cut, as the buffer has it. -/
theorem said_mon {type : AsduType} {f : Master.MonFmt} (htype : h.type = type.code)
    (hf : Master.monFmt type = some f) (h9 : 9 ≤ (mkI sn h info).wire.length) {m : Mem}
    (hm : t.recvBuf.fill (mkI sn h info).wire = m) : said c now t (mkI sn h info).wire =
      if c.asduAddr = m.u16 10 ∧ Master.snOk t.core (Fld.sendSn m 0) (Fld.recvSn m 0) = true ∧
          Fld.reason m 0 ∈ Master.monReasons type then
        (Fld.objs m 0 (Fld.num m 0) (Fld.sq m 0) f.value f.size).mapIdx fun i o =>
          ((f.mode, (f.node (Fld.sq m 0) i o.1).addr), o.2)
      else [] := by
  have htype' : AsduType.ofCode (m (0 + 6)) = some type := by
    rw [Nat.zero_add, ← hm, fill_wire_lt t.recvBuf sn h info (by omega), type_inBuf, htype, AsduType.ofCode_code]
  have hvals : ∀ (sq : Bool) (objs : List (UInt16 × List UInt8)), (values (Master.valCalls (peer c) f sq objs)).map reading =
      objs.mapIdx fun i o => ((f.mode, (f.node sq i o.1).addr), o.2) := by
    intro sq objs
    have hcb : (peer c).valCb = true := rfl
    rw [Master.valCalls, if_pos hcb, values_mapIdx]
    exact List.ext_getElem (by simp) fun i h1 h2 => by simp [reading, Master.MonFmt.node]
  rw [said, left_mkI t h9, hm]
  simp only [Master.run_frameIParse, Master.run_asduParse_mon (peer c) _ 0 m htype' hf]
  by_cases ha : c.asduAddr = m.u16 10
  · have ha' : ¬ (peer c).asduAddr ≠ m.u16 (0 + 10) := not_not.mpr ha
    rw [if_neg ha']
    cases hs : Master.snOk t.core (Fld.sendSn m 0) (Fld.recvSn m 0) with
    | false =>
      rw [if_pos rfl, if_neg fun h => Bool.false_ne_true h.2.1]
      rfl
    | true =>
      rw [if_neg (by decide)]
      by_cases hr : Fld.reason m 0 ∈ Master.monReasons type
      · rw [if_pos hr, if_pos ⟨ha, rfl, hr⟩, ← hvals]
        rfl
      · rw [if_neg hr, if_neg fun h => hr h.2.2]
        rfl
  · have ha' : (peer c).asduAddr ≠ m.u16 (0 + 10) := ha
    rw [if_pos ha', if_neg fun h => ha h.1]
    rfl

/-- No more values than the frame announces. -/
theorem length_said_mon {type : AsduType} {f : Master.MonFmt} (htype : h.type = type.code)
    (hf : Master.monFmt type = some f) (h9 : 9 ≤ (mkI sn h info).wire.length) :
    (said c now t (mkI sn h info).wire).length ≤ h.num % 128 := by
  have hnum : Fld.num (t.recvBuf.fill (mkI sn h info).wire) 0 = h.num % 128 := by
    rw [← num_inBuf t.recvBuf sn h info, Fld.num, Fld.num, fill_wire_lt t.recvBuf sn h info (by omega)]
  rw [said_mon c now t sn h info htype hf h9 rfl, hnum]
  split
  · simp [Fld.objs]
  · exact Nat.zero_le _

/-- The octets of a value are octets of the buffer. -/
theorem octets_said_mon {type : AsduType} {f : Master.MonFmt} (htype : h.type = type.code)
    (hf : Master.monFmt type = some f) (h9 : 9 ≤ (mkI sn h info).wire.length) :
    ∀ r ∈ said c now t (mkI sn h info).wire, ∃ q ≥ 15,
    r.2 = (t.recvBuf.fill (mkI sn h info).wire).slice q f.value := by
  intro r hr
  rw [said_mon c now t sn h info htype hf h9 rfl] at hr
  split at hr
  · obtain ⟨i, hi, rfl⟩ := List.mem_mapIdx.mp hr
    simp only [Fld.objs, List.getElem_map, List.getElem_range, Fld.obj]
    split
    · exact ⟨_, Nat.le_add_right _ _, rfl⟩
    · exact ⟨_, Nat.le_add_right _ _, rfl⟩
  · cases hr

end Frame

/-- The master is not ahead of the numbers of a frame. -/
def Behind (t : Station) (sn : Sn) : Prop :=
  t.core.sn.dealSend ≤ (sn.buildSend % 32768 : Nat) ∧ t.core.sn.dealRecv ≤ (sn.buildRecv % 32768 : Nat)

/-- **A whole frame** of elements behind one address. -/
theorem said_encSeq {t : Station} {sn : Sn} {h : AsduHead} {base : UInt16} {elems : List (List UInt8)}
    {type : AsduType}
    {f : Master.MonFmt} (htype : h.type = type.code) (hf : Master.monFmt type = some f)
    (hr : h.reason % 16384 ∈ Master.monReasons type) (haddr : h.addr = c.asduAddr) (hsq : h.sq = true)
    (hnum : h.num % 128 = elems.length) (hsz : ∀ e ∈ elems, e.length = f.size) (hk : f.value ≤ f.size)
    (hfit : 12 + (3 + elems.length * f.size) ≤ 255) (hb : Behind t sn) :
    said c now t (mkI sn h (encSeq base elems)).wire =
      elems.mapIdx fun i e => ((f.mode, base + UInt16.ofNat i), e.take f.value) := by
  have hlen : (encSeq base elems).length = 3 + elems.length * f.size := length_encSeq hsz
  have hle : 12 + (encSeq base elems).length ≤ 255 := by rw [hlen]; exact hfit
  have hslice : (inBuf t.recvBuf sn h (encSeq base elems)).slice 12 (encSeq base elems).length = encSeq base elems :=
    (slice_inBuf t.recvBuf sn h _ (a := 0) (Nat.le_of_eq (Nat.zero_add _))).trans List.take_length
  have hok : Master.snOk t.core (sn.buildSend % 32768) (sn.buildRecv % 32768) = true := decide_eq_true hb
  rw [said_mon c now t sn h _ htype hf (by rw [length_wire_mkI sn h hle]; omega) (fill_wire_mkI sn h hle t.recvBuf),
    addr_inBuf, sendSn_inBuf, recvSn_inBuf, reason_inBuf, num_inBuf, sq_inBuf, if_pos ⟨haddr.symm, hok, hr⟩, hsq, hnum,
    objs_encSeq hslice hsz hk, List.mapIdx_mapIdx]
  simp only [Master.MonFmt.node, Bool.not_true, Bool.and_false, Bool.false_eq_true, if_false]
  rfl

/-! ### The lists of the table -/

/-- A list of the table on its way to the master: how the slave writes it down, and how the master reads it. -/
structure Part (P : Type) where
  list : List DevNodeInfo
  type : DevNodeInfo → AsduType
  elem : Conf P → Nat → DevNodeInfo → List UInt8
  reason : Nat
  fmt : Master.MonFmt
  format : ∀ x ∈ list, Master.monFmt (type x) = some fmt
  cause : ∀ x ∈ list, reason % 16384 ∈ Master.monReasons (type x)
  mode : ∀ x ∈ list, x.mode = fmt.mode
  octets : ∀ x ∈ list, valueSize x = fmt.value
  size : ∀ c i, ∀ x ∈ list, (elem c i x).length = fmt.size
  value : ∀ c v i, ∀ x ∈ list, getVal c x = some v → (elem c i x).take fmt.value = v.octets fmt.value
  pos : 0 < fmt.value
  le : fmt.value ≤ fmt.size
  small : fmt.size ≤ 5

variable (l : NodeListInfo)

def yxPart : Part P where
  list := l.yx
  type _ := .mSpNa1
  elem := yxElem
  reason := Cot.introgen
  fmt := ⟨.yx, .sint8, 1, 1, false⟩
  format _ _ := rfl
  cause _ _ := by decide
  mode := l.mode_yx
  octets x hx := by rw [valueSize, l.mode_yx x hx]
  size c i x _ := length_yxElem c i x
  value c v i x _ hv := by
    rw [yxElem, hv, DevNodeVal.octets_one]
    rfl
  pos := by decide
  le := by decide
  small := by decide

def ycNPart : Part P where
  list := l.ycN
  type x := if x.type = .float then .mMeNc1 else .mMeNa1
  elem := ycElem
  reason := Cot.introgen
  fmt := ⟨.yc, .sint16, 3, 2, true⟩
  format x hx := by
    rw [if_neg (l.type_ycN x hx)]
    rfl
  cause x hx := by
    rw [if_neg (l.type_ycN x hx)]
    decide
  mode := l.mode_ycN
  octets x hx := by
    have ht := l.type_ycN x hx
    rw [valueSize, l.mode_ycN x hx]
    cases he : x.type with
    | float => exact absurd he ht
    | _ => rfl
  size c i x hx := length_ycElem_norm c i (l.type_ycN x hx)
  value c v i x hx hv := by
    have ht := l.type_ycN x hx
    rw [ycElem, hv]
    cases he : x.type with
    | float => exact absurd he ht
    | _ => exact v.take_octets (by decide) [0]
  pos := by decide
  le := by decide
  small := by decide

def ycFPart : Part P where
  list := l.ycF
  type x := if x.type = .float then .mMeNc1 else .mMeNa1
  elem := ycElem
  reason := Cot.introgen
  fmt := ⟨.yc, .float, 5, 4, false⟩
  format x hx := by
    rw [if_pos (l.type_ycF x hx)]
    rfl
  cause x hx := by
    rw [if_pos (l.type_ycF x hx)]
    decide
  mode := l.mode_ycF
  octets x hx := by rw [valueSize, l.mode_ycF x hx, l.type_ycF x hx]
  size c i x hx := length_ycElem_float c i (l.type_ycF x hx)
  value c v i x hx hv := by
    rw [ycElem, l.type_ycF x hx, hv]
    exact v.take_octets (by decide) [0]
  pos := by decide
  le := by decide
  small := by decide

def ymPart : Part P where
  list := l.ym
  type _ := .mItNa1
  elem := ymElem
  reason := Cot.reqcogen
  fmt := ⟨.ym, .sint32, 5, 4, false⟩
  format _ _ := rfl
  cause _ _ := by decide
  mode := l.mode_ym
  octets x hx := by rw [valueSize, l.mode_ym x hx]
  size c i x _ := length_ymElem c i x
  value c v i x _ hv := by
    rw [ymElem, hv]
    exact v.take_octets (by decide) [UInt8.ofNat i]
  pos := by decide
  le := by decide
  small := by decide

/-- The lists of a general interrogation, in the order of their frames. -/
def callAllParts : List (Part P) := [yxPart l, ycNPart l, ycFPart l]

/-- The list of a counter interrogation. -/
def callPulseParts : List (Part P) := [ymPart l]

/-- The configuration with a callback that has a value for every node. -/
def withVal (g : P → DevNodeInfo → DevNodeVal) : Conf P := { c with getValCb := some fun p x => some (g p x) }

theorem getVal_withVal (g : P → DevNodeInfo → DevNodeVal) (x : DevNodeInfo) :
    getVal (withVal c g) x = some (g c.setValPriv x) := rfl

/-! ### The frames of a list -/

namespace Part

variable (part : Part P) (g : P → DevNodeInfo → DevNodeVal)

/-- The frames of the list. -/
def frames : List (AsduHead × List UInt8) := groupFrames c part.type (part.elem c) part.reason part.list

/-- The nodes of a slice, under the addresses that follow the first. -/
def counted : List DevNodeInfo → List Reading
  | [] => []
  | first :: rest => (first :: rest).mapIdx fun i x =>
      ((part.fmt.mode, first.addr + UInt16.ofNat i), (g c.setValPriv x).octets part.fmt.value)

variable {c part g} in
theorem mem_counted {ch : List DevNodeInfo} {r : Reading} (hr : r ∈ part.counted c g ch) :
    ∃ y a, y ∈ ch ∧ r = (a, (g c.setValPriv y).octets part.fmt.value) := by
  cases ch with
  | nil => cases hr
  | cons first rest =>
    obtain ⟨i, hi, rfl⟩ := List.mem_mapIdx.mp hr
    exact ⟨_, _, List.getElem_mem hi, rfl⟩

/-- A slice fits its frame. -/
def Whole (ch : List DevNodeInfo) : Prop := 12 + (3 + ch.length * part.fmt.size) ≤ 255

instance (ch : List DevNodeInfo) : Decidable (part.Whole ch) := inferInstanceAs (Decidable (_ ≤ _))

/-- What the master says of the frame of a slice. -/
def saidOf (t : Station) (sn : Sn) (ch : List DevNodeInfo) : List Reading :=
  ((groupFrame (withVal c g) part.type (part.elem (withVal c g)) part.reason ch).map fun f =>
    said c now t (mkI sn f.1 f.2).wire).getD []

variable {part}

theorem size_mapIdx {ch : List DevNodeInfo} (hch : ch ∈ slices part.list) :
    ∀ e ∈ ch.mapIdx (part.elem c), e.length = part.fmt.size := by
  intro e he
  obtain ⟨i, hi, rfl⟩ := List.mem_mapIdx.mp he
  exact part.size c i _ (mem_of_mem_slice hch (List.getElem_mem hi))

/-- **A whole frame** gives its slice. -/
theorem said_slice {ch : List DevNodeInfo} (hch : ch ∈ slices part.list) (hfit : part.Whole ch) {t : Station}
    {sn : Sn}
    (hb : Behind t sn) : part.saidOf c now g t sn ch = part.counted c g ch := by
  have hn : nodeNum = 50 := rfl
  have hk := (length_slice hch).2
  cases ch with
  | nil => rfl
  | cons first rest =>
    have hmem : ∀ {x}, x ∈ first :: rest → x ∈ part.list := mem_of_mem_slice hch
    have hnum : (first :: rest).length % 128 = ((first :: rest).mapIdx (part.elem (withVal c g))).length := by
      rw [List.length_mapIdx, Nat.mod_eq_of_lt (by omega)]
    have hfit' : 12 + (3 + ((first :: rest).mapIdx (part.elem (withVal c g))).length * part.fmt.size) ≤ 255 := by
      rw [List.length_mapIdx]
      exact hfit
    show said c now t (mkI sn _ (encSeq first.addr ((first :: rest).mapIdx (part.elem (withVal c g))))).wire = _
    rw [said_encSeq c now rfl (part.format _ (hmem List.mem_cons_self)) (part.cause _ (hmem List.mem_cons_self)) rfl
      rfl hnum (size_mapIdx (withVal c g) hch) part.le hfit' hb]
    refine List.ext_getElem (by simp [counted]) fun i h1 h2 => ?_
    have hi : i < (first :: rest).length := by simpa using h1
    simp only [List.getElem_mapIdx, counted,
      part.value _ _ i _ (hmem (List.getElem_mem hi)) (getVal_withVal c g (first :: rest)[i])]

end Part

/-! ### A list of frames -/

section Heard

variable (ts : Nat → Station) (sns : Nat → Sn)

/-- What the master says of a list of frames, taking in the `i`-th as `ts i`, under the number of `sns i`. -/
def heard (frames : List (AsduHead × List UInt8)) : List Reading :=
  (frames.mapIdx fun i f => said c now (ts i) (mkI (sns i) f.1 f.2).wire).flatten

theorem heard_append (a b : List (AsduHead × List UInt8)) : heard c now ts sns (a ++ b) =
    heard c now ts sns a ++ heard c now (fun i => ts (i + a.length)) (fun i => sns (i + a.length)) b := by
  simp only [heard, List.mapIdx_append, List.flatten_append]

theorem collected_sendAll {s : Core} (hup : s.link = true) (frames : List (AsduHead × List UInt8)) :
    collected c now ts (wires (andThen s (sendAll frames)).2) =
      heard c now ts (fun i => { s.sn with buildSend := s.sn.buildSend + i }) frames := by
  have hw : wires (andThen s (sendAll frames)).2 =
      frames.mapIdx fun i f => (mkI { s.sn with buildSend := s.sn.buildSend + i } f.1 f.2).wire := by
    rw [andThen_sendAll, hup]
    simp only [wires, List.mapIdx_eq_zipIdx_map, List.filterMap_map]
    exact congrFun List.filterMap_eq_map' _
  rw [collected, hw, List.mapIdx_mapIdx]
  rfl

/-- Confirmation and termination give nothing. -/
theorem heard_call {h : AsduHead} {info : List UInt8} (hle : 12 + info.length ≤ 255) (h3 : 3 ≤ info.length)
    (htype : h.type = AsduType.cIcNa1.code) (hno : h.reason % 16384 = Cot.actcon ∨ info.take 3 ≠ [0, 0, 0]) :
    heard c now ts sns [(h, info)] = [] := by
  have hsaid : ∀ t sn, said c now t (mkI sn h info).wire = [] := by
    intro t sn
    rw [said, master_recv (peer c) c now sn h hle t, Master.run_frameIParse]
    split
    · rfl
    split
    · rfl
    · rw [asduParse_call h3 htype hno]
      rfl
  simp only [heard, List.mapIdx_cons, List.mapIdx_nil, hsaid, List.flatten_cons, List.flatten_nil, List.append_nil]

theorem mapIdx_filterMap {α β γ : Type} {k : α → Option β} : ∀ (l : List α) (F : Nat → β → List γ),
    (∀ x ∈ l, (k x).isSome = true) → (l.filterMap k).mapIdx F = l.mapIdx fun i x => ((k x).map (F i)).getD []
  | [], _, _ => rfl
  | x :: l, F, h => by
    obtain ⟨y, hy⟩ := Option.isSome_iff_exists.mp (h x List.mem_cons_self)
    rw [List.filterMap_cons, hy, List.mapIdx_cons, List.mapIdx_cons, hy,
      mapIdx_filterMap l _ fun z hz => h z (List.mem_cons_of_mem x hz)]
    rfl

variable (part : Part P) (g : P → DevNodeInfo → DevNodeVal)

theorem heard_frames : heard c now ts sns (part.frames (withVal c g)) =
    ((slices part.list).mapIdx fun i ch => part.saidOf c now g (ts i) (sns i) ch).flatten := by
  rw [heard, Part.frames, groupFrames, mapIdx_filterMap]
  · rfl
  · intro ch hch
    cases ch with
    | nil => exact absurd (length_slice hch).1 (by decide)
    | cons first rest => rfl

/-- **A list whose frames are whole** gives its slices. -/
theorem heard_whole (hfit : ∀ ch ∈ slices part.list, part.Whole ch) (hb : ∀ i, Behind (ts i) (sns i)) :
    heard c now ts sns (part.frames (withVal c g)) = (slices part.list).flatMap (part.counted c g) := by
  rw [heard_frames, List.flatMap]
  congr 1
  refine List.ext_getElem (by simp) fun i h1 h2 => ?_
  have hi : i < (slices part.list).length := by simpa using h1
  have hch := List.getElem_mem hi
  rw [List.getElem_mapIdx, List.getElem_map]
  exact Part.said_slice c now g hch (hfit _ hch) (hb i)

/-- The whole frames of several lists. -/
theorem heard_parts : ∀ (parts : List (Part P)) (ts : Nat → Station) (sns : Nat → Sn),
    (∀ part ∈ parts, ∀ ch ∈ slices part.list, part.Whole ch) → (∀ i, Behind (ts i) (sns i)) →
    heard c now ts sns (parts.flatMap fun part => part.frames (withVal c g)) =
      parts.flatMap fun part => (slices part.list).flatMap (part.counted c g)
  | [], _, _, _, _ => rfl
  | part :: parts, ts, sns, hfit, hb => by
    rw [List.flatMap_cons, List.flatMap_cons, heard_append,
      heard_whole c now ts sns part g (hfit part List.mem_cons_self) hb,
      heard_parts parts _ _ (fun p hp => hfit p (List.mem_cons_of_mem part hp)) fun i => hb _]

end Heard

/-! ### Groups without gaps -/

/-- The addresses of a group count up from the first. -/
def Consecutive : List DevNodeInfo → Prop
  | [] => True
  | first :: rest => ∀ i (h : i < (first :: rest).length), (first :: rest)[i].addr = first.addr + UInt16.ofNat i

/-- The line of a node in what an interrogation should give. -/
def entry (val : DevNodeInfo → DevNodeVal) (x : DevNodeInfo) : Reading :=
  ((x.mode, x.addr), (val x).octets (valueSize x))

variable {c} in
theorem counted_of_consecutive {part : Part P} {g : P → DevNodeInfo → DevNodeVal} {ch : List DevNodeInfo}
    (hch : ch ∈ slices part.list) (h : Consecutive ch) :
    part.counted c g ch = ch.map (entry (g c.setValPriv)) := by
  cases ch with
  | nil => rfl
  | cons first rest =>
    refine List.ext_getElem (by simp [Part.counted]) fun i h1 h2 => ?_
    have hi : i < (first :: rest).length := by simpa using h2
    have hx := mem_of_mem_slice hch (List.getElem_mem hi)
    simp only [Part.counted, List.getElem_mapIdx, List.getElem_map, entry, part.mode _ hx, part.octets _ hx, h i hi]

/-- A list is carried: its groups have no gap, and each fits its frame. -/
def Part.Carried (part : Part P) : Prop := ∀ ch ∈ slices part.list, Consecutive ch ∧ part.Whole ch

/-- **Lists that are carried** give their nodes, in order. -/
theorem flatMap_counted {parts : List (Part P)} (h : ∀ part ∈ parts, part.Carried)
    (g : P → DevNodeInfo → DevNodeVal) :
    (parts.flatMap fun part => (slices part.list).flatMap (part.counted c g)) =
      (parts.flatMap Part.list).map (entry (g c.setValPriv)) := by
  rw [List.map_flatMap]
  refine List.flatMap_congr fun part hp => ?_
  have hch : ∀ ch ∈ slices part.list, part.counted c g ch = ch.map (entry (g c.setValPriv)) := fun ch hch =>
    counted_of_consecutive hch (h part hp ch hch).1
  rw [List.flatMap_congr hch, ← List.map_flatMap, List.flatMap_id', flatten_slices]

/-! ### Groups that are cut -/

/-- A value with all bits set, and one with none. -/
def mark : DevNodeVal := ⟨Vector.replicate 8 0xFF, Vector.replicate 7 0⟩
def blank : DevNodeVal := ⟨Vector.replicate 8 0, Vector.replicate 7 0⟩

/-- All bits are set. -/
def isMark (r : Reading) : Bool := r.2.all fun b => b == 0xFF

theorem not_isMark {r : Reading} (hpos : 0 < r.2.length) (h : ∀ b ∈ r.2, b = 0) : isMark r = false := by
  obtain ⟨b, l, hl⟩ := List.exists_cons_of_length_pos hpos
  have hb : b = 0 := h b (by rw [hl]; exact List.mem_cons_self)
  rw [isMark, hl, hb]
  rfl

theorem not_isMark_blank {a : DevTypeMod × UInt16} {k : Nat} (hk : 0 < k) : isMark (a, blank.octets k) = false := by
  refine not_isMark (by rw [DevNodeVal.length_octets]; omega) fun b hb => ?_
  have hb' := List.mem_of_mem_take hb
  simp only [blank, Vector.toList_replicate, List.mem_replicate] at hb'
  exact hb'.2

theorem valueSize_pos (x : DevNodeInfo) : 0 < valueSize x := by
  rw [valueSize]
  split <;> decide

theorem isMark_mark (a : DevTypeMod × UInt16) (k : Nat) : isMark (a, mark.octets k) = true := by
  refine List.all_eq_true.mpr fun b hb => ?_
  have hb' := List.mem_of_mem_take hb
  simp only [mark, Vector.toList_replicate, List.mem_replicate] at hb'
  exact beq_iff_eq.mpr hb'.2

section Cut

variable (sns : Nat → Sn) (g : P → DevNodeInfo → DevNodeVal)

/-- A monitored frame marks no more than it announces, and nothing when it ends before its elements. -/
theorem countP_isMark_le (sn : Sn) {h : AsduHead} {info : List UInt8} {type : AsduType} {f : Master.MonFmt}
    (htype : h.type = type.code) (hf : Master.monFmt type = some f) (hpos : 0 < f.value)
    (h9 : 9 ≤ (mkI sn h info).wire.length) : (said c now .init (mkI sn h info).wire).countP isMark ≤
      if (mkI sn h info).wire.length ≤ 15 then 0 else h.num % 128 := by
  by_cases hcut : (mkI sn h info).wire.length ≤ 15
  · rw [if_pos hcut]
    refine Nat.le_of_eq (List.countP_eq_zero.mpr fun r hr => ?_)
    obtain ⟨q, hq, hoct⟩ := octets_said_mon c now .init sn h info htype hf h9 r hr
    rw [not_isMark (by rw [hoct, Mem.length_slice]; exact hpos) fun b hb => ?_]
    · exact Bool.false_ne_true
    · rw [hoct] at hb
      obtain ⟨i, -, rfl⟩ := List.mem_map.mp hb
      exact Mem.fill_of_le (by omega)
  · rw [if_neg hcut]
    exact Nat.le_trans List.countP_le_length (length_said_mon c now .init sn h info htype hf h9)

/-- A group of `k` nodes marks no more than them, and nothing when it is cut. -/
theorem countP_group_le (sn : Sn) {h : AsduHead} {info : List UInt8} {type : AsduType} {f : Master.MonFmt}
    (htype : h.type = type.code) (hf : Master.monFmt type = some f) (hpos : 0 < f.value) (hle : f.value ≤ f.size)
    (hsmall : f.size ≤ 5) (hnum : 0 < h.num ∧ h.num ≤ nodeNum) (hinfo : info.length = 3 + h.num * f.size) :
    (said c now .init (mkI sn h info).wire).countP isMark ≤
      if 12 + (3 + h.num * f.size) ≤ 255 then h.num else 0 := by
  have hn : nodeNum = 50 := rfl
  have hwire : (mkI sn h info).wire.length = (12 + (3 + h.num * f.size)) % 256 := by rw [length_wire, hinfo]
  by_cases hfit : 12 + (3 + h.num * f.size) ≤ 255
  · have hone : 0 < h.num * f.size := Nat.mul_pos hnum.1 (Nat.lt_of_lt_of_le hpos hle)
    have hmark := countP_isMark_le c now sn htype hf hpos (by rw [hwire]; omega)
    rw [if_neg (by rw [hwire]; omega)] at hmark
    rw [if_pos hfit]
    exact Nat.le_trans hmark (Nat.mod_le _ _)
  · rw [if_neg hfit, Nat.le_zero]
    have hfive : f.size = 5 := by
      have : h.num * f.size ≤ 50 * f.size := Nat.mul_le_mul_right _ hnum.2
      omega
    rw [hfive] at hfit hwire
    have h49 : h.num = 49 ∨ h.num = 50 := by omega
    rcases h49 with h49 | h50
    · rw [h49] at hwire
      have hshort := @left_short P (peer c) c now Station.init (mkI sn h info).wire
        (Nat.lt_of_le_of_lt (Nat.le_of_eq hwire) (by decide))
      rw [said, hshort]
      rfl
    · rw [h50] at hwire
      have hmark := countP_isMark_le c now sn htype hf hpos (by rw [hwire])
      rw [if_pos (by rw [hwire]; decide)] at hmark
      exact Nat.le_zero.mp hmark

theorem countP_saidOf_le {part : Part P} {ch : List DevNodeInfo} (hch : ch ∈ slices part.list) (sn : Sn) :
    (part.saidOf c now g .init sn ch).countP isMark ≤ if part.Whole ch then ch.length else 0 := by
  have hlen := length_slice hch
  cases ch with
  | nil => exact absurd hlen.1 (by decide)
  | cons first rest =>
    have hmem := mem_of_mem_slice hch List.mem_cons_self
    have hinfo := @length_encSeq first.addr _ _ (Part.size_mapIdx (withVal c g) hch)
    rw [List.length_mapIdx] at hinfo
    exact countP_group_le c now sn (h := ⟨(part.type first).code, true, (first :: rest).length, part.reason, c.asduAddr⟩)
      rfl (part.format _ hmem) part.pos part.le part.small hlen hinfo

/-- What the lists mark together. -/
theorem countP_parts_le : ∀ (parts : List (Part P)) (sns : Nat → Sn),
    (heard c now (fun _ => .init) sns (parts.flatMap fun part => part.frames (withVal c g))).countP isMark ≤
      (parts.map fun part => ((slices part.list).map fun ch => if part.Whole ch then ch.length else 0).sum).sum
  | [], _ => Nat.le_refl 0
  | part :: parts, sns => by
    have hone : (heard c now (fun _ => .init) sns (part.frames (withVal c g))).countP isMark ≤
        ((slices part.list).map fun ch => if part.Whole ch then ch.length else 0).sum := by
      rw [heard_frames, List.countP_flatten]
      refine List.Forall₂.sum_le_sum (List.forall₂_iff_get.mpr ⟨by simp, fun i h1 h2 => ?_⟩)
      have hi : i < (slices part.list).length := by simpa using h2
      simpa using countP_saidOf_le c now g (List.getElem_mem hi) (sns i)
    rw [List.flatMap_cons, heard_append, List.countP_append, List.map_cons, List.sum_cons]
    exact Nat.add_le_add hone (countP_parts_le parts _)

end Cut

/-! ### What an interrogation gives -/

section Gives

variable (parts : List (Part P)) (q : UInt8)

/-- The frames of an answer that consists of `parts`. -/
def callFrames : List (AsduHead × List UInt8) :=
  [callAckFrame c q] ++ parts.flatMap (fun part => part.frames c) ++ [callFinshFrame c q]

theorem heard_callFrames (ts : Nat → Station) (sns : Nat → Sn) (g : P → DevNodeInfo → DevNodeVal) :
    heard c now ts sns (callFrames (withVal c g) parts q) = heard c now (fun i => ts (i + 1)) (fun i => sns (i + 1))
      (parts.flatMap fun part => part.frames (withVal c g)) := by
  have hack : ∀ ts sns, heard c now ts sns [callAckFrame (withVal c g) q] = [] := fun ts sns =>
    heard_call c now ts sns (show 12 + 4 ≤ 255 by decide) (show 3 ≤ 4 by decide) rfl (Or.inl rfl)
  have hfinsh : ∀ ts sns, heard c now ts sns [callFinshFrame (withVal c g) q] = [] := fun ts sns =>
    heard_call c now ts sns (show 12 + 4 ≤ 255 by decide) (show 3 ≤ 4 by decide) rfl
      (Or.inr (show infoAddr callFinshAddr ≠ [0, 0, 0] by decide))
  rw [callFrames, heard_append, heard_append, hack, hfinsh, List.append_nil, List.nil_append]
  rfl

/-- **The answer gives the nodes of the lists**: whatever values the callback has and whatever the buffer of the
master holds, the value callbacks are those nodes, each as often as it is listed, with its address and the value
that the callback has for it behind `get_val_priv`. -/
def Gives (answer : Conf P → List Cmd) (nodes : List DevNodeInfo) : Prop :=
  ∀ (g : P → DevNodeInfo → DevNodeVal) (now : Int) (s : Core) (ts : Nat → Station), s.link = true →
    (∀ i, Behind (ts i) { s.sn with buildSend := s.sn.buildSend + i }) →
    (collected c now ts (wires (andThen s (answer (withVal c g))).2)).Perm (nodes.map (entry (g c.getValPriv)))

variable {c parts q} {answer : Conf P → List Cmd}

/-- A fresh master takes any number. -/
theorem behind_init (sn : Sn) : Behind Station.init sn := by
  have hsend : Station.init.core.sn.dealSend = -1 := rfl
  have hrecv : Station.init.core.sn.dealRecv = 0 := rfl
  rw [Behind, hsend, hrecv]
  omega

/-- What the master of `Station.init` collects is what the answer says it should. -/
theorem perm_of_gives (hans : ∀ g, answer (withVal c g) = sendAll (callFrames (withVal c g) parts q))
    (h : Gives c answer (parts.flatMap Part.list)) (g : P → DevNodeInfo → DevNodeVal) : ∃ sns : Nat → Sn,
      (heard c 0 (fun _ => .init) sns (parts.flatMap fun part => part.frames (withVal c g))).Perm
        ((parts.flatMap Part.list).map (entry (g c.getValPriv))) := by
  have hperm := h g 0 { Core.fresh with link := true } (fun _ => Station.init) rfl fun i => behind_init _
  rw [hans, collected_sendAll c 0 (fun _ => Station.init) rfl, heard_callFrames] at hperm
  exact ⟨_, hperm⟩

theorem forall_of_sum_le {α : Type} {l : List α} {f g : α → Nat} (hle : ∀ x ∈ l, g x ≤ f x)
    (h : (l.map f).sum ≤ (l.map g).sum) : ∀ x ∈ l, f x ≤ g x := by
  intro x hx
  by_contra hlt
  exact Nat.not_lt.mpr h (List.sum_lt_sum _ _ hle ⟨x, hx, Nat.lt_of_not_le hlt⟩)

/-- **Every group fits its frame**: with all values marked, a cut group is missing. -/
theorem whole_of_gives (hans : ∀ g, answer (withVal c g) = sendAll (callFrames (withVal c g) parts q))
    (h : Gives c answer (parts.flatMap Part.list)) : ∀ part ∈ parts, ∀ ch ∈ slices part.list, part.Whole ch := by
  obtain ⟨sns, hperm⟩ := perm_of_gives hans h fun _ _ => mark
  have hall : ((parts.flatMap Part.list).map (entry fun _ => mark)).countP isMark =
      (parts.map fun part => ((slices part.list).map List.length).sum).sum := by
    rw [List.countP_eq_length.mpr, List.length_map, List.length_flatMap]
    · refine congrArg List.sum (List.map_congr_left fun part _ => ?_)
      rw [← List.length_flatten, flatten_slices]
    · intro r hr
      obtain ⟨x, -, rfl⟩ := List.mem_map.mp hr
      exact isMark_mark _ _
  have hle := countP_parts_le c 0 (fun _ _ => mark) parts sns
  rw [hperm.countP_eq, hall] at hle
  have hslice : ∀ (part : Part P), ∀ ch ∈ slices part.list, (if part.Whole ch then ch.length else 0) ≤ ch.length :=
    fun part ch _ => by split <;> omega
  intro part hp ch hch
  have hpart := forall_of_sum_le (fun p _ => List.sum_le_sum fun ch hch => hslice p ch hch) hle part hp
  have hlen := forall_of_sum_le (hslice part) hpart ch hch
  by_contra hcut
  rw [if_neg hcut] at hlen
  have := (length_slice hch).1
  omega

/-- With every group whole, the master collects the slices. -/
theorem mem_of_gives (hans : ∀ g, answer (withVal c g) = sendAll (callFrames (withVal c g) parts q))
    (h : Gives c answer (parts.flatMap Part.list)) (g : P → DevNodeInfo → DevNodeVal) (r : Reading) :
    (∃ part ∈ parts, ∃ ch ∈ slices part.list, r ∈ part.counted c g ch) ↔
      ∃ x ∈ parts.flatMap Part.list, entry (g c.getValPriv) x = r := by
  obtain ⟨sns, hperm⟩ := perm_of_gives hans h g
  rw [heard_parts c 0 g parts _ sns (whole_of_gives hans h) fun i => behind_init _] at hperm
  have hmem := hperm.mem_iff (a := r)
  simpa only [List.mem_flatMap, List.mem_map] using hmem

/-- **The callback gets `set_val_priv`**: told apart, the two give different values. -/
theorem priv_of_gives (hans : ∀ g, answer (withVal c g) = sendAll (callFrames (withVal c g) parts q))
    (h : Gives c answer (parts.flatMap Part.list)) :
    parts.flatMap Part.list = [] ∨ c.setValPriv = c.getValPriv := by
  classical
  by_contra hne
  obtain ⟨hnodes, hpriv⟩ := not_or.mp hne
  obtain ⟨x, hx⟩ := List.exists_mem_of_ne_nil _ hnodes
  have hmem := (mem_of_gives hans h (fun p _ => if p = c.getValPriv then mark else blank) (entry (fun _ => mark) x)).mpr
    ⟨x, hx, by simp only [if_true]⟩
  obtain ⟨part, -, ch, -, hr⟩ := hmem
  obtain ⟨y, a, -, he⟩ := Part.mem_counted hr
  have hmark : isMark (entry (fun _ => mark) x) = true := isMark_mark _ _
  rw [he, if_neg hpriv, not_isMark_blank part.pos] at hmark
  exact Bool.false_ne_true hmark

/-- **Every group is without gap**: with one node marked, its value comes under its address only. -/
theorem consecutive_of_gives (hans : ∀ g, answer (withVal c g) = sendAll (callFrames (withVal c g) parts q))
    (h : Gives c answer (parts.flatMap Part.list)) : ∀ part ∈ parts, ∀ ch ∈ slices part.list, Consecutive ch := by
  intro part hp ch hch
  cases ch with
  | nil => trivial
  | cons first rest =>
    intro i hi
    have hcounted : ((part.fmt.mode, first.addr + UInt16.ofNat i), mark.octets part.fmt.value) ∈
        part.counted c (fun _ y => if y = (first :: rest)[i] then mark else blank) (first :: rest) :=
      List.mem_mapIdx.mpr ⟨i, hi, by simp only [if_true]⟩
    obtain ⟨y, -, hy⟩ := (mem_of_gives hans h _ _).mp ⟨part, hp, first :: rest, hch, hcounted⟩
    by_cases hxy : y = (first :: rest)[i]
    · have haddr : y.addr = first.addr + UInt16.ofNat i := congrArg (fun r : Reading => r.1.2) hy
      rw [← hxy, haddr]
    · have hmark := isMark_mark (part.fmt.mode, first.addr + UInt16.ofNat i) part.fmt.value
      rw [← hy, entry, if_neg hxy, not_isMark_blank (valueSize_pos y)] at hmark
      exact absurd hmark Bool.false_ne_true

/-- **When an answer gives the nodes of its lists.** -/
theorem gives_iff (hans : ∀ g, answer (withVal c g) = sendAll (callFrames (withVal c g) parts q)) :
    Gives c answer (parts.flatMap Part.list) ↔
      (∀ part ∈ parts, part.Carried) ∧ (parts.flatMap Part.list = [] ∨ c.setValPriv = c.getValPriv) := by
  constructor
  · intro h
    exact ⟨fun part hp ch hch => ⟨consecutive_of_gives hans h part hp ch hch, whole_of_gives hans h part hp ch hch⟩,
      priv_of_gives hans h⟩
  · rintro ⟨hcarried, hpriv⟩ g now s ts hup hb
    have hentry : (parts.flatMap Part.list).map (entry (g c.setValPriv)) =
        (parts.flatMap Part.list).map (entry (g c.getValPriv)) := by
      rcases hpriv with hnil | hpriv
      · rw [hnil]
        rfl
      · rw [hpriv]
    rw [hans, collected_sendAll c now ts hup, heard_callFrames,
      heard_parts c now g parts _ _ (fun part hp ch hch => (hcarried part hp ch hch).2) fun i => hb (i + 1),
      flatMap_counted c hcarried, hentry]

end Gives

/-! ### The two interrogations -/

/-- **Both interrogations give the table.** -/
def Fidelity : Prop :=
  Gives c (fun c => callAllAnswer c 20) (c.nodeList.yx ++ c.nodeList.ycN ++ c.nodeList.ycF) ∧
    Gives c (fun c => callPulseAnswer c 5) c.nodeList.ym

/-- The addresses of every group of fifty nodes of a list count up. -/
def Grouped (list : List DevNodeInfo) : Prop := ∀ ch ∈ slices list, Consecutive ch

/-- No group has a gap, the float values fit one frame, so do the counters, and both callbacks have the same
private data. -/
structure Faithful : Prop where
  yx : Grouped c.nodeList.yx
  ycN : Grouped c.nodeList.ycN
  ycF : Grouped c.nodeList.ycF
  ym : Grouped c.nodeList.ym
  floats : c.nodeList.ycF.length ≤ 48
  counters : c.nodeList.ym.length ≤ 48
  priv : c.nodeList.yx ++ c.nodeList.ycN ++ c.nodeList.ycF ++ c.nodeList.ym = [] ∨ c.setValPriv = c.getValPriv

theorem callAllAnswer_parts (g : P → DevNodeInfo → DevNodeVal) :
    callAllAnswer (withVal c g) 20 = sendAll (callFrames (withVal c g) (callAllParts c.nodeList) 20) := by
  rw [callAllAnswer_eq]
  congr 1
  simp only [callAllFrames, callFrames, callAllParts, List.flatMap_cons, List.flatMap_nil, List.append_nil,
    List.append_assoc]
  rfl

theorem callPulseAnswer_parts (g : P → DevNodeInfo → DevNodeVal) :
    callPulseAnswer (withVal c g) 5 = sendAll (callFrames (withVal c g) (callPulseParts c.nodeList) 5) := by
  rw [callPulseAnswer_eq]
  congr 1
  simp only [callPulseFrames, callFrames, callPulseParts, List.flatMap_cons, List.flatMap_nil, List.append_nil]
  rfl

/-- Elements of up to four octets always fit; of five octets, forty-eight do. -/
theorem carried_iff_of_small (part : Part P) (h4 : part.fmt.size ≤ 4) :
    part.Carried ↔ Grouped part.list := by
  refine forall₂_congr fun ch hch => and_iff_left ?_
  have hn : nodeNum = 50 := rfl
  have hmul : ch.length * part.fmt.size ≤ 50 * 4 := Nat.mul_le_mul (length_slice hch).2 h4
  rw [Part.Whole]
  omega

theorem carried_iff_of_five (part : Part P) (h5 : part.fmt.size = 5) :
    part.Carried ↔ Grouped part.list ∧ part.list.length ≤ 48 := by
  rw [Grouped, ← slices_le_iff (show 48 < nodeNum by decide), ← forall₂_and]
  refine forall₂_congr fun ch hch => and_congr_right fun _ => ?_
  rw [Part.Whole, h5]
  omega

theorem callAll_iff : Gives c (fun c => callAllAnswer c 20) (c.nodeList.yx ++ c.nodeList.ycN ++ c.nodeList.ycF) ↔
    (Grouped c.nodeList.yx ∧ Grouped c.nodeList.ycN ∧ Grouped c.nodeList.ycF ∧ c.nodeList.ycF.length ≤ 48) ∧
      (c.nodeList.yx ++ c.nodeList.ycN ++ c.nodeList.ycF = [] ∨ c.setValPriv = c.getValPriv) := by
  have hnodes : c.nodeList.yx ++ c.nodeList.ycN ++ c.nodeList.ycF =
      (callAllParts (P := P) c.nodeList).flatMap Part.list := by simp [callAllParts, yxPart, ycNPart, ycFPart]
  have hyx := carried_iff_of_small (yxPart (P := P) c.nodeList) (show 1 ≤ 4 by decide)
  have hycN := carried_iff_of_small (ycNPart (P := P) c.nodeList) (show 3 ≤ 4 by decide)
  have hycF := carried_iff_of_five (ycFPart (P := P) c.nodeList) rfl
  rw [hnodes, gives_iff (callAllAnswer_parts c), callAllParts, List.forall_mem_cons, List.forall_mem_cons,
    List.forall_mem_singleton, hyx, hycN, hycF]
  rfl

theorem callPulse_iff : Gives c (fun c => callPulseAnswer c 5) c.nodeList.ym ↔
    (Grouped c.nodeList.ym ∧ c.nodeList.ym.length ≤ 48) ∧
      (c.nodeList.ym = [] ∨ c.setValPriv = c.getValPriv) := by
  have hnodes : c.nodeList.ym = (callPulseParts (P := P) c.nodeList).flatMap Part.list := by
    simp [callPulseParts, ymPart]
  have hym := carried_iff_of_five (ymPart (P := P) c.nodeList) rfl
  have h := @gives_iff P c _ 5 (fun c => callPulseAnswer c 5) (callPulseAnswer_parts c)
  rw [← hnodes, callPulseParts, List.forall_mem_singleton, hym] at h
  exact h

/-- Two nodes with a gap between them. -/
def sampleGap : Conf Unit :=
  { sampleConf with nodeList := setNodeInfo .empty [⟨.yx, 1, .sint8⟩, ⟨.yx, 3, .sint8⟩] }

end Wow.Iec104
