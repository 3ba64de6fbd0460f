import Wow.Iec104.Capacity
import Wow.Iec104.Fidelity

/-!
# Wow.Iec104.Spontaneous — spontaneous reports and what the master reads of them

A report is one frame of objects with addresses of their own.  Its type is that of the first node; in a report
of `yx` each node brings its own time tag, in one of `yc` the first node decides for all.  The master passes
over the types with a time tag and counts up the addresses of normalised values.

* `arrives_sendI`: a report arrives when its frame fits and every master reads the nodes of it.
* `unshifted_of_untagged`: without a time tag in front of another object, the objects lie where the master
  looks for them.
* `spon_iff`: when the two reports arrive.
-/

namespace Wow.Iec104.Slave

open Iec10x

variable {P : Type} (c : Conf P)

/-! ### Arriving -/

/-- The frames handed to `link_send`. -/
def sentOf (tr : List Act) : List SendBuf :=
  tr.filterMap fun
    | .send f _ => some f
    | _ => none

/-- Address and value, whatever the kind of the node. -/
def pairOf (r : Reading) : UInt16 × List UInt8 := (r.1.2, r.2)

/-- A report stays inside its buffer, and it is refused with nothing sent, or every master that takes the numbers
of its frames reads `pairs` of them. -/
def Arrives (report : Cmd) (s : Core) (pairs : List (UInt16 × List UInt8)) : Prop :=
  (∀ a ∈ (report s).2, FitAct a) ∧
    (sentOf (report s).2 = [] ∨ ∀ (now : Int) (ts : Nat → Station), (∀ i, Behind (ts i) s.sn) →
      (collected c now ts ((sentOf (report s).2).map SendBuf.wire)).map pairOf = pairs)

/-- What is refused arrives. -/
theorem arrives_refused {report : Cmd} {s : Core} {pairs : List (UInt16 × List UInt8)} (h : (report s).2 = []) :
    Arrives c report s pairs := by
  rw [Arrives, h]
  exact ⟨fun a ha => absurd ha List.not_mem_nil, Or.inl rfl⟩

/-- **One frame**: it arrives when it fits and every master reads the nodes of it. -/
theorem arrives_sendI (h : AsduHead) (info : List UInt8) (s : Core) (pairs : List (UInt16 × List UInt8)) :
    Arrives c (sendI h info) s pairs ↔ 12 + info.length ≤ 255 ∧
      ∀ now t, Behind t s.sn → (said c now t (mkI s.sn h info).wire).map pairOf = pairs := by
  have hsent : sentOf (sendI h info s).2 = [mkI s.sn h info] := rfl
  have hone : ∀ now ts, collected c now ts [(mkI s.sn h info).wire] = said c now (ts 0) (mkI s.sn h info).wire :=
    fun now ts => by simp only [collected, List.mapIdx_cons, List.mapIdx_nil, List.flatten_cons, List.flatten_nil,
      List.append_nil]
  rw [Arrives, allFit_sendI, hsent, List.map_singleton]
  simp only [hone]
  refine and_congr_right fun _ => ⟨?_, fun hsaid => Or.inr fun now ts hts => hsaid now (ts 0) (hts 0)⟩
  rintro (hnil | hsaid) now t ht
  · cases hnil
  · exact hsaid now (fun _ => t) fun _ => ht

/-! ### The frame of a report -/

section Frame

variable (now : Int) {t : Station} {sn : Sn} {n : Nat} {info : List UInt8} (hfit : 12 + info.length ≤ 255)
include hfit

/-- A type with a time tag is passed over. -/
theorem said_tagged {type : AsduType} (htype : type = .mSpTb1 ∨ type = .mMeTd1 ∨ type = .mMeTf1) :
    said c now t (mkI sn ⟨type.code, false, n, Cot.spont, c.asduAddr⟩ info).wire = [] := by
  have htype' : AsduType.ofCode (inBuf t.recvBuf sn ⟨type.code, false, n, Cot.spont, c.asduAddr⟩ info (0 + 6)) =
      some type := by
    rw [Nat.zero_add, type_inBuf, AsduType.ofCode_code]
  have hparse : ∀ s, (Master.asduParse (peer c) s 0).run
      (inBuf t.recvBuf sn ⟨type.code, false, n, Cot.spont, c.asduAddr⟩ info) = (s, []) := by
    intro s
    simp only [Master.asduParse, Rd.run_bind, mem_rdType, run_rdType, htype']
    rcases htype with rfl | rfl | rfl
    all_goals
      simp only [Master.asduYx, Master.asduYc, Master.run_asduMon, htype', Option.bind_some, Master.yxFmt, Master.ycFmt,
        ite_self]
  rw [said, master_recv (peer c) c now sn _ hfit t, Master.run_frameIParse]
  split
  · rfl
  split
  · rfl
  · rw [hparse]
    rfl

/-- A type without: the objects of the buffer. -/
theorem said_untagged {type : AsduType} {f : Master.MonFmt} (hf : Master.monFmt type = some f)
    (hr : Cot.spont ∈ Master.monReasons type) (hb : Behind t sn) :
    (said c now t (mkI sn ⟨type.code, false, n, Cot.spont, c.asduAddr⟩ info).wire).map pairOf =
      (Fld.objs (inBuf t.recvBuf sn ⟨type.code, false, n, Cot.spont, c.asduAddr⟩ info) 0 (n % 128) false f.value
        f.size).mapIdx fun i o => ((f.node false i o.1).addr, o.2) := by
  have hok : Master.snOk t.core (sn.buildSend % 32768) (sn.buildRecv % 32768) = true := decide_eq_true hb
  rw [said_mon c now t sn _ info rfl hf (by rw [length_wire_mkI sn _ hfit]; omega) (fill_wire_mkI sn _ hfit t.recvBuf),
    addr_inBuf, sendSn_inBuf, recvSn_inBuf, reason_inBuf, num_inBuf, sq_inBuf, if_pos ⟨rfl, hok, hr⟩]
  refine List.ext_getElem (by simp) fun i h1 h2 => ?_
  simp only [List.getElem_map, List.getElem_mapIdx, pairOf]

end Frame

/-- Addresses that are not counted up. -/
theorem mapIdx_node {f : Master.MonFmt} (hf : f.countUp = false) (objs : List (UInt16 × List UInt8)) :
    (objs.mapIdx fun i o => ((f.node false i o.1).addr, o.2)) = objs := by
  refine List.ext_getElem (by simp) fun i h1 h2 => ?_
  simp [Master.MonFmt.node, hf]

/-- The same report under another name. -/
theorem arrives_congr {report report' : Cmd} {s : Core} (h : report s = report' s)
    (pairs : List (UInt16 × List UInt8)) :
    Arrives c report s pairs ↔ Arrives c report' s pairs := by
  rw [Arrives, Arrives, h]

/-! ### Reports of `yx` -/

/-- Address and value of a node of a `yx` report. -/
def yxPair (x : DevNodeCtrl) : UInt16 × List UInt8 := (x.info.addr, [x.value.u8])

/-- Every object lies where the master looks for it, four octets behind the one before. -/
def Unshifted (nodes : List DevNodeCtrl) : Prop :=
  ∀ i (h : i < nodes.length), ((nodes.flatMap yxSponObj).drop (i * 4)).take 2 = leU16 nodes[i].info.addr ∧
    ((nodes.flatMap yxSponObj).drop (i * 4 + 3)).take 1 = [nodes[i].value.u8]

/-- An address is its two lower octets. -/
theorem ofNat_infoAddr_iff {m : Mem} {q : Nat} {a : UInt16} :
    UInt16.ofNat (Fld.infoAddr m q) = a ↔ m.slice q 2 = leU16 a := by
  have h2 : m.slice q 2 = [m q, m (q + 1)] := rfl
  have ha := a.toNat_lt
  have h0 := (m q).toNat_lt
  have h1 := (m (q + 1)).toNat_lt
  rw [h2, leU16, Fld.infoAddr, ← UInt16.toNat_inj, UInt16.toNat_ofNat', List.cons.injEq, List.cons.injEq,
    ← UInt8.toNat_inj, ← UInt8.toNat_inj]
  simp only [UInt8.toNat_ofNat', and_true]
  omega

theorem four_le_yxSponObj (x : DevNodeCtrl) : 4 ≤ (yxSponObj x).length := by
  rw [length_yxSponObj, yxSponSize]
  omega

theorem length_yxSpon_le : ∀ nodes : List DevNodeCtrl, nodes.length * 4 ≤ (nodes.flatMap yxSponObj).length
  | [] => Nat.zero_le _
  | x :: nodes => by
    have hx := four_le_yxSponObj x
    have ih := length_yxSpon_le nodes
    rw [List.flatMap_cons, List.length_append, List.length_cons]
    omega

/-- The objects of the buffer are the nodes exactly when nothing has shifted them. -/
theorem objs_yxSpon_iff {nodes : List DevNodeCtrl} {m : Mem}
    (hm : ∀ a n, a + n ≤ (nodes.flatMap yxSponObj).length →
      m.slice (12 + a) n = ((nodes.flatMap yxSponObj).drop a).take n) :
    Fld.objs m 0 nodes.length false 1 1 = nodes.map yxPair ↔ Unshifted nodes := by
  have hlen := length_yxSpon_le nodes
  have hobj : ∀ i (hi : i < nodes.length), Fld.obj m 0 false 1 1 i = yxPair nodes[i] ↔
      ((nodes.flatMap yxSponObj).drop (i * 4)).take 2 = leU16 nodes[i].info.addr ∧
        ((nodes.flatMap yxSponObj).drop (i * 4 + 3)).take 1 = [nodes[i].value.u8] := by
    intro i hi
    rw [Fld.obj, if_neg Bool.false_ne_true, yxPair, Prod.mk.injEq, ofNat_infoAddr_iff, Nat.zero_add, Nat.zero_add,
      show 15 + i * (3 + 1) = 12 + (i * 4 + 3) by omega, hm _ _ (by omega), hm _ _ (by omega)]
  constructor
  · intro h i hi
    refine (hobj i hi).mp ?_
    have hget := List.getElem_of_eq h (i := i) (by simpa [Fld.objs] using hi)
    simpa [Fld.objs] using hget
  · intro h
    refine List.ext_getElem (by simp [Fld.objs]) fun i h1 h2 => ?_
    have hi : i < nodes.length := by simpa using h2
    rw [List.getElem_map]
    simpa [Fld.objs] using (hobj i hi).mpr (h i hi)

/-- A sixteen-bit address in three octets. -/
theorem infoAddr_uint16 (a : UInt16) : infoAddr a.toNat = leU16 a ++ [0] := by
  have ha := a.toNat_lt
  rw [infoAddr, leU16, Nat.mod_eq_of_lt (show a.toNat / 256 < 256 by omega),
    show a.toNat / 65536 % 256 = 0 by omega]
  rfl

/-- **A time tag shifts only what is behind it**: the last node may have one. -/
theorem unshifted_of_untagged : ∀ {nodes : List DevNodeCtrl}, (∀ x ∈ nodes.dropLast, x.value.year = 0) →
    Unshifted nodes
  | [], _ => fun i h => absurd h (Nat.not_lt_zero i)
  | x :: nodes, huntagged => by
    intro i hi
    cases i with
    | zero =>
      rw [List.flatMap_cons, List.getElem_cons_zero, yxSponObj, infoAddr_uint16]
      exact ⟨rfl, rfl⟩
    | succ i =>
      have hi' : i < nodes.length := by simpa using hi
      have hlast : (x :: nodes).dropLast = x :: nodes.dropLast :=
        List.dropLast_cons_of_ne_nil (List.ne_nil_of_length_pos (by omega))
      rw [hlast, List.forall_mem_cons] at huntagged
      have hx : (yxSponObj x).length = 4 := by
        rw [length_yxSponObj, yxSponSize, huntagged.1]
        rfl
      have ih := unshifted_of_untagged huntagged.2 i hi'
      rw [List.flatMap_cons, List.getElem_cons_succ, show (i + 1) * 4 = (yxSponObj x).length + i * 4 by omega,
        Nat.add_assoc, ← List.drop_drop, ← List.drop_drop, List.drop_left]
      exact ih

/-- The nodes of a `yx` report the master reads as they are. -/
def YxReads (nodes : List DevNodeCtrl) : Prop :=
  (∀ first ∈ nodes.head?, first.value.year = 0) ∧ 12 + (nodes.map yxSponSize).sum ≤ 255 ∧ Unshifted nodes

/-- **Reports of `yx`**. -/
theorem arrives_buildYxSpon (nodes : NodeArr) (s : Core) :
    Arrives c (buildYxSpon c nodes) s (nodes.val.map yxPair) ↔ (s.stat.init = .linkIdle → YxReads nodes.val) := by
  cases hl : nodes.val with
  | nil =>
    refine iff_of_true (arrives_refused c (by simp only [buildYxSpon, hl])) fun _ => ⟨?_, by decide, ?_⟩
    · exact fun first h => by cases h
    · exact fun i h => absurd h (Nat.not_lt_zero i)
  | cons first rest =>
    by_cases hi : s.stat.init = .linkIdle
    swap
    · refine iff_of_true (arrives_refused c ?_) fun h => absurd h hi
      simp only [buildYxSpon, hl, hi, ne_eq, not_false_eq_true, if_true]
    have hbuild : buildYxSpon c nodes s = sendI ⟨(if first.value.year = 0 then AsduType.mSpNa1 else .mSpTb1).code,
        false, (first :: rest).length, Cot.spont, c.asduAddr⟩ ((first :: rest).flatMap yxSponObj) s := by
      simp only [buildYxSpon, hl, hi, ne_eq, not_true_eq_false, if_false]
    have hlen : ((first :: rest).flatMap yxSponObj).length = ((first :: rest).map yxSponSize).sum := by
      rw [List.length_flatMap]
      exact congrArg List.sum (List.map_congr_left fun x _ => length_yxSponObj x)
    have hnum := length_yxSpon_le (first :: rest)
    rw [arrives_congr c hbuild, arrives_sendI, hlen, YxReads, List.head?_cons]
    simp only [hi, true_imp_iff, Option.mem_some_iff, forall_eq']
    by_cases hfit : 12 + ((first :: rest).map yxSponSize).sum ≤ 255
    swap
    · exact iff_of_false (fun h => hfit h.1) fun h => hfit h.2.1
    have hfit' : 12 + ((first :: rest).flatMap yxSponObj).length ≤ 255 := by rw [hlen]; exact hfit
    by_cases hyear : first.value.year = 0
    · have hread : ∀ now t, Behind t s.sn → ((said c now t (mkI s.sn ⟨AsduType.mSpNa1.code, false,
          (first :: rest).length, Cot.spont, c.asduAddr⟩ ((first :: rest).flatMap yxSponObj)).wire).map pairOf =
            (first :: rest).map yxPair ↔ Unshifted (first :: rest)) := by
        intro now t hb
        rw [said_untagged c now hfit' rfl (by decide) hb, Nat.mod_eq_of_lt (by omega), mapIdx_node rfl]
        exact objs_yxSpon_iff fun a n h => slice_inBuf t.recvBuf s.sn _ _ h
      simp only [hyear, if_true, hfit, true_and]
      exact ⟨fun h => (hread 0 .init (behind_init s.sn)).mp (h 0 _ (behind_init s.sn)),
        fun h now t hb => (hread now t hb).mpr h⟩
    · refine iff_of_false (fun h => ?_) fun h => hyear h.1
      have hnone := h.2 0 .init (behind_init s.sn)
      rw [if_neg hyear, said_tagged c 0 hfit' (Or.inl rfl)] at hnone
      cases hnone

/-! ### Reports of `yc` -/

/-- The octets of the value of a node of a `yc` report. -/
def ycSize (x : DevNodeCtrl) : Nat := if x.info.type = .float then 4 else 2

/-- Address and value of a node of a `yc` report. -/
def ycPair (x : DevNodeCtrl) : UInt16 × List UInt8 := (x.info.addr, x.value.octets (ycSize x))

/-- The nodes of a `yc` report the master reads as they are: one type, no time tag, and one node if normalised. -/
def YcReads (nodes : List DevNodeCtrl) : Prop :=
  ∀ first ∈ nodes.head?, first.value.year = 0 ∧ 12 + nodes.length * ycSponSize first ≤ 255 ∧
    (∀ x ∈ nodes, ycSize x = ycSize first) ∧ (first.info.type = .float ∨ nodes.length = 1)

/-- The objects of an untagged report. -/
theorem flatMap_ycSponObj {first : DevNodeCtrl} (hyear : first.value.year = 0) (nodes : List DevNodeCtrl) :
    nodes.flatMap (ycSponObj first) =
      encObjs (nodes.map fun x => (x.info.addr, x.value.octets (ycSize first) ++ [0])) := by
  rw [encObjs, List.flatMap_map]
  refine List.flatMap_congr fun x _ => ?_
  simp [ycSponObj, ycSize, timeTag, hyear]

theorem ycSize_le (x : DevNodeCtrl) : ycSize x ≤ 8 := by
  rw [ycSize]
  split <;> decide

/-- The format of the first node. -/
def ycSponFmt (first : DevNodeCtrl) : Master.MonFmt :=
  if first.info.type = .float then ⟨.yc, .float, 5, 4, false⟩ else ⟨.yc, .sint16, 3, 2, true⟩

theorem monFmt_ycSpon {first : DevNodeCtrl} (hyear : first.value.year = 0) :
    Master.monFmt (ycSponType first) = some (ycSponFmt first) ∧ Cot.spont ∈ Master.monReasons (ycSponType first) := by
  by_cases hf : first.info.type = .float
  · simp only [ycSponType, ycSponFmt, hf, hyear, if_true, Nat.lt_irrefl, if_false, gt_iff_lt]
    exact ⟨rfl, by decide⟩
  · simp only [ycSponType, ycSponFmt, hf, hyear, Nat.lt_irrefl, if_false, gt_iff_lt]
    exact ⟨rfl, by decide⟩

theorem ycSponFmt_size (first : DevNodeCtrl) :
    (ycSponFmt first).value = ycSize first ∧ (ycSponFmt first).size = ycSize first + 1 := by
  by_cases hf : first.info.type = .float <;> simp [ycSponFmt, ycSize, hf]

/-- What the master makes of the address of an object. -/
theorem addr_ycSponFmt (first : DevNodeCtrl) {i : Nat} (hi : i < 128) (a : UInt16) :
    ((ycSponFmt first).node false i a).addr = a ↔ first.info.type = .float ∨ i = 0 := by
  by_cases hf : first.info.type = .float
  · simp [ycSponFmt, Master.MonFmt.node, hf]
  · have ha : a + UInt16.ofNat i = a ↔ i = 0 := by
      rw [← UInt16.toNat_inj, UInt16.toNat_add, UInt16.toNat_ofNat']
      have := a.toNat_lt
      omega
    simp [ycSponFmt, Master.MonFmt.node, hf, ha]

/-- The master reads the nodes when they have one type, and counts no address up. -/
theorem mapIdx_ycPair_iff {first : DevNodeCtrl} {rest : List DevNodeCtrl} (hlen : (first :: rest).length < 128) :
    ((first :: rest).mapIdx fun i x => (((ycSponFmt first).node false i x.info.addr).addr,
        x.value.octets (ycSize first))) = (first :: rest).map ycPair ↔
      (∀ x ∈ first :: rest, ycSize x = ycSize first) ∧ (first.info.type = .float ∨ (first :: rest).length = 1) := by
  have hsize : ∀ (x : DevNodeCtrl) (v : DevNodeVal), v.octets (ycSize first) = v.octets (ycSize x) ↔
      ycSize x = ycSize first := by
    refine fun x v => ⟨fun h => ?_, fun h => by rw [h]⟩
    have hl := congrArg List.length h
    have hx := ycSize_le x
    have hfirst := ycSize_le first
    rw [DevNodeVal.length_octets, DevNodeVal.length_octets] at hl
    omega
  have hnode : ∀ i (hi : i < (first :: rest).length),
      ((((ycSponFmt first).node false i (first :: rest)[i].info.addr).addr, (first :: rest)[i].value.octets (ycSize first)) =
        ycPair (first :: rest)[i]) ↔ (first.info.type = .float ∨ i = 0) ∧ ycSize (first :: rest)[i] = ycSize first := by
    intro i hi
    rw [ycPair, Prod.mk.injEq, addr_ycSponFmt first (by omega), hsize]
  constructor
  · intro h
    have hget : ∀ i (hi : i < (first :: rest).length),
        (first.info.type = .float ∨ i = 0) ∧ ycSize (first :: rest)[i] = ycSize first := by
      intro i hi
      have hi' := List.getElem_of_eq h (i := i) (by simpa using hi)
      rw [List.getElem_mapIdx, List.getElem_map] at hi'
      exact (hnode i hi).mp hi'
    refine ⟨fun x hx => ?_, ?_⟩
    · obtain ⟨i, hi, rfl⟩ := List.mem_iff_getElem.mp hx
      exact (hget i hi).2
    · by_cases hone : (first :: rest).length = 1
      · exact Or.inr hone
      · have hpos : 1 < (first :: rest).length := by
          rw [List.length_cons] at hone ⊢
          omega
        exact Or.inl ((hget 1 hpos).1.resolve_right (by decide))
  · rintro ⟨htype, hone⟩
    refine List.ext_getElem (by simp) fun i h1 h2 => ?_
    have hi : i < (first :: rest).length := by simpa using h2
    rw [List.getElem_mapIdx, List.getElem_map]
    exact (hnode i hi).mpr ⟨hone.imp_right (by omega), htype _ (List.getElem_mem hi)⟩

/-- **Reports of `yc`**. -/
theorem arrives_buildYcSpon (nodes : NodeArr) (s : Core) :
    Arrives c (buildYcSpon c nodes) s (nodes.val.map ycPair) ↔ (s.stat.init = .linkIdle → YcReads nodes.val) := by
  cases hl : nodes.val with
  | nil =>
    refine iff_of_true (arrives_refused c (by simp only [buildYcSpon, hl])) fun _ first h => by cases h
  | cons first rest =>
    by_cases hi : s.stat.init = .linkIdle
    swap
    · refine iff_of_true (arrives_refused c ?_) fun h => absurd h hi
      simp only [buildYcSpon, hl, hi, ne_eq, not_false_eq_true, if_true]
    have hbuild : buildYcSpon c nodes s = sendI ⟨(ycSponType first).code, false, (first :: rest).length, Cot.spont,
        c.asduAddr⟩ ((first :: rest).flatMap (ycSponObj first)) s := by
      simp only [buildYcSpon, hl, hi, ne_eq, not_true_eq_false, if_false]
    have hlen : ((first :: rest).flatMap (ycSponObj first)).length = (first :: rest).length * ycSponSize first :=
      length_flatMap_of_const _ fun x _ => length_ycSponObj first x
    have hsize : 6 ≤ ycSponSize first := by
      rw [ycSponSize]
      split <;> omega
    have hnum : (first :: rest).length * 6 ≤ (first :: rest).length * ycSponSize first := Nat.mul_le_mul_left _ hsize
    rw [arrives_congr c hbuild, arrives_sendI, hlen, YcReads, List.head?_cons]
    simp only [hi, true_imp_iff, Option.mem_some_iff, forall_eq']
    by_cases hfit : 12 + (first :: rest).length * ycSponSize first ≤ 255
    swap
    · exact iff_of_false (fun h => hfit h.1) fun h => hfit h.2.1
    have hfit' : 12 + ((first :: rest).flatMap (ycSponObj first)).length ≤ 255 := by rw [hlen]; exact hfit
    by_cases hyear : first.value.year = 0
    swap
    · refine iff_of_false (fun h => ?_) fun h => hyear h.1
      have hnone := h.2 0 .init (behind_init s.sn)
      have htype : ycSponType first = .mSpTb1 ∨ ycSponType first = .mMeTd1 ∨ ycSponType first = .mMeTf1 := by
        have hpos : first.value.year > 0 := Nat.pos_of_ne_zero hyear
        by_cases hf : first.info.type = .float <;> simp [ycSponType, hf, hpos]
      rw [said_tagged c 0 hfit' htype] at hnone
      cases hnone
    obtain ⟨hfmt, hcause⟩ := monFmt_ycSpon hyear
    obtain ⟨hvalue, hsz⟩ := ycSponFmt_size first
    have hread : ∀ now t, Behind t s.sn → ((said c now t (mkI s.sn ⟨(ycSponType first).code, false,
        (first :: rest).length, Cot.spont, c.asduAddr⟩ ((first :: rest).flatMap (ycSponObj first))).wire).map pairOf =
          (first :: rest).mapIdx fun i x =>
            (((ycSponFmt first).node false i x.info.addr).addr, x.value.octets (ycSize first))) := by
      intro now t hb
      have hwhole := slice_inBuf t.recvBuf s.sn ⟨(ycSponType first).code, false, (first :: rest).length, Cot.spont,
        c.asduAddr⟩ ((first :: rest).flatMap (ycSponObj first)) (a := 0) (Nat.le_of_eq (Nat.zero_add _))
      rw [List.drop_zero, List.take_length] at hwhole
      rw [said_untagged c now hfit' hfmt hcause hb, Nat.mod_eq_of_lt (by omega), hvalue, hsz]
      rw [flatMap_ycSponObj hyear] at hwhole ⊢
      have hobjs := objs_encObjs (k := ycSize first) hwhole (by simp [ycSize_le]) (Nat.le_succ _)
      rw [List.length_map] at hobjs
      rw [hobjs]
      refine List.ext_getElem (by simp) fun i h1 h2 => ?_
      simp only [List.getElem_mapIdx, List.getElem_map, DevNodeVal.take_octets _ (ycSize_le first)]
    simp only [hfit, hyear, true_and]
    rw [← mapIdx_ycPair_iff (by omega)]
    exact ⟨fun h => (hread 0 .init (behind_init s.sn)).symm.trans (h 0 _ (behind_init s.sn)),
      fun h now t hb => (hread now t hb).trans h⟩

/-! ### Both -/

/-- Two normalised values, at 0x4001 and 0x4010. -/
def sampleSpon : NodeArr :=
  ⟨[⟨⟨.yc, 0x4001, .sint16⟩, blank⟩, ⟨⟨.yc, 0x4010, .sint16⟩, blank⟩], by decide⟩

end Wow.Iec104.Slave
