import Wow.Iec101.Interrogation

/-!
# Wow.Iec101.Monitoring — monitored values and what the master reads of them

The frames of an interrogation hold the elements of a group behind one address, those of a spontaneous report
objects with addresses of their own.  A frame arrives when it is built inside its buffer, well formed, and read by
every master as the addresses and values it was built from.

* `said_mkAsdu`: what a master reads of a built frame that fits.
* `groupArrives_iff`: the groups whose frames arrive.
* `reportArrives_yx`, `reportArrives_yc`: the reports whose frames arrive.
-/

namespace Wow.Iec101

open Iec10x Utils

/-! ### Objects -/

section Objects

variable {m : Mem} {k sz : Nat}

theorem u16_of_slice {p : Nat} {a : UInt16} (h : m.slice p 2 = leU16 a) : m.u16 p = a := by
  have h2 : m.slice p 2 = [m p, m (p + 1)] := rfl
  rw [h2, leU16, List.cons.injEq, List.cons.injEq] at h
  rw [Mem.u16, h.1, h.2.1, u16_of_octets]

theorem leU16_u16 (m : Mem) (p : Nat) : m.slice p 2 = leU16 (m.u16 p) := by
  have h2 : m.slice p 2 = [m p, m (p + 1)] := rfl
  have hlo := (m p).toNat_lt
  have hhi := (m (p + 1)).toNat_lt
  rw [h2, leU16, Mem.u16, UInt16.toNat_ofNat']
  congr 1
  · rw [← UInt8.toNat_inj, UInt8.toNat_ofNat']
    omega
  · congr 1
    rw [← UInt8.toNat_inj, UInt8.toNat_ofNat']
    omega

/-- **Elements behind one address** are read back, with the addresses that follow it. -/
theorem objs_elems {base : UInt16} {elems : List (List UInt8)}
    (hm : m.slice 12 (leU16 base ++ elems.flatten).length = leU16 base ++ elems.flatten)
    (hsz : ∀ e ∈ elems, e.length = sz) (hk : k ≤ sz) :
    Fld.objs m elems.length true k sz = elems.mapIdx fun i e => (base + UInt16.ofNat i, e.take k) := by
  have hflat : elems.flatten.length = elems.length * sz := by
    have h := length_flatMap_of_const (f := fun e : List UInt8 => e) elems hsz
    rwa [List.flatMap_id'] at h
  have hlen : (leU16 base ++ elems.flatten).length = 2 + elems.length * sz := by
    rw [List.length_append, length_leU16, hflat]
  have ha : m.u16 12 = base := by
    apply u16_of_slice
    have h := Mem.slice_sub (m := m) (p := 12) (j := 0) (n := 2) (l := (leU16 base ++ elems.flatten).length) (by omega)
    rw [hm] at h
    exact h.trans (List.take_left' rfl)
  apply List.ext_getElem
  · simp [Fld.objs]
  · intro i h1 h2
    have hi : i < elems.length := by simpa using h2
    have hle : 2 + i * sz + sz ≤ (leU16 base ++ elems.flatten).length := by
      rw [hlen, Nat.add_assoc, ← Nat.succ_mul]
      exact Nat.add_le_add_left (Nat.mul_le_mul_right _ hi) 2
    have hchunk : m.slice (14 + i * sz) sz = elems[i] := by
      have h := chunk_flatMap (f := fun e : List UInt8 => e) elems i hi hsz
      rw [List.flatMap_id'] at h
      rw [show 14 + i * sz = 12 + (2 + i * sz) by omega, Mem.slice_sub hle, hm, ← List.drop_drop,
        List.drop_left' (length_leU16 base), h]
    have hk' : m.slice (14 + i * sz) k = elems[i].take k := by
      rw [← hchunk]
      exact Mem.slice_sub (p := 14 + i * sz) (j := 0) (by omega)
    simp only [Fld.objs, List.getElem_map, List.getElem_range, Fld.obj, if_true, ha, hk', List.getElem_mapIdx]

/-- The object the master looks for at place `i`, one of `sz` octets behind its address. -/
theorem obj_window {info : List UInt8} (hm : m.slice 12 info.length = info) {i : Nat}
    (hle : i * (2 + sz) + 2 + k ≤ info.length) {a : UInt16} {v : List UInt8} :
    Fld.obj m false k sz i = (a, v) ↔ v.length = k ∧ (info.drop (i * (2 + sz))).take (2 + k) = leU16 a ++ v := by
  have ha : m.slice (12 + i * (2 + sz)) 2 = (info.drop (i * (2 + sz))).take 2 := by
    rw [Mem.slice_sub (l := info.length) (by omega), hm]
  have he : m.slice (14 + i * (2 + sz)) k = (info.drop (i * (2 + sz) + 2)).take k := by
    rw [show 14 + i * (2 + sz) = 12 + (i * (2 + sz) + 2) by omega, Mem.slice_sub (l := info.length) (by omega), hm]
  have hsplit : (info.drop (i * (2 + sz))).take (2 + k) =
      (info.drop (i * (2 + sz))).take 2 ++ (info.drop (i * (2 + sz) + 2)).take k := by
    rw [List.take_add, List.drop_drop]
  rw [Fld.obj, if_neg Bool.false_ne_true, Prod.mk.injEq, hsplit, ← ha, ← he]
  constructor
  · rintro ⟨h1, rfl⟩
    refine ⟨Mem.length_slice m _ k, ?_⟩
    rw [List.append_left_inj, ← h1]
    exact leU16_u16 m _
  · rintro ⟨-, h⟩
    obtain ⟨h1, h2⟩ := List.append_inj h (by simp)
    exact ⟨u16_of_slice h1, h2⟩

/-- The objects are the ones of a list exactly when each of them lies where the master looks for it. -/
theorem objs_eq_map_iff {info : List UInt8} (hm : m.slice 12 info.length = info) {α : Type} {l : List α}
    {pair : α → UInt16 × List UInt8} (hk : k ≤ sz) (hle : l.length * (2 + sz) ≤ info.length)
    (hv : ∀ x ∈ l, (pair x).2.length = k) : Fld.objs m l.length false k sz = l.map pair ↔
      ∀ i (hi : i < l.length), (info.drop (i * (2 + sz))).take (2 + k) = leU16 (pair l[i]).1 ++ (pair l[i]).2 := by
  have hobj : ∀ i (hi : i < l.length), Fld.obj m false k sz i = pair l[i] ↔
      (info.drop (i * (2 + sz))).take (2 + k) = leU16 (pair l[i]).1 ++ (pair l[i]).2 := by
    intro i hi
    have hmul : (i + 1) * (2 + sz) ≤ l.length * (2 + sz) := Nat.mul_le_mul_right _ hi
    rw [Nat.succ_mul] at hmul
    refine (obj_window hm (a := (pair l[i]).1) (v := (pair l[i]).2) (by omega)).trans ?_
    exact and_iff_right (hv _ (List.getElem_mem hi))
  constructor
  · intro h i hi
    refine (hobj i hi).mp ?_
    have hget := List.getElem_of_eq h (i := i) (by simpa [Fld.objs] using hi)
    simpa [Fld.objs] using hget
  · intro h
    apply List.ext_getElem
    · simp [Fld.objs]
    · intro i h1 h2
      have hi : i < l.length := by simpa using h2
      simpa [Fld.objs] using (hobj i hi).mpr (h i hi)

end Objects

/-! ### What the master reads -/

namespace Master

/-- The monitor types, with the causes the master takes them with and the elements it sees in them. -/
def monReads : AsduType → Option (List Nat × Option MonFmt)
  | .mSpNa1 | .mDpNa1 => some (monReasons, yxFmt .mSpNa1)
  | .mSpTb1 | .mDpTb1 => some (monReasons, yxFmt .mSpTb1)
  | .mMeNa1 => some (monReasons, ycFmt .mMeNa1)
  | .mMeNc1 => some (monReasons, ycFmt .mMeNc1)
  | .mMeTd1 | .mMeTf1 => some (monReasons, ycFmt .mMeTd1)
  | .mItNa1 => some ([Cot.req], ymFmt .mItNa1)
  | .mItTa1 => some ([Cot.req], ymFmt .mItTa1)
  | _ => none

variable (c : Conf) (s : Core) (m : Mem)

theorem values_asduMon (reasons : List Nat) (fmts : AsduType → Option MonFmt) (after : AsduType → Core → Core)
    (type : AsduType) : values ((asduMon c s reasons fmts after type).run m).2 =
      if Fld.reason m ∈ reasons then values (monVals c m (fmts type)) else [] := by
  rw [run_asduMon]
  split
  · rw [values_append]
    exact List.append_nil _
  · rfl

theorem values_asduCallAll : values ((asduCallAll c s).run m).2 = [] := by
  rw [asduCallAll, run_asduCall]
  split
  · rfl
  split
  · split <;> rfl
  · split <;> rfl

/-- **A monitor frame** hands over its values when its cause is one of those of its type. -/
theorem values_onUserData {type : AsduType} {reasons : List Nat} {fmt : Option MonFmt}
    (htype : AsduType.ofCode (m 7) = some type) (hmon : monReads type = some (reasons, fmt)) (sendBuf : UInt8) :
    values ((onUserData c s sendBuf).run m).2 = if Fld.reason m ∈ reasons then values (monVals c m fmt) else [] := by
  have hym : ∀ t, values ((asduYm c s t >>= fun r => asduCallAll c r.1 >>= fun r' =>
      (pure (r'.1, r.2 ++ r'.2) : Rd (Core × List Act))).run m).2 =
        if Fld.reason m ∈ [Cot.req] then values (monVals c m (ymFmt t)) else [] := by
    intro t
    have hmem := mem_asduMon c s m [Cot.req] ymFmt (fun _ => id) t
    simp only [Rd.run_bind, Rd.run_pure, asduYm, hmem, values_append, values_asduCallAll, List.append_nil]
    exact values_asduMon c s m [Cot.req] ymFmt (fun _ => id) t
  simp only [onUserData, Rd.run_bind, Rd.run_octet, Rd.mem_octet, htype]
  cases type with
  | mSpNa1 | mDpNa1 | mSpTb1 | mDpTb1 | mMeNa1 | mMeNc1 | mMeTd1 | mMeTf1 =>
    obtain ⟨rfl, rfl⟩ := Prod.mk.inj (Option.some.inj hmon)
    exact values_asduMon c s m _ _ _ _
  | mItNa1 | mItTa1 =>
    obtain ⟨rfl, rfl⟩ := Prod.mk.inj (Option.some.inj hmon)
    exact hym _
  | _ => cases hmon

/-- The values of objects for a callback that is set. -/
theorem values_valCalls (hcb : c.valCb = true) (f : MonFmt) (objs : List (UInt16 × List UInt8)) :
    values (valCalls c f objs) = objs.map fun o => (⟨f.mode, o.1, f.type⟩, o.2) := by
  rw [valCalls, if_pos hcb, values, List.filterMap_map]
  exact congrFun List.filterMap_eq_map' _

end Master

/-- Address and value, whatever the kind of the node. -/
def pairOf (r : DevNodeInfo × List UInt8) : UInt16 × List UInt8 := (r.1.addr, r.2)

/-- What a master hands over in a round that reads a frame. -/
def said (cm : Master.Conf) (sendBuf : UInt8) (t : Station Master.Core) (read : Read) : List (UInt16 × List UInt8) :=
  (values (recv (Master.handlers cm sendBuf) read t).2).map pairOf

/-- A master that is ready for a frame, its value callback set. -/
structure Listens (cm : Master.Conf) (t : Station Master.Core) : Prop where
  valCb : cm.valCb = true
  sound : t.Sound
  empty : t.array.octets = []

/-- The fields of a built frame, in the buffer of who reads it. -/
structure Bodied (m : Mem) (ctrl : UInt8) (h : AsduHead) (info : List UInt8) : Prop where
  func : Fld.func m = ctrl.toNat % 16
  type : m 7 = h.type
  num : Fld.num m = h.num % 128
  sq : Fld.sq m = h.sq
  reason : Fld.reason m = h.reason % 64
  info : m.slice 12 info.length = info

theorem bodied {m : Mem} {ctrl : UInt8} {addr : UInt16} {h : AsduHead} {info : List UInt8}
    (hm : ∀ i (hi : i < (ctrl :: (leU16 addr ++ (h.octets ++ info))).length),
      m (4 + i) = (ctrl :: (leU16 addr ++ (h.octets ++ info)))[i]) : Bodied m ctrl h info := by
  have hlen : (ctrl :: (leU16 addr ++ (h.octets ++ info))).length = 8 + info.length := by
    rw [List.length_cons, List.length_append, List.length_append, AsduHead.length_octets, length_leU16]
    omega
  have h4 : m 4 = ctrl := hm 0 (by omega)
  have h8 : m 8 = UInt8.ofNat (h.num % 128 + bit h.sq 7) := hm 4 (by omega)
  have h9 : m 9 = UInt8.ofNat (h.reason % 64 + bit h.pn 6 + bit h.test 7) := hm 5 (by omega)
  have hlt : h.num % 128 < 128 := Nat.mod_lt _ (by decide)
  have hsq : bit h.sq 7 = if h.sq then 128 else 0 := by rw [bit]; rfl
  refine ⟨?_, hm 3 (by omega), ?_, ?_, ?_, ?_⟩
  · rw [Fld.func, h4]
  · rw [Fld.num, h8, hsq, UInt8.toNat_ofNat']
    split <;> omega
  · rw [Fld.sq, h8, hsq, UInt8.toNat_ofNat']
    cases h.sq with
    | true => exact decide_eq_true (by rw [if_pos rfl]; omega)
    | false => exact decide_eq_false (by rw [if_neg Bool.false_ne_true]; omega)
  · rw [Fld.reason, h9]
    exact reason_octet h
  · apply List.ext_getElem
    · exact Mem.length_slice _ _ _
    · intro i h1 h2
      rw [Mem.getElem_slice, show 12 + i = 4 + (8 + i) by omega, hm (8 + i) (by omega)]
      have hget := List.getElem_append_right' (ctrl :: (leU16 addr ++ h.octets)) h2
      simp only [List.cons_append, List.append_assoc] at hget
      rw [hget]
      congr 1
      exact Nat.add_comm 8 i

/-- A frame of variable length around a head and its objects. -/
abbrev mkAsdu (ctrl : UInt8) (addr : UInt16) (h : AsduHead) (info : List UInt8) : SendBuf :=
  mk68 ctrl addr (h.octets ++ info) (lenOf (h.octets ++ info))

/-- **What a master reads of a frame that fits**. -/
theorem said_mkAsdu {cm : Master.Conf} {t : Station Master.Core} (ht : Listens cm t) (sendBuf : UInt8) {ctrl : UInt8}
    {addr : UInt16} {h : AsduHead} {info : List UInt8} {read : Read}
    (hread : read.val = (mkAsdu ctrl addr h info).wire) (hfit : lenOf (h.octets ++ info) ≤ 255)
    (hfunc : ctrl.toNat % 16 = Func.resUsrDataAck) {type : AsduType}
    (htype : h.type = type.code) {reasons : List Nat} {fmt : Option Master.MonFmt}
    (hmon : Master.monReads type = some (reasons, fmt)) : ∃ m : Mem, m.slice 12 info.length = info ∧
      said cm sendBuf t read = if h.reason % 64 ∈ reasons then
        match fmt with
        | none => []
        | some f => Fld.objs m (h.num % 128) h.sq f.value f.size
      else [] := by
  have hyt : Iec104.ytFmt type = none := by
    cases type <;> first | rfl | cases hmon
  have hwire := wire_mk68 ctrl addr hfit
  have hwhole := whole_mk68 ctrl addr h info hfit htype hyt
  have hle := hwire ▸ Nat.le_trans (length_wire_le ctrl addr (h.octets ++ info) _) (Nat.le_of_lt_succ (UInt8.toNat_lt _))
  obtain ⟨-, -, m, hm, len, hserve⟩ :=
    recv_octets68 (Master.spare_handlers cm sendBuf) hwhole hle ht.sound ht.empty (hread.trans hwire)
  have hb := bodied hm
  have huser : Master.UserData m := Or.inr (hb.func.trans hfunc)
  have htype' : AsduType.ofCode (m 7) = some type := by rw [hb.type, htype, AsduType.ofCode_code]
  have hacts : values (recv (Master.handlers cm sendBuf) read t).2 =
      values ((Master.onUserData cm t.core sendBuf).run m).2 := by
    rw [(Prod.mk.inj hserve).2]
    show values (.rx _ :: ((Master.on68 cm t.core sendBuf len).run m).2) = _
    rw [Master.run_on68, if_pos huser]
    rfl
  refine ⟨m, hb.info, ?_⟩
  rw [said, hacts, Master.values_onUserData cm t.core m htype' hmon, hb.reason]
  split
  · cases fmt with
    | none => rfl
    | some f =>
      rw [Master.monVals, Master.values_valCalls cm ht.valCb, hb.num, hb.sq, List.map_map]
      exact List.map_id _
  · rfl

/-! ### Arriving -/

/-- **A frame arrives**: it is built inside its buffer, its length octets and check sum are right, and every master that
reads it hands over `pairs`. -/
structure Arrives (f : SendBuf) (pairs : List (UInt16 × List UInt8)) : Prop where
  inside : Inside (.send f true)
  form : ∃ l body, f.wire = octets68 l body ∧ body.length = l.toNat
  said : ∀ cm sendBuf t (read : Read), Listens cm t → read.val = f.wire → said cm sendBuf t read = pairs

/-- A master after its `init` call listens. -/
theorem listens_init : Listens ⟨1, true, true⟩ Master.init := ⟨rfl, ⟨rfl, Nat.zero_le _⟩, rfl⟩

section Built

variable {ctrl : UInt8} {addr : UInt16} {h : AsduHead} {info : List UInt8} {type : AsduType}
    (htype : h.type = type.code)
  {reasons : List Nat} {fmt : Option Master.MonFmt} (hmon : Master.monReads type = some (reasons, fmt))
  (hfunc : ctrl.toNat % 16 = Func.resUsrDataAck) {pairs : List (UInt16 × List UInt8)}

theorem lenOf_octets : lenOf (h.octets ++ info) = info.length + 14 := by
  rw [lenOf, List.length_append, AsduHead.length_octets]
  omega

include htype hmon hfunc

/-- What an arriving frame is like. -/
theorem Arrives.fits (harr : Arrives (mkAsdu ctrl addr h info) pairs) : info.length ≤ 241 ∧
    ∃ m : Mem, m.slice 12 info.length = info ∧ (if h.reason % 64 ∈ reasons then
        match fmt with
        | none => []
        | some f => Fld.objs m (h.num % 128) h.sq f.value f.size
      else []) = pairs := by
  obtain ⟨hin, ⟨l, body, hwire, -⟩, hread⟩ := harr
  have hlen : lenOf (h.octets ++ info) = info.length + 14 := lenOf_octets
  have hfit : info.length ≤ 241 := by
    rcases lenOf_of_inside hin with hle | heq
    · omega
    · -- a length octet of two: only check sum and end go out
      have hle := length_wire_le ctrl addr (h.octets ++ info) (lenOf (h.octets ++ info))
      have htwo : (UInt8.ofNat (lenOf (h.octets ++ info))).toNat = 2 := by rw [heq]; rfl
      have hsix := length_octets68 l body
      rw [hwire] at hle
      omega
  have hle : (mkAsdu ctrl addr h info).wire.length ≤ 1500 :=
    Nat.le_trans (length_wire_le _ _ _ _) (Nat.le_trans (Nat.le_of_lt (UInt8.toNat_lt _)) (by decide))
  obtain ⟨m, hm, hs⟩ := said_mkAsdu listens_init 0 (show (⟨_, hle⟩ : Read).val = _ from rfl) (by omega) hfunc htype hmon
  exact ⟨hfit, m, hm, hs.symm.trans (hread _ 0 _ ⟨_, hle⟩ listens_init rfl)⟩

/-- **A built frame arrives** when it fits and holds what the master is to read. -/
theorem arrives_mkAsdu (hfit : info.length ≤ 241) (hpairs : ∀ m : Mem, m.slice 12 info.length = info →
      (if h.reason % 64 ∈ reasons then
        match fmt with
        | none => []
        | some f => Fld.objs m (h.num % 128) h.sq f.value f.size
      else []) = pairs) : Arrives (mkAsdu ctrl addr h info) pairs := by
  have hlen : lenOf (h.octets ++ info) = info.length + 14 := lenOf_octets
  have hyt : Iec104.ytFmt type = none := by
    cases type <;> first | rfl | cases hmon
  refine ⟨inside_mk68 ctrl addr (by omega), ⟨_, _, wire_mk68 ctrl addr (by omega),
    (whole_mk68 ctrl addr h info (by omega) htype hyt).length⟩, ?_⟩
  intro cm sendBuf t read ht hread
  obtain ⟨m, hm, hs⟩ := said_mkAsdu ht sendBuf hread (by omega) hfunc htype hmon
  exact hs.trans (hpairs m hm)

end Built

namespace Slave

/-- One frame goes out, and it arrives. -/
def Tells (acts : List Act) (pairs : List (UInt16 × List UInt8)) : Prop := ∃ f, acts = [send f] ∧ Arrives f pairs

theorem tells_send (f : SendBuf) (pairs : List (UInt16 × List UInt8)) : Tells [send f] pairs ↔ Arrives f pairs := by
  constructor
  · rintro ⟨f', hf, h⟩
    rwa [(Act.send.inj (List.cons.inj hf).1).1]
  · exact fun h => ⟨f, rfl, h⟩

/-! ### Groups -/

/-- The four kinds of group, with the loops of `wow_iec101_s_set_node_info` that make them. -/
inductive GroupKind where
  | yx | ycN | ycF | ym
  deriving DecidableEq

namespace GroupKind

/-- The most nodes a loop puts into a group. -/
def limit : GroupKind → Nat
  | yx => 200
  | ycN => 100
  | ycF | ym => 50

/-- The nodes of the kind. -/
def holds : GroupKind → DevNodeInfo → Bool
  | yx => isYx
  | ycN => isYcN
  | ycF => isYcF
  | ym => isYm

/-- The octets of a value. -/
def size : GroupKind → Nat
  | yx => 1
  | ycN => 2
  | ycF | ym => 4

/-- The most nodes a frame tells the master of; it takes integrated totals only as the answer to a request, and they
are sent as the answer to an interrogation. -/
def reach : GroupKind → Nat
  | yx => 127
  | ycN => 79
  | ycF => 47
  | ym => 0

end GroupKind

variable {P : Type} (c : Conf P) {k : GroupKind}

/-- The builder of a kind, with the cause of the interrogation that calls it. -/
def GroupKind.build : GroupKind → List DevNodeInfo → List Act
  | .yx => buildYx c Cot.introgen
  | .ycN | .ycF => buildYc c Cot.introgen
  | .ym => buildYm c Cot.reqcogen

/-- A group within the limits of `wow_iec101_s_set_node_info`: nodes of one kind, one address after the other. -/
structure Group (k : GroupKind) where
  first : DevNodeInfo
  rest : List DevNodeInfo
  holds : ∀ x ∈ first :: rest, k.holds x = true
  limit : (first :: rest).length ≤ k.limit
  consecutive : ∀ i (hi : i < (first :: rest).length), (first :: rest)[i].addr.toNat = first.addr.toNat + i

/-- Its nodes. -/
def Group.nodes (g : Group k) : List DevNodeInfo := g.first :: g.rest

/-- The value of a node, zero without a callback. -/
def valueOf (size : Nat) (x : DevNodeInfo) : List UInt8 :=
  match getVal c x with
  | some v => v.octets size
  | none => List.replicate size 0

/-- What the master is to read of a group. -/
def Group.pairs (g : Group k) : List (UInt16 × List UInt8) :=
  g.nodes.mapIdx fun i x => (g.first.addr + UInt16.ofNat i, valueOf c k.size x)

/-- The elements in its frame. -/
def Group.elems (g : Group k) (elem : Nat → DevNodeInfo → List UInt8) : List (List UInt8) :=
  (g.nodes.take (g.nodes.length % 128)).mapIdx elem

section Elems

variable {c} {g : Group k} {elem : Nat → DevNodeInfo → List UInt8} {size value : Nat}

variable (g elem) in
theorem Group.length_elems : (g.elems elem).length = g.nodes.length % 128 := by
  rw [Group.elems, List.length_mapIdx, List.length_take]
  omega

variable (hsize : ∀ i, ∀ x ∈ g.nodes, (elem i x).length = size)
include hsize

theorem Group.length_of_mem_elems : ∀ e ∈ g.elems elem, e.length = size := by
  intro e he
  obtain ⟨i, hi, rfl⟩ := List.mem_mapIdx.mp he
  exact hsize i _ (List.mem_of_mem_take (List.getElem_mem hi))

theorem Group.length_info :
    (leU16 g.first.addr ++ (g.elems elem).flatten).length = 2 + g.nodes.length % 128 * size := by
  have h := length_flatMap_of_const (f := fun e : List UInt8 => e) _ (Group.length_of_mem_elems hsize)
  rw [List.flatMap_id', Group.length_elems] at h
  rw [List.length_append, h, length_leU16]

/-- The objects of the frame: its first nodes, as many as the head announces. -/
theorem Group.objs (hle : value ≤ size) (hvalue : ∀ i, ∀ x ∈ g.nodes, (elem i x).take value = valueOf c k.size x)
    {m : Mem} (hm : m.slice 12 (leU16 g.first.addr ++ (g.elems elem).flatten).length =
      leU16 g.first.addr ++ (g.elems elem).flatten) :
    Fld.objs m (g.nodes.length % 128) true value size = (g.pairs c).take (g.nodes.length % 128) := by
  rw [← Group.length_elems g elem, objs_elems hm (Group.length_of_mem_elems hsize) hle]
  apply List.ext_getElem
  · simp [Group.pairs, Group.elems]
  · intro i h1 h2
    simp only [Group.elems, List.getElem_mapIdx, List.getElem_take, Group.pairs]
    rw [hvalue i _ (List.getElem_mem _)]

end Elems

/-- **The frame of a group**, for any of the builders. -/
theorem arrives_buildGroup (g : Group k) (type : DevNodeInfo → AsduType) (elem : Nat → DevNodeInfo → List UInt8)
    (reason : Nat) {reasons : List Nat} {f : Master.MonFmt}
    (hmon : Master.monReads (type g.first) = some (reasons, some f))
    (hreason : reason < 64) (hsize : ∀ i, ∀ x ∈ g.nodes, (elem i x).length = f.size) (hle : f.value ≤ f.size)
    (hvalue : ∀ i, ∀ x ∈ g.nodes, (elem i x).take f.value = valueOf c k.size x) :
    Tells (buildGroup c type elem reason g.nodes) (g.pairs c) ↔
      reason ∈ reasons ∧ g.nodes.length ≤ 127 ∧ g.nodes.length * f.size ≤ 239 := by
  have hpos : 0 < g.nodes.length := Nat.succ_pos _
  have hpairs : (g.pairs c).length = g.nodes.length := List.length_mapIdx
  have hbuild : buildGroup c type elem reason g.nodes = [send (mkAsdu (ctrlUp false false true false Func.resUsrDataAck)
      c.asduAddr ⟨(type g.first).code, true, g.nodes.length, reason, false, false, c.asduAddr⟩
        (leU16 g.first.addr ++ (g.elems elem).flatten))] := by
    unfold buildGroup Group.nodes
    dsimp only
    rw [List.append_assoc]
    rfl
  have hvals : ∀ m : Mem, m.slice 12 (leU16 g.first.addr ++ (g.elems elem).flatten).length =
      leU16 g.first.addr ++ (g.elems elem).flatten →
        (if reason % 64 ∈ reasons then Fld.objs m (g.nodes.length % 128) true f.value f.size else []) =
          if reason ∈ reasons then (g.pairs c).take (g.nodes.length % 128) else [] := by
    intro m hm
    rw [Nat.mod_eq_of_lt hreason, Group.objs hsize hle hvalue hm]
  have hinfo := Group.length_info (g := g) hsize
  rw [hbuild, tells_send]
  constructor
  · intro h
    obtain ⟨hfit, m, hm, heq⟩ := h.fits rfl hmon (by decide)
    have heq' := (hvals m hm).symm.trans heq
    rw [hinfo] at hfit
    have hr : reason ∈ reasons := by
      by_contra hr
      rw [if_neg hr] at heq'
      rw [← heq'] at hpairs
      exact absurd hpairs.symm (Nat.ne_of_gt hpos)
    rw [if_pos hr] at heq'
    have hcount := congrArg List.length heq'
    rw [List.length_take, hpairs] at hcount
    have hmod : g.nodes.length % 128 = g.nodes.length := by omega
    rw [hmod] at hfit
    exact ⟨hr, by omega, by omega⟩
  · rintro ⟨hr, hn, hfit⟩
    have hmod : g.nodes.length % 128 = g.nodes.length := by omega
    refine arrives_mkAsdu rfl hmon (by decide) (by rw [hinfo, hmod]; omega) fun m hm => ?_
    refine (hvals m hm).trans ?_
    rw [hmod, if_pos hr]
    exact List.take_of_length_le (Nat.le_of_eq hpairs)

theorem length_valueOf {size : Nat} (h : size ≤ 8) (x : DevNodeInfo) : (valueOf c size x).length = size := by
  unfold valueOf
  cases getVal c x with
  | none => exact List.length_replicate
  | some v => rw [DevNodeVal.length_octets, Nat.min_eq_left h]

theorem yxElem_eq (i : Nat) (x : DevNodeInfo) : yxElem c i x = valueOf c 1 x := by
  unfold yxElem valueOf
  cases getVal c x with
  | none => rfl
  | some v => exact (DevNodeVal.octets_one v).symm

theorem ycElem_eq (i : Nat) {x : DevNodeInfo} {size : Nat} (h : size = if x.type = .float then 4 else 2) :
    ycElem c i x = valueOf c size x ++ [0] := by
  subst h
  unfold ycElem valueOf
  by_cases hf : x.type = .float
  · rw [if_pos hf, hf]
    cases getVal c x <;> rfl
  · rw [if_neg hf]
    cases ht : x.type with
    | float => exact absurd ht hf
    | _ => cases getVal c x <;> rfl

theorem ymElem_eq (i : Nat) (x : DevNodeInfo) : ymElem c i x = valueOf c 4 x ++ [UInt8.ofNat i] := by
  unfold ymElem valueOf
  cases getVal c x <;> rfl

/-- A value with an octet behind it. -/
theorem valueOf_append {size : Nat} (h : size ≤ 8) (x : DevNodeInfo) (b : UInt8) :
    (valueOf c size x ++ [b]).length = size + 1 ∧ (valueOf c size x ++ [b]).take size = valueOf c size x := by
  have hlen := length_valueOf c h x
  exact ⟨by rw [List.length_append, hlen]; rfl, List.take_left' hlen⟩

theorem tells_yx (g : Group .yx) : Tells (buildYx c Cot.introgen g.nodes) (g.pairs c) ↔ g.nodes.length ≤ 127 := by
  have h := arrives_buildGroup c g (fun _ => .mSpNa1) (yxElem c) Cot.introgen rfl
    (by decide) (fun i x _ => length_yxElem i x) (Nat.le_refl 1) fun i x _ => by
      rw [yxElem_eq, List.take_of_length_le (Nat.le_of_eq (length_valueOf c (by decide) x))]
      rfl
  refine h.trans ⟨fun h => h.2.1, fun hn => ⟨by decide, hn, ?_⟩⟩
  show g.nodes.length * 1 ≤ 239
  omega

/-- Nodes of one size. -/
theorem tells_yc (g : Group k) (hk : k.size = 2 ∨ k.size = 4)
    (hty : ∀ x ∈ g.nodes, k.size = if x.type = .float then 4 else 2) :
    Tells (buildYc c Cot.introgen g.nodes) (g.pairs c) ↔ g.nodes.length * (k.size + 1) ≤ 239 := by
  have hle : k.size ≤ 8 := by omega
  have hmon : ∃ f, Master.monReads (if g.first.type = .float then AsduType.mMeNc1 else .mMeNa1) =
      some (Master.monReasons, some f) ∧ f.value = k.size ∧ f.size = k.size + 1 := by
    have hfirst := hty g.first List.mem_cons_self
    by_cases hf : g.first.type = .float
    · rw [if_pos hf] at hfirst ⊢
      exact ⟨_, rfl, hfirst.symm, by rw [hfirst]⟩
    · rw [if_neg hf] at hfirst ⊢
      exact ⟨_, rfl, hfirst.symm, by rw [hfirst]⟩
  obtain ⟨f, hf, hvalue, hsize⟩ := hmon
  have h := arrives_buildGroup c g (fun x => if x.type = .float then .mMeNc1 else .mMeNa1) (ycElem c)
    Cot.introgen hf (by decide)
    (fun i x hx => by rw [ycElem_eq c i (hty x hx), (valueOf_append c hle x 0).1, hsize]) (by omega)
    fun i x hx => by rw [ycElem_eq c i (hty x hx), hvalue, (valueOf_append c hle x 0).2]
  rw [buildYc, h, hsize]
  constructor
  · exact fun h => h.2.2
  · intro hn
    refine ⟨by decide, ?_, hn⟩
    rcases hk with hk | hk
    · rw [hk] at hn
      omega
    · rw [hk] at hn
      omega

/-- The cause of the answer is not one the master takes counters with. -/
theorem not_tells_ym (g : Group .ym) : ¬ Tells (buildYm c Cot.reqcogen g.nodes) (g.pairs c) := by
  have h := arrives_buildGroup c g (fun _ => .mItNa1) (ymElem c) Cot.reqcogen rfl
    (by decide) (fun i x _ => by rw [ymElem_eq, (valueOf_append c (by decide) x _).1]) (by decide)
    fun i x _ => by rw [ymElem_eq]; exact (valueOf_append c (by decide) x _).2
  intro ht
  exact absurd (h.mp ht).1 (by decide)

/-- A group of one counter. -/
def sampleGroup : Group .ym :=
  ⟨⟨.ym, 0x0C01, .sint32⟩, [], by decide, by decide, fun i hi => by
    obtain rfl : i = 0 := Nat.lt_one_iff.mp hi
    rfl⟩

/-- A report is refused with nothing sent, or its frame arrives. -/
def ReportArrives (report : Cmd Core) (s : Core) (pairs : List (UInt16 × List UInt8)) : Prop :=
  (report s).2 = [] ∨ Tells (report s).2 pairs

/-- What is refused arrives. -/
theorem reportArrives_refused {report : Cmd Core} {s : Core} {pairs : List (UInt16 × List UInt8)}
    (h : (report s).2 = []) : ReportArrives report s pairs := Or.inl h

/-- A frame that goes out. -/
theorem reportArrives_sent {report : Cmd Core} {s : Core} {f : SendBuf} {pairs : List (UInt16 × List UInt8)}
    (h : (report s).2 = [send f]) : ReportArrives report s pairs ↔ Arrives f pairs := by
  rw [ReportArrives, h, tells_send, or_iff_right (List.cons_ne_nil _ _)]

/-- The octets of a value in a report of yc. -/
def ycSize (x : DevNodeCtrl) : Nat := if x.info.type = .float then 4 else 2

/-- Address and value of a node of a report. -/
def yxPair (x : DevNodeCtrl) : UInt16 × List UInt8 := (x.info.addr, [x.value.u8])

def ycPair (x : DevNodeCtrl) : UInt16 × List UInt8 := (x.info.addr, x.value.octets (ycSize x))

/-- The object of a node in a report of yx with time tags. -/
def yxTagged (x : DevNodeCtrl) : List UInt8 := leU16 x.info.addr ++ [x.value.u8] ++ x.value.time.toList

/-- Every node is found where the master looks for it, three octets behind the one before, though its object is ten
octets long: from the second node on it is the tags in front that have to read like address and value. -/
def Unshifted (nodes : List DevNodeCtrl) : Prop :=
  ∀ i (hi : i < nodes.length), ((nodes.flatMap yxTagged).drop (i * 3)).take 3 =
    leU16 nodes[i].info.addr ++ [nodes[i].value.u8]

/-- The reports of yx the master reads as they are: with time tags, though their type is the one without. -/
def YxReads (nodes : List DevNodeCtrl) : Prop :=
  (∀ first ∈ nodes.head?, 0 < first.value.year) ∧ nodes.length ≤ 24 ∧ Unshifted nodes

/-- The reports of yc the master reads as they are: without time tags, all values of one size, and short enough. -/
def YcReads (nodes : List DevNodeCtrl) : Prop :=
  ∀ first ∈ nodes.head?, first.value.year = 0 ∧ (∀ x ∈ nodes, ycSize x = ycSize first) ∧
    nodes.length * (ycSize first + 3) ≤ 241

theorem yxReads_nil : YxReads [] :=
  ⟨fun _ hf => absurd hf (Option.not_mem_none _), Nat.zero_le _, fun i hi => absurd hi (Nat.not_lt_zero i)⟩

theorem ycReads_nil : YcReads [] := fun _ hf => absurd hf (Option.not_mem_none _)

/-- The frame of a report: objects with their own addresses, under the type of the first. -/
def sponFrame (type : AsduType) (n : Nat) (info : List UInt8) : SendBuf :=
  mkAsdu (ctrlUp false false false false Func.resUsrDataAck) c.asduAddr
    ⟨type.code, false, n, Cot.spont, false, false, c.asduAddr⟩ info

section Report

variable {type : DevNodeCtrl → AsduType} {obj : DevNodeCtrl → DevNodeCtrl → List UInt8} {nodes : NodeArr} {s : Core}
  {pair : DevNodeCtrl → UInt16 × List UInt8}

theorem buildSpon_empty (hl : nodes.val = []) : (buildSpon c type obj nodes s).2 = [] := by
  simp only [buildSpon, hl]

theorem buildSpon_busy (hi : s.stat.init ≠ .linkIdle) : (buildSpon c type obj nodes s).2 = [] := by
  cases hl : nodes.val with
  | nil => exact buildSpon_empty c hl
  | cons first rest => simp only [buildSpon, hl, hi, ne_eq, not_false_eq_true, if_true]

theorem buildSpon_idle {first : DevNodeCtrl} {rest : List DevNodeCtrl} (hl : nodes.val = first :: rest)
    (hi : s.stat.init = .linkIdle) : (buildSpon c type obj nodes s).2 =
      [send (sponFrame c (type first) (first :: rest).length ((first :: rest).flatMap (obj first)))] := by
  simp only [buildSpon, hl, hi, ne_eq, not_true_eq_false, if_false]
  rfl

/-- A report is refused or sent. -/
theorem reportArrives_iff {reads : List DevNodeCtrl → Prop} (hnil : reads [])
    (hcons : ∀ first rest, nodes.val = first :: rest →
      (Arrives (sponFrame c (type first) (first :: rest).length ((first :: rest).flatMap (obj first)))
        ((first :: rest).map pair) ↔ reads (first :: rest))) :
    ReportArrives (buildSpon c type obj nodes) s (nodes.val.map pair) ↔
    (s.stat.init = .linkIdle → reads nodes.val) := by
  by_cases hi : s.stat.init = .linkIdle
  · rw [imp_iff_right hi]
    cases hl : nodes.val with
    | nil => exact iff_of_true (reportArrives_refused (buildSpon_empty c hl)) hnil
    | cons first rest => exact (reportArrives_sent (buildSpon_idle c hl hi)).trans (hcons first rest hl)
  · exact iff_of_true (reportArrives_refused (buildSpon_busy c hi)) fun h => absurd h hi

end Report

/-- A type the master passes over. -/
theorem not_arrives_tagged {type : AsduType} {reasons : List Nat} (hmon : Master.monReads type = some (reasons, none))
    {n : Nat} {info : List UInt8} {pairs : List (UInt16 × List UInt8)} (hne : pairs ≠ []) :
    ¬ Arrives (sponFrame c type n info) pairs := by
  intro h
  obtain ⟨-, m, -, hm⟩ := h.fits rfl hmon (by decide)
  dsimp only at hm
  rw [ite_self] at hm
  exact hne hm.symm

/-- The reports of yx with a time tag. -/
theorem arrives_yxTagged_iff {nodes : List DevNodeCtrl} :
    Arrives (sponFrame c .mSpNa1 nodes.length (nodes.flatMap yxTagged)) (nodes.map yxPair) ↔
      nodes.length ≤ 24 ∧ Unshifted nodes := by
  have hlen : (nodes.flatMap yxTagged).length = nodes.length * 10 :=
    length_flatMap_of_const nodes fun x _ => by simp [yxTagged]
  have hmon : Master.monReads .mSpNa1 = some (Master.monReasons, some ⟨.yx, .sint8, 1, 1⟩) := rfl
  have hread : nodes.length ≤ 24 → ∀ m : Mem, m.slice 12 (nodes.flatMap yxTagged).length = nodes.flatMap yxTagged →
      (Fld.objs m (nodes.length % 128) false 1 1 = nodes.map yxPair ↔ Unshifted nodes) := by
    intro hn m hm
    rw [Nat.mod_eq_of_lt (by omega)]
    exact objs_eq_map_iff hm (Nat.le_refl 1) (by omega) fun x _ => rfl
  constructor
  · intro h
    obtain ⟨hfit, m, hm, heq⟩ := h.fits rfl hmon (by decide)
    have hn : nodes.length ≤ 24 := by omega
    exact ⟨hn, (hread hn m hm).mp heq⟩
  · rintro ⟨hn, hu⟩
    exact arrives_mkAsdu rfl hmon (by decide) (by omega) fun m hm => (hread hn m hm).mpr hu

/-- **Reports of yx**. -/
theorem reportArrives_yx (nodes : NodeArr) (s : Core) :
    ReportArrives (buildYxSpon c nodes) s (nodes.val.map yxPair) ↔ (s.stat.init = .linkIdle → YxReads nodes.val) := by
  refine reportArrives_iff c yxReads_nil ?_
  intro first rest _
  by_cases hyear : 0 < first.value.year
  · have hobj : (first :: rest).flatMap (fun x => leU16 x.info.addr ++ [x.value.u8] ++ timeTag first x) =
        (first :: rest).flatMap yxTagged := by
      refine List.flatMap_congr fun x _ => ?_
      rw [timeTag, if_pos hyear, yxTagged]
    rw [hobj, yxSponType, if_pos hyear, arrives_yxTagged_iff, YxReads, List.head?_cons]
    simp only [Option.mem_some_iff, forall_eq', hyear, true_and]
  · rw [yxSponType, if_neg hyear]
    exact iff_of_false (not_arrives_tagged c rfl (List.cons_ne_nil _ _)) fun h => hyear (h.1 first rfl)

/-- The object of a node in a report of yc without time tags. -/
def ycObj (x : DevNodeCtrl) : List UInt8 := leU16 x.info.addr ++ x.value.octets (ycSize x) ++ [0]

theorem ycSize_cases (x : DevNodeCtrl) : ycSize x = 2 ∨ ycSize x = 4 := by
  unfold ycSize
  split
  · exact Or.inr rfl
  · exact Or.inl rfl

theorem length_octets_ycSize (x : DevNodeCtrl) (v : DevNodeVal) : (v.octets (ycSize x)).length = ycSize x := by
  have h := ycSize_cases x
  rw [DevNodeVal.length_octets]
  omega

/-- How the master reads the type of an untagged report. -/
theorem monReads_ycSpon {first : DevNodeCtrl} (hyear : ¬ 0 < first.value.year) :
    ∃ f, Master.monReads (ycSponType first) = some (Master.monReasons, some f) ∧ f.value = ycSize first ∧
      f.size = ycSize first + 1 := by
  unfold ycSponType ycSize
  by_cases hf : first.info.type = .float
  · rw [if_pos hf, if_neg hyear, if_pos hf]
    exact ⟨_, rfl, rfl, rfl⟩
  · rw [if_neg hf, if_neg hyear, if_neg hf]
    exact ⟨_, rfl, rfl, rfl⟩

theorem monReads_ycTagged {first : DevNodeCtrl} (hyear : 0 < first.value.year) :
    Master.monReads (ycSponType first) = some (Master.monReasons, none) := by
  unfold ycSponType
  by_cases hf : first.info.type = .float
  · rw [if_pos hf, if_pos hyear]
    rfl
  · rw [if_neg hf, if_pos hyear]
    rfl

/-- Objects of one size lie where the master looks for them. -/
theorem objs_ycObj {nodes : List DevNodeCtrl} {size : Nat} (hsize : ∀ x ∈ nodes, ycSize x = size) {m : Mem}
    (hm : m.slice 12 (nodes.flatMap ycObj).length = nodes.flatMap ycObj) :
    Fld.objs m nodes.length false size (size + 1) = nodes.map ycPair := by
  have hlen : ∀ x ∈ nodes, (ycObj x).length = 2 + (size + 1) := by
    intro x hx
    rw [ycObj, List.length_append, List.length_append, length_octets_ycSize, hsize x hx, length_leU16]
    rfl
  refine (objs_eq_map_iff hm (Nat.le_succ size) ?_ fun x hx => ?_).mpr fun i hi => ?_
  · rw [length_flatMap_of_const nodes hlen]
  · exact (length_octets_ycSize x x.value).trans (hsize x hx)
  · have hchunk := chunk_flatMap nodes i hi hlen
    have htake := congrArg (List.take (2 + size)) hchunk
    rw [List.take_take, Nat.min_eq_left (by omega)] at htake
    rw [htake, ycObj, ycPair]
    refine List.take_left' ?_
    rw [List.length_append, length_octets_ycSize, hsize _ (List.getElem_mem hi), length_leU16]

/-- **Reports of yc**. -/
theorem reportArrives_yc (nodes : NodeArr) (s : Core) :
    ReportArrives (buildYcSpon c nodes) s (nodes.val.map ycPair) ↔ (s.stat.init = .linkIdle → YcReads nodes.val) := by
  refine reportArrives_iff c ycReads_nil ?_
  intro first rest _
  by_cases hyear : 0 < first.value.year
  · refine iff_of_false (not_arrives_tagged c (monReads_ycTagged hyear) (List.cons_ne_nil _ _)) fun h => ?_
    exact absurd (h first rfl).1 (Nat.ne_of_gt hyear)
  have hobj : (first :: rest).flatMap (fun x => leU16 x.info.addr ++
      x.value.octets (if x.info.type = .float then 4 else 2) ++ [0] ++ timeTag first x) = (first :: rest).flatMap ycObj := by
    refine List.flatMap_congr fun x _ => ?_
    rw [timeTag, if_neg hyear, List.append_nil]
    rfl
  obtain ⟨f, hmon, hvalue, hsize⟩ := monReads_ycSpon hyear
  have hlen : (∀ x ∈ first :: rest, ycSize x = ycSize first) →
      ((first :: rest).flatMap ycObj).length = (first :: rest).length * (ycSize first + 3) := fun hs =>
    length_flatMap_of_const _ fun x hx => by
      rw [ycObj, List.length_append, List.length_append, length_octets_ycSize, hs x hx, length_leU16, Nat.add_comm 2]
      rfl
  have hpos := ycSize_cases first
  rw [hobj, YcReads, List.head?_cons]
  simp only [Option.mem_some_iff, forall_eq', Nat.eq_zero_of_not_pos hyear, true_and]
  constructor
  · intro h
    obtain ⟨hfit, m, -, heq⟩ := h.fits rfl hmon (by decide)
    dsimp only at heq
    rw [if_pos (by decide : Cot.spont % 64 ∈ Master.monReasons)] at heq
    have hs : ∀ x ∈ first :: rest, ycSize x = ycSize first := by
      intro x hx
      have hmem : ycPair x ∈ Fld.objs m ((first :: rest).length % 128) false f.value f.size := by
        rw [heq]
        exact List.mem_map_of_mem hx
      obtain ⟨i, -, hi⟩ := List.mem_map.mp hmem
      have hval : m.slice (14 + i * (2 + f.size)) f.value = x.value.octets (ycSize x) := (Prod.mk.inj hi).2
      rw [← hvalue, ← Mem.length_slice m (14 + i * (2 + f.size)) f.value, hval, length_octets_ycSize]
    exact ⟨hs, by rw [← hlen hs]; exact hfit⟩
  · rintro ⟨hs, hn⟩
    have hcount : (first :: rest).length * 5 ≤ (first :: rest).length * (ycSize first + 3) :=
      Nat.mul_le_mul_left _ (by omega)
    refine arrives_mkAsdu rfl hmon (by decide) (by rw [hlen hs]; exact hn) fun m hm => ?_
    dsimp only
    rw [if_pos (by decide : Cot.spont % 64 ∈ Master.monReasons), Nat.mod_eq_of_lt (by omega), hvalue, hsize]
    exact objs_ycObj hs hm

/-- One node of yx without a time tag. -/
def sampleSpon : NodeArr := ⟨[⟨⟨.yx, 0x0001, .sint8⟩, ⟨.replicate 8 1, .replicate 7 0⟩⟩], by decide⟩

end Slave

end Wow.Iec101
