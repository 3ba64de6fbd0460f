import Wow.Iec104.Pending
import Wow.Iec101.Wire
import Wow.Iec101.Master

/-!
# Wow.Iec101.Pending — what the master executes, and who asked for it

As in `Wow.Iec104.Pending`: an execute is made of the confirmation just received.  That of a set-point goes out with
a length that depends on the address of `send_buf`.

* `own_buildYkAck`, `own_buildYtAck`: the executes made of a confirmation that names a waiting request.
* `quiet_stateMachine`, `quiet_asduMon`, `quiet_asduCall`: what the master does besides operates no equipment.
* `own_run`, `masters_ownOnly`: a run whose frames are `Confirmed` executes nothing but its own requests.
-/

namespace Wow

namespace Iec101

open Iec10x Utils
open Iec104 (CmdFmt cmdFmt ykFmt ytFmt cmdFmt_size_pos selected infoMem)

/-! ### Frames -/

/-- A frame of commands, as its octets say. -/
def cmdFrame (w : List UInt8) : Option CmdFrame :=
  (AsduType.ofCode (Fld.type (octetsMem w))).bind fun t => (cmdFmt t).map fun fmt =>
    ⟨t, Fld.num (octetsMem w), Fld.reason (octetsMem w),
      objsAt (octetsMem w) 12 2 fmt.size (Fld.num (octetsMem w)) (Fld.sq (octetsMem w)) (w.length - 14)⟩

section Frames

variable {w : List UInt8} {t : AsduType} {fmt : CmdFmt}

theorem cmdFrame_of_type (ht : AsduType.ofCode (Fld.type (octetsMem w)) = some t) (hf : cmdFmt t = some fmt) :
    cmdFrame w = some ⟨t, Fld.num (octetsMem w), Fld.reason (octetsMem w),
      objsAt (octetsMem w) 12 2 fmt.size (Fld.num (octetsMem w)) (Fld.sq (octetsMem w)) (w.length - 14)⟩ := by
  rw [cmdFrame, ht, Option.bind_some, hf]
  rfl

/-- The type of a frame of commands, and its objects. -/
theorem of_mem_cmdFrame {v : CmdFrame} (hv : v ∈ cmdFrame w) :
    ∃ t fmt, AsduType.ofCode (Fld.type (octetsMem w)) = some t ∧ cmdFmt t = some fmt ∧ v.objs =
      objsAt (octetsMem w) 12 2 fmt.size (Fld.num (octetsMem w)) (Fld.sq (octetsMem w)) (w.length - 14) := by
  obtain ⟨t, ht, hv⟩ := Option.bind_eq_some_iff.mp hv
  obtain ⟨fmt, hf, rfl⟩ := Option.map_eq_some_iff.mp hv
  exact ⟨t, fmt, ht, hf, rfl⟩

/-- A frame without room for an octet of an object holds none. -/
theorem objs_of_short (hw : w.length ≤ 14) : ∀ v ∈ cmdFrame w, v.objs = [] := by
  intro v hv
  obtain ⟨t, fmt, -, hf, ho⟩ := of_mem_cmdFrame hv
  have hsz := cmdFmt_size_pos hf
  rw [ho, objsAt, wholeObjs_of_lt hsz (by omega), List.range_zero, List.map_nil]

end Frames

variable {g : Waiting}

/-- A frame without objects executes nothing. -/
theorem own_of_objs {f : SendBuf} {up : Bool} (h : ∀ v ∈ cmdFrame f.wire, v.objs = []) :
    Own cmdFrame g (.send f up) := by
  intro v hv hex
  obtain ⟨o, ho, -⟩ := hex
  rw [h v hv] at ho
  cases ho

/-! ### Frames that go out -/

theorem own_mk10 (ctrl : UInt8) (addr : UInt16) (up : Bool) : Own cmdFrame g (.send (mk10 ctrl addr) up) :=
  own_of_objs (objs_of_short (show 6 ≤ 14 by decide))

section Sent

variable (ctrl : UInt8) (addr : UInt16) (h : AsduHead) (info : List UInt8) (len : Nat)

/-- An octet of the ASDU, in front of the check sum. -/
theorem octetsMem_mk68 {i : Nat} {asdu : List UInt8} (hi : i < asdu.length) (hlt : 9 + i < (UInt8.ofNat len).toNat) :
    octetsMem (mk68 ctrl addr asdu len).wire (7 + i) = asdu[i] :=
  getD_wire_mk68 ctrl addr hi (by omega)

/-- The head of what goes out. -/
theorem head_mk68 (hlen : 14 ≤ (UInt8.ofNat len).toNat) :
    Fld.type (octetsMem (mk68 ctrl addr (h.octets ++ info) len).wire) = h.type ∧
      Fld.num (octetsMem (mk68 ctrl addr (h.octets ++ info) len).wire) = h.num % 128 ∧
      Fld.sq (octetsMem (mk68 ctrl addr (h.octets ++ info) len).wire) = h.sq := by
  have h7 : octetsMem (mk68 ctrl addr (h.octets ++ info) len).wire (7 + 0) = h.type :=
    octetsMem_mk68 ctrl addr len (by simp [AsduHead.octets]) (by omega)
  have h8 : octetsMem (mk68 ctrl addr (h.octets ++ info) len).wire (7 + 1) =
      UInt8.ofNat (h.num % 128 + bit h.sq 7) := octetsMem_mk68 ctrl addr len (by simp [AsduHead.octets]) (by omega)
  have hoct : (UInt8.ofNat (h.num % 128 + bit h.sq 7)).toNat = h.num % 128 + bit h.sq 7 := by
    rw [UInt8.toNat_ofNat']
    cases h.sq <;> simp [bit] <;> omega
  refine ⟨h7, ?_, ?_⟩
  · rw [Fld.num, h8, hoct]
    cases h.sq <;> simp [bit]
  · rw [Fld.sq, h8, hoct]
    cases h.sq <;> simp [bit]
    omega

/-- An octet of the objects that go out. -/
theorem info_mk68 {j : Nat} (hj : j < info.length) (hlt : 14 + j < (UInt8.ofNat len).toNat) :
    octetsMem (mk68 ctrl addr (h.octets ++ info) len).wire (12 + j) = info[j] := by
  have hlen : 5 + j < (h.octets ++ info).length := by
    rw [List.length_append, AsduHead.length_octets]
    omega
  have hoct := octetsMem_mk68 ctrl addr len hlen (by omega)
  rw [← Nat.add_assoc] at hoct
  rw [hoct, List.getElem_append_right (by rw [AsduHead.length_octets]; omega)]
  simp only [AsduHead.length_octets, Nat.add_sub_cancel_left]

variable {ctrl addr h info len}

/-- A frame of another type. -/
theorem own_other {up : Bool} (ht : ∀ t, AsduType.ofCode h.type = some t → cmdFmt t = none) :
    Own cmdFrame g (.send (mk68 ctrl addr (h.octets ++ info) len) up) := by
  refine own_of_objs fun v hv => ?_
  by_cases hlen : 14 ≤ (UInt8.ofNat len).toNat
  · obtain ⟨t, fmt, ht', hf, -⟩ := of_mem_cmdFrame hv
    rw [(head_mk68 ctrl addr h info len hlen).1] at ht'
    rw [ht t ht'] at hf
    cases hf
  · exact objs_of_short (by rw [length_wire_mk68]; omega) v hv

/-- **A select frame** executes nothing, also when it is cut. -/
theorem own_select {up : Bool} {type : AsduType} {fmt : CmdFmt} {nodes : List DevNodeCtrl}
    {f : DevNodeCtrl → List UInt8} {cot : Nat} {pn test : Bool} {addr' : UInt16} (hfmt : cmdFmt type = some fmt)
    (hf : ∀ x ∈ nodes, (f x).length = 2 + fmt.size) (hsel : ∀ x ∈ nodes, selected ((f x).drop 2) = true) :
    Own cmdFrame g (.send (mk68 ctrl addr
      (AsduHead.octets ⟨type.code, false, nodes.length, cot, pn, test, addr'⟩ ++ nodes.flatMap f)
      (lenOf (AsduHead.octets ⟨type.code, false, nodes.length, cot, pn, test, addr'⟩ ++ nodes.flatMap f))) up) := by
  generalize hl : lenOf (AsduHead.octets ⟨type.code, false, nodes.length, cot, pn, test, addr'⟩ ++ nodes.flatMap f) = l
  have hwire := length_wire_mk68 ctrl addr
    (AsduHead.octets ⟨type.code, false, nodes.length, cot, pn, test, addr'⟩ ++ nodes.flatMap f) l
  by_cases hlen : 14 ≤ (UInt8.ofNat l).toNat
  swap
  · exact own_of_objs (objs_of_short (by omega))
  intro v hv hex
  obtain ⟨o, ho, hoff⟩ := hex
  obtain ⟨t, fmt', ht, hf', hobjs⟩ := of_mem_cmdFrame hv
  obtain ⟨htype, hnum, hsq⟩ := head_mk68 ctrl addr ⟨type.code, false, nodes.length, cot, pn, test, addr'⟩
    (nodes.flatMap f) l hlen
  rw [htype, AsduType.ofCode_code] at ht
  obtain rfl : type = t := Option.some.inj ht
  obtain rfl : fmt = fmt' := Option.some.inj (hfmt.symm.trans hf')
  rw [hobjs, hnum, hsq, hwire] at ho
  obtain ⟨i, hi, rfl⟩ := List.mem_map.mp ho
  have hi := List.mem_range.mp hi
  have hlt : i < nodes.length :=
    Nat.lt_of_lt_of_le hi (Nat.le_trans (Nat.min_le_left _ _) (Nat.mod_le nodes.length 128))
  have hend := Nat.le_trans (extent_mono hi) (extent_wholeObjs (Nat.lt_of_le_of_lt (Nat.zero_le i) hi))
  have hle : (UInt8.ofNat l).toNat - 14 ≤ (nodes.flatMap f).length := by
    have hmod : (UInt8.ofNat l).toNat ≤ l := by
      rw [UInt8.toNat_ofNat']
      exact Nat.mod_le _ _
    rw [lenOf, List.length_append, AsduHead.length_octets] at hl
    omega
  have hslice : (octetsMem (mk68 ctrl addr
      (AsduHead.octets ⟨type.code, false, nodes.length, cot, pn, test, addr'⟩ ++ nodes.flatMap f) l).wire).slice 12
      ((UInt8.ofNat l).toNat - 14) = (nodes.flatMap f).take ((UInt8.ofNat l).toNat - 14) := by
    apply List.ext_getElem
    · rw [Mem.length_slice, List.length_take, Nat.min_eq_left hle]
    · intro j h1 h2
      rw [Mem.length_slice] at h1
      rw [Mem.getElem_slice, info_mk68 _ _ _ _ _ (by omega) (by omega), List.getElem_take]
  have hselected := selected_objAt hf hsel hslice hlt hend
  rw [hselected] at hoff
  cases hoff

section Execute

variable {up : Bool} {type : UInt8} {t : AsduType} {fmt : CmdFmt} {n : Nat} {sq : Bool} {addr' : UInt16}
  (ht : AsduType.ofCode type = some t) (hf : cmdFmt t = some fmt) (hn : n < 128)
include ht hf hn

/-- An execute of which no object goes out. -/
theorem own_nothing (h : n = 0 ∨ (UInt8.ofNat len).toNat < 16 + fmt.size) : Own cmdFrame g
    (.send (mk68 ctrl addr (AsduHead.octets ⟨type, sq, n, Cot.act, false, false, addr'⟩ ++ info) len) up) := by
  have hwire := length_wire_mk68 ctrl addr (AsduHead.octets ⟨type, sq, n, Cot.act, false, false, addr'⟩ ++ info) len
  by_cases hlen : 14 ≤ (UInt8.ofNat len).toNat
  swap
  · exact own_of_objs (objs_of_short (by omega))
  obtain ⟨htype, hnum, hsq⟩ := head_mk68 ctrl addr ⟨type, sq, n, Cot.act, false, false, addr'⟩ info len hlen
  have hsent := cmdFrame_of_type (by rw [htype]; exact ht) hf
  refine own_of_objs fun v hv => ?_
  rw [hsent, hnum, hsq, hwire, Nat.mod_eq_of_lt hn] at hv
  obtain rfl := Option.some.inj hv
  dsimp only
  rcases h with hzero | hshort
  · rw [hzero, objsAt_zero]
  · rw [objsAt, wholeObjs_of_lt (cmdFmt_size_pos hf) (by omega), List.range_zero, List.map_nil]

/-- **An execute** made of a frame that names a waiting request. -/
theorem own_execute (m : Mem) (l cause : Nat) (hinfo : info.length = extent 2 fmt.size n sq)
    (hclear : ∀ j (hj : j < info.length), info[j] =
      if isSelect 2 fmt.size sq j then m (12 + j) &&& 0x7F else m (12 + j))
    (hall : 14 + info.length ≤ (UInt8.ofNat len).toNat) {r : Request} (hr : r ∈ g)
    (hrv : CmdFrame.Names ⟨t, n, cause, objsAt m 12 2 fmt.size n sq l⟩ r) : Own cmdFrame g
    (.send (mk68 ctrl addr (AsduHead.octets ⟨type, sq, n, Cot.act, false, false, addr'⟩ ++ info) len) up) := by
  have hwire := length_wire_mk68 ctrl addr (AsduHead.octets ⟨type, sq, n, Cot.act, false, false, addr'⟩ ++ info) len
  rcases Nat.eq_zero_or_pos n with hzero | hpos
  · exact own_nothing ht hf hn (Or.inl hzero)
  obtain ⟨htype, hnum, hsq⟩ := head_mk68 ctrl addr ⟨type, sq, n, Cot.act, false, false, addr'⟩ info len (by omega)
  have hsent := cmdFrame_of_type (by rw [htype]; exact ht) hf
  have hoct : ∀ j < extent 2 fmt.size n sq, octetsMem (mk68 ctrl addr
      (AsduHead.octets ⟨type, sq, n, Cot.act, false, false, addr'⟩ ++ info) len).wire (12 + j) =
      if isSelect 2 fmt.size sq j then m (12 + j) &&& 0x7F else m (12 + j) := fun j hj => by
    rw [info_mk68 ctrl addr _ info len (by omega) (by omega)]
    exact hclear j (by omega)
  have hobjs := objsAt_unselected (cmdFmt_size_pos hf) hoct (extent_le_of_length hrv.whole hpos)
    (by omega : extent 2 fmt.size n sq ≤ (UInt8.ofNat len).toNat - 14)
  intro v hv _
  rw [hsent, hnum, hsq, hwire, Nat.mod_eq_of_lt hn, hobjs] at hv
  obtain rfl := Option.some.inj hv
  exact ⟨r, hr, hrv.unselected _⟩

end Execute

end Sent

namespace Master

/-! ### The requirement on the frames received -/

/-- How many octets of the execute of a set-point go out, after the low octet of the address of `send_buf`. -/
def ytLen (n sz : Nat) (sendBuf : UInt8) : Nat := (n * sz + 2 + (256 - sendBuf.toNat)) % 256

/-- The execute of a set-point goes out with none of its objects, or with all of them for a request that waits. -/
def YtConfirmed (g : Waiting) (sendBuf : UInt8) (sq : Bool) (v : CmdFrame) (fmt : CmdFmt) : Prop :=
  ytLen v.num (if sq then fmt.size else 2 + fmt.size) sendBuf < 16 + fmt.size ∨
    sq = false ∧ 14 + v.num * (2 + fmt.size) ≤ ytLen v.num (2 + fmt.size) sendBuf ∧ ∃ r ∈ g, v.Names r

/-- A frame that holds its head and, if it is a confirmation, names a request that waits. -/
def Confirmed (g : Waiting) (sendBuf : UInt8) (w : List UInt8) : Prop :=
  14 ≤ w.length ∧ ∀ v ∈ cmdFrame w, v.cause = Cot.actcon → v.num = 0 ∨
    ((ykFmt v.type).isSome = true ∧ ∃ r ∈ g, v.Names r) ∨
      ∃ fmt ∈ ytFmt v.type, YtConfirmed g sendBuf (Fld.sq (octetsMem w)) v fmt

instance (g : Waiting) (sendBuf : UInt8) (sq : Bool) (v : CmdFrame) (fmt : CmdFmt) :
    Decidable (YtConfirmed g sendBuf sq v fmt) :=
  inferInstanceAs (Decidable (_ ∨ _ ∧ _ ∧ ∃ r ∈ g, v.Names r))

instance (g : Waiting) (sendBuf : UInt8) (w : List UInt8) : Decidable (Confirmed g sendBuf w) :=
  inferInstanceAs (Decidable (_ ∧ ∀ v ∈ cmdFrame w, _ → _ ∨ (_ ∧ ∃ r ∈ g, v.Names r) ∨
    ∃ fmt ∈ ytFmt v.type, YtConfirmed g sendBuf (Fld.sq (octetsMem w)) v fmt))

/-- The positive frames with user data that a master with an open link takes in are `Confirmed`. -/
def ConfirmedTaken (s : Core) (g : Waiting) (sendBuf : UInt8) : Taken → Prop
  | .on68 m len => UserData m → s.stat.init = .linkIdle → Fld.pn m = false → Confirmed g sendBuf (m.slice 0 len)
  | _ => True

instance (s : Core) (g : Waiting) (sendBuf : UInt8) : ∀ f, Decidable (ConfirmedTaken s g sendBuf f)
  | .on68 m len => inferInstanceAs
      (Decidable (UserData m → s.stat.init = .linkIdle → Fld.pn m = false → Confirmed g sendBuf (m.slice 0 len)))
  | .nothing | .on10 _ => inferInstanceAs (Decidable True)

/-- The condition on a step. -/
def ConfirmedStep (x : Station Core × Waiting) : Event → Prop
  | .recv read sendBuf => ConfirmedTaken x.1.core x.2 sendBuf (x.1.taken read)
  | _ => True

instance (x : Station Core × Waiting) : ∀ e, Decidable (ConfirmedStep x e)
  | .recv read sendBuf => inferInstanceAs (Decidable (ConfirmedTaken x.1.core x.2 sendBuf (x.1.taken read)))
  | .machine _ | .callAll _ | .callPulse _ | .yk _ | .yt _ => inferInstanceAs (Decidable True)

/-! ### The executes -/

section Execute

variable (c : Conf) (s : Core) (m : Mem) {g : Waiting} {len : Nat}

/-- A frame at the start of the buffer, as its octets say. -/
theorem cmdFrame_taken {t : AsduType} {fmt : CmdFmt} (hlen : 14 ≤ len) (ht : AsduType.ofCode (Fld.type m) = some t)
    (hf : cmdFmt t = some fmt) : cmdFrame (m.slice 0 len) = some ⟨t, Fld.num m, Fld.reason m,
      objsAt m 12 2 fmt.size (Fld.num m) (Fld.sq m) (len - 14)⟩ ∧ Fld.sq (octetsMem (m.slice 0 len)) = Fld.sq m := by
  have hoct : ∀ i < len, octetsMem (m.slice 0 len) i = m i := fun i hi => by
    rw [octetsMem, Mem.fill_of_lt (by rw [Mem.length_slice]; exact hi), Mem.getElem_slice, Nat.zero_add]
  have hnum : Fld.num (octetsMem (m.slice 0 len)) = Fld.num m := by rw [Fld.num, hoct 8 (by omega), Fld.num]
  have hsq : Fld.sq (octetsMem (m.slice 0 len)) = Fld.sq m := by rw [Fld.sq, hoct 8 (by omega), Fld.sq]
  have hreason : Fld.reason (octetsMem (m.slice 0 len)) = Fld.reason m := by
    rw [Fld.reason, hoct 9 (by omega), Fld.reason]
  have htype : Fld.type (octetsMem (m.slice 0 len)) = Fld.type m := hoct 7 (by omega)
  have hobjs : ∀ j < len - 14, octetsMem (m.slice 0 len) (12 + j) = m (12 + j) := fun j hj => hoct _ (by omega)
  refine ⟨?_, hsq⟩
  rw [cmdFrame_of_type (by rw [htype]; exact ht) hf, hnum, hsq, hreason, Mem.length_slice, objsAt_congr hobjs]

theorem num_lt : Fld.num m < 128 := Nat.mod_lt _ (by decide)

theorem run_buildYkAck : (buildYkAck c s).run m = if s.stat.init ≠ .linkIdle then [] else
    match (AsduType.ofCode (Fld.type m)).bind ykFmt with
    | none => []
    | some _ =>
      let asdu := AsduHead.octets ⟨Fld.type m, Fld.sq m, Fld.num m, Cot.act, false, false, c.asduAddr⟩ ++
        clearYk (Fld.sq m) (m.slice 12 (if Fld.sq m then Fld.num m + 2 else Fld.num m * 3))
      [send (mk68 ctrlUser c.asduAddr asdu (lenOf asdu))] := by
  by_cases hi : s.stat.init = .linkIdle
  · cases hb : (AsduType.ofCode (m 7)).bind ykFmt with
    | none => simp [buildYkAck, hi, Fld.type, hb]
    | some fmt =>
      simp only [buildYkAck, hi, ne_eq, not_true_eq_false, if_false, Rd.run_bind, Rd.run_octet, Rd.mem_octet, run_rdNum,
        mem_rdNum, run_rdSq, mem_rdSq, Fld.type, hb, Rd.run_pure, Rd.run_octets]
      rfl
  · simp [buildYkAck, hi]

theorem getElem_clearYk (sq : Bool) (info : List UInt8) {j : Nat} (hj : j < (clearYk sq info).length)
    (hj' : j < info.length) : (clearYk sq info)[j] = if isSelect 2 1 sq j then info[j] &&& 0x7F else info[j] := by
  cases sq with
  | true => simp [clearYk, isSelect, Nat.mod_one]
  | false => simp [clearYk, isSelect]

/-- **The execute of remote control**. -/
theorem own_buildYkAck {sendBuf : UInt8} (hmax : len ≤ 257) (hr : Fld.reason m = Cot.actcon)
    (hconf : s.stat.init = .linkIdle → Confirmed g sendBuf (m.slice 0 len)) :
    ∀ a ∈ (buildYkAck c s).run m, Own cmdFrame g a := by
  rw [run_buildYkAck]
  by_cases hi : s.stat.init = .linkIdle
  swap
  · rw [if_pos hi]
    exact fun a ha => by cases ha
  rw [if_neg (not_not.mpr hi)]
  have hlen : 14 ≤ len := by
    have := (hconf hi).1
    rwa [Mem.length_slice] at this
  split
  · exact fun a ha => by cases ha
  rename_i fmt hfmt
  obtain ⟨t, ht, hyk⟩ := Option.bind_eq_some_iff.mp hfmt
  have hf : cmdFmt t = some fmt := by rw [cmdFmt, hyk]; rfl
  have hsz : fmt.size = 1 := by cases t <;> cases hyk <;> rfl
  intro a ha
  obtain rfl := List.mem_singleton.mp ha
  have hext : (if Fld.sq m then Fld.num m + 2 else Fld.num m * 3) = extent 2 fmt.size (Fld.num m) (Fld.sq m) := by
    rw [hsz]
    cases Fld.sq m <;> simp [extent, Nat.add_comm]
  rw [hext]
  generalize hinfo : m.slice 12 (extent 2 fmt.size (Fld.num m) (Fld.sq m)) = info
  have hilen : info.length = extent 2 fmt.size (Fld.num m) (Fld.sq m) := by rw [← hinfo, Mem.length_slice]
  have hclear : (clearYk (Fld.sq m) info).length = info.length := List.length_mapIdx
  obtain ⟨hv, -⟩ := cmdFrame_taken m hlen ht hf
  rcases (hconf hi).2 _ hv hr with hzero | ⟨-, r, hr, hrv⟩ | ⟨fmt', hyt, -⟩
  · exact own_nothing ht hf (num_lt m) (Or.inl hzero)
  · have hlenOf : lenOf (AsduHead.octets ⟨Fld.type m, Fld.sq m, Fld.num m, Cot.act, false, false, c.asduAddr⟩ ++
        clearYk (Fld.sq m) info) = 14 + info.length := by
      rw [lenOf, List.length_append, AsduHead.length_octets, hclear]
      omega
    have hmod : (UInt8.ofNat (14 + info.length)).toNat = (14 + info.length) % 256 := UInt8.toNat_ofNat'
    rw [hlenOf]
    rcases Nat.eq_zero_or_pos (Fld.num m) with hzero | hpos
    · exact own_nothing ht hf (num_lt m) (Or.inl hzero)
    -- the announced objects lie in a frame of 257 octets, so the length wraps to nothing or not at all
    have hle := extent_le_of_length hrv.whole hpos
    by_cases hwrap : 14 + info.length ≤ 255
    · refine own_execute ht hf (num_lt m) m (len - 14) (Fld.reason m) (hclear.trans hilen) (fun j hj => ?_)
        (by omega) hr hrv
      rw [getElem_clearYk _ _ hj (by omega), hsz]
      simp only [← hinfo, Mem.getElem_slice]
    · exact own_nothing ht hf (num_lt m) (Or.inr (by omega))
  · have hnone : ytFmt t = none := by cases t <;> first | rfl | cases hyk
    rw [hnone] at hyt
    cases hyt

/-- The select octets of the byte array are cleared, those of the announced objects. -/
theorem clearSelect_octet {n sz j : Nat} {sq : Bool} (hsz : 0 < sz) (hj : j < extent 2 sz n sq) :
    (clearSelect n sq sz).mem m (12 + j) = if isSelect 2 sz sq j then m (12 + j) &&& 0x7F else m (12 + j) := by
  have hat : ∀ i, selectAt sq sz i = 12 + (2 + i * (if sq then sz else 2 + sz) + (sz - 1)) := fun i => by
    rw [selectAt]
    omega
  have hupdate := @Rd.mem_forN_update (selectAt sq sz) (· &&& 0x7F) Iec104.and_7F_idem n m (12 + j)
  by_cases hsel : isSelect 2 sz sq j = true
  · obtain ⟨i, hi, rfl⟩ := (isSelect_iff hsz hj).mp hsel
    rw [if_pos hsel]
    exact hupdate.1 ⟨i, hi, (hat i).symm⟩
  · rw [if_neg hsel]
    refine hupdate.2 fun i hi h => hsel ((isSelect_iff hsz hj).mpr ⟨i, hi, ?_⟩)
    rw [hat] at h
    omega

theorem run_buildYtAck (sendBuf : UInt8) : (buildYtAck c s sendBuf).run m = if s.stat.init ≠ .linkIdle then [] else
    match (AsduType.ofCode (Fld.type m)).bind ytFmt with
    | none => []
    | some fmt =>
      let sz := if Fld.sq m then fmt.size else 2 + fmt.size
      [send (mk68 ctrlUser c.asduAddr
        (AsduHead.octets ⟨Fld.type m, Fld.sq m, Fld.num m, Cot.act, false, false, c.asduAddr⟩ ++
          ((clearSelect (Fld.num m) (Fld.sq m) fmt.size).mem m).slice (if Fld.sq m then 14 else 12) (Fld.num m * sz))
        (Fld.num m * sz + 2 + (256 - sendBuf.toNat)))] := by
  by_cases hi : s.stat.init = .linkIdle
  · cases hb : (AsduType.ofCode (m 7)).bind ytFmt with
    | none => simp [buildYtAck, hi, Fld.type, hb]
    | some fmt =>
      simp only [buildYtAck, hi, ne_eq, not_true_eq_false, if_false, Rd.run_bind, Rd.run_octet, Rd.mem_octet, run_rdNum,
        mem_rdNum, run_rdSq, mem_rdSq, Fld.type, hb, Rd.run_pure, Rd.run_octets]
      rfl
  · simp [buildYtAck, hi]

/-- **The execute of a set-point**. -/
theorem own_buildYtAck {sendBuf : UInt8} (hr : Fld.reason m = Cot.actcon)
    (hconf : s.stat.init = .linkIdle → Confirmed g sendBuf (m.slice 0 len)) :
    ∀ a ∈ (buildYtAck c s sendBuf).run m, Own cmdFrame g a := by
  rw [run_buildYtAck]
  by_cases hi : s.stat.init = .linkIdle
  swap
  · rw [if_pos hi]
    exact fun a ha => by cases ha
  rw [if_neg (not_not.mpr hi)]
  have hlen : 14 ≤ len := by
    have := (hconf hi).1
    rwa [Mem.length_slice] at this
  split
  · exact fun a ha => by cases ha
  rename_i fmt hfmt
  obtain ⟨t, ht, hyt⟩ := Option.bind_eq_some_iff.mp hfmt
  have hyk : ykFmt t = none := by cases t <;> first | rfl | cases hyt
  have hf : cmdFmt t = some fmt := by rw [cmdFmt, hyk, hyt]; rfl
  have hsz := cmdFmt_size_pos hf
  obtain ⟨hv, hsq⟩ := cmdFrame_taken m hlen ht hf
  intro a ha
  obtain rfl := List.mem_singleton.mp ha
  have hlenOf : ∀ k, (UInt8.ofNat (Fld.num m * k + 2 + (256 - sendBuf.toNat))).toNat = ytLen (Fld.num m) k sendBuf :=
    fun k => UInt8.toNat_ofNat'
  rcases (hconf hi).2 _ hv hr with hzero | ⟨hyk', -⟩ | ⟨fmt', hyt', hgoes⟩
  · exact own_nothing ht hf (num_lt m) (Or.inl hzero)
  · rw [hyk] at hyk'
    cases hyk'
  obtain rfl : fmt = fmt' := Option.some.inj (hyt.symm.trans hyt')
  rw [hsq] at hgoes
  rcases hgoes with hshort | ⟨hsq0, hall, r, hr, hrv⟩
  · exact own_nothing ht hf (num_lt m) (Or.inr (by rw [hlenOf]; exact hshort))
  · rw [hsq0] at hrv ⊢
    simp only [Bool.false_eq_true, if_false]
    have hext : Fld.num m * (2 + fmt.size) = extent 2 fmt.size (Fld.num m) false := rfl
    refine own_execute ht hf (num_lt m) m (len - 14) (Fld.reason m) (by rw [Mem.length_slice, hext]) (fun j hj => ?_)
      (by rw [hlenOf, Mem.length_slice]; exact hall) hr hrv
    rw [Mem.length_slice, hext] at hj
    rw [Mem.getElem_slice, clearSelect_octet m hsz hj]

end Execute

/-! ### Everything else -/

section Quiet

variable (c : Conf) (s : Core) (m : Mem)

/-- Actions that operate nothing, whatever waits. -/
def Quiet (acts : List Act) : Prop := ∀ a ∈ acts, ∀ g, Own cmdFrame g a

theorem quiet_nil : Quiet [] := fun _ ha => by cases ha

theorem Quiet.append {acts acts' : List Act} (h : Quiet acts) (h' : Quiet acts') : Quiet (acts ++ acts') := by
  intro a ha
  rcases List.mem_append.mp ha with ha | ha
  · exact h a ha
  · exact h' a ha

theorem quiet_mk10 (ctrl : UInt8) (addr : UInt16) : Quiet [send (mk10 ctrl addr)] := by
  intro a ha g
  obtain rfl := List.mem_singleton.mp ha
  exact own_mk10 ctrl addr true

theorem quiet_serv (x : Service) : Quiet (serv c x) := by
  intro a ha g
  unfold serv at ha
  split at ha
  · obtain rfl := List.mem_singleton.mp ha
    trivial
  · cases ha

theorem quiet_userAck : Quiet (buildRequestUserAck c s).2 := quiet_mk10 _ _

theorem quiet_asduMon (reasons : List Nat) (fmts : AsduType → Option MonFmt) (after : AsduType → Core → Core)
    (type : AsduType) : Quiet ((asduMon c s reasons fmts after type).run m).2 := by
  rw [run_asduMon]
  split
  · refine Quiet.append (fun a ha g => ?_) (quiet_userAck c _)
    unfold monVals at ha
    split at ha
    · cases ha
    · obtain ⟨n, v, rfl⟩ := setVal_of_mem_valCalls c a ha
      trivial
  · exact quiet_nil

theorem quiet_asduCall (v : Svc) (qualifier : Nat) (confirmed success : Iec10xStat) :
    Quiet ((asduCall c s qualifier (put v confirmed) (put v success)).run m).2 := by
  rw [run_asduCall]
  split
  · exact quiet_nil
  split
  · split
    · exact quiet_userAck c _
    · exact quiet_nil
  split
  · exact quiet_nil
  · exact quiet_nil

theorem quiet_asduYm_asduCallAll (type : AsduType) : Quiet ((asduYm c s type >>= fun r => asduCallAll c r.1 >>=
    fun r' => (pure (r'.1, r.2 ++ r'.2) : Rd (Core × List Act))).run m).2 := by
  simp only [Rd.run_bind, Rd.run_pure, asduYm, mem_asduMon]
  exact (quiet_asduMon c s m _ _ _ type).append (quiet_asduCall c _ m .callall _ _ _)

/-- **A frame with user data** operates only what waits, when it is `Confirmed`. -/
theorem own_onUserData {g : Waiting} {sendBuf : UInt8} {len : Nat} (hmax : len ≤ 257)
    (hconf : s.stat.init = .linkIdle → Fld.pn m = false → Confirmed g sendBuf (m.slice 0 len)) :
    ∀ a ∈ ((onUserData c s sendBuf).run m).2, Own cmdFrame g a := by
  have hquiet : ∀ {acts : List Act}, Quiet acts → ∀ a ∈ acts, Own cmdFrame g a := fun h a ha => h a ha g
  have hidle : ∀ (v : Svc) (x : Iec10xStat), Fld.pn m = false → (put v x s).stat.init = .linkIdle →
      Confirmed g sendBuf (m.slice 0 len) := fun v x hpn hi => hconf ((Svc.init_set x s.stat v).symm.trans hi) hpn
  have hyk : ∀ a ∈ ((asduYk c s).run m).2, Own cmdFrame g a := by
    rw [run_asduYk]
    split
    · rename_i h
      exact own_buildYkAck c _ m hmax h.2 (hidle .yk .ykCmdExec h.1)
    · exact fun a ha => by cases ha
  have hyt : ∀ a ∈ ((asduYt c s sendBuf).run m).2, Own cmdFrame g a := by
    rw [run_asduYt]
    split
    · rename_i h
      exact own_buildYtAck c _ m h.2 (hidle .yt .ytCmdExec h.1)
    · exact fun a ha => by cases ha
  simp only [onUserData, Rd.run_bind, Rd.run_octet, Rd.mem_octet]
  cases AsduType.ofCode (m 7) with
  | none => exact hquiet quiet_nil
  | some t =>
    cases t with
    | mSpNa1 | mDpNa1 | mSpTb1 | mDpTb1 | mMeNa1 | mMeNc1 | mMeTd1 | mMeTf1 =>
      exact hquiet (quiet_asduMon c s m _ _ _ _)
    | mItNa1 | mItTa1 => exact hquiet (quiet_asduYm_asduCallAll c s m _)
    | cIcNa1 => exact hquiet (quiet_asduCall c s m .callall _ _ _)
    | cCiNa1 => exact hquiet (quiet_asduCall c s m .callpulse _ _ _)
    | cScNa1 | cDcNa1 => exact hyk
    | cSeNa1 | cSeNc1 => exact hyt
    | _ => exact hquiet quiet_nil

theorem quiet_pollTack : Quiet (pollTack c s).2 := by
  unfold pollTack
  split
  · exact quiet_userAck c s
  · exact quiet_nil

theorem quiet_machineWork (now now' : Int) : Quiet (machineWork c now now' s).2 := by
  unfold machineWork
  split
  · exact quiet_nil
  · exact quiet_mk10 _ _
  · split
    · exact quiet_serv c _
    · exact quiet_nil
  · have hclose : Quiet [Act.close] := by
      intro a ha g
      obtain rfl := List.mem_singleton.mp ha
      trivial
    exact hclose.append (quiet_serv c _)
  · exact quiet_nil
  · split
    · exact quiet_mk10 _ _
    · exact quiet_nil
  · exact quiet_nil

/-- A timeout changes no action. -/
theorem quiet_timeout {b : Bool} {r : Core × List Act} {s' : Core} (h : Quiet r.2) :
    Quiet (if b then (s', r.2) else r).2 := by
  cases b
  · exact h
  · exact h

theorem quiet_machineCallall (now : Int) : Quiet (machineCallall c now s).2 := by
  unfold machineCallall
  dsimp only
  split
  · exact quiet_nil
  · exact quiet_timeout (quiet_pollTack c s)
  · exact quiet_timeout quiet_nil
  · exact quiet_timeout quiet_nil
  · exact (quiet_userAck c s).append (quiet_serv c _)
  · exact quiet_serv c _
  · exact quiet_nil

theorem quiet_machineCallpulse (now : Int) : Quiet (machineCallpulse c now s).2 := by
  unfold machineCallpulse
  dsimp only
  split
  · exact quiet_nil
  · exact quiet_timeout (quiet_pollTack c s)
  · exact quiet_timeout quiet_nil
  · exact (quiet_userAck c s).append (quiet_serv c _)
  · exact quiet_serv c _
  · exact quiet_nil

theorem quiet_machineYt (now : Int) : Quiet (machineYt c now s).2 := by
  unfold machineYt
  dsimp only
  split
  · exact quiet_nil
  · exact quiet_timeout (quiet_pollTack c s)
  · exact quiet_timeout (quiet_pollTack c s)
  · exact quiet_serv c _
  · exact quiet_serv c _
  · exact quiet_nil

theorem quiet_machineYk (now : Int) : Quiet (machineYk c now s).2 := by
  unfold machineYk
  dsimp only
  split
  · exact quiet_nil
  · exact quiet_timeout (quiet_pollTack c s)
  · exact quiet_timeout (quiet_pollTack c s)
  · exact quiet_serv c _
  · exact quiet_serv c _
  · exact quiet_nil

theorem quiet_stateMachine (clock : Clock) : Quiet (stateMachine c clock s).2 := by
  unfold stateMachine
  dsimp only
  split
  · exact quiet_machineWork c s _ _
  · refine (quiet_machineWork c s _ _).append ?_
    simp only [andThen, run_cons, run_nil, List.append_nil]
    exact (quiet_machineCallall c _ _).append ((quiet_machineCallpulse c _ _).append
      ((quiet_machineYt c _ _).append (quiet_machineYk c _ _)))

/-! ### Commands and interrogations -/

theorem quiet_buildCall {type : AsduType} (ht : cmdFmt type = none) (qualifier : Nat) (start : Core → Core)
    (junk : Junk) : Quiet (buildCall c type qualifier start junk s).2 := by
  intro a ha g
  obtain rfl := List.mem_singleton.mp ha
  rw [List.append_assoc]
  refine own_other fun t h => ?_
  dsimp only at h
  rw [AsduType.ofCode_code] at h
  obtain rfl := Option.some.inj h
  exact ht

theorem quiet_buildCmd {type : AsduType} {fmt : CmdFmt} {nodes : List DevNodeCtrl} {f : DevNodeCtrl → List UInt8}
    {start : Core → Core} (hfmt : cmdFmt type = some fmt) (hf : ∀ x ∈ nodes, (f x).length = 2 + fmt.size)
    (hsel : ∀ x ∈ nodes, selected ((f x).drop 2) = true) :
    Quiet (buildCmd c type nodes (nodes.flatMap f) start s).2 := by
  intro a ha g
  rcases List.mem_cons.mp ha with rfl | ha
  · trivial
  · obtain rfl := List.mem_singleton.mp ha
    exact own_select hfmt hf hsel

theorem quiet_buildYk (nodes : NodeArr) : Quiet (buildYk c nodes s).2 := by
  unfold buildYk
  split
  · exact quiet_nil
  split
  · exact quiet_nil
  · exact quiet_buildCmd c s rfl (fun x _ => rfl) fun x _ => selected_or _

/-- The object of a set-point, with a value of `k` octets. -/
theorem ytObj_shape (first x : DevNodeCtrl) {k : Nat} (hk : k ≤ 8)
    (h : (if first.info.type = .float then 4 else 2) = k) :
    (ytObj first x).length = 2 + (k + 1) ∧ selected ((ytObj first x).drop 2) = true := by
  have hobj : ytObj first x = leU16 x.info.addr ++ x.value.octets k ++ [0x80] := by
    rw [ytObj, h]
    rfl
  have hshape := Iec104.setPoint_shape (leU16 x.info.addr) x.value hk
  rwa [length_leU16, ← hobj] at hshape

theorem quiet_buildYt (nodes : NodeArr) : Quiet (buildYt c nodes s).2 := by
  unfold buildYt
  split
  · exact quiet_nil
  split
  · exact quiet_nil
  · rename_i first rest hnodes _
    by_cases hfloat : first.info.type = .float
    · have hshape := fun x => ytObj_shape first x (by decide : 4 ≤ 8) (if_pos hfloat)
      rw [ytType, if_pos hfloat]
      exact quiet_buildCmd c s rfl (fun x _ => (hshape x).1) fun x _ => (hshape x).2
    · have hshape := fun x => ytObj_shape first x (by decide : 2 ≤ 8) (if_neg hfloat)
      rw [ytType, if_neg hfloat]
      exact quiet_buildCmd c s rfl (fun x _ => (hshape x).1) fun x _ => (hshape x).2

end Quiet

/-! ### Runs -/

/-- **One frame**: whatever it is, the master operates only what waits, when it is `Confirmed`. -/
theorem own_serve (c : Conf) {s : Core} {g : Waiting} {sendBuf : UInt8} {f : Taken}
    (hlen : ∀ m len, f = .on68 m len → len ≤ 257) (h : ConfirmedTaken s g sendBuf f) :
    Meets Waiting.next (Own cmdFrame) g (f.serve (handlers c sendBuf) s).2 := by
  cases f with
  | nothing => trivial
  | on10 m =>
    refine ⟨trivial, meets_of_forall _ fun g' a ha => ?_⟩
    have hq : Quiet ((on10 c s).run m).2 := by
      rw [run_on10]
      split
      · exact quiet_mk10 _ _
      split
      · exact quiet_nil
      · exact quiet_nil
    exact hq a ha g'
  | on68 m len =>
    refine ⟨trivial, ?_⟩
    have hrun := run_on68 c s m sendBuf len
    have hserved := served_on68 c s m sendBuf len
    change Meets Waiting.next (Own cmdFrame) g ((on68 c s sendBuf len).run m).2
    refine meets_of_stay (fun a ha => ?_) fun a ha => ?_
    · rcases hserved.acts a ha with ⟨n, v, rfl⟩ | ⟨x, rfl⟩
      · rfl
      · rfl
    · rw [hrun] at ha
      split at ha
      · rename_i hu
        exact own_onUserData c s m (hlen m len rfl) (h hu) a ha
      · cases ha

/-- A frame that is taken in is short enough for the check sum loop. -/
theorem len_of_taken {t : Station Core} {read : Read} {m : Mem} {len : Nat} (h : t.taken read = .on68 m len) :
    len ≤ 257 := by
  have h68 : ∀ a, taken68 a = .on68 m len → len ≤ 257 := by
    intro a ha
    unfold taken68 at ha
    dsimp only at ha
    split at ha
    · rename_i hc
      cases ha
      exact hc.2.1
    · cases ha
  have h10 : ∀ a, taken10 a ≠ .on68 m len := by
    intro a ha
    unfold taken10 at ha
    split at ha <;> cases ha
  unfold Station.taken Iec101.taken at h
  split at h
  · cases h
  split at h
  · cases h
  · exact h68 _ h
  · exact absurd h (h10 _)
  · split at h
    · exact absurd h (h10 _)
    · exact h68 _ h

/-- The contract of a run. -/
def ownership : Contract (Station Core) Waiting Act where
  next := Waiting.next
  assume := fun _ _ => True
  promise := Own cmdFrame
  inv := fun _ _ => True

/-- **One step** operates only what waits, when its frame is `Confirmed`. -/
theorem own_step (c : Conf) (t : Station Core) (g : Waiting) (e : Event) (h : ConfirmedStep (t, g) e) :
    Meets Waiting.next (Own cmdFrame) g (step c t e).2 := by
  have hquiet : ∀ {acts : List Act}, Quiet acts → Meets Waiting.next (Own cmdFrame) g acts := fun hq =>
    meets_of_forall g fun g' a ha => hq a ha g'
  cases e with
  | recv read sendBuf =>
    have hacts := acts_recv (handlers c sendBuf) read t
    show Meets Waiting.next (Own cmdFrame) g (recv (handlers c sendBuf) read t).2
    rw [hacts]
    exact own_serve c (fun _ _ hf => len_of_taken hf) h
  | machine clock =>
    show Meets Waiting.next (Own cmdFrame) g (t.machine (stateMachine c clock)).2
    unfold Station.machine
    split
    · trivial
    · exact hquiet (quiet_stateMachine c t.core clock)
  | callAll junk => exact hquiet (quiet_buildCall c t.core rfl _ (put .callall .callAllStart) junk)
  | callPulse junk => exact hquiet (quiet_buildCall c t.core rfl _ (put .callpulse .callPulseStart) junk)
  | yk nodes => exact hquiet (quiet_buildYk c t.core nodes)
  | yt nodes => exact hquiet (quiet_buildYt c t.core nodes)

/-- **The master executes its own commands only**, in every run whose frames are `Confirmed`. -/
theorem own_run (c : Conf) (es : List Event) (h : Along (watched Waiting.next (step c)) ConfirmedStep (init, []) es) :
    Meets Waiting.next (Own cmdFrame) [] (run (step c) init es).2 :=
  (Contract.keeps_along (K := ownership) (fun e _ t g _ hQ => ⟨own_step c t g e hQ, trivial⟩) trivial h).1

end Master

end Iec101

/-! ### Both masters -/

open Iec10x

/-- **Masters execute only their own pending commands**, in every run whose frames are confirmed. -/
theorem masters_ownOnly (c : Iec104.Master.Conf) (es : List Iec104.Master.Event)
    (h : Meets Iec104.Watch.next Iec104.Echo ⟨[], []⟩ (run (Iec104.Master.step c) .init es).2)
    (c' : Iec101.Master.Conf) (es' : List Iec101.Master.Event)
    (h' : Along (watched Waiting.next (Iec101.Master.step c')) Iec101.Master.ConfirmedStep (Iec101.Master.init, []) es') :
    Meets Iec104.Watch.next (fun g => Own Iec104.cmdFrame g.waiting) ⟨[], []⟩ (run (Iec104.Master.step c) .init es).2 ∧
      Meets Waiting.next (Own Iec101.cmdFrame) [] (run (Iec101.Master.step c') Iec101.Master.init es').2 :=
  ⟨Iec104.Master.own_run c es h, Iec101.Master.own_run c' es' h'⟩

/-- A command for one node. -/
def switchOn : NodeArr := ⟨[⟨⟨.yk, 0x6001, .sint8⟩, ⟨#v[1, 0, 0, 0, 0, 0, 0, 0], .replicate 7 0⟩⟩], by decide⟩

/-- The confirmation of its select on IEC-104. -/
def selected104 : Iec104.Chunk :=
  ⟨(Iec104.mkI ⟨0, 0, -1, 0⟩ ⟨AsduType.cScNa1.code, false, 1, Cot.actcon, 1⟩ (Iec104.infoAddr 0x6001 ++ [0x81])).wire,
    by decide, by decide⟩

/-- The confirmation of its select on IEC-101. -/
def selected101 : Iec101.Read :=
  ⟨(Iec101.mk68 0x08 1 (Iec101.AsduHead.octets ⟨AsduType.cScNa1.code, false, 1, Cot.actcon, false, false, 1⟩ ++
    [0x01, 0x60, 0x81]) 17).wire, by decide⟩

/-- The start of a connection of IEC-104. -/
def start104 : List Iec104.Master.Event :=
  let started : Iec104.Chunk :=
    ⟨(Iec104.mkFrame (Iec104.ctrlU Iec104.UFunc.startdtAck) []).wire, by decide, by decide⟩
  [.machine 0 0 false, .machine 0 0 true, .recv started 0, .machine 0 0 false]

/-- The command and its confirmation. -/
def switched104 : List Iec104.Master.Event := start104 ++ [.yk switchOn, .recv selected104 0]

def switched101 : List Iec101.Master.Event :=
  Iec101.Master.sampleStart ++ [.yk switchOn, .recv selected101 0]

theorem masters_ownOnly_switchOn :
    Meets Iec104.Watch.next (fun g => Own Iec104.cmdFrame g.waiting) ⟨[], []⟩
        (run (Iec104.Master.step Iec104.Master.sampleConf) .init switched104).2 ∧
      Meets Waiting.next (Own Iec101.cmdFrame) []
        (run (Iec101.Master.step Iec101.Master.sampleConf) Iec101.Master.init switched101).2 :=
  masters_ownOnly Iec104.Master.sampleConf switched104 (by decide +kernel) Iec101.Master.sampleConf switched101
    (by decide +kernel)

/-- A confirmation that nobody asked for is executed. -/
theorem not_masters_ownOnly_unsolicited :
    ¬ Meets Iec104.Watch.next (fun g => Own Iec104.cmdFrame g.waiting) ⟨[], []⟩
        (run (Iec104.Master.step Iec104.Master.sampleConf) .init (start104 ++ [.recv selected104 0])).2 ∧
      ¬ Meets Waiting.next (Own Iec101.cmdFrame) [] (run (Iec101.Master.step Iec101.Master.sampleConf)
        Iec101.Master.init (Iec101.Master.sampleStart ++ [.recv selected101 0])).2 := by
  decide +kernel

end Wow
