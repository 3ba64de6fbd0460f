import Wow.Iec101.Monitoring
import Wow.Iec101.Pending

/-!
# Wow.Iec101.Execution — the execute that a master makes of its select

`build_yk_ack` and `build_yt_ack` make the execute out of the confirmation in the byte array, each with its own walk
over the objects.  The first takes the length from the end of that walk, the second from a pointer that starts at
`NULL`.

* `Executes`: the execute is the select but for the select bit of every element.
* `executes_iff`: that is so of remote control that fits its length octet, and of no set-point.
-/

namespace Wow.Iec101.Master

open Iec10x
open Iec104 (CmdFmt cmdFmt ykFmt ytFmt cmdFmt_size_pos size_of_ykFmt)

variable (c : Conf)

/-! ### Selects and their confirmations -/

/-- **A select** for `type` from the master `c`, of either `SQ`: the objects that it announces are all that it holds. -/
structure Select (w : List UInt8) (type : AsduType) (fmt : CmdFmt) : Prop where
  ofCode : AsduType.ofCode (Fld.type (octetsMem w)) = some type
  elements : cmdFmt type = some fmt
  act : Fld.reason (octetsMem w) = Cot.act
  link : (octetsMem w).u16 5 = c.asduAddr
  addr : (octetsMem w).u16 10 = c.asduAddr
  length : w.length = 14 + extent 2 fmt.size (Fld.num (octetsMem w)) (Fld.sq (octetsMem w))

/-- **The positive confirmation** of the select `w`, at the start of the buffer: a frame that passes the checks, with
the ASDU of the select but for the cause. -/
structure Echo (w : List UInt8) (m : Mem) (type : AsduType) (fmt : CmdFmt) : Prop extends Select c w type fmt where
  valid : Valid68 m w.length
  user : UserData m
  actcon : Fld.reason m = Cot.actcon
  positive : Fld.pn m = false
  same : ∀ i, 7 ≤ i → i + 2 < w.length → i ≠ 9 → m i = octetsMem w i

/-- **The requirement**: one frame goes out, its length octets and its check sum right, as long as the select, with the
same type, count, addresses and values, and no element selected. -/
def Executes (w : List UInt8) (acts : List Act) : Prop :=
  ∃ f l body, acts = [send f] ∧ f.wire = octets68 l body ∧ body.length = l.toNat ∧ f.wire.length = w.length
    ∧ Fld.sq (octetsMem f.wire) = Fld.sq (octetsMem w)
    ∧ (octetsMem f.wire).u16 5 = (octetsMem w).u16 5 ∧ (octetsMem f.wire).u16 10 = (octetsMem w).u16 10
    ∧ cmdFrame f.wire = (cmdFrame w).map fun v => { v with objs := v.objs.map unselectObj }

section

variable {c : Conf} {s : Core} {w : List UInt8} {m : Mem} {type : AsduType} {fmt : CmdFmt}

theorem Select.size_pos (h : Select c w type fmt) : 0 < fmt.size := cmdFmt_size_pos h.elements

theorem Select.cmdFrame_eq (h : Select c w type fmt) :
    cmdFrame w = some ⟨type, Fld.num (octetsMem w), Cot.act, objsAt (octetsMem w) 12 2 fmt.size
      (Fld.num (octetsMem w)) (Fld.sq (octetsMem w)) (w.length - 14)⟩ := by
  rw [cmdFrame_of_type h.ofCode h.elements, h.act]

/-- The head and the objects of the confirmation are those of the select. -/
theorem Echo.octets (h : Echo c w m type fmt) : Fld.type m = Fld.type (octetsMem w)
    ∧ Fld.num m = Fld.num (octetsMem w) ∧ Fld.sq m = Fld.sq (octetsMem w)
    ∧ ∀ j < extent 2 fmt.size (Fld.num (octetsMem w)) (Fld.sq (octetsMem w)), m (12 + j) = octetsMem w (12 + j) := by
  have hlen := h.length
  have h8 : m 8 = octetsMem w 8 := h.same 8 (by decide) (by omega) (by decide)
  refine ⟨h.same 7 (by decide) (by omega) (by decide), ?_, ?_, fun j hj => ?_⟩
  · rw [Fld.num, h8, Fld.num]
  · rw [Fld.sq, h8, Fld.sq]
  · exact h.same _ (by omega) (by omega) (by omega)

/-- What is sent on a confirmation, by the kind of its command. -/
theorem acts_of_echo (h : Echo c w m type fmt) (sendBuf : UInt8) :
    ((on68 c s sendBuf w.length).run m).2 =
      if (ykFmt type).isSome then (buildYkAck c (put .yk .ykCmdExec s)).run m
      else (buildYtAck c (put .yt .ytCmdExec s) sendBuf).run m := by
  have hof : AsduType.ofCode (m 7) = some type := by
    rw [← h.ofCode, ← h.octets.1]
    rfl
  have helem := h.elements
  rw [run_on68, if_pos h.user]
  simp only [onUserData, Rd.run_bind, Rd.run_octet, Rd.mem_octet, hof]
  cases type with
  | cScNa1 | cDcNa1 =>
    simp only [run_asduYk, h.positive, h.actcon, and_self, if_true]
    rfl
  | cSeNa1 | cSeNc1 =>
    simp only [run_asduYt, h.positive, h.actcon, and_self, if_true]
    rfl
  | _ => cases helem

/-! ### What a reader finds in a built frame -/

/-- The octets of a frame, from its control octet on. -/
theorem octetsMem_octets68 {l : UInt8} {body : List UInt8} {i : Nat} (hi : i < body.length) :
    octetsMem (octets68 l body) (4 + i) = body[i] := by
  have hlt : 4 + i < (octets68 l body).length := by
    rw [length_octets68]
    omega
  rw [octetsMem, Mem.fill_of_lt hlt, getElem_octets68 hi]

section Built

variable {ctrl : UInt8} {addr : UInt16} {head : AsduHead} {info : List UInt8}
  (hfit : 14 + info.length ≤ 255)
include hfit

theorem wire_mkAsdu : (mkAsdu ctrl addr head info).wire =
    octets68 (UInt8.ofNat (8 + info.length)) (ctrl :: (leU16 addr ++ (head.octets ++ info))) := by
  have hlen : (head.octets ++ info).length + 3 = 8 + info.length := by
    rw [List.length_append, AsduHead.length_octets]
    omega
  rw [← hlen]
  exact wire_mk68 ctrl addr (by rw [lenOf_octets]; omega)

theorem length_wire_mkAsdu : (mkAsdu ctrl addr head info).wire.length = 14 + info.length := by
  rw [length_wire_mk68, lenOf_octets, UInt8.toNat_ofNat']
  omega

/-- The fields of the frame, and its two addresses. -/
theorem read_mkAsdu : Bodied (octetsMem (mkAsdu ctrl addr head info).wire) ctrl head info
    ∧ (octetsMem (mkAsdu ctrl addr head info).wire).u16 5 = addr
    ∧ (octetsMem (mkAsdu ctrl addr head info).wire).u16 10 = head.addr := by
  have hx : ∀ i (hi : i < (ctrl :: (leU16 addr ++ (head.octets ++ info))).length),
      octetsMem (mkAsdu ctrl addr head info).wire (4 + i)
        = (ctrl :: (leU16 addr ++ (head.octets ++ info)))[i] := by
    intro i hi
    rw [wire_mkAsdu hfit, octetsMem_octets68 hi]
  have hlong : 8 ≤ (ctrl :: (leU16 addr ++ (head.octets ++ info))).length := by
    rw [List.length_cons, List.length_append, List.length_append, AsduHead.length_octets, length_leU16]
    omega
  refine ⟨bodied hx, u16_of_slice ?_, u16_of_slice ?_⟩
  · show [octetsMem _ (4 + 1), octetsMem _ (4 + 2)] = _
    rw [hx 1 (by omega), hx 2 (by omega)]
    rfl
  · show [octetsMem _ (4 + 6), octetsMem _ (4 + 7)] = _
    rw [hx 6 (by omega), hx 7 (by omega)]
    rfl

/-- The command in the frame. -/
theorem cmdFrame_mkAsdu (htype : AsduType.ofCode head.type = some type) (hfmt : cmdFmt type = some fmt) :
    cmdFrame (mkAsdu ctrl addr head info).wire = some ⟨type, head.num % 128, head.reason % 64,
      objsAt (octetsMem (mkAsdu ctrl addr head info).wire) 12 2 fmt.size (head.num % 128) head.sq info.length⟩ := by
  obtain ⟨hread, -, -⟩ := @read_mkAsdu ctrl addr head info hfit
  have htype' : AsduType.ofCode (Fld.type (octetsMem (mkAsdu ctrl addr head info).wire)) = some type := by
    rw [Fld.type, hread.type, htype]
  rw [cmdFrame_of_type htype' hfmt, hread.num, hread.sq, hread.reason, length_wire_mkAsdu hfit, Nat.add_sub_cancel_left]

end Built

/-! ### Remote control -/

/-- A frame with the objects of the select, their select bits cleared. -/
theorem executes_of_clear (h : Select c w type fmt) (hfit : w.length ≤ 255) {info : List UInt8}
    (hlen : info.length = extent 2 fmt.size (Fld.num (octetsMem w)) (Fld.sq (octetsMem w)))
    (hclear : ∀ j (hj : j < info.length), info[j] =
      if isSelect 2 fmt.size (Fld.sq (octetsMem w)) j then octetsMem w (12 + j) &&& 0x7F else octetsMem w (12 + j)) :
    Executes w [send (mkAsdu ctrlUser c.asduAddr
      ⟨Fld.type (octetsMem w), Fld.sq (octetsMem w), Fld.num (octetsMem w), Cot.act, false, false, c.asduAddr⟩ info)] := by
  have hw := h.length
  have hinfo : 14 + info.length ≤ 255 := by omega
  have hnum : Fld.num (octetsMem w) % 128 = Fld.num (octetsMem w) := Nat.mod_eq_of_lt (num_lt _)
  obtain ⟨hread, hlink, haddr⟩ := @read_mkAsdu ctrlUser c.asduAddr
    ⟨Fld.type (octetsMem w), Fld.sq (octetsMem w), Fld.num (octetsMem w), Cot.act, false, false, c.asduAddr⟩ info hinfo
  refine ⟨_, _, _, rfl, wire_mkAsdu hinfo, ?_, ?_, hread.sq, hlink.trans h.link.symm, haddr.trans h.addr.symm, ?_⟩
  · rw [List.length_cons, List.length_append, List.length_append, AsduHead.length_octets, length_leU16,
      UInt8.toNat_ofNat']
    omega
  · rw [length_wire_mkAsdu hinfo, hw, hlen]
  · have hoct : ∀ j < extent 2 fmt.size (Fld.num (octetsMem w)) (Fld.sq (octetsMem w)),
        octetsMem (mkAsdu ctrlUser c.asduAddr ⟨Fld.type (octetsMem w), Fld.sq (octetsMem w), Fld.num (octetsMem w),
          Cot.act, false, false, c.asduAddr⟩ info).wire (12 + j)
        = if isSelect 2 fmt.size (Fld.sq (octetsMem w)) j then octetsMem w (12 + j) &&& 0x7F
          else octetsMem w (12 + j) := by
      intro j hj
      rw [← hclear j (by omega), info_mk68 _ _ _ _ _ (by omega) (by rw [lenOf_octets, UInt8.toNat_ofNat']; omega)]
    have hobjs := objsAt_unselected h.size_pos hoct (Nat.le_of_eq (by omega : _ = w.length - 14))
      (Nat.le_of_eq hlen.symm)
    rw [cmdFrame_mkAsdu hinfo h.ofCode h.elements, h.cmdFrame_eq, hnum, hobjs]
    rfl

/-- **The execute of remote control that fits** its length octet. -/
theorem executes_yk (h : Echo c w m type fmt) (hyk : (ykFmt type).isSome = true) (hs : s.stat.init = .linkIdle)
    (hfit : w.length ≤ 255) : Executes w ((buildYkAck c s).run m) := by
  obtain ⟨htype, hnum, hsq, hobjs⟩ := h.octets
  have hsize : fmt.size = 1 := size_of_ykFmt h.elements hyk
  obtain ⟨fmt', hfmt'⟩ := Option.isSome_iff_exists.mp hyk
  have hext : (if Fld.sq (octetsMem w) then Fld.num (octetsMem w) + 2 else Fld.num (octetsMem w) * 3)
      = extent 2 fmt.size (Fld.num (octetsMem w)) (Fld.sq (octetsMem w)) := by
    rw [hsize]
    cases Fld.sq (octetsMem w) <;> simp [extent, Nat.add_comm]
  rw [run_buildYkAck, if_neg (not_not.mpr hs), htype, hnum, hsq, h.ofCode, Option.bind_some, hfmt', hext]
  have hlen : (clearYk (Fld.sq (octetsMem w)) (m.slice 12
      (extent 2 fmt.size (Fld.num (octetsMem w)) (Fld.sq (octetsMem w))))).length
        = extent 2 fmt.size (Fld.num (octetsMem w)) (Fld.sq (octetsMem w)) := by
    rw [clearYk, List.length_mapIdx, Mem.length_slice]
  refine executes_of_clear h.toSelect hfit hlen fun j hj => ?_
  rw [getElem_clearYk _ _ hj (by rw [Mem.length_slice]; omega), Mem.getElem_slice, hobjs j (by omega), hsize]

/-- An execute of remote control is no longer than a length octet can say. -/
theorem length_of_executes_yk (hexec : Executes w ((buildYkAck c s).run m)) : w.length ≤ 255 := by
  obtain ⟨f, l, body, hacts, -, -, hlen, -⟩ := hexec
  rw [run_buildYkAck] at hacts
  split at hacts
  · cases hacts
  · split at hacts
    · cases hacts
    · obtain rfl := (Act.send.inj (List.cons.inj hacts).1).1
      rw [length_wire_mk68] at hlen
      exact hlen ▸ Nat.le_of_lt_succ (UInt8.toNat_lt _)

/-! ### Set-points -/

/-- An execute of a set-point is as long as the address of `send_buf` says. -/
theorem length_of_executes_yt {sendBuf : UInt8} (hexec : Executes w ((buildYtAck c s sendBuf).run m)) :
    ∃ fmt, (AsduType.ofCode (Fld.type m)).bind ytFmt = some fmt
      ∧ w.length = ytLen (Fld.num m) (if Fld.sq m then fmt.size else 2 + fmt.size) sendBuf := by
  obtain ⟨f, l, body, hacts, -, -, hlen, -⟩ := hexec
  rw [run_buildYtAck] at hacts
  split at hacts
  · cases hacts
  · split at hacts
    · cases hacts
    · rename_i fmt hfmt
      obtain rfl := (Act.send.inj (List.cons.inj hacts).1).1
      rw [length_wire_mk68, UInt8.toNat_ofNat'] at hlen
      exact ⟨fmt, hfmt, hlen.symm⟩

/-- No set-point is executed at two neighbouring places of `send_buf`. -/
theorem not_executes_yt : ¬ (Executes w ((buildYtAck c s 0).run m) ∧ Executes w ((buildYtAck c s 1).run m)) := by
  rintro ⟨hzero, hone⟩
  obtain ⟨fmt, hfmt, hzero⟩ := length_of_executes_yt hzero
  obtain ⟨fmt', hfmt', hone⟩ := length_of_executes_yt hone
  obtain rfl : fmt = fmt' := Option.some.inj (hfmt.symm.trans hfmt')
  rw [hzero, ytLen, ytLen, show (0 : UInt8).toNat = 0 from rfl, show (1 : UInt8).toNat = 1 from rfl] at hone
  omega

/-! ### The selects of the two calls -/

/-- A built select that fits. -/
theorem select_of_mem_buildCmd {nodes : List DevNodeCtrl} {obj : DevNodeCtrl → List UInt8} {start : Core → Core}
    (hfmt : cmdFmt type = some fmt) (hobj : ∀ x ∈ nodes, (obj x).length = 2 + fmt.size)
    (hfit : nodes.length * (2 + fmt.size) ≤ 241) {f : SendBuf} {up : Bool}
    (hf : .send f up ∈ (buildCmd c type nodes (nodes.flatMap obj) start s).2) : Select c f.wire type fmt := by
  rw [buildCmd, List.mem_cons, List.mem_singleton] at hf
  rcases hf with hf | hf
  · cases hf
  obtain rfl := (Act.send.inj hf).1
  have hinfo : (nodes.flatMap obj).length = nodes.length * (2 + fmt.size) := length_flatMap_of_const nodes hobj
  have hpos := cmdFmt_size_pos hfmt
  have hmul : nodes.length * 3 ≤ nodes.length * (2 + fmt.size) := Nat.mul_le_mul_left _ (by omega)
  have hnum : nodes.length % 128 = nodes.length := Nat.mod_eq_of_lt (by omega)
  obtain ⟨hread, hlink, haddr⟩ := @read_mkAsdu ctrlUser c.asduAddr
    ⟨type.code, false, nodes.length, Cot.act, false, false, c.asduAddr⟩ (nodes.flatMap obj) (by omega)
  refine ⟨?_, hfmt, hread.reason, hlink, haddr, ?_⟩
  · rw [Fld.type, hread.type, AsduType.ofCode_code]
  · rw [length_wire_mkAsdu (by omega), hread.num, hread.sq, hinfo, hnum]
    rfl

/-- **The select of `wow_iec101_m_build_yk`**, if it fits its length octet. -/
theorem select_of_mem_buildYk {nodes : NodeArr} (hfmt : cmdFmt .cScNa1 = some fmt)
    (hfit : nodes.val.length * (2 + fmt.size) ≤ 241) {f : SendBuf} {up : Bool}
    (hf : .send f up ∈ (buildYk c nodes s).2) : Select c f.wire .cScNa1 fmt := by
  have hsize : fmt.size = 1 := size_of_ykFmt hfmt rfl
  unfold buildYk at hf
  split at hf
  · cases hf
  · split at hf
    · cases hf
    · exact select_of_mem_buildCmd hfmt (fun x _ => by rw [hsize]; rfl) hfit hf

/-- **The select of `wow_iec101_m_build_yt`**, if it fits its length octet. -/
theorem select_of_mem_buildYt {nodes : NodeArr} {first : DevNodeCtrl} {rest : List DevNodeCtrl}
    (hnodes : nodes.val = first :: rest) (hfmt : cmdFmt (ytType first) = some fmt)
    (hfit : nodes.val.length * (2 + fmt.size) ≤ 241) {f : SendBuf} {up : Bool}
    (hf : .send f up ∈ (buildYt c nodes s).2) : Select c f.wire (ytType first) fmt := by
  have hobj : ∀ x ∈ nodes.val, (ytObj first x).length = 2 + fmt.size := by
    intro x _
    by_cases hfloat : first.info.type = .float
    · rw [ytType, if_pos hfloat] at hfmt
      obtain rfl := Option.some.inj hfmt
      exact (ytObj_shape first x (by decide : 4 ≤ 8) (if_pos hfloat)).1
    · rw [ytType, if_neg hfloat] at hfmt
      obtain rfl := Option.some.inj hfmt
      exact (ytObj_shape first x (by decide : 2 ≤ 8) (if_neg hfloat)).1
  unfold buildYt at hf
  rw [hnodes] at hf hobj hfit
  dsimp only at hf
  split at hf
  · cases hf
  · exact select_of_mem_buildCmd hfmt hobj hfit hf

/-! ### The requirement -/

/-- **The execute is the select**, wherever `send_buf` lies on the stack, when the command is one of remote control
that fits its length octet, and only then. -/
theorem executes_iff (h : Echo c w m type fmt) (hs : s.stat.init = .linkIdle) :
    (∀ sendBuf, Executes w ((on68 c s sendBuf w.length).run m).2)
      ↔ (ykFmt type).isSome = true ∧ w.length ≤ 255 := by
  simp only [acts_of_echo h]
  by_cases hyk : (ykFmt type).isSome = true
  · simp only [hyk, if_true, true_and]
    constructor
    · intro hall
      exact length_of_executes_yk (hall 0)
    · intro hfit sendBuf
      exact executes_yk h hyk hs hfit
  · refine iff_of_false (fun hall => ?_) fun hcond => hyk hcond.1
    simp only [hyk, Bool.false_eq_true, if_false] at hall
    exact not_executes_yt ⟨hall 0, hall 1⟩

end

/-- A frame of the link 1 with the objects `objs`. -/
def sampleFrame (ctrl type vsq cot : UInt8) (objs : List UInt8) : List UInt8 :=
  octets68 (UInt8.ofNat (8 + objs.length)) ([ctrl, 1, 0, type, vsq, cot, 1, 0] ++ objs)

/-- A master whose link is open. -/
def sampleIdle : Core := { Core.fresh with stat := { Core.fresh.stat with init := .linkIdle } }

/-- Two single commands behind one address. -/
theorem executes_switches : Executes (sampleFrame ctrlUser 0x2D 0x82 6 [1, 0x60, 0x81, 0x80])
    ((on68 sampleConf sampleIdle 0 18).run (octetsMem (sampleFrame 0x08 0x2D 0x82 7 [1, 0x60, 0x81, 0x80]))).2 := by
  have hsame : ∀ i < 18, 7 ≤ i → i + 2 < 18 → i ≠ 9 →
      octetsMem (sampleFrame 0x08 0x2D 0x82 7 [1, 0x60, 0x81, 0x80]) i
        = octetsMem (sampleFrame ctrlUser 0x2D 0x82 6 [1, 0x60, 0x81, 0x80]) i := by decide
  have hecho : Echo sampleConf (sampleFrame ctrlUser 0x2D 0x82 6 [1, 0x60, 0x81, 0x80])
      (octetsMem (sampleFrame 0x08 0x2D 0x82 7 [1, 0x60, 0x81, 0x80])) .cScNa1
      ⟨.yk, .sint8, 1, fun e => [e.getD 0 0 &&& 0x01]⟩ :=
    ⟨⟨by decide, rfl, by decide, by decide, by decide, by decide⟩, by decide, by decide, by decide, by decide,
      fun i h7 hi h9 => hsame i (Nat.lt_of_le_of_lt (Nat.le_add_right i 2) hi) h7 hi h9⟩
  exact (executes_iff hecho rfl).mpr ⟨rfl, by decide⟩ 0

/-- One normalised set-point: seven octets go out of nineteen. -/
theorem not_executes_set_point :
    (∃ fmt, Echo sampleConf (sampleFrame ctrlUser 0x30 1 6 [1, 0x62, 0x34, 0x12, 0x80])
      (octetsMem (sampleFrame 0x08 0x30 1 7 [1, 0x62, 0x34, 0x12, 0x80])) .cSeNa1 fmt) ∧
    ¬ Executes (sampleFrame ctrlUser 0x30 1 6 [1, 0x62, 0x34, 0x12, 0x80]) ((on68 sampleConf sampleIdle 0 19).run
      (octetsMem (sampleFrame 0x08 0x30 1 7 [1, 0x62, 0x34, 0x12, 0x80]))).2 := by
  have hsame : ∀ i < 19, 7 ≤ i → i + 2 < 19 → i ≠ 9 →
      octetsMem (sampleFrame 0x08 0x30 1 7 [1, 0x62, 0x34, 0x12, 0x80]) i
        = octetsMem (sampleFrame ctrlUser 0x30 1 6 [1, 0x62, 0x34, 0x12, 0x80]) i := by decide
  obtain ⟨fmt, hfmt⟩ : ∃ fmt, cmdFmt .cSeNa1 = some fmt ∧ fmt.size = 3 := ⟨_, rfl, rfl⟩
  have hecho : Echo sampleConf (sampleFrame ctrlUser 0x30 1 6 [1, 0x62, 0x34, 0x12, 0x80])
      (octetsMem (sampleFrame 0x08 0x30 1 7 [1, 0x62, 0x34, 0x12, 0x80])) .cSeNa1 fmt :=
    ⟨⟨by decide, hfmt.1, by decide, by decide, by decide, by rw [hfmt.2]; decide⟩, by decide, by decide, by decide,
      by decide, fun i h7 hi h9 => hsame i (Nat.lt_of_le_of_lt (Nat.le_add_right i 2) hi) h7 hi h9⟩
  refine ⟨⟨fmt, hecho⟩, fun hexec => ?_⟩
  have hacts := acts_of_echo (s := sampleIdle) hecho 0
  rw [if_neg (by decide)] at hacts
  obtain ⟨fmt', hfmt', hlen⟩ := length_of_executes_yt (hacts ▸ hexec)
  obtain rfl := Option.some.inj hfmt'
  exact absurd hlen (by decide)

end Wow.Iec101.Master
