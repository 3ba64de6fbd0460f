import Wow.Iec101.Wire
import Wow.Iec10x.Pending

/-!
# Wow.Iec101.Confirmation — what the slave says to a command that it has saved

`build_yk_ack` and `build_yt_ack` copy the saved command into a frame and change its cause; the length of the frame
is that of one information address and one octet for each object.

* `Echoes`: the frame that a confirmation has to be.
* `wire_ack`: the frame that goes out when the length is right.
* `confirmation_iff`: the selects whose confirmation and termination say what the select said.
-/

namespace Wow.Iec101.Slave

open Iec10x
open Iec104 (CmdFmt cmdFmt ykFmt ytFmt selected cmdFmt_size_pos)

variable {P : Type} (c : Conf P)

/-! ### Selects -/

/-- The objects of a command, in the buffer. -/
def cmdObjs (m : Mem) (fmt : CmdFmt) : List (UInt16 × List UInt8) :=
  Fld.objs m (Fld.num m) (Fld.sq m) fmt.size fmt.size

/-- What makes a command a select: the first object decides for remote control, any one for set-points. -/
def Selects (m : Mem) (type : AsduType) (fmt : CmdFmt) : Prop :=
  if (ykFmt type).isSome then ∃ o ∈ (cmdObjs m fmt).head?, selected o.2 = true
  else ∃ o ∈ cmdObjs m fmt, selected o.2 = true

/-- **A select** of `type` in a frame of `len` octets: it passes the checks, it is an activation, and the objects that
it announces are all that it holds. -/
structure Select (m : Mem) (len : Nat) (type : AsduType) (fmt : CmdFmt) : Prop where
  valid : Valid68 m len
  func : Fld.func m = Func.sendUsrDataAck
  ofCode : AsduType.ofCode (Fld.type m) = some type
  elements : cmdFmt type = some fmt
  act : Fld.reason m = Cot.act
  objs : len = 14 + objsLen (Fld.num m) (Fld.sq m) fmt.size
  selects : Selects m type fmt

/-! ### The requirement -/

/-- An ASDU with another cause of transmission. -/
def withCause (reason : Nat) (asdu : List UInt8) : List UInt8 :=
  asdu.modify 2 fun b => UInt8.ofNat (reason % 64 + b.toNat / 64 * 64)

/-- The octets of a confirmation in front of its check sum, from the control octet on. -/
def ackBody (reason : Nat) (asdu : List UInt8) : List UInt8 :=
  ctrlUp false false true false Func.resUsrDataAck :: (leU16 c.asduAddr ++ withCause reason asdu)

/-- **The requirement** on what is sent: one frame with the whole ASDU but for its cause, its length octets and its
check sum right, from which a master reads the objects of the command. -/
def Echoes (reason : Nat) (m : Mem) (len : Nat) (fmt : CmdFmt) (acts : List Act) : Prop :=
  ∃ f, acts = [send f] ∧
    f.wire = octets68 (UInt8.ofNat (len - 6)) (ackBody c reason (m.slice 7 (len - 9))) ∧
    (ackBody c reason (m.slice 7 (len - 9))).length = (UInt8.ofNat (len - 6)).toNat ∧
    Fld.type (octetsMem f.wire) = Fld.type m ∧ cmdObjs (octetsMem f.wire) fmt = cmdObjs m fmt

/-- The builder of the confirmation of a command. -/
def buildAck (type : AsduType) (s : Core) (reason : Nat) : List Act :=
  if (ykFmt type).isSome then buildYkAck c s reason else buildYtAck c s reason

/-! ### What is saved -/

section Saved

variable {m : Mem} {len : Nat} {type : AsduType} {fmt : CmdFmt}

theorem Select.len_eq (h : Select m len type fmt) : len = (m 1).toNat + 6 := h.valid.2.2.1.symm

theorem Select.num_pos (h : Select m len type fmt) : 0 < Fld.num m := by
  refine Nat.pos_of_ne_zero fun hz => ?_
  have hnil : cmdObjs m fmt = [] := by
    rw [cmdObjs, hz]
    rfl
  have hsel := h.selects
  rw [Selects, hnil] at hsel
  split at hsel
  · obtain ⟨o, ho, -⟩ := hsel
    cases ho
  · obtain ⟨o, ho, -⟩ := hsel
    cases ho

/-- The first element of a select of remote control. -/
theorem Select.selected_elem0 (h : Select m len type fmt) (hyk : ykFmt type = some fmt) :
    selected [Fld.elem0 m] = true := by
  have hsize : fmt.size = 1 := by
    cases type <;> first | cases hyk; rfl | cases hyk
  obtain ⟨n, hn⟩ := Nat.exists_eq_add_one_of_ne_zero (Nat.ne_of_gt h.num_pos)
  have hsel := h.selects
  rw [Selects, hyk, if_pos Option.isSome_some, cmdObjs, hsize, hn, Fld.objs, List.range_succ_eq_map,
    List.map_cons] at hsel
  obtain ⟨o, ho, hsel⟩ := hsel
  obtain rfl := Option.some_inj.mp ho
  rw [Fld.obj] at hsel
  split at hsel
  · exact hsel
  · exact hsel

/-- **A select is saved**, from its ASDU to its check sum. -/
theorem buildAck_on68 (h : Select m len type fmt) (s : Core) (reason : Nat) :
    buildAck c type ((on68 c s len).run m).1 reason =
      buildCmdAck c reason (some (m.slice 7 (len - 9) ++ [m (len - 2)])) := by
  have hlen := h.len_eq
  have hlt := (m 1).toNat_lt
  have hobjs := h.objs
  have hbak : m.slice 7 (bakSize len) = m.slice 7 (len - 9) ++ [m (len - 2)] := by
    have hsize : bakSize len = len - 9 + 1 := by
      rw [bakSize]
      omega
    rw [hsize, Mem.slice_append, show 7 + (len - 9) = len - 2 by omega]
    rfl
  have hof : AsduType.ofCode (m 7) = some type := h.ofCode
  rw [run_on68, if_pos h.func]
  simp only [onUserData, Rd.run_bind, Rd.run_octet, Rd.mem_octet, hof]
  cases hyk : ykFmt type with
  | some fmt' =>
    have hsel : selected [Fld.elem0 m] = true := by
      refine h.selected_elem0 ?_
      have helem := h.elements
      rw [cmdFmt, hyk] at helem
      exact hyk.trans helem
    rw [buildAck, hyk, if_pos Option.isSome_some, buildYkAck, ← hbak]
    cases type with
    | cScNa1 | cDcNa1 =>
      simp only [run_asduYk, h.act, ne_eq, not_true_eq_false, if_false, hsel, if_true]
    | _ => cases hyk
  | none =>
    rw [buildAck, hyk, if_neg (show ¬ (none : Option CmdFmt).isSome = true from Bool.false_ne_true), buildYtAck, ← hbak]
    have helem := h.elements
    rw [cmdFmt, hyk, Option.none_or] at helem
    have hfmt : (AsduType.ofCode (Fld.type m)).bind Iec104.ytFmt = some fmt := by
      rw [h.ofCode]
      exact helem
    cases type with
    | cSeNa1 | cSeNc1 => simp only [run_asduYt, h.act, ne_eq, not_true_eq_false, if_false, hfmt]
    | _ => cases helem

/-! ### What goes out -/

theorem length_withCause (reason : Nat) (asdu : List UInt8) : (withCause reason asdu).length = asdu.length :=
  List.length_modify _ _ _

theorem setReason_append (reason : Nat) : ∀ {asdu : List UInt8} (_ : 3 ≤ asdu.length) (x : List UInt8),
    setReason reason (asdu ++ x) = withCause reason asdu ++ x
  | a :: b :: d :: l, _, x => by
    have hpad : 3 - (a :: b :: d :: l ++ x).length = 0 := by
      simp only [List.cons_append, List.length_cons]
      omega
    rw [setReason, hpad, List.replicate_zero, List.append_nil]
    rfl

/-- **The frame that goes out** when the length of the builder is that of the command. -/
theorem wire_ack (reason : Nat) {asdu : List UInt8} (x : List UInt8) (hlong : 3 ≤ asdu.length)
    (hfit : lenOf asdu ≤ 255) (hnum : lenOf asdu = variableLen + (asdu.getD 1 0).toNat % 128) :
    ∃ f, buildCmdAck c reason (some (asdu ++ x)) = [send f] ∧
      f.wire = octets68 (UInt8.ofNat (asdu.length + 3)) (ackBody c reason asdu) := by
  refine ⟨_, rfl, ?_⟩
  have hget : (asdu ++ x).getD 1 0 = asdu.getD 1 0 := by
    rw [List.getD_eq_getElem?_getD, List.getElem?_append_left (by omega), List.getD_eq_getElem?_getD]
  have hlen : lenOf asdu = lenOf (withCause reason asdu) := by rw [lenOf, lenOf, length_withCause]
  rw [setReason_append reason hlong, hget, ← hnum, hlen, wire_mk68_append _ _ x (hlen ▸ hfit), length_withCause, ackBody]

/-! ### What a master reads of it -/

/-- The objects are a matter of the octets that hold them. -/
theorem objs_congr {m m' : Mem} {n sz : Nat} {sq : Bool}
    (h : ∀ i, i < objsLen n sq sz → m' (12 + i) = m (12 + i)) :
    Fld.objs m' n sq sz sz = Fld.objs m n sq sz sz := by
  refine List.map_congr_left fun i hi => ?_
  have hi := List.mem_range.mp hi
  cases sq with
  | true =>
    have hle : (i + 1) * sz ≤ n * sz := Nat.mul_le_mul_right sz hi
    rw [Nat.succ_mul] at hle
    have hlen : objsLen n true sz = 2 + n * sz := if_pos rfl
    have haddr : m'.u16 12 = m.u16 12 := by
      rw [Mem.u16, Mem.u16, h 0 (by omega), h 1 (by omega)]
    have helem : m'.slice (14 + i * sz) sz = m.slice (14 + i * sz) sz := Mem.slice_congr fun j hj => by
      rw [show 14 + i * sz + j = 12 + (2 + i * sz + j) by omega]
      exact h _ (by omega)
    rw [Fld.obj, Fld.obj, if_pos rfl, if_pos rfl, haddr, helem]
  | false =>
    have hle : (i + 1) * (2 + sz) ≤ n * (2 + sz) := Nat.mul_le_mul_right (2 + sz) hi
    rw [Nat.succ_mul] at hle
    have hlen : objsLen n false sz = n * (2 + sz) := if_neg Bool.false_ne_true
    have haddr : m'.u16 (12 + i * (2 + sz)) = m.u16 (12 + i * (2 + sz)) := by
      rw [Mem.u16, Mem.u16, h _ (by omega), Nat.add_assoc, h (i * (2 + sz) + 1) (by omega)]
    have helem : m'.slice (14 + i * (2 + sz)) sz = m.slice (14 + i * (2 + sz)) sz := Mem.slice_congr fun j hj => by
      rw [show 14 + i * (2 + sz) + j = 12 + (2 + i * (2 + sz) + j) by omega]
      exact h _ (by omega)
    rw [Fld.obj, Fld.obj, if_neg Bool.false_ne_true, if_neg Bool.false_ne_true, haddr, helem]

/-- The octets of a confirmation that is right, but for the cause. -/
theorem octetsMem_ack (m : Mem) (l : UInt8) (reason n : Nat) {j : Nat} (hj : j < n) (h2 : j ≠ 2) :
    octetsMem (octets68 l (ackBody c reason (m.slice 7 n))) (7 + j) = m (7 + j) := by
  have hbody : 3 + j < (ackBody c reason (m.slice 7 n)).length := by
    rw [ackBody, List.length_cons, List.length_append, length_withCause, Mem.length_slice, length_leU16]
    omega
  have hlt : 4 + (3 + j) < (octets68 l (ackBody c reason (m.slice 7 n))).length := by
    rw [length_octets68]
    omega
  have hget : (ackBody c reason (m.slice 7 n))[3 + j] = m (7 + j) := by
    rw [← Mem.getElem_slice m 7 n j (by rwa [Mem.length_slice])]
    simp only [ackBody, ← List.cons_append]
    rw [List.getElem_append_right (by rw [List.length_cons, length_leU16]; omega)]
    simp only [List.length_cons, length_leU16, Nat.add_sub_cancel_left, withCause]
    rw [List.getElem_modify, if_neg (Ne.symm h2)]
  rw [octetsMem, show 7 + j = 4 + (3 + j) by omega, Mem.fill_of_lt hlt, getElem_octets68 hbody, hget]
  congr 1
  omega

/-- **A master reads the objects** of a select out of its whole ASDU. -/
theorem decodes_ack (h : Select m len type fmt) (l : UInt8) (reason : Nat) :
    Fld.type (octetsMem (octets68 l (ackBody c reason (m.slice 7 (len - 9))))) = Fld.type m ∧
      cmdObjs (octetsMem (octets68 l (ackBody c reason (m.slice 7 (len - 9))))) fmt = cmdObjs m fmt := by
  have hobjs := h.objs
  have hoct {j : Nat} (hj : j < len - 9) (h2 : j ≠ 2) := octetsMem_ack c m l reason (len - 9) hj h2
  have h8 : octetsMem (octets68 l (ackBody c reason (m.slice 7 (len - 9)))) 8 = m 8 :=
    hoct (j := 1) (by omega) (by decide)
  refine ⟨hoct (j := 0) (by omega) (by decide), ?_⟩
  rw [cmdObjs, cmdObjs, Fld.num, Fld.sq, h8]
  refine objs_congr fun i hi => ?_
  have hlt : 5 + i < len - 9 := by
    rw [Fld.num, Fld.sq] at hobjs
    omega
  have hi := hoct hlt (by omega)
  rwa [show 7 + (5 + i) = 12 + i by omega] at hi

/-! ### Which selects are confirmed whole -/

/-- The elements of remote control are one octet long, those of set-points three or five. -/
theorem Select.size (h : Select m len type fmt) :
    (ykFmt type).isSome = true ∧ fmt.size = 1 ∨ (ykFmt type).isSome = false ∧ 3 ≤ fmt.size := by
  have helem := h.elements
  cases type with
  | cScNa1 | cDcNa1 =>
    obtain rfl := Option.some_inj.mp helem
    exact Or.inl ⟨rfl, rfl⟩
  | cSeNa1 | cSeNc1 =>
    obtain rfl := Option.some_inj.mp helem
    exact Or.inr ⟨rfl, by decide⟩
  | _ => cases helem

/-- The length of the builder is right for elements of one octet behind one address. -/
theorem length_eq_iff (h : Select m len type fmt) : len = variableLen + Fld.num m ↔
    (ykFmt type).isSome = true ∧ (Fld.sq m = true ∨ Fld.num m = 1) := by
  have hpos := h.num_pos
  have hlen : objsLen (Fld.num m) (Fld.sq m) fmt.size =
      if Fld.sq m then 2 + Fld.num m * fmt.size else Fld.num m * (2 + fmt.size) := rfl
  rw [h.objs, hlen, variableLen]
  obtain ⟨hyk, hsize⟩ | ⟨hyk, hsize⟩ := h.size
  · rw [hsize]
    cases Fld.sq m with
    | true => exact iff_of_true (by rw [if_pos rfl]; omega) ⟨hyk, Or.inl rfl⟩
    | false =>
      rw [if_neg Bool.false_ne_true]
      refine ⟨fun heq => ⟨hyk, Or.inr (by omega)⟩, ?_⟩
      rintro ⟨-, hsq | hnum⟩
      · cases hsq
      · omega
  · have hmul : Fld.num m * 3 ≤ Fld.num m * fmt.size := Nat.mul_le_mul_left _ hsize
    refine iff_of_false (fun heq => ?_) fun hcond => ?_
    · rw [Nat.mul_add] at heq
      split at heq <;> omega
    · rw [hyk] at hcond
      cases hcond.1

/-- **The requirement is met** when the length is right, and not otherwise. -/
theorem echoes_iff (h : Select m len type fmt) (s : Core) (reason : Nat) :
    Echoes c reason m len fmt (buildAck c type ((on68 c s len).run m).1 reason) ↔ len = variableLen + Fld.num m := by
  have hlen := h.len_eq
  have hlt := (m 1).toNat_lt
  have hobjs := h.objs
  have hasdu : (m.slice 7 (len - 9)).length = len - 9 := Mem.length_slice _ _ _
  have hnum : ((m.slice 7 (len - 9)).getD 1 0).toNat % 128 = Fld.num m := by
    rw [List.getD_eq_getElem?_getD, List.getElem?_eq_getElem (by omega), Mem.getElem_slice]
    rfl
  have hbody : (ackBody c reason (m.slice 7 (len - 9))).length = len - 6 := by
    rw [ackBody, List.length_cons, List.length_append, length_withCause, hasdu, length_leU16]
    omega
  have hl : (UInt8.ofNat (len - 6)).toNat = len - 6 := Nat.mod_eq_of_lt (show len - 6 < 256 by omega)
  rw [buildAck_on68 c h]
  constructor
  · rintro ⟨f, hf, hwire, -⟩
    obtain ⟨n, hn, hsent⟩ : ∃ n, n = Fld.num m ∧ f.wire.length = (UInt8.ofNat (variableLen + n)).toNat := by
      obtain rfl := (Act.send.inj (List.cons.inj hf).1).1
      refine ⟨_, ?_, length_wire_mk68 _ _ _ _⟩
      rw [← hnum, List.getD_eq_getElem?_getD, List.getElem?_append_left (by omega), List.getD_eq_getElem?_getD]
    have hmod : (UInt8.ofNat (variableLen + n)).toNat = variableLen + n := by
      have hlt128 : Fld.num m < 128 := Nat.mod_lt _ (by decide)
      exact Nat.mod_eq_of_lt (show 16 + n < 256 by omega)
    rw [hwire, length_octets68, hbody, hmod, hn] at hsent
    omega
  · intro heq
    have hfit : variableLen + Fld.num m ≤ 255 := by
      have hlt128 : Fld.num m < 128 := Nat.mod_lt _ (by decide)
      exact show 16 + Fld.num m ≤ 255 by omega
    have hlenOf : lenOf (m.slice 7 (len - 9)) = variableLen + ((m.slice 7 (len - 9)).getD 1 0).toNat % 128 := by
      rw [lenOf, hasdu, hnum, ← heq]
      omega
    obtain ⟨f, hf, hwire⟩ := wire_ack c reason [m (len - 2)] (by omega) (by rw [hlenOf, hnum]; exact hfit) hlenOf
    have hl6 : (m.slice 7 (len - 9)).length + 3 = len - 6 := by omega
    rw [hl6] at hwire
    refine ⟨f, hf, hwire, hbody.trans hl.symm, ?_⟩
    rw [hwire]
    exact decodes_ack c h _ reason

/-- **The confirmation and the termination repeat the whole command** when it is one of remote control, with one
information address or one object, and only then. -/
theorem confirmation_iff (h : Select m len type fmt) (s : Core) :
    (∀ reason ∈ [Cot.actcon, Cot.actterm],
        Echoes c reason m len fmt (buildAck c type ((on68 c s len).run m).1 reason)) ↔
      (ykFmt type).isSome = true ∧ (Fld.sq m = true ∨ Fld.num m = 1) := by
  rw [← length_eq_iff h]
  constructor
  · intro hall
    exact (echoes_iff c h s Cot.actcon).mp (hall _ List.mem_cons_self)
  · intro heq reason _
    exact (echoes_iff c h s reason).mpr heq

end Saved

/-- A select for the objects, from a master to the sample slave. -/
def sampleSelect (type vsq : UInt8) (objs : List UInt8) : List UInt8 :=
  octets68 (UInt8.ofNat (8 + objs.length)) ([0x53, 1, 0, type, vsq, 6, 1, 0] ++ objs)

/-- The select of two single commands behind one address. -/
def sampleSwitches : Mem := octetsMem (sampleSelect 0x2D 0x82 [1, 0x60, 0x81, 0x80])

def sampleFmt : CmdFmt := ⟨.yk, .sint8, 1, fun e => [e.getD 0 0 &&& 0x01]⟩

theorem confirmation_demo :
    Echoes sampleConf Cot.actcon sampleSwitches 18 sampleFmt
      (buildAck sampleConf .cScNa1 ((on68 sampleConf .fresh 18).run sampleSwitches).1 Cot.actcon) ∧
    Echoes sampleConf Cot.actterm sampleSwitches 18 sampleFmt
      (buildAck sampleConf .cScNa1 ((on68 sampleConf .fresh 18).run sampleSwitches).1 Cot.actterm) := by
  have hsel : Select sampleSwitches 18 .cScNa1 sampleFmt :=
    ⟨by decide, by decide, by decide, rfl, by decide, by decide, ⟨_, rfl, by decide⟩⟩
  have hboth := (confirmation_iff sampleConf hsel .fresh).mpr ⟨rfl, Or.inl (by decide)⟩
  exact ⟨hboth _ (List.mem_cons_self ..), hboth _ (List.mem_cons_of_mem _ (List.mem_cons_self ..))⟩

/-- The select of one normalised set-point is confirmed without its last two octets. -/
theorem not_confirmation : ∃ fmt s, Select (octetsMem (sampleSelect 0x30 1 [1, 0x62, 0x34, 0x12, 0x80])) 19 .cSeNa1 fmt ∧
    s = ((on68 sampleConf .fresh 19).run (octetsMem (sampleSelect 0x30 1 [1, 0x62, 0x34, 0x12, 0x80]))).1 ∧
    (∃ f, buildAck sampleConf .cSeNa1 s Cot.actcon = [send f] ∧ f.wire.length = 17) ∧
    ¬ Echoes sampleConf Cot.actcon (octetsMem (sampleSelect 0x30 1 [1, 0x62, 0x34, 0x12, 0x80])) 19 fmt
      (buildAck sampleConf .cSeNa1 s Cot.actcon) := by
  have hsel : Select (octetsMem (sampleSelect 0x30 1 [1, 0x62, 0x34, 0x12, 0x80])) 19 .cSeNa1
      ((Iec104.ytFmt .cSeNa1).getD ⟨.yk, .sint8, 1, id⟩) :=
    ⟨by decide, by decide, by decide, rfl, by decide, by decide, ⟨_, List.mem_cons_self, by decide⟩⟩
  refine ⟨_, _, hsel, rfl, ?_, ?_⟩
  · rw [buildAck_on68 sampleConf hsel]
    exact ⟨_, rfl, length_wire_mk68 _ _ _ _⟩
  · rw [echoes_iff sampleConf hsel]
    decide

end Wow.Iec101.Slave
