import Wow.Iec10x.Pending
import Wow.Iec104.Contracts

/-!
# Wow.Iec104.Pending — what the master executes, and who asked for it

The master keeps no record of its commands: an execute is made of the confirmation just received.  So what it
executes is its own as long as the confirmations name what it waits for.

* `own_execute`: the execute made of a confirmation that names a waiting request is for this request.
* `quiet_asduParse`: every other frame makes the master send nothing that operates equipment.
* `own_run`: a run whose frames are `Confirmed` executes nothing but its own requests.
-/

namespace Wow.Iec104

open Iec10x

/-! ### Frames -/

/-- An I-frame of commands, as its octets say. -/
def cmdFrame (w : List UInt8) : Option CmdFrame :=
  (AsduType.ofCode (octetsMem w 6)).bind fun t => (cmdFmt t).map fun fmt =>
    ⟨t, Fld.num (octetsMem w) 0, Fld.reason (octetsMem w) 0,
      objsAt (octetsMem w) 12 3 fmt.size (Fld.num (octetsMem w) 0) (Fld.sq (octetsMem w) 0) (w.length - 12)⟩

section Frames

variable {w : List UInt8} {t : AsduType} {fmt : CmdFmt}

theorem cmdFrame_of_type (ht : AsduType.ofCode (octetsMem w 6) = some t) (hf : cmdFmt t = some fmt) :
    cmdFrame w = some ⟨t, Fld.num (octetsMem w) 0, Fld.reason (octetsMem w) 0,
      objsAt (octetsMem w) 12 3 fmt.size (Fld.num (octetsMem w) 0) (Fld.sq (octetsMem w) 0) (w.length - 12)⟩ := by
  rw [cmdFrame, ht, Option.bind_some, hf]
  rfl

/-- The type of a frame of commands, and its objects. -/
theorem of_mem_cmdFrame {v : CmdFrame} (hv : v ∈ cmdFrame w) :
    ∃ t fmt, AsduType.ofCode (octetsMem w 6) = some t ∧ cmdFmt t = some fmt ∧ v.objs =
      objsAt (octetsMem w) 12 3 fmt.size (Fld.num (octetsMem w) 0) (Fld.sq (octetsMem w) 0) (w.length - 12) := by
  obtain ⟨t, ht, hv⟩ := Option.bind_eq_some_iff.mp hv
  obtain ⟨fmt, hf, rfl⟩ := Option.map_eq_some_iff.mp hv
  exact ⟨t, fmt, ht, hf, rfl⟩

/-- A frame that ends with its head holds no object. -/
theorem objs_of_short (hw : w.length ≤ 12) : ∀ v ∈ cmdFrame w, v.objs = [] := by
  intro v hv
  obtain ⟨t, fmt, -, hf, ho⟩ := of_mem_cmdFrame hv
  rw [ho, objsAt, wholeObjs_of_lt (cmdFmt_size_pos hf) (by omega), List.range_zero, List.map_nil]

end Frames

/-- The object of a set-point: `k` octets behind the address, and the select. -/
theorem setPoint_shape (addr : List UInt8) (v : DevNodeVal) {k : Nat} (hk : k ≤ 8) :
    (addr ++ v.octets k ++ [0x80]).length = addr.length + (k + 1) ∧
      selected ((addr ++ v.octets k ++ [0x80]).drop addr.length) = true := by
  rw [List.append_assoc]
  refine ⟨?_, ?_⟩
  · rw [List.length_append, List.length_append, DevNodeVal.length_octets, Nat.min_eq_left hk]
    rfl
  · rw [List.drop_left, selected, List.getLastD_concat]
    decide

variable {g : Waiting}

/-- A frame without objects executes nothing. -/
theorem own_of_objs {f : SendBuf} {up : Bool} (h : ∀ v ∈ cmdFrame f.wire, v.objs = []) :
    Own cmdFrame g (.send f up) := by
  intro v hv hex
  obtain ⟨o, ho, -⟩ := hex
  rw [h v hv] at ho
  cases ho

/-! ### Frames that operate nothing -/

section Sent

variable (sn : Sn) (h : AsduHead) (info : List UInt8) (up : Bool)

theorem own_ctrl {ctrl : List UInt8} (hc : ctrl.length = 4) : Own cmdFrame g (.send (mkFrame ctrl []) up) := by
  refine own_of_objs (objs_of_short (Nat.le_trans (List.length_take_le' _ _) ?_))
  simp [mkFrame, hc]

section Head

variable {sn : Sn} {h : AsduHead} {info : List UInt8} (hlen : 12 ≤ (mkI sn h info).wire.length)
include hlen

/-- The head of what goes out. -/
theorem octetsMem_wire {i : Nat} (hi : i < 12) :
    octetsMem (mkI sn h info).wire i = inBuf (fun _ => 0) sn h info i := fill_wire_lt _ sn h info (by omega)

theorem type_wire : octetsMem (mkI sn h info).wire 6 = h.type := octetsMem_wire hlen (by decide)

theorem num_wire : Fld.num (octetsMem (mkI sn h info).wire) 0 = h.num % 128 := by
  rw [← num_inBuf (fun _ => 0) sn h info, Fld.num, octetsMem_wire hlen (by decide), Fld.num]

theorem sq_wire : Fld.sq (octetsMem (mkI sn h info).wire) 0 = h.sq := by
  rw [← sq_inBuf (fun _ => 0) sn h info, Fld.sq, octetsMem_wire hlen (by decide), Fld.sq]

/-- What goes out behind the head. -/
theorem slice_wire : (octetsMem (mkI sn h info).wire).slice 12 ((mkI sn h info).wire.length - 12) =
    info.take ((mkI sn h info).wire.length - 12) := by
  have hle : (mkI sn h info).wire.length - 12 ≤ info.length := by
    rw [SendBuf.wire, List.length_take, length_mkI]
    omega
  rw [octetsMem, Mem.slice_fill (by omega)]
  apply List.ext_getElem
  · simp only [List.length_take, List.length_drop]
    omega
  · intro i h1 h2
    have hbuf : (mkI sn h info).buf[12 + i]? = info[i]? := by
      rw [mkI_buf, List.getElem?_append_right (by rw [length_mkHead]; omega), length_mkHead, Nat.add_sub_cancel_left]
    have hi : i < (mkI sn h info).wire.length - 12 := by
      rw [List.length_take] at h2
      omega
    have hi' : 12 + i < (mkI sn h info).len := by
      rw [SendBuf.wire, List.length_take] at hi
      omega
    apply Option.some.inj
    rw [← List.getElem?_eq_getElem h1, ← List.getElem?_eq_getElem h2, List.getElem?_take_of_lt hi,
      List.getElem?_take_of_lt hi, List.getElem?_drop, SendBuf.wire, List.getElem?_take_of_lt hi', hbuf]

end Head

/-- **A frame that fits**, as its octets say. -/
theorem cmdFrame_mkI {t : AsduType} {fmt : CmdFmt} (ht : AsduType.ofCode h.type = some t) (hf : cmdFmt t = some fmt)
    (hfit : 12 + info.length ≤ 255) : cmdFrame (mkI sn h info).wire = some ⟨t, h.num % 128, h.reason % 16384,
      objsAt (infoMem info) 12 3 fmt.size (h.num % 128) h.sq info.length⟩ := by
  have hwire := length_wire_mkI sn h hfit
  have hlen : 12 ≤ (mkI sn h info).wire.length := by omega
  have hreason := reason_inBuf (fun _ => 0) sn h info
  rw [Fld.reason, ← octetsMem_wire hlen (by decide), ← octetsMem_wire hlen (by decide)] at hreason
  have hslice := slice_wire hlen
  rw [hwire, Nat.add_sub_cancel_left, List.take_length] at hslice
  have hobjs : ∀ j < info.length, octetsMem (mkI sn h info).wire (12 + j) = infoMem info (12 + j) := by
    intro j hj
    have hget := List.getElem_of_eq (hslice.trans (slice_infoMem info).symm) (by rw [Mem.length_slice]; exact hj)
    rwa [Mem.getElem_slice, Mem.getElem_slice] at hget
  rw [cmdFrame_of_type (by rw [type_wire hlen]; exact ht) hf, num_wire hlen, sq_wire hlen, hwire,
    Nat.add_sub_cancel_left, objsAt_congr hobjs, Fld.reason, hreason]

/-- A frame of another type. -/
theorem own_other (ht : ∀ t, AsduType.ofCode h.type = some t → cmdFmt t = none) :
    Own cmdFrame g (.send (mkI sn h info) up) := by
  refine own_of_objs fun v hv => ?_
  by_cases hlen : 12 ≤ (mkI sn h info).wire.length
  · obtain ⟨t, fmt, ht', hf, -⟩ := of_mem_cmdFrame hv
    rw [type_wire hlen] at ht'
    rw [ht t ht'] at hf
    cases hf
  · exact objs_of_short (Nat.le_of_not_le hlen) v hv

/-- **A select frame** executes nothing, also when it is cut. -/
theorem own_select {type : AsduType} {fmt : CmdFmt} {nodes : List DevNodeCtrl} {f : DevNodeCtrl → List UInt8}
    {cot : Nat} {addr : UInt16} (hfmt : cmdFmt type = some fmt) (hf : ∀ x ∈ nodes, (f x).length = 3 + fmt.size)
    (hsel : ∀ x ∈ nodes, selected ((f x).drop 3) = true) :
    Own cmdFrame g (.send (mkI sn ⟨type.code, false, nodes.length, cot, addr⟩ (nodes.flatMap f)) up) := by
  by_cases hlen : 12 ≤ (mkI sn ⟨type.code, false, nodes.length, cot, addr⟩ (nodes.flatMap f)).wire.length
  swap
  · exact own_of_objs (objs_of_short (Nat.le_of_not_le hlen))
  intro v hv hex
  obtain ⟨o, ho, hoff⟩ := hex
  obtain ⟨t, fmt', ht, hf', hobjs⟩ := of_mem_cmdFrame hv
  have hnum := num_wire hlen
  have hsq := sq_wire hlen
  have hslice := slice_wire hlen
  rw [type_wire hlen, AsduType.ofCode_code] at ht
  obtain rfl : type = t := Option.some.inj ht
  obtain rfl : fmt = fmt' := Option.some.inj (hfmt.symm.trans hf')
  rw [hobjs, hnum, hsq] at ho
  obtain ⟨i, hi, rfl⟩ := List.mem_map.mp ho
  have hi := List.mem_range.mp hi
  have hlt : i < nodes.length :=
    Nat.lt_of_lt_of_le hi (Nat.le_trans (Nat.min_le_left _ _) (Nat.mod_le nodes.length 128))
  have hend := Nat.le_trans (extent_mono hi) (extent_wholeObjs (Nat.lt_of_le_of_lt (Nat.zero_le i) hi))
  have hselected := selected_objAt hf hsel hslice hlt hend
  rw [hselected] at hoff
  cases hoff

end Sent

/-! ### The requirement on the frames received -/

/-- The last frame taken in, and what waits for its report. -/
structure Watch where
  frame : List UInt8
  waiting : Waiting

def Watch.next (g : Watch) : Act → Watch
  | .rx w => { g with frame := w }
  | a => { g with waiting := g.waiting.next a }

/-- A frame that holds its head and, if it is a confirmation that the master answers by an execute, names a request
that waits.  The confirmation of remote control with a first element of zero is the one it does not answer. -/
def Confirmed (g : Waiting) (w : List UInt8) : Prop :=
  12 ≤ w.length ∧ ∀ v ∈ cmdFrame w, v.cause = Cot.actcon → ¬ ((ykFmt v.type).isSome = true ∧ w[15]? = some 0) →
    v.num = 0 ∨ ∃ r ∈ g, v.Names r

instance (g : Waiting) (w : List UInt8) : Decidable (Confirmed g w) :=
  inferInstanceAs (Decidable (_ ∧ ∀ v ∈ cmdFrame w, _ → _ → _ ∨ ∃ r ∈ g, v.Names r))

/-- The frames a master takes for numbered ones of its own are `Confirmed`. -/
def Echo (g : Watch) : Act → Prop
  | .checked _ _ _ true => Confirmed g.waiting g.frame
  | _ => True

instance (g : Watch) : ∀ a, Decidable (Echo g a)
  | .checked _ _ _ true => inferInstanceAs (Decidable (Confirmed g.waiting g.frame))
  | .checked _ _ _ false | .rx _ | .conn | .lost | .reset | .req .. | .send .. | .serv _ | .setVal .. | .setTime _
  | .close => inferInstanceAs (Decidable True)

namespace Master

/-! ### The execute -/

section Execute

variable (c : Conf) {p : Nat} {m : Mem}

/-- The select octets of the receive buffer are cleared, those of the announced objects. -/
theorem clearSelect_octet {n sz j : Nat} {sq : Bool} (hsz : 0 < sz) (hj : j < extent 3 sz n sq) :
    (clearSelect p n sq sz).mem m (p + 12 + j) =
      if isSelect 3 sz sq j then m (p + 12 + j) &&& 0x7F else m (p + 12 + j) := by
  have hat : ∀ i, selectAt p sq sz i = p + 12 + (3 + i * (if sq then sz else 3 + sz) + (sz - 1)) := fun i => by
    rw [selectAt]
    omega
  by_cases hsel : isSelect 3 sz sq j = true
  · obtain ⟨i, hi, rfl⟩ := (isSelect_iff hsz hj).mp hsel
    rw [if_pos hsel, ← hat]
    exact clearSelect_at p m hi
  · rw [if_neg hsel]
    refine clearSelect_of_ne p m fun i hi h => hsel ((isSelect_iff hsz hj).mpr ⟨i, hi, ?_⟩)
    rw [hat] at h
    omega

/-- The octets of an execute. -/
theorem infoMem_execInfo {n sz j : Nat} {sq : Bool} (hsz : 0 < sz) (hj : j < extent 3 sz n sq) :
    infoMem (execInfo p m n sq sz) (12 + j) =
      if isSelect 3 sz sq j then m (p + 12 + j) &&& 0x7F else m (p + 12 + j) := by
  have hlen : j < (execInfo p m n sq sz).length := by
    rw [execInfo, Mem.length_slice]
    exact hj
  rw [infoMem, Nat.add_sub_cancel_left, List.getD_eq_getElem?_getD, List.getElem?_eq_getElem hlen, Option.getD_some,
    ← clearSelect_octet hsz hj]
  exact Mem.getElem_slice _ _ _ _ _

variable {w : List UInt8} {t : AsduType} {fmt : CmdFmt} (hw : ∀ i < w.length, octetsMem w i = m (p + i))
  (hlen : 12 ≤ w.length) (ht : AsduType.ofCode (m (p + 6)) = some t) (hf : cmdFmt t = some fmt)
include hw hlen ht hf

/-- A frame in the buffer, as its octets say. -/
theorem cmdFrame_taken : cmdFrame w = some ⟨t, Fld.num m p, Fld.reason m p,
    objsAt m (p + 12) 3 fmt.size (Fld.num m p) (Fld.sq m p) (w.length - 12)⟩ := by
  have hnum : Fld.num (octetsMem w) 0 = Fld.num m p := by rw [Fld.num, hw _ (by omega), Fld.num, Nat.zero_add]
  have hsq : Fld.sq (octetsMem w) 0 = Fld.sq m p := by rw [Fld.sq, hw _ (by omega), Fld.sq, Nat.zero_add]
  have hreason : Fld.reason (octetsMem w) 0 = Fld.reason m p := by
    rw [Fld.reason, hw _ (by omega), hw _ (by omega), Fld.reason, Nat.zero_add, Nat.zero_add]
  have hobjs : ∀ j < w.length - 12, octetsMem w (12 + j) = m (p + 12 + j) := fun j hj => by
    rw [hw _ (by omega), Nat.add_assoc]
  rw [cmdFrame_of_type (by rw [hw 6 (by omega)]; exact ht) hf, hnum, hsq, hreason, objsAt_congr hobjs]

/-- **The execute** made of a frame that names a waiting request, or announces nothing. -/
theorem own_execute {g : Waiting} {v : CmdFrame} (hmax : w.length ≤ 257) (hv : cmdFrame w = some v)
    (hnames : v.num = 0 ∨ ∃ r ∈ g, v.Names r) (s : Core) : ∀ a ∈ (execute c p m fmt s).2, Own cmdFrame g a := by
  intro a ha
  obtain rfl := List.mem_singleton.mp ha
  rw [cmdFrame_taken hw hlen ht hf] at hv
  obtain rfl := Option.some.inj hv
  have hsz := cmdFmt_size_pos hf
  have hilen : (execInfo p m (Fld.num m p) (Fld.sq m p) fmt.size).length =
      extent 3 fmt.size (Fld.num m p) (Fld.sq m p) := by
    rw [execInfo, Mem.length_slice]
    rfl
  have hmod : Fld.num m p % 128 = Fld.num m p := Nat.mod_eq_of_lt (Nat.mod_lt _ (by decide))
  have hsent := @cmdFrame_mkI s.sn ⟨m (p + 6), Fld.sq m p, Fld.num m p, Cot.act, c.asduAddr⟩
    (execInfo p m (Fld.num m p) (Fld.sq m p) fmt.size) t fmt ht hf
  have hwire := length_wire s.sn ⟨m (p + 6), Fld.sq m p, Fld.num m p, Cot.act, c.asduAddr⟩
    (execInfo p m (Fld.num m p) (Fld.sq m p) fmt.size)
  dsimp only at hsent
  rw [hmod] at hsent
  rcases Nat.eq_zero_or_pos (Fld.num m p) with hzero | hpos
  · have hext : extent 3 fmt.size (Fld.num m p) (Fld.sq m p) ≤ 3 := by
      rw [hzero]
      cases Fld.sq m p <;> simp [extent]
    refine own_of_objs fun x hx => ?_
    rw [hsent (by omega)] at hx
    obtain rfl := Option.some.inj hx
    dsimp only
    rw [hzero, objsAt_zero]
  obtain ⟨r, hr, hrv⟩ := hnames.resolve_left (Nat.ne_of_gt hpos)
  have hext : extent 3 fmt.size (Fld.num m p) (Fld.sq m p) ≤ w.length - 12 := extent_le_of_length hrv.whole hpos
  -- the announced objects lie in a frame of 257 octets, so the length of the execute wraps to nothing or not at all
  by_cases hfit : 12 + (execInfo p m (Fld.num m p) (Fld.sq m p) fmt.size).length ≤ 255
  · have hobjs : objsAt (infoMem (execInfo p m (Fld.num m p) (Fld.sq m p) fmt.size)) 12 3 fmt.size (Fld.num m p)
        (Fld.sq m p) (execInfo p m (Fld.num m p) (Fld.sq m p) fmt.size).length =
        (objsAt m (p + 12) 3 fmt.size (Fld.num m p) (Fld.sq m p) (w.length - 12)).map unselectObj :=
      objsAt_unselected hsz (fun j hj => infoMem_execInfo hsz hj) hext (Nat.le_of_eq hilen.symm)
    intro x hx _
    rw [hsent hfit, hobjs] at hx
    obtain rfl := Option.some.inj hx
    exact ⟨r, hr, hrv.unselected _⟩
  · exact own_of_objs (objs_of_short (by omega))

end Execute

/-! ### Everything else -/

/-- An action that operates nothing, whatever waits, and is no frame taken in. -/
def Quiet (a : Act) : Prop := (∀ g, Own cmdFrame g a) ∧ ∀ w, a ≠ .rx w

theorem quiet_sendI {sn : Sn} {h : AsduHead} {info : List UInt8} {up : Bool}
    (ht : ∀ t, AsduType.ofCode h.type = some t → cmdFmt t = none) : Quiet (.send (mkI sn h info) up) :=
  ⟨fun _ => own_other sn h info up ht, fun _ h => by cases h⟩

/-- The calls beyond the two commands and their executes. -/
theorem kept_quiet : Kept (Contract.always Quiet : Contract Core Unit Act) where
  toLinkKept := linkKept_always (fun ctrl up h => ⟨fun _ => own_ctrl up h, fun _ h => by cases h⟩)
    (fun x => ⟨fun _ => trivial, fun _ h => by cases h⟩) ⟨fun _ => trivial, fun _ h => by cases h⟩
  setInit x := Contract.keeps_always.mpr fun s a ha => by cases ha
  reset := Contract.keeps_always.mpr fun s a ha => by
    obtain rfl := List.mem_singleton.mp ha
    exact ⟨fun _ => trivial, fun _ h => by cases h⟩
  linkOpen b := Contract.keeps_always.mpr fun s a ha => by
    cases b with
    | false => cases ha
    | true =>
      obtain rfl := List.mem_singleton.mp ha
      exact ⟨fun _ => trivial, fun _ h => by cases h⟩
  val acts hacts := Contract.keeps_always.mpr fun s a ha => by
    obtain ⟨n, v, rfl⟩ := hacts a ha
    exact ⟨fun _ => trivial, fun _ h => by cases h⟩

variable (c : Conf)

theorem quiet_serv (cb : Bool) (x : Service) (s : Core) : ∀ a ∈ (serv cb x s).2, Quiet a :=
  Contract.keeps_always.mp (kept_quiet.serv cb x) s

/-- **A frame that is no confirmation of a select** makes the master operate nothing. -/
theorem quiet_asduParse {m : Mem} {p : Nat} (hno : ∀ t fmt, AsduType.ofCode (m (p + 6)) = some t → cmdFmt t = some fmt →
    Fld.reason m p = Cot.actcon → doneCon p m t = true) (s : Core) :
    ∀ a ∈ ((asduParse c s p).run m).2, Quiet a := by
  have hskip : ∀ s, ∀ a ∈ (skipI s).2, Quiet a := fun s a ha => by cases ha
  have hyk : (Contract.always Quiet).Keeps fun s => (asduYk c s p).run m := by
    refine Contract.keeps_always.mpr fun s => ?_
    by_cases hr : Fld.reason m p = Cot.actcon
    · by_cases hz : m (p + 15) = 0
      · simp only [asduYk, Rd.run_bind, Rd.mem_octet, Rd.run_octet, mem_rdReason, run_rdReason, hr, hz, if_true, ne_eq,
          not_true_eq_false, if_false, Rd.run_pure]
        exact quiet_serv _ _ s
      · simp only [asduYk, Rd.run_bind, Rd.mem_octet, Rd.run_octet, mem_rdReason, run_rdReason, hr, hz, if_true, ne_eq,
          not_false_eq_true, buildYkAck, run_buildCmdAck]
        split
        · exact hskip s
        · rename_i fmt hfmt
          obtain ⟨t, ht, hf⟩ := Option.bind_eq_some_iff.mp hfmt
          have hdone := hno t fmt ht (by rw [cmdFmt, hf]; rfl) hr
          rw [doneCon, Bool.and_eq_true, beq_iff_eq] at hdone
          exact absurd hdone.2 hz
    · simp only [asduYk, Rd.run_bind, Rd.mem_octet, Rd.run_octet, mem_rdReason, run_rdReason, hr, if_false, Rd.run_pure]
      exact quiet_serv _ _ s
  have hyt : (Contract.always Quiet).Keeps fun s => (asduYt c s p).run m := by
    refine Contract.keeps_always.mpr fun s => ?_
    by_cases hr : Fld.reason m p = Cot.actcon
    · simp only [asduYt, Rd.run_bind, mem_rdReason, run_rdReason, hr, if_true, buildYtAck, run_buildCmdAck]
      split
      · exact hskip s
      · rename_i fmt hfmt
        obtain ⟨t, ht, hf⟩ := Option.bind_eq_some_iff.mp hfmt
        have hyk : ykFmt t = none := by cases t <;> first | rfl | cases hf
        have hdone := hno t fmt ht (by rw [cmdFmt, hyk, hf]; rfl) hr
        rw [doneCon, hyk] at hdone
        cases hdone
    · by_cases ht : Fld.reason m p = Cot.actterm
      · simp only [asduYt, Rd.run_bind, mem_rdReason, run_rdReason, ht, if_true, Rd.run_pure,
          show ¬ Cot.actterm = Cot.actcon by decide, if_false]
        exact quiet_serv _ _ s
      · simp only [asduYt, Rd.run_bind, mem_rdReason, run_rdReason, hr, ht, if_false, Rd.run_pure]
        exact quiet_serv _ _ s
  exact Contract.keeps_always.mp (keeps_asduParse kept_quiet hyk hyt) s

/-! ### Runs -/

/-- The contract: `Confirmed` frames, and executes for requests that wait; `I` says which frame is at hand. -/
def ownership (I : List UInt8 → Prop) : Contract Core Watch Act where
  next := Watch.next
  assume := Echo
  promise := fun g => Own cmdFrame g.waiting
  inv := fun _ g => I g.frame

theorem frame_foldl {tr : List Act} (h : ∀ a ∈ tr, ∀ w, a ≠ .rx w) (g : Watch) :
    (tr.foldl Watch.next g).frame = g.frame := by
  induction tr generalizing g with
  | nil => rfl
  | cons a tr ih =>
    rw [List.foldl_cons, ih (fun b hb => h b (List.mem_cons_of_mem a hb))]
    cases a with
    | rx w => exact absurd rfl (h _ List.mem_cons_self w)
    | _ => rfl

variable {I : List UInt8 → Prop}

theorem keeps_of_quiet {f : Cmd} (h : ∀ s, ∀ a ∈ (f s).2, Quiet a) : (ownership I).Keeps f := by
  intro s g hI _
  refine ⟨meets_of_forall g fun g' a ha => (h s a ha).1 g'.waiting, ?_⟩
  show I ((f s).2.foldl Watch.next g).frame
  rw [frame_foldl fun a ha => (h s a ha).2]
  exact hI

theorem kept_ownership : Kept (ownership I) where
  uAck t := keeps_of_quiet (Contract.keeps_always.mp (kept_quiet.uAck t))
  u t := keeps_of_quiet (Contract.keeps_always.mp (kept_quiet.u t))
  sAck := keeps_of_quiet (Contract.keeps_always.mp kept_quiet.sAck)
  serv cb x := keeps_of_quiet (quiet_serv cb x)
  setTest x := keeps_of_quiet (Contract.keeps_always.mp (kept_quiet.setTest x))
  time f := keeps_of_quiet (Contract.keeps_always.mp (kept_quiet.time f))
  close := keeps_of_quiet (Contract.keeps_always.mp kept_quiet.close)
  setDown x h h' := keeps_of_quiet (Contract.keeps_always.mp (kept_quiet.setDown x h h'))
  setInit x := keeps_of_quiet (Contract.keeps_always.mp (kept_quiet.setInit x))
  reset := keeps_of_quiet (Contract.keeps_always.mp kept_quiet.reset)
  linkOpen b := keeps_of_quiet (Contract.keeps_always.mp (kept_quiet.linkOpen b))
  val acts h := keeps_of_quiet (Contract.keeps_always.mp (kept_quiet.val acts h))

/-- **One I-frame**, the one at hand. -/
theorem keeps_frameIParse_own {m : Mem} {p : Nat} {w : List UInt8} (hw : ∀ i < w.length, octetsMem w i = m (p + i))
    (hmax : w.length ≤ 257) : (ownership (· = w)).Keeps fun s => (frameIParse c s p).run m := by
  intro s g hI hA
  simp only [run_frameIParse] at hA ⊢
  by_cases ha : c.asduAddr ≠ m.u16 (p + 10)
  · rw [if_pos ha] at hA ⊢
    exact ⟨⟨trivial, trivial⟩, hI⟩
  rw [if_neg ha] at hA ⊢
  by_cases hsn : snOk s (Fld.sendSn m p) (Fld.recvSn m p) = false
  · rw [if_pos hsn] at hA ⊢
    exact ⟨⟨trivial, trivial⟩, hI⟩
  rw [if_neg hsn] at hA ⊢
  obtain ⟨hlen, hconf⟩ : Confirmed g.waiting g.frame := hA.1
  obtain rfl : g.frame = w := hI
  generalize dealSn s (Fld.sendSn m p) (Fld.recvSn m p) = s' at hA ⊢
  have hparse : Meets Watch.next (fun g => Own cmdFrame g.waiting) g ((asduParse c s' p).run m).2 ∧
      (((asduParse c s' p).run m).2.foldl Watch.next g).frame = g.frame := by
    by_cases hex : ∃ t fmt, AsduType.ofCode (m (p + 6)) = some t ∧ cmdFmt t = some fmt ∧
        Fld.reason m p = Cot.actcon ∧ doneCon p m t ≠ true
    · obtain ⟨t, fmt, ht, hf, hr, hd⟩ := hex
      have hv := cmdFrame_taken hw hlen ht hf
      have hnot : ¬ ((ykFmt t).isSome = true ∧ g.frame[15]? = some 0) := by
        rintro ⟨hyk, hzero⟩
        obtain ⟨h15, hget⟩ := List.getElem?_eq_some_iff.mp hzero
        have hoct : octetsMem g.frame 15 = 0 := by rw [octetsMem, Mem.fill_of_lt h15, hget]
        rw [hw 15 h15] at hoct
        exact hd (by rw [doneCon, hyk, hoct]; rfl)
      have hown := own_execute c hw hlen ht hf hmax hv (hconf _ hv hr hnot) s'
      rw [run_asduParse_con c s' p m ht hf hr, if_neg hd]
      exact ⟨⟨hown _ List.mem_cons_self, trivial⟩, rfl⟩
    · refine (keeps_of_quiet (I := (· = g.frame)) fun s => quiet_asduParse c (fun t fmt ht hf hr => ?_) s) s' g rfl ?_
      · by_contra hd
        exact hex ⟨t, fmt, ht, hf, hr, hd⟩
      · exact hA.2
  exact ⟨⟨trivial, hparse.1⟩, hparse.2⟩

/-- The contract of the whole station. -/
def stationOwnership : Contract Station Watch Act := { ownership (fun _ => True) with inv := fun _ _ => True }

theorem keeps_call_own {f : Cmd} (hf : (ownership fun _ => True).Keeps f) :
    stationOwnership.Keeps fun t => t.call f :=
  fun t => hf t.core

/-- **A command** sends its select frame. -/
theorem quiet_buildCmd {type : AsduType} {fmt : CmdFmt} {nodes : List DevNodeCtrl} {f : DevNodeCtrl → List UInt8}
    (hfmt : cmdFmt type = some fmt) (hf : ∀ x ∈ nodes, (f x).length = 3 + fmt.size)
    (hsel : ∀ x ∈ nodes, selected ((f x).drop 3) = true) (s : Core) :
    ∀ a ∈ (buildCmd c type nodes (nodes.flatMap f) s).2, Quiet a := by
  intro a ha
  rcases List.mem_cons.mp ha with rfl | ha
  · exact ⟨fun _ => trivial, fun _ h => by cases h⟩
  · obtain rfl := List.mem_singleton.mp ha
    exact ⟨fun _ => own_select _ _ hfmt hf hsel, fun _ h => by cases h⟩

theorem quiet_buildYk (nodes : NodeArr) (s : Core) : ∀ a ∈ (buildYk c nodes s).2, Quiet a := by
  unfold buildYk
  split
  · exact fun a ha => by cases ha
  split
  · exact fun a ha => by cases ha
  · refine quiet_buildCmd c rfl (fun x _ => rfl) (fun x _ => ?_) s
    exact selected_or _

/-- The object of a set-point, with a value of `k` octets. -/
theorem ytObj_shape (first x : DevNodeCtrl) {k : Nat} (hk : k ≤ 8)
    (h : (if first.info.type = .float then 4 else 2) = k) :
    (ytObj first x).length = 3 + (k + 1) ∧ selected ((ytObj first x).drop 3) = true := by
  have hobj : ytObj first x = infoAddr x.info.addr.toNat ++ x.value.octets k ++ [0x80] := by
    rw [ytObj, h]
    rfl
  have hshape := setPoint_shape (infoAddr x.info.addr.toNat) x.value hk
  rwa [length_infoAddr, ← hobj] at hshape

theorem quiet_buildYt (nodes : NodeArr) (s : Core) : ∀ a ∈ (buildYt c nodes s).2, Quiet a := by
  unfold buildYt
  split
  · exact fun a ha => by cases ha
  split
  · exact fun a ha => by cases ha
  · rename_i first rest hnodes _
    by_cases hfloat : first.info.type = .float
    · have hshape := fun x => ytObj_shape first x (by decide : 4 ≤ 8) (if_pos hfloat)
      rw [ytType, if_pos hfloat]
      exact quiet_buildCmd c rfl (fun x _ => (hshape x).1) (fun x _ => (hshape x).2) s
    · have hshape := fun x => ytObj_shape first x (by decide : 2 ≤ 8) (if_neg hfloat)
      rw [ytType, if_neg hfloat]
      exact quiet_buildCmd c rfl (fun x _ => (hshape x).1) (fun x _ => (hshape x).2) s

theorem keeps_step_own (e : Event) : stationOwnership.Keeps fun t => step c t e := by
  cases e with
  | recv chunk now =>
    have hd : ∀ m p, takes m chunk.octets.length p → (ownership fun _ => True).Keeps fun s =>
        serve (frameDispatch c now) m chunk.octets.length s (p, lenAt m p) := by
      intro m p _ s g _ hA
      have hlen : (taken m chunk.octets.length p).length = min (lenAt m p) (chunk.octets.length - p) :=
        Mem.length_slice _ _ _
      have hw : ∀ i < (taken m chunk.octets.length p).length,
          octetsMem (taken m chunk.octets.length p) i = m (p + i) := fun i hi => by
        rw [octetsMem, Mem.fill_of_lt hi]
        exact Mem.getElem_slice _ _ _ _ _
      have hmax : (taken m chunk.octets.length p).length ≤ 257 := by
        have := (m (p + 1)).toNat_lt
        rw [hlen, lenAt]
        omega
      have hone := keeps_frameDispatch kept_ownership (keeps_frameIParse_own c hw hmax) now (lenAt m p) s
        { g with frame := taken m chunk.octets.length p } rfl hA.2
      exact ⟨⟨trivial, hone.1⟩, trivial⟩
    exact fun t => keeps_frameParse _ (Nat.lt_of_le_of_lt chunk.le (by decide)) hd _ t.core
  | machine now now' opened => exact keeps_call_own (keeps_stateMachine kept_ownership now now' opened)
  | lost => exact keeps_call_own (keeps_of_quiet fun s a ha => by
      obtain rfl := List.mem_singleton.mp ha
      exact ⟨fun _ => trivial, fun _ h => by cases h⟩)
  | callAll | callPulse =>
    refine keeps_call_own (Contract.keeps_ite Contract.keeps_skip (keeps_of_quiet fun s a ha => ?_))
    obtain rfl := List.mem_singleton.mp ha
    refine quiet_sendI fun t ht => ?_
    dsimp only at ht
    rw [AsduType.ofCode_code] at ht
    obtain rfl := Option.some.inj ht
    rfl
  | yk nodes => exact keeps_call_own (keeps_of_quiet (quiet_buildYk c nodes))
  | yt nodes => exact keeps_call_own (keeps_of_quiet (quiet_buildYt c nodes))

/-- **The master executes its own commands only**, in every run whose frames are `Confirmed`. -/
theorem own_run (es : List Event) (h : Meets Watch.next Echo ⟨[], []⟩ (run (step c) .init es).2) :
    Meets Watch.next (fun g => Own cmdFrame g.waiting) ⟨[], []⟩ (run (step c) .init es).2 :=
  have hK : stationOwnership.Keeps fun t => run (step c) t es := Contract.keeps_run fun e _ => keeps_step_own c e
  (hK .init ⟨[], []⟩ trivial h).1

end Master

end Wow.Iec104
