import Wow.Lib.Duplex
import Wow.Iec104.Objects
import Wow.Iec104.Contracts

/-!
# Wow.Iec104.Exchange — the two stations on one connection

`exchange` is the network of a master (left) and a slave (right): every frame one station sends reaches the
other as a read of its own, in order and without loss.

* `slave_recv`, `master_recv`: one frame, one dispatch.
* `slave_answers_cmd`: the slave answers a command with the same objects as a confirmation, and applies those
  without the select bit.
* `master_executes`: the master answers a confirmation with the same objects without their select bits.
-/

namespace Wow.Iec104

open Iec10x

/-! ### Clearing the select bits -/

theorem stride_inj {K i i' r r' : Nat} (h : i * K + r = i' * K + r') (hr : r < K) (hr' : r' < K) :
    i = i' ∧ r = r' := by
  have hm : r = r' := by
    have hmod := congrArg (· % K) h
    simp only [Nat.mul_comm _ K, Nat.mul_add_mod] at hmod
    rwa [Nat.mod_eq_of_lt hr, Nat.mod_eq_of_lt hr'] at hmod
  subst hm
  have hK : 0 < K := by omega
  exact ⟨Nat.eq_of_mul_eq_mul_right hK (by omega), rfl⟩

namespace Master

variable {p n sz : Nat} {sq : Bool} {m : Mem}

/-- A window without a select octet is left alone. -/
theorem slice_clearSelect {q l : Nat} (h : ∀ r < l, ∀ i < n, q + r ≠ selectAt p sq sz i) :
    ((clearSelect p n sq sz).mem m).slice q l = m.slice q l :=
  Mem.slice_congr fun r hr => clearSelect_of_ne p m (h r hr)

theorem unselect_concat (e : List UInt8) (b : UInt8) : unselect (e ++ [b]) = e ++ [b &&& 0x7F] := by
  simp [unselect]

/-- The element at `q`, whose last octet is the select octet of object `i`. -/
theorem elem_clearSelect {q s i : Nat} (hi : i < n) (hq : q + s = selectAt p sq (s + 1) i)
    (hne : ∀ r < s, ∀ j < n, q + r ≠ selectAt p sq (s + 1) j) :
    ((clearSelect p n sq (s + 1)).mem m).slice q (s + 1) = unselect (m.slice q (s + 1)) := by
  have hlast : ∀ x : Mem, x.slice q (s + 1) = x.slice q s ++ [x (q + s)] := fun x => by
    rw [Mem.slice_append]
    rfl
  rw [hlast, hlast m, unselect_concat, slice_clearSelect hne, hq, clearSelect_at p m hi]

/-- **Clearing the select bits** clears them in every object and changes nothing else. -/
theorem objs_clearSelect (hsz : 0 < sz) : Fld.objs ((clearSelect p n sq sz).mem m) p n sq sz sz =
    (Fld.objs m p n sq sz sz).map fun o => (o.1, unselect o.2) := by
  obtain ⟨s, rfl⟩ : ∃ s, sz = s + 1 := ⟨sz - 1, by omega⟩
  simp only [Fld.objs, List.map_map]
  refine List.map_congr_left fun i hi => ?_
  have hin : i < n := List.mem_range.mp hi
  cases sq with
  | true =>
    have ha : Fld.infoAddr ((clearSelect p n true (s + 1)).mem m) (p + 12) = Fld.infoAddr m (p + 12) :=
      infoAddr_congr (slice_clearSelect fun r hr j _ => by simp only [selectAt, if_true]; omega)
    have hq : p + 15 + i * (s + 1) + s = selectAt p true (s + 1) i := by
      simp only [selectAt, if_true]
      omega
    have he := elem_clearSelect (m := m) hin hq fun r hr j _ h => by
      simp only [selectAt, if_true] at h
      have h' : i * (s + 1) + r = j * (s + 1) + s := by omega
      have := (stride_inj h' (by omega) (by omega)).2
      omega
    simp only [Function.comp, Fld.obj, if_true, ha, he]
  | false =>
    have hK : ∀ r j, r < 3 + s → p + 12 + i * (3 + (s + 1)) + r ≠ selectAt p false (s + 1) j := fun r j hr h => by
      simp only [selectAt, Bool.false_eq_true, if_false] at h
      have h' : i * (3 + (s + 1)) + r = j * (3 + (s + 1)) + (3 + s) := by omega
      have := (stride_inj h' (by omega) (by omega)).2
      omega
    have ha : Fld.infoAddr ((clearSelect p n false (s + 1)).mem m) (p + 12 + i * (3 + (s + 1))) =
        Fld.infoAddr m (p + 12 + i * (3 + (s + 1))) :=
      infoAddr_congr (slice_clearSelect fun r hr j _ => hK r j (by omega))
    have hq : p + 15 + i * (3 + (s + 1)) + s = selectAt p false (s + 1) i := by
      simp only [selectAt, Bool.false_eq_true, if_false]
      omega
    have he := elem_clearSelect (m := m) hin hq fun r hr j _ h => hK (r + 3) j (by omega) (by rw [← h]; omega)
    simp only [Function.comp, Fld.obj, Bool.false_eq_true, if_false, ha, he]

/-- The objects of an execute frame. -/
theorem objsIn_execInfo (hsz : 0 < sz) : objsIn n sq sz (execInfo p m n sq sz) =
    (Fld.objs m p n sq sz sz).map fun o => (o.1, unselect o.2) := by
  rw [← objs_clearSelect hsz]
  exact (objs_eq_objsIn rfl).symm

end Master

/-! ### The network -/

/-- A message is a read of its own; an empty one and one above the buffer are none. -/
def deliver (step : Station → Chunk → Station × List Act) (t : Station) (w : List UInt8) :
    Station × List (List UInt8) × List Act :=
  if h : 0 < w.length ∧ w.length ≤ 1500 then
    let r := step t ⟨w, h.1, h.2⟩
    (r.1, wires r.2, r.2)
  else (t, [], [])

variable {P : Type} (cm : Master.Conf) (cs : Slave.Conf P) (now : Int)

/-- The master on the left, the slave on the right. -/
def exchange : Duplex Station Station (List UInt8) Act Act where
  left := deliver fun t chunk => Master.step cm t (.recv chunk now)
  right := deliver fun t chunk => Slave.step cs t (.recv chunk)

theorem deliver_mkI (step : Station → Chunk → Station × List Act) (t : Station) {sn : Sn} {h : AsduHead}
    {info : List UInt8} (hle : 12 + info.length ≤ 255) {r : Station × List Act}
    (hr : ∀ chunk : Chunk, chunk.octets = (mkI sn h info).wire → step t chunk = r) :
    deliver step t (mkI sn h info).wire = (r.1, wires r.2, r.2) := by
  have hw : 0 < (mkI sn h info).wire.length ∧ (mkI sn h info).wire.length ≤ 1500 := by
    rw [length_wire_mkI sn h hle]
    omega
  simp only [deliver, dif_pos hw, hr ⟨_, hw.1, hw.2⟩ rfl]

section Recv

variable (sn : Sn) (h : AsduHead) {info : List UInt8} (hle : 12 + info.length ≤ 255) (t : Station)
include hle

theorem slave_step_mkI {chunk : Chunk} (hc : chunk.octets = (mkI sn h info).wire) :
    Slave.step cs t (.recv chunk) =
      (⟨((Slave.frameIParse cs t.core 0).run (inBuf t.recvBuf sn h info)).1, inBuf t.recvBuf sn h info⟩,
        .rx (mkI sn h info).wire :: ((Slave.frameIParse cs t.core 0).run (inBuf t.recvBuf sn h info)).2) := by
  have hd : ∀ s l, (Slave.frameDispatch cs s 0 l).run (inBuf t.recvBuf sn h info) =
      (Slave.frameIParse cs s 0).run (inBuf t.recvBuf sn h info) := fun s l => by
    simp [Slave.frameDispatch, format_inBuf]
  simp only [Slave.step, hc, fill_wire_mkI sn h hle, length_wire_mkI sn h hle, Slave.frameParse,
    (frameParse_mkI sn h hle (Slave.frameDispatch cs) t.recvBuf t.core).1, hd]

/-- **The slave on one I-frame.** -/
theorem slave_recv : (exchange cm cs now).right t (mkI sn h info).wire =
    (⟨((Slave.frameIParse cs t.core 0).run (inBuf t.recvBuf sn h info)).1, inBuf t.recvBuf sn h info⟩,
      wires ((Slave.frameIParse cs t.core 0).run (inBuf t.recvBuf sn h info)).2,
      .rx (mkI sn h info).wire :: ((Slave.frameIParse cs t.core 0).run (inBuf t.recvBuf sn h info)).2) := by
  have hd := deliver_mkI (fun t chunk => Slave.step cs t (.recv chunk)) t hle fun _ (hc : _ = (mkI sn h info).wire) =>
    slave_step_mkI cs sn h hle t hc
  exact hd

theorem master_step_mkI {chunk : Chunk} (hc : chunk.octets = (mkI sn h info).wire) :
    Master.step cm t (.recv chunk now) =
      (⟨(setTimer now ((Master.frameIParse cm t.core 0).run (inBuf t.recvBuf sn h info)).1).1,
          (Master.frameIParse cm t.core 0).mem (inBuf t.recvBuf sn h info)⟩,
        .rx (mkI sn h info).wire ::
          ((Master.frameIParse cm t.core 0).run (inBuf t.recvBuf sn h info)).2) := by
  have hd : ∀ s l, (Master.frameDispatch cm now s 0 l).run (inBuf t.recvBuf sn h info) =
      ((setTimer now ((Master.frameIParse cm s 0).run (inBuf t.recvBuf sn h info)).1).1,
        ((Master.frameIParse cm s 0).run (inBuf t.recvBuf sn h info)).2) := fun s l => by
    simp [Master.frameDispatch, Master.frameFormat, format_inBuf]
  have hm : ∀ s l, (Master.frameDispatch cm now s 0 l).mem (inBuf t.recvBuf sn h info) =
      (Master.frameIParse cm s 0).mem (inBuf t.recvBuf sn h info) := fun s l => by
    simp [Master.frameDispatch, Master.frameFormat, format_inBuf]
  obtain ⟨hrun, hmem⟩ := frameParse_mkI sn h hle (Master.frameDispatch cm now) t.recvBuf t.core
  simp only [Master.step, hc, fill_wire_mkI sn h hle, length_wire_mkI sn h hle, Master.frameParse, hrun, hmem, hd, hm]

/-- **The master on one I-frame.** -/
theorem master_recv : (exchange cm cs now).left t (mkI sn h info).wire =
    (⟨(setTimer now ((Master.frameIParse cm t.core 0).run (inBuf t.recvBuf sn h info)).1).1,
        (Master.frameIParse cm t.core 0).mem (inBuf t.recvBuf sn h info)⟩,
      wires ((Master.frameIParse cm t.core 0).run (inBuf t.recvBuf sn h info)).2,
      .rx (mkI sn h info).wire ::
        ((Master.frameIParse cm t.core 0).run (inBuf t.recvBuf sn h info)).2) := by
  have hd := deliver_mkI (fun t chunk => Master.step cm t (.recv chunk now)) t hle fun _ (hc : _ = (mkI sn h info).wire) =>
    master_step_mkI cm now sn h hle t hc
  exact hd

end Recv

/-! ### Commands and their confirmations -/

section Commands

/-- A command on the wire: `n` objects of the elements of `type`. -/
structure CmdMsg where
  type : AsduType
  fmt : CmdFmt
  sq : Bool
  n : Nat
  info : List UInt8
  hfmt : cmdFmt type = some fmt
  hn : n < 128
  hinfo : info.length = objsLen n sq fmt.size
  hle : 12 + info.length ≤ 255

/-- The objects of a command. -/
def CmdMsg.objs (w : CmdMsg) : List (UInt16 × List UInt8) := objsIn w.n w.sq w.fmt.size w.info

/-- The frame of a command, or of its confirmation, after the cause. -/
def CmdMsg.frame (w : CmdMsg) (sn : Sn) (cot : Nat) (addr : UInt16) : SendBuf :=
  mkI sn ⟨w.type.code, w.sq, w.n, cot, addr⟩ w.info

variable (w : CmdMsg) (stale : Mem) (sn : Sn) (cot : Nat) (addr : UInt16)

/-- A receive buffer after the read of that frame. -/
def CmdMsg.buf : Mem := inBuf stale sn ⟨w.type.code, w.sq, w.n, cot, addr⟩ w.info

theorem CmdMsg.type_buf : AsduType.ofCode (w.buf stale sn cot addr (0 + 6)) = some w.type := by
  rw [CmdMsg.buf, Nat.zero_add, type_inBuf, AsduType.ofCode_code]

theorem CmdMsg.num_buf : Fld.num (w.buf stale sn cot addr) 0 = w.n := by
  rw [CmdMsg.buf, num_inBuf, Nat.mod_eq_of_lt w.hn]

theorem CmdMsg.sq_buf : Fld.sq (w.buf stale sn cot addr) 0 = w.sq := by rw [CmdMsg.buf, sq_inBuf]

theorem CmdMsg.slice_buf :
    (w.buf stale sn cot addr).slice (0 + 12) (objsLen w.n w.sq w.fmt.size) = w.info := by
  have h := slice_inBuf stale sn ⟨w.type.code, w.sq, w.n, cot, addr⟩ w.info (a := 0)
    (n := w.info.length) (by omega)
  rw [← w.hinfo, CmdMsg.buf]
  exact h.trans (List.take_length)

theorem CmdMsg.objs_buf :
    Fld.objs (w.buf stale sn cot addr) 0 w.n w.sq w.fmt.size w.fmt.size = w.objs :=
  objs_eq_objsIn (w.slice_buf stale sn cot addr)

theorem CmdMsg.reason_buf (hc : cot < 16384) : Fld.reason (w.buf stale sn cot addr) 0 = cot := by
  rw [CmdMsg.buf, reason_inBuf, Nat.mod_eq_of_lt hc]

theorem CmdMsg.addr_buf : (w.buf stale sn cot addr).u16 (0 + 10) = addr :=
  addr_inBuf stale sn ⟨w.type.code, w.sq, w.n, cot, addr⟩ w.info

/-- The state of a station that has taken in a frame with the numbers of `sn`. -/
def took (s : Core) (sn : Sn) : Core := Slave.dealSn s (sn.buildSend % 32768) (sn.buildRecv % 32768)

/-- **The slave answers a command** with its confirmation, and applies what is not selected. -/
theorem slave_answers_cmd (t : Station) (haddr : cs.asduAddr = addr) :
    (exchange cm cs now).right t (w.frame sn Cot.act addr).wire =
      (⟨sent (took t.core sn), w.buf t.recvBuf sn Cot.act addr⟩,
        wires [.send (w.frame (took t.core sn).sn Cot.actcon addr) t.core.link],
        .rx (w.frame sn Cot.act addr).wire ::
          .checked true (sn.buildSend % 32768) (sn.buildRecv % 32768) true ::
          (Slave.applyObjs cs w.fmt w.objs ++
            [.send (w.frame (took t.core sn).sn Cot.actcon addr) t.core.link])) := by
  subst haddr
  have ha : ¬ cs.asduAddr ≠ (w.buf t.recvBuf sn Cot.act cs.asduAddr).u16 (0 + 10) := by
    rw [w.addr_buf, ne_eq, not_not]
  have hrun : (Slave.frameIParse cs t.core 0).run (w.buf t.recvBuf sn Cot.act cs.asduAddr) =
      (sent (took t.core sn),
        .checked true (sn.buildSend % 32768) (sn.buildRecv % 32768) true ::
          (Slave.applyObjs cs w.fmt w.objs ++
            [.send (w.frame (took t.core sn).sn Cot.actcon cs.asduAddr) t.core.link])) := by
    rw [Slave.run_frameIParse, if_neg ha,
      Slave.run_asduParse_cmd cs _ 0 _ (w.type_buf t.recvBuf sn Cot.act cs.asduAddr) w.hfmt]
    simp only [Slave.cmdActs, Slave.cmdCon, w.num_buf, w.sq_buf, w.slice_buf, w.objs_buf,
      w.reason_buf t.recvBuf sn Cot.act cs.asduAddr (by decide), ne_eq, not_true_eq_false, if_false, sendI,
      CmdMsg.frame, took]
    rw [CmdMsg.buf, sendSn_inBuf, recvSn_inBuf, Nat.zero_add, type_inBuf]
    rfl
  have hrecv := slave_recv cm cs now sn ⟨w.type.code, w.sq, w.n, Cot.act, cs.asduAddr⟩ w.hle t
  rw [CmdMsg.buf] at hrun ⊢
  rw [CmdMsg.frame, hrecv, hrun]
  have hw : wires (.checked true (sn.buildSend % 32768) (sn.buildRecv % 32768) true ::
      (Slave.applyObjs cs w.fmt w.objs ++
        [.send (w.frame (took t.core sn).sn Cot.actcon cs.asduAddr) t.core.link])) =
      wires [.send (w.frame (took t.core sn).sn Cot.actcon cs.asduAddr) t.core.link] := by
    rw [← List.singleton_append, wires_append, wires_append, wires_setVals (Slave.setVal_of_mem_applyObjs cs)]
    rfl
  rw [hw]

/-- The execute of a confirmation that is in the buffer `b`. -/
def CmdMsg.exec (b : Mem) : CmdMsg :=
  { w with
    info := Master.execInfo 0 b w.n w.sq w.fmt.size
    hinfo := by simp [Master.execInfo]
    hle := by
      have h := w.hle
      rw [w.hinfo] at h
      simpa [Master.execInfo] using h }

/-- The execute carries the objects of the confirmation without their select bits. -/
theorem CmdMsg.objs_exec : (w.exec (w.buf stale sn cot addr)).objs = w.objs.map fun o => (o.1, unselect o.2) := by
  show objsIn w.n w.sq w.fmt.size (Master.execInfo 0 (w.buf stale sn cot addr) w.n w.sq w.fmt.size) = _
  rw [Master.objsIn_execInfo (cmdFmt_size_pos w.hfmt), w.objs_buf]

/-- The first element of a command, where the remote control handler looks for it. -/
def CmdMsg.first : UInt8 := w.info.getD 3 0

theorem CmdMsg.first_buf (h3 : 3 < w.info.length) : w.buf stale sn cot addr (0 + 15) = w.first := by
  have h := slice_inBuf stale sn ⟨w.type.code, w.sq, w.n, cot, addr⟩ w.info (a := 3) (n := 1) (by omega)
  have h1 : (w.buf stale sn cot addr).slice (12 + 3) 1 = [w.buf stale sn cot addr (0 + 15)] := rfl
  rw [CmdMsg.buf] at h1 ⊢
  rw [h1] at h
  have hd : (w.info.drop 3).take 1 = [w.info[3]] := by
    rw [List.drop_eq_getElem_cons h3]
    rfl
  rw [hd] at h
  rw [CmdMsg.first, List.getD_eq_getElem?_getD, List.getElem?_eq_getElem h3, Option.getD_some]
  exact List.head_eq_of_cons_eq h

/-- The confirmation is taken for that of an execute. -/
def CmdMsg.done : Bool := (ykFmt w.type).isSome && w.first == 0

section Master

variable (t : Station) (haddr : cm.asduAddr = addr)
include haddr

theorem master_judges : (Master.frameIParse cm t.core 0).run (w.buf t.recvBuf sn cot addr) =
    if Master.snOk t.core (sn.buildSend % 32768) (sn.buildRecv % 32768) = false then
      (t.core, [.checked true (sn.buildSend % 32768) (sn.buildRecv % 32768) false])
    else (((Master.asduParse cm (took t.core sn) 0).run (w.buf t.recvBuf sn cot addr)).1,
      .checked true (sn.buildSend % 32768) (sn.buildRecv % 32768) true ::
        ((Master.asduParse cm (took t.core sn) 0).run (w.buf t.recvBuf sn cot addr)).2) := by
  subst haddr
  have ha : ¬ cm.asduAddr ≠ (w.buf t.recvBuf sn cot cm.asduAddr).u16 (0 + 10) := by
    rw [w.addr_buf, ne_eq, not_not]
  have hs : Fld.sendSn (w.buf t.recvBuf sn cot cm.asduAddr) 0 = sn.buildSend % 32768 := sendSn_inBuf ..
  have hr : Fld.recvSn (w.buf t.recvBuf sn cot cm.asduAddr) 0 = sn.buildRecv % 32768 := recvSn_inBuf ..
  rw [Master.run_frameIParse, if_neg ha, hs, hr]
  rfl

/-- A frame whose numbers the master refuses. -/
theorem master_refuses
    (hsn : Master.snOk t.core (sn.buildSend % 32768) (sn.buildRecv % 32768) = false) :
    ∃ b, (exchange cm cs now).left t (w.frame sn cot addr).wire =
      (⟨(setTimer now t.core).1, b⟩, [],
        [.rx (w.frame sn cot addr).wire, .checked true (sn.buildSend % 32768) (sn.buildRecv % 32768) false]) := by
  have hrecv := master_recv cm cs now sn ⟨w.type.code, w.sq, w.n, cot, addr⟩ w.hle t
  have hj := master_judges cm w sn cot addr t haddr
  rw [if_pos hsn, CmdMsg.buf] at hj
  rw [hj] at hrecv
  exact ⟨_, hrecv⟩

variable (hsn : Master.snOk t.core (sn.buildSend % 32768) (sn.buildRecv % 32768) = true)
  (h3 : 3 < w.info.length)
include hsn h3

theorem master_judges_con : (Master.frameIParse cm t.core 0).run (w.buf t.recvBuf sn Cot.actcon addr) =
    (((if w.done then serv cm.servCb .ykCmdSuccess (took t.core sn)
        else Master.execute cm 0 (w.buf t.recvBuf sn Cot.actcon addr) w.fmt (took t.core sn))).1,
      .checked true (sn.buildSend % 32768) (sn.buildRecv % 32768) true ::
        (if w.done then serv cm.servCb .ykCmdSuccess (took t.core sn)
        else Master.execute cm 0 (w.buf t.recvBuf sn Cot.actcon addr) w.fmt (took t.core sn)).2) := by
  have hd : Master.doneCon 0 (w.buf t.recvBuf sn Cot.actcon addr) w.type = w.done := by
    rw [Master.doneCon, w.first_buf _ _ _ _ h3, CmdMsg.done]
  rw [master_judges cm w sn Cot.actcon addr t haddr, hsn, if_neg (by decide),
    Master.run_asduParse_con cm _ 0 _ (w.type_buf t.recvBuf sn Cot.actcon addr) w.hfmt
      (w.reason_buf t.recvBuf sn Cot.actcon addr (by decide)), hd]

/-- **The master reports success** on a confirmation it takes for that of an execute. -/
theorem master_reports (hdone : w.done = true) :
    ∃ b, (exchange cm cs now).left t (w.frame sn Cot.actcon addr).wire =
      (⟨(setTimer now (took t.core sn)).1, b⟩, [],
        .rx (w.frame sn Cot.actcon addr).wire ::
          .checked true (sn.buildSend % 32768) (sn.buildRecv % 32768) true ::
          (serv cm.servCb .ykCmdSuccess (took t.core sn)).2) := by
  have hrecv := master_recv cm cs now sn ⟨w.type.code, w.sq, w.n, Cot.actcon, addr⟩ w.hle t
  have hj := master_judges_con cm w sn addr t haddr hsn h3
  simp only [hdone, if_true] at hj
  have hw : wires (.checked true (sn.buildSend % 32768) (sn.buildRecv % 32768) true ::
      (serv cm.servCb .ykCmdSuccess (took t.core sn)).2) = [] := by
    rw [serv]
    cases cm.servCb <;> rfl
  rw [CmdMsg.buf] at hj
  rw [hj, hw] at hrecv
  exact ⟨_, hrecv⟩

/-- **The master executes** every other confirmation: the same objects without their select bits. -/
theorem master_executes (hdone : w.done = false) :
    ∃ b, (exchange cm cs now).left t (w.frame sn Cot.actcon addr).wire =
      (⟨(setTimer now (sent (took t.core sn))).1, b⟩,
        wires [.send ((w.exec (w.buf t.recvBuf sn Cot.actcon addr)).frame (took t.core sn).sn Cot.act addr)
          t.core.link],
        [.rx (w.frame sn Cot.actcon addr).wire,
          .checked true (sn.buildSend % 32768) (sn.buildRecv % 32768) true,
          .send ((w.exec (w.buf t.recvBuf sn Cot.actcon addr)).frame (took t.core sn).sn Cot.act addr)
            t.core.link]) := by
  have hrecv := master_recv cm cs now sn ⟨w.type.code, w.sq, w.n, Cot.actcon, addr⟩ w.hle t
  have hj := master_judges_con cm w sn addr t haddr hsn h3
  have hx : Master.execute cm 0 (w.buf t.recvBuf sn Cot.actcon addr) w.fmt (took t.core sn) =
      (sent (took t.core sn),
        [.send ((w.exec (w.buf t.recvBuf sn Cot.actcon addr)).frame (took t.core sn).sn Cot.act addr)
          t.core.link]) := by
    simp only [Master.execute, sendI, w.num_buf, w.sq_buf, CmdMsg.frame, haddr]
    rfl
  simp only [hdone, Bool.false_eq_true, if_false, hx] at hj
  rw [CmdMsg.buf] at hj
  rw [hj] at hrecv
  exact ⟨_, hrecv⟩

end Master

end Commands

end Wow.Iec104
