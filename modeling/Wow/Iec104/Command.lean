import Wow.Iec104.Exchange

/-!
# Wow.Iec104.Command — select before execute, master and slave together

A command of the master runs as four frames: select, its confirmation, execute, its confirmation.  The
master tells the two confirmations apart by one octet, the first element: nonzero makes it execute.

* `silent`: from a frame whose first element stays nonzero (`Live`) the master never reports anything.
* `yk_once_iff`: when a remote control command is applied once and reported once.
* `yt_never_once`: a set-point command never is; every confirmation of one is `Live`.
-/

namespace Wow.Iec104

open Iec10x

variable {P : Type} {cm : Master.Conf} {cs : Slave.Conf P} {now : Int}

/-- The exchange behind a call of the master: what the call sends is under way to the slave. -/
def opened (r : Station × List Act) (u : Station) : Duplex.Config Station Station (List UInt8) Act Act :=
  ⟨r.1, u, [], wires r.2, r.2, []⟩

/-- Two stations with an open link between them, an address in common and their callbacks set; the master is
ready for a command. -/
structure Linked (cm : Master.Conf) (cs : Slave.Conf P) (t u : Station) : Prop where
  idle : t.core.stat.init = .linkIdle
  up : t.core.link = true
  up' : u.core.link = true
  addr : cm.asduAddr = cs.asduAddr
  serv : cm.servCb = true
  setVal : cs.setValCb = true

/-- A command for one node, with `v` as its first value octet. -/
def sampleNodes (mode : DevTypeMod) (type : DevDataType) (v : UInt8) : NodeArr :=
  ⟨[⟨⟨mode, 0x6001, type⟩, ⟨#v[v, 0, 0, 0, 0, 0, 0, 0], #v[0, 0, 0, 0, 0, 0, 0]⟩⟩], by simp⟩

theorem linked_sample : Linked Master.sampleConf Slave.sampleConf Master.sample Slave.sample :=
  ⟨rfl, rfl, rfl, rfl, rfl, rfl⟩

/-! ### Commands that are never reported -/

section Live

/-- A command whose confirmation is answered by an execute, and the confirmation of that execute too. -/
def CmdMsg.Live (w : CmdMsg) : Prop :=
  3 < w.info.length ∧ ((ykFmt w.type).isSome = true → w.first &&& 0x7F ≠ 0)

variable (w : CmdMsg) (stale : Mem) (sn : Sn) (cot : Nat) (addr : UInt16)

/-- The first element of the execute of a remote control command. -/
theorem CmdMsg.first_exec (hyk : (ykFmt w.type).isSome = true) (h3 : 3 < w.info.length) :
    (w.exec (w.buf stale sn cot addr)).first = w.first &&& 0x7F := by
  have hsz : w.fmt.size = 1 := size_of_ykFmt w.hfmt hyk
  have hlen := w.hinfo
  have hn : 0 < w.n := by
    rw [hsz, objsLen] at hlen
    split at hlen <;> omega
  have hat : Master.selectAt 0 w.sq 1 0 = 15 := by simp [Master.selectAt]
  have hclear := @Master.clearSelect_at 0 (w.buf stale sn cot addr) w.n 1 0 w.sq hn
  rw [hat, ← Nat.zero_add 15, w.first_buf stale sn cot addr h3] at hclear
  have hl : 3 < objsLen w.n w.sq 1 := by rwa [hlen, hsz] at h3
  show (Master.execInfo 0 (w.buf stale sn cot addr) w.n w.sq w.fmt.size).getD 3 0 = _
  rw [hsz, Master.execInfo, List.getD_eq_getElem?_getD,
    List.getElem?_eq_getElem (by rw [Mem.length_slice]; exact hl), Option.getD_some, Mem.getElem_slice]
  exact hclear

theorem CmdMsg.Live.exec {w : CmdMsg} (h : w.Live) : (w.exec (w.buf stale sn cot addr)).Live := by
  have hlen : (w.exec (w.buf stale sn cot addr)).info.length = w.info.length := by
    rw [(w.exec (w.buf stale sn cot addr)).hinfo, w.hinfo]
    rfl
  refine ⟨by rw [hlen]; exact h.1, fun hyk => ?_⟩
  rw [w.first_exec stale sn cot addr hyk h.1, and_7F_idem]
  exact h.2 hyk

theorem CmdMsg.Live.not_done {w : CmdMsg} (h : w.Live) : w.done = false := by
  rw [CmdMsg.done, Bool.and_eq_false_imp]
  intro hyk
  rw [beq_eq_false_iff_ne]
  intro h0
  exact h.2 hyk (by rw [h0]; rfl)

/-- What is under way to a station: commands, or confirmations, that are `Live`. -/
def LiveFrame (cot : Nat) (addr : UInt16) (x : List UInt8) : Prop :=
  ∃ (w : CmdMsg) (sn : Sn), w.Live ∧ x = (w.frame sn cot addr).wire

/-- The invariant of an exchange that started with a `Live` command. -/
structure Silent (addr : UInt16) (d : Duplex.Config Station Station (List UInt8) Act Act) : Prop where
  toR : ∀ x ∈ d.toR, LiveFrame Cot.act addr x
  toL : ∀ x ∈ d.toL, LiveFrame Cot.actcon addr x
  quiet : ∀ x, Act.serv x ∉ d.logL

/-- A frame that is sent is under way to the peer, or nothing is. -/
theorem liveFrame_of_mem_wires {w : CmdMsg} {sn : Sn} {up : Bool} (hw : w.Live) :
    ∀ x ∈ wires [.send (w.frame sn cot addr) up], LiveFrame cot addr x := by
  intro x hx
  cases up with
  | false => cases hx
  | true =>
    obtain rfl : x = (w.frame sn cot addr).wire := List.mem_singleton.mp hx
    exact ⟨w, sn, hw, rfl⟩

variable (hm : cm.asduAddr = addr) (hs : cs.asduAddr = addr)
include hm hs

/-- **One delivery** keeps the master silent. -/
theorem silent_step {a b : Duplex.Config Station Station (List UInt8) Act Act} (ha : Silent addr a)
    (h : (exchange cm cs now).Step a b) : Silent addr b := by
  cases h with
  | @toLeft l r x q toR logL logR =>
    obtain ⟨w, sn, hw, rfl⟩ := ha.toL x (by simp)
    have hq : ∀ y ∈ q, LiveFrame Cot.actcon addr y := fun y hy => ha.toL y (by simp [hy])
    have hlog := ha.quiet
    cases hsn : Master.snOk l.core (sn.buildSend % 32768) (sn.buildRecv % 32768) with
    | false =>
      obtain ⟨m, e⟩ := master_refuses cm cs now w sn Cot.actcon addr l hm hsn
      rw [e]
      exact ⟨by simpa using ha.toR, hq, fun y => by simpa using hlog y⟩
    | true =>
      obtain ⟨m, e⟩ := master_executes cm cs now w sn addr l hm hsn hw.1 hw.not_done
      rw [e]
      have hsend := @liveFrame_of_mem_wires Cot.act addr _ (took l.core sn).sn l.core.link
        (hw.exec l.recvBuf sn Cot.actcon addr)
      exact ⟨fun y hy => (List.mem_append.mp hy).elim (ha.toR y) (hsend y), hq, fun y => by simpa using hlog y⟩
  | @toRight l r toL x q logL logR =>
    obtain ⟨w, sn, hw, rfl⟩ := ha.toR x (by simp)
    rw [slave_answers_cmd cm cs now w sn addr r hs]
    have hsend := @liveFrame_of_mem_wires Cot.actcon addr _ (took r.core sn).sn r.core.link hw
    exact ⟨fun y hy => ha.toR y (by simp [hy]),
      fun y hy => (List.mem_append.mp hy).elim (ha.toL y) (hsend y), ha.quiet⟩

/-- **A `Live` command is never reported**, however long the exchange goes on. -/
theorem silent {w : CmdMsg} {t u : Station} {up : Bool} {q : Act} (hw : w.Live) (hq : ∀ x, q ≠ .serv x)
    (hq' : q.wire? = none) {d : Duplex.Config Station Station (List UInt8) Act Act}
    (h : (exchange cm cs now).Settles (opened (t, [q, .send (w.frame sn Cot.act addr) up]) u) d) (x : Service) :
    d.logL.count (.serv x) = 0 := by
  have h0 : Silent addr (opened (t, [q, .send (w.frame sn Cot.act addr) up]) u) := by
    refine ⟨fun y hy => ?_, fun y hy => absurd hy (by simp [opened]), fun y hy => ?_⟩
    · rw [opened, wires, List.filterMap_cons, hq'] at hy
      exact liveFrame_of_mem_wires Cot.act addr hw y hy
    · rcases List.mem_cons.mp hy with e | e
      · exact hq y e.symm
      · simp at e
  have hd := Duplex.Settles.invariant (fun _ _ => silent_step addr hm hs) h h0
  exact List.count_eq_zero.mpr (hd.quiet x)

end Live

/-! ### The calls of the master -/

/-- A command with addresses of its own for every object. -/
def CmdMsg.ofObjs (type : AsduType) {fmt : CmdFmt} (hfmt : cmdFmt type = some fmt)
    (objs : List (UInt16 × List UInt8)) (hsz : ∀ o ∈ objs, o.2.length = fmt.size)
    (hle : 12 + objs.length * (3 + fmt.size) ≤ 255) : CmdMsg where
  type := type
  fmt := fmt
  sq := false
  n := objs.length
  info := encObjs objs
  hfmt := hfmt
  hn := by
    have h : objs.length * 3 ≤ objs.length * (3 + fmt.size) := Nat.mul_le_mul_left _ (Nat.le_add_right 3 _)
    omega
  hinfo := length_encObjs hsz
  hle := by rwa [length_encObjs hsz]

section OfObjs

variable {type : AsduType} {fmt : CmdFmt} {hfmt : cmdFmt type = some fmt} {objs : List (UInt16 × List UInt8)}
  {hsz : ∀ o ∈ objs, o.2.length = fmt.size} {hle : 12 + objs.length * (3 + fmt.size) ≤ 255}

theorem CmdMsg.objs_ofObjs : (CmdMsg.ofObjs type hfmt objs hsz hle).objs = objs := objsIn_encObjs hsz

theorem CmdMsg.three_lt_ofObjs (hne : objs ≠ []) : 3 < (CmdMsg.ofObjs type hfmt objs hsz hle).info.length := by
  have hpos : 0 < objs.length := List.length_pos_iff.mpr hne
  have hfs := cmdFmt_size_pos hfmt
  have h : 1 * (3 + fmt.size) ≤ objs.length * (3 + fmt.size) := Nat.mul_le_mul_right _ hpos
  have hlen : (CmdMsg.ofObjs type hfmt objs hsz hle).info.length = objs.length * (3 + fmt.size) :=
    length_encObjs hsz
  omega

/-- The call that sends it. -/
theorem step_buildCmd {t : Station} {ev : Master.Event} {nodes : List DevNodeCtrl} {info : List UInt8}
    (hev : Master.step cm t ev = t.call (Master.buildCmd cm type nodes info)) (hinfo : info = encObjs objs)
    (hlen : nodes.length = objs.length) : Master.step cm t ev =
      (⟨sent t.core, t.recvBuf⟩, [.req type nodes,
        .send ((CmdMsg.ofObjs type hfmt objs hsz hle).frame t.core.sn Cot.act cm.asduAddr) t.core.link]) := by
  rw [hev, hinfo]
  show (_, _) = (_, _)
  rw [Master.buildCmd, hlen]
  rfl

end OfObjs

/-! ### One delivery at a time -/

section Turns

variable (cm cs now)
variable (w : CmdMsg) (sn : Sn) (addr : UInt16) (l r : Station) (L R : List Act)

/-- The slave's turn. -/
theorem slave_turn (haddr : cs.asduAddr = addr) (hup : r.core.link = true) :
    ∃ b log, (exchange cm cs now).Step ⟨l, r, [], [(w.frame sn Cot.act addr).wire], L, R⟩
        ⟨l, ⟨sent (took r.core sn), b⟩,
          [(w.frame (took r.core sn).sn Cot.actcon addr).wire], [], L, R ++ log⟩ ∧
      values log = values (Slave.applyObjs cs w.fmt w.objs) := by
  have h : (exchange cm cs now).Step ⟨l, r, [], [(w.frame sn Cot.act addr).wire], L, R⟩ _ := .toRight
  rw [slave_answers_cmd cm cs now w sn addr r haddr, hup] at h
  refine ⟨_, _, h, ?_⟩
  show values (Slave.applyObjs cs w.fmt w.objs ++ _) = _
  rw [values_append]
  exact List.append_nil _

/-- The turn of a master that refuses the numbers of a confirmation. -/
theorem master_turn_refuse (haddr : cm.asduAddr = addr)
    (hsn : Master.snOk l.core (sn.buildSend % 32768) (sn.buildRecv % 32768) = false) :
    ∃ b log, (exchange cm cs now).Step ⟨l, r, [(w.frame sn Cot.actcon addr).wire], [], L, R⟩
        ⟨⟨(setTimer now l.core).1, b⟩, r, [], [], L ++ log, R⟩ ∧ log.count (.serv .ykCmdSuccess) = 0 := by
  have h : (exchange cm cs now).Step ⟨l, r, [(w.frame sn Cot.actcon addr).wire], [], L, R⟩ _ := .toLeft
  obtain ⟨b, e⟩ := master_refuses cm cs now w sn Cot.actcon addr l haddr hsn
  rw [e] at h
  exact ⟨b, _, h, rfl⟩

variable (haddr : cm.asduAddr = addr)
  (hsn : Master.snOk l.core (sn.buildSend % 32768) (sn.buildRecv % 32768) = true) (h3 : 3 < w.info.length)
include haddr hsn h3

/-- The turn of a master that executes. -/
theorem master_turn_execute (hup : l.core.link = true) (hdone : w.done = false) :
    ∃ b log, (exchange cm cs now).Step ⟨l, r, [(w.frame sn Cot.actcon addr).wire], [], L, R⟩
        ⟨⟨(setTimer now (sent (took l.core sn))).1, b⟩, r, [],
          [((w.exec (w.buf l.recvBuf sn Cot.actcon addr)).frame (took l.core sn).sn Cot.act addr).wire],
          L ++ log, R⟩ ∧ log.count (.serv .ykCmdSuccess) = 0 := by
  have h : (exchange cm cs now).Step ⟨l, r, [(w.frame sn Cot.actcon addr).wire], [], L, R⟩ _ := .toLeft
  obtain ⟨b, e⟩ := master_executes cm cs now w sn addr l haddr hsn h3 hdone
  rw [e, hup] at h
  exact ⟨b, _, h, rfl⟩

/-- The turn of a master that reports. -/
theorem master_turn_report (hserv : cm.servCb = true) (hdone : w.done = true) :
    ∃ b log, (exchange cm cs now).Step ⟨l, r, [(w.frame sn Cot.actcon addr).wire], [], L, R⟩
        ⟨⟨(setTimer now (took l.core sn)).1, b⟩, r, [], [], L ++ log, R⟩ ∧
      log.count (.serv .ykCmdSuccess) = 1 := by
  have h : (exchange cm cs now).Step ⟨l, r, [(w.frame sn Cot.actcon addr).wire], [], L, R⟩ _ := .toLeft
  obtain ⟨b, e⟩ := master_reports cm cs now w sn addr l haddr hsn h3 hdone
  rw [e] at h
  refine ⟨b, _, h, ?_⟩
  rw [serv, hserv]
  rfl

end Turns

section Halves

variable (cm cs now)
variable (w : CmdMsg) (sn : Sn) (l r : Station) (L R : List Act)

/-- The master takes the confirmation of a frame with the numbers `sn`. -/
def TakesCon (l r : Station) (sn : Sn) : Prop :=
  Master.snOk l.core ((took r.core sn).sn.buildSend % 32768) ((took r.core sn).sn.buildRecv % 32768) = true

instance : Decidable (TakesCon l r sn) := inferInstanceAs (Decidable (_ = true))

variable (haddr : cm.asduAddr = cs.asduAddr) (hup : r.core.link = true) (h3 : 3 < w.info.length)
include haddr hup h3

/-- **The second half**: the execute and its confirmation. -/
theorem settles_execute (hserv : cm.servCb = true) (hdone : w.done = true) :
    ∃ d, (exchange cm cs now).Settles ⟨l, r, [], [(w.frame sn Cot.act cm.asduAddr).wire], L, R⟩ d ∧
      values d.logR = values R ++ values (Slave.applyObjs cs w.fmt w.objs) ∧
      d.logL.count (.serv .ykCmdSuccess) =
        L.count (.serv .ykCmdSuccess) + if TakesCon l r sn then 1 else 0 := by
  obtain ⟨b, R', hslave, hvalues⟩ :=
    slave_turn cm cs now w sn cm.asduAddr l r L R haddr.symm hup
  by_cases htake : TakesCon l r sn
  · obtain ⟨b', L', hmaster, hcount⟩ := master_turn_report cm cs now w (took r.core sn).sn
      cm.asduAddr l ⟨sent (took r.core sn), b⟩ L (R ++ R') rfl htake h3 hserv hdone
    refine ⟨_, .head hslave (.head hmaster (.of_quiet ⟨rfl, rfl⟩)), ?_, ?_⟩
    · rw [values_append, hvalues]
    · rw [List.count_append, hcount, if_pos htake]
  · obtain ⟨b', L', hmaster, hcount⟩ := master_turn_refuse cm cs now w (took r.core sn).sn
      cm.asduAddr l ⟨sent (took r.core sn), b⟩ L (R ++ R') rfl (Bool.eq_false_iff.mpr htake)
    refine ⟨_, .head hslave (.head hmaster (.of_quiet ⟨rfl, rfl⟩)), ?_, ?_⟩
    · rw [values_append, hvalues]
    · rw [List.count_append, hcount, if_neg htake]

/-- The master behind the confirmation of the select. -/
def executing (now : Int) (l r : Station) (sn : Sn) : Core :=
  (setTimer now (sent (took l.core (took r.core sn).sn))).1

/-- **The whole command**: the select and its confirmation, then the second half if the master takes it. -/
theorem settles_select (hupL : l.core.link = true) (hserv : cm.servCb = true) (hdone : w.done = false)
    (hexec : ∀ b, (w.exec (w.buf b (took r.core sn).sn Cot.actcon cm.asduAddr)).done = true) :
    ∃ d, (exchange cm cs now).Settles ⟨l, r, [], [(w.frame sn Cot.act cm.asduAddr).wire], L, R⟩ d ∧
      if TakesCon l r sn then
        values d.logR = values R ++ values (Slave.applyObjs cs w.fmt w.objs) ++
          values (Slave.applyObjs cs w.fmt (w.objs.map fun o => (o.1, unselect o.2))) ∧
        ∀ b b', d.logL.count (.serv .ykCmdSuccess) = L.count (.serv .ykCmdSuccess) +
          if TakesCon ⟨executing now l r sn, b⟩ ⟨sent (took r.core sn), b'⟩ (took l.core (took r.core sn).sn).sn
          then 1 else 0
      else d.logL.count (.serv .ykCmdSuccess) = L.count (.serv .ykCmdSuccess) := by
  obtain ⟨b, R', hslave, hvalues⟩ :=
    slave_turn cm cs now w sn cm.asduAddr l r L R haddr.symm hup
  by_cases htake : TakesCon l r sn
  · obtain ⟨b', L', hmaster, hcount⟩ := master_turn_execute cm cs now w (took r.core sn).sn
      cm.asduAddr l ⟨sent (took r.core sn), b⟩ L (R ++ R') rfl htake h3 hupL hdone
    have h3' : 3 < (w.exec (w.buf l.recvBuf (took r.core sn).sn Cot.actcon cm.asduAddr)).info.length := by
      rw [(w.exec _).hinfo]
      rw [w.hinfo] at h3
      exact h3
    obtain ⟨d, hd, hvalues', hcount'⟩ := settles_execute cm cs now
      (w.exec (w.buf l.recvBuf (took r.core sn).sn Cot.actcon cm.asduAddr)) (took l.core (took r.core sn).sn).sn
      ⟨executing now l r sn, b'⟩ ⟨sent (took r.core sn), b⟩ (L ++ L') (R ++ R') haddr hup h3' hserv (hexec _)
    refine ⟨d, .head hslave (.head hmaster hd), ?_⟩
    rw [if_pos htake]
    rw [w.objs_exec, values_append, hvalues] at hvalues'
    rw [List.count_append, hcount, Nat.add_zero] at hcount'
    exact ⟨hvalues', fun _ _ => hcount'⟩
  · obtain ⟨b', L', hmaster, hcount⟩ := master_turn_refuse cm cs now w (took r.core sn).sn
      cm.asduAddr l ⟨sent (took r.core sn), b⟩ L (R ++ R') rfl (Bool.eq_false_iff.mpr htake)
    refine ⟨_, .head hslave (.head hmaster (.of_quiet ⟨rfl, rfl⟩)), ?_⟩
    rw [if_neg htake, List.count_append, hcount, Nat.add_zero]

end Halves

/-! ### Remote control -/

/-- The elements of the select frame. -/
def ykSelect (nodes : List DevNodeCtrl) : List (UInt16 × List UInt8) :=
  nodes.map fun x => (x.info.addr, [0x80 ||| x.value.u8])

/-- What `set_val_cb` should see of a remote control command. -/
def ykValues (nodes : List DevNodeCtrl) : List (DevNodeInfo × List UInt8) :=
  nodes.map fun x => (⟨.yk, x.info.addr, .sint8⟩, [x.value.u8])

/-- **Select before execute** of a remote control command: the exchange ends, with one `set_val_cb` for each
node, with its value, and one report of success. -/
def YkOnce (cm : Master.Conf) (cs : Slave.Conf P) (now : Int) (t u : Station) (nodes : NodeArr) : Prop :=
  ∃ d, (exchange cm cs now).Settles (opened (Master.step cm t (.yk nodes)) u) d ∧
    (values d.logR).Perm (ykValues nodes.val) ∧ d.logL.count (.serv .ykCmdSuccess) = 1

/-- The master takes the next two frames of the slave: their numbers are not below those it took last.  It
compares them as integers, so they must not wrap between the two. -/
def SnInStep (m s : Sn) : Prop :=
  (m.dealSend ≤ (s.buildSend % 32768 : Nat) ∧ m.dealRecv ≤ ((m.buildSend + 1) % 32768 : Nat)) ∧
    s.buildSend % 32768 ≠ 32767 ∧ (m.buildSend + 1) % 32768 ≠ 32767

instance (m s : Sn) : Decidable (SnInStep m s) := inferInstanceAs (Decidable ((_ ∧ _) ∧ _ ∧ _))

section Yk

theorem ykFmt_cScNa1 : cmdFmt .cScNa1 = some ⟨.yk, .sint8, 1, fun e => [e.getD 0 0 &&& 0x01]⟩ := rfl

variable (nodes : List DevNodeCtrl)

theorem size_ykSelect : ∀ o ∈ ykSelect nodes, o.2.length = 1 := by
  intro o ho
  obtain ⟨x, -, rfl⟩ := List.mem_map.mp ho
  rfl

/-- The select frame of a call. -/
def ykMsg (hfit : 12 + nodes.length * 4 ≤ 255) : CmdMsg :=
  .ofObjs .cScNa1 ykFmt_cScNa1 (ykSelect nodes) (size_ykSelect nodes) (by rwa [ykSelect, List.length_map])

/-- What the elements of a value say, over all octets. -/
theorem ykElement_eq : ∀ v : UInt8, (selected [0x80 ||| v] = true ∧ selected (unselect [0x80 ||| v]) = false ∧
    (unselect [0x80 ||| v]).getD 0 0 &&& 0x01 = v &&& 0x01) ∧ v &&& 0x01 ≤ 1 ∧ (v ≤ 1 → v &&& 0x01 = v) ∧
      (0x80 ||| v) &&& 0x7F = v &&& 0x7F ∧ 0x80 ||| v ≠ 0 ∧ (v &&& 0x7F = 0 → v ≤ 1 → v = 0) :=
  forall_uint8.mpr (by decide +kernel)

/-- A select is not applied. -/
theorem values_select : values (Slave.applyObjs cs ⟨.yk, .sint8, 1, fun e => [e.getD 0 0 &&& 0x01]⟩
    (ykSelect nodes)) = [] := by
  have hsel : ∀ v : UInt8, selected [0x80 ||| v] = true := fun v => (ykElement_eq v).1.1
  have hnil : Slave.applyObjs cs ⟨.yk, .sint8, 1, fun e => [e.getD 0 0 &&& 0x01]⟩ (ykSelect nodes) = [] := by
    rw [Slave.applyObjs]
    split
    · refine List.filterMap_eq_nil_iff.mpr fun o ho => ?_
      obtain ⟨x, -, rfl⟩ := List.mem_map.mp ho
      rw [hsel, if_pos rfl]
    · rfl
  rw [hnil]
  rfl

/-- An execute is applied: the lowest bit of every value. -/
theorem values_execute (hcb : cs.setValCb = true) :
    values (Slave.applyObjs cs ⟨.yk, .sint8, 1, fun e => [e.getD 0 0 &&& 0x01]⟩
      ((ykSelect nodes).map fun o => (o.1, unselect o.2))) =
      nodes.map fun x => (⟨.yk, x.info.addr, .sint8⟩, [x.value.u8 &&& 0x01]) := by
  have hsel : ∀ v : UInt8, selected (unselect [0x80 ||| v]) = false := fun v => (ykElement_eq v).1.2.1
  have hval : ∀ v : UInt8, (unselect [0x80 ||| v]).getD 0 0 &&& 0x01 = v &&& 0x01 := fun v => (ykElement_eq v).1.2.2
  rw [Slave.applyObjs, if_pos hcb, ykSelect, List.map_map, List.filterMap_map, values, List.filterMap_filterMap]
  have h1 : ∀ x ∈ nodes, ((if selected (unselect [0x80 ||| x.value.u8]) then none
      else some (Act.setVal ⟨.yk, x.info.addr, .sint8⟩ [(unselect [0x80 ||| x.value.u8]).getD 0 0 &&& 0x01])).bind
        Act.value?) = some (⟨.yk, x.info.addr, .sint8⟩, [x.value.u8 &&& 0x01]) := fun x _ => by
    rw [hsel, hval]
    rfl
  refine (List.filterMap_congr h1).trans ?_
  rw [← List.filterMap_eq_map]
  rfl

/-- The values the slave applies are the commanded ones exactly when they are single bits. -/
theorem perm_ykValues_iff :
    (nodes.map fun x => ((⟨.yk, x.info.addr, .sint8⟩ : DevNodeInfo), [x.value.u8 &&& 0x01])).Perm
      (ykValues nodes) ↔ ∀ x ∈ nodes, x.value.u8 ≤ 1 := by
  have hbit : ∀ v : UInt8, v &&& 0x01 ≤ 1 := fun v => (ykElement_eq v).2.1
  have hsame : ∀ v : UInt8, v ≤ 1 → v &&& 0x01 = v := fun v => (ykElement_eq v).2.2.1
  constructor
  · intro h x hx
    have hmem := h.mem_iff.mpr (List.mem_map_of_mem hx)
    obtain ⟨y, -, e⟩ := List.mem_map.mp hmem
    have hv : y.value.u8 &&& 0x01 = x.value.u8 := List.head_eq_of_cons_eq (Prod.mk.inj e).2
    rw [← hv]
    exact hbit _
  · intro h
    refine List.Perm.of_eq (List.map_congr_left fun x hx => ?_)
    rw [hsame _ (h x hx)]

/-- The call, when it is accepted. -/
theorem step_yk {t : Station} {nodes : NodeArr} (hidle : t.core.stat.init = .linkIdle)
    (hne : nodes.val ≠ []) (hfit : 12 + nodes.val.length * 4 ≤ 255) :
    Master.step cm t (.yk nodes) = (⟨sent t.core, t.recvBuf⟩, [.req .cScNa1 nodes.val,
      .send ((ykMsg nodes.val hfit).frame t.core.sn Cot.act cm.asduAddr) t.core.link]) := by
  have hinfo : nodes.val.flatMap Master.ykObj = encObjs (ykSelect nodes.val) := by
    rw [encObjs, ykSelect, List.flatMap_map]
    rfl
  have hev : Master.step cm t (.yk nodes) =
      t.call (Master.buildCmd cm .cScNa1 nodes.val (nodes.val.flatMap Master.ykObj)) := by
    have hl : nodes.val.length ≠ 0 := fun e => hne (List.eq_nil_of_length_eq_zero e)
    simp only [Master.step, Station.call, Master.buildYk, hl, hidle, if_false, ne_eq, not_true_eq_false]
  exact step_buildCmd hev hinfo (List.length_map _).symm

theorem bit7_or (v : UInt8) : (0x80 ||| v) &&& 0x7F = v &&& 0x7F := (ykElement_eq v).2.2.2.1

theorem bit7_ne (v : UInt8) : 0x80 ||| v ≠ 0 := (ykElement_eq v).2.2.2.2.1

theorem snInStep_iff (now : Int) (t u : Station) (b b' : Mem) : SnInStep t.core.sn u.core.sn ↔
    TakesCon ⟨sent t.core, t.recvBuf⟩ u t.core.sn ∧
      TakesCon ⟨executing now ⟨sent t.core, t.recvBuf⟩ u t.core.sn, b⟩ ⟨sent (took u.core t.core.sn), b'⟩
        (took (sent t.core) (took u.core t.core.sn).sn).sn := by
  have hok : ∀ (s : Core) (a b : Nat), Master.snOk s a b = true ↔ s.sn.dealSend ≤ a ∧ s.sn.dealRecv ≤ b :=
    fun _ _ _ => decide_eq_true_iff
  simp only [SnInStep, TakesCon, hok, executing, setTimer, sent, took, Slave.dealSn, Sn.next]
  omega

section

variable (now)
variable {t u : Station} (h : Linked cm cs t u) {x : DevNodeCtrl} {xs : List DevNodeCtrl}
  (hlt : (x :: xs).length < 256) (hfit : 12 + (x :: xs).length * 4 ≤ 255)
include h hfit

/-- **The exchange of a remote control command** whose first value has no bit but the select bit: it ends, and
it is reported when the numbers allow it. -/
theorem yk_exchange (hx : x.value.u8 &&& 0x7F = 0) :
    ∃ d, (exchange cm cs now).Settles (opened (Master.step cm t (.yk ⟨x :: xs, hlt⟩)) u) d ∧
      (d.logL.count (.serv .ykCmdSuccess) = 1 ↔ SnInStep t.core.sn u.core.sn) ∧
      (SnInStep t.core.sn u.core.sn → values d.logR = (x :: xs).map fun y =>
        ((⟨.yk, y.info.addr, .sint8⟩ : DevNodeInfo), [y.value.u8 &&& 0x01])) := by
  rw [step_yk h.idle (List.cons_ne_nil x xs) hfit, h.up]
  generalize hw : ykMsg (x :: xs) hfit = w
  have h3 : 3 < w.info.length := by
    rw [← hw]
    exact CmdMsg.three_lt_ofObjs (List.cons_ne_nil _ _)
  have hfirst : w.first = 0x80 ||| x.value.u8 := by
    rw [← hw]
    rfl
  have hdone : w.done = false := by
    rw [CmdMsg.done, hfirst, Bool.and_eq_false_imp]
    exact fun _ => beq_false_of_ne (bit7_ne _)
  have hexec : ∀ b, (w.exec (w.buf b (took u.core t.core.sn).sn Cot.actcon cm.asduAddr)).done = true := by
    intro b
    have hyk : (ykFmt w.type).isSome = true := by
      rw [← hw]
      rfl
    rw [CmdMsg.done, w.first_exec _ _ _ _ hyk h3, hfirst, bit7_or, hx, Bool.and_eq_true]
    exact ⟨hyk, rfl⟩
  have hobjs : w.objs = ykSelect (x :: xs) := by
    rw [← hw]
    exact CmdMsg.objs_ofObjs
  have hfmt : w.fmt = ⟨.yk, .sint8, 1, fun e => [e.getD 0 0 &&& 0x01]⟩ := by
    rw [← hw]
    rfl
  have hnone : [Act.req .cScNa1 (x :: xs), .send (w.frame t.core.sn Cot.act cm.asduAddr) true].count
      (.serv .ykCmdSuccess) = 0 := rfl
  obtain ⟨d, hd, hend⟩ := settles_select cm cs now w t.core.sn
    ⟨sent t.core, t.recvBuf⟩ u [.req .cScNa1 (x :: xs), .send (w.frame t.core.sn Cot.act cm.asduAddr) true] []
    h.addr h.up' h3 h.up h.serv hdone hexec
  refine ⟨d, hd, ?_⟩
  rw [snInStep_iff now t u t.recvBuf t.recvBuf]
  by_cases htake : TakesCon ⟨sent t.core, t.recvBuf⟩ u t.core.sn
  · rw [if_pos htake] at hend
    obtain ⟨hvalues, hcount⟩ := hend
    rw [hobjs, hfmt, values_select, values_execute _ h.setVal] at hvalues
    refine ⟨?_, fun _ => hvalues⟩
    rw [hcount t.recvBuf t.recvBuf, hnone]
    split
    · rename_i htake'
      exact ⟨fun _ => ⟨htake, htake'⟩, fun _ => rfl⟩
    · rename_i htake'
      exact ⟨fun e => absurd e (by decide), fun e => absurd e.2 htake'⟩
  · rw [if_neg htake, hnone] at hend
    refine ⟨⟨fun e => ?_, fun e => absurd e.1 htake⟩, fun e => absurd e.1 htake⟩
    rw [hend] at e
    exact absurd e (by decide)

/-- Any other first value keeps the first element of every confirmation nonzero. -/
theorem yk_silent (hx : x.value.u8 &&& 0x7F ≠ 0)
    {d : Duplex.Config Station Station (List UInt8) Act Act}
    (hd : (exchange cm cs now).Settles (opened (Master.step cm t (.yk ⟨x :: xs, hlt⟩)) u) d) (y : Service) :
    d.logL.count (.serv y) = 0 := by
  have hlive : (ykMsg (x :: xs) hfit).Live := by
    refine ⟨CmdMsg.three_lt_ofObjs (List.cons_ne_nil _ _), fun _ => ?_⟩
    show (0x80 ||| x.value.u8) &&& 0x7F ≠ 0
    rwa [bit7_or]
  rw [step_yk h.idle (List.cons_ne_nil x xs) hfit] at hd
  refine silent t.core.sn cm.asduAddr rfl h.addr.symm hlive (fun _ e => ?_) rfl hd y
  cases e

end

end Yk

/-- **A remote control command** is applied once to every node and reported once exactly when its first value
is 0, every value is a single bit, and the receive numbers of the master do not wrap meanwhile. -/
theorem yk_once_iff (t u : Station) (nodes : NodeArr) (h : Linked cm cs t u)
    (hfit : 12 + nodes.val.length * 4 ≤ 255) : YkOnce cm cs now t u nodes ↔
      (nodes.val.head?.map fun x => x.value.u8) = some 0 ∧ (∀ x ∈ nodes.val, x.value.u8 ≤ 1) ∧
        SnInStep t.core.sn u.core.sn := by
  obtain ⟨l, hlt⟩ := nodes
  cases l with
  | nil =>
    -- a call without nodes sends nothing
    refine iff_of_false ?_ (fun e => absurd e.1 (by simp))
    rintro ⟨d, hd, -, hcount⟩
    have hq := Duplex.Settles.of_quiet (N := exchange cm cs now)
      (c := opened (Master.step cm t (.yk ⟨[], hlt⟩)) u) ⟨rfl, rfl⟩
    rw [Duplex.Settles.unique hq hd] at hcount
    exact absurd hcount (by simp [opened, Master.step, Station.call, Master.buildYk])
  | cons x xs =>
    by_cases hx : x.value.u8 &&& 0x7F = 0
    · obtain ⟨e, he, hcount, hvalues⟩ := yk_exchange now h hlt hfit hx
      have hzero : ∀ v : UInt8, v &&& 0x7F = 0 → v ≤ 1 → v = 0 := fun v => (ykElement_eq v).2.2.2.2.2
      constructor
      · rintro ⟨d, hd, hperm, hone⟩
        obtain rfl := Duplex.Settles.unique he hd
        have hsn := hcount.mp hone
        rw [hvalues hsn, perm_ykValues_iff] at hperm
        refine ⟨?_, hperm, hsn⟩
        rw [List.head?_cons, Option.map_some, hzero _ hx (hperm x (by simp))]
      · rintro ⟨-, hbits, hsn⟩
        refine ⟨e, he, ?_, hcount.mpr hsn⟩
        rw [hvalues hsn, perm_ykValues_iff]
        exact hbits
    · refine iff_of_false ?_ ?_
      · rintro ⟨d, hd, -, hcount⟩
        rw [yk_silent now h hlt hfit hx hd] at hcount
        exact absurd hcount (by decide)
      · rintro ⟨hz, -, -⟩
        have hz' : x.value.u8 = 0 := by simpa using hz
        exact hx (by rw [hz']; rfl)

/-- Switching off one node. -/
theorem yk_once_off : YkOnce Master.sampleConf Slave.sampleConf 0 Master.sample Slave.sample (sampleNodes .yk .sint8 0) :=
  (yk_once_iff Master.sample Slave.sample (sampleNodes .yk .sint8 0) linked_sample (by decide)).mpr
    ⟨by decide, by decide, by decide⟩

/-- Switching on one node is never reported. -/
theorem not_yk_once_on :
    ¬ YkOnce Master.sampleConf Slave.sampleConf 0 Master.sample Slave.sample (sampleNodes .yk .sint8 1) := by
  rintro ⟨d, hd, -, hcount⟩
  have hnone : d.logL.count (.serv .ykCmdSuccess) = 0 := yk_silent 0 linked_sample (by decide) (by decide) (by decide) hd _
  rw [hnone] at hcount
  exact absurd hcount (by decide)

/-! ### Set-points -/

/-- A command frame as a receiver takes it: its type, its cause and its objects. -/
def cmdView (apdu : List UInt8) : Option (AsduType × Nat × List (UInt16 × List UInt8)) :=
  let m : Mem := fun i => apdu.getD i 0
  if (m 2).toNat % 2 ≠ 0 then none
  else (AsduType.ofCode (m 6)).bind fun type => (cmdFmt type).map fun fmt =>
    (type, Fld.reason m 0, Fld.objs m 0 (Fld.num m 0) (Fld.sq m 0) fmt.size fmt.size)

/-- The octets of a set-point value. -/
def ytOctets (first x : DevNodeCtrl) : List UInt8 := x.value.octets (if first.info.type = .float then 4 else 2)

/-- The elements of a set-point command, with the octet `qos` that holds the select bit. -/
def ytObjs (first : DevNodeCtrl) (qos : UInt8) (nodes : List DevNodeCtrl) : List (UInt16 × List UInt8) :=
  nodes.map fun x => (x.info.addr, ytOctets first x ++ [qos])

/-- What `set_val_cb` should see of a set-point command. -/
def ytValues (first : DevNodeCtrl) (nodes : List DevNodeCtrl) : List (DevNodeInfo × List UInt8) :=
  nodes.map fun x => (⟨.yt, x.info.addr, if first.info.type = .float then .float else .sint16⟩, ytOctets first x)

/-- **Select before execute** of a set-point command: the exchange ends, with one select and one execute of
the same nodes, one `set_val_cb` for each of them, and one report of success. -/
def YtOnce (cm : Master.Conf) (cs : Slave.Conf P) (now : Int) (t u : Station) (nodes : NodeArr) : Prop :=
  ∃ first d, nodes.val.head? = some first ∧
    (exchange cm cs now).Settles (opened (Master.step cm t (.yt nodes)) u) d ∧
    (wires d.logL).filterMap cmdView =
      [(Master.ytType first, Cot.act, ytObjs first 0x80 nodes.val),
        (Master.ytType first, Cot.act, ytObjs first 0x00 nodes.val)] ∧
    (values d.logR).Perm (ytValues first nodes.val) ∧
    d.logL.count (.serv .ytCmdSuccess) = 1

section Yt

variable (first : DevNodeCtrl)

theorem cmdFmt_ytType : ∃ fmt, cmdFmt (Master.ytType first) = some fmt ∧
    fmt.size = if first.info.type = .float then 5 else 3 := by
  rw [Master.ytType]
  split <;> exact ⟨_, rfl, rfl⟩

theorem length_ytOctets (x : DevNodeCtrl) :
    (ytOctets first x).length = if first.info.type = .float then 4 else 2 := by
  rw [ytOctets, DevNodeVal.length_octets]
  split <;> rfl

theorem encObjs_ytObjs (nodes : List DevNodeCtrl) :
    nodes.flatMap (Master.ytObj first) = encObjs (ytObjs first 0x80 nodes) := by
  rw [encObjs, ytObjs, List.flatMap_map]
  refine List.flatMap_congr fun x _ => ?_
  rw [Master.ytObj, List.append_assoc]
  rfl

/-- A set-point call is never reported: no first element makes the master take a confirmation for the last. -/
theorem yt_silent {t u : Station} {nodes : NodeArr} (h : Linked cm cs t u)
    (hfirst : nodes.val.head? = some first)
    (hfit : 12 + nodes.val.length * (3 + if first.info.type = .float then 5 else 3) ≤ 255)
    {d : Duplex.Config Station Station (List UInt8) Act Act}
    (hd : (exchange cm cs now).Settles (opened (Master.step cm t (.yt nodes)) u) d) (x : Service) :
    d.logL.count (.serv x) = 0 := by
  obtain ⟨fmt, hfmt, hsize⟩ := cmdFmt_ytType first
  have hlen : (ytObjs first 0x80 nodes.val).length = nodes.val.length := List.length_map _
  have hsz : ∀ o ∈ ytObjs first 0x80 nodes.val, o.2.length = fmt.size := by
    intro o ho
    obtain ⟨y, -, rfl⟩ := List.mem_map.mp ho
    rw [List.length_append, length_ytOctets, hsize]
    split <;> rfl
  have hle : 12 + (ytObjs first 0x80 nodes.val).length * (3 + fmt.size) ≤ 255 := by rwa [hlen, hsize]
  have hev : Master.step cm t (.yt nodes) =
      t.call (Master.buildCmd cm (Master.ytType first) nodes.val (nodes.val.flatMap (Master.ytObj first))) := by
    obtain ⟨l, hl⟩ := nodes
    obtain ⟨rest, rfl⟩ : ∃ rest, l = first :: rest := List.head?_eq_some_iff.mp hfirst
    simp [Master.step, Station.call, Master.buildYt, h.idle]
  have hstep := @step_buildCmd cm _ fmt hfmt _ hsz hle t _ _ _ hev (encObjs_ytObjs first _) hlen.symm
  have hne : ytObjs first 0x80 nodes.val ≠ [] := by
    intro e
    rw [List.map_eq_nil_iff.mp e] at hfirst
    cases hfirst
  have hlive : (CmdMsg.ofObjs (Master.ytType first) hfmt (ytObjs first 0x80 nodes.val) hsz hle).Live := by
    refine ⟨CmdMsg.three_lt_ofObjs hne, fun hyk => absurd hyk ?_⟩
    show ¬ (ykFmt (Master.ytType first)).isSome = true
    rw [Master.ytType]
    split <;> decide
  rw [hstep] at hd
  refine silent t.core.sn cm.asduAddr rfl h.addr.symm hlive (fun _ e => ?_) rfl hd x
  cases e

end Yt

/-- **No set-point command is reported**: the test of the confirmation that would end it is missing, so every
confirmation, the one of an execute too, is answered by one more execute. -/
theorem yt_never_once (t u : Station) (nodes : NodeArr) (h : Linked cm cs t u)
    (hfit : ∀ first ∈ nodes.val.head?,
      12 + nodes.val.length * (3 + if first.info.type = .float then 5 else 3) ≤ 255) :
    ¬ YtOnce cm cs now t u nodes := by
  rintro ⟨first, d, hfirst, hd, -, -, hcount⟩
  rw [yt_silent first h hfirst (hfit first hfirst) hd] at hcount
  exact absurd hcount (by decide)

/-- One normalised set-point. -/
theorem yt_never_once_normalised :
    ¬ YtOnce Master.sampleConf Slave.sampleConf 0 Master.sample Slave.sample (sampleNodes .yt .sint16 100) :=
  yt_never_once Master.sample Slave.sample (sampleNodes .yt .sint16 100) linked_sample (by
    intro first hfirst
    obtain rfl := Option.some.inj hfirst
    decide)

/-- One set-point of a floating point node. -/
theorem not_yt_once_float :
    ¬ YtOnce Master.sampleConf Slave.sampleConf 0 Master.sample Slave.sample (sampleNodes .yt .float 0) := by
  rintro ⟨first, d, hfirst, hd, -, -, hcount⟩
  obtain rfl := Option.some.inj hfirst
  rw [yt_silent _ linked_sample rfl (by decide) hd] at hcount
  exact absurd hcount (by decide)

end Wow.Iec104
