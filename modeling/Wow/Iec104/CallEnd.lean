import Wow.Iec104.Command
import Wow.Iec104.Interrogation

/-!
# Wow.Iec104.CallEnd — how an interrogation ends

The master reports the success of an interrogation on a termination whose information address is zero.  The
slave puts `callFinshAddr` there, for both interrogations.

* `mute_of_mem_answer`: no frame of an answer makes the master report or send anything.
* `call_silent`: nor does the whole exchange.
* `call_never_ends`: so no interrogation ends in success, whatever the node table.
-/

namespace Wow.Iec104

open Iec10x

variable {P : Type} {cm : Master.Conf} {cs : Slave.Conf P} {now : Int}

/-! ### A read of one message -/

/-- Less than a head is no frame. -/
theorem left_short (t : Station) {w : List UInt8} (h : w.length < headLen) :
    ((exchange cm cs now).left t w).2 = ([], []) := by
  show (deliver _ t w).2 = _
  rw [deliver]
  split
  · have hn : ¬ takes (t.recvBuf.fill w) w.length 0 := fun ht => by
      have := ht.2
      omega
    have hl : w.length < 65536 := Nat.lt_trans h (by decide)
    simp only [Master.step, Master.frameParse, frameParse_eq, (frameLoop_stop _ hl hn).1]
    rfl
  · rfl

/-- One I-frame, whole or cut. -/
theorem left_single (t : Station) {w : List UInt8} (h6 : headLen ≤ w.length) (hle : w.length ≤ 1500)
    (hhead : t.recvBuf.fill w 0 = headOctet) (hlen : w.length ≤ lenAt (t.recvBuf.fill w) 0)
    (hI : (t.recvBuf.fill w 2).toNat % 2 = 0) : ((exchange cm cs now).left t w).2 =
      (wires ((Master.frameIParse cm t.core 0).run (t.recvBuf.fill w)).2,
        .rx w :: ((Master.frameIParse cm t.core 0).run (t.recvBuf.fill w)).2) := by
  have hw : 0 < w.length ∧ w.length ≤ 1500 := ⟨Nat.lt_of_lt_of_le (by decide) h6, hle⟩
  have hslice : (t.recvBuf.fill w).slice 0 w.length = w := by
    rw [Mem.slice_fill (by omega), List.drop_zero, List.take_length]
  have hd : ∀ s l, ((Master.frameDispatch cm now s 0 l).run (t.recvBuf.fill w)).2 =
      ((Master.frameIParse cm s 0).run (t.recvBuf.fill w)).2 := fun s l => by
    simp [Master.frameDispatch, Master.frameFormat, hI]
  obtain ⟨hrun, -⟩ := frameParse_single (Master.frameDispatch cm now) (Nat.lt_of_le_of_lt hle (by decide))
    ⟨hhead, by omega⟩ hlen t.core
  show (deliver _ t w).2 = _
  rw [deliver, dif_pos hw]
  simp only [Master.step, Master.frameParse, hrun, hslice, hd]
  rfl

/-! ### Frames that make the master report nothing -/

/-- On this message the master reports nothing and sends nothing. -/
def Mute (cm : Master.Conf) (cs : Slave.Conf P) (now : Int) (w : List UInt8) : Prop :=
  ∀ t, ∃ log, ((exchange cm cs now).left t w).2 = ([], log) ∧ ∀ x, Act.serv x ∉ log

/-- An I-frame whose handler neither reports nor sends. -/
theorem quiet_frameIParse {m : Mem} {s : Core} (h : ∀ s', ∃ acts, (Master.asduParse cm s' 0).run m = (s', acts) ∧
    ∀ a ∈ acts, ∃ n v, a = .setVal n v) :
    wires ((Master.frameIParse cm s 0).run m).2 = [] ∧ ∀ x, Act.serv x ∉ ((Master.frameIParse cm s 0).run m).2 := by
  rw [Master.run_frameIParse]
  split
  · exact ⟨rfl, fun x hx => by simp at hx⟩
  split
  · exact ⟨rfl, fun x hx => by simp at hx⟩
  · obtain ⟨acts, hrun, hacts⟩ := h (Master.dealSn s (Fld.sendSn m 0) (Fld.recvSn m 0))
    rw [hrun]
    have hnone : wires acts = [] := wires_setVals hacts
    refine ⟨hnone, fun x hx => ?_⟩
    rcases List.mem_cons.mp hx with e | hx
    · cases e
    · obtain ⟨n, v, e⟩ := hacts _ hx
      cases e

/-- A confirmation, or a termination with an information address. -/
theorem asduParse_call {stale : Mem} {sn : Sn} {h : AsduHead} {info : List UInt8} (h3 : 3 ≤ info.length)
    (htype : h.type = AsduType.cIcNa1.code) (hno : h.reason % 16384 = Cot.actcon ∨ info.take 3 ≠ [0, 0, 0])
    (s : Core) : (Master.asduParse cm s 0).run (inBuf stale sn h info) = (s, []) := by
  have htype' : AsduType.ofCode (inBuf stale sn h info (0 + 6)) = some .cIcNa1 := by
    rw [Nat.zero_add, type_inBuf, htype]
    rfl
  simp only [Master.asduParse, Rd.run_bind, mem_rdType, run_rdType, htype', Master.asduCallAll, Master.run_asduCall]
  rcases hno with hr | hz
  · rw [reason_inBuf, hr, if_pos rfl, ite_self]
  · refine if_pos fun hzero => hz ?_
    rw [← List.drop_zero (l := info), ← slice_inBuf stale sn h info (a := 0) (n := 3) (by omega)]
    simp only [Nat.zero_add] at hzero
    have he : (inBuf stale sn h info).slice (12 + 0) 3 = [inBuf stale sn h info 12, inBuf stale sn h info 13,
      inBuf stale sn h info 14] := rfl
    rw [he, hzero.1, hzero.2.1, hzero.2.2]

theorem mute_call {sn : Sn} {h : AsduHead} {info : List UInt8} (hle : 12 + info.length ≤ 255) (h3 : 3 ≤ info.length)
    (htype : h.type = AsduType.cIcNa1.code)
    (hno : h.reason % 16384 = Cot.actcon ∨ info.take 3 ≠ [0, 0, 0]) : Mute cm cs now (mkI sn h info).wire := by
  intro t
  have hquiet := @quiet_frameIParse cm (inBuf t.recvBuf sn h info) t.core fun s' =>
    ⟨[], asduParse_call h3 htype hno s', fun a ha => by cases ha⟩
  have hrecv := master_recv cm cs now sn h hle t
  rw [hquiet.1] at hrecv
  refine ⟨_, congrArg Prod.snd hrecv, fun x hx => ?_⟩
  rcases List.mem_cons.mp hx with e | hx
  · cases e
  · exact hquiet.2 x hx

/-- An I-frame, also one that overran the length octet. -/
theorem left_mkI (t : Station) {sn : Sn} {h : AsduHead} {info : List UInt8} (h9 : 9 ≤ (mkI sn h info).wire.length) :
    ((exchange cm cs now).left t (mkI sn h info).wire).2 =
      (wires ((Master.frameIParse cm t.core 0).run (t.recvBuf.fill (mkI sn h info).wire)).2,
        .rx (mkI sn h info).wire ::
          ((Master.frameIParse cm t.core 0).run (t.recvBuf.fill (mkI sn h info).wire)).2) := by
  have hw := length_wire sn h info
  have hin : ∀ i < 9, t.recvBuf.fill (mkI sn h info).wire i = inBuf t.recvBuf sn h info i := fun i hi =>
    fill_wire_lt t.recvBuf sn h info (by omega)
  have hl : (mkI sn h info).wire.length ≤ lenAt (t.recvBuf.fill (mkI sn h info).wire) 0 := by
    have e := lenAt_inBuf t.recvBuf sn h info
    rw [lenAt] at e
    rw [lenAt, hin _ (by decide), e, UInt8.toNat_sub, hw]
    simp only [UInt8.toNat_ofNat', UInt8.reduceToNat]
    omega
  exact left_single t (Nat.le_trans (by decide) h9) (by rw [hw]; omega) (hin 0 (by decide)) hl
    (by rw [hin 2 (by decide)]; exact format_inBuf t.recvBuf sn h info)

/-- A monitored frame, also one that overran the length octet. -/
theorem mute_mon {sn : Sn} {h : AsduHead} {info : List UInt8} {type : AsduType} {f : Master.MonFmt}
    (htype : h.type = type.code) (hf : Master.monFmt type = some f)
    (hlen : (12 + info.length) % 256 < 6 ∨ 9 ≤ (12 + info.length) % 256) : Mute cm cs now (mkI sn h info).wire := by
  intro t
  have hw := length_wire sn h info
  by_cases hshort : (12 + info.length) % 256 < 6
  · exact ⟨[], left_short t (by rw [hw]; exact hshort), fun x hx => by cases hx⟩
  have h9 : 9 ≤ (mkI sn h info).wire.length := by omega
  have hquiet := @quiet_frameIParse cm (t.recvBuf.fill (mkI sn h info).wire) t.core fun s' => by
    have htype' : AsduType.ofCode (t.recvBuf.fill (mkI sn h info).wire (0 + 6)) = some type := by
      rw [Nat.zero_add, fill_wire_lt t.recvBuf sn h info (by omega), type_inBuf, htype, AsduType.ofCode_code]
    refine ⟨_, Master.run_asduParse_mon cm s' 0 _ htype' hf, fun a ha => ?_⟩
    split at ha
    · rw [Master.valCalls] at ha
      split at ha
      · obtain ⟨i, hi, rfl⟩ := List.mem_mapIdx.mp ha
        exact ⟨_, _, rfl⟩
      · cases ha
    · cases ha
  have hleft := @left_mkI P cm cs now t sn h info h9
  rw [hquiet.1] at hleft
  refine ⟨_, hleft, fun x hx => ?_⟩
  rcases List.mem_cons.mp hx with e | hx
  · cases e
  · exact hquiet.2 x hx

/-! ### Answers -/

/-- On this message the slave sends only what the master takes without a word. -/
def Harmless (cm : Master.Conf) (cs : Slave.Conf P) (now : Int) (w : List UInt8) : Prop :=
  ∀ u, ∀ y ∈ ((exchange cm cs now).right u w).2.1, Mute cm cs now y

section Answer

open Slave

theorem sized {k sz : Nat} (h : 15 + k * sz ≤ 255 ∨ sz = 5) (hk : k ≤ nodeNum) :
    (12 + (3 + k * sz)) % 256 < 6 ∨ 9 ≤ (12 + (3 + k * sz)) % 256 := by
  have hn : nodeNum = 50 := rfl
  have hfit : 15 + k * sz ≤ 255 → 9 ≤ (12 + (3 + k * sz)) % 256 := fun hle => by
    rw [Nat.mod_eq_of_lt (by omega)]
    omega
  rcases h with h | rfl
  · exact Or.inr (hfit h)
  · have h50 : k ≤ 48 ∨ k = 49 ∨ k = 50 := by omega
    rcases h50 with h | rfl | rfl
    · exact Or.inr (hfit (by omega))
    · exact Or.inl (by decide)
    · exact Or.inr (by decide)

theorem mute_groupFrame {type : DevNodeInfo → AsduType} {elem : Nat → DevNodeInfo → List UInt8} {reason sz : Nat}
    {list : List DevNodeInfo} (htype : ∀ x, ∃ f, Master.monFmt (type x) = some f)
    (hlen : ∀ i, ∀ x ∈ list, (elem i x).length = sz) (hsz : sz = 1 ∨ sz = 3 ∨ sz = 5) :
    ∀ f ∈ groupFrames cs type elem reason list, ∀ sn, Mute cm cs now (mkI sn f.1 f.2).wire := by
  intro f hf sn
  obtain ⟨first, rest, hch, rfl⟩ := mem_groupFrames cs hf
  obtain ⟨fmt, hfmt⟩ := htype first
  have hk := (length_slice hch).2
  refine @mute_mon P cm cs now sn _ _ (type first) fmt rfl hfmt ?_
  rw [length_groupFrame (fun i x hx => hlen i x (mem_of_mem_slice hch hx))]
  refine sized ?_ hk
  have hn : nodeNum = 50 := rfl
  rcases hsz with rfl | rfl | rfl <;> omega

theorem mute_ack (qoi : UInt8) (sn : Sn) : Mute cm cs now (mkI sn (callAckFrame cs qoi).1 (callAckFrame cs qoi).2).wire :=
  mute_call (show 12 + 4 ≤ 255 by decide) (show 3 ≤ 4 by decide) rfl (Or.inl rfl)

theorem mute_finsh (qoi : UInt8) (sn : Sn) :
    Mute cm cs now (mkI sn (callFinshFrame cs qoi).1 (callFinshFrame cs qoi).2).wire :=
  mute_call (show 12 + 4 ≤ 255 by decide) (show 3 ≤ 4 by decide) rfl
    (Or.inr (show infoAddr callFinshAddr ≠ [0, 0, 0] by decide))

theorem mute_callAll {qoi : UInt8} : ∀ f ∈ callAllFrames cs qoi, ∀ sn, Mute cm cs now (mkI sn f.1 f.2).wire := by
  intro f hf
  simp only [callAllFrames, List.mem_append, List.mem_singleton] at hf
  have hyc : ∀ x : DevNodeInfo, ∃ f, Master.monFmt (if x.type = .float then .mMeNc1 else .mMeNa1) = some f :=
    fun x => by split <;> exact ⟨_, rfl⟩
  rcases hf with (((rfl | hf) | hf) | hf) | rfl
  · exact mute_ack qoi
  · exact mute_groupFrame (fun _ => ⟨_, rfl⟩) (fun i x _ => length_yxElem cs i x) (Or.inl rfl) f hf
  · exact mute_groupFrame hyc (fun i x hx => length_ycElem_norm cs i (cs.nodeList.type_ycN x hx))
      (Or.inr (Or.inl rfl)) f hf
  · exact mute_groupFrame hyc (fun i x hx => length_ycElem_float cs i (cs.nodeList.type_ycF x hx))
      (Or.inr (Or.inr rfl)) f hf
  · exact mute_finsh qoi

theorem mute_callPulse {qcc : UInt8} : ∀ f ∈ callPulseFrames cs qcc, ∀ sn, Mute cm cs now (mkI sn f.1 f.2).wire := by
  intro f hf
  simp only [callPulseFrames, List.mem_append, List.mem_singleton] at hf
  rcases hf with (rfl | hf) | rfl
  · exact mute_ack qcc
  · exact mute_groupFrame (fun _ => ⟨_, rfl⟩) (fun i x _ => length_ymElem cs i x) (Or.inr (Or.inr rfl)) f hf
  · exact mute_finsh qcc

/-- **Whatever the slave answers** to an interrogation is mute. -/
theorem mute_of_mem_answer {m : Mem} {s : Core} {type : AsduType} (ht : AsduType.ofCode (m (0 + 6)) = some type)
    (htype : type = .cIcNa1 ∨ type = .cCiNa1) :
    ∀ y ∈ wires ((frameIParse cs s 0).run m).2, Mute cm cs now y := by
  have hsend : ∀ {frames : List (AsduHead × List UInt8)} {s' : Core},
      (∀ f ∈ frames, ∀ sn, Mute cm cs now (mkI sn f.1 f.2).wire) →
      ∀ y ∈ wires (andThen s' (sendAll frames)).2, Mute cm cs now y := by
    intro frames s' hframes y hy
    obtain ⟨a, ha, hay⟩ := List.mem_filterMap.mp hy
    obtain ⟨f, hf, sn, rfl⟩ := mem_sendAll ha
    cases hl : s'.link with
    | false =>
      rw [hl] at hay
      cases hay
    | true =>
      rw [hl] at hay
      obtain rfl := Option.some.inj hay
      exact hframes f hf sn
  intro y hy
  rw [run_frameIParse] at hy
  split at hy
  · cases hy
  · have hy' : y ∈ wires ((asduParse cs (dealSn s (Fld.sendSn m 0) (Fld.recvSn m 0)) 0).run m).2 := hy
    rcases htype with rfl | rfl
    · simp only [asduParse, Rd.run_bind, mem_rdType, run_rdType, ht, run_asduCallAll] at hy'
      split at hy'
      · exact hsend mute_callAll y hy'
      · cases hy'
    · simp only [asduParse, Rd.run_bind, mem_rdType, run_rdType, ht, run_asduCallPulse] at hy'
      split at hy'
      · exact hsend mute_callPulse y hy'
      · cases hy'

/-- **A call frame is harmless**. -/
theorem harmless_call {sn : Sn} {type : AsduType} {q : UInt8} (htype : type = .cIcNa1 ∨ type = .cCiNa1) :
    Harmless cm cs now (mkI sn ⟨type.code, false, 1, Cot.act, cm.asduAddr⟩ (infoAddr 0 ++ [q])).wire := by
  intro u
  have hle : 12 + (infoAddr 0 ++ [q]).length ≤ 255 := show 12 + 4 ≤ 255 by decide
  rw [slave_recv cm cs now sn _ hle u]
  refine mute_of_mem_answer ?_ htype
  rw [Nat.zero_add, type_inBuf, AsduType.ofCode_code]

end Answer

/-! ### The exchange -/

/-- The invariant of an interrogation. -/
structure CallSilent (cm : Master.Conf) (cs : Slave.Conf P) (now : Int)
    (d : Duplex.Config Station Station (List UInt8) Act Act) : Prop where
  toR : ∀ x ∈ d.toR, Harmless cm cs now x
  toL : ∀ x ∈ d.toL, Mute cm cs now x
  quiet : ∀ x, Act.serv x ∉ d.logL

theorem callSilent_step {a b : Duplex.Config Station Station (List UInt8) Act Act} (ha : CallSilent cm cs now a)
    (h : (exchange cm cs now).Step a b) : CallSilent cm cs now b := by
  cases h with
  | @toLeft l r x q toR logL logR =>
    obtain ⟨log, hlog, hquiet⟩ := ha.toL x (by simp) l
    have hmsg : ((exchange cm cs now).left l x).2.1 = [] := congrArg Prod.fst hlog
    have hacts : ((exchange cm cs now).left l x).2.2 = log := congrArg Prod.snd hlog
    rw [hmsg, hacts]
    refine ⟨by simpa using ha.toR, fun y hy => ha.toL y (by simp [hy]), fun y hy => ?_⟩
    rcases List.mem_append.mp hy with h1 | h2
    · exact ha.quiet y h1
    · exact hquiet y h2
  | @toRight l r toL x q logL logR =>
    have hx := ha.toR x (by simp) r
    refine ⟨fun y hy => ha.toR y (by simp [hy]), fun y hy => ?_, ha.quiet⟩
    rcases List.mem_append.mp hy with h1 | h2
    · exact ha.toL y h1
    · exact hx y h2

/-- **No interrogation is reported.** -/
theorem call_silent {ev : Master.Event} (hev : ev = .callAll ∨ ev = .callPulse) {t u : Station}
    {d : Duplex.Config Station Station (List UInt8) Act Act}
    (hd : (exchange cm cs now).Settles (opened (Master.step cm t ev) u) d) (x : Service) :
    d.logL.count (.serv x) = 0 := by
  have hcall : ∀ (type : AsduType) (q : UInt8), (type = .cIcNa1 ∨ type = .cCiNa1) →
      CallSilent cm cs now (opened (t.call (Master.buildCall cm type q)) u) := by
    intro type q htype
    rw [Station.call, Master.buildCall]
    split
    · exact ⟨fun y hy => (by cases hy), fun y hy => (by cases hy), fun y hy => (by cases hy)⟩
    · refine ⟨fun y hy => ?_, fun y hy => (by cases hy), fun y hy => by simp [sendI, opened] at hy⟩
      cases hup : t.core.link with
      | false =>
        simp only [sendI, opened, hup] at hy
        cases hy
      | true =>
        simp only [sendI, opened, hup] at hy
        obtain rfl := List.mem_singleton.mp hy
        exact harmless_call htype
  have h0 : CallSilent cm cs now (opened (Master.step cm t ev) u) := by
    rcases hev with rfl | rfl
    · exact hcall .cIcNa1 _ (Or.inl rfl)
    · exact hcall .cCiNa1 _ (Or.inr rfl)
  exact List.count_eq_zero.mpr ((Duplex.Settles.invariant (fun _ _ => callSilent_step) hd h0).quiet x)

/-- **An interrogation ends in success**: the exchange behind the call comes to an end, with one report of
success, none of failure, and both machines idle. -/
def CallEnds (cm : Master.Conf) (cs : Slave.Conf P) (now : Int) (ev : Master.Event) (success faild : Service)
    (idle : Iec10xState → Prop) (t u : Station) : Prop :=
  ∃ d, (exchange cm cs now).Settles (opened (Master.step cm t ev) u) d ∧
    d.logL.count (.serv success) = 1 ∧ d.logL.count (.serv faild) = 0 ∧ idle d.l.core.stat ∧ idle d.r.core.stat

/-- A general interrogation. -/
def CallAllEnds (cm : Master.Conf) (cs : Slave.Conf P) (now : Int) : Station → Station → Prop :=
  CallEnds cm cs now .callAll .callAllSuccess .callAllFaild fun stat => stat.callall = .callAllIdle

/-- A counter interrogation. -/
def CallPulseEnds (cm : Master.Conf) (cs : Slave.Conf P) (now : Int) : Station → Station → Prop :=
  CallEnds cm cs now .callPulse .callPulseSuccess .callPulseFaild fun stat => stat.callpulse = .callPulseIdle

/-- **Neither interrogation ever ends in success**, for any node table, any values and any state. -/
theorem call_never_ends (cm : Master.Conf) (cs : Slave.Conf P) (now : Int) (t u : Station) :
    ¬ CallAllEnds cm cs now t u ∧ ¬ CallPulseEnds cm cs now t u := by
  refine ⟨?_, ?_⟩
  · rintro ⟨d, hd, hone, -⟩
    rw [call_silent (Or.inl rfl) hd] at hone
    exact absurd hone (by decide)
  · rintro ⟨d, hd, hone, -⟩
    rw [call_silent (Or.inr rfl) hd] at hone
    exact absurd hone (by decide)

/-- Not even that of an empty table. -/
theorem not_callAllEnds_empty : ¬ CallAllEnds Master.sampleConf
    { Slave.sampleConf with getValCb := some fun _ _ => none } 0 Master.sample Slave.sample := by
  rintro ⟨d, hd, hone, -⟩
  rw [call_silent (Or.inl rfl) hd] at hone
  exact absurd hone (by decide)

end Wow.Iec104
