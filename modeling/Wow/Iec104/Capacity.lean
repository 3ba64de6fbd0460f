import Mathlib.Algebra.Order.Ring.Nat
import Wow.Iec104.Contracts
import Wow.Iec104.Interrogation

/-!
# Wow.Iec104.Capacity — which frames of the slave fit their buffer

A builder writes into 256 octets and keeps the length in one octet.  `Fits` says that neither gives out;
`fits_mkI` that this is one inequality.  `Roomy` collects the inequalities of an event: the group size is the
same for elements of one octet and of five, and the answer to a command is as long as its object count asks.

* `allFit_frameDispatch`: one received frame.
* `fits_iff`: a whole run.
-/

namespace Wow.Iec104

open Iec10x

/-- A frame inside its buffer, with the length octet that belongs to what is sent. -/
def Fits (f : SendBuf) : Prop :=
  f.buf.length ≤ maxBufLen ∧ ∃ l ∈ f.buf[1]?, l.toNat + 2 = f.len ∧ l ≤ 253

/-- Every frame of a trace. -/
def FitAct : Act → Prop
  | .send f _ => Fits f
  | _ => True

/-- The length of a frame decides. -/
theorem fits_mkFrame (ctrl asdu : List UInt8) : Fits (mkFrame ctrl asdu) ↔ 2 + ctrl.length + asdu.length ≤ 255 := by
  have hl : (mkFrame ctrl asdu).buf[1]? = some (UInt8.ofNat (2 + ctrl.length + asdu.length) - 2) := rfl
  have hlen : (mkFrame ctrl asdu).len = (2 + ctrl.length + asdu.length) % 256 := rfl
  have hbuf : (mkFrame ctrl asdu).buf.length = 2 + ctrl.length + asdu.length := by
    simp only [mkFrame, List.length_cons, List.length_append]
    omega
  have hoct : (UInt8.ofNat (2 + ctrl.length + asdu.length) - 2).toNat =
      (256 - 2 + (2 + ctrl.length + asdu.length) % 256) % 256 := by
    rw [UInt8.toNat_sub]
    rfl
  have hm : maxBufLen = 256 := rfl
  have hle : (UInt8.ofNat (2 + ctrl.length + asdu.length) - 2 ≤ 253) ↔
      (UInt8.ofNat (2 + ctrl.length + asdu.length) - 2).toNat ≤ 253 := Iff.rfl
  simp only [Fits, hl, hlen, hbuf, hm, Option.mem_some_iff, exists_eq_left', hle, hoct]
  omega

theorem fits_mkI (sn : Sn) (h : AsduHead) (info : List UInt8) : Fits (mkI sn h info) ↔ 12 + info.length ≤ 255 := by
  have hlen : 2 + (ctrlI sn.buildSend sn.buildRecv).length + (h.octets ++ info).length = 12 + info.length := by
    rw [List.length_append, AsduHead.length_octets]
    simp only [ctrlI, sn15, List.cons_append, List.nil_append, List.length_cons, List.length_nil]
    omega
  rw [mkI, fits_mkFrame, hlen]

theorem allFit_sendI (h : AsduHead) (info : List UInt8) (s : Core) :
    (∀ a ∈ (sendI h info s).2, FitAct a) ↔ 12 + info.length ≤ 255 := by
  rw [← fits_mkI s.sn h info, sendI]
  exact List.forall_mem_singleton

/-- A list of frames. -/
theorem allFit_sendAll (frames : List (AsduHead × List UInt8)) (s : Core) :
    (∀ a ∈ (andThen s (sendAll frames)).2, FitAct a) ↔ ∀ f ∈ frames, 12 + f.2.length ≤ 255 := by
  constructor
  · intro h f hf
    obtain ⟨sn, hsn⟩ := exists_send_of_mem hf s
    exact (fits_mkI sn f.1 f.2).mp (h _ hsn)
  · intro h a ha
    obtain ⟨f, hf, sn, rfl⟩ := mem_sendAll ha
    exact (fits_mkI sn f.1 f.2).mpr (h f hf)

/-! ### Frames without ASDU -/

/-- The contract of the calls that build no ASDU: whatever they send fits. -/
abbrev fitting : Contract Core Unit Act := .always FitAct

theorem fitting_linkKept : LinkKept fitting :=
  linkKept_always (fun ctrl _ h => (fits_mkFrame ctrl []).mpr (by rw [h]; decide)) (fun _ => trivial) trivial

namespace Slave

variable {P : Type} (c : Conf P)

theorem fitting_reset : fitting.Keeps resetParam := Contract.keeps_always.mpr fun s a ha => by
  obtain rfl := List.mem_singleton.mp ha
  trivial

theorem fitting_kept : Kept c fitting where
  toLinkKept := fitting_linkKept
  reset := fitting_reset
  accept := by
    have hclose : fitting.Keeps fun s => if s.link then linkClose s else (s, []) :=
      Contract.keeps_ite fitting_linkKept.close Contract.keeps_skip
    have hconn : fitting.Keeps fun s => ({ s with link := true }, [.conn]) := Contract.keeps_always.mpr fun s a ha => by
      obtain rfl := List.mem_singleton.mp ha
      trivial
    exact keeps_andThen (by simpa using ⟨hclose, fitting_reset, hconn⟩)
  connected now := by
    have hinit : fitting.Keeps (buildInitFinsh c) :=
      Contract.keeps_always.mpr fun s => (allFit_sendI _ _ s).mpr (show 12 + 4 ≤ 255 by decide)
    have hset : fitting.Keeps (setInit .linkIdle) := Contract.keeps_always.mpr fun s a ha => by cases ha
    have hcalls : fitting.Keeps fun s => andThen s [buildUAck UFunc.startdt, buildInitFinsh c, setInit .linkIdle,
        setTimer now, serv c.servCb .connected] :=
      keeps_andThen (by simpa using
        ⟨fitting_linkKept.uAck _, hinit, hset, fitting_linkKept.setTimer now, fitting_linkKept.serv _ _⟩)
    refine Contract.keeps_always.mpr fun s => ?_
    by_cases hi : s.stat.init = .linkConnectOk
    · rw [if_pos hi]
      simp only [linkMachine, hi]
      exact Contract.keeps_always.mp hcalls s
    · rw [if_neg hi]
      exact fun a ha => by cases ha

/-! ### Interrogations -/

theorem groupFrames_fit (type : DevNodeInfo → AsduType) {elem : Nat → DevNodeInfo → List UInt8} (reason : Nat)
    (list : List DevNodeInfo) {sz : Nat} (hlen : ∀ i, ∀ x ∈ list, (elem i x).length = sz) :
    (∀ f ∈ groupFrames c type elem reason list, 12 + f.2.length ≤ 255) ↔
      ∀ ch ∈ slices list, 15 + ch.length * sz ≤ 255 := by
  have hframe : ∀ first rest, first :: rest ∈ slices list →
      (encSeq first.addr ((first :: rest).mapIdx elem)).length = 3 + (first :: rest).length * sz :=
    fun first rest hch => length_groupFrame (fun i x hx => hlen i x (mem_of_mem_slice hch hx)) _
  constructor
  · intro h ch hch
    cases ch with
    | nil => exact absurd (length_slice hch).1 (by decide)
    | cons first rest =>
      have hf := h _ (List.mem_filterMap.mpr ⟨_, hch, rfl⟩)
      rw [hframe first rest hch] at hf
      omega
  · intro h f hf
    obtain ⟨first, rest, hch, rfl⟩ := mem_groupFrames c hf
    rw [hframe first rest hch]
    have := h _ hch
    omega

/-- Elements of at most four octets always fit. -/
theorem slices_fit {list : List DevNodeInfo} {sz : Nat} (hsz : sz ≤ 4) : ∀ ch ∈ slices list,
    15 + ch.length * sz ≤ 255 := by
  intro ch hch
  have hn : ch.length ≤ 50 := (length_slice hch).2
  have hle : ch.length * sz ≤ 50 * 4 := Nat.mul_le_mul hn hsz
  omega

/-- Elements of five octets fit up to forty-eight of them. -/
theorem slices_fit_iff {list : List DevNodeInfo} :
    (∀ ch ∈ slices list, 15 + ch.length * 5 ≤ 255) ↔ list.length ≤ 48 := by
  rw [← slices_le_iff (k := 48) (by decide)]
  refine forall_congr' fun ch => forall_congr' fun _ => ?_
  omega

theorem callAllFrames_fit (qoi : UInt8) : (∀ f ∈ callAllFrames c qoi, 12 + f.2.length ≤ 255) ↔
    c.nodeList.ycF.length ≤ 48 := by
  have hyx := groupFrames_fit c (fun _ => .mSpNa1) qoi.toNat c.nodeList.yx
    fun i x _ => length_yxElem c i x
  have hycN := groupFrames_fit c (fun x => if x.type = .float then .mMeNc1 else .mMeNa1) qoi.toNat c.nodeList.ycN
    fun i x hx => length_ycElem_norm c i (c.nodeList.type_ycN x hx)
  have hycF := groupFrames_fit c (fun x => if x.type = .float then .mMeNc1 else .mMeNa1) qoi.toNat c.nodeList.ycF
    fun i x hx => length_ycElem_float c i (c.nodeList.type_ycF x hx)
  have hack : 12 + (callAckFrame c qoi).2.length ≤ 255 := show 12 + 4 ≤ 255 by decide
  have hfin : 12 + (callFinshFrame c qoi).2.length ≤ 255 := show 12 + 4 ≤ 255 by decide
  rw [← slices_fit_iff, ← hycF]
  simp only [callAllFrames, yxFrames, ycFrames, List.forall_mem_append, List.forall_mem_singleton, hyx, hycN]
  constructor
  · exact fun h => h.1.2
  · exact fun h => ⟨⟨⟨⟨hack, slices_fit (by decide)⟩, slices_fit (by decide)⟩, h⟩, hfin⟩

theorem callPulseFrames_fit (qcc : UInt8) : (∀ f ∈ callPulseFrames c qcc, 12 + f.2.length ≤ 255) ↔
    c.nodeList.ym.length ≤ 48 := by
  have hym := groupFrames_fit c (fun _ => .mItNa1) Cot.reqcogen c.nodeList.ym
    fun i x _ => length_ymElem c i x
  have hack : 12 + (callAckFrame c qcc).2.length ≤ 255 := show 12 + 4 ≤ 255 by decide
  have hfin : 12 + (callFinshFrame c qcc).2.length ≤ 255 := show 12 + 4 ≤ 255 by decide
  rw [← slices_fit_iff, ← hym]
  simp only [callPulseFrames, ymFrames, List.forall_mem_append, List.forall_mem_singleton]
  constructor
  · exact fun h => h.1.2
  · exact fun h => ⟨⟨hack, h⟩, hfin⟩

/-! ### One received frame -/

section Frame

variable (m : Mem) (p : Nat)

/-- What the frame at `p` asks for fits: in the answer to an interrogation at most forty-eight floating point or
counter values, in the confirmation of a command its objects. -/
def RoomyFrame : Prop :=
  (m (p + 2)).toNat % 2 = 0 → c.asduAddr = m.u16 (p + 10) →
    match AsduType.ofCode (m (p + 6)) with
    | some .cIcNa1 =>
      Answers c p m (decide ((m (p + 15)).toNat = Cot.introgen)) → c.nodeList.ycF.length ≤ 48
    | some .cCiNa1 =>
      Answers c p m (decide ((m (p + 15)).toNat % 64 = 5)) → c.nodeList.ym.length ≤ 48
    | some t => ∀ fmt, cmdFmt t = some fmt → 12 + objsLen (Fld.num m p) (Fld.sq m p) fmt.size ≤ 255
    | none => True

variable {m p}

theorem allFit_nil : (∀ a ∈ ([] : List Act), FitAct a) ↔ True := iff_of_true (fun a ha => by cases ha) trivial

theorem fitting_asduClock (s : Core) : ∀ a ∈ ((asduClock s p).run m).2, FitAct a := by
  rw [run_asduClock]
  split
  · intro a ha
    obtain rfl := List.mem_singleton.mp ha
    trivial
  · exact fun a ha => by cases ha

/-- A command: applying it sends nothing, confirming it takes as much room as it has objects. -/
theorem allFit_cmd {t : AsduType} {fmt : CmdFmt} (ht : AsduType.ofCode (m (p + 6)) = some t)
    (hf : cmdFmt t = some fmt) (s : Core) : (∀ a ∈ ((asduParse c s p).run m).2, FitAct a) ↔
      12 + objsLen (Fld.num m p) (Fld.sq m p) fmt.size ≤ 255 := by
  rw [run_asduParse_cmd c s p m ht hf]
  have happly : ∀ a ∈ cmdActs c p m fmt, FitAct a := by
    intro a ha
    rw [cmdActs] at ha
    split at ha
    · cases ha
    · obtain ⟨n, v, rfl⟩ := setVal_of_mem_applyObjs c a ha
      trivial
  have hcon := allFit_sendI ⟨m (p + 6), Fld.sq m p, Fld.num m p, Cot.actcon, c.asduAddr⟩
    (m.slice (p + 12) (objsLen (Fld.num m p) (Fld.sq m p) fmt.size)) s
  rw [Mem.length_slice] at hcon
  rw [List.forall_mem_append, ← hcon]
  exact ⟨fun h => h.2, fun h => ⟨happly, h⟩⟩

/-- **One I-frame** for this station. -/
theorem allFit_asduParse (s : Core) (hI : (m (p + 2)).toNat % 2 = 0) (ha : c.asduAddr = m.u16 (p + 10)) :
    (∀ a ∈ ((asduParse c s p).run m).2, FitAct a) ↔ RoomyFrame c m p := by
  have hroomy : RoomyFrame c m p ↔ match AsduType.ofCode (m (p + 6)) with
      | some .cIcNa1 =>
        Answers c p m (decide ((m (p + 15)).toNat = Cot.introgen)) → c.nodeList.ycF.length ≤ 48
      | some .cCiNa1 =>
        Answers c p m (decide ((m (p + 15)).toNat % 64 = 5)) → c.nodeList.ym.length ≤ 48
      | some t => ∀ fmt, cmdFmt t = some fmt → 12 + objsLen (Fld.num m p) (Fld.sq m p) fmt.size ≤ 255
      | none => True := ⟨fun h => h hI ha, fun h _ _ => h⟩
  have hcmd : ∀ {t : AsduType} {fmt : CmdFmt}, AsduType.ofCode (m (p + 6)) = some t → cmdFmt t = some fmt →
      ((∀ a ∈ ((asduParse c s p).run m).2, FitAct a) ↔ ∀ fmt', cmdFmt t = some fmt' →
        12 + objsLen (Fld.num m p) (Fld.sq m p) fmt'.size ≤ 255) := by
    intro t fmt ht hf
    rw [allFit_cmd c ht hf, hf]
    exact ⟨fun h fmt' e => Option.some.inj e ▸ h, fun h => h fmt rfl⟩
  rw [hroomy]
  cases ht : AsduType.ofCode (m (p + 6)) with
  | none =>
    simp only [asduParse, Rd.run_bind, run_rdType, mem_rdType, ht, Rd.run_pure]
    exact allFit_nil
  | some t =>
    cases t with
    | cScNa1 | cDcNa1 | cSeNa1 | cSeNc1 => exact hcmd ht rfl
    | cIcNa1 =>
      simp only [asduParse, Rd.run_bind, run_rdType, mem_rdType, ht, run_asduCallAll]
      split
      · rename_i hans
        rw [allFit_sendAll, callAllFrames_fit]
        exact ⟨fun h _ => h, fun h => h hans⟩
      · rename_i hans
        exact iff_of_true (fun a ha => by cases ha) (fun h => absurd h hans)
    | cCiNa1 =>
      simp only [asduParse, Rd.run_bind, run_rdType, mem_rdType, ht, run_asduCallPulse]
      split
      · rename_i hans
        rw [allFit_sendAll, callPulseFrames_fit]
        exact ⟨fun h _ => h, fun h => h hans⟩
      · rename_i hans
        exact iff_of_true (fun a ha => by cases ha) (fun h => absurd h hans)
    | cCsNa1 =>
      refine iff_of_true ?_ (fun fmt h => by cases h)
      simp only [asduParse, Rd.run_bind, run_rdType, mem_rdType, ht, Rd.run_pure, List.forall_mem_append]
      exact ⟨fitting_asduClock s, Contract.keeps_always.mp fitting_linkKept.sAck _⟩
    | _ =>
      refine iff_of_true ?_ (fun fmt h => by cases h)
      simp only [asduParse, Rd.run_bind, run_rdType, mem_rdType, ht, Rd.run_pure]
      exact fun a ha => by cases ha

/-- **One dispatch.** -/
theorem allFit_frameDispatch (s : Core) (l : Nat) :
    (∀ a ∈ ((frameDispatch c s p l).run m).2, FitAct a) ↔ RoomyFrame c m p := by
  by_cases hI : (m (p + 2)).toNat % 2 = 0
  · have hd : (frameDispatch c s p l).run m = (frameIParse c s p).run m := by simp [frameDispatch, hI]
    rw [hd, run_frameIParse]
    by_cases ha : c.asduAddr = m.u16 (p + 10)
    · rw [if_neg (not_not.mpr ha), List.forall_mem_cons, allFit_asduParse c _ hI ha]
      exact ⟨fun h => h.2, fun h => ⟨trivial, h⟩⟩
    · rw [if_pos ha]
      refine iff_of_true (fun a h => ?_) (fun _ h => absurd h ha)
      obtain rfl := List.mem_singleton.mp h
      trivial
  · refine iff_of_true ?_ (fun h => absurd h hI)
    by_cases hS : (m (p + 2)).toNat % 4 = 1
    · simp [frameDispatch, hI, hS]
    · have hd : (frameDispatch c s p l).run m = (frameUParse s p).run m := by simp [frameDispatch, hI, hS]
      rw [hd]
      have hset : fitting.Keeps (setInit .linkConnectOk) := Contract.keeps_always.mpr fun s a ha => by cases ha
      exact Contract.keeps_always.mp (keeps_frameUParse fitting_linkKept hset) s

end Frame

/-! ### Spontaneous reports -/

/-- The octets of an object of `wow_iec104_s_build_yx_spon`. -/
def yxSponSize (x : DevNodeCtrl) : Nat := 4 + if x.value.year > 0 then 7 else 0

/-- The octets of an object of `wow_iec104_s_build_yc_spon`. -/
def ycSponSize (first : DevNodeCtrl) : Nat :=
  4 + (if first.info.type = .float then 4 else 2) + if first.value.year > 0 then 7 else 0

theorem length_yxSponObj (x : DevNodeCtrl) : (yxSponObj x).length = yxSponSize x := by
  by_cases hy : x.value.year > 0 <;> simp [yxSponObj, yxSponSize, timeTag, hy]

theorem length_ycSponObj (first x : DevNodeCtrl) : (ycSponObj first x).length = ycSponSize first := by
  by_cases hy : first.value.year > 0 <;> by_cases ht : first.info.type = .float <;>
    simp [ycSponObj, ycSponSize, timeTag, hy, ht]

/-- What a report asks for fits. -/
theorem allFit_buildYxSpon (nodes : NodeArr) (s : Core) : (∀ a ∈ (buildYxSpon c nodes s).2, FitAct a) ↔
    (s.stat.init = .linkIdle → 12 + (nodes.val.map yxSponSize).sum ≤ 255) := by
  have hlen : (nodes.val.flatMap yxSponObj).length = (nodes.val.map yxSponSize).sum := by
    rw [List.length_flatMap]
    exact congrArg List.sum (List.map_congr_left fun x _ => length_yxSponObj x)
  cases hl : nodes.val with
  | nil =>
    simp only [buildYxSpon, hl]
    exact iff_of_true (fun a ha => by cases ha) (fun _ => by decide)
  | cons first rest =>
    by_cases hi : s.stat.init = .linkIdle
    · simp only [buildYxSpon, hl, hi, ne_eq, not_true_eq_false, if_false, allFit_sendI, true_imp_iff]
      rw [← hl, hlen]
    · simp only [buildYxSpon, hl, hi, ne_eq, not_false_eq_true, if_true, false_imp_iff]
      exact allFit_nil

theorem allFit_buildYcSpon (nodes : NodeArr) (s : Core) : (∀ a ∈ (buildYcSpon c nodes s).2, FitAct a) ↔
    (s.stat.init = .linkIdle → ∀ first ∈ nodes.val.head?, 12 + nodes.val.length * ycSponSize first ≤ 255) := by
  cases hl : nodes.val with
  | nil =>
    simp only [buildYcSpon, hl]
    exact iff_of_true (fun a ha => by cases ha) (fun _ first h => by cases h)
  | cons first rest =>
    have hlen : ((first :: rest).flatMap (ycSponObj first)).length = (first :: rest).length * ycSponSize first :=
      length_flatMap_of_const _ fun x _ => length_ycSponObj first x
    by_cases hi : s.stat.init = .linkIdle
    · simp only [buildYcSpon, hl, hi, ne_eq, not_true_eq_false, if_false, allFit_sendI, hlen, true_imp_iff,
        List.head?_cons, Option.mem_some_iff, forall_eq']
    · simp only [buildYcSpon, hl, hi, ne_eq, not_false_eq_true, if_true, false_imp_iff]
      exact allFit_nil

/-! ### Whole runs -/

/-- What an event asks for fits. -/
def Roomy (t : Station) : Event → Prop
  | .recv chunk => ∀ f ∈ frames (t.recvBuf.fill chunk.octets) chunk.octets.length,
      RoomyFrame c (t.recvBuf.fill chunk.octets) f.1
  | .yxSpon nodes => t.core.stat.init = .linkIdle → 12 + (nodes.val.map yxSponSize).sum ≤ 255
  | .ycSpon nodes => t.core.stat.init = .linkIdle →
      ∀ first ∈ nodes.val.head?, 12 + nodes.val.length * ycSponSize first ≤ 255
  | .machine _ _ | .accept | .lost => True

/-- **One event.** -/
theorem allFit_step (t : Station) (e : Event) : (∀ a ∈ (step c t e).2, FitAct a) ↔ Roomy c t e := by
  cases e with
  | recv chunk =>
    rw [step_recv]
    have hserve : ∀ (s : Core) (f : Nat × Nat),
        (∀ a ∈ (serve (frameDispatch c) (t.recvBuf.fill chunk.octets) chunk.octets.length s f).2, FitAct a) ↔
          RoomyFrame c (t.recvBuf.fill chunk.octets) f.1 := fun s f => by
      rw [serve, List.forall_mem_cons, allFit_frameDispatch]
      exact ⟨fun h => h.2, fun h => ⟨trivial, h⟩⟩
    exact (forall_mem_run_iff hserve _ _).trans (along_iff_forall _ _)
  | machine now now' => exact iff_of_true (Contract.keeps_always.mp (keeps_stateMachine (fitting_kept c) now now') _) trivial
  | accept => exact iff_of_true (Contract.keeps_always.mp (fitting_kept c).accept _) trivial
  | lost =>
    refine iff_of_true (fun a ha => ?_) trivial
    obtain rfl := List.mem_singleton.mp ha
    trivial
  | yxSpon nodes => exact allFit_buildYxSpon c nodes t.core
  | ycSpon nodes => exact allFit_buildYcSpon c nodes t.core

/-- **The capacity of the send buffer**, over a whole run: every frame fits exactly when every event is met
with room for what it asks. -/
theorem fits_iff (t : Station) (events : List Event) :
    (∀ f up, Act.send f up ∈ (run (step c) t events).2 → Fits f) ↔ Along (step c) (Roomy c) t events := by
  rw [← forall_mem_run_iff (allFit_step c)]
  constructor
  · intro h a ha
    cases a with
    | send f up => exact h f up ha
    | _ => trivial
  · exact fun h f up hf => h _ hf

/-- A spontaneous report of sixty-one values without time tags. -/
def sampleReport : NodeArr :=
  ⟨List.replicate 61 ⟨⟨.yx, 1, .sint8⟩, ⟨.replicate 8 1, .replicate 7 0⟩⟩, by decide⟩

/-- It is one octet too long. -/
theorem not_fits_report :
    ¬ ∀ f up, Act.send f up ∈ (run (step sampleConf) sample [.yxSpon sampleReport]).2 → Fits f := by
  intro h
  have hall : ∀ a ∈ (run (step sampleConf) sample [.yxSpon sampleReport]).2, FitAct a := by
    intro a ha
    cases a with
    | send f up => exact h f up ha
    | _ => trivial
  have hroom := ((forall_mem_run_iff (allFit_step sampleConf) _ _).mp hall).1 rfl
  exact absurd hroom (by decide)

end Slave

end Wow.Iec104
