import Wow.Iec104.Contracts
import Wow.Iec104.Interrogation

/-!
# Wow.Iec104.Gating — data transfer before its activation

The monitor `startedNext` follows the activations and deactivations of data transfer on the current connection.
The spontaneous reports and the end of initialisation ask for a state of the link that only an activation
sets; the I-frame handlers ask for none.

* `gates`: the state of the link is right as long as the connection stands.
* `gated`: a run is gated when every I-frame that the slave acts on arrives started.
-/

namespace Wow.Iec104.Slave

open Iec10x

/-! ### The monitor -/

/-- Data transfer is started on the current connection. -/
def startedNext (g : Bool) : Act → Bool
  | .rx apdu =>
    if apdu[2]? = some UFunc.startdt then true
    else if apdu[2]? = some UFunc.stopdt then false
    else g
  | .conn | .lost | .close => false
  | _ => g

/-- An I-frame that reaches the peer, and a value callback, need it. -/
def Gated (g : Bool) : Act → Prop
  | .send f true => (∃ b ∈ f.buf[2]?, b.toNat % 2 = 0) → g = true
  | .setVal _ _ => g = true
  | _ => True

instance (g : Bool) : ∀ a, Decidable (Gated g a)
  | .send f true => inferInstanceAs (Decidable ((∃ b ∈ f.buf[2]?, b.toNat % 2 = 0) → g = true))
  | .setVal _ _ => inferInstanceAs (Decidable (g = true))
  | .send _ false | .rx _ | .conn | .lost | .reset | .checked .. | .req .. | .serv _ | .setTime _ | .close =>
    inferInstanceAs (Decidable True)

/-- The contract: behind a link that is up, these two states are reached by an activation only. -/
def gating : Contract Core Bool Act where
  next := startedNext
  assume := fun _ _ => True
  promise := Gated
  inv := fun s g => s.stat.init = .linkConnectOk ∨ s.stat.init = .linkIdle → s.link = true → g = true

theorem gated_true (a : Act) : Gated true a := by
  cases a with
  | send f up => cases up <;> simp [Gated]
  | setVal n v => rfl
  | _ => trivial

/-- A call whose actions the monitor does not follow, and that leaves the state of the link. -/
theorem gating_of_stay {f : Cmd} (hstat : ∀ s, (f s).1.stat.init = s.stat.init) (hlink : ∀ s, (f s).1.link = s.link)
    (ha : ∀ s, ∀ a ∈ (f s).2, ∀ g, startedNext g a = g ∧ Gated g a) : gating.Keeps f := by
  refine Contract.keeps_of_stay fun s g hI => ⟨?_, fun a h => ha s a h g⟩
  intro hi hl
  rw [hstat] at hi
  rw [hlink] at hl
  exact hI hi hl

theorem gating_sendCtrl {ctrl : Core → List UInt8} (h : ∀ s, ∀ b ∈ (ctrl s).head?, b.toNat % 2 = 1)
    (hne : ∀ s, ctrl s ≠ []) : gating.Keeps (sendCtrl ctrl) := by
  refine gating_of_stay (fun _ => rfl) (fun _ => rfl) fun s a ha g => ?_
  obtain rfl := List.mem_singleton.mp ha
  refine ⟨rfl, ?_⟩
  obtain ⟨b, l, hb⟩ := List.exists_cons_of_ne_nil (hne s)
  have hodd := h s b (by rw [hb]; rfl)
  cases s.link with
  | false => trivial
  | true =>
    rintro ⟨b', hb', heven⟩
    rw [hb] at hb'
    obtain rfl : b = b' := Option.some.inj hb'
    omega

theorem gating_linkKept : LinkKept gating where
  uAck t := by
    unfold buildUAck
    split_ifs
    · exact gating_sendCtrl (fun s => by simp [ctrlU, UFunc.startdtAck]) fun s => List.cons_ne_nil _ _
    · exact gating_sendCtrl (fun s => by simp [ctrlU, UFunc.stopdtAck]) fun s => List.cons_ne_nil _ _
    · exact gating_sendCtrl (fun s => by simp [ctrlU, UFunc.testerAck]) fun s => List.cons_ne_nil _ _
    · exact Contract.keeps_skip
  u t := by
    unfold buildU
    split_ifs
    · exact gating_sendCtrl (fun s => by simp [ctrlU, UFunc.startdt]) fun s => List.cons_ne_nil _ _
    · exact gating_sendCtrl (fun s => by simp [ctrlU, UFunc.tester]) fun s => List.cons_ne_nil _ _
    · exact gating_sendCtrl (fun s => by simp [ctrlU, UFunc.tester]) fun s => List.cons_ne_nil _ _
    · exact Contract.keeps_skip
  sAck := gating_sendCtrl (fun s => by simp [ctrlS]) fun s => List.cons_ne_nil _ _
  serv cb x := gating_of_stay (fun _ => rfl) (fun _ => rfl) fun s a ha g => by
    cases cb with
    | true =>
      obtain rfl := List.mem_singleton.mp ha
      exact ⟨rfl, trivial⟩
    | false => cases ha
  setTest x := gating_of_stay (fun _ => rfl) (fun _ => rfl) fun s a ha g => by cases ha
  time f := gating_of_stay (fun _ => rfl) (fun _ => rfl) fun s a ha g => by cases ha
  close s g _ _ := ⟨⟨trivial, trivial⟩, fun _ h => by cases h⟩
  setDown x hok hidle s g _ _ := ⟨trivial, fun h _ => absurd h (not_or.mpr ⟨hok, hidle⟩)⟩

variable {P : Type} (c : Conf P)

/-- The send of an I-frame, from a state of the link that asks for an activation. -/
theorem gating_sendI (h : AsduHead) (info : List UInt8) (st : Iec10xStat)
    (hst : st = .linkConnectOk ∨ st = .linkIdle) :
    gating.Keeps fun s => if s.stat.init = st then sendI h info s else (s, []) := by
  intro s g hI _
  by_cases hi : s.stat.init = st
  · simp only [if_pos hi]
    refine ⟨⟨?_, trivial⟩, hI⟩
    cases hl : s.link with
    | false => trivial
    | true => exact fun _ => hI (by rw [hi]; exact hst) hl
  · simp only [if_neg hi]
    exact ⟨trivial, hI⟩

theorem gating_buildYxSpon (nodes : NodeArr) : gating.Keeps (buildYxSpon c nodes) := by
  cases hl : nodes.val with
  | nil =>
    simp only [buildYxSpon, hl]
    exact Contract.keeps_skip
  | cons first rest =>
    have hsend := gating_sendI ⟨(if first.value.year = 0 then AsduType.mSpNa1 else .mSpTb1).code, false,
      (first :: rest).length, Cot.spont, c.asduAddr⟩ ((first :: rest).flatMap yxSponObj) .linkIdle (Or.inr rfl)
    refine keeps_congr hsend fun s => ?_
    simp only [buildYxSpon, hl, ne_eq, ite_not]

theorem gating_buildYcSpon (nodes : NodeArr) : gating.Keeps (buildYcSpon c nodes) := by
  cases hl : nodes.val with
  | nil =>
    simp only [buildYcSpon, hl]
    exact Contract.keeps_skip
  | cons first rest =>
    have hsend := gating_sendI ⟨(ycSponType first).code, false, (first :: rest).length, Cot.spont, c.asduAddr⟩
      ((first :: rest).flatMap (ycSponObj first)) .linkIdle (Or.inr rfl)
    refine keeps_congr hsend fun s => ?_
    simp only [buildYcSpon, hl, ne_eq, ite_not]

/-- The end of initialisation goes out from a state that only an activation sets. -/
theorem gating_connected (now : Int) :
    gating.Keeps fun s => if s.stat.init = .linkConnectOk then linkMachine c now s else (s, []) := by
  have hack : gating.Keeps (buildUAck UFunc.startdt) := gating_linkKept.uAck _
  have hinit := gating_sendI ⟨AsduType.mEiNa1.code, false, 1, Cot.init, c.asduAddr⟩ (infoAddr 0 ++ [0]) .linkConnectOk
    (Or.inl rfl)
  have hidle : gating.Keeps fun s => if s.stat.init = .linkConnectOk then setInit .linkIdle s else (s, []) := by
    intro s g hI _
    by_cases hi : s.stat.init = .linkConnectOk
    · simp only [if_pos hi]
      exact ⟨trivial, fun _ hl => hI (Or.inl hi) hl⟩
    · simp only [if_neg hi]
      exact ⟨trivial, hI⟩
  have htail : gating.Keeps fun s => andThen s [setTimer now, serv c.servCb .connected] :=
    keeps_andThen (by simpa using ⟨gating_linkKept.setTimer now, gating_linkKept.serv _ _⟩)
  intro s g hI hA
  by_cases hi : s.stat.init = .linkConnectOk
  · have hcalls := (hack.seq (hinit.seq (hidle.seq htail))) s g hI (meets_of_forall g fun _ _ _ => trivial)
    have hsame : linkMachine c now s = andThen s [buildUAck UFunc.startdt, buildInitFinsh c, setInit .linkIdle,
        setTimer now, serv c.servCb .connected] := by simp only [linkMachine, hi]
    have hi' : (sent s).stat.init = .linkConnectOk := hi
    simp only [if_pos hi, hsame, andThen_cons]
    simp only [buildUAck, sendCtrl, sendI, hi, hi', if_true] at hcalls
    exact hcalls
  · simp only [if_neg hi]
    exact ⟨trivial, hI⟩

/-- **The state of the link is right** as long as the connection stands. -/
theorem gates : Kept c gating where
  toLinkKept := gating_linkKept
  reset s g _ _ := ⟨⟨trivial, trivial⟩, fun h => by rcases h with h | h <;> cases h⟩
  accept s g _ _ := by
    refine ⟨?_, fun h => ?_⟩
    · cases hl : s.link <;>
        simp [acceptCb, andThen, run_cons, hl, linkClose, resetParam, gating, Gated, startedNext]
    · have hinit : (acceptCb s).1.stat.init = .linkInit := rfl
      rw [hinit] at h
      rcases h with h | h <;> cases h
  connected := gating_connected c

/-! ### I-frames -/

section Frame

variable (m : Mem) (p : Nat)

/-- The slave answers the frame at `p`, or applies it. -/
def ActsOn : Prop :=
  (m (p + 2)).toNat % 2 = 0 ∧ c.asduAddr = m.u16 (p + 10) ∧
    match AsduType.ofCode (m (p + 6)) with
    | some .cIcNa1 => Answers c p m (decide ((m (p + 15)).toNat = Cot.introgen))
    | some .cCiNa1 => Answers c p m (decide ((m (p + 15)).toNat % 64 = 5))
    | some t => (cmdFmt t).isSome = true
    | none => False

variable {m p}

/-- **The handlers** act on some frames only. -/
theorem actsOn_or_gated (s : Core) (hI : (m (p + 2)).toNat % 2 = 0) (haddr : c.asduAddr = m.u16 (p + 10)) :
    ActsOn c m p ∨ ∀ a ∈ ((asduParse c s p).run m).2, ∀ g, Gated g a := by
  cases ht : AsduType.ofCode (m (p + 6)) with
  | none =>
    simp only [asduParse, Rd.run_bind, run_rdType, mem_rdType, ht, Rd.run_pure]
    exact Or.inr fun a ha => by cases ha
  | some t =>
    cases t with
    | cScNa1 | cDcNa1 | cSeNa1 | cSeNc1 =>
      refine Or.inl ⟨hI, haddr, ?_⟩
      rw [ht]
      rfl
    | cIcNa1 =>
      simp only [asduParse, Rd.run_bind, run_rdType, mem_rdType, ht, run_asduCallAll]
      split
      · rename_i hans
        refine Or.inl ⟨hI, haddr, ?_⟩
        rw [ht]
        exact hans
      · exact Or.inr fun a ha => by cases ha
    | cCiNa1 =>
      simp only [asduParse, Rd.run_bind, run_rdType, mem_rdType, ht, run_asduCallPulse]
      split
      · rename_i hans
        refine Or.inl ⟨hI, haddr, ?_⟩
        rw [ht]
        exact hans
      · exact Or.inr fun a ha => by cases ha
    | cCsNa1 =>
      simp only [asduParse, Rd.run_bind, run_rdType, mem_rdType, ht, Rd.run_pure, run_asduClock]
      have hack : ∀ a ∈ (buildSAck s).2, ∀ g, Gated g a := by
        intro a ha g
        obtain rfl := List.mem_singleton.mp ha
        cases s.link with
        | false => trivial
        | true =>
          rintro ⟨b, hb, heven⟩
          obtain rfl : 1 = b := Option.some.inj hb
          exact absurd heven (by decide)
      split
      · refine Or.inr fun a ha g => ?_
        rcases List.mem_cons.mp ha with rfl | ha
        · trivial
        · exact hack a ha g
      · exact Or.inr hack
    | _ =>
      simp only [asduParse, Rd.run_bind, run_rdType, mem_rdType, ht, Rd.run_pure]
      exact Or.inr fun a ha => by cases ha

theorem Plain.stay {s : Core} {r : Core × List Act} (h : Plain s r) : ∀ a ∈ r.2, ∀ g, startedNext g a = g := by
  intro a ha g
  rcases h.2.2 a ha with ⟨f, up, rfl⟩ | ⟨n, v, rfl⟩ | ⟨b, rfl⟩ <;> rfl

/-- What a run of one frame may rely on: it is acted on only when started, and an activation lies inside its
own frame. -/
def Admitted (g : Bool) (m : Mem) (p : Nat) : Prop :=
  (ActsOn c m p → g = true) ∧ (m (p + 2) = UFunc.startdt → m (p + 1) ≠ 0)

/-- The monitor on a frame of the buffer. -/
theorem startedNext_taken {len : Nat} (ht : takes m len p) (g : Bool) : startedNext g (.rx (taken m len p)) =
    if m (p + 1) = 0 then g
    else if m (p + 2) = UFunc.startdt then true
    else if m (p + 2) = UFunc.stopdt then false
    else g := by
  rw [startedNext, getElem?_taken_two ht]
  by_cases hz : m (p + 1) = 0
  · rw [if_pos hz, if_pos hz]
    rfl
  · rw [if_neg hz, if_neg hz]
    simp only [Option.some.injEq]

/-- An I-frame: what it may be gated by does not change. -/
theorem gates_iframe {len : Nat} {s : Core} {g : Bool} (ht : takes m len p) (hI : gating.inv s g)
    (hadm : Admitted c g m p) (hIf : (m (p + 2)).toNat % 2 = 0) :
    Meets gating.next gating.promise g (serve (frameDispatch c) m len s (p, lenAt m p)).2 ∧
      gating.inv (serve (frameDispatch c) m len s (p, lenAt m p)).1
        ((serve (frameDispatch c) m len s (p, lenAt m p)).2.foldl gating.next g) := by
  have hrx := startedNext_taken ht g
  have hd : (frameDispatch c s p (lenAt m p)).run m = (frameIParse c s p).run m := by simp [frameDispatch, hIf]
  have h1 : m (p + 2) ≠ UFunc.startdt := fun e => by
    rw [e] at hIf
    exact absurd hIf (by decide)
  have h2 : m (p + 2) ≠ UFunc.stopdt := fun e => by
    rw [e] at hIf
    exact absurd hIf (by decide)
  rw [if_neg h1, if_neg h2, ite_self] at hrx
  rw [serve, hd, run_frameIParse]
  by_cases haddr : c.asduAddr = m.u16 (p + 10)
  · rw [if_neg (not_not.mpr haddr)]
    have hplain := plain_asduParse c (dealSn s (Fld.sendSn m p) (Fld.recvSn m p)) p m
    have hacts := actsOn_or_gated c (dealSn s (Fld.sendSn m p) (Fld.recvSn m p)) hIf haddr
    have hstay : ∀ a ∈ (.rx (taken m len p) :: .checked true (Fld.sendSn m p) (Fld.recvSn m p) true ::
        ((asduParse c (dealSn s (Fld.sendSn m p) (Fld.recvSn m p)) p).run m).2), gating.next g a = g := by
      intro a ha
      rcases List.mem_cons.mp ha with rfl | ha
      · exact hrx
      rcases List.mem_cons.mp ha with rfl | ha
      · rfl
      · exact hplain.stay a ha g
    refine ⟨meets_of_stay hstay fun a ha => ?_, ?_⟩
    · rcases List.mem_cons.mp ha with rfl | ha
      · trivial
      rcases List.mem_cons.mp ha with rfl | ha
      · trivial
      rcases hacts with hon | hoff
      · rw [hadm.1 hon]
        exact gated_true a
      · exact hoff a ha g
    · rw [foldl_of_stay hstay]
      intro hi hl
      dsimp only at hi hl
      rw [hplain.1] at hi
      rw [hplain.2.1] at hl
      exact hI hi hl
  · rw [if_pos haddr]
    refine ⟨⟨trivial, trivial, trivial⟩, ?_⟩
    show gating.inv s (startedNext g (.rx (taken m len p)))
    rw [hrx]
    exact hI

/-- An S-frame or a U-frame: an activation and a deactivation change the gate, the others keep it. -/
theorem gates_uframe {len : Nat} {s : Core} {g : Bool} (ht : takes m len p) (hI : gating.inv s g)
    (hadm : Admitted c g m p) (hIf : ¬ (m (p + 2)).toNat % 2 = 0) :
    Meets gating.next gating.promise g (serve (frameDispatch c) m len s (p, lenAt m p)).2 ∧
      gating.inv (serve (frameDispatch c) m len s (p, lenAt m p)).1
        ((serve (frameDispatch c) m len s (p, lenAt m p)).2.foldl gating.next g) := by
  have hrx := startedNext_taken ht g
  have hd : (frameDispatch c s p (lenAt m p)).run m =
      if (m (p + 2)).toNat % 4 = 1 then (s, []) else (frameUParse s p).run m := by
    by_cases hS : (m (p + 2)).toNat % 4 = 1 <;> simp [frameDispatch, hIf, hS]
  rw [serve, hd]
  by_cases hstart : m (p + 2) = UFunc.startdt
  · have hu : (frameUParse s p).run m = setInit .linkConnectOk s := by rw [run_frameUParse, if_pos hstart]
    rw [if_neg (hadm.2 hstart), if_pos hstart] at hrx
    rw [if_neg (by rw [hstart]; decide), hu]
    refine ⟨⟨trivial, trivial⟩, fun _ _ => ?_⟩
    exact hrx
  by_cases hstop : m (p + 2) = UFunc.stopdt
  · have hu : (frameUParse s p).run m = andThen s [linkClose, setInit .linkDisconnect] := by
      rw [run_frameUParse, if_neg hstart, if_pos hstop]
    rw [if_neg (by rw [hstop]; decide), hu]
    exact ⟨⟨trivial, trivial, trivial⟩, fun _ h => by cases h⟩
  · have hu : (frameUParse s p).run m = if m (p + 2) = UFunc.tester then buildUAck UFunc.tester s
        else if m (p + 2) = UFunc.testerAck then setTest .testerStop s else (s, []) := by
      rw [run_frameUParse, if_neg hstart, if_neg hstop]
    rw [if_neg hstart, if_neg hstop, ite_self] at hrx
    have hkeeps : gating.Keeps fun s => if (m (p + 2)).toNat % 4 = 1 then (s, [])
        else if m (p + 2) = UFunc.tester then buildUAck UFunc.tester s
        else if m (p + 2) = UFunc.testerAck then setTest .testerStop s else (s, []) :=
      Contract.keeps_ite Contract.keeps_skip (Contract.keeps_ite (gating_linkKept.uAck _)
        (Contract.keeps_ite (gating_linkKept.setTest _) Contract.keeps_skip))
    obtain ⟨hM, hI'⟩ := hkeeps s g hI (meets_of_forall g fun _ _ _ => trivial)
    rw [hu]
    dsimp only at hM hI' ⊢
    refine ⟨⟨trivial, ?_⟩, ?_⟩
    · rw [show gating.next g (.rx (taken m len p)) = g from hrx]
      exact hM
    · rw [List.foldl_cons, show gating.next g (.rx (taken m len p)) = g from hrx]
      exact hI'

/-- **One frame** of the receive buffer. -/
theorem gates_serve {len : Nat} {s : Core} {g : Bool} (ht : takes m len p) (hI : gating.inv s g)
    (hadm : Admitted c g m p) :
    Meets gating.next gating.promise g (serve (frameDispatch c) m len s (p, lenAt m p)).2 ∧
      gating.inv (serve (frameDispatch c) m len s (p, lenAt m p)).1
        ((serve (frameDispatch c) m len s (p, lenAt m p)).2.foldl gating.next g) := by
  by_cases hIf : (m (p + 2)).toNat % 2 = 0
  · exact gates_iframe c ht hI hadm hIf
  · exact gates_uframe c ht hI hadm hIf

end Frame

/-! ### Whole runs -/

/-- What an event may rely on: every frame of a read is `Admitted` when its turn comes. -/
def AdmittedEvent : Station × Bool → Event → Prop
  | (t, g), .recv chunk =>
    Along (watched startedNext (serve (frameDispatch c) (t.recvBuf.fill chunk.octets) chunk.octets.length))
      (fun s f => Admitted c s.2 (t.recvBuf.fill chunk.octets) f.1) (t.core, g)
      (frames (t.recvBuf.fill chunk.octets) chunk.octets.length)
  | _, _ => True

/-- **One event.** -/
theorem gates_step {t : Station} {g : Bool} {e : Event} (hI : gating.inv t.core g)
    (hadm : AdmittedEvent c (t, g) e) : Meets gating.next gating.promise g (step c t e).2 ∧
      gating.inv (step c t e).1.core ((step c t e).2.foldl gating.next g) := by
  have hcall : ∀ {f : Cmd}, gating.Keeps f → Meets gating.next gating.promise g (f t.core).2 ∧
      gating.inv (f t.core).1 ((f t.core).2.foldl gating.next g) :=
    fun hf => hf t.core g hI (meets_of_forall g fun _ _ _ => trivial)
  cases e with
  | machine now now' => exact hcall (keeps_stateMachine (gates c) now now')
  | accept => exact hcall (gates c).accept
  | lost => exact ⟨⟨trivial, trivial⟩, fun _ h => by cases h⟩
  | yxSpon nodes => exact hcall (gating_buildYxSpon c nodes)
  | ycSpon nodes => exact hcall (gating_buildYcSpon c nodes)
  | recv chunk =>
    rw [step_recv]
    refine Contract.keeps_along (K := gating) (fun f hf s g' hI' hQ => ?_) hI hadm
    obtain ⟨ht, hlen⟩ := takes_of_mem_framesFrom hf
    have hserve := gates_serve c ht hI' hQ
    rw [← hlen] at hserve
    exact hserve

/-- The contract of the whole station. -/
def stationGating : Contract Station Bool Act := { gating with inv := fun t g => gating.inv t.core g }

/-- **Data transfer is gated** in every run in which the slave acts on I-frames only while it is started: each
I-frame that reaches the peer and each value callback happens between an activation and the next deactivation
or loss on the current connection. -/
theorem gated (events : List Event) (h : Along (watched startedNext (step c)) (AdmittedEvent c) (.init, false) events) :
    Meets startedNext Gated false (run (step c) .init events).2 := by
  have hinit : stationGating.inv .init false := fun hi => by rcases hi with hi | hi <;> cases hi
  exact (Contract.keeps_along (K := stationGating) (fun e _ t g hI hadm => gates_step c hI hadm) hinit h).1

/-- An activation of data transfer. -/
def sampleStartdt : Chunk := ⟨(mkFrame (ctrlU UFunc.startdt) []).wire, by decide, by decide⟩

/-- A remote control command for one node, without the select bit. -/
def sampleExecute : Chunk :=
  ⟨(mkI ⟨0, 0, -1, 0⟩ ⟨AsduType.cScNa1.code, false, 1, Cot.act, 1⟩ (infoAddr 0x6001 ++ [1])).wire, by decide, by decide⟩

/-- A connection, its activation and a command. -/
theorem gated_execute : Meets startedNext Gated false (run (step sampleConf) .init
    [.accept, .machine 0 0, .recv sampleStartdt, .machine 0 0, .recv sampleExecute]).2 :=
  gated sampleConf [.accept, .machine 0 0, .recv sampleStartdt, .machine 0 0, .recv sampleExecute]
    ⟨trivial, trivial, ⟨⟨fun h => absurd h.1 (by decide), fun _ => by decide⟩, trivial⟩, trivial,
      ⟨⟨fun _ => by decide, fun h => absurd h (by decide)⟩, trivial⟩, trivial⟩

/-- The same command on a connection that nobody activated. -/
theorem not_gated_execute : ¬ Meets startedNext Gated false (run (step sampleConf) .init
    [.accept, .machine 0 0, .recv sampleExecute]).2 := by
  decide +kernel

end Wow.Iec104.Slave
