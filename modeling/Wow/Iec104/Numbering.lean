import Wow.Iec104.Contracts

/-!
# Wow.Iec104.Numbering — the receive numbers of the master

The receive side of IEC 60870-5-104 counts modulo `2 ^ 15`: a station takes an I-frame exactly when its `N(S)`
is the number it expects, and acknowledges with the number it expects next.  `Last` follows a trace and
keeps the numbers of the last frame taken; `Numbered` is the requirement on each action, `Orderly` the
condition on the frames received.

* `sends_acknowledge`: the `N(R)` in every frame of the master is the number expected next.
* `numbered_iff`: a run meets the requirement if and only if each frame received is `Orderly`.  The code
  compares plain integers, so it also takes a frame sent twice and a frame behind a gap, and it takes none
  after number 32767.
-/

namespace Wow.Iec104

open Iec10x

/-! ### The numbers in a frame -/

/-- A frame that is sent, as a buffer. -/
def frameMem (f : SendBuf) : Mem := Mem.fill (fun _ => 0) f.buf

/-- I- and S-frames carry an `N(R)`. -/
def hasRecvSn (f : SendBuf) : Prop := (frameMem f 2).toNat % 2 = 0 ∨ (frameMem f 2).toNat % 4 = 1

instance (f : SendBuf) : Decidable (hasRecvSn f) := inferInstanceAs (Decidable (_ ∨ _))

/-- `N(R)` of a frame that is sent. -/
def recvSnOf (f : SendBuf) : Nat := Fld.recvSn (frameMem f) 0

theorem sn15_octets (n : Nat) : (UInt8.ofNat (2 * (n % 32768) % 256)).toNat / 2 +
    128 * (UInt8.ofNat (2 * (n % 32768) / 256)).toNat = n % 32768 := by
  simp only [UInt8.toNat_ofNat']
  omega

theorem recvSnOf_mkI (sn : Sn) (h : AsduHead) (info : List UInt8) :
    recvSnOf (mkI sn h info) = sn.buildRecv % 32768 := sn15_octets sn.buildRecv

theorem recvSnOf_ctrlS (recv : Nat) : recvSnOf (mkFrame (ctrlS recv) []) = recv % 32768 := sn15_octets recv

theorem sendSn_lt (m : Mem) (p : Nat) : Fld.sendSn m p < 32768 := by
  have h1 := (m (p + 2)).toNat_lt
  have h2 := (m (p + 3)).toNat_lt
  simp only [Fld.sendSn]
  omega

namespace Master

/-! ### The requirement -/

/-- `N(S)` and `N(R)` of the last I-frame taken since the last reset. -/
abbrev Last := Option (Nat × Nat)

def Last.next (g : Last) : Act → Last
  | .reset => none
  | .checked _ ns nr true => some (ns, nr)
  | _ => g

/-- The receive number expected next. -/
def Last.expected : Last → Nat
  | none => 0
  | some (ns, _) => (ns + 1) % 32768

/-- An I-frame is taken exactly with the expected number, and what is sent carries that number. -/
def Numbered (g : Last) : Act → Prop
  | .checked _ ns _ ok => ok = true ↔ ns = g.expected
  | .send f _ => hasRecvSn f → recvSnOf f = g.expected
  | _ => True

/-- The frames the code judges as required: of those with the expected number, the ones for this station that
do not follow number 32767 and whose `N(R)` is not below the last one; of all others, the ones for another
station and those with an `N(S)` or an `N(R)` below the last one. -/
def Orderly (g : Last) : Act → Prop
  | .checked own ns nr _ =>
    if ns = g.expected then own = true ∧ ∀ l ∈ g, l.1 ≠ 32767 ∧ l.2 ≤ nr
    else own = false ∨ ∃ l ∈ g, ns < l.1 ∨ nr < l.2
  | _ => True

instance : ∀ (g : Last) (a : Act), Decidable (Numbered g a)
  | g, .checked _ ns _ ok => inferInstanceAs (Decidable (ok = true ↔ ns = g.expected))
  | g, .send f _ => inferInstanceAs (Decidable (hasRecvSn f → recvSnOf f = g.expected))
  | _, .rx _ | _, .conn | _, .lost | _, .reset | _, .req _ _ | _, .setVal _ _ | _, .serv _ | _, .setTime _
  | _, .close => inferInstanceAs (Decidable True)

/-! ### The counters of the master -/

/-- The counters are those of the last frame taken. -/
def Counts (s : Core) : Last → Prop
  | none => s.sn.buildRecv = 0 ∧ s.sn.dealSend = -1 ∧ s.sn.dealRecv = 0
  | some (ns, nr) => s.sn.buildRecv = ns + 1 ∧ s.sn.dealSend = ns ∧ s.sn.dealRecv = nr ∧ ns < 32768

theorem Counts.expected {s : Core} {g : Last} (h : Counts s g) : s.sn.buildRecv % 32768 = g.expected := by
  cases g with
  | none => simp [h.1, Last.expected]
  | some l => simp [h.1, Last.expected]

theorem Counts.snOk {s : Core} {g : Last} (h : Counts s g) (ns nr : Nat) :
    snOk s ns nr = true ↔ ∀ l ∈ g, l.1 ≤ ns ∧ l.2 ≤ nr := by
  cases g with
  | none =>
    obtain ⟨-, hs, hr⟩ := h
    simp [Master.snOk, hs, hr]
  | some l =>
    obtain ⟨-, hs, hr, -⟩ := h
    simp [Master.snOk, hs, hr]

/-- **The judgement of one frame**: as required if and only if the frame is orderly. -/
theorem numbered_checked_iff {s : Core} {g : Last} (h : Counts s g) (own : Bool) (ns nr : Nat) :
    Numbered g (.checked own ns nr (own && snOk s ns nr)) ↔
      Orderly g (.checked own ns nr (own && snOk s ns nr)) := by
  simp only [Numbered, Orderly, Bool.and_eq_true, h.snOk]
  cases g with
  | none => by_cases hn : ns = Last.expected none <;> simp [hn]
  | some l =>
    obtain ⟨-, -, -, hl⟩ := h
    by_cases hn : ns = Last.expected (some l)
    · simp only [hn, iff_true, if_true, Option.mem_def, Option.some.injEq, forall_eq', Last.expected]
      refine and_congr_right fun _ => and_congr_left fun _ => ?_
      omega
    · simp only [hn, iff_false, if_false, Option.mem_def, Option.some.injEq, forall_eq', exists_eq_left',
        not_and_or, Bool.not_eq_true, Nat.not_le]

/-! ### Runs -/

/-- The contract: whatever the master does, requirement and condition agree. -/
def numbering : Contract Core Last Act where
  next := Last.next
  assume := fun _ _ => True
  promise := fun g a => Numbered g a ↔ Orderly g a
  inv := Counts

theorem Counts.congr {s s' : Core} {g : Last} (h : Counts s g) (hr : s'.sn.buildRecv = s.sn.buildRecv)
    (hd : s'.sn.dealSend = s.sn.dealSend) (hd' : s'.sn.dealRecv = s.sn.dealRecv) : Counts s' g := by
  cases g <;> simpa only [Counts, hr, hd, hd'] using h

/-- A frame with the right `N(R)`. -/
theorem numbering_send {s : Core} {g : Last} (h : Counts s g) {f : SendBuf}
    (hf : hasRecvSn f → recvSnOf f = s.sn.buildRecv % 32768) (up : Bool) :
    numbering.promise g (.send f up) := by
  show (hasRecvSn f → recvSnOf f = g.expected) ↔ True
  rw [← h.expected, iff_true]
  exact hf

theorem keeps_sendCtrl {ctrl : Core → List UInt8}
    (hc : ∀ s, hasRecvSn (mkFrame (ctrl s) []) → recvSnOf (mkFrame (ctrl s) []) = s.sn.buildRecv % 32768) :
    numbering.Keeps (sendCtrl ctrl) := by
  refine Contract.keeps_of_stay fun s g hI => ⟨hI, fun a ha => ?_⟩
  obtain rfl := List.mem_singleton.mp ha
  exact ⟨rfl, numbering_send hI (hc s) _⟩

theorem keeps_sendI (h : AsduHead) (info : List UInt8) : numbering.Keeps (sendI h info) := by
  refine Contract.keeps_of_stay fun s g hI => ⟨hI.congr rfl rfl rfl, fun a ha => ?_⟩
  obtain rfl := List.mem_singleton.mp ha
  exact ⟨rfl, numbering_send hI (fun _ => recvSnOf_mkI s.sn h info) _⟩

/-- Calls that send nothing and leave the counters alone. -/
theorem keeps_other {f : Cmd}
    (hsn : ∀ s, (f s).1.sn.buildRecv = s.sn.buildRecv ∧ (f s).1.sn.dealSend = s.sn.dealSend ∧
      (f s).1.sn.dealRecv = s.sn.dealRecv)
    (ha : ∀ s, ∀ a ∈ (f s).2, ∀ g : Last, g.next a = g ∧ (Numbered g a ↔ Orderly g a)) :
    numbering.Keeps f :=
  Contract.keeps_of_stay fun s g hI => ⟨hI.congr (hsn s).1 (hsn s).2.1 (hsn s).2.2, fun a h => ha s a h g⟩

theorem numbering_kept : Kept numbering where
  uAck t := by
    unfold buildUAck
    split_ifs
    all_goals first | exact Contract.keeps_skip | exact keeps_sendCtrl fun s h => absurd h (by decide)
  u t := by
    unfold buildU
    split_ifs
    all_goals first | exact Contract.keeps_skip | exact keeps_sendCtrl fun s h => absurd h (by decide)
  sAck := keeps_sendCtrl fun s _ => recvSnOf_ctrlS s.sn.buildRecv
  serv cb x := keeps_other (fun s => ⟨rfl, rfl, rfl⟩) fun s a ha g => by
    cases cb
    · simp [serv] at ha
    · obtain rfl := List.mem_singleton.mp ha
      exact ⟨rfl, Iff.rfl⟩
  setTest x := keeps_other (fun s => ⟨rfl, rfl, rfl⟩) fun s a ha g => by simp [setTest] at ha
  time f := keeps_other (fun s => ⟨rfl, rfl, rfl⟩) fun s a ha g => by simp at ha
  close := keeps_other (fun s => ⟨rfl, rfl, rfl⟩) fun s a ha g => by
    obtain rfl := List.mem_singleton.mp ha
    exact ⟨rfl, Iff.rfl⟩
  setDown x _ _ := keeps_other (fun s => ⟨rfl, rfl, rfl⟩) fun s a ha g => by simp [setInit] at ha
  setInit x := keeps_other (fun s => ⟨rfl, rfl, rfl⟩) fun s a ha g => by simp [setInit] at ha
  reset := by
    intro s g _ _
    exact ⟨⟨Iff.rfl, trivial⟩, ⟨rfl, rfl, rfl⟩⟩
  linkOpen b := keeps_other (fun s => ⟨rfl, rfl, rfl⟩) fun s a ha g => by
    cases b
    · simp [linkOpen] at ha
    · obtain rfl := List.mem_singleton.mp ha
      exact ⟨rfl, Iff.rfl⟩
  val acts hacts := keeps_other (fun s => ⟨rfl, rfl, rfl⟩) fun s a ha g => by
    obtain ⟨n, v, rfl⟩ := hacts a ha
    exact ⟨rfl, Iff.rfl⟩

variable (c : Conf)

theorem keeps_buildCmdAck (fmts : AsduType → Option CmdFmt) (p : Nat) (m : Mem) :
    numbering.Keeps fun s => (buildCmdAck c s p fmts).run m := by
  simp only [run_buildCmdAck]
  cases (AsduType.ofCode (m (p + 6))).bind fmts with
  | none => exact keeps_other (fun s => ⟨rfl, rfl, rfl⟩) fun s a ha g => by simp [skipI] at ha
  | some fmt => exact keeps_sendI _ _

/-- **One I-frame**: judged as required exactly when it is orderly, and the counters follow the judgement. -/
theorem keeps_frameIParse (p : Nat) (m : Mem) : numbering.Keeps fun s => (frameIParse c s p).run m := by
  intro s g hI _
  have hparse := keeps_asduParse (c := c) (p := p) (m := m) numbering_kept
    (keeps_asduYk numbering_kept (keeps_buildCmdAck c _ p m))
    (keeps_asduYt numbering_kept (keeps_buildCmdAck c _ p m))
  have hj := fun own => numbered_checked_iff hI own (Fld.sendSn m p) (Fld.recvSn m p)
  simp only [run_frameIParse]
  by_cases ha : c.asduAddr ≠ m.u16 (p + 10)
  · simp only [if_pos ha]
    exact ⟨⟨hj false, trivial⟩, hI⟩
  · simp only [if_neg ha]
    have hj' := hj true
    cases hs : snOk s (Fld.sendSn m p) (Fld.recvSn m p) with
    | false =>
      rw [hs] at hj'
      exact ⟨⟨hj', trivial⟩, hI⟩
    | true =>
      rw [hs] at hj'
      have hI' : numbering.inv (dealSn s (Fld.sendSn m p) (Fld.recvSn m p))
          (some (Fld.sendSn m p, Fld.recvSn m p)) := ⟨rfl, rfl, rfl, sendSn_lt m p⟩
      obtain ⟨hG, hI''⟩ := hparse _ _ hI' (meets_of_forall _ fun _ _ _ => trivial)
      exact ⟨⟨hj', hG⟩, hI''⟩

theorem keeps_buildCmd (type : AsduType) (nodes : List DevNodeCtrl) (info : List UInt8) :
    numbering.Keeps (buildCmd c type nodes info) := by
  refine keeps_andThen ?_
  simp only [List.mem_cons, List.not_mem_nil, or_false, forall_eq_or_imp, forall_eq]
  refine ⟨keeps_other (fun s => ⟨rfl, rfl, rfl⟩) fun s a ha g => ?_, keeps_sendI _ _⟩
  obtain rfl := List.mem_singleton.mp ha
  exact ⟨rfl, Iff.rfl⟩

/-- The contract of the whole station. -/
def stationNumbering : Contract Station Last Act := { numbering with inv := fun t g => Counts t.core g }

theorem keeps_call {f : Cmd} (hf : numbering.Keeps f) : stationNumbering.Keeps fun t => t.call f :=
  fun t => hf t.core

theorem keeps_step (e : Event) : stationNumbering.Keeps fun t => step c t e := by
  cases e with
  | recv chunk now =>
    have hrx : ∀ (x : List UInt8), numbering.Keeps fun s => (s, [.rx x]) := fun x =>
      keeps_other (fun s => ⟨rfl, rfl, rfl⟩) fun s a ha g => by
        obtain rfl := List.mem_singleton.mp ha
        exact ⟨rfl, Iff.rfl⟩
    have hd : ∀ m p, takes m chunk.octets.length p → numbering.Keeps fun s =>
        serve (frameDispatch c now) m chunk.octets.length s (p, lenAt m p) := fun m p _ =>
      (hrx _).seq (keeps_frameDispatch numbering_kept (keeps_frameIParse c p m) now (lenAt m p))
    exact fun t => keeps_frameParse _ (Nat.lt_of_le_of_lt chunk.le (by decide)) hd _ t.core
  | machine now now' opened => exact keeps_call (keeps_stateMachine numbering_kept now now' opened)
  | lost => exact keeps_call (keeps_other (fun s => ⟨rfl, rfl, rfl⟩) fun s a ha g => by
      obtain rfl := List.mem_singleton.mp ha
      exact ⟨rfl, Iff.rfl⟩)
  | callAll => exact keeps_call (Contract.keeps_ite Contract.keeps_skip (keeps_sendI _ _))
  | callPulse => exact keeps_call (Contract.keeps_ite Contract.keeps_skip (keeps_sendI _ _))
  | yk nodes => exact keeps_call (Contract.keeps_ite Contract.keeps_skip
      (Contract.keeps_ite Contract.keeps_skip (keeps_buildCmd c _ _ _)))
  | yt nodes =>
    refine keeps_call ?_
    unfold buildYt
    cases nodes.val with
    | nil => exact Contract.keeps_skip
    | cons first rest => exact Contract.keeps_ite Contract.keeps_skip (keeps_buildCmd c _ _ _)

/-- **Receive numbering over runs**: a run of the master is numbered as required if and only if every I-frame
it receives is orderly. -/
theorem numbered_iff (es : List Event) :
    Meets Last.next Numbered none (run (step c) Station.init es).2 ↔
      Meets Last.next Orderly none (run (step c) Station.init es).2 := by
  have hK : stationNumbering.Keeps fun t => run (step c) t es := Contract.keeps_run fun e _ => keeps_step c e
  refine meets_congr ?_
  exact (hK Station.init none ⟨rfl, rfl, rfl⟩ (meets_of_forall _ fun _ _ _ => trivial)).1

/-- A start of data transfer, then the same I-frame twice: both times its `N(S)` is 0. -/
def twice : List Event :=
  let frame : Chunk := ⟨[0x68, 14, 0, 0, 0, 0, 70, 1, 4, 0, 1, 0, 0, 0, 0, 0], by decide, by decide⟩
  [.machine 0 0 false, .machine 0 0 true, .recv ⟨[0x68, 4, 0x0b, 0, 0, 0], by decide, by decide⟩ 0,
    .machine 0 0 false, .recv frame 0, .recv frame 0]

theorem not_numbered_twice :
    ¬ Meets Last.next Numbered none (run (step ⟨1, true, true⟩) Station.init twice).2 := by decide

/-- **Acknowledgements**: in every run, the `N(R)` of every I- and S-frame the master sends is the number
expected next. -/
theorem sends_acknowledge (es : List Event) :
    Meets Last.next (fun g a => ∀ f up, a = .send f up → hasRecvSn f → recvSnOf f = g.expected) none
      (run (step c) Station.init es).2 := by
  have hK : stationNumbering.Keeps fun t => run (step c) t es := Contract.keeps_run fun e _ => keeps_step c e
  refine meets_mono ?_ (hK Station.init none ⟨rfl, rfl, rfl⟩ (meets_of_forall _ fun _ _ _ => trivial)).1
  rintro g _ h f up rfl
  exact h.mpr trivial

end Master

end Wow.Iec104
