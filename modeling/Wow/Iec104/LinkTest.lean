import Wow.Iec104.Timers

/-!
# Wow.Iec104.LinkTest — the link test never kills a live link

Both stations run the same test machine behind their first `switch`.  `LinkTest` is where the test stands by
what was sent and received: the activation that is out, or a confirmation that has come in since.

* `TestKept`: the test machine closes the link only on an activation that stayed unconfirmed for more than
  the timeout, and takes a confirmation back to waiting.
* `TestInv`: how the state of the machine follows the test.
* `pass_kept`: one pass, whatever the first `switch`; `linkTest_kept`: every run of both stations, with
  any readings of the clock.
-/

namespace Wow.Iec104

open Iec10x

/-! ### Where the test stands -/

/-- The link test, by the frames of the connection: no activation is out, one is out since a reading of the
clock, or a confirmation has come in that the test machine has yet to see. -/
inductive LinkTest where
  | waiting
  | sent (reading : Int)
  | confirmed
  deriving DecidableEq

/-- A confirmation comes in; a new connection and cleared parameters start over. -/
def LinkTest.next (v : LinkTest) : Act → LinkTest
  | .rx apdu => if apdu[2]? = some UFunc.testerAck then .confirmed else v
  | .conn | .reset => .waiting
  | _ => v

/-- The activation of a test. -/
def isTester : Act → Bool
  | .send f _ => decide (f.buf[2]? = some UFunc.tester)
  | _ => false

/-- The test behind the test machine: an activation goes out, or a confirmation has been seen. -/
def LinkTest.tested (v : LinkTest) (now : Int) (tr : List Act) : LinkTest :=
  if tr.any isTester then .sent now else if v = .confirmed then .waiting else v

/-- The states from which a pass gets to the test machine. -/
def Reaches (s : Core) : Prop := s.stat.init = .linkIdle ∨ s.stat.init = .linkConnectOk

instance (s : Core) : Decidable (Reaches s) := inferInstanceAs (Decidable (_ ∨ _))

section Watch

variable {ε : Type} (step : Station → ε → Station × List Act) (reading : ε → Option Int)

/-- The test behind an event; `reading` is what the test machine reads of the clock in a pass. -/
def testNext (s : Station × LinkTest) (e : ε) : LinkTest :=
  match reading e with
  | some now =>
    if Reaches s.1.core then s.2.tested now (step s.1 e).2 else (step s.1 e).2.foldl LinkTest.next s.2
  | none => (step s.1 e).2.foldl LinkTest.next s.2

/-- The station with its link test at its side. -/
def testStep (s : Station × LinkTest) (e : ε) : (Station × LinkTest) × List Act :=
  (((step s.1 e).1, testNext step reading s e), (step s.1 e).2)

/-- The requirement, for every pass that gets to the test machine: it closes the link only on an activation that is
out for more than the timeout, and behind a confirmation it neither closes nor tests but waits for the next test. -/
def TestKept (s : Station × LinkTest) (e : ε) : Prop :=
  ∀ now ∈ reading e, Reaches s.1.core →
    (.close ∈ (step s.1 e).2 → ∃ sent, s.2 = .sent sent ∧ now - sent > testerUTimeout) ∧
    (s.2 = .confirmed → (∀ a ∈ (step s.1 e).2, a ≠ .close ∧ isTester a = false) ∧
      (step s.1 e).1.core.stat.test = .testerStart)

end Watch

/-! ### The invariant -/

/-- The machine follows the test: it waits for a confirmation only while its activation is out, and stamped when that
was sent. -/
structure TestInv (s : Core) (v : LinkTest) : Prop where
  out : s.stat.test = .testerIdle → v = .sent s.time.test
  seen : v = .confirmed → s.stat.test = .testerStop
  opening : s.stat.init = .linkOpen → s.stat.test ≠ .testerIdle

theorem testInv_fresh : TestInv .fresh .waiting where
  out h := by cases h
  seen h := by cases h
  opening h := by cases h

/-- The contract of the frames. -/
def testing : Contract Core LinkTest Act where
  next := LinkTest.next
  assume := fun _ _ => True
  promise := fun _ _ => True
  inv := TestInv

theorem LinkTest.next_quiet (v : LinkTest) (a : Act) (h : quiet a = true) : v.next a = v := by
  cases a with
  | rx apdu => cases h
  | conn => cases h
  | reset => cases h
  | _ => rfl

section Inv

variable {s : Core} {v : LinkTest} {r : Core × List Act}

/-- What leaves the test alone, and does not get to the opening of a link. -/
theorem TestInv.congr (hI : TestInv s v) {s' : Core} (htest : s'.stat.test = s.stat.test)
    (htime : s'.time.test = s.time.test) (hinit : s'.stat.init = .linkOpen → s.stat.init = .linkOpen) :
    TestInv s' v where
  out h := by
    rw [htime]
    exact hI.out (htest ▸ h)
  seen h := htest.trans (hI.seen h)
  opening h := by
    rw [htest]
    exact hI.opening (hinit h)

theorem TestInv.not_confirmed (hI : TestInv s v) (h : s.stat.test ≠ .testerStop) : v ≠ .confirmed :=
  fun hv => h (hI.seen hv)

/-- A steady call. -/
theorem TestInv.steady (hI : TestInv s v) (h : Steady s r) : TestInv r.1 (r.2.foldl LinkTest.next v) := by
  rw [foldl_of_quiet LinkTest.next_quiet h.quiet]
  exact hI.congr (by rw [h.stat]) (by rw [h.time]) fun hinit => by rw [← hinit, h.stat]

/-- Cleared parameters. -/
theorem testInv_reset {x : Iec10xStat} {s' : Core} (h : s'.stat = { Core.fresh.stat with init := x }) :
    TestInv s' .waiting where
  out ht := by
    rw [h] at ht
    cases ht
  seen hv := by cases hv
  opening _ := by
    rw [h]
    exact Iec10xStat.noConfusion

/-- **One frame**, on a station that takes `start` and `stop`. -/
theorem testInv_frame {start stop : UInt8} {m : Mem} {len p : Nat} (ht : takes m len p) (hI : TestInv s v)
    (h : Handled start stop (m (p + 2)) s r) (hstart : start ≠ UFunc.testerAck) (hstop : stop ≠ UFunc.testerAck) :
    TestInv r.1 (r.2.foldl LinkTest.next (v.next (.rx (taken m len p)))) := by
  rw [foldl_of_quiet LinkTest.next_quiet h.quiet]
  by_cases hack : m (p + 2) = UFunc.testerAck
  · -- a frame of length 0 has the octet behind its end taken for a confirmation, too
    have hstat : r.1.stat = { s.stat with test := .testerStop } := by
      rw [h.stat, uStat, hack, if_neg hstart.symm, if_neg hstop.symm, if_pos rfl]
    refine ⟨fun hout => ?_, fun _ => by rw [hstat], fun _ => ?_⟩
    · rw [hstat] at hout
      cases hout
    · rw [hstat]
      exact Iec10xStat.noConfusion
  · have hnext : v.next (.rx (taken m len p)) = v := by
      rw [LinkTest.next, getElem?_taken_two ht, if_neg]
      by_cases hz : m (p + 1) = 0
      · rw [if_pos hz]
        exact (Option.some_ne_none _).symm
      · rw [if_neg hz]
        exact fun hb => hack (Option.some.inj hb)
    rw [hnext]
    refine hI.congr ?_ h.test ?_
    · rw [h.stat, uStat, if_neg hack]
      split_ifs <;> rfl
    · rw [h.stat, uStat, if_neg hack]
      split_ifs
      · exact fun h => by cases h
      · exact fun h => by cases h
      · exact id

end Inv

/-! ### One pass -/

theorem not_reaches {s : Core} {x : Iec10xStat} (hs : s.stat.init = x) (hidle : x ≠ .linkIdle)
    (hok : x ≠ .linkConnectOk) :
    ¬ Reaches s := by
  rw [Reaches, hs]
  exact not_or.mpr ⟨hidle, hok⟩

/-- The number in an I-frame is even where the function octet of a U-frame is odd. -/
theorem isTester_mkI (sn : Sn) (h : AsduHead) (info : List UInt8) (up : Bool) :
    isTester (.send (mkI sn h info) up) = false := by
  refine decide_eq_false fun hb => ?_
  have hoctet : UInt8.ofNat (2 * (sn.buildSend % 32768) % 256) = UFunc.tester := Option.some.inj hb
  have hodd := congrArg UInt8.toNat hoctet
  rw [UInt8.toNat_ofNat'] at hodd
  have h67 : UFunc.tester.toNat = 67 := rfl
  omega

/-- What the first `switch` may do without a word about the test. -/
def inert (a : Act) : Prop := quiet a = true ∧ a ≠ .close ∧ isTester a = false

/-- The first `switch`, as the test machine meets it. -/
structure LinkPart (link : Cmd) : Prop where
  reaches : ∀ s, (link s).1.stat.init = .linkIdle ↔ Reaches s
  test : ∀ s, Reaches s → (link s).1.stat.test = s.stat.test
  time : ∀ s, Reaches s → (link s).1.time.test = s.time.test
  inert : ∀ s, Reaches s → ∀ a ∈ (link s).2, inert a
  keeps : ∀ s v, ¬ Reaches s → TestInv s v → TestInv (link s).1 ((link s).2.foldl LinkTest.next v)

/-- `state_machine`, over the first `switch`. -/
def pass (link : Cmd) (now : Int) : Cmd := fun s =>
  let r := link s
  if r.1.stat.init ≠ .linkIdle then r
  else
    let r' := testerMachine now r.1
    (r'.1, r.2 ++ r'.2)

theorem LinkTest.tested_nil {v : LinkTest} (h : v ≠ .confirmed) (now : Int) : v.tested now [] = v := by
  rw [LinkTest.tested, List.any_nil, if_neg Bool.false_ne_true, if_neg h]

theorem LinkTest.tested_nil_ne (v : LinkTest) (now : Int) : v.tested now [] ≠ .confirmed := by
  rw [LinkTest.tested, List.any_nil, if_neg Bool.false_ne_true]
  split_ifs with hv
  · exact LinkTest.noConfusion
  · exact hv

/-- **The test machine.** -/
theorem testerMachine_kept {s : Core} {v : LinkTest} (hI : TestInv s v) (hidle : s.stat.init = .linkIdle) (now : Int) :
    (.close ∈ (testerMachine now s).2 → ∃ sent, v = .sent sent ∧ now - sent > testerUTimeout) ∧
    (v = .confirmed → (testerMachine now s).2 = [] ∧ (testerMachine now s).1.stat.test = .testerStart) ∧
    TestInv (testerMachine now s).1 (v.tested now (testerMachine now s).2) := by
  have hopen : s.stat.init ≠ .linkOpen := fun h => by
    rw [hidle] at h
    cases h
  rcases testerMachine_cases now s with ⟨ht, hs⟩ | ⟨ht, hs⟩ | ⟨ht, hlate, hs⟩ | ⟨ht, hs⟩ | ⟨ht, hs⟩
  · have hv : v ≠ .confirmed := hI.not_confirmed (by rw [ht]; exact Iec10xStat.noConfusion)
    rw [hs]
    refine ⟨fun h => ?_, fun h => absurd h hv, fun _ => rfl, fun h => (by cases h), fun h => absurd h hopen⟩
    obtain h := List.mem_singleton.mp h
    cases h
  · have hv : v ≠ .confirmed := hI.not_confirmed (by rw [ht]; exact Iec10xStat.noConfusion)
    rw [hs, LinkTest.tested_nil hv]
    refine ⟨fun h => absurd h List.not_mem_nil, fun h => absurd h hv, fun h => ?_, fun h => absurd h hv,
      fun h => absurd h hopen⟩
    cases ht.symm.trans h
  · have hv : v = .sent s.time.test := hI.out ht
    rw [hs]
    have htested : v.tested now (andThen s [linkClose, setInit .linkInit]).2 = v := by
      rw [hv]
      rfl
    rw [htested]
    exact ⟨fun _ => ⟨_, hv, hlate⟩, fun h => absurd (hv.symm.trans h) LinkTest.noConfusion,
      hI.congr rfl rfl fun h => by cases h⟩
  · rw [hs]
    refine ⟨fun h => absurd h List.not_mem_nil, fun _ => ⟨rfl, rfl⟩, fun h => (by cases h), fun h => ?_,
      fun h => absurd h hopen⟩
    exact absurd h (LinkTest.tested_nil_ne v now)
  · have hv : v ≠ .confirmed := hI.not_confirmed ht
    rw [hs, LinkTest.tested_nil hv]
    exact ⟨fun h => absurd h List.not_mem_nil, fun h => absurd h hv, hI⟩

/-- **One pass**, whatever the first `switch`. -/
theorem pass_kept {link : Cmd} (hl : LinkPart link) {s : Core} {v : LinkTest} (hI : TestInv s v) (now : Int) :
    (Reaches s → (.close ∈ (pass link now s).2 → ∃ sent, v = .sent sent ∧ now - sent > testerUTimeout) ∧
      (v = .confirmed → (∀ a ∈ (pass link now s).2, a ≠ .close ∧ isTester a = false) ∧
        (pass link now s).1.stat.test = .testerStart)) ∧
    TestInv (pass link now s).1 (if Reaches s then v.tested now (pass link now s).2
      else (pass link now s).2.foldl LinkTest.next v) := by
  by_cases hr : Reaches s
  · have hidle := (hl.reaches s).mpr hr
    have hpass : pass link now s = ((testerMachine now (link s).1).1, (link s).2 ++ (testerMachine now (link s).1).2) := by
      rw [pass, if_neg (not_not.mpr hidle)]
    have hI' : TestInv (link s).1 v := hI.congr (hl.test s hr) (hl.time s hr) fun h => by
      rw [hidle] at h
      cases h
    have hany : ((link s).2 ++ (testerMachine now (link s).1).2).any isTester =
        (testerMachine now (link s).1).2.any isTester := by
      have hlink : (link s).2.any isTester = false :=
        List.any_eq_false.mpr fun a ha => by rw [(hl.inert s hr a ha).2.2]; exact Bool.false_ne_true
      rw [List.any_append, hlink, Bool.false_or]
    obtain ⟨hclose, hseen, hinv⟩ := testerMachine_kept hI' hidle now
    rw [hpass, if_pos hr]
    refine ⟨fun _ => ⟨fun h => ?_, fun h => ?_⟩, ?_⟩
    · rcases List.mem_append.mp h with h | h
      · exact absurd rfl (hl.inert s hr _ h).2.1
      · exact hclose h
    · obtain ⟨hnil, hstart⟩ := hseen h
      rw [hnil, List.append_nil]
      exact ⟨fun a ha => (hl.inert s hr a ha).2, hstart⟩
    · rw [LinkTest.tested, hany]
      exact hinv
  · have hpass : pass link now s = link s := by rw [pass, if_pos ((hl.reaches s).not.mpr hr)]
    rw [hpass, if_neg hr]
    exact ⟨fun h => absurd h hr, hl.keeps s v hr hI⟩

/-! ### Whole runs -/

section Runs

variable {ε : Type} {step : Station → ε → Station × List Act} {reading : ε → Option Int}

/-- A station keeps the requirement when its passes are passes over some first `switch`, and its other events keep the
invariant. -/
theorem testKept_run
    (hpass : ∀ e, ∀ now ∈ reading e, ∃ link, LinkPart link ∧ ∀ t, step t e = t.call (pass link now))
    (hother : ∀ e, reading e = none → ∀ t v, TestInv t.core v →
      TestInv (step t e).1.core ((step t e).2.foldl LinkTest.next v)) (events : List ε) :
    Along (testStep step reading) (TestKept step reading) (.init, .waiting) events := by
  have hkept : ∀ (s : Station × LinkTest) e, TestInv s.1.core s.2 →
      TestKept step reading s e ∧ TestInv (step s.1 e).1.core (testNext step reading s e) := by
    intro s e hI
    cases hread : reading e with
    | none =>
      refine ⟨fun now hnow => ?_, ?_⟩
      · rw [hread] at hnow
        cases hnow
      · simp only [testNext, hread]
        exact hother e hread s.1 s.2 hI
    | some now =>
      obtain ⟨link, hl, hstep⟩ := hpass e now hread
      obtain ⟨hreq, hinv⟩ := pass_kept hl hI now
      refine ⟨fun now' hnow' => ?_, ?_⟩
      · obtain rfl : now = now' := Option.some.inj (hread.symm.trans hnow')
        rw [hstep]
        exact hreq
      · simp only [testNext, hread, hstep]
        exact hinv
  exact along_of_invariant (I := fun s => TestInv s.1.core s.2) hkept testInv_fresh events

end Runs

/-! ### The master -/

namespace Master

/-- What the test machine reads of the clock in a pass. -/
def testReading : Event → Option Int
  | .machine _ now' _ => some now'
  | _ => none

variable (c : Conf)

/-- The first `switch` of the master. -/
theorem linkPart (now : Int) (opened : Bool) : LinkPart (linkMachine c now opened) where
  reaches s := by
    cases hs : s.stat.init with
    | linkIdle =>
      simp only [linkMachine, hs]
      exact iff_of_true trivial (Or.inl hs)
    | linkConnectOk =>
      simp only [linkMachine, hs]
      exact iff_of_true rfl (Or.inr hs)
    | linkOpen =>
      refine iff_of_false ?_ (not_reaches hs (by decide) (by decide))
      simp only [linkMachine, hs]
      split_ifs
      · exact Iec10xStat.noConfusion
      · exact fun h => Iec10xStat.noConfusion (hs.symm.trans h)
    | linkConnect =>
      refine iff_of_false ?_ (not_reaches hs (by decide) (by decide))
      simp only [linkMachine, hs]
      split_ifs
      · exact Iec10xStat.noConfusion
      · exact fun h => Iec10xStat.noConfusion (hs.symm.trans h)
    | _ =>
      refine iff_of_false ?_ (not_reaches hs (by decide) (by decide))
      simp only [linkMachine, hs]
      exact Iec10xStat.noConfusion
  test s hr := by
    rcases hr with hs | hs
    · simp only [linkMachine, hs]
    · simp only [linkMachine, hs]
      rfl
  time s hr := by
    rcases hr with hs | hs
    · simp only [linkMachine, hs]
    · simp only [linkMachine, hs]
      rfl
  inert s hr := by
    rcases hr with hs | hs
    · simp only [linkMachine, hs]
      exact List.forall_mem_nil _
    · simp only [linkMachine, hs]
      cases c.servCb with
      | true => exact List.forall_mem_singleton.mpr ⟨rfl, Act.noConfusion, rfl⟩
      | false => exact List.forall_mem_nil _
  keeps s v hr hI := by
    cases hs : s.stat.init with
    | linkIdle => exact absurd (Or.inl hs) hr
    | linkConnectOk => exact absurd (Or.inr hs) hr
    | linkInit =>
      simp only [linkMachine, hs]
      exact testInv_reset rfl
    | linkOpen =>
      cases opened with
      | true =>
        simp only [linkMachine, hs, if_true]
        exact ⟨fun h => absurd h (hI.opening hs), fun h => (by cases h), fun h => by cases h⟩
      | false =>
        simp only [linkMachine, hs]
        exact hI.congr rfl rfl id
    | linkConnect =>
      simp only [linkMachine, hs]
      split_ifs
      · exact hI.congr rfl rfl fun h => by cases h
      · exact hI
    | linkDisconnect =>
      simp only [linkMachine, hs]
      cases c.servCb with
      | true => exact hI.congr rfl rfl fun h => by cases h
      | false => exact hI.congr rfl rfl fun h => by cases h
    | linkClose =>
      simp only [linkMachine, hs]
      exact hI.congr rfl rfl fun h => by cases h
    | _ =>
      simp only [linkMachine, hs]
      exact hI

/-- A dispatch of the master, with the record of its frame. -/
theorem testing_serve (now : Int) {m : Mem} {len p : Nat} (ht : takes m len p) :
    testing.Keeps fun s => serve (frameDispatch c now) m len s (p, lenAt m p) := fun s g hI _ =>
  ⟨meets_of_forall g fun _ _ _ => trivial,
    testInv_frame ht hI (handled_frameDispatch c s p m now (lenAt m p)) (by decide) (by decide)⟩

theorem testKept_events (events : List Event) :
    Along (testStep (step c) testReading) (TestKept (step c) testReading) (.init, .waiting) events := by
  refine testKept_run (fun e now hnow => ?_) (fun e he t v hI => ?_) events
  · cases e with
    | machine now₁ now' opened =>
      obtain rfl : now' = now := Option.some.inj hnow
      exact ⟨linkMachine c now₁ opened, linkPart c now₁ opened, fun _ => rfl⟩
    | _ => cases hnow
  · cases e with
    | machine now now' opened => cases he
    | recv chunk now =>
      have hlen : chunk.octets.length < 65536 := Nat.lt_of_le_of_lt chunk.le (by decide)
      exact (keeps_frameParse (frameDispatch c now) hlen (fun _ _ ht => testing_serve c now ht)
        (t.recvBuf.fill chunk.octets) t.core v hI (meets_of_forall v fun _ _ _ => trivial)).2
    | lost => exact hI.congr rfl rfl id
    | callAll => exact hI.steady (steady_buildCall c t.core _ _)
    | callPulse => exact hI.steady (steady_buildCall c t.core _ _)
    | yk nodes => exact hI.steady (steady_buildYk c t.core nodes)
    | yt nodes => exact hI.steady (steady_buildYt c t.core nodes)

end Master

/-! ### The slave -/

namespace Slave

/-- What the test machine reads of the clock in a pass. -/
def testReading : Event → Option Int
  | .machine _ now' => some now'
  | _ => none

variable {P : Type} (c : Conf P)

/-- The first `switch` of the slave. -/
theorem linkPart (now : Int) : LinkPart (linkMachine c now) where
  reaches s := by
    cases hs : s.stat.init with
    | linkIdle =>
      simp only [linkMachine, hs]
      exact iff_of_true trivial (Or.inl hs)
    | linkConnectOk =>
      simp only [linkMachine, hs]
      exact iff_of_true rfl (Or.inr hs)
    | _ =>
      refine iff_of_false ?_ (not_reaches hs (by decide) (by decide))
      simp only [linkMachine, hs]
      exact Iec10xStat.noConfusion
  test s hr := by
    rcases hr with hs | hs
    · simp only [linkMachine, hs]
    · simp only [linkMachine, hs]
      rfl
  time s hr := by
    rcases hr with hs | hs
    · simp only [linkMachine, hs]
    · simp only [linkMachine, hs]
      rfl
  inert s hr := by
    rcases hr with hs | hs
    · simp only [linkMachine, hs]
      exact List.forall_mem_nil _
    · simp only [linkMachine, hs]
      have hsends : ∀ sn up, inert (.send (mkI sn ⟨AsduType.mEiNa1.code, false, 1, Cot.init, c.asduAddr⟩
          (infoAddr 0 ++ [0])) up) := fun sn up => ⟨rfl, Act.noConfusion, isTester_mkI ..⟩
      cases c.servCb with
      | true =>
        refine List.forall_mem_cons.mpr ⟨⟨rfl, Act.noConfusion, rfl⟩, List.forall_mem_cons.mpr ⟨hsends _ _, ?_⟩⟩
        exact List.forall_mem_singleton.mpr ⟨rfl, Act.noConfusion, rfl⟩
      | false => exact List.forall_mem_cons.mpr ⟨⟨rfl, Act.noConfusion, rfl⟩, List.forall_mem_singleton.mpr (hsends _ _)⟩
  keeps s v hr hI := by
    cases hs : s.stat.init with
    | linkIdle => exact absurd (Or.inl hs) hr
    | linkConnectOk => exact absurd (Or.inr hs) hr
    | linkInit =>
      simp only [linkMachine, hs]
      exact testInv_reset rfl
    | linkDisconnect =>
      simp only [linkMachine, hs]
      cases c.servCb with
      | true => exact hI.congr rfl rfl fun h => by cases h
      | false => exact hI.congr rfl rfl fun h => by cases h
    | linkClose =>
      simp only [linkMachine, hs]
      exact hI.congr rfl rfl fun h => by cases h
    | _ =>
      simp only [linkMachine, hs]
      exact hI

/-- A dispatch of the slave, with the record of its frame. -/
theorem testing_serve {m : Mem} {len p : Nat} (ht : takes m len p) :
    testing.Keeps fun s => serve (frameDispatch c) m len s (p, lenAt m p) := fun s g hI _ =>
  ⟨meets_of_forall g fun _ _ _ => trivial,
    testInv_frame ht hI (handled_frameDispatch c s p m (lenAt m p)) (by decide) (by decide)⟩

theorem testKept_events (events : List Event) :
    Along (testStep (step c) testReading) (TestKept (step c) testReading) (.init, .waiting) events := by
  refine testKept_run (fun e now hnow => ?_) (fun e he t v hI => ?_) events
  · cases e with
    | machine now₁ now' =>
      obtain rfl : now' = now := Option.some.inj hnow
      exact ⟨linkMachine c now₁, linkPart c now₁, fun _ => rfl⟩
    | _ => cases hnow
  · cases e with
    | machine now now' => cases he
    | recv chunk =>
      have hlen : chunk.octets.length < 65536 := Nat.lt_of_le_of_lt chunk.le (by decide)
      exact (keeps_frameParse (frameDispatch c) hlen (fun _ _ ht => testing_serve c ht)
        (t.recvBuf.fill chunk.octets) t.core v hI (meets_of_forall v fun _ _ _ => trivial)).2
    | accept =>
      cases hl : t.core.link with
      | true =>
        simp only [step, Station.call, acceptCb, andThen, run_cons, run_nil, hl, if_true]
        exact testInv_reset rfl
      | false =>
        simp only [step, Station.call, acceptCb, andThen, run_cons, run_nil, hl]
        exact testInv_reset rfl
    | lost => exact hI.congr rfl rfl id
    | yxSpon nodes => exact hI.steady (steady_buildYxSpon c t.core nodes)
    | ycSpon nodes => exact hI.steady (steady_buildYcSpon c t.core nodes)

end Slave

/-- **The link test never kills a live link**, on either station, in every run from its start and with any readings of
the clock: the test machine closes only on an activation it has sent on this connection that stayed unconfirmed for
more than the timeout, and a confirmation takes it back to waiting for the next test. -/
theorem linkTest_kept (cm : Master.Conf) {P : Type} (cs : Slave.Conf P) :
    (∀ events, Along (testStep (Master.step cm) Master.testReading) (TestKept (Master.step cm) Master.testReading)
      (.init, .waiting) events) ∧
    ∀ events, Along (testStep (Slave.step cs) Slave.testReading) (TestKept (Slave.step cs) Slave.testReading)
      (.init, .waiting) events :=
  ⟨Master.testKept_events cm, Slave.testKept_events cs⟩

/-- An idle slave tests its link and gives it up behind the timeout, not at it. -/
example : .close ∉ (run (Slave.step Slave.sampleConf) Slave.sample [.machine 30001 30001, .machine 33001 33001]).2 ∧
    .close ∈ (run (Slave.step Slave.sampleConf) Slave.sample
      [.machine 30001 30001, .machine 33001 33001, .machine 33002 33002]).2 := by
  decide +kernel

end Wow.Iec104
