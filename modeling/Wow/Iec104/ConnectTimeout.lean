import Wow.Iec104.Timers

/-!
# Wow.Iec104.ConnectTimeout — when the master gives up a start

The master closes a link from `IEC10X_STA_LINK_CONNECT` when the clock is more than the timeout past
`time.init`.  Nothing stamps that time: behind `link_open` it is `time.timer` that takes the reading.

* `Opening`: the last opening of the link, with the reading of the clock behind `link_open`.
* `opened_step`: in the connect state the start is unconfirmed, and `time.init` is zero in every state.
* `inTime_iff`: the link gets its full timeout in exactly the runs that never look at it earlier with a clock
  past the timeout itself.
-/

namespace Wow.Iec104.Master

open Iec10x

/-! ### Openings -/

/-- The last opening of the link: the reading of the clock behind `link_open`, and whether the start was
confirmed since. -/
structure Opening where
  reading : Int
  confirmed : Bool
  deriving DecidableEq

/-- A frame confirms the start. -/
def confirmNext (g : Option Opening) : Act → Option Opening
  | .rx apdu => if apdu[2]? = some UFunc.startdtAck then g.map fun o => { o with confirmed := true } else g
  | _ => g

/-- The last opening behind an event with the trace `tr`. -/
def openingNext (g : Option Opening) : Event → List Act → Option Opening
  | .machine now _ _, tr => if .conn ∈ tr then some ⟨now, false⟩ else g
  | .recv _ _, tr => tr.foldl confirmNext g
  | _, _ => g

variable (c : Conf)

/-- The station with its last opening at its side. -/
def openingStep (s : Station × Option Opening) (e : Event) : (Station × Option Opening) × List Act :=
  (((step c s.1 e).1, openingNext s.2 e (step c s.1 e).2), (step c s.1 e).2)

/-- The requirement: a pass in the connect state closes the link only when its start is unconfirmed and more than
the timeout has passed since the opening. -/
def InTime (s : Station × Option Opening) : Event → Prop
  | .machine now now' opened => s.1.core.stat.init = .linkConnect →
      .close ∈ (step c s.1 (.machine now now' opened)).2 →
        ∃ o ∈ s.2, o.confirmed = false ∧ now - o.reading > connectTimeout
  | _ => True

instance (s : Station × Option Opening) : ∀ e, Decidable (InTime c s e)
  | .machine now now' opened => inferInstanceAs (Decidable (s.1.core.stat.init = .linkConnect →
      .close ∈ (step c s.1 (.machine now now' opened)).2 →
        ∃ o ∈ s.2, o.confirmed = false ∧ now - o.reading > connectTimeout))
  | .recv _ _ | .lost | .callAll | .callPulse | .yk _ | .yt _ => inferInstanceAs (Decidable True)

/-- No early look: a pass in the connect state that reads a clock past the timeout comes more than the timeout behind
the opening. -/
def NoEarlyLook (s : Station × Option Opening) : Event → Prop
  | .machine now _ _ => s.1.core.stat.init = .linkConnect → now > connectTimeout →
      ∀ o ∈ s.2, now > o.reading + connectTimeout
  | _ => True

/-! ### The invariant -/

/-- In the connect state the start is unconfirmed; `time.init` is zero. -/
def Unstamped (s : Core) (g : Option Opening) : Prop :=
  s.time.init = 0 ∧ (s.stat.init = .linkConnect → ∃ o ∈ g, o.confirmed = false)

/-- The contract of the frames. -/
def unstamped : Contract Core (Option Opening) Act where
  next := confirmNext
  assume := fun _ _ => True
  promise := fun _ _ => True
  inv := Unstamped

theorem confirmNext_quiet (g : Option Opening) (a : Act) (h : quiet a = true) : confirmNext g a = g := by
  cases a with
  | rx apdu => cases h
  | _ => rfl

/-- A frame that confirms no start. -/
theorem confirmNext_taken {m : Mem} {len p : Nat} (ht : takes m len p) (hne : m (p + 2) ≠ UFunc.startdtAck)
    (g : Option Opening) : confirmNext g (.rx (taken m len p)) = g := by
  rw [confirmNext, getElem?_taken_two ht, if_neg]
  by_cases hz : m (p + 1) = 0
  · rw [if_pos hz]
    exact (Option.some_ne_none _).symm
  · rw [if_neg hz]
    exact fun h => hne (Option.some.inj h)

/-- **One frame**: the start leaves the connect state when it is confirmed. -/
theorem keeps_serve (now : Int) {m : Mem} {len p : Nat} (ht : takes m len p) :
    unstamped.Keeps fun s => serve (frameDispatch c now) m len s (p, lenAt m p) := by
  intro s g hI _
  have hframe := handled_frameDispatch c s p m now (lenAt m p)
  refine ⟨meets_of_forall g fun _ _ _ => trivial, hframe.init.trans hI.1, fun hinit => ?_⟩
  have huStat : (uStat UFunc.startdtAck UFunc.stopdtAck (m (p + 2)) s.stat).init = .linkConnect := by
    rw [← hframe.stat]
    exact hinit
  have hstart : m (p + 2) ≠ UFunc.startdtAck := fun hb => by
    rw [uStat, if_pos hb] at huStat
    cases huStat
  have hstop : m (p + 2) ≠ UFunc.stopdtAck := fun hb => by
    rw [uStat, if_neg hstart, if_pos hb] at huStat
    cases huStat
  have hstay : s.stat.init = .linkConnect := by
    rw [uStat, if_neg hstart, if_neg hstop] at huStat
    split_ifs at huStat
    · exact huStat
    · exact huStat
  show ∃ o ∈ ((frameDispatch c now s p (lenAt m p)).run m).2.foldl confirmNext (confirmNext g (.rx (taken m len p))),
    o.confirmed = false
  rw [confirmNext_taken ht hstart, foldl_of_quiet confirmNext_quiet hframe.quiet]
  exact hI.2 hstay

/-! ### The state machine -/

theorem testerMachine_init (now : Int) (s : Core) : (testerMachine now s).1.time.init = s.time.init ∧
    ((testerMachine now s).1.stat.init = s.stat.init ∨ (testerMachine now s).1.stat.init = .linkInit) := by
  rcases testerMachine_cases now s with ⟨-, hs⟩ | ⟨-, hs⟩ | ⟨-, -, hs⟩ | ⟨-, hs⟩ | ⟨-, hs⟩
  · rw [hs]
    exact ⟨rfl, Or.inl rfl⟩
  · rw [hs]
    exact ⟨rfl, Or.inl rfl⟩
  · rw [hs]
    exact ⟨rfl, Or.inr rfl⟩
  · rw [hs]
    exact ⟨rfl, Or.inl rfl⟩
  · rw [hs]
    exact ⟨rfl, Or.inl rfl⟩

theorem linkMachine_time {now : Int} {opened : Bool} {s : Core} (h : s.time.init = 0) :
    (linkMachine c now opened s).1.time.init = 0 := by
  unfold linkMachine
  cases s.stat.init with
  | linkInit => rfl
  | linkOpen =>
    cases opened with
    | true => exact h
    | false => exact h
  | linkConnect =>
    dsimp only
    split_ifs
    · exact h
    · exact h
  | linkConnectOk => rfl
  | _ => exact h

/-- The connect state is entered with a connection, and a pass that stays in it does nothing. -/
theorem linkMachine_connect {now : Int} {opened : Bool} {s : Core}
    (h : (linkMachine c now opened s).1.stat.init = .linkConnect) :
    .conn ∈ (linkMachine c now opened s).2 ∨
      s.stat.init = .linkConnect ∧ (linkMachine c now opened s).2 = [] := by
  cases hs : s.stat.init with
  | linkOpen =>
    cases opened with
    | true =>
      simp only [linkMachine, hs]
      exact Or.inl List.mem_cons_self
    | false =>
      simp only [linkMachine, hs] at h
      exact absurd (hs.symm.trans h) (by decide)
  | linkConnect =>
    simp only [linkMachine, hs] at h ⊢
    split_ifs at h ⊢
    · cases h
    · exact Or.inr ⟨trivial, rfl⟩
  | linkInit | linkConnectOk | linkDisconnect | linkClose =>
    simp only [linkMachine, hs] at h
    cases h
  | _ =>
    simp only [linkMachine, hs] at h
    cases h

/-- **A pass of the state machine.** -/
theorem unstamped_stateMachine (now now' : Int) (opened : Bool) {s : Core} {g : Option Opening} (hI : Unstamped s g) :
    Unstamped (stateMachine c now now' opened s).1
      (if .conn ∈ (stateMachine c now now' opened s).2 then some ⟨now, false⟩ else g) := by
  unfold stateMachine
  by_cases hidle : (linkMachine c now opened s).1.stat.init ≠ .linkIdle
  · simp only [if_pos hidle]
    refine ⟨linkMachine_time c hI.1, fun hinit => ?_⟩
    rcases linkMachine_connect c hinit with hconn | ⟨hs, hnil⟩
    · rw [if_pos hconn]
      exact ⟨_, rfl, rfl⟩
    · rw [hnil, if_neg List.not_mem_nil]
      exact hI.2 hs
  · simp only [if_neg hidle]
    obtain ⟨htime, hinit⟩ := testerMachine_init now' (linkMachine c now opened s).1
    refine ⟨htime.trans (linkMachine_time c hI.1), fun h => ?_⟩
    rw [h, not_not.mp hidle] at hinit
    rcases hinit with hinit | hinit <;> cases hinit

/-- In the connect state the clock alone decides. -/
theorem close_mem_stateMachine {now now' : Int} {opened : Bool} {s : Core} (hs : s.stat.init = .linkConnect)
    (htime : s.time.init = 0) : .close ∈ (stateMachine c now now' opened s).2 ↔ now > connectTimeout := by
  have hlink : linkMachine c now opened s =
      if now > connectTimeout then andThen s [linkClose, setInit .linkInit] else (s, []) := by
    simp only [linkMachine, hs, htime, Int.sub_zero]
  have hpass : stateMachine c now now' opened s = linkMachine c now opened s := by
    rw [stateMachine, if_pos]
    rw [hlink]
    split_ifs
    · exact Iec10xStat.noConfusion
    · rw [hs]
      exact Iec10xStat.noConfusion
  rw [hpass, hlink]
  by_cases hlate : now > connectTimeout
  · rw [if_pos hlate]
    exact iff_of_true List.mem_cons_self hlate
  · rw [if_neg hlate]
    exact iff_of_false List.not_mem_nil hlate

/-! ### Whole runs -/

/-- **One event.** -/
theorem opened_step {t : Station} {g : Option Opening} (hI : Unstamped t.core g) (e : Event) :
    Unstamped (step c t e).1.core (openingNext g e (step c t e).2) := by
  have hsteady : ∀ {r : Core × List Act}, Steady t.core r → Unstamped r.1 g := fun h => by
    refine ⟨by rw [h.time, hI.1], fun hinit => hI.2 ?_⟩
    rw [← hinit, h.stat]
  cases e with
  | machine now now' opened => exact unstamped_stateMachine c now now' opened hI
  | recv chunk now =>
    have hlen : chunk.octets.length < 65536 := Nat.lt_of_le_of_lt chunk.le (by decide)
    exact (keeps_frameParse (frameDispatch c now) hlen (fun _ _ ht => keeps_serve c now ht)
      (t.recvBuf.fill chunk.octets) t.core g hI (meets_of_forall g fun _ _ _ => trivial)).2
  | lost => exact hI
  | callAll => exact hsteady (steady_buildCall c t.core _ _)
  | callPulse => exact hsteady (steady_buildCall c t.core _ _)
  | yk nodes => exact hsteady (steady_buildYk c t.core nodes)
  | yt nodes => exact hsteady (steady_buildYt c t.core nodes)

/-- One event meets the requirement exactly when it looks at the link in time. -/
theorem inTime_step {s : Station × Option Opening} (hI : Unstamped s.1.core s.2) (e : Event) :
    InTime c s e ↔ NoEarlyLook s e := by
  cases e with
  | machine now now' opened =>
    refine forall_congr' fun hs => ?_
    obtain ⟨o, ho, hunconf⟩ := hI.2 hs
    refine imp_congr (close_mem_stateMachine c hs hI.1) ?_
    constructor
    · rintro ⟨o', ho', -, hlate⟩ o'' ho''
      obtain rfl := Option.mem_unique ho' ho''
      omega
    · intro hlate
      have := hlate o ho
      exact ⟨o, ho, hunconf, by omega⟩
  | _ => exact Iff.rfl

/-- **The connection timeout**: in a run from the start of the station, every link closed from the connect state was
unconfirmed for more than the timeout, exactly when no pass looks at an opened link within the timeout with a clock
that is itself past the timeout. -/
theorem inTime_iff (events : List Event) : Along (openingStep c) (InTime c) (.init, none) events ↔
    Along (openingStep c) NoEarlyLook (.init, none) events :=
  along_congr_of_invariant (I := fun s => Unstamped s.1.core s.2) (fun _ e hI => inTime_step c hI e)
    (fun _ e hI _ => opened_step c hI e) ⟨rfl, fun h => by cases h⟩ events

/-- A clock that counts from 1970, as `gettimeofday` does: a fresh link is closed after a tenth of a second. -/
theorem not_inTime_epoch : ¬ Along (openingStep sampleConf) (InTime sampleConf) (.init, none)
    [.machine 1700000000000 1700000000000 false, .machine 1700000000100 1700000000100 true,
      .machine 1700000000200 1700000000200 false] := by
  decide +kernel

end Wow.Iec104.Master
