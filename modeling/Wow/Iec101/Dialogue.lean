import Wow.Lib.Fair

/-!
# Wow.Iec101.Dialogue — a general interrogation without its octets

What the machines of a general interrogation say to each other, in the words of the protocol.  Every step of the slave
waits for a request of the master, and the master requests only in reply: once for the acknowledgement of the call,
once for the confirmation and once for each frame of data.  So the interrogation comes to its end exactly when the
data of each step brings enough requests for the next one.

* `Talk.step`: the rounds of the two threads.
* `exists_over`: with enough frames of data every fair dialogue comes to its end; `Bound.enough`: without, none does.
-/

namespace Wow.Iec101.Dialogue

/-- What the master says: the call, a request for the data that is ready, a heartbeat. -/
inductive Down where
  | call | poll | beat
  deriving DecidableEq

/-- What the slave says: the acknowledgement of the call, the confirmation, a frame of data, normalised or not, the
termination, the answer to a heartbeat. -/
inductive Up where
  | ack | con | data (norm : Bool) | fin | nack
  deriving DecidableEq

/-- The frames the master replies to with a request. -/
def Up.asks : Up → Bool
  | con | data _ => true
  | _ => false

/-- The frames that are only acknowledgements. -/
def Up.Bare (u : Up) : Prop := u = ack ∨ u = nack

/-- Where the master stands. -/
inductive Phase where
  | start | confirm | told | success | ended
  deriving DecidableEq

/-- Where the slave stands; `asked` is in front of the interrogation. -/
inductive Stage where
  | asked | start | confirm | yx | yc | success | ended
  deriving DecidableEq

/-- The steps of the slave. -/
def Stage.next : Stage → Stage
  | start => confirm
  | confirm => yx
  | yx => yc
  | yc => success
  | success => ended
  | s => s

/-- The steps that wait for a request. -/
def Stage.waits : Stage → Bool
  | confirm | yx | yc | success => true
  | _ => false

/-- The data of the slave: its frames of yx, and those of yc, normalised or not. -/
structure Table where
  yx : ℕ
  yc : List Bool

/-- What a step of the slave says. -/
def Table.tells (T : Table) : Stage → List Up
  | .start => [.ack]
  | .confirm => [.con]
  | .yx => List.replicate T.yx (.data false)
  | .yc => T.yc.map .data
  | .success => [.fin]
  | _ => []

/-- The two machines, what is under way between them, and how often each has reported success. -/
structure Talk where
  phase : Phase
  mtack : Bool
  stage : Stage
  stack : Bool
  down : List Down
  up : List Up
  mdone : ℕ
  sdone : ℕ

/-- What a read takes. -/
def next {α : Type} (arrived : Bool) (q : List α) : Option α := if arrived then q.head? else none

/-- What it leaves. -/
def rest {α : Type} (arrived : Bool) (q : List α) : List α := if arrived then q.tail else q

/-- A round of one of the threads; the master's may fall on a heartbeat. -/
inductive Turn where
  | master (arrived beat : Bool)
  | slave (arrived : Bool)

namespace Talk

/-- The master takes a frame. -/
def masterHears (a : Talk) (u : Option Up) : Talk :=
  { a with
    phase := match u with
      | some .con | some (.data true) => .told
      | some .fin => .success
      | _ => a.phase
    mtack := a.mtack || decide (u = some .ack)
    down := a.down ++ if u.any Up.asks then [.poll] else [] }

/-- The master's machine has a request to make. -/
def polls (a : Talk) : Bool := decide (a.phase = .success) || decide (a.phase = .confirm) && a.mtack

/-- The master's machine. -/
def masterTurns (beat : Bool) (a : Talk) : Talk :=
  { a with
    phase := match a.phase with
      | .start => .confirm
      | .success => .ended
      | p => p
    mtack := a.mtack && !decide (a.phase = .confirm)
    down := a.down ++ ((if beat then [.beat] else []) ++ if a.polls then [.poll] else [])
    mdone := if a.phase = .success then a.mdone + 1 else a.mdone }

/-- The slave takes a frame. -/
def slaveHears (a : Talk) (d : Option Down) : Talk :=
  { a with
    stage := if d = some .call then .start else a.stage
    stack := a.stack || decide (d = some .poll)
    up := a.up ++ if d = some .beat then [.nack] else [] }

/-- The slave's machine takes a step. -/
def fires (a : Talk) : Bool := decide (a.stage = .start) || a.stage.waits && a.stack

/-- The slave's machine. -/
def slaveTurns (T : Table) (a : Talk) : Talk :=
  { a with
    stage := if a.fires then a.stage.next else a.stage
    stack := a.stack && !a.stage.waits
    up := a.up ++ if a.fires then T.tells a.stage else []
    sdone := if a.fires && decide (a.stage = .success) then a.sdone + 1 else a.sdone }

/-- **A round**. -/
def step (T : Table) (a : Talk) : Turn → Talk
  | .master arrived beat => masterTurns beat (masterHears { a with up := rest arrived a.up } (next arrived a.up))
  | .slave arrived => slaveTurns T (slaveHears { a with down := rest arrived a.down } (next arrived a.down))

end Talk

/-! ### Reads -/

section Read

variable {α : Type} {arrived : Bool} {q : List α}

/-- A read takes the first message, or there is nothing to take. -/
theorem next_cases (arrived : Bool) (q : List α) :
    (next arrived q = none ∧ rest arrived q = q ∧ (arrived = true → q = [])) ∨
      ∃ x, next arrived q = some x ∧ q = x :: rest arrived q := by
  cases arrived with
  | false => exact Or.inl ⟨rfl, rfl, fun h => by cases h⟩
  | true =>
    cases q with
    | nil => exact Or.inl ⟨rfl, rfl, fun _ => rfl⟩
    | cons x q => exact Or.inr ⟨x, rfl, rfl⟩

theorem mem_of_mem_rest {x : α} (h : x ∈ rest arrived q) : x ∈ q := by
  unfold rest at h
  split at h
  · exact List.mem_of_mem_tail h
  · exact h

theorem mem_of_next {x : α} (h : next arrived q = some x) : x ∈ q := by
  rcases next_cases arrived q with ⟨hnone, -, -⟩ | ⟨y, hsome, hq⟩
  · rw [hnone] at h
    cases h
  · obtain rfl := Option.some.inj (hsome.symm.trans h)
    rw [hq]
    exact List.mem_cons_self

end Read

/-! ### What is under way -/

open Talk

/-- The requests and the frames that will bring one. -/
def tokens (a : Talk) : ℕ := a.down.count .poll + a.up.countP Up.asks

/-- What each step needs of them when it begins. -/
def Table.need (T : Table) : Stage → ℕ
  | .yx => 1
  | .yc => T.yx
  | .success => T.yx + T.yc.length - 1
  | _ => 0

/-- The master has not been told of any data. -/
def Early (a : Talk) : Prop := (a.phase = .start ∨ a.phase = .confirm) ∧ a.mdone = 0

theorem Early.ne {a : Talk} (h : Early a) : a.phase ≠ .success := by
  rcases h.1 with h | h <;> rw [h] <;> rintro ⟨⟩

theorem fin_not_mem_of_bare {q : List Up} (h : ∀ u ∈ q, u.Bare) : .fin ∉ q := by
  intro hmem
  rcases h _ hmem with h | h <;> cases h

/-- **The end**: both are through and have reported success once. -/
structure Over (a : Talk) : Prop where
  stage : a.stage = .ended
  phase : a.phase = .ended
  done : a.mdone = 1 ∧ a.sdone = 1
  down : .call ∉ a.down
  up : ∀ u ∈ a.up, u.Bare

/-- **The course of an interrogation**: the call, the confirmation, the data, the termination, the end. -/
inductive Course (T : Table) (a : Talk) : Prop where
  | asked (hs : a.stage = .asked) (hdown : ∃ q, a.down = .call :: q ∧ .call ∉ q) (hup : a.up = []) (hphase : Early a)
      (hdone : a.sdone = 0)
  | confirm (hs : a.stage = .confirm) (hdown : .call ∉ a.down) (hup : ∀ u ∈ a.up, u.Bare) (hphase : Early a)
      (htoken : a.stack = true ∨ .poll ∈ a.down ∨ a.mtack = true ∨ .ack ∈ a.up) (hdone : a.sdone = 0)
  | data (hs : a.stage = .yx ∨ a.stage = .yc ∨ a.stage = .success) (hdown : .call ∉ a.down) (hup : .fin ∉ a.up)
      (hphase : a.phase ≠ .success) (hstack : a.stack = false) (htokens : T.need a.stage ≤ tokens a)
      (hdone : a.mdone = 0 ∧ a.sdone = 0)
  | closing (hs : a.stage = .ended) (hdown : .call ∉ a.down) (q r : List Up) (hup : a.up = q ++ .fin :: r)
      (hq : .fin ∉ q) (hr : ∀ u ∈ r, u.Bare) (hphase : a.phase ≠ .success) (hdone : a.mdone = 0 ∧ a.sdone = 1)
  | closed (h : Over a)

variable {T : Table} {a : Talk}

/-- What the master says in a round: requests and heartbeats. -/
theorem call_not_mem_masterTurn (arrived beat : Bool) (h : .call ∉ a.down) :
    .call ∉ (step T a (.master arrived beat)).down := by
  have hask : ∀ b : Bool, Down.call ∉ if b then [Down.poll] else [] := fun b => by cases b <;> decide
  have hbeat : Down.call ∉ if beat then [Down.beat] else [] := by cases beat <;> decide
  simp only [step, masterTurns, masterHears, List.mem_append]
  rintro ((hd | hd) | hd | hd)
  · exact h hd
  · exact hask _ hd
  · exact hbeat hd
  · exact hask _ hd

/-- The master makes a request for every frame it replies to. -/
theorem tokens_master (arrived beat : Bool) : tokens a ≤ tokens (step T a (.master arrived beat)) := by
  simp only [tokens, step, masterTurns, masterHears, List.count_append]
  rcases next_cases arrived a.up with ⟨hnone, hrest, -⟩ | ⟨u, hsome, hup⟩
  · rw [hrest]
    omega
  · rw [hsome, congrArg (List.countP Up.asks) hup, List.countP_cons, Option.any_some]
    cases u.asks with
    | true =>
      simp only [if_true, List.count_singleton_self]
      omega
    | false =>
      simp only [Bool.false_eq_true, if_false, List.count_nil]
      omega

/-- Behind its machine the master never stands at the success it has yet to report. -/
theorem phase_masterTurns_ne (beat : Bool) : (masterTurns beat a).phase ≠ .success := by
  simp only [masterTurns]
  cases a.phase <;> rintro ⟨⟩

/-- Only the termination brings the success. -/
theorem phase_masterHears_ne {u : Option Up} (h : a.phase ≠ .success) (hu : u ≠ some .fin) :
    (masterHears a u).phase ≠ .success := by
  simp only [masterHears]
  split
  · rintro ⟨⟩
  · rintro ⟨⟩
  · exact absurd rfl hu
  · exact h

theorem mdone_masterTurns (beat : Bool) (h : a.phase ≠ .success) : (masterTurns beat a).mdone = a.mdone := if_neg h

theorem phase_masterTurns_over (beat : Bool) (h : a.phase = .ended) : (masterTurns beat a).phase = .ended := by
  simp only [masterTurns, h]

/-- An acknowledgement moves the master nowhere. -/
theorem phase_masterHears_bare (arrived : Bool) (hup : ∀ u ∈ a.up, u.Bare) :
    (masterHears { a with up := rest arrived a.up } (next arrived a.up)).phase = a.phase := by
  rcases next_cases arrived a.up with ⟨hnone, -, -⟩ | ⟨u, hsome, -⟩
  · rw [hnone]
    rfl
  · rw [hsome]
    rcases hup u (mem_of_next hsome) with rfl | rfl <;> rfl

/-- A round of the master while it has not been told of any data, without any under way. -/
theorem early_master (arrived beat : Bool) (hup : ∀ u ∈ a.up, u.Bare) (h : Early a) :
    (step T a (.master arrived beat)).phase = .confirm ∧ (step T a (.master arrived beat)).mdone = 0 := by
  obtain ⟨hearly, hdone⟩ := h
  simp only [step, masterTurns, phase_masterHears_bare arrived hup]
  rcases hearly with h | h <;> rw [h] <;> exact ⟨rfl, hdone⟩

/-- An acknowledgement the master knows of. -/
theorem token_masterTurns (beat : Bool) (hphase : a.phase = .start ∨ a.phase = .confirm) (htack : a.mtack = true) :
    .poll ∈ (masterTurns beat a).down ∨ (masterTurns beat a).mtack = true := by
  rcases hphase with h | h
  · refine Or.inr ?_
    simp only [masterTurns, h, htack]
    rfl
  · refine Or.inl (List.mem_append_right _ (List.mem_append_right _ ?_))
    simp only [polls, h, htack]
    exact List.mem_singleton_self _

/-- The acknowledgement of the call brings the first request. -/
theorem token_master (arrived beat : Bool) (hup : ∀ u ∈ a.up, u.Bare) (h : Early a)
    (htoken : .poll ∈ a.down ∨ a.mtack = true ∨ .ack ∈ a.up) :
    .poll ∈ (step T a (.master arrived beat)).down ∨ (step T a (.master arrived beat)).mtack = true ∨
      .ack ∈ (step T a (.master arrived beat)).up := by
  have hphase := phase_masterHears_bare arrived hup
  -- an acknowledgement the master knows of
  have hknown : (a.mtack || decide (next arrived a.up = some .ack)) = true →
      .poll ∈ (step T a (.master arrived beat)).down ∨ (step T a (.master arrived beat)).mtack = true := by
    intro htack
    exact token_masterTurns beat (by rw [hphase]; exact h.1) htack
  rcases htoken with hpoll | htack | hack
  · exact Or.inl (List.mem_append_left _ (List.mem_append_left _ hpoll))
  · exact (hknown (by rw [htack, Bool.true_or])).imp_right Or.inl
  · rcases next_cases arrived a.up with ⟨-, hrest, -⟩ | ⟨u, hsome, hq⟩
    · refine Or.inr (Or.inr ?_)
      show .ack ∈ rest arrived a.up
      rwa [hrest]
    · rcases hup u (mem_of_next hsome) with rfl | rfl
      · exact (hknown (by rw [hsome, decide_eq_true rfl, Bool.or_true])).imp_right Or.inl
      · rw [hq] at hack
        rcases List.mem_cons.mp hack with hne | hack
        · cases hne
        · exact Or.inr (Or.inr hack)

/-- The master stays at the end. -/
theorem over_master (arrived beat : Bool) (h : Over a) : Over (step T a (.master arrived beat)) := by
  have hears := phase_masterHears_bare arrived h.up
  refine ⟨h.stage, ?_, ⟨?_, h.done.2⟩, call_not_mem_masterTurn arrived beat h.down,
    fun u hu => h.up u (mem_of_mem_rest hu)⟩
  · exact phase_masterTurns_over beat (hears.trans h.phase)
  · refine (mdone_masterTurns beat ?_).trans h.done.1
    rw [hears, h.phase]
    rintro ⟨⟩

/-- **A round of the master** keeps the course. -/
theorem course_master (arrived beat : Bool) (h : Course T a) : Course T (step T a (.master arrived beat)) := by
  have hbare : (∀ u ∈ a.up, u.Bare) → ∀ u ∈ (step T a (.master arrived beat)).up, u.Bare :=
    fun hup u hu => hup u (mem_of_mem_rest hu)
  cases h with
  | asked hs hdown hup hphase hdone =>
    obtain ⟨q, hq, hcall⟩ := hdown
    obtain ⟨h1, h2⟩ := early_master (T := T) arrived beat (by rw [hup]; exact fun u hu => absurd hu List.not_mem_nil)
      hphase
    refine .asked hs ⟨_, ?_, call_not_mem_masterTurn (T := T) (a := { a with down := q }) arrived beat hcall⟩ ?_
      ⟨Or.inr h1, h2⟩ hdone
    · show a.down ++ _ ++ _ = _
      rw [hq]
      rfl
    · exact List.eq_nil_iff_forall_not_mem.mpr fun u hu => by
        have hmem := mem_of_mem_rest hu
        rw [hup] at hmem
        exact absurd hmem List.not_mem_nil
  | confirm hs hdown hup hphase htoken hdone =>
    obtain ⟨h1, h2⟩ := early_master (T := T) arrived beat hup hphase
    exact .confirm hs (call_not_mem_masterTurn arrived beat hdown) (hbare hup) ⟨Or.inr h1, h2⟩
      (htoken.imp_right fun htoken => token_master arrived beat hup hphase htoken) hdone
  | data hs hdown hup hphase hstack htokens hdone =>
    have hne : next arrived a.up ≠ some .fin := fun hsome => hup (mem_of_next hsome)
    have hears := phase_masterHears_ne (a := { a with up := rest arrived a.up }) hphase hne
    exact .data hs (call_not_mem_masterTurn arrived beat hdown) (fun hmem => hup (mem_of_mem_rest hmem))
      (phase_masterTurns_ne _) hstack (htokens.trans (tokens_master arrived beat))
      ⟨(mdone_masterTurns beat hears).trans hdone.1, hdone.2⟩
  | closing hs hdown q r hup hq hr hphase hdone =>
    have hcall := call_not_mem_masterTurn (T := T) arrived beat hdown
    rcases next_cases arrived a.up with ⟨hnone, hrest, -⟩ | ⟨u, hsome, hu⟩
    · refine .closing hs hcall q r (hrest.trans hup) hq hr (phase_masterTurns_ne _) ⟨?_, hdone.2⟩
      refine (mdone_masterTurns beat (phase_masterHears_ne hphase ?_)).trans hdone.1
      rw [hnone]
      rintro ⟨⟩
    · cases q with
      | nil =>
        obtain ⟨rfl, hr'⟩ := List.cons.inj (hup.symm.trans hu)
        refine .closed ⟨hs, ?_, ⟨?_, hdone.2⟩, hcall, ?_⟩
        · simp only [step, masterTurns, masterHears, hsome]
        · simp only [step, masterTurns, masterHears, hsome, if_true, hdone.1]
        · show ∀ u ∈ rest arrived a.up, u.Bare
          rwa [← hr']
      | cons x q =>
        obtain ⟨rfl, hr'⟩ := List.cons.inj (hup.symm.trans hu)
        rw [List.mem_cons, not_or] at hq
        refine .closing hs hcall q r hr'.symm hq.2 hr (phase_masterTurns_ne _) ⟨?_, hdone.2⟩
        refine (mdone_masterTurns beat (phase_masterHears_ne hphase ?_)).trans hdone.1
        rw [hsome]
        exact fun h => hq.1 (Option.some.inj h).symm
  | closed hover => exact .closed (over_master arrived beat hover)

/-- What the slave has heard after a read that takes no call: of the requests one has become its own at most. -/
structure Heard (a b : Talk) : Prop where
  stage : b.stage = a.stage
  same : b.phase = a.phase ∧ b.mtack = a.mtack ∧ b.mdone = a.mdone ∧ b.sdone = a.sdone
  down : .call ∉ b.down
  up : ∃ n, b.up = a.up ++ List.replicate n .nack
  polls : b.stack = a.stack ∧ b.down.count .poll = a.down.count .poll ∨
    b.stack = true ∧ b.down.count .poll + 1 = a.down.count .poll

theorem heard (arrived : Bool) (h : .call ∉ a.down) :
    Heard a (slaveHears { a with down := rest arrived a.down } (next arrived a.down)) := by
  have hcall : .call ∉ rest arrived a.down := fun hmem => h (mem_of_mem_rest hmem)
  rcases next_cases arrived a.down with ⟨hnone, hrest, -⟩ | ⟨d, hsome, hd⟩
  · rw [hnone, hrest]
    exact ⟨rfl, ⟨rfl, rfl, rfl, rfl⟩, h, ⟨0, rfl⟩, Or.inl ⟨Bool.or_false _, rfl⟩⟩
  · rw [hsome]
    cases d with
    | call => exact absurd (mem_of_next hsome) h
    | poll =>
      refine ⟨rfl, ⟨rfl, rfl, rfl, rfl⟩, hcall, ⟨0, rfl⟩, Or.inr ⟨Bool.or_true _, ?_⟩⟩
      rw [congrArg (List.count Down.poll) hd, List.count_cons_self]
      rfl
    | beat =>
      refine ⟨rfl, ⟨rfl, rfl, rfl, rfl⟩, hcall, ⟨1, rfl⟩, Or.inl ⟨Bool.or_false _, ?_⟩⟩
      rw [congrArg (List.count Down.poll) hd, List.count_cons_of_ne (by rintro ⟨⟩)]
      rfl

theorem Heard.fin_iff {b : Talk} (h : Heard a b) : .fin ∈ b.up ↔ .fin ∈ a.up := by
  obtain ⟨n, hn⟩ := h.up
  rw [hn, List.mem_append, or_iff_left]
  exact fun hmem => by cases List.eq_of_mem_replicate hmem

theorem Heard.asks {b : Talk} (h : Heard a b) : b.up.countP Up.asks = a.up.countP Up.asks := by
  obtain ⟨n, hn⟩ := h.up
  rw [hn, List.countP_append, List.countP_replicate, if_neg (by decide), Nat.add_zero]

theorem Heard.bare {b : Talk} (h : Heard a b) (hup : ∀ u ∈ a.up, u.Bare) : ∀ u ∈ b.up, u.Bare := by
  obtain ⟨n, hn⟩ := h.up
  rw [hn]
  exact fun u hu => (List.mem_append.mp hu).elim (hup u) fun hu => Or.inr (List.eq_of_mem_replicate hu)

/-- A step the slave does not take. -/
theorem slaveTurns_stays (h : a.fires = false) : slaveTurns T a = a := by
  have hstack : (a.stack && !a.stage.waits) = a.stack := by
    rw [fires, Bool.or_eq_false_iff] at h
    cases hw : a.stage.waits with
    | true =>
      rw [hw, Bool.true_and] at h
      rw [h.2, Bool.false_and]
    | false => exact Bool.and_true _
  simp only [slaveTurns, h, hstack, Bool.false_eq_true, if_false, List.append_nil, Bool.false_and]

/-- A step the slave takes. -/
theorem slaveTurns_fires (h : a.fires = true) : slaveTurns T a =
    { a with
      stage := a.stage.next
      stack := a.stack && !a.stage.waits
      up := a.up ++ T.tells a.stage
      sdone := if a.stage = .success then a.sdone + 1 else a.sdone } := by
  simp only [slaveTurns, h, if_true, Bool.true_and, decide_eq_true_eq]

/-- The slave is behind its data only when it was before, or when it says the last of it. -/
theorem behind_data {Q : Prop} (hbehind : a.stage = .success ∨ a.stage = .ended → Q)
    (hyc : a.stage = .yc → a.fires = true → Q)
    (h : (slaveTurns T a).stage = .success ∨ (slaveTurns T a).stage = .ended) : Q := by
  cases hf : a.fires with
  | false =>
    rw [slaveTurns_stays hf] at h
    exact hbehind h
  | true =>
    rw [slaveTurns_fires hf] at h
    cases hs : a.stage with
    | yc => exact hyc hs hf
    | success => exact hbehind (Or.inl hs)
    | ended => exact hbehind (Or.inr hs)
    | asked | start | confirm | yx =>
      rw [hs] at h
      rcases h with h | h <;> cases h

/-- The slave takes the call. -/
theorem course_asked (arrived : Bool) (hs : a.stage = .asked) (hdown : ∃ q, a.down = .call :: q ∧ .call ∉ q)
    (hup : a.up = []) (hphase : Early a) (hdone : a.sdone = 0) : Course T (step T a (.slave arrived)) := by
  obtain ⟨q, hq, hcall⟩ := hdown
  rcases next_cases arrived a.down with ⟨hnone, hrest, -⟩ | ⟨d, hsome, hd⟩
  · have hstays : (slaveHears { a with down := rest arrived a.down } (next arrived a.down)).fires = false := by
      rw [hnone, hrest]
      simp only [fires, slaveHears, hs]
      rfl
    rw [step, slaveTurns_stays hstays, hnone, hrest]
    exact .asked hs ⟨q, hq, hcall⟩ (by rw [slaveHears, hup]; rfl) hphase hdone
  · obtain ⟨rfl, hrest⟩ := List.cons.inj (hq.symm.trans hd)
    have hfires : (slaveHears { a with down := rest arrived a.down } (next arrived a.down)).fires = true := by
      rw [hsome]
      rfl
    rw [step, slaveTurns_fires hfires, hsome, ← hrest]
    have hup' : (a.up ++ []) ++ [Up.ack] = [.ack] := by rw [hup]; rfl
    refine .confirm rfl hcall ?_ hphase (Or.inr (Or.inr (Or.inr ?_))) hdone
    · show ∀ u ∈ (a.up ++ []) ++ [Up.ack], u.Bare
      rw [hup']
      exact fun u hu => Or.inl (List.mem_singleton.mp hu)
    · show .ack ∈ (a.up ++ []) ++ [Up.ack]
      rw [hup']
      exact List.mem_singleton_self _

/-- The slave confirms at the first request. -/
theorem course_confirm {b : Talk} (hb : Heard a b) (hs : a.stage = .confirm) (hup : ∀ u ∈ a.up, u.Bare)
    (hphase : Early a) (htoken : a.stack = true ∨ .poll ∈ a.down ∨ a.mtack = true ∨ .ack ∈ a.up)
    (hdone : a.sdone = 0) :
    Course T (slaveTurns T b) := by
  obtain ⟨hph, hmt, hmd, hsd⟩ := hb.same
  obtain ⟨n, hn⟩ := hb.up
  have hbs := hb.stage.trans hs
  have hbare := hb.bare hup
  have hearly : Early b := ⟨by rw [hph]; exact hphase.1, hmd.trans hphase.2⟩
  cases hstack : b.stack with
  | true =>
    rw [slaveTurns_fires (by simp only [fires, hbs, hstack]; rfl), hbs]
    refine .data (Or.inl rfl) hb.down ?_ hearly.ne (Bool.and_false _) ?_ ⟨hearly.2, hsd.trans hdone⟩
    · show .fin ∉ b.up ++ [Up.con]
      rw [List.mem_append, not_or]
      exact ⟨fin_not_mem_of_bare hbare, by decide⟩
    · show 1 ≤ b.down.count .poll + (b.up ++ [Up.con]).countP Up.asks
      rw [List.countP_append]
      exact Nat.le_add_left_of_le (Nat.le_add_left 1 _)
  | false =>
    rw [slaveTurns_stays (by simp only [fires, hbs, hstack]; rfl)]
    refine .confirm hbs hb.down hbare hearly (Or.inr ?_) (hsd.trans hdone)
    obtain ⟨hsame, hpolls⟩ | ⟨htrue, -⟩ := hb.polls
    · rcases htoken with h | h | h | h
      · rw [← hsame, hstack] at h
        cases h
      · refine Or.inl (List.count_pos_iff.mp ?_)
        show 0 < b.down.count .poll
        rw [hpolls]
        exact List.count_pos_iff.mpr h
      · exact Or.inr (Or.inl (hmt.trans h))
      · refine Or.inr (Or.inr ?_)
        show .ack ∈ b.up
        rw [hn]
        exact List.mem_append_left _ h
    · rw [hstack] at htrue
      cases htrue

/-- The requests that are left when a step has been taken, and those its data will bring, are enough for the next
one. -/
theorem need_next {s : Stage} (hs : s = .yx ∨ s = .yc) {n : ℕ} (h : T.need s ≤ n + 1) :
    T.need s.next ≤ n + (T.tells s).countP Up.asks := by
  rcases hs with rfl | rfl
  · have htells : (T.tells .yx).countP Up.asks = T.yx := by
      rw [Table.tells, List.countP_replicate]
      rfl
    rw [htells]
    exact Nat.le_add_left _ _
  · have htells : (T.tells .yc).countP Up.asks = T.yc.length := by
      rw [Table.tells, List.countP_map]
      exact List.countP_eq_length.mpr fun _ _ => rfl
    rw [htells]
    have h' : T.yx ≤ n + 1 := h
    show T.yx + T.yc.length - 1 ≤ _
    omega

/-- A step between the confirmation and the termination. -/
theorem course_data {b : Talk} (hb : Heard a b) (hs : a.stage = .yx ∨ a.stage = .yc ∨ a.stage = .success)
    (hup : .fin ∉ a.up) (hphase : a.phase ≠ .success) (hstack : a.stack = false) (htokens : T.need a.stage ≤ tokens a)
    (hdone : a.mdone = 0 ∧ a.sdone = 0) : Course T (slaveTurns T b) := by
  obtain ⟨hph, -, hmd, hsd⟩ := hb.same
  have hfin : .fin ∉ b.up := fun hmem => hup (hb.fin_iff.mp hmem)
  have hph' : b.phase ≠ .success := by rwa [hph]
  have hwaits : a.stage.waits = true := by rcases hs with h | h | h <;> rw [h] <;> rfl
  have hstart : a.stage ≠ .start := by rcases hs with h | h | h <;> rw [h] <;> rintro ⟨⟩
  have hfires : b.fires = b.stack := by
    rw [fires, hb.stage, hwaits, decide_eq_false hstart, Bool.true_and, Bool.false_or]
  rcases hb.polls with ⟨hsame, hpolls⟩ | ⟨htrue, hpolls⟩
  · rw [slaveTurns_stays (hfires.trans (hsame.trans hstack))]
    refine .data (by rw [hb.stage]; exact hs) hb.down hfin hph' (hsame.trans hstack) ?_
      ⟨hmd.trans hdone.1, hsd.trans hdone.2⟩
    rw [tokens, hb.stage, hpolls, hb.asks]
    exact htokens
  · rw [slaveTurns_fires (hfires.trans htrue), hb.stage]
    have hclear : (b.stack && !a.stage.waits) = false := by rw [hwaits, Bool.not_true, Bool.and_false]
    by_cases hlast : a.stage = .success
    · rw [hlast]
      refine .closing rfl hb.down b.up [] rfl hfin (fun u hu => absurd hu List.not_mem_nil) hph'
        ⟨hmd.trans hdone.1, ?_⟩
      rw [if_pos rfl, hsd, hdone.2]
    · have hs' : a.stage = .yx ∨ a.stage = .yc := by
        rcases hs with h | h | h
        · exact Or.inl h
        · exact Or.inr h
        · exact absurd h hlast
      refine .data ?_ hb.down ?_ hph' hclear ?_ ⟨hmd.trans hdone.1, ?_⟩
      · rcases hs' with h | h <;> rw [h]
        · exact Or.inr (Or.inl rfl)
        · exact Or.inr (Or.inr rfl)
      · rw [List.mem_append, not_or]
        refine ⟨hfin, ?_⟩
        rcases hs' with h | h <;> rw [h]
        · exact fun hmem => by cases List.eq_of_mem_replicate hmem
        · intro hmem
          obtain ⟨_, -, hx⟩ := List.mem_map.mp hmem
          cases hx
      · show T.need a.stage.next ≤ b.down.count .poll + (b.up ++ T.tells a.stage).countP Up.asks
        rw [List.countP_append, ← Nat.add_assoc, hb.asks]
        refine need_next hs' (htokens.trans (Nat.le_of_eq ?_))
        rw [tokens]
        omega
      · rw [if_neg hlast, hsd, hdone.2]

/-- The slave stays at the end. -/
theorem over_slave (arrived : Bool) (h : Over a) : Over (step T a (.slave arrived)) := by
  have hh := heard arrived h.down
  obtain ⟨hph, -, hmd, hsd⟩ := hh.same
  have hbs := hh.stage.trans h.stage
  rw [step, slaveTurns_stays (by rw [fires, hbs]; rfl)]
  exact ⟨hbs, hph.trans h.phase, ⟨hmd.trans h.done.1, hsd.trans h.done.2⟩, hh.down, hh.bare h.up⟩

/-- **A round of the slave** keeps the course. -/
theorem course_slave (arrived : Bool) (h : Course T a) : Course T (step T a (.slave arrived)) := by
  cases h with
  | asked hs hdown hup hphase hdone => exact course_asked arrived hs hdown hup hphase hdone
  | confirm hs hdown hup hphase htoken hdone => exact course_confirm (heard arrived hdown) hs hup hphase htoken hdone
  | data hs hdown hup hphase hstack htokens hdone =>
    exact course_data (heard arrived hdown) hs hup hphase hstack htokens hdone
  | closing hs hdown q r hup hq hr hphase hdone =>
    have hh := heard arrived hdown
    obtain ⟨n, hn⟩ := hh.up
    obtain ⟨hph, -, hmd, hsd⟩ := hh.same
    have hbs := hh.stage.trans hs
    rw [step, slaveTurns_stays (by rw [fires, hbs]; rfl)]
    refine .closing hbs hh.down q (r ++ List.replicate n .nack) ?_ hq ?_ (by rw [hph]; exact hphase)
      ⟨hmd.trans hdone.1, hsd.trans hdone.2⟩
    · rw [hn, hup, List.append_assoc, List.cons_append]
    · exact fun u hu => (List.mem_append.mp hu).elim (hr u) fun hu => Or.inr (List.eq_of_mem_replicate hu)
  | closed hover => exact .closed (over_slave arrived hover)

theorem course_step (t : Turn) (h : Course T a) : Course T (step T a t) := by
  cases t with
  | master arrived beat => exact course_master arrived beat h
  | slave arrived => exact course_slave arrived h

/-- The call is made, and nothing else is under way. -/
def begun (mtack stack : Bool) : Talk := ⟨.start, mtack, .asked, stack, [.call], [], 0, 0⟩

theorem course_begun (mtack stack : Bool) : Course T (begun mtack stack) :=
  .asked rfl ⟨[], rfl, List.not_mem_nil⟩ rfl ⟨Or.inl rfl, rfl⟩ rfl

/-- The slave reports its success at its last step. -/
theorem Course.stage_of_sdone (h : Course T a) (hdone : a.sdone = 1) : a.stage = .ended := by
  have hne : a.sdone ≠ 0 := by rw [hdone]; exact Nat.one_ne_zero
  cases h with
  | asked _ _ _ _ h0 => exact absurd h0 hne
  | confirm _ _ _ _ _ h0 => exact absurd h0 hne
  | data _ _ _ _ _ _ h0 => exact absurd h0.2 hne
  | closing hs => exact hs
  | closed hover => exact hover.stage

/-! ### Progress -/

/-- **Enough data**: a frame of yx, and two frames in all. -/
def Table.Enough (T : Table) : Prop := 1 ≤ T.yx ∧ 2 ≤ T.yx + T.yc.length

instance (T : Table) : Decidable T.Enough := inferInstanceAs (Decidable (_ ∧ _))

/-- The steps that are left. -/
def Stage.todo : Stage → ℕ
  | asked => 6
  | start => 6
  | confirm => 5
  | yx => 4
  | yc => 3
  | success => 2
  | ended => 1

/-- The frame that brings a step forward. -/
def Stage.wants : Stage → Up → Bool
  | confirm, u => decide (u = .ack)
  | ended, u => decide (u = .fin)
  | _, u => u.asks

/-- How far off the next step is: a request the slave has taken, one under way to it, an acknowledgement the master has
taken, a frame under way to it. -/
def leg (a : Talk) : ℕ × ℕ :=
  if a.stage = .asked then (0, 0)
  else if a.stage = .ended then (3, place a.stage.wants a.up)
  else if a.stack then (0, 0)
  else if .poll ∈ a.down then (1, place (fun d => decide (d = .poll)) a.down)
  else if a.stage = .confirm ∧ a.mtack then (2, if a.phase = .start then 1 else 0)
  else (3, place a.stage.wants a.up)

/-- How far off the end is. -/
def rank (a : Talk) : ℕ ×ₗ ℕ ×ₗ ℕ := toLex (a.stage.todo, toLex (leg a))

/-- The rounds that bring the dialogue on: a read of the one who has the next word. -/
def helps (a : Talk) : Turn → Prop
  | .slave arrived => arrived = true ∧ (leg a).1 ≤ 1
  | .master arrived _ => arrived = true ∧ 2 ≤ (leg a).1

theorem rank_lt_of_todo {a' : Talk} (h : a'.stage.todo < a.stage.todo) : rank a' < rank a :=
  Prod.Lex.toLex_lt_toLex.mpr (Or.inl h)

theorem rank_lt_of_leg {a' : Talk} (hs : a'.stage = a.stage)
    (h : (leg a').1 < (leg a).1 ∨ (leg a').1 = (leg a).1 ∧ (leg a').2 < (leg a).2) : rank a' < rank a :=
  Prod.Lex.toLex_lt_toLex.mpr (Or.inr ⟨congrArg Stage.todo hs, Prod.Lex.toLex_lt_toLex.mpr h⟩)

theorem rank_eq_of_leg {a' : Talk} (hs : a'.stage = a.stage) (h : leg a' = leg a) : rank a' = rank a := by
  rw [rank, rank, hs, h]

theorem todo_next {s : Stage} (h : s.waits = true) : s.next.todo < s.todo := by
  cases s <;> first | decide | cases h

theorem eq_yc_of_next {s : Stage} (hw : s.waits = true) (h : s.next = .success) : s = .yc := by
  cases s <;> first | rfl | exact absurd h (by decide)

theorem eq_success_of_next {s : Stage} (hw : s.waits = true) (h : s.next = .ended) : s = .success := by
  cases s <;> first | rfl | exact absurd h (by decide) | exact absurd hw (by decide)

/-- Waiting for a request. -/
theorem leg_waits (h : a.stage.waits = true) : leg a =
    if a.stack then (0, 0)
    else if .poll ∈ a.down then (1, place (fun d => decide (d = .poll)) a.down)
    else if a.stage = .confirm ∧ a.mtack then (2, if a.phase = .start then 1 else 0)
    else (3, place a.stage.wants a.up) := by
  have hasked : a.stage ≠ .asked := fun hs => by rw [hs] at h; cases h
  have hover : a.stage ≠ .ended := fun hs => by rw [hs] at h; cases h
  rw [leg, if_neg hasked, if_neg hover]

/-- **While a step waits** its request is on its way, or the frame that brings it. -/
theorem exists_wanted (hT : T.Enough) (h : Course T a) (hw : a.stage.waits = true) (hstack : a.stack = false)
    (hpoll : .poll ∉ a.down) (htack : ¬ (a.stage = .confirm ∧ a.mtack = true)) :
    ∃ u ∈ a.up, a.stage.wants u = true := by
  cases h with
  | asked hs => rw [hs] at hw; cases hw
  | confirm hs hdown hup hphase htoken hdone =>
    rcases htoken with h | h | h | h
    · rw [hstack] at h
      cases h
    · exact absurd h hpoll
    · exact absurd ⟨hs, h⟩ htack
    · exact ⟨.ack, h, by rw [hs]; rfl⟩
  | data hs hdown hup hphase hstack' htokens hdone =>
    obtain ⟨h1, h2⟩ := hT
    have hneed : 0 < T.need a.stage := by
      rcases hs with h | h | h <;> rw [h, Table.need] <;> omega
    have htok := hneed.trans_le htokens
    rw [tokens, List.count_eq_zero.mpr hpoll, Nat.zero_add, List.countP_pos_iff] at htok
    obtain ⟨u, hu, hasks⟩ := htok
    refine ⟨u, hu, ?_⟩
    rcases hs with h | h | h <;> rw [h] <;> exact hasks
  | closing hs => rw [hs] at hw; cases hw
  | closed hover => rw [hover.stage] at hw; cases hw

/-- A slave that hears nothing and takes no step stays as it is. -/
theorem slave_stays {arrived : Bool} (hnone : next arrived a.down = none) (hrest : rest arrived a.down = a.down)
    (h : a.fires = false) : step T a (.slave arrived) = a := by
  have hears : slaveHears { a with down := rest arrived a.down } (next arrived a.down) = a := by
    rw [hnone, hrest]
    simp only [slaveHears, if_false, reduceCtorEq, decide_false, Bool.or_false, List.append_nil]
  rw [step, hears, slaveTurns_stays h]

/-- **A round of the slave** while a step waits. -/
theorem rank_slave_waits (hT : T.Enough) (h : Course T a) (hw : a.stage.waits = true) (hdown : .call ∉ a.down)
    (arrived : Bool) : rank (step T a (.slave arrived)) < rank a ∨
      rank (step T a (.slave arrived)) = rank a ∧ ¬ helps a (.slave arrived) := by
  have hstart : a.stage ≠ .start := fun hs => by rw [hs] at hw; cases hw
  have hb := heard arrived hdown
  have hfires : ∀ b : Talk, b.stage = a.stage → b.fires = b.stack := fun b hs => by
    rw [fires, hs, hw, decide_eq_false hstart, Bool.true_and, Bool.false_or]
  cases hstack : (slaveHears { a with down := rest arrived a.down } (next arrived a.down)).stack with
  | true =>
    refine Or.inl (rank_lt_of_todo ?_)
    rw [step, slaveTurns_fires ((hfires _ hb.stage).trans hstack), hb.stage]
    exact todo_next hw
  | false =>
    have hstack' : a.stack = false := by
      rcases hb.polls with ⟨hsame, -⟩ | ⟨htrue, -⟩
      · rw [← hsame, hstack]
      · rw [hstack] at htrue
        cases htrue
    rcases next_cases arrived a.down with ⟨hnone, hrest, hempty⟩ | ⟨d, hsome, hd⟩
    · refine Or.inr ⟨by rw [slave_stays hnone hrest ((hfires a rfl).trans hstack')], ?_⟩
      rintro ⟨harr, hle⟩
      rw [leg_waits hw, hstack', hempty harr, if_neg Bool.false_ne_true, if_neg List.not_mem_nil] at hle
      split at hle
      · exact absurd hle (by decide : ¬ 2 ≤ 1)
      · exact absurd hle (by decide : ¬ 3 ≤ 1)
    · have hbeat : d = .beat := by
        cases d with
        | call => exact absurd (mem_of_next hsome) hdown
        | poll =>
          rw [hsome] at hstack
          exact absurd ((Bool.or_true _).symm.trans hstack) (by decide)
        | beat => rfl
      subst hbeat
      have hstep : step T a (.slave arrived) = { a with down := rest arrived a.down, up := a.up ++ [.nack] } := by
        rw [step, slaveTurns_stays ((hfires _ hb.stage).trans hstack), hsome]
        simp only [slaveHears, Option.some.injEq, reduceCtorEq, if_false, if_true, decide_false, Bool.or_false]
      have hpoll : .poll ∈ a.down ↔ .poll ∈ rest arrived a.down := by
        rw [congrArg (Down.poll ∈ ·) hd, List.mem_cons, or_iff_right (by rintro ⟨⟩)]
      have hleg := leg_waits (a := { a with down := rest arrived a.down, up := a.up ++ [.nack] }) hw
      rw [hstep]
      by_cases hmem : .poll ∈ a.down
      · refine Or.inl (rank_lt_of_leg rfl (Or.inr ?_))
        rw [hleg, leg_waits hw, hstack', if_neg Bool.false_ne_true, if_neg Bool.false_ne_true, if_pos hmem,
          if_pos (hpoll.mp hmem)]
        refine ⟨rfl, ?_⟩
        rw [congrArg (place _) hd]
        exact place_tail_lt (x := Down.beat) rfl
      · refine Or.inr ⟨rank_eq_of_leg rfl ?_, ?_⟩
        · rw [hleg, leg_waits hw, hstack', if_neg Bool.false_ne_true, if_neg Bool.false_ne_true, if_neg hmem,
            if_neg fun h => hmem (hpoll.mpr h)]
          by_cases htack : a.stage = .confirm ∧ a.mtack = true
          · rw [if_pos htack, if_pos htack]
          · rw [if_neg htack, if_neg htack, place_append _ (exists_wanted hT h hw hstack' hmem htack)]
        · rintro ⟨-, hle⟩
          rw [leg_waits hw, hstack', if_neg Bool.false_ne_true, if_neg hmem] at hle
          split at hle
          · exact absurd hle (by decide : ¬ 2 ≤ 1)
          · exact absurd hle (by decide : ¬ 3 ≤ 1)

/-- The slave in front of the interrogation and behind it. -/
theorem rank_slave (hT : T.Enough) (h : Course T a) (hover : ¬ Over a) (arrived : Bool) :
    rank (step T a (.slave arrived)) < rank a ∨
      rank (step T a (.slave arrived)) = rank a ∧ ¬ helps a (.slave arrived) := by
  cases h with
  | asked hs hdown hup hphase hdone =>
    obtain ⟨q, hq, -⟩ := hdown
    rcases next_cases arrived a.down with ⟨hnone, hrest, hempty⟩ | ⟨d, hsome, hd⟩
    · refine Or.inr ⟨by rw [slave_stays hnone hrest (by rw [fires, hs]; rfl)], ?_⟩
      rintro ⟨harr, -⟩
      rw [hempty harr] at hq
      cases hq
    · obtain ⟨rfl, -⟩ := List.cons.inj (hq.symm.trans hd)
      refine Or.inl (rank_lt_of_todo ?_)
      rw [step, slaveTurns_fires (by rw [hsome]; rfl), hsome, hs]
      exact (by decide : Stage.confirm.todo < Stage.asked.todo)
  | confirm hs hdown hup hphase htoken hdone =>
    exact rank_slave_waits hT (.confirm hs hdown hup hphase htoken hdone) (by rw [hs]; rfl) hdown arrived
  | data hs hdown hup hphase hstack htokens hdone =>
    exact rank_slave_waits hT (.data hs hdown hup hphase hstack htokens hdone)
      (by rcases hs with h | h | h <;> rw [h] <;> rfl) hdown arrived
  | closing hs hdown q r hup hq hr hphase hdone =>
    have hb := heard arrived hdown
    obtain ⟨n, hn⟩ := hb.up
    have hbs := hb.stage.trans hs
    rw [step, slaveTurns_stays (by rw [fires, hbs]; rfl)]
    have hasked : a.stage ≠ .asked := by rw [hs]; rintro ⟨⟩
    have hfin : ∃ u ∈ a.up, a.stage.wants u = true := ⟨.fin, by rw [hup]; simp, by rw [hs]; rfl⟩
    refine Or.inr ⟨rank_eq_of_leg hb.stage ?_, ?_⟩
    · rw [leg, leg, hb.stage, if_neg hasked, if_neg hasked, if_pos hs, if_pos hs, hn, place_append _ hfin]
    · rintro ⟨-, hle⟩
      rw [leg, if_neg hasked, if_pos hs] at hle
      exact absurd hle (by decide : ¬ 3 ≤ 1)
  | closed hend => exact absurd hend hover

/-- The master that has the confirmation, in a round without a request. -/
theorem knows_confirm (h : Course T a) {arrived beat : Bool} (hpoll : .poll ∉ (step T a (.master arrived beat)).down)
    (htack : (a.mtack || decide (next arrived a.up = some .ack)) = true) (hconfirm : a.stage = .confirm) :
    (step T a (.master arrived beat)).mtack = true ∧ a.phase = .start ∧
      (step T a (.master arrived beat)).phase = .confirm := by
  cases h with
  | confirm _ _ hbare hearly _ _ =>
    have hphase := phase_masterHears_bare arrived hbare
    refine ⟨(token_masterTurns beat (by rw [hphase]; exact hearly.1) htack).resolve_left hpoll, ?_,
      (early_master arrived beat hbare hearly).1⟩
    refine hearly.1.resolve_right fun h => hpoll ?_
    refine List.mem_append_right _ (List.mem_append_right _ ?_)
    rw [if_pos]
    · exact List.mem_singleton_self _
    · rw [polls, hphase, h]
      exact htack
  | asked hs => rw [hs] at hconfirm; cases hconfirm
  | data hs => rcases hs with h | h | h <;> rw [h] at hconfirm <;> cases hconfirm
  | closing hs => rw [hs] at hconfirm; cases hconfirm
  | closed hover => rw [hover.stage] at hconfirm; cases hconfirm

/-- What a step behind the confirmation waits for makes the master ask again. -/
theorem asks_of_wants {stage : Stage} {u : Up} (hw : stage.waits = true) (hconfirm : stage ≠ .confirm)
    (hwants : stage.wants u = true) : u.asks = true := by
  cases stage with
  | confirm => exact absurd rfl hconfirm
  | yx | yc | success => exact hwants
  | asked | start | ended => cases hw

/-- **A round of the master** while a step waits. -/
theorem rank_master_waits (hT : T.Enough) (h : Course T a) (hw : a.stage.waits = true) (arrived beat : Bool) :
    rank (step T a (.master arrived beat)) < rank a ∨
      rank (step T a (.master arrived beat)) = rank a ∧ ¬ helps a (.master arrived beat) := by
  have hleg : leg (step T a (.master arrived beat)) =
      if a.stack then (0, 0)
      else if .poll ∈ (step T a (.master arrived beat)).down then
        (1, place (fun d => decide (d = .poll)) (step T a (.master arrived beat)).down)
      else if a.stage = .confirm ∧ (step T a (.master arrived beat)).mtack then
        (2, if (step T a (.master arrived beat)).phase = .start then 1 else 0)
      else (3, place a.stage.wants (rest arrived a.up)) :=
    leg_waits hw
  obtain ⟨d, hdown⟩ : ∃ d, (step T a (.master arrived beat)).down = a.down ++ d :=
    ⟨_, List.append_assoc _ _ _⟩
  -- the slave has the next word
  by_cases hs : a.stack = true
  · refine Or.inr ⟨rank_eq_of_leg rfl ?_, ?_⟩
    · rw [hleg, leg_waits hw, if_pos hs, if_pos hs]
    · rintro ⟨-, hle⟩
      rw [leg_waits hw, if_pos hs] at hle
      exact absurd hle (by decide : ¬ 2 ≤ 0)
  by_cases hpoll : .poll ∈ a.down
  · refine Or.inr ⟨rank_eq_of_leg rfl ?_, ?_⟩
    · rw [hleg, leg_waits hw, if_neg hs, if_neg hs, hdown, if_pos (List.mem_append_left _ hpoll), if_pos hpoll,
        place_append _ ⟨_, hpoll, decide_eq_true rfl⟩]
    · rintro ⟨-, hle⟩
      rw [leg_waits hw, if_neg hs, if_pos hpoll] at hle
      exact absurd hle (by decide : ¬ 2 ≤ 1)
  -- the master makes a request
  by_cases hpoll' : .poll ∈ (step T a (.master arrived beat)).down
  · refine Or.inl (rank_lt_of_leg rfl (Or.inl ?_))
    rw [hleg, leg_waits hw, if_neg hs, if_neg hs, if_pos hpoll', if_neg hpoll]
    split
    · exact (by decide : 1 < 2)
    · exact (by decide : 1 < 3)
  by_cases htack : a.stage = .confirm ∧ a.mtack = true
  · obtain ⟨h1, h2, h3⟩ := knows_confirm h hpoll' (by rw [htack.2, Bool.true_or]) htack.1
    refine Or.inl (rank_lt_of_leg rfl (Or.inr ?_))
    rw [hleg, leg_waits hw, if_neg hs, if_neg hs, if_neg hpoll', if_neg hpoll, if_pos htack, if_pos ⟨htack.1, h1⟩,
      if_pos h2, h3]
    exact ⟨rfl, (by decide : 0 < 1)⟩
  have hwanted := exists_wanted hT h hw (by simpa using hs) hpoll htack
  have hfar : leg a = (3, place a.stage.wants a.up) := by
    rw [leg_waits hw, if_neg hs, if_neg hpoll, if_neg htack]
  by_cases htack' : a.stage = .confirm ∧ (step T a (.master arrived beat)).mtack = true
  · refine Or.inl (rank_lt_of_leg rfl (Or.inl ?_))
    rw [hfar, hleg, if_neg hs, if_neg hpoll', if_pos htack']
    exact (by decide : 2 < 3)
  have hfar' : leg (step T a (.master arrived beat)) = (3, place a.stage.wants (rest arrived a.up)) := by
    rw [hleg, if_neg hs, if_neg hpoll', if_neg htack']
  rcases next_cases arrived a.up with ⟨hnone, hrest, hempty⟩ | ⟨u, hsome, hu⟩
  · refine Or.inr ⟨rank_eq_of_leg rfl (by rw [hfar', hfar, hrest]), ?_⟩
    rintro ⟨harr, -⟩
    obtain ⟨u, hmem, -⟩ := hwanted
    rw [hempty harr] at hmem
    exact List.not_mem_nil hmem
  · refine Or.inl (rank_lt_of_leg rfl (Or.inr ?_))
    rw [hfar', hfar]
    refine ⟨rfl, ?_⟩
    rw [congrArg (place _) hu]
    refine place_tail_lt (Bool.eq_false_iff.mpr fun hwants => ?_)
    by_cases hconfirm : a.stage = .confirm
    · rw [hconfirm] at hwants
      obtain rfl : u = .ack := of_decide_eq_true hwants
      exact htack' ⟨hconfirm, (knows_confirm h hpoll' (by rw [hsome, decide_eq_true rfl, Bool.or_true]) hconfirm).1⟩
    · refine hpoll' (List.mem_append_left _ (List.mem_append_right _ ?_))
      rw [hsome, Option.any_some, asks_of_wants hw hconfirm hwants]
      exact List.mem_singleton_self _

theorem rank_master (hT : T.Enough) (h : Course T a) (hover : ¬ Over a) (arrived beat : Bool) :
    Over (step T a (.master arrived beat)) ∨ rank (step T a (.master arrived beat)) < rank a ∨
      rank (step T a (.master arrived beat)) = rank a ∧ ¬ helps a (.master arrived beat) := by
  have hcourse := course_master (T := T) arrived beat h
  cases h with
  | asked hs hdown hup hphase hdone =>
    refine Or.inr (Or.inr ⟨rank_eq_of_leg rfl ?_, ?_⟩)
    · rw [leg, leg, if_pos hs]
      exact if_pos hs
    · rintro ⟨-, hle⟩
      rw [leg, if_pos hs] at hle
      exact absurd hle (by decide : ¬ 2 ≤ 0)
  | confirm hs hdown hup hphase htoken hdone =>
    exact Or.inr (rank_master_waits hT (.confirm hs hdown hup hphase htoken hdone) (by rw [hs]; rfl) arrived beat)
  | data hs hdown hup hphase hstack htokens hdone =>
    exact Or.inr (rank_master_waits hT (.data hs hdown hup hphase hstack htokens hdone)
      (by rcases hs with h | h | h <;> rw [h] <;> rfl) arrived beat)
  | closing hs hdown q r hup hq hr hphase hdone =>
    have hasked : a.stage ≠ .asked := by rw [hs]; rintro ⟨⟩
    have hleg : leg a = (3, place a.stage.wants a.up) := by rw [leg, if_neg hasked, if_pos hs]
    have hleg' : leg (step T a (.master arrived beat)) = (3, place a.stage.wants (rest arrived a.up)) := by
      rw [leg]
      exact (if_neg hasked).trans (if_pos hs)
    rcases next_cases arrived a.up with ⟨hnone, hrest, hempty⟩ | ⟨u, hsome, hu⟩
    · refine Or.inr (Or.inr ⟨rank_eq_of_leg rfl (by rw [hleg, hleg', hrest]), ?_⟩)
      rintro ⟨harr, -⟩
      rw [hempty harr] at hup
      exact absurd (congrArg List.length hup) (by simp)
    · cases hcourse with
      | closed hend => exact Or.inl hend
      | closing _ _ q' r' hup' _ _ _ _ =>
        refine Or.inr (Or.inl (rank_lt_of_leg rfl (Or.inr ?_)))
        rw [hleg, hleg']
        refine ⟨rfl, ?_⟩
        rw [congrArg (place _) hu]
        refine place_tail_lt (Bool.eq_false_iff.mpr fun hwants => ?_)
        rw [hs] at hwants
        obtain rfl : u = .fin := of_decide_eq_true hwants
        -- behind the termination there is no other one
        have hlast : rest arrived a.up = r := by
          cases q with
          | nil => exact (List.cons.inj (hup.symm.trans hu)).2.symm
          | cons x q => exact absurd (List.cons.inj (hup.symm.trans hu)).1 fun h => hq (h ▸ List.mem_cons_self)
        have hfin : .fin ∈ r := by
          rw [← hlast, show rest arrived a.up = q' ++ .fin :: r' from hup']
          exact List.mem_append_right _ List.mem_cons_self
        exact absurd hfin (fin_not_mem_of_bare hr)
      | asked hs' => rw [show a.stage = .asked from hs'] at hs; cases hs
      | confirm hs' => rw [show a.stage = .confirm from hs'] at hs; cases hs
      | data hs' =>
        have hs'' : a.stage = .yx ∨ a.stage = .yc ∨ a.stage = .success := hs'
        rcases hs'' with h | h | h <;> rw [h] at hs <;> cases hs
  | closed hend => exact absurd hend hover

/-- **With enough data** nothing comes to rest before the end. -/
theorem over_of_settled (hT : T.Enough) (h : Course T a) (hdown : a.down = []) (hup : a.up = [])
    (hmtack : a.mtack = false) (hstack : a.stack = false) : Over a := by
  cases h with
  | asked hs hcall =>
    obtain ⟨q, hq, -⟩ := hcall
    rw [hdown] at hq
    cases hq
  | confirm hs _ _ _ htoken _ =>
    rw [hstack, hdown, hmtack, hup] at htoken
    rcases htoken with h | h | h | h
    · cases h
    · exact absurd h List.not_mem_nil
    · cases h
    · exact absurd h List.not_mem_nil
  | data hs _ _ _ _ htokens _ =>
    obtain ⟨h1, h2⟩ := hT
    have hneed : 0 < T.need a.stage := by
      rcases hs with h | h | h <;> rw [h, Table.need] <;> omega
    rw [tokens, hdown, hup] at htokens
    exact absurd (hneed.trans_le htokens) (Nat.lt_irrefl 0)
  | closing hs _ q r hq =>
    rw [hup] at hq
    exact absurd (congrArg List.length hq) (by simp)
  | closed hover => exact hover

theorem over_step (t : Turn) (h : Over a) : Over (step T a t) := by
  cases t with
  | master arrived beat => exact over_master arrived beat h
  | slave arrived => exact over_slave arrived h

/-- **With enough data** the dialogue comes to its end for good, whatever the order of the rounds. -/
theorem exists_over (hT : T.Enough) (h : Course T a) {sched : ℕ → Turn}
    (hmaster : Recurs sched fun t => ∃ beat, t = .master true beat) (hslave : Recurs sched fun t => t = .slave true) :
    ∃ n, ∀ m, n ≤ m → Over (trail (step T) sched a m) := by
  have hcourse : ∀ n, Course T (trail (step T) sched a n) := trail_invariant (fun b t => course_step t) h
  suffices hend : ∃ n, Over (trail (step T) sched a n) by
    obtain ⟨n, hn⟩ := hend
    exact ⟨n, fun m hnm => trail_stable (fun b t => over_step t) hnm hn⟩
  refine exists_trail rank helps hcourse ?_ ?_
  · intro b t hb hover
    have hrank : Over (step T b t) ∨ rank (step T b t) < rank b ∨ rank (step T b t) = rank b ∧ ¬ helps b t := by
      cases t with
      | master arrived beat => exact rank_master hT hb hover arrived beat
      | slave arrived => exact Or.inr (rank_slave hT hb hover arrived)
    refine hrank.imp_right (Or.imp_right fun hsame => ⟨hsame.1, ?_, hsame.2⟩)
    have hleg : leg (step T b t) = leg b := congrArg (fun x => ofLex (ofLex x).2) hsame.1
    funext t'
    cases t' <;> simp only [helps, hleg]
  · intro b _ _ n
    by_cases hle : (leg b).1 ≤ 1
    · obtain ⟨m, hnm, hm⟩ := hslave n
      exact ⟨m, hnm, by rw [hm]; exact ⟨rfl, hle⟩⟩
    · obtain ⟨m, hnm, beat, hm⟩ := hmaster n
      exact ⟨m, hnm, by rw [hm]; exact ⟨rfl, Nat.lt_of_not_le hle⟩⟩

/-! ### Not enough data -/

/-- The frames that bring a request, now or in the end. -/
def Up.brings : Up → Bool
  | ack => true
  | u => u.asks

/-- All requests there will be without further frames of the slave. -/
def load (a : Talk) : ℕ := a.stack.toNat + a.down.count .poll + (a.mtack.toNat + a.up.countP Up.brings)

/-- The most there can be when a step begins. -/
def Table.cap (T : Table) : Stage → ℕ
  | .confirm => 1
  | s => T.need s

/-- **Requests only answer**: a dialogue that began without any to spare has no more of them than the slave has given
occasion to, and no step is taken without one. -/
structure Bound (T : Table) (a : Talk) : Prop where
  load : a.stage ≠ .ended → load a ≤ T.cap a.stage
  success : a.stage = .success → 1 ≤ T.yx
  enough : a.stage = .ended → T.Enough

theorem load_masterHears {arrived : Bool} (hfin : .fin ∉ a.up) :
    load (masterHears { a with up := rest arrived a.up } (next arrived a.up)) ≤ load a := by
  rcases next_cases arrived a.up with ⟨hnone, hrest, -⟩ | ⟨u, hsome, hu⟩
  · rw [hnone, hrest]
    simp [load, masterHears]
  · have hcount : a.up.countP Up.brings = (rest arrived a.up).countP Up.brings + if u.brings then 1 else 0 := by
      rw [← List.countP_cons, ← hu]
    rw [hsome, load, load, hcount]
    cases u with
    | ack =>
      have hle := Bool.toNat_le a.mtack
      simp only [masterHears, Up.asks, Up.brings, Option.any_some, decide_true, Bool.or_true, Bool.toNat_true,
        Bool.false_eq_true, if_false, if_true, List.append_nil]
      omega
    | con | data norm =>
      simp only [masterHears, Up.asks, Up.brings, Option.any_some, reduceCtorEq, Option.some.injEq, decide_false,
        Bool.or_false, if_true, List.count_append, List.count_singleton_self]
      omega
    | fin => exact absurd (mem_of_next hsome) hfin
    | nack => simp [masterHears, Up.asks, Up.brings]

theorem load_masterTurns (beat : Bool) (hphase : a.phase ≠ .success) : load (masterTurns beat a) ≤ load a := by
  have hbeat : (if beat then [Down.beat] else []).count .poll = 0 := by cases beat <;> rfl
  rw [load, load]
  simp only [masterTurns, List.count_append, hbeat, polls, decide_eq_false hphase, Bool.false_or]
  cases a.mtack with
  | false => simp only [Bool.and_false, Bool.false_and, Bool.false_eq_true, if_false, List.count_nil, Nat.add_zero]; rfl
  | true =>
    by_cases hc : a.phase = .confirm
    · simp only [hc, decide_true, Bool.and_true, Bool.not_true, Bool.and_false, if_true, List.count_singleton_self,
        Bool.toNat_false, Bool.toNat_true]
      omega
    · simp only [hc, decide_false, Bool.not_false, Bool.and_true, Bool.false_eq_true, if_false, List.count_nil]
      omega

theorem bound_master (arrived beat : Bool) (hc : Course T a) (h : Bound T a) :
    Bound T (step T a (.master arrived beat)) := by
  refine ⟨fun hover => ?_, h.success, h.enough⟩
  have hover' : a.stage ≠ .ended := hover
  obtain ⟨hfin, hphase⟩ : .fin ∉ a.up ∧ a.phase ≠ .success := by
    cases hc with
    | asked _ _ hup hphase _ =>
      rw [hup]
      exact ⟨List.not_mem_nil, hphase.ne⟩
    | confirm _ _ hup hphase _ _ => exact ⟨fin_not_mem_of_bare hup, hphase.ne⟩
    | data _ _ hup hphase _ _ _ => exact ⟨hup, hphase⟩
    | closing hs => exact absurd hs hover'
    | closed hend => exact absurd hend.stage hover'
  have hne : next arrived a.up ≠ some .fin := fun hsome => hfin (mem_of_next hsome)
  calc load (step T a (.master arrived beat))
      ≤ load (masterHears { a with up := rest arrived a.up } (next arrived a.up)) :=
        load_masterTurns beat (phase_masterHears_ne hphase hne)
    _ ≤ load a := load_masterHears hfin
    _ ≤ T.cap a.stage := h.load hover'

/-- What the slave hears costs what it takes. -/
theorem Heard.load {b : Talk} (h : Heard a b) : load b ≤ load a := by
  obtain ⟨n, hn⟩ := h.up
  have hup : b.up.countP Up.brings = a.up.countP Up.brings := by
    rw [hn, List.countP_append, List.countP_replicate, if_neg (by decide), Nat.add_zero]
  rw [Dialogue.load, Dialogue.load, hup, h.same.2.1]
  rcases h.polls with ⟨h1, h2⟩ | ⟨h1, h2⟩
  · rw [h1, h2]
  · rw [h1, Bool.toNat_true]
    omega

/-- A step costs a request and brings what its frames bring. -/
theorem load_fires (hw : a.stage.waits = true) (h : a.fires = true) :
    load (slaveTurns T a) + 1 = load a + (T.tells a.stage).countP Up.brings := by
  have hstack : a.stack = true := by
    rw [fires, hw, Bool.true_and, Bool.or_eq_true, decide_eq_true_eq] at h
    refine h.resolve_left fun hs => ?_
    rw [hs] at hw
    cases hw
  rw [slaveTurns_fires h, load, load]
  simp only [hw, hstack, Bool.not_true, Bool.and_false, Bool.toNat_false, Bool.toNat_true, List.countP_append]
  omega

/-- The frames of a step, and the most there can be of them and of the requests that are left. -/
theorem cap_next {s : Stage} (hw : s.waits = true) {n : ℕ} (h : n + 1 ≤ T.cap s + (T.tells s).countP Up.brings)
    (hpos : s = .yc → 1 ≤ T.yx) (hs : s ≠ .success) : n ≤ T.cap s.next := by
  cases s with
  | confirm => exact Nat.le_of_succ_le_succ h
  | yx =>
    rw [Table.tells, List.countP_replicate] at h
    exact Nat.le_of_succ_le_succ (h.trans (Nat.le_of_eq (Nat.add_comm 1 T.yx)))
  | yc =>
    have htells : (T.tells .yc).countP Up.brings = T.yc.length := by
      rw [Table.tells, List.countP_map]
      exact List.countP_eq_length.mpr fun _ _ => rfl
    rw [htells] at h
    have h' : n + 1 ≤ T.yx + T.yc.length := h
    show n ≤ T.yx + T.yc.length - 1
    omega
  | success => exact absurd rfl hs
  | asked | start | ended => cases hw

theorem bound_waits {b : Talk} (hw : a.stage.waits = true) (hb : Heard a b) (h : Bound T a) :
    Bound T (slaveTurns T b) := by
  have hover : a.stage ≠ .ended := fun hs => by rw [hs] at hw; cases hw
  have hload := hb.load.trans (h.load hover)
  cases hfires : b.fires with
  | false =>
    rw [slaveTurns_stays hfires]
    exact ⟨fun _ => by rw [hb.stage]; exact hload, fun hs => h.success (hb.stage.symm.trans hs),
      fun hs => h.enough (hb.stage.symm.trans hs)⟩
  | true =>
    have hfire := load_fires (T := T) (by rw [hb.stage]; exact hw) hfires
    have hstage : (slaveTurns T b).stage = a.stage.next := by rw [slaveTurns_fires hfires, hb.stage]
    rw [hb.stage] at hfire
    -- the step takes a request, so there was one
    have hone : 1 ≤ T.cap a.stage := by
      refine le_trans ?_ hload
      rw [fires, hb.stage, hw, Bool.true_and, Bool.or_eq_true, decide_eq_true_eq] at hfires
      have hstack : b.stack = true := hfires.resolve_left fun hs => by rw [hs] at hw; cases hw
      rw [load, hstack, Bool.toNat_true]
      omega
    have hnext := cap_next (T := T) (n := load (slaveTurns T b)) hw (by omega)
    refine ⟨fun hne => ?_, fun hs => ?_, fun hs => ?_⟩
    · rw [hstage] at hne ⊢
      refine hnext (fun hs => ?_) fun hs => ?_
      · rw [hs] at hone
        exact hone
      · rw [hs] at hne
        exact hne rfl
    · rw [hstage] at hs
      rw [eq_yc_of_next hw hs] at hone
      exact hone
    · rw [hstage] at hs
      have hsucc := eq_success_of_next hw hs
      have hyx := h.success hsucc
      rw [hsucc] at hone
      have hone' : 1 ≤ T.yx + T.yc.length - 1 := hone
      exact ⟨hyx, by omega⟩

theorem bound_slave (arrived : Bool) (hc : Course T a) (h : Bound T a) : Bound T (step T a (.slave arrived)) := by
  have hover : ∀ {b : Talk}, a.stage = .ended → Heard a b → Bound T (slaveTurns T b) := by
    intro b hs hb
    have hbs := hb.stage.trans hs
    rw [slaveTurns_stays (by rw [fires, hbs]; rfl)]
    exact ⟨fun hne => absurd hbs hne, fun hsucc => (by cases hbs.symm.trans hsucc), fun _ => h.enough hs⟩
  cases hc with
  | asked hs hdown hup hphase hdone =>
    obtain ⟨q, hq, hcall⟩ := hdown
    rcases next_cases arrived a.down with ⟨hnone, hrest, -⟩ | ⟨d, hsome, hd⟩
    · rw [slave_stays hnone hrest (by rw [fires, hs]; rfl)]
      exact h
    · obtain ⟨rfl, -⟩ := List.cons.inj (hq.symm.trans hd)
      have hzero : load a ≤ 0 := by
        have hle := h.load (by rw [hs]; rintro ⟨⟩)
        rw [hs] at hle
        exact hle
      rw [load, congrArg (List.count Down.poll) hd, List.count_cons_of_ne (by rintro ⟨⟩)] at hzero
      rw [step, slaveTurns_fires (by rw [hsome]; rfl), hsome]
      refine ⟨fun _ => ?_, ?_, ?_⟩
      · show ((a.stack || false) && true).toNat + (rest arrived a.down).count .poll +
          (a.mtack.toNat + ((a.up ++ []) ++ [Up.ack]).countP Up.brings) ≤ 1
        rw [List.append_nil, List.countP_append, Bool.and_true, Bool.or_false]
        show _ + (_ + (_ + 1)) ≤ 1
        omega
      · rintro ⟨⟩
      · rintro ⟨⟩
  | confirm hs hdown hup hphase htoken hdone => exact bound_waits (by rw [hs]; rfl) (heard arrived hdown) h
  | data hs hdown hup hphase hstack htokens hdone =>
    exact bound_waits (by rcases hs with h | h | h <;> rw [h] <;> rfl) (heard arrived hdown) h
  | closing hs hdown => exact hover hs (heard arrived hdown)
  | closed hend => exact hover hend.stage (heard arrived hend.down)

/-- A dialogue that begins without a request to spare. -/
theorem bound_begun : Bound T (begun false false) := ⟨fun _ => Nat.le_refl 0, nofun, nofun⟩

/-- **Without enough data** such a dialogue does not come to its end. -/
theorem bound_step (t : Turn) (hc : Course T a) (h : Bound T a) : Bound T (step T a t) := by
  cases t with
  | master arrived beat => exact bound_master arrived beat hc h
  | slave arrived => exact bound_slave arrived hc h

end Wow.Iec101.Dialogue
