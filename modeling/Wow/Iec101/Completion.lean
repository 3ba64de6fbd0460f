import Wow.Iec101.Interrogation

/-!
# Wow.Iec101.Completion — when a general interrogation ends in success

A pair of stations with a general interrogation under way goes round for round with its dialogue
(`Wow.Iec101.Dialogue`), so what is known of the dialogue is known of the pair.

* `Follows`: a pair and its dialogue; `follows_step`: a round of both.
* `EndsInSuccess`: what is asked of a slave; `endsInSuccess_iff`: the node tables that meet it.
-/

namespace Wow.Iec101

open Iec10x Dialogue

variable {P : Type} {cm : Master.Conf} {cs : Slave.Conf P}

/-! ### A pair and its dialogue -/

/-- What a station has done: how many successes it has reported, every frame built inside its buffer. -/
structure Done (cb : Bool) (acts : List Act) (n : ℕ) : Prop where
  servs : servs acts = if cb then List.replicate n .callAllSuccess else []
  inside : ∀ b ∈ acts, Inside b

theorem Done.append {M : Type} {F : List UInt8 → M → Prop} {cb : Bool} {acts acts' : List Act} {words : List M}
    {n k : ℕ} (h : Done cb acts n) (h' : Puts F cb acts' words k) : Done cb (acts ++ acts') (n + k) := by
  refine ⟨?_, List.forall_mem_append.mpr ⟨h.inside, h'.inside⟩⟩
  have hsplit : Iec101.servs (acts ++ acts') = Iec101.servs acts ++ Iec101.servs acts' := List.filterMap_append
  rw [hsplit, h.servs, h'.servs]
  cases cb with
  | false => rfl
  | true => exact (List.replicate_add n k _).symm

/-- A count that goes up by one, or stays. -/
theorem ite_add_one (q : Prop) [Decidable q] (n : ℕ) : (n + 0 + if q then 1 else 0) = if q then n + 1 else n := by
  split <;> rfl

/-- **A pair of stations and its dialogue**: both stand where it says, the frames under way are its words, and the
trace has its successes. -/
structure Follows (cm : Master.Conf) (cs : Slave.Conf P) (x : Pair × Trace) (a : Talk) : Prop where
  master : Master.At x.1.master.core a
  slave : Slave.At x.1.slave.core a
  arrays : (x.1.master.Sound ∧ x.1.master.array.octets = []) ∧ x.1.slave.Sound ∧ x.1.slave.array.octets = []
  down : List.Forall₂ IsDown x.1.down a.down
  up : List.Forall₂ IsUp x.1.up a.up
  mdone : Done cm.servCb (Trace.master x.2) a.mdone
  sdone : Done cs.servCb (Trace.slave x.2) a.sdone
  fits : a.stage = .success ∨ a.stage = .ended → cs.Fits

/-- A read takes the frame of the word the dialogue takes. -/
theorem brings_next {M : Type} {F : List UInt8 → M → Prop} (hF : ∀ f w, F f w → f.length ≤ 1500)
    {q : List (List UInt8)} {words : List M} (h : List.Forall₂ F q words) (arrived : Bool) :
    Brings F (Pair.next arrived q) (next arrived words) ∧
      List.Forall₂ F (Pair.rest arrived q) (rest arrived words) := by
  cases h with
  | nil => cases arrived <;> exact ⟨rfl, .nil⟩
  | cons hw hq =>
    cases arrived with
    | false => exact ⟨rfl, .cons hw hq⟩
    | true =>
      refine ⟨?_, hq⟩
      show F (List.take 1500 _) _
      rwa [List.take_of_length_le (hF _ _ hw)]

theorem length_of_isDown (f : List UInt8) (d : Down) (h : IsDown f d) : f.length ≤ 1500 := by
  cases d with
  | call =>
    obtain ⟨l, body, -, -, hle, -⟩ := h
    exact hle.trans (by decide)
  | poll | beat =>
    obtain ⟨fcb, addr, rfl⟩ := h
    exact (by decide : 6 ≤ 1500)

theorem length_of_isUp (f : List UInt8) (u : Up) (h : IsUp f u) : f.length ≤ 1500 := by
  cases u with
  | ack | nack =>
    obtain ⟨addr, rfl⟩ := h
    exact (by decide : 6 ≤ 1500)
  | con | fin =>
    obtain ⟨l, body, -, -, hle, -⟩ := h
    exact hle.trans (by decide)
  | data norm =>
    obtain ⟨type, -, l, body, -, -, hle, -⟩ := h
    exact hle.trans (by decide)

namespace Pair

/-- A round whose machines find the general interrogation past its timeout. -/
def Expires (cm : Master.Conf) (cs : Slave.Conf P) (p : Pair) : Round → Prop
  | .master arrived sendBuf clock =>
    Late clock.callall (Master.step cm p.master (.recv (next arrived p.up) sendBuf)).1.core.toCore
  | .slave arrived clock => Late clock.callall (Slave.step cs p.slave (.recv (next arrived p.down))).1.core

/-- The reading of the clock the machines of the general interrogation take. -/
def Round.now : Round → Int
  | .master _ _ clock => clock.callall
  | .slave _ clock => clock.callall

/-- What a round is in the dialogue. -/
def Round.turn (cm : Master.Conf) (p : Pair) : Round → Turn
  | .master arrived sendBuf clock =>
    .master arrived (decide (clock.work -
      (Master.step cm p.master (.recv (next arrived p.up) sendBuf)).1.core.time.init > heartbeatTimeout))
  | .slave arrived _ => .slave arrived

end Pair

variable {x : Pair × Trace} {a : Talk}

theorem machine_of_sound {σ : Type} {t : Station σ} (h : t.Sound) (f : Cmd σ) : t.machine f = t.call f :=
  if_neg (by rw [h.1]; exact Bool.false_ne_true)

/-- **A round of the master** keeps pair and dialogue together. -/
theorem follows_master (h : Follows cm cs x a) {arrived : Bool} {sendBuf : UInt8} {clock : Clock}
    (hlate : ¬ Pair.Expires cm cs x.1 (.master arrived sendBuf clock)) :
    Follows cm cs (logged (Pair.step cm cs) x (.master arrived sendBuf clock))
      (Talk.step cs.data a (Pair.Round.turn cm x.1 (.master arrived sendBuf clock))) := by
  obtain ⟨⟨hsound, hempty⟩, harrays⟩ := h.arrays
  obtain ⟨hread, hrest⟩ := brings_next length_of_isUp h.up arrived
  obtain ⟨⟨hs, he⟩, hat, hputs⟩ := Master.At.hears (c := cm) (a := { a with up := rest arrived a.up }) hsound hempty
    ⟨h.master.init, h.master.others, h.master.phase, h.master.tack⟩ sendBuf hread
  obtain ⟨hat', hputs'⟩ := hat.turns (c := cm) clock hlate
  have hround : logged (Pair.step cm cs) x (.master arrived sendBuf clock) =
      (let r := recv (Master.handlers cm sendBuf) (Pair.next arrived x.1.up) x.1.master
      let r' := r.1.call (Master.stateMachine cm clock)
      (⟨r'.1, x.1.slave, x.1.down ++ wires r.2 ++ wires r'.2, Pair.rest arrived x.1.up⟩,
        x.2 ++ (r.2.map Sum.inl ++ r'.2.map Sum.inl))) := by
    dsimp only
    rw [← machine_of_sound hs]
    rfl
  rw [hround]
  refine ⟨hat', ⟨h.slave.init, h.slave.others, h.slave.stage, h.slave.tack⟩, ⟨⟨hs, he⟩, harrays⟩,
    List.rel_append (List.rel_append h.down hputs.wires) hputs'.wires, hrest, ?_, ?_, h.fits⟩
  · rw [Trace.master_append, Trace.master_append, Trace.master_inl, Trace.master_inl, ← List.append_assoc]
    have hdone := (h.mdone.append hputs).append hputs'
    rwa [ite_add_one] at hdone
  · rw [Trace.slave_append, Trace.slave_append, Trace.slave_inl, Trace.slave_inl, List.append_nil, List.append_nil]
    exact h.sdone

/-- **A round of the slave** keeps them together, as long as its frames fit. -/
theorem follows_slave (h : Follows cm cs x a) {arrived : Bool} {clock : Clock}
    (hlate : ¬ Pair.Expires cm cs x.1 (.slave arrived clock))
    (hfit : cs.Fits ∨ cs.Plain ∧ ∀ b ∈ Trace.slave (Pair.step cm cs x.1 (.slave arrived clock)).2, Inside b) :
    Follows cm cs (logged (Pair.step cm cs) x (.slave arrived clock))
      (Talk.step cs.data a (Pair.Round.turn cm x.1 (.slave arrived clock))) := by
  obtain ⟨harrays, hsound, hempty⟩ := h.arrays
  obtain ⟨hread, hrest⟩ := brings_next length_of_isDown h.down arrived
  obtain ⟨⟨hs, he⟩, hat, hputs⟩ := Slave.At.hears (c := cs) (a := { a with down := rest arrived a.down }) hsound hempty
    ⟨h.slave.init, h.slave.others, h.slave.stage, h.slave.tack⟩ hread
  have hround : Pair.step cm cs x.1 (.slave arrived clock) =
      (let r := recv (Slave.handlers cs) (Pair.next arrived x.1.down) x.1.slave
      let r' := r.1.call (Slave.stateMachine cs clock)
      (⟨x.1.master, r'.1, Pair.rest arrived x.1.down, x.1.up ++ wires r.2 ++ wires r'.2⟩,
        r.2.map Sum.inr ++ r'.2.map Sum.inr)) := by
    dsimp only
    rw [← machine_of_sound hs]
    rfl
  -- the frames of its yc are in the trace when it says them
  have hyc : (Talk.slaveHears { a with down := rest arrived a.down } (next arrived a.down)).stage = .yc →
      (Talk.slaveHears { a with down := rest arrived a.down } (next arrived a.down)).fires = true → cs.Fits := by
    intro hstage hfires
    rcases hfit with hfit | ⟨hplain, hinside⟩
    · exact hfit
    · refine Slave.fits_of_inside hplain fun b hb => hinside b ?_
      rw [hround]
      dsimp only
      rw [Trace.slave_append, Trace.slave_inr, Trace.slave_inr, List.mem_append]
      refine Or.inr ?_
      show b ∈ (Slave.stateMachine cs clock _).2
      rwa [hat.acts_yc hstage hfires]
  obtain ⟨hat', hputs'⟩ := hat.turns (c := cs) clock hlate hyc
  have hbehind : (Talk.slaveHears { a with down := rest arrived a.down } (next arrived a.down)).stage = .success ∨
      (Talk.slaveHears { a with down := rest arrived a.down } (next arrived a.down)).stage = .ended → cs.Fits := by
    simp only [Talk.slaveHears]
    split
    · rintro (hs | hs) <;> cases hs
    · exact h.fits
  rw [logged, hround]
  refine ⟨⟨h.master.init, h.master.others, h.master.phase, h.master.tack⟩, hat',
    ⟨harrays, hs, he⟩, hrest, List.rel_append (List.rel_append h.up hputs.wires) hputs'.wires, ?_, ?_,
    behind_data hbehind hyc⟩
  · rw [Trace.master_append, Trace.master_append, Trace.master_inr, Trace.master_inr, List.append_nil, List.append_nil]
    exact h.mdone
  · rw [Trace.slave_append, Trace.slave_append, Trace.slave_inr, Trace.slave_inr, ← List.append_assoc]
    have hdone := (h.sdone.append hputs).append hputs'
    rwa [ite_add_one] at hdone

/-- **A round of both**. -/
theorem follows_step (h : Follows cm cs x a) (r : Pair.Round) (hlate : ¬ Pair.Expires cm cs x.1 r)
    (hfit : cs.Fits ∨ cs.Plain ∧ ∀ b ∈ Trace.slave (Pair.step cm cs x.1 r).2, Inside b) :
    Follows cm cs (logged (Pair.step cm cs) x r) (Talk.step cs.data a (r.turn cm x.1)) := by
  cases r with
  | master arrived sendBuf clock => exact follows_master h hlate
  | slave arrived clock => exact follows_slave h hlate hfit

/-- **The call**. -/
theorem follows_begun {p : Pair} (h : Pair.Idle p) (junk : Master.Junk) :
    Follows cm cs (Pair.masterDoes cm (.callAll junk) p) (begun p.master.core.tack p.slave.core.tack) := by
  obtain ⟨⟨hm, hs⟩, hmaster, hslave, harrays, hdown, hup⟩ := h
  have hcall : IsDown (mk68 Master.ctrlUser cm.asduAddr
      (AsduHead.octets ⟨AsduType.cIcNa1.code, junk.sq, 1, Cot.act, junk.pn, junk.test, cm.asduAddr⟩ ++ callInfo)
      (variableLen + 1)).wire .call :=
    bears_mk68 Master.ctrlUser cm.asduAddr _ callInfo (by decide : 17 ≤ 255) rfl rfl
  have hinside : Inside (.send (mk68 Master.ctrlUser cm.asduAddr
      (AsduHead.octets ⟨AsduType.cIcNa1.code, junk.sq, 1, Cot.act, junk.pn, junk.test, cm.asduAddr⟩ ++ callInfo)
      (variableLen + 1)) true) := inside_mk68 _ _ (by decide : 17 ≤ 255)
  refine ⟨⟨hm, fun v hv => ?_, rfl, rfl⟩, ⟨hs, fun v _ => hslave v, hslave .callall, rfl⟩, harrays, ?_, ?_, ⟨?_, ?_⟩,
    ⟨?_, ?_⟩, ?_⟩
  · exact (Svc.state_set_of_ne hv _ _).trans (hmaster v)
  · show List.Forall₂ IsDown (p.down ++ [_]) [Down.call]
    rw [hdown]
    exact .cons hcall .nil
  · show List.Forall₂ IsUp p.up []
    rw [hup]
    exact .nil
  · cases cm.servCb <;> rfl
  · exact fun b hb => List.mem_singleton.mp hb ▸ hinside
  · cases cs.servCb <;> rfl
  · exact fun b hb => absurd hb List.not_mem_nil
  · rintro (hs | hs) <;> cases hs

/-! ### What is asked of an interrogation -/

/-- A slave with the groups of a node table. -/
def Slave.Conf.table (c : Slave.Conf P) (nodes : List DevNodeInfo) : Slave.Conf P :=
  { c with nodeList := setNodeInfo .empty nodes }

namespace Pair

/-- The rounds from a call of the general interrogation on, with everything that has been done. -/
def interrogation (cm : Master.Conf) (cs : Slave.Conf P) (junk : Master.Junk) (p : Pair) (sched : ℕ → Round) :
    ℕ → Pair × Trace :=
  trail (logged (step cm cs)) sched (masterDoes cm (.callAll junk) p)

/-- Both threads come to read what has arrived again and again. -/
structure Fair (sched : ℕ → Round) : Prop where
  master : Recurs sched fun r => ∃ sendBuf clock, r = .master true sendBuf clock
  slave : Recurs sched fun r => ∃ clock, r = .slave true clock

/-- Everything is delivered: no frame is under way, and no station has an acknowledgement or a request left to act
on. -/
def Settled (p : Pair) : Prop :=
  (p.down = [] ∧ p.up = []) ∧ p.master.core.tack = false ∧ p.slave.core.tack = false

/-- Timeouts come when everything is delivered, if they come. -/
def Timely (cm : Master.Conf) (cs : Slave.Conf P) (junk : Master.Junk) (p : Pair) (sched : ℕ → Round) : Prop :=
  ∀ n, Expires cm cs (interrogation cm cs junk p sched n).1 (sched n) → Settled (interrogation cm cs junk p sched n).1

end Pair

/-- **A general interrogation that has succeeded**: both stations have reported its success and nothing else, both
machines are idle, and no frame was built outside its buffer. -/
structure Interrogated (x : Pair × Trace) : Prop where
  served : servs (Trace.master x.2) = [.callAllSuccess] ∧ servs (Trace.slave x.2) = [.callAllSuccess]
  idle : x.1.master.core.stat.callall = .callAllIdle ∧ x.1.slave.core.stat.callall = .callAllIdle
  inside : (∀ b ∈ Trace.master x.2, Inside b) ∧ ∀ b ∈ Trace.slave x.2, Inside b

/-- **What is asked of two stations**: between any pair at rest a general interrogation succeeds, whatever the order of
the rounds, when every frame is delivered before a timeout. -/
def EndsInSuccess (cm : Master.Conf) (cs : Slave.Conf P) : Prop :=
  ∀ p, Pair.Idle p → ∀ junk sched, Pair.Fair sched → Pair.Timely cm cs junk p sched →
    ∃ n, ∀ m, n ≤ m → Interrogated (Pair.interrogation cm cs junk p sched m)

/-! ### The tables that meet it -/

/-- At the end of the dialogue the interrogation has succeeded. -/
theorem interrogated_of_over (h : Follows cm cs x a) (hover : Over a) (hm : cm.servCb = true)
    (hs : cs.servCb = true) :
    Interrogated x := by
  have hserved := h.mdone.servs
  have hserved' := h.sdone.servs
  have hphase := h.master.phase
  have hstage := h.slave.stage
  rw [hm, if_pos rfl, hover.done.1] at hserved
  rw [hs, if_pos rfl, hover.done.2] at hserved'
  rw [hover.phase] at hphase
  rw [hover.stage] at hstage
  exact ⟨⟨hserved, hserved'⟩, ⟨hphase, hstage⟩, h.mdone.inside, h.sdone.inside⟩

/-- At the end there is no timeout. -/
theorem not_expires_of_over (h : Follows cm cs x a) (hover : Over a) (hsettled : x.1.Settled) (r : Pair.Round) :
    ¬ Pair.Expires cm cs x.1 r := by
  obtain ⟨⟨hdown, hup⟩, -⟩ := hsettled
  have hnothing : ∀ arrived, (Pair.next arrived []).val = [] := fun arrived => by cases arrived <;> rfl
  have hidle : Iec10xStat.callAllIdle ∉ [Iec10xStat.callAllConfirm, .callAllYx, .callAllYc] := by decide
  obtain ⟨⟨hms, hme⟩, hss, hse⟩ := h.arrays
  cases r with
  | master arrived sendBuf clock =>
    have hphase := h.master.phase
    rw [hover.phase] at hphase
    have hrecv := recv_nothing (h := Master.handlers cm sendBuf) hms hme (hnothing arrived)
    rw [Pair.Expires, hup, Master.step, hrecv]
    rintro ⟨hmem, -⟩
    rw [show x.1.master.core.stat.callall = _ from hphase] at hmem
    exact hidle hmem
  | slave arrived clock =>
    have hstage := h.slave.stage
    rw [hover.stage] at hstage
    have hrecv := recv_nothing (h := Slave.handlers cs) hss hse (hnothing arrived)
    rw [Pair.Expires, hdown, Slave.step, hrecv]
    rintro ⟨hmem, -⟩
    rw [hstage] at hmem
    exact hidle hmem

/-- The rounds of an interrogation in its dialogue. -/
def Pair.turns (cm : Master.Conf) (cs : Slave.Conf P) (junk : Master.Junk) (p : Pair) (sched : ℕ → Pair.Round)
    (n : ℕ) :
    Turn :=
  (sched n).turn cm (interrogation cm cs junk p sched n).1

/-- **The interrogation goes with its dialogue** as long as no timeout comes in between and the frames fit. -/
theorem follows_interrogation (I : Talk → Prop) (cm : Master.Conf) (cs : Slave.Conf P) {p : Pair} (hidle : p.Idle)
    (junk : Master.Junk) (sched : ℕ → Pair.Round) (hbegun : I (begun p.master.core.tack p.slave.core.tack))
    (hstep : ∀ b t, I b → I (Talk.step cs.data b t))
    (hlate : ∀ n b, Follows cm cs (Pair.interrogation cm cs junk p sched n) b → I b →
      ¬ Pair.Expires cm cs (Pair.interrogation cm cs junk p sched n).1 (sched n))
    (hfit : ∀ n, cs.Fits ∨ cs.Plain ∧
      ∀ b ∈ Trace.slave (Pair.step cm cs (Pair.interrogation cm cs junk p sched n).1 (sched n)).2, Inside b) (n : ℕ) :
    Follows cm cs (Pair.interrogation cm cs junk p sched n)
        (trail (Talk.step cs.data) (Pair.turns cm cs junk p sched) (begun p.master.core.tack p.slave.core.tack) n) ∧
      I (trail (Talk.step cs.data) (Pair.turns cm cs junk p sched) (begun p.master.core.tack p.slave.core.tack) n) := by
  refine trail_follows (fun x a => Follows cm cs x a ∧ I a) (logged (Pair.step cm cs)) (Talk.step cs.data)
    (fun x r => r.turn cm x.1) ⟨follows_begun hidle junk, hbegun⟩ ?_ n
  intro k b hb
  exact ⟨follows_step hb.1 (sched k) (hlate k b hb.1 hb.2) (hfit k), hstep _ _ hb.2⟩

/-- **Enough data in frames that fit**: every interrogation succeeds. -/
theorem endsInSuccess_of_enough (hm : cm.servCb = true) (hs : cs.servCb = true) (hT : cs.data.Enough)
    (hfit : cs.Fits) : EndsInSuccess cm cs := by
  intro p hidle junk sched hfair htimely
  have hcourse := course_begun (T := cs.data) p.master.core.tack p.slave.core.tack
  have hfollows := follows_interrogation (Course cs.data) cm cs hidle junk sched hcourse (fun b t => course_step t)
    (fun n b hf hc he => by
      -- a timeout would find the dialogue at its end
      obtain ⟨⟨hdown, hup⟩, hmtack, hstack⟩ := htimely n he
      have hdown' := hf.down
      have hup' := hf.up
      rw [hdown, List.forall₂_nil_left_iff] at hdown'
      rw [hup, List.forall₂_nil_left_iff] at hup'
      have hover := over_of_settled hT hc hdown' hup' (hf.master.tack.symm.trans hmtack)
        (hf.slave.tack.symm.trans hstack)
      exact not_expires_of_over hf hover (htimely n he) (sched n) he) fun _ => Or.inl hfit
  have hmaster : Recurs (Pair.turns cm cs junk p sched) fun t => ∃ beat, t = .master true beat := fun k => by
    obtain ⟨m, hkm, sendBuf, clock, hr⟩ := hfair.master k
    exact ⟨m, hkm, _, by rw [Pair.turns, hr]; rfl⟩
  have hslave : Recurs (Pair.turns cm cs junk p sched) fun t => t = .slave true := fun k => by
    obtain ⟨m, hkm, clock, hr⟩ := hfair.slave k
    exact ⟨m, hkm, by rw [Pair.turns, hr]; rfl⟩
  obtain ⟨n, hn⟩ := exists_over hT hcourse hmaster hslave
  exact ⟨n, fun m hnm => interrogated_of_over (hfollows m).1 (hn m hnm) hm hs⟩

/-! ### The tables that do not -/

/-- A clock that stands still. -/
def still (now : Int) : Clock := ⟨now, now, now, now, now, now, now, now⟩

/-- The rounds in turn, each long before a timeout. -/
def patient (cm : Master.Conf) (cs : Slave.Conf P) (n : ℕ) (x : Pair × Trace) : Pair.Round :=
  if n % 2 = 0 then
    .master true 0 (still (Master.step cm x.1.master (.recv (Pair.next true x.1.up) 0)).1.core.time.callall)
  else .slave true (still (Slave.step cs x.1.slave (.recv (Pair.next true x.1.down))).1.core.time.callall)

theorem not_expires_patient (n : ℕ) (x : Pair × Trace) : ¬ Pair.Expires cm cs x.1 (patient cm cs n x) := by
  have hstill : ∀ s : Core, ¬ Late s.time.callall s := fun s h => by
    have hlt := h.2
    rw [sub_self] at hlt
    exact absurd hlt (by decide)
  unfold patient
  split
  · exact hstill (Master.step cm x.1.master (.recv (Pair.next true x.1.up) 0)).1.core.toCore
  · exact hstill _

theorem fair_patient {sched : ℕ → Pair.Round} {x : ℕ → Pair × Trace} (h : ∀ n, sched n = patient cm cs n (x n)) :
    Pair.Fair sched where
  master n := ⟨2 * n, by omega, _, _, by rw [h, patient, if_pos (by omega)]⟩
  slave n := ⟨2 * n + 1, by omega, _, by rw [h, patient, if_neg (by omega)]⟩

/-- **Success needs** both callbacks, enough data, and frames that fit. -/
theorem enough_of_endsInSuccess (hplain : cs.Plain) (h : EndsInSuccess cm cs) :
    (cm.servCb = true ∧ cs.servCb = true) ∧ cs.data.Enough ∧ cs.Fits := by
  obtain ⟨sched, hsched⟩ := exists_schedule (logged (Pair.step cm cs))
    (Pair.masterDoes cm (.callAll ⟨false, false, false⟩) Pair.sample) (patient cm cs)
  have hlate : ∀ n, ¬ Pair.Expires cm cs (Pair.interrogation cm cs ⟨false, false, false⟩ Pair.sample sched n).1
      (sched n) := fun n => by
    rw [hsched n]
    exact not_expires_patient n _
  obtain ⟨n, hn⟩ := h Pair.sample Pair.idle_sample ⟨false, false, false⟩ sched (fair_patient hsched)
    fun k he => absurd he (hlate k)
  -- all of the run lies in front of a success, so all frames are built inside their buffer
  have hinside : ∀ k, ∀ b ∈ Trace.slave (Pair.step cm cs
      (Pair.interrogation cm cs ⟨false, false, false⟩ Pair.sample sched k).1 (sched k)).2, Inside b := by
    intro k b hb
    have hend := hn (max n (k + 1)) (Nat.le_max_left _ _)
    refine hend.inside.2 b ?_
    obtain ⟨tr, htr⟩ := logged_grows (Pair.step cm cs) sched
      (Pair.masterDoes cm (.callAll ⟨false, false, false⟩) Pair.sample) (Nat.le_max_right n (k + 1))
    rw [Pair.interrogation, ← htr, Trace.slave_append]
    refine List.mem_append_left _ ?_
    rw [trail, logged, Trace.slave_append]
    exact List.mem_append_right _ hb
  have htack : Pair.sample.master.core.tack = false ∧ Pair.sample.slave.core.tack = false := by decide +kernel
  have hfollows := follows_interrogation (fun a => Course cs.data a ∧ Bound cs.data a) cm cs Pair.idle_sample
    ⟨false, false, false⟩ sched ⟨course_begun _ _, by rw [htack.1, htack.2]; exact bound_begun⟩
    (fun b t hb => ⟨course_step t hb.1, bound_step t hb.1 hb.2⟩) (fun k _ _ _ => hlate k)
    fun k => Or.inr ⟨hplain, hinside k⟩
  obtain ⟨hf, hc, hb⟩ := hfollows n
  obtain ⟨hserved, hserved'⟩ := (hn n (Nat.le_refl n)).served
  rw [hf.mdone.servs] at hserved
  rw [hf.sdone.servs] at hserved'
  cases hm : cm.servCb with
  | false =>
    rw [hm] at hserved
    cases hserved
  | true =>
    cases hs : cs.servCb with
    | false =>
      rw [hs] at hserved'
      cases hserved'
    | true =>
      rw [hs, if_pos rfl] at hserved'
      have hsdone := congrArg List.length hserved'
      rw [List.length_replicate] at hsdone
      have hover := hc.stage_of_sdone hsdone
      exact ⟨⟨rfl, rfl⟩, hb.enough hover, hf.fits (Or.inr hover)⟩

/-- The groups of a table are of one kind of yc each. -/
theorem plain_table (c : Slave.Conf P) (nodes : List DevNodeInfo) : (c.table nodes).Plain := by
  intro list hlist
  rcases List.mem_append.mp hlist with h | h
  · exact Or.inl fun x hx => (of_decide_eq_true (Slave.of_mem_groupLoop h hx)).2
  · exact Or.inr fun x hx => (of_decide_eq_true (Slave.of_mem_groupLoop h hx)).2

/-- A table with one group of yc, and none of yx. -/
def ycTable : List DevNodeInfo := [⟨.yc, 2, .sint16⟩, ⟨.yc, 1, .sint16⟩]

/-- The rounds until everything is delivered, then a timeout of the slave, and its report. -/
def starved : List Pair.Round :=
  List.flatten (List.replicate 6 [.slave true (still 0), .master true 0 (still 0)]) ++
    [.slave true (still 30001), .slave true (still 30001)]

end Wow.Iec101
