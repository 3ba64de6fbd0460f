import Wow.Iec101.Receive
import Wow.Iec101.Domains

/-!
# Wow.Iec101.Pair — a master and a slave on one link

Two stations and the frames under way between them, first in, first out, none lost.  A round of an exec thread reads
the next frame for its station, or finds none yet, and turns the machines.

* `Pair.step`: the rounds; `Pair.request`: a call of the master's API.
* `Idle`: a pair at rest, where an exchange begins.
-/

namespace Wow.Iec101

open Iec10x

variable {P : Type} (cm : Master.Conf) (cs : Slave.Conf P)

/-- Two stations, the frames on their way down to the slave and up to the master. -/
structure Pair where
  master : Station Master.Core
  slave : Station Core
  down : List (List UInt8)
  up : List (List UInt8)

/-- What the two stations do, in order. -/
abbrev Trace := List (Act ⊕ Act)

/-- The part of the master. -/
def Trace.master (tr : Trace) : List Act := tr.filterMap Sum.getLeft?

/-- The part of the slave. -/
def Trace.slave (tr : Trace) : List Act := tr.filterMap Sum.getRight?

@[simp] theorem Trace.master_append (tr tr' : Trace) :
    Trace.master (tr ++ tr') = Trace.master tr ++ Trace.master tr' :=
  List.filterMap_append

@[simp] theorem Trace.slave_append (tr tr' : Trace) : Trace.slave (tr ++ tr') = Trace.slave tr ++ Trace.slave tr' :=
  List.filterMap_append

@[simp] theorem Trace.master_inl (acts : List Act) : Trace.master (acts.map Sum.inl) = acts := by
  simp [Trace.master, Function.comp_def]

@[simp] theorem Trace.master_inr (acts : List Act) : Trace.master (acts.map Sum.inr) = [] := by
  simp [Trace.master, Function.comp_def]

@[simp] theorem Trace.slave_inl (acts : List Act) : Trace.slave (acts.map Sum.inl) = [] := by
  simp [Trace.slave, Function.comp_def]

@[simp] theorem Trace.slave_inr (acts : List Act) : Trace.slave (acts.map Sum.inr) = acts := by
  simp [Trace.slave, Function.comp_def]

namespace Pair

/-- An event of the master. -/
def masterDoes (e : Master.Event) (p : Pair) : Pair × Trace :=
  let r := Master.step cm p.master e
  ({ p with master := r.1, down := p.down ++ wires r.2 }, r.2.map Sum.inl)

/-- An event of the slave. -/
def slaveDoes (e : Slave.Event) (p : Pair) : Pair × Trace :=
  let r := Slave.step cs p.slave e
  ({ p with slave := r.1, up := p.up ++ wires r.2 }, r.2.map Sum.inr)

/-- A round of one of the exec threads: whether the next frame has arrived, and the clocks. -/
inductive Round where
  | master (arrived : Bool) (sendBuf : UInt8) (clock : Clock)
  | slave (arrived : Bool) (clock : Clock)

/-- What a read delivers of the frames under way. -/
def next (arrived : Bool) : List (List UInt8) → Read
  | f :: _ => if arrived then ⟨f.take 1500, List.length_take_le _ _⟩ else ⟨[], Nat.zero_le _⟩
  | [] => ⟨[], Nat.zero_le _⟩

/-- The frames that stay under way. -/
def rest (arrived : Bool) (q : List (List UInt8)) : List (List UInt8) := if arrived then q.tail else q

/-- **A round**: the read and the machines. -/
def step (p : Pair) : Round → Pair × Trace
  | .master arrived sendBuf clock =>
    let r := masterDoes cm (.recv (next arrived p.up) sendBuf) { p with up := rest arrived p.up }
    let r' := masterDoes cm (.machine clock) r.1
    (r'.1, r.2 ++ r'.2)
  | .slave arrived clock =>
    let r := slaveDoes cs (.recv (next arrived p.down)) { p with down := rest arrived p.down }
    let r' := slaveDoes cs (.machine clock) r.1
    (r'.1, r.2 ++ r'.2)

/-- The rounds that follow a call of the API. -/
def exchange (e : Master.Event) (rounds : List Round) (p : Pair) : Pair × Trace :=
  let r := masterDoes cm e p
  let r' := run (step cm cs) r.1 rounds
  (r'.1, r.2 ++ r'.2)

/-- **A pair at rest**: both links are up, every service is idle, nothing is under way or half read. -/
structure Idle (p : Pair) : Prop where
  link : p.master.core.stat.init = .linkIdle ∧ p.slave.core.stat.init = .linkIdle
  master : ∀ v : Svc, v.state p.master.core.stat = v.idle
  slave : ∀ v : Svc, v.state p.slave.core.stat = v.idle
  arrays : (p.master.Sound ∧ p.master.array.octets = []) ∧ p.slave.Sound ∧ p.slave.array.octets = []
  quiet : p.down = [] ∧ p.up = []

/-- The pair after the start-up of both. -/
def sample : Pair :=
  ⟨(run (Master.step Master.sampleConf) Master.init Master.sampleStart).1,
    (run (Slave.step Slave.sampleConf) Slave.init Slave.sampleStart).1, [], []⟩

theorem idle_sample : Idle sample where
  link := by decide +kernel
  master v := by cases v <;> decide +kernel
  slave v := by cases v <;> decide +kernel
  arrays := by
    refine ⟨⟨⟨?_, ?_⟩, ?_⟩, ⟨?_, ?_⟩, ?_⟩ <;> decide +kernel
  quiet := ⟨rfl, rfl⟩

/-! ### Invariants of the slave -/

section Slave

variable {cm cs} {I : Station Core → Prop}

/-- What the steps of the slave keep, the rounds keep. -/
theorem slave_step (hI : ∀ t e, I t → I (Slave.step cs t e).1) (p : Pair) (r : Round) (h : I p.slave) :
    I (step cm cs p r).1.slave := by
  cases r with
  | master arrived sendBuf clock => exact h
  | slave arrived clock => exact hI _ _ (hI _ _ h)

/-- **In every exchange**. -/
theorem slave_exchange (hI : ∀ t e, I t → I (Slave.step cs t e).1) {e : Master.Event} {rounds : List Round} {p : Pair}
    (h : I p.slave) : I (exchange cm cs e rounds p).1.slave := by
  have hstep : ∀ (p : Pair) (r : Round), I p.slave → I (step cm cs p r).1.slave := fun p r => slave_step hI p r
  have hstart : I (masterDoes cm e p).1.slave := h
  exact run_invariant (I := fun p : Pair => I p.slave) hstep hstart rounds

variable {A : Act → Prop}

theorem mem_slave_inl (acts : List Act) (a : Act) : a ∉ Trace.slave (acts.map Sum.inl) := by simp

theorem mem_slave_inr (acts : List Act) (a : Act) : a ∈ Trace.slave (acts.map Sum.inr) ↔ a ∈ acts := by simp

/-- What all actions of the slave have, they have in every exchange. -/
theorem forall_slave_exchange (hI : ∀ t e, I t → I (Slave.step cs t e).1)
    (hA : ∀ t e, I t → ∀ a ∈ (Slave.step cs t e).2, A a) {e : Master.Event} {rounds : List Round} {p : Pair}
    (h : I p.slave) : ∀ a ∈ Trace.slave (exchange cm cs e rounds p).2, A a := by
  have hrun : ∀ {p : Pair}, I p.slave → ∀ a ∈ Trace.slave (run (step cm cs) p rounds).2, A a := by
    induction rounds with
    | nil => exact fun _ a ha => absurd ha List.not_mem_nil
    | cons r rounds ih =>
      intro p hp a ha
      rw [run_cons, Trace.slave_append, List.mem_append] at ha
      refine ha.elim (fun ha => ?_) (ih (slave_step hI p r hp) a)
      cases r with
      | master arrived sendBuf clock =>
        rw [step, Trace.slave_append, List.mem_append] at ha
        exact ha.elim (fun ha => absurd ha (mem_slave_inl _ _)) fun ha => absurd ha (mem_slave_inl _ _)
      | slave arrived clock =>
        rw [step, Trace.slave_append, List.mem_append] at ha
        refine ha.elim (fun ha => ?_) fun ha => ?_
        · exact hA _ _ hp a ((mem_slave_inr _ _).mp ha)
        · exact hA _ _ (hI _ _ hp) a ((mem_slave_inr _ _).mp ha)
  intro a ha
  rw [exchange, Trace.slave_append, List.mem_append] at ha
  refine ha.elim (fun ha => absurd ha (mem_slave_inl _ _)) (hrun ?_ a)
  exact h

end Slave

end Pair

end Wow.Iec101
