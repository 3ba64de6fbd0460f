import Wow.Lib.Monitor
import Wow.Modbus.Slave

/-!
# Wow.Modbus.Framing — the TCP slave and the stream of requests

A request over TCP is delimited by its MBAP length; the slave never reads that field but derives a length from the
function code.  A run of the slave is a list of turns, each with the callbacks and the cuts of the stream that it
meets.

* `announced_iff`: the requests whose two lengths are the same.
* `inStep_iff`: the streams of which the slave sees every request whole, and nothing else.
-/

namespace Wow.Modbus

open Backend

/-- A request delimited by its MBAP length, which counts the unit id and the function code at least. -/
def MbapFrame (f : List UInt8) : Prop := f.length = 6 + word f 4 ∧ 2 ≤ word f 4

/-- A turn on the octets `up`, with its callbacks and its schedule, as a step of a run. -/
def turn (b : Backend) (up : List UInt8) (r : SlaverDevCtx × List Nat) : List UInt8 × List Turn :=
  let done := execRound b r.1 r.2 up
  (done.2, [done.1])

/-- After any number of turns the slave has taken and answered that many requests, one by one, and left the rest. -/
def InStep (reqs : List (List UInt8)) : Prop :=
  ∀ turns : List (SlaverDevCtx × List Nat), (∀ r ∈ turns, Steady r.2) → turns.length ≤ reqs.length →
    run (turn .tcp) reqs.flatten turns
      = ((reqs.drop turns.length).flatten, List.zipWith (fun r f => answering .tcp r.1 f) turns reqs)

/-- The MBAP lengths that the slave can follow: 6 up to `MODBUS_WRITE_SINGLE_REGISTER`, 7 and the byte count of a
multiple write, 2 of any other function code. -/
def Announced (f : List UInt8) : Prop :=
  let function := octet f 7
  let mbapLength := word f 4
  if function ≤ 0x06 then mbapLength = 6
  else if function = 0x0F ∨ function = 0x10 then mbapLength = 7 + octet f 12 ∧ octet f 12 ≤ 247
  else mbapLength = 2

/-- **Where the two lengths are the same.** -/
theorem announced_iff {f : List UInt8} (h : MbapFrame f) :
    Announced f ↔ frameLength .tcp .indication f = f.length ∧ f.length ≤ tcp.maxAduLength := by
  obtain ⟨hlen, -⟩ := h
  have h12 : tcp.headerLength + 5 = 12 := rfl
  rw [hlen, frameLength_indication, h12]
  unfold Announced
  dsimp only [headerLength, checksumLength, maxAduLength]
  by_cases h6 : octet f 7 ≤ 0x06
  · simp only [h6, if_true]
    omega
  · simp only [h6, if_false]
    by_cases hmul : octet f 7 = 0x0F ∨ octet f 7 = 0x10
    · simp only [hmul, if_true]
      omega
    · simp only [hmul, if_false]
      omega

/-- One request at the front of the link. -/
theorem slaveReceiveMsg_iff {sched : List Nat} (hs : Steady sched) {f : List UInt8} (h : MbapFrame f)
    (rest : List UInt8) : slaveReceiveMsg .tcp sched (f ++ rest) = (some f, rest) ↔ Announced f := by
  rw [announced_iff h]
  constructor
  · intro hr
    obtain ⟨-, hlen, hmax, -⟩ := slaveReceiveMsg_eq_some hr
    exact ⟨hlen, hmax⟩
  · rintro ⟨hlen, hmax⟩
    have hfl : frameLength .tcp .indication (f ++ rest) = f.length := by
      rw [frameLength_append (Nat.le_of_eq hlen), hlen]
    obtain ⟨sched', hr⟩ := @receive_steady .tcp .indication sched hs (f ++ rest) (by rwa [hfl]) (by simp [hfl])
    simp [slaveReceiveMsg, hr, hfl, checkIntegrity]

/-- One turn. -/
theorem turn_iff {r : SlaverDevCtx × List Nat} (hs : Steady r.2) {f : List UInt8} (h : MbapFrame f)
    (rest : List UInt8) : turn .tcp (f ++ rest) r = (rest, [answering .tcp r.1 f]) ↔ Announced f := by
  rw [← slaveReceiveMsg_iff hs h rest]
  constructor
  · intro ht
    obtain ⟨hup, hturn⟩ := Prod.mk.inj ht
    have hdone := (List.cons.inj hturn).1
    unfold execRound at hup hdone
    revert hup hdone
    rcases slaveReceiveMsg .tcp r.2 (f ++ rest) with ⟨_ | req, up⟩
    · exact fun _ hdone => nomatch (Turn.mk.inj hdone).1
    · intro hup hdone
      have hseen := (Turn.mk.inj hdone).1
      rw [hseen]
      exact congrArg _ hup
  · intro hr
    simp [turn, execRound, hr]

/-- **The streams that the slave keeps in step with** are those of requests whose MBAP length it can derive from
the function code. -/
theorem inStep_iff {reqs : List (List UInt8)} (h : ∀ f ∈ reqs, MbapFrame f) :
    InStep reqs ↔ ∀ f ∈ reqs, Announced f := by
  induction reqs with
  | nil =>
    refine iff_of_true (fun turns _ hlen => ?_) (by simp)
    rw [List.length_eq_zero_iff.1 (Nat.le_zero.1 hlen)]
    rfl
  | cons f fs ih =>
    have hf := h f (List.mem_cons_self ..)
    specialize ih fun g hg => h g (List.mem_cons_of_mem _ hg)
    rw [List.forall_mem_cons, ← ih]
    constructor
    · intro hin
      let r : SlaverDevCtx × List Nat := (⟨fun _ _ _ _ => (0, fun _ => 0), fun _ _ _ _ _ => 0⟩, prompt)
      have hfirst : Announced f := by
        have hone := hin [r] (fun r' hr => by rw [List.mem_singleton.1 hr]; exact steady_prompt)
          (Nat.succ_le_succ (Nat.zero_le _))
        rw [run_cons, run_nil, List.append_nil] at hone
        exact (turn_iff (r := r) steady_prompt hf fs.flatten).1 hone
      refine ⟨hfirst, fun turns hs hlen => ?_⟩
      have hall := hin (r :: turns) (List.forall_mem_cons.2 ⟨steady_prompt, hs⟩) (Nat.succ_le_succ hlen)
      have hstep := (turn_iff (r := r) steady_prompt hf fs.flatten).2 hfirst
      rw [List.flatten_cons, run_cons, hstep] at hall
      obtain ⟨hup, htrace⟩ := Prod.mk.inj hall
      exact Prod.ext hup (List.cons.inj htrace).2
    · rintro ⟨hfirst, hin⟩ turns hs hlen
      cases turns with
      | nil => rfl
      | cons r turns =>
        have hstep := (turn_iff (hs r (List.mem_cons_self ..)) hf fs.flatten).2 hfirst
        have hrest := hin turns (fun r hr => hs r (List.mem_cons_of_mem _ hr)) (Nat.le_of_succ_le_succ hlen)
        rw [List.flatten_cons, run_cons, hstep, hrest]
        rfl

/-- A report of the slave id, with no body. -/
theorem inStep_report_slave_id :
    InStep [[0, 1, 0, 0, 0, 2, 1, 0x11]] :=
  (inStep_iff (by simp [MbapFrame, word, octet])).2 (by simp [Announced, word, octet])

/-- A function code with a body that the slave does not know: two octets of it stay on the link. -/
theorem not_inStep_body : ¬ InStep [[0, 1, 0, 0, 0, 4, 1, 0x14, 0, 0]] := by
  intro h
  have hone := h [(⟨fun _ _ _ _ => (0, fun _ => 0), fun _ _ _ _ _ => 0⟩, prompt)]
    (fun r hr => by rw [List.mem_singleton.1 hr]; exact steady_prompt) (Nat.le_refl 1)
  exact absurd (Prod.mk.inj hone).1 (by decide)

end Wow.Modbus
