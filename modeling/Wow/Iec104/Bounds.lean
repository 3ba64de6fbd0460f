import Wow.Iec104.Slave

/-!
# Wow.Iec104.Bounds — what the slave reads behind the received octets

The loop makes sure of the six octets of the APCI.  Everything behind them is read as the frame says: its type,
its object count and its information address decide how far.  `need` is that extent, and `receivedOnly_iff` says
that a read of the connection is parsed from received octets alone exactly when every frame has it.

* `within_frameDispatch`: one frame.
* `framesFrom_congr`: the frames of a read are a matter of the received octets.
-/

namespace Wow.Iec104.Slave

open Iec10x

variable {P : Type} (c : Conf P)

/-! ### The extent of a frame -/

section Extent

variable (m : Mem) (p : Nat)

/-- The octets a handler reads of an I-frame, from its head. -/
def need : Nat :=
  match AsduType.ofCode (m (p + 6)) with
  | some .cIcNa1 | some .cCiNa1 => 16
  | some .cCsNa1 => if m (p + 12) ≠ 0 then 13 else if m (p + 13) ≠ 0 then 14 else if m (p + 14) ≠ 0 then 15 else 22
  | some t =>
    match cmdFmt t with
    | some fmt => 12 + objsLen (Fld.num m p) (Fld.sq m p) fmt.size
    | none => 12
  | none => 12

/-- An I-frame has an ASDU head and, if it is for this station, all that its handler reads. -/
def Complete (len : Nat) : Prop :=
  (m (p + 2)).toNat % 2 = 0 → p + 12 ≤ len ∧ (c.asduAddr = m.u16 (p + 10) → p + need m p ≤ len)

variable {m p} {len : Nat}

theorem within_rdAddr3 : (rdInfoAddr (p + 12)).Within len m ↔ p + 15 ≤ len := by
  simp only [rdInfoAddr, Rd.within_bind, Rd.within_octet, Rd.within_pure, and_true]
  omega

theorem within_rdReason : (rdReason p).Within len m ↔ p + 9 < len := by
  simp only [rdReason, Rd.within_bind, Rd.within_octet, Rd.within_pure, and_true]
  omega

/-- The element loop stays inside the objects. -/
theorem within_rdObjs {n sz : Nat} {sq : Bool} (h : p + 12 + objsLen n sq sz ≤ len) :
    (rdObjs p n sq sz sz).Within len m := by
  intro j hj
  rw [mem_reads_rdObjs] at hj
  cases sq with
  | true =>
    simp only [objsLen, if_true] at h hj
    rcases hj with ⟨-, -, hj⟩ | ⟨i, hi, hj⟩
    · omega
    · have hle : (i + 1) * sz ≤ n * sz := Nat.mul_le_mul_right _ hi
      rw [Nat.succ_mul] at hle
      simp only [Bool.true_eq_false, false_and, false_or] at hj
      omega
  | false =>
    simp only [objsLen, Bool.false_eq_true, if_false] at h hj
    rcases hj with ⟨h0, -⟩ | ⟨i, hi, hj⟩
    · cases h0
    · have hle : (i + 1) * (3 + sz) ≤ n * (3 + sz) := Nat.mul_le_mul_right _ hi
      rw [Nat.succ_mul] at hle
      omega

variable (s : Core)

/-- What both calls check before they answer: the information address and the reason. -/
theorem within_asked (h : p + 16 ≤ len) {answer : Rd (Core × List Act)} (ha : answer.Within len m) : (do
    let addr ← rdInfoAddr (p + 12)
    if addr ≠ 0 then pure (s, []) else do
    let reason ← rdReason p
    if reason ≠ Cot.act then pure (s, []) else answer).Within len m := by
  simp only [Rd.within_bind, mem_rdInfoAddr, within_rdAddr3]
  refine ⟨by omega, ?_⟩
  split
  · exact (Rd.within_pure _).mpr trivial
  · simp only [Rd.within_bind, within_rdReason, mem_rdReason]
    refine ⟨by omega, ?_⟩
    split
    · exact (Rd.within_pure _).mpr trivial
    · exact ha

/-- An interrogation: sixteen octets, whatever comes of it. -/
theorem within_asduCallAll : (asduCallAll c s p).Within len m ↔ p + 16 ≤ len := by
  rw [asduCallAll, Rd.within_bind, Rd.within_octet, Rd.mem_octet]
  constructor
  · intro h
    omega
  · intro h
    refine ⟨by omega, ?_⟩
    split
    · exact (Rd.within_pure _).mpr trivial
    · exact within_asked s h (by split <;> exact (Rd.within_pure _).mpr trivial)

theorem within_asduCallPulse : (asduCallPulse c s p).Within len m ↔ p + 16 ≤ len := by
  rw [asduCallPulse, Rd.within_bind, Rd.within_octet, Rd.mem_octet]
  constructor
  · intro h
    omega
  · intro h
    refine ⟨by omega, ?_⟩
    split
    · exact (Rd.within_pure _).mpr trivial
    · exact within_asked s h (by split <;> exact (Rd.within_pure _).mpr trivial)

/-- A clock command: the first nonzero octet of its address ends it. -/
theorem within_asduClock (h12 : p + 12 ≤ len) : (asduClock s p).Within len m ↔
    p + (if m (p + 12) ≠ 0 then 13 else if m (p + 13) ≠ 0 then 14 else if m (p + 14) ≠ 0 then 15 else 22) ≤ len := by
  simp only [asduClock, Rd.within_bind, Rd.within_octet, Rd.mem_octet, Rd.run_octet]
  by_cases h0 : m (p + 12) = 0
  · by_cases h1 : m (p + 13) = 0
    · by_cases h2 : m (p + 14) = 0
      · have hend : (if (rdReason p).run m = Cot.act then (pure (s, [.setTime (m.slice (p + 15) 7)]) : Rd (Core × List Act))
            else pure (s, [])).Within len m := by split <;> simp
        simp only [h0, h1, h2, ne_eq, not_true_eq_false, if_false, Rd.within_bind, Rd.within_octet, Rd.mem_octet,
          Rd.run_octet, Rd.within_octets, Rd.mem_octets, Rd.run_octets, within_rdReason, mem_rdReason, hend, and_true]
        omega
      · simp only [h0, h1, h2, ne_eq, not_true_eq_false, not_false_eq_true, if_false, if_true, Rd.within_bind,
          Rd.within_octet, Rd.mem_octet, Rd.run_octet, Rd.within_pure, and_true]
        omega
    · simp only [h0, h1, ne_eq, not_true_eq_false, not_false_eq_true, if_false, if_true, Rd.within_bind,
        Rd.within_octet, Rd.mem_octet, Rd.run_octet, Rd.within_pure, and_true]
      omega
  · simp only [h0, ne_eq, not_false_eq_true, if_true, Rd.within_pure, and_true]
    omega

/-- A command: the handler stays inside what the confirmation copies. -/
theorem within_command (h12 : p + 12 ≤ len) {t : AsduType} {fmt : CmdFmt} {fmts : AsduType → Option CmdFmt}
    (ht : AsduType.ofCode (m (p + 6)) = some t) (hf : fmts t = some fmt) :
    (asduCmd c s p fmts >>= fun r => buildCmdAck c r.1 p fmts >>= fun r' =>
      (pure (r'.1, r.2 ++ r'.2) : Rd (Core × List Act))).Within len m ↔
        p + (12 + objsLen (Fld.num m p) (Fld.sq m p) fmt.size) ≤ len := by
  have hnum : (rdNum p).Within len m := by
    simp only [rdNum, Rd.within_bind, Rd.within_octet, Rd.within_pure, and_true]
    omega
  have hsq : (rdSq p).Within len m := by
    simp only [rdSq, Rd.within_bind, Rd.within_octet, Rd.within_pure, and_true]
    omega
  have htype : (rdType p).Within len m := by
    simp only [rdType, Rd.within_octet]
    omega
  have hreason : (rdReason p).Within len m := within_rdReason.mpr (by omega)
  have hack : ∀ s', (buildCmdAck c s' p fmts).Within len m ↔
      p + (12 + objsLen (Fld.num m p) (Fld.sq m p) fmt.size) ≤ len := fun s' => by
    simp only [buildCmdAck, Rd.within_bind, htype, hnum, hsq, mem_rdType, mem_rdNum, mem_rdSq, run_rdType, run_rdNum,
      run_rdSq, ht, Option.bind_some, hf, Rd.within_octets, Rd.within_pure, true_and, and_true]
    omega
  have hcmd : p + (12 + objsLen (Fld.num m p) (Fld.sq m p) fmt.size) ≤ len → (asduCmd c s p fmts).Within len m := by
    intro h
    simp only [asduCmd, Rd.within_bind, htype, hnum, hsq, hreason, mem_rdType, mem_rdNum, mem_rdSq, mem_rdReason,
      run_rdType, run_rdNum, run_rdSq, true_and]
    split
    · simp
    · simp only [ht, Option.bind_some, hf, Rd.within_bind, Rd.within_pure, and_true]
      exact within_rdObjs (by omega)
  rw [Rd.within_bind, Rd.within_bind, mem_asduCmd, hack]
  exact ⟨fun h => h.2.1, fun h => ⟨hcmd h, h, (Rd.within_pure _).mpr trivial⟩⟩

/-- **One I-frame** for this station. -/
theorem within_asduParse (h12 : p + 12 ≤ len) : (asduParse c s p).Within len m ↔ p + need m p ≤ len := by
  have htype : (rdType p).Within len m := by
    simp only [rdType, Rd.within_octet]
    omega
  simp only [asduParse, Rd.within_bind, htype, true_and, run_rdType, mem_rdType, need]
  cases ht : AsduType.ofCode (m (p + 6)) with
  | none => exact iff_of_true ((Rd.within_pure _).mpr trivial) h12
  | some t =>
    cases t with
    | cIcNa1 => exact within_asduCallAll c s
    | cCiNa1 => exact within_asduCallPulse c s
    | cCsNa1 =>
      simp only [Rd.within_bind, Rd.within_pure, and_true]
      exact within_asduClock s h12
    | cScNa1 | cDcNa1 | cSeNa1 | cSeNc1 => exact within_command c s h12 ht rfl
    | _ => exact iff_of_true ((Rd.within_pure _).mpr trivial) h12

/-- **One frame.** -/
theorem within_frameDispatch (hp : p + 6 ≤ len) (l : Nat) :
    (frameDispatch c s p l).Within len m ↔ Complete c m p len := by
  have hctrl : p + 2 < len := by omega
  have hone : (frameDispatch c s p l).Within len m ↔ (if (m (p + 2)).toNat % 2 = 0 then frameIParse c s p
      else if (m (p + 2)).toNat % 4 = 1 then pure (s, []) else frameUParse s p).Within len m := by
    rw [frameDispatch, Rd.within_bind, Rd.within_octet]
    exact and_iff_right hctrl
  rw [hone]
  by_cases hI : (m (p + 2)).toNat % 2 = 0
  · rw [if_pos hI]
    have hsend : (rdSendSn p).Within len m := by
      simp only [rdSendSn, Rd.within_bind, Rd.within_octet, Rd.within_pure, and_true]
      omega
    have hrecv : (rdRecvSn p).Within len m := by
      simp only [rdRecvSn, Rd.within_bind, Rd.within_octet, Rd.within_pure, and_true]
      omega
    simp only [frameIParse, Rd.within_bind, hsend, hrecv, true_and, mem_rdSendSn, mem_rdRecvSn, Rd.within_u16,
      Rd.mem_u16, Rd.run_u16, run_rdSendSn, run_rdRecvSn, Complete, hI, true_imp_iff]
    by_cases h12 : p + 12 ≤ len
    · have h11 : p + 10 + 1 < len := by omega
      by_cases ha : c.asduAddr = m.u16 (p + 10)
      · simp only [ha, ne_eq, not_true_eq_false, if_false, Rd.within_bind, Rd.within_pure, and_true, h12, h11,
          true_and, true_imp_iff]
        exact within_asduParse c _ h12
      · simp only [ha, ne_eq, not_false_eq_true, if_true, Rd.within_pure, h12, h11, false_imp_iff]
    · exact iff_of_false (fun h => h12 (by omega)) (fun h => h12 h.1)
  · rw [if_neg hI]
    refine iff_of_true ?_ (fun h => absurd h hI)
    split
    · simp
    · simp only [frameUParse, Rd.within_bind, Rd.within_octet, hctrl, true_and]
      split_ifs <;> simp

end Extent

/-! ### The frames of a read -/

section Frames

variable {m m' : Mem} {len : Nat}

theorem takes_congr (ha : Mem.AgreeBelow len m m') (p : Nat) : takes m len p ↔ takes m' len p := by
  simp only [takes]
  constructor
  · rintro ⟨hhead, hfit⟩
    have hp : p < len := by simp only [headLen] at hfit; omega
    exact ⟨by rw [← ha p hp]; exact hhead, hfit⟩
  · rintro ⟨hhead, hfit⟩
    have hp : p < len := by simp only [headLen] at hfit; omega
    exact ⟨by rw [ha p hp]; exact hhead, hfit⟩

/-- **The frames of a read** are a matter of the received octets. -/
theorem framesFrom_congr (ha : Mem.AgreeBelow len m m') : ∀ fuel p, framesFrom m len fuel p = framesFrom m' len fuel p
  | 0, _ => rfl
  | fuel + 1, p => by
    by_cases ht : takes m len p
    · have hp : p + 1 < len := by
        have := ht.2
        simp only [headLen] at this
        omega
      have hlen : lenAt m p = lenAt m' p := by rw [lenAt, lenAt, ha (p + 1) hp]
      rw [framesFrom, framesFrom, if_pos ht, if_pos ((takes_congr ha p).mp ht), hlen, framesFrom_congr ha fuel]
    · rw [framesFrom, framesFrom, if_neg ht, if_neg fun h => ht ((takes_congr ha p).mpr h)]

theorem taken_congr (ha : Mem.AgreeBelow len m m') {p : Nat} (ht : takes m len p) :
    taken m len p = taken m' len p := by
  have hfit := ht.2
  simp only [headLen] at hfit
  have hlen : lenAt m p = lenAt m' p := by rw [lenAt, lenAt, ha (p + 1) (by omega)]
  rw [taken, taken, hlen]
  exact Mem.slice_congr fun i hi => ha (p + i) (by omega)

/-- A frame whose handler stays inside the received octets. -/
theorem serve_congr (ha : Mem.AgreeBelow len m m') {f : Nat × Nat} (ht : takes m len f.1) (s : Core)
    (hw : (frameDispatch c s f.1 f.2).Within len m) :
    serve (frameDispatch c) m len s f = serve (frameDispatch c) m' len s f := by
  rw [serve, serve, hw.run_agree ha, taken_congr ha ht]

end Frames

/-- What a parse owes to the received octets alone: it does the same on every buffer that begins with them, and
no handler asks for an octet behind them. -/
def ReceivedOnly (m : Mem) (len : Nat) : Prop :=
  (∀ m', Mem.AgreeBelow len m m' → ∀ s, (frameParse c len s).run m = (frameParse c len s).run m') ∧
    ∀ f ∈ frames m len, ∀ s, (frameDispatch c s f.1 f.2).Within len m

/-- **A parse depends on the received octets alone** exactly when each of its frames has all that its handler
reads: an ASDU head, and behind it what the type, the object count and the address of the frame announce. -/
theorem receivedOnly_iff (stale : Mem) (chunk : Chunk) :
    ReceivedOnly c (stale.fill chunk.octets) chunk.octets.length ↔
      ∀ f ∈ frames (stale.fill chunk.octets) chunk.octets.length,
        Complete c (stale.fill chunk.octets) f.1 chunk.octets.length := by
  have hl : chunk.octets.length < 65536 := by
    have := chunk.le
    omega
  have hone : ∀ f ∈ frames (stale.fill chunk.octets) chunk.octets.length, ∀ s,
      (frameDispatch c s f.1 f.2).Within chunk.octets.length (stale.fill chunk.octets) ↔
        Complete c (stale.fill chunk.octets) f.1 chunk.octets.length := fun f hf s =>
    within_frameDispatch c s (takes_of_mem_framesFrom hf).1.2 f.2
  constructor
  · exact fun h f hf => (hone f hf Core.fresh).mp (h.2 f hf Core.fresh)
  · intro h
    have hwithin := fun f hf s => (hone f hf s).mpr (h f hf)
    refine ⟨fun m' ha s => ?_, hwithin⟩
    have hframes : frames (stale.fill chunk.octets) chunk.octets.length = frames m' chunk.octets.length :=
      framesFrom_congr ha _ 0
    simp only [frameParse]
    rw [run_frameParse (frameDispatch c) (pure_frameDispatch c) hl,
      run_frameParse (frameDispatch c) (pure_frameDispatch c) hl, ← hframes]
    exact run_congr (fun f hf s => serve_congr c ha (takes_of_mem_framesFrom hf).1 s (hwithin f hf s)) s

/-- A remote control command for one node, cut behind its ASDU head. -/
def sampleCut : Chunk :=
  ⟨(mkI ⟨0, 0, -1, 0⟩ ⟨AsduType.cScNa1.code, false, 1, Cot.act, 1⟩ []).wire, by decide, by decide⟩

/-- The node that the cut command operates is the one that lies in the buffer. -/
theorem not_receivedOnly_cut : ¬ ReceivedOnly sampleConf (Mem.fill (fun _ => 0) sampleCut.octets)
    sampleCut.octets.length := by
  intro h
  have hrun := h.1 (Mem.fill (fun _ => 1) sampleCut.octets) (Mem.agreeBelow_fill _ _ _) Core.fresh
  revert hrun
  decide +kernel

end Wow.Iec104.Slave
