import Wow.Iec101.Unfinished

/-!
# Wow.Iec101.CommandSafety — what the handlers of commands touch

The handlers of set-points and of remote control read as many objects as the head of a frame announces, whatever its
length octet says, and save the frame from its eighth octet to the one in front of its last: the ASDU and the check
sum.

* `cmdEnd`: how far the handler of a frame reads.
* `Backed`: a command that is to be confirmed has its copy, whatever the slave reads.
* `commandSafe_iff`: the runs without an access outside.
-/

namespace Wow.Iec101

open Iec10x
open Iec104 (selected ytFmt)

/-! ### The element loops -/

/-- Where the reads of `n` objects of `sz` octets end; the loop with `SQ=1` reads the address ahead of it. -/
def readEnd (n : Nat) (sq : Bool) (sz : Nat) : Nat := if n = 0 ∧ sq = false then 0 else 12 + objsLen n sq sz

@[simp] theorem readEnd_true (n sz : Nat) : readEnd n true sz = 14 + n * sz := by
  simp only [readEnd, Bool.true_eq_false, and_false, if_false, objsLen, if_true]
  omega

@[simp] theorem readEnd_zero (sz : Nat) : readEnd 0 false sz = 0 := rfl

@[simp] theorem readEnd_succ (n sz : Nat) : readEnd (n + 1) false sz = 12 + (n + 1) * (2 + sz) := by
  simp only [readEnd, Nat.succ_ne_zero, false_and, if_false, objsLen, Bool.false_eq_true]

section Loops

variable {m : Mem} {len n sz : Nat} {sq : Bool}

theorem readEnd_mono {i k : Nat} (h : i ≤ k) : readEnd i sq sz ≤ readEnd k sq sz := by
  cases sq with
  | true =>
    rw [readEnd_true, readEnd_true]
    exact Nat.add_le_add_left (Nat.mul_le_mul_right sz h) 14
  | false =>
    cases i with
    | zero => exact Nat.zero_le _
    | succ i =>
      obtain ⟨k, rfl⟩ : ∃ k', k = k' + 1 := Nat.exists_eq_add_one_of_ne_zero (Nat.ne_of_gt (Nat.zero_lt_of_lt h))
      rw [readEnd_succ, readEnd_succ]
      exact Nat.add_le_add_left (Nat.mul_le_mul_right (2 + sz) h) 12

/-- All rounds stay inside, and what is read ahead of them, when the last round does. -/
theorem readEnd_le_iff : (readEnd 0 sq sz ≤ len ∧ ∀ i < n, readEnd (i + 1) sq sz ≤ len) ↔ readEnd n sq sz ≤ len := by
  constructor
  · rintro ⟨h0, h⟩
    cases n with
    | zero => exact h0
    | succ n => exact h n (Nat.lt_succ_self n)
  · intro h
    exact ⟨Nat.le_trans (readEnd_mono (Nat.zero_le n)) h, fun i hi => Nat.le_trans (readEnd_mono hi) h⟩

theorem within_rdObj {base : UInt16} {i : Nat} (hsz : 0 < sz) :
    (rdObj sq base sz sz i).Within len m ↔ readEnd (i + 1) sq sz ≤ len := by
  cases sq with
  | true =>
    simp only [rdObj, if_true, Rd.within_bind, Rd.within_octets, Rd.within_pure, and_true, readEnd_true, Nat.succ_mul]
    omega
  | false =>
    simp only [rdObj, Bool.false_eq_true, if_false, Rd.within_bind, Rd.within_u16, Rd.mem_u16, Rd.within_octets,
      Rd.within_pure, and_true, readEnd_succ, Nat.succ_mul]
    omega

/-- **The element loop** reads up to its last object. -/
theorem within_rdObjs (hsz : 0 < sz) : (rdObjs n sq sz sz).Within len m ↔ readEnd n sq sz ≤ len := by
  rw [← readEnd_le_iff (n := n)]
  cases sq with
  | true =>
    simp only [rdObjs, if_true, Rd.within_bind, Rd.within_u16, Rd.mem_u16, Rd.within_forN (pure_rdObj true _ sz sz),
      within_rdObj hsz, readEnd_true, Nat.zero_mul]
    exact Iff.rfl
  | false =>
    simp only [rdObjs, Bool.false_eq_true, if_false, Rd.within_bind, Rd.within_pure, Rd.mem_pure,
      Rd.within_forN (pure_rdObj false _ sz sz), within_rdObj hsz, readEnd_zero, Nat.zero_le]

/-- The objects a loop reads that is left at the first one with `stop`. -/
def readCount (n : Nat) (stop : UInt16 × List UInt8 → Bool) (objs : List (UInt16 × List UInt8)) : Nat :=
  min n (objs.findIdx stop + 1)

theorem lt_readCount_iff {stop : UInt16 × List UInt8 → Bool} {i : Nat} :
    i < readCount n stop (Fld.objs m n sq sz sz) ↔
      i < n ∧ ∀ i' < i, stop (Fld.obj m sq sz sz i') = false := by
  have hlen : (Fld.objs m n sq sz sz).length = n := by simp [Fld.objs]
  have hget : ∀ j (hj : j < (Fld.objs m n sq sz sz).length), (Fld.objs m n sq sz sz)[j] = Fld.obj m sq sz sz j := by
    intro j hj
    simp [Fld.objs]
  rw [readCount, Nat.lt_min, Nat.lt_succ_iff]
  constructor
  · rintro ⟨hn, hi⟩
    refine ⟨hn, fun j hj => ?_⟩
    have h := List.not_of_lt_findIdx (Nat.lt_of_lt_of_le hj hi)
    rwa [hget] at h
  · rintro ⟨hn, hi⟩
    refine ⟨hn, List.le_findIdx_of_not (by rw [hlen]; exact hn) fun j hj => ?_⟩
    rw [hget]
    exact hi j hj

/-- **A loop that is left early** reads up to the object it stops at. -/
theorem within_rdObjsUntil (hsz : 0 < sz) {stop : UInt16 × List UInt8 → Bool} :
    (rdObjsUntil n sq sz sz stop).Within len m ↔
      readEnd (readCount n stop (Fld.objs m n sq sz sz)) sq sz ≤ len := by
  rw [← readEnd_le_iff]
  simp only [lt_readCount_iff, and_imp]
  cases sq with
  | true =>
    have hrun : ∀ i, (rdObj true (m.u16 12) sz sz i).run m = Fld.obj m true sz sz i := fun i => run_rdObj m true sz sz i
    simp only [rdObjsUntil, if_true, Rd.within_bind, Rd.within_u16, Rd.mem_u16, Rd.run_u16,
      Rd.within_untilN (pure_rdObj true _ sz sz), within_rdObj hsz, hrun, readEnd_true, Nat.zero_mul]
    exact Iff.rfl
  | false =>
    have hrun : ∀ i, (rdObj false 0 sz sz i).run m = Fld.obj m false sz sz i := fun i => run_rdObj m false sz sz i
    simp only [rdObjsUntil, Bool.false_eq_true, if_false, Rd.within_bind, Rd.within_pure, Rd.mem_pure, Rd.run_pure,
      Rd.within_untilN (pure_rdObj false _ sz sz), within_rdObj hsz, hrun, readEnd_zero, Nat.zero_le]

end Loops

namespace Slave

variable {P : Type} (c : Conf P)

/-! ### The handlers -/

/-- The handler a command frame is given to. -/
def cmdHandler (s : Core) (m : Mem) (len : Nat) : Option (Rd (Core × List Act)) :=
  if Fld.func m ≠ Func.sendUsrDataAck then none
  else
    match AsduType.ofCode (Fld.type m) with
    | some .cScNa1 | some .cDcNa1 => some (asduYk c s len)
    | some .cSeNa1 | some .cSeNc1 => some (asduYt c s len)
    | _ => none

/-- It is what `iec101_s_deal_68` calls. -/
theorem run_on68_cmd {s : Core} {m : Mem} {len : Nat} {h : Rd (Core × List Act)}
    (hh : cmdHandler c s m len = some h) :
    (on68 c s len).run m = h.run m := by
  unfold cmdHandler at hh
  split at hh
  · cases hh
  next hf =>
    rw [run_on68, if_pos (not_not.mp hf), onUserData, Rd.run_bind, Rd.run_octet, Rd.mem_octet]
    rw [Fld.type] at hh
    cases ht : AsduType.ofCode (m 7) with
    | none =>
      rw [ht] at hh
      cases hh
    | some t =>
      rw [ht] at hh
      cases t with
      | cScNa1 | cDcNa1 | cSeNa1 | cSeNc1 => rw [← Option.some.inj hh]
      | _ => cases hh

/-- The state without saved commands. -/
def bare (s : Core) : Core := { s with back := ⟨none, none⟩ }

/-- The saved commands of a state. -/
def copies (s : Core) : List (List UInt8) := s.back.ykBak.toList ++ s.back.ytBak.toList

/-- **A command frame of `len` octets is handled safely**: its handler reads inside the frame, and what it saves is the
frame without the seven octets of its head and the last `tail`. -/
def FrameSafe (tail : Nat) (s : Core) (m : Mem) (len : Nat) : Prop :=
  (∀ h, cmdHandler c s m len = some h → h.Within len m) ∧
    ∀ h, cmdHandler c (bare s) m len = some h → ∀ bak ∈ copies (h.run m).1, 7 + bak.length + tail = len

/-- The frame is a command. -/
def IsCmd (m : Mem) : Prop :=
  Fld.func m = Func.sendUsrDataAck ∧
    ∃ t, AsduType.ofCode (Fld.type m) = some t ∧ t ∈ [AsduType.cScNa1, .cDcNa1, .cSeNa1, .cSeNc1]

/-- The objects a set-point handler reads. -/
def ytCount (m : Mem) (size : Nat) : Nat :=
  readCount (Fld.num m) (fun o => selected o.2) (Fld.objs m (Fld.num m) (Fld.sq m) size size)

/-- Where the reads of the handler of a command frame end. -/
def cmdEnd (m : Mem) : Nat :=
  if Fld.reason m ≠ Cot.act then 10
  else
    match (AsduType.ofCode (Fld.type m)).bind ytFmt with
    | some fmt => max 10 (readEnd (ytCount m fmt.size) (Fld.sq m) fmt.size)
    | none => if selected [Fld.elem0 m] then 15 else max 15 (readEnd (Fld.num m) (Fld.sq m) 1)

/-- The command is saved: an activated set-point, or an activated select of remote control. -/
def Saved (m : Mem) : Prop :=
  Fld.reason m = Cot.act ∧ (((AsduType.ofCode (Fld.type m)).bind ytFmt).isSome ∨ selected [Fld.elem0 m] = true)

section Handler

variable {c} {s : Core} {m : Mem} {len : Nat}

theorem bakSize_of_le (h : 8 ≤ len) (hle : len ≤ 257) : bakSize len = len - 8 := by
  unfold bakSize
  omega

theorem within_rdNum : rdNum.Within len m ↔ 8 < len := by
  simp only [rdNum, Rd.within_bind, Rd.within_octet, Rd.within_pure, and_true]

theorem within_rdSq : rdSq.Within len m ↔ 8 < len := by
  simp only [rdSq, Rd.within_bind, Rd.within_octet, Rd.within_pure, and_true]

theorem within_rdReason : rdReason.Within len m ↔ 9 < len := by
  simp only [rdReason, Rd.within_bind, Rd.within_octet, Rd.within_pure, and_true]

/-- What both handlers read first. -/
theorem within_cmdHead {α : Type} {k : UInt8 → Nat → Bool → Nat → Rd α} :
    (do
      let type ← Rd.octet 7
      let n ← rdNum
      let sq ← rdSq
      let reason ← rdReason
      k type n sq reason : Rd α).Within len m ↔
      10 ≤ len ∧ (k (Fld.type m) (Fld.num m) (Fld.sq m) (Fld.reason m)).Within len m := by
  simp only [Rd.within_bind, Rd.within_octet, Rd.mem_octet, within_rdNum, mem_rdNum, within_rdSq, mem_rdSq,
    within_rdReason, mem_rdReason, Rd.run_octet, run_rdNum, run_rdSq, run_rdReason, Fld.type]
  constructor
  · rintro ⟨-, -, -, h, hk⟩
    exact ⟨h, hk⟩
  · rintro ⟨h, hk⟩
    exact ⟨by omega, by omega, by omega, h, hk⟩

/-- A saved command lies inside, its check sum included. -/
theorem within_bak {α : Type} (h10 : 10 ≤ len) (hle : len ≤ 257) (f : List UInt8 → α) :
    (do
      let bak ← Rd.octets 7 (bakSize len)
      pure (f bak) : Rd α).Within len m := by
  rw [Rd.within_bind, Rd.within_octets, bakSize_of_le (by omega) hle]
  exact ⟨Or.inr (by omega), (Rd.within_pure _).mpr trivial⟩

/-- **The handler of remote control** reads inside the frame. -/
theorem within_asduYk (hle : len ≤ 257) {t : AsduType} (ht : AsduType.ofCode (Fld.type m) = some t)
    (hyk : t = .cScNa1 ∨ t = .cDcNa1) : (asduYk c s len).Within len m ↔ cmdEnd m ≤ len := by
  have hyt : (AsduType.ofCode (Fld.type m)).bind ytFmt = none := by
    rw [ht]
    rcases hyk with rfl | rfl <;> rfl
  obtain ⟨fmt, hfmt, hsize⟩ : ∃ fmt, (AsduType.ofCode (Fld.type m)).bind Iec104.ykFmt = some fmt ∧ fmt.size = 1 := by
    rw [ht]
    rcases hyk with rfl | rfl <;> exact ⟨_, rfl, rfl⟩
  rw [asduYk, within_cmdHead, cmdEnd]
  by_cases hr : Fld.reason m = Cot.act
  swap
  · rw [if_pos hr, if_pos hr]
    simp only [Rd.within_pure, and_true]
  rw [if_neg (not_not.mpr hr), if_neg (not_not.mpr hr), hyt, Rd.within_bind, Rd.within_octet, Rd.run_octet, Rd.mem_octet]
  dsimp only
  rw [Fld.elem0]
  by_cases hsel : selected [m 14] = true
  · rw [if_pos hsel, if_pos hsel]
    constructor
    · rintro ⟨-, h, -⟩
      exact h
    · intro h
      exact ⟨by omega, h, within_bak (by omega) hle _⟩
  · rw [if_neg hsel, if_neg hsel, hfmt]
    simp only [Rd.within_bind, Rd.within_pure, and_true, hsize, within_rdObjs Nat.one_pos]
    omega

/-- **The handler of set-points** reads inside the frame. -/
theorem within_asduYt (hle : len ≤ 257) {fmt : Iec104.CmdFmt}
    (hfmt : (AsduType.ofCode (Fld.type m)).bind ytFmt = some fmt) : (asduYt c s len).Within len m ↔
    cmdEnd m ≤ len := by
  have hpos : 0 < fmt.size := by
    cases ht : AsduType.ofCode (Fld.type m) with
    | none =>
      rw [ht] at hfmt
      cases hfmt
    | some t =>
      rw [ht] at hfmt
      exact Iec104.cmdFmt_size_pos (t := t) (by rw [Iec104.cmdFmt]; cases t <;> cases hfmt <;> rfl)
  rw [asduYt, within_cmdHead, cmdEnd]
  by_cases hr : Fld.reason m = Cot.act
  swap
  · rw [if_pos hr, if_pos hr]
    simp only [Rd.within_pure, and_true]
  rw [if_neg (not_not.mpr hr), if_neg (not_not.mpr hr), hfmt]
  dsimp only
  rw [Rd.within_bind, within_rdObjsUntil hpos, mem_rdObjsUntil, Nat.max_le]
  constructor
  · rintro ⟨h10, h, -⟩
    exact ⟨h10, h⟩
  · rintro ⟨h10, h⟩
    exact ⟨h10, h, within_bak h10 hle _⟩

/-- A command is one for remote control or a set-point. -/
theorem cmdHandler_cases {h : Rd (Core × List Act)} (hh : cmdHandler c s m len = some h) :
    IsCmd m ∧ ((∃ t, AsduType.ofCode (Fld.type m) = some t ∧ (t = .cScNa1 ∨ t = .cDcNa1) ∧ h = asduYk c s len) ∨
      ∃ fmt, (AsduType.ofCode (Fld.type m)).bind ytFmt = some fmt ∧ h = asduYt c s len) := by
  unfold cmdHandler at hh
  split at hh
  · cases hh
  next hf =>
    have hcmd : ∀ t, AsduType.ofCode (Fld.type m) = some t → t ∈ [AsduType.cScNa1, .cDcNa1, .cSeNa1, .cSeNc1] →
        IsCmd m := fun t ht hmem => ⟨not_not.mp hf, t, ht, hmem⟩
    split at hh
    next ht => exact ⟨hcmd _ ht (by decide), Or.inl ⟨_, ht, Or.inl rfl, (Option.some.inj hh).symm⟩⟩
    next ht => exact ⟨hcmd _ ht (by decide), Or.inl ⟨_, ht, Or.inr rfl, (Option.some.inj hh).symm⟩⟩
    next ht => exact ⟨hcmd _ ht (by decide), Or.inr ⟨_, by rw [ht]; rfl, (Option.some.inj hh).symm⟩⟩
    next ht => exact ⟨hcmd _ ht (by decide), Or.inr ⟨_, by rw [ht]; rfl, (Option.some.inj hh).symm⟩⟩
    · cases hh

variable (c s len) in
theorem cmdHandler_isSome (hcmd : IsCmd m) : ∃ h, cmdHandler c s m len = some h := by
  obtain ⟨hf, t, ht, hmem⟩ := hcmd
  unfold cmdHandler
  rw [if_neg (not_not.mpr hf), ht]
  simp only [List.mem_cons, List.not_mem_nil, or_false] at hmem
  rcases hmem with rfl | rfl | rfl | rfl <;> exact ⟨_, rfl⟩

/-- **Every command handler** reads up to `cmdEnd`. -/
theorem within_cmdHandler (hle : len ≤ 257) {h : Rd (Core × List Act)} (hh : cmdHandler c s m len = some h) :
    h.Within len m ↔ cmdEnd m ≤ len := by
  rcases (cmdHandler_cases hh).2 with ⟨t, ht, hyk, rfl⟩ | ⟨fmt, hfmt, rfl⟩
  · exact within_asduYk hle ht hyk
  · exact within_asduYt hle hfmt

/-- **What a command handler saves**. -/
theorem copies_cmdHandler {h : Rd (Core × List Act)} (hh : cmdHandler c (bare s) m len = some h) (bak : List UInt8) :
    bak ∈ copies (h.run m).1 ↔ Saved m ∧ bak = m.slice 7 (bakSize len) := by
  have hnil : copies (bare s) = [] := rfl
  rcases (cmdHandler_cases hh).2 with ⟨t, ht, hyk, rfl⟩ | ⟨fmt, hfmt, rfl⟩
  · have hyt : ((AsduType.ofCode (Fld.type m)).bind ytFmt).isSome = false := by
      rw [ht]
      rcases hyk with rfl | rfl <;> rfl
    rw [run_asduYk, Saved, hyt]
    by_cases hr : Fld.reason m = Cot.act
    swap
    · rw [if_pos hr, hnil]
      exact iff_of_false List.not_mem_nil fun h => hr h.1.1
    rw [if_neg (not_not.mpr hr)]
    by_cases hsel : selected [Fld.elem0 m] = true
    · rw [if_pos hsel]
      refine Iff.trans ?_ (and_iff_right ⟨hr, Or.inr hsel⟩).symm
      exact List.mem_singleton
    · rw [if_neg hsel]
      refine iff_of_false (fun h : bak ∈ ([] : List (List UInt8)) => absurd h List.not_mem_nil) fun h => ?_
      exact h.1.2.elim (fun hf => by cases hf) hsel
  · rw [run_asduYt, Saved, hfmt]
    by_cases hr : Fld.reason m = Cot.act
    swap
    · rw [if_pos hr, hnil]
      exact iff_of_false List.not_mem_nil fun h => hr h.1.1
    rw [if_neg (not_not.mpr hr)]
    refine Iff.trans ?_ (and_iff_right ⟨hr, Or.inl rfl⟩).symm
    exact List.mem_singleton

theorem ten_le_cmdEnd (m : Mem) : 10 ≤ cmdEnd m := by
  unfold cmdEnd
  split
  · exact Nat.le_refl 10
  · split
    · exact Nat.le_max_left _ _
    · split
      · decide
      · exact Nat.le_trans (by decide) (Nat.le_max_left 15 _)

/-- **A command frame is handled safely**, the check sum counted into the copy or not. -/
theorem frameSafe_iff (hle : len ≤ 257) :
    (FrameSafe c 1 s m len ↔ (IsCmd m → cmdEnd m ≤ len)) ∧
      (FrameSafe c 2 s m len ↔ (IsCmd m → cmdEnd m ≤ len ∧ ¬ Saved m)) := by
  have hreads : (∀ h, cmdHandler c s m len = some h → h.Within len m) ↔ (IsCmd m → cmdEnd m ≤ len) := by
    constructor
    · intro h hcmd
      obtain ⟨x, hx⟩ := cmdHandler_isSome c s len hcmd
      exact (within_cmdHandler hle hx).mp (h x hx)
    · intro h x hx
      exact (within_cmdHandler hle hx).mpr (h (cmdHandler_cases hx).1)
  have hsaves : ∀ tail, (∀ h, cmdHandler c (bare s) m len = some h → ∀ bak ∈ copies (h.run m).1, 7 + bak.length + tail = len) ↔
      (IsCmd m → Saved m → 7 + bakSize len + tail = len) := by
    intro tail
    constructor
    · intro h hcmd hsaved
      obtain ⟨x, hx⟩ := cmdHandler_isSome c (bare s) len hcmd
      have hlen := h x hx _ ((copies_cmdHandler hx _).mpr ⟨hsaved, rfl⟩)
      rwa [Mem.length_slice] at hlen
    · intro h x hx bak hbak
      have hsaved := (copies_cmdHandler hx bak).mp hbak
      rw [hsaved.2, Mem.length_slice]
      exact h (cmdHandler_cases hx).1 hsaved.1
  have h10 := ten_le_cmdEnd m
  rw [FrameSafe, FrameSafe, hreads, hsaves, hsaves]
  refine ⟨⟨fun h => h.1, fun h => ⟨h, fun hcmd _ => ?_⟩⟩, ?_⟩
  · have hend := h hcmd
    rw [bakSize_of_le (by omega) hle]
    omega
  · constructor
    · rintro ⟨h1, h2⟩ hcmd
      have hend := h1 hcmd
      refine ⟨hend, fun hsaved => ?_⟩
      have hlen := h2 hcmd hsaved
      rw [bakSize_of_le (by omega) hle] at hlen
      omega
    · intro h
      exact ⟨fun hcmd => (h hcmd).1, fun hcmd hsaved => absurd hsaved (h hcmd).2⟩

end Handler

/-! ### Saved commands -/

/-- A machine that builds a confirmation has a command to copy. -/
def AckBacked (tack : Bool) (x confirm success : Iec10xStat) (bak : Option (List UInt8)) : Prop :=
  tack = true → x = confirm ∨ x = success → bak ≠ none

/-- **A turn copies no absent command**: neither the machine of the set-points nor that of remote control. -/
def AcksBacked (clock : Clock) (s : Core) : Prop :=
  let s' := (machineCallpulse c clock.callpulse (machineCallall c clock.callall (machineWork c s).1).1).1
  let s'' := (machineYt c clock.yt clock.yt' s').1
  (machineWork c s).1.stat.init = .linkIdle →
    AckBacked s'.tack s'.stat.yt .ytCmdConfirm .ytCmdSuccess s'.back.ytBak ∧
      AckBacked s''.tack s''.stat.yk .ykCmdConfirm .ykCmdSuccess s''.back.ykBak

/-- A command of remote control, or a set-point, that is confirmed or about to be. -/
def YkWaits (x : Iec10xStat) : Prop := x = .ykCmdStart ∨ x = .ykCmdConfirm

def YtWaits (x : Iec10xStat) : Prop := x = .ytCmdStart ∨ x = .ytCmdConfirm

instance (x : Iec10xStat) : Decidable (YkWaits x) := inferInstanceAs (Decidable (_ ∨ _))

instance (x : Iec10xStat) : Decidable (YtWaits x) := inferInstanceAs (Decidable (_ ∨ _))

/-- What the slave keeps to: a command that waits for its confirmation has its copy. -/
structure Backed (s : Core) : Prop where
  unfinished : Unfinished s.stat
  yk : YkWaits s.stat.yk → s.back.ykBak ≠ none
  yt : YtWaits s.stat.yt → s.back.ytBak ≠ none

section Backing

variable {c} {s : Core}

theorem Backed.acks (h : Backed s) :
    AckBacked s.tack s.stat.yt .ytCmdConfirm .ytCmdSuccess s.back.ytBak ∧
      AckBacked s.tack s.stat.yk .ykCmdConfirm .ykCmdSuccess s.back.ykBak := by
  refine ⟨fun _ hx => ?_, fun _ hx => ?_⟩
  · exact h.yt (Or.inr (hx.resolve_right h.unfinished.yt.2))
  · exact h.yk (Or.inr (hx.resolve_right h.unfinished.yk))

/-- Copies stay, and no command begins to wait. -/
theorem Backed.keep (h : Backed s) {s' : Core} (hu : Unfinished s'.stat) (hback : s'.back = s.back)
    (hyk : YkWaits s'.stat.yk → YkWaits s.stat.yk) (hyt : YtWaits s'.stat.yt → YtWaits s.stat.yt) : Backed s' := by
  refine ⟨hu, ?_, ?_⟩
  · rw [hback]
    exact fun hx => h.yk (hyk hx)
  · rw [hback]
    exact fun hx => h.yt (hyt hx)

theorem backed_machineWork (h : Backed s) : Backed (machineWork c s).1 := by
  have hu := unfinished_machineWork (c := c) h.unfinished
  unfold machineWork at hu ⊢
  split at hu
  · have hyk : ¬ YkWaits .ykCmdIdle := by decide
    have hyt : ¬ YtWaits .ytCmdIdle := by decide
    exact h.keep hu rfl (fun hx => absurd hx hyk) fun hx => absurd hx hyt
  · exact h.keep hu rfl id id
  · exact h.keep hu rfl id id
  · exact h.keep hu rfl id id
  · exact h.keep hu rfl id id
  · exact h.keep hu rfl id id

theorem backed_machineOf (clock : Clock) (v : Svc) (h : Backed s) : Backed (machineOf c clock v s).1 := by
  have hu := unfinished_machineOf (c := c) clock v h.unfinished
  cases v with
  | callall =>
    simp only [machineOf, machineCallall] at hu ⊢
    split at hu
    all_goals try exact h.keep hu rfl id id
    by_cases htack : s.tack = true
    · rw [if_pos htack] at hu ⊢
      exact h.keep hu rfl id id
    · rw [if_neg htack] at hu ⊢
      exact h.keep hu rfl id id
  | callpulse =>
    rw [show machineOf c clock .callpulse s = (s, []) from machineCallpulse_idle _ h.unfinished.callpulse]
    exact h
  | yt =>
    simp only [machineOf, machineYt] at hu ⊢
    split at hu
    next hyt => exact h.keep hu rfl id fun _ => Or.inl hyt
    next hyt => exact h.keep hu rfl id fun _ => Or.inr hyt
    next hyt => exact absurd hyt h.unfinished.yt.1
    next hyt => exact absurd hyt h.unfinished.yt.2
    next hyt =>
      have hidle : ¬ YtWaits .ytCmdIdle := by decide
      exact h.keep hu rfl id fun hx => absurd hx hidle
    · exact h.keep hu rfl id id
  | yk =>
    simp only [machineOf, machineYk] at hu ⊢
    have hidle : ¬ YkWaits .ykCmdIdle := by decide
    split at hu
    next hyk => exact h.keep hu rfl (fun _ => Or.inl hyk) id
    next hyk => exact h.keep hu rfl (fun _ => Or.inr hyk) id
    next hyk =>
      have hyt : ¬ YtWaits .ykCmdSuccess := by decide
      refine h.keep hu rfl (fun hx => ?_) fun hx => absurd hx hyt
      dsimp only at hx
      split at hx
      · exact absurd hx (by decide)
      · exact hx
    next hyk => exact absurd hyk h.unfinished.yk
    next hyk => exact ⟨hu, fun hx => absurd hx hidle, h.yt⟩
    · exact h.keep hu rfl id id

/-- **A turn** of a slave that keeps to it copies no absent command. -/
theorem Backed.turn (h : Backed s) (clock : Clock) : AcksBacked c clock s := by
  intro _
  have h1 := backed_machineOf (c := c) clock .callpulse (backed_machineOf (c := c) clock .callall (backed_machineWork (c := c) h))
  exact ⟨h1.acks.1, (backed_machineOf (c := c) clock .yt h1).acks.2⟩

theorem backed_stateMachine (clock : Clock) (h : Backed s) : Backed (stateMachine c clock s).1 := by
  have hwork := backed_machineWork (c := c) h
  rw [stateMachine_eq]
  split
  · exact hwork
  · exact run_invariant (I := Backed) (fun s v hs => backed_machineOf clock v hs) hwork turn

/-- A frame of fixed length is about the link. -/
theorem keeps_on10 (m : Mem) : ((on10 c s).run m).1.back = s.back ∧ ((on10 c s).run m).1.stat.yk = s.stat.yk ∧
    ((on10 c s).run m).1.stat.yt = s.stat.yt := by
  rw [run_on10]
  split
  · split
    · exact ⟨rfl, rfl, rfl⟩
    · split
      · exact ⟨rfl, rfl, rfl⟩
      · split
        · exact ⟨rfl, rfl, rfl⟩
        · split <;> exact ⟨rfl, rfl, rfl⟩
  · exact ⟨rfl, rfl, rfl⟩

/-- What a handler of commands leaves behind, with its states. -/
theorem backed_onUserData (m : Mem) (len : Nat) (h : Backed s) (hu : Unfinished ((onUserData c s len).run m).1.stat) :
    Backed ((onUserData c s len).run m).1 := by
  have hcall : ∀ q x, ((asduCall s q x).run m).back = s.back ∧ ((asduCall s q x).run m).stat.yk = s.stat.yk ∧
      ((asduCall s q x).run m).stat.yt = s.stat.yt := by
    intro q x
    rw [run_asduCall]
    split <;> exact ⟨rfl, rfl, rfl⟩
  have hsame : ∀ s' : Core, Unfinished s'.stat → s'.back = s.back ∧ s'.stat.yk = s.stat.yk ∧ s'.stat.yt = s.stat.yt →
      Backed s' := by
    rintro s' hu' ⟨hb, hyk, hyt⟩
    exact h.keep hu' hb (fun hx => hyk ▸ hx) fun hx => hyt ▸ hx
  simp only [onUserData, Rd.run_bind, Rd.run_octet, Rd.mem_octet] at hu ⊢
  cases ht : AsduType.ofCode (m 7) with
  | none =>
    rw [ht] at hu
    exact h
  | some t =>
    rw [ht] at hu
    cases t with
    | cIcNa1 =>
      simp only [asduCallAll, Rd.run_bind, Rd.run_pure] at hu ⊢
      exact hsame _ hu (hcall _ _)
    | cCiNa1 =>
      simp only [asduCallPulse, Rd.run_bind, Rd.run_pure] at hu ⊢
      exact hsame _ hu (hcall _ _)
    | cScNa1 | cDcNa1 =>
      dsimp only at hu ⊢
      rw [run_asduYk] at hu ⊢
      by_cases hr : Fld.reason m = Cot.act
      swap
      · rw [if_pos hr]
        exact h
      rw [if_neg (not_not.mpr hr)] at hu ⊢
      by_cases hsel : selected [Fld.elem0 m] = true
      · rw [if_pos hsel] at hu ⊢
        exact ⟨hu, fun _ => Option.some_ne_none _, h.yt⟩
      · rw [if_neg hsel] at hu ⊢
        have hexec : ¬ YkWaits .ykCmdExec := by decide
        exact h.keep hu rfl (fun hx => absurd hx hexec) id
    | cSeNa1 | cSeNc1 =>
      dsimp only at hu ⊢
      rw [run_asduYt] at hu ⊢
      by_cases hr : Fld.reason m = Cot.act
      swap
      · rw [if_pos hr]
        exact h
      rw [if_neg (not_not.mpr hr)] at hu ⊢
      simp only [Fld.type, ht, Option.bind_some, ytFmt] at hu ⊢
      have hexec : ¬ YkWaits .ykCmdExec := by decide
      refine ⟨hu, fun hx => h.yk ?_, fun _ => Option.some_ne_none _⟩
      dsimp only at hx
      split at hx
      · exact absurd hx hexec
      · exact hx
    | _ => exact h

theorem backed_serve (f : Taken) (h : Backed s) : Backed (f.serve (handlers c) s).1 := by
  have hu := unfinished_serve (c := c) f h.unfinished
  cases f with
  | nothing => exact h
  | on10 m =>
    obtain ⟨hb, hyk, hyt⟩ := keeps_on10 (c := c) (s := s) m
    exact h.keep hu hb (fun hx => hyk ▸ hx) fun hx => hyt ▸ hx
  | on68 m len =>
    have hu' : Unfinished ((on68 c s len).run m).1.stat := hu
    show Backed ((on68 c s len).run m).1
    rw [run_on68] at hu' ⊢
    split
    next hf =>
      rw [if_pos hf] at hu'
      exact backed_onUserData m len h hu'
    · split <;> exact h

theorem core_buildSpon (type : DevNodeCtrl → AsduType) (obj : DevNodeCtrl → DevNodeCtrl → List UInt8)
    (nodes : NodeArr) :
    (buildSpon c type obj nodes s).1 = s := by
  unfold buildSpon
  split
  · rfl
  · split <;> rfl

/-- **Whatever the slave reads**, a command that waits has its copy. -/
theorem backed_step (t : Station Core) (e : Event) (h : Backed t.core) : Backed (step c t e).1.core := by
  cases e with
  | recv read =>
    show Backed (recv (handlers c) read t).1.core
    rw [core_recv]
    exact backed_serve _ h
  | machine clock =>
    show Backed (t.machine (stateMachine c clock)).1.core
    unfold Station.machine
    split
    · exact h
    · exact backed_stateMachine clock h
  | yxSpon nodes =>
    rw [show (step c t (.yxSpon nodes)).1.core = t.core from core_buildSpon _ _ nodes]
    exact h
  | ycSpon nodes =>
    rw [show (step c t (.ycSpon nodes)).1.core = t.core from core_buildSpon _ _ nodes]
    exact h

theorem backed_fresh : Backed Core.fresh := by
  have hyk : ¬ YkWaits .ykCmdIdle := by decide
  have hyt : ¬ YtWaits .ytCmdIdle := by decide
  exact ⟨⟨rfl, by rintro ⟨⟩, by rintro ⟨⟩, by rintro ⟨⟩⟩, fun hx => absurd hx hyk, fun hx => absurd hx hyt⟩

end Backing

/-! ### Runs -/

/-- **A step is safe**: a command frame is handled safely, and a turn copies no absent command. -/
def CommandSafe (tail : Nat) (t : Station Core) : Event → Prop
  | .recv read => ∀ m len, t.taken read = .on68 m len → FrameSafe c tail t.core m len
  | .machine clock => t.looping = false → AcksBacked c clock t.core
  | _ => True

/-- A command frame holds what its handler reads. -/
def CommandFits (t : Station Core) : Event → Prop
  | .recv read => ∀ m len, t.taken read = .on68 m len → IsCmd m → cmdEnd m ≤ len
  | _ => True

/-- A command frame is not saved. -/
def SavesNothing (t : Station Core) : Event → Prop
  | .recv read => ∀ m len, t.taken read = .on68 m len → IsCmd m → ¬ Saved m
  | _ => True

theorem commandSafe_step (t : Station Core) (e : Event) (h : Backed t.core) :
    (CommandSafe c 1 t e ↔ CommandFits t e) ∧ (CommandSafe c 2 t e ↔ CommandFits t e ∧ SavesNothing t e) := by
  cases e with
  | recv read =>
    have hframe : ∀ m len, t.taken read = .on68 m len →
        (FrameSafe c 1 t.core m len ↔ (IsCmd m → cmdEnd m ≤ len)) ∧
          (FrameSafe c 2 t.core m len ↔ (IsCmd m → cmdEnd m ≤ len ∧ ¬ Saved m)) :=
      fun m len htaken => frameSafe_iff (le_of_taken htaken)
    refine ⟨forall_congr' fun m => forall_congr' fun len => forall_congr' fun ht => (hframe m len ht).1, ?_⟩
    constructor
    · intro hs
      exact ⟨fun m len ht hcmd => ((hframe m len ht).2.mp (hs m len ht) hcmd).1,
        fun m len ht hcmd => ((hframe m len ht).2.mp (hs m len ht) hcmd).2⟩
    · rintro ⟨hfits, hsaves⟩ m len ht
      exact (hframe m len ht).2.mpr fun hcmd => ⟨hfits m len ht hcmd, hsaves m len ht hcmd⟩
  | machine clock =>
    have hturn := h.turn (c := c) clock
    exact ⟨iff_of_true (fun _ => hturn) trivial, iff_of_true (fun _ => hturn) ⟨trivial, trivial⟩⟩
  | yxSpon nodes | ycSpon nodes => exact ⟨Iff.rfl, iff_of_true trivial ⟨trivial, trivial⟩⟩

/-- A frame with the length octet one, and what a select would hold behind it. -/
def shortFrame : Read :=
  ⟨[0x68, 0x01, 0x01, 0x68, 0x73, 0x73, 0x16, 0x2D, 0x01, 0x06, 0x00, 0x00, 0x01, 0x60, 0x80], by decide⟩

end Slave

end Wow.Iec101
