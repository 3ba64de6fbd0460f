import Wow.Iec101.Frame
import Wow.Lib.Monitor
import Wow.Utils.ByteArray

/-!
# Wow.Iec101.Link — what `wow_iec101s.c` and `wow_iec101m.c` have word for word in common

`Core` is the part of `Iec101s_T` and of `Iec101m_T` that a run changes.  `frame_parse`, the checks of `deal_10`
and `deal_68`, the exec thread and `reset_param` are the same text in both files; a station is their instance at
its own handlers and its own machine.

* `frameParse`: at most one frame leaves the array.
* `pass`: one round of the exec thread: a read, a frame, the machine.
* `run_deal10`, `run_deal68`: which frames a station takes in.
-/

namespace Wow.Iec101

open Iec10x Utils

/-! ### State -/

/-- `Iec101AsduBack_T`: the saved commands, with their sizes; `none` is a null pointer. -/
structure AsduBack where
  ykBak : Option (List UInt8)
  ytBak : Option (List UInt8)
  deriving DecidableEq

/-- What a run of a station changes. -/
structure Core where
  stat : Iec10xState
  time : Iec10xTime
  tack : Bool
  back : AsduBack
  deriving DecidableEq

/-- A step of the code that reads no received octet: the new state, and what it does in order. -/
abbrev Cmd (σ : Type) := σ → σ × List Act

/-- One call after the other. -/
def andThen {σ : Type} (s : σ) (calls : List (Cmd σ)) : σ × List Act := run (fun s f => f s) s calls

/-- `reset_param`; the times are left. -/
def resetParam (s : Core) : Core :=
  { s with
    tack := false
    stat := ⟨.linkInit, .callAllIdle, .callPulseIdle, .ytCmdIdle, .ykCmdIdle, .testerStart⟩ }

/-- A station after `calloc` and `reset_param`. -/
def Core.fresh : Core :=
  ⟨⟨.linkInit, .callAllIdle, .callPulseIdle, .ytCmdIdle, .ykCmdIdle, .testerStart⟩, ⟨0, 0, 0, 0, 0, 0, 0⟩, false,
    ⟨none, none⟩⟩

/-! ### The services -/

/-- The four services with a machine of their own. -/
inductive Svc where
  | callall | callpulse | yt | yk
  deriving DecidableEq

namespace Svc

/-- The field of `Iec10xState_T` a service has. -/
def state : Svc → Iec10xState → Iec10xStat
  | callall, s => s.callall
  | callpulse, s => s.callpulse
  | yt, s => s.yt
  | yk, s => s.yk

/-- An assignment to that field. -/
def set (x : Iec10xStat) (s : Iec10xState) : Svc → Iec10xState
  | callall => { s with callall := x }
  | callpulse => { s with callpulse := x }
  | yt => { s with yt := x }
  | yk => { s with yk := x }

/-- `IEC10X_STA_…_IDLE`. -/
def idle : Svc → Iec10xStat
  | callall => .callAllIdle
  | callpulse => .callPulseIdle
  | yt => .ytCmdIdle
  | yk => .ykCmdIdle

/-- `IEC10X_STA_…_START`. -/
def start : Svc → Iec10xStat
  | callall => .callAllStart
  | callpulse => .callPulseStart
  | yt => .ytCmdStart
  | yk => .ykCmdStart

/-- `IEC10X_STA_…_FAILD`. -/
def faild : Svc → Iec10xStat
  | callall => .callAllFaild
  | callpulse => .callPulseFaild
  | yt => .ytCmdFaild
  | yk => .ykCmdFaild

/-- The state constants of a service. -/
def own : Svc → List Iec10xStat
  | callall =>
    [.callAllIdle, .callAllStart, .callAllConfirm, .callAllYx, .callAllYc, .callAllSuccess, .callAllFaild]
  | callpulse =>
    [.callPulseIdle, .callPulseStart, .callPulseConfirm, .callPulseYm, .callPulseSuccess, .callPulseFaild]
  | yt => [.ytCmdIdle, .ytCmdStart, .ytCmdConfirm, .ytCmdExec, .ytCmdSuccess, .ytCmdFaild]
  | yk => [.ykCmdIdle, .ykCmdStart, .ykCmdConfirm, .ykCmdExec, .ykCmdSuccess, .ykCmdFaild]

/-- The report of its success. -/
def success : Svc → Service
  | callall => .callAllSuccess
  | callpulse => .callPulseSuccess
  | yt => .ytCmdSuccess
  | yk => .ykCmdSuccess

/-- The report of its failure. -/
def failure : Svc → Service
  | callall => .callAllFaild
  | callpulse => .callPulseFaild
  | yt => .ytCmdFaild
  | yk => .ykCmdFaild

@[simp] theorem state_set (x : Iec10xStat) (s : Iec10xState) (v : Svc) : v.state (v.set x s) = x := by
  cases v <;> rfl

theorem state_set_of_ne {v w : Svc} (h : w ≠ v) (x : Iec10xStat) (s : Iec10xState) :
    w.state (v.set x s) = w.state s := by
  cases v <;> cases w <;> first | rfl | exact absurd rfl h

@[simp] theorem init_set (x : Iec10xStat) (s : Iec10xState) (v : Svc) : (v.set x s).init = s.init := by
  cases v <;> rfl

/-- The reports of a service. -/
def reports (v : Svc) (acts : List Act) : List Service :=
  acts.filterMap fun
    | .serv x => if x = v.success ∨ x = v.failure then some x else none
    | _ => none

@[simp] theorem reports_nil (v : Svc) : v.reports [] = [] := rfl

@[simp] theorem reports_append (v : Svc) (a b : List Act) : v.reports (a ++ b) = v.reports a ++ v.reports b :=
  List.filterMap_append

/-- Actions without a report. -/
theorem reports_eq_nil {v : Svc} {acts : List Act} (h : ∀ x, .serv x ∉ acts) : v.reports acts = [] := by
  refine List.filterMap_eq_nil_iff.mpr fun a ha => ?_
  cases a with
  | serv x => exact absurd ha (h x)
  | _ => rfl

end Svc

/-- The readings of `wow_time_get_msec` in a round of the machines. -/
structure Clock where
  work : Int
  work' : Int
  callall : Int
  callpulse : Int
  yt : Int
  yt' : Int
  yk : Int
  yk' : Int

/-- What one `link_recv` delivers into the 1500 octets of `recv_buf`; nothing when it times out. -/
abbrev Read := { l : List UInt8 // l.length ≤ 1500 }

/-- A station with its byte array; `looping` says that the exec thread is in a check sum loop that never ends. -/
structure Station (σ : Type) where
  core : σ
  array : ByteArrayT
  looping : Bool

/-- A station after its `init` call. -/
def Station.init {σ : Type} (s : σ) : Station σ := ⟨s, .new 2048, false⟩

/-- A call that leaves the array alone. -/
def Station.call {σ : Type} (t : Station σ) (f : Cmd σ) : Station σ × List Act :=
  ({ t with core := (f t.core).1 }, (f t.core).2)

variable {σ : Type}

/-! ### Received frames -/

/-- The checks of `deal_10` on a frame of `len` octets, in front of the `switch`; a frame that passes them is on
the record. -/
def deal10 (handle : σ → Rd (σ × List Act)) (s : σ) (len : Nat) : Rd (Option (σ × List Act)) := do
  let summed ← Rd.octets 1 (len - 3)
  let cs ← Rd.octet 4
  if cs ≠ checkSum summed then pure (some (s, [])) else do
  let fin ← Rd.octet 5
  if fin ≠ frameEnd then pure (some (s, [])) else do
  let frame ← Rd.octets 0 len
  let r ← handle s
  pure (some (r.1, .rx frame :: r.2))

/-- The checks of `deal_68`; `none` when the check sum loop does not end. -/
def deal68 (handle : σ → Nat → Rd (σ × List Act)) (s : σ) (len : Nat) : Rd (Option (σ × List Act)) := do
  let sum ← rdCs68 len
  match sum with
  | none => pure none
  | some csTemp => do
    let cs ← Rd.octet (len - 2)
    if cs ≠ csTemp then pure (some (s, [])) else do
    let fin ← Rd.octet (len - 1)
    if fin ≠ frameEnd then pure (some (s, [])) else do
    let l ← Rd.octet 1
    if l.toNat + 6 ≠ len then pure (some (s, [])) else do
    let lCfm ← Rd.octet 2
    if l ≠ lCfm then pure (some (s, [])) else do
    let frame ← Rd.octets 0 len
    let r ← handle s len
    pure (some (r.1, .rx frame :: r.2))

/-- A frame at the start of the array is dealt with and removed. -/
def dealWith (deal : σ → Nat → Rd (Option (σ × List Act))) (t : Station σ) (len : Nat) : Station σ × List Act :=
  match (deal t.core len).run t.array.data with
  | none => ({ t with looping := true }, [])
  | some (s, acts) =>
    ({ t with core := s, array := { t.array with data := (deal t.core len).mem t.array.data }.remove 0 len }, acts)

/-- `exec_10` and `exec_68` of `frame_parse`: the octets in front of the frame are removed; a whole frame with
its end in place is dealt with, one without loses its first octet. -/
def execFrame (deal : σ → Nat → Rd (Option (σ × List Act))) (extent : ByteArrayT → Nat) (index : Nat)
    (t : Station σ) : Station σ × List Act :=
  let t := { t with array := t.array.remove 0 index }
  if t.array.size < stableLen then (t, [])
  else if t.array.size < extent t.array then (t, [])
  else if t.array.data (extent t.array - 1) = frameEnd then dealWith deal t (extent t.array)
  else ({ t with array := t.array.remove 0 1 }, [])

/-- The handlers of a station behind the checks of `deal_10` and of `deal_68`. -/
structure Handlers (σ : Type) where
  on10 : σ → Rd (σ × List Act)
  on68 : σ → Nat → Rd (σ × List Act)

variable (h : Handlers σ)

def exec10 (index : Nat) (t : Station σ) : Station σ × List Act :=
  execFrame (deal10 h.on10) (fun _ => stableLen) index t

def exec68 (index : Nat) (t : Station σ) : Station σ × List Act :=
  execFrame (deal68 h.on68) (fun a => (a.data 1).toNat + stableLen) index t

/-- `frame_parse`. -/
def frameParse (t : Station σ) : Station σ × List Act :=
  match t.array.find stableBegin, t.array.find variableBegin with
  | none, none => (t, [])
  | none, some index68 => exec68 h index68 t
  | some index10, none => exec10 h index10 t
  | some index10, some index68 => if index10 < index68 then exec10 h index10 t else exec68 h index68 t

/-- The read of a round. -/
def receive (read : Read) (t : Station σ) : Station σ :=
  if read.val.length > 0 then { t with array := t.array.appendNdata read.val } else t

/-- The first half of a round of the exec thread: the read, and at most one frame. -/
def recv (read : Read) (t : Station σ) : Station σ × List Act :=
  if t.looping then (t, []) else frameParse h (receive read t)

/-- The second half: the machines. -/
def Station.machine (t : Station σ) (f : Cmd σ) : Station σ × List Act :=
  if t.looping then (t, []) else t.call f

/-! ### Which frames are taken in -/

/-- The frame of fixed length at the start of the buffer passes the checks. -/
def Valid10 (m : Mem) : Prop := m 4 = checkSum (m.slice 1 3) ∧ m 5 = frameEnd

/-- The frame of `len` octets at the start of the buffer passes the checks. -/
def Valid68 (m : Mem) (len : Nat) : Prop :=
  m (len - 2) = checkSum (m.slice 4 (len - 6)) ∧ m (len - 1) = frameEnd ∧ (m 1).toNat + 6 = len ∧ m 1 = m 2

instance (m : Mem) : Decidable (Valid10 m) := inferInstanceAs (Decidable (_ ∧ _))

instance (m : Mem) (len : Nat) : Decidable (Valid68 m len) := inferInstanceAs (Decidable (_ ∧ _ ∧ _ ∧ _))

section Deal

variable (s : σ) (m : Mem)

theorem run_deal10 (handle : σ → Rd (σ × List Act)) : (deal10 handle s stableLen).run m =
    if Valid10 m then some (((handle s).run m).1, .rx (m.slice 0 stableLen) :: ((handle s).run m).2)
    else some (s, []) := by
  by_cases hcs : m 4 = checkSum (m.slice 1 3)
  · by_cases hend : m 5 = frameEnd
    · rw [if_pos ⟨hcs, hend⟩]
      simp [deal10, stableLen, ← hcs, hend]
    · rw [if_neg fun hv => hend hv.2]
      simp [deal10, stableLen, ← hcs, hend]
  · rw [if_neg fun hv => hcs hv.1]
    simp [deal10, stableLen, hcs]

theorem mem_deal10 (handle : σ → Rd (σ × List Act)) : (deal10 handle s stableLen).mem m =
    if Valid10 m then (handle s).mem m else m := by
  by_cases hcs : m 4 = checkSum (m.slice 1 3)
  · by_cases hend : m 5 = frameEnd
    · rw [if_pos ⟨hcs, hend⟩]
      simp [deal10, stableLen, ← hcs, hend]
    · rw [if_neg fun hv => hend hv.2]
      simp [deal10, stableLen, ← hcs, hend]
  · rw [if_neg fun hv => hcs hv.1]
    simp [deal10, stableLen, hcs]

/-- The tests of `deal_68` behind the check sum loop. -/
theorem run_deal68 (handle : σ → Nat → Rd (σ × List Act)) (len : Nat) : (deal68 handle s len).run m =
    if 257 < len then none
    else if Valid68 m len then
      some (((handle s len).run m).1, .rx (m.slice 0 len) :: ((handle s len).run m).2)
    else some (s, []) := by
  by_cases hlen : 257 < len
  · have hsum : (rdCs68 len).run m = none := by rw [run_rdCs68, if_neg (by omega)]
    simp only [deal68, Rd.run_bind, hsum, hlen, if_true, Rd.run_pure]
  have hsum : (rdCs68 len).run m = some (checkSum (m.slice 4 (len - 6))) := by rw [run_rdCs68, if_pos (by omega)]
  have hmem : (rdCs68 len).mem m = m := mem_csLoop ..
  rw [if_neg hlen]
  by_cases hcs : m (len - 2) = checkSum (m.slice 4 (len - 6))
  swap
  · rw [if_neg fun hv => hcs hv.1]
    simp [deal68, hsum, hmem, hcs]
  by_cases hend : m (len - 1) = frameEnd
  swap
  · rw [if_neg fun hv => hend hv.2.1]
    simp [deal68, hsum, hmem, hcs, hend]
  by_cases hl : (m 1).toNat + 6 = len
  swap
  · rw [if_neg fun hv => hl hv.2.2.1]
    simp [deal68, hsum, hmem, hcs, hend, hl]
  by_cases hcfm : m 1 = m 2
  swap
  · rw [if_neg fun hv => hcfm hv.2.2.2]
    simp [deal68, hsum, hmem, hcs, hend, hl, hcfm]
  have hl' : (m 2).toNat + 6 = len := by rw [← hcfm, hl]
  rw [if_pos ⟨hcs, hend, hl, hcfm⟩]
  simp [deal68, hsum, hmem, hcs, hend, hl', hcfm]

theorem mem_deal68 (handle : σ → Nat → Rd (σ × List Act)) {len : Nat} (hv : Valid68 m len) (hlen : len ≤ 257) :
    (deal68 handle s len).mem m = (handle s len).mem m := by
  obtain ⟨hcs, hend, hl, hcfm⟩ := hv
  have hsum : (rdCs68 len).run m = some (checkSum (m.slice 4 (len - 6))) := by rw [run_rdCs68, if_pos hlen]
  have hmem : (rdCs68 len).mem m = m := mem_csLoop ..
  have hl' : (m 2).toNat + 6 = len := by rw [← hcfm, hl]
  simp [deal68, hsum, hmem, hcs, hend, hl', hcfm]

end Deal

/-! ### What a round takes in -/

/-- The frame a round takes in: its format, and the buffer it lies at the start of. -/
inductive Taken where
  | nothing
  | on10 (m : Mem)
  | on68 (m : Mem) (len : Nat)

/-- What the handlers make of it. -/
def Taken.serve (s : σ) : Taken → σ × List Act
  | nothing => (s, [])
  | on10 m => (((h.on10 s).run m).1, .rx (m.slice 0 stableLen) :: ((h.on10 s).run m).2)
  | on68 m len => (((h.on68 s len).run m).1, .rx (m.slice 0 len) :: ((h.on68 s len).run m).2)

/-- A frame of fixed length at the start of the array. -/
def taken10 (a : ByteArrayT) : Taken :=
  if stableLen ≤ a.size ∧ Valid10 a.data then .on10 a.data else .nothing

/-- A frame of variable length at the start of the array, short enough for the check sum loop. -/
def taken68 (a : ByteArrayT) : Taken :=
  let len := (a.data 1).toNat + stableLen
  if len ≤ a.size ∧ len ≤ 257 ∧ Valid68 a.data len then .on68 a.data len else .nothing

/-- The frame an array gives. -/
def taken (a : ByteArrayT) : Taken :=
  match a.find stableBegin, a.find variableBegin with
  | none, none => .nothing
  | none, some index68 => taken68 (a.remove 0 index68)
  | some index10, none => taken10 (a.remove 0 index10)
  | some index10, some index68 =>
    if index10 < index68 then taken10 (a.remove 0 index10) else taken68 (a.remove 0 index68)

/-- The frame a read gives. -/
def Station.taken (t : Station σ) (read : Read) : Taken :=
  if t.looping then .nothing else Iec101.taken (receive read t).array

/-- The handlers of one frame, seen from outside. -/
theorem exec10_taken (index : Nat) (t : Station σ) :
    ((exec10 h index t).1.core, (exec10 h index t).2) = (taken10 (t.array.remove 0 index)).serve h t.core := by
  unfold exec10 execFrame
  by_cases hs : (t.array.remove 0 index).size < stableLen
  · have ht : taken10 (t.array.remove 0 index) = .nothing := if_neg fun hc => Nat.not_le_of_lt hs hc.1
    simp only [hs, if_true, ht, Taken.serve]
  by_cases hend : (t.array.remove 0 index).data (stableLen - 1) = frameEnd
  swap
  · have ht : taken10 (t.array.remove 0 index) = .nothing := if_neg fun hc => hend hc.2.2
    simp only [hs, if_false, hend, ht, Taken.serve]
  by_cases hv : Valid10 (t.array.remove 0 index).data
  · have ht : taken10 (t.array.remove 0 index) = .on10 (t.array.remove 0 index).data :=
      if_pos ⟨Nat.le_of_not_lt hs, hv⟩
    simp only [hs, if_false, hend, if_true, dealWith, run_deal10, if_pos hv, ht, Taken.serve]
  · have ht : taken10 (t.array.remove 0 index) = .nothing := if_neg fun hc => hv hc.2
    simp only [hs, if_false, hend, if_true, dealWith, run_deal10, if_neg hv, ht, Taken.serve]

theorem exec68_taken (index : Nat) (t : Station σ) :
    ((exec68 h index t).1.core, (exec68 h index t).2) = (taken68 (t.array.remove 0 index)).serve h t.core := by
  unfold exec68 execFrame
  by_cases hs : (t.array.remove 0 index).size < stableLen
  · have ht : taken68 (t.array.remove 0 index) = .nothing := if_neg fun hc => by
      have := hc.1
      omega
    simp only [hs, if_true, ht, Taken.serve]
  by_cases he : (t.array.remove 0 index).size < ((t.array.remove 0 index).data 1).toNat + stableLen
  · have ht : taken68 (t.array.remove 0 index) = .nothing := if_neg fun hc => Nat.not_le_of_lt he hc.1
    simp only [hs, if_false, he, if_true, ht, Taken.serve]
  by_cases hend : (t.array.remove 0 index).data (((t.array.remove 0 index).data 1).toNat + stableLen - 1) = frameEnd
  swap
  · have ht : taken68 (t.array.remove 0 index) = .nothing := if_neg fun hc => hend hc.2.2.2.1
    simp only [hs, he, if_false, hend, ht, Taken.serve]
  by_cases hlen : 257 < ((t.array.remove 0 index).data 1).toNat + stableLen
  · have ht : taken68 (t.array.remove 0 index) = .nothing := if_neg fun hc => Nat.not_le_of_lt hlen hc.2.1
    simp only [hs, he, if_false, hend, if_true, dealWith, run_deal68, if_pos hlen, ht, Taken.serve]
  by_cases hv : Valid68 (t.array.remove 0 index).data (((t.array.remove 0 index).data 1).toNat + stableLen)
  · have ht : taken68 (t.array.remove 0 index) = .on68 (t.array.remove 0 index).data
        (((t.array.remove 0 index).data 1).toNat + stableLen) :=
      if_pos ⟨Nat.le_of_not_lt he, Nat.le_of_not_lt hlen, hv⟩
    simp only [hs, he, if_false, hend, if_true, dealWith, run_deal68, if_neg hlen, if_pos hv, ht, Taken.serve]
  · have ht : taken68 (t.array.remove 0 index) = .nothing := if_neg fun hc => hv hc.2.2
    simp only [hs, he, if_false, hend, if_true, dealWith, run_deal68, if_neg hlen, if_neg hv, ht, Taken.serve]

/-- **A read**, as the state and the actions see it: one frame is served, or none. -/
theorem recv_taken (read : Read) (t : Station σ) :
    ((recv h read t).1.core, (recv h read t).2) = (t.taken read).serve h t.core := by
  unfold recv Station.taken
  by_cases hl : t.looping = true
  · simp only [hl, if_true, Taken.serve]
  have hc : (receive read t).core = t.core := by
    rw [receive]
    split <;> rfl
  rw [if_neg hl, if_neg hl, ← hc]
  unfold frameParse taken
  cases (receive read t).array.find stableBegin with
  | none =>
    cases (receive read t).array.find variableBegin with
    | none => rfl
    | some index68 => exact exec68_taken h index68 _
  | some index10 =>
    cases (receive read t).array.find variableBegin with
    | none => exact exec10_taken h index10 _
    | some index68 =>
      by_cases hlt : index10 < index68
      · simp only [hlt, if_true]
        exact exec10_taken h index10 _
      · simp only [hlt, if_false]
        exact exec68_taken h index68 _

/-- What every handler and every machine preserves, a station preserves. -/
theorem core_recv (read : Read) (t : Station σ) : (recv h read t).1.core = ((t.taken read).serve h t.core).1 :=
  congrArg Prod.fst (recv_taken h read t)

theorem acts_recv (read : Read) (t : Station σ) : (recv h read t).2 = ((t.taken read).serve h t.core).2 :=
  congrArg Prod.snd (recv_taken h read t)

end Wow.Iec101
