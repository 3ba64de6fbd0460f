import Mathlib.Data.List.Forall2
import Wow.Iec101.Dialogue
import Wow.Iec101.Grouping
import Wow.Iec101.Wire
import Wow.Iec101.Pair
import Wow.Iec101.Failures
import Wow.Iec101.Domains

/-!
# Wow.Iec101.Interrogation — a general interrogation comes to its end

Two stations with a general interrogation between them do what the two machines of `Wow.Iec101.Dialogue` do, as long
as no frame is built outside its buffer and no service runs into its timeout.  So the interrogation ends in success
exactly for the node tables whose groups make frames enough, and frames that fit.

* `IsDown`, `IsUp`: the frames of a general interrogation, and what they say.
* `Follows`: a pair of stations and its dialogue; `follows_step`: a round of both.
* `endsInSuccess_iff`: the tables for which every interrogation succeeds.
-/

namespace Wow.Iec101

open Iec10x Utils Dialogue

/-! ### What the frames say -/

/-- A frame of user data: its function code, type and cause, and the octets its information begins with. -/
def Bears (func : Nat) (type : AsduType) (reason : Nat) (info f : List UInt8) : Prop :=
  ∃ l body, f = octets68 l body ∧ Whole l body ∧ f.length ≤ 255 ∧ (body.getD 0 0).toNat % 16 = func ∧
    body.getD 3 0 = type.code ∧ (body.getD 5 0).toNat % 64 = reason ∧ info <+: body.drop 8

/-- Those octets in an interrogation frame. -/
def callInfo : List UInt8 := [0, 0, 20]

/-- A frame of the master, and what it says. -/
def IsDown (f : List UInt8) : Down → Prop
  | .call => Bears Func.sendUsrDataAck .cIcNa1 Cot.act callInfo f
  | .poll => ∃ fcb addr, f = (mk10 (ctrlDown false true fcb true Func.reqUsrData1) addr).wire
  | .beat => ∃ fcb addr, f = (mk10 (ctrlDown false true fcb true Func.reqUsrData2) addr).wire

/-- The types of the data frames. -/
def dataTypes (norm : Bool) : List AsduType := if norm then [.mMeNa1] else [.mSpNa1, .mMeNc1]

/-- A frame of the slave, and what it says. -/
def IsUp (f : List UInt8) : Up → Prop
  | .ack => ∃ addr, f = (mk10 (ctrlUp false false true false Func.confirmAck) addr).wire
  | .con => Bears Func.resUsrDataAck .cIcNa1 Cot.actcon callInfo f
  | .data norm => ∃ type ∈ dataTypes norm, Bears Func.resUsrDataAck type Cot.introgen [] f
  | .fin => Bears Func.resUsrDataAck .cIcNa1 Cot.actterm callInfo f
  | .nack => ∃ addr, f = (mk10 (ctrlUp false false false false Func.resUsrDataNack) addr).wire

/-- What a handler reads of a frame of user data. -/
structure Reading (func : Nat) (type : AsduType) (reason : Nat) (info : List UInt8) (m : Mem) : Prop where
  func : Fld.func m = func
  type : AsduType.ofCode (m 7) = some type
  reason : Fld.reason m = reason
  info : ∀ i (hi : i < info.length), m (12 + i) = info[i]

theorem reading_of_body {func : Nat} {type : AsduType} {reason : Nat} {info body : List UInt8} {m : Mem}
    (hm : ∀ i (hi : i < body.length), m (4 + i) = body[i]) (hlen : 8 ≤ body.length)
    (hfunc : (body.getD 0 0).toNat % 16 = func) (htype : body.getD 3 0 = type.code)
    (hreason : (body.getD 5 0).toNat % 64 = reason) (hinfo : info <+: body.drop 8) :
    Reading func type reason info m := by
  have hget : ∀ i, i < 8 → m (4 + i) = body.getD i 0 := fun i hi => by
    rw [hm i (by omega), List.getD_eq_getElem?_getD, List.getElem?_eq_getElem (by omega)]
    rfl
  refine ⟨?_, ?_, ?_, fun i hi => ?_⟩
  · rw [Fld.func, show m 4 = _ from hget 0 (by decide), hfunc]
  · rw [show m 7 = _ from hget 3 (by decide), htype, AsduType.ofCode_code]
  · rw [Fld.reason, show m 9 = _ from hget 5 (by decide), hreason]
  · have hle := hinfo.length_le
    rw [List.length_drop] at hle
    rw [show 12 + i = 4 + (8 + i) by omega, hm (8 + i) (by omega), hinfo.getElem hi, List.getElem_drop]

/-- What an interrogation frame is about. -/
theorem Reading.call {func reason : Nat} {m : Mem} (h : Reading func .cIcNa1 reason callInfo m) :
    Fld.infoAddr m = 0 ∧ (Fld.elem0 m).toNat = Cot.introgen := by
  have h0 : m 12 = 0 := h.info 0 (by decide)
  have h1 : m 13 = 0 := h.info 1 (by decide)
  have h2 : m 14 = 20 := h.info 2 (by decide)
  refine ⟨?_, ?_⟩
  · rw [Fld.infoAddr, Mem.u16, h0, h1]
    rfl
  · rw [Fld.elem0, h2]
    rfl

/-- The octets between the head and the check sum of a frame that fits. -/
theorem whole_mk68 (ctrl : UInt8) (addr : UInt16) (h : AsduHead) (info : List UInt8) {type : AsduType}
    (hlen : lenOf (h.octets ++ info) ≤ 255) (htype : h.type = type.code) (hyt : Iec104.ytFmt type = none) :
    Whole (UInt8.ofNat ((h.octets ++ info).length + 3)) (ctrl :: (leU16 addr ++ (h.octets ++ info))) := by
  have hasdu : (h.octets ++ info).length = info.length + 5 := by
    rw [List.length_append, AsduHead.length_octets, Nat.add_comm]
  have hle : info.length + 14 ≤ 255 := by
    rw [lenOf, hasdu] at hlen
    omega
  have hbody : (ctrl :: (leU16 addr ++ (h.octets ++ info))).length = info.length + 8 := by
    rw [List.length_cons, List.length_append, hasdu]
    show 2 + (info.length + 5) + 1 = _
    omega
  have hl : (UInt8.ofNat ((h.octets ++ info).length + 3)).toNat = info.length + 8 := by
    rw [hasdu]
    exact Nat.mod_eq_of_lt (by omega)
  refine ⟨hbody.trans hl.symm, ?_, ?_⟩
  · rw [hbody]
    exact Nat.le_add_left 8 _
  · intro fmt hfmt
    have hnone : (AsduType.ofCode h.type).bind Iec104.ytFmt = none := by
      rw [htype, AsduType.ofCode_code]
      exact hyt
    cases hnone.symm.trans hfmt

/-- The cause in an ASDU head. -/
theorem reason_octet (h : AsduHead) : (UInt8.ofNat (h.reason % 64 + bit h.pn 6 + bit h.test 7)).toNat % 64 = h.reason % 64 := by
  have h6 : bit h.pn 6 = 0 ∨ bit h.pn 6 = 64 := by cases h.pn <;> decide
  have h7 : bit h.test 7 = 0 ∨ bit h.test 7 = 128 := by cases h.test <;> decide
  rw [UInt8.toNat_ofNat']
  omega

/-- **A built frame that fits**. -/
theorem bears_mk68 (ctrl : UInt8) (addr : UInt16) (h : AsduHead) (info : List UInt8) {type : AsduType}
    (hlen : lenOf (h.octets ++ info) ≤ 255) (htype : h.type = type.code)
    (hyt : Iec104.ytFmt type = none) :
    Bears (ctrl.toNat % 16) type (h.reason % 64) info (mk68 ctrl addr (h.octets ++ info) (lenOf (h.octets ++ info))).wire := by
  refine ⟨_, _, wire_mk68 ctrl addr hlen, whole_mk68 ctrl addr h info hlen htype hyt, ?_, rfl, htype, reason_octet h, ?_⟩
  · rw [wire_mk68 ctrl addr hlen, length_octets68, List.length_cons, List.length_append, length_leU16]
    rw [lenOf] at hlen
    omega
  · exact ⟨[], List.append_nil _⟩

/-! ### What a station puts out -/

/-- The reports of a trace. -/
def servs (acts : List Act) : List Service :=
  acts.filterMap fun
    | .serv x => some x
    | _ => none

/-- A frame that is built inside its buffer: no octet behind the last one, check sum and end not in front of the
first. -/
def Inside : Act → Prop
  | .send f _ => f.buf.length ≤ maxBufLen ∧ 2 ≤ f.len
  | _ => True

/-- What actions say, and how many successes they report to a callback that is set or not. -/
structure Puts {M : Type} (F : List UInt8 → M → Prop) (cb : Bool) (acts : List Act) (words : List M)
    (n : ℕ) : Prop where
  wires : List.Forall₂ F (wires acts) words
  servs : servs acts = if cb then List.replicate n .callAllSuccess else []
  inside : ∀ a ∈ acts, Inside a

section Puts

variable {M : Type} {F : List UInt8 → M → Prop} {cb : Bool}

theorem puts_nil : Puts F cb [] [] 0 := ⟨.nil, by cases cb <;> rfl, fun _ ha => absurd ha List.not_mem_nil⟩

theorem Puts.append {acts acts' : List Act} {words words' : List M} {n k : ℕ} (h : Puts F cb acts words n)
    (h' : Puts F cb acts' words' k) : Puts F cb (acts ++ acts') (words ++ words') (n + k) := by
  refine ⟨?_, ?_, List.forall_mem_append.mpr ⟨h.inside, h'.inside⟩⟩
  · rw [wires_append]
    exact List.rel_append h.wires h'.wires
  · have hsplit : Iec101.servs (acts ++ acts') = Iec101.servs acts ++ Iec101.servs acts' := List.filterMap_append
    rw [hsplit, h.servs, h'.servs]
    cases cb with
    | false => rfl
    | true => exact (List.replicate_add n k _).symm

/-- A frame on the link. -/
theorem puts_send {f : SendBuf} {w : M} (hw : F f.wire w) (hin : Inside (.send f true)) :
    Puts F cb [.send f true] [w] 0 :=
  ⟨.cons hw .nil, by cases cb <;> rfl, fun _ ha => List.mem_singleton.mp ha ▸ hin⟩

/-- The report of a success. -/
theorem puts_success : Puts F cb (if cb then [.serv .callAllSuccess] else []) [] 1 := by
  cases cb with
  | false => exact ⟨.nil, rfl, fun _ ha => absurd ha List.not_mem_nil⟩
  | true => exact ⟨.nil, rfl, fun _ ha => List.mem_singleton.mp ha ▸ trivial⟩

/-- A frame that is taken in. -/
theorem puts_rx (f : List UInt8) : Puts F cb [.rx f] [] 0 :=
  ⟨.nil, by cases cb <;> rfl, fun _ ha => List.mem_singleton.mp ha ▸ trivial⟩

/-- Values that are handed over. -/
theorem puts_setVals {acts : List Act} (h : ∀ a ∈ acts, ∃ n v, a = .setVal n v) : Puts F cb acts [] 0 := by
  refine ⟨?_, ?_, fun a ha => ?_⟩
  · rw [wires_setVals h]
    exact .nil
  · have hnil : Iec101.servs acts = [] := List.filterMap_eq_nil_iff.mpr fun a ha => by
      obtain ⟨n, v, rfl⟩ := h a ha
      rfl
    rw [hnil]
    cases cb <;> rfl
  · obtain ⟨n, v, rfl⟩ := h a ha
    trivial

/-- A frame that fits the length octet fits the buffer. -/
theorem inside_mk68 (ctrl : UInt8) (addr : UInt16) {asdu : List UInt8} (h : lenOf asdu ≤ 255) :
    Inside (.send (mk68 ctrl addr asdu (lenOf asdu)) true) := by
  have hlen : lenOf asdu = 7 + asdu.length + 2 := rfl
  have hl : (UInt8.ofNat (lenOf asdu)).toNat = lenOf asdu := Nat.mod_eq_of_lt (Nat.lt_succ_of_le h)
  refine ⟨?_, ?_⟩
  · have hhead : (head68 (UInt8.ofNat (lenOf asdu)) ctrl addr ++ asdu).length = 7 + asdu.length := List.length_append
    show (finish _ _).length ≤ 256
    rw [length_finish, List.length_append, List.length_replicate, hhead, maxBufLen]
    omega
  · show 2 ≤ (UInt8.ofNat (lenOf asdu)).toNat
    omega

/-- A frame of another length fits the buffer in one case: its length octet is two, and only check sum and end go
out. -/
theorem lenOf_of_inside {ctrl : UInt8} {addr : UInt16} {asdu : List UInt8}
    (h : Inside (.send (mk68 ctrl addr asdu (lenOf asdu)) true)) : lenOf asdu ≤ 255 ∨ lenOf asdu = 258 := by
  have hlen : lenOf asdu = 7 + asdu.length + 2 := rfl
  have hl : (UInt8.ofNat (lenOf asdu)).toNat = lenOf asdu % 256 := UInt8.toNat_ofNat'
  have hhead : (head68 (UInt8.ofNat (lenOf asdu)) ctrl addr ++ asdu).length = 7 + asdu.length := List.length_append
  obtain ⟨h1, h2⟩ := h
  have h1' : (finish (UInt8.ofNat (lenOf asdu)) _).length ≤ maxBufLen := h1
  have h2' : 2 ≤ (UInt8.ofNat (lenOf asdu)).toNat := h2
  rw [length_finish, List.length_append, List.length_replicate, hhead, maxBufLen] at h1'
  omega

theorem inside_mk10 (ctrl : UInt8) (addr : UInt16) : Inside (.send (mk10 ctrl addr) true) :=
  ⟨(by decide : 6 ≤ 256), (by decide : 2 ≤ 6)⟩

end Puts

/-- A general interrogation that waits, with its timeout behind it. -/
def Late (now : Int) (s : Core) : Prop :=
  s.stat.callall ∈ [Iec10xStat.callAllConfirm, .callAllYx, .callAllYc] ∧ now - s.time.callall > callAllTimeout

theorem timeout_of_not_late {now : Int} {s : Core} (h : ¬ Late now s)
    (hw : s.stat.callall ∈ [Iec10xStat.callAllConfirm, .callAllYx, .callAllYc]) :
    decide (now - s.time.callall > callAllTimeout) = false :=
  decide_eq_false fun hlt => h ⟨hw, hlt⟩

/-- A read that brings a frame with these words, or nothing. -/
def Brings {M : Type} (F : List UInt8 → M → Prop) (read : Read) : Option M → Prop
  | none => read.val = []
  | some w => F read.val w

/-! ### The master -/

namespace Master

variable {c : Conf} {s : Core} {a : Talk}

/-- The state of the service at a phase. -/
def atPhase : Phase → Iec10xStat → Prop
  | .start, x => x = .callAllStart
  | .confirm, x => x = .callAllConfirm
  | .told, x => x = .callAllYx ∨ x = .callAllYc
  | .success, x => x = .callAllSuccess
  | .ended, x => x = .callAllIdle

/-- The master stands where the dialogue says; every service but the general interrogation is idle. -/
structure At (s : Core) (a : Talk) : Prop where
  init : s.stat.init = .linkIdle
  others : ∀ v : Svc, v ≠ .callall → v.state s.stat = v.idle
  phase : atPhase a.phase s.stat.callall
  tack : s.tack = a.mtack

theorem isDown_poll (b : Bool) : IsDown (mk10 (ctrlDown false true b true Func.reqUsrData1) c.asduAddr).wire .poll :=
  ⟨b, c.asduAddr, rfl⟩

/-- A request. -/
theorem puts_userAck (s : Core) : Puts IsDown c.servCb (buildRequestUserAck c s).2 [.poll] 0 :=
  puts_send (isDown_poll (c := c) _) (inside_mk10 _ _)

/-- An assignment to the service. -/
theorem At.put (h : At s a) {x : Iec10xStat} {p : Phase} (hx : atPhase p x) (b : Bool) (a' : Talk)
    (hp : a'.phase = p) (ht : a'.mtack = a.mtack) : At { put .callall x s with fcbAck := b } a' :=
  ⟨h.init, fun v hv => (Svc.state_set_of_ne hv x s.stat).trans (h.others v hv), by rw [hp]; exact hx,
    h.tack.trans ht.symm⟩

/-- The machine of the link, while the link is up: a heartbeat or nothing. -/
theorem machineWork_idle (now now' : Int) (h : s.stat.init = .linkIdle) : machineWork c now now' s =
    if now - s.time.init > heartbeatTimeout then
      ({ (buildRequestUserData c s).1 with time := { s.time with init := now' } }, (buildRequestUserData c s).2)
    else (s, []) := by
  unfold machineWork
  rw [h]
  rfl

/-- The link machine says a heartbeat, or nothing, and leaves the dialogue alone. -/
theorem At.work (h : At s a) (now now' : Int) : At (machineWork c now now' s).1 a ∧
    Puts IsDown c.servCb (machineWork c now now' s).2
      (if decide (now - s.time.init > heartbeatTimeout) then [.beat] else []) 0 := by
  rw [machineWork_idle now now' h.init]
  by_cases hbeat : now - s.time.init > heartbeatTimeout
  · rw [if_pos hbeat, if_pos (decide_eq_true hbeat)]
    exact ⟨⟨h.init, h.others, h.phase, h.tack⟩, puts_send ⟨_, c.asduAddr, rfl⟩ (inside_mk10 _ _)⟩
  · rw [if_neg hbeat, if_neg fun hd => hbeat (of_decide_eq_true hd)]
    exact ⟨h, puts_nil⟩

/-- **The machine of the general interrogation** takes the step of the dialogue. -/
theorem At.callall (h : At s a) {now : Int} (hlate : ¬ Late now s.toCore) (beat : Bool) :
    At (machineCallall c now s).1 (Talk.masterTurns beat a) ∧
      Puts IsDown c.servCb (machineCallall c now s).2 (if a.polls then [.poll] else [])
        (if a.phase = .success then 1 else 0) := by
  have hphase := h.phase
  have hother := fun x v hv => (Svc.state_set_of_ne hv x s.stat).trans (h.others v hv)
  cases hp : a.phase with
  | start =>
    rw [hp] at hphase
    have hx : s.stat.callall = .callAllStart := hphase
    simp only [machineCallall, hx, Talk.masterTurns, Talk.polls, hp]
    exact ⟨⟨h.init, hother _, rfl, by rw [Bool.and_comm]; exact h.tack⟩, puts_nil⟩
  | confirm =>
    rw [hp] at hphase
    have hx : s.stat.callall = .callAllConfirm := hphase
    have hin : expired now s.time.callall callAllTimeout = false := timeout_of_not_late hlate (by rw [hx]; decide)
    cases ht : a.mtack with
    | true =>
      have ht' : s.tack = true := h.tack.trans ht
      simp only [machineCallall, hx, pollTack, ht', if_true, buildRequestUserAck, hin, Bool.false_eq_true, if_false,
        Talk.masterTurns, Talk.polls, hp, ht]
      exact ⟨⟨h.init, h.others, hx, rfl⟩, puts_userAck s⟩
    | false =>
      have ht' : s.tack = false := h.tack.trans ht
      simp only [machineCallall, hx, pollTack, ht', hin, Bool.false_eq_true, if_false, Talk.masterTurns, Talk.polls, hp, ht]
      exact ⟨⟨h.init, h.others, hx, ht'⟩, puts_nil⟩
  | told =>
    rw [hp] at hphase
    have hin : expired now s.time.callall callAllTimeout = false :=
      timeout_of_not_late hlate (by rcases hphase with hx | hx <;> rw [hx] <;> decide)
    have hstays : machineCallall c now s = (s, []) := by
      rcases hphase with hx | hx <;> simp only [machineCallall, hx, hin, Bool.false_eq_true, if_false]
    rw [hstays]
    simp only [Talk.masterTurns, Talk.polls, hp]
    exact ⟨⟨h.init, h.others, hphase, by rw [Bool.and_comm]; exact h.tack⟩, puts_nil⟩
  | success =>
    rw [hp] at hphase
    have hx : s.stat.callall = .callAllSuccess := hphase
    simp only [machineCallall, hx, Talk.masterTurns, Talk.polls, hp]
    exact ⟨⟨h.init, hother _, rfl, by rw [Bool.and_comm]; exact h.tack⟩, (puts_userAck s).append puts_success⟩
  | ended =>
    rw [hp] at hphase
    have hx : s.stat.callall = .callAllIdle := hphase
    simp only [machineCallall, hx, Talk.masterTurns, Talk.polls, hp]
    exact ⟨⟨h.init, h.others, hx, by rw [Bool.and_comm]; exact h.tack⟩, puts_nil⟩

/-- While the other services are idle, the machines are those of the link and of the general interrogation. -/
theorem stateMachine_callall (clock : Clock) (h : At s a) : stateMachine c clock s =
    ((machineCallall c clock.callall (machineWork c clock.work clock.work' s).1).1,
      (machineWork c clock.work clock.work' s).2 ++
        (machineCallall c clock.callall (machineWork c clock.work clock.work' s).1).2) := by
  have hw := (h.work (c := c) clock.work clock.work').1
  unfold stateMachine
  dsimp only
  rw [if_neg (by rw [hw.init]; exact fun hne => hne rfl)]
  generalize machineWork c clock.work clock.work' s = r at hw
  have hidle : ∀ v : Svc, v ≠ .callall → machineOf c clock v (machineCallall c clock.callall r.1).1 =
      ((machineCallall c clock.callall r.1).1, []) := fun v hv => by
    have hleaves : Leaves v r.1 (machineOf c clock .callall r.1) := leaves_machineOf hv clock
    exact machineOf_idle clock (hleaves.1.trans (hw.others v hv))
  have h1 := hidle .callpulse (by rintro ⟨⟩)
  have h2 := hidle .yt (by rintro ⟨⟩)
  have h3 := hidle .yk (by rintro ⟨⟩)
  simp only [machineOf] at h1 h2 h3
  simp only [andThen, run_cons, run_nil, h1, h2, h3, List.append_nil]

/-- **A turn of the machines**. -/
theorem At.turns (h : At s a) (clock : Clock) (hlate : ¬ Late clock.callall s.toCore) :
    At (stateMachine c clock s).1 (Talk.masterTurns (decide (clock.work - s.time.init > heartbeatTimeout)) a) ∧
      Puts IsDown c.servCb (stateMachine c clock s).2
        ((if decide (clock.work - s.time.init > heartbeatTimeout) then [.beat] else []) ++
          if a.polls then [.poll] else []) (if a.phase = .success then 1 else 0) := by
  obtain ⟨hw, hputs⟩ := h.work (c := c) clock.work clock.work'
  have hlate' : ¬ Late clock.callall (machineWork c clock.work clock.work' s).1.toCore := by
    rw [machineWork_idle _ _ h.init]
    split <;> exact hlate
  obtain ⟨hat, hputs'⟩ := hw.callall (c := c) hlate' (decide (clock.work - s.time.init > heartbeatTimeout))
  rw [stateMachine_callall clock h]
  refine ⟨hat, ?_⟩
  have hall := hputs.append hputs'
  rwa [Nat.zero_add] at hall

/-- An interrogation frame of the slave. -/
theorem run_call {m : Mem} {reason : Nat} (h : Reading Func.resUsrDataAck .cIcNa1 reason callInfo m) (sendBuf : UInt8)
    (len : Nat) : (on68 c s sendBuf len).run m =
      if reason = Cot.actcon then buildRequestUserAck c (put .callall .callAllYx s)
      else if reason = Cot.actterm then (put .callall .callAllSuccess s, []) else (s, []) := by
  have hu : UserData m := Or.inr h.func
  obtain ⟨haddr, hq⟩ := h.call
  rw [run_on68, if_pos hu]
  simp only [onUserData, Rd.run_bind, Rd.run_octet, Rd.mem_octet, h.type]
  rw [asduCallAll, run_asduCall, if_neg (by rw [haddr]; exact fun hne => hne rfl), h.reason, hq, if_pos rfl]

/-- A frame of data. -/
theorem run_data {m : Mem} {norm : Bool} {type : AsduType} (htype : type ∈ dataTypes norm)
    (h : Reading Func.resUsrDataAck type Cot.introgen [] m) (sendBuf : UInt8) (len : Nat) :
    ∃ vals : List Act, (∀ b ∈ vals, ∃ n v, b = .setVal n v) ∧ (on68 c s sendBuf len).run m =
      ((buildRequestUserAck c (if norm then put .callall .callAllYc s else s)).1,
        vals ++ (buildRequestUserAck c (if norm then put .callall .callAllYc s else s)).2) := by
  have hu : UserData m := Or.inr h.func
  have hvals : ∀ fmt, ∀ b ∈ monVals c m fmt, ∃ n v, b = .setVal n v := fun fmt => by
    cases fmt with
    | none => exact fun b hb => absurd hb List.not_mem_nil
    | some f => exact setVal_of_mem_valCalls c
  have hmon : ∀ fmts after, (asduMon c s monReasons fmts after type).run m =
      ((buildRequestUserAck c (after type s)).1, monVals c m (fmts type) ++ (buildRequestUserAck c (after type s)).2) := by
    intro fmts after
    rw [run_asduMon, h.reason, if_pos (by decide)]
  rw [run_on68, if_pos hu]
  simp only [onUserData, Rd.run_bind, Rd.run_octet, Rd.mem_octet, h.type]
  cases norm with
  | true =>
    obtain rfl : type = .mMeNa1 := List.mem_singleton.mp htype
    exact ⟨_, hvals _, hmon ycFmt _⟩
  | false =>
    have htype' : type = .mSpNa1 ∨ type = .mMeNc1 := by simpa [dataTypes] using htype
    rcases htype' with rfl | rfl
    · exact ⟨_, hvals _, hmon yxFmt _⟩
    · exact ⟨_, hvals _, hmon ycFmt _⟩

/-- **A read of the master**. -/
theorem At.hears {t : Station Core} (ht : t.Sound) (hempty : t.array.octets = []) (h : At t.core a) (sendBuf : UInt8)
    {read : Read} {u : Option Up} (hread : Brings IsUp read u) :
    ((recv (handlers c sendBuf) read t).1.Sound ∧ (recv (handlers c sendBuf) read t).1.array.octets = []) ∧
      At (recv (handlers c sendBuf) read t).1.core (a.masterHears u) ∧
      Puts IsDown c.servCb (recv (handlers c sendBuf) read t).2 (if u.any Up.asks then [.poll] else []) 0 := by
  have hspare := spare_handlers c sendBuf
  -- a frame of user data
  have h68 : ∀ {type reason info}, Bears Func.resUsrDataAck type reason info read.val → ∃ m len,
      Reading Func.resUsrDataAck type reason info m ∧
        ((recv (handlers c sendBuf) read t).1.Sound ∧ (recv (handlers c sendBuf) read t).1.array.octets = []) ∧
        ((recv (handlers c sendBuf) read t).1.core, (recv (handlers c sendBuf) read t).2) =
          (((on68 c t.core sendBuf len).run m).1, .rx (m.slice 0 len) :: ((on68 c t.core sendBuf len).run m).2) := by
    rintro type reason info ⟨l, body, hf, hwhole, hle, h1, h2, h3, h4⟩
    obtain ⟨hs, he, m, hm, len, hserve⟩ := recv_octets68 hspare hwhole (hf ▸ hle) ht hempty hf
    exact ⟨m, len, reading_of_body hm hwhole.head h1 h2 h3 h4, ⟨hs, he⟩, hserve⟩
  -- an acknowledgement
  have h10 : ∀ {ctrl addr}, read.val = (mk10 ctrl addr).wire → ∃ m : Mem, m 1 = ctrl ∧
      ((recv (handlers c sendBuf) read t).1.Sound ∧ (recv (handlers c sendBuf) read t).1.array.octets = []) ∧
        ((recv (handlers c sendBuf) read t).1.core, (recv (handlers c sendBuf) read t).2) =
          (((on10 c t.core).run m).1, .rx (m.slice 0 stableLen) :: ((on10 c t.core).run m).2) := by
    intro ctrl addr hf
    obtain ⟨hs, he, m, hm, hserve⟩ := recv_mk10 hspare ht hempty hf
    exact ⟨m, hm, ⟨hs, he⟩, hserve⟩
  cases u with
  | none =>
    rw [recv_nothing ht hempty hread]
    exact ⟨⟨ht, hempty⟩, ⟨h.init, h.others, h.phase, h.tack.trans (Bool.or_false _).symm⟩, puts_nil⟩
  | some u =>
    cases u with
    | ack =>
      obtain ⟨addr, hf⟩ := hread
      obtain ⟨m, hm, hse, hserve⟩ := h10 hf
      obtain ⟨hcore, hacts⟩ := Prod.mk.inj hserve
      rw [run_on10, hm, if_neg (by decide), if_pos (by decide)] at hcore hacts
      rw [hcore, hacts]
      exact ⟨hse, ⟨h.init, h.others, h.phase, (Bool.or_true _).symm⟩, puts_rx _⟩
    | nack =>
      obtain ⟨addr, hf⟩ := hread
      obtain ⟨m, hm, hse, hserve⟩ := h10 hf
      obtain ⟨hcore, hacts⟩ := Prod.mk.inj hserve
      rw [run_on10, hm, if_neg (by decide), if_neg (by decide)] at hcore hacts
      rw [hcore, hacts]
      exact ⟨hse, ⟨h.init, h.others, h.phase, h.tack.trans (Bool.or_false _).symm⟩, puts_rx _⟩
    | con =>
      obtain ⟨m, len, hm, hse, hserve⟩ := h68 hread
      obtain ⟨hcore, hacts⟩ := Prod.mk.inj hserve
      rw [run_call hm, if_pos rfl] at hcore hacts
      rw [hcore, hacts]
      exact ⟨hse, h.put (p := .told) (Or.inl rfl) _ _ rfl (Bool.or_false _), (puts_rx _).append (puts_userAck _)⟩
    | fin =>
      obtain ⟨m, len, hm, hse, hserve⟩ := h68 hread
      obtain ⟨hcore, hacts⟩ := Prod.mk.inj hserve
      rw [run_call hm, if_neg (by decide), if_pos rfl] at hcore hacts
      rw [hcore, hacts]
      exact ⟨hse, h.put (p := .success) rfl t.core.fcbAck _ rfl (Bool.or_false _), puts_rx _⟩
    | data norm =>
      obtain ⟨type, htype, hbears⟩ := hread
      obtain ⟨m, len, hm, hse, hserve⟩ := h68 hbears
      obtain ⟨hcore, hacts⟩ := Prod.mk.inj hserve
      obtain ⟨vals, hvals, hrun⟩ := run_data (c := c) (s := t.core) htype hm sendBuf len
      rw [hrun] at hcore hacts
      rw [hcore, hacts]
      refine ⟨hse, ?_, (puts_rx _).append ((puts_setVals hvals).append (puts_userAck _))⟩
      cases norm with
      | true => exact h.put (p := .told) (Or.inr rfl) _ _ rfl (Bool.or_false _)
      | false => exact ⟨h.init, h.others, h.phase, h.tack.trans (Bool.or_false _).symm⟩

end Master

/-! ### The slave -/

namespace Slave

variable {P : Type}

/-- The frames its groups make: the group lists that hold a node, by their first one. -/
def Conf.data (c : Conf P) : Table where
  yx := (c.nodeList.yx.filterMap List.head?).length
  yc := ((c.nodeList.ycN ++ c.nodeList.ycF).filterMap List.head?).map fun x => decide (x.type ≠ .float)

/-- The octets of the elements of a group of yc, as many as its frame announces. -/
def ycLen (list : List DevNodeInfo) : Nat :=
  ((list.take (list.length % 128)).map fun x => if x.type = .float then 5 else 3).sum

/-- The frames of all groups of yc fit their length octet. -/
def Conf.Fits (c : Conf P) : Prop := ∀ list ∈ c.nodeList.ycN ++ c.nodeList.ycF, ycLen list ≤ 239

variable {c : Conf P} {s : Core} {a : Talk}

/-- Elements of a group that do not depend on their number. -/
theorem length_elems {elem : Nat → DevNodeInfo → List UInt8} {size : DevNodeInfo → Nat}
    (h : ∀ i x, (elem i x).length = size x) (l : List DevNodeInfo) :
    (l.mapIdx elem).flatten.length = (l.map size).sum := by
  rw [List.length_flatten]
  congr 1
  refine List.ext_getElem (by simp) fun i h1 h2 => ?_
  simp [h]

theorem length_yxElem (i : Nat) (x : DevNodeInfo) : (yxElem c i x).length = 1 := by
  unfold yxElem
  split <;> rfl

theorem length_ycElem (i : Nat) (x : DevNodeInfo) : (ycElem c i x).length = if x.type = .float then 5 else 3 := by
  unfold ycElem
  cases getVal c x with
  | some v => cases x.type <;> simp
  | none => cases x.type <;> simp

/-- **A group that fits** makes one frame when it holds a node. -/
theorem puts_buildGroup (type : DevNodeInfo → AsduType) (elem : Nat → DevNodeInfo → List UInt8)
    (norm : DevNodeInfo → Bool) (lists : List (List DevNodeInfo)) (htype : ∀ x, type x ∈ dataTypes (norm x))
    (hfit : ∀ list ∈ lists, ((list.take (list.length % 128)).mapIdx elem).flatten.length ≤ 239) :
    Puts IsUp c.servCb (lists.flatMap (buildGroup c type elem Cot.introgen))
      ((lists.filterMap List.head?).map fun x => .data (norm x)) 0 := by
  induction lists with
  | nil => exact puts_nil
  | cons list lists ih =>
    have hrest := ih fun l hl => hfit l (List.mem_cons_of_mem _ hl)
    cases list with
    | nil => exact hrest
    | cons first rest =>
      have hyt : ∀ t b, t ∈ dataTypes b → Iec104.ytFmt t = none := fun t b => by
        cases b <;> cases t <;> first | exact fun _ => rfl | (intro h; exact absurd h (by decide))
      have hlen : ∀ info : List UInt8, info.length ≤ 239 → ∀ h : AsduHead,
          lenOf (h.octets ++ (leU16 first.addr ++ info)) ≤ 255 := fun info hi h => by
        rw [lenOf, List.length_append, List.length_append, AsduHead.length_octets]
        show 7 + (5 + (2 + info.length)) + 2 ≤ 255
        omega
      have hle := hlen _ (hfit _ List.mem_cons_self)
        ⟨(type first).code, true, (first :: rest).length, Cot.introgen, false, false, c.asduAddr⟩
      have hbears := bears_mk68 (ctrlUp false false true false Func.resUsrDataAck) c.asduAddr _ _ hle rfl
        (hyt _ _ (htype first))
      have hsend : Puts IsUp c.servCb (buildGroup c type elem Cot.introgen (first :: rest)) [.data (norm first)] 0 := by
        unfold buildGroup send
        dsimp only
        rw [List.append_assoc]
        refine puts_send ⟨type first, htype first, ?_⟩ (inside_mk68 _ _ hle)
        obtain ⟨l, body, h1, h2, h3, h4, h5, h6, -⟩ := hbears
        exact ⟨l, body, h1, h2, h3, h4, h5, h6, List.nil_prefix⟩
      exact hsend.append hrest

/-- What the slave says of its yx. -/
theorem puts_yx : Puts IsUp c.servCb (c.nodeList.yx.flatMap (buildYx c Cot.introgen)) (c.data.tells .yx) 0 := by
  have hputs := puts_buildGroup (c := c) (fun _ => .mSpNa1) (yxElem c) (fun _ => false) c.nodeList.yx
    (fun _ => by decide) fun list _ => by
      have hlt : list.length % 128 < 128 := Nat.mod_lt _ (by decide)
      rw [length_elems length_yxElem, List.map_const', List.sum_replicate_nat, List.length_take]
      omega
  rwa [List.map_const'] at hputs

/-- The type of a group of yc says whether its values are normalised. -/
theorem type_mem_dataTypes (x : DevNodeInfo) :
    (if x.type = .float then AsduType.mMeNc1 else .mMeNa1) ∈ dataTypes (decide (x.type ≠ .float)) := by
  by_cases hx : x.type = .float
  · rw [if_pos hx, decide_eq_false (fun hne => hne hx)]
    decide
  · rw [if_neg hx, decide_eq_true hx]
    decide

/-- What it says of its yc. -/
theorem puts_yc (hfit : c.Fits) : Puts IsUp c.servCb
    (c.nodeList.ycN.flatMap (buildYc c Cot.introgen) ++ c.nodeList.ycF.flatMap (buildYc c Cot.introgen))
    (c.data.tells .yc) 0 := by
  have hputs := puts_buildGroup (c := c) _ (ycElem c) _ (c.nodeList.ycN ++ c.nodeList.ycF) type_mem_dataTypes
    fun list hl => by
      rw [length_elems length_ycElem]
      exact hfit list hl
  have htells : c.data.tells .yc =
      ((c.nodeList.ycN ++ c.nodeList.ycF).filterMap List.head?).map fun x => .data (decide (x.type ≠ .float)) := by
    rw [Table.tells, Conf.data, List.map_map]
    rfl
  rw [htells]
  rwa [List.flatMap_append] at hputs

/-- Groups of one kind of yc each. -/
def Conf.Plain (c : Conf P) : Prop :=
  ∀ list ∈ c.nodeList.ycN ++ c.nodeList.ycF, (∀ x ∈ list, x.type ≠ .float) ∨ ∀ x ∈ list, x.type = .float

theorem ycLen_ne {list : List DevNodeInfo} (h : (∀ x ∈ list, x.type ≠ .float) ∨ ∀ x ∈ list, x.type = .float) :
    ycLen list ≠ 242 := by
  have hsum : ∀ {k : Nat} {l : List DevNodeInfo}, (∀ x ∈ l, (if x.type = .float then 5 else 3) = k) →
      (l.map fun x => if x.type = .float then 5 else 3).sum = l.length * k := fun {k l} hk => by
    rw [List.map_congr_left hk, List.map_const', List.sum_replicate_nat]
  unfold ycLen
  rcases h with h | h
  · rw [hsum (k := 3) fun x hx => if_neg (h x (List.mem_of_mem_take hx))]
    omega
  · rw [hsum (k := 5) fun x hx => if_pos (h x (List.mem_of_mem_take hx))]
    omega

/-- **Frames that are built inside their buffer** fit. -/
theorem fits_of_inside (hplain : c.Plain)
    (h : ∀ b ∈ c.nodeList.ycN.flatMap (buildYc c Cot.introgen) ++ c.nodeList.ycF.flatMap (buildYc c Cot.introgen),
      Inside b) : c.Fits := by
  rw [← List.flatMap_append] at h
  intro list hl
  cases list with
  | nil => exact Nat.zero_le _
  | cons first rest =>
    have hmem : ∀ b ∈ buildYc c Cot.introgen (first :: rest), Inside b :=
      fun b hb => h b (List.mem_flatMap.mpr ⟨_, hl, hb⟩)
    have hlen := lenOf_of_inside (hmem _ (List.mem_singleton_self _))
    have hinfo : ∀ x y z : List UInt8, lenOf (x ++ y ++ z) = 7 + (x.length + y.length + z.length) + 2 := fun x y z => by
      rw [lenOf, List.length_append, List.length_append]
    rw [hinfo, AsduHead.length_octets, length_elems length_ycElem] at hlen
    have hlen' : 7 + (5 + 2 + ycLen (first :: rest)) + 2 ≤ 255 ∨ 7 + (5 + 2 + ycLen (first :: rest)) + 2 = 258 := hlen
    have hne := ycLen_ne (hplain _ hl)
    omega

/-- The state of the service at a stage. -/
def atStage : Stage → Iec10xStat
  | .asked | .ended => .callAllIdle
  | .start => .callAllStart
  | .confirm => .callAllConfirm
  | .yx => .callAllYx
  | .yc => .callAllYc
  | .success => .callAllSuccess

/-- The slave stands where the dialogue says; every service but the general interrogation is idle. -/
structure At (s : Core) (a : Talk) : Prop where
  init : s.stat.init = .linkIdle
  others : ∀ v : Svc, v ≠ .callall → v.state s.stat = v.idle
  stage : s.stat.callall = atStage a.stage
  tack : s.tack = a.stack

/-- An assignment to the service. -/
theorem At.set (h : At s a) {x : Iec10xStat} {tack : Bool} {time : Iec10xTime} {a' : Talk}
    (hx : x = atStage a'.stage) (ht : tack = a'.stack) :
    At { s with stat := { s.stat with callall := x }, tack := tack, time := time } a' :=
  ⟨h.init, fun v hv => (Svc.state_set_of_ne hv x s.stat).trans (h.others v hv), hx, ht⟩

/-- A confirmation or a termination. -/
theorem puts_call (acd : Bool) (reason : Nat) {u : Up}
    (h : ∀ f, Bears Func.resUsrDataAck .cIcNa1 (reason % 64) callInfo f → IsUp f u) :
    Puts IsUp c.servCb [buildCall c acd reason 20] [u] 0 := by
  have hinfo : ∀ x : AsduHead, x.octets ++ leU16 0 ++ [20] = x.octets ++ callInfo := fun x => List.append_assoc ..
  have hlen : ∀ x : AsduHead, variableLen + 1 = lenOf (x.octets ++ callInfo) := fun x => rfl
  unfold buildCall send
  rw [hinfo, hlen ⟨AsduType.cIcNa1.code, false, 1, reason, false, false, c.asduAddr⟩]
  refine puts_send (h _ ?_) (inside_mk68 _ _ (by decide : 17 ≤ 255))
  have hbears : Bears _ .cIcNa1 _ _ _ := bears_mk68 (ctrlUp false false acd false Func.resUsrDataAck) c.asduAddr
    ⟨AsduType.cIcNa1.code, false, 1, reason, false, false, c.asduAddr⟩ callInfo (by decide : 17 ≤ 255) rfl rfl
  have hfunc : (ctrlUp false false acd false Func.resUsrDataAck).toNat % 16 = Func.resUsrDataAck := by
    cases acd <;> decide
  rwa [hfunc] at hbears

/-- **A step that waits**, with what it says. -/
theorem At.awaits (h : At s a) {now : Int} (hlate : ¬ Late now s) (acts : List Act) (x : Iec10xStat)
    (hw : a.stage.waits = true) (hne : a.stage ≠ .success)
    (hmem : s.stat.callall ∈ [Iec10xStat.callAllConfirm, .callAllYx, .callAllYc]) (hx : x = atStage a.stage.next)
    (htells : a.fires = true → Puts IsUp c.servCb acts (c.data.tells a.stage) 0)
    (hm : machineCallall c now s =
      ({ s with
        stat := { s.stat with
          callall := (awaitTack s.tack now s.time.callall callAllTimeout acts s.stat.callall x .callAllFaild).1 }
        tack := false },
        (awaitTack s.tack now s.time.callall callAllTimeout acts s.stat.callall x .callAllFaild).2)) :
    At (machineCallall c now s).1 (Talk.slaveTurns c.data a) ∧
      Puts IsUp c.servCb (machineCallall c now s).2 (if a.fires then c.data.tells a.stage else [])
        (if a.fires && decide (a.stage = .success) then 1 else 0) := by
  have hin : expired now s.time.callall callAllTimeout = false := timeout_of_not_late hlate hmem
  have hfires : a.fires = a.stack := by
    rw [Talk.fires, hw, Bool.true_and]
    cases hs : a.stage <;> first | rfl | (rw [hs] at hw; cases hw)
  rw [hm, awaitTack, hin, h.tack, decide_eq_false hne, Bool.and_false]
  cases hst : a.stack with
  | true =>
    have hf := hfires.trans hst
    rw [slaveTurns_fires hf, hf]
    exact ⟨h.set hx (by rw [hw, Bool.not_true, Bool.and_false]), htells hf⟩
  | false =>
    have hf := hfires.trans hst
    rw [slaveTurns_stays hf, hf]
    exact ⟨h.set h.stage hst.symm, puts_nil⟩

/-- **The machine of the general interrogation** takes the step of the dialogue. -/
theorem At.callall (h : At s a) {now : Int} (hlate : ¬ Late now s)
    (hfit : a.stage = .yc → a.fires = true → c.Fits) :
    At (machineCallall c now s).1 (Talk.slaveTurns c.data a) ∧
      Puts IsUp c.servCb (machineCallall c now s).2 (if a.fires then c.data.tells a.stage else [])
        (if a.fires && decide (a.stage = .success) then 1 else 0) := by
  have hstage := h.stage
  cases hp : a.stage with
  | asked | ended =>
    rw [hp] at hstage
    have hstays : machineCallall c now s = (s, []) := by
      have hx : s.stat.callall = .callAllIdle := hstage
      simp only [machineCallall, hx]
    have hf : a.fires = false := by rw [Talk.fires, hp]; rfl
    rw [hstays, slaveTurns_stays hf, hf]
    exact ⟨h, puts_nil⟩
  | start =>
    rw [hp] at hstage
    have hx : s.stat.callall = .callAllStart := hstage
    have hf : a.fires = true := by rw [Talk.fires, hp]; rfl
    rw [slaveTurns_fires hf, hf, hp]
    simp only [machineCallall, hx]
    refine ⟨h.set rfl ?_, puts_send ⟨c.asduAddr, rfl⟩ (inside_mk10 _ _)⟩
    exact h.tack.trans (Bool.and_true _).symm
  | confirm =>
    rw [hp] at hstage
    have hx : s.stat.callall = .callAllConfirm := hstage
    rw [← hp]
    refine h.awaits hlate [buildCallAck c] .callAllYx (by rw [hp]; rfl) (by rw [hp]; rintro ⟨⟩) (by rw [hx]; decide)
      (by rw [hp]; rfl) (fun _ => ?_) (by unfold machineCallall; rw [hx])
    rw [hp]
    exact puts_call true Cot.actcon fun f hf => hf
  | yx =>
    rw [hp] at hstage
    have hx : s.stat.callall = .callAllYx := hstage
    rw [← hp]
    refine h.awaits hlate _ .callAllYc (by rw [hp]; rfl) (by rw [hp]; rintro ⟨⟩) (by rw [hx]; decide)
      (by rw [hp]; rfl) (fun _ => ?_) (by unfold machineCallall; rw [hx])
    rw [hp]
    exact puts_yx
  | yc =>
    rw [hp] at hstage
    have hx : s.stat.callall = .callAllYc := hstage
    rw [← hp]
    refine h.awaits hlate _ .callAllSuccess (by rw [hp]; rfl) (by rw [hp]; rintro ⟨⟩) (by rw [hx]; decide)
      (by rw [hp]; rfl) (fun hf => ?_) (by unfold machineCallall; rw [hx])
    rw [hp]
    exact puts_yc (hfit hp hf)
  | success =>
    rw [hp] at hstage
    have hx : s.stat.callall = .callAllSuccess := hstage
    have hfires : a.fires = a.stack := by rw [Talk.fires, hp]; exact Bool.false_or _
    cases hst : a.stack with
    | true =>
      have hf := hfires.trans hst
      have hs : s.tack = true := h.tack.trans hst
      rw [slaveTurns_fires hf, hf, hp]
      simp only [machineCallall, hx, hs, if_true]
      refine ⟨h.set rfl (Bool.and_false _).symm, ?_⟩
      exact (puts_call (u := .fin) false Cot.actterm fun f hf => hf).append puts_success
    | false =>
      have hf := hfires.trans hst
      have hs : s.tack = false := h.tack.trans hst
      rw [slaveTurns_stays hf, hf]
      simp only [machineCallall, hx, hs, Bool.false_eq_true, if_false]
      exact ⟨h, puts_nil⟩

theorem machineOf_idle (clock : Clock) {v : Svc} (h : v.state s.stat = v.idle) : machineOf c clock v s = (s, []) := by
  cases v with
  | callall =>
    have hx : s.stat.callall = .callAllIdle := h
    simp only [machineOf, machineCallall, hx]
  | callpulse => exact machineCallpulse_idle _ h
  | yt =>
    have hx : s.stat.yt = .ytCmdIdle := h
    simp only [machineOf, machineYt, hx]
  | yk =>
    have hx : s.stat.yk = .ykCmdIdle := h
    simp only [machineOf, machineYk, hx]

/-- While the link is up and the other services are idle, the machines are that of the general interrogation. -/
theorem stateMachine_callall (clock : Clock) (h : At s a) :
    stateMachine c clock s = machineCallall c clock.callall s := by
  have hwork : machineWork c s = (s, []) := by
    unfold machineWork
    rw [h.init]
  have hcall : s.stat.callall ∈ Svc.own .callall := by
    rw [h.stage]
    cases a.stage <;> decide
  have hidle : ∀ v : Svc, v ≠ .callall → turnStep c clock (machineCallall c clock.callall s).1 v =
      ((machineCallall c clock.callall s).1, []) := fun v hv =>
    machineOf_idle clock (((moves_machineCallall _ hcall).state hv).trans (h.others v hv))
  rw [stateMachine_eq, hwork, if_neg (by rw [h.init]; exact fun hne => hne rfl)]
  have hfirst : turnStep c clock s .callall = machineCallall c clock.callall s := rfl
  simp only [turn, run_cons, run_nil, hfirst, hidle .callpulse (by rintro ⟨⟩), hidle .yt (by rintro ⟨⟩),
    hidle .yk (by rintro ⟨⟩), List.append_nil, List.nil_append]

/-- **A turn of the machines**. -/
theorem At.turns (h : At s a) (clock : Clock) (hlate : ¬ Late clock.callall s)
    (hfit : a.stage = .yc → a.fires = true → c.Fits) :
    At (stateMachine c clock s).1 (Talk.slaveTurns c.data a) ∧
      Puts IsUp c.servCb (stateMachine c clock s).2 (if a.fires then c.data.tells a.stage else [])
        (if a.fires && decide (a.stage = .success) then 1 else 0) := by
  rw [stateMachine_callall clock h]
  exact h.callall hlate hfit

/-- What it does when it says its yc. -/
theorem At.acts_yc (h : At s a) (hs : a.stage = .yc) (hf : a.fires = true) (clock : Clock) :
    (stateMachine c clock s).2 =
      c.nodeList.ycN.flatMap (buildYc c Cot.introgen) ++ c.nodeList.ycF.flatMap (buildYc c Cot.introgen) := by
  have hx : s.stat.callall = .callAllYc := by
    rw [h.stage, hs]
    rfl
  have ht : s.tack = true := by
    rw [Talk.fires, hs] at hf
    exact h.tack.trans hf
  rw [stateMachine_callall clock h]
  unfold machineCallall
  rw [hx]
  exact if_pos ht

/-- The call of the master. -/
theorem run_call {m : Mem} (h : Reading Func.sendUsrDataAck .cIcNa1 Cot.act callInfo m) (len : Nat) :
    (on68 c s len).run m = ({ s with stat := { s.stat with callall := .callAllStart } }, []) := by
  obtain ⟨haddr, hq⟩ := h.call
  have hact : Activates m Cot.introgen := ⟨hq, haddr, h.reason⟩
  rw [run_on68, if_pos h.func]
  simp only [onUserData, asduCallAll, Rd.run_bind, Rd.run_octet, Rd.mem_octet, h.type, Rd.run_pure, run_asduCall,
    if_pos hact]

/-- **A read of the slave**. -/
theorem At.hears {t : Station Core} (ht : t.Sound) (hempty : t.array.octets = []) (h : At t.core a) {read : Read}
    {d : Option Down} (hread : Brings IsDown read d) :
    ((recv (handlers c) read t).1.Sound ∧ (recv (handlers c) read t).1.array.octets = []) ∧
      At (recv (handlers c) read t).1.core (a.slaveHears d) ∧
      Puts IsUp c.servCb (recv (handlers c) read t).2 (if d = some .beat then [.nack] else []) 0 := by
  have hspare := spare_handlers (c := c)
  -- a request
  have h10 : ∀ {ctrl addr}, read.val = (mk10 ctrl addr).wire → ∃ m : Mem, m 1 = ctrl ∧
      ((recv (handlers c) read t).1.Sound ∧ (recv (handlers c) read t).1.array.octets = []) ∧
        ((recv (handlers c) read t).1.core, (recv (handlers c) read t).2) =
          (((on10 c t.core).run m).1, .rx (m.slice 0 stableLen) :: ((on10 c t.core).run m).2) := by
    intro ctrl addr hf
    obtain ⟨hs, he, m, hm, hserve⟩ := recv_mk10 hspare ht hempty hf
    exact ⟨m, hm, ⟨hs, he⟩, hserve⟩
  cases d with
  | none =>
    rw [recv_nothing ht hempty hread]
    exact ⟨⟨ht, hempty⟩, ⟨h.init, h.others, h.stage, h.tack.trans (Bool.or_false _).symm⟩, puts_nil⟩
  | some d =>
    cases d with
    | call =>
      obtain ⟨l, body, hf, hwhole, hle, h1, h2, h3, h4⟩ := hread
      obtain ⟨hs, he, m, hm, len, hserve⟩ := recv_octets68 hspare hwhole (hf ▸ hle) ht hempty hf
      have hserve' : ((recv (handlers c) read t).1.core, (recv (handlers c) read t).2) =
          (((on68 c t.core len).run m).1, .rx (m.slice 0 len) :: ((on68 c t.core len).run m).2) := hserve
      rw [run_call (reading_of_body hm hwhole.head h1 h2 h3 h4)] at hserve'
      obtain ⟨hcore, hacts⟩ := Prod.mk.inj hserve'
      rw [hcore, hacts]
      exact ⟨⟨hs, he⟩, h.set rfl (h.tack.trans (Bool.or_false _).symm), puts_rx _⟩
    | poll =>
      obtain ⟨fcb, addr, hf⟩ := hread
      obtain ⟨m, hm, hse, hserve⟩ := h10 hf
      obtain ⟨hcore, hacts⟩ := Prod.mk.inj hserve
      have hprm : (ctrlDown false true fcb true Func.reqUsrData1).toNat / 64 % 2 = 1 := by cases fcb <;> decide
      have hfunc : (ctrlDown false true fcb true Func.reqUsrData1).toNat % 16 = Func.reqUsrData1 := by
        cases fcb <;> decide
      rw [run_on10, hm, if_pos hprm, hfunc, if_neg (by decide), if_neg (by decide), if_pos rfl] at hcore hacts
      rw [hcore, hacts]
      exact ⟨hse, ⟨h.init, h.others, h.stage, (Bool.or_true _).symm⟩, puts_rx _⟩
    | beat =>
      obtain ⟨fcb, addr, hf⟩ := hread
      obtain ⟨m, hm, hse, hserve⟩ := h10 hf
      obtain ⟨hcore, hacts⟩ := Prod.mk.inj hserve
      have hprm : (ctrlDown false true fcb true Func.reqUsrData2).toNat / 64 % 2 = 1 := by cases fcb <;> decide
      have hfunc : (ctrlDown false true fcb true Func.reqUsrData2).toNat % 16 = Func.reqUsrData2 := by
        cases fcb <;> decide
      rw [run_on10, hm, if_pos hprm, hfunc, if_neg (by decide), if_neg (by decide), if_neg (by decide),
        if_pos rfl] at hcore hacts
      rw [hcore, hacts]
      exact ⟨hse, ⟨h.init, h.others, h.stage, h.tack.trans (Bool.or_false _).symm⟩,
        (puts_rx _).append (puts_send ⟨c.asduAddr, rfl⟩ (inside_mk10 _ _))⟩

end Slave

end Wow.Iec101
