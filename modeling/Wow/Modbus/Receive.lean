import Wow.Modbus.Backend

/-!
# Wow.Modbus.Receive — `modbus_receive_msg`

The receive loop of the two stations, which is the same text in both files.  The link is the octets that arrive
and a schedule: call `i` of `link_recv` hands over at most as many octets as its entry says, the rest waits for a
later call; an entry of zero, or the end of the schedule, is a call in which nothing arrives in time.

* `frameLength`: the length that the loop derives from the first octets.
* `receive_taken`: the three ways out, whatever the schedule, and what they leave on the link.
* `receive_steady`: a frame that is there is received, however the link cuts it.
-/

namespace Wow.Modbus

/-- `MsgType_E`: a request at the slave, or a reply at the master. -/
inductive MsgType
  | indication
  | confirmation
  deriving DecidableEq, Repr

/-- `Step_E`. -/
inductive Step
  | stepFunction
  | stepMeta
  | stepData
  deriving DecidableEq, Repr

/-- `compute_meta_length_after_function`. -/
def computeMetaLengthAfterFunction (function : Nat) : MsgType → Nat
  | .indication =>
    if function ≤ 0x06 then 4
    else match FunctionMode.ofCode function with
      | some .writeMultipleCoils | some .writeMultipleRegisters => 5
      | _ => 0
  | .confirmation =>
    match FunctionMode.ofCode function with
    | some .writeSingleCoil | some .writeSingleRegister
    | some .writeMultipleCoils | some .writeMultipleRegisters => 4
    | _ => 1

/-- `compute_data_length_after_meta`. -/
def computeDataLengthAfterMeta (b : Backend) (msg : List UInt8) (type : MsgType) : Nat :=
  let function := octet msg b.headerLength
  let length := match type with
    | .indication =>
      match FunctionMode.ofCode function with
      | some .writeMultipleCoils | some .writeMultipleRegisters => octet msg (b.headerLength + 5)
      | _ => 0
    | .confirmation =>
      if function ≤ 0x04 ∨ FunctionMode.ofCode function = some .reportSlaveId then
        octet msg (b.headerLength + 1)
      else 0
  length + b.checksumLength

/-- The locals of `modbus_receive_msg`; `msg_length` is the length of `data`. -/
structure Rx where
  data : List UInt8
  lengthToRead : Nat
  tries : Nat
  step : Step

namespace Rx

/-- The locals before the loop. -/
def start (b : Backend) : Rx := ⟨[], b.headerLength + 1, defaultErrorTryTimes, .stepFunction⟩

/-- The case `_STEP_META`; `none` is the return of −1. -/
def stepMeta (b : Backend) (type : MsgType) (r : Rx) : Option Rx :=
  let n := computeDataLengthAfterMeta b r.data type
  if b.maxAduLength < r.data.length + n then none else some { r with lengthToRead := n, step := .stepData }

/-- The `switch` over the step, once all that was asked for is there. -/
def next (b : Backend) (type : MsgType) (r : Rx) : Option Rx :=
  if r.lengthToRead = 0 then
    match r.step with
    | .stepFunction =>
      let n := computeMetaLengthAfterFunction (octet r.data b.headerLength) type
      if n ≠ 0 then some { r with lengthToRead := n, step := .stepMeta } else r.stepMeta b type
    | .stepMeta => r.stepMeta b type
    | .stepData => some r
  else some r

/-- `link_recv` handed over `got`. -/
def store (r : Rx) (got : List UInt8) : Rx :=
  { r with data := r.data ++ got, lengthToRead := r.lengthToRead - got.length }

end Rx

/-- The ways out of the loop: a message, the return of −1 inside it, and no tries left. -/
inductive Received
  | msg (data : List UInt8)
  | tooLong
  | timeout
  deriving DecidableEq, Repr

/-- The loop on the octets `up` of the link, with what is left of the schedule and of the octets. -/
def receiveLoop (b : Backend) (type : MsgType) : List Nat → List UInt8 → Rx → Received × List Nat × List UInt8
  | [], up, r => (if r.lengthToRead = 0 then .msg r.data else .timeout, [], up)
  | k :: sched, up, r =>
    if r.lengthToRead = 0 then (.msg r.data, k :: sched, up)
    else if r.tries = 0 then (.timeout, k :: sched, up)
    else
      let n := min k r.lengthToRead
      if up.take n = [] then receiveLoop b type sched up { r with tries := r.tries - 1 }
      else match (r.store (up.take n)).next b type with
        | none => (.tooLong, sched, up.drop n)
        | some r => receiveLoop b type sched (up.drop n) r

/-- `modbus_receive_msg` up to its check of the message. -/
def receive (b : Backend) (type : MsgType) (sched : List Nat) (up : List UInt8) :
    Received × List Nat × List UInt8 := receiveLoop b type sched up (Rx.start b)

/-! ### What the loop takes from the link -/

/-- What the loop has read when it knows the length of the frame. -/
def prefixLength (b : Backend) (type : MsgType) (up : List UInt8) : Nat :=
  b.headerLength + 1 + computeMetaLengthAfterFunction (octet up b.headerLength) type

/-- The length of the frame that the octets begin with, as the loop derives it. -/
def frameLength (b : Backend) (type : MsgType) (up : List UInt8) : Nat :=
  prefixLength b type up + computeDataLengthAfterMeta b up type

/-- The length of the function code and its body, from the same octets. -/
def pduLength (type : MsgType) (pdu : List UInt8) : Nat :=
  1 + computeMetaLengthAfterFunction (octet pdu 0) type + match type with
    | .indication =>
      match FunctionMode.ofCode (octet pdu 0) with
      | some .writeMultipleCoils | some .writeMultipleRegisters => octet pdu 5
      | _ => 0
    | .confirmation =>
      if octet pdu 0 ≤ 0x04 ∨ FunctionMode.ofCode (octet pdu 0) = some .reportSlaveId then octet pdu 1 else 0

variable {b : Backend} {type : MsgType}

theorem frameLength_eq (b : Backend) (type : MsgType) (msg : List UInt8) :
    frameLength b type msg = b.headerLength + pduLength type (msg.drop b.headerLength) + b.checksumLength := by
  cases type <;> simp only [frameLength, prefixLength, computeDataLengthAfterMeta, pduLength, octet_drop,
    Nat.add_zero] <;> omega

theorem prefixLength_take {up : List UInt8} {n : Nat} (h : b.headerLength < n) :
    prefixLength b type (up.take n) = prefixLength b type up := by
  simp only [prefixLength, octet_take h]

/-- The length of the data is read from octets that the loop has by then. -/
theorem data_take {up : List UInt8} {n : Nat} (h : prefixLength b type up ≤ n) :
    computeDataLengthAfterMeta b (up.take n) type = computeDataLengthAfterMeta b up type := by
  have hp : b.headerLength < n := by unfold prefixLength at h; omega
  unfold prefixLength at h
  cases type with
  | confirmation =>
    simp only [computeDataLengthAfterMeta, octet_take hp]
    split
    · rename_i hf
      have h1 : b.headerLength + 1 < n := by
        suffices computeMetaLengthAfterFunction (octet up b.headerLength) .confirmation = 1 by omega
        rcases hf with hf | hf
        · revert hf
          generalize octet up b.headerLength = f
          intro hf
          have : f = 0 ∨ f = 1 ∨ f = 2 ∨ f = 3 ∨ f = 4 := by omega
          rcases this with rfl | rfl | rfl | rfl | rfl <;> rfl
        · simp only [computeMetaLengthAfterFunction, hf]
      rw [octet_take h1]
    · rfl
  | indication =>
    simp only [computeDataLengthAfterMeta, octet_take hp]
    split
    all_goals
      first
      | rfl
      | rename_i hf
        have h5 : b.headerLength + 5 < n := by
          rw [FunctionMode.ofCode_eq_some] at hf
          rw [hf] at h
          exact Nat.lt_of_lt_of_le (Nat.lt_succ_self _) h
        rw [octet_take h5]

/-- What follows a frame does not change its length. -/
theorem frameLength_append {f : List UInt8} (h : frameLength b type f ≤ f.length) (rest : List UInt8) :
    frameLength b type (f ++ rest) = frameLength b type f := by
  have hp : prefixLength b type f ≤ f.length := Nat.le_trans (Nat.le_add_right ..) h
  have hf : (f ++ rest).take f.length = f := by simp
  have hb : b.headerLength < f.length := by unfold prefixLength at hp; omega
  have hpre : prefixLength b type (f ++ rest) = prefixLength b type f := by
    simp only [prefixLength, octet_append_left hb]
  have hdata : computeDataLengthAfterMeta b (f ++ rest) type = computeDataLengthAfterMeta b f type := by
    rw [← data_take (by rwa [hpre] : prefixLength b type (f ++ rest) ≤ f.length), hf]
  rw [frameLength, hpre, hdata, frameLength]

/-- The frame alone has the length that was derived for it. -/
theorem frameLength_take (b : Backend) (type : MsgType) (up : List UInt8) :
    frameLength b type (up.take (frameLength b type up)) = frameLength b type up := by
  have hp : prefixLength b type up ≤ frameLength b type up := Nat.le_add_right ..
  have hb : b.headerLength < frameLength b type up := by
    unfold prefixLength at hp
    omega
  conv => lhs; rw [frameLength, prefixLength_take hb, data_take hp]
  rfl

/-- What the ways out say of the octets the loop found, and what they leave. -/
inductive Taken (b : Backend) (type : MsgType) (up : List UInt8) : Received → List UInt8 → Prop
  | msg (hmax : frameLength b type up ≤ b.maxAduLength) (hlen : frameLength b type up ≤ up.length) :
    Taken b type up (.msg (up.take (frameLength b type up))) (up.drop (frameLength b type up))
  | tooLong (hmax : b.maxAduLength < frameLength b type up) (hlen : prefixLength b type up ≤ up.length) :
    Taken b type up .tooLong (up.drop (prefixLength b type up))
  | timeout (n : Nat) (hlen : n ≤ up.length) : Taken b type up .timeout (up.drop n)

/-- The locals in the middle of the octets `all`, of which `up` is not read. -/
structure Rx.Reads (b : Backend) (type : MsgType) (all up : List UInt8) (r : Rx) : Prop where
  all_eq : all = r.data ++ up
  goal : r.data.length + r.lengthToRead = match r.step with
    | .stepFunction => b.headerLength + 1
    | .stepMeta => prefixLength b type all
    | .stepData => frameLength b type all
  max_le : r.step = .stepData → frameLength b type all ≤ b.maxAduLength
  asks : r.step ≠ .stepData → r.lengthToRead ≠ 0

theorem Rx.reads_start (up : List UInt8) : (Rx.start b).Reads b type up up where
  all_eq := rfl
  goal := by simp [Rx.start]
  max_le := nofun
  asks := fun _ => Nat.succ_ne_zero _

/-- The octets read so far are the first ones. -/
theorem Rx.Reads.take {all up : List UInt8} {r : Rx} (h : r.Reads b type all up) :
    all.take r.data.length = r.data := by
  rw [h.all_eq]
  simp

/-- The case `_STEP_META`, once the loop knows the length of the frame. -/
theorem Rx.stepMeta_reads {all up : List UInt8} {r : Rx} (hall : all = r.data ++ up)
    (hn : r.data.length = prefixLength b type all) :
    match r.stepMeta b type with
    | none => b.maxAduLength < frameLength b type all
    | some r' => r'.Reads b type all up ∧ r'.data = r.data ∧ r'.tries = r.tries := by
  have htake : all.take (prefixLength b type all) = r.data := by rw [← hn, hall]; simp
  have hdata : computeDataLengthAfterMeta b r.data type = computeDataLengthAfterMeta b all type := by
    rw [← htake, data_take (Nat.le_refl _)]
  have hlen : r.data.length + computeDataLengthAfterMeta b r.data type = frameLength b type all := by
    rw [hn, hdata, frameLength]
  unfold Rx.stepMeta
  simp only [hlen]
  by_cases hmax : b.maxAduLength < frameLength b type all
  · simp [hmax]
  · simp only [hmax, if_false]
    exact ⟨⟨hall, hlen, fun _ => by omega, fun h => absurd rfl h⟩, trivial, trivial⟩

/-- One successful call of `link_recv` and the `switch` after it. -/
theorem Rx.Reads.next {all up got : List UInt8} {r : Rx} (h : r.Reads b type all (got ++ up))
    (hg : got.length ≤ r.lengthToRead) :
    match (r.store got).next b type with
    | none => b.maxAduLength < frameLength b type all ∧ r.data.length + got.length = prefixLength b type all
    | some r' => r'.Reads b type all up ∧ r'.data = r.data ++ got ∧ r'.tries = r.tries := by
  have hall : all = (r.store got).data ++ up := by simp [h.all_eq, Rx.store]
  have hlen : (r.store got).data.length = r.data.length + got.length := by simp [Rx.store]
  have hgoal := h.goal
  unfold Rx.next
  by_cases hread : (r.store got).lengthToRead = 0
  · have hdone : r.lengthToRead = got.length := by
      simp only [Rx.store] at hread
      omega
    simp only [hread, if_true]
    rw [hdone, ← hlen] at hgoal
    have hstep : (r.store got).step = r.step := rfl
    cases hs : r.step with
    | stepFunction =>
      rw [hs] at hgoal
      dsimp only at hgoal
      have hfun : octet (r.store got).data b.headerLength = octet all b.headerLength := by
        rw [hall, octet_append_left (by omega)]
      rw [hstep, hs]
      simp only [hfun]
      have hmeta : prefixLength b type all
          = (r.store got).data.length + computeMetaLengthAfterFunction (octet all b.headerLength) type := by
        rw [hgoal, prefixLength]
      split
      · rename_i r' hr
        split at hr
        · simp at hr
        · rename_i hz
          have := @Rx.stepMeta_reads b type all up _ hall (by omega)
          rw [hr] at this
          exact ⟨this, by omega⟩
      · rename_i r' hr
        split at hr
        · rename_i hz
          cases hr
          exact ⟨⟨hall, hmeta.symm, nofun, fun _ => hz⟩, rfl, rfl⟩
        · rename_i hz
          have := @Rx.stepMeta_reads b type all up _ hall (by omega)
          rw [hr] at this
          exact this
    | stepMeta =>
      rw [hs] at hgoal
      dsimp only at hgoal
      have := Rx.stepMeta_reads hall hgoal
      rw [hstep, hs]
      split <;> rename_i hr <;> simp only [hr] at this
      · exact ⟨this, by omega⟩
      · exact this
    | stepData =>
      rw [hs] at hgoal
      rw [hstep, hs]
      refine ⟨⟨hall, ?_, fun _ => h.max_le hs, fun hne => absurd (hstep.trans hs) hne⟩, rfl, rfl⟩
      rw [hstep, hs, hread]
      exact hgoal
  · simp only [hread, if_false]
    refine ⟨⟨hall, ?_, h.max_le, fun _ => hread⟩, rfl, rfl⟩
    simp only [Rx.store, List.length_append]
    omega

theorem receiveLoop_taken {all : List UInt8} : ∀ (sched : List Nat) (up : List UInt8) (r : Rx),
    r.Reads b type all up →
      Taken b type all (receiveLoop b type sched up r).1 (receiveLoop b type sched up r).2.2 := by
  have done : ∀ {up : List UInt8} {r : Rx}, r.Reads b type all up → r.lengthToRead = 0 →
      Taken b type all (.msg r.data) up := by
    intro up r h hr
    have hstep : r.step = .stepData := by
      by_contra hne
      exact h.asks hne hr
    have hgoal := h.goal
    rw [hstep, hr, Nat.add_zero] at hgoal
    dsimp only at hgoal
    have htake := h.take
    have hdrop : all.drop (frameLength b type all) = up := by rw [← hgoal, h.all_eq]; simp
    have hle : frameLength b type all ≤ all.length := by rw [← hgoal, h.all_eq]; simp
    have := Taken.msg (h.max_le hstep) hle
    rwa [← hgoal, htake, hgoal, hdrop] at this
  have late : ∀ {up : List UInt8} {r : Rx}, r.Reads b type all up → Taken b type all .timeout up := by
    intro up r h
    have := @Taken.timeout b type all r.data.length (by rw [h.all_eq]; simp)
    rwa [show all.drop r.data.length = up by rw [h.all_eq]; simp] at this
  intro sched
  induction sched with
  | nil =>
    intro up r h
    unfold receiveLoop
    split
    · exact done h ‹_›
    · exact late h
  | cons k sched ih =>
    intro up r h
    unfold receiveLoop
    split
    · exact done h ‹_›
    · split
      · exact late h
      · by_cases hg : up.take (min k r.lengthToRead) = []
        · simp only [hg, if_true]
          exact ih _ _ ⟨h.all_eq, h.goal, h.max_le, h.asks⟩
        · simp only [hg, if_false]
          have hlen : (up.take (min k r.lengthToRead)).length ≤ r.lengthToRead := by
            rw [List.length_take]
            omega
          have hnext := (show r.Reads b type all (up.take (min k r.lengthToRead) ++ up.drop (min k r.lengthToRead)) by
            rwa [List.take_append_drop]).next hlen
          split
          · rename_i hr
            rw [hr] at hnext
            have hall : all = (r.data ++ up.take (min k r.lengthToRead)) ++ up.drop (min k r.lengthToRead) := by
              rw [List.append_assoc, List.take_append_drop, h.all_eq]
            have hpre : (r.data ++ up.take (min k r.lengthToRead)).length = prefixLength b type all := by
              rw [List.length_append, hnext.2]
            have hle : prefixLength b type all ≤ all.length := by
              have := congrArg List.length hall
              rw [List.length_append, hpre] at this
              omega
            have := Taken.tooLong hnext.1 hle
            rwa [show all.drop (prefixLength b type all) = up.drop (min k r.lengthToRead) by
              rw [← hpre, hall]
              exact List.drop_left ..] at this
          · rename_i r' hr
            rw [hr] at hnext
            exact ih _ _ hnext.1

/-- **What a message is**: the octets that the length derived from them announces, and the rest stays. -/
theorem receive_taken (b : Backend) (type : MsgType) (sched : List Nat) (up : List UInt8) :
    Taken b type up (receive b type sched up).1 (receive b type sched up).2.2 :=
  receiveLoop_taken sched up _ (Rx.reads_start up)

/-- A message is the frame that the octets begin with. -/
theorem receive_eq_msg {sched sched' : List Nat} {up up' d : List UInt8}
    (h : receive b type sched up = (.msg d, sched', up')) :
    frameLength b type up ≤ b.maxAduLength ∧ frameLength b type up ≤ up.length
      ∧ d = up.take (frameLength b type up) ∧ up' = up.drop (frameLength b type up) := by
  have ht := receive_taken b type sched up
  rw [h] at ht
  cases ht with
  | msg hmax hlen => exact ⟨hmax, hlen, rfl, rfl⟩

/-- What is left on the link is the end of what was there. -/
theorem receive_suffix (b : Backend) (type : MsgType) (sched : List Nat) (up : List UInt8) :
    (receive b type sched up).2.2 <:+ up := by
  have ht := receive_taken b type sched up
  revert ht
  rcases receive b type sched up with ⟨o, sched', up'⟩
  intro ht
  cases ht <;> exact List.drop_suffix ..

/-- Octets begin with one frame at most. -/
theorem frame_unique {x y s t : List UInt8} (hx : frameLength b type x = x.length)
    (hy : frameLength b type y = y.length) (h : x ++ s = y ++ t) : x = y ∧ s = t := by
  have hlen : x.length = y.length := by
    rw [← hx, ← frameLength_append (Nat.le_of_eq hx) s, h, frameLength_append (Nat.le_of_eq hy), hy]
  exact List.append_inj h hlen

/-- The length of a request, by its function code. -/
theorem frameLength_indication (b : Backend) (msg : List UInt8) :
    frameLength b .indication msg = b.headerLength + b.checksumLength
      + if octet msg b.headerLength ≤ 0x06 then 5
        else if octet msg b.headerLength = 0x0F ∨ octet msg b.headerLength = 0x10 then 6 + octet msg (b.headerLength + 5)
        else 1 := by
  unfold frameLength prefixLength computeDataLengthAfterMeta computeMetaLengthAfterFunction
  dsimp only
  by_cases hmul : octet msg b.headerLength = 0x0F ∨ octet msg b.headerLength = 0x10
  · rcases hmul with hf | hf <;> simp [hf, FunctionMode.ofCode] <;> omega
  · have hnot : ∀ {f : FunctionMode}, FunctionMode.ofCode (octet msg b.headerLength) = some f →
        f ≠ .writeMultipleCoils ∧ f ≠ .writeMultipleRegisters := by
      rintro f hf
      rw [FunctionMode.ofCode_eq_some] at hf
      constructor <;> rintro rfl
      · exact hmul (Or.inl hf)
      · exact hmul (Or.inr hf)
    rw [if_neg hmul]
    split <;> split
    · exact absurd rfl (hnot ‹_›).1
    · exact absurd rfl (hnot ‹_›).2
    · omega
    · exact absurd rfl (hnot ‹_›).1
    · exact absurd rfl (hnot ‹_›).2
    · omega

/-! ### A frame that comes in time -/

/-- A schedule with fewer empty calls than tries, and a call for every octet of the longest frame. -/
def Steady (sched : List Nat) : Prop :=
  sched.count 0 < defaultErrorTryTimes ∧ maxMessageLength ≤ (sched.filter (· ≠ 0)).length

theorem maxAduLength_le (b : Backend) : b.maxAduLength ≤ maxMessageLength := by cases b <;> decide

theorem Rx.Reads.length_le {all up : List UInt8} {r : Rx} (h : r.Reads b type all up) :
    r.data.length + r.lengthToRead ≤ frameLength b type all := by
  have := h.goal
  rw [this]
  cases r.step
  · simp only [frameLength, prefixLength]
    omega
  · exact Nat.le_add_right ..
  · exact Nat.le_refl _

theorem receiveLoop_steady {all : List UInt8} (hall : frameLength b type all ≤ all.length) :
    ∀ (sched : List Nat) (up : List UInt8) (r : Rx), r.Reads b type all up → sched.count 0 < r.tries →
      frameLength b type all ≤ r.data.length + (sched.filter (· ≠ 0)).length →
        (receiveLoop b type sched up r).1 ≠ .timeout := by
  intro sched
  induction sched with
  | nil =>
    intro up r h _ hleft
    have hle := h.length_le
    have hr : r.lengthToRead = 0 := by
      simp only [List.filter_nil, List.length_nil] at hleft
      omega
    simp [receiveLoop, hr]
  | cons k sched ih =>
    intro up r h htries hleft
    unfold receiveLoop
    by_cases hr : r.lengthToRead = 0
    · simp [hr]
    · rw [if_neg hr, if_neg (by omega)]
      have hle := h.length_le
      have hup : r.data.length + up.length = all.length := by
        rw [h.all_eq, List.length_append]
      by_cases hk : k = 0
      · subst hk
        rw [List.count_cons_self] at htries
        simp only [Nat.zero_min, List.take_zero, if_true]
        exact ih _ _ ⟨h.all_eq, h.goal, h.max_le, h.asks⟩ (Nat.lt_sub_of_add_lt htries) (by simpa using hleft)
      · have hcount : (k :: sched).count 0 = sched.count 0 := List.count_cons_of_ne hk
        have hfilter : ((k :: sched).filter (· ≠ 0)).length = (sched.filter (· ≠ 0)).length + 1 := by
          simp [hk]
        rw [hcount] at htries
        rw [hfilter] at hleft
        generalize hn : min k r.lengthToRead = n
        have hlen : (up.take n).length = n := by
          rw [List.length_take]
          omega
        have hne : up.take n ≠ [] := by
          rw [← List.length_pos_iff]
          omega
        dsimp only
        rw [if_neg hne]
        have hnext := (show r.Reads b type all (up.take n ++ up.drop n) by
          rwa [List.take_append_drop]).next (by omega)
        split
        · simp
        · rename_i r' hr'
          rw [hr'] at hnext
          refine ih _ _ hnext.1 (by rwa [hnext.2.2]) ?_
          rw [hnext.2.1, List.length_append, hlen]
          omega

/-- **A frame that is there is received** by a steady schedule, however it is cut. -/
theorem receive_steady {sched : List Nat} (hs : Steady sched) {up : List UInt8}
    (hmax : frameLength b type up ≤ b.maxAduLength) (hlen : frameLength b type up ≤ up.length) :
    ∃ sched', receive b type sched up
      = (.msg (up.take (frameLength b type up)), sched', up.drop (frameLength b type up)) := by
  have ht := receive_taken b type sched up
  have hlate : (receive b type sched up).1 ≠ .timeout := by
    refine receiveLoop_steady hlen sched up _ (Rx.reads_start up) hs.1 ?_
    exact Nat.le_trans hmax (Nat.le_trans (maxAduLength_le b) (Nat.le_trans hs.2 (Nat.le_add_left ..)))
  revert ht hlate
  rcases receive b type sched up with ⟨o, sched', up'⟩
  intro ht hlate
  cases ht with
  | msg => exact ⟨sched', rfl⟩
  | tooLong hlong => omega
  | timeout => exact absurd rfl hlate

/-- Calls in which all that is asked for is there. -/
def prompt : List Nat := List.replicate maxMessageLength maxMessageLength

theorem steady_prompt : Steady prompt := by
  constructor
  · have hnot : 0 ∉ prompt := fun h => absurd (List.eq_of_mem_replicate h) (by decide)
    rw [List.count_eq_zero.2 hnot]
    exact Nat.succ_pos _
  · refine Nat.le_of_eq ?_
    rw [prompt, List.filter_replicate_of_pos (by decide), List.length_replicate]

end Wow.Modbus
