import Wow.Modbus.Receive

/-!
# Wow.Modbus.Chunks — `modbus_receive_msg` on the results of `link_recv`

The whole function of both stations, for any results of `link_recv`: each call is asked for a number of octets and
hands over some of them, or none.  A run is followed for as many calls as its fuel allows.

* `readLoop_ends`, `receiveLoop_of_readLoop`: the loop ends, and reads what the loop of `Wow.Modbus.Receive` reads.
* `resultOf`: the result and the buffer as functions of the octets.
* `modbusReceiveMsg_chunkFree`: what holds of every call, however the octets are cut.
-/

namespace Wow.Modbus

/-- What `link_recv` hands over, call by call, of the octets it is asked for; none where its result is at most
zero. -/
abbrev LinkResults := Nat → (n : Nat) → { got : List UInt8 // got.length ≤ n }

/-- A call of `link_recv`: where it may write, how much, and what it wrote. -/
structure RecvCall where
  place : Nat
  asked : Nat
  got : List UInt8

/-- The octets of some calls. -/
def octetsOf (calls : List RecvCall) : List UInt8 := calls.flatMap RecvCall.got

/-- How many of the calls failed. -/
def failures (calls : List RecvCall) : Nat := (calls.map RecvCall.got).count []

/-- The end of the loop: the way out, what is in the buffer, and the calls. -/
structure Reading where
  how : Received
  data : List UInt8
  calls : List RecvCall

/-- The same end, one call later. -/
def Reading.after (c : RecvCall) (o : Reading) : Reading := { o with calls := c :: o.calls }

/-- The loop from call `i` on. -/
def readLoop (b : Backend) (type : MsgType) (link : LinkResults) : Nat → Nat → Rx → Option Reading
  | 0, _, _ => none
  | fuel + 1, i, r =>
    if r.lengthToRead = 0 then some ⟨.msg r.data, r.data, []⟩
    else if r.tries = 0 then some ⟨.timeout, r.data, []⟩
    else
      let got := (link i r.lengthToRead).val
      let call : RecvCall := ⟨r.data.length, r.lengthToRead, got⟩
      if got = [] then (readLoop b type link fuel (i + 1) { r with tries := r.tries - 1 }).map (Reading.after call)
      else match (r.store got).next b type with
        | none => some ⟨.tooLong, r.data ++ got, [call]⟩
        | some r => (readLoop b type link fuel (i + 1) r).map (Reading.after call)

/-- The slave's loop behind a frame that fails its check: the octets still on the link are read away. -/
def discard (link : LinkResults) : Nat → Nat → Option (List RecvCall)
  | 0, _ => none
  | fuel + 1, i =>
    let got := (link i maxMessageLength).val
    let call : RecvCall := ⟨0, maxMessageLength, got⟩
    if got = [] then some [call] else (discard link fuel (i + 1)).map (List.cons call)

/-- The buffer of `MAX_MESSAGE_LENGTH` octets, cleared, with `data` in front. -/
def cleared (data : List UInt8) : List UInt8 := data ++ List.replicate (maxMessageLength - data.length) 0

/-- The two stations. -/
inductive Party
  | master
  | slave
  deriving DecidableEq, Repr

/-- What `modbus_receive_msg` returns and leaves in the buffer, with the calls of its loop and those of `discard`. -/
structure Outcome where
  ret : Int
  buffer : List UInt8
  calls : List RecvCall
  discarded : List RecvCall

/-- `modbus_receive_msg` with `modbus->times` tries. -/
def modbusReceiveMsg (p : Party) (b : Backend) (type : MsgType) (times : Nat) (link : LinkResults) (fuel : Nat) :
    Option Outcome :=
  match readLoop b type link fuel 0 { Rx.start b with tries := times } with
  | none => none
  | some o =>
    match o.how with
    | .msg _ =>
      if b.checkIntegrity o.data then some ⟨o.data.length, cleared o.data, o.calls, []⟩
      else match p with
        | .master => some ⟨-1, cleared o.data, o.calls, []⟩
        | .slave => (discard link fuel o.calls.length).map fun d => ⟨0, cleared [], o.calls, d⟩
    | _ => some ⟨-1, cleared o.data, o.calls, []⟩

variable {b : Backend} {type : MsgType} {link : LinkResults}

/-! ### The loop ends -/

/-- The locals leave the buffer room for what is asked for. -/
structure Rx.Fits (b : Backend) (r : Rx) : Prop where
  le : r.data.length + r.lengthToRead ≤ b.maxAduLength
  head : r.step = .stepFunction → r.data.length + r.lengthToRead = b.headerLength + 1

theorem Rx.fits_start (b : Backend) (times : Nat) : Rx.Fits b { Rx.start b with tries := times } := by
  exact ⟨show 0 + (b.headerLength + 1) ≤ b.maxAduLength by cases b <;> decide, fun _ => Nat.zero_add _⟩

theorem metaLength_le (function : Nat) (type : MsgType) : computeMetaLengthAfterFunction function type ≤ 5 := by
  unfold computeMetaLengthAfterFunction
  split
  · split
    · decide
    · split <;> decide
  · split <;> decide

/-- The case `_STEP_META` checks the bound. -/
theorem Rx.fits_stepMeta {r r' : Rx} (h : r.stepMeta b type = some r') : Rx.Fits b r' := by
  unfold Rx.stepMeta at h
  dsimp only at h
  split at h
  · cases h
  · cases h
    exact ⟨by dsimp only; omega, fun hs => by cases hs⟩

/-- The `switch` after a call leaves room again. -/
theorem Rx.Fits.next {r r' : Rx} (h : Rx.Fits b r) (hnext : r.next b type = some r') : Rx.Fits b r' := by
  unfold Rx.next at hnext
  split at hnext
  · rename_i hread
    split at hnext
    · rename_i hstep
      dsimp only at hnext
      split at hnext
      · cases hnext
        have hhead := h.head hstep
        have hmeta := metaLength_le (octet r.data b.headerLength) type
        have hmax : b.headerLength + 1 + 5 ≤ b.maxAduLength := by cases b <;> decide
        exact ⟨by dsimp only; omega, fun hs => by cases hs⟩
      · exact Rx.fits_stepMeta hnext
    · exact Rx.fits_stepMeta hnext
    · cases hnext
      exact h
  · cases hnext
    exact h

/-- What a call hands over fits where it was asked for. -/
theorem Rx.Fits.store {r : Rx} {got : List UInt8} (h : Rx.Fits b r) (hg : got.length ≤ r.lengthToRead) :
    Rx.Fits b (r.store got) := by
  have hlen : (r.store got).data.length + (r.store got).lengthToRead = r.data.length + r.lengthToRead := by
    simp only [Rx.store, List.length_append]
    omega
  exact ⟨hlen ▸ h.le, fun hs => hlen ▸ h.head hs⟩

/-- The `switch` changes neither the message nor the tries. -/
theorem Rx.next_eq_some {r r' : Rx} (h : r.next b type = some r') : r'.data = r.data ∧ r'.tries = r.tries := by
  have hmeta : ∀ {r'}, r.stepMeta b type = some r' → r'.data = r.data ∧ r'.tries = r.tries := by
    intro r' h
    unfold Rx.stepMeta at h
    dsimp only at h
    split at h
    · cases h
    · cases h
      exact ⟨rfl, rfl⟩
  unfold Rx.next at h
  split at h
  · split at h
    · dsimp only at h
      split at h
      · cases h
        exact ⟨rfl, rfl⟩
      · exact hmeta h
    · exact hmeta h
    · cases h
      exact ⟨rfl, rfl⟩
  · cases h
    exact ⟨rfl, rfl⟩

/-- **The loop ends** after no more calls than there are tries and octets in the longest frame, and none of them may
write behind that frame. -/
theorem readLoop_ends : ∀ (fuel i : Nat) (r : Rx), Rx.Fits b r →
    r.tries + (b.maxAduLength - r.data.length) < fuel → ∃ o, readLoop b type link fuel i r = some o ∧
    o.calls.length ≤ r.tries + (b.maxAduLength - r.data.length)
      ∧ ∀ c ∈ o.calls, c.place + c.asked ≤ b.maxAduLength := by
  intro fuel
  induction fuel with
  | zero => exact fun i r _ h => absurd h (Nat.not_lt_zero _)
  | succ fuel ih =>
    intro i r hfits hfuel
    unfold readLoop
    by_cases hread : r.lengthToRead = 0
    · rw [if_pos hread]
      exact ⟨_, rfl, Nat.zero_le _, fun c hc => by cases hc⟩
    rw [if_neg hread]
    by_cases htries : r.tries = 0
    · rw [if_pos htries]
      exact ⟨_, rfl, Nat.zero_le _, fun c hc => by cases hc⟩
    rw [if_neg htries]
    have hle := hfits.le
    obtain ⟨got, hg⟩ := link i r.lengthToRead
    dsimp only
    by_cases hnil : got = []
    · rw [if_pos hnil]
      obtain ⟨o, ho, hlen, hall⟩ := ih (i + 1) { r with tries := r.tries - 1 } ⟨hfits.le, hfits.head⟩
        (by dsimp only; omega)
      dsimp only at hlen
      rw [ho]
      refine ⟨_, rfl, ?_, List.forall_mem_cons.2 ⟨hle, hall⟩⟩
      show o.calls.length + 1 ≤ _
      omega
    rw [if_neg hnil]
    have hpos : 0 < got.length := List.length_pos_iff.2 hnil
    split
    · refine ⟨_, rfl, ?_, List.forall_mem_cons.2 ⟨hle, fun c hc => by cases hc⟩⟩
      show 1 ≤ _
      omega
    · rename_i r' hnext
      obtain ⟨hdata, htries'⟩ := Rx.next_eq_some hnext
      have hlen' : r'.data.length = r.data.length + got.length := by rw [hdata, Rx.store, List.length_append]
      have htries' : r'.tries = r.tries := htries'
      obtain ⟨o, ho, hlen, hall⟩ := ih (i + 1) r' ((hfits.store hg).next hnext) (by omega)
      rw [ho]
      refine ⟨_, rfl, ?_, List.forall_mem_cons.2 ⟨hle, hall⟩⟩
      show o.calls.length + 1 ≤ _
      omega

/-- More fuel changes nothing. -/
theorem readLoop_mono : ∀ {fuel fuel' i : Nat} {r : Rx} {o : Reading}, readLoop b type link fuel i r = some o →
    fuel ≤ fuel' → readLoop b type link fuel' i r = some o := by
  intro fuel
  induction fuel with
  | zero => exact fun h => by cases h
  | succ fuel ih =>
    intro fuel' i r o h hle
    obtain ⟨fuel', rfl⟩ : ∃ k, fuel' = k + 1 := ⟨fuel' - 1, by omega⟩
    unfold readLoop at h ⊢
    by_cases hread : r.lengthToRead = 0
    · rwa [if_pos hread] at h ⊢
    rw [if_neg hread] at h ⊢
    by_cases htries : r.tries = 0
    · rwa [if_pos htries] at h ⊢
    rw [if_neg htries] at h ⊢
    dsimp only at h ⊢
    by_cases hnil : (link i r.lengthToRead).val = []
    · rw [if_pos hnil] at h ⊢
      obtain ⟨o', ho', rfl⟩ := Option.map_eq_some_iff.1 h
      rw [ih ho' (by omega)]
      rfl
    rw [if_neg hnil] at h ⊢
    split at h
    · exact h
    · obtain ⟨o', ho', rfl⟩ := Option.map_eq_some_iff.1 h
      rw [ih ho' (by omega)]
      rfl

theorem readLoop_unique {fuel fuel' i : Nat} {r : Rx} {o o' : Reading} (h : readLoop b type link fuel i r = some o)
    (h' : readLoop b type link fuel' i r = some o') : o = o' := by
  rcases Nat.le_total fuel fuel' with hle | hle
  · exact Option.some.inj ((readLoop_mono h hle).symm.trans h')
  · exact Option.some.inj (h.symm.trans (readLoop_mono h' hle))

/-! ### What the loop reads -/

/-- **The loop reads what it reads of the octets in one piece**: the calls are a schedule. -/
theorem receiveLoop_of_readLoop : ∀ {fuel i : Nat} {r : Rx} {o : Reading}, readLoop b type link fuel i r = some o →
    o.data = r.data ++ octetsOf o.calls ∧ (o.how = .timeout → failures o.calls = r.tries) ∧ ∀ tail,
      receiveLoop b type (o.calls.map fun c => c.got.length) (octetsOf o.calls ++ tail) r = (o.how, [], tail) := by
  intro fuel
  induction fuel with
  | zero => exact fun h => by cases h
  | succ fuel ih =>
    intro i r o h
    unfold readLoop at h
    by_cases hread : r.lengthToRead = 0
    · rw [if_pos hread] at h
      cases h
      refine ⟨(List.append_nil _).symm, (fun hlate => by cases hlate), fun tail => ?_⟩
      simp [receiveLoop, hread, octetsOf]
    rw [if_neg hread] at h
    by_cases htries : r.tries = 0
    · rw [if_pos htries] at h
      cases h
      refine ⟨(List.append_nil _).symm, fun _ => htries.symm, fun tail => ?_⟩
      simp [receiveLoop, hread, octetsOf]
    rw [if_neg htries] at h
    have hg := (link i r.lengthToRead).property
    generalize (link i r.lengthToRead).val = got at h hg
    dsimp only at h
    -- the schedule hands over what the call got
    have htake : ∀ rest : List UInt8, (got ++ rest).take (min got.length r.lengthToRead) = got
        ∧ (got ++ rest).drop (min got.length r.lengthToRead) = rest := by
      intro rest
      rw [Nat.min_eq_left hg]
      exact ⟨List.take_left .., List.drop_left ..⟩
    by_cases hnil : got = []
    · rw [if_pos hnil] at h
      obtain ⟨o, ho, rfl⟩ := Option.map_eq_some_iff.1 h
      obtain ⟨hdata, hfail, hloop⟩ := ih ho
      subst hnil
      refine ⟨hdata, fun hlate => ?_, fun tail => ?_⟩
      · have hrest : failures o.calls = r.tries - 1 := hfail hlate
        show (([] : List UInt8) :: o.calls.map RecvCall.got).count [] = r.tries
        rw [List.count_cons_self]
        show failures o.calls + 1 = r.tries
        omega
      · show receiveLoop b type (0 :: _) (octetsOf o.calls ++ tail) r = _
        rw [receiveLoop, if_neg hread, if_neg htries, Nat.zero_min]
        dsimp only
        rw [List.take_zero, if_pos rfl]
        exact hloop tail
    rw [if_neg hnil] at h
    split at h
    · rename_i hnext
      cases h
      refine ⟨by simp [octetsOf], (fun hlate => by cases hlate), fun tail => ?_⟩
      obtain ⟨ht, hd⟩ := htake tail
      have honly : octetsOf [⟨r.data.length, r.lengthToRead, got⟩] ++ tail = got ++ tail := by simp [octetsOf]
      show receiveLoop b type [got.length] _ r = _
      rw [honly, receiveLoop, if_neg hread, if_neg htries]
      dsimp only
      rw [ht, hd, if_neg hnil, hnext]
    · rename_i r' hnext
      obtain ⟨o, ho, rfl⟩ := Option.map_eq_some_iff.1 h
      obtain ⟨hdata, hfail, hloop⟩ := ih ho
      have hsame : r'.data = r.data ++ got ∧ r'.tries = r.tries := Rx.next_eq_some hnext
      have hall : octetsOf (⟨r.data.length, r.lengthToRead, got⟩ :: o.calls) = got ++ octetsOf o.calls := rfl
      refine ⟨?_, fun hlate => ?_, fun tail => ?_⟩
      · show o.data = r.data ++ octetsOf (_ :: o.calls)
        rw [hdata, hsame.1, hall, List.append_assoc]
      · show (got :: o.calls.map RecvCall.got).count [] = r.tries
        rw [List.count_cons_of_ne hnil, ← hsame.2]
        exact hfail hlate
      · obtain ⟨ht, hd⟩ := htake (octetsOf o.calls ++ tail)
        show receiveLoop b type (got.length :: _) (octetsOf (_ :: o.calls) ++ tail) r = _
        rw [hall, List.append_assoc, receiveLoop, if_neg hread, if_neg htries]
        dsimp only
        rw [ht, hd, if_neg hnil, hnext]
        exact hloop tail

/-- **What the octets say** when the tries suffice: too long a frame, or the frame that they begin with. -/
theorem readLoop_eq {times fuel : Nat} {o : Reading}
    (h : readLoop b type link fuel 0 { Rx.start b with tries := times } = some o) (hfail : failures o.calls < times)
    {bytes : List UInt8} (hbytes : octetsOf o.calls <+: bytes) :
    (b.maxAduLength < frameLength b type bytes ∧ o.how = .tooLong
        ∧ o.data = bytes.take (prefixLength b type bytes))
      ∨ frameLength b type bytes ≤ b.maxAduLength ∧ (∃ data, o.how = .msg data)
        ∧ o.data = bytes.take (frameLength b type bytes) := by
  obtain ⟨hdata, hlate, hloop⟩ := receiveLoop_of_readLoop h
  obtain ⟨tail, rfl⟩ := hbytes
  have hreads := @Rx.reads_start b type (octetsOf o.calls ++ tail)
  have htaken := receiveLoop_taken (o.calls.map fun c => c.got.length) _ { Rx.start b with tries := times }
    ⟨hreads.all_eq, hreads.goal, hreads.max_le, hreads.asks⟩
  rw [hloop tail] at htaken
  have hdata : o.data = octetsOf o.calls := hdata
  -- what is not read says how much was read
  have hfront : ∀ n, (octetsOf o.calls ++ tail).drop n = tail → n ≤ (octetsOf o.calls ++ tail).length →
      o.data = (octetsOf o.calls ++ tail).take n := by
    intro n hdrop hn
    have hsplit := List.take_append_drop n (octetsOf o.calls ++ tail)
    rw [hdrop] at hsplit
    rw [hdata]
    exact (List.append_cancel_right hsplit).symm
  obtain ⟨rest, hrest, htaken⟩ : ∃ rest, rest = tail ∧ Taken b type (octetsOf o.calls ++ tail) o.how rest :=
    ⟨tail, rfl, htaken⟩
  generalize o.how = how at htaken hlate
  cases htaken with
  | msg hmax hlen => exact Or.inr ⟨hmax, ⟨_, rfl⟩, hfront _ hrest hlen⟩
  | tooLong hmax hlen => exact Or.inl ⟨hmax, rfl, hfront _ hrest hlen⟩
  | timeout n hn => exact absurd (hlate rfl) (Nat.ne_of_lt hfail)

/-! ### The whole function -/

theorem discard_mono : ∀ {fuel fuel' i : Nat} {d : List RecvCall}, discard link fuel i = some d → fuel ≤ fuel' →
    discard link fuel' i = some d := by
  intro fuel
  induction fuel with
  | zero => exact fun h => by cases h
  | succ fuel ih =>
    intro fuel' i d h hle
    obtain ⟨fuel', rfl⟩ : ∃ k, fuel' = k + 1 := ⟨fuel' - 1, by omega⟩
    unfold discard at h ⊢
    dsimp only at h ⊢
    by_cases hnil : (link i maxMessageLength).val = []
    · rwa [if_pos hnil] at h ⊢
    · rw [if_neg hnil] at h ⊢
      obtain ⟨d', hd', rfl⟩ := Option.map_eq_some_iff.1 h
      rw [ih hd' (by omega)]
      rfl

/-- The octets are read away until a call gets none. -/
theorem discard_ends : ∀ (n i : Nat), (link (i + n) maxMessageLength).val = [] →
    ∃ d, discard link (n + 1) i = some d := by
  intro n
  induction n with
  | zero =>
    intro i h
    rw [Nat.add_zero] at h
    exact ⟨_, by rw [discard, if_pos h]⟩
  | succ n ih =>
    intro i h
    rw [discard]
    split
    · exact ⟨_, rfl⟩
    · obtain ⟨d, hd⟩ := ih (i + 1) (by rwa [Nat.add_right_comm, Nat.add_assoc])
      exact ⟨_, by rw [hd]; rfl⟩

/-- A loop that reads octets away and ends has met a call that got none. -/
theorem exists_of_discard : ∀ {fuel i : Nat} {d : List RecvCall}, discard link fuel i = some d →
    (∃ k, i ≤ k ∧ (link k maxMessageLength).val = []) ∧ ∀ c ∈ d, c.place + c.asked ≤ maxMessageLength := by
  intro fuel
  induction fuel with
  | zero => exact fun h => by cases h
  | succ fuel ih =>
    intro i d h
    unfold discard at h
    dsimp only at h
    split at h
    · rename_i hnil
      cases h
      exact ⟨⟨i, Nat.le_refl _, hnil⟩, List.forall_mem_cons.2 ⟨Nat.le_refl _, fun c hc => by cases hc⟩⟩
    · obtain ⟨d', hd', rfl⟩ := Option.map_eq_some_iff.1 h
      obtain ⟨⟨k, hk, hnil⟩, hall⟩ := ih hd'
      exact ⟨⟨k, Nat.le_of_succ_le hk, hnil⟩, List.forall_mem_cons.2 ⟨Nat.le_refl _, hall⟩⟩

/-- The frame in the buffer of the slave fails its check. -/
def Discards (p : Party) (b : Backend) (o : Reading) : Prop :=
  p = .slave ∧ (∃ data, o.how = .msg data) ∧ b.checkIntegrity o.data = false

/-- The result and the buffer of a frame. -/
def resultOfFrame (p : Party) (b : Backend) (frame : List UInt8) : Int × List UInt8 :=
  if b.checkIntegrity frame then (frame.length, cleared frame)
  else match p with
    | .master => (-1, cleared frame)
    | .slave => (0, cleared [])

/-- The result and the buffer, from the octets. -/
def resultOf (p : Party) (b : Backend) (type : MsgType) (bytes : List UInt8) : Int × List UInt8 :=
  if b.maxAduLength < frameLength b type bytes then (-1, cleared (bytes.take (prefixLength b type bytes)))
  else resultOfFrame p b (bytes.take (frameLength b type bytes))

/-- **What holds of a call of the function**: its loop makes few calls, each inside the longest frame, and reads octets
away inside the buffer; with fewer failures than tries the result and the buffer are those of the octets. -/
structure ChunkFree (p : Party) (b : Backend) (type : MsgType) (times : Nat) (o : Outcome) : Prop where
  few : o.calls.length ≤ times + b.maxAduLength
  inside : ∀ c ∈ o.calls, c.place + c.asked ≤ b.maxAduLength
  discarded : ∀ c ∈ o.discarded, c.place + c.asked ≤ maxMessageLength
  result : failures o.calls < times → ∀ bytes, octetsOf o.calls <+: bytes → (o.ret, o.buffer) = resultOf p b type bytes

section

variable {p : Party} {times : Nat}

/-- The function returns when its loop ends, but for the octets that the slave reads away. -/
theorem modbusReceiveMsg_ends {o : Reading} {fuel : Nat}
    (h : readLoop b type link fuel 0 { Rx.start b with tries := times } = some o)
    (hquiet : Discards p b o → ∃ k, o.calls.length ≤ k ∧ (link k maxMessageLength).val = []) :
    ∃ fuel out, modbusReceiveMsg p b type times link fuel = some out := by
  by_cases hd : Discards p b o
  · obtain ⟨k, hk, hnil⟩ := hquiet hd
    obtain ⟨rfl, ⟨data, hhow⟩, hcheck⟩ := hd
    obtain ⟨d, hd⟩ := @discard_ends link (k - o.calls.length) o.calls.length
      (by rwa [Nat.add_sub_cancel' hk])
    refine ⟨max fuel (k - o.calls.length + 1), ?_⟩
    unfold modbusReceiveMsg
    rw [readLoop_mono h (Nat.le_max_left ..)]
    simp only [hhow, hcheck, Bool.false_eq_true, if_false, discard_mono hd (Nat.le_max_right ..), Option.map_some]
    exact ⟨_, rfl⟩
  · refine ⟨fuel, ?_⟩
    unfold modbusReceiveMsg
    rw [h]
    dsimp only
    split
    · split
      · exact ⟨_, rfl⟩
      · rename_i data hhow hcheck
        cases p with
        | master => exact ⟨_, rfl⟩
        | slave => exact absurd ⟨rfl, ⟨data, hhow⟩, Bool.eq_false_iff.2 hcheck⟩ hd
    · exact ⟨_, rfl⟩

theorem chunkFree_of_receiveMsg {fuel : Nat} {out : Outcome}
    (h : modbusReceiveMsg p b type times link fuel = some out) : ChunkFree p b type times out := by
  obtain ⟨o, ho, hlen, hall⟩ := @readLoop_ends b type link (times + b.maxAduLength + 1) 0 _
    (Rx.fits_start b times) (Nat.lt_succ_self _)
  unfold modbusReceiveMsg at h
  split at h
  · cases h
  rename_i o' ho'
  obtain rfl := readLoop_unique ho ho'
  split at h
  · rename_i data hhow
    -- a message: the octets begin with a frame that fits
    have hframe : ∀ {bytes : List UInt8}, failures o.calls < times → octetsOf o.calls <+: bytes →
        resultOf p b type bytes = resultOfFrame p b o.data := by
      intro bytes hfail hbytes
      rcases readLoop_eq ho hfail hbytes with ⟨-, hlong, -⟩ | ⟨hmax, -, hdata⟩
      · rw [hhow] at hlong
        cases hlong
      · rw [resultOf, if_neg (Nat.not_lt.2 hmax), ← hdata]
    split at h
    · rename_i hcheck
      cases h
      refine ⟨hlen, hall, List.forall_mem_nil _, fun hfail bytes hbytes => ?_⟩
      rw [hframe hfail hbytes]
      exact (if_pos hcheck).symm
    · rename_i hcheck
      cases p with
      | master =>
        cases h
        refine ⟨hlen, hall, List.forall_mem_nil _, fun hfail bytes hbytes => ?_⟩
        rw [hframe hfail hbytes]
        exact (if_neg hcheck).symm
      | slave =>
        obtain ⟨d, hd, rfl⟩ := Option.map_eq_some_iff.1 h
        refine ⟨hlen, hall, (exists_of_discard hd).2, fun hfail bytes hbytes => ?_⟩
        rw [hframe hfail hbytes]
        exact (if_neg hcheck).symm
  · rename_i hnot
    cases h
    refine ⟨hlen, hall, List.forall_mem_nil _, fun hfail bytes hbytes => ?_⟩
    rcases readLoop_eq ho hfail hbytes with ⟨hlong, -, hdata⟩ | ⟨-, ⟨data, hhow⟩, -⟩
    · show (_, cleared o.data) = _
      rw [resultOf, if_pos hlong, hdata]
    · exact absurd hhow (hnot data)

end

/-- **`modbus_receive_msg`**, whatever `link_recv` hands over: it returns, unless it is a slave that reads octets away
and never meets a call that gets none, and then its result and its buffer are free of how the octets were cut. -/
theorem modbusReceiveMsg_chunkFree (p : Party) (b : Backend) (type : MsgType) (times : Nat) (link : LinkResults) :
    ((∃ fuel out, modbusReceiveMsg p b type times link fuel = some out) ∨
      ∃ fuel o, readLoop b type link fuel 0 { Rx.start b with tries := times } = some o ∧ Discards p b o
        ∧ ∀ k, o.calls.length ≤ k → (link k maxMessageLength).val ≠ []) ∧
    ∀ fuel out, modbusReceiveMsg p b type times link fuel = some out → ChunkFree p b type times out := by
  refine ⟨?_, fun fuel out h => chunkFree_of_receiveMsg h⟩
  obtain ⟨o, ho, -, -⟩ := @readLoop_ends b type link (times + b.maxAduLength + 1) 0 _
    (Rx.fits_start b times) (Nat.lt_succ_self _)
  by_cases hquiet : Discards p b o → ∃ k, o.calls.length ≤ k ∧ (link k maxMessageLength).val = []
  · exact Or.inl (modbusReceiveMsg_ends ho hquiet)
  · obtain ⟨hd, hnever⟩ := Classical.not_imp.1 hquiet
    exact Or.inr ⟨_, o, ho, hd, fun k hk hnil => hnever ⟨k, hk, hnil⟩⟩

/-- A line that hands over one octet of zero after the other. -/
def zeros : LinkResults := fun _ n =>
  ⟨List.replicate (min 1 n) 0, Nat.le_trans (Nat.le_of_eq List.length_replicate) (Nat.min_le_right ..)⟩

/-- A slave on such a line takes eight zeros for a frame, finds its check sum wrong, and does not return. -/
theorem not_modbusReceiveMsg_zeros :
    ¬ ∃ fuel out, modbusReceiveMsg .slave .rtu .indication 10 zeros fuel = some out := by
  rintro ⟨fuel, out, h⟩
  have hend : (readLoop .rtu .indication zeros 9 0 { Rx.start .rtu with tries := 10 }).map
      (fun o => (o.how, o.data)) = some (.msg (List.replicate 8 0), List.replicate 8 0) := by decide +kernel
  obtain ⟨o, ho, heq⟩ := Option.map_eq_some_iff.1 hend
  obtain ⟨hhow, hdata⟩ := Prod.mk.inj heq
  have hcheck : Backend.rtu.checkIntegrity o.data = false := by
    rw [hdata]
    decide +kernel
  unfold modbusReceiveMsg at h
  split at h
  · cases h
  rename_i o' ho'
  obtain rfl := readLoop_unique ho ho'
  simp only [hhow, hcheck, Bool.false_eq_true, if_false] at h
  obtain ⟨d, hd, -⟩ := Option.map_eq_some_iff.1 h
  obtain ⟨⟨k, -, hnil⟩, -⟩ := exists_of_discard hd
  cases hnil

end Wow.Modbus
