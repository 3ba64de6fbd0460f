import Wow.Base.Ipc

/-!
# Wow.Base.IpcWait — a call that succeeds returns the reply to its own request

All calls share one response buffer and one semaphore.  The reply that is in the buffer belongs to the call that it
answers as long as no other call stands at the semaphore, and that call does not give up.  Where a reply is taken
under another condition, or what arrives under an awaited id is no reply to the call that awaits it, the code hands
it to whoever comes.

* `InOrder`, `pushSyncCmd_kept`, `popSyncCmd_kept`: the ids that wait.
* `Stage`: how far the reply in the buffer has come; `Inv` the invariant.
* `step_kept`: one step; `send_wait_right`: every run.
-/

namespace Wow.Ipc

open KvList Avl

/-! ### The requirement -/

/-- **The requirement**: what a call has returned is the reply to it, cut to its buffer. -/
def Right (s : State) : Prop :=
  ∀ k out, s.pc k = .returned (some out) →
    ∃ m ∈ s.arrived, m.answers = some k ∧ out = m.data.1.take (s.calls k).snOlen

/-! ### The condition -/

/-- The id waits. -/
def Registered (kv : World) (funcId : UInt32) : Prop := ¬ Absent (withCmd kv funcId) kv.mem.next

/-- The id can be deleted: its node has at most one child. -/
def Removable (kv : World) (funcId : UInt32) : Prop :=
  KvList.Fits (withCmd kv funcId) (.call (.delete (some kv.mem.next)) 0)

/-- The call is between `push_sync_cmd` and the semaphore. -/
def State.Coming (s : State) (k : Nat) : Prop := s.pc k = .pushed ∨ s.pc k = .waiting

/-- **The condition** on a step. -/
def Fits (s : State) : Event → Prop
  | .push fid _ => ¬ Registered s.kvlist fid
  -- while a reply is in the buffer no other call comes to the semaphore, and the call that it answers does not leave
  | .send k true => ∀ m ∈ s.held, m.answers = some k
  | .send k false | .timeout k => ∀ m ∈ s.held, m.answers ≠ some k
  | .pop k => Removable s.kvlist (s.calls k).fid
  -- what is taken is the reply to a call that has not given up, no other one stands at the semaphore, and the reply
  -- before has been copied
  | .arrive m => Removable s.kvlist (buildAckIpcMsgId m.funcId) ∧ (Registered s.kvlist (buildAckIpcMsgId m.funcId) →
      s.held = none ∧ (∃ k ∈ m.answers, s.Coming k) ∧ ∀ j < s.count, m.answers ≠ some j → s.pc j ≠ .waiting)
  | .wake _ | .copy _ | .store | .post => True

/-- Every step up to a fault meets the condition. -/
def Fitting : State → List Event → Prop
  | _, [] => True
  | s, e :: es => Fits s e ∧ match step s e with
    | none => True
    | some s' => Fitting s' es

instance (kv : World) (funcId : UInt32) : Decidable (Registered kv funcId) := inferInstanceAs (Decidable (¬ _))

instance (kv : World) (funcId : UInt32) : Decidable (Removable kv funcId) :=
  inferInstanceAs (Decidable (KvList.Fits _ _))

instance (s : State) (k : Nat) : Decidable (s.Coming k) := inferInstanceAs (Decidable (_ ∨ _))

instance (s : State) : ∀ e, Decidable (Fits s e)
  | .push fid _ => inferInstanceAs (Decidable (¬ Registered s.kvlist fid))
  | .send k true => inferInstanceAs (Decidable (∀ m ∈ s.held, m.answers = some k))
  | .send k false | .timeout k => inferInstanceAs (Decidable (∀ m ∈ s.held, m.answers ≠ some k))
  | .pop k => inferInstanceAs (Decidable (Removable s.kvlist (s.calls k).fid))
  | .arrive m => inferInstanceAs (Decidable (Removable _ _ ∧ (Registered _ _ → s.held = none ∧
      (∃ k ∈ m.answers, s.Coming k) ∧ ∀ j < s.count, m.answers ≠ some j → s.pc j ≠ .waiting)))
  | .wake _ | .copy _ | .store | .post => inferInstanceAs (Decidable True)

instance decidableFitting : ∀ (s : State) (es : List Event), Decidable (Fitting s es)
  | _, [] => inferInstanceAs (Decidable True)
  | s, e :: es =>
    have : Decidable (match step s e with
      | none => True
      | some s' => Fitting s' es) :=
      match step s e with
      | none => inferInstanceAs (Decidable True)
      | some s' => decidableFitting s' es
    inferInstanceAs (Decidable (Fits s e ∧ _))

/-! ### The ids that wait -/

/-- The list is in order. -/
def InOrder (kv : World) : Prop := ∃ T m, KvList.Inv kv T ∧ Stores kv.mem T.toList m

section Ids

variable {kv : World} {funcId : UInt32}

theorem inOrder_events (h : InOrder kv) {es : List KvList.Event} (hfit : KvList.Fitting KvList.Fits kv es) :
    ∃ kv', KvList.events kv es = some kv' ∧ InOrder kv' := by
  obtain ⟨T, m, hs, hm⟩ := h
  obtain ⟨kv', T', m', hev, -, hs', hm', -⟩ :=
    lock_kept (Q := KvList.Fits) (J := fun _ => True) (fun _ _ h => h) (fun _ _ _ _ _ => trivial) hs hm trivial hfit
  exact ⟨kv', hev, T', m', hs', hm'⟩

theorem inOrder_withCmd (h : InOrder kv) : InOrder (withCmd kv funcId) := by
  have hfit : KvList.Fitting KvList.Fits kv [.own (cmdStr funcId).bytes] := ⟨trivial, trivial⟩
  obtain ⟨kv', hev, hkv'⟩ := inOrder_events h hfit
  obtain rfl : withCmd kv funcId = kv' := Option.some_inj.mp hev
  exact hkv'

theorem str_withCmd : (withCmd kv funcId).mem.str kv.mem.next = some (cmdStr funcId) := by
  simp only [Heap.str, withCmd, Heap.put, Function.update_self, Option.bind_some, cstr_bytes]

theorem inOrder_kvlistCreate : InOrder kvlistCreate := by
  have hfit : KvList.Fitting KvList.Fits create [.own [49, 0]] := ⟨trivial, trivial⟩
  obtain ⟨kv', hev, hkv'⟩ := inOrder_events ⟨_, _, inv_create, stores_create⟩ hfit
  obtain rfl : kvlistCreate = kv' := Option.some_inj.mp hev
  exact hkv'

/-- **A new id** goes into the list without a fault. -/
theorem pushSyncCmd_kept (h : InOrder kv) (hnew : ¬ Registered kv funcId) :
    ∃ kv', pushSyncCmd kv funcId = some kv' ∧ InOrder kv' := by
  refine inOrder_events (inOrder_withCmd h) ⟨not_not.mp hnew, ?_⟩
  split
  · trivial
  · exact ⟨trivial, by split <;> trivial⟩

/-- **An id that is asked for** is found if and only if it waits, and leaves the list without a fault. -/
theorem popSyncCmd_kept (h : InOrder kv) (hrem : Removable kv funcId) :
    ∃ found kv', popSyncCmd kv funcId = some (found, kv') ∧ InOrder kv' ∧ (found = true → Registered kv funcId) := by
  have hcmd : InOrder (withCmd kv funcId) := inOrder_withCmd h
  obtain ⟨T, m, hs, hm⟩ := hcmd
  have hget : wowKvlistGet heap (withCmd kv funcId) (some kv.mem.next) =
      some ((T.search (cmdStr funcId)).map Prod.snd) := by
    rw [wowKvlistGet, hs.root]
    exact avlSearch_eq (hs.reads str_withCmd)
  have hlast (kv' : World) : KvList.Fitting KvList.Fits kv' [.drop kv.mem.next] := ⟨trivial, by split <;> trivial⟩
  simp only [popSyncCmd, hget, Option.bind_some]
  cases hpair : (T.search (cmdStr funcId)).map Prod.snd with
  | none =>
    obtain ⟨kv', hev, hkv'⟩ := inOrder_events ⟨T, m, hs, hm⟩ (hlast _)
    refine ⟨false, kv', ?_, hkv', fun h => absurd h Bool.false_ne_true⟩
    simp only [hev, Option.map_some]
  | some vp =>
    have hfit : KvList.Fitting KvList.Fits (withCmd kv funcId)
        [.call (.delete (some kv.mem.next)) 0, .drop kv.mem.next] := ⟨hrem, by split <;> trivial⟩
    obtain ⟨kv', hev, hkv'⟩ := inOrder_events ⟨T, m, hs, hm⟩ hfit
    refine ⟨true, kv', ?_, hkv', fun _ habs => ?_⟩
    · simp only [hev, Option.map_some]
    · have habs' : wowKvlistGet heap (withCmd kv funcId) (some kv.mem.next) = some none := habs
      rw [hget, hpair] at habs'
      cases habs'

end Ids

/-! ### The invariant -/

/-- The response buffer holds a message. -/
structure Stored (s : State) (m : Msg) : Prop where
  len : s.respLen = m.data.1.length
  buf : s.respBuf.take m.data.1.length = m.data.1

/-- **How far a reply has come** on its way to the call that it answers. -/
inductive Stage (s : State) (m : Msg) (k : Nat) : Prop where
  | taken (hh : s.handler = .took m) (hsem : s.sem = 0) (hpc : s.Coming k)
  | stored (hh : s.handler = .stored m) (hsem : s.sem = 0) (hpc : s.Coming k) (hbuf : Stored s m)
  | posted (hh : s.handler = .idle) (hsem : s.sem = 1) (hpc : s.Coming k) (hbuf : Stored s m)
  | woken (hh : s.handler = .idle) (hsem : s.sem = 0) (hpc : s.pc k = .woken) (hbuf : Stored s m)

/-- What there is besides the call that is answered: no other one stands at the semaphore. -/
structure Owner (s : State) (m : Msg) (k : Nat) : Prop where
  answers : m.answers = some k
  arrived : m ∈ s.arrived
  stage : Stage s m k
  waiting : ∀ j, j ≠ k → s.pc j ≠ .waiting
  woken : ∀ j, j ≠ k → s.pc j ≠ .woken

/-- No reply is on its way. -/
structure Quiet (s : State) : Prop where
  handler : s.handler = .idle
  sem : s.sem = 0
  woken : ∀ k, s.pc k ≠ .woken

/-- **The invariant**. -/
structure Inv (s : State) : Prop where
  order : InOrder s.kvlist
  fresh : ∀ k, s.count ≤ k → s.pc k = .idle
  right : Right s
  quiet : s.held = none → Quiet s
  owner : ∀ m, s.held = some m → ∃ k, Owner s m k

variable {s : State} {k j : Nat} {m : Msg} {p : Pc}

theorem pc_setPc_self : (s.setPc k p).pc k = p := by
  simp only [State.setPc, State.pc, Function.update_self]

theorem pc_setPc_of_ne (h : j ≠ k) : (s.setPc k p).pc j = s.pc j := by
  simp only [State.setPc, State.pc, Function.update_of_ne h]

/-- A step of a call to a place other than `q`. -/
theorem pc_setPc_ne {q : Pc} (hp : p ≠ q) (h : s.pc j ≠ q) : (s.setPc k p).pc j ≠ q := by
  by_cases hjk : j = k
  · rw [hjk, pc_setPc_self]
    exact hp
  · rw [pc_setPc_of_ne hjk]
    exact h

theorem snOlen_setPc : ((s.setPc k p).calls j).snOlen = (s.calls j).snOlen := by
  by_cases h : j = k
  · simp only [h, State.setPc, Function.update_self]
  · simp only [State.setPc, Function.update_of_ne h]

/-- A call that is under way is not the one that a step of another call is about. -/
theorem Stage.pc_ne (h : Stage s m k) (hp : p ≠ .pushed ∧ p ≠ .waiting ∧ p ≠ .woken) : s.pc k ≠ p := by
  intro hk
  have hcoming (hpc : s.Coming k) : False := by
    obtain hpc | hpc := hpc
    · exact hp.1 (hk.symm.trans hpc)
    · exact hp.2.1 (hk.symm.trans hpc)
  cases h with
  | taken _ _ hpc => exact hcoming hpc
  | stored _ _ hpc _ => exact hcoming hpc
  | posted _ _ hpc _ => exact hcoming hpc
  | woken _ _ hpc _ => exact hp.2.2 (hk.symm.trans hpc)

/-- A step of another call. -/
theorem Stage.frame {s' : State} (h : Stage s m k) (hpc : s'.pc k = s.pc k) (hhandler : s'.handler = s.handler)
    (hsem : s'.sem = s.sem) (hlen : s'.respLen = s.respLen) (hbuf : s'.respBuf = s.respBuf) : Stage s' m k := by
  have hcoming (h : s.Coming k) : s'.Coming k := by rwa [State.Coming, hpc]
  have hstored (h : Stored s m) : Stored s' m := ⟨hlen.trans h.len, hbuf ▸ h.buf⟩
  cases h with
  | taken hh hs hp => exact .taken (hhandler.trans hh) (hsem.trans hs) (hcoming hp)
  | stored hh hs hp hb => exact .stored (hhandler.trans hh) (hsem.trans hs) (hcoming hp) (hstored hb)
  | posted hh hs hp hb => exact .posted (hhandler.trans hh) (hsem.trans hs) (hcoming hp) (hstored hb)
  | woken hh hs hp hb => exact .woken (hhandler.trans hh) (hsem.trans hs) (hpc.trans hp) (hstored hb)

/-! ### What the steps keep -/

/-- A step that touches neither the calls nor the way of a reply. -/
theorem Inv.frame {s' : State} (h : Inv s) (hkv : InOrder s'.kvlist) (hcalls : s'.calls = s.calls)
    (hcount : s'.count = s.count) (hhandler : s'.handler = s.handler) (hsem : s'.sem = s.sem)
    (hlen : s'.respLen = s.respLen) (hbuf : s'.respBuf = s.respBuf) (harrived : s.arrived ⊆ s'.arrived)
    (hheld : s'.held = s.held) : Inv s' := by
  have hpc (j : Nat) : s'.pc j = s.pc j := by simp only [State.pc, hcalls]
  refine ⟨hkv, fun k hk => ?_, fun k out hk => ?_, fun hnone => ?_, fun m hm => ?_⟩
  · rw [hpc]
    exact h.fresh k (hcount ▸ hk)
  · rw [hpc] at hk
    obtain ⟨m, hm, hans, hout⟩ := h.right k out hk
    exact ⟨m, harrived hm, hans, by rw [hcalls]; exact hout⟩
  · obtain ⟨hh, hs, hw⟩ := h.quiet (hheld ▸ hnone)
    exact ⟨hhandler.trans hh, hsem.trans hs, fun k => by rw [hpc]; exact hw k⟩
  · obtain ⟨k, hk⟩ := h.owner m (hheld ▸ hm)
    exact ⟨k, hk.answers, harrived hk.arrived, hk.stage.frame (hpc k) hhandler hsem hlen hbuf,
      fun j hj => by rw [hpc]; exact hk.waiting j hj, fun j hj => by rw [hpc]; exact hk.woken j hj⟩

theorem right_setPc (h : Right s) (hp : ∀ out, p ≠ .returned (some out)) : Right (s.setPc k p) := by
  intro j out hj
  by_cases hjk : j = k
  · subst hjk
    rw [pc_setPc_self] at hj
    exact absurd hj (hp out)
  · rw [pc_setPc_of_ne hjk] at hj
    rw [snOlen_setPc]
    exact h j out hj

theorem fresh_setPc (h : ∀ k, s.count ≤ k → s.pc k = .idle) (hk : s.pc k ≠ .idle) :
    ∀ j, s.count ≤ j → (s.setPc k p).pc j = .idle := by
  intro j hj
  rw [pc_setPc_of_ne fun hjk : j = k => hk (hjk ▸ h j hj)]
  exact h j hj

/-- **A call that no reply is on its way to** moves on, but not to the semaphore. -/
theorem Inv.move (h : Inv s) (hk : s.pc k ≠ .idle) (hp : ∀ out, p ≠ .returned (some out)) (hwoken : p ≠ .woken)
    (hwaiting : p ≠ .waiting) (hother : ∀ m, s.held = some m → m.answers ≠ some k) : Inv (s.setPc k p) := by
  refine ⟨h.order, fresh_setPc h.fresh hk, right_setPc h.right hp, fun hnone => ?_, fun m hm => ?_⟩
  · obtain ⟨hh, hs, hw⟩ := h.quiet hnone
    exact ⟨hh, hs, fun j => pc_setPc_ne hwoken (hw j)⟩
  · obtain ⟨k₀, hans, harr, hstage, hwait, hwake⟩ := h.owner m hm
    have hne : k₀ ≠ k := fun heq => hother m hm (heq ▸ hans)
    refine ⟨k₀, hans, harr, hstage.frame (pc_setPc_of_ne hne) rfl rfl rfl rfl, fun j hj => ?_, fun j hj => ?_⟩
    · exact pc_setPc_ne hwaiting (hwait j hj)
    · exact pc_setPc_ne hwoken (hwake j hj)

/-- **A call comes to the semaphore**: a reply that is on its way is one to it. -/
theorem Inv.comes (h : Inv s) (hk : s.pc k = .pushed) (hown : ∀ m, s.held = some m → m.answers = some k) :
    Inv (s.setPc k .waiting) := by
  refine ⟨h.order, fresh_setPc h.fresh (by rw [hk]; exact nofun), right_setPc h.right nofun, fun hnone => ?_,
    fun m hm => ?_⟩
  · obtain ⟨hh, hs, hw⟩ := h.quiet hnone
    exact ⟨hh, hs, fun j => pc_setPc_ne nofun (hw j)⟩
  · obtain ⟨k₀, hans, harr, hstage, hwait, hwake⟩ := h.owner m hm
    obtain rfl : k₀ = k := Option.some_inj.mp (hans.symm.trans (hown m hm))
    have hcoming : (s.setPc k₀ .waiting).Coming k₀ := Or.inr pc_setPc_self
    have hstored (h : Stored s m) : Stored (s.setPc k₀ .waiting) m := ⟨h.len, h.buf⟩
    refine ⟨k₀, hans, harr, ?_, fun j hj => ?_, fun j hj => ?_⟩
    · cases hstage with
      | taken hh hs _ => exact .taken hh hs hcoming
      | stored hh hs _ hb => exact .stored hh hs hcoming (hstored hb)
      | posted hh hs _ hb => exact .posted hh hs hcoming (hstored hb)
      | woken _ _ hpc _ =>
        rw [hk] at hpc
        cases hpc
    · rw [pc_setPc_of_ne hj]
      exact hwait j hj
    · rw [pc_setPc_of_ne hj]
      exact hwake j hj

/-- **A call takes the semaphore**: it is the one that the reply answers. -/
theorem Inv.wakes (h : Inv s) (hk : s.pc k = .waiting) (hsem : 0 < s.sem) :
    Inv { s.setPc k .woken with sem := s.sem - 1 } := by
  cases hheld : s.held with
  | none => exact absurd (h.quiet hheld).sem (Nat.ne_of_gt hsem)
  | some m =>
    obtain ⟨k₀, hans, harr, hstage, hwait, hwake⟩ := h.owner m hheld
    obtain rfl : k = k₀ := not_not.mp fun hne => hwait k hne hk
    refine ⟨h.order, fresh_setPc h.fresh (by rw [hk]; exact nofun), right_setPc h.right nofun,
      fun hnone => absurd (hheld.symm.trans hnone) nofun, fun m' hm' => ?_⟩
    obtain rfl : m = m' := Option.some_inj.mp (hheld.symm.trans hm')
    refine ⟨k, hans, harr, ?_, fun j hj => ?_, fun j hj => ?_⟩
    · cases hstage with
      | taken _ hs _ => omega
      | stored _ hs _ _ => omega
      | posted hh hs _ hb =>
        refine .woken hh ?_ pc_setPc_self ⟨hb.len, hb.buf⟩
        change s.sem - 1 = 0
        omega
      | woken _ hs _ _ => omega
    · exact (pc_setPc_of_ne hj).trans_ne (hwait j hj)
    · exact (pc_setPc_of_ne hj).trans_ne (hwake j hj)

/-- **A call copies the response**: it is the reply to it. -/
theorem Inv.copies (h : Inv s) (hk : s.pc k = .woken) : Inv { s.setPc k (.returned (some (s.respBuf.take
    (min s.respLen (s.calls k).snOlen)))) with held := none } := by
  cases hheld : s.held with
  | none => exact absurd hk ((h.quiet hheld).woken k)
  | some m =>
    obtain ⟨k₀, hans, harr, hstage, hwait, hwake⟩ := h.owner m hheld
    obtain rfl : k = k₀ := not_not.mp fun hne => hwake k hne hk
    have hcoming (hpc : s.Coming k) : False := by
      rw [State.Coming, hk] at hpc
      obtain hpc | hpc := hpc <;> cases hpc
    cases hstage with
    | taken _ _ hpc => exact (hcoming hpc).elim
    | stored _ _ hpc _ => exact (hcoming hpc).elim
    | posted _ _ hpc _ => exact (hcoming hpc).elim
    | woken hh hs _ hb =>
      refine ⟨h.order, fresh_setPc h.fresh (by rw [hk]; exact nofun), fun j out hj => ?_, fun _ => ⟨hh, hs, fun j => ?_⟩,
        nofun⟩
      · by_cases hjk : j = k
        · subst hjk
          obtain rfl := Option.some_inj.mp (Pc.returned.inj (pc_setPc_self.symm.trans hj))
          refine ⟨m, harr, hans, ?_⟩
          rw [hb.len, Nat.min_comm, ← List.take_take, hb.buf]
          exact congrArg (m.data.1.take ·) snOlen_setPc.symm
        · obtain ⟨m', hm', hans', hout⟩ := h.right j out ((pc_setPc_of_ne hjk).symm.trans hj)
          exact ⟨m', hm', hans', hout.trans (congrArg (m'.data.1.take ·) snOlen_setPc.symm)⟩
      · by_cases hjk : j = k
        · subst hjk
          exact pc_setPc_self.trans_ne nofun
        · exact (pc_setPc_of_ne hjk).trans_ne (hwake j hjk)

/-- **A call begins**. -/
theorem Inv.begins (h : Inv s) {kv : World} (hkv : InOrder kv) (fid : UInt32) (snOlen : Nat) :
    Inv { s with kvlist := kv, count := s.count + 1, calls := Function.update s.calls s.count ⟨fid, snOlen, .pushed⟩ } := by
  have hidle : s.pc s.count = .idle := h.fresh _ (Nat.le_refl _)
  set s' : State :=
    { s with kvlist := kv, count := s.count + 1, calls := Function.update s.calls s.count ⟨fid, snOlen, .pushed⟩ }
  have hnew : s'.pc s.count = .pushed := by simp only [s', State.pc, Function.update_self]
  have hold {j : Nat} (hj : j ≠ s.count) : s'.calls j = s.calls j := Function.update_of_ne hj _ _
  have hpc {j : Nat} (hj : j ≠ s.count) : s'.pc j = s.pc j := congrArg Call.pc (hold hj)
  have hother {q : Pc} (j : Nat) (hj : s.pc j ≠ q) (hq : .pushed ≠ q) : s'.pc j ≠ q := by
    by_cases hjc : j = s.count
    · rw [hjc, hnew]
      exact hq
    · rw [hpc hjc]
      exact hj
  refine ⟨hkv, fun j hj => ?_, fun j out hj => ?_, fun hnone => ?_, fun m hm => ?_⟩
  · have hlt : s.count < j := hj
    rw [hpc (Nat.ne_of_gt hlt)]
    exact h.fresh j (Nat.le_of_lt hlt)
  · have hne : j ≠ s.count := by
      rintro rfl
      rw [hnew] at hj
      cases hj
    rw [hpc hne] at hj
    rw [hold hne]
    exact h.right j out hj
  · obtain ⟨hh, hs, hw⟩ := h.quiet hnone
    exact ⟨hh, hs, fun j => hother j (hw j) nofun⟩
  · obtain ⟨k, hans, harr, hstage, hwait, hwake⟩ := h.owner m hm
    have hne : s.pc k ≠ .idle := hstage.pc_ne ⟨nofun, nofun, nofun⟩
    have hk : k ≠ s.count := fun heq => hne (heq ▸ hidle)
    refine ⟨k, hans, harr, hstage.frame (hpc hk) rfl rfl rfl rfl, fun j hj => ?_, fun j hj => ?_⟩
    · exact hother j (hwait j hj) nofun
    · exact hother j (hwake j hj) nofun

/-- **A reply is taken** by a call that has not given up, while no other one stands at the semaphore. -/
theorem Inv.takes (h : Inv s) (hnone : s.held = none) (hm : m ∈ s.arrived) (hans : m.answers = some k)
    (hcoming : s.Coming k) (hwait : ∀ j < s.count, m.answers ≠ some j → s.pc j ≠ .waiting) :
    Inv { s with handler := .took m, held := some m } := by
  obtain ⟨-, hsem, hwake⟩ := h.quiet hnone
  refine ⟨h.order, h.fresh, h.right, nofun, fun m' hm' => ?_⟩
  obtain rfl := Option.some_inj.mp hm'
  refine ⟨k, hans, hm, .taken rfl hsem hcoming, fun j hj => ?_, fun j _ => hwake j⟩
  by_cases hcount : j < s.count
  · refine hwait j hcount ?_
    rw [hans]
    exact fun heq => hj (Option.some_inj.mp heq).symm
  · intro hpc
    have hidle : s.pc j = .idle := h.fresh j (Nat.le_of_not_lt hcount)
    cases hpc.symm.trans hidle

/-- A handler at work has a reply, with the call that it is for. -/
theorem Inv.held (h : Inv s) (hh : s.handler ≠ .idle) : ∃ m k, s.held = some m ∧ Owner s m k := by
  cases hheld : s.held with
  | none => exact absurd (h.quiet hheld).handler hh
  | some m =>
    obtain ⟨k, howner⟩ := h.owner m hheld
    exact ⟨m, k, rfl, howner⟩

/-- **The reply is written** to the response buffer. -/
theorem Inv.stores (h : Inv s) (hh : s.handler = .took m) : Inv { s with
    respBuf := m.data.1 ++ s.respBuf.drop m.data.1.length, respLen := m.data.1.length, handler := .stored m } := by
  obtain ⟨m₀, k, hheld, hans, harr, hstage, hwait, hwake⟩ := h.held (by rw [hh]; nofun)
  refine ⟨h.order, h.fresh, h.right, fun hnone => (by cases hheld.symm.trans hnone), fun m' hm' => ?_⟩
  obtain rfl : m₀ = m' := Option.some_inj.mp (hheld.symm.trans hm')
  refine ⟨k, hans, harr, ?_, hwait, hwake⟩
  cases hstage with
  | taken hh' hs hp =>
    obtain rfl := Handler.took.inj (hh.symm.trans hh')
    exact .stored rfl hs hp ⟨rfl, List.take_left⟩
  | stored hh' _ _ _ => cases hh.symm.trans hh'
  | posted hh' _ _ _ => cases hh.symm.trans hh'
  | woken hh' _ _ _ => cases hh.symm.trans hh'

/-- **The semaphore is signalled**. -/
theorem Inv.posts (h : Inv s) (hh : s.handler = .stored m) : Inv { s with sem := s.sem + 1, handler := .idle } := by
  obtain ⟨m₀, k, hheld, hans, harr, hstage, hwait, hwake⟩ := h.held (by rw [hh]; nofun)
  refine ⟨h.order, h.fresh, h.right, fun hnone => (by cases hheld.symm.trans hnone), fun m' hm' => ?_⟩
  obtain rfl : m₀ = m' := Option.some_inj.mp (hheld.symm.trans hm')
  refine ⟨k, hans, harr, ?_, hwait, hwake⟩
  cases hstage with
  | taken hh' _ _ => cases hh.symm.trans hh'
  | stored _ hs hp hb => exact .posted rfl (congrArg (· + 1) hs) hp ⟨hb.len, hb.buf⟩
  | posted hh' _ _ _ => cases hh.symm.trans hh'
  | woken hh' _ _ _ => cases hh.symm.trans hh'

/-! ### Every run -/

theorem inv_init : Inv init where
  order := inOrder_kvlistCreate
  fresh := fun _ _ => rfl
  right := nofun
  quiet := fun _ => ⟨rfl, rfl, nofun⟩
  owner := nofun

/-- **One step** that meets the condition keeps the invariant, and does not fault. -/
theorem step_kept (h : Inv s) {e : Event} (hfit : Fits s e) : ∃ s', step s e = some s' ∧ Inv s' := by
  cases e with
  | push fid snOlen =>
    obtain ⟨kv, hpush, hkv⟩ := pushSyncCmd_kept h.order hfit
    exact ⟨_, by simp only [step, hpush, Option.map_some], h.begins hkv fid snOlen⟩
  | send k ok =>
    refine ⟨_, rfl, ?_⟩
    by_cases hk : s.pc k = .pushed
    · rw [if_pos hk]
      cases ok with
      | true => exact h.comes hk fun m hm => hfit m hm
      | false => exact h.move (by rw [hk]; exact nofun) nofun nofun nofun fun m hm => hfit m hm
    · rw [if_neg hk]
      exact h
  | wake k =>
    refine ⟨_, rfl, ?_⟩
    split_ifs with hk
    · exact h.wakes hk.1 hk.2
    · exact h
  | timeout k =>
    refine ⟨_, rfl, ?_⟩
    split_ifs with hk
    · exact h.move (by rw [hk.1]; exact nofun) nofun nofun nofun fun m hm => hfit m hm
    · exact h
  | copy k =>
    refine ⟨_, rfl, ?_⟩
    split_ifs with hk
    · exact h.copies hk
    · exact h
  | pop k =>
    simp only [step]
    split_ifs with hk
    · obtain ⟨found, kv, hpop, hkv, -⟩ := popSyncCmd_kept h.order hfit
      have hother (m : Msg) (hm : s.held = some m) : m.answers ≠ some k := by
        intro hans
        obtain ⟨k₀, hans₀, -, hstage, -⟩ := h.owner m hm
        obtain rfl := Option.some_inj.mp (hans.symm.trans hans₀)
        have hne : s.pc k ≠ .failed := hstage.pc_ne ⟨nofun, nofun, nofun⟩
        exact hne hk
      have hmove := h.move (p := .returned none) (by rw [hk]; exact nofun) nofun nofun nofun hother
      refine ⟨{ s.setPc k (.returned none) with kvlist := kv }, by rw [hpop]; rfl, ?_⟩
      exact hmove.frame hkv rfl rfl rfl rfl rfl rfl (List.Subset.refl _) rfl
    · exact ⟨s, rfl, h⟩
  | arrive m =>
    simp only [step]
    cases hh : s.handler with
    | took _ => exact ⟨s, rfl, h⟩
    | stored _ => exact ⟨s, rfl, h⟩
    | idle =>
      have harrived {kv : World} (hkv : InOrder kv) :
          Inv { s with kvlist := kv, arrived := s.arrived ++ [m], handler := .idle } :=
        h.frame hkv rfl rfl hh.symm rfl rfl rfl (List.subset_append_left _ _) rfl
      split_ifs with hsize
      · obtain ⟨found, kv, hpop, hkv, hreg⟩ := popSyncCmd_kept h.order hfit.1
        cases found with
        | false => exact ⟨_, by rw [hpop]; rfl, harrived hkv⟩
        | true =>
          obtain ⟨hnone, ⟨k, hans, hcoming⟩, hwait⟩ := hfit.2 (hreg rfl)
          refine ⟨_, by rw [hpop]; rfl, ?_⟩
          exact (harrived hkv).takes hnone (List.mem_append_right _ List.mem_cons_self) hans hcoming hwait
      · exact ⟨_, rfl, harrived h.order⟩
  | store =>
    simp only [step]
    cases hh : s.handler with
    | took m => exact ⟨_, rfl, h.stores hh⟩
    | stored _ => exact ⟨s, rfl, h⟩
    | idle => exact ⟨s, rfl, h⟩
  | post =>
    simp only [step]
    cases hh : s.handler with
    | stored m => exact ⟨_, rfl, h.posts hh⟩
    | took _ => exact ⟨s, rfl, h⟩
    | idle => exact ⟨s, rfl, h⟩

/-- **Every run** whose steps meet the condition. -/
theorem run_kept (h : Inv s) (es : List Event) (hfit : Fitting s es) : ∃ s', events s es = some s' ∧ Inv s' := by
  induction es generalizing s with
  | nil => exact ⟨s, rfl, h⟩
  | cons e es ih =>
    obtain ⟨hfit₁, hrest⟩ := hfit
    obtain ⟨s₁, hstep, h₁⟩ := step_kept h hfit₁
    rw [hstep] at hrest
    obtain ⟨s', hev, h'⟩ := ih h₁ hrest
    exact ⟨s', by rw [events, hstep, Option.bind_some, hev], h'⟩

/-- The reply of client 2 to a request of client 1. -/
def reply (k : Nat) : Msg := ⟨buildIpcMsgId 1 2 7, ⟨[9], by decide⟩, some k⟩

/-- A call and its reply. -/
def answered : List Event :=
  [.push (buildIpcMsgId 2 1 7) 4, .send 0 true, .arrive (reply 0), .store, .post, .wake 0, .copy 0]

/-- The first call has timed out when the reply to it arrives, and the second one waits under the same id. -/
def late : List Event :=
  [.push (buildIpcMsgId 2 1 7) 4, .send 0 true, .timeout 0, .pop 0, .push (buildIpcMsgId 2 1 7) 4, .send 1 true,
    .arrive (reply 0), .store, .post, .wake 1, .copy 1]

end Wow.Ipc
