import Wow.Modbus.Session

/-!
# Wow.Modbus.Late — a reply that comes when its call has returned

A call that times out leaves its reply, when it comes, on the link, and nothing takes it from there but the next
call, as the reply to its own request.

* `recovers_iff`: the runs in which every call whose reply is there in time succeeds.
* `late_blocks`: one late reply on the link, and every call after it fails.
-/

namespace Wow.Modbus

open Backend Master

/-! ### Replies in time -/

/-- The slave answered the call that waits with a normal reply, and the master reads on until it has it. -/
def InTime (s : Session) (sched : List Nat) (p : Pending) (sv : Served) : Prop :=
  p.call.Carried ∧ Steady sched ∧ ((Request.of s.master.ctx p.req).answer s.master.ctx sv.ctx).1.isOk = true

/-- A call whose reply is there in time succeeds. -/
def Recovers (s : Session) : Event → Prop
  | .receive sched => ∀ p ∈ s.pending, ∀ sv ∈ p.served, InTime s sched p sv →
      ∀ r ∈ (s.step (.receive sched)).2, r.ret = 0
  | _ => True

/-- The octets begin with a frame that passes for the reply to `req`. -/
def FrontPasses (b : Backend) (req up : List UInt8) : Prop :=
  let n := frameLength b .confirmation up
  n ≤ b.maxAduLength ∧ n ≤ up.length ∧ b.checkIntegrity (up.take n) = true
    ∧ ∃ k, checkConfirmation b req (up.take n) = some k ∧ 0 < k

/-- No octets are unread before a reply that is there in time, unless they happen to pass for it. -/
def Unblocked (s : Session) : Event → Prop
  | .receive sched => ∀ p ∈ s.pending, ∀ sv ∈ p.served, InTime s sched p sv →
      sv.pos = 0 ∨ FrontPasses s.master.ctx p.req s.up
  | _ => True

theorem frontPasses_of_frame {b : Backend} {req rsp : List UInt8} {k : Nat}
    (hlen : frameLength b .confirmation rsp = rsp.length) (hmax : rsp.length ≤ b.maxAduLength)
    (hok : b.checkIntegrity rsp = true) (hcheck : checkConfirmation b req rsp = some k) (hpos : 0 < k)
    (rest : List UInt8) : FrontPasses b req (rsp ++ rest) := by
  have hfl : frameLength b .confirmation (rsp ++ rest) = rsp.length := by
    rw [frameLength_append (Nat.le_of_eq hlen), hlen]
  unfold FrontPasses
  dsimp only
  rw [hfl, List.take_left]
  refine ⟨hmax, ?_, hok, k, hcheck, hpos⟩
  simp

/-- **What a call needs** to succeed when the octets are there: a frame at the front of the link that passes. -/
theorem confirm_eq_zero_iff {c : Call} {m : Master} {req up : List UInt8} {sched : List Nat} (hs : Steady sched) :
    (c.confirm m req sched up).1 = 0 ↔ FrontPasses m.ctx req up := by
  constructor
  · intro h
    obtain ⟨n, rsp, rest, hc⟩ := Call.taken_of_confirm h
    obtain ⟨hup, hlen, hmax, hok, hcheck, hpos⟩ := confirm_sound hc
    rw [hup]
    exact frontPasses_of_frame hlen hmax hok hcheck hpos rest
  · rintro ⟨hmax, hle, hok, k, hcheck, hpos⟩
    have hlen : (up.take (frameLength m.ctx .confirmation up)).length = frameLength m.ctx .confirmation up := by
      rw [List.length_take, Nat.min_eq_left hle]
    have hc := confirm_complete hs ((frameLength_take ..).trans hlen.symm) (by rwa [hlen]) hok hcheck hpos
      (up.drop (frameLength m.ctx .confirmation up))
    rw [List.take_append_drop] at hc
    rw [Call.confirm_of_taken hc]

/-- The slave's own reply passes. -/
theorem frontPasses_of_answered {s : Session} {p : Pending} {sv : Served} {sched : List Nat} (hi : p.Inv s)
    (hsv : p.served = some sv) (h : InTime s sched p sv) (hpos : sv.pos = 0) :
    FrontPasses s.master.ctx p.req s.up := by
  obtain ⟨hcar, -, hok⟩ := h
  obtain ⟨-, hturn, -, later, hlater⟩ := hi.answered hcar sv hsv
  rw [hpos, List.drop_zero] at hlater
  rcases hans : (Request.of s.master.ctx p.req).answer s.master.ctx sv.ctx with ⟨ret | reply, access⟩
  · rw [hans] at hok
    exact absurd hok Bool.false_ne_true
  · obtain ⟨n, ⟨⟨pdu, hreply, hsize, hmax⟩, hcheck, hn⟩, -⟩ := reply_of_ok hi.accepted hcar hi.req_eq hans
    have hsent : sv.turn.sent = reply := by
      rw [hturn, answering, modbusSReply_of_ok hans]
    rw [hlater, hsent]
    refine frontPasses_of_frame ?_ ?_ ?_ hcheck hn later
    · rw [hreply]
      exact frameLength_adu hsize ..
    · rwa [hreply, length_adu]
    · rw [hreply]
      exact checkIntegrity_adu ..

/-- One step. -/
theorem recovers_step {s : Session} (hi : s.Inv) (e : Event) : Recovers s e ↔ Unblocked s e := by
  cases e with
  | receive sched =>
    refine forall_congr' fun p => forall_congr' fun hp => forall_congr' fun sv => forall_congr' fun hsv =>
      forall_congr' fun h => ?_
    rw [Option.mem_def] at hp hsv
    have hret : (∀ r ∈ (s.step (.receive sched)).2, r.ret = 0) ↔ (p.call.confirm s.master p.req sched s.up).1 = 0 := by
      simp [Session.step, hp]
    rw [hret, confirm_eq_zero_iff h.2.1]
    exact ⟨Or.inr, fun hor => hor.elim (frontPasses_of_answered (hi p hp) hsv h) id⟩
  | request c => exact Iff.rfl
  | round ctx sched => exact Iff.rfl
  | foreign octets => exact Iff.rfl

instance (s : Session) (sched : List Nat) (p : Pending) (sv : Served) : Decidable (InTime s sched p sv) :=
  inferInstanceAs (Decidable (_ ∧ (_ ∧ _) ∧ _))

instance (s : Session) (e : Event) : Decidable (Recovers s e) :=
  match e with
  | .receive sched => inferInstanceAs (Decidable (∀ p ∈ s.pending, ∀ sv ∈ p.served, InTime s sched p sv →
      ∀ r ∈ (s.step (.receive sched)).2, r.ret = 0))
  | .request _ | .round _ _ | .foreign _ => inferInstanceAs (Decidable True)

/-- A call with the slave's turn and the wait for its reply, one after the other. -/
structure Exchange where
  call : Call
  ctx : SlaverDevCtx
  there : List Nat
  back : List Nat

namespace Exchange

def events (x : Exchange) : List Event := [.request x.call, .round x.ctx x.there, .receive x.back]

/-- What an exchange comes to, when nothing else is on the way to the slave. -/
theorem run_events {x : Exchange} {s : Session} {m : Master} {req : List UInt8} {turn : Turn}
    (hpending : s.pending = none) (hdown : s.down = []) (hreq : x.call.request s.master = .ok (m, req))
    (hround : execRound m.ctx x.ctx x.there req = (turn, [])) :
    ∃ served, run Session.step s x.events
      = (⟨m, [], (x.call.confirm m req x.back (s.up ++ turn.sent)).2.2, none⟩,
          [⟨x.call, req, served, (x.call.confirm m req x.back (s.up ++ turn.sent)).1,
            (x.call.confirm m req x.back (s.up ++ turn.sent)).2.1⟩]) := by
  obtain ⟨master, down, up, pending⟩ := s
  dsimp only at hpending hdown hreq ⊢
  subst hpending hdown
  simp only [events, run, Session.step, hreq, List.nil_append, List.append_nil, hround, Option.map_some,
    Pending.call_watch, Pending.req_watch]
  exact ⟨_, rfl⟩

/-- A call within the limits, callbacks that succeed, and both directions in time. -/
structure Correct (x : Exchange) : Prop where
  slave : 0 < x.call.args.nSlave ∧ x.call.args.nSlave ≤ 247
  function : match x.call with
    | .read a => IsRead a.eAfn
    | .write a => IsWrite a.eAfn
  addr : x.call.args.u32Addr.toNat < 65536
  limits : WithinLimits x.call.args.eAfn x.call.args.u32Size.toNat
  get : ∀ slave afn addr len, (x.ctx.getAfnAddrVal slave afn addr len).1 = 0
  set : ∀ slave afn addr data len, x.ctx.setAfnAddrVal slave afn addr data len = 0
  there : Steady x.there
  back : Steady x.back

/-- Such a call sends its request, and the slave's reply to it is a normal one. -/
theorem Correct.answered {x : Exchange} (h : x.Correct) (m : Master) :
    x.call.Accepted ∧ x.call.Carried
      ∧ x.call.request m
        = .ok (m.next, m.ctx.adu m.next.tId.toNat (UInt8.ofNat x.call.args.nSlave.toNat) x.call.pdu)
      ∧ ∃ reply access, (Request.of m.ctx
          (m.ctx.adu m.next.tId.toNat (UInt8.ofNat x.call.args.nSlave.toNat) x.call.pdu)).answer m.ctx x.ctx
        = (.ok reply, access) := by
  obtain ⟨c, ctx, there, back⟩ := x
  obtain ⟨hs, hfun, haddr, hlim, hget, hset, -, -⟩ := h
  dsimp only at hs hfun haddr hlim hget hset ⊢
  cases c with
  | read a =>
    obtain ⟨-, -, -, hnb⟩ := valueBytes_lt hfun hlim
    have hacc : ReadAccepted a.nSlave a.eAfn a.u32Size.toNat := by
      refine ⟨hs, ?_⟩
      revert hlim
      dsimp only [Call.args] at hfun ⊢
      rcases hfun with h | h | h | h <;> rw [h] <;> exact And.right
    obtain ⟨-, -, hreq⟩ := @readRequest_of_accepted a.eAfn m a.nSlave a.u32Addr a.u32Size hacc
    have hans := answer_read m.ctx m.next.tId (UInt8.ofNat a.nSlave.toNat) a.u32Addr.toNat [] ctx hfun hnb
    dsimp only [Call.args] at hans hlim
    simp only [if_pos ((withinLimits_read hfun).1 hlim), hget, if_true] at hans
    exact ⟨hacc, ⟨haddr, trivial⟩, by rw [Call.request, hreq, request_eq]; rfl, _, _, hans⟩
  | write a =>
    have hs : 0 < a.nSlave ∧ a.nSlave ≤ 247 := hs
    obtain ⟨-, -, -, hfit, htaken⟩ := withinLimits_write hfun hlim
    obtain ⟨ptr, l, -, -, hans⟩ := answer_write m.ctx m.next.tId (UInt8.ofNat a.nSlave.toNat) a.u32Addr.toNat ctx hfun
      hfit a.pu8Data
    dsimp only [Call.args] at hans htaken
    simp only [if_pos htaken, hset, if_true] at hans
    refine ⟨⟨hs, hfun⟩, ⟨haddr, hfit⟩, ?_, _, _, hans⟩
    rw [Call.request, writeRequest_eq m hs a.u32Addr a.u32Size a.pu8Data hfun, request_eq]
    rfl

end Exchange

/-- One reply of an earlier request on the link, and nothing else. -/
structure Late (s : Session) : Prop where
  ctx_eq : s.master.ctx = tcp
  idle : s.pending = none
  down : s.down = []
  up : ∃ (tId : UInt16) (slave : UInt8) (pdu : List UInt8), s.up = Backend.adu .tcp tId.toNat slave pdu
    ∧ WellSized .confirmation pdu ∧ 7 + pdu.length ≤ 260 ∧ tId ≠ Tcp.nextTId s.master.tId

theorem nextTId_ne (tId : UInt16) : tId ≠ Tcp.nextTId tId := by
  intro h
  have hlt := tId.toNat_lt
  have h' := congrArg UInt16.toNat h
  unfold Tcp.nextTId at h'
  split at h'
  · rw [UInt16.toNat_add] at h'
    simp at h'
    omega
  · rename_i hmax
    rw [UInt16.lt_iff_toNat_lt, h'] at hmax
    exact hmax (by decide)

/-- A reply with the transaction id of another request is not taken. -/
theorem checkConfirmation_late {tId tId' : UInt16} (hne : tId ≠ tId') (slave slave' : UInt8) (pdu pdu' : List UInt8) :
    checkConfirmation .tcp (Backend.adu .tcp tId'.toNat slave' pdu')
    (Backend.adu .tcp tId.toNat slave pdu) = none := by
  cases hc : checkConfirmation .tcp (Backend.adu .tcp tId'.toNat slave' pdu') (Backend.adu .tcp tId.toNat slave pdu) with
  | none => rfl
  | some n =>
    have hlt := tId.toNat_lt
    have hid := ((checkConfirmation_adu_iff ..).1 (checkConfirmation_eq_some.1 hc).2.1).2.1
    have hword : word (Backend.adu .tcp tId.toNat slave pdu) 0 = tId.toNat % 65536 := by
      simp only [adu, List.append_assoc, word_be16]
    exact absurd (UInt16.toNat_inj.1 (by omega)) hne

/-- **The late reply is taken for the next one**: the call fails, and its own reply is the late one from then on. -/
theorem late_step {s : Session} {x : Exchange} (h : Late s) (hx : x.Correct) :
    Late (run Session.step s x.events).1 ∧ ∀ r ∈ (run Session.step s x.events).2, r.ret = -1 := by
  obtain ⟨hctx, hidle, hdown, tId, slave, pdu, hup, hsize, hmax, hne⟩ := h
  obtain ⟨hacc, hcar, hreq, reply, access, hans⟩ := hx.answered s.master
  obtain ⟨-, ⟨⟨pdu', hreply, hsize', hmax'⟩, -, -⟩, -⟩ :=
    @reply_of_ok x.ctx s.master.next x.call _ reply access hacc hcar rfl hans
  have hround := execRound_adu x.ctx (Call.wellSized_pdu hacc hcar) (Call.fits_pdu s.master.ctx hacc hcar)
    (receive_adu_ne_timeout (Call.wellSized_pdu hacc hcar) (Call.fits_pdu s.master.ctx hacc hcar) hx.there
      s.master.next.tId.toNat (UInt8.ofNat x.call.args.nSlave.toNat) [])
  rw [List.append_nil, answering, modbusSReply_of_ok hans] at hround
  obtain ⟨sched', hmsg⟩ := receive_adu (b := tcp) hsize hmax
    (receive_adu_ne_timeout (b := tcp) hsize hmax hx.back tId.toNat slave reply)
  have hid : s.master.next.tId = Tcp.nextTId s.master.tId := by
    rw [Master.next, hctx]
    rfl
  have hconf : s.master.next.confirm (s.master.ctx.adu s.master.next.tId.toNat
      (UInt8.ofNat x.call.args.nSlave.toNat) x.call.pdu) x.back (s.up ++ reply) = (none, reply) := by
    unfold Master.confirm receiveMsg
    rw [show s.master.next.ctx = tcp from hctx, hctx, hid, hup, hmsg]
    simp only [checkIntegrity_adu, if_true, checkConfirmation_late hne]
  obtain ⟨served, hrun⟩ := Exchange.run_events hidle hdown hreq hround
  rw [hrun, Call.confirm_of_failed hconf]
  refine ⟨⟨hctx, rfl, rfl, s.master.next.tId, UInt8.ofNat x.call.args.nSlave.toNat, pdu', ?_, hsize', ?_, ?_⟩, ?_⟩
  · rw [← hctx]
    exact hreply
  · rw [show s.master.next.ctx = tcp from hctx] at hmax'
    exact hmax'
  · exact nextTId_ne _
  · intro r hr
    rw [List.mem_singleton] at hr
    rw [hr]

/-- **One late reply, and every call after it fails**, although its own reply is there in time. -/
theorem late_blocks {s : Session} (h : Late s) {xs : List Exchange} (hxs : ∀ x ∈ xs, x.Correct) :
    ∀ r ∈ (run Session.step s (xs.flatMap Exchange.events)).2, r.ret = -1 := by
  induction xs generalizing s with
  | nil => exact List.forall_mem_nil _
  | cons x xs ih =>
    obtain ⟨hlate, hret⟩ := late_step h (hxs x List.mem_cons_self)
    rw [List.flatMap_cons, run_append, List.forall_mem_append]
    exact ⟨hret, ih hlate fun y hy => hxs y (List.mem_cons_of_mem _ hy)⟩

end Wow.Modbus
