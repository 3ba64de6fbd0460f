import Wow.Lib.Monitor
import Wow.Modbus.Confirm
import Wow.Modbus.Replies

/-!
# Wow.Modbus.Session — a master, a slave and the two directions of their link

The octets on the way from the master to the slave and back are two streams.  A call of the master sends its
request and ends when it has read a reply or run out of tries; the slave takes its turns in between, or later.
Beside the two stations a session remembers, of the pending call, what became of its request.

* `Session.step`: the requests, the slave's turns, octets from elsewhere, and the ends of the calls.
* `Session.Inv`: of the pending call, where its request is or what the slave made of it.
* `calls_right`: runs in which every success is the work of the very request.
-/

namespace Wow.Modbus

open Backend Master

/-! ### Calls -/

/-- What a call is given. -/
structure CallArgs where
  nSlave : Int
  eAfn : FunctionMode
  u32Addr : UInt32
  u32Size : UInt32
  pu8Data : Mem

/-- A call of the master. -/
inductive Call
  | read (a : CallArgs)
  | write (a : CallArgs)

namespace Call

def args : Call → CallArgs
  | read a => a
  | write a => a

/-- The call up to `link_send`. -/
def request (m : Master) : Call → Except Int (Master × List UInt8)
  | read a => m.readRequest a.nSlave a.eAfn a.u32Addr a.u32Size
  | write a => m.writeRequest a.nSlave a.eAfn a.u32Addr a.u32Size a.pu8Data

/-- The call from the sent request on: what it returns, the caller's data, the rest of the link. -/
def confirm (m : Master) (req : List UInt8) (sched : List Nat) (up : List UInt8) : Call → Int × Mem × List UInt8
  | read a => m.readConfirm req sched up a.pu8Data
  | write a =>
    let done := m.writeConfirm req sched up
    (done.1, a.pu8Data, done.2)

/-- The caller's data once the reply `rsp` with `n` octets of values was taken. -/
def copied (b : Backend) (n : Nat) (rsp : List UInt8) : Call → Mem
  | read a => a.pu8Data.fill ((rsp.drop (b.headerLength + 2)).take n)
  | write a => a.pu8Data

/-- The number in the request. -/
def nb : Call → Nat
  | read a => a.u32Size.toNat
  | write a => writeNb a.eAfn a.u32Size a.pu8Data

/-- What stands behind it. -/
def body : Call → List UInt8
  | read _ => []
  | write a => writeBody a.eAfn a.u32Size a.pu8Data

/-- The function code and the body of the request. -/
def pdu (c : Call) : List UInt8 := requestPdu c.args.eAfn c.args.u32Addr.toNat c.nb c.body

/-- A call that sends a request. -/
def Accepted : Call → Prop
  | read a => ReadAccepted a.nSlave a.eAfn a.u32Size.toNat
  | write a => WriteAccepted a.nSlave a.eAfn

/-- A call whose address and data a request has room for. -/
def Carried (c : Call) : Prop :=
  c.args.u32Addr.toNat < 65536 ∧ match c with
    | read _ => True
    | write a => WriteFits a.eAfn a.u32Size.toNat

instance (c : Call) : Decidable c.Carried :=
  match c with
  | read a => inferInstanceAs (Decidable (a.u32Addr.toNat < 65536 ∧ True))
  | write a => inferInstanceAs (Decidable (a.u32Addr.toNat < 65536 ∧ WriteFits a.eAfn a.u32Size.toNat))

/-- The call is the function of the code in two parts. -/
theorem readData_eq (m : Master) (a : CallArgs) (link : Link) :
    m.readData a.nSlave a.eAfn a.u32Addr a.u32Size a.pu8Data link
      = match (read a).request m with
        | .error ret => (m, ret, a.pu8Data, link.up)
        | .ok (m', req) =>
          if link.send req = req.length then (m', (read a).confirm m' req link.sched link.up)
          else (m', -2, a.pu8Data, link.up) := rfl

theorem writeData_eq (m : Master) (a : CallArgs) (link : Link) :
    m.writeData a.nSlave a.eAfn a.u32Addr a.u32Size a.pu8Data link
      = match (write a).request m with
        | .error ret => (m, ret, link.up)
        | .ok (m', req) =>
          if link.send req = req.length then
            (m', ((write a).confirm m' req link.sched link.up).1, ((write a).confirm m' req link.sched link.up).2.2)
          else (m', -1, link.up) := rfl

variable {c : Call} {m m' : Master} {req : List UInt8} {ret : Int}

/-- **What a request is** when the call sends one. -/
theorem request_eq_ok (h : c.request m = .ok (m', req)) :
    c.Accepted ∧ m' = m.next ∧ req = m.ctx.adu m.next.tId.toNat (UInt8.ofNat c.args.nSlave.toNat) c.pdu := by
  cases c with
  | read a =>
    by_cases hacc : ReadAccepted a.nSlave a.eAfn a.u32Size.toNat
    · obtain ⟨-, -, hreq⟩ := @readRequest_of_accepted a.eAfn m a.nSlave a.u32Addr a.u32Size hacc
      rw [request, hreq, request_eq] at h
      cases h
      exact ⟨hacc, rfl, rfl⟩
    · exact absurd h (readRequest_of_not_accepted m m' hacc)
  | write a =>
    by_cases hacc : WriteAccepted a.nSlave a.eAfn
    · rw [request, writeRequest_eq m hacc.1 a.u32Addr a.u32Size a.pu8Data hacc.2, request_eq] at h
      cases h
      exact ⟨hacc, rfl, rfl⟩
    · exact absurd h (writeRequest_of_not_accepted m m' hacc)

/-- An early return is not a success. -/
theorem request_error (h : c.request m = .error ret) : ret ≠ 0 := by
  cases c with
  | read a => exact readRequest_error h
  | write a => exact writeRequest_error h

/-- A request that is sent has the length that its function code announces. -/
theorem wellSized_pdu (hacc : c.Accepted) (hcar : c.Carried) : WellSized .indication c.pdu := by
  cases c with
  | read a =>
    obtain ⟨hread, -, -⟩ := @readRequest_of_accepted a.eAfn ⟨.rtu, 0⟩ a.nSlave a.u32Addr a.u32Size hacc
    exact wellSized_requestPdu (isBody_nil hread) ..
  | write a => exact wellSized_requestPdu (write_bounds hacc.2 hcar.2 a.pu8Data).2.2 ..

/-- It fits the context. -/
theorem fits_pdu (b : Backend) (hacc : c.Accepted) (hcar : c.Carried) :
    b.headerLength + c.pdu.length + b.checksumLength ≤ b.maxAduLength := by
  cases c with
  | read a => exact fits_requestPdu ..
  | write a => exact fits_write b hacc.2 hcar.2 a.pu8Data _

/-- A call that takes a reply succeeds. -/
theorem confirm_of_taken {sched : List Nat} {up rsp rest : List UInt8} {n : Nat}
    (h : m.confirm req sched up = (some (n, rsp), rest)) :
    c.confirm m req sched up = (0, c.copied m.ctx n rsp, rest) := by
  cases c <;> simp only [confirm, readConfirm, writeConfirm, h, copied]

theorem confirm_of_failed {sched : List Nat} {up rest : List UInt8} (h : m.confirm req sched up = (none, rest)) :
    c.confirm m req sched up = (-1, c.args.pu8Data, rest) := by
  cases c <;> simp only [confirm, readConfirm, writeConfirm, h, args]

/-- A call that succeeds has taken a reply. -/
theorem taken_of_confirm {sched : List Nat} {up : List UInt8} (h : (c.confirm m req sched up).1 = 0) :
    ∃ n rsp rest, m.confirm req sched up = (some (n, rsp), rest) := by
  rcases hc : m.confirm req sched up with ⟨_ | ⟨n, rsp⟩, rest⟩
  · rw [confirm_of_failed hc] at h
    exact absurd (show (-1 : Int) = 0 from h) (by decide)
  · exact ⟨n, rsp, rest, rfl⟩

end Call

/-! ### Sessions -/

/-- What the slave made of a request: its turn, with its callbacks, and what was on the way to the master then. -/
structure Served where
  ctx : SlaverDevCtx
  turn : Turn
  pos : Nat

/-- A call that waits for its reply: `ahead` is what the slave has to read before its request, unless it has
read into it. -/
structure Pending where
  call : Call
  req : List UInt8
  ahead : Option Nat
  served : Option Served

/-- The two stations and their link. -/
structure Session where
  master : Master
  down : List UInt8
  up : List UInt8
  pending : Option Pending

/-- What a call returned, and what the slave had made of its request. -/
structure Report where
  call : Call
  req : List UInt8
  served : Option Served
  ret : Int
  data : Mem

/-- A request of the master, a turn of the slave, octets from elsewhere, the wait for a reply. -/
inductive Event
  | request (c : Call)
  | round (ctx : SlaverDevCtx) (sched : List Nat)
  | foreign (octets : List UInt8)
  | receive (sched : List Nat)

/-- A turn of the slave that read `n` octets, with `pos` octets on the way to the master. -/
def Pending.watch (p : Pending) (ctx : SlaverDevCtx) (t : Turn) (n pos : Nat) : Pending :=
  if p.served.isNone ∧ p.ahead = some 0 ∧ t.seen.isSome then { p with served := some ⟨ctx, t, pos⟩ }
  else { p with ahead := p.ahead.bind fun k => if n ≤ k then some (k - n) else none }

@[simp] theorem Pending.call_watch (p : Pending) (ctx : SlaverDevCtx) (t : Turn) (n pos : Nat) :
    (p.watch ctx t n pos).call = p.call := by
  unfold watch
  split <;> rfl

@[simp] theorem Pending.req_watch (p : Pending) (ctx : SlaverDevCtx) (t : Turn) (n pos : Nat) :
    (p.watch ctx t n pos).req = p.req := by
  unfold watch
  split <;> rfl

namespace Session

/-- Nothing on the link, no call pending. -/
def start (m : Master) : Session := ⟨m, [], [], none⟩

def step (s : Session) : Event → Session × List Report
  | .request c =>
    match s.pending with
    | some _ => (s, [])
    | none =>
      match c.request s.master with
      | .error ret => (s, [⟨c, [], none, ret, c.args.pu8Data⟩])
      | .ok (m, req) =>
        ({ s with master := m, down := s.down ++ req, pending := some ⟨c, req, some s.down.length, none⟩ }, [])
  | .round ctx sched =>
    let done := execRound s.master.ctx ctx sched s.down
    ({ s with
        down := done.2
        up := s.up ++ done.1.sent
        pending := s.pending.map fun p => p.watch ctx done.1 (s.down.length - done.2.length) s.up.length }, [])
  | .foreign octets => ({ s with up := s.up ++ octets }, [])
  | .receive sched =>
    match s.pending with
    | none => (s, [])
    | some p =>
      let done := p.call.confirm s.master p.req sched s.up
      ({ s with up := done.2.2, pending := none }, [⟨p.call, p.req, p.served, done.1, done.2.1⟩])

end Session

/-- What the slave did is what the call asked for, and the caller has what the slave gave. -/
def Executed (sv : Served) (data : Mem) : Call → Prop
  | .read a => ∃ ad l, sv.turn.access = some (.get a.nSlave.toNat a.eAfn.code ad l)
      ∧ ad.toNat = a.u32Addr.toNat ∧ l.toNat = a.u32Size.toNat
      ∧ (sv.ctx.getAfnAddrVal a.nSlave.toNat a.eAfn.code ad l).1 = 0
      ∧ data = a.pu8Data.fill ((sv.ctx.getAfnAddrVal a.nSlave.toNat a.eAfn.code ad l).2.slice 0
          (valueBytes a.eAfn a.u32Size.toNat))
  | .write a => ∃ ad l ptr, sv.turn.access = some (.set a.nSlave.toNat a.eAfn.code ad ptr l)
      ∧ ad.toNat = a.u32Addr.toNat ∧ (IsMultiple a.eAfn = true → l.toNat = a.u32Size.toNat)
      ∧ sv.ctx.setAfnAddrVal a.nSlave.toNat a.eAfn.code ad ptr l = 0
      ∧ ptr.slice 0 (writtenOctets a.eAfn a.u32Size.toNat a.pu8Data).length
        = writtenOctets a.eAfn a.u32Size.toNat a.pu8Data

/-- A success means that the slave took this very request and did what it asks for. -/
def Report.Right (r : Report) : Prop :=
  r.ret = 0 → ∃ sv, r.served = some sv ∧ sv.turn.seen = some r.req ∧ Executed sv r.data r.call

/-- The octets begin with a frame that the master takes for the reply to `req`. -/
def Takes (b : Backend) (req up : List UInt8) : Prop :=
  let rsp := up.take (frameLength b .confirmation up)
  b.checkIntegrity rsp = true ∧ checkConfirmation b req rsp ≠ none

/-- When the octets at the front of the link would be taken for the reply to the call that waits, they are the
slave's reply to its request, and the request had room for what the call was given. -/
def Unambiguous (s : Session) : Event → Prop
  | .receive _ => ∀ p, s.pending = some p → Takes s.master.ctx p.req s.up →
      p.call.Carried ∧ ∃ sv, p.served = some sv ∧ sv.turn.sent ≠ [] ∧ sv.pos = 0
  | _ => True

/-! ### What the slave made of a request -/

variable {b : Backend} {ctx : SlaverDevCtx}

/-- A reply that the master may take carries the function code of the request: it is no exception. -/
theorem answer_of_taken {req rsp up' later : List UInt8} (hne : (modbusSReply b ctx req).1 ≠ [])
    (hup : (modbusSReply b ctx req).1 ++ later = rsp ++ up')
    (hlen : frameLength b .confirmation rsp = rsp.length)
    (hcode : octet rsp b.headerLength = octet req b.headerLength) :
    ∃ reply access, (Request.of b req).answer b ctx = (.ok reply, access) := by
  rcases hans : (Request.of b req).answer b ctx with ⟨ret | reply, access⟩
  · exfalso
    rw [modbusSReply_of_error hans] at hne hup
    dsimp only at hne hup
    split at hne
    · exact hne rfl
    · rename_i hret
      rw [if_neg hret, sendMsgPre_exception] at hup
      have hfun := congrArg (fun l => octet l b.headerLength) hup
      have hlt : b.headerLength < rsp.length := by
        rw [← hlen]
        unfold frameLength prefixLength
        omega
      rw [octet_append_left (by rw [length_adu]; simp; omega), octet_adu_code, octet_append_left hlt, hcode] at hfun
      have hf := octet_lt req b.headerLength
      simp at hfun
      omega
  · exact ⟨reply, access, rfl⟩

/-- A frame that the master takes for the reply to a call, and the number it reads from it. -/
structure IsReply (m : Master) (c : Call) (req reply : List UInt8) (n : Nat) : Prop where
  framed : ∃ pdu, reply = m.ctx.adu m.tId.toNat (UInt8.ofNat c.args.nSlave.toNat) pdu ∧ WellSized .confirmation pdu
    ∧ m.ctx.headerLength + pdu.length + m.ctx.checksumLength ≤ m.ctx.maxAduLength
  checks : checkConfirmation m.ctx req reply = some n
  pos : 0 < n

variable {m : Master} {a : CallArgs} {c : Call} {req reply : List UInt8} {access : Option Access}

/-- **A normal reply to a read** is taken, and has what the callback gave. -/
theorem reply_read (hacc : (Call.read a).Accepted) (hcar : (Call.read a).Carried)
    (hreq : req = m.ctx.adu m.tId.toNat (UInt8.ofNat a.nSlave.toNat) (Call.read a).pdu)
    (hans : (Request.of m.ctx req).answer m.ctx ctx = (.ok reply, access)) :
    ∃ n, IsReply m (.read a) req reply n
      ∧ ∀ pos, Executed ⟨ctx, answering m.ctx ctx req, pos⟩ ((Call.read a).copied m.ctx n reply) (.read a) := by
  obtain ⟨hread, hsize, -⟩ := @readRequest_of_accepted a.eAfn m a.nSlave a.u32Addr a.u32Size hacc
  have hnb : a.u32Size.toNat < 65536 := by
    unfold maxReadBits at hsize
    omega
  have haddr : a.u32Addr.toNat < 65536 := hcar.1
  have hslave := slave_toNat hacc.1
  have hanswer := answer_read m.ctx m.tId (UInt8.ofNat a.nSlave.toNat) a.u32Addr.toNat [] ctx hread hnb
  rw [show requestPdu a.eAfn a.u32Addr.toNat a.u32Size.toNat [] = (Call.read a).pdu from rfl, ← hreq, hans, hslave]
    at hanswer
  dsimp only at hanswer
  split at hanswer
  · rename_i hlim
    obtain ⟨hreply, rfl⟩ := Prod.mk.inj hanswer
    split at hreply
    · rename_i hret
      have hreply := Except.ok.inj hreply
      have hlim := (withinLimits_read hread).2 hlim
      obtain ⟨hpos, h251, -, -⟩ := valueBytes_lt hread hlim
      generalize hv : (ctx.getAfnAddrVal a.nSlave.toNat a.eAfn.code (UInt16.ofNat a.u32Addr.toNat)
        (UInt16.ofNat a.u32Size.toNat)).2.slice 0 (valueBytes a.eAfn a.u32Size.toNat) = values at hreply
      have hvalues : values.length = valueBytes a.eAfn a.u32Size.toNat := by rw [← hv, Mem.length_slice]
      rw [← hvalues] at hreply
      refine ⟨valueBytes a.eAfn a.u32Size.toNat, ⟨?_, ?_, hpos⟩, fun pos => ?_⟩
      · exact ⟨_, hreply, wellSized_reply_read hread (by omega), fits_reply_read _ _ (by omega)⟩
      · rw [hreq, hreply]
        exact checkConfirmation_reply_read a.u32Addr.toNat [] hread hlim hvalues
      · refine ⟨_, _, ?_, by simp; omega, by simp; omega, hret, ?_⟩
        · simp only [answering, modbusSReply_of_ok hans]
        · rw [Call.copied, hreply, ← hvalues, values_adu, hvalues]
          exact congrArg _ hv.symm
    · cases hreply
  · cases hanswer

/-- **A normal reply to a write** is taken, and the slave carried it out. -/
theorem reply_write (hacc : (Call.write a).Accepted) (hcar : (Call.write a).Carried)
    (hreq : req = m.ctx.adu m.tId.toNat (UInt8.ofNat a.nSlave.toNat) (Call.write a).pdu)
    (hans : (Request.of m.ctx req).answer m.ctx ctx = (.ok reply, access)) :
    ∃ n, IsReply m (.write a) req reply n
      ∧ ∀ pos, Executed ⟨ctx, answering m.ctx ctx req, pos⟩ ((Call.write a).copied m.ctx n reply) (.write a) := by
  obtain ⟨haddr, hfit⟩ : a.u32Addr.toNat < 65536 ∧ WriteFits a.eAfn a.u32Size.toNat := hcar
  obtain ⟨hs, hwrite⟩ := id hacc
  have hslave := slave_toNat hs
  obtain ⟨ptr, l, hptr, hl, hanswer⟩ := answer_write m.ctx m.tId (UInt8.ofNat a.nSlave.toNat) a.u32Addr.toNat ctx hwrite
    hfit a.pu8Data
  rw [show requestPdu a.eAfn a.u32Addr.toNat (writeNb a.eAfn a.u32Size a.pu8Data) (writeBody a.eAfn a.u32Size a.pu8Data)
    = (Call.write a).pdu from rfl, ← hreq, hans, hslave] at hanswer
  dsimp only at hanswer
  split at hanswer
  · rename_i htaken
    obtain ⟨hreply, rfl⟩ := Prod.mk.inj hanswer
    split at hreply
    · rename_i hret
      have hreply := Except.ok.inj hreply
      obtain ⟨n, hn, hpos⟩ := confirmNb_pos hwrite (fun hmul => (htaken hmul).1) a.pu8Data
      refine ⟨n, ⟨⟨_, hreply, wellSized_reply_write hwrite .., fits_requestPdu ..⟩, ?_, hpos⟩, fun pos => ?_⟩
      · rw [hreq, hreply]
        exact checkConfirmation_write _ hn (write_bounds hwrite hfit a.pu8Data).1
      · refine ⟨_, l, ptr, ?_, by simp; omega, ?_, hret, hptr⟩
        · simp only [answering, modbusSReply_of_ok hans]
        · intro hmul
          have hmax : sizeLimit a.eAfn < 65536 := by cases a.eAfn <;> decide
          have := (htaken hmul).2
          rw [hl, if_pos hmul]
          simp
          omega
    · cases hreply
  · cases hanswer

theorem reply_of_ok (hacc : c.Accepted) (hcar : c.Carried)
    (hreq : req = m.ctx.adu m.tId.toNat (UInt8.ofNat c.args.nSlave.toNat) c.pdu)
    (hans : (Request.of m.ctx req).answer m.ctx ctx = (.ok reply, access)) :
    ∃ n, IsReply m c req reply n
      ∧ ∀ pos, Executed ⟨ctx, answering m.ctx ctx req, pos⟩ (c.copied m.ctx n reply) c := by
  cases c with
  | read a => exact reply_read hacc hcar hreq hans
  | write a => exact reply_write hacc hcar hreq hans

/-- **A success on the slave's own reply** is the work of the request. -/
theorem executed_of_confirm {rsp up' later : List UInt8} {sched : List Nat} {n : Nat} (hacc : c.Accepted)
    (hcar : c.Carried) (hreq : req = m.ctx.adu m.tId.toNat (UInt8.ofNat c.args.nSlave.toNat) c.pdu)
    (hne : (modbusSReply m.ctx ctx req).1 ≠ [])
    (hc : m.confirm req sched ((modbusSReply m.ctx ctx req).1 ++ later) = (some (n, rsp), up')) (pos : Nat) :
    Executed ⟨ctx, answering m.ctx ctx req, pos⟩ (c.copied m.ctx n rsp) c := by
  obtain ⟨hup, hlen, -, -, hcheck, -⟩ := confirm_sound hc
  obtain ⟨reply, access, hans⟩ := answer_of_taken hne hup hlen (checkConfirmation_eq_some.1 hcheck).1
  obtain ⟨n', ⟨⟨pdu, hreply, hsize, -⟩, hcheck', -⟩, hdone⟩ := reply_of_ok hacc hcar hreq hans
  rw [modbusSReply_of_ok hans] at hup
  have hfirst : frameLength m.ctx .confirmation reply = reply.length := by
    rw [hreply]
    exact frameLength_adu hsize ..
  obtain ⟨rfl, -⟩ := frame_unique hfirst hlen hup
  rw [hcheck'] at hcheck
  obtain rfl := Option.some.inj hcheck
  exact hdone pos

/-! ### The run -/

/-- What is known of the call that waits: its request is the last on the way to the slave, or the slave answered it
and the answer is on the way back. -/
structure Pending.Inv (s : Session) (p : Pending) : Prop where
  accepted : p.call.Accepted
  req_eq : p.req = s.master.ctx.adu s.master.tId.toNat (UInt8.ofNat p.call.args.nSlave.toNat) p.call.pdu
  waits : p.served = none → ∀ k, p.ahead = some k → s.down.drop k = p.req
  answered : p.call.Carried → ∀ sv, p.served = some sv → s.down = [] ∧ sv.turn = answering s.master.ctx sv.ctx p.req
    ∧ sv.pos ≤ s.up.length ∧ ∃ later, s.up.drop sv.pos = sv.turn.sent ++ later

/-- The invariant of a session. -/
def Session.Inv (s : Session) : Prop := ∀ p, s.pending = some p → p.Inv s

theorem Session.inv_start (m : Master) : (Session.start m).Inv := fun _ h => by cases h

/-- The request of a call is a frame for the slave. -/
theorem Pending.Inv.frameLength_req {s : Session} {p : Pending} (h : p.Inv s) (hcar : p.call.Carried) :
    frameLength s.master.ctx .indication p.req = p.req.length := by
  rw [h.req_eq]
  exact frameLength_adu (Call.wellSized_pdu h.accepted hcar) ..

/-- A request is sent when no call waits. -/
theorem Session.inv_request {s : Session} {c : Call} (hi : s.Inv) :
    (s.step (.request c)).1.Inv ∧ ∀ r ∈ (s.step (.request c)).2, r.Right := by
  unfold step
  cases hp : s.pending with
  | some p => exact ⟨hi, List.forall_mem_nil _⟩
  | none =>
    dsimp only
    cases hreq : c.request s.master with
    | error ret =>
      refine ⟨hi, fun r hr => ?_⟩
      rw [List.mem_singleton] at hr
      subst hr
      exact fun h0 => absurd h0 (Call.request_error hreq)
    | ok sent =>
      obtain ⟨m', req⟩ := sent
      obtain ⟨hacc, rfl, rfl⟩ := Call.request_eq_ok hreq
      refine ⟨?_, List.forall_mem_nil _⟩
      intro p h
      cases h
      refine ⟨hacc, rfl, ?_, fun _ _ h => by cases h⟩
      intro _ k hk
      cases hk
      exact List.drop_left ..

/-- **A turn of the slave** keeps what is known of the call that waits. -/
theorem Pending.inv_round {s : Session} {p : Pending} (hi : p.Inv s) (ctx : SlaverDevCtx) (sched : List Nat) :
    let done := execRound s.master.ctx ctx sched s.down
    (p.watch ctx done.1 (s.down.length - done.2.length) s.up.length).Inv
      { s with
        down := done.2
        up := s.up ++ done.1.sent
        pending := some (p.watch ctx done.1 (s.down.length - done.2.length) s.up.length) } := by
  intro done
  have hsuffix : done.2 <:+ s.down := execRound_suffix ..
  unfold watch
  split
  · rename_i hnow
    obtain ⟨hun, hahead, hseen⟩ := hnow
    have hdown : s.down = p.req := hi.waits (Option.isNone_iff_eq_none.1 hun) 0 hahead
    obtain ⟨msg, hmsg⟩ := Option.isSome_iff_exists.1 hseen
    obtain ⟨hturn, hup, hlen⟩ := execRound_of_seen hmsg
    refine ⟨hi.accepted, hi.req_eq, (fun h => by cases h), ?_⟩
    intro hcar sv h
    cases h
    have hone : p.req = msg ∧ [] = done.2 := by
      refine frame_unique (hi.frameLength_req hcar) hlen ?_
      rw [List.append_nil, ← hdown]
      exact hup
    refine ⟨hone.2.symm, ?_, ?_, [], ?_⟩
    · rw [hone.1]
      exact hturn
    · simp
    · simp
  · refine ⟨hi.accepted, hi.req_eq, ?_, ?_⟩
    · intro hun k hk
      dsimp only at hk ⊢
      obtain ⟨j, hj, hk⟩ := Option.bind_eq_some_iff.1 hk
      have hrest := List.suffix_iff_eq_drop.1 hsuffix
      generalize s.down.length - done.2.length = n at hk hrest
      split at hk
      · rename_i hle
        cases hk
        rw [hrest, List.drop_drop, Nat.add_sub_cancel' hle]
        exact hi.waits hun j hj
      · cases hk
    · intro hcar sv hsv
      obtain ⟨hdown, hturn, hpos, later, hlater⟩ := hi.answered hcar sv hsv
      have hrest : done.2 = [] := by
        rw [hdown] at hsuffix
        exact List.suffix_nil.1 hsuffix
      refine ⟨hrest, hturn, ?_, later ++ done.1.sent, ?_⟩
      · simp
        omega
      · dsimp only
        rw [List.drop_append_of_le_length hpos, hlater, List.append_assoc]

/-- **A call that returns** has what the slave made of its request. -/
theorem Session.right_of_receive {s : Session} {sched : List Nat} (hi : s.Inv) (hq : Unambiguous s (.receive sched)) :
    ∀ r ∈ (s.step (.receive sched)).2, r.Right := by
  unfold step
  cases hp : s.pending with
  | none => exact List.forall_mem_nil _
  | some p =>
    intro r hr
    rw [List.mem_singleton] at hr
    subst hr
    intro h0
    obtain ⟨n, rsp, rest, hc⟩ := Call.taken_of_confirm h0
    obtain ⟨hup, hlen, -, hok, hcheck, -⟩ := confirm_sound hc
    have htake : s.up.take (frameLength s.master.ctx .confirmation s.up) = rsp := by
      rw [hup, frameLength_append (Nat.le_of_eq hlen), hlen, List.take_left]
    obtain ⟨hcar, sv, hsv, hne, hpos⟩ := hq p hp (by
      rw [Takes, htake]
      exact ⟨hok, by rw [hcheck]; exact Option.some_ne_none _⟩)
    have hinv := hi p hp
    obtain ⟨-, hturn, -, later, hlater⟩ := hinv.answered hcar sv hsv
    rw [hpos, List.drop_zero] at hlater
    obtain ⟨ctx, turn, pos⟩ := sv
    dsimp only at hne hturn hlater
    subst hturn
    have hdone := Call.confirm_of_taken (c := p.call) hc
    refine ⟨_, hsv, rfl, ?_⟩
    dsimp only
    rw [hdone]
    rw [hlater] at hc
    exact executed_of_confirm hinv.accepted hcar hinv.req_eq hne hc _

/-- **One step of a session** keeps what is known of the call that waits. -/
theorem Session.inv_step (s : Session) (e : Event) (hi : s.Inv) : (s.step e).1.Inv := by
  cases e with
  | request c => exact (inv_request hi).1
  | round ctx sched =>
    intro p h
    obtain ⟨p', hp', rfl⟩ := Option.map_eq_some_iff.1 h
    have := Pending.inv_round (hi p' hp') ctx sched
    exact ⟨this.accepted, this.req_eq, this.waits, this.answered⟩
  | foreign octets =>
    intro p hp
    have hp' := hi p hp
    refine ⟨hp'.accepted, hp'.req_eq, hp'.waits, ?_⟩
    intro hcar sv hsv
    obtain ⟨hdown, hturn, hpos, later, hlater⟩ := hp'.answered hcar sv hsv
    refine ⟨hdown, hturn, ?_, later ++ octets, ?_⟩
    · simp [step]
      omega
    · simp only [step]
      rw [List.drop_append_of_le_length hpos, hlater, List.append_assoc]
  | receive sched =>
    unfold step
    cases hp : s.pending with
    | none => exact hi
    | some p => exact fun _ h => by cases h

/-- What a step reports is right. -/
theorem Session.right_step {s : Session} {e : Event} (hi : s.Inv) (hq : Unambiguous s e) :
    ∀ r ∈ (s.step e).2, r.Right := by
  cases e with
  | request c => exact (inv_request hi).2
  | round ctx sched => exact List.forall_mem_nil _
  | foreign octets => exact List.forall_mem_nil _
  | receive sched => exact right_of_receive hi hq

/-- The slave's reply to the call that waits is at the front of the link. -/
theorem unambiguous_of_answered {s : Session} {sched : List Nat} {n : Nat}
    (hcar : ∀ p ∈ s.pending, p.call.Carried)
    (h : (s.pending.bind fun p => p.served.map fun sv => (sv.turn.sent.length, sv.pos)) = some (n + 1, 0)) :
    Unambiguous s (.receive sched) := by
  intro p hp _
  rw [hp, Option.bind_some, Option.map_eq_some_iff] at h
  obtain ⟨sv, hsv, heq⟩ := h
  obtain ⟨hlen, hpos⟩ := Prod.mk.inj heq
  exact ⟨hcar p hp, sv, hsv, List.ne_nil_of_length_eq_add_one hlen, hpos⟩

/-- A slave whose registers hold their own addresses. -/
def registers : SlaverDevCtx where
  getAfnAddrVal := fun _ _ addr _ => (0, Mem.fill (fun _ => 0) (be16 addr.toNat))
  setAfnAddrVal := fun _ _ _ _ _ => 0

/-- The read of one register. -/
def readRegister (addr : UInt32) : Call := .read ⟨1, .readHoldingRegisters, addr, 1, fun _ => 0⟩

/-- A read that the slave answers at once. -/
def poll : List Event := [.request (readRegister 5), .round registers [260, 260], .receive [260, 260, 260]]

/-- A read that the slave answers when the master has given it up, and a read of another register. -/
def lateReply : List Event :=
  [.request (readRegister 5), .receive [], .round registers [260, 260, 260], .request (readRegister 6),
    .receive [260, 260, 260]]

end Wow.Modbus
