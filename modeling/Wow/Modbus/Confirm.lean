import Wow.Modbus.Encoding

/-!
# Wow.Modbus.Confirm — a read and whatever comes in answer to it

`wow_modbus_m_read_data` on an arbitrary string of octets: what it takes for its reply, what it copies from it, and
what it leaves alone.

* `readData_sound`, `readData_complete`: a read succeeds exactly on the octets that begin with `Passes`.
* `allOrNothing_iff`: the answers on which a success means a good reply.
-/

namespace Wow.Modbus

open Backend Master

/-- The length of the reply to a read. -/
def replyLength (b : Backend) (eAfn : FunctionMode) (size : Nat) : Nat :=
  b.headerLength + (2 + valueBytes eAfn size) + b.checksumLength

/-- The octets of the values in a reply. -/
def payload (b : Backend) (eAfn : FunctionMode) (size : Nat) (rsp : List UInt8) : List UInt8 :=
  (rsp.drop (b.headerLength + 2)).take (valueBytes eAfn size)

/-- The right reply to the read that was sent with the transaction id `tId`. -/
def GoodReply (b : Backend) (tId : UInt16) (nSlave : Int) (eAfn : FunctionMode) (size : Nat)
    (rsp : List UInt8) : Prop :=
  rsp.length = replyLength b eAfn size
    ∧ octet rsp (b.headerLength - 1) = nSlave.toNat
    ∧ octet rsp b.headerLength = eAfn.code.toNat
    ∧ octet rsp (b.headerLength + 1) = valueBytes eAfn size
    ∧ match b with
      | .rtu => Rtu.checkIntegrity rsp = true
      | .tcp => word rsp 0 = tId.toNat

/-- The read succeeds only on the right reply and copies its values, and fails without touching the data. -/
def AllOrNothing (m : Master) (nSlave : Int) (eAfn : FunctionMode) (u32Addr u32Size : UInt32)
    (answer : List UInt8) : Prop :=
  ∀ (pu8Data : Mem) (link : Link), link.up = answer →
    let r := m.readData nSlave eAfn u32Addr u32Size pu8Data link
    (r.2.1 = 0 → GoodReply m.ctx m.next.tId nSlave eAfn u32Size.toNat answer
        ∧ r.2.2.1 = pu8Data.fill (payload m.ctx eAfn u32Size.toNat answer))
      ∧ (r.2.1 ≠ 0 → r.2.2.1 = pu8Data)

/-- What the checks of the master let through: over TCP they do not look at the unit id. -/
def Passes (b : Backend) (tId : UInt16) (nSlave : Int) (eAfn : FunctionMode) (size : Nat) (rsp : List UInt8) : Prop :=
  rsp.length = replyLength b eAfn size
    ∧ octet rsp b.headerLength = eAfn.code.toNat
    ∧ octet rsp (b.headerLength + 1) = valueBytes eAfn size
    ∧ 0 < valueBytes eAfn size
    ∧ match b with
      | .rtu => octet rsp 0 = nSlave.toNat ∧ Rtu.checkIntegrity rsp = true
      | .tcp => word rsp 0 = tId.toNat ∧ word rsp 2 = 0

variable {b : Backend} {tId : UInt16} {nSlave : Int} {eAfn : FunctionMode} {nb : Nat}

/-- The check of the context, on a request that the master built. -/
theorem checkConfirmation_adu_iff (slave : UInt8) (pdu rsp : List UInt8) :
    b.checkConfirmation (b.adu tId.toNat slave pdu) rsp = true ↔
      match b with
      | .rtu => 1 ≤ rsp.length ∧ octet rsp 0 = slave.toNat
      | .tcp => 4 ≤ rsp.length ∧ word rsp 0 = tId.toNat ∧ word rsp 2 = 0 := by
  have ht := tId.toNat_lt
  have h0 := octet_lt rsp 0
  have h1 := octet_lt rsp 1
  have h2 := octet_lt rsp 2
  have h3 := octet_lt rsp 3
  cases b with
  | rtu =>
    have hreq : octet (rtu.adu tId.toNat slave pdu) 0 = slave.toNat := rfl
    simp only [Backend.checkConfirmation, Rtu.checkConfirmation, decide_eq_true_eq, hreq]
    exact and_congr_right fun _ => eq_comm
  | tcp =>
    have hhi : octet (tcp.adu tId.toNat slave pdu) 0 = tId.toNat / 256 % 256 := by simp [adu, be16]
    have hlo : octet (tcp.adu tId.toNat slave pdu) 1 = tId.toNat % 256 := by simp [adu, be16]
    simp only [Backend.checkConfirmation, Tcp.checkConfirmation, decide_eq_true_eq, hhi, hlo, word, Nat.zero_add,
      Nat.reduceAdd]
    omega

/-- The reply length of a read is the one that its function code and byte count announce. -/
theorem frameLength_reply {rsp : List UInt8} (hread : IsRead eAfn) (hlen : rsp.length = replyLength b eAfn nb)
    (hfun : octet rsp b.headerLength = eAfn.code.toNat)
    (hcount : octet rsp (b.headerLength + 1) = valueBytes eAfn nb) :
    frameLength b .confirmation rsp = rsp.length := by
  rw [hlen]
  unfold frameLength prefixLength computeDataLengthAfterMeta replyLength
  rw [hfun]
  rcases hread with rfl | rfl | rfl | rfl <;>
    simp [hcount, FunctionMode.code, computeMetaLengthAfterFunction, FunctionMode.ofCode] <;> omega

/-- What passes, in the words of the code. -/
theorem passes_iff (addr : Nat) (hs : 0 < nSlave ∧ nSlave ≤ 247) (hread : IsRead eAfn) (hnb : nb < 65536)
    {rsp : List UInt8} :
    Passes b tId nSlave eAfn nb rsp ↔
      b.checkIntegrity rsp = true
        ∧ checkConfirmation b (b.adu tId.toNat (UInt8.ofNat nSlave.toNat) (requestPdu eAfn addr nb [])) rsp
          = some (valueBytes eAfn nb)
        ∧ 0 < valueBytes eAfn nb := by
  rw [checkConfirmation_read_iff addr [] hread hnb, checkConfirmation_adu_iff, slave_toNat hs]
  unfold Passes replyLength
  cases b with
  | rtu =>
    simp only [Backend.checkIntegrity, headerLength, checksumLength]
    constructor
    · rintro ⟨hlen, hfun, hcount, hpos, hslave, hok⟩
      exact ⟨hok, ⟨hfun, ⟨by omega, hslave⟩, hlen, hcount, trivial⟩, hpos⟩
    · rintro ⟨hok, ⟨hfun, ⟨-, hslave⟩, hlen, hcount, -⟩, hpos⟩
      exact ⟨hlen, hfun, hcount, hpos, hslave, hok⟩
  | tcp =>
    simp only [Backend.checkIntegrity, headerLength, checksumLength]
    constructor
    · rintro ⟨hlen, hfun, hcount, hpos, htid, hproto⟩
      exact ⟨trivial, ⟨hfun, ⟨by omega, htid, hproto⟩, hlen, hcount, trivial⟩, hpos⟩
    · rintro ⟨-, ⟨hfun, ⟨-, htid, hproto⟩, hlen, hcount, -⟩, hpos⟩
      exact ⟨hlen, hfun, hcount, hpos, htid, hproto⟩

/-! ### The call -/

/-- The request of a read. -/
def readAdu (m : Master) (nSlave : Int) (eAfn : FunctionMode) (u32Addr u32Size : UInt32) : List UInt8 :=
  m.ctx.adu m.next.tId.toNat (UInt8.ofNat nSlave.toNat) (requestPdu eAfn u32Addr.toNat u32Size.toNat [])

theorem readData_of_accepted (m : Master) {u32Addr u32Size : UInt32} (pu8Data : Mem) (link : Link)
    (h : ReadAccepted nSlave eAfn u32Size.toNat) :
    m.readData nSlave eAfn u32Addr u32Size pu8Data link
      = if link.send (readAdu m nSlave eAfn u32Addr u32Size) = (readAdu m nSlave eAfn u32Addr u32Size).length then
          (m.next, m.next.readConfirm (readAdu m nSlave eAfn u32Addr u32Size) link.sched link.up pu8Data)
        else (m.next, -2, pu8Data, link.up) := by
  obtain ⟨-, -, hreq⟩ := @readRequest_of_accepted eAfn m nSlave u32Addr u32Size h
  simp only [readData, hreq, request_eq]
  rfl

theorem readData_of_not_accepted (m : Master) (u32Addr : UInt32) {u32Size : UInt32} (pu8Data : Mem) (link : Link)
    (h : ¬ ReadAccepted nSlave eAfn u32Size.toNat) :
    ∃ ret, ret ≠ 0 ∧ m.readData nSlave eAfn u32Addr u32Size pu8Data link = (m, ret, pu8Data, link.up) := by
  cases hreq : m.readRequest nSlave eAfn u32Addr u32Size with
  | ok p => exact absurd hreq (readRequest_of_not_accepted m p.1 h)
  | error ret => exact ⟨ret, readRequest_error hreq, by simp only [readData, hreq]⟩

/-- **A read that fails leaves the data alone.** -/
theorem readData_unchanged (m : Master) {u32Addr u32Size : UInt32} {pu8Data : Mem} {link : Link}
    (h : (m.readData nSlave eAfn u32Addr u32Size pu8Data link).2.1 ≠ 0) :
    (m.readData nSlave eAfn u32Addr u32Size pu8Data link).2.2.1 = pu8Data := by
  by_cases hacc : ReadAccepted nSlave eAfn u32Size.toNat
  · rw [readData_of_accepted m pu8Data link hacc] at h ⊢
    split at h
    · rename_i hsend
      rw [if_pos hsend]
      unfold readConfirm at h ⊢
      revert h
      rcases m.next.confirm (readAdu m nSlave eAfn u32Addr u32Size) link.sched link.up with ⟨_ | ⟨ret, rsp⟩, up⟩
      · exact fun _ => rfl
      · exact fun h => absurd rfl h
    · rename_i hsend
      rw [if_neg hsend]
  · obtain ⟨ret, -, hr⟩ := readData_of_not_accepted m u32Addr pu8Data link hacc
    rw [hr]

/-- A read that succeeds: what it took passes, and what it copied is the payload. -/
theorem readData_sound {m : Master} {u32Addr u32Size : UInt32} {pu8Data : Mem} {link : Link}
    (h : (m.readData nSlave eAfn u32Addr u32Size pu8Data link).2.1 = 0) :
    ReadAccepted nSlave eAfn u32Size.toNat
      ∧ ∃ rsp rest, link.up = rsp ++ rest ∧ Passes m.ctx m.next.tId nSlave eAfn u32Size.toNat rsp
        ∧ (m.readData nSlave eAfn u32Addr u32Size pu8Data link).2.2.1
          = pu8Data.fill (payload m.ctx eAfn u32Size.toNat rsp) := by
  by_cases hacc : ReadAccepted nSlave eAfn u32Size.toNat
  · refine ⟨hacc, ?_⟩
    obtain ⟨hread, hsize, -⟩ := @readRequest_of_accepted eAfn m nSlave u32Addr u32Size hacc
    have hnb : u32Size.toNat < 65536 := by
      unfold maxReadBits at hsize
      omega
    rw [readData_of_accepted m pu8Data link hacc] at h ⊢
    split at h
    · rename_i hsend
      rw [if_pos hsend]
      unfold readConfirm at h ⊢
      rcases hc : m.next.confirm (readAdu m nSlave eAfn u32Addr u32Size) link.sched link.up with ⟨_ | ⟨ret, rsp⟩, up⟩
      · rw [hc] at h
        exact absurd (show (-1 : Int) = 0 from h) (by decide)
      · obtain ⟨hup, -, -, hok, hcheck, hpos⟩ := confirm_sound hc
        have hret := ((checkConfirmation_read_iff u32Addr.toNat [] hread hnb).1 hcheck).2.2.2.2
        rw [hret] at hcheck hpos
        exact ⟨rsp, up, hup, (passes_iff u32Addr.toNat hacc.1 hread hnb).2 ⟨hok, hcheck, hpos⟩, by rw [hret]; rfl⟩
    · exact absurd (show (-2 : Int) = 0 from h) (by decide)
  · obtain ⟨ret, hret, hr⟩ := readData_of_not_accepted m u32Addr pu8Data link hacc
    rw [hr] at h
    exact absurd h hret

theorem readAccepted_bytes {size : Nat} (h : ReadAccepted nSlave eAfn size) : valueBytes eAfn size ≤ 250 := by
  obtain ⟨-, hsize⟩ := h
  cases eAfn <;> dsimp only at hsize <;> simp only [valueBytes, maxReadBits, maxReadRegisters] at * <;>
    first | omega | (unfold bitBytes; split <;> omega)

/-- A read of octets that begin with what passes, in time, succeeds. -/
theorem readData_complete (m : Master) {u32Addr u32Size : UInt32} (pu8Data : Mem) {link : Link}
    (hacc : ReadAccepted nSlave eAfn u32Size.toNat) (hsend : ∀ req, link.send req = req.length)
    (hs : Steady link.sched) {rsp rest : List UInt8} (hup : link.up = rsp ++ rest)
    (hpass : Passes m.ctx m.next.tId nSlave eAfn u32Size.toNat rsp) :
    (m.readData nSlave eAfn u32Addr u32Size pu8Data link).2.1 = 0 := by
  obtain ⟨hread, hsize, -⟩ := @readRequest_of_accepted eAfn m nSlave u32Addr u32Size hacc
  have hnb : u32Size.toNat < 65536 := by
    unfold maxReadBits at hsize
    omega
  obtain ⟨hlen, hfun, hcount, hpos, -⟩ := id hpass
  obtain ⟨hok, hcheck, -⟩ := (passes_iff u32Addr.toNat hacc.1 hread hnb).1 hpass
  have hmax : rsp.length ≤ m.ctx.maxAduLength := by
    rw [hlen]
    have hbytes := readAccepted_bytes hacc
    unfold replyLength
    cases m.ctx <;> simp only [headerLength, checksumLength, maxAduLength] <;> omega
  have hconf := @confirm_complete m.next _ rsp link.sched _ hs (frameLength_reply hread hlen hfun hcount) hmax hok hcheck
    hpos rest
  rw [readData_of_accepted m pu8Data link hacc, if_pos (hsend _), hup]
  unfold readConfirm
  rw [show m.next.confirm (readAdu m nSlave eAfn u32Addr u32Size) link.sched (rsp ++ rest) = _ from hconf]

/-- **The answers on which a read is all or nothing**: where the octets begin with what the master lets through,
nothing follows it, and over TCP the unit id is the slave's. -/
theorem allOrNothing_iff (m : Master) (nSlave : Int) (eAfn : FunctionMode) (u32Addr u32Size : UInt32)
    (answer : List UInt8) :
    AllOrNothing m nSlave eAfn u32Addr u32Size answer ↔
      (ReadAccepted nSlave eAfn u32Size.toNat →
        Passes m.ctx m.next.tId nSlave eAfn u32Size.toNat (answer.take (replyLength m.ctx eAfn u32Size.toNat)) →
          answer.length = replyLength m.ctx eAfn u32Size.toNat
            ∧ (m.ctx = .tcp → octet answer 6 = nSlave.toNat)) := by
  constructor
  · intro h hacc hpass
    have hall := h (fun _ => 0) ⟨fun req => req.length, prompt, answer⟩ rfl
    have hok := @readData_complete nSlave eAfn m u32Addr u32Size (fun _ => 0)
      ⟨fun req => req.length, prompt, answer⟩ hacc (fun _ => rfl) steady_prompt _ _ (List.take_append_drop ..).symm hpass
    obtain ⟨hlen, hslave, -⟩ := (hall.1 hok).1
    refine ⟨hlen, fun htcp => ?_⟩
    rw [htcp] at hslave
    exact hslave
  · intro h pu8Data link hup
    refine ⟨fun hok => ?_, readData_unchanged m⟩
    obtain ⟨hacc, rsp, rest, hl, hpass, hcopy⟩ := readData_sound hok
    rw [hup] at hl
    have htake : answer.take (replyLength m.ctx eAfn u32Size.toNat) = rsp := by
      rw [hl, ← hpass.1, List.take_left]
    obtain ⟨hlen, hslave⟩ := h hacc (by rwa [htake])
    have hrest : answer = rsp := by
      rw [← htake, ← hlen, List.take_length]
    subst hrest
    refine ⟨?_, hcopy⟩
    unfold Passes at hpass
    unfold GoodReply
    revert hpass hslave
    generalize m.ctx = b
    cases b with
    | rtu =>
      rintro - ⟨hlen, hfun, hcount, -, hslave, hok⟩
      exact ⟨hlen, hslave, hfun, hcount, hok⟩
    | tcp =>
      rintro hslave ⟨hlen, hfun, hcount, -, htid, -⟩
      exact ⟨hlen, hslave rfl, hfun, hcount, htid⟩

/-- A reply to the transaction that the master has open, from the unit 2 in place of 1. -/
theorem not_allOrNothing_unit :
    ¬ AllOrNothing ⟨.tcp, 0⟩ 1 .readHoldingRegisters 0 1 [0, 1, 0, 0, 0, 5, 2, 3, 2, 0xAB, 0xCD] := by
  intro h
  have hall := h (fun _ => 0) ⟨fun req => req.length, prompt, [0, 1, 0, 0, 0, 5, 2, 3, 2, 0xAB, 0xCD]⟩ rfl
  obtain ⟨⟨-, hslave, -⟩, -⟩ := hall.1 (by decide)
  exact absurd hslave (by decide)

end Wow.Modbus
