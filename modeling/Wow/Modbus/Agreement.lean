import Wow.Modbus.Exchange

/-!
# Wow.Modbus.Agreement — a call of the master and the slave that answers it

* `read_agrees`, `write_agrees`: a call from its request to its return, with the slave's turn in between.
* `calls_agree`: the master accepts what the slave answers, and the callbacks see what the master was given.
-/

namespace Wow.Modbus

open Backend Master

variable {b : Backend} {tId : UInt16} {slave : UInt8} {eAfn : FunctionMode} {addr nb : Nat} {data : List UInt8}

/-! ### The two calls -/

theorem valueBytes_lt (hread : IsRead eAfn) (hlim : WithinLimits eAfn nb) :
    0 < valueBytes eAfn nb ∧ valueBytes eAfn nb < 251 ∧ 1 ≤ nb ∧ nb < 65536 := by
  rcases hread with rfl | rfl | rfl | rfl <;>
    simp only [WithinLimits, maxReadBits, maxReadRegisters] at hlim <;>
    simp only [valueBytes, bitBytes] <;> (try split) <;> omega

/-- The limits are the slave's. -/
theorem withinLimits_read (hread : IsRead eAfn) : WithinLimits eAfn nb ↔ 1 ≤ nb ∧ nb ≤ sizeLimit eAfn := by
  rcases hread with rfl | rfl | rfl | rfl <;> exact Iff.rfl

theorem withinLimits_write (hwrite : IsWrite eAfn) (hlim : WithinLimits eAfn nb) :
    (if IsMultiple eAfn then nb else 1) = nb ∧ 1 ≤ nb ∧ nb < 65536 ∧ WriteFits eAfn nb
      ∧ (IsMultiple eAfn → 1 ≤ nb ∧ nb ≤ sizeLimit eAfn) := by
  rcases hwrite with rfl | rfl | rfl | rfl <;> simp only [WithinLimits, maxWriteBits, maxWriteRegisters] at hlim <;>
    simp [IsMultiple, WriteFits, sizeLimit, maxWriteBits, maxWriteRegisters] <;> omega

/-- A reply with as many values as were asked for fits every context. -/
theorem fits_reply_read (b : Backend) (f : UInt8) {values : List UInt8} (h : values.length < 251) :
    b.headerLength + (f :: UInt8.ofNat values.length :: values).length + b.checksumLength ≤ b.maxAduLength := by
  cases b <;> simp [headerLength, checksumLength, maxAduLength] <;> omega

/-- It is taken. -/
theorem checkConfirmation_reply_read (addr : Nat) (data : List UInt8) (hread : IsRead eAfn)
    (hlim : WithinLimits eAfn nb) {values : List UInt8} (hlen : values.length = valueBytes eAfn nb) :
    checkConfirmation b (b.adu tId.toNat slave (requestPdu eAfn addr nb data))
      (b.adu tId.toNat slave (eAfn.code :: UInt8.ofNat values.length :: values)) = some (valueBytes eAfn nb) := by
  obtain ⟨-, h251, -, hnb⟩ := valueBytes_lt hread hlim
  refine (checkConfirmation_read_iff addr data hread hnb).2 ⟨octet_adu_code .., checkConfirmation_adu .., ?_, ?_, rfl⟩
  · rw [length_adu]
    simp [hlen]
    omega
  · rw [octet_adu b tId.toNat slave (by simp)]
    simp [hlen]
    omega

/-- **A read whose reply comes in time** returns the values of the reply. -/
theorem readConfirm_adu (m : Master) (addr : Nat) (data : List UInt8) (hread : IsRead eAfn)
    (hlim : WithinLimits eAfn nb) {values : List UInt8} (hlen : values.length = valueBytes eAfn nb) {sched : List Nat}
    {rest : List UInt8} (pu8Data : Mem)
    (hr : (receive m.ctx .confirmation sched
      (m.ctx.adu tId.toNat slave (eAfn.code :: UInt8.ofNat values.length :: values) ++ rest)).1 ≠ .timeout) :
    m.readConfirm (m.ctx.adu tId.toNat slave (requestPdu eAfn addr nb data)) sched
        (m.ctx.adu tId.toNat slave (eAfn.code :: UInt8.ofNat values.length :: values) ++ rest) pu8Data
      = (0, pu8Data.fill values, rest) := by
  obtain ⟨hpos, h251, -, hnb⟩ := valueBytes_lt hread hlim
  have hconf := confirm_adu (wellSized_reply_read hread (by omega)) (fits_reply_read _ _ (by omega)) hr
    (checkConfirmation_reply_read addr data hread hlim hlen) hpos
  simp only [readConfirm, hconf]
  rw [← hlen, values_adu]

/-- A read, from the call to its return. -/
theorem read_agrees (m : Master) (ctx : SlaverDevCtx) {nSlave : Int} (hs : 0 < nSlave ∧ nSlave ≤ 247)
    {u32Addr u32Size : UInt32} (haddr : u32Addr.toNat ≤ 0xFFFF) (hlim : WithinLimits eAfn u32Size.toNat)
    (hget : ∀ slave afn addr len, (ctx.getAfnAddrVal slave afn addr len).1 = 0) (pu8Data : Mem)
    (hread : IsRead eAfn) :
    ∃ req, m.readRequest nSlave eAfn u32Addr u32Size = .ok (m.next, req)
      ∧ ∀ sched rest, (receive m.ctx .indication sched (req ++ rest)).1 ≠ .timeout →
        ∃ rsp a l, execRound m.ctx ctx sched (req ++ rest)
            = (⟨some req, rsp, some (.get nSlave.toNat eAfn.code a l)⟩, rest)
          ∧ a.toNat = u32Addr.toNat ∧ l.toNat = u32Size.toNat
          ∧ ∀ (link : Link) (rest' : List UInt8), link.send req = req.length → link.up = rsp ++ rest' →
            (receive m.ctx .confirmation link.sched link.up).1 ≠ .timeout →
              m.readData nSlave eAfn u32Addr u32Size pu8Data link
                = (m.next, 0, pu8Data.fill ((ctx.getAfnAddrVal nSlave.toNat eAfn.code a l).2.slice 0
                    (valueBytes eAfn u32Size.toNat)), rest') := by
  obtain ⟨hpos, h251, hnb1, hnb⟩ := valueBytes_lt hread hlim
  have hslave := slave_toNat hs
  have hreq : m.readRequest nSlave eAfn u32Addr u32Size
      = .ok (m.request nSlave eAfn u32Addr.toNat u32Size.toNat []) := by
    simp only [readRequest, hs, and_self, not_true_eq_false, if_false]
    rcases hread with rfl | rfl | rfl | rfl <;> exact if_pos hlim.2
  rw [hreq, request_eq]
  refine ⟨_, rfl, fun sched rest hin => ?_⟩
  have hround := execRound_adu ctx (wellSized_requestPdu (isBody_nil hread) ..) (fits_requestPdu ..) hin
  have hans := answer_read m.ctx m.next.tId (UInt8.ofNat nSlave.toNat) u32Addr.toNat [] ctx hread hnb
  simp only [if_pos ((withinLimits_read hread).1 hlim), if_pos (hget _ _ _ _), hslave] at hans
  rw [hround, answering, modbusSReply_of_ok hans]
  refine ⟨_, _, _, rfl, by simp; omega, by simp; omega, ?_⟩
  intro link rest' hsend hup hlate
  have hvalues : ((ctx.getAfnAddrVal nSlave.toNat eAfn.code (UInt16.ofNat u32Addr.toNat)
      (UInt16.ofNat u32Size.toNat)).2.slice 0 (valueBytes eAfn u32Size.toNat)).length
        = valueBytes eAfn u32Size.toNat := Mem.length_slice ..
  generalize (ctx.getAfnAddrVal nSlave.toNat eAfn.code (UInt16.ofNat u32Addr.toNat)
      (UInt16.ofNat u32Size.toNat)).2.slice 0 (valueBytes eAfn u32Size.toNat) = values at hvalues hup ⊢
  rw [← hvalues] at hup
  rw [hup] at hlate
  have hconf := readConfirm_adu m.next u32Addr.toNat [] hread hlim hvalues pu8Data hlate
  simp only [readData, hreq, request_eq, hsend, if_true, hup]
  exact congrArg _ hconf

/-! ### A write -/

/-- A write, from the call to its return. -/
theorem write_agrees (m : Master) (ctx : SlaverDevCtx) {nSlave : Int} (hs : 0 < nSlave ∧ nSlave ≤ 247)
    {u32Addr u32Size : UInt32} (haddr : u32Addr.toNat ≤ 0xFFFF) (hlim : WithinLimits eAfn u32Size.toNat)
    (hset : ∀ slave afn addr data len, ctx.setAfnAddrVal slave afn addr data len = 0) (pu8Data : Mem)
    (hwrite : IsWrite eAfn) :
    ∃ req, m.writeRequest nSlave eAfn u32Addr u32Size pu8Data = .ok (m.next, req)
      ∧ ∀ sched rest, (receive m.ctx .indication sched (req ++ rest)).1 ≠ .timeout →
        ∃ rsp a l ptr, execRound m.ctx ctx sched (req ++ rest)
            = (⟨some req, rsp, some (.set nSlave.toNat eAfn.code a ptr l)⟩, rest)
          ∧ a.toNat = u32Addr.toNat ∧ l.toNat = u32Size.toNat
          ∧ ptr.slice 0 (writtenOctets eAfn u32Size.toNat pu8Data).length
            = writtenOctets eAfn u32Size.toNat pu8Data
          ∧ ∀ (link : Link) (rest' : List UInt8), link.send req = req.length → link.up = rsp ++ rest' →
            (receive m.ctx .confirmation link.sched link.up).1 ≠ .timeout →
              m.writeData nSlave eAfn u32Addr u32Size pu8Data link = (m.next, 0, rest') := by
  obtain ⟨hone, hsize, hsize', hfit, htaken⟩ := withinLimits_write hwrite hlim
  obtain ⟨hnb, -, hbody⟩ := write_bounds hwrite hfit pu8Data
  have hslave := slave_toNat hs
  rw [writeRequest_eq m hs u32Addr u32Size pu8Data hwrite, request_eq]
  refine ⟨_, rfl, fun sched rest hin => ?_⟩
  have hround := execRound_adu ctx (wellSized_requestPdu hbody ..) (fits_write _ hwrite hfit pu8Data _) hin
  obtain ⟨ptr, l, hptr, hl, hans⟩ := answer_write m.ctx m.next.tId (UInt8.ofNat nSlave.toNat) u32Addr.toNat ctx hwrite hfit
    pu8Data
  simp only [if_pos htaken, hset, if_true, hslave] at hans
  rw [hround, answering, modbusSReply_of_ok hans]
  refine ⟨_, _, _, ptr, rfl, by simp; omega, by rw [hl, hone]; simp; omega, hptr, ?_⟩
  intro link rest' hsend hup hlate
  rw [hup] at hlate
  obtain ⟨n, hn, hpos⟩ := confirmNb_pos hwrite (fun _ => hsize) pu8Data
  have hconf := confirm_adu (wellSized_reply_write hwrite ..) (fits_requestPdu ..) hlate
    (checkConfirmation_write (writeBody eAfn u32Size pu8Data) hn hnb) hpos
  simp only [writeData, writeRequest_eq m hs u32Addr u32Size pu8Data hwrite, request_eq, hsend, if_true, hup]
  refine congrArg _ ?_
  unfold writeConfirm
  rw [show m.next.confirm _ link.sched _ = _ from hconf]

end Wow.Modbus
