import Wow.Modbus.Encoding

/-!
# Wow.Modbus.Replies — the replies of the slave

Whatever frame `modbus_receive_msg` takes, the reply to it is a frame of the context, but for a single write, which
sends the request back as it came.

* `answer_spec`: the ways through `modbus_s_reply`, for any function code and body.
* `replies_wellFormed_iff`: the requests whose reply is well formed.
-/

namespace Wow.Modbus

open Backend

variable {b : Backend}

/-! ### Well-formed replies -/

/-- A frame around `pdu` of at most the maximal ADU, with a right checksum or a right MBAP length. -/
def Framed (b : Backend) (rsp pdu : List UInt8) : Prop :=
  (∃ head tail, rsp = head ++ pdu ++ tail ∧ head.length = b.headerLength ∧ tail.length = b.checksumLength)
    ∧ rsp.length ≤ b.maxAduLength
    ∧ match b with
      | .rtu => Rtu.checkIntegrity rsp = true
      | .tcp => word rsp 4 = rsp.length - 6

/-- The normal reply of a function: the values asked for behind their number, or the start of the request. -/
def IsNormalReply (b : Backend) (req pdu : List UInt8) : Prop :=
  let f := req.getD b.headerLength 0
  let nb := word req (b.headerLength + 3)
  match FunctionMode.ofCode f.toNat with
  | some .readCoils | some .readDiscreteInputs =>
    ∃ values : List UInt8, pdu = f :: UInt8.ofNat (bitBytes nb) :: values ∧ values.length = bitBytes nb
  | some .readHoldingRegisters | some .readInputRegisters =>
    ∃ values : List UInt8, pdu = f :: UInt8.ofNat (nb * 2) :: values ∧ values.length = nb * 2
  | some .writeSingleCoil | some .writeSingleRegister
  | some .writeMultipleCoils | some .writeMultipleRegisters => pdu = (req.drop b.headerLength).take 5
  | _ => False

/-- An exception: the function code of the request with the high bit set, and one octet. -/
def IsException (b : Backend) (req pdu : List UInt8) : Prop :=
  ∃ code : UInt8, pdu = [req.getD b.headerLength 0 ||| 0x80, code]

/-- The reply is a normal one or an exception, and framed. -/
def WellFormedReply (b : Backend) (req rsp : List UInt8) : Prop :=
  ∃ pdu, Framed b rsp pdu ∧ (IsNormalReply b req pdu ∨ IsException b req pdu)

/-- A single write that the slave carries out. -/
def EchoesRequest (b : Backend) (ctx : SlaverDevCtx) (req : List UInt8) : Prop :=
  let r := Request.of b req
  (FunctionMode.ofCode r.afn = some .writeSingleCoil ∧ (r.bulk = 0xFF00 ∨ r.bulk = 0)
      ∧ ctx.setAfnAddrVal r.slave (UInt8.ofNat r.afn) r.addr
        (Mem.fill (fun _ => 0) [if r.bulk ≠ 0 then 1 else 0]) 1 = 0)
    ∨ (FunctionMode.ofCode r.afn = some .writeSingleRegister
      ∧ ctx.setAfnAddrVal r.slave (UInt8.ofNat r.afn) r.addr (pointer r.req (r.offset + 3)) 1 = 0)

theorem framed_adu {tId : Nat} {slave : UInt8} {pdu : List UInt8}
    (hmax : b.headerLength + pdu.length + b.checksumLength ≤ b.maxAduLength) :
    Framed b (b.adu tId slave pdu) pdu := by
  refine ⟨?_, by rwa [length_adu], ?_⟩
  · refine ⟨(b.adu tId slave pdu).take b.headerLength, (b.adu tId slave pdu).drop (b.headerLength + pdu.length), ?_, ?_, ?_⟩
    · obtain ⟨t, ht, -⟩ := b.drop_adu tId slave pdu
      rw [← List.drop_drop, ht, List.drop_left, List.append_assoc, ← ht, List.take_append_drop]
    · rw [List.length_take, length_adu]
      omega
    · rw [List.length_drop, length_adu]
      omega
  · cases b with
    | rtu => exact rtu.checkIntegrity_adu tId slave pdu
    | tcp =>
      simp only [headerLength, checksumLength, maxAduLength] at hmax
      have hlen := tcp.length_adu tId slave pdu
      simp only [headerLength, checksumLength] at hlen
      have hw : word (tcp.adu tId slave pdu) 4 = (pdu.length + 1) % 65536 := word_be16 (pdu.length + 1) (slave :: pdu)
      dsimp only
      rw [hw, hlen]
      omega

/-- The octets of a frame from the function code on are determined. -/
theorem Framed.pdu_eq {rsp pdu pdu' : List UInt8} (h : Framed b rsp pdu) (h' : Framed b rsp pdu') : pdu = pdu' := by
  obtain ⟨⟨head, tail, rfl, hh, ht⟩, -⟩ := h
  obtain ⟨⟨head', tail', heq, hh', ht'⟩, -⟩ := h'
  rw [List.append_assoc, List.append_assoc] at heq
  obtain ⟨-, heq⟩ := List.append_inj heq (by omega)
  exact (List.append_inj' heq (by omega)).1

/-! ### The ways through `modbus_s_reply` -/

/-- A callback that never asks for no reply. -/
def AlwaysReplies (ctx : SlaverDevCtx) : Prop :=
  (∀ slave afn addr len, (ctx.getAfnAddrVal slave afn addr len).1 ≠ ErrorCode.errorMax.code)
    ∧ ∀ slave afn addr data len, ctx.setAfnAddrVal slave afn addr data len ≠ ErrorCode.errorMax.code

/-- A reply goes out with the ids of the request. -/
theorem sendMsgPre_sft (b : Backend) (req body : List UInt8) :
    b.sendMsgPre (b.buildResponseBasis (Request.of b req).sft ++ body)
      = b.adu (b.prepareResponseTid req) (UInt8.ofNat (octet req (b.headerLength - 1)))
          (req.getD b.headerLength 0 :: body) := by
  rw [sendMsgPre_responseBasis]
  simp [Request.of, octet]

theorem sendMsgPre_exception (b : Backend) (req : List UInt8) (code : Int) :
    b.sendMsgPre (responseException b (Request.of b req).sft code)
      = b.adu (b.prepareResponseTid req) (UInt8.ofNat (octet req (b.headerLength - 1)))
          [UInt8.ofNat (octet req b.headerLength + 0x80), UInt8.ofInt code] := by
  rw [responseException, sendMsgPre_responseBasis]
  rfl

/-- What a branch of the `switch` may end in. -/
def Answered (b : Backend) (ctx : SlaverDevCtx) (req : List UInt8) : Except Int (List UInt8) → Prop
  | .error ret => ret ≠ ErrorCode.errorMax.code ∧ ¬ EchoesRequest b ctx req
  | .ok rsp => (EchoesRequest b ctx req ∧ rsp = req) ∨ (¬ EchoesRequest b ctx req ∧ ∃ body,
      rsp = b.adu (b.prepareResponseTid req) (UInt8.ofNat (octet req (b.headerLength - 1)))
        (req.getD b.headerLength 0 :: body)
      ∧ IsNormalReply b req (req.getD b.headerLength 0 :: body) ∧ body.length ≤ 251)

theorem answered_readValues {ctx : SlaverDevCtx} {req : List UInt8} (hctx : AlwaysReplies ctx) {max bytes : Nat}
    (hecho : ¬ EchoesRequest b ctx req)
    (hnormal : (Request.of b req).bulk ≤ max → bytes ≤ 250 ∧ ∀ values : List UInt8, values.length = bytes →
      IsNormalReply b req (req.getD b.headerLength 0 :: UInt8.ofNat bytes :: values)) :
    Answered b ctx req ((Request.of b req).readValues b ctx max bytes).1 := by
  unfold Request.readValues
  split
  · rename_i hbulk
    obtain ⟨hbytes, hvalues⟩ := hnormal hbulk.2
    dsimp only
    split
    · refine Or.inr ⟨hecho, _, sendMsgPre_sft .., hvalues _ (Mem.length_slice ..), ?_⟩
      simp
      omega
    · exact ⟨hctx.1 _ _ _ _, hecho⟩
  · exact ⟨by decide, hecho⟩

theorem answered_writeMultiple {ctx : SlaverDevCtx} {req : List UInt8} (hctx : AlwaysReplies ctx) {max : Nat}
    (hecho : ¬ EchoesRequest b ctx req) (hlen : b.headerLength + 5 ≤ req.length)
    (hmul : FunctionMode.ofCode (octet req b.headerLength) = some .writeMultipleCoils
      ∨ FunctionMode.ofCode (octet req b.headerLength) = some .writeMultipleRegisters) :
    Answered b ctx req ((Request.of b req).writeMultiple b ctx max).1 := by
  unfold Request.writeMultiple
  split
  · dsimp only
    split
    · refine Or.inr ⟨hecho, _, sendMsgPre_sft .., ?_, ?_⟩
      · have hcopy : (pointer (Request.of b req).req (b.headerLength + 1)).slice 0 4
            = (req.drop (b.headerLength + 1)).take 4 := slice_pointer (by change _ ≤ req.length; omega)
        rw [length_buildResponseBasis, hcopy]
        have hdrop : (req.drop b.headerLength).take 5
            = req.getD b.headerLength 0 :: (req.drop (b.headerLength + 1)).take 4 := by
          have hlt : b.headerLength < req.length := by omega
          rw [List.drop_eq_getElem_cons hlt, List.take_succ_cons]
          simp [List.getElem?_eq_getElem hlt]
        unfold IsNormalReply
        rcases hmul with hmul | hmul <;> simp only [octet] at hmul <;> simp only [hmul, hdrop]
      · simp
    · exact ⟨hctx.2 _ _ _ _ _, hecho⟩
  · exact ⟨by decide, hecho⟩

theorem answered_writeSingle {ctx : SlaverDevCtx} {req : List UInt8} (hctx : AlwaysReplies ctx) {data : Mem}
    (hecho : EchoesRequest b ctx req ↔ ctx.setAfnAddrVal (Request.of b req).slave (UInt8.ofNat (Request.of b req).afn)
      (Request.of b req).addr data 1 = 0) :
    Answered b ctx req ((Request.of b req).writeSingle ctx data).1 := by
  unfold Request.writeSingle
  dsimp only
  split
  · rename_i h0
    exact Or.inl ⟨hecho.2 h0, rfl⟩
  · rename_i h0
    exact ⟨hctx.2 _ _ _ _ _, fun h => h0 (hecho.1 h)⟩

/-- The body of a frame that was taken reaches to its number of values. -/
theorem length_of_frame {req : List UInt8} (hreq : frameLength b .indication req = req.length)
    (hfun : octet req b.headerLength ≤ 0x06 ∨ FunctionMode.ofCode (octet req b.headerLength) = some .writeMultipleCoils
      ∨ FunctionMode.ofCode (octet req b.headerLength) = some .writeMultipleRegisters) :
    b.headerLength + 5 ≤ req.length := by
  have hmeta : 4 ≤ computeMetaLengthAfterFunction (octet req b.headerLength) .indication := by
    unfold computeMetaLengthAfterFunction
    rcases hfun with h | h | h
    · simp [h]
    · simp only [h]
      split <;> omega
    · simp only [h]
      split <;> omega
  rw [← hreq]
  unfold frameLength prefixLength
  omega

/-- **The ways through `modbus_s_reply`** for a frame that was taken. -/
theorem answer_spec {ctx : SlaverDevCtx} {req : List UInt8} (hctx : AlwaysReplies ctx)
    (hreq : frameLength b .indication req = req.length) :
    Answered b ctx req ((Request.of b req).answer b ctx).1 := by
  have hnot : ∀ {f : FunctionMode}, FunctionMode.ofCode (Request.of b req).afn = some f →
      f ≠ .writeSingleCoil → f ≠ .writeSingleRegister → ¬ EchoesRequest b ctx req := by
    rintro f hf h5 h6 (⟨h, -⟩ | ⟨h, -⟩)
    · exact h5 (Option.some.inj (hf.symm.trans h))
    · exact h6 (Option.some.inj (hf.symm.trans h))
  have bits : ∀ {f : FunctionMode}, FunctionMode.ofCode (Request.of b req).afn = some f →
      (f = .readCoils ∨ f = .readDiscreteInputs) →
        Answered b ctx req ((Request.of b req).readValues b ctx maxReadBits (((Request.of b req).bulk + 7) / 8)).1 := by
    intro f hf hbits
    refine answered_readValues hctx ?_ fun hbulk => ⟨by unfold maxReadBits at hbulk; omega, fun values hlen => ?_⟩
    · rcases hbits with rfl | rfl <;> exact hnot hf nofun nofun
    · rw [align8_div] at hlen ⊢
      have hf' : FunctionMode.ofCode (req.getD b.headerLength 0).toNat = some f := hf
      unfold IsNormalReply
      rcases hbits with rfl | rfl <;> simp only [hf'] <;> exact ⟨values, rfl, hlen⟩
  have registers : ∀ {f : FunctionMode}, FunctionMode.ofCode (Request.of b req).afn = some f →
      (f = .readHoldingRegisters ∨ f = .readInputRegisters) →
        Answered b ctx req ((Request.of b req).readValues b ctx maxReadRegisters ((Request.of b req).bulk * 2)).1 := by
    intro f hf hregs
    refine answered_readValues hctx ?_ fun hbulk => ⟨by unfold maxReadRegisters at hbulk; omega, fun values hlen => ?_⟩
    · rcases hregs with rfl | rfl <;> exact hnot hf nofun nofun
    · have hf' : FunctionMode.ofCode (req.getD b.headerLength 0).toNat = some f := hf
      unfold IsNormalReply
      rcases hregs with rfl | rfl <;> simp only [hf'] <;> exact ⟨values, rfl, hlen⟩
  unfold Request.answer
  split
  · rename_i hf
    exact bits hf (Or.inl rfl)
  · rename_i hf
    exact bits hf (Or.inr rfl)
  · rename_i hf
    exact registers hf (Or.inl rfl)
  · rename_i hf
    exact registers hf (Or.inr rfl)
  · rename_i hf
    have hbulk : word (Request.of b req).req ((Request.of b req).offset + 3) = (Request.of b req).bulk := rfl
    simp only [hbulk]
    split
    · rename_i hval
      refine answered_writeSingle hctx ?_
      simp [EchoesRequest, hf, hval]
    · rename_i hval
      refine ⟨by decide, ?_⟩
      simp [EchoesRequest, hf, hval]
  · rename_i hf
    refine answered_writeSingle hctx ?_
    simp [EchoesRequest, hf]
  · rename_i hf
    exact answered_writeMultiple hctx (hnot hf nofun nofun) (length_of_frame hreq (Or.inr (Or.inl hf))) (Or.inl hf)
  · rename_i hf
    exact answered_writeMultiple hctx (hnot hf nofun nofun) (length_of_frame hreq (Or.inr (Or.inr hf))) (Or.inr hf)
  · rename_i h1 h2 h3 h4 h5 h6 h7 h8
    refine ⟨by decide, ?_⟩
    rintro (⟨h, -⟩ | ⟨h, -⟩)
    · exact h5 h
    · exact h6 h

/-- The reply, whichever way it was made. -/
theorem modbusSReply_cases {ctx : SlaverDevCtx} {req : List UInt8} (hctx : AlwaysReplies ctx)
    (hreq : frameLength b .indication req = req.length) :
    (EchoesRequest b ctx req ∧ (modbusSReply b ctx req).1 = req)
      ∨ (¬ EchoesRequest b ctx req ∧ ∃ body,
          (modbusSReply b ctx req).1 = b.adu (b.prepareResponseTid req) (UInt8.ofNat (octet req (b.headerLength - 1)))
            (req.getD b.headerLength 0 :: body)
          ∧ IsNormalReply b req (req.getD b.headerLength 0 :: body) ∧ body.length ≤ 251)
      ∨ (¬ EchoesRequest b ctx req ∧ ∃ code,
          (modbusSReply b ctx req).1 = b.adu (b.prepareResponseTid req) (UInt8.ofNat (octet req (b.headerLength - 1)))
            [UInt8.ofNat (octet req b.headerLength + 0x80), code]) := by
  have h := @answer_spec b ctx req hctx hreq
  rcases ha : (Request.of b req).answer b ctx with ⟨ret | rsp, access⟩
  · rw [ha] at h
    refine Or.inr (Or.inr ⟨h.2, UInt8.ofInt ret, ?_⟩)
    rw [modbusSReply_of_error ha, if_neg h.1, sendMsgPre_exception]
  · rw [ha] at h
    rw [modbusSReply_of_ok ha]
    rcases h with h | h
    · exact Or.inl h
    · exact Or.inr (Or.inl h)

theorem or_high_bit (f : UInt8) : f ||| 0x80 = UInt8.ofNat (f.toNat + 0x80) ↔ f.toNat < 0x80 := by
  revert f
  rw [forall_uint8]
  decide +kernel

/-- Every function code has its high bit free. -/
theorem lt_of_ofCode {n : Nat} {f : FunctionMode} (h : FunctionMode.ofCode n = some f) : n < 0x80 := by
  rw [FunctionMode.ofCode_eq_some.1 h]
  cases f <;> decide

theorem IsNormalReply.lt {req pdu : List UInt8} (h : IsNormalReply b req pdu) : octet req b.headerLength < 0x80 := by
  unfold IsNormalReply at h
  dsimp only at h
  cases hf : FunctionMode.ofCode (octet req b.headerLength) with
  | some f => exact lt_of_ofCode hf
  | none =>
    unfold octet at hf
    rw [hf] at h
    cases h

/-- A request that is sent back, of the length of a single write. -/
theorem length_of_echo {ctx : SlaverDevCtx} {req : List UInt8} (hreq : frameLength b .indication req = req.length)
    (h : EchoesRequest b ctx req) :
    octet req b.headerLength < 0x80 ∧ req.length = b.headerLength + 5 + b.checksumLength
      ∧ IsNormalReply b req ((req.drop b.headerLength).take 5) := by
  have hf : octet req b.headerLength = 0x05 ∨ octet req b.headerLength = 0x06 := by
    rcases h with ⟨h, -⟩ | ⟨h, -⟩
    · exact Or.inl (FunctionMode.ofCode_eq_some.1 h)
    · exact Or.inr (FunctionMode.ofCode_eq_some.1 h)
  refine ⟨by omega, ?_, ?_⟩
  · rw [← hreq]
    rcases hf with hf | hf <;>
      simp [frameLength, prefixLength, computeDataLengthAfterMeta, hf, computeMetaLengthAfterFunction,
        FunctionMode.ofCode]
  · unfold IsNormalReply
    rcases hf with hf | hf <;> simp only [octet] at hf <;> simp only [hf, FunctionMode.ofCode]

/-- **The replies that are well formed**: to a function code below `0x80`, where the exception code is the
function code plus `0x80`; and, where a single write is sent back, with the MBAP length of a single write. -/
theorem replies_wellFormed_iff {ctx : SlaverDevCtx} (hctx : AlwaysReplies ctx) {sched : List Nat}
    {up req rest : List UInt8} (h : slaveReceiveMsg b sched up = (some req, rest)) :
    WellFormedReply b req (modbusSReply b ctx req).1
      ↔ octet req b.headerLength < 0x80 ∧ (EchoesRequest b ctx req → b = .tcp → word req 4 = 6) := by
  obtain ⟨-, hreq, hmax, hok⟩ := slaveReceiveMsg_eq_some h
  rcases @modbusSReply_cases b ctx req hctx hreq with ⟨hecho, hrsp⟩ | ⟨hecho, body, hrsp, hnormal, hlen⟩ | ⟨hecho, code, hrsp⟩
  · obtain ⟨hlt, hlen, hnormal⟩ := length_of_echo hreq hecho
    rw [hrsp]
    constructor
    · rintro ⟨pdu, ⟨-, -, hcheck⟩, -⟩
      refine ⟨hlt, fun _ htcp => ?_⟩
      subst htcp
      dsimp only at hcheck
      rw [hcheck, hlen]
      rfl
    · rintro ⟨-, hmbap⟩
      refine ⟨_, ⟨⟨req.take b.headerLength, req.drop (b.headerLength + 5), ?_, ?_, ?_⟩, hmax, ?_⟩, Or.inl hnormal⟩
      · rw [← List.drop_drop, List.append_assoc, List.take_append_drop, List.take_append_drop]
      · rw [List.length_take]
        omega
      · rw [List.length_drop]
        omega
      · cases b with
        | rtu => exact hok
        | tcp =>
          dsimp only
          rw [hmbap hecho rfl, hlen]
          rfl
  · have hframed : Framed b (modbusSReply b ctx req).1 (req.getD b.headerLength 0 :: body) := by
      rw [hrsp]
      refine framed_adu ?_
      cases b <;> simp [headerLength, checksumLength, maxAduLength] <;> omega
    exact iff_of_true ⟨_, hframed, Or.inl hnormal⟩ ⟨hnormal.lt, fun h => absurd h hecho⟩
  · have hframed : Framed b (modbusSReply b ctx req).1 [UInt8.ofNat (octet req b.headerLength + 0x80), code] := by
      rw [hrsp]
      refine framed_adu ?_
      cases b <;> simp [headerLength, checksumLength, maxAduLength]
    constructor
    · rintro ⟨pdu, hpdu, hbody⟩
      refine ⟨?_, fun h => absurd h hecho⟩
      rw [hpdu.pdu_eq hframed] at hbody
      rcases hbody with hnormal | ⟨code', hcode⟩
      · exact hnormal.lt
      · exact (or_high_bit (req.getD b.headerLength 0)).1 (List.cons.inj hcode).1.symm
    · rintro ⟨hlt, -⟩
      refine ⟨_, hframed, Or.inr ⟨code, ?_⟩⟩
      rw [(or_high_bit (req.getD b.headerLength 0)).2 hlt]
      rfl

/-- A read of one register. -/
theorem replies_wellFormed_read :
    WellFormedReply .tcp [0, 1, 0, 0, 0, 6, 1, 3, 0, 0, 0, 1]
      (modbusSReply .tcp ⟨fun _ _ _ _ => (0, fun _ => 7), fun _ _ _ _ _ => 0⟩ [0, 1, 0, 0, 0, 6, 1, 3, 0, 0, 0, 1]).1 :=
  (@replies_wellFormed_iff .tcp ⟨fun _ _ _ _ => (0, fun _ => 7), fun _ _ _ _ _ => 0⟩
    ⟨by simp [ErrorCode.code], by simp [ErrorCode.code]⟩ prompt _ _ []
    (by decide : slaveReceiveMsg .tcp prompt [0, 1, 0, 0, 0, 6, 1, 3, 0, 0, 0, 1]
      = (some [0, 1, 0, 0, 0, 6, 1, 3, 0, 0, 0, 1], []))).2
    ⟨by decide, fun _ _ => by decide⟩

/-- The exception for the function code `0x90` has the code `0x10`. -/
theorem not_wellFormedReply_reserved :
    slaveReceiveMsg .tcp prompt [0, 1, 0, 0, 0, 2, 1, 0x90] = (some [0, 1, 0, 0, 0, 2, 1, 0x90], [])
      ∧ ¬ WellFormedReply .tcp [0, 1, 0, 0, 0, 2, 1, 0x90]
        (modbusSReply .tcp ⟨fun _ _ _ _ => (0, fun _ => 7), fun _ _ _ _ _ => 0⟩ [0, 1, 0, 0, 0, 2, 1, 0x90]).1 := by
  refine ⟨by decide, ?_⟩
  rintro ⟨pdu, hpdu, hbody⟩
  have hrsp : (modbusSReply .tcp ⟨fun _ _ _ _ => (0, fun _ => 7), fun _ _ _ _ _ => 0⟩ [0, 1, 0, 0, 0, 2, 1, 0x90]).1
      = tcp.adu 1 1 [0x10, 1] := by decide
  rw [hrsp] at hpdu
  rw [hpdu.pdu_eq (framed_adu (by decide))] at hbody
  rcases hbody with hnormal | ⟨code, hcode⟩
  · exact absurd hnormal.lt (by decide)
  · exact absurd (List.cons.inj hcode).1 (by decide)

end Wow.Modbus
