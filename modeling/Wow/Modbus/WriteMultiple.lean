import Wow.Modbus.Slave

/-!
# Wow.Modbus.WriteMultiple — the two lengths of a multiple write

A request to write several coils or registers says twice how much it carries: by the quantity, from which
`modbus_s_reply` writes, and by the byte count, from which `compute_data_length_after_meta` reads.  The handler checks
the quantity only.

* `Consistent`: the callback is called with values that came with the request, and with none where the two differ.
* `consistent_iff`: that is so where the byte count is right or the quantity is refused.
-/

namespace Wow.Modbus

namespace Request

variable (r : Request)

/-- The request is one of the two multiple writes. -/
def WritesMultiple : Prop :=
  FunctionMode.ofCode r.afn = some .writeMultipleCoils ∨ FunctionMode.ofCode r.afn = some .writeMultipleRegisters

/-- The byte count. -/
def byteCount : Nat := octet r.req (r.offset + 5)

/-- The octets of as many values as the quantity says. -/
def required : Nat :=
  if FunctionMode.ofCode r.afn = some .writeMultipleCoils then bitBytes r.bulk else 2 * r.bulk

/-- The largest quantity that is written. -/
def maxWrite : Nat :=
  if FunctionMode.ofCode r.afn = some .writeMultipleCoils then maxWriteBits else maxWriteRegisters

/-- The byte count is that of the quantity, and the required octets are octets of the request in front of its
checksum. -/
def Complete (b : Backend) (data : Mem) : Prop :=
  r.byteCount = r.required ∧ r.offset + 6 + r.required + b.checksumLength ≤ r.req.length
    ∧ data.slice 0 r.required = (r.req.drop (r.offset + 6)).take r.required

theorem answer_of_writesMultiple {b : Backend} {ctx : SlaverDevCtx} {r : Request} (h : r.WritesMultiple) :
    r.answer b ctx = r.writeMultiple b ctx r.maxWrite := by
  rcases h with h | h <;> simp [answer, maxWrite, h]

end Request

/-- A turn that answered the multiple write `r` called `set_afn_addr_val` with values that the request carries whole,
or answered with an exception for the value and called nothing. -/
def Consistent (b : Backend) (r : Request) (t : Turn) : Prop :=
  (∃ data, t.access = some (.set r.slave (UInt8.ofNat r.afn) r.addr data (UInt16.ofNat r.bulk))
      ∧ r.Complete b data)
    ∨ t.access = none ∧ t.sent = b.sendMsgPre (responseException b r.sft ErrorCode.illegalDataValue.code)

/-- The slave has read as many octets as the byte count says, and the checksum. -/
theorem length_of_writesMultiple {b : Backend} {req : List UInt8}
    (hlen : frameLength b .indication req = req.length) (h : (Request.of b req).WritesMultiple) :
    b.headerLength + 6 + (Request.of b req).byteCount + b.checksumLength = req.length := by
  have hf : octet req b.headerLength = 0x0F ∨ octet req b.headerLength = 0x10 := by
    rcases h with h | h <;> rw [FunctionMode.ofCode_eq_some] at h
    · exact Or.inl h
    · exact Or.inr h
  rw [← hlen, frameLength_indication, if_neg (by omega), if_pos hf]
  show b.headerLength + 6 + octet req (b.headerLength + 5) + b.checksumLength = _
  omega

section

variable {b : Backend} {ctx : SlaverDevCtx} {req : List UInt8}

/-- A quantity that the slave takes: the callback is called, whatever the byte count is. -/
theorem access_of_taken (h : (Request.of b req).WritesMultiple)
    (hq : 1 ≤ (Request.of b req).bulk ∧ (Request.of b req).bulk ≤ (Request.of b req).maxWrite) :
    (answering b ctx req).access = some (.set (Request.of b req).slave (UInt8.ofNat (Request.of b req).afn)
      (Request.of b req).addr (pointer req (b.headerLength + 6)) (UInt16.ofNat (Request.of b req).bulk)) := by
  have hreply : (modbusSReply b ctx req).2 = ((Request.of b req).answer b ctx).2 := by
    unfold modbusSReply
    dsimp only
    rcases (Request.of b req).answer b ctx with ⟨_ | _, access⟩ <;> rfl
  show (modbusSReply b ctx req).2 = _
  rw [hreply, Request.answer_of_writesMultiple h, Request.writeMultiple, if_pos hq]
  rfl

/-- A quantity that the slave refuses. -/
theorem answering_of_refused (h : (Request.of b req).WritesMultiple)
    (hq : ¬ (1 ≤ (Request.of b req).bulk ∧ (Request.of b req).bulk ≤ (Request.of b req).maxWrite)) :
    (answering b ctx req).access = none ∧ (answering b ctx req).sent
      = b.sendMsgPre (responseException b (Request.of b req).sft ErrorCode.illegalDataValue.code) := by
  have hanswer : (Request.of b req).answer b ctx = (.error ErrorCode.illegalDataValue.code, none) := by
    rw [Request.answer_of_writesMultiple h, Request.writeMultiple, if_neg hq]
  have hreply := modbusSReply_of_error hanswer
  rw [if_neg (by decide)] at hreply
  exact ⟨congrArg Prod.snd hreply, congrArg Prod.fst hreply⟩

end

/-- **A multiple write is consistent** exactly where its byte count is the one that its quantity requires, or its
quantity is one that the slave refuses. -/
theorem consistent_iff {b : Backend} {ctx : SlaverDevCtx} {sched : List Nat} {up req : List UInt8}
    (hseen : (execRound b ctx sched up).1.seen = some req) (h : (Request.of b req).WritesMultiple) :
    Consistent b (Request.of b req) (execRound b ctx sched up).1
      ↔ (Request.of b req).byteCount = (Request.of b req).required
        ∨ ¬ (1 ≤ (Request.of b req).bulk ∧ (Request.of b req).bulk ≤ (Request.of b req).maxWrite) := by
  obtain ⟨hturn, -, hlen⟩ := execRound_of_seen hseen
  have hread := length_of_writesMultiple hlen h
  rw [hturn]
  by_cases hq : 1 ≤ (Request.of b req).bulk ∧ (Request.of b req).bulk ≤ (Request.of b req).maxWrite
  · have hcall : (answering b ctx req).access = _ := access_of_taken h hq
    constructor
    · rintro (⟨data, -, hcomplete⟩ | ⟨hnone, -⟩)
      · exact Or.inl hcomplete.1
      · rw [hcall] at hnone
        cases hnone
    · rintro (hcount | hrefused)
      · have hin : b.headerLength + 6 + (Request.of b req).required + b.checksumLength ≤ req.length := by omega
        have hdata : (pointer req (b.headerLength + 6)).slice 0 (Request.of b req).required
            = (req.drop (b.headerLength + 6)).take (Request.of b req).required := slice_pointer (by omega)
        exact Or.inl ⟨_, hcall, hcount, hin, hdata⟩
      · exact absurd hq hrefused
  · exact iff_of_true (Or.inr (answering_of_refused h hq)) (Or.inr hq)

/-- A request to write registers that carries the octets of one. -/
def oneValue (quantity : UInt8) : List UInt8 := [0, 1, 0, 0, 0, 9, 1, 0x10, 0, 0, 0, quantity, 2, 0xAB, 0xCD]

/-- The turn on it, with callbacks that accept everything. -/
def turnOnOneValue (quantity : UInt8) : Turn :=
  (execRound .tcp ⟨fun _ _ _ _ => (0, fun _ => 0), fun _ _ _ _ _ => 0⟩ [8, 5, 2] (oneValue quantity)).1

theorem consistent_one_register : Consistent .tcp (Request.of .tcp (oneValue 1)) (turnOnOneValue 1) :=
  (consistent_iff (by decide) (Or.inr rfl)).2 (Or.inl (by decide))

/-- Two registers in the octets of one: the second is read from behind the request. -/
theorem not_consistent_two_registers : (turnOnOneValue 2).seen = some (oneValue 2)
    ∧ (Request.of .tcp (oneValue 2)).WritesMultiple
    ∧ ¬ Consistent .tcp (Request.of .tcp (oneValue 2)) (turnOnOneValue 2) := by
  refine ⟨by decide, Or.inr rfl, ?_⟩
  rintro (⟨data, -, hcount, -⟩ | ⟨hnone, -⟩)
  · exact absurd hcount (by decide)
  · exact absurd hnone nofun

end Wow.Modbus
