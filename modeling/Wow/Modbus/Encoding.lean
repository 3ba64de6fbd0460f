import Wow.Modbus.Agreement

/-!
# Wow.Modbus.Encoding — what the requests of the master say

The calls take addresses and sizes of thirty-two bits; a request has sixteen bits for each, one octet for the
number of data octets, and at most the maximal ADU.  `decodeRequest` reads a request by the layout of its function
alone, and a request of a call is right when it says what the caller passed.

* `decodeRequest_read`, `decodeRequest_single`, `decodeRequest_multiple`: what a request built by the master
  says, whatever it was built from.
* `requests_encode_iff`: the calls for which the request is right, or refused: nothing but a read's size is checked.
-/

namespace Wow.Modbus

open Backend Master

/-- What a request says. -/
structure RequestFields where
  slave : Nat
  function : Nat
  addr : Nat
  size : Nat
  byteCount : Option Nat
  values : List UInt8
  deriving DecidableEq

/-- A request, read by the layout of its function: a single write has one value and no number. -/
def decodeRequest (b : Backend) (req : List UInt8) : RequestFields :=
  let offset := b.headerLength
  let function := octet req offset
  let nb := word req (offset + 3)
  let fields (size : Nat) (byteCount : Option Nat) (values : List UInt8) : RequestFields :=
    ⟨octet req (offset - 1), function, word req (offset + 1), size, byteCount, values⟩
  match FunctionMode.ofCode function with
  | some .writeSingleCoil => fields 1 none [if nb ≠ 0 then 1 else 0]
  | some .writeSingleRegister => fields 1 none (be16 nb)
  | some .writeMultipleCoils | some .writeMultipleRegisters =>
    fields nb (some (octet req (offset + 5)))
      ((req.take (req.length - b.checksumLength)).drop (offset + 6))
  | _ => fields nb none []

/-- The request says what was passed, and stays inside the request buffer and the maximal ADU. -/
def Encodes (b : Backend) (nSlave : Int) (eAfn : FunctionMode) (u32Addr u32Size : UInt32) (values : List UInt8)
    (req : List UInt8) : Prop :=
  decodeRequest b req
      = ⟨nSlave.toNat, eAfn.code.toNat, u32Addr.toNat, u32Size.toNat,
          if IsMultiple eAfn then some values.length else none, values⟩
    ∧ req.length ≤ maxMessageLength ∧ req.length ≤ b.maxAduLength

variable {b : Backend} {tId : UInt16} {slave : UInt8} {eAfn : FunctionMode} {addr nb : Nat}

/-- The octets from the function code on, without the checksum. -/
theorem drop_take_adu (b : Backend) (tId : Nat) (slave : UInt8) (pdu : List UInt8) (i : Nat) :
    ((b.adu tId slave pdu).take ((b.adu tId slave pdu).length - b.checksumLength)).drop (b.headerLength + i)
      = pdu.drop i := by
  cases b with
  | rtu =>
    have h : (rtu.adu tId slave pdu).take ((rtu.adu tId slave pdu).length - rtu.checksumLength) = slave :: pdu := by
      simp [adu, Rtu.sendMsgPre, checksumLength]
    rw [h, Nat.add_comm]
    rfl
  | tcp =>
    have h : (tcp.adu tId slave pdu).take ((tcp.adu tId slave pdu).length - tcp.checksumLength)
        = be16 tId ++ be16 0 ++ be16 (pdu.length + 1) ++ slave :: pdu := by
      rw [show tcp.checksumLength = 0 from rfl, Nat.sub_zero, List.take_length]
      rfl
    rw [h, ← List.drop_drop]
    rfl

/-- What a request of a read says. -/
theorem decodeRequest_read (hread : IsRead eAfn) :
    decodeRequest b (b.adu tId.toNat slave (requestPdu eAfn addr nb []))
      = ⟨slave.toNat, eAfn.code.toNat, addr % 65536, nb % 65536, none, []⟩ := by
  have hcode : octet (b.adu tId.toNat slave (requestPdu eAfn addr nb [])) b.headerLength = eAfn.code.toNat :=
    octet_adu_code ..
  simp only [decodeRequest, hcode, FunctionMode.ofCode_code, octet_adu_slave, word_adu_addr, word_adu_nb]
  rcases hread with rfl | rfl | rfl | rfl <;> rfl

/-- What a request of a single write says. -/
theorem decodeRequest_single (pu8Data : Mem) (u32Size : UInt32)
    (hsingle : eAfn = .writeSingleCoil ∨ eAfn = .writeSingleRegister) :
    decodeRequest b (b.adu tId.toNat slave (requestPdu eAfn addr (writeNb eAfn u32Size pu8Data) []))
      = ⟨slave.toNat, eAfn.code.toNat, addr % 65536, 1, none, writtenOctets eAfn 1 pu8Data⟩ := by
  have hcode : octet (b.adu tId.toNat slave (requestPdu eAfn addr (writeNb eAfn u32Size pu8Data) [])) b.headerLength
      = eAfn.code.toNat := octet_adu_code ..
  simp only [decodeRequest, hcode, FunctionMode.ofCode_code, octet_adu_slave, word_adu_addr, word_adu_nb]
  rcases hsingle with rfl | rfl
  · by_cases h : pu8Data.u16 0 = 0 <;> simp [writeNb, writtenOctets, h]
  · have h0 := (pu8Data 0).toNat_lt
    have h1 := (pu8Data 1).toNat_lt
    have hmod : ((pu8Data 0).toNat * 256 + (pu8Data 1).toNat) % 65536 = (pu8Data 0).toNat * 256 + (pu8Data 1).toNat :=
      Nat.mod_eq_of_lt (by omega)
    simp only [writeNb, writtenOctets, hmod, be16_octets]
    rfl

/-- What a request of a multiple write says. -/
theorem decodeRequest_multiple (hmul : IsMultiple eAfn = true) (x : UInt8) (body : List UInt8) :
    decodeRequest b (b.adu tId.toNat slave (requestPdu eAfn addr nb (x :: body)))
      = ⟨slave.toNat, eAfn.code.toNat, addr % 65536, nb % 65536, some x.toNat, body⟩ := by
  have hcode : octet (b.adu tId.toNat slave (requestPdu eAfn addr nb (x :: body))) b.headerLength = eAfn.code.toNat :=
    octet_adu_code ..
  have hcount : octet (b.adu tId.toNat slave (requestPdu eAfn addr nb (x :: body))) (b.headerLength + 5) = x.toNat := by
    rw [octet_adu b tId.toNat slave (by rw [length_requestPdu, List.length_cons]; omega)]
    rfl
  have hvalues := drop_take_adu b tId.toNat slave (requestPdu eAfn addr nb (x :: body)) 6
  simp only [decodeRequest, hcode, FunctionMode.ofCode_code, octet_adu_slave, word_adu_addr, word_adu_nb, hcount,
    hvalues]
  simp only [IsMultiple, decide_eq_true_eq] at hmul
  rcases hmul with rfl | rfl <;> rfl

/-! ### The calls -/

/-- A read that `wow_modbus_m_read_data` does not refuse. -/
def ReadAccepted (nSlave : Int) (eAfn : FunctionMode) (size : Nat) : Prop :=
  (0 < nSlave ∧ nSlave ≤ 247) ∧ match eAfn with
    | .readCoils | .readDiscreteInputs => size ≤ maxReadBits
    | .readHoldingRegisters | .readInputRegisters => size ≤ maxReadRegisters
    | _ => False

/-- A write that `wow_modbus_m_write_data` does not refuse. -/
def WriteAccepted (nSlave : Int) (eAfn : FunctionMode) : Prop := (0 < nSlave ∧ nSlave ≤ 247) ∧ IsWrite eAfn

/-- The call sends nothing, or a request that says what it was given. -/
def ReadEncodes (m : Master) (nSlave : Int) (eAfn : FunctionMode) (u32Addr u32Size : UInt32) : Prop :=
  ∀ m' req, m.readRequest nSlave eAfn u32Addr u32Size = .ok (m', req) →
    Encodes m.ctx nSlave eAfn u32Addr u32Size [] req

/-- The same of a write and its data. -/
def WriteEncodes (m : Master) (nSlave : Int) (eAfn : FunctionMode) (u32Addr u32Size : UInt32) (pu8Data : Mem) :
    Prop :=
  ∀ m' req, m.writeRequest nSlave eAfn u32Addr u32Size pu8Data = .ok (m', req) →
    Encodes m.ctx nSlave eAfn u32Addr u32Size (writtenOctets eAfn u32Size.toNat pu8Data) req

/-- The writes that a request can carry: one value in a single write, at most 247 data octets in a multiple one. -/
def WriteCarries (eAfn : FunctionMode) (size : Nat) : Prop :=
  match eAfn with
  | .writeSingleCoil | .writeSingleRegister => size = 1
  | .writeMultipleCoils => size ≤ 1976
  | .writeMultipleRegisters => size ≤ 123
  | _ => True

theorem readRequest_of_accepted (m : Master) {nSlave : Int} {u32Addr u32Size : UInt32}
    (h : ReadAccepted nSlave eAfn u32Size.toNat) :
    IsRead eAfn ∧ u32Size.toNat ≤ maxReadBits ∧ m.readRequest nSlave eAfn u32Addr u32Size
      = .ok (m.request nSlave eAfn u32Addr.toNat u32Size.toNat []) := by
  obtain ⟨hs, hsize⟩ := h
  have hle : maxReadRegisters ≤ maxReadBits := by decide
  simp only [readRequest, hs, and_self, not_true_eq_false, if_false, IsRead]
  cases eAfn
  case readCoils => exact ⟨by simp, hsize, if_pos hsize⟩
  case readDiscreteInputs => exact ⟨by simp, hsize, if_pos hsize⟩
  case readHoldingRegisters => exact ⟨by simp, Nat.le_trans hsize hle, if_pos hsize⟩
  case readInputRegisters => exact ⟨by simp, Nat.le_trans hsize hle, if_pos hsize⟩
  all_goals cases hsize

theorem readRequest_of_not_accepted (m m' : Master) {nSlave : Int} {u32Addr u32Size : UInt32} {req : List UInt8}
    (h : ¬ ReadAccepted nSlave eAfn u32Size.toNat) :
    m.readRequest nSlave eAfn u32Addr u32Size ≠ .ok (m', req) := by
  unfold ReadAccepted at h
  unfold readRequest
  by_cases hs : 0 < nSlave ∧ nSlave ≤ 247
  · simp only [hs, and_self, true_and, not_true_eq_false, if_false] at h ⊢
    cases eAfn <;> dsimp only at h ⊢ <;> simp [h]
  · simp [hs]

theorem writeRequest_of_not_accepted (m m' : Master) {nSlave : Int} {u32Addr u32Size : UInt32} {pu8Data : Mem}
    {req : List UInt8} (h : ¬ WriteAccepted nSlave eAfn) :
    m.writeRequest nSlave eAfn u32Addr u32Size pu8Data ≠ .ok (m', req) := by
  unfold WriteAccepted IsWrite at h
  unfold writeRequest
  by_cases hs : 0 < nSlave ∧ nSlave ≤ 247
  · simp only [hs, and_self, true_and, not_true_eq_false, if_false] at h ⊢
    cases eAfn <;> simp at h ⊢
  · simp [hs]

/-- An early return is not a success. -/
theorem readRequest_error {m : Master} {nSlave : Int} {u32Addr u32Size : UInt32} {ret : Int}
    (h : m.readRequest nSlave eAfn u32Addr u32Size = .error ret) : ret ≠ 0 := by
  rintro rfl
  unfold readRequest at h
  revert h
  split
  · simp [paramInputArgInvalid]
  · cases eAfn <;> dsimp only <;> (try split) <;> simp

theorem writeRequest_error {m : Master} {nSlave : Int} {u32Addr u32Size : UInt32} {pu8Data : Mem} {ret : Int}
    (h : m.writeRequest nSlave eAfn u32Addr u32Size pu8Data = .error ret) : ret ≠ 0 := by
  rintro rfl
  unfold writeRequest at h
  revert h
  split
  · simp [paramInputArgInvalid]
  · cases eAfn <;> simp

/-- What holds of every request of a call that sends one. -/
theorem forall_sent_iff {call : Except Int (Master × List UInt8)} {p : Master × List UInt8} (h : call = .ok p)
    (P : List UInt8 → Prop) : (∀ m' req, call = .ok (m', req) → P req) ↔ P p.2 := by
  subst h
  constructor
  · exact fun h => h p.1 p.2 rfl
  · intro h m' req hok
    rw [Except.ok.inj hok] at h
    exact h

theorem readEncodes_iff (m : Master) (nSlave : Int) (eAfn : FunctionMode) (u32Addr u32Size : UInt32) :
    ReadEncodes m nSlave eAfn u32Addr u32Size
      ↔ (ReadAccepted nSlave eAfn u32Size.toNat → u32Addr.toNat < 65536) := by
  by_cases h : ReadAccepted nSlave eAfn u32Size.toNat
  · obtain ⟨hread, hsize, hreq⟩ := @readRequest_of_accepted eAfn m nSlave u32Addr u32Size h
    have hsize' : u32Size.toNat % 65536 = u32Size.toNat := by
      unfold maxReadBits at hsize
      omega
    have hmul : IsMultiple eAfn = false := by rcases hread with rfl | rfl | rfl | rfl <;> rfl
    have hlen : (m.ctx.adu m.next.tId.toNat (UInt8.ofNat nSlave.toNat)
        (requestPdu eAfn u32Addr.toNat u32Size.toNat [])).length ≤ m.ctx.maxAduLength := by
      rw [length_adu]
      exact fits_requestPdu ..
    rw [ReadEncodes, forall_sent_iff hreq, request_eq, Encodes, decodeRequest_read hread, slave_toNat h.1, hsize', hmul]
    constructor
    · rintro ⟨hfields, -⟩ -
      have haddr := congrArg RequestFields.addr hfields
      dsimp only at haddr
      omega
    · intro haddr
      rw [Nat.mod_eq_of_lt (haddr h)]
      exact ⟨rfl, Nat.le_trans hlen (maxAduLength_le _), hlen⟩
  · simp only [h, false_imp_iff, iff_true]
    exact fun m' req hok => absurd hok (readRequest_of_not_accepted m m' h)

theorem length_adu_multiple (b : Backend) (tId : Nat) (slave : UInt8) (eAfn : FunctionMode) (addr nb : Nat)
    (x : UInt8)
    (body : List UInt8) :
    (b.adu tId slave (requestPdu eAfn addr nb (x :: body))).length ≤ b.maxAduLength ↔ body.length ≤ 247 := by
  rw [length_adu]
  cases b <;> simp [requestPdu, headerLength, checksumLength, maxAduLength] <;> omega

/-- What of a single write has to fit. -/
theorem encodes_single_iff (m : Master) {nSlave : Int} (hs : 0 < nSlave ∧ nSlave ≤ 247)
    (hsingle : eAfn = .writeSingleCoil ∨ eAfn = .writeSingleRegister) (u32Addr u32Size : UInt32) (pu8Data : Mem) :
    Encodes m.ctx nSlave eAfn u32Addr u32Size (writtenOctets eAfn u32Size.toNat pu8Data)
        (m.ctx.adu m.next.tId.toNat (UInt8.ofNat nSlave.toNat)
          (requestPdu eAfn u32Addr.toNat (writeNb eAfn u32Size pu8Data) []))
      ↔ u32Addr.toNat < 65536 ∧ u32Size.toNat = 1 := by
  have hmul : IsMultiple eAfn = false := by rcases hsingle with rfl | rfl <;> rfl
  have hvalues : writtenOctets eAfn u32Size.toNat pu8Data = writtenOctets eAfn 1 pu8Data := by
    rcases hsingle with rfl | rfl <;> rfl
  have hlen : (m.ctx.adu m.next.tId.toNat (UInt8.ofNat nSlave.toNat)
      (requestPdu eAfn u32Addr.toNat (writeNb eAfn u32Size pu8Data) [])).length ≤ m.ctx.maxAduLength := by
    rw [length_adu]
    exact fits_requestPdu ..
  rw [Encodes, decodeRequest_single pu8Data u32Size hsingle, slave_toNat hs, hmul, hvalues]
  constructor
  · rintro ⟨hfields, -⟩
    have haddr := congrArg RequestFields.addr hfields
    have hsize := congrArg RequestFields.size hfields
    dsimp only at haddr hsize
    omega
  · rintro ⟨haddr, hsize⟩
    rw [Nat.mod_eq_of_lt haddr, hsize]
    exact ⟨rfl, Nat.le_trans hlen (maxAduLength_le _), hlen⟩

/-- What of a multiple write has to fit, for `n` octets of data sent. -/
theorem encodes_multiple_iff (m : Master) {nSlave : Int} (hs : 0 < nSlave ∧ nSlave ≤ 247)
    (hmul : IsMultiple eAfn = true)
    (u32Addr u32Size : UInt32) (values : List UInt8) (pu8Data : Mem) (n : Nat) :
    Encodes m.ctx nSlave eAfn u32Addr u32Size values
        (m.ctx.adu m.next.tId.toNat (UInt8.ofNat nSlave.toNat)
          (requestPdu eAfn u32Addr.toNat u32Size.toNat (UInt8.ofNat n :: pu8Data.slice 0 n)))
      ↔ u32Addr.toNat < 65536 ∧ u32Size.toNat < 65536 ∧ n ≤ 247 ∧ values = pu8Data.slice 0 n := by
  rw [Encodes, decodeRequest_multiple hmul, slave_toNat hs, hmul, length_adu_multiple, Mem.length_slice]
  constructor
  · rintro ⟨hfields, -, hn⟩
    have haddr := congrArg RequestFields.addr hfields
    have hsize := congrArg RequestFields.size hfields
    have hvalues := congrArg RequestFields.values hfields
    dsimp only at haddr hsize hvalues
    exact ⟨by omega, by omega, hn, hvalues.symm⟩
  · rintro ⟨haddr, hsize, hn, rfl⟩
    have hcount : (UInt8.ofNat n).toNat = n := by
      simp
      omega
    have hlen := (length_adu_multiple m.ctx m.next.tId.toNat (UInt8.ofNat nSlave.toNat) eAfn u32Addr.toNat u32Size.toNat
      (UInt8.ofNat n) (pu8Data.slice 0 n)).2 (by rwa [Mem.length_slice])
    rw [Nat.mod_eq_of_lt haddr, Nat.mod_eq_of_lt hsize, hcount, Mem.length_slice]
    exact ⟨rfl, Nat.le_trans hlen (maxAduLength_le _), hn⟩

theorem writeEncodes_iff (m : Master) (nSlave : Int) (eAfn : FunctionMode) (u32Addr u32Size : UInt32)
    (pu8Data : Mem) :
    WriteEncodes m nSlave eAfn u32Addr u32Size pu8Data
      ↔ (WriteAccepted nSlave eAfn → u32Addr.toNat < 65536 ∧ WriteCarries eAfn u32Size.toNat) := by
  by_cases h : WriteAccepted nSlave eAfn
  · obtain ⟨hs, hwrite⟩ := h
    rw [WriteEncodes, forall_sent_iff (writeRequest_eq m hs u32Addr u32Size pu8Data hwrite), request_eq]
    simp only [show WriteAccepted nSlave eAfn from ⟨hs, hwrite⟩, true_imp_iff]
    rcases hwrite with rfl | rfl | rfl | rfl
    · exact encodes_single_iff m hs (Or.inl rfl) u32Addr u32Size pu8Data
    · exact encodes_single_iff m hs (Or.inr rfl) u32Addr u32Size pu8Data
    · refine (encodes_multiple_iff m hs rfl u32Addr u32Size _ pu8Data (bitBytes u32Size.toNat)).trans ?_
      simp only [writtenOctets, and_true, WriteCarries, bitBytes]
      split <;> omega
    · refine (encodes_multiple_iff m hs rfl u32Addr u32Size _ pu8Data (u32Size * 2).toNat).trans ?_
      have hmul : (u32Size * 2).toNat = u32Size.toNat * 2 % 2 ^ 32 := by
        rw [UInt32.toNat_mul]
        rfl
      simp only [writtenOctets, WriteCarries]
      constructor
      · rintro ⟨haddr, hsize, hn, -⟩
        omega
      · rintro ⟨haddr, hsize⟩
        exact ⟨haddr, by omega, by omega, by rw [hmul, Nat.mod_eq_of_lt (by omega)]⟩
  · simp only [h, false_imp_iff, iff_true]
    exact fun m' req hok => absurd hok (writeRequest_of_not_accepted m m' h)

end Wow.Modbus
