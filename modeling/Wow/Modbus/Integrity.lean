import Wow.Encrypt.CrcParams
import Wow.Modbus.Backend

/-!
# Wow.Modbus.Integrity — what the check of an RTU frame finds out

A frame is accepted when its bits, in the order of the line, and the first value of the check leave no remainder
by the generator (`checkIntegrity_iff`).  The difference of two accepted frames of one length is then a multiple of
the generator, and no change within sixteen bits in a row is (`eq_of_window`).

* `lineBits`: the bits of a frame as they are sent; `Burst`: a change of a frame within some bits in a row.
* `integrity_burst`: a frame as it is sent is accepted, with any such change it is not.
-/

namespace Wow.Modbus

open Wow.Encrypt Wow.Crc Polynomial

/-! ### The bits of a frame -/

/-- The bits of a frame in the order of the line: the least significant of each octet first. -/
def lineBits (msg : List UInt8) : List Bool := msg.flatMap fun b => (List.range 8).map b.toBitVec.getLsbD

@[simp] theorem lineBits_nil : lineBits [] = [] := rfl

theorem lineBits_cons (b : UInt8) (msg : List UInt8) :
    lineBits (b :: msg) = (List.range 8).map b.toBitVec.getLsbD ++ lineBits msg := rfl

theorem lineBits_append (d e : List UInt8) : lineBits (d ++ e) = lineBits d ++ lineBits e := List.flatMap_append

@[simp] theorem length_lineBits (msg : List UInt8) : (lineBits msg).length = 8 * msg.length := by
  induction msg with
  | nil => rfl
  | cons b msg ih =>
    rw [lineBits_cons, List.length_append, ih, List.length_map, List.length_range, List.length_cons]
    omega

theorem lineBits_injective : Function.Injective lineBits := by
  intro d
  induction d with
  | nil =>
    intro e h
    have hl := congrArg List.length h
    rw [length_lineBits, length_lineBits] at hl
    exact (List.length_eq_zero_iff.1 (by simpa using hl.symm)).symm
  | cons b d ih =>
    intro e h
    cases e with
    | nil => simp [lineBits_cons, List.range_succ] at h
    | cons c e =>
      rw [lineBits_cons, lineBits_cons] at h
      obtain ⟨hb, hd⟩ := List.append_inj h (by simp)
      rw [List.cons.injEq]
      refine ⟨UInt8.toBitVec_inj.1 (BitVec.eq_of_getLsbD_eq fun i hi => ?_), ih hd⟩
      have h0 := congrArg (fun l => l[i]?) hb
      simpa [List.getElem?_map, List.getElem?_range hi] using h0

/-- The bits of the line are those of the reflected octets, the most significant first. -/
theorem bits_reflect (msg : List UInt8) : bits ((octets msg).map (reflect true)) = lineBits msg := by
  induction msg with
  | nil => rfl
  | cons b msg ih =>
    have hb : bitsOf (reflect true b.toBitVec) = (List.range 8).map b.toBitVec.getLsbD := by
      refine List.map_congr_left fun i _ => ?_
      exact BitVec.getMsbD_reverse
    rw [lineBits_cons, ← hb, ← ih]
    rfl

/-! ### Accepted frames -/

/-- The two octets of a checksum on the line are its mirror image. -/
theorem toPoly_reverse_append (lo hi : UInt8) :
    toPoly (hi.toBitVec ++ lo.toBitVec : BitVec 16).reverse = ofBits (lineBits [lo, hi]) := by
  have hl : bitsOf (hi.toBitVec ++ lo.toBitVec : BitVec 16).reverse = lineBits [lo, hi] := by
    have hb : ∀ i, (hi.toBitVec ++ lo.toBitVec : BitVec 16).reverse.getMsbD i
        = if i < 8 then lo.toBitVec.getLsbD i else hi.toBitVec.getLsbD (i - 8) := by
      intro i
      rw [BitVec.getMsbD_reverse]
      exact BitVec.getLsbD_append
    rw [bitsOf, lineBits_cons, lineBits_cons, lineBits_nil, List.append_nil, List.map_congr_left fun i _ => hb i]
    rfl
  rw [toPoly, hl]

theorem checkIntegrity_append (d : List UInt8) (lo hi : UInt8) :
    Rtu.checkIntegrity (d ++ [lo, hi]) = true ↔ (wowCrc16Modbus d).toBitVec = hi.toBitVec ++ lo.toBitVec := by
  have h1 : octet (d ++ [lo, hi]) (d.length + 1) = hi.toNat := by simp [octet]
  have h0 : octet (d ++ [lo, hi]) d.length = lo.toNat := by simp [octet]
  have hn : (hi.toBitVec ++ lo.toBitVec : BitVec 16).toNat = hi.toNat * 256 + lo.toNat := by
    rw [BitVec.toNat_append, ← Nat.shiftLeft_add_eq_or_of_lt lo.toBitVec.isLt, Nat.shiftLeft_eq]
    rfl
  have hlen : (d ++ [lo, hi]).length = d.length + 2 := by simp
  rw [Rtu.checkIntegrity, decide_eq_true_iff, hlen, Nat.add_sub_cancel, List.take_left]
  rw [show d.length + 2 - 1 = d.length + 1 by omega, h1, h0, ← hn]
  constructor
  · intro h
    exact BitVec.eq_of_toNat_eq h.2
  · intro h
    exact ⟨by omega, congrArg BitVec.toNat h⟩

/-- **An accepted frame leaves no remainder**, the first value of the check in front of it. -/
theorem checkIntegrity_iff (d : List UInt8) (lo hi : UInt8) :
    Rtu.checkIntegrity (d ++ [lo, hi]) = true ↔
      gen infoCrc16Modbus.poly ∣
        X ^ (8 * d.length) * toPoly infoCrc16Modbus.init + ofBits (lineBits (d ++ [lo, hi])) := by
  rw [checkIntegrity_append, toBitVec_wowCrc16Modbus, infoCrc16Modbus.crc_eq_iff (by decide)]
  have hx : toPoly (reflect infoCrc16Modbus.refOut ((hi.toBitVec ++ lo.toBitVec) ^^^ infoCrc16Modbus.xorOut))
      = ofBits (lineBits [lo, hi]) := by
    rw [← toPoly_reverse_append]
    exact congrArg (fun x : BitVec 16 => toPoly x.reverse) BitVec.xor_zero
  have hd : infoCrc16Modbus.dividend (octets d) =
      X ^ 16 * ofBits (lineBits d) + X ^ (8 * d.length) * toPoly infoCrc16Modbus.init := by
    rw [Params.dividend, ← bits_reflect, octets, List.length_map]
    rfl
  rw [hx, hd, lineBits_append, ofBits_append, length_lineBits, CharTwo.sub_eq_add]
  have he : X ^ 16 * ofBits (lineBits d) + X ^ (8 * d.length) * toPoly infoCrc16Modbus.init + ofBits (lineBits [lo, hi])
      = X ^ (8 * d.length) * toPoly infoCrc16Modbus.init
        + (X ^ (8 * [lo, hi].length) * ofBits (lineBits d) + ofBits (lineBits [lo, hi])) := by
    change _ = _ + (X ^ 16 * _ + _)
    ring
  rw [he]

/-! ### Bursts -/

/-- `msg'` is `msg` with a change, all of it within `n` bits in a row on the line. -/
structure Burst (n : Nat) (msg msg' : List UInt8) : Prop where
  length : msg'.length = msg.length
  changed : msg' ≠ msg
  confined : ∃ k, ∀ i, (lineBits msg')[i]? ≠ (lineBits msg)[i]? → k ≤ i ∧ i < k + n

theorem exists_append_two (msg : List UInt8) (h : 2 ≤ msg.length) : ∃ d lo hi, msg = d ++ [lo, hi] := by
  refine ⟨msg.take (msg.length - 2), msg[msg.length - 2], msg[msg.length - 1], ?_⟩
  conv_lhs => rw [← List.take_append_drop (msg.length - 2) msg]
  rw [List.drop_eq_getElem_cons (by omega), List.drop_eq_getElem_cons (by omega), List.drop_of_length_le (by omega)]
  simp [show msg.length - 2 + 1 = msg.length - 1 by omega]

/-- **A frame as `modbus_rtu_send_msg_pre` leaves it is accepted, and with any change within sixteen bits in a
row it is not**, whatever octets the change lies in. -/
theorem integrity_burst (req : List UInt8) :
    Rtu.checkIntegrity (Rtu.sendMsgPre req) = true
      ∧ ∀ msg, Burst 16 (Rtu.sendMsgPre req) msg → Rtu.checkIntegrity msg = false := by
  have hlen : (Rtu.sendMsgPre req).length = req.length + 2 := by simp [Rtu.sendMsgPre]
  have hok := Rtu.checkIntegrity_sendMsgPre req
  refine ⟨hok, fun msg hb => Bool.eq_false_iff.2 fun hmsg => hb.changed ?_⟩
  obtain ⟨d, lo, hi, hd⟩ := exists_append_two msg (by rw [hb.length]; omega)
  obtain ⟨e, lo', hi', he⟩ := exists_append_two (Rtu.sendMsgPre req) (by omega)
  have hde : d.length = e.length := by
    have h := hb.length
    rw [hd, he] at h
    simpa using h
  -- both leave no remainder, so neither does their difference
  have h1 := (checkIntegrity_iff d lo hi).1 (hd ▸ hmsg)
  have h2 := (checkIntegrity_iff e lo' hi').1 (he ▸ hok)
  rw [← hd, hde] at h1
  rw [← he] at h2
  have h3 := dvd_sub h1 h2
  rw [add_sub_add_left_eq_sub] at h3
  obtain ⟨k, hk⟩ := hb.confined
  exact lineBits_injective (eq_of_window (by decide) (by simp [hb.length]) hk h3)

/-- One octet, of which the last bit sent and the first bit of the checksum are changed. -/
theorem integrity_burst_straddles :
    Burst 16 (Rtu.sendMsgPre [0x01]) [0x81, 0x7F, 0x80] ∧ Rtu.checkIntegrity [0x81, 0x7F, 0x80] = false := by
  have hb : Burst 16 (Rtu.sendMsgPre [0x01]) [0x81, 0x7F, 0x80] := by
    have h24 : ∀ i < 24, ¬(7 ≤ i ∧ i < 7 + 16) →
        (lineBits [0x81, 0x7F, 0x80])[i]? = (lineBits (Rtu.sendMsgPre [0x01]))[i]? := by decide +kernel
    refine ⟨rfl, by decide +kernel, 7, fun i hi => ?_⟩
    by_contra hk
    rcases Nat.lt_or_ge i 24 with h | h
    · exact hi (h24 i h hk)
    · apply hi
      rw [List.getElem?_eq_none (by simpa using h), List.getElem?_eq_none (by simpa [Rtu.sendMsgPre] using h)]
  exact ⟨hb, (integrity_burst [0x01]).2 _ hb⟩

end Wow.Modbus
