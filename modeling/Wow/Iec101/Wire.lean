import Wow.Iec101.Receive

/-!
# Wow.Iec101.Wire — frames from the builder to the handler

What a builder sends is a frame in the sense of `WellFormed` as long as it fits the length octet; a station with an
empty array that reads one takes it in, and its array is empty again.

* `wire_mk68`: the octets of a frame that fits; `getD_wire_mk68`: those of any frame, up to its check sum.
-/

namespace Wow.Iec101

open Iec10x Utils

/-! ### Built frames -/

theorem wellFormed_mk10 (ctrl : UInt8) (addr : UInt16) : WellFormed (mk10 ctrl addr).wire :=
  .frame10 ctrl _ _

theorem length_finish (len : UInt8) (buf : List UInt8) : (finish len buf).length = buf.length := by
  unfold finish
  dsimp only
  split <;> split <;> simp only [List.length_set]

theorem getElem?_finish {len : UInt8} {buf : List UInt8} {i : Nat} (h : i + 2 < len.toNat) :
    (finish len buf)[i]? = buf[i]? := by
  unfold finish
  dsimp only
  rw [if_pos (by omega), if_pos (by omega), List.getElem?_set_ne (by omega), List.getElem?_set_ne (by omega)]

/-- **A built frame**, up to its check sum. -/
theorem getD_wire_mk68 (ctrl : UInt8) (addr : UInt16) {asdu : List UInt8} {len i : Nat} (hi : i < asdu.length)
    (hlt : 7 + i + 2 < (UInt8.ofNat len).toNat) : (mk68 ctrl addr asdu len).wire.getD (7 + i) 0 = asdu[i] := by
  rw [List.getD_eq_getElem?_getD]
  unfold mk68 SendBuf.wire
  dsimp only
  rw [List.getElem?_take_of_lt (by omega), getElem?_finish hlt, List.append_assoc,
    List.getElem?_append_right (Nat.le_add_right 7 i),
    show 7 + i - (head68 (UInt8.ofNat len) ctrl addr).length = i from Nat.add_sub_cancel_left 7 i,
    List.getElem?_append_left hi, List.getElem?_eq_getElem hi]
  rfl

/-- The end of a builder whose length is right. -/
theorem take_finish {len : UInt8} {l z : List UInt8} (h : l.length + 2 = len.toNat) (hz : 2 ≤ z.length) :
    (finish len (l ++ z)).take len.toNat = l ++ [checkSum (l.drop 4), frameEnd] := by
  unfold finish
  dsimp only
  rw [if_pos (by omega), if_pos (by omega), show len.toNat - 2 = l.length by omega, List.take_left,
    show len.toNat - 1 = l.length + 1 by omega, ← h]
  obtain ⟨a, z, rfl⟩ : ∃ a z', z = a :: z' := List.exists_cons_of_length_pos (by omega)
  obtain ⟨b, z, rfl⟩ : ∃ b z', z = b :: z' := List.exists_cons_of_length_pos (Nat.lt_of_succ_lt_succ hz)
  rw [List.set_append_right _ _ (Nat.le_refl _), Nat.sub_self, List.set_cons_zero,
    List.set_append_right _ _ (Nat.le_succ _), Nat.succ_sub (Nat.le_refl _), Nat.sub_self, List.set_cons_succ,
    List.set_cons_zero, List.take_append, List.take_of_length_le (Nat.le_add_right _ _), Nat.add_sub_cancel_left]
  rfl

/-- A built frame that fits, whatever lies behind its ASDU in the buffer. -/
theorem wire_mk68_append (ctrl : UInt8) (addr : UInt16) {asdu : List UInt8} (x : List UInt8)
    (h : lenOf asdu ≤ 255) : (mk68 ctrl addr (asdu ++ x) (lenOf asdu)).wire =
      octets68 (UInt8.ofNat (asdu.length + 3)) (ctrl :: (leU16 addr ++ asdu)) := by
  have hlen : lenOf asdu = asdu.length + 9 := by
    rw [lenOf]
    omega
  have hl : (UInt8.ofNat (lenOf asdu)).toNat = lenOf asdu := Nat.mod_eq_of_lt (Nat.lt_succ_of_le h)
  have hsub : UInt8.ofNat (lenOf asdu) - 6 = UInt8.ofNat (asdu.length + 3) := by
    rw [hlen, show asdu.length + 9 = asdu.length + 3 + 6 from rfl, UInt8.ofNat_add]
    exact UInt8.add_sub_cancel _ _
  have hhead : (head68 (UInt8.ofNat (lenOf asdu)) ctrl addr ++ asdu).length = asdu.length + 7 := by
    rw [List.length_append]
    exact Nat.add_comm 7 _
  have hbehind : 2 ≤ (x ++ List.replicate
      (maxBufLen - (head68 (UInt8.ofNat (lenOf asdu)) ctrl addr ++ (asdu ++ x)).length) 0).length := by
    rw [← List.append_assoc, List.length_append, List.length_append, List.length_replicate, hhead, maxBufLen]
    omega
  unfold mk68 SendBuf.wire
  dsimp only
  rw [← List.append_assoc _ asdu x, List.append_assoc (head68 _ _ _ ++ asdu), List.append_assoc _ asdu x,
    take_finish (by rw [hhead, hl, hlen]) hbehind, head68, hsub]
  simp [octets68]

/-- **A built frame that fits** its length octet. -/
theorem wire_mk68 (ctrl : UInt8) (addr : UInt16) {asdu : List UInt8} (h : lenOf asdu ≤ 255) :
    (mk68 ctrl addr asdu (lenOf asdu)).wire =
      octets68 (UInt8.ofNat (asdu.length + 3)) (ctrl :: (leU16 addr ++ asdu)) := by
  have hwire := wire_mk68_append ctrl addr [] h
  rwa [List.append_nil] at hwire

/-- The octets on the wire are as many as the length says. -/
theorem length_wire_mk68 (ctrl : UInt8) (addr : UInt16) (asdu : List UInt8) (len : Nat) :
    (mk68 ctrl addr asdu len).wire.length = (UInt8.ofNat len).toNat := by
  have hlt := (UInt8.ofNat len).toNat_lt
  unfold mk68 SendBuf.wire
  dsimp only
  rw [List.length_take, length_finish, List.length_append, List.length_replicate, maxBufLen]
  omega

theorem length_wire_le (ctrl : UInt8) (addr : UInt16) (asdu : List UInt8) (len : Nat) :
    (mk68 ctrl addr asdu len).wire.length ≤ (UInt8.ofNat len).toNat := List.length_take_le _ _

/-! ### Delivered frames -/

section Delivered

variable {σ : Type} {h : Handlers σ} {t : Station σ} {read : Read}

theorem taken_of_stable {a : ByteArrayT} (hpos : 0 < a.size) (h0 : a.data 0 = stableBegin) :
    taken a = taken10 (a.remove 0 0) := by
  obtain ⟨hfirst, hlater⟩ := find_of_stable hpos h0
  unfold taken
  rw [hfirst]
  cases hf : a.find variableBegin with
  | none => rfl
  | some j => exact if_pos (hlater j hf)

theorem taken_of_variable {a : ByteArrayT} (hpos : 0 < a.size) (h0 : a.data 0 = variableBegin) :
    taken a = taken68 (a.remove 0 0) := by
  unfold taken
  rw [find_first hpos h0]
  cases a.find stableBegin with
  | none => rfl
  | some j => exact if_neg (Nat.not_lt_zero j)

/-- A frame in the array. -/
theorem taken_octets {a : ByteArrayT} {f : List UInt8} (hf : WellFormed f) (hle : f.length ≤ 257)
    (ha : a.octets = f) :
    ∃ m : Mem, m.slice 0 f.length = f ∧
      ((taken a = .on10 m ∧ f.length = stableLen) ∨ ∃ l body, Whole l body ∧ f = octets68 l body ∧
        taken a = .on68 m f.length) := by
  have hpre' : f <+: a.octets := ⟨[], by rw [List.append_nil, ha]⟩
  have hpre : f <+: (a.remove 0 0).octets := (remove_nothing a).1 ▸ hpre'
  have hsize : f.length ≤ (a.remove 0 0).size := by
    rw [← ByteArrayT.length_octets]
    exact hpre.length_le
  have hpos : f.length ≤ a.size := by
    rw [← ByteArrayT.length_octets]
    exact hpre'.length_le
  have hslice : (a.remove 0 0).data.slice 0 f.length = f := by
    rw [slice_of_front hpre (Nat.le_of_eq (Nat.zero_add _)), List.drop_zero, List.take_length]
  refine ⟨_, hslice, ?_⟩
  cases hf with
  | frame10 ctrl x y =>
    have h0 : a.data 0 = stableBegin := data_of_front hpre' (Nat.zero_lt_succ 5)
    refine Or.inl ⟨?_, rfl⟩
    rw [taken_of_stable (Nat.lt_of_lt_of_le (Nat.zero_lt_succ 5) hpos) h0]
    exact if_pos ⟨hsize, valid10_of_front hpre⟩
  | frame68 l body hwhole =>
    have hlen := length_octets68 l body
    have h0 : a.data 0 = variableBegin := data_of_front hpre' (by omega)
    have h1 : (a.remove 0 0).data 1 = l := data_of_front hpre (i := 1) (by omega)
    have hext : ((a.remove 0 0).data 1).toNat + stableLen = (octets68 l body).length := by
      rw [h1, ← hwhole.length, hlen]
      rfl
    refine Or.inr ⟨l, body, hwhole, rfl, ?_⟩
    rw [taken_of_variable (by omega) h0, taken68, hext]
    exact if_pos ⟨hsize, hle, valid68_of_front hwhole.length hpre⟩

/-- **A frame that reaches a station with an empty array** is served, and the array is empty again. -/
theorem recv_frame (hspare : Spare h) {f : List UInt8} (hf : WellFormed f) (hle : f.length ≤ 255) (ht : t.Sound)
    (hempty : t.array.octets = []) (hread : read.val = f) : (recv h read t).1.Sound ∧
      (recv h read t).1.array.octets = [] ∧ ∃ m : Mem, m.slice 0 f.length = f ∧
        ((((recv h read t).1.core, (recv h read t).2) = (Taken.on10 m).serve h t.core ∧ f.length = stableLen) ∨
          ∃ l body, Whole l body ∧ f = octets68 l body ∧
            ((recv h read t).1.core, (recv h read t).2) = (Taken.on68 m f.length).serve h t.core) := by
  obtain ⟨hoct, hsize⟩ := octets_receive ht.2 (by rw [hread]; exact hle)
  rw [hempty, List.nil_append, hread] at hoct
  have hloop : (receive read t).looping = false := by
    rw [← ht.1, receive]
    split <;> rfl
  have hrecv : recv h read t = frameParse h (receive read t) := by
    rw [recv, if_neg (by rw [ht.1]; exact Bool.false_ne_true)]
  obtain ⟨h1, h2, h3, h4, -⟩ := frameParse_whole hspare hf (by omega) (hoct.trans (List.append_nil f).symm)
  have htaken : t.taken read = taken (receive read t).array := if_neg (by rw [ht.1]; exact Bool.false_ne_true)
  refine ⟨?_, by rw [hrecv]; exact h1, ?_⟩
  · rw [hrecv]
    exact ⟨h4.trans hloop, h3 ▸ h2.trans hsize⟩
  · obtain ⟨m, hslice, hm⟩ := taken_octets hf (by omega) hoct
    rcases hm with hm | ⟨l, body, hwhole, hf', hm⟩
    · refine ⟨m, hslice, Or.inl ⟨?_, hm.2⟩⟩
      rw [recv_taken, htaken, hm.1]
    · refine ⟨m, hslice, Or.inr ⟨l, body, hwhole, hf', ?_⟩⟩
      rw [recv_taken, htaken, hm]

/-- Nothing comes, and there is nothing to take. -/
theorem recv_nothing (ht : t.Sound) (hempty : t.array.octets = []) (hread : read.val = []) :
    recv h read t = (t, []) := by
  have hreceive : receive read t = t := if_neg (by rw [hread]; exact Nat.lt_irrefl 0)
  rw [recv, if_neg (by rw [ht.1]; exact Bool.false_ne_true), hreceive, frameParse_of_empty hempty]

/-- A frame of fixed length. -/
theorem recv_mk10 (hspare : Spare h) {ctrl : UInt8} {addr : UInt16} (ht : t.Sound) (hempty : t.array.octets = [])
    (hread : read.val = (mk10 ctrl addr).wire) : (recv h read t).1.Sound ∧ (recv h read t).1.array.octets = [] ∧
      ∃ m : Mem, m 1 = ctrl ∧ ((recv h read t).1.core, (recv h read t).2) = (Taken.on10 m).serve h t.core := by
  obtain ⟨h1, h2, m, hslice, hm⟩ := recv_frame hspare (wellFormed_mk10 ctrl addr) (by decide : 6 ≤ 255) ht hempty hread
  refine ⟨h1, h2, m, ?_, ?_⟩
  · have h1 := congrArg (·[1]?) hslice
    exact Option.some.inj h1
  · rcases hm with hm | ⟨l, body, -, hf, -⟩
    · exact hm.1
    · exact absurd (congrArg List.head? hf) (by decide : ¬ some stableBegin = some variableBegin)

/-- A frame of variable length. -/
theorem recv_octets68 (hspare : Spare h) {l : UInt8} {body : List UInt8} (hwhole : Whole l body)
    (hle : (octets68 l body).length ≤ 255) (ht : t.Sound) (hempty : t.array.octets = [])
    (hread : read.val = octets68 l body) : (recv h read t).1.Sound ∧ (recv h read t).1.array.octets = [] ∧
      ∃ m : Mem, (∀ i (hi : i < body.length), m (4 + i) = body[i]) ∧ ∃ len,
        ((recv h read t).1.core, (recv h read t).2) = (Taken.on68 m len).serve h t.core := by
  obtain ⟨h1, h2, m, hslice, hm⟩ := recv_frame hspare (.frame68 l body hwhole) hle ht hempty hread
  refine ⟨h1, h2, m, fun i hi => mem_of_slice hslice hi, ?_⟩
  rcases hm with ⟨-, hsix⟩ | ⟨_, _, -, -, hm⟩
  · have hlen := length_octets68 l body
    have hhead := hwhole.head
    rw [hsix, stableLen] at hlen
    omega
  · exact ⟨_, hm⟩

end Delivered

end Wow.Iec101
