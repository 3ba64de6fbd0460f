import Wow.Utils.TypeArrays

/-!
# Wow.Utils.TypeRegisters — 32-bit values and pairs of registers

`uint32_to_uint16` and `float_to_uint16` with their ways back.  A `float` is its bits; an access that leaves an array is
`none`; no pointer is null.

* `joinLoop_first`: `uint16_to_uint32` puts all its values in the first place.
* `splitLoop_none`: `float_to_uint16` takes every fourth value, and leaves the array with the second.
* `registers_back_iff`: one value comes back, where the lengths are counted as the check wants them.
-/

namespace Wow.Utils.TypeRegisters

open Block Parts TypeArrays

abbrev Register := BitVec 16

/-! ### The functions -/

/-- The order of the registers that a conversion without a suffix takes. -/
def order (cpu : Cpu) : Endian :=
  if cpu.wowBigEndian = 1 then .be else if cpu.wowLittleEndian = 1 then .le else .be

/-- The shifts of a pair of registers. -/
def shifts : Endian → List Nat
  | .le => [0, 16]
  | .be => [16, 0]

/-- The loop over the values, with the places where they are read. -/
def splitLoop (place : Nat → Nat) (e : Endian) (values : List (BitVec 32)) :
    Nat → List Register → Option (List Register)
  | 0, pu16Data => some pu16Data
  | i + 1, pu16Data => do
    let pu16Data ← splitLoop place e values i pu16Data
    let x ← values[place i]?
    store pu16Data (2 * i) (split 16 (shifts e) x)

/-- The loop over the pairs of registers, with the places where the values are written. -/
def joinLoop (place : Nat → Nat) (e : Endian) (pu16Data : List Register) :
    Nat → List (BitVec 32) → Option (List (BitVec 32))
  | 0, values => some values
  | i + 1, values => do
    let values ← joinLoop place e pu16Data i values
    let xs ← load pu16Data (2 * i) 2
    store values (place i) [join 32 (shifts e) xs]

/-- A function with a suffix: the check of the lengths, and the loop. -/
def checked {α : Type} (loop : Nat → List α → Option (List α)) (sDlen : Int) (dst : List α) (nDlen : Int) :
    Option (Int × List α) :=
  if nDlen ≥ asInt (sDlen * 2) then (loop sDlen.toNat dst).map (0, ·) else some (-PARAM_INPUT_ARG_INVALID, dst)

/-- `uint32_to_uint16_le`, `uint32_to_uint16_be`. -/
def uint32ToUint16E (e : Endian) (pu32Value : List (BitVec 32)) := checked (splitLoop id e pu32Value)

/-- `uint32_to_uint16`. -/
def uint32ToUint16 (cpu : Cpu) (pu32Value : List (BitVec 32)) (sDlen : Int) (pu16Data : List Register) (nDlen : Int) :
    Option (Int × List Register) :=
  if nDlen ≥ asInt (sDlen * 2) then
    (uint32ToUint16E (order cpu) pu32Value sDlen pu16Data nDlen).map fun r => (0, r.2)
  else some (-PARAM_INPUT_ARG_INVALID, pu16Data)

/-- `uint16_to_uint32_le`, `uint16_to_uint32_be`: the pointer to the values stays where it is. -/
def uint16ToUint32E (e : Endian) (pu16Data : List Register) := checked (joinLoop (fun _ => 0) e pu16Data)

/-- `uint16_to_uint32`. -/
def uint16ToUint32 (cpu : Cpu) (pu16Data : List Register) (sDlen : Int) (pu32Value : List (BitVec 32)) (nDlen : Int) :
    Option (Int × List (BitVec 32)) :=
  (uint16ToUint32E (order cpu) pu16Data sDlen pu32Value nDlen).map fun r => (0, r.2)

/-- `uint16_to_float_le`, `uint16_to_float_be`: the stride is that of octets. -/
def uint16ToFloatE (e : Endian) (pu16Data : List Register) := checked (joinLoop (· * 4) e pu16Data)

/-- `uint16_to_float`. -/
def uint16ToFloat (cpu : Cpu) (pu16Data : List Register) (sDlen : Int) (pfValue : List (BitVec 32)) (nDlen : Int) :
    Option (Int × List (BitVec 32)) :=
  (uint16ToFloatE (order cpu) pu16Data sDlen pfValue nDlen).map fun r => (0, r.2)

/-- `float_to_uint16_le`, `float_to_uint16_be`. -/
def floatToUint16E (e : Endian) (pfValue : List (BitVec 32)) := checked (splitLoop (· * 4) e pfValue)

/-- `float_to_uint16`. -/
def floatToUint16 (cpu : Cpu) (pfValue : List (BitVec 32)) (sDlen : Int) (pu16Data : List Register) (nDlen : Int) :
    Option (Int × List Register) :=
  if nDlen ≥ asInt (sDlen * 2) then
    (floatToUint16E (order cpu) pfValue sDlen pu16Data nDlen).map fun r => (0, r.2)
  else some (-PARAM_INPUT_ARG_INVALID, pu16Data)

/-! ### The requirement -/

/-- The type of the values. -/
inductive Value where
  | uint32
  | float

/-- The conversion to registers. -/
def toRegisters (cpu : Cpu) : Value → Order → List (BitVec 32) → Int → List Register → Int →
    Option (Int × List Register)
  | .uint32, .default => uint32ToUint16 cpu
  | .uint32, .le => uint32ToUint16E .le
  | .uint32, .be => uint32ToUint16E .be
  | .float, .default => floatToUint16 cpu
  | .float, .le => floatToUint16E .le
  | .float, .be => floatToUint16E .be

/-- The conversion of registers. -/
def ofRegisters (cpu : Cpu) : Value → Order → List Register → Int → List (BitVec 32) → Int →
    Option (Int × List (BitVec 32))
  | .uint32, .default => uint16ToUint32 cpu
  | .uint32, .le => uint16ToUint32E .le
  | .uint32, .be => uint16ToUint32E .be
  | .float, .default => uint16ToFloat cpu
  | .float, .le => uint16ToFloatE .le
  | .float, .be => uint16ToFloatE .be

/-- What the length of the registers counts. -/
inductive Counted where
  | pairs
  | registers

/-- That length, for so many values. -/
def Counted.length : Counted → Nat → Nat
  | pairs, n => n
  | registers, n => 2 * n

/-- **The requirement**: the values come back, whatever the arrays held before.  The length of the values is passed to
the way back as `nDlen`. -/
def Back (cpu : Cpu) (t : Value) (o : Order) (c : Counted) (nDlen : Nat) (src : List (BitVec 32)) : Prop :=
  ∀ pu16Data dst, pu16Data.length = 2 * src.length → dst.length = src.length →
    ∃ regs, toRegisters cpu t o src src.length pu16Data pu16Data.length = some (0, regs) ∧
      ofRegisters cpu t o regs (c.length src.length) dst nDlen = some (0, src)

/-! ### The loops -/

section Loops

variable {place : Nat → Nat} {e : Endian}

/-- **The loop leaves the array** with a value that it looks for behind the end. -/
theorem splitLoop_none {values : List (BitVec 32)} {n : Nat} {pu16Data : List Register}
    (h : values.length ≤ place n) : splitLoop place e values (n + 1) pu16Data = none := by
  rw [splitLoop, List.getElem?_eq_none h]
  cases splitLoop place e values n pu16Data <;> rfl

/-- What a store leaves behind its place. -/
theorem getElem?_store {α : Type} {b b' : List α} {p i : Nat} {x : α} (h : store b p [x] = some b') (hi : i ≠ p) :
    b'[i]? = b[i]? := by
  rw [store] at h
  split at h
  · next hle =>
    obtain rfl := Option.some_inj.mp h
    rw [List.length_singleton] at hle ⊢
    have hset : b.take p ++ [x] ++ b.drop (p + 1) = b.set p x := by
      rw [List.set_eq_take_append_cons_drop, if_pos (Nat.lt_of_succ_le hle), List.append_assoc, List.singleton_append]
    rw [hset, List.getElem?_set_ne hi.symm]
  · cases h

/-- **The loop that writes to the first place** leaves the others alone. -/
theorem joinLoop_first {regs : List Register} {n : Nat} {values values' : List (BitVec 32)}
    (h : joinLoop (fun _ => 0) e regs n values = some values') : values'[1]? = values[1]? := by
  induction n generalizing values' with
  | zero =>
    obtain rfl := Option.some_inj.mp h
    rfl
  | succ n ih =>
    obtain ⟨before, hbefore, h⟩ := Option.bind_eq_some_iff.mp h
    obtain ⟨xs, -, h⟩ := Option.bind_eq_some_iff.mp h
    rw [getElem?_store h Nat.one_ne_zero, ih hbefore]

/-- The registers stay as many. -/
theorem splitLoop_length {values : List (BitVec 32)} {n : Nat} {regs regs' : List Register}
    (h : splitLoop place e values n regs = some regs') : regs'.length = regs.length := by
  induction n generalizing regs' with
  | zero =>
    obtain rfl := Option.some_inj.mp h
    rfl
  | succ n ih =>
    obtain ⟨before, hbefore, h⟩ := Option.bind_eq_some_iff.mp h
    obtain ⟨x, -, h⟩ := Option.bind_eq_some_iff.mp h
    rw [length_store h, ih hbefore]

/-- A pair of registers behind the end. -/
theorem joinLoop_none {regs : List Register} {n : Nat} {values : List (BitVec 32)} (h : regs.length ≤ 2 * n) :
    joinLoop place e regs (n + 1) values = none := by
  have hload : load regs (2 * n) 2 = none := if_neg (by omega)
  rw [joinLoop, hload]
  cases joinLoop place e regs n values <;> rfl

end Loops

/-! ### The functions -/

namespace Value

/-- Where the values are read. -/
def source : Value → Nat → Nat
  | uint32 => id
  | float => (· * 4)

/-- Where they are written. -/
def target : Value → Nat → Nat
  | uint32 => fun _ => 0
  | float => (· * 4)

end Value

/-- The order of the registers. -/
def endian (cpu : Cpu) : Order → Endian
  | .default => order cpu
  | .le => .le
  | .be => .be

section Functions

variable {cpu : Cpu} {t : Value} {o : Order} {sDlen nDlen : Int}

theorem checked_of_le {α : Type} {loop : Nat → List α → Option (List α)} {dst : List α}
    (h : asInt (sDlen * 2) ≤ nDlen) :
    checked loop sDlen dst nDlen = (loop sDlen.toNat dst).map (0, ·) := if_pos h

theorem checked_of_lt {α : Type} {loop : Nat → List α → Option (List α)} {dst : List α}
    (h : nDlen < asInt (sDlen * 2)) :
    checked loop sDlen dst nDlen = some (-PARAM_INPUT_ARG_INVALID, dst) := if_neg (not_le.mpr h)

/-- **The conversions to registers** are the loop, where the lengths pass the check. -/
theorem toRegisters_of_le {src : List (BitVec 32)} {pu16Data : List Register} (h : asInt (sDlen * 2) ≤ nDlen) :
    toRegisters cpu t o src sDlen pu16Data nDlen =
      (splitLoop t.source (endian cpu o) src sDlen.toNat pu16Data).map (0, ·) := by
  have hdefault {loop : Nat → List Register → Option (List Register)} :
      (checked loop sDlen pu16Data nDlen).map (fun r => ((0 : Int), r.2)) = (loop sDlen.toNat pu16Data).map (0, ·) := by
    rw [checked_of_le h, Option.map_map]
    rfl
  cases t <;> cases o
  case uint32.default => exact (if_pos h).trans hdefault
  case float.default => exact (if_pos h).trans hdefault
  all_goals exact checked_of_le h

theorem toRegisters_of_lt {src : List (BitVec 32)} {pu16Data : List Register} (h : nDlen < asInt (sDlen * 2)) :
    toRegisters cpu t o src sDlen pu16Data nDlen = some (-PARAM_INPUT_ARG_INVALID, pu16Data) := by
  cases t <;> cases o
  case uint32.default => exact if_neg (not_le.mpr h)
  case float.default => exact if_neg (not_le.mpr h)
  all_goals exact checked_of_lt h

/-- **The conversions of registers** likewise. -/
theorem ofRegisters_of_le {regs : List Register} {dst : List (BitVec 32)} (h : asInt (sDlen * 2) ≤ nDlen) :
    ofRegisters cpu t o regs sDlen dst nDlen =
      (joinLoop t.target (endian cpu o) regs sDlen.toNat dst).map (0, ·) := by
  have hdefault {loop : Nat → List (BitVec 32) → Option (List (BitVec 32))} :
      (checked loop sDlen dst nDlen).map (fun r => ((0 : Int), r.2)) = (loop sDlen.toNat dst).map (0, ·) := by
    rw [checked_of_le h, Option.map_map]
    rfl
  cases t <;> cases o
  case uint32.default => exact hdefault
  case float.default => exact hdefault
  all_goals exact checked_of_le h

/-- Without the check nothing is converted; the functions without a suffix return a success all the same. -/
theorem ofRegisters_of_lt (cpu : Cpu) (t : Value) (o : Order) (regs : List Register) (dst : List (BitVec 32))
    (h : nDlen < asInt (sDlen * 2)) :
    ∃ ret, ofRegisters cpu t o regs sDlen dst nDlen = some (ret, dst) := by
  have hdefault {loop : Nat → List (BitVec 32) → Option (List (BitVec 32))} :
      (checked loop sDlen dst nDlen).map (fun r => ((0 : Int), r.2)) = some (0, dst) := by
    rw [checked_of_lt h]
    rfl
  cases t <;> cases o
  case uint32.default => exact ⟨0, hdefault⟩
  case float.default => exact ⟨0, hdefault⟩
  all_goals exact ⟨-PARAM_INPUT_ARG_INVALID, checked_of_lt h⟩

/-- **A success** is that of the loop. -/
theorem of_toRegisters {src : List (BitVec 32)} {pu16Data regs : List Register}
    (h : toRegisters cpu t o src sDlen pu16Data nDlen = some (0, regs)) :
    splitLoop t.source (endian cpu o) src sDlen.toNat pu16Data = some regs := by
  rcases Int.lt_or_le nDlen (asInt (sDlen * 2)) with hlt | hle
  · rw [toRegisters_of_lt hlt] at h
    obtain ⟨hret, -⟩ := Prod.mk.inj (Option.some_inj.mp h)
    exact absurd hret (by decide)
  · rw [toRegisters_of_le hle] at h
    obtain ⟨regs', hloop, hpair⟩ := Option.map_eq_some_iff.mp h
    obtain ⟨-, rfl⟩ := Prod.mk.inj hpair
    exact hloop

/-- Or nothing has been converted. -/
theorem of_ofRegisters {regs : List Register} {dst values : List (BitVec 32)}
    (h : ofRegisters cpu t o regs sDlen dst nDlen = some (0, values)) : dst = values ∨ (asInt (sDlen * 2) ≤ nDlen ∧
      joinLoop t.target (endian cpu o) regs sDlen.toNat dst = some values) := by
  rcases Int.lt_or_le nDlen (asInt (sDlen * 2)) with hlt | hle
  · obtain ⟨ret, hsame⟩ := ofRegisters_of_lt cpu t o regs dst hlt
    rw [hsame] at h
    exact .inl (Prod.mk.inj (Option.some_inj.mp h)).2
  · rw [ofRegisters_of_le hle] at h
    obtain ⟨values', hloop, hpair⟩ := Option.map_eq_some_iff.mp h
    obtain ⟨-, rfl⟩ := Prod.mk.inj hpair
    exact .inr ⟨hle, hloop⟩

end Functions

/-! ### The requirement on the functions -/

/-- The layouts of a pair of registers. -/
theorem layout_shifts (e : Endian) : Layout 32 16 (shifts e) := by
  cases e with
  | le => exact ⟨by decide, by decide, by decide⟩
  | be => exact ⟨by decide, by decide, by decide⟩

theorem length_shifts (e : Endian) : (shifts e).length = 2 := by cases e <;> rfl

theorem asInt_two_mul_one : asInt ((1 : Nat) * 2) = 2 := asInt_of_lt (by omega) (by omega)

theorem Value.source_zero (t : Value) : t.source 0 = 0 := by cases t <;> rfl

theorem Value.target_zero (t : Value) : t.target 0 = 0 := by cases t <;> rfl

theorem store_whole {α : Type} {b xs : List α} (h : xs.length = b.length) : store b 0 xs = some xs := by
  have hstore := store_append [] b [] h
  rwa [List.append_nil, List.append_nil] at hstore

theorem splitLoop_one {place : Nat → Nat} (hplace : place 0 = 0) (e : Endian) (x : BitVec 32) {regs : List Register}
    (h : regs.length = 2) : splitLoop place e [x] 1 regs = some (split 16 (shifts e) x) := by
  have hstore : store regs (2 * 0) (split 16 (shifts e) x) = some (split 16 (shifts e) x) :=
    store_whole (by rw [length_split, length_shifts, h])
  rw [splitLoop, splitLoop, hplace]
  exact hstore

theorem joinLoop_one {place : Nat → Nat} (hplace : place 0 = 0) (e : Endian) (x : BitVec 32) {dst : List (BitVec 32)}
    (h : dst.length = 1) : joinLoop place e (split 16 (shifts e) x) 1 dst = some [x] := by
  have hload : load (split 16 (shifts e) x) (2 * 0) 2 = some (split 16 (shifts e) x) := by
    refine load_eq (a := []) (c := []) (List.append_nil _).symm rfl ?_
    rw [length_split, length_shifts]
  have hstore : store dst 0 [x] = some [x] := store_whole h.symm
  rw [joinLoop, joinLoop, hload, hplace, Option.bind_eq_bind, Option.bind_some, Option.bind_eq_bind, Option.bind_some,
    join_split (layout_shifts e), hstore]

/-- One value comes back. -/
theorem back_singleton (cpu : Cpu) (t : Value) (o : Order) {nDlen : Nat} (hd : 2 ≤ nDlen) (x : BitVec 32) :
    Back cpu t o .pairs nDlen [x] := by
  intro pu16Data dst hpu hdst
  have hpos : asInt ((1 : Nat) * 2) ≤ (pu16Data.length : Int) := by
    rw [asInt_two_mul_one, hpu]
    exact le_refl _
  have hpos' : asInt ((1 : Nat) * 2) ≤ (nDlen : Int) := by
    rw [asInt_two_mul_one]
    omega
  refine ⟨split 16 (shifts (endian cpu o)) x, ?_, ?_⟩
  · rw [List.length_singleton, toRegisters_of_le hpos, Int.toNat_natCast, splitLoop_one t.source_zero _ x hpu]
    rfl
  · rw [List.length_singleton, Counted.length, ofRegisters_of_le hpos', Int.toNat_natCast,
      joinLoop_one t.target_zero _ x hdst]
    rfl

/-- **The first value only** comes back at most. -/
theorem length_le_one {cpu : Cpu} {t : Value} {o : Order} {c : Counted} {nDlen : Nat} {src : List (BitVec 32)}
    (h : Back cpu t o c nDlen src) : src.length ≤ 1 := by
  by_contra! hlong
  obtain ⟨regs, hto, hof⟩ := h (List.replicate (2 * src.length) 0) (src.map (· + 1)) List.length_replicate
    (List.length_map _)
  have hsrc := of_toRegisters hto
  rw [Int.toNat_natCast] at hsrc
  have hne (i : Nat) (hi : i < src.length) : (src.map (· + 1))[i]? ≠ src[i]? := by
    rw [List.getElem?_map, List.getElem?_eq_getElem hi]
    intro hsame
    have hstep := Option.some_inj.mp hsame
    bv_omega
  rcases of_ofRegisters hof with hsame | ⟨-, hjoin⟩
  · exact hne 0 (by omega) (by rw [hsame])
  · cases t with
    | uint32 => exact hne 1 hlong (joinLoop_first hjoin).symm
    | float =>
      obtain ⟨n, hn⟩ : ∃ n, src.length = n + 1 := ⟨src.length - 1, by omega⟩
      have hbehind : src.length ≤ Value.float.source n := by
        change src.length ≤ n * 4
        omega
      rw [hn, splitLoop_none hbehind] at hsrc
      cases hsrc

/-- **Values come back** from their registers if and only if there is none, or one with the registers counted in pairs
and a length of at least 2 for it. -/
theorem registers_back_iff (cpu : Cpu) (t : Value) (o : Order) (c : Counted) (nDlen : Nat) (src : List (BitVec 32)) :
    Back cpu t o c nDlen src ↔ src = [] ∨ (src.length = 1 ∧ c = .pairs ∧ 2 ≤ nDlen) := by
  constructor
  · intro h
    have hle := length_le_one h
    rcases src with _ | ⟨x, rest⟩
    · exact .inl rfl
    obtain rfl : rest = [] := by
      rw [List.length_cons] at hle
      exact List.length_eq_zero_iff.mp (by omega)
    obtain ⟨regs, hto, hof⟩ := h [0, 0] [x + 1] rfl rfl
    refine .inr ⟨rfl, ?_⟩
    rcases of_ofRegisters hof with hsame | ⟨hcheck, hjoin⟩
    · injection hsame with hstep
      bv_omega
    · cases c with
      | pairs =>
        rw [Counted.length, List.length_singleton, asInt_two_mul_one] at hcheck
        exact ⟨rfl, by omega⟩
      | registers =>
        have hregs := splitLoop_length (of_toRegisters hto)
        rw [Counted.length, Int.toNat_natCast, List.length_singleton,
          joinLoop_none (by rw [hregs]; exact le_refl 2)] at hjoin
        cases hjoin
  · rintro (rfl | ⟨hlen, rfl, hd⟩)
    · intro pu16Data dst hpu hdst
      obtain rfl := List.length_eq_zero_iff.mp hpu
      obtain rfl := List.length_eq_zero_iff.mp hdst
      have hzero : ∀ n : Nat, asInt ((0 : Nat) * 2) ≤ (n : Int) := by
        intro n
        rw [Int.natCast_zero, Int.zero_mul]
        exact Int.natCast_nonneg n
      have hc : c.length ([] : List (BitVec 32)).length = 0 := by cases c <;> rfl
      refine ⟨[], ?_, ?_⟩
      · exact toRegisters_of_le (hzero _)
      · rw [hc]
        exact ofRegisters_of_le (hzero _)
    · obtain ⟨x, rfl⟩ := List.length_eq_one_iff.mp hlen
      exact back_singleton cpu t o hd x

/-- Of two values the second stays what it was. -/
theorem not_back_two : ¬ Back x86 .uint32 .le .pairs 4 [1, 2] := by
  intro h
  exact absurd (length_le_one h) (by decide)

end Wow.Utils.TypeRegisters
