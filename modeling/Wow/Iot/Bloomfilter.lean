import Wow.Base.CString
import Wow.Lib.Bits
import Wow.Lib.Bloom
import Wow.Lib.CNum

/-!
# Wow.Iot.Bloomfilter — `wow_bloomfilter.c` over the hashes of `wow_hash.c`

The number of bits comes out of a computation with floating point: it is a parameter, `roundM`.  The allocations succeed
or fail as the caller of the model says.  An access that leaves the array, and a division by zero, are `none`.

* `exists_set1`, `exists_set0`, `exists_get`: the operations are those of `Bloom` on the set of the bits that are 1.
* `no_false_negatives`: over every run, with the places of the bits and the code that `wow_bloomfilter_set_1` returns.
* `kept_iff`: a removal keeps an element where the two share no bit.
-/

namespace Wow.Iot.Bloomfilter

open Bits

/-! ### The hashes -/

def HASH_ARRAY_MAX : Nat := 4

/-- `hash_data_func_bkdr`. -/
def hashBkdr (data : List UInt8) : UInt64 := data.foldl (fun value b => value * 131313 + b.toUInt64) 0

/-- `hash_data_func_rs`, with the multiplier that changes. -/
def hashRsLoop : List UInt8 → UInt64 → UInt64 → UInt64
  | [], _, retval => retval
  | b :: data, a, retval => hashRsLoop data (a * 378551) (retval * a + b.toUInt64)

/-- `hash_data_func_rs`. -/
def hashRs (data : List UInt8) : UInt64 := hashRsLoop data 63689 0

/-- A loop over the octets whose counter is an `int`: behind 2 ^ 31 octets the counter is negative and the loop ends. -/
def intLoop (f : UInt64 → UInt8 → UInt64) (length : Nat) : List UInt8 → Int → UInt64 → UInt64
  | [], _, hash => hash
  | b :: array, i, hash => if asSize i < length then intLoop f length array (asInt (i + 1)) (f hash b) else hash

/-- `hash_data_func_fnv1a`. -/
def hashFnv1a (array : List UInt8) : UInt64 :=
  intLoop (fun hash b => (hash ^^^ b.toUInt64) * 16777619) array.length array 0 2166136261

/-- `hash_data_func_djb2`. -/
def hashDjb2 (array : List UInt8) : UInt64 :=
  intLoop (fun hash b => (hash <<< 5) + hash + b.toUInt64) array.length array 0 5381

/-- `gf_data_hash_func`. -/
def dataHashFunc : List (List UInt8 → UInt64) := [hashBkdr, hashRs, hashFnv1a, hashDjb2]

/-- `wow_hash_data`. -/
def hashData (eIndex : Nat) (pu8Data : List UInt8) : UInt64 :=
  if pu8Data.length > 0 then
    match dataHashFunc[eIndex]? with
    | some f => f pu8Data
    | none => 0
  else 0

/-! ### The filter -/

/-- `BLOOM_FILTER_DATA_MAXN`. -/
def DATA_MAXN : Nat := 2 ^ 28

/-- `TB_BLOOM_FILTER_PROBABILITY_0_000001`. -/
def PROBABILITY_0_000001 : Nat := 20

/-- `bits_cl0_u32`. -/
def bitsCl0U32 (x : Nat) : Nat := if x = 0 then 32 else 31 - Nat.log2 x

/-- `ispow2`. -/
def ispow2 (x : Nat) : Bool := x &&& (x - 1) = 0 && x ≠ 0

/-- `Align_pow2`. -/
def alignPow2 (x : Nat) : Nat :=
  if x > 1 then if ispow2 x then x else 1 <<< (32 - bitsCl0U32 (asUint32 x)) else 1

/-- `Align8`. -/
def align8 (x : Nat) : Nat := asSize ((asSize ((x : Int) + 7) >>> 3 <<< 3 : Nat))

structure BloomFilter where
  probability : Nat
  maxn : Nat
  size : Nat
  data : List UInt8
  mask : Nat
deriving DecidableEq

/-- `wow_bloomfilter_init`; `none` is `NULL`. -/
def init (roundM : Nat → Nat → Nat) (eAbility snMaxItem : Nat) (callocOk mallocOk : Bool) : Option BloomFilter :=
  if eAbility ≠ 0 ∧ eAbility ≤ PROBABILITY_0_000001 then
    if callocOk then
      let size := align8 (roundM eAbility snMaxItem) >>> 3
      if size ≤ DATA_MAXN then
        if mallocOk then some ⟨eAbility, snMaxItem, size, List.replicate size 0, alignPow2 (size <<< 3) - 1⟩
        else none
      else none
    else none
  else none

/-- `index` of the hash with this number. -/
def bitIndex (ptFilter : BloomFilter) (pData : CStr) (i : Nat) : Option Nat :=
  if ptFilter.mask = 0 then none
  else
    let index := (hashData i pData.chars).toNat % ptFilter.mask
    if index ≥ ptFilter.size <<< 3 then
      if ptFilter.size <<< 3 = 0 then none else some (index % (ptFilter.size <<< 3))
    else some index

/-- `wow_bloomfilter_clear`. -/
def clear (ptFilter : BloomFilter) : BloomFilter :=
  if ptFilter.size ≠ 0 then { ptFilter with data := List.replicate ptFilter.size 0 } else ptFilter

/-- A pass of the loop of `wow_bloomfilter_set_1`: `repeact` and the octets. -/
def set1Pass (ptFilter : BloomFilter) (pData : CStr) (st : Nat × List UInt8) (i : Nat) : Option (Nat × List UInt8) := do
  let index ← bitIndex ptFilter pData i
  let b ← getBit st.2 (index >>> 3) (index &&& 7)
  if b ≠ 0 then return (st.1 + 1, st.2)
  let data ← setBit st.2 (index >>> 3) (index &&& 7)
  return (st.1, data)

/-- `wow_bloomfilter_set_1`. -/
def set1 (ptFilter : BloomFilter) (pData : CStr) : Option (Int × BloomFilter) := do
  let (repeact, data) ← (List.range HASH_ARRAY_MAX).foldlM (set1Pass ptFilter pData) (0, ptFilter.data)
  return (if repeact = HASH_ARRAY_MAX then 1 else 0, { ptFilter with data := data })

/-- A pass of the loop of `wow_bloomfilter_set_0`. -/
def set0Pass (ptFilter : BloomFilter) (pData : CStr) (data : List UInt8) (i : Nat) : Option (List UInt8) := do
  let index ← bitIndex ptFilter pData i
  clearBit data (index >>> 3) (index &&& 7)

/-- `wow_bloomfilter_set_0`. -/
def set0 (ptFilter : BloomFilter) (pData : CStr) : Option (Int × BloomFilter) := do
  let data ← (List.range HASH_ARRAY_MAX).foldlM (set0Pass ptFilter pData) ptFilter.data
  return (0, { ptFilter with data := data })

/-- The loop of `wow_bloomfilter_get`, with where it ends. -/
def getLoop (ptFilter : BloomFilter) (pData : CStr) : Nat → Nat → Option Nat
  | 0, i => some i
  | passes + 1, i => do
    let index ← bitIndex ptFilter pData i
    let b ← getBit ptFilter.data (index >>> 3) (index &&& 7)
    if b = 0 then return i
    getLoop ptFilter pData passes (i + 1)

/-- `wow_bloomfilter_get`. -/
def get (ptFilter : BloomFilter) (pData : CStr) : Option Int := do
  let i ← getLoop ptFilter pData HASH_ARRAY_MAX 0
  return if i = HASH_ARRAY_MAX then 1 else 0

/-! ### Runs -/

/-- A call: an element is added by `wow_bloomfilter_set_1` and removed by `wow_bloomfilter_set_0`. -/
def step (f : BloomFilter) : Bloom.Op CStr → Option BloomFilter
  | .add x => (set1 f x).map Prod.snd
  | .remove x => (set0 f x).map Prod.snd
  | .clear => some (clear f)

def run (f : BloomFilter) (ops : List (Bloom.Op CStr)) : Option BloomFilter := ops.foldlM step f

/-! ### The set of bits -/

/-- The bits that are 1. -/
def bits (data : List UInt8) : Set Nat := {n | bitAt data n = true}

/-- The bits of an element. -/
def indices (f : BloomFilter) (x : CStr) : Set Nat := {n | ∃ i < HASH_ARRAY_MAX, bitIndex f x i = some n}

/-- What `wow_bloomfilter_init` returns, where there is an array, and every operation keeps. -/
structure Holds (f : BloomFilter) : Prop where
  size_pos : 0 < f.size
  mask_pos : 0 < f.mask
  length : f.data.length = f.size

/-! ### The array and its size -/

theorem two_le_alignPow2 {x : Nat} (h : 2 ≤ x) (hx : x < 2 ^ 32) : 2 ≤ alignPow2 x := by
  rw [alignPow2, if_pos (show x > 1 from h)]
  by_cases hpow : ispow2 x = true
  · rw [if_pos hpow]
    exact h
  · have hle : bitsCl0U32 (asUint32 x) ≤ 31 := by
      rw [asUint32_natCast hx, bitsCl0U32, if_neg (by omega)]
      exact Nat.sub_le _ _
    rw [if_neg hpow, Nat.one_shiftLeft]
    exact Nat.le_self_pow (by omega) 2

/-- **A filter with an array**, as it is returned. -/
theorem holds_init {roundM : Nat → Nat → Nat} {eAbility snMaxItem : Nat} {callocOk mallocOk : Bool} {f : BloomFilter}
    (h : init roundM eAbility snMaxItem callocOk mallocOk = some f) (hpos : 0 < f.size) :
    Holds f ∧ bits f.data = ∅ := by
  rw [init] at h
  split at h
  · split at h
    · dsimp only at h
      split at h
      · next hsize =>
        split at h
        · obtain rfl := Option.some_inj.mp h
          have hmax : DATA_MAXN = 2 ^ 28 := rfl
          dsimp only at hpos hsize
          generalize align8 (roundM eAbility snMaxItem) >>> 3 = size at hpos hsize ⊢
          have hshift : size <<< 3 = 8 * size := by
            rw [Nat.shiftLeft_eq]
            omega
          refine ⟨⟨hpos, ?_, List.length_replicate⟩, ?_⟩
          · have hmask := two_le_alignPow2 (x := size <<< 3) (by omega) (by omega)
            exact Nat.sub_pos_of_lt hmask
          · ext n
            rw [bits, Set.mem_ofPred_eq, bitAt_replicate]
            exact iff_of_false Bool.noConfusion (Set.notMem_empty n)
        · cases h
      · cases h
    · cases h
  · cases h

/-- **The place of a bit** lies in the array. -/
theorem exists_bitIndex {f : BloomFilter} (h : Holds f) (x : CStr) (i : Nat) :
    ∃ n, bitIndex f x i = some n ∧ n < 8 * f.data.length := by
  have hshift : f.size <<< 3 = 8 * f.size := by
    rw [Nat.shiftLeft_eq]
    omega
  have hpos := h.size_pos
  rw [bitIndex, if_neg h.mask_pos.ne', hshift, h.length]
  dsimp only
  by_cases hge : (hashData i x.chars).toNat % f.mask ≥ 8 * f.size
  · rw [if_pos hge, if_neg (by omega)]
    exact ⟨_, rfl, Nat.mod_lt _ (by omega)⟩
  · rw [if_neg hge]
    exact ⟨_, rfl, Nat.lt_of_not_le hge⟩

theorem shiftRight_three (n : Nat) : n >>> 3 = n / 8 := Nat.shiftRight_eq_div_pow n 3

theorem and_seven (n : Nat) : n &&& 7 = n % 8 := Nat.and_two_pow_sub_one_eq_mod n 3

theorem bits_of_written {xs xs' : List UInt8} {n : Nat} (h : Written xs xs' n true) : bits xs' = bits xs ∪ {n} := by
  ext i
  rw [bits, Set.mem_ofPred_eq, h.bit, Set.mem_union, Set.mem_singleton_iff]
  by_cases hi : i = n
  · rw [if_pos hi]
    exact iff_of_true rfl (Or.inr hi)
  · rw [if_neg hi]
    exact ⟨Or.inl, fun h => h.resolve_right hi⟩

theorem bits_of_cleared {xs xs' : List UInt8} {n : Nat} (h : Written xs xs' n false) : bits xs' = bits xs \ {n} := by
  ext i
  rw [bits, Set.mem_ofPred_eq, h.bit, Set.mem_sdiff, Set.mem_singleton_iff]
  by_cases hi : i = n
  · rw [if_pos hi]
    exact iff_of_false Bool.noConfusion fun h => h.2 hi
  · rw [if_neg hi]
    exact ⟨fun h => ⟨h, hi⟩, fun h => h.1⟩

/-! ### The loops -/

section Loops

variable {f : BloomFilter} (x : CStr)

/-- The bits of the hashes with these numbers. -/
def indicesOf (f : BloomFilter) (x : CStr) (is : List Nat) : Set Nat := {n | ∃ i ∈ is, bitIndex f x i = some n}

theorem indicesOf_nil : indicesOf f x [] = ∅ := by
  simp [indicesOf]

theorem indicesOf_cons {i n : Nat} (h : bitIndex f x i = some n) (is : List Nat) :
    indicesOf f x (i :: is) = {n} ∪ indicesOf f x is := by
  ext m
  simp only [indicesOf, Set.mem_ofPred_eq, List.mem_cons, Set.mem_union, Set.mem_singleton_iff, or_and_right, exists_or,
    exists_eq_left, h, Option.some_inj]
  exact or_congr_left eq_comm

theorem indicesOf_range : indicesOf f x (List.range HASH_ARRAY_MAX) = indices f x := by
  ext n
  simp only [indicesOf, indices, Set.mem_ofPred_eq, List.mem_range]

/-- A pass reads its bit, and sets it where it is 0. -/
theorem set1Pass_eq {i n : Nat} (hn : bitIndex f x i = some n) {data : List UInt8} {b : UInt8}
    (hb : getBit data (n / 8) (n % 8) = some b) (repeact : Nat) : set1Pass f x (repeact, data) i =
      if b ≠ 0 then some (repeact + 1, data) else (setBit data (n / 8) (n % 8)).map fun data => (repeact, data) := by
  rw [set1Pass, hn, Option.bind_eq_bind, Option.bind_some, shiftRight_three, and_seven, hb, Option.bind_eq_bind,
    Option.bind_some, Option.map_eq_bind]
  rfl

/-- **The loop of `wow_bloomfilter_set_1`** sets the bits, and counts as many as there are passes where all were set
before. -/
theorem exists_set1Loop (h : Holds f) (is : List Nat) {data : List UInt8} (hdata : data.length = f.size)
    (repeact : Nat) :
    ∃ r data', is.foldlM (set1Pass f x) (repeact, data) = some (repeact + r, data') ∧ data'.length = f.size ∧
      r ≤ is.length ∧ (r = is.length ↔ indicesOf f x is ⊆ bits data) ∧ bits data' = bits data ∪ indicesOf f x is := by
  induction is generalizing data repeact with
  | nil =>
    rw [indicesOf_nil, Set.union_empty]
    exact ⟨0, data, rfl, hdata, Nat.le_refl _, iff_of_true rfl (Set.empty_subset _), rfl⟩
  | cons i is ih =>
    obtain ⟨n, hn, hlt⟩ := exists_bitIndex h x i
    rw [h.length, ← hdata] at hlt
    obtain ⟨b, hb, hset⟩ := exists_getBit hlt
    rw [List.foldlM_cons, indicesOf_cons x hn]
    by_cases hbit : b ≠ 0
    · have hpass : set1Pass f x (repeact, data) i = some (repeact + 1, data) := by
        rw [set1Pass_eq x hn hb, if_pos hbit]
      have hmem : n ∈ bits data := hset.mp hbit
      obtain ⟨r, data', hrun, hlen, hle, hall, hbits⟩ := ih hdata (repeact + 1)
      refine ⟨r + 1, data', ?_, hlen, Nat.succ_le_succ hle, ?_, ?_⟩
      · rw [hpass, Option.bind_eq_bind, Option.bind_some, hrun, Nat.add_right_comm]
        rfl
      · rw [List.length_cons, Nat.succ_inj, hall, Set.union_subset_iff, Set.singleton_subset_iff]
        exact (and_iff_right hmem).symm
      · rw [hbits, ← Set.union_assoc, Set.union_singleton, Set.insert_eq_of_mem hmem]
    · obtain ⟨data1, hset1, hwritten⟩ := exists_setBit hlt
      have hpass : set1Pass f x (repeact, data) i = some (repeact, data1) := by
        rw [set1Pass_eq x hn hb, if_neg hbit, hset1, Option.map_some]
      have hnot : n ∉ bits data := fun hmem => hbit (hset.mpr hmem)
      obtain ⟨r, data', hrun, hlen, hle, -, hbits⟩ := ih (hwritten.length.trans hdata) repeact
      refine ⟨r, data', ?_, hlen, Nat.le_succ_of_le hle, ?_, ?_⟩
      · rw [hpass, Option.bind_eq_bind, Option.bind_some, hrun]
      · rw [List.length_cons, Set.union_subset_iff, Set.singleton_subset_iff]
        exact iff_of_false (by omega) fun h => hnot h.1
      · rw [hbits, bits_of_written hwritten, Set.union_assoc]

/-- **The loop of `wow_bloomfilter_set_0`** clears the bits. -/
theorem exists_set0Loop (h : Holds f) (is : List Nat) {data : List UInt8} (hdata : data.length = f.size) :
    ∃ data', is.foldlM (set0Pass f x) data = some data' ∧ data'.length = f.size ∧
      bits data' = bits data \ indicesOf f x is := by
  induction is generalizing data with
  | nil =>
    rw [indicesOf_nil, Set.sdiff_empty]
    exact ⟨data, rfl, hdata, rfl⟩
  | cons i is ih =>
    obtain ⟨n, hn, hlt⟩ := exists_bitIndex h x i
    rw [h.length, ← hdata] at hlt
    obtain ⟨data1, hclear, hwritten⟩ := exists_clearBit hlt
    have hpass : set0Pass f x data i = some data1 := by
      rw [set0Pass, hn, Option.bind_eq_bind, Option.bind_some, shiftRight_three, and_seven, hclear]
    obtain ⟨data', hrun, hlen, hbits⟩ := ih (hwritten.length.trans hdata)
    refine ⟨data', ?_, hlen, ?_⟩
    · rw [List.foldlM_cons, hpass, Option.bind_eq_bind, Option.bind_some, hrun]
    · rw [hbits, bits_of_cleared hwritten, indicesOf_cons x hn, Set.sdiff_sdiff]

/-- **The loop of `wow_bloomfilter_get`** comes to its end where the bits are set. -/
theorem exists_getLoop (h : Holds f) (passes i : Nat) : ∃ k, getLoop f x passes i = some k ∧ k ≤ i + passes ∧
    (k = i + passes ↔ indicesOf f x (List.range' i passes) ⊆ bits f.data) := by
  induction passes generalizing i with
  | zero =>
    rw [List.range'_zero, indicesOf_nil]
    exact ⟨i, rfl, Nat.le_refl _, iff_of_true rfl (Set.empty_subset _)⟩
  | succ passes ih =>
    obtain ⟨n, hn, hlt⟩ := exists_bitIndex h x i
    obtain ⟨b, hb, hset⟩ := exists_getBit hlt
    rw [getLoop, hn, Option.bind_eq_bind, Option.bind_some, shiftRight_three, and_seven, hb,
      Option.bind_eq_bind, Option.bind_some, List.range'_succ, indicesOf_cons x hn, Set.union_subset_iff,
      Set.singleton_subset_iff]
    by_cases hbit : b = 0
    · have hnot : n ∉ bits f.data := fun hmem => hset.mpr hmem hbit
      rw [if_pos hbit]
      refine ⟨i, rfl, by omega, ?_⟩
      exact iff_of_false (by omega) fun h => hnot h.1
    · have hmem : n ∈ bits f.data := hset.mp hbit
      obtain ⟨k, hk, hle, hall⟩ := ih (i + 1)
      rw [if_neg hbit, and_iff_right hmem]
      refine ⟨k, hk, by omega, ?_⟩
      rw [← hall]
      omega

end Loops

/-! ### The operations -/

/-- A filter of the same size, with these bits. -/
structure After (f f' : BloomFilter) (S : Set Nat) : Prop where
  holds : Holds f'
  size : f'.size = f.size
  mask : f'.mask = f.mask
  bits : bits f'.data = S

variable {f f' : BloomFilter}

theorem bitIndex_congr (hsize : f'.size = f.size) (hmask : f'.mask = f.mask) (x : CStr) (i : Nat) :
    bitIndex f' x i = bitIndex f x i := by
  rw [bitIndex, bitIndex, hsize, hmask]

theorem indices_congr {S : Set Nat} (h : After f f' S) : indices f' = indices f := by
  funext x
  simp only [indices, bitIndex_congr h.size h.mask]

/-- **`wow_bloomfilter_set_1`** adds the element, and tells whether it was present. -/
theorem exists_set1 (h : Holds f) (x : CStr) : ∃ ret f', set1 f x = some (ret, f') ∧
    After f f' (bits f.data ∪ indices f x) ∧ (ret = 1 ↔ Bloom.Present (indices f) (bits f.data) x) := by
  obtain ⟨r, data, hrun, hlen, -, hall, hbits⟩ := exists_set1Loop x h (List.range HASH_ARRAY_MAX) h.length 0
  rw [indicesOf_range] at hall hbits
  rw [Nat.zero_add] at hrun
  refine ⟨if r = HASH_ARRAY_MAX then 1 else 0, { f with data := data }, ?_,
    ⟨⟨h.size_pos, h.mask_pos, hlen⟩, rfl, rfl, hbits⟩, ?_⟩
  · rw [set1, hrun]
    rfl
  · rw [Bloom.Present, ← hall, List.length_range]
    split
    · next heq => exact iff_of_true rfl heq
    · next hne => exact iff_of_false (by decide) hne

/-- **`wow_bloomfilter_set_0`** clears the bits of the element. -/
theorem exists_set0 (h : Holds f) (x : CStr) : ∃ f', set0 f x = some (0, f') ∧
    After f f' (bits f.data \ indices f x) := by
  obtain ⟨data, hrun, hlen, hbits⟩ := exists_set0Loop x h (List.range HASH_ARRAY_MAX) h.length
  rw [indicesOf_range] at hbits
  refine ⟨{ f with data := data }, ?_, ⟨⟨h.size_pos, h.mask_pos, hlen⟩, rfl, rfl, hbits⟩⟩
  rw [set0, hrun]
  rfl

/-- **`wow_bloomfilter_get`** tells whether the element is present. -/
theorem exists_get (h : Holds f) (x : CStr) : ∃ ret, get f x = some ret ∧
    (ret = 1 ↔ Bloom.Present (indices f) (bits f.data) x) := by
  obtain ⟨k, hrun, -, hall⟩ := exists_getLoop x h HASH_ARRAY_MAX 0
  rw [Nat.zero_add, ← List.range_eq_range', indicesOf_range] at hall
  refine ⟨if k = HASH_ARRAY_MAX then 1 else 0, ?_, ?_⟩
  · rw [get, hrun]
    rfl
  · rw [Bloom.Present, ← hall]
    split
    · next heq => exact iff_of_true rfl heq
    · next hne => exact iff_of_false (by decide) hne

theorem get_eq_one_iff (h : Holds f) (x : CStr) : get f x = some 1 ↔ Bloom.Present (indices f) (bits f.data) x := by
  obtain ⟨ret, hget, hiff⟩ := exists_get h x
  rw [hget, Option.some_inj, hiff]

theorem after_clear (h : Holds f) : After f (clear f) ∅ := by
  rw [clear, if_pos h.size_pos.ne']
  refine ⟨⟨h.size_pos, h.mask_pos, List.length_replicate⟩, rfl, rfl, ?_⟩
  ext n
  rw [bits, Set.mem_ofPred_eq, bitAt_replicate]
  exact iff_of_false Bool.noConfusion (Set.notMem_empty n)

/-- **A call** is a step of the filter of sets. -/
theorem exists_step (h : Holds f) (op : Bloom.Op CStr) :
    ∃ f', step f op = some f' ∧ After f f' (Bloom.step (indices f) (bits f.data) op) := by
  cases op with
  | add x =>
    obtain ⟨ret, f', hset, hafter, -⟩ := exists_set1 h x
    refine ⟨f', ?_, hafter⟩
    rw [step, hset]
    rfl
  | remove x =>
    obtain ⟨f', hset, hafter⟩ := exists_set0 h x
    refine ⟨f', ?_, hafter⟩
    rw [step, hset]
    rfl
  | clear => exact ⟨_, rfl, after_clear h⟩

/-- **A run** is one of the filter of sets. -/
theorem exists_run (h : Holds f) (ops : List (Bloom.Op CStr)) :
    ∃ f', run f ops = some f' ∧ After f f' (Bloom.run (indices f) (bits f.data) ops) := by
  induction ops generalizing f with
  | nil => exact ⟨f, rfl, h, rfl, rfl, rfl⟩
  | cons op ops ih =>
    obtain ⟨f1, hstep, hafter1⟩ := exists_step h op
    obtain ⟨f', hrun, hafter⟩ := ih hafter1.holds
    refine ⟨f', ?_, hafter.holds, hafter.size.trans hafter1.size, hafter.mask.trans hafter1.mask, ?_⟩
    · rw [run, List.foldlM_cons, hstep]
      exact hrun
    · rw [hafter.bits, indices_congr hafter1, hafter1.bits]
      rfl

/-! ### Present and removed elements -/

section Filter

variable {roundM : Nat → Nat → Nat} {eAbility snMaxItem : Nat} {callocOk mallocOk : Bool}

/-- **No false negatives**: over every run of additions and clears from a filter with an array. -/
theorem no_false_negatives (hinit : init roundM eAbility snMaxItem callocOk mallocOk = some f) (hpos : 0 < f.size)
    {ops : List (Bloom.Op CStr)} (hops : Bloom.NoRemoval ops) :
    ∃ f', run f ops = some f' ∧ (∀ x ∈ Bloom.added [] ops, get f' x = some 1) ∧
      (∀ x, ∀ i < HASH_ARRAY_MAX, ∃ n, bitIndex f' x i = some n ∧ n < 8 * f'.data.length) ∧
      ∀ x, ∃ ret f'', set1 f' x = some (ret, f'') ∧ (ret = 1 ↔ get f' x = some 1) := by
  obtain ⟨h, hempty⟩ := holds_init hinit hpos
  obtain ⟨f', hrun, hafter⟩ := exists_run h ops
  have hindices := indices_congr hafter
  refine ⟨f', hrun, fun x hx => ?_, fun x i _ => exists_bitIndex hafter.holds x i, fun x => ?_⟩
  · rw [get_eq_one_iff hafter.holds, hindices, hafter.bits]
    exact Bloom.present_run (indices f) (List.forall_mem_nil _) hops x hx
  · obtain ⟨ret, f'', hset, -, hret⟩ := exists_set1 hafter.holds x
    exact ⟨ret, f'', hset, hret.trans (get_eq_one_iff hafter.holds x).symm⟩

/-- **Which removals keep another element**: those of elements that share no bit with it. -/
theorem kept_iff (hinit : init roundM eAbility snMaxItem callocOk mallocOk = some f) (hpos : 0 < f.size)
    {ops : List (Bloom.Op CStr)} (hrun : run f ops = some f') {x y : CStr} (hy : get f' y = some 1) :
    (∃ ret f'', set0 f' x = some (ret, f'') ∧ get f'' y = some 1) ↔
      ∀ i < HASH_ARRAY_MAX, ∀ j < HASH_ARRAY_MAX, bitIndex f' y i ≠ bitIndex f' x j := by
  obtain ⟨h, -⟩ := holds_init hinit hpos
  obtain ⟨f1, hrun1, hafter⟩ := exists_run h ops
  obtain rfl : f1 = f' := Option.some_inj.mp (hrun1.symm.trans hrun)
  obtain ⟨f'', hset, hafter'⟩ := exists_set0 hafter.holds x
  have hkept : get f'' y = some 1 ↔ Disjoint (indices f1 y) (indices f1 x) := by
    rw [get_eq_one_iff hafter'.holds, indices_congr hafter', hafter'.bits]
    exact Bloom.present_remove_iff (indices f1) ((get_eq_one_iff hafter.holds y).mp hy)
  rw [Set.disjoint_left] at hkept
  constructor
  · rintro ⟨ret, g, hg, hget⟩ i hi j hj heq
    obtain ⟨-, rfl⟩ := Prod.mk.inj (Option.some_inj.mp (hset.symm.trans hg))
    obtain ⟨n, hn, -⟩ := exists_bitIndex hafter.holds y i
    exact hkept.mp hget ⟨i, hi, hn⟩ ⟨j, hj, heq ▸ hn⟩
  · intro hdisjoint
    refine ⟨0, f'', hset, hkept.mpr ?_⟩
    rintro n ⟨i, hi, hn⟩ ⟨j, hj, hn'⟩
    exact hdisjoint i hi j hj (hn.trans hn'.symm)

end Filter

/-! ### A filter of one octet -/

theorem noNul_a : (0 : UInt8) ∉ [97] := by decide

theorem noNul_b : (0 : UInt8) ∉ [98] := by decide

theorem noNul_d : (0 : UInt8) ∉ [100] := by decide

/-- The strings `a`, `b` and `d`. -/
def strA : CStr := ⟨[97], noNul_a⟩

def strB : CStr := ⟨[98], noNul_b⟩

def strD : CStr := ⟨[100], noNul_d⟩

/-- The filter for one element and the probability 1 / 8, where the computation gives 6 bits. -/
def small : BloomFilter := ⟨3, 1, 1, [0], 7⟩

theorem init_small : init (fun _ _ => 6) 3 1 true true = some small := by decide +kernel

/-- The same with the element `a`. -/
def smallA : BloomFilter := ⟨3, 1, 1, [72], 7⟩

theorem run_small : run small [.add strA] = some smallA := by decide +kernel

theorem get_smallA : get smallA strA = some 1 := by decide +kernel

theorem no_false_negatives_small : ∃ f', run small [.add strB, .clear, .add strA] = some f' ∧
    (∀ x ∈ Bloom.added [] [.add strB, .clear, .add strA], get f' x = some 1) ∧
    (∀ x, ∀ i < HASH_ARRAY_MAX, ∃ n, bitIndex f' x i = some n ∧ n < 8 * f'.data.length) ∧
    ∀ x, ∃ ret f'', set1 f' x = some (ret, f'') ∧ (ret = 1 ↔ get f' x = some 1) :=
  no_false_negatives init_small Nat.one_pos (fun x => by simp)

theorem kept_iff_small : (∃ ret f'', set0 smallA strB = some (ret, f'') ∧ get f'' strA = some 1) ↔
    ∀ i < HASH_ARRAY_MAX, ∀ j < HASH_ARRAY_MAX, bitIndex smallA strA i ≠ bitIndex smallA strB j :=
  kept_iff init_small Nat.one_pos run_small get_smallA

/-- **The removal of `d` hides `a`**: both have bit 6. -/
theorem removal_hides : init (fun _ _ => 6) 3 1 true true = some small ∧ run small [.add strA] = some smallA ∧
    get smallA strA = some 1 ∧ strD ≠ strA ∧
    ¬ ∃ ret f'', set0 smallA strD = some (ret, f'') ∧ get f'' strA = some 1 := by
  refine ⟨init_small, run_small, get_smallA, ?_, ?_⟩
  · intro h
    exact absurd (congrArg CStr.chars h) (by decide)
  · rintro ⟨ret, f'', hset, hget⟩
    have hremoved : set0 smallA strD = some (0, ⟨3, 1, 1, [8], 7⟩) := by decide +kernel
    obtain ⟨-, rfl⟩ := Prod.mk.inj (Option.some_inj.mp (hremoved.symm.trans hset))
    exact absurd hget (by decide +kernel)

end Wow.Iot.Bloomfilter
