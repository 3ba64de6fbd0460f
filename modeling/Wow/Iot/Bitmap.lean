import Wow.Lib.Bits
import Wow.Lib.CNum
import Wow.Lib.Runs

/-!
# Wow.Iot.Bitmap — `wow_bitmap.c` and its longest runs

The length has 32 bits, the counters of `bitmap_longest_consecutive` are of type `int`.  An access that leaves the array is
`none`; no pointer is null, and the allocations succeed or fail as the caller of the model says.

* `longestLoop_eq`: the loop in closed form; it takes the bits from 2 ^ 31 on for ones of another value.
* `rel_machine`: as long as the current run is an `int`, the loop keeps the state of `Runs.scan`.
* `longest_right_iff`: over every length and content.
-/

namespace Wow.Iot.Bitmap

open Bits Runs

def PARAM_INPUT_SIZE_IS_BIG : Int := 107

def CHAR_BIT_SIZE : Nat := 8

/-! ### The bitmap -/

/-- `struct bit_map_T`. -/
structure BitMap where
  length : Nat
  bit : List UInt8
  deriving DecidableEq

/-- `wow_bitmap_new`; `none` is `NULL`. -/
def bitmapNew (snOpacity : Nat) (callocOk mallocOk : Bool) : Option BitMap :=
  if snOpacity > 0 then
    if callocOk then
      let bytes := asUint32 (asSize ((snOpacity : Int) + CHAR_BIT_SIZE - 1) / CHAR_BIT_SIZE : Nat)
      if mallocOk then some ⟨asUint32 snOpacity, List.replicate bytes 0⟩ else none
    else none
  else none

/-- `wow_bitmap_set_1`. -/
def bitmapSet1 (ptBitmap : BitMap) (snIdx : Nat) : Option (Int × BitMap) :=
  if snIdx < ptBitmap.length then do
    let bit ← setBit ptBitmap.bit (snIdx / CHAR_BIT_SIZE) (snIdx % CHAR_BIT_SIZE)
    return (0, { ptBitmap with bit := bit })
  else some (-PARAM_INPUT_SIZE_IS_BIG, ptBitmap)

/-- `wow_bitmap_set_0`. -/
def bitmapSet0 (ptBitmap : BitMap) (snIdx : Nat) : Option (Int × BitMap) :=
  if snIdx < ptBitmap.length then do
    let bit ← clearBit ptBitmap.bit (snIdx / CHAR_BIT_SIZE) (snIdx % CHAR_BIT_SIZE)
    return (0, { ptBitmap with bit := bit })
  else some (-PARAM_INPUT_SIZE_IS_BIG, ptBitmap)

/-- `wow_bitmap_get`. -/
def bitmapGet (ptBitmap : BitMap) (snIdx : Nat) : Option Int :=
  if snIdx < ptBitmap.length then do
    let b ← getBit ptBitmap.bit (snIdx / CHAR_BIT_SIZE) (snIdx % CHAR_BIT_SIZE)
    return if b ≠ 0 then 1 else 0
  else some (-PARAM_INPUT_SIZE_IS_BIG)

/-- The variables of `bitmap_longest_consecutive`. -/
structure Longest where
  currentLen : Int
  currentStart : Int
  maxLen : Int
  startPos : Int

/-- The body of the loop. -/
def longestPass (matched : Bool) (i : Int) (st : Longest) : Longest :=
  if matched then
    let start := if st.currentLen = 0 then i else st.currentStart
    let len := asInt (st.currentLen + 1)
    if len > st.maxLen then ⟨len, start, len, start⟩ else ⟨len, start, st.maxLen, st.startPos⟩
  else { st with currentLen := 0 }

/-- The loop; in the comparison and in the call the counter is converted to unsigned types. -/
def longestLoop (ptBitmap : BitMap) (data : Int) : Nat → Int → Longest → Option Longest
  | 0, i, st => if asUint32 i < ptBitmap.length then none else some st
  | passes + 1, i, st =>
    if asUint32 i < ptBitmap.length then do
      let r ← bitmapGet ptBitmap (asSize i)
      longestLoop ptBitmap data passes (asInt (i + 1)) (longestPass (r = data) i st)
    else some st

/-- `bitmap_longest_consecutive`, with `*piMaxLen` and `*piStartPos`. -/
def bitmapLongestConsecutive (ptBitmap : BitMap) (data : Int) : Option (Int × Int × Int) :=
  (longestLoop ptBitmap data ptBitmap.length 0 ⟨0, -1, 0, 0⟩).map fun st => (0, st.maxLen, st.startPos)

/-- `wow_bitmap_longest_consecutive_0` and `wow_bitmap_longest_consecutive_1`. -/
def bitmapLongestConsecutiveOf (ptBitmap : BitMap) (value : Bool) : Option (Int × Int × Int) :=
  bitmapLongestConsecutive ptBitmap (if value then 1 else 0)

/-! ### Runs of calls -/

inductive Op where
  | set1 (snIdx : Nat)
  | set0 (snIdx : Nat)

def step (bm : BitMap) : Op → Option BitMap
  | .set1 snIdx => (bitmapSet1 bm snIdx).map Prod.snd
  | .set0 snIdx => (bitmapSet0 bm snIdx).map Prod.snd

def run (bm : BitMap) (ops : List Op) : Option BitMap := ops.foldlM step bm

/-! ### The requirement -/

/-- The places with the value. -/
def has (bm : BitMap) (value : Bool) (i : Nat) : Bool := bitAt bm.bit i == value

/-- **The requirement**: the length and the start of the first of the longest runs of the value. -/
def Right (bm : BitMap) (value : Bool) : Prop :=
  ∃ s l : Nat, FirstLongest (has bm value) bm.length s l ∧
    bitmapLongestConsecutiveOf bm value = some ((0 : Int), (l : Int), (s : Int))

/-- **The condition** on the bits: the first 2 ^ 31 do not all have the value, and a run that goes further is no longer
than one inside of them. -/
def Short (b : Nat → Bool) (n : Nat) : Prop :=
  ¬ (2 ^ 31 ≤ n ∧ ∀ i < 2 ^ 31, b i = true) ∧
    ∀ s l, IsRun b n s l → 2 ^ 31 < s + l → ∃ s', s' + l ≤ 2 ^ 31 ∧ IsRun b n s' l

/-- The condition on the size asked for: the number of octets has not wrapped to 0. -/
def Sized (snOpacity : Nat) : Prop := snOpacity % 2 ^ 35 ≤ 2 ^ 35 - 8

/-! ### The array -/

/-- **The octets** are enough for the bits, or there are none. -/
theorem bitmapNew_spec {snOpacity : Nat} {callocOk mallocOk : Bool} {bm : BitMap}
    (h : bitmapNew snOpacity callocOk mallocOk = some bm) : bm.length < 2 ^ 32 ∧
      (Sized snOpacity → bm.length ≤ 8 * bm.bit.length) ∧
      (¬ Sized snOpacity → 0 < bm.length ∧ bm.bit = []) := by
  rw [bitmapNew] at h
  split at h
  · split at h
    · dsimp only at h
      split at h
      · obtain rfl := Option.some_inj.mp h
        have hchar : CHAR_BIT_SIZE = 8 := rfl
        have hlength : asUint32 (snOpacity : Int) = snOpacity % 2 ^ 32 := by
          rw [asUint32]
          omega
        have hbytes : asUint32 (asSize ((snOpacity : Int) + CHAR_BIT_SIZE - 1) / CHAR_BIT_SIZE : Nat) =
            (snOpacity + 7) % 2 ^ 64 / 8 % 2 ^ 32 := by
          rw [hchar, asUint32, asSize]
          omega
        simp only [hlength, hbytes, Sized, List.length_replicate]
        refine ⟨Nat.mod_lt _ (by decide), fun hle => by omega, fun hgt => ⟨by omega, ?_⟩⟩
        rw [show (snOpacity + 7) % 2 ^ 64 / 8 % 2 ^ 32 = 0 by omega, List.replicate_zero]
      · cases h
    · cases h
  · cases h

/-- A call keeps the length and the size of the array. -/
theorem step_kept {bm bm' : BitMap} {op : Op} (h : step bm op = some bm') :
    bm'.length = bm.length ∧ bm'.bit.length = bm.bit.length := by
  cases op with
  | set1 snIdx =>
    obtain ⟨⟨ret, bm1⟩, hset, rfl⟩ := Option.map_eq_some_iff.mp h
    rw [bitmapSet1] at hset
    split at hset
    · obtain ⟨bit, hbit, hret⟩ := Option.bind_eq_some_iff.mp hset
      obtain ⟨-, rfl⟩ := Prod.mk.inj (Option.some_inj.mp hret)
      exact ⟨rfl, length_setBit hbit⟩
    · obtain ⟨-, rfl⟩ := Prod.mk.inj (Option.some_inj.mp hset)
      exact ⟨rfl, rfl⟩
  | set0 snIdx =>
    obtain ⟨⟨ret, bm1⟩, hset, rfl⟩ := Option.map_eq_some_iff.mp h
    rw [bitmapSet0] at hset
    split at hset
    · obtain ⟨bit, hbit, hret⟩ := Option.bind_eq_some_iff.mp hset
      obtain ⟨-, rfl⟩ := Prod.mk.inj (Option.some_inj.mp hret)
      exact ⟨rfl, length_clearBit hbit⟩
    · obtain ⟨-, rfl⟩ := Prod.mk.inj (Option.some_inj.mp hset)
      exact ⟨rfl, rfl⟩

theorem run_kept {bm bm' : BitMap} {ops : List Op} (h : run bm ops = some bm') :
    bm'.length = bm.length ∧ bm'.bit.length = bm.bit.length := by
  induction ops generalizing bm with
  | nil =>
    obtain rfl := Option.some_inj.mp h
    exact ⟨rfl, rfl⟩
  | cons op ops ih =>
    rw [run, List.foldlM_cons] at h
    obtain ⟨bm1, hstep, hrun⟩ := Option.bind_eq_some_iff.mp h
    obtain ⟨hlength, hbit⟩ := step_kept hstep
    obtain ⟨hlength', hbit'⟩ := ih hrun
    exact ⟨hlength'.trans hlength, hbit'.trans hbit⟩

/-! ### The loop -/

/-- The places that the loop takes for ones with the value. -/
def seen (bm : BitMap) (value : Bool) (i : Nat) : Bool := decide (i < 2 ^ 31) && has bm value i

/-- The variables behind `n` places. -/
def machine (b : Nat → Bool) : Nat → Longest
  | 0 => ⟨0, -1, 0, 0⟩
  | n + 1 => longestPass (b n) (asInt n) (machine b n)

theorem asInt_asInt_succ (n : Nat) : asInt (asInt n + 1) = asInt (n + 1 : Nat) := by
  rw [asInt, asInt, asInt, Int.bmod_add_bmod, Int.natCast_succ]

/-- The counter in the comparison. -/
theorem asUint32_asInt {n : Nat} (h : n < 2 ^ 32) : asUint32 (asInt n) = n := by
  have hmod : asInt n % 2 ^ 32 = n % 2 ^ 32 := Int.bmod_emod
  rw [asUint32, hmod]
  omega

section Loop

variable {bm : BitMap}

/-- **What a pass sees**: a bit below 2 ^ 31, and an error behind it. -/
theorem exists_bitmapGet (hlength : bm.length < 2 ^ 32) (hbits : bm.length ≤ 8 * bm.bit.length) (value : Bool)
    {n : Nat} (hn : n < bm.length) : ∃ r, bitmapGet bm (asSize (asInt n)) = some r ∧
      decide (r = if value then 1 else 0) = seen bm value n := by
  rcases Nat.lt_or_ge n (2 ^ 31) with hlt | hge
  · obtain ⟨b, hb, hset⟩ := exists_getBit (show n < 8 * bm.bit.length by omega)
    refine ⟨if b ≠ 0 then 1 else 0, ?_, ?_⟩
    · rw [asInt_natCast hlt, asSize_natCast (by omega), bitmapGet, if_pos hn]
      change (getBit bm.bit (n / 8) (n % 8)).bind _ = _
      rw [hb]
      rfl
    · rw [seen, decide_eq_true hlt, Bool.true_and, has]
      by_cases hbit : b ≠ 0
      · rw [if_pos hbit, hset.mp hbit]
        cases value <;> rfl
      · rw [if_neg hbit, Bool.eq_false_of_not_eq_true fun h => hbit (hset.mpr h)]
        cases value <;> rfl
  · have hneg : asInt n = n - 2 ^ 32 := asInt_of_ge (by omega) (by omega)
    have hbig : ¬ asSize (asInt n) < bm.length := by
      have hsize := asSize_neg (n := asInt n) (by omega) (by omega)
      omega
    refine ⟨-PARAM_INPUT_SIZE_IS_BIG, ?_, ?_⟩
    · rw [bitmapGet, if_neg hbig]
    · rw [seen, decide_eq_false (Nat.not_lt.mpr hge), Bool.false_and]
      cases value <;> rfl

/-- **The loop in closed form.** -/
theorem longestLoop_eq (hlength : bm.length < 2 ^ 32) (hbits : bm.length ≤ 8 * bm.bit.length) (value : Bool)
    (passes : Nat) {n : Nat} (hn : n + passes = bm.length) :
    longestLoop bm (if value then 1 else 0) passes (asInt n) (machine (seen bm value) n) =
      some (machine (seen bm value) bm.length) := by
  induction passes generalizing n with
  | zero =>
    obtain rfl : n = bm.length := hn
    rw [longestLoop, asUint32_asInt hlength, if_neg (Nat.lt_irrefl _)]
  | succ passes ih =>
    have hlt : n < bm.length := by omega
    obtain ⟨r, hget, hseen⟩ := exists_bitmapGet hlength hbits value hlt
    have hrest := ih (n := n + 1) (by omega)
    rw [longestLoop, asUint32_asInt (hlt.trans hlength), if_pos hlt, hget, Option.bind_eq_bind, Option.bind_some,
      asInt_asInt_succ, hseen]
    exact hrest

end Loop

theorem longest_eq {bm : BitMap} (hlength : bm.length < 2 ^ 32) (hbits : bm.length ≤ 8 * bm.bit.length) (value : Bool) :
    bitmapLongestConsecutiveOf bm value = some ((0 : Int), (machine (seen bm value) bm.length).maxLen,
      (machine (seen bm value) bm.length).startPos) := by
  have hloop := longestLoop_eq hlength hbits value bm.length (Nat.zero_add bm.length)
  have hzero : asInt (0 : Nat) = 0 := asInt_natCast (by decide)
  rw [hzero, machine] at hloop
  rw [bitmapLongestConsecutiveOf, bitmapLongestConsecutive, hloop]
  rfl

/-! ### The variables and the pass of `Runs` -/

/-- The variables hold the state of the pass. -/
structure Rel (st : Longest) (sc : Scan) : Prop where
  currentLen : st.currentLen = sc.current
  currentStart : 0 < sc.current → st.currentStart = sc.start
  maxLen : st.maxLen = sc.best
  startPos : st.startPos = sc.bestStart

variable {b : Nat → Bool}

/-- **A pass**, where the current run stays an `int`. -/
theorem rel_step {st : Longest} {sc : Scan} (h : Rel st sc) {matched : Bool} {n : Nat}
    (hint : matched = true → n < 2 ^ 31 ∧ sc.current + 1 < 2 ^ 31) :
    Rel (longestPass matched (asInt n) st) (sc.step matched n) := by
  cases matched with
  | false => exact ⟨rfl, fun hpos => absurd hpos (Nat.lt_irrefl 0), h.maxLen, h.startPos⟩
  | true =>
    obtain ⟨hn, hcurrent⟩ := hint rfl
    have hlen : asInt (st.currentLen + 1) = (sc.current + 1 : Nat) := by
      rw [h.currentLen]
      exact asInt_natCast (n := sc.current + 1) hcurrent
    have hstart : (if st.currentLen = 0 then asInt n else st.currentStart) =
        ((if sc.current = 0 then n else sc.start : Nat) : Int) := by
      rcases Nat.eq_zero_or_pos sc.current with hzero | hpos
      · rw [if_pos hzero, if_pos (by rw [h.currentLen, hzero]; rfl), asInt_natCast hn]
      · rw [if_neg hpos.ne', if_neg (by rw [h.currentLen]; omega), h.currentStart hpos]
    have hbetter : (((sc.current + 1 : Nat) : Int) > st.maxLen) = (sc.current + 1 > sc.best) := by
      rw [h.maxLen]
      exact propext Int.ofNat_lt
    rw [longestPass, Scan.step, if_pos rfl, if_pos rfl]
    simp only [hlen, hstart, hbetter]
    split
    · exact ⟨rfl, fun _ => rfl, rfl, rfl⟩
    · exact ⟨rfl, fun _ => rfl, h.maxLen, h.startPos⟩

/-- **The variables**, as long as the current runs are an `int`. -/
theorem rel_machine {n : Nat} (hseen : ∀ i, b i = true → i < 2 ^ 31) (hint : ∀ k ≤ n, (scan b k).current < 2 ^ 31) :
    Rel (machine b n) (scan b n) := by
  induction n with
  | zero => exact ⟨rfl, fun hpos => absurd hpos (Nat.lt_irrefl 0), rfl, rfl⟩
  | succ n ih =>
    refine rel_step (ih fun k hk => hint k (Nat.le_succ_of_le hk)) fun hb => ⟨hseen n hb, ?_⟩
    have hnext := hint (n + 1) (Nat.le_refl _)
    have hcurrent : (scan b (n + 1)).current = (scan b n).current + 1 := by
      rw [scan, Scan.step, hb, if_pos rfl]
      dsimp only
      split <;> rfl
    omega

/-- The length that is returned is an `int`. -/
theorem maxLen_lt (b : Nat → Bool) (n : Nat) : (machine b n).maxLen < 2 ^ 31 := by
  induction n with
  | zero =>
    change (0 : Int) < 2 ^ 31
    decide
  | succ n ih =>
    rw [machine, longestPass]
    split
    · dsimp only
      split
      · exact asInt_lt _
      · exact ih
    · exact ih

/-! ### The longest run -/

/-- A run of the bits that are seen: it is in front of 2 ^ 31, or empty. -/
theorem isRun_seen_iff {bm : BitMap} {value : Bool} {n s l : Nat} :
    IsRun (seen bm value) n s l ↔ IsRun (has bm value) n s l ∧ (s + l ≤ 2 ^ 31 ∨ l = 0) := by
  have hseen : ∀ i, seen bm value i = true ↔ i < 2 ^ 31 ∧ has bm value i = true := by
    intro i
    rw [seen, Bool.and_eq_true, decide_eq_true_iff]
  constructor
  · intro h
    refine ⟨⟨h.1, fun i hi hlt => ((hseen i).mp (h.2 i hi hlt)).2⟩, ?_⟩
    rcases Nat.eq_zero_or_pos l with hl | hl
    · exact Or.inr hl
    · have hlast := ((hseen (s + l - 1)).mp (h.2 (s + l - 1) (by omega) (by omega))).1
      exact Or.inl (by omega)
  · rintro ⟨h, hend⟩
    refine ⟨h.1, fun i hi hlt => (hseen i).mpr ⟨?_, h.2 i hi hlt⟩⟩
    omega

/-- The current run stays an `int`, unless all of the bits that are seen have the value. -/
theorem current_lt {bm : BitMap} {value : Bool}
    (h : ¬ (2 ^ 31 ≤ bm.length ∧ ∀ i < 2 ^ 31, has bm value i = true)) {k : Nat} (hk : k ≤ bm.length) :
    (scan (seen bm value) k).current < 2 ^ 31 := by
  have hinv := inv_scan (seen bm value) k
  have hle := hinv.current_le
  by_contra hge
  have hrun : IsRun (seen bm value) k (k - (scan (seen bm value) k).current) (scan (seen bm value) k).current :=
    ⟨by omega, fun i hi hlt => hinv.current i hi (by omega)⟩
  obtain ⟨hbits, hend⟩ := isRun_seen_iff.mp hrun
  refine h ⟨by omega, fun i hi => hbits.2 i (by omega) (by omega)⟩

/-- **The longest run of the bits that are seen** is the longest of all, where the condition holds. -/
theorem firstLongest_of_short {bm : BitMap} {value : Bool} {n s l : Nat} (hshort : Short (has bm value) n)
    (h : FirstLongest (seen bm value) n s l) : FirstLongest (has bm value) n s l := by
  obtain ⟨hrun, hend⟩ := isRun_seen_iff.mp h.isRun
  refine ⟨hrun, fun s' l' hrun' => ?_, fun s' hrun' => ?_⟩
  · rcases Nat.lt_or_ge (2 ^ 31) (s' + l') with hlt | hle
    · obtain ⟨s'', hle, hrun''⟩ := hshort.2 s' l' hrun' hlt
      exact h.longest s'' l' (isRun_seen_iff.mpr ⟨hrun'', Or.inl hle⟩)
    · exact h.longest s' l' (isRun_seen_iff.mpr ⟨hrun', Or.inl hle⟩)
  · rcases Nat.lt_or_ge (2 ^ 31) (s' + l) with hlt | hle
    · rcases hend with hend | hzero
      · omega
      · exact h.first s' (isRun_seen_iff.mpr ⟨hrun', Or.inr hzero⟩)
    · exact h.first s' (isRun_seen_iff.mpr ⟨hrun', Or.inl hle⟩)

/-- And only there. -/
theorem runs_of_firstLongest {bm : BitMap} {value : Bool} {n s l : Nat} (h : FirstLongest (has bm value) n s l)
    (hend : s + l ≤ 2 ^ 31 ∨ l = 0) {s' l' : Nat} (hrun : IsRun (has bm value) n s' l') :
    ∃ s'', s'' + l' ≤ 2 ^ 31 ∧ IsRun (has bm value) n s'' l' := by
  have hle := h.longest s' l' hrun
  rcases hend with hend | hzero
  · exact ⟨s, by omega, h.isRun.shorten hle⟩
  · refine ⟨0, by omega, ?_⟩
    obtain rfl : l' = 0 := by omega
    exact ⟨Nat.zero_le n, fun i _ hlt => absurd hlt (Nat.not_lt_zero i)⟩

/-- **A bitmap with octets for its bits.** -/
theorem right_iff_short {bm : BitMap} (hlength : bm.length < 2 ^ 32) (hbits : bm.length ≤ 8 * bm.bit.length)
    (value : Bool) : Right bm value ↔ Short (has bm value) bm.length := by
  rw [Right, longest_eq hlength hbits value]
  have hscan := (inv_scan (seen bm value) bm.length).best
  have hseen : ∀ i, seen bm value i = true → i < 2 ^ 31 := fun i hi => of_decide_eq_true (Bool.and_eq_true_iff.mp hi).1
  constructor
  · rintro ⟨s, l, hlongest, hret⟩
    obtain ⟨hmax, hpos⟩ := Prod.mk.inj (Prod.mk.inj (Option.some_inj.mp hret)).2
    have hwhole : ¬ (2 ^ 31 ≤ bm.length ∧ ∀ i < 2 ^ 31, has bm value i = true) := by
      rintro ⟨hlong, hall⟩
      have hle := hlongest.longest 0 (2 ^ 31) ⟨by omega, fun i _ hlt => hall i (by omega)⟩
      have hlt := maxLen_lt (seen bm value) bm.length
      omega
    have hrel := rel_machine hseen fun k hk => current_lt hwhole hk
    obtain ⟨hrun, hend⟩ := isRun_seen_iff.mp hscan.isRun
    rw [hrel.maxLen] at hmax
    rw [hrel.startPos] at hpos
    obtain rfl := Int.ofNat_inj.mp hmax
    obtain rfl := Int.ofNat_inj.mp hpos
    exact ⟨hwhole, fun s' l' hr _ => runs_of_firstLongest hlongest hend hr⟩
  · intro hshort
    have hrel := rel_machine hseen fun k hk => current_lt hshort.1 hk
    refine ⟨_, _, firstLongest_of_short hshort hscan, ?_⟩
    rw [hrel.maxLen, hrel.startPos]

/-- Where the answer is right it is the one: there is one first of the longest runs. -/
theorem Right.answer {bm : BitMap} {value : Bool} {s l : Nat} (h : Right bm value)
    (hrun : FirstLongest (has bm value) bm.length s l) :
    bitmapLongestConsecutiveOf bm value = some ((0 : Int), (l : Int), (s : Int)) := by
  obtain ⟨s', l', hrun', hret⟩ := h
  obtain ⟨rfl, rfl⟩ := firstLongest_unique hrun hrun'
  exact hret

/-- A bitmap without octets is not read. -/
theorem not_right_of_nil {bm : BitMap} (hpos : 0 < bm.length) (hnil : bm.bit = []) (value : Bool) :
    ¬ Right bm value := by
  rintro ⟨s, l, -, hret⟩
  obtain ⟨n, hn⟩ : ∃ n, bm.length = n + 1 := ⟨bm.length - 1, by omega⟩
  have hget : bitmapGet bm (asSize 0) = none := by
    have hzero : asSize 0 = 0 := by decide
    rw [hzero, bitmapGet, if_pos hpos, getBit, hnil]
    rfl
  have hcompare : asUint32 0 < bm.length := hpos
  have hloop : ∀ data, longestLoop bm data bm.length 0 ⟨0, -1, 0, 0⟩ = none := by
    intro data
    rw [hn, longestLoop, if_pos hcompare, hget]
    rfl
  rw [bitmapLongestConsecutiveOf, bitmapLongestConsecutive, hloop] at hret
  cases hret

/-- **Which bitmaps are answered right**: over every size, every content that calls leave, and both values. -/
theorem longest_right_iff {snOpacity : Nat} {callocOk mallocOk : Bool} {bm0 bm : BitMap} {ops : List Op}
    (hnew : bitmapNew snOpacity callocOk mallocOk = some bm0) (hrun : run bm0 ops = some bm) (value : Bool) :
    Right bm value ↔ Sized snOpacity ∧ Short (has bm value) bm.length := by
  obtain ⟨hlength, hbits, hnone⟩ := bitmapNew_spec hnew
  obtain ⟨hsame, hsameBit⟩ := run_kept hrun
  by_cases hsized : Sized snOpacity
  · have hle := hbits hsized
    rw [right_iff_short (by omega) (by omega), and_iff_right hsized]
  · obtain ⟨hpos, hnil⟩ := hnone hsized
    have hnil' : bm.bit = [] := by
      rw [hnil, List.length_nil] at hsameBit
      exact List.length_eq_zero_iff.mp hsameBit
    exact iff_of_false (not_right_of_nil (by omega) hnil' value) fun h => hsized h.1

theorem longest_right_iff_ten : Right ⟨10, [24, 0]⟩ true ↔ Sized 10 ∧ Short (has ⟨10, [24, 0]⟩ true) 10 := by
  have hnew : bitmapNew 10 true true = some ⟨10, [0, 0]⟩ := by decide +kernel
  have hrun : run ⟨10, [0, 0]⟩ [.set1 3, .set1 4] = some ⟨10, [24, 0]⟩ := by decide +kernel
  exact longest_right_iff hnew hrun true

/-- A new bitmap holds zeros. -/
theorem exists_bitmapNew {snOpacity : Nat} (hpos : 0 < snOpacity) (hlt : snOpacity < 2 ^ 32) :
    ∃ bm, bitmapNew snOpacity true true = some bm ∧ bm.length = snOpacity ∧ ∀ i, has bm false i = true := by
  refine ⟨⟨asUint32 snOpacity,
    List.replicate (asUint32 (asSize ((snOpacity : Int) + CHAR_BIT_SIZE - 1) / CHAR_BIT_SIZE : Nat)) 0⟩, ?_,
    asUint32_natCast hlt, fun i => ?_⟩
  · rw [bitmapNew, if_pos hpos, if_pos rfl]
    exact if_pos rfl
  · rw [has, bitAt_replicate]
    rfl

/-- A bitmap of 2 ^ 31 zeros has a run that is no `int`. -/
theorem long_not_right : ∃ bm, bitmapNew (2 ^ 31) true true = some bm ∧ ¬ Right bm false := by
  obtain ⟨bm, hnew, hlength, hall⟩ := exists_bitmapNew (show 0 < 2 ^ 31 by decide) (by decide)
  refine ⟨bm, hnew, fun h => ?_⟩
  obtain ⟨hlt, hbits, -⟩ := bitmapNew_spec hnew
  obtain ⟨hwhole, -⟩ := (right_iff_short hlt (hbits (show 2 ^ 31 % 2 ^ 35 ≤ 2 ^ 35 - 8 by decide)) false).mp h
  exact hwhole ⟨hlength.ge, fun i _ => hall i⟩

end Wow.Iot.Bitmap
