import Wow.Lib.CNum
import Wow.Lib.Parts

/-!
# Wow.Utils.TypeArrays — arrays of numbers and their octets

`short2char`, `int2char`, `long2char`, `float2char` and their ways back, each of them with the octets in the order of
the CPU, with the lowest first (`_le`) and with the highest first (`_be`), and the pairs of `wow_byte.h` for a `float`.
A `float` is its bits.  An access that leaves an array is `none`; no pointer is null.

* `toChar_eq`, `ofChar_eq`, `ofCharFirst_eq`: the arrays that the conversions leave.
* `arrays_back_iff`: `char2long` reads the first eight octets for each of its numbers, and `byte_set_float_cdab` writes the
  order of `byte_set_float_abcd`.  The others are inverse.
-/

namespace Wow.Utils.TypeArrays

open Block Parts

def PARAM_INPUT_ARG_INVALID : Int := 104

abbrev Byte := BitVec 8

/-! ### Numbers -/

/-- Which octet comes first. -/
inductive Endian where
  | le
  | be

/-- `WOW_BIG_ENDIAN`, `WOW_LITTLE_ENDIAN`, and the order of the octets in memory. -/
structure Cpu where
  wowBigEndian : Int
  wowLittleEndian : Int
  native : Endian

/-- The order that a conversion without a suffix takes. -/
def Cpu.endian (cpu : Cpu) : Endian :=
  if cpu.wowBigEndian = 1 then .be else if cpu.wowLittleEndian = 1 then .le else cpu.native

/-- `byte_set_u16_le`, `byte_set_u16_be`. -/
def byteSetU16 : Endian → BitVec 16 → List Byte
  | .le => split 8 [0, 8]
  | .be => split 8 [8, 0]

/-- `byte_set_u32_le`, `byte_set_u32_be`. -/
def byteSetU32 : Endian → BitVec 32 → List Byte
  | .le => split 8 [0, 8, 16, 24]
  | .be => split 8 [24, 16, 8, 0]

/-- `byte_set_u64_le`, `byte_set_u64_be`. -/
def byteSetU64 : Endian → BitVec 64 → List Byte
  | .le => split 8 [0, 8, 16, 24, 32, 40, 48, 56]
  | .be => split 8 [56, 48, 40, 32, 24, 16, 8, 0]

/-- `byte_get_16_le_impl`, `byte_get_16_be_impl`. -/
def byteGet16 : Endian → List Byte → BitVec 16
  | .le => join 16 [0, 8]
  | .be => join 16 [8, 0]

/-- `byte_get_32_le_impl`, `byte_get_32_be_impl`. -/
def byteGet32 : Endian → List Byte → BitVec 32
  | .le => join 32 [0, 8, 16, 24]
  | .be => join 32 [24, 16, 8, 0]

/-- `byte_get_64_le_impl`, `byte_get_64_be_impl`. -/
def byteGet64 : Endian → List Byte → BitVec 64
  | .le => join 64 [0, 8, 16, 24, 32, 40, 48, 56]
  | .be => join 64 [56, 48, 40, 32, 24, 16, 8, 0]

/-- `U8_2_U32`. -/
def u8ToU32 (b1 b2 b3 b4 : Byte) : BitVec 32 := join 32 [24, 16, 8, 0] [b1, b2, b3, b4]

/-- `byte_get_float_abcd`. -/
def byteGetFloatAbcd (p0 p1 p2 p3 : Byte) : BitVec 32 := u8ToU32 p0 p1 p2 p3

/-- `byte_get_float_cdab`. -/
def byteGetFloatCdab (p0 p1 p2 p3 : Byte) : BitVec 32 := u8ToU32 p2 p3 p0 p1

/-- `byte_set_float_abcd`. -/
def byteSetFloatAbcd (f : BitVec 32) : List Byte := split 8 [24, 16, 8, 0] f

/-- `byte_set_float_cdab`. -/
def byteSetFloatCdab (f : BitVec 32) : List Byte := split 8 [24, 16, 8, 0] f

/-! ### Arrays -/

section Arrays

variable {α : Type}

/-- A conversion to octets, `k` of them for a number. -/
def toChar (k : Nat) (set : α → List Byte) (src : List α) (nSlen : Int) (pu8Data : List Byte) (nDlen : Int) :
    Option (Int × List Byte) :=
  if nDlen ≥ asInt (k * nSlen) then (setLoop set k src nSlen.toNat pu8Data).map (0, ·)
  else some (-PARAM_INPUT_ARG_INVALID, pu8Data)

/-- A conversion of octets. -/
def ofChar (k : Nat) (get : List Byte → α) (pu8Data : List Byte) (nSlen : Int) (dst : List α) (nDlen : Int) :
    Option (Int × List α) :=
  if nDlen ≥ nSlen.tdiv k then (getLoop get k pu8Data (nSlen.tdiv k).toNat dst).map (0, ·)
  else some (-PARAM_INPUT_ARG_INVALID, dst)

/-- The loop of `char2long`: the pointer to the octets stays where it is. -/
def getFirstLoop (get : List Byte → α) (k : Nat) (pu8Data : List Byte) : Nat → List α → Option (List α)
  | 0, dst => some dst
  | i + 1, dst => do
    let dst ← getFirstLoop get k pu8Data i dst
    let xs ← load pu8Data 0 k
    store dst i [get xs]

/-- A conversion with that loop. -/
def ofCharFirst (k : Nat) (get : List Byte → α) (pu8Data : List Byte) (nSlen : Int) (dst : List α) (nDlen : Int) :
    Option (Int × List α) :=
  if nDlen ≥ nSlen.tdiv k then (getFirstLoop get k pu8Data (nSlen.tdiv k).toNat dst).map (0, ·)
  else some (-PARAM_INPUT_ARG_INVALID, dst)

end Arrays

def short2char (cpu : Cpu) := toChar 2 (byteSetU16 cpu.endian)
def short2charLe := toChar 2 (byteSetU16 .le)
def short2charBe := toChar 2 (byteSetU16 .be)
def char2short (cpu : Cpu) := ofChar 2 (byteGet16 cpu.endian)
def char2shortLe := ofChar 2 (byteGet16 .le)
def char2shortBe := ofChar 2 (byteGet16 .be)

def int2char (cpu : Cpu) := toChar 4 (byteSetU32 cpu.endian)
def int2charLe := toChar 4 (byteSetU32 .le)
def int2charBe := toChar 4 (byteSetU32 .be)
def char2int (cpu : Cpu) := ofChar 4 (byteGet32 cpu.endian)
def char2intLe := ofChar 4 (byteGet32 .le)
def char2intBe := ofChar 4 (byteGet32 .be)

def long2char (cpu : Cpu) := toChar 8 (byteSetU64 cpu.endian)
def long2charLe := toChar 8 (byteSetU64 .le)
def long2charBe := toChar 8 (byteSetU64 .be)
def char2long (cpu : Cpu) := ofCharFirst 8 (byteGet64 cpu.endian)
def char2longLe := ofCharFirst 8 (byteGet64 .le)
def char2longBe := ofCharFirst 8 (byteGet64 .be)

def float2char (cpu : Cpu) := toChar 4 (byteSetU32 cpu.endian)
def float2charLe := toChar 4 (byteSetU32 .le)
def float2charBe := toChar 4 (byteSetU32 .be)
def char2float (cpu : Cpu) := ofChar 4 (byteGet32 cpu.endian)
def char2floatLe := ofChar 4 (byteGet32 .le)
def char2floatBe := ofChar 4 (byteGet32 .be)

/-! ### The requirement -/

/-- The types of the numbers. -/
inductive Kind where
  | short
  | int
  | long
  | float

namespace Kind

/-- The octets of a number. -/
def octets : Kind → Nat
  | short => 2
  | int => 4
  | long => 8
  | float => 4

/-- Its bits. -/
abbrev bits (t : Kind) : Nat := 8 * t.octets

end Kind

/-- The suffix of a conversion. -/
inductive Order where
  | default
  | le
  | be

/-- Two conversions, there and back. -/
structure Conv (w : Nat) where
  toOctets : List (BitVec w) → Int → List Byte → Int → Option (Int × List Byte)
  ofOctets : List Byte → Int → List (BitVec w) → Int → Option (Int × List (BitVec w))

def conv (cpu : Cpu) : (t : Kind) → Order → Conv t.bits
  | .short, .default => ⟨short2char cpu, char2short cpu⟩
  | .short, .le => ⟨short2charLe, char2shortLe⟩
  | .short, .be => ⟨short2charBe, char2shortBe⟩
  | .int, .default => ⟨int2char cpu, char2int cpu⟩
  | .int, .le => ⟨int2charLe, char2intLe⟩
  | .int, .be => ⟨int2charBe, char2intBe⟩
  | .long, .default => ⟨long2char cpu, char2long cpu⟩
  | .long, .le => ⟨long2charLe, char2longLe⟩
  | .long, .be => ⟨long2charBe, char2longBe⟩
  | .float, .default => ⟨float2char cpu, char2float cpu⟩
  | .float, .le => ⟨float2charLe, char2floatLe⟩
  | .float, .be => ⟨float2charBe, char2floatBe⟩

/-- What is converted. -/
inductive Input where
  | numbers (t : Kind) (o : Order) (src : List (BitVec t.bits))
  | octets (t : Kind) (o : Order) (src : List Byte)
  | abcd (f : BitVec 32)
  | abcdOctets (p0 p1 p2 p3 : Byte)
  | cdab (f : BitVec 32)
  | cdabOctets (p0 p1 p2 p3 : Byte)

/-- The octets are as many as an `int` counts, and those of whole numbers. -/
def Input.Fits : Input → Prop
  | numbers t _ src => t.octets * src.length < 2 ^ 31
  | octets t _ src => src.length < 2 ^ 31 ∧ t.octets ∣ src.length
  | _ => True

/-- The numbers come back, whatever the arrays held before. -/
def NumbersBack {w : Nat} (k : Nat) (c : Conv w) (src : List (BitVec w)) : Prop :=
  ∀ pu8Data dst, pu8Data.length = k * src.length → dst.length = src.length →
    ∃ b, c.toOctets src src.length pu8Data pu8Data.length = some (0, b) ∧
      c.ofOctets b b.length dst dst.length = some (0, src)

/-- The octets come back. -/
def OctetsBack {w : Nat} (k : Nat) (c : Conv w) (src : List Byte) : Prop :=
  ∀ dst pu8Data, src.length = k * dst.length → pu8Data.length = src.length →
    ∃ xs, c.ofOctets src src.length dst dst.length = some (0, xs) ∧
      c.toOctets xs xs.length pu8Data pu8Data.length = some (0, src)

/-- **The requirement**: what is converted there and back is the same. -/
def Back (cpu : Cpu) : Input → Prop
  | .numbers t o src => NumbersBack t.octets (conv cpu t o) src
  | .octets t o src => OctetsBack t.octets (conv cpu t o) src
  | .abcd f => ∀ p0 p1 p2 p3, byteSetFloatAbcd f = [p0, p1, p2, p3] → byteGetFloatAbcd p0 p1 p2 p3 = f
  | .abcdOctets p0 p1 p2 p3 => byteSetFloatAbcd (byteGetFloatAbcd p0 p1 p2 p3) = [p0, p1, p2, p3]
  | .cdab f => ∀ p0 p1 p2 p3, byteSetFloatCdab f = [p0, p1, p2, p3] → byteGetFloatCdab p0 p1 p2 p3 = f
  | .cdabOctets p0 p1 p2 p3 => byteSetFloatCdab (byteGetFloatCdab p0 p1 p2 p3) = [p0, p1, p2, p3]

/-- The condition: the 64-bit numbers are all the same, and so are the halves of a `float` with the order `cdab`. -/
def Input.Same : Input → Prop
  | numbers .long _ src => ∃ x n, src = List.replicate n x
  | octets .long _ src => ∃ g n, g.length = 8 ∧ src = (List.replicate n g).flatten
  | cdab f => (f >>> 16).setWidth 16 = f.setWidth 16
  | cdabOctets p0 p1 p2 p3 => p0 = p2 ∧ p1 = p3
  | _ => True

/-! ### The numbers and their octets -/

/-- A way to write a number and a way to read it, inverse to each other. -/
structure Cuts {w : Nat} (k : Nat) (set : BitVec w → List Byte) (get : List Byte → BitVec w) : Prop where
  pos : 0 < k
  length_set : ∀ x, (set x).length = k
  get_set : ∀ x, get (set x) = x
  set_get : ∀ g, g.length = k → set (get g) = g

theorem cuts_of_layout (w : Nat) (shifts : List Nat) (h : Layout w 8 shifts) (hpos : 0 < shifts.length) :
    Cuts shifts.length (split 8 shifts : BitVec w → List Byte) (join w shifts) :=
  ⟨hpos, length_split, join_split h, fun _ hg => split_join h hg⟩

theorem cuts16 (e : Endian) : Cuts 2 (byteSetU16 e) (byteGet16 e) := by
  cases e with
  | le => exact cuts_of_layout 16 [0, 8] ⟨by decide, by decide, by decide⟩ (by decide)
  | be => exact cuts_of_layout 16 [8, 0] ⟨by decide, by decide, by decide⟩ (by decide)

theorem cuts32 (e : Endian) : Cuts 4 (byteSetU32 e) (byteGet32 e) := by
  cases e with
  | le => exact cuts_of_layout 32 [0, 8, 16, 24] ⟨by decide, by decide, by decide⟩ (by decide)
  | be => exact cuts_of_layout 32 [24, 16, 8, 0] ⟨by decide, by decide, by decide⟩ (by decide)

theorem cuts64 (e : Endian) : Cuts 8 (byteSetU64 e) (byteGet64 e) := by
  cases e with
  | le => exact cuts_of_layout 64 [0, 8, 16, 24, 32, 40, 48, 56] ⟨by decide, by decide, by decide⟩ (by decide)
  | be => exact cuts_of_layout 64 [56, 48, 40, 32, 24, 16, 8, 0] ⟨by decide, by decide, by decide⟩ (by decide)

/-! ### The arrays -/

section Arrays

variable {α : Type} {k : Nat}

/-- **What a conversion to octets leaves.** -/
theorem toChar_eq {set : α → List Byte} (hset : ∀ x, (set x).length = k) {src : List α} {pu8Data : List Byte}
    (hlen : pu8Data.length = k * src.length) (hlt : k * src.length < 2 ^ 31) :
    toChar k set src src.length pu8Data pu8Data.length = some (0, src.flatMap set) := by
  have hcheck : (pu8Data.length : Int) ≥ asInt ((k : Int) * (src.length : Int)) := by
    rw [← Int.natCast_mul, asInt_natCast hlt, hlen]
  have hloop := setLoop_eq hset [] [] src hlen
  rw [List.append_nil, List.append_nil, List.append_nil] at hloop
  rw [toChar, if_pos hcheck, Int.toNat_natCast, hloop, Option.map_some]

theorem tdiv_natCast (hk : 0 < k) (n : Nat) : ((k * n : Nat) : Int).tdiv k = n := by
  rw [← Int.ofNat_tdiv, Nat.mul_div_cancel_left n hk]

/-- **What a conversion of octets leaves.** -/
theorem ofChar_eq (hk : 0 < k) (get : List Byte → α) {gs : List (List Byte)} (hgs : ∀ g ∈ gs, g.length = k)
    {dst : List α} (hdst : dst.length = gs.length) :
    ofChar k get gs.flatten gs.flatten.length dst dst.length = some (0, gs.map get) := by
  have hdiv : (gs.flatten.length : Int).tdiv k = gs.length := by
    rw [length_flatten hgs, tdiv_natCast hk]
  have hcheck : (dst.length : Int) ≥ gs.length := by
    rw [hdst]
  have hloop := getLoop_eq get [] [] hgs hdst
  rw [List.append_nil, List.append_nil, List.append_nil] at hloop
  rw [ofChar, hdiv, if_pos hcheck, Int.toNat_natCast, hloop, Option.map_some]

theorem getFirstLoop_eq (get : List Byte → α) {g rest : List Byte} (hg : g.length = k) (tail : List α) (n : Nat)
    {old : List α} (hold : old.length = n) :
    getFirstLoop get k (g ++ rest) n (old ++ tail) = some (List.replicate n (get g) ++ tail) := by
  induction n generalizing old tail with
  | zero =>
    rw [List.length_eq_zero_iff.mp hold]
    rfl
  | succ n ih =>
    obtain ⟨old, last, rfl, hold', hlast⟩ := exists_cut (show n ≤ old.length by omega)
    have hload : load (g ++ rest) 0 k = some g := load_eq (a := []) rfl rfl hg.symm
    have hstore : store (List.replicate n (get g) ++ (last ++ tail)) n [get g] =
        some (List.replicate n (get g) ++ [get g] ++ tail) := by
      refine store_eq (List.append_assoc _ _ _).symm List.length_replicate.symm ?_
      rw [List.length_singleton]
      omega
    rw [getFirstLoop, List.append_assoc, ih _ hold', Option.bind_eq_bind, Option.bind_some, hload, Option.bind_eq_bind,
      Option.bind_some, hstore, List.replicate_succ']

/-- **What the conversion with the pointer left in its place leaves**: the first number again and again. -/
theorem ofCharFirst_eq (hk : 0 < k) (get : List Byte → α) {g rest : List Byte} (hg : g.length = k) {dst : List α}
    (hlen : (g ++ rest).length = k * dst.length) :
    ofCharFirst k get (g ++ rest) (g ++ rest).length dst dst.length =
      some (0, List.replicate dst.length (get g)) := by
  have hdiv : ((g ++ rest).length : Int).tdiv k = dst.length := by
    rw [hlen, tdiv_natCast hk]
  have hloop : getFirstLoop get k (g ++ rest) dst.length (dst ++ []) =
      some (List.replicate dst.length (get g) ++ []) := getFirstLoop_eq get hg [] dst.length rfl
  rw [List.append_nil, List.append_nil] at hloop
  rw [ofCharFirst, hdiv, if_pos (le_refl _), Int.toNat_natCast, hloop, Option.map_some]

theorem ofCharFirst_nil (k : Nat) (get : List Byte → α) :
    ofCharFirst k get [] ([] : List Byte).length [] ([] : List α).length = some (0, []) := by
  have hdiv : (([] : List Byte).length : Int).tdiv k = 0 := Int.zero_tdiv k
  rw [ofCharFirst, hdiv, if_pos (Int.natCast_nonneg _)]
  rfl

end Arrays

/-- Octets that repeat a group repeat the first one. -/
theorem eq_of_flatten_replicate {k n m : Nat} (hk : 0 < k) {g g' rest : List Byte} (hg : g.length = k)
    (hg' : g'.length = k) (hn : (g ++ rest).length = k * (n + 1))
    (hsame : g ++ rest = (List.replicate m g').flatten) : m = n + 1 ∧ g = g' := by
  have hgroups : ∀ q ∈ List.replicate m g', q.length = k := fun q hq => List.eq_of_mem_replicate hq ▸ hg'
  have hflat := length_flatten hgroups
  rw [← hsame, hn, List.length_replicate] at hflat
  obtain rfl := Nat.eq_of_mul_eq_mul_left hk hflat
  rw [List.replicate_succ, List.flatten_cons] at hsame
  exact ⟨rfl, List.append_inj_left hsame (hg.trans hg'.symm)⟩

/-! ### There and back -/

theorem numbersBack_iff {w k : Nat} {toOctets : List (BitVec w) → Int → List Byte → Int → Option (Int × List Byte)}
    {ofOctets : List Byte → Int → List (BitVec w) → Int → Option (Int × List (BitVec w))} {src : List (BitVec w)} :
    NumbersBack k ⟨toOctets, ofOctets⟩ src ↔ ∀ pu8Data dst, pu8Data.length = k * src.length → dst.length = src.length →
      ∃ b, toOctets src src.length pu8Data pu8Data.length = some (0, b) ∧
        ofOctets b b.length dst dst.length = some (0, src) := Iff.rfl

theorem octetsBack_iff {w k : Nat} {toOctets : List (BitVec w) → Int → List Byte → Int → Option (Int × List Byte)}
    {ofOctets : List Byte → Int → List (BitVec w) → Int → Option (Int × List (BitVec w))} {src : List Byte} :
    OctetsBack k ⟨toOctets, ofOctets⟩ src ↔ ∀ dst pu8Data, src.length = k * dst.length → pu8Data.length = src.length →
      ∃ xs, ofOctets src src.length dst dst.length = some (0, xs) ∧
        toOctets xs xs.length pu8Data pu8Data.length = some (0, src) := Iff.rfl

namespace Cuts

variable {w k : Nat} {set : BitVec w → List Byte} {get : List Byte → BitVec w}

theorem flatMap_map_get (hc : Cuts k set get) {gs : List (List Byte)} (hgs : ∀ g ∈ gs, g.length = k) :
    (gs.map get).flatMap set = gs.flatten := by
  rw [List.flatMap_map, List.flatMap_def]
  refine congrArg List.flatten ((List.map_congr_left fun g hg => ?_).trans (List.map_id _))
  exact hc.set_get g (hgs g hg)

/-- **Numbers** come back. -/
theorem numbersBack (hc : Cuts k set get) {src : List (BitVec w)} (hlt : k * src.length < 2 ^ 31) :
    NumbersBack k ⟨toChar k set, ofChar k get⟩ src := by
  rw [numbersBack_iff]
  intro pu8Data dst hlen hdst
  refine ⟨src.flatMap set, toChar_eq hc.length_set hlen hlt, ?_⟩
  have hgroups : ∀ g ∈ src.map set, g.length = k := by
    intro g hg
    obtain ⟨x, -, rfl⟩ := List.mem_map.mp hg
    exact hc.length_set x
  have hdst' : dst.length = (src.map set).length := by rw [List.length_map, hdst]
  have hback := ofChar_eq hc.pos get hgroups hdst'
  have hsame : (src.map set).map get = src := by
    rw [List.map_map]
    exact (List.map_congr_left fun x _ => hc.get_set x).trans (List.map_id _)
  rwa [hsame] at hback

/-- **Octets** come back. -/
theorem octetsBack (hc : Cuts k set get) {src : List Byte} (hlt : src.length < 2 ^ 31) :
    OctetsBack k ⟨toChar k set, ofChar k get⟩ src := by
  rw [octetsBack_iff]
  intro dst pu8Data hlen hpu8
  obtain ⟨gs, rfl, hn, hgs⟩ := exists_groups hlen
  refine ⟨gs.map get, ofChar_eq hc.pos get hgs hn.symm, ?_⟩
  rw [← hc.flatMap_map_get hgs] at hpu8 hlt ⊢
  rw [length_flatMap hc.length_set] at hpu8 hlt
  exact toChar_eq hc.length_set hpu8 hlt

/-- With the pointer left in its place they come back where they are all the same. -/
theorem numbersBackFirst_iff (hc : Cuts k set get) {src : List (BitVec w)} (hlt : k * src.length < 2 ^ 31) :
    NumbersBack k ⟨toChar k set, ofCharFirst k get⟩ src ↔ ∃ x n, src = List.replicate n x := by
  rw [numbersBack_iff]
  cases src with
  | nil =>
    refine iff_of_true (fun pu8Data dst hlen hdst => ⟨[], toChar_eq hc.length_set hlen hlt, ?_⟩) ⟨0, 0, rfl⟩
    obtain rfl := List.length_eq_zero_iff.mp hdst
    exact ofCharFirst_nil k get
  | cons x xs =>
    have hback {pu8Data : List Byte} {dst : List (BitVec w)} (hlen : pu8Data.length = k * (x :: xs).length)
        (hdst : dst.length = (x :: xs).length) :
        toChar k set (x :: xs) (x :: xs).length pu8Data pu8Data.length = some (0, (x :: xs).flatMap set) ∧
          ofCharFirst k get ((x :: xs).flatMap set) ((x :: xs).flatMap set).length dst dst.length =
            some (0, List.replicate (xs.length + 1) x) := by
      refine ⟨toChar_eq hc.length_set hlen hlt, ?_⟩
      have hall : (set x ++ xs.flatMap set).length = k * dst.length := by
        rw [hdst, ← length_flatMap hc.length_set, List.flatMap_cons]
      rw [List.flatMap_cons, ofCharFirst_eq hc.pos get (hc.length_set x) hall, hc.get_set, hdst, List.length_cons]
    constructor
    · intro h
      have hlen : (List.replicate (k * (x :: xs).length) (0 : Byte)).length = k * (x :: xs).length :=
        List.length_replicate
      have hdst : (List.replicate (x :: xs).length (0 : BitVec w)).length = (x :: xs).length := List.length_replicate
      obtain ⟨hto, hof⟩ := hback hlen hdst
      obtain ⟨b, hto', hof'⟩ := h _ _ hlen hdst
      obtain ⟨-, rfl⟩ := Prod.mk.inj (Option.some_inj.mp (hto.symm.trans hto'))
      obtain ⟨-, hsame⟩ := Prod.mk.inj (Option.some_inj.mp (hof'.symm.trans hof))
      exact ⟨x, _, hsame⟩
    · rintro ⟨y, n, hy⟩ pu8Data dst hlen hdst
      obtain ⟨hto, hof⟩ := hback hlen hdst
      have hall : ∀ z ∈ x :: xs, z = y := fun z hz => List.eq_of_mem_replicate (hy ▸ hz)
      have hx : x = y := hall x List.mem_cons_self
      rw [← List.length_cons, ← List.eq_replicate_of_mem fun z hz => (hall z hz).trans hx.symm] at hof
      exact ⟨_, hto, hof⟩

theorem octetsBackFirst_iff (hc : Cuts k set get) {src : List Byte} (hlt : src.length < 2 ^ 31) (hk : k ∣ src.length) :
    OctetsBack k ⟨toChar k set, ofCharFirst k get⟩ src ↔
      ∃ g n, g.length = k ∧ src = (List.replicate n g).flatten := by
  rw [octetsBack_iff]
  obtain ⟨n, hn⟩ := hk
  cases n with
  | zero =>
    obtain rfl := List.length_eq_zero_iff.mp hn
    refine iff_of_true (fun dst pu8Data hlen hpu8 => ⟨[], ?_, ?_⟩) ⟨List.replicate k 0, 0, List.length_replicate, rfl⟩
    · have hdst : dst = [] := by
        rw [List.length_nil] at hlen
        exact List.length_eq_zero_iff.mp ((Nat.mul_eq_zero.mp hlen.symm).resolve_left (Nat.ne_of_gt hc.pos))
      rw [hdst]
      exact ofCharFirst_nil k get
    · refine toChar_eq hc.length_set hpu8 ?_
      rw [List.length_nil]
      omega
  | succ n =>
    obtain ⟨g, rest, rfl, hg, -⟩ := exists_cut (show k ≤ src.length by rw [hn, Nat.mul_succ]; omega)
    have hback {dst : List (BitVec w)} {pu8Data : List Byte} (hlen : (g ++ rest).length = k * dst.length)
        (hpu8 : pu8Data.length = (g ++ rest).length) :
        ofCharFirst k get (g ++ rest) (g ++ rest).length dst dst.length =
            some (0, List.replicate (n + 1) (get g)) ∧
          toChar k set (List.replicate (n + 1) (get g)) (List.replicate (n + 1) (get g)).length pu8Data
            pu8Data.length = some (0, (List.replicate (n + 1) g).flatten) := by
      have hdst : dst.length = n + 1 := Nat.eq_of_mul_eq_mul_left hc.pos (hlen.symm.trans hn)
      have hrep : (List.replicate (n + 1) (get g)).flatMap set = (List.replicate (n + 1) g).flatten := by
        rw [← List.map_replicate]
        exact hc.flatMap_map_get fun g' hg' => (List.eq_of_mem_replicate hg').symm ▸ hg
      refine ⟨hdst ▸ ofCharFirst_eq hc.pos get hg hlen, ?_⟩
      rw [← hrep]
      refine toChar_eq hc.length_set ?_ ?_
      · rw [hpu8, hn, List.length_replicate]
      · rw [List.length_replicate, ← hn]
        exact hlt
    constructor
    · intro h
      have hlen : (g ++ rest).length = k * (List.replicate (n + 1) (0 : BitVec w)).length := by
        rw [List.length_replicate, hn]
      have hpu8 : (List.replicate (g ++ rest).length (0 : Byte)).length = (g ++ rest).length := List.length_replicate
      obtain ⟨hof, hto⟩ := hback hlen hpu8
      obtain ⟨xs, hof', hto'⟩ := h _ _ hlen hpu8
      obtain ⟨-, rfl⟩ := Prod.mk.inj (Option.some_inj.mp (hof.symm.trans hof'))
      obtain ⟨-, hsame⟩ := Prod.mk.inj (Option.some_inj.mp (hto'.symm.trans hto))
      exact ⟨g, n + 1, hg, hsame⟩
    · rintro ⟨g', m, hg', hsame⟩ dst pu8Data hlen hpu8
      obtain ⟨hof, hto⟩ := hback hlen hpu8
      obtain ⟨rfl, rfl⟩ := eq_of_flatten_replicate hc.pos hg hg' hn hsame
      refine ⟨_, hof, hto.trans ?_⟩
      rw [hsame]

end Cuts

/-! ### The requirement on the conversions -/

/-- A conversion is that of one of the two orders, and without a suffix that of the CPU. -/
theorem exists_endian {γ : Type} (cpu : Cpu) {f : Order → γ} {c : Endian → γ} (hdefault : f .default = c cpu.endian)
    (hle : f .le = c .le) (hbe : f .be = c .be) (o : Order) : ∃ e, f o = c e := by
  cases o with
  | default => exact ⟨cpu.endian, hdefault⟩
  | le => exact ⟨.le, hle⟩
  | be => exact ⟨.be, hbe⟩

theorem conv_short (cpu : Cpu) (o : Order) :
    ∃ e, conv cpu .short o = ⟨toChar 2 (byteSetU16 e), ofChar 2 (byteGet16 e)⟩ :=
  exists_endian cpu rfl rfl rfl o

theorem conv_int (cpu : Cpu) (o : Order) :
    ∃ e, conv cpu .int o = ⟨toChar 4 (byteSetU32 e), ofChar 4 (byteGet32 e)⟩ :=
  exists_endian cpu rfl rfl rfl o

theorem conv_long (cpu : Cpu) (o : Order) :
    ∃ e, conv cpu .long o = ⟨toChar 8 (byteSetU64 e), ofCharFirst 8 (byteGet64 e)⟩ :=
  exists_endian cpu rfl rfl rfl o

theorem conv_float (cpu : Cpu) (o : Order) :
    ∃ e, conv cpu .float o = ⟨toChar 4 (byteSetU32 e), ofChar 4 (byteGet32 e)⟩ :=
  exists_endian cpu rfl rfl rfl o

/-- The octets of a `float`, and their order. -/
theorem byteSetFloat_eq_iff {f : BitVec 32} {p0 p1 p2 p3 : Byte} :
    split 8 [24, 16, 8, 0] f = [p0, p1, p2, p3] ↔ f = u8ToU32 p0 p1 p2 p3 := by
  have hc := cuts32 .be
  constructor
  · intro h
    rw [u8ToU32, ← h]
    exact (hc.get_set f).symm
  · rintro rfl
    exact hc.set_get [p0, p1, p2, p3] rfl

/-- The halves of a `float`. -/
theorem cdab_iff {p0 p1 p2 p3 : Byte} : u8ToU32 p2 p3 p0 p1 = u8ToU32 p0 p1 p2 p3 ↔ p0 = p2 ∧ p1 = p3 := by
  constructor
  · intro h
    have hsplit : [p0, p1, p2, p3] = [p2, p3, p0, p1] :=
      (byteSetFloat_eq_iff.mpr h).symm.trans (byteSetFloat_eq_iff.mpr rfl)
    injection hsplit with h0 hsplit
    injection hsplit with h1 _
    exact ⟨h0, h1⟩
  · rintro ⟨rfl, rfl⟩
    rfl

/-- The octets of the halves. -/
theorem halves_iff {f : BitVec 32} : (f >>> 16).setWidth 16 = f.setWidth 16 ↔
    (f >>> 24).setWidth 8 = (f >>> 8).setWidth 8 ∧ (f >>> 16).setWidth 8 = (f >>> 0).setWidth 8 := by
  constructor
  · intro h
    have hbit : ∀ n < 16, f.getLsbD (16 + n) = f.getLsbD n := by
      intro n hn
      have := congrArg (BitVec.getLsbD · n) h
      simpa [hn] using this
    constructor
    · refine BitVec.eq_of_getLsbD_eq fun n hn => ?_
      have := hbit (8 + n) (by omega)
      simpa [hn, ← Nat.add_assoc] using this
    · refine BitVec.eq_of_getLsbD_eq fun n hn => ?_
      have := hbit n (by omega)
      simpa [hn] using this
  · rintro ⟨h0, h1⟩
    refine BitVec.eq_of_getLsbD_eq fun n hn => ?_
    by_cases hlow : n < 8
    · have := congrArg (BitVec.getLsbD · n) h1
      simpa [hn, hlow] using this
    · have := congrArg (BitVec.getLsbD · (n - 8)) h0
      have hlt : n - 8 < 8 := by omega
      have h24 : 24 + (n - 8) = 16 + n := by omega
      have h8 : 8 + (n - 8) = n := by omega
      simpa [hn, hlt, h24, h8] using this

/-- **A `float` comes back** with the order `cdab` if and only if its halves are the same. -/
theorem cdab_back_iff (f : BitVec 32) :
    (∀ p0 p1 p2 p3, byteSetFloatCdab f = [p0, p1, p2, p3] → byteGetFloatCdab p0 p1 p2 p3 = f) ↔
      (f >>> 16).setWidth 16 = f.setWidth 16 := by
  refine Iff.trans ?_ halves_iff.symm
  have hf : f = u8ToU32 ((f >>> 24).setWidth 8) ((f >>> 16).setWidth 8) ((f >>> 8).setWidth 8)
      ((f >>> 0).setWidth 8) := byteSetFloat_eq_iff.mp rfl
  constructor
  · intro hback
    exact cdab_iff.mp ((hback _ _ _ _ rfl).trans hf)
  · intro hsame p0 p1 p2 p3 hp
    have hparts : [(f >>> 24).setWidth 8, (f >>> 16).setWidth 8, (f >>> 8).setWidth 8, (f >>> 0).setWidth 8] =
        [p0, p1, p2, p3] := hp
    cases hparts
    exact (cdab_iff.mpr hsame).trans hf.symm

/-- **Conversions there and back** give what there was if and only if the 64-bit numbers are all the same, and the
halves of a `float` with the order `cdab`. -/
theorem arrays_back_iff (cpu : Cpu) {i : Input} (h : i.Fits) : Back cpu i ↔ i.Same := by
  cases i with
  | numbers t o src =>
    cases t with
    | short =>
      obtain ⟨e, he⟩ := conv_short cpu o
      rw [Back, he]
      exact iff_of_true ((cuts16 e).numbersBack h) trivial
    | int =>
      obtain ⟨e, he⟩ := conv_int cpu o
      rw [Back, he]
      exact iff_of_true ((cuts32 e).numbersBack h) trivial
    | long =>
      obtain ⟨e, he⟩ := conv_long cpu o
      rw [Back, he]
      exact (cuts64 e).numbersBackFirst_iff h
    | float =>
      obtain ⟨e, he⟩ := conv_float cpu o
      rw [Back, he]
      exact iff_of_true ((cuts32 e).numbersBack h) trivial
  | octets t o src =>
    cases t with
    | short =>
      obtain ⟨e, he⟩ := conv_short cpu o
      rw [Back, he]
      exact iff_of_true ((cuts16 e).octetsBack h.1) trivial
    | int =>
      obtain ⟨e, he⟩ := conv_int cpu o
      rw [Back, he]
      exact iff_of_true ((cuts32 e).octetsBack h.1) trivial
    | long =>
      obtain ⟨e, he⟩ := conv_long cpu o
      rw [Back, he]
      exact (cuts64 e).octetsBackFirst_iff h.1 h.2
    | float =>
      obtain ⟨e, he⟩ := conv_float cpu o
      rw [Back, he]
      exact iff_of_true ((cuts32 e).octetsBack h.1) trivial
  | abcd f =>
    refine iff_of_true (fun p0 p1 p2 p3 hp => ?_) trivial
    exact (byteSetFloat_eq_iff.mp hp).symm
  | abcdOctets p0 p1 p2 p3 => exact iff_of_true (byteSetFloat_eq_iff.mpr rfl) trivial
  | cdab f => exact cdab_back_iff f
  | cdabOctets p0 p1 p2 p3 => exact byteSetFloat_eq_iff.trans cdab_iff

/-- A CPU with the lowest octet first. -/
def x86 : Cpu := ⟨0, 1, .le⟩

theorem arrays_back_iff_two : Back x86 (.numbers .int .default [1, 2]) ↔
    Input.Same (.numbers .int .default [1, 2]) := by
  refine arrays_back_iff x86 ?_
  change 4 * 2 < 2 ^ 31
  omega

/-- Of the 64-bit numbers 1 and 2 the first comes back twice. -/
theorem not_back_long : ¬ Back x86 (.numbers .long .le [1, 2]) := by
  have hlt : 8 * ([1, 2] : List (BitVec 64)).length < 2 ^ 31 := by
    rw [List.length_cons, List.length_singleton]
    omega
  intro h
  obtain ⟨x, n, hx⟩ := ((cuts64 .le).numbersBackFirst_iff hlt).mp h
  have h1 : 1 = x := List.eq_of_mem_replicate (hx ▸ List.mem_cons_self)
  have h2 : 2 = x := List.eq_of_mem_replicate (hx ▸ List.mem_cons_of_mem _ List.mem_cons_self)
  exact absurd (h1.trans h2.symm) (by decide)

end Wow.Utils.TypeArrays
