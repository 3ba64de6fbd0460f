import Wow.Lib.Block
import Wow.Lib.CNum
import Wow.Lib.Decimal

/-!
# Wow.Utils.Bcd — `String2BCD` and `BCD2String`

Two digits share an octet.  An access that leaves an array is `none`; no pointer is null.

* `stringLoop_digits`, `stringLoop_fails`: `String2BCD` packs the digits, or fails at the first character that is none.
* `bcdLoop_packed`: `BCD2String` writes two digits for each octet, as the low half of the last one is a 0 for an odd
  number of digits, and not the 15 at which the loop ends.
* `bcd_back_iff`: the digits come back where they are even in number.
-/

namespace Wow.Utils.Bcd

open Block
open Decimal (isDigit)

def PARAM_INPUT_SIZE_IS_SMALL : Int := 106

/-! ### The functions -/

/-- The loop of `String2BCD`, in front of character `2 * i`. -/
def stringLoop (pu8StrData : List UInt8) (nStrLen : Nat) : Nat → Nat → List UInt8 → Option (Int × List UInt8)
  | 0, _, pu8BcdData => some (0, pu8BcdData)
  | passes + 1, i, pu8BcdData => do
    let hi ← pu8StrData[2 * i]?
    if isDigit hi = false then
      return (-1, pu8BcdData)
    let pu8BcdData ← store pu8BcdData i [(hi - 48) <<< 4]
    if 2 * i + 1 ≥ nStrLen then
      return (0, pu8BcdData)
    let lo ← pu8StrData[2 * i + 1]?
    if isDigit lo = false then
      return (-1, pu8BcdData)
    let pu8BcdData ← store pu8BcdData i [(hi - 48) <<< 4 + (lo - 48)]
    stringLoop pu8StrData nStrLen passes (i + 1) pu8BcdData

/-- `String2BCD`. -/
def string2Bcd (pu8StrData : List UInt8) (nStrLen : Int) (pu8BcdData : List UInt8) (nBcdLen : Int) :
    Option (Int × List UInt8) :=
  if asInt (2 * nBcdLen) ≥ nStrLen then
    stringLoop pu8StrData nStrLen.toNat ((nStrLen.toNat + 1) / 2) 0 pu8BcdData
  else some (-PARAM_INPUT_SIZE_IS_SMALL, pu8BcdData)

/-- The loop of `BCD2String`, in front of octet `i`. -/
def bcdLoop (pu8BcdData : List UInt8) : Nat → Nat → List UInt8 → Option (Int × List UInt8)
  | 0, _, pu8StrData => some (0, pu8StrData)
  | passes + 1, i, pu8StrData => do
    let b ← pu8BcdData[i]?
    let cBCD := b >>> 4
    if cBCD = 0x0f then
      return (0, pu8StrData)
    let pu8StrData ← store pu8StrData (2 * i) [cBCD + 48]
    if isDigit (cBCD + 48) = false then
      return (-1, pu8StrData)
    let cBCD := b &&& 0x0f
    if cBCD = 0x0f then
      return (0, pu8StrData)
    let pu8StrData ← store pu8StrData (2 * i + 1) [cBCD + 48]
    if isDigit (cBCD + 48) = false then
      return (-1, pu8StrData)
    let pu8StrData ← store pu8StrData (2 * i + 1) [cBCD + 48]
    bcdLoop pu8BcdData passes (i + 1) pu8StrData

/-- `BCD2String`. -/
def bcd2String (pu8BcdData : List UInt8) (nBcdLen : Int) (pu8StrData : List UInt8) (nStrLen : Int) :
    Option (Int × List UInt8) :=
  if asInt (2 * nBcdLen) ≤ nStrLen then bcdLoop pu8BcdData nBcdLen.toNat 0 pu8StrData
  else some (-PARAM_INPUT_SIZE_IS_SMALL, pu8StrData)

/-! ### The requirement -/

/-- The octets for so many digits. -/
def bcdLen (n : Nat) : Nat := (n + 1) / 2

/-- **The requirement**: digits are converted, and come back without a further one, whatever the arrays held before; a
string with another character is refused. -/
def Back (str : List UInt8) : Prop :=
  ∀ bcd : List UInt8, 2 * bcd.length < 2 ^ 31 →
    ((∀ c ∈ str, isDigit c = true) → bcdLen str.length ≤ bcd.length →
      ∃ bcd', string2Bcd str str.length bcd bcd.length = some (0, bcd') ∧
        ∀ out : List UInt8, 2 * bcdLen str.length ≤ out.length → out.length < 2 ^ 31 →
          bcd2String (bcd'.take (bcdLen str.length)) (bcdLen str.length) out out.length =
            some (0, str ++ out.drop str.length)) ∧
    ((∃ c ∈ str, isDigit c = false) →
      ∃ ret bcd', string2Bcd str str.length bcd bcd.length = some (ret, bcd') ∧ ret < 0)

/-! ### The digits and the octets -/

/-- The octets of some digits. -/
def packed : List UInt8 → List UInt8
  | [] => []
  | [hi] => [(hi - 48) <<< 4]
  | hi :: lo :: str => ((hi - 48) <<< 4 + (lo - 48)) :: packed str

/-- What the octets give. -/
def unpacked : List UInt8 → List UInt8
  | [] => []
  | [hi] => [hi, 48]
  | hi :: lo :: str => hi :: lo :: unpacked str

theorem length_packed (str : List UInt8) : (packed str).length = bcdLen str.length := by
  induction str using packed.induct with
  | case1 => rfl
  | case2 hi =>
    rw [packed, bcdLen, List.length_singleton, List.length_singleton]
  | case3 hi lo str ih =>
    rw [packed, List.length_cons, ih, bcdLen, bcdLen, List.length_cons, List.length_cons]
    omega

theorem length_unpacked (str : List UInt8) : (unpacked str).length = 2 * bcdLen str.length := by
  induction str using packed.induct with
  | case1 => rfl
  | case2 hi =>
    rw [unpacked, bcdLen, List.length_singleton]
    rfl
  | case3 hi lo str ih =>
    rw [unpacked, List.length_cons, List.length_cons, ih, bcdLen, bcdLen, List.length_cons, List.length_cons]
    omega

/-- **A further digit** is written for an odd number of them. -/
theorem unpacked_eq (str : List UInt8) : unpacked str = if str.length % 2 = 0 then str else str ++ [48] := by
  induction str using packed.induct with
  | case1 => rfl
  | case2 hi => rfl
  | case3 hi lo str ih =>
    rw [unpacked, ih, List.length_cons, List.length_cons]
    have hparity : (str.length + 1 + 1) % 2 = 0 ↔ str.length % 2 = 0 := by omega
    by_cases heven : str.length % 2 = 0
    · rw [if_pos heven, if_pos (hparity.mpr heven)]
    · rw [if_neg heven, if_neg (fun h => heven (hparity.mp h))]
      rfl

/-! ### `String2BCD` -/

section Loops

variable {done out : List UInt8} {i : Nat}

/-- A pass over the last character. -/
theorem stringLoop_last {hi : UInt8} (hdone : done.length = 2 * i) (hout : out.length = i) (hhi : isDigit hi = true)
    (o : UInt8) (old : List UInt8) : stringLoop (done ++ [hi]) (done ++ [hi]).length 1 i (out ++ o :: old) =
      some ((0 : Int), out ++ (hi - 48) <<< 4 :: old) := by
  have hend : 2 * i + 1 ≥ (done ++ [hi]).length := by
    rw [List.length_append, hdone]
    exact Nat.le_refl _
  rw [stringLoop, getElem?_next hdone, Option.bind_eq_bind, Option.bind_some, hhi, if_neg Bool.noConfusion,
    store_next hout, Option.bind_eq_bind, Option.bind_some, if_pos hend]
  rfl

/-- The second character of a pass is in the string. -/
theorem second_inside (hdone : done.length = 2 * i) (hi lo : UInt8) (rest : List UInt8) :
    ¬ 2 * i + 1 ≥ (done ++ hi :: lo :: rest).length ∧ (done ++ hi :: lo :: rest)[2 * i + 1]? = some lo := by
  constructor
  · rw [List.length_append, List.length_cons, List.length_cons, hdone]
    omega
  · rw [List.append_cons]
    exact getElem?_next (by rw [List.length_append, hdone]; rfl) lo rest

/-- A pass over two characters. -/
theorem stringLoop_two {hi lo : UInt8} (hdone : done.length = 2 * i) (hout : out.length = i) (hhi : isDigit hi = true)
    (hlo : isDigit lo = true) (rest : List UInt8) (passes : Nat) (o : UInt8) (old : List UInt8) :
    stringLoop (done ++ hi :: lo :: rest) (done ++ hi :: lo :: rest).length (passes + 1) i (out ++ o :: old) =
      stringLoop (done ++ hi :: lo :: rest) (done ++ hi :: lo :: rest).length passes (i + 1)
        (out ++ ((hi - 48) <<< 4 + (lo - 48)) :: old) := by
  obtain ⟨hmore, hsecond⟩ := second_inside hdone hi lo rest
  rw [stringLoop, getElem?_next hdone, Option.bind_eq_bind, Option.bind_some, hhi, if_neg Bool.noConfusion,
    store_next hout, Option.bind_eq_bind, Option.bind_some, if_neg hmore, hsecond, Option.bind_some, hlo,
    if_neg Bool.noConfusion, store_next hout, Option.bind_some]

/-- A pass that meets another character. -/
theorem stringLoop_other {c : UInt8} (hdone : done.length = 2 * i) (hc : isDigit c = false) (rest : List UInt8)
    (n passes : Nat) (bcd : List UInt8) : stringLoop (done ++ c :: rest) n (passes + 1) i bcd = some (-1, bcd) := by
  rw [stringLoop, getElem?_next hdone, Option.bind_eq_bind, Option.bind_some, if_pos hc]
  rfl

theorem stringLoop_second {hi lo : UInt8} (hdone : done.length = 2 * i) (hout : out.length = i)
    (hhi : isDigit hi = true) (hlo : isDigit lo = false) (rest : List UInt8) (passes : Nat) (o : UInt8)
    (old : List UInt8) : ∃ bcd, stringLoop (done ++ hi :: lo :: rest) (done ++ hi :: lo :: rest).length (passes + 1) i
      (out ++ o :: old) = some (-1, bcd) := by
  obtain ⟨hmore, hsecond⟩ := second_inside hdone hi lo rest
  rw [stringLoop, getElem?_next hdone, Option.bind_eq_bind, Option.bind_some, hhi, if_neg Bool.noConfusion,
    store_next hout, Option.bind_eq_bind, Option.bind_some, if_neg hmore, hsecond, Option.bind_some, if_pos hlo]
  exact ⟨_, rfl⟩

end Loops

theorem bcdLen_cons_cons (hi lo : UInt8) (str : List UInt8) :
    bcdLen (hi :: lo :: str).length = bcdLen str.length + 1 := by
  rw [bcdLen, bcdLen, List.length_cons, List.length_cons]
  omega

theorem bcdLen_singleton (c : UInt8) : bcdLen [c].length = 1 := by
  rw [bcdLen, List.length_singleton]

theorem length_snoc (out : List UInt8) (b : UInt8) : (out ++ [b]).length = out.length + 1 := List.length_append

theorem length_done {done out : List UInt8} (h : done.length = 2 * out.length) (hi lo b : UInt8) :
    (done ++ [hi, lo]).length = 2 * (out ++ [b]).length := by
  rw [length_snoc, List.length_append, h, Nat.mul_succ]
  rfl

/-- **`String2BCD` packs digits**, and leaves what is behind them. -/
theorem stringLoop_digits {str : List UInt8} (hdigits : ∀ c ∈ str, isDigit c = true) {done out old : List UInt8}
    (hdone : done.length = 2 * out.length) (hold : bcdLen str.length ≤ old.length) :
    stringLoop (done ++ str) (done ++ str).length (bcdLen str.length) out.length (out ++ old) =
      some ((0 : Int), out ++ packed str ++ old.drop (bcdLen str.length)) := by
  induction str using packed.induct generalizing done out old with
  | case1 =>
    rw [packed, List.append_nil out]
    rfl
  | case2 hi =>
    rw [bcdLen_singleton] at hold ⊢
    obtain ⟨o, old, rfl, -⟩ := exists_room hold
    rw [stringLoop_last hdone rfl (hdigits hi List.mem_cons_self), packed, List.append_assoc]
    rfl
  | case3 hi lo str ih =>
    rw [bcdLen_cons_cons] at hold ⊢
    obtain ⟨o, old, rfl, hold'⟩ := exists_room hold
    obtain ⟨hhi, hdigits⟩ := List.forall_mem_cons.mp hdigits
    obtain ⟨hlo, hrest⟩ := List.forall_mem_cons.mp hdigits
    have hloop := ih hrest (length_done hdone hi lo ((hi - 48) <<< 4 + (lo - 48))) hold'
    rw [length_snoc, List.append_assoc done, List.append_assoc out, List.append_assoc out,
      List.append_assoc out] at hloop
    rw [stringLoop_two hdone rfl hhi hlo, packed, List.append_assoc]
    exact hloop

/-- **`String2BCD` fails** at a character that is no digit. -/
theorem stringLoop_fails {str : List UInt8} (hother : ∃ c ∈ str, isDigit c = false) {done out old : List UInt8}
    (hdone : done.length = 2 * out.length) (hold : bcdLen str.length ≤ old.length) :
    ∃ bcd, stringLoop (done ++ str) (done ++ str).length (bcdLen str.length) out.length (out ++ old) =
      some (-1, bcd) := by
  induction str using packed.induct generalizing done out old with
  | case1 =>
    obtain ⟨c, hc, -⟩ := hother
    exact absurd hc List.not_mem_nil
  | case2 hi =>
    obtain ⟨c, hc, hcfalse⟩ := hother
    rw [List.mem_singleton.mp hc] at hcfalse
    rw [bcdLen_singleton]
    exact ⟨_, stringLoop_other hdone hcfalse [] _ 0 _⟩
  | case3 hi lo str ih =>
    rw [bcdLen_cons_cons] at hold ⊢
    obtain ⟨o, old, rfl, hold'⟩ := exists_room hold
    by_cases hhi : isDigit hi = true
    · by_cases hlo : isDigit lo = true
      · have hrest : ∃ c ∈ str, isDigit c = false := by
          obtain ⟨c, hc, hcfalse⟩ := hother
          have hne : isDigit c ≠ true := ne_true_of_eq_false hcfalse
          rcases List.mem_cons.mp hc with rfl | hc
          · exact absurd hhi hne
          · rcases List.mem_cons.mp hc with rfl | hc
            · exact absurd hlo hne
            · exact ⟨c, hc, hcfalse⟩
        have hloop := ih hrest (length_done hdone hi lo ((hi - 48) <<< 4 + (lo - 48))) hold'
        rw [length_snoc, List.append_assoc done, List.append_assoc out] at hloop
        rw [stringLoop_two hdone rfl hhi hlo]
        exact hloop
      · exact stringLoop_second hdone rfl hhi (Bool.eq_false_of_not_eq_true hlo) _ _ _ _
    · exact ⟨_, stringLoop_other hdone (Bool.eq_false_of_not_eq_true hhi) _ _ _ _⟩

/-! ### `BCD2String` -/

theorem exists_digit {c : UInt8} (h : isDigit c = true) : ∃ k, k < 10 ∧ c = UInt8.ofNat (48 + k) := by
  have hrange : 48 ≤ c ∧ c ≤ 57 := of_decide_eq_true h
  have hlow : 48 ≤ c.toNat := UInt8.le_iff_toNat_le.mp hrange.1
  have hhigh : c.toNat ≤ 57 := UInt8.le_iff_toNat_le.mp hrange.2
  refine ⟨c.toNat - 48, by omega, ?_⟩
  rw [Nat.add_sub_cancel' hlow, UInt8.ofNat_toNat]

/-- The octet gives the two digits. -/
structure Gives (b hi lo : UInt8) : Prop where
  high : b >>> 4 + 48 = hi
  low : (b &&& 0x0f) + 48 = lo
  high_ne : b >>> 4 ≠ 0x0f
  low_ne : (b &&& 0x0f) ≠ 0x0f

/-- **Two digits** are what their octet gives. -/
theorem gives_two {hi lo : UInt8} (hhi : isDigit hi = true) (hlo : isDigit lo = true) :
    Gives ((hi - 48) <<< 4 + (lo - 48)) hi lo := by
  have hall : ∀ k < 10, ∀ j < 10, let b := (UInt8.ofNat (48 + k) - 48) <<< 4 + (UInt8.ofNat (48 + j) - 48)
      b >>> 4 + 48 = UInt8.ofNat (48 + k) ∧ (b &&& 0x0f) + 48 = UInt8.ofNat (48 + j) ∧ b >>> 4 ≠ 0x0f ∧
        (b &&& 0x0f) ≠ 0x0f := by decide
  obtain ⟨k, hk, rfl⟩ := exists_digit hhi
  obtain ⟨j, hj, rfl⟩ := exists_digit hlo
  obtain ⟨hhigh, hlow, hhighne, hlowne⟩ := hall k hk j hj
  exact ⟨hhigh, hlow, hhighne, hlowne⟩

/-- **A last digit alone** gives a 0 behind it. -/
theorem gives_last {hi : UInt8} (hhi : isDigit hi = true) : Gives ((hi - 48) <<< 4) hi 48 := by
  have hgives := gives_two hhi (show isDigit 48 = true by decide)
  rwa [UInt8.sub_self, UInt8.add_zero] at hgives

section Loops

variable {done out : List UInt8} {i : Nat}

/-- A pass over an octet. -/
theorem bcdLoop_pass {b hi lo : UInt8} (hgives : Gives b hi lo) (hhi : isDigit hi = true) (hlo : isDigit lo = true)
    (hdone : done.length = i) (hout : out.length = 2 * i) (rest : List UInt8) (passes : Nat) (o o' : UInt8)
    (old : List UInt8) : bcdLoop (done ++ b :: rest) (passes + 1) i (out ++ o :: o' :: old) =
      bcdLoop (done ++ b :: rest) passes (i + 1) (out ++ hi :: lo :: old) := by
  have hsnoc : (out ++ [hi]).length = 2 * i + 1 := by rw [length_snoc, hout]
  rw [bcdLoop, getElem?_next hdone, Option.bind_eq_bind, Option.bind_some, if_neg hgives.high_ne, hgives.high,
    store_next hout, Option.bind_eq_bind, Option.bind_some, hhi, if_neg Bool.noConfusion, if_neg hgives.low_ne,
    hgives.low, List.append_cons out hi, store_next hsnoc, Option.bind_some, hlo, if_neg Bool.noConfusion,
    store_next hsnoc, Option.bind_some, ← List.append_cons out hi]

end Loops

/-- **`BCD2String` on packed digits** gives the digits, two for each octet. -/
theorem bcdLoop_packed {str : List UInt8} (hdigits : ∀ c ∈ str, isDigit c = true) {done out old : List UInt8}
    (hout : out.length = 2 * done.length) (hold : 2 * bcdLen str.length ≤ old.length) :
    bcdLoop (done ++ packed str) (bcdLen str.length) done.length (out ++ old) =
      some ((0 : Int), out ++ unpacked str ++ old.drop (2 * bcdLen str.length)) := by
  induction str using packed.induct generalizing done out old with
  | case1 =>
    rw [unpacked, List.append_nil out]
    rfl
  | case2 hi =>
    have hhi := hdigits hi List.mem_cons_self
    rw [bcdLen_singleton] at hold ⊢
    obtain ⟨o, old, rfl, hroom⟩ := exists_room hold
    obtain ⟨o', old, rfl, -⟩ := exists_room hroom
    rw [packed, bcdLoop_pass (gives_last hhi) hhi rfl rfl hout, unpacked, List.append_assoc]
    rfl
  | case3 hi lo str ih =>
    obtain ⟨hhi, hdigits⟩ := List.forall_mem_cons.mp hdigits
    obtain ⟨hlo, hrest⟩ := List.forall_mem_cons.mp hdigits
    rw [bcdLen_cons_cons] at hold ⊢
    obtain ⟨o, old, rfl, hroom⟩ := exists_room hold
    obtain ⟨o', old, rfl, hold'⟩ := exists_room hroom
    have hloop := ih hrest (length_done hout hi lo ((hi - 48) <<< 4 + (lo - 48))) hold'
    rw [length_snoc, List.append_assoc done, List.append_assoc out, List.append_assoc out, List.append_assoc out] at hloop
    rw [packed, bcdLoop_pass (gives_two hhi hlo) hhi hlo rfl hout, unpacked, List.append_assoc]
    exact hloop

/-! ### There and back -/

theorem asInt_double {n : Nat} (h : 2 * n < 2 ^ 31) : asInt (2 * (n : Int)) = 2 * n := asInt_of_lt (by omega) (by omega)

theorem double_bcdLen (n : Nat) : n ≤ 2 * bcdLen n ∧ 2 * bcdLen n ≤ n + 1 := by
  rw [bcdLen]
  omega

theorem length_start : ([] : List UInt8).length = 2 * ([] : List UInt8).length := rfl

theorem string2Bcd_eq {str bcd : List UInt8} (hlen : bcdLen str.length ≤ bcd.length) (hint : 2 * bcd.length < 2 ^ 31) :
    string2Bcd str str.length bcd bcd.length = stringLoop str str.length (bcdLen str.length) 0 bcd := by
  have hsize : 2 * (bcd.length : Int) ≥ str.length := by
    have hdouble := (double_bcdLen str.length).1
    omega
  rw [string2Bcd, asInt_double hint, if_pos hsize, Int.toNat_natCast, bcdLen]

theorem string2Bcd_digits {str bcd : List UInt8} (hdigits : ∀ c ∈ str, isDigit c = true)
    (hlen : bcdLen str.length ≤ bcd.length) (hint : 2 * bcd.length < 2 ^ 31) :
    string2Bcd str str.length bcd bcd.length = some (0, packed str ++ bcd.drop (bcdLen str.length)) := by
  rw [string2Bcd_eq hlen hint]
  exact stringLoop_digits hdigits length_start hlen

/-- **A character that is no digit** is refused. -/
theorem string2Bcd_fails {str bcd : List UInt8} (hother : ∃ c ∈ str, isDigit c = false)
    (hint : 2 * bcd.length < 2 ^ 31) : ∃ ret bcd', string2Bcd str str.length bcd bcd.length = some (ret, bcd') ∧
    ret < 0 := by
  by_cases hlen : bcdLen str.length ≤ bcd.length
  · obtain ⟨bcd', hloop⟩ := stringLoop_fails hother length_start hlen
    exact ⟨-1, bcd', (string2Bcd_eq hlen hint).trans hloop, by decide⟩
  · have hsize : ¬ 2 * (bcd.length : Int) ≥ str.length := by
      have hdouble := (double_bcdLen str.length).2
      omega
    rw [string2Bcd, asInt_double hint, if_neg hsize]
    exact ⟨_, _, rfl, by decide⟩

theorem bcd2String_packed {str out : List UInt8} (hdigits : ∀ c ∈ str, isDigit c = true)
    (hlen : 2 * bcdLen str.length ≤ out.length) (hout : out.length < 2 ^ 31) :
    bcd2String (packed str) (bcdLen str.length) out out.length =
      some (0, unpacked str ++ out.drop (2 * bcdLen str.length)) := by
  rw [bcd2String, asInt_double (by omega), if_pos (by omega), Int.toNat_natCast]
  exact bcdLoop_packed hdigits length_start hlen

theorem take_packed (str old : List UInt8) : (packed str ++ old).take (bcdLen str.length) = packed str :=
  List.take_left' (length_packed str)

/-- **An odd number of digits** comes back with a further one. -/
theorem not_back_odd {str : List UInt8} (hdigits : ∀ c ∈ str, isDigit c = true) (hodd : str.length % 2 ≠ 0)
    (h : str.length + 1 < 2 ^ 31) : ¬ Back str := by
  intro hback
  have hlen : 2 * bcdLen str.length = str.length + 1 := by
    have hdouble := double_bcdLen str.length
    omega
  have hbcd : (List.replicate (bcdLen str.length) (0 : UInt8)).length = bcdLen str.length := List.length_replicate
  have hout : (List.replicate (str.length + 1) (0 : UInt8)).length = str.length + 1 := List.length_replicate
  have hint : 2 * (List.replicate (bcdLen str.length) (0 : UInt8)).length < 2 ^ 31 := by rwa [hbcd, hlen]
  obtain ⟨bcd', hto, hfrom⟩ := (hback _ hint).1 hdigits (Nat.le_of_eq hbcd.symm)
  rw [string2Bcd_digits hdigits (Nat.le_of_eq hbcd.symm) hint] at hto
  obtain rfl := congrArg Prod.snd (Option.some.inj hto)
  have hdouble : 2 * bcdLen str.length ≤ (List.replicate (str.length + 1) (0 : UInt8)).length := by rw [hout, hlen]
  have hagain := hfrom _ hdouble (by rwa [hout])
  rw [take_packed, bcd2String_packed hdigits hdouble (by rwa [hout]), unpacked_eq, if_neg hodd, List.append_assoc] at hagain
  have hlast := List.append_cancel_left (congrArg Prod.snd (Option.some.inj hagain))
  rw [hlen, List.drop_replicate, List.drop_replicate, Nat.add_sub_cancel_left, Nat.sub_self] at hlast
  exact absurd (List.head_eq_of_cons_eq hlast) (by decide)

/-- **The digits come back** where they are even in number; for an odd number a digit 0 stands behind them, as the half
that is left is 0 and not the filler at which `BCD2String` ends. -/
theorem bcd_back_iff {str : List UInt8} (h : str.length + 1 < 2 ^ 31) :
    Back str ↔ ((∀ c ∈ str, isDigit c = true) → str.length % 2 = 0) := by
  constructor
  · intro hback hdigits
    by_contra hodd
    exact not_back_odd hdigits hodd h hback
  · intro heven bcd hint
    refine ⟨fun hdigits hlen => ?_, fun hother => string2Bcd_fails hother hint⟩
    refine ⟨_, string2Bcd_digits hdigits hlen hint, fun out hout hint' => ?_⟩
    have hunpacked := unpacked_eq str
    rw [if_pos (heven hdigits)] at hunpacked
    have hexact : 2 * bcdLen str.length = str.length := by
      rw [← length_unpacked, hunpacked]
    rw [take_packed, bcd2String_packed hdigits hout hint', hunpacked, hexact]

theorem bcd_back_iff_two : ([49, 50] : List UInt8).length + 1 < 2 ^ 31 ∧
    (Back [49, 50] ↔ ((∀ c ∈ ([49, 50] : List UInt8), isDigit c = true) → ([49, 50] : List UInt8).length % 2 = 0)) :=
  ⟨by decide, bcd_back_iff (by decide)⟩

/-- **One digit**, the 1, comes back as 10. -/
theorem not_back_one : ¬ Back [49] := not_back_odd (List.forall_mem_singleton.mpr rfl) (by decide) (by decide)

end Wow.Utils.Bcd
