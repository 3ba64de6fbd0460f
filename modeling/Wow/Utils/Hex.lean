import Wow.Lib.Block
import Wow.Lib.CNum
import Wow.Lib.Mem

/-!
# Wow.Utils.Hex — `ByteArray2HexStr` and `HexStr2ByteArray`

Two digits for an octet.  An access that leaves an array is `none`; no pointer is null.  The places in the text are
computed as an `int`.

* `encodeLoop_run`, `decodeLoop_run`: what the loops write.
* `decodeLoop_other`: a pair with another character is refused.
* `hex_right_iff`: the arrays and the strings that come back are those whose places are below 2 ^ 31.
-/

namespace Wow.Utils.Hex

open Block

def PARAM_INPUT_DATA_ERROR : Int := 103
def PARAM_INPUT_ARG_INVALID : Int := 104

/-! ### The functions -/

def hexval : List UInt8 := [48, 49, 50, 51, 52, 53, 54, 55, 56, 57, 97, 98, 99, 100, 101, 102]

/-- The cell with this number: there is none in front of the array. -/
def place (n : Int) : Option Nat := if 0 ≤ n then some n.toNat else none

/-- The loop of `ByteArray2HexStr`, in front of octet `i`. -/
def encodeLoop (pu8Idata : List UInt8) : Nat → Nat → List UInt8 → Option (List UInt8)
  | 0, _, pu8Odata => some pu8Odata
  | passes + 1, i, pu8Odata => do
    let b ← pu8Idata[i]?
    let hi ← hexval[((b >>> 4) &&& 0xF).toNat]?
    let k ← place (asInt (2 * i))
    let pu8Odata ← store pu8Odata k [hi]
    let lo ← hexval[(b &&& 0x0F).toNat]?
    let k ← place (asInt (asInt (2 * i) + 1))
    let pu8Odata ← store pu8Odata k [lo]
    encodeLoop pu8Idata passes (i + 1) pu8Odata

/-- `ByteArray2HexStr`. -/
def byteArray2HexStr (pu8Idata : List UInt8) (snIlen : Nat) (pu8Odata : List UInt8) (snOlen : Nat) :
    Option (Int × List UInt8) :=
  if snOlen ≥ asSize (2 * snIlen) then (encodeLoop pu8Idata snIlen 0 pu8Odata).map (0, ·)
  else some (-PARAM_INPUT_ARG_INVALID, pu8Odata)

/-- The number that a `char` stands for. -/
def nibble (ch : Int) : Option Int :=
  if ch ≥ 48 ∧ ch ≤ 57 then some (ch - 48)
  else if ch ≥ 65 ∧ ch ≤ 70 then some (ch - 65 + 10)
  else if ch ≥ 97 ∧ ch ≤ 102 then some (ch - 97 + 10)
  else none

/-- The loop of `HexStr2ByteArray`, in front of octet `i`. -/
def decodeLoop (pu8Idata : List UInt8) : Nat → Nat → List UInt8 → Option (Int × List UInt8)
  | 0, _, pu8Odata => some (0, pu8Odata)
  | passes + 1, i, pu8Odata => do
    let k ← place (asInt (2 * i))
    let ch ← pu8Idata[k]?
    match nibble ch.toInt8.toInt with
    | none => return (-PARAM_INPUT_DATA_ERROR, pu8Odata)
    | some hi =>
      let pu8Odata ← store pu8Odata i [UInt8.ofInt hi]
      let k ← place (asInt (asInt (2 * i) + 1))
      let ch ← pu8Idata[k]?
      match nibble ch.toInt8.toInt with
      | none => return (-PARAM_INPUT_DATA_ERROR, pu8Odata)
      | some lo =>
        let b ← pu8Odata[i]?
        let pu8Odata ← store pu8Odata i [UInt8.ofInt ((b.toNat <<< 4 : Nat) + lo)]
        decodeLoop pu8Idata passes (i + 1) pu8Odata

/-- `HexStr2ByteArray`. -/
def hexStr2ByteArray (pu8Idata : List UInt8) (snIlen : Nat) (pu8Odata : List UInt8) (snOlen : Nat) :
    Option (Int × List UInt8) :=
  if snOlen ≥ snIlen / 2 then decodeLoop pu8Idata (snIlen / 2) 0 pu8Odata
  else some (-PARAM_INPUT_ARG_INVALID, pu8Odata)

/-! ### The requirement -/

/-- What is converted: an array, or a text of even length. -/
inductive Input where
  | array (xs : List UInt8)
  | text (str : List UInt8) (even : 2 ∣ str.length)

def isHex (c : UInt8) : Bool := (48 ≤ c && c ≤ 57) || (65 ≤ c && c ≤ 70) || (97 ≤ c && c ≤ 102)

def lower (c : UInt8) : UInt8 := if 65 ≤ c ∧ c ≤ 90 then c + 32 else c

/-- **The requirement**: an array comes back from its text; a text is accepted where its characters are hexadecimal
digits, and comes back from its octets with small letters. -/
def Right : Input → Prop
  | .array xs => ∀ out : List UInt8, 2 * xs.length ≤ out.length →
      ∃ str : List UInt8, str.length = 2 * xs.length ∧
        byteArray2HexStr xs xs.length out out.length = some (0, str ++ out.drop (2 * xs.length)) ∧
        ∀ back : List UInt8, xs.length ≤ back.length →
          hexStr2ByteArray str str.length back back.length = some (0, xs ++ back.drop xs.length)
  | .text str _ => ∀ out : List UInt8, str.length / 2 ≤ out.length →
      ∃ ret out', hexStr2ByteArray str str.length out out.length = some (ret, out') ∧
        (ret = 0 ↔ ∀ c ∈ str, isHex c = true) ∧
        (ret = 0 → ∀ back : List UInt8, str.length ≤ back.length →
          byteArray2HexStr (out'.take (str.length / 2)) (str.length / 2) back back.length =
            some (0, str.map lower ++ back.drop str.length))

/-- The loop does not come to a place from 2 ^ 31 on. -/
def Short : Input → Prop
  | .array xs => xs.length ≤ 2 ^ 30
  | .text str _ => str.length ≤ 2 ^ 31 ∨ ∃ c ∈ str.take (2 ^ 31), isHex c = false

/-! ### Digits -/

/-- The number that a digit stands for. -/
def value (c : UInt8) : Nat :=
  if c ≤ 57 then c.toNat - 48 else if c ≤ 70 then c.toNat - 55 else c.toNat - 87

/-- The small digit of a number. -/
def digit (n : Nat) : UInt8 := hexval.getD n 0

/-- The octet of two numbers. -/
def joined (hi lo : Nat) : UInt8 := UInt8.ofNat (16 * hi + lo)

/-- The 256 characters. -/
theorem character_eq (c : UInt8) : nibble c.toInt8.toInt = (if isHex c then some (value c : Int) else none) ∧
    (isHex c = true → value c < 16 ∧ digit (value c) = lower c) := by
  revert c
  exact forall_uint8.mpr (by decide +kernel)

theorem nibble_eq (c : UInt8) : nibble c.toInt8.toInt = if isHex c then some (value c : Int) else none :=
  (character_eq c).1

theorem value_lt {c : UInt8} (h : isHex c = true) : value c < 16 := ((character_eq c).2 h).1

theorem digit_value {c : UInt8} (h : isHex c = true) : digit (value c) = lower c := ((character_eq c).2 h).2

theorem isHex_digit : ∀ n < 16, isHex (digit n) = true := by decide

theorem value_digit : ∀ n < 16, value (digit n) = n := by decide

/-- The two halves of an octet. -/
theorem halves_lt (b : UInt8) : ((b >>> 4) &&& 0xF).toNat < 16 ∧ (b &&& 0x0F).toNat < 16 := by
  rw [UInt8.toNat_and, UInt8.toNat_and]
  exact ⟨Nat.lt_succ_of_le Nat.and_le_right, Nat.lt_succ_of_le Nat.and_le_right⟩

theorem joined_halves (b : UInt8) : joined ((b >>> 4) &&& 0xF).toNat (b &&& 0x0F).toNat = b := by
  revert b
  exact forall_uint8.mpr (by decide +kernel)

/-- The octet of two halves, and the one that the second store leaves. -/
theorem halves_joined : ∀ hi < 16, ∀ lo < 16,
    (((joined hi lo >>> 4) &&& 0xF).toNat = hi ∧ (joined hi lo &&& 0x0F).toNat = lo) ∧
      UInt8.ofInt (((UInt8.ofInt (hi : Nat)).toNat <<< 4 : Nat) + (lo : Nat)) = joined hi lo := by decide +kernel

theorem hexval_eq {n : Nat} (h : n < 16) : hexval[n]? = some (digit n) := by
  rw [digit, List.getD_eq_getElem?_getD, List.getElem?_eq_getElem (show n < hexval.length from h)]
  rfl

/-- The two digits of an octet. -/
def digits (b : UInt8) : List UInt8 := [digit ((b >>> 4) &&& 0xF).toNat, digit (b &&& 0x0F).toNat]

/-- The digits of an array. -/
def text (xs : List UInt8) : List UInt8 := xs.flatMap digits

/-- The octets of a text. -/
def octets : List UInt8 → List UInt8
  | hi :: lo :: str => joined (value hi) (value lo) :: octets str
  | _ => []

theorem length_text (xs : List UInt8) : (text xs).length = 2 * xs.length := by
  induction xs with
  | nil => rfl
  | cons b xs ih =>
    have hcons : text (b :: xs) = digits b ++ text xs := List.flatMap_cons
    rw [hcons, List.length_append, ih, List.length_cons, Nat.mul_succ, Nat.add_comm]
    rfl

theorem length_octets (str : List UInt8) : (octets str).length = str.length / 2 := by
  induction str using octets.induct with
  | case1 hi lo str ih =>
    rw [octets, List.length_cons, ih, List.length_cons, List.length_cons]
    omega
  | case2 str h =>
    rw [octets]
    · rcases str with _ | ⟨c, _ | ⟨d, str⟩⟩
      · rfl
      · rw [List.length_singleton, List.length_nil]
      · exact absurd rfl (h c d str)
    · exact h

theorem isHex_of_mem_text {xs : List UInt8} {c : UInt8} (h : c ∈ text xs) : isHex c = true := by
  obtain ⟨b, -, hc⟩ := List.mem_flatMap.mp h
  rcases List.mem_cons.mp hc with rfl | hc
  · exact isHex_digit _ (halves_lt b).1
  · rw [List.mem_singleton.mp hc]
    exact isHex_digit _ (halves_lt b).2

/-- **An array is the octets of its text.** -/
theorem octets_text (xs : List UInt8) : octets (text xs) = xs := by
  induction xs with
  | nil => rfl
  | cons b xs ih =>
    have hcons : text (b :: xs) = digits b ++ text xs := List.flatMap_cons
    obtain ⟨hhi, hlo⟩ := halves_lt b
    rw [hcons, digits, List.cons_append, List.cons_append, List.nil_append, octets, ih, value_digit _ hhi,
      value_digit _ hlo, joined_halves]

/-- **A text is that of its octets**, with small letters. -/
theorem text_octets {str : List UInt8} (heven : 2 ∣ str.length) (h : ∀ c ∈ str, isHex c = true) :
    text (octets str) = str.map lower := by
  induction str using octets.induct with
  | case1 hi lo str ih =>
    obtain ⟨hhi, h⟩ := List.forall_mem_cons.mp h
    obtain ⟨hlo, h⟩ := List.forall_mem_cons.mp h
    obtain ⟨⟨hhigh, hlow⟩, -⟩ := halves_joined _ (value_lt hhi) _ (value_lt hlo)
    have heven' : 2 ∣ str.length := by
      rw [List.length_cons, List.length_cons] at heven
      omega
    have hcons : text (octets (hi :: lo :: str)) = digits (joined (value hi) (value lo)) ++ text (octets str) :=
      List.flatMap_cons
    rw [hcons, ih heven' h, digits, hhigh, hlow, digit_value hhi, digit_value hlo]
    rfl
  | case2 str hshort =>
    rcases str with _ | ⟨c, _ | ⟨d, str⟩⟩
    · rfl
    · rw [List.length_singleton] at heven
      omega
    · exact absurd rfl (hshort c d str)

/-! ### Passes -/

theorem place_natCast {n : Nat} (h : n < 2 ^ 31) : place (asInt n) = some n := by
  rw [asInt_natCast h, place, if_pos (Int.natCast_nonneg n), Int.toNat_natCast]

/-- The places of a pass. -/
theorem place_first {i : Nat} (h : i < 2 ^ 30) : place (asInt (2 * (i : Int))) = some (2 * i) := by
  have hcast : (2 * (i : Int)) = (2 * i : Nat) := by omega
  rw [hcast, place_natCast (by omega)]

theorem place_second {i : Nat} (h : i < 2 ^ 30) : place (asInt (asInt (2 * (i : Int)) + 1)) = some (2 * i + 1) := by
  have hfirst : asInt (2 * (i : Int)) = 2 * i := asInt_of_lt (by omega) (by omega)
  have hcast : (2 * (i : Int) + 1) = (2 * i + 1 : Nat) := by omega
  rw [hfirst, hcast, place_natCast (by omega)]

/-- **The first place that does not fit** is one in front of the array. -/
theorem place_over {i : Nat} (h : i = 2 ^ 30) : place (asInt (2 * (i : Int))) = none := by
  have hneg : asInt (2 * (i : Int)) = 2 * i - 2 ^ 32 := asInt_of_ge (by omega) (by omega)
  rw [hneg, place, if_neg (by omega)]

section Passes

variable {done out : List UInt8} {i : Nat}

/-- A pass over an octet. -/
theorem encodeLoop_pass (hi : i < 2 ^ 30) (hdone : done.length = i) (hout : out.length = 2 * i) (b : UInt8)
    (rest : List UInt8) (passes : Nat) (o o' : UInt8) (old : List UInt8) :
    encodeLoop (done ++ b :: rest) (passes + 1) i (out ++ o :: o' :: old) =
      encodeLoop (done ++ b :: rest) passes (i + 1) (out ++ digits b ++ old) := by
  obtain ⟨hhi, hlo⟩ := halves_lt b
  have hsnoc : (out ++ [digit ((b >>> 4) &&& 0xF).toNat]).length = 2 * i + 1 := by
    rw [List.length_append, hout]
    rfl
  rw [encodeLoop]
  simp only [getElem?_next hdone, Option.bind_eq_bind, Option.bind_some, hexval_eq hhi, place_first hi,
    store_next hout, hexval_eq hlo, place_second hi]
  rw [List.append_cons out, store_next hsnoc, Option.bind_some, digits, List.append_assoc out, List.append_assoc out]
  rfl

/-- A pass over two digits. -/
theorem decodeLoop_pass (hi : i < 2 ^ 30) (hdone : done.length = 2 * i) (hout : out.length = i) {c d : UInt8}
    (hc : isHex c = true) (hd : isHex d = true) (rest : List UInt8) (passes : Nat) (o : UInt8) (old : List UInt8) :
    decodeLoop (done ++ c :: d :: rest) (passes + 1) i (out ++ o :: old) =
      decodeLoop (done ++ c :: d :: rest) passes (i + 1) (out ++ joined (value c) (value d) :: old) := by
  have hsnoc : (done ++ [c]).length = 2 * i + 1 := by
    rw [List.length_append, hdone]
    rfl
  have hsecond : (done ++ c :: d :: rest)[2 * i + 1]? = some d := by
    rw [List.append_cons done]
    exact getElem?_next hsnoc d rest
  have hjoin := (halves_joined _ (value_lt hc) _ (value_lt hd)).2
  rw [decodeLoop, place_first hi, Option.bind_eq_bind, Option.bind_some, getElem?_next hdone, Option.bind_eq_bind,
    Option.bind_some, nibble_eq, if_pos hc]
  simp only [store_next hout, Option.bind_eq_bind, Option.bind_some, place_second hi, hsecond, nibble_eq, if_pos hd,
    getElem?_next hout, hjoin]

/-- **A pair with another character is refused.** -/
theorem decodeLoop_other (hi : i < 2 ^ 30) (hdone : done.length = 2 * i) (hout : out.length = i) {c d : UInt8}
    (hother : ¬ (isHex c = true ∧ isHex d = true)) (rest : List UInt8) (passes : Nat) (o : UInt8) (old : List UInt8) :
    ∃ out', decodeLoop (done ++ c :: d :: rest) (passes + 1) i (out ++ o :: old) =
      some (-PARAM_INPUT_DATA_ERROR, out') := by
  have hsnoc : (done ++ [c]).length = 2 * i + 1 := by
    rw [List.length_append, hdone]
    rfl
  have hsecond : (done ++ c :: d :: rest)[2 * i + 1]? = some d := by
    rw [List.append_cons done]
    exact getElem?_next hsnoc d rest
  rw [decodeLoop, place_first hi, Option.bind_eq_bind, Option.bind_some, getElem?_next hdone, Option.bind_eq_bind,
    Option.bind_some, nibble_eq]
  by_cases hc : isHex c = true
  · have hd : ¬ isHex d = true := fun hd => hother ⟨hc, hd⟩
    rw [if_pos hc]
    simp only [store_next hout, Option.bind_eq_bind, Option.bind_some, place_second hi, hsecond, nibble_eq, if_neg hd]
    exact ⟨_, rfl⟩
  · rw [if_neg hc]
    exact ⟨_, rfl⟩

/-- **The pass that is too far** leaves the array. -/
theorem encodeLoop_over (hi : i = 2 ^ 30) (xs : List UInt8) (passes : Nat) (out : List UInt8) :
    encodeLoop xs (passes + 1) i out = none := by
  rw [encodeLoop, place_over hi]
  cases xs[i]? with
  | none => rfl
  | some b =>
    rw [Option.bind_eq_bind, Option.bind_some, hexval_eq (halves_lt b).1]
    rfl

theorem decodeLoop_over (hi : i = 2 ^ 30) (str : List UInt8) (passes : Nat) (out : List UInt8) :
    decodeLoop str (passes + 1) i out = none := by
  rw [decodeLoop, place_over hi]
  rfl

end Passes

/-! ### Runs -/

/-- **The text of an array** is written. -/
theorem encodeLoop_run {xs : List UInt8} {done out old : List UInt8} (hout : out.length = 2 * done.length)
    (hshort : done.length + xs.length ≤ 2 ^ 30) (hold : 2 * xs.length ≤ old.length) (rest : List UInt8) (passes : Nat) :
    encodeLoop (done ++ xs ++ rest) (xs.length + passes) done.length (out ++ old) =
      encodeLoop (done ++ xs ++ rest) passes (done.length + xs.length)
      (out ++ text xs ++ old.drop (2 * xs.length)) := by
  induction xs generalizing done out old with
  | nil =>
    rw [text, List.flatMap_nil, List.append_nil, List.append_nil, List.length_nil, Nat.zero_add]
    rfl
  | cons b xs ih =>
    rw [List.length_cons] at hshort hold
    obtain ⟨o, old, rfl, hold'⟩ := exists_room (n := 2 * xs.length + 1) (by omega)
    obtain ⟨o', old, rfl, hold''⟩ := exists_room hold'
    have hsnoc : (done ++ [b]).length = done.length + 1 := List.length_append
    have hdigits : (out ++ digits b).length = 2 * (done ++ [b]).length := by
      rw [List.length_append, hout, hsnoc]
      rfl
    have hloop := ih hdigits (by omega) hold''
    have hcons : text (b :: xs) = digits b ++ text xs := List.flatMap_cons
    have hdrop : 2 * (xs.length + 1) = 2 * xs.length + 1 + 1 := by omega
    rw [hsnoc, ← List.append_cons done] at hloop
    rw [List.length_cons, Nat.add_right_comm, List.append_assoc done, List.cons_append,
      encodeLoop_pass (by omega) rfl hout, ← List.cons_append, ← List.append_assoc done, hloop, hcons, hdrop,
      List.drop_succ_cons, List.drop_succ_cons, ← List.append_assoc out, Nat.add_right_comm]
    rfl

/-- **The octets of hexadecimal digits** are written. -/
theorem decodeLoop_run {str : List UInt8} (heven : 2 ∣ str.length) (hhex : ∀ c ∈ str, isHex c = true)
    {done out old : List UInt8} (hdone : done.length = 2 * out.length) (hshort : done.length + str.length ≤ 2 ^ 31)
    (hold : str.length / 2 ≤ old.length) (rest : List UInt8) (passes : Nat) :
    decodeLoop (done ++ str ++ rest) (str.length / 2 + passes) out.length (out ++ old) =
      decodeLoop (done ++ str ++ rest) passes (out.length + str.length / 2)
        (out ++ octets str ++ old.drop (str.length / 2)) := by
  induction str using octets.induct generalizing done out old with
  | case1 c d str ih =>
    have hlen : (c :: d :: str).length = str.length + 2 := rfl
    have hhalf : (str.length + 2) / 2 = str.length / 2 + 1 := by omega
    rw [hlen] at heven hshort
    rw [hlen, hhalf] at hold ⊢
    obtain ⟨hc, hhex⟩ := List.forall_mem_cons.mp hhex
    obtain ⟨hd, hhex⟩ := List.forall_mem_cons.mp hhex
    obtain ⟨o, old, rfl, hold'⟩ := exists_room hold
    have hsnoc : (out ++ [joined (value c) (value d)]).length = out.length + 1 := List.length_append
    have hdone2 : (done ++ [c, d]).length = done.length + 2 := List.length_append
    have hdouble : (done ++ [c, d]).length = 2 * (out ++ [joined (value c) (value d)]).length := by omega
    have hloop := ih (by omega) hhex hdouble (by omega) hold'
    rw [hsnoc] at hloop
    simp only [List.append_assoc, List.cons_append, List.nil_append] at hloop ⊢
    rw [Nat.add_right_comm, decodeLoop_pass (by omega) hdone rfl hc hd, hloop, Nat.add_right_comm]
    rfl
  | case2 str hnil =>
    rcases str with _ | ⟨c, _ | ⟨d, str⟩⟩
    · rw [octets, List.append_nil, List.append_nil, List.length_nil, Nat.zero_div, Nat.zero_add]
      · rfl
      · exact hnil
    · rw [List.length_singleton] at heven
      omega
    · exact absurd rfl (hnil c d str)

/-- The loop from its start. -/
theorem encodeLoop_start {xs out : List UInt8} (hshort : xs.length ≤ 2 ^ 30) (hout : 2 * xs.length ≤ out.length)
    (rest : List UInt8) (passes : Nat) : encodeLoop (xs ++ rest) (xs.length + passes) 0 out =
      encodeLoop (xs ++ rest) passes xs.length (text xs ++ out.drop (2 * xs.length)) := by
  have hshort' : ([] : List UInt8).length + xs.length ≤ 2 ^ 30 := by rwa [List.length_nil, Nat.zero_add]
  have hrun := @encodeLoop_run xs [] [] out rfl hshort' hout rest passes
  rwa [List.nil_append, List.nil_append, List.nil_append, List.length_nil, Nat.zero_add] at hrun

theorem decodeLoop_start {str out : List UInt8} (heven : 2 ∣ str.length) (hhex : ∀ c ∈ str, isHex c = true)
    (hshort : str.length ≤ 2 ^ 31) (hout : str.length / 2 ≤ out.length) (rest : List UInt8) (passes : Nat) :
    decodeLoop (str ++ rest) (str.length / 2 + passes) 0 out =
      decodeLoop (str ++ rest) passes (str.length / 2) (octets str ++ out.drop (str.length / 2)) := by
  have hshort' : ([] : List UInt8).length + str.length ≤ 2 ^ 31 := by rwa [List.length_nil, Nat.zero_add]
  have hrun := @decodeLoop_run str heven hhex [] [] out rfl hshort' hout rest passes
  rwa [List.nil_append, List.nil_append, List.nil_append, List.length_nil, Nat.zero_add] at hrun

/-- A text of even length is hexadecimal, or has a first pair that is not. -/
theorem exists_other {str : List UInt8} (heven : 2 ∣ str.length) (h : ¬ ∀ c ∈ str, isHex c = true) :
    ∃ pre c d rest, str = pre ++ c :: d :: rest ∧ 2 ∣ pre.length ∧ (∀ c ∈ pre, isHex c = true) ∧
      ¬ (isHex c = true ∧ isHex d = true) := by
  induction str using octets.induct with
  | case1 c d str ih =>
    by_cases hpair : isHex c = true ∧ isHex d = true
    · have heven' : 2 ∣ str.length := by
        rw [List.length_cons, List.length_cons] at heven
        omega
      have hrest : ¬ ∀ c ∈ str, isHex c = true := fun hrest =>
        h (List.forall_mem_cons.mpr ⟨hpair.1, List.forall_mem_cons.mpr ⟨hpair.2, hrest⟩⟩)
      obtain ⟨pre, c', d', rest, rfl, hpre, hhex, hother⟩ := ih heven' hrest
      refine ⟨c :: d :: pre, c', d', rest, rfl, ?_, ?_, hother⟩
      · rw [List.length_cons, List.length_cons]
        omega
      · exact List.forall_mem_cons.mpr ⟨hpair.1, List.forall_mem_cons.mpr ⟨hpair.2, hhex⟩⟩
    · exact ⟨[], c, d, str, rfl, ⟨0, rfl⟩, List.forall_mem_nil _, hpair⟩
  | case2 str hnil =>
    rcases str with _ | ⟨c, _ | ⟨d, str⟩⟩
    · exact absurd (List.forall_mem_nil _) h
    · rw [List.length_singleton] at heven
      omega
    · exact absurd rfl (hnil c d str)

/-! ### The functions as a whole -/

theorem capacity {n m : Nat} (h : 2 * n ≤ m) : m ≥ asSize (2 * (n : Int)) := by
  have hle : asSize (2 * (n : Int)) ≤ 2 * n := by
    rw [asSize]
    omega
  exact le_trans hle h

/-- **The text** of an array that is not too long. -/
theorem encode_eq {xs out : List UInt8} (hshort : xs.length ≤ 2 ^ 30) (hout : 2 * xs.length ≤ out.length) :
    byteArray2HexStr xs xs.length out out.length = some ((0 : Int), text xs ++ out.drop (2 * xs.length)) := by
  have hrun := encodeLoop_start hshort hout [] 0
  rw [List.append_nil, Nat.add_zero] at hrun
  rw [byteArray2HexStr, if_pos (capacity hout), hrun]
  rfl

/-- A longer array is not converted. -/
theorem encode_over {xs out : List UInt8} (hlong : 2 ^ 30 < xs.length) (hout : 2 * xs.length ≤ out.length) :
    byteArray2HexStr xs xs.length out out.length = none := by
  obtain ⟨x, y, rfl, hx, hy⟩ := exists_cut hlong.le
  obtain ⟨n, hn⟩ : ∃ n, (x ++ y).length = x.length + (n + 1) :=
    ⟨(x ++ y).length - x.length - 1, by omega⟩
  have hrun := encodeLoop_start hx.le (show 2 * x.length ≤ out.length by omega) y (n + 1)
  rw [← hn, encodeLoop_over hx] at hrun
  rw [byteArray2HexStr, if_pos (capacity hout), hrun]
  rfl

/-- **The octets** of a text that is not too long. -/
theorem decode_eq {str out : List UInt8} (heven : 2 ∣ str.length) (hhex : ∀ c ∈ str, isHex c = true)
    (hshort : str.length ≤ 2 ^ 31) (hout : str.length / 2 ≤ out.length) :
    hexStr2ByteArray str str.length out out.length = some ((0 : Int), octets str ++ out.drop (str.length / 2)) := by
  have hrun := decodeLoop_start heven hhex hshort hout [] 0
  rw [List.append_nil, Nat.add_zero] at hrun
  rw [hexStr2ByteArray, if_pos hout]
  exact hrun

/-- **A text with another character** that is not too far is refused. -/
theorem decode_other {pre rest out : List UInt8} {c d : UInt8} (heven : 2 ∣ pre.length)
    (hhex : ∀ c ∈ pre, isHex c = true) (hother : ¬ (isHex c = true ∧ isHex d = true)) (hshort : pre.length < 2 ^ 31)
    (hout : (pre ++ c :: d :: rest).length / 2 ≤ out.length) :
    ∃ out', hexStr2ByteArray (pre ++ c :: d :: rest) (pre ++ c :: d :: rest).length out out.length =
      some (-PARAM_INPUT_DATA_ERROR, out') := by
  have hlen : (pre ++ c :: d :: rest).length / 2 = pre.length / 2 + (rest.length / 2 + 1) := by
    rw [List.length_append, List.length_cons, List.length_cons]
    omega
  rw [hlen] at hout
  have hpre : pre.length / 2 ≤ out.length := by omega
  have hrun := decodeLoop_start heven hhex hshort.le hpre (c :: d :: rest) (rest.length / 2 + 1)
  have hroom : rest.length / 2 + 1 ≤ (out.drop (pre.length / 2)).length := by
    rw [List.length_drop]
    omega
  obtain ⟨o, old, hold, -⟩ := exists_room hroom
  rw [hexStr2ByteArray, hlen, if_pos hout, hrun, hold]
  exact decodeLoop_other (by omega) (by omega) (length_octets pre) hother rest _ o old

/-- A text whose digits go further is not converted. -/
theorem decode_over {str out : List UInt8} (heven : 2 ∣ str.length) (hlong : 2 ^ 31 < str.length)
    (hhex : ∀ c ∈ str.take (2 ^ 31), isHex c = true) (hout : str.length / 2 ≤ out.length) :
    hexStr2ByteArray str str.length out out.length = none := by
  obtain ⟨x, y, rfl, hx, hy⟩ := exists_cut hlong.le
  rw [← hx, List.take_left] at hhex
  obtain ⟨n, hn⟩ : ∃ n, (x ++ y).length / 2 = x.length / 2 + (n + 1) :=
    ⟨(x ++ y).length / 2 - x.length / 2 - 1, by omega⟩
  have hdigits : x.length / 2 ≤ out.length := by omega
  have hrun := decodeLoop_start (by omega) hhex hx.le hdigits y (n + 1)
  rw [← hn, decodeLoop_over (by omega)] at hrun
  rw [hexStr2ByteArray, if_pos hout, hrun]

/-! ### There and back -/

/-- An array and its text. -/
theorem array_right_iff (xs : List UInt8) : Right (.array xs) ↔ Short (.array xs) := by
  constructor
  · intro h
    by_contra hlong
    have hroom : 2 * xs.length ≤ (List.replicate (2 * xs.length) (0 : UInt8)).length := by
      rw [List.length_replicate]
    obtain ⟨str, -, hencode, -⟩ := h _ hroom
    rw [encode_over (Nat.lt_of_not_le hlong) hroom] at hencode
    cases hencode
  · intro hshort out hout
    refine ⟨text xs, length_text xs, encode_eq hshort hout, fun back hback => ?_⟩
    have hhalf : (text xs).length / 2 = xs.length := by
      rw [length_text]
      omega
    have hlen : (text xs).length ≤ 2 ^ 31 := by
      have hshort' : xs.length ≤ 2 ^ 30 := hshort
      rw [length_text]
      omega
    have hdecode := decode_eq ⟨xs.length, length_text xs⟩ (fun c hc => isHex_of_mem_text hc) hlen
      (hhalf.trans_le hback)
    rwa [octets_text, hhalf] at hdecode

/-- A text of hexadecimal digits is one that is read to its end. -/
theorem text_right_of_hex {str : List UInt8} (even : 2 ∣ str.length) (hhex : ∀ c ∈ str, isHex c = true)
    (hshort : str.length ≤ 2 ^ 31) : Right (.text str even) := by
  intro out hout
  refine ⟨0, _, decode_eq even hhex hshort hout, ⟨fun _ => hhex, fun _ => rfl⟩, fun _ back hback => ?_⟩
  have htake : (octets str ++ out.drop (str.length / 2)).take (str.length / 2) = octets str := by
    rw [← length_octets, List.take_left]
  have hdouble : 2 * (octets str).length = str.length := by
    rw [length_octets]
    omega
  have hencode := encode_eq (show (octets str).length ≤ 2 ^ 30 by omega) (hdouble.trans_le hback)
  rw [htake, ← length_octets, hencode, text_octets even hhex, hdouble]

/-- A text with another character is refused where the loop gets to it. -/
theorem text_right_of_other {pre rest : List UInt8} {c d : UInt8} (even : 2 ∣ (pre ++ c :: d :: rest).length)
    (heven : 2 ∣ pre.length) (hhex : ∀ c ∈ pre, isHex c = true) (hother : ¬ (isHex c = true ∧ isHex d = true))
    (hshort : pre.length < 2 ^ 31) : Right (.text (pre ++ c :: d :: rest) even) := by
  intro out hout
  obtain ⟨out', hdecode⟩ := decode_other heven hhex hother hshort hout
  have hne : -PARAM_INPUT_DATA_ERROR ≠ 0 := by decide
  refine ⟨_, out', hdecode, ⟨fun h => absurd h hne, fun h => ?_⟩, fun h => absurd h hne⟩
  exact absurd ⟨h c (by simp), h d (by simp)⟩ hother

theorem text_right_iff (str : List UInt8) (even : 2 ∣ str.length) : Right (.text str even) ↔
    Short (.text str even) := by
  constructor
  · intro h
    by_contra hlong
    rw [Short, not_or, not_le] at hlong
    have hhex : ∀ c ∈ str.take (2 ^ 31), isHex c = true := by
      intro c hc
      by_contra hother
      exact hlong.2 ⟨c, hc, Bool.eq_false_of_not_eq_true hother⟩
    have hroom : str.length / 2 ≤ (List.replicate (str.length / 2) (0 : UInt8)).length := by
      rw [List.length_replicate]
    obtain ⟨ret, out', hdecode, -⟩ := h _ hroom
    rw [decode_over even hlong.1 hhex hroom] at hdecode
    cases hdecode
  · intro hshort
    by_cases hhex : ∀ c ∈ str, isHex c = true
    · refine text_right_of_hex even hhex ?_
      rcases hshort with hle | ⟨c, hc, hother⟩
      · exact hle
      · exact absurd (hhex c (List.mem_of_mem_take hc)) (ne_true_of_eq_false hother)
    · obtain ⟨pre, c, d, rest, rfl, heven, hpre, hother⟩ := exists_other even hhex
      refine text_right_of_other even heven hpre hother ?_
      rcases hshort with hle | ⟨c', hc, hc'⟩
      · rw [List.length_append, List.length_cons, List.length_cons] at hle
        omega
      · by_contra hlong
        rw [List.take_append_of_le_length (Nat.le_of_not_lt hlong)] at hc
        exact absurd (hpre c' (List.mem_of_mem_take hc)) (ne_true_of_eq_false hc')

/-- **What comes back**: the arrays and the texts whose places fit an `int`. -/
theorem hex_right_iff (input : Input) : Right input ↔ Short input := by
  cases input with
  | array xs => exact array_right_iff xs
  | text str even => exact text_right_iff str even

/-- An array of 2 ^ 30 + 1 octets is not converted. -/
theorem long_array_not_right : ¬ Right (.array (List.replicate (2 ^ 30 + 1) 0)) := by
  rw [array_right_iff, Short, List.length_replicate]
  exact Nat.not_succ_le_self _

end Wow.Utils.Hex
