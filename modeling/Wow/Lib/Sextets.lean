import Mathlib.Tactic.Common
import Mathlib.Data.List.Basic
import Mathlib.Data.Nat.Bitwise

/-!
# Wow.Lib.Sextets — octets written as characters of six bits

Three octets are one number of 24 bits, and four characters of an `Alphabet` of 64.  A text is cut into groups of
four characters; a last group of one or two octets ends in padding.

* `joined_sextets`, `octet_triple`: the parts give the number.
* `take_decoding`: **there and back**.
* `encoding_eq`: the text is that of the octets filled up with zeros, the last characters overwritten by padding.
* `room_encoding`: the number of octets, read off from the length and the padding.
-/

namespace Wow

namespace Sextets

/-! ### Numbers of 24 bits -/

def triple (a b c : UInt8) : Nat := (a.toNat <<< 16) + (b.toNat <<< 8) + c.toNat

/-- The sextet with `k` others behind it. -/
def sextet (t k : Nat) : Nat := (t >>> (k * 6)) &&& 0x3F

/-- The octet with `k` others behind it. -/
def octet (t k : Nat) : UInt8 := UInt8.ofNat ((t >>> (k * 8)) &&& 0xFF)

def joined (p q r s : Nat) : Nat := (p <<< (3 * 6)) + (q <<< (2 * 6)) + (r <<< (1 * 6)) + (s <<< (0 * 6))

theorem sextet_eq (t k : Nat) : sextet t k = t / 2 ^ (k * 6) % 64 := by
  rw [sextet, Nat.shiftRight_eq_div_pow]
  exact Nat.and_two_pow_sub_one_eq_mod _ 6

theorem octet_eq (t k : Nat) : octet t k = UInt8.ofNat (t / 2 ^ (k * 8) % 256) := by
  rw [octet, Nat.shiftRight_eq_div_pow]
  exact congrArg UInt8.ofNat (Nat.and_two_pow_sub_one_eq_mod _ 8)

theorem triple_eq (a b c : UInt8) : triple a b c = a.toNat * 65536 + b.toNat * 256 + c.toNat := by
  rw [triple, Nat.shiftLeft_eq, Nat.shiftLeft_eq]

theorem joined_eq (p q r s : Nat) : joined p q r s = p * 262144 + q * 4096 + r * 64 + s := by
  rw [joined, Nat.shiftLeft_eq, Nat.shiftLeft_eq, Nat.shiftLeft_eq, Nat.shiftLeft_eq]
  omega

theorem sextet_lt (t k : Nat) : sextet t k < 64 := by
  rw [sextet_eq]
  exact Nat.mod_lt _ (by decide)

theorem triple_lt (a b c : UInt8) : triple a b c < 2 ^ 24 := by
  have ha := a.toNat_lt
  have hb := b.toNat_lt
  have hc := c.toNat_lt
  rw [triple_eq]
  omega

/-- **The sextets give the number.** -/
theorem joined_sextets {t : Nat} (h : t < 2 ^ 24) : joined (sextet t 3) (sextet t 2) (sextet t 1) (sextet t 0) = t := by
  rw [joined_eq, sextet_eq, sextet_eq, sextet_eq, sextet_eq]
  omega

/-- **The octets of the number** are those it is made of. -/
theorem octet_triple (a b c : UInt8) :
    octet (triple a b c) 2 = a ∧ octet (triple a b c) 1 = b ∧ octet (triple a b c) 0 = c := by
  have ha := a.toNat_lt
  have hb := b.toNat_lt
  have hc := c.toNat_lt
  rw [octet_eq, octet_eq, octet_eq, triple_eq]
  refine ⟨?_, ?_, ?_⟩
  · rw [show (a.toNat * 65536 + b.toNat * 256 + c.toNat) / 2 ^ (2 * 8) % 256 = a.toNat by omega, UInt8.ofNat_toNat]
  · rw [show (a.toNat * 65536 + b.toNat * 256 + c.toNat) / 2 ^ (1 * 8) % 256 = b.toNat by omega, UInt8.ofNat_toNat]
  · rw [show (a.toNat * 65536 + b.toNat * 256 + c.toNat) / 2 ^ (0 * 8) % 256 = c.toNat by omega, UInt8.ofNat_toNat]

/-- A missing octet leaves sextets that are 0. -/
theorem sextet_one_octet (a : UInt8) : sextet (triple a 0 0) 1 = 0 ∧ sextet (triple a 0 0) 0 = 0 := by
  rw [sextet_eq, sextet_eq, triple_eq, UInt8.toNat_zero]
  omega

theorem sextet_two_octets (a b : UInt8) : sextet (triple a b 0) 0 = 0 := by
  rw [sextet_eq, triple_eq, UInt8.toNat_zero]
  omega

/-! ### Alphabets -/

/-- The characters of the sextets, and the padding. -/
structure Alphabet where
  char : Nat → UInt8
  value : UInt8 → Nat
  pad : UInt8
  value_char : ∀ n < 64, value (char n) = n
  char_ne_pad : ∀ n < 64, char n ≠ pad
  value_pad : value pad = 0

variable (A : Alphabet)

/-- The four characters of a number. -/
def group (t : Nat) : List UInt8 := [A.char (sextet t 3), A.char (sextet t 2), A.char (sextet t 1), A.char (sextet t 0)]

/-- The text of the octets. -/
def encoding : List UInt8 → List UInt8
  | a :: b :: c :: xs => group A (triple a b c) ++ encoding xs
  | [a, b] => (group A (triple a b 0)).take 3 ++ [A.pad]
  | [a] => (group A (triple a 0 0)).take 2 ++ [A.pad, A.pad]
  | [] => []

/-- The characters with zeros for the octets that are missing. -/
def filled : List UInt8 → List UInt8
  | a :: b :: c :: xs => group A (triple a b c) ++ filled xs
  | [a, b] => group A (triple a b 0)
  | [a] => group A (triple a 0 0)
  | [] => []

/-- The octets of the groups of four. -/
def decoding : List UInt8 → List UInt8
  | p :: q :: r :: s :: str =>
    let t := joined (A.value p) (A.value q) (A.value r) (A.value s)
    octet t 2 :: octet t 1 :: octet t 0 :: decoding str
  | _ => []

/-- The number of octets missing in the last group. -/
def missing (n : Nat) : Nat := (3 - n % 3) % 3

theorem length_group (t : Nat) : (group A t).length = 4 := rfl

theorem missing_add_three (n : Nat) : missing (n + 1 + 1 + 1) = missing n := by
  rw [missing, missing]
  omega

theorem length_filled (xs : List UInt8) : (filled A xs).length = 4 * ((xs.length + 2) / 3) := by
  induction xs using filled.induct with
  | case1 a b c xs ih =>
    rw [filled, List.length_append, ih, length_group, List.length_cons, List.length_cons, List.length_cons]
    omega
  | case2 a b => rw [filled, length_group, List.length_cons, List.length_singleton]
  | case3 a => rw [filled, length_group, List.length_singleton]
  | case4 => rfl

/-- **Padding over the last characters** of the filled groups. -/
theorem encoding_eq (xs : List UInt8) : encoding A xs =
    (filled A xs).take ((filled A xs).length - missing xs.length) ++ List.replicate (missing xs.length) A.pad := by
  induction xs using filled.induct with
  | case1 a b c xs ih =>
    have hle : missing xs.length ≤ (filled A xs).length := by
      rw [length_filled, missing]
      omega
    have hlen : (group A (triple a b c) ++ filled A xs).length - missing xs.length =
        (group A (triple a b c)).length + ((filled A xs).length - missing xs.length) := by
      rw [List.length_append]
      omega
    rw [encoding, filled, List.length_cons, List.length_cons, List.length_cons, missing_add_three, hlen,
      List.take_length_add_append, ih, List.append_assoc]
  | case2 a b => rfl
  | case3 a => rfl
  | case4 => rfl

theorem length_encoding (xs : List UInt8) : (encoding A xs).length = 4 * ((xs.length + 2) / 3) := by
  have hle : missing xs.length ≤ (filled A xs).length := by
    rw [length_filled, missing]
    omega
  rw [encoding_eq, List.length_append, List.length_take, List.length_replicate, ← length_filled A]
  omega

theorem exists_of_mem_group {t : Nat} {c : UInt8} (h : c ∈ group A t) : ∃ n < 64, c = A.char n := by
  simp only [group, List.mem_cons, List.not_mem_nil, or_false] at h
  rcases h with rfl | rfl | rfl | rfl
  all_goals exact ⟨_, sextet_lt _ _, rfl⟩

/-- Every character is one of the alphabet. -/
theorem exists_of_mem_filled {xs : List UInt8} {c : UInt8} (h : c ∈ filled A xs) : ∃ n < 64, c = A.char n := by
  induction xs using filled.induct with
  | case1 a b d xs ih =>
    rcases List.mem_append.mp h with h | h
    · exact exists_of_mem_group A h
    · exact ih h
  | case2 a b => exact exists_of_mem_group A h
  | case3 a => exact exists_of_mem_group A h
  | case4 => exact absurd h List.not_mem_nil

/-! ### There and back -/

/-- A text without a group. -/
theorem length_lt_four {str : List UInt8} (h : ∀ p q r s rest, str = p :: q :: r :: s :: rest → False) :
    str.length < 4 := by
  rcases str with _ | ⟨p, _ | ⟨q, _ | ⟨r, _ | ⟨s, rest⟩⟩⟩⟩
  · exact Nat.zero_lt_succ 3
  · exact Nat.lt_of_sub_eq_succ rfl
  · exact Nat.lt_of_sub_eq_succ rfl
  · exact Nat.lt_of_sub_eq_succ rfl
  · exact (h p q r s rest rfl).elim

theorem length_decoding (str : List UInt8) : (decoding A str).length = str.length / 4 * 3 := by
  induction str using decoding.induct A with
  | case1 p q r s str ih =>
    rw [decoding]
    simp only [List.length_cons, ih]
    omega
  | case2 str h =>
    rw [decoding]
    · have hlt : str.length < 4 := length_lt_four h
      rw [List.length_nil, Nat.div_eq_of_lt hlt]
    · exact h

/-- The octets of a number's four characters. -/
theorem decoding_group {t : Nat} (h : t < 2 ^ 24) (str : List UInt8) :
    decoding A (group A t ++ str) = octet t 2 :: octet t 1 :: octet t 0 :: decoding A str := by
  rw [group, List.cons_append, List.cons_append, List.cons_append, List.cons_append, List.nil_append, decoding,
    A.value_char _ (sextet_lt t 3), A.value_char _ (sextet_lt t 2), A.value_char _ (sextet_lt t 1),
    A.value_char _ (sextet_lt t 0), joined_sextets h]

/-- Padding reads as the zeros that it stands for. -/
theorem decoding_encoding (xs : List UInt8) : decoding A (encoding A xs) = decoding A (filled A xs) := by
  induction xs using filled.induct with
  | case1 a b c xs ih =>
    rw [encoding, filled, decoding_group A (triple_lt a b c), decoding_group A (triple_lt a b c), ih]
  | case2 a b =>
    rw [encoding, filled, group, List.take_succ_cons, List.take_succ_cons, List.take_succ_cons, List.take_zero]
    simp only [List.cons_append, List.nil_append, decoding, A.value_pad, sextet_two_octets, A.value_char 0 (by decide)]
  | case3 a =>
    obtain ⟨h1, h0⟩ := sextet_one_octet a
    rw [encoding, filled, group, List.take_succ_cons, List.take_succ_cons, List.take_zero]
    simp only [List.cons_append, List.nil_append, decoding, A.value_pad, h1, h0, A.value_char 0 (by decide)]
  | case4 => rfl

theorem take_decoding_filled (xs : List UInt8) : (decoding A (filled A xs)).take xs.length = xs := by
  induction xs using filled.induct with
  | case1 a b c xs ih =>
    obtain ⟨ha, hb, hc⟩ := octet_triple a b c
    rw [filled, decoding_group A (triple_lt a b c), ha, hb, hc, List.length_cons, List.length_cons, List.length_cons,
      List.take_succ_cons, List.take_succ_cons, List.take_succ_cons, ih]
  | case2 a b =>
    obtain ⟨ha, hb, -⟩ := octet_triple a b 0
    rw [filled, ← List.append_nil (group A _), decoding_group A (triple_lt a b 0), ha, hb]
    rfl
  | case3 a =>
    obtain ⟨ha, -, -⟩ := octet_triple a 0 0
    rw [filled, ← List.append_nil (group A _), decoding_group A (triple_lt a 0 0), ha]
    rfl
  | case4 => rfl

/-- **There and back**: as many octets as there were. -/
theorem take_decoding (xs : List UInt8) : (decoding A (encoding A xs)).take xs.length = xs := by
  rw [decoding_encoding, take_decoding_filled]

/-! ### The number of octets -/

/-- The number of octets of a text, by its length and the padding in its last two places. -/
def room (str : List UInt8) : Nat :=
  str.length / 4 * 3 - (if str[str.length - 1]? = some A.pad then 1 else 0) -
    (if str[str.length - 2]? = some A.pad then 1 else 0)

/-- **The text tells how many octets there are.** -/
theorem room_encoding {xs : List UInt8} (hne : xs ≠ []) : room A (encoding A xs) = xs.length := by
  have hpos : 0 < xs.length := List.length_pos_iff.mpr hne
  have hbody : ∀ c ∈ (filled A xs).take ((filled A xs).length - missing xs.length), c ≠ A.pad := by
    intro c hc
    obtain ⟨n, hn, rfl⟩ := exists_of_mem_filled A (List.mem_of_mem_take hc)
    exact A.char_ne_pad n hn
  have hlen := length_filled A xs
  have hmissing : missing xs.length = (3 - xs.length % 3) % 3 := rfl
  have hplace : ∀ k, 0 < k → k ≤ 2 →
      ((encoding A xs)[(encoding A xs).length - k]? = some A.pad ↔ k ≤ missing xs.length) := by
    intro k hk hk2
    rw [length_encoding, encoding_eq]
    have htake : ((filled A xs).take ((filled A xs).length - missing xs.length)).length =
        4 * ((xs.length + 2) / 3) - missing xs.length := by
      rw [List.length_take]
      omega
    constructor
    · intro h
      by_contra hlt
      rw [List.getElem?_append_left (by rw [htake]; omega)] at h
      exact hbody _ (List.mem_of_getElem? h) rfl
    · intro hle
      rw [List.getElem?_append_right (by rw [htake]; omega), htake, List.getElem?_replicate, if_pos (by omega)]
  rw [room, length_encoding]
  have h1 := hplace 1 (by decide) (by decide)
  have h2 := hplace 2 (by decide) (by decide)
  rw [length_encoding] at h1 h2
  simp only [h1, h2]
  split <;> split <;> omega

end Sextets

end Wow
