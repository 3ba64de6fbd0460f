import Mathlib.Algebra.CharP.Two
import Mathlib.Algebra.Field.ZMod
import Mathlib.Algebra.Polynomial.Div
import Mathlib.Data.BitVec
import Mathlib.Logic.Function.Basic
import Mathlib.RingTheory.Coprime.Lemmas
import Mathlib.Tactic.LinearCombination

/-!
# Wow.Lib.Crc — cyclic redundancy checks as polynomial division

A string of bits is a polynomial over the two-element field, its first bit the leading coefficient (`ofBits`);
a word is the polynomial of its bits, the most significant first (`toPoly`).  A check of width `w` is given by
its `Params`, and its value `Params.crc` is the remainder of the message by the generator polynomial, with the
reflections and the final exclusive or made explicitly.

* `turn` and `turnRight`: one turn of the shift register, to the left and to the right.  `dvd_feed`: a register
  that is fed octets holds the remainder; `reverse_octetRight`: the register that turns to the right is the mirror
  image of the one that turns to the left.
* `crc_of_register`, `crc_of_mirror`: the value of a check is what either register holds at the end.
* `eq_zero_of_window`: a generator with a constant term divides no change confined to `w` bits in a row.
-/

open Polynomial

namespace Wow.Crc

variable {w : ℕ}

/-! ### Bits as polynomials -/

/-- A string of bits as a polynomial, the first bit leading. -/
noncomputable def ofBits (l : List Bool) : (ZMod 2)[X] := l.foldl (fun p b => X * p + if b then 1 else 0) 0

theorem ofBits_concat (l : List Bool) (b : Bool) : ofBits (l ++ [b]) = X * ofBits l + if b then 1 else 0 := by
  simp [ofBits]

theorem ofBits_append (l m : List Bool) : ofBits (l ++ m) = X ^ m.length * ofBits l + ofBits m := by
  induction m using List.reverseRecOn with
  | nil => simp [ofBits]
  | append_singleton m b ih =>
    rw [← List.append_assoc, ofBits_concat, ih, ofBits_concat, List.length_append, List.length_singleton]
    ring

theorem coeff_ofBits (l : List Bool) (i : ℕ) :
    (ofBits l).coeff i = if l.reverse[i]?.getD false then 1 else 0 := by
  induction l using List.reverseRecOn generalizing i with
  | nil => simp [ofBits]
  | append_singleton l b ih =>
    rw [ofBits_concat, List.reverse_append, List.reverse_singleton, List.singleton_append]
    cases i with
    | zero => cases b <;> simp
    | succ i =>
      have h : (if b then (1 : (ZMod 2)[X]) else 0).coeff (i + 1) = 0 := by
        cases b <;> simp [coeff_one]
      rw [coeff_add, coeff_X_mul, h, ih, add_zero, List.getElem?_cons_succ]

theorem degree_ofBits_lt (l : List Bool) : (ofBits l).degree < l.length := by
  rw [degree_lt_iff_coeff_zero]
  intro i hi
  rw [coeff_ofBits, List.getElem?_eq_none (by simpa using hi)]
  rfl

/-- The bits of a word, the most significant first. -/
def bitsOf (x : BitVec w) : List Bool := (List.range w).map x.getMsbD

@[simp] theorem length_bitsOf (x : BitVec w) : (bitsOf x).length = w := by simp [bitsOf]

/-- A word as a polynomial, bit `i` the coefficient of `X ^ i`. -/
noncomputable def toPoly (x : BitVec w) : (ZMod 2)[X] := ofBits (bitsOf x)

theorem coeff_toPoly (x : BitVec w) (i : ℕ) : (toPoly x).coeff i = if x.getLsbD i then 1 else 0 := by
  rw [toPoly, coeff_ofBits]
  by_cases h : i < w
  · have hr : (bitsOf x).reverse[i]? = some (x.getLsbD i) := by
      rw [List.getElem?_reverse (by simpa using h), length_bitsOf, bitsOf, List.getElem?_map,
        List.getElem?_range (by omega), Option.map_some, BitVec.getMsbD_eq_getLsbD]
      have h1 : w - 1 - i < w := by omega
      have h2 : w - 1 - (w - 1 - i) = i := by omega
      simp [h1, h2]
    rw [hr, Option.getD_some]
  · rw [List.getElem?_eq_none (by simpa using h), BitVec.getLsbD_of_ge x i (by omega)]
    rfl

theorem degree_toPoly_lt (x : BitVec w) : (toPoly x).degree < w := by
  have h := degree_ofBits_lt (bitsOf x)
  rwa [length_bitsOf] at h

theorem toPoly_injective : Function.Injective (toPoly (w := w)) := by
  intro x y h
  apply BitVec.eq_of_getLsbD_eq
  intro i _
  have hc : (toPoly x).coeff i = (toPoly y).coeff i := by rw [h]
  rw [coeff_toPoly, coeff_toPoly] at hc
  cases hx : x.getLsbD i <;> cases hy : y.getLsbD i <;> simp [hx, hy] at hc ⊢

theorem toPoly_xor (x y : BitVec w) : toPoly (x ^^^ y) = toPoly x + toPoly y := by
  ext i
  rw [coeff_add, coeff_toPoly, coeff_toPoly, coeff_toPoly, BitVec.getLsbD_xor]
  cases x.getLsbD i <;> cases y.getLsbD i <;> decide

theorem toPoly_setWidth {v : ℕ} (h : v ≤ w) (x : BitVec v) : toPoly (x.setWidth w) = toPoly x := by
  ext i
  rw [coeff_toPoly, coeff_toPoly, BitVec.getLsbD_setWidth]
  by_cases hi : i < w
  · simp [hi]
  · simp [hi, BitVec.getLsbD_of_ge x i (by omega)]

/-- A shift that pushes no bit out is a product. -/
theorem toPoly_shiftLeft {x : BitVec w} {k : ℕ} (h : ∀ i, w ≤ k + i → x.getLsbD i = false) :
    toPoly (x <<< k) = X ^ k * toPoly x := by
  ext i
  rw [coeff_toPoly, coeff_X_pow_mul', coeff_toPoly, BitVec.getLsbD_shiftLeft]
  by_cases hk : k ≤ i
  · by_cases hi : i < w
    · simp [hi, hk]
    · simp [hi, hk, h (i - k) (by omega)]
  · simp [hk, Nat.lt_of_not_le hk]

/-! ### The register -/

/-- The generator: its leading coefficient is not written down. -/
noncomputable def gen (g : BitVec w) : (ZMod 2)[X] := X ^ w + toPoly g

theorem monic_gen (g : BitVec w) : (gen g).Monic := monic_X_pow_add (degree_toPoly_lt g)

theorem degree_gen (g : BitVec w) : (gen g).degree = w := by
  have h : (toPoly g).degree < (X ^ w : (ZMod 2)[X]).degree := by
    rw [degree_X_pow]
    exact degree_toPoly_lt g
  rw [gen, degree_add_eq_left_of_degree_lt h, degree_X_pow]

/-- Two words with one remainder by a generator are the same word. -/
theorem eq_of_dvd {g x y : BitVec w} (h : gen g ∣ toPoly x - toPoly y) : x = y := by
  have hd : (toPoly x - toPoly y).degree < (gen g).degree := by
    rw [degree_gen]
    exact lt_of_le_of_lt (degree_sub_le _ _) (max_lt (degree_toPoly_lt x) (degree_toPoly_lt y))
  exact toPoly_injective (sub_eq_zero.1 (eq_zero_of_dvd_of_degree_lt h hd))

/-- One turn of the register to the left. -/
def turn (g r : BitVec w) : BitVec w := if r.msb then (r <<< 1) ^^^ g else r <<< 1

/-- What a shift to the left pushes out. -/
theorem X_mul_toPoly (r : BitVec w) : X * toPoly r = toPoly (r <<< 1) + if r.msb then X ^ w else 0 := by
  ext i
  rw [coeff_add, coeff_toPoly, BitVec.getLsbD_shiftLeft, BitVec.msb_eq_getLsbD_last]
  have hl : (if r.getLsbD (w - 1) then (X ^ w : (ZMod 2)[X]) else 0).coeff i
      = if r.getLsbD (w - 1) ∧ i = w then 1 else 0 := by
    by_cases hm : r.getLsbD (w - 1) <;> simp [hm, coeff_X_pow]
  rw [hl]
  cases i with
  | zero =>
    have hw : ¬(r.getLsbD (w - 1) ∧ 0 = w) := by
      rintro ⟨hm, rfl⟩
      simp at hm
    simp [hw]
  | succ i =>
    rw [coeff_X_mul, coeff_toPoly]
    rcases Nat.lt_trichotomy (i + 1) w with h | rfl | h
    · have hne : i + 1 ≠ w := by omega
      simp [h, hne]
    · simp
    · have hne : i + 1 ≠ w := by omega
      have hge : r.getLsbD i = false := BitVec.getLsbD_of_ge r i (by omega)
      simp [hne, hge]

/-- A turn multiplies by `X`, up to the generator. -/
theorem dvd_turn (g r : BitVec w) : gen g ∣ toPoly (turn g r) - X * toPoly r := by
  rw [X_mul_toPoly, turn]
  by_cases hm : r.msb
  · have h2 : toPoly ((r <<< 1) ^^^ g) - (toPoly (r <<< 1) + X ^ w) = gen g := by
      rw [toPoly_xor, gen, CharTwo.sub_eq_add]
      have h0 : toPoly (r <<< 1) + toPoly (r <<< 1) = 0 := CharTwo.add_self_eq_zero _
      linear_combination h0
    rw [if_pos hm, if_pos hm, h2]
  · rw [if_neg hm, if_neg hm, add_zero, sub_self]
    exact dvd_zero _

theorem dvd_iterate_turn (g r : BitVec w) (n : ℕ) : gen g ∣ toPoly ((turn g)^[n] r) - X ^ n * toPoly r := by
  induction n with
  | zero => simp
  | succ n ih =>
    rw [Function.iterate_succ_apply']
    have h := dvd_add (dvd_turn g ((turn g)^[n] r)) (dvd_mul_of_dvd_right ih X)
    rwa [show toPoly (turn g ((turn g)^[n] r)) - X * toPoly ((turn g)^[n] r)
          + X * (toPoly ((turn g)^[n] r) - X ^ n * toPoly r)
        = toPoly (turn g ((turn g)^[n] r)) - X ^ (n + 1) * toPoly r by ring] at h

/-- An octet enters at the top of the register, which then turns eight times. -/
def octet (g r : BitVec w) (b : BitVec 8) : BitVec w := (turn g)^[8] (r ^^^ b.setWidth w <<< (w - 8))

theorem dvd_octet (hw : 8 ≤ w) (g r : BitVec w) (b : BitVec 8) :
    gen g ∣ toPoly (octet g r b) - (X ^ 8 * toPoly r + X ^ w * toPoly b) := by
  have hb : toPoly (b.setWidth w <<< (w - 8)) = X ^ (w - 8) * toPoly b := by
    rw [toPoly_shiftLeft, toPoly_setWidth hw]
    intro i hi
    rw [BitVec.getLsbD_setWidth, BitVec.getLsbD_of_ge b i (by omega), Bool.and_false]
  have hx : (X : (ZMod 2)[X]) ^ w = X ^ 8 * X ^ (w - 8) := by rw [← pow_add]; congr 1; omega
  have h := dvd_iterate_turn g (r ^^^ b.setWidth w <<< (w - 8)) 8
  rwa [toPoly_xor, hb, mul_add, ← mul_assoc, ← hx] at h

/-- The bits of a string of octets, the most significant bit of each first. -/
def bits (data : List (BitVec 8)) : List Bool := data.flatMap bitsOf

@[simp] theorem length_bits (data : List (BitVec 8)) : (bits data).length = 8 * data.length := by
  induction data with
  | nil => rfl
  | cons b data ih =>
    rw [bits, List.flatMap_cons, List.length_append, length_bitsOf, List.length_cons]
    change 8 + (bits data).length = _
    omega

/-- **A register holds the remainder** of what it was fed, its first content in front of the first bits. -/
theorem dvd_feed (hw : 8 ≤ w) (g r : BitVec w) (data : List (BitVec 8)) :
    gen g ∣ toPoly (data.foldl (octet g) r)
      - (X ^ (8 * data.length) * toPoly r + X ^ w * ofBits (bits data)) := by
  induction data generalizing r with
  | nil => simp [bits, ofBits]
  | cons b data ih =>
    rw [List.foldl_cons]
    have hb : ofBits (bits (b :: data)) = X ^ (8 * data.length) * toPoly b + ofBits (bits data) := by
      rw [bits, List.flatMap_cons, ofBits_append]
      change X ^ (bits data).length * _ + _ = _
      rw [length_bits]
      rfl
    have h := dvd_add (ih (octet g r b)) (dvd_mul_of_dvd_right (dvd_octet hw g r b) (X ^ (8 * data.length)))
    rw [hb, List.length_cons, Nat.mul_add, pow_add]
    convert h using 1
    ring

/-! ### The checks and their parameters -/

/-- The parameters of a check. -/
structure Params (w : ℕ) where
  poly : BitVec w
  init : BitVec w
  refIn : Bool
  refOut : Bool
  xorOut : BitVec w

/-- A word, mirrored or not. -/
def reflect (on : Bool) (x : BitVec w) : BitVec w := if on then x.reverse else x

theorem reflect_reflect (on : Bool) (x : BitVec w) : reflect on (reflect on x) = x := by
  cases on
  · rfl
  · exact BitVec.reverse_reverse_eq

/-- The word with a given polynomial of degree below `w`. -/
noncomputable def ofPoly (w : ℕ) (p : (ZMod 2)[X]) : BitVec w := Function.invFun toPoly p

theorem ofPoly_toPoly (x : BitVec w) : ofPoly w (toPoly x) = x := Function.leftInverse_invFun toPoly_injective x

namespace Params

variable (p : Params w)

/-- The message that is divided: the bits of the octets with `w` zeros behind them and the initial value added
into the first `w` bits. -/
noncomputable def dividend (data : List (BitVec 8)) : (ZMod 2)[X] :=
  X ^ w * ofBits (bits (data.map (reflect p.refIn))) + X ^ (8 * data.length) * toPoly p.init

/-- **The value of a check**: the remainder of the division, reflected and with the last exclusive or. -/
noncomputable def crc (data : List (BitVec 8)) : BitVec w :=
  reflect p.refOut (ofPoly w (p.dividend data %ₘ gen p.poly)) ^^^ p.xorOut

/-- The register that turns to the left finds the remainder. -/
theorem toPoly_feed (hw : 8 ≤ w) (data : List (BitVec 8)) :
    toPoly ((data.map (reflect p.refIn)).foldl (octet p.poly) p.init) = p.dividend data %ₘ gen p.poly := by
  have hd := dvd_feed hw p.poly p.init (data.map (reflect p.refIn))
  rw [List.length_map, add_comm (X ^ (8 * data.length) * _)] at hd
  have hs : toPoly ((data.map (reflect p.refIn)).foldl (octet p.poly) p.init) %ₘ gen p.poly
      = toPoly ((data.map (reflect p.refIn)).foldl (octet p.poly) p.init) := by
    rw [modByMonic_eq_self_iff (monic_gen p.poly), degree_gen]
    exact degree_toPoly_lt _
  rw [← hs]
  exact modByMonic_eq_of_dvd_sub (monic_gen p.poly) hd

/-- The remainder, read back from the value of a check. -/
theorem toPoly_crc (hw : 8 ≤ w) (data : List (BitVec 8)) :
    toPoly (reflect p.refOut (p.crc data ^^^ p.xorOut)) = p.dividend data %ₘ gen p.poly := by
  rw [crc, BitVec.xor_assoc, BitVec.xor_self, BitVec.xor_zero, reflect_reflect, ← p.toPoly_feed hw, ofPoly_toPoly]

/-- A word is the value of a check when its polynomial leaves the remainder of the message. -/
theorem crc_eq_iff (hw : 8 ≤ w) (data : List (BitVec 8)) (x : BitVec w) :
    p.crc data = x ↔ gen p.poly ∣ p.dividend data - toPoly (reflect p.refOut (x ^^^ p.xorOut)) := by
  constructor
  · rintro rfl
    rw [p.toPoly_crc hw, ← dvd_neg, neg_sub]
    exact dvd_modByMonic_sub _ _
  · intro h
    have h1 : gen p.poly ∣ p.dividend data %ₘ gen p.poly - p.dividend data := dvd_modByMonic_sub _ _
    have h2 := dvd_add h1 h
    rw [sub_add_sub_cancel, ← p.toPoly_crc hw] at h2
    have h3 := congrArg (reflect p.refOut) (eq_of_dvd h2)
    rw [reflect_reflect, reflect_reflect] at h3
    have h4 := congrArg (· ^^^ p.xorOut) h3
    simpa [BitVec.xor_assoc] using h4

/-- The value of a check without reflections is what the register to the left ends with. -/
theorem crc_of_register (hw : 8 ≤ w) (hi : p.refIn = false) (ho : p.refOut = false) (data : List (BitVec 8)) :
    p.crc data = data.foldl (octet p.poly) p.init ^^^ p.xorOut := by
  have hm : data.map (reflect p.refIn) = data := by
    rw [hi]
    exact List.map_id data
  rw [crc, ← p.toPoly_feed hw, ofPoly_toPoly, hm, ho]
  rfl

end Params

/-! ### The register to the right -/

/-- One turn of the register to the right. -/
def turnRight (g r : BitVec w) : BitVec w := if r.getLsbD 0 then (r >>> 1) ^^^ g else r >>> 1

/-- An octet enters at the low end of the register, which then turns eight times. -/
def octetRight (g r : BitVec w) (b : BitVec 8) : BitVec w := (turnRight g)^[8] (r ^^^ b.setWidth w)

theorem reverse_xor (x y : BitVec w) : (x ^^^ y).reverse = x.reverse ^^^ y.reverse := by
  apply BitVec.eq_of_getLsbD_eq
  intro i hi
  rw [BitVec.getLsbD_xor, BitVec.getLsbD_reverse, BitVec.getLsbD_reverse, BitVec.getLsbD_reverse,
    BitVec.getMsbD_xor]

theorem reverse_ushiftRight (x : BitVec w) : (x >>> 1).reverse = x.reverse <<< 1 := by
  apply BitVec.eq_of_getLsbD_eq
  intro i hi
  rw [BitVec.getLsbD_reverse, BitVec.getLsbD_shiftLeft, BitVec.getLsbD_reverse, BitVec.getMsbD_ushiftRight]
  simp [Bool.and_assoc]

theorem reverse_turnRight (g r : BitVec w) : (turnRight g r).reverse = turn g.reverse r.reverse := by
  rw [turnRight, turn, BitVec.msb_reverse]
  by_cases h : r.getLsbD 0
  · rw [if_pos h, if_pos h, reverse_xor, reverse_ushiftRight]
  · rw [if_neg h, if_neg h, reverse_ushiftRight]

theorem reverse_iterate_turnRight (g r : BitVec w) (n : ℕ) :
    ((turnRight g)^[n] r).reverse = (turn g.reverse)^[n] r.reverse := by
  induction n with
  | zero => rfl
  | succ n ih => rw [Function.iterate_succ_apply', Function.iterate_succ_apply', reverse_turnRight, ih]

theorem reverse_setWidth (hw : 8 ≤ w) (b : BitVec 8) : (b.setWidth w).reverse = b.reverse.setWidth w <<< (w - 8) := by
  apply BitVec.eq_of_getLsbD_eq
  intro i hi
  rw [BitVec.getLsbD_reverse, BitVec.getMsbD_eq_getLsbD, BitVec.getLsbD_setWidth, BitVec.getLsbD_shiftLeft,
    BitVec.getLsbD_setWidth, BitVec.getLsbD_reverse, BitVec.getMsbD_eq_getLsbD]
  by_cases h : i < w - 8
  · have hge : b.getLsbD (w - 1 - i) = false := BitVec.getLsbD_of_ge b _ (by omega)
    simp [h, hge]
  · have h1 : i - (w - 8) < 8 := by omega
    have h2 : 8 - 1 - (i - (w - 8)) = w - 1 - i := by omega
    have h3 : w - 1 - i < w := by omega
    have h4 : i - (w - 8) < w := by omega
    simp [hi, h, h1, h2, h3, h4]

/-- **The register to the right is the mirror image of the register to the left.** -/
theorem reverse_octetRight (hw : 8 ≤ w) (g r : BitVec w) (b : BitVec 8) :
    (octetRight g r b).reverse = octet g.reverse r.reverse b.reverse := by
  rw [octetRight, octet, reverse_iterate_turnRight, reverse_xor, reverse_setWidth hw]

theorem reverse_feedRight (hw : 8 ≤ w) (g r : BitVec w) (data : List (BitVec 8)) :
    (data.foldl (octetRight g) r).reverse = (data.map BitVec.reverse).foldl (octet g.reverse) r.reverse := by
  induction data generalizing r with
  | nil => rfl
  | cons b data ih => rw [List.foldl_cons, ih, reverse_octetRight hw, List.map_cons, List.foldl_cons]

/-- The value of a check with both reflections is what the register to the right ends with, when it turns with the
mirror image of the polynomial and starts with that of the initial value. -/
theorem Params.crc_of_mirror (p : Params w) (hw : 8 ≤ w) (hi : p.refIn = true) (ho : p.refOut = true)
    (data : List (BitVec 8)) :
    p.crc data = data.foldl (octetRight p.poly.reverse) p.init.reverse ^^^ p.xorOut := by
  have hm : data.map (reflect p.refIn) = data.map BitVec.reverse := by rw [hi]; rfl
  rw [crc, ← p.toPoly_feed hw, ofPoly_toPoly, hm, ho, ← BitVec.reverse_reverse_eq (x := p.poly),
    ← BitVec.reverse_reverse_eq (x := p.init), ← reverse_feedRight hw]
  simp [reflect]

/-! ### Changes within a window -/

theorem isCoprime_gen {g : BitVec w} (hg : g.getLsbD 0 = true) : IsCoprime (gen g) X := by
  have hw : w ≠ 0 := by
    rintro rfl
    simp at hg
  have h1 : (gen g).coeff 0 = 1 := by
    rw [gen, coeff_add, coeff_X_pow, if_neg (Ne.symm hw), coeff_toPoly, if_pos hg, zero_add]
  refine ⟨1, -(gen g).divX, ?_⟩
  have h := (gen g).divX_mul_X_add
  rw [h1, C_1] at h
  linear_combination -h

/-- **A generator with a constant term divides no polynomial within a window of its width.** -/
theorem eq_zero_of_window {g : BitVec w} (hg : g.getLsbD 0 = true) {p : (ZMod 2)[X]} (hd : gen g ∣ p) {k : ℕ}
    (hk : ∀ i, p.coeff i ≠ 0 → k ≤ i ∧ i < k + w) : p = 0 := by
  obtain ⟨q, rfl⟩ : X ^ k ∣ p := by
    rw [X_pow_dvd_iff]
    intro i hi
    by_contra h
    have := (hk i h).1
    omega
  have hq : gen g ∣ q := ((isCoprime_gen hg).pow_right).dvd_of_dvd_mul_left hd
  have hlt : q.degree < (gen g).degree := by
    rw [degree_gen, degree_lt_iff_coeff_zero]
    intro i hi
    by_contra h
    have := (hk (i + k) (by rwa [coeff_X_pow_mul])).2
    omega
  rw [eq_zero_of_dvd_of_degree_lt hq hlt, mul_zero]

/-- Two strings of one length that differ within `w` bits in a row and leave one remainder are the same. -/
theorem eq_of_window {g : BitVec w} (hg : g.getLsbD 0 = true) {l m : List Bool} (hl : m.length = l.length) {k : ℕ}
    (hk : ∀ i, m[i]? ≠ l[i]? → k ≤ i ∧ i < k + w) (hd : gen g ∣ ofBits m - ofBits l) : m = l := by
  -- coefficient `i` is the bit `i` places before the end
  have hbit : ∀ i, i < l.length → (ofBits m - ofBits l).coeff i = 0 → m[l.length - 1 - i]? = l[l.length - 1 - i]? := by
    intro i hi h0
    rw [coeff_sub, sub_eq_zero, coeff_ofBits, coeff_ofBits, List.getElem?_reverse (by omega),
      List.getElem?_reverse hi, hl, List.getElem?_eq_getElem (by omega), List.getElem?_eq_getElem (by omega)] at h0
    rw [List.getElem?_eq_getElem (by omega), List.getElem?_eq_getElem (by omega)]
    simp only [Option.getD_some] at h0
    cases h1 : m[l.length - 1 - i] <;> cases h2 : l[l.length - 1 - i] <;> simp [h1, h2] at h0 ⊢
  have hz : ofBits m - ofBits l = 0 := by
    refine eq_zero_of_window hg (k := l.length - k - w) hd fun i hi => ?_
    have hlt : i < l.length := by
      by_contra h
      rw [coeff_sub, coeff_ofBits, coeff_ofBits, List.getElem?_eq_none (by rw [List.length_reverse]; omega),
        List.getElem?_eq_none (by rw [List.length_reverse]; omega), sub_self] at hi
      exact hi rfl
    have hne : m[l.length - 1 - i]? ≠ l[l.length - 1 - i]? := by
      intro he
      apply hi
      rw [coeff_sub, coeff_ofBits, coeff_ofBits, List.getElem?_reverse (by omega), List.getElem?_reverse hlt, hl, he,
        sub_self]
    have := hk _ hne
    omega
  apply List.ext_getElem?
  intro i
  by_cases hi : i < l.length
  · have h := hbit (l.length - 1 - i) (by omega) (by rw [hz, coeff_zero])
    rwa [show l.length - 1 - (l.length - 1 - i) = i by omega] at h
  · rw [List.getElem?_eq_none (by omega), List.getElem?_eq_none (by omega)]

end Wow.Crc
