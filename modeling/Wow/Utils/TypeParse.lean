import Wow.Lib.Decimal
import Wow.Lib.Mem
import Mathlib.Data.BitVec
import Mathlib.Data.List.TakeWhile

/-!
# Wow.Utils.TypeParse — the integer parsers of `wow_type.c`

A string is what stands in front of its terminator; a pointer into it is the rest.  The three parsers are one scheme
with an accumulator of its own width, a prefix, a digit test and a shift.

* `Numeral`: what a parser is to read, taken as long as possible, and its number modulo 2^64.
* `exists_numeral`: every string is one.
* `sToU64_text`: the scheme reads a numeral, in the width of its accumulator.
* `str2u64_iff`: base 2 counts in 32 bits.
-/

namespace Wow.Utils.TypeParse

open Decimal (isSpace isDigit)

/-! ### The scheme -/

/-- A sign that may be missing: whether it is a minus, and what follows. -/
def readSign : List UInt8 → Bool × List UInt8
  | [] => (false, [])
  | ch :: s => if ch = 45 then (true, s) else if ch = 43 then (false, s) else (false, ch :: s)

/-- `0x` or `0b`, with the letters that the parser takes. -/
def skipPrefix (letter : UInt8 → Bool) : List UInt8 → List UInt8
  | 48 :: ch :: s => if letter ch then s else 48 :: ch :: s
  | s => s

/-- The digits, up to the first character that is none. -/
def digitsLoop {w : Nat} (digit : UInt8 → Option Nat) (shift : BitVec w → BitVec w) :
    List UInt8 → BitVec w → BitVec w
  | [], val => val
  | ch :: s, val =>
    match digit ch with
    | none => val
    | some d => digitsLoop digit shift s (shift val + BitVec.ofNat w d)

/-- The three parsers. -/
def sToU64 {w : Nat} (letter : UInt8 → Bool) (digit : UInt8 → Option Nat) (shift : BitVec w → BitVec w)
    (pcStr : List UInt8) : BitVec 64 :=
  let r := readSign (pcStr.dropWhile isSpace)
  let s := (skipPrefix letter r.2).dropWhile (· = 48)
  let val := digitsLoop digit shift s 0
  -- the complement is taken in the width of the accumulator
  (if r.1 then ~~~val + 1 else val).setWidth 64

/-! ### The parsers -/

/-- `isdigit2`. -/
def digit2 (ch : UInt8) : Option Nat := if ch = 48 ∨ ch = 49 then some (ch.toNat - 48) else none

/-- `isdigit10`. -/
def digit10 (ch : UInt8) : Option Nat := if isDigit ch then some (ch.toNat - 48) else none

/-- The digits of `_S16toU64`. -/
def digit16 (ch : UInt8) : Option Nat :=
  if isDigit ch then some (ch.toNat - 48)
  else if 97 ≤ ch ∧ ch ≤ 102 then some (ch.toNat - 97 + 10)
  else if 65 ≤ ch ∧ ch ≤ 70 then some (ch.toNat - 65 + 10)
  else none

def isLetterB (ch : UInt8) : Bool := ch = 98 ∨ ch = 66

def isLetterX (ch : UInt8) : Bool := ch = 120 ∨ ch = 88

/-- `_S2toU64`: `val` is an `uint32_t`. -/
def s2ToU64 (pcStr : List UInt8) : BitVec 64 := sToU64 isLetterB digit2 (fun val : BitVec 32 => val <<< 1) pcStr

/-- `_S10toU64`. -/
def s10ToU64 (pcStr : List UInt8) : BitVec 64 := sToU64 (fun _ => false) digit10 (fun val : BitVec 64 => val * 10) pcStr

/-- `_S16toU64`. -/
def s16ToU64 (pcStr : List UInt8) : BitVec 64 := sToU64 isLetterX digit16 (fun val : BitVec 64 => val <<< 4) pcStr

/-- `str2u64`: the code and what is stored. -/
def str2u64 (pcStr : List UInt8) : Int × BitVec 64 :=
  match (readSign (pcStr.dropWhile isSpace)).2 with
  | 48 :: ch :: _ =>
    if isLetterX ch then (0, s16ToU64 pcStr)
    else if isLetterB ch then (0, s2ToU64 pcStr)
    else (0, s10ToU64 pcStr)
  | _ => (0, s10ToU64 pcStr)

/-! ### Numerals -/

/-- The base of a numeral, with the case of the letter in its prefix. -/
inductive Radix where
  | bin (upper : Bool)
  | dec
  | hex (upper : Bool)
  deriving DecidableEq

namespace Radix

/-- The prefix. -/
def lead : Radix → List UInt8
  | bin upper => [48, if upper then 66 else 98]
  | dec => []
  | hex upper => [48, if upper then 88 else 120]

def base : Radix → Nat
  | bin _ => 2
  | dec => 10
  | hex _ => 16

def digit : Radix → UInt8 → Option Nat
  | bin _ => digit2
  | dec => digit10
  | hex _ => digit16

/-- The value of digits. -/
def value (r : Radix) (ds : List UInt8) : Nat := ds.foldl (fun n c => r.base * n + (r.digit c).getD 0) 0

end Radix

/-- A sign that is written. -/
inductive Sign where
  | plus
  | minus
  deriving DecidableEq

/-- White space, a sign, a prefix, digits and what follows them.  Each part is taken as long as it goes. -/
structure Numeral where
  blanks : List UInt8
  sign : Option Sign
  radix : Radix
  digits : List UInt8
  rest : List UInt8
  isSpace_of_mem : ∀ c ∈ blanks, isSpace c = true
  digit_of_mem : ∀ c ∈ digits, (radix.digit c).isSome = true
  rest_digit : ∀ c ∈ rest.head?, radix.digit c = none
  /-- Nothing at all is read only where neither white space nor a sign follows. -/
  rest_bare : radix = .dec → sign = none → digits = [] → ∀ c ∈ rest.head?, isSpace c = false ∧ c ≠ 45 ∧ c ≠ 43
  /-- A single 0 is a decimal digit only where it is not the beginning of a prefix. -/
  rest_lead : radix = .dec → digits = [48] → ∀ c ∈ rest.head?, isLetterX c = false ∧ isLetterB c = false

namespace Numeral

def signText : Option Sign → List UInt8
  | none => []
  | some .plus => [43]
  | some .minus => [45]

/-- What stands behind the sign. -/
def body (n : Numeral) : List UInt8 := n.radix.lead ++ n.digits ++ n.rest

/-- The string. -/
def text (n : Numeral) : List UInt8 := n.blanks ++ signText n.sign ++ n.body

/-- The value of the digits, negated where the sign is a minus. -/
def signed (n : Numeral) : Int :=
  if n.sign = some .minus then -(n.radix.value n.digits : Int) else n.radix.value n.digits

/-- The number that is to be stored. -/
def number (n : Numeral) : BitVec 64 := BitVec.ofInt 64 n.signed

end Numeral

/-! ### The loops -/

/-- A loop that skips what it may stops at what it may not. -/
theorem dropWhile_append_stop {p : UInt8 → Bool} {rest : List UInt8} (hrest : ∀ c ∈ rest.head?, p c = false)
    (s : List UInt8) : (s ++ rest).dropWhile p = s.dropWhile p ++ rest := by
  induction s with
  | nil =>
    cases rest with
    | nil => rfl
    | cons c rest => exact List.dropWhile_cons_of_neg (by rw [hrest c rfl]; exact Bool.false_ne_true)
  | cons c s ih =>
    by_cases hc : p c = true
    · rw [List.cons_append, List.dropWhile_cons_of_pos hc, List.dropWhile_cons_of_pos hc, ih]
    · rw [List.cons_append, List.dropWhile_cons_of_neg hc, List.dropWhile_cons_of_neg hc, List.cons_append]

theorem dropWhile_append_head {p : UInt8 → Bool} {body rest : List UInt8} (hbody : ∀ c ∈ body, p c = true)
    (hrest : ∀ c ∈ rest.head?, p c = false) : (body ++ rest).dropWhile p = rest := by
  rw [dropWhile_append_stop hrest, List.dropWhile_eq_nil_iff.mpr hbody, List.nil_append]

/-- **The digits add up**, modulo the width of the accumulator. -/
theorem digitsLoop_append {w b : Nat} {digit : UInt8 → Option Nat} {shift : BitVec w → BitVec w} {rest : List UInt8}
    (hshift : ∀ n, shift (BitVec.ofNat w n) = BitVec.ofNat w (b * n)) (hrest : ∀ c ∈ rest.head?, digit c = none)
    {ds : List UInt8} (hds : ∀ c ∈ ds, (digit c).isSome = true) (a : Nat) :
    digitsLoop digit shift (ds ++ rest) (BitVec.ofNat w a) =
      BitVec.ofNat w (ds.foldl (fun n c => b * n + (digit c).getD 0) a) := by
  induction ds generalizing a with
  | nil =>
    cases rest with
    | nil => rfl
    | cons c rest =>
      rw [List.nil_append, digitsLoop, hrest c rfl]
      rfl
  | cons c ds ih =>
    obtain ⟨d, hd⟩ := Option.isSome_iff_exists.mp (hds c List.mem_cons_self)
    rw [List.cons_append, digitsLoop, hd]
    dsimp only
    rw [hshift, ← BitVec.ofNat_add, ih fun c' hc' => hds c' (List.mem_cons_of_mem c hc'), List.foldl_cons, hd]
    rfl

/-- Zeros in front count nothing. -/
theorem foldl_dropWhile_zero {b : Nat} {digit : UInt8 → Option Nat} (hzero : digit 48 = some 0) (ds : List UInt8) :
    (ds.dropWhile (· = 48)).foldl (fun n c => b * n + (digit c).getD 0) 0 =
      ds.foldl (fun n c => b * n + (digit c).getD 0) 0 := by
  induction ds with
  | nil => rfl
  | cons c ds ih =>
    by_cases hc : c = 48
    · subst hc
      rw [List.dropWhile_cons_of_pos (by decide), ih, List.foldl_cons, hzero]
      rfl
    · rw [List.dropWhile_cons_of_neg (by simpa using hc)]

/-! ### Digits are no blanks, signs or letters -/

theorem digit10_isSome (c : UInt8) : (digit10 c).isSome = isDigit c := by
  rw [digit10]
  cases isDigit c <;> rfl

namespace Radix

theorem digit_zero (r : Radix) : r.digit 48 = some 0 := by
  cases r <;> rfl

end Radix

/-- A decimal digit is neither white space nor a sign, and no letter of a prefix. -/
theorem of_isDigit : ∀ c : UInt8, isDigit c = true →
    (isSpace c = false ∧ c ≠ 45 ∧ c ≠ 43) ∧ isLetterX c = false ∧ isLetterB c = false :=
  forall_uint8.mpr (by decide +kernel)

/-! ### Reading a numeral -/

/-- Where there is no sign, the text behind the white space begins with neither white space nor a sign. -/
theorem body_head (n : Numeral) (hsign : n.sign = none) :
    ∀ c ∈ n.body.head?, isSpace c = false ∧ c ≠ 45 ∧ c ≠ 43 := by
  have hprefix : ∀ c : UInt8, c = 48 → isSpace c = false ∧ c ≠ 45 ∧ c ≠ 43 := by
    rintro c rfl
    decide
  rw [Numeral.body]
  rcases hr : n.radix with u | _ | u
  · exact fun c hc => hprefix c (Option.some_inj.mp hc).symm
  · rcases hd : n.digits with _ | ⟨d, ds⟩
    · exact n.rest_bare hr hsign hd
    · intro c hc
      obtain rfl : d = c := Option.some_inj.mp hc
      have hdigit := n.digit_of_mem d (by rw [hd]; exact List.mem_cons_self)
      rw [hr, Radix.digit, digit10_isSome] at hdigit
      exact (of_isDigit d hdigit).1
  · exact fun c hc => hprefix c (Option.some_inj.mp hc).symm

/-- **White space and sign** are taken. -/
theorem readSign_text (n : Numeral) :
    readSign (n.text.dropWhile isSpace) = (decide (n.sign = some .minus), n.body) := by
  rcases hsign : n.sign with _ | _ | _
  · have hhead := body_head n hsign
    have hskip : n.text.dropWhile isSpace = n.body := by
      rw [Numeral.text, hsign, Numeral.signText, List.append_nil]
      exact dropWhile_append_head n.isSpace_of_mem fun c hc => (hhead c hc).1
    rw [hskip]
    rcases hb : n.body with _ | ⟨c, s⟩
    · rfl
    · obtain ⟨-, h45, h43⟩ := hhead c (by rw [hb]; rfl)
      rw [readSign, if_neg h45, if_neg h43]
      rfl
  · have hskip : n.text.dropWhile isSpace = 43 :: n.body := by
      rw [Numeral.text, hsign, Numeral.signText, List.append_assoc]
      refine dropWhile_append_head n.isSpace_of_mem fun c hc => ?_
      obtain rfl : 43 = c := Option.some_inj.mp hc
      decide
    rw [hskip]
    rfl
  · have hskip : n.text.dropWhile isSpace = 45 :: n.body := by
      rw [Numeral.text, hsign, Numeral.signText, List.append_assoc]
      refine dropWhile_append_head n.isSpace_of_mem fun c hc => ?_
      obtain rfl : 45 = c := Option.some_inj.mp hc
      decide
    rw [hskip]
    rfl

/-- A parser without a prefix. -/
theorem skipPrefix_none (s : List UInt8) : skipPrefix (fun _ => false) s = s := by
  rw [skipPrefix.eq_def]
  split <;> rfl

/-- **The scheme reads a numeral** whose prefix it takes, in the width of its accumulator. -/
theorem sToU64_text {w : Nat} (n : Numeral) {letter : UInt8 → Bool} {shift : BitVec w → BitVec w}
    (hshift : ∀ m, shift (BitVec.ofNat w m) = BitVec.ofNat w (n.radix.base * m))
    (hlead : skipPrefix letter n.body = n.digits ++ n.rest) :
    sToU64 letter n.radix.digit shift n.text = (BitVec.ofInt w n.signed).setWidth 64 := by
  have hzeros : (n.digits ++ n.rest).dropWhile (· = 48) = n.digits.dropWhile (· = 48) ++ n.rest := by
    refine dropWhile_append_stop (fun c hc => ?_) n.digits
    refine decide_eq_false fun h48 => ?_
    have hnone := n.rest_digit c hc
    rw [h48, n.radix.digit_zero] at hnone
    cases hnone
  have hval : digitsLoop n.radix.digit shift ((n.digits ++ n.rest).dropWhile (· = 48)) 0 =
      BitVec.ofNat w (n.radix.value n.digits) := by
    rw [hzeros, Radix.value, ← foldl_dropWhile_zero n.radix.digit_zero]
    exact digitsLoop_append hshift n.rest_digit
      (fun c hc => n.digit_of_mem c ((List.dropWhile_sublist _).subset hc)) 0
  rw [sToU64, readSign_text]
  dsimp only
  rw [hlead, hval, Numeral.signed]
  by_cases hminus : n.sign = some .minus
  · have hneg (v : BitVec w) : ~~~v + 1 = -v := (BitVec.neg_eq_not_add v).symm
    rw [if_pos (decide_eq_true hminus), if_pos hminus, hneg, BitVec.ofInt_neg, BitVec.ofInt_natCast]
  · rw [if_neg (by simpa using hminus), if_neg hminus, BitVec.ofInt_natCast]

/-- The same number in 32 and in 64 bits. -/
theorem setWidth_ofInt_iff (z : Int) :
    (BitVec.ofInt 32 z).setWidth 64 = BitVec.ofInt 64 z ↔ (BitVec.ofInt 64 z).toNat < 2 ^ 32 := by
  rw [← BitVec.toNat_inj, BitVec.toNat_setWidth, BitVec.toNat_ofInt, BitVec.toNat_ofInt]
  omega

/-- A prefix is taken by its own parser. -/
theorem skipPrefix_body (n : Numeral) : skipPrefix (match n.radix with
    | .bin _ => isLetterB
    | .dec => fun _ => false
    | .hex _ => isLetterX) n.body = n.digits ++ n.rest := by
  rw [Numeral.body]
  rcases n.radix with u | _ | u
  · cases u <;> rfl
  · exact skipPrefix_none _
  · cases u <;> rfl

/-- Decimal digits do not begin like a prefix. -/
theorem letters_of_dec (n : Numeral) (hr : n.radix = .dec) {c : UInt8} {s : List UInt8} (hb : n.body = 48 :: c :: s) :
    isLetterX c = false ∧ isLetterB c = false := by
  rw [Numeral.body, hr, Radix.lead, List.nil_append] at hb
  rcases hd : n.digits with _ | ⟨d, ds⟩
  · rw [hd, List.nil_append] at hb
    have hnone := n.rest_digit 48 (by rw [hb]; rfl)
    rw [n.radix.digit_zero] at hnone
    cases hnone
  · rw [hd, List.cons_append] at hb
    obtain ⟨rfl, hds⟩ := List.cons.inj hb
    rcases ds with _ | ⟨d', ds⟩
    · exact n.rest_lead hr hd c (by rw [show n.rest = c :: s from hds]; rfl)
    · obtain ⟨rfl, -⟩ := List.cons.inj hds
      have hdigit := n.digit_of_mem d' (by rw [hd]; exact List.mem_cons_of_mem _ List.mem_cons_self)
      rw [hr, Radix.digit, digit10_isSome] at hdigit
      exact (of_isDigit d' hdigit).2

/-- **The parser of a numeral** is the one of its base. -/
theorem str2u64_text (n : Numeral) : str2u64 n.text = (0, match n.radix with
    | .bin _ => s2ToU64 n.text
    | .dec => s10ToU64 n.text
    | .hex _ => s16ToU64 n.text) := by
  rw [str2u64, readSign_text]
  dsimp only
  rcases hr : n.radix with u | _ | u
  · rw [Numeral.body, hr]
    cases u <;> rfl
  · split
    · next c s hb =>
      obtain ⟨hx, hb'⟩ := letters_of_dec n hr hb
      rw [hx, hb']
      rfl
    · rfl
  · rw [Numeral.body, hr]
    cases u <;> rfl

/-- A shift to the left multiplies. -/
theorem shiftLeft_ofNat (w k m : Nat) : (BitVec.ofNat w m) <<< k = BitVec.ofNat w (2 ^ k * m) := by
  refine BitVec.eq_of_toNat_eq ?_
  rw [BitVec.toNat_shiftLeft, BitVec.toNat_ofNat, BitVec.toNat_ofNat, Nat.shiftLeft_eq, Nat.mod_mul_mod, Nat.mul_comm]

/-- **The parsers**: a numeral is read modulo 2^64 if and only if, in base 2, what it is to give fits 32 bits. -/
theorem str2u64_iff (n : Numeral) :
    str2u64 n.text = (0, n.number) ↔ (n.radix.base = 2 → n.number.toNat < 2 ^ 32) := by
  have hlead := skipPrefix_body n
  rw [str2u64_text, Prod.mk.injEq, and_iff_right rfl]
  rcases hr : n.radix with u | _ | u <;> rw [hr] at hlead
  · have hval : s2ToU64 n.text = (BitVec.ofInt 32 n.signed).setWidth 64 := by
      have hdigit : n.radix.digit = digit2 := by rw [hr]; rfl
      rw [s2ToU64, ← hdigit]
      exact sToU64_text n (fun m => by rw [hr]; exact shiftLeft_ofNat 32 1 m) hlead
    rw [imp_iff_right (show (Radix.bin u).base = 2 from rfl), Numeral.number, ← setWidth_ofInt_iff, ← hval]
  · have hval : s10ToU64 n.text = (BitVec.ofInt 64 n.signed).setWidth 64 := by
      have hdigit : n.radix.digit = digit10 := by rw [hr]; rfl
      rw [s10ToU64, ← hdigit]
      refine sToU64_text n (fun m => ?_) hlead
      rw [hr, BitVec.mul_comm]
      exact (BitVec.ofNat_mul ..).symm
    exact iff_of_true (hval.trans (BitVec.setWidth_eq _)) fun h => absurd h (by decide)
  · have hval : s16ToU64 n.text = (BitVec.ofInt 64 n.signed).setWidth 64 := by
      have hdigit : n.radix.digit = digit16 := by rw [hr]; rfl
      rw [s16ToU64, ← hdigit]
      exact sToU64_text n (fun m => by rw [hr]; exact shiftLeft_ofNat 64 4 m) hlead
    exact iff_of_true (hval.trans (BitVec.setWidth_eq _)) fun h => absurd h (show (16 : Nat) ≠ 2 by decide)

/-! ### Every string is a numeral -/

theorem head_dropWhile (p : UInt8 → Bool) (s : List UInt8) : ∀ c ∈ (s.dropWhile p).head?, p c = false := by
  induction s with
  | nil => exact fun c hc => by cases hc
  | cons d s ih =>
    by_cases hd : p d = true
    · rw [List.dropWhile_cons_of_pos hd]
      exact ih
    · rw [List.dropWhile_cons_of_neg hd]
      intro c hc
      obtain rfl : d = c := Option.some_inj.mp hc
      exact Bool.not_eq_true _ ▸ hd

/-- The digits of a base, as far as they go. -/
theorem exists_digits (r : Radix) (s : List UInt8) : ∃ ds rest, ds ++ rest = s ∧
    (∀ c ∈ ds, (r.digit c).isSome = true) ∧ ∀ c ∈ rest.head?, r.digit c = none := by
  refine ⟨s.takeWhile fun c => (r.digit c).isSome, s.dropWhile fun c => (r.digit c).isSome,
    List.takeWhile_append_dropWhile, fun c hc => ?_, fun c hc => ?_⟩
  · exact List.mem_takeWhile_imp (p := fun c => (r.digit c).isSome) hc
  · exact Option.not_isSome_iff_eq_none.mp (Bool.not_eq_true _ ▸ head_dropWhile _ s c hc)

/-- The letters of the prefixes. -/
theorem exists_lead {c : UInt8} (h : isLetterX c = true ∨ isLetterB c = true) :
    ∃ r, r ≠ .dec ∧ Radix.lead r = [48, c] := by
  simp only [isLetterX, isLetterB, decide_eq_true_eq] at h
  rcases h with (rfl | rfl) | rfl | rfl
  · exact ⟨.hex false, by decide, rfl⟩
  · exact ⟨.hex true, by decide, rfl⟩
  · exact ⟨.bin false, by decide, rfl⟩
  · exact ⟨.bin true, by decide, rfl⟩

/-- What stands behind a sign. -/
theorem exists_body (b : List UInt8) : ∃ (r : Radix) (ds rest : List UInt8), r.lead ++ ds ++ rest = b ∧
    (∀ c ∈ ds, (r.digit c).isSome = true) ∧ (∀ c ∈ rest.head?, r.digit c = none) ∧
    (r = .dec → ds = [48] → ∀ c ∈ rest.head?, isLetterX c = false ∧ isLetterB c = false) := by
  by_cases hlead : ∃ r u, r ≠ .dec ∧ b = Radix.lead r ++ u
  · obtain ⟨r, u, hr, rfl⟩ := hlead
    obtain ⟨ds, rest, rfl, hds, hrest⟩ := exists_digits r u
    exact ⟨r, ds, rest, List.append_assoc .., hds, hrest, fun h => absurd h hr⟩
  · obtain ⟨ds, rest, rfl, hds, hrest⟩ := exists_digits .dec b
    refine ⟨.dec, ds, rest, rfl, hds, hrest, fun _ hd c hc => ?_⟩
    obtain ⟨u, rfl⟩ : ∃ u, rest = c :: u := ⟨_, List.eq_cons_of_mem_head? hc⟩
    -- a letter would make it a prefix
    have hno : ¬ ∃ r, r ≠ .dec ∧ Radix.lead r = [48, c] := by
      rintro ⟨r, hr, hrc⟩
      exact hlead ⟨r, u, hr, by rw [hd, hrc]; rfl⟩
    constructor
    · exact Bool.eq_false_iff.mpr fun hx => hno (exists_lead (Or.inl hx))
    · exact Bool.eq_false_iff.mpr fun hb => hno (exists_lead (Or.inr hb))

/-- **Every string** is the text of a numeral. -/
theorem exists_numeral (s : List UInt8) : ∃ n : Numeral, n.text = s := by
  have hblanks : ∀ c ∈ s.takeWhile isSpace, isSpace c = true := fun c hc => List.mem_takeWhile_imp hc
  have hhead := head_dropWhile isSpace s
  obtain ⟨t, ht⟩ : ∃ t, s.dropWhile isSpace = t := ⟨_, rfl⟩
  have hs : s.takeWhile isSpace ++ t = s := by rw [← ht, List.takeWhile_append_dropWhile]
  rw [ht] at hhead
  by_cases hsign : ∃ sign u, t = Numeral.signText (some sign) ++ u
  · obtain ⟨sign, u, rfl⟩ := hsign
    obtain ⟨r, ds, rest, rfl, hds, hrest, hlead⟩ := exists_body u
    refine ⟨⟨s.takeWhile isSpace, some sign, r, ds, rest, hblanks, hds, hrest, fun _ h => (by cases h), hlead⟩, ?_⟩
    rw [Numeral.text, Numeral.body, List.append_assoc, hs]
  · obtain ⟨r, ds, rest, hbody, hds, hrest, hlead⟩ := exists_body t
    refine ⟨⟨s.takeWhile isSpace, none, r, ds, rest, hblanks, hds, hrest, fun hr _ hd c hc => ?_, hlead⟩, ?_⟩
    · rw [hr, hd, Radix.lead, List.nil_append, List.nil_append] at hbody
      rw [hbody] at hc
      obtain ⟨u, hu⟩ : ∃ u, t = c :: u := ⟨_, List.eq_cons_of_mem_head? hc⟩
      refine ⟨hhead c hc, ?_, ?_⟩
      · rintro rfl
        exact hsign ⟨.minus, u, hu⟩
      · rintro rfl
        exact hsign ⟨.plus, u, hu⟩
    · have htext : s.takeWhile isSpace ++ [] ++ (r.lead ++ ds ++ rest) = s := by rw [hbody, List.append_nil, hs]
      exact htext

/-- `-0b1` gives 2^32 - 1. -/
theorem not_str2u64_minus : ∃ n : Numeral, n.text = [45, 48, 98, 49] ∧ n.signed = -1 ∧
    str2u64 n.text = (0, 4294967295) ∧ str2u64 n.text ≠ (0, n.number) := by
  refine ⟨⟨[], some .minus, .bin false, [49], [], fun c hc => absurd hc List.not_mem_nil,
    List.forall_mem_singleton.mpr rfl, fun c hc => absurd hc (Option.not_mem_none c), Radix.noConfusion,
    Radix.noConfusion⟩, rfl, rfl, ?_, ?_⟩
  · decide
  · decide

end Wow.Utils.TypeParse
