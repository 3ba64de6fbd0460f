import Mathlib.Algebra.Order.Ring.Nat
import Mathlib.Data.List.Lex
import Mathlib.Data.List.TakeWhile
import Mathlib.Order.Basic

/-!
# Wow.Base.CString — C strings and `strcmp`

A C string is what stands before the terminator: bytes, none of them zero.  `strcmp` compares two of them byte by
byte as unsigned characters; `strcmp_neg_iff` says that this is the order of the strings as lists.  `strncmp` compares
beginnings (`strncmp_eq_zero_iff`), `strstr` searches one string in another (`strstr_eq_some_iff`).
-/

namespace Wow

/-- The bytes of a string, without its terminator. -/
@[ext] structure CStr where
  chars : List UInt8
  noNul : 0 ∉ chars

def strlen (q : List UInt8) : Nat := (q.takeWhile (· ≠ 0)).length

theorem strlen_append {q : List UInt8} (hq : 0 ∉ q) : strlen (q ++ [0]) = q.length := by
  have hne : ∀ b ∈ q, decide (b ≠ 0) = true := fun b hb => decide_eq_true fun h => hq (h ▸ hb)
  rw [strlen, List.takeWhile_append_of_pos hne]
  simp

/-- `strcmp`: the difference of the first bytes that differ, a terminator being zero. -/
def strcmp : List UInt8 → List UInt8 → Int
  | [], [] => 0
  | [], b :: _ => -(b.toNat : Int)
  | a :: _, [] => a.toNat
  | a :: s, b :: t => if a = b then strcmp s t else (a.toNat : Int) - b.toNat

namespace CStr

/-- The bytes as numbers. -/
def codes (s : CStr) : List Nat := s.chars.map UInt8.toNat

theorem codes_injective : Function.Injective codes := by
  intro s t h
  exact CStr.ext (List.map_injective_iff.mpr (fun a b hab => UInt8.toNat_inj.mp hab) h)

/-- The order of the strings. -/
instance : LinearOrder CStr := LinearOrder.lift' codes codes_injective

end CStr

theorem toNat_pos {b : UInt8} (hb : 0 ≠ b) : 0 < b.toNat :=
  Nat.pos_of_ne_zero fun h => hb (UInt8.toNat_inj.mp h.symm)

/-- **The sign of `strcmp`** is the order of the strings. -/
theorem strcmp_neg_iff_aux {s t : List UInt8} (hs : 0 ∉ s) (ht : 0 ∉ t) :
    (strcmp s t < 0 ↔ s.map UInt8.toNat < t.map UInt8.toNat) ∧
      (0 < strcmp s t ↔ t.map UInt8.toNat < s.map UInt8.toNat) := by
  induction s generalizing t with
  | nil =>
    cases t with
    | nil => simp [strcmp]
    | cons b t =>
      have hb := toNat_pos fun h : 0 = b => ht (h ▸ List.mem_cons_self)
      simp [strcmp]
      omega
  | cons a s ih =>
    have ha := toNat_pos fun h : 0 = a => hs (h ▸ List.mem_cons_self)
    cases t with
    | nil =>
      simp [strcmp]
      omega
    | cons b t =>
      have hs' : 0 ∉ s := fun h => hs (List.mem_cons_of_mem a h)
      have ht' : 0 ∉ t := fun h => ht (List.mem_cons_of_mem b h)
      rw [strcmp, List.map_cons, List.map_cons, List.cons_lt_cons_iff, List.cons_lt_cons_iff]
      by_cases hab : a = b
      · subst hab
        simpa using ih hs' ht'
      · have hne : a.toNat ≠ b.toNat := fun h => hab (UInt8.toNat_inj.mp h)
        rw [if_neg hab]
        constructor <;> constructor <;> intro h <;> omega

theorem strcmp_neg_iff {s t : CStr} : strcmp s.chars t.chars < 0 ↔ s < t :=
  (strcmp_neg_iff_aux s.noNul t.noNul).1

theorem strcmp_pos_iff {s t : CStr} : 0 < strcmp s.chars t.chars ↔ t < s :=
  (strcmp_neg_iff_aux s.noNul t.noNul).2

/-- The string at the start of a buffer, if it is terminated there. -/
def cstr (bytes : List UInt8) : Option CStr :=
  if 0 ∈ bytes then some ⟨bytes.takeWhile (· ≠ 0), fun h => by simpa using List.mem_takeWhile_imp h⟩ else none

/-- A string with its terminator. -/
def CStr.bytes (s : CStr) : List UInt8 := s.chars ++ [0]

/-- The string in front of a terminator. -/
theorem cstr_append (s : CStr) (rest : List UInt8) : cstr (s.chars ++ 0 :: rest) = some s := by
  have hs : ∀ b ∈ s.chars, decide (b ≠ 0) = true := fun b hb => decide_eq_true fun h => s.noNul (h ▸ hb)
  rw [cstr, if_pos (by simp)]
  refine congrArg some (CStr.ext ?_)
  change (s.chars ++ 0 :: rest).takeWhile (fun b => decide (b ≠ 0)) = s.chars
  rw [List.takeWhile_append_of_pos hs]
  simp

@[simp] theorem cstr_bytes (s : CStr) : cstr s.bytes = some s := cstr_append s []

/-- A terminated buffer is its string, the terminator and what follows. -/
theorem exists_of_cstr {bytes : List UInt8} {s : CStr} (h : cstr bytes = some s) :
    ∃ rest, bytes = s.chars ++ 0 :: rest := by
  have hmem : 0 ∈ bytes := by
    by_contra hmem
    rw [cstr, if_neg hmem] at h
    cases h
  obtain ⟨l, rest, rfl, hl⟩ := List.eq_append_cons_of_mem hmem
  obtain rfl : (⟨l, hl⟩ : CStr) = s := Option.some_inj.mp ((cstr_append ⟨l, hl⟩ rest).symm.trans h)
  exact ⟨rest, rfl⟩

/-! ### Beginnings and searches -/

/-- `strncmp`: of each string no more than `n` bytes are compared. -/
def strncmp (s t : List UInt8) (n : Nat) : Int := strcmp (s.take n) (t.take n)

/-- `strstr`, with the place of the occurrence. -/
def strstr (s p : List UInt8) : Option Nat := (List.range (s.length + 1)).find? fun i => p.isPrefixOf (s.drop i)

theorem strcmp_eq_zero_iff {s t : List UInt8} (hs : 0 ∉ s) (ht : 0 ∉ t) : strcmp s t = 0 ↔ s = t := by
  obtain ⟨hneg, hpos⟩ := strcmp_neg_iff_aux hs ht
  constructor
  · intro h
    have hle : ¬ s.map UInt8.toNat < t.map UInt8.toNat := fun hlt => by have := hneg.mpr hlt; omega
    have hge : ¬ t.map UInt8.toNat < s.map UInt8.toNat := fun hlt => by have := hpos.mpr hlt; omega
    exact List.map_injective_iff.mpr (fun a b hab => UInt8.toNat_inj.mp hab)
      (le_antisymm (not_lt.mp hge) (not_lt.mp hle))
  · rintro rfl
    have hneg' : ¬ strcmp s s < 0 := fun h => lt_irrefl _ (hneg.mp h)
    have hpos' : ¬ 0 < strcmp s s := fun h => lt_irrefl _ (hpos.mp h)
    omega

/-- **A comparison over the length of the second string** tells whether the first begins with it. -/
theorem strncmp_eq_zero_iff {s t : List UInt8} (hs : 0 ∉ s) (ht : 0 ∉ t) : strncmp s t t.length = 0 ↔ t <+: s := by
  rw [strncmp, List.take_length, strcmp_eq_zero_iff (fun h => hs (List.mem_of_mem_take h)) ht, List.prefix_iff_eq_take]
  exact eq_comm

/-- **The first occurrence** of a string in another. -/
theorem strstr_eq_some_iff {s p : List UInt8} {i : Nat} :
    strstr s p = some i ↔ i ≤ s.length ∧ p <+: s.drop i ∧ ∀ j < i, ¬ p <+: s.drop j := by
  rw [strstr, List.find?_range_eq_some, List.mem_range, Nat.lt_succ_iff, List.isPrefixOf_iff_prefix]
  constructor
  · rintro ⟨hp, hi, hj⟩
    refine ⟨hi, hp, fun j hlt hpre => ?_⟩
    have := hj j hlt
    rw [Bool.not_eq_true', ← Bool.not_eq_true, List.isPrefixOf_iff_prefix] at this
    exact this hpre
  · rintro ⟨hi, hp, hj⟩
    refine ⟨hp, hi, fun j hlt => ?_⟩
    rw [Bool.not_eq_true', ← Bool.not_eq_true, List.isPrefixOf_iff_prefix]
    exact hj j hlt

theorem strstr_eq_none_iff {s p : List UInt8} : strstr s p = none ↔ ¬ p <:+: s := by
  rw [strstr, List.find?_eq_none]
  constructor
  · rintro h ⟨a, b, rfl⟩
    refine h a.length (List.mem_range.mpr ?_) (List.isPrefixOf_iff_prefix.mpr ?_)
    · simp only [List.length_append]
      omega
    · rw [List.append_assoc, List.drop_left]
      exact List.prefix_append p b
  · intro h i _ hp
    exact h ((List.isPrefixOf_iff_prefix.mp hp).isInfix.trans (List.drop_suffix i s).isInfix)

end Wow
