import Mathlib.Data.Nat.Digits.Defs
import Mathlib.Data.Nat.Digits.Lemmas
import Wow.Lib.CNum

/-!
# Wow.Lib.Decimal — decimal numbers as text

The conversion `%08d` of the `printf` family and `atoi`, as the C library documents them.

* `atoi_fmt08d`: a number of at most eight digits is read back.
-/

namespace Wow

namespace Decimal

/-- The decimal digits of a number, the first one in front; those of 0 are none. -/
def digits (n : Nat) : List UInt8 := ((Nat.digits 10 n).map fun d => UInt8.ofNat (48 + d)).reverse

/-- `%08d`. -/
def fmt08d (n : Int) : List UInt8 :=
  let ds := digits n.natAbs
  if n < 0 then 45 :: (List.replicate (7 - ds.length) 48 ++ ds) else List.replicate (8 - ds.length) 48 ++ ds

def isDigit (c : UInt8) : Bool := 48 ≤ c ∧ c ≤ 57

def isSpace (c : UInt8) : Bool := c = 32 ∨ 9 ≤ c ∧ c ≤ 13

/-- The number that a text of digits begins with. -/
def value (s : List UInt8) : Nat := (s.takeWhile isDigit).foldl (fun n c => 10 * n + (c.toNat - 48)) 0

/-- `atoi`. -/
def atoi (s : List UInt8) : Int :=
  match s.dropWhile isSpace with
  | 45 :: s => asInt (-(value s : Int))
  | 43 :: s => asInt (value s)
  | s => asInt (value s)

/-! ### There and back -/

theorem isDigit_digit {d : Nat} (h : d < 10) : isDigit (UInt8.ofNat (48 + d)) = true := by
  revert d
  decide

theorem isDigit_of_mem_digits {n : Nat} {c : UInt8} (h : c ∈ digits n) : isDigit c = true := by
  obtain ⟨d, hd, rfl⟩ := List.mem_map.mp (List.mem_reverse.mp h)
  exact isDigit_digit (Nat.digits_lt_base (by omega) hd)

/-- **The digits add up** to their number. -/
theorem foldl_digits (n : Nat) : (digits n).foldl (fun n c => 10 * n + (c.toNat - 48)) 0 = n := by
  have hfold : ∀ ds : List Nat, (∀ d ∈ ds, d < 10) →
      ((ds.map fun d => UInt8.ofNat (48 + d)).reverse).foldl (fun n c => 10 * n + (c.toNat - 48)) 0 =
        Nat.ofDigits 10 ds := by
    intro ds hds
    rw [List.foldl_reverse]
    induction ds with
    | nil => rfl
    | cons d ds ih =>
      have hd : (UInt8.ofNat (48 + d)).toNat = 48 + d :=
        Nat.mod_eq_of_lt (show 48 + d < 256 by have := hds d (List.mem_cons_self ..); omega)
      rw [List.map_cons, List.foldr_cons, ih fun d' h => hds d' (List.mem_cons_of_mem _ h), Nat.ofDigits_cons, hd]
      omega
  rw [digits, hfold _ fun d hd => Nat.digits_lt_base (by omega) hd, Nat.ofDigits_digits]

theorem length_digits_le {n k : Nat} (h : n < 10 ^ k) : (digits n).length ≤ k := by
  rw [digits, List.length_reverse, List.length_map]
  exact (Nat.digits_length_le_iff (by omega) n).mpr h

theorem fmt08d_natCast (n : Nat) : fmt08d n = List.replicate (8 - (digits n).length) 48 ++ digits n := by
  rw [fmt08d, Int.natAbs_natCast]
  exact if_neg (by omega)

theorem length_fmt08d {n : Nat} (h : n < 10 ^ 8) : (fmt08d n).length = 8 := by
  have hle := length_digits_le h
  rw [fmt08d_natCast, List.length_append, List.length_replicate]
  omega

theorem isDigit_of_mem_fmt08d {n : Nat} {c : UInt8} (h : c ∈ fmt08d n) : isDigit c = true := by
  rw [fmt08d_natCast] at h
  rcases List.mem_append.mp h with hzero | hdigit
  · rw [List.eq_of_mem_replicate hzero]
    rfl
  · exact isDigit_of_mem_digits hdigit

/-- What begins with a digit has neither blanks nor a sign. -/
theorem atoi_cons {c : UInt8} {s : List UInt8} (h : isDigit c = true) : atoi (c :: s) = asInt (value (c :: s)) := by
  have hspace : ¬ isSpace c = true := by
    intro hspace
    simp only [isDigit, isSpace, decide_eq_true_eq] at h hspace
    rcases hspace with rfl | ⟨-, hle⟩
    · exact absurd h.1 (by decide)
    · exact absurd (UInt8.le_trans h.1 hle) (by decide)
  rw [atoi, List.dropWhile_cons_of_neg hspace]
  split
  · next heq => cases (List.cons.inj heq).1 ▸ h
  · next heq => cases (List.cons.inj heq).1 ▸ h
  · rfl

theorem takeWhile_digits {ds rest : List UInt8} (h : ∀ c ∈ ds, isDigit c = true) :
    (ds ++ 10 :: rest).takeWhile isDigit = ds := by
  rw [List.takeWhile_append_of_pos h, List.takeWhile_cons_of_neg (by decide), List.append_nil]

/-- **A number of at most eight digits is read back**, in front of a line feed. -/
theorem atoi_fmt08d {n : Nat} (h : n < 10 ^ 8) (rest : List UInt8) : atoi (fmt08d n ++ 10 :: rest) = n := by
  have hvalue : value (fmt08d n ++ 10 :: rest) = n := by
    rw [value, takeWhile_digits fun c => isDigit_of_mem_fmt08d, fmt08d_natCast, List.foldl_append]
    have hzeros : ∀ k, (List.replicate k (48 : UInt8)).foldl (fun n c => 10 * n + (c.toNat - 48)) 0 = 0 := by
      intro k
      induction k with
      | zero => rfl
      | succ k ih => rw [List.replicate_succ, List.foldl_cons]; exact ih
    rw [hzeros, foldl_digits]
  obtain ⟨c, s, hcons⟩ := List.exists_cons_of_length_eq_add_one (length_fmt08d h)
  have hdigit : isDigit c = true := isDigit_of_mem_fmt08d (by rw [hcons]; exact List.mem_cons_self ..)
  rw [hcons, List.cons_append] at hvalue ⊢
  rw [atoi_cons hdigit, hvalue]
  exact asInt_of_lt (by omega) (by omega)

end Decimal

end Wow
