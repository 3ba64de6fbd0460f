import Wow.Base.CString
import Wow.Lib.Block
import Wow.Lib.Decimal

/-!
# Wow.Lib.Printf — decimal conversions of the `printf` and `scanf` families

`intText` is what `%d` and the like print, `scan` what they read, `snprintf` the write of a text to a buffer with a limit.

* `scan_intText`: **there and back**.
* `length_intText_lt_iff`: the numbers whose text fits a size.
* `exists_snprintf`: the string that the buffer holds afterwards.
-/

namespace Wow

namespace Printf

open Block Decimal

/-- A number without a sign. -/
def natText (n : Nat) : List UInt8 := if n = 0 then [48] else digits n

/-- A number with its sign. -/
def intText (n : Int) : List UInt8 := if n < 0 then 45 :: natText n.natAbs else natText n.natAbs

/-- The digits at the start of a text, where there is one. -/
def scanNat (s : List UInt8) : Option Nat := if s.takeWhile isDigit = [] then none else some (value s)

/-- The number behind white space and a sign. -/
def scan (s : List UInt8) : Option Int :=
  match s.dropWhile isSpace with
  | 45 :: s => (scanNat s).map fun n : Nat => -(n : Int)
  | 43 :: s => (scanNat s).map fun n : Nat => (n : Int)
  | s => (scanNat s).map fun n : Nat => (n : Int)

/-- `snprintf`, with the text that the format gives. -/
def snprintf (buf : List UInt8) (n : Nat) (text : List UInt8) : Option (List UInt8) :=
  if n = 0 then some buf else store buf 0 (text.take (n - 1) ++ [0])

/-! ### Texts -/

theorem isDigit_of_mem_natText {n : Nat} {c : UInt8} (h : c ∈ natText n) : isDigit c = true := by
  rw [natText] at h
  split at h
  · rw [List.mem_singleton.mp h]
    rfl
  · exact isDigit_of_mem_digits h

theorem natText_ne_nil (n : Nat) : natText n ≠ [] := by
  rw [natText]
  split
  · exact List.cons_ne_nil _ _
  · next hne =>
    intro hnil
    have hlen := (Nat.digits_length_le_iff (by omega : 1 < 10) (k := 0) n).mp (by
      rw [← List.length_map (f := fun d => UInt8.ofNat (48 + d)), ← List.length_reverse]
      exact (congrArg List.length hnil).le)
    omega

/-- **The size of a text.** -/
theorem length_natText_le_iff {n k : Nat} (hk : 0 < k) : (natText n).length ≤ k ↔ n < 10 ^ k := by
  rw [natText]
  split
  · next hzero =>
    rw [hzero, List.length_singleton]
    exact iff_of_true hk (Nat.pow_pos (by decide))
  · rw [digits, List.length_reverse, List.length_map]
    exact Nat.digits_length_le_iff (by omega) n

/-- **The numbers whose text fits** a size, with the terminator. -/
theorem length_intText_lt_iff {n : Int} {k : Nat} : (intText n).length < k + 2 + 1 ↔ -10 ^ (k + 1) < n ∧
    n < 10 ^ (k + 2) := by
  have hpow : (0 : Int) < 10 ^ (k + 2) := Int.pow_pos (by decide)
  have hpow' : (0 : Int) < 10 ^ (k + 1) := Int.pow_pos (by decide)
  rw [intText]
  split
  · next hneg =>
    rw [List.length_cons, Nat.succ_lt_succ_iff, Nat.lt_succ_iff, length_natText_le_iff (Nat.succ_pos k)]
    have hcast : (((10 ^ (k + 1) : Nat)) : Int) = 10 ^ (k + 1) := by push_cast; rfl
    omega
  · next hneg =>
    rw [Nat.lt_succ_iff, length_natText_le_iff (by omega)]
    have hcast : (((10 ^ (k + 2) : Nat)) : Int) = 10 ^ (k + 2) := by push_cast; rfl
    omega

/-! ### There and back -/

theorem scanNat_natText (n : Nat) : scanNat (natText n) = some n := by
  have htake : (natText n).takeWhile isDigit = natText n :=
    List.takeWhile_eq_self_iff.mpr fun c hc => isDigit_of_mem_natText hc
  have hvalue : value (natText n) = n := by
    rw [value, htake, natText]
    split
    · next hzero =>
      rw [hzero]
      rfl
    · exact foldl_digits n
  rw [scanNat, htake, if_neg (natText_ne_nil n), hvalue]

/-- What begins with a digit has neither blanks nor a sign. -/
theorem scan_of_digit {c : UInt8} {s : List UInt8} (h : isDigit c = true) :
    scan (c :: s) = (scanNat (c :: s)).map fun n : Nat => (n : Int) := by
  have hspace : ¬ isSpace c = true := by
    intro hspace
    simp only [isDigit, isSpace, decide_eq_true_eq] at h hspace
    rcases hspace with rfl | ⟨-, hle⟩
    · exact absurd h.1 (by decide)
    · exact absurd (UInt8.le_trans h.1 hle) (by decide)
  rw [scan, List.dropWhile_cons_of_neg hspace]
  split
  · next heq => cases (List.cons.inj heq).1 ▸ h
  · next heq => cases (List.cons.inj heq).1 ▸ h
  · rfl

/-- **There and back.** -/
theorem scan_intText (n : Int) : scan (intText n) = some n := by
  rw [intText]
  split
  · next hneg =>
    have hback : scan (45 :: natText n.natAbs) = (scanNat (natText n.natAbs)).map fun n : Nat => -(n : Int) := rfl
    rw [hback, scanNat_natText, Option.map_some]
    congr 1
    omega
  · next hneg =>
    obtain ⟨c, s, hcons⟩ := List.exists_cons_of_ne_nil (natText_ne_nil n.natAbs)
    have hdigit : isDigit c = true := isDigit_of_mem_natText (n := n.natAbs) (by rw [hcons]; exact List.mem_cons_self)
    rw [hcons, scan_of_digit hdigit, ← hcons, scanNat_natText, Option.map_some]
    congr 1
    omega

theorem intText_injective {m n : Int} (h : intText m = intText n) : m = n := by
  have hscan := scan_intText m
  rw [h, scan_intText] at hscan
  exact (Option.some_inj.mp hscan).symm

theorem noNul_intText (n : Int) : 0 ∉ intText n := by
  have hdigits : 0 ∉ natText n.natAbs := fun h => Bool.noConfusion (isDigit_of_mem_natText h)
  rw [intText]
  split
  · rw [List.mem_cons, not_or]
    exact ⟨by decide, hdigits⟩
  · exact hdigits

/-! ### Buffers -/

/-- **The string in the buffer**: as much of the text as there is room for. -/
theorem exists_snprintf {buf text : List UInt8} {n : Nat} (hn : 0 < n) (htext : 0 ∉ text)
    (hbuf : (text.take (n - 1)).length < buf.length) : ∃ buf' str, snprintf buf n text = some buf' ∧
      cstr buf' = some str ∧ str.chars = text.take (n - 1) ∧ buf'.length = buf.length ∧
      ∀ k, (text.take (n - 1)).length < k → buf'.drop k = buf.drop k := by
  have hnul : 0 ∉ text.take (n - 1) := fun h => htext (List.mem_of_mem_take h)
  obtain ⟨old, rest, rfl, hold, -⟩ := exists_cut (show (text.take (n - 1) ++ [0]).length ≤ buf.length by
    rw [List.length_append]
    exact hbuf)
  have hstore : store (old ++ rest) 0 (text.take (n - 1) ++ [0]) = some (text.take (n - 1) ++ [0] ++ rest) :=
    store_append [] old rest hold.symm
  refine ⟨text.take (n - 1) ++ [0] ++ rest, ⟨text.take (n - 1), hnul⟩, ?_, ?_, rfl, ?_, ?_⟩
  · rw [snprintf, if_neg hn.ne', hstore]
  · rw [List.append_assoc, List.singleton_append]
    exact cstr_append ⟨text.take (n - 1), hnul⟩ rest
  · rw [@List.length_append _ _ rest, @List.length_append _ old, hold]
  · intro k hk
    have hle : (text.take (n - 1) ++ [0]).length ≤ k := by
      rw [List.length_append]
      exact hk
    rw [@List.drop_append _ _ rest, @List.drop_append _ old, List.drop_eq_nil_of_le hle,
      List.drop_eq_nil_of_le (hold.trans_le hle), hold]

end Printf

end Wow
