import Wow.Base.CString
import Wow.Lib.Block
import Wow.Lib.CNum

/-!
# Wow.Utils.WowString — the growing string of `wow_string.c`

A string is its size, its capacity and its block of characters.  A read or a write that leaves the block is `none`.  The
calls work on any number of strings, so that a string can be appended to itself; `REALLOC` may fail at each call (`ok`),
and what `string_resize` then returns nobody looks at.

* `Op.ref`: what a call does to the texts; `Does` what it returns.
* `Refines`: a run does what the calls do to texts, and every string is one (`Holds`).
* `Op.Fits`: the calls in front of which everything is right.
-/

namespace Wow.WowString

open Block

def WOW_SUCCESS : Int := 0
def PARAM_INPUT_ARG_INVALID : Int := 104

/-- `DEFALUT_STRING_SZIE`. -/
def defaultSize : Nat := 256

/-- `String_T`. -/
structure StringT where
  size : Nat
  capicity : Nat
  data : List UInt8

/-- `memset` to zero. -/
def memset (b : List UInt8) (p n : Nat) : Option (List UInt8) := store b p (List.replicate n 0)

/-- `strncpy`: the characters in front of a terminator, filled up with zeros to `n` octets. -/
def strncpy (dst : List UInt8) (d : Nat) (src : List UInt8) (n : Nat) : Option (List UInt8) :=
  if 0 ∈ src ∨ n ≤ src.length then
    let chars := (src.takeWhile (· ≠ 0)).take n
    store dst d (chars ++ List.replicate (n - chars.length) 0)
  else none

/-! ### The functions -/

/-- `string_resize`, when `REALLOC` is `ok`. -/
def resize (ok : Bool) (s : StringT) (cap : Nat) : StringT :=
  if ok then { s with data := s.data ++ List.replicate (cap - s.capicity) 0, capicity := cap } else s

/-- `wow_string_new`. -/
def new : StringT := ⟨0, defaultSize, List.replicate defaultSize 0⟩

/-- `wow_string_left`. -/
def left (s : StringT) (snLen : Nat) : Option (Int × StringT) :=
  if ¬ 0 < snLen then some (-PARAM_INPUT_ARG_INVALID, s)
  else if s.size > snLen then do
    let data ← memset s.data snLen (s.size - snLen)
    some (WOW_SUCCESS, { s with data := data, size := snLen })
  else some (WOW_SUCCESS, s)

/-- `wow_string_right`. -/
def right (s : StringT) (snLen : Nat) : Option (Int × StringT) :=
  if ¬ 0 < snLen then some (-PARAM_INPUT_ARG_INVALID, s)
  else if s.size > snLen then do
    let data ← copy s.data 0 s.data (s.size - snLen) snLen
    let data ← memset data snLen (s.size - snLen)
    some (WOW_SUCCESS, { s with data := data, size := snLen })
  else some (WOW_SUCCESS, s)

/-- `wow_string_mid`.  Where `snLen + snIdx` does not fit a `size_t`, both branches clear octets outside the block. -/
def mid (s : StringT) (snIdx snLen : Nat) : Option (Int × StringT) :=
  if ¬ (0 < snLen ∧ snIdx < s.size) then some (-PARAM_INPUT_ARG_INVALID, s)
  else if s.size > snLen + snIdx then do
    let data ← copy s.data 0 s.data snIdx (s.size - snLen)
    let data ← memset data snLen (s.size - snLen)
    some (WOW_SUCCESS, { s with data := data, size := snLen })
  else do
    let data ← copy s.data 0 s.data snIdx (s.size - snIdx)
    let data ← memset data snLen (s.size - snIdx)
    some (WOW_SUCCESS, { s with data := data, size := s.size - snIdx })

/-- `wow_string_append_data`, with the length of the text in an `int`: with one below zero `strncpy` fills all memory. -/
def appendData (ok : Bool) (s : StringT) (pcData : CStr) : Option (Int × StringT) :=
  if asInt pcData.chars.length < 0 then none
  else do
    let snLen := (asInt pcData.chars.length).toNat
    let s := if s.size + snLen ≥ s.capicity then
        if snLen > s.capicity then resize ok s (s.capicity + snLen) else resize ok s (s.capicity * 2)
      else s
    let data ← strncpy s.data s.size pcData.bytes snLen
    some (WOW_SUCCESS, { s with data := data, size := s.size + snLen })

/-- The strings of the program. -/
abbrev Strings := Nat → StringT

/-- `wow_string_append_string` of the string `j` to the string `k`, which may be the same. -/
def appendString (ok : Bool) (s : Strings) (k j : Nat) : Option (Int × Strings) := do
  let s := if (s j).size ≥ (s k).capicity - (s k).size then
    Function.update s k (resize ok (s k) ((s j).capicity + (s k).capicity)) else s
  let data ← strncpy (s k).data (s k).size (s j).data (s j).size
  some (WOW_SUCCESS, Function.update s k { s k with data := data, size := (s k).size + (s j).size })

/-- `wow_string_str`, with the place of the pointer in the string; `none` inside is `NULL`. -/
def str (s : StringT) (ptStr : CStr) : Option (Option Nat) :=
  if ptStr.chars.length < s.size then (cstr s.data).map fun d => strstr d.chars ptStr.chars else some none

/-- `wow_string_cmp`. -/
def cmp (s : StringT) (ptStr : CStr) : Option Int :=
  (cstr s.data).map fun d => strncmp d.chars ptStr.chars ptStr.chars.length

/-! ### Calls -/

/-- A call on one of the strings. -/
inductive Op where
  | new
  | left (snLen : Nat)
  | right (snLen : Nat)
  | mid (snIdx snLen : Nat)
  | appendData (ok : Bool) (pcData : CStr)
  | appendString (ok : Bool) (add : Nat)
  | str (ptStr : CStr)
  | cmp (ptStr : CStr)

/-- What a call returns. -/
inductive Ret where
  | code (n : Int)
  | place (p : Option Nat)

/-- One call on the string `k`. -/
def step (s : Strings) (k : Nat) : Op → Option (Ret × Strings)
  | .new => some (.code WOW_SUCCESS, Function.update s k new)
  | .left n => (left (s k) n).map fun (r, a) => (.code r, Function.update s k a)
  | .right n => (right (s k) n).map fun (r, a) => (.code r, Function.update s k a)
  | .mid i n => (mid (s k) i n).map fun (r, a) => (.code r, Function.update s k a)
  | .appendData ok p => (appendData ok (s k) p).map fun (r, a) => (.code r, Function.update s k a)
  | .appendString ok j => (appendString ok s k j).map fun (r, s) => (.code r, s)
  | .str p => (str (s k) p).map fun r => (.place r, s)
  | .cmp p => (cmp (s k) p).map fun r => (.code r, s)

/-! ### The requirement -/

/-- The string is the text: it stands at the start of the block, with a zero behind it and none in it. -/
structure Holds (s : StringT) (l : List UInt8) : Prop where
  data : ∃ rest, s.data = l ++ 0 :: rest
  noNul : 0 ∉ l
  size : s.size = l.length
  capicity : s.capicity = s.data.length

/-- The text after a call that has to succeed; `none` where it has to fail. -/
def Op.ref (l : Nat → List UInt8) (k : Nat) : Op → Option (List UInt8)
  | .new => some []
  | .left n => if n = 0 then none else some ((l k).take n)
  | .right n => if n = 0 then none else some ((l k).drop ((l k).length - n))
  | .mid i n => if n = 0 ∨ (l k).length ≤ i then none else some (((l k).drop i).take n)
  | .appendData _ p => some (l k ++ p.chars)
  | .appendString _ j => some (l k ++ l j)
  | .str _ | .cmp _ => some (l k)

/-- What is said about the text. -/
def Op.Answers (x : List UInt8) : Op → Ret → Prop
  | .str p, r => p.chars ≠ [] →
    (∃ i, r = .place (some i) ∧ p.chars <+: x.drop i ∧ ∀ j < i, ¬ p.chars <+: x.drop j) ∨
      r = .place none ∧ ¬ p.chars <:+: x
  | .cmp p, r => ∃ n, r = .code n ∧ (n = 0 ↔ x = p.chars)
  | _, r => r = .code WOW_SUCCESS

/-- The call answers, and leaves the text that it has to, or it returns an error and leaves the text alone. -/
def Does (l : Nat → List UInt8) (k : Nat) (op : Op) (r : Ret) (x : List UInt8) : Prop :=
  match op.ref l k with
  | some y => x = y ∧ op.Answers (l k) r
  | none => x = l k ∧ ∃ n, r = .code n ∧ n ≠ WOW_SUCCESS

/-- **The requirement**: no call leaves the memory of a string, each does what it does to texts, and in every state the
strings are the texts. -/
def Refines : Strings → (Nat → List UInt8) → List (Nat × Op) → Prop
  | s, l, [] => ∀ k, Holds (s k) (l k)
  | s, l, (k, op) :: ops => (∀ k, Holds (s k) (l k)) ∧
    ∃ r s' x, step s k op = some (r, s') ∧ Does l k op r x ∧ Refines s' (Function.update l k x) ops

/-- The octet that comes to stand behind an appended text of `n` characters is zero, or it is in new memory. -/
def Ends (ok : Bool) (s : StringT) (n : Nat) : Prop :=
  if s.capicity ≤ s.size + n then ok = true else s.data[s.size + n]? = some 0

/-- The slice is moved as a whole, no octets behind the block are read or cleared, and a zero comes to stand behind it. -/
def MidFits (s : StringT) (snIdx snLen : Nat) : Prop :=
  if snLen + snIdx < s.size then
    snIdx + (s.size - snLen) ≤ s.capicity ∧ (snIdx = 0 ∨ snLen ≤ s.size - snLen)
  else snLen + (s.size - snIdx) ≤ s.capicity ∧ (snIdx = 0 ∨ snLen + snIdx = s.size)

/-- **The calls that go right**: a middle part that fits; a text whose length is an `int` and whose end gets its zero; a
pattern that is not the whole text, and a text to compare with that is not its beginning. -/
def Op.Fits (s : Strings) (k : Nat) : Op → Prop
  | .mid i n => 0 < n ∧ i < (s k).size → MidFits (s k) i n
  | .appendData ok p => p.chars.length < 2 ^ 31 ∧ Ends ok (s k) p.chars.length
  | .appendString ok j => Ends ok (s k) (s j).size
  | .str p => p.chars ≠ (s k).data.take (s k).size
  | .cmp p => p.chars <+: (s k).data.take (s k).size → p.chars.length = (s k).size
  | _ => True

instance (ok : Bool) (s : StringT) (n : Nat) : Decidable (Ends ok s n) :=
  inferInstanceAs (Decidable (ite (s.capicity ≤ s.size + n) _ _))

instance (s : StringT) (i n : Nat) : Decidable (MidFits s i n) :=
  inferInstanceAs (Decidable (ite (n + i < s.size) (_ ∧ _) (_ ∧ _)))

instance (s : Strings) (k : Nat) : DecidablePred (Op.Fits s k)
  | .mid _ _ => inferInstanceAs (Decidable (_ → _))
  | .appendData _ _ => inferInstanceAs (Decidable (_ ∧ _))
  | .appendString _ _ => inferInstanceAs (Decidable (Ends _ _ _))
  | .str _ => inferInstanceAs (Decidable (_ ≠ _))
  | .cmp _ => inferInstanceAs (Decidable (_ → _))
  | .new | .left _ | .right _ => inferInstanceAs (Decidable True)

/-- The condition, before every call of the run. -/
def Fitting : Strings → List (Nat × Op) → Prop
  | _, [] => True
  | s, (k, op) :: ops => op.Fits s k ∧ (step s k op).elim True fun r => Fitting r.2 ops

instance decidableFitting : ∀ (s : Strings) (ops : List (Nat × Op)), Decidable (Fitting s ops)
  | _, [] => inferInstanceAs (Decidable True)
  | s, (k, op) :: ops =>
    have (o : Option (Ret × Strings)) : Decidable (o.elim True fun r => Fitting r.2 ops) :=
      o.casesOn (inferInstanceAs (Decidable True)) fun r => decidableFitting r.2 ops
    inferInstanceAs (Decidable (op.Fits s k ∧ _))

end Wow.WowString
