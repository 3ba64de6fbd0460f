import Wow.Base.CString

/-!
# Wow.Iot.Element — the element operators of `wow_element.c`

An `Element_T` says how a key or a value is compared, stored and replaced.  What the caller passes is a pointer: a
number that is not `NULL` and fits the type, or a string.  What is stored is the number, or a block of bytes that
belongs to the item; `none` is an access outside a block.

* `strRepl_eq`: `element_str_repl` replaces a string by any other, in place or in a larger block.
* `lawful_ops`: the operators of every type store what they are given and tell their keys apart.
-/

namespace Wow.Iot

/-- `Element_T`; what `fHash` computes is not looked at. -/
structure Element (α β : Type) where
  size : Nat
  fComp : α → α → Int
  /-- What the item holds, as the functions that take it read it. -/
  fData : β → Option α
  fRepl : β → α → Option β
  fDupl : α → β

/-- What operators have to do to be used for keys and values. -/
structure Element.Lawful {α β : Type} (E : Element α β) : Prop where
  comp_eq_zero : ∀ a b, E.fComp a b = 0 ↔ a = b
  data_dupl : ∀ a, E.fData (E.fDupl a) = some a
  data_repl : ∀ {b a}, E.fData b = some a → ∀ a', ∃ b', E.fRepl b a' = some b' ∧ E.fData b' = some a'

/-- `ElementType_E`. -/
inductive ElementType where
  | uint8
  | uint16
  | uint32
  | str
  | ptr
  deriving DecidableEq

/-! ### Numbers -/

/-- A pointer that is a number of the type, and not `NULL`. -/
abbrev Word (bits : Nat) : Type := { w : Nat // 0 < w ∧ w < 2 ^ bits }

/-- `ele_uint8`, `ele_uint16`, `ele_uint32` and `ele_ptr`. -/
def eleWord (bits : Nat) : Element (Word bits) (Word bits) where
  size := bits / 8
  fComp l r := if l < r then -1 else if l > r then 1 else 0
  fData w := some w
  fRepl _ w := some w
  fDupl w := w

theorem lawful_eleWord (bits : Nat) : (eleWord bits).Lawful where
  comp_eq_zero a b := by
    simp only [eleWord]
    split_ifs with hlt hgt
    · exact iff_of_false (by decide) (ne_of_lt hlt)
    · exact iff_of_false (by decide) (ne_of_gt hgt)
    · exact iff_of_true rfl (le_antisymm (not_lt.mp hgt) (not_lt.mp hlt))
  data_dupl _ := rfl
  data_repl _ a' := ⟨a', rfl, rfl⟩

/-! ### Strings -/

/-- `while (*p && *q) *p++ = *q++`: the bytes in front of `p`, those from `p` on and those from `q` on. -/
def strCopy : List UInt8 → List UInt8 → List UInt8 → Option (List UInt8 × List UInt8 × List UInt8)
  | copied, a :: p, b :: q => if a ≠ 0 ∧ b ≠ 0 then strCopy (copied ++ [b]) p q else some (copied, a :: p, b :: q)
  | _, _, _ => none

/-- The end of `element_str_repl`: the rest of the string in a larger block, or a terminator. -/
def strEnd : List UInt8 × List UInt8 × List UInt8 → Option (List UInt8)
  | (copied, a :: p, b :: q) =>
    if a = 0 ∧ b ≠ 0 then some (copied ++ (b :: q).take (strlen (b :: q) + 1)) else some (copied ++ 0 :: p)
  | _ => none

/-- `element_str_repl`. -/
def strRepl (cstr : List UInt8) (data : CStr) : Option (List UInt8) := (strCopy [] cstr data.bytes).bind strEnd

/-- The loop and its end, from the middle of the two strings. -/
theorem strEnd_strCopy {s t : List UInt8} (hs : 0 ∉ s) (ht : 0 ∉ t) (copied rest : List UInt8) :
    ∃ rest', (strCopy copied (s ++ 0 :: rest) (t ++ [0])).bind strEnd = some (copied ++ t ++ 0 :: rest') := by
  induction s generalizing t copied with
  | nil =>
    cases t with
    | nil => exact ⟨rest, by simp [strCopy, strEnd]⟩
    | cons b t =>
      have hb : b ≠ 0 := fun h => ht (h ▸ List.mem_cons_self)
      have hlen : strlen (b :: (t ++ [0])) = (b :: t).length := strlen_append ht
      refine ⟨[], ?_⟩
      rw [List.nil_append, List.cons_append, strCopy, if_neg (by simp), Option.bind_some, strEnd, if_pos ⟨rfl, hb⟩, hlen,
        List.take_of_length_le (by simp), ← List.cons_append, List.append_assoc]
  | cons a s ih =>
    have ha : a ≠ 0 := fun h => hs (h ▸ List.mem_cons_self)
    cases t with
    | nil =>
      refine ⟨s ++ 0 :: rest, ?_⟩
      rw [List.nil_append, List.cons_append, strCopy, if_neg (by simp), Option.bind_some, strEnd, if_neg (by simp),
        List.append_nil]
    | cons b t =>
      have hb : b ≠ 0 := fun h => ht (h ▸ List.mem_cons_self)
      obtain ⟨rest', h⟩ := ih (fun h => hs (List.mem_cons_of_mem a h)) (fun h => ht (List.mem_cons_of_mem b h))
        (copied ++ [b])
      refine ⟨rest', ?_⟩
      rw [List.cons_append, List.cons_append, strCopy, if_pos ⟨ha, hb⟩, h, List.append_assoc copied, List.singleton_append]

/-- **Replacing a string**: whatever the two lengths are, the block holds the new one. -/
theorem strRepl_eq {block : List UInt8} {s : CStr} (h : cstr block = some s) (t : CStr) :
    ∃ block', strRepl block t = some block' ∧ cstr block' = some t := by
  obtain ⟨rest, rfl⟩ := exists_of_cstr h
  obtain ⟨rest', h'⟩ := strEnd_strCopy s.noNul t.noNul [] rest
  exact ⟨t.chars ++ 0 :: rest', h', cstr_append t rest'⟩

/-- `ele_str`. -/
def eleStr : Element CStr (List UInt8) where
  size := 8
  fComp l r := strcmp l.chars r.chars
  fData := cstr
  fRepl := strRepl
  fDupl := CStr.bytes

theorem lawful_eleStr : eleStr.Lawful where
  comp_eq_zero a b := by
    have hlt : strcmp a.chars b.chars < 0 ↔ a < b := strcmp_neg_iff
    have hgt : 0 < strcmp a.chars b.chars ↔ b < a := strcmp_pos_iff
    change strcmp a.chars b.chars = 0 ↔ a = b
    rcases lt_trichotomy a b with h | rfl | h
    · exact iff_of_false (by have := hlt.mpr h; omega) (ne_of_lt h)
    · refine iff_of_true ?_ rfl
      have h₁ := mt hlt.mp (lt_irrefl a)
      have h₂ := mt hgt.mp (lt_irrefl a)
      omega
    · exact iff_of_false (by have := hgt.mpr h; omega) (ne_of_gt h)
  data_dupl := cstr_bytes
  data_repl := strRepl_eq

/-! ### The types -/

namespace ElementType

/-- What the caller passes. -/
def Arg : ElementType → Type
  | uint8 => Word 8
  | uint16 => Word 16
  | uint32 => Word 32
  | str => CStr
  | ptr => Word 64

/-- What an item holds. -/
def Stored : ElementType → Type
  | uint8 => Word 8
  | uint16 => Word 16
  | uint32 => Word 32
  | str => List UInt8
  | ptr => Word 64

instance : ∀ t : ElementType, DecidableEq t.Arg
  | uint8 => inferInstanceAs (DecidableEq (Word 8))
  | uint16 => inferInstanceAs (DecidableEq (Word 16))
  | uint32 => inferInstanceAs (DecidableEq (Word 32))
  | str => inferInstanceAs (DecidableEq CStr)
  | ptr => inferInstanceAs (DecidableEq (Word 64))

end ElementType

/-- `wow_element_ops`. -/
def wowElementOps : (t : ElementType) → Element t.Arg t.Stored
  | .uint8 => eleWord 8
  | .uint16 => eleWord 16
  | .uint32 => eleWord 32
  | .str => eleStr
  | .ptr => eleWord 64

/-- **Every type** has lawful operators. -/
theorem lawful_ops : ∀ t, (wowElementOps t).Lawful
  | .uint8 => lawful_eleWord 8
  | .uint16 => lawful_eleWord 16
  | .uint32 => lawful_eleWord 32
  | .str => lawful_eleStr
  | .ptr => lawful_eleWord 64

end Wow.Iot
