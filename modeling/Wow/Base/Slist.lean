import Wow.Lib.Cells

/-!
# Wow.Base.Slist — the singly linked list of `wow_slist.c`

The functions of `wow_slist.c` over a heap of `SlistEntry_T`.  A pointer to data is a number, `NULL` is zero; a
result `none` is an access to memory that is not live, or a walk that never ends.  `entries` is a `uint32_t` and
`wow_slist_size` returns it as an `int`.

`Op.ref` is the reference: what each operation does to a list of data, and the value it returns.
-/

namespace Wow.Slist

/-! ### Codes and machine integers -/

def WOW_SUCCESS : Int := 0
def WOW_FAILED : Int := 1
def PARAM_INPUT_FUNC_IS_NULL : Int := 101
def PARAM_INPUT_DATA_IS_NULL : Int := 102
def PARAM_INPUT_ARG_INVALID : Int := 104
def SYSTEM_MALLOC_FAILED : Int := 200
def SLIST_NO_ENTRY : Int := 10602
def SLIST_NOT_MATCH : Int := 10603

/-- The conversion of a `uint32_t` to `int`. -/
def toInt (n : Nat) : Int := if n < 2 ^ 31 then n else (n : Int) - 2 ^ 32

theorem toInt_of_lt {n : Nat} (hn : n < 2 ^ 31) : toInt n = n := if_pos hn

/-! ### The list -/

/-- `slist_t`. -/
structure Slist where
  head : Option Nat
  tail : Option Nat
  entries : Nat

structure State where
  list : Slist
  heap : Cells (Node Nat)

/-- `wow_slist_create`. -/
def create : State := ⟨⟨none, none, 0⟩, .empty⟩

/-- What a function returns: a code, or a pointer to data. -/
inductive Ret where
  | code (n : Int)
  | data (p : Nat)
  deriving DecidableEq

abbrev Match := Nat → Nat → Bool

/-- More steps than cells were ever made. -/
def State.fuel (s : State) : Nat := s.heap.made + 1

/-- `p->next = next` where there is an entry `p`. -/
def setNext (h : Cells (Node Nat)) (p next : Option Nat) : Option (Cells (Node Nat)) :=
  match p with
  | none => some h
  | some b => (h.cell b).bind fun c => h.write b ⟨c.data, next⟩

/-! ### Insertion -/

/-- A new entry behind the entry `a`. -/
def insertAfter (s : State) (h : Cells (Node Nat)) (new pData a : Nat) : Option State := do
  let entry ← h.cell a
  let h ← h.write new ⟨pData, entry.next⟩
  let tail := if entry.next = none then some new else s.list.tail
  let h ← h.write a ⟨entry.data, some new⟩
  return ⟨⟨s.list.head, tail, (s.list.entries + 1) % 2 ^ 32⟩, h⟩

/-- `wow_slist_insert_by_index`: the entry would be allocated at `at?`. -/
def insertByIndex (s : State) (at? : Option Nat) (nIdx : Int) (pData : Nat) : Option (Int × State) :=
  if pData = 0 then some (-PARAM_INPUT_DATA_IS_NULL, s)
  else match s.heap.calloc at? ⟨pData, none⟩ with
  | none => some (-SYSTEM_MALLOC_FAILED, s)
  | some (new, h) =>
    if nIdx ≤ 0 then do
      let h ← h.write new ⟨pData, s.list.head⟩
      let tail := if s.list.tail = none then some new else s.list.tail
      return (WOW_SUCCESS, ⟨⟨some new, tail, (s.list.entries + 1) % 2 ^ 32⟩, h⟩)
    else if nIdx > s.list.entries then do
      let h ← setNext h s.list.tail (some new)
      let head := if s.list.head = none then some new else s.list.head
      return (WOW_SUCCESS, ⟨⟨head, some new, (s.list.entries + 1) % 2 ^ 32⟩, h⟩)
    else do
      let (_, entry) ← advance h (nIdx.toNat - 1) none s.list.head
      match entry with
      | none => (h.free new).map fun h => (-WOW_FAILED, { s with heap := h })
      | some a => (insertAfter s h new pData a).map fun s => (WOW_SUCCESS, s)

/-- `wow_slist_insert_head`. -/
def insertHead (s : State) (at? : Option Nat) (pData : Nat) : Option (Int × State) := insertByIndex s at? 0 pData

/-- `wow_slist_insert_tail`. -/
def insertTail (s : State) (at? : Option Nat) (pData : Nat) : Option (Int × State) :=
  insertByIndex s at? (toInt s.list.entries) pData

/-- `wow_slist_insert_by_match`. -/
def insertByMatch (s : State) (at? : Option Nat) (fMatch : Option Match) (pEntry pData : Nat) :
    Option (Int × State) :=
  match fMatch with
  | none => some (-PARAM_INPUT_FUNC_IS_NULL, s)
  | some f =>
    if s.list.head = none then some (-SLIST_NO_ENTRY, s)
    else do
      let (_, entry) ← seek s.heap (f · pEntry) s.fuel none s.list.head
      match entry with
      | none => return (-SLIST_NOT_MATCH, s)
      | some a =>
        match s.heap.calloc at? ⟨pData, none⟩ with
        | none => return (-1, s)
        | some (new, h) => (insertAfter s h new pData a).map fun s => (WOW_SUCCESS, s)

/-! ### Peeking -/

/-- The data of an entry, `NULL` without one. -/
def dataOf (s : State) : Option Nat → Option Nat
  | none => some 0
  | some a => (s.heap.cell a).map Node.data

/-- `wow_slist_peek_head`. -/
def peekHead (s : State) : Option Nat := dataOf s s.list.head

/-- `wow_slist_peek_tail`: the head decides whether there is an entry. -/
def peekTail (s : State) : Option Nat :=
  if s.list.head = none then some 0 else s.list.tail.bind fun a => (s.heap.cell a).map Node.data

/-- `wow_slist_peek_by_index`. -/
def peekByIndex (s : State) (nIdx : Int) : Option Nat :=
  if 0 ≤ nIdx ∧ nIdx < s.list.entries then
    (advance s.heap nIdx.toNat none s.list.head).bind fun r => dataOf s r.2
  else some 0

/-- `wow_slist_peek_by_match`. -/
def peekByMatch (s : State) (fMatch : Option Match) (pArg : Nat) : Option Nat :=
  match fMatch with
  | none => some 0
  | some f => (seek s.heap (f · pArg) s.fuel none s.list.head).bind fun r => dataOf s r.2

/-! ### Removal -/

/-- The entry `a` is taken out behind the entry `prev`, or at the head. -/
def unlink (s : State) (prev : Option Nat) (a : Nat) : Option State := do
  let entry ← s.heap.cell a
  let h ← setNext s.heap prev entry.next
  let head := if prev = none then entry.next else s.list.head
  let tail := if entry.next = none then prev else s.list.tail
  let h ← h.free a
  return ⟨⟨head, tail, (s.list.entries + 2 ^ 32 - 1) % 2 ^ 32⟩, h⟩

/-- The end of the three removals: without an entry nothing is done. -/
def removeAt (s : State) (r : Option Nat × Option Nat) : Option (Int × State) :=
  match r.2 with
  | none => some (-WOW_FAILED, s)
  | some a => (unlink s r.1 a).map fun s => (WOW_SUCCESS, s)

/-- `wow_slist_remove`. -/
def remove (s : State) (pData : Nat) : Option (Int × State) :=
  if pData = 0 then some (PARAM_INPUT_DATA_IS_NULL, s)
  else (seek s.heap (· == pData) s.fuel none s.list.head).bind (removeAt s)

/-- `wow_slist_remove_by_index`. -/
def removeByIndex (s : State) (nIdx : Int) : Option (Int × State) :=
  if 0 ≤ nIdx ∧ nIdx < s.list.entries then (advance s.heap nIdx.toNat none s.list.head).bind (removeAt s)
  else some (PARAM_INPUT_ARG_INVALID, s)

/-- `wow_slist_remove_head`. -/
def removeHead (s : State) : Option (Int × State) := removeByIndex s 0

/-- `wow_slist_remove_tail`. -/
def removeTail (s : State) : Option (Int × State) := removeByIndex s (toInt s.list.entries - 1)

/-- `wow_slist_remove_by_match`. -/
def removeByMatch (s : State) (fMatch : Option Match) (pArg : Nat) : Option (Int × State) :=
  match fMatch with
  | none => some (PARAM_INPUT_DATA_IS_NULL, s)
  | some f =>
    if pArg = 0 then some (PARAM_INPUT_DATA_IS_NULL, s)
    else (seek s.heap (f · pArg) s.fuel none s.list.head).bind (removeAt s)

/-! ### Replacement -/

/-- New data for the entry `a`. -/
def replaceAt (s : State) (pData a : Nat) : Option (Int × State) := do
  let entry ← s.heap.cell a
  let h ← s.heap.write a ⟨pData, entry.next⟩
  return (WOW_SUCCESS, { s with heap := h })

/-- `wow_slist_replace_head`. -/
def replaceHead (s : State) (pData : Nat) : Option (Int × State) :=
  match s.list.head with
  | none => some (-SLIST_NO_ENTRY, s)
  | some a => replaceAt s pData a

/-- `wow_slist_replace_tail`. -/
def replaceTail (s : State) (pData : Nat) : Option (Int × State) :=
  match s.list.tail with
  | none => some (-SLIST_NO_ENTRY, s)
  | some a => replaceAt s pData a

/-- `wow_slist_replace_by_index`. -/
def replaceByIndex (s : State) (nIdx : Int) (pData : Nat) : Option (Int × State) :=
  if 0 ≤ nIdx ∧ nIdx < s.list.entries then do
    let (_, entry) ← advance s.heap nIdx.toNat none s.list.head
    match entry with
    | none => return (-1, s)
    | some a => replaceAt s pData a
  else some (PARAM_INPUT_ARG_INVALID, s)

/-- The loop of `wow_slist_replace_by_match`: every entry that matches gets the new data. -/
def replaceAll (stop : Nat → Bool) (pNewData : Nat) : Nat → Cells (Node Nat) → Option Nat → Option (Cells (Node Nat))
  | 0, _, _ => none
  | _ + 1, h, none => some h
  | fuel + 1, h, some a =>
    (h.cell a).bind fun entry =>
      (if stop entry.data then h.write a ⟨pNewData, entry.next⟩ else some h).bind fun h =>
        replaceAll stop pNewData fuel h entry.next

/-- `wow_slist_replace_by_match`. -/
def replaceByMatch (s : State) (fMatch : Option Match) (pMatchData pNewData : Nat) : Option (Int × State) :=
  match fMatch with
  | none => some (PARAM_INPUT_DATA_IS_NULL, s)
  | some f =>
    if pMatchData = 0 then some (PARAM_INPUT_DATA_IS_NULL, s)
    else (replaceAll (f · pMatchData) pNewData s.fuel s.heap s.list.head).map fun h =>
      (WOW_SUCCESS, { s with heap := h })

/-! ### Clearing -/

/-- The loop of `wow_slist_clear`. -/
def freeAll : Nat → Cells (Node Nat) → Option Nat → Option (Cells (Node Nat))
  | 0, _, _ => none
  | _ + 1, h, none => some h
  | fuel + 1, h, some a => do
    let entry ← h.cell a
    let h ← h.free a
    freeAll fuel h entry.next

/-- `wow_slist_clear`. -/
def clear (s : State) : Option (Int × State) :=
  if s.list.head = none then some (WOW_SUCCESS, s)
  else (freeAll s.fuel s.heap s.list.head).map fun h => (WOW_SUCCESS, ⟨⟨none, none, 0⟩, h⟩)

/-! ### The operations -/

/-- A call with its arguments; an insertion also says where the allocator would put the entry. -/
inductive Op where
  | insertHead (at? : Option Nat) (pData : Nat)
  | insertTail (at? : Option Nat) (pData : Nat)
  | insertByIndex (at? : Option Nat) (nIdx : Int) (pData : Nat)
  | insertByMatch (at? : Option Nat) (fMatch : Option Match) (pEntry pData : Nat)
  | peekHead
  | peekTail
  | peekByIndex (nIdx : Int)
  | peekByMatch (fMatch : Option Match) (pArg : Nat)
  | removeHead
  | removeTail
  | remove (pData : Nat)
  | removeByIndex (nIdx : Int)
  | removeByMatch (fMatch : Option Match) (pArg : Nat)
  | replaceHead (pData : Nat)
  | replaceTail (pData : Nat)
  | replaceByIndex (nIdx : Int) (pData : Nat)
  | replaceByMatch (fMatch : Option Match) (pMatchData pNewData : Nat)
  | clear

/-- One call on the list. -/
def step (s : State) : Op → Option (Ret × State)
  | .insertHead at? d => (insertHead s at? d).map (Prod.map .code id)
  | .insertTail at? d => (insertTail s at? d).map (Prod.map .code id)
  | .insertByIndex at? i d => (insertByIndex s at? i d).map (Prod.map .code id)
  | .insertByMatch at? f e d => (insertByMatch s at? f e d).map (Prod.map .code id)
  | .peekHead => (peekHead s).map fun p => (.data p, s)
  | .peekTail => (peekTail s).map fun p => (.data p, s)
  | .peekByIndex i => (peekByIndex s i).map fun p => (.data p, s)
  | .peekByMatch f x => (peekByMatch s f x).map fun p => (.data p, s)
  | .removeHead => (removeHead s).map (Prod.map .code id)
  | .removeTail => (removeTail s).map (Prod.map .code id)
  | .remove d => (remove s d).map (Prod.map .code id)
  | .removeByIndex i => (removeByIndex s i).map (Prod.map .code id)
  | .removeByMatch f x => (removeByMatch s f x).map (Prod.map .code id)
  | .replaceHead d => (replaceHead s d).map (Prod.map .code id)
  | .replaceTail d => (replaceTail s d).map (Prod.map .code id)
  | .replaceByIndex i d => (replaceByIndex s i d).map (Prod.map .code id)
  | .replaceByMatch f x d => (replaceByMatch s f x d).map (Prod.map .code id)
  | .clear => (clear s).map (Prod.map .code id)

end Wow.Slist
