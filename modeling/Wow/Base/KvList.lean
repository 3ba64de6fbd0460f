import Wow.Lib.Avl
import Wow.Base.CString

/-!
# Wow.Base.KvList — the key-value list of `wow_kv_list.c`

The functions on `AVLNode`, over whatever holds the keys and the values: `Buffers` says how a `char*` is compared,
copied and released, so that the same code runs on strings and on a heap.  A result `none` is an access through
`NULL` or to a buffer that is not there.  The heights stand in the nodes as the code computes them.
-/

namespace Wow.KvList

open Avl Avl.Tree

/-- The memory `σ` with pointers `P` to its buffers. -/
structure Buffers (σ P : Type) where
  /-- `strcmp`. -/
  strcmp : σ → P → P → Option Int
  /-- `MALLOC(strlen + 1)`, cleared, with the string copied into it. -/
  dup : σ → P → Option (P × σ)
  /-- `MALLOC(strlen + 1)` with the string copied into it. -/
  copy : σ → P → Option (P × σ)
  /-- `FREE`. -/
  free : σ → P → Option σ

/-- A node with `key`, `value`, `height`, `left` and `right`. -/
abbrev AVLNode (P : Type) := Tree P P

variable {σ P : Type} (B : Buffers σ P)

/-- `avl_new_node`. -/
def avlNewNode (s : σ) (key value : P) : Option (AVLNode P × σ) := do
  let (k, s) ← B.dup s key
  let (v, s) ← B.dup s value
  return (node k v 1 nil nil, s)

/-- `avl_free_node`: its buffers. -/
def avlFreeNode (s : σ) (key value : P) : Option σ := do
  let s ← B.free s key
  B.free s value

/-- `avl_rotate_right`. -/
def avlRotateRight : AVLNode P → Option (AVLNode P)
  | node k v _ (node k' v' _ a b) r => some (join k' v' a (join k v b r))
  | _ => none

/-- `avl_rotate_left`. -/
def avlRotateLeft : AVLNode P → Option (AVLNode P)
  | node k v _ l (node k' v' _ a b) => some (join k' v' (join k v l a) b)
  | _ => none

/-- The key of a child. -/
def keyOf : AVLNode P → Option P
  | nil => none
  | node k _ _ _ _ => some k

/-- The end of `avl_insert`: the key tells which way the higher child leans. -/
def avlInsertFix (s : σ) (key : P) : AVLNode P → Option (AVLNode P)
  | nil => none
  | node k v h l r =>
    if (node k v h l r).factor > 1 then do
      let c ← B.strcmp s key (← keyOf l)
      if c < 0 then avlRotateRight (node k v h l r)
      else if c > 0 then (avlRotateLeft l).bind fun l => avlRotateRight (node k v h l r)
      else some (node k v h l r)
    else if (node k v h l r).factor < -1 then do
      let c ← B.strcmp s key (← keyOf r)
      if c > 0 then avlRotateLeft (node k v h l r)
      else if c < 0 then (avlRotateRight r).bind fun r => avlRotateLeft (node k v h l r)
      else some (node k v h l r)
    else some (node k v h l r)

/-- `avl_insert`: the value of a key that exists becomes the pointer that was passed. -/
def avlInsert (s : σ) (key value : P) : AVLNode P → Option (AVLNode P × σ)
  | nil => avlNewNode B s key value
  | node k v h l r => do
    let c ← B.strcmp s key k
    if c < 0 then
      let (l, s) ← avlInsert s key value l
      (avlInsertFix B s key (join k v l r)).map fun t => (t, s)
    else if c > 0 then
      let (r, s) ← avlInsert s key value r
      (avlInsertFix B s key (join k v l r)).map fun t => (t, s)
    else return (node k value h l r, s)

/-- `avl_search`: the value, `NULL` without the key. -/
def avlSearch (s : σ) (key : P) : AVLNode P → Option (Option P)
  | nil => some none
  | node k v _ l r => do
    let c ← B.strcmp s key k
    if c < 0 then avlSearch s key l else if c > 0 then avlSearch s key r else return some v

/-- The end of `avl_delete` and of `avl_update`. -/
def avlFix : AVLNode P → Option (AVLNode P)
  | nil => none
  | node k v h l r =>
    if (node k v h l r).factor > 1 then
      if l.factor ≥ 0 then avlRotateRight (node k v h l r)
      else (avlRotateLeft l).bind fun l => avlRotateRight (node k v h l r)
    else if (node k v h l r).factor < -1 then
      if r.factor ≤ 0 then avlRotateLeft (node k v h l r)
      else (avlRotateRight r).bind fun r => avlRotateLeft (node k v h l r)
    else some (node k v h l r)

/-- `avl_delete`: a node with two children takes the buffers of its successor, and this is deleted by them. -/
def avlDelete : σ → AVLNode P → P → Option (AVLNode P × σ)
  | s, nil, _ => some (nil, s)
  | s, node k v _ l r, key => do
    let c ← B.strcmp s key k
    if c < 0 then
      let (l, s) ← avlDelete s l key
      (avlFix (join k v l r)).map fun t => (t, s)
    else if c > 0 then
      let (r, s) ← avlDelete s r key
      (avlFix (join k v l r)).map fun t => (t, s)
    else if l.isNil then (avlFreeNode B s k v).map fun s => (r, s)
    else if r.isNil then (avlFreeNode B s k v).map fun s => (l, s)
    else
      let (r', s) ← avlDelete s r (r.minD (k, v)).1
      (avlFix (join (r.minD (k, v)).1 (r.minD (k, v)).2 l r')).map fun t => (t, s)

/-- `avl_update`. -/
def avlUpdate (key value : P) : σ → AVLNode P → Option (AVLNode P × σ)
  | s, nil => some (nil, s)
  | s, node k v _ l r => do
    let c ← B.strcmp s key k
    if c < 0 then
      let (l, s) ← avlUpdate key value s l
      (avlFix (join k v l r)).map fun t => (t, s)
    else if c > 0 then
      let (r, s) ← avlUpdate key value s r
      (avlFix (join k v l r)).map fun t => (t, s)
    else
      let s ← B.free s v
      let (v, s) ← B.copy s value
      (avlFix (join k v l r)).map fun t => (t, s)

/-- `avl_get_all`: the keys and the values, in the order in which they are stored in the two arrays. -/
def avlGetAll : AVLNode P → List (P × P)
  | nil => []
  | node k v _ l r => avlGetAll l ++ (k, v) :: avlGetAll r

/-- The sum of two `int`s. -/
def addInt (m n : Int) : Int := (m + n).bmod (2 ^ 32)

/-- `avl_get_size`. -/
def avlGetSize : AVLNode P → Int
  | nil => 0
  | node _ _ _ l r => addInt (addInt (avlGetSize l) (avlGetSize r)) 1

/-! ### The list -/

def WOW_SUCCESS : Int := 0
def PARAM_INPUT_DATA_IS_NULL : Int := 102

/-- `KvList_T` and the memory. -/
structure KvList (σ P : Type) where
  root : AVLNode P
  mem : σ

/-- `wow_kvlist_create`. -/
def wowKvlistCreate (mem : σ) : KvList σ P := ⟨nil, mem⟩

/-- The root and the memory after a call that found its arguments. -/
def KvList.done (r : AVLNode P × σ) : Int × KvList σ P := (WOW_SUCCESS, ⟨r.1, r.2⟩)

/-- `wow_kvlist_get`: the errors return `NULL` as well. -/
def wowKvlistGet (s : KvList σ P) : Option P → Option (Option P)
  | some key => avlSearch B s.mem key s.root
  | none => some none

/-- `wow_kvlist_set`. -/
def wowKvlistSet (s : KvList σ P) : Option P → Option P → Option (Int × KvList σ P)
  | some key, some val => (avlInsert B s.mem key val s.root).map KvList.done
  | _, _ => some (-PARAM_INPUT_DATA_IS_NULL, s)

/-- `wow_kvlist_foreach`: the two arrays and the count. -/
def wowKvlistForeach (s : KvList σ P) : List P × List P × Int :=
  ((avlGetAll s.root).map Prod.fst, (avlGetAll s.root).map Prod.snd, ((avlGetAll s.root).length : Int).bmod (2 ^ 32))

/-- `wow_kvlist_update`. -/
def wowKvlistUpdate (s : KvList σ P) : Option P → Option P → Option (Int × KvList σ P)
  | some key, some val => (avlUpdate B key val s.mem s.root).map KvList.done
  | _, _ => some (-PARAM_INPUT_DATA_IS_NULL, s)

/-- `wow_kvlist_delete`. -/
def wowKvlistDelete (s : KvList σ P) : Option P → Option (Int × KvList σ P)
  | some key => (avlDelete B s.mem s.root key).map KvList.done
  | none => some (-PARAM_INPUT_DATA_IS_NULL, s)

/-- `wow_kvlist_size`. -/
def wowKvlistSize (s : KvList σ P) : Int := avlGetSize s.root

/-- The calls that change the list. -/
inductive Call (P : Type) where
  | set (key val : Option P)
  | update (key val : Option P)
  | delete (key : Option P)

def KvList.call (s : KvList σ P) : Call P → Option (Int × KvList σ P)
  | .set key val => wowKvlistSet B s key val
  | .update key val => wowKvlistUpdate B s key val
  | .delete key => wowKvlistDelete B s key

end Wow.KvList
