import Wow.Iot.Element
import Mathlib.Logic.Function.Basic

/-!
# Wow.Iot.HashMap — the hash map of `wow_hash_map.c`

A table of buckets, each a block with the items that it has and the number of items that it has room for.  The
operators of the keys and the values and the hash function are parameters.  A result `none` is an access outside a
block; `Op` are the calls that change the map.
-/

namespace Wow.Iot

def WOW_SUCCESS : Int := 0
def PARAM_INPUT_DATA_IS_NULL : Int := 102

def HASH_MAP_ITEM_SIZE_DEFAULT : Nat := 8
def HASH_MAP_BUCKET_SIZE_DEFAULT : Nat := 16

/-- `sizeof(HashMapItemList_T)`. -/
def sizeofItemList : Nat := 16

/-- `HashMapItemList_T` and the items behind it; `size` is their number. -/
structure HashMapItemList (κ ν : Type) where
  items : List (κ × ν)
  maxn : Nat

/-- `HashMap_T`. -/
structure HashMap (κ ν : Type) where
  hashList : Nat → Option (HashMapItemList κ ν)
  hashSize : Nat
  itemStep : Nat
  itemSize : Nat
  itemMaxn : Nat
  itemGrow : Nat

namespace HashMap

/-! ### Indices -/

/-- `hash_map_index_make`. -/
def indexMake (buck item : Nat) : Nat := ((item &&& 0xffff) <<< 16) ||| (buck &&& 0xffff)

/-- `hash_map_index_buck`. -/
def indexBuck (index : Nat) : Nat := index &&& 0xffff

/-- `hash_map_index_item`. -/
def indexItem (index : Nat) : Nat := (index >>> 16) &&& 0xffff

theorem indexMake_eq {buck item : Nat} (hb : buck < 2 ^ 16) (hi : item < 2 ^ 16) :
    indexMake buck item = item * 2 ^ 16 + buck := by
  rw [indexMake, show (0xffff : Nat) = 2 ^ 16 - 1 from rfl, Nat.and_two_pow_sub_one_of_lt_two_pow hi,
    Nat.and_two_pow_sub_one_of_lt_two_pow hb, ← Nat.shiftLeft_add_eq_or_of_lt hb, Nat.shiftLeft_eq]

/-- **Packing**: 16 bits are enough for a bucket and an item. -/
theorem index_indexMake {buck item : Nat} (hb : buck < 2 ^ 16) (hi : item < 2 ^ 16) :
    indexBuck (indexMake buck item) = buck ∧ indexItem (indexMake buck item) = item := by
  rw [indexMake_eq hb hi, indexBuck, indexItem, show (0xffff : Nat) = 2 ^ 16 - 1 from rfl, Nat.and_two_pow_sub_one_eq_mod,
    Nat.and_two_pow_sub_one_eq_mod, Nat.shiftRight_eq_div_pow]
  omega

/-! ### The functions -/

section Functions

variable {α β κ ν : Type} (K : Element α κ) (V : Element β ν) (fHash : α → Nat)

/-- `wow_hash_map_create`. -/
def wowHashMapCreate : HashMap κ ν where
  hashList _ := none
  hashSize := HASH_MAP_BUCKET_SIZE_DEFAULT
  itemStep := K.size + V.size
  itemSize := 0
  itemMaxn := 0
  itemGrow := HASH_MAP_ITEM_SIZE_DEFAULT

/-- The first item with the key. -/
def itemSeek (key : α) : List (κ × ν) → Option (Option Nat)
  | [] => some none
  | item :: items => (K.fData item.1).bind fun k =>
    if K.fComp key k = 0 then some (some 0) else (itemSeek key items).map (Option.map (· + 1))

/-- The bucket of a key. -/
def buckOf (m : HashMap κ ν) (key : α) : Nat := fHash key % (m.hashSize - 1)

/-- `hash_map_item_find`: the item, if there is one, in the bucket of the key. -/
def itemFind (m : HashMap κ ν) (key : α) : Option (Option Nat) :=
  match m.hashList (m.buckOf fHash key) with
  | none => some none
  | some list => itemSeek K key list.items

/-- `hash_map_item_at`: the data of the item. -/
def itemAt (m : HashMap κ ν) (buck item : Nat) : Option (Option β) :=
  match (m.hashList buck).bind fun list => list.items[item]? with
  | none => some none
  | some item => (V.fData item.2).map some

/-- `hash_map_itor_remove`. -/
def itorRemove (m : HashMap κ ν) (itor : Nat) : HashMap κ ν :=
  let buck := indexBuck itor
  let item := indexItem itor
  if buck = 0 ∨ item = 0 then m
  else if ¬ buck - 1 < m.hashSize then m
  else match m.hashList (buck - 1) with
    | none => m
    | some list =>
      if item - 1 < list.items.length then
        let list' := if list.items.length > 1 then some { list with items := list.items.eraseIdx (item - 1) } else none
        { m with hashList := Function.update m.hashList (buck - 1) list', itemSize := m.itemSize - 1 }
      else m

/-- `wow_hash_map_clear`. -/
def wowHashMapClear (m : HashMap κ ν) : HashMap κ ν :=
  { m with
    hashList := fun i => if i < m.hashSize then none else m.hashList i
    itemSize := 0
    itemMaxn := 0 }

/-- `wow_hash_map_get`: the errors return `NULL` as well. -/
def wowHashMapGet (m : HashMap κ ν) : Option α → Option (Option β)
  | none => some none
  | some key => (itemFind K fHash m key).bind fun found =>
    match found with
    | none => some none
    | some item => itemAt V m (m.buckOf fHash key) item

/-- The block that `wow_hash_map_insert` clears after it has made room for `maxn` items starts `sizeof + maxn * step`
list heads behind the list, not as many bytes. -/
def clearInside (step maxn grow : Nat) : Prop :=
  sizeofItemList * (sizeofItemList + maxn * step) + grow * step ≤ sizeofItemList + maxn * step

instance (step maxn grow : Nat) : Decidable (clearInside step maxn grow) := inferInstanceAs (Decidable (_ ≤ _))

/-- Room for one more item in the list. -/
def makeRoom (m : HashMap κ ν) (list : HashMapItemList κ ν) : Option (HashMapItemList κ ν × Nat) :=
  if list.items.length ≥ list.maxn then
    let maxn := list.maxn + m.itemGrow
    if clearInside m.itemStep maxn m.itemGrow then some ({ list with maxn := maxn }, m.itemMaxn + m.itemGrow) else none
  else some (list, m.itemMaxn)

/-- A new item at the end of the list. -/
def insertNew (m : HashMap κ ν) (buck : Nat) (key : α) (val : β) : Option (HashMap κ ν) :=
  let item := (K.fDupl key, V.fDupl val)
  match m.hashList buck with
  | some list => (makeRoom m list).map fun r =>
    { m with
      hashList := Function.update m.hashList buck (some { r.1 with items := r.1.items ++ [item] })
      itemMaxn := r.2
      itemSize := m.itemSize + 1 }
  | none =>
    some { m with
      hashList := Function.update m.hashList buck (some ⟨[item], m.itemGrow⟩)
      itemMaxn := m.itemMaxn + m.itemGrow
      itemSize := m.itemSize + 1 }

/-- Another value in an item of a list. -/
def replaceAt (m : HashMap κ ν) (buck item : Nat) (val : β) : Option (HashMap κ ν) :=
  (m.hashList buck).bind fun list => (list.items[item]?).bind fun it => (V.fRepl it.2 val).map fun v =>
    { m with hashList := Function.update m.hashList buck (some { list with items := list.items.set item (it.1, v) }) }

/-- `wow_hash_map_insert`: the code it returns and the map. -/
def wowHashMapInsert (m : HashMap κ ν) : Option α → Option β → Option (Int × HashMap κ ν)
  | some key, some val => (itemFind K fHash m key).bind fun found =>
    (match found with
      | some item => replaceAt V m (m.buckOf fHash key) item val
      | none => insertNew K V m (m.buckOf fHash key) key val).map fun m => (WOW_SUCCESS, m)
  | _, _ => some (-PARAM_INPUT_DATA_IS_NULL, m)

/-- `wow_hash_map_remove`. -/
def wowHashMapRemove (m : HashMap κ ν) : Option α → Option (HashMap κ ν)
  | none => some m
  | some key => (itemFind K fHash m key).map fun found =>
    match found with
    | none => m
    | some item => itorRemove m (indexMake (m.buckOf fHash key + 1) (item + 1))

/-- `wow_hash_map_size`. -/
def wowHashMapSize (m : HashMap κ ν) : Nat := m.itemSize

/-- `wow_hash_map_foreach`: what the callback is given. -/
def wowHashMapForeach (m : HashMap κ ν) : List (Option β) :=
  (List.range m.hashSize).flatMap fun i =>
    match m.hashList i with
    | none => []
    | some list => list.items.map fun item => V.fData item.2

/-- The calls that change the map. -/
inductive Op (α β : Type) where
  | insert (key : Option α) (val : Option β)
  | remove (key : Option α)
  | clear

/-- One call. -/
def step (m : HashMap κ ν) : Op α β → Option (HashMap κ ν)
  | .insert key val => (wowHashMapInsert K V fHash m key val).map Prod.snd
  | .remove key => wowHashMapRemove K fHash m key
  | .clear => some (wowHashMapClear m)

end Functions

end HashMap

end Wow.Iot
