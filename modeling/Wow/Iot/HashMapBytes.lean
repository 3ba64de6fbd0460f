import Wow.Iot.HashMapRefine
import Mathlib.Data.Finset.Card

/-!
# Wow.Iot.HashMapBytes — the bytes that an insertion reads and writes

`wow_hash_map_insert` as the accesses that it makes to the block of its bucket: the list head, the items and what the
growing path clears.

* `inside_iff`: one insertion keeps inside the block unless its key is new to a bucket that is full.
* `safe_iff`: a sequence of insertions does when no bucket is given more than eight keys.
-/

namespace Wow.Iot.HashMap

/-! ### The accesses -/

/-- A read or a write of `len` bytes from `start` on, in a block of `block` bytes. -/
structure Access where
  block : Nat
  start : Nat
  len : Nat
  deriving DecidableEq, Repr

/-- The access lies in its block. -/
def Access.Inside (a : Access) : Prop := a.start + a.len ≤ a.block

instance (a : Access) : Decidable a.Inside := inferInstanceAs (Decidable (_ ≤ _))

/-- `sizeof(HashMapItemList_T) + maxn * item_step`. -/
def blockLen (step maxn : Nat) : Nat := sizeofItemList + maxn * step

/-- `list->size`. -/
def sizeField (block : Nat) : Access := ⟨block, 0, 8⟩

/-- `list->maxn`. -/
def maxnField (block : Nat) : Access := ⟨block, 8, 8⟩

section Accesses

variable {α β κ ν : Type} (K : Element α κ) (V : Element β ν) (fHash : α → Nat)

/-- The key of an item. -/
def keyOf (step block item : Nat) : Access := ⟨block, sizeofItemList + item * step, K.size⟩

/-- The value of an item. -/
def valOf (step block item : Nat) : Access := ⟨block, sizeofItemList + item * step + K.size, V.size⟩

/-- The loop of `hash_map_item_find` from the item `i` on. -/
def findAccesses (step block : Nat) (key : α) : Nat → List (κ × ν) → List Access
  | _, [] => [sizeField block]
  | i, item :: items =>
    sizeField block :: keyOf K step block i ::
      if (K.fData item.1).any fun k => K.fComp key k = 0 then [] else findAccesses step block key (i + 1) items

/-- The growing path: the head before and behind `REALLOC`, and the bytes that are cleared.  The address of those is
counted in list heads. -/
def growAccesses (step maxn grow : Nat) : List Access :=
  let block := blockLen step (maxn + grow)
  [maxnField (blockLen step maxn), maxnField block, maxnField block,
    ⟨block, sizeofItemList * (sizeofItemList + (maxn + grow) * step), grow * step⟩]

/-- A new item at the end of the list. -/
def fillAccesses (step block item : Nat) : List Access :=
  [sizeField block, keyOf K step block item, valOf K V step block item, sizeField block]

/-- The accesses of `wow_hash_map_insert` to the block of the bucket. -/
def insertAccesses (m : HashMap κ ν) (key : α) : List Access :=
  match m.hashList (m.buckOf fHash key) with
  | none =>
    let block := blockLen m.itemStep m.itemGrow
    [⟨block, 0, block⟩, sizeField block, maxnField block, keyOf K m.itemStep block 0, valOf K V m.itemStep block 0,
      maxnField block]
  | some list =>
    let block := blockLen m.itemStep list.maxn
    sizeField block :: findAccesses K m.itemStep block key 0 list.items ++
      match itemSeek K key list.items with
      | some (some item) => [valOf K V m.itemStep block item]
      | _ => sizeField block :: maxnField block ::
        if list.items.length ≥ list.maxn then
          growAccesses m.itemStep list.maxn m.itemGrow
            ++ fillAccesses K V m.itemStep (blockLen m.itemStep (list.maxn + m.itemGrow)) list.items.length
        else fillAccesses K V m.itemStep block list.items.length

/-- **The requirement**: every access of every insertion lies inside the block. -/
def Safe : HashMap κ ν → List (α × β) → Prop
  | _, [] => True
  | m, (key, val) :: ops => (∀ a ∈ insertAccesses K V fHash m key, a.Inside) ∧
    match wowHashMapInsert K V fHash m (some key) (some val) with
    | none => True
    | some r => Safe r.2 ops

end Accesses

/-! ### One insertion -/

section Step

variable {α β κ ν : Type} {K : Element α κ} {V : Element β ν} {fHash : α → Nat}

theorem inside_sizeField (step maxn : Nat) : (sizeField (blockLen step maxn)).Inside := by
  simp only [Access.Inside, sizeField, blockLen, sizeofItemList]
  omega

theorem inside_maxnField (step maxn : Nat) : (maxnField (blockLen step maxn)).Inside := by
  simp only [Access.Inside, maxnField, blockLen, sizeofItemList]
  omega

/-- The items that there is room for lie in the block. -/
theorem item_le {item maxn : Nat} (h : item < maxn) (step : Nat) : item * step + step ≤ maxn * step := by
  rw [← Nat.succ_mul]
  exact Nat.mul_le_mul_right step h

theorem inside_keyOf {item maxn step : Nat} (h : item < maxn) (hstep : step = K.size + V.size) :
    (keyOf K step (blockLen step maxn) item).Inside := by
  have := item_le h step
  simp only [Access.Inside, keyOf, blockLen]
  omega

theorem inside_valOf {item maxn step : Nat} (h : item < maxn) (hstep : step = K.size + V.size) :
    (valOf K V step (blockLen step maxn) item).Inside := by
  have := item_le h step
  simp only [Access.Inside, valOf, blockLen]
  omega

theorem inside_findAccesses {maxn step : Nat} (hstep : step = K.size + V.size) (key : α) (items : List (κ × ν))
    {i : Nat} (h : i + items.length ≤ maxn) :
    ∀ a ∈ findAccesses K step (blockLen step maxn) key i items, a.Inside := by
  induction items generalizing i with
  | nil =>
    intro a ha
    rw [List.mem_singleton.mp ha]
    exact inside_sizeField step maxn
  | cons item items ih =>
    rw [List.length_cons] at h
    intro a ha
    simp only [findAccesses, List.mem_cons] at ha
    rcases ha with rfl | rfl | ha
    · exact inside_sizeField step maxn
    · exact inside_keyOf (V := V) (by omega) hstep
    · split at ha
      · exact absurd ha List.not_mem_nil
      · exact ih (by omega) a ha

theorem inside_fillAccesses {item maxn step : Nat} (h : item < maxn) (hstep : step = K.size + V.size) :
    ∀ a ∈ fillAccesses K V step (blockLen step maxn) item, a.Inside := by
  intro a ha
  simp only [fillAccesses, List.mem_cons, List.not_mem_nil, or_false] at ha
  rcases ha with rfl | rfl | rfl | rfl
  · exact inside_sizeField step maxn
  · exact inside_keyOf (V := V) h hstep
  · exact inside_valOf h hstep
  · exact inside_sizeField step maxn

variable {m : HashMap κ ν} {L : Nat → List (α × β)}

/-- **One insertion** keeps inside the block of its bucket, unless its key is new there and the bucket is full. -/
theorem inside_iff (hK : K.Lawful) (hm : Inv K V fHash m L) (hstep : m.itemStep = K.size + V.size) (key : α) :
    (∀ a ∈ insertAccesses K V fHash m key, a.Inside) ↔ HasRoom K key (m.hashList (m.buckOf fHash key)) := by
  have hbucket := hm.bucket (m.buckOf fHash key)
  rw [insertAccesses]
  cases hlist : m.hashList (m.buckOf fHash key) with
  | none =>
    refine iff_of_true (fun a ha => ?_) trivial
    have hpos : 0 < m.itemGrow := by rw [hm.itemGrow]; decide
    simp only [List.mem_cons, List.not_mem_nil, or_false] at ha
    rcases ha with rfl | rfl | rfl | rfl | rfl | rfl
    · exact Nat.le_of_eq (Nat.zero_add _)
    · exact inside_sizeField _ _
    · exact inside_maxnField _ _
    · exact inside_keyOf (V := V) hpos hstep
    · exact inside_valOf hpos hstep
    · exact inside_maxnField _ _
  | some list =>
    rw [hlist] at hbucket
    obtain ⟨hmaxn, -, hlen, hitems⟩ := hbucket
    have hle : list.items.length ≤ list.maxn := by rw [hitems.length_eq]; omega
    have hfind := inside_findAccesses (V := V) hstep key list.items (show 0 + list.items.length ≤ list.maxn by omega)
    have hhead := List.forall_mem_cons.mpr ⟨inside_sizeField m.itemStep list.maxn, hfind⟩
    simp only [HasRoom]
    rw [List.forall_mem_append, and_iff_right hhead]
    rcases itemSeek_split hK key hitems with ⟨hnone, -⟩ | ⟨I, it, J, A, v, B, hI, -, hseek, -⟩
    · rw [hnone]
      simp only [List.forall_mem_cons, inside_sizeField, inside_maxnField, true_and, true_implies]
      by_cases hfull : list.items.length ≥ list.maxn
      · rw [if_pos hfull]
        refine iff_of_false (fun h => ?_) (by omega)
        -- the bytes that are cleared
        exact not_clearInside _ _ _ (h _ (List.mem_append_left _ (List.mem_cons_of_mem _ (List.mem_cons_of_mem _
          (List.mem_cons_of_mem _ List.mem_cons_self)))))
      · rw [if_neg hfull]
        exact iff_of_true (inside_fillAccesses (by omega) hstep) (by omega)
    · have hlt : I.length < list.maxn := by
        rw [hI, List.length_append, List.length_cons] at hle
        omega
      rw [hseek]
      refine iff_of_true (fun a ha => ?_) fun h => by cases h
      rw [List.mem_singleton.mp ha]
      exact inside_valOf hlt hstep

/-- The bytes of an item stay the same. -/
theorem itemStep_insert {key : α} {val : β} {r : Int × HashMap κ ν}
    (h : wowHashMapInsert K V fHash m (some key) (some val) = some r) : r.2.itemStep = m.itemStep := by
  rw [wowHashMapInsert, Option.bind_eq_some_iff] at h
  obtain ⟨found, -, h⟩ := h
  rw [Option.map_eq_some_iff] at h
  obtain ⟨m', h, rfl⟩ := h
  cases found with
  | some item =>
    simp only [replaceAt, Option.bind_eq_some_iff, Option.map_eq_some_iff] at h
    obtain ⟨_, -, _, -, _, -, rfl⟩ := h
    rfl
  | none =>
    simp only [insertNew] at h
    cases hlist : m.hashList (m.buckOf fHash key) with
    | none =>
      rw [hlist] at h
      cases h
      rfl
    | some list =>
      rw [hlist, Option.map_eq_some_iff] at h
      obtain ⟨_, -, rfl⟩ := h
      rfl

end Step

/-! ### Every sequence of insertions -/

section Run

variable {α β κ ν : Type} [DecidableEq α] {K : Element α κ} {V : Element β ν} {fHash : α → Nat}
variable {m : HashMap κ ν} {L : Nat → List (α × β)} {r : α → Option β}

/-- The different keys among `keys` that belong to the bucket `b`. -/
def keysOf (fHash : α → Nat) (b : Nat) (keys : List α) : Finset α := keys.toFinset.filter fun k => fHash k % 15 = b

theorem mem_keysOf {b : Nat} {keys : List α} {k : α} : k ∈ keysOf fHash b keys ↔ k ∈ keys ∧ fHash k % 15 = b := by
  rw [keysOf, Finset.mem_filter, List.mem_toFinset]

/-- The keys that a bucket has or is still given, by what the map stands for. -/
theorem mem_keys_ahead (hr : Stores fHash L r) {ops : List (α × β)} {b : Nat} {k : α} :
    k ∈ keysOf fHash b ((L b ++ ops).map Prod.fst) ↔ fHash k % 15 = b ∧
    ((∃ v, r k = some v) ∨ k ∈ ops.map Prod.fst) := by
  rw [mem_keysOf, and_comm, List.map_append, List.mem_append]
  refine and_congr_right fun hb => or_congr_left ?_
  constructor
  · intro h
    obtain ⟨⟨k', v⟩, he, rfl⟩ := List.mem_map.mp h
    exact ⟨v, (hr _ v).mpr (hb ▸ he)⟩
  · rintro ⟨v, hv⟩
    exact List.mem_map.mpr ⟨(k, v), hb ▸ (hr k v).mp hv, rfl⟩

/-- A key that finds no room is the ninth of its bucket. -/
theorem nine_of_not_hasRoom (hK : K.Lawful) (hm : Inv K V fHash m L) {key : α} (val : β) (ops : List (α × β))
    (h : ¬HasRoom K key (m.hashList (m.buckOf fHash key))) :
    8 < (keysOf fHash (fHash key % 15) ((L (fHash key % 15) ++ (key, val) :: ops).map Prod.fst)).card := by
  rw [hm.buckOf_eq] at h
  have hbucket := hm.bucket (fHash key % 15)
  have hnd := hm.nodup (fHash key % 15)
  have hhash := hm.hashed (fHash key % 15)
  cases hlist : m.hashList (fHash key % 15) with
  | none =>
    rw [hlist] at h
    exact absurd trivial h
  | some list =>
    rw [hlist] at h hbucket
    obtain ⟨hmaxn, -, -, hitems⟩ := hbucket
    simp only [HasRoom, Classical.not_imp] at h
    obtain ⟨hseek, hfull⟩ := h
    have habs : key ∉ (L (fHash key % 15)).map Prod.fst := by
      intro hmem
      obtain ⟨e, he, hk⟩ := List.mem_map.mp hmem
      rcases itemSeek_split hK key hitems with ⟨-, hother⟩ | ⟨I, it, J, A, v, B, -, -, hfound, -⟩
      · exact hother e he hk
      · rw [hseek] at hfound
        cases hfound
    have hsub : (key :: (L (fHash key % 15)).map Prod.fst).toFinset ⊆
        keysOf fHash (fHash key % 15) ((L (fHash key % 15) ++ (key, val) :: ops).map Prod.fst) := by
      intro k hk
      rw [List.mem_toFinset, List.mem_cons] at hk
      rw [mem_keysOf, List.map_append, List.map_cons, List.mem_append, List.mem_cons]
      rcases hk with rfl | hk
      · exact ⟨Or.inr (Or.inl rfl), rfl⟩
      · refine ⟨Or.inl hk, ?_⟩
        obtain ⟨e, he, rfl⟩ := List.mem_map.mp hk
        exact hhash e he
    have hcard := Finset.card_le_card hsub
    rw [List.toFinset_card_of_nodup (List.nodup_cons.mpr ⟨habs, hnd⟩), List.length_cons, List.length_map,
      ← hitems.length_eq] at hcard
    omega

/-- **Every sequence of insertions** into a map in order. -/
theorem safe_iff_ahead (hK : K.Lawful) (hV : V.Lawful) (hstep : m.itemStep = K.size + V.size) (hm : Inv K V fHash m L)
    (hr : Stores fHash L r) (ops : List (α × β)) :
    Safe K V fHash m ops ↔ ∀ b, (keysOf fHash b ((L b ++ ops).map Prod.fst)).card ≤ 8 := by
  induction ops generalizing m L r with
  | nil =>
    refine iff_of_true trivial fun b => ?_
    have hlen : (L b).length ≤ 8 := by
      have hbucket := hm.bucket b
      cases hlist : m.hashList b with
      | none =>
        rw [hlist] at hbucket
        rw [show L b = [] from hbucket]
        exact Nat.zero_le 8
      | some list =>
        rw [hlist] at hbucket
        exact hbucket.2.2.1
    calc (keysOf fHash b ((L b ++ []).map Prod.fst)).card
        ≤ ((L b ++ []).map Prod.fst).toFinset.card := Finset.card_filter_le _ _
      _ ≤ ((L b ++ []).map Prod.fst).length := List.toFinset_card_le _
      _ ≤ 8 := by rwa [List.append_nil, List.length_map]
  | cons op ops ih =>
    obtain ⟨key, val⟩ := op
    rw [Safe, inside_iff hK hm hstep]
    by_cases hroom : HasRoom K key (m.hashList (m.buckOf fHash key))
    · obtain ⟨m', hs, L', hm', hr'⟩ := step_kept hK hV hm hr (show Fits K fHash m (.insert (some key) (some val)) from hroom)
      rw [step, Option.map_eq_some_iff] at hs
      obtain ⟨res, hres, rfl⟩ := hs
      rw [and_iff_right hroom, hres]
      simp only
      rw [ih ((itemStep_insert hres).trans hstep) hm' hr']
      refine forall_congr' fun b => ?_
      have hkeys : keysOf fHash b ((L' b ++ ops).map Prod.fst) = keysOf fHash b ((L b ++ (key, val) :: ops).map Prod.fst) := by
        ext k
        rw [mem_keys_ahead hr', mem_keys_ahead hr, List.map_cons, List.mem_cons, Op.ref]
        refine and_congr_right fun _ => ?_
        by_cases hk : k = key
        · subst hk
          rw [Function.update_self]
          exact iff_of_true (Or.inl ⟨val, rfl⟩) (Or.inr (Or.inl rfl))
        · rw [Function.update_of_ne hk]
          exact or_congr_right (or_iff_right hk).symm
      rw [hkeys]
    · refine iff_of_false (fun h => hroom h.1) fun h => ?_
      have := nine_of_not_hasRoom hK hm val ops hroom
      exact absurd (h (fHash key % 15)) (by omega)

end Run

/-- **Every access of every insertion lies in the block of its bucket** exactly when no bucket is given more than eight
different keys, whatever the hash function and the types of the keys and the values are. -/
theorem safe_iff (kt vt : ElementType) (fHash : kt.Arg → Nat) (ops : List (kt.Arg × vt.Arg)) :
    Safe (wowElementOps kt) (wowElementOps vt) fHash (wowHashMapCreate (wowElementOps kt) (wowElementOps vt)) ops ↔
      ∀ b, (keysOf fHash b (ops.map Prod.fst)).card ≤ 8 :=
  safe_iff_ahead (lawful_ops kt) (lawful_ops vt) rfl inv_create
    (fun _ v => iff_of_false (Option.some_ne_none v).symm List.not_mem_nil) ops

theorem nineKeys_lt (i : Fin 9) : 0 < 15 * (i.1 + 1) ∧ 15 * (i.1 + 1) < 2 ^ 32 := by omega

theorem nineKeys_value_lt : 0 < 1 ∧ 1 < 2 ^ 32 := by decide

/-- Nine keys for one bucket. -/
def nineKeys : List (ElementType.uint32.Arg × ElementType.uint32.Arg) :=
  (List.finRange 9).map fun i => (⟨15 * (i.1 + 1), nineKeys_lt i⟩, ⟨1, nineKeys_value_lt⟩)

/-- With the ninth the list grows, and bytes far behind its block are cleared. -/
theorem not_safe_nine : ¬Safe (wowElementOps .uint32) (wowElementOps .uint32) (plainHash .uint32)
    (wowHashMapCreate (wowElementOps .uint32) (wowElementOps .uint32)) nineKeys := by
  intro h
  have hcard := (safe_iff_ahead (lawful_ops .uint32) (lawful_ops .uint32) rfl inv_create
    (fun _ v => iff_of_false (Option.some_ne_none v).symm List.not_mem_nil) nineKeys).mp h 0
  exact absurd hcard (by decide)

end Wow.Iot.HashMap
