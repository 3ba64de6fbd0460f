import Wow.Iot.HashMap
import Mathlib.Data.List.Forall2
import Mathlib.Data.List.Perm.Basic
import Mathlib.Data.List.Nodup

/-!
# Wow.Iot.HashMapRefine — the hash map is a finite map

A bucket that is full is made larger, and the block that is cleared then lies outside (`not_clearInside`).  As long
as no ninth key comes to a bucket (`Fits`), the map answers as the finite map does, for every hash function and
every type of keys and values.

* `itemSeek_split`: the search in a bucket; `Inv.insert`, `Inv.remove`, `Inv.clear`: the calls.
* `step_kept`: one call; `hashMap_refines`: every sequence of calls.
-/

namespace Wow.Iot.HashMap

variable {α β κ ν : Type} {K : Element α κ} {V : Element β ν} {fHash : α → Nat}

/-! ### The map -/

section Ref

variable [DecidableEq α]

/-- What a call does to the map it stands for. -/
def Op.ref (r : α → Option β) : Op α β → α → Option β
  | .insert (some key) (some val) => Function.update r key (some val)
  | .remove (some key) => Function.update r key none
  | .clear => fun _ => none
  | _ => r

/-- The hash map and the map, call by call. -/
def lock (K : Element α κ) (V : Element β ν) (fHash : α → Nat) (m : HashMap κ ν) (r : α → Option β) :
    List (Op α β) → Option (HashMap κ ν × (α → Option β))
  | [] => some (m, r)
  | op :: ops => (step K V fHash m op).bind fun m' => lock K V fHash m' (op.ref r) ops

end Ref

/-- **What the hash map answers** is what the map holds: every key, the visits and the size. -/
structure Agrees (K : Element α κ) (V : Element β ν) (fHash : α → Nat) (m : HashMap κ ν)
    (r : α → Option β) : Prop where
  get : ∀ key, wowHashMapGet K V fHash m (some key) = some (r key)
  visits : ∃ L : List (α × β), (L.map Prod.fst).Nodup ∧ (∀ k v, (k, v) ∈ L ↔ r k = some v) ∧
    wowHashMapForeach V m = L.map (fun e => some e.2) ∧ wowHashMapSize m = L.length

/-! ### The condition -/

/-- A key that is new to its bucket finds room there. -/
def HasRoom (K : Element α κ) (key : α) : Option (HashMapItemList κ ν) → Prop
  | none => True
  | some list => itemSeek K key list.items = some none → list.items.length < list.maxn

instance (key : α) : ∀ list : Option (HashMapItemList κ ν), Decidable (HasRoom K key list)
  | none => inferInstanceAs (Decidable True)
  | some list => inferInstanceAs (Decidable (itemSeek K key list.items = some none → _))

/-- **The condition**: no ninth key comes to a bucket. -/
def Fits (K : Element α κ) (fHash : α → Nat) (m : HashMap κ ν) : Op α β → Prop
  | .insert (some key) (some _) => HasRoom K key (m.hashList (m.buckOf fHash key))
  | _ => True

instance decidableFits (m : HashMap κ ν) : ∀ op : Op α β, Decidable (Fits K fHash m op)
  | .insert (some key) (some _) => inferInstanceAs (Decidable (HasRoom K key _))
  | .insert none _ | .insert (some _) none | .remove _ | .clear => inferInstanceAs (Decidable True)

/-- The condition holds at every call up to a fault. -/
def Fitting (K : Element α κ) (V : Element β ν) (fHash : α → Nat) : HashMap κ ν → List (Op α β) → Prop
  | _, [] => True
  | m, op :: ops => Fits K fHash m op ∧ match step K V fHash m op with
    | none => True
    | some m' => Fitting K V fHash m' ops

instance decidableFitting : ∀ (m : HashMap κ ν) (ops : List (Op α β)), Decidable (Fitting K V fHash m ops)
  | _, [] => inferInstanceAs (Decidable True)
  | m, op :: ops =>
    have : Decidable (match step K V fHash m op with
      | none => True
      | some m' => Fitting K V fHash m' ops) :=
      match step K V fHash m op with
      | none => inferInstanceAs (Decidable True)
      | some m' => decidableFitting m' ops
    inferInstanceAs (Decidable (Fits K fHash m op ∧ _))

/-- **A list that grows** is cleared outside of its block. -/
theorem not_clearInside (step maxn grow : Nat) : ¬ clearInside step maxn grow := by
  have h : maxn * step ≤ sizeofItemList * (maxn * step) := Nat.le_mul_of_pos_left _ (by decide)
  rw [clearInside, Nat.mul_add, show sizeofItemList * sizeofItemList = sizeofItemList + 240 from rfl]
  omega

/-! ### Buckets -/

/-- The item holds the entry. -/
def Item (K : Element α κ) (V : Element β ν) (item : κ × ν) (e : α × β) : Prop :=
  K.fData item.1 = some e.1 ∧ V.fData item.2 = some e.2

/-- The bucket holds the entries. -/
def Bucket (K : Element α κ) (V : Element β ν) : Option (HashMapItemList κ ν) → List (α × β) → Prop
  | none, es => es = []
  | some list, es => list.maxn = 8 ∧ es ≠ [] ∧ es.length ≤ 8 ∧ List.Forall₂ (Item K V) list.items es

/-- The search in a bucket: the key is not there, or it is in front of the items it has not come to. -/
theorem itemSeek_split (hK : K.Lawful) (key : α) {items : List (κ × ν)} {es : List (α × β)}
    (h : List.Forall₂ (Item K V) items es) :
    (itemSeek K key items = some none ∧ ∀ e ∈ es, e.1 ≠ key) ∨
      ∃ I it J A v B, items = I ++ it :: J ∧ es = A ++ (key, v) :: B ∧ itemSeek K key items = some (some I.length) ∧
        List.Forall₂ (Item K V) I A ∧ Item K V it (key, v) ∧ List.Forall₂ (Item K V) J B := by
  induction h with
  | nil => exact Or.inl ⟨rfl, nofun⟩
  | @cons it e items es hit hrest ih =>
    obtain ⟨k, v⟩ := e
    rw [itemSeek, hit.1, Option.bind_some]
    by_cases hk : key = k
    · subst hk
      rw [if_pos ((hK.comp_eq_zero _ _).mpr rfl)]
      exact Or.inr ⟨[], it, items, [], v, es, rfl, rfl, rfl, List.Forall₂.nil, hit, hrest⟩
    · rw [if_neg fun h => hk ((hK.comp_eq_zero _ _).mp h)]
      rcases ih with ⟨hseek, habs⟩ | ⟨I, it', J, A, v', B, rfl, rfl, hseek, hA, hit', hB⟩
      · rw [hseek]
        exact Or.inl ⟨rfl, List.forall_mem_cons.mpr ⟨fun heq => hk heq.symm, habs⟩⟩
      · rw [hseek]
        exact Or.inr ⟨it :: I, it', J, (k, v) :: A, v', B, rfl, rfl, rfl, List.Forall₂.cons hit hA, hit', hB⟩

/-- The entry of a key among entries of distinct keys. -/
theorem nodup_split {A B : List (α × β)} {key : α} {v : β} (h : ((A ++ (key, v) :: B).map Prod.fst).Nodup) :
    (∀ e ∈ A ++ B, e.1 ≠ key) ∧ ((A ++ B).map Prod.fst).Nodup := by
  rw [List.map_append, List.map_cons] at h
  have hperm : (A.map Prod.fst ++ key :: B.map Prod.fst).Perm (key :: (A ++ B).map Prod.fst) := by
    rw [List.map_append]
    exact List.perm_middle
  obtain ⟨hkey, hrest⟩ := List.nodup_cons.mp (hperm.nodup_iff.mp h)
  exact ⟨fun e he heq => hkey (heq ▸ List.mem_map_of_mem he), hrest⟩

/-- All entries, when one bucket gets others. -/
theorem flatMap_update {l : List Nat} (hl : l.Nodup) {b : Nat} (hb : b ∈ l) (L : Nat → List (α × β))
    (es : List (α × β)) :
    (l.flatMap (Function.update L b es)).length + (L b).length = (l.flatMap L).length + es.length := by
  have hsplit : ∀ M : Nat → List (α × β), (l.flatMap M).length = (M b).length + ((l.erase b).flatMap M).length := by
    intro M
    rw [((List.perm_cons_erase hb).flatMap_right M).length_eq, List.flatMap_cons, List.length_append]
  have hrest : (l.erase b).flatMap (Function.update L b es) = (l.erase b).flatMap L :=
    List.flatMap_congr fun i hi => Function.update_of_ne (hl.mem_erase_iff.mp hi).1 _ _
  rw [hsplit, hsplit L, hrest, Function.update_self]
  omega

/-! ### The invariant -/

/-- The buckets hold the entries `L`, each in the bucket of its key. -/
structure Inv (K : Element α κ) (V : Element β ν) (fHash : α → Nat) (m : HashMap κ ν)
    (L : Nat → List (α × β)) : Prop where
  hashSize : m.hashSize = 16
  itemGrow : m.itemGrow = 8
  bucket : ∀ b, Bucket K V (m.hashList b) (L b)
  hashed : ∀ b, ∀ e ∈ L b, fHash e.1 % 15 = b
  nodup : ∀ b, ((L b).map Prod.fst).Nodup
  itemSize : m.itemSize = ((List.range 16).flatMap L).length

/-- The map holds the same entries. -/
def Stores (fHash : α → Nat) (L : Nat → List (α × β)) (r : α → Option β) : Prop :=
  ∀ k v, r k = some v ↔ (k, v) ∈ L (fHash k % 15)

/-- Another value for one key: its bucket holds that, and the entries of the other keys as before. -/
theorem Stores.update [DecidableEq α] {L : Nat → List (α × β)} {r : α → Option β} (hr : Stores fHash L r) {key : α}
    {val : Option β} {es : List (α × β)} (hkey : ∀ v, (key, v) ∈ es ↔ val = some v)
    (hother : ∀ k v, k ≠ key → ((k, v) ∈ es ↔ (k, v) ∈ L (fHash key % 15))) :
    Stores fHash (Function.update L (fHash key % 15) es) (Function.update r key val) := by
  intro k v
  by_cases hk : k = key
  · subst hk
    rw [Function.update_self, Function.update_self, hkey]
  rw [Function.update_of_ne hk, hr k v]
  by_cases hb : fHash k % 15 = fHash key % 15
  · rw [hb, Function.update_self, hother k v hk]
  · rw [Function.update_of_ne hb]

namespace Inv

variable {m : HashMap κ ν} {L : Nat → List (α × β)} {r : α → Option β} {key : α}

theorem buckOf_eq (hm : Inv K V fHash m L) (key : α) : m.buckOf fHash key = fHash key % 15 := by
  rw [buckOf, hm.hashSize]

/-- Another list in one bucket. -/
theorem put (hm : Inv K V fHash m L) {b : Nat} (hb : b < 15) (es : List (α × β))
    {list : Option (HashMapItemList κ ν)} {n n' : Nat} (hlist : Bucket K V list es)
    (hes : ∀ e ∈ es, fHash e.1 % 15 = b) (hnd : (es.map Prod.fst).Nodup)
    (hn : n + (L b).length = m.itemSize + es.length) :
    Inv K V fHash { m with hashList := Function.update m.hashList b list, itemSize := n, itemMaxn := n' }
      (Function.update L b es) := by
  have hcount := flatMap_update (List.nodup_range (n := 16)) (List.mem_range.mpr (by omega : b < 16)) L es
  rw [← hm.itemSize] at hcount
  refine ⟨hm.hashSize, hm.itemGrow, fun i => ?_, fun i => ?_, fun i => ?_, show n = _ by omega⟩
  all_goals by_cases hi : i = b
  · subst hi
    simp only [Function.update_self]
    exact hlist
  · simp only [Function.update_of_ne hi]
    exact hm.bucket i
  · subst hi
    rw [Function.update_self]
    exact hes
  · rw [Function.update_of_ne hi]
    exact hm.hashed i
  · subst hi
    rw [Function.update_self]
    exact hnd
  · rw [Function.update_of_ne hi]
    exact hm.nodup i

/-- What a search finds: nothing, or the item of the key. -/
theorem itemFind_split (hK : K.Lawful) (hm : Inv K V fHash m L) (key : α) :
    (itemFind K fHash m key = some none ∧ ∀ e ∈ L (fHash key % 15), e.1 ≠ key) ∨
      ∃ list I it J A v B, m.hashList (fHash key % 15) = some list ∧ list.maxn = 8 ∧ list.items = I ++ it :: J ∧
        L (fHash key % 15) = A ++ (key, v) :: B ∧ (A ++ (key, v) :: B).length ≤ 8 ∧
        itemFind K fHash m key = some (some I.length) ∧ List.Forall₂ (Item K V) I A ∧ Item K V it (key, v) ∧
        List.Forall₂ (Item K V) J B := by
  have hb := hm.bucket (fHash key % 15)
  rw [itemFind, hm.buckOf_eq]
  cases hlist : m.hashList (fHash key % 15) with
  | none =>
    rw [hlist] at hb
    exact Or.inl ⟨rfl, by rw [show L (fHash key % 15) = [] from hb]; nofun⟩
  | some list =>
    rw [hlist] at hb
    obtain ⟨hmaxn, -, hlen, hitems⟩ := hb
    rcases itemSeek_split hK key hitems with hnone | ⟨I, it, J, A, v, B, hI, hL, hseek, hA, hit, hB⟩
    · exact Or.inl hnone
    · exact Or.inr ⟨list, I, it, J, A, v, B, rfl, hmaxn, hI, hL, hL ▸ hlen, hseek, hA, hit, hB⟩

/-- The entries of a bucket are among all. -/
theorem length_le (hm : Inv K V fHash m L) {b : Nat} (hb : b < 15) : (L b).length ≤ m.itemSize := by
  have hcount := flatMap_update (List.nodup_range (n := 16)) (List.mem_range.mpr (by omega : b < 16)) L []
  rw [← hm.itemSize, List.length_nil] at hcount
  omega

/-! ### The calls -/

section Calls

variable [DecidableEq α]

/-- The map is in order and stands for `r`. -/
def Kept (K : Element α κ) (V : Element β ν) (fHash : α → Nat) (r : α → Option β) (m : HashMap κ ν) : Prop :=
  ∃ L, Inv K V fHash m L ∧ Stores fHash L r

/-- **A key that is there** gets the new value. -/
theorem replace (val : β) (hV : V.Lawful) (hm : Inv K V fHash m L) (hr : Stores fHash L r)
    {list : HashMapItemList κ ν}
    {I J : List (κ × ν)} {it : κ × ν} {A B : List (α × β)} {v : β} (hlist : m.hashList (fHash key % 15) = some list)
    (hmaxn : list.maxn = 8) (hitems : list.items = I ++ it :: J) (hL : L (fHash key % 15) = A ++ (key, v) :: B)
    (hlen : (A ++ (key, v) :: B).length ≤ 8) (hA : List.Forall₂ (Item K V) I A) (hit : Item K V it (key, v))
    (hB : List.Forall₂ (Item K V) J B) :
    ∃ m', replaceAt V m (fHash key % 15) I.length val = some m' ∧
      Kept K V fHash (Function.update r key (some val)) m' := by
  obtain ⟨v', hrepl, hdata⟩ := hV.data_repl hit.2 val
  have hget : list.items[I.length]? = some it := by rw [hitems]; simp
  have hset : list.items.set I.length (it.1, v') = I ++ (it.1, v') :: J := by rw [hitems]; simp
  have hnd := hm.nodup (fHash key % 15)
  have hhash := hm.hashed (fHash key % 15)
  rw [hL] at hnd hhash
  obtain ⟨hother, -⟩ := nodup_split hnd
  have hkeys : (A ++ (key, val) :: B).map Prod.fst = (A ++ (key, v) :: B).map Prod.fst := by simp
  have hmem : ∀ k w, k ≠ key → ((k, w) ∈ A ++ (key, val) :: B ↔ (k, w) ∈ A ++ (key, v) :: B) := by
    intro k w hk
    simp [hk]
  refine ⟨_, by rw [replaceAt, hlist, Option.bind_some, hget, Option.bind_some, hrepl, Option.map_some, hset], ?_⟩
  refine ⟨_, hm.put (Nat.mod_lt _ (by decide)) (A ++ (key, val) :: B) ⟨hmaxn, by simp, by simpa using hlen, ?_⟩ ?_ ?_ ?_,
    hr.update ?_ ?_⟩
  · exact List.rel_append hA (List.Forall₂.cons ⟨hit.1, hdata⟩ hB)
  · intro e he
    rcases eq_or_ne e.1 key with hk | hk
    · rw [hk]
    · exact hhash e ((hmem e.1 e.2 hk).mp he)
  · rw [hkeys]
    exact hnd
  · rw [hL, List.length_append, List.length_append, List.length_cons, List.length_cons]
  · intro w
    have habs : ∀ C : List (α × β), (∀ e ∈ C, e.1 ≠ key) → (key, w) ∉ C := fun C hC hw => hC _ hw rfl
    have hAk := habs A fun e he => hother e (List.mem_append_left B he)
    have hBk := habs B fun e he => hother e (List.mem_append_right A he)
    simp [hAk, hBk, eq_comm]
  · intro k w hk
    rw [hL]
    exact hmem k w hk

/-- **A key that is not there** comes to the end of its bucket, if there is room. -/
theorem insert_new (val : β) (hK : K.Lawful) (hV : V.Lawful) (hm : Inv K V fHash m L) (hr : Stores fHash L r)
    (habs : ∀ e ∈ L (fHash key % 15), e.1 ≠ key)
    (hroom : ∀ list, m.hashList (fHash key % 15) = some list → list.items.length < list.maxn) :
    ∃ m', insertNew K V m (fHash key % 15) key val = some m' ∧
      Kept K V fHash (Function.update r key (some val)) m' := by
  set b := fHash key % 15 with hbdef
  have hb : b < 15 := Nat.mod_lt _ (by decide)
  have hnew : Item K V (K.fDupl key, V.fDupl val) (key, val) := ⟨hK.data_dupl key, hV.data_dupl val⟩
  have hhash : ∀ e ∈ L b ++ [(key, val)], fHash e.1 % 15 = b := by
    intro e he
    rcases List.mem_append.mp he with he | he
    · exact hm.hashed b e he
    · rw [List.mem_singleton.mp he]
  have hnd : ((L b ++ [(key, val)]).map Prod.fst).Nodup := by
    rw [List.map_append, List.map_singleton]
    refine List.nodup_append.mpr ⟨hm.nodup b, List.nodup_singleton key, ?_⟩
    rintro k hk k' hk' rfl
    obtain ⟨e, he, rfl⟩ := List.mem_map.mp hk
    exact habs e he (List.mem_singleton.mp hk')
  have hstores : Stores fHash (Function.update L b (L b ++ [(key, val)])) (Function.update r key (some val)) := by
    refine hr.update (fun w => ?_) fun k w hk => ?_
    · have hw : (key, w) ∉ L b := fun hw => habs _ hw rfl
      simp [hw, eq_comm]
    · simp [hk, hbdef]
  have hcount : (L b).length + 1 = (L b ++ [(key, val)]).length := by simp
  have hbucket := hm.bucket b
  cases hlist : m.hashList b with
  | none =>
    rw [hlist] at hbucket
    have hL : L b = [] := hbucket
    refine ⟨_, by rw [insertNew, hlist], _, hm.put hb (L b ++ [(key, val)]) ?_ hhash hnd (by omega), hstores⟩
    rw [hL, List.nil_append]
    exact ⟨hm.itemGrow, by simp, by simp, List.Forall₂.cons hnew List.Forall₂.nil⟩
  | some list =>
    rw [hlist] at hbucket
    obtain ⟨hmaxn, hne, hlen, hitems⟩ := hbucket
    have hlt := hroom list hlist
    have hmake : makeRoom m list = some (list, m.itemMaxn) := by rw [makeRoom, if_neg (by omega)]
    have hlist' : Bucket K V (some { list with items := list.items ++ [(K.fDupl key, V.fDupl val)] })
        (L b ++ [(key, val)]) := by
      refine ⟨hmaxn, by simp, ?_, List.rel_append hitems (List.Forall₂.cons hnew List.Forall₂.nil)⟩
      rw [← hcount, ← hitems.length_eq]
      omega
    exact ⟨_, by simp only [insertNew, hlist, hmake]; rfl, _, hm.put hb _ hlist' hhash hnd (by omega), hstores⟩

/-- **A key that is there** is removed, and no other. -/
theorem remove (hm : Inv K V fHash m L) (hr : Stores fHash L r) {list : HashMapItemList κ ν} {I J : List (κ × ν)}
    {it : κ × ν} {A B : List (α × β)} {v : β} (hlist : m.hashList (fHash key % 15) = some list)
    (hmaxn : list.maxn = 8)
    (hitems : list.items = I ++ it :: J) (hL : L (fHash key % 15) = A ++ (key, v) :: B)
    (hlen : (A ++ (key, v) :: B).length ≤ 8) (hA : List.Forall₂ (Item K V) I A) (hB : List.Forall₂ (Item K V) J B) :
    Kept K V fHash (Function.update r key none) (itorRemove m (indexMake (fHash key % 15 + 1) (I.length + 1))) := by
  set b := fHash key % 15 with hbdef
  have hb : b < 15 := Nat.mod_lt _ (by decide)
  have hIA := hA.length_eq
  have hJB := hB.length_eq
  rw [List.length_append, List.length_cons] at hlen
  obtain ⟨hbuck, hitem⟩ := index_indexMake (show b + 1 < 2 ^ 16 by omega) (show I.length + 1 < 2 ^ 16 by omega)
  have hilen : list.items.length = I.length + J.length + 1 := by rw [hitems, List.length_append, List.length_cons]; omega
  have herase : list.items.eraseIdx I.length = I ++ J := by rw [hitems]; simp [List.eraseIdx_append_of_length_le]
  have hnd := hm.nodup b
  have hhash := hm.hashed b
  have hle := hm.length_le hb
  rw [hL] at hnd hhash hle
  rw [List.length_append, List.length_cons] at hle
  obtain ⟨hother, hnd'⟩ := nodup_split hnd
  simp only [itorRemove, hbuck, hitem, Nat.add_sub_cancel, hlist]
  rw [if_neg (by omega), if_neg (by rw [hm.hashSize]; omega), if_pos (by omega), herase]
  refine ⟨_, hm.put hb (A ++ B) ?_ ?_ hnd' ?_, hr.update ?_ ?_⟩
  · split_ifs with hone
    · refine ⟨hmaxn, fun hnil => ?_, by rw [List.length_append]; omega, List.rel_append hA hB⟩
      have := congrArg List.length hnil
      rw [List.length_append, List.length_nil] at this
      omega
    · refine List.eq_nil_of_length_eq_zero ?_
      rw [List.length_append]
      omega
  · intro e he
    refine hhash e ?_
    rcases List.mem_append.mp he with he | he
    · exact List.mem_append_left _ he
    · exact List.mem_append_right _ (List.mem_cons_of_mem _ he)
  · rw [hL, List.length_append, List.length_append, List.length_cons]
    omega
  · intro w
    exact iff_of_false (fun hw => hother _ hw rfl) nofun
  · intro k w hk
    rw [hL]
    simp [hk]

omit [DecidableEq α] in
/-- Without any entry. -/
theorem clear (hm : Inv K V fHash m L) : Kept K V fHash (fun _ => none) (wowHashMapClear m) := by
  refine ⟨fun _ => [], ⟨hm.hashSize, hm.itemGrow, fun b => ?_, fun _ => nofun, fun _ => List.nodup_nil, ?_⟩, fun _ _ => ?_⟩
  · simp only [wowHashMapClear, hm.hashSize]
    split_ifs with hb
    · rfl
    · have hL : L b = [] := by
        refine List.eq_nil_iff_forall_not_mem.mpr fun e he => ?_
        have := hm.hashed b e he
        omega
      have hbucket := hm.bucket b
      rwa [hL] at hbucket
  · rw [List.flatMap_eq_nil_iff.mpr fun _ _ => rfl]
    rfl
  · exact iff_of_false nofun nofun

end Calls

/-! ### The answers -/

/-- All entries, bucket by bucket, have distinct keys. -/
theorem nodup_all (hm : Inv K V fHash m L) : (((List.range 16).flatMap L).map Prod.fst).Nodup := by
  rw [List.map_flatMap, List.nodup_flatMap]
  refine ⟨fun b _ => hm.nodup b, List.nodup_range.imp fun {b b'} hne => ?_⟩
  rintro k hk hk'
  obtain ⟨e, he, rfl⟩ := List.mem_map.mp hk
  obtain ⟨e', he', heq⟩ := List.mem_map.mp hk'
  have hb := hm.hashed b e he
  have hb' := hm.hashed b' e' he'
  rw [heq] at hb'
  exact hne (hb.symm.trans hb')

/-- The invariant answers for the map. -/
theorem agrees (hK : K.Lawful) (hm : Inv K V fHash m L) (hr : Stores fHash L r) : Agrees K V fHash m r := by
  constructor
  · intro key
    simp only [wowHashMapGet]
    rcases hm.itemFind_split hK key with ⟨hfind, habs⟩ | ⟨list, I, it, J, A, v, B, hlist, -, hitems, hL, -, hfind, -, hit, -⟩
    · rw [hfind, Option.bind_some]
      refine congrArg some (Option.eq_none_iff_forall_not_mem.mpr fun v hv => ?_).symm
      exact habs _ ((hr key v).mp hv) rfl
    · have hget : list.items[I.length]? = some it := by rw [hitems]; simp
      have hkey : r key = some v := (hr key v).mpr (by rw [hL]; simp)
      rw [hfind, hkey, Option.bind_some, hm.buckOf_eq]
      simp only [itemAt, hlist, Option.bind_some, hget, hit.2, Option.map_some]
  · refine ⟨(List.range 16).flatMap L, hm.nodup_all, fun k v => ?_, ?_, hm.itemSize⟩
    · rw [hr k v, List.mem_flatMap]
      constructor
      · rintro ⟨b, -, hb⟩
        rwa [← hm.hashed b _ hb] at hb
      · intro h
        exact ⟨fHash k % 15, List.mem_range.mpr (by omega), h⟩
    · rw [wowHashMapForeach, hm.hashSize, List.map_flatMap]
      refine List.flatMap_congr fun b _ => ?_
      have hbucket := hm.bucket b
      cases hlist : m.hashList b with
      | none =>
        rw [hlist] at hbucket
        rw [show L b = [] from hbucket, List.map_nil]
      | some list =>
        rw [hlist] at hbucket
        have hitems := hbucket.2.2.2
        exact List.forall₂_eq_eq_eq ▸ List.forall₂_map_left_iff.mpr
          (List.forall₂_map_right_iff.mpr (hitems.imp fun _ _ h => h.2))

end Inv

/-! ### Every sequence of calls -/

section Run

variable [DecidableEq α] {m : HashMap κ ν} {L : Nat → List (α × β)} {r : α → Option β}

/-- **One call** that meets the condition keeps the map in order. -/
theorem step_kept (hK : K.Lawful) (hV : V.Lawful) (hm : Inv K V fHash m L) (hr : Stores fHash L r) {op : Op α β}
    (hfit : Fits K fHash m op) : ∃ m', step K V fHash m op = some m' ∧ Inv.Kept K V fHash (op.ref r) m' := by
  have hsame : Inv.Kept K V fHash r m := ⟨L, hm, hr⟩
  match op with
  | .insert none _ | .insert (some _) none | .remove none => exact ⟨m, rfl, hsame⟩
  | .clear => exact ⟨_, rfl, hm.clear⟩
  | .insert (some key) (some val) =>
    simp only [step, wowHashMapInsert, Op.ref, hm.buckOf_eq]
    rcases hm.itemFind_split hK key with
      ⟨hfind, habs⟩ | ⟨list, I, it, J, A, v, B, hlist, hmaxn, hitems, hL, hlen, hfind, hA, hit, hB⟩
    · obtain ⟨m', hnew, hkept⟩ := hm.insert_new val hK hV hr habs fun list hlist => by
        change HasRoom K key (m.hashList (m.buckOf fHash key)) at hfit
        rw [hm.buckOf_eq, hlist] at hfit
        rw [itemFind, hm.buckOf_eq, hlist] at hfind
        exact hfit hfind
      exact ⟨m', by rw [hfind, Option.bind_some]; simp only [hnew, Option.map_some], hkept⟩
    · obtain ⟨m', hrepl, hkept⟩ := hm.replace val hV hr hlist hmaxn hitems hL hlen hA hit hB
      exact ⟨m', by rw [hfind, Option.bind_some]; simp only [hrepl, Option.map_some], hkept⟩
  | .remove (some key) =>
    simp only [step, wowHashMapRemove, Op.ref, hm.buckOf_eq]
    rcases hm.itemFind_split hK key with
      ⟨hfind, habs⟩ | ⟨list, I, it, J, A, v, B, hlist, hmaxn, hitems, hL, hlen, hfind, hA, hit, hB⟩
    · have hnone : r key = none :=
        Option.eq_none_iff_forall_not_mem.mpr fun v hv => habs _ ((hr key v).mp hv) rfl
      rw [hfind, Option.map_some, ← hnone, Function.update_eq_self]
      exact ⟨m, rfl, hsame⟩
    · rw [hfind, Option.map_some]
      exact ⟨_, rfl, hm.remove hr hlist hmaxn hitems hL hlen hA hB⟩

/-- **Every sequence of calls** that meet the condition. -/
theorem lock_kept (hK : K.Lawful) (hV : V.Lawful) (hm : Inv K V fHash m L) (hr : Stores fHash L r)
    {ops : List (Op α β)} (hfit : Fitting K V fHash m ops) :
    ∃ m' r', lock K V fHash m r ops = some (m', r') ∧ Inv.Kept K V fHash r' m' := by
  induction ops generalizing m L r with
  | nil => exact ⟨m, r, rfl, L, hm, hr⟩
  | cons op ops ih =>
    obtain ⟨m₁, hstep, L₁, hm₁, hr₁⟩ := step_kept hK hV hm hr hfit.1
    have hrest := hfit.2
    rw [hstep] at hrest
    obtain ⟨m', r', hlock, hkept⟩ := ih hm₁ hr₁ hrest
    exact ⟨m', r', by rw [lock, hstep]; exact hlock, hkept⟩

omit [DecidableEq α] in
theorem inv_create : Inv K V fHash (wowHashMapCreate K V) fun _ => ([] : List (α × β)) where
  hashSize := rfl
  itemGrow := rfl
  bucket _ := rfl
  hashed _ := nofun
  nodup _ := List.nodup_nil
  itemSize := by
    rw [List.flatMap_eq_nil_iff.mpr fun _ _ => rfl]
    rfl

end Run

/-- Strings under two keys of one bucket, one of them replaced by a longer and then by a shorter one. -/
def demoOps : List (Op ElementType.uint8.Arg ElementType.str.Arg) :=
  [.insert (some ⟨1, by decide⟩) (some ⟨[97], by decide⟩), .insert (some ⟨16, by decide⟩) (some ⟨[98], by decide⟩),
    .insert (some ⟨1, by decide⟩) (some ⟨[97, 98, 99], by decide⟩), .insert (some ⟨1, by decide⟩) (some ⟨[], by decide⟩),
    .insert none (some ⟨[], by decide⟩), .remove (some ⟨16, by decide⟩), .remove (some ⟨16, by decide⟩), .clear]

/-- A hash function: a number as it is, a string by its length. -/
def plainHash : (t : ElementType) → t.Arg → Nat
  | .uint8 => fun w : Word 8 => w.1
  | .uint16 => fun w : Word 16 => w.1
  | .uint32 => fun w : Word 32 => w.1
  | .str => fun s : CStr => s.chars.length
  | .ptr => fun w : Word 64 => w.1

/-- Nine keys for one bucket. -/
def nineOps : List (Op ElementType.uint32.Arg ElementType.uint32.Arg) :=
  (List.finRange 9).map fun i => .insert (some ⟨15 * (i.1 + 1), by omega⟩) (some ⟨1, by decide⟩)

end Wow.Iot.HashMap
