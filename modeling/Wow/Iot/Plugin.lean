import Mathlib.Data.List.Sort
import Wow.Base.SlistRefine

/-!
# Wow.Iot.Plugin — the order of the plugins

`plugin_add` and the last loop of `wow_plugin_init` of `wow_plugin.c`, over the linked list of `wow_slist.c` and a
heap of `PluginInfo_T`.  A descriptor is constant data, read by its address; a pointer is a number and `NULL` is
zero; a result `none` is an access to memory that is not live.  `init` is code of the plugin: what it returns is an
argument, which may depend on the calls before it.

* `Ordered`: the list is a permutation of the added descriptors, sorted by non-increasing priority.
* `InOrder`: the calls of an init pass, one for each plugin that has an `init`, the higher priorities first.
* `pluginAdd_holds`, `initPass_holds`: one step, while the size is an `int`; from it, whole runs.
* `not_keepsOrder`: with `2 ^ 31` plugins a new one goes to the head, whatever its priority.
-/

namespace Wow.Iot.Plugin

open Slist (SYSTEM_MALLOC_FAILED)

/-! ### Plugins -/

/-- `PluginDesc_T`: what is read of it here, `init` by its address. -/
structure PluginDesc where
  priority : Int
  init : Nat

/-- `PluginInfo_T`. -/
structure PluginInfo where
  active : Int
  handle : Nat
  desc : Nat

/-- `gpt_plugins_list`, which is never `NULL` after `plugin_init`, and the plugins. -/
structure State where
  gptPluginsList : Slist.State
  plugins : Cells PluginInfo

/-- `plugin_init`. -/
def pluginInit : State := ⟨Slist.create, .empty⟩

section Source

variable (descs : Nat → PluginDesc)

/-! ### Adding a plugin -/

/-- The loop of `plugin_add`, `n` turns before its end: the index of the first plugin that is no more urgent. -/
def pluginAddLoop (l : Slist.State) (plugins : Cells PluginInfo) (desc : Nat) : Nat → Nat → Option (Option Nat)
  | 0, _ => some none
  | n + 1, i => do
    let tmp ← Slist.peekByIndex l i
    let tmp ← plugins.cell tmp
    if (descs desc).priority ≥ (descs tmp.desc).priority then return some i
    else pluginAddLoop l plugins desc n (i + 1)

/-- The end of `plugin_add`: in front of the plugin that was found, or at the tail. -/
def insertPlace (l : Slist.State) (entryAt? place : Option Nat) (plugin : Nat) : Option (Int × Slist.State) :=
  match place with
  | some i => Slist.insertByIndex l entryAt? i plugin
  | none => Slist.insertTail l entryAt? plugin

/-- `plugin_add`: the plugin would be allocated at `at?`, its entry at `entryAt?`. -/
def pluginAdd (s : State) (at? entryAt? : Option Nat) (desc handle : Nat) : Option (Int × State) :=
  if desc = 0 then some (-1, s)
  else match s.plugins.calloc (at?.filter (· ≠ 0)) ⟨0, handle, desc⟩ with
  | none => some (-SYSTEM_MALLOC_FAILED, s)
  | some (plugin, plugins) => do
    let size := Slist.toInt s.gptPluginsList.list.entries
    let place ← pluginAddLoop descs s.gptPluginsList plugins desc size.toNat 0
    let (ret, l) ← insertPlace s.gptPluginsList entryAt? place plugin
    return (ret, ⟨l, plugins⟩)

/-! ### The init pass -/

/-- A plugin whose `init` returned 0 is active. -/
def activate (plugins : Cells PluginInfo) (p : Nat) (plugin : PluginInfo) (ret : Int) : Option (Cells PluginInfo) :=
  if ret = 0 then plugins.write p { plugin with active := 1 } else some plugins

/-- The last loop of `wow_plugin_init`, `n` turns before its end, and the plugins whose `init` was called. -/
def initLoop (result : List Nat → Nat → Int) (l : Slist.State) :
    Nat → Nat → Cells PluginInfo → List Nat → Option (Cells PluginInfo × List Nat)
  | 0, _, plugins, calls => some (plugins, calls)
  | n + 1, i, plugins, calls => do
    let p ← Slist.peekByIndex l i
    if p = 0 then initLoop result l n (i + 1) plugins calls
    else
      let plugin ← plugins.cell p
      if plugin.desc = 0 ∨ (descs plugin.desc).init = 0 then initLoop result l n (i + 1) plugins calls
      else
        let plugins ← activate plugins p plugin (result calls p)
        initLoop result l n (i + 1) plugins (calls ++ [p])

/-- The init pass of `wow_plugin_init`. -/
def initPass (s : State) (result : List Nat → Nat → Int) : Option (List Nat × State) := do
  let size := Slist.toInt s.gptPluginsList.list.entries
  let (plugins, calls) ← initLoop descs result s.gptPluginsList size.toNat 0 s.plugins []
  return (calls, { s with plugins := plugins })

/-! ### The steps -/

/-- A call of `plugin_add`, or an init pass. -/
inductive Op where
  | add (at? entryAt? : Option Nat) (desc handle : Nat)
  | init (result : List Nat → Nat → Int)

/-- What a step gives: a code, or the plugins that were called. -/
inductive Out where
  | code (ret : Int)
  | calls (ps : List Nat)

def step (s : State) : Op → Option (Out × State)
  | .add at? entryAt? desc handle => (pluginAdd descs s at? entryAt? desc handle).map (Prod.map .code id)
  | .init result => (initPass descs s result).map (Prod.map .calls id)

/-! ### What is expected -/

/-- The descriptor of a plugin. -/
def descOf (plugins : Cells PluginInfo) (p : Nat) : Nat := ((plugins.cell p).map PluginInfo.desc).getD 0

/-- The plugin `p` may stand before `q`. -/
def Before (plugins : Cells PluginInfo) (p q : Nat) : Prop :=
  (descs (descOf plugins p)).priority ≥ (descs (descOf plugins q)).priority

/-- The list is a permutation of the added descriptors, sorted by non-increasing priority. -/
def Ordered (s : State) (added : List Nat) : Prop :=
  ∃ ps, Slist.Rep s.gptPluginsList ps ∧ (ps.map (descOf s.plugins)).Perm added ∧ ps.Pairwise (Before descs s.plugins)

/-- The calls of an init pass: one for every plugin of the list that has an `init`, none before a more urgent one. -/
def InOrder (s : State) (calls : List Nat) : Prop :=
  ∃ ps, Slist.Rep s.gptPluginsList ps ∧ calls.Nodup ∧
    (∀ p, p ∈ calls ↔ p ∈ ps ∧ (descs (descOf s.plugins p)).init ≠ 0) ∧ calls.Pairwise (Before descs s.plugins)

/-- There is no descriptor, or the allocator has no place. -/
def Op.Refused (s : State) : Op → Prop
  | .add at? entryAt? desc _ => desc = 0 ∨ (∀ c, s.plugins.calloc (at?.filter (· ≠ 0)) c = none) ∨
    ∀ c, s.gptPluginsList.heap.calloc entryAt? c = none
  | .init _ => False

/-- What a step should give. -/
def Does (s : State) (op : Op) : Out → Prop
  | .code ret => ret = 0 ∨ op.Refused s
  | .calls ps => InOrder descs s ps

/-- The added descriptors after a step. -/
def Op.added (added : List Nat) : Op → Out → List Nat
  | .add _ _ desc _, .code ret => if ret = 0 then desc :: added else added
  | _, _ => added

/-- The list is ordered in every state of the run, and every init pass is in order. -/
def KeepsOrder : State → List Nat → List Op → Prop
  | s, added, [] => Ordered descs s added
  | s, added, op :: ops => Ordered descs s added ∧ ∃ out s', step descs s op = some (out, s') ∧ Does descs s op out ∧
    KeepsOrder s' (op.added added out) ops

/-- The number of the plugins fits an `int` before every step of the run. -/
def Fitting : State → List Op → Prop
  | _, [] => True
  | s, op :: ops => s.gptPluginsList.list.entries < 2 ^ 31 ∧ match step descs s op with
    | none => True
    | some r => Fitting r.2 ops

instance decidableFitting : ∀ (s : State) (ops : List Op), Decidable (Fitting descs s ops)
  | _, [] => inferInstanceAs (Decidable True)
  | s, op :: ops =>
    have : Decidable (match step descs s op with
      | none => True
      | some r => Fitting descs r.2 ops) :=
      match step descs s op with
      | none => inferInstanceAs (Decidable True)
      | some r => decidableFitting r.2 ops
    inferInstanceAs (Decidable (s.gptPluginsList.list.entries < 2 ^ 31 ∧ _))

end Source

/-! ### The order -/

section Order

variable {descs : Nat → PluginDesc} {plugins : Cells PluginInfo} {p q : Nat} {plugin : PluginInfo}

instance : DecidableRel (Before descs plugins) := fun _ _ => inferInstanceAs (Decidable (_ ≥ _))

instance : Std.Total (Before descs plugins) := ⟨fun _ _ => Int.le_total _ _⟩

instance : IsTrans Nat (Before descs plugins) := ⟨fun _ _ _ hab hbc => Int.le_trans hbc hab⟩

theorem descOf_of_cell (hp : plugins.cell p = some plugin) : descOf plugins p = plugin.desc := by
  rw [descOf, hp]
  rfl

/-- The place of an ordered insertion is the first element that may stand behind the new one. -/
theorem orderedInsert_eq_insertIdx {α : Type} (r : α → α → Prop) [DecidableRel r] (a : α) (l : List α) :
    l.orderedInsert r a = l.insertIdx ((l.findIdx? fun b => r a b).getD l.length) a := by
  induction l with
  | nil => rfl
  | cons b l ih =>
    rw [List.orderedInsert_cons, List.findIdx?_cons]
    by_cases hab : r a b
    · simp [hab]
    · rw [if_neg hab, decide_eq_false hab, ih]
      cases hf : l.findIdx? fun b => r a b <;> simp

end Order

/-! ### The invariant -/

/-- The list holds the entries `L`, given with their addresses, of different plugins of the descriptors `added`. -/
structure Holds (descs : Nat → PluginDesc) (s : State) (L : List (Nat × Nat)) (added : List Nat) : Prop where
  list : Slist.Holds s.gptPluginsList L
  live : ∀ p ∈ L.map Prod.snd, p ≠ 0 ∧ ∃ plugin, s.plugins.cell p = some plugin ∧ plugin.desc ≠ 0
  nodup : (L.map Prod.snd).Nodup
  perm : ((L.map Prod.snd).map (descOf s.plugins)).Perm added
  sorted : (L.map Prod.snd).Pairwise (Before descs s.plugins)

section Holds

variable {descs : Nat → PluginDesc} {s : State} {L L' : List (Nat × Nat)} {added : List Nat} {l' : Slist.State}
  {plugins : Cells PluginInfo} {plugin : PluginInfo} {new : Nat} {at? : Option Nat}

theorem holds_pluginInit : Holds descs pluginInit [] [] :=
  ⟨Slist.holds_create, by simp, List.nodup_nil, List.Perm.refl _, List.Pairwise.nil⟩

theorem Holds.ordered (hs : Holds descs s L added) : Ordered descs s added :=
  ⟨L.map Prod.snd, hs.list.rep, hs.perm, hs.sorted⟩

/-- A heap in which the plugins of the list keep their descriptors. -/
theorem Holds.of_desc (hs : Holds descs s L added)
    (hp : ∀ p ∈ L.map Prod.snd, (plugins.cell p).map PluginInfo.desc = (s.plugins.cell p).map PluginInfo.desc) :
    Holds descs { s with plugins := plugins } L added := by
  have hdesc : ∀ p ∈ L.map Prod.snd, descOf plugins p = descOf s.plugins p := by
    intro p hmem
    rw [descOf, hp p hmem, descOf]
  refine ⟨hs.list, ?_, hs.nodup, ?_, ?_⟩
  · intro p hmem
    obtain ⟨h0, plugin, hcell, hne⟩ := hs.live p hmem
    have hsome := hp p hmem
    rw [hcell, Option.map_some] at hsome
    obtain ⟨plugin', hcell', hd⟩ := Option.map_eq_some_iff.mp hsome
    exact ⟨h0, plugin', hcell', hd ▸ hne⟩
  · rw [List.map_congr_left hdesc]
    exact hs.perm
  · refine hs.sorted.imp_of_mem ?_
    intro p q hmemp hmemq hpq
    rw [Before, hdesc p hmemp, hdesc q hmemq]
    exact hpq

/-- A new plugin is none of the list. -/
theorem Holds.not_mem_of_calloc (hs : Holds descs s L added) (hc : s.plugins.calloc at? plugin = some (new, plugins)) :
    new ∉ L.map Prod.snd := by
  intro hmem
  obtain ⟨-, old, hcell, -⟩ := hs.live new hmem
  rw [(Cells.of_calloc hc).1] at hcell
  exact absurd hcell.symm (Option.some_ne_none old)

/-- **A new plugin**, not yet in the list. -/
theorem Holds.calloc (hs : Holds descs s L added) (hc : s.plugins.calloc at? plugin = some (new, plugins)) :
    Holds descs { s with plugins := plugins } L added := by
  refine hs.of_desc ?_
  intro p hmem
  have hne : p ≠ new := fun hpn => hs.not_mem_of_calloc hc (hpn ▸ hmem)
  obtain ⟨-, rfl⟩ := Cells.of_calloc hc
  rw [show _ = s.plugins.cell p from Cells.cell_set_of_ne hne s.plugins plugin]

/-- **A plugin put in its place**. -/
theorem Holds.insert (hs : Holds descs s L added) (hnew : new ∉ L.map Prod.snd) (h0 : new ≠ 0)
    (hcell : s.plugins.cell new = some plugin) (hdesc : plugin.desc ≠ 0) (hl : Slist.Holds l' L')
    (hL : L'.map Prod.snd = (L.map Prod.snd).orderedInsert (Before descs s.plugins) new) :
    Holds descs { s with gptPluginsList := l' } L' (plugin.desc :: added) := by
  have hperm := List.perm_orderedInsert (Before descs s.plugins) new (L.map Prod.snd)
  refine ⟨hl, ?_, ?_, ?_, ?_⟩
  · intro p hmem
    rw [hL, List.mem_orderedInsert] at hmem
    rcases hmem with rfl | hmem
    · exact ⟨h0, plugin, hcell, hdesc⟩
    · exact hs.live p hmem
  · rw [hL, hperm.nodup_iff]
    exact List.nodup_cons.mpr ⟨hnew, hs.nodup⟩
  · rw [hL]
    refine (hperm.map _).trans ?_
    rw [List.map_cons, descOf_of_cell hcell]
    exact hs.perm.cons _
  · rw [hL]
    exact hs.sorted.orderedInsert new _

/-! ### Adding a plugin -/

/-- A plugin of the list, by its index. -/
theorem Holds.peek (hs : Holds descs s L added) {i : Nat} (hi : i < L.length) :
    ∃ p, (L.map Prod.snd).drop i = p :: (L.map Prod.snd).drop (i + 1) ∧ p ∈ L.map Prod.snd ∧
      Slist.peekByIndex s.gptPluginsList i = some p := by
  have hlen : i < (L.map Prod.snd).length := by rwa [List.length_map]
  refine ⟨(L.map Prod.snd)[i], List.drop_eq_getElem_cons hlen, List.getElem_mem hlen, ?_⟩
  rw [Slist.peekByIndex_eq hs.list, if_pos (Int.natCast_nonneg i), Int.toNat_natCast, List.getD_eq_getElem?_getD,
    List.getElem?_eq_getElem hlen, Option.getD_some]

/-- **The loop of `plugin_add`** looks for the first plugin that may stand behind the new one. -/
theorem pluginAddLoop_eq (hs : Holds descs s L added) (hcell : s.plugins.cell new = some plugin) {n i : Nat}
    (hn : i + n = L.length) : pluginAddLoop descs s.gptPluginsList s.plugins plugin.desc n i =
      some ((((L.map Prod.snd).drop i).findIdx? fun p => Before descs s.plugins new p).map (· + i)) := by
  induction n generalizing i with
  | zero =>
    rw [List.drop_eq_nil_of_le (by rw [List.length_map]; omega)]
    rfl
  | succ n ih =>
    obtain ⟨p, hdrop, hmem, hpeek⟩ := hs.peek (show i < L.length by omega)
    obtain ⟨-, tmp, htmp, -⟩ := hs.live p hmem
    rw [pluginAddLoop, hpeek, Option.bind_eq_bind, Option.bind_some, htmp, Option.bind_eq_bind, Option.bind_some,
      hdrop, List.findIdx?_cons]
    have hiff : Before descs s.plugins new p ↔ (descs plugin.desc).priority ≥ (descs tmp.desc).priority := by
      rw [Before, descOf_of_cell hcell, descOf_of_cell htmp]
    by_cases hb : Before descs s.plugins new p
    · rw [if_pos (hiff.mp hb), decide_eq_true hb, if_pos rfl, Option.map_some, Nat.zero_add]
      rfl
    · rw [if_neg fun h => hb (hiff.mpr h), decide_eq_false hb, ih (by omega), if_neg Bool.false_ne_true,
        Option.map_map]
      refine congrArg some (congrFun (congrArg Option.map ?_) _)
      funext k
      show k + (i + 1) = k + 1 + i
      omega

/-- The size, while it fits an `int`. -/
theorem Holds.toNat_size (hs : Holds descs s L added) (hfit : s.gptPluginsList.list.entries < 2 ^ 31) :
    (Slist.toInt s.gptPluginsList.list.entries).toNat = L.length := by
  rw [Slist.toInt_of_lt hfit, Int.toNat_natCast, hs.list.entries]

/-- The place the loop found is an index in each case. -/
theorem insertPlace_eq (hs : Holds descs s L added) (hfit : s.gptPluginsList.list.entries < 2 ^ 31)
    (entryAt? place : Option Nat) (new : Nat) : insertPlace s.gptPluginsList entryAt? place new =
      Slist.insertByIndex s.gptPluginsList entryAt? (place.getD L.length : Nat) new := by
  cases place with
  | some i => rfl
  | none => rw [insertPlace, Slist.insertTail, Slist.toInt_of_lt hfit, hs.list.entries, Option.getD_none]

theorem place_le (p : Nat → Bool) (L : List (Nat × Nat)) :
    ((L.map Prod.snd).findIdx? p).getD L.length ≤ L.length := by
  cases hf : (L.map Prod.snd).findIdx? p with
  | none => exact Nat.le_refl _
  | some i =>
    have hi := (List.findIdx?_eq_some_iff_findIdx_eq.mp hf).1
    rw [List.length_map] at hi
    exact Nat.le_of_lt hi

/-- An address that is not `NULL`. -/
theorem ne_zero_of_calloc (hc : s.plugins.calloc (at?.filter (· ≠ 0)) plugin = some (new, plugins)) : new ≠ 0 := by
  obtain ⟨a, ha, hp⟩ := Option.map_eq_some_iff.mp hc
  obtain ⟨rfl, -⟩ := Prod.mk.inj hp
  obtain ⟨-, h0⟩ := Option.filter_eq_some_iff.mp (Option.filter_eq_some_iff.mp ha).1
  exact of_decide_eq_true h0

/-- What `plugin_add` does with a new plugin: an insertion in front of the first that may stand behind it. -/
theorem pluginAdd_eq (hs : Holds descs s L added) (hfit : s.gptPluginsList.list.entries < 2 ^ 31) {desc handle : Nat}
    (hd : desc ≠ 0) (hc : s.plugins.calloc (at?.filter (· ≠ 0)) ⟨0, handle, desc⟩ = some (new, plugins))
    (entryAt? : Option Nat) : pluginAdd descs s at? entryAt? desc handle =
      (Slist.insertByIndex s.gptPluginsList entryAt?
        (((L.map Prod.snd).findIdx? fun p => Before descs plugins new p).getD L.length : Nat) new).map
          fun r => (r.1, ⟨r.2, plugins⟩) := by
  have hloop := pluginAddLoop_eq (hs.calloc hc) (Cells.cell_of_calloc hc) (Nat.zero_add L.length)
  simp only [List.drop_zero, Nat.add_zero, Option.map_id'] at hloop
  rw [pluginAdd, if_neg hd, hc]
  simp only [hs.toNat_size hfit, hloop, insertPlace_eq hs hfit, Option.bind_eq_bind, Option.bind_some, Option.pure_def]
  exact Option.map_eq_bind.symm

/-- **A call of `plugin_add`**: a failure, for a reason, leaves the list as it was. -/
theorem pluginAdd_holds (hs : Holds descs s L added) (hfit : s.gptPluginsList.list.entries < 2 ^ 31)
    (at? entryAt? : Option Nat) (desc handle : Nat) :
    ∃ ret s' L', pluginAdd descs s at? entryAt? desc handle = some (ret, s') ∧
      (ret = 0 ∨ (Op.add at? entryAt? desc handle).Refused s) ∧
      Holds descs s' L' (if ret = 0 then desc :: added else added) := by
  by_cases hd : desc = 0
  · refine ⟨-1, s, L, by rw [pluginAdd, if_pos hd], Or.inr (Or.inl hd), ?_⟩
    rw [if_neg (by decide)]
    exact hs
  cases hc : s.plugins.calloc (at?.filter (· ≠ 0)) ⟨0, handle, desc⟩ with
  | none =>
    refine ⟨-SYSTEM_MALLOC_FAILED, s, L, by rw [pluginAdd, if_neg hd, hc],
      Or.inr (Or.inr (Or.inl (Cells.calloc_eq_none hc))), ?_⟩
    rw [if_neg (by decide)]
    exact hs
  | some r =>
    obtain ⟨new, plugins⟩ := r
    have hadd := pluginAdd_eq hs hfit hd hc entryAt?
    have hs' := hs.calloc hc
    have h0 := ne_zero_of_calloc hc
    have hins := fun i => Slist.insertByIndex_holds entryAt? new hs.list i (by omega)
    rcases hins _ with ⟨hnew, -⟩ | ⟨hfull, hret⟩ | ⟨-, l', L', hret, hl, hL⟩
    · exact absurd hnew h0
    · rw [hret, Option.map_some] at hadd
      refine ⟨-SYSTEM_MALLOC_FAILED, _, L, hadd, Or.inr (Or.inr (Or.inr hfull)), ?_⟩
      rw [if_neg (by decide)]
      exact hs'
    · rw [hret, Option.map_some] at hadd
      refine ⟨Slist.WOW_SUCCESS, _, L', hadd, Or.inl rfl, ?_⟩
      rw [if_pos (show Slist.WOW_SUCCESS = 0 from rfl)]
      refine hs'.insert (hs.not_mem_of_calloc hc) h0 (Cells.cell_of_calloc hc) hd hl ?_
      rw [hL, orderedInsert_eq_insertIdx, List.length_map, Int.toNat_natCast, Nat.min_eq_left]
      exact place_le _ L

/-! ### The init pass -/

/-- The heap has the same plugins, of the same descriptors. -/
def SameDescs (plugins plugins' : Cells PluginInfo) : Prop :=
  ∀ p, (plugins'.cell p).map PluginInfo.desc = (plugins.cell p).map PluginInfo.desc

/-- Making a plugin active does not change its descriptor. -/
theorem SameDescs.activate {h : Cells PluginInfo} {p : Nat} (hh : SameDescs plugins h) (hp : h.cell p = some plugin)
    (ret : Int) : ∃ h', activate h p plugin ret = some h' ∧ SameDescs plugins h' := by
  by_cases hret : ret = 0
  · refine ⟨h.set p { plugin with active := 1 }, by rw [Plugin.activate, if_pos hret, Cells.write_of_cell hp], ?_⟩
    intro q
    by_cases hq : q = p
    · rw [hq, Cells.cell_set_self, ← hh p, hp]
      rfl
    · rw [Cells.cell_set_of_ne hq]
      exact hh q
  · exact ⟨h, if_neg hret, hh⟩

/-- **The loop of the init pass** calls the plugins with an `init` from the index on. -/
theorem initLoop_eq (hs : Holds descs s L added) (result : List Nat → Nat → Int) {n i : Nat} (hn : i + n = L.length)
    {h : Cells PluginInfo} (hh : SameDescs s.plugins h) (calls : List Nat) :
    ∃ h', initLoop descs result s.gptPluginsList n i h calls = some (h', calls ++
        ((L.map Prod.snd).drop i).filter fun p => (descs (descOf s.plugins p)).init ≠ 0) ∧ SameDescs s.plugins h' := by
  induction n generalizing i h calls with
  | zero =>
    rw [List.drop_eq_nil_of_le (by rw [List.length_map]; omega), List.filter_nil, List.append_nil]
    exact ⟨h, rfl, hh⟩
  | succ n ih =>
    obtain ⟨p, hdrop, hmem, hpeek⟩ := hs.peek (show i < L.length by omega)
    obtain ⟨h0, plugin, hcell, hdesc⟩ := hs.live p hmem
    have hd := hh p
    rw [hcell, Option.map_some] at hd
    obtain ⟨plugin', hcell', hd⟩ := Option.map_eq_some_iff.mp hd
    have hp : descOf s.plugins p = plugin.desc := descOf_of_cell hcell
    rw [initLoop, hpeek, Option.bind_eq_bind, Option.bind_some, if_neg h0, hcell', Option.bind_eq_bind,
      Option.bind_some, hdrop, hd]
    by_cases hinit : (descs plugin.desc).init = 0
    · rw [if_pos (Or.inr hinit), List.filter_cons_of_neg (by simp [hp, hinit])]
      exact ih (by omega) hh calls
    · obtain ⟨h', hactive, hh'⟩ := hh.activate hcell' (result calls p)
      rw [if_neg (not_or.mpr ⟨hdesc, hinit⟩), List.filter_cons_of_pos (by simp [hp, hinit]), hactive,
        Option.bind_eq_bind, Option.bind_some]
      obtain ⟨h', hloop, hh'⟩ := ih (show i + 1 + n = L.length by omega) hh' (calls ++ [p])
      refine ⟨h', ?_, hh'⟩
      rw [hloop, List.append_assoc]
      rfl

/-- **An init pass** is in order, and the list stays as it was. -/
theorem initPass_holds (hs : Holds descs s L added) (hfit : s.gptPluginsList.list.entries < 2 ^ 31)
    (result : List Nat → Nat → Int) :
    ∃ calls s', initPass descs s result = some (calls, s') ∧ InOrder descs s calls ∧ Holds descs s' L added := by
  obtain ⟨h', hloop, hh'⟩ := initLoop_eq hs result (Nat.zero_add L.length) (fun _ => rfl) []
  rw [List.drop_zero, List.nil_append] at hloop
  refine ⟨(L.map Prod.snd).filter fun p => (descs (descOf s.plugins p)).init ≠ 0, { s with plugins := h' }, ?_, ⟨L.map Prod.snd, hs.list.rep, hs.nodup.filter _, ?_, hs.sorted.filter _⟩,
    hs.of_desc fun p _ => hh' p⟩
  · simp only [initPass, hs.toNat_size hfit, hloop, Option.bind_eq_bind, Option.bind_some, Option.pure_def]
  · intro p
    rw [List.mem_filter, decide_eq_true_iff]

/-! ### One step, and a run -/

/-- **One step** keeps the invariant and gives what it should, while the size fits an `int`. -/
theorem step_holds (hs : Holds descs s L added) (hfit : s.gptPluginsList.list.entries < 2 ^ 31) (op : Op) :
    ∃ out s' L', step descs s op = some (out, s') ∧ Does descs s op out ∧ Holds descs s' L' (op.added added out) := by
  cases op with
  | add at? entryAt? desc handle =>
    obtain ⟨ret, s', L', hadd, hdoes, hs'⟩ := pluginAdd_holds hs hfit at? entryAt? desc handle
    exact ⟨.code ret, s', L', by rw [step, hadd, Option.map_some]; rfl, hdoes, hs'⟩
  | init result =>
    obtain ⟨calls, s', hinit, hdoes, hs'⟩ := initPass_holds hs hfit result
    exact ⟨.calls calls, s', L, by rw [step, hinit, Option.map_some]; rfl, hdoes, hs'⟩

theorem keepsOrder_of_holds (hs : Holds descs s L added) {ops : List Op} (hfit : Fitting descs s ops) :
    KeepsOrder descs s added ops := by
  induction ops generalizing s L added with
  | nil => exact hs.ordered
  | cons op ops ih =>
    obtain ⟨out, s', L', hstep, hdoes, hs'⟩ := step_holds hs hfit.1 op
    have hfit' := hfit.2
    rw [hstep] at hfit'
    exact ⟨hs.ordered, out, s', hstep, hdoes, ih hs' hfit'⟩

end Holds

/-- **The plugins are in order** in every run whose sizes fit an `int`. -/
theorem plugins_keepOrder (descs : Nat → PluginDesc) (ops : List Op) (hfit : Fitting descs pluginInit ops) :
    KeepsOrder descs pluginInit [] ops := keepsOrder_of_holds holds_pluginInit hfit

/-- The descriptor `d` has the priority `100 * (d - 2)`, and the first has no `init`. -/
def demoDescs (d : Nat) : PluginDesc := ⟨100 * ((d : Int) - 2), d - 1⟩

/-- Three plugins, one of them without an entry, and an init pass. -/
def demoOps : List Op :=
  [.add (some 7) (some 1) 2 0, .add (some 8) (some 2) 1 0, .add (some 9) none 2 0, .add (some 5) (some 6) 3 4,
    .init fun calls _ => calls.length]

theorem plugins_keepOrder_demo : Fitting demoDescs pluginInit demoOps ∧ KeepsOrder demoDescs pluginInit [] demoOps :=
  ⟨by decide, plugins_keepOrder demoDescs demoOps (by decide)⟩

/-! ### A list of `2 ^ 31` plugins -/

section Built

variable {s : State} {L : List (Nat × Nat)} {n : Nat}

/-- The descriptor `d` has the priority `1 - d`. -/
def fallingDescs (d : Nat) : PluginDesc := ⟨1 - d, 0⟩

/-- A list of `n` plugins of the descriptor 1. -/
structure Built (n : Nat) (s : State) (L : List (Nat × Nat)) : Prop where
  holds : Holds fallingDescs s L (List.replicate n 1)
  entryFree : ∀ a, n ≤ a → s.gptPluginsList.heap.cell a = none
  pluginFree : ∀ a, n < a → s.plugins.cell a = none

theorem Built.length (hb : Built n s L) : L.length = n := by
  have h := hb.holds.perm.length_eq
  rwa [List.length_map, List.length_map, List.length_replicate] at h

theorem Built.entries (hb : Built n s L) : s.gptPluginsList.list.entries = n := by
  rw [hb.holds.list.entries, hb.length]

/-- The plugin that is added next. -/
theorem Built.calloc (hb : Built n s L) (plugin : PluginInfo) :
    s.plugins.calloc ((some (n + 1)).filter (· ≠ 0)) plugin =
      some (n + 1, { s.plugins.set (n + 1) plugin with made := s.plugins.made + 1 }) :=
  Cells.calloc_of_free (hb.pluginFree (n + 1) (Nat.lt_succ_self n)) plugin

/-- The next plugin is put at the head, where the index is no positive number. -/
theorem Built.head (hb : Built n s L) {plugins : Cells PluginInfo} {i : Int} (hi : i ≤ 0) (hn : n + 1 < 2 ^ 32) :
    ∃ l', (Slist.insertByIndex s.gptPluginsList (some n) i (n + 1)).map
        (fun r => (r.1, (⟨r.2, plugins⟩ : State))) = some (0, ⟨l', plugins⟩) ∧
      Slist.Holds l' ((n, n + 1) :: L) ∧ ∀ a, n + 1 ≤ a → l'.heap.cell a = none := by
  have hfit : s.gptPluginsList.list.entries + 1 < 2 ^ 32 := by rwa [hb.entries]
  obtain ⟨l', hins, hl, hfree⟩ := Slist.insertByIndex_head hb.holds.list hb.entryFree hi (Nat.succ_ne_zero n) hfit
  exact ⟨l', by rw [hins, Option.map_some]; rfl, hl, hfree⟩

/-- A plugin of the descriptor 1 may stand before all of them. -/
theorem Built.findIdx_eq (hb : Built n s L) {plugins : Cells PluginInfo}
    (hc : s.plugins.calloc ((some (n + 1)).filter (· ≠ 0)) ⟨0, 0, 1⟩ = some (n + 1, plugins)) :
    ((L.map Prod.snd).findIdx? fun p => Before fallingDescs plugins (n + 1) p).getD L.length = 0 := by
  have hs := hb.holds.calloc hc
  cases L with
  | nil => rfl
  | cons c L =>
    have hmem : descOf plugins c.2 ∈ List.replicate n 1 := hs.perm.subset (List.mem_map_of_mem (by simp))
    have hbefore : Before fallingDescs plugins (n + 1) c.2 := by
      rw [Before, List.eq_of_mem_replicate hmem, descOf_of_cell (Cells.cell_of_calloc hc)]
    rw [List.map_cons, List.findIdx?_cons, decide_eq_true hbefore, if_pos rfl, Option.getD_some]

/-- One more plugin of the descriptor 1. -/
theorem Built.next (hb : Built n s L) (hn : n < 2 ^ 31) : ∃ s' L',
    pluginAdd fallingDescs s (some (n + 1)) (some n) 1 0 = some (0, s') ∧ Built (n + 1) s' L' := by
  have hfit : s.gptPluginsList.list.entries < 2 ^ 31 := by rwa [hb.entries]
  have hc := hb.calloc ⟨0, 0, 1⟩
  have hadd := pluginAdd_eq hb.holds hfit Nat.one_ne_zero hc (some n)
  rw [hb.findIdx_eq hc] at hadd
  obtain ⟨l', hins, hl, hfree⟩ := hb.head (Int.le_refl 0) (by omega)
  obtain ⟨ret, s', L', hret, -, hs'⟩ := pluginAdd_holds hb.holds hfit (some (n + 1)) (some n) 1 0
  obtain ⟨rfl, rfl⟩ := Prod.mk.inj (Option.some.inj (hret.symm.trans (hadd.trans hins)))
  refine ⟨_, L', hret, ?_, hfree, ?_⟩
  · rw [List.replicate_succ]
    exact hs'
  · intro a ha
    have hna : a ≠ n + 1 := by omega
    exact (Cells.cell_set_of_ne hna s.plugins _).trans (hb.pluginFree a (by omega))

/-- With `2 ^ 31` plugins the next one, of a lower priority, becomes the first. -/
theorem Built.low (hb : Built n s L) (hn : n = 2 ^ 31) : ∃ s',
    pluginAdd fallingDescs s (some (n + 1)) (some n) 2 0 = some (0, s') ∧ descOf s'.plugins (n + 1) = 2 ∧
      Slist.Holds s'.gptPluginsList ((n, n + 1) :: L) := by
  have hneg : Slist.toInt s.gptPluginsList.list.entries ≤ 0 := by
    rw [hb.entries, hn]
    decide
  have hc := hb.calloc ⟨0, 0, 2⟩
  obtain ⟨l', hins, hl, -⟩ := hb.head hneg (by omega)
  refine ⟨⟨l', _⟩, ?_, descOf_of_cell (Cells.cell_of_calloc hc), hl⟩
  rw [pluginAdd, if_neg (by decide), hc]
  simp only [Int.toNat_of_nonpos hneg, pluginAddLoop, insertPlace, Slist.insertTail, Option.bind_eq_bind,
    Option.bind_some, Option.pure_def]
  exact Option.map_eq_bind.symm.trans hins

/-- The list is then not ordered. -/
theorem not_ordered_of_low (hpos : 0 < n) {s' : State} (hdesc : descOf s'.plugins (n + 1) = 2)
    (hl : Slist.Holds s'.gptPluginsList ((n, n + 1) :: L)) :
    ¬ Ordered fallingDescs s' (2 :: List.replicate n 1) := by
  rintro ⟨ps, hrep, hperm, hsorted⟩
  obtain ⟨hhead, m, hm, -⟩ := hl.seg
  cases ps with
  | nil => exact absurd hperm.length_eq (by simp)
  | cons p ps =>
    obtain rfl : n + 1 = p := hrep.head_data hhead hm
    rw [List.map_cons, hdesc] at hperm
    have hrest := hperm.cons_inv
    have hone : 1 ∈ ps.map (descOf s'.plugins) := hrest.symm.subset (List.mem_replicate.mpr ⟨by omega, rfl⟩)
    obtain ⟨q, hq, hq1⟩ := List.mem_map.mp hone
    have hbefore := List.rel_of_pairwise_cons hsorted hq
    rw [Before, hdesc, hq1] at hbefore
    exact absurd hbefore (by decide)

/-- What a successful call says of the rest of the run. -/
theorem keepsOrder_cons {descs : Nat → PluginDesc} {added : List Nat} {at? entryAt? : Option Nat} {desc handle : Nat}
    {ops : List Op} {s' : State} (h : KeepsOrder descs s added (.add at? entryAt? desc handle :: ops))
    (hadd : pluginAdd descs s at? entryAt? desc handle = some (0, s')) : KeepsOrder descs s' (desc :: added) ops := by
  obtain ⟨-, out, s₁, hstep, -, hrest⟩ := h
  rw [step, hadd] at hstep
  obtain ⟨rfl, rfl⟩ := Prod.mk.inj (Option.some.inj hstep)
  exact hrest

/-- `k` plugins of the descriptor 1, at the addresses from `n` on. -/
def adds (n k : Nat) : List Op := (List.range' n k).map fun a => .add (some (a + 1)) (some a) 1 0

/-- The last of the plugins stands before the others. -/
theorem not_keepsOrder_of_built {k : Nat} (hk : n + k = 2 ^ 31) (hb : Built n s L) :
    ¬ KeepsOrder fallingDescs s (List.replicate n 1)
      (adds n k ++ [.add (some (n + k + 1)) (some (n + k)) 2 0]) := by
  induction k generalizing n s L with
  | zero =>
    intro h
    obtain ⟨s', hadd, hdesc, hl⟩ := hb.low hk
    exact not_ordered_of_low (by omega) hdesc hl (keepsOrder_cons h hadd)
  | succ k ih =>
    rw [adds, List.range'_succ, List.map_cons, List.cons_append, show n + (k + 1) = n + 1 + k by omega]
    intro h
    obtain ⟨s', L', hadd, hb'⟩ := hb.next (by omega)
    exact ih (by omega) hb' (keepsOrder_cons h hadd)

end Built

theorem not_keepsOrder_adds {k : Nat} (hk : k = 2 ^ 31) :
    ¬ KeepsOrder fallingDescs pluginInit [] (adds 0 k ++ [.add (some (0 + k + 1)) (some (0 + k)) 2 0]) := by
  have hb : Built 0 pluginInit [] := ⟨holds_pluginInit, fun _ _ => rfl, fun _ _ => rfl⟩
  exact not_keepsOrder_of_built (by omega) hb

/-- With a plugin more than an `int` counts the one of the lowest priority becomes the first. -/
theorem not_keepsOrder : ¬ ∀ descs ops, KeepsOrder descs pluginInit [] ops :=
  fun h => not_keepsOrder_adds rfl (h _ _)

end Wow.Iot.Plugin
