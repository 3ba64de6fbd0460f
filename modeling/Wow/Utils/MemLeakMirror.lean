import Mathlib.Tactic.Common
import Mathlib.Logic.Function.Basic
import Wow.Utils.MemLeak

/-!
# Wow.Utils.MemLeakMirror — the list of the tracker and the heap

* `Mirror`: the list shows the live blocks; `Inv` is what the calls rely on besides.
* `malloc_granted`, `free_eq`, `realloc_larger`: what the calls do, and `realloc_smaller`, `realloc_same`,
  `getBlockSize_of_nil` where they go wrong.
* `step_goes`: one act does what it owes (`Done`) under `Handled`; `handled_of_done`: no other one does.
* `mirrored_iff`: the runs in which the list mirrors the heap.
-/

namespace Wow.MemLeak

variable {s s' : Tracker} {p n off : Nat} {b c : List UInt8} {a : Answer} {site : Site} {act : Act}

/-- **The list mirrors the heap**: it has each live block once, with its size, and no other. -/
structure Mirror (s : Tracker) : Prop where
  nodup : (s.infos.map BlockInfo.ptr).Nodup
  live : ∀ i ∈ s.infos, ∃ b, s.heap i.ptr = some b ∧ b.length = i.size
  listed : ∀ p b, s.heap p = some b → p ∈ s.infos.map BlockInfo.ptr

/-- What the calls rely on: the blocks do not overlap, none begins at `NULL`, and their sizes fit in `ssize_t`. -/
structure Inv (s : Tracker) : Prop extends Mirror s where
  apart : s.heap.Apart
  fits : ∀ p b, s.heap p = some b → p ≠ 0 ∧ b.length < 2 ^ 63

/-! ### Blocks found by an address -/

theorem getBlockInfo_mem {i : BlockInfo} (hi : getBlockInfo s p = some i) :
    i ∈ s.infos ∧ i.ptr ≤ p ∧ p < i.ptr + i.size := by
  have hin := List.find?_some hi
  rw [Bool.and_eq_true, decide_eq_true_eq, decide_eq_true_eq] at hin
  exact ⟨List.mem_of_find?_eq_some hi, hin.1, by omega⟩

/-- **The begin of a block** lies in no other one. -/
theorem Inv.eq_of_getBlockInfo (h : Inv s) {i : BlockInfo} (hi : getBlockInfo s p = some i) (hp : s.heap p = some c) :
    p = i.ptr ∧ i.size = c.length ∧ c ≠ [] := by
  obtain ⟨hmem, hle, hlt⟩ := getBlockInfo_mem hi
  obtain ⟨b, hb, hsize⟩ := h.live i hmem
  have heq : p = i.ptr := h.apart.eq_of_mem hp hb hle (by omega)
  rw [heq, hb] at hp
  obtain rfl := Option.some.inj hp
  refine ⟨heq, hsize.symm, ?_⟩
  rintro rfl
  rw [List.length_nil] at hsize
  omega

theorem getBlockSize_eq (h : Inv s) (hp : s.heap p = some c) (hne : c ≠ []) : getBlockSize s p = c.length := by
  obtain ⟨i, hmem, hip⟩ := List.mem_map.mp (h.listed p c hp)
  obtain ⟨b, hb, hsize⟩ := h.live i hmem
  rw [hip, hp] at hb
  obtain rfl := Option.some.inj hb
  have hpos : 0 < c.length := List.length_pos_iff.mpr hne
  have hsome : (getBlockInfo s p).isSome := by
    rw [getBlockInfo, List.find?_isSome]
    refine ⟨i, hmem, ?_⟩
    rw [Bool.and_eq_true, decide_eq_true_eq, decide_eq_true_eq]
    omega
  obtain ⟨j, hj⟩ := Option.isSome_iff_exists.mp hsome
  obtain ⟨hjp, hjsize, -⟩ := h.eq_of_getBlockInfo hj hp
  have hfit := (h.fits p c hp).2
  rw [getBlockSize, hj]
  dsimp only
  rw [if_pos hjp, hjsize, asLong]
  exact Int.bmod_eq_of_le (by omega) (by omega)

/-- **A block without octets** is never found. -/
theorem getBlockSize_of_nil (h : Inv s) (hp : s.heap p = some []) : getBlockSize s p = -1 := by
  cases hi : getBlockInfo s p with
  | none => rw [getBlockSize, hi]
  | some i =>
    obtain ⟨-, -, hne⟩ := h.eq_of_getBlockInfo hi hp
    exact absurd rfl hne

theorem getBlockSize_of_none (h : Inv s) (hp : s.heap p = none) : getBlockSize s p = -1 := by
  cases hi : getBlockInfo s p with
  | none => rw [getBlockSize, hi]
  | some i =>
    obtain ⟨hmem, -, -⟩ := getBlockInfo_mem hi
    obtain ⟨b, hb, -⟩ := h.live i hmem
    have hne : p ≠ i.ptr := by
      rintro rfl
      rw [hb] at hp
      cases hp
    rw [getBlockSize, hi]
    dsimp only
    rw [if_neg hne]

/-! ### Blocks given out and taken back -/

/-- The block `b` is given out at `p`. -/
def Tracker.give (s : Tracker) (p : Nat) (b : List UInt8) (site : Site) : Tracker where
  heap := Function.update s.heap p (some b)
  infos :=
    { ptr := p, size := b.length, line := asInt site.line, fileName := site.file, funcName := site.func } :: s.infos

/-- The block at `p` is taken back. -/
def Tracker.take (s : Tracker) (p : Nat) : Tracker :=
  { freeBlockInfo s p with heap := Function.update s.heap p none }

theorem Inv.give (h : Inv s) (hf : s.heap.Fresh p b.length) (hp : p ≠ 0) (hb : b.length < 2 ^ 63) :
    Inv (s.give p b site) := by
  have hnew : p ∉ s.infos.map BlockInfo.ptr := by
    intro hmem
    obtain ⟨i, hi, rfl⟩ := List.mem_map.mp hmem
    obtain ⟨c, hc, -⟩ := h.live i hi
    rw [hf.eq_none] at hc
    cases hc
  refine ⟨⟨?_, ?_, ?_⟩, h.apart.alloc hf, ?_⟩
  · exact List.nodup_cons.mpr ⟨hnew, h.nodup⟩
  · intro i hi
    rcases List.mem_cons.mp hi with rfl | hold
    · exact ⟨b, Function.update_self .., rfl⟩
    · obtain ⟨c, hc, hsize⟩ := h.live i hold
      refine ⟨c, Heap.update_some_eq_some.mpr (Or.inr ⟨?_, hc⟩), hsize⟩
      rintro rfl
      exact hnew (List.mem_map_of_mem hold)
  · intro q c hq
    rcases Heap.update_some_eq_some.mp hq with ⟨rfl, -⟩ | ⟨-, hq⟩
    · exact List.mem_cons_self
    · exact List.mem_cons_of_mem _ (h.listed q c hq)
  · intro q c hq
    rcases Heap.update_some_eq_some.mp hq with ⟨rfl, rfl⟩ | ⟨-, hq⟩
    · exact ⟨hp, hb⟩
    · exact h.fits q c hq

theorem mem_freeBlockInfo {l : List BlockInfo} (hnd : (l.map BlockInfo.ptr).Nodup) {i : BlockInfo} :
    i ∈ l.eraseP (fun b => decide (b.ptr = p)) ↔ i ∈ l ∧ i.ptr ≠ p := by
  induction l with
  | nil => simp
  | cons j l ih =>
    rw [List.map_cons, List.nodup_cons] at hnd
    by_cases hj : j.ptr = p
    · rw [List.eraseP_cons_of_pos (by simp [hj]), List.mem_cons]
      constructor
      · intro hi
        refine ⟨Or.inr hi, ?_⟩
        rintro hip
        exact hnd.1 (List.mem_map.mpr ⟨i, hi, hip.trans hj.symm⟩)
      · rintro ⟨rfl | hi, hip⟩
        · exact absurd hj hip
        · exact hi
    · rw [List.eraseP_cons_of_neg (by simp [hj]), List.mem_cons, List.mem_cons, ih hnd.2]
      constructor
      · rintro (rfl | ⟨hi, hip⟩)
        · exact ⟨Or.inl rfl, hj⟩
        · exact ⟨Or.inr hi, hip⟩
      · rintro ⟨rfl | hi, hip⟩
        · exact Or.inl rfl
        · exact Or.inr ⟨hi, hip⟩

theorem Inv.take (h : Inv s) : Inv (s.take p) := by
  refine ⟨⟨?_, ?_, ?_⟩, h.apart.release, ?_⟩
  · exact h.nodup.sublist (List.eraseP_sublist.map _)
  · intro i hi
    obtain ⟨hmem, hne⟩ := (mem_freeBlockInfo h.nodup).mp hi
    obtain ⟨c, hc, hsize⟩ := h.live i hmem
    exact ⟨c, Heap.update_none_eq_some.mpr ⟨hne, hc⟩, hsize⟩
  · intro q c hq
    obtain ⟨hqp, hq⟩ := Heap.update_none_eq_some.mp hq
    obtain ⟨i, hi, rfl⟩ := List.mem_map.mp (h.listed q c hq)
    exact List.mem_map_of_mem ((mem_freeBlockInfo h.nodup).mpr ⟨hi, hqp⟩)
  · intro q c hq
    exact h.fits q c (Heap.update_none_eq_some.mp hq).2

/-- **Other octets** in a block. -/
theorem Inv.set (h : Inv s) (hp : s.heap p = some c) (hlen : b.length = c.length) :
    Inv { s with heap := Function.update s.heap p (some b) } := by
  refine ⟨⟨h.nodup, ?_, ?_⟩, h.apart.set hp hlen, ?_⟩
  · intro i hi
    obtain ⟨d, hd, hsize⟩ := h.live i hi
    by_cases hip : i.ptr = p
    · rw [hip, hp] at hd
      obtain rfl := Option.some.inj hd
      exact ⟨b, Heap.update_some_eq_some.mpr (Or.inl ⟨hip, rfl⟩), hlen.trans hsize⟩
    · exact ⟨d, Heap.update_some_eq_some.mpr (Or.inr ⟨hip, hd⟩), hsize⟩
  · intro q d hq
    rcases Heap.update_some_eq_some.mp hq with ⟨rfl, -⟩ | ⟨-, hq⟩
    · exact h.listed q c hp
    · exact h.listed q d hq
  · intro q d hq
    rcases Heap.update_some_eq_some.mp hq with ⟨rfl, rfl⟩ | ⟨-, hq⟩
    · rw [hlen]
      exact h.fits q c hp
    · exact h.fits q d hq

/-! ### The calls -/

theorem memset_eq (hp : s.heap p = some c) (hoff : off + n = c.length) :
    memset s p off n =
      some { s with heap := Function.update s.heap p (some (c.take off ++ List.replicate n mallocGarbage)) } := by
  have hcut : c = c.take off ++ c.drop off ++ [] := by rw [List.append_nil, List.take_append_drop]
  have hoffl : off = (c.take off).length := by
    rw [List.length_take]
    omega
  have hnl : (List.replicate n mallocGarbage).length = (c.drop off).length := by
    rw [List.length_replicate, List.length_drop]
    omega
  have hstore := Block.store_eq hcut hoffl hnl
  rw [memset, hp, Option.bind_eq_bind, Option.bind_some, hstore, Option.bind_some, List.append_nil]

theorem memset_all (hp : s.heap p = some c) (hn : n = c.length) :
    memset s p 0 n = some { s with heap := Function.update s.heap p (some (List.replicate n mallocGarbage)) } := by
  rw [memset_eq hp (by omega), List.take_zero, List.nil_append]

theorem memcpy_eq {d q : Nat} (hd : s.heap d = some b) (hq : s.heap q = some c) (hle : c.length ≤ b.length) :
    memcpy s d q c.length =
      some { s with heap := Function.update s.heap d (some (c ++ b.drop c.length)) } := by
  have hdst : b = [] ++ b.take c.length ++ b.drop c.length := by rw [List.nil_append, List.take_append_drop]
  have hsrc : c = [] ++ c ++ [] := by rw [List.nil_append, List.append_nil]
  have hold : c.length = (b.take c.length).length := by rw [List.length_take_of_le hle]
  have hcopy := Block.copy_eq hdst rfl hsrc rfl rfl hold
  rw [memcpy, hd, hq]
  simp only [Option.bind_eq_bind, Option.bind_some]
  rw [show Block.copy b 0 c 0 c.length = _ from hcopy, Option.bind_some, List.nil_append]

theorem free_of_live (hp : s.heap p = some c) :
    free s p = some { s with heap := Function.update s.heap p none } := by
  rw [free, hp, Option.map_some]

/-- The answer gives no memory, for the block or for its information. -/
def Answer.Refused (a : Answer) : Prop := a.data = 0 ∨ a.info = false

theorem Answer.data_ne (a : Answer) (ha : ¬ a.Refused) : a.data ≠ 0 := fun h0 => ha (Or.inl h0)

theorem malloc_refused (hf : s.heap a.data = none) (ha : a.Refused) : mleakMalloc s n site a = some (0, s) := by
  by_cases hdata : a.data = 0
  · rw [mleakMalloc, if_pos hdata]
  · have hinfo : a.info = false := ha.resolve_left hdata
    rw [mleakMalloc, if_neg hdata, memset_all (Function.update_self ..) (by simp)]
    simp only [Option.bind_eq_bind, Option.bind_some, createBlockInfo, hinfo, Bool.false_eq_true, if_false,
      free, Function.update_self, Option.map_some, Function.update_idem]
    rw [← hf, Function.update_eq_self]

theorem malloc_granted (ha : ¬ a.Refused) :
    mleakMalloc s n site a = some (a.data, s.give a.data (List.replicate n mallocGarbage) site) := by
  rw [Answer.Refused, not_or, Bool.not_eq_false] at ha
  rw [mleakMalloc, if_neg ha.1, memset_all (Function.update_self ..) (by simp)]
  simp only [Option.bind_eq_bind, Option.bind_some, createBlockInfo, ha.2, if_true, Function.update_idem]
  rw [Tracker.give, List.length_replicate]

theorem calloc_refused {count size : Nat} (hf : s.heap a.data = none) (ha : a.Refused) :
    mleakCalloc s count size site a = some (0, s) := by
  by_cases hdata : a.data = 0
  · rw [mleakCalloc, if_pos hdata]
  · have hinfo : a.info = false := ha.resolve_left hdata
    rw [mleakCalloc, if_neg hdata]
    simp only [createBlockInfo, hinfo, Bool.false_eq_true, if_false, free, Function.update_self, Option.map_some,
      Function.update_idem]
    rw [← hf, Function.update_eq_self]

theorem calloc_granted {count size : Nat} (ha : ¬ a.Refused) (hfit : count * size < 2 ^ 63) :
    mleakCalloc s count size site a = some (a.data, s.give a.data (List.replicate (count * size) 0) site) := by
  rw [Answer.Refused, not_or, Bool.not_eq_false] at ha
  rw [mleakCalloc, if_neg ha.1]
  simp only [createBlockInfo, ha.2, if_true]
  rw [Tracker.give, List.length_replicate, Nat.mod_eq_of_lt (by omega)]

/-- **A live block** with octets is taken back. -/
theorem free_eq (h : Inv s) (hp : s.heap p = some c) (hne : c ≠ []) : mleakFree s p = some (s.take p) := by
  have hpos : 0 < c.length := List.length_pos_iff.mpr hne
  have hsize := getBlockSize_eq h hp hne
  have hlive : (freeBlockInfo s p).heap p = some c := hp
  rw [mleakFree, if_neg (h.fits p c hp).1]
  dsimp only
  rw [hsize, if_neg (by omega), Int.toNat_natCast, memset_all hlive rfl, Option.bind_some,
    free_of_live (Function.update_self ..), Function.update_idem]
  rfl

/-- **Where no block is found**, nothing happens. -/
theorem free_of_lost (hsize : getBlockSize s p = -1) : mleakFree s p = some s := by
  by_cases hp : p = 0
  · rw [mleakFree, if_pos hp]
  · rw [mleakFree, if_neg hp]
    dsimp only
    rw [hsize, if_pos (by decide)]

theorem realloc_of_lost (hp : p ≠ 0) (hn : n ≠ 0) (hsize : getBlockSize s p = -1) :
    mleakRealloc s p n site a = some (p, s) := by
  rw [mleakRealloc, if_neg (by omega)]
  dsimp only
  rw [hsize, if_pos (by decide)]

/-- `realloc` of a live block with octets, by the three cases of the size. -/
theorem realloc_live (h : Inv s) (hp : s.heap p = some c) (hne : c ≠ []) (hn : n ≠ 0) :
    mleakRealloc s p n site a =
      if n < c.length then (memset s p n (c.length - n)).map fun s => (0, s)
      else if c.length < n then
        (mleakMalloc s n site a).bind fun r =>
          if r.1 = 0 then some (0, r.2)
          else (memcpy r.2 r.1 p c.length).bind fun s => (mleakFree s p).map fun s => (r.1, s)
      else some (0, s) := by
  have hpos : 0 < c.length := List.length_pos_iff.mpr hne
  rw [mleakRealloc, if_neg (not_or.mpr ⟨(h.fits p c hp).1, hn⟩)]
  dsimp only
  rw [getBlockSize_eq h hp hne, if_neg (by omega), Int.toNat_natCast]
  simp only [Option.bind_eq_bind, Option.map_eq_bind]
  rfl

/-- **A smaller size**: the end of the block is overwritten, and the caller gets `NULL`. -/
theorem realloc_smaller (h : Inv s) (hp : s.heap p = some c) (hn : n ≠ 0) (hlt : n < c.length) :
    mleakRealloc s p n site a = some (0, { s with
      heap := Function.update s.heap p (some (c.take n ++ List.replicate (c.length - n) mallocGarbage)) }) := by
  have hne : c ≠ [] := List.length_pos_iff.mp (by omega)
  rw [realloc_live h hp hne hn, if_pos hlt, memset_eq hp (by omega), Option.map_some]

/-- **The same size**: the caller gets `NULL`. -/
theorem realloc_same (h : Inv s) (hp : s.heap p = some c) (hne : c ≠ []) :
    mleakRealloc s p c.length site a = some (0, s) := by
  have hn : c.length ≠ 0 := List.length_eq_zero_iff.not.mpr hne
  rw [realloc_live h hp hne hn, if_neg (Nat.lt_irrefl _), if_neg (Nat.lt_irrefl _)]

theorem realloc_refused (h : Inv s) (hp : s.heap p = some c) (hne : c ≠ []) (hlt : c.length < n)
    (hf : s.heap a.data = none) (ha : a.Refused) : mleakRealloc s p n site a = some (0, s) := by
  rw [realloc_live h hp hne (by omega), if_neg (by omega), if_pos hlt, malloc_refused hf ha, Option.bind_some]
  exact if_pos rfl

/-- What `memcpy` leaves of the new block. -/
theorem give_overwritten {m : Nat} (hm : c.length ≤ m) :
    { s.give p (List.replicate m mallocGarbage) site with
        heap := Function.update (s.give p (List.replicate m mallocGarbage) site).heap p
          (some (c ++ (List.replicate m mallocGarbage).drop c.length)) } =
      s.give p (c ++ List.replicate (m - c.length) mallocGarbage) site := by
  have hlen : c.length + (m - c.length) = m := by omega
  rw [Tracker.give, Tracker.give, Function.update_idem, List.drop_replicate, List.length_append, List.length_replicate,
    List.length_replicate, hlen]

/-- **A larger size**: the octets move to a new block, and the old one is taken back. -/
theorem realloc_larger (h : Inv s) (hp : s.heap p = some c) (hne : c ≠ []) (hlt : c.length < n)
    (hf : s.heap.Fresh a.data n) (hfit : n < 2 ^ 63) (ha : ¬ a.Refused) :
    mleakRealloc s p n site a =
      some (a.data, (s.give a.data (c ++ List.replicate (n - c.length) mallocGarbage) site).take p) := by
  have hdata : a.data ≠ 0 := a.data_ne ha
  have hpd : p ≠ a.data := by
    rintro rfl
    rw [hf.eq_none] at hp
    cases hp
  have hlen : (c ++ List.replicate (n - c.length) mallocGarbage).length = n := by
    rw [List.length_append, List.length_replicate]
    omega
  have hnew : Inv (s.give a.data (c ++ List.replicate (n - c.length) mallocGarbage) site) :=
    h.give (by rwa [hlen]) hdata (by rwa [hlen])
  have hd : (s.give a.data (List.replicate n mallocGarbage) site).heap a.data =
      some (List.replicate n mallocGarbage) := Function.update_self ..
  have hold : (s.give a.data (List.replicate n mallocGarbage) site).heap p = some c :=
    (Function.update_of_ne hpd ..).trans hp
  have holdnew : (s.give a.data (c ++ List.replicate (n - c.length) mallocGarbage) site).heap p = some c :=
    (Function.update_of_ne hpd ..).trans hp
  rw [realloc_live h hp hne (by omega), if_neg (by omega), if_pos hlt, malloc_granted ha, Option.bind_some]
  dsimp only
  rw [if_neg hdata, memcpy_eq hd hold (by rw [List.length_replicate]; omega), Option.bind_some,
    give_overwritten (by omega), free_eq hnew holdnew hne, Option.map_some]

/-! ### What a call owes -/

/-- **A new block** of `n` octets at `r`, which begins with the octets `kept`. -/
def Given (h : Heap UInt8) (n : Nat) (kept : List UInt8) (r : Nat) (h' : Heap UInt8) : Prop :=
  r ≠ 0 ∧ h r = none ∧ ∃ b, b.length = n ∧ kept <+: b ∧ h' = Function.update h r (some b)

/-- The call failed for want of memory, and nothing changed. -/
def Failed (h : Heap UInt8) (a : Answer) (r : Nat) (h' : Heap UInt8) : Prop :=
  r = 0 ∧ a.Refused ∧ h' = h

/-- **What an act owes** the program, from the heap before and after.  `realloc` of a live block to a size that is not 0
gives a block of that size, which may be the old one, with the octets that fit; it may fail for want of memory, and then
the old block stays.  `free` takes back its block and no other. -/
def Done (h : Heap UInt8) (act : Act) (a : Answer) (r : Nat) (h' : Heap UInt8) : Prop :=
  match act with
  | .malloc n _ => Given h n [] r h' ∨ Failed h a r h'
  | .calloc count size _ => Given h (count * size) (List.replicate (count * size) 0) r h' ∨ Failed h a r h'
  | .realloc p n _ =>
    match h p with
    | some c =>
      if n = 0 then h' = h
      else Given (Function.update h p none) n (c.take n) r h' ∨ c.length < n ∧ Failed h a r h'
    | none => h' = h
  | .free p => h' = Function.update h p none
  | .write _ _ => True

/-- The memory that the C library gives for `n` octets is free, and no object is larger than `PTRDIFF_MAX`. -/
def Room (h : Heap UInt8) (a : Answer) (n : Nat) : Prop :=
  a.data ≠ 0 → h.Fresh a.data n ∧ n < 2 ^ 63

/-- **What the tracker is promised**: the C library's answers are right, and the program writes inside its blocks. -/
def Granted (s : Tracker) (act : Act) (a : Answer) : Prop :=
  match act with
  | .malloc n _ => Room s.heap a n
  | .calloc count size _ => Room s.heap a (count * size)
  | .realloc _ n _ => Room s.heap a n
  | .free _ => True
  | .write p octets => ∃ b, s.heap p = some b ∧ octets.length ≤ b.length

/-- **The acts that go well**: a live block is freed only with octets in it, and a live block with octets is brought to
a larger size or to the size 0. -/
def Handled (s : Tracker) (act : Act) : Prop :=
  match act with
  | .realloc p n _ => ∀ c, s.heap p = some c → n ≠ 0 → c ≠ [] ∧ c.length < n
  | .free p => s.heap p ≠ some []
  | _ => True

/-! ### One act -/

/-- The act returns `r` and leaves `s'`, as it owes. -/
def Goes (s : Tracker) (act : Act) (a : Answer) : Prop :=
  ∃ r s', step s act a = some (r, s') ∧ Done s.heap act a r s'.heap ∧ Inv s'

/-- A block given out where there was room. -/
theorem Inv.give_room (h : Inv s) (ha : ¬ a.Refused) (hroom : Room s.heap a n) (hb : b.length = n) :
    Inv (s.give a.data b site) := by
  have hdata : a.data ≠ 0 := a.data_ne ha
  obtain ⟨hf, hfit⟩ := hroom hdata
  subst hb
  exact h.give hf hdata hfit

/-- No block lies where memory may be given. -/
theorem Room.vacant (hroom : Room s.heap a n) (h : Inv s) : s.heap a.data = none := by
  by_cases hdata : a.data = 0
  · cases hb : s.heap a.data with
    | none => rfl
    | some b => exact absurd hdata (h.fits _ _ hb).1
  · exact (hroom hdata).1.eq_none

theorem malloc_goes (h : Inv s) (hroom : Room s.heap a n) : Goes s (.malloc n site) a := by
  by_cases ha : a.Refused
  · exact ⟨0, s, malloc_refused (hroom.vacant h) ha, Or.inr ⟨rfl, ha, rfl⟩, h⟩
  · have hdata : a.data ≠ 0 := a.data_ne ha
    have hlen : (List.replicate n mallocGarbage).length = n := List.length_replicate
    refine ⟨a.data, _, malloc_granted ha, Or.inl ⟨hdata, hroom.vacant h, _, hlen, List.nil_prefix, rfl⟩, ?_⟩
    exact h.give_room ha hroom hlen

theorem calloc_goes {count size : Nat} (h : Inv s) (hroom : Room s.heap a (count * size)) :
    Goes s (.calloc count size site) a := by
  by_cases ha : a.Refused
  · exact ⟨0, s, calloc_refused (hroom.vacant h) ha, Or.inr ⟨rfl, ha, rfl⟩, h⟩
  · have hdata : a.data ≠ 0 := a.data_ne ha
    have hlen : (List.replicate (count * size) (0 : UInt8)).length = count * size := List.length_replicate
    refine ⟨a.data, _, calloc_granted ha (hroom hdata).2,
      Or.inl ⟨hdata, hroom.vacant h, _, hlen, List.prefix_rfl, rfl⟩, ?_⟩
    exact h.give_room ha hroom hlen

/-- `realloc` of a live block to a larger size. -/
theorem realloc_goes_larger (h : Inv s) (hroom : Room s.heap a n) (hp : s.heap p = some c) (hne : c ≠ [])
    (hlt : c.length < n) : Goes s (.realloc p n site) a := by
  by_cases ha : a.Refused
  · refine ⟨0, s, realloc_refused h hp hne hlt (hroom.vacant h) ha, ?_, h⟩
    simp only [Done, hp]
    rw [if_neg (by omega)]
    exact Or.inr ⟨hlt, rfl, ha, rfl⟩
  · have hdata : a.data ≠ 0 := a.data_ne ha
    have hpd : a.data ≠ p := by
      intro heq
      rw [← heq, hroom.vacant h] at hp
      cases hp
    have hlen : (c ++ List.replicate (n - c.length) mallocGarbage).length = n := by
      rw [List.length_append, List.length_replicate]
      omega
    have hkept : c.take n <+: c ++ List.replicate (n - c.length) mallocGarbage := by
      rw [List.take_of_length_le (by omega)]
      exact List.prefix_append ..
    refine ⟨a.data, _, realloc_larger h hp hne hlt (hroom hdata).1 (hroom hdata).2 ha, ?_,
      (h.give_room ha hroom hlen).take⟩
    simp only [Done, hp]
    rw [if_neg (by omega)]
    refine Or.inl ⟨hdata, ?_, _, hlen, hkept, ?_⟩
    · rw [Function.update_of_ne hpd]
      exact hroom.vacant h
    · exact Function.update_comm hpd ..

theorem realloc_goes (h : Inv s) (hroom : Room s.heap a n) (ho : Handled s (.realloc p n site)) :
    Goes s (.realloc p n site) a := by
  cases hp : s.heap p with
  | none =>
    have hsize := getBlockSize_of_none h hp
    by_cases hzero : p = 0 ∨ n = 0
    · exact ⟨0, s, if_pos hzero, by simp only [Done, hp], h⟩
    · rw [not_or] at hzero
      exact ⟨p, s, realloc_of_lost hzero.1 hzero.2 hsize, by simp only [Done, hp], h⟩
  | some c =>
    by_cases hn : n = 0
    · refine ⟨0, s, if_pos (Or.inr hn), ?_, h⟩
      simp only [Done, hp]
      rw [if_pos hn]
      trivial
    · obtain ⟨hne, hlt⟩ := ho c hp hn
      exact realloc_goes_larger h hroom hp hne hlt

theorem free_goes (h : Inv s) (ho : Handled s (.free p)) : Goes s (.free p) a := by
  cases hp : s.heap p with
  | none =>
    have hfree : step s (.free p) a = some (0, s) := by
      rw [step, free_of_lost (getBlockSize_of_none h hp), Option.map_some]
    exact ⟨0, s, hfree, (Function.update_eq_self_iff.mpr hp.symm).symm, h⟩
  | some c =>
    have hne : c ≠ [] := by
      rintro rfl
      exact ho hp
    have hfree : step s (.free p) a = some (0, s.take p) := by
      rw [step, free_eq h hp hne, Option.map_some]
    exact ⟨0, s.take p, hfree, rfl, h.take⟩

theorem write_goes {octets : List UInt8} (h : Inv s) (hp : s.heap p = some c) (hle : octets.length ≤ c.length) :
    Goes s (.write p octets) a := by
  have hcut : c = [] ++ c.take octets.length ++ c.drop octets.length := by
    rw [List.nil_append, List.take_append_drop]
  have hstore := Block.store_eq (p := 0) hcut rfl (List.length_take_of_le hle).symm
  have hstep : step s (.write p octets) a = some (0,
      { s with heap := Function.update s.heap p (some ([] ++ octets ++ c.drop octets.length)) }) := by
    rw [step, write, hp, Option.bind_eq_bind, Option.bind_some, hstore]
    rfl
  refine ⟨0, _, hstep, trivial, h.set hp ?_⟩
  rw [List.nil_append, List.length_append, List.length_drop]
  omega

/-- **One act** that goes well does what it owes, and the list mirrors the heap again. -/
theorem step_goes (h : Inv s) (hg : Granted s act a) (ho : Handled s act) : Goes s act a := by
  cases act with
  | malloc n site => exact malloc_goes h hg
  | calloc count size site => exact calloc_goes h hg
  | realloc p n site => exact realloc_goes h hg ho
  | free p => exact free_goes h ho
  | write p octets =>
    obtain ⟨c, hp, hle⟩ := hg
    exact write_goes h hp hle

/-! ### The acts that go wrong -/

/-- `realloc` of a live block to a size that is not 0 does what it owes only for a block with octets and a larger
size. -/
theorem realloc_handled {r : Nat} (h : Inv s) (hp : s.heap p = some c) (hn : n ≠ 0)
    (hstep : mleakRealloc s p n site a = some (r, s')) (hd : Done s.heap (.realloc p n site) a r s'.heap) :
    c ≠ [] ∧ c.length < n := by
  simp only [Done, hp] at hd
  rw [if_neg hn] at hd
  have hp0 : p ≠ 0 := (h.fits p c hp).1
  have hne : c ≠ [] := by
    rintro rfl
    rw [realloc_of_lost hp0 hn (getBlockSize_of_nil h hp)] at hstep
    obtain ⟨rfl, rfl⟩ := Prod.mk.inj (Option.some.inj hstep)
    rcases hd with ⟨-, -, b, hb, -, hheap⟩ | ⟨-, hr, -⟩
    · rw [hheap, Function.update_self] at hp
      rw [Option.some.inj hp, List.length_nil] at hb
      exact hn hb.symm
    · exact hp0 hr
  refine ⟨hne, ?_⟩
  by_contra hle
  have hr : r = 0 := by
    rcases Nat.lt_or_eq_of_le (Nat.le_of_not_lt hle) with hlt | rfl
    · rw [realloc_smaller h hp hn hlt] at hstep
      exact (Prod.mk.inj (Option.some.inj hstep)).1.symm
    · rw [realloc_same h hp hne] at hstep
      exact (Prod.mk.inj (Option.some.inj hstep)).1.symm
  rcases hd with ⟨hr0, -⟩ | ⟨hlt, -⟩
  · exact hr0 hr
  · exact hle hlt

/-- **No other act** does what it owes. -/
theorem handled_of_done {r : Nat} (h : Inv s) (hstep : step s act a = some (r, s'))
    (hd : Done s.heap act a r s'.heap) : Handled s act := by
  cases act with
  | malloc | calloc | write => trivial
  | realloc p n site =>
    intro c hp hn
    exact realloc_handled h hp hn hstep hd
  | free p =>
    intro hp
    rw [step, free_of_lost (getBlockSize_of_nil h hp), Option.map_some] at hstep
    obtain ⟨-, rfl⟩ := Prod.mk.inj (Option.some.inj hstep)
    have hnone := congrFun hd p
    rw [hp, Function.update_self] at hnone
    cases hnone

/-! ### Runs -/

/-- **What is asked of a run**: the list mirrors the heap in every state, and each act does what it owes. -/
def Mirrored : Tracker → List (Act × Answer) → Prop
  | s, [] => Mirror s
  | s, (act, a) :: t => Mirror s ∧ ∃ r s', step s act a = some (r, s') ∧ Done s.heap act a r s'.heap ∧ Mirrored s' t

/-- `P` holds before each act of a run. -/
def Along (P : Tracker → Act → Answer → Prop) : Tracker → List (Act × Answer) → Prop
  | _, [] => True
  | s, (act, a) :: t =>
    P s act a ∧
      match step s act a with
      | some (_, s') => Along P s' t
      | none => True

theorem Along.next {P : Tracker → Act → Answer → Prop} {t : List (Act × Answer)} {r : Nat}
    (hal : Along P s ((act, a) :: t)) (hstep : step s act a = some (r, s')) : Along P s' t := by
  obtain ⟨-, hal⟩ := hal
  rw [hstep] at hal
  exact hal

theorem inv_init : Inv init := by
  refine ⟨⟨List.nodup_nil, ?_, ?_⟩, ?_, ?_⟩
  · intro i hi
    cases hi
  · intro p b hb
    cases hb
  · intro p q b c hb
    cases hb
  · intro p b hb
    cases hb

theorem mirrored_of_handled (t : List (Act × Answer)) (h : Inv s) (hg : Along Granted s t)
    (ho : Along (fun s act _ => Handled s act) s t) : Mirrored s t := by
  induction t generalizing s with
  | nil => exact h.toMirror
  | cons x t ih =>
    obtain ⟨act, a⟩ := x
    obtain ⟨r, s', hstep, hd, h'⟩ := step_goes h hg.1 ho.1
    exact ⟨h.toMirror, r, s', hstep, hd, ih h' (hg.next hstep) (ho.next hstep)⟩

theorem handled_of_mirrored (t : List (Act × Answer)) (h : Inv s) (hg : Along Granted s t) (hm : Mirrored s t) :
    Along (fun s act _ => Handled s act) s t := by
  induction t generalizing s with
  | nil => trivial
  | cons x t ih =>
    obtain ⟨act, a⟩ := x
    obtain ⟨-, r, s', hstep, hd, hm⟩ := hm
    have ho : Handled s act := handled_of_done h hstep hd
    obtain ⟨q, s'', hstep', -, h'⟩ := step_goes h hg.1 ho
    rw [hstep] at hstep'
    obtain ⟨-, rfl⟩ := Prod.mk.inj (Option.some.inj hstep')
    refine ⟨ho, ?_⟩
    rw [hstep]
    exact ih h' (hg.next hstep) hm

/-- **The tracker mirrors the heap** in a run, and each of its acts does what it owes, exactly when no block without
octets is freed or resized and no block is brought to a size that is not 0 and not larger. -/
theorem mirrored_iff (t : List (Act × Answer)) (hg : Along Granted init t) :
    Mirrored init t ↔ Along (fun s act _ => Handled s act) init t :=
  ⟨handled_of_mirrored t inv_init hg, mirrored_of_handled t inv_init hg⟩

/-- The C library gives memory at `p`. -/
def answerAt (p : Nat) : Answer := { data := p, junk := fun _ => 0, info := true }

def sampleSite : Site := { line := 10, file := "main.c", func := "main" }

/-- A block of two octets that are written, four octets in its place, and those given back. -/
def sampleRun : List (Act × Answer) :=
  [(.malloc 2 sampleSite, answerAt 100), (.write 100 [1, 2], answerAt 0), (.realloc 100 4 sampleSite, answerAt 200),
    (.free 200, answerAt 0)]

theorem fresh_init (p n : Nat) : Heap.Fresh init.heap p n := by
  intro q b hb
  cases hb

theorem sampleRun_granted : Along Granted init sampleRun := by
  refine ⟨fun _ => ⟨fresh_init 100 2, by decide⟩, ⟨⟨_, rfl, by decide⟩, ⟨?_, ⟨trivial, trivial⟩⟩⟩⟩
  intro _
  refine ⟨?_, by decide⟩
  intro q b hb
  by_cases hq : q = 100
  · subst hq
    obtain rfl := Option.some.inj (show some [1, 2] = some b from hb)
    decide
  · have hold : Function.update (Function.update (Function.update init.heap 100 _) 100 _) 100 _ q = some b := hb
    rw [Function.update_of_ne hq, Function.update_of_ne hq, Function.update_of_ne hq] at hold
    cases hold

theorem sampleRun_handled : Along (fun s act _ => Handled s act) init sampleRun := by
  refine ⟨trivial, ⟨trivial, ⟨?_, ⟨?_, trivial⟩⟩⟩⟩
  · intro c hc _
    obtain rfl := Option.some.inj (show some [1, 2] = some c from hc)
    exact ⟨List.cons_ne_nil 1 [2], by decide⟩
  · intro h
    cases h

theorem mirrored_demo : Along Granted init sampleRun ∧ Mirrored init sampleRun :=
  ⟨sampleRun_granted, (mirrored_iff sampleRun sampleRun_granted).mpr sampleRun_handled⟩

/-- A block without octets is freed. -/
def lostRun : List (Act × Answer) :=
  [(.malloc 0 sampleSite, answerAt 100), (.free 100, answerAt 0)]

theorem not_mirrored : ¬ ∀ t, Along Granted init t → Mirrored init t := by
  intro hall
  have hg : Along Granted init lostRun := ⟨fun _ => ⟨fresh_init 100 0, by decide⟩, ⟨trivial, trivial⟩⟩
  obtain ⟨-, ho, -⟩ := handled_of_mirrored lostRun inv_init hg (hall lostRun hg)
  exact ho rfl

end Wow.MemLeak
