import Mathlib.Data.List.Infix
import Wow.Utils.WowString

/-!
# Wow.Utils.WowStringRefine — the strings are texts

Each call under its condition, and from it whole runs.

* `left_holds`, `right_holds`, `mid_holds`, `append_holds`: what a call leaves in the block.
* `str_answers`, `cmp_answers`: what is said about the text.
* `call_does`: one call; `string_refines`: whole runs.
-/

namespace Wow.WowString

open Block

variable {s : StringT} {l : List UInt8}

/-! ### Octets -/

theorem memset_eq {b x y z : List UInt8} {p n : Nat} (hb : b = x ++ y ++ z) (hp : p = x.length) (hn : n = y.length) :
    memset b p n = some (x ++ List.replicate n 0 ++ z) :=
  store_eq hb hp (by rw [List.length_replicate, hn])

/-- Cleared octets begin with a zero. -/
theorem exists_zero {n : Nat} (h : 0 < n) (z : List UInt8) : ∃ rest, List.replicate n 0 ++ z = 0 :: rest := by
  obtain ⟨m, rfl⟩ := Nat.exists_eq_add_one_of_ne_zero (Nat.ne_of_gt h)
  exact ⟨List.replicate m 0 ++ z, rfl⟩

/-- A text with cleared octets behind it. -/
theorem holds_of_zeros {x z : List UInt8} {n cap : Nat} (h0 : 0 ∉ x) (hpos : 0 < n)
    (hcap : cap = (x ++ List.replicate n 0 ++ z).length) : Holds ⟨x.length, cap, x ++ List.replicate n 0 ++ z⟩ x := by
  obtain ⟨rest, hrest⟩ := exists_zero hpos z
  exact ⟨⟨rest, by rw [List.append_assoc, hrest]⟩, h0, rfl, hcap⟩

theorem holds_new : Holds new [] :=
  ⟨⟨List.replicate 255 0, rfl⟩, List.not_mem_nil, rfl, (List.length_replicate (a := (0 : UInt8))).symm⟩

theorem Holds.size_lt (h : Holds s l) : s.size < s.capicity := by
  obtain ⟨rest, hrest⟩ := h.data
  rw [h.size, h.capicity, hrest, List.length_append, List.length_cons]
  omega

theorem Holds.cstr (h : Holds s l) : cstr s.data = some ⟨l, h.noNul⟩ := by
  obtain ⟨rest, hrest⟩ := h.data
  rw [hrest]
  exact cstr_append ⟨l, h.noNul⟩ rest

/-- The text is what the block has in front of the size. -/
theorem Holds.take (h : Holds s l) : s.data.take s.size = l := by
  obtain ⟨rest, hrest⟩ := h.data
  rw [hrest, h.size, List.take_left]

/-! ### Parts of a text -/

theorem left_holds (h : Holds s l) {n : Nat} (hn : 0 < n) :
    ∃ s', left s n = some (WOW_SUCCESS, s') ∧ Holds s' (l.take n) := by
  obtain ⟨rest, hrest⟩ := h.data
  rw [left, if_neg (not_not.mpr hn)]
  by_cases hlt : s.size > n
  · have hsize := h.size
    obtain ⟨x, y, rfl, hx, hy⟩ := exists_cut (b := l) (n := n) (by omega)
    rw [if_pos hlt, memset_eq hrest hx.symm (by omega), ← hx, List.take_left]
    refine ⟨_, rfl, holds_of_zeros (fun h0 => h.noNul (List.mem_append_left y h0)) (by omega) ?_⟩
    rw [h.capicity, hrest]
    simp only [List.length_append, List.length_replicate] at *
    omega
  · rw [if_neg hlt, List.take_of_length_le (by rw [← h.size]; omega)]
    exact ⟨s, rfl, h⟩

theorem right_holds (h : Holds s l) {n : Nat} (hn : 0 < n) :
    ∃ s', right s n = some (WOW_SUCCESS, s') ∧ Holds s' (l.drop (l.length - n)) := by
  obtain ⟨rest, hrest⟩ := h.data
  have hsize := h.size
  rw [right, if_neg (not_not.mpr hn)]
  by_cases hlt : s.size > n
  · obtain ⟨x, y, hxy, hx, hy⟩ := exists_cut (b := l) (n := l.length - n) (by omega)
    obtain ⟨u, v, huv, hu, hv⟩ := exists_cut (b := l) (n := n) (by omega)
    have hcopy : copy s.data 0 s.data (s.size - n) n = some ([] ++ y ++ (v ++ 0 :: rest)) := by
      refine copy_eq (o := u) (hrest.trans ?_) rfl (hrest.trans (congrArg (· ++ 0 :: rest) hxy)) ?_ ?_ ?_
      · rw [huv, List.nil_append, List.append_assoc]
      all_goals omega
    have hclear : memset ([] ++ y ++ (v ++ 0 :: rest)) n (s.size - n) =
        some (y ++ List.replicate (s.size - n) 0 ++ 0 :: rest) :=
      memset_eq (by rw [List.nil_append, List.append_assoc]) (by omega) (by omega)
    have hdrop : l.drop (l.length - n) = y := by
      rw [← hx, hxy, List.drop_left]
    have hyn : n = y.length := by omega
    rw [if_pos hlt, hcopy, hdrop]
    refine ⟨⟨n, s.capicity, y ++ List.replicate (s.size - n) 0 ++ 0 :: rest⟩,
      by simp only [hclear, Option.bind_eq_bind, Option.bind_some], ?_⟩
    rw [hyn]
    refine holds_of_zeros (fun h0 => h.noNul (hxy ▸ List.mem_append_right x h0)) (by omega) ?_
    rw [h.capicity, hrest]
    simp only [List.length_append, List.length_replicate] at *
    omega
  · rw [if_neg hlt, show l.length - n = 0 by omega, List.drop_zero]
    exact ⟨s, rfl, h⟩

/-- A middle part in front of the end. -/
theorem mid_inside (h : Holds s l) {i n : Nat} (hn : 0 < n) (hlt : n + i < s.size)
    (hcap : i + (s.size - n) ≤ s.capicity) (hwhole : i = 0 ∨ n ≤ s.size - n) :
    ∃ s', mid s i n = some (WOW_SUCCESS, s') ∧ Holds s' ((l.drop i).take n) := by
  obtain ⟨rest, hrest⟩ := h.data
  have hsize := h.size
  have hlen := h.capicity
  have hll : s.data.length = l.length + (rest.length + 1) := by
    rw [hrest, List.length_append, List.length_cons]
  -- what is moved, where it goes, and what is cleared then
  obtain ⟨x, z', hx, hxl, hzl'⟩ := exists_cut (b := s.data) (n := i) (by omega)
  obtain ⟨m, z, rfl, hm, hz⟩ := exists_cut (b := z') (n := s.size - n) (by omega)
  obtain ⟨u, v, huv, hu, hv⟩ := exists_cut (b := s.data) (n := s.size - n) (by omega)
  have hmv : (m ++ v).length = s.data.length := by
    rw [List.length_append]
    omega
  obtain ⟨p, w, hpw, hp, hw⟩ := exists_cut (b := m ++ v) (n := n) (by omega)
  obtain ⟨q, r, rfl, hq, hr⟩ := exists_cut (b := w) (n := s.size - n) (by omega)
  have hcopy : copy s.data 0 s.data i (s.size - n) = some (m ++ v) := by
    refine copy_eq (a := []) (o := u) (c := v) huv rfl (x := x) (y := z) ?_ hxl.symm hm.symm (hm.trans hu.symm)
    rw [hx, List.append_assoc]
  have hclear : memset (m ++ v) n (s.size - n) = some (p ++ List.replicate (s.size - n) 0 ++ r) :=
    memset_eq (by rw [hpw, List.append_assoc]) hp.symm hq.symm
  have hpart : (l.drop i).take n = p := by
    have hl : (l.drop i).take n = (s.data.drop i).take n := by
      rw [hrest, List.drop_append_of_le_length (by omega),
        List.take_append_of_le_length (by rw [List.length_drop]; omega)]
    have hpm : p = (m ++ v).take n := by
      rw [hpw, ← hp, List.take_left]
    rw [hl, hpm, hx, ← hxl, List.drop_left]
    rcases hwhole with h0 | hle
    · obtain rfl : x = [] := List.length_eq_zero_iff.mp (by omega)
      rw [List.nil_append] at hx
      obtain ⟨rfl, rfl⟩ := List.append_inj (huv.symm.trans hx) (hu.trans hm.symm)
      rfl
    · rw [List.take_append_of_le_length (by omega), List.take_append_of_le_length (by omega)]
  rw [mid, if_neg (by omega), if_pos hlt, hcopy, hpart]
  refine ⟨⟨n, s.capicity, p ++ List.replicate (s.size - n) 0 ++ r⟩,
    by simp only [hclear, Option.bind_eq_bind, Option.bind_some], ?_⟩
  rw [← hp]
  refine holds_of_zeros (fun h0 => h.noNul ?_) (by omega) ?_
  · rw [← hpart] at h0
    exact List.mem_of_mem_drop (List.mem_of_mem_take h0)
  · rw [hlen, ← hmv, hpw]
    simp only [List.length_append, List.length_replicate]
    omega

/-- A middle part up to the end. -/
theorem mid_end (h : Holds s l) {i n : Nat} (hn : 0 < n) (hi : i < s.size) (hle : s.size ≤ n + i)
    (hcap : n + (s.size - i) ≤ s.capicity) (hwhole : i = 0 ∨ n + i = s.size) :
    ∃ s', mid s i n = some (WOW_SUCCESS, s') ∧ Holds s' ((l.drop i).take n) := by
  obtain ⟨rest, hrest⟩ := h.data
  have hsize := h.size
  have hlen := h.capicity
  obtain ⟨x, y, hxy, hx, hy⟩ := exists_cut (b := l) (n := i) (by omega)
  obtain ⟨u, v, huv, hu, hv⟩ := exists_cut (b := s.data) (n := s.size - i) (by omega)
  have hyv : (y ++ v).length = s.data.length := by
    rw [List.length_append]
    omega
  obtain ⟨p, w, hpw, hp, hw⟩ := exists_cut (b := y ++ v) (n := n) (by omega)
  obtain ⟨q, r, rfl, hq, hr⟩ := exists_cut (b := w) (n := s.size - i) (by omega)
  have hcopy : copy s.data 0 s.data i (s.size - i) = some (y ++ v) := by
    refine copy_eq (a := []) (o := u) (c := v) huv rfl (x := x) (y := 0 :: rest) ?_ hx.symm (by omega) (by omega)
    rw [hrest, hxy]
  have hclear : memset (y ++ v) n (s.size - i) = some (p ++ List.replicate (s.size - i) 0 ++ r) :=
    memset_eq (by rw [hpw, List.append_assoc]) hp.symm hq.symm
  have hpart : (l.drop i).take n = y := by
    rw [hxy, ← hx, List.drop_left, List.take_of_length_le (by omega)]
  have hnul : 0 ∉ y := fun h0 => h.noNul (hxy ▸ List.mem_append_right x h0)
  rw [mid, if_neg (by omega), if_neg (by omega), hcopy, hpart]
  refine ⟨⟨s.size - i, s.capicity, p ++ List.replicate (s.size - i) 0 ++ r⟩,
    by simp only [hclear, Option.bind_eq_bind, Option.bind_some], ?_, hnul, show s.size - i = y.length by omega, ?_⟩
  · rcases Nat.eq_or_lt_of_le hle with heq | hgt
    · -- what is cleared begins where the part ends
      obtain ⟨rfl, -⟩ := List.append_inj hpw (by omega)
      obtain ⟨rest', hrest'⟩ := exists_zero (show 0 < s.size - i by omega) r
      exact ⟨rest', by rw [List.append_assoc, hrest']⟩
    · -- the part is the whole text, with its own zero
      have h0 : i = 0 := hwhole.resolve_right (by omega)
      obtain rfl : x = [] := List.length_eq_zero_iff.mp (by omega)
      obtain ⟨rfl, rfl⟩ := List.append_inj (huv.symm.trans hrest) (by omega)
      rw [List.nil_append] at hxy
      subst hxy
      obtain ⟨t, rfl, ht⟩ := exists_between hpw (by omega)
      cases t with
      | nil =>
        rw [List.append_nil] at hp
        omega
      | cons b t =>
        obtain ⟨rfl, -⟩ := List.cons.inj ht
        exact ⟨t ++ List.replicate (s.size - i) 0 ++ r, by simp only [List.append_assoc, List.cons_append]⟩
  · rw [hlen, ← hyv, hpw]
    simp only [List.length_append, List.length_replicate]
    omega

/-- **A middle part** that fits. -/
theorem mid_holds (h : Holds s l) {i n : Nat} (hn : 0 < n) (hi : i < s.size) (hfit : MidFits s i n) :
    ∃ s', mid s i n = some (WOW_SUCCESS, s') ∧ Holds s' ((l.drop i).take n) := by
  rw [MidFits] at hfit
  split at hfit
  · rename_i hlt
    exact mid_inside h hn hlt hfit.1 hfit.2
  · rename_i hle
    exact mid_end h hn hi (Nat.le_of_not_lt hle) hfit.1 hfit.2

/-! ### Appending -/

/-- A terminated text is copied as it is. -/
theorem strncpy_text {dst xs z : List UInt8} {d : Nat} (h0 : 0 ∉ xs) :
    strncpy dst d (xs ++ 0 :: z) xs.length = store dst d xs := by
  have hchars : (xs ++ 0 :: z).takeWhile (· ≠ 0) = xs := by
    have hxs : ∀ b ∈ xs, decide (b ≠ 0) = true := fun b hb => decide_eq_true fun h => h0 (h ▸ hb)
    rw [List.takeWhile_append_of_pos hxs, List.takeWhile_cons_of_neg (by simp), List.append_nil]
  rw [strncpy, if_pos (Or.inl (by simp)), hchars]
  simp only [List.take_length, Nat.sub_self, List.replicate_zero, List.append_nil]

/-- The text behind the old one, in front of a zero. -/
theorem append_holds (h : Holds s l) {xs : List UInt8} (h0 : 0 ∉ xs) (hend : s.data[s.size + xs.length]? = some 0) :
    ∃ data, store s.data s.size xs = some data ∧
      Holds { s with data := data, size := s.size + xs.length } (l ++ xs) := by
  obtain ⟨rest, hrest⟩ := h.data
  have hsize := h.size
  have hlt : xs.length < (0 :: rest : List UInt8).length := by
    obtain ⟨hlt, -⟩ := List.getElem?_eq_some_iff.mp hend
    rw [hrest, List.length_append] at hlt
    omega
  obtain ⟨u, v, huv, hu, hv⟩ := exists_cut (Nat.le_of_lt hlt)
  obtain ⟨rest', rfl⟩ : ∃ rest', v = 0 :: rest' := by
    rw [hrest, hsize, List.getElem?_append_right (by omega), Nat.add_sub_cancel_left, huv,
      List.getElem?_append_right (by omega), hu, Nat.sub_self] at hend
    cases v with
    | nil => cases hend
    | cons b v => exact ⟨v, congrArg (· :: v) (Option.some_inj.mp hend)⟩
  have hdata : s.data = l ++ u ++ 0 :: rest' := by
    rw [hrest, huv, List.append_assoc]
  have hstore := store_eq hdata hsize hu.symm
  refine ⟨_, hstore, ⟨rest', rfl⟩, ?_, ?_, ?_⟩
  · exact fun hmem => (List.mem_append.mp hmem).elim h.noNul h0
  · rw [List.length_append, hsize]
  · rw [length_store hstore]
    exact h.capicity

/-- Memory that has been got ends with zeros. -/
theorem holds_resize (h : Holds s l) {cap n : Nat} (hfull : s.capicity ≤ s.size + n) (hcap : s.size + n < cap) :
    Holds (resize true s cap) l ∧ (resize true s cap).data[s.size + n]? = some 0 := by
  obtain ⟨rest, hrest⟩ := h.data
  have hlen := h.capicity
  rw [resize, if_pos rfl]
  refine ⟨⟨⟨rest ++ List.replicate (cap - s.capicity) 0, ?_⟩, h.noNul, h.size, ?_⟩, ?_⟩
  · simp only [hrest, List.append_assoc, List.cons_append]
  · simp only [List.length_append, List.length_replicate]
    omega
  · simp only
    rw [List.getElem?_append_right (by omega), List.getElem?_replicate_of_lt (by omega)]

theorem appendData_holds (h : Holds s l) {ok : Bool} {p : CStr} (hlen : p.chars.length < 2 ^ 31)
    (hend : Ends ok s p.chars.length) :
    ∃ s', appendData ok s p = some (WOW_SUCCESS, s') ∧ Holds s' (l ++ p.chars) := by
  have hint : asInt (p.chars.length : Int) = p.chars.length := asInt_of_lt (by omega) (by omega)
  have hlt := h.size_lt
  obtain ⟨s', hs', hsize, h', hend'⟩ : ∃ s', (if s.size + p.chars.length ≥ s.capicity then
      if p.chars.length > s.capicity then resize ok s (s.capicity + p.chars.length) else resize ok s (s.capicity * 2)
      else s) = s' ∧ s'.size = s.size ∧ Holds s' l ∧ s'.data[s.size + p.chars.length]? = some 0 := by
    refine ⟨_, rfl, ?_⟩
    rw [Ends] at hend
    split at hend
    · rename_i hfull
      subst hend
      rw [if_pos hfull]
      split
      · exact ⟨rfl, holds_resize h hfull (by omega)⟩
      · exact ⟨rfl, holds_resize h hfull (by omega)⟩
    · rename_i hroom
      rw [if_neg hroom]
      exact ⟨rfl, h, hend⟩
  rw [← hsize] at hend'
  obtain ⟨data, hdata, hholds⟩ := append_holds h' p.noNul hend'
  refine ⟨{ s' with data := data, size := s'.size + p.chars.length }, ?_, hholds⟩
  simp only [appendData, hint, if_neg (Int.not_lt.mpr (Int.natCast_nonneg _)), Int.toNat_natCast, hs', CStr.bytes,
    strncpy_text p.noNul, hdata, Option.bind_eq_bind, Option.bind_some]

theorem appendString_holds {s : Strings} {l : Nat → List UInt8} (h : ∀ k, Holds (s k) (l k)) {ok : Bool} {k j : Nat}
    (hend : Ends ok (s k) (s j).size) :
    ∃ a, appendString ok s k j = some (WOW_SUCCESS, Function.update s k a) ∧ Holds a (l k ++ l j) := by
  have hlt := (h k).size_lt
  obtain ⟨a, ha, hsize, hholds, hend'⟩ : ∃ a, (if (s j).size ≥ (s k).capicity - (s k).size then
      Function.update s k (resize ok (s k) ((s j).capicity + (s k).capicity)) else s) = Function.update s k a ∧
      a.size = (s k).size ∧ Holds a (l k) ∧ a.data[(s k).size + (s j).size]? = some 0 := by
    rw [Ends] at hend
    split at hend
    · rename_i hfull
      have hltj := (h j).size_lt
      subst hend
      rw [if_pos (by omega)]
      exact ⟨_, rfl, rfl, holds_resize (h k) hfull (by omega)⟩
    · rename_i hroom
      rw [if_neg (by omega)]
      exact ⟨s k, (Function.update_eq_self k s).symm, rfl, h k, hend⟩
  -- the string that is appended, when it is the same one too
  have hj : Holds (Function.update s k a j) (l j) ∧ (Function.update s k a j).size = (s j).size := by
    by_cases hjk : j = k
    · subst hjk
      rw [Function.update_self]
      exact ⟨hholds, hsize⟩
    · rw [Function.update_of_ne hjk]
      exact ⟨h j, rfl⟩
  obtain ⟨hj, hjsize⟩ := hj
  have hjlen : (s j).size = (l j).length := hjsize.symm.trans hj.size
  obtain ⟨rest, hrest⟩ := hj.data
  rw [← hsize, hjlen] at hend'
  obtain ⟨data, hdata, hdone⟩ := append_holds hholds hj.noNul hend'
  refine ⟨{ a with data := data, size := a.size + (l j).length }, ?_, hdone⟩
  unfold appendString
  simp only [ha]
  simp only [Function.update_self, hjsize, hjlen, hrest, strncpy_text hj.noNul, hdata,
    Option.bind_eq_bind, Option.bind_some, Function.update_idem]

/-! ### What is said about a text -/

theorem str_answers (h : Holds s l) {p : CStr} (hfit : p.chars ≠ s.data.take s.size) :
    ∃ r, str s p = some r ∧ (Op.str p).Answers l (.place r) := by
  rw [h.take] at hfit
  rw [str]
  by_cases hlt : p.chars.length < s.size
  · rw [if_pos hlt, h.cstr]
    refine ⟨strstr l p.chars, rfl, fun _ => ?_⟩
    cases hr : strstr l p.chars with
    | some i =>
      obtain ⟨-, hfirst⟩ := strstr_eq_some_iff.mp hr
      exact Or.inl ⟨i, rfl, hfirst⟩
    | none => exact Or.inr ⟨rfl, strstr_eq_none_iff.mp hr⟩
  · rw [if_neg hlt]
    refine ⟨none, rfl, fun _ => Or.inr ⟨rfl, fun hin => hfit (hin.eq_of_length ?_)⟩⟩
    have hle := hin.length_le
    have hsize := h.size
    omega

theorem cmp_answers (h : Holds s l) {p : CStr} (hfit : p.chars <+: s.data.take s.size → p.chars.length = s.size) :
    ∃ r, cmp s p = some r ∧ (Op.cmp p).Answers l (.code r) := by
  rw [h.take] at hfit
  refine ⟨_, by rw [cmp, h.cstr]; rfl, _, rfl, ?_⟩
  rw [strncmp_eq_zero_iff h.noNul p.noNul]
  constructor
  · exact fun hp => (hp.eq_of_length ((hfit hp).trans h.size)).symm
  · rintro rfl
    exact List.prefix_rfl

/-! ### Runs -/

section Runs

variable {s : Strings} {l : Nat → List UInt8}

theorem holds_update (h : ∀ k, Holds (s k) (l k)) {k : Nat} {a : StringT} {x : List UInt8} (ha : Holds a x) (j : Nat) :
    Holds (Function.update s k a j) (Function.update l k x j) := by
  by_cases hj : j = k
  · subst hj
    rwa [Function.update_self, Function.update_self]
  · rw [Function.update_of_ne hj, Function.update_of_ne hj]
    exact h j

/-- **One call** under the condition. -/
theorem call_does (h : ∀ k, Holds (s k) (l k)) (k : Nat) {op : Op} (hfit : op.Fits s k) :
    ∃ r s' x, step s k op = some (r, s') ∧ Does l k op r x ∧ ∀ j, Holds (s' j) (Function.update l k x j) := by
  have herror : ∃ n, Ret.code (-PARAM_INPUT_ARG_INVALID) = .code n ∧ n ≠ WOW_SUCCESS := ⟨_, rfl, by decide⟩
  have hsize := (h k).size
  cases op with
  | new => exact ⟨_, _, [], rfl, ⟨rfl, rfl⟩, holds_update h holds_new⟩
  | left n =>
    by_cases hn : n = 0
    · subst hn
      exact ⟨_, _, l k, rfl, ⟨rfl, herror⟩, holds_update h (h k)⟩
    · obtain ⟨a, ha, hholds⟩ := left_holds (h k) (Nat.pos_of_ne_zero hn)
      refine ⟨_, _, _, by rw [step, ha]; rfl, ?_, holds_update h hholds⟩
      rw [Does, Op.ref, if_neg hn]
      exact ⟨rfl, rfl⟩
  | right n =>
    by_cases hn : n = 0
    · subst hn
      exact ⟨_, _, l k, rfl, ⟨rfl, herror⟩, holds_update h (h k)⟩
    · obtain ⟨a, ha, hholds⟩ := right_holds (h k) (Nat.pos_of_ne_zero hn)
      refine ⟨_, _, _, by rw [step, ha]; rfl, ?_, holds_update h hholds⟩
      rw [Does, Op.ref, if_neg hn]
      exact ⟨rfl, rfl⟩
  | mid i n =>
    by_cases hin : 0 < n ∧ i < (s k).size
    · obtain ⟨a, ha, hholds⟩ := mid_holds (h k) hin.1 hin.2 (hfit hin)
      refine ⟨_, _, _, by rw [step, ha]; rfl, ?_, holds_update h hholds⟩
      rw [Does, Op.ref, if_neg (by omega)]
      exact ⟨rfl, rfl⟩
    · refine ⟨_, _, l k, by rw [step, mid, if_pos hin]; rfl, ?_, holds_update h (h k)⟩
      rw [Does, Op.ref, if_pos (by omega)]
      exact ⟨rfl, herror⟩
  | appendData ok p =>
    obtain ⟨a, ha, hholds⟩ := appendData_holds (h k) hfit.1 hfit.2
    exact ⟨_, _, _, by rw [step, ha]; rfl, ⟨rfl, rfl⟩, holds_update h hholds⟩
  | appendString ok j =>
    obtain ⟨a, ha, hholds⟩ := appendString_holds h hfit
    exact ⟨_, _, _, by rw [step, ha]; rfl, ⟨rfl, rfl⟩, holds_update h hholds⟩
  | str p =>
    obtain ⟨r, hr, hans⟩ := str_answers (h k) hfit
    refine ⟨_, s, l k, by rw [step, hr]; rfl, ⟨rfl, hans⟩, ?_⟩
    rwa [Function.update_eq_self]
  | cmp p =>
    obtain ⟨r, hr, hans⟩ := cmp_answers (h k) hfit
    refine ⟨_, s, l k, by rw [step, hr]; rfl, ⟨rfl, hans⟩, ?_⟩
    rwa [Function.update_eq_self]

/-- **Whole runs** under the condition. -/
theorem refines_of_holds (h : ∀ k, Holds (s k) (l k)) {ops : List (Nat × Op)} (hfit : Fitting s ops) :
    Refines s l ops := by
  induction ops generalizing s l with
  | nil => exact h
  | cons e ops ih =>
    obtain ⟨k, op⟩ := e
    obtain ⟨hop, hops⟩ := hfit
    obtain ⟨r, s', x, hstep, hdoes, hholds⟩ := call_does h k hop
    rw [hstep] at hops
    exact ⟨h, r, s', x, hstep, hdoes, ih hholds hops⟩

end Runs

/-- Strings that are new. -/
def fresh : Strings := fun _ => new

/-- **The strings are texts**, in every run that meets the condition at every call. -/
theorem string_refines (ops : List (Nat × Op)) (hfit : Fitting fresh ops) : Refines fresh (fun _ => []) ops :=
  refines_of_holds (fun _ => holds_new) hfit

/-- `"wow"`. -/
def wow : CStr := ⟨[119, 111, 119], by decide⟩

/-- A string that is appended to itself, cut, searched and compared. -/
def demoOps : List (Nat × Op) :=
  [(0, .appendData false wow), (0, .appendString false 0), (0, .mid 1 2), (1, .appendString false 0), (0, .str wow),
    (0, .cmp wow), (0, .right 1), (0, .left 0)]

theorem string_refines_demo : Refines fresh (fun _ => []) demoOps := string_refines demoOps (by decide +kernel)

/-- A string is never found in itself. -/
theorem str_self (h : Holds s l) {p : CStr} (hp : p.chars = l) : str s p = some none := by
  rw [str, if_neg (by rw [hp, h.size]; omega)]

/-- A text is not found in itself. -/
theorem not_string_refines : ¬ Refines fresh (fun _ => []) [(0, .appendData true wow), (0, .str wow)] := by
  rintro ⟨-, r, s', x, -, hdoes, hholds, r', s'', x', hstep, hdoes', -⟩
  obtain ⟨rfl, -⟩ := hdoes
  have hwow := hholds 0
  rw [Function.update_self] at hwow
  rw [step, str_self hwow rfl] at hstep
  obtain ⟨rfl, -⟩ := Prod.mk.inj (Option.some.inj hstep)
  obtain ⟨i, hplace, -⟩ | ⟨-, hno⟩ := hdoes'.2 (List.cons_ne_nil _ _)
  · cases hplace
  · rw [Function.update_self] at hno
    exact hno (List.infix_refl wow.chars)

end Wow.WowString
