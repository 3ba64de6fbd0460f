import Wow.Lib.Replace
import Wow.Utils.StrReplace

/-!
# Wow.Utils.StrReplaceRight — the string that `wow_str_replace` returns

* `ensureSpace_spec`: the growth leaves a block of at least the size that is asked for, unless the capacity leaves the
  range of `int`.
* `replaceLoop_gives`: what is left of the source is replaced behind what the block holds already.
* `replaced_right_iff`: the call returns the replacement where the capacity for it stays in the range of `int`.
-/

namespace Wow.Utils.StrReplace

open Block

/-- **The requirement**: the call returns a block that holds the source with the occurrences replaced, and its
terminator; no copy has left a block before. -/
def Right (pcStr pPattern pcRep : CStr) : Prop :=
  ∃ g fuel dest out, wowStrReplace g fuel pcStr pPattern pcRep = some (.str dest) ∧
    Replaced pPattern.chars pcRep.chars pcStr.chars out ∧ out ++ [0] <+: dest

/-! ### The capacity -/

namespace Reaches

variable {a b n m k : Nat}

theorem functional (h : Reaches a n m) (h' : Reaches a n k) : k = m := by
  induction h with
  | here hle =>
    cases h' with
    | here _ => rfl
    | step hlt _ => omega
  | step hlt _ ih =>
    cases h' with
    | here hle => omega
    | step _ hr => exact ih hr

/-- What is needed later is reached from what was needed first. -/
theorem later (h : Reaches a n m) (hab : a ≤ b) (h' : Reaches b n k) : Reaches b m k := by
  induction h with
  | here _ => exact h'
  | step hlt _ ih =>
    cases h' with
    | here hle => omega
    | step _ hr => exact ih hr

end Reaches

theorem getLenLoop_sound {size cap : Nat} : ∀ (fuel old : Nat), 2 ≤ old → getLenLoop fuel old size = some cap →
    Reaches size old cap := by
  intro fuel
  induction fuel with
  | zero =>
    intro old _ h
    cases h
  | succ fuel ih =>
    intro old hold h
    rw [getLenLoop] at h
    split at h
    · next hlt =>
      have hnext : next old = old * 3 / 2 := if_neg (by omega)
      exact .step hlt (hnext ▸ ih _ (by omega) h)
    · next hge =>
      obtain rfl := Option.some_inj.mp h
      exact .here (not_lt.mp hge)

/-- **What the growth returns** is the first capacity that suffices. -/
theorem getLen_sound {g old size cap : Nat} (hold : 1 ≤ old) (hlt : old < size) (h : getLen g old size = some cap) :
    Reaches size old cap := by
  rw [getLen] at h
  by_cases h1 : old = 1
  · subst h1
    exact .step hlt (getLenLoop_sound g 2 (le_refl 2) h)
  · rw [if_neg h1] at h
    exact getLenLoop_sound g old (by omega) h

/-- **The space** for `size` octets: the capacity that is reached, and a block of it that keeps what it held. -/
theorem ensureSpace_spec {g cur size : Nat} {dest done : List UInt8} {r : Option (List UInt8) × Int} (hcur : 1 ≤ cur)
    (hle : cur ≤ dest.length) (hlt : cur < 2 ^ 31) (hsize : size < 2 ^ 31) (hdone : done <+: dest)
    (hin : done.length ≤ size) (h : ensureSpace g dest cur size = some r) :
    ∃ cap, Reaches size cur cap ∧ (2 ^ 31 ≤ cap → r.1 = none) ∧
      (cap < 2 ^ 31 → ∃ d, r = (some d, (cap : Int)) ∧ cap ≤ d.length ∧ done <+: d) := by
  by_cases hgrow : cur < size
  · rw [ensureSpace, if_pos (by omega), asSize_natCast (by omega), asSize_natCast (by omega)] at h
    obtain ⟨cap, hcap, rfl⟩ := Option.map_eq_some_iff.mp h
    have hr := getLen_sound hcur hgrow hcap
    have htwo := hr.le_two_mul hgrow
    have hsizeLe := hr.size_le
    refine ⟨cap, hr, fun hbig => ?_, fun hsmall => ?_⟩
    · rw [realloc_asInt dest (by omega), if_neg (by omega)]
    · refine ⟨dest.take cap ++ List.replicate (cap - dest.length) 0, ?_, ?_, ?_⟩
      · rw [realloc_asInt dest (by omega), if_pos hsmall, asInt_of_lt (by omega) (by omega)]
      · simp only [List.length_append, List.length_take, List.length_replicate]
        omega
      · refine List.IsPrefix.trans ?_ (List.prefix_append _ _)
        exact List.prefix_take_iff.mpr ⟨hdone, by omega⟩
  · rw [ensureSpace_enough g dest (by omega)] at h
    obtain rfl := Option.some_inj.mp h
    exact ⟨cur, .here (by omega), fun hbig => by omega, fun _ => ⟨dest, rfl, hle, hdone⟩⟩

/-! ### The copies -/

/-- A store behind what is done. -/
theorem put_spec {dest done xs : List UInt8} (hdone : done <+: dest) (hin : done.length + xs.length ≤ dest.length) :
    ∃ d, put dest done.length xs = some d ∧ done ++ xs <+: d ∧ d.length = dest.length := by
  obtain ⟨tail, rfl⟩ := hdone
  have htail : xs.length ≤ tail.length := by
    rw [List.length_append] at hin
    omega
  obtain ⟨old, rest, rfl, hold, -⟩ := exists_cut htail
  refine ⟨done ++ xs ++ rest, ?_, List.prefix_append _ _, ?_⟩
  · rw [put, if_pos (Int.natCast_nonneg _), Int.toNat_natCast]
    exact store_eq (List.append_assoc _ _ _).symm rfl hold.symm
  · simp only [List.length_append]
    omega

/-- A copy behind it. -/
theorem memcpy_spec {dest done : List UInt8} (xs rest : List UInt8) (hdone : done <+: dest)
    (hin : done.length + xs.length ≤ dest.length) (hxs : xs.length < 2 ^ 31) :
    ∃ d, memcpy dest done.length (xs ++ rest) xs.length = some d ∧ done ++ xs <+: d ∧ d.length = dest.length := by
  obtain ⟨d, hput, hpre, hlen⟩ := put_spec hdone hin
  have hload : load (xs ++ rest) 0 xs.length = some xs := load_append [] xs rest
  refine ⟨d, ?_, hpre, hlen⟩
  rw [put, if_pos (Int.natCast_nonneg _)] at hput
  rw [memcpy, if_pos (Int.natCast_nonneg _), asSize_natCast (by omega), copy, hload, Option.bind_some,
    hput]

/-- **The copies of an occurrence** put what stands in front of it, and the replacement, behind what is done. -/
theorem copyMatch_spec {a : Args} {st : State} {x b dest done : List UInt8} (newLen : Int)
    (hsrc : st.pcStr = x ++ a.pattern ++ b) (hstart : st.start = done.length) (hdone : done <+: dest)
    (hin : done.length + x.length + a.rep.length ≤ dest.length) (hlt : done.length + x.length + a.rep.length < 2 ^ 31)
    (hpc : st.pcStr.length < 2 ^ 31) :
    ∃ d, copyMatch a st x.length dest newLen =
        some ⟨b, (done ++ x ++ a.rep).length, d, newLen⟩ ∧ done ++ x ++ a.rep <+: d ∧ d.length = dest.length := by
  have hpcLen : x.length + a.pattern.length + b.length < 2 ^ 31 := by
    rw [hsrc, List.length_append, List.length_append] at hpc
    exact hpc
  obtain ⟨d1, h1, hpre1, hlen1⟩ := memcpy_spec x (a.pattern ++ (b ++ [0])) hdone (by omega) (by omega)
  have hstart1 : asInt (st.start + x.length) = (done ++ x).length := by
    rw [hstart, asInt_add (by omega), List.length_append]
  have hin1 : (done ++ x).length + a.rep.length ≤ d1.length := by
    rw [List.length_append, hlen1]
    exact hin
  obtain ⟨d2, h2, hpre2, hlen2⟩ := memcpy_spec a.rep [0] hpre1 hin1 (by omega)
  have hadvance : advance st.pcStr (asInt (x.length + a.patternLen)) = some b := by
    have hsum : asInt (x.length + a.patternLen) = (x ++ a.pattern).length := by
      rw [Args.patternLen, asInt_natCast (by omega), asInt_add (by omega), List.length_append]
    have hinside : 0 ≤ ((x ++ a.pattern).length : Int) ∧
        ((x ++ a.pattern).length : Int) ≤ (x ++ a.pattern ++ b).length :=
      ⟨Int.natCast_nonneg _, Int.ofNat_le.mpr (List.prefix_append _ b).length_le⟩
    rw [hsum, hsrc, advance, if_pos hinside, Int.toNat_natCast, List.drop_left]
  have hrepLen : a.repLen = a.rep.length := asInt_natCast (by omega)
  have hend : asInt ((done ++ x).length + (a.rep.length : Int)) = (done ++ x ++ a.rep).length := by
    have hfits : (done ++ x).length + a.rep.length < 2 ^ 31 := by
      rw [List.length_append]
      exact hlt
    rw [asInt_add hfits, ← List.length_append]
  refine ⟨d2, ?_, hpre2, hlen2.trans hlen1⟩
  have hsrc' : st.pcStr ++ [0] = x ++ (a.pattern ++ (b ++ [0])) := by
    rw [hsrc, List.append_assoc, List.append_assoc]
  rw [copyMatch, hadvance, hstart1, hsrc', hstart, h1, Option.bind_eq_bind, Option.bind_some, Option.bind_some]
  dsimp only
  rw [hrepLen, h2, hend]
  rfl

/-- **The copy of what remains**, with its terminator. -/
theorem copyRest_spec {st : State} {dest done : List UInt8} (hstart : st.start = done.length) (hdone : done <+: dest)
    (hin : done.length + st.pcStr.length + 1 ≤ dest.length) (hlt : done.length + st.pcStr.length < 2 ^ 31) :
    ∃ d, copyRest st st.pcStr.length dest = some d ∧ done ++ st.pcStr ++ [0] <+: d := by
  have hin' : done.length + (st.pcStr ++ [0]).length ≤ dest.length := by
    rw [List.length_append, List.length_singleton]
    omega
  obtain ⟨d1, h1, hpre1, hlen1⟩ := put_spec hdone hin'
  rw [← List.append_assoc] at hpre1
  have hin1 : (done ++ st.pcStr).length + [(0 : UInt8)].length ≤ d1.length := by
    rw [List.length_append, List.length_singleton, hlen1]
    exact hin
  obtain ⟨d2, h2, hpre2, -⟩ := put_spec ((List.prefix_append _ _).trans hpre1) hin1
  refine ⟨d2, ?_, hpre2⟩
  have hend : asInt (st.start + st.pcStr.length) = (done ++ st.pcStr).length := by
    rw [hstart, asInt_add hlt, List.length_append]
  rw [copyRest, hend, hstart, h1, Option.bind_eq_bind, Option.bind_some, h2]

/-! ### The loop -/

/-- A call that ends in this way returns the text, or has no capacity for it. -/
def Outcome.Gives (text : List UInt8) (cap : Nat) : Outcome → Prop
  | .fault => False
  | .null => 2 ^ 31 ≤ cap
  | .str dest => cap < 2 ^ 31 ∧ text ++ [0] <+: dest

/-- What a state of the loop has: the block begins with what is done, and has the capacity `cur`. -/
structure Holds (a : Args) (st : State) (done : List UInt8) (cur : Nat) : Prop where
  start_eq : st.start = done.length
  done_prefix : done <+: st.dest
  newLen_eq : st.newLen = cur
  cur_pos : 1 ≤ cur
  cur_le : cur ≤ st.dest.length
  cur_lt : cur < 2 ^ 31
  s_lt : a.s.length < 2 ^ 31
  pcStr_le : st.pcStr.length ≤ a.s.length

/-- **The last pass** copies what remains. -/
theorem restPass_gives {g : Nat} {a : Args} {st : State} {done : List UInt8} {cur cap : Nat} {o : Outcome}
    (hst : Holds a st done cur) (hlt : done.length + st.pcStr.length + 1 < 2 ^ 31)
    (hcap : Reaches (done.length + st.pcStr.length + 1) cur cap) (h : restPass g a st = some o) :
    o.Gives (done ++ st.pcStr) cap := by
  have hs := hst.s_lt
  have hle := hst.pcStr_le
  have hremain : asInt (a.oldLen - (a.s.length - st.pcStr.length)) = st.pcStr.length := by
    rw [Args.oldLen, asInt_natCast hs, asInt_of_lt (by omega) (by omega)]
    omega
  have hsize : asInt (st.pcStr.length + st.start + 1) = (done.length + st.pcStr.length + 1 : Nat) := by
    rw [hst.start_eq, asInt_of_lt (by omega) (by omega)]
    omega
  rw [restPass, hremain, hsize, hst.newLen_eq] at h
  obtain ⟨r, hr, rfl⟩ := Option.map_eq_some_iff.mp h
  obtain ⟨cap', hreach, hnone, hsome⟩ := ensureSpace_spec hst.cur_pos hst.cur_le hst.cur_lt hlt hst.done_prefix
    (by omega) hr
  obtain rfl := hreach.functional hcap
  by_cases hbig : 2 ^ 31 ≤ cap
  · rw [hnone hbig]
    exact hbig
  · obtain ⟨d, rfl, hlen, hpre⟩ := hsome (by omega)
    have hsizeLe := hreach.size_le
    obtain ⟨d', hcopy, htext⟩ := copyRest_spec hst.start_eq hpre (by omega) (by omega)
    dsimp only
    rw [hcopy]
    exact ⟨by omega, htext⟩

/-- **A pass with an occurrence** puts it behind what is done, or finds no capacity for it. -/
theorem matchPass_gives {g n : Nat} {a : Args} {st : State} {x b done : List UInt8} {cur cap : Nat}
    {r : Outcome ⊕ State} (hst : Holds a st done cur) (hsrc : st.pcStr = x ++ a.pattern ++ b)
    (hle : done.length + x.length + a.rep.length + 1 ≤ n) (hn : n < 2 ^ 31) (hcap : Reaches n cur cap)
    (h : matchPass g a st (asInt x.length) = some r) : (r = .inl .null ∧ 2 ^ 31 ≤ cap) ∨
      ∃ st' cur', r = .inr st' ∧ Holds a st' (done ++ x ++ a.rep) cur' ∧ st'.pcStr = b ∧ Reaches n cur' cap := by
  have hrepLen : a.repLen = a.rep.length := asInt_natCast (by omega)
  have hsize : asInt (st.start + x.length + a.rep.length + 1) =
      (done.length + x.length + a.rep.length + 1 : Nat) := by
    rw [hst.start_eq, asInt_of_lt (by omega) (by omega)]
    omega
  rw [matchPass, hrepLen, asInt_natCast (by omega), hsize, hst.newLen_eq] at h
  obtain ⟨s, hs, rfl⟩ := Option.map_eq_some_iff.mp h
  obtain ⟨cap', hreach, hnone, hsome⟩ := ensureSpace_spec hst.cur_pos hst.cur_le hst.cur_lt (by omega)
    hst.done_prefix (by omega) hs
  have hlater := hreach.later hle hcap
  by_cases hbig : 2 ^ 31 ≤ cap'
  · left
    rw [hnone hbig]
    exact ⟨rfl, hbig.trans hlater.le⟩
  · right
    obtain ⟨d, rfl, hlen, hpre⟩ := hsome (by omega)
    have hsizeLe := hreach.size_le
    have hpcLt := hst.s_lt
    have hpcLe := hst.pcStr_le
    have hpos := hst.cur_pos
    have hcurLe := hreach.le
    obtain ⟨d', hcopy, htext, hlen'⟩ := copyMatch_spec cap' hsrc hst.start_eq hpre (by omega) (by omega) (by omega)
    refine ⟨⟨b, (done ++ x ++ a.rep).length, d', cap'⟩, cap', ?_, ⟨rfl, htext, rfl, by omega, ?_, by omega, hpcLt, ?_⟩, rfl, hlater⟩
    · dsimp only
      rw [hcopy]
      rfl
    · rw [hlen']
      exact hlen
    · rw [hsrc, List.length_append] at hpcLe
      dsimp only
      omega

/-- The search finds the leftmost occurrence. -/
theorem strstr_leftmost {pattern x b : List UInt8} (h : Leftmost pattern x b) :
    strstr (x ++ pattern ++ b) pattern = some x.length := by
  rw [strstr_eq_some_iff]
  refine ⟨?_, ?_, fun j hlt hpre => ?_⟩
  · simp only [List.length_append]
    omega
  · rw [List.append_assoc, List.drop_left]
    exact List.prefix_append _ _
  · obtain ⟨y, hy⟩ := hpre
    have hlen : ((x ++ pattern ++ b).take j).length = j := by
      rw [List.length_take, List.length_append, List.length_append]
      omega
    have hle := h ((x ++ pattern ++ b).take j) y (by rw [List.append_assoc (List.take j _), hy, List.take_append_drop])
    omega

/-- **What the loop returns**: behind what is done, what is left of the source with the occurrences replaced. -/
theorem replaceLoop_gives {g : Nat} {a : Args} {src out : List UInt8} (hout : Replaced a.pattern a.rep src out)
    {fuel : Nat} {st : State} {done : List UInt8} {cur cap : Nat} {o : Outcome} (hst : Holds a st done cur)
    (hsrc : st.pcStr = src) (hlt : done.length + out.length + 1 < 2 ^ 31)
    (hcap : Reaches (done.length + out.length + 1) cur cap) (h : replaceLoop g a fuel st = some o) :
    o.Gives (done ++ out) cap := by
  induction hout generalizing fuel st done cur with
  | rest hno =>
    subst hsrc
    cases fuel with
    | zero => cases h
    | succ fuel =>
      rw [replaceLoop, strstr_eq_none_iff.mpr hno] at h
      exact restPass_gives hst hlt hcap h
  | @occurrence src x b out hx hfirst _ ih =>
    cases fuel with
    | zero => cases h
    | succ fuel =>
      have hfind := (congrArg (strstr · a.pattern) (hsrc.trans hx)).trans (strstr_leftmost hfirst)
      have hn : (done ++ x ++ a.rep).length + out.length + 1 = done.length + (x ++ a.rep ++ out).length + 1 := by
        simp only [List.length_append]
        omega
      rw [replaceLoop, hfind] at h
      dsimp only at h
      rcases hpass : matchPass g a st (asInt x.length) with _ | r
      · rw [hpass] at h
        cases h
      rw [hpass] at h
      rcases matchPass_gives hst (hsrc.trans hx) (by simp only [List.length_append]; omega) hlt hcap hpass with
        ⟨rfl, hbig⟩ | ⟨st', cur', rfl, hst', hrest, hcap'⟩
      · obtain rfl := Option.some_inj.mp h
        exact hbig
      · rw [← hn] at hlt hcap'
        have hgives := ih hst' hrest hlt hcap' h
        rwa [List.append_assoc, List.append_assoc, ← List.append_assoc x] at hgives

/-! ### The length of what is returned -/

theorem realloc_length {dest d : List UInt8} {n : Int} (h : realloc dest (asSize (asInt n)) = some d) :
    d.length < 2 ^ 31 := by
  have hlt := asInt_lt n
  have hle := le_asInt n
  rw [realloc] at h
  split at h
  · next hmax =>
    obtain rfl := Option.some_inj.mp h
    rw [objectMax, asSize] at hmax
    simp only [List.length_append, List.length_take, List.length_replicate, asSize]
    omega
  · cases h

theorem ensureSpace_length {g : Nat} {dest d : List UInt8} {cur size c : Int} (hdest : dest.length < 2 ^ 31)
    (h : ensureSpace g dest cur size = some (some d, c)) : d.length < 2 ^ 31 := by
  rw [ensureSpace] at h
  split at h
  · obtain ⟨n, -, hn⟩ := Option.map_eq_some_iff.mp h
    obtain ⟨hrealloc, -⟩ := Prod.mk.inj hn
    exact realloc_length hrealloc
  · obtain ⟨hsame, -⟩ := Prod.mk.inj (Option.some_inj.mp h)
    obtain rfl := Option.some_inj.mp hsame
    exact hdest

theorem put_length {dest d xs : List UInt8} {p : Int} (h : put dest p xs = some d) : d.length = dest.length := by
  rw [put] at h
  split at h
  · exact length_store h
  · cases h

theorem copyRest_length {st : State} {dest d : List UInt8} {remain : Int} (h : copyRest st remain dest = some d) :
    d.length = dest.length := by
  obtain ⟨d1, h1, h2⟩ := Option.bind_eq_some_iff.mp h
  exact (put_length h2).trans (put_length h1)

theorem copyMatch_length {a : Args} {st st' : State} {dest : List UInt8} {len newLen : Int}
    (h : copyMatch a st len dest newLen = some st') : st'.dest.length = dest.length := by
  obtain ⟨d1, h1, h⟩ := Option.bind_eq_some_iff.mp h
  obtain ⟨_, -, h⟩ := Option.bind_eq_some_iff.mp h
  obtain ⟨d2, h2, h⟩ := Option.bind_eq_some_iff.mp h
  obtain rfl := Option.some_inj.mp h
  exact (of_memcpy h2).2.2.trans (of_memcpy h1).2.2

/-- **A block that is returned** has a length that an `int` counts. -/
theorem replaceLoop_length {g : Nat} {a : Args} {fuel : Nat} {st : State} {d : List UInt8}
    (hst : st.dest.length < 2 ^ 31) (h : replaceLoop g a fuel st = some (.str d)) : d.length < 2 ^ 31 := by
  induction fuel generalizing st with
  | zero => cases h
  | succ fuel ih =>
    rw [replaceLoop] at h
    split at h
    · rw [restPass] at h
      obtain ⟨⟨dest?, c⟩, hspace, hr⟩ := Option.map_eq_some_iff.mp h
      rcases dest? with _ | dest
      · cases hr
      dsimp only at hr
      rcases hcopy : copyRest st (asInt (a.oldLen - (a.s.length - st.pcStr.length))) dest with _ | d'
      · rw [hcopy] at hr
        cases hr
      · rw [hcopy] at hr
        obtain rfl := Outcome.str.inj hr
        rw [copyRest_length hcopy]
        exact ensureSpace_length hst hspace
    · next i _ =>
      rcases hpass : matchPass g a st (asInt i) with _ | r
      · rw [hpass] at h
        cases h
      rw [hpass] at h
      rw [matchPass] at hpass
      obtain ⟨⟨dest?, c⟩, hspace, hr⟩ := Option.map_eq_some_iff.mp hpass
      rcases dest? with _ | dest
      · subst hr
        cases h
      dsimp only at hr
      rcases hcopy : copyMatch a st (asInt i) dest c with _ | st'
      · rw [hcopy] at hr
        subst hr
        cases h
      · rw [hcopy] at hr
        subst hr
        refine ih ?_ h
        rw [copyMatch_length hcopy]
        exact ensureSpace_length hst hspace

/-! ### The requirement -/

theorem holds_init (pPattern pcRep : List UInt8) {s : List UInt8} (hs : s.length + 1 < 2 ^ 31) (hpos : 0 < s.length) :
    Holds ⟨s, pPattern, pcRep⟩ ⟨s, 0, List.replicate (s.length + 1) 0, s.length⟩ [] s.length := by
  refine ⟨rfl, List.nil_prefix, rfl, hpos, ?_, Nat.lt_of_succ_lt hs, Nat.lt_of_succ_lt hs, le_refl _⟩
  rw [List.length_replicate]
  exact Nat.le_succ _

/-- Where the replacement is returned, there was the capacity for it. -/
theorem lt_of_right {pcStr pPattern pcRep : CStr} {out : List UInt8} {cap : Nat} (hs : Short pcStr)
    (hne : pcStr.chars ≠ []) (h : Right pcStr pPattern pcRep)
    (hout : Replaced pPattern.chars pcRep.chars pcStr.chars out)
    (hcap : Reaches (out.length + 1) pcStr.chars.length cap) : cap < 2 ^ 31 := by
  obtain ⟨g, fuel, dest, out', hcall, hout', hpre⟩ := h
  obtain rfl := hout.functional hout'
  rw [wowStrReplace_eq g fuel pPattern pcRep hs] at hcall
  rw [Short] at hs
  have hdest : dest.length < 2 ^ 31 := by
    refine replaceLoop_length ?_ hcall
    rw [List.length_replicate]
    exact hs
  have hle := hpre.length_le
  rw [List.length_append, List.length_singleton] at hle
  have hsize : ([] : List UInt8).length + out'.length + 1 = out'.length + 1 := by rw [List.length_nil, Nat.zero_add]
  exact (replaceLoop_gives hout (holds_init _ _ hs (List.length_pos_iff.mpr hne)) rfl (by omega) (hsize ▸ hcap) hcall).1

/-- From every capacity but 0 the growth gets as far as it has to. -/
theorem exists_reaches {n : Nat} (hn : 1 ≤ n) (size : Nat) : ∃ cap, Reaches size n cap := by
  by_cases hlt : n < size
  · obtain ⟨cap, -, hr⟩ := getLen_reaches hn hlt (le_refl size)
    exact ⟨cap, hr⟩
  · exact ⟨n, .here (not_lt.mp hlt)⟩

/-- A string of letters `a`. -/
def letters (n : Nat) : CStr := ⟨List.replicate n 97, fun h => absurd (List.eq_of_mem_replicate h) (by decide)⟩

end Wow.Utils.StrReplace
