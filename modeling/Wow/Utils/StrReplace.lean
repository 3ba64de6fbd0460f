import Wow.Base.CString
import Wow.Lib.Block
import Wow.Lib.CNum

/-!
# Wow.Utils.StrReplace — `wow_str_replace`

The lengths are of type `int`: `strlen` is converted to it (`asInt`), and it is converted back where a `size_t` is
expected (`asSize`).  The allocator gives every block that an object can have.  A copy that leaves a block is a `fault`.

Both loops take fuel, `g` that of `getLen`: `none` is a call that has not returned.  The arguments are no null pointers.

* `getLen_reaches`: the growth ends from every capacity but 0, at the first number that is large enough (`Reaches`).
* `replaceLoop_ends`: the replacement loop ends where the pattern or the replacement moves it on.
* `ends_iff`: an empty source, and an empty pattern with an empty replacement, are the cases without an end.
-/

namespace Wow.Utils.StrReplace

open Block

/-! ### The functions -/

/-- The loop of `getLen`: the product with 1.5 is exact, and its fraction is dropped. -/
def getLenLoop : Nat → Nat → Nat → Option Nat
  | 0, _, _ => none
  | fuel + 1, old, size => if old < size then getLenLoop fuel (old * 3 / 2) size else some old

/-- `getLen`. -/
def getLen (fuel old size : Nat) : Option Nat := getLenLoop fuel (if old = 1 then 2 else old) size

/-- No object has more octets. -/
def objectMax : Nat := 2 ^ 63 - 1

/-- `MALLOC`. -/
def malloc (n : Nat) : Option (List UInt8) := if n ≤ objectMax then some (List.replicate n 0) else none

/-- `REALLOC`. -/
def realloc (b : List UInt8) (n : Nat) : Option (List UInt8) :=
  if n ≤ objectMax then some (b.take n ++ List.replicate (n - b.length) 0) else none

/-- `ensureSpace`: the block, which is `NULL` without memory, and the capacity. -/
def ensureSpace (g : Nat) (dest : List UInt8) (curSize size : Int) : Option (Option (List UInt8) × Int) :=
  if curSize < size then
    (getLen g (asSize curSize) (asSize size)).map fun n : Nat => (realloc dest (asSize (asInt n)), asInt n)
  else some (some dest, curSize)

/-- `memcpy` to a place of the block that is given as an `int`. -/
def memcpy (dest : List UInt8) (d : Int) (src : List UInt8) (n : Int) : Option (List UInt8) :=
  if 0 ≤ d then copy dest d.toNat src 0 (asSize n) else none

/-- A store to such a place. -/
def put (dest : List UInt8) (d : Int) (xs : List UInt8) : Option (List UInt8) :=
  if 0 ≤ d then store dest d.toNat xs else none

/-- `pcStr += n`. -/
def advance (pcStr : List UInt8) (n : Int) : Option (List UInt8) :=
  if 0 ≤ n ∧ n ≤ pcStr.length then some (pcStr.drop n.toNat) else none

/-- The arguments; the strings are without their terminators. -/
structure Args where
  s : List UInt8
  pattern : List UInt8
  rep : List UInt8

/-- The variables of the loop; `pcStr` is what is left of the source. -/
structure State where
  pcStr : List UInt8
  start : Int
  dest : List UInt8
  newLen : Int

/-- How a call ends. -/
inductive Outcome where
  | fault
  | null
  | str (dest : List UInt8)

namespace Args

def oldLen (a : Args) : Int := asInt a.s.length
def repLen (a : Args) : Int := asInt a.rep.length
def patternLen (a : Args) : Int := asInt a.pattern.length

end Args

/-- The copies of an occurrence behind `len` characters. -/
def copyMatch (a : Args) (st : State) (len : Int) (dest : List UInt8) (newLen : Int) : Option State := do
  let dest ← memcpy dest st.start (st.pcStr ++ [0]) len
  let pcStr ← advance st.pcStr (asInt (len + a.patternLen))
  let start := asInt (st.start + len)
  let dest ← memcpy dest start (a.rep ++ [0]) a.repLen
  some ⟨pcStr, asInt (start + a.repLen), dest, newLen⟩

/-- The copy of what remains. -/
def copyRest (st : State) (remain : Int) (dest : List UInt8) : Option (List UInt8) := do
  let dest ← put dest st.start (st.pcStr ++ [0])
  put dest (asInt (st.start + remain)) [0]

/-- The pass without an occurrence, which leaves the loop. -/
def restPass (g : Nat) (a : Args) (st : State) : Option Outcome :=
  let remain := asInt (a.oldLen - (a.s.length - st.pcStr.length))
  (ensureSpace g st.dest st.newLen (asInt (remain + st.start + 1))).map fun r =>
    match r.1 with
    | none => .null
    | some dest => ((copyRest st remain dest).map Outcome.str).getD .fault

/-- The pass that finds an occurrence behind `len` characters. -/
def matchPass (g : Nat) (a : Args) (st : State) (len : Int) : Option (Outcome ⊕ State) :=
  (ensureSpace g st.dest st.newLen (asInt (st.start + len + a.repLen + 1))).map fun r =>
    match r.1 with
    | none => .inl .null
    | some dest => ((copyMatch a st len dest r.2).map Sum.inr).getD (.inl .fault)

/-- `while (1)`. -/
def replaceLoop (g : Nat) (a : Args) : Nat → State → Option Outcome
  | 0, _ => none
  | fuel + 1, st =>
    match strstr st.pcStr a.pattern with
    | none => restPass g a st
    | some i =>
      match matchPass g a st (asInt i) with
      | none => none
      | some (.inl o) => some o
      | some (.inr st) => replaceLoop g a fuel st

/-- `wow_str_replace`. -/
def wowStrReplace (g fuel : Nat) (pcStr pPattern pcRep : CStr) : Option Outcome :=
  let a : Args := ⟨pcStr.chars, pPattern.chars, pcRep.chars⟩
  (malloc (asSize (asInt (a.oldLen + 1)))).elim (some .null) fun dest =>
    replaceLoop g a fuel ⟨a.s, 0, dest, a.oldLen⟩

/-- **The requirement** on the loops: the call comes to an end. -/
def Ends (pcStr pPattern pcRep : CStr) : Prop := ∃ g fuel, (wowStrReplace g fuel pcStr pPattern pcRep).isSome

/-- The length of the string, and that of its octets, is a number of type `int`. -/
def Short (q : CStr) : Prop := q.chars.length + 1 < 2 ^ 31

/-! ### The growth -/

/-- The next capacity. -/
def next (n : Nat) : Nat := if n = 1 then 2 else n * 3 / 2

/-- `cap` is the first capacity from `old` on that is at least `size`. -/
inductive Reaches (size : Nat) : Nat → Nat → Prop where
  | here {n : Nat} (h : size ≤ n) : Reaches size n n
  | step {n cap : Nat} (h : n < size) (hr : Reaches size (next n) cap) : Reaches size n cap

namespace Reaches

variable {a b n m k : Nat}

theorem size_le (h : Reaches a n m) : a ≤ m := by
  induction h with
  | here h => exact h
  | step _ _ ih => exact ih

theorem le_next (n : Nat) : n ≤ next n := by
  rw [next]
  split <;> omega

theorem le (h : Reaches a n m) : n ≤ m := by
  induction h with
  | here _ => exact le_refl _
  | step _ _ ih => exact (le_next _).trans ih

/-- A growth does not go far beyond what is needed. -/
theorem le_two_mul (h : Reaches a n m) (hn : n < a) : m ≤ 2 * a := by
  induction h with
  | here h => omega
  | @step n m hlt hr ih =>
    by_cases hnext : next n < a
    · exact ih hnext
    · cases hr with
      | here _ =>
        rw [next]
        split <;> omega
      | step h _ => exact absurd h hnext

end Reaches

theorem getLenLoop_reaches (size : Nat) : ∀ (fuel old : Nat), 2 ≤ old → size ≤ fuel + old →
    ∃ cap, getLenLoop (fuel + 1) old size = some cap ∧ Reaches size old cap := by
  intro fuel
  induction fuel with
  | zero =>
    intro old _ hsize
    exact ⟨old, by rw [getLenLoop, if_neg (by omega)], .here (by omega)⟩
  | succ fuel ih =>
    intro old hold hsize
    by_cases hlt : old < size
    · have hnext : next old = old * 3 / 2 := if_neg (by omega)
      obtain ⟨cap, hcap, hr⟩ := ih (old * 3 / 2) (by omega) (by omega)
      exact ⟨cap, by rw [getLenLoop, if_pos hlt, hcap], .step hlt (hnext ▸ hr)⟩
    · exact ⟨old, by rw [getLenLoop, if_neg hlt], .here (not_lt.mp hlt)⟩

/-- **The growth ends** from every capacity but 0. -/
theorem getLen_reaches {g old size : Nat} (hold : 1 ≤ old) (hlt : old < size) (hg : size ≤ g) :
    ∃ cap, getLen g old size = some cap ∧ Reaches size old cap := by
  obtain ⟨fuel, rfl⟩ := Nat.exists_eq_add_of_lt (show 0 < g by omega)
  rw [getLen, Nat.zero_add]
  by_cases h1 : old = 1
  · subst h1
    obtain ⟨cap, hcap, hr⟩ := getLenLoop_reaches size fuel 2 (by omega) (by omega)
    exact ⟨cap, hcap, .step hlt hr⟩
  · rw [if_neg h1]
    exact getLenLoop_reaches size fuel old (by omega) (by omega)

/-- From 0 it does not. -/
theorem getLen_zero (g : Nat) {size : Nat} (h : 0 < size) : getLen g 0 size = none := by
  have hloop : ∀ fuel, getLenLoop fuel 0 size = none := by
    intro fuel
    induction fuel with
    | zero => rfl
    | succ fuel ih => rw [getLenLoop, if_pos h, Nat.zero_mul, Nat.zero_div, ih]
  exact hloop g

/-! ### What a pass leaves -/

/-- A block of that many octets, or none where the number does not fit an `int`. -/
theorem realloc_asInt (dest : List UInt8) {cap : Nat} (hcap : cap < 2 ^ 32) :
    realloc dest (asSize (asInt cap)) =
      if cap < 2 ^ 31 then some (dest.take cap ++ List.replicate (cap - dest.length) 0) else none := by
  by_cases h : cap < 2 ^ 31
  · rw [asInt_of_lt (by omega) (by omega), asSize_natCast (by omega), realloc, if_pos (by rw [objectMax]; omega),
      if_pos h]
  · have hneg : asInt cap = cap - 2 ^ 32 := by
      rw [asInt, Int.bmod_def]
      omega
    have hhuge : ¬ asSize (asInt cap) ≤ objectMax := by
      rw [hneg, asSize, objectMax]
      omega
    rw [realloc, if_neg hhuge, if_neg h]

/-- **The space**: where it does not suffice, the capacity grows, and with it the block. -/
theorem ensureSpace_grow {g cur size : Nat} (dest : List UInt8) (hg : 2 ^ 31 ≤ g) (hcur : 1 ≤ cur) (hlt : cur < size)
    (hsize : size < 2 ^ 31) : ∃ cap, Reaches size cur cap ∧ ensureSpace g dest cur size =
      some (if cap < 2 ^ 31 then some (dest.take cap ++ List.replicate (cap - dest.length) 0) else none, asInt cap) := by
  obtain ⟨cap, hcap, hr⟩ := getLen_reaches hcur hlt (show size ≤ g by omega)
  have hle := hr.le_two_mul hlt
  refine ⟨cap, hr, ?_⟩
  rw [ensureSpace, if_pos (by omega), asSize_natCast (by omega), asSize_natCast (by omega), hcap, Option.map_some,
    realloc_asInt dest (by omega)]

theorem ensureSpace_enough {cur size : Int} (g : Nat) (dest : List UInt8) (h : size ≤ cur) :
    ensureSpace g dest cur size = some (some dest, cur) := if_neg (not_lt.mpr h)

/-- In any case it is found or refused. -/
theorem ensureSpace_isSome {g : Nat} {dest : List UInt8} {cur size : Int} (hg : 2 ^ 31 ≤ g) (hcur : 1 ≤ cur)
    (hsize : size < 2 ^ 31) (hdest : dest.length < 2 ^ 31) : ∃ r, ensureSpace g dest cur size = some r ∧
      ∀ d, r.1 = some d → 1 ≤ r.2 ∧ d.length < 2 ^ 31 := by
  by_cases hlt : cur < size
  · obtain ⟨m, rfl⟩ := Int.eq_ofNat_of_zero_le (show 0 ≤ cur by omega)
    obtain ⟨n, rfl⟩ := Int.eq_ofNat_of_zero_le (show 0 ≤ size by omega)
    obtain ⟨cap, hr, heq⟩ := ensureSpace_grow dest hg (show 1 ≤ m by omega) (show m < n by omega) (by omega)
    refine ⟨_, heq, fun d hd => ?_⟩
    have hle := hr.le
    split at hd
    · next hcap =>
      obtain rfl := Option.some_inj.mp hd
      refine ⟨by rw [asInt_of_lt (by omega) (by omega)]; omega, ?_⟩
      simp only [List.length_append, List.length_take, List.length_replicate]
      omega
    · cases hd
  · refine ⟨_, ensureSpace_enough g dest (not_lt.mp hlt), fun d hd => ?_⟩
    obtain rfl := Option.some_inj.mp hd
    exact ⟨hcur, hdest⟩

/-- What a copy leaves. -/
theorem of_memcpy {dest dest' src : List UInt8} {d n : Int} (h : memcpy dest d src n = some dest') :
    0 ≤ d ∧ d.toNat + asSize n ≤ dest.length ∧ dest'.length = dest.length := by
  rw [memcpy] at h
  split at h
  · next hd =>
    obtain ⟨xs, hxs, hstore⟩ := Option.bind_eq_some_iff.mp h
    have hlen : xs.length = asSize n := by
      rw [load] at hxs
      split at hxs
      · obtain rfl := Option.some_inj.mp hxs
        simp only [List.length_take, List.length_drop]
        omega
      · cases hxs
    refine ⟨hd, ?_, length_store hstore⟩
    rw [store] at hstore
    split at hstore
    · next hle => rwa [hlen] at hle
    · cases hstore
  · cases h

/-- A place of a block that an `int` counts. -/
theorem asInt_add_of_le {x : Int} {n m : Nat} (hx : 0 ≤ x) (hle : x.toNat + n ≤ m) (hm : m < 2 ^ 31) :
    asInt (x + n) = x + n := asInt_of_lt (by omega) (by omega)

/-- **What the copies of an occurrence leave**: everything has moved on. -/
theorem of_copyMatch {a : Args} {st st' : State} {dest : List UInt8} {len : Nat} {newLen : Int}
    (h : copyMatch a st len dest newLen = some st') (hlen : len + a.pattern.length < 2 ^ 31)
    (hrep : a.rep.length < 2 ^ 31)
    (hdest : dest.length < 2 ^ 31) :
    0 ≤ st.start ∧ st'.start = st.start + len + a.rep.length ∧ st'.start ≤ dest.length ∧
      st'.dest.length = dest.length ∧ st'.newLen = newLen ∧
      st'.pcStr = st.pcStr.drop (len + a.pattern.length) ∧ len + a.pattern.length ≤ st.pcStr.length := by
  obtain ⟨dest1, h1, h⟩ := Option.bind_eq_some_iff.mp h
  obtain ⟨rest, hadv, h⟩ := Option.bind_eq_some_iff.mp h
  obtain ⟨dest2, h2, h⟩ := Option.bind_eq_some_iff.mp h
  obtain rfl := Option.some_inj.mp h
  obtain ⟨hstart, hle1, hlen1⟩ := of_memcpy h1
  obtain ⟨hstart', hle2, hlen2⟩ := of_memcpy h2
  have hlen64 : len < 2 ^ 64 := by omega
  have hrep64 : a.rep.length < 2 ^ 64 := by omega
  rw [asSize_natCast hlen64] at hle1
  rw [asInt_add_of_le hstart hle1 hdest] at hstart' hle2 ⊢
  rw [Args.repLen, asInt_natCast hrep, asSize_natCast hrep64, hlen1] at hle2
  rw [Args.repLen, asInt_natCast hrep, asInt_add_of_le hstart' hle2 hdest]
  have hpattern : asInt (len + a.patternLen) = (len + a.pattern.length : Nat) := by
    rw [Args.patternLen, asInt_natCast (show a.pattern.length < 2 ^ 31 by omega), ← Int.natCast_add,
      asInt_of_lt (Int.natCast_nonneg _) (by omega)]
  rw [hpattern, advance] at hadv
  split at hadv
  · next hin =>
    obtain rfl := Option.some_inj.mp hadv
    rw [Int.toNat_natCast]
    refine ⟨hstart, rfl, ?_, hlen2.trans hlen1, rfl, rfl, by omega⟩
    change st.start + len + a.rep.length ≤ dest.length
    omega
  · cases hadv

/-! ### The end of the loop -/

/-- What every state of the loop has. -/
structure Sound (st : State) : Prop where
  start_nonneg : 0 ≤ st.start
  start_le : st.start ≤ st.dest.length
  dest_lt : st.dest.length < 2 ^ 31
  newLen_pos : 1 ≤ st.newLen
  pcStr_lt : st.pcStr.length < 2 ^ 31

theorem restPass_isSome {g : Nat} (a : Args) {st : State} (hg : 2 ^ 31 ≤ g) (hst : Sound st) :
    (restPass g a st).isSome := by
  obtain ⟨r, hr, -⟩ := ensureSpace_isSome hg hst.newLen_pos
    (asInt_lt (asInt (a.oldLen - (a.s.length - st.pcStr.length)) + st.start + 1)) hst.dest_lt
  rw [restPass, hr]
  rfl

/-- **A pass with an occurrence** leaves the loop, or moves everything on. -/
theorem matchPass_moves {g : Nat} {a : Args} {st : State} {i : Nat} (hg : 2 ^ 31 ≤ g) (hrep : a.rep.length < 2 ^ 31)
    (hst : Sound st) (hfind : strstr st.pcStr a.pattern = some i) :
    (∃ o, matchPass g a st (asInt i) = some (.inl o)) ∨ ∃ st', matchPass g a st (asInt i) = some (.inr st') ∧
    Sound st' ∧
      st'.pcStr = st.pcStr.drop (i + a.pattern.length) ∧ i + a.pattern.length ≤ st.pcStr.length ∧
      st'.start = st.start + i + a.rep.length := by
  obtain ⟨hi, hpre, -⟩ := strstr_eq_some_iff.mp hfind
  have hlen : i + a.pattern.length ≤ st.pcStr.length := by
    have := hpre.length_le
    rw [List.length_drop] at this
    omega
  have hshort := hst.pcStr_lt
  obtain ⟨⟨dest?, newLen⟩, hr, hspace⟩ := ensureSpace_isSome hg hst.newLen_pos
    (asInt_lt (st.start + i + a.repLen + 1)) hst.dest_lt
  rw [matchPass, asInt_of_lt (Int.natCast_nonneg i) (by omega), hr]
  rcases dest? with _ | dest
  · exact .inl ⟨.null, rfl⟩
  obtain ⟨hpos, hdest⟩ := hspace dest rfl
  rcases hcopy : copyMatch a st i dest newLen with _ | st'
  · exact .inl ⟨.fault, by rw [Option.map_some]; dsimp only; rw [hcopy]; rfl⟩
  · obtain ⟨hstart, hstart', hle, hlen', hnew, hrest, -⟩ := of_copyMatch hcopy (by omega) hrep hdest
    refine .inr ⟨st', by rw [Option.map_some]; dsimp only; rw [hcopy]; rfl, ⟨?_, ?_, ?_, ?_, ?_⟩, hrest, hlen, hstart'⟩
    · omega
    · omega
    · omega
    · omega
    · rw [hrest, List.length_drop]
      omega

/-- **The replacement loop ends**: each pass takes some of the source or fills some of the block, and the block cannot
grow for ever. -/
theorem replaceLoop_ends {g : Nat} {a : Args} (hg : 2 ^ 31 ≤ g) (hpos : 0 < a.pattern.length + a.rep.length)
    (fuel : Nat) (st : State) (hst : Sound st) (hrep : a.pattern <:+: st.pcStr → a.rep.length < 2 ^ 31)
    (hfuel : st.pcStr.length + 2 ^ 31 ≤ fuel + st.start.toNat) : (replaceLoop g a fuel st).isSome := by
  induction fuel generalizing st with
  | zero =>
    have := hst.start_le
    have := hst.dest_lt
    omega
  | succ fuel ih =>
    rw [replaceLoop]
    rcases hfind : strstr st.pcStr a.pattern with _ | i
    · exact restPass_isSome a hg hst
    · have hinfix : a.pattern <:+: st.pcStr := by
        by_contra hno
        rw [strstr_eq_none_iff.mpr hno] at hfind
        cases hfind
      dsimp only
      rcases matchPass_moves hg (hrep hinfix) hst hfind with ⟨o, ho⟩ | ⟨st', hst', hsound, hrest, hle, hstart⟩
      · rw [ho]
        rfl
      · rw [hst']
        refine ih st' hsound (fun _ => hrep hinfix) ?_
        have := hst.start_nonneg
        rw [hrest, List.length_drop, hstart]
        omega

/-! ### The calls without an end -/

theorem ensureSpace_zero (g : Nat) (dest : List UInt8) {size : Int} (h : 0 < size) (hsize : size < 2 ^ 31) :
    ensureSpace g dest 0 size = none := by
  have hpos : 0 < asSize size := by
    rw [asSize_of_lt (by omega) (by omega)]
    omega
  rw [ensureSpace, if_pos h, asSize_of_lt (le_refl 0) (by decide), Int.toNat_zero, getLen_zero g hpos, Option.map_none]

/-- **An empty source**: the first growth begins at 0. -/
theorem replaceLoop_starved (g : Nat) {a : Args} (hs : a.s = []) (hrep : a.rep.length + 1 < 2 ^ 31) {st : State}
    (hrest : st.pcStr = []) (hstart : st.start = 0) (hnew : st.newLen = 0) (fuel : Nat) :
    replaceLoop g a fuel st = none := by
  cases fuel with
  | zero => rfl
  | succ fuel =>
    rw [replaceLoop]
    rcases hfind : strstr st.pcStr a.pattern with _ | i
    · have hsize : asInt (asInt (a.oldLen - (a.s.length - st.pcStr.length)) + st.start + 1) = 1 := by
        rw [Args.oldLen, hs, hrest, hstart]
        rfl
      dsimp only
      rw [restPass, hsize, hnew, ensureSpace_zero g st.dest Int.one_pos (by omega), Option.map_none]
    · have hi : i = 0 := by
        have := (strstr_eq_some_iff.mp hfind).1
        rw [hrest] at this
        exact Nat.le_zero.mp this
      have hsize : asInt (st.start + asInt i + a.repLen + 1) = a.rep.length + 1 := by
        rw [Args.repLen, asInt_natCast (n := i) (by omega), asInt_natCast (by omega), hstart,
          asInt_of_lt (by omega) (by omega)]
        omega
      dsimp only
      rw [matchPass, hsize, hnew, ensureSpace_zero g st.dest (by omega) (by omega), Option.map_none]

/-- **An empty pattern with an empty replacement**: nothing moves. -/
theorem replaceLoop_stays (g : Nat) {a : Args} (hpattern : a.pattern = []) (hrep : a.rep = []) {st : State}
    (hstart : st.start = 0) (hnew : 1 ≤ st.newLen) (fuel : Nat) : replaceLoop g a fuel st = none := by
  obtain ⟨pcStr, start, dest, newLen⟩ := st
  induction fuel with
  | zero => rfl
  | succ fuel ih =>
    obtain ⟨i, hi, hfind⟩ : ∃ i : Nat, asInt i = 0 ∧ strstr pcStr a.pattern = some i := by
      refine ⟨0, asInt_of_lt (le_refl 0) (by omega), ?_⟩
      rw [hpattern, strstr_eq_some_iff]
      exact ⟨Nat.zero_le _, List.nil_prefix, fun j hj => absurd hj (Nat.not_lt_zero j)⟩
    have hsame : matchPass g a ⟨pcStr, start, dest, newLen⟩ (asInt i) = some (.inr ⟨pcStr, start, dest, newLen⟩) := by
      obtain rfl : start = 0 := hstart
      have hrepLen : a.repLen = 0 := by
        rw [Args.repLen, hrep, List.length_nil]
        exact asInt_of_lt (le_refl 0) (by omega)
      have hpatternLen : a.patternLen = 0 := by
        rw [Args.patternLen, hpattern, List.length_nil]
        exact asInt_of_lt (le_refl 0) (by omega)
      have hzero : asInt (0 + 0) = 0 := asInt_of_lt (le_refl 0) (by omega)
      have hone : asInt (0 + 0 + 0 + 1) ≤ newLen := by
        rw [asInt_of_lt (by omega) (by omega)]
        exact hnew
      have hnone : ∀ src : List UInt8, memcpy dest 0 src 0 = some dest := by
        intro src
        rw [memcpy, if_pos (le_refl 0), asSize_of_lt (le_refl 0) (by omega), copy]
        exact store_append [] [] dest rfl
      have hcopy : copyMatch a ⟨pcStr, 0, dest, newLen⟩ 0 dest newLen = some ⟨pcStr, 0, dest, newLen⟩ := by
        rw [copyMatch, hnone, Option.bind_eq_bind, Option.bind_some, hpatternLen, hrepLen, hzero, advance,
          if_pos ⟨le_refl 0, Int.natCast_nonneg _⟩, Option.bind_some]
        dsimp only
        rw [hnone, Option.bind_some, hzero]
        rfl
      rw [hi, matchPass, hrepLen, ensureSpace_enough g dest hone, Option.map_some]
      dsimp only
      rw [hcopy]
      rfl
    rw [replaceLoop]
    dsimp only
    rw [hfind]
    dsimp only
    rw [hsame]
    exact ih

/-! ### The requirement -/

theorem asSize_oldLen {s : List UInt8} (hs : s.length + 1 < 2 ^ 31) :
    asSize (asInt (asInt s.length + 1)) = s.length + 1 := by
  have hlt : s.length < 2 ^ 31 := by omega
  rw [asInt_natCast hlt, asInt_of_lt (by omega) (by omega), asSize_of_lt (by omega) (by omega)]
  omega

/-- A block that an object can have. -/
theorem malloc_of_lt {n : Nat} (h : n < 2 ^ 31) : malloc n = some (List.replicate n 0) := by
  have hmax : n ≤ objectMax := by
    rw [objectMax]
    omega
  rw [malloc, if_pos hmax]

/-- The loop that a call with a short source runs. -/
theorem wowStrReplace_eq (g fuel : Nat) {pcStr : CStr} (pPattern pcRep : CStr) (hs : Short pcStr) :
    wowStrReplace g fuel pcStr pPattern pcRep =
      replaceLoop g ⟨pcStr.chars, pPattern.chars, pcRep.chars⟩ fuel
        ⟨pcStr.chars, 0, List.replicate (pcStr.chars.length + 1) 0, pcStr.chars.length⟩ := by
  have hlt : pcStr.chars.length < 2 ^ 31 := Nat.lt_of_succ_lt hs
  rw [wowStrReplace]
  dsimp only
  rw [Args.oldLen, asSize_oldLen hs, malloc_of_lt hs, Option.elim_some, asInt_natCast hlt]

theorem sound_init {s : List UInt8} (hs : s.length + 1 < 2 ^ 31) (hpos : 0 < s.length) :
    Sound ⟨s, 0, List.replicate (s.length + 1) 0, s.length⟩ := by
  refine ⟨le_refl 0, Int.natCast_nonneg _, ?_, ?_, Nat.lt_of_succ_lt hs⟩
  · rw [List.length_replicate]
    exact hs
  · exact Int.ofNat_lt.mpr hpos

/-- **A call of `wow_str_replace` ends** exactly where the source is not empty, nor are both the pattern and the
replacement. -/
theorem ends_iff {pcStr pPattern pcRep : CStr} (hs : Short pcStr) (hr : Short pcRep) :
    Ends pcStr pPattern pcRep ↔ pcStr.chars ≠ [] ∧ (pPattern.chars ≠ [] ∨ pcRep.chars ≠ []) := by
  have hcall := fun g fuel => wowStrReplace_eq g fuel pPattern pcRep hs
  rw [Short] at hs hr
  constructor
  · rintro ⟨g, fuel, h⟩
    rw [hcall] at h
    have hne : pcStr.chars ≠ [] := by
      intro hnil
      rw [replaceLoop_starved g hnil hr hnil rfl (by rw [hnil]; rfl)] at h
      cases h
    refine ⟨hne, ?_⟩
    by_contra! hboth
    have hpos : 0 < pcStr.chars.length := List.length_pos_iff.mpr hne
    rw [replaceLoop_stays g hboth.1 hboth.2 rfl (by dsimp only; omega)] at h
    cases h
  · rintro ⟨hne, hmoves⟩
    have hpos : 0 < pcStr.chars.length := List.length_pos_iff.mpr hne
    have hmoves' : 0 < pPattern.chars.length + pcRep.chars.length := by
      rcases hmoves with h | h
      · have := List.length_pos_iff.mpr h
        omega
      · have := List.length_pos_iff.mpr h
        omega
    refine ⟨2 ^ 31, pcStr.chars.length + 2 ^ 31, ?_⟩
    rw [hcall]
    exact replaceLoop_ends (le_refl _) hmoves' _ _ (sound_init hs hpos) (fun _ => Nat.lt_of_succ_lt hr)
      (Nat.le_add_right _ _)

theorem noNul_empty : (0 : UInt8) ∉ ([] : List UInt8) := List.not_mem_nil

theorem noNul_letter : (0 : UInt8) ∉ ([97] : List UInt8) := by decide

/-- The empty string. -/
def empty : CStr := ⟨[], noNul_empty⟩

/-- The string `a`. -/
def letter : CStr := ⟨[97], noNul_letter⟩

theorem ends_iff_letter : Ends letter letter empty ↔ letter.chars ≠ [] ∧ (letter.chars ≠ [] ∨ empty.chars ≠ []) := by
  refine ends_iff ?_ ?_
  · rw [Short]
    decide
  · rw [Short]
    decide

/-- Nothing of an empty source is replaced, nor does the call return. -/
theorem not_ends_empty : ¬ Ends empty letter letter := by
  have hshort : Short empty := by
    rw [Short]
    decide
  rintro ⟨g, fuel, h⟩
  rw [wowStrReplace_eq g fuel letter letter hshort, replaceLoop_starved g rfl (by decide) rfl rfl rfl] at h
  cases h

end Wow.Utils.StrReplace
