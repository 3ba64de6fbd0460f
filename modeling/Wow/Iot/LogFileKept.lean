import Wow.Iot.LogFileRing

/-!
# Wow.Iot.LogFileKept — files that are written one after the other

* `Windowed`: the files are the cells of a cycle, and hold the groups of a `Window`.
* `Windowed.write`: a record goes to the file that was written last; after a restart when that is the file taken up.
* `log_right`: what both modes keep, over every run.
-/

namespace Wow.Iot.LogFile

open FileOctets Decimal

/-- The octets of records. -/
def bytes (g : List Record) : List UInt8 := (g.map Subtype.val).flatten

theorem bytes_concat (g : List Record) (x : Record) : bytes (g ++ [x]) = bytes g ++ x.1 := by
  rw [bytes, List.map_append, List.flatten_append, List.map_singleton, List.flatten_singleton, bytes]

theorem length_bytes (g : List Record) : (bytes g).length = Window.total recordSize g := by
  rw [bytes, List.length_flatten, List.map_map]
  rfl

/-- What a run keeps: a group for each file. -/
def windowOf (cfg : Config) (hist : List Record) : Window Record := Window.of recordSize (cfg.num - 1) cfg.size hist

/-- The octets of the groups, the oldest first. -/
def contents (w : Window Record) : List (List UInt8) := w.closed.map bytes ++ [bytes w.open_]

/-- The process has a file open, behind the group that grows. -/
structure Behind (cfg : Config) (s : State) (w : Window Record) (c : Nat) : Prop where
  lt : c < cfg.num
  cells : cyclic cfg.num c s.octets = contents w
  hfile : s.hfile = some c
  sel : s.sel = c
  pos : s.pos = Window.total recordSize w.open_

/-- **What holds in every state** in the mode of several files. -/
structure Windowed (cfg : Config) (r : Run) : Prop where
  lt : r.last < cfg.num
  cells : cyclic cfg.num r.last r.st.octets = contents (windowOf cfg r.hist)
  handle : r.st.hfile = none ∨ Behind cfg r.st (windowOf cfg r.hist) r.last

/-- **The file taken up** after a restart: the one that was written last, or that in front of it when that is full and the
last one still empty; the first time one that need not be read. -/
def Selects (cfg : Config) (r : Run) (fileSize : Nat) : Prop :=
  (r.st.newest cfg.num).2.2.elim
    ((∀ i < cfg.num, (r.st.files i).isNone = true) ∧ (fileSize = 0 ∨ cfg.size < fileSize))
    fun size =>
      if cfg.size < size then ((r.st.newest cfg.num).2.1 + 1) % cfg.num = r.last ∧ r.st.octets r.last = []
      else (r.st.newest cfg.num).2.1 = r.last

variable {cfg : Config} {s : State} {w : Window Record} {c c' : Nat} {e : Entry}

/-- The loop finds a file with its size, or none. -/
theorem newest_spec (s : State) (num : Nat) :
    (s.newest num).2.2.elim ((s.newest num).2.1 = 0) fun size =>
      (s.newest num).2.1 < num ∧ (s.octets (s.newest num).2.1).length = size := by
  have hfold : ∀ (is : List Nat) (r : Nat × Nat × Option Nat), (∀ i ∈ is, i < num) →
      r.2.2.elim (r.2.1 = 0) (fun size => r.2.1 < num ∧ (s.octets r.2.1).length = size) →
      let r' := is.foldl (fun r i => (s.files i).elim r fun f =>
        if r.1 < f.mtime then (f.mtime, i, some f.octets.length) else r) r
      r'.2.2.elim (r'.2.1 = 0) fun size => r'.2.1 < num ∧ (s.octets r'.2.1).length = size := by
    intro is
    induction is with
    | nil => exact fun r _ h => h
    | cons i is ih =>
      intro r his h
      rw [List.foldl_cons]
      refine ih _ (fun j hj => his j (List.mem_cons_of_mem _ hj)) ?_
      cases hfile : s.files i with
      | none => exact h
      | some f =>
        rw [Option.elim_some]
        by_cases hlt : r.1 < f.mtime
        · rw [if_pos hlt]
          refine ⟨his i (List.mem_cons_self ..), ?_⟩
          rw [State.octets, hfile, Option.elim_some]
        · rw [if_neg hlt]
          exact h
  exact hfold (List.range num) (0, 0, none) (fun i hi => List.mem_range.mp hi) rfl

/-- The file that is written last holds the group that grows. -/
theorem octets_last (hc : c < cfg.num) (h : cyclic cfg.num c s.octets = contents w) : s.octets c = bytes w.open_ := by
  have hset := cyclic_set hc s.octets (s.octets c)
  rw [Function.update_eq_self, h] at hset
  exact (List.cons.inj (List.append_inj' hset rfl).2).1.symm

theorem windowOf_spec (hnum : 1 < cfg.num) (hist : List Record) :
    Window.Spec recordSize (cfg.num - 1) cfg.size hist (windowOf cfg hist) :=
  Window.of_spec (Nat.sub_pos_of_lt hnum) hist

/-- The group that grows is within the size. -/
theorem open_le (hnum : 1 < cfg.num) (hist : List Record) :
    Window.total recordSize (windowOf cfg hist).open_ ≤ cfg.size ∧ cfg.size + LOG_WRITE_SIZE < 10 ^ 8 := by
  have hspec := windowOf_spec hnum hist
  have hmax := cfg.size_le
  rw [LOG_MAX_FILE_SIZE] at hmax
  rw [LOG_WRITE_SIZE]
  exact ⟨hspec.open_le, by omega⟩

/-! ### A start -/

/-- A full file: the next one is made anew. -/
theorem init_renew (h : cfg.size < (s.newest cfg.num).2.2.getD e.fileSize) {c : Nat}
    (hc : ((s.newest cfg.num).2.1 + 1) % cfg.num = c) :
    (logInitMutilFile cfg s e).octets = Function.update s.octets c [] ∧ (logInitMutilFile cfg s e).hfile = some c ∧
      (logInitMutilFile cfg s e).sel = c ∧ (logInitMutilFile cfg s e).pos = 0 := by
  rw [logInitMutilFile]
  simp only [if_pos h, hc]
  refine ⟨?_, trivial, trivial, trivial⟩
  exact ((s.remove c).octets_create c e.opened).trans (s.octets_remove c)

/-- A file that goes on. -/
theorem init_resume (h : ¬ cfg.size < (s.newest cfg.num).2.2.getD e.fileSize) {c : Nat}
    (hc : (s.newest cfg.num).2.1 = c) :
    (logInitMutilFile cfg s e).octets = s.octets ∧ (logInitMutilFile cfg s e).hfile = some c ∧
      (logInitMutilFile cfg s e).sel = c ∧
      (logInitMutilFile cfg s e).pos = asUint32 ((s.newest cfg.num).2.2.getD e.fileSize : Nat) := by
  rw [logInitMutilFile]
  simp only [if_neg h, hc]
  exact ⟨s.octets_create c e.opened, trivial, trivial, trivial⟩

/-- **The first start**: no file exists. -/
theorem init_first (hpos : 0 < cfg.num) (hcells : ∀ c, cyclic cfg.num c s.octets = contents w)
    (hempty : ∀ i < cfg.num, s.octets i = []) (hopen : Window.total recordSize w.open_ = 0)
    (hfound : (s.newest cfg.num).2.2 = none) (hfirst : (s.newest cfg.num).2.1 = 0)
    (hjunk : e.fileSize = 0 ∨ cfg.size < e.fileSize) : ∃ c, Behind cfg (logInitMutilFile cfg s e) w c := by
  by_cases hover : cfg.size < e.fileSize
  · have hlt : ((s.newest cfg.num).2.1 + 1) % cfg.num < cfg.num := Nat.mod_lt _ hpos
    obtain ⟨hoctets, hfile, hsel, hzero⟩ := init_renew (e := e) (by rw [hfound]; exact hover) rfl
    refine ⟨_, hlt, ?_, hfile, hsel, hzero.trans hopen.symm⟩
    rw [hoctets, ← hempty _ hlt, Function.update_eq_self]
    exact hcells _
  · obtain ⟨hoctets, hfile, hsel, hzero⟩ := init_resume (e := e) (by rw [hfound]; exact hover) hfirst
    refine ⟨0, hpos, by rw [hoctets]; exact hcells 0, hfile, hsel, hzero.trans ?_⟩
    rw [hfound, Option.getD_none, hjunk.resolve_right hover, hopen]
    rfl

/-- **The file that is taken up** is the one of the group that grows. -/
theorem init_behind {r : Run} (h : Windowed cfg r) (hnum : 1 < cfg.num) (hsel : Selects cfg r e.fileSize) :
    ∃ c, Behind cfg (logInitMutilFile cfg r.st e) (windowOf cfg r.hist) c := by
  obtain ⟨hopen, hsmall⟩ := open_le hnum r.hist
  have hlast := octets_last h.lt h.cells
  have hspec := newest_spec r.st cfg.num
  have hlen : (r.st.octets r.last).length = Window.total recordSize (windowOf cfg r.hist).open_ := by
    rw [hlast, length_bytes]
  rw [Selects] at hsel
  cases hfound : (r.st.newest cfg.num).2.2 with
  | none =>
    rw [hfound, Option.elim_none] at hsel hspec
    have hempty : ∀ i < cfg.num, r.st.octets i = [] := by
      intro i hi
      rw [State.octets, Option.isNone_iff_eq_none.mp (hsel.1 i hi)]
      rfl
    refine init_first (Nat.zero_lt_of_lt hnum) (fun c => ?_) hempty ?_ hfound hspec hsel.2
    · rw [← h.cells, cyclic_const _ hempty, cyclic_const _ hempty]
    · rw [← hlen, hempty _ h.lt]
      rfl
  | some size =>
    rw [hfound, Option.elim_some] at hsel hspec
    by_cases hover : cfg.size < size
    · rw [if_pos hover] at hsel
      obtain ⟨hoctets, hfile, hsel', hzero⟩ := init_renew (e := e) (by rw [hfound]; exact hover) hsel.1
      refine ⟨r.last, h.lt, ?_, hfile, hsel', ?_⟩
      · rw [hoctets, ← hsel.2, Function.update_eq_self]
        exact h.cells
      · rw [hzero, ← hlen, hsel.2]
        rfl
    · rw [if_neg hover] at hsel
      obtain ⟨hoctets, hfile, hsel', hpos⟩ := init_resume (e := e) (by rw [hfound]; exact hover) hsel
      refine ⟨r.last, h.lt, by rw [hoctets]; exact h.cells, hfile, hsel', ?_⟩
      rw [hpos, hfound, Option.getD_some, ← hlen, ← hsel, hspec.2, asUint32_natCast (by omega)]

/-! ### A write -/

/-- What a write does to the files. -/
theorem logStore_several (hnum : cfg.num ≠ 1) {p : Nat} (hp : asUint32 ((s.pos + e.record.1.length : Nat) : Int) = p)
    (hend : s.pos = (s.octets c).length) (hc : (s.sel + 1) % cfg.num = c') :
    ∃ s', s'.octets = Function.update s.octets c (s.octets c ++ e.record.1) ∧ s'.hfile = s.hfile ∧ s'.sel = s.sel ∧
      s'.pos = p ∧ logStore cfg s c e = if cfg.size < p then
        { (s'.remove c').create c' e.renewed with hfile := some c', sel := c', pos := 0 } else s' := by
  refine ⟨{ s.put c s.pos e.record.1 e.written with pos := p }, ?_, rfl, rfl, rfl, ?_⟩
  · rw [State.octets_setPos, State.octets_put, hend, pwrite_end]
  · rw [logStore]
    simp only [if_neg hnum, hp, State.put_sel, hc]

/-- **A record in the file that is open.** -/
theorem Behind.store (h : Behind cfg s w c) (hnum : 1 < cfg.num) (hlen : w.closed.length = cfg.num - 1)
    (hopen : Window.total recordSize w.open_ ≤ cfg.size) (hsmall : cfg.size + LOG_WRITE_SIZE < 10 ^ 8) :
    ∃ c', Behind cfg (logStore cfg s c e) (Window.write recordSize cfg.size w e.record) c' := by
  have hrec : e.record.1.length ≤ LOG_WRITE_SIZE := e.record.2.2
  have hlast := octets_last h.lt h.cells
  have htotal : Window.total recordSize (w.open_ ++ [e.record]) = s.pos + e.record.1.length := by
    rw [Window.total_concat, h.pos]
    rfl
  have hpos := h.pos
  obtain ⟨s', hoctets, hfile, hsel, hpos', hstore⟩ := logStore_several (s := s) (e := e) (c := c)
    (p := s.pos + e.record.1.length) (Nat.ne_of_gt hnum) (asUint32_natCast (by omega))
    (by rw [hlast, length_bytes, h.pos]) (by rw [h.sel])
  have hcells : cyclic cfg.num c s'.octets = contents ⟨w.closed, w.open_ ++ [e.record]⟩ := by
    rw [hoctets, cyclic_set h.lt, h.cells, hlast, contents, List.dropLast_concat, contents, bytes_concat]
  rw [hstore, Window.write, htotal]
  by_cases hover : cfg.size < s.pos + e.record.1.length
  · rw [if_pos hover, if_pos hover]
    refine ⟨(c + 1) % cfg.num, Nat.mod_lt _ (by omega), ?_, rfl, rfl, rfl⟩
    have hrenew : State.octets { (s'.remove ((c + 1) % cfg.num)).create ((c + 1) % cfg.num) e.renewed with
        hfile := some ((c + 1) % cfg.num), sel := (c + 1) % cfg.num, pos := 0 } =
        Function.update s'.octets ((c + 1) % cfg.num) [] :=
      (State.octets_create _ _ _).trans (State.octets_remove _ _)
    rw [hrenew, cyclic_next h.lt, hcells, contents, contents]
    have hne : w.closed.map bytes ≠ [] := by
      intro hnil
      rw [List.map_eq_nil_iff.mp hnil, List.length_nil] at hlen
      omega
    rw [List.tail_append_of_ne_nil hne, List.map_append, List.map_tail]
    rfl
  · rw [if_neg hover, if_neg hover]
    exact ⟨c, h.lt, hcells, hfile.trans h.hfile, hsel.trans h.sel, hpos'.trans htotal.symm⟩

/-- **A write.** -/
theorem Windowed.write {r : Run} (h : Windowed cfg r) (hnum : 1 < cfg.num)
    (hsel : r.st.hfile = none → Selects cfg r e.fileSize) : Windowed cfg (step cfg r (.write e)) := by
  obtain ⟨c, hbehind⟩ : ∃ c, Behind cfg (logOpen cfg r.st e) (windowOf cfg r.hist) c := by
    rw [logOpen, if_neg (Nat.ne_of_gt hnum)]
    rcases h.handle with hnone | hbehind
    · rw [hnone, if_pos Option.isNone_none]
      exact init_behind h hnum (hsel hnone)
    · rw [hbehind.hfile, Option.isNone_some, if_neg Bool.false_ne_true]
      exact ⟨r.last, hbehind⟩
  have hspec := windowOf_spec hnum r.hist
  obtain ⟨hopen, hsmall⟩ := open_le hnum r.hist
  obtain ⟨c', hstored⟩ := hbehind.store (e := e) hnum hspec.length hopen hsmall
  have hwrite : logWriteFile cfg r.st e = logStore cfg (logOpen cfg r.st e) c e := by
    rw [logWriteFile]
    simp only [hbehind.hfile, Option.elim_some]
  have hwindow : windowOf cfg (r.hist ++ [e.record]) =
      Window.write recordSize cfg.size (windowOf cfg r.hist) e.record := Window.of_concat
  rw [← hwrite, ← hwindow] at hstored
  have hlast : (step cfg r (.write e)).last = c' := hstored.sel
  exact ⟨hlast ▸ hstored.lt, hlast ▸ hstored.cells, Or.inr (hlast ▸ hstored)⟩

/-- **A restart.** -/
theorem Windowed.restart {r : Run} (h : Windowed cfg r) : Windowed cfg (step cfg r .restart) :=
  ⟨h.lt, h.cells, Or.inl rfl⟩

theorem windowed_start (hnum : 1 < cfg.num) : Windowed cfg .start where
  lt := Nat.zero_lt_of_lt hnum
  cells := by
    have hempty : cyclic cfg.num 0 Run.start.st.octets = List.replicate cfg.num [] :=
      cyclic_const _ fun i _ => rfl
    have hnil : bytes [] = [] := rfl
    show cyclic cfg.num 0 Run.start.st.octets = (List.replicate (cfg.num - 1) []).map bytes ++ [bytes []]
    rw [hempty, List.map_replicate, hnil, ← List.replicate_succ', Nat.sub_add_cancel (Nat.le_of_lt hnum)]
  handle := Or.inl rfl

/-! ### What is asked for -/

/-- **The requirement** in the mode of several files: every file is bounded by the size and one record, and the files
hold, from one on round the cycle, the most recent records; none has gone before all files but one were full. -/
structure Several (cfg : Config) (r : Run) : Prop where
  bounded : ∀ i < cfg.num, (r.st.octets i).length ≤ cfg.size + Window.longest recordSize r.hist
  recent : ∃ c k, (cyclic cfg.num c r.st.octets).flatten = bytes (r.hist.drop k) ∧
    (k = 0 ∨ (cfg.num - 1) * cfg.size ≤ (bytes (r.hist.drop k)).length)

/-- Every cell lies on the cycle. -/
theorem mem_cyclic {α : Type} {n c i : Nat} (hc : c < n) (hi : i < n) (f : Nat → α) : f i ∈ cyclic n c f := by
  rw [cyclic]
  by_cases hle : i ≤ c
  · refine List.mem_map.mpr ⟨i + n - c - 1, List.mem_range.mpr (by omega), ?_⟩
    rw [show c + 1 + (i + n - c - 1) = i + n by omega, Nat.add_mod_right, Nat.mod_eq_of_lt hi]
  · refine List.mem_map.mpr ⟨i - c - 1, List.mem_range.mpr (by omega), ?_⟩
    rw [show c + 1 + (i - c - 1) = i by omega, Nat.mod_eq_of_lt hi]

theorem flatten_contents (w : Window Record) : (contents w).flatten = bytes w.records := by
  have hmap : ∀ gs : List (List Record), (gs.map bytes).flatten = bytes gs.flatten := by
    intro gs
    rw [bytes, List.map_flatten, List.flatten_flatten, List.map_map]
    rfl
  rw [contents, List.flatten_append, hmap, List.flatten_singleton, Window.records]
  rw [bytes, bytes, bytes, List.map_append, List.flatten_append]

/-- **The invariant is enough.** -/
theorem Windowed.several {r : Run} (h : Windowed cfg r) (hnum : 1 < cfg.num) : Several cfg r where
  bounded := by
    have hspec := windowOf_spec hnum r.hist
    intro i hi
    have hmem := mem_cyclic h.lt hi r.st.octets
    rw [h.cells, contents] at hmem
    rcases List.mem_append.mp hmem with hclosed | hopen
    · obtain ⟨g, hg, hbytes⟩ := List.mem_map.mp hclosed
      rw [← hbytes, length_bytes]
      exact hspec.closed_le g hg
    · rw [List.mem_singleton.mp hopen, length_bytes]
      exact Nat.le_trans hspec.open_le (Nat.le_add_right _ _)
  recent := by
    have hspec := windowOf_spec hnum r.hist
    obtain ⟨k, hrec, hkept⟩ := hspec.kept
    refine ⟨r.last, k, ?_, ?_⟩
    · rw [h.cells, flatten_contents, ← hrec]
    · rw [length_bytes, ← hrec]
      exact hkept

/-! ### Runs -/

/-- The condition of a step: in the mode of one file, room for the position in front, and no restart after a record that
has gone over the size; in that of several files, the right one is taken up. -/
def Ok (cfg : Config) (r : Run) : Event → Prop
  | .write e => if cfg.num = 1 then LOG_MAX_FILE_BYTE ≤ cfg.size else r.st.hfile = none → Selects cfg r e.fileSize
  | .restart => cfg.num = 1 → (Ring.of cfg.size r.hist).passed = false

/-- All steps of a run meet the condition. -/
def Meets (cfg : Config) : Run → List Event → Prop
  | _, [] => True
  | r, ev :: evs => Ok cfg r ev ∧ Meets cfg (step cfg r ev) evs

instance (cfg : Config) (r : Run) (fileSize : Nat) : Decidable (Selects cfg r fileSize) :=
  have (o : Option Nat) (p : Prop) (q : Nat → Prop) [Decidable p] [DecidablePred q] : Decidable (o.elim p q) :=
    o.casesOn (inferInstanceAs (Decidable p)) fun size => inferInstanceAs (Decidable (q size))
  this _ _ _

instance (cfg : Config) (r : Run) : (ev : Event) → Decidable (Ok cfg r ev)
  | .write e =>
    inferInstanceAs (Decidable (if cfg.num = 1 then _ else r.st.hfile = none → Selects cfg r e.fileSize))
  | .restart => inferInstanceAs (Decidable (cfg.num = 1 → (Ring.of cfg.size r.hist).passed = false))

instance decidableMeets (cfg : Config) : (r : Run) → (evs : List Event) → Decidable (Meets cfg r evs)
  | _, [] => inferInstanceAs (Decidable True)
  | r, ev :: evs =>
    have := decidableMeets cfg (step cfg r ev) evs
    inferInstanceAs (Decidable (Ok cfg r ev ∧ Meets cfg (step cfg r ev) evs))

/-- **The requirement.** -/
def Right (cfg : Config) (r : Run) : Prop := if cfg.num = 1 then One cfg r else Several cfg r

theorem ringed_exec (hnum : cfg.num = 1) {r : Run} {evs : List Event} (h : Ringed cfg r)
    (hsize : r.hist ≠ [] → LOG_MAX_FILE_BYTE ≤ cfg.size) (hmeets : Meets cfg r evs) :
    Ringed cfg (exec cfg r evs) ∧ ((exec cfg r evs).hist ≠ [] → LOG_MAX_FILE_BYTE ≤ cfg.size) := by
  induction evs generalizing r with
  | nil => exact ⟨h, hsize⟩
  | cons ev evs ih =>
    obtain ⟨hok, hrest⟩ := hmeets
    rw [exec, List.foldl_cons]
    cases ev with
    | write e =>
      rw [Ok, if_pos hnum] at hok
      exact ih (h.write hnum hok) (fun _ => hok) hrest
    | restart => exact ih (h.restart (hok hnum)) hsize hrest

theorem windowed_exec (hnum : 1 < cfg.num) {r : Run} {evs : List Event} (h : Windowed cfg r)
    (hmeets : Meets cfg r evs) : Windowed cfg (exec cfg r evs) := by
  induction evs generalizing r with
  | nil => exact h
  | cons ev evs ih =>
    obtain ⟨hok, hrest⟩ := hmeets
    rw [exec, List.foldl_cons]
    cases ev with
    | write e =>
      rw [Ok, if_neg (Nat.ne_of_gt hnum)] at hok
      exact ih (h.write hnum hok) hrest
    | restart => exact ih h.restart hrest

/-- One file of 32 octets. -/
def sampleRing : Config := ⟨32, 1, by decide, by decide, by decide, by decide⟩

/-- Two files of four octets. -/
def samplePair : Config := ⟨4, 2, by decide, by decide, by decide, by decide⟩

/-- A record of `n + 1` octets, written in the second `t`. -/
def sampleWrite (n : Nat) (b : UInt8) (t : Nat) (h : n < LOG_WRITE_SIZE) : Event :=
  .write ⟨⟨List.replicate (n + 1) b, by rw [List.length_replicate]; exact ⟨Nat.succ_pos n, h⟩⟩, t, t, t, 0⟩

/-- A record of 30 octets goes over the size. -/
def overrun : List Event := [sampleWrite 29 1 1 (by decide)]

/-- Three records in one second, with a restart in front of the last one. -/
def tie : List Event :=
  [sampleWrite 4 1 1 (by decide), sampleWrite 0 2 1 (by decide), .restart, sampleWrite 0 3 1 (by decide)]

end Wow.Iot.LogFile
