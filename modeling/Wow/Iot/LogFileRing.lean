import Wow.Iot.LogFile
import Wow.Lib.LogWindow

/-!
# Wow.Iot.LogFileRing — one file that is written round

* `Ring`: the file of a process that never starts again.
* `Ringed`: what the file and the process have of it in every state.
* `Ringed.write`, `Ringed.restart`: a record goes where the ring has its place; after a restart too, unless the record
  before has gone over the size.
-/

namespace Wow.Iot.LogFile

open FileOctets Decimal

def recordSize (x : Record) : Nat := x.1.length

/-- Where the next record goes, counted from behind the position in the file, what is there, and whether the last record
has gone over the size. -/
structure Ring where
  pos : Nat
  body : List UInt8
  passed : Bool

namespace Ring

def start : Ring := ⟨0, [], false⟩

def write (cap : Nat) (r : Ring) (x : Record) : Ring :=
  if cap < r.pos + recordSize x then ⟨0, pwrite r.body r.pos x.1, true⟩
  else ⟨r.pos + recordSize x, pwrite r.body r.pos x.1, false⟩

/-- After the records of a history, in a file of the size `size`. -/
def of (size : Nat) (hist : List Record) : Ring := hist.foldl (write (size - LOG_MAX_FILE_BYTE)) start

/-- The bounds of a ring. -/
structure Bounds (cap : Nat) (hist : List Record) (r : Ring) : Prop where
  pos_le : r.pos ≤ cap
  body_le : r.body.length ≤ cap + Window.longest recordSize hist
  pos_passed : r.passed = true → r.pos = 0

variable {cap : Nat} {hist : List Record} {r : Ring} {x : Record}

theorem Bounds.write (h : Bounds cap hist r) : Bounds cap (hist ++ [x]) (write cap r x) := by
  have hbody : (pwrite r.body r.pos x.1).length ≤ cap + Window.longest recordSize (hist ++ [x]) := by
    have hsize : recordSize x ≤ Window.longest recordSize (hist ++ [x]) := Window.size_le_longest_concat
    have hlongest : Window.longest recordSize hist ≤ Window.longest recordSize (hist ++ [x]) := Window.le_longest_concat
    have hpos := h.pos_le
    have hold := h.body_le
    rw [length_pwrite]
    rw [recordSize] at hsize
    omega
  rw [Ring.write]
  by_cases hover : cap < r.pos + recordSize x
  · rw [if_pos hover]
    exact ⟨Nat.zero_le _, hbody, fun _ => rfl⟩
  · rw [if_neg hover]
    exact ⟨Nat.le_of_not_lt hover, hbody, fun h => absurd h Bool.false_ne_true⟩

theorem of_concat (size : Nat) : of size (hist ++ [x]) = write (size - LOG_MAX_FILE_BYTE) (of size hist) x := by
  rw [of, List.foldl_append, List.foldl_cons, List.foldl_nil, of]

theorem bounds (size : Nat) (hist : List Record) : Bounds (size - LOG_MAX_FILE_BYTE) hist (of size hist) := by
  induction hist using List.reverseRecOn with
  | nil => exact ⟨Nat.zero_le _, Nat.zero_le _, fun _ => rfl⟩
  | append_singleton hist x ih =>
    rw [of_concat]
    exact ih.write

end Ring

/-- No record is longer than the buffer. -/
theorem longest_le (hist : List Record) : Window.longest recordSize hist ≤ LOG_WRITE_SIZE := by
  induction hist with
  | nil => exact Nat.zero_le _
  | cons x hist ih => exact max_le x.2.2 ih

/-! ### What the code has of the ring -/

/-- The file holds a position and the ring; the position is the ring's, or that of a record that has gone over the size. -/
structure Stored (cfg : Config) (s : State) (ring : Ring) (n : Nat) : Prop where
  octets : s.octets 0 = writepos n ++ ring.body
  lt : n < 10 ^ 8
  pos : ring.passed = false ∧ n = LOG_MAX_FILE_BYTE + ring.pos ∨ ring.passed = true ∧ cfg.size < n

theorem Stored.place {cfg : Config} {s : State} {ring : Ring} {n : Nat} (h : Stored cfg s ring n)
    (hpassed : ring.passed = false) : n = LOG_MAX_FILE_BYTE + ring.pos := by
  rcases h.pos with ⟨-, hplace⟩ | ⟨hover, -⟩
  · exact hplace
  · exact absurd (hpassed.symm.trans hover) Bool.false_ne_true

/-- The process has the file open, at the place of the ring. -/
def Opened (s : State) (ring : Ring) : Prop := s.hfile = some 0 ∧ s.pos = LOG_MAX_FILE_BYTE + ring.pos

/-- **What holds in every state** in the mode of one file. -/
inductive Ringed (cfg : Config) (r : Run) : Prop
  | fresh (hist : r.hist = []) (octets : r.st.octets 0 = []) (hfile : r.st.hfile = none)
  | written (n : Nat) (hist : r.hist ≠ []) (stored : Stored cfg r.st (Ring.of cfg.size r.hist) n)
      (handle : Opened r.st (Ring.of cfg.size r.hist) ∨
        r.st.hfile = none ∧ (Ring.of cfg.size r.hist).passed = false)

variable {cfg : Config} {s : State} {ring : Ring} {hist : List Record} {n t : Nat} {e : Entry}

/-- The first start writes the position. -/
theorem init_fresh (h : s.octets 0 = []) :
    (logInitOneFile s t).octets 0 = writepos LOG_MAX_FILE_BYTE ∧ (logInitOneFile s t).hfile = some 0 ∧
      (logInitOneFile s t).pos = LOG_MAX_FILE_BYTE := by
  have hzero : asInt ((s.create 0 t).octets 0).length ≤ 0 := by
    rw [State.octets_create, h]
    decide
  rw [logInitOneFile]
  simp only [if_pos hzero]
  refine ⟨?_, trivial, trivial⟩
  show ((s.create 0 t).put 0 0 (writepos LOG_MAX_FILE_BYTE) t).octets 0 = _
  rw [State.octets_put, Function.update_self, State.octets_create, h, ← List.length_nil (α := UInt8), pwrite_end,
    List.nil_append]

/-- **A later start reads it.** -/
theorem init_stored {body : List UInt8} (h : s.octets 0 = writepos n ++ body) (hn : n < 10 ^ 8)
    (hbody : body.length < 2 ^ 30) :
    (logInitOneFile s t).octets 0 = s.octets 0 ∧ (logInitOneFile s t).hfile = some 0 ∧
    (logInitOneFile s t).pos = n := by
  have hlen := length_writepos hn
  have hsize : ((s.create 0 t).octets 0).length = LOG_MAX_FILE_BYTE + body.length := by
    rw [State.octets_create, h, List.length_append, hlen]
  have hpos : ¬ asInt ((s.create 0 t).octets 0).length ≤ 0 := by
    rw [hsize, asInt_of_lt (by omega) (by rw [LOG_MAX_FILE_BYTE]; omega), LOG_MAX_FILE_BYTE]
    omega
  rw [logInitOneFile]
  simp only [if_neg hpos]
  refine ⟨congrFun (s.octets_create 0 t) 0, trivial, ?_⟩
  rw [State.octets_create, h, ← hlen, pread_front, atoi_writepos hn, asUint32_natCast (by omega)]

/-- The sizes in the mode of one file are small. -/
theorem ring_small (hsize : LOG_MAX_FILE_BYTE ≤ cfg.size) (hist : List Record) :
    LOG_MAX_FILE_BYTE + (Ring.of cfg.size hist).pos ≤ cfg.size ∧
      LOG_MAX_FILE_BYTE + (Ring.of cfg.size hist).body.length ≤ cfg.size + Window.longest recordSize hist ∧
      (Ring.of cfg.size hist).body.length < 2 ^ 30 ∧ cfg.size + LOG_WRITE_SIZE < 10 ^ 8 := by
  have hbounds := Ring.bounds cfg.size hist
  have hpos := hbounds.pos_le
  have hbody := hbounds.body_le
  have hlongest := longest_le hist
  have hmax := cfg.size_le
  rw [LOG_MAX_FILE_SIZE] at hmax
  rw [LOG_WRITE_SIZE] at hlongest ⊢
  omega

/-- What a write does to the file: the record at the position, and then the position in front. -/
theorem logStore_one (hnum : cfg.num = 1) {p : Nat}
    (hp : asUint32 ((s.pos + e.record.1.length : Nat) : Int) = p) :
    ∃ s', s'.octets 0 = pwrite (pwrite (s.octets 0) s.pos e.record.1) 0 (writepos p) ∧ s'.hfile = s.hfile ∧ s'.pos = p ∧
      logStore cfg s 0 e = if cfg.size < p then { s' with pos := LOG_MAX_FILE_BYTE } else s' := by
  refine ⟨{ s.put 0 s.pos e.record.1 e.written with pos := p }.put 0 0 (writepos p) e.written, ?_, rfl, rfl, ?_⟩
  · rw [State.octets_put, Function.update_self, State.octets_setPos, State.octets_put, Function.update_self]
  · rw [logStore]
    simp only [if_pos hnum, hp]
    rfl

/-- **A record in the file that is open.** -/
theorem Stored.store (h : Stored cfg s (Ring.of cfg.size hist) n) (hopen : Opened s (Ring.of cfg.size hist))
    (hnum : cfg.num = 1) (hsize : LOG_MAX_FILE_BYTE ≤ cfg.size) :
    ∃ m, Stored cfg (logStore cfg s 0 e) (Ring.of cfg.size (hist ++ [e.record])) m ∧
      Opened (logStore cfg s 0 e) (Ring.of cfg.size (hist ++ [e.record])) := by
  obtain ⟨hpos, -, -, hsmall⟩ := ring_small hsize hist
  have hrec : e.record.1.length ≤ LOG_WRITE_SIZE := e.record.2.2
  rw [Ring.of_concat]
  generalize Ring.of cfg.size hist = ring at *
  have hlt : LOG_MAX_FILE_BYTE + ring.pos + e.record.1.length < 10 ^ 8 := by omega
  obtain ⟨s', hoctets, hfile, hpos', hstore⟩ := logStore_one (s := s) (e := e) hnum
    (p := LOG_MAX_FILE_BYTE + ring.pos + e.record.1.length) (by rw [hopen.2, asUint32_natCast (by omega)])
  rw [h.octets, hopen.2, ← length_writepos h.lt, pwrite_append, length_writepos h.lt,
    pwrite_front _ _ ((length_writepos hlt).trans (length_writepos h.lt).symm)] at hoctets
  rw [hstore]
  by_cases hover : cfg.size < LOG_MAX_FILE_BYTE + ring.pos + e.record.1.length
  · have hring : ring.write (cfg.size - LOG_MAX_FILE_BYTE) e.record = ⟨0, pwrite ring.body ring.pos e.record.1, true⟩ :=
      if_pos (show _ < ring.pos + e.record.1.length by omega)
    rw [if_pos hover, hring]
    exact ⟨_, ⟨hoctets, hlt, Or.inr ⟨rfl, hover⟩⟩, hfile.trans hopen.1, rfl⟩
  · have hring : ring.write (cfg.size - LOG_MAX_FILE_BYTE) e.record =
        ⟨ring.pos + e.record.1.length, pwrite ring.body ring.pos e.record.1, false⟩ :=
      if_neg (show ¬ _ < ring.pos + e.record.1.length by omega)
    rw [if_neg hover, hring]
    exact ⟨_, ⟨hoctets, hlt, Or.inl ⟨rfl, Nat.add_assoc _ _ _⟩⟩, hfile.trans hopen.1, hpos'.trans (Nat.add_assoc _ _ _)⟩

/-! ### The steps -/

/-- The file is open at the place of the ring, whatever it was before. -/
theorem Ringed.opened {r : Run} (h : Ringed cfg r) (hnum : cfg.num = 1) (hsize : LOG_MAX_FILE_BYTE ≤ cfg.size) :
    ∃ n, Stored cfg (logOpen cfg r.st e) (Ring.of cfg.size r.hist) n ∧
      Opened (logOpen cfg r.st e) (Ring.of cfg.size r.hist) := by
  rw [logOpen, if_pos hnum]
  cases h with
  | fresh hist octets hfile =>
    obtain ⟨hoctets, hopen, hpos⟩ := init_fresh (t := e.opened) octets
    rw [hfile, if_pos Option.isNone_none, hist]
    exact ⟨LOG_MAX_FILE_BYTE, ⟨hoctets.trans (List.append_nil _).symm, by decide, Or.inl ⟨rfl, rfl⟩⟩, hopen, hpos⟩
  | written n hist stored handle =>
    rcases handle with hopen | ⟨hfile, hpassed⟩
    · rw [hopen.1, if_neg (by decide)]
      exact ⟨n, stored, hopen⟩
    · obtain ⟨hoctets, hopen, hpos⟩ :=
        init_stored (t := e.opened) stored.octets stored.lt (ring_small hsize r.hist).2.2.1
      rw [hfile, if_pos Option.isNone_none]
      exact ⟨n, ⟨hoctets.trans stored.octets, stored.lt, stored.pos⟩, hopen, hpos.trans (stored.place hpassed)⟩

/-- **A write.** -/
theorem Ringed.write {r : Run} (h : Ringed cfg r) (hnum : cfg.num = 1) (hsize : LOG_MAX_FILE_BYTE ≤ cfg.size) :
    Ringed cfg (step cfg r (.write e)) := by
  obtain ⟨n, hstored, hopen⟩ := h.opened (e := e) hnum hsize
  obtain ⟨m, hstored', hopen'⟩ := hstored.store (e := e) hopen hnum hsize
  have hwrite : (step cfg r (.write e)).st = logStore cfg (logOpen cfg r.st e) 0 e := by
    show logWriteFile cfg r.st e = _
    rw [logWriteFile]
    simp only [hopen.1, Option.elim_some]
  refine .written m (List.append_ne_nil_of_right_ne_nil _ (List.cons_ne_nil _ _)) ?_ (Or.inl ?_)
  · rw [hwrite]
    exact hstored'
  · rw [hwrite]
    exact hopen'

/-- **A restart** after a record that has not gone over the size. -/
theorem Ringed.restart {r : Run} (h : Ringed cfg r) (hpassed : (Ring.of cfg.size r.hist).passed = false) :
    Ringed cfg (step cfg r .restart) := by
  cases h with
  | fresh hist octets hfile => exact .fresh hist octets rfl
  | written n hist stored handle => exact .written n hist ⟨stored.octets, stored.lt, stored.pos⟩ (Or.inr ⟨rfl, hpassed⟩)

/-! ### What is asked for -/

/-- Where the next record goes. -/
def State.nextPos (s : State) : Nat := (if s.hfile.isNone then logInitOneFile s 0 else s).pos

/-- **The requirement** in the mode of one file: the file is bounded by the size and one record; the next record goes
where that of a process goes that never started again, and so did all before it; and the position in the file is the next
one, as long as the last record has not gone over the size. -/
structure One (cfg : Config) (r : Run) : Prop where
  bounded : (r.st.octets 0).length ≤ cfg.size + Window.longest recordSize r.hist
  next : r.st.nextPos = LOG_MAX_FILE_BYTE + (Ring.of cfg.size r.hist).pos
  body : (r.st.octets 0).drop LOG_MAX_FILE_BYTE = (Ring.of cfg.size r.hist).body
  stored : r.hist ≠ [] → (atoi (pread (r.st.octets 0) 0 LOG_MAX_FILE_BYTE) = r.st.nextPos ↔
    (Ring.of cfg.size r.hist).passed = false)

/-- **The invariant is enough.** -/
theorem Ringed.one {r : Run} (h : Ringed cfg r) (hsize : r.hist ≠ [] → LOG_MAX_FILE_BYTE ≤ cfg.size) : One cfg r := by
  cases h with
  | fresh hist octets hfile =>
    refine ⟨?_, ?_, ?_, fun hne => absurd hist hne⟩
    · rw [octets]
      exact Nat.zero_le _
    · rw [State.nextPos, hfile, if_pos Option.isNone_none, (init_fresh octets).2.2, hist]
      rfl
    · rw [octets, hist]
      rfl
  | written n hist stored handle =>
    obtain ⟨-, hbody, hsmall, -⟩ := ring_small (hsize hist) r.hist
    have hpassed := (Ring.bounds cfg.size r.hist).pos_passed
    have hlen := length_writepos stored.lt
    have hnext : r.st.nextPos = LOG_MAX_FILE_BYTE + (Ring.of cfg.size r.hist).pos := by
      rcases handle with hopen | ⟨hfile, hpass⟩
      · rw [State.nextPos, hopen.1, if_neg (by decide), hopen.2]
      · rw [State.nextPos, hfile, if_pos Option.isNone_none, (init_stored stored.octets stored.lt hsmall).2.2]
        exact stored.place hpass
    refine ⟨?_, hnext, ?_, fun _ => ?_⟩
    · rw [stored.octets, List.length_append, hlen]
      exact hbody
    · rw [stored.octets, ← hlen, List.drop_left]
    · rw [hnext, stored.octets, ← hlen, pread_front, atoi_writepos stored.lt, hlen]
      have hmin := hsize hist
      rcases stored.pos with ⟨hpass, hplace⟩ | ⟨hpass, hover⟩
      · rw [hplace]
        exact iff_of_true rfl hpass
      · rw [hpass, hpassed hpass]
        refine iff_of_false (fun heq => ?_) (Ne.symm Bool.false_ne_true)
        omega

end Wow.Iot.LogFile
