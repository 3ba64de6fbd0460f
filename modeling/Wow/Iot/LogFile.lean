import Mathlib.Data.List.Range
import Wow.Lib.Decimal
import Wow.Lib.FileOctets

/-!
# Wow.Iot.LogFile — the files of `wow_log.c`

A module of the log writes its records into one file that is written round, with the position in the first ten octets
(`LOG_MAX_FILE_BYTE`), or into up to five files one after the other.  `logWriteFile` is a write, with the files opened
when they are not; a restart of the process forgets the handle and the position.
-/

namespace Wow.Iot.LogFile

open FileOctets Decimal

def LOG_MAX_FILE_NUM : Nat := 5
def LOG_MAX_FILE_SIZE : Nat := 512 * 1024
def LOG_MAX_FILE_BYTE : Nat := 10
def LOG_WRITE_SIZE : Nat := 2048

/-- The size and the number of the files, as the setters let them through. -/
structure Config where
  size : Nat
  num : Nat
  size_pos : 0 < size
  size_le : size ≤ LOG_MAX_FILE_SIZE
  num_pos : 0 < num
  num_le : num ≤ LOG_MAX_FILE_NUM

/-- `wow_log_set_module_file` and `wow_log_set_default_file`. -/
def setFile (u32Size u32Num : Nat) : Option Config :=
  if h : u32Size > 0 ∧ u32Num > 0 then
    some {
      num := if u32Num > LOG_MAX_FILE_NUM then LOG_MAX_FILE_NUM else u32Num
      size := if u32Size > LOG_MAX_FILE_SIZE then LOG_MAX_FILE_SIZE else u32Size
      size_pos := by split; exacts [by decide, h.1]
      size_le := by split <;> omega
      num_pos := by split; exacts [by decide, h.2]
      num_le := by split <;> omega }
  else none

/-- Every configuration comes from the setters. -/
theorem setFile_self (cfg : Config) : setFile cfg.size cfg.num = some cfg := by
  rw [setFile, dif_pos ⟨cfg.size_pos, cfg.num_pos⟩]
  simp only [if_neg (Nat.not_lt.mpr cfg.num_le), if_neg (Nat.not_lt.mpr cfg.size_le)]

/-- What `_log_print` puts together in its buffer; the level alone makes it longer than nothing. -/
abbrev Record := { r : List UInt8 // 0 < r.length ∧ r.length ≤ LOG_WRITE_SIZE }

/-- A file with the second of its last change. -/
structure File where
  octets : List UInt8
  mtime : Nat

/-- `LogFileInfo_T`, with the files by their number in the name. -/
structure State where
  files : Nat → Option File
  hfile : Option Nat
  sel : Nat
  pos : Nat

/-- A record that is written: the record, the seconds of the clock when a file is opened, when it is written and when the
next one is opened, and what `fileSize` of `log_init_mutil_file` holds before it is set. -/
structure Entry where
  record : Record
  opened : Nat
  written : Nat
  renewed : Nat
  fileSize : Nat

namespace State

/-- The octets of a file; those of a file that does not exist are none. -/
def octets (s : State) (i : Nat) : List UInt8 := (s.files i).elim [] File.octets

/-- `wow_hfile_open(FILE_IO, name, FILE_CREATE)`. -/
def create (s : State) (i t : Nat) : State :=
  { s with files := if (s.files i).isNone then Function.update s.files i (some ⟨[], t⟩) else s.files }

/-- `wow_file_remove`. -/
def remove (s : State) (i : Nat) : State := { s with files := Function.update s.files i none }

/-- A write at a position. -/
def put (s : State) (i p : Nat) (xs : List UInt8) (t : Nat) : State :=
  { s with files := Function.update s.files i (some ⟨pwrite (s.octets i) p xs, t⟩) }

/-- The loop over the files: the greatest time, the file that has it and its size. -/
def newest (s : State) (num : Nat) : Nat × Nat × Option Nat :=
  (List.range num).foldl (fun r i => (s.files i).elim r fun f =>
    if r.1 < f.mtime then (f.mtime, i, some f.octets.length) else r) (0, 0, none)

end State

/-- The position as it stands in the file: `snprintf(writepos, LOG_MAX_FILE_BYTE, "%08d\n", pos)`. -/
def writepos (pos : Nat) : List UInt8 := (fmt08d (asInt pos) ++ [10]).take (LOG_MAX_FILE_BYTE - 1) ++ [0]

/-- `log_init_one_file`. -/
def logInitOneFile (s : State) (t : Nat) : State :=
  let s := s.create 0 t
  if asInt (s.octets 0).length ≤ 0 then
    { s.put 0 0 (writepos LOG_MAX_FILE_BYTE) t with hfile := some 0, pos := LOG_MAX_FILE_BYTE }
  else { s with hfile := some 0, pos := asUint32 (atoi (pread (s.octets 0) 0 LOG_MAX_FILE_BYTE)) }

/-- `log_init_mutil_file`. -/
def logInitMutilFile (cfg : Config) (s : State) (e : Entry) : State :=
  let select := (s.newest cfg.num).2.1
  let fileSize := (s.newest cfg.num).2.2.getD e.fileSize
  if cfg.size < fileSize then
    let select := (select + 1) % cfg.num
    { (s.remove select).create select e.opened with hfile := some select, sel := select, pos := 0 }
  else { s.create select e.opened with hfile := some select, sel := select, pos := asUint32 fileSize }

/-- The files are opened when they are not. -/
def logOpen (cfg : Config) (s : State) (e : Entry) : State :=
  if s.hfile.isNone then (if cfg.num = 1 then logInitOneFile s e.opened else logInitMutilFile cfg s e) else s

/-- The record and the position are written, and what follows from a position behind the size. -/
def logStore (cfg : Config) (s : State) (hfile : Nat) (e : Entry) : State :=
  let s := { s.put hfile s.pos e.record.1 e.written with pos := asUint32 ((s.pos + e.record.1.length : Nat) : Int) }
  let s := if cfg.num = 1 then s.put hfile 0 (writepos s.pos) e.written else s
  if cfg.size < s.pos then
    if cfg.num = 1 then { s with pos := LOG_MAX_FILE_BYTE }
    else
      let sel := (s.sel + 1) % cfg.num
      { (s.remove sel).create sel e.renewed with hfile := some sel, sel := sel, pos := 0 }
  else s

/-- `log_write_file`. -/
def logWriteFile (cfg : Config) (s : State) (e : Entry) : State :=
  let s := logOpen cfg s e
  s.hfile.elim s fun hfile => logStore cfg s hfile e

/-- A process that starts again. -/
def State.restart (s : State) : State := { s with hfile := none, sel := 0, pos := 0 }

inductive Event where
  | write (e : Entry)
  | restart

/-- A run: the state, the records written so far, and the file that was written last. -/
structure Run where
  st : State
  hist : List Record
  last : Nat

/-- No file exists. -/
def Run.start : Run := ⟨⟨fun _ => none, none, 0, 0⟩, [], 0⟩

def step (cfg : Config) (r : Run) : Event → Run
  | .write e => ⟨logWriteFile cfg r.st e, r.hist ++ [e.record], (logWriteFile cfg r.st e).sel⟩
  | .restart => { r with st := r.st.restart }

def exec (cfg : Config) (r : Run) (evs : List Event) : Run := evs.foldl (step cfg) r

/-! ### The octets after each operation -/

namespace State

variable (s : State)

@[simp] theorem put_pos (i p : Nat) (xs : List UInt8) (t : Nat) : (s.put i p xs t).pos = s.pos := rfl

@[simp] theorem put_hfile (i p : Nat) (xs : List UInt8) (t : Nat) : (s.put i p xs t).hfile = s.hfile := rfl

@[simp] theorem put_sel (i p : Nat) (xs : List UInt8) (t : Nat) : (s.put i p xs t).sel = s.sel := rfl

/-- A file is set. -/
theorem octets_update (i : Nat) (o : Option File) :
    octets { s with files := Function.update s.files i o } = Function.update s.octets i (o.elim [] File.octets) := by
  funext j
  by_cases hj : j = i
  · subst hj
    simp only [octets, Function.update_self]
  · simp only [octets, Function.update_of_ne hj]

@[simp] theorem octets_setPos (p : Nat) : octets { s with pos := p } = s.octets := rfl

@[simp] theorem octets_create (i t : Nat) : (s.create i t).octets = s.octets := by
  rw [create]
  by_cases hnone : (s.files i).isNone = true
  · have hempty : s.octets i = [] := by
      rw [octets, Option.isNone_iff_eq_none.mp hnone]
      rfl
    rw [if_pos hnone, octets_update, Option.elim_some, ← hempty, Function.update_eq_self]
  · rw [if_neg hnone]

@[simp] theorem octets_remove (i : Nat) : (s.remove i).octets = Function.update s.octets i [] :=
  s.octets_update i none

@[simp] theorem octets_put (i p : Nat) (xs : List UInt8) (t : Nat) :
    (s.put i p xs t).octets = Function.update s.octets i (pwrite (s.octets i) p xs) :=
  s.octets_update i _

end State

/-! ### The position in the file -/

theorem writepos_eq {n : Nat} (h : n < 10 ^ 8) : writepos n = fmt08d n ++ [10, 0] := by
  have hlen : (fmt08d n ++ [10]).length = LOG_MAX_FILE_BYTE - 1 := by
    rw [List.length_append, length_fmt08d h]
    rfl
  rw [writepos, asInt_of_lt (by omega) (by omega), ← hlen, List.take_length, List.append_assoc]
  rfl

theorem length_writepos {n : Nat} (h : n < 10 ^ 8) : (writepos n).length = LOG_MAX_FILE_BYTE := by
  rw [writepos_eq h, List.length_append, length_fmt08d h]
  rfl

/-- **What is written is read.** -/
theorem atoi_writepos {n : Nat} (h : n < 10 ^ 8) : atoi (writepos n) = n := by
  rw [writepos_eq h, atoi_fmt08d h]

end Wow.Iot.LogFile
