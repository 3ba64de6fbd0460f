import Wow.Lib.CNum
import Wow.Lib.FileOctets

/-!
# Wow.Lib.Stdio — open files and streams

An open file of POSIX is the octets of the file, the offset and what the file is open for; `read` and `write` fail when
it is not open for them.  A stream of C is an open file with the direction of its last operation: on a stream for update
an input right after an output, or an output right after an input that has not met the end of the file, is undefined
(`none`).  Calls of the system succeed.
-/

namespace Wow

open FileOctets

namespace Posix

/-- What a file is opened for. -/
structure Flags where
  read : Bool
  write : Bool
  append : Bool
  creat : Bool
  trunc : Bool

/-- An open file. -/
structure File where
  flags : Flags
  octets : List UInt8
  pos : Nat

/-- The origins of `lseek`. -/
inductive Whence where
  | set
  | cur
  | end_
  | other
deriving DecidableEq

namespace File

/-- `open`, with the octets of the file when there is one. -/
def open_ (flags : Flags) : Option (List UInt8) → Option File
  | none => if flags.creat then some ⟨flags, [], 0⟩ else none
  | some b => some ⟨flags, if flags.trunc then [] else b, 0⟩

/-- The octets from the offset on. -/
def rest (f : File) : List UInt8 := f.octets.drop f.pos

/-- `read`. -/
def read (f : File) (n : Nat) : Option (List UInt8) × File :=
  if f.flags.read then (some (pread f.octets f.pos n), { f with pos := f.pos + (pread f.octets f.pos n).length })
  else (none, f)

/-- Where a write goes. -/
def place (f : File) : Nat := if f.flags.append then f.octets.length else f.pos

/-- `write`; an offset has 63 bits. -/
def write (f : File) (xs : List UInt8) : Option Nat × File :=
  if f.flags.write ∧ f.place + xs.length < 2 ^ 63 then
    (some xs.length, { f with octets := pwrite f.octets f.place xs, pos := f.place + xs.length })
  else (none, f)

/-- The offset that is sought. -/
def target (f : File) (offset : Int) : Whence → Option Int
  | .set => some offset
  | .cur => some (f.pos + offset)
  | .end_ => some (f.octets.length + offset)
  | .other => none

/-- `lseek`, -1 when there is no such offset. -/
def lseek (f : File) (offset : Int) (whence : Whence) : Int × File :=
  (f.target offset whence).elim (-1, f) fun p => if 0 ≤ p ∧ p < 2 ^ 63 then (p, { f with pos := p.toNat }) else (-1, f)

/-- The octets that can be read. -/
def avail (f : File) : List UInt8 := if f.flags.read then f.rest else []

/-- The offset moved forward. -/
def advance (f : File) (n : Nat) : File := { f with pos := f.pos + n }

/-- The octets written at their place. -/
def put (f : File) (xs : List UInt8) : File :=
  { f with octets := pwrite f.octets f.place xs, pos := f.place + xs.length }

/-- **A read** takes what there is, and moves the offset behind it. -/
theorem read_eq (f : File) (n : Nat) :
    (f.read n).1.getD [] = f.avail.take n ∧ (f.read n).2 = f.advance (f.avail.take n).length := by
  rw [read, avail]
  by_cases hread : f.flags.read = true
  · rw [if_pos hread, if_pos hread]
    exact ⟨rfl, rfl⟩
  · rw [if_neg hread, if_neg hread, List.take_nil]
    exact ⟨rfl, rfl⟩

theorem length_avail_le (f : File) : f.avail.length ≤ f.rest.length := by
  rw [avail]
  split
  · exact Nat.le_refl _
  · exact Nat.zero_le _

theorem avail_advance (f : File) (n : Nat) : (f.advance n).avail = f.avail.drop n := by
  rw [avail, avail, advance]
  by_cases hread : f.flags.read = true
  · rw [if_pos hread, if_pos hread, rest, rest, List.drop_drop]
  · rw [if_neg hread, if_neg hread, List.drop_nil]

/-- **A write** of a file that is open for it. -/
theorem write_eq {f : File} {xs : List UInt8} (hwrite : f.flags.write = true) (hlt : f.place + xs.length < 2 ^ 63) :
    f.write xs = (some xs.length, f.put xs) := if_pos ⟨hwrite, hlt⟩

theorem write_refused {f : File} {xs : List UInt8} (hwrite : ¬ f.flags.write = true) : f.write xs = (none, f) :=
  if_neg fun h => hwrite h.1

/-- **An offset that exists.** -/
theorem lseek_eq {f : File} {offset p : Int} {whence : Whence} (h : f.target offset whence = some p)
    (hin : 0 ≤ p ∧ p < 2 ^ 63) : f.lseek offset whence = (p, { f with pos := p.toNat }) := by
  rw [lseek, h, Option.elim_some, if_pos hin]

/-- One that does not. -/
theorem lseek_fail {f : File} {offset : Int} {whence : Whence}
    (h : (f.target offset whence).elim True fun p => ¬ (0 ≤ p ∧ p < 2 ^ 63)) : f.lseek offset whence = (-1, f) := by
  rw [lseek]
  cases hp : f.target offset whence with
  | none => rfl
  | some p =>
    rw [hp, Option.elim_some] at h
    rw [Option.elim_some, if_neg h]

/-- The next write goes behind the last one. -/
theorem place_put (f : File) (xs : List UInt8) : (f.put xs).place = f.place + xs.length := by
  rw [place]
  by_cases happend : f.flags.append = true
  · have hplace : f.place = f.octets.length := if_pos happend
    have hlen : (f.put xs).octets.length = f.octets.length + xs.length := by
      rw [put, hplace, length_pwrite]
      omega
    rw [if_pos (show (f.put xs).flags.append = true from happend), hlen, hplace]
  · rw [if_neg (show ¬ (f.put xs).flags.append = true from happend)]
    rfl

/-- **Two writes** one after the other are one. -/
theorem put_put (f : File) (xs ys : List UInt8) : (f.put xs).put ys = f.put (xs ++ ys) := by
  have hoctets : pwrite (f.put xs).octets (f.place + xs.length) ys = pwrite f.octets f.place (xs ++ ys) :=
    pwrite_pwrite _ _ _ _
  rw [put, place_put, hoctets]
  simp only [put, List.length_append, Nat.add_assoc]

end File

end Posix

namespace Stdio

/-- The direction of the last operation on a stream; none after a change of the position. -/
inductive Last where
  | none
  | input
  | eof
  | output
deriving DecidableEq

/-- A stream. -/
structure Stream where
  file : Posix.File
  last : Last

namespace Stream

/-- Open for reading and for writing. -/
def update (s : Stream) : Bool := s.file.flags.read && s.file.flags.write

/-- `fread` of octets. -/
def fread (s : Stream) (n : Nat) : Option (List UInt8 × Stream) :=
  if s.update ∧ s.last = .output then none
  else some ((s.file.read n).1.elim ([], s) fun xs =>
    (xs, ⟨(s.file.read n).2, if xs.length < n then .eof else .input⟩))

/-- `fwrite` of octets. -/
def fwrite (s : Stream) (xs : List UInt8) : Option (Nat × Stream) :=
  if s.update ∧ s.last = .input then none
  else some ((s.file.write xs).1.elim (0, s) fun n => (n, ⟨(s.file.write xs).2, .output⟩))

/-- `fseek`. -/
def fseek (s : Stream) (offset : Int) (whence : Posix.Whence) : Int × Stream :=
  if (s.file.lseek offset whence).1 < 0 then (-1, s) else (0, ⟨(s.file.lseek offset whence).2, .none⟩)

/-- `ftell`. -/
def ftell (s : Stream) : Int := s.file.pos

/-- The octets up to a line feed and with it, at most `n`. -/
def takeLine : Nat → List UInt8 → List UInt8
  | n + 1, c :: cs => if c = 10 then [c] else c :: takeLine n cs
  | _, _ => []

/-- `fgets`, with what it writes to the buffer, if anything. -/
def fgets (s : Stream) (n : Int) : Option (Option (List UInt8) × Stream) :=
  if s.update ∧ s.last = .output then none
  else if n ≤ 0 then some (none, { s with last := .input })
  else if n = 1 then some (some [0], { s with last := .input })
  else if ¬ s.file.flags.read then some (none, s)
  else
    let line := takeLine (n.toNat - 1) s.file.rest
    let file := { s.file with pos := s.file.pos + line.length }
    if line = [] then some (none, ⟨file, .eof⟩)
    else some (some (line ++ [0]), ⟨file, if line.getLast? = some 10 ∨ line.length = n.toNat - 1 then .input else .eof⟩)

/-- **A line without a line feed** is all that there is, when it fits. -/
theorem takeLine_eq {n : Nat} {l : List UInt8} (h : 10 ∉ l) (hn : l.length ≤ n) : takeLine n l = l := by
  induction l generalizing n with
  | nil => cases n <;> rfl
  | cons c cs ih =>
    obtain ⟨n, rfl⟩ := Nat.exists_eq_add_of_lt (Nat.lt_of_lt_of_le (Nat.succ_pos _) hn)
    rw [List.mem_cons, not_or] at h
    rw [Nat.zero_add, List.length_cons] at hn
    rw [Nat.zero_add, takeLine, if_neg (Ne.symm h.1), ih h.2 (by omega)]

/-- Nothing is there, or no room for an octet. -/
theorem fgets_nothing {s : Stream} {n : Int} (hin : ¬ (s.update = true ∧ s.last = .output))
    (h : s.file.avail = [] ∨ n ≤ 1) :
    ∃ o s', s.fgets n = some (o, s') ∧ (o = none ∨ o = some [0] ∧ n = 1) ∧ s'.file = s.file := by
  rw [fgets, if_neg hin]
  by_cases hneg : n ≤ 0
  · rw [if_pos hneg]
    exact ⟨_, _, rfl, Or.inl rfl, rfl⟩
  · rw [if_neg hneg]
    by_cases hone : n = 1
    · rw [if_pos hone]
      exact ⟨_, _, rfl, Or.inr ⟨rfl, hone⟩, rfl⟩
    · rw [if_neg hone]
      have havail := h.resolve_right (by omega)
      rw [Posix.File.avail] at havail
      by_cases hread : s.file.flags.read = true
      · rw [if_pos hread] at havail
        have hline : takeLine (n.toNat - 1) s.file.rest = [] := by
          rw [havail]
          cases n.toNat - 1 <;> rfl
        rw [if_neg (not_not.mpr hread)]
        simp only [hline, if_true]
        exact ⟨_, _, rfl, Or.inl rfl, rfl⟩
      · rw [if_pos hread]
        exact ⟨_, _, rfl, Or.inl rfl, rfl⟩

/-- **All that is left**, without a line feed, when there is room for it. -/
theorem fgets_all {s : Stream} {n : Int} (hin : ¬ (s.update = true ∧ s.last = .output))
    (hread : s.file.flags.read = true) (hne : s.file.rest ≠ []) (hline : 10 ∉ s.file.rest)
    (hlen : (s.file.rest.length : Int) < n) :
    ∃ s', s.fgets n = some (some (s.file.rest ++ [0]), s') ∧ s'.file = s.file.advance s.file.rest.length := by
  have hpos := List.length_pos_iff.mpr hne
  have htake : takeLine (n.toNat - 1) s.file.rest = s.file.rest := takeLine_eq hline (by omega)
  rw [fgets, if_neg hin, if_neg (by omega), if_neg (by omega), if_neg (not_not.mpr hread)]
  simp only [htake, if_neg hne]
  exact ⟨_, rfl, rfl⟩

theorem fseek_eq {s : Stream} {offset p : Int} {whence : Posix.Whence} {f : Posix.File}
    (h : s.file.lseek offset whence = (p, f)) (hp : 0 ≤ p) : s.fseek offset whence = (0, ⟨f, .none⟩) := by
  rw [fseek, h, if_neg (Int.not_lt.mpr hp)]

theorem fseek_fail {s : Stream} {offset : Int} {whence : Posix.Whence} {f : Posix.File}
    (h : s.file.lseek offset whence = (-1, f)) : s.fseek offset whence = (-1, s) := by
  rw [fseek, h]
  rfl

end Stream

end Stdio

end Wow
