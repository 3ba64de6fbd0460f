import Wow.Base.Hfile

/-!
# Wow.Base.HfileSame — when the two backends do the same

* `readLoop_eq`, `writeLoop_eq`: the loops read and write as one call does.
* `Same`: the state of the two backends with one file.
* `Ok`: the condition of a call; `Same.step`: a call that meets it does the same with both.
* `hfile_same`: every sequence of calls.
-/

namespace Wow.Hfile

open Posix Stdio FileOctets

/-! ### The loops -/

/-- What is taken, in two parts. -/
theorem take_parts {m n : Nat} (h : m ≤ n) (l : List UInt8) :
    l.take n = l.take m ++ (l.drop (l.take m).length).take (n - (l.take m).length) := by
  by_cases hm : m ≤ l.length
  · obtain ⟨k, rfl⟩ := Nat.exists_eq_add_of_le h
    rw [List.length_take_of_le hm, Nat.add_sub_cancel_left, List.take_add]
  · rw [List.take_of_length_le (show l.length ≤ m by omega), List.drop_length, List.take_nil, List.append_nil,
      List.take_of_length_le (by omega)]

section Loops

variable {σ : Type} {file : σ → File} {Good : σ → Prop}

/-- A turn of reading, as one of the file. -/
def ReadTurn (file : σ → File) (Good : σ → Prop) (turn : σ → Nat → Option ((List UInt8 × Bool) × σ)) : Prop :=
  ∀ s n, Good s → ∃ fin s', turn s n = some (((file s).avail.take n, fin), s') ∧
    file s' = (file s).advance ((file s).avail.take n).length ∧ Good s'

/-- A turn of writing. -/
def WriteTurn (file : σ → File) (Good : σ → Prop) (turn : σ → List UInt8 → Option (Nat × σ)) : Prop :=
  ∀ s xs, Good s → ∃ s', turn s xs = some (((file s).write xs).1.getD 0, s') ∧ file s' = ((file s).write xs).2 ∧ Good s'

variable {turn : σ → Nat → Option ((List UInt8 × Bool) × σ)} {wturn : σ → List UInt8 → Option (Nat × σ)}

/-- Where nothing is left nothing is read. -/
theorem readLoop_nil (hturn : ReadTurn file Good turn) (fuel left step cnt : Nat) {s : σ} (hs : Good s)
    (hnil : (file s).avail = []) :
    ∃ s', readLoop turn fuel s left step cnt = some ([], s') ∧ file s' = file s ∧ Good s' := by
  induction fuel generalizing s step cnt with
  | zero => exact ⟨s, rfl, rfl, hs⟩
  | succ fuel ih =>
    rw [readLoop]
    by_cases hleft : left = 0
    · rw [if_pos hleft]
      exact ⟨s, rfl, rfl, hs⟩
    · obtain ⟨fin, s', hread, hfile, hgood⟩ := hturn s (min left step) hs
      rw [hnil, List.take_nil] at hread hfile
      have hsame : file s' = file s := hfile
      rw [if_neg hleft, hread, Option.bind_some]
      simp only [List.length_nil, Nat.lt_irrefl, if_false]
      by_cases hfin : fin = true ∨ MAX_RETRY_CNT < cnt + 1
      · rw [if_pos hfin]
        exact ⟨s', rfl, hsame, hgood⟩
      · rw [if_neg hfin]
        obtain ⟨s'', hloop, hfile', hgood'⟩ := ih (min left step) (cnt + 1) hgood (hsame ▸ hnil)
        exact ⟨s'', hloop, hfile'.trans hsame, hgood'⟩

/-- **The loop of reading** reads what there is. -/
theorem readLoop_eq (hturn : ReadTurn file Good turn) (fuel left step cnt : Nat) {s : σ} (hs : Good s)
    (hstep : 0 < step) (hfuel : left ≤ fuel) :
    ∃ s', readLoop turn fuel s left step cnt = some ((file s).avail.take left, s') ∧
      file s' = (file s).advance ((file s).avail.take left).length ∧ Good s' := by
  induction fuel generalizing s left step with
  | zero =>
    obtain rfl := Nat.le_zero.mp hfuel
    exact ⟨s, rfl, rfl, hs⟩
  | succ fuel ih =>
    by_cases hleft : left = 0
    · rw [readLoop, if_pos hleft, hleft]
      exact ⟨s, rfl, rfl, hs⟩
    · by_cases hnil : (file s).avail = []
      · obtain ⟨s', hloop, hfile, hgood⟩ := readLoop_nil hturn (fuel + 1) left step cnt hs hnil
        rw [hloop, hnil, List.take_nil]
        exact ⟨s', rfl, hfile, hgood⟩
      · obtain ⟨fin, s', hread, hfile, hgood⟩ := hturn s (min left step) hs
        have hmin : 0 < min left step := Nat.lt_min.mpr ⟨Nat.pos_of_ne_zero hleft, hstep⟩
        have hpos : 0 < ((file s).avail.take (min left step)).length := by
          rw [List.length_take]
          exact Nat.lt_min.mpr ⟨hmin, List.length_pos_iff.mpr hnil⟩
        obtain ⟨s'', hloop, hfile', hgood'⟩ := ih (left - ((file s).avail.take (min left step)).length)
          (min left step) hgood hmin (by omega)
        have hsplit := take_parts (Nat.min_le_left left step) (file s).avail
        rw [hfile, File.avail_advance] at hloop hfile'
        rw [readLoop, if_neg hleft, hread, Option.bind_some, if_pos (by omega)]
        refine ⟨s'', ?_, ?_, hgood'⟩
        · simp only [hloop, Option.map_some]
          rw [← hsplit]
        · rw [hfile', hsplit, List.length_append]
          simp only [File.advance, Nat.add_assoc]

/-- Nothing is left to be written. -/
theorem writeLoop_nil (fuel : Nat) (s : σ) (step : Nat) : writeLoop wturn fuel s [] step = some (0, s) := by
  cases fuel <;> rfl

/-- **The loop of writing** writes all. -/
theorem writeLoop_eq (hturn : WriteTurn file Good wturn) (fuel : Nat) (data : List UInt8) (step : Nat) {s : σ}
    (hs : Good s) (hstep : 0 < step) (hfuel : data.length ≤ fuel) (hdata : 0 < data.length)
    (hwrite : (file s).flags.write = true) (hlt : (file s).place + data.length < 2 ^ 63) :
    ∃ s', writeLoop wturn fuel s data step = some (0, s') ∧ file s' = (file s).put data ∧ Good s' := by
  induction fuel generalizing s data step with
  | zero => omega
  | succ fuel ih =>
    have hlen : (data.take (min data.length step)).length = min data.length step :=
      List.length_take_of_le (Nat.min_le_left _ _)
    obtain ⟨s', hput, hfile, hgood⟩ := hturn s (data.take (min data.length step)) hs
    rw [File.write_eq hwrite (by omega)] at hput hfile
    rw [writeLoop, if_neg (by omega), hput, Option.bind_some]
    simp only [Option.getD_some, hlen]
    rw [if_pos (by omega)]
    have hparts : data.take (min data.length step) ++ data.drop (min data.length step) = data :=
      List.take_append_drop _ _
    by_cases hrest : 0 < (data.drop (min data.length step)).length
    · have hplace : (file s').place = (file s).place + min data.length step := by
        rw [hfile, File.place_put, hlen]
      rw [List.length_drop] at hrest
      obtain ⟨s'', hloop, hfile', hgood'⟩ := ih (data.drop (min data.length step)) (min data.length step)
        hgood (by omega) (by rw [List.length_drop]; omega) (by rw [List.length_drop]; omega)
        (by rw [hfile]; exact hwrite) (by rw [hplace, List.length_drop]; omega)
      exact ⟨s'', hloop, by rw [hfile', hfile, File.put_put, hparts], hgood'⟩
    · have hnil := List.length_eq_zero_iff.mp (Nat.eq_zero_of_not_pos hrest)
      rw [hnil, List.append_nil] at hparts
      rw [hnil, writeLoop_nil]
      exact ⟨s', rfl, by rw [hfile, hparts], hgood⟩

/-- **A file that is not open for writing** takes nothing. -/
theorem writeLoop_refused (hturn : WriteTurn file Good wturn) (fuel : Nat) (data : List UInt8) (step : Nat) {s : σ}
    (hs : Good s) (hwrite : ¬ (file s).flags.write = true) :
    ∃ s', writeLoop wturn fuel s data step = some (data.length, s') ∧ file s' = file s ∧ Good s' := by
  cases fuel with
  | zero => exact ⟨s, rfl, rfl, hs⟩
  | succ fuel =>
    rw [writeLoop]
    by_cases hdata : data.length = 0
    · rw [if_pos hdata, hdata]
      exact ⟨s, rfl, rfl, hs⟩
    · obtain ⟨s', hput, hfile, hgood⟩ := hturn s (data.take (min data.length step)) hs
      rw [File.write_refused hwrite] at hput hfile
      rw [if_neg hdata, hput, Option.bind_some]
      exact ⟨s', rfl, hfile, hgood⟩

end Loops

/-! ### The turns -/

theorem io_readTurn : ReadTurn id (fun _ => True) ioReadTurn := by
  intro f n _
  obtain ⟨hread, hfile⟩ := f.read_eq n
  exact ⟨true, _, by rw [ioReadTurn, hread]; rfl, hfile, trivial⟩

theorem io_writeTurn : WriteTurn id (fun _ => True) ioWriteTurn := fun _ _ _ => ⟨_, rfl, rfl, trivial⟩

/-- An input is defined. -/
def InputOk (s : Stream) : Prop := ¬ (s.update = true ∧ s.last = .output)

/-- An output is defined. -/
def OutputOk (s : Stream) : Prop := ¬ (s.update = true ∧ s.last = .input)

theorem fio_readTurn : ReadTurn Stream.file InputOk fioReadTurn := by
  intro s n hs
  obtain ⟨hread, hfile⟩ := s.file.read_eq n
  rw [fioReadTurn, Stream.fread, if_neg hs]
  cases hr : (s.file.read n).1 with
  | none =>
    rw [hr, Option.getD_none] at hread
    rw [← hread]
    exact ⟨_, s, rfl, rfl, hs⟩
  | some xs =>
    rw [hr, Option.getD_some] at hread
    rw [← hread] at hfile ⊢
    refine ⟨_, _, rfl, hfile, fun h => ?_⟩
    have hlast : (if xs.length < n then Last.eof else Last.input) = Last.output := h.2
    split at hlast <;> cases hlast

theorem fio_writeTurn : WriteTurn Stream.file OutputOk Stream.fwrite := by
  intro s xs hs
  rw [Stream.fwrite, if_neg hs]
  cases hw : (s.file.write xs).1 with
  | none =>
    have hsame : (s.file.write xs).2 = s.file := by
      rw [File.write] at hw ⊢
      split at hw
      · cases hw
      · rw [if_neg ‹_›]
    exact ⟨s, rfl, hsame.symm, hs⟩
  | some n => exact ⟨_, rfl, rfl, fun h => Last.noConfusion h.2⟩

/-! ### One file -/

/-- **The same file** behind the two backends. -/
structure Same (mode : FileOpenMode) (d : FileDesc) (s : Stream) : Prop where
  fd : 0 < d.fd
  opened : d.file.flags = ioFlags mode
  opened' : s.file.flags = fioFlags mode
  octets : d.file.octets = s.file.octets
  pos : d.file.pos = s.file.pos
  octets_lt : s.file.octets.length < 2 ^ 63
  pos_lt : s.file.pos < 2 ^ 63

/-- The same value, and the same octets in as much of the buffer as it says. -/
def Alike (r r' : Result) : Prop := r.1 = r'.1 ∧ r.2.take r.1.toNat = r'.2.take r.1.toNat

/-- A line stays in its buffer. -/
def Within (r : Result) : Call → Prop
  | .readLine n => r.2.length ≤ n
  | _ => True

/-- A line that both read: nothing; or, where `FILE_IO` cannot read, no room for an octet; or all that is left, without
an octet that ends a line or a string, in front of the last octet of the buffer. -/
def LineOk (charSigned : Bool) (mode : FileOpenMode) (rest : List UInt8) (n : Nat) : Prop :=
  rest = [] ∨ if mode = .wrclear then asInt n ≤ 1
    else 10 ∉ rest ∧ 0 ∉ rest ∧ (charSigned = true → 255 ∉ rest) ∧ (rest.length : Int) < asInt n

/-- A position that both seek: one that is the offset itself, or none and an offset other than -1. -/
def SeekOk (f : File) (offset : Int) (whence : Whence) : Prop :=
  (f.target offset whence).elim (offset ≠ -1) fun p => if 0 ≤ p ∧ p < 2 ^ 63 then p = offset else offset ≠ -1

/-- **The condition of a call**, by the mode and the state of the stream. -/
def Ok (charSigned : Bool) (mode : FileOpenMode) (s : Stream) : Call → Prop
  | .write data => 0 < data.length → mode ≠ .rdonly → OutputOk s ∧
      (mode = .create → s.file.pos = s.file.octets.length) ∧ s.file.place + data.length < 2 ^ 63
  | .seek snOffset nWhence => SeekOk s.file (asLong snOffset) nWhence
  | .read n => 0 < n → mode ≠ .wronly → InputOk s ∧ (mode = .wrclear → s.file.rest = [])
  | .readLine n => 0 < n → mode ≠ .wronly → InputOk s ∧ LineOk charSigned mode s.file.rest n
  | .size => True

variable {mode : FileOpenMode} {d : FileDesc} {s : Stream} {charSigned : Bool}

theorem Same.rest (h : Same mode d s) : d.file.rest = s.file.rest := by
  rw [File.rest, File.rest, h.octets, h.pos]

/-- What can be read is the same, but for the mode in which only a stream is open for it. -/
theorem Same.avail (h : Same mode d s) (hrest : mode = .wrclear → s.file.rest = []) :
    d.file.avail = s.file.avail := by
  rw [File.avail, File.avail, h.rest, h.opened, h.opened']
  cases mode with
  | wrclear => rw [hrest rfl, ite_self, ite_self]
  | _ => rfl

/-- Another stream on the same file. -/
theorem Same.of_file (h : Same mode d s) {s' : Stream} (hfile : s'.file = s.file) : Same mode d s' :=
  ⟨h.fd, h.opened, hfile ▸ h.opened', hfile ▸ h.octets, hfile ▸ h.pos, hfile ▸ h.octets_lt, hfile ▸ h.pos_lt⟩

/-- An offset moved behind what is read. -/
theorem Same.advance (h : Same mode d s) {s' : Stream} {n : Nat} (hn : n ≤ s.file.rest.length)
    (hfile : s'.file = s.file.advance n) : Same mode { d with file := d.file.advance n } s' where
  fd := h.fd
  opened := h.opened
  opened' := hfile ▸ h.opened'
  octets := hfile ▸ h.octets
  pos := by
    rw [hfile]
    exact congrArg (· + n) h.pos
  octets_lt := hfile ▸ h.octets_lt
  pos_lt := by
    have hlen := h.octets_lt
    have hpos := h.pos_lt
    rw [File.rest, List.length_drop] at hn
    rw [hfile]
    show s.file.pos + n < 2 ^ 63
    omega

/-- **A read.** -/
theorem Same.read (h : Same mode d s) {n : Nat} (hin : InputOk s) (hrest : mode = .wrclear → s.file.rest = []) :
    ∃ r d' s', ioRead d n = some (r, d') ∧ fioRead s n = some (r, s') ∧ Same mode d' s' := by
  obtain ⟨f', hio, hfile, -⟩ := readLoop_eq io_readTurn (n + MAX_RETRY_CNT) n STEP 0 (s := d.file)
    trivial (by decide) (Nat.le_add_right _ _)
  obtain ⟨s', hfio, hfile', -⟩ := readLoop_eq fio_readTurn (n + MAX_RETRY_CNT) n STEP 0
    hin (by decide) (Nat.le_add_right _ _)
  have havail : (id d.file).avail = s.file.avail := h.avail hrest
  rw [havail] at hio hfile
  have hle : (s.file.avail.take n).length ≤ s.file.rest.length :=
    Nat.le_trans (List.length_take_le' _ _) (File.length_avail_le _)
  obtain rfl : f' = d.file.advance (s.file.avail.take n).length := hfile
  have hsame := h.advance hle hfile'
  refine ⟨((s.file.avail.take n).length, s.file.avail.take n), _, s', ?_, ?_, hsame⟩
  · rw [ioRead, if_pos h.fd, hio]
    rfl
  · rw [fioRead, hfio]
    rfl

/-- A write to a file that is open for reading only. -/
theorem Same.write_refused (h : Same mode d s) (data : List UInt8) (hmode : mode = .rdonly) :
    ∃ r d' s', ioWrite d data = some (r, d') ∧ fioWrite s data = some (r, s') ∧ Same mode d' s' := by
  have hio : ¬ (id d.file).flags.write = true := by
    rw [id, h.opened, hmode]
    exact Bool.false_ne_true
  have hfio : ¬ s.file.flags.write = true := by
    rw [h.opened', hmode]
    exact Bool.false_ne_true
  have hout : OutputOk s := fun hup => hfio ((Bool.and_eq_true _ _).mp hup.1).2
  obtain ⟨f', hloop, hfile, -⟩ := writeLoop_refused io_writeTurn data.length data STEP (s := d.file) trivial hio
  obtain ⟨s', hloop', hfile', -⟩ := writeLoop_refused fio_writeTurn data.length data STEP hout hfio
  obtain rfl : f' = d.file := hfile
  rw [ioWrite, if_pos h.fd, fioWrite, hloop, hloop']
  exact ⟨_, d, s', rfl, rfl, h.of_file hfile'⟩

/-- **A write.** -/
theorem Same.write (h : Same mode d s) {data : List UInt8} (hdata : 0 < data.length)
    (hok : mode ≠ .rdonly → OutputOk s ∧ (mode = .create → s.file.pos = s.file.octets.length) ∧
      s.file.place + data.length < 2 ^ 63) :
    ∃ r d' s', ioWrite d data = some (r, d') ∧ fioWrite s data = some (r, s') ∧ Same mode d' s' := by
  by_cases hmode : mode = .rdonly
  · exact h.write_refused data hmode
  · obtain ⟨hout, hend, hlt⟩ := hok hmode
    have hplace : d.file.place = s.file.place := by
      rw [File.place, File.place, h.opened, h.opened', h.octets, h.pos]
      cases mode with
      | create => rw [hend rfl, ite_self, ite_self]
      | _ => rfl
    have hio : (id d.file).flags.write = true := by
      rw [id, h.opened]
      cases mode <;> first | rfl | exact absurd rfl hmode
    have hfio : s.file.flags.write = true := by
      rw [h.opened']
      cases mode <;> first | rfl | exact absurd rfl hmode
    obtain ⟨f', hloop, hfile, -⟩ := writeLoop_eq io_writeTurn data.length data STEP
      (s := d.file) trivial (by decide) (Nat.le_refl _) hdata hio (by rw [id, hplace]; exact hlt)
    obtain ⟨s', hloop', hfile', -⟩ := writeLoop_eq fio_writeTurn data.length data STEP hout
      (by decide) (Nat.le_refl _) hdata hfio hlt
    obtain rfl : f' = d.file.put data := hfile
    rw [ioWrite, if_pos h.fd, fioWrite, hloop, hloop']
    refine ⟨_, ⟨d.fd, d.file.put data⟩, s', rfl, rfl, h.fd, h.opened, ?_, ?_, ?_, ?_, ?_⟩
    · rw [hfile']
      exact h.opened'
    · rw [hfile', File.put, File.put, h.octets, hplace]
    · rw [hfile', File.put, File.put, hplace]
    · have hold := h.octets_lt
      rw [hfile', File.put, length_pwrite]
      omega
    · rw [hfile', File.put]
      exact hlt

/-- **A change of the position.** -/
theorem Same.seek (h : Same mode d s) {offset : Int} {whence : Whence} (hok : SeekOk s.file offset whence) :
    ∃ r d' s', ioSeek d offset whence = some (r, d') ∧ fioSeek s offset whence = some (r, s') ∧ Same mode d' s' := by
  have htarget : d.file.target offset whence = s.file.target offset whence := by
    cases whence <;> simp only [File.target, h.octets, h.pos]
  rw [SeekOk] at hok
  -- no such position
  have hfail : (s.file.target offset whence).elim True (fun p => ¬ (0 ≤ p ∧ p < 2 ^ 63)) → offset ≠ -1 →
      ∃ r d' s', ioSeek d offset whence = some (r, d') ∧ fioSeek s offset whence = some (r, s') ∧ Same mode d' s' := by
    intro hnone hne
    have hio : d.file.lseek offset whence = (-1, d.file) := File.lseek_fail (by rw [htarget]; exact hnone)
    rw [ioSeek, if_pos h.fd, hio, if_neg hne.symm, fioSeek, Stream.fseek_fail (File.lseek_fail hnone)]
    exact ⟨_, d, s, rfl, rfl, h⟩
  cases hp : s.file.target offset whence with
  | none =>
    rw [hp, Option.elim_none] at hok
    exact hfail (by rw [hp]; trivial) hok
  | some p =>
    rw [hp, Option.elim_some] at hok
    by_cases hin : 0 ≤ p ∧ p < 2 ^ 63
    · rw [if_pos hin] at hok
      rw [ioSeek, if_pos h.fd, File.lseek_eq (htarget.trans hp) hin, if_pos hok, fioSeek,
        Stream.fseek_eq (File.lseek_eq hp hin) hin.1]
      exact ⟨_, _, _, rfl, rfl, h.fd, h.opened, h.opened', h.octets, rfl, h.octets_lt, show p.toNat < 2 ^ 63 by omega⟩
    · rw [if_neg hin] at hok
      exact hfail (by rw [hp]; exact hin) hok

/-- **The size**: the stream goes to the end and back. -/
theorem Same.size (h : Same mode d s) :
    ∃ r d' s', ioSize d = some (r, d') ∧ fioSize s = some (r, s') ∧ Same mode d' s' := by
  have hlen := h.octets_lt
  have hpos := h.pos_lt
  have hend : s.fseek 0 .end_ = (0, ⟨{ s.file with pos := s.file.octets.length }, .none⟩) := by
    have htarget : s.file.target 0 .end_ = some (s.file.octets.length : Int) := congrArg some (Int.add_zero _)
    exact Stream.fseek_eq (File.lseek_eq htarget ⟨by omega, by omega⟩) (by omega)
  have hback :
      Stream.fseek ⟨{ s.file with pos := s.file.octets.length }, .none⟩ s.ftell .set = (0, ⟨s.file, .none⟩) := by
    have hin : (0 : Int) ≤ s.file.pos ∧ (s.file.pos : Int) < 2 ^ 63 := by omega
    exact Stream.fseek_eq (File.lseek_eq rfl hin) hin.1
  rw [ioSize, fioSize, h.octets]
  simp only [hend, hback]
  exact ⟨_, d, _, rfl, rfl, h.of_file rfl⟩

/-! ### A line -/

/-- The loop over all that is left. -/
theorem ioLineLoop_all (len : Nat) (cs : List UInt8) (fuel reads : Nat) {f : File} {ch : UInt8}
    (hread : f.flags.read = true) (hrest : f.rest = cs)
    (hend : ∀ c ∈ ch :: cs, ¬ (c = 10 ∨ charSigned = true ∧ c = 255)) (hlen : reads + (cs.length + 1) < len)
    (hfuel : cs.length < fuel) :
    ioLineLoop charSigned len fuel f ch reads = (ch :: cs, f.advance cs.length) := by
  induction cs generalizing f ch reads fuel with
  | nil =>
    cases fuel with
    | zero => exact absurd hfuel (Nat.not_lt_zero _)
    | succ fuel =>
      obtain ⟨hnext, hfile⟩ := f.read_eq 1
      rw [File.avail, if_pos hread, hrest, List.take_nil] at hnext hfile
      rw [ioLineLoop, if_neg (hend ch (List.mem_cons_self ..)), if_neg (by rw [List.length_nil] at hlen; omega)]
      simp only [hnext, hfile]
  | cons c cs ih =>
    cases fuel with
    | zero => exact absurd hfuel (Nat.not_lt_zero _)
    | succ fuel =>
      obtain ⟨hnext, hfile⟩ := f.read_eq 1
      rw [File.avail, if_pos hread, hrest, List.take_succ_cons, List.take_zero] at hnext hfile
      have hone : (f.read 1).2 = f.advance 1 := hfile
      rw [List.length_cons] at hlen hfuel
      have hrest' : (f.advance 1).rest = cs := by
        rw [File.rest, File.advance, ← List.drop_drop, ← File.rest, hrest, List.drop_one, List.tail_cons]
      have hloop := ih fuel (reads + 1) (f := f.advance 1) hread hrest'
        (fun c' hc' => hend c' (List.mem_cons_of_mem _ hc')) (by omega) (by omega)
      rw [ioLineLoop, if_neg (hend ch (List.mem_cons_self ..)), if_neg (by omega)]
      simp only [hnext, hone, hloop, List.length_cons]
      simp only [File.advance, Nat.add_assoc, Nat.add_comm cs.length 1]

/-- `FILE_IO` reads nothing. -/
theorem ioReadLine_nothing (hfd : 0 < d.fd) (h : d.file.avail = []) (n : Nat) :
    ioReadLine charSigned d n = some ((0, []), d) := by
  obtain ⟨hnext, hfile⟩ := d.file.read_eq 1
  rw [h, List.take_nil] at hnext hfile
  rw [ioReadLine, if_pos hfd]
  simp only [hnext, hfile]
  rfl

/-- `FILE_IO` reads all that is left. -/
theorem ioReadLine_all (hfd : 0 < d.fd) (hread : d.file.flags.read = true) {n : Nat} (hne : d.file.rest ≠ [])
    (hend : ∀ c ∈ d.file.rest, ¬ (c = 10 ∨ charSigned = true ∧ c = 255)) (hlen : d.file.rest.length < n) :
    ioReadLine charSigned d n = some (((d.file.rest.length : Int), d.file.rest ++ [0]),
      { d with file := d.file.advance d.file.rest.length }) := by
  obtain ⟨ch, cs, hrest⟩ := List.exists_cons_of_ne_nil hne
  obtain ⟨hnext, hfile⟩ := d.file.read_eq 1
  rw [File.avail, if_pos hread, hrest, List.take_succ_cons, List.take_zero] at hnext hfile
  have hrest' : (d.file.advance 1).rest = cs := by
    rw [File.rest, File.advance, ← List.drop_drop, ← File.rest, hrest, List.drop_one, List.tail_cons]
  have hone : (d.file.read 1).2 = d.file.advance 1 := hfile
  rw [hrest] at hend hlen
  rw [List.length_cons] at hlen
  have hloop := ioLineLoop_all n cs n 0 (f := d.file.advance 1) hread hrest' hend (by omega)
    (by omega)
  rw [ioReadLine, if_pos hfd]
  simp only [hnext, hone, hloop, hrest, List.length_cons]
  simp only [File.advance, Nat.add_assoc, Nat.add_comm cs.length 1]

theorem asInt_le (n : Nat) : asInt n ≤ n := by
  by_cases hn : n < 2 ^ 31
  · rw [asInt_of_lt (by omega) (by omega)]
  · have := asInt_lt n
    omega

/-- A line of which both read nothing. -/
theorem Same.readLine_nothing (h : Same mode d s) {n : Nat} (hn : 0 < n) (hio : d.file.avail = []) (hin : InputOk s)
    (hfio : s.file.avail = [] ∨ asInt n ≤ 1) :
    ∃ r r' d' s', ioReadLine charSigned d n = some (r, d') ∧ fioReadLine s n = some (r', s') ∧
      Alike (returned r) (returned r') ∧
      r.2.length ≤ n ∧ r'.2.length ≤ n ∧ Same mode d' s' := by
  obtain ⟨o, s', hgets, ho, hfile⟩ := Stream.fgets_nothing hin hfio
  rw [ioReadLine_nothing h.fd hio, fioReadLine, hgets]
  have hsame : Same mode d s' := h.of_file hfile
  rcases ho with rfl | ⟨rfl, -⟩
  · exact ⟨_, _, d, s', rfl, rfl, ⟨rfl, rfl⟩, Nat.zero_le _, Nat.zero_le _, hsame⟩
  · exact ⟨_, _, d, s', rfl, rfl, ⟨rfl, rfl⟩, Nat.zero_le _, hn, hsame⟩

/-- A line of which both read all that is left. -/
theorem Same.readLine_all (h : Same mode d s) {n : Nat} (hio : d.file.flags.read = true)
    (hfio : s.file.flags.read = true) (hin : InputOk s) (hnil : s.file.rest ≠ []) (hten : 10 ∉ s.file.rest)
    (hzero : 0 ∉ s.file.rest) (hsigned : charSigned = true → 255 ∉ s.file.rest)
    (hlen : (s.file.rest.length : Int) < asInt n) :
    ∃ r r' d' s', ioReadLine charSigned d n = some (r, d') ∧ fioReadLine s n = some (r', s') ∧
      Alike (returned r) (returned r') ∧
      r.2.length ≤ n ∧ r'.2.length ≤ n ∧ Same mode d' s' := by
  have hlt : s.file.rest.length < n := by
    have := asInt_le n
    omega
  have hend : ∀ c ∈ d.file.rest, ¬ (c = 10 ∨ charSigned = true ∧ c = 255) := by
    rw [h.rest]
    rintro c hc (rfl | ⟨hs, rfl⟩)
    · exact hten hc
    · exact hsigned hs hc
  have hioLine := ioReadLine_all h.fd hio (h.rest ▸ hnil) hend (h.rest ▸ hlt)
  obtain ⟨s', hgets, hfile⟩ := Stream.fgets_all hin hfio hnil hten hlen
  rw [h.rest] at hioLine
  rw [hioLine, fioReadLine, hgets]
  have hfit : (s.file.rest ++ [0]).length ≤ n := by
    rw [List.length_append, List.length_singleton]
    exact hlt
  refine ⟨_, (((strlen (s.file.rest ++ [0]) : Nat) : Int), s.file.rest ++ [0]), _, s', rfl, rfl, ?_, hfit, hfit,
    h.advance (Nat.le_refl _) hfile⟩
  rw [strlen_append hzero]
  exact ⟨rfl, rfl⟩

/-- **A line.** -/
theorem Same.readLine (h : Same mode d s) {n : Nat} (hn : 0 < n)
    (hok : mode ≠ .wronly → InputOk s ∧ LineOk charSigned mode s.file.rest n) :
    ∃ r r' d' s', ioReadLine charSigned d n = some (r, d') ∧ fioReadLine s n = some (r', s') ∧
      Alike (returned r) (returned r') ∧
      r.2.length ≤ n ∧ r'.2.length ≤ n ∧ Same mode d' s' := by
  have hunread : ¬ (ioFlags mode).read = true → d.file.avail = [] := fun hread => by
    rw [File.avail, h.opened, if_neg hread]
  by_cases hwronly : mode = .wronly
  · have hclosed : ¬ s.file.flags.read = true := by
      rw [h.opened', hwronly]
      exact Bool.false_ne_true
    refine h.readLine_nothing hn (hunread (by rw [hwronly]; exact Bool.false_ne_true)) ?_ (Or.inl ?_)
    · exact fun hup => hclosed ((Bool.and_eq_true _ _).mp hup.1).1
    · rw [File.avail, if_neg hclosed]
  · obtain ⟨hin, hline⟩ := hok hwronly
    by_cases hnil : s.file.rest = []
    · have hempty : ∀ f : File, f.rest = [] → f.avail = [] := by
        intro f hf
        rw [File.avail, hf, ite_self]
      exact h.readLine_nothing hn (hempty _ (h.rest.trans hnil)) hin (Or.inl (hempty _ hnil))
    · replace hline := hline.resolve_left hnil
      by_cases hclear : mode = .wrclear
      · rw [if_pos hclear] at hline
        exact h.readLine_nothing hn (hunread (by rw [hclear]; exact Bool.false_ne_true)) hin (Or.inr hline)
      · rw [if_neg hclear] at hline
        obtain ⟨hten, hzero, hsigned, hlen⟩ := hline
        have hio : d.file.flags.read = true := by
          rw [h.opened]
          cases mode <;> first | rfl | exact absurd rfl hclear | exact absurd rfl hwronly
        have hfio : s.file.flags.read = true := by
          rw [h.opened']
          cases mode <;> first | rfl | exact absurd rfl hclear | exact absurd rfl hwronly
        exact h.readLine_all hio hfio hin hnil hten hzero hsigned hlen

/-! ### All calls -/

/-- **A call** that meets the condition. -/
theorem Same.step (h : Same mode d s) {c : Call} (hok : Ok charSigned mode s c) :
    ∃ r d' r' s', operate (ioOps charSigned) d c = some (r, d') ∧ operate fioOps s c = some (r', s') ∧
      Alike (returned r) (returned r') ∧ Within r c ∧ Within r' c ∧ Same mode d' s' := by
  cases c with
  | write data =>
    rw [operate, operate]
    by_cases hdata : 0 < data.length
    · obtain ⟨r, d', s', hio, hfio, hsame⟩ := h.write hdata (hok hdata)
      rw [if_pos hdata, if_pos hdata]
      exact ⟨r, d', r, s', hio, hfio, ⟨rfl, rfl⟩, trivial, trivial, hsame⟩
    · rw [if_neg hdata, if_neg hdata]
      exact ⟨_, d, _, s, rfl, rfl, ⟨rfl, rfl⟩, trivial, trivial, h⟩
  | seek snOffset nWhence =>
    obtain ⟨r, d', s', hio, hfio, hsame⟩ := h.seek hok
    exact ⟨r, d', r, s', hio, hfio, ⟨rfl, rfl⟩, trivial, trivial, hsame⟩
  | read n =>
    rw [operate, operate]
    by_cases hn : 0 < n
    · have hread : InputOk s ∧ (mode = .wrclear → s.file.rest = []) := by
        by_cases hwronly : mode = .wronly
        · refine ⟨fun hup => ?_, fun hclear => absurd (hwronly.symm.trans hclear) (by decide)⟩
          rw [Stream.update, h.opened', hwronly] at hup
          exact absurd hup.1 Bool.false_ne_true
        · exact hok hn hwronly
      obtain ⟨r, d', s', hio, hfio, hsame⟩ := h.read hread.1 hread.2
      rw [if_pos hn, if_pos hn]
      exact ⟨r, d', r, s', hio, hfio, ⟨rfl, rfl⟩, trivial, trivial, hsame⟩
    · rw [if_neg hn, if_neg hn]
      exact ⟨_, d, _, s, rfl, rfl, ⟨rfl, rfl⟩, trivial, trivial, h⟩
  | readLine n =>
    rw [operate, operate]
    by_cases hn : 0 < n
    · obtain ⟨r, r', d', s', hio, hfio, halike, hwithin, hwithin', hsame⟩ := h.readLine hn (hok hn)
      rw [if_pos hn, if_pos hn]
      exact ⟨r, d', r', s', hio, hfio, halike, hwithin, hwithin', hsame⟩
    · rw [if_neg hn, if_neg hn]
      exact ⟨_, d, _, s, rfl, rfl, ⟨rfl, rfl⟩, Nat.zero_le _, Nat.zero_le _, h⟩
  | size =>
    obtain ⟨r, d', s', hio, hfio, hsame⟩ := h.size
    exact ⟨r, d', r, s', hio, hfio, ⟨rfl, rfl⟩, trivial, trivial, hsame⟩

/-- **The requirement**: call by call the same values and octets, no line beyond its buffer, and the same file. -/
def Agree (charSigned : Bool) : Option FileDesc → Option Stream → List Call → Prop
  | d, s, [] => d.map (·.file.octets) = s.map (·.file.octets)
  | d, s, c :: cs => d.map (·.file.octets) = s.map (·.file.octets) ∧ ∃ r d' r' s',
      call (ioOps charSigned) d c = some (r, d') ∧ call fioOps s c = some (r', s') ∧ Alike r r' ∧
      Within r c ∧ Within r' c ∧ Agree charSigned d' s' cs

/-- All calls meet the condition. -/
def Meets (charSigned : Bool) (mode : FileOpenMode) : Option Stream → List Call → Prop
  | _, [] => True
  | s, c :: cs => s.elim True (fun s => Ok charSigned mode s c) ∧
      (call fioOps s c).elim True fun r => Meets charSigned mode r.2 cs

instance (charSigned : Bool) (mode : FileOpenMode) (rest : List UInt8) (n : Nat) :
    Decidable (LineOk charSigned mode rest n) := inferInstanceAs (Decidable (_ ∨ _))

instance (f : File) (offset : Int) (whence : Whence) : Decidable (SeekOk f offset whence) :=
  have (o : Option Int) (q : Int → Prop) [DecidablePred q] : Decidable (o.elim (offset ≠ -1) q) :=
    o.casesOn (inferInstanceAs (Decidable (offset ≠ -1))) fun p => inferInstanceAs (Decidable (q p))
  this _ _

instance (s : Stream) : Decidable (InputOk s) := inferInstanceAs (Decidable (¬ _))

instance (s : Stream) : Decidable (OutputOk s) := inferInstanceAs (Decidable (¬ _))

instance (charSigned : Bool) (mode : FileOpenMode) (s : Stream) : (c : Call) → Decidable (Ok charSigned mode s c)
  | .write _ => inferInstanceAs (Decidable (_ → _ → _ ∧ _ ∧ _))
  | .seek _ _ => inferInstanceAs (Decidable (SeekOk _ _ _))
  | .read _ => inferInstanceAs (Decidable (_ → _ → _ ∧ _))
  | .readLine _ => inferInstanceAs (Decidable (_ → _ → _ ∧ _))
  | .size => inferInstanceAs (Decidable True)

instance decidableMeets (charSigned : Bool) (mode : FileOpenMode) :
    (s : Option Stream) → (calls : List Call) → Decidable (Meets charSigned mode s calls)
  | _, [] => inferInstanceAs (Decidable True)
  | s, c :: cs =>
    have _hok : Decidable (s.elim True fun s => Ok charSigned mode s c) :=
      s.casesOn (inferInstanceAs (Decidable True)) fun s => inferInstanceAs (Decidable (Ok charSigned mode s c))
    have (o : Option (Result × Option Stream)) : Decidable (o.elim True fun r => Meets charSigned mode r.2 cs) :=
      o.casesOn (inferInstanceAs (Decidable True)) fun r => decidableMeets charSigned mode r.2 cs
    inferInstanceAs (Decidable (_ ∧ _))

/-- The condition of the opening: a descriptor other than 0, and a file that both modes open and leave as it is. -/
def Opens (mode : FileOpenMode) (fd : Int) (content : Option (List UInt8)) : Prop :=
  0 < fd ∧ (content = none → mode ≠ .wronly ∧ mode ≠ .append) ∧ (mode = .wronly → content = some [])

/-- A file that was not opened. -/
theorem agree_none (calls : List Call) : Agree charSigned none none calls := by
  induction calls with
  | nil => rfl
  | cons c cs ih =>
    refine ⟨rfl, _, none, _, none, rfl, rfl, ⟨rfl, rfl⟩, ?_, ?_, ih⟩ <;> cases c <;>
      first | trivial | exact Nat.zero_le _

theorem Same.agree (h : Same mode d s) {calls : List Call} (hmeets : Meets charSigned mode (some s) calls) :
    Agree charSigned (some d) (some s) calls := by
  have hoctets : (some d).map (·.file.octets) = (some s).map (·.file.octets) := congrArg some h.octets
  induction calls generalizing d s with
  | nil => exact hoctets
  | cons c cs ih =>
    obtain ⟨hok, hrest⟩ := hmeets
    obtain ⟨r, d', r', s', hio, hfio, halike, hwithin, hwithin', hsame⟩ := h.step hok
    have hcall : call (ioOps charSigned) (some d) c = some (returned r, some d') := by
      rw [call, hio, Option.map_some]
    have hcall' : call fioOps (some s) c = some (returned r', some s') := by
      rw [call, hfio, Option.map_some]
    rw [hcall', Option.elim_some] at hrest
    exact ⟨hoctets, _, _, _, _, hcall, hcall', halike, hwithin, hwithin', ih hsame hrest (congrArg some hsame.octets)⟩

/-- A file that has just been opened. -/
theorem same_open {fd : Int} (hfd : 0 < fd) (mode : FileOpenMode) {b : List UInt8} (hlen : b.length < 2 ^ 63) :
    Same mode ⟨fd, ⟨ioFlags mode, b, 0⟩⟩ ⟨⟨fioFlags mode, b, 0⟩, .none⟩ :=
  ⟨hfd, rfl, rfl, rfl, rfl, hlen, Nat.pow_pos (Nat.succ_pos 1)⟩

/-- **Every sequence of calls** that meet the condition does the same with both backends. -/
theorem hfile_same {fd : Int} {content : Option (List UInt8)} {calls : List Call} (hopen : Opens mode fd content)
    (hlen : ∀ b, content = some b → b.length < 2 ^ 63) (h : Meets charSigned mode (fioOpen mode content) calls) :
    Agree charSigned (ioOpen fd mode content) (fioOpen mode content) calls := by
  obtain ⟨hfd, hnone, hempty⟩ := hopen
  have hnil : ([] : List UInt8).length < 2 ^ 63 := by decide
  rw [ioOpen, fioOpen] at *
  cases content with
  | none =>
    obtain ⟨hwronly, happend⟩ := hnone rfl
    cases mode with
    | rdonly | rdwr => exact agree_none calls
    | create | wrclear => exact (same_open hfd _ hnil).agree h
    | wronly => exact absurd rfl hwronly
    | append => exact absurd rfl happend
  | some b =>
    cases mode with
    | wronly =>
      obtain rfl := Option.some.inj (hempty rfl)
      exact (same_open hfd _ hnil).agree h
    | wrclear => exact (same_open hfd _ hnil).agree h
    | _ => exact (same_open hfd _ (hlen b rfl)).agree h

/-- A file of two octets that grows at its end and is read again. -/
theorem hfile_same_demo : Agree true (ioOpen 3 .create (some [97, 98])) (fioOpen .create (some [97, 98]))
    [.size, .seek 2 .set, .write [99, 100], .seek 0 .set, .read 1, .readLine 16, .read 4] :=
  hfile_same ⟨by decide, by decide, by decide⟩ (fun b hb => Option.some.inj hb ▸ by decide) (by decide)

/-- A line is returned without its line feed or with it; a buffer of one octet gets two; a record goes over the first
octets or behind the last one. -/
theorem not_hfile_same :
    (call (ioOps true) (ioOpen 3 .rdwr (some [97, 10])) (.readLine 10)).map (·.1) = some (1, [97, 0]) ∧
    (call fioOps (fioOpen .rdwr (some [97, 10])) (.readLine 10)).map (·.1) = some (2, [97, 10, 0]) ∧
    (call (ioOps true) (ioOpen 3 .rdwr (some [97, 98])) (.readLine 1)).map (·.1) = some (1, [97, 0]) ∧
    ((call (ioOps true) (ioOpen 3 .create (some [97, 98])) (.write [99])).bind (·.2)).map (·.file.octets) =
      some [99, 98] ∧
    ((call fioOps (fioOpen .create (some [97, 98])) (.write [99])).bind (·.2)).map (·.file.octets) =
      some [97, 98, 99] := by
  refine ⟨?_, ?_, ?_, ?_, ?_⟩ <;> decide

end Wow.Hfile
