import Wow.Base.CString
import Wow.Lib.Stdio

/-!
# Wow.Base.Hfile — the two backends of `wow_hfile.c`

`FILE_IO` works with the calls of the system (`io.c`), `FILE_FIO` with streams (`fio.c`).  A result is the value that is
returned with the octets that are written to the caller's buffer.  The loops of reading and of writing are those of both
backends, over one turn of each.
-/

namespace Wow.Hfile

open Posix Stdio

def PARAM_INPUT_STRUCT_IS_NULL : Int := 100
def PARAM_INPUT_ARG_INVALID : Int := 104

def MAX_RETRY_CNT : Nat := 3

/-- The step of the loops, `1024*1024`. -/
def STEP : Nat := 1024 * 1024

/-- `FileOpenMode_E`; other values are taken as the last one. -/
inductive FileOpenMode where
  | rdonly
  | wronly
  | rdwr
  | create
  | wrclear
  | append
deriving DecidableEq

/-- The flags of `io_open`: `O_RDONLY`, `O_WRONLY`, `O_RDWR`, `O_RDWR|O_CREAT`, `O_WRONLY|O_TRUNC|O_CREAT` and
`O_RDWR|O_APPEND`. -/
def ioFlags : FileOpenMode → Flags
  | .rdonly => ⟨true, false, false, false, false⟩
  | .wronly => ⟨false, true, false, false, false⟩
  | .rdwr => ⟨true, true, false, false, false⟩
  | .create => ⟨true, true, false, true, false⟩
  | .wrclear => ⟨false, true, false, true, true⟩
  | .append => ⟨true, true, true, false, false⟩

/-- The modes of `fio_open`: `"r"`, `"w"`, `"r+"`, `"a+"`, `"w+"` and `"a+"`. -/
def fioFlags : FileOpenMode → Flags
  | .rdonly => ⟨true, false, false, false, false⟩
  | .wronly => ⟨false, true, false, true, true⟩
  | .rdwr => ⟨true, true, false, false, false⟩
  | .create => ⟨true, true, true, true, false⟩
  | .wrclear => ⟨true, true, false, true, true⟩
  | .append => ⟨true, true, true, true, false⟩

/-- A returned value, with what is written to the buffer. -/
abbrev Result := Int × List UInt8

/-- A file descriptor with its number. -/
structure FileDesc where
  fd : Int
  file : File

/-! ### The loops -/

section Loops

variable {σ : Type}

/-- The loop of `io_read` and `fio_read`, with one turn as a parameter: what it reads, and whether it is over when that
is nothing. -/
def readLoop (turn : σ → Nat → Option ((List UInt8 × Bool) × σ)) :
    Nat → σ → Nat → Nat → Nat → Option (List UInt8 × σ)
  | 0, s, _, _, _ => some ([], s)
  | fuel + 1, s, left, step, cnt =>
    if left = 0 then some ([], s)
    else (turn s (min left step)).bind fun r =>
      if 0 < r.1.1.length then
        (readLoop turn fuel r.2 (left - r.1.1.length) (min left step) cnt).map fun r' => (r.1.1 ++ r'.1, r'.2)
      else if r.1.2 ∨ MAX_RETRY_CNT < cnt + 1 then some ([], r.2)
      else readLoop turn fuel r.2 left (min left step) (cnt + 1)

/-- The loop of `io_write` and `fio_write`; what is left over. -/
def writeLoop (turn : σ → List UInt8 → Option (Nat × σ)) : Nat → σ → List UInt8 → Nat → Option (Nat × σ)
  | 0, s, data, _ => some (data.length, s)
  | fuel + 1, s, data, step =>
    if data.length = 0 then some (0, s)
    else (turn s (data.take (min data.length step))).bind fun r =>
      if 0 < r.1 then writeLoop turn fuel r.2 (data.drop r.1) (min data.length step)
      else some (data.length, r.2)

end Loops

/-! ### `io.c` -/

/-- `io_open`. -/
def ioOpen (fd : Int) (mode : FileOpenMode) (content : Option (List UInt8)) : Option FileDesc :=
  (File.open_ (ioFlags mode) content).map fun file => ⟨fd, file⟩

/-- A turn of `io_read`; nothing read, or `EBADF`, is the end. -/
def ioReadTurn (f : File) (n : Nat) : Option ((List UInt8 × Bool) × File) :=
  some (((f.read n).1.getD [], true), (f.read n).2)

def ioWriteTurn (f : File) (xs : List UInt8) : Option (Nat × File) := some ((f.write xs).1.getD 0, (f.write xs).2)

/-- `io_read`. -/
def ioRead (d : FileDesc) (len : Nat) : Option (Result × FileDesc) :=
  if 0 < d.fd then
    (readLoop ioReadTurn (len + MAX_RETRY_CNT) d.file len STEP 0).map fun r =>
      ((r.1.length, r.1), { d with file := r.2 })
  else some ((-1, []), d)

/-- The loop of `io_read_line`, with the octet that has been read. -/
def ioLineLoop (charSigned : Bool) (len : Nat) : Nat → File → UInt8 → Nat → List UInt8 × File
  | 0, f, _, _ => ([], f)
  | fuel + 1, f, ch, reads =>
    if ch = 10 ∨ charSigned ∧ ch = 255 then ([], f)
    else if ¬ reads + 1 < len then ([ch], f)
    else match (f.read 1).1.getD [] with
      | ch' :: _ =>
        (ch :: (ioLineLoop charSigned len fuel (f.read 1).2 ch' (reads + 1)).1,
          (ioLineLoop charSigned len fuel (f.read 1).2 ch' (reads + 1)).2)
      | [] => ([ch], (f.read 1).2)

/-- `io_read_line`; `EOF` is an octet where `char` is signed. -/
def ioReadLine (charSigned : Bool) (d : FileDesc) (len : Nat) : Option (Result × FileDesc) :=
  if 0 < d.fd then
    match (d.file.read 1).1.getD [] with
    | ch :: _ =>
      let r := ioLineLoop charSigned len len (d.file.read 1).2 ch 0
      some ((r.1.length, r.1 ++ [0]), { d with file := r.2 })
    | [] => some ((0, []), { d with file := (d.file.read 1).2 })
  else some ((-1, []), d)

/-- `io_write`. -/
def ioWrite (d : FileDesc) (data : List UInt8) : Option (Result × FileDesc) :=
  if 0 < d.fd then
    (writeLoop ioWriteTurn data.length d.file data STEP).map fun r =>
      ((((data.length - r.1 : Nat) : Int), []), { d with file := r.2 })
  else some ((-1, []), d)

/-- `io_seek`. -/
def ioSeek (d : FileDesc) (offset : Int) (whence : Whence) : Option (Result × FileDesc) :=
  if 0 < d.fd then
    some ((if (d.file.lseek offset whence).1 = offset then 0 else -1, []),
      { d with file := (d.file.lseek offset whence).2 })
  else some ((-1, []), d)

/-- `io_size`. -/
def ioSize (d : FileDesc) : Option (Result × FileDesc) := some ((d.file.octets.length, []), d)

/-! ### `fio.c` -/

/-- `fio_open`; a stream for appending is read from the start. -/
def fioOpen (mode : FileOpenMode) (content : Option (List UInt8)) : Option Stream :=
  (File.open_ (fioFlags mode) content).map fun file => ⟨file, .none⟩

/-- A turn of `fio_read`, with `feof`. -/
def fioReadTurn (s : Stream) (n : Nat) : Option ((List UInt8 × Bool) × Stream) :=
  (s.fread n).map fun r => ((r.1, r.2.last = .eof), r.2)

/-- `fio_read`. -/
def fioRead (s : Stream) (len : Nat) : Option (Result × Stream) :=
  (readLoop fioReadTurn (len + MAX_RETRY_CNT) s len STEP 0).map fun r => ((r.1.length, r.1), r.2)

/-- `fio_read_line`. -/
def fioReadLine (s : Stream) (len : Nat) : Option (Result × Stream) :=
  (s.fgets (asInt len)).map fun r => (r.1.elim (0, []) fun b => (strlen b, b), r.2)

/-- `fio_write`. -/
def fioWrite (s : Stream) (data : List UInt8) : Option (Result × Stream) :=
  (writeLoop Stream.fwrite data.length s data STEP).map fun r => ((((data.length - r.1 : Nat) : Int), []), r.2)

/-- `fio_seek`. -/
def fioSeek (s : Stream) (offset : Int) (whence : Whence) : Option (Result × Stream) :=
  some (((s.fseek offset whence).1, []), (s.fseek offset whence).2)

/-- `fio_size`. -/
def fioSize (s : Stream) : Option (Result × Stream) :=
  let tmp := s.ftell
  let s := (s.fseek 0 .end_).2
  let size := s.ftell
  let s := (s.fseek tmp .set).2
  some ((size, []), s)

/-! ### `wow_hfile.c` -/

/-- The calls. -/
inductive Call where
  | write (data : List UInt8)
  | seek (snOffset : Nat) (nWhence : Whence)
  | read (snSize : Nat)
  | readLine (snSize : Nat)
  | size

/-- `FileOps_T`. -/
structure FileOps (σ : Type) where
  write : σ → List UInt8 → Option (Result × σ)
  read : σ → Nat → Option (Result × σ)
  readLine : σ → Nat → Option (Result × σ)
  seek : σ → Int → Whence → Option (Result × σ)
  size : σ → Option (Result × σ)

def ioOps (charSigned : Bool) : FileOps FileDesc := ⟨ioWrite, ioRead, ioReadLine charSigned, ioSeek, ioSize⟩

def fioOps : FileOps Stream := ⟨fioWrite, fioRead, fioReadLine, fioSeek, fioSize⟩

section Calls

variable {σ : Type} (ops : FileOps σ)

/-- The operation of a call. -/
def operate (s : σ) : Call → Option (Result × σ)
  | .write data => if 0 < data.length then ops.write s data else some ((-PARAM_INPUT_ARG_INVALID, []), s)
  | .seek snOffset nWhence => ops.seek s (asLong snOffset) nWhence
  | .read snSize => if 0 < snSize then ops.read s snSize else some ((-PARAM_INPUT_ARG_INVALID, []), s)
  | .readLine snSize => if 0 < snSize then ops.readLine s snSize else some ((-PARAM_INPUT_ARG_INVALID, []), s)
  | .size => ops.size s

/-- The value is returned as an `int`. -/
def returned (r : Result) : Result := (asInt r.1, r.2)

/-- `wow_hfile_write`, `wow_hfile_seek`, `wow_hfile_read`, `wow_hfile_readLine` and `wow_hfile_size`, of a file that may
not have been opened. -/
def call : Option σ → Call → Option (Result × Option σ)
  | none, _ => some ((-PARAM_INPUT_STRUCT_IS_NULL, []), none)
  | some s, c => (operate ops s c).map fun r => (returned r.1, some r.2)

end Calls

end Wow.Hfile
