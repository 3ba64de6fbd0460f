import Mathlib.Tactic.Common
import Mathlib.Logic.Function.Basic
import Mathlib.Algebra.Ring.Int.Defs
import Mathlib.Algebra.Order.Ring.Nat
import Wow.Lib.Heap
import Wow.Lib.CNum

/-!
# Wow.Utils.MemLeak — the memory tracker

The tracker takes memory from the C library and lists what it has given out.  The list holds an information block for
each block, the newest in front; a block is found by an address inside it.

The heap shows the blocks of the program only.  What the C library answers to a request is an `Answer`: the address of
the memory, with whatever it held before, and whether an information block could be had as well.  An access outside a
block is a fault, `none`.
-/

namespace Wow.MemLeak

def mallocGarbage : UInt8 := 0xA3

/-- Where a call stands in the program: `snLine`, `pcFile` and `pcFunc`. -/
structure Site where
  line : Nat
  file : String
  func : String

structure BlockInfo where
  ptr : Nat
  size : Nat
  line : Int
  fileName : String
  funcName : String

/-- The blocks of the program, and the list at `gpt_blockHeadInfo`. -/
structure Tracker where
  heap : Heap UInt8
  infos : List BlockInfo

/-- **The C library's answer** to a request for memory: the address, 0 for `NULL`, what the memory held before, and
whether there was room for an information block. -/
structure Answer where
  data : Nat
  junk : Nat → UInt8
  info : Bool

/-- `-1` is `none`. -/
def createBlockInfo (s : Tracker) (ptr size : Nat) (site : Site) (a : Answer) : Option Tracker :=
  if a.info then
    let block := { ptr, size, line := asInt site.line, fileName := site.file, funcName := site.func }
    some { s with infos := block :: s.infos }
  else none

/-- The first listed block with `ptr` between its begin and its end, which is one less than where it stops. -/
def getBlockInfo (s : Tracker) (ptr : Nat) : Option BlockInfo :=
  s.infos.find? fun b => decide (b.ptr ≤ ptr) && decide ((ptr : Int) ≤ b.ptr + b.size - 1)

def getBlockSize (s : Tracker) (ptr : Nat) : Int :=
  match getBlockInfo s ptr with
  | some b => if ptr = b.ptr then asLong b.size else -1
  | none => -1

def freeBlockInfo (s : Tracker) (ptr : Nat) : Tracker :=
  { s with infos := s.infos.eraseP fun b => decide (b.ptr = ptr) }

/-- `memset` of `n` octets to garbage, from the place `off` of the block at `p`. -/
def memset (s : Tracker) (p off n : Nat) : Option Tracker := do
  let b ← s.heap p
  let b' ← Block.store b off (List.replicate n mallocGarbage)
  some { s with heap := Function.update s.heap p (some b') }

/-- `memcpy` of `n` octets between the begins of two blocks. -/
def memcpy (s : Tracker) (dst src n : Nat) : Option Tracker := do
  let d ← s.heap dst
  let b ← s.heap src
  let d' ← Block.copy d 0 b 0 n
  some { s with heap := Function.update s.heap dst (some d') }

/-- `free` of the C library: only the begin of a block may be given back. -/
def free (s : Tracker) (p : Nat) : Option Tracker :=
  (s.heap p).map fun _ => { s with heap := Function.update s.heap p none }

/-- `wow_mleak_malloc`. -/
def mleakMalloc (s : Tracker) (size : Nat) (site : Site) (a : Answer) : Option (Nat × Tracker) :=
  if a.data = 0 then some (0, s)
  else do
    let s ← memset { s with heap := Function.update s.heap a.data (some ((List.range size).map a.junk)) } a.data 0 size
    match createBlockInfo s a.data size site a with
    | some s => some (a.data, s)
    | none => (free s a.data).map fun s => (0, s)

/-- `wow_mleak_calloc`. -/
def mleakCalloc (s : Tracker) (count size : Nat) (site : Site) (a : Answer) : Option (Nat × Tracker) :=
  if a.data = 0 then some (0, s)
  else
    let s := { s with heap := Function.update s.heap a.data (some (List.replicate (count * size) 0)) }
    match createBlockInfo s a.data (count * size % 2 ^ 64) site a with
    | some s => some (a.data, s)
    | none => (free s a.data).map fun s => (0, s)

/-- `wow_mleak_free`. -/
def mleakFree (s : Tracker) (ptr : Nat) : Option Tracker :=
  if ptr = 0 then some s
  else
    let size := getBlockSize s ptr
    if size ≤ 0 then some s
    else (memset (freeBlockInfo s ptr) ptr 0 size.toNat).bind fun s => free s ptr

/-- `wow_mleak_realloc`. -/
def mleakRealloc (s : Tracker) (p size : Nat) (site : Site) (a : Answer) : Option (Nat × Tracker) :=
  if p = 0 ∨ size = 0 then some (0, s)
  else
    let sizeOld := getBlockSize s p
    if sizeOld ≤ 0 then some (p, s)
    else if size < sizeOld.toNat then (memset s p size (sizeOld.toNat - size)).map fun s => (0, s)
    else if sizeOld.toNat < size then do
      let (new, s) ← mleakMalloc s size site a
      if new = 0 then some (0, s)
      else
        let s ← memcpy s new p sizeOld.toNat
        let s ← mleakFree s p
        some (new, s)
    else some (0, s)

/-! ### A program on the tracker -/

/-- What a program does: it calls the tracker, or writes the octets of a block. -/
inductive Act where
  | malloc (size : Nat) (site : Site)
  | calloc (count size : Nat) (site : Site)
  | realloc (p size : Nat) (site : Site)
  | free (p : Nat)
  | write (p : Nat) (octets : List UInt8)

/-- The program writes the whole block at `p`. -/
def write (s : Tracker) (p : Nat) (octets : List UInt8) : Option Tracker := do
  let b ← s.heap p
  let b' ← Block.store b 0 octets
  some { s with heap := Function.update s.heap p (some b') }

/-- One act, with what it returns: 0 where the call returns nothing. -/
def step (s : Tracker) (c : Act) (a : Answer) : Option (Nat × Tracker) :=
  match c with
  | .malloc size site => mleakMalloc s size site a
  | .calloc count size site => mleakCalloc s count size site a
  | .realloc p size site => mleakRealloc s p size site a
  | .free p => (mleakFree s p).map fun s => (0, s)
  | .write p octets => (write s p octets).map fun s => (0, s)

/-- At the start nothing is listed: `gpt_blockHeadInfo` is `NULL`. -/
def init : Tracker := { heap := fun _ => none, infos := [] }

end Wow.MemLeak
