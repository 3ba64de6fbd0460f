import Wow.Base.KvListMap

/-!
# Wow.Base.Ipc — the calls of `wow_ipc_send_wait` on one `Ipc_T`

The steps of the calls and of the thread that receives, one at a time and in any order.  The ids that wait are keys
of the key-value list of `Wow.Base.KvList`, on its heap.

A message remembers the request that it replies to, and a state the messages that have arrived and the one in the
response buffer that no call has copied yet; the code does not look at these.
-/

namespace Wow.Ipc

open KvList

/-! ### Identifiers -/

def getIpcMsgDest (funcId : UInt32) : UInt32 := (funcId >>> 24) &&& 0xFF

def getIpcMsgSrc (funcId : UInt32) : UInt32 := (funcId >>> 16) &&& 0xFF

def getIpcMsgCmd (funcId : UInt32) : UInt32 := funcId &&& 0xFFFF

def buildIpcMsgId (dest src cmd : UInt32) : UInt32 :=
  ((dest &&& 0xFF) <<< 24) ||| ((src &&& 0xFF) <<< 16) ||| (cmd &&& 0xFFFF)

def buildAckIpcMsgId (funcId : UInt32) : UInt32 :=
  buildIpcMsgId (getIpcMsgSrc funcId) (getIpcMsgDest funcId) (getIpcMsgCmd funcId)

/-! ### The ids that wait -/

def hexDigit (d : Fin 16) : UInt8 := UInt8.ofNat (if d.val < 10 then 48 + d.val else 55 + d.val)

theorem hexDigit_ne_zero : ∀ d : Fin 16, hexDigit d ≠ 0 := by decide

/-- What `snprintf` makes of `"0x%08X"`. -/
def cmdStr (funcId : UInt32) : CStr where
  chars := 48 :: 120 :: (List.range 8).map fun i => hexDigit (Fin.ofNat 16 (funcId.toNat / 16 ^ (7 - i)))
  noNul := by
    intro h
    obtain h | h := List.mem_cons.mp h
    · cases h
    obtain h | h := List.mem_cons.mp h
    · cases h
    obtain ⟨i, -, hi⟩ := List.mem_map.mp h
    exact hexDigit_ne_zero _ hi

/-- The list and the literal `"1"`, which is buffer 0. -/
def kvlistCreate : World := { create with mem := { create.mem.put 0 (some [49, 0]) with next := 1 } }

/-- The list while `cmd_str` is on the stack. -/
def withCmd (kv : World) (funcId : UInt32) : World :=
  { kv with mem := { kv.mem.put kv.mem.next (some (cmdStr funcId).bytes) with next := kv.mem.next + 1 } }

/-- `push_sync_cmd`; `none` is a fault of the list. -/
def pushSyncCmd (kv : World) (funcId : UInt32) : Option World :=
  let cmd := kv.mem.next
  KvList.events (withCmd kv funcId) [.call (.set (some cmd) (some 0)) 0, .drop cmd]

/-- `pop_sync_cmd`: whether the id was there. -/
def popSyncCmd (kv : World) (funcId : UInt32) : Option (Bool × World) :=
  let cmd := kv.mem.next
  (wowKvlistGet heap (withCmd kv funcId) (some cmd)).bind fun pair =>
    match pair with
    | none => (KvList.events (withCmd kv funcId) [.drop cmd]).map fun kv => (false, kv)
    | some _ => (KvList.events (withCmd kv funcId) [.call (.delete (some cmd)) 0, .drop cmd]).map fun kv => (true, kv)

/-! ### The state -/

/-- A message: what it carries fits `MAX_IPC_MESSAGE_SIZE`. -/
structure Msg where
  funcId : UInt32
  data : { l : List UInt8 // l.length ≤ 1024 }
  /-- The request that it replies to. -/
  answers : Option Nat

/-- Where a call of `wow_ipc_send_wait` is. -/
inductive Pc where
  | idle
  /-- Its id is in the list. -/
  | pushed
  /-- It waits at the semaphore. -/
  | waiting
  /-- It has the semaphore. -/
  | woken
  /-- It is at `out`. -/
  | failed
  /-- It has returned, with what it has copied if it has succeeded. -/
  | returned (out : Option (List UInt8))
  deriving DecidableEq

/-- A call, with its arguments. -/
structure Call where
  fid : UInt32
  snOlen : Nat
  pc : Pc

/-- Where `ipc_process_msg` is: one thread receives. -/
inductive Handler where
  | idle
  /-- It has popped the id of the message. -/
  | took (m : Msg)
  /-- It has written the response buffer. -/
  | stored (m : Msg)

/-- `ipc_t` with its calls, which are numbered as they begin, and the thread that receives. -/
structure State where
  kvlist : World
  respBuf : List UInt8
  respLen : Nat
  sem : Nat
  count : Nat
  calls : Nat → Call
  handler : Handler
  arrived : List Msg
  held : Option Msg

/-- After `wow_ipc_create_client` or `wow_ipc_create_server`. -/
def init : State := ⟨kvlistCreate, List.replicate 1024 0, 0, 0, 0, fun _ => ⟨0, 0, .idle⟩, .idle, [], none⟩

namespace State

def pc (s : State) (k : Nat) : Pc := (s.calls k).pc

def setPc (s : State) (k : Nat) (p : Pc) : State :=
  { s with calls := Function.update s.calls k { s.calls k with pc := p } }

end State

/-! ### The steps -/

inductive Event where
  /-- A call begins: `push_sync_cmd`. -/
  | push (fid : UInt32) (snOlen : Nat)
  /-- It sends, or fails to. -/
  | send (k : Nat) (ok : Bool)
  /-- `sem_timedwait` takes the semaphore. -/
  | wake (k : Nat)
  | timeout (k : Nat)
  /-- The response is copied. -/
  | copy (k : Nat)
  /-- `pop_sync_cmd` at `out`. -/
  | pop (k : Nat)
  /-- A message arrives: `ipc_process_msg` up to `pop_sync_cmd`. -/
  | arrive (m : Msg)
  /-- `ipc_process_msg` writes the response buffer. -/
  | store
  /-- It signals the semaphore. -/
  | post

/-- One step; one that cannot be taken does nothing, and `none` is a fault of the list. -/
def step (s : State) : Event → Option State
  | .push fid snOlen => (pushSyncCmd s.kvlist fid).map fun kv =>
      { s with kvlist := kv, count := s.count + 1, calls := Function.update s.calls s.count ⟨fid, snOlen, .pushed⟩ }
  | .send k ok => some (if s.pc k = .pushed then s.setPc k (if ok then .waiting else .failed) else s)
  | .wake k => some (if s.pc k = .waiting ∧ 0 < s.sem then { s.setPc k .woken with sem := s.sem - 1 } else s)
  | .timeout k => some (if s.pc k = .waiting ∧ s.sem = 0 then s.setPc k .failed else s)
  | .copy k =>
    let size := min s.respLen (s.calls k).snOlen
    some (if s.pc k = .woken then { s.setPc k (.returned (some (s.respBuf.take size))) with held := none } else s)
  | .pop k =>
    if s.pc k = .failed then
      (popSyncCmd s.kvlist (s.calls k).fid).map fun r => { s.setPc k (.returned none) with kvlist := r.2 }
    else some s
  | .arrive m =>
    match s.handler with
    | .idle =>
      if wowKvlistSize s.kvlist > 0 then
        (popSyncCmd s.kvlist (buildAckIpcMsgId m.funcId)).map fun r =>
          let s := { s with kvlist := r.2, arrived := s.arrived ++ [m] }
          -- without the id the message goes to the callbacks
          if r.1 then { s with handler := .took m, held := some m } else s
      else some { s with arrived := s.arrived ++ [m] }
    | _ => some s
  | .store =>
    match s.handler with
    | .took m =>
      let buf := m.data.1 ++ s.respBuf.drop m.data.1.length
      some { s with respBuf := buf, respLen := m.data.1.length, handler := .stored m }
    | _ => some s
  | .post =>
    match s.handler with
    | .stored _ => some { s with sem := s.sem + 1, handler := .idle }
    | _ => some s

def events (s : State) : List Event → Option State
  | [] => some s
  | e :: es => (step s e).bind fun s => events s es

end Wow.Ipc
