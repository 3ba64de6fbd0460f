import Wow.Base.IpcServer
import Wow.Lib.CNum
import Wow.Lib.Mem

/-!
# Wow.Base.IpcLength — the lengths of the copies between the packet buffers

The two ends of a connection with the bytes of their receive buffers: what `ipc_skt_send`, `ipc_skt_broadcast`, the
receive callbacks, `ipc_skt_recv` and the synchronous reply of `wow_ipc.c` copy, and with which length.  Every copy is
recorded for each of its buffers (`Access`), and so is what a receiver is handed.

A connection remembers the payload of the packet that came last, and the response buffer the message stored in it; the
code does not look at these.

* `Fits`: the steps that keep inside; `step_iff` one step, `lengths_iff` every run.
-/

namespace Wow.IpcLength

open Wow.Ipc Wow.IpcServer

/-! ### Packets -/

/-- `sizeof(IpcHeader_T)`, and `sizeof(IpcPacket_t)`. -/
def headerLen : Nat := 24

/-- What a packet buffer is allocated with. -/
def packetLen : Nat := headerLen + MAX_IPC_MESSAGE_SIZE

def MAX_IPC_RESP_BUF_LEN : Nat := 1024

/-- An unsigned number, its low byte first. -/
def leNat (l : List UInt8) : Nat := l.foldr (fun b n => b.toNat + 256 * n) 0

/-- `header.flag`. -/
def flag (packet : Mem) : Nat := leNat (packet.slice 4 4)

/-- `header.func_id`. -/
def funcId (packet : Mem) : UInt32 := UInt32.ofNat (leNat (packet.slice 8 4))

/-- `header.payload_len`. -/
def payloadLen (packet : Mem) : Nat := leNat (packet.slice 16 8)

/-! ### The state -/

inductive Side where
  | server
  | client
  deriving DecidableEq

/-- What the copies use of `CliSktInfo_T` or `CliSktCtx_T`. -/
structure Conn where
  bind : Bool
  cid : UInt32
  rPacket : Mem
  /-- The payload of the packet that came last, if the buffer has not been cleared since. -/
  last : List UInt8

/-- `memset` of the receive buffer. -/
def Conn.clear (c : Conn) : Conn := { c with rPacket := fun _ => 0, last := [] }

/-- A new connection. -/
def Conn.new : Conn := ⟨false, 0, fun _ => 0, []⟩

/-- One `Ipc_T`; a client has one connection. -/
structure State where
  side : Side
  conns : List Conn
  respBuf : Mem
  respLen : Nat
  /-- The message that was stored last. -/
  resp : List UInt8

def init (side : Side) : State :=
  ⟨side, match side with | .server => [] | .client => [Conn.new], fun _ => 0, 0, []⟩

/-- The bytes that a copy reads or writes in one of its buffers, and those that there are. -/
structure Access where
  room : Nat
  len : Nat

def Access.Inside (a : Access) : Prop := a.len ≤ a.room

/-- The state after a step, with its copies and what a receiver is handed, beside the payload that was received. -/
structure Done where
  state : State
  accesses : List Access := []
  handed : List (List UInt8 × List UInt8) := []

/-! ### Sending -/

/-- The payload into the send buffer, and `send` of the packet. -/
def copySend (buf : List UInt8) : List Access :=
  [⟨MAX_IPC_MESSAGE_SIZE, buf.length⟩, ⟨buf.length, buf.length⟩, ⟨packetLen, buf.length + headerLen⟩]

/-- The connection of an id: the first one in the list of the server, the only one of a client. -/
def connOf (s : State) (id : UInt32) : Option Nat :=
  match s.side with
  | .server => s.conns.findIdx? fun c => c.cid = getIpcMsgDest id
  | .client => some 0

/-- `ipc_skt_send`. -/
def ipcSktSend (s : State) (id : UInt32) (buf : List UInt8) : Done :=
  match s.side with
  | .server =>
    if buf.length < MAX_IPC_MESSAGE_SIZE then
      match connOf s id with
      | none => { state := s }
      | some _ => { state := s, accesses := copySend buf }
    else { state := s }
  | .client => { state := s, accesses := copySend buf }

/-- `ipc_skt_broadcast`. -/
def ipcSktBroadcast (s : State) (buf : List UInt8) : Done :=
  match s.side with
  | .server =>
    if buf.length < MAX_IPC_MESSAGE_SIZE then
      { state := s, accesses := (s.conns.filter fun c => c.bind).flatMap fun _ => copySend buf }
    else { state := s }
  | .client => { state := s, accesses := copySend buf }

/-! ### Receiving -/

/-- Where `ipc_process_msg` takes a message: a call waits for it, the callback for all or for its id, or none. -/
inductive Route where
  | sync
  | func
  | notify
  | unmatched
  deriving DecidableEq

/-- `ipc_process_msg`, and the buffer cleared when it returns 0. -/
def ipcProcessMsg (s : State) (k : Nat) (c : Conn) (len : Nat) : Route → Done
  | .sync =>
    { state := { s with
        conns := s.conns.set k c.clear
        respBuf := s.respBuf.fill (c.rPacket.slice headerLen len)
        respLen := asUint32 len
        resp := c.last }
      accesses := [⟨MAX_IPC_RESP_BUF_LEN, len⟩, ⟨MAX_IPC_MESSAGE_SIZE, len⟩] }
  | .func | .notify =>
    { state := { s with conns := s.conns.set k c.clear }, handed := [(c.rPacket.slice headerLen len, c.last)] }
  | .unmatched => { state := { s with conns := s.conns.set k c } }

/-- `server_recv_callback` or `client_recv_callback` behind `recv`, with `rlen - sizeof(IpcPacket_t)` bytes of payload. -/
def deliver (s : State) (k : Nat) (c : Conn) (len : Nat) (route : Route) : Done :=
  match s.side with
  | .server =>
    if flag c.rPacket = IPC_CMD_BIND.toNat then
      { state := { s with conns := s.conns.set k { c with bind := true, cid := getIpcMsgSrc (funcId c.rPacket) } } }
    else if flag c.rPacket = IPC_CMD_UNBIND.toNat then
      { state := { s with conns := if c.bind then s.conns.eraseIdx k else s.conns.set k c } }
    else if c.bind then ipcProcessMsg s k c len route
    else { state := { s with conns := s.conns.set k c } }
  | .client =>
    if flag c.rPacket = IPC_CMD_BIND.toNat ∨ flag c.rPacket = IPC_CMD_UNBIND.toNat then
      { state := { s with conns := s.conns.set k c.clear } }
    else ipcProcessMsg s k c len route

/-- The receive callback of a connection, when `recv` gives `raw`: what is longer than the buffer is cut. -/
def recvCallback (s : State) (k : Nat) (raw : List UInt8) (route : Route) : Done :=
  match s.conns[k]? with
  | none => { state := s }
  | some c =>
    let got := raw.take packetLen
    let r : Done :=
      if headerLen ≤ got.length then
        deliver s k { c with rPacket := c.rPacket.fill got, last := got.drop headerLen } (got.length - headerLen) route
      else { state := { s with conns := s.conns.set k { c with rPacket := c.rPacket.fill got } } }
    { r with accesses := ⟨packetLen, got.length⟩ :: r.accesses }

/-- The receive callback when `recv` fails: -1 is compared with a `size_t`, and found not below the header. -/
def recvFailed (s : State) (k : Nat) (route : Route) : Done :=
  match s.conns[k]? with
  | none => { state := s }
  | some c => deliver s k c (asSize (-1 - headerLen)) route

/-- `int size = MIN2(x, y)`, as the length of a `memcpy`. -/
def minSize (x y : Nat) : Nat := asSize (asInt (min x y : Nat))

/-- `ipc_skt_recv`. -/
def ipcSktRecv (s : State) (id : UInt32) (len : Nat) : Done :=
  match connOf s id with
  | none => { state := s }
  | some k =>
    match s.conns[k]? with
    | none => { state := s }
    | some c =>
      if payloadLen c.rPacket > 0 then
        let size := minSize len (payloadLen c.rPacket)
        { state := { s with conns := s.conns.set k c.clear }
          accesses := [⟨len, size⟩, ⟨MAX_IPC_MESSAGE_SIZE, size⟩]
          handed := [(c.rPacket.slice headerLen size, c.last)] }
      else { state := s }

/-- The copy at the end of `wow_ipc_send_wait`. -/
def waitCopy (s : State) (snOlen : Nat) : Done :=
  let size := minSize s.respLen snOlen
  { state := s
    accesses := [⟨snOlen, size⟩, ⟨MAX_IPC_RESP_BUF_LEN, size⟩]
    handed := [(s.respBuf.slice 0 size, s.resp)] }

/-! ### Runs -/

inductive Event where
  /-- A client connects to a server. -/
  | connect
  | send (id : UInt32) (buf : List UInt8)
  | broadcast (buf : List UInt8)
  | packet (k : Nat) (raw : List UInt8) (route : Route)
  | failed (k : Nat) (route : Route)
  | recv (id : UInt32) (len : Nat)
  | copy (snOlen : Nat)

def step (s : State) : Event → Done
  | .connect => { state := if s.side = .server then { s with conns := s.conns ++ [Conn.new] } else s }
  | .send id buf => ipcSktSend s id buf
  | .broadcast buf => ipcSktBroadcast s buf
  | .packet k raw route => recvCallback s k raw route
  | .failed k route => recvFailed s k route
  | .recv id len => ipcSktRecv s id len
  | .copy snOlen => waitCopy s snOlen

/-- The copies stay inside both buffers, and what is handed over are bytes of the payload that was received. -/
def Done.Ok (d : Done) : Prop := (∀ a ∈ d.accesses, a.Inside) ∧ ∀ h ∈ d.handed, h.1 <+: h.2

/-- **The requirement**, for every step of a run. -/
def Safe : State → List Event → Prop
  | _, [] => True
  | s, e :: es => (step s e).Ok ∧ Safe (step s e).state es

/-- A failed `recv` leads to a receiver. -/
def Reaches (s : State) (k : Nat) (route : Route) : Prop :=
  ∃ c, s.conns[k]? = some c ∧ (flag c.rPacket ≠ IPC_CMD_BIND.toNat ∧ flag c.rPacket ≠ IPC_CMD_UNBIND.toNat) ∧
    (s.side = .server → c.bind = true) ∧ route ≠ .unmatched

/-- A client sends no more than a packet holds; `recv` does not fail, or nobody is given the old packet then; and what
`ipc_skt_recv` copies, by the header and the size of the caller's buffer, has been received. -/
def Fits (s : State) : Event → Prop
  | .send _ buf | .broadcast buf => s.side = .client → buf.length ≤ MAX_IPC_MESSAGE_SIZE
  | .failed k route => ¬Reaches s k route
  | .recv id len => ∀ k c, connOf s id = some k → s.conns[k]? = some c →
      minSize len (payloadLen c.rPacket) ≤ c.last.length
  | .connect | .packet _ _ _ | .copy _ => True

/-- The condition, at every step of a run. -/
def Fitting : State → List Event → Prop
  | _, [] => True
  | s, e :: es => Fits s e ∧ Fitting (step s e).state es

/-! ### The invariant -/

/-- The payload that came last is in the buffer. -/
structure Conn.Good (c : Conn) : Prop where
  len : c.last.length ≤ MAX_IPC_MESSAGE_SIZE
  slice : c.rPacket.slice headerLen c.last.length = c.last

structure Inv (s : State) : Prop where
  conns : ∀ c ∈ s.conns, c.Good
  respLen : s.respLen ≤ MAX_IPC_RESP_BUF_LEN
  resp : s.respBuf.slice 0 s.respLen = s.resp

theorem minSize_eq {x y : Nat} (h : min x y < 2 ^ 31) : minSize x y = min x y := by
  rw [minSize, asInt_of_lt (Int.natCast_nonneg _) (by omega), asSize_natCast (by omega)]

/-- As a length that fits a packet it is at most the first of the two. -/
theorem minSize_le {x y : Nat} (h : minSize x y ≤ MAX_IPC_MESSAGE_SIZE) : minSize x y ≤ x := by
  rw [show MAX_IPC_MESSAGE_SIZE = 1024 from rfl] at h
  rcases Nat.lt_or_ge (min x y) (2 ^ 31) with hlt | hge
  · rw [minSize_eq hlt]
    exact Nat.min_le_left x y
  · have := Nat.le_trans hge (Nat.min_le_left x y)
    omega

section Conns

variable {s : State} {c : Conn} {k len : Nat}

theorem good_new : Conn.new.Good := ⟨Nat.zero_le _, rfl⟩

theorem good_clear (c : Conn) : c.clear.Good := ⟨Nat.zero_le _, rfl⟩

/-- A packet with a whole header. -/
theorem good_fill {got : List UInt8} (hlo : headerLen ≤ got.length) (hhi : got.length ≤ packetLen) :
    Conn.Good { c with rPacket := c.rPacket.fill got, last := got.drop headerLen } := by
  have hlen : (got.drop headerLen).length = got.length - headerLen := List.length_drop
  refine ⟨?_, ?_⟩
  · rw [hlen]
    exact Nat.sub_le_of_le_add (by rwa [Nat.add_comm])
  · show (c.rPacket.fill got).slice headerLen (got.drop headerLen).length = got.drop headerLen
    rw [hlen, Mem.slice_fill (by omega), List.take_of_length_le (by omega)]

/-- Less than a header leaves the payload alone. -/
theorem good_fill_short (h : c.Good) {got : List UInt8} (hlt : got.length < headerLen) :
    Conn.Good { c with rPacket := c.rPacket.fill got } := by
  refine ⟨h.len, ?_⟩
  have hsame : (c.rPacket.fill got).slice headerLen c.last.length = c.rPacket.slice headerLen c.last.length :=
    Mem.slice_congr fun i _ => Mem.fill_of_le (by omega)
  exact hsame.trans h.slice

/-- What is copied from the start of the payload, as far as it was received, is a part of it. -/
theorem Conn.Good.slice_prefix (h : c.Good) (hlen : len ≤ c.last.length) :
    c.rPacket.slice headerLen len <+: c.last := by
  have ht := Mem.take_drop_slice c.rPacket headerLen c.last.length 0 len
  rw [h.slice, List.drop_zero, Nat.add_zero, Nat.sub_zero, Nat.min_eq_left hlen] at ht
  rw [← ht]
  exact List.take_prefix _ _

theorem Inv.set (h : Inv s) (hc : c.Good) : Inv { s with conns := s.conns.set k c } := by
  refine ⟨fun d hd => ?_, h.respLen, h.resp⟩
  rcases List.mem_or_eq_of_mem_set hd with hd | rfl
  · exact h.conns d hd
  · exact hc

/-- **A message of the length that was received.** -/
theorem ipcProcessMsg_ok (h : Inv s) (hc : c.Good) (route : Route) :
    (ipcProcessMsg s k c c.last.length route).Ok ∧ Inv (ipcProcessMsg s k c c.last.length route).state := by
  have hle : c.last.length ≤ 1024 := hc.len
  have hclear := (h.set (k := k) (good_clear c)).conns
  have hpre := hc.slice_prefix (Nat.le_refl _)
  cases route with
  | sync =>
    have hlen : asUint32 c.last.length = c.last.length := asUint32_natCast (by omega)
    refine ⟨⟨?_, fun h hh => absurd hh List.not_mem_nil⟩, hclear, ?_, ?_⟩
    · intro a ha
      rcases List.mem_pair.mp ha with rfl | rfl
      · exact hle
      · exact hle
    · show asUint32 c.last.length ≤ 1024
      rw [hlen]
      exact hle
    · show (s.respBuf.fill (c.rPacket.slice headerLen c.last.length)).slice 0 (asUint32 c.last.length) = c.last
      rw [hlen, hc.slice, Mem.slice_fill (by omega), List.drop_zero, List.take_length]
  | func | notify =>
    refine ⟨⟨fun a ha => absurd ha List.not_mem_nil, ?_⟩, hclear, h.respLen, h.resp⟩
    intro p hp
    rw [List.mem_singleton.mp hp]
    exact hpre
  | unmatched =>
    exact ⟨⟨fun _ ha => absurd ha List.not_mem_nil, fun _ hp => absurd hp List.not_mem_nil⟩, h.set hc⟩

/-- A step that copies nothing and hands nothing over. -/
theorem ok_plain (s : State) : Done.Ok { state := s } :=
  ⟨fun _ ha => absurd ha List.not_mem_nil, fun _ hp => absurd hp List.not_mem_nil⟩

/-- The callback, when what it leads to is right. -/
theorem deliver_ok (h : Inv s) (hc : c.Good) (k len : Nat) (route : Route)
    (hp : (flag c.rPacket ≠ IPC_CMD_BIND.toNat ∧ flag c.rPacket ≠ IPC_CMD_UNBIND.toNat) →
      (s.side = .server → c.bind = true) →
        (ipcProcessMsg s k c len route).Ok ∧ Inv (ipcProcessMsg s k c len route).state) :
    (deliver s k c len route).Ok ∧ Inv (deliver s k c len route).state := by
  rw [deliver]
  cases hside : s.side with
  | server =>
    simp only
    by_cases hbind : flag c.rPacket = IPC_CMD_BIND.toNat
    · rw [if_pos hbind, ← hside]
      exact ⟨ok_plain _, h.set ⟨hc.len, hc.slice⟩⟩
    by_cases hunbind : flag c.rPacket = IPC_CMD_UNBIND.toNat
    · rw [if_neg hbind, if_pos hunbind, ← hside]
      refine ⟨ok_plain _, fun d hd => ?_, h.respLen, h.resp⟩
      by_cases hb : c.bind = true
      · rw [if_pos hb] at hd
        exact h.conns d (List.mem_of_mem_eraseIdx hd)
      · rw [if_neg hb] at hd
        exact (h.set hc).conns d hd
    rw [if_neg hbind, if_neg hunbind]
    by_cases hb : c.bind = true
    · rw [if_pos hb]
      exact hp ⟨hbind, hunbind⟩ fun _ => hb
    · rw [if_neg hb, ← hside]
      exact ⟨ok_plain _, h.set hc⟩
  | client =>
    simp only
    by_cases hcmd : flag c.rPacket = IPC_CMD_BIND.toNat ∨ flag c.rPacket = IPC_CMD_UNBIND.toNat
    · rw [if_pos hcmd, ← hside]
      exact ⟨ok_plain _, h.set (good_clear c)⟩
    · rw [if_neg hcmd]
      exact hp (not_or.mp hcmd) fun hs => by rw [hside] at hs; cases hs

/-- **A packet** of any length. -/
theorem recvCallback_ok (h : Inv s) (raw : List UInt8) (route : Route) :
    (recvCallback s k raw route).Ok ∧ Inv (recvCallback s k raw route).state := by
  rw [recvCallback]
  cases hget : s.conns[k]? with
  | none => exact ⟨ok_plain s, h⟩
  | some c =>
    have hgood := h.conns c (List.mem_of_getElem? hget)
    have hhi : (raw.take packetLen).length ≤ packetLen := List.length_take_le _ _
    simp only
    by_cases hlo : headerLen ≤ (raw.take packetLen).length
    · have hnew := good_fill (c := c) hlo hhi
      have hok := deliver_ok h hnew k _ route fun _ _ => ipcProcessMsg_ok h hnew route
      rw [if_pos hlo]
      rw [show ({ c with rPacket := c.rPacket.fill (raw.take packetLen), last := (raw.take packetLen).drop headerLen } :
        Conn).last.length = (raw.take packetLen).length - headerLen from List.length_drop] at hok
      exact ⟨⟨List.forall_mem_cons.mpr ⟨hhi, hok.1.1⟩, hok.1.2⟩, hok.2⟩
    · rw [if_neg hlo]
      refine ⟨⟨?_, fun p hp => absurd hp List.not_mem_nil⟩, h.set (good_fill_short hgood (by omega))⟩
      intro a ha
      rw [List.mem_singleton.mp ha]
      exact hhi

theorem deliver_reached {route : Route}
    (hflag : flag c.rPacket ≠ IPC_CMD_BIND.toNat ∧ flag c.rPacket ≠ IPC_CMD_UNBIND.toNat)
    (hbind : s.side = .server → c.bind = true) : deliver s k c len route = ipcProcessMsg s k c len route := by
  rw [deliver]
  cases hside : s.side with
  | server =>
    simp only
    rw [if_neg hflag.1, if_neg hflag.2, if_pos (hbind hside)]
  | client =>
    simp only
    rw [if_neg (not_or.mpr hflag)]

/-- A message longer than what was received. -/
theorem ipcProcessMsg_not_ok (hc : c.Good) {route : Route} (hroute : route ≠ .unmatched)
    (hlen : MAX_IPC_MESSAGE_SIZE < len) : ¬(ipcProcessMsg s k c len route).Ok := by
  rintro ⟨hacc, hhand⟩
  have hle := hc.len
  cases route with
  | sync =>
    have : len ≤ MAX_IPC_MESSAGE_SIZE := hacc _ (List.mem_cons_of_mem _ List.mem_cons_self)
    omega
  | func | notify =>
    have hpre : c.rPacket.slice headerLen len <+: c.last := hhand _ List.mem_cons_self
    have := hpre.length_le
    rw [Mem.length_slice] at this
    omega
  | unmatched => exact hroute rfl

/-- **A `recv` that fails** does no harm only if it leads to no receiver. -/
theorem recvFailed_iff (h : Inv s) (route : Route) :
    ((recvFailed s k route).Ok ↔ ¬Reaches s k route) ∧
      (¬Reaches s k route → Inv (recvFailed s k route).state) := by
  rw [recvFailed]
  cases hget : s.conns[k]? with
  | none =>
    have hno : ¬Reaches s k route := by
      rintro ⟨c, hc, -⟩
      rw [hget] at hc
      cases hc
    exact ⟨iff_of_true (ok_plain s) hno, fun _ => h⟩
  | some c =>
    have hgood := h.conns c (List.mem_of_getElem? hget)
    simp only
    by_cases hr : Reaches s k route
    · refine ⟨iff_of_false ?_ (not_not.mpr hr), fun hno => absurd hr hno⟩
      obtain ⟨d, hd, hflag, hbind, hroute⟩ := hr
      rw [hget] at hd
      cases hd
      rw [deliver_reached hflag hbind]
      exact ipcProcessMsg_not_ok hgood hroute (by decide)
    · have hok := deliver_ok h hgood k (asSize (-1 - headerLen)) route fun hflag hbind => by
        obtain rfl : route = .unmatched := by
          by_contra hroute
          exact hr ⟨c, hget, hflag, hbind, hroute⟩
        exact ⟨ok_plain _, h.set hgood⟩
      exact ⟨iff_of_true hok.1 hr, fun _ => hok.2⟩

/-- **`ipc_skt_recv`** is right when it copies no more than was received. -/
theorem ipcSktRecv_iff (h : Inv s) (id : UInt32) (n : Nat) :
    ((ipcSktRecv s id n).Ok ↔ Fits s (.recv id n)) ∧ Inv (ipcSktRecv s id n).state := by
  rw [ipcSktRecv, Fits]
  cases hconn : connOf s id with
  | none => exact ⟨iff_of_true (ok_plain s) (by simp), h⟩
  | some k =>
    simp only
    cases hget : s.conns[k]? with
    | none =>
      refine ⟨iff_of_true (ok_plain s) ?_, h⟩
      rintro k' c' ⟨⟩ hc'
      rw [hget] at hc'
      cases hc'
    | some c =>
      have hgood := h.conns c (List.mem_of_getElem? hget)
      simp only
      have hfits : (∀ k' c', some k = some k' → s.conns[k']? = some c' →
          minSize n (payloadLen c'.rPacket) ≤ c'.last.length) ↔
          minSize n (payloadLen c.rPacket) ≤ c.last.length := by
        constructor
        · intro hall
          exact hall k c rfl hget
        · rintro hle k' c' ⟨⟩ hc'
          rw [hget] at hc'
          cases hc'
          exact hle
      rw [hfits]
      by_cases hpos : payloadLen c.rPacket > 0
      · have hroom : minSize n (payloadLen c.rPacket) ≤ MAX_IPC_MESSAGE_SIZE → minSize n (payloadLen c.rPacket) ≤ n :=
          minSize_le
        rw [if_pos hpos]
        generalize minSize n (payloadLen c.rPacket) = size at hroom ⊢
        refine ⟨?_, h.set (good_clear c)⟩
        constructor
        · intro hok
          have hpre : c.rPacket.slice headerLen size <+: c.last := hok.2 _ List.mem_cons_self
          have := hpre.length_le
          rwa [Mem.length_slice] at this
        · intro hle
          have hmax := Nat.le_trans hle hgood.len
          refine ⟨fun a ha => ?_, fun p hp => ?_⟩
          · rcases List.mem_pair.mp ha with rfl | rfl
            · exact hroom hmax
            · exact hmax
          · rw [List.mem_singleton.mp hp]
            exact hgood.slice_prefix hle
      · rw [if_neg hpos]
        refine ⟨iff_of_true (ok_plain s) ?_, h⟩
        rw [Nat.eq_zero_of_not_pos hpos, minSize_eq (by rw [Nat.min_zero]; decide), Nat.min_zero]
        exact Nat.zero_le _

/-- The copy of a reply is always right. -/
theorem waitCopy_ok (h : Inv s) (n : Nat) : (waitCopy s n).Ok := by
  have hlt : min s.respLen n < 2 ^ 31 := by
    have := h.respLen
    rw [show MAX_IPC_RESP_BUF_LEN = 1024 from rfl] at this
    omega
  rw [waitCopy, minSize_eq hlt]
  refine ⟨fun a ha => ?_, fun p hp => ?_⟩
  · rcases List.mem_pair.mp ha with rfl | rfl
    · exact Nat.min_le_right _ _
    · exact Nat.le_trans (Nat.min_le_left _ _) h.respLen
  · rw [List.mem_singleton.mp hp]
    have ht := Mem.take_drop_slice s.respBuf 0 s.respLen 0 (min s.respLen n)
    rw [h.resp, List.drop_zero, Nat.sub_zero, Nat.min_eq_left (Nat.min_le_left _ _)] at ht
    show s.respBuf.slice 0 (min s.respLen n) <+: s.resp
    rw [← ht]
    exact List.take_prefix _ _

/-- **A packet that is sent**. -/
theorem copySend_ok (buf : List UInt8) :
    (∀ a ∈ copySend buf, a.Inside) ↔ buf.length ≤ MAX_IPC_MESSAGE_SIZE := by
  constructor
  · intro h
    exact h _ List.mem_cons_self
  · intro hle a ha
    simp only [copySend, List.mem_cons, List.not_mem_nil, or_false] at ha
    rcases ha with rfl | rfl | rfl
    · exact hle
    · exact Nat.le_refl _
    · show buf.length + headerLen ≤ headerLen + MAX_IPC_MESSAGE_SIZE
      omega

theorem ok_copySend (s : State) (buf : List UInt8) :
    Done.Ok { state := s, accesses := copySend buf } ↔ buf.length ≤ MAX_IPC_MESSAGE_SIZE := by
  rw [Done.Ok, copySend_ok]
  exact and_iff_left fun p hp => absurd hp List.not_mem_nil

theorem ipcSktSend_iff (s : State) (id : UInt32) (buf : List UInt8) :
    (ipcSktSend s id buf).Ok ↔ Fits s (.send id buf) := by
  rw [ipcSktSend, Fits]
  cases hside : s.side with
  | server =>
    refine iff_of_true ?_ nofun
    simp only
    split
    · split
      · exact ok_plain s
      · exact (ok_copySend s buf).mpr (by omega)
    · exact ok_plain s
  | client => exact (ok_copySend s buf).trans ⟨fun h _ => h, fun h => h rfl⟩

theorem ipcSktBroadcast_iff (s : State) (buf : List UInt8) :
    (ipcSktBroadcast s buf).Ok ↔ Fits s (.broadcast buf) := by
  rw [ipcSktBroadcast, Fits]
  cases hside : s.side with
  | server =>
    refine iff_of_true ?_ nofun
    simp only
    split
    · refine ⟨fun a ha => ?_, fun p hp => absurd hp List.not_mem_nil⟩
      obtain ⟨c, -, ha⟩ := List.mem_flatMap.mp ha
      exact (copySend_ok buf).mpr (by omega) a ha
    · exact ok_plain s
  | client => exact (ok_copySend s buf).trans ⟨fun h _ => h, fun h => h rfl⟩

/-! ### Runs -/

/-- **One step** is right when it meets the condition, and keeps the invariant then. -/
theorem step_iff (h : Inv s) (e : Event) : ((step s e).Ok ↔ Fits s e) ∧ (Fits s e → Inv (step s e).state) := by
  cases e with
  | connect =>
    refine ⟨iff_of_true (ok_plain _) trivial, fun _ => ?_⟩
    show Inv (if s.side = .server then { s with conns := s.conns ++ [Conn.new] } else s)
    split
    · refine ⟨fun c hc => ?_, h.respLen, h.resp⟩
      rcases List.mem_append.mp hc with hc | hc
      · exact h.conns c hc
      · rw [List.mem_singleton.mp hc]
        exact good_new
    · exact h
  | send id buf =>
    refine ⟨ipcSktSend_iff s id buf, fun _ => ?_⟩
    rw [step, ipcSktSend]
    repeat' split
    all_goals exact h
  | broadcast buf =>
    refine ⟨ipcSktBroadcast_iff s buf, fun _ => ?_⟩
    rw [step, ipcSktBroadcast]
    repeat' split
    all_goals exact h
  | packet k raw route =>
    have hok := recvCallback_ok (k := k) h raw route
    exact ⟨iff_of_true hok.1 trivial, fun _ => hok.2⟩
  | failed k route => exact recvFailed_iff h route
  | recv id n => exact ⟨(ipcSktRecv_iff h id n).1, fun _ => (ipcSktRecv_iff h id n).2⟩
  | copy n => exact ⟨iff_of_true (waitCopy_ok h n) trivial, fun _ => h⟩

theorem safe_iff_fitting (h : Inv s) (es : List Event) : Safe s es ↔ Fitting s es := by
  induction es generalizing s with
  | nil => exact Iff.rfl
  | cons e es ih =>
    obtain ⟨hiff, hinv⟩ := step_iff h e
    rw [Safe, Fitting, hiff]
    exact and_congr_right fun hfit => ih (hinv hfit)

end Conns

theorem inv_init (side : Side) : Inv (init side) := by
  refine ⟨fun c hc => ?_, Nat.zero_le _, rfl⟩
  cases side with
  | server => exact absurd hc List.not_mem_nil
  | client =>
    rw [List.mem_singleton.mp hc]
    exact good_new

/-- **Every copy stays inside its buffers and a receiver is handed what was received**, in a run of a server or of a
client, exactly when every step meets the condition. -/
theorem lengths_iff (side : Side) (es : List Event) : Safe (init side) es ↔ Fitting (init side) es :=
  safe_iff_fitting (inv_init side) es

/-- A client sends one octet more than a packet holds. -/
theorem not_lengths_send : ¬Safe (init .client) [.send 0 (List.replicate 1025 0)] := by
  rintro ⟨h, -⟩
  have hlen := (ok_copySend (init .client) (List.replicate 1025 0)).mp h
  rw [List.length_replicate] at hlen
  exact absurd hlen (by decide)

end Wow.IpcLength
