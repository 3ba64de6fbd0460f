import Wow.Base.Ipc
import Mathlib.Logic.Function.Basic

/-!
# Wow.Base.IpcServer — the clients of `ipc_skt_server.c`

The server accepts connections, one thread handles what the clients send, and messages go out by the id of a client
or to all of them.  A connection is a number that is not used again.  What the clients have announced is kept beside
the server (`peers`); the code sees of it whether a connection is open.

A client that goes without an unbind leaves its entry in the list.  To send to it fails, and raises `SIGPIPE`; where
the process does not ignore that, it ends (`none`).  The acknowledgements to the clients are left out.
-/

namespace Wow.IpcServer

open Wow.Ipc

/-! ### Packets -/

def MAX_IPC_NUMNER : Nat := 256

def MAX_IPC_MESSAGE_SIZE : Nat := 1024

def IPC_CMD_BIND : UInt32 := 0x26544357

def IPC_CMD_UNBIND : UInt32 := 0x57544361

def IPC_CMD_COMM : UInt32 := 0x54435761

/-- `IpcPacket_t`. -/
structure IpcPacket where
  flag : UInt32
  funcId : UInt32
  payload : List UInt8
  deriving DecidableEq

/-- `sizeof(IpcHeader_T)`. -/
def headerSize : Int := 24

/-! ### The state -/

/-- `CliSktInfo_T`. -/
structure CliSktInfo where
  bind : Bool
  sktfd : Nat
  cid : UInt32

/-- `SerSktCtx_T`, and what there is on the other side. -/
structure Server where
  serId : UInt32
  clist : List CliSktInfo
  /-- The number of the next connection. -/
  next : Nat
  /-- The clients that are connected, with the id that each has announced last. -/
  peers : Nat → Option (Option UInt32)
  /-- The process ignores `SIGPIPE`. -/
  ignores : Bool

def init (serId : UInt32) (ignores : Bool) : Server := ⟨serId, [], 0, fun _ => none, ignores⟩

namespace Server

/-- `send` of a packet to a client: its result, and the packets that are delivered. -/
def sendTo (w : Server) (client : CliSktInfo) (packet : IpcPacket) : Option (Int × List (Nat × IpcPacket)) :=
  if (w.peers client.sktfd).isSome then some (packet.payload.length + headerSize, [(client.sktfd, packet)])
  else if w.ignores then some (-1, []) else none

/-! ### The list of clients -/

/-- `list_func_find_by_cid`. -/
def listFuncFindByCid (cid : UInt32) (client : CliSktInfo) : Bool := client.cid = cid

/-- `ipc_add_client`. -/
def ipcAddClient (w : Server) (cliSkt : Nat) : Server := { w with clist := w.clist ++ [⟨false, cliSkt, 0⟩] }

/-- `socket_connect_callback`: a connection that is accepted. -/
def socketConnectCallback (w : Server) : Server :=
  if w.clist.length < MAX_IPC_NUMNER then
    { w.ipcAddClient w.next with next := w.next + 1, peers := Function.update w.peers w.next (some none) }
  else w

/-- `ipc_ack_client_bind` on the entry of a connection. -/
def bindEntry (fd : Nat) (funcId : UInt32) (client : CliSktInfo) : CliSktInfo :=
  if client.sktfd = fd then { client with bind := true, cid := getIpcMsgSrc funcId } else client

/-- `ipc_ack_client_bind`. -/
def ipcAckClientBind (w : Server) (fd : Nat) (funcId : UInt32) : Server :=
  { w with clist := w.clist.map (bindEntry fd funcId) }

/-- `ipc_ack_client_unbind`. -/
def ipcAckClientUnbind (w : Server) (client : CliSktInfo) : Server :=
  if client.bind then { w with clist := w.clist.filter fun e => e.sktfd ≠ client.sktfd } else w

/-- What a client announces, as long as it is connected. -/
def announce (w : Server) (fd : Nat) (cid : UInt32) : Server :=
  { w with peers := Function.update w.peers fd ((w.peers fd).map fun _ => some cid) }

/-- A connection that is closed, by either side. -/
def close (w : Server) (fd : Nat) : Server := { w with peers := Function.update w.peers fd none }

/-- `server_recv_callback` of a packet that is at least a header. -/
def serverRecvCallback (w : Server) (fd : Nat) (flag funcId : UInt32) : Option Server :=
  match w.clist.find? fun e => e.sktfd = fd with
  | none => some w
  | some client =>
    if flag = IPC_CMD_BIND then
      -- the acknowledgement
      (w.sendTo client ⟨flag, funcId, []⟩).map fun _ => (w.ipcAckClientBind fd funcId).announce fd (getIpcMsgSrc funcId)
    else if flag = IPC_CMD_UNBIND then
      if client.bind then
        (w.sendTo client ⟨flag, funcId, []⟩).map fun _ => (w.ipcAckClientUnbind client).close fd
      else some w
    else some w

/-! ### Sending -/

/-- `ipc_skt_send`: what it returns, and the packets that are delivered. -/
def ipcSktSend (w : Server) (funcId : UInt32) (buf : List UInt8) : Option (Int × List (Nat × IpcPacket)) :=
  if buf.length < MAX_IPC_MESSAGE_SIZE then
    match w.clist.find? (listFuncFindByCid (getIpcMsgDest funcId)) with
    | none => some (-1, [])
    | some client => (w.sendTo client ⟨IPC_CMD_COMM, funcId, buf⟩).map fun r => (r.1 - headerSize, r.2)
  else some (-1, [])

/-- The loop of `ipc_skt_broadcast`. -/
def broadcastLoop (w : Server) (modId : UInt32) (buf : List UInt8) :
    List CliSktInfo → Option (List (Nat × IpcPacket))
  | [] => some []
  | client :: rest =>
    if client.bind then
      (w.sendTo client ⟨IPC_CMD_COMM, buildIpcMsgId client.cid w.serId modId, buf⟩).bind fun r =>
        (broadcastLoop w modId buf rest).map fun sent => r.2 ++ sent
    else broadcastLoop w modId buf rest

/-- `ipc_skt_broadcast`. -/
def ipcSktBroadcast (w : Server) (modId : UInt32) (buf : List UInt8) : Option (Int × List (Nat × IpcPacket)) :=
  if buf.length < MAX_IPC_MESSAGE_SIZE then (w.broadcastLoop modId buf w.clist).map fun sent => (0, sent)
  else some (-1, [])

end Server

/-! ### The run -/

inductive Event where
  | connect
  /-- A client has sent a packet; it may have gone since. -/
  | recv (fd : Nat) (flag funcId : UInt32)
  /-- A client closes its connection, or ends. -/
  | close (fd : Nat)

def step (w : Server) : Event → Option Server
  | .connect => some w.socketConnectCallback
  | .recv fd flag funcId => w.serverRecvCallback fd flag funcId
  | .close fd => some (w.close fd)

/-- The state after some events, unless the process has ended. -/
def events (w : Server) : List Event → Option Server
  | [] => some w
  | e :: es => (step w e).bind fun w => events w es

end Wow.IpcServer
