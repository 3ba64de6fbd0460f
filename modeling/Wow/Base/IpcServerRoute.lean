import Wow.Base.IpcServer
import Mathlib.Data.List.Nodup

/-!
# Wow.Base.IpcServerRoute — to whom the server sends

A client that has not bound has an entry with the id 0, and one that has gone without an unbind keeps its entry.  The
search by id stops at the first entry, whatever it is; a broadcast leaves out the first kind, and passes over the
second as long as the process survives it.

* `Inv`: the entries beside what the clients have announced; `step_kept`.
* `send_right_iff`, `broadcast_right_iff`: when a message goes where it should.
* `routes_iff`: every state that a run reaches.
-/

namespace Wow.IpcServer

open Wow.Ipc Server

/-! ### The requirement -/

/-- **A message to an id** is delivered to a connected client that has announced it last, and fails if there is
none. -/
def SendRight (w : Server) (funcId : UInt32) (buf : List UInt8) : Prop :=
  ∃ ret sent, w.ipcSktSend funcId buf = some (ret, sent) ∧
    ((∃ fd, w.peers fd = some (some (getIpcMsgDest funcId))) → ret = buf.length ∧
      ∃ fd, w.peers fd = some (some (getIpcMsgDest funcId)) ∧ sent = [(fd, ⟨IPC_CMD_COMM, funcId, buf⟩)]) ∧
    ((∀ fd, w.peers fd ≠ some (some (getIpcMsgDest funcId))) → ret < 0 ∧ sent = [])

/-- **A broadcast** is delivered once to each connected client that has bound, and to no other one. -/
def BroadcastRight (w : Server) (modId : UInt32) (buf : List UInt8) : Prop :=
  ∃ sent, w.ipcSktBroadcast modId buf = some (0, sent) ∧ (sent.map Prod.fst).Nodup ∧
    ∀ fd p, (fd, p) ∈ sent ↔ ∃ c, w.peers fd = some (some c) ∧ p = ⟨IPC_CMD_COMM, buildIpcMsgId c w.serId modId, buf⟩

/-! ### The condition -/

/-- **The first entry of an id** is of a client that has bound, or of one that has gone while no connected client
has announced the id, and the process survives the attempt. -/
def Clear (w : Server) (cid : UInt32) : Prop :=
  match w.clist.find? (listFuncFindByCid cid) with
  | none => True
  | some e =>
    if (w.peers e.sktfd).isSome then e.bind = true
    else w.ignores = true ∧ ∀ e ∈ w.clist, w.peers e.sktfd ≠ some (some cid)

/-- No client that has bound has gone, or the process survives it. -/
def Safe (w : Server) : Prop := w.ignores = true ∨ ∀ e ∈ w.clist, e.bind = true → (w.peers e.sktfd).isSome

instance (w : Server) (cid : UInt32) : Decidable (Clear w cid) := by
  unfold Clear
  split <;> infer_instance

instance (w : Server) : Decidable (Safe w) := inferInstanceAs (Decidable (_ ∨ _))

/-! ### The invariant -/

/-- **The invariant**: each connected client has an entry, which knows what it has announced. -/
structure Inv (w : Server) : Prop where
  fresh : ∀ fd, w.next ≤ fd → w.peers fd = none
  bound : ∀ e ∈ w.clist, e.sktfd < w.next
  nodup : (w.clist.map CliSktInfo.sktfd).Nodup
  agrees : ∀ e ∈ w.clist, ∀ a, w.peers e.sktfd = some a → a = if e.bind then some e.cid else none
  entry : ∀ fd a, w.peers fd = some a → ∃ e ∈ w.clist, e.sktfd = fd

variable {w w' : Server} {fd : Nat} {cid funcId modId : UInt32} {buf : List UInt8}

theorem inv_init (serId : UInt32) (ignores : Bool) : Inv (init serId ignores) :=
  ⟨fun _ _ => rfl, nofun, List.nodup_nil, nofun, nofun⟩

/-- A connected client that has announced an id has an entry that is bound to it. -/
theorem Inv.entry_of_announced (h : Inv w) (hfd : w.peers fd = some (some cid)) :
    ∃ e ∈ w.clist, e.sktfd = fd ∧ e.bind = true ∧ e.cid = cid := by
  obtain ⟨e, he, rfl⟩ := h.entry fd _ hfd
  have hagrees := h.agrees e he _ hfd
  split_ifs at hagrees with hbind
  exact ⟨e, he, rfl, hbind, (Option.some_inj.mp hagrees).symm⟩

theorem sktfd_bindEntry {e : CliSktInfo} : (bindEntry fd funcId e).sktfd = e.sktfd := by
  rw [bindEntry]
  split_ifs <;> rfl

theorem peers_close {fd' : Nat} : (w.close fd).peers fd' = if fd' = fd then none else w.peers fd' := by
  simp only [Server.close, Function.update_apply]

theorem peers_announce {fd' : Nat} :
    (w.announce fd cid).peers fd' = if fd' = fd then (w.peers fd).map fun _ => some cid else w.peers fd' := by
  simp only [announce, Function.update_apply]

theorem Inv.connect (h : Inv w) : Inv w.socketConnectCallback := by
  rw [socketConnectCallback]
  split_ifs
  · have hold {e : CliSktInfo} (he : e ∈ w.clist) : e.sktfd ≠ w.next := Nat.ne_of_lt (h.bound e he)
    refine ⟨fun fd hfd => ?_, fun e he => ?_, ?_, fun e he a ha => ?_, fun fd a ha => ?_⟩
    · have hlt : w.next < fd := hfd
      exact (Function.update_of_ne (Nat.ne_of_gt hlt) _ _).trans (h.fresh fd (Nat.le_of_lt hlt))
    · obtain he | he := List.mem_append.mp he
      · exact Nat.lt_succ_of_lt (h.bound e he)
      · obtain rfl := List.mem_singleton.mp he
        exact Nat.lt_succ_self _
    · change ((w.clist ++ [_]).map CliSktInfo.sktfd).Nodup
      rw [List.map_append, List.map_singleton]
      refine h.nodup.append (List.nodup_singleton _) ?_
      intro fd hfd hlast
      obtain ⟨e, he, rfl⟩ := List.mem_map.mp hfd
      exact hold he (List.mem_singleton.mp hlast)
    · obtain he | he := List.mem_append.mp he
      · exact h.agrees e he a ((Function.update_of_ne (hold he) _ _).symm.trans ha)
      · obtain rfl := List.mem_singleton.mp he
        have hnew : Function.update w.peers w.next (some none) w.next = some none := Function.update_self _ _ _
        exact (Option.some_inj.mp (hnew.symm.trans ha)).symm
    · by_cases hfd : fd = w.next
      · exact ⟨_, List.mem_append_right _ List.mem_cons_self, hfd.symm⟩
      · obtain ⟨e, he, hefd⟩ := h.entry fd a ((Function.update_of_ne hfd _ _).symm.trans ha)
        exact ⟨e, List.mem_append_left _ he, hefd⟩
  · exact h

theorem Inv.close (h : Inv w) (fd : Nat) : Inv (w.close fd) := by
  have hopen {fd' : Nat} {a : Option UInt32} (ha : (w.close fd).peers fd' = some a) : w.peers fd' = some a := by
    rw [peers_close] at ha
    split_ifs at ha
    exact ha
  refine ⟨fun fd' hfd' => ?_, h.bound, h.nodup, fun e he a ha => h.agrees e he a (hopen ha),
    fun fd' a ha => h.entry fd' a (hopen ha)⟩
  rw [peers_close, h.fresh fd' hfd', ite_self]

/-- **A bind** changes the entry and what is announced alike. -/
theorem Inv.bind (h : Inv w) (fd : Nat) (funcId : UInt32) :
    Inv ((w.ipcAckClientBind fd funcId).announce fd (getIpcMsgSrc funcId)) := by
  have hpeers : (w.ipcAckClientBind fd funcId).peers = w.peers := rfl
  refine ⟨fun fd' hfd' => ?_, fun e he => ?_, ?_, fun e he a ha => ?_, fun fd' a ha => ?_⟩
  · rw [peers_announce, hpeers, h.fresh fd' hfd']
    split_ifs with heq
    · rw [← heq, h.fresh fd' hfd', Option.map_none]
    · rfl
  · obtain ⟨e₀, he₀, rfl⟩ := List.mem_map.mp he
    rw [sktfd_bindEntry]
    exact h.bound e₀ he₀
  · have hsktfd : (w.clist.map (bindEntry fd funcId)).map CliSktInfo.sktfd = w.clist.map CliSktInfo.sktfd := by
      rw [List.map_map]
      exact List.map_congr_left fun e _ => sktfd_bindEntry
    exact hsktfd ▸ h.nodup
  · obtain ⟨e₀, he₀, rfl⟩ := List.mem_map.mp he
    rw [peers_announce, hpeers, sktfd_bindEntry] at ha
    rw [bindEntry]
    split_ifs at ha ⊢ with heq hbind hbind
    · obtain ⟨_, -, rfl⟩ := Option.map_eq_some_iff.mp ha
      rfl
    · exact absurd rfl hbind
    · exact (h.agrees e₀ he₀ a ha).trans (if_pos hbind)
    · exact (h.agrees e₀ he₀ a ha).trans (if_neg hbind)
  · rw [peers_announce, hpeers] at ha
    have hopen : ∃ a, w.peers fd' = some a := by
      split_ifs at ha with heq
      · obtain ⟨a', ha', -⟩ := Option.map_eq_some_iff.mp ha
        exact ⟨a', heq ▸ ha'⟩
      · exact ⟨a, ha⟩
    obtain ⟨a', ha'⟩ := hopen
    obtain ⟨e, he, rfl⟩ := h.entry fd' a' ha'
    exact ⟨_, List.mem_map_of_mem he, sktfd_bindEntry⟩

/-- **An unbind** removes the entry and closes the connection. -/
theorem Inv.unbind (h : Inv w) {client : CliSktInfo} (hbind : client.bind = true) (hfd : client.sktfd = fd) :
    Inv ((w.ipcAckClientUnbind client).close fd) := by
  have hw : w.ipcAckClientUnbind client = { w with clist := w.clist.filter fun e => e.sktfd ≠ fd } := by
    rw [ipcAckClientUnbind, if_pos hbind, hfd]
  rw [hw]
  have hclose := h.close fd
  have hsub {e : CliSktInfo} (he : e ∈ w.clist.filter fun e => e.sktfd ≠ fd) : e ∈ w.clist := (List.mem_filter.mp he).1
  refine ⟨hclose.fresh, fun e he => h.bound e (hsub he), ?_, fun e he => hclose.agrees e (hsub he), fun fd' a ha => ?_⟩
  · exact h.nodup.sublist ((List.filter_sublist).map _)
  · obtain ⟨e, he, rfl⟩ := hclose.entry fd' a ha
    refine ⟨e, List.mem_filter.mpr ⟨he, ?_⟩, rfl⟩
    rw [peers_close] at ha
    split_ifs at ha with heq
    exact decide_eq_true heq

/-- **One step**. -/
theorem step_kept (h : Inv w) {e : Event} (hstep : step w e = some w') : Inv w' := by
  cases e with
  | connect =>
    obtain rfl := Option.some_inj.mp hstep
    exact h.connect
  | close fd =>
    obtain rfl := Option.some_inj.mp hstep
    exact h.close fd
  | recv fd flag funcId =>
    simp only [step, serverRecvCallback] at hstep
    cases hfind : w.clist.find? fun e => e.sktfd = fd with
    | none =>
      rw [hfind] at hstep
      obtain rfl := Option.some_inj.mp hstep
      exact h
    | some client =>
      rw [hfind] at hstep
      have hfd : client.sktfd = fd := by simpa using List.find?_some hfind
      dsimp only at hstep
      split_ifs at hstep with hb hu hbind
      · obtain ⟨_, -, rfl⟩ := Option.map_eq_some_iff.mp hstep
        exact h.bind fd funcId
      · obtain ⟨_, -, rfl⟩ := Option.map_eq_some_iff.mp hstep
        exact h.unbind hbind hfd
      · obtain rfl := Option.some_inj.mp hstep
        exact h
      · obtain rfl := Option.some_inj.mp hstep
        exact h

/-- **Every run**. -/
theorem run_kept (h : Inv w) (es : List Event) (hrun : events w es = some w') : Inv w' := by
  induction es generalizing w with
  | nil => exact Option.some_inj.mp hrun ▸ h
  | cons e es ih =>
    obtain ⟨w₁, hstep, hrest⟩ := Option.bind_eq_some_iff.mp hrun
    exact ih (step_kept h hstep) hrest

/-! ### Sending -/

theorem sendTo_open {client : CliSktInfo} (hopen : (w.peers client.sktfd).isSome) (packet : IpcPacket) :
    w.sendTo client packet = some (packet.payload.length + headerSize, [(client.sktfd, packet)]) := if_pos hopen

theorem sendTo_closed {client : CliSktInfo} (hopen : ¬ (w.peers client.sktfd).isSome) (packet : IpcPacket) :
    w.sendTo client packet = if w.ignores then some (-1, []) else none := if_neg hopen

/-- **A message to an id** goes where it should if and only if the first entry of the id is not in the way. -/
theorem send_right_iff (h : Inv w) (hlen : buf.length < MAX_IPC_MESSAGE_SIZE) :
    SendRight w funcId buf ↔ Clear w (getIpcMsgDest funcId) := by
  set c := getIpcMsgDest funcId with hc
  have hsend : w.ipcSktSend funcId buf = match w.clist.find? (listFuncFindByCid c) with
      | none => some (-1, [])
      | some client => (w.sendTo client ⟨IPC_CMD_COMM, funcId, buf⟩).map fun r => (r.1 - headerSize, r.2) := if_pos hlen
  rw [SendRight, Clear, hsend]
  cases hfind : w.clist.find? (listFuncFindByCid c) with
  | none =>
    -- a client that has announced the id would have an entry
    refine iff_of_true ⟨-1, [], rfl, fun ⟨fd, hfd⟩ => ?_, fun _ => ⟨by decide, rfl⟩⟩ trivial
    obtain ⟨e, he, -, -, hcid⟩ := h.entry_of_announced hfd
    exact absurd (decide_eq_true hcid) (List.find?_eq_none.mp hfind e he)
  | some e =>
    have he : e ∈ w.clist := List.mem_of_find?_eq_some hfind
    have hcid : e.cid = c := by simpa [listFuncFindByCid] using List.find?_some hfind
    dsimp only
    by_cases hopen : (w.peers e.sktfd).isSome
    · rw [if_pos hopen, sendTo_open hopen, Option.map_some]
      obtain ⟨a, ha⟩ := Option.isSome_iff_exists.mp hopen
      have hagrees := h.agrees e he a ha
      constructor
      · rintro ⟨ret, sent, hsent, hsome, hnone⟩
        obtain ⟨rfl, rfl⟩ := Prod.mk.inj (Option.some_inj.mp hsent)
        by_cases hann : ∃ fd, w.peers fd = some (some c)
        · obtain ⟨-, fd, hfd, hone⟩ := hsome hann
          obtain rfl : e.sktfd = fd := (Prod.mk.inj (List.cons.inj hone).1).1
          obtain rfl := Option.some_inj.mp (ha.symm.trans hfd)
          split_ifs at hagrees with hbind
          exact hbind
        · exact absurd (hnone (not_exists.mp hann)).2 (List.cons_ne_nil _ _)
      · intro hbind
        rw [if_pos hbind, hcid] at hagrees
        subst hagrees
        refine ⟨_, _, rfl, fun _ => ⟨?_, e.sktfd, ha, rfl⟩, fun hnone => absurd ha (hnone _)⟩
        exact Int.add_sub_cancel _ _
    · rw [if_neg hopen, sendTo_closed hopen]
      by_cases hig : w.ignores = true
      · rw [if_pos hig, Option.map_some]
        constructor
        · rintro ⟨ret, sent, hsent, hsome, -⟩
          obtain ⟨rfl, rfl⟩ := Prod.mk.inj (Option.some_inj.mp hsent)
          refine ⟨hig, fun e' _ hfd => ?_⟩
          obtain ⟨-, _, -, hone⟩ := hsome ⟨_, hfd⟩
          cases hone
        · rintro ⟨-, hnone⟩
          refine ⟨_, _, rfl, fun ⟨fd, hfd⟩ => ?_, fun _ => ⟨by decide, rfl⟩⟩
          obtain ⟨e', he', rfl, -, -⟩ := h.entry_of_announced hfd
          exact absurd hfd (hnone e' he')
      · rw [if_neg hig, Option.map_none]
        exact iff_of_false (fun ⟨_, _, hsent, _⟩ => nomatch hsent) fun hclear => hig hclear.1

/-! ### Broadcasts -/

/-- The entries that a broadcast reaches. -/
def Reached (w : Server) (e : CliSktInfo) : Bool := e.bind && (w.peers e.sktfd).isSome

/-- What they get. -/
def broadcastTo (w : Server) (modId : UInt32) (buf : List UInt8) (e : CliSktInfo) : Nat × IpcPacket :=
  (e.sktfd, ⟨IPC_CMD_COMM, buildIpcMsgId e.cid w.serId modId, buf⟩)

/-- **The loop** that the process survives. -/
theorem broadcastLoop_eq {L : List CliSktInfo}
    (hL : w.ignores = true ∨ ∀ e ∈ L, e.bind = true → (w.peers e.sktfd).isSome) :
    w.broadcastLoop modId buf L = some ((L.filter (Reached w)).map (broadcastTo w modId buf)) := by
  induction L with
  | nil => rfl
  | cons e L ih =>
    have hrest := ih (hL.imp_right fun h e' he' => h e' (List.mem_cons_of_mem _ he'))
    simp only [broadcastLoop, hrest, Option.map_some]
    by_cases hbind : e.bind = true
    · rw [if_pos hbind]
      by_cases hopen : (w.peers e.sktfd).isSome = true
      · have hreach : Reached w e = true := by rw [Reached, hbind, hopen, Bool.and_self]
        rw [sendTo_open hopen, List.filter_cons_of_pos hreach]
        rfl
      · have hig : w.ignores = true := hL.resolve_right fun h => hopen (h e List.mem_cons_self hbind)
        have hreach : ¬ Reached w e = true := by rw [Reached, Bool.and_eq_true]; exact fun h => hopen h.2
        rw [sendTo_closed hopen, if_pos hig, List.filter_cons_of_neg hreach]
        rfl
    · have hreach : ¬ Reached w e = true := by rw [Reached, Bool.and_eq_true]; exact fun h => hbind h.1
      rw [if_neg hbind, List.filter_cons_of_neg hreach]

/-- A client that has gone ends the process. -/
theorem broadcastLoop_none {L : List CliSktInfo} {e : CliSktInfo} (hig : ¬ w.ignores = true) (he : e ∈ L)
    (hbind : e.bind = true) (hopen : ¬ (w.peers e.sktfd).isSome) : w.broadcastLoop modId buf L = none := by
  induction L with
  | nil => cases he
  | cons e' L ih =>
    rw [broadcastLoop]
    obtain rfl | he := List.mem_cons.mp he
    · rw [if_pos hbind, sendTo_closed hopen, if_neg hig, Option.bind_none]
    · simp only [ih he, Option.map_none, Option.bind_fun_none, ite_self]

/-- **A broadcast** is right if and only if the process survives it. -/
theorem broadcast_right_iff (h : Inv w) (hlen : buf.length < MAX_IPC_MESSAGE_SIZE) :
    BroadcastRight w modId buf ↔ Safe w := by
  rw [BroadcastRight, ipcSktBroadcast, if_pos hlen]
  constructor
  · rintro ⟨sent, hsent, -⟩
    by_contra hsafe
    obtain ⟨hig, hgone⟩ := not_or.mp hsafe
    push Not at hgone
    obtain ⟨e, he, hbind, hopen⟩ := hgone
    rw [broadcastLoop_none hig he hbind hopen] at hsent
    cases hsent
  · intro hsafe
    rw [broadcastLoop_eq hsafe]
    refine ⟨_, rfl, ?_, fun fd p => ?_⟩
    · rw [List.map_map]
      exact h.nodup.sublist ((List.filter_sublist).map _)
    · rw [List.mem_map]
      constructor
      · rintro ⟨e, he, heq⟩
        obtain ⟨he, hreach⟩ := List.mem_filter.mp he
        obtain ⟨hbind, hopen⟩ := (Bool.and_eq_true _ _).mp hreach
        obtain ⟨a, ha⟩ := Option.isSome_iff_exists.mp hopen
        obtain ⟨rfl, rfl⟩ := Prod.mk.inj heq
        have hagrees := h.agrees e he a ha
        rw [if_pos hbind] at hagrees
        exact ⟨e.cid, hagrees ▸ ha, rfl⟩
      · rintro ⟨c, hfd, rfl⟩
        obtain ⟨e, he, rfl, hbind, rfl⟩ := h.entry_of_announced hfd
        refine ⟨e, List.mem_filter.mpr ⟨he, ?_⟩, rfl⟩
        rw [Reached, hbind, hfd]
        rfl

/-! ### Every run -/

/-- **Where messages go**, in every state that a run reaches. -/
theorem routes_iff (serId : UInt32) (ignores : Bool) (es : List Event) (w : Server)
    (hrun : events (init serId ignores) es = some w) (funcId modId : UInt32) (buf : List UInt8)
    (hlen : buf.length < MAX_IPC_MESSAGE_SIZE) :
    (SendRight w funcId buf ↔ Clear w (getIpcMsgDest funcId)) ∧ (BroadcastRight w modId buf ↔ Safe w) := by
  have h := run_kept (inv_init serId ignores) es hrun
  exact ⟨send_right_iff h hlen, broadcast_right_iff h hlen⟩

/-- A client that announces the id 2. -/
def bindTwo (fd : Nat) : Event := .recv fd IPC_CMD_BIND (buildIpcMsgId 1 2 0xFFFF)

/-- A client binds, and another one only connects. -/
def oneBound : List Event := [.connect, bindTwo 0, .connect]

/-- The bound client gets messages to it and broadcasts; a message to the id 0 goes to the one that has not bound. -/
theorem routes_demo : ∃ w, events (init 1 true) oneBound = some w ∧ SendRight w (buildIpcMsgId 2 1 7) [9] ∧
    BroadcastRight w 7 [9] ∧ ¬ SendRight w (buildIpcMsgId 0 1 7) [9] := by
  obtain ⟨w, hrun⟩ : ∃ w, events (init 1 true) oneBound = some w := ⟨_, rfl⟩
  have hroutes (funcId : UInt32) := routes_iff 1 true oneBound w hrun funcId 7 [9] (by decide)
  obtain rfl := Option.some_inj.mp hrun
  refine ⟨_, rfl, (hroutes _).1.mpr (by decide), (hroutes 0).2.mpr (by decide), fun h => ?_⟩
  exact absurd ((hroutes _).1.mp h) (by decide)

/-- A client closes without an unbind, and its successor binds with the same id. -/
def reconnected : List Event := [.connect, bindTwo 0, .close 0, .connect, bindTwo 1]

/-- The successor does not get the message. -/
theorem not_routes : ∃ w, events (init 1 true) reconnected = some w ∧ w.peers 1 = some (some 2) ∧
    ¬ SendRight w (buildIpcMsgId 2 1 7) [9] := by
  obtain ⟨w, hrun⟩ : ∃ w, events (init 1 true) reconnected = some w := ⟨_, rfl⟩
  have hinv := run_kept (inv_init 1 true) reconnected hrun
  have hsend : SendRight w (buildIpcMsgId 2 1 7) [9] ↔ Clear w (getIpcMsgDest (buildIpcMsgId 2 1 7)) :=
    send_right_iff hinv (by decide)
  obtain rfl := Option.some_inj.mp hrun
  exact ⟨_, rfl, by decide, fun h => absurd (hsend.mp h) (by decide)⟩

end Wow.IpcServer
