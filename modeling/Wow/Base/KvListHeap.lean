import Wow.Base.KvListTree
import Mathlib.Logic.Function.Basic

/-!
# Wow.Base.KvListHeap — the key-value list on a heap of buffers

The buffers of the caller and those of the list lie on one heap and have numbers that are never used again.  The
heap remembers which buffers the list allocated and which it released; to read a buffer that is not there, or has
no terminator, is a fault, and so is to release one twice.  Between the calls the caller makes, overwrites and
drops buffers of his own (`Event`).

* `Owns`: what it means that the list owns its buffers.
* `Owned`: the same for the entries of a tree, with the strings they read as; `Owned.cons`, `Owned.tail`,
  `Owned.release` and `Owned.frame` say how the entries change hands.
-/

namespace Wow.KvList

open Avl Avl.Tree

/-! ### The heap -/

structure Heap where
  /-- The buffers that are live. -/
  bufs : Nat → Option (List UInt8)
  next : Nat
  /-- The buffers that the list allocated. -/
  made : List Nat
  /-- The buffers that the list released. -/
  freed : List Nat
  /-- What a byte of a new block holds. -/
  fill : UInt8

namespace Heap

/-- The string in a buffer. -/
def str (h : Heap) (p : Nat) : Option CStr := (h.bufs p).bind cstr

/-- A new buffer of the list. -/
def malloc (h : Heap) (bytes : List UInt8) : Nat × Heap :=
  (h.next, { h with bufs := Function.update h.bufs h.next (some bytes), next := h.next + 1, made := h.next :: h.made })

/-- A buffer released by the list. -/
def release (h : Heap) (p : Nat) : Heap :=
  { h with bufs := Function.update h.bufs p none, freed := p :: h.freed }

/-- Other contents of a buffer, or none. -/
def put (h : Heap) (p : Nat) (b : Option (List UInt8)) : Heap := { h with bufs := Function.update h.bufs p b }

/-- A buffer of the caller: live, and not from the list. -/
def Callers (h : Heap) (p : Nat) : Prop := (h.bufs p).isSome = true ∧ p ∉ h.made

instance (h : Heap) (p : Nat) : Decidable (h.Callers p) := inferInstanceAs (Decidable (_ ∧ _))

end Heap

def heap : Buffers Heap Nat where
  strcmp h p q := (h.str p).bind fun a => (h.str q).map fun b => strcmp a.chars b.chars
  dup h p := (h.str p).map fun a => h.malloc a.bytes
  copy h p := (h.str p).map fun a => h.malloc (a.chars ++ [h.fill])
  free h p := (h.bufs p).map fun _ => h.release p

/-! ### The caller -/

/-- The arguments of a call. -/
def Call.args {P : Type} : Call P → List P
  | .set key val | .update key val => key.toList ++ val.toList
  | .delete key => key.toList

/-- What the caller does. -/
inductive Event where
  /-- Make a buffer. -/
  | own (bytes : List UInt8)
  /-- Change a buffer. -/
  | write (p : Nat) (bytes : List UInt8)
  /-- Drop a buffer. -/
  | drop (p : Nat)
  /-- Call the list, new blocks being full of `fill`. -/
  | call (c : Call Nat) (fill : UInt8)

/-- The list and the heap, if there was no fault. -/
abbrev World := KvList Heap Nat

def create : World := wowKvlistCreate ⟨fun _ => none, 0, [], [], 0⟩

/-- The arguments are strings of the caller. -/
def Passes (s : World) (c : Call Nat) : Prop := ∀ p ∈ c.args, s.mem.Callers p ∧ (s.mem.str p).isSome = true

instance (s : World) (c : Call Nat) : Decidable (Passes s c) := inferInstanceAs (Decidable (∀ p ∈ c.args, _))

/-- The heap with blocks full of `fill`. -/
def World.filled (s : World) (fill : UInt8) : World := { s with mem := { s.mem with fill := fill } }

/-- One event; what the caller may not do does nothing. -/
def step (s : World) : Event → Option World
  | .own bytes => some { s with mem := { s.mem.put s.mem.next (some bytes) with next := s.mem.next + 1 } }
  | .write p bytes => some (if s.mem.Callers p then { s with mem := s.mem.put p (some bytes) } else s)
  | .drop p => some (if s.mem.Callers p then { s with mem := s.mem.put p none } else s)
  | .call c fill => if Passes s c then ((s.filled fill).call heap c).map Prod.snd else some s

def events (s : World) : List Event → Option World
  | [] => some s
  | e :: es => (step s e).bind fun s => events s es

/-! ### What the list owns -/

/-- The buffers of some entries. -/
def buffers {α : Type} (L : List (α × Nat × Nat)) : List Nat := L.flatMap fun e => [e.2.1, e.2.2]

/-- **Ownership**: the buffers of the nodes are strings that the list allocated, each of them in one place; the
list released what it allocated, and once. -/
structure Owns (s : World) : Prop where
  live : ∀ e ∈ s.root.toList, (s.mem.str e.1).isSome = true ∧ (s.mem.str e.2).isSome = true
  made : ∀ e ∈ s.root.toList, e.1 ∈ s.mem.made ∧ e.2 ∈ s.mem.made
  once : (s.root.toList.flatMap fun e => [e.1, e.2]).Nodup
  freed_made : ∀ p ∈ s.mem.freed, p ∈ s.mem.made
  freed_once : s.mem.freed.Nodup

/-- The same, for entries that read as strings. -/
structure Owned (h : Heap) (L : List (CStr × Nat × Nat)) : Prop where
  keys : ∀ e ∈ L, h.str e.2.1 = some e.1
  values : ∀ e ∈ L, (h.str e.2.2).isSome = true
  once : (buffers L).Nodup
  made : ∀ p ∈ buffers L, p ∈ h.made
  freed_made : ∀ p ∈ h.freed, p ∈ h.made
  freed_once : h.freed.Nodup
  freed_dead : ∀ p ∈ h.freed, h.bufs p = none
  bound : ∀ p, h.bufs p ≠ none ∨ p ∈ h.made → p < h.next

/-! ### Reading -/

section Read

variable {h : Heap} {p q : Nat} {k : CStr} {bytes : List UInt8}

theorem bufs_ne_none (hp : h.str p = some k) : h.bufs p ≠ none := by
  intro hnone
  rw [Heap.str, hnone] at hp
  cases hp

theorem str_congr {h' : Heap} (hp : h'.bufs p = h.bufs p) : h'.str p = h.str p := by
  rw [Heap.str, Heap.str, hp]

@[simp] theorem malloc_fst : (h.malloc bytes).1 = h.next := rfl

theorem str_malloc : (h.malloc bytes).2.str h.next = cstr bytes := by
  simp [Heap.str, Heap.malloc]

theorem str_malloc_of_ne (hp : p ≠ h.next) : (h.malloc bytes).2.str p = h.str p :=
  str_congr (Function.update_of_ne hp _ _)

theorem str_release_of_ne (hp : p ≠ q) : (h.release q).str p = h.str p :=
  str_congr (Function.update_of_ne hp _ _)

theorem put_of_ne (hp : p ≠ q) (b : Option (List UInt8)) : (h.put q b).bufs p = h.bufs p :=
  Function.update_of_ne hp _ _

theorem free_of_live (hp : h.bufs p ≠ none) : heap.free h p = some (h.release p) := by
  obtain ⟨b, hb⟩ := Option.ne_none_iff_exists'.mp hp
  change (h.bufs p).map _ = _
  rw [hb, Option.map_some]

end Read

/-! ### How the entries change hands -/

theorem mem_buffers {α : Type} {L : List (α × Nat × Nat)} {p : Nat} :
    p ∈ buffers L ↔ ∃ e ∈ L, p = e.2.1 ∨ p = e.2.2 := by
  simp [buffers]

@[simp] theorem buffers_cons {α : Type} (e : α × Nat × Nat) (L : List (α × Nat × Nat)) :
    buffers (e :: L) = e.2.1 :: e.2.2 :: buffers L := rfl

namespace Owned

variable {h : Heap} {L L' : List (CStr × Nat × Nat)} {k v : CStr} {kp vp p : Nat}

theorem perm (hL : Owned h L) (hp : L.Perm L') : Owned h L' where
  keys e he := hL.keys e (hp.mem_iff.mpr he)
  values e he := hL.values e (hp.mem_iff.mpr he)
  once := (hp.flatMap_right _).nodup_iff.mp hL.once
  made p hmem := hL.made p ((hp.flatMap_right _).mem_iff.mpr hmem)
  freed_made := hL.freed_made
  freed_once := hL.freed_once
  freed_dead := hL.freed_dead
  bound := hL.bound

theorem lt_next (hL : Owned h L) (hp : p ∈ buffers L) : p < h.next := hL.bound p (Or.inr (hL.made p hp))

/-- The caller's buffers are not among those of the list. -/
theorem ne_of_callers (hL : Owned h L) (hp : h.Callers p) {q : Nat} (hq : q ∈ buffers L) : q ≠ p := by
  rintro rfl
  exact hp.2 (hL.made q hq)

theorem live (hL : Owned h L) (hp : p ∈ buffers L) : h.bufs p ≠ none := by
  obtain ⟨e, he, rfl | rfl⟩ := mem_buffers.mp hp
  · exact bufs_ne_none (hL.keys e he)
  · obtain ⟨v, hv⟩ := Option.isSome_iff_exists.mp (hL.values e he)
    exact bufs_ne_none hv

/-- **Frame**: changes to other buffers do not matter. -/
theorem frame (hL : Owned h L) {h' : Heap} (hstr : ∀ p ∈ buffers L, h'.str p = h.str p) (hmade : h'.made = h.made)
    (hfreed : h'.freed = h.freed) (hdead : ∀ p ∈ h.made, h.bufs p = none → h'.bufs p = none)
    (hbound : ∀ p, h'.bufs p ≠ none ∨ p ∈ h'.made → p < h'.next) : Owned h' L where
  keys e he := by rw [hstr _ (mem_buffers.mpr ⟨e, he, Or.inl rfl⟩), hL.keys e he]
  values e he := by rw [hstr _ (mem_buffers.mpr ⟨e, he, Or.inr rfl⟩), hL.values e he]
  once := hL.once
  made p hp := hmade ▸ hL.made p hp
  freed_made p hp := hmade ▸ hL.freed_made p (hfreed ▸ hp)
  freed_once := hfreed ▸ hL.freed_once
  freed_dead p hp := hdead p (hL.freed_made p (hfreed ▸ hp)) (hL.freed_dead p (hfreed ▸ hp))
  bound := hbound

/-- Entries that are dropped, their buffers unreleased. -/
theorem tail {e : CStr × Nat × Nat} (hL : Owned h (e :: L)) : Owned h L where
  keys d hd := hL.keys d (List.mem_cons_of_mem e hd)
  values d hd := hL.values d (List.mem_cons_of_mem e hd)
  once := (List.nodup_cons.mp (List.nodup_cons.mp hL.once).2).2
  made p hp := hL.made p (List.mem_cons_of_mem _ (List.mem_cons_of_mem _ hp))
  freed_made := hL.freed_made
  freed_once := hL.freed_once
  freed_dead := hL.freed_dead
  bound := hL.bound

/-- The two buffers of an entry. -/
theorem head (hL : Owned h ((k, kp, vp) :: L)) : (kp ≠ vp ∧ kp ∉ buffers L ∧ vp ∉ buffers L) ∧
    (kp ∈ h.made ∧ vp ∈ h.made) ∧ h.bufs kp ≠ none ∧ h.bufs vp ≠ none := by
  have honce := hL.once
  rw [buffers_cons, List.nodup_cons, List.nodup_cons, List.mem_cons, not_or] at honce
  have hkp : kp ∈ buffers ((k, kp, vp) :: L) := List.mem_cons_self
  have hvp : vp ∈ buffers ((k, kp, vp) :: L) := List.mem_cons_of_mem _ List.mem_cons_self
  exact ⟨⟨honce.1.1, honce.1.2, honce.2.1⟩, ⟨hL.made _ hkp, hL.made _ hvp⟩, hL.live hkp, hL.live hvp⟩

/-- A buffer of the list that holds no entry can be released. -/
theorem release (hL : Owned h L) (hmade : p ∈ h.made) (hlive : h.bufs p ≠ none) (hp : p ∉ buffers L) :
    Owned (h.release p) L where
  keys e he := by
    rw [str_release_of_ne fun heq => hp (mem_buffers.mpr ⟨e, he, Or.inl heq.symm⟩), hL.keys e he]
  values e he := by
    rw [str_release_of_ne fun heq => hp (mem_buffers.mpr ⟨e, he, Or.inr heq.symm⟩), hL.values e he]
  once := hL.once
  made := hL.made
  freed_made q hq := (List.mem_cons.mp hq).elim (fun heq => heq ▸ hmade) (hL.freed_made q)
  freed_once := List.nodup_cons.mpr ⟨fun hq => hlive (hL.freed_dead p hq), hL.freed_once⟩
  freed_dead q hq := by
    by_cases hqp : q = p
    · subst hqp
      exact Function.update_self q none h.bufs
    · rw [show (h.release p).bufs q = h.bufs q from Function.update_of_ne hqp _ _]
      exact hL.freed_dead q ((List.mem_cons.mp hq).resolve_left hqp)
  bound q hq := by
    refine hL.bound q (hq.imp_left fun hne hnone => hne ?_)
    by_cases hqp : q = p
    · subst hqp
      exact Function.update_self q none h.bufs
    · rw [show (h.release p).bufs q = h.bufs q from Function.update_of_ne hqp _ _, hnone]

/-- A new buffer of the list disturbs nothing. -/
theorem malloc (hL : Owned h L) (bytes : List UInt8) : Owned (h.malloc bytes).2 L where
  keys e he := by
    rw [str_malloc_of_ne (Nat.ne_of_lt (hL.lt_next (mem_buffers.mpr ⟨e, he, Or.inl rfl⟩))), hL.keys e he]
  values e he := by
    rw [str_malloc_of_ne (Nat.ne_of_lt (hL.lt_next (mem_buffers.mpr ⟨e, he, Or.inr rfl⟩))), hL.values e he]
  once := hL.once
  made p hp := List.mem_cons_of_mem _ (hL.made p hp)
  freed_made p hp := List.mem_cons_of_mem _ (hL.freed_made p hp)
  freed_once := hL.freed_once
  freed_dead p hp := by
    have hne : p ≠ h.next := Nat.ne_of_lt (hL.bound p (Or.inr (hL.freed_made p hp)))
    rw [show (h.malloc bytes).2.bufs p = h.bufs p from Function.update_of_ne hne _ _]
    exact hL.freed_dead p hp
  bound p hp := by
    by_cases hpn : p = h.next
    · rw [hpn]
      exact Nat.lt_succ_self _
    · refine Nat.lt_succ_of_lt (hL.bound p (hp.imp (fun hne => ?_) fun hmem => (List.mem_cons.mp hmem).resolve_left hpn))
      rwa [show (h.malloc bytes).2.bufs p = h.bufs p from Function.update_of_ne hpn _ _] at hne

/-- An entry of two buffers of the list that no entry holds. -/
theorem cons (hL : Owned h L) (hk : h.str kp = some k) (hv : (h.str vp).isSome = true) (hne : kp ≠ vp)
    (hkL : kp ∉ buffers L) (hvL : vp ∉ buffers L) (hkm : kp ∈ h.made) (hvm : vp ∈ h.made) :
    Owned h ((k, kp, vp) :: L) where
  keys e he := (List.mem_cons.mp he).elim (fun heq => heq ▸ hk) (hL.keys e)
  values e he := (List.mem_cons.mp he).elim (fun heq => heq ▸ hv) (hL.values e)
  once := by
    rw [buffers_cons, List.nodup_cons, List.nodup_cons, List.mem_cons, not_or]
    exact ⟨⟨hne, hkL⟩, hvL, hL.once⟩
  made p hp := by
    rw [buffers_cons, List.mem_cons, List.mem_cons] at hp
    rcases hp with rfl | rfl | hp
    · exact hkm
    · exact hvm
    · exact hL.made p hp
  freed_made := hL.freed_made
  freed_once := hL.freed_once
  freed_dead := hL.freed_dead
  bound := hL.bound

end Owned

end Wow.KvList
