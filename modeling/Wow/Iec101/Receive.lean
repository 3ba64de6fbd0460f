import Wow.Iec104.Reassembly
import Wow.Iec101.Requests
import Wow.Iec101.Slave

/-!
# Wow.Iec101.Receive — frames out of the byte array

Both stations append what a read delivers to their byte array and take at most one frame from its front in a round.
They are readers with a buffer in the sense of `Wow.Lib.Stream` as long as no read is longer than the length
octet of `wow_byte_array_append_ndata` and no frame longer than the counter of the check sum loop.

* `buffered_of_reads`: the exec thread of either station.
* `received_iff`: nothing is lost, exactly under these two conditions.
-/

namespace Wow.Iec101

open Iec10x Utils
open Iec104 (CmdFmt ytFmt rx? rxs rxs_append)

/-- The octets of `n` objects, as the head of a frame announces them. -/
def objsLen (n : Nat) (sq : Bool) (sz : Nat) : Nat := if sq then 2 + n * sz else n * (2 + sz)

/-- A frame of variable length around the octets `body`. -/
def octets68 (l : UInt8) (body : List UInt8) : List UInt8 :=
  [variableBegin, l, l, variableBegin] ++ body ++ [checkSum body, frameEnd]

/-- The length is right, there is room for an ASDU head, and the objects of a set-point are all there. -/
structure Whole (l : UInt8) (body : List UInt8) : Prop where
  length : body.length = l.toNat
  head : 8 ≤ body.length
  objs : ∀ fmt, (AsduType.ofCode (body.getD 3 0)).bind ytFmt = some fmt →
    8 + objsLen ((body.getD 4 0).toNat % 128) (decide (128 ≤ (body.getD 4 0).toNat)) fmt.size ≤ body.length

/-- **The frames of IEC 101**, with their check sum and their end. -/
inductive WellFormed : List UInt8 → Prop where
  | frame10 (ctrl a b : UInt8) : WellFormed [stableBegin, ctrl, a, b, checkSum [ctrl, a, b], frameEnd]
  | frame68 (l : UInt8) (body : List UInt8) (h : Whole l body) : WellFormed (octets68 l body)

theorem length_octets68 (l : UInt8) (body : List UInt8) : (octets68 l body).length = body.length + 6 := by
  simp only [octets68, List.length_append, List.length_cons, List.length_nil]
  omega

theorem getElem_octets68 {l : UInt8} {body : List UInt8} {i : Nat} (h : i < body.length)
    (h' : 4 + i < (octets68 l body).length) : (octets68 l body)[4 + i] = body[i] := by
  simp only [octets68, List.append_assoc]
  rw [List.getElem_append_right (by simp), List.getElem_append_left (by simpa using h)]
  simp

/-- The octets of a frame in the buffer. -/
theorem mem_of_slice {m : Mem} {l : UInt8} {body : List UInt8}
    (hslice : m.slice 0 (octets68 l body).length = octets68 l body) {i : Nat} (hi : i < body.length) :
    m (4 + i) = body[i] := by
  have hlen := length_octets68 l body
  have h : (m.slice 0 (octets68 l body).length)[4 + i]? = some (m (4 + i)) := by
    rw [List.getElem?_eq_getElem (by rw [Mem.length_slice]; omega), Mem.getElem_slice, Nat.zero_add]
  rw [hslice, List.getElem?_eq_getElem (by omega), getElem_octets68 hi] at h
  exact (Option.some.inj h).symm

/-! ### The array -/

section Array

variable {a : ByteArrayT} {f : List UInt8}

theorem data_of_front (h : f <+: a.octets) {i : Nat} (hi : i < f.length) : a.data i = f[i] := by
  have hlen := h.length_le
  rw [← ByteArrayT.getElem_octets a (by omega)]
  exact (h.getElem hi).symm

theorem data_of_octets (h : a.octets <+: f) {i : Nat} (hi : i < a.octets.length) (hf : i < f.length) :
    a.data i = f[i] := by
  rw [← ByteArrayT.getElem_octets a hi]
  exact h.getElem hi

/-- Octets are found where the frame has its first one. -/
theorem find_first {b : UInt8} (hpos : 0 < a.size) (hb : a.data 0 = b) : a.find b = some 0 := by
  rw [← hb]
  exact ByteArrayT.find_head hpos

theorem find_other {b : UInt8} (hb : a.data 0 ≠ b) : a.find b ≠ some 0 :=
  fun h => hb (ByteArrayT.find_eq_some h).2.1

theorem octets_eq_nil : a.octets = [] ↔ a.size = 0 := by
  rw [← List.length_eq_zero_iff, ByteArrayT.length_octets]

theorem find_empty (h : a.octets = []) (b : UInt8) : a.find b = none := by
  rw [octets_eq_nil] at h
  rw [ByteArrayT.find, h]
  rfl

theorem slice_of_front (h : f <+: a.octets) {p n : Nat} (hp : p + n ≤ f.length) :
    a.data.slice p n = (f.drop p).take n := by
  refine List.ext_getElem ?_ fun i h1 h2 => ?_
  · rw [Mem.length_slice, List.length_take, List.length_drop]
    omega
  · rw [Mem.length_slice] at h1
    rw [Mem.getElem_slice, List.getElem_take, List.getElem_drop, data_of_front h (by omega)]

/-- Behind a frame the octets are left. -/
theorem octets_remove_of_spared {d : Mem} {len : Nat} (h : ∀ j, len ≤ j → d j = a.data j) :
    ({ a with data := d }.remove 0 len).octets = a.octets.drop len := by
  rw [ByteArrayT.octets_remove_zero]
  refine List.ext_getElem (by simp) fun i h1 h2 => ?_
  rw [List.getElem_drop, List.getElem_drop, ByteArrayT.getElem_octets, ByteArrayT.getElem_octets]
  exact h _ (Nat.le_add_right _ _)

end Array

/-! ### One round -/

/-- The array is inside its memory, and the exec thread is alive. -/
def Station.Sound {σ : Type} (t : Station σ) : Prop := t.looping = false ∧ t.array.size ≤ t.array.capicity

/-- Handlers that take in no frame of their own and write behind no frame. -/
structure Spare {σ : Type} (h : Handlers σ) : Prop where
  rx10 : ∀ s m, rxs ((h.on10 s).run m).2 = []
  rx68 : ∀ s len m, rxs ((h.on68 s len).run m).2 = []
  mem10 : ∀ s m, (h.on10 s).mem m = m
  mem68 : ∀ s m l body, Whole l body → m.slice 0 (octets68 l body).length = octets68 l body →
    ∀ j, (octets68 l body).length ≤ j → (h.on68 s (octets68 l body).length).mem m j = m j

section Round

variable {σ : Type} {h : Handlers σ} {t : Station σ} {read : Read}

/-- A short read is appended. -/
theorem octets_receive (ht : t.array.size ≤ t.array.capicity) (hr : read.val.length ≤ 255) :
    (receive read t).array.octets = t.array.octets ++ read.val ∧
      (receive read t).array.size ≤ (receive read t).array.capicity := by
  unfold receive
  split
  · refine ⟨?_, ByteArrayT.size_le_appendNdata _ _⟩
    rw [ByteArrayT.octets_appendNdata _ ht, Nat.mod_eq_of_lt (by omega), List.take_length]
  · have hnil : read.val = [] := List.eq_nil_of_length_eq_zero (by omega)
    exact ⟨by rw [hnil, List.append_nil], ht⟩

/-- What is in front of a frame is nothing. -/
theorem remove_nothing (a : ByteArrayT) : (a.remove 0 0).octets = a.octets ∧ (a.remove 0 0).size = a.size ∧
    (a.remove 0 0).capicity = a.capicity :=
  ⟨ByteArrayT.octets_remove_zero a 0, ByteArrayT.size_remove_zero a 0, ByteArrayT.capicity_remove a 0 0⟩

/-- A stable frame at the head is found before any other. -/
theorem find_of_stable {a : ByteArrayT} (hpos : 0 < a.size) (h0 : a.data 0 = stableBegin) :
    a.find stableBegin = some 0 ∧ ∀ j, a.find variableBegin = some j → 0 < j := by
  have hne : a.find variableBegin ≠ some 0 := find_other (by rw [h0]; decide)
  refine ⟨find_first hpos h0, fun j hj => Nat.pos_of_ne_zero ?_⟩
  rintro rfl
  exact hne hj

theorem frameParse_of_stable (hpos : 0 < t.array.size) (h0 : t.array.data 0 = stableBegin) :
    frameParse h t = exec10 h 0 t := by
  obtain ⟨hfirst, hlater⟩ := find_of_stable hpos h0
  unfold frameParse
  rw [hfirst]
  cases hf : t.array.find variableBegin with
  | none => rfl
  | some j => exact if_pos (hlater j hf)

theorem frameParse_of_variable (hpos : 0 < t.array.size) (h0 : t.array.data 0 = variableBegin) :
    frameParse h t = exec68 h 0 t := by
  unfold frameParse
  rw [find_first hpos h0]
  cases t.array.find stableBegin with
  | none => rfl
  | some j => exact if_neg (Nat.not_lt_zero j)

theorem frameParse_of_empty (h0 : t.array.octets = []) : frameParse h t = (t, []) := by
  unfold frameParse
  rw [find_empty h0, find_empty h0]

/-- **A frame that is not whole** waits. -/
theorem frameParse_part {f : List UInt8} (hf : WellFormed f) (hpre : t.array.octets <+: f)
    (hlen : t.array.octets.length < f.length) : (frameParse h t).1.array.octets = t.array.octets ∧
      (frameParse h t).1.array.size ≤ t.array.size ∧ (frameParse h t).1.array.capicity = t.array.capicity ∧
        (frameParse h t).1.looping = t.looping ∧ (frameParse h t).2 = [] := by
  obtain ⟨hoct, hsize, hcap⟩ := remove_nothing t.array
  by_cases hnil : t.array.octets = []
  · rw [frameParse_of_empty hnil]
    exact ⟨rfl, Nat.le_refl _, rfl, rfl, rfl⟩
  have hpos : 0 < t.array.size := Nat.pos_of_ne_zero fun h' => hnil (octets_eq_nil.mpr h')
  have hlen' : t.array.size < f.length := by rwa [ByteArrayT.length_octets] at hlen
  cases hf with
  | frame10 ctrl a b =>
    have h0 : t.array.data 0 = stableBegin :=
      data_of_octets hpre (by rwa [ByteArrayT.length_octets]) (Nat.zero_lt_of_lt hlen')
    have hexec : exec10 h 0 t = ({ t with array := t.array.remove 0 0 }, []) := if_pos (by rw [hsize]; exact hlen')
    rw [frameParse_of_stable hpos h0, hexec]
    exact ⟨hoct, Nat.le_of_eq hsize, hcap, rfl, rfl⟩
  | frame68 l body hwhole =>
    have h0 : t.array.data 0 = variableBegin :=
      data_of_octets hpre (by rwa [ByteArrayT.length_octets]) (Nat.zero_lt_of_lt hlen')
    have hexec : exec68 h 0 t = ({ t with array := t.array.remove 0 0 }, []) := by
      unfold exec68 execFrame
      dsimp only
      rw [hsize]
      by_cases hs : t.array.size < stableLen
      · rw [if_pos hs]
      · rw [if_neg hs, if_pos]
        have hs' : ¬ t.array.size < 6 := hs
        have hpre' : (t.array.remove 0 0).octets <+: octets68 l body := hoct.symm ▸ hpre
        have hi : 1 < (t.array.remove 0 0).octets.length := by
          rw [ByteArrayT.length_octets, hsize]
          omega
        have hi' : 1 < (octets68 l body).length := by
          rw [length_octets68]
          omega
        have h1 : (t.array.remove 0 0).data 1 = l := data_of_octets hpre' hi hi'
        rw [h1, ← hwhole.length]
        rw [length_octets68] at hlen'
        exact hlen'
    rw [frameParse_of_variable hpos h0, hexec]
    exact ⟨hoct, Nat.le_of_eq hsize, hcap, rfl, rfl⟩

theorem valid10_of_front {a : ByteArrayT} {ctrl x y : UInt8}
    (h : [stableBegin, ctrl, x, y, checkSum [ctrl, x, y], frameEnd] <+: a.octets) : Valid10 a.data := by
  refine ⟨?_, data_of_front h (i := 5) (by decide : 5 < 6)⟩
  rw [slice_of_front h (p := 1) (n := 3) (by decide : 1 + 3 ≤ 6)]
  exact data_of_front h (i := 4) (by decide : 4 < 6)

theorem valid68_of_front {a : ByteArrayT} {l : UInt8} {body : List UInt8} (hl : body.length = l.toNat)
    (h : octets68 l body <+: a.octets) : Valid68 a.data (octets68 l body).length := by
  have hlen := length_octets68 l body
  have hbody : a.data.slice 4 body.length = body := by
    rw [slice_of_front h (by rw [hlen]; omega), octets68, List.append_assoc]
    simp
  have h1 : a.data 1 = l := data_of_front h (i := 1) (by rw [hlen]; omega)
  have h2 : a.data 2 = l := data_of_front h (i := 2) (by rw [hlen]; omega)
  rw [hlen]
  refine ⟨?_, ?_, by rw [h1, hl], by rw [h1, h2]⟩
  · rw [data_of_front h (by rw [hlen]; omega), show body.length + 6 - 6 = body.length from rfl, hbody]
    simp [octets68]
  · rw [data_of_front h (by rw [hlen]; omega)]
    simp [octets68]

/-- A frame with its end in place, behind whatever checks. -/
theorem execFrame_whole {deal : σ → Nat → Rd (Option (σ × List Act))} {extent : ByteArrayT → Nat}
    {f rest : List UInt8}
    (r : σ × List Act) (hoctets : t.array.octets = f ++ rest) (hge : stableLen ≤ f.length)
    (hext : extent (t.array.remove 0 0) = f.length) (hend : (t.array.remove 0 0).data (f.length - 1) = frameEnd)
    (hrun : (deal t.core f.length).run (t.array.remove 0 0).data = some (r.1, .rx f :: r.2)) (hacts : rxs r.2 = [])
    (hmem : ∀ j, f.length ≤ j → (deal t.core f.length).mem (t.array.remove 0 0).data j = (t.array.remove 0 0).data j) :
    (execFrame deal extent 0 t).1.array.octets = rest ∧ (execFrame deal extent 0 t).1.array.size ≤ t.array.size ∧
      (execFrame deal extent 0 t).1.array.capicity = t.array.capicity ∧
        (execFrame deal extent 0 t).1.looping = t.looping ∧ rxs (execFrame deal extent 0 t).2 = [f] := by
  obtain ⟨hoct, hsize, hcap⟩ := remove_nothing t.array
  have hlen : f.length ≤ (t.array.remove 0 0).size := by
    rw [← ByteArrayT.length_octets, hoct, hoctets, List.length_append]
    exact Nat.le_add_right _ _
  have hexec : execFrame deal extent 0 t = dealWith deal { t with array := t.array.remove 0 0 } f.length := by
    unfold execFrame
    dsimp only
    rw [hext, if_neg (Nat.not_lt.mpr (hge.trans hlen)), if_neg (Nat.not_lt.mpr hlen), if_pos hend]
  rw [hexec, dealWith, hrun]
  refine ⟨?_, ?_, ?_, rfl, ?_⟩
  · rw [octets_remove_of_spared hmem, hoct, hoctets, List.drop_left]
  · rw [ByteArrayT.size_remove_zero]
    exact (Nat.sub_le _ _).trans (Nat.le_of_eq hsize)
  · rw [ByteArrayT.capicity_remove]
    exact hcap
  · show f :: rxs r.2 = [f]
    rw [hacts]

/-- **A whole frame** is taken, and what is behind it is left. -/
theorem frameParse_whole (hspare : Spare h) {f rest : List UInt8} (hf : WellFormed f) (hle : f.length ≤ 257)
    (hoctets : t.array.octets = f ++ rest) : (frameParse h t).1.array.octets = rest ∧
      (frameParse h t).1.array.size ≤ t.array.size ∧ (frameParse h t).1.array.capicity = t.array.capicity ∧
        (frameParse h t).1.looping = t.looping ∧ rxs (frameParse h t).2 = [f] := by
  have hpre' : f <+: t.array.octets := ⟨rest, hoctets.symm⟩
  have hpre : f <+: (t.array.remove 0 0).octets := (remove_nothing t.array).1 ▸ hpre'
  have hlen : f.length ≤ t.array.size := by
    rw [← ByteArrayT.length_octets]
    exact hpre'.length_le
  have hslice : (t.array.remove 0 0).data.slice 0 f.length = f := by
    rw [slice_of_front hpre (Nat.le_of_eq (Nat.zero_add _)), List.drop_zero, List.take_length]
  cases hf with
  | frame10 ctrl a b =>
    have hvalid := valid10_of_front hpre
    have h0 : t.array.data 0 = stableBegin := data_of_front hpre' (Nat.zero_lt_succ 5)
    rw [frameParse_of_stable (Nat.lt_of_lt_of_le (Nat.zero_lt_succ 5) hlen) h0]
    refine execFrame_whole ((h.on10 t.core).run (t.array.remove 0 0).data) hoctets (Nat.le_refl 6) rfl hvalid.2
      ((run_deal10 _ _ _).trans ?_) (hspare.rx10 _ _) fun j _ => ?_
    · have hslice6 : (t.array.remove 0 0).data.slice 0 stableLen = _ := hslice
      rw [if_pos hvalid, hslice6]
    · show (deal10 h.on10 t.core stableLen).mem _ j = _
      rw [mem_deal10, if_pos hvalid, hspare.mem10]
  | frame68 l body hwhole =>
    have hvalid := valid68_of_front hwhole.length hpre
    have h0 : t.array.data 0 = variableBegin := data_of_front hpre' (by rw [length_octets68]; omega)
    have hge : stableLen ≤ (octets68 l body).length := by
      rw [length_octets68]
      exact Nat.le_add_left 6 _
    rw [frameParse_of_variable (Nat.lt_of_lt_of_le (Nat.zero_lt_succ 5) (hge.trans hlen)) h0]
    refine execFrame_whole ((h.on68 t.core (octets68 l body).length).run (t.array.remove 0 0).data) hoctets
      hge hvalid.2.2.1 hvalid.2.1 ((run_deal68 _ _ _ _).trans ?_) (hspare.rx68 _ _ _) fun j hj => ?_
    · rw [if_neg (Nat.not_lt.mpr hle), if_pos hvalid, hslice]
    · rw [mem_deal68 _ _ _ hvalid hle]
      exact hspare.mem68 t.core _ l body hwhole hslice j hj

end Round

/-! ### The exec thread -/

/-- A station whose events are reads, and calls that leave the array alone. -/
structure Reads {σ ε : Type} (step : Station σ → ε → Station σ × List Act) (read? : ε → Option Read) : Prop where
  recv : ∀ t e r, read? e = some r → ∃ h : Handlers σ, Spare h ∧ step t e = recv h r t
  other : ∀ t e, read? e = none → (step t e).1.array = t.array ∧ (step t e).1.looping = t.looping ∧ rxs (step t e).2 = []

section Exec

variable {σ ε : Type} {step : Station σ → ε → Station σ × List Act} {read? : ε → Option Read}

/-- The octets an event brings. -/
def octetsOf (read? : ε → Option Read) (e : ε) : Option (List UInt8) := (read? e).map Subtype.val

/-- A read the length octet of the append holds. -/
def Short (read? : ε → Option Read) (e : ε) : Prop := ∀ r ∈ read? e, r.val.length ≤ 255

/-- **The exec thread is a reader with a buffer.** -/
theorem buffered_of_reads (hr : Reads step read?) : Buffered step (octetsOf read?) rx? (fun t => t.array.octets)
    Station.Sound (Short read?) fun f => WellFormed f ∧ f.length ≤ 257 := by
  -- a short read on a sound station
  have hrecv : ∀ {t e l}, t.Sound → Short read? e → octetsOf read? e = some l → ∃ (h : Handlers σ) (u : Station σ),
      Spare h ∧ step t e = frameParse h u ∧ u.array.octets = t.array.octets ++ l ∧
        u.array.size ≤ u.array.capicity ∧ u.looping = false := by
    intro t e l ht hs hl
    obtain ⟨r, hread, rfl⟩ := Option.map_eq_some_iff.mp hl
    obtain ⟨h, hspare, hstep⟩ := hr.recv t e r hread
    obtain ⟨h1, h2⟩ := octets_receive ht.2 (hs r hread)
    refine ⟨h, receive r t, hspare, ?_, h1, h2, ?_⟩
    · rw [hstep, recv, if_neg (by rw [ht.1]; exact Bool.false_ne_true)]
    · rw [← ht.1, receive]
      split <;> rfl
  have hsound : ∀ {u v : Station σ} {acts : List Act} {rest : List UInt8} {done : List (List UInt8)},
      u.array.size ≤ u.array.capicity → u.looping = false → v.array.octets = rest ∧ v.array.size ≤ u.array.size ∧
        v.array.capicity = u.array.capicity ∧ v.looping = u.looping ∧ rxs acts = done →
      Does rx? (fun t : Station σ => t.array.octets) Station.Sound (v, acts) rest done := by
    rintro u v acts rest done hsize hloop ⟨h1, h2, h3, h4, h5⟩
    exact ⟨⟨h4.trans hloop, h3 ▸ h2.trans hsize⟩, h1, h5⟩
  constructor
  · intro t e ht _ hnone
    obtain ⟨h1, h2, h3⟩ := hr.other t e (Option.map_eq_none_iff.mp hnone)
    exact ⟨⟨h2.trans ht.1, h1 ▸ ht.2⟩, congrArg ByteArrayT.octets h1, h3⟩
  · intro t e l ht hs hl hnil
    obtain ⟨h, u, -, hstep, hoct, hsize, hloop⟩ := hrecv ht hs hl
    rw [hstep, frameParse_of_empty (hoct.trans hnil)]
    exact hsound hsize hloop ⟨hoct.trans hnil, Nat.le_refl _, rfl, rfl, rfl⟩
  · intro t e l f ht hs hl hf hpre hlen
    obtain ⟨h, u, -, hstep, hoct, hsize, hloop⟩ := hrecv ht hs hl
    rw [← hoct] at hpre hlen ⊢
    obtain ⟨h1, h2, h3, h4, h5⟩ := frameParse_part (h := h) hf.1 hpre hlen
    rw [hstep]
    exact hsound hsize hloop ⟨h1, h2, h3, h4, congrArg rxs h5⟩
  · intro t e l f rest ht hs hl hf hwhole
    obtain ⟨h, u, hspare, hstep, hoct, hsize, hloop⟩ := hrecv ht hs hl
    rw [← hoct] at hwhole
    rw [hstep]
    exact hsound hsize hloop (frameParse_whole hspare hf.1 hf.2 hwhole)

/-- The read of a round is behind what the array held. -/
def Appended (read? : ε → Option Read) (t : Station σ) (e : ε) : Prop :=
  ∀ r ∈ read? e, (if t.looping then t.array else (receive r t).array).octets = t.array.octets ++ r.val

/-- **Nothing is lost**: over the events `es` every read is appended, and after any events without an octet, as many
reads as there are frames among them, each frame of `fs` has been taken in once and in order. -/
def Received (step : Station σ → ε → Station σ × List Act) (read? : ε → Option Read) (t : Station σ) (es : List ε)
    (fs : List (List UInt8)) : Prop :=
  Along step (Appended read?) t es ∧
    ∀ es', (∀ l ∈ es'.filterMap (octetsOf read?), l = []) → fs.length ≤ (es'.filterMap (octetsOf read?)).length →
      rxs (run step t (es ++ es')).2 = fs

theorem short_of_appended {t : Station σ} {e : ε} (h : Appended read? t e) : Short read? e := by
  intro r hread
  have hlen := congrArg List.length (h r hread)
  rw [List.length_append, ByteArrayT.length_octets, ByteArrayT.length_octets] at hlen
  split at hlen
  · omega
  · unfold receive at hlen
    split at hlen
    · rw [ByteArrayT.size_appendNdata] at hlen
      omega
    · omega

/-- A frame of variable length is no longer than the check sum loop goes. -/
theorem le_of_taken {t : Station σ} {read : Read} {m : Mem} {len : Nat} (h : t.taken read = .on68 m len) :
    len ≤ 257 := by
  have h68 : ∀ a, taken68 a = .on68 m len → len ≤ 257 := by
    intro a ha
    unfold taken68 at ha
    dsimp only at ha
    split at ha
    next hv =>
      cases ha
      exact hv.2.1
    next => cases ha
  have h10 : ∀ a, taken10 a ≠ .on68 m len := by
    intro a ha
    unfold taken10 at ha
    split at ha <;> cases ha
  unfold Station.taken at h
  split at h
  · cases h
  · unfold taken at h
    split at h
    · cases h
    · exact h68 _ h
    · exact absurd h (h10 _)
    · split at h
      · exact absurd h (h10 _)
      · exact h68 _ h

variable (hr : Reads step read?)
include hr

theorem rx_le {t : Station σ} {es : List ε} : ∀ f ∈ rxs (run step t es).2, f.length ≤ 257 := by
  induction es generalizing t with
  | nil => exact fun f hf => absurd hf List.not_mem_nil
  | cons e es ih =>
    intro f hf
    rw [run_cons, rxs_append, List.mem_append] at hf
    refine hf.elim (fun hf => ?_) (ih f)
    cases hread : read? e with
    | none =>
      rw [(hr.other t e hread).2.2] at hf
      exact absurd hf List.not_mem_nil
    | some r =>
      obtain ⟨h, hspare, hstep⟩ := hr.recv t e r hread
      rw [hstep, acts_recv] at hf
      cases ht : t.taken r with
      | nothing =>
        rw [ht] at hf
        exact absurd hf List.not_mem_nil
      | on10 m =>
        rw [ht] at hf
        have hf' : f ∈ m.slice 0 stableLen :: rxs ((h.on10 t.core).run m).2 := hf
        rw [hspare.rx10, List.mem_singleton] at hf'
        rw [hf', Mem.length_slice]
        decide
      | on68 m len =>
        rw [ht] at hf
        have hf' : f ∈ m.slice 0 len :: rxs ((h.on68 t.core len).run m).2 := hf
        rw [hspare.rx68, List.mem_singleton] at hf'
        rw [hf', Mem.length_slice]
        exact le_of_taken ht

/-- **Nothing is lost** exactly when the reads are short and the frames too. -/
theorem received_iff_of_reads (e₀ : ε) (h₀ : octetsOf read? e₀ = some []) {t : Station σ} (ht : t.Sound)
    (hempty : t.array.octets = []) {es : List ε} {fs : List (List UInt8)} (hwf : ∀ f ∈ fs, WellFormed f)
    (hstream : (es.filterMap (octetsOf read?)).flatten = fs.flatten) :
    Received step read? t es fs ↔ (∀ e ∈ es, Short read? e) ∧ ∀ f ∈ fs, f.length ≤ 257 := by
  have hB := buffered_of_reads hr
  constructor
  · rintro ⟨happ, htaken⟩
    refine ⟨(along_iff_forall t es).mp (along_mono (fun _ _ h => short_of_appended h) happ), ?_⟩
    have hquiet : (List.replicate fs.length e₀).filterMap (octetsOf read?) = List.replicate fs.length [] := by
      rw [List.filterMap_replicate_of_some h₀]
    have h := htaken (List.replicate fs.length e₀) (by rw [hquiet]; exact fun l hl => List.eq_of_mem_replicate hl)
      (by rw [hquiet, List.length_replicate])
    rw [← h]
    exact rx_le hr
  · rintro ⟨hshort, hlen⟩
    have hW : ∀ f ∈ fs, WellFormed f ∧ f.length ≤ 257 := fun f hf => ⟨hwf f hf, hlen f hf⟩
    have hpre : t.array.octets ++ (es.filterMap (octetsOf read?)).flatten = fs.flatten := by
      rw [hempty, List.nil_append, hstream]
    refine ⟨along_mono (fun u e h r hread => ?_) (hB.along_ok hshort ht hW ⟨[], by rw [List.append_nil, hpre]⟩), ?_⟩
    · rw [if_neg (by rw [h.1.1]; exact Bool.false_ne_true)]
      exact (octets_receive h.1.2 (h.2 r hread)).1
    · intro es' hquiet hcount
      refine hB.taken hshort (fun e he r hread => ?_) hquiet ht hempty hW hstream hcount
      have hnil := hquiet r.val (List.mem_filterMap.mpr ⟨e, he, by rw [octetsOf, hread]; rfl⟩)
      rw [hnil]
      exact Nat.zero_le _

end Exec

/-! ### The two stations -/

theorem rxs_andThen {σ : Type} {calls : List (Cmd σ)} (h : ∀ f ∈ calls, ∀ s, rxs (f s).2 = []) (s : σ) :
    rxs (andThen s calls).2 = [] := by
  induction calls generalizing s with
  | nil => rfl
  | cons f calls ih =>
    show rxs ((f s).2 ++ (andThen (f s).1 calls).2) = []
    rw [rxs_append, h f List.mem_cons_self s, ih (fun g hg => h g (List.mem_cons_of_mem f hg))]
    rfl

/-- A call of the station leaves the array alone. -/
theorem call_leaves {σ : Type} {t : Station σ} {f : Cmd σ} (h : ∀ s, rxs (f s).2 = []) :
    (t.call f).1.array = t.array ∧ (t.call f).1.looping = t.looping ∧ rxs (t.call f).2 = [] :=
  ⟨rfl, rfl, h t.core⟩

theorem machine_leaves {σ : Type} {t : Station σ} {f : Cmd σ} (h : ∀ s, rxs (f s).2 = []) :
    (t.machine f).1.array = t.array ∧ (t.machine f).1.looping = t.looping ∧ rxs (t.machine f).2 = [] := by
  unfold Station.machine
  split
  · exact ⟨rfl, rfl, rfl⟩
  · exact call_leaves h

namespace Master

variable (c : Conf)

theorem rxs_serv (x : Service) : rxs (serv c x) = [] := by
  unfold serv
  split <;> rfl

theorem Served.rxs_eq_nil {s : Core} {o : Option (Svc × Iec10xStat)} {r : Core × List Act} (h : Served s o r) :
    rxs r.2 = [] := by
  refine Iec104.rxs_nil_iff.mpr fun a ha => ?_
  rcases h.acts a ha with ⟨n, v, rfl⟩ | ⟨f, rfl⟩
  · rfl
  · rfl

theorem rxs_pollTack (s : Core) : rxs (pollTack c s).2 = [] := by
  unfold pollTack
  split <;> rfl

theorem rxs_machineOf (clock : Clock) (v : Svc) (s : Core) : rxs (machineOf c clock v s).2 = [] := by
  have hpoll := rxs_pollTack c s
  have hserv := fun (acts : List Act) (ha : rxs acts = []) x => show rxs (acts ++ serv c x) = [] by
    rw [rxs_append, ha, rxs_serv]
    rfl
  cases v with
  | callall =>
    simp only [machineOf, machineCallall]
    split
    · rfl
    · split <;> exact hpoll
    · split <;> rfl
    · split <;> rfl
    · exact hserv _ rfl _
    · exact rxs_serv c _
    · rfl
  | callpulse =>
    simp only [machineOf, machineCallpulse]
    split
    · rfl
    · split <;> exact hpoll
    · split <;> rfl
    · exact hserv _ rfl _
    · exact rxs_serv c _
    · rfl
  | yt =>
    simp only [machineOf, machineYt]
    split
    · rfl
    · split <;> exact hpoll
    · split <;> exact hpoll
    · exact rxs_serv c _
    · exact rxs_serv c _
    · rfl
  | yk =>
    simp only [machineOf, machineYk]
    split
    · rfl
    · split <;> exact hpoll
    · split <;> exact hpoll
    · exact rxs_serv c _
    · exact rxs_serv c _
    · rfl

theorem rxs_stateMachine (clock : Clock) (s : Core) : rxs (stateMachine c clock s).2 = [] := by
  have hwork : rxs (machineWork c clock.work clock.work' s).2 = [] := by
    unfold machineWork
    split
    · rfl
    · rfl
    · split
      · exact rxs_serv c _
      · rfl
    · exact rxs_serv c _
    · rfl
    · split <;> rfl
    · rfl
  unfold stateMachine
  dsimp only
  split
  · exact hwork
  · rw [rxs_append, hwork, rxs_andThen fun f hf s' => ?_]
    · rfl
    · simp only [List.mem_cons, List.not_mem_nil, or_false] at hf
      rcases hf with rfl | rfl | rfl | rfl
      · exact rxs_machineOf c clock .callall s'
      · exact rxs_machineOf c clock .callpulse s'
      · exact rxs_machineOf c clock .yt s'
      · exact rxs_machineOf c clock .yk s'

section Writes

variable (s : Core) {m : Mem} {j : Nat}

theorem mem_on10 : (on10 c s).mem m = m := by
  simp only [on10, Rd.mem_bind, Rd.mem_octet, Rd.mem_ite, Rd.mem_pure, ite_self]

theorem mem_asduCall (qualifier : Nat) (confirmed success : Core → Core) :
    (asduCall c s qualifier confirmed success).mem m = m := by
  simp only [asduCall, Rd.mem_bind, Rd.mem_octet, Rd.mem_u16, mem_rdReason, Rd.mem_ite, Rd.mem_pure, ite_self]

theorem mem_asduYk : (asduYk c s).mem m = m := by
  have hack : (buildYkAck c (put .yk .ykCmdExec s)).mem m = m := by
    unfold buildYkAck
    rw [Rd.mem_ite]
    split
    · rfl
    · simp only [Rd.mem_bind, Rd.mem_octet, mem_rdNum, mem_rdSq]
      split
      · rfl
      · simp only [Rd.mem_bind, Rd.mem_octets, Rd.mem_pure]
  simp only [asduYk, Rd.mem_bind, mem_rdReason, mem_rdPn, Rd.mem_ite, hack, Rd.mem_pure, ite_self]

/-- No select octet of a set-point frame is at `j`. -/
def Spares (m : Mem) (j : Nat) : Prop :=
  ∀ fmt, (AsduType.ofCode (Fld.type m)).bind ytFmt = some fmt →
    ∀ i < Fld.num m, j ≠ selectAt (Fld.sq m) fmt.size i

theorem mem_buildYtAck (sendBuf : UInt8) (h : Spares m j) : (buildYtAck c s sendBuf).mem m j = m j := by
  unfold buildYtAck
  rw [Rd.mem_ite]
  split
  · rfl
  · simp only [Rd.mem_bind, Rd.mem_octet, mem_rdNum, mem_rdSq, run_rdNum, run_rdSq, Rd.run_octet]
    split
    next => rfl
    next fmt hfmt =>
      simp only [Rd.mem_bind, Rd.mem_octets, Rd.mem_pure]
      exact (Rd.mem_forN_update Iec104.and_7F_idem (Fld.num m) m j).2 (h fmt hfmt)

/-- **The master writes into set-point frames only**, and there into select octets. -/
theorem mem_on68 (sendBuf : UInt8) (len : Nat) (h : Spares m j) : (on68 c s sendBuf len).mem m j = m j := by
  have hyt : (asduYt c s sendBuf).mem m j = m j := by
    simp only [asduYt, Rd.mem_bind, mem_rdReason, mem_rdPn, Rd.mem_ite, Rd.mem_pure]
    split
    · rfl
    · split
      · exact mem_buildYtAck c _ sendBuf h
      · simp only [ite_self]
  have hdata : (onUserData c s sendBuf).mem m j = m j := by
    simp only [onUserData, Rd.mem_bind, Rd.mem_octet, Rd.run_octet]
    cases AsduType.ofCode (m 7) with
    | none => rfl
    | some t =>
      cases t with
      | mItNa1 | mItTa1 =>
        simp only [asduYm, asduCallAll, Rd.mem_bind, mem_asduMon, mem_asduCall, Rd.mem_pure]
      | cIcNa1 | cCiNa1 => exact congrFun (mem_asduCall c s _ _ _) j
      | cScNa1 | cDcNa1 => exact congrFun (mem_asduYk c s) j
      | cSeNa1 | cSeNc1 => exact hyt
      | mSpNa1 | mDpNa1 | mSpTb1 | mDpTb1 | mMeNa1 | mMeNc1 | mMeTd1 | mMeTf1 => exact congrFun (mem_asduMon c s m _ _ _ _) j
      | _ => rfl
  simp only [on68, Rd.mem_bind, mem_rdFunc, Rd.mem_ite, Rd.mem_pure]
  split
  · exact hdata
  · rfl

/-- Behind a whole frame nothing is written. -/
theorem spares_of_whole {l : UInt8} {body : List UInt8} (hwhole : Whole l body)
    (hslice : m.slice 0 (octets68 l body).length = octets68 l body) (hj : (octets68 l body).length ≤ j) :
    Spares m j := by
  have hlen := length_octets68 l body
  have hhead := hwhole.head
  have hoct : ∀ i (hi : i < body.length), m (4 + i) = body[i] := fun i hi => mem_of_slice hslice hi
  have htype : Fld.type m = body.getD 3 0 := (hoct 3 (by omega)).trans (by simp [show 3 < body.length by omega])
  have hvsq : m 8 = body.getD 4 0 := (hoct 4 (by omega)).trans (by simp [show 4 < body.length by omega])
  intro fmt hfmt i hi
  have hobjs := hwhole.objs fmt (by rw [← htype]; exact hfmt)
  rw [← hvsq] at hobjs
  have hin : selectAt (Fld.sq m) fmt.size i < 12 + objsLen (Fld.num m) (Fld.sq m) fmt.size := by
    have hsz : 0 < fmt.size := by
      cases ht : AsduType.ofCode (Fld.type m) with
      | none =>
        rw [ht] at hfmt
        cases hfmt
      | some t =>
        rw [ht] at hfmt
        cases t <;> cases hfmt <;> decide
    simp only [selectAt, objsLen]
    split
    · have hle : (i + 1) * fmt.size ≤ Fld.num m * fmt.size := Nat.mul_le_mul_right _ hi
      rw [Nat.succ_mul] at hle
      omega
    · have hle : (i + 1) * (2 + fmt.size) ≤ Fld.num m * (2 + fmt.size) := Nat.mul_le_mul_right _ hi
      rw [Nat.succ_mul] at hle
      omega
  have hobjs' : 8 + objsLen (Fld.num m) (Fld.sq m) fmt.size ≤ body.length := hobjs
  omega

end Writes

theorem spare_handlers (sendBuf : UInt8) : Spare (handlers c sendBuf) where
  rx10 s m := by
    show rxs ((on10 c s).run m).2 = []
    rw [run_on10]
    split
    · rfl
    · split <;> rfl
  rx68 s len m := (served_on68 c s m sendBuf len).rxs_eq_nil
  mem10 s m := mem_on10 c s
  mem68 s m l body hwhole hslice j hj := mem_on68 c s sendBuf (octets68 l body).length (spares_of_whole hwhole hslice hj)

/-- What an event reads. -/
def Event.read : Event → Option Read
  | .recv read _ => some read
  | _ => none

theorem reads_step : Reads (step c) Event.read where
  recv t e r h := by
    cases e with
    | recv read sendBuf =>
      obtain rfl := Option.some.inj h
      exact ⟨handlers c sendBuf, spare_handlers c sendBuf, rfl⟩
    | _ => cases h
  other t e h := by
    cases e with
    | recv read sendBuf => cases h
    | machine clock => exact machine_leaves (rxs_stateMachine c clock)
    | callAll junk => exact call_leaves fun _ => rfl
    | callPulse junk => exact call_leaves fun _ => rfl
    | yk nodes =>
      refine call_leaves fun s => ?_
      unfold buildYk
      split
      · rfl
      · split <;> rfl
    | yt nodes =>
      refine call_leaves fun s => ?_
      unfold buildYt
      split
      · rfl
      · split <;> rfl

end Master

namespace Slave

variable {P : Type} (c : Conf P)

theorem rxs_serv (x : Service) : rxs (serv c x) = [] := by
  unfold serv
  split <;> rfl

theorem rxs_setValue (fmt : CmdFmt) (value : List UInt8 → List UInt8) (objs : List (UInt16 × List UInt8)) :
    rxs (objs.filterMap (setValue c fmt value)) = [] := by
  refine Iec104.rxs_nil_iff.mpr fun a ha => ?_
  obtain ⟨o, -, ho⟩ := List.mem_filterMap.mp ha
  unfold setValue at ho
  split at ho
  · cases ho
    rfl
  · cases ho

theorem rxs_buildGroup (type : DevNodeInfo → AsduType) (elem : Nat → DevNodeInfo → List UInt8) (reason : Nat)
    (lists : List (List DevNodeInfo)) : rxs (lists.flatMap (buildGroup c type elem reason)) = [] := by
  refine Iec104.rxs_nil_iff.mpr fun a ha => ?_
  obtain ⟨list, -, hl⟩ := List.mem_flatMap.mp ha
  unfold buildGroup at hl
  split at hl
  · cases hl
  · obtain rfl := List.mem_singleton.mp hl
    rfl

theorem rxs_buildCmdAck (reason : Nat) (bak : Option (List UInt8)) : rxs (buildCmdAck c reason bak) = [] := by
  cases bak <;> rfl

theorem rxs_stateMachine (clock : Clock) (s : Core) : rxs (stateMachine c clock s).2 = [] := by
  have hserv := rxs_serv c
  have hite : ∀ {b : Bool} {acts : List Act}, rxs acts = [] → rxs (if b then acts else []) = [] := by
    intro b acts h
    cases b
    · rfl
    · exact h
  have hack : ∀ reason bak x, rxs (buildCmdAck c reason bak ++ serv c x) = [] := fun reason bak x => by
    rw [rxs_append, rxs_buildCmdAck, hserv]
    rfl
  have hcallall : ∀ s, rxs (machineCallall c clock.callall s).2 = [] := by
    intro s
    unfold machineCallall
    dsimp only
    split
    · rfl
    · exact hite rfl
    · exact hite (rxs_buildGroup c _ _ _ _)
    · exact hite (by rw [rxs_append, buildYc, rxs_buildGroup, rxs_buildGroup]; rfl)
    · split
      · exact hserv _
      · rfl
    · exact hserv _
    · rfl
  have hcallpulse : ∀ s, rxs (machineCallpulse c clock.callpulse s).2 = [] := by
    intro s
    unfold machineCallpulse
    dsimp only
    split
    · rfl
    · exact hite rfl
    · exact hite (rxs_buildGroup c _ _ _ _)
    · split
      · exact hserv _
      · rfl
    · rfl
  have hyt : ∀ s, rxs (machineYt c clock.yt clock.yt' s).2 = [] := by
    intro s
    unfold machineYt
    split
    · rfl
    · exact hite (rxs_buildCmdAck c _ _)
    · rfl
    · exact hite (hack _ _ _)
    · exact hserv _
    · rfl
  have hyk : ∀ s, rxs (machineYk c clock.yk clock.yk' s).2 = [] := by
    intro s
    unfold machineYk
    split
    · rfl
    · exact hite (rxs_buildCmdAck c _ _)
    · rfl
    · exact hite (hack _ _ _)
    · exact hserv _
    · rfl
  have hwork : rxs (machineWork c s).2 = [] := by
    unfold machineWork
    split
    · rfl
    · rfl
    · exact hserv _
    · exact hserv _
    · rfl
    · rfl
  unfold stateMachine
  dsimp only
  split
  · exact hwork
  · rw [rxs_append, hwork, rxs_andThen fun f hf s' => ?_]
    · rfl
    · simp only [List.mem_cons, List.not_mem_nil, or_false] at hf
      rcases hf with rfl | rfl | rfl | rfl
      · exact hcallall s'
      · exact hcallpulse s'
      · exact hyt s'
      · exact hyk s'

theorem rxs_on68 (s : Core) (len : Nat) (m : Mem) : rxs ((on68 c s len).run m).2 = [] := by
  have hyk : rxs ((asduYk c s len).run m).2 = [] := by
    rw [run_asduYk]
    split
    · rfl
    · split
      · rfl
      · dsimp only
        split
        · exact rxs_serv c _
        · exact rxs_setValue c _ _ _
  have hyt : rxs ((asduYt c s len).run m).2 = [] := by
    rw [run_asduYt]
    split
    · rfl
    · split
      · exact rxs_serv c _
      · exact rxs_setValue c _ _ _
  have hdata : rxs ((onUserData c s len).run m).2 = [] := by
    simp only [onUserData, Rd.run_bind, Rd.run_octet, Rd.mem_octet]
    cases AsduType.ofCode (m 7) with
    | none => rfl
    | some t =>
      cases t with
      | cIcNa1 | cCiNa1 =>
        simp only [Rd.run_bind, Rd.run_pure]
        rfl
      | cScNa1 | cDcNa1 => exact hyk
      | cSeNa1 | cSeNc1 => exact hyt
      | _ => rfl
  rw [run_on68]
  split
  · exact hdata
  · split <;> rfl

/-- **The slave leaves its byte array alone.** -/
theorem mem_on68 (s : Core) (len : Nat) (m : Mem) : (on68 c s len).mem m = m := by
  have hcall : ∀ q x, (asduCall s q x).mem m = m := fun q x => by
    simp only [asduCall, Rd.mem_bind, Rd.mem_octet, Rd.mem_u16, mem_rdReason, Rd.mem_ite, Rd.mem_pure, ite_self]
  have hyk : (asduYk c s len).mem m = m := by
    simp only [asduYk, Rd.mem_bind, Rd.mem_octet, mem_rdNum, mem_rdSq, mem_rdReason, Rd.mem_ite, Rd.mem_pure,
      Rd.mem_octets]
    split
    · rfl
    · split
      · rfl
      · split
        · rfl
        · simp only [Rd.mem_bind, mem_rdObjs, Rd.mem_pure]
  have hyt : (asduYt c s len).mem m = m := by
    simp only [asduYt, Rd.mem_bind, Rd.mem_octet, mem_rdNum, mem_rdSq, mem_rdReason, Rd.mem_ite, Rd.mem_pure]
    split
    · rfl
    · split
      · rfl
      · simp only [Rd.mem_bind, mem_rdObjsUntil, Rd.mem_octets, Rd.mem_pure]
  have hdata : (onUserData c s len).mem m = m := by
    simp only [onUserData, Rd.mem_bind, Rd.mem_octet, Rd.run_octet]
    cases AsduType.ofCode (m 7) with
    | none => rfl
    | some t =>
      cases t with
      | cIcNa1 | cCiNa1 => simp only [asduCallAll, asduCallPulse, Rd.mem_bind, hcall, Rd.mem_pure]
      | cScNa1 | cDcNa1 => exact hyk
      | cSeNa1 | cSeNc1 => exact hyt
      | _ => rfl
  simp only [on68, Rd.mem_bind, mem_rdFunc, Rd.mem_octet, Rd.mem_ite, hdata, Rd.mem_pure, ite_self]

theorem spare_handlers : Spare (handlers c) where
  rx10 s m := by
    show rxs ((on10 c s).run m).2 = []
    rw [run_on10]
    split
    · split
      · rfl
      · split
        · rfl
        · split
          · rfl
          · split <;> rfl
    · rfl
  rx68 s len m := rxs_on68 c s len m
  mem10 s m := by
    show (on10 c s).mem m = m
    simp only [on10, Rd.mem_bind, Rd.mem_octet, Rd.mem_ite, Rd.mem_pure, ite_self]
  mem68 s m l body _ _ j _ := congrFun (mem_on68 c s _ m) j

/-- What an event reads. -/
def Event.read : Event → Option Read
  | .recv read => some read
  | _ => none

theorem rxs_buildSpon (type : DevNodeCtrl → AsduType) (obj : DevNodeCtrl → DevNodeCtrl → List UInt8) (nodes : NodeArr)
    (s : Core) : rxs (buildSpon c type obj nodes s).2 = [] := by
  unfold buildSpon
  split
  · rfl
  · split <;> rfl

theorem reads_step : Reads (step c) Event.read where
  recv t e r h := by
    cases e with
    | recv read =>
      obtain rfl := Option.some.inj h
      exact ⟨handlers c, spare_handlers c, rfl⟩
    | _ => cases h
  other t e h := by
    cases e with
    | recv read => cases h
    | machine clock => exact machine_leaves (rxs_stateMachine c clock)
    | yxSpon nodes => exact call_leaves (rxs_buildSpon c _ _ nodes)
    | ycSpon nodes => exact call_leaves (rxs_buildSpon c _ _ nodes)

end Slave

/-- **The receive path.**  A stream of well-formed frames that comes to a slave or a master with an empty array, cut
into any reads and with any turns of the machines and calls of the API between them, is appended whole and taken in
frame by frame, exactly when no read is longer than 255 octets and no frame longer than 257. -/
theorem received_iff {P : Type} (cs : Slave.Conf P) (cm : Master.Conf) (s : Core) (s' : Master.Core)
    (fs : List (List UInt8)) (es : List Slave.Event) (es' : List Master.Event) (hwf : ∀ f ∈ fs, WellFormed f)
    (hes : (es.filterMap (octetsOf Slave.Event.read)).flatten = fs.flatten)
    (hes' : (es'.filterMap (octetsOf Master.Event.read)).flatten = fs.flatten) :
    (Received (Slave.step cs) Slave.Event.read (.init s) es fs ↔
      (∀ e ∈ es, Short Slave.Event.read e) ∧ ∀ f ∈ fs, f.length ≤ 257) ∧
    (Received (Master.step cm) Master.Event.read (.init s') es' fs ↔
      (∀ e ∈ es', Short Master.Event.read e) ∧ ∀ f ∈ fs, f.length ≤ 257) :=
  ⟨received_iff_of_reads (Slave.reads_step cs) (.recv ⟨[], Nat.zero_le _⟩) rfl ⟨rfl, Nat.zero_le _⟩ rfl hwf hes,
    received_iff_of_reads (Master.reads_step cm) (.recv ⟨[], Nat.zero_le _⟩ 0) rfl ⟨rfl, Nat.zero_le _⟩ rfl hwf
      hes'⟩

/-! A frame in two reads, and forty-three of them in one. -/

/-- A request for the state of the link. -/
def sampleFrame : List UInt8 := [stableBegin, 0x49, 1, 0, checkSum [0x49, 1, 0], frameEnd]

theorem wellFormed_sample : WellFormed sampleFrame := .frame10 0x49 1 0

/-- A frame in two reads is taken in. -/
theorem received_cut :
    Received (Slave.step Slave.sampleConf) Slave.Event.read (.init .fresh)
        [.recv ⟨[0x10, 0x49, 1], by decide⟩, .machine Slave.sampleClock, .recv ⟨[0, 0x4A, 0x16], by decide⟩]
        [sampleFrame] ∧
      Received (Master.step Master.sampleConf) Master.Event.read (.init .fresh)
        [.recv ⟨[0x10, 0x49, 1], by decide⟩ 0, .machine Master.sampleClock, .recv ⟨[0, 0x4A, 0x16], by decide⟩ 0]
        [sampleFrame] := by
  have h := received_iff Slave.sampleConf Master.sampleConf .fresh .fresh [sampleFrame]
    [.recv ⟨[0x10, 0x49, 1], by decide⟩, .machine Slave.sampleClock, .recv ⟨[0, 0x4A, 0x16], by decide⟩]
    [.recv ⟨[0x10, 0x49, 1], by decide⟩ 0, .machine Master.sampleClock, .recv ⟨[0, 0x4A, 0x16], by decide⟩ 0]
    (fun f hf => List.mem_singleton.mp hf ▸ wellFormed_sample) rfl rfl
  refine ⟨h.1.mpr ⟨?_, by decide⟩, h.2.mpr ⟨?_, by decide⟩⟩
  · intro e he r hr
    simp only [List.mem_cons, List.not_mem_nil, or_false] at he
    rcases he with rfl | rfl | rfl <;> cases hr <;> decide
  · intro e he r hr
    simp only [List.mem_cons, List.not_mem_nil, or_false] at he
    rcases he with rfl | rfl | rfl <;> cases hr <;> decide

/-- All in one read of 258 octets: two octets are appended. -/
def longRead : Read := ⟨(List.replicate 43 sampleFrame).flatten, by decide +kernel⟩

theorem not_received_long : (∀ f ∈ List.replicate 43 sampleFrame, WellFormed f) ∧
    ([Slave.Event.recv longRead].filterMap (octetsOf Slave.Event.read)).flatten =
      (List.replicate 43 sampleFrame).flatten ∧
    ¬ Received (Slave.step Slave.sampleConf) Slave.Event.read (.init .fresh) [.recv longRead]
      (List.replicate 43 sampleFrame) := by
  refine ⟨fun f hf => List.eq_of_mem_replicate hf ▸ wellFormed_sample, List.append_nil _, fun h => ?_⟩
  have hlen := short_of_appended h.1.1 longRead rfl
  exact absurd hlen (by decide +kernel)

end Wow.Iec101
