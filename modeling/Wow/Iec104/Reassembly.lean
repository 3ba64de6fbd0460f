import Wow.Lib.Stream
import Wow.Iec104.Contracts
import Wow.Iec104.Interrogation

/-!
# Wow.Iec104.Reassembly — APDUs out of reads of the connection

`frame_parse` starts at the first octet of every read and drops what is left at its end.  Both stations are
readers in the sense of `Wow.Lib.Stream`; the master also writes into the read, but never behind the objects
of a command.

* `rxs_frameLoop_le`: the loop takes no more than it was given.
* `rxs_frameLoop_flatten`: a whole number of well-formed APDUs is taken APDU by APDU.
* `reassembled_iff`: a stream is dispatched as its APDUs exactly when no read ends inside one.
-/

namespace Wow.Iec104

open Iec10x

/-- The APDU an action takes in. -/
def rx? : Act → Option (List UInt8)
  | .rx apdu => some apdu
  | _ => none

/-- The APDUs a trace dispatches, in order. -/
def rxs (tr : List Act) : List (List UInt8) := tr.filterMap rx?

theorem rxs_append (tr tr' : List Act) : rxs (tr ++ tr') = rxs tr ++ rxs tr' := List.filterMap_append

theorem rxs_nil_iff {tr : List Act} : rxs tr = [] ↔ ∀ a ∈ tr, rx? a = none := List.filterMap_eq_nil_iff

/-- Head, length octet and, in an I-format, the objects of a command are those of the APDU. -/
structure WellFormed (a : List UInt8) : Prop where
  ge : headLen ≤ a.length
  le : a.length ≤ 255
  head : a[0]? = some headOctet
  len : ∀ l ∈ a[1]?, l.toNat + 2 = a.length
  asdu : ∀ c ∈ a[2]?, c.toNat % 2 = 0 → 12 ≤ a.length
  objs : ∀ c ∈ a[2]?, c.toNat % 2 = 0 → ∀ type ∈ a[6]?, ∀ vsq ∈ a[7]?, ∀ t fmt,
    AsduType.ofCode type = some t → cmdFmt t = some fmt →
    12 + objsLen (vsq.toNat % 128) (decide (128 ≤ vsq.toNat)) fmt.size ≤ a.length

/-! ### The loop -/

section Loop

variable {σ : Type} {dispatch : σ → Nat → Nat → Rd (σ × List Act)} {len : Nat} (hl : len < 65536)
  (hrx : ∀ s p l m, rxs ((dispatch s p l).run m).2 = [])
include hl hrx

/-- The loop takes no more than it was given. -/
theorem rxs_frameLoop_le : ∀ (fuel p : Nat) (s : σ) (m : Mem),
    (rxs ((frameLoop dispatch len fuel p (int16 (len - p)) s).run m).2).flatten.length ≤ len - p
  | 0, p, s, m => Nat.zero_le _
  | fuel + 1, p, s, m => by
    by_cases ht : takes m len p
    · have ih := rxs_frameLoop_le fuel (p + lenAt m p) ((dispatch s p (lenAt m p)).run m).1
        ((dispatch s p (lenAt m p)).mem m)
      have htaken : (taken m len p).length = min (lenAt m p) (len - p) := Mem.length_slice _ _ _
      rw [frameLoop_taken dispatch hl ht, ← List.singleton_append, rxs_append, rxs_append, hrx, List.nil_append]
      show (taken m len p ++ _).length ≤ _
      rw [List.length_append, htaken]
      have hsplit : ∀ r : List (List UInt8), r.flatten.length ≤ len - (p + lenAt m p) →
          min (lenAt m p) (len - p) + r.flatten.length ≤ len - p := fun r hr => by omega
      exact hsplit _ ih
    · rw [(frameLoop_stop dispatch hl ht).1]
      exact Nat.zero_le _

variable (hmem : ∀ s p l m a, WellFormed a → m.slice p a.length = a →
  ∀ j, p + a.length ≤ j → (dispatch s p l).mem m j = m j)
include hmem

/-- **A whole number of APDUs** is taken APDU by APDU. -/
theorem rxs_frameLoop_flatten : ∀ (as : List (List UInt8)) (fuel p : Nat) (s : σ) (m : Mem),
    (∀ a ∈ as, WellFormed a) → p + as.flatten.length = len → as.length ≤ fuel →
      m.slice p as.flatten.length = as.flatten →
        rxs ((frameLoop dispatch len fuel p (int16 (len - p)) s).run m).2 = as
  | [], fuel, p, s, m, _, hlen, _, _ => by
    have hstop : ¬ takes m len p := fun h => by
      have := h.2
      simp only [List.flatten_nil, List.length_nil, headLen] at hlen this
      omega
    rw [(frameLoop_stop dispatch hl hstop).1]
    rfl
  | a :: as, 0, p, s, m, _, _, hfuel, _ => absurd hfuel (Nat.not_succ_le_zero _)
  | a :: as, fuel + 1, p, s, m, hwf, hlen, hfuel, hm => by
    have hwa := hwf a List.mem_cons_self
    have hge : 6 ≤ a.length := hwa.ge
    rw [List.flatten_cons, List.length_append] at hlen
    rw [List.flatten_cons, List.length_append, Mem.slice_append] at hm
    obtain ⟨hma, hmas⟩ := List.append_inj hm (Mem.length_slice _ _ _)
    have hoct : ∀ i (hi : i < a.length), m (p + i) = a[i] := fun i hi => by
      have h : (m.slice p a.length)[i]? = some (m (p + i)) := by
        rw [List.getElem?_eq_getElem (by rwa [Mem.length_slice]), Mem.getElem_slice]
      rw [hma, List.getElem?_eq_getElem hi] at h
      exact (Option.some.inj h).symm
    have hhead : m p = headOctet := by
      have h0 := hwa.head
      rw [List.getElem?_eq_getElem (by omega)] at h0
      rw [← Option.some.inj h0]
      exact hoct 0 (by omega)
    have hlenAt : lenAt m p = a.length := by
      rw [lenAt, hoct 1 (by omega)]
      exact hwa.len _ (List.getElem?_eq_getElem (by omega))
    have htaken : taken m len p = a := by
      rw [taken, hlenAt, Nat.min_eq_left (by omega), hma]
    have hrest : ((dispatch s p (lenAt m p)).mem m).slice (p + a.length) as.flatten.length = as.flatten := by
      refine Eq.trans (Mem.slice_congr fun i _ => ?_) hmas
      exact hmem s p (lenAt m p) m a hwa hma (p + a.length + i) (Nat.le_add_right _ _)
    have ih := rxs_frameLoop_flatten as fuel (p + a.length) ((dispatch s p (lenAt m p)).run m).1
      ((dispatch s p (lenAt m p)).mem m) (fun b hb => hwf b (List.mem_cons_of_mem _ hb)) (by omega)
      (Nat.le_of_succ_le_succ hfuel) hrest
    rw [frameLoop_taken dispatch hl ⟨hhead, by simp only [headLen]; omega⟩, ← List.singleton_append, rxs_append,
      rxs_append, hrx, List.nil_append, htaken, hlenAt]
    rw [hlenAt] at ih
    rw [ih]
    rfl

end Loop

/-! ### What the stations write -/

/-- An octet of an APDU in its place. -/
theorem octet_of_slice {m : Mem} {p i : Nat} {a : List UInt8} (hm : m.slice p a.length = a) (hi : i < a.length) :
    a[i]? = some (m (p + i)) := by
  have h : (m.slice p a.length)[i]? = some (m (p + i)) := by
    rw [List.getElem?_eq_getElem (by rwa [Mem.length_slice]), Mem.getElem_slice]
  rwa [hm] at h

namespace Slave

variable {P : Type} (c : Conf P)

theorem rxs_frameDispatch (s : Core) (p l : Nat) (m : Mem) : rxs ((frameDispatch c s p l).run m).2 = [] := by
  have hkept : LinkKept (Contract.always (fun a => rx? a = none) : Contract Core Unit Act) :=
    linkKept_always (fun _ _ _ => rfl) (fun _ => rfl) rfl
  have hstart : (Contract.always (fun a => rx? a = none)).Keeps (setInit .linkConnectOk) :=
    Contract.keeps_always.mpr fun s a ha => by cases ha
  have hU := Contract.keeps_always.mp (keeps_frameUParse (p := p) (m := m) hkept hstart) s
  have hI : ∀ a ∈ ((frameIParse c s p).run m).2, rx? a = none := by
    rw [run_frameIParse]
    split
    · intro a ha
      obtain rfl := List.mem_singleton.mp ha
      rfl
    · intro a ha
      rcases List.mem_cons.mp ha with rfl | ha
      · rfl
      rcases (plain_asduParse c (dealSn s (Fld.sendSn m p) (Fld.recvSn m p)) p m).2.2 a ha with
        ⟨f, up, rfl⟩ | ⟨n, v, rfl⟩ | ⟨b, rfl⟩ <;> rfl
  rw [rxs_nil_iff]
  by_cases hf : (m (p + 2)).toNat % 2 = 0
  · have hd : (frameDispatch c s p l).run m = (frameIParse c s p).run m := by simp [frameDispatch, hf]
    rw [hd]
    exact hI
  · by_cases hS : (m (p + 2)).toNat % 4 = 1
    · have hd : (frameDispatch c s p l).run m = (s, []) := by simp [frameDispatch, hf, hS]
      rw [hd]
      exact fun a ha => by cases ha
    · have hd : (frameDispatch c s p l).run m = (frameUParse s p).run m := by simp [frameDispatch, hf, hS]
      rw [hd]
      exact hU

end Slave

namespace Master

variable (c : Conf) (now : Int)

theorem kept_rx : Kept (Contract.always (fun a => rx? a = none) : Contract Core Unit Act) where
  toLinkKept := linkKept_always (fun _ _ _ => rfl) (fun _ => rfl) rfl
  setInit x := Contract.keeps_always.mpr fun s a ha => by cases ha
  reset := Contract.keeps_always.mpr fun s a ha => by
    obtain rfl := List.mem_singleton.mp ha
    rfl
  linkOpen b := Contract.keeps_always.mpr fun s a ha => by
    cases b with
    | true =>
      obtain rfl := List.mem_singleton.mp ha
      rfl
    | false => cases ha
  val acts h := Contract.keeps_always.mpr fun s a ha => by
    obtain ⟨n, v, rfl⟩ := h a ha
    rfl

theorem rxs_frameDispatch (s : Core) (p l : Nat) (m : Mem) : rxs ((frameDispatch c now s p l).run m).2 = [] := by
  have hack : ∀ fmts : AsduType → Option CmdFmt, (Contract.always (fun a => rx? a = none)).Keeps fun s =>
      (buildCmdAck c s p fmts).run m := fun fmts => Contract.keeps_always.mpr fun s a ha => by
    rw [run_buildCmdAck] at ha
    split at ha
    · cases ha
    · obtain rfl := List.mem_singleton.mp ha
      rfl
  have hparse := keeps_asduParse (c := c) kept_rx (keeps_asduYk kept_rx (hack ykFmt)) (keeps_asduYt kept_rx (hack ytFmt))
  have hI : (Contract.always (fun a => rx? a = none)).Keeps fun s => (frameIParse c s p).run m := by
    refine Contract.keeps_always.mpr fun s a ha => ?_
    rw [run_frameIParse] at ha
    split at ha
    · obtain rfl := List.mem_singleton.mp ha
      rfl
    split at ha
    · obtain rfl := List.mem_singleton.mp ha
      rfl
    · rcases List.mem_cons.mp ha with rfl | ha
      · rfl
      · exact Contract.keeps_always.mp hparse _ a ha
  rw [rxs_nil_iff]
  exact Contract.keeps_always.mp (keeps_frameDispatch kept_rx hI now l) s

section Writes

variable {p j : Nat} {m : Mem}

/-- No select octet of the command at `p` is at `j`. -/
def Spares (m : Mem) (p j : Nat) : Prop :=
  ∀ t fmt, AsduType.ofCode (m (p + 6)) = some t → cmdFmt t = some fmt →
    ∀ i < Fld.num m p, j ≠ selectAt p (Fld.sq m p) fmt.size i

theorem mem_buildCmdAck (s : Core) {fmts : AsduType → Option CmdFmt}
    (hsub : ∀ t fmt, fmts t = some fmt → cmdFmt t = some fmt) (h : Spares m p j) :
    (buildCmdAck c s p fmts).mem m j = m j := by
  simp only [buildCmdAck, Rd.mem_bind, mem_rdType, mem_rdNum, mem_rdSq, run_rdType, run_rdNum, run_rdSq]
  cases ht : AsduType.ofCode (m (p + 6)) with
  | none => rfl
  | some t =>
    cases hf : fmts t with
    | none =>
      simp only [Option.bind_some, hf]
      rfl
    | some fmt =>
      simp only [Option.bind_some, hf, Rd.mem_bind, Rd.mem_octets, Rd.mem_pure]
      exact clearSelect_of_ne p m (h t fmt ht (hsub t fmt hf))

theorem mem_asduYk (s : Core) (h : Spares m p j) : (asduYk c s p).mem m j = m j := by
  have hack := mem_buildCmdAck c s (fun t fmt (hf : ykFmt t = some fmt) => by rw [cmdFmt, hf]; rfl) h
  simp only [asduYk, Rd.mem_bind, Rd.mem_octet, mem_rdReason]
  split
  · split
    · exact hack
    · rfl
  · rfl

theorem mem_asduYt (s : Core) (h : Spares m p j) : (asduYt c s p).mem m j = m j := by
  have hsub : ∀ t fmt, ytFmt t = some fmt → cmdFmt t = some fmt := fun t fmt hf => by
    cases t <;> first | exact hf | cases hf
  have hack := mem_buildCmdAck c s hsub h
  simp only [asduYt, Rd.mem_bind, mem_rdReason]
  split
  · exact hack
  split
  · rfl
  · rfl

theorem mem_asduCall (s : Core) (success faild : Service) : (asduCall c s p success faild).mem m = m := by
  simp only [asduCall, Rd.mem_bind, mem_rdReason, mem_rdAddrZero, Rd.mem_ite, Rd.mem_pure, ite_self]

theorem mem_asduClock (s : Core) : (asduClock c s p).mem m = m := by
  simp only [asduClock, Rd.mem_bind, mem_rdReason, mem_rdAddrZero, Rd.mem_octets, Rd.mem_ite, Rd.mem_pure, ite_self]

theorem mem_asduMon (s : Core) (reasons : List Nat) (fmts : AsduType → Option MonFmt) :
    (asduMon c s p reasons fmts).mem m = m := by
  simp only [asduMon, Rd.mem_bind, mem_rdType, mem_rdNum, mem_rdSq, mem_rdReason, Rd.mem_ite, Rd.mem_pure]
  split
  · rfl
  · cases (AsduType.ofCode ((rdType p).run m)).bind fmts with
    | none => rfl
    | some f => simp only [Rd.mem_bind, mem_rdObjs, Rd.mem_pure]

theorem mem_asduParse (s : Core) (h : Spares m p j) : (asduParse c s p).mem m j = m j := by
  simp only [asduParse, Rd.mem_bind, mem_rdType]
  cases AsduType.ofCode ((rdType p).run m) with
  | none => rfl
  | some t =>
    cases t with
    | cIcNa1 | cCiNa1 => exact congrFun (mem_asduCall c s _ _) j
    | cCsNa1 => exact congrFun (mem_asduClock c s) j
    | cScNa1 | cDcNa1 => exact mem_asduYk c s h
    | cSeNa1 | cSeNc1 => exact mem_asduYt c s h
    | mItNa1 | mItTa1 =>
      have hym : (asduYm c s p).mem m = m := by
        simp only [asduYm, Rd.mem_bind, mem_rdReason, Rd.mem_ite, Rd.mem_pure, mem_rdInfoAddr, mem_asduMon, ite_self]
      exact congrFun hym j
    | mEiNa1 | cCdNa1 => rfl
    | _ => exact congrFun (mem_asduMon c s _ _) j

/-- **The master writes into commands only**, and there into select octets. -/
theorem mem_frameDispatch (s : Core) (l : Nat) (h : (m (p + 2)).toNat % 2 = 0 → Spares m p j) :
    (frameDispatch c now s p l).mem m j = m j := by
  by_cases hI : (m (p + 2)).toNat % 2 = 0
  · have hd : (frameDispatch c now s p l).mem m = (frameIParse c s p).mem m := by
      simp [frameDispatch, frameFormat, hI]
    rw [hd]
    simp only [frameIParse, Rd.mem_bind, mem_rdSendSn, mem_rdRecvSn, Rd.mem_u16]
    split
    · rfl
    split
    · rfl
    · simp only [Rd.mem_bind, Rd.mem_pure]
      exact mem_asduParse c _ (h hI)
  · have hU : (frameUParse s p).mem m = m := by
      simp only [frameUParse, Rd.mem_bind, Rd.mem_octet, Rd.mem_ite, Rd.mem_pure, ite_self]
    by_cases hS : (m (p + 2)).toNat % 4 = 1
    · simp [frameDispatch, frameFormat, hI, hS]
    · simp [frameDispatch, frameFormat, hI, hS, hU]

end Writes

/-- Behind a well-formed APDU nothing is written. -/
theorem spares_of_wellFormed {p j : Nat} {m : Mem} {a : List UInt8} (hwf : WellFormed a) (hm : m.slice p a.length = a)
    (hI : (m (p + 2)).toNat % 2 = 0) (hj : p + a.length ≤ j) : Spares m p j := by
  intro t fmt ht hf i hi
  have hge : 6 ≤ a.length := hwf.ge
  have h12 := hwf.asdu _ (octet_of_slice hm (by omega)) hI
  have hin := hwf.objs _ (octet_of_slice hm (by omega)) hI _ (octet_of_slice hm (by omega)) _
    (octet_of_slice hm (by omega)) t fmt ht hf
  have hsz := cmdFmt_size_pos hf
  have hlast : selectAt p (Fld.sq m p) fmt.size i < p + 12 + objsLen (Fld.num m p) (Fld.sq m p) fmt.size := by
    simp only [selectAt, objsLen]
    split
    · have hle : (i + 1) * fmt.size ≤ Fld.num m p * fmt.size := Nat.mul_le_mul_right _ hi
      rw [Nat.succ_mul] at hle
      omega
    · have hle : (i + 1) * (3 + fmt.size) ≤ Fld.num m p * (3 + fmt.size) := Nat.mul_le_mul_right _ hi
      rw [Nat.succ_mul] at hle
      omega
  have hin' : 12 + objsLen (Fld.num m p) (Fld.sq m p) fmt.size ≤ a.length := hin
  omega

end Master

/-! ### Streams -/

theorem length_le_flatten : ∀ {as : List (List UInt8)}, (∀ a ∈ as, WellFormed a) → as.length ≤ as.flatten.length
  | [], _ => Nat.le_refl _
  | a :: as, h => by
    have hge : 6 ≤ a.length := (h a List.mem_cons_self).ge
    have ih := length_le_flatten fun b hb => h b (List.mem_cons_of_mem _ hb)
    rw [List.flatten_cons, List.length_append, List.length_cons]
    omega

section Read

variable {σ : Type} {dispatch : σ → Nat → Nat → Rd (σ × List Act)}
  (hrx : ∀ s p l m, rxs ((dispatch s p l).run m).2 = []) (stale : Mem) (chunk : Chunk) (s : σ)
include hrx

theorem rxs_frameParse_le :
    (rxs ((frameParse dispatch chunk.octets.length s).run (stale.fill chunk.octets)).2).flatten.length ≤
      chunk.octets.length := by
  rw [frameParse_eq]
  exact rxs_frameLoop_le (Nat.lt_of_le_of_lt chunk.le (by decide)) hrx _ 0 s _

theorem rxs_frameParse_flatten (hmem : ∀ s p l m a, WellFormed a → m.slice p a.length = a →
      ∀ j, p + a.length ≤ j → (dispatch s p l).mem m j = m j) {as : List (List UInt8)}
    (hwf : ∀ a ∈ as, WellFormed a) (hc : chunk.octets = as.flatten) :
    rxs ((frameParse dispatch chunk.octets.length s).run (stale.fill chunk.octets)).2 = as := by
  rw [frameParse_eq]
  refine rxs_frameLoop_flatten (Nat.lt_of_le_of_lt chunk.le (by decide)) hrx hmem as _ 0 s _ hwf ?_ ?_ ?_
  · rw [hc, Nat.zero_add]
  · rw [hc]
    exact length_le_flatten hwf
  · rw [← hc, Mem.slice_fill (by omega), List.drop_zero, List.take_length]

end Read

section Stream

variable {P : Type} (cs : Slave.Conf P) (cm : Master.Conf) {apdus : List (List UInt8)}
  (hwf : ∀ a ∈ apdus, WellFormed a) {reads : List (Chunk × Int)}
  (hstream : (reads.map fun r => r.1.octets).flatten = apdus.flatten)
include hwf hstream

/-- The slave dispatches the APDUs of a stream exactly when no read ends inside one. -/
theorem slave_takes_iff (t : Station) :
    rxs (run (Slave.step cs) t (reads.map fun r => .recv r.1)).2 = apdus ↔
      Aligned (reads.map fun r => r.1.octets) apdus := by
  rw [run_map]
  refine taken_iff_aligned (W := WellFormed) (fun t r => ?_) (fun t r as has hr => ?_) hwf hstream
  · exact rxs_frameParse_le (Slave.rxs_frameDispatch cs) t.recvBuf r.1 t.core
  · refine rxs_frameParse_flatten (Slave.rxs_frameDispatch cs) t.recvBuf r.1 t.core (fun s p l m a _ _ j _ => ?_) has hr
    rw [Slave.pure_frameDispatch cs s p l m]

/-- So does the master. -/
theorem master_takes_iff (t : Station) :
    rxs (run (Master.step cm) t (reads.map fun r => .recv r.1 r.2)).2 = apdus ↔
      Aligned (reads.map fun r => r.1.octets) apdus := by
  rw [run_map]
  refine taken_iff_aligned (W := WellFormed) (fun t r => ?_) (fun t r as has hr => ?_) hwf hstream
  · exact rxs_frameParse_le (Master.rxs_frameDispatch cm r.2) t.recvBuf r.1 t.core
  · exact rxs_frameParse_flatten (Master.rxs_frameDispatch cm r.2) t.recvBuf r.1 t.core
      (fun s p l m a ha hm j hj => Master.mem_frameDispatch cm r.2 s l fun hI =>
        Master.spares_of_wellFormed ha hm hI hj) has hr

end Stream

/-- **Reassembly.**  A stream of well-formed APDUs, read in any chunks from any state, is dispatched as if each
APDU came in a chunk of its own exactly when no chunk ends inside an APDU. -/
theorem reassembled_iff {P : Type} (cs : Slave.Conf P) (cm : Master.Conf) (t u : Station) (apdus : List (List UInt8))
    (reads single : List (Chunk × Int)) (hwf : ∀ a ∈ apdus, WellFormed a)
    (hstream : (reads.map fun r => r.1.octets).flatten = apdus.flatten)
    (hsingle : single.map (fun r => r.1.octets) = apdus) :
    (rxs (run (Slave.step cs) u (reads.map fun r => .recv r.1)).2 =
        rxs (run (Slave.step cs) u (single.map fun r => .recv r.1)).2 ↔
      Aligned (reads.map fun r => r.1.octets) apdus) ∧
    (rxs (run (Master.step cm) t (reads.map fun r => .recv r.1 r.2)).2 =
        rxs (run (Master.step cm) t (single.map fun r => .recv r.1 r.2)).2 ↔
      Aligned (reads.map fun r => r.1.octets) apdus) := by
  have hown : (single.map fun r => r.1.octets).flatten = apdus.flatten := by rw [hsingle]
  have halign : Aligned (single.map fun r => r.1.octets) apdus := by
    rw [hsingle]
    exact aligned_self apdus
  constructor
  · rw [(slave_takes_iff cs hwf hown u).mpr halign]
    exact slave_takes_iff cs hwf hstream u
  · rw [(master_takes_iff cm hwf hown t).mpr halign]
    exact master_takes_iff cm hwf hstream t

/-- The U-frames the stations build are well-formed. -/
theorem wellFormed_ctrlU {func : UInt8} (hf : func.toNat % 2 = 1) : WellFormed (mkFrame (ctrlU func) []).buf where
  ge := show 6 ≤ 6 by decide
  le := show 6 ≤ 255 by decide
  head := rfl
  len l h := by
    obtain rfl := Option.some.inj h
    exact show (UInt8.ofNat 6 - 2).toNat + 2 = 6 by decide
  asdu c h hI := by
    obtain rfl : func = c := Option.some.inj h
    omega
  objs c h hI := by
    obtain rfl : func = c := Option.some.inj h
    omega

/-! An activation and a test, in one read, in a read each, and the activation cut in two. -/

def sampleApdus : List (List UInt8) := [(mkFrame (ctrlU UFunc.startdt) []).buf, (mkFrame (ctrlU UFunc.tester) []).buf]

def sampleRead : Chunk := ⟨sampleApdus.flatten, by decide, by decide⟩

def sampleSingle : List (Chunk × Int) :=
  [(⟨(mkFrame (ctrlU UFunc.startdt) []).buf, by decide, by decide⟩, 0),
    (⟨(mkFrame (ctrlU UFunc.tester) []).buf, by decide, by decide⟩, 0)]

def sampleCut : List (Chunk × Int) :=
  [(⟨[0x68, 4, 7], by decide, by decide⟩, 0), (⟨[0, 0, 0, 0x68, 4, 0x43, 0, 0, 0], by decide, by decide⟩, 0)]

/-- Two APDUs in one read. -/
theorem reassembled_pair :
    rxs (run (Slave.step Slave.sampleConf) .init ([(sampleRead, 0)].map fun r : Chunk × Int => .recv r.1)).2 =
        rxs (run (Slave.step Slave.sampleConf) .init (sampleSingle.map fun r => .recv r.1)).2 ∧
      rxs (run (Master.step Master.sampleConf) .init
          ([(sampleRead, 0)].map fun r : Chunk × Int => .recv r.1 r.2)).2 =
        rxs (run (Master.step Master.sampleConf) .init (sampleSingle.map fun r => .recv r.1 r.2)).2 := by
  have hwf : ∀ a ∈ sampleApdus, WellFormed a := by
    intro a ha
    rcases List.mem_cons.mp ha with rfl | ha
    · exact wellFormed_ctrlU (by decide)
    · obtain rfl := List.mem_singleton.mp ha
      exact wellFormed_ctrlU (by decide)
  have h := reassembled_iff Slave.sampleConf Master.sampleConf .init .init sampleApdus [(sampleRead, 0)] sampleSingle hwf
    rfl rfl
  exact ⟨h.1.mpr ⟨[sampleApdus], rfl, rfl⟩, h.2.mpr ⟨[sampleApdus], rfl, rfl⟩⟩

/-- Of a cut activation nothing is dispatched. -/
theorem not_reassembled_cut :
    rxs (run (Slave.step Slave.sampleConf) .init (sampleCut.map fun r => .recv r.1)).2 ≠
      rxs (run (Slave.step Slave.sampleConf) .init (sampleSingle.map fun r => .recv r.1)).2 := by
  decide +kernel

end Wow.Iec104
