import Wow.Iec104.Objects

/-!
# Wow.Iec10x.Pending — commands in frames, and the commands a master waits for

A frame of commands, as a receiver reads it, is the type, the announced number of objects, the cause and the
objects it holds whole.  `Waiting` follows a trace and keeps the requests that were issued and have not been
reported; `Own` is the requirement on what is sent.

* `objAt_unselect`: clearing the select octets of a window clears the select bit of every object in it.
* `selected_objAt`: the objects of a select frame are selected, also of one that is cut.
* `CmdFrame.Names.unselected`: an execute names the requests that the confirmation names it was made of.
-/

namespace Wow.Iec10x

open Iec104 (cmdFmt ykFmt ytFmt selected unselect and_7F_idem)

/-! ### Objects -/

/-- Octets as a number, the low one first. -/
def leNat : List UInt8 → Nat
  | [] => 0
  | b :: l => b.toNat + 256 * leNat l

/-- The `i`-th object of those that begin at `q`, with addresses of `k` octets and elements of `sz`: under `SQ=1`
the elements follow one address, under `SQ=0` each has its own. -/
def objAt (m : Mem) (q k sz : Nat) (sq : Bool) (i : Nat) : Nat × List UInt8 :=
  if sq then (leNat (m.slice q k) + i, m.slice (q + (k + i * sz)) sz)
  else (leNat (m.slice (q + i * (k + sz)) k), m.slice (q + (i * (k + sz) + k)) sz)

/-- The octets `n` objects take. -/
def extent (k sz n : Nat) (sq : Bool) : Nat := if sq then k + n * sz else n * (k + sz)

/-- How many of `n` announced objects lie whole in `l` octets. -/
def wholeObjs (k sz n : Nat) (sq : Bool) (l : Nat) : Nat := min n (if sq then (l - k) / sz else l / (k + sz))

/-- The objects that lie whole in the `l` octets from `q`. -/
def objsAt (m : Mem) (q k sz n : Nat) (sq : Bool) (l : Nat) : List (Nat × List UInt8) :=
  (List.range (wholeObjs k sz n sq l)).map (objAt m q k sz sq)

/-- An object without its select bit. -/
def unselectObj (o : Nat × List UInt8) : Nat × List UInt8 := (o.1, unselect o.2)

section Objects

variable {m m' : Mem} {q q' k sz n l i : Nat} {sq : Bool}

theorem extent_mono {n' : Nat} (h : n ≤ n') : extent k sz n sq ≤ extent k sz n' sq := by
  cases sq with
  | true => exact Nat.add_le_add_left (Nat.mul_le_mul_right sz h) k
  | false => exact Nat.mul_le_mul_right (k + sz) h

/-- **What lies whole** in a window ends inside it. -/
theorem extent_wholeObjs (h : 0 < wholeObjs k sz n sq l) : extent k sz (wholeObjs k sz n sq l) sq ≤ l := by
  cases sq with
  | true =>
    have hle : wholeObjs k sz n true l ≤ (l - k) / sz := Nat.min_le_right _ _
    have hmul := Nat.le_trans (Nat.mul_le_mul_right sz hle) (Nat.div_mul_le_self (l - k) sz)
    have hpos : 0 < l - k := by
      rcases Nat.eq_zero_or_pos (l - k) with h0 | h0
      · rw [h0, Nat.zero_div] at hle
        omega
      · exact h0
    simp only [extent, if_true]
    omega
  | false =>
    have hle : wholeObjs k sz n false l ≤ l / (k + sz) := Nat.min_le_right _ _
    exact Nat.le_trans (Nat.mul_le_mul_right (k + sz) hle) (Nat.div_mul_le_self l (k + sz))

/-- All announced objects lie in a window that has their octets. -/
theorem wholeObjs_of_le (hsz : 0 < sz) (h : extent k sz n sq ≤ l) : wholeObjs k sz n sq l = n := by
  refine Nat.min_eq_left ?_
  cases sq with
  | true =>
    simp only [extent, if_true] at h ⊢
    exact (Nat.le_div_iff_mul_le hsz).mpr (by omega)
  | false =>
    simp only [extent, Bool.false_eq_true, if_false] at h ⊢
    exact (Nat.le_div_iff_mul_le (Nat.add_pos_right k hsz)).mpr h

theorem wholeObjs_of_lt (hsz : 0 < sz) (h : l < k + sz) : wholeObjs k sz n sq l = 0 := by
  have hzero : (if sq then (l - k) / sz else l / (k + sz)) = 0 := by
    cases sq with
    | true => exact Nat.div_eq_of_lt (by omega)
    | false => exact Nat.div_eq_of_lt h
  rw [wholeObjs, hzero, Nat.min_zero]

/-- **Objects are a matter of their window.** -/
theorem objAt_congr (h : ∀ j < extent k sz n sq, m' (q' + j) = m (q + j)) (hi : i < n) :
    objAt m' q' k sz sq i = objAt m q k sz sq i := by
  have hwin : ∀ j s, j + s ≤ extent k sz n sq → m'.slice (q' + j) s = m.slice (q + j) s := by
    intro j s hs
    apply List.ext_getElem
    · simp
    · intro r h1 h2
      rw [Mem.length_slice] at h2
      rw [Mem.getElem_slice, Mem.getElem_slice, Nat.add_assoc, Nat.add_assoc]
      exact h (j + r) (by omega)
  have hle : extent k sz (i + 1) sq ≤ extent k sz n sq := extent_mono hi
  cases sq with
  | true =>
    simp only [extent, if_true, Nat.succ_mul] at hle hwin
    have ha := hwin 0 k (by omega)
    have he := hwin (k + i * sz) sz (by omega)
    simp only [Nat.add_zero] at ha
    simp only [objAt, if_true, ha, he]
  | false =>
    simp only [extent, Bool.false_eq_true, if_false, Nat.succ_mul] at hle hwin
    have ha := hwin (i * (k + sz)) k (by omega)
    have he := hwin (i * (k + sz) + k) sz (by omega)
    simp only [objAt, Bool.false_eq_true, if_false, ha, he]

theorem objsAt_congr (h : ∀ j < l, m' (q' + j) = m (q + j)) : objsAt m' q' k sz n sq l = objsAt m q k sz n sq l := by
  refine List.map_congr_left fun i hi => ?_
  have hi := List.mem_range.mp hi
  have hle := extent_wholeObjs (Nat.lt_of_le_of_lt (Nat.zero_le i) hi)
  exact objAt_congr (fun j hj => h j (Nat.lt_of_lt_of_le hj hle)) hi

/-- The `j`-th octet of a window is the select octet of an object. -/
def isSelect (k sz : Nat) (sq : Bool) (j : Nat) : Bool :=
  if sq then decide (k ≤ j) && (j - k) % sz == sz - 1 else j % (k + sz) == k + sz - 1

/-- The select octets of a window are those the code comes by. -/
theorem isSelect_iff {j : Nat} (hsz : 0 < sz) (hj : j < extent k sz n sq) : isSelect k sz sq j = true ↔
    ∃ i < n, j = k + i * (if sq then sz else k + sz) + (sz - 1) := by
  cases sq with
  | true =>
    simp only [isSelect, extent, if_true, Bool.and_eq_true, decide_eq_true_eq, beq_iff_eq] at hj ⊢
    constructor
    · rintro ⟨hk, hmod⟩
      have hdiv := Nat.div_add_mod (j - k) sz
      rw [hmod, Nat.mul_comm] at hdiv
      exact ⟨(j - k) / sz, (Nat.div_lt_iff_lt_mul hsz).mpr (by omega), by omega⟩
    · rintro ⟨i, -, rfl⟩
      refine ⟨by omega, ?_⟩
      rw [Nat.add_assoc, Nat.add_sub_cancel_left, Nat.mul_comm, Nat.mul_add_mod]
      exact Nat.mod_eq_of_lt (by omega)
  | false =>
    simp only [isSelect, extent, Bool.false_eq_true, if_false, beq_iff_eq] at hj ⊢
    constructor
    · intro hmod
      have hdiv := Nat.div_add_mod j (k + sz)
      rw [hmod, Nat.mul_comm] at hdiv
      exact ⟨j / (k + sz), (Nat.div_lt_iff_lt_mul (Nat.add_pos_right k hsz)).mpr hj, by omega⟩
    · rintro ⟨i, -, rfl⟩
      rw [show k + i * (k + sz) + (sz - 1) = (k + sz) * i + (k + (sz - 1)) by rw [Nat.mul_comm]; omega,
        Nat.mul_add_mod, Nat.mod_eq_of_lt (by omega)]
      omega

/-- **Clearing the select octets** of a window clears the select bit of every object. -/
theorem objAt_unselect (hsz : 0 < sz)
    (h : ∀ j < extent k sz n sq, m' (q' + j) = if isSelect k sz sq j then m (q + j) &&& 0x7F else m (q + j))
    (hi : i < n) : objAt m' q' k sz sq i = unselectObj (objAt m q k sz sq i) := by
  obtain ⟨s, rfl⟩ : ∃ s, sz = s + 1 := ⟨sz - 1, by omega⟩
  have hle : extent k (s + 1) (i + 1) sq ≤ extent k (s + 1) n sq := extent_mono hi
  -- a window of octets none of which is a select octet
  have hstay : ∀ j r, j + r ≤ extent k (s + 1) n sq → (∀ a < r, isSelect k (s + 1) sq (j + a) = false) →
      m'.slice (q' + j) r = m.slice (q + j) r := by
    intro j r hr hno
    apply List.ext_getElem
    · simp
    · intro a h1 h2
      rw [Mem.length_slice] at h2
      rw [Mem.getElem_slice, Mem.getElem_slice, Nat.add_assoc, Nat.add_assoc, h (j + a) (by omega), hno a h2]
      rfl
  -- an element, its select octet the last one
  have helem : ∀ j, j + (s + 1) ≤ extent k (s + 1) n sq → (∀ a < s, isSelect k (s + 1) sq (j + a) = false) →
      isSelect k (s + 1) sq (j + s) = true → m'.slice (q' + j) (s + 1) = unselect (m.slice (q + j) (s + 1)) := by
    intro j hj hno hyes
    have hlast : ∀ (x : Mem) (p : Nat), x.slice p (s + 1) = x.slice p s ++ [x (p + s)] := fun x p => by
      rw [Mem.slice_append]
      rfl
    rw [hlast, hlast, hstay j s (by omega) hno, Nat.add_assoc, Nat.add_assoc, h (j + s) (by omega), if_pos hyes]
    simp [unselect]
  cases sq with
  | true =>
    simp only [extent, if_true, Nat.succ_mul] at hle hstay helem
    have ha := hstay 0 k (by omega) fun a ha => by
      simp only [isSelect, if_true, Nat.zero_add, Bool.and_eq_false_imp, decide_eq_true_eq]
      omega
    have hmod : ∀ a < s + 1, (k + i * (s + 1) + a - k) % (s + 1) = a := fun a ha => by
      rw [Nat.add_assoc, Nat.add_sub_cancel_left, Nat.mul_comm, Nat.mul_add_mod, Nat.mod_eq_of_lt ha]
    have he := helem (k + i * (s + 1)) (by simp only [Nat.mul_succ] at hle ⊢; omega)
      (fun a ha => by simp [isSelect, hmod a (by omega)]; omega)
      (by simp [isSelect, hmod s (by omega)]; omega)
    simp only [Nat.add_zero] at ha
    simp only [objAt, if_true, unselectObj, ha, he]
  | false =>
    simp only [extent, Bool.false_eq_true, if_false, Nat.succ_mul] at hle hstay helem
    have hmod : ∀ a < k + (s + 1), (i * (k + (s + 1)) + a) % (k + (s + 1)) = a := fun a ha => by
      rw [Nat.mul_comm, Nat.mul_add_mod, Nat.mod_eq_of_lt ha]
    have hno : ∀ a < k + s, isSelect k (s + 1) false (i * (k + (s + 1)) + a) = false := fun a ha => by
      simp only [isSelect, Bool.false_eq_true, if_false, hmod a (by omega), beq_eq_false_iff_ne]
      omega
    have hyes : isSelect k (s + 1) false (i * (k + (s + 1)) + k + s) = true := by
      rw [Nat.add_assoc]
      simp only [isSelect, Bool.false_eq_true, if_false, hmod (k + s) (by omega), beq_iff_eq]
      omega
    have ha := hstay (i * (k + (s + 1))) k (by omega) fun a ha => hno a (by omega)
    have he := helem (i * (k + (s + 1)) + k) (by omega)
      (fun a ha => by rw [Nat.add_assoc]; exact hno (k + a) (by omega)) hyes
    simp only [objAt, Bool.false_eq_true, if_false, unselectObj, ha, he]

/-- The objects of two windows that hold all of them, the one made from the other. -/
theorem objsAt_unselected {l' : Nat} (hsz : 0 < sz)
    (h : ∀ j < extent k sz n sq, m' (q' + j) = if isSelect k sz sq j then m (q + j) &&& 0x7F else m (q + j))
    (hl : extent k sz n sq ≤ l) (hl' : extent k sz n sq ≤ l') :
    objsAt m' q' k sz n sq l' = (objsAt m q k sz n sq l).map unselectObj := by
  rw [objsAt, objsAt, wholeObjs_of_le hsz hl, wholeObjs_of_le hsz hl', List.map_map]
  exact List.map_congr_left fun i hi => objAt_unselect hsz h (List.mem_range.mp hi)

theorem objsAt_zero : objsAt m q k sz 0 sq l = [] := by
  rw [objsAt, wholeObjs, Nat.zero_min, List.range_zero, List.map_nil]

/-- A window with all announced objects, of which there are some, has their octets. -/
theorem extent_le_of_length (h : (objsAt m q k sz n sq l).length = n) (hn : 0 < n) : extent k sz n sq ≤ l := by
  rw [objsAt, List.length_map, List.length_range] at h
  have hw : extent k sz (wholeObjs k sz n sq l) sq ≤ l := extent_wholeObjs (by omega)
  rwa [h] at hw

/-- **A select frame**: every object it holds whole is selected. -/
theorem selected_objAt {α : Type} {xs : List α} {f : α → List UInt8} (hf : ∀ x ∈ xs, (f x).length = k + sz)
    (hsel : ∀ x ∈ xs, selected ((f x).drop k) = true) (hm : m.slice q l = (xs.flatMap f).take l) (hi : i < xs.length)
    (hl : extent k sz (i + 1) false ≤ l) : selected (objAt m q k sz false i).2 = true := by
  simp only [extent, Bool.false_eq_true, if_false, Nat.succ_mul] at hl
  have hchunk := chunk_flatMap xs i hi hf
  have helem : m.slice (q + (i * (k + sz) + k)) sz = (f xs[i]).drop k := by
    rw [Mem.slice_sub (by omega : i * (k + sz) + k + sz ≤ l), hm, ← hchunk, List.drop_take, List.take_take,
      List.drop_take, List.drop_drop]
    congr 1
    omega
  simp only [objAt, Bool.false_eq_true, if_false, helem]
  exact hsel _ (List.getElem_mem hi)

end Objects

/-! ### Frames of commands -/

theorem selected_or (b : UInt8) : selected [0x80 ||| b] = true := by
  revert b
  exact forall_uint8.mpr (by decide +kernel)

/-- The octets of a frame, with zeros behind them. -/
def octetsMem (w : List UInt8) : Mem := Mem.fill (fun _ => 0) w

/-- What a frame of commands says, with the objects it holds whole. -/
structure CmdFrame where
  type : AsduType
  num : Nat
  cause : Nat
  objs : List (Nat × List UInt8)
  deriving DecidableEq

/-- An execute: the select bit of an object is clear. -/
def CmdFrame.Executes (v : CmdFrame) : Prop := ∃ o ∈ v.objs, selected o.2 = false

instance (v : CmdFrame) : Decidable v.Executes := inferInstanceAs (Decidable (∃ o ∈ v.objs, selected o.2 = false))

/-! ### Requests -/

/-- An accepted `build_yk` or `build_yt`. -/
abbrev Request := AsduType × List DevNodeCtrl

/-- The nodes and values of a request, as the objects of its execute. -/
def commanded : Request → List (Nat × List UInt8)
  | (.cSeNa1, nodes) => nodes.map fun x => (x.info.addr.toNat, x.value.octets 2 ++ [0])
  | (.cSeNc1, nodes) => nodes.map fun x => (x.info.addr.toNat, x.value.octets 4 ++ [0])
  | (_, nodes) => nodes.map fun x => (x.info.addr.toNat, [x.value.u8 &&& 0x7F])

/-- The frame is for exactly the nodes and values of the request. -/
def CmdFrame.Names (v : CmdFrame) (r : Request) : Prop :=
  v.type = r.1 ∧ v.num = r.2.length ∧ v.objs.map unselectObj = commanded r

instance (v : CmdFrame) (r : Request) : Decidable (v.Names r) := inferInstanceAs (Decidable (_ ∧ _ ∧ _))

theorem unselect_idem (e : List UInt8) : unselect (unselect e) = unselect e := by
  simp [unselect, and_7F_idem]

/-- **The execute made of a confirmation** names the requests that the confirmation names. -/
theorem CmdFrame.Names.unselected {v : CmdFrame} {r : Request} (h : v.Names r) (cause : Nat) :
    CmdFrame.Names ⟨v.type, v.num, cause, v.objs.map unselectObj⟩ r := by
  refine ⟨h.1, h.2.1, ?_⟩
  rw [← h.2.2, List.map_map]
  exact List.map_congr_left fun o _ => by simp only [Function.comp, unselectObj, unselect_idem]

/-- A frame that names a request holds all objects it announces. -/
theorem CmdFrame.Names.whole {v : CmdFrame} {r : Request} (h : v.Names r) : v.objs.length = v.num := by
  obtain ⟨t, nodes⟩ := r
  have hlen := congrArg List.length h.2.2
  rw [List.length_map] at hlen
  rw [hlen, h.2.1]
  cases t <;> exact List.length_map _

/-- The requests that were issued and have not been reported. -/
abbrev Waiting := List Request

/-- A report names no request: it settles all of its kind. -/
def settles (x : Service) (t : AsduType) : Bool :=
  match x with
  | .ykCmdSuccess | .ykCmdFaild => (ykFmt t).isSome
  | .ytCmdSuccess | .ytCmdFaild => (ytFmt t).isSome
  | _ => false

def Waiting.next (w : Waiting) : Act → Waiting
  | .req t nodes => w ++ [(t, nodes)]
  | .serv x => w.filter fun r => !settles x r.1
  | _ => w

/-- What is sent executes only requests that wait; `dec` reads a frame. -/
def Own (dec : List UInt8 → Option CmdFrame) (w : Waiting) : Act → Prop
  | .send f _ => ∀ v ∈ dec f.wire, v.Executes → ∃ r ∈ w, v.Names r
  | _ => True

instance (dec : List UInt8 → Option CmdFrame) (w : Waiting) : ∀ a, Decidable (Own dec w a)
  | .send f _ => inferInstanceAs (Decidable (∀ v ∈ dec f.wire, v.Executes → ∃ r ∈ w, v.Names r))
  | .rx _ | .conn | .lost | .reset | .checked .. | .req .. | .serv _ | .setVal .. | .setTime _ | .close =>
    inferInstanceAs (Decidable True)

end Wow.Iec10x
