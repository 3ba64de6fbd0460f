import Wow.Iec104.Link

/-!
# Wow.Iec104.Loop — what a run of `frameLoop` is made of

* `frames m len`: offset and `LenTmp` of every frame the loop takes out of a buffer nobody writes.
* `run_frameLoop`: with handlers that never write, the loop is a run over `frames`.
* `keeps_frameParse`: the contracts of one dispatch are contracts of the loop, also with handlers that write.
* `frameLoop_fuel`: rounds beyond one for every octet left change nothing.
-/

namespace Wow.Iec104

open Iec10x

variable {σ γ : Type} (dispatch : σ → Nat → Nat → Rd (σ × List Act))

/-- `Len + 2`, the extent of the frame at `p`. -/
def lenAt (m : Mem) (p : Nat) : Nat := (m (p + 1)).toNat + 2

/-- The frame the loop takes in at `p`. -/
def taken (m : Mem) (len p : Nat) : List UInt8 := m.slice p (min (lenAt m p) (len - p))

/-- The loop takes in a frame at `p`. -/
def takes (m : Mem) (len p : Nat) : Prop := m p = headOctet ∧ p + headLen ≤ len

instance (m : Mem) (len p : Nat) : Decidable (takes m len p) := inferInstanceAs (Decidable (_ ∧ _))

/-- The frames from `p` on: offset and `LenTmp`. -/
def framesFrom (m : Mem) (len : Nat) : Nat → Nat → List (Nat × Nat)
  | 0, _ => []
  | fuel + 1, p =>
    if takes m len p then (p, lenAt m p) :: framesFrom m len fuel (p + lenAt m p) else []

/-- The frames of the first `len` octets of a buffer. -/
def frames (m : Mem) (len : Nat) : List (Nat × Nat) := framesFrom m len len 0

theorem takes_of_mem_framesFrom {m : Mem} {len : Nat} : ∀ {fuel p : Nat} {f : Nat × Nat},
    f ∈ framesFrom m len fuel p → takes m len f.1 ∧ f.2 = lenAt m f.1
  | 0, _, _, h => by cases h
  | fuel + 1, p, f, h => by
    rw [framesFrom] at h
    split at h
    · rename_i ht
      rcases List.mem_cons.mp h with rfl | h
      · exact ⟨ht, rfl⟩
      · exact takes_of_mem_framesFrom h
    · cases h

/-- The function octet in the record of a frame: a frame of length 0 ends in front of it. -/
theorem getElem?_taken_two {m : Mem} {len p : Nat} (ht : takes m len p) :
    (taken m len p)[2]? = if m (p + 1) = 0 then none else some (m (p + 2)) := by
  have hfit : p + 6 ≤ len := ht.2
  by_cases hz : m (p + 1) = 0
  · rw [if_pos hz]
    refine List.getElem?_eq_none ?_
    rw [taken, Mem.length_slice, lenAt, hz]
    exact Nat.min_le_left _ _
  · have hpos : 0 < (m (p + 1)).toNat := by
      rcases Nat.eq_zero_or_pos (m (p + 1)).toNat with h0 | h0
      · exact absurd (UInt8.toNat_inj.mp h0) hz
      · exact h0
    have hlt : 2 < (m.slice p (min (lenAt m p) (len - p))).length := by
      rw [Mem.length_slice, lenAt]
      omega
    rw [if_neg hz, taken, List.getElem?_eq_getElem hlt, Mem.getElem_slice]

/-! ### One round -/

section Round

variable {m : Mem} {len p fuel : Nat} {s : σ}

/-- The program of a round that takes a frame in. -/
theorem frameLoop_taken (hl : len < 65536) (h : takes m len p) :
    (frameLoop dispatch len (fuel + 1) p (int16 (len - p)) s).run m =
      (((frameLoop dispatch len fuel (p + lenAt m p) (int16 (len - (p + lenAt m p : Nat)))
          ((dispatch s p (lenAt m p)).run m).1).run ((dispatch s p (lenAt m p)).mem m)).1,
        .rx (taken m len p) :: (((dispatch s p (lenAt m p)).run m).2 ++
        ((frameLoop dispatch len fuel (p + lenAt m p) (int16 (len - (p + lenAt m p : Nat)))
          ((dispatch s p (lenAt m p)).run m).1).run ((dispatch s p (lenAt m p)).mem m)).2)) := by
  obtain ⟨hhead, hfit⟩ := h
  have hp : p < len := by simp only [headLen] at hfit; omega
  have hrem : int16 (int16 (len - p) - ((m (p + 1)).toNat + 2 : Nat)) =
      int16 (len - (p + lenAt m p : Nat)) := by
    rw [int16_sub, lenAt]
    congr 1
    omega
  simp only [frameLoop, hp, if_true, Rd.run_bind, Rd.run_octet, Rd.mem_octet, hhead,
    headFits_int16 hp hl, hfit, decide_true, Rd.run_octets, Rd.mem_octets, Rd.run_pure, hrem]
  rfl

theorem mem_frameLoop_taken (hl : len < 65536) (h : takes m len p) :
    (frameLoop dispatch len (fuel + 1) p (int16 (len - p)) s).mem m =
      (frameLoop dispatch len fuel (p + lenAt m p) (int16 (len - (p + lenAt m p : Nat)))
        ((dispatch s p (lenAt m p)).run m).1).mem ((dispatch s p (lenAt m p)).mem m) := by
  obtain ⟨hhead, hfit⟩ := h
  have hp : p < len := by simp only [headLen] at hfit; omega
  have hrem : int16 (int16 (len - p) - ((m (p + 1)).toNat + 2 : Nat)) =
      int16 (len - (p + lenAt m p : Nat)) := by
    rw [int16_sub, lenAt]
    congr 1
    omega
  simp only [frameLoop, hp, if_true, Rd.mem_bind, Rd.run_octet, Rd.mem_octet, hhead,
    headFits_int16 hp hl, hfit, decide_true, Rd.run_octets, Rd.mem_octets, Rd.mem_pure, hrem]
  rfl

/-- Everything else ends the loop. -/
theorem frameLoop_stop (hl : len < 65536) (h : ¬ takes m len p) :
    (frameLoop dispatch len fuel p (int16 (len - p)) s).run m = (s, []) ∧
      (frameLoop dispatch len fuel p (int16 (len - p)) s).mem m = m := by
  cases fuel with
  | zero => exact ⟨rfl, rfl⟩
  | succ fuel =>
    by_cases hp : p < len
    · by_cases hhead : m p = headOctet
      · have hfit : ¬ p + headLen ≤ len := fun hf => h ⟨hhead, hf⟩
        simp [frameLoop, hp, hhead, headFits_int16 hp hl, hfit]
      · simp [frameLoop, hp, hhead]
    · simp [frameLoop, hp]

end Round

/-! ### Whole loops -/

/-- One frame, with its record in the trace. -/
def serve (m : Mem) (len : Nat) (s : σ) (f : Nat × Nat) : σ × List Act :=
  (((dispatch s f.1 f.2).run m).1, .rx (taken m len f.1) :: ((dispatch s f.1 f.2).run m).2)

/-- **The loop is a run over its frames**, when no handler writes. -/
theorem run_frameLoop (hd : ∀ s p l, (dispatch s p l).Pure) {m : Mem} {len : Nat} (hl : len < 65536)
    (fuel p : Nat) (s : σ) :
    (frameLoop dispatch len fuel p (int16 (len - p)) s).run m =
      run (serve dispatch m len) s (framesFrom m len fuel p) := by
  induction fuel generalizing p s with
  | zero => rfl
  | succ fuel ih =>
    by_cases h : takes m len p
    · rw [frameLoop_taken dispatch hl h, hd, ih, framesFrom, if_pos h, run_cons]
      rfl
    · rw [(frameLoop_stop dispatch hl h).1, framesFrom, if_neg h, run_nil]

theorem frameParse_eq (len : Nat) (s : σ) :
    frameParse dispatch len s = frameLoop dispatch len len 0 (int16 (len - (0 : Nat))) s := by
  simp only [frameParse, Int.ofNat_zero, Int.sub_zero]

theorem run_frameParse (hd : ∀ s p l, (dispatch s p l).Pure) {m : Mem} {len : Nat} (hl : len < 65536)
    (s : σ) : (frameParse dispatch len s).run m = run (serve dispatch m len) s (frames m len) := by
  rw [frameParse_eq, run_frameLoop dispatch hd hl]
  rfl

/-- **A chunk of one frame**: one dispatch. -/
theorem frameParse_single {m : Mem} {len : Nat} (hl : len < 65536) (h : takes m len 0)
    (hlen : len ≤ lenAt m 0) (s : σ) :
    (frameParse dispatch len s).run m =
        (((dispatch s 0 (lenAt m 0)).run m).1,
          .rx (m.slice 0 len) :: ((dispatch s 0 (lenAt m 0)).run m).2) ∧
      (frameParse dispatch len s).mem m = (dispatch s 0 (lenAt m 0)).mem m := by
  have h6 := h.2
  obtain ⟨fuel, rfl⟩ : ∃ fuel, len = fuel + 1 := ⟨len - 1, by simp only [headLen] at h6; omega⟩
  have hstop : ∀ m', ¬ takes m' (fuel + 1) (0 + lenAt m 0) := fun m' h' => by
    have := h'.2
    simp only [headLen] at this
    omega
  have htaken : taken m (fuel + 1) 0 = m.slice 0 (fuel + 1) := by
    rw [taken, Nat.sub_zero, Nat.min_eq_right hlen]
  rw [frameParse_eq, frameLoop_taken dispatch hl h, mem_frameLoop_taken dispatch hl h, htaken,
    (frameLoop_stop dispatch hl (hstop _)).1, (frameLoop_stop dispatch hl (hstop _)).2]
  exact ⟨by rw [List.append_nil], rfl⟩

/-- **Contracts of the loop**: what every dispatch keeps, with the record of its frame in front, a parse of a
buffer keeps. -/
theorem keeps_frameParse {K : Contract σ γ Act} {len : Nat} (hl : len < 65536)
    (hd : ∀ m p, takes m len p → K.Keeps fun s => serve dispatch m len s (p, lenAt m p)) (m : Mem) :
    K.Keeps fun s => (frameParse dispatch len s).run m := by
  suffices h : ∀ fuel p m,
      K.Keeps fun s => (frameLoop dispatch len fuel p (int16 (len - (p : Nat))) s).run m by
    simp only [frameParse_eq]
    exact h len 0 m
  intro fuel
  induction fuel with
  | zero => exact fun _ _ => Contract.keeps_skip
  | succ fuel ih =>
    intro p m s g hI hA
    dsimp only at hA ⊢
    by_cases h : takes m len p
    · rw [frameLoop_taken dispatch hl h] at hA ⊢
      rw [← List.cons_append, meets_append] at hA
      obtain ⟨hG, hI'⟩ := hd m p h s g hI hA.1
      obtain ⟨hG', hI''⟩ := ih (p + lenAt m p) _ _ _ hI' hA.2
      refine ⟨?_, ?_⟩
      · rw [← List.cons_append, meets_append]
        exact ⟨hG, hG'⟩
      · rw [← List.cons_append, List.foldl_append]
        exact hI''
    · rw [(frameLoop_stop dispatch hl h).1]
      exact ⟨trivial, hI⟩

/-- **Rounds are enough**: with one for every octet left, more change nothing. -/
theorem frameLoop_fuel {len : Nat} (hl : len < 65536) (k : Nat) :
    ∀ (fuel p : Nat) (s : σ) (m : Mem), len - p ≤ fuel →
      (frameLoop dispatch len (fuel + k) p (int16 (len - p)) s).run m =
        (frameLoop dispatch len fuel p (int16 (len - p)) s).run m
  | 0, p, s, m, h => by
    have hn : ¬ takes m len p := fun ht => by
      have := ht.2
      simp only [headLen] at this
      omega
    rw [(frameLoop_stop dispatch hl hn).1, (frameLoop_stop dispatch hl hn).1]
  | fuel + 1, p, s, m, h => by
    by_cases ht : takes m len p
    · have hle : len - (p + lenAt m p) ≤ fuel := by simp only [lenAt]; omega
      rw [Nat.add_right_comm, frameLoop_taken dispatch hl ht, frameLoop_taken dispatch hl ht,
        frameLoop_fuel hl k fuel _ _ _ hle]
    · rw [(frameLoop_stop dispatch hl ht).1, (frameLoop_stop dispatch hl ht).1]

end Wow.Iec104
