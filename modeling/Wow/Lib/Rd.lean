import Wow.Lib.Mem

/-!
# Wow.Lib.Rd — programs over a byte memory, as data

`Rd α` is a program that asks for octets of a `Mem`, sets octets in place and ends in an `α`.  Written as a
tree (`ret` / `read` / `write`), one definition has three readings: `run`, the value on a memory, `mem`, the
memory it leaves, and `reads`, the indices the run asks for, in order.

* `run_bind`, `mem_bind`, `reads_bind`: all three follow sequencing; a program that never writes is
  recognised by `simp` (`mem` is the identity).
* `run_congr`: a run depends only on the octets it asks for.  So two memories
  that agree below `n` cannot be told apart by a program whose reads on one of them stay below `n`.
* `Within`: the reads stay below a bound; `within_bind` and its companions compute the bound.
* `forN`: a counted loop, with one equation for each reading; `untilN`: one that is left early.
-/

namespace Wow

/-- `m` with the octet at `i` replaced. -/
def Mem.set (m : Mem) (i : Nat) (b : UInt8) : Mem := fun j => if j = i then b else m j

/-- A program over a byte memory. -/
inductive Rd (α : Type) where
  | ret (a : α)
  | read (i : Nat) (k : UInt8 → Rd α)
  | write (i : Nat) (b : UInt8) (x : Rd α)

namespace Rd

variable {α β : Type}

def bind : Rd α → (α → Rd β) → Rd β
  | ret a, f => f a
  | read i k, f => read i fun b => (k b).bind f
  | write i b x, f => write i b (x.bind f)

instance : Monad Rd where
  pure := ret
  bind := bind

/-- The octet at `i`. -/
def octet (i : Nat) : Rd UInt8 := read i ret

/-- Store `b` at `i`. -/
def store (i : Nat) (b : UInt8) : Rd Unit := write i b (ret ())

/-- The value of the program on a memory. -/
def run : Rd α → Mem → α
  | ret a, _ => a
  | read i k, m => (k (m i)).run m
  | write i b x, m => x.run (m.set i b)

/-- The memory the program leaves. -/
def mem : Rd α → Mem → Mem
  | ret _, m => m
  | read i k, m => (k (m i)).mem m
  | write i b x, m => x.mem (m.set i b)

/-- The indices the program asks for on a memory. -/
def reads : Rd α → Mem → List Nat
  | ret _, _ => []
  | read i k, m => i :: (k (m i)).reads m
  | write i b x, m => x.reads (m.set i b)

/-! ### Equations -/

@[simp] theorem run_pure (a : α) (m : Mem) : (pure a : Rd α).run m = a := rfl
@[simp] theorem mem_pure (a : α) (m : Mem) : (pure a : Rd α).mem m = m := rfl
@[simp] theorem reads_pure (a : α) (m : Mem) : (pure a : Rd α).reads m = [] := rfl
@[simp] theorem run_octet (i : Nat) (m : Mem) : (octet i).run m = m i := rfl
@[simp] theorem mem_octet (i : Nat) (m : Mem) : (octet i).mem m = m := rfl
@[simp] theorem reads_octet (i : Nat) (m : Mem) : (octet i).reads m = [i] := rfl
@[simp] theorem mem_store (i : Nat) (b : UInt8) (m : Mem) : (store i b).mem m = m.set i b := rfl
@[simp] theorem reads_store (i : Nat) (b : UInt8) (m : Mem) : (store i b).reads m = [] := rfl

@[simp] theorem run_bind (x : Rd α) (f : α → Rd β) (m : Mem) :
    (x >>= f).run m = (f (x.run m)).run (x.mem m) := by
  induction x generalizing m with
  | ret a => rfl
  | read i k ih => exact ih (m i) m
  | write i b x ih => exact ih (m.set i b)

@[simp] theorem mem_bind (x : Rd α) (f : α → Rd β) (m : Mem) :
    (x >>= f).mem m = (f (x.run m)).mem (x.mem m) := by
  induction x generalizing m with
  | ret a => rfl
  | read i k ih => exact ih (m i) m
  | write i b x ih => exact ih (m.set i b)

@[simp] theorem reads_bind (x : Rd α) (f : α → Rd β) (m : Mem) :
    (x >>= f).reads m = x.reads m ++ (f (x.run m)).reads (x.mem m) := by
  induction x generalizing m with
  | ret a => rfl
  | read i k ih => exact congrArg (i :: ·) (ih (m i) m)
  | write i b x ih => exact ih (m.set i b)

@[simp] theorem run_ite (c : Prop) [Decidable c] (x y : Rd α) (m : Mem) :
    (if c then x else y).run m = if c then x.run m else y.run m := by split <;> rfl

@[simp] theorem mem_ite (c : Prop) [Decidable c] (x y : Rd α) (m : Mem) :
    (if c then x else y).mem m = if c then x.mem m else y.mem m := by split <;> rfl

@[simp] theorem reads_ite (c : Prop) [Decidable c] (x y : Rd α) (m : Mem) :
    (if c then x else y).reads m = if c then x.reads m else y.reads m := by split <;> rfl

/-! ### Windows -/

/-- The `n` octets from `p`, in order (a `memcpy` out of the buffer). -/
def octets (p : Nat) : Nat → Rd (List UInt8)
  | 0 => pure []
  | n + 1 => do
    let b ← octet p
    let bs ← octets (p + 1) n
    pure (b :: bs)

/-- Little-endian `uint16_t` at `p`. -/
def u16 (p : Nat) : Rd UInt16 := do
  let lo ← octet p
  let hi ← octet (p + 1)
  pure (UInt16.ofNat (lo.toNat + 256 * hi.toNat))

@[simp] theorem mem_octets (p n : Nat) (m : Mem) : (octets p n).mem m = m := by
  induction n generalizing p with
  | zero => rfl
  | succ n ih => simp [octets, ih]

@[simp] theorem run_octets (p n : Nat) (m : Mem) : (octets p n).run m = m.slice p n := by
  induction n generalizing p with
  | zero => rfl
  | succ n ih => simp [octets, ih, Mem.slice_succ]

@[simp] theorem mem_reads_octets {p n : Nat} {m : Mem} {i : Nat} :
    i ∈ (octets p n).reads m ↔ p ≤ i ∧ i < p + n := by
  induction n generalizing p with
  | zero => simp [octets]
  | succ n ih => simp [octets, ih]; omega

@[simp] theorem run_u16 (p : Nat) (m : Mem) : (u16 p).run m = m.u16 p := rfl

@[simp] theorem mem_u16 (p : Nat) (m : Mem) : (u16 p).mem m = m := rfl

@[simp] theorem reads_u16 (p : Nat) (m : Mem) : (u16 p).reads m = [p, p + 1] := rfl

/-! ### Counted loops -/

/-- `for (i = k; i < k + n; i++)`, collecting what the body yields. -/
def forFrom (f : Nat → Rd α) : Nat → Nat → Rd (List α)
  | _, 0 => pure []
  | k, n + 1 => do
    let a ← f k
    let as ← forFrom f (k + 1) n
    pure (a :: as)

/-- `for (i = 0; i < n; i++)`. -/
def forN (n : Nat) (f : Nat → Rd α) : Rd (List α) := forFrom f 0 n

/-- The body of a loop that never writes. -/
def Pure (x : Rd α) : Prop := ∀ m, x.mem m = m

theorem mem_forN {n : Nat} {f : Nat → Rd α} (hf : ∀ i, (f i).Pure) (m : Mem) : (forN n f).mem m = m := by
  suffices h : ∀ k, (forFrom f k n).mem m = m from h 0
  induction n with
  | zero => exact fun _ => rfl
  | succ n ih => intro k; simp [forFrom, hf k m, ih]

theorem run_forN {n : Nat} {f : Nat → Rd α} (hf : ∀ i, (f i).Pure) (m : Mem) :
    (forN n f).run m = (List.range n).map fun i => (f i).run m := by
  suffices h : ∀ k, (forFrom f k n).run m = (List.range' k n).map fun i => (f i).run m by
    rw [List.range_eq_range']
    exact h 0
  induction n with
  | zero => exact fun _ => rfl
  | succ n ih => intro k; simp [forFrom, hf k m, ih, List.range'_succ]

theorem mem_reads_forN {n : Nat} {f : Nat → Rd α} (hf : ∀ i, (f i).Pure) {m : Mem} {j : Nat} :
    j ∈ (forN n f).reads m ↔ ∃ i < n, j ∈ (f i).reads m := by
  suffices h : ∀ k, j ∈ (forFrom f k n).reads m ↔ ∃ i, k ≤ i ∧ i < k + n ∧ j ∈ (f i).reads m by
    simpa [forN] using h 0
  induction n with
  | zero => intro k; simp [forFrom]; omega
  | succ n ih =>
    intro k
    simp only [forFrom, reads_bind, hf k m, List.mem_append, ih, reads_pure, List.append_nil]
    constructor
    · rintro (h | ⟨i, h1, h2, h3⟩)
      · exact ⟨k, Nat.le_refl k, by omega, h⟩
      · exact ⟨i, by omega, by omega, h3⟩
    · rintro ⟨i, h1, h2, h3⟩
      rcases Nat.eq_or_lt_of_le h1 with rfl | hlt
      · exact Or.inl h3
      · exact Or.inr ⟨i, hlt, by omega, h3⟩

/-- The loop that rewrites the octets at `q k`, `q (k + 1)`, … in place, one step. -/
theorem mem_forFrom_update {q : Nat → Nat} {f : UInt8 → UInt8} (k n : Nat) (m : Mem) :
    (forFrom (fun i => do
        let b ← octet (q i)
        store (q i) (f b)) k (n + 1)).mem m =
      (forFrom (fun i => do
        let b ← octet (q i)
        store (q i) (f b)) (k + 1) n).mem (m.set (q k) (f (m (q k)))) := by
  simp only [forFrom, mem_bind, mem_octet, run_octet, mem_store, mem_pure]

/-- **A loop that rewrites octets in place**, the rewriting of an octet twice being that of it once: it
rewrites the octets it comes by and leaves all others. -/
theorem mem_forN_update {q : Nat → Nat} {f : UInt8 → UInt8} (hf : ∀ b, f (f b) = f b) (n : Nat) (m : Mem)
    (j : Nat) :
    ((∃ i < n, j = q i) → (forN n fun i => do
        let b ← octet (q i)
        store (q i) (f b)).mem m j = f (m j)) ∧
      ((∀ i < n, j ≠ q i) → (forN n fun i => do
        let b ← octet (q i)
        store (q i) (f b)).mem m j = m j) := by
  suffices h : ∀ k m,
      ((∃ i, k ≤ i ∧ i < k + n ∧ j = q i) → (forFrom (fun i => do
        let b ← octet (q i)
        store (q i) (f b)) k n).mem m j = f (m j)) ∧
      ((∀ i, k ≤ i → i < k + n → j ≠ q i) → (forFrom (fun i => do
        let b ← octet (q i)
        store (q i) (f b)) k n).mem m j = m j) by
    simpa [forN] using h 0 m
  induction n with
  | zero => exact fun k m => ⟨fun ⟨i, h1, h2, _⟩ => by omega, fun _ => rfl⟩
  | succ n ih =>
    intro k m
    rw [mem_forFrom_update]
    obtain ⟨hin, hout⟩ := ih (k + 1) (m.set (q k) (f (m (q k))))
    by_cases hjk : j = q k
    · have hset : m.set (q k) (f (m (q k))) j = f (m j) := by rw [Mem.set, if_pos hjk, ← hjk]
      rw [hset, hf] at hin
      rw [hset] at hout
      refine ⟨fun _ => ?_, fun h => absurd hjk (h k (Nat.le_refl k) (by omega))⟩
      by_cases hlater : ∃ i, k + 1 ≤ i ∧ i < k + 1 + n ∧ j = q i
      · exact hin hlater
      · exact hout fun i h1 h2 h3 => hlater ⟨i, h1, h2, h3⟩
    · have hset : m.set (q k) (f (m (q k))) j = m j := by rw [Mem.set, if_neg hjk]
      rw [hset] at hin hout
      refine ⟨?_, fun h => hout fun i h1 h2 => h i (by omega) (by omega)⟩
      rintro ⟨i, h1, h2, h3⟩
      rcases Nat.eq_or_lt_of_le h1 with rfl | hlt
      · exact absurd h3 hjk
      · exact hin ⟨i, hlt, by omega, h3⟩

/-! ### Loops that are left early -/

/-- `for (i = k; i < k + n; i++)`, left at the first value that `stop`s: the values before it, and whether there is
one. -/
def untilFrom (f : Nat → Rd α) (stop : α → Bool) : Nat → Nat → Rd (List α × Bool)
  | _, 0 => pure ([], false)
  | k, n + 1 => do
    let a ← f k
    if stop a then pure ([], true) else do
    let r ← untilFrom f stop (k + 1) n
    pure (a :: r.1, r.2)

/-- `for (i = 0; i < n; i++)`, left early. -/
def untilN (n : Nat) (f : Nat → Rd α) (stop : α → Bool) : Rd (List α × Bool) := untilFrom f stop 0 n

theorem mem_untilN {n : Nat} {f : Nat → Rd α} (hf : ∀ i, (f i).Pure) (stop : α → Bool) (m : Mem) :
    (untilN n f stop).mem m = m := by
  suffices h : ∀ k, (untilFrom f stop k n).mem m = m from h 0
  induction n with
  | zero => exact fun _ => rfl
  | succ n ih => intro k; simp [untilFrom, hf k m, ih]

theorem run_untilN {n : Nat} {f : Nat → Rd α} (hf : ∀ i, (f i).Pure) (stop : α → Bool) (m : Mem) :
    (untilN n f stop).run m =
      (((List.range n).map fun i => (f i).run m).takeWhile (fun a => !stop a),
        ((List.range n).map fun i => (f i).run m).any stop) := by
  suffices h : ∀ k, (untilFrom f stop k n).run m =
      (((List.range' k n).map fun i => (f i).run m).takeWhile (fun a => !stop a),
        ((List.range' k n).map fun i => (f i).run m).any stop) by
    rw [List.range_eq_range']
    exact h 0
  induction n with
  | zero => exact fun _ => rfl
  | succ n ih =>
    intro k
    cases hs : stop ((f k).run m) <;> simp [untilFrom, hf k m, ih, List.range'_succ, hs]

/-- The loop asks for what its rounds ask for, up to the one that stops it. -/
theorem mem_reads_untilN {n : Nat} {f : Nat → Rd α} (hf : ∀ i, (f i).Pure) {stop : α → Bool} {m : Mem} {j : Nat} :
    j ∈ (untilN n f stop).reads m ↔
      ∃ i < n, (∀ i' < i, stop ((f i').run m) = false) ∧ j ∈ (f i).reads m := by
  suffices h : ∀ k, j ∈ (untilFrom f stop k n).reads m ↔
      ∃ i, k ≤ i ∧ i < k + n ∧ (∀ i', k ≤ i' → i' < i → stop ((f i').run m) = false) ∧ j ∈ (f i).reads m by
    simpa [untilN] using h 0
  induction n with
  | zero => intro k; simp [untilFrom]; omega
  | succ n ih =>
    intro k
    simp only [untilFrom, reads_bind, hf k m, List.mem_append, reads_ite, reads_pure, List.append_nil]
    cases hs : stop ((f k).run m) with
    | true =>
      simp only [if_true, List.not_mem_nil, or_false]
      constructor
      · intro h
        exact ⟨k, Nat.le_refl k, by omega, fun i' h1 h2 => absurd h2 (Nat.not_lt_of_le h1), h⟩
      · rintro ⟨i, h1, h2, h3, h4⟩
        rcases Nat.eq_or_lt_of_le h1 with rfl | hlt
        · exact h4
        · rw [h3 k (Nat.le_refl k) hlt] at hs
          cases hs
    | false =>
      simp only [Bool.false_eq_true, if_false, ih]
      constructor
      · rintro (h | ⟨i, h1, h2, h3, h4⟩)
        · exact ⟨k, Nat.le_refl k, by omega, fun i' h1 h2 => absurd h2 (Nat.not_lt_of_le h1), h⟩
        · refine ⟨i, by omega, by omega, fun i' h5 h6 => ?_, h4⟩
          rcases Nat.eq_or_lt_of_le h5 with rfl | hlt
          · exact hs
          · exact h3 i' hlt h6
      · rintro ⟨i, h1, h2, h3, h4⟩
        rcases Nat.eq_or_lt_of_le h1 with rfl | hlt
        · exact Or.inl h4
        · exact Or.inr ⟨i, hlt, by omega, fun i' h5 h6 => h3 i' (by omega) h6, h4⟩

/-! ### Reads decide runs -/

section Congr

/-- Agreement survives a store of the same octet. -/
theorem set_congr {m m' : Mem} {l : List Nat} (h : ∀ j ∈ l, m j = m' j) (i : Nat) (b : UInt8) :
    ∀ j ∈ l, m.set i b j = m'.set i b j := by
  intro j hj
  by_cases hji : j = i <;> simp [Mem.set, hji, h j hj]

theorem run_congr {x : Rd α} {m m' : Mem} (h : ∀ i ∈ x.reads m, m i = m' i) : x.run m = x.run m' := by
  induction x generalizing m m' with
  | ret a => rfl
  | read i k ih =>
    have hi : m i = m' i := h i (by simp [reads])
    simp only [run, ← hi]
    exact ih (m i) fun j hj => h j (by simp [reads, hj])
  | write i b x ih => exact ih (set_congr h i b)

/-- **Noninterference**: a program whose reads stay below `n` has one value on all memories that hold the
same first `n` octets. -/
theorem run_agree {x : Rd α} {n : Nat} {m m' : Mem} (hr : ∀ i ∈ x.reads m, i < n)
    (ha : Mem.AgreeBelow n m m') : x.run m = x.run m' :=
  run_congr fun i hi => ha i (hr i hi)

end Congr

/-! ### Reads below a bound -/

section Within

variable {n : Nat} {m : Mem}

/-- On `m` the program asks only for octets below `n`. -/
def Within (n : Nat) (x : Rd α) (m : Mem) : Prop := ∀ i ∈ x.reads m, i < n

theorem Within.run_agree {x : Rd α} {m' : Mem} (h : x.Within n m) (ha : Mem.AgreeBelow n m m') :
    x.run m = x.run m' := Rd.run_agree h ha

@[simp] theorem within_pure (a : α) : (pure a : Rd α).Within n m ↔ True :=
  iff_of_true (fun _ h => by cases h) trivial

@[simp] theorem within_octet (i : Nat) : (octet i).Within n m ↔ i < n := List.forall_mem_singleton

@[simp] theorem within_bind (x : Rd α) (f : α → Rd β) :
    (x >>= f).Within n m ↔ x.Within n m ∧ (f (x.run m)).Within n (x.mem m) := by
  simp only [Within, reads_bind, List.forall_mem_append]

@[simp] theorem within_u16 (p : Nat) : (u16 p).Within n m ↔ p + 1 < n := by
  simp only [Within, reads_u16, List.forall_mem_cons, List.not_mem_nil, false_imp_iff, implies_true, and_true]
  omega

@[simp] theorem within_octets (p k : Nat) : (octets p k).Within n m ↔ k = 0 ∨ p + k ≤ n := by
  simp only [Within, mem_reads_octets]
  constructor
  · intro h
    rcases Nat.eq_zero_or_pos k with hk | hk
    · exact Or.inl hk
    · have := h (p + k - 1) ⟨by omega, by omega⟩
      omega
  · intro h i hi
    omega

theorem within_forN {k : Nat} {f : Nat → Rd α} (hf : ∀ i, (f i).Pure) :
    (forN k f).Within n m ↔ ∀ i < k, (f i).Within n m := by
  constructor
  · intro h i hi j hj
    exact h j ((mem_reads_forN hf).mpr ⟨i, hi, hj⟩)
  · intro h j hj
    obtain ⟨i, hi, hj⟩ := (mem_reads_forN hf).mp hj
    exact h i hi j hj

theorem within_untilN {k : Nat} {f : Nat → Rd α} (hf : ∀ i, (f i).Pure) {stop : α → Bool} :
    (untilN k f stop).Within n m ↔
      ∀ i < k, (∀ i' < i, stop ((f i').run m) = false) → (f i).Within n m := by
  constructor
  · intro h i hi hs j hj
    exact h j ((mem_reads_untilN hf).mpr ⟨i, hi, hs, hj⟩)
  · intro h j hj
    obtain ⟨i, hi, hs, hj⟩ := (mem_reads_untilN hf).mp hj
    exact h i hi hs j hj

end Within

end Rd

end Wow
