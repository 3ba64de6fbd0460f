import Mathlib.Tactic.Common
import Mathlib.Logic.Function.Basic
import Mathlib.Algebra.Order.Ring.Nat
import Wow.Lib.Block

/-!
# Wow.Lib.Heap — blocks at addresses

A heap gives the block that begins at an address, if there is one.  A block takes up its cells, and one without cells a
place of its own.

* `Apart`: no two blocks overlap; kept by `Apart.alloc`, `Apart.release` and `Apart.set`.
* `Apart.eq_of_mem`: an address that begins a block lies in no other.
-/

namespace Wow

/-- The blocks of a heap. -/
abbrev Heap (α : Type) := Nat → Option (List α)

namespace Heap

variable {α : Type}

/-- The addresses that a block of `n` cells takes up. -/
def extent (n : Nat) : Nat := max n 1

/-- No two blocks overlap. -/
def Apart (h : Heap α) : Prop :=
  ∀ p q b c, h p = some b → h q = some c → p ≠ q → p + extent b.length ≤ q ∨ q + extent c.length ≤ p

/-- A place for a block of `n` cells. -/
def Fresh (h : Heap α) (a n : Nat) : Prop :=
  ∀ p b, h p = some b → a + extent n ≤ p ∨ p + extent b.length ≤ a

variable {h : Heap α} {a p q : Nat} {b b' c : List α}

theorem Fresh.eq_none {n : Nat} (hf : Fresh h a n) : h a = none := by
  cases hb : h a with
  | none => rfl
  | some b =>
    have hover := hf a b hb
    rw [extent, extent] at hover
    omega

/-- A block of the heap after one place was changed. -/
theorem update_eq_some {o : Option (List α)} :
    Function.update h a o p = some c ↔ p = a ∧ o = some c ∨ p ≠ a ∧ h p = some c := by
  by_cases hpa : p = a
  · rw [hpa, Function.update_self]
    simp
  · rw [Function.update_of_ne hpa]
    simp [hpa]

theorem update_none_eq_some : Function.update h a none p = some c ↔ p ≠ a ∧ h p = some c := by
  rw [update_eq_some]
  simp

theorem update_some_eq_some :
    Function.update h a (some b) p = some c ↔ p = a ∧ b = c ∨ p ≠ a ∧ h p = some c := by
  rw [update_eq_some, Option.some_inj]

/-- **A new block.** -/
theorem Apart.alloc (hap : Apart h) (hf : Fresh h a b.length) : Apart (Function.update h a (some b)) := by
  intro p q c d hp hq hne
  rw [update_some_eq_some] at hp hq
  rcases hp with ⟨rfl, rfl⟩ | ⟨hpa, hp⟩
  · rcases hq with ⟨rfl, -⟩ | ⟨-, hq⟩
    · exact absurd rfl hne
    · exact hf q d hq
  · rcases hq with ⟨rfl, rfl⟩ | ⟨-, hq⟩
    · exact (hf p c hp).symm
    · exact hap p q c d hp hq hne

/-- **A block given back.** -/
theorem Apart.release (hap : Apart h) : Apart (Function.update h a none) := by
  intro p q c d hp hq hne
  exact hap p q c d (update_none_eq_some.mp hp).2 (update_none_eq_some.mp hq).2 hne

/-- **Other cells** in a block. -/
theorem Apart.set (hap : Apart h) (hb : h a = some b) (hlen : b'.length = b.length) :
    Apart (Function.update h a (some b')) := by
  have hf : Fresh (Function.update h a none) a b'.length := by
    intro p c hp
    obtain ⟨hpa, hp⟩ := update_none_eq_some.mp hp
    rw [hlen]
    exact hap a p b c hb hp hpa.symm
  have hnew := hap.release.alloc hf
  rwa [Function.update_idem] at hnew

/-- **An address** that begins a block lies in no other. -/
theorem Apart.eq_of_mem (hap : Apart h) (hp : h p = some b) (hq : h q = some c) (hle : q ≤ p)
    (hlt : p < q + c.length) : p = q := by
  by_contra hne
  have hover := hap p q b c hp hq hne
  rw [extent, extent] at hover
  omega

end Heap

end Wow
