import Wow.Lib.Mem

/-!
# Wow.Utils.ByteArray — the growing byte array of `wow_byte_array.c`

The array is its memory, its size and its capacity, as in `ByteArray_T`; `octets` is what it holds.  The length
of `wow_byte_array_append_ndata` is a `uint8_t`.

* `octets_appendNdata`, `octets_remove_zero`, `find_eq_some`: the calls of the stations, on what the array holds.
* `Tidy`: nothing but zeros behind what the array holds, so that `data` is a function of it.
-/

namespace Wow.Utils

/-- `ByteArray_T`. -/
structure ByteArrayT where
  size : Nat
  capicity : Nat
  data : Mem

namespace ByteArrayT

/-- `DEFALUT_BYTE_ARRAY_SZIE`. -/
def defaultSize : Nat := 128

/-- `wow_byte_array_new`. -/
def new (nSize : Nat) : ByteArrayT := ⟨0, if nSize = 0 then defaultSize else nSize, fun _ => 0⟩

/-- `byte_array_resize`: the octets behind the old capacity are cleared. -/
def resize (a : ByteArrayT) (nSize : Nat) : ByteArrayT :=
  { a with
    data := fun i => if a.capicity ≤ i ∧ i < nSize then 0 else a.data i
    capicity := nSize }

/-- Room for `snLen` octets more. -/
def grow (a : ByteArrayT) (snLen : Nat) : ByteArrayT :=
  if a.size + snLen ≥ a.capicity then
    a.resize (if a.size + snLen > a.size * 2 then a.size + snLen else a.size * 2)
  else a

/-- `wow_byte_array_append_ndata` of the octets `u8Value`, their number in a `uint8_t`. -/
def appendNdata (a : ByteArrayT) (u8Value : List UInt8) : ByteArrayT :=
  let snLen := u8Value.length % 256
  let b := a.grow snLen
  { b with
    data := fun i => if a.size ≤ i ∧ i < a.size + snLen then u8Value.getD (i - a.size) 0 else b.data i
    size := a.size + snLen }

/-- `wow_byte_array_find`; `none` is its negative result. -/
def find (a : ByteArrayT) (u8Value : UInt8) : Option Nat := (List.range a.size).find? fun i => a.data i == u8Value

/-- `wow_byte_array_remove`. -/
def remove (a : ByteArrayT) (snIdx snLen : Nat) : ByteArrayT :=
  if snIdx < a.size then
    if a.size > snLen + snIdx then
      { a with
        data := fun i =>
          if a.size - snLen ≤ i ∧ i < a.size then 0
          else if i < a.size - snLen then a.data (snIdx + snLen + i) else a.data i
        size := a.size - snLen }
    else
      { a with
        data := fun i => if snIdx ≤ i ∧ i < a.size then 0 else a.data i
        size := snIdx }
  else a

/-- What the array holds. -/
def octets (a : ByteArrayT) : List UInt8 := a.data.slice 0 a.size

/-- Nothing but zeros behind what the array holds. -/
def Tidy (a : ByteArrayT) : Prop := ∀ i, a.size ≤ i → a.data i = 0

@[simp] theorem length_octets (a : ByteArrayT) : a.octets.length = a.size := Mem.length_slice ..

theorem getElem_octets (a : ByteArrayT) {i : Nat} (h : i < a.octets.length) : a.octets[i] = a.data i := by
  simp [octets]

theorem octets_new (nSize : Nat) : (new nSize).octets = [] := rfl

theorem tidy_new (nSize : Nat) : (new nSize).Tidy := fun _ _ => rfl

/-- **A tidy array is what it holds.** -/
theorem Tidy.data_eq {a : ByteArrayT} (h : a.Tidy) : a.data = Mem.fill (fun _ => 0) a.octets := by
  funext i
  by_cases hi : i < a.octets.length
  · rw [Mem.fill_of_lt hi, getElem_octets]
  · rw [Mem.fill_of_le (Nat.le_of_not_lt hi), h i (by simpa using hi)]

/-! ### Appending -/

theorem size_appendNdata (a : ByteArrayT) (u8Value : List UInt8) :
    (a.appendNdata u8Value).size = a.size + u8Value.length % 256 := rfl

/-- Growing clears only behind the old capacity. -/
theorem data_grow (a : ByteArrayT) (snLen : Nat) {i : Nat} : (a.grow snLen).data i = a.data i ∨
    a.capicity ≤ i ∧ (a.grow snLen).data i = 0 := by
  rw [grow]
  split
  · rw [resize]
    by_cases h : a.capicity ≤ i ∧ i < if a.size + snLen > a.size * 2 then a.size + snLen else a.size * 2
    · exact Or.inr ⟨h.1, if_pos h⟩
    · exact Or.inl (if_neg h)
  · exact Or.inl rfl

theorem capicity_grow (a : ByteArrayT) (snLen : Nat) : a.size + snLen ≤ (a.grow snLen).capicity := by
  rw [grow]
  split
  · rw [resize]
    show a.size + snLen ≤ if a.size + snLen > a.size * 2 then a.size + snLen else a.size * 2
    split <;> omega
  · omega

/-- **An append loses what does not fit the length octet.** -/
theorem octets_appendNdata (a : ByteArrayT) (hcap : a.size ≤ a.capicity) (u8Value : List UInt8) :
    (a.appendNdata u8Value).octets = a.octets ++ u8Value.take (u8Value.length % 256) := by
  have hlen : (u8Value.take (u8Value.length % 256)).length = u8Value.length % 256 := by
    rw [List.length_take]
    exact Nat.min_eq_left (Nat.mod_le _ _)
  refine List.ext_getElem (by simp [size_appendNdata, hlen]) fun i h1 h2 => ?_
  rw [length_octets, size_appendNdata] at h1
  rw [getElem_octets]
  by_cases hi : i < a.size
  · rw [List.getElem_append_left (by simpa using hi), getElem_octets]
    show (if a.size ≤ i ∧ i < a.size + u8Value.length % 256 then _ else _) = _
    rw [if_neg (by omega)]
    exact (data_grow a _).resolve_right fun h => by omega
  · have hlt : i - a.size < u8Value.length := by
      have := Nat.mod_le u8Value.length 256
      omega
    rw [List.getElem_append_right (by simpa using hi), List.getElem_take]
    show (if a.size ≤ i ∧ i < a.size + u8Value.length % 256 then _ else _) = _
    rw [if_pos (by omega), List.getD_eq_getElem?_getD, List.getElem?_eq_getElem hlt, Option.getD_some]
    simp only [length_octets]

theorem tidy_appendNdata {a : ByteArrayT} (h : a.Tidy) (u8Value : List UInt8) : (a.appendNdata u8Value).Tidy := by
  intro i hi
  rw [size_appendNdata] at hi
  show (if a.size ≤ i ∧ i < a.size + u8Value.length % 256 then _ else _) = _
  rw [if_neg (by omega)]
  rcases data_grow a (u8Value.length % 256) (i := i) with hd | hd
  · rw [hd]
    exact h i (by omega)
  · exact hd.2

/-- The array keeps inside its memory. -/
theorem size_le_appendNdata (a : ByteArrayT) (u8Value : List UInt8) :
    (a.appendNdata u8Value).size ≤ (a.appendNdata u8Value).capicity := by
  rw [size_appendNdata]
  exact capicity_grow a _

/-! ### Searching -/

theorem find_eq_some {a : ByteArrayT} {b : UInt8} {i : Nat} (h : a.find b = some i) :
    i < a.size ∧ a.data i = b ∧ ∀ j < i, a.data j ≠ b := by
  rw [find, List.find?_range_eq_some] at h
  obtain ⟨hb, hi, hj⟩ := h
  refine ⟨List.mem_range.mp hi, by simpa using hb, fun j hlt => by simpa using hj j hlt⟩

/-- The octet the array begins with is found there. -/
theorem find_head {a : ByteArrayT} (hpos : 0 < a.size) : a.find (a.data 0) = some 0 := by
  rw [find, List.find?_range_eq_some]
  exact ⟨by simp, List.mem_range.mpr hpos, fun j hj => absurd hj (Nat.not_lt_zero j)⟩

/-! ### Removing from the front -/

/-- **A removal from the front** drops octets. -/
theorem octets_remove_zero (a : ByteArrayT) (snLen : Nat) : (a.remove 0 snLen).octets = a.octets.drop snLen := by
  rw [remove]
  split
  · split
    · rename_i h0 h1
      refine List.ext_getElem (by simp) fun i h2 h3 => ?_
      have hi : i < a.size - snLen := by simpa using h2
      rw [getElem_octets, List.getElem_drop, getElem_octets]
      show (if _ then _ else if _ then _ else _) = _
      rw [if_neg (by omega), if_pos hi, Nat.zero_add]
    · rename_i h0 h1
      rw [List.drop_of_length_le (by rw [length_octets]; omega)]
      rfl
  · have hnil : a.octets = [] := List.length_eq_zero_iff.mp (by rw [length_octets]; omega)
    rw [hnil, List.drop_nil]

theorem size_remove_zero (a : ByteArrayT) (snLen : Nat) : (a.remove 0 snLen).size = a.size - snLen := by
  rw [← length_octets, octets_remove_zero, List.length_drop, length_octets]

theorem capicity_remove (a : ByteArrayT) (snIdx snLen : Nat) : (a.remove snIdx snLen).capicity = a.capicity := by
  rw [remove]
  split
  · split <;> rfl
  · rfl

theorem tidy_remove_zero {a : ByteArrayT} (h : a.Tidy) (snLen : Nat) : (a.remove 0 snLen).Tidy := by
  intro i hi
  rw [size_remove_zero] at hi
  rw [remove]
  split
  · split
    · show (if _ then _ else if _ then _ else _) = _
      split
      · rfl
      · rw [if_neg (by omega), h i (by omega)]
    · show (if _ then _ else _) = _
      split
      · rfl
      · exact h i (by omega)
  · exact h i (by omega)

end ByteArrayT

end Wow.Utils
