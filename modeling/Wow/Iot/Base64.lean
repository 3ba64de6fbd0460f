import Wow.Lib.Block
import Wow.Lib.CNum
import Wow.Lib.Mem
import Wow.Lib.Sextets

/-!
# Wow.Iot.Base64 — `wow_base64_encode` and `wow_base64_decode`

The counters are of 32 bits.  An access that leaves an array is `none`; no pointer is null.  The encoder is modelled by
the characters that it writes, each with its place, and these are then put into the output.

* `encodeLoop_eq`, `decodeLoop_eq`: the loops go over the groups of `Sextets`.
* `encode_eq`, `decode_eq`: what the functions leave.
* `round_trip`: an encoded byte string comes back.
-/

namespace Wow.Iot.Base64

open Block Sextets

/-! ### The tables -/

def g_encodingTable : List UInt8 :=
  [65, 66, 67, 68, 69, 70, 71, 72, 73, 74, 75, 76, 77, 78, 79, 80, 81, 82, 83, 84, 85, 86, 87, 88, 89, 90,
    97, 98, 99, 100, 101, 102, 103, 104, 105, 106, 107, 108, 109, 110, 111, 112, 113, 114, 115, 116, 117, 118, 119,
    120, 121, 122, 48, 49, 50, 51, 52, 53, 54, 55, 56, 57, 43, 47]

def g_decodingTable : List UInt8 :=
  [0x00, 0x00, 0x00, 0x00, 0x00, 0x00, 0x00, 0x00, 0x00, 0x00, 0x00, 0x00, 0x00, 0x00, 0x00, 0x00,
    0x00, 0x00, 0x00, 0x00, 0x00, 0x00, 0x00, 0x00, 0x00, 0x00, 0x00, 0x00, 0x00, 0x00, 0x00, 0x00,
    0x00, 0x00, 0x00, 0x00, 0x00, 0x00, 0x00, 0x00, 0x00, 0x00, 0x00, 0x3e, 0x00, 0x00, 0x00, 0x3f,
    0x34, 0x35, 0x36, 0x37, 0x38, 0x39, 0x3a, 0x3b, 0x3c, 0x3d, 0x00, 0x00, 0x00, 0x00, 0x00, 0x00,
    0x00, 0x00, 0x01, 0x02, 0x03, 0x04, 0x05, 0x06, 0x07, 0x08, 0x09, 0x0a, 0x0b, 0x0c, 0x0d, 0x0e,
    0x0f, 0x10, 0x11, 0x12, 0x13, 0x14, 0x15, 0x16, 0x17, 0x18, 0x19, 0x00, 0x00, 0x00, 0x00, 0x00,
    0x00, 0x1a, 0x1b, 0x1c, 0x1d, 0x1e, 0x1f, 0x20, 0x21, 0x22, 0x23, 0x24, 0x25, 0x26, 0x27, 0x28,
    0x29, 0x2a, 0x2b, 0x2c, 0x2d, 0x2e, 0x2f, 0x30, 0x31, 0x32, 0x33, 0x00, 0x00, 0x00, 0x00, 0x00] ++
    List.replicate 128 0x00

def g_modTable : List Nat := [0, 2, 1]

/-! ### The encoder -/

/-- `i < u32Ilen ? (uint8_t) pu8Idata[i++] : 0`, with the `i` behind it. -/
def nextOctet (pu8Idata : List UInt8) (u32Ilen i : Nat) : Option (UInt8 × Nat) :=
  if i < u32Ilen then do
    let b ← pu8Idata[i]?
    return (b, asUint32 (i + 1))
  else some (0, i)

/-- The four stores of a pass, each at `j++`. -/
def putGroup (triple j : Nat) : Option (List (Nat × UInt8)) := do
  let a ← g_encodingTable[sextet triple 3]?
  let b ← g_encodingTable[sextet triple 2]?
  let c ← g_encodingTable[sextet triple 1]?
  let d ← g_encodingTable[sextet triple 0]?
  return [(j, a), (asUint32 (j + 1), b), (asUint32 (j + 2), c), (asUint32 (j + 3), d)]

/-- The loop of `wow_base64_encode`, with the stores that it makes. -/
def encodeLoop (pu8Idata : List UInt8) (u32Ilen : Nat) : Nat → Nat → Nat → Option (List (Nat × UInt8))
  | 0, i, _ => if i < u32Ilen then none else some []
  | passes + 1, i, j =>
    if i < u32Ilen then do
      let (octet_a, i) ← nextOctet pu8Idata u32Ilen i
      let (octet_b, i) ← nextOctet pu8Idata u32Ilen i
      let (octet_c, i) ← nextOctet pu8Idata u32Ilen i
      let group ← putGroup (triple octet_a octet_b octet_c) j
      let stores ← encodeLoop pu8Idata u32Ilen passes i (asUint32 (j + 4))
      return group ++ stores
    else some []

/-- `len`. -/
def encodedLen (u32Ilen : Nat) : Nat := asUint32 (4 * (asUint32 (u32Ilen + 2) / 3 : Nat))

/-- The loop for the padding. -/
def padStores (len n : Nat) : List (Nat × UInt8) :=
  (List.range n).map fun i : Nat => (asUint32 (asUint32 ((len : Int) - 1) - (i : Int)), 61)

/-- The checks of `wow_base64_encode`. -/
def Passes (u32Ilen u32Olen : Nat) : Prop := u32Ilen ≠ 0 ∧ u32Olen ≠ 0 ∧ u32Olen ≥ encodedLen u32Ilen

instance (u32Ilen u32Olen : Nat) : Decidable (Passes u32Ilen u32Olen) :=
  inferInstanceAs (Decidable (u32Ilen ≠ 0 ∧ u32Olen ≠ 0 ∧ u32Olen ≥ encodedLen u32Ilen))

/-- `wow_base64_encode`, with the stores that it makes. -/
def encodeStores (pu8Idata : List UInt8) (u32Ilen u32Olen : Nat) : Option (Int × List (Nat × UInt8)) :=
  if Passes u32Ilen u32Olen then do
    let stores ← encodeLoop pu8Idata u32Ilen u32Ilen 0 0
    let n ← g_modTable[u32Ilen % 3]?
    return (asInt (encodedLen u32Ilen), stores ++ padStores (encodedLen u32Ilen) n)
  else some (-1, [])

/-- The stores in an array. -/
def storeAll (pu8Odata : List UInt8) (stores : List (Nat × UInt8)) : Option (List UInt8) :=
  stores.foldlM (fun pu8Odata e => store pu8Odata e.1 [e.2]) pu8Odata

/-- `wow_base64_encode`. -/
def base64Encode (pu8Idata : List UInt8) (u32Ilen : Nat) (pu8Odata : List UInt8) (u32Olen : Nat) :
    Option (Int × List UInt8) := do
  let (ret, stores) ← encodeStores pu8Idata u32Ilen u32Olen
  let pu8Odata ← storeAll pu8Odata stores
  return (ret, pu8Odata)

/-! ### The decoder -/

/-- `pu8Idata[i] == '=' ? 0 & i++ : g_decodingTable[pu8Idata[i++]]`. -/
def sextetAt (pu8Idata : List UInt8) (i : Nat) : Option Nat := do
  let c ← pu8Idata[i]?
  if c = 61 then return 0
  let v ← g_decodingTable[c.toNat]?
  return v.toNat

/-- `if (j < len) pu8Odata[j++] = v`. -/
def putOctet (len : Nat) (st : Nat × List UInt8) (v : UInt8) : Option (Nat × List UInt8) :=
  if st.1 < len then do
    let pu8Odata ← store st.2 st.1 [v]
    return (st.1 + 1, pu8Odata)
  else some st

/-- The loop of `wow_base64_decode`. -/
def decodeLoop (pu8Idata : List UInt8) (u32Ilen len : Nat) : Nat → Nat → Nat × List UInt8 → Option (List UInt8)
  | 0, i, st => if i < u32Ilen then none else some st.2
  | passes + 1, i, st =>
    if i < u32Ilen then do
      let sextet_a ← sextetAt pu8Idata i
      let sextet_b ← sextetAt pu8Idata (i + 1)
      let sextet_c ← sextetAt pu8Idata (i + 2)
      let sextet_d ← sextetAt pu8Idata (i + 3)
      let triple := joined sextet_a sextet_b sextet_c sextet_d
      let st ← [octet triple 2, octet triple 1, octet triple 0].foldlM (putOctet len) st
      decodeLoop pu8Idata u32Ilen len passes (i + 4) st
    else some st.2

/-- `len`. -/
def decodedLen (pu8Idata : List UInt8) (u32Ilen : Nat) : Option Nat := do
  let last ← pu8Idata[u32Ilen - 1]?
  let len := if last = 61 then u32Ilen / 4 * 3 - 1 else u32Ilen / 4 * 3
  let second ← pu8Idata[u32Ilen - 2]?
  return if second = 61 then len - 1 else len

/-- `wow_base64_decode`. -/
def base64Decode (pu8Idata : List UInt8) (u32Ilen : Nat) (pu8Odata : List UInt8) (u32Olen : Nat) :
    Option (Int × List UInt8) :=
  if u32Ilen ≠ 0 ∧ u32Olen ≠ 0 ∧ u32Ilen % 4 = 0 then do
    let len ← decodedLen pu8Idata u32Ilen
    if u32Olen ≥ len then
      let pu8Odata ← decodeLoop pu8Idata u32Ilen len u32Ilen 0 (0, pu8Odata)
      return (asInt len, pu8Odata)
    else return (-1, pu8Odata)
  else some (-1, pu8Odata)

/-! ### The alphabet -/

theorem value_char : ∀ n < 64, (g_decodingTable.getD (g_encodingTable.getD n 0).toNat 0).toNat = n := by
  decide +kernel

theorem char_ne_pad : ∀ n < 64, g_encodingTable.getD n 0 ≠ 61 := by decide

theorem value_pad : (g_decodingTable.getD (61 : UInt8).toNat 0).toNat = 0 := rfl

/-- **The tables are inverse**, and the padding reads as a 0. -/
def base64 : Alphabet where
  char n := g_encodingTable.getD n 0
  value c := (g_decodingTable.getD c.toNat 0).toNat
  pad := 61
  value_char := value_char
  char_ne_pad := char_ne_pad
  value_pad := value_pad

/-! ### The requirement -/

/-- The characters for so many octets. -/
def textLen (n : Nat) : Nat := 4 * ((n + 2) / 3)

/-- **The requirement**: what is encoded has the length of its groups, consists of the alphabet and of padding behind
it, and is decoded to the same octets, whatever the outputs held before. -/
def ComesBack (data : List UInt8) : Prop :=
  ∀ out : List UInt8, textLen data.length ≤ out.length → out.length < 2 ^ 32 →
    ∃ body n out', n ≤ 2 ∧ (∀ c ∈ body, c ∈ g_encodingTable) ∧ (body ++ List.replicate n 61).length = textLen data.length ∧
      out' = body ++ List.replicate n 61 ++ out.drop (textLen data.length) ∧
      base64Encode data data.length out out.length = some ((textLen data.length : Int), out') ∧
      ∀ back : List UInt8, data.length ≤ back.length → back.length < 2 ^ 32 →
        base64Decode out' (textLen data.length) back back.length =
          some ((data.length : Int), data ++ back.drop data.length)

/-! ### Stores at places that follow each other -/

/-- The stores of some characters from a place on. -/
def storesFrom : Nat → List UInt8 → List (Nat × UInt8)
  | _, [] => []
  | j, c :: cs => (j, c) :: storesFrom (asUint32 (j + 1)) cs

theorem asUint32_succ {j : Nat} (h : j + 1 < 2 ^ 32) : asUint32 ((j : Int) + 1) = j + 1 := by
  rw [← Int.natCast_succ, asUint32_natCast h]

theorem asUint32_asUint32_add (n k : Int) : asUint32 ((asUint32 n : Int) + k) = asUint32 (n + k) := by
  rw [asUint32, asUint32, asUint32]
  omega

theorem storeAll_append (out : List UInt8) (s t : List (Nat × UInt8)) :
    storeAll out (s ++ t) = (storeAll out s).bind fun out => storeAll out t := List.foldlM_append

/-- **The characters are put side by side.** -/
theorem storeAll_storesFrom {cs : List UInt8} {done old rest : List UInt8} (hold : old.length = cs.length)
    (h : done.length + cs.length < 2 ^ 32) :
    storeAll (done ++ old ++ rest) (storesFrom done.length cs) = some (done ++ cs ++ rest) := by
  induction cs generalizing done old with
  | nil =>
    rw [List.length_eq_zero_iff.mp hold]
    rfl
  | cons c cs ih =>
    obtain ⟨o, old, rfl⟩ := List.exists_cons_of_length_eq_add_one hold
    rw [List.length_cons] at h
    have hstep : store (done ++ (o :: old) ++ rest) done.length [c] = some (done ++ [c] ++ old ++ rest) := by
      rw [List.append_assoc, List.cons_append, store_next rfl, List.append_assoc (done ++ [c]), List.append_assoc done]
      rfl
    have hlen : (done ++ [c]).length = done.length + 1 := List.length_append
    have hnext : asUint32 ((done.length : Int) + 1) = (done ++ [c]).length := by
      rw [hlen]
      exact asUint32_succ (by omega)
    have hroom : (done ++ [c]).length + cs.length < 2 ^ 32 := by
      rw [hlen]
      omega
    have hrest := ih (Nat.succ_injective hold) hroom
    rw [storesFrom, storeAll, List.foldlM_cons, hstep, Option.bind_eq_bind, Option.bind_some, hnext, ← storeAll, hrest,
      List.append_assoc done, List.singleton_append]

/-! ### The loop of the encoder -/

theorem encodingTable_sextet (t k : Nat) : g_encodingTable[sextet t k]? = some (base64.char (sextet t k)) := by
  have hlt : sextet t k < g_encodingTable.length := sextet_lt t k
  change g_encodingTable[sextet t k]? = some (g_encodingTable.getD (sextet t k) 0)
  rw [List.getD_eq_getElem?_getD, List.getElem?_eq_getElem hlt]
  rfl

/-- The places of a pass follow each other. -/
theorem places_next (j : Nat) : asUint32 ((asUint32 ((j : Int) + 1) : Nat) + 1) = asUint32 (j + 2) ∧
    asUint32 ((asUint32 ((j : Int) + 2) : Nat) + 1) = asUint32 (j + 3) ∧
    asUint32 ((asUint32 ((j : Int) + 3) : Nat) + 1) = asUint32 (j + 4) :=
  ⟨asUint32_asUint32_add (j + 1) 1, asUint32_asUint32_add (j + 2) 1, asUint32_asUint32_add (j + 3) 1⟩

/-- A pass writes the characters of its number. -/
theorem putGroup_eq (t j : Nat) : putGroup t j = some (storesFrom j (group base64 t)) := by
  obtain ⟨hnext, hthird, -⟩ := places_next j
  rw [putGroup, encodingTable_sextet, encodingTable_sextet, encodingTable_sextet, encodingTable_sextet, group,
    storesFrom, storesFrom, storesFrom, storesFrom, storesFrom, hnext, hthird]
  rfl

theorem storesFrom_append_group (t j : Nat) (cs : List UInt8) :
    storesFrom j (group base64 t ++ cs) = storesFrom j (group base64 t) ++ storesFrom (asUint32 (j + 4)) cs := by
  obtain ⟨hnext, hthird, hfourth⟩ := places_next j
  rw [group, List.cons_append, List.cons_append, List.cons_append, List.cons_append, List.nil_append]
  simp only [storesFrom, hnext, hthird, hfourth, List.cons_append, List.nil_append]

/-- The next octet, where there is one. -/
theorem nextOctet_next {done : List UInt8} {i : Nat} (hi : done.length = i) (a : UInt8) (xs : List UInt8)
    (hlen : (done ++ a :: xs).length < 2 ^ 32) :
    nextOctet (done ++ a :: xs) (done ++ a :: xs).length i = some (a, i + 1) := by
  have hlt : i < (done ++ a :: xs).length := by
    rw [List.length_append, List.length_cons]
    omega
  have hsucc : asUint32 ((i : Int) + 1) = i + 1 := asUint32_succ (by omega)
  rw [nextOctet, if_pos hlt, getElem?_next hi, Option.bind_eq_bind, Option.bind_some, hsucc]
  rfl

theorem nextOctet_end (data : List UInt8) : nextOctet data data.length data.length = some (0, data.length) :=
  if_neg (Nat.lt_irrefl _)

/-- A pass, by what it reads. -/
theorem encodeLoop_pass {data : List UInt8} {n i i1 i2 i3 : Nat} {a b c : UInt8} (hi : i < n)
    (ha : nextOctet data n i = some (a, i1)) (hb : nextOctet data n i1 = some (b, i2))
    (hc : nextOctet data n i2 = some (c, i3)) {cs : List UInt8} {passes j : Nat}
    (hrest : encodeLoop data n passes i3 (asUint32 (j + 4)) = some (storesFrom (asUint32 (j + 4)) cs)) :
    encodeLoop data n (passes + 1) i j = some (storesFrom j (group base64 (triple a b c) ++ cs)) := by
  rw [encodeLoop, if_pos hi, ha]
  simp only [Option.bind_eq_bind, Option.bind_some, hb, hc, putGroup_eq, hrest, storesFrom_append_group]
  rfl

theorem encodeLoop_end (data : List UInt8) (passes j : Nat) :
    encodeLoop data data.length passes data.length j = some (storesFrom j []) := by
  cases passes <;> exact if_neg (Nat.lt_irrefl _)

/-- **The loop writes the groups**, the last of them filled up with zeros. -/
theorem encodeLoop_eq {xs done : List UInt8} {passes j : Nat} (hlen : (done ++ xs).length < 2 ^ 32)
    (hpasses : xs.length ≤ passes) :
    encodeLoop (done ++ xs) (done ++ xs).length passes done.length j = some (storesFrom j (filled base64 xs)) := by
  have hsnoc : ∀ (d : List UInt8) (a : UInt8), (d ++ [a]).length = d.length + 1 := fun d a => List.length_append
  induction xs using filled.induct generalizing done passes j with
  | case1 a b c xs ih =>
    obtain ⟨passes, rfl⟩ : ∃ k, passes = k + 1 := ⟨passes - 1, by rw [List.length_cons] at hpasses; omega⟩
    have hsplit : done ++ a :: b :: c :: xs = done ++ [a] ++ [b] ++ [c] ++ xs := by simp
    have ha := nextOctet_next rfl a (b :: c :: xs) hlen
    have hlen2 : (done ++ [a] ++ [b]).length = done.length + 1 + 1 := by rw [hsnoc, hsnoc]
    have hb := nextOctet_next (hsnoc done a) b (c :: xs) (by rw [← List.append_cons]; exact hlen)
    have hc := nextOctet_next hlen2 c xs (by rw [← List.append_cons, ← List.append_cons]; exact hlen)
    rw [← List.append_cons] at hb
    rw [← List.append_cons, ← List.append_cons] at hc
    have hlen3 : (done ++ [a] ++ [b] ++ [c] ++ xs).length < 2 ^ 32 := by rwa [← hsplit]
    have hpasses3 : xs.length ≤ passes := by
      simp only [List.length_cons] at hpasses
      omega
    have hrest := ih (j := asUint32 (j + 4)) hlen3 hpasses3
    rw [← hsplit, hsnoc, hsnoc, hsnoc] at hrest
    refine encodeLoop_pass ?_ ha hb hc hrest
    rw [List.length_append, List.length_cons]
    omega
  | case2 a b =>
    obtain ⟨passes, rfl⟩ : ∃ k, passes = k + 1 := ⟨passes - 1, by rw [List.length_cons] at hpasses; omega⟩
    have hend : (done ++ [a, b]).length = done.length + 1 + 1 := List.length_append
    have ha := nextOctet_next rfl a [b] hlen
    have hb := nextOctet_next (hsnoc done a) b [] (by rw [← List.append_cons]; exact hlen)
    rw [← List.append_cons] at hb
    have hc := nextOctet_end (done ++ [a, b])
    have hrest := encodeLoop_end (done ++ [a, b]) passes (asUint32 (j + 4))
    rw [filled, ← List.append_nil (group base64 _)]
    refine encodeLoop_pass ?_ ha hb ?_ hrest
    · rw [hend]
      omega
    · rw [← hend]
      exact hc
  | case3 a =>
    obtain ⟨passes, rfl⟩ : ∃ k, passes = k + 1 := ⟨passes - 1, by rw [List.length_cons] at hpasses; omega⟩
    have hend : (done ++ [a]).length = done.length + 1 := List.length_append
    have ha := nextOctet_next rfl a [] hlen
    have hb := nextOctet_end (done ++ [a])
    have hrest := encodeLoop_end (done ++ [a]) passes (asUint32 (j + 4))
    rw [filled, ← List.append_nil (group base64 _)]
    refine encodeLoop_pass ?_ ha ?_ hb hrest
    · rw [hend]
      omega
    · rw [← hend]
      exact hb
  | case4 =>
    rw [List.append_nil]
    exact encodeLoop_end done passes j

/-! ### The padding -/

theorem padStores_succ {len k : Nat} (hk : k < len) (hlen : len < 2 ^ 32) :
    padStores len (k + 1) = padStores len k ++ [(len - 1 - k, 61)] := by
  have hlast : asUint32 ((len : Int) - 1) = len - 1 := by
    rw [← Int.natCast_pred_of_pos (by omega), asUint32_natCast (by omega)]
  have hplace : asUint32 ((asUint32 ((len : Int) - 1) : Nat) - (k : Int)) = len - 1 - k := by
    rw [hlast, ← Int.ofNat_sub (by omega), asUint32_natCast (by omega)]
  rw [padStores, padStores, List.range_succ, List.map_append, List.map_singleton, hplace]

/-- **The padding** goes over the last characters. -/
theorem storeAll_padStores {cs rest : List UInt8} {k : Nat} (hk : k ≤ cs.length) (hlen : cs.length < 2 ^ 32) :
    storeAll (cs ++ rest) (padStores cs.length k) =
      some (cs.take (cs.length - k) ++ List.replicate k 61 ++ rest) := by
  induction k with
  | zero =>
    rw [Nat.sub_zero, List.take_length, List.replicate_zero, List.append_nil]
    rfl
  | succ k ih =>
    have hcut : cs.take (cs.length - k) = cs.take (cs.length - (k + 1)) ++ [cs[cs.length - (k + 1)]] := by
      rw [show cs.length - k = cs.length - (k + 1) + 1 by omega, List.take_succ_eq_append_getElem (by omega)]
    have hplace : (cs.take (cs.length - (k + 1))).length = cs.length - 1 - k := by
      rw [List.length_take]
      omega
    rw [padStores_succ (by omega) hlen, storeAll_append, ih (by omega), Option.bind_some, storeAll, List.foldlM_cons,
      hcut, List.append_assoc, List.append_assoc, List.singleton_append, store_next hplace, List.replicate_succ,
      List.append_assoc]
    rfl

theorem modTable_eq (n : Nat) : g_modTable[n % 3]? = some (missing n) := by
  rcases (show n % 3 = 0 ∨ n % 3 = 1 ∨ n % 3 = 2 by omega) with h | h | h <;> rw [missing, h] <;> rfl

theorem encodedLen_eq {n : Nat} (h : n < 3221225470) : encodedLen n = textLen n := by
  have hsum : asUint32 ((n : Int) + 2) = n + 2 := asUint32_natCast (n := n + 2) (by omega)
  have hprod : (4 * ((n + 2) / 3 : Nat) : Int) = (4 * ((n + 2) / 3) : Nat) := by omega
  rw [encodedLen, hsum, hprod, asUint32_natCast (by omega), textLen]

/-- **The stores of the encoder.** -/
theorem encodeStores_eq {data : List UInt8} {m : Nat} (hlen : data.length < 2 ^ 32) (h : Passes data.length m) :
    encodeStores data data.length m = some (asInt (encodedLen data.length),
      storesFrom 0 (filled base64 data) ++ padStores (encodedLen data.length) (missing data.length)) := by
  have hloop := @encodeLoop_eq data [] data.length 0 hlen (Nat.le_refl _)
  rw [List.nil_append, List.length_nil] at hloop
  rw [encodeStores, if_pos h, hloop, modTable_eq]
  rfl

/-- **What the encoder leaves**: the text of the octets. -/
theorem encode_eq {data out : List UInt8} (hne : data ≠ []) (hlen : data.length < 3221225470)
    (hout : textLen data.length ≤ out.length) :
    base64Encode data data.length out out.length = some (asInt (textLen data.length),
      encoding base64 data ++ out.drop (textLen data.length)) := by
  have hpos : 0 < data.length := List.length_pos_iff.mpr hne
  have htext : (filled base64 data).length = textLen data.length := length_filled base64 data
  have hmissing : missing data.length ≤ (filled base64 data).length := by
    rw [htext, missing, textLen]
    omega
  have hfits : textLen data.length < 2 ^ 32 := by
    rw [textLen]
    omega
  have hpasses : Passes data.length out.length := by
    refine ⟨by omega, ?_, by rwa [encodedLen_eq hlen]⟩
    rw [textLen] at hout
    omega
  have hold : (out.take (textLen data.length)).length = (filled base64 data).length := by
    rw [List.length_take, htext]
    omega
  have hplaces : ([] : List UInt8).length + (filled base64 data).length < 2 ^ 32 := by
    rw [List.length_nil, htext]
    omega
  have hloop := @storeAll_storesFrom _ [] _ (out.drop (textLen data.length)) hold hplaces
  rw [List.nil_append, List.take_append_drop, List.nil_append, List.length_nil] at hloop
  have hstores : storeAll out (storesFrom 0 (filled base64 data) ++ padStores (textLen data.length) (missing data.length)) =
      some (encoding base64 data ++ out.drop (textLen data.length)) := by
    rw [storeAll_append, hloop, Option.bind_some, ← htext, storeAll_padStores hmissing (by omega),
      encoding_eq base64 data]
    rfl
  rw [base64Encode, encodeStores_eq (by omega) hpasses, encodedLen_eq hlen, Option.bind_eq_bind, Option.bind_some]
  simp only [hstores, Option.bind_eq_bind, Option.bind_some]
  rfl

/-! ### The decoder -/

theorem length_decodingTable : g_decodingTable.length = 256 := by decide +kernel

theorem sextetAt_next {done : List UInt8} {i : Nat} (hi : done.length = i) (c : UInt8) (rest : List UInt8) :
    sextetAt (done ++ c :: rest) i = some (base64.value c) := by
  have hlt : c.toNat < g_decodingTable.length := by
    rw [length_decodingTable]
    exact c.toNat_lt
  have hvalue : base64.value c = (g_decodingTable.getD c.toNat 0).toNat := rfl
  rw [sextetAt, getElem?_next hi, Option.bind_eq_bind, Option.bind_some]
  by_cases hc : c = 61
  · rw [if_pos hc, hc]
    rfl
  · rw [if_neg hc, hvalue, List.getD_eq_getElem?_getD, List.getElem?_eq_getElem hlt]
    rfl

/-- **The loop puts the octets of the text** one behind the other. -/
theorem decodeLoop_eq {str done rest : List UInt8} {len passes : Nat} {st : Nat × List UInt8}
    (hgroups : 4 ∣ str.length) (hpasses : str.length ≤ passes) :
    decodeLoop (done ++ str ++ rest) (done ++ str).length len passes done.length st =
      ((decoding base64 str).foldlM (putOctet len) st).map Prod.snd := by
  have hsnoc : ∀ (d : List UInt8) (a : UInt8), (d ++ [a]).length = d.length + 1 := fun d a => List.length_append
  induction str using decoding.induct base64 generalizing done passes st with
  | case1 p q r s str ih =>
    have hlen : (p :: q :: r :: s :: str).length = str.length + 4 := rfl
    rw [hlen] at hgroups hpasses
    obtain ⟨passes, rfl⟩ : ∃ k, passes = k + 1 := ⟨passes - 1, by omega⟩
    have hi : done.length < (done ++ p :: q :: r :: s :: str).length := by
      rw [List.length_append, hlen]
      omega
    have hlen2 : (done ++ [p] ++ [q]).length = done.length + 2 := by rw [hsnoc, hsnoc]
    have hlen3 : (done ++ [p] ++ [q] ++ [r]).length = done.length + 3 := by rw [hsnoc, hlen2]
    have hlen4 : (done ++ [p] ++ [q] ++ [r] ++ [s]).length = done.length + 4 := by rw [hsnoc, hlen3]
    have ha := sextetAt_next (Eq.refl done.length) p (q :: r :: s :: str ++ rest)
    have hb := sextetAt_next (hsnoc done p) q (r :: s :: str ++ rest)
    have hc := sextetAt_next hlen2 r (s :: str ++ rest)
    have hd := sextetAt_next hlen3 s (str ++ rest)
    have hrest : ∀ st, decodeLoop (done ++ [p] ++ [q] ++ [r] ++ [s] ++ str ++ rest)
        (done ++ [p] ++ [q] ++ [r] ++ [s] ++ str).length len passes (done ++ [p] ++ [q] ++ [r] ++ [s]).length st =
          ((decoding base64 str).foldlM (putOctet len) st).map Prod.snd := fun st => ih (by omega) (by omega)
    rw [hlen4] at hrest
    simp only [List.append_assoc, List.cons_append, List.nil_append] at ha hb hc hd hrest ⊢
    rw [decodeLoop, if_pos hi, ha, hb, hc, hd, decoding]
    simp only [Option.bind_eq_bind, Option.bind_some, hrest]
    generalize joined (base64.value p) (base64.value q) (base64.value r) (base64.value s) = t
    have hsplit : octet t 2 :: octet t 1 :: octet t 0 :: decoding base64 str =
        [octet t 2, octet t 1, octet t 0] ++ decoding base64 str := rfl
    rw [hsplit, List.foldlM_append, Option.bind_eq_bind, Option.map_bind]
    rfl
  | case2 str h =>
    have hlt := length_lt_four h
    have hnil : str = [] := List.length_eq_zero_iff.mp (by omega)
    rw [hnil, List.append_nil, decoding]
    · cases passes <;> exact if_neg (Nat.lt_irrefl _)
    · intro p q r s str hcons
      cases hcons

/-- **The octets up to the length** are put, the others are not. -/
theorem foldlM_putOctet {len : Nat} {vs done old : List UInt8} (hlen : done.length ≤ len)
    (hold : len ≤ done.length + old.length) (hvs : len ≤ done.length + vs.length) :
    vs.foldlM (putOctet len) (done.length, done ++ old) =
      some (len, done ++ vs.take (len - done.length) ++ old.drop (len - done.length)) := by
  induction vs generalizing done old with
  | nil =>
    obtain rfl : done.length = len := by
      rw [List.length_nil] at hvs
      omega
    rw [Nat.sub_self, List.take_nil, List.append_nil]
    rfl
  | cons v vs ih =>
    rw [List.foldlM_cons]
    rcases Nat.eq_or_lt_of_le hlen with rfl | hlt
    · have hkept := ih (Nat.le_refl _) hold (Nat.le_add_right _ _)
      rw [putOctet, if_neg (Nat.lt_irrefl _), Option.bind_eq_bind, Option.bind_some, hkept, Nat.sub_self]
      rfl
    · obtain ⟨o, old, rfl, -⟩ := exists_room (show 0 + 1 ≤ old.length by omega)
      have hsnoc : (done ++ [v]).length = done.length + 1 := List.length_append
      rw [List.length_cons] at hold hvs
      have hroom : len ≤ (done ++ [v]).length + old.length := by omega
      have hnext := ih (by omega) hroom (by omega)
      have hstep : putOctet len (done.length, done ++ o :: old) v = some ((done ++ [v]).length, done ++ [v] ++ old) := by
        rw [putOctet, if_pos hlt, store_next rfl, hsnoc, ← List.append_cons]
        rfl
      have hsucc : len - done.length = len - (done ++ [v]).length + 1 := by omega
      rw [hstep, Option.bind_eq_bind, Option.bind_some, hnext, hsucc, List.take_succ_cons, List.drop_succ_cons,
        ← List.append_cons done v]

theorem decodedLen_eq {str : List UInt8} (rest : List UInt8) (hlen : 4 ≤ str.length) :
    decodedLen (str ++ rest) str.length = some (room base64 str) := by
  have hlast : (str ++ rest)[str.length - 1]? = str[str.length - 1]? := List.getElem?_append_left (by omega)
  have hsecond : (str ++ rest)[str.length - 2]? = str[str.length - 2]? := List.getElem?_append_left (by omega)
  have hpad : base64.pad = 61 := rfl
  rw [decodedLen, hlast, hsecond, room, hpad, List.getElem?_eq_getElem (show str.length - 1 < str.length by omega),
    List.getElem?_eq_getElem (show str.length - 2 < str.length by omega)]
  simp only [Option.bind_eq_bind, Option.bind_some, Option.some_inj]
  split <;> split <;> rfl

theorem room_le (str : List UInt8) : room base64 str ≤ str.length / 4 * 3 := by
  rw [room]
  omega

theorem room_pos {str : List UInt8} (hlen : 4 ≤ str.length) : 0 < room base64 str := by
  rw [room]
  split <;> split <;> omega

/-- **What the decoder leaves**: the octets of the text, as many as its length and its padding tell. -/
theorem decode_eq {str out : List UInt8} (rest : List UInt8) (hne : str ≠ []) (hgroups : 4 ∣ str.length)
    (hout : room base64 str ≤ out.length) :
    base64Decode (str ++ rest) str.length out out.length = some (asInt (room base64 str),
      (decoding base64 str).take (room base64 str) ++ out.drop (room base64 str)) := by
  have hpos : 0 < str.length := List.length_pos_iff.mpr hne
  have hlen : 4 ≤ str.length := Nat.le_of_dvd hpos hgroups
  have hroom := room_pos hlen
  have hold : room base64 str ≤ ([] : List UInt8).length + out.length := by rwa [List.length_nil, Nat.zero_add]
  have hvs : room base64 str ≤ ([] : List UInt8).length + (decoding base64 str).length := by
    rw [length_decoding, List.length_nil, Nat.zero_add]
    exact room_le str
  have hloop := @decodeLoop_eq str [] rest (room base64 str) str.length (0, out) hgroups (Nat.le_refl _)
  have hput := foldlM_putOctet (Nat.zero_le _) hold hvs
  rw [List.nil_append, List.length_nil] at hloop
  rw [List.nil_append, List.nil_append, List.length_nil, Nat.sub_zero] at hput
  have hchecks : str.length ≠ 0 ∧ out.length ≠ 0 ∧ str.length % 4 = 0 := ⟨by omega, by omega, Nat.mod_eq_zero_of_dvd hgroups⟩
  rw [base64Decode, if_pos hchecks, decodedLen_eq rest hlen, Option.bind_eq_bind, Option.bind_some, if_pos hout, hloop,
    hput]
  rfl

/-! ### There and back -/

theorem length_encoding_eq (data : List UInt8) : (encoding base64 data).length = textLen data.length :=
  length_encoding base64 data

theorem encoding_ne_nil {data : List UInt8} (hne : data ≠ []) : encoding base64 data ≠ [] := by
  have hpos : 0 < data.length := List.length_pos_iff.mpr hne
  intro h
  have hlen := length_encoding_eq data
  rw [h, List.length_nil, textLen] at hlen
  omega

theorem mem_encodingTable {n : Nat} (h : n < 64) : base64.char n ∈ g_encodingTable := by
  have hget : g_encodingTable[n]? = some (base64.char n) := by
    change g_encodingTable[n]? = some (g_encodingTable.getD n 0)
    rw [List.getD_eq_getElem?_getD, List.getElem?_eq_getElem (show n < g_encodingTable.length from h)]
    rfl
  exact List.mem_of_getElem? hget

/-- **There and back**: a byte string of fewer than 2 ^ 30 octets. -/
theorem round_trip {data : List UInt8} (hne : data ≠ []) (hlen : data.length < 2 ^ 30) : ComesBack data := by
  intro out hout _
  have htext := length_encoding_eq data
  refine ⟨(filled base64 data).take ((filled base64 data).length - missing data.length), missing data.length, _, ?_, ?_,
    ?_, rfl, ?_, ?_⟩
  · rw [missing]
    omega
  · intro c hc
    obtain ⟨n, hn, rfl⟩ := exists_of_mem_filled base64 (List.mem_of_mem_take hc)
    exact mem_encodingTable hn
  · exact (congrArg List.length (encoding_eq base64 data)).symm.trans htext
  · have hint : asInt (textLen data.length) = textLen data.length := by
      refine asInt_natCast ?_
      rw [textLen]
      omega
    rw [encode_eq hne (by omega) hout, hint, encoding_eq base64 data]
    rfl
  · intro back hback _
    have hroom : room base64 (encoding base64 data) = data.length := room_encoding base64 hne
    have hgroups : 4 ∣ (encoding base64 data).length := ⟨_, length_encoding base64 data⟩
    have hback' : room base64 (encoding base64 data) ≤ back.length := by rwa [hroom]
    have hdecode := decode_eq (out.drop (textLen data.length)) (encoding_ne_nil hne) hgroups hback'
    have hint : asInt (data.length : Int) = data.length := asInt_natCast (by omega)
    rw [hroom, take_decoding, hint, htext, encoding_eq base64 data] at hdecode
    exact hdecode

theorem round_trip_three : ComesBack [77, 97, 110] := round_trip (List.cons_ne_nil _ _) (by decide)

end Wow.Iot.Base64
