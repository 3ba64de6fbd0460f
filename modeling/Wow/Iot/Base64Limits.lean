import Mathlib.Data.Finset.Card
import Mathlib.Data.Finset.Range
import Wow.Iot.Base64

/-!
# Wow.Iot.Base64Limits — what the decoder accepts, and what the encoder writes past

* `accepts_iff`: the decoder looks at the length of a text only, so that it takes every other text of groups for an
  encoding.
* `within_iff`: for long inputs the length of the text leaves `int`, and then the 32 bits of the capacity check.
-/

namespace Wow.Iot.Base64

open Block Sextets

/-! ### What the decoder accepts -/

/-- The text of some octets; the encoder takes none without octets. -/
def IsEncoding (str : List UInt8) : Prop := ∃ data, data ≠ [] ∧ str = encoding base64 data

/-- **The requirement**: with room for the octets, the decoder succeeds on encodings, and returns -1 otherwise. -/
def Accepts (str : List UInt8) : Prop :=
  ∀ out : List UInt8, room base64 str ≤ out.length → out.length < 2 ^ 32 →
    ∃ ret out', base64Decode str str.length out out.length = some (ret, out') ∧
      (0 ≤ ret ↔ IsEncoding str) ∧ (¬ IsEncoding str → ret = -1)

/-- **The condition**: an encoding of a byte string whose length is an `int`, or a text whose length is refused. -/
def Told (str : List UInt8) : Prop :=
  (∃ data, data ≠ [] ∧ data.length < 2 ^ 31 ∧ str = encoding base64 data) ∨ str = [] ∨ ¬ 4 ∣ str.length

/-- An encoding is that of what it is decoded to. -/
theorem isEncoding_iff {str : List UInt8} :
    IsEncoding str ↔ str ≠ [] ∧ str = encoding base64 ((decoding base64 str).take (room base64 str)) := by
  constructor
  · rintro ⟨data, hne, rfl⟩
    refine ⟨encoding_ne_nil hne, ?_⟩
    rw [room_encoding base64 hne, take_decoding]
  · rintro ⟨hne, h⟩
    refine ⟨_, ?_, h⟩
    intro hnil
    rw [hnil] at h
    exact hne h

theorem ne_nil_of_isEncoding {str : List UInt8} (h : IsEncoding str) : str ≠ [] ∧ 4 ∣ str.length := by
  obtain ⟨data, hne, rfl⟩ := h
  exact ⟨encoding_ne_nil hne, _, length_encoding base64 data⟩

/-- A length that is no multiple of 4, and an empty text, are refused. -/
theorem decode_refused {str out : List UInt8} (h : str = [] ∨ ¬ 4 ∣ str.length) :
    base64Decode str str.length out out.length = some (-1, out) := by
  refine if_neg ?_
  rintro ⟨hpos, -, hgroups⟩
  rcases h with rfl | hndvd
  · exact hpos rfl
  · exact hndvd (Nat.dvd_of_mod_eq_zero hgroups)

/-- **Every other text** is decoded. -/
theorem decode_groups {str out : List UInt8} (hne : str ≠ []) (hgroups : 4 ∣ str.length)
    (hout : room base64 str ≤ out.length) : ∃ out', base64Decode str str.length out out.length =
      some (asInt (room base64 str), out') := by
  have hdecode := decode_eq [] hne hgroups hout
  rw [List.append_nil] at hdecode
  exact ⟨_, hdecode⟩

theorem accepts_of_told {str : List UInt8} (h : Told str) : Accepts str := by
  intro out hout _
  rcases h with ⟨data, hne, hlen, rfl⟩ | hrefused
  · have hencoding : IsEncoding (encoding base64 data) := ⟨data, hne, rfl⟩
    obtain ⟨hstr, hgroups⟩ := ne_nil_of_isEncoding hencoding
    obtain ⟨out', hdecode⟩ := decode_groups hstr hgroups hout
    have hint : asInt (room base64 (encoding base64 data)) = data.length := by
      rw [room_encoding base64 hne, asInt_natCast hlen]
    refine ⟨_, out', hdecode, ⟨fun _ => hencoding, fun _ => ?_⟩, fun hnot => absurd hencoding hnot⟩
    rw [hint]
    exact Int.natCast_nonneg _
  · have hnot : ¬ IsEncoding str := by
      intro hencoding
      obtain ⟨hne, hgroups⟩ := ne_nil_of_isEncoding hencoding
      rcases hrefused with hnil | hndvd
      · exact hne hnil
      · exact hndvd hgroups
    refine ⟨-1, out, decode_refused hrefused, ⟨fun h => ?_, fun h => absurd h hnot⟩, fun _ => rfl⟩
    exact absurd h (by decide)

/-- The number of octets is not the one that is returned as -1. -/
theorem asInt_room_ne {str : List UInt8} (hlen : str.length < 2 ^ 32) : asInt (room base64 str) ≠ -1 := by
  have hle := room_le str
  intro h
  rcases Nat.lt_or_ge (room base64 str) (2 ^ 31) with hlt | hge
  · rw [asInt_natCast hlt] at h
    omega
  · rw [asInt_of_ge (by omega) (by omega)] at h
    omega

/-- **Which texts are told apart.** -/
theorem accepts_iff {str : List UInt8} (hlen : str.length < 2 ^ 32) : Accepts str ↔ Told str := by
  refine ⟨fun h => ?_, accepts_of_told⟩
  by_contra hnot
  rw [Told, not_or, not_or, not_not] at hnot
  obtain ⟨hlong, hne, hgroups⟩ := hnot
  have hle := room_le str
  have hroom : room base64 str ≤ (List.replicate (room base64 str) (0 : UInt8)).length := by rw [List.length_replicate]
  obtain ⟨ret, out', hret, hiff, hfail⟩ := h _ hroom (by rw [List.length_replicate]; omega)
  obtain ⟨out'', hdecode⟩ := decode_groups hne hgroups hroom
  have hcode : ret = asInt (room base64 str) := (Prod.mk.inj (Option.some_inj.mp (hret.symm.trans hdecode))).1
  rw [hcode] at hiff hfail
  by_cases hencoding : IsEncoding str
  · obtain ⟨data, hdata, rfl⟩ := hencoding
    have hge : 2 ^ 31 ≤ data.length := by
      by_contra hlt
      exact hlong ⟨data, hdata, Nat.lt_of_not_le hlt, rfl⟩
    have hnonneg := hiff.mpr ⟨data, hdata, rfl⟩
    rw [room_encoding base64 hdata] at hnonneg hle
    rw [asInt_of_ge (by omega) (by omega)] at hnonneg
    omega
  · exact asInt_room_ne hlen (hfail hencoding)

theorem accepts_iff_three : Accepts [81, 81, 61] ↔ Told [81, 81, 61] := accepts_iff (by decide)

/-- Four exclamation marks are decoded to three octets. -/
theorem foreign_not_accepts : ¬ Accepts [33, 33, 33, 33] := by
  intro h
  have hroom : room base64 [33, 33, 33, 33] ≤ ([0, 0, 0] : List UInt8).length := by decide +kernel
  obtain ⟨ret, out', hret, hiff, -⟩ := h [0, 0, 0] hroom (by decide)
  have hdecode : base64Decode [33, 33, 33, 33] 4 [0, 0, 0] 3 = some (3, [0, 0, 0]) := by decide +kernel
  obtain ⟨rfl, -⟩ := Prod.mk.inj (Option.some_inj.mp (hret.symm.trans hdecode))
  exact absurd (isEncoding_iff.mp (hiff.mp (by decide))).2 (by decide +kernel)

/-! ### What the encoder writes -/

/-- The places of some stores. -/
def places (stores : List (Nat × UInt8)) : Finset Nat := (stores.map Prod.fst).toFinset

/-- **The requirement**: the encoder writes no more characters than there is room for, and returns their number. -/
def Within (data : List UInt8) (u32Olen : Nat) : Prop :=
  ∃ ret stores, encodeStores data data.length u32Olen = some (ret, stores) ∧ (places stores).card ≤ u32Olen ∧
    ret = (places stores).card

theorem mem_places_append {s t : List (Nat × UInt8)} {p : Nat} : p ∈ places (s ++ t) ↔ p ∈ places s ∨ p ∈ places t := by
  rw [places, places, places, List.map_append, List.toFinset_append, Finset.mem_union]

/-- The places from one on, in 32 bits. -/
theorem mem_places_storesFrom {cs : List UInt8} {j p : Nat} (hj : j < 2 ^ 32) :
    p ∈ places (storesFrom j cs) ↔ ∃ k < cs.length, p = asUint32 ((j : Int) + k) := by
  rw [places, List.mem_toFinset]
  induction cs generalizing j with
  | nil => simp [storesFrom]
  | cons c cs ih =>
    have hnext : asUint32 ((j : Int) + 1) < 2 ^ 32 := by
      rw [asUint32]
      omega
    have hfirst : asUint32 ((j : Int) + (0 : Nat)) = j := by
      rw [Int.natCast_zero, Int.add_zero, asUint32_natCast hj]
    have hstep : ∀ k : Nat, asUint32 ((asUint32 ((j : Int) + 1) : Nat) + (k : Int)) = asUint32 ((j : Int) + (k + 1 : Nat)) := by
      intro k
      rw [asUint32_asUint32_add]
      congr 1
      omega
    rw [storesFrom, List.map_cons, List.mem_cons, ih hnext, List.length_cons]
    constructor
    · rintro (rfl | ⟨k, hk, rfl⟩)
      · exact ⟨0, Nat.zero_lt_succ _, hfirst.symm⟩
      · exact ⟨k + 1, Nat.succ_lt_succ hk, hstep k⟩
    · rintro ⟨k, hk, rfl⟩
      cases k with
      | zero => exact Or.inl hfirst
      | succ k => exact Or.inr ⟨k, Nat.lt_of_succ_lt_succ hk, (hstep k).symm⟩

theorem lt_of_mem_places_padStores {len n p : Nat} (hlen : len < 2 ^ 32) (hn : n ≤ len)
    (h : p ∈ places (padStores len n)) : p < len := by
  induction n with
  | zero => exact absurd h (Finset.notMem_empty p)
  | succ n ih =>
    rw [padStores_succ hn hlen, mem_places_append] at h
    rcases h with h | h
    · exact ih (by omega) h
    · have hp : p = len - 1 - n := List.mem_singleton.mp (List.mem_toFinset.mp h)
      omega

/-- **The characters of the encoder**, where their number fits 32 bits. -/
theorem card_places {data : List UInt8} (hlen : data.length < 3221225470) :
    (places (storesFrom 0 (filled base64 data) ++ padStores (encodedLen data.length) (missing data.length))).card =
      textLen data.length := by
  have htext : (filled base64 data).length = textLen data.length := length_filled base64 data
  have hlt : textLen data.length < 2 ^ 32 := by
    rw [textLen]
    omega
  have hmissing : missing data.length ≤ textLen data.length := by
    rw [missing, textLen]
    omega
  rw [encodedLen_eq hlen]
  refine (congrArg Finset.card (Finset.ext fun p => ?_)).trans (Finset.card_range (textLen data.length))
  rw [mem_places_append, mem_places_storesFrom (by decide), Finset.mem_range, htext]
  constructor
  · rintro (⟨k, hk, rfl⟩ | hpad)
    · rw [Int.natCast_zero, Int.zero_add, asUint32_natCast (by omega)]
      exact hk
    · exact lt_of_mem_places_padStores hlt hmissing hpad
  · intro hp
    refine Or.inl ⟨p, hp, ?_⟩
    rw [Int.natCast_zero, Int.zero_add, asUint32_natCast (by omega)]

/-- **From there on every place of 32 bits is written.** -/
theorem card_places_over {data : List UInt8} (hlen : 3221225470 ≤ data.length) (pads : List (Nat × UInt8)) :
    2 ^ 32 ≤ (places (storesFrom 0 (filled base64 data) ++ pads)).card := by
  have htext : 2 ^ 32 ≤ (filled base64 data).length := by
    rw [length_filled]
    omega
  have hsub : Finset.range (2 ^ 32) ⊆ places (storesFrom 0 (filled base64 data) ++ pads) := by
    intro p hp
    have hlt := Finset.mem_range.mp hp
    rw [mem_places_append, mem_places_storesFrom (by decide)]
    refine Or.inl ⟨p, by omega, ?_⟩
    rw [Int.natCast_zero, Int.zero_add, asUint32_natCast hlt]
  have hcard := Finset.card_le_card hsub
  rwa [Finset.card_range] at hcard

/-- **Which inputs are written within the room**: those whose text has a length that is an `int`. -/
theorem within_iff {data : List UInt8} {u32Olen : Nat} (hlen : data.length < 2 ^ 32) (holen : u32Olen < 2 ^ 32)
    (hpasses : Passes data.length u32Olen) : Within data u32Olen ↔ data.length ≤ 1610612733 := by
  rw [Within, encodeStores_eq hlen hpasses]
  constructor
  · rintro ⟨ret, stores, hstores, hle, hret⟩
    obtain ⟨rfl, rfl⟩ := Prod.mk.inj (Option.some_inj.mp hstores)
    by_contra hlong
    rcases Nat.lt_or_ge data.length 3221225470 with hlt | hge
    · have hsmall := asInt_lt (encodedLen data.length)
      rw [card_places hlt] at hret
      rw [hret, textLen] at hsmall
      omega
    · have hcard := card_places_over hge (padStores (encodedLen data.length) (missing data.length))
      omega
  · intro hshort
    have hlt : data.length < 3221225470 := by omega
    have hroom := hpasses.2.2
    refine ⟨_, _, rfl, ?_, ?_⟩
    · rwa [card_places hlt, ← encodedLen_eq hlt]
    · rw [card_places hlt, encodedLen_eq hlt, asInt_natCast]
      rw [textLen]
      omega

theorem within_iff_three : Within [77, 97, 110] 4 ↔ 3 ≤ 1610612733 :=
  within_iff (by decide) (by decide) (by decide)

/-- 3221225470 octets pass the check with room for one character. -/
theorem long_not_within : ¬ (Passes (List.replicate 3221225470 (0 : UInt8)).length 1 →
    Within (List.replicate 3221225470 0) 1) := by
  have hpasses : Passes (List.replicate 3221225470 (0 : UInt8)).length 1 := by
    rw [List.length_replicate]
    decide
  intro h
  have hle := (within_iff (by rw [List.length_replicate]; decide) (by decide) hpasses).mp (h hpasses)
  rw [List.length_replicate] at hle
  exact absurd hle (by decide)

end Wow.Iot.Base64
