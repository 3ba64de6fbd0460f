import Wow.Iec101.Slave
import Wow.Iec101.Master

/-!
# Wow.Iec101.CheckSumLoop — the check sum loop over a received frame

`deal_68` sums the octets of a frame with a counter of one octet, up to two octets in front of its end.  The length
octet of a frame goes up to 255, and the bound of the loop four further.

* `csLoop_ends`: the rounds of the loop, where it ends.
* `summed_iff`: the frames over which it ends, for any handlers; `deal68_ends_iff`: for both stations.
-/

namespace Wow.Iec101

open Utils

/-- A frame of variable length that `frame_parse` passes on: it is whole, and its end is in place. -/
def Passes (a : ByteArrayT) : Prop :=
  stableLen ≤ a.size ∧ (a.data 1).toNat + stableLen ≤ a.size ∧ a.data ((a.data 1).toNat + stableLen - 1) = frameEnd

instance (a : ByteArrayT) : Decidable (Passes a) := inferInstanceAs (Decidable (_ ∧ _ ∧ _))

/-- The loop over a frame of `len` octets is at its end after `rounds` rounds, and not before, with the sum `cs`. -/
def SumEnds (m : Mem) (len rounds : Nat) (cs : UInt8) : Prop :=
  ∀ fuel, (csLoop (len - 2) fuel 4 0).run m = if rounds < fuel then some cs else none

/-- **The requirement** on the frame that lies behind `index` octets: the loop takes as many rounds as the length
octet says, over just these octets, and the station goes on. -/
def Summed {σ : Type} (h : Handlers σ) (index : Nat) (t : Station σ) : Prop :=
  let a := t.array.remove 0 index
  let n := (a.data 1).toNat
  SumEnds a.data (n + stableLen) n (checkSum (a.data.slice 4 n)) ∧ (exec68 h index t).1.looping = false

/-- The loop is not at its end before it has been over all octets. -/
theorem csLoop_none {lim : Nat} (m : Mem) : ∀ (fuel : Nat) (i cs : UInt8), i.toNat + fuel ≤ lim → lim ≤ 255 →
    (csLoop lim fuel i cs).run m = none
  | 0, _, _, _, _ => rfl
  | fuel + 1, i, cs, hle, hlim => by
    have hi : (i + 1).toNat = i.toNat + 1 := by
      rw [UInt8.toNat_add]
      exact Nat.mod_eq_of_lt (show i.toNat + 1 < 256 by omega)
    rw [csLoop, if_pos (by omega), Rd.run_bind, Rd.run_octet, Rd.mem_octet]
    exact csLoop_none m fuel (i + 1) _ (by rw [hi]; omega) hlim

/-- **A bound that an octet reaches**: one round for each octet. -/
theorem csLoop_ends (m : Mem) {n : Nat} (hn : n ≤ 251) : SumEnds m (n + stableLen) n (checkSum (m.slice 4 n)) := by
  intro fuel
  have h4 : (4 : UInt8).toNat = 4 := rfl
  have hlim : n + stableLen - 2 = n + 4 := rfl
  rw [hlim]
  by_cases hf : n < fuel
  · rw [if_pos hf, run_csLoop (by omega) m n fuel 4 0 (by rw [h4]; omega) hf, h4]
    rfl
  · rw [if_neg hf]
    exact csLoop_none m fuel 4 0 (by rw [h4]; omega) (by omega)

/-- **A bound that no octet reaches**: the loop does not end. -/
theorem not_sumEnds (m : Mem) {n : Nat} (hn : 251 < n) (rounds : Nat) (cs : UInt8) :
    ¬ SumEnds m (n + stableLen) rounds cs := by
  intro h
  have hlim : 255 < n + stableLen - 2 := show 255 < n + 4 by omega
  have hsome := h (rounds + 1)
  rw [if_pos (Nat.lt_succ_self rounds), run_csLoop_eq_none hlim] at hsome
  cases hsome

/-- A frame that is passed on holds up the station only in the loop. -/
theorem looping_exec68 {σ : Type} (h : Handlers σ) {index : Nat} {t : Station σ} (hl : t.looping = false)
    (hp : Passes (t.array.remove 0 index)) (hn : ((t.array.remove 0 index).data 1).toNat ≤ 251) :
    (exec68 h index t).1.looping = false := by
  obtain ⟨hsize, hwhole, hend⟩ := hp
  unfold exec68 execFrame
  have hlen : ¬ 257 < ((t.array.remove 0 index).data 1).toNat + stableLen := by
    rw [stableLen]
    omega
  simp only [Nat.not_lt.mpr hsize, Nat.not_lt.mpr hwhole, hend, if_false, if_true, dealWith, run_deal68, hlen]
  split
  · rename_i heq
    split at heq <;> cases heq
  · exact hl

/-- **The loop ends** for length octets up to 251 and for no other. -/
theorem summed_iff {σ : Type} (h : Handlers σ) {index : Nat} {t : Station σ} (hl : t.looping = false)
    (hp : Passes (t.array.remove 0 index)) :
    Summed h index t ↔ ((t.array.remove 0 index).data 1).toNat ≤ 251 := by
  refine ⟨fun hs => ?_, fun hn => ⟨csLoop_ends _ hn, looping_exec68 h hl hp hn⟩⟩
  by_contra hn
  exact not_sumEnds _ (Nat.lt_of_not_le hn) _ _ hs.1

/-- **The check sum loops of both stations** end for length octets up to 251 and for no other. -/
theorem deal68_ends_iff {P : Type} (cs : Slave.Conf P) (cm : Master.Conf) (sendBuf : UInt8) (index : Nat) :
    (∀ t : Station Core, t.looping = false → Passes (t.array.remove 0 index) →
      (Summed (Slave.handlers cs) index t ↔ ((t.array.remove 0 index).data 1).toNat ≤ 251)) ∧
    ∀ t : Station Master.Core, t.looping = false → Passes (t.array.remove 0 index) →
      (Summed (Master.handlers cm sendBuf) index t ↔ ((t.array.remove 0 index).data 1).toNat ≤ 251) :=
  ⟨fun _ hl hp => summed_iff _ hl hp, fun _ hl hp => summed_iff _ hl hp⟩

/-- A frame of this length octet, of zeros but for its head and its end. -/
def bareFrame (n : UInt8) : ByteArrayT where
  size := n.toNat + stableLen
  capicity := 2048
  data := fun i => if i = 0 ∨ i = 3 then variableBegin else if i = 1 ∨ i = 2 then n
    else if i = n.toNat + stableLen - 1 then frameEnd else 0

/-- The longest frame that both stations get to the end of. -/
theorem deal68_ends_demo :
    Summed (Slave.handlers Slave.sampleConf) 0 ⟨.fresh, bareFrame 251, false⟩ ∧
    Summed (Master.handlers Master.sampleConf 0) 0 ⟨.fresh, bareFrame 251, false⟩ := by
  obtain ⟨hslave, hmaster⟩ := deal68_ends_iff Slave.sampleConf Master.sampleConf 0 0
  exact ⟨(hslave ⟨.fresh, bareFrame 251, false⟩ rfl (by decide)).mpr (by decide),
    (hmaster ⟨.fresh, bareFrame 251, false⟩ rfl (by decide)).mpr (by decide)⟩

/-- A frame one octet longer is passed on, and holds the slave up for ever. -/
theorem not_deal68_ends : Passes ((bareFrame 252).remove 0 0) ∧
    ¬ Summed (Slave.handlers Slave.sampleConf) 0 ⟨.fresh, bareFrame 252, false⟩ :=
  ⟨by decide, fun h => not_sumEnds _ (by decide) _ _ h.1⟩

end Wow.Iec101
