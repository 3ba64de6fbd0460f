import Wow.Iec104.Slave
import Wow.Iec104.Objects

/-!
# Wow.Iec104.Interrogation — the frames of an answer

The answer to an interrogation is a list of I-frames that depends on the node table and its values alone; the
run only numbers them (`andThen_sendAll`).  A node list goes out in `slices` of at most fifty nodes, each
behind the address of its first node.

* `flatten_slices`: the slices are the list, in order.
* `groupCalls_eq`: one frame for each slice.
* `callAllAnswer_eq`, `callPulseAnswer_eq`: the answers as lists of frames.
-/

namespace Wow.Iec104

open Iec10x

/-! ### A list of I-frames -/

/-- The sends of a list of I-frames. -/
def sendAll (frames : List (AsduHead × List UInt8)) : List Cmd := frames.map fun f => sendI f.1 f.2

/-- **A list of I-frames** goes out under consecutive numbers. -/
theorem andThen_sendAll : ∀ (frames : List (AsduHead × List UInt8)) (s : Core), andThen s (sendAll frames) =
    ({ s with sn := { s.sn with buildSend := s.sn.buildSend + frames.length } },
      frames.mapIdx fun i f => .send (mkI { s.sn with buildSend := s.sn.buildSend + i } f.1 f.2) s.link)
  | [], s => rfl
  | f :: frames, s => by
    have hsn : ∀ i, ({ (sent s).sn with buildSend := (sent s).sn.buildSend + i } : Sn) =
        { s.sn with buildSend := s.sn.buildSend + (i + 1) } := fun i => by
      simp only [sent, Sn.next, Nat.add_assoc, Nat.add_comm 1 i]
    rw [sendAll, List.map_cons, andThen_cons]
    show ((andThen (sent s) (sendAll frames)).1, _ ++ (andThen (sent s) (sendAll frames)).2) = _
    rw [andThen_sendAll frames (sent s), List.length_cons, List.mapIdx_cons]
    simp only [hsn]
    rfl

/-- What such a run sends. -/
theorem mem_sendAll {frames : List (AsduHead × List UInt8)} {s : Core} {a : Act}
    (ha : a ∈ (andThen s (sendAll frames)).2) : ∃ f ∈ frames, ∃ sn, a = .send (mkI sn f.1 f.2) s.link := by
  rw [andThen_sendAll] at ha
  obtain ⟨i, hi, rfl⟩ := List.mem_mapIdx.mp ha
  exact ⟨frames[i], List.getElem_mem hi, _, rfl⟩

/-- Every frame is sent. -/
theorem exists_send_of_mem {frames : List (AsduHead × List UInt8)} {f : AsduHead × List UInt8}
    (hf : f ∈ frames) (s : Core) : ∃ sn, .send (mkI sn f.1 f.2) s.link ∈ (andThen s (sendAll frames)).2 := by
  obtain ⟨i, hi, rfl⟩ := List.mem_iff_getElem.mp hf
  rw [andThen_sendAll]
  exact ⟨_, List.mem_mapIdx.mpr ⟨i, hi, rfl⟩⟩

namespace Slave

/-! ### Slices -/

/-- The nodes of each round of the loop over `list`. -/
def slices (list : List DevNodeInfo) : List (List DevNodeInfo) :=
  (groups list.length list.length 0).map fun g => (list.drop g.1).take g.2

/-- A round takes at least one node, at most `nodeNum`, and none behind the end. -/
theorem mem_groups {size : Nat} : ∀ {fuel i : Nat} {g : Nat × Nat}, g ∈ groups size fuel i →
    0 < g.2 ∧ g.2 ≤ nodeNum ∧ g.1 + g.2 ≤ size
  | 0, i, g, h => by cases h
  | fuel + 1, i, g, h => by
    rw [groups] at h
    split at h
    · rename_i hi
      have hn : nodeNum = 50 := rfl
      rcases List.mem_cons.mp h with rfl | h
      · refine ⟨?_, ?_, ?_⟩ <;> dsimp only <;> split <;> omega
      · exact mem_groups h
    · cases h

theorem flatten_groups (list : List DevNodeInfo) : ∀ (fuel i : Nat), list.length - i ≤ fuel →
    ((groups list.length fuel i).map fun g => (list.drop g.1).take g.2).flatten = list.drop i
  | 0, i, h => by
    rw [groups, List.map_nil, List.flatten_nil, List.drop_eq_nil_of_le (by omega)]
  | fuel + 1, i, h => by
    rw [groups]
    split
    · rename_i hi
      have hn : nodeNum = 50 := rfl
      have hstep : list.length - (i + if list.length - i > nodeNum then nodeNum else list.length - i) ≤ fuel := by
        split <;> omega
      rw [List.map_cons, List.flatten_cons, flatten_groups list fuel _ hstep, ← List.drop_drop,
        List.take_append_drop]
    · rename_i hi
      rw [List.map_nil, List.flatten_nil, List.drop_eq_nil_of_le (by omega)]

/-- **The slices are the list**, in order. -/
theorem flatten_slices (list : List DevNodeInfo) : (slices list).flatten = list :=
  (flatten_groups list list.length 0 (by omega)).trans List.drop_zero

theorem length_slice {list ch : List DevNodeInfo} (h : ch ∈ slices list) : 0 < ch.length ∧ ch.length ≤ nodeNum := by
  obtain ⟨g, hg, rfl⟩ := List.mem_map.mp h
  obtain ⟨hpos, hle, hin⟩ := mem_groups hg
  rw [List.length_take, List.length_drop]
  omega

theorem mem_of_mem_slice {list ch : List DevNodeInfo} (h : ch ∈ slices list) {x : DevNodeInfo} (hx : x ∈ ch) :
    x ∈ list := by
  rw [← flatten_slices list]
  exact List.mem_flatten.mpr ⟨ch, h, hx⟩

/-- Only the slices of a long list are long. -/
theorem slices_le_iff {list : List DevNodeInfo} {k : Nat} (hk : k < nodeNum) :
    (∀ ch ∈ slices list, ch.length ≤ k) ↔ list.length ≤ k := by
  have hn : nodeNum = 50 := rfl
  constructor
  · intro h
    cases hl : list.length with
    | zero => omega
    | succ n =>
      have hmem : (list.drop 0).take (if list.length - 0 > nodeNum then nodeNum else list.length - 0) ∈
          slices list := by
        rw [slices, hl, groups, if_pos (by omega)]
        exact List.mem_cons_self
      have h0 := h _ hmem
      rw [List.drop_zero, List.length_take, Nat.sub_zero, hl] at h0
      split at h0 <;> omega
  · intro h ch hch
    obtain ⟨g, hg, rfl⟩ := List.mem_map.mp hch
    rw [List.length_take, List.length_drop]
    omega

/-! ### One frame a slice -/

variable {P : Type} (c : Conf P)

/-- The frame of a slice. -/
def groupFrame (type : DevNodeInfo → AsduType) (elem : Nat → DevNodeInfo → List UInt8) (reason : Nat) :
    List DevNodeInfo → Option (AsduHead × List UInt8)
  | [] => none
  | first :: rest => some (⟨(type first).code, true, (first :: rest).length, reason, c.asduAddr⟩,
      encSeq first.addr ((first :: rest).mapIdx elem))

/-- The frames of a list. -/
def groupFrames (type : DevNodeInfo → AsduType) (elem : Nat → DevNodeInfo → List UInt8) (reason : Nat)
    (list : List DevNodeInfo) : List (AsduHead × List UInt8) :=
  (slices list).filterMap (groupFrame c type elem reason)

theorem mapM_range (list : List DevNodeInfo) (i : Nat) : ∀ n, i + n ≤ list.length →
    (List.range n).mapM (fun j => list[i + j]?) = some ((list.drop i).take n)
  | 0, _ => rfl
  | n + 1, h => by
    rw [List.range_succ, List.mapM_append, mapM_range list i n (by omega)]
    have hi : list[i + n]? = some list[i + n] := List.getElem?_eq_getElem (by omega)
    have ht : (list.drop i).take (n + 1) = (list.drop i).take n ++ [list[i + n]] := by
      rw [List.take_add_one, List.getElem?_drop, hi]
      rfl
    simp [hi, ht]

theorem buildGroup_eq {type : DevNodeInfo → AsduType} {elem : Nat → DevNodeInfo → List UInt8} {reason : Nat}
    {list : List DevNodeInfo} {g : Nat × Nat} (hpos : 0 < g.2) (hle : g.2 ≤ nodeNum) (hin : g.1 + g.2 ≤ list.length) :
    ∃ f, groupFrame c type elem reason ((list.drop g.1).take g.2) = some f ∧
      buildGroup c type elem reason list g.1 g.2 = sendI f.1 f.2 := by
  have hn : nodeNum = 50 := rfl
  have hfirst : list[g.1]? = some list[g.1] := List.getElem?_eq_getElem (by omega)
  have hnodes := mapM_range list g.1 g.2 hin
  have hlen : ((list.drop g.1).take g.2).length = g.2 := by
    rw [List.length_take, List.length_drop]
    omega
  have hhead : ((list.drop g.1).take g.2).head? = some list[g.1] := by
    rw [List.head?_take, if_neg (by omega), List.head?_drop, hfirst]
  obtain ⟨rest, hch⟩ := List.head?_eq_some_iff.mp hhead
  refine ⟨(⟨(type list[g.1]).code, true, g.2, reason, c.asduAddr⟩,
    encSeq list[g.1].addr (((list.drop g.1).take g.2).mapIdx elem)), ?_, ?_⟩
  · rw [hch] at hlen ⊢
    rw [groupFrame, hlen]
  · rw [buildGroup, hfirst, Nat.mod_eq_of_lt (by omega)]
    simp only [hnodes]
    rfl

/-- **One frame for each slice**, with all its nodes. -/
theorem groupCalls_eq (type : DevNodeInfo → AsduType) (elem : Nat → DevNodeInfo → List UInt8) (reason : Nat)
    (list : List DevNodeInfo) :
    groupCalls (buildGroup c type elem reason) list = sendAll (groupFrames c type elem reason list) := by
  have hrounds : ∀ gs : List (Nat × Nat), (∀ g ∈ gs, 0 < g.2 ∧ g.2 ≤ nodeNum ∧ g.1 + g.2 ≤ list.length) →
      gs.map (fun g => buildGroup c type elem reason list g.1 g.2) =
        sendAll (gs.filterMap fun g => groupFrame c type elem reason ((list.drop g.1).take g.2)) := by
    intro gs
    induction gs with
    | nil => exact fun _ => rfl
    | cons g gs ih =>
      intro h
      obtain ⟨hpos, hle, hin⟩ := h g List.mem_cons_self
      obtain ⟨f, hf, hbuild⟩ := buildGroup_eq c hpos hle hin
      rw [List.map_cons, List.filterMap_cons, hf, hbuild, ih fun g' hg' => h g' (List.mem_cons_of_mem _ hg')]
      rfl
  rw [groupCalls, groupFrames, slices, List.filterMap_map]
  exact hrounds _ fun g hg => mem_groups hg

theorem mem_groupFrames {type : DevNodeInfo → AsduType} {elem : Nat → DevNodeInfo → List UInt8} {reason : Nat}
    {list : List DevNodeInfo} {f : AsduHead × List UInt8} (hf : f ∈ groupFrames c type elem reason list) :
    ∃ first rest, first :: rest ∈ slices list ∧
      f = (⟨(type first).code, true, (first :: rest).length, reason, c.asduAddr⟩,
        encSeq first.addr ((first :: rest).mapIdx elem)) := by
  obtain ⟨ch, hch, h⟩ := List.mem_filterMap.mp hf
  cases ch with
  | nil => cases h
  | cons first rest => exact ⟨first, rest, hch, (Option.some.inj h).symm⟩

/-- With elements of `sz` octets, the length of a frame is a matter of its slice. -/
theorem length_groupFrame {elem : Nat → DevNodeInfo → List UInt8} {sz : Nat} {ch : List DevNodeInfo}
    (hsz : ∀ i, ∀ x ∈ ch, (elem i x).length = sz) (base : UInt16) :
    (encSeq base (ch.mapIdx elem)).length = 3 + ch.length * sz := by
  have h : ∀ e ∈ ch.mapIdx elem, e.length = sz := by
    intro e he
    obtain ⟨i, hi, rfl⟩ := List.mem_mapIdx.mp he
    exact hsz i _ (List.getElem_mem hi)
  rw [length_encSeq h, List.length_mapIdx]

/-! ### Elements -/

theorem length_yxElem (i : Nat) (x : DevNodeInfo) : (yxElem c i x).length = 1 := by
  rw [yxElem]
  cases getVal c x <;> rfl

theorem length_ycElem_float (i : Nat) {x : DevNodeInfo} (hx : x.type = .float) : (ycElem c i x).length = 5 := by
  rw [ycElem, hx]
  cases getVal c x <;> simp

theorem length_ycElem_norm (i : Nat) {x : DevNodeInfo} (hx : x.type ≠ .float) : (ycElem c i x).length = 3 := by
  rw [ycElem]
  cases ht : x.type with
  | float => exact absurd ht hx
  | _ => cases getVal c x <;> simp

theorem length_ymElem (i : Nat) (x : DevNodeInfo) : (ymElem c i x).length = 5 := by
  rw [ymElem]
  cases getVal c x <;> simp

/-! ### The two answers -/

/-- The confirmation. -/
def callAckFrame (qoi : UInt8) : AsduHead × List UInt8 :=
  (⟨AsduType.cIcNa1.code, false, 1, Cot.actcon, c.asduAddr⟩, infoAddr 0 ++ [qoi])

/-- The termination; its information address is not zero. -/
def callFinshFrame (qoi : UInt8) : AsduHead × List UInt8 :=
  (⟨AsduType.cIcNa1.code, true, 0, Cot.actterm, c.asduAddr⟩, infoAddr callFinshAddr ++ [qoi])

def yxFrames (reason : Nat) : List (AsduHead × List UInt8) :=
  groupFrames c (fun _ => .mSpNa1) (yxElem c) reason c.nodeList.yx

def ycFrames (reason : Nat) (list : List DevNodeInfo) : List (AsduHead × List UInt8) :=
  groupFrames c (fun x => if x.type = .float then .mMeNc1 else .mMeNa1) (ycElem c) reason list

def ymFrames : List (AsduHead × List UInt8) :=
  groupFrames c (fun _ => .mItNa1) (ymElem c) Cot.reqcogen c.nodeList.ym

/-- The frames of the answer to a general interrogation. -/
def callAllFrames (qoi : UInt8) : List (AsduHead × List UInt8) :=
  [callAckFrame c qoi] ++ yxFrames c qoi.toNat ++ ycFrames c qoi.toNat c.nodeList.ycN ++
    ycFrames c qoi.toNat c.nodeList.ycF ++ [callFinshFrame c qoi]

/-- The frames of the answer to a counter interrogation. -/
def callPulseFrames (qcc : UInt8) : List (AsduHead × List UInt8) :=
  [callAckFrame c qcc] ++ ymFrames c ++ [callFinshFrame c qcc]

theorem callAllAnswer_eq (qoi : UInt8) : callAllAnswer c qoi = sendAll (callAllFrames c qoi) := by
  simp only [callAllAnswer, callAllFrames, sendAll, List.map_append]
  have hyx := groupCalls_eq c (fun _ => .mSpNa1) (yxElem c) qoi.toNat c.nodeList.yx
  have hyc := groupCalls_eq c (fun x => if x.type = .float then .mMeNc1 else .mMeNa1) (ycElem c) qoi.toNat
  rw [buildYx, buildYc, hyx, hyc, hyc]
  rfl

theorem callPulseAnswer_eq (qcc : UInt8) : callPulseAnswer c qcc = sendAll (callPulseFrames c qcc) := by
  simp only [callPulseAnswer, callPulseFrames, sendAll, List.map_append]
  have hym := groupCalls_eq c (fun _ => .mItNa1) (ymElem c) Cot.reqcogen c.nodeList.ym
  rw [buildYm, hym]
  rfl

section Run

variable (s : Core) (p : Nat) (m : Mem)

/-- The slave answers a general interrogation. -/
def Answers (qoi : Bool) : Prop :=
  c.getValCb.isNone = false ∧ Fld.infoAddr m (p + 12) = 0 ∧ Fld.reason m p = Cot.act ∧ qoi = true

instance (qoi : Bool) : Decidable (Answers c p m qoi) := inferInstanceAs (Decidable (_ ∧ _ ∧ _ ∧ _))

theorem run_asduCallAll : (asduCallAll c s p).run m =
    if Answers c p m (decide ((m (p + 15)).toNat = Cot.introgen)) then
      andThen s (sendAll (callAllFrames c (m (p + 15))))
    else (s, []) := by
  rw [← callAllAnswer_eq]
  by_cases hcb : c.getValCb.isNone = true
  · simp [asduCallAll, Answers, hcb]
  by_cases ha : Fld.infoAddr m (p + 12) = 0
  · by_cases hr : Fld.reason m p = Cot.act
    · by_cases hq : (m (p + 15)).toNat = Cot.introgen <;> simp [asduCallAll, Answers, hcb, ha, hr, hq]
    · simp [asduCallAll, Answers, hcb, ha, hr]
  · simp [asduCallAll, Answers, hcb, ha]

theorem run_asduCallPulse : (asduCallPulse c s p).run m =
    if Answers c p m (decide ((m (p + 15)).toNat % 64 = 5)) then
      andThen s (sendAll (callPulseFrames c (m (p + 15))))
    else (s, []) := by
  rw [← callPulseAnswer_eq]
  by_cases hcb : c.getValCb.isNone = true
  · simp [asduCallPulse, Answers, hcb]
  by_cases ha : Fld.infoAddr m (p + 12) = 0
  · by_cases hr : Fld.reason m p = Cot.act
    · by_cases hq : (m (p + 15)).toNat % 64 = 5 <;> simp [asduCallPulse, Answers, hcb, ha, hr, hq]
    · simp [asduCallPulse, Answers, hcb, ha, hr]
  · simp [asduCallPulse, Answers, hcb, ha]

/-- What a handler does beyond judging the frame: it neither touches the link nor takes anything in. -/
def Plain (s : Core) (r : Core × List Act) : Prop :=
  r.1.stat = s.stat ∧ r.1.link = s.link ∧
    ∀ a ∈ r.2, (∃ f up, a = .send f up) ∨ (∃ n v, a = .setVal n v) ∨ ∃ b, a = .setTime b

theorem plain_nil : Plain s (s, []) := ⟨rfl, rfl, fun a ha => by cases ha⟩

theorem plain_sendAll (frames : List (AsduHead × List UInt8)) : Plain s (andThen s (sendAll frames)) := by
  refine ⟨?_, ?_, fun a ha => ?_⟩
  · rw [andThen_sendAll]
  · rw [andThen_sendAll]
  · obtain ⟨f, -, sn, rfl⟩ := mem_sendAll ha
    exact Or.inl ⟨_, _, rfl⟩

/-- **Every handler is plain.** -/
theorem plain_asduParse : Plain s ((asduParse c s p).run m) := by
  cases ht : AsduType.ofCode (m (p + 6)) with
  | none =>
    simp only [asduParse, Rd.run_bind, run_rdType, mem_rdType, ht, Rd.run_pure]
    exact plain_nil s
  | some t =>
    have hcmd : ∀ fmt, cmdFmt t = some fmt → Plain s ((asduParse c s p).run m) := by
      intro fmt hf
      rw [run_asduParse_cmd c s p m ht hf]
      refine ⟨rfl, rfl, fun a ha => ?_⟩
      rcases List.mem_append.mp ha with ha | ha
      · rw [cmdActs] at ha
        split at ha
        · cases ha
        · exact Or.inr (Or.inl (setVal_of_mem_applyObjs c a ha))
      · obtain rfl := List.mem_singleton.mp ha
        exact Or.inl ⟨_, _, rfl⟩
    cases t with
    | cScNa1 | cDcNa1 | cSeNa1 | cSeNc1 => exact hcmd _ rfl
    | cIcNa1 =>
      simp only [asduParse, Rd.run_bind, run_rdType, mem_rdType, ht, run_asduCallAll]
      split
      · exact plain_sendAll s _
      · exact plain_nil s
    | cCiNa1 =>
      simp only [asduParse, Rd.run_bind, run_rdType, mem_rdType, ht, run_asduCallPulse]
      split
      · exact plain_sendAll s _
      · exact plain_nil s
    | cCsNa1 =>
      simp only [asduParse, Rd.run_bind, run_rdType, mem_rdType, ht, Rd.run_pure, run_asduClock]
      have hack : ∀ a ∈ (buildSAck s).2, ∃ f up, a = .send f up := by
        intro a ha
        obtain rfl := List.mem_singleton.mp ha
        exact ⟨_, _, rfl⟩
      split
      · refine ⟨rfl, rfl, fun a ha => ?_⟩
        rcases List.mem_cons.mp ha with rfl | ha
        · exact Or.inr (Or.inr ⟨_, rfl⟩)
        · exact Or.inl (hack a ha)
      · exact ⟨rfl, rfl, fun a ha => Or.inl (hack a ha)⟩
    | _ =>
      simp only [asduParse, Rd.run_bind, run_rdType, mem_rdType, ht, Rd.run_pure]
      exact plain_nil s

end Run

end Slave

end Wow.Iec104
