import Wow.Lib.Block
import Wow.Lib.CNum

/-!
# Wow.Utils.RingBuff — the ring buffer of `wow_ring_buff.c`

The capacity is a `size_t` when the buffer is made and an `int` in it, the indices are `size_t`, and the functions that
count return an `int`.  A copy that leaves the storage, or a remainder by zero, is `none`.

* `Fifo`: a run does what the bounded queue does (`Op.ref`), with right counts and indices.
* `Contents`: the two forms of a ring, with the queue that it holds; `write_contents`, `read_contents`: the steps.
* `fifo_iff`: the capacities for which the ring buffer is a queue.
-/

namespace Wow.RingBuff

open Block

def PARAM_INPUT_ARG_INVALID : Int := 104
def RING_BUFFER_NO_SPACE : Int := 10200

/-- `RingBuffer_T`. -/
structure RingBuffer where
  buffer : List UInt8
  length : Int
  start : Nat
  end_ : Nat

/-- `wow_ringbuf_create`. -/
def create (snSize : Nat) : RingBuffer := ⟨List.replicate snSize 0, asInt snSize, 0, 0⟩

/-- `wow_ringbuf_getFree`. -/
def getFree (r : RingBuffer) : Int :=
  if r.end_ ≥ r.start then asInt (asSize (r.length - asSize (r.end_ - r.start))) else asInt (asSize (r.start - r.end_))

/-- `wow_ringbuf_getUsed`. -/
def getUsed (r : RingBuffer) : Int :=
  if r.end_ ≥ r.start then asInt (asSize (r.end_ - r.start)) else asInt (asSize (r.length - asSize (r.start - r.end_)))

/-- `(index + n) % length`. -/
def advance (r : RingBuffer) (index : Nat) (n : Int) : Option Nat :=
  if asSize r.length = 0 then none else some (asSize (index + asSize n) % asSize r.length)

/-- `memcpy` of `n` octets at `data` behind the end, and the end behind them. -/
def putEnd (r : RingBuffer) (data : List UInt8) (at_ n : Int) : Option RingBuffer := do
  let buffer ← copy r.buffer r.end_ data (asSize at_) (asSize n)
  let index ← advance r r.end_ n
  some { r with buffer := buffer, end_ := index }

/-- `memcpy` of `n` octets from the start, and the start behind them. -/
def takeStart (r : RingBuffer) (n : Int) : Option (List UInt8 × RingBuffer) := do
  let data ← load r.buffer r.start (asSize n)
  let index ← advance r r.start n
  some (data, { r with start := index })

/-- `wow_ringbuf_write`. -/
def write (r : RingBuffer) (data : List UInt8) : Option (Int × RingBuffer) :=
  let snSize := data.length
  if ¬ 0 < snSize then some (-PARAM_INPUT_ARG_INVALID, r)
  else if ¬ snSize < asSize (getFree r) then some (-RING_BUFFER_NO_SPACE, r)
  else if asSize (r.length - r.end_) < snSize then do
    let halfTail := asInt (asSize (r.length - r.end_))
    let r ← putEnd r data 0 halfTail
    let halfHead := asInt (asSize (snSize - asSize halfTail))
    let r ← putEnd r data halfTail halfHead
    some (asInt snSize, r)
  else do
    let r ← putEnd r data 0 snSize
    some (asInt snSize, r)

/-- The indices go back to the start of the storage when the ring is empty. -/
def rewind (r : RingBuffer) : RingBuffer :=
  if r.start = r.end_ ∨ getUsed r = 0 then { r with start := 0, end_ := 0 } else r

/-- `wow_ringbuf_read`, with what is written to the caller's `data`. -/
def read (r : RingBuffer) (snSize : Nat) : Option ((Int × List UInt8) × RingBuffer) :=
  if ¬ 0 < snSize then some ((-PARAM_INPUT_ARG_INVALID, []), r)
  else
    let rlen := if snSize < asSize (getUsed r) then snSize else asSize (getUsed r)
    if asSize (r.length - r.start) < rlen then do
      let halfTail := asInt (asSize (r.length - r.start))
      let (tail, r) ← takeStart r halfTail
      let halfHead := asInt (asSize (rlen - asSize halfTail))
      let (head, r) ← takeStart r halfHead
      some ((asInt rlen, tail ++ head), rewind r)
    else do
      let (data, r) ← takeStart r rlen
      some ((asInt rlen, data), rewind r)

/-- `wow_ringbuf_clear`. -/
def clear (r : RingBuffer) : RingBuffer := { r with start := 0, end_ := 0 }

/-- The calls. -/
inductive Op where
  | write (data : List UInt8)
  | read (snSize : Nat)
  | clear

/-- The returned value and the octets that are handed over. -/
def step (r : RingBuffer) : Op → Option ((Int × List UInt8) × RingBuffer)
  | .write data => (write r data).map fun (n, r) => ((n, []), r)
  | .read snSize => read r snSize
  | .clear => some ((0, []), clear r)

/-! ### The requirement -/

/-- Sizes are at least 1. -/
def Op.Sized : Op → Prop
  | .write data => 0 < data.length
  | .read snSize => 0 < snSize
  | .clear => True

/-- What an operation does to a queue that has room for fewer than `cap` octets. -/
def Op.ref (cap : Nat) (q : List UInt8) : Op → (Int × List UInt8) × List UInt8
  | .write data =>
    if data.length < cap - q.length then ((data.length, []), q ++ data) else ((-RING_BUFFER_NO_SPACE, []), q)
  | .read snSize => (((min snSize q.length : Nat), q.take snSize), q.drop snSize)
  | .clear => ((0, []), [])

/-- The counts are those of the queue, and the indices are inside the storage. -/
structure Counts (cap : Nat) (r : RingBuffer) (q : List UInt8) : Prop where
  used : getUsed r = q.length
  total : getUsed r + getFree r = cap
  start : r.start < cap
  end_ : r.end_ < cap

/-- **The requirement**: in every state the counts are right, every operation returns what that on the queue returns, and
one that fails changes nothing. -/
def Fifo (cap : Nat) : RingBuffer → List UInt8 → List Op → Prop
  | r, q, [] => Counts cap r q
  | r, q, op :: ops => Counts cap r q ∧ ∃ r', step r op = some ((op.ref cap q).1, r') ∧
    ((op.ref cap q).1.1 < 0 → r' = r) ∧ Fifo cap r' (op.ref cap q).2 ops

/-! ### The forms of a ring -/

/-- The queue lies in one piece, or it goes over the end of the storage; in front of the start and behind the end is what
earlier writes left. -/
inductive Contents (cap : Nat) (r : RingBuffer) : List UInt8 → Prop
  | straight (a q c : List UInt8) : r.length = cap → r.buffer = a ++ q ++ c → r.start = a.length →
      r.end_ = a.length + q.length → a.length + q.length + c.length = cap → 0 < c.length → Contents cap r q
  | wrapped (q₂ f q₁ : List UInt8) : r.length = cap → r.buffer = q₂ ++ f ++ q₁ → r.start = q₂.length + f.length →
      r.end_ = q₂.length → q₂.length + f.length + q₁.length = cap → 0 < f.length → 0 < q₁.length →
      Contents cap r (q₁ ++ q₂)

variable {cap : Nat} {r : RingBuffer} {q : List UInt8}

theorem contents_create (hpos : 0 < cap) (hcap : cap < 2 ^ 31) : Contents cap (create cap) [] := by
  have hlen : (List.replicate cap (0 : UInt8)).length = cap := List.length_replicate
  have hl : (create cap).length = cap := by
    rw [create, asInt_natCast hcap]
  refine .straight [] [] (List.replicate cap 0) hl rfl rfl rfl ?_ ?_
  · rw [hlen]
    exact Nat.zero_add cap
  · rwa [hlen]

/-- An empty ring that starts at the start of its storage. -/
theorem Contents.clear (h : Contents cap r q) : Contents cap (clear r) [] := by
  cases h with
  | straight a q c hl hb _ _ hlen hc =>
    refine .straight [] [] (a ++ q ++ c) hl hb rfl rfl ?_ ?_ <;> simp only [List.length_append, List.length_nil] <;> omega
  | wrapped q₂ f q₁ hl hb _ _ hlen hf hq =>
    refine .straight [] [] (q₂ ++ f ++ q₁) hl hb rfl rfl ?_ ?_ <;>
      simp only [List.length_append, List.length_nil] <;> omega

/-- A queue in one part whose end may come to the start of the storage. -/
theorem Contents.of_straight {a q c : List UInt8} (hl : r.length = cap) (hb : r.buffer = a ++ q ++ c)
    (hs : r.start = a.length) (he : r.end_ = (a.length + q.length) % cap) (hlen : a.length + q.length + c.length = cap)
    (hq : 0 < q.length) (hroom : q.length < cap) : Contents cap r q := by
  by_cases hnil : c.length = 0
  · obtain rfl := List.length_eq_zero_iff.mp hnil
    have hfull : a.length + q.length = cap := hlen
    rw [hfull, Nat.mod_self] at he
    rw [List.append_nil] at hb
    have hwrapped : Contents cap r (q ++ []) := by
      refine .wrapped [] a q hl hb (hs.trans (Nat.zero_add _).symm) he ?_ (by omega) hq
      rw [List.length_nil, Nat.zero_add, hfull]
    rwa [List.append_nil] at hwrapped
  · rw [Nat.mod_eq_of_lt (by omega)] at he
    exact .straight a q c hl hb hs he hlen (by omega)

/-- A queue in two parts whose start may come to the start of the storage. -/
theorem Contents.of_wrapped {q₂ f q₁ : List UInt8} (hl : r.length = cap) (hb : r.buffer = q₂ ++ f ++ q₁)
    (hs : r.start = (q₂.length + f.length) % cap) (he : r.end_ = q₂.length)
    (hlen : q₂.length + f.length + q₁.length = cap) (hf : 0 < f.length) : Contents cap r (q₁ ++ q₂) := by
  by_cases hnil : q₁.length = 0
  · obtain rfl := List.length_eq_zero_iff.mp hnil
    have hfull : q₂.length + f.length = cap := hlen
    rw [hfull, Nat.mod_self] at hs
    rw [List.append_nil] at hb
    refine .straight [] q₂ f hl hb hs (he.trans (Nat.zero_add _).symm) ?_ hf
    rw [List.length_nil, Nat.zero_add, hfull]
  · rw [Nat.mod_eq_of_lt (by omega)] at hs
    exact .wrapped q₂ f q₁ hl hb hs he hlen hf (by omega)

/-! ### Counting -/

section Counting

variable (hl : r.length = cap) (hcap : cap < 2 ^ 31)

include hcap

theorem getUsed_straight (h : r.start ≤ r.end_) (he : r.end_ ≤ cap) : getUsed r = (r.end_ - r.start : Nat) := by
  rw [getUsed, if_pos h, asSize_sub h (by omega)]
  exact asInt_natCast (by omega)

theorem getFree_wrapped (h : r.end_ < r.start) (hs : r.start ≤ cap) : getFree r = (r.start - r.end_ : Nat) := by
  rw [getFree, if_neg (Nat.not_le.mpr h), asSize_sub (Nat.le_of_lt h) (by omega)]
  exact asInt_natCast (by omega)

include hl

theorem getFree_straight (h : r.start ≤ r.end_) (he : r.end_ ≤ cap) : getFree r = (cap - (r.end_ - r.start) : Nat) := by
  rw [getFree, if_pos h, hl, asSize_sub h (by omega), asSize_sub (by omega) (by omega)]
  exact asInt_natCast (by omega)

theorem getUsed_wrapped (h : r.end_ < r.start) (hs : r.start ≤ cap) :
    getUsed r = (cap - (r.start - r.end_) : Nat) := by
  rw [getUsed, if_neg (Nat.not_le.mpr h), hl, asSize_sub (Nat.le_of_lt h) (by omega), asSize_sub (by omega) (by omega)]
  exact asInt_natCast (by omega)

end Counting

/-- **The counts** of a ring, which always has room for one more octet. -/
theorem Contents.counts (h : Contents cap r q) (hcap : cap < 2 ^ 31) :
    Counts cap r q ∧ getFree r = (cap - q.length : Nat) ∧ q.length < cap := by
  cases h with
  | straight a q c hl hb hs he hlen hc =>
    have hused := getUsed_straight (r := r) hcap (by omega) (by omega)
    have hfree := getFree_straight hl hcap (by omega) (by omega)
    rw [hs, he, Nat.add_sub_cancel_left] at hused hfree
    exact ⟨⟨hused, by omega, by omega, by omega⟩, hfree, by omega⟩
  | wrapped q₂ f q₁ hl hb hs he hlen hf hq =>
    have hused := getUsed_wrapped hl hcap (by omega) (by omega)
    have hfree := getFree_wrapped (r := r) hcap (by omega) (by omega)
    rw [hs, he, Nat.add_sub_cancel_left] at hused hfree
    have hlen' : (q₁ ++ q₂).length = q₁.length + q₂.length := List.length_append
    exact ⟨⟨by omega, by omega, by omega, by omega⟩, by omega, by omega⟩

/-! ### Moving octets -/

section Moving

variable (hl : r.length = cap) (hcap : cap < 2 ^ 31) {a c d : List UInt8} {k : Int}

include hl hcap

theorem advance_eq {i n : Nat} (hpos : 0 < cap) (hi : i ≤ cap) (hn : n ≤ cap) :
    advance r i n = some ((i + n) % cap) := by
  rw [advance, hl, asSize_natCast (show cap < 2 ^ 64 by omega), asSize_natCast (show n < 2 ^ 64 by omega),
    if_neg (by omega), ← Int.natCast_add, asSize_natCast (by omega)]

/-- A copy over what lies behind the end. -/
theorem putEnd_eq {o data x y : List UInt8} {at_ : Int} (hb : r.buffer = a ++ o ++ c) (he : r.end_ = a.length)
    (hlen : a.length + o.length + c.length = cap) (hpos : 0 < cap) (hdata : data = x ++ d ++ y)
    (hat : at_ = x.length) (hx : x.length ≤ cap) (hk : k = d.length) (hd : d.length = o.length) :
    putEnd r data at_ k = some { r with buffer := a ++ d ++ c, end_ := (a.length + d.length) % cap } := by
  rw [putEnd, hat, hk, asSize_natCast (show x.length < 2 ^ 64 by omega),
    asSize_natCast (show d.length < 2 ^ 64 by omega), copy_eq hb he hdata rfl rfl hd, he]
  simp only [Option.bind_eq_bind, Option.bind_some, advance_eq hl hcap hpos (show a.length ≤ cap by omega)
    (show d.length ≤ cap by omega)]

/-- What is taken from the start. -/
theorem takeStart_eq (hb : r.buffer = a ++ d ++ c) (hs : r.start = a.length)
    (hlen : a.length + d.length + c.length = cap) (hpos : 0 < cap) (hk : k = d.length) :
    takeStart r k = some (d, { r with start := (a.length + d.length) % cap }) := by
  rw [takeStart, hk, asSize_natCast (show d.length < 2 ^ 64 by omega), load_eq hb hs rfl, hs]
  simp only [Option.bind_eq_bind, Option.bind_some, advance_eq hl hcap hpos (show a.length ≤ cap by omega)
    (show d.length ≤ cap by omega)]

end Moving

/-! ### Writing -/

/-- A write that does not fit is refused. -/
theorem write_refused (h : Contents cap r q) (hcap : cap < 2 ^ 31) {data : List UInt8} (hpos : 0 < data.length)
    (hfit : ¬ data.length < cap - q.length) : write r data = some (-RING_BUFFER_NO_SPACE, r) := by
  obtain ⟨-, hfree, -⟩ := h.counts hcap
  unfold write
  simp only [not_not.mpr hpos, hfree, asSize_natCast (show cap - q.length < 2 ^ 64 by omega), hfit, if_false,
    not_false_eq_true, if_true]

/-- A write that goes over the end of the storage. -/
theorem write_over {a q c data : List UInt8} (hl : r.length = cap) (hcap : cap < 2 ^ 31) (hb : r.buffer = a ++ q ++ c)
    (hs : r.start = a.length) (he : r.end_ = a.length + q.length) (hlen : a.length + q.length + c.length = cap)
    (hc : 0 < c.length) (hover : c.length < data.length) (hfit : data.length < a.length + c.length) :
    ∃ r₁ r₂, putEnd r data 0 c.length = some r₁ ∧
      putEnd r₁ data c.length (data.length - c.length : Nat) = some r₂ ∧ Contents cap r₂ (q ++ data) := by
  obtain ⟨x, y, rfl, hx, hy⟩ := exists_cut (Nat.le_of_lt hover)
  obtain ⟨a, f, rfl, ha, hf⟩ := exists_cut (b := a) (n := y.length) (by omega)
  simp only [List.length_append] at *
  have htail : putEnd r (x ++ y) 0 c.length = some { r with buffer := a ++ f ++ q ++ x, end_ := 0 } := by
    have hfull : (a ++ f ++ q).length + c.length = cap := by
      rw [List.length_append, List.length_append, hlen]
    refine (putEnd_eq hl hcap (a := a ++ f ++ q) (c := []) (x := []) (d := x) (hb.trans (List.append_nil _).symm) ?_
      hfull (by omega) rfl rfl (Nat.zero_le _) (by rw [hx]) hx).trans ?_
    · rw [he, List.length_append, List.length_append]
    · rw [hx, hfull, Nat.mod_self, List.append_nil]
  have hhead : putEnd { r with buffer := a ++ f ++ q ++ x, end_ := 0 } (x ++ y) c.length
      (x.length + y.length - c.length : Nat) =
      some { r with buffer := y ++ (f ++ q ++ x), end_ := y.length } := by
    have hrest : x.length + y.length - c.length = y.length := by omega
    rw [hrest]
    have hl' : ({ r with buffer := a ++ f ++ q ++ x, end_ := 0 } : RingBuffer).length = cap := hl
    refine (putEnd_eq hl' hcap (a := []) (o := a) (c := f ++ q ++ x) (d := y) ?_ rfl ?_ (by omega)
      (List.append_nil _).symm (by rw [hx]) (by omega) rfl ha.symm).trans ?_
    · simp only [List.nil_append, List.append_assoc]
    · simp only [List.length_append, List.length_nil]
      omega
    · simp only [List.length_nil, Nat.zero_add, List.nil_append, Nat.mod_eq_of_lt (show y.length < cap by omega)]
  refine ⟨_, _, htail, hhead, ?_⟩
  rw [← List.append_assoc q x y]
  have hsum : (q ++ x).length = q.length + x.length := List.length_append
  refine .wrapped y f (q ++ x) ?_ ?_ ?_ ?_ ?_ ?_ ?_
  · exact hl
  · simp only [List.append_assoc]
  · exact hs.trans (by rw [ha])
  · rfl
  all_goals omega

/-- A write that stays in front of the end of the storage. -/
theorem write_inside {a o c data : List UInt8} (hl : r.length = cap) (hcap : cap < 2 ^ 31) (hb : r.buffer = a ++ o ++ c)
    (he : r.end_ = a.length) (hlen : a.length + o.length + c.length = cap) (hpos : 0 < data.length)
    (hd : data.length = o.length) :
    putEnd r data 0 data.length =
      some { r with buffer := a ++ data ++ c, end_ := (a.length + data.length) % cap } :=
  putEnd_eq (x := []) (y := []) hl hcap hb he hlen (by omega) (List.append_nil _).symm rfl (Nat.zero_le _) rfl hd

/-- **A write that fits** goes behind the queue. -/
theorem write_contents (h : Contents cap r q) (hcap : cap < 2 ^ 31) {data : List UInt8} (hpos : 0 < data.length)
    (hfit : data.length < cap - q.length) :
    ∃ r', write r data = some ((data.length : Int), r') ∧ Contents cap r' (q ++ data) := by
  obtain ⟨⟨-, -, -, hend⟩, hfree, hroom⟩ := h.counts hcap
  unfold write
  simp only [not_not.mpr hpos, hfree, asSize_natCast (show cap - q.length < 2 ^ 64 by omega), not_not.mpr hfit, if_false,
    asInt_natCast (show data.length < 2 ^ 31 by omega)]
  clear hfree
  cases h with
  | straight a q c hl hb hs he hlen hc =>
    have hrest : asSize (r.length - r.end_) = c.length := by
      rw [hl, asSize_sub (Nat.le_of_lt hend) (by omega)]
      omega
    rw [hrest]
    by_cases hover : c.length < data.length
    · obtain ⟨r₁, r₂, htail, hhead, hr⟩ := write_over hl hcap hb hs he hlen hc hover (by omega)
      refine ⟨r₂, ?_, hr⟩
      rw [if_pos hover, asInt_natCast (by omega), asSize_natCast (by omega), asSize_sub (Nat.le_of_lt hover) (by omega),
        asInt_natCast (by omega)]
      simp only [htail, hhead, Option.bind_eq_bind, Option.bind_some]
    · obtain ⟨o, c, rfl, ho, hc'⟩ := exists_cut (Nat.le_of_not_lt hover)
      rw [if_neg hover]
      have haq : (a ++ q).length = a.length + q.length := List.length_append
      rw [List.length_append] at hlen hc'
      have hput := write_inside hl hcap (hb.trans (List.append_assoc _ _ _).symm) (he.trans haq.symm)
        (by omega) hpos ho.symm
      refine ⟨_, by simp only [hput, Option.bind_eq_bind, Option.bind_some]; rfl, ?_⟩
      refine .of_straight (a := a) (c := c) ?_ ?_ ?_ ?_ ?_ ?_ ?_
      · exact hl
      · simp only [List.append_assoc]
      · exact hs
      · simp only [haq, List.length_append, Nat.add_assoc]
      all_goals rw [List.length_append]; omega
  | wrapped q₂ f q₁ hl hb hs he hlen hf hq =>
    have hsum : (q₁ ++ q₂).length = q₁.length + q₂.length := List.length_append
    obtain ⟨o, f, rfl, ho, hf'⟩ := exists_cut (b := f) (n := data.length) (by omega)
    rw [List.length_append] at *
    have hrest : ¬ asSize (r.length - r.end_) < data.length := by
      rw [hl, asSize_sub (Nat.le_of_lt hend) (by omega)]
      omega
    have hput := write_inside (o := o) (c := f ++ q₁) hl hcap (by rw [hb]; simp only [List.append_assoc]) he
      (by rw [List.length_append]; omega) hpos ho.symm
    rw [if_neg hrest]
    refine ⟨_, by simp only [hput, Option.bind_eq_bind, Option.bind_some]; rfl, ?_⟩
    rw [List.append_assoc q₁ q₂ data]
    refine .wrapped (q₂ ++ data) f q₁ ?_ ?_ ?_ ?_ ?_ ?_ ?_
    · exact hl
    · simp only [List.append_assoc]
    · simp only [List.length_append]
      omega
    · simp only [List.length_append, Nat.mod_eq_of_lt (show q₂.length + data.length < cap by omega)]
    · rw [List.length_append]
      omega
    all_goals omega

/-! ### Reading -/

/-- The indices meet when the queue is empty only. -/
theorem Contents.eq_nil_of_meet (h : Contents cap r q) (hmeet : r.start = r.end_) : q = [] := by
  cases h with
  | straight a q c hl hb hs he hlen hc => exact List.length_eq_zero_iff.mp (by omega)
  | wrapped q₂ f q₁ hl hb hs he hlen hf hq => omega

/-- An empty ring goes back to the start of its storage. -/
theorem Contents.rewind (h : Contents cap r q) (hcap : cap < 2 ^ 31) : Contents cap (rewind r) q := by
  obtain ⟨⟨hused, -, -, -⟩, -, -⟩ := h.counts hcap
  rw [RingBuff.rewind]
  by_cases hempty : r.start = r.end_ ∨ getUsed r = 0
  · have hnil : q = [] := by
      rcases hempty with hmeet | hzero
      · exact h.eq_nil_of_meet hmeet
      · exact List.length_eq_zero_iff.mp (by omega)
    rw [if_pos hempty]
    rw [hnil] at h ⊢
    exact h.clear
  · rw [if_neg hempty]
    exact h

/-- A read over the end of the storage. -/
theorem read_over {q₂ f q₁ x y : List UInt8} (hl : r.length = cap) (hcap : cap < 2 ^ 31) (hb : r.buffer = q₂ ++ f ++ q₁)
    (hs : r.start = q₂.length + f.length) (he : r.end_ = q₂.length) (hlen : q₂.length + f.length + q₁.length = cap)
    (hf : 0 < f.length) (hq : q₂ = x ++ y) :
    ∃ r₁ r₂, takeStart r q₁.length = some (q₁, r₁) ∧ takeStart r₁ x.length = some (x, r₂) ∧ Contents cap r₂ y := by
  subst hq
  simp only [List.length_append] at *
  have htail : takeStart r q₁.length = some (q₁, { r with start := 0 }) := by
    have hfull : (x ++ y ++ f).length + q₁.length = cap := by
      rw [List.length_append, List.length_append, hlen]
    refine (takeStart_eq hl hcap (a := x ++ y ++ f) (c := []) (hb.trans (List.append_nil _).symm) ?_ hfull (by omega)
      rfl).trans ?_
    · rw [hs, List.length_append, List.length_append]
    · rw [hfull, Nat.mod_self]
  have hhead : takeStart { r with start := 0 } x.length = some (x, { r with start := x.length }) := by
    have hl' : ({ r with start := 0 } : RingBuffer).length = cap := hl
    refine (takeStart_eq hl' hcap (a := []) (c := y ++ f ++ q₁) ?_ rfl ?_ (by omega) rfl).trans ?_
    · simp only [hb, List.nil_append, List.append_assoc]
    · simp only [List.length_append, List.length_nil]
      omega
    · rw [List.length_nil, Nat.zero_add, Nat.mod_eq_of_lt (by omega)]
  refine ⟨_, _, htail, hhead, .straight x y (f ++ q₁) ?_ ?_ ?_ ?_ ?_ ?_⟩
  · exact hl
  · simp only [hb, List.append_assoc]
  · rfl
  · exact he
  all_goals rw [List.length_append]; omega

/-- A read that stays in front of the end of the storage. -/
theorem read_inside {a x c : List UInt8} (hl : r.length = cap) (hcap : cap < 2 ^ 31) (hb : r.buffer = a ++ x ++ c)
    (hs : r.start = a.length) (hlen : a.length + x.length + c.length = cap) (hpos : 0 < cap) :
    takeStart r x.length = some (x, { r with start := (a.length + x.length) % cap }) :=
  takeStart_eq hl hcap hb hs hlen hpos rfl

/-- **A read** takes what there is from the front of the queue, at most as much as there is room for. -/
theorem read_contents (h : Contents cap r q) (hcap : cap < 2 ^ 31) {snSize : Nat} (hpos : 0 < snSize) :
    ∃ r', read r snSize = some ((((min snSize q.length : Nat) : Int), q.take snSize), r') ∧
      Contents cap r' (q.drop snSize) := by
  obtain ⟨⟨hused, -, hstart, -⟩, -, hroom⟩ := h.counts hcap
  have hrlen : (if snSize < asSize (getUsed r) then snSize else asSize (getUsed r)) = min snSize q.length := by
    rw [hused, asSize_natCast (by omega)]
    split <;> omega
  have hx : (q.take snSize).length = min snSize q.length := List.length_take
  have hxy : q = q.take snSize ++ q.drop snSize := (List.take_append_drop snSize q).symm
  unfold read
  simp only [not_not.mpr hpos, if_false, hrlen, ← hx]
  have hxle : (q.take snSize).length ≤ q.length := by omega
  generalize q.take snSize = x at *
  generalize q.drop snSize = y at *
  clear hused hrlen hx
  have hret : asInt (x.length : Int) = x.length := asInt_natCast (by omega)
  cases h with
  | straight a q c hl hb hs he hlen hc =>
    subst hxy
    rw [List.length_append] at he hlen
    have hrest : ¬ asSize (r.length - r.start) < x.length := by
      rw [hl, asSize_sub (Nat.le_of_lt hstart) (by omega)]
      omega
    have htake := read_inside (a := a) (x := x) (c := y ++ c) hl hcap (by rw [hb]; simp only [List.append_assoc]) hs
      (by rw [List.length_append]; omega) (by omega)
    rw [if_neg hrest]
    refine ⟨_, by simp only [htake, hret, Option.bind_eq_bind, Option.bind_some]; rfl, Contents.rewind ?_ hcap⟩
    refine .straight (a ++ x) y c ?_ ?_ ?_ ?_ ?_ hc
    · exact hl
    · simp only [hb, List.append_assoc]
    · rw [List.length_append, Nat.mod_eq_of_lt (by omega)]
    · rw [List.length_append, Nat.add_assoc]
      exact he
    · rw [List.length_append]
      omega
  | wrapped q₂ f q₁ hl hb hs he hlen hf hq =>
    have hrest : asSize (r.length - r.start) = q₁.length := by
      rw [hl, asSize_sub (Nat.le_of_lt hstart) (by omega)]
      omega
    rw [hrest]
    by_cases hover : q₁.length < x.length
    · obtain ⟨z, rfl, rfl⟩ := exists_between hxy (Nat.le_of_lt hover)
      obtain ⟨r₁, r₂, htail, hhead, hr⟩ := read_over hl hcap hb hs he hlen hf rfl
      refine ⟨rewind r₂, ?_, hr.rewind hcap⟩
      have hz : (q₁ ++ z).length - q₁.length = z.length := by
        rw [List.length_append, Nat.add_sub_cancel_left]
      rw [if_pos hover, asInt_natCast (by omega), asSize_natCast (by omega), asSize_sub (Nat.le_of_lt hover) (by omega),
        hz, asInt_natCast (by omega)]
      simp only [htail, hhead, hret, Option.bind_eq_bind, Option.bind_some]
    · obtain ⟨w, rfl, rfl⟩ := exists_between hxy.symm (Nat.le_of_not_lt hover)
      have htake := read_inside (a := q₂ ++ f) (x := x) (c := w) hl hcap (by rw [hb]; simp only [List.append_assoc])
        (by rw [hs, List.length_append]) (by rw [List.length_append] at *; omega) (by omega)
      rw [if_neg hover]
      refine ⟨_, by simp only [htake, hret, Option.bind_eq_bind, Option.bind_some]; rfl, Contents.rewind ?_ hcap⟩
      refine .of_wrapped (f := f ++ x) ?_ ?_ ?_ ?_ ?_ ?_
      · exact hl
      · simp only [hb, List.append_assoc]
      · simp only [List.length_append, Nat.add_assoc]
      · exact he
      all_goals rw [List.length_append] at *; omega

/-! ### Runs -/

/-- **One operation** on a ring is that on the queue. -/
theorem step_contents (h : Contents cap r q) (hcap : cap < 2 ^ 31) {op : Op} (hsize : op.Sized) :
    ∃ r', step r op = some ((op.ref cap q).1, r') ∧ ((op.ref cap q).1.1 < 0 → r' = r) ∧
      Contents cap r' (op.ref cap q).2 := by
  cases op with
  | write data =>
    rw [step, Op.ref]
    by_cases hfit : data.length < cap - q.length
    · obtain ⟨r', hr, hcontents⟩ := write_contents h hcap hsize hfit
      rw [hr, if_pos hfit]
      exact ⟨r', rfl, fun hneg => absurd hneg (Int.not_lt.mpr (Int.natCast_nonneg _)), hcontents⟩
    · rw [write_refused h hcap hsize hfit, if_neg hfit]
      exact ⟨r, rfl, fun _ => rfl, h⟩
  | read snSize =>
    obtain ⟨r', hr, hcontents⟩ := read_contents h hcap hsize
    exact ⟨r', hr, fun hneg => absurd hneg (Int.not_lt.mpr (Int.natCast_nonneg _)), hcontents⟩
  | clear => exact ⟨clear r, rfl, fun hneg => absurd hneg (Int.lt_irrefl 0), h.clear⟩

/-- **Whole runs** of a ring. -/
theorem fifo_of_contents (h : Contents cap r q) (hcap : cap < 2 ^ 31) {ops : List Op} (hsize : ∀ op ∈ ops, op.Sized) :
    Fifo cap r q ops := by
  induction ops generalizing r q with
  | nil => exact (h.counts hcap).1
  | cons op ops ih =>
    obtain ⟨hop, hops⟩ := List.forall_mem_cons.mp hsize
    obtain ⟨r', hstep, hsame, hr⟩ := step_contents h hcap hop
    exact ⟨(h.counts hcap).1, r', hstep, hsame, ih hr hops⟩

theorem Fifo.counts {ops : List Op} (h : Fifo cap r q ops) : Counts cap r q := by
  cases ops with
  | nil => exact h
  | cons op ops => exact h.1

theorem getFree_lt (r : RingBuffer) : getFree r < 2 ^ 31 := by
  rw [getFree]
  split <;> exact asInt_lt _

/-- The free space of a new buffer is no `int`. -/
theorem not_fifo_of_le (hcap : 2 ^ 31 ≤ cap) (ops : List Op) : ¬ Fifo cap (create cap) [] ops := by
  intro h
  obtain ⟨hused, htotal, -, -⟩ := h.counts
  have hlt := getFree_lt (create cap)
  rw [hused, List.length_nil] at htotal
  omega

/-- **The ring buffer is a bounded queue**, whatever is called, when its capacity is an `int`, and not otherwise. -/
theorem fifo_iff (hpos : 1 ≤ cap) {ops : List Op} (hsize : ∀ op ∈ ops, op.Sized) :
    Fifo cap (create cap) [] ops ↔ cap < 2 ^ 31 := by
  constructor
  · intro h
    by_contra hcap
    exact not_fifo_of_le (Nat.le_of_not_lt hcap) ops h
  · exact fun hcap => fifo_of_contents (contents_create hpos hcap) hcap hsize

/-- Over the end of the storage and back. -/
def demoOps : List Op := [.write [1, 2, 3], .read 2, .write [4, 5], .write [6], .read 9, .write [7], .clear]

theorem fifo_demo : Fifo 4 (create 4) [] demoOps :=
  (fifo_iff (by decide) (by simp [demoOps, Op.Sized])).mpr (by decide)

/-- A buffer of `2 ^ 31` octets says that it has less than nothing free. -/
theorem not_fifo : getFree (create (2 ^ 31)) = -2 ^ 31 ∧ ¬ Fifo (2 ^ 31) (create (2 ^ 31)) [] [] :=
  ⟨by decide, not_fifo_of_le (Nat.le_refl _) []⟩

end Wow.RingBuff
