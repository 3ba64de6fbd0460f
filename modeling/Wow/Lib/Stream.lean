import Wow.Lib.Monitor

/-!
# Wow.Lib.Stream — readers of byte streams

A byte stream is a sequence of frames, one behind the other, and reaches a reader in chunks that need not be
cut where the frames end.  A reader that takes frames out of each chunk by itself, and never more octets than
the chunk has, gets the frames of the stream exactly when the chunks are `Aligned` with them.  A reader that keeps
what it does not take gets them however the stream is cut.

* `length_taken_le`: over a run, too, no more octets are taken than were read.
* `taken_iff_aligned`: the frames are recovered exactly when every cut is between two of them.
* `Buffered.taken`: a reader with a buffer recovers every frame once.
-/

namespace Wow

variable {σ ε α β : Type}

/-- Every chunk is a whole number of frames. -/
def Aligned (chunks frames : List (List β)) : Prop :=
  ∃ groups : List (List (List β)), groups.flatten = frames ∧ chunks = groups.map List.flatten

theorem aligned_nil : Aligned ([] : List (List β)) [] := ⟨[], rfl, rfl⟩

/-- A chunk of its own for each frame is a way to cut. -/
theorem aligned_self : ∀ frames : List (List β), Aligned frames frames
  | [] => aligned_nil
  | f :: frames => by
    obtain ⟨groups, hframes, hchunks⟩ := aligned_self frames
    refine ⟨[f] :: groups, ?_, ?_⟩
    · rw [List.flatten_cons, hframes, List.singleton_append]
    · rw [List.map_cons, List.flatten_singleton, ← hchunks]

theorem Aligned.cons {chunks frames : List (List β)} (fs : List (List β)) (h : Aligned chunks frames) :
    Aligned (fs.flatten :: chunks) (fs ++ frames) := by
  obtain ⟨groups, rfl, rfl⟩ := h
  exact ⟨fs :: groups, rfl, rfl⟩

section Reader

/-! A reader: a machine with a chunk in every event, and the frames it takes among its actions. -/

variable {step : σ → ε → σ × List α} {octets : ε → List β} {out : α → Option (List β)}

theorem filterMap_run_cons (s : σ) (e : ε) (es : List ε) : (run step s (e :: es)).2.filterMap out =
    (step s e).2.filterMap out ++ (run step (step s e).1 es).2.filterMap out := by
  rw [run_cons, List.filterMap_append]

variable (hshort : ∀ s e, ((step s e).2.filterMap out).flatten.length ≤ (octets e).length)
include hshort

/-- What a run takes is no longer than what it read. -/
theorem length_taken_le (s : σ) (es : List ε) :
    ((run step s es).2.filterMap out).flatten.length ≤ (es.map octets).flatten.length := by
  induction es generalizing s with
  | nil => exact Nat.le_refl _
  | cons e es ih =>
    have hhead := hshort s e
    have htail := ih (step s e).1
    rw [filterMap_run_cons, List.flatten_append, List.length_append, List.map_cons, List.flatten_cons,
      List.length_append]
    omega

/-- Frames that are all recovered lie in the chunks one group after the other. -/
theorem aligned_of_taken : ∀ (es : List ε) (s : σ) {frames : List (List β)},
    (es.map octets).flatten = frames.flatten → (run step s es).2.filterMap out = frames →
      Aligned (es.map octets) frames
  | [], _, frames, _, htaken => by
    have hnil : frames = [] := htaken.symm
    rw [hnil]
    exact aligned_nil
  | e :: es, s, frames, hstream, htaken => by
    rw [filterMap_run_cons] at htaken
    have hhead := hshort s e
    have htail := length_taken_le hshort (step s e).1 es
    rw [← htaken, List.flatten_append, List.map_cons, List.flatten_cons] at hstream
    -- nothing of the first chunk is left over, or the rest could not make up for it
    have hlen := congrArg List.length hstream
    rw [List.length_append, List.length_append] at hlen
    obtain ⟨hfirst, hrest⟩ := List.append_inj hstream (by omega)
    rw [← htaken, List.map_cons, hfirst]
    exact (aligned_of_taken es _ hrest rfl).cons _

variable {W : List β → Prop}
  (hexact : ∀ s e fs, (∀ f ∈ fs, W f) → octets e = fs.flatten → (step s e).2.filterMap out = fs)
include hexact

/-- **The frames of a stream are recovered** exactly when no chunk ends inside a frame. -/
theorem taken_iff_aligned {es : List ε} {s : σ} {frames : List (List β)} (hW : ∀ f ∈ frames, W f)
    (hstream : (es.map octets).flatten = frames.flatten) :
    (run step s es).2.filterMap out = frames ↔ Aligned (es.map octets) frames := by
  refine ⟨aligned_of_taken hshort es s hstream, ?_⟩
  rintro ⟨groups, rfl, hchunks⟩
  clear hstream
  induction groups generalizing es s with
  | nil =>
    have hes : es = [] := List.map_eq_nil_iff.mp hchunks
    rw [hes]
    rfl
  | cons fs groups ih =>
    cases es with
    | nil => cases hchunks
    | cons e es =>
      rw [List.map_cons, List.map_cons, List.cons.injEq] at hchunks
      rw [List.flatten_cons] at hW ⊢
      have hW' := List.forall_mem_append.mp hW
      rw [filterMap_run_cons, hexact s e fs hW'.1 hchunks.1, ih hchunks.2 hW'.2]

end Reader

/-! ### Readers with a buffer -/

section Buffer

variable {step : σ → ε → σ × List α} {octets : ε → Option (List β)} {out : α → Option (List β)} {held : σ → List β}
  {Ok : σ → Prop} {A : ε → Prop} {W : List β → Prop}

/-- What an event does to a reader: what it then holds, and the frames it takes. -/
def Does (out : α → Option (List β)) (held : σ → List β) (Ok : σ → Prop) (r : σ × List α) (rest : List β)
    (taken : List (List β)) : Prop :=
  Ok r.1 ∧ held r.1 = rest ∧ r.2.filterMap out = taken

/-- **A reader with a buffer**, for frames with `W` and events with `A`: an event without a read leaves the buffer
alone, a read goes behind what is held, and the first frame is taken once it is whole. -/
structure Buffered (step : σ → ε → σ × List α) (octets : ε → Option (List β)) (out : α → Option (List β))
    (held : σ → List β) (Ok : σ → Prop) (A : ε → Prop) (W : List β → Prop) : Prop where
  other : ∀ s e, Ok s → A e → octets e = none → Does out held Ok (step s e) (held s) []
  idle : ∀ s e l, Ok s → A e → octets e = some l → held s ++ l = [] → Does out held Ok (step s e) [] []
  part : ∀ s e l f, Ok s → A e → octets e = some l → W f → held s ++ l <+: f → (held s ++ l).length < f.length →
    Does out held Ok (step s e) (held s ++ l) []
  whole : ∀ s e l f rest, Ok s → A e → octets e = some l → W f → held s ++ l = f ++ rest →
    Does out held Ok (step s e) rest [f]

namespace Buffered

/-- What is held in front of an event is a piece of the stream. -/
theorem stream_cons (s : σ) (e : ε) (es : List ε) : held s ++ ((e :: es).filterMap octets).flatten =
    held s ++ (octets e).getD [] ++ (es.filterMap octets).flatten := by
  rw [List.append_assoc, List.filterMap_cons]
  cases octets e with
  | none => rfl
  | some l => rfl

variable (hB : Buffered step octets out held Ok A W)
include hB

/-- One event: the frame it takes, if any, is the first one. -/
theorem step_taken {s : σ} {e : ε} {todo : List (List β)} (hs : Ok s) (hA : A e) (hW : ∀ f ∈ todo, W f)
    (hpre : held s ++ (octets e).getD [] <+: todo.flatten) :
    ∃ done rest left, todo = done ++ rest ∧ Does out held Ok (step s e) left done ∧
      done.flatten ++ left = held s ++ (octets e).getD [] := by
  cases hl : octets e with
  | none => exact ⟨[], todo, held s, rfl, hB.other s e hs hA hl, by rw [Option.getD_none, List.append_nil]; rfl⟩
  | some l =>
    rw [hl, Option.getD_some] at hpre
    cases todo with
    | nil =>
      have hnil : held s ++ l = [] := List.prefix_nil.mp hpre
      exact ⟨[], [], [], rfl, hB.idle s e l hs hA hl hnil, hnil.symm⟩
    | cons f todo =>
      have hf := hW f List.mem_cons_self
      rw [List.flatten_cons] at hpre
      by_cases hlen : (held s ++ l).length < f.length
      · have hpart := List.prefix_of_prefix_length_le hpre (List.prefix_append f todo.flatten) (Nat.le_of_lt hlen)
        exact ⟨[], f :: todo, held s ++ l, rfl, hB.part s e l f hs hA hl hf hpart hlen, rfl⟩
      · obtain ⟨rest, hrest⟩ := List.prefix_of_prefix_length_le (List.prefix_append f todo.flatten) hpre
          (Nat.le_of_not_lt hlen)
        refine ⟨[f], todo, rest, rfl, hB.whole s e l f rest hs hA hl hf hrest.symm, ?_⟩
        rw [List.flatten_singleton, hrest, Option.getD_some]

/-- All the way the reader is in order. -/
theorem along_ok {es : List ε} (hA : ∀ e ∈ es, A e) : ∀ {s : σ} {todo : List (List β)}, Ok s → (∀ f ∈ todo, W f) →
    held s ++ (es.filterMap octets).flatten <+: todo.flatten → Along step (fun s e => Ok s ∧ A e) s es := by
  induction es with
  | nil => exact fun _ _ _ => trivial
  | cons e es ih =>
    intro s todo hs hW hpre
    rw [stream_cons s e es] at hpre
    have hAe := hA e List.mem_cons_self
    obtain ⟨done, todo', left, rfl, ⟨hok, hheld, -⟩, hleft⟩ :=
      hB.step_taken hs hAe hW ((List.prefix_append _ _).trans hpre)
    rw [← hleft, List.flatten_append, List.append_assoc, List.prefix_append_right_inj, ← hheld] at hpre
    exact ⟨⟨hs, hAe⟩, ih (fun e' he => hA e' (List.mem_cons_of_mem e he)) hok
      (fun f hf => hW f (List.mem_append_right _ hf)) hpre⟩

/-- **While the stream comes in** the frames are taken in order, and the rest is held. -/
theorem run_taken {es : List ε} (hA : ∀ e ∈ es, A e) : ∀ {s : σ} {todo : List (List β)}, Ok s → (∀ f ∈ todo, W f) →
    held s ++ (es.filterMap octets).flatten <+: todo.flatten →
      ∃ done rest left, todo = done ++ rest ∧ Does out held Ok (run step s es) left done ∧
        done.flatten ++ left = held s ++ (es.filterMap octets).flatten := by
  induction es with
  | nil =>
    intro s todo hs _ _
    exact ⟨[], todo, held s, rfl, ⟨hs, rfl, rfl⟩, by rw [List.filterMap_nil, List.flatten_nil, List.append_nil]; rfl⟩
  | cons e es ih =>
    intro s todo hs hW hpre
    rw [stream_cons s e es] at hpre ⊢
    obtain ⟨done, todo', left, rfl, ⟨hok, hheld, hout⟩, hleft⟩ :=
      hB.step_taken hs (hA e List.mem_cons_self) hW ((List.prefix_append _ _).trans hpre)
    rw [← hleft, List.flatten_append, List.append_assoc, List.prefix_append_right_inj, ← hheld] at hpre
    obtain ⟨done', rest, left', rfl, ⟨hok', hheld', hout'⟩, hleft'⟩ :=
      ih (fun e' he => hA e' (List.mem_cons_of_mem e he)) hok (fun f hf => hW f (List.mem_append_right _ hf)) hpre
    refine ⟨done ++ done', rest, left', (List.append_assoc _ _ _).symm, ⟨hok', hheld', ?_⟩, ?_⟩
    · rw [filterMap_run_cons, hout, hout']
    · rw [List.flatten_append, List.append_assoc, hleft', ← List.append_assoc, hheld, hleft]

/-- **Afterwards** every read without an octet takes one frame more. -/
theorem run_drained {es : List ε} (hA : ∀ e ∈ es, A e) (hempty : ∀ l ∈ es.filterMap octets, l = []) :
    ∀ {s : σ} {todo : List (List β)}, Ok s → (∀ f ∈ todo, W f) → held s = todo.flatten →
      todo.length ≤ (es.filterMap octets).length → (run step s es).2.filterMap out = todo := by
  induction es with
  | nil =>
    intro s todo _ _ _ hlen
    rw [List.eq_nil_of_length_eq_zero (Nat.le_zero.mp hlen)]
    rfl
  | cons e es ih =>
    intro s todo hs hW hheld hlen
    have hAe := hA e List.mem_cons_self
    have hA' : ∀ e' ∈ es, A e' := fun e' he => hA e' (List.mem_cons_of_mem e he)
    rw [filterMap_run_cons]
    cases hl : octets e with
    | none =>
      rw [List.filterMap_cons_none hl] at hempty hlen
      obtain ⟨hok, h1, h2⟩ := hB.other s e hs hAe hl
      rw [h2, ih hA' hempty hok hW (h1.trans hheld) hlen]
      rfl
    | some l =>
      rw [List.filterMap_cons_some hl] at hempty hlen
      obtain rfl : l = [] := hempty l List.mem_cons_self
      have hempty' : ∀ l ∈ es.filterMap octets, l = [] := fun l' hl' => hempty l' (List.mem_cons_of_mem _ hl')
      cases todo with
      | nil =>
        obtain ⟨hok, h1, h2⟩ := hB.idle s e [] hs hAe hl (by rw [hheld]; rfl)
        rw [h2, ih hA' hempty' hok hW h1 (Nat.zero_le _)]
        rfl
      | cons f todo =>
        obtain ⟨hok, h1, h2⟩ := hB.whole s e [] f todo.flatten hs hAe hl (hW f List.mem_cons_self)
          (by rw [hheld, List.append_nil, List.flatten_cons])
        rw [h2, ih hA' hempty' hok (fun f' hf => hW f' (List.mem_cons_of_mem f hf)) h1 (Nat.le_of_succ_le_succ hlen)]
        rfl

/-- **Nothing is lost**: a stream of frames is taken frame by frame, however it is cut. -/
theorem taken {es es' : List ε} (hA : ∀ e ∈ es, A e) (hA' : ∀ e ∈ es', A e)
    (hempty : ∀ l ∈ es'.filterMap octets, l = []) {s : σ} {frames : List (List β)} (hs : Ok s) (hheld : held s = [])
    (hW : ∀ f ∈ frames, W f) (hstream : (es.filterMap octets).flatten = frames.flatten)
    (hlen : frames.length ≤ (es'.filterMap octets).length) :
    (run step s (es ++ es')).2.filterMap out = frames := by
  have hpre : held s ++ (es.filterMap octets).flatten = frames.flatten := by rw [hheld, List.nil_append, hstream]
  obtain ⟨done, rest, left, rfl, ⟨hok, hleft, hout⟩, hrest⟩ := hB.run_taken hA hs hW ⟨[], by rw [List.append_nil, hpre]⟩
  rw [hpre, List.flatten_append, List.append_cancel_left_eq, ← hleft] at hrest
  rw [run_append, List.filterMap_append, hout,
    hB.run_drained hA' hempty hok (fun f hf => hW f (List.mem_append_right _ hf)) hrest]
  rw [List.length_append] at hlen
  omega

end Buffered

end Buffer

end Wow
