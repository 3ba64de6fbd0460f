import Wow.Iot.SqlLogState
import Mathlib.Data.List.Perm.Basic

/-!
# Wow.Iot.SqlLogBound — the size of the log and the names of its entries

The search for the oldest entry does not end, so nothing is ever removed: a call that would have to remove an entry
does not return.  As long as there is room the entries are numbered from 1, and the count that is kept in memory,
which is what a call returns, is the id of the last one.

* `Counted`: the count in memory, the rows and the greatest id agree.
* `counted_added`: what a new entry does.
* `right_iff`: every run is right if and only if each new entry finds room.
-/

namespace Wow.Iot.SqlLog

/-! ### The requirement -/

/-- What happens to a log. -/
inductive Event where
  | addEntry (ts : Int)
  | addEntryData (d : DataRow)
  | setMax (m : Int)
  /-- The log is closed and opened. -/
  | restart

/-- The order in which entries are removed: by timestamp, then by id. -/
def Older (e e' : Int × Int) : Prop := e.2 < e'.2 ∨ e.2 = e'.2 ∧ e.1 < e'.1

/-- **The requirement** on a new entry: the call returns its id, the index is within its maximum, the rows removed
are the oldest ones, and none of their data remains. -/
structure Bounded (log : SqlLog) (ts ret : Int) (log' : SqlLog) : Prop where
  named : ret = log.tables.maxId + 1
  size : log'.tables.index.length ≤ log.maxEntrySize
  removed : ∃ removed, (log.tables.index ++ [(log.tables.maxId + 1, ts)]).Perm (removed ++ log'.tables.index) ∧
    (∀ e ∈ removed, ∀ e' ∈ log'.tables.index, Older e e') ∧ ∀ e ∈ removed, ∀ d ∈ log'.tables.data, d.id ≠ e.1

/-- Every call that adds an entry returns, and meets the requirement. -/
def Right : SqlLog → List Event → Prop
  | _, [] => True
  | log, .addEntry ts :: es =>
    -- entries are added under a maximum of at least 1
    if log.maxEntrySize < 1 then Right log es
    else ∃ fuel ret log', wowSqlLogAddEntry fuel log ts = some (ret, log') ∧ Bounded log ts ret log' ∧ Right log' es
  | log, .addEntryData d :: es => Right (wowSqlLogAddEntryData log d).2 es
  | log, .setMax m :: es => Right (wowSqlLogSetMaxEntrySize log m) es
  | log, .restart :: es => Right (wowSqlLogInit log.tables) es

/-- **The condition**: each entry that is added to `n` others finds them fewer than the maximum `m`. -/
def Fitting : Nat → Int → List Event → Prop
  | _, _, [] => True
  | n, m, .addEntry _ :: es => if m < 1 then Fitting n m es else n < m ∧ Fitting (n + 1) m es
  | n, m, .addEntryData _ :: es => Fitting n m es
  | n, _, .setMax m :: es => Fitting n m es
  | n, _, .restart :: es => Fitting n 0 es

instance decidableFitting : ∀ (n : Nat) (m : Int) (es : List Event), Decidable (Fitting n m es)
  | _, _, [] => inferInstanceAs (Decidable True)
  | n, m, .addEntry _ :: es =>
    have := decidableFitting n m es
    have := decidableFitting (n + 1) m es
    inferInstanceAs (Decidable (if m < 1 then Fitting n m es else n < m ∧ Fitting (n + 1) m es))
  | n, m, .addEntryData _ :: es => decidableFitting n m es
  | n, _, .setMax m :: es => decidableFitting n m es
  | n, _, .restart :: es => decidableFitting n 0 es

/-! ### The invariant -/

/-- **The invariant**: the count in memory and the greatest id are the number of the rows. -/
structure Counted (log : SqlLog) : Prop where
  ready : log.Ready
  size : log.curEntrySize = log.tables.index.length
  maxId : log.tables.maxId = log.tables.index.length

variable {log : SqlLog}

theorem maxId_append (t : Tables) (e : Int × Int) :
    ({ t with index := t.index ++ [e] } : Tables).maxId = max t.maxId e.1 := by
  rw [Tables.maxId, List.map_append, List.foldl_append]
  rfl

theorem counted_init {tables : Tables} (h : tables.maxId = tables.index.length) : Counted (wowSqlLogInit tables) := by
  obtain ⟨hready, hsize, -⟩ := ready_init tables
  exact ⟨hready, hsize, h⟩

theorem counted_empty : Counted (wowSqlLogInit ⟨[], []⟩) := counted_init rfl

theorem Counted.setMax (h : Counted log) (m : Int) : Counted (wowSqlLogSetMaxEntrySize log m) :=
  ⟨ready_setMax h.ready m, h.size, h.maxId⟩

theorem tables_addEntryData (h : log.Ready) (d : DataRow) :
    (wowSqlLogAddEntryData log d).2 = (({ log with tables := { log.tables with data := log.tables.data ++ [d] } } :
      SqlLog).statementExec .insertEntryDataStmt).2 := by
  have hidle : log.sql.cursor .insertEntryDataStmt = none := h.idle _ (by decide)
  simp only [wowSqlLogAddEntryData, statementBind, hidle, if_true]

theorem Counted.addEntryData (h : Counted log) (d : DataRow) : Counted (wowSqlLogAddEntryData log d).2 := by
  refine ⟨ready_addEntryData h.ready d, ?_, ?_⟩
  · rw [tables_addEntryData h.ready]
    exact h.size
  · rw [tables_addEntryData h.ready]
    exact h.maxId

/-- **A new entry** has the number of the rows as its id. -/
theorem counted_added (h : Counted log) (ts : Int) : Counted (log.added ts) := by
  have hlength : (log.added ts).tables.index.length = log.tables.index.length + 1 := List.length_append
  refine ⟨ready_added h.ready ts, ?_, ?_⟩
  · rw [hlength, Int.natCast_succ, ← h.size]
    rfl
  · have hmax : (log.added ts).tables.maxId = max log.tables.maxId (log.tables.maxId + 1) := maxId_append _ _
    rw [hlength, Int.natCast_succ, hmax, h.maxId]
    exact max_eq_right (by omega)

/-- Nothing is removed. -/
theorem bounded_added (h : Counted log) (ts : Int) (hroom : log.tables.index.length < log.maxEntrySize) :
    Bounded log ts (log.curEntrySize + 1) (log.added ts) := by
  have hlength : (log.added ts).tables.index.length = log.tables.index.length + 1 := List.length_append
  refine ⟨?_, ?_, [], List.Perm.refl _, nofun, nofun⟩
  · rw [h.size, h.maxId]
  · rw [hlength]
    omega

/-! ### Every run -/

/-- **Every run** from a state that counts its rows. -/
theorem right_iff_of_counted (h : Counted log) (es : List Event) :
    Right log es ↔ Fitting log.tables.index.length log.maxEntrySize es := by
  induction es generalizing log with
  | nil => exact Iff.rfl
  | cons e es ih =>
    cases e with
    | addEntry ts =>
      have hlength : (log.added ts).tables.index.length = log.tables.index.length + 1 := List.length_append
      have hadded := ih (counted_added h ts)
      rw [hlength] at hadded
      have heq := addEntry_eq h.ready
      simp only [Right, Fitting]
      by_cases hmax : log.maxEntrySize < 1
      · rw [if_pos hmax, if_pos hmax]
        exact ih h
      · rw [if_neg hmax, if_neg hmax]
        constructor
        · rintro ⟨fuel, ret, log', hadd, -, hright⟩
          rw [heq] at hadd
          split at hadd
          · cases hadd
          · rename_i hroom
            obtain ⟨-, rfl⟩ := Prod.mk.inj (Option.some_inj.mp hadd)
            rw [h.size] at hroom
            exact ⟨by omega, hadded.mp hright⟩
        · rintro ⟨hroom, hfit⟩
          refine ⟨0, _, _, ?_, bounded_added h ts hroom, hadded.mpr hfit⟩
          rw [heq, if_neg]
          rw [h.size]
          omega
    | addEntryData d =>
      have hdata := ih (h.addEntryData d)
      rw [tables_addEntryData h.ready] at hdata
      simp only [Right, Fitting]
      rw [tables_addEntryData h.ready]
      exact hdata
    | setMax m => exact ih (h.setMax m)
    | restart => exact ih (counted_init h.maxId)

/-- **The log stays within its maximum**, from an empty file on, if and only if each new entry finds room. -/
theorem right_iff (es : List Event) : Right (wowSqlLogInit ⟨[], []⟩) es ↔ Fitting 0 0 es :=
  right_iff_of_counted counted_empty es

/-- A log of at most one entry: the second one is not added. -/
theorem not_right : ¬ Right (wowSqlLogInit ⟨[], []⟩) [.setMax 1, .addEntry 5, .addEntry 6] := by
  rw [right_iff_of_counted counted_empty]
  exact fun h => absurd h.2.1 (by decide)

end Wow.Iot.SqlLog
