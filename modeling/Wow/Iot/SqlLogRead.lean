import Wow.Iot.SqlLogState
import Mathlib.Data.List.Infix

/-!
# Wow.Iot.SqlLogRead — the entries are never read back

The loops execute their statement at every turn, and fetch a row.  An execution at the end of the rows resets the
statement and leaves it with the database, and the fetch starts it again: a read that finds a row does not end.
Where there is no row the fetch goes on with the statement that is held, which is the count of the opening.

* `Looping`, `Stuck`: the states in which the two loops go on; `looping_turn`, `stuck_turn`.
* `drain`: the loop over the data of an id without any goes through the rows of the statement that is held.
* `reads_iff`: the first read after the opening is right if and only if there is nothing to read, any later one is
  wrong.
-/

namespace Wow.Iot.SqlLog

open Db

/-! ### The requirement -/

/-- The call of the callback for a data row. -/
def callOf (d : DataRow) : DataCall := ⟨some d.desc, d.value, d.reason⟩

/-- **The data of an id**: the read ends after one call for each of its rows. -/
def ReadsData (log : SqlLog) (id : Int) : Prop :=
  ∃ fuel calls log', wowSqlLogGetEntryData fuel log id = some (.returned 0 calls log') ∧
    calls.Perm ((log.dataOf id).map callOf)

/-- **The entries of a range**: the read ends after one call for each data row of their ids. -/
def ReadsRange (log : SqlLog) (range : Int × Int) : Prop :=
  ∃ fuel calls log', wowSqlLogGetEntry fuel log range.1 range.2 = some (.returned 0 calls log') ∧
    calls.Perm ((log.entriesIn range).flatMap fun e => (log.dataOf e.1).map callOf)

/-- Nothing has been read since the log was opened: the count is still on its row. -/
def Fresh (log : SqlLog) : Prop := log.sql.cursor .getEntriesCount ≠ none

/-- The logs that the calls lead to. -/
inductive Reach : SqlLog → Prop where
  | created : Reach (wowSqlLogInit ⟨[], []⟩)
  | reopened {log : SqlLog} (h : Reach log) : Reach (wowSqlLogInit log.tables)
  | setMax {log : SqlLog} (h : Reach log) (m : Int) : Reach (wowSqlLogSetMaxEntrySize log m)
  | addEntry {log log' : SqlLog} {fuel : Nat} {ts ret : Int} (h : Reach log)
      (hadd : wowSqlLogAddEntry fuel log ts = some (ret, log')) : Reach log'
  | addEntryData {log : SqlLog} (h : Reach log) (d : DataRow) : Reach (wowSqlLogAddEntryData log d).2
  | readData {log log' : SqlLog} {fuel : Nat} {id ret : Int} {calls : List DataCall} (h : Reach log)
      (hread : wowSqlLogGetEntryData fuel log id = some (.returned ret calls log')) : Reach log'
  | readRange {log log' : SqlLog} {fuel : Nat} {range : Int × Int} {ret : Int} {calls : List DataCall} (h : Reach log)
      (hread : wowSqlLogGetEntry fuel log range.1 range.2 = some (.returned ret calls log')) : Reach log'

variable {log log' : SqlLog} {cursor : LogStmt → Cursor SqlRow} {t : LogStmt} {id : Int}
  {calls calls' : List DataCall} {fuel : Nat} {ret : Int} {range : Int × Int}

/-! ### A turn of the loops -/

theorem resultNext_statementExec {s : LogStmt} {more : Bool} {db : Db LogStmt SqlRow}
    (h : (log.sql.wowDatabaseStatementExec log.rows s).wowDatabaseResultNext log.rows = (more, db)) :
    (log.statementExec s).2.resultNext = (more, { log with sql := db }) := by
  have hrows : (log.statementExec s).2.rows = log.rows := rfl
  simp only [resultNext, hrows]
  rw [show (log.statementExec s).2.sql = log.sql.wowDatabaseStatementExec log.rows s from rfl, h]
  rfl

/-- The statement has a further row. -/
theorem turn_row {s : LogStmt} {c : Cursor SqlRow} (ht : log.sql.table = none)
    (hstep : sqlite3Step (log.rows s) (log.sql.cursor s) = (true, c)) :
    ∃ db, (log.statementExec s).2.resultNext = (true, { log with sql := db }) ∧
      db.Held s 1 (Function.update log.sql.cursor s c) := by
  obtain ⟨db, hnext, hheld⟩ := held_next_first log.rows (held_exec_row ht hstep)
  exact ⟨db, resultNext_statementExec hnext, hheld⟩

/-- The statement has none, and the one that is held goes on. -/
theorem turn_held {s : LogStmt} {c c' : Cursor SqlRow} (h : log.sql.Held t 1 cursor)
    (hstep : sqlite3Step (log.rows s) (cursor s) = (false, c'))
    (hnext : sqlite3Step (log.rows t) (Function.update cursor s none t) = (true, c)) :
    ∃ db, (log.statementExec s).2.resultNext = (true, { log with sql := db }) ∧
      db.Held t 1 (Function.update (Function.update cursor s none) t c) := by
  obtain ⟨db, hnext, hheld⟩ := held_next_row (held_exec_end h hstep) one_ne_zero hnext
  exact ⟨db, resultNext_statementExec hnext, hheld⟩

/-- Nor has the one that is held. -/
theorem turn_done {s : LogStmt} {c c' : Cursor SqlRow} (h : log.sql.Held t 1 cursor)
    (hstep : sqlite3Step (log.rows s) (cursor s) = (false, c'))
    (hnext : sqlite3Step (log.rows t) (Function.update cursor s none t) = (false, c)) :
    ∃ db, (log.statementExec s).2.resultNext = (false, { log with sql := db }) ∧
      db.Held t 1 (Function.update (Function.update cursor s none) t none) := by
  obtain ⟨db, hnext, hheld⟩ := held_next_done (held_exec_end h hstep) one_ne_zero hnext
  exact ⟨db, resultNext_statementExec hnext, hheld⟩

/-- A statement with rows starts again from its first one. -/
theorem step_of_rows {rows : List SqlRow} (h : rows ≠ []) : ∃ c, sqlite3Step rows none = (true, c) := by
  obtain ⟨r, rest, rfl⟩ := List.exists_cons_of_ne_nil h
  exact ⟨_, rfl⟩

theorem step_none : sqlite3Step ([] : List SqlRow) none = (false, none) := rfl

/-! ### The data of an id -/

/-- The loop over the data goes on from here. -/
structure Looping (log : SqlLog) : Prop where
  rows : log.rows .getEntryData ≠ []
  table : log.sql.table = none
  held : log.sql.cursor .getEntryData = none ∨ log.sql.Held .getEntryData 1 log.sql.cursor

/-- **A turn** fetches one of the rows, the first one after the last. -/
theorem looping_turn (h : Looping log) :
    ∃ db, (log.statementExec .getEntryData).2.resultNext = (true, { log with sql := db }) ∧
      Looping { log with sql := db } := by
  obtain ⟨first, hfirst⟩ := step_of_rows h.rows
  have hloop {cursor : LogStmt → Cursor SqlRow} {db : Db LogStmt SqlRow} (hheld : db.Held .getEntryData 1 cursor) :
      Looping { log with sql := db } := ⟨h.rows, hheld.table, Or.inr (hheld.cursor ▸ hheld)⟩
  cases hstep : sqlite3Step (log.rows .getEntryData) (log.sql.cursor .getEntryData) with
  | mk more c =>
    cases more with
    | true =>
      obtain ⟨db, hnext, hheld⟩ := turn_row h.table hstep
      exact ⟨db, hnext, hloop hheld⟩
    | false =>
      obtain hnone | hheld := h.held
      · rw [hnone, hfirst] at hstep
        cases hstep
      · obtain ⟨db, hnext, hheld⟩ := turn_held hheld hstep (by rw [Function.update_self]; exact hfirst)
        exact ⟨db, hnext, hloop hheld⟩

/-- A turn that fetches a row gives it to the callback. -/
theorem entryDataLoop_row (hturn : (log.statementExec .getEntryData).2.resultNext = (true, log')) :
    entryDataLoop (fuel + 1) log calls = if (valueBlob (log'.resultValue 1)).length > bufferSize then some .overflow
      else entryDataLoop fuel log' (calls ++ [⟨valueText (log'.resultValue 0), valueBlob (log'.resultValue 1),
        UInt8.ofNat (valueInt64 (log'.resultValue 2) % 256).toNat⟩]) := by
  simp only [entryDataLoop, statementExec_fst, ne_eq, not_true_eq_false, if_false, hturn, Bool.true_eq_false]

theorem entryDataLoop_end (hturn : (log.statementExec .getEntryData).2.resultNext = (false, log')) :
    entryDataLoop (fuel + 1) log calls = some (.returned 0 calls log') := by
  simp only [entryDataLoop, statementExec_fst, ne_eq, not_true_eq_false, if_false, hturn, if_true]

/-- **The read of data that there are** does not end. -/
theorem entryDataLoop_never (h : Looping log) :
    entryDataLoop fuel log calls ≠ some (.returned ret calls' log') := by
  induction fuel generalizing log calls with
  | zero => exact nofun
  | succ fuel ih =>
    obtain ⟨db, hturn, hloop⟩ := looping_turn h
    rw [entryDataLoop_row hturn]
    split
    · exact nofun
    · exact ih hloop

/-- **The read of data that there are not** goes through the rows of the statement that is held. -/
theorem drain (hrows : log.rows .getEntryData = []) (hcursor : cursor .getEntryData = none) (ht : t ≠ .getEntryData)
    (h : log.sql.Held t 1 cursor) (hloop : entryDataLoop fuel log calls = some (.returned ret calls' log')) :
    ret = 0 ∧ calls <+: calls' ∧ ∃ db, log' = { log with sql := db } ∧
    db.Held t 1 (Function.update cursor t none) := by
  have hstep : sqlite3Step (log.rows .getEntryData) (cursor .getEntryData) = (false, none) := by
    rw [hrows, hcursor, step_none]
  have hsame : Function.update cursor .getEntryData none = cursor := Db.update_idle hcursor
  induction fuel generalizing log calls cursor with
  | zero => cases hloop
  | succ fuel ih =>
    cases hnext : sqlite3Step (log.rows t) (cursor t) with
    | mk more c =>
      cases more with
      | true =>
        obtain ⟨db, hturn, hheld⟩ := turn_held h hstep (by rw [hsame]; exact hnext)
        rw [hsame] at hheld
        rw [entryDataLoop_row hturn] at hloop
        split at hloop
        · cases hloop
        · have hcur : Function.update cursor t c .getEntryData = none := by
            rw [Function.update_of_ne ht.symm, hcursor]
          have hrows' : ({ log with sql := db } : SqlLog).rows .getEntryData = [] := hrows
          obtain ⟨hret, hcalls, db', rfl, hheld'⟩ := ih hrows' hcur hheld hloop (by rw [hrows', hcur, step_none])
            (Db.update_idle hcur)
          rw [Function.update_idem] at hheld'
          exact ⟨hret, (List.prefix_append _ _).trans hcalls, db', rfl, hheld'⟩
      | false =>
        obtain ⟨db, hturn, hheld⟩ := turn_done h hstep (by rw [hsame]; exact hnext)
        rw [hsame] at hheld
        rw [entryDataLoop_end hturn] at hloop
        obtain ⟨rfl, rfl, rfl⟩ := Outcome.returned.inj (Option.some_inj.mp hloop)
        exact ⟨rfl, List.prefix_refl _, db, rfl, hheld⟩

/-- The id is bound. -/
def boundEntry (log : SqlLog) (id : Int) : SqlLog := { log with bindings := { log.bindings with entry := id } }

theorem rows_boundEntry : (log.boundEntry id).rows .getEntryData = (log.dataOf id).map dataRow := rfl

theorem getEntryData_eq (h : log.sql.cursor .getEntryData = none) :
    wowSqlLogGetEntryData fuel log id = entryDataLoop fuel (log.boundEntry id) [] := by
  simp only [wowSqlLogGetEntryData, statementBind, h, if_true, boundEntry]

/-- **A read that ends** has found nothing, and has left the statement that was held at its end. -/
theorem getEntryData_returned (h : log.sql.Held t 1 cursor) (hcursor : cursor .getEntryData = none)
    (ht : t ≠ .getEntryData) (hread : wowSqlLogGetEntryData fuel log id = some (.returned ret calls log')) :
    log.dataOf id = [] ∧ ret = 0 ∧ ∃ db, db.Held t 1 (Function.update cursor t none) ∧
      log' = { log.boundEntry id with sql := db } := by
  have hnone : log.sql.cursor .getEntryData = none := by rw [h.cursor, hcursor]
  rw [getEntryData_eq hnone] at hread
  have hempty : log.dataOf id = [] := by
    by_contra hne
    have hrows : (log.boundEntry id).rows .getEntryData ≠ [] := by
      rw [rows_boundEntry]
      exact fun hrows => hne (List.map_eq_nil_iff.mp hrows)
    exact entryDataLoop_never ⟨hrows, h.table, Or.inl hnone⟩ hread
  have hrows : (log.boundEntry id).rows .getEntryData = [] := by rw [rows_boundEntry, hempty, List.map_nil]
  obtain ⟨hret, -, db, hlog, hheld⟩ := drain hrows hcursor ht h hread
  exact ⟨hempty, hret, db, hheld, hlog⟩

/-! ### The entries of a range -/

/-- The loop over the entries goes on from here. -/
structure Stuck (log : SqlLog) : Prop where
  table : log.sql.table = none
  entry : log.sql.cursor .getEntryData = none
  range : log.sql.cursor .getEntriesWithRange = none
  rows : log.rows .getEntriesWithRange ≠ [] ∨
    log.sql.Held .getEntriesCount 1 log.sql.cursor ∧ log.sql.cursor .getEntriesCount = none

/-- **A turn** fetches an entry, or the count where there is none; the read of its data takes the statement to its
end, and the next turn starts it again. -/
theorem stuck_turn (h : Stuck log) : ∃ t db cursor,
    (log.statementExec .getEntriesWithRange).2.resultNext = (true, { log with sql := db }) ∧ db.Held t 1 cursor ∧
    cursor .getEntryData = none ∧ t ≠ .getEntryData ∧
    ∀ db' b, db'.Held t 1 (Function.update cursor t none) → b.range = log.bindings.range →
      Stuck { log with sql := db', bindings := b } := by
  by_cases hrows : log.rows .getEntriesWithRange = []
  · obtain ⟨hheld, hcount⟩ := h.rows.resolve_left (not_not_intro hrows)
    have hsame : Function.update log.sql.cursor .getEntriesWithRange none = log.sql.cursor :=
      Db.update_idle h.range
    have hrow : log.rows .getEntriesCount ≠ [] := List.cons_ne_nil _ _
    obtain ⟨c, hfirst⟩ := step_of_rows hrow
    obtain ⟨db, hturn, hdb⟩ := turn_held hheld (by rw [hrows, h.range, step_none]) (by rw [hsame, hcount, hfirst])
    rw [hsame] at hdb
    have hentry : LogStmt.getEntryData ≠ .getEntriesCount := nofun
    have hrange : LogStmt.getEntriesWithRange ≠ .getEntriesCount := nofun
    refine ⟨_, db, _, hturn, hdb, ?_, hentry.symm, fun db' b hdb' hb => ?_⟩
    · rw [Function.update_of_ne hentry, h.entry]
    · rw [Function.update_idem] at hdb'
      have hcur : db'.cursor .getEntriesCount = none := by rw [hdb'.cursor, Function.update_self]
      have hother {s : LogStmt} (hs : s ≠ .getEntriesCount) : db'.cursor s = log.sql.cursor s := by
        rw [hdb'.cursor, Function.update_of_ne hs]
      exact ⟨hdb'.table, (hother hentry).trans h.entry, (hother hrange).trans h.range,
        Or.inr ⟨hdb'.cursor ▸ hdb', hcur⟩⟩
  · obtain ⟨c, hfirst⟩ := step_of_rows hrows
    obtain ⟨db, hturn, hdb⟩ := turn_row h.table (by rw [h.range, hfirst])
    have hentry : LogStmt.getEntryData ≠ .getEntriesWithRange := nofun
    refine ⟨_, db, _, hturn, hdb, ?_, hentry.symm, fun db' b hdb' hb => ?_⟩
    · rw [Function.update_of_ne hentry, h.entry]
    · rw [Function.update_idem] at hdb'
      refine ⟨hdb'.table, ?_, ?_, Or.inl ?_⟩
      · rw [hdb'.cursor, Function.update_of_ne hentry, h.entry]
      · rw [hdb'.cursor, Function.update_self]
      · change (log.entriesIn b.range).map indexRow ≠ []
        rw [hb]
        exact hrows

/-- **The read of a range** does not end from there. -/
theorem entryLoop_never (h : Stuck log) : entryLoop fuel log calls ≠ some (.returned ret calls' log') := by
  induction fuel generalizing log calls with
  | zero => exact nofun
  | succ fuel ih =>
    obtain ⟨t, db, cursor, hturn, hheld, hcursor, ht, hstuck⟩ := stuck_turn h
    simp only [entryLoop, statementExec_fst, ne_eq, not_true_eq_false, if_false, hturn, Bool.true_eq_false]
    split
    · exact nofun
    · exact nofun
    · rename_i ret₁ calls₁ log₁ hread
      have hheld' : ({ log with sql := db } : SqlLog).sql.Held t 1 cursor := hheld
      obtain ⟨-, -, db', hdb', rfl⟩ := getEntryData_returned hheld' hcursor ht hread
      exact ih (hstuck db' _ hdb' rfl)

/-- The range is bound. -/
def boundRange (log : SqlLog) (range : Int × Int) : SqlLog :=
  { log with bindings := { log.bindings with range := range } }

theorem rows_boundRange :
    (log.boundRange range).rows .getEntriesWithRange = (log.entriesIn range).map indexRow := rfl

theorem getEntry_eq (h : log.sql.cursor .getEntriesWithRange = none) :
    wowSqlLogGetEntry fuel log range.1 range.2 = entryLoop fuel (log.boundRange range) [] := by
  simp only [wowSqlLogGetEntry, statementBind, h, if_true, boundRange]

/-! ### Both reads -/

/-- A read that ends leaves the count at its end. -/
theorem Ready.of_read (h : log.Ready) {db : Db LogStmt SqlRow} (hdb : log'.sql = db)
    (hheld : db.Held .getEntriesCount 1 (Function.update log.sql.cursor .getEntriesCount none)) : log'.Ready := by
  subst hdb
  refine ⟨⟨_, hheld⟩, fun s hs => ?_, ?_⟩
  · rw [hheld.cursor, Function.update_of_ne hs]
    exact h.idle s hs
  · rw [hheld.cursor, Function.update_self]
    exact nofun

/-- Binding changes nothing that is held. -/
theorem Ready.of_sql (h : log.Ready) (hsql : log'.sql = log.sql) : log'.Ready :=
  h.of_held rfl (hsql ▸ h.held')

/-- Nothing to read, and nothing has been read. -/
theorem turn_empty (h : log.Ready) (hfresh : log.Fresh) {s : LogStmt} (hs : s ≠ .getEntriesCount)
    (hrows : log.rows s = []) : ∃ db, (log.statementExec s).2.resultNext = (false, { log with sql := db }) ∧
      db.Held .getEntriesCount 1 (Function.update log.sql.cursor .getEntriesCount none) := by
  have hsame : Function.update log.sql.cursor s none = log.sql.cursor := Db.update_idle (h.idle s hs)
  obtain ⟨⟨r, rest⟩, hc⟩ := Option.ne_none_iff_exists'.mp hfresh
  obtain rfl : rest = [] := h.counted _ hc
  obtain ⟨db, hturn, hheld⟩ := turn_done h.held' (by rw [hrows, h.idle s hs, step_none]) (by rw [hsame, hc, sqlite3Step])
  exact ⟨db, hturn, hsame ▸ hheld⟩

/-- **The data of an id** are read back if and only if there are none and nothing has been read before. -/
theorem readsData_iff (h : log.Ready) : log.ReadsData id ↔ log.dataOf id = [] ∧ log.Fresh := by
  have hentry : LogStmt.getEntryData ≠ .getEntriesCount := nofun
  have hidle := h.idle _ hentry
  have hready : (log.boundEntry id).Ready := h.of_sql rfl
  have hrows (hempty : log.dataOf id = []) : (log.boundEntry id).rows .getEntryData = [] := by
    rw [rows_boundEntry, hempty, List.map_nil]
  constructor
  · rintro ⟨fuel, calls, log', hread, hperm⟩
    obtain ⟨hempty, -⟩ := getEntryData_returned h.held' hidle hentry.symm hread
    refine ⟨hempty, fun hnone => ?_⟩
    rw [hempty, List.map_nil] at hperm
    obtain rfl := hperm.eq_nil
    rw [getEntryData_eq hidle] at hread
    cases fuel with
    | zero => cases hread
    | succ fuel =>
      -- the count is fetched once more, and the callback called
      have hsame : Function.update log.sql.cursor .getEntryData none = log.sql.cursor := Db.update_idle hidle
      have hrow : log.rows .getEntriesCount ≠ [] := List.cons_ne_nil _ _
      obtain ⟨c, hfirst⟩ := step_of_rows hrow
      obtain ⟨db, hturn, hheld⟩ := turn_held hready.held' (by rw [hrows hempty, hready.idle _ hentry, step_none])
        (by rw [show (log.boundEntry id).sql = log.sql from rfl, hsame, hnone]; exact hfirst)
      rw [entryDataLoop_row hturn] at hread
      split at hread
      · cases hread
      · have hcur : Function.update log.sql.cursor .getEntriesCount c .getEntryData = none := by
          rw [Function.update_of_ne hentry, hidle]
        rw [show (log.boundEntry id).sql = log.sql from rfl, hsame] at hheld
        have hrows' : ({ log.boundEntry id with sql := db } : SqlLog).rows .getEntryData = [] := hrows hempty
        obtain ⟨-, hcalls, -⟩ := drain hrows' hcur hentry.symm hheld hread
        exact absurd (List.prefix_nil.mp hcalls) (List.cons_ne_nil _ _)
  · rintro ⟨hempty, hfresh⟩
    obtain ⟨db, hturn, -⟩ := turn_empty hready hfresh hentry (hrows hempty)
    refine ⟨1, [], { log.boundEntry id with sql := db }, ?_, ?_⟩
    · rw [getEntryData_eq hidle]
      exact entryDataLoop_end hturn
    · rw [hempty, List.map_nil]

theorem getEntry_ne_zero (h : log.Ready)
    (hread : wowSqlLogGetEntry fuel log range.1 range.2 = some (.returned ret calls log')) : fuel ≠ 0 := by
  rintro rfl
  rw [getEntry_eq (h.idle _ nofun)] at hread
  cases hread

/-- The read of a range ends if and only if there is no entry in it and nothing has been read before. -/
theorem getEntry_returned (h : log.Ready)
    (hread : wowSqlLogGetEntry fuel log range.1 range.2 = some (.returned ret calls log')) :
    log.entriesIn range = [] ∧ log.Fresh := by
  have hidle := h.idle .getEntriesWithRange nofun
  rw [getEntry_eq hidle] at hread
  by_contra hcond
  have hstuck : Stuck (log.boundRange range) := by
    refine ⟨h.held'.table, h.idle _ nofun, hidle, ?_⟩
    by_cases hempty : log.entriesIn range = []
    · have hnone : log.sql.cursor .getEntriesCount = none := by
        by_contra hfresh
        exact hcond ⟨hempty, hfresh⟩
      exact Or.inr ⟨h.held', hnone⟩
    · rw [rows_boundRange]
      exact Or.inl fun hrows => hempty (List.map_eq_nil_iff.mp hrows)
  exact entryLoop_never hstuck hread

theorem getEntry_empty (h : log.Ready) (hempty : log.entriesIn range = []) (hfresh : log.Fresh) :
    ∃ db, db.Held .getEntriesCount 1 (Function.update log.sql.cursor .getEntriesCount none) ∧
      ∀ fuel, wowSqlLogGetEntry (fuel + 1) log range.1 range.2 =
        some (.returned 0 [] { log.boundRange range with sql := db }) := by
  have hready : (log.boundRange range).Ready := h.of_sql rfl
  have hrows : (log.boundRange range).rows .getEntriesWithRange = [] := by rw [rows_boundRange, hempty, List.map_nil]
  have hrange : LogStmt.getEntriesWithRange ≠ .getEntriesCount := nofun
  obtain ⟨db, hturn, hheld⟩ := turn_empty hready hfresh hrange hrows
  refine ⟨db, hheld, fun fuel => ?_⟩
  rw [getEntry_eq (h.idle _ hrange)]
  simp only [entryLoop, statementExec_fst, ne_eq, not_true_eq_false, if_false, hturn, if_true]

/-- **The entries of a range** likewise. -/
theorem readsRange_iff (h : log.Ready) : log.ReadsRange range ↔ log.entriesIn range = [] ∧ log.Fresh := by
  constructor
  · rintro ⟨fuel, calls, log', hread, -⟩
    exact getEntry_returned h hread
  · rintro ⟨hempty, hfresh⟩
    obtain ⟨db, -, hread⟩ := getEntry_empty h hempty hfresh
    refine ⟨1, [], _, hread 0, ?_⟩
    rw [hempty, List.flatMap_nil]

/-! ### Every log -/

/-- Whatever has been done with a log, it is ready for the next call. -/
theorem Reach.ready (h : Reach log) : log.Ready := by
  induction h with
  | created => exact (ready_init _).1
  | reopened _ _ => exact (ready_init _).1
  | setMax _ m ih => exact ready_setMax ih m
  | addEntry _ hadd ih =>
    rw [addEntry_eq ih] at hadd
    split at hadd
    · cases hadd
    · obtain ⟨-, rfl⟩ := Prod.mk.inj (Option.some_inj.mp hadd)
      exact ready_added ih _
  | addEntryData _ d ih => exact ready_addEntryData ih d
  | readData _ hread ih =>
    obtain ⟨-, -, db, hheld, rfl⟩ := getEntryData_returned ih.held' (ih.idle _ nofun) nofun hread
    exact ih.of_read rfl hheld
  | readRange _ hread ih =>
    obtain ⟨hempty, hfresh⟩ := getEntry_returned ih hread
    obtain ⟨db, hheld, hall⟩ := getEntry_empty ih hempty hfresh
    obtain ⟨fuel, rfl⟩ := Nat.exists_eq_add_one_of_ne_zero (getEntry_ne_zero ih hread)
    rw [hall fuel] at hread
    obtain ⟨-, -, rfl⟩ := Outcome.returned.inj (Option.some_inj.mp hread)
    exact ih.of_read rfl hheld

/-- **What is read back**, for every log that the calls lead to. -/
theorem reads_iff (h : Reach log) (id : Int) (range : Int × Int) :
    (log.ReadsData id ↔ log.dataOf id = [] ∧ log.Fresh) ∧
    (log.ReadsRange range ↔ log.entriesIn range = [] ∧ log.Fresh) :=
  ⟨readsData_iff h.ready, readsRange_iff h.ready⟩

/-- A log with one entry at time 5, and one data row of it. -/
def oneEntry : SqlLog :=
  let log := (wowSqlLogSetMaxEntrySize (wowSqlLogInit ⟨[], []⟩) 1).added 5
  (wowSqlLogAddEntryData log ⟨1, ⟨[112], by decide⟩, [7], 3⟩).2

theorem reach_oneEntry : Reach oneEntry := by
  have hmax : Reach (wowSqlLogSetMaxEntrySize (wowSqlLogInit ⟨[], []⟩) 1) := .setMax .created 1
  have hadd := addEntry_eq hmax.ready 0 5
  rw [if_neg (by decide)] at hadd
  exact .addEntryData (.addEntry hmax hadd) _

/-- The other id has no data, and is read; the range of all times is not. -/
theorem reads_demo : oneEntry.ReadsData 2 ∧ ¬ oneEntry.ReadsRange (0, 9) := by
  obtain ⟨hdata, hrange⟩ := reads_iff reach_oneEntry 2 (0, 9)
  exact ⟨hdata.mpr ⟨by decide, nofun⟩, fun h => absurd (hrange.mp h).1 (by decide)⟩

/-- The read of its only data row does not end, and neither does that of its range. -/
theorem not_reads : Reach oneEntry ∧ ¬ oneEntry.ReadsData 1 ∧ ¬ oneEntry.ReadsRange (5, 5) := by
  refine ⟨reach_oneEntry, fun h => ?_, fun h => ?_⟩
  · exact absurd (congrArg List.length ((readsData_iff reach_oneEntry.ready).mp h).1) (by decide)
  · exact absurd ((readsRange_iff reach_oneEntry.ready).mp h).1 (by decide)

end Wow.Iot.SqlLog
