import Wow.Iot.SqlLog
import Wow.Iot.DatabaseRows

/-!
# Wow.Iot.SqlLogState — which statement the database holds while the log is used

The count that is taken when the log is opened leaves its statement with the database, on its only row.  The
statements that write yield no row, so it stays there.

* `Held`: the statement and the cursors, and what the calls of the database do to them.
* `Ready`: the state between two calls of the log; `ready_init`, `ready_added`, `ready_addEntryData`.
* `oldestLoop_never`: the search for the oldest entry does not come to an end.
-/

namespace Wow.Iot

/-! ### A statement that is held -/

namespace Db

variable {ι R : Type} [DecidableEq ι]

/-- The statement `t` is iterated over, with these cursors. -/
structure Held (db : Db ι R) (t : ι) (rid : Int) (cursor : ι → Cursor R) : Prop where
  table : db.table = none
  statement : db.statement = some t
  count : db.count = -1
  rid : db.rid = rid
  cursor : db.cursor = cursor

section Held

variable {rows : ι → List R} {db : Db ι R} {s t : ι} {rid : Int} {cursor : ι → Cursor R} {c : Cursor R}

/-- A statement that is at its end is left there. -/
theorem update_idle (h : cursor s = none) : Function.update cursor s none = cursor := by
  rw [← h, Function.update_eq_self]

/-- A statement with a row is held from its execution on. -/
theorem held_exec_row (ht : db.table = none) (hstep : sqlite3Step (rows s) (db.cursor s) = (true, c)) :
    (db.wowDatabaseStatementExec rows s).Held s 0 (Function.update db.cursor s c) := by
  simp only [wowDatabaseStatementExec, sqlite3StatementExec, hstep, setCursor]
  exact ⟨ht, rfl, rfl, rfl, rfl⟩

/-- A statement that has no further row leaves the one that is held. -/
theorem held_exec_end (h : db.Held t rid cursor) (hstep : sqlite3Step (rows s) (cursor s) = (false, c)) :
    (db.wowDatabaseStatementExec rows s).Held t rid (Function.update cursor s none) := by
  rw [← h.cursor] at hstep
  simp only [wowDatabaseStatementExec, sqlite3StatementExec, hstep, setCursor]
  exact ⟨h.table, h.statement, h.count, h.rid, by rw [h.cursor]⟩

/-- A statement without a row as well. -/
theorem held_exec_done (h : db.Held t rid cursor) (hs : cursor s = none) (hrows : rows s = []) :
    (db.wowDatabaseStatementExec rows s).Held t rid cursor := by
  have hstep : sqlite3Step (rows s) (cursor s) = (false, none) := by rw [hrows, hs, sqlite3Step]
  have hheld := held_exec_end h hstep
  rwa [update_idle hs] at hheld

/-- The first row after the execution. -/
theorem held_next_first (rows : ι → List R) (h : db.Held t 0 cursor) :
    ∃ db', db.wowDatabaseResultNext rows = (true, db') ∧ db'.Held t 1 cursor := by
  refine ⟨_, next_first h.table h.statement h.count h.rid, ?_⟩
  exact ⟨h.table, h.statement, h.count, rfl, h.cursor⟩

/-- A further row. -/
theorem held_next_row (h : db.Held t rid cursor) (hrid : rid ≠ 0)
    (hstep : sqlite3Step (rows t) (cursor t) = (true, c)) :
    ∃ db', db.wowDatabaseResultNext rows = (true, db') ∧ db'.Held t rid (Function.update cursor t c) := by
  rw [← h.cursor] at hstep
  refine ⟨_, next_row h.table h.statement h.count (h.rid ▸ hrid) hstep, ?_⟩
  exact ⟨h.table, h.statement, h.count, h.rid, by simp only [setCursor, h.cursor]⟩

/-- No further row. -/
theorem held_next_done (h : db.Held t rid cursor) (hrid : rid ≠ 0)
    (hstep : sqlite3Step (rows t) (cursor t) = (false, c)) :
    ∃ db', db.wowDatabaseResultNext rows = (false, db') ∧ db'.Held t rid (Function.update cursor t none) := by
  rw [← h.cursor] at hstep
  refine ⟨_, next_end h.table h.statement (h.rid ▸ hrid) hstep, ?_⟩
  exact ⟨h.table, h.statement, h.count, h.rid, by simp only [setCursor, h.cursor]⟩

omit [DecidableEq ι] in
theorem Held.readRow (h : db.Held t rid cursor) : db.readRow = (cursor t).map Prod.fst := by
  simp only [Db.readRow, h.table, h.statement, h.cursor, Option.bind_some]

end Held

end Db

/-! ### The log between two calls -/

namespace SqlLog

open Db

/-- The count is held, and no other statement is in the middle of an iteration. -/
structure Ready (log : SqlLog) : Prop where
  held : ∃ cursor, log.sql.Held .getEntriesCount 1 cursor
  idle : ∀ s, s ≠ .getEntriesCount → log.sql.cursor s = none
  counted : ∀ c ∈ log.sql.cursor .getEntriesCount, c.2 = []

variable {log log' : SqlLog}

theorem Ready.held' (h : log.Ready) : log.sql.Held .getEntriesCount 1 log.sql.cursor := by
  obtain ⟨cursor, hheld⟩ := h.held
  exact ⟨hheld.table, hheld.statement, hheld.count, hheld.rid, rfl⟩

@[simp] theorem statementExec_fst (log : SqlLog) (s : LogStmt) : (log.statementExec s).1 = 0 := rfl

/-- Only the cursors and what is held matter. -/
theorem Ready.of_held {cursor : LogStmt → Cursor SqlRow} (h : log.Ready) (hc : log.sql.cursor = cursor)
    (hheld : log'.sql.Held .getEntriesCount 1 cursor) : log'.Ready := by
  refine ⟨⟨cursor, hheld⟩, fun s hs => ?_, ?_⟩
  · rw [hheld.cursor, ← hc]
    exact h.idle s hs
  · rw [hheld.cursor, ← hc]
    exact h.counted

/-- **Opening** takes the count. -/
theorem ready_init (tables : Tables) : (wowSqlLogInit tables).Ready ∧
    (wowSqlLogInit tables).curEntrySize = tables.index.length ∧
    (wowSqlLogInit tables).sql.cursor .getEntriesCount = some ([.int64 tables.index.length], []) := by
  refine ⟨⟨⟨_, rfl, rfl, rfl, rfl, rfl⟩, fun s hs => Function.update_of_ne hs _ _, ?_⟩, rfl, rfl⟩
  rintro c hc
  obtain rfl := Option.some_inj.mp hc
  rfl

/-- **The oldest entry** is never found: nothing ends the loop. -/
theorem oldestLoop_never (fuel : Nat) (log : SqlLog) (id : Int) : oldestLoop fuel log id = none := by
  induction fuel generalizing log id with
  | zero => rfl
  | succ fuel ih =>
    simp only [oldestLoop, statementExec, ne_eq, not_true_eq_false, if_false]
    exact ih _ _

theorem deleteOldestEntry_never (fuel : Nat) (log : SqlLog) : deleteOldestEntry fuel log = none := by
  rw [deleteOldestEntry, oldestLoop_never]

/-- The log after a new entry. -/
def added (log : SqlLog) (ts : Int) : SqlLog :=
  let log := { log with tables := { log.tables with index := log.tables.index ++ [(log.tables.maxId + 1, ts)] } }
  { (log.statementExec .insertEntryStmt).2 with curEntrySize := log.curEntrySize + 1 }

/-- **A new entry**: the call returns if and only if nothing has to be deleted. -/
theorem addEntry_eq (h : log.Ready) (fuel : Nat) (ts : Int) : wowSqlLogAddEntry fuel log ts =
    if log.curEntrySize + 1 > log.maxEntrySize then none else some (log.curEntrySize + 1, log.added ts) := by
  simp only [wowSqlLogAddEntry, statementBind, h.idle .insertEntryStmt nofun, if_true, statementExec, ne_eq,
    not_true_eq_false, if_false, deleteOldestEntry_never, Option.map_none]
  rfl

theorem ready_added (h : log.Ready) (ts : Int) : (log.added ts).Ready :=
  h.of_held rfl (held_exec_done h.held' (h.idle .insertEntryStmt nofun) rfl)

theorem ready_addEntryData (h : log.Ready) (d : DataRow) : (wowSqlLogAddEntryData log d).2.Ready := by
  simp only [wowSqlLogAddEntryData, statementBind, h.idle .insertEntryDataStmt nofun, if_true]
  exact h.of_held rfl (held_exec_done h.held' (h.idle .insertEntryDataStmt nofun) rfl)

theorem ready_setMax (h : log.Ready) (m : Int) : (wowSqlLogSetMaxEntrySize log m).Ready := h.of_held rfl h.held'

end SqlLog

end Wow.Iot
