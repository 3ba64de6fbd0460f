import Wow.Iot.Database
import Wow.Base.CString

/-!
# Wow.Iot.SqlLog — the log of `wow_database_log.c`

Two tables, the index of the entries and their data, and ten prepared statements over the database of
`Wow.Iot.Database`.  What a statement yields is read off the tables and its bindings at its first step; a new entry
has the id that follows the greatest one.  SQLite reports no error.

The loops of the code take fuel: `none` is a call that has not returned.
-/

namespace Wow.Iot

/-! ### The tables -/

/-- A row of `tbl_entry_log_data`. -/
structure DataRow where
  id : Int
  desc : CStr
  value : List UInt8
  reason : UInt8

/-- `tbl_entry_log_index`, rows of id and timestamp in the order of the ids, and `tbl_entry_log_data`. -/
structure Tables where
  index : List (Int × Int)
  data : List DataRow

namespace Tables

def maxId (t : Tables) : Int := (t.index.map Prod.fst).foldl max 0

/-- The entry of the least id among those whose timestamp is extreme. -/
def extreme (t : Tables) (better : Int × Int → Int × Int → Bool) : Option (Int × Int) :=
  t.index.find? fun e => t.index.all fun e' => !better e' e

end Tables

/-- `DbSqlValue_T`, of the types that the log stores. -/
inductive DbSqlValue where
  | int64 (n : Int)
  | text (s : CStr)
  | blob8 (b : List UInt8)

abbrev SqlRow : Type := List DbSqlValue

/-- The prepared statements of the log. -/
inductive LogStmt where
  | insertEntryStmt
  | insertEntryDataStmt
  | getEntriesWithRange
  | getEntriesAfter
  | getEntryData
  | getOldEntry
  | getNewEntry
  | getEntriesCount
  | deleteEntryData
  | deleteEntry
  deriving DecidableEq

/-- The values that are bound to the statements with rows. -/
structure Bindings where
  range : Int × Int
  entry : Int

/-- `sql_log_t`, the bindings of its statements and the tables in the file. -/
structure SqlLog where
  sql : Db LogStmt SqlRow
  curEntrySize : Int
  maxEntrySize : Int
  bindings : Bindings
  tables : Tables

namespace SqlLog

/-! ### The statements -/

def indexRow (e : Int × Int) : SqlRow := [.int64 e.1, .int64 e.2]

def dataRow (d : DataRow) : SqlRow := [.text d.desc, .blob8 d.value, .int64 d.reason.toNat]

/-- The entries in a range of timestamps. -/
def entriesIn (log : SqlLog) (range : Int × Int) : List (Int × Int) :=
  log.tables.index.filter fun e => range.1 ≤ e.2 ∧ e.2 ≤ range.2

/-- The data rows of an id. -/
def dataOf (log : SqlLog) (id : Int) : List DataRow := log.tables.data.filter fun d => d.id = id

/-- What a statement yields now. -/
def rows (log : SqlLog) : LogStmt → List SqlRow
  | .getEntriesWithRange => (log.entriesIn log.bindings.range).map indexRow
  | .getEntryData => (log.dataOf log.bindings.entry).map dataRow
  | .getOldEntry => (log.tables.extreme fun e e' => e.2 < e'.2 ∨ e.2 = e'.2 ∧ e.1 < e'.1).toList.map indexRow
  | .getNewEntry => (log.tables.extreme fun e e' => e'.2 < e.2 ∨ e.2 = e'.2 ∧ e'.1 < e.1).toList.map indexRow
  | .getEntriesCount => [[.int64 log.tables.index.length]]
  | .getEntriesAfter | .insertEntryStmt | .insertEntryDataStmt | .deleteEntryData | .deleteEntry => []

/-- `wow_database_statement_exec`: the code it returns. -/
def statementExec (log : SqlLog) (s : LogStmt) : Int × SqlLog :=
  (0, { log with sql := log.sql.wowDatabaseStatementExec log.rows s })

/-- `wow_database_result_next`. -/
def resultNext (log : SqlLog) : Bool × SqlLog :=
  let r := log.sql.wowDatabaseResultNext log.rows
  (r.1, { log with sql := r.2 })

/-- `wow_database_statement_bind`: not in the middle of an iteration. -/
def statementBind (log : SqlLog) (s : LogStmt) (bound : SqlLog) : Option SqlLog :=
  if log.sql.cursor s = none then some bound else none

/-- `wow_database_result_value` of the row that the last call has returned. -/
def resultValue (log : SqlLog) (nCol : Nat) : Option DbSqlValue := log.sql.readRow.bind fun row => row[nCol]?

/-- `database_value_int64`; a text is never read as a number. -/
def valueInt64 : Option DbSqlValue → Int
  | some (.int64 n) => n
  | _ => 0

/-- `database_value_text`. -/
def valueText : Option DbSqlValue → Option CStr
  | some (.text s) => some s
  | _ => none

/-- `database_value_blob` with `database_value_blob_size`. -/
def valueBlob : Option DbSqlValue → List UInt8
  | some (.blob8 b) => b
  | _ => []

/-! ### Opening -/

/-- `wow_sql_log_init` of a file with these tables. -/
def wowSqlLogInit (tables : Tables) : SqlLog :=
  let empty : Table SqlRow := ⟨[], by decide⟩
  -- the two tables are created, and each statement that is prepared clears the result
  let sql : Db LogStmt SqlRow := ((Db.init.wowDatabaseExec empty).wowDatabaseExec empty).resultExit
  let log := (SqlLog.mk sql 0 0 ⟨(0, 0), 0⟩ tables).statementExec .getEntriesCount
  let row := log.2.resultNext
  { row.2 with curEntrySize := valueInt64 (row.2.resultValue 0) }

/-- `wow_sql_log_SetMaxEntrySize`. -/
def wowSqlLogSetMaxEntrySize (log : SqlLog) (s64Size : Int) : SqlLog := { log with maxEntrySize := s64Size }

/-! ### Reading -/

/-- What the callback is given. -/
structure DataCall where
  desc : Option CStr
  data : List UInt8
  reason : UInt8
  deriving DecidableEq

/-- `sizeof(data)`. -/
def bufferSize : Nat := 2048

/-- The end of a read: the code, the calls of the callback and the log, or data that do not fit the buffer. -/
inductive Outcome where
  | overflow
  | returned (ret : Int) (calls : List DataCall) (log : SqlLog)

/-- The loop of `wow_sql_log_getEntryData`. -/
def entryDataLoop : Nat → SqlLog → List DataCall → Option Outcome
  | 0, _, _ => none
  | fuel + 1, log, calls =>
    let (ret, log) := log.statementExec .getEntryData
    if ret ≠ 0 then some (.returned 0 calls log)
    else
      let (row, log) := log.resultNext
      if row = false then some (.returned 0 calls log)
      else
        let data := valueBlob (log.resultValue 1)
        if data.length > bufferSize then some .overflow
        else
          let reason := UInt8.ofNat (valueInt64 (log.resultValue 2) % 256).toNat
          entryDataLoop fuel log (calls ++ [⟨valueText (log.resultValue 0), data, reason⟩])

/-- `wow_sql_log_getEntryData`. -/
def wowSqlLogGetEntryData (fuel : Nat) (log : SqlLog) (s64Idx : Int) : Option Outcome :=
  match log.statementBind .getEntryData { log with bindings := { log.bindings with entry := s64Idx } } with
  | none => some (.returned (-1) [] log)
  | some log => entryDataLoop fuel log []

/-- The loop of `wow_sql_log_getEntry`. -/
def entryLoop : Nat → SqlLog → List DataCall → Option Outcome
  | 0, _, _ => none
  | fuel + 1, log, calls =>
    let (ret, log) := log.statementExec .getEntriesWithRange
    if ret ≠ 0 then some (.returned 0 calls log)
    else
      let (row, log) := log.resultNext
      if row = false then some (.returned 0 calls log)
      else
        match wowSqlLogGetEntryData fuel log (valueInt64 (log.resultValue 0)) with
        | none => none
        | some .overflow => some .overflow
        | some (.returned _ calls' log) => entryLoop fuel log (calls ++ calls')

/-- `wow_sql_log_getEntry`. -/
def wowSqlLogGetEntry (fuel : Nat) (log : SqlLog) (s64Stime s64Etime : Int) : Option Outcome :=
  match log.statementBind .getEntriesWithRange { log with bindings := { log.bindings with range := (s64Stime, s64Etime) } } with
  | none => some (.returned (-1) [] log)
  | some log => entryLoop fuel log []

/-- The loop of `wow_sql_log_getOldestEntries`: the code is looked at a second time, and not the row. -/
def oldestLoop : Nat → SqlLog → Int → Option (Int × SqlLog)
  | 0, _, _ => none
  | fuel + 1, log, entryIdx =>
    let (ret, log) := log.statementExec .getOldEntry
    if ret ≠ 0 then some (entryIdx, log)
    else
      let (row, log) := log.resultNext
      if ret ≠ 0 then some (entryIdx, log)
      else oldestLoop fuel log (valueInt64 (if row then log.resultValue 0 else none))

/-! ### Writing -/

/-- `sql_log_deleteOldestEntry`. -/
def deleteOldestEntry (fuel : Nat) (log : SqlLog) : Option SqlLog :=
  match oldestLoop fuel log 0 with
  | none => none
  | some (id, log) =>
    match log.statementBind .deleteEntryData log with
    | none => some log
    | some log =>
      let log := { log with tables := { log.tables with data := log.tables.data.filter fun d => d.id ≠ id } }
      let log := (log.statementExec .deleteEntryData).2
      match log.statementBind .deleteEntry log with
      | none => some log
      | some log =>
        let log := { log with tables := { log.tables with index := log.tables.index.filter fun e => e.1 ≠ id } }
        some (log.statementExec .deleteEntry).2

/-- `wow_sql_log_addEntry`: what it returns. -/
def wowSqlLogAddEntry (fuel : Nat) (log : SqlLog) (s64Timestamp : Int) : Option (Int × SqlLog) :=
  match log.statementBind .insertEntryStmt log with
  | none => some (-1, log)
  | some log =>
    let entry := (log.tables.maxId + 1, s64Timestamp)
    let log := { log with tables := { log.tables with index := log.tables.index ++ [entry] } }
    let (ret, log) := log.statementExec .insertEntryStmt
    if ret ≠ 0 then some (-1, log)
    else
      let log := { log with curEntrySize := log.curEntrySize + 1 }
      if log.curEntrySize > log.maxEntrySize then
        (deleteOldestEntry fuel log).map fun log => (log.curEntrySize, log)
      else some (log.curEntrySize, log)

/-- `wow_sql_log_addEntryData`. -/
def wowSqlLogAddEntryData (log : SqlLog) (d : DataRow) : Int × SqlLog :=
  match log.statementBind .insertEntryDataStmt log with
  | none => (-1, log)
  | some log =>
    let log := { log with tables := { log.tables with data := log.tables.data ++ [d] } }
    log.statementExec .insertEntryDataStmt

end SqlLog

end Wow.Iot
