import Mathlib.Logic.Function.Basic
import Mathlib.Tactic.Common
import Mathlib.Algebra.Order.Ring.Nat

/-!
# Wow.Iot.Database — the results of `wow_database.c` and of its SQLite driver

A prepared statement is the rows that it yields, with a cursor.  The rows are those that it would yield now
(`rows s`): bindings and tables may have changed between two runs of it.  The driver keeps the last table and the
last statement, the generic layer an iterator and the item that it is on.

A row is read as a whole, through the row iterator that `wow_database_result_next` returns.
-/

namespace Wow.Iot

/-! ### SQLite -/

/-- A statement that has been stepped: the row that it is on, and those to come. -/
abbrev Cursor (R : Type) : Type := Option (R × List R)

/-- `sqlite3_step`: whether there is a row. -/
def sqlite3Step {R : Type} (rows : List R) : Cursor R → Bool × Cursor R
  | none =>
    match rows with
    | [] => (false, none)
    | r :: rest => (true, some (r, rest))
  | some (r, rest) =>
    match rest with
    | [] => (false, some (r, []))
    | r' :: rest' => (true, some (r', rest'))

/-- What `sqlite3_get_table` returns: it counts its rows in an `int`. -/
abbrev Table (R : Type) : Type := { rows : List R // rows.length < 2 ^ 31 }

/-! ### The state -/

/-- `DbSqlImpl_T` with `DbSqlite3Result_T`, and the cursors of the statements. -/
structure Db (ι R : Type) where
  /-- `base.result` is the row iterator. -/
  result : Bool
  item : Int
  /-- `result.result`: the rows of the last table. -/
  table : Option (Table R)
  statement : Option ι
  count : Int
  rid : Int
  /-- `result.row.row`. -/
  row : Nat
  cursor : ι → Cursor R

namespace Db

variable {ι R : Type} [DecidableEq ι]

/-- `db_sqlite3_init`. -/
def init : Db ι R := ⟨false, 0, none, none, 0, 0, 0, fun _ => none⟩

def setCursor (db : Db ι R) (s : ι) (c : Cursor R) : Db ι R := { db with cursor := Function.update db.cursor s c }

/-! ### The driver -/

/-- `db_sqlite3_result_row_iterator_next`. -/
def rowIteratorNext (rows : ι → List R) (db : Db ι R) : Int × Db ι R :=
  match db.table with
  | some _ => if db.rid < db.count ∧ -1 ≤ db.rid then (db.rid, { db with rid := db.rid + 1 }) else (-1, db)
  | none =>
    match db.statement with
    | none => (-1, db)
    | some s =>
      if db.rid = 0 then (0, { db with rid := 1 })
      else match sqlite3Step (rows s) (db.cursor s) with
        | (true, c) => (0, db.setCursor s c)
        | (false, _) => (-1, db.setCursor s none)

/-- `db_sqlite3_result_load`: there is something to iterate over. -/
def resultLoad (db : Db ι R) : Bool := db.table.isSome || db.statement.isSome

/-- An `int` where a `size_t` is expected. -/
def toSize (n : Int) : Nat := (n % 2 ^ 64).toNat

/-- `db_sqlite3_result_row_iterator_item`. -/
def rowIteratorItem (db : Db ι R) (itor : Nat) : Option (Db ι R) :=
  if db.resultLoad = true ∧ itor < toSize db.count then some { db with row := itor } else none

/-- `db_sqlite3_result_exit`. -/
def resultExit (db : Db ι R) : Db ι R := { db with table := none, statement := none, rid := 0, count := 0 }

/-- `db_sqlite3_exec` of a text with these rows. -/
def sqlite3Exec (db : Db ι R) (rows : Table R) : Db ι R :=
  if rows.1.isEmpty then db.resultExit else { db.resultExit with table := some rows, count := rows.1.length }

/-- `db_sqlite3_statement_exec`. -/
def sqlite3StatementExec (rows : ι → List R) (db : Db ι R) (s : ι) : Db ι R :=
  match sqlite3Step (rows s) (db.cursor s) with
  | (true, c) => { db.setCursor s c with statement := some s, rid := 0, count := -1 }
  | (false, _) => db.setCursor s none

/-- The columns of the row iterator: of a table, if there is one, else of the statement. -/
def readRow (db : Db ι R) : Option R :=
  match db.table with
  | some t => t.1[db.row]?
  | none => db.statement.bind fun s => (db.cursor s).map Prod.fst

/-! ### The generic layer -/

/-- `wow_database_exec`. -/
def wowDatabaseExec (db : Db ι R) (rows : Table R) : Db ι R := db.sqlite3Exec rows

/-- `wow_database_statement_exec`. -/
def wowDatabaseStatementExec (rows : ι → List R) (db : Db ι R) (s : ι) : Db ι R :=
  sqlite3StatementExec rows { db with result := false } s

/-- `wow_iterator_next` of an iterator that may be `NULL`. -/
def iteratorNext (rows : ι → List R) (loaded : Bool) (db : Db ι R) : Int × Db ι R :=
  if loaded then db.rowIteratorNext rows else (-1, db)

/-- `wow_iterator_size` of an iterator that may be `NULL`. -/
def iteratorSize (loaded : Bool) (db : Db ι R) : Int := if loaded then db.count else -1

/-- `wow_iterator_item` of an iterator that may be `NULL`. -/
def iteratorItem (loaded : Bool) (db : Db ι R) (item : Int) : Option (Db ι R) :=
  if loaded then db.rowIteratorItem (toSize item) else none

/-- `wow_database_result_next`: whether it returns a row. -/
def wowDatabaseResultNext (rows : ι → List R) (db : Db ι R) : Bool × Db ι R :=
  let loaded := db.result || db.resultLoad
  let next := db.iteratorNext rows loaded
  if next.1 ≥ 0 ∧ (next.1 < next.2.iteratorSize loaded ∨ next.2.iteratorSize loaded = -1) then
    match next.2.iteratorItem loaded next.1 with
    | some db' => (true, { db' with result := loaded, item := next.1 })
    | none => (false, { next.2 with result := loaded, item := next.1 })
  else (false, { next.2 with result := false, item := 0 })

end Db

end Wow.Iot
