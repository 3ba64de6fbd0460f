import Wow.Iot.SqlLogState

/-!
# Wow.Iot.SqlLogExtreme — the oldest and the newest entry

`wow_sql_log_getOldestEntries` and `wow_sql_log_getNewestEntries` are one loop over two statements.  Where the other
loops of the file look at the row, these look at the code of the execution for a second time.

* `Answers`: what a query is to do.
* `extreme_first`: the two texts of SQL are right: their only row is that of the least entry in the order asked for.
* `passes_found`, `passes_empty`: what the passes of the loop store.
* `queries_never`: no query comes to an end.
-/

namespace Wow.Iot.SqlLog

open Db

/-! ### The queries -/

/-- The outputs `*ps64EntryIdx` and `*ps64EntryTime`; `none` where the pointer is `NULL`. -/
structure EntryOut where
  entryIdx : Option Int
  entryTime : Option Int

/-- A store through pointers that may be `NULL`. -/
def EntryOut.store (out : EntryOut) (idx time : Int) : EntryOut :=
  ⟨out.entryIdx.map fun _ => idx, out.entryTime.map fun _ => time⟩

/-- One pass of the loop: whether it is left, and what it leaves. -/
def entriesPass (s : LogStmt) (log : SqlLog) (out : EntryOut) : Bool × SqlLog × EntryOut :=
  let (ret, log) := log.statementExec s
  if ret ≠ 0 then (true, log, out)
  else
    let (row, log) := log.resultNext
    -- the row is not looked at: it may be `NULL`, of which every value is `NULL`
    if ret ≠ 0 then (true, log, out)
    else
      let value (nCol : Nat) : Option DbSqlValue := if row then log.resultValue nCol else none
      (false, log, out.store (valueInt64 (value 0)) (valueInt64 (value 1)))

/-- `while(1)`, and the code behind it. -/
def entriesLoop (s : LogStmt) : Nat → SqlLog → EntryOut → Option (Int × SqlLog × EntryOut)
  | 0, _, _ => none
  | fuel + 1, log, out =>
    let r := entriesPass s log out
    if r.1 then some (0, r.2) else entriesLoop s fuel r.2.1 r.2.2

/-- `wow_sql_log_getOldestEntries`. -/
def wowSqlLogGetOldestEntries (fuel : Nat) (log : SqlLog) (out : EntryOut) : Option (Int × SqlLog × EntryOut) :=
  entriesLoop .getOldEntry fuel log out

/-- `wow_sql_log_getNewestEntries`. -/
def wowSqlLogGetNewestEntries (fuel : Nat) (log : SqlLog) (out : EntryOut) : Option (Int × SqlLog × EntryOut) :=
  entriesLoop .getNewEntry fuel log out

/-- The loop that the deletion of the oldest entry runs is this one. -/
theorem oldestLoop_eq (fuel : Nat) (log : SqlLog) (id : Int) :
    (oldestLoop fuel log id).map (fun r => (some r.1, r.2)) =
      (wowSqlLogGetOldestEntries fuel log ⟨some id, none⟩).map fun r => (r.2.2.entryIdx, r.2.1) := by
  induction fuel generalizing log id with
  | zero => rfl
  | succ fuel ih =>
    rw [wowSqlLogGetOldestEntries, entriesLoop]
    simp only [oldestLoop, entriesPass, statementExec, ne_eq, not_true_eq_false, if_false, Bool.false_eq_true]
    exact ih _ _

/-! ### The requirement -/

/-- The order of the entries by timestamp and, within one timestamp, by id. -/
def Before (e e' : Int × Int) : Prop := e.2 < e'.2 ∨ e.2 = e'.2 ∧ e.1 ≤ e'.1

/-- An entry of the index that comes first in an order. -/
def First (before : Int × Int → Int × Int → Prop) (index : List (Int × Int)) (e : Int × Int) : Prop :=
  e ∈ index ∧ ∀ e' ∈ index, before e e'

/-- **The requirement** on a query: it comes to an end, with the entry that comes first in the outputs, or with an
error and the outputs as they were where there is no entry. -/
def Answers (query : Nat → SqlLog → EntryOut → Option (Int × SqlLog × EntryOut))
    (before : Int × Int → Int × Int → Prop) (log : SqlLog) (out : EntryOut) : Prop :=
  ∃ fuel ret log' out', query fuel log out = some (ret, log', out') ∧
    (log.tables.index = [] → ret ≠ 0 ∧ out' = out) ∧
    (log.tables.index ≠ [] → ret = 0 ∧ ∃ e, First before log.tables.index e ∧ out' = out.store e.1 e.2)

/-! ### The two texts of SQL -/

theorem before_total (e e' : Int × Int) : Before e e' ∨ Before e' e := by
  simp only [Before]
  omega

theorem before_trans {a b c : Int × Int} (h : Before a b) (h' : Before b c) : Before a c := by
  simp only [Before] at h h' ⊢
  omega

/-- Some entry comes first in a total order. -/
theorem exists_first {before : Int × Int → Int × Int → Prop} (htotal : ∀ a b, before a b ∨ before b a)
    (htrans : ∀ a b c, before a b → before b c → before a c) {l : List (Int × Int)} (hl : l ≠ []) :
    ∃ e, First before l e := by
  induction l with
  | nil => exact absurd rfl hl
  | cons a l ih =>
    rcases eq_or_ne l [] with rfl | hne
    · refine ⟨a, List.mem_cons_self, fun e' he' => ?_⟩
      obtain rfl := List.mem_singleton.mp he'
      exact (htotal e' e').elim id id
    · obtain ⟨b, hb, hfirst⟩ := ih hne
      rcases htotal a b with hab | hba
      · refine ⟨a, List.mem_cons_self, List.forall_mem_cons.mpr ⟨(htotal a a).elim id id, fun e' he' => ?_⟩⟩
        exact htrans a b e' hab (hfirst e' he')
      · exact ⟨b, List.mem_cons_of_mem a hb, List.forall_mem_cons.mpr ⟨hba, hfirst⟩⟩

/-- **The extreme entry** is the one that comes first, if better means strictly before. -/
theorem extreme_first {t : Tables} (before : Int × Int → Int × Int → Prop) (better : Int × Int → Int × Int → Bool)
    (hbetter : ∀ e e', better e' e = false ↔ before e e') (hex : ∃ e, First before t.index e) :
    ∃ e, First before t.index e ∧ t.extreme better = some e := by
  have hiff : ∀ e, (t.index.all fun e' => !better e' e) = true ↔ ∀ e' ∈ t.index, before e e' := by
    intro e
    simp only [List.all_eq_true, Bool.not_eq_true', hbetter]
  obtain ⟨e, he, hfirst⟩ := hex
  have hsome : (t.extreme better).isSome := by
    rw [Tables.extreme, List.find?_isSome]
    exact ⟨e, he, (hiff e).mpr hfirst⟩
  obtain ⟨m, hm⟩ := Option.isSome_iff_exists.mp hsome
  have hall : (t.index.all fun e' => !better e' m) = true := by
    rw [Tables.extreme] at hm
    exact List.find?_some (p := fun e => t.index.all fun e' => !better e' e) hm
  exact ⟨m, ⟨List.mem_of_find?_eq_some hm, (hiff m).mp hall⟩, hm⟩

/-- The oldest entry is the only row of its statement. -/
theorem rows_getOldEntry {log : SqlLog} (h : log.tables.index ≠ []) :
    ∃ e, First Before log.tables.index e ∧ log.rows .getOldEntry = [indexRow e] := by
  obtain ⟨e, hfirst, he⟩ := extreme_first Before (fun e e' => e.2 < e'.2 ∨ e.2 = e'.2 ∧ e.1 < e'.1)
    (fun e e' => by simp only [Before, decide_eq_false_iff_not]; omega)
    (exists_first before_total (fun a b c => before_trans) h)
  exact ⟨e, hfirst, by rw [rows, he]; rfl⟩

/-- The newest one as well. -/
theorem rows_getNewEntry {log : SqlLog} (h : log.tables.index ≠ []) :
    ∃ e, First (fun e e' => Before e' e) log.tables.index e ∧ log.rows .getNewEntry = [indexRow e] := by
  obtain ⟨e, hfirst, he⟩ := extreme_first (fun e e' => Before e' e)
    (fun e e' => e'.2 < e.2 ∨ e.2 = e'.2 ∧ e'.1 < e.1)
    (fun e e' => by simp only [Before, decide_eq_false_iff_not]; omega)
    (exists_first (fun a b => before_total b a) (fun a b c hab hbc => before_trans hbc hab) h)
  exact ⟨e, hfirst, by rw [rows, he]; rfl⟩

/-- There is no row where there is no entry. -/
theorem rows_of_empty {s : LogStmt} {log : SqlLog} (hs : s = .getOldEntry ∨ s = .getNewEntry)
    (hempty : log.tables.index = []) : log.rows s = [] := by
  rcases hs with rfl | rfl
  · rw [rows, Tables.extreme, hempty]
    rfl
  · rw [rows, Tables.extreme, hempty]
    rfl

/-! ### What the passes store -/

/-- What `n` passes leave. -/
def passes (s : LogStmt) : Nat → SqlLog × EntryOut → SqlLog × EntryOut
  | 0, p => p
  | n + 1, p => passes s n (entriesPass s p.1 p.2).2

/-- The only row of the statement has been read. -/
structure OnRow (s : LogStmt) (e : Int × Int) (log : SqlLog) : Prop where
  rows : log.rows s = [indexRow e]
  held : ∃ cursor, log.sql.Held s 1 cursor ∧ cursor s = some (indexRow e, [])

@[simp] theorem store_store (out : EntryOut) (i t i' t' : Int) : (out.store i t).store i' t' = out.store i' t' := by
  simp only [EntryOut.store, Option.map_map, Function.comp_def]

/-- The row after the execution, as the log sees it. -/
theorem resultNext_of_next {s : LogStmt} {log : SqlLog} {row : Bool} {db : Db LogStmt SqlRow}
    (h : (log.sql.wowDatabaseStatementExec log.rows s).wowDatabaseResultNext log.rows = (row, db)) :
    (log.statementExec s).2.resultNext = (row, { log with sql := db }) := by
  simp only [resultNext, statementExec]
  exact congrArg (fun r : Bool × Db LogStmt SqlRow => (r.1, { log with sql := r.2 })) h

/-- A pass whose last call leaves the row in hand. -/
theorem pass_row {s : LogStmt} {e : Int × Int} {log : SqlLog} {db : Db LogStmt SqlRow}
    {cursor : LogStmt → Cursor SqlRow} (hrows : log.rows s = [indexRow e])
    (hnext : (log.sql.wowDatabaseStatementExec log.rows s).wowDatabaseResultNext log.rows = (true, db))
    (hheld : db.Held s 1 cursor) (hcur : cursor s = some (indexRow e, [])) (out : EntryOut) :
    OnRow s e (entriesPass s log out).2.1 ∧ (entriesPass s log out).2.2 = out.store e.1 e.2 := by
  have hread : db.readRow = some (indexRow e) := by rw [hheld.readRow, hcur]; rfl
  have hpass : entriesPass s log out = (false, { log with sql := db }, out.store e.1 e.2) := by
    simp only [entriesPass, statementExec_fst, ne_eq, not_true_eq_false, if_false,
      resultNext_of_next hnext, if_true, resultValue, hread]
    rfl
  rw [hpass]
  exact ⟨⟨hrows, cursor, hheld, hcur⟩, rfl⟩

/-- The first pass executes the statement and reads its row. -/
theorem pass_ready {s : LogStmt} {e : Int × Int} {log : SqlLog} (h : log.Ready) (hs : s ≠ .getEntriesCount)
    (hrows : log.rows s = [indexRow e]) (out : EntryOut) :
    OnRow s e (entriesPass s log out).2.1 ∧ (entriesPass s log out).2.2 = out.store e.1 e.2 := by
  have hstep : sqlite3Step (log.rows s) (log.sql.cursor s) = (true, some (indexRow e, [])) := by
    rw [hrows, h.idle s hs, sqlite3Step]
  obtain ⟨db, hnext, hheld⟩ := held_next_first log.rows (held_exec_row h.held'.table hstep)
  exact pass_row hrows hnext hheld (Function.update_self ..) out

/-- Each further one meets the end of the statement, resets it and steps it again. -/
theorem OnRow.pass {s : LogStmt} {e : Int × Int} {log : SqlLog} (h : OnRow s e log) (out : EntryOut) :
    OnRow s e (entriesPass s log out).2.1 ∧ (entriesPass s log out).2.2 = out.store e.1 e.2 := by
  obtain ⟨hrows, cursor, hheld, hcur⟩ := h
  have hend : sqlite3Step (log.rows s) (cursor s) = (false, some (indexRow e, [])) := by rw [hcur, sqlite3Step]
  have hagain : sqlite3Step (log.rows s) (Function.update cursor s none s) = (true, some (indexRow e, [])) := by
    rw [hrows, Function.update_self, sqlite3Step]
  obtain ⟨db, hnext, hheld'⟩ := held_next_row (held_exec_end hheld hend) (by decide) hagain
  exact pass_row hrows hnext hheld' (Function.update_self ..) out

/-- **On an index with entries** every pass stores the right entry, and the next pass follows. -/
theorem passes_found {s : LogStmt} {e : Int × Int} {log : SqlLog} (h : log.Ready) (hs : s ≠ .getEntriesCount)
    (hrows : log.rows s = [indexRow e]) (out : EntryOut) (n : Nat) :
    (passes s (n + 1) (log, out)).2 = out.store e.1 e.2 := by
  have hrun : ∀ n p, OnRow s e p.1 → p.2 = out.store e.1 e.2 → (passes s n p).2 = out.store e.1 e.2 := by
    intro n
    induction n with
    | zero => exact fun p _ hp => hp
    | succ n ih =>
      rintro ⟨log, out'⟩ hon rfl
      obtain ⟨hon', hout⟩ := hon.pass (out.store e.1 e.2)
      refine ih _ hon' ?_
      rw [hout, store_store]
  obtain ⟨hon, hout⟩ := pass_ready h hs hrows out
  exact hrun n _ hon hout

/-- A pass of an index without entries goes on with the count, which is still held. -/
theorem pass_empty {s : LogStmt} {log : SqlLog} (h : log.Ready) (hs : s ≠ .getEntriesCount) (hrows : log.rows s = [])
    (hempty : log.tables.index = []) (out : EntryOut) :
    ∃ db, entriesPass s log out = (false, { log with sql := db }, out.store 0 0) ∧
      SqlLog.Ready { log with sql := db } := by
  have hheld := held_exec_done h.held' (h.idle s hs) hrows
  have hidle : ∀ c t, t ≠ .getEntriesCount → Function.update log.sql.cursor .getEntriesCount c t = none := by
    intro c t ht
    rw [Function.update_of_ne ht, h.idle t ht]
  rcases hc : log.sql.cursor .getEntriesCount with _ | ⟨row, rest⟩
  · -- the count starts again: its row has one column, a zero
    have hstep : sqlite3Step (log.rows .getEntriesCount) (log.sql.cursor .getEntriesCount) =
        (true, some ([.int64 0], [])) := by
      rw [hc, rows, hempty, sqlite3Step]
      rfl
    obtain ⟨db, hnext, hheld'⟩ := held_next_row hheld (by decide) hstep
    have hread : db.readRow = some [.int64 0] := by rw [hheld'.readRow, Function.update_self]; rfl
    refine ⟨db, ?_, ⟨_, hheld'⟩, fun t ht => ?_, ?_⟩
    · simp only [entriesPass, statementExec_fst, ne_eq, not_true_eq_false, if_false, resultNext_of_next hnext, if_true,
        resultValue, hread]
      rfl
    · rw [hheld'.cursor]
      exact hidle _ t ht
    · rw [hheld'.cursor, Function.update_self]
      rintro c ⟨⟩
      rfl
  · -- the count is at its end: there is no row
    have hrest : rest = [] := h.counted (row, rest) (by rw [hc]; rfl)
    have hstep : sqlite3Step (log.rows .getEntriesCount) (log.sql.cursor .getEntriesCount) =
        (false, some (row, [])) := by
      rw [hc, hrest, sqlite3Step]
    obtain ⟨db, hnext, hheld'⟩ := held_next_done hheld (by decide) hstep
    refine ⟨db, ?_, ⟨_, hheld'⟩, fun t ht => ?_, ?_⟩
    · simp only [entriesPass, statementExec_fst, ne_eq, not_true_eq_false, if_false, resultNext_of_next hnext,
        Bool.false_eq_true]
      rfl
    · rw [hheld'.cursor]
      exact hidle _ t ht
    · rw [hheld'.cursor, Function.update_self]
      rintro c ⟨⟩

/-- **On an index without entries** every pass stores zeros. -/
theorem passes_empty {s : LogStmt} {log : SqlLog} (h : log.Ready) (hs : s = .getOldEntry ∨ s = .getNewEntry)
    (hempty : log.tables.index = []) (out : EntryOut) (n : Nat) :
    (passes s (n + 1) (log, out)).2 = out.store 0 0 := by
  have hne : s ≠ .getEntriesCount := by
    rcases hs with rfl | rfl <;> exact LogStmt.noConfusion
  induction n generalizing log out with
  | zero =>
    obtain ⟨db, hpass, -⟩ := pass_empty h hne (rows_of_empty hs hempty) hempty out
    rw [passes, passes, hpass]
  | succ n ih =>
    obtain ⟨db, hpass, hready⟩ := pass_empty h hne (rows_of_empty hs hempty) hempty out
    rw [passes, hpass, ih hready hempty, store_store]

/-! ### No query comes to an end -/

/-- No pass leaves the loop: the execution of a statement returns 0. -/
theorem entriesPass_fst (s : LogStmt) (log : SqlLog) (out : EntryOut) : (entriesPass s log out).1 = false := rfl

theorem entriesLoop_never (s : LogStmt) (fuel : Nat) (log : SqlLog) (out : EntryOut) :
    entriesLoop s fuel log out = none := by
  induction fuel generalizing log out with
  | zero => rfl
  | succ fuel ih =>
    rw [entriesLoop]
    simp only [entriesPass_fst, Bool.false_eq_true, if_false]
    exact ih _ _

/-- **No query comes to an end**, so none is answered. -/
theorem queries_never (log : SqlLog) (out : EntryOut) :
    ¬ Answers wowSqlLogGetOldestEntries Before log out ∧
      ¬ Answers wowSqlLogGetNewestEntries (fun e e' => Before e' e) log out := by
  constructor
  · rintro ⟨fuel, ret, log', out', hquery, -⟩
    rw [wowSqlLogGetOldestEntries, entriesLoop_never] at hquery
    cases hquery
  · rintro ⟨fuel, ret, log', out', hquery, -⟩
    rw [wowSqlLogGetNewestEntries, entriesLoop_never] at hquery
    cases hquery

/-- An index of one entry, right after the log was opened. -/
theorem not_answers_one : ¬ Answers wowSqlLogGetOldestEntries Before (wowSqlLogInit ⟨[(1, 1700000000)], []⟩)
    ⟨some 0, some 0⟩ := by
  rintro ⟨fuel, ret, log', out', hquery, -⟩
  rw [wowSqlLogGetOldestEntries, entriesLoop_never] at hquery
  cases hquery

end Wow.Iot.SqlLog
