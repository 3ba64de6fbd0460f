import Wow.Iot.Database

/-!
# Wow.Iot.DatabaseRows — the rows belong to the statement executed last

Three things go wrong.  A statement with rows that is executed while the rows of a text are kept yields none of its
rows; a statement without rows leaves those of the statement before; and the statement starts again when the
iteration is continued after its end.  Where none of this happens (`Fits`) each execution is followed by its own
rows, in order, each once, and then by `NULL`.

* `Left`: what a state still has to yield.
* `left_exec`, `left_statementExec`, `left_next`: what the three calls leave.
* `rows_right`: every run.
-/

namespace Wow.Iot.Db

variable {ι R : Type} [DecidableEq ι]

/-! ### The requirement -/

/-- What happens to a database. -/
inductive Event (ι R : Type) where
  /-- A text with these rows is executed. -/
  | exec (rows : Table R)
  | statementExec (s : ι)
  | next
  /-- The statements yield other rows from now on. -/
  | change (rows : ι → List R)

/-- **The requirement**: every call of `wow_database_result_next` returns the next row of those still to come. -/
def Right (rows : ι → List R) (db : Db ι R) (left : List R) : List (Event ι R) → Prop
  | [] => True
  | .exec rs :: es => Right rows (db.wowDatabaseExec rs) rs.1 es
  | .statementExec s :: es =>
    -- a statement in the middle of an iteration is not executed
    if db.cursor s = none then Right rows (db.wowDatabaseStatementExec rows s) (rows s) es else Right rows db left es
  | .next :: es =>
    let r := db.wowDatabaseResultNext rows
    (if r.1 then some r.2.readRow else none) = left.head?.map some ∧ Right rows r.2 left.tail es
  | .change rows :: es => Right rows db left es

instance decidableRight [DecidableEq R] : ∀ (rows : ι → List R) (db : Db ι R) (left : List R) (es : List (Event ι R)),
    Decidable (Right rows db left es)
  | _, _, _, [] => inferInstanceAs (Decidable True)
  | rows, db, _, .exec rs :: es => decidableRight rows (db.wowDatabaseExec rs) rs.1 es
  | rows, db, left, .statementExec s :: es =>
    have := decidableRight rows (db.wowDatabaseStatementExec rows s) (rows s) es
    have := decidableRight rows db left es
    inferInstanceAs (Decidable (if db.cursor s = none then _ else _))
  | rows, db, left, .next :: es =>
    have := decidableRight rows (db.wowDatabaseResultNext rows).2 left.tail es
    inferInstanceAs (Decidable (_ ∧ _))
  | _, db, left, .change rows :: es => decidableRight rows db left es

/-! ### The condition -/

/-- No row is left, whatever has been executed before. -/
def Quiet (db : Db ι R) : Prop :=
  match db.table with
  | some _ => db.count ≤ db.rid
  | none =>
    match db.statement with
    | none => True
    | some s => db.rid ≠ 0 ∧ ∀ c ∈ db.cursor s, c.2 = []

/-- The statement of the iteration has come to its end, and would start again. -/
def Ended (rows : ι → List R) (db : Db ι R) : Prop :=
  match db.table with
  | some _ => False
  | none =>
    match db.statement with
    | none => False
    | some s => db.rid ≠ 0 ∧ db.cursor s = none ∧ rows s ≠ []

/-- **The condition**: a statement with rows is executed while no table is kept, one without rows while no row is
left, and an iteration over a statement is not continued after its end. -/
def Fits (rows : ι → List R) (db : Db ι R) : Event ι R → Prop
  | .statementExec s => if rows s = [] then db.Quiet else db.table = none
  | .next => ¬ db.Ended rows
  | _ => True

/-- The condition holds at every event of the run. -/
def Fitting (rows : ι → List R) (db : Db ι R) : List (Event ι R) → Prop
  | [] => True
  | .exec rs :: es => Fitting rows (db.wowDatabaseExec rs) es
  | .statementExec s :: es =>
    if db.cursor s = none then
      Fits rows db (.statementExec s) ∧ Fitting rows (db.wowDatabaseStatementExec rows s) es
    else Fitting rows db es
  | .next :: es => Fits rows db .next ∧ Fitting rows (db.wowDatabaseResultNext rows).2 es
  | .change rows :: es => Fitting rows db es

instance (db : Db ι R) : Decidable db.Quiet := by
  unfold Quiet
  split
  · infer_instance
  · split <;> infer_instance

instance (rows : ι → List R) (db : Db ι R) : Decidable (db.Ended rows) := by
  unfold Ended
  split
  · infer_instance
  · split <;> infer_instance

instance (rows : ι → List R) (db : Db ι R) : ∀ e : Event ι R, Decidable (Fits rows db e)
  | .statementExec s => inferInstanceAs (Decidable (if rows s = [] then db.Quiet else db.table = none))
  | .next => inferInstanceAs (Decidable (¬ db.Ended rows))
  | .exec _ | .change _ => inferInstanceAs (Decidable True)

instance decidableFitting : ∀ (rows : ι → List R) (db : Db ι R) (es : List (Event ι R)),
    Decidable (Fitting rows db es)
  | _, _, [] => inferInstanceAs (Decidable True)
  | rows, db, .exec rs :: es => decidableFitting rows (db.wowDatabaseExec rs) es
  | rows, db, .statementExec s :: es =>
    have := decidableFitting rows (db.wowDatabaseStatementExec rows s) es
    have := decidableFitting rows db es
    inferInstanceAs (Decidable (if db.cursor s = none then Fits rows db (.statementExec s) ∧ _ else _))
  | rows, db, .next :: es =>
    have := decidableFitting rows (db.wowDatabaseResultNext rows).2 es
    inferInstanceAs (Decidable (Fits rows db .next ∧ _))
  | _, db, .change rows :: es => decidableFitting rows db es

/-! ### What is left -/

/-- What the state still has to yield. -/
def Left (db : Db ι R) (left : List R) : Prop :=
  match db.table with
  | some t => db.count = t.1.length ∧ 0 ≤ db.rid ∧ left = t.1.drop db.rid.toNat
  | none =>
    match db.statement with
    | none => left = []
    | some s => db.count = -1 ∧
      ((db.rid = 0 ∧ ∃ r rest, db.cursor s = some (r, rest) ∧ left = r :: rest) ∨
        (db.rid ≠ 0 ∧ ∃ r, db.cursor s = some (r, left)) ∨ (db.rid ≠ 0 ∧ db.cursor s = none ∧ left = []))

omit [DecidableEq ι] in
theorem left_init : (init : Db ι R).Left [] := rfl

omit [DecidableEq ι] in
/-- **A text** leaves its own rows. -/
theorem left_exec (db : Db ι R) (rs : Table R) : (db.wowDatabaseExec rs).Left rs.1 := by
  rw [wowDatabaseExec, sqlite3Exec]
  split_ifs with hnil
  · exact List.isEmpty_iff.mp hnil
  · exact ⟨rfl, Int.le_refl 0, rfl⟩

section Calls

variable {rows : ι → List R} {db : Db ι R} {left : List R}

omit [DecidableEq ι] in
theorem Left.eq_nil (h : db.Left left) (hq : db.Quiet) : left = [] := by
  unfold Left at h
  unfold Quiet at hq
  cases ht : db.table with
  | some t =>
    rw [ht] at h hq
    obtain ⟨hcount, hrid, rfl⟩ := h
    rw [hcount] at hq
    exact List.drop_eq_nil_of_le (by omega)
  | none =>
    rw [ht] at h hq
    cases hs : db.statement with
    | none =>
      rw [hs] at h
      exact h
    | some s =>
      rw [hs] at h hq
      obtain ⟨hrid, hrest⟩ := hq
      obtain ⟨-, ⟨hrid', -⟩ | ⟨-, r, hc⟩ | ⟨-, -, hnil⟩⟩ := h
      · exact absurd hrid' hrid
      · exact hrest _ hc
      · exact hnil

/-- **A statement** that is executed leaves its own rows. -/
theorem left_statementExec (h : db.Left left) {s : ι} (hs : db.cursor s = none)
    (hfit : Fits rows db (.statementExec s)) : (db.wowDatabaseStatementExec rows s).Left (rows s) := by
  change if rows s = [] then db.Quiet else db.table = none at hfit
  rw [wowDatabaseStatementExec, sqlite3StatementExec]
  cases hrows : rows s with
  | nil =>
    rw [if_pos hrows] at hfit
    have hleft : db.Left [] := by rwa [h.eq_nil hfit] at h
    have hsame : ({ db with result := false } : Db ι R).setCursor s none = { db with result := false } := by
      rw [setCursor, ← hs, Function.update_eq_self]
    simp only [sqlite3Step, hs]
    rw [hsame]
    exact hleft
  | cons r rest =>
    rw [hrows, if_neg (List.cons_ne_nil r rest)] at hfit
    simp only [sqlite3Step, hs, Left, setCursor, hfit]
    exact ⟨trivial, Or.inl ⟨trivial, r, rest, Function.update_self _ _ _, rfl⟩⟩

/-- Nothing is returned where there is nothing to iterate over, or where the iterator has come to its end. -/
theorem next_of_neg {db' : Db ι R} (h : db.iteratorNext rows (db.result || db.resultLoad) = (-1, db')) :
    db.wowDatabaseResultNext rows = (false, { db' with result := false, item := 0 }) := by
  simp only [wowDatabaseResultNext, h]
  rw [if_neg (by omega)]

/-- A row is returned where the iterator has one. -/
theorem next_of_item {db' : Db ι R} {item : Int} (hload : db.resultLoad = true)
    (h : db.rowIteratorNext rows = (item, db')) (hitem : 0 ≤ item) (hlt : item < 2 ^ 31)
    (hload' : db'.resultLoad = true) (hcount : db'.count = -1 ∨ item < db'.count ∧ db'.count < 2 ^ 31) :
    db.wowDatabaseResultNext rows = (true, { db' with row := item.toNat, result := true, item := item }) := by
  have hsize : toSize item < toSize db'.count := by
    rw [toSize, toSize]
    omega
  have htoSize : toSize item = item.toNat := by
    rw [toSize]
    omega
  have hget : db'.iteratorItem true item = some { db' with row := item.toNat } := by
    rw [iteratorItem, if_pos rfl, rowIteratorItem, if_pos ⟨hload', hsize⟩, htoSize]
  have hnext : db.iteratorNext rows true = (item, db') := by rw [iteratorNext, if_pos rfl, h]
  have hloaded : (db.result || db.resultLoad) = true := by rw [hload, Bool.or_true]
  simp only [wowDatabaseResultNext, hloaded, hnext, hget]
  rw [if_pos ⟨hitem, by rw [iteratorSize, if_pos rfl]; omega⟩]

omit [DecidableEq ι] in
theorem resultLoad_statement {s : ι} (hs : db.statement = some s) : db.resultLoad = true := by
  rw [resultLoad, hs, Option.isSome_some, Bool.or_true]

section Statement

variable {s : ι} {c : Cursor R} (ht : db.table = none) (hs : db.statement = some s)

include ht hs

/-- The first row of a statement: it has been fetched by the execution. -/
theorem next_first (hcount : db.count = -1) (hrid : db.rid = 0) :
    db.wowDatabaseResultNext rows = (true, { db with rid := 1, row := 0, result := true, item := 0 }) := by
  have hload := resultLoad_statement hs
  have hnext : db.rowIteratorNext rows = (0, { db with rid := 1 }) := by
    simp only [rowIteratorNext, ht, hs]
    rw [if_pos hrid]
  exact next_of_item hload hnext (Int.le_refl 0) (by decide) hload (Or.inl hcount)

/-- A further row. -/
theorem next_row (hcount : db.count = -1) (hrid : db.rid ≠ 0) (hstep : sqlite3Step (rows s) (db.cursor s) = (true, c)) :
    db.wowDatabaseResultNext rows = (true, { db.setCursor s c with row := 0, result := true, item := 0 }) := by
  have hload := resultLoad_statement hs
  have hnext : db.rowIteratorNext rows = (0, db.setCursor s c) := by
    simp only [rowIteratorNext, ht, hs, hstep]
    rw [if_neg hrid]
  exact next_of_item hload hnext (Int.le_refl 0) (by decide) hload (Or.inl hcount)

/-- The end of a statement: it stays where it is. -/
theorem next_end (hrid : db.rid ≠ 0) (hstep : sqlite3Step (rows s) (db.cursor s) = (false, c)) :
    db.wowDatabaseResultNext rows = (false, { db.setCursor s none with result := false, item := 0 }) := by
  refine next_of_neg ?_
  rw [resultLoad_statement hs, Bool.or_true, iteratorNext, if_pos rfl, rowIteratorNext, ht, hs]
  simp only [hstep]
  rw [if_neg hrid]

end Statement

/-- The next row of a table that was read as a whole. -/
theorem left_next_table (h : db.Left left) {t : Table R} (ht : db.table = some t) :
    (if (db.wowDatabaseResultNext rows).1 then some (db.wowDatabaseResultNext rows).2.readRow else none) =
        left.head?.map some ∧ (db.wowDatabaseResultNext rows).2.Left left.tail := by
  have hl := h
  unfold Left at hl
  rw [ht] at hl
  obtain ⟨hcount, hrid, rfl⟩ := hl
  have hload : db.resultLoad = true := by rw [resultLoad, ht]; rfl
  by_cases hlt : db.rid < db.count
  · have hnext : db.rowIteratorNext rows = (db.rid, { db with rid := db.rid + 1 }) := by
      simp only [rowIteratorNext, ht]
      rw [if_pos ⟨hlt, by omega⟩]
    have hlen := t.2
    have hidx : db.rid.toNat < t.1.length := by omega
    rw [next_of_item hload hnext hrid (by omega) hload (Or.inr ⟨hlt, show db.count < _ by omega⟩)]
    simp only [if_true, readRow, Left, ht]
    refine ⟨?_, hcount, by omega, ?_⟩
    · rw [List.head?_drop, List.getElem?_eq_getElem hidx]
      rfl
    · rw [List.tail_drop, show (db.rid + 1).toNat = db.rid.toNat + 1 by omega]
  · have hnext : db.iteratorNext rows (db.result || db.resultLoad) = (-1, db) := by
      rw [hload, Bool.or_true, iteratorNext, if_pos rfl, rowIteratorNext, ht]
      exact if_neg fun hc => hlt hc.1
    have hnil : t.1.drop db.rid.toNat = [] := List.drop_eq_nil_of_le (by omega)
    rw [next_of_neg hnext, hnil]
    refine ⟨rfl, ?_⟩
    simp only [Left, ht]
    exact ⟨hcount, hrid, hnil.symm⟩

/-- The next row of a statement: its first one, a further one, or none. -/
theorem left_next_statement (h : db.Left left) (hfit : ¬ db.Ended rows) (ht : db.table = none) {s : ι}
    (hs : db.statement = some s) :
    (if (db.wowDatabaseResultNext rows).1 then some (db.wowDatabaseResultNext rows).2.readRow else none) =
        left.head?.map some ∧ (db.wowDatabaseResultNext rows).2.Left left.tail := by
  have hl := h
  unfold Left at hl
  rw [ht, hs] at hl
  obtain ⟨hcount, ⟨hrid, r, rest, hc, rfl⟩ | ⟨hrid, r, hc⟩ | ⟨hrid, hc, rfl⟩⟩ := hl
  · rw [next_first ht hs hcount hrid]
    simp only [if_true, readRow, Left, ht, hs, hc]
    exact ⟨by rw [Option.bind_some, hc]; rfl, hcount, Or.inr (Or.inl ⟨by decide, r, rfl⟩)⟩
  · cases left with
    | nil =>
      rw [next_end ht hs hrid (by rw [hc, sqlite3Step])]
      refine ⟨rfl, ?_⟩
      simp only [Left, setCursor, ht, hs]
      exact ⟨hcount, Or.inr (Or.inr ⟨hrid, Function.update_self _ _ _, rfl⟩)⟩
    | cons r' rest =>
      rw [next_row ht hs hcount hrid (by rw [hc, sqlite3Step])]
      simp only [if_true, readRow, Left, setCursor, ht, hs]
      refine ⟨?_, hcount, Or.inr (Or.inl ⟨hrid, r', Function.update_self _ _ _⟩)⟩
      rw [Option.bind_some, Function.update_self]
      rfl
  · have hrows : rows s = [] := by
      by_contra hne
      refine hfit ?_
      simp only [Ended, ht, hs]
      exact ⟨hrid, hc, hne⟩
    rw [next_end ht hs hrid (by rw [hc, hrows, sqlite3Step])]
    refine ⟨rfl, ?_⟩
    simp only [Left, setCursor, ht, hs]
    exact ⟨hcount, Or.inr (Or.inr ⟨hrid, Function.update_self _ _ _, rfl⟩)⟩

/-- **The next row** of those left, or `NULL`. -/
theorem left_next (h : db.Left left) (hfit : ¬ db.Ended rows) :
    (if (db.wowDatabaseResultNext rows).1 then some (db.wowDatabaseResultNext rows).2.readRow else none) =
        left.head?.map some ∧ (db.wowDatabaseResultNext rows).2.Left left.tail := by
  cases ht : db.table with
  | some t => exact left_next_table h ht
  | none =>
    have hl := h
    unfold Left at hl
    rw [ht] at hl
    cases hs : db.statement with
    | none =>
      rw [hs] at hl
      have hload : db.resultLoad = false := by rw [resultLoad, ht, hs]; rfl
      have hnext : db.iteratorNext rows (db.result || db.resultLoad) = (-1, db) := by
        rw [iteratorNext, rowIteratorNext, ht, hs]
        exact ite_self _
      rw [next_of_neg hnext, show left = [] from hl]
      refine ⟨rfl, ?_⟩
      simp only [Left, ht, hs]
      rfl
    | some s => exact left_next_statement h hfit ht hs

end Calls

/-! ### Every run -/

theorem right_of_left {rows : ι → List R} {db : Db ι R} {left : List R} (h : db.Left left) {es : List (Event ι R)}
    (hfit : Fitting rows db es) : Right rows db left es := by
  induction es generalizing rows db left with
  | nil => trivial
  | cons e es ih =>
    cases e with
    | exec rs => exact ih (left_exec db rs) hfit
    | statementExec s =>
      rw [Right]
      rw [Fitting] at hfit
      split_ifs at hfit ⊢ with hs
      · exact ih (left_statementExec h hs hfit.1) hfit.2
      · exact ih h hfit
    | next =>
      obtain ⟨hret, hleft⟩ := left_next h hfit.1
      exact ⟨hret, ih hleft hfit.2⟩
    | change rows' => exact ih h hfit

/-- **Rows belong to the statement executed last** in every run whose events meet the condition. -/
theorem rows_right (rows : ι → List R) (es : List (Event ι R)) (hfit : Fitting rows init es) :
    Right rows init [] es :=
  right_of_left left_init hfit

/-- The statement 0 has two rows, the others have none. -/
def demoRows (s : Nat) : List Nat := if s = 0 then [10, 11] else []

/-- A text with rows, a statement without rows and one with rows, each read to its end. -/
def demoEvents : List (Event Nat Nat) :=
  [.exec ⟨[1, 2], by decide⟩, .next, .next, .next, .next, .statementExec 1, .next, .exec ⟨[], by decide⟩, .next,
    .statementExec 0, .next, .next, .next, .change fun _ => [], .statementExec 0, .next]

theorem rows_right_demo : Fitting demoRows init demoEvents ∧ Right demoRows init [] demoEvents :=
  ⟨by decide, rows_right demoRows demoEvents (by decide)⟩

/-- A statement without rows is executed while another has a row left. -/
def staleEvents : List (Event Nat Nat) := [.statementExec 0, .next, .statementExec 1, .next]

theorem not_rows_right : ¬ ∀ (rows : Nat → List Nat) (es : List (Event Nat Nat)), Right rows init [] es :=
  fun h => absurd (h demoRows staleEvents) (by decide)

end Wow.Iot.Db
