import Mathlib
import Pantheon.Sql.CopyInsert
import Pantheon.Sql.RowBuilding
import Pantheon.Sql.StoredTables

/-!
# NULL in a column that is NOT NULL

The only check is that of `resolve_insert_row`: a column that was not listed and has no
default must be nullable.  A value that is listed, a default and an assignment are stored
as they evaluate, NULL too, and a primary key column has no check of its own.
-/

set_option autoImplicit false

namespace Pantheon.Sql

open Pantheon.Lib Pantheon.Keystone

variable (env : DmlLibrary)

/-- The columns that must not be NULL. -/
def TableDef.Guarded (table : TableDef) (index : Nat) (column : TableColumn) : Prop :=
  table.columns[index]? = some column ∧ (column.nullable = false ∨ index ∈ table.pkColumns)

def GuardedCells (table : TableDef) (_ value : Bytes) : Prop :=
  ∀ index column, table.Guarded index column → (parseStored env value)[index]?.join ≠ none

/-- No cell of a row is NULL when it is read back, unless it was. -/
def NothingLost (table : TableDef) (binaryJson : Bool) (cells : Row) : Prop :=
  ∀ index : Nat, cells[index]?.join ≠ none →
    (parseStored env (buildRowValue env.serde table.schema binaryJson cells))[index]?.join ≠ none

theorem nothingLost_of_sizes {table : TableDef} {binaryJson : Bool} {cells : Row}
    (sizes : ∀ cell ∈ storedCells env.serde table.schema binaryJson cells, ∀ data ∈ cell,
      data.length < 2 ^ 31) : NothingLost env table binaryJson cells := by
  intro index present
  have read : parseStored env (buildRowValue env.serde table.schema binaryJson cells) =
      (storedCells env.serde table.schema binaryJson cells).map fun cell =>
        cell.map fun data => (env.lib.decodeJsonb data).getD data := by
    rw [parseStored, parseRow, buildRowValue_eq]
    exact parseCells_encodeRowCells _ _ sizes (length_le_encodeRowCells _)
  rw [read, storedCells]
  simp only [List.getElem?_map, List.getElem?_zipIdx]
  cases held : cells[index]? with
  | none =>
      rw [held] at present
      exact absurd rfl present
  | some cell =>
      cases cell with
      | none =>
          rw [held] at present
          exact absurd rfl present
      | some data => simp

namespace Server

variable {ETag : Type} [DecidableEq ETag]

/-- What a new row has in the column is NULL: the expression that fills it evaluates to
NULL, or nothing fills it and no check stops the row. -/
def FillsNull (around : Surroundings) (table : TableDef) (columns : List String) (number : Nat)
    (values : List Expr) (index : Nat) (column : TableColumn) : Prop :=
  match filledBy table columns values index with
  | none => column.nullable = true
  | some (position, parsed) => ∃ expr, parsed = .ok expr ∧
      evaluateCell env around number RowContext.empty position expr = .ok none

/-- The last assignment to the column evaluates to NULL. -/
def AssignsNull (around : Surroundings) (table : TableDef) (assignments : List (String × Expr))
    (number : Nat) (row : Row) (index : Nat) : Prop :=
  ∃ assignment, lastAssignment table assignments index = some assignment ∧
    evaluateCell env around number (RowContext.new row (some table.schema)) (assignment.2 + 1)
      assignment.1.2 = .ok none

/-- No expression of the call gives NULL to a guarded column of a row that is written, and
the row can be read back. -/
def GivesNoNull (server : Server ETag) : ServerCall → Prop
  | .insert session around insert => ∀ table number values cells,
      server.InsertsRow env session around insert table number values cells →
      (∀ index column, table.Guarded index column →
        ¬ FillsNull env around table insert.columns number values index column) ∧
      NothingLost env table server.binaryJson cells
  | .update session around update => ∀ table number stored cells,
      server.UpdatesRow env session around update table number stored cells →
      (∀ index column, table.Guarded index column →
        ¬ AssignsNull env around table update.assignments number (parseStored env stored.2)
          index) ∧
      NothingLost env table server.binaryJson cells
  | _ => True

variable {env} {server : Server ETag}

theorem insertCells_guarded {around : Surroundings} {table : TableDef} {columns : List String}
    {number : Nat} {values : List Expr} {cells : Row}
    (resolved : insertCells env around table columns number values = .ok cells) {index : Nat}
    {column : TableColumn} (there : table.columns[index]? = some column)
    (filled : ¬ FillsNull env around table columns number values index column) :
    cells[index]?.join ≠ none := by
  obtain ⟨given, rfl, _, each⟩ := insertCells_spec env resolved
  have cell := each index column there
  rw [Ne, normalizeVectorCells_null]
  intro null
  apply filled
  unfold FillsNull
  cases found : filledBy table columns values index with
  | none =>
      rw [found] at cell
      exact cell.2
  | some entry =>
      obtain ⟨position, parsed⟩ := entry
      rw [found] at cell
      obtain ⟨expr, read, evaluated⟩ := cell
      rw [null] at evaluated
      exact ⟨expr, read, evaluated⟩

theorem updatedCells_guarded {around : Surroundings} {table : TableDef}
    {assignments : List (String × Expr)} {number : Nat} {row cells : Row}
    (updated : updatedCells env around table assignments number row = .ok cells) {index : Nat}
    (before : row[index]?.join ≠ none)
    (assigned : ¬ AssignsNull env around table assignments number row index) :
    cells[index]?.join ≠ none := by
  obtain ⟨given, rfl, _, each⟩ := updatedCells_spec env updated
  have inside : index < row.length := by
    by_contra outside
    rw [List.getElem?_eq_none (not_lt.mp outside)] at before
    exact before rfl
  have cell := each index inside
  rw [Ne, normalizeVectorCells_null]
  intro null
  rw [null, assignedCell] at cell
  cases found : lastAssignment table assignments index with
  | none =>
      rw [found] at cell
      exact before (Except.ok.inj cell)
  | some assignment =>
      rw [found] at cell
      exact assigned ⟨assignment, found, cell⟩

/-- While no expression gives NULL to a guarded column no stored row has NULL there, whoever
looks. -/
theorem not_null_holds {manifestEtag : Manifest → ETag} {leaseEtag : Lease → ETag} {token : Nat}
    {tables : List TableDef} {binaryJson : Bool}
    (reached : Reaches (Server.step env) (fun server call => server.GivesNoNull env call)
      (start manifestEtag leaseEtag token tables binaryJson) server) :
    ∀ session name table, server.getTable name = some table →
      ∀ key value, (key, value) ∈ server.scan session name →
        ∀ index column, table.Guarded index column →
          (parseStored env value)[index]?.join ≠ none := by
  have every : server.EveryRow (GuardedCells env) := by
    refine everyRow_of_reaches env ?_ reached
    intro server call free every table key cells writes index column guarded
    cases call with
    | insert session around insert =>
        obtain ⟨_, number, values, inserts⟩ := writes
        obtain ⟨filled, kept⟩ := free table number values cells inserts
        exact kept index (insertCells_guarded inserts.2.2.1 guarded.1
          (filled index column guarded))
    | update session around update =>
        obtain ⟨number, value, updates⟩ := writes
        obtain ⟨assigned, kept⟩ := free table number (key, value) cells updates
        obtain ⟨found, there, _, updated, _⟩ := updates
        have old := every.scanned found (List.mem_of_getElem? there) index column guarded
        exact kept index (updatedCells_guarded updated old (assigned index column guarded))
    | beginTxn => exact absurd writes id
    | delete => exact absurd writes id
    | commit => exact absurd writes id
    | rollback => exact absurd writes id
  intro session name table found key value member index column guarded
  exact every.scanned found member index column guarded

end Server

/-! ## A note that must not be NULL -/

def requiredTable : TableDef :=
  ⟨"notes", [⟨⟨"note", .text⟩, false, none⟩], [0], [], [], [], zero_notMem_notes⟩

def requiredServer : Server Nat :=
  Server.start (fun manifest => manifest.maxCommitSeq) (fun lease => lease.fencingToken) 1
    [requiredTable] false

/-- `INSERT INTO notes VALUES (value)`. -/
def insertNote (value : Literal) : ServerCall :=
  .insert none plainSurroundings ⟨"notes", [], [[.literal value]]⟩

theorem insertNote_taken (value : Literal) : ∃ next,
    requiredServer.step plainLibrary (insertNote value) = some next ∧
      next.getTable "notes" = some requiredTable := by
  have taken : requiredServer.step plainLibrary (insertNote value) =
      some (requiredServer.executeInsert plainLibrary none plainSurroundings
        ⟨"notes", [], [[.literal value]]⟩).1 := rfl
  refine ⟨_, taken, ?_⟩
  have tables := (Server.step_frame plainLibrary taken).1
  unfold Server.getTable
  rw [tables]
  rfl

/-- A NULL in the list of values is stored, and the INSERT succeeds. -/
theorem listed_null_is_stored :
    ¬ ∀ server, Reaches (Server.step plainLibrary)
        (fun server call => server.succeeds plainLibrary call = true) requiredServer server →
      ∀ session name table, server.getTable name = some table →
        ∀ key value, (key, value) ∈ server.scan session name →
          ∀ index column, table.Guarded index column →
            (parseStored plainLibrary value)[index]?.join ≠ none := by
  intro claimed
  obtain ⟨next, taken, found⟩ := insertNote_taken .null
  have stored : ((requiredServer.step plainLibrary (insertNote .null)).map fun next =>
      next.scan none "notes") = some [([], [255, 255, 255, 255])] := by decide +kernel
  rw [taken, Option.map_some, Option.some.injEq] at stored
  have reached : Reaches (Server.step plainLibrary)
      (fun server call => server.succeeds plainLibrary call = true) requiredServer next :=
    Reaches.step _ Reaches.refl (by decide +kernel) taken
  refine claimed next reached none "notes" requiredTable found [] [255, 255, 255, 255]
    (by rw [stored]; exact List.mem_cons_self) 0 ⟨⟨"note", .text⟩, false, none⟩
    ⟨rfl, Or.inl rfl⟩ ?_
  decide +kernel

theorem listed_note_is_not_null : ∃ server : Server Nat,
    server.scan none "notes" = [([97], [0, 0, 0, 1, 97])] ∧
      ∀ session name table, server.getTable name = some table →
        ∀ key value, (key, value) ∈ server.scan session name →
          ∀ index column, table.Guarded index column →
            (parseStored plainLibrary value)[index]?.join ≠ none := by
  obtain ⟨next, taken, found⟩ := insertNote_taken (.text "a")
  have stored : ((requiredServer.step plainLibrary (insertNote (.text "a"))).map fun next =>
      next.scan none "notes") = some [([97], [0, 0, 0, 1, 97])] := by decide +kernel
  rw [taken, Option.map_some, Option.some.injEq] at stored
  refine ⟨next, stored, ?_⟩
  apply Server.not_null_holds (Reaches.step (insertNote (.text "a")) Reaches.refl ?_ taken)
  rintro table number values cells ⟨found, there, resolved, _⟩
  cases found
  obtain rfl : number = 0 := by
    by_contra later
    rw [List.getElem?_eq_none (by simp; omega)] at there
    cases there
  cases there
  refine ⟨fun index column guarded null => ?_, ?_⟩
  · obtain ⟨inside, _⟩ := List.getElem?_eq_some_iff.mp guarded.1
    obtain rfl : index = 0 := Nat.lt_one_iff.mp inside
    obtain ⟨expr, read, evaluated⟩ := null
    cases read
    cases evaluated
  · cases resolved
    apply nothingLost_of_sizes
    decide +kernel

end Pantheon.Sql
