import Mathlib
import Pantheon.Sql.CopyInsert
import Pantheon.Sql.RowBuilding
import Pantheon.Sql.StoredTables

/-!
# The storage key of a row and its primary key

INSERT stores a row under the bytes of its first primary key cell.  UPDATE writes the new
cells back under the key the row had, whatever is assigned to that cell.
-/

set_option autoImplicit false

namespace Pantheon.Sql

open Pantheon.Lib Pantheon.Keystone

variable (env : DmlLibrary)

def TableDef.keyColumn (table : TableDef) : Nat := table.pkColumns.headD 0

/-- In a table with a primary key the row is stored under its own key cell. -/
def KeyMatches (table : TableDef) (key value : Bytes) : Prop :=
  table.pkColumns ≠ [] → key = Server.rowKeyOf table (parseStored env value)

def KeyReadsBack (table : TableDef) (binaryJson : Bool) (cells : Row) : Prop :=
  (parseStored env (buildRowValue env.serde table.schema binaryJson cells))[table.keyColumn]?.join =
    cells[table.keyColumn]?.join

namespace Server

variable {ETag : Type} [DecidableEq ETag]

/-- The assignments leave the key cell of the row as it is, and a vector there is in
canonical form already. -/
def LeavesKey (around : Surroundings) (table : TableDef) (assignments : List (String × Expr))
    (number : Nat) (row : Row) : Prop :=
  (∀ cell, assignedCell env around table assignments number row table.keyColumn = .ok cell →
      cell = row[table.keyColumn]?.join) ∧
    (normalizeVectorCells env table row)[table.keyColumn]?.join = row[table.keyColumn]?.join

/-- In a table with a primary key UPDATE leaves the key cells of the rows it writes, and the
key cells that are written can be read back. -/
def KeepsKeys (server : Server ETag) : ServerCall → Prop
  | .insert session around insert => ∀ table number values cells,
      server.InsertsRow env session around insert table number values cells →
      table.pkColumns ≠ [] → KeyReadsBack env table server.binaryJson cells
  | .update session around update => ∀ table number stored cells,
      server.UpdatesRow env session around update table number stored cells →
      table.pkColumns ≠ [] →
        LeavesKey env around table update.assignments number (parseStored env stored.2) ∧
          KeyReadsBack env table server.binaryJson cells
  | _ => True

/-- Each row is stored under its own key cell; so a cell has one row, and an INSERT
replaces none but a row with the cell of its own row. -/
structure KeysMatch (server : Server ETag) (session : Option Nat) (table : TableDef) : Prop where
  keyed : ∀ stored ∈ server.scan session table.name,
    stored.1 = rowKeyOf table (parseStored env stored.2)
  single : ∀ stored ∈ server.scan session table.name, ∀ other ∈ server.scan session table.name,
    rowKeyOf table (parseStored env stored.2) = rowKeyOf table (parseStored env other.2) →
      stored = other
  spared : ∀ stored ∈ server.scan session table.name, ∀ cells : Row,
    stored.1 = rowKeyOf table cells →
      rowKeyOf table (parseStored env stored.2) = rowKeyOf table cells

variable {env} {server : Server ETag}

omit [DecidableEq ETag] in
theorem keysMatch_of_keyed {session : Option Nat} {table : TableDef}
    (keyed : ∀ stored ∈ server.scan session table.name,
      stored.1 = rowKeyOf table (parseStored env stored.2)) :
    server.KeysMatch env session table := by
  refine ⟨keyed, fun stored member other otherMember same => ?_, fun stored member cells same => ?_⟩
  · have keys : stored.1 = other.1 := by
      rw [keyed stored member, keyed other otherMember, same]
    exact List.inj_on_of_nodup_map (txnScan_keys_nodup _ _ _) member otherMember keys
  · rw [← keyed stored member, same]

theorem updatedCells_key {around : Surroundings} {table : TableDef}
    {assignments : List (String × Expr)} {number : Nat} {row cells : Row}
    (updated : updatedCells env around table assignments number row = .ok cells)
    (leaves : LeavesKey env around table assignments number row) :
    cells[table.keyColumn]?.join = row[table.keyColumn]?.join := by
  obtain ⟨kept, canonical⟩ := leaves
  obtain ⟨assigned, rfl, width, each⟩ := updatedCells_spec env updated
  have there : assigned[table.keyColumn]? = row[table.keyColumn]? := by
    by_cases inside : table.keyColumn < row.length
    · have same := kept _ (each table.keyColumn inside)
      rw [List.getElem?_eq_getElem (width ▸ inside), List.getElem?_eq_getElem inside] at same ⊢
      exact congrArg some same
    · rw [List.getElem?_eq_none (by omega), List.getElem?_eq_none (by omega)]
  rw [normalizeVectorCells_congr env table there, canonical]

/-- While no UPDATE changes a key cell every row is stored under its own, whoever looks. -/
theorem row_keys_match {manifestEtag : Manifest → ETag} {leaseEtag : Lease → ETag} {token : Nat}
    {tables : List TableDef} {binaryJson : Bool}
    (reached : Reaches (Server.step env) (fun server call => server.KeepsKeys env call)
      (start manifestEtag leaseEtag token tables binaryJson) server) :
    ∀ session name table, server.getTable name = some table → table.pkColumns ≠ [] →
      server.KeysMatch env session table := by
  have every : server.EveryRow (KeyMatches env) := by
    refine everyRow_of_reaches env ?_ reached
    intro server call keeps every table key cells writes keyed
    cases call with
    | insert session around insert =>
        obtain ⟨rfl, number, values, inserts⟩ := writes
        have back := keeps table number values cells inserts keyed
        exact (congrArg (fun cell : Cell => cell.getD []) back).symm
    | update session around update =>
        obtain ⟨number, value, updates⟩ := writes
        obtain ⟨leaves, back⟩ := keeps table number (key, value) cells updates keyed
        obtain ⟨found, there, _, updated, _⟩ := updates
        have old := every.scanned found (List.mem_of_getElem? there) keyed
        have same := back.trans (updatedCells_key updated leaves)
        exact old.trans (congrArg (fun cell : Cell => cell.getD []) same).symm
    | beginTxn => exact absurd writes id
    | delete => exact absurd writes id
    | commit => exact absurd writes id
    | rollback => exact absurd writes id
  intro session name table found keyed
  apply keysMatch_of_keyed
  intro stored member
  rw [getTable_name found] at member
  exact every.scanned found member keyed

end Server

/-! ## A note renamed -/

/-- `UPDATE notes SET note = value`. -/
def renameNote (value : String) : ServerCall :=
  .update none plainSurroundings ⟨"notes", [("note", .literal (.text value))], none⟩

def addNote (value : String) : ServerCall :=
  .insert none plainSurroundings ⟨"notes", [], [[.literal (.text value)]]⟩

/-- The renamed note stays under its old name, and both statements succeed. -/
theorem renamed_note_keeps_key :
    ¬ ∀ server, Reaches (Server.step plainLibrary)
        (fun server call => server.succeeds plainLibrary call = true) notesServer server →
      ∀ session name table, server.getTable name = some table → table.pkColumns ≠ [] →
        server.KeysMatch plainLibrary session table := by
  intro claimed
  have ran : (runChecked (Server.step plainLibrary)
      (fun (server : Server Nat) call => server.succeeds plainLibrary call) notesServer
        [addNote "a", renameNote "b"]).map (fun server => server.scan none "notes") =
      some [([97], [0, 0, 0, 1, 98])] := by decide +kernel
  obtain ⟨server, taken, stored⟩ := Option.map_eq_some_iff.mp ran
  have reached : Reaches (Server.step plainLibrary)
      (fun server call => server.succeeds plainLibrary call = true) notesServer server :=
    runChecked_reaches _ (fun _ _ checked => checked) _ _ _ taken
  have found : server.getTable "notes" = some notesTable :=
    (Server.reaches_getTable reached "notes").trans rfl
  have keyed := (claimed server reached none "notes" notesTable found (by decide)).keyed
    ([97], [0, 0, 0, 1, 98]) (by
      have same : server.scan none notesTable.name = [([97], [0, 0, 0, 1, 98])] := stored
      rw [same]
      exact List.mem_cons_self)
  revert keyed
  decide +kernel

theorem addNote_keeps : notesServer.KeepsKeys plainLibrary (addNote "a") := by
  rintro table number values cells ⟨found, there, resolved, _⟩ keyed
  cases found
  obtain rfl : number = 0 := by
    by_contra later
    rw [List.getElem?_eq_none (by simp; omega)] at there
    cases there
  cases there
  cases resolved
  unfold KeyReadsBack
  decide +kernel

theorem renameNote_keeps {server : Server Nat}
    (found : server.getTable "notes" = some notesTable) (textJson : server.binaryJson = false)
    (stored : server.scan none "notes" = [([97], [0, 0, 0, 1, 97])]) :
    server.KeepsKeys plainLibrary (renameNote "a") := by
  rintro table number row cells ⟨tableFound, there, _, updated, _⟩ keyed
  rw [found] at tableFound
  cases tableFound
  rw [stored] at there
  obtain rfl : number = 0 := by
    by_contra later
    rw [List.getElem?_eq_none (by simp; omega)] at there
    cases there
  cases there
  have exact : Server.updatedCells plainLibrary plainSurroundings notesTable
      [("note", .literal (.text "a"))] 0 (parseStored plainLibrary [0, 0, 0, 1, 97]) =
        .ok [some [97]] := by decide +kernel
  rw [exact] at updated
  cases updated
  refine ⟨⟨fun cell assigned => ?_, by decide +kernel⟩, ?_⟩
  · cases assigned
    decide +kernel
  · unfold KeyReadsBack
    rw [textJson]
    decide +kernel

/-- A note that is renamed to the name it has. -/
theorem same_name_keeps_key : ∃ server : Server Nat,
    server.scan none "notes" = [([97], [0, 0, 0, 1, 97])] ∧
      ∀ session name table, server.getTable name = some table → table.pkColumns ≠ [] →
        server.KeysMatch plainLibrary session table := by
  have added : ((notesServer.step plainLibrary (addNote "a")).map fun server =>
      server.scan none "notes") = some [([97], [0, 0, 0, 1, 97])] := by decide +kernel
  have renamed : (((notesServer.step plainLibrary (addNote "a")).bind fun server =>
      server.step plainLibrary (renameNote "a")).map fun server => server.scan none "notes") =
        some [([97], [0, 0, 0, 1, 97])] := by decide +kernel
  obtain ⟨first, taken, stored⟩ := Option.map_eq_some_iff.mp added
  rw [taken, Option.bind_some] at renamed
  obtain ⟨second, takenAgain, storedAgain⟩ := Option.map_eq_some_iff.mp renamed
  have begun : Reaches (Server.step plainLibrary)
      (fun server call => server.KeepsKeys plainLibrary call) notesServer first :=
    Reaches.step _ Reaches.refl addNote_keeps taken
  have found : first.getTable "notes" = some notesTable :=
    (Server.reaches_getTable begun "notes").trans rfl
  have textJson : first.binaryJson = false := (Server.reaches_frame begun).2
  refine ⟨second, storedAgain, ?_⟩
  exact Server.row_keys_match
    (Reaches.step _ begun (renameNote_keeps found textJson stored) takenAgain)

end Pantheon.Sql
