import Mathlib
import Pantheon.Sql.CopyRow

/-!
# COPY beside INSERT

Both work through their rows one after the other, so a copy and an insert of the same
rows are compared row by row.  They agree as long as each row that is reached repeats
its INSERT.
-/

set_option autoImplicit false

namespace Pantheon.Sql

open Pantheon.Lib Pantheon.Keystone

variable {ETag : Type} [DecidableEq ETag] (env : DmlLibrary)

namespace Server

/-! ## All rows -/

section Rows

variable {ETag Item Other : Type}

theorem eachRow_map (convert : Item → Other)
    (body : Server ETag → Nat → Other → Server ETag × Except String Unit) (items : List Item) :
    ∀ (number : Nat) (server : Server ETag),
      eachRow body number (items.map convert) server =
        eachRow (fun server number item => body server number (convert item)) number items
          server := by
  induction items with
  | nil => intro number server; rfl
  | cons item items ih =>
      intro number server
      rw [List.map_cons, eachRow, eachRow]
      split
      · rfl
      · exact ih _ _

theorem eachRow_congr {body other : Server ETag → Nat → Item → Server ETag × Except String Unit}
    (items : List Item) : ∀ (number : Nat) (server : Server ETag),
      (∀ server item, ∀ later < number + items.length, body server later item =
        other server later item) →
      eachRow body number items server = eachRow other number items server := by
  induction items with
  | nil => intro number server _; rfl
  | cons item items ih =>
      intro number server same
      rw [eachRow, eachRow, same server item number (by simp)]
      split
      · rfl
      · apply ih
        intro server item later before
        apply same
        rw [List.length_cons]
        omega

theorem eachRow_append_single
    (body : Server ETag → Nat → Item → Server ETag × Except String Unit) (items : List Item)
    (last : Item) : ∀ (number : Nat) (server : Server ETag),
      eachRow body number (items ++ [last]) server =
        match eachRow body number items server with
        | (server, .error error) => (server, .error error)
        | (server, .ok ()) => body server (number + items.length) last := by
  induction items with
  | nil =>
      intro number server
      simp only [List.nil_append, eachRow, List.length_nil, Nat.add_zero]
      rcases body server number last with ⟨next, result⟩
      cases result <;> rfl
  | cons item items ih =>
      intro number server
      rw [List.cons_append, eachRow, eachRow]
      rcases body server number item with ⟨next, result⟩
      cases result with
      | error error => rfl
      | ok =>
          simp only [ih, List.length_cons]
          rw [Nat.add_assoc, Nat.add_comm 1]

end Rows

end Server

def Surroundings.withIo (around : Surroundings) (ios : Nat → Io) : Surroundings :=
  { around with io := ios }

def CopyStmt.insertOf (copy : CopyStmt) (rows : List TextRow) : InsertStmt :=
  ⟨copy.table, copy.columns, rows.map TextRow.values⟩

/-- Importing any first rows leaves what their INSERT leaves, and completes when it does:
however the text is cut into messages, and whatever I/O the writes meet. -/
def CopyAgrees (server : Server ETag) (session : Option Nat) (around : Surroundings)
    (copy : CopyStmt) (rows : List TextRow) : Prop :=
  ∀ (ios : Nat → Io) (count : Nat), count < rows.length → ∀ pieces : List Bytes,
    pieces.flatten = copyText (rows.take (count + 1)) →
      let copied := server.handleCopyIn env (around.withIo ios) copy
        (pieces.map CopyMessage.data ++ [.done])
      let inserted := server.executeInsert env session (around.withIo ios)
        (copy.insertOf (rows.take (count + 1)))
      copied.2.isComplete = inserted.2.isOk ∧ SameState copied.1 inserted.1

section Runs

variable {env} {server : Server ETag} {session : Option Nat} {around : Surroundings}
  {copy : CopyStmt} {table : TableDef} {target : List Nat} {rows : List TextRow}

theorem executeInsert_rows (found : server.getTable copy.table = some table)
    (rows : List TextRow) :
    server.executeInsert env session around (copy.insertOf rows) =
      Server.eachRow (fun server number (row : TextRow) =>
        server.insertRow env session around table copy.columns number row.values) 0 rows server := by
  simp only [Server.executeInsert, CopyStmt.insertOf, found]
  exact Server.eachRow_map TextRow.values _ rows 0 server

omit [DecidableEq ETag] in
theorem eachRow_take_succ {body : Server ETag → Nat → TextRow → Server ETag × Except String Unit}
    {count : Nat} (inside : count < rows.length) :
    Server.eachRow body 0 (rows.take (count + 1)) server =
      match Server.eachRow body 0 (rows.take count) server with
      | (server, .error error) => (server, .error error)
      | (server, .ok ()) => body server count rows[count] := by
  have length : (rows.take count).length = count := List.length_take_of_le (le_of_lt inside)
  rw [List.take_succ_eq_append_getElem inside, Server.eachRow_append_single, length, Nat.zero_add]

variable (env session around) in
theorem copy_rows_alike (found : server.getTable copy.table = some table)
    (columns : targetColumns table copy.columns = .ok target) :
    ∀ count, (within : count ≤ rows.length) →
      (∀ earlier, (before : earlier < count) →
        (server.executeInsert env session around (copy.insertOf (rows.take earlier))).2 = .ok () →
        (server.executeInsert env session around (copy.insertOf (rows.take earlier))).1.CopyRepeats
          env session around table copy.columns target earlier (rows.get ⟨earlier, by omega⟩)) →
      (server.copyRows env around table target 0 (rows.take count)).1.Alike
          (server.executeInsert env session around (copy.insertOf (rows.take count))).1 ∧
        (server.copyRows env around table target 0 (rows.take count)).2.isOk =
          (server.executeInsert env session around (copy.insertOf (rows.take count))).2.isOk := by
  intro count
  induction count with
  | zero =>
      intro _ _
      rw [executeInsert_rows found]
      exact ⟨Server.Alike.refl server, rfl⟩
  | succ count ih =>
      intro within repeats
      have inside : count < rows.length := by omega
      have next := repeats count (Nat.lt_succ_self count)
      have before := ih (le_of_lt inside) fun earlier less =>
        repeats earlier (Nat.lt_succ_of_lt less)
      rw [executeInsert_rows found] at before next ⊢
      rw [Server.copyRows] at before ⊢
      rw [eachRow_take_succ inside, eachRow_take_succ inside]
      cases inserted : Server.eachRow (fun server number (row : TextRow) =>
          server.insertRow env session around table copy.columns number row.values) 0
          (rows.take count) server with
      | mk right rightResult =>
          cases copied : Server.eachRow (fun server number (row : TextRow) =>
              server.insertCopyRow env around number table target row.cells) 0
              (rows.take count) server with
          | mk left leftResult =>
              rw [inserted] at before next
              rw [copied] at before
              cases rightResult with
              | error message =>
                  cases leftResult with
                  | error other => exact before
                  | ok => cases before.2
              | ok =>
                  cases leftResult with
                  | error other => cases before.2
                  | ok => exact Server.copy_step columns before.1 (next rfl)

variable (env server session around copy) in
theorem executeInsert_io (ios other : Nat → Io) {count : Nat}
    (same : ∀ number < count, ios number = other number) (within : count ≤ rows.length) :
    server.executeInsert env session (around.withIo ios) (copy.insertOf (rows.take count)) =
      server.executeInsert env session (around.withIo other)
        (copy.insertOf (rows.take count)) := by
  cases found : server.getTable copy.table with
  | none => simp only [Server.executeInsert, CopyStmt.insertOf, found]
  | some table =>
      rw [executeInsert_rows found, executeInsert_rows found]
      apply Server.eachRow_congr
      intro server row later before
      rw [Nat.zero_add, List.length_take_of_le within] at before
      have io := same later before
      unfold Server.insertRow Server.writeRow
      simp only [Surroundings.withIo, io]
      rfl

variable (env session around) in
theorem executeInsert_unknown (found : server.getTable copy.table = some table) {message : String}
    (unknown : targetColumns table copy.columns = .error message) {count : Nat}
    (inside : count < rows.length) : ∃ error,
      server.executeInsert env session around (copy.insertOf (rows.take (count + 1))) =
        (server, .error error) := by
  obtain ⟨row, rest, split⟩ : ∃ row rest, rows.take (count + 1) = row :: rest := by
    cases rows with
    | nil => exact absurd inside (Nat.not_lt_zero _)
    | cons row rest => exact ⟨row, rest.take count, rfl⟩
  obtain ⟨error, resolved⟩ := Server.insertCells_unknown env around 0 unknown row.values
  refine ⟨error, ?_⟩
  rw [executeInsert_rows found, split, Server.eachRow, Server.insertRow, resolved]

omit [DecidableEq ETag] in
theorem Server.CopyRepeats.withIo {ios other : Nat → Io} {number : Nat} {row : TextRow}
    {columns : List String}
    (repeats : server.CopyRepeats env session (around.withIo ios) table columns target number row) :
    server.CopyRepeats env session (around.withIo other) table columns target number row := by
  cases repeats with
  | otherWidth width => exact .otherWidth width
  | refused reader unstaged => exact .refused reader unstaged
  | inserted outside cells accepted key value => exact .inserted outside cells accepted key value

variable (table target) in
theorem repeats_of_agrees (found : server.getTable copy.table = some table)
    (columns : targetColumns table copy.columns = .ok target)
    (agrees : CopyAgrees env server session around copy rows) :
    ∀ (count : Nat) (ios : Nat → Io) (inside : count < rows.length),
      (server.executeInsert env session (around.withIo ios)
        (copy.insertOf (rows.take count))).2 = .ok () →
      (server.executeInsert env session (around.withIo ios)
        (copy.insertOf (rows.take count))).1.CopyRepeats env session (around.withIo ios) table
          copy.columns target count rows[count] := by
  intro count
  induction count using Nat.strong_induction_on with
  | _ count ih =>
      intro ios inside accepted
      -- the rows before meet the same I/O, and the write of this row is logged
      let other : Nat → Io := fun number => if number < count then ios number else Io.sound
      have same := executeInsert_io env server session around copy ios other
        (fun number before => (if_pos before).symm) (le_of_lt inside)
      rw [same] at accepted ⊢
      have before := copy_rows_alike env session (around.withIo other) found columns count
        (le_of_lt inside) fun earlier less => ih earlier less other (less.trans inside)
      have copied := handleCopyIn_text env (around.withIo other) found columns
        (rows.take (count + 1)) List.flatten_singleton
      obtain ⟨complete, state⟩ := agrees other count inside [copyText (rows.take (count + 1))]
        (by simp)
      rw [copied.2] at complete
      rw [copied.1] at state
      rw [executeInsert_rows found] at complete state before accepted ⊢
      rw [Server.copyRows] at complete state before
      rw [eachRow_take_succ inside, eachRow_take_succ inside] at complete state
      cases inserted : Server.eachRow (fun server number (row : TextRow) =>
          server.insertRow env session (around.withIo other) table copy.columns number row.values) 0
          (rows.take count) server with
      | mk right rightResult =>
          cases imported : Server.eachRow (fun server number (row : TextRow) =>
              server.insertCopyRow env (around.withIo other) number table target row.cells) 0
              (rows.take count) server with
          | mk left leftResult =>
              rw [inserted] at complete state before accepted
              rw [imported] at complete state before
              simp only at accepted
              subst accepted
              cases leftResult with
              | error message => cases before.2
              | ok =>
                  have append : ((around.withIo other).io count).append = none := by
                    simp [Surroundings.withIo, other, Io.sound]
                  exact (Server.copy_step_only before.1 append state complete).withIo

/-- COPY of any rows does what INSERT does exactly when each row that is reached repeats its
INSERT. -/
theorem copy_agrees_iff (found : server.getTable copy.table = some table) :
    CopyAgrees env server session around copy rows ↔
      ∀ target, targetColumns table copy.columns = .ok target →
        ∀ (ios : Nat → Io) (count : Nat) (inside : count < rows.length),
          let before := server.executeInsert env session (around.withIo ios)
            (copy.insertOf (rows.take count))
          before.2 = .ok () →
            before.1.CopyRepeats env session (around.withIo ios) table copy.columns target count
              rows[count] := by
  constructor
  · intro agrees target columns ios count inside before accepted
    exact repeats_of_agrees table target found columns agrees count ios inside accepted
  · intro repeats ios count inside pieces stream
    cases columns : targetColumns table copy.columns with
    | error message =>
        obtain ⟨error, refused⟩ := executeInsert_unknown env session (around.withIo ios) found
          columns inside
        simp only [Server.handleCopyIn, found, columns, refused]
        exact ⟨rfl, rfl, rfl⟩
    | ok target =>
        have copied := handleCopyIn_text env (around.withIo ios) found columns
          (rows.take (count + 1)) stream
        have alike := copy_rows_alike env session (around.withIo ios) found columns (count + 1)
          inside fun earlier before => repeats target columns ios earlier (by omega)
        refine ⟨copied.2.trans alike.2, ?_, ?_⟩
        · rw [copied.1]
          exact alike.1.host
        · rw [copied.1]
          exact alike.1.handles

end Runs

/-! ## A table of notes -/

def plainLibrary : DmlLibrary where
  lib := libraryOne
  serde := serdeOne
  jsonb := decodes_libraryOne
  canonicalVector _ := none
  parseMode _ := none
  schemaErrors _ _ _ := []
  debugText text := text

def plainSurroundings : Surroundings :=
  ⟨fun _ _ ctx expr => eval libraryOne ctx expr, [], fun _ => Io.sound, fun _ => 0, fun _ => false⟩

theorem zero_notMem_notes : 0 ∉ utf8Bytes "notes" := by decide

def notesTable : TableDef :=
  ⟨"notes", [⟨⟨"note", .text⟩, true, none⟩], [0], [], [], [], zero_notMem_notes⟩

def notesServer : Server Nat :=
  Server.start (fun manifest => manifest.maxCommitSeq) (fun lease => lease.fencingToken) 1
    [notesTable] false

def notesCopy : CopyStmt := ⟨"notes", []⟩

/-- The row of a copy is there before the COMMIT of its transaction, and after its ROLLBACK. -/
theorem copy_in_transaction_commits :
    ¬ CopyAgrees plainLibrary { notesServer with database := notesServer.database.beginTxn }
      (some 0) plainSurroundings notesCopy [⟨some "a", []⟩] := by
  intro agrees
  have repeats := repeats_of_agrees notesTable [0] rfl rfl agrees 0
    (fun _ => Io.sound) Nat.one_pos rfl
  cases repeats with
  | otherWidth width => exact absurd rfl width
  | refused reader unstaged => cases reader
  | inserted outside cells accepted key value => cases outside

theorem copy_of_note_agrees :
    CopyAgrees plainLibrary notesServer none plainSurroundings notesCopy [⟨some "a", []⟩] := by
  have found : notesServer.getTable notesCopy.table = some notesTable := rfl
  apply (copy_agrees_iff found).mpr
  intro target columns ios count inside before accepted
  obtain rfl : count = 0 := Nat.lt_one_iff.mp inside
  cases columns
  refine copyRepeats_of_checked ?_ rfl rfl (fun column member absent => ?_) rfl rfl
  · intro number position text
    cases text <;> rfl
  · cases List.mem_singleton.mp member
    exact absurd List.mem_cons_self absent

end Pantheon.Sql
