import Mathlib
import Pantheon.Keystone.ReturnedWrites
import Pantheon.Keystone.TornReads
import Pantheon.Lib.FirstFailure
import Pantheon.Sql.CopyInsert
import Pantheon.Sql.StoredTables

/-!
# What a failed statement leaves behind

INSERT, UPDATE and DELETE work through their rows one at a time.  Outside a transaction each
row is a commit of its own, in a transaction each row is staged; the rows in front of the one
that fails are not taken back.
-/

set_option autoImplicit false

namespace Pantheon.Sql

open Pantheon.Lib Pantheon.Keystone

variable {ETag : Type}

/-- What a row of a statement is to write, and the checks in front of it. -/
structure Change (ETag : Type) where
  key : Bytes
  value : Option Bytes
  check : Server ETag → Except String Unit

/-- One row of a statement: the change its expressions come to, if any, and the I/O of its
write. -/
structure RowStep (ETag : Type) where
  run : Server ETag → Server ETag × Except String Unit
  draft : Except String (Option (Change ETag))
  io : Io

inductive Statement where
  | insert (stmt : InsertStmt)
  | update (stmt : UpdateStmt)
  | delete (stmt : DeleteStmt)

def Statement.table : Statement → String
  | .insert stmt => stmt.table
  | .update stmt => stmt.table
  | .delete stmt => stmt.table

def RowStep.change (step : RowStep ETag) : Option (Change ETag) :=
  match step.draft with
  | .ok change => change
  | .error _ => none

def writesOf (table : String) (steps : List (RowStep ETag)) : List (Bytes × Option Bytes) :=
  (steps.filterMap RowStep.change).map fun change => (makeKey table change.key, change.value)

namespace Server

variable [DecidableEq ETag] (env : DmlLibrary) (server : Server ETag) (session : Option Nat)
  (around : Surroundings)

def execute : Statement → Server ETag × Except String Unit
  | .insert insert => server.executeInsert env session around insert
  | .update update => server.executeUpdate env session around update
  | .delete delete => server.executeDelete env session around delete

def insertSteps (table : TableDef) (insert : InsertStmt) : List (RowStep ETag) :=
  insert.values.zipIdx.map fun row =>
    { run := fun current => current.insertRow env session around table insert.columns row.2 row.1
      draft := (insertCells env around table insert.columns row.2 row.1).map fun cells =>
        some
          { key := rowKeyOf table cells
            value := some (buildRowValue env.serde table.schema server.binaryJson cells)
            check := fun current => current.checkRow env session table cells none }
      io := around.io row.2 }

def updateSteps (table : TableDef) (update : UpdateStmt) : List (RowStep ETag) :=
  (server.scan session update.table).zipIdx.map fun stored =>
    { run := fun current => current.updateRow env session around table update stored.2 stored.1
      draft :=
        if rowMatches env around stored.2 (some table.schema) (parseStored env stored.1.2)
            update.where_ then
          (updatedCells env around table update.assignments stored.2
            (parseStored env stored.1.2)).map fun cells =>
              some
                { key := stored.1.1
                  value := some (buildRowValue env.serde table.schema server.binaryJson cells)
                  check := fun current =>
                    current.checkRow env session table cells (some stored.1.1) }
        else .ok none
      io := around.io stored.2 }

def deleteSteps (delete : DeleteStmt) : List (RowStep ETag) :=
  let table := server.getTable delete.table
  (server.scan session delete.table).zipIdx.map fun stored =>
    { run := fun current =>
        let row := parseStored env stored.1.2
        if rowMatches env around stored.2 (table.map TableDef.schema) row delete.where_ then
          current.deleteRow session around stored.2 delete.table table stored.1.1 row
        else (current, .ok ())
      draft := .ok
        (if rowMatches env around stored.2 (table.map TableDef.schema)
            (parseStored env stored.1.2) delete.where_ then
          some { key := stored.1.1, value := none, check := fun _ => .ok () }
        else none)
      io := around.io stored.2 }

def rowSteps : Statement → List (RowStep ETag)
  | .insert insert =>
      match server.getTable insert.table with
      | none => []
      | some table => server.insertSteps env session around table insert
  | .update update =>
      match server.getTable update.table with
      | none => []
      | some table => server.updateSteps env session around table update
  | .delete delete => server.deleteSteps env session around delete

/-! ## The property and its condition -/

/-- What the session reads, and what its COMMIT will write. -/
structure Unchanged (before after : Server ETag) (session : Option Nat) : Prop where
  rows : ∀ table, after.scan session table = before.scan session table
  staged : after.txnOf session = before.txnOf session

def reads (key : Bytes) : Option Bytes := server.database.host.engine.readAt key u64Max

/-- Between two calls, all of which returned `Ok`, with `rows` numbers left for commits. -/
structure Ready (rows : Nat) : Prop where
  settled : server.database.Settled
  counted : server.database.host.engine.write.nextCommitSeq + rows ≤ u64Max + 1

/-- The write of a row that gets into the log: the row passes its checks, on a node that is no
reader, and the append goes through. -/
def loggedWrites (table : String) (step : RowStep ETag) : List (Bytes × Option Bytes) :=
  match step.draft with
  | .ok (some change) =>
      if server.database.role ≠ .reader ∧ step.io.append = none ∧
          (change.check server).isOk = true then
        [(makeKey table change.key, change.value)]
      else []
  | _ => []

/-- What the rows in front of a failing one write to each key last is there already: as what is
read, outside a transaction, where the failing row counts if it gets into the log, and staged, in
one. -/
def Spares (table : String) (front : List (RowStep ETag)) (current : Server ETag)
    (step : RowStep ETag) : Prop :=
  match session with
  | none => ∀ key value, (OrdMap.empty.insertAll
      (writesOf table front ++ current.loggedWrites table step)).get? key = some value →
        server.reads key = value
  | some index => ∀ txn, server.database.txnAt index = some txn →
      ∀ key value, (OrdMap.empty.insertAll (writesOf table front)).get? key = some value →
        txn.staged.get? key = some value

def Quiet (table : String) (front : List (RowStep ETag)) (current : Server ETag)
    (step : RowStep ETag) : Prop :=
  writesOf table front = [] ∧ (session = none → current.loggedWrites table step = [])

/-- The statement meets `current` at the row at `number`, and fails there. -/
def StopsAt (statement : Statement) (number : Nat) (current : Server ETag) : Prop :=
  ∃ final error,
    FailsAt ((server.rowSteps env session around statement).map RowStep.run) server number
      current final error

end Server

/-! ## The write of a row -/

section Write

variable [DecidableEq ETag]

def rowWrite (database : Keystone.Database ETag) (session : Option Nat) (io : Io) (table : String)
    (key : Bytes) : Option Bytes → Keystone.Database ETag × Except DatabaseError Unit
  | some value => database.txnWrite session io table key value
  | none => database.txnDelete session io table key

theorem rowWrite_autocommit (database : Keystone.Database ETag) (io : Io) (table : String)
    (key : Bytes) (value : Option Bytes) :
    rowWrite database none io table key value = database.autocommit io table key value := by
  cases value <;> rfl

theorem rowWrite_staged {database : Keystone.Database ETag} {index : Nat} {txn : Txn}
    (held : database.txnAt index = some txn) (unfinished : txn.finished = false) (io : Io)
    (table : String) (key : Bytes) (value : Option Bytes) :
    (rowWrite database (some index) io table key value).2 = .ok () ∧
      (rowWrite database (some index) io table key value).1.host = database.host ∧
      (rowWrite database (some index) io table key value).1.txnAt index =
        some { txn with staged := txn.staged.insert (makeKey table key) value } := by
  have restaged : ∀ update : Txn → Txn,
      (database.restage index update).txnAt index = some (update txn) := by
    intro update
    obtain ⟨handle, found, rfl⟩ := Option.map_eq_some_iff.mp held
    rw [Database.txnAt, Database.restage, List.getElem?_modify, found]
    simp
  cases value with
  | none =>
      refine ⟨rfl, rfl, (restaged _).trans ?_⟩
      simp [Txn.stageDelete, unfinished]
  | some value =>
      refine ⟨rfl, rfl, (restaged _).trans ?_⟩
      simp [Txn.stageWrite, unfinished]

theorem autocommit_unlogged (database : Keystone.Database ETag) {io : Io}
    (append : io.append ≠ none) (table : String) (key : Bytes) (value : Option Bytes) :
    (database.autocommit io table key value).1.host.engine.view = database.host.engine.view ∧
      (database.autocommit io table key value).2.isOk = false := by
  obtain ⟨written, failure⟩ := Option.ne_none_iff_exists'.mp append
  by_cases reader : database.role = .reader
  · obtain ⟨host, refused⟩ := database.autocommit_reader reader io table key value
    rw [host, refused]
    exact ⟨rfl, rfl⟩
  · simp only [Database.autocommit, Database.recorded, if_neg reader]
    rcases ran : database.host.engine.persist database.host.store io
        [⟨table, makeKey table key, value⟩] with ⟨engine, store, result⟩
    obtain ⟨next, outcome⟩ := database.persist_spec io _ ran
    rw [next, outcome]
    unfold LsmEngine.persist at ran
    rw [failure] at ran
    cases ran
    exact ⟨rfl, rfl⟩

/-- A write that is logged between two calls is what is read from then on, whatever fails behind
the log. -/
theorem autocommit_logged {database : Keystone.Database ETag} (settled : database.Settled)
    (counted : database.host.engine.write.nextCommitSeq + 1 ≤ u64Max + 1)
    (writer : database.role ≠ .reader) {io : Io} (append : io.append = none) (table : String)
    (key : Bytes) (value : Option Bytes) :
    let next := (database.autocommit io table key value).1
    (∀ other, next.host.engine.readAt other u64Max =
        if other = makeKey table key then value
        else database.host.engine.readAt other u64Max) ∧
      next.host.engine.write.nextCommitSeq = database.host.engine.write.nextCommitSeq + 1 ∧
      ((database.autocommit io table key value).2 = .ok () → next.Settled) := by
  have distinct : DistinctKeys [(⟨table, makeKey table key, value⟩ : BatchEntry)] :=
    List.nodup_singleton _
  have inserted := settled.live.persist_inserted settled.rest append distinct
  rcases ran : database.host.engine.persist database.host.store io
      [⟨table, makeKey table key, value⟩] with ⟨engine, store, result⟩
  rw [ran] at inserted
  obtain ⟨next, outcome⟩ := database.persist_spec io _ ran
  rw [if_pos append] at next
  simp only [Database.autocommit, Database.recorded, if_neg writer]
  refine ⟨fun other => ?_, by rw [next]; exact inserted.counted, fun returned => ?_⟩
  · have latest := congrFun (inserted.latest settled.live) other
    have after := inserted.live.readAt_u64Max (by rw [inserted.counted]; exact counted) other
    rw [next]
    refine (after.trans latest).trans ?_
    rw [settled.live.readAt_u64Max (by omega), overlay, Host.writesOf]
    by_cases same : other = makeKey table key
    · subst same
      simp
    · rw [if_neg same]
      simp [Ne.symm same]
  · exact (settled.persist_returned distinct returned).settled.forget _

end Write

/-! ## One row -/

/-- What becomes of a row that is reached. -/
inductive Ran [DecidableEq ETag] (session : Option Nat) (table : String) (step : RowStep ETag)
    (current : Server ETag) : Server ETag × Except String Unit → Prop where
  | failed (error : String) (draft : step.draft = .error error) :
      Ran session table step current (current, .error error)
  | skipped (draft : step.draft = .ok none) : Ran session table step current (current, .ok ())
  | rejected (change : Change ETag) (error : String) (draft : step.draft = .ok (some change))
      (check : change.check current = .error error) :
      Ran session table step current (current, .error error)
  | wrote (change : Change ETag) (outcome : Server ETag × Except String Unit)
      (draft : step.draft = .ok (some change)) (check : change.check current = .ok ())
      (database : outcome.1.database =
        (rowWrite current.database session step.io table change.key change.value).1)
      (tables : outcome.1.tables = current.tables)
      (binaryJson : outcome.1.binaryJson = current.binaryJson)
      (ok : outcome.2.isOk =
        (rowWrite current.database session step.io table change.key change.value).2.isOk) :
      Ran session table step current outcome

namespace Server

variable [DecidableEq ETag] {env : DmlLibrary} {server current : Server ETag}
  {session : Option Nat} {around : Surroundings} {step : RowStep ETag}

theorem insertSteps_run {table : TableDef} {insert : InsertStmt}
    (binaryJson : current.binaryJson = server.binaryJson)
    (member : step ∈ server.insertSteps env session around table insert) :
    Ran session table.name step current (step.run current) := by
  obtain ⟨⟨values, number⟩, _, rfl⟩ := List.mem_map.mp member
  dsimp only
  unfold insertRow
  cases resolved : insertCells env around table insert.columns number values with
  | error error => exact Ran.failed error rfl
  | ok cells =>
      dsimp only
      cases checked : current.checkRow env session table cells none with
      | error error => exact Ran.rejected _ error rfl checked
      | ok =>
          obtain ⟨database, tables, sameJson, ok⟩ := current.writeRow_spec env session around table
            number .insert (rowKeyOf table cells) none cells
          rw [binaryJson] at database ok
          exact Ran.wrote _ _ rfl checked database tables sameJson ok

theorem updateSteps_run {table : TableDef} {update : UpdateStmt}
    (binaryJson : current.binaryJson = server.binaryJson)
    (member : step ∈ server.updateSteps env session around table update) :
    Ran session table.name step current (step.run current) := by
  obtain ⟨⟨stored, number⟩, _, rfl⟩ := List.mem_map.mp member
  dsimp only
  unfold updateRow
  dsimp only
  by_cases matches' : rowMatches env around number (some table.schema)
      (parseStored env stored.2) update.where_ = true
  · simp only [if_pos matches']
    cases updated : updatedCells env around table update.assignments number
        (parseStored env stored.2) with
    | error error => exact Ran.failed error rfl
    | ok cells =>
        dsimp only
        cases checked : current.checkRow env session table cells (some stored.1) with
        | error error => exact Ran.rejected _ error rfl checked
        | ok =>
            obtain ⟨database, tables, sameJson, ok⟩ := current.writeRow_spec env session around
              table number .update stored.1 (some (parseStored env stored.2)) cells
            rw [binaryJson] at database ok
            exact Ran.wrote _ _ rfl checked database tables sameJson ok
  · simp only [if_neg matches']
    exact Ran.skipped rfl

variable (current session around) in
theorem deleteRow_spec (name : String) (table : Option TableDef) (key : Bytes) (row : Row)
    (number : Nat) :
    let written := current.database.txnDelete session (around.io number) name key
    let outcome := current.deleteRow session around number name table key row
    outcome.1.database = written.1 ∧ outcome.1.tables = current.tables ∧
      outcome.1.binaryJson = current.binaryJson ∧ outcome.2.isOk = written.2.isOk := by
  simp only [deleteRow]
  cases current.database.txnDelete session (around.io number) name key with
  | mk database result =>
      cases result with
      | error error => exact ⟨rfl, rfl, rfl, rfl⟩
      | ok =>
          cases table with
          | none => exact ⟨rfl, rfl, rfl, rfl⟩
          | some table =>
              obtain ⟨sameDatabase, sameTables, sameJson⟩ := publishCdcEvent_frame
                { current with database := database } _ (around.publishFails number)
              exact ⟨sameDatabase, sameTables, sameJson, rfl⟩

theorem deleteSteps_run {delete : DeleteStmt}
    (member : step ∈ server.deleteSteps env session around delete) :
    Ran session delete.table step current (step.run current) := by
  obtain ⟨⟨stored, number⟩, _, rfl⟩ := List.mem_map.mp member
  dsimp only
  by_cases matches' : rowMatches env around number
      ((server.getTable delete.table).map TableDef.schema) (parseStored env stored.2)
      delete.where_ = true
  · simp only [if_pos matches']
    obtain ⟨database, tables, sameJson, ok⟩ := deleteRow_spec current session around
      delete.table (server.getTable delete.table) stored.1 (parseStored env stored.2) number
    exact Ran.wrote _ _ rfl rfl database tables sameJson ok
  · simp only [if_neg matches']
    exact Ran.skipped rfl

theorem rowSteps_run {statement : Statement}
    (binaryJson : current.binaryJson = server.binaryJson)
    (member : step ∈ server.rowSteps env session around statement) :
    Ran session statement.table step current (step.run current) := by
  cases statement with
  | insert stmt =>
      simp only [rowSteps] at member
      cases found : server.getTable stmt.table with
      | none =>
          rw [found] at member
          exact absurd member List.not_mem_nil
      | some table =>
          rw [found] at member
          have ran := insertSteps_run binaryJson member
          rw [getTable_name found] at ran
          exact ran
  | update stmt =>
      simp only [rowSteps] at member
      cases found : server.getTable stmt.table with
      | none =>
          rw [found] at member
          exact absurd member List.not_mem_nil
      | some table =>
          rw [found] at member
          have ran := updateSteps_run binaryJson member
          rw [getTable_name found] at ran
          exact ran
  | delete stmt => exact deleteSteps_run member

/-! ## Outside a transaction -/

/-- What one row does as a commit of its own. -/
structure CommitsRow (table : String) (current : Server ETag) (step : RowStep ETag)
    (outcome : Server ETag × Except String Unit) : Prop where
  binaryJson : outcome.1.binaryJson = current.binaryJson
  through : outcome.2 = .ok () → current.loggedWrites table step = writesOf table [step]
  quiet : current.loggedWrites table step = [] →
    outcome.1.database.host.engine.view = current.database.host.engine.view
  skipped : outcome.2 = .ok () → step.change = none → outcome.1 = current
  reads : ∀ rows, current.Ready (rows + 1) →
    outcome.1.reads = overlay (OrdMap.empty.insertAll (current.loggedWrites table step)).get?
      current.reads ∧ (outcome.2 = .ok () → outcome.1.Ready rows)

omit [DecidableEq ETag] in
theorem Ready.less {rows fewer : Nat} (ready : current.Ready rows) (less : fewer ≤ rows) :
    current.Ready fewer := ⟨ready.settled, by have counted := ready.counted; omega⟩

omit [DecidableEq ETag] in
theorem overlay_nil (rows : Bytes → Option Bytes) :
    overlay (OrdMap.empty.insertAll ([] : List (Bytes × Option Bytes))).get? rows = rows :=
  overlay_empty rfl

omit [DecidableEq ETag] in
theorem commitsRow_of_unwritten {table : String} {result : Except String Unit}
    (unlogged : current.loggedWrites table step = [])
    (through : result = .ok () → step.change = none) :
    CommitsRow table current step (current, result) := by
  refine ⟨rfl, fun ok => ?_, fun _ => rfl, fun _ _ => rfl, fun rows ready => ⟨?_, fun _ => ?_⟩⟩
  · rw [unlogged, writesOf, List.filterMap_cons_none (through ok)]
    rfl
  · rw [unlogged, overlay_nil]
  · exact ready.less (Nat.le_succ rows)

theorem commitsRow_of_ran {table : String} {outcome : Server ETag × Except String Unit}
    (ran : Ran none table step current outcome) : CommitsRow table current step outcome := by
  cases ran with
  | failed error draft =>
      exact commitsRow_of_unwritten (by rw [loggedWrites, draft]) nofun
  | skipped draft =>
      exact commitsRow_of_unwritten (by rw [loggedWrites, draft])
        fun _ => by rw [RowStep.change, draft]
  | rejected change error draft check =>
      refine commitsRow_of_unwritten ?_ nofun
      rw [loggedWrites, draft]
      dsimp only
      rw [check, if_neg (fun all => Bool.false_ne_true all.2.2)]
  | wrote change outcome draft check database tables binaryJson ok =>
      rw [rowWrite_autocommit] at database ok
      have changes : step.change = some change := by rw [RowStep.change, draft]
      have writes : writesOf table [step] = [(makeKey table change.key, change.value)] := by
        rw [writesOf, List.filterMap_cons_some changes]
        rfl
      have logs : current.loggedWrites table step =
          if current.database.role ≠ .reader ∧ step.io.append = none then writesOf table [step]
          else [] := by
        rw [loggedWrites, draft, writes]
        dsimp only
        rw [check]
        simp [Except.isOk, Except.toBool]
      -- without the log there is no write, and the row does not go through
      have unlogged : ¬(current.database.role ≠ .reader ∧ step.io.append = none) →
          outcome.1.database.host.engine.view = current.database.host.engine.view ∧
            outcome.2.isOk = false := by
        intro missing
        rw [database, ok]
        by_cases append : step.io.append = none
        · have reader : current.database.role = .reader := by
            by_contra writer
            exact missing ⟨writer, append⟩
          obtain ⟨host, refused⟩ := current.database.autocommit_reader reader step.io table
            change.key change.value
          rw [host, refused]
          exact ⟨rfl, rfl⟩
        · exact autocommit_unlogged current.database append table change.key change.value
      refine ⟨binaryJson, fun through => ?_, fun nothing => ?_, fun _ absent => ?_,
        fun rows ready => ?_⟩
      · rw [logs, if_pos]
        by_contra missing
        have failed := (unlogged missing).2
        rw [through] at failed
        cases failed
      · refine (unlogged fun both => ?_).1
        rw [logs, if_pos both, writes] at nothing
        cases nothing
      · rw [changes] at absent
        cases absent
      · by_cases both : current.database.role ≠ .reader ∧ step.io.append = none
        · have counted := ready.counted
          obtain ⟨read, number, settled⟩ := autocommit_logged ready.settled
            (by omega) both.1 both.2 table change.key change.value
          rw [logs, if_pos both, writes]
          refine ⟨?_, fun through => ?_⟩
          · funext key
            rw [Server.reads, database, read]
            have single : (OrdMap.empty.insertAll [(makeKey table change.key, change.value)]) =
                OrdMap.empty.insert (makeKey table change.key) change.value := rfl
            rw [single, overlay, OrdMap.get?_insert]
            by_cases same : key = makeKey table change.key
            · rw [if_pos same, if_pos same, Option.getD_some]
            · rw [if_neg same, if_neg same]
              rfl
          · rw [through] at ok
            have returned : (current.database.autocommit step.io table change.key
                change.value).2 = .ok () := by
              cases result : (current.database.autocommit step.io table change.key
                  change.value).2 with
              | ok => rfl
              | error error =>
                  rw [result] at ok
                  cases ok
            refine ⟨database ▸ settled returned, ?_⟩
            rw [database, number]
            omega
        · obtain ⟨view, failed⟩ := unlogged both
          rw [logs, if_neg both, overlay_nil]
          refine ⟨?_, fun through => ?_⟩
          · funext key
            rw [Server.reads, LsmEngine.readAt, view]
            rfl
          · rw [through] at failed
            cases failed

omit [DecidableEq ETag] in
theorem writesOf_cons (table : String) (step : RowStep ETag) (steps : List (RowStep ETag)) :
    writesOf table (step :: steps) = writesOf table [step] ++ writesOf table steps := by
  rw [writesOf, writesOf, writesOf, ← List.map_append, ← List.filterMap_append]
  rfl

omit [DecidableEq ETag] in
theorem overlay_append (front back : List (Bytes × Option Bytes)) (rows : Bytes → Option Bytes) :
    overlay (OrdMap.empty.insertAll (front ++ back)).get? rows =
      overlay (OrdMap.empty.insertAll back).get?
        (overlay (OrdMap.empty.insertAll front).get? rows) := by
  funext key
  rw [overlay, overlay, overlay, OrdMap.insertAll_append, OrdMap.get?_insertAll]
  cases (OrdMap.empty.insertAll back).get? key <;> rfl

/-- Rows that went through outside a transaction are read; without a write among them nothing has
happened. -/
theorem runSteps_commits {table : String} (steps : List (RowStep ETag)) :
    ∀ (server : Server ETag),
      (∀ step ∈ steps, ∀ between : Server ETag, between.binaryJson = server.binaryJson →
        Ran none table step between (step.run between)) →
      runSteps (steps.map RowStep.run) server = (current, .ok ()) →
      current.binaryJson = server.binaryJson ∧
        (writesOf table steps = [] → current = server) ∧
        ∀ rows, server.Ready (steps.length + rows) → current.Ready rows ∧
          current.reads = overlay (OrdMap.empty.insertAll (writesOf table steps)).get?
            server.reads := by
  induction steps with
  | nil =>
      intro server _ ran
      cases ran
      refine ⟨rfl, fun _ => rfl, fun rows ready => ⟨?_, (overlay_nil _).symm⟩⟩
      exact ready.less (Nat.le_add_left _ _)
  | cons step steps ih =>
      intro server each ran
      rw [List.map_cons] at ran
      obtain ⟨next, stepped, rest⟩ := runSteps_cons_eq_ok ran
      have row := commitsRow_of_ran (each step List.mem_cons_self server rfl)
      rw [stepped] at row
      have nextJson : next.binaryJson = server.binaryJson := row.binaryJson
      obtain ⟨sameJson, unwritten, readsRest⟩ := ih next
        (fun other member between json =>
          each other (List.mem_cons_of_mem _ member) between (json.trans nextJson)) rest
      refine ⟨sameJson.trans nextJson, fun nothing => ?_, fun rows ready => ?_⟩
      · rw [writesOf_cons] at nothing
        obtain ⟨first, others⟩ := List.append_eq_nil_iff.mp nothing
        have skipped : step.change = none := by
          cases change : step.change with
          | none => rfl
          | some change_ =>
              rw [writesOf, List.filterMap_cons_some change] at first
              cases first
        exact (unwritten others).trans (row.skipped rfl skipped)
      · have before := ready.less
          (show steps.length + rows + 1 ≤ (step :: steps).length + rows by
            rw [List.length_cons]; omega)
        obtain ⟨readsFirst, nextReady⟩ := row.reads (steps.length + rows) before
        obtain ⟨final, readsLast⟩ := readsRest rows (nextReady rfl)
        refine ⟨final, ?_⟩
        rw [readsLast, writesOf_cons, overlay_append, ← row.through rfl]
        exact congrArg _ readsFirst

omit [DecidableEq ETag] in
theorem reads_of_scan {after : Server ETag}
    (rows : ∀ table, after.scan none table = server.scan none table) (table : String)
    (key : Bytes) : after.reads (makeKey table key) = server.reads (makeKey table key) := by
  refine Option.ext fun value => ?_
  have left := mem_txnScan after.database.host.engine.view none table key value
  have right := mem_txnScan server.database.host.engine.view none table key value
  have same := rows table
  unfold scan txnOf at same
  rw [Option.bind_none, Option.bind_none] at same
  rw [same] at left
  exact left.symm.trans right

omit [DecidableEq ETag] in
theorem scan_of_reads {after : Server ETag} (same : after.reads = server.reads) (table : String) :
    after.scan none table = server.scan none table := by
  unfold scan txnOf
  rw [Option.bind_none, Option.bind_none]
  exact congrArg (Keystone.tableRows none table)
    (EngineView.scanAt_ext fun key => congrFun same key)

omit [DecidableEq ETag] in
theorem scan_same_iff {after : Server ETag} {writes : List (Bytes × Option Bytes)}
    (composite : ∀ write ∈ writes, ∃ table key, write.1 = makeKey table key)
    (reads : after.reads = overlay (OrdMap.empty.insertAll writes).get? server.reads) :
    (∀ table, after.scan none table = server.scan none table) ↔
      ∀ key value, (OrdMap.empty.insertAll writes).get? key = some value →
        server.reads key = value := by
  constructor
  · intro rows key value written
    obtain ⟨table, own, keyExact⟩ := composite _ (OrdMap.mem_of_get?_insertAll written)
    dsimp only at keyExact
    subst keyExact
    rw [← reads_of_scan rows table own, reads, overlay_some written]
  · intro there table
    refine scan_of_reads ?_ table
    rw [reads]
    funext key
    cases written : (OrdMap.empty.insertAll writes).get? key with
    | none => rw [overlay_none written]
    | some value => rw [overlay_some written, there key value written]

/-! ## In a transaction -/

theorem staged_of_ran {table : String} {index : Nat} {txn : Txn}
    (held : current.database.txnAt index = some txn) (unfinished : txn.finished = false)
    {outcome : Server ETag × Except String Unit}
    (ran : Ran (some index) table step current outcome) :
    outcome.1.binaryJson = current.binaryJson ∧
      outcome.1.database.host = current.database.host ∧
      (outcome.2 = .ok () → outcome.1.database.txnAt index =
        some { txn with staged := txn.staged.insertAll (writesOf table [step]) }) ∧
      (outcome.2.isOk = false → outcome.1 = current) := by
  cases ran with
  | failed error draft => exact ⟨rfl, rfl, fun ok => (by cases ok), fun _ => rfl⟩
  | skipped draft =>
      refine ⟨rfl, rfl, fun _ => ?_, fun failed => by cases failed⟩
      have nothing : step.change = none := by rw [RowStep.change, draft]
      rw [writesOf, List.filterMap_cons_none nothing]
      exact held
  | rejected change error draft check =>
      exact ⟨rfl, rfl, fun ok => (by cases ok), fun _ => rfl⟩
  | wrote change outcome draft check database tables binaryJson ok =>
      obtain ⟨through, host, staged⟩ := rowWrite_staged held unfinished step.io table change.key
        change.value
      rw [database]
      refine ⟨binaryJson, host, fun _ => ?_, fun failed => ?_⟩
      · have change : step.change = some change := by rw [RowStep.change, draft]
        rw [staged, writesOf, List.filterMap_cons_some change]
        rfl
      · rw [through, failed] at ok
        cases ok

theorem runSteps_stages {table : String} {index : Nat} (steps : List (RowStep ETag)) :
    ∀ (server : Server ETag) (txn : Txn),
      (∀ step ∈ steps, ∀ between : Server ETag, between.binaryJson = server.binaryJson →
        Ran (some index) table step between (step.run between)) →
      server.database.txnAt index = some txn → txn.finished = false →
      runSteps (steps.map RowStep.run) server = (current, .ok ()) →
      current.binaryJson = server.binaryJson ∧
        current.database.host = server.database.host ∧
        current.database.txnAt index =
          some { txn with staged := txn.staged.insertAll (writesOf table steps) } := by
  induction steps with
  | nil =>
      intro server txn _ held _ ran
      cases ran
      exact ⟨rfl, rfl, held⟩
  | cons step steps ih =>
      intro server txn each held unfinished ran
      rw [List.map_cons] at ran
      obtain ⟨next, stepped, rest⟩ := runSteps_cons_eq_ok ran
      obtain ⟨nextJson, nextHost, staged, _⟩ := staged_of_ran held unfinished
        (each step List.mem_cons_self server rfl)
      rw [stepped] at nextJson nextHost staged
      obtain ⟨sameJson, sameHost, same⟩ := ih next _
        (fun other member between json =>
          each other (List.mem_cons_of_mem _ member) between (json.trans nextJson))
        (staged rfl) unfinished rest
      refine ⟨sameJson.trans nextJson, sameHost.trans nextHost, ?_⟩
      rw [same, writesOf_cons table step steps, OrdMap.insertAll_append]

/-! ## Statements -/

omit [DecidableEq ETag] in
theorem eachRow_eq_runSteps {Item : Type}
    (body : Server ETag → Nat → Item → Server ETag × Except String Unit) (items : List Item) :
    ∀ (number : Nat) (server : Server ETag), eachRow body number items server =
      runSteps ((items.zipIdx number).map fun item current => body current item.2 item.1)
        server := by
  induction items with
  | nil =>
      intro number server
      rfl
  | cons item items ih =>
      intro number server
      rw [eachRow, List.zipIdx_cons, List.map_cons, runSteps]
      cases ran : body server number item with
      | mk next result =>
          cases result with
          | error error => rfl
          | ok => exact ih (number + 1) next

variable (env server session around) in
theorem execute_cases (statement : Statement) :
    server.rowSteps env session around statement = [] ∧
        (server.execute env session around statement).1 = server ∨
      server.execute env session around statement =
        runSteps ((server.rowSteps env session around statement).map RowStep.run) server := by
  cases statement with
  | insert stmt =>
      simp only [execute, executeInsert, rowSteps]
      cases server.getTable stmt.table with
      | none => exact Or.inl ⟨rfl, rfl⟩
      | some table =>
          refine Or.inr ?_
          dsimp only
          rw [eachRow_eq_runSteps, insertSteps, List.map_map]
          rfl
  | update stmt =>
      simp only [execute, executeUpdate, rowSteps]
      cases server.getTable stmt.table with
      | none => exact Or.inl ⟨rfl, rfl⟩
      | some table =>
          refine Or.inr ?_
          dsimp only
          rw [eachRow_eq_runSteps, updateSteps, List.map_map]
          rfl
  | delete stmt =>
      refine Or.inr ?_
      rw [execute, executeDelete, eachRow_eq_runSteps, rowSteps, deleteSteps, List.map_map]
      rfl

omit [DecidableEq ETag] in
theorem composite_writesOf (table : String) (steps : List (RowStep ETag)) :
    ∀ write ∈ writesOf table steps, ∃ table key, write.1 = makeKey table key := by
  intro write member
  obtain ⟨change, _, rfl⟩ := List.mem_map.mp member
  exact ⟨table, change.key, rfl⟩

omit [DecidableEq ETag] in
theorem composite_loggedWrites (table : String) (step : RowStep ETag) :
    ∀ write ∈ current.loggedWrites table step, ∃ table key, write.1 = makeKey table key := by
  intro write member
  unfold loggedWrites at member
  split at member
  · split_ifs at member
    · rw [List.mem_singleton.mp member]
      exact ⟨_, _, rfl⟩
    · exact absurd member List.not_mem_nil
  · exact absurd member List.not_mem_nil

variable {statement : Statement} {number : Nat} {final : Server ETag} {error : String}

theorem failing_row
    (fails : FailsAt ((server.rowSteps env session around statement).map RowStep.run) server number
      current final error)
    (there : (server.rowSteps env session around statement)[number]? = some step) :
    (∀ other ∈ (server.rowSteps env session around statement).take number,
        ∀ between : Server ETag, between.binaryJson = server.binaryJson →
          Ran session statement.table other between (other.run between)) ∧
      runSteps (((server.rowSteps env session around statement).take number).map RowStep.run)
        server = (current, .ok ()) ∧
      step.run current = (final, .error error) := by
  obtain ⟨front, failed⟩ := fails
  rw [List.getElem?_map, there] at failed
  obtain ⟨run, sameRun, stepped⟩ := failed
  cases sameRun
  rw [← List.map_take] at front
  exact ⟨fun other member between json => rowSteps_run json (List.mem_of_mem_take member), front,
    stepped⟩

/-- Where a statement failed in a transaction: what is left is unchanged when what the rows in
front write is staged already. -/
theorem unchanged_staged_iff {index : Nat} (opened : server.sessionOpen (some index) = true)
    (fails : FailsAt ((server.rowSteps env (some index) around statement).map RowStep.run) server
      number current final error)
    (there : (server.rowSteps env (some index) around statement)[number]? = some step) :
    server.Unchanged final (some index) ↔ server.Spares (some index) statement.table
      ((server.rowSteps env (some index) around statement).take number) current step := by
  obtain ⟨each, front, stepped⟩ := failing_row fails there
  obtain ⟨txn, held, unfinished⟩ := sessionOpen_txn opened
  obtain ⟨sameJson, sameHost, staged⟩ := runSteps_stages _ server txn each held unfinished front
  obtain ⟨_, _, _, kept⟩ := staged_of_ran staged unfinished
    (rowSteps_run sameJson (List.mem_of_getElem? there))
  rw [stepped] at kept
  have last : final = current := kept rfl
  rw [last]
  have same := OrdMap.insertAll_eq_self_iff txn.staged
    (writesOf statement.table ((server.rowSteps env (some index) around statement).take number))
  constructor
  · rintro ⟨_, unstaged⟩
    intro other otherHeld
    rw [held] at otherHeld
    cases otherHeld
    apply same.mp
    have both : some _ = some txn := (staged.symm.trans unstaged).trans held
    exact congrArg Txn.staged (Option.some.inj both)
  · intro spares
    rw [same.mpr (spares txn held)] at staged
    refine ⟨fun table => ?_, staged.trans held.symm⟩
    unfold scan txnOf
    rw [sameHost, Option.bind_some, Option.bind_some, staged, held]

theorem unchanged_logged_iff
    (ready : server.Ready (server.rowSteps env none around statement).length)
    (fails : FailsAt ((server.rowSteps env none around statement).map RowStep.run) server number
      current final error)
    (there : (server.rowSteps env none around statement)[number]? = some step) :
    server.Unchanged final none ↔ server.Spares none statement.table
      ((server.rowSteps env none around statement).take number) current step := by
  obtain ⟨each, front, stepped⟩ := failing_row fails there
  obtain ⟨sameJson, _, reads⟩ := runSteps_commits _ server each front
  have inside := (List.getElem?_eq_some_iff.mp there).1
  obtain ⟨currentReady, currentReads⟩ := reads 1 (ready.less (by rw [List.length_take]; omega))
  have row := commitsRow_of_ran (rowSteps_run sameJson (List.mem_of_getElem? there))
  rw [stepped] at row
  have finalReads := (row.reads 0 currentReady).1
  dsimp only at finalReads
  rw [currentReads, ← overlay_append] at finalReads
  have same := scan_same_iff (fun write member => ?_) finalReads
  · exact ⟨fun unchanged => same.mp unchanged.rows, fun spares => ⟨same.mpr spares, rfl⟩⟩
  · rcases List.mem_append.mp member with before | own
    · exact composite_writesOf _ _ write before
    · exact composite_loggedWrites _ _ write own

theorem unchanged_of_quiet (opened : server.sessionOpen session = true)
    (fails : FailsAt ((server.rowSteps env session around statement).map RowStep.run) server number
      current final error)
    (there : (server.rowSteps env session around statement)[number]? = some step)
    (quiet : Quiet session statement.table
      ((server.rowSteps env session around statement).take number) current step) :
    server.Unchanged final session := by
  obtain ⟨nothing, unlogged⟩ := quiet
  cases session with
  | some index =>
      refine (unchanged_staged_iff opened fails there).mpr fun txn held key value written => ?_
      rw [nothing] at written
      cases written
  | none =>
      obtain ⟨each, front, stepped⟩ := failing_row fails there
      obtain ⟨sameJson, unwritten, _⟩ := runSteps_commits _ server each front
      have row := commitsRow_of_ran (rowSteps_run sameJson (List.mem_of_getElem? there))
      rw [stepped] at row
      have view := row.quiet (unlogged rfl)
      rw [unwritten nothing] at view
      exact ⟨fun table => by unfold scan; rw [view]; rfl, rfl⟩

theorem stopsAt_of_error (failed : (server.execute env session around statement).2 = .error error) :
    (server.execute env session around statement).1 = server ∨ ∃ number step current,
      (server.rowSteps env session around statement)[number]? = some step ∧
        FailsAt ((server.rowSteps env session around statement).map RowStep.run) server number
          current (server.execute env session around statement).1 error := by
  rcases server.execute_cases env session around statement with ⟨_, same⟩ | ran
  · exact Or.inl same
  · right
    cases outcome : runSteps ((server.rowSteps env session around statement).map RowStep.run)
        server with
    | mk final result =>
        rw [ran, outcome] at failed ⊢
        cases failed
        obtain ⟨number, current, fails⟩ := exists_failsAt outcome
        obtain ⟨run, there, _⟩ := fails.failed
        rw [List.getElem?_map] at there
        obtain ⟨step, found, _⟩ := Option.map_eq_some_iff.mp there
        exact ⟨number, step, current, found, fails⟩

end Server

/-! ## Two notes, one with a value too many -/

/-- `INSERT INTO notes VALUES …` of these rows. -/
def addNotes (rows : List (List Expr)) : Statement := .insert ⟨"notes", [], rows⟩

def note (text : String) : Expr := .literal (.text text)

end Pantheon.Sql
