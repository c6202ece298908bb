import Mathlib
import Pantheon.Keystone.StoredRows
import Pantheon.Sql.CopyRow

/-!
# A property of every row of every table

A statement writes the rows it builds, and no other.  A property that each of these
rows has therefore holds of every stored and every staged row, also when the statement
or the I/O of a write fails.
-/

set_option autoImplicit false

namespace Pantheon.Keystone

open Pantheon.Lib

theorem makeKey_inj {left right : String} (leftPlain : 0 ∉ utf8Bytes left)
    (rightPlain : 0 ∉ utf8Bytes right) {first second : Bytes}
    (same : makeKey left first = makeKey right second) : left = right ∧ first = second := by
  have split : utf8Bytes left ++ 0 :: first = utf8Bytes right ++ 0 :: second := by
    have leftExact : makeKey left first = utf8Bytes left ++ 0 :: first := List.append_assoc ..
    have rightExact : makeKey right second = utf8Bytes right ++ 0 :: second :=
      List.append_assoc ..
    rw [← leftExact, same, rightExact]
  have lengths : (utf8Bytes left).length = (utf8Bytes right).length := by
    have leftIndex := findIdx?_zero (utf8Bytes left) leftPlain first
    rw [split, findIdx?_zero (utf8Bytes right) rightPlain second] at leftIndex
    exact (Option.some.inj leftIndex).symm
  obtain ⟨names, rest⟩ := List.append_inj split lengths
  refine ⟨?_, (List.cons.inj rest).2⟩
  have read := fromUTF8_utf8Bytes left
  rw [names, fromUTF8_utf8Bytes] at read
  exact (Option.some.inj read).symm

end Pantheon.Keystone

namespace Pantheon.Sql

open Pantheon.Lib Pantheon.Keystone

namespace Server

variable {ETag : Type} {server : Server ETag} {good : TableDef → Bytes → Bytes → Prop}

variable {name : String} {next : Server ETag} {allowed : Server ETag → ServerCall → Prop}

theorem getTable_name {table : TableDef}
    (found : server.getTable name = some table) : table.name = name := by
  have hit := List.find?_some found
  exact beq_iff_eq.mp hit

theorem sessionOpen_txn {session : Nat} (opened : server.sessionOpen (some session) = true) :
    ∃ txn, server.database.txnAt session = some txn ∧ txn.finished = false := by
  dsimp only [sessionOpen] at opened
  cases found : server.database.txnAt session with
  | none =>
      rw [found] at opened
      cases opened
  | some txn =>
      rw [found] at opened
      exact ⟨txn, rfl, by simpa using opened⟩

def EveryRow (good : TableDef → Bytes → Bytes → Prop) (server : Server ETag) : Prop :=
  server.database.EveryRow fun composite value => ∀ name table key,
    server.getTable name = some table → composite = makeKey name key → good table key value

theorem EveryRow.scanned (every : server.EveryRow good) {session : Option Nat}
    {table : TableDef} (found : server.getTable name = some table) {key value : Bytes}
    (member : (key, value) ∈ server.scan session name) : good table key value :=
  every.read ((mem_txnScan _ _ _ _ _).mp member) name table key found rfl

theorem EveryRow.database (tables : next.tables = server.tables)
    (every : next.database.EveryRow fun composite value => ∀ name table key,
      server.getTable name = some table → composite = makeKey name key → good table key value) :
    next.EveryRow good := by
  unfold EveryRow getTable
  rw [tables]
  exact every

theorem EveryRow.started (manifestEtag : Manifest → ETag) (leaseEtag : Lease → ETag) (token : Nat)
    (tables : List TableDef) (binaryJson : Bool) :
    (start manifestEtag leaseEtag token tables binaryJson).EveryRow good :=
  Database.EveryRow.started manifestEtag leaseEtag token

/-- The rows of a statement in progress, and what no statement changes. -/
structure Keeping (good : TableDef → Bytes → Bytes → Prop) (before server : Server ETag) :
    Prop where
  every : server.EveryRow good
  tables : server.tables = before.tables
  binaryJson : server.binaryJson = before.binaryJson

theorem Keeping.getTable {before : Server ETag} (keeping : Keeping good before server)
    (name : String) : server.getTable name = before.getTable name := by
  unfold Server.getTable
  rw [keeping.tables]

theorem eachRow_invariant {Item : Type}
    {body : Server ETag → Nat → Item → Server ETag × Except String Unit}
    (invariant : Server ETag → Prop) (items : List Item) : ∀ (number : Nat) (server : Server ETag),
      invariant server →
      (∀ current offset item, items[offset]? = some item →
        eachRow body number (items.take offset) server = (current, .ok ()) → invariant current →
        invariant (body current (number + offset) item).1) →
      invariant (eachRow body number items server).1 := by
  induction items with
  | nil =>
      intro number server holds _
      exact holds
  | cons item items ih =>
      intro number server holds each
      have first := each server 0 item rfl rfl holds
      rw [eachRow]
      rw [Nat.add_zero] at first
      cases ran : body server number item with
      | mk next result =>
          rw [ran] at first
          cases result with
          | error error => exact first
          | ok =>
              refine ih (number + 1) next first fun current offset later there front holds => ?_
              have step := each current (offset + 1) later there
                (by rw [List.take_succ_cons, eachRow, ran]; exact front) holds
              rwa [← Nat.add_assoc, Nat.add_right_comm] at step

variable [DecidableEq ETag] (env : DmlLibrary)

/-- An INSERT gets to the row at `number` and finds nothing wrong with it. -/
def InsertsRow (server : Server ETag) (session : Option Nat) (around : Surroundings)
    (insert : InsertStmt) (table : TableDef) (number : Nat) (values : List Expr) (cells : Row) :
    Prop :=
  server.getTable insert.table = some table ∧ insert.values[number]? = some values ∧
    insertCells env around table insert.columns number values = .ok cells ∧
    ∃ current, eachRow (fun server number values =>
          server.insertRow env session around table insert.columns number values) 0
        (insert.values.take number) server = (current, .ok ()) ∧
      current.checkRow env session table cells none = .ok ()

/-- An UPDATE gets to the row at `number`, which matches, and finds nothing wrong with what
becomes of it. -/
def UpdatesRow (server : Server ETag) (session : Option Nat) (around : Surroundings)
    (update : UpdateStmt) (table : TableDef) (number : Nat) (stored : Bytes × Bytes)
    (cells : Row) : Prop :=
  server.getTable update.table = some table ∧
    (server.scan session update.table)[number]? = some stored ∧
    rowMatches env around number (some table.schema) (parseStored env stored.2)
      update.where_ = true ∧
    updatedCells env around table update.assignments number (parseStored env stored.2) =
      .ok cells ∧
    ∃ current, eachRow (fun server number stored =>
          server.updateRow env session around table update number stored) 0
        ((server.scan session update.table).take number) server = (current, .ok ()) ∧
      current.checkRow env session table cells (some stored.1) = .ok ()

def Writes (server : Server ETag) (table : TableDef) (key : Bytes) (cells : Row) :
    ServerCall → Prop
  | .insert session around insert => key = rowKeyOf table cells ∧ ∃ number values,
      server.InsertsRow env session around insert table number values cells
  | .update session around update => ∃ number value,
      server.UpdatesRow env session around update table number (key, value) cells
  | _ => False

variable {env} {before : Server ETag} {session : Option Nat} {around : Surroundings}
  {number : Nat} {table : TableDef}

theorem Keeping.writeRow (keeping : Keeping good before server)
    (found : before.getTable name = some table) (op : CdcOp) {key : Bytes} (old : Option Row)
    {cells : Row}
    (fresh : good table key (buildRowValue env.serde table.schema before.binaryJson cells)) :
    Keeping good before (server.writeRow env session around number table op key old cells).1 := by
  obtain ⟨database, tables, binaryJson, _⟩ := server.writeRow_spec env session around table number
    op key old cells
  refine ⟨EveryRow.database tables ?_, tables.trans keeping.tables,
    binaryJson.trans keeping.binaryJson⟩
  rw [database]
  apply keeping.every.txnWrite
  intro other otherTable otherKey otherFound same
  have foundName := getTable_name found
  have otherName := getTable_name otherFound
  have plain := otherTable.plainName
  rw [otherName] at plain
  obtain ⟨sameName, sameKey⟩ := makeKey_inj table.plainName plain same
  rw [keeping.getTable, ← sameName, foundName, found] at otherFound
  cases otherFound
  rw [← sameKey, keeping.binaryJson]
  exact fresh

theorem Keeping.insertRow (keeping : Keeping good before server)
    (found : before.getTable name = some table) {columns : List String} {values : List Expr}
    (fresh : ∀ cells, insertCells env around table columns number values = .ok cells →
      server.checkRow env session table cells none = .ok () →
      good table (rowKeyOf table cells)
        (buildRowValue env.serde table.schema before.binaryJson cells)) :
    Keeping good before
      (server.insertRow env session around table columns number values).1 := by
  unfold Server.insertRow
  cases resolved : insertCells env around table columns number values with
  | error error => exact keeping
  | ok cells =>
      dsimp only
      cases checked : server.checkRow env session table cells none with
      | error error => exact keeping
      | ok => exact keeping.writeRow found .insert none (fresh cells resolved checked)

theorem Keeping.updateRow (keeping : Keeping good before server)
    (found : before.getTable name = some table) {update : UpdateStmt} {stored : Bytes × Bytes}
    (fresh : rowMatches env around number (some table.schema) (parseStored env stored.2)
        update.where_ = true →
      ∀ cells, updatedCells env around table update.assignments number
          (parseStored env stored.2) = .ok cells →
        server.checkRow env session table cells (some stored.1) = .ok () →
        good table stored.1 (buildRowValue env.serde table.schema before.binaryJson cells)) :
    Keeping good before
      (server.updateRow env session around table update number stored).1 := by
  unfold Server.updateRow
  dsimp only
  split_ifs with matches'
  · cases updated : updatedCells env around table update.assignments number
        (parseStored env stored.2) with
    | error error => exact keeping
    | ok cells =>
        dsimp only
        cases checked : server.checkRow env session table cells (some stored.1) with
        | error error => exact keeping
        | ok => exact keeping.writeRow found .update _ (fresh matches' cells updated checked)
  · exact keeping

theorem Keeping.deleteRow (keeping : Keeping good before server) (name : String)
    (table : Option TableDef) (key : Bytes) (row : Row) :
    Keeping good before
      (server.deleteRow session around number name table key row).1 := by
  have deleted : ({ server with
      database := (server.database.txnDelete session (around.io number) name key).1 } :
        Server ETag).EveryRow good :=
    EveryRow.database rfl (keeping.every.txnDelete session (around.io number) name key)
  unfold Server.deleteRow
  cases ran : server.database.txnDelete session (around.io number) name key with
  | mk database result =>
      rw [ran] at deleted
      cases result with
      | error error => exact ⟨deleted, keeping.tables, keeping.binaryJson⟩
      | ok =>
          cases table with
          | none => exact ⟨deleted, keeping.tables, keeping.binaryJson⟩
          | some table =>
              dsimp only
              unfold publishCdcEvent
              split_ifs <;> exact ⟨deleted, keeping.tables, keeping.binaryJson⟩

variable (env) in
theorem EveryRow.step (every : server.EveryRow good) {call : ServerCall}
    (fresh : ∀ table key cells, server.Writes env table key cells call →
      good table key (buildRowValue env.serde table.schema server.binaryJson cells))
    (taken : server.step env call = some next) : Keeping good server next := by
  have keeping : Keeping good server server := ⟨every, rfl, rfl⟩
  cases call with
  | beginTxn =>
      cases taken
      exact ⟨EveryRow.database rfl every.beginTxn, rfl, rfl⟩
  | insert session around insert =>
      simp only [Server.step] at taken
      split_ifs at taken
      cases taken
      unfold executeInsert
      cases found : server.getTable insert.table with
      | none => exact keeping
      | some table =>
          apply eachRow_invariant (Keeping good server) insert.values 0 server keeping
          intro current offset values there front holds
          rw [Nat.zero_add]
          apply holds.insertRow found
          intro cells resolved checked
          exact fresh table _ cells
            ⟨rfl, offset, values, found, there, resolved, current, front, checked⟩
  | update session around update =>
      simp only [Server.step] at taken
      split_ifs at taken
      cases taken
      unfold executeUpdate
      cases found : server.getTable update.table with
      | none => exact keeping
      | some table =>
          apply eachRow_invariant (Keeping good server) (server.scan session update.table) 0
            server keeping
          intro current offset stored there front holds
          rw [Nat.zero_add]
          apply holds.updateRow found
          intro matches' cells updated checked
          exact fresh table stored.1 cells
            ⟨offset, stored.2, found, there, matches', updated, current, front, checked⟩
  | delete session around delete =>
      simp only [Server.step] at taken
      split_ifs at taken
      cases taken
      unfold executeDelete
      apply eachRow_invariant (Keeping good server) (server.scan session delete.table) 0
        server keeping
      intro current offset stored _ _ holds
      dsimp only
      split_ifs
      · exact holds.deleteRow _ _ _ _
      · exact holds
  | commit session io =>
      simp only [Server.step] at taken
      split_ifs at taken
      cases taken
      exact ⟨EveryRow.database rfl (every.commitTxn session io), rfl, rfl⟩
  | rollback session =>
      simp only [Server.step] at taken
      split_ifs at taken
      cases taken
      exact ⟨EveryRow.database rfl (every.finish session), rfl, rfl⟩

variable (env) in
theorem everyRow_of_reaches {manifestEtag : Manifest → ETag} {leaseEtag : Lease → ETag}
    {token : Nat} {tables : List TableDef} {binaryJson : Bool}
    (fresh : ∀ server call, allowed server call → server.EveryRow good → ∀ table key cells,
      server.Writes env table key cells call →
        good table key (buildRowValue env.serde table.schema server.binaryJson cells))
    (reached : Reaches (Server.step env) allowed
      (start manifestEtag leaseEtag token tables binaryJson) server) : server.EveryRow good :=
  Reaches.invariant (EveryRow good)
    (EveryRow.started manifestEtag leaseEtag token tables binaryJson)
    (fun server call _ every guard taken =>
      (every.step env (fresh server call guard every) taken).every) server reached

variable (env) in
theorem step_frame {call : ServerCall}
    (taken : server.step env call = some next) :
    next.tables = server.tables ∧ next.binaryJson = server.binaryJson := by
  have every : server.EveryRow fun _ _ _ => True :=
    ⟨fun _ _ _ _ _ _ _ _ _ => trivial, fun _ _ _ _ _ _ _ _ _ _ _ => trivial⟩
  have keeping := every.step env (fun _ _ _ _ => trivial) taken
  exact ⟨keeping.tables, keeping.binaryJson⟩

theorem reaches_frame {first : Server ETag}
    (reached : Reaches (Server.step env) allowed first server) :
    server.tables = first.tables ∧ server.binaryJson = first.binaryJson :=
  Reaches.invariant (fun server => server.tables = first.tables ∧
      server.binaryJson = first.binaryJson) ⟨rfl, rfl⟩
    (fun _ _ _ same _ taken =>
      ⟨(step_frame env taken).1.trans same.1, (step_frame env taken).2.trans same.2⟩)
    server reached

theorem reaches_getTable {first : Server ETag}
    (reached : Reaches (Server.step env) allowed first server) (name : String) :
    server.getTable name = first.getTable name := by
  unfold getTable
  rw [(reaches_frame reached).1]

/-- The call returns no error. -/
def succeeds (env : DmlLibrary) (server : Server ETag) : ServerCall → Bool
  | .insert session around insert => (server.executeInsert env session around insert).2.isOk
  | .update session around update => (server.executeUpdate env session around update).2.isOk
  | .delete session around delete => (server.executeDelete env session around delete).2.isOk
  | .commit session io => (server.database.commitTxn session io).2.isOk
  | _ => true

end Server

end Pantheon.Sql
