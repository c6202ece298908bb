import Mathlib
import Pantheon.Keystone.Database
import Pantheon.Sql.RowCodec

/-!
# INSERT, UPDATE and DELETE: `executor/dml.rs`

A statement reads the table with `txn_scan`, checks each new row, and hands it to
`txn_write`; right behind each write it publishes a change event.  A statement that
fails keeps the rows it has written.

The parameters of a statement's step say what lies outside it: the values of its
expressions, the I/O of its writes, the clock, and which events cannot be published.
The rows and the positions inside a row are counted, for an expression such as
`nextval` has another value each time.
-/

set_option autoImplicit false

namespace Pantheon.Sql

open Pantheon.Lib Pantheon.Keystone

/-! ## Tables -/

/-- `default` is what `parse_expr_text` makes of the persisted text. -/
structure TableColumn extends ColumnDef where
  nullable : Bool
  default : Option (Except String Expr)

structure ForeignKey where
  column : Nat
  refTable : String
  refColumn : String

structure JsonSchemaRule where
  column : String
  mode : String
  rule : String

/-- A table of the catalog.  Its name came in a NUL-terminated query. -/
structure TableDef where
  name : String
  columns : List TableColumn
  pkColumns : List Nat
  uniqueGroups : List (List Nat)
  foreignKeys : List ForeignKey
  jsonSchemas : List JsonSchemaRule
  plainName : 0 ∉ utf8Bytes name

def TableDef.schema (table : TableDef) : TableSchema :=
  ⟨table.name, table.columns.map TableColumn.toColumnDef⟩

def TableDef.columnPosition (table : TableDef) (name : String) : Option Nat :=
  Sql.columnPosition table.schema.columns name

def TableDef.columnName (table : TableDef) (index : Nat) : String :=
  (table.schema.columns[index]?.map ColumnDef.name).getD ""

inductive JsonSchemaMode where
  | strict
  | relaxed
  | off
deriving DecidableEq

/-! ## Change events -/

inductive CdcOp where
  | insert
  | update
  | delete
deriving DecidableEq

abbrev CellObject : Type := OrdMap String (Option String)

structure CdcEvent where
  op : CdcOp
  table : String
  rowKey : String
  before : Option CellObject
  after : Option CellObject
  ts : Int

def cellsToJson (columns : List TableColumn) (cells : Row) : CellObject :=
  (columns.zip cells).foldl
    (fun object entry => object.insert entry.1.name (entry.2.map fromUtf8Lossy)) OrdMap.empty

/-! ## The server -/

/-- What the statements use of the rest of the executor. -/
structure DmlLibrary where
  lib : Library
  serde : Serde
  jsonb : Decodes serde lib.decodeJsonb
  canonicalVector : String → Option String
  parseMode : String → Option JsonSchemaMode
  schemaErrors : Keystone.Json → Keystone.Json → JsonSchemaMode → List String
  debugText : String → String

/-- What one statement meets: the value of the expression at a position of a row, the I/O
of a row's write, the time and the fate of its event. -/
structure Surroundings where
  evaluate : Nat → Nat → RowContext → Expr → Except String Value
  params : List Value
  io : Nat → Io
  now : Nat → Int
  publishFails : Nat → Bool

/-- `feed` is the partition of a table's topic in offset order. -/
structure Server (ETag : Type) where
  database : Keystone.Database ETag
  tables : List TableDef
  binaryJson : Bool
  feed : String → List CdcEvent

section Rows

variable (env : DmlLibrary)

def parseStored (value : Bytes) : Row := parseRow env.lib ([], value)

/-! ## Cells of a new row -/

def provideCells (table : TableDef) (columns : List String) (evaluate : Nat → Expr → Except String Cell)
    (values : List Expr) : Except String (Row × List Bool) := do
  let width := table.columns.length
  if columns = [] then
    if values.length ≠ width then
      .error ("INSERT has " ++ toString values.length ++ " value(s) but table \"" ++ table.name ++
        "\" has " ++ toString width ++ " column(s)")
    else
      let cells ← values.zipIdx.mapM fun value => evaluate value.2 value.1
      .ok (cells, List.replicate width true)
  else if columns.length ≠ values.length then
    .error ("INSERT column list has " ++ toString columns.length ++ " entries but VALUES has " ++
      toString values.length)
  else
    (columns.zip values).zipIdx.foldlM
      (fun provided entry => do
        match table.columnPosition entry.1.1 with
        | none => .error ("column \"" ++ entry.1.1 ++ "\" does not exist")
        | some index =>
            let cell ← evaluate entry.2 entry.1.2
            .ok (provided.1.set index cell, provided.2.set index true))
      (List.replicate width none, List.replicate width false)

/-- A column that was not given takes its default; without one it must be nullable. -/
def fillDefaults (table : TableDef) (evaluate : Nat → Expr → Except String Cell) (first : Nat)
    (provided : Row × List Bool) : Except String Row :=
  table.columns.zipIdx.foldlM
    (fun cells column =>
      if provided.2[column.2]?.getD false then .ok cells
      else
        match column.1.default with
        | some parsed => do
            let expr ← parsed
            let cell ← evaluate (first + column.2) expr
            .ok (cells.set column.2 cell)
        | none =>
            if column.1.nullable then .ok cells
            else .error ("column \"" ++ column.1.name ++ "\" is NOT NULL and has no default"))
    provided.1

/-- The text of a vector in its canonical form; malformed text stays as it is. -/
def normalizeVectorCells (table : TableDef) (cells : Row) : Row :=
  cells.zipIdx.map fun cell =>
    if (table.schema.columns[cell.2]?.map ColumnDef.colType) = some .vector then
      cell.1.map fun bytes =>
        (((String.fromUTF8? ⟨bytes.toArray⟩).bind env.canonicalVector).map utf8Bytes).getD bytes
    else cell.1

def resolveInsertRow (table : TableDef) (columns : List String) (values : List Expr)
    (evaluate : Nat → Expr → Except String Cell) : Except String Row := do
  let provided ← provideCells table columns evaluate values
  let cells ← fillDefaults table evaluate values.length provided
  .ok (normalizeVectorCells env table cells)

/-! ## Constraints -/

def groupFilled (cells : Row) (group : List Nat) : Bool :=
  group.all fun index => (cells[index]?.join).isSome

def groupMatches (cells row : Row) (group : List Nat) : Bool :=
  group.all fun index => row[index]?.join = cells[index]?.join

/-- NULL never takes part in uniqueness; an update skips the row it replaces. -/
def checkUniqueConstraints (table : TableDef) (rows : List (Bytes × Bytes)) (cells : Row)
    (excludeKey : Option Bytes) : Except String Unit :=
  let violated := table.uniqueGroups.find? fun group =>
    groupFilled cells group && rows.any fun stored =>
      decide (excludeKey ≠ some stored.1) && groupMatches cells (parseStored env stored.2) group
  match violated with
  | none => .ok ()
  | some group =>
      .error ("duplicate value violates unique constraint on " ++ table.name ++ "(" ++
        ", ".intercalate (group.map table.columnName) ++ ")")

/-- `scan` reads the referenced table with the statement's transaction. -/
def checkForeignKeys (table : TableDef) (tables : List TableDef)
    (scan : String → List (Bytes × Bytes)) (cells : Row) : Except String Unit :=
  table.foreignKeys.forM fun foreign =>
    match cells[foreign.column]?.join with
    | none => .ok ()
    | some value =>
        match tables.find? fun other => other.name == foreign.refTable with
        | none => .error ("referenced table \"" ++ foreign.refTable ++ "\" does not exist")
        | some referenced =>
            match referenced.columnPosition foreign.refColumn with
            | none => .error ("referenced column \"" ++ foreign.refColumn ++ "\" does not exist")
            | some index =>
                if (scan foreign.refTable).any fun stored =>
                    (parseStored env stored.2)[index]?.join = some value then .ok ()
                else
                  .error ("insert or update on table \"" ++ table.name ++
                    "\" violates foreign key constraint: no row in \"" ++ foreign.refTable ++
                    "\" with " ++ foreign.refColumn ++ " = " ++
                    env.debugText (fromUtf8Lossy value))

def checkJsonSchemas (table : TableDef) (cells : Row) : Except String Unit :=
  table.jsonSchemas.forM fun rule =>
    match (table.columnPosition rule.column).bind fun index => cells[index]?.join with
    | none => .ok ()
    | some raw =>
        if (String.fromUTF8? ⟨raw.toArray⟩).isNone then .ok ()
        else
          match env.serde.fromSlice raw, env.serde.fromSlice (utf8Bytes rule.rule) with
          | none, _ => .error ("column \"" ++ rule.column ++ "\" is not valid JSON")
          | some _, none => .ok ()
          | some document, some schema =>
              match env.schemaErrors schema document ((env.parseMode rule.mode).getD .strict) with
              | [] => .ok ()
              | errors =>
                  .error ("json_schema validation failed for column \"" ++ rule.column ++ "\": " ++
                    "; ".intercalate errors)

end Rows

namespace Server

variable {ETag : Type} [DecidableEq ETag] (env : DmlLibrary)

def getTable (server : Server ETag) (name : String) : Option TableDef :=
  server.tables.find? fun table => table.name == name

def txnOf (server : Server ETag) (session : Option Nat) : Option Txn :=
  session.bind server.database.txnAt

def scan (server : Server ETag) (session : Option Nat) (table : String) : List (Bytes × Bytes) :=
  Keystone.txnScan server.database.host.engine.view (server.txnOf session) table

/-- Best effort: a reader and a failing log publish nothing, and nobody is told. -/
def publishCdcEvent (server : Server ETag) (event : CdcEvent) (fails : Bool) : Server ETag :=
  if fails || decide (server.database.role = .reader) then server
  else
    { server with
      feed := Function.update server.feed event.table (server.feed event.table ++ [event]) }

def writeRow (server : Server ETag) (session : Option Nat) (around : Surroundings) (number : Nat)
    (table : TableDef) (op : CdcOp) (key : Bytes) (before : Option Row) (cells : Row) :
    Server ETag × Except String Unit :=
  let value := buildRowValue env.serde table.schema server.binaryJson cells
  match server.database.txnWrite session (around.io number) table.name key value with
  | (database, .error error) => ({ server with database := database }, .error error.message)
  | (database, .ok ()) =>
      let event : CdcEvent :=
        { op := op
          table := table.name
          rowKey := hexEncode key
          before := before.map (cellsToJson table.columns)
          after := some (cellsToJson table.columns cells)
          ts := around.now number }
      (publishCdcEvent { server with database := database } event (around.publishFails number),
        .ok ())

def deleteRow (server : Server ETag) (session : Option Nat) (around : Surroundings) (number : Nat)
    (name : String) (table : Option TableDef) (key : Bytes) (row : Row) :
    Server ETag × Except String Unit :=
  match server.database.txnDelete session (around.io number) name key with
  | (database, .error error) => ({ server with database := database }, .error error.message)
  | (database, .ok ()) =>
      let server := { server with database := database }
      match table with
      | none => (server, .ok ())
      | some table =>
          let event : CdcEvent :=
            { op := .delete
              table := name
              rowKey := hexEncode key
              before := some (cellsToJson table.columns row)
              after := none
              ts := around.now number }
          (publishCdcEvent server event (around.publishFails number), .ok ())

def checkRow (server : Server ETag) (session : Option Nat) (table : TableDef) (cells : Row)
    (excludeKey : Option Bytes) : Except String Unit := do
  checkUniqueConstraints env table (server.scan session table.name) cells excludeKey
  checkForeignKeys env table server.tables (server.scan session) cells
  checkJsonSchemas env table cells

/-! ## INSERT -/

def evaluateCell (around : Surroundings) (number : Nat) (ctx : RowContext) (position : Nat)
    (expr : Expr) : Except String Cell := do
  let value ← around.evaluate number position { ctx with params := around.params } expr
  .ok (value.toWireBytes env.lib)

def insertCells (around : Surroundings) (table : TableDef) (columns : List String) (number : Nat)
    (values : List Expr) : Except String Row :=
  resolveInsertRow env table columns values (evaluateCell env around number RowContext.empty)

/-- The first primary key column gives the key; the first column when there is none. -/
def rowKeyOf (table : TableDef) (cells : Row) : Bytes :=
  (cells[table.pkColumns.headD 0]?.join).getD []

def insertRow (server : Server ETag) (session : Option Nat) (around : Surroundings)
    (table : TableDef) (columns : List String) (number : Nat) (values : List Expr) :
    Server ETag × Except String Unit :=
  match insertCells env around table columns number values with
  | .error error => (server, .error error)
  | .ok cells =>
      match server.checkRow env session table cells none with
      | .error error => (server, .error error)
      | .ok () =>
          server.writeRow env session around number table .insert (rowKeyOf table cells) none cells

/-- A statement works through its rows and stops at the first error. -/
def eachRow {Item : Type} (body : Server ETag → Nat → Item → Server ETag × Except String Unit) :
    Nat → List Item → Server ETag → Server ETag × Except String Unit
  | _, [], server => (server, .ok ())
  | number, item :: items, server =>
      match body server number item with
      | (server, .error error) => (server, .error error)
      | (server, .ok ()) => eachRow body (number + 1) items server

def executeInsert (server : Server ETag) (session : Option Nat) (around : Surroundings)
    (insert : InsertStmt) : Server ETag × Except String Unit :=
  match server.getTable insert.table with
  | none => (server, .error ("table \"" ++ insert.table ++ "\" does not exist"))
  | some table =>
      eachRow (fun server number values =>
        server.insertRow env session around table insert.columns number values) 0 insert.values server

/-! ## UPDATE and DELETE -/

def rowMatches (around : Surroundings) (number : Nat) (schema : Option TableSchema) (row : Row)
    (where_ : Option Expr) : Bool :=
  match where_ with
  | none => true
  | some expr =>
      match around.evaluate number 0 { RowContext.new row schema with params := around.params } expr with
      | .ok value => value.isTruthy env.lib
      | .error _ => false

def updatedCells (around : Surroundings) (table : TableDef) (assignments : List (String × Expr))
    (number : Nat) (row : Row) : Except String Row := do
  let cells ← assignments.zipIdx.foldlM
    (fun cells assignment => do
      match table.columnPosition assignment.1.1 with
      | none => .error ("column \"" ++ assignment.1.1 ++ "\" does not exist")
      | some index =>
          let cell ← evaluateCell env around number (RowContext.new row (some table.schema))
            (assignment.2 + 1) assignment.1.2
          .ok (cells.set index cell))
    row
  .ok (normalizeVectorCells env table cells)

def updateRow (server : Server ETag) (session : Option Nat) (around : Surroundings)
    (table : TableDef) (update : UpdateStmt) (number : Nat) (stored : Bytes × Bytes) :
    Server ETag × Except String Unit :=
  let row := parseStored env stored.2
  if rowMatches env around number (some table.schema) row update.where_ then
    match updatedCells env around table update.assignments number row with
    | .error error => (server, .error error)
    | .ok cells =>
        match server.checkRow env session table cells (some stored.1) with
        | .error error => (server, .error error)
        | .ok () =>
            server.writeRow env session around number table .update stored.1 (some row) cells
  else (server, .ok ())

def executeUpdate (server : Server ETag) (session : Option Nat) (around : Surroundings)
    (update : UpdateStmt) : Server ETag × Except String Unit :=
  match server.getTable update.table with
  | none => (server, .error ("table \"" ++ update.table ++ "\" does not exist"))
  | some table =>
      eachRow (fun server number stored =>
        server.updateRow env session around table update number stored) 0
          (server.scan session update.table) server

def executeDelete (server : Server ETag) (session : Option Nat) (around : Surroundings)
    (delete : DeleteStmt) : Server ETag × Except String Unit :=
  let table := server.getTable delete.table
  eachRow (fun server number (stored : Bytes × Bytes) =>
      let row := parseStored env stored.2
      if rowMatches env around number (table.map TableDef.schema) row delete.where_ then
        server.deleteRow session around number delete.table table stored.1 row
      else (server, .ok ())) 0
    (server.scan session delete.table) server

/-! ## Runs -/

def sessionOpen (server : Server ETag) (session : Option Nat) : Bool :=
  match session with
  | none => true
  | some index =>
      match server.database.txnAt index with
      | none => false
      | some txn => !txn.finished

end Server

/-- The statements of the sessions.  A session's number is that of its transaction. -/
inductive ServerCall where
  | beginTxn
  | insert (session : Option Nat) (around : Surroundings) (insert : InsertStmt)
  | update (session : Option Nat) (around : Surroundings) (update : UpdateStmt)
  | delete (session : Option Nat) (around : Surroundings) (delete : DeleteStmt)
  | commit (session : Nat) (io : Io)
  | rollback (session : Nat)

namespace Server

variable {ETag : Type} [DecidableEq ETag] (env : DmlLibrary)

def start (manifestEtag : Manifest → ETag) (leaseEtag : Lease → ETag) (token : Nat)
    (tables : List TableDef) (binaryJson : Bool) : Server ETag :=
  ⟨Keystone.Database.start manifestEtag leaseEtag token, tables, binaryJson, fun _ => []⟩

def step (server : Server ETag) : ServerCall → Option (Server ETag)
  | .beginTxn => some { server with database := server.database.beginTxn }
  | .insert session around insert =>
      if server.sessionOpen session then some (server.executeInsert env session around insert).1
      else none
  | .update session around update =>
      if server.sessionOpen session then some (server.executeUpdate env session around update).1
      else none
  | .delete session around delete =>
      if server.sessionOpen session then some (server.executeDelete env session around delete).1
      else none
  | .commit session io =>
      if server.sessionOpen (some session) then
        some { server with database := (server.database.commitTxn session io).1 }
      else none
  | .rollback session =>
      if server.sessionOpen (some session) then
        some { server with database := server.database.rollbackTxn session }
      else none

end Server

end Pantheon.Sql
