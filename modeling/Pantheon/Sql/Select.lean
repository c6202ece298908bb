import Mathlib
import Pantheon.Sql.Window
import Pantheon.Sql.Planner

/-!
# Executing a SELECT: `executor/select.rs`, `executor/mod.rs`

`executeBody` is one query, with a `Runner` for the queries inside of it: the two
sides of a UNION, the CTEs, the derived tables, and the subqueries of
expressions.  The first three read through the statement's transaction; the
subqueries of expressions are run without it.
-/

set_option autoImplicit false

namespace Pantheon.Sql

open Pantheon.Lib

/-- What the executor sees of a stored table.  An index answers for the columns it
is on. -/
structure StoredTable where
  schema : Option TableSchema
  rows : List (Bytes × Bytes)
  estimate : Option Int
  indexLookup : String → Option (Bytes → Option (Bytes × Bytes))
  spatialQuery : String → Option (SpatialPredicate → Option (List (Bytes × Bytes)))
  timeRangeQuery : String → Option (Int → Int → Option (List (Bytes × Bytes)))

/-- The latest committed state.  Catalog tables and table functions are computed
from it outside of this model. -/
structure Database where
  table : String → StoredTable
  virtualTable : String → Option (Except String (TableSchema × List Row))
  tableFunction : String → List (Except String Value) →
    Except String (Option TableSchema × List Row)

abbrev TxnView : Type := String → List (Bytes × Bytes)

abbrev CteContext : Type := List (String × (List Row × TableSchema))

/-- Runs a query with the CTEs known so far, and returns those known after it. -/
abbrev Runner : Type := Option TxnView → CteContext → List OuterRow → List Value → SelectStmt →
  Except String (CteContext × QueryResult)

/-! ## Schemas and fields -/

def ColumnType.oid : ColumnType → Int
  | .int8 => oidInt8
  | .int4 => 23
  | .int2 => 21
  | .float8 => oidFloat8
  | .float4 => 700
  | .text => oidText
  | .bool => oidBool
  | .timestamp => 1114
  | .date => 1082
  | .json => 114
  | .bytea => 17
  | .geometry => oidText
  | .geography => oidText
  | .vector => oidText
  | .raster => oidText
  | .float8Array => 1022

def Value.typeOid : Value → Int
  | .int _ => oidInt8
  | .float _ => oidFloat8
  | .text _ => oidText
  | .bool _ => oidBool
  | .null => oidText
  | .floatArray _ => 1022
  | .bytea _ => 17

def fieldColumn (field : FieldDescription) : ColumnDef :=
  ⟨field.name,
    if field.typeOid = oidInt8 then .int8
    else if field.typeOid = oidFloat8 then .float8
    else if field.typeOid = oidBool then .bool
    else .text⟩

def schemaFromFields (name : String) (fields : List FieldDescription) : TableSchema :=
  ⟨name, fields.map fieldColumn⟩

def cteSchema (cte : Cte) (fields : List FieldDescription) : TableSchema :=
  if cte.columns.isEmpty then schemaFromFields cte.name fields
  else ⟨cte.name, cte.columns.map fun name => ⟨name, .text⟩⟩

section

variable (lib : Library)

def inferColumnName : Expr → String
  | .ident name => name
  | .qualifiedIdent _ name => name
  | .function name _ _ => lib.lowercase name
  | _ => "?column?"

def projectionFields (schema : Option TableSchema) :
    Projection → Except String (List FieldDescription)
  | .wildcard =>
      match schema with
      | some schema => .ok (schema.columns.map fun column => .simple column.name column.colType.oid)
      | none => .error "SELECT * requires a FROM clause"
  | .wildcardTable _ => .error "table.* projections are not yet supported"
  | .expr content alias_ => .ok [.simple (alias_.getD (inferColumnName lib content)) oidText]

def buildFields (projections : List Projection) (schema : Option TableSchema) :
    Except String (List FieldDescription) := do
  let fields ← projections.mapM (projectionFields lib schema)
  .ok fields.flatten

/-! ## Stored rows -/

/-- The cells of a stored row, each behind its length; a negative length is NULL. -/
def parseCells : Nat → Bytes → Row
  | 0, _ => []
  | fuel + 1, data =>
      if data.length < 4 then []
      else
        let length := signed 4 (ofBe (data.take 4))
        let rest := data.drop 4
        if length < 0 then none :: parseCells fuel rest
        else if length.toNat ≤ rest.length then
          let cell := rest.take length.toNat
          some ((lib.decodeJsonb cell).getD cell) :: parseCells fuel (rest.drop length.toNat)
        else [none]

def parseRow (stored : Bytes × Bytes) : Row := parseCells lib stored.2.length stored.2

def parseRows (stored : List (Bytes × Bytes)) : List Row := stored.map (parseRow lib)

/-! ## Tables of the FROM clause -/

variable (db : Database)

/-- `txn_scan`: the transaction's view, or the latest committed rows. -/
def txnScan (txn : Option TxnView) (table : String) : List (Bytes × Bytes) :=
  match txn with
  | some view => view table
  | none => (db.table table).rows

def resolveTableRef (run : Runner) (txn : Option TxnView) (ctes : CteContext)
    (outer : List OuterRow) (params : List Value) (table : TableRef) :
    Except String (CteContext × Option TableSchema × List Row) :=
  match table.subquery with
  | some query => do
      let (ctes, result) ← run txn ctes outer params query
      .ok (ctes, some (schemaFromFields table.name result.fields), result.rows)
  | none =>
      match table.funcArgs with
      | some args => do
          let (schema, rows) ← db.tableFunction table.name
            (evalArgs lib { RowContext.empty with params := params } args)
          .ok (ctes, schema, rows)
      | none =>
          match ctes.lookup table.name with
          | some (rows, schema) => .ok (ctes, some schema, rows)
          | none =>
              match db.virtualTable table.name with
              | some resolved => do
                  let (schema, rows) ← resolved
                  .ok (ctes, some schema, rows)
              | none => .ok (ctes, (db.table table.name).schema,
                  parseRows lib (txnScan db txn table.name))

/-- The rows an index finds for the WHERE clause, if one applies. -/
def indexRows (table : StoredTable) (schema : TableSchema) (where_ : Option Expr) :
    Option (List Row) := do
  let condition ← where_
  match extractEq lib schema condition with
  | some (col, literal) => do
      let lookup ← table.indexLookup col
      some (parseRows lib (lookup literal).toList)
  | none =>
      match lib.spatialPredicate condition schema with
      | some predicate => do
          let query ← table.spatialQuery predicate.col
          let hits ← query predicate
          some (parseRows lib hits)
      | none => do
          let predicate ← extractTimeBucketPredicate lib schema condition
          let query ← table.timeRangeQuery predicate.col
          let hits ← query predicate.t0 predicate.t1
          some (parseRows lib hits)

/-- The first table of the FROM clause.  A transaction never uses an index. -/
def resolvePrimaryTable (run : Runner) (txn : Option TxnView) (ctes : CteContext)
    (outer : List OuterRow) (params : List Value) (where_ : Option Expr) (table : TableRef) :
    Except String (CteContext × Option TableSchema × List Row) :=
  let hits : Option (TableSchema × List Row) := do
    if txn.isSome || table.subquery.isSome || (ctes.lookup table.name).isSome then none
    else
      let schema ← (db.table table.name).schema
      let rows ← indexRows lib (db.table table.name) schema where_
      some (schema, rows)
  match hits with
  | some (schema, rows) => .ok (ctes, some schema, rows)
  | none => resolveTableRef lib db run txn ctes outer params table

/-! ## The pipeline -/

/-- The joined rows so far with the columns of each table. -/
structure Joined where
  ctes : CteContext
  schema : Option TableSchema
  rows : List Row
  scopes : List Scope

def joinTable (run : Runner) (txn : Option TxnView) (outer : List OuterRow) (params : List Value)
    (joined : Joined) (join : Join) : Except String Joined := do
  let (ctes, schema, rows) ← resolveTableRef lib db run txn joined.ctes outer params join.table
  let start := schemaWidth joined.schema
  .ok
    { ctes := ctes
      schema := mergeSchema joined.schema schema
      rows := applyJoin lib joined.rows rows join joined.schema schema joined.scopes
        join.table.scopeName
      scopes := joined.scopes ++ [⟨join.table.scopeName, start, start + schemaWidth schema⟩] }

def joinOrder (primary : TableRef) (schema : Option TableSchema) (joins : List Join) : List Nat :=
  reorderInnerJoins primary.scopeName schema joins (fun name => (db.table name).schema)
    fun name => (db.table name).estimate

/-- The FROM clause, its joins in the order that `order` chooses. -/
def resolveFrom (order : Option TableSchema → List Nat) (run : Runner) (txn : Option TxnView)
    (ctes : CteContext) (outer : List OuterRow) (params : List Value) (where_ : Option Expr)
    (source : TableWithJoins) : Except String Joined := do
  let (ctes, schema, rows) ← resolvePrimaryTable lib db run txn ctes outer params where_
    source.primary
  ((order schema).filterMap fun index => source.joins[index]?).foldlM
    (joinTable lib db run txn outer params)
    ⟨ctes, schema, rows, [⟨source.primary.scopeName, 0, schemaWidth schema⟩]⟩

def filterRows (ev : Evaluator) (where_ : Option Expr) (rows : List RowContext) :
    List RowContext :=
  match where_ with
  | none => rows
  | some condition => rows.filter fun ctx =>
      match ev ctx condition with
      | .ok value => value.isTruthy lib
      | .error _ => false

/-- The count of LIMIT or OFFSET; any other value stands for `other`. -/
def evalCount (params : List Value) (expr : Expr) (other : Nat) : Except String Nat := do
  match ← eval lib { RowContext.empty with params := params } expr with
  | .int number => .ok number.toNat
  | .float number => .ok (lib.floatMax0 number)
  | _ => .ok other

def limitRows (params : List Value) (limit offset : Option Expr) (rows : List RowContext) :
    Except String (List RowContext) := do
  let rows ← match limit with
    | none => .ok rows
    | some limit => do .ok (rows.take (← evalCount lib params limit rows.length))
  match offset with
  | none => .ok rows
  | some offset => do .ok (rows.drop (← evalCount lib params offset 0))

def projectRow (ev : Evaluator) (projections : List Projection) (ctx : RowContext) : Row :=
  projections.flatMap fun projection =>
    match projection with
    | .wildcard => ctx.values
    | .wildcardTable _ => []
    | .expr content _ =>
        match ev ctx content with
        | .ok value => [value.toWireBytes lib]
        | .error _ => [none]

def finishSelect (ev : Evaluator) (params : List Value) (select : SelectStmt)
    (schema : Option TableSchema) (rows : List RowContext) : Except String QueryResult := do
  let fields ← buildFields lib select.projections schema
  let rows := filterRows lib ev select.where_ rows
  let rows ← if isAggregateQuery lib select then executeAggregation lib ev select schema rows
    else .ok rows
  let rows ← applyWindowFunctions lib ev select rows
  let rows ← limitRows lib params select.limit select.offset (sortRows lib ev select.orderBy rows)
  let rows := rows.map (projectRow lib ev select.projections)
  .ok ⟨fields, rows, "SELECT " ++ toString rows.length⟩

def executeProjectionOnly (ev : Evaluator) (params : List Value) (select : SelectStmt) :
    Except String QueryResult := do
  let ctx := { RowContext.empty with params := params }
  let cells ← select.projections.mapM fun projection =>
    match projection with
    | .wildcard => .error "SELECT * requires a FROM clause"
    | .wildcardTable _ => .error "SELECT table.* requires a FROM clause"
    | .expr content alias_ => do
        let value ← ev ctx content
        .ok (FieldDescription.simple (alias_.getD (inferColumnName lib content)) value.typeOid,
          value.toWireBytes lib)
  .ok ⟨cells.map Prod.fst, [cells.map Prod.snd], "SELECT 1"⟩

/-! ## CTEs -/

def plainCte (run : Runner) (txn : Option TxnView) (outer : List OuterRow) (params : List Value)
    (ctes : CteContext) (cte : Cte) : Except String CteContext := do
  let (ctes, result) ← run txn ctes outer params cte.subquery
  .ok ((cte.name, result.rows, cteSchema cte result.fields) :: ctes)

/-- The recursive term is run on the rows of the last round until there are none;
`fuel` is the number of rounds that may bring rows. -/
def recursiveCte (run : Runner) (txn : Option TxnView) (outer : List OuterRow)
    (params : List Value) (name : String) (schema : TableSchema) (term : SelectStmt) :
    Nat → CteContext → List Row → List Row → Except String CteContext
  | 0, _, _, _ => .error ("recursive CTE \"" ++ name ++ "\" exceeded iteration limit")
  | fuel + 1, ctes, working, all => do
      let (ctes, result) ← run txn ((name, working, schema) :: ctes) outer params term
      if result.rows.isEmpty then .ok ((name, all, schema) :: ctes)
      else
        recursiveCte run txn outer params name schema term fuel ctes result.rows
          (all ++ result.rows)

def recursiveRounds : Nat := 10001

def materializeCte (run : Runner) (txn : Option TxnView) (outer : List OuterRow)
    (params : List Value) (ctes : CteContext) (cte : Cte) : Except String CteContext :=
  match cte.subquery.union with
  | some (_, term) =>
      if cte.recursive then do
        let (ctes, base) ← run txn ctes outer params { cte.subquery with union := none }
        recursiveCte run txn outer params cte.name (cteSchema cte base.fields) term
          recursiveRounds ctes base.rows base.rows
      else plainCte run txn outer params ctes cte
  | none => plainCte run txn outer params ctes cte

/-! ## One query -/

/-- How a subquery of an expression runs: no CTE of the statement is known to it,
and no transaction. -/
def subqueries (run : Runner) : Subqueries := fun outer params query => do
  let (_, result) ← run none [] outer params query
  .ok result.rows

def evaluator (run : Runner) : Evaluator := fun ctx expr =>
  eval lib { ctx with db := some (subqueries run) } expr

def executeFrom (order : TableRef → Option TableSchema → List Join → List Nat) (run : Runner)
    (txn : Option TxnView) (ctes : CteContext) (outer : List OuterRow) (params : List Value)
    (select : SelectStmt) : Except String (CteContext × QueryResult) := do
  let ctes ← select.ctes.foldlM (materializeCte run txn outer params) ctes
  match select.from_ with
  | none => do .ok (ctes, ← executeProjectionOnly lib (evaluator lib run) params select)
  | some source => do
      let joined ← resolveFrom lib db (fun schema => order source.primary schema source.joins) run
        txn ctes outer params select.where_ source
      let rows := joined.rows.map fun values =>
        ({ RowContext.new values joined.schema with
          outer := outer, params := params, tableScopes := joined.scopes } : RowContext)
      let result ← finishSelect lib (evaluator lib run) params select joined.schema rows
      .ok (joined.ctes, result)

def unionRows (op : UnionOp) (left right : List Row) : List Row :=
  match op with
  | .union => (left ++ right).eraseDups
  | .unionAll => left ++ right

def executeBody (run : Runner) (txn : Option TxnView) (ctes : CteContext) (outer : List OuterRow)
    (params : List Value) (select : SelectStmt) : Except String (CteContext × QueryResult) :=
  match select.union with
  | none => executeFrom lib db (joinOrder db) run txn ctes outer params select
  | some (op, rhs) => do
      let (ctes, left) ← run txn ctes outer params { select with union := none }
      let (ctes, right) ← run txn ctes outer params rhs
      let rows := unionRows op left.rows right.rows
      .ok (ctes, ⟨left.fields, rows, "SELECT " ++ toString rows.length⟩)

/-- The executor, for queries nested at most `fuel` deep. -/
def execute : Nat → Runner
  | 0 => fun _ _ _ _ _ => .error "query nested too deep"
  | fuel + 1 => fun txn ctes outer params select =>
      executeBody lib db (execute fuel) txn ctes outer params select

end

end Pantheon.Sql
