import Mathlib
import Pantheon.Sql.Join

/-!
# Access paths and join order: `executor/planner.rs`

`extract_*` find in the WHERE clause what an index can answer; the qualifier of a
column is not looked at.  `reorder_inner_joins` schedules the joins of the
leading INNER and CROSS joins by their estimated row counts.
-/

set_option autoImplicit false

namespace Pantheon.Sql

open Pantheon.Lib

section

variable (lib : Library)

/-! ## Predicates for an index -/

/-- The column an expression names, if the schema has it. -/
def identCol (schema : TableSchema) : Expr → Option String
  | .ident name => if schemaHas (some schema) name then some name else none
  | .qualifiedIdent _ name => if schemaHas (some schema) name then some name else none
  | _ => none

def constant? (expr : Expr) : Option Value :=
  match eval lib RowContext.empty expr with
  | .ok value => some value
  | .error _ => none

def constantInt? (expr : Expr) : Option Int :=
  match constant? lib expr with
  | some (.int value) => some value
  | some (.float value) => some (lib.floatToInt value)
  | _ => none

def tryColLiteral (schema : TableSchema) (col literal : Expr) : Option (String × Bytes) := do
  let name ← identCol schema col
  let value ← constant? lib literal
  let bytes ← value.toWireBytes lib
  some (name, bytes)

def extractEq (schema : TableSchema) : Expr → Option (String × Bytes)
  | .binaryOp .and lhs rhs => (extractEq schema lhs).or (extractEq schema rhs)
  | .binaryOp .eq lhs rhs =>
      (tryColLiteral lib schema lhs rhs).or (tryColLiteral lib schema rhs lhs)
  | _ => none

def flattenAnd : Expr → List Expr
  | .binaryOp .and lhs rhs => flattenAnd lhs ++ flattenAnd rhs
  | expr => [expr]

structure TimeBucketPredicate where
  col : String
  t0 : Int
  t1 : Int
deriving DecidableEq

def tryTimeBucketBetween (schema : TableSchema) : Expr → Option TimeBucketPredicate
  | .between inner low high false => do
      let col ← identCol schema inner
      let t0 ← constantInt? lib low
      let t1 ← constantInt? lib high
      some ⟨col, t0, t1⟩
  | _ => none

def equalsIgnoreAsciiCase (left right : String) : Bool :=
  left.toList.map Char.toLower == right.toList.map Char.toLower

def isTimeBucket : Expr → Bool
  | .function name _ _ => equalsIgnoreAsciiCase name "time_bucket"
  | _ => false

def timeBucketRange (schema : TableSchema) (bucket start : Expr) : Option TimeBucketPredicate :=
  match bucket with
  | .function name [interval, column] _ =>
      if equalsIgnoreAsciiCase name "time_bucket" then do
        let width ← match constant? lib interval with
          | some (.text text) => lib.parseInterval text
          | _ => none
        let col ← identCol schema column
        let start ← constantInt? lib start
        some ⟨col, start, start + width - 1⟩
      else none
  | _ => none

def tryTimeBucketEq (schema : TableSchema) : Expr → Option TimeBucketPredicate
  | .binaryOp .eq lhs rhs =>
      if isTimeBucket lhs then timeBucketRange lib schema lhs rhs
      else timeBucketRange lib schema rhs lhs
  | _ => none

def extractTimeBucketPredicate (schema : TableSchema) (where_ : Expr) :
    Option TimeBucketPredicate :=
  (flattenAnd where_).findSome? fun conjunct =>
    (tryTimeBucketBetween lib schema conjunct).or (tryTimeBucketEq lib schema conjunct)

end

/-! ## Join order -/

mutual

/-- The aliases whose columns an expression names; none when a name is unknown or
stands in several tables, or the expression has another shape. -/
def exprDependencies (tables : List (String × Option TableSchema)) : Expr → Option (List String)
  | .ident name =>
      match tables.filter fun table => schemaHas table.2 name with
      | [table] => some [table.1]
      | _ => none
  | .qualifiedIdent qualifier _ =>
      if tables.any fun table => table.1 == qualifier then some [qualifier] else none
  | .literal _ => some []
  | .param _ => some []
  | .binaryOp _ lhs rhs => do
      let left ← exprDependencies tables lhs
      let right ← exprDependencies tables rhs
      some (left ++ right)
  | .unaryOp _ expr => exprDependencies tables expr
  | .cast expr _ => exprDependencies tables expr
  | .function _ args _ => argsDependencies tables args
  | .between expr low high _ => do
      let inner ← exprDependencies tables expr
      let lower ← exprDependencies tables low
      let upper ← exprDependencies tables high
      some (inner ++ lower ++ upper)
  | .isNull expr _ => exprDependencies tables expr
  | .isTrue expr _ => exprDependencies tables expr
  | .isFalse expr _ => exprDependencies tables expr
  | _ => none

def argsDependencies (tables : List (String × Option TableSchema)) :
    List Expr → Option (List String)
  | [] => some []
  | expr :: exprs => do
      let first ← exprDependencies tables expr
      let rest ← argsDependencies tables exprs
      some (first ++ rest)

end

/-- A join that can be moved: its alias, schema and estimate. -/
structure JoinNode where
  scopeName : String
  schema : TableSchema
  estRows : Int
deriving DecidableEq

def isInnerOrCross (join : Join) : Bool := join.joinType == .inner || join.joinType == .cross

def joinNode (schemaOf : String → Option TableSchema) (estimate : String → Option Int)
    (join : Join) : Option JoinNode :=
  if join.table.subquery.isSome || join.table.funcArgs.isSome then none
  else do
    let schema ← schemaOf join.table.name
    let estRows ← estimate join.table.name
    some ⟨join.table.scopeName, schema, estRows⟩

/-- The aliases other than its own that the ON clause of a join needs. -/
def joinDependencies (tables : List (String × Option TableSchema)) (node : JoinNode) (join : Join) :
    Option (List String) :=
  match join.on with
  | none => some []
  | some on => (exprDependencies tables on).map fun names =>
      names.filter fun name => decide (name ≠ node.scopeName)

/-- A join waiting for the aliases it needs. -/
structure PendingJoin where
  index : Nat
  node : JoinNode
  needs : List String
deriving DecidableEq

def PendingJoin.ready (scheduled : List String) (pending : PendingJoin) : Bool :=
  pending.needs.all fun name => scheduled.contains name

def smallest : List PendingJoin → Option PendingJoin
  | [] => none
  | pending :: rest =>
      match smallest rest with
      | none => some pending
      | some best =>
          if pending.node.estRows < best.node.estRows ∨
              pending.node.estRows = best.node.estRows ∧ pending.index ≤ best.index then
            some pending
          else some best

/-- The greedy schedule; none when the joins left need each other. -/
def scheduleJoins : Nat → List String → List PendingJoin → Option (List Nat)
  | _, _, [] => some []
  | 0, _, _ :: _ => none
  | fuel + 1, scheduled, remaining =>
      match smallest (remaining.filter (PendingJoin.ready scheduled)) with
      | none => none
      | some next => do
          let rest ← scheduleJoins fuel (next.node.scopeName :: scheduled)
            (remaining.filter fun pending => decide (pending.index ≠ next.index))
          some (next.index :: rest)

def reorderInnerJoins (primaryAlias : String) (primarySchema : Option TableSchema)
    (joins : List Join) (schemaOf : String → Option TableSchema)
    (estimate : String → Option Int) : List Nat :=
  let movable := joins.takeWhile isInnerOrCross
  let order : Option (List Nat) := do
    if movable.length < 2 then none
    else
      let nodes ← movable.mapM (joinNode schemaOf estimate)
      let tables := (primaryAlias, primarySchema) ::
        nodes.map fun node => (node.scopeName, some node.schema)
      let pending ← (nodes.zip movable).zipIdx.mapM fun item => do
        let needs ← joinDependencies tables item.1.1 item.1.2
        some (⟨item.2, item.1.1, needs⟩ : PendingJoin)
      let order ← scheduleJoins pending.length [primaryAlias] pending
      some (order ++ (List.range joins.length).drop movable.length)
  order.getD (List.range joins.length)

end Pantheon.Sql
