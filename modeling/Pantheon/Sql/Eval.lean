import Mathlib
import Pantheon.Sql.Value

/-!
# Evaluating an expression on a row: `RowContext`

The context holds the row, the rows of the enclosing queries, the parameters and
the values already computed for aggregates and window functions.  A subquery is
run by the context's `db`; without one it is an error.
-/

set_option autoImplicit false

namespace Pantheon.Sql

open Pantheon.Lib

/-- The columns of a row that belong to one table of the FROM clause. -/
structure Scope where
  name : String
  start : Nat
  stop : Nat
deriving DecidableEq

structure OuterRow where
  schema : Option TableSchema
  values : Row
  tableScopes : List Scope
deriving DecidableEq

/-- How a subquery of an expression runs, given the enclosing rows and the
parameters. -/
abbrev Subqueries : Type := List OuterRow → List Value → SelectStmt → Except String (List Row)

structure RowContext where
  values : Row
  schema : Option TableSchema
  db : Option Subqueries
  outer : List OuterRow
  params : List Value
  computed : Option (List (String × Value))
  tableScopes : List Scope

namespace RowContext

def empty : RowContext := ⟨[], none, none, [], [], none, []⟩

def new (values : Row) (schema : Option TableSchema) : RowContext :=
  { empty with values := values, schema := schema }

def asOuterRow (ctx : RowContext) : OuterRow := ⟨ctx.schema, ctx.values, ctx.tableScopes⟩

def outerChainForSubquery (ctx : RowContext) : List OuterRow := ctx.outer ++ [ctx.asOuterRow]

end RowContext

def findScope (scopes : List Scope) (qualifier : String) : Option Scope :=
  scopes.find? fun scope => scope.name == qualifier

def columnPosition (columns : List ColumnDef) (name : String) : Option Nat :=
  columns.findIdx? fun column => column.name == name

section

variable (lib : Library)

def cellValue (values : Row) (index : Nat) : Value := Value.fromBytes lib (values[index]?.join)

/-- The column inside the scope's columns, if the schema covers them. -/
def lookupInRange (schema : Option TableSchema) (values : Row) (scope : Scope) (name : String) :
    Option Value := do
  let schema ← schema
  if scope.start ≤ scope.stop ∧ scope.stop ≤ schema.columns.length then
    let index ← columnPosition ((schema.columns.take scope.stop).drop scope.start) name
    some (cellValue lib values (scope.start + index))
  else none

def lookupQualified (qualifier name : String) (row : OuterRow) : Option Value :=
  (findScope row.tableScopes qualifier).bind fun scope =>
    lookupInRange lib row.schema row.values scope name

/-- A bare name in the schema of one row: the first column of that name. -/
def lookupBare (name : String) (row : OuterRow) : Option Value :=
  row.schema.bind fun schema =>
    (columnPosition schema.columns name).map (cellValue lib row.values)

/-- The qualifier is tried in the row and in the enclosing rows, innermost first;
after that the name alone is. -/
def resolveColumn (ctx : RowContext) (qualifier : Option String) (name : String) :
    Except String Value :=
  let rows := ctx.asOuterRow :: ctx.outer.reverse
  let qualified := qualifier.bind fun qualifier => rows.findSome? (lookupQualified lib qualifier name)
  match qualified.or (rows.findSome? (lookupBare lib name)) with
  | some value => .ok value
  | none =>
      if ctx.schema.isNone && ctx.outer.isEmpty then
        .error ("column \"" ++ name ++ "\" does not exist (no FROM clause)")
      else .error ("column \"" ++ name ++ "\" does not exist")

def isAggregateName (name : String) : Bool :=
  ["count", "sum", "avg", "min", "max"].contains (lib.lowercase name)

def lookupComputed (ctx : RowContext) (expr : Expr) : Option Value :=
  ctx.computed.bind fun computed => computed.lookup (lib.debugExpr expr)

def evalParam (params : List Value) (index : Nat) : Except String Value :=
  match index with
  | 0 => .error "invalid parameter $0"
  | position + 1 =>
      match params[position]? with
      | some value => .ok value
      | none => .error ("parameter $" ++ toString (position + 1) ++ " not bound")

def evalUnary (op : UnOp) (value : Value) : Except String Value :=
  match op with
  | .neg =>
      match value with
      | .int value => .ok (.int (wrapI64 (-value)))
      | .float value => .ok (.float (lib.floatNeg value))
      | value => .error ("cannot negate " ++ value.typeName)
  | .not => .ok (.bool !(value.isTruthy lib))

def evalBinary (op : BinOp) (left right : Value) : Except String Value :=
  match op with
  | .add | .sub | .mul | .div | .mod => evalArithmetic lib left right op
  | .concat => .ok (.text (valToText lib left ++ valToText lib right))
  | .eq => .ok (.bool (comparesAs lib (· == .eq) left right))
  | .notEq => .ok (.bool (comparesAs lib (· != .eq) left right))
  | .lt => .ok (.bool (comparesAs lib (· == .lt) left right))
  | .lte => .ok (.bool (comparesAs lib (· != .gt) left right))
  | .gt => .ok (.bool (comparesAs lib (· == .gt) left right))
  | .gte => .ok (.bool (comparesAs lib (· != .lt) left right))
  | .regexMatch | .regexNotMatch | .regexMatchCI | .regexNotMatchCI =>
      if left = .null ∨ right = .null then .ok .null
      else do
        let ignoreCase := op == .regexMatchCI || op == .regexNotMatchCI
        let negated := op == .regexNotMatch || op == .regexNotMatchCI
        let found ← lib.regexIsMatch (valToText lib left) (valToText lib right) ignoreCase
        .ok (.bool (found != negated))
  | op => lib.jsonOp op left right

def runSubqueryRows (ctx : RowContext) (query : SelectStmt) : Except String (List Row) :=
  match ctx.db with
  | none => .error "subqueries require a database context"
  | some db => db ctx.outerChainForSubquery ctx.params query

def evalBetween (value low high : Value) : Except String Bool := do
  let lower ← valueCompare lib value low
  if lower = .lt then .ok false
  else
    let upper ← valueCompare lib value high
    .ok (upper != .gt)

def evalLike (value pattern : Value) (negated : Bool) : Except String Value :=
  match value, pattern with
  | .text text, .text pattern => .ok (.bool (likeMatch text pattern != negated))
  | _, _ => .error "LIKE requires text operands"

mutual

def eval (ctx : RowContext) : Expr → Except String Value
  | .literal value => .ok value.value
  | .ident name => resolveColumn lib ctx none name
  | .qualifiedIdent table name => resolveColumn lib ctx (some table) name
  | .param index => evalParam ctx.params index
  | .unaryOp op expr => do evalUnary lib op (← eval ctx expr)
  | .binaryOp .and lhs rhs => do
      if !(← eval ctx lhs).isTruthy lib then .ok (.bool false)
      else .ok (.bool ((← eval ctx rhs).isTruthy lib))
  | .binaryOp .or lhs rhs => do
      if (← eval ctx lhs).isTruthy lib then .ok (.bool true)
      else .ok (.bool ((← eval ctx rhs).isTruthy lib))
  | .binaryOp op lhs rhs => do
      let left ← eval ctx lhs
      let right ← eval ctx rhs
      evalBinary lib op left right
  | .isNull expr negated => do .ok (.bool (((← eval ctx expr) == .null) != negated))
  | .isTrue expr negated => do .ok (.bool (((← eval ctx expr) == .bool true) != negated))
  | .isFalse expr negated => do .ok (.bool (((← eval ctx expr) == .bool false) != negated))
  | .between expr low high negated => do
      let value ← eval ctx expr
      let lower ← eval ctx low
      let upper ← eval ctx high
      let inside ← evalBetween lib value lower upper
      .ok (.bool (inside != negated))
  | .like expr pattern negated => do
      let value ← eval ctx expr
      let pattern ← eval ctx pattern
      evalLike value pattern negated
  | .inList expr items negated => do
      let value ← eval ctx expr
      let found ← evalIn ctx value items
      .ok (.bool (found != negated))
  | .inSubquery expr subquery negated => do
      let value ← eval ctx expr
      let rows ← runSubqueryRows ctx subquery
      let found := rows.any fun row =>
        row.head?.any fun cell => comparesAs lib (· == .eq) value (Value.fromBytes lib cell)
      .ok (.bool (found != negated))
  | .exists subquery negated => do
      let rows ← runSubqueryRows ctx subquery
      .ok (.bool ((!rows.isEmpty) != negated))
  | .cast expr ty => do castValue lib (← eval ctx expr) ty
  | .function name args distinct =>
      match lookupComputed lib ctx (.function name args distinct) with
      | some value => .ok value
      | none =>
          if isAggregateName lib name then
            .error ("aggregate function " ++ name ++ "() is not allowed in this context")
          else lib.function ctx.db.isSome name (evalArgs ctx args)
  | .case operand branches else_ => do
      let base ← evalOption ctx operand
      match ← evalBranches ctx base branches with
      | some value => .ok value
      | none => do .ok ((← evalOption ctx else_).getD .null)
  | .subquery query => do
      let rows ← runSubqueryRows ctx query
      .ok ((rows.head?.bind List.head?).elim .null (Value.fromBytes lib))
  | .window func args partitionBy orderBy frame =>
      match lookupComputed lib ctx (.window func args partitionBy orderBy frame) with
      | some value => .ok value
      | none => lib.function ctx.db.isSome func (evalArgs ctx args)

def evalArgs (ctx : RowContext) : List Expr → List (Except String Value)
  | [] => []
  | expr :: exprs => eval ctx expr :: evalArgs ctx exprs

def evalOption (ctx : RowContext) : Option Expr → Except String (Option Value)
  | none => .ok none
  | some expr => do .ok (some (← eval ctx expr))

def evalIn (ctx : RowContext) (value : Value) : List Expr → Except String Bool
  | [] => .ok false
  | item :: items => do
      if comparesAs lib (· == .eq) value (← eval ctx item) then .ok true
      else evalIn ctx value items

/-- The result of the first branch that applies. -/
def evalBranches (ctx : RowContext) (base : Option Value) :
    List (Expr × Expr) → Except String (Option Value)
  | [] => .ok none
  | (condition, result) :: branches => do
      let tested ← eval ctx condition
      let applies : Bool := match base with
        | some base => comparesAs lib (· == .eq) base tested
        | none => tested.isTruthy lib
      if applies then do .ok (some (← eval ctx result))
      else evalBranches ctx base branches

end

def evalTruthy (ctx : RowContext) (expr : Expr) : Bool :=
  match eval lib ctx expr with
  | .ok value => value.isTruthy lib
  | .error _ => false

end

end Pantheon.Sql
