import Mathlib
import Pantheon.Lib.HashTable
import Pantheon.Sql.Eval

/-!
# Groups, aggregates and window functions: `executor/select.rs`

Each pass is a function of the rows and of `ev`, which evaluates an expression on
a row.  An aggregate evaluates its argument on the bare rows of the group,
without aliases, enclosing rows and parameters.
-/

set_option autoImplicit false

namespace Pantheon.Sql

open Pantheon.Lib

abbrev Evaluator : Type := RowContext → Expr → Except String Value

/-! ## Collecting calls -/

mutual

def containsAggregate (lib : Library) : Expr → Bool
  | .function name args _ => isAggregateName lib name || anyContainsAggregate lib args
  | .binaryOp _ lhs rhs => containsAggregate lib lhs || containsAggregate lib rhs
  | .unaryOp _ expr => containsAggregate lib expr
  | .isNull expr _ => containsAggregate lib expr
  | .isTrue expr _ => containsAggregate lib expr
  | .isFalse expr _ => containsAggregate lib expr
  | .between expr low high _ =>
      containsAggregate lib expr || containsAggregate lib low || containsAggregate lib high
  | .like expr pattern _ => containsAggregate lib expr || containsAggregate lib pattern
  | .inList expr items _ => containsAggregate lib expr || anyContainsAggregate lib items
  | .inSubquery expr _ _ => containsAggregate lib expr
  | .cast expr _ => containsAggregate lib expr
  | .case operand branches else_ =>
      optionContainsAggregate lib operand || branchContainsAggregate lib branches ||
        optionContainsAggregate lib else_
  | _ => false

def anyContainsAggregate (lib : Library) : List Expr → Bool
  | [] => false
  | expr :: exprs => containsAggregate lib expr || anyContainsAggregate lib exprs

def optionContainsAggregate (lib : Library) : Option Expr → Bool
  | none => false
  | some expr => containsAggregate lib expr

def branchContainsAggregate (lib : Library) : List (Expr × Expr) → Bool
  | [] => false
  | (condition, result) :: branches =>
      containsAggregate lib condition || containsAggregate lib result ||
        branchContainsAggregate lib branches

end

/-- The calls of an expression: the outermost subexpressions that `isCall`
accepts, through the operators that both collecting passes look into. -/
def isAggregateCall (lib : Library) : Expr → Bool
  | .function name _ _ => isAggregateName lib name
  | _ => false

def isWindowCall : Expr → Bool
  | .window _ _ _ _ _ => true
  | _ => false

mutual

def collectCalls (isCall : Expr → Bool) : Expr → List Expr
  | .function name args distinct =>
      if isCall (.function name args distinct) then [.function name args distinct]
      else collectList isCall args
  | .window func args partitionBy orderBy frame =>
      if isCall (.window func args partitionBy orderBy frame) then
        [.window func args partitionBy orderBy frame]
      else []
  | .binaryOp _ lhs rhs => collectCalls isCall lhs ++ collectCalls isCall rhs
  | .unaryOp _ expr => collectCalls isCall expr
  | .isNull expr _ => collectCalls isCall expr
  | .isTrue expr _ => collectCalls isCall expr
  | .isFalse expr _ => collectCalls isCall expr
  | .between expr low high _ =>
      collectCalls isCall expr ++ collectCalls isCall low ++ collectCalls isCall high
  | .like expr pattern _ => collectCalls isCall expr ++ collectCalls isCall pattern
  | .inList expr items _ => collectCalls isCall expr ++ collectList isCall items
  | .inSubquery expr _ _ => collectCalls isCall expr
  | .cast expr _ => collectCalls isCall expr
  | .case operand branches else_ =>
      collectOption isCall operand ++ collectBranches isCall branches ++ collectOption isCall else_
  | _ => []

def collectList (isCall : Expr → Bool) : List Expr → List Expr
  | [] => []
  | expr :: exprs => collectCalls isCall expr ++ collectList isCall exprs

def collectOption (isCall : Expr → Bool) : Option Expr → List Expr
  | none => []
  | some expr => collectCalls isCall expr

def collectBranches (isCall : Expr → Bool) : List (Expr × Expr) → List Expr
  | [] => []
  | (condition, result) :: branches =>
      collectCalls isCall condition ++ collectCalls isCall result ++
        collectBranches isCall branches

end

def Projection.expr? : Projection → Option Expr
  | .expr content _ => some content
  | _ => none

def projectedExprs (select : SelectStmt) : List Expr := select.projections.filterMap Projection.expr?

def collectAggregateExprs (lib : Library) (select : SelectStmt) : List Expr :=
  (projectedExprs select ++ select.having.toList).flatMap (collectCalls (isAggregateCall lib))

def collectWindowExprs (select : SelectStmt) : List Expr :=
  (projectedExprs select ++ select.orderBy.map OrderBy.expr).flatMap (collectCalls isWindowCall)

def isAggregateQuery (lib : Library) (select : SelectStmt) : Bool :=
  !select.groupBy.isEmpty || (projectedExprs select).any (containsAggregate lib) ||
    select.having.any (containsAggregate lib)

section

variable (lib : Library)

/-! ## Aggregates -/

/-- The values that are not NULL, and with `DISTINCT` the first of each. -/
def aggregateValues (distinct : Bool) : List (Except String Value) → List String →
    Except String (List Value)
  | [], _ => .ok []
  | result :: results, seen => do
      let value ← result
      let key := lib.debugValue value
      if value = .null ∨ distinct = true ∧ seen.contains key then
        aggregateValues distinct results seen
      else
        let values ← aggregateValues distinct results (if distinct then key :: seen else seen)
        .ok (value :: values)

def sumFloats : List Value → Except String F64
  | values => values.foldlM
      (fun total value =>
        match value with
        | .int number => .ok (lib.floatArith .add total (lib.floatOfInt number))
        | .float number => .ok (lib.floatArith .add total number)
        | _ => .error "sum() requires numeric argument")
      (lib.floatOfInt 0)

def isFloatValue : Value → Bool
  | .float _ => true
  | _ => false

def intOf : Value → Int
  | .int number => number
  | _ => 0

def aggregateSum (values : List Value) : Except String Value :=
  if values.isEmpty then .ok .null
  else do
    let total ← sumFloats lib values
    .ok (if values.any isFloatValue then .float total else .int (wrapI64 (values.map intOf).sum))

def aggregateAvg (values : List Value) : Except String Value :=
  if values.isEmpty then .ok .null
  else
    match sumFloats lib values with
    | .ok total => .ok (.float (lib.floatArith .div total (lib.floatOfInt values.length)))
    | .error _ => .error "avg() requires numeric argument"

/-- The first of the values that no later one beats. -/
def aggregateBest (better : Ordering → Bool) : List Value → Value
  | [] => .null
  | value :: values =>
      values.foldl (fun best value => if comparesAs lib better value best then value else best) value

def isStar : Option Expr → Bool
  | none => true
  | some (.ident name) => name == "*"
  | some _ => false

/-- An aggregate over the results of its argument on the rows of the group. -/
def evalAggregate (name : String) (arg : Option Expr) (distinct : Bool) (rowCount : Nat)
    (results : List (Except String Value)) : Except String Value :=
  let name := lib.lowercase name
  if name = "count" then
    if isStar arg then .ok (.int rowCount)
    else do
      let values ← aggregateValues lib distinct results []
      .ok (.int values.length)
  else if arg.isNone then .error (name ++ "() requires an argument")
  else do
    let values ← aggregateValues lib distinct results []
    if name = "sum" then aggregateSum lib values
    else if name = "avg" then aggregateAvg lib values
    else if name = "min" then .ok (aggregateBest lib (· == .lt) values)
    else if name = "max" then .ok (aggregateBest lib (· == .gt) values)
    else .error ("unknown aggregate function \"" ++ name ++ "\"")

def aggregateResults (ev : Evaluator) (arg : Option Expr) (schema : Option TableSchema)
    (rows : List Row) : List (Except String Value) :=
  match arg with
  | none => []
  | some arg => rows.map fun row => ev (RowContext.new row schema) arg

/-- The values of the calls for one group; a call that is there is not redone. -/
def computeAggregates (ev : Evaluator) (schema : Option TableSchema) (rows : List Row) :
    List Expr → List (String × Value) → Except String (List (String × Value))
  | [], computed => .ok computed
  | call :: calls, computed =>
      if (computed.lookup (lib.debugExpr call)).isSome then computeAggregates ev schema rows calls computed
      else
        match call with
        | .function name args distinct => do
            let value ← evalAggregate lib name args.head? distinct rows.length
              (aggregateResults ev args.head? schema rows)
            computeAggregates ev schema rows calls ((lib.debugExpr call, value) :: computed)
        | _ => computeAggregates ev schema rows calls computed

/-! ## Groups -/

def evalAll (ev : Evaluator) (ctx : RowContext) (exprs : List Expr) : Except String (List Value) :=
  exprs.mapM (ev ctx)

/-- The groups in the order of their first rows. -/
def groupRows (ev : Evaluator) (groupBy : List Expr) (rows : List RowContext) :
    Except String (List (String × List RowContext)) :=
  if groupBy.isEmpty then .ok [("", rows)]
  else rows.foldlM
    (fun groups ctx => do
      let values ← evalAll ev ctx groupBy
      .ok (HashTable.push (lib.debugValues values) ctx groups))
    []

/-- One row for a group: its first, with the aggregates computed; none if HAVING
fails. -/
def aggregateGroup (ev : Evaluator) (select : SelectStmt) (schema : Option TableSchema)
    (members : List RowContext) : Except String (Option RowContext) := do
  let width := (schema.map fun schema => schema.columns.length).getD 0
  let representative := members.head?.getD (RowContext.new (List.replicate width none) schema)
  let computed ← computeAggregates lib ev schema (members.map RowContext.values)
    (collectAggregateExprs lib select) []
  let ctx := { representative with computed := some computed }
  match select.having with
  | none => .ok (some ctx)
  | some having => do
      let value ← ev ctx having
      .ok (if value.isTruthy lib then some ctx else none)

def executeAggregation (ev : Evaluator) (select : SelectStmt) (schema : Option TableSchema)
    (rows : List RowContext) : Except String (List RowContext) := do
  let groups ← groupRows lib ev select.groupBy rows
  let output ← groups.mapM fun group => aggregateGroup lib ev select schema group.2
  .ok (output.filterMap id)

/-! ## Sorting -/

/-- The comparator of ORDER BY: the first key that tells the rows apart decides. -/
def orderKeys (keys : List (Value × Value × Bool)) : Ordering :=
  match keys with
  | [] => .eq
  | (left, right, asc) :: keys =>
      match valueCompare lib left right with
      | .ok .eq => orderKeys keys
      | .error _ => orderKeys keys
      | .ok ordering => if asc then ordering else ordering.swap

def orNull (result : Except String Value) : Value :=
  match result with
  | .ok value => value
  | .error _ => .null

def sortKeys (ev : Evaluator) (orderBy : List OrderBy) (ctx : RowContext) : List (Value × Bool) :=
  orderBy.map fun order => (orNull (ev ctx order.expr), order.asc)

def keysBefore (left right : List (Value × Bool)) : Bool :=
  orderKeys lib (List.zipWith (fun left right => (left.1, right.1, left.2)) left right) != .gt

def sortRows (ev : Evaluator) (orderBy : List OrderBy) (rows : List RowContext) :
    List RowContext :=
  if orderBy.isEmpty then rows
  else ((rows.map fun ctx => (sortKeys ev orderBy ctx, ctx)).insertionSort
    fun left right => keysBefore lib left.1 right.1 = true).map Prod.snd

end

end Pantheon.Sql
