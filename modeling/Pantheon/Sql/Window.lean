import Mathlib
import Pantheon.Lib.Frames
import Pantheon.Sql.Aggregate

/-!
# Window functions: `apply_window_functions`

The rows are put into partition and ORDER BY order, cut into partitions, and each
row's value is computed from the partition it stands in.  A window function sees
a row only through the values of its own expressions on it, so those are
evaluated first.
-/

set_option autoImplicit false

namespace Pantheon.Sql

open Pantheon.Lib

/-- The expressions of one window call on one row.  `bare` is the first argument
as an aggregate evaluates it. -/
structure WindowRow where
  args : List (Except String Value)
  bare : List (Except String Value)
  partition : List Value
  order : List Value

section

variable (lib : Library)

def windowRow (ev : Evaluator) (args partitionBy : List Expr) (orderBy : List OrderBy)
    (ctx : RowContext) : WindowRow where
  args := args.map (ev ctx)
  bare := aggregateResults ev args.head? ctx.schema [ctx.values]
  partition := partitionBy.map fun expr => orNull (ev ctx expr)
  order := orderBy.map fun order => orNull (ev ctx order.expr)

def pairKeys (left right : List Value) (asc : List Bool) : List (Value × Value × Bool) :=
  (left.zip right).zipWith (fun values asc => (values.1, values.2, asc)) asc

def windowBefore (asc : List Bool) (left right : WindowRow) : Bool :=
  orderKeys lib (pairKeys left.partition right.partition (left.partition.map fun _ => true) ++
    pairKeys left.order right.order asc) != .gt

def sameValues (left right : List Value) : Bool :=
  (left.zip right).all fun values => comparesAs lib (· == .eq) values.1 values.2

def splitPartitions : List (Nat × WindowRow) → List (List (Nat × WindowRow))
  | [] => []
  | row :: rows =>
      match splitPartitions rows, rows with
      | part :: parts, next :: _ =>
          if sameValues lib row.2.partition next.2.partition then (row :: part) :: parts
          else [row] :: part :: parts
      | parts, _ => [row] :: parts

/-- The position among the sorted rows behind which a rank starts, and the number
of ranks. -/
def ranks : List WindowRow → Nat → Nat × Nat
  | _, 0 => (1, 1)
  | part, pos + 1 =>
      let (rank, dense) := ranks part pos
      match part[pos]?, part[pos + 1]? with
      | some before, some row =>
          if sameValues lib before.order row.order then (rank, dense) else (pos + 2, dense + 1)
      | _, _ => (rank, dense)

def argument (name : String) (row : WindowRow) (index : Nat) : Except String Value :=
  match row.args[index]? with
  | some result => result
  | none => .error (name ++ "() requires an argument")

def ntile (part : List WindowRow) (row : WindowRow) (pos : Nat) : Except String Value := do
  let count ← match ← argument "ntile" row 0 with
    | .int number => .ok number
    | .float number => .ok (lib.floatToInt number)
    | _ => .error "ntile() requires an integer argument"
  if count ≤ 0 then .error "ntile() argument must be positive"
  else
    let bucket := ((pos : Int) * count).tdiv (max part.length 1) + 1
    .ok (.int (min bucket count))

def lagLead (name : String) (part : List WindowRow) (row : WindowRow) (pos : Nat) :
    Except String Value := do
  if row.args.isEmpty then .error (name ++ "() requires an argument")
  else
    let offset ← match row.args[1]? with
      | none => .ok 1
      | some result => do
          match ← result with
          | .int number => .ok number
          | .float number => .ok (lib.floatToInt number)
          | _ => .ok 1
    let target : Int := if name = "lag" then pos - offset else pos + offset
    match (if target < 0 then none else part[target.toNat]?) with
    | some other => argument name other 0
    | none => row.args[2]?.getD (.ok .null)

/-! ## Frames -/

def frameBoundOffset (offset : Option Expr → Except String Int) (bound : FrameBound) (pos : Nat)
    (length : Nat) : Except String Int :=
  match bound.boundType with
  | .unboundedPreceding => .ok (-(pos : Int))
  | .unboundedFollowing => .ok ((length : Int) - 1 - pos)
  | .currentRow => .ok 0
  | .preceding => do .ok (wrapSigned64 (-(← offset bound.offset)))
  | .following => offset bound.offset

def clampInt (low high value : Int) : Int := max low (min high value)

/-- The last row of the partition that ties with the current one. -/
def lastPeer (part : List WindowRow) : Nat → Nat → Nat
  | 0, pos => pos
  | fuel + 1, pos =>
      match part[pos]?, part[pos + 1]? with
      | some row, some next =>
          if sameValues lib row.order next.order then lastPeer part fuel (pos + 1) else pos
      | _, _ => pos

/-- ROWS, RANGE and GROUPS are all read as ROWS; the sums are unchecked 64-bit ones. -/
def resolveFrameBounds (offset : Option Expr → Except String Int) (frame : Option WindowFrame)
    (ordered : Bool) (part : List WindowRow) (pos : Nat) : Except String (Nat × Nat) :=
  match frame with
  | none =>
      if ordered then .ok (0, lastPeer lib part part.length pos + 1) else .ok (0, part.length)
  | some frame => do
      let start ← frameBoundOffset offset frame.start pos part.length
      let stop ← match frame.stop with
        | some bound => frameBoundOffset offset bound pos part.length
        | none => .ok 0
      let startPos := clampInt 0 ((part.length : Int) - 1) (wrapSigned64 (pos + start))
      let stopPos := clampInt 0 ((part.length : Int) - 1) (wrapSigned64 (pos + stop))
      .ok ((min startPos stopPos).toNat, (max startPos stopPos).toNat + 1)

/-! ## Values -/

def frameAggregate (name : String) (arg : Option Expr) (part : List WindowRow)
    (bounds : Nat × Nat) : Except String Value :=
  let rows := (part.take bounds.2).drop bounds.1
  evalAggregate lib name arg false rows.length (rows.flatMap WindowRow.bare)

def asF64 (value : Value) : Option F64 :=
  match value with
  | .int number => some (lib.floatOfInt number)
  | .float number => some number
  | _ => none

def nearestNumber (rows : List WindowRow) : Option (Nat × F64) :=
  rows.zipIdx.findSome? fun row =>
    match row.1.args.head? with
    | some (.ok value) => (asF64 lib value).map fun number => (row.2 + 1, number)
    | _ => none

def interpolate (part : List WindowRow) (row : WindowRow) (pos : Nat) : Except String Value := do
  if row.args.isEmpty then .error "interpolate() requires 1 argument"
  else
    let current ← argument "interpolate" row 0
    if current ≠ .null then .ok current
    else
      match nearestNumber lib (part.take pos).reverse, nearestNumber lib (part.drop (pos + 1)) with
      | some (back, before), some (ahead, after) =>
          let fraction := lib.floatArith .div (lib.floatOfInt back) (lib.floatOfInt (back + ahead))
          .ok (.float (lib.floatArith .add before
            (lib.floatArith .mul (lib.floatArith .sub after before) fraction)))
      | some (_, before), none => .ok (.float before)
      | none, some (_, after) => .ok (.float after)
      | none, none => .ok .null

def movingAverage (arg : Option Expr) (part : List WindowRow) (row : WindowRow) (pos : Nat) :
    Except String Value := do
  if row.args.length < 2 then
    .error "moving_average() requires 2 arguments (value, window_size)"
  else
    let size ← match ← argument "moving_average" row 1 with
      | .int number => .ok (max number 1)
      | .float number => .ok (max (lib.floatToInt number) 1)
      | _ => .error "moving_average() window_size must be an integer"
    frameAggregate lib "avg" arg part (pos - (size.toNat - 1), pos + 1)

def computeWindowValue (offset : Option Expr → Except String Int) (func : String)
    (args : List Expr) (frame : Option WindowFrame) (ordered : Bool) (part : List WindowRow)
    (row : WindowRow) (pos : Nat) : Except String Value :=
  let name := lib.lowercase func
  if name = "row_number" then .ok (.int (pos + 1))
  else if name = "rank" then
    .ok (.int (if ordered then (ranks lib part pos).1 else 1))
  else if name = "dense_rank" then
    .ok (.int (if ordered then (ranks lib part pos).2 else 1))
  else if name = "ntile" then ntile lib part row pos
  else if name = "lag" ∨ name = "lead" then lagLead lib name part row pos
  else if ["sum", "avg", "count", "min", "max"].contains name then do
    let bounds ← resolveFrameBounds lib offset frame ordered part pos
    frameAggregate lib name (if name = "count" ∧ isStar args.head? then none else args.head?) part
      bounds
  else if name = "interpolate" then interpolate lib part row pos
  else if name = "moving_average" then movingAverage lib args.head? part row pos
  else .error ("window function \"" ++ name ++ "\" is not supported")

def windowValues (offset : Option Expr → Except String Int) (func : String) (args : List Expr)
    (asc : List Bool) (frame : Option WindowFrame) (rows : List WindowRow) :
    Except String (List (Nat × Value)) := do
  let sorted := (rows.zipIdx.map Prod.swap).insertionSort
    fun left right => windowBefore lib asc left.2 right.2 = true
  let parts ← (splitPartitions lib sorted).mapM fun part =>
    part.zipIdx.mapM fun row => do
      let value ← computeWindowValue lib offset func args frame (!asc.isEmpty)
        (part.map Prod.snd) row.1.2 row.2
      .ok (row.1.1, value)
  .ok parts.flatten

def evalWindow (ev : Evaluator) (offset : Option Expr → Except String Int)
    (rows : List RowContext) : Expr → Except String (List (Nat × Value))
  | .window func args partitionBy orderBy frame =>
      windowValues lib offset func args (orderBy.map OrderBy.asc) frame
        (rows.map (windowRow ev args partitionBy orderBy))
  | _ => .ok []

def frameOffsetInt : Option Expr → Except String Int
  | none => .ok 0
  | some expr => do
      match ← eval lib RowContext.empty expr with
      | .int number => .ok number
      | .float number => .ok (lib.floatToInt number)
      | _ => .ok 0

def applyWindowFunctions (ev : Evaluator) (select : SelectStmt) (rows : List RowContext) :
    Except String (List RowContext) := do
  let calls := collectWindowExprs select
  if calls.isEmpty ∨ rows.isEmpty then .ok rows
  else
    let values ← calls.mapM fun call => do
      let values ← evalWindow lib ev (frameOffsetInt lib) rows call
      .ok (lib.debugExpr call, values)
    .ok (rows.zipIdx.map fun row =>
      let extra := values.filterMap fun call =>
        (call.2.lookup row.2).map fun value => (call.1, value)
      { row.1 with computed := some (extra ++ row.1.computed.getD []) })

end

end Pantheon.Sql
