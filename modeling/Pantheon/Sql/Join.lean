import Mathlib
import Pantheon.Lib.HashTable
import Pantheon.Sql.Eval

/-!
# Joins: `executor/join.rs`

An ON clause that is one equality between a left and a right expression is
joined by hashing: each key is evaluated on its own row, without the names of the
FROM clause, and keys are compared as wire bytes.  Every other ON clause is
evaluated on each pair of rows.
-/

set_option autoImplicit false

namespace Pantheon.Sql

open Pantheon.Lib

/-! ## Which joins are hashed -/

def schemaHas (schema : Option TableSchema) (name : String) : Bool :=
  schema.any fun schema => schema.columns.any fun column => column.name == name

mutual

/-- The expression names only columns of the schema, whatever their qualifier. -/
def exprOnlyRefs (schema : Option TableSchema) : Expr → Bool
  | .ident name => schemaHas schema name
  | .qualifiedIdent _ name => schemaHas schema name
  | .literal _ => true
  | .param _ => true
  | .binaryOp _ lhs rhs => exprOnlyRefs schema lhs && exprOnlyRefs schema rhs
  | .unaryOp _ expr => exprOnlyRefs schema expr
  | .cast expr _ => exprOnlyRefs schema expr
  | .function _ args _ => exprsOnlyRef schema args
  | _ => false

def exprsOnlyRef (schema : Option TableSchema) : List Expr → Bool
  | [] => true
  | expr :: exprs => exprOnlyRefs schema expr && exprsOnlyRef schema exprs

end

def splitJoinKeys (on : Expr) (leftSchema rightSchema : Option TableSchema) :
    Option (Expr × Expr) :=
  match on with
  | .binaryOp .eq lhs rhs =>
      if exprOnlyRefs leftSchema lhs && exprOnlyRefs rightSchema rhs then some (lhs, rhs)
      else if exprOnlyRefs leftSchema rhs && exprOnlyRefs rightSchema lhs then some (rhs, lhs)
      else none
  | _ => none

/-! ## The predicate of a pair -/

def schemaWidth (schema : Option TableSchema) : Nat :=
  (schema.map fun schema => schema.columns.length).getD 0

def mergeSchema : Option TableSchema → Option TableSchema → Option TableSchema
  | some left, some right => some ⟨left.name ++ "_" ++ right.name, left.columns ++ right.columns⟩
  | some left, none => some left
  | none, right => right

/-- What the ON clause is evaluated with: it depends on the two schemas only. -/
structure JoinPredicateCtx where
  mergedSchema : Option TableSchema
  scopes : List Scope

def buildJoinPredicateCtx (leftSchema rightSchema : Option TableSchema) (leftScopes : List Scope)
    (rightAlias : String) : JoinPredicateCtx where
  mergedSchema := mergeSchema leftSchema rightSchema
  scopes := leftScopes ++
    [⟨rightAlias, schemaWidth leftSchema, schemaWidth leftSchema + schemaWidth rightSchema⟩]

section

variable (lib : Library)

def evalJoinPredicate (on : Expr) (ctx : JoinPredicateCtx) (leftRow rightRow : Row) : Bool :=
  evalTruthy lib
    { RowContext.new (leftRow ++ rightRow) ctx.mergedSchema with tableScopes := ctx.scopes } on

/-! ## Nested loops -/

def nulls (width : Nat) : Row := List.replicate width none

def crossJoin (leftRows rightRows : List Row) : List Row :=
  leftRows.flatMap fun leftRow => rightRows.map fun rightRow => leftRow ++ rightRow

def nestedInner (matched : Row → Row → Bool) (leftRows rightRows : List Row) : List Row :=
  leftRows.flatMap fun leftRow =>
    (rightRows.filter (matched leftRow)).map fun rightRow => leftRow ++ rightRow

def paddedRight (width : Nat) (leftRow : Row) (found : List Row) : List Row :=
  if found.isEmpty then [leftRow ++ nulls width]
  else found.map fun rightRow => leftRow ++ rightRow

def paddedLeft (width : Nat) (rightRow : Row) (found : List Row) : List Row :=
  if found.isEmpty then [nulls width ++ rightRow]
  else found.map fun leftRow => leftRow ++ rightRow

def nestedLeft (matched : Row → Row → Bool) (rightWidth : Nat) (leftRows rightRows : List Row) :
    List Row :=
  leftRows.flatMap fun leftRow => paddedRight rightWidth leftRow (rightRows.filter (matched leftRow))

def nestedRight (matched : Row → Row → Bool) (leftWidth : Nat) (leftRows rightRows : List Row) :
    List Row :=
  rightRows.flatMap fun rightRow =>
    paddedLeft leftWidth rightRow (leftRows.filter fun leftRow => matched leftRow rightRow)

/-! ## Hash joins -/

/-- The key of a row: none when it fails to evaluate or is NULL. -/
def keyBytes (schema : Option TableSchema) (key : Expr) (row : Row) : Option Bytes :=
  match eval lib (RowContext.new row schema) key with
  | .ok value => value.toWireBytes lib
  | .error _ => none

def probeRows (table : List (Bytes × List Row)) (key : Option Bytes) : List Row :=
  (key.bind (HashTable.probe table)).getD []

def hashEquiJoin (leftRows rightRows : List Row) (leftKey rightKey : Expr)
    (leftSchema rightSchema : Option TableSchema) : List Row :=
  if rightRows.length ≤ leftRows.length then
    let table := HashTable.build (keyBytes lib rightSchema rightKey) rightRows
    leftRows.flatMap fun leftRow =>
      (probeRows table (keyBytes lib leftSchema leftKey leftRow)).map fun rightRow =>
        leftRow ++ rightRow
  else
    let table := HashTable.build (keyBytes lib leftSchema leftKey) leftRows
    rightRows.flatMap fun rightRow =>
      (probeRows table (keyBytes lib rightSchema rightKey rightRow)).map fun leftRow =>
        leftRow ++ rightRow

def hashLeftJoin (leftRows rightRows : List Row) (leftKey rightKey : Expr)
    (leftSchema rightSchema : Option TableSchema) : List Row :=
  let table := HashTable.build (keyBytes lib rightSchema rightKey) rightRows
  leftRows.flatMap fun leftRow =>
    paddedRight (schemaWidth rightSchema) leftRow
      (probeRows table (keyBytes lib leftSchema leftKey leftRow))

def hashRightJoin (leftRows rightRows : List Row) (leftKey rightKey : Expr)
    (leftSchema rightSchema : Option TableSchema) : List Row :=
  let table := HashTable.build (keyBytes lib leftSchema leftKey) leftRows
  rightRows.flatMap fun rightRow =>
    paddedLeft (schemaWidth leftSchema) rightRow
      (probeRows table (keyBytes lib rightSchema rightKey rightRow))

/-! ## Choosing a path -/

/-- The rows of the pairs, then the unmatched rows of the padded sides. -/
def buildRowsFromPairs (pairs : List (Nat × Nat)) (leftRows rightRows : List Row)
    (rightWidth leftWidth : Nat) (padLeft padRight : Bool) : List Row :=
  pairs.filterMap (fun pair => do
      let leftRow ← leftRows[pair.1]?
      let rightRow ← rightRows[pair.2]?
      some (leftRow ++ rightRow)) ++
    (if padLeft then
      leftRows.zipIdx.filterMap fun row =>
        if pairs.any fun pair => pair.1 == row.2 then none else some (row.1 ++ nulls rightWidth)
    else []) ++
    if padRight then
      rightRows.zipIdx.filterMap fun row =>
        if pairs.any fun pair => pair.2 == row.2 then none else some (nulls leftWidth ++ row.1)
    else []

/-- The join by a predicate on pairs.  FULL is INNER so far. -/
def loopJoin (joinType : JoinType) (matched : Row → Row → Bool) (leftWidth rightWidth : Nat)
    (leftRows rightRows : List Row) : List Row :=
  match joinType with
  | .cross => crossJoin leftRows rightRows
  | .inner | .full => nestedInner matched leftRows rightRows
  | .left => nestedLeft matched rightWidth leftRows rightRows
  | .right => nestedRight matched leftWidth leftRows rightRows

def nestedLoopJoin (joinType : JoinType) (on : Expr) (leftRows rightRows : List Row)
    (leftSchema rightSchema : Option TableSchema) (leftScopes : List Scope) (rightAlias : String) :
    List Row :=
  loopJoin joinType
    (evalJoinPredicate lib on
      (buildJoinPredicateCtx leftSchema rightSchema leftScopes rightAlias))
    (schemaWidth leftSchema) (schemaWidth rightSchema) leftRows rightRows

def hashJoin (joinType : JoinType) (leftRows rightRows : List Row) (leftKey rightKey : Expr)
    (leftSchema rightSchema : Option TableSchema) : List Row :=
  match joinType with
  | .cross => crossJoin leftRows rightRows
  | .inner | .full => hashEquiJoin lib leftRows rightRows leftKey rightKey leftSchema rightSchema
  | .left => hashLeftJoin lib leftRows rightRows leftKey rightKey leftSchema rightSchema
  | .right => hashRightJoin lib leftRows rightRows leftKey rightKey leftSchema rightSchema

def applyJoin (leftRows rightRows : List Row) (join : Join)
    (leftSchema rightSchema : Option TableSchema) (leftScopes : List Scope) (rightAlias : String) :
    List Row :=
  match join.joinType, join.on with
  | .cross, _ => crossJoin leftRows rightRows
  | .inner, none | .full, none => crossJoin leftRows rightRows
  | .left, none =>
      leftRows.flatMap fun leftRow => paddedRight (schemaWidth rightSchema) leftRow rightRows
  | .right, none =>
      rightRows.flatMap fun rightRow => paddedLeft (schemaWidth leftSchema) rightRow leftRows
  | joinType, some on =>
      match splitJoinKeys on leftSchema rightSchema with
      | some (leftKey, rightKey) =>
          hashJoin lib joinType leftRows rightRows leftKey rightKey leftSchema rightSchema
      | none =>
          match lib.spatialPairs on leftSchema rightSchema leftRows rightRows with
          | some pairs =>
              buildRowsFromPairs pairs leftRows rightRows (schemaWidth rightSchema)
                (schemaWidth leftSchema) (joinType == .left) (joinType == .right)
          | none =>
              nestedLoopJoin lib joinType on leftRows rightRows leftSchema rightSchema leftScopes
                rightAlias

end

end Pantheon.Sql
