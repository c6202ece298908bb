import Mathlib

/-!
# The syntax trees of Telos: `tpt-telos-parser/src/ast.rs`

Integers are those the lexer reads, without a sign.  Spans, the attributes of
functions, the types of let bindings and return types are left out, and of a parameter's
type only its name is kept.  The value of an expression is the contract language's: integers without
bound, a division truncates.
-/

set_option autoImplicit false

namespace Pantheon.Telos

inductive BinOp where
  | add
  | sub
  | mul
  | div
  | eq
  | ne
  | lt
  | le
  | gt
  | ge
  | and
  | or
deriving DecidableEq

inductive AggregateOp where
  | sum
  | min
  | max
  | count
deriving DecidableEq

inductive Pattern where
  | literal (value : Int)
  | var (name : String)
  | constructor (name : String) (fields : List Pattern)
  | wildcard

inductive Expr where
  | int (value : Int)
  | var (name : String)
  | field (base field : String)
  | old (expr : Expr)
  | neg (expr : Expr)
  | bin (op : BinOp) (lhs rhs : Expr)
  | call (func : String) (args : List Expr)
  | methodCall (receiver : Expr) (method : String) (args : List Expr)
  | index (receiver index : Expr)
  | ifElse (condition thenExpr elseExpr : Expr)
  | matchOn (scrutinee : Expr) (arms : List (Pattern × Expr))
  | try_ (expr : Expr)
  | forall_ (var : String) (domain : Option Expr) (body : Expr)
  | aggregate (op : AggregateOp) (args : List Expr)
  | range (lo hi : Expr)

inductive AssignOp where
  | set
  | add
  | sub
deriving DecidableEq

structure Assign where
  target : Expr
  op : AssignOp
  value : Expr

/-- The statements other than `match`. -/
inductive Stmt where
  | mutateState (assigns : List Assign)
  | assign (assign : Assign)
  | letBinding (name : String) (value : Expr)
  | ifStmt (condition : Expr) (thenBody : List Stmt) (elseBody : Option (List Stmt))
  | return_ (value : Option Expr)

structure Param where
  name : String
  typeName : String

structure Func where
  name : String
  params : List Param
  requires : List Expr
  ensures : List Expr
  body : List Stmt
  elided : Bool

structure Invariant where
  name : String
  constraints : List Expr

inductive Item where
  | func (func : Func)
  | invariant (invariant : Invariant)
  | other (name : String)

structure Attribute where
  name : String
  args : List String

structure Module where
  name : String
  attributes : List Attribute
  items : List Item

/-! ## Values -/

inductive Value where
  | int (value : Int)
  | bool (value : Bool)
deriving DecidableEq

/-- What a leaf of an expression reads. -/
inductive Name where
  | var (name : String)
  | field (base field : String)
deriving DecidableEq

def Value.asInt : Value → Option Int
  | .int value => some value
  | .bool _ => none

def Value.asBool : Value → Option Bool
  | .bool value => some value
  | .int _ => none

def onInts (compute : Int → Int → Option Value) (lhs rhs : Option Value) : Option Value := do
  let left ← lhs >>= Value.asInt
  let right ← rhs >>= Value.asInt
  compute left right

def sameKind : Value → Value → Bool
  | .int _, .int _ => true
  | .bool _, .bool _ => true
  | _, _ => false

def onBoth (compute : Value → Value → Bool) (lhs rhs : Option Value) : Option Value := do
  let left ← lhs
  let right ← rhs
  if sameKind left right then some (.bool (compute left right)) else none

/-- `&&` and `||` read the right operand only where the left one leaves it open. -/
def BinOp.apply (op : BinOp) (lhs rhs : Option Value) : Option Value :=
  match op with
  | .add => onInts (fun left right => some (.int (left + right))) lhs rhs
  | .sub => onInts (fun left right => some (.int (left - right))) lhs rhs
  | .mul => onInts (fun left right => some (.int (left * right))) lhs rhs
  | .div =>
      onInts (fun left right => if right = 0 then none else some (.int (left.tdiv right))) lhs rhs
  | .eq => onBoth (fun left right => decide (left = right)) lhs rhs
  | .ne => onBoth (fun left right => decide (left ≠ right)) lhs rhs
  | .lt => onInts (fun left right => some (.bool (decide (left < right)))) lhs rhs
  | .le => onInts (fun left right => some (.bool (decide (left ≤ right)))) lhs rhs
  | .gt => onInts (fun left right => some (.bool (decide (left > right)))) lhs rhs
  | .ge => onInts (fun left right => some (.bool (decide (left ≥ right)))) lhs rhs
  | .and => do
      let left ← lhs >>= Value.asBool
      if left then (rhs >>= Value.asBool).map .bool else some (.bool false)
  | .or => do
      let left ← lhs >>= Value.asBool
      if left then some (.bool true) else (rhs >>= Value.asBool).map .bool

def negateValue (operand : Option Value) : Option Value :=
  (operand >>= Value.asInt).map fun value => .int (-value)

/-- What the leaves read, in `old(..)` and outside. -/
abbrev Leaves : Type := Bool → Name → Value

def Pattern.accepts : Pattern → Value → Bool
  | .literal value, other => decide (other = .int value)
  | .var _, _ => true
  | .constructor _ _, _ => false
  | .wildcard, _ => true

def Leaves.bind (leaves : Leaves) (name : String) (value : Value) : Leaves :=
  fun inOld other => if other = .var name then value else leaves inOld other

def Pattern.binds (pattern : Pattern) (value : Value) (leaves : Leaves) : Leaves :=
  match pattern with
  | .var name => leaves.bind name value
  | _ => leaves

def Expr.constant : Expr → Option Int
  | .int value => some value
  | .neg expr => expr.constant.map fun value => -value
  | .bin op lhs rhs => do
      let left ← lhs.constant
      let right ← rhs.constant
      match op with
      | .add => some (left + right)
      | .sub => some (left - right)
      | .mul => some (left * right)
      | .div => if right = 0 then none else some (left.tdiv right)
      | _ => none
  | _ => none

def rangeBounds : Option Expr → Option (Int × Int)
  | some (.range lo hi) => do
      let low ← lo.constant
      let high ← hi.constant
      some (low, high)
  | _ => none

def allHold (values : List (Option Value)) : Option Value :=
  values.foldr BinOp.and.apply (some (.bool true))

/-- An element at a constant index is read as a field or variable of its own. -/
def elementName : Expr → Expr → Option Name
  | .field base _, .int position => some (.field base (toString position))
  | .var name, .int position => some (.var (name ++ "." ++ toString position))
  | _, _ => none

mutual

/-- Calls, aggregates, ranges and `?` have no value here. -/
def Expr.value (leaves : Leaves) (inOld : Bool) : Expr → Option Value
  | .int value => some (.int value)
  | .var name => some (leaves inOld (.var name))
  | .field base field => some (leaves inOld (.field base field))
  | .old expr => expr.value leaves true
  | .neg expr => negateValue (expr.value leaves inOld)
  | .bin op lhs rhs => op.apply (lhs.value leaves inOld) (rhs.value leaves inOld)
  | .index receiver index => (elementName receiver index).map (leaves inOld)
  | .ifElse condition thenExpr elseExpr =>
      (condition.value leaves inOld >>= Value.asBool).bind fun holds =>
        if holds then thenExpr.value leaves inOld else elseExpr.value leaves inOld
  | .matchOn scrutinee arms =>
      (scrutinee.value leaves inOld).bind fun value => armsValue leaves inOld value arms
  | .forall_ name domain body =>
      (rangeBounds domain).bind fun bounds =>
        allHold ((List.range (bounds.2 - bounds.1).toNat).map fun offset =>
          body.value (leaves.bind name (.int (bounds.1 + offset))) inOld)
  | _ => none

def armsValue (leaves : Leaves) (inOld : Bool) (scrutinee : Value) :
    List (Pattern × Expr) → Option Value
  | [] => none
  | arm :: rest =>
      if arm.1.accepts scrutinee then armValue (arm.1.binds scrutinee leaves) inOld arm
      else armsValue leaves inOld scrutinee rest

def armValue (leaves : Leaves) (inOld : Bool) : Pattern × Expr → Option Value
  | (_, body) => body.value leaves inOld

end

/-! ## Induction over the operators -/

def Expr.isOperator : Expr → Bool
  | .old _ => true
  | .neg _ => true
  | .bin _ _ _ => true
  | _ => false

@[elab_as_elim]
theorem Expr.operators {motive : Expr → Prop}
    (leaf : ∀ expr : Expr, expr.isOperator = false → motive expr)
    (old : ∀ expr : Expr, motive expr → motive (.old expr))
    (neg : ∀ expr : Expr, motive expr → motive (.neg expr))
    (bin : ∀ (op : BinOp) (lhs rhs : Expr), motive lhs → motive rhs → motive (.bin op lhs rhs)) :
    ∀ expr, motive expr
  | .old expr => old expr (Expr.operators leaf old neg bin expr)
  | .neg expr => neg expr (Expr.operators leaf old neg bin expr)
  | .bin op lhs rhs =>
      bin op lhs rhs (Expr.operators leaf old neg bin lhs) (Expr.operators leaf old neg bin rhs)
  | .int _ => leaf _ rfl
  | .var _ => leaf _ rfl
  | .field _ _ => leaf _ rfl
  | .call _ _ => leaf _ rfl
  | .methodCall _ _ _ => leaf _ rfl
  | .index _ _ => leaf _ rfl
  | .ifElse _ _ _ => leaf _ rfl
  | .matchOn _ _ => leaf _ rfl
  | .try_ _ => leaf _ rfl
  | .forall_ _ _ _ => leaf _ rfl
  | .aggregate _ _ => leaf _ rfl
  | .range _ _ => leaf _ rfl

end Pantheon.Telos
