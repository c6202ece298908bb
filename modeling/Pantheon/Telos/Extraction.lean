import Mathlib
import Pantheon.Telos.LoweringExact

/-!
# Verification problems: `tpt-telos-ir/src/extract.rs`

One problem for each branch of a function: a disjunct of its requires clauses together
with a way through its body.  The hash sets and maps of the source are lists in the order
of insertion.  Descriptions and locations of conclusions are left out.
-/

set_option autoImplicit false

namespace Pantheon.Telos

open Pantheon.Lib

variable [Build]

/-! ## Names in expressions -/

/-- The bare names of an invariant become fields of the parameter. -/
def instantiate (base : String) : Expr → Expr
  | .var name => .field base name
  | .neg expr => .neg (instantiate base expr)
  | .bin op lhs rhs => .bin op (instantiate base lhs) (instantiate base rhs)
  | expr => expr

mutual

def collectFields : Expr → List (String × String)
  | .field base field => [(base, field)]
  | .old expr => collectFields expr
  | .neg expr => collectFields expr
  | .bin _ lhs rhs => collectFields lhs ++ collectFields rhs
  | .index receiver index => collectFields receiver ++ collectFields index
  | .call _ args => collectFieldsArgs args
  | .methodCall receiver _ args => collectFields receiver ++ collectFieldsArgs args
  | .ifElse condition thenExpr elseExpr =>
      collectFields condition ++ collectFields thenExpr ++ collectFields elseExpr
  | .matchOn scrutinee arms => collectFields scrutinee ++ collectFieldsArms arms
  | _ => []

def collectFieldsArgs : List Expr → List (String × String)
  | [] => []
  | arg :: rest => collectFields arg ++ collectFieldsArgs rest

def collectFieldsArms : List (Pattern × Expr) → List (String × String)
  | [] => []
  | arm :: rest => collectFieldsArm arm ++ collectFieldsArms rest

def collectFieldsArm : Pattern × Expr → List (String × String)
  | (_, body) => collectFields body

end

mutual

def collectVars : Expr → List String
  | .var name => [name]
  | .old expr => collectVars expr
  | .neg expr => collectVars expr
  | .bin _ lhs rhs => collectVars lhs ++ collectVars rhs
  | .index receiver index => collectVars receiver ++ collectVars index
  | .call _ args => collectVarsArgs args
  | .methodCall receiver _ args => collectVars receiver ++ collectVarsArgs args
  | .ifElse condition thenExpr elseExpr =>
      collectVars condition ++ collectVars thenExpr ++ collectVars elseExpr
  | .matchOn scrutinee arms => collectVars scrutinee ++ collectVarsArms arms
  | _ => []

def collectVarsArgs : List Expr → List String
  | [] => []
  | arg :: rest => collectVars arg ++ collectVarsArgs rest

def collectVarsArms : List (Pattern × Expr) → List String
  | [] => []
  | arm :: rest => collectVarsArm arm ++ collectVarsArms rest

def collectVarsArm : Pattern × Expr → List String
  | (_, body) => collectVars body

end

/-! ## The body -/

structure BodyBranch where
  extraPremises : List Constraint
  mutations : List Constraint
  assigned : List (String × String)

def emptyBranch : BodyBranch := ⟨[], [], []⟩

def assignConstraint (assign : Assign) : Option Constraint :=
  match assign.target with
  | .field base field => do
      let post := Linear.ofVar (postField base field)
      let pre := Linear.ofVar (preField base field)
      let value ← linearize preField assign.value
      let difference ← match assign.op with
        | .set => post.sub value
        | .add => post.sub pre >>= fun change => change.sub value
        | .sub => post.sub pre >>= fun change => change.add value
      some ⟨difference, .eq⟩
  | .var name =>
      match assign.op with
      | .set => do
          let value ← linearize preField assign.value
          let difference ← (Linear.ofVar name).sub value
          some ⟨difference, .eq⟩
      | _ => none
  | _ => none

def BodyBranch.addAssign (assign : Assign) (constraint : Constraint) (branch : BodyBranch) :
    BodyBranch :=
  { branch with
    mutations := branch.mutations ++ [constraint]
    assigned := match assign.target with
      | .field base field => branch.assigned ++ [(base, field)]
      | _ => branch.assigned }

def BodyBranch.addPremise (constraint : Constraint) (branch : BodyBranch) : BodyBranch :=
  { branch with extraPremises := branch.extraPremises ++ [constraint] }

def processAssigns : List Assign → List BodyBranch → Option (List BodyBranch)
  | [], branches => some branches
  | assign :: rest, branches => do
      let constraint ← assignConstraint assign
      processAssigns rest (branches.map (BodyBranch.addAssign assign constraint))

/-- The condition of an `if` in a body is a single comparison. -/
def conditionConstraint : Expr → Option Constraint
  | .bin op lhs rhs => do
      let rel ← relationOf op
      lowerComparison preField rel lhs rhs
  | _ => none

mutual

def processStmt : Stmt → List BodyBranch → Option (List BodyBranch)
  | .mutateState assigns, branches => processAssigns assigns branches
  | .assign assign, branches => processAssigns [assign] branches
  | .ifStmt condition thenBody elseBody, branches => do
      let constraint ← conditionConstraint condition
      let thenBranches ←
        processBodyStmts thenBody (branches.map (BodyBranch.addPremise constraint))
      let elseBranches ← processElse elseBody
        (branches.map (BodyBranch.addPremise (negateConstraint constraint)))
      some (thenBranches ++ elseBranches)
  | .letBinding _ _, branches => some branches
  | .return_ _, branches => some branches

def processBodyStmts : List Stmt → List BodyBranch → Option (List BodyBranch)
  | [], branches => some branches
  | stmt :: rest, branches => do
      let branches ← processStmt stmt branches
      processBodyStmts rest branches

def processElse : Option (List Stmt) → List BodyBranch → Option (List BodyBranch)
  | none, branches => some branches
  | some body, branches => processBodyStmts body branches

end

def assignFields (assign : Assign) : List (String × String) :=
  collectFields assign.value ++
    match assign.target with
    | .field base field => [(base, field)]
    | _ => []

mutual

def stmtFields : Stmt → List (String × String)
  | .mutateState assigns => assigns.flatMap assignFields
  | .assign assign => assignFields assign
  | .ifStmt _ thenBody elseBody => bodyFields thenBody ++ elseFields elseBody
  | .letBinding _ _ => []
  | .return_ _ => []

def bodyFields : List Stmt → List (String × String)
  | [] => []
  | stmt :: rest => stmtFields stmt ++ bodyFields rest

def elseFields : Option (List Stmt) → List (String × String)
  | none => []
  | some body => bodyFields body

end

/-! ## Callees -/

structure CallFacts where
  premises : List Constraint
  visited : List String

def substituteParams : List Param → List Expr → Expr → Expr
  | param :: params, arg :: args, expr =>
      substituteParams params args (substituteVar param.name arg expr)
  | _, _, expr => expr

def calleeEnsures (callee : Func) (args : List Expr) : List Expr → Option (List Constraint)
  | [] => some []
  | clause :: rest => do
      let constraints ← toConstraints preField (substituteParams callee.params args clause)
      let later ← calleeEnsures callee args rest
      some (constraints ++ later)

section Calls

variable (funcSpecs : String → Option Func)

mutual

def collectCallEnsures : Expr → CallFacts → Option CallFacts
  | .call func args, facts =>
      match funcSpecs func with
      | none => some facts
      | some callee => do
          let facts ←
            if func ∈ facts.visited then some facts
            else do
              let constraints ← calleeEnsures callee args callee.ensures
              some ⟨facts.premises ++ constraints, facts.visited ++ [callee.name]⟩
          collectCallArgs args facts
  | .methodCall receiver _ args, facts => do
      let facts ← collectCallEnsures receiver facts
      collectCallArgs args facts
  | .bin _ lhs rhs, facts => do
      let facts ← collectCallEnsures lhs facts
      collectCallEnsures rhs facts
  | .neg expr, facts => collectCallEnsures expr facts
  | .old expr, facts => collectCallEnsures expr facts
  | .ifElse condition thenExpr elseExpr, facts => do
      let facts ← collectCallEnsures condition facts
      let facts ← collectCallEnsures thenExpr facts
      collectCallEnsures elseExpr facts
  | .forall_ _ _ body, facts => collectCallEnsures body facts
  | _, facts => some facts

def collectCallArgs : List Expr → CallFacts → Option CallFacts
  | [], facts => some facts
  | arg :: rest, facts => do
      let facts ← collectCallEnsures arg facts
      collectCallArgs rest facts

end

end Calls

/-! ## Bounds -/

abbrev VarBounds : Type := OrdMap String (Option Int × Option Int)

/-- The bounds that `coeff * var + constant rel 0` gives, if any. -/
def boundDeltas (coeff : Int) (rel : Relation) (constant : Int) :
    Option (Option (Option Int × Option Int)) :=
  if coeff = 1 then
    match rel with
    | .ge => do
        let low ← i64 (-constant)
        some (some (some low, none))
    | .gt => do
        let low ← i64 (-constant) >>= fun value => i64 (value + 1)
        some (some (some low, none))
    | .le => do
        let high ← i64 (-constant)
        some (some (none, some high))
    | .lt => do
        let high ← i64 (-constant) >>= fun value => i64 (value - 1)
        some (some (none, some high))
    | .eq => do
        let value ← i64 (-constant)
        some (some (some value, some value))
    | .ne => some none
  else if coeff = -1 then
    match rel with
    | .ge => some (some (none, some constant))
    | .gt => do
        let high ← i64 (constant - 1)
        some (some (none, some high))
    | .le => some (some (some constant, none))
    | .lt => do
        let low ← i64 (constant + 1)
        some (some (some low, none))
    | .eq => some none
    | .ne => some none
  else some none

def tighten (pick : Int → Int → Int) : Option Int → Option Int → Option Int
  | held, none => held
  | none, some value => some value
  | some held, some value => some (pick held value)

def addBounds (bounds : VarBounds) (name : String) (delta : Option Int × Option Int) : VarBounds :=
  let held := (bounds.get? name).getD (none, none)
  bounds.insert name (tighten max held.1 delta.1, tighten min held.2 delta.2)

def collectVarBoundsFrom : List Constraint → VarBounds → Option VarBounds
  | [], bounds => some bounds
  | constraint :: rest, bounds =>
      match constraint.lin.terms with
      | [(name, coeff)] => do
          let deltas ← boundDeltas coeff constraint.rel constraint.lin.constant
          match deltas with
          | some delta => collectVarBoundsFrom rest (addBounds bounds name delta)
          | none => collectVarBoundsFrom rest bounds
      | _ => collectVarBoundsFrom rest bounds

def collectVarBounds (premises : List Constraint) : Option VarBounds :=
  collectVarBoundsFrom premises OrdMap.empty

def stripPrime (name : String) : Option String :=
  match name.toList.reverse with
  | '\'' :: rest => some (String.ofList rest.reverse)
  | _ => none

/-- The bounds of a field of the state behind are else those of the state before. -/
def lookupBounds (bounds : VarBounds) (name : String) : Option (Option Int × Option Int) :=
  match bounds.get? name with
  | some found => some found
  | none => (stripPrime name).bind fun pre => bounds.get? pre

/-! ## Bounded products -/

def exprVarName (fieldFn : FieldNaming) : Expr → Option String
  | .var name => some name
  | .field base field => some (fieldFn base field)
  | _ => none

def saturate (value : Int) : Int := max (-2 ^ 63) (min (2 ^ 63 - 1) value)

def corners (left right : Int × Int) : List Int :=
  [saturate (left.1 * right.1), saturate (left.1 * right.2), saturate (left.2 * right.1),
    saturate (left.2 * right.2)]

def minCorner (left right : Int × Int) : Int := (corners left right).foldr min (2 ^ 63 - 1)

def maxCorner (left right : Int × Int) : Int := (corners left right).foldr max (-2 ^ 63)

def closedBounds (bounds : VarBounds) (name : String) : Option (Int × Int) :=
  match lookupBounds bounds name with
  | some (some low, some high) => some (low, high)
  | _ => none

def boundProduct (fieldFn : FieldNaming) (bounds : VarBounds) (preferMinCorner : Bool)
    (lhs rhs : Expr) : Option Linear := do
  let left ← exprVarName fieldFn lhs >>= closedBounds bounds
  let right ← exprVarName fieldFn rhs >>= closedBounds bounds
  some (.constantOnly (if preferMinCorner then minCorner left right else maxCorner left right))

def isProduct (op : BinOp) (lhs rhs : Expr) : Bool :=
  decide (op = .mul) && (asInt lhs).isNone && (asInt rhs).isNone

/-- The flag says whether a product was replaced. -/
def linearizeBounded (fieldFn : FieldNaming) (bounds : VarBounds) (preferMinCorner : Bool) :
    Expr → Option (Linear × Bool)
  | .int value => some (.constantOnly value, false)
  | .var name => some (.ofVar name, false)
  | .field base field => some (.ofVar (fieldFn base field), false)
  | .old expr => linearizeBounded preField bounds preferMinCorner expr
  | .neg expr => do
      let (inner, approximated) ← linearizeBounded fieldFn bounds preferMinCorner expr
      let negated ← inner.neg
      some (negated, approximated)
  | .bin op lhs rhs => do
      let (left, leftApproximated) ← linearizeBounded fieldFn bounds preferMinCorner lhs
      let (right, rightApproximated) ← linearizeBounded fieldFn bounds preferMinCorner rhs
      if isProduct op lhs rhs then do
        let bound ← boundProduct fieldFn bounds preferMinCorner lhs rhs
        some (bound, true)
      else do
        let result ← lowerBin op lhs rhs left right
        some (result, leftApproximated || rightApproximated)
  | .index receiver index =>
      (elementName receiver index).map fun name => (.ofVar (name.text fieldFn), false)
  | _ => none

def boundedDifference (fieldFn : FieldNaming) (bounds : VarBounds) (preferMinCorner : Bool)
    (lhs rhs : Expr) : Option (Linear × Bool) := do
  let (left, leftApproximated) ← linearizeBounded fieldFn bounds preferMinCorner lhs
  let (right, rightApproximated) ← linearizeBounded fieldFn bounds preferMinCorner rhs
  let difference ← left.sub right
  some (difference, leftApproximated || rightApproximated)

def toConstraintsBounded (fieldFn : FieldNaming) (bounds : VarBounds) :
    Expr → Option (List Constraint × Bool)
  | .bin op lhs rhs =>
      if op = .and then do
        let (left, leftApproximated) ← toConstraintsBounded fieldFn bounds lhs
        let (right, rightApproximated) ← toConstraintsBounded fieldFn bounds rhs
        some (left ++ right, leftApproximated || rightApproximated)
      else do
        let rel ← relationOf op
        let (difference, approximated) ← boundedDifference fieldFn bounds false lhs rhs
        some ([⟨difference, rel⟩], approximated)
  | _ => none

/-- The constraints that replace a comparison: with products at both corners. -/
def boundedComparison (fieldFn : FieldNaming) (bounds : VarBounds) (rel : Relation)
    (lhs rhs : Expr) : Option (List Constraint × Bool) := do
  let (atMax, approximated) ← boundedDifference fieldFn bounds false lhs rhs
  if approximated then do
    let (atMin, _) ← boundedDifference fieldFn bounds true lhs rhs
    some ([⟨atMax, rel⟩, ⟨atMin, rel⟩], true)
  else some ([⟨atMax, rel⟩], false)

def toConstraintsBoundedDnf (fieldFn : FieldNaming) (bounds : VarBounds) :
    Expr → Option (Dnf × Bool)
  | .bin op lhs rhs =>
      if op = .or then do
        let (left, leftApproximated) ← toConstraintsBoundedDnf fieldFn bounds lhs
        let (right, rightApproximated) ← toConstraintsBoundedDnf fieldFn bounds rhs
        some (left ++ right, leftApproximated || rightApproximated)
      else if op = .and then do
        let (left, leftApproximated) ← toConstraintsBoundedDnf fieldFn bounds lhs
        let (right, rightApproximated) ← toConstraintsBoundedDnf fieldFn bounds rhs
        some (combineDnf left right, leftApproximated || rightApproximated)
      else do
        let rel ← relationOf op
        let (branch, approximated) ← boundedComparison fieldFn bounds rel lhs rhs
        some ([branch], approximated)
  | _ => none

/-! ## Problems -/

structure Conclusion where
  constraint : Constraint
  isEnsures : Bool
  isApproximation : Bool
  orGroup : Option Nat
deriving DecidableEq

structure VerificationProblem where
  funcName : String
  premises : List Constraint
  conclusions : List Conclusion
deriving DecidableEq

/-- One branch: its constraints, each for itself.  Several: all their constraints in one
group. -/
def ensuresConclusions (dnf : Dnf) (approximated : Bool) (group : Nat) : List Conclusion :=
  match dnf with
  | [branch] => branch.map fun constraint => ⟨constraint, true, approximated, none⟩
  | _ => dnf.flatten.map fun constraint => ⟨constraint, true, approximated, some group⟩

def nextGroup (dnf : Dnf) (group : Nat) : Nat :=
  match dnf with
  | [_] => group
  | _ => group + 1

def allEnsures (bounds : VarBounds) : List Expr → Nat → Option (List Conclusion)
  | [], _ => some []
  | clause :: rest, group => do
      let (dnf, approximated) ← toConstraintsBoundedDnf postField bounds clause
      let later ← allEnsures bounds rest (nextGroup dnf group)
      some (ensuresConclusions dnf approximated group ++ later)

def invariantConclusions (bounds : VarBounds) (base : String) :
    List Expr → Option (List Conclusion)
  | [] => some []
  | clause :: rest => do
      let (constraints, approximated) ←
        toConstraintsBounded postField bounds (instantiate base clause)
      let later ← invariantConclusions bounds base rest
      some ((constraints.map fun constraint => ⟨constraint, false, approximated, none⟩) ++ later)

/-- What the modules declare. -/
structure Declarations where
  invariant : String → Option Invariant
  invariantFields : String → List String
  funcSpec : String → Option Func

section Problems

variable (declarations : Declarations)

def exitInvariants (bounds : VarBounds) : List Param → Option (List Conclusion)
  | [] => some []
  | param :: rest => do
      let here ← match declarations.invariant param.typeName with
        | some invariant => invariantConclusions bounds param.name invariant.constraints
        | none => some []
      let later ← exitInvariants bounds rest
      some (here ++ later)

def requiresDnf : List Expr → Dnf → Option Dnf
  | [], premises => some premises
  | clause :: rest, premises => do
      let branches ← toConstraintsDnf preField clause
      requiresDnf rest (combineDnf premises branches)

def collectCalls : List Expr → CallFacts → Option CallFacts
  | [], facts => some facts
  | clause :: rest, facts => do
      let facts ← collectCallEnsures declarations.funcSpec clause facts
      collectCalls rest facts

def isPositive (param : Param) : Bool := "Positive".toList.isPrefixOf param.typeName.toList

def typeConstraints : List Param → Option (List Constraint)
  | [] => some []
  | param :: rest => do
      let later ← typeConstraints rest
      if isPositive param then do
        let low ← (Linear.ofVar param.name).sub (.constantOnly 1)
        some (⟨low, .ge⟩ :: later)
      else some later

def entryInvariant (base : String) : List Expr → Option (List Constraint)
  | [] => some []
  | clause :: rest => do
      let constraints ← toConstraints preField (instantiate base clause)
      let later ← entryInvariant base rest
      some (constraints ++ later)

def entryInvariants : List Param → Option (List Constraint)
  | [] => some []
  | param :: rest => do
      let here ← match declarations.invariant param.typeName with
        | some invariant => entryInvariant param.name invariant.constraints
        | none => some []
      let later ← entryInvariants rest
      some (here ++ later)

def referencedFields (func : Func) : List (String × String) :=
  func.requires.flatMap collectFields ++ func.ensures.flatMap collectFields ++
    bodyFields func.body ++
      func.params.flatMap fun param =>
        (declarations.invariantFields param.typeName).map fun field => (param.name, field)

/-- A field that is not assigned on a branch keeps its value. -/
def frames (assigned : List (String × String)) : List (String × String) → Option (List Constraint)
  | [] => some []
  | (base, field) :: rest => do
      let later ← frames assigned rest
      if (base, field) ∈ assigned then some later
      else do
        let difference ←
          (Linear.ofVar (postField base field)).sub (.ofVar (preField base field))
        some (⟨difference, .eq⟩ :: later)

def branchPremises (referenced : List (String × String)) (premises : List Constraint)
    (branch : BodyBranch) : Option (List Constraint) := do
  let framed ← frames branch.assigned referenced
  some (premises ++ branch.extraPremises ++ branch.mutations ++ framed)

def premiseBranches (func : Func) : Option Dnf := do
  let required ← requiresDnf func.requires [[]]
  let calls ← collectCalls declarations (func.requires ++ func.ensures) ⟨[], []⟩
  let types ← typeConstraints func.params
  let invariants ← entryInvariants declarations func.params
  let bodies ← processBodyStmts func.body [emptyBranch]
  let referenced := (referencedFields declarations func).dedup
  (required.flatMap fun branch => bodies.map fun body => (branch, body)).mapM fun pair =>
    branchPremises referenced (pair.1 ++ calls.premises ++ types ++ invariants) pair.2

def conclusionsOf (func : Func) (premises : List Constraint) : Option (List Conclusion) := do
  let bounds ← collectVarBounds premises
  let ensured ← allEnsures bounds func.ensures 0
  let kept ← exitInvariants declarations bounds func.params
  some (ensured ++ kept)

def branchName (func : Func) (count index : Nat) : String :=
  if count = 1 then func.name else func.name ++ "[branch " ++ toString index ++ "]"

def problemsFrom (func : Func) (count : Nat) :
    Nat → Dnf → Option (List VerificationProblem)
  | _, [] => some []
  | index, premises :: rest => do
      let conclusions ← conclusionsOf declarations func premises
      let later ← problemsFrom func count (index + 1) rest
      some (⟨branchName func count index, premises, conclusions⟩ :: later)

def buildProblems (func : Func) : Option (List VerificationProblem) := do
  let branches ← premiseBranches declarations func
  problemsFrom declarations func branches.length 0 branches

end Problems

def Item.asFunc : Item → Option Func
  | .func held => some held
  | _ => none

def Item.asInvariant : Item → Option Invariant
  | .invariant held => some held
  | _ => none

/-- The last declaration of a name is the one that is looked up. -/
def declarationsOf (modules : List Module) : Declarations where
  invariant name :=
    ((modules.flatMap Module.items).filterMap Item.asInvariant).reverse.find?
      fun invariant => decide (invariant.name = name)
  invariantFields name :=
    (((modules.flatMap Module.items).filterMap Item.asInvariant).filter
      fun invariant => decide (invariant.name = name)).flatMap
        fun invariant => (invariant.constraints.flatMap collectVars).dedup
  funcSpec name :=
    ((modules.flatMap Module.items).filterMap Item.asFunc).reverse.find?
      fun func => decide (func.name = name)

def extractAll (declarations : Declarations) : List Func → Option (List VerificationProblem)
  | [] => some []
  | func :: rest => do
      let problems ← buildProblems declarations func
      let later ← extractAll declarations rest
      some (problems ++ later)

def extract (modules : List Module) : Option (List VerificationProblem) :=
  extractAll (declarationsOf modules) ((modules.flatMap Module.items).filterMap Item.asFunc)

end Pantheon.Telos
