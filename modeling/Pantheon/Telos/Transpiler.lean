import Mathlib
import Pantheon.Telos.Verification

/-!
# The agentic transpiler: `tpt-telos-agent/src/lib.rs` and `tpt-telos-codegen/src/lib.rs`

The agent is a parameter, and so are the counterexample it is shown and the synthesis from
the ensures clauses.  Of what is emitted only the bodies are kept, and of an outcome not the
target.  An error or a panic ends a run without an outcome.
-/

set_option autoImplicit false

namespace Pantheon.Telos

open Pantheon.Lib

/-! ## Equality of statements -/

mutual

def Pattern.same : Pattern → Pattern → Bool
  | .literal value, .literal other => decide (value = other)
  | .var name, .var other => decide (name = other)
  | .constructor name fields, .constructor other others =>
      decide (name = other) && samePatterns fields others
  | .wildcard, .wildcard => true
  | _, _ => false

def samePatterns : List Pattern → List Pattern → Bool
  | [], [] => true
  | pattern :: rest, other :: others => pattern.same other && samePatterns rest others
  | _, _ => false

end

mutual

def Expr.same : Expr → Expr → Bool
  | .int value, other =>
      match other with
      | .int held => decide (value = held)
      | _ => false
  | .var name, other =>
      match other with
      | .var held => decide (name = held)
      | _ => false
  | .field base name, other =>
      match other with
      | .field held heldName => decide (base = held ∧ name = heldName)
      | _ => false
  | .old expr, other =>
      match other with
      | .old held => expr.same held
      | _ => false
  | .neg expr, other =>
      match other with
      | .neg held => expr.same held
      | _ => false
  | .bin op lhs rhs, other =>
      match other with
      | .bin held left right => decide (op = held) && (lhs.same left && rhs.same right)
      | _ => false
  | .call func args, other =>
      match other with
      | .call held others => decide (func = held) && sameArgs args others
      | _ => false
  | .methodCall receiver method args, other =>
      match other with
      | .methodCall held heldMethod others =>
          receiver.same held && (decide (method = heldMethod) && sameArgs args others)
      | _ => false
  | .index receiver index, other =>
      match other with
      | .index held heldIndex => receiver.same held && index.same heldIndex
      | _ => false
  | .ifElse condition thenExpr elseExpr, other =>
      match other with
      | .ifElse held heldThen heldElse =>
          condition.same held && (thenExpr.same heldThen && elseExpr.same heldElse)
      | _ => false
  | .matchOn scrutinee arms, other =>
      match other with
      | .matchOn held others => scrutinee.same held && sameArms arms others
      | _ => false
  | .try_ expr, other =>
      match other with
      | .try_ held => expr.same held
      | _ => false
  | .forall_ name domain body, other =>
      match other with
      | .forall_ held heldDomain heldBody =>
          decide (name = held) && (sameDomain domain heldDomain && body.same heldBody)
      | _ => false
  | .aggregate op args, other =>
      match other with
      | .aggregate held others => decide (op = held) && sameArgs args others
      | _ => false
  | .range lo hi, other =>
      match other with
      | .range heldLo heldHi => lo.same heldLo && hi.same heldHi
      | _ => false

def sameArgs : List Expr → List Expr → Bool
  | [], [] => true
  | arg :: rest, other :: others => arg.same other && sameArgs rest others
  | _, _ => false

def sameDomain : Option Expr → Option Expr → Bool
  | none, none => true
  | some domain, some other => domain.same other
  | _, _ => false

def sameArms : List (Pattern × Expr) → List (Pattern × Expr) → Bool
  | [], [] => true
  | arm :: rest, other :: others => sameArm arm other && sameArms rest others
  | _, _ => false

def sameArm : Pattern × Expr → Pattern × Expr → Bool
  | (pattern, body), (other, otherBody) => pattern.same other && body.same otherBody

end

def Assign.same (assign other : Assign) : Bool :=
  assign.target.same other.target && (decide (assign.op = other.op) &&
    assign.value.same other.value)

def sameAssigns : List Assign → List Assign → Bool
  | [], [] => true
  | assign :: rest, other :: others => assign.same other && sameAssigns rest others
  | _, _ => false

mutual

def Stmt.same : Stmt → Stmt → Bool
  | .mutateState assigns, .mutateState others => sameAssigns assigns others
  | .assign assign, .assign other => assign.same other
  | .letBinding name value, .letBinding other otherValue =>
      decide (name = other) && value.same otherValue
  | .ifStmt condition thenBody elseBody, .ifStmt other otherThen otherElse =>
      condition.same other && (sameStmts thenBody otherThen && sameElse elseBody otherElse)
  | .return_ value, .return_ other => sameDomain value other
  | _, _ => false

def sameStmts : List Stmt → List Stmt → Bool
  | [], [] => true
  | stmt :: rest, other :: others => stmt.same other && sameStmts rest others
  | _, _ => false

def sameElse : Option (List Stmt) → Option (List Stmt) → Bool
  | none, none => true
  | some body, some other => sameStmts body other
  | _, _ => false

end

/-! ## Agents -/

abbrev Model : Type := List (String × Int)

structure FuncSpec where
  moduleAttrs : List Attribute
  func : Func

structure CodeAgent where
  name : String
  generate : FuncSpec → Option (List Stmt)
  rewrite : FuncSpec → List Stmt → Model → Option (List Stmt)

structure LoopStep where
  iteration : Nat
  action : String
  candidate : List Stmt
  passed : Bool
  counterexample : Option Model

structure FuncOutcome where
  funcName : String
  agent : String
  iterations : List LoopStep
  finalCandidate : List Stmt
  problem : VerificationProblem
  result : VerificationResult
  verified : Bool

/-- What the loop calls besides the agent. -/
structure Tools where
  solver : Solver
  findCounterexample : VerificationProblem → VerificationResult → Option Model
  synthesizeFromEnsures : FuncSpec → List Stmt

/-! ## The problem of a candidate -/

def Item.funcName : Item → String
  | .func held => held.name
  | .invariant held => held.name
  | .other name => name

def Func.withBody (func : Func) (stmts : List Stmt) : Func :=
  { func with body := stmts, elided := false }

def Item.withBody (stmts : List Stmt) : Item → Item
  | .func held => .func (held.withBody stmts)
  | item => item

def Module.withBody (module_ : Module) (funcIdx : Nat) (stmts : List Stmt) : Module :=
  { module_ with items := module_.items.modify funcIdx (Item.withBody stmts) }

/-- The first problem that has the name of the function. -/
def problemFor (module_ : Module) (funcIdx : Nat) (stmts : List Stmt) :
    Option VerificationProblem := do
  let problems ← extract [module_.withBody funcIdx stmts]
  let item ← module_.items[funcIdx]?
  problems.find? fun problem => decide (problem.funcName = item.funcName)

/-! ## The loop -/

def maxIters : Nat := 8

section Transpile

variable (tools : Tools) (agent : CodeAgent)

/-- A candidate with its problem and what the verification says. -/
structure Tried where
  problem : VerificationProblem
  result : VerificationResult

def tryCandidate (module_ : Module) (funcIdx : Nat) (stmts : List Stmt) : Option Tried := do
  let problem ← problemFor module_ funcIdx stmts
  let result ← (verify tools.solver problem).toOption
  some ⟨problem, result⟩

def Tried.outcome (tried : Tried) (funcName : String) (iterations : List LoopStep)
    (stmts : List Stmt) (verified : Bool) : FuncOutcome :=
  ⟨funcName, agent.name, iterations, stmts, tried.problem, tried.result, verified⟩

def loopStep (iteration : Nat) (candidate : List Stmt) (tried : Tried) : LoopStep where
  iteration := iteration
  action := if iteration = 0 then "generate" else "rewrite"
  candidate := candidate
  passed := tried.result.allPassed
  counterexample :=
    if tried.result.allPassed then none else tools.findCounterexample tried.problem tried.result

/-- `left` turns of the loop remain. -/
def transpileLoop (module_ : Module) (funcIdx : Nat) (spec : FuncSpec) :
    Nat → List LoopStep → List Stmt → Option FuncOutcome
  | 0, iterations, candidate => do
      let tried ← tryCandidate tools module_ funcIdx candidate
      some (tried.outcome agent spec.func.name iterations candidate false)
  | left + 1, iterations, candidate => do
      let tried ← tryCandidate tools module_ funcIdx candidate
      let steps := iterations ++ [loopStep tools iterations.length candidate tried]
      if tried.result.allPassed then
        some (tried.outcome agent spec.func.name steps candidate true)
      else do
        let violation := (tools.findCounterexample tried.problem tried.result).getD []
        let repaired ← agent.rewrite spec candidate violation
        if sameStmts repaired candidate then do
          let synthesized := tools.synthesizeFromEnsures spec
          let last ← tryCandidate tools module_ funcIdx synthesized
          let step := LoopStep.mk (iterations.length + 1) "synthesize-from-ensures" synthesized
            last.result.allPassed none
          some (last.outcome agent spec.func.name (steps ++ [step]) synthesized
            last.result.allPassed)
        else transpileLoop module_ funcIdx spec left steps repaired

def transpileFunc (module_ : Module) (funcIdx : Nat) : Option FuncOutcome :=
  match module_.items[funcIdx]? with
  | some (.func func) => do
      let spec := FuncSpec.mk module_.attributes func
      let candidate ←
        if func.elided || func.body.isEmpty then agent.generate spec else some func.body
      transpileLoop tools agent module_ funcIdx spec maxIters [] candidate
  | _ => none

def transpileItems (module_ : Module) : Nat → List Item → Option (List FuncOutcome)
  | _, [] => some []
  | idx, .func _ :: rest => do
      let outcome ← transpileFunc tools agent module_ idx
      let later ← transpileItems module_ (idx + 1) rest
      some (outcome :: later)
  | idx, _ :: rest => transpileItems module_ (idx + 1) rest

def transpileModule (module_ : Module) : Option (List FuncOutcome) :=
  transpileItems tools agent module_ 0 module_.items

def transpileModules : List Module → Option (List FuncOutcome)
  | [] => some []
  | module_ :: rest => do
      let outcomes ← transpileModule tools agent module_
      let later ← transpileModules rest
      some (outcomes ++ later)

end Transpile

/-! ## What is emitted -/

/-- The last outcome of a name is the one that is kept. -/
def collectBodies (outcomes : List FuncOutcome) : OrdMap String (List Stmt) :=
  outcomes.foldl (fun bodies outcome => bodies.insert outcome.funcName outcome.finalCandidate)
    OrdMap.empty

def Module.funcs (module_ : Module) : List Func := module_.items.filterMap Item.asFunc

def generateModule (module_ : Module) (bodies : OrdMap String (List Stmt)) :
    List (Func × List Stmt) :=
  module_.funcs.map fun func => (func, (bodies.get? func.name).getD func.body)

/-- The functions of the program in order, each with the body that is emitted for it. -/
def generateProgram (modules : List Module) (outcomes : List FuncOutcome) :
    List (Func × List Stmt) :=
  modules.flatMap fun module_ => generateModule module_ (collectBodies outcomes)

end Pantheon.Telos
