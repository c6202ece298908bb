import Mathlib
import Pantheon.Telos.Ast
import Pantheon.Telos.Elimination

/-!
# Lowering contracts to linear constraints: `tpt-telos-ir/src/ir.rs` and `extract.rs`

Fields are named by the state they are read in, variables by themselves.  The texts of
the errors are left out: an error and a panic both end the lowering.
-/

set_option autoImplicit false

namespace Pantheon.Telos

abbrev Dnf : Type := List (List Constraint)

abbrev FieldNaming : Type := String → String → String

def preField : FieldNaming := fun base field => base ++ "." ++ field

def postField : FieldNaming := fun base field => base ++ "." ++ field ++ "'"

/-- The build that the code runs in: one with overflow checks, where no other is named. -/
class Build where
  profile : Profile

instance debugBuild : Build := ⟨.debug⟩

variable [Build]

/-- The result of an operation on `i64` that the code does not check. -/
def i64 (value : Int) : Option Int :=
  match Build.profile with
  | .debug => check64 machine value
  | .release => some (value.bmod (2 ^ 64))

/-- A quotient that does not fit panics in every build. -/
def i64Quotient (left right : Int) : Option Int := check64 machine (left.tdiv right)

namespace Linear

def ofVar (name : String) : Linear := ⟨[(name, 1)], 0⟩

def constantOnly (constant : Int) : Linear := ⟨[], constant⟩

def addInto (name : String) (coeff : Int) : List (String × Int) → Option (List (String × Int))
  | [] => some [(name, coeff)]
  | term :: rest =>
      if term.1 = name then (i64 (term.2 + coeff)).map fun sum => (term.1, sum) :: rest
      else (addInto name coeff rest).map fun terms => term :: terms

def addAll : List (String × Int) → List (String × Int) → Option (List (String × Int))
  | [], terms => some terms
  | term :: rest, terms => do
      let terms ← addInto term.1 term.2 terms
      addAll rest terms

def add (left right : Linear) : Option Linear := do
  let terms ← addAll right.terms left.terms
  let constant ← i64 (left.constant + right.constant)
  some ⟨terms.filter fun term => decide (term.2 ≠ 0), constant⟩

def mapTerms (change : Int → Option Int) : List (String × Int) → Option (List (String × Int))
  | [] => some []
  | term :: rest => do
      let coeff ← change term.2
      let rest ← mapTerms change rest
      some ((term.1, coeff) :: rest)

def mapped (change : Int → Option Int) (lin : Linear) : Option Linear := do
  let terms ← mapTerms change lin.terms
  let constant ← change lin.constant
  some ⟨terms, constant⟩

def neg (lin : Linear) : Option Linear := lin.mapped fun value => i64 (-value)

def sub (left right : Linear) : Option Linear := do
  let negated ← right.neg
  left.add negated

def scale (lin : Linear) (factor : Int) : Option Linear :=
  lin.mapped fun value => i64 (value * factor)

def scaleExact (lin : Linear) (divisor : Int) : Option Linear :=
  lin.mapped fun value => if value.tmod divisor = 0 then i64Quotient value divisor else none

end Linear

def Name.text (fieldFn : FieldNaming) : Name → String
  | .var name => name
  | .field base name => fieldFn base name

def asInt : Expr → Option Int
  | .int value => some value
  | _ => none

/-- `l op r` where both sides are lowered. -/
def lowerBin (op : BinOp) (lhs rhs : Expr) (left right : Linear) : Option Linear :=
  match op with
  | .add => left.add right
  | .sub => left.sub right
  | .mul =>
      match asInt rhs, asInt lhs with
      | some factor, _ => left.scale factor
      | none, some factor => right.scale factor
      | none, none => none
  | .div =>
      match asInt rhs with
      | some divisor => if divisor = 0 then none else left.scaleExact divisor
      | none => none
  | _ => none

def linearize (fieldFn : FieldNaming) : Expr → Option Linear
  | .int value => some (.constantOnly value)
  | .var name => some (.ofVar name)
  | .field base field => some (.ofVar (fieldFn base field))
  | .old expr => linearize preField expr
  | .neg expr => (linearize fieldFn expr).bind Linear.neg
  | .bin op lhs rhs => do
      let left ← linearize fieldFn lhs
      let right ← linearize fieldFn rhs
      lowerBin op lhs rhs left right
  | .index receiver index =>
      (elementName receiver index).map fun name => .ofVar (name.text fieldFn)
  | _ => none

def relationOf : BinOp → Option Relation
  | .eq => some .eq
  | .ne => some .ne
  | .lt => some .lt
  | .le => some .le
  | .gt => some .gt
  | .ge => some .ge
  | _ => none

def combineDnf (left right : Dnf) : Dnf :=
  left.flatMap fun first => right.map fun second => first ++ second

def negateRelation : Relation → Relation
  | .eq => .ne
  | .ne => .eq
  | .le => .gt
  | .lt => .ge
  | .ge => .lt
  | .gt => .le

def negateConstraint (constraint : Constraint) : Constraint :=
  ⟨constraint.lin, negateRelation constraint.rel⟩

/-- An empty conjunction is true, its negation the empty disjunction. -/
def negateDnf (dnf : Dnf) : Dnf :=
  dnf.foldl (fun result branch =>
    combineDnf result (branch.map fun constraint => [negateConstraint constraint])) [[]]

/-- The difference of the sides of a comparison stands in its relation to zero. -/
def lowerComparison (fieldFn : FieldNaming) (rel : Relation) (lhs rhs : Expr) :
    Option Constraint := do
  let left ← linearize fieldFn lhs
  let right ← linearize fieldFn rhs
  let difference ← left.sub right
  some ⟨difference, rel⟩

def comparisonDnf (fieldFn : FieldNaming) (op : BinOp) (lhs rhs : Expr) : Option Dnf := do
  let rel ← relationOf op
  let constraint ← lowerComparison fieldFn rel lhs rhs
  some [[constraint]]

/-! ## Quantifiers -/

def evalConstExpr : Expr → Option Int
  | .int value => some value
  | .neg expr => do
      let value ← evalConstExpr expr
      i64 (-value)
  | .bin op lhs rhs => do
      let left ← evalConstExpr lhs
      let right ← evalConstExpr rhs
      match op with
      | .add => i64 (left + right)
      | .sub => i64 (left - right)
      | .mul => i64 (left * right)
      | .div => if right = 0 then none else i64Quotient left right
      | _ => none
  | _ => none

mutual

/-- A variable is replaced below operators, quantifiers, aggregates and ranges only. -/
def substituteVar (name : String) (replacement : Expr) : Expr → Expr
  | .var other => if other = name then replacement else .var other
  | .old expr => .old (substituteVar name replacement expr)
  | .neg expr => .neg (substituteVar name replacement expr)
  | .bin op lhs rhs =>
      .bin op (substituteVar name replacement lhs) (substituteVar name replacement rhs)
  | .forall_ var domain body =>
      .forall_ var (substituteDomain name replacement domain) (substituteVar name replacement body)
  | .aggregate op args => .aggregate op (substituteArgs name replacement args)
  | .range lo hi => .range (substituteVar name replacement lo) (substituteVar name replacement hi)
  | expr => expr

def substituteDomain (name : String) (replacement : Expr) : Option Expr → Option Expr
  | none => none
  | some domain => some (substituteVar name replacement domain)

def substituteArgs (name : String) (replacement : Expr) : List Expr → List Expr
  | [] => []
  | arg :: rest => substituteVar name replacement arg :: substituteArgs name replacement rest

end

def instantiateForall (name : String) (body : Expr) (value : Int) : Expr :=
  substituteVar name (.int value) body

def rangeOf : Option Expr → Option (Int × Int)
  | some (.range lo hi) => do
      let low ← evalConstExpr lo
      let high ← evalConstExpr hi
      some (low, high)
  | _ => none

/-- The arms of a match: with a literal the scrutinee equals it, where it can be lowered. -/
def lowerArms (lower : Expr → Option Dnf) (scrutinee : Option Linear) :
    List (Pattern × Expr) → Option Dnf
  | [] => some []
  | (pattern, body) :: rest => do
      let branches ← lower body
      let branches ← match pattern, scrutinee with
        | .literal value, some lin => do
            let difference ← lin.sub (.constantOnly value)
            some (combineDnf [[⟨difference, .eq⟩]] branches)
        | _, _ => some branches
      let others ← lowerArms lower scrutinee rest
      some (branches ++ others)

def lowerInstances (lower : Expr → Option Dnf) (combined : Dnf) : List Expr → Option Dnf
  | [] => some combined
  | inst :: rest => do
      let branches ← lower inst
      lowerInstances lower (combineDnf combined branches) rest

/-- `fuel` bounds the depth of the expression. -/
def toConstraintsDnfAt (fieldFn : FieldNaming) : Nat → Expr → Option Dnf
  | 0, _ => none
  | fuel + 1, .bin op lhs rhs =>
      match op with
      | .or => do
          let left ← toConstraintsDnfAt fieldFn fuel lhs
          let right ← toConstraintsDnfAt fieldFn fuel rhs
          some (left ++ right)
      | .and => do
          let left ← toConstraintsDnfAt fieldFn fuel lhs
          let right ← toConstraintsDnfAt fieldFn fuel rhs
          some (combineDnf left right)
      | op => comparisonDnf fieldFn op lhs rhs
  | fuel + 1, .ifElse condition thenExpr elseExpr => do
      let holds ← toConstraintsDnfAt fieldFn fuel condition
      let thenBranch ← toConstraintsDnfAt fieldFn fuel thenExpr
      let elseBranch ← toConstraintsDnfAt fieldFn fuel elseExpr
      some (combineDnf holds thenBranch ++ combineDnf (negateDnf holds) elseBranch)
  | fuel + 1, .matchOn scrutinee arms => do
      let out ← lowerArms (toConstraintsDnfAt fieldFn fuel) (linearize fieldFn scrutinee) arms
      some (if out.isEmpty then [[]] else out)
  | fuel + 1, .forall_ name domain body => do
      let (low, high) ← rangeOf domain
      lowerInstances (toConstraintsDnfAt fieldFn fuel) [[]]
        ((List.range (high - low).toNat).map fun offset =>
          instantiateForall name body (low + offset))
  | _, _ => none

mutual

def Expr.depth : Expr → Nat
  | .bin _ lhs rhs => max lhs.depth rhs.depth + 1
  | .ifElse condition thenExpr elseExpr =>
      max condition.depth (max thenExpr.depth elseExpr.depth) + 1
  | .matchOn _ arms => armsDepth arms + 1
  | .forall_ _ _ body => body.depth + 1
  | _ => 1

def armsDepth : List (Pattern × Expr) → Nat
  | [] => 0
  | arm :: rest => max (armDepth arm) (armsDepth rest)

def armDepth : Pattern × Expr → Nat
  | (_, body) => body.depth

end

def toConstraintsDnf (fieldFn : FieldNaming) (expr : Expr) : Option Dnf :=
  toConstraintsDnfAt fieldFn expr.depth expr

/-- A disjunction is not allowed. -/
def toConstraints (fieldFn : FieldNaming) (expr : Expr) : Option (List Constraint) :=
  (toConstraintsDnf fieldFn expr).bind fun dnf =>
    match dnf with
    | [branch] => some branch
    | _ => none

end Pantheon.Telos
