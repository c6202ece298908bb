import Mathlib
import Pantheon.Lib.OrdMap
import Pantheon.Lib.LinearForms

/-!
# The linear solver: `tpt-telos-verifier/src/solver.rs`

Equalities with a unit coefficient are substituted away, then the variables are
eliminated pairwise.  Coefficients of constraints are `i64`, those of the
elimination `i128`: a result that does not fit ends the run without an answer.
The order of the variables is that of a hash map's keys, so any listing of them.
-/

set_option autoImplicit false

namespace Pantheon.Telos

open Pantheon.Lib

inductive Relation where
  | le
  | lt
  | ge
  | gt
  | eq
  | ne
deriving DecidableEq

structure Linear where
  terms : List (String × Int)
  constant : Int
deriving DecidableEq

/-- `lin` stands in the relation to zero. -/
structure Constraint where
  lin : Linear
  rel : Relation
deriving DecidableEq

/-- Which results the integers of the solver can hold. -/
structure Widths where
  fits64 : Int → Bool
  fits128 : Int → Bool

def machine : Widths where
  fits64 value := decide (-2 ^ 63 ≤ value ∧ value < 2 ^ 63)
  fits128 value := decide (-2 ^ 127 ≤ value ∧ value < 2 ^ 127)

/-- What does not fit panics in a build with overflow checks and wraps around in one without. -/
inductive Profile where
  | debug
  | release
deriving DecidableEq

def unbounded : Widths := ⟨fun _ => true, fun _ => true⟩

variable (widths : Widths)

def check64 (value : Int) : Option Int := if widths.fits64 value then some value else none

def check128 (value : Int) : Option Int := if widths.fits128 value then some value else none

/-! ## Equality substitution -/

/-- The first term with a unit coefficient, of an equality. -/
def definedBy (constraint : Constraint) : Option (String × Int) :=
  if constraint.rel = .eq then
    constraint.lin.terms.find? fun term => decide (term.2 = 1 ∨ term.2 = -1)
  else none

/-- The first equality that defines a variable, and the other constraints. -/
def takeDefinition : List Constraint → Option (Linear × (String × Int) × List Constraint)
  | [] => none
  | constraint :: rest =>
      match definedBy constraint with
      | some term => some (constraint.lin, term, rest)
      | none =>
          (takeDefinition rest).map fun found => (found.1, found.2.1, constraint :: found.2.2)

def addTerm (key : String) (added : Int) :
    List (String × Int) → Option (List (String × Int))
  | [] => some [(key, added)]
  | term :: rest =>
      if term.1 = key then do
        let sum ← check64 widths (term.2 + added)
        some (if sum = 0 then rest else (term.1, sum) :: rest)
      else (addTerm key added rest).map fun terms => term :: terms

/-- `factor * (-coeff / unit)`. -/
def scaled (factor coeff unit : Int) : Option Int := do
  let negated ← check64 widths (-coeff)
  let quotient ← check64 widths (negated.tdiv unit)
  check64 widths (factor * quotient)

/-- The terms of the definition other than the variable's, added with a factor. -/
def addTerms (variable_ : String × Int) (factor : Int) :
    List (String × Int) → List (String × Int) → Option (List (String × Int))
  | [], terms => some terms
  | term :: rest, terms =>
      if term.1 = variable_.1 then addTerms variable_ factor rest terms
      else do
        let added ← scaled widths factor term.2 variable_.2
        let terms ← addTerm widths term.1 added terms
        addTerms variable_ factor rest terms

def substituteInto (definition : Linear) (variable_ : String × Int) (constraint : Constraint) :
    Option Constraint :=
  match constraint.lin.terms.find? fun term => decide (term.1 = variable_.1) with
  | none => some constraint
  | some found => do
      let rest := constraint.lin.terms.eraseP fun term => decide (term.1 = variable_.1)
      let terms ← addTerms widths variable_ found.2 definition.terms rest
      let added ← scaled widths found.2 definition.constant variable_.2
      let constant ← check64 widths (constraint.lin.constant + added)
      some ⟨⟨terms, constant⟩, constraint.rel⟩

/-- Each round removes a constraint, so as many rounds as constraints reach the end. -/
def substituteRounds : Nat → List Constraint → Option (List Constraint)
  | 0, constraints => some constraints
  | rounds + 1, constraints =>
      match takeDefinition constraints with
      | none => some constraints
      | some (definition, variable_, rest) => do
          let rest ← rest.mapM (substituteInto widths definition variable_)
          substituteRounds rounds rest

def equalitySubstitute (constraints : List Constraint) : Option (List Constraint) :=
  substituteRounds widths constraints.length constraints

/-! ## Inequalities -/

/-- `sum coeffs ≤ c` -/
structure LinIneq where
  coeffs : OrdMap String Int
  c : Int

def collect (terms : List (String × Int)) : OrdMap String Int :=
  terms.foldl (fun coeffs term => coeffs.insert term.1 term.2) OrdMap.empty

def negTerms (terms : List (String × Int)) : OrdMap String Int :=
  collect (terms.map fun term => (term.1, -term.2))

/-- A strict inequality between integers is tightened by one; `≠` is ignored. -/
def Constraint.inequalities (constraint : Constraint) : List LinIneq :=
  let base := collect constraint.lin.terms
  let negated := negTerms constraint.lin.terms
  let constant := constraint.lin.constant
  match constraint.rel with
  | .le => [⟨base, -constant⟩]
  | .lt => [⟨base, -constant - 1⟩]
  | .ge => [⟨negated, constant⟩]
  | .gt => [⟨negated, constant - 1⟩]
  | .eq => [⟨base, -constant⟩, ⟨negated, constant⟩]
  | .ne => []

def toInequalities (constraints : List Constraint) : List LinIneq :=
  constraints.flatMap Constraint.inequalities

/-! ## Elimination -/

/-- A bound of the variable: `factor * x` and the other terms are at most, or at least,
`bound`. -/
structure Bound where
  factor : Int
  bound : Int
  coeffs : OrdMap String Int

def uppers (name : String) (ineqs : List LinIneq) : List Bound :=
  ineqs.filterMap fun ineq =>
    match ineq.coeffs.get? name with
    | some coeff => if 0 < coeff then some ⟨coeff, ineq.c, ineq.coeffs.erase name⟩ else none
    | none => none

def negated (coeffs : OrdMap String Int) : Option (OrdMap String Int) :=
  if coeffs.toList.all fun entry => widths.fits128 (-entry.2) then
    some (coeffs.mapValues fun _ coeff => -coeff)
  else none

def lowerOf (name : String) (ineq : LinIneq) (coeff : Int) : Option Bound := do
  let factor ← check128 widths (-coeff)
  let bound ← check128 widths (-ineq.c)
  let coeffs ← negated widths (ineq.coeffs.erase name)
  some ⟨factor, bound, coeffs⟩

def lowers (name : String) : List LinIneq → Option (List Bound)
  | [] => some []
  | ineq :: rest =>
      match ineq.coeffs.get? name with
      | some coeff =>
          if coeff < 0 then do
            let bound ← lowerOf widths name ineq coeff
            let bounds ← lowers name rest
            some (bound :: bounds)
          else lowers name rest
      | none => lowers name rest

/-- What does not mention the variable, or only with the coefficient zero. -/
def others (name : String) (ineqs : List LinIneq) : List LinIneq :=
  ineqs.filter fun ineq => decide ((ineq.coeffs.get? name).getD 0 = 0)

def mergeKeys (left right : OrdMap String Int) : List String :=
  left.toList.map Prod.fst ++
    (right.toList.map Prod.fst).filter fun key => (left.get? key).isNone

/-- `lower * left - upper * right` -/
def crossed (lower left upper right : Int) : Option Int := do
  let one ← check128 widths (lower * left)
  let other ← check128 widths (upper * right)
  check128 widths (one - other)

def combineCoeffs (upper lower : Bound) :
    List String → OrdMap String Int → Option (OrdMap String Int)
  | [], coeffs => some coeffs
  | key :: rest, coeffs => do
      let coeff ← crossed widths lower.factor (coefficient upper.coeffs key) upper.factor
        (coefficient lower.coeffs key)
      combineCoeffs upper lower rest (if coeff ≠ 0 then coeffs.insert key coeff else coeffs)

def combine (upper lower : Bound) : Option LinIneq := do
  let coeffs ← combineCoeffs widths upper lower (mergeKeys upper.coeffs lower.coeffs) OrdMap.empty
  let c ← crossed widths lower.factor upper.bound upper.factor lower.bound
  some ⟨coeffs, c⟩

def eliminate (name : String) (ineqs : List LinIneq) : Option (List LinIneq) := do
  let below ← lowers widths name ineqs
  let pairs := (uppers name ineqs).flatMap fun upper => below.map fun lower => (upper, lower)
  let combined ← pairs.mapM fun pair => combine widths pair.1 pair.2
  some (others name ineqs ++ combined)

def eliminateAll : List String → List LinIneq → Option (List LinIneq)
  | [], ineqs => some ineqs
  | name :: rest, ineqs => do
      let ineqs ← eliminate widths name ineqs
      eliminateAll rest ineqs

/-- How the variables of a system may be listed. -/
structure VariableOrder where
  list : List LinIneq → List String
  nodup : ∀ ineqs, (list ineqs).Nodup
  mem_list : ∀ ineqs name, name ∈ list ineqs ↔ ∃ ineq ∈ ineqs, (ineq.coeffs.get? name).isSome

/-- Without an answer where a result did not fit. -/
def unsatChecked (order : VariableOrder) (constraints : List Constraint) : Option Bool := do
  let reduced ← equalitySubstitute widths constraints
  let ineqs := toInequalities reduced
  let final ← eliminateAll widths (order.list ineqs) ineqs
  some (final.any fun ineq => ineq.coeffs.toList.isEmpty && decide (ineq.c < 0))

end Pantheon.Telos
