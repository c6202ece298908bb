import Mathlib
import Pantheon.Telos.Verification

/-!
# Models of constraints: `solve_model` in `tpt-telos-verifier/src/solver.rs`

Each call eliminates the first variable it meets, takes a model of what is left and adds a
value between the bounds of the variable.  A result that does not fit `i128` panics or wraps
around, as the build has it.  The keys of a hash map come in any order, which a clone of the
map keeps.
-/

set_option autoImplicit false

namespace Pantheon.Telos

open Pantheon.Lib

structure KeyOrder where
  keys : OrdMap String Int → List String
  perm : ∀ coeffs, (keys coeffs).Perm (coeffs.toList.map Prod.fst)

abbrev IntModel : Type := OrdMap String Int

/-! ## Fractions -/

structure Frac where
  num : Int
  den : Int
deriving DecidableEq

section Search

variable (profile : Profile) (order : KeyOrder)

/-- Both parts change their sign with a negative denominator, which is what is left of
`-i128::MIN`. -/
def withSignOf (den value : Int) : Except Stop Int :=
  if den < 0 then profile.word128 (-value) else .ok value

def reduced (num den : Int) : Frac :=
  let divisor := (Int.gcd num (den % 2 ^ 128) : Int).bmod (2 ^ 128)
  if divisor = 0 then ⟨num, den⟩ else ⟨num.tdiv divisor, den.tdiv divisor⟩

/-- The denominator is not zero. -/
def Frac.new (num den : Int) : Except Stop Frac := do
  let top ← withSignOf profile den num
  let bottom ← withSignOf profile den den
  .ok (reduced top bottom)

def Frac.ceil (frac : Frac) : Except Stop Int :=
  if frac.num % frac.den = 0 then .ok (frac.num / frac.den)
  else profile.word128 (frac.num / frac.den + 1)

def Frac.floor (frac : Frac) : Int := frac.num / frac.den

/-! ## Elimination -/

def pushNew (vars : List String) (key : String) : List String :=
  if key ∈ vars then vars else vars ++ [key]

def vars (ineqs : List LinIneq) : List String :=
  (ineqs.flatMap fun ineq => order.keys ineq.coeffs).foldl pushNew []

def modelLowers (name : String) (ineqs : List LinIneq) : List Bound :=
  ineqs.filterMap fun ineq =>
    match ineq.coeffs.get? name with
    | some coeff => if coeff < 0 then some ⟨coeff, ineq.c, ineq.coeffs.erase name⟩ else none
    | none => none

/-- `upper * left - lower * right` -/
def crossedRun (upper left lower right : Int) : Except Stop Int := do
  let one ← profile.word128 (upper * left)
  let other ← profile.word128 (lower * right)
  profile.word128 (one - other)

def combineKeysRun (upper lower : Bound) :
    List String → OrdMap String Int → Except Stop (OrdMap String Int)
  | [], coeffs => .ok coeffs
  | key :: rest, coeffs => do
      let coeff ← crossedRun profile upper.factor (coefficient lower.coeffs key) lower.factor
        (coefficient upper.coeffs key)
      combineKeysRun upper lower rest (if coeff ≠ 0 then coeffs.insert key coeff else coeffs)

def combineRun (upper lower : Bound) : Except Stop LinIneq := do
  let coeffs ← combineKeysRun profile upper lower (mergeKeys upper.coeffs lower.coeffs)
    OrdMap.empty
  let c ← crossedRun profile upper.factor lower.bound lower.factor upper.bound
  .ok ⟨coeffs, c⟩

def nextIneqs (name : String) (ineqs : List LinIneq) : Except Stop (List LinIneq) := do
  let pairs := (uppers name ineqs).flatMap fun upper =>
    (modelLowers name ineqs).map fun lower => (upper, lower)
  let combined ← pairs.mapM fun pair => combineRun profile pair.1 pair.2
  .ok (others name ineqs ++ combined)

/-! ## The value of a variable -/

def evalKeys (coeffs : OrdMap String Int) (model : IntModel) : List String → Int → Except Stop Int
  | [], sum => .ok sum
  | key :: rest, sum => do
      let product ← profile.word128 (coefficient coeffs key * (model.get? key).getD 0)
      let sum ← profile.word128 (sum + product)
      evalKeys coeffs model rest sum

def eval (coeffs : OrdMap String Int) (model : IntModel) : Except Stop Int :=
  evalKeys profile coeffs model (order.keys coeffs) 0

def lowerFrac (model : IntModel) (lower : Bound) : Except Stop Frac := do
  let value ← eval profile order lower.coeffs model
  let num ← profile.word128 (value - lower.bound)
  let den ← profile.word128 (-lower.factor)
  Frac.new profile num den

def upperFrac (model : IntModel) (upper : Bound) : Except Stop Frac := do
  let value ← eval profile order upper.coeffs model
  let num ← profile.word128 (upper.bound - value)
  Frac.new profile num upper.factor

/-- The last of the tightest fractions; `tighter` compares the crosswise products. -/
def tightest (frac : Bound → Except Stop Frac) (tighter : Int → Int → Bool) :
    List Bound → Option Frac → Except Stop (Option Frac)
  | [], best => .ok best
  | bound :: rest, none => do
      let found ← frac bound
      tightest frac tighter rest (some found)
  | bound :: rest, some best => do
      let found ← frac bound
      let left ← profile.word128 (found.num * best.den)
      let right ← profile.word128 (best.num * found.den)
      tightest frac tighter rest (some (if tighter left right then found else best))

def valueBetween : Option Frac → Option Frac → Except Stop (Option Int)
  | none, none => .ok (some 0)
  | some low, none => do
      let least ← low.ceil profile
      .ok (some least)
  | none, some high => .ok (some high.floor)
  | some low, some high => do
      let least ← low.ceil profile
      .ok (if high.floor < least then none else some least)

/-- A value of the variable, unless there is no integer between its bounds. -/
def boundedValue (name : String) (ineqs : List LinIneq) (model : IntModel) :
    Except Stop (Option Int) := do
  let low ← tightest profile (lowerFrac profile order model) (fun left right => right ≤ left)
    (modelLowers name ineqs) none
  let high ← tightest profile (upperFrac profile order model) (fun left right => left ≤ right)
    (uppers name ineqs) none
  valueBetween profile low high

/-- The model of the next call with a value of the variable, as an `i64`. -/
def recover (name : String) (ineqs : List LinIneq) (model : IntModel) :
    Except Stop (Option IntModel) := do
  let value ← boundedValue profile order name ineqs model
  .ok (value.map fun value => model.insert name (value.bmod (2 ^ 64)))

def extend (name : String) (ineqs : List LinIneq) :
    Option IntModel → Except Stop (Option IntModel)
  | none => .ok none
  | some model => recover profile order name ineqs model

/-- The answer, once the recursion has ended within so many calls. -/
def solveModel : Nat → List LinIneq → Option (Except Stop (Option IntModel))
  | 0, _ => none
  | calls + 1, ineqs =>
      match (vars order ineqs).head? with
      | none =>
          some (.ok (if ineqs.any fun ineq => decide (ineq.c < 0) then none
            else some OrdMap.empty))
      | some name =>
          match nextIneqs profile name ineqs with
          | .error stop => some (.error stop)
          | .ok next =>
              (solveModel calls next).map fun answer =>
                answer >>= extend profile order name ineqs

/-- The function `model`. -/
def modelOf (calls : Nat) (constraints : List Constraint) :
    Option (Except Stop (Option IntModel)) :=
  solveModel profile order calls (toInequalities constraints)

def firstModel (calls : Nat) (premises : List Constraint) :
    List (List Constraint) → Option (Except Stop (Option IntModel))
  | [] => some (.ok none)
  | branch :: rest =>
      match modelOf profile order calls (premises ++ branch) with
      | some (.ok none) => firstModel calls premises rest
      | answer => answer

def counterexample (calls : Nat) (premises : List Constraint) (concl : Constraint) :
    Option (Except Stop (Option IntModel)) :=
  firstModel profile order calls premises concl.negate

end Search

end Pantheon.Telos
