import Mathlib
import Pantheon.Lib.Yields
import Pantheon.Telos.Extraction
import Pantheon.Telos.Overflow

/-!
# Builds that lower alike

What the lowering computes in a build with overflow checks, it computes in every
build: as long as no result leaves `i64`, there is nothing to wrap around.
-/

set_option autoImplicit false

namespace Pantheon.Telos

open Pantheon.Lib

variable {profile : Profile}

theorem i64_included (value : Int) : Included (i64 value) (@i64 ⟨profile⟩ value) := by
  intro result run
  cases profile with
  | debug => exact run
  | release =>
      have fits : -2 ^ 63 ≤ value ∧ value < 2 ^ 63 := by
        have run : check64 machine value = some result := run
        unfold check64 at run
        split_ifs at run with fits
        exact of_decide_eq_true fits
      rw [i64_eq_some run]
      refine congrArg some (Int.bmod_eq_of_le ?_ ?_) <;> omega

/-! ## Linear expressions -/

namespace Linear

theorem addInto_included (name : String) (coeff : Int) : ∀ terms,
    Included (addInto name coeff terms) (@addInto ⟨profile⟩ name coeff terms)
  | [] => .refl _
  | term :: rest => by
      unfold addInto
      split_ifs
      · exact (i64_included _).map
      · exact (addInto_included name coeff rest).map

theorem addAll_included : ∀ added terms, Included (addAll added terms) (@addAll ⟨profile⟩ added terms)
  | [], _ => .refl _
  | term :: rest, terms => (addInto_included term.1 term.2 terms).bind (addAll_included rest)

theorem add_included (left right : Linear) : Included (left.add right) (@add ⟨profile⟩ left right) :=
  (addAll_included _ _).bind fun _ => (i64_included _).bind fun _ => .refl _

theorem mapped_included {change change' : Int → Option Int}
    (included : ∀ value, Included (change value) (change' value)) (lin : Linear) :
    Included (lin.mapped change) (lin.mapped change') := by
  have terms : ∀ terms, Included (mapTerms change terms) (mapTerms change' terms) := by
    intro terms
    induction terms with
    | nil => exact .refl _
    | cons term rest ih => exact (included _).bind fun _ => ih.bind fun _ => .refl _
  exact (terms _).bind fun _ => (included _).bind fun _ => .refl _

theorem neg_included (lin : Linear) : Included lin.neg (@neg ⟨profile⟩ lin) :=
  mapped_included (fun _ => i64_included _) lin

theorem sub_included (left right : Linear) : Included (left.sub right) (@sub ⟨profile⟩ left right) :=
  (neg_included right).bind fun _ => add_included left _

theorem scale_included (lin : Linear) (factor : Int) :
    Included (lin.scale factor) (@scale ⟨profile⟩ lin factor) :=
  mapped_included (fun _ => i64_included _) lin

end Linear

theorem lowerBin_included (op : BinOp) (lhs rhs : Expr) (left right : Linear) :
    Included (lowerBin op lhs rhs left right) (@lowerBin ⟨profile⟩ op lhs rhs left right) := by
  cases op with
  | add => exact Linear.add_included left right
  | sub => exact Linear.sub_included left right
  | mul =>
      simp only [lowerBin]
      split
      · exact Linear.scale_included _ _
      · exact Linear.scale_included _ _
      · exact .refl _
  | _ => exact .refl _

theorem linearize_included (expr : Expr) : ∀ fieldFn,
    Included (linearize fieldFn expr) (@linearize ⟨profile⟩ fieldFn expr) := by
  induction expr using Expr.operators with
  | old expr ih => exact fun _ => ih preField
  | neg expr ih => exact fun fieldFn => (ih fieldFn).bind Linear.neg_included
  | bin op lhs rhs leftIh rightIh =>
      exact fun fieldFn => (leftIh fieldFn).bind fun left => (rightIh fieldFn).bind fun right =>
        lowerBin_included op lhs rhs left right
  | leaf expr shape =>
      intro fieldFn
      cases expr <;> first | exact .refl _ | cases shape

/-! ## Clauses -/

theorem lowerComparison_included (fieldFn : FieldNaming) (rel : Relation) (lhs rhs : Expr) :
    Included (lowerComparison fieldFn rel lhs rhs) (@lowerComparison ⟨profile⟩ fieldFn rel lhs rhs) :=
  (linearize_included lhs _).bind fun _ => (linearize_included rhs _).bind fun _ =>
    (Linear.sub_included _ _).bind fun _ => .refl _

theorem comparisonDnf_included (fieldFn : FieldNaming) (op : BinOp) (lhs rhs : Expr) :
    Included (comparisonDnf fieldFn op lhs rhs) (@comparisonDnf ⟨profile⟩ fieldFn op lhs rhs) := by
  refine Included.bind (.refl _) fun rel => ?_
  exact (lowerComparison_included fieldFn rel lhs rhs).bind fun _ => .refl _

theorem evalConstExpr_included (expr : Expr) :
    Included (evalConstExpr expr) (@evalConstExpr ⟨profile⟩ expr) := by
  induction expr using Expr.operators with
  | old expr ih => exact .refl _
  | neg expr ih => exact ih.bind fun _ => i64_included _
  | bin op lhs rhs leftIh rightIh =>
      refine leftIh.bind fun left => rightIh.bind fun right => ?_
      cases op <;> first | exact i64_included _ | exact .refl _
  | leaf expr shape => cases expr <;> first | exact .refl _ | cases shape

theorem rangeOf_included (domain : Option Expr) :
    Included (rangeOf domain) (@rangeOf ⟨profile⟩ domain) := by
  unfold rangeOf
  split
  · exact (evalConstExpr_included _).bind fun _ => (evalConstExpr_included _).bind fun _ => .refl _
  · exact .refl _

theorem lowerInstances_included {lower lower' : Expr → Option Dnf} (instances : List Expr)
    (included : ∀ inst ∈ instances, Included (lower inst) (lower' inst)) : ∀ combined,
    Included (lowerInstances lower combined instances)
      (lowerInstances lower' combined instances) := by
  induction instances with
  | nil => exact fun _ => .refl _
  | cons inst rest ih =>
      exact fun _ => (included inst List.mem_cons_self).bind fun _ =>
        ih (fun other member => included other (List.mem_cons_of_mem _ member)) _

end Pantheon.Telos
