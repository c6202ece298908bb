import Mathlib
import Pantheon.Telos.Lowering

/-!
# Lowered contracts say what the contract says

A lowered expression has the value of the expression when the names read what the leaves
read; a lowered clause holds where the clause is true.
-/

set_option autoImplicit false

namespace Pantheon.Telos

variable {values : String → Int}

variable {left right lin result : Linear} {op : BinOp} {lhs rhs : Expr}

/-! ## Linear expressions -/

def termsValue (values : String → Int) (terms : List (String × Int)) : Int :=
  (terms.map fun term => term.2 * values term.1).sum

theorem intValue_eq (lin : Linear) :
    lin.intValue values = termsValue values lin.terms + lin.constant := rfl

@[simp] theorem termsValue_nil : termsValue values [] = 0 := rfl

@[simp] theorem termsValue_cons (term : String × Int) (terms : List (String × Int)) :
    termsValue values (term :: terms) = term.2 * values term.1 + termsValue values terms := by
  unfold termsValue
  rw [List.map_cons, List.sum_cons]

theorem i64_eq_some {value result : Int} (run : i64 value = some result) : result = value :=
  check64_eq_some run

theorem addInto_value {name : String} {coeff : Int} (terms : List (String × Int)) :
    ∀ {next : List (String × Int)}, Linear.addInto name coeff terms = some next →
      termsValue values next = termsValue values terms + coeff * values name := by
  induction terms with
  | nil =>
      intro next run
      cases Option.some.inj run
      simp
  | cons term rest ih =>
      intro next run
      unfold Linear.addInto at run
      by_cases same : term.1 = name
      · rw [if_pos same] at run
        obtain ⟨sum, sumRun, rfl⟩ := Option.map_eq_some_iff.mp run
        rw [termsValue_cons, termsValue_cons, i64_eq_some sumRun, same]
        ring
      · rw [if_neg same] at run
        obtain ⟨later, laterRun, rfl⟩ := Option.map_eq_some_iff.mp run
        rw [termsValue_cons, termsValue_cons, ih laterRun]
        ring

theorem addAll_value (added : List (String × Int)) :
    ∀ {terms next : List (String × Int)}, Linear.addAll added terms = some next →
      termsValue values next = termsValue values terms + termsValue values added := by
  induction added with
  | nil =>
      intro terms next run
      cases Option.some.inj run
      simp
  | cons term rest ih =>
      intro terms next run
      obtain ⟨middle, first, run⟩ := Option.bind_eq_some_iff.mp run
      rw [ih run, addInto_value terms first, termsValue_cons]
      ring

theorem termsValue_nonzero (terms : List (String × Int)) :
    termsValue values (terms.filter fun term => decide (term.2 ≠ 0)) = termsValue values terms := by
  induction terms with
  | nil => rfl
  | cons term rest ih =>
      by_cases zero : term.2 = 0
      · rw [List.filter_cons_of_neg (by simpa using zero), ih, termsValue_cons, zero]
        ring
      · rw [List.filter_cons_of_pos (by simpa using zero), termsValue_cons, ih, termsValue_cons]

theorem add_value {sum : Linear} (run : left.add right = some sum) :
    sum.intValue values = left.intValue values + right.intValue values := by
  obtain ⟨terms, termsRun, run⟩ := Option.bind_eq_some_iff.mp run
  obtain ⟨constant, constantRun, run⟩ := Option.bind_eq_some_iff.mp run
  cases Option.some.inj run
  rw [intValue_eq, intValue_eq, intValue_eq, termsValue_nonzero, addAll_value _ termsRun,
    i64_eq_some constantRun]
  ring

theorem mapped_value {change : Int → Option Int} {before after : Int}
    (scales : ∀ value result, change value = some result → before * result = after * value)
    (run : lin.mapped change = some result) :
    before * result.intValue values = after * lin.intValue values := by
  have terms : ∀ (terms : List (String × Int)) {next : List (String × Int)},
      Linear.mapTerms change terms = some next →
        before * termsValue values next = after * termsValue values terms := by
    intro terms
    induction terms with
    | nil =>
        intro next run
        cases Option.some.inj run
        simp
    | cons term rest ih =>
        intro next run
        obtain ⟨coeff, coeffRun, run⟩ := Option.bind_eq_some_iff.mp run
        obtain ⟨later, laterRun, run⟩ := Option.bind_eq_some_iff.mp run
        cases Option.some.inj run
        rw [termsValue_cons, termsValue_cons, mul_add, mul_add, ih laterRun, ← mul_assoc,
          scales _ _ coeffRun, mul_assoc]
  obtain ⟨next, termsRun, run⟩ := Option.bind_eq_some_iff.mp run
  obtain ⟨constant, constantRun, run⟩ := Option.bind_eq_some_iff.mp run
  cases Option.some.inj run
  rw [intValue_eq, intValue_eq, mul_add, mul_add, terms _ termsRun, scales _ _ constantRun]

theorem neg_value (run : lin.neg = some result) :
    result.intValue values = -lin.intValue values := by
  have scaled : 1 * result.intValue values = -1 * lin.intValue values :=
    mapped_value (fun value negated computed => by rw [i64_eq_some computed]; ring) run
  omega

theorem sub_value {difference : Linear} (run : left.sub right = some difference) :
    difference.intValue values = left.intValue values - right.intValue values := by
  obtain ⟨negated, negatedRun, run⟩ := Option.bind_eq_some_iff.mp run
  rw [add_value run, neg_value negatedRun]
  ring

theorem scale_value {factor : Int} (run : lin.scale factor = some result) :
    result.intValue values = lin.intValue values * factor := by
  have scaled : 1 * result.intValue values = factor * lin.intValue values :=
    mapped_value (fun value product computed => by rw [i64_eq_some computed]; ring) run
  linarith

theorem scaleExact_value {divisor : Int} (nonzero : divisor ≠ 0)
    (run : lin.scaleExact divisor = some result) :
    result.intValue values = (lin.intValue values).tdiv divisor := by
  have scaled : divisor * result.intValue values = 1 * lin.intValue values := by
    refine mapped_value (fun value quotient computed => ?_) run
    split_ifs at computed with divides
    rw [check64_eq_some computed, one_mul]
    exact Int.mul_tdiv_cancel' (Int.dvd_of_tmod_eq_zero divides)
  rw [one_mul] at scaled
  rw [← scaled, Int.mul_tdiv_cancel_left _ nonzero]

/-! ## Expressions -/

/-- The leaves read what the names are given. -/
structure ReadBy (leaves : Leaves) (inOld : Bool) (fieldFn : FieldNaming)
    (values : String → Int) : Prop where
  here : ∀ name : Name, leaves inOld name = .int (values (name.text fieldFn))
  past : ∀ name : Name, leaves true name = .int (values (name.text preField))

variable {leaves : Leaves} {inOld : Bool} {fieldFn : FieldNaming}

theorem ReadBy.old (reads : ReadBy leaves inOld fieldFn values) :
    ReadBy leaves true preField values := ⟨reads.past, reads.past⟩

theorem ofVar_value (name : String) : (Linear.ofVar name).intValue values = values name := by
  simp [intValue_eq, Linear.ofVar]

theorem onInts_int (compute : Int → Int → Option Value) (left right : Int) :
    onInts compute (some (.int left)) (some (.int right)) = compute left right := rfl

theorem lowerBin_value
    (leftValue : lhs.value leaves inOld = some (.int (left.intValue values)))
    (rightValue : rhs.value leaves inOld = some (.int (right.intValue values)))
    (run : lowerBin op lhs rhs left right = some result) :
    (Expr.bin op lhs rhs).value leaves inOld = some (.int (result.intValue values)) := by
  rw [Expr.value, leftValue, rightValue]
  have literal : ∀ {expr : Expr} {lin : Linear} {constant : Int}, asInt expr = some constant →
      expr.value leaves inOld = some (.int (lin.intValue values)) →
        lin.intValue values = constant := by
    intro expr lin constant isInt value
    cases expr with
    | int held =>
        cases Option.some.inj isInt
        exact (Value.int.inj (Option.some.inj value)).symm
    | _ => cases isInt
  cases op with
  | add => rw [add_value run]; rfl
  | sub => rw [sub_value run]; rfl
  | mul =>
      simp only [lowerBin] at run
      cases right_ : asInt rhs with
      | some factor =>
          simp only [right_] at run
          rw [scale_value run, ← literal right_ rightValue]
          rfl
      | none =>
          cases left_ : asInt lhs with
          | some factor =>
              simp only [right_, left_] at run
              rw [scale_value run, mul_comm, ← literal left_ leftValue]
              rfl
          | none =>
              simp only [right_, left_] at run
              cases run
  | div =>
      simp only [lowerBin] at run
      cases right_ : asInt rhs with
      | some divisor =>
          simp only [right_] at run
          split_ifs at run with zero
          rw [scaleExact_value zero run, ← literal right_ rightValue]
          simp only [BinOp.apply, onInts_int]
          rw [literal right_ rightValue, if_neg zero]
      | none =>
          simp only [right_] at run
          cases run
  | _ => cases run

theorem linearize_value (expr : Expr) : ∀ {inOld : Bool} {fieldFn : FieldNaming} {lin : Linear},
    ReadBy leaves inOld fieldFn values → linearize fieldFn expr = some lin →
      expr.value leaves inOld = some (.int (lin.intValue values)) := by
  induction expr using Expr.operators with
  | old expr ih => exact fun reads run => ih reads.old run
  | neg expr ih =>
      intro inOld fieldFn lin reads run
      obtain ⟨inner, innerRun, run⟩ := Option.bind_eq_some_iff.mp run
      rw [Expr.value, ih reads innerRun, neg_value run]
      rfl
  | bin op lhs rhs leftIh rightIh =>
      intro inOld fieldFn lin reads run
      obtain ⟨left, leftRun, run⟩ := Option.bind_eq_some_iff.mp run
      obtain ⟨right, rightRun, run⟩ := Option.bind_eq_some_iff.mp run
      exact lowerBin_value (leftIh reads leftRun) (rightIh reads rightRun) run
  | leaf expr shape =>
      intro inOld fieldFn lin reads run
      cases expr with
      | int value =>
          cases Option.some.inj run
          simp [Expr.value, intValue_eq, Linear.constantOnly]
      | var name | field base name =>
          cases Option.some.inj run
          rw [Expr.value, reads.here, ofVar_value]
          rfl
      | index receiver position =>
          obtain ⟨name, found, rfl⟩ := Option.map_eq_some_iff.mp run
          rw [Expr.value, found, Option.map_some, reads.here, ofVar_value]
      | _ => first | cases run | cases shape

/-! ## Disjunctions of conjunctions -/

def AllHold (values : String → Int) (branch : List Constraint) : Prop :=
  ∀ constraint ∈ branch, constraint.Holds values

def DnfHolds (values : String → Int) (dnf : Dnf) : Prop := ∃ branch ∈ dnf, AllHold values branch

theorem allHold_append (left right : List Constraint) :
    AllHold values (left ++ right) ↔ AllHold values left ∧ AllHold values right := by
  unfold AllHold
  exact List.forall_mem_append

theorem dnfHolds_append (left right : Dnf) :
    DnfHolds values (left ++ right) ↔ DnfHolds values left ∨ DnfHolds values right := by
  unfold DnfHolds
  simp only [List.mem_append, or_and_right, exists_or]

theorem dnfHolds_single (branch : List Constraint) :
    DnfHolds values [branch] ↔ AllHold values branch := by
  unfold DnfHolds
  simp

theorem dnfHolds_combine (left right : Dnf) :
    DnfHolds values (combineDnf left right) ↔ DnfHolds values left ∧ DnfHolds values right := by
  unfold DnfHolds combineDnf
  constructor
  · rintro ⟨branch, member, holds⟩
    obtain ⟨first, firstIn, member⟩ := List.mem_flatMap.mp member
    obtain ⟨second, secondIn, rfl⟩ := List.mem_map.mp member
    obtain ⟨firstHolds, secondHolds⟩ := (allHold_append first second).mp holds
    exact ⟨⟨first, firstIn, firstHolds⟩, second, secondIn, secondHolds⟩
  · rintro ⟨⟨first, firstIn, firstHolds⟩, second, secondIn, secondHolds⟩
    refine ⟨first ++ second, List.mem_flatMap.mpr ⟨first, firstIn, ?_⟩,
      (allHold_append first second).mpr ⟨firstHolds, secondHolds⟩⟩
    exact List.mem_map.mpr ⟨second, secondIn, rfl⟩

theorem negateConstraint_holds (constraint : Constraint) :
    (negateConstraint constraint).Holds values ↔ ¬constraint.Holds values := by
  obtain ⟨lin, rel⟩ := constraint
  cases rel <;> simp only [negateConstraint, negateRelation, Constraint.Holds, ne_eq] <;> omega

theorem dnfHolds_negated (branch : List Constraint) :
    DnfHolds values (branch.map fun constraint => [negateConstraint constraint]) ↔
      ¬AllHold values branch := by
  unfold DnfHolds AllHold
  simp only [List.mem_map, exists_exists_and_eq_and, List.mem_singleton, forall_eq,
    negateConstraint_holds, not_forall, exists_prop]

theorem dnfHolds_negate (dnf : Dnf) : DnfHolds values (negateDnf dnf) ↔ ¬DnfHolds values dnf := by
  have fold : ∀ (dnf result : Dnf),
      DnfHolds values (dnf.foldl (fun result branch => combineDnf result
        (branch.map fun constraint => [negateConstraint constraint])) result) ↔
      DnfHolds values result ∧ ¬DnfHolds values dnf := by
    intro dnf
    induction dnf with
    | nil =>
        intro result
        simp [DnfHolds]
    | cons branch rest ih =>
        intro result
        rw [List.foldl_cons, ih, dnfHolds_combine, dnfHolds_negated]
        simp only [DnfHolds, List.exists_mem_cons_iff]
        rw [not_or, and_assoc]
  rw [negateDnf, fold, dnfHolds_single]
  exact and_iff_right fun constraint member => by cases member

/-! ## Clauses -/

theorem relationOf_value {rel : Relation} (found : relationOf op = some rel)
    (left right : Int) (difference : lin.intValue values = left - right) :
    ∃ truth, op.apply (some (.int left)) (some (.int right)) = some (.bool truth) ∧
      (truth = true ↔ Constraint.Holds values ⟨lin, rel⟩) := by
  cases op <;> simp only [relationOf, reduceCtorEq, Option.some.injEq] at found <;> subst found <;>
    refine ⟨_, rfl, ?_⟩ <;>
      simp only [decide_eq_true_eq, Constraint.Holds, difference, ne_eq, Value.int.injEq] <;> omega

theorem comparison_value {rel : Relation} (found : relationOf op = some rel)
    {constraint : Constraint} (reads : ReadBy leaves inOld fieldFn values)
    (run : lowerComparison fieldFn rel lhs rhs = some constraint) :
    ∃ truth, (Expr.bin op lhs rhs).value leaves inOld = some (.bool truth) ∧
      (truth = true ↔ constraint.Holds values) := by
  obtain ⟨left, leftRun, run⟩ := Option.bind_eq_some_iff.mp run
  obtain ⟨right, rightRun, run⟩ := Option.bind_eq_some_iff.mp run
  obtain ⟨difference, differenceRun, run⟩ := Option.bind_eq_some_iff.mp run
  cases Option.some.inj run
  rw [Expr.value, linearize_value lhs reads leftRun, linearize_value rhs reads rightRun]
  exact relationOf_value found _ _ (sub_value differenceRun)

theorem comparisonDnf_value {dnf : Dnf}
    (reads : ReadBy leaves inOld fieldFn values)
    (run : comparisonDnf fieldFn op lhs rhs = some dnf) :
    ∃ truth, (Expr.bin op lhs rhs).value leaves inOld = some (.bool truth) ∧
      (truth = true ↔ DnfHolds values dnf) := by
  obtain ⟨rel, found, run⟩ := Option.bind_eq_some_iff.mp run
  obtain ⟨constraint, constraintRun, run⟩ := Option.bind_eq_some_iff.mp run
  cases Option.some.inj run
  obtain ⟨truth, value, holds⟩ := comparison_value found reads constraintRun
  refine ⟨truth, value, ?_⟩
  rw [holds, dnfHolds_single]
  simp [AllHold]

theorem and_apply (left right : Bool) :
    BinOp.and.apply (some (.bool left)) (some (.bool right)) = some (.bool (left && right)) := by
  cases left <;> rfl

theorem or_apply (left right : Bool) :
    BinOp.or.apply (some (.bool left)) (some (.bool right)) = some (.bool (left || right)) := by
  cases left <;> rfl

/-- The expression is true where the disjunction of conjunctions holds. -/
def LowersTo (leaves : Leaves) (inOld : Bool) (values : String → Int) (expr : Expr) (dnf : Dnf) :
    Prop :=
  ∃ truth, expr.value leaves inOld = some (.bool truth) ∧ (truth = true ↔ DnfHolds values dnf)

theorem LowersTo.or {left right : Dnf}
    (first : LowersTo leaves inOld values lhs left)
    (second : LowersTo leaves inOld values rhs right) :
    LowersTo leaves inOld values (.bin .or lhs rhs) (left ++ right) := by
  obtain ⟨one, oneValue, oneHolds⟩ := first
  obtain ⟨other, otherValue, otherHolds⟩ := second
  refine ⟨one || other, ?_, ?_⟩
  · rw [Expr.value, oneValue, otherValue, or_apply]
  · rw [Bool.or_eq_true, oneHolds, otherHolds, dnfHolds_append]

theorem LowersTo.and {left right : Dnf}
    (first : LowersTo leaves inOld values lhs left)
    (second : LowersTo leaves inOld values rhs right) :
    LowersTo leaves inOld values (.bin .and lhs rhs) (combineDnf left right) := by
  obtain ⟨one, oneValue, oneHolds⟩ := first
  obtain ⟨other, otherValue, otherHolds⟩ := second
  refine ⟨one && other, ?_, ?_⟩
  · rw [Expr.value, oneValue, otherValue, and_apply]
  · rw [Bool.and_eq_true, oneHolds, otherHolds, dnfHolds_combine]

theorem LowersTo.ifElse {condition thenExpr elseExpr : Expr} {holds thenDnf elseDnf : Dnf}
    (test : LowersTo leaves inOld values condition holds)
    (first : LowersTo leaves inOld values thenExpr thenDnf)
    (second : LowersTo leaves inOld values elseExpr elseDnf) :
    LowersTo leaves inOld values (.ifElse condition thenExpr elseExpr)
      (combineDnf holds thenDnf ++ combineDnf (negateDnf holds) elseDnf) := by
  obtain ⟨taken, takenValue, takenHolds⟩ := test
  obtain ⟨one, oneValue, oneHolds⟩ := first
  obtain ⟨other, otherValue, otherHolds⟩ := second
  unfold LowersTo
  rw [dnfHolds_append, dnfHolds_combine, dnfHolds_combine, dnfHolds_negate, ← takenHolds,
    ← oneHolds, ← otherHolds]
  refine ⟨if taken then one else other, ?_, ?_⟩
  · rw [Expr.value, takenValue]
    cases taken with
    | true => exact oneValue
    | false => exact otherValue
  · cases taken <;> simp

end Pantheon.Telos
