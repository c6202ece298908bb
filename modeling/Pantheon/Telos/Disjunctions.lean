import Mathlib
import Pantheon.Telos.Verification

/-!
# Disjunctive ensures clauses

The constraints of all branches of a normal form are one group, of which one has to be
entailed.  That is the clause where every comparison of it implies the whole of it.
-/

set_option autoImplicit false

namespace Pantheon.Telos

variable {values : String → Int}

variable {bounds : VarBounds} {lhs rhs clause : Expr} {constraint : Constraint}
  {dnf left right : Dnf}

/-! ## Clauses under a valuation -/

def readings (values : String → Int) : Leaves := fun inOld name =>
  .int (values (name.text (if inOld then preField else postField)))

theorem readings_read (values : String → Int) :
    ReadBy (readings values) false postField values := by
  constructor
  · intro name
    rfl
  · intro name
    rfl

def Expr.TrueAt (expr : Expr) (values : String → Int) : Prop :=
  expr.value (readings values) false = some (.bool true)

/-- No product of two operands that are not literals. -/
def Expr.productFree : Expr → Bool
  | .old expr => expr.productFree
  | .neg expr => expr.productFree
  | .bin op lhs rhs => !isProduct op lhs rhs && (lhs.productFree && rhs.productFree)
  | _ => true

def Expr.hasOr : Expr → Bool
  | .bin op lhs rhs => if op = .or then true else decide (op = .and) && (lhs.hasOr || rhs.hasOr)
  | _ => false

/-- What `&&` and `||` join. -/
def Expr.comparisons : Expr → List Expr
  | .bin op lhs rhs =>
      if op = .or then lhs.comparisons ++ rhs.comparisons
      else if op = .and then lhs.comparisons ++ rhs.comparisons
      else [.bin op lhs rhs]
  | expr => [expr]

/-- A clause without `||`, or one that each of its comparisons implies. -/
def Separable (clause : Expr) : Prop :=
  clause.hasOr = false ∨
    ∀ comparison ∈ clause.comparisons, ∀ values, comparison.TrueAt values → clause.TrueAt values

/-! ## Without products the bounds do not matter -/

theorem linearizeBounded_exact {preferMinCorner : Bool} (expr : Expr) :
    ∀ {fieldFn : FieldNaming}, expr.productFree = true →
      linearizeBounded fieldFn bounds preferMinCorner expr =
        (linearize fieldFn expr).map fun lin => (lin, false) := by
  induction expr using Expr.operators with
  | old expr ih => exact fun free => ih free
  | neg expr ih =>
      intro fieldFn free
      unfold linearizeBounded linearize
      rw [ih free]
      cases linearize fieldFn expr with
      | none => rfl
      | some inner =>
          change (inner.neg >>= _) = (inner.neg).map _
          cases inner.neg <;> rfl
  | bin op lhs rhs leftIh rightIh =>
      intro fieldFn free
      obtain ⟨noProduct, sides⟩ := Bool.and_eq_true_iff.mp free
      obtain ⟨leftFree, rightFree⟩ := Bool.and_eq_true_iff.mp sides
      unfold linearizeBounded linearize
      rw [leftIh leftFree, rightIh rightFree]
      cases linearize fieldFn lhs with
      | none => rfl
      | some left =>
          cases linearize fieldFn rhs with
          | none => rfl
          | some right =>
              simp only [Bool.not_eq_true'] at noProduct
              simp only [Option.map_some, Option.bind_eq_bind, Option.bind_some, noProduct]
              change (lowerBin op lhs rhs left right >>= _) =
                (lowerBin op lhs rhs left right).map _
              cases lowerBin op lhs rhs left right <;> rfl
  | leaf expr shape =>
      intro fieldFn free
      cases expr with
      | index receiver position =>
          unfold linearizeBounded linearize
          rw [Option.map_map]
          rfl
      | _ => first | rfl | cases shape

theorem boundedComparison_exact {fieldFn : FieldNaming} {rel : Relation}
    (leftFree : lhs.productFree = true) (rightFree : rhs.productFree = true) :
    boundedComparison fieldFn bounds rel lhs rhs =
      (lowerComparison fieldFn rel lhs rhs).map fun constraint => ([constraint], false) := by
  unfold boundedComparison boundedDifference lowerComparison
  rw [linearizeBounded_exact lhs leftFree, linearizeBounded_exact rhs rightFree]
  cases linearize fieldFn lhs with
  | none => rfl
  | some left =>
      cases linearize fieldFn rhs with
      | none => rfl
      | some right =>
          change (((left.sub right) >>= _) >>= _) = ((left.sub right) >>= _).map _
          cases left.sub right <;> rfl

/-! ## The normal form of a clause -/

def Means (comparison : Expr) (constraint : Constraint) : Prop :=
  ∀ values, ∃ truth, comparison.value (readings values) false = some (.bool truth) ∧
    (truth = true ↔ constraint.Holds values)

theorem Means.trueAt_iff {comparison : Expr}
    (means : Means comparison constraint) :
    comparison.TrueAt values ↔ constraint.Holds values := by
  obtain ⟨truth, value, holds⟩ := means values
  unfold Expr.TrueAt
  rw [value, Option.some.injEq, Value.bool.injEq, holds]

structure NormalForm (clause : Expr) (dnf : Dnf) : Prop where
  truth : ∀ values, ∃ truth, clause.value (readings values) false = some (.bool truth) ∧
    (truth = true ↔ DnfHolds values dnf)
  sources : ∀ constraint ∈ dnf.flatten, ∃ comparison ∈ clause.comparisons,
    Means comparison constraint
  kept : ∀ comparison ∈ clause.comparisons, ∃ constraint ∈ dnf.flatten,
    Means comparison constraint
  branches : dnf ≠ []
  listed : clause.comparisons ≠ []
  single : clause.hasOr = false ↔ dnf.length = 1

theorem NormalForm.trueAt_iff (form : NormalForm clause dnf) :
    clause.TrueAt values ↔ DnfHolds values dnf := by
  obtain ⟨truth, value, holds⟩ := form.truth values
  unfold Expr.TrueAt
  rw [value, Option.some.injEq, Value.bool.injEq, holds]

theorem mem_flatten_combine (leftBranches : left ≠ [])
    (rightBranches : right ≠ []) :
    constraint ∈ (combineDnf left right).flatten ↔
      constraint ∈ left.flatten ∨ constraint ∈ right.flatten := by
  unfold combineDnf
  simp only [List.mem_flatten, List.mem_flatMap, List.mem_map]
  constructor
  · rintro ⟨_, ⟨first, firstIn, second, secondIn, rfl⟩, member⟩
    rcases List.mem_append.mp member with inside | inside
    · exact Or.inl ⟨first, firstIn, inside⟩
    · exact Or.inr ⟨second, secondIn, inside⟩
  · rintro (⟨first, firstIn, inside⟩ | ⟨second, secondIn, inside⟩)
    · obtain ⟨second, secondIn⟩ := List.exists_mem_of_ne_nil right rightBranches
      exact ⟨_, ⟨first, firstIn, second, secondIn, rfl⟩, List.mem_append_left _ inside⟩
    · obtain ⟨first, firstIn⟩ := List.exists_mem_of_ne_nil left leftBranches
      exact ⟨_, ⟨first, firstIn, second, secondIn, rfl⟩, List.mem_append_right _ inside⟩

theorem length_combine (left right : Dnf) :
    (combineDnf left right).length = left.length * right.length := by
  unfold combineDnf
  simp

theorem joined_comparisons {listed : List Expr}
    (leftForm : NormalForm lhs left) (rightForm : NormalForm rhs right)
    (joined : listed = lhs.comparisons ++ rhs.comparisons)
    (flattened : ∀ constraint, constraint ∈ dnf.flatten ↔
      constraint ∈ left.flatten ∨ constraint ∈ right.flatten) :
    (∀ constraint ∈ dnf.flatten, ∃ comparison ∈ listed, Means comparison constraint) ∧
      ∀ comparison ∈ listed, ∃ constraint ∈ dnf.flatten, Means comparison constraint := by
  subst joined
  constructor
  · intro constraint member
    rcases (flattened constraint).mp member with inside | inside
    · obtain ⟨comparison, held, means⟩ := leftForm.sources constraint inside
      exact ⟨comparison, List.mem_append_left _ held, means⟩
    · obtain ⟨comparison, held, means⟩ := rightForm.sources constraint inside
      exact ⟨comparison, List.mem_append_right _ held, means⟩
  · intro comparison member
    rcases List.mem_append.mp member with inside | inside
    · obtain ⟨constraint, held, means⟩ := leftForm.kept comparison inside
      exact ⟨constraint, (flattened constraint).mpr (Or.inl held), means⟩
    · obtain ⟨constraint, held, means⟩ := rightForm.kept comparison inside
      exact ⟨constraint, (flattened constraint).mpr (Or.inr held), means⟩

theorem normalForm_or (leftForm : NormalForm lhs left)
    (rightForm : NormalForm rhs right) : NormalForm (.bin .or lhs rhs) (left ++ right) := by
  obtain ⟨sources, kept⟩ := joined_comparisons leftForm rightForm
    (rfl : (Expr.bin .or lhs rhs).comparisons = _)
    (fun constraint => by rw [List.flatten_append, List.mem_append])
  have leftLength := List.length_pos_iff.mpr leftForm.branches
  have rightLength := List.length_pos_iff.mpr rightForm.branches
  refine ⟨fun values => ?_, sources, kept, ?_, ?_, ?_⟩
  · obtain ⟨first, firstValue, firstHolds⟩ := leftForm.truth values
    obtain ⟨second, secondValue, secondHolds⟩ := rightForm.truth values
    refine ⟨first || second, ?_, ?_⟩
    · rw [Expr.value, firstValue, secondValue, or_apply]
    · rw [Bool.or_eq_true, firstHolds, secondHolds, dnfHolds_append]
  · exact List.append_ne_nil_of_left_ne_nil leftForm.branches _
  · exact List.append_ne_nil_of_left_ne_nil leftForm.listed _
  · rw [List.length_append]
    constructor
    · intro flat
      cases flat
    · intro single
      omega

theorem normalForm_and (leftForm : NormalForm lhs left)
    (rightForm : NormalForm rhs right) :
    NormalForm (.bin .and lhs rhs) (combineDnf left right) := by
  obtain ⟨sources, kept⟩ := joined_comparisons leftForm rightForm
    (rfl : (Expr.bin .and lhs rhs).comparisons = _)
    (fun constraint => mem_flatten_combine leftForm.branches rightForm.branches)
  have leftLength := List.length_pos_iff.mpr leftForm.branches
  have rightLength := List.length_pos_iff.mpr rightForm.branches
  refine ⟨fun values => ?_, sources, kept, ?_, ?_, ?_⟩
  · obtain ⟨first, firstValue, firstHolds⟩ := leftForm.truth values
    obtain ⟨second, secondValue, secondHolds⟩ := rightForm.truth values
    refine ⟨first && second, ?_, ?_⟩
    · rw [Expr.value, firstValue, secondValue, and_apply]
    · rw [Bool.and_eq_true, firstHolds, secondHolds, dnfHolds_combine]
  · apply List.length_pos_iff.mp
    rw [length_combine]
    exact Nat.mul_pos leftLength rightLength
  · exact List.append_ne_nil_of_left_ne_nil leftForm.listed _
  · have flat : (Expr.bin .and lhs rhs).hasOr = (lhs.hasOr || rhs.hasOr) := rfl
    rw [flat, Bool.or_eq_false_iff, leftForm.single, rightForm.single, length_combine,
      mul_eq_one]

theorem normalForm_comparison {op : BinOp} {rel : Relation}
    (found : relationOf op = some rel)
    (run : lowerComparison postField rel lhs rhs = some constraint) :
    NormalForm (.bin op lhs rhs) [[constraint]] := by
  have means : Means (.bin op lhs rhs) constraint :=
    fun values => comparison_value found (readings_read values) run
  have alone : (Expr.bin op lhs rhs).comparisons = [.bin op lhs rhs] := by
    cases op <;> first | rfl | cases found
  have flat : (Expr.bin op lhs rhs).hasOr = false := by
    cases op <;> first | rfl | cases found
  constructor
  · intro values
    obtain ⟨truth, value, holds⟩ := means values
    refine ⟨truth, value, ?_⟩
    rw [holds, dnfHolds_single]
    simp [AllHold]
  · intro other member
    rw [alone]
    exact ⟨_, List.mem_singleton_self _, (List.mem_singleton.mp member : other = _) ▸ means⟩
  · intro comparison member
    rw [alone] at member
    exact ⟨constraint, List.mem_singleton_self _, List.mem_singleton.mp member ▸ means⟩
  · exact List.cons_ne_nil _ _
  · rw [alone]
    exact List.cons_ne_nil _ _
  · rw [flat]
    exact iff_of_true rfl rfl

theorem toConstraintsBoundedDnf_normalForm (clause : Expr) :
    ∀ {result : Dnf × Bool}, clause.productFree = true →
      toConstraintsBoundedDnf postField bounds clause = some result →
        NormalForm clause result.1 := by
  induction clause using Expr.operators with
  | bin op lhs rhs leftIh rightIh =>
      intro result free run
      obtain ⟨_, sides⟩ := Bool.and_eq_true_iff.mp free
      obtain ⟨leftFree, rightFree⟩ := Bool.and_eq_true_iff.mp sides
      unfold toConstraintsBoundedDnf at run
      split_ifs at run with isOr isAnd
      · obtain ⟨left, leftRun, run⟩ := Option.bind_eq_some_iff.mp run
        obtain ⟨right, rightRun, run⟩ := Option.bind_eq_some_iff.mp run
        cases Option.some.inj run
        rw [isOr]
        exact normalForm_or (leftIh leftFree leftRun) (rightIh rightFree rightRun)
      · obtain ⟨left, leftRun, run⟩ := Option.bind_eq_some_iff.mp run
        obtain ⟨right, rightRun, run⟩ := Option.bind_eq_some_iff.mp run
        cases Option.some.inj run
        rw [isAnd]
        exact normalForm_and (leftIh leftFree leftRun) (rightIh rightFree rightRun)
      · obtain ⟨rel, found, run⟩ := Option.bind_eq_some_iff.mp run
        obtain ⟨branch, branchRun, run⟩ := Option.bind_eq_some_iff.mp run
        rw [boundedComparison_exact leftFree rightFree] at branchRun
        obtain ⟨constraint, constraintRun, rfl⟩ := Option.map_eq_some_iff.mp branchRun
        cases Option.some.inj run
        exact normalForm_comparison found constraintRun
  | old expr ih =>
      intro result free run
      cases run
  | neg expr ih =>
      intro result free run
      cases run
  | leaf expr shape =>
      intro result free run
      cases expr with
      | bin op lhs rhs => cases shape
      | _ => cases run

/-! ## The group of a clause -/

theorem ensuresConclusions_single (branch : List Constraint) (approximated : Bool) (group : Nat) :
    ensuresConclusions [branch] approximated group =
      branch.map fun constraint => ⟨constraint, true, approximated, none⟩ := rfl

theorem ensuresConclusions_several (several : dnf.length ≠ 1) (approximated : Bool)
    (group : Nat) : ensuresConclusions dnf approximated group =
      dnf.flatten.map fun constraint => ⟨constraint, true, approximated, some group⟩ := by
  unfold ensuresConclusions
  split
  · exact absurd rfl several
  · rfl

theorem nextGroup_several (several : dnf.length ≠ 1) (group : Nat) :
    nextGroup dnf group = group + 1 := by
  unfold nextGroup
  split
  · exact absurd rfl several
  · rfl

theorem le_nextGroup (dnf : Dnf) (group : Nat) : group ≤ nextGroup dnf group := by
  unfold nextGroup
  split <;> omega

theorem ensuresConclusions_group {approximated : Bool} {group number : Nat}
    {concl : Conclusion} (member : concl ∈ ensuresConclusions dnf approximated group)
    (found : concl.orGroup = some number) : number = group ∧ number < nextGroup dnf group := by
  by_cases several : dnf.length ≠ 1
  · rw [ensuresConclusions_several several] at member
    obtain ⟨constraint, _, rfl⟩ := List.mem_map.mp member
    cases Option.some.inj found
    rw [nextGroup_several several]
    exact ⟨rfl, Nat.lt_succ_self _⟩
  · obtain ⟨branch, rfl⟩ := List.length_eq_one_iff.mp (not_not.mp several)
    obtain ⟨constraint, _, rfl⟩ := List.mem_map.mp member
    cases found

theorem allEnsures_groups (clauses : List Expr) :
    ∀ {group : Nat} {conclusions : List Conclusion},
      allEnsures bounds clauses group = some conclusions →
        ∀ concl ∈ conclusions, ∀ number, concl.orGroup = some number → group ≤ number := by
  induction clauses with
  | nil =>
      intro group conclusions run concl member
      cases Option.some.inj run
      cases member
  | cons clause rest ih =>
      intro group conclusions run concl member number found
      obtain ⟨⟨dnf, approximated⟩, dnfRun, run⟩ := Option.bind_eq_some_iff.mp run
      obtain ⟨later, laterRun, run⟩ := Option.bind_eq_some_iff.mp run
      cases Option.some.inj run
      rcases List.mem_append.mp member with inside | inside
      · exact (ensuresConclusions_group inside found).1.ge
      · exact (le_nextGroup dnf group).trans (ih laterRun concl inside number found)

/-- The conclusions of one clause among those of a problem. -/
structure ClauseOf (conclusions : List Conclusion) (dnf : Dnf) (approximated : Bool)
    (group : Nat) : Prop where
  listed : ∀ concl ∈ ensuresConclusions dnf approximated group, concl ∈ conclusions
  own : dnf.length ≠ 1 → ∀ concl ∈ conclusions, concl.orGroup = some group →
    concl ∈ ensuresConclusions dnf approximated group

theorem allEnsures_clause (clauses : List Expr) :
    ∀ {group : Nat} {conclusions : List Conclusion},
      allEnsures bounds clauses group = some conclusions → clause ∈ clauses →
        ∃ dnf approximated number, group ≤ number ∧
          toConstraintsBoundedDnf postField bounds clause = some (dnf, approximated) ∧
          ClauseOf conclusions dnf approximated number := by
  induction clauses with
  | nil =>
      intro group conclusions run member
      cases member
  | cons head rest ih =>
      intro group conclusions run member
      obtain ⟨⟨dnf, approximated⟩, dnfRun, run⟩ := Option.bind_eq_some_iff.mp run
      obtain ⟨later, laterRun, run⟩ := Option.bind_eq_some_iff.mp run
      cases Option.some.inj run
      rcases List.mem_cons.mp member with rfl | inside
      · refine ⟨dnf, approximated, group, le_rfl, dnfRun, ?_, ?_⟩
        · exact fun concl member => List.mem_append_left _ member
        · intro several concl member found
          rcases List.mem_append.mp member with inside | inside
          · exact inside
          · have above := allEnsures_groups rest laterRun concl inside group found
            rw [nextGroup_several several] at above
            omega
      · obtain ⟨other, flag, number, above, otherRun, listed, own⟩ := ih laterRun inside
        refine ⟨other, flag, number, (le_nextGroup dnf group).trans above, otherRun, ?_, ?_⟩
        · exact fun concl member => List.mem_append_right _ (listed concl member)
        · intro several concl member found
          rcases List.mem_append.mp member with here | behind
          · have below := (ensuresConclusions_group here found).2
            omega
          · exact own several concl behind found

theorem exitInvariants_ungrouped {declarations : Declarations}
    (params : List Param) : ∀ {conclusions : List Conclusion},
      exitInvariants declarations bounds params = some conclusions →
        ∀ concl ∈ conclusions, concl.orGroup = none := by
  have one : ∀ (base : String) (clauses : List Expr) {conclusions : List Conclusion},
      invariantConclusions bounds base clauses = some conclusions →
        ∀ concl ∈ conclusions, concl.orGroup = none := by
    intro base clauses
    induction clauses with
    | nil =>
        intro conclusions run concl member
        cases Option.some.inj run
        cases member
    | cons clause rest ih =>
        intro conclusions run concl member
        obtain ⟨⟨constraints, approximated⟩, _, run⟩ := Option.bind_eq_some_iff.mp run
        obtain ⟨later, laterRun, run⟩ := Option.bind_eq_some_iff.mp run
        cases Option.some.inj run
        rcases List.mem_append.mp member with inside | inside
        · obtain ⟨constraint, _, rfl⟩ := List.mem_map.mp inside
          rfl
        · exact ih laterRun concl inside
  induction params with
  | nil =>
      intro conclusions run concl member
      cases Option.some.inj run
      cases member
  | cons param rest ih =>
      intro conclusions run concl member
      unfold exitInvariants at run
      dsimp only at run
      split at run
      · obtain ⟨here, hereRun, run⟩ := Option.bind_eq_some_iff.mp run
        obtain ⟨later, laterRun, run⟩ := Option.bind_eq_some_iff.mp run
        cases Option.some.inj run
        rcases List.mem_append.mp member with inside | inside
        · exact one _ _ hereRun concl inside
        · exact ih laterRun concl inside
      · obtain ⟨here, hereRun, run⟩ := Option.bind_eq_some_iff.mp run
        obtain ⟨later, laterRun, run⟩ := Option.bind_eq_some_iff.mp run
        cases Option.some.inj hereRun
        cases Option.some.inj run
        exact ih laterRun concl member

theorem conclusionsOf_clause {declarations : Declarations} {func : Func}
    (member : clause ∈ func.ensures) {premises : List Constraint} {conclusions : List Conclusion}
    (run : conclusionsOf declarations func premises = some conclusions) :
    ∃ bounds dnf approximated group,
      toConstraintsBoundedDnf postField bounds clause = some (dnf, approximated) ∧
        ClauseOf conclusions dnf approximated group := by
  obtain ⟨bounds, _, run⟩ := Option.bind_eq_some_iff.mp run
  obtain ⟨ensured, ensuredRun, run⟩ := Option.bind_eq_some_iff.mp run
  obtain ⟨kept, keptRun, run⟩ := Option.bind_eq_some_iff.mp run
  cases Option.some.inj run
  obtain ⟨dnf, approximated, group, _, dnfRun, listed, own⟩ :=
    allEnsures_clause _ ensuredRun member
  refine ⟨bounds, dnf, approximated, group, dnfRun, ?_, ?_⟩
  · exact fun concl inside => List.mem_append_left _ (listed concl inside)
  · intro several concl inside found
    rcases List.mem_append.mp inside with here | behind
    · exact own several concl here found
    · rw [exitInvariants_ungrouped _ keptRun concl behind] at found
      cases found

/-! ## Separable clauses are checked -/

theorem separable_clause_holds (form : NormalForm clause dnf)
    (separable : Separable clause) {problem : VerificationProblem} {approximated : Bool}
    {group : Nat} (clauseOf : ClauseOf problem.conclusions dnf approximated group)
    {solver : Solver} (passes : Passes solver problem)
    (sound : ∀ concl ∈ problem.conclusions, Entailed solver problem.premises concl →
      concl.constraint.Holds values) : clause.TrueAt values := by
  by_cases several : dnf.length ≠ 1
  · have implied : ∀ comparison ∈ clause.comparisons, ∀ values,
        comparison.TrueAt values → clause.TrueAt values := by
      rcases separable with flat | implied
      · exact absurd (form.single.mp flat) several
      · exact implied
    obtain ⟨comparison, inside⟩ := List.exists_mem_of_ne_nil _ form.listed
    obtain ⟨constraint, held, _⟩ := form.kept comparison inside
    have grouped := ensuresConclusions_several several approximated group
    have member : Conclusion.mk constraint true approximated (some group) ∈
        problem.conclusions := by
      apply clauseOf.listed
      rw [grouped]
      exact List.mem_map.mpr ⟨constraint, held, rfl⟩
    obtain ⟨concl, listed, same, entailed⟩ := passes.grouped _ member group rfl
    have holds := sound concl listed entailed
    have own := clauseOf.own several concl listed same
    rw [grouped] at own
    obtain ⟨found, foundIn, rfl⟩ := List.mem_map.mp own
    obtain ⟨source, sourceIn, means⟩ := form.sources found foundIn
    exact implied source sourceIn values (means.trueAt_iff.mpr holds)
  · obtain ⟨branch, rfl⟩ := List.length_eq_one_iff.mp (not_not.mp several)
    rw [form.trueAt_iff, dnfHolds_single]
    intro constraint inside
    have member : Conclusion.mk constraint true approximated none ∈ problem.conclusions := by
      apply clauseOf.listed
      rw [ensuresConclusions_single]
      exact List.mem_map.mpr ⟨constraint, inside, rfl⟩
    exact sound _ member (passes.single _ member rfl)

/-! ## Others pass while they are violated -/

/-- A premise that holds under the valuation and from which the constraint follows. -/
def pinned (constraint : Constraint) (values : String → Int) : Constraint :=
  match constraint.rel with
  | .ne =>
      if 0 < constraint.lin.intValue values then ⟨constraint.lin, .gt⟩ else ⟨constraint.lin, .lt⟩
  | _ => constraint

theorem pinned_lin (constraint : Constraint) (values : String → Int) :
    (pinned constraint values).lin = constraint.lin := by
  unfold pinned
  split
  · split_ifs <;> rfl
  · rfl

theorem pinned_holds (holds : constraint.Holds values) :
    (pinned constraint values).Holds values := by
  obtain ⟨lin, rel⟩ := constraint
  cases rel with
  | ne =>
      have apart : lin.intValue values ≠ 0 := holds
      unfold pinned
      dsimp only
      split_ifs with above
      · exact above
      · change lin.intValue values < 0
        omega
  | _ => exact holds

theorem pinned_refutes (constraint : Constraint) (values : String → Int) :
    ∀ branch ∈ constraint.negate, ¬∃ rationals : String → ℚ,
      Solves rationals ([pinned constraint values] ++ branch) := by
  obtain ⟨lin, rel⟩ := constraint
  intro branch member
  rintro ⟨rationals, solves⟩
  have premise := solves _ List.mem_cons_self
  have rest : ∀ other, branch = [other] → other.Tightened rationals := by
    intro other same
    exact solves other (List.mem_cons_of_mem _ (same ▸ List.mem_singleton_self other))
  cases rel with
  | eq =>
      have zero : lin.value rationals = 0 := premise
      rcases List.mem_cons.mp member with same | member
      · have below : lin.value rationals ≤ -1 := rest _ same
        linarith
      · have above : 1 ≤ lin.value rationals := rest _ (List.mem_singleton.mp member)
        linarith
  | ne =>
      have zero : lin.value rationals = 0 := rest _ (List.mem_singleton.mp member)
      unfold pinned at premise
      dsimp only at premise
      split_ifs at premise
      · have above : 1 ≤ lin.value rationals := premise
        linarith
      · have below : lin.value rationals ≤ -1 := premise
        linarith
  | le =>
      have premise : lin.value rationals ≤ 0 := premise
      have other : 1 ≤ lin.value rationals := rest _ (List.mem_singleton.mp member)
      linarith
  | lt =>
      have premise : lin.value rationals ≤ -1 := premise
      have other : 0 ≤ lin.value rationals := rest _ (List.mem_singleton.mp member)
      linarith
  | ge =>
      have premise : 0 ≤ lin.value rationals := premise
      have other : lin.value rationals ≤ -1 := rest _ (List.mem_singleton.mp member)
      linarith
  | gt =>
      have premise : 1 ≤ lin.value rationals := premise
      have other : lin.value rationals ≤ 0 := rest _ (List.mem_singleton.mp member)
      linarith

/-- A clause with a comparison that does not imply it passes for some satisfiable premise that
does not imply it either. -/
theorem inseparable_clause_passes (form : NormalForm clause dnf)
    (formed : DnfFormed dnf) (inseparable : ¬Separable clause) (approximated : Bool)
    (group : Nat) :
    ∃ premise values, Constraint.Holds values premise ∧ ¬clause.TrueAt values ∧
      ∀ order solver name, AnswersExactly solver order
        ⟨name, [premise], ensuresConclusions dnf approximated group⟩ →
      ∃ result, verify solver ⟨name, [premise], ensuresConclusions dnf approximated group⟩ =
        .ok result ∧ result.allPassed = true := by
  unfold Separable at inseparable
  push Not at inseparable
  obtain ⟨disjunction, comparison, inside, values, true_, false_⟩ := inseparable
  have several : dnf.length ≠ 1 := fun single => disjunction (form.single.mpr single)
  obtain ⟨constraint, held, means⟩ := form.kept comparison inside
  refine ⟨pinned constraint values, values, pinned_holds (means.trueAt_iff.mp true_), false_, ?_⟩
  intro order solver name exactly
  obtain ⟨branch, branchIn, constraintIn⟩ := List.mem_flatten.mp held
  have constraintFormed := formed branch branchIn constraint constraintIn
  have premiseFormed : AllWellFormed [pinned constraint values] :=
    allWellFormed_single (by rw [pinned_lin]; exact constraintFormed)
  have member : Conclusion.mk constraint true approximated (some group) ∈
      ensuresConclusions dnf approximated group := by
    rw [ensuresConclusions_several several]
    exact List.mem_map.mpr ⟨constraint, held, rfl⟩
  have entailed : Entailed solver [pinned constraint values]
      ⟨constraint, true, approximated, some group⟩ := by
    refine (allRefuted_iff _).mpr fun refuted refutedIn => ?_
    rw [exactly _ member refuted refutedIn]
    exact (exactUnsat_refutes (allWellFormed_append premiseFormed
      (negate_formed constraintFormed refuted refutedIn))).mpr
      (pinned_refutes constraint values refuted refutedIn)
  obtain ⟨result, run⟩ := verify_answers fun concl listed refuted refutedIn =>
    ⟨_, exactly concl listed refuted refutedIn⟩
  refine ⟨result, run, (verify_passes run).mpr ⟨?_, ?_⟩⟩
  · intro concl listed alone
    rw [ensuresConclusions_several several] at listed
    obtain ⟨other, _, rfl⟩ := List.mem_map.mp listed
    cases alone
  · intro concl listed number found
    have same := (ensuresConclusions_group listed found).1
    exact ⟨_, member, congrArg some same.symm, entailed⟩

/-- The build makes the problems that a build with overflow checks makes: nothing wraps around. -/
def Unwrapped (profile : Profile) (declarations : Declarations) (func : Func) : Prop :=
  @buildProblems ⟨profile⟩ declarations func = buildProblems declarations func

def atLeast (name : String) (bound : Int) : Expr := .bin .ge (.var name) (.int bound)

/-- `requires x >= 0` and one ensures clause. -/
def withEnsures (clause : Expr) : Func where
  name := "f"
  params := [⟨"x", "Int"⟩, ⟨"y", "Int"⟩]
  requires := [atLeast "x" 0]
  ensures := [clause]
  body := []
  elided := false

def moduleOf (func : Func) : Module := ⟨"M", [], [.func func]⟩

/-- `x >= 0 || y >= 0` -/
def eitherPositive : Expr := .bin .or (atLeast "x" 0) (atLeast "y" 0)

theorem atLeast_trueAt (name : String) (bound : Int) :
    (atLeast name bound).TrueAt values ↔ bound ≤ values name := by
  change some (Value.bool (decide (values name ≥ bound))) = some (.bool true) ↔ _
  rw [Option.some.injEq, Value.bool.injEq, decide_eq_true_iff]

/-- `(x >= 0 && x >= 10) || y >= 10` -/
def halfPositive : Expr :=
  .bin .or (.bin .and (atLeast "x" 0) (atLeast "x" 10)) (atLeast "y" 10)

end Pantheon.Telos
