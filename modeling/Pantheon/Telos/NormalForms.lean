import Mathlib
import Pantheon.Lib.Yields
import Pantheon.Telos.Extraction

/-!
# The constraints of a problem list each name once

Every constraint of a verification problem ends in a sum, which merges the terms of one
name and drops those that vanish: what the solver relies on.
-/

set_option autoImplicit false

namespace Pantheon.Telos

open Pantheon.Lib

variable {left : Linear} {bounds : VarBounds}

def Named (lin : Linear) : Prop := (lin.terms.map Prod.fst).Nodup

/-! ## Sums -/

theorem addInto_names (name : String) (coeff : Int) (terms : List (String × Int)) :
    Yields (fun next => next.map Prod.fst = if name ∈ terms.map Prod.fst then terms.map Prod.fst
      else terms.map Prod.fst ++ [name]) (Linear.addInto name coeff terms) := by
  induction terms with
  | nil => exact Yields.some rfl
  | cons term rest ih =>
      unfold Linear.addInto
      by_cases same : term.1 = name
      · rw [if_pos same, if_pos (List.mem_map.mpr ⟨term, List.mem_cons_self, same⟩)]
        exact Yields.mapped rfl
      · rw [if_neg same]
        have apart : name ≠ term.1 := fun clash => same clash.symm
        refine ih.map fun names => ?_
        rw [List.map_cons, names, List.map_cons]
        by_cases listed : name ∈ rest.map Prod.fst
        · rw [if_pos listed, if_pos (List.mem_cons_of_mem _ listed)]
        · rw [if_neg listed, if_neg (by simpa only [List.mem_cons, apart, false_or] using listed)]
          rfl

theorem addAll_distinct (added : List (String × Int)) : ∀ {terms : List (String × Int)},
    (terms.map Prod.fst).Nodup →
      Yields (fun next => (next.map Prod.fst).Nodup) (Linear.addAll added terms) := by
  induction added with
  | nil => exact fun distinct => Yields.some distinct
  | cons term rest ih =>
      intro terms distinct
      refine Yields.bind (addInto_names term.1 term.2 terms) fun names => ih ?_
      rw [names]
      split_ifs with listed
      · exact distinct
      · exact List.nodup_append.mpr ⟨distinct, List.nodup_singleton _, fun name inside other here =>
          fun same => listed (List.mem_singleton.mp here ▸ same ▸ inside)⟩

theorem add_wellFormed (named : Named left) (right : Linear) :
    Yields (fun sum => WellFormed sum.terms) (left.add right) := by
  refine Yields.bind (addAll_distinct _ named) fun distinct => Yields.after <|
    Yields.some ⟨distinct.sublist (List.filter_sublist.map _), fun term member => ?_⟩
  exact of_decide_eq_true (List.mem_filter.mp member).2

theorem mapTerms_names (change : Int → Option Int) (terms : List (String × Int)) :
    Yields (fun next => next.map Prod.fst = terms.map Prod.fst) (Linear.mapTerms change terms) := by
  induction terms with
  | nil => exact Yields.some rfl
  | cons term rest ih =>
      refine Yields.after <| Yields.bind ih fun names => Yields.some ?_
      rw [List.map_cons, names, List.map_cons]

theorem mapped_named (change : Int → Option Int) {lin : Linear} (named : Named lin) :
    Yields Named (lin.mapped change) := by
  refine Yields.bind (mapTerms_names change lin.terms) fun names => Yields.after <|
    Yields.some ?_
  unfold Named
  rw [names]
  exact named

theorem add_named (named : Named left) (right : Linear) :
    Yields Named (left.add right) := fun sum run => (add_wellFormed named right sum run).distinct

theorem sub_wellFormed (named : Named left) (right : Linear) :
    Yields (fun difference => WellFormed difference.terms) (left.sub right) :=
  Yields.after (add_wellFormed named _)

theorem sub_named (named : Named left) (right : Linear) :
    Yields Named (left.sub right) := Yields.after (add_named named _)

theorem ofVar_named (name : String) : Named (.ofVar name) := List.nodup_singleton name

theorem constantOnly_named (constant : Int) : Named (.constantOnly constant) := List.nodup_nil

/-! ## Expressions -/

theorem lowerBin_named (op : BinOp) (lhs rhs : Expr) {right : Linear}
    (leftNamed : Named left) (rightNamed : Named right) :
    Yields Named (lowerBin op lhs rhs left right) := by
  unfold lowerBin
  cases op with
  | add => exact add_named leftNamed right
  | sub => exact sub_named leftNamed right
  | mul =>
      dsimp only
      split
      · exact mapped_named _ leftNamed
      · exact mapped_named _ rightNamed
      · exact Yields.none
  | div =>
      dsimp only
      split
      · split_ifs
        · exact Yields.none
        · exact mapped_named _ leftNamed
      · exact Yields.none
  | _ => exact Yields.none

theorem linearize_named (expr : Expr) : ∀ fieldFn : FieldNaming,
    Yields Named (linearize fieldFn expr) := by
  induction expr using Expr.operators with
  | old expr ih => exact fun _ => ih _
  | neg expr ih =>
      exact fun fieldFn => Yields.bind (ih fieldFn) fun named => mapped_named _ named
  | bin op lhs rhs leftIh rightIh =>
      exact fun fieldFn => Yields.bind (leftIh fieldFn) fun leftNamed =>
        Yields.bind (rightIh fieldFn) fun rightNamed =>
          lowerBin_named op lhs rhs leftNamed rightNamed
  | leaf expr shape =>
      intro fieldFn
      cases expr with
      | int value => exact Yields.some (constantOnly_named value)
      | var name => exact Yields.some (ofVar_named name)
      | field base name => exact Yields.some (ofVar_named _)
      | index receiver position =>
          exact Yields.mapped (ofVar_named _)
      | _ => first | exact Yields.none | cases shape

theorem linearizeBounded_named {preferMinCorner : Bool} (expr : Expr) :
    ∀ fieldFn : FieldNaming, Yields (fun result => Named result.1)
      (linearizeBounded fieldFn bounds preferMinCorner expr) := by
  induction expr using Expr.operators with
  | old expr ih => exact fun _ => ih _
  | neg expr ih =>
      exact fun fieldFn => Yields.bind (ih fieldFn) fun named =>
        Yields.bind (mapped_named _ named) fun kept => Yields.some kept
  | bin op lhs rhs leftIh rightIh =>
      refine fun fieldFn => Yields.bind (leftIh fieldFn) fun leftNamed =>
        Yields.bind (rightIh fieldFn) fun rightNamed => ?_
      split_ifs
      · exact Yields.bind (Yields.after <| Yields.after <|
          Yields.some (constantOnly_named _)) fun named => Yields.some named
      · exact Yields.bind (lowerBin_named op lhs rhs leftNamed rightNamed) fun named =>
          Yields.some named
  | leaf expr shape =>
      intro fieldFn
      cases expr with
      | int value => exact Yields.some (constantOnly_named value)
      | var name => exact Yields.some (ofVar_named name)
      | field base name => exact Yields.some (ofVar_named _)
      | index receiver position =>
          exact Yields.mapped (ofVar_named _)
      | _ => first | exact Yields.none | cases shape

/-! ## Clauses -/

def DnfFormed (dnf : Dnf) : Prop := ∀ branch ∈ dnf, AllWellFormed branch

theorem allWellFormed_nil : AllWellFormed [] := List.forall_mem_nil _

theorem allWellFormed_append {left right : List Constraint} (leftFormed : AllWellFormed left)
    (rightFormed : AllWellFormed right) : AllWellFormed (left ++ right) :=
  List.forall_mem_append.mpr ⟨leftFormed, rightFormed⟩

theorem allWellFormed_single {constraint : Constraint}
    (formed : WellFormed constraint.lin.terms) : AllWellFormed [constraint] :=
  List.forall_mem_singleton.mpr formed

theorem dnfFormed_single {branch : List Constraint} (formed : AllWellFormed branch) :
    DnfFormed [branch] := List.forall_mem_singleton.mpr formed

theorem dnfFormed_append {left right : Dnf} (leftFormed : DnfFormed left)
    (rightFormed : DnfFormed right) : DnfFormed (left ++ right) :=
  List.forall_mem_append.mpr ⟨leftFormed, rightFormed⟩

theorem dnfFormed_combine {left right : Dnf} (leftFormed : DnfFormed left)
    (rightFormed : DnfFormed right) : DnfFormed (combineDnf left right) := by
  intro branch member
  obtain ⟨first, firstIn, member⟩ := List.mem_flatMap.mp member
  obtain ⟨second, secondIn, rfl⟩ := List.mem_map.mp member
  exact allWellFormed_append (leftFormed first firstIn) (rightFormed second secondIn)

theorem dnfFormed_negate {dnf : Dnf} (formed : DnfFormed dnf) : DnfFormed (negateDnf dnf) := by
  have fold : ∀ (dnf result : Dnf), DnfFormed dnf → DnfFormed result →
      DnfFormed (dnf.foldl (fun result branch => combineDnf result
        (branch.map fun constraint => [negateConstraint constraint])) result) := by
    intro dnf
    induction dnf with
    | nil => exact fun result _ resultFormed => resultFormed
    | cons branch rest ih =>
        intro result formed resultFormed
        rw [List.foldl_cons]
        apply ih _ fun other member => formed other (List.mem_cons_of_mem _ member)
        apply dnfFormed_combine resultFormed
        intro negated member
        obtain ⟨constraint, inside, rfl⟩ := List.mem_map.mp member
        exact allWellFormed_single
          (formed branch List.mem_cons_self constraint inside :
            WellFormed (negateConstraint constraint).lin.terms)
  exact fold dnf [[]] formed (dnfFormed_single allWellFormed_nil)

theorem lowerComparison_formed (fieldFn : FieldNaming) (rel : Relation) (lhs rhs : Expr) :
    Yields (fun constraint => WellFormed constraint.lin.terms)
      (lowerComparison fieldFn rel lhs rhs) :=
  Yields.bind (linearize_named lhs fieldFn) fun named => Yields.after <|
    Yields.bind (sub_wellFormed named _) fun formed => Yields.some formed

theorem comparisonDnf_formed (fieldFn : FieldNaming) (op : BinOp) (lhs rhs : Expr) :
    Yields DnfFormed (comparisonDnf fieldFn op lhs rhs) :=
  Yields.after <| Yields.bind (lowerComparison_formed fieldFn _ lhs rhs)
    fun formed => Yields.some (dnfFormed_single (allWellFormed_single formed))

theorem lowerArms_formed {lower : Expr → Option Dnf} (each : ∀ expr, Yields DnfFormed (lower expr))
    {scrutinee : Option Linear} (named : Yields Named scrutinee) (arms : List (Pattern × Expr)) :
    Yields DnfFormed (lowerArms lower scrutinee arms) := by
  induction arms with
  | nil => exact Yields.some (List.forall_mem_nil _)
  | cons arm rest ih =>
      obtain ⟨pattern, body⟩ := arm
      have others : ∀ {guarded : Dnf}, DnfFormed guarded →
          Yields DnfFormed ((lowerArms lower scrutinee rest).bind fun others =>
            some (guarded ++ others)) := fun formed =>
        Yields.bind ih fun othersFormed => Yields.some (dnfFormed_append formed othersFormed)
      refine Yields.bind (each body) fun formed => ?_
      dsimp only
      split
      · refine Yields.bind (sub_wellFormed (named _ rfl) _) fun guardFormed =>
          Yields.bind (Yields.some (dnfFormed_combine ?_ formed)) others
        exact dnfFormed_single (allWellFormed_single guardFormed)
      · exact Yields.bind (Yields.some formed) others

theorem lowerInstances_formed {lower : Expr → Option Dnf}
    (each : ∀ expr, Yields DnfFormed (lower expr)) (instances : List Expr) :
    ∀ {combined : Dnf}, DnfFormed combined →
      Yields DnfFormed (lowerInstances lower combined instances) := by
  induction instances with
  | nil => exact fun formed => Yields.some formed
  | cons inst rest ih =>
      exact fun formed => Yields.bind (each inst) fun branchesFormed =>
        ih (dnfFormed_combine formed branchesFormed)

theorem toConstraintsDnfAt_formed (fieldFn : FieldNaming) (fuel : Nat) :
    ∀ expr : Expr, Yields DnfFormed (toConstraintsDnfAt fieldFn fuel expr) := by
  induction fuel with
  | zero => exact fun _ => Yields.none
  | succ fuel ih =>
      intro expr
      cases expr with
      | bin op lhs rhs =>
          cases op with
          | or =>
              exact Yields.bind (ih lhs) fun leftFormed => Yields.bind (ih rhs)
                fun rightFormed => Yields.some (dnfFormed_append leftFormed rightFormed)
          | and =>
              exact Yields.bind (ih lhs) fun leftFormed => Yields.bind (ih rhs)
                fun rightFormed => Yields.some (dnfFormed_combine leftFormed rightFormed)
          | _ => exact comparisonDnf_formed fieldFn _ lhs rhs
      | ifElse condition thenExpr elseExpr =>
          exact Yields.bind (ih condition) fun taken => Yields.bind (ih thenExpr)
            fun thenFormed => Yields.bind (ih elseExpr) fun elseFormed =>
              Yields.some (dnfFormed_append (dnfFormed_combine taken thenFormed)
                (dnfFormed_combine (dnfFormed_negate taken) elseFormed))
      | matchOn scrutinee arms =>
          refine Yields.bind (lowerArms_formed ih (linearize_named scrutinee fieldFn) arms)
            fun formed => Yields.some ?_
          split_ifs
          · exact dnfFormed_single allWellFormed_nil
          · exact formed
      | forall_ name domain body =>
          exact Yields.after <|
            lowerInstances_formed ih _ (dnfFormed_single allWellFormed_nil)
      | _ => exact Yields.none

theorem toConstraints_formed (fieldFn : FieldNaming) (expr : Expr) :
    Yields AllWellFormed (toConstraints fieldFn expr) := by
  refine Yields.bind (toConstraintsDnfAt_formed fieldFn _ expr) fun formed => ?_
  split
  · exact Yields.some (formed _ List.mem_cons_self)
  · exact Yields.none

/-! ## Bounded clauses -/

theorem boundedDifference_formed (fieldFn : FieldNaming) (bounds : VarBounds)
    (preferMinCorner : Bool) (lhs rhs : Expr) :
    Yields (fun result => WellFormed result.1.terms)
      (boundedDifference fieldFn bounds preferMinCorner lhs rhs) :=
  Yields.bind (linearizeBounded_named lhs fieldFn) fun named => Yields.after <|
    Yields.bind (sub_wellFormed named _) fun formed => Yields.some formed

theorem toConstraintsBounded_formed {fieldFn : FieldNaming} (expr : Expr) :
    Yields (fun result => AllWellFormed result.1) (toConstraintsBounded fieldFn bounds expr) := by
  induction expr using Expr.operators with
  | bin op lhs rhs leftIh rightIh =>
      unfold toConstraintsBounded
      split_ifs
      · exact Yields.bind leftIh fun leftFormed => Yields.bind rightIh
          fun rightFormed => Yields.some (allWellFormed_append leftFormed rightFormed)
      · exact Yields.after <| Yields.bind (boundedDifference_formed _ _ _ lhs rhs)
          fun formed => Yields.some (allWellFormed_single formed)
  | old expr ih => exact Yields.none
  | neg expr ih => exact Yields.none
  | leaf expr shape =>
      cases expr with
      | bin op lhs rhs => cases shape
      | _ => exact Yields.none

theorem boundedComparison_formed (fieldFn : FieldNaming) (bounds : VarBounds) (rel : Relation)
    (lhs rhs : Expr) :
    Yields (fun result => AllWellFormed result.1)
      (boundedComparison fieldFn bounds rel lhs rhs) := by
  refine Yields.bind (boundedDifference_formed fieldFn bounds false lhs rhs)
    fun {result} maxFormed => ?_
  obtain ⟨atMax, approximated⟩ := result
  cases approximated with
  | false => exact Yields.some (allWellFormed_single maxFormed)
  | true =>
      exact Yields.bind (boundedDifference_formed fieldFn bounds true lhs rhs)
        fun minFormed => Yields.some
          (allWellFormed_append (allWellFormed_single maxFormed) (allWellFormed_single minFormed))

theorem toConstraintsBoundedDnf_formed {fieldFn : FieldNaming}
    (expr : Expr) :
    Yields (fun result => DnfFormed result.1) (toConstraintsBoundedDnf fieldFn bounds expr) := by
  induction expr using Expr.operators with
  | bin op lhs rhs leftIh rightIh =>
      unfold toConstraintsBoundedDnf
      split_ifs
      · exact Yields.bind leftIh fun leftFormed => Yields.bind rightIh
          fun rightFormed => Yields.some (dnfFormed_append leftFormed rightFormed)
      · exact Yields.bind leftIh fun leftFormed => Yields.bind rightIh
          fun rightFormed => Yields.some (dnfFormed_combine leftFormed rightFormed)
      · exact Yields.after <| Yields.bind (boundedComparison_formed _ _ _ lhs rhs)
          fun formed => Yields.some (dnfFormed_single formed)
  | old expr ih => exact Yields.none
  | neg expr ih => exact Yields.none
  | leaf expr shape =>
      cases expr with
      | bin op lhs rhs => cases shape
      | _ => exact Yields.none

/-! ## The body -/

structure BranchFormed (branch : BodyBranch) : Prop where
  extra : AllWellFormed branch.extraPremises
  mutations : AllWellFormed branch.mutations

def BranchesFormed (branches : List BodyBranch) : Prop := ∀ branch ∈ branches, BranchFormed branch

theorem assignConstraint_formed (assign : Assign) :
    Yields (fun constraint => WellFormed constraint.lin.terms) (assignConstraint assign) := by
  unfold assignConstraint
  split
  · refine Yields.after ?_
    dsimp only
    split
    · exact Yields.bind (sub_wellFormed (ofVar_named _) _) fun formed => Yields.some formed
    · exact Yields.bind (Yields.bind (sub_named (ofVar_named _) _)
        fun named => sub_wellFormed named _) fun formed => Yields.some formed
    · exact Yields.bind (Yields.bind (sub_named (ofVar_named _) _)
        fun named => add_wellFormed named _) fun formed => Yields.some formed
  · split
    · exact Yields.after <| Yields.bind (sub_wellFormed (ofVar_named _) _)
        fun formed => Yields.some formed
    · exact Yields.none
  · exact Yields.none

theorem processAssigns_formed (assigns : List Assign) : ∀ {branches : List BodyBranch},
    BranchesFormed branches → Yields BranchesFormed (processAssigns assigns branches) := by
  induction assigns with
  | nil => exact fun formed => Yields.some formed
  | cons assign rest ih =>
      refine fun formed => Yields.bind (assignConstraint_formed assign)
        fun constraintFormed => ih fun branch member => ?_
      obtain ⟨before, inside, rfl⟩ := List.mem_map.mp member
      obtain ⟨extra, mutations⟩ := formed before inside
      exact ⟨extra, allWellFormed_append mutations (allWellFormed_single constraintFormed)⟩

theorem addPremise_formed {constraint : Constraint} (formed : WellFormed constraint.lin.terms)
    {branches : List BodyBranch} (branchesFormed : BranchesFormed branches) :
    BranchesFormed (branches.map (BodyBranch.addPremise constraint)) := by
  intro branch member
  obtain ⟨before, inside, rfl⟩ := List.mem_map.mp member
  obtain ⟨extra, mutations⟩ := branchesFormed before inside
  exact ⟨allWellFormed_append extra (allWellFormed_single formed), mutations⟩

theorem conditionConstraint_formed (condition : Expr) :
    Yields (fun constraint => WellFormed constraint.lin.terms) (conditionConstraint condition) := by
  unfold conditionConstraint
  split
  · exact Yields.after (lowerComparison_formed _ _ _ _)
  · exact Yields.none

mutual

theorem processStmt_formed (stmt : Stmt) {branches : List BodyBranch}
    (formed : BranchesFormed branches) : Yields BranchesFormed (processStmt stmt branches) :=
  match stmt with
  | .mutateState assigns => by
      rw [processStmt]
      exact processAssigns_formed assigns formed
  | .assign assign => by
      rw [processStmt]
      exact processAssigns_formed [assign] formed
  | .ifStmt condition thenBody elseBody => by
      rw [processStmt]
      refine Yields.bind (conditionConstraint_formed condition) fun {constraint} holds => ?_
      have fails : WellFormed (negateConstraint constraint).lin.terms := holds
      exact Yields.bind (processBodyStmts_formed thenBody (addPremise_formed holds formed))
        fun takenFormed =>
          Yields.bind (processElse_formed elseBody (addPremise_formed fails formed))
            fun otherFormed =>
              Yields.some (List.forall_mem_append.mpr ⟨takenFormed, otherFormed⟩)
  | .letBinding _ _ => by
      rw [processStmt]
      exact Yields.some formed
  | .return_ _ => by
      rw [processStmt]
      exact Yields.some formed

theorem processBodyStmts_formed (body : List Stmt) {branches : List BodyBranch}
    (formed : BranchesFormed branches) : Yields BranchesFormed (processBodyStmts body branches) :=
  match body with
  | [] => by
      rw [processBodyStmts]
      exact Yields.some formed
  | stmt :: rest => by
      rw [processBodyStmts]
      exact Yields.bind (processStmt_formed stmt formed) fun middleFormed =>
        processBodyStmts_formed rest middleFormed

theorem processElse_formed (body : Option (List Stmt)) {branches : List BodyBranch}
    (formed : BranchesFormed branches) : Yields BranchesFormed (processElse body branches) :=
  match body with
  | none => by
      rw [processElse]
      exact Yields.some formed
  | some body => by
      rw [processElse]
      exact processBodyStmts_formed body formed

end

/-! ## Callees -/

theorem calleeEnsures_formed (callee : Func) (args : List Expr) (clauses : List Expr) :
    Yields AllWellFormed (calleeEnsures callee args clauses) := by
  induction clauses with
  | nil => exact Yields.some allWellFormed_nil
  | cons clause rest ih =>
      exact Yields.bind (toConstraints_formed _ _) fun hereFormed => Yields.bind ih
        fun laterFormed => Yields.some (allWellFormed_append hereFormed laterFormed)

def FactsFormed (facts : CallFacts) : Prop := AllWellFormed facts.premises

section Calls

variable {funcSpecs : String → Option Func}

mutual

theorem collectCallEnsures_formed (expr : Expr) {facts : CallFacts} (formed : FactsFormed facts) :
    Yields FactsFormed (collectCallEnsures funcSpecs expr facts) :=
  match expr with
  | .call func args => by
      rw [collectCallEnsures]
      split
      · exact Yields.some formed
      · dsimp only
        split_ifs
        · exact collectCallArgs_formed args formed
        · exact Yields.bind (calleeEnsures_formed _ _ _) fun constraintsFormed =>
            collectCallArgs_formed args (allWellFormed_append formed constraintsFormed)
  | .methodCall receiver _ args => by
      rw [collectCallEnsures]
      exact Yields.bind (collectCallEnsures_formed receiver formed) fun middleFormed =>
        collectCallArgs_formed args middleFormed
  | .bin _ lhs rhs => by
      rw [collectCallEnsures]
      exact Yields.bind (collectCallEnsures_formed lhs formed) fun middleFormed =>
        collectCallEnsures_formed rhs middleFormed
  | .neg expr => by
      rw [collectCallEnsures]
      exact collectCallEnsures_formed expr formed
  | .old expr => by
      rw [collectCallEnsures]
      exact collectCallEnsures_formed expr formed
  | .ifElse condition thenExpr elseExpr => by
      rw [collectCallEnsures]
      exact Yields.bind (collectCallEnsures_formed condition formed) fun firstFormed =>
        Yields.bind (collectCallEnsures_formed thenExpr firstFormed) fun secondFormed =>
          collectCallEnsures_formed elseExpr secondFormed
  | .forall_ _ _ body => by
      rw [collectCallEnsures]
      exact collectCallEnsures_formed body formed
  | .int _ | .var _ | .field _ _ | .index _ _ | .matchOn _ _ | .try_ _ | .aggregate _ _
  | .range _ _ => by
      unfold collectCallEnsures
      exact Yields.some formed

theorem collectCallArgs_formed (args : List Expr) {facts : CallFacts}
    (formed : FactsFormed facts) : Yields FactsFormed (collectCallArgs funcSpecs args facts) :=
  match args with
  | [] => by
      rw [collectCallArgs]
      exact Yields.some formed
  | arg :: rest => by
      rw [collectCallArgs]
      exact Yields.bind (collectCallEnsures_formed arg formed) fun middleFormed =>
        collectCallArgs_formed rest middleFormed

end

end Calls

/-! ## Problems -/

section Problems

variable {declarations : Declarations}

theorem requiresDnf_formed (clauses : List Expr) : ∀ {premises : Dnf},
    DnfFormed premises → Yields DnfFormed (requiresDnf clauses premises) := by
  induction clauses with
  | nil => exact fun formed => Yields.some formed
  | cons clause rest ih =>
      exact fun formed => Yields.bind (toConstraintsDnfAt_formed _ _ clause)
        fun branchesFormed => ih (dnfFormed_combine formed branchesFormed)

theorem collectCalls_formed (clauses : List Expr) : ∀ {facts : CallFacts},
    FactsFormed facts → Yields FactsFormed (collectCalls declarations clauses facts) := by
  induction clauses with
  | nil => exact fun formed => Yields.some formed
  | cons clause rest ih =>
      exact fun formed => Yields.bind (collectCallEnsures_formed clause formed)
        fun middleFormed => ih middleFormed

theorem typeConstraints_formed (params : List Param) :
    Yields AllWellFormed (typeConstraints params) := by
  induction params with
  | nil => exact Yields.some allWellFormed_nil
  | cons param rest ih =>
      refine Yields.bind ih fun laterFormed => ?_
      split_ifs
      · exact Yields.bind (sub_wellFormed (ofVar_named _) _) fun formed =>
          Yields.some (List.forall_mem_cons.mpr ⟨formed, laterFormed⟩)
      · exact Yields.some laterFormed

theorem entryInvariant_formed (base : String) (clauses : List Expr) :
    Yields AllWellFormed (entryInvariant base clauses) := by
  induction clauses with
  | nil => exact Yields.some allWellFormed_nil
  | cons clause rest ih =>
      exact Yields.bind (toConstraints_formed _ _) fun hereFormed => Yields.bind ih
        fun laterFormed => Yields.some (allWellFormed_append hereFormed laterFormed)

theorem entryInvariants_formed (params : List Param) :
    Yields AllWellFormed (entryInvariants declarations params) := by
  induction params with
  | nil => exact Yields.some allWellFormed_nil
  | cons param rest ih =>
      have later : ∀ {here : List Constraint}, AllWellFormed here →
          Yields AllWellFormed ((entryInvariants declarations rest).bind fun later =>
            some (here ++ later)) := fun formed =>
        Yields.bind ih fun laterFormed => Yields.some (allWellFormed_append formed laterFormed)
      unfold entryInvariants
      dsimp only
      split
      · exact Yields.bind (entryInvariant_formed _ _) later
      · exact Yields.bind (Yields.some allWellFormed_nil) later

theorem frames_formed (assigned referenced : List (String × String)) :
    Yields AllWellFormed (frames assigned referenced) := by
  induction referenced with
  | nil => exact Yields.some allWellFormed_nil
  | cons name rest ih =>
      refine Yields.bind ih fun laterFormed => ?_
      split_ifs
      · exact Yields.some laterFormed
      · exact Yields.bind (sub_wellFormed (ofVar_named _) _) fun formed =>
          Yields.some (List.forall_mem_cons.mpr ⟨formed, laterFormed⟩)

theorem premiseBranches_formed (func : Func) :
    Yields DnfFormed (premiseBranches declarations func) := by
  have start : BranchesFormed [emptyBranch] :=
    List.forall_mem_singleton.mpr ⟨allWellFormed_nil, allWellFormed_nil⟩
  refine Yields.bind (requiresDnf_formed _ (dnfFormed_single allWellFormed_nil))
    fun requiredFormed => Yields.bind (collectCalls_formed _ allWellFormed_nil)
    fun callsFormed => Yields.bind (typeConstraints_formed _)
    fun typesFormed => Yields.bind (entryInvariants_formed _)
    fun invariantsFormed => Yields.bind (processBodyStmts_formed func.body start)
    fun bodiesFormed branches run premises member => ?_
  obtain ⟨pair, inside, premisesRun⟩ := (mem_of_mapM _ run premises).mp member
  obtain ⟨branch, branchIn, pairIn⟩ := List.mem_flatMap.mp inside
  obtain ⟨body, bodyIn, rfl⟩ := List.mem_map.mp pairIn
  have entry := allWellFormed_append (allWellFormed_append (allWellFormed_append
    (requiredFormed branch branchIn) callsFormed) typesFormed) invariantsFormed
  obtain ⟨extra, mutations⟩ := bodiesFormed body bodyIn
  exact Yields.bind (frames_formed _ _) (fun framedFormed => Yields.some
    (allWellFormed_append (allWellFormed_append (allWellFormed_append entry extra) mutations)
      framedFormed)) premises premisesRun

/-! ### Conclusions -/

def ConclusionsFormed (conclusions : List Conclusion) : Prop :=
  ∀ conclusion ∈ conclusions, WellFormed conclusion.constraint.lin.terms

theorem conclusionsFormed_append {left right : List Conclusion}
    (leftFormed : ConclusionsFormed left) (rightFormed : ConclusionsFormed right) :
    ConclusionsFormed (left ++ right) := List.forall_mem_append.mpr ⟨leftFormed, rightFormed⟩

theorem ensuresConclusions_formed {dnf : Dnf} {approximated : Bool} {group : Nat}
    (formed : DnfFormed dnf) : ConclusionsFormed (ensuresConclusions dnf approximated group) := by
  intro conclusion member
  unfold ensuresConclusions at member
  split at member
  · obtain ⟨constraint, inside, rfl⟩ := List.mem_map.mp member
    exact formed _ List.mem_cons_self constraint inside
  · obtain ⟨constraint, inside, rfl⟩ := List.mem_map.mp member
    obtain ⟨branch, branchIn, inside⟩ := List.mem_flatten.mp inside
    exact formed branch branchIn constraint inside

theorem allEnsures_formed (clauses : List Expr) : ∀ group : Nat,
    Yields ConclusionsFormed (allEnsures bounds clauses group) := by
  induction clauses with
  | nil => exact fun _ => Yields.some (List.forall_mem_nil _)
  | cons clause rest ih =>
      exact fun group => Yields.bind (toConstraintsBoundedDnf_formed clause) fun formed =>
        Yields.bind (ih _) fun laterFormed =>
          Yields.some (conclusionsFormed_append (ensuresConclusions_formed formed) laterFormed)

theorem invariantConclusions_formed {base : String} (clauses : List Expr) :
    Yields ConclusionsFormed (invariantConclusions bounds base clauses) := by
  induction clauses with
  | nil => exact Yields.some (List.forall_mem_nil _)
  | cons clause rest ih =>
      exact Yields.bind (toConstraintsBounded_formed _) fun formed =>
        Yields.bind ih fun laterFormed =>
          Yields.some (conclusionsFormed_append (List.forall_mem_map.mpr formed) laterFormed)

theorem exitInvariants_formed (params : List Param) :
    Yields ConclusionsFormed (exitInvariants declarations bounds params) := by
  induction params with
  | nil => exact Yields.some (List.forall_mem_nil _)
  | cons param rest ih =>
      have later : ∀ {here : List Conclusion}, ConclusionsFormed here →
          Yields ConclusionsFormed ((exitInvariants declarations bounds rest).bind fun later =>
            some (here ++ later)) := fun formed =>
        Yields.bind ih fun laterFormed => Yields.some (conclusionsFormed_append formed laterFormed)
      unfold exitInvariants
      dsimp only
      split
      · exact Yields.bind (invariantConclusions_formed _) later
      · exact Yields.bind (Yields.some (List.forall_mem_nil _)) later

theorem conclusionsOf_formed (func : Func) (premises : List Constraint) :
    Yields ConclusionsFormed (conclusionsOf declarations func premises) :=
  Yields.after <| Yields.bind (allEnsures_formed _ 0) fun ensuredFormed =>
    Yields.bind (exitInvariants_formed _) fun keptFormed =>
      Yields.some (conclusionsFormed_append ensuredFormed keptFormed)

theorem mem_problemsFrom {func : Func} {count : Nat} (branches : Dnf) : ∀ {index : Nat},
    Yields (fun problems => ∀ problem ∈ problems, problem.premises ∈ branches ∧
        conclusionsOf declarations func problem.premises = some problem.conclusions)
      (problemsFrom declarations func count index branches) := by
  induction branches with
  | nil => exact Yields.some (List.forall_mem_nil _)
  | cons premises rest ih =>
      exact Yields.bind (fun _ run => run) fun concluded => Yields.bind ih fun laterHolds =>
        Yields.some (List.forall_mem_cons.mpr ⟨⟨List.mem_cons_self, concluded⟩,
          fun problem member => ⟨List.mem_cons_of_mem _ (laterHolds problem member).1,
            (laterHolds problem member).2⟩⟩)

theorem buildProblems_formed (func : Func) :
    Yields (fun problems => ∀ problem ∈ problems,
        AllWellFormed problem.premises ∧ ConclusionsFormed problem.conclusions)
      (buildProblems declarations func) :=
  Yields.bind (premiseBranches_formed func) fun formed problems run problem member =>
    have ⟨listed, concluded⟩ := mem_problemsFrom _ problems run problem member
    ⟨formed _ listed, conclusionsOf_formed func _ _ concluded⟩

end Problems

end Pantheon.Telos
