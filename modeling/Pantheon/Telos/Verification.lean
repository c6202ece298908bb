import Mathlib
import Pantheon.Telos.NormalForms
import Pantheon.Telos.Overflow

/-!
# Verifying a problem: `tpt-telos-verifier/src/verify.rs`

The solver is the default one, on the machine's integers or on integers without bound.
Counterexamples, descriptions and locations of checks are left out.
-/

set_option autoImplicit false

namespace Pantheon.Telos

open Pantheon.Lib

variable {premises : List Constraint} {problem : VerificationProblem} {concl : Constraint}
  {values : String → Int} {order : VariableOrder}

abbrev Solver : Type := List Constraint → Except Stop Bool

def unsat (profile : Profile) (order : VariableOrder) : Solver := fun constraints =>
  match unsatCheckedRun profile order constraints with
  | .error .undecided => .ok false
  | answer => answer

def exactUnsat (order : VariableOrder) : Solver := fun constraints =>
  .ok (decide (unsatChecked unbounded order constraints = some true))

def Constraint.negate (concl : Constraint) : List (List Constraint) :=
  let branch := fun rel => [Constraint.mk concl.lin rel]
  match concl.rel with
  | .eq => [branch .lt, branch .gt]
  | .ne => [branch .eq]
  | .le => [branch .gt]
  | .lt => [branch .ge]
  | .ge => [branch .lt]
  | .gt => [branch .le]

structure CheckResult where
  passed : Bool
  isEnsures : Bool
  isApproximation : Bool
  orGroup : Option Nat
deriving DecidableEq

structure VerificationResult where
  funcName : String
  checks : List CheckResult
  allPassed : Bool
deriving DecidableEq

section Verify

variable (solver : Solver)

def allRefuted (premises : List Constraint) : List (List Constraint) → Except Stop Bool
  | [] => .ok true
  | branch :: rest => do
      let refuted ← solver (premises ++ branch)
      if refuted then allRefuted premises rest else .ok false

def entails (premises : List Constraint) (concl : Constraint) : Except Stop Bool :=
  allRefuted solver premises concl.negate

def check (premises : List Constraint) (concl : Conclusion) : Except Stop CheckResult := do
  let passed ← entails solver premises concl.constraint
  .ok ⟨passed, concl.isEnsures, concl.isApproximation, concl.orGroup⟩

def checkAll (premises : List Constraint) : List Conclusion → Except Stop (List CheckResult)
  | [] => .ok []
  | concl :: rest => do
      let result ← check solver premises concl
      let results ← checkAll premises rest
      .ok (result :: results)

def checkGroups (premises : List Constraint) :
    List (List Conclusion) → Except Stop (List (List CheckResult))
  | [] => .ok []
  | group :: rest => do
      let results ← checkAll solver premises group
      let others ← checkGroups premises rest
      .ok (results :: others)

/-- The groups in the order in which they first occur. -/
def groupsOf (conclusions : List Conclusion) : List (List Conclusion) :=
  (conclusions.filterMap Conclusion.orGroup).dedup.map fun group =>
    conclusions.filter fun concl => decide (concl.orGroup = some group)

/-- Conclusions outside of groups are each entailed, of a group at least one. -/
def verify (problem : VerificationProblem) : Except Stop VerificationResult := do
  let single ← checkAll solver problem.premises
    (problem.conclusions.filter fun concl => concl.orGroup.isNone)
  let grouped ← checkGroups solver problem.premises (groupsOf problem.conclusions)
  .ok ⟨problem.funcName, single ++ grouped.flatten,
    single.all CheckResult.passed && grouped.all fun results => results.any CheckResult.passed⟩

end Verify

/-! ## What passes -/

variable {solver : Solver}

theorem answered_bind {A B : Type} {run : Except Stop A} {next : A → Except Stop B} {result : B}
    (answered : (run >>= next) = .ok result) :
    ∃ value, run = .ok value ∧ next value = .ok result := by
  cases run with
  | error stop => cases answered
  | ok value => exact ⟨value, rfl, answered⟩

def Entailed (solver : Solver) (premises : List Constraint) (concl : Conclusion) : Prop :=
  entails solver premises concl.constraint = .ok true

theorem check_passed {concl : Conclusion} {result : CheckResult}
    (run : check solver premises concl = .ok result) :
    result.passed = true ↔ Entailed solver premises concl := by
  obtain ⟨passed, passedRun, run⟩ := answered_bind run
  cases Except.ok.inj run
  unfold Entailed
  rw [passedRun, Except.ok.injEq]

theorem checkAll_passed (conclusions : List Conclusion) :
    ∀ {results : List CheckResult}, checkAll solver premises conclusions = .ok results →
      (results.all CheckResult.passed = true ↔
        ∀ concl ∈ conclusions, Entailed solver premises concl) ∧
      (results.any CheckResult.passed = true ↔
        ∃ concl ∈ conclusions, Entailed solver premises concl) := by
  induction conclusions with
  | nil =>
      intro results run
      cases Except.ok.inj run
      simp
  | cons concl rest ih =>
      intro results run
      obtain ⟨result, resultRun, run⟩ := answered_bind run
      obtain ⟨later, laterRun, run⟩ := answered_bind run
      cases Except.ok.inj run
      obtain ⟨all_, any_⟩ := ih laterRun
      have here := check_passed resultRun
      rw [List.all_cons, List.any_cons, Bool.and_eq_true, Bool.or_eq_true, all_, any_, here,
        List.forall_mem_cons, List.exists_mem_cons_iff]
      exact ⟨Iff.rfl, Iff.rfl⟩

theorem checkGroups_passed (groups : List (List Conclusion)) :
    ∀ {grouped : List (List CheckResult)}, checkGroups solver premises groups = .ok grouped →
      ((grouped.all fun results => results.any CheckResult.passed) = true ↔
        ∀ group ∈ groups, ∃ concl ∈ group, Entailed solver premises concl) := by
  induction groups with
  | nil =>
      intro grouped run
      cases Except.ok.inj run
      simp
  | cons group rest ih =>
      intro grouped run
      obtain ⟨results, resultsRun, run⟩ := answered_bind run
      obtain ⟨later, laterRun, run⟩ := answered_bind run
      cases Except.ok.inj run
      rw [List.all_cons, Bool.and_eq_true, ih laterRun, (checkAll_passed group resultsRun).2,
        List.forall_mem_cons]

/-- Every conclusion on its own is entailed, and one of every group. -/
structure Passes (solver : Solver) (problem : VerificationProblem) : Prop where
  single : ∀ concl ∈ problem.conclusions, concl.orGroup = none →
    Entailed solver problem.premises concl
  grouped : ∀ concl ∈ problem.conclusions, ∀ group, concl.orGroup = some group →
    ∃ member ∈ problem.conclusions, member.orGroup = some group ∧
      Entailed solver problem.premises member

theorem mem_groupsOf {conclusions group : List Conclusion} :
    group ∈ groupsOf conclusions ↔ ∃ concl ∈ conclusions, ∃ number, concl.orGroup = some number ∧
      group = conclusions.filter fun concl => decide (concl.orGroup = some number) := by
  unfold groupsOf
  simp only [List.mem_map, List.mem_dedup, List.mem_filterMap]
  constructor
  · rintro ⟨number, ⟨concl, inside, found⟩, rfl⟩
    exact ⟨concl, inside, number, found, rfl⟩
  · rintro ⟨concl, inside, number, found, rfl⟩
    exact ⟨number, ⟨concl, inside, found⟩, rfl⟩

theorem verify_passes {result : VerificationResult}
    (run : verify solver problem = .ok result) :
    result.allPassed = true ↔ Passes solver problem := by
  obtain ⟨single, singleRun, run⟩ := answered_bind run
  obtain ⟨grouped, groupedRun, run⟩ := answered_bind run
  cases Except.ok.inj run
  rw [Bool.and_eq_true, (checkAll_passed _ singleRun).1, checkGroups_passed _ groupedRun]
  constructor
  · rintro ⟨each, groups⟩
    constructor
    · intro concl member alone
      exact each concl (List.mem_filter.mpr ⟨member, by rw [alone]; rfl⟩)
    · intro concl member number found
      obtain ⟨other, inside, entailed⟩ :=
        groups _ (mem_groupsOf.mpr ⟨concl, member, number, found, rfl⟩)
      obtain ⟨listed, same⟩ := List.mem_filter.mp inside
      exact ⟨other, listed, of_decide_eq_true same, entailed⟩
  · intro passes
    constructor
    · intro concl member
      obtain ⟨listed, alone⟩ := List.mem_filter.mp member
      exact passes.single concl listed (Option.isNone_iff_eq_none.mp alone)
    · intro group member
      obtain ⟨concl, listed, number, found, rfl⟩ := mem_groupsOf.mp member
      obtain ⟨other, inside, same, entailed⟩ := passes.grouped concl listed number found
      exact ⟨other, List.mem_filter.mpr ⟨inside, decide_eq_true same⟩, entailed⟩

/-! ## When there is a result -/

theorem allRefuted_answers (branches : List (List Constraint))
    (answers : ∀ branch ∈ branches, ∃ answer, solver (premises ++ branch) = .ok answer) :
    ∃ answer, allRefuted solver premises branches = .ok answer := by
  induction branches with
  | nil => exact ⟨true, rfl⟩
  | cons branch rest ih =>
      obtain ⟨answer, answered⟩ := answers branch List.mem_cons_self
      rw [allRefuted, answered]
      cases answer with
      | false => exact ⟨false, rfl⟩
      | true => exact ih fun other member => answers other (List.mem_cons_of_mem _ member)

theorem checkAll_answers (conclusions : List Conclusion)
    (answers : ∀ concl ∈ conclusions, ∃ answer,
      entails solver premises concl.constraint = .ok answer) :
    ∃ results, checkAll solver premises conclusions = .ok results := by
  induction conclusions with
  | nil => exact ⟨[], rfl⟩
  | cons concl rest ih =>
      obtain ⟨answer, answered⟩ := answers concl List.mem_cons_self
      obtain ⟨results, run⟩ := ih fun other member => answers other (List.mem_cons_of_mem _ member)
      unfold checkAll check
      rw [answered, run]
      exact ⟨_, rfl⟩

theorem checkGroups_answers (groups : List (List Conclusion))
    (answers : ∀ group ∈ groups, ∀ concl ∈ group, ∃ answer,
      entails solver premises concl.constraint = .ok answer) :
    ∃ grouped, checkGroups solver premises groups = .ok grouped := by
  induction groups with
  | nil => exact ⟨[], rfl⟩
  | cons group rest ih =>
      obtain ⟨results, run⟩ := checkAll_answers group (answers group List.mem_cons_self)
      obtain ⟨others, othersRun⟩ :=
        ih fun other member => answers other (List.mem_cons_of_mem _ member)
      unfold checkGroups
      rw [run, othersRun]
      exact ⟨_, rfl⟩

theorem verify_answers
    (answers : ∀ concl ∈ problem.conclusions, ∀ branch ∈ concl.constraint.negate, ∃ answer,
      solver (problem.premises ++ branch) = .ok answer) :
    ∃ result, verify solver problem = .ok result := by
  have each : ∀ concl ∈ problem.conclusions, ∃ answer,
      entails solver problem.premises concl.constraint = .ok answer :=
    fun concl member => allRefuted_answers _ (answers concl member)
  obtain ⟨single, singleRun⟩ := checkAll_answers
    (problem.conclusions.filter fun concl => concl.orGroup.isNone)
    (fun concl member => each concl (List.mem_filter.mp member).1)
  obtain ⟨grouped, groupedRun⟩ := checkGroups_answers (groupsOf problem.conclusions) (by
    intro group member concl inside
    obtain ⟨_, _, number, _, rfl⟩ := mem_groupsOf.mp member
    exact each concl (List.mem_filter.mp inside).1)
  unfold verify
  rw [singleRun, groupedRun]
  exact ⟨_, rfl⟩

/-! ## What is entailed -/

theorem allRefuted_iff (branches : List (List Constraint)) :
    allRefuted solver premises branches = .ok true ↔
      ∀ branch ∈ branches, solver (premises ++ branch) = .ok true := by
  induction branches with
  | nil => simp [allRefuted]
  | cons branch rest ih =>
      rw [List.forall_mem_cons, ← ih, allRefuted]
      constructor
      · intro run
        obtain ⟨refuted, refutedRun, run⟩ := answered_bind run
        cases refuted with
        | false => cases run
        | true => exact ⟨refutedRun, run⟩
      · rintro ⟨refutedRun, run⟩
        rw [refutedRun]
        exact run

theorem negate_covers (fails : ¬concl.Holds values) :
    ∃ branch ∈ concl.negate, AllHold values branch := by
  obtain ⟨lin, rel⟩ := concl
  have alone : ∀ other : Relation, Constraint.Holds values ⟨lin, other⟩ →
      AllHold values [⟨lin, other⟩] := by
    intro other holds constraint member
    rw [List.mem_singleton.mp member]
    exact holds
  unfold Constraint.Holds at fails
  cases rel with
  | eq =>
      rcases lt_or_gt_of_ne fails with below | above
      · exact ⟨_, List.mem_cons_self, alone .lt below⟩
      · exact ⟨_, List.mem_cons_of_mem _ List.mem_cons_self, alone .gt above⟩
  | ne => exact ⟨_, List.mem_cons_self, alone .eq (not_not.mp fails)⟩
  | le => exact ⟨_, List.mem_cons_self, alone .gt (not_le.mp fails)⟩
  | lt => exact ⟨_, List.mem_cons_self, alone .ge (not_lt.mp fails)⟩
  | ge => exact ⟨_, List.mem_cons_self, alone .lt (not_le.mp fails)⟩
  | gt => exact ⟨_, List.mem_cons_self, alone .le (not_lt.mp fails)⟩

theorem negate_formed (formed : WellFormed concl.lin.terms) :
    ∀ branch ∈ concl.negate, AllWellFormed branch := by
  obtain ⟨lin, rel⟩ := concl
  intro branch member constraint inside
  have same : constraint.lin = lin := by
    cases rel <;> simp only [Constraint.negate, List.mem_cons, List.not_mem_nil, or_false] at member <;>
      first
        | (subst member; rw [List.mem_singleton.mp inside])
        | (rcases member with rfl | rfl <;> rw [List.mem_singleton.mp inside])
  rw [same]
  exact formed

def SoundOn (solver : Solver) (constraints : List Constraint) : Prop :=
  solver constraints = .ok true → ¬∃ values : String → Int, AllHold values constraints

theorem entails_sound
    (sound : ∀ branch ∈ concl.negate, SoundOn solver (premises ++ branch))
    (entailed : entails solver premises concl = .ok true)
    (holds : AllHold values premises) : concl.Holds values := by
  by_contra fails
  obtain ⟨branch, member, branchHolds⟩ := negate_covers fails
  apply sound branch member ((allRefuted_iff _).mp entailed branch member)
  exact ⟨values, (allHold_append premises branch).mpr ⟨holds, branchHolds⟩⟩

/-! ## The machine's solver and the exact one -/

theorem unsat_sound {profile : Profile} {constraints : List Constraint}
    (formed : AllWellFormed constraints) (fits : UncheckedFit order constraints) :
    SoundOn (unsat profile order) constraints := by
  intro refuted
  have distinct : ∀ constraint ∈ constraints, constraint.Distinct :=
    fun constraint member => (formed constraint member).distinct
  have conservative := (conservative_of_unchecked_fit order constraints).2 distinct fits profile
  apply conservative.2.1
  unfold unsat at refuted
  split at refuted
  · cases refuted
  · exact refuted

theorem exactUnsat_refutes {constraints : List Constraint}
    (formed : AllWellFormed constraints) :
    exactUnsat order constraints = .ok true ↔ ¬∃ values, Solves values constraints := by
  obtain ⟨answer, run⟩ :=
    Option.isSome_iff_exists.mp (isSome_unsatChecked_unbounded order constraints)
  rw [← unsatChecked_exact formed run]
  unfold exactUnsat
  rw [run, Except.ok.injEq, decide_eq_true_iff, Option.some.injEq]

def AnswersExactly (solver : Solver) (order : VariableOrder) (problem : VerificationProblem) :
    Prop :=
  ∀ concl ∈ problem.conclusions, ∀ branch ∈ concl.constraint.negate,
    solver (problem.premises ++ branch) = exactUnsat order (problem.premises ++ branch)

/-- Nothing unchecked overflows in what the verification hands to the solver. -/
def ChecksFit (order : VariableOrder) (problem : VerificationProblem) : Prop :=
  ∀ concl ∈ problem.conclusions, ∀ branch ∈ concl.constraint.negate,
    UncheckedFit order (problem.premises ++ branch)

theorem entailed_holds {profile : Profile}
    (premisesFormed : AllWellFormed problem.premises)
    (conclusionsFormed : ConclusionsFormed problem.conclusions) (fits : ChecksFit order problem)
    {concl : Conclusion} (member : concl ∈ problem.conclusions)
    (entailed : Entailed (unsat profile order) problem.premises concl)
    (holds : AllHold values problem.premises) : concl.constraint.Holds values := by
  refine entails_sound (fun branch inside => ?_) entailed holds
  apply unsat_sound _ (fits concl member branch inside)
  exact allWellFormed_append premisesFormed
    (negate_formed (conclusionsFormed concl member) branch inside)

end Pantheon.Telos
