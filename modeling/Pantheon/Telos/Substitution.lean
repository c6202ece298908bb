import Mathlib
import Pantheon.Telos.Solver

/-!
# Equality substitution keeps the solutions

A round takes an equality that defines a variable and adds a multiple of it to
every other constraint, which then no longer mentions the variable.
-/

set_option autoImplicit false

namespace Pantheon.Telos

open Pantheon.Lib

variable {terms : List (String × Int)} {key : String} {coeff : Int} {variable_ : String × Int}

def Linear.value (values : String → ℚ) (lin : Linear) : ℚ :=
  formValue values lin.terms + lin.constant

/-- A constraint with strict inequalities tightened by one; `≠` says nothing. -/
def Constraint.Tightened (values : String → ℚ) (constraint : Constraint) : Prop :=
  match constraint.rel with
  | .le => constraint.lin.value values ≤ 0
  | .lt => constraint.lin.value values ≤ -1
  | .ge => 0 ≤ constraint.lin.value values
  | .gt => 1 ≤ constraint.lin.value values
  | .eq => constraint.lin.value values = 0
  | .ne => True

/-- Distinct variables with non-zero coefficients. -/
structure WellFormed (terms : List (String × Int)) : Prop where
  distinct : (terms.map Prod.fst).Nodup
  nonzero : ∀ term ∈ terms, term.2 ≠ 0

def UnitCoeff (coeff : Int) : Prop := coeff = 1 ∨ coeff = -1

variable {widths : Widths}

theorem tightened_congr {values : String → ℚ} {left right : Constraint}
    (rel : left.rel = right.rel) (value : left.lin.value values = right.lin.value values) :
    left.Tightened values ↔ right.Tightened values := by
  unfold Constraint.Tightened
  rw [rel, value]

theorem check64_eq_some {value result : Int} (checked : check64 widths value = some result) :
    result = value := by
  unfold check64 at checked
  split_ifs at checked
  exact (Option.some.inj checked).symm

/-! ## One term -/

/-- What adding a term does to the value, the variables and the form of a list. -/
structure Added (key : String) (added : Int) (terms next : List (String × Int)) : Prop where
  value : ∀ values : String → ℚ,
    formValue values next = formValue values terms + (added : ℚ) * values key
  keys : ∀ term ∈ next, term.1 = key ∨ ∃ other ∈ terms, other.1 = term.1
  distinct : (terms.map Prod.fst).Nodup → (next.map Prod.fst).Nodup
  nonzero : added ≠ 0 → (∀ term ∈ terms, term.2 ≠ 0) → ∀ term ∈ next, term.2 ≠ 0

theorem addTerm_added {added : Int} (terms : List (String × Int)) :
    ∀ {next : List (String × Int)}, addTerm widths key added terms = some next →
      Added key added terms next := by
  induction terms with
  | nil =>
      intro next run
      cases Option.some.inj run
      refine ⟨fun values => by simp, fun term member => Or.inl ?_,
        fun _ => List.nodup_singleton key, fun added _ => List.forall_mem_singleton.mpr added⟩
      rw [List.mem_singleton.mp member]
  | cons term rest ih =>
      intro next run
      unfold addTerm at run
      by_cases same : term.1 = key
      · rw [if_pos same] at run
        obtain ⟨sum, checked, run⟩ := Option.bind_eq_some_iff.mp run
        have sumExact := check64_eq_some checked
        cases Option.some.inj run
        by_cases zero : sum = 0
        · rw [if_pos zero]
          have cancels : (term.2 : ℚ) + added = 0 := by
            rw [← Int.cast_add, ← sumExact, zero, Int.cast_zero]
          refine ⟨fun values => ?_, fun other member => Or.inr
            ⟨other, List.mem_cons_of_mem _ member, rfl⟩,
            fun distinct => (List.nodup_cons.mp distinct).2,
            fun _ nonzero => (List.forall_mem_cons.mp nonzero).2⟩
          rw [formValue_cons, same]
          linear_combination -(values key) * cancels
        · rw [if_neg zero]
          have total : (sum : ℚ) = term.2 + added := by
            rw [sumExact, Int.cast_add]
          refine ⟨fun values => ?_, fun other member => ?_, id,
            fun _ nonzero => List.forall_mem_cons.mpr ⟨zero, (List.forall_mem_cons.mp nonzero).2⟩⟩
          · rw [formValue_cons, formValue_cons, total, same]
            ring
          · rcases List.mem_cons.mp member with rfl | member
            · exact Or.inl same
            · exact Or.inr ⟨other, List.mem_cons_of_mem _ member, rfl⟩
      · rw [if_neg same] at run
        obtain ⟨later, restRun, rfl⟩ := Option.map_eq_some_iff.mp run
        have found := ih restRun
        refine ⟨fun values => ?_, fun other member => ?_, fun distinct => ?_,
          fun added nonzero => ?_⟩
        · rw [formValue_cons, formValue_cons, found.value]
          ring
        · rcases List.mem_cons.mp member with rfl | member
          · exact Or.inr ⟨other, List.mem_cons_self, rfl⟩
          · refine (found.keys other member).imp_right ?_
            rintro ⟨before, inside, exact_⟩
            exact ⟨before, List.mem_cons_of_mem _ inside, exact_⟩
        · obtain ⟨fresh, restDistinct⟩ := List.nodup_cons.mp distinct
          refine List.nodup_cons.mpr ⟨fun clash => ?_, found.distinct restDistinct⟩
          obtain ⟨other, inside, name⟩ := List.mem_map.mp clash
          rcases found.keys other inside with here | ⟨before, held, exact_⟩
          · exact same (name.symm.trans here)
          · exact fresh (List.mem_map.mpr ⟨before, held, exact_.trans name⟩)
        · obtain ⟨termNonzero, restNonzero⟩ := List.forall_mem_cons.mp nonzero
          exact List.forall_mem_cons.mpr ⟨termNonzero, found.nonzero added restNonzero⟩

theorem scaled_eq {factor unit result : Int} (unit_ : UnitCoeff unit)
    (run : scaled widths factor coeff unit = some result) : result = -(factor * unit * coeff) := by
  unfold scaled at run
  obtain ⟨negated, first, run⟩ := Option.bind_eq_some_iff.mp run
  obtain ⟨quotient, second, third⟩ := Option.bind_eq_some_iff.mp run
  rw [check64_eq_some third, check64_eq_some second, check64_eq_some first]
  rcases unit_ with rfl | rfl
  · rw [Int.tdiv_one]
    ring
  · rw [Int.tdiv_neg, Int.tdiv_one]
    ring

/-! ## One constraint -/

def without (key : String) (terms : List (String × Int)) : List (String × Int) :=
  terms.filter fun term => decide (term.1 ≠ key)

theorem formValue_split (values : String → ℚ)
    (distinct : (terms.map Prod.fst).Nodup)
    (member : (key, coeff) ∈ terms) :
    formValue values terms =
      (coeff : ℚ) * values key + formValue values (without key terms) := by
  induction terms with
  | nil => cases member
  | cons term rest ih =>
      obtain ⟨fresh, distinct⟩ := List.nodup_cons.mp distinct
      have apart : ∀ other ∈ rest, other.1 ≠ term.1 := fun other inside same =>
        fresh (List.mem_map.mpr ⟨other, inside, same⟩)
      rcases List.mem_cons.mp member with rfl | member
      · have same : without key rest = rest :=
          List.filter_eq_self.mpr fun other inside => decide_eq_true (apart other inside)
        rw [formValue_cons, without, List.filter_cons_of_neg (by simp)]
        exact congrArg _ (congrArg _ same.symm)
      · have different : term.1 ≠ key := fun same => apart (key, coeff) member same.symm
        rw [formValue_cons, ih distinct member, without, without,
          List.filter_cons_of_pos (by simpa using different), formValue_cons]
        ring

theorem eraseP_of_distinct
    (distinct : (terms.map Prod.fst).Nodup) :
    (terms.eraseP fun term => decide (term.1 = key)) = without key terms := by
  induction terms with
  | nil => rfl
  | cons term rest ih =>
      obtain ⟨fresh, distinct⟩ := List.nodup_cons.mp distinct
      unfold without
      by_cases same : term.1 = key
      · rw [List.eraseP_cons_of_pos (by simpa using same),
          List.filter_cons_of_neg (by simpa using same)]
        refine (List.filter_eq_self.mpr fun other inside => decide_eq_true ?_).symm
        intro clash
        exact fresh (List.mem_map.mpr ⟨other, inside, clash.trans same.symm⟩)
      · rw [List.eraseP_cons_of_neg (by simpa using same),
          List.filter_cons_of_pos (by simpa using same), ih distinct]
        rfl

/-- What adding the other terms of a definition with a factor does. -/
structure Substituted (variable_ : String × Int) (factor : Int)
    (definition terms next : List (String × Int)) : Prop where
  value : ∀ values : String → ℚ, formValue values next =
    formValue values terms -
      (factor * variable_.2 : ℚ) * formValue values (without variable_.1 definition)
  absent : (∀ term ∈ terms, term.1 ≠ variable_.1) → ∀ term ∈ next, term.1 ≠ variable_.1
  distinct : (terms.map Prod.fst).Nodup → (next.map Prod.fst).Nodup
  nonzero : factor ≠ 0 → (∀ term ∈ definition, term.2 ≠ 0) → (∀ term ∈ terms, term.2 ≠ 0) →
    ∀ term ∈ next, term.2 ≠ 0

theorem addTerms_substituted (unit_ : UnitCoeff variable_.2)
    {factor : Int} (definition : List (String × Int)) :
    ∀ {terms next : List (String × Int)},
      addTerms widths variable_ factor definition terms = some next →
      Substituted variable_ factor definition terms next := by
  induction definition with
  | nil =>
      intro terms next run
      cases Option.some.inj run
      exact ⟨fun values => by simp [without], id, id, fun _ _ => id⟩
  | cons term rest ih =>
      intro terms next run
      unfold addTerms at run
      by_cases same : term.1 = variable_.1
      · rw [if_pos same] at run
        have later := ih run
        have skipped : without variable_.1 (term :: rest) = without variable_.1 rest :=
          List.filter_cons_of_neg (by simpa using same)
        exact ⟨fun values => by rw [skipped, later.value], later.absent, later.distinct,
          fun factor others => later.nonzero factor (List.forall_mem_cons.mp others).2⟩
      · rw [if_neg same] at run
        obtain ⟨added, scaledRun, run⟩ := Option.bind_eq_some_iff.mp run
        obtain ⟨middle, addRun, run⟩ := Option.bind_eq_some_iff.mp run
        have later := ih run
        have first := addTerm_added _ addRun
        have addedExact := scaled_eq unit_ scaledRun
        have kept : without variable_.1 (term :: rest) = term :: without variable_.1 rest :=
          List.filter_cons_of_pos (by simpa using same)
        refine ⟨fun values => ?_, fun absent => later.absent fun other member => ?_,
          fun distinct => later.distinct (first.distinct distinct),
          fun factorNonzero others nonzero => ?_⟩
        · rw [later.value, first.value, kept, formValue_cons, addedExact]
          push_cast
          ring
        · rcases first.keys other member with here | ⟨before, inside, exact_⟩
          · rw [here]
            exact same
          · rw [← exact_]
            exact absent before inside
        · obtain ⟨termNonzero, others⟩ := List.forall_mem_cons.mp others
          have unitNonzero : variable_.2 ≠ 0 := by
            rcases unit_ with unit_ | unit_ <;> rw [unit_] <;> decide
          refine later.nonzero factorNonzero others (first.nonzero ?_ nonzero)
          rw [addedExact]
          exact neg_ne_zero.mpr (mul_ne_zero (mul_ne_zero factorNonzero unitNonzero) termNonzero)

/-- A constraint and what substitution makes of it: they differ by a multiple of the
definition. -/
structure Rewritten (definition : Linear) (name : String) (before after : Constraint) : Prop where
  rel : after.rel = before.rel
  distinct : (after.lin.terms.map Prod.fst).Nodup
  nonzero : (∀ term ∈ definition.terms, term.2 ≠ 0) → (∀ term ∈ before.lin.terms, term.2 ≠ 0) →
    ∀ term ∈ after.lin.terms, term.2 ≠ 0
  absent : ∀ term ∈ after.lin.terms, term.1 ≠ name
  value : ∃ factor : ℚ, ∀ values : String → ℚ,
    after.lin.value values = before.lin.value values + factor * definition.value values

theorem substituteInto_rewritten {definition : Linear}
    (definitionDistinct : (definition.terms.map Prod.fst).Nodup)
    (member : variable_ ∈ definition.terms)
    (unit_ : UnitCoeff variable_.2) {before after : Constraint}
    (distinct : (before.lin.terms.map Prod.fst).Nodup)
    (run : substituteInto widths definition variable_ before = some after) :
    Rewritten definition variable_.1 before after := by
  unfold substituteInto at run
  cases found : before.lin.terms.find? fun term => decide (term.1 = variable_.1) with
  | none =>
      rw [found] at run
      cases Option.some.inj run
      refine ⟨rfl, distinct, fun _ => id, fun term inside => ?_, 0, fun values => by ring⟩
      simpa using List.find?_eq_none.mp found term inside
  | some term =>
      rw [found] at run
      have inside := List.mem_of_find?_eq_some found
      have key : term.1 = variable_.1 := by simpa using List.find?_some found
      obtain ⟨terms, termsRun, run⟩ := Option.bind_eq_some_iff.mp run
      obtain ⟨added, addedRun, run⟩ := Option.bind_eq_some_iff.mp run
      obtain ⟨constant, constantRun, run⟩ := Option.bind_eq_some_iff.mp run
      cases Option.some.inj run
      have substituted := addTerms_substituted unit_ _ termsRun
      rw [eraseP_of_distinct distinct] at substituted
      refine ⟨rfl, ?_, fun definitionNonzero nonzero => ?_, ?_, -(term.2 * variable_.2),
        fun values => ?_⟩
      · exact substituted.distinct (distinct.sublist (List.filter_sublist.map _))
      · exact substituted.nonzero (nonzero term inside) definitionNonzero
          fun other kept => nonzero other (List.mem_filter.mp kept).1
      · exact substituted.absent fun other kept => of_decide_eq_true (List.mem_filter.mp kept).2
      · have square : (variable_.2 : ℚ) * variable_.2 = 1 := by
          rcases unit_ with unit_ | unit_ <;> rw [unit_] <;> norm_num
        have beforeValue := formValue_split values distinct
          (key ▸ inside : (variable_.1, term.2) ∈ before.lin.terms)
        have definitionValue := formValue_split values definitionDistinct
          (member : (variable_.1, variable_.2) ∈ definition.terms)
        unfold Linear.value
        dsimp only
        rw [substituted.value, check64_eq_some constantRun, scaled_eq unit_ addedRun, beforeValue,
          definitionValue]
        push_cast
        linear_combination ((term.2 : ℚ) * values variable_.1) * square

/-! ## The whole system -/

def Solves (values : String → ℚ) (constraints : List Constraint) : Prop :=
  ∀ constraint ∈ constraints, constraint.Tightened values

def AllWellFormed (constraints : List Constraint) : Prop :=
  ∀ constraint ∈ constraints, WellFormed constraint.lin.terms

theorem takeDefinition_some (constraints : List Constraint) :
    ∀ {definition : Linear} {variable_ : String × Int} {rest : List Constraint},
      takeDefinition constraints = some (definition, variable_, rest) →
      variable_ ∈ definition.terms ∧ UnitCoeff variable_.2 ∧
        constraints.length = rest.length + 1 ∧
        ∀ constraint, constraint ∈ constraints ↔
          constraint = ⟨definition, .eq⟩ ∨ constraint ∈ rest := by
  induction constraints with
  | nil =>
      intro definition variable_ rest found
      cases found
  | cons first others ih =>
      intro definition variable_ rest found
      unfold takeDefinition at found
      cases defined : definedBy first with
      | some term =>
          rw [defined] at found
          cases Option.some.inj found
          unfold definedBy at defined
          split_ifs at defined with equality
          have unit_ : variable_.2 = 1 ∨ variable_.2 = -1 := by
            simpa using List.find?_some defined
          refine ⟨List.mem_of_find?_eq_some defined, unit_, rfl, ?_⟩
          intro constraint
          rw [List.mem_cons]
          refine or_congr_left ?_
          rw [← equality]
      | none =>
          rw [defined] at found
          obtain ⟨⟨lin, term, later⟩, laterFound, same⟩ := Option.map_eq_some_iff.mp found
          obtain ⟨rfl, rfl, rfl⟩ : lin = definition ∧ term = variable_ ∧ first :: later = rest := by
            simpa using same
          obtain ⟨member, unit_, count, members⟩ := ih laterFound
          refine ⟨member, unit_, by rw [List.length_cons, List.length_cons, count], ?_⟩
          intro constraint
          rw [List.mem_cons, List.mem_cons, members]
          tauto

/-- A round keeps the form of the system and whether it has a solution: one of the new
system is extended by the value the definition gives to the variable. -/
theorem substitute_round {constraints rest next : List Constraint} {definition : Linear}
    (wellFormed : AllWellFormed constraints)
    (found : takeDefinition constraints = some (definition, variable_, rest))
    (run : rest.mapM (substituteInto widths definition variable_) = some next) :
    AllWellFormed next ∧
      ((∃ values, Solves values constraints) ↔ ∃ values, Solves values next) := by
  obtain ⟨member, unit_, _, members⟩ := takeDefinition_some constraints found
  have definitionFormed : WellFormed definition.terms :=
    wellFormed ⟨definition, .eq⟩ ((members _).mpr (Or.inl rfl))
  have rewritten : ∀ before ∈ rest, ∀ after,
      substituteInto widths definition variable_ before = some after →
      Rewritten definition variable_.1 before after := by
    intro before inside after computed
    exact substituteInto_rewritten definitionFormed.distinct member unit_
      (wellFormed before ((members _).mpr (Or.inr inside))).distinct computed
  have sources := mem_of_mapM rest run
  refine ⟨fun after inside => ?_, ⟨fun ⟨values, solves⟩ => ⟨values, ?_⟩, fun ⟨values, solves⟩ => ?_⟩⟩
  · obtain ⟨before, beforeInside, computed⟩ := (sources after).mp inside
    have related := rewritten before beforeInside after computed
    exact ⟨related.distinct, related.nonzero definitionFormed.nonzero
      (wellFormed before ((members _).mpr (Or.inr beforeInside))).nonzero⟩
  · intro after inside
    obtain ⟨before, beforeInside, computed⟩ := (sources after).mp inside
    have related := rewritten before beforeInside after computed
    obtain ⟨factor, value⟩ := related.value
    have zero : definition.value values = 0 := solves _ ((members _).mpr (Or.inl rfl))
    rw [tightened_congr related.rel (by rw [value, zero, mul_zero, add_zero])]
    exact solves before ((members _).mpr (Or.inr beforeInside))
  · have square : (variable_.2 : ℚ) * variable_.2 = 1 := by
      rcases unit_ with unit_ | unit_ <;> rw [unit_] <;> norm_num
    let solution : ℚ := -(variable_.2 : ℚ) *
      (formValue values (without variable_.1 definition.terms) + definition.constant)
    have zero : definition.value (Function.update values variable_.1 solution) = 0 := by
      have split := formValue_split (Function.update values variable_.1 solution)
        definitionFormed.distinct (member : (variable_.1, variable_.2) ∈ definition.terms)
      have others : formValue (Function.update values variable_.1 solution)
          (without variable_.1 definition.terms) =
            formValue values (without variable_.1 definition.terms) :=
        formValue_update values _ fun term inside =>
          of_decide_eq_true (List.mem_filter.mp inside).2
      unfold Linear.value
      rw [split, others, Function.update_self]
      linear_combination (-(formValue values (without variable_.1 definition.terms)) -
        definition.constant) * square
    refine ⟨Function.update values variable_.1 solution, fun constraint inside => ?_⟩
    rcases (members constraint).mp inside with rfl | inside
    · exact zero
    · obtain ⟨after, afterInside, computed⟩ := exists_of_mapM rest run constraint inside
      have related := rewritten constraint inside after computed
      obtain ⟨factor, value⟩ := related.value
      have unchanged : after.lin.value (Function.update values variable_.1 solution) =
          after.lin.value values := by
        unfold Linear.value
        rw [formValue_update values _ related.absent]
      have same : after.lin.value values =
          constraint.lin.value (Function.update values variable_.1 solution) := by
        rw [← unchanged, value, zero, mul_zero, add_zero]
      have holds := solves after afterInside
      unfold Constraint.Tightened at holds ⊢
      rw [← related.rel, ← same]
      exact holds

theorem substituteRounds_solutions (rounds : Nat) : ∀ {constraints next : List Constraint},
    AllWellFormed constraints → substituteRounds widths rounds constraints = some next →
    AllWellFormed next ∧
      ((∃ values, Solves values constraints) ↔ ∃ values, Solves values next) := by
  induction rounds with
  | zero =>
      intro constraints next wellFormed run
      cases Option.some.inj run
      exact ⟨wellFormed, Iff.rfl⟩
  | succ rounds ih =>
      intro constraints next wellFormed run
      unfold substituteRounds at run
      cases found : takeDefinition constraints with
      | none =>
          rw [found] at run
          cases Option.some.inj run
          exact ⟨wellFormed, Iff.rfl⟩
      | some taken =>
          obtain ⟨definition, variable_, rest⟩ := taken
          rw [found] at run
          obtain ⟨middle, roundRun, run⟩ := Option.bind_eq_some_iff.mp run
          obtain ⟨middleFormed, same⟩ := substitute_round wellFormed found roundRun
          obtain ⟨nextFormed, later⟩ := ih middleFormed run
          exact ⟨nextFormed, same.trans later⟩

end Pantheon.Telos
