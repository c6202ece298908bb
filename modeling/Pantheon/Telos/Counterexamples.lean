import Mathlib
import Pantheon.Telos.ModelCorrectness

/-!
# Counter-examples: `counterexample` in `tpt-telos-verifier/src/solver.rs`

A `≠` among the premises is dropped, a value is cast to `i64`, and where the values chosen so
far leave no integer between the bounds of a variable no others are tried.  Elsewhere the
answer is right.
-/

set_option autoImplicit false

namespace Pantheon.Telos

open Pantheon.Lib

variable {profile : Profile} {order : KeyOrder}

variable {constraints : List Constraint} {values : String → Int}

/-! ## Where a search goes wrong -/

/-- Some call finds no integer between the bounds of its variable, or one that is not an
`i64`. -/
inductive GoesWrong (order : KeyOrder) : List LinIneq → Prop
  | here {name : String} {ineqs next : List LinIneq} {calls : Nat} {model : IntModel}
      {value : Option Int} :
      (vars order ineqs).head? = some name → nextIneqs .debug name ineqs = .ok next →
      solveModel .debug order calls next = some (.ok (some model)) →
      boundedValue .debug order name ineqs model = .ok value →
      (∀ found, value = some found → found.bmod (2 ^ 64) ≠ found) →
      GoesWrong order ineqs
  | later {name : String} {ineqs next : List LinIneq} :
      (vars order ineqs).head? = some name → nextIneqs .debug name ineqs = .ok next →
      GoesWrong order next → GoesWrong order ineqs

theorem rational_insert (model : IntModel) (name : String) (value : Int) :
    IntModel.rational (model.insert name value) = Function.update model.rational name value := by
  funext key
  unfold IntModel.rational IntModel.value
  rw [OrdMap.get?_insert, Function.update_apply]
  split_ifs <;> rfl

theorem allSat_of_no_vars {ineqs : List LinIneq} (none_ : (vars order ineqs).head? = none)
    (values : String → ℚ) :
    AllSat values ineqs ↔ (ineqs.any fun ineq => decide (ineq.c < 0)) = false := by
  have bare : ∀ ineq ∈ ineqs, ineq.coeffs.toList = [] := by
    intro ineq member
    rw [head?_vars] at none_
    cases first : firstWithVariables ineqs with
    | none =>
        have found := List.find?_eq_none.mp first ineq member
        simpa using found
    | some other =>
        rw [first, Option.bind_some, List.head?_eq_none_iff, keys_eq_nil] at none_
        have found := List.find?_some first
        rw [none_] at found
        cases found
  rw [List.any_eq_false]
  refine forall₂_congr fun ineq member => ?_
  rw [LinIneq.Sat, bare ineq member, formValue_nil, Int.cast_nonneg_iff, decide_eq_true_eq,
    not_lt]

theorem solveModel_exact (calls : Nat) : ∀ {ineqs : List LinIneq} {answer : Option IntModel},
    solveModel .debug order calls ineqs = some (.ok answer) → AllFit ineqs →
    ¬GoesWrong order ineqs →
      (∀ model, answer = some model → AllSat model.rational ineqs) ∧
      (answer = none → ∀ values : String → ℚ, ¬AllSat values ineqs) := by
  induction calls with
  | zero =>
      intro ineqs answer run _ _
      cases run
  | succ calls ih =>
      intro ineqs answer run fits right
      cases taken : (vars order ineqs).head? with
      | none =>
          rw [solveModel, taken] at run
          have answered := Except.ok.inj (Option.some.inj run)
          split_ifs at answered with negative
          · refine ⟨fun model found => ?_, fun _ values => ?_⟩
            · rw [← answered] at found
              cases found
            · rw [allSat_of_no_vars taken, negative]
              simp
          · refine ⟨fun model _ => ?_, fun absent => ?_⟩
            · rw [allSat_of_no_vars taken]
              simpa using negative
            · rw [← answered] at absent
              cases absent
      | some name =>
          cases eliminated : nextIneqs .debug name ineqs with
          | error stop =>
              rw [solveModel_stop taken eliminated] at run
              cases run
          | ok next =>
              rw [solveModel_next taken eliminated] at run
              obtain ⟨below, belowRun, run⟩ := Option.map_eq_some_iff.mp run
              obtain ⟨found, rfl, run⟩ := bind_ok run
              have later := ih belowRun (nextIneqs_fit eliminated fits) fun wrong =>
                right (.later taken eliminated wrong)
              cases found with
              | none =>
                  cases run
                  refine ⟨fun model held => ?_, fun _ values sat =>
                    later.2 rfl values (nextIneqs_keeps eliminated sat)⟩
                  cases held
              | some model =>
                  have recovered : recover .debug order name ineqs model = .ok answer := run
                  obtain ⟨value, valueRun, recovered⟩ := bind_ok recovered
                  cases recovered
                  -- a value between the bounds that is an `i64`
                  obtain ⟨value, rfl, kept⟩ :
                      ∃ found, value = some found ∧ found.bmod (2 ^ 64) = found := by
                    by_contra missing
                    push Not at missing
                    exact right (.here taken eliminated belowRun valueRun missing)
                  refine ⟨fun result held => ?_, fun absent => ?_⟩
                  · rw [Option.map_some, kept] at held
                    cases held
                    rw [rational_insert]
                    exact boundedValue_sat eliminated fits (later.1 model rfl) valueRun
                  · cases absent

/-! ## Constraints -/

/-- Coefficients are `i64`, and a variable is listed once. -/
structure Constraint.Typed (constraint : Constraint) : Prop where
  fits : ∀ term ∈ constraint.lin.terms, -2 ^ 63 ≤ term.2 ∧ term.2 < 2 ^ 63
  distinct : (constraint.lin.terms.map Prod.fst).Nodup

theorem inequalities_fit {constraint : Constraint} (typed : constraint.Typed) :
    AllFit constraint.inequalities := by
  intro ineq member entry held
  obtain ⟨term, inside, same⟩ := mem_inequalities member held
  have fits := typed.fits term inside
  constructor <;> rcases same with same | same <;> omega

theorem toInequalities_fit
    (typed : ∀ constraint ∈ constraints, constraint.Typed) : AllFit (toInequalities constraints) := by
  intro ineq member
  obtain ⟨constraint, inside, member⟩ := List.mem_flatMap.mp member
  exact inequalities_fit (typed constraint inside) ineq member

theorem Constraint.Tightened.holds {constraint : Constraint}
    (equal : constraint.rel ≠ .ne)
    (tightened : constraint.Tightened fun name => (values name : ℚ)) :
    constraint.Holds values := by
  obtain ⟨lin, rel⟩ := constraint
  unfold Constraint.Tightened at tightened
  unfold Constraint.Holds
  cases rel with
  | le =>
      rw [value_intCast] at tightened
      exact_mod_cast tightened
  | lt =>
      rw [value_intCast] at tightened
      have below : lin.intValue values ≤ -1 := by exact_mod_cast tightened
      exact Int.lt_of_le_sub_one below
  | ge =>
      rw [value_intCast] at tightened
      exact_mod_cast tightened
  | gt =>
      rw [value_intCast] at tightened
      have above : 1 ≤ lin.intValue values := by exact_mod_cast tightened
      exact above
  | eq =>
      rw [value_intCast] at tightened
      exact_mod_cast tightened
  | ne => exact absurd rfl equal

theorem toInequalities_of_holds
    (typed : ∀ constraint ∈ constraints, constraint.Typed) (holds : AllHold values constraints) :
    AllSat (fun name => (values name : ℚ)) (toInequalities constraints) := by
  intro ineq member
  obtain ⟨constraint, inside, member⟩ := List.mem_flatMap.mp member
  exact (inequalities_sat_of_distinct _ (typed constraint inside).distinct).mpr
    (holds constraint inside).tightened ineq member

theorem holds_of_toInequalities
    (typed : ∀ constraint ∈ constraints, constraint.Typed)
    (equal : ∀ constraint ∈ constraints, constraint.rel ≠ .ne)
    (sat : AllSat (fun name => (values name : ℚ)) (toInequalities constraints)) :
    AllHold values constraints := by
  intro constraint inside
  refine Constraint.Tightened.holds (equal constraint inside) ?_
  refine (inequalities_sat_of_distinct _ (typed constraint inside).distinct).mp ?_
  exact fun ineq member => sat ineq (List.mem_flatMap.mpr ⟨constraint, inside, member⟩)

theorem negate_single {concl : Constraint} {branch : List Constraint}
    (member : branch ∈ concl.negate) :
    ∃ rel, rel ≠ .ne ∧ branch = [⟨concl.lin, rel⟩] ∧
      ∀ values, Constraint.Holds values ⟨concl.lin, rel⟩ → ¬concl.Holds values := by
  obtain ⟨lin, rel⟩ := concl
  cases rel <;> simp only [Constraint.negate, List.mem_cons, List.not_mem_nil, or_false] at member
  case eq =>
    rcases member with rfl | rfl
    · exact ⟨.lt, by decide, rfl, fun values less => ne_of_lt less⟩
    · exact ⟨.gt, by decide, rfl, fun values greater => ne_of_gt greater⟩
  case ne => exact ⟨.eq, by decide, member, fun values same apart => apart same⟩
  case le => exact ⟨.gt, by decide, member, fun values => not_le.mpr⟩
  case lt => exact ⟨.ge, by decide, member, fun values => not_lt.mpr⟩
  case ge => exact ⟨.lt, by decide, member, fun values => not_le.mpr⟩
  case gt => exact ⟨.le, by decide, member, fun values => not_lt.mpr⟩

/-! ## The answer -/

theorem firstModel_same (calls : Nat) (premises : List Constraint)
    (branches : List (List Constraint))
    (kept : ∀ stop, firstModel .debug order calls premises branches ≠ some (.error stop)) :
    firstModel profile order calls premises branches =
      firstModel .debug order calls premises branches := by
  cases profile with
  | debug => rfl
  | release =>
      induction branches with
      | nil => rfl
      | cons branch rest ih =>
          have same := solveModel_same order calls (toInequalities (premises ++ branch))
          rw [firstModel, modelOf] at kept ⊢
          rw [firstModel, modelOf]
          cases run : solveModel .debug order calls (toInequalities (premises ++ branch)) with
          | none => rw [same (by simp [run]), run]
          | some answer =>
              cases answer with
              | error stop =>
                  rw [run] at kept
                  exact absurd rfl (kept stop)
              | ok found =>
                  rw [same (by simp [run]), run]
                  rw [run] at kept
                  cases found with
                  | none => exact ih kept
                  | some model => rfl

def SearchesWell (order : KeyOrder) (calls : Nat) (premises : List Constraint) :
    List (List Constraint) → Prop
  | [] => True
  | branch :: rest => ¬GoesWrong order (toInequalities (premises ++ branch)) ∧
      (modelOf .debug order calls (premises ++ branch) = some (.ok none) →
        SearchesWell order calls premises rest)

theorem firstModel_exact {calls : Nat} {premises : List Constraint}
    (branches : List (List Constraint)) (well : SearchesWell order calls premises branches)
    (typed : ∀ branch ∈ branches, ∀ constraint ∈ premises ++ branch, constraint.Typed)
    (equal : ∀ branch ∈ branches, ∀ constraint ∈ premises ++ branch, constraint.rel ≠ .ne)
    {answer : Option IntModel} (run : firstModel .debug order calls premises branches =
      some (.ok answer)) :
    (∀ model, answer = some model → AllHold model.value premises ∧
      ∃ branch ∈ branches, AllHold model.value branch) ∧
    (answer = none → ∀ values, AllHold values premises →
      ∀ branch ∈ branches, ¬AllHold values branch) := by
  induction branches with
  | nil =>
      cases run
      exact ⟨fun model held => (nomatch held), fun _ values _ branch member => (nomatch member)⟩
  | cons branch rest ih =>
      obtain ⟨right, wellRest⟩ := well
      have branchTyped := typed branch List.mem_cons_self
      have exact_ : ∀ {found}, modelOf .debug order calls (premises ++ branch) =
          some (.ok found) → _ := fun searched =>
        solveModel_exact calls searched (toInequalities_fit branchTyped) right
      rw [firstModel] at run
      cases searched : modelOf .debug order calls (premises ++ branch) with
      | none =>
          rw [searched] at run
          cases run
      | some outcome =>
          cases outcome with
          | error stop =>
              rw [searched] at run
              cases run
          | ok found =>
              rw [searched] at run
              cases found with
              | none =>
                  obtain ⟨models, none_⟩ := ih (wellRest searched)
                    (fun other member => typed other (List.mem_cons_of_mem _ member))
                    (fun other member => equal other (List.mem_cons_of_mem _ member)) run
                  refine ⟨fun model held => ?_, fun absent values premisesHold => ?_⟩
                  · obtain ⟨premisesHold, other, member, holds⟩ := models model held
                    exact ⟨premisesHold, other, List.mem_cons_of_mem _ member, holds⟩
                  · rintro other member holds
                    rcases List.mem_cons.mp member with rfl | member
                    · exact (exact_ searched).2 rfl _ (toInequalities_of_holds branchTyped
                        ((allHold_append premises other).mpr ⟨premisesHold, holds⟩))
                    · exact none_ absent values premisesHold other member holds
              | some model =>
                  cases run
                  refine ⟨fun result held => ?_, fun absent => (nomatch absent)⟩
                  cases held
                  have sat := (exact_ searched).1 model rfl
                  have holds := holds_of_toInequalities branchTyped
                    (equal branch List.mem_cons_self) sat
                  obtain ⟨premisesHold, branchHolds⟩ := (allHold_append premises branch).mp holds
                  exact ⟨premisesHold, branch, List.mem_cons_self, branchHolds⟩

def AnswersRight (premises : List Constraint) (concl : Constraint) : Option IntModel → Prop
  | some model => AllHold model.value premises ∧ ¬concl.Holds model.value
  | none => ∀ values, AllHold values premises → concl.Holds values

/-- An answer is right where no premise is a `≠`, nothing overflows and no call finds its
variable without an `i64` between its bounds. -/
theorem counterexample_right {profile : Profile} {order : KeyOrder} {calls : Nat}
    {premises : List Constraint} {concl : Constraint}
    (typed : ∀ constraint ∈ concl :: premises, constraint.Typed)
    (equal : ∀ premise ∈ premises, premise.rel ≠ .ne)
    (fits : ∀ stop, counterexample .debug order calls premises concl ≠ some (.error stop))
    (well : SearchesWell order calls premises concl.negate) {answer : Option IntModel}
    (run : counterexample profile order calls premises concl = some (.ok answer)) :
    AnswersRight premises concl answer := by
  rw [counterexample, firstModel_same calls premises concl.negate fits] at run
  have branchTyped : ∀ branch ∈ concl.negate, ∀ constraint ∈ premises ++ branch,
      constraint.Typed ∧ constraint.rel ≠ .ne := by
    intro branch member constraint inside
    obtain ⟨rel, apart, rfl, -⟩ := negate_single member
    rcases List.mem_append.mp inside with premise | added
    · exact ⟨typed constraint (List.mem_cons_of_mem _ premise), equal constraint premise⟩
    · rw [List.mem_singleton.mp added]
      have conclTyped := typed concl List.mem_cons_self
      exact ⟨⟨conclTyped.fits, conclTyped.distinct⟩, apart⟩
  obtain ⟨models, none_⟩ := firstModel_exact concl.negate well
    (fun branch member constraint inside => (branchTyped branch member constraint inside).1)
    (fun branch member constraint inside => (branchTyped branch member constraint inside).2) run
  cases answer with
  | some model =>
      obtain ⟨premisesHold, branch, member, holds⟩ := models model rfl
      obtain ⟨rel, -, rfl, violates⟩ := negate_single member
      exact ⟨premisesHold, violates _ (holds _ List.mem_cons_self)⟩
  | none =>
      intro values premisesHold
      by_contra fails
      obtain ⟨branch, member, holds⟩ := negate_covers fails
      exact none_ rfl values premisesHold branch member holds

/-- `x >= 0` -/
def nonnegative : Constraint := ⟨⟨[("x", 1)], 0⟩, .ge⟩

/-- `x >= 5` -/
def atLeastFive : Constraint := ⟨⟨[("x", 1)], -5⟩, .ge⟩

theorem nonnegative_searches_well :
    SearchesWell nameOrder 2 [nonnegative] atLeastFive.negate := by
  refine ⟨fun wrong => ?_, fun _ => trivial⟩
  cases wrong with
  | here taken run searched found bad =>
      cases taken
      cases run
      rename_i calls model value
      cases calls with
      | zero => cases searched
      | succ calls =>
          cases searched
          cases found
          exact bad 0 rfl rfl
  | later taken run wrong =>
      cases taken
      cases run
      cases wrong with
      | here taken => cases taken
      | later taken => cases taken

theorem zero_is_below_five :
    AnswersRight [nonnegative] atLeastFive (some (OrdMap.empty.insert "x" 0)) := by
  have typed : ∀ constraint ∈ [atLeastFive, nonnegative], constraint.Typed := by
    intro constraint member
    rcases List.mem_pair.mp member with rfl | rfl
    · exact ⟨by decide, by decide⟩
    · exact ⟨by decide, by decide⟩
  have run : counterexample .debug nameOrder 2 [nonnegative] atLeastFive =
      some (.ok (some (OrdMap.empty.insert "x" 0))) := by rfl
  exact counterexample_right typed (by decide) (fun stop => by rw [run]; simp)
    nonnegative_searches_well run

/-- `2 * x == y` -/
def twice : Constraint := ⟨⟨[("x", 2), ("y", -1)], 0⟩, .eq⟩

/-- `x != 0` -/
def notZero : Constraint := ⟨⟨[("x", 1)], 0⟩, .ne⟩

/-- `y <= 2` -/
def atMostTwo : Constraint := ⟨⟨[("y", 1)], -2⟩, .le⟩

/-- With `y = 3` there is no `x`, so nothing is found although `y = 4` is a counter-example; and
zero is given as a number other than zero. -/
theorem search_answers_wrongly :
    ((∀ profile, counterexample profile nameOrder 3 [twice] atMostTwo = some (.ok none)) ∧
      ¬AnswersRight [twice] atMostTwo none) ∧
    (∀ profile, counterexample profile nameOrder 2 [notZero] notZero =
        some (.ok (some (OrdMap.empty.insert "x" 0)))) ∧
      ¬AnswersRight [notZero] notZero (some (OrdMap.empty.insert "x" 0)) := by
  refine ⟨⟨fun profile => ?_, fun right => ?_⟩, fun profile => ?_, fun right => ?_⟩
  · cases profile <;> rfl
  · -- `x = 2` and `y = 4`
    have holds := right (fun name => if name = "x" then 2 else 4) fun constraint member => by
      rw [List.mem_singleton.mp member]
      rfl
    have bound : (2 : Int) ≤ 0 := holds
    omega
  · cases profile <;> rfl
  · have holds := right.1 notZero List.mem_cons_self
    exact holds (by decide)

end Pantheon.Telos
