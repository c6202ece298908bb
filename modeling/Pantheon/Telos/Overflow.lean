import Mathlib
import Pantheon.Telos.Elimination

/-!
# The solver on the machine's integers

The substitution computes in `i64` without checks, the elimination in `i128` with
checks on products and differences and none on negations.  What does not fit
panics where the build has overflow checks and wraps around where it has none.
The lists of the exact solver at the machine's widths are what every build
computes as long as everything fits.
-/

set_option autoImplicit false

namespace Pantheon.Telos

open Pantheon.Lib

variable {A B : Type} {order : VariableOrder} {constraints : List Constraint}

/-- How a run ends without an answer: `None` is `undecided`. -/
inductive Stop where
  | panicked
  | undecided
deriving DecidableEq

def Profile.word (profile : Profile) (fits : Int → Bool) (modulus : Nat) (value : Int) :
    Except Stop Int :=
  match profile with
  | .debug => if fits value then .ok value else .error .panicked
  | .release => .ok (value.bmod modulus)

def Profile.word64 (profile : Profile) (value : Int) : Except Stop Int :=
  profile.word machine.fits64 (2 ^ 64) value

def Profile.word128 (profile : Profile) (value : Int) : Except Stop Int :=
  profile.word machine.fits128 (2 ^ 128) value

/-- A quotient that does not fit panics in every build. -/
def quotient64 (left right : Int) : Except Stop Int :=
  if machine.fits64 (left.tdiv right) then .ok (left.tdiv right) else .error .panicked

/-! ## Equality substitution -/

def scaledRun (profile : Profile) (factor coeff unit : Int) : Except Stop Int := do
  let negated ← profile.word64 (-coeff)
  let quotient ← quotient64 negated unit
  profile.word64 (factor * quotient)

def addTermRun (profile : Profile) (key : String) (added : Int) :
    List (String × Int) → Except Stop (List (String × Int))
  | [] => .ok [(key, added)]
  | term :: rest =>
      if term.1 = key then do
        let sum ← profile.word64 (term.2 + added)
        .ok (if sum = 0 then rest else (term.1, sum) :: rest)
      else do
        let terms ← addTermRun profile key added rest
        .ok (term :: terms)

def addTermsRun (profile : Profile) (variable_ : String × Int) (factor : Int) :
    List (String × Int) → List (String × Int) → Except Stop (List (String × Int))
  | [], terms => .ok terms
  | term :: rest, terms =>
      if term.1 = variable_.1 then addTermsRun profile variable_ factor rest terms
      else do
        let added ← scaledRun profile factor term.2 variable_.2
        let terms ← addTermRun profile term.1 added terms
        addTermsRun profile variable_ factor rest terms

def substituteIntoRun (profile : Profile) (definition : Linear) (variable_ : String × Int)
    (constraint : Constraint) : Except Stop Constraint :=
  match constraint.lin.terms.find? fun term => decide (term.1 = variable_.1) with
  | none => .ok constraint
  | some found => do
      let rest := constraint.lin.terms.eraseP fun term => decide (term.1 = variable_.1)
      let terms ← addTermsRun profile variable_ found.2 definition.terms rest
      let added ← scaledRun profile found.2 definition.constant variable_.2
      let constant ← profile.word64 (constraint.lin.constant + added)
      .ok ⟨⟨terms, constant⟩, constraint.rel⟩

def substituteRoundsRun (profile : Profile) :
    Nat → List Constraint → Except Stop (List Constraint)
  | 0, constraints => .ok constraints
  | rounds + 1, constraints =>
      match takeDefinition constraints with
      | none => .ok constraints
      | some (definition, variable_, rest) => do
          let rest ← rest.mapM (substituteIntoRun profile definition variable_)
          substituteRoundsRun profile rounds rest

def equalitySubstituteRun (profile : Profile) (constraints : List Constraint) :
    Except Stop (List Constraint) :=
  substituteRoundsRun profile constraints.length constraints

/-! ## Elimination -/

def negatedRun (profile : Profile) (coeffs : OrdMap String Int) :
    Except Stop (OrdMap String Int) :=
  match profile with
  | .debug =>
      if coeffs.toList.all fun entry => machine.fits128 (-entry.2) then
        .ok (coeffs.mapValues fun _ coeff => -coeff)
      else .error .panicked
  | .release => .ok (coeffs.mapValues fun _ coeff => (-coeff).bmod (2 ^ 128))

def lowerOfRun (profile : Profile) (name : String) (ineq : LinIneq) (coeff : Int) :
    Except Stop Bound := do
  let factor ← profile.word128 (-coeff)
  let bound ← profile.word128 (-ineq.c)
  let coeffs ← negatedRun profile (ineq.coeffs.erase name)
  .ok ⟨factor, bound, coeffs⟩

def lowersRun (profile : Profile) (name : String) : List LinIneq → Except Stop (List Bound)
  | [] => .ok []
  | ineq :: rest =>
      match ineq.coeffs.get? name with
      | some coeff =>
          if coeff < 0 then do
            let bound ← lowerOfRun profile name ineq coeff
            let bounds ← lowersRun profile name rest
            .ok (bound :: bounds)
          else lowersRun profile name rest
      | none => lowersRun profile name rest

/-- A `?` on what a checked operation returns. -/
def orUndecided {A : Type} (answer : Option A) : Except Stop A :=
  match answer with
  | some value => .ok value
  | none => .error .undecided

def eliminateRun (profile : Profile) (name : String) (ineqs : List LinIneq) :
    Except Stop (List LinIneq) := do
  let below ← lowersRun profile name ineqs
  let pairs := (uppers name ineqs).flatMap fun upper => below.map fun lower => (upper, lower)
  let combined ← orUndecided (pairs.mapM fun pair => combine machine pair.1 pair.2)
  .ok (others name ineqs ++ combined)

def eliminateAllRun (profile : Profile) :
    List String → List LinIneq → Except Stop (List LinIneq)
  | [], ineqs => .ok ineqs
  | name :: rest, ineqs => do
      let ineqs ← eliminateRun profile name ineqs
      eliminateAllRun profile rest ineqs

def unsatCheckedRun (profile : Profile) (order : VariableOrder) (constraints : List Constraint) :
    Except Stop Bool := do
  let reduced ← equalitySubstituteRun profile constraints
  let ineqs := toInequalities reduced
  let final ← eliminateAllRun profile (order.list ineqs) ineqs
  .ok (final.any fun ineq => ineq.coeffs.toList.isEmpty && decide (ineq.c < 0))

/-! ## A run computes what the exact solver does while everything fits -/

structure Follows {A : Type} (profile : Profile) (exact_ : Option A) (run : Except Stop A) :
    Prop where
  answers : ∀ result, exact_ = some result → run = .ok result
  traps : profile = .debug → exact_ = none → run = .error .panicked

variable {profile : Profile}

theorem follows_ok (value : A) : Follows profile (some value) (.ok value) := by
  constructor
  · intro result same
    rw [Option.some.inj same]
  · intro _ absent
    cases absent

theorem follows_bind {exact_ : Option A} {run : Except Stop A}
    {exactNext : A → Option B} {runNext : A → Except Stop B} (first : Follows profile exact_ run)
    (next : ∀ value, exact_ = some value → Follows profile (exactNext value) (runNext value)) :
    Follows profile (exact_ >>= exactNext) (run >>= runNext) := by
  cases computed : exact_ with
  | none =>
      constructor
      · intro result same
        cases same
      · intro checked _
        rw [first.traps checked computed]
        rfl
  | some value =>
      rw [first.answers value computed]
      exact next value computed

theorem word_follows {fits : Int → Bool} {modulus : Nat} {value : Int}
    (kept : fits value = true → value.bmod modulus = value) :
    Follows profile (if fits value then some value else none)
      (profile.word fits modulus value) := by
  unfold Profile.word
  by_cases within : fits value = true
  · rw [if_pos within, if_pos within, kept within]
    cases profile with
    | debug => exact follows_ok value
    | release => exact follows_ok value
  · rw [if_neg within, if_neg within]
    constructor
    · intro result same
      cases same
    · intro checked _
      rw [checked]

theorem word64_follows (value : Int) :
    Follows profile (check64 machine value) (profile.word64 value) := by
  apply word_follows
  intro fits
  have range : -2 ^ 63 ≤ value ∧ value < 2 ^ 63 := of_decide_eq_true fits
  apply Int.bmod_eq_of_le <;> omega

theorem word128_follows (value : Int) :
    Follows profile (check128 machine value) (profile.word128 value) := by
  apply word_follows
  intro fits
  have range : -2 ^ 127 ≤ value ∧ value < 2 ^ 127 := of_decide_eq_true fits
  apply Int.bmod_eq_of_le <;> omega

theorem quotient64_follows (left right : Int) :
    Follows profile (check64 machine (left.tdiv right)) (quotient64 left right) := by
  unfold check64 quotient64
  by_cases fits : machine.fits64 (left.tdiv right) = true
  · rw [if_pos fits, if_pos fits]
    exact follows_ok _
  · rw [if_neg fits, if_neg fits]
    constructor
    · intro result same
      cases same
    · intro _ _
      rfl

/-! ### Substitution -/

theorem scaledRun_follows (factor coeff unit : Int) :
    Follows profile (scaled machine factor coeff unit)
      (scaledRun profile factor coeff unit) := by
  apply follows_bind (word64_follows _)
  intro negated _
  apply follows_bind (quotient64_follows _ _)
  intro quotient _
  exact word64_follows _

theorem addTermRun_follows (key : String) (added : Int) (terms : List (String × Int)) :
    Follows profile (addTerm machine key added terms) (addTermRun profile key added terms) := by
  induction terms with
  | nil => exact follows_ok _
  | cons term rest ih =>
      unfold addTerm addTermRun
      by_cases same : term.1 = key
      · rw [if_pos same, if_pos same]
        apply follows_bind (word64_follows _)
        intro sum _
        exact follows_ok _
      · rw [if_neg same, if_neg same, Option.map_eq_bind]
        apply follows_bind ih
        intro later _
        exact follows_ok _

theorem addTermsRun_follows (variable_ : String × Int) (factor : Int)
    (definition : List (String × Int)) : ∀ terms : List (String × Int),
      Follows profile (addTerms machine variable_ factor definition terms)
        (addTermsRun profile variable_ factor definition terms) := by
  induction definition with
  | nil =>
      intro terms
      exact follows_ok terms
  | cons term rest ih =>
      intro terms
      unfold addTerms addTermsRun
      by_cases same : term.1 = variable_.1
      · rw [if_pos same, if_pos same]
        exact ih terms
      · rw [if_neg same, if_neg same]
        apply follows_bind (scaledRun_follows _ _ _)
        intro added _
        apply follows_bind (addTermRun_follows _ _ _)
        intro next _
        exact ih next

theorem substituteIntoRun_follows (definition : Linear) (variable_ : String × Int)
    (constraint : Constraint) :
    Follows profile (substituteInto machine definition variable_ constraint)
      (substituteIntoRun profile definition variable_ constraint) := by
  unfold substituteInto substituteIntoRun
  cases constraint.lin.terms.find? fun term => decide (term.1 = variable_.1) with
  | none => exact follows_ok _
  | some found =>
      apply follows_bind (addTermsRun_follows _ _ _ _)
      intro terms _
      apply follows_bind (scaledRun_follows _ _ _)
      intro added _
      apply follows_bind (word64_follows _)
      intro constant _
      exact follows_ok _

theorem mapM_follows {compute : A → Option B} {computeRun : A → Except Stop B}
    (each : ∀ input, Follows profile (compute input) (computeRun input)) (inputs : List A) :
    Follows profile (inputs.mapM compute) (inputs.mapM computeRun) := by
  induction inputs with
  | nil => exact follows_ok _
  | cons input rest ih =>
      rw [List.mapM_cons, List.mapM_cons]
      apply follows_bind (each input)
      intro first _
      apply follows_bind ih
      intro later _
      exact follows_ok _

theorem substituteRoundsRun_follows (rounds : Nat) : ∀ constraints : List Constraint,
    Follows profile (substituteRounds machine rounds constraints)
      (substituteRoundsRun profile rounds constraints) := by
  induction rounds with
  | zero =>
      intro constraints
      exact follows_ok constraints
  | succ rounds ih =>
      intro constraints
      unfold substituteRounds substituteRoundsRun
      cases takeDefinition constraints with
      | none => exact follows_ok constraints
      | some taken =>
          obtain ⟨definition, variable_, rest⟩ := taken
          apply follows_bind (mapM_follows (substituteIntoRun_follows definition variable_) rest)
          intro next _
          exact ih next

/-! ### Elimination -/

theorem negatedRun_follows (coeffs : OrdMap String Int) :
    Follows profile (negated machine coeffs) (negatedRun profile coeffs) := by
  unfold negated negatedRun
  by_cases fits : (coeffs.toList.all fun entry => machine.fits128 (-entry.2)) = true
  · rw [if_pos fits, if_pos fits]
    cases profile with
    | debug => exact follows_ok _
    | release =>
        have same : (coeffs.mapValues fun _ coeff => (-coeff).bmod (2 ^ 128)) =
            coeffs.mapValues fun _ coeff => -coeff := by
          apply OrdMap.mapValues_congr
          intro entry member
          have range : -2 ^ 127 ≤ -entry.2 ∧ -entry.2 < 2 ^ 127 :=
            of_decide_eq_true (List.all_eq_true.mp fits entry member)
          apply Int.bmod_eq_of_le <;> omega
        rw [same]
        exact follows_ok _
  · rw [if_neg fits, if_neg fits]
    constructor
    · intro result same
      cases same
    · intro checked _
      rw [checked]

theorem lowerOfRun_follows (name : String) (ineq : LinIneq) (coeff : Int) :
    Follows profile (lowerOf machine name ineq coeff) (lowerOfRun profile name ineq coeff) := by
  apply follows_bind (word128_follows _)
  intro factor _
  apply follows_bind (word128_follows _)
  intro bound _
  apply follows_bind (negatedRun_follows _)
  intro coeffs _
  exact follows_ok _

theorem lowersRun_follows (name : String) (ineqs : List LinIneq) :
    Follows profile (lowers machine name ineqs) (lowersRun profile name ineqs) := by
  induction ineqs with
  | nil => exact follows_ok _
  | cons ineq rest ih =>
      unfold lowers lowersRun
      cases ineq.coeffs.get? name with
      | none => exact ih
      | some coeff =>
          dsimp only
          by_cases negative : coeff < 0
          · rw [if_pos negative, if_pos negative]
            apply follows_bind (lowerOfRun_follows _ _ _)
            intro bound _
            apply follows_bind ih
            intro bounds _
            exact follows_ok _
          · rw [if_neg negative, if_neg negative]
            exact ih

theorem orUndecided_bind (answer : Option A) (next : A → Option B) :
    orUndecided (answer >>= next) =
      orUndecided answer >>= fun value => orUndecided (next value) := by
  cases answer with
  | none => rfl
  | some value => rfl

/-- No negation of the elimination leaves `i128`. -/
def NegationsFit : List String → List LinIneq → Prop
  | [], _ => True
  | name :: rest, ineqs =>
      (lowers machine name ineqs).isSome ∧
        ∀ next, eliminate machine name ineqs = some next → NegationsFit rest next

instance decidableNegationsFit (names : List String) :
    ∀ ineqs, Decidable (NegationsFit names ineqs) :=
  match names with
  | [] => fun _ => isTrue trivial
  | name :: rest => fun ineqs =>
      have _ := decidableNegationsFit rest
      inferInstanceAs (Decidable ((lowers machine name ineqs).isSome ∧
        ∀ next ∈ eliminate machine name ineqs, NegationsFit rest next))

theorem eliminateRun_eq {name : String} {ineqs : List LinIneq}
    (fits : (lowers machine name ineqs).isSome) :
    eliminateRun profile name ineqs = orUndecided (eliminate machine name ineqs) := by
  obtain ⟨below, computed⟩ := Option.isSome_iff_exists.mp fits
  unfold eliminateRun eliminate
  rw [computed, (lowersRun_follows name ineqs).answers below computed]
  simp only [Option.bind_eq_bind, Option.bind_some]
  rw [← Option.bind_eq_bind, orUndecided_bind]
  rfl

theorem eliminateAllRun_eq (names : List String) : ∀ {ineqs : List LinIneq},
    NegationsFit names ineqs →
      eliminateAllRun profile names ineqs = orUndecided (eliminateAll machine names ineqs) := by
  induction names with
  | nil =>
      intro ineqs _
      rfl
  | cons name rest ih =>
      intro ineqs fits
      unfold eliminateAllRun eliminateAll
      rw [eliminateRun_eq fits.1]
      cases computed : eliminate machine name ineqs with
      | none => rfl
      | some next => exact ih (fits.2 next computed)

theorem eliminateAllRun_panics (names : List String) : ∀ {ineqs : List LinIneq},
    ¬NegationsFit names ineqs → eliminateAllRun .debug names ineqs = .error .panicked := by
  induction names with
  | nil =>
      intro ineqs unfit
      exact absurd trivial unfit
  | cons name rest ih =>
      intro ineqs unfit
      unfold eliminateAllRun
      by_cases below : (lowers machine name ineqs).isSome = true
      · rw [eliminateRun_eq below]
        cases computed : eliminate machine name ineqs with
        | none =>
            refine absurd ⟨below, fun next same => ?_⟩ unfit
            rw [computed] at same
            cases same
        | some next =>
            refine ih fun later => unfit ⟨below, fun other same => ?_⟩
            rw [computed] at same
            rw [← Option.some.inj same]
            exact later
      · have trapped := (lowersRun_follows name ineqs : Follows .debug _ _).traps rfl
          (Option.not_isSome_iff_eq_none.mp below)
        unfold eliminateRun
        rw [trapped]
        rfl

/-! ## Variables that occur once in a constraint -/

def Constraint.Distinct (constraint : Constraint) : Prop :=
  (constraint.lin.terms.map Prod.fst).Nodup

theorem substituteRounds_keeps {values : String → ℚ} (rounds : Nat) :
    ∀ {constraints next : List Constraint},
      substituteRounds machine rounds constraints = some next →
      (∀ constraint ∈ constraints, constraint.Distinct) → Solves values constraints →
      (∀ constraint ∈ next, constraint.Distinct) ∧ Solves values next := by
  induction rounds with
  | zero =>
      intro constraints next run distinct solves
      cases Option.some.inj run
      exact ⟨distinct, solves⟩
  | succ rounds ih =>
      intro constraints next run distinct solves
      unfold substituteRounds at run
      cases found : takeDefinition constraints with
      | none =>
          rw [found] at run
          cases Option.some.inj run
          exact ⟨distinct, solves⟩
      | some taken =>
          obtain ⟨definition, variable_, rest⟩ := taken
          rw [found] at run
          obtain ⟨middle, roundRun, run⟩ := Option.bind_eq_some_iff.mp run
          obtain ⟨member, unit_, _, members⟩ := takeDefinition_some constraints found
          have inDefinition := (members ⟨definition, .eq⟩).mpr (Or.inl rfl)
          have zero : definition.value values = 0 := solves _ inDefinition
          have rewritten : ∀ after ∈ middle, after.Distinct ∧ after.Tightened values := by
            intro after inside
            obtain ⟨before, beforeInside, computed⟩ := (mem_of_mapM rest roundRun after).mp inside
            have listed := (members before).mpr (Or.inr beforeInside)
            have related := substituteInto_rewritten (distinct _ inDefinition) member unit_
              (distinct before listed) computed
            obtain ⟨factor, value⟩ := related.value
            refine ⟨related.distinct, (tightened_congr related.rel ?_).mpr (solves before listed)⟩
            rw [value, zero, mul_zero, add_zero]
          exact ih run (fun after inside => (rewritten after inside).1)
            fun after inside => (rewritten after inside).2

theorem eliminateAll_keeps {values : String → ℚ} (names : List String) :
    ∀ {ineqs final : List LinIneq}, eliminateAll machine names ineqs = some final →
      AllSat values ineqs → AllSat values final := by
  induction names with
  | nil =>
      intro ineqs final run sat
      cases Option.some.inj run
      exact sat
  | cons name rest ih =>
      intro ineqs final run sat
      obtain ⟨next, nextRun, run⟩ := Option.bind_eq_some_iff.mp run
      exact ih run (eliminate_keeps nextRun sat)

theorem unsatChecked_sound
    (distinct : ∀ constraint ∈ constraints, constraint.Distinct)
    (run : unsatChecked machine order constraints = some true) :
    ¬∃ values : String → Int, ∀ constraint ∈ constraints, constraint.Holds values := by
  rintro ⟨values, holds⟩
  obtain ⟨reduced, reducedRun, run⟩ := Option.bind_eq_some_iff.mp run
  obtain ⟨final, finalRun, run⟩ := Option.bind_eq_some_iff.mp run
  have solves : Solves (fun name => (values name : ℚ)) constraints :=
    fun constraint member => (holds constraint member).tightened
  obtain ⟨reducedDistinct, reducedSolves⟩ := substituteRounds_keeps _ reducedRun distinct solves
  have sat : AllSat (fun name => (values name : ℚ)) (toInequalities reduced) := by
    intro ineq member
    obtain ⟨constraint, inside, member⟩ := List.mem_flatMap.mp member
    exact (inequalities_sat_of_distinct _ (reducedDistinct constraint inside)).mpr
      (reducedSolves constraint inside) ineq member
  obtain ⟨ineq, member, contradiction_⟩ := List.any_eq_true.mp (Option.some.inj run)
  obtain ⟨constant, negative⟩ := Bool.and_eq_true_iff.mp contradiction_
  have satisfied := eliminateAll_keeps _ finalRun sat ineq member
  unfold LinIneq.Sat at satisfied
  rw [List.isEmpty_iff.mp constant, formValue_nil] at satisfied
  have nonneg : 0 ≤ ineq.c := by exact_mod_cast satisfied
  have below : ineq.c < 0 := of_decide_eq_true negative
  omega

/-! ## Which systems are answered conservatively -/

/-- In no build does the solver panic or refute a system with an integer solution, and
what does not fit leaves it undecided. -/
def Conservative (order : VariableOrder) (constraints : List Constraint) : Prop :=
  ∀ profile, unsatCheckedRun profile order constraints ≠ .error .panicked ∧
    (unsatCheckedRun profile order constraints = .ok true →
      ¬∃ values : String → Int, ∀ constraint ∈ constraints, constraint.Holds values) ∧
    (unsatChecked machine order constraints = none →
      unsatCheckedRun profile order constraints = .error .undecided)

/-- The substitution stays within `i64` and the negations of the elimination within `i128`. -/
def UncheckedFit (order : VariableOrder) (constraints : List Constraint) : Prop :=
  ∃ reduced, equalitySubstitute machine constraints = some reduced ∧
    NegationsFit (order.list (toInequalities reduced)) (toInequalities reduced)

instance decidableUncheckedFit (order : VariableOrder) (constraints : List Constraint) :
    Decidable (UncheckedFit order constraints) :=
  inferInstanceAs (Decidable (∃ reduced ∈ equalitySubstitute machine constraints,
    NegationsFit (order.list (toInequalities reduced)) (toInequalities reduced)))

theorem unsatCheckedRun_eq
    (fits : UncheckedFit order constraints) :
    unsatCheckedRun profile order constraints =
      orUndecided (unsatChecked machine order constraints) := by
  obtain ⟨reduced, reducedRun, negations⟩ := fits
  unfold unsatCheckedRun unsatChecked equalitySubstituteRun
  rw [reducedRun, (substituteRoundsRun_follows _ _).answers reduced reducedRun]
  change (eliminateAllRun _ _ _ >>= _) = _
  rw [eliminateAllRun_eq _ negations]
  simp only [Option.bind_eq_bind, Option.bind_some]
  rw [← Option.bind_eq_bind, orUndecided_bind]
  rfl

theorem unsatCheckedRun_panics
    (unfit : ¬UncheckedFit order constraints) :
    unsatCheckedRun .debug order constraints = .error .panicked := by
  have follows : Follows .debug _ _ :=
    substituteRoundsRun_follows constraints.length constraints
  unfold unsatCheckedRun equalitySubstituteRun
  cases reducedRun : equalitySubstitute machine constraints with
  | none =>
      rw [follows.traps rfl reducedRun]
      rfl
  | some reduced =>
      rw [follows.answers reduced reducedRun]
      change (eliminateAllRun _ _ _ >>= _) = _
      rw [eliminateAllRun_panics _ fun negations => unfit ⟨reduced, reducedRun, negations⟩]
      rfl

/-- Conservative answers need that nothing unchecked overflows, and where no constraint
lists a variable twice that is all they need. -/
theorem conservative_of_unchecked_fit (order : VariableOrder) (constraints : List Constraint) :
    (Conservative order constraints → UncheckedFit order constraints) ∧
      ((∀ constraint ∈ constraints, constraint.Distinct) → UncheckedFit order constraints →
        Conservative order constraints) := by
  constructor
  · intro conservative
    by_contra unfit
    exact (conservative .debug).1 (unsatCheckedRun_panics unfit)
  · intro distinct fits profile
    rw [unsatCheckedRun_eq fits]
    cases answer : unsatChecked machine order constraints with
    | none =>
        refine ⟨?_, ?_, fun _ => rfl⟩
        · intro same
          cases same
        · intro same
          cases same
    | some answered =>
        refine ⟨?_, ?_, ?_⟩
        · intro same
          cases same
        · intro same
          cases same
          exact unsatChecked_sound distinct answer
        · intro same
          cases same

theorem one_to_zero_is_conservative : Conservative scanOrder oneToZero := by
  have distinct : ∀ constraint ∈ oneToZero, constraint.Distinct := by
    unfold Constraint.Distinct
    decide
  have reduced : equalitySubstitute machine oneToZero =
      some [⟨⟨[("x", 1)], -1⟩, .ge⟩, ⟨⟨[("x", 1)], 0⟩, .le⟩] := by decide +kernel
  exact (conservative_of_unchecked_fit scanOrder oneToZero).2 distinct
    ⟨_, reduced, by decide +kernel⟩

/-- `x == 2^62` and `4 * x >= 1`: four times `2^62` wraps to zero. -/
def wrapsToZero : List Constraint :=
  [⟨⟨[("x", 1)], -2 ^ 62⟩, .eq⟩, ⟨⟨[("x", 4)], -1⟩, .ge⟩]

theorem wraps_to_zero_is_refuted :
    unsatCheckedRun .release scanOrder wrapsToZero = .ok true ∧
      unsatCheckedRun .debug scanOrder wrapsToZero = .error .panicked ∧
      (∀ constraint ∈ wrapsToZero, constraint.Holds fun _ => 2 ^ 62) ∧
      ¬Conservative scanOrder wrapsToZero := by
  have refuted : unsatCheckedRun .release scanOrder wrapsToZero = .ok true := by decide +kernel
  have solved : ∀ constraint ∈ wrapsToZero, constraint.Holds fun _ => 2 ^ 62 := by
    intro constraint member
    rcases List.mem_cons.mp member with rfl | member
    · change (_ : Int) = 0
      decide
    · rw [List.mem_singleton.mp member]
      change (0 : Int) ≤ _
      decide
  refine ⟨refuted, by decide +kernel, solved, fun conservative => ?_⟩
  exact (conservative .release).2.1 refuted ⟨_, solved⟩

end Pantheon.Telos
