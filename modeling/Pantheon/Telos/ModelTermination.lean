import Mathlib
import Pantheon.Telos.ModelSearch

/-!
# Where the recursion of `solve_model` ends

An inequality in which the variable has the coefficient zero is passed on as it stands.  When
the variable was taken from such an inequality it is taken again in every later call; otherwise
each call leaves one variable fewer with a coefficient other than zero.
-/

set_option autoImplicit false

namespace Pantheon.Telos

open Pantheon.Lib

variable {profile : Profile} {order : KeyOrder}

variable {name : String} {ineqs : List LinIneq} {ineq : LinIneq}

theorem solveModel_next {next : List LinIneq}
    (taken : (vars order ineqs).head? = some name)
    (run : nextIneqs profile name ineqs = .ok next) (calls : Nat) :
    solveModel profile order (calls + 1) ineqs =
      (solveModel profile order calls next).map fun answer =>
        answer >>= extend profile order name ineqs := by
  rw [solveModel, taken]
  simp only [run]

theorem solveModel_stop {stop : Stop}
    (taken : (vars order ineqs).head? = some name)
    (run : nextIneqs profile name ineqs = .error stop) (calls : Nat) :
    solveModel profile order (calls + 1) ineqs = some (.error stop) := by
  rw [solveModel, taken]
  simp only [run]

/-! ## The variable of a call -/

def firstWithVariables (ineqs : List LinIneq) : Option LinIneq :=
  ineqs.find? fun ineq => !ineq.coeffs.toList.isEmpty

theorem head?_pushNew (keys : List String) : ∀ vars : List String,
    (keys.foldl pushNew vars).head? = (vars ++ keys).head? := by
  induction keys with
  | nil =>
      intro vars
      rw [List.append_nil]
      rfl
  | cons key rest ih =>
      intro vars
      rw [List.foldl_cons, ih]
      unfold pushNew
      by_cases known : key ∈ vars
      · obtain ⟨first, others, rfl⟩ := List.exists_cons_of_ne_nil (List.ne_nil_of_mem known)
        rw [if_pos known]
        rfl
      · rw [if_neg known, List.append_assoc]
        rfl

theorem keys_eq_nil {coeffs : OrdMap String Int} :
    order.keys coeffs = [] ↔ coeffs.toList = [] := by
  rw [← List.length_eq_zero_iff, (order.perm coeffs).length_eq, List.length_map,
    List.length_eq_zero_iff]

theorem head?_vars (ineqs : List LinIneq) :
    (vars order ineqs).head? =
      (firstWithVariables ineqs).bind fun ineq => (order.keys ineq.coeffs).head? := by
  unfold vars
  rw [head?_pushNew, List.nil_append]
  induction ineqs with
  | nil => rfl
  | cons ineq rest ih =>
      rw [List.flatMap_cons, firstWithVariables, List.find?_cons]
      by_cases bare : ineq.coeffs.toList = []
      · rw [keys_eq_nil.mpr bare, List.nil_append, ih, bare]
        rfl
      · have some_ : order.keys ineq.coeffs ≠ [] := fun none => bare (keys_eq_nil.mp none)
        obtain ⟨key, keys, form⟩ := List.exists_cons_of_ne_nil some_
        rw [List.isEmpty_eq_false_iff.mpr bare, form]
        simp [form]

/-- The call on these inequalities takes its variable from one where the coefficient is zero. -/
def TakesZero (order : KeyOrder) (name : String) (ineqs : List LinIneq) : Prop :=
  ∃ ineq, firstWithVariables ineqs = some ineq ∧ (order.keys ineq.coeffs).head? = some name ∧
    coefficient ineq.coeffs name = 0

/-- Some call of the recursion takes its variable from an inequality where the coefficient is
zero, and goes on. -/
inductive ReachesZero (profile : Profile) (order : KeyOrder) : List LinIneq → Prop
  | here {name : String} {ineqs next : List LinIneq} :
      TakesZero order name ineqs → nextIneqs profile name ineqs = .ok next →
      ReachesZero profile order ineqs
  | later {name : String} {ineqs next : List LinIneq} :
      (vars order ineqs).head? = some name → nextIneqs profile name ineqs = .ok next →
      ReachesZero profile order next → ReachesZero profile order ineqs

/-! ## The next call -/

theorem word128_zero : profile.word128 0 = .ok 0 := by
  cases profile <;> rfl

theorem crossedRun_zero (upper lower : Int) : crossedRun profile upper 0 lower 0 = .ok 0 := by
  unfold crossedRun
  rw [mul_zero, mul_zero, word128_zero]
  exact word128_zero

theorem bind_ok {A B : Type} {run : Except Stop A} {next : A → Except Stop B} {result : B}
    (ended : run >>= next = .ok result) : ∃ value, run = .ok value ∧ next value = .ok result := by
  cases run with
  | error stop => cases ended
  | ok value => exact ⟨value, rfl, ended⟩

theorem combineKeysRun_coefficient {upper lower : Bound} (keys : List String) :
    ∀ {coeffs next : OrdMap String Int},
      combineKeysRun profile upper lower keys coeffs = .ok next →
      ∀ entry ∈ next.toList, entry ∈ coeffs.toList ∨ entry.2 ≠ 0 ∧
        crossedRun profile upper.factor (coefficient lower.coeffs entry.1) lower.factor
          (coefficient upper.coeffs entry.1) = .ok entry.2 := by
  induction keys with
  | nil =>
      intro coeffs next run entry member
      cases run
      exact Or.inl member
  | cons key rest ih =>
      intro coeffs next run entry member
      obtain ⟨coeff, crossed, run⟩ := bind_ok run
      rcases ih run entry member with old | found
      · by_cases zero : coeff = 0
        · rw [if_neg (not_not.mpr zero)] at old
          exact Or.inl old
        · rw [if_pos zero] at old
          rcases (OrdMap.mem_insert _ _ _ _).mp old with rfl | ⟨old, _⟩
          · exact Or.inr ⟨zero, crossed⟩
          · exact Or.inl old
      · exact Or.inr found

theorem coefficient_erase (coeffs : OrdMap String Int) (name key : String) :
    coefficient (coeffs.erase name) key = if key = name then 0 else coefficient coeffs key := by
  unfold coefficient
  rw [OrdMap.get?_erase]
  split_ifs <;> rfl

theorem mem_uppers_iff {upper : Bound} :
    upper ∈ uppers name ineqs ↔ ∃ ineq ∈ ineqs, 0 < coefficient ineq.coeffs name ∧
      upper = ⟨coefficient ineq.coeffs name, ineq.c, ineq.coeffs.erase name⟩ := by
  unfold uppers coefficient
  rw [List.mem_filterMap]
  refine exists_congr fun ineq => and_congr_right fun _ => ?_
  cases ineq.coeffs.get? name with
  | none => simp
  | some coeff => simp [eq_comm]

theorem mem_modelLowers_iff {lower : Bound} :
    lower ∈ modelLowers name ineqs ↔ ∃ ineq ∈ ineqs, coefficient ineq.coeffs name < 0 ∧
      lower = ⟨coefficient ineq.coeffs name, ineq.c, ineq.coeffs.erase name⟩ := by
  unfold modelLowers coefficient
  rw [List.mem_filterMap]
  refine exists_congr fun ineq => and_congr_right fun _ => ?_
  cases ineq.coeffs.get? name with
  | none => simp
  | some coeff => simp [eq_comm]

theorem mem_of_mapM_ok {A B : Type} {compute : A → Except Stop B} (inputs : List A) :
    ∀ {outputs : List B}, inputs.mapM compute = .ok outputs →
      ∀ output ∈ outputs, ∃ input ∈ inputs, compute input = .ok output := by
  induction inputs with
  | nil =>
      intro outputs run output member
      cases run
      cases member
  | cons input rest ih =>
      intro outputs run output member
      rw [List.mapM_cons] at run
      obtain ⟨first, computed, run⟩ := bind_ok run
      obtain ⟨later, restRun, run⟩ := bind_ok run
      cases run
      rcases List.mem_cons.mp member with rfl | member
      · exact ⟨input, List.mem_cons_self, computed⟩
      · obtain ⟨found, inside, made⟩ := ih restRun output member
        exact ⟨found, List.mem_cons_of_mem _ inside, made⟩

theorem nextIneqs_source {next : List LinIneq}
    (run : nextIneqs profile name ineqs = .ok next) (member : ineq ∈ next) :
    (ineq ∈ ineqs ∧ coefficient ineq.coeffs name = 0) ∨
      ∃ above ∈ ineqs, ∃ below ∈ ineqs, ∀ entry ∈ ineq.coeffs.toList, entry.2 ≠ 0 ∧
        crossedRun profile (coefficient above.coeffs name)
          (coefficient (below.coeffs.erase name) entry.1) (coefficient below.coeffs name)
          (coefficient (above.coeffs.erase name) entry.1) = .ok entry.2 := by
  obtain ⟨combined, combinedRun, run⟩ := bind_ok run
  cases run
  rcases List.mem_append.mp member with kept | made
  · have found := List.mem_filter.mp kept
    exact Or.inl ⟨found.1, of_decide_eq_true found.2⟩
  · right
    obtain ⟨pair, inside, made⟩ := mem_of_mapM_ok _ combinedRun ineq made
    obtain ⟨upper, upperIn, inside⟩ := List.mem_flatMap.mp inside
    obtain ⟨lower, lowerIn, rfl⟩ := List.mem_map.mp inside
    obtain ⟨above, aboveIn, -, rfl⟩ := mem_uppers_iff.mp upperIn
    obtain ⟨below, belowIn, -, rfl⟩ := mem_modelLowers_iff.mp lowerIn
    obtain ⟨coeffs, coeffsRun, made⟩ := bind_ok made
    obtain ⟨c, -, made⟩ := bind_ok made
    cases made
    refine ⟨above, aboveIn, below, belowIn, fun entry held => ?_⟩
    exact (combineKeysRun_coefficient _ coeffsRun entry held).resolve_left (by simp)

theorem nextIneqs_entry {next : List LinIneq}
    (run : nextIneqs profile name ineqs = .ok next) (member : ineq ∈ next) :
    (ineq ∈ ineqs ∧ coefficient ineq.coeffs name = 0) ∨
      ∀ entry ∈ ineq.coeffs.toList, entry.2 ≠ 0 ∧ entry.1 ≠ name ∧
        ∃ before ∈ ineqs, coefficient before.coeffs entry.1 ≠ 0 := by
  refine (nextIneqs_source run member).imp_right ?_
  rintro ⟨above, aboveIn, below, belowIn, made⟩ entry held
  obtain ⟨nonzero, crossed⟩ := made entry held
  have apart : ∀ value : Int, crossedRun profile (coefficient above.coeffs name) 0
      (coefficient below.coeffs name) 0 = .ok value → value = 0 := by
    intro value zero
    rw [crossedRun_zero] at zero
    exact (Except.ok.inj zero).symm
  rw [coefficient_erase, coefficient_erase] at crossed
  by_cases same : entry.1 = name
  · rw [if_pos same, if_pos same] at crossed
    exact absurd (apart _ crossed) nonzero
  · rw [if_neg same, if_neg same] at crossed
    refine ⟨nonzero, same, ?_⟩
    by_contra absent
    push Not at absent
    rw [absent above aboveIn, absent below belowIn] at crossed
    exact nonzero (apart _ crossed)

theorem coefficient_ne_zero {coeffs : OrdMap String Int} :
    coefficient coeffs name ≠ 0 ↔ ∃ entry ∈ coeffs.toList, entry.1 = name ∧ entry.2 ≠ 0 := by
  unfold coefficient
  cases found : coeffs.get? name with
  | none =>
      refine iff_of_false (by simp) ?_
      rintro ⟨entry, member, same, -⟩
      exact (OrdMap.get?_eq_none _ _).mp found entry member same
  | some coeff =>
      have held := (OrdMap.get?_eq_some _ _ _).mp found
      constructor
      · intro nonzero
        exact ⟨_, held, rfl, nonzero⟩
      · rintro ⟨entry, member, same, nonzero⟩
        rw [coeffs.key_unique entry _ member held same] at nonzero
        exact nonzero

/-! ## A variable taken where it is zero -/

/-- The call takes this variable, and its coefficient is zero throughout. -/
structure Stuck (order : KeyOrder) (name : String) (ineqs : List LinIneq) : Prop where
  taken : (vars order ineqs).head? = some name
  zero : ∀ ineq ∈ ineqs, coefficient ineq.coeffs name = 0

theorem Stuck.next (stuck : Stuck order name ineqs) :
    nextIneqs profile name ineqs = .ok ineqs := by
  have above : uppers name ineqs = [] := by
    refine List.eq_nil_iff_forall_not_mem.mpr fun upper member => ?_
    obtain ⟨ineq, inside, positive, -⟩ := mem_uppers_iff.mp member
    rw [stuck.zero ineq inside] at positive
    exact absurd positive (lt_irrefl 0)
  have kept : others name ineqs = ineqs :=
    List.filter_eq_self.mpr fun ineq member => decide_eq_true (stuck.zero ineq member)
  unfold nextIneqs
  rw [above, kept]
  change Except.ok (ineqs ++ []) = _
  rw [List.append_nil]

theorem Stuck.never_ends
    (stuck : Stuck order name ineqs) (calls : Nat) :
    solveModel profile order calls ineqs = none := by
  induction calls with
  | zero => rfl
  | succ calls ih =>
      rw [solveModel_next stuck.taken stuck.next, ih]
      rfl

theorem firstWithVariables_filter {keep : LinIneq → Bool}
    (first : firstWithVariables ineqs = some ineq) (kept : keep ineq = true)
    (bare : ∀ other : LinIneq, other.coeffs.toList = [] → keep other = true) :
    firstWithVariables (ineqs.filter keep) = some ineq := by
  unfold firstWithVariables at first ⊢
  induction ineqs with
  | nil => cases first
  | cons head rest ih =>
      rw [List.find?_cons] at first
      cases empty : head.coeffs.toList.isEmpty with
      | true =>
          rw [empty] at first
          rw [List.filter_cons, if_pos (bare head (List.isEmpty_iff.mp empty)), List.find?_cons,
            empty]
          exact ih first
      | false =>
          rw [empty] at first
          cases first
          rw [List.filter_cons, if_pos kept, List.find?_cons, empty]
          rfl

theorem TakesZero.taken
    (zero : TakesZero order name ineqs) : (vars order ineqs).head? = some name := by
  obtain ⟨ineq, first, key, -⟩ := zero
  rw [head?_vars, first]
  exact key

theorem TakesZero.stuck {next : List LinIneq}
    (zero : TakesZero order name ineqs) (run : nextIneqs profile name ineqs = .ok next) :
    Stuck order name next := by
  obtain ⟨ineq, first, key, coeff⟩ := zero
  constructor
  · obtain ⟨combined, -, run⟩ := bind_ok run
    cases run
    have still : firstWithVariables (others name ineqs) = some ineq := by
      refine firstWithVariables_filter first (decide_eq_true coeff) fun other bare => ?_
      refine decide_eq_true (?_ : coefficient other.coeffs name = 0)
      by_contra nonzero
      obtain ⟨entry, member, -⟩ := coefficient_ne_zero.mp nonzero
      rw [bare] at member
      cases member
    have front : firstWithVariables (others name ineqs ++ combined) = some ineq := by
      unfold firstWithVariables at still ⊢
      rw [List.find?_append, still]
      rfl
    rw [head?_vars, front]
    exact key
  · intro other member
    rcases nextIneqs_entry run member with ⟨-, zero⟩ | made
    · exact zero
    · by_contra nonzero
      obtain ⟨entry, inside, same, -⟩ := coefficient_ne_zero.mp nonzero
      exact (made entry inside).2.1 same

theorem ReachesZero.never_ends
    (reaches : ReachesZero profile order ineqs) : ∀ calls : Nat,
      solveModel profile order calls ineqs = none := by
  induction reaches with
  | here zero run =>
      intro calls
      cases calls with
      | zero => rfl
      | succ calls =>
          rw [solveModel_next zero.taken run, (zero.stuck run).never_ends]
          rfl
  | later taken run _ ih =>
      intro calls
      cases calls with
      | zero => rfl
      | succ calls =>
          rw [solveModel_next taken run, ih]
          rfl

/-! ## The variables left -/

def activeVars (ineqs : List LinIneq) : Finset String :=
  (ineqs.flatMap fun ineq =>
    (ineq.coeffs.toList.filter fun entry => decide (entry.2 ≠ 0)).map Prod.fst).toFinset

theorem mem_activeVars :
    name ∈ activeVars ineqs ↔ ∃ ineq ∈ ineqs, coefficient ineq.coeffs name ≠ 0 := by
  unfold activeVars
  rw [List.mem_toFinset, List.mem_flatMap]
  refine exists_congr fun ineq => and_congr_right fun _ => ?_
  rw [coefficient_ne_zero, List.mem_map]
  refine exists_congr fun entry => ?_
  rw [List.mem_filter, decide_eq_true_eq]
  tauto

theorem activeVars_next {next : List LinIneq}
    (taken : (vars order ineqs).head? = some name)
    (run : nextIneqs profile name ineqs = .ok next) (nonzero : ¬TakesZero order name ineqs) :
    (activeVars next).card < (activeVars ineqs).card := by
  refine Finset.card_lt_card (Finset.ssubset_iff_subset_ne.mpr ⟨fun key member => ?_, ?_⟩)
  · obtain ⟨ineq, inside, coeff⟩ := mem_activeVars.mp member
    rcases nextIneqs_entry run inside with ⟨old, -⟩ | made
    · exact mem_activeVars.mpr ⟨ineq, old, coeff⟩
    · obtain ⟨entry, held, rfl, -⟩ := coefficient_ne_zero.mp coeff
      exact mem_activeVars.mpr (made entry held).2.2
  · intro same
    rw [head?_vars] at taken
    obtain ⟨ineq, first, key⟩ := Option.bind_eq_some_iff.mp taken
    have active : name ∈ activeVars ineqs :=
      mem_activeVars.mpr ⟨ineq, List.mem_of_find?_eq_some first, fun zero =>
        nonzero ⟨ineq, first, key, zero⟩⟩
    rw [← same] at active
    obtain ⟨other, inside, coeff⟩ := mem_activeVars.mp active
    rcases nextIneqs_entry run inside with ⟨-, zero⟩ | made
    · exact coeff zero
    · obtain ⟨entry, held, sameName, -⟩ := coefficient_ne_zero.mp coeff
      exact (made entry held).2.1 sameName

theorem ends_of_not_reachesZero (left : Nat) : ∀ {ineqs : List LinIneq},
    (activeVars ineqs).card < left → ¬ReachesZero profile order ineqs →
      (solveModel profile order left ineqs).isSome := by
  induction left with
  | zero =>
      intro ineqs few _
      exact absurd few (Nat.not_lt_zero _)
  | succ left ih =>
      intro ineqs few clean
      cases taken : (vars order ineqs).head? with
      | none =>
          unfold solveModel
          rw [taken]
          rfl
      | some name =>
          cases run : nextIneqs profile name ineqs with
          | error stop =>
              rw [solveModel_stop taken run]
              rfl
          | ok next =>
              have fewer := activeVars_next taken run fun zero => clean (.here zero run)
              have ends := ih (by omega) fun reaches => clean (.later taken run reaches)
              rw [solveModel_next taken run, Option.isSome_map]
              exact ends

/-! ## The claim of termination -/

def NoZeroTerms (constraints : List Constraint) : Prop :=
  ∀ constraint ∈ constraints, ∀ term ∈ constraint.lin.terms, term.2 ≠ 0

theorem not_takesZero (nonzero : AllNonzero ineqs) :
    ¬TakesZero order name ineqs := by
  rintro ⟨ineq, first, key, zero⟩
  have inside := List.mem_of_find?_eq_some first
  have listed := (order.perm ineq.coeffs).mem_iff.mp (List.mem_of_mem_head? key)
  obtain ⟨entry, held, rfl⟩ := List.mem_map.mp listed
  exact coefficient_ne_zero.mpr ⟨entry, held, rfl, nonzero ineq inside entry held⟩ zero

theorem not_reachesZero (nonzero : AllNonzero ineqs) :
    ¬ReachesZero profile order ineqs := by
  intro reaches
  induction reaches with
  | here zero _ => exact not_takesZero nonzero zero
  | later _ run _ ih =>
      refine ih fun ineq member entry held => ?_
      rcases nextIneqs_entry run member with ⟨old, -⟩ | made
      · exact nonzero ineq old entry held
      · exact (made entry held).1

theorem toInequalities_allNonzero {constraints : List Constraint}
    (nonzero : NoZeroTerms constraints) : AllNonzero (toInequalities constraints) := by
  intro ineq member
  obtain ⟨constraint, inside, member⟩ := List.mem_flatMap.mp member
  exact inequalities_nonzero (nonzero constraint inside) ineq member

/-- The recursion ends exactly when no call takes its variable from an inequality where the
coefficient is zero, and so it ends on constraints without zero coefficients. -/
theorem solve_model_ends_iff (profile : Profile) (order : KeyOrder)
    (constraints : List Constraint) :
    ((∃ calls, (modelOf profile order calls constraints).isSome) ↔
      ¬ReachesZero profile order (toInequalities constraints)) ∧
    (NoZeroTerms constraints → ∃ calls, (modelOf profile order calls constraints).isSome) := by
  have ends : (∃ calls, (modelOf profile order calls constraints).isSome) ↔
      ¬ReachesZero profile order (toInequalities constraints) := by
    constructor
    · rintro ⟨calls, ended⟩ reaches
      rw [modelOf, reaches.never_ends] at ended
      cases ended
    · intro clean
      exact ⟨_, ends_of_not_reachesZero _ (Nat.lt_succ_self _) clean⟩
  refine ⟨ends, fun nonzero => ends.mpr (not_reachesZero (toInequalities_allNonzero nonzero))⟩

def nameOrder : KeyOrder where
  keys coeffs := coeffs.toList.map Prod.fst
  perm _ := List.Perm.refl _

/-- `0 * x >= 0`, with the terms that `scale(0)` leaves. -/
theorem scaled_by_zero_never_ends :
    ∃ lin, (Linear.ofVar "x").scale 0 = some lin ∧
      ∀ profile calls, modelOf profile nameOrder calls [⟨lin, .ge⟩] = none := by
  refine ⟨⟨[("x", 0)], 0⟩, rfl, fun profile calls => ?_⟩
  refine Stuck.never_ends (⟨rfl, ?_⟩ : Stuck nameOrder "x" _) calls
  intro ineq member
  obtain rfl := List.mem_singleton.mp member
  rfl

end Pantheon.Telos
