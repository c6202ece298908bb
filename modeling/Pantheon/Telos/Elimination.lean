import Mathlib
import Pantheon.Telos.Substitution

/-!
# The answer of the solver is exact

Eliminating a variable keeps whether the system has a solution: every pair of an
upper and a lower bound becomes an inequality without it.  When no variable is
left an inequality is a comparison of constants.
-/

set_option autoImplicit false

namespace Pantheon.Telos

open Pantheon.Lib

variable {widths : Widths}

variable {terms : List (String × Int)} {constraint : Constraint} {constraints : List Constraint}
  {name key : String} {ineq : LinIneq} {lower upper : Bound} {ineqs next : List LinIneq}

/-! ## Constraints as inequalities -/

def LinIneq.Sat (values : String → ℚ) (ineq : LinIneq) : Prop :=
  formValue values ineq.coeffs.toList ≤ ineq.c

def LinIneq.Nonzero (ineq : LinIneq) : Prop := ∀ entry ∈ ineq.coeffs.toList, entry.2 ≠ 0

def LinIneq.Mentions (ineq : LinIneq) (name : String) : Prop := (ineq.coeffs.get? name).isSome

def AllSat (values : String → ℚ) (ineqs : List LinIneq) : Prop := ∀ ineq ∈ ineqs, ineq.Sat values

def AllNonzero (ineqs : List LinIneq) : Prop := ∀ ineq ∈ ineqs, ineq.Nonzero

theorem collect_append_single (terms : List (String × Int)) (term : String × Int) :
    collect (terms ++ [term]) = (collect terms).insert term.1 term.2 :=
  List.foldl_concat _ _ _ _

theorem mem_collect {entry : String × Int}
    (member : entry ∈ (collect terms).toList) : entry ∈ terms := by
  induction terms using List.reverseRecOn with
  | nil => cases member
  | append_singleton terms term ih =>
      rw [collect_append_single, OrdMap.mem_insert] at member
      rcases member with rfl | ⟨member, _⟩
      · exact List.mem_append_right _ List.mem_cons_self
      · exact List.mem_append_left _ (ih member)

theorem formValue_collect (values : String → ℚ)
    (distinct : (terms.map Prod.fst).Nodup) :
    formValue values (collect terms).toList = formValue values terms := by
  induction terms using List.reverseRecOn with
  | nil => rfl
  | append_singleton terms term ih =>
      rw [List.map_append, List.map_singleton] at distinct
      obtain ⟨before, _, apart⟩ := List.nodup_append.mp distinct
      have fresh : (collect terms).get? term.1 = none := by
        refine (OrdMap.get?_eq_none _ _).mpr fun entry member same => ?_
        exact apart entry.1 (List.mem_map.mpr ⟨entry, mem_collect member, rfl⟩) term.1
          List.mem_cons_self same
      rw [collect_append_single, formValue_insert values _ _ fresh, ih before, formValue_append,
        formValue_cons, formValue_nil]
      ring

theorem formValue_negTerms (values : String → ℚ)
    (distinct : (terms.map Prod.fst).Nodup) :
    formValue values (negTerms terms).toList = -formValue values terms := by
  have sameKeys : ((terms.map fun term => (term.1, -term.2)).map Prod.fst) =
      terms.map Prod.fst := by
    rw [List.map_map]
    rfl
  unfold negTerms
  rw [formValue_collect values (sameKeys ▸ distinct), formValue_neg]

theorem inequalities_sat_of_distinct (values : String → ℚ)
    (distinct : (constraint.lin.terms.map Prod.fst).Nodup) :
    AllSat values constraint.inequalities ↔ constraint.Tightened values := by
  obtain ⟨lin, rel⟩ := constraint
  have base := formValue_collect values distinct
  have negated := formValue_negTerms values distinct
  unfold AllSat Constraint.inequalities Constraint.Tightened Linear.value
  cases rel with
  | le | lt =>
      simp only [List.forall_mem_singleton, LinIneq.Sat, base]
      push_cast
      exact ⟨fun holds => by linarith, fun holds => by linarith⟩
  | ge =>
      simp only [List.forall_mem_singleton, LinIneq.Sat, negated]
      exact ⟨fun holds => by linarith, fun holds => by linarith⟩
  | gt =>
      simp only [List.forall_mem_singleton, LinIneq.Sat, negated]
      push_cast
      exact ⟨fun holds => by linarith, fun holds => by linarith⟩
  | eq =>
      simp only [List.forall_mem_cons, LinIneq.Sat, base, negated]
      push_cast
      constructor
      · rintro ⟨above, below, _⟩
        linarith
      · intro holds
        exact ⟨by linarith, by linarith, fun ineq member => by cases member⟩
  | ne => simp

theorem inequalities_sat (values : String → ℚ)
    (wellFormed : WellFormed constraint.lin.terms) :
    AllSat values constraint.inequalities ↔ constraint.Tightened values :=
  inequalities_sat_of_distinct values wellFormed.distinct

/-- The coefficients of the inequalities are those of the constraint, some with the other sign. -/
theorem mem_inequalities {ineq : LinIneq} (member : ineq ∈ constraint.inequalities)
    {entry : String × Int} (held : entry ∈ ineq.coeffs.toList) :
    ∃ term ∈ constraint.lin.terms, entry.2 = term.2 ∨ entry.2 = -term.2 := by
  have base : entry ∈ (collect constraint.lin.terms).toList →
      ∃ term ∈ constraint.lin.terms, entry.2 = term.2 ∨ entry.2 = -term.2 :=
    fun inside => ⟨entry, mem_collect inside, Or.inl rfl⟩
  have negated : entry ∈ (negTerms constraint.lin.terms).toList →
      ∃ term ∈ constraint.lin.terms, entry.2 = term.2 ∨ entry.2 = -term.2 := by
    intro inside
    obtain ⟨term, listed, rfl⟩ := List.mem_map.mp (mem_collect inside)
    exact ⟨term, listed, Or.inr rfl⟩
  unfold Constraint.inequalities at member
  cases rel : constraint.rel <;> rw [rel] at member <;>
    simp only [List.mem_cons, List.not_mem_nil, or_false] at member
  · subst member
    exact base held
  · subst member
    exact base held
  · subst member
    exact negated held
  · subst member
    exact negated held
  · rcases member with rfl | rfl
    · exact base held
    · exact negated held

theorem inequalities_nonzero
    (nonzero : ∀ term ∈ constraint.lin.terms, term.2 ≠ 0) :
    AllNonzero constraint.inequalities := by
  intro ineq member entry held
  obtain ⟨term, inside, same | same⟩ := mem_inequalities member held
  · rw [same]
    exact nonzero term inside
  · rw [same]
    exact neg_ne_zero.mpr (nonzero term inside)

theorem toInequalities_sat (values : String → ℚ)
    (wellFormed : AllWellFormed constraints) :
    AllSat values (toInequalities constraints) ↔ Solves values constraints := by
  unfold toInequalities AllSat Solves
  simp only [List.mem_flatMap]
  constructor
  · intro sat constraint inside
    rw [← inequalities_sat values (wellFormed constraint inside)]
    exact fun ineq member => sat ineq ⟨constraint, inside, member⟩
  · rintro solves ineq ⟨constraint, inside, member⟩
    exact (inequalities_sat values (wellFormed constraint inside)).mpr (solves constraint inside)
      ineq member

theorem toInequalities_nonzero
    (wellFormed : AllWellFormed constraints) : AllNonzero (toInequalities constraints) := by
  intro ineq member
  obtain ⟨constraint, inside, member⟩ := List.mem_flatMap.mp member
  exact inequalities_nonzero (wellFormed constraint inside).nonzero ineq member

/-! ## Bounds of a variable -/

def IsUpper (name : String) (ineq : LinIneq) (upper : Bound) : Prop :=
  ∃ coeff, ineq.coeffs.get? name = some coeff ∧ 0 < coeff ∧
    upper = ⟨coeff, ineq.c, ineq.coeffs.erase name⟩

def IsLower (name : String) (ineq : LinIneq) (lower : Bound) : Prop :=
  ∃ coeff, ineq.coeffs.get? name = some coeff ∧ coeff < 0 ∧
    lower = ⟨-coeff, -ineq.c, (ineq.coeffs.erase name).mapValues fun _ value => -value⟩

theorem mem_uppers (name : String) (ineqs : List LinIneq) (upper : Bound) :
    upper ∈ uppers name ineqs ↔ ∃ ineq ∈ ineqs, IsUpper name ineq upper := by
  unfold uppers
  rw [List.mem_filterMap]
  refine exists_congr fun ineq => and_congr_right fun _ => ?_
  unfold IsUpper
  cases found : ineq.coeffs.get? name with
  | none => simp
  | some coeff =>
      simp only [Option.some.injEq, exists_eq_left']
      split_ifs with positive
      · rw [Option.some.injEq, eq_comm]
        exact ⟨fun same => ⟨positive, same⟩, And.right⟩
      · constructor
        · intro absent
          cases absent
        · rintro ⟨above, _⟩
          exact absurd above positive

theorem check128_eq_some {value result : Int} (checked : check128 widths value = some result) :
    result = value := by
  unfold check128 at checked
  split_ifs at checked
  exact (Option.some.inj checked).symm

theorem lowerOf_isLower {coeff : Int}
    (found : ineq.coeffs.get? name = some coeff) (negative : coeff < 0)
    (run : lowerOf widths name ineq coeff = some lower) (other : Bound) :
    IsLower name ineq other ↔ other = lower := by
  unfold lowerOf at run
  obtain ⟨factor, factorRun, run⟩ := Option.bind_eq_some_iff.mp run
  obtain ⟨bound, boundRun, run⟩ := Option.bind_eq_some_iff.mp run
  obtain ⟨coeffs, coeffsRun, run⟩ := Option.bind_eq_some_iff.mp run
  unfold negated at coeffsRun
  split_ifs at coeffsRun
  rw [← Option.some.inj run, check128_eq_some factorRun, check128_eq_some boundRun,
    ← Option.some.inj coeffsRun]
  unfold IsLower
  rw [found]
  constructor
  · rintro ⟨held, same, _, exact_⟩
    cases Option.some.inj same
    exact exact_
  · intro exact_
    exact ⟨coeff, rfl, negative, exact_⟩

theorem mem_lowers (name : String) (ineqs : List LinIneq) : ∀ {below : List Bound},
    lowers widths name ineqs = some below →
    ∀ lower, lower ∈ below ↔ ∃ ineq ∈ ineqs, IsLower name ineq lower := by
  induction ineqs with
  | nil =>
      intro below run lower
      cases Option.some.inj run
      simp
  | cons ineq rest ih =>
      intro below run lower
      rw [List.exists_mem_cons_iff]
      unfold lowers at run
      cases found : ineq.coeffs.get? name with
      | none =>
          rw [found] at run
          rw [ih run, or_iff_right]
          rintro ⟨coeff, held, _⟩
          rw [found] at held
          cases held
      | some coeff =>
          rw [found] at run
          dsimp only at run
          by_cases negative : coeff < 0
          · rw [if_pos negative] at run
            obtain ⟨first, firstRun, run⟩ := Option.bind_eq_some_iff.mp run
            obtain ⟨later, laterRun, run⟩ := Option.bind_eq_some_iff.mp run
            cases Option.some.inj run
            rw [List.mem_cons, ih laterRun, lowerOf_isLower found negative firstRun]
          · rw [if_neg negative] at run
            rw [ih run, or_iff_right]
            rintro ⟨held, same, below, _⟩
            rw [found] at same
            cases Option.some.inj same
            exact negative below

theorem formValue_negated (values : String → ℚ) (coeffs : OrdMap String Int) :
    formValue values (coeffs.mapValues fun _ value => -value).toList =
      -formValue values coeffs.toList :=
  formValue_neg values coeffs.toList

theorem IsUpper.sat_iff
    (isUpper : IsUpper name ineq upper) (values : String → ℚ) :
    ineq.Sat values ↔
      (upper.factor : ℚ) * values name ≤ upper.bound - formValue values upper.coeffs.toList := by
  obtain ⟨coeff, found, _, rfl⟩ := isUpper
  unfold LinIneq.Sat
  rw [formValue_erase values ineq.coeffs name, coefficient, found, Option.getD_some]
  exact ⟨fun holds => by linarith, fun holds => by linarith⟩

theorem IsLower.sat_iff
    (isLower : IsLower name ineq lower) (values : String → ℚ) :
    ineq.Sat values ↔
      lower.bound - formValue values lower.coeffs.toList ≤ (lower.factor : ℚ) * values name := by
  obtain ⟨coeff, found, _, rfl⟩ := isLower
  unfold LinIneq.Sat
  dsimp only
  rw [formValue_erase values ineq.coeffs name, coefficient, found, Option.getD_some,
    formValue_negated]
  push_cast
  exact ⟨fun holds => by linarith, fun holds => by linarith⟩

/-! ## A pair of bounds -/

theorem crossed_eq {lower left upper right result : Int}
    (run : crossed widths lower left upper right = some result) :
    result = lower * left - upper * right := by
  unfold crossed at run
  obtain ⟨one, oneRun, run⟩ := Option.bind_eq_some_iff.mp run
  obtain ⟨other, otherRun, run⟩ := Option.bind_eq_some_iff.mp run
  rw [check128_eq_some run, check128_eq_some oneRun, check128_eq_some otherRun]

theorem keys_nodup (coeffs : OrdMap String Int) : (coeffs.toList.map Prod.fst).Nodup :=
  List.pairwise_map.mpr (coeffs.sorted.imp fun less => ne_of_lt less)

theorem mergeKeys_nodup (left right : OrdMap String Int) : (mergeKeys left right).Nodup := by
  refine List.nodup_append.mpr ⟨keys_nodup left, (keys_nodup right).filter _, ?_⟩
  intro key inLeft other inRight same
  obtain ⟨entry, member, rfl⟩ := List.mem_map.mp inLeft
  have absent := (List.mem_filter.mp inRight).2
  rw [← same, Option.isNone_iff_eq_none] at absent
  exact (OrdMap.get?_eq_none _ _).mp absent entry member rfl

theorem mem_mergeKeys {left right : OrdMap String Int} :
    key ∈ mergeKeys left right ↔ (left.get? key).isSome ∨ (right.get? key).isSome := by
  have present : ∀ coeffs : OrdMap String Int,
      key ∈ coeffs.toList.map Prod.fst ↔ (coeffs.get? key).isSome := by
    intro coeffs
    rw [Option.isSome_iff_exists]
    simp only [OrdMap.get?_eq_some, List.mem_map, Prod.exists, exists_and_right, exists_eq_right]
  unfold mergeKeys
  rw [List.mem_append, List.mem_filter, present, present]
  cases left.get? key <;> simp

theorem isSome_get?_of_mem {coeffs : OrdMap String Int} {entry : String × Int}
    (member : entry ∈ coeffs.toList) : (coeffs.get? entry.1).isSome := by
  rw [(OrdMap.get?_eq_some coeffs entry.1 entry.2).mpr member]
  rfl

def crossCoeff (upper lower : Bound) (key : String) : Int :=
  lower.factor * coefficient upper.coeffs key - upper.factor * coefficient lower.coeffs key

structure Combined (upper lower : Bound) (keys : List String)
    (coeffs next : OrdMap String Int) : Prop where
  value : ∀ values : String → ℚ, formValue values next.toList =
    formValue values coeffs.toList +
      (keys.map fun key => (crossCoeff upper lower key : ℚ) * values key).sum
  nonzero : (∀ entry ∈ coeffs.toList, entry.2 ≠ 0) → ∀ entry ∈ next.toList, entry.2 ≠ 0
  keys : ∀ key, (next.get? key).isSome → (coeffs.get? key).isSome ∨ key ∈ keys

theorem combineCoeffs_combined (keys : List String) :
    ∀ {coeffs next : OrdMap String Int},
      combineCoeffs widths upper lower keys coeffs = some next → keys.Nodup →
      (∀ key ∈ keys, coeffs.get? key = none) → Combined upper lower keys coeffs next := by
  induction keys with
  | nil =>
      intro coeffs next run _ _
      cases Option.some.inj run
      exact ⟨fun values => by simp, id, fun key present => Or.inl present⟩
  | cons key rest ih =>
      intro coeffs next run nodup fresh
      obtain ⟨apart, nodup⟩ := List.nodup_cons.mp nodup
      obtain ⟨coeff, coeffRun, run⟩ := Option.bind_eq_some_iff.mp run
      have exact_ : coeff = crossCoeff upper lower key := crossed_eq coeffRun
      have keyFresh := fresh key List.mem_cons_self
      by_cases zero : coeff = 0
      · rw [if_neg (not_not.mpr zero)] at run
        have later := ih run nodup fun other member => fresh other (List.mem_cons_of_mem _ member)
        refine ⟨fun values => ?_, later.nonzero, fun other present =>
          (later.keys other present).imp_right (List.mem_cons_of_mem _)⟩
        rw [later.value, List.map_cons, List.sum_cons, ← exact_, zero]
        simp
      · rw [if_pos zero] at run
        have stillFresh : ∀ other ∈ rest, (coeffs.insert key coeff).get? other = none := by
          intro other member
          have different : other ≠ key := fun same => apart (same ▸ member)
          rw [OrdMap.get?_insert, if_neg different]
          exact fresh other (List.mem_cons_of_mem _ member)
        have later := ih run nodup stillFresh
        refine ⟨fun values => ?_, fun nonzero => later.nonzero fun entry member => ?_,
          fun other present => ?_⟩
        · rw [later.value, List.map_cons, List.sum_cons, formValue_insert values _ _ keyFresh,
            ← exact_]
          ring
        · rcases (OrdMap.mem_insert _ _ _ _).mp member with rfl | ⟨member, _⟩
          · exact zero
          · exact nonzero entry member
        · rcases later.keys other present with held | member
          · rw [OrdMap.get?_insert] at held
            split_ifs at held with same
            · exact Or.inr (List.mem_cons.mpr (Or.inl same))
            · exact Or.inl held
          · exact Or.inr (List.mem_cons_of_mem _ member)

theorem sum_crossCoeff (values : String → ℚ) (upper lower : Bound) (keys : List String) :
    (keys.map fun key => (crossCoeff upper lower key : ℚ) * values key).sum =
      lower.factor * (keys.map fun key => (coefficient upper.coeffs key : ℚ) * values key).sum -
        upper.factor *
          (keys.map fun key => (coefficient lower.coeffs key : ℚ) * values key).sum := by
  induction keys with
  | nil => simp
  | cons key rest ih =>
      rw [List.map_cons, List.map_cons, List.map_cons, List.sum_cons, List.sum_cons,
        List.sum_cons, ih, crossCoeff]
      push_cast
      ring

theorem combine_sat
    (run : combine widths upper lower = some ineq) (values : String → ℚ) :
    ineq.Sat values ↔
      (upper.factor : ℚ) * (lower.bound - formValue values lower.coeffs.toList) ≤
        lower.factor * (upper.bound - formValue values upper.coeffs.toList) := by
  obtain ⟨coeffs, coeffsRun, run⟩ := Option.bind_eq_some_iff.mp run
  obtain ⟨c, cRun, run⟩ := Option.bind_eq_some_iff.mp run
  cases Option.some.inj run
  have combined := combineCoeffs_combined _ coeffsRun (mergeKeys_nodup _ _) fun _ _ => rfl
  have inUpper := formValue_eq_sum values _ upper.coeffs (mergeKeys_nodup upper.coeffs lower.coeffs)
    fun entry member => mem_mergeKeys.mpr (Or.inl (isSome_get?_of_mem member))
  have inLower := formValue_eq_sum values _ lower.coeffs (mergeKeys_nodup upper.coeffs lower.coeffs)
    fun entry member => mem_mergeKeys.mpr (Or.inr (isSome_get?_of_mem member))
  unfold LinIneq.Sat
  dsimp only
  rw [combined.value, sum_crossCoeff, ← inUpper, ← inLower, crossed_eq cRun, OrdMap.empty_toList,
    formValue_nil]
  push_cast
  exact ⟨fun holds => by linarith, fun holds => by linarith⟩

theorem combine_nonzero
    (run : combine widths upper lower = some ineq) : ineq.Nonzero := by
  obtain ⟨coeffs, coeffsRun, run⟩ := Option.bind_eq_some_iff.mp run
  obtain ⟨c, _, run⟩ := Option.bind_eq_some_iff.mp run
  cases Option.some.inj run
  apply (combineCoeffs_combined _ coeffsRun (mergeKeys_nodup _ _) fun _ _ => rfl).nonzero
  intro entry member
  cases member

theorem combine_mentions
    (run : combine widths upper lower = some ineq) (mentions : ineq.Mentions key) :
    (upper.coeffs.get? key).isSome ∨ (lower.coeffs.get? key).isSome := by
  obtain ⟨coeffs, coeffsRun, run⟩ := Option.bind_eq_some_iff.mp run
  obtain ⟨c, _, run⟩ := Option.bind_eq_some_iff.mp run
  cases Option.some.inj run
  have combined := combineCoeffs_combined _ coeffsRun (mergeKeys_nodup _ _) fun _ _ => rfl
  rcases combined.keys key mentions with absent | member
  · cases absent
  · exact mem_mergeKeys.mp member

/-! ## A variable -/

theorem mem_others (nonzero : AllNonzero ineqs)
    (ineq : LinIneq) : ineq ∈ others name ineqs ↔ ineq ∈ ineqs ∧ ¬ineq.Mentions name := by
  unfold others LinIneq.Mentions
  rw [List.mem_filter, decide_eq_true_eq]
  refine and_congr_right fun member => ?_
  cases found : ineq.coeffs.get? name with
  | none => simp
  | some coeff =>
      have apart := nonzero ineq member (name, coeff) ((OrdMap.get?_eq_some _ _ _).mp found)
      simpa using apart

theorem upper_lower_or_other (nonzero : AllNonzero ineqs) (name : String)
    (member : ineq ∈ ineqs) :
    (∃ upper, IsUpper name ineq upper) ∨ (∃ lower, IsLower name ineq lower) ∨
      ¬ineq.Mentions name := by
  unfold LinIneq.Mentions
  cases found : ineq.coeffs.get? name with
  | none => simp
  | some coeff =>
      have apart := nonzero ineq member (name, coeff) ((OrdMap.get?_eq_some _ _ _).mp found)
      rcases lt_or_gt_of_ne apart with negative | positive
      · exact Or.inr (Or.inl ⟨_, coeff, found, negative, rfl⟩)
      · exact Or.inl ⟨_, coeff, found, positive, rfl⟩

theorem IsUpper.positive
    (isUpper : IsUpper name ineq upper) : (0 : ℚ) < upper.factor := by
  obtain ⟨coeff, _, positive, rfl⟩ := isUpper
  exact_mod_cast positive

theorem IsLower.positive
    (isLower : IsLower name ineq lower) : (0 : ℚ) < lower.factor := by
  obtain ⟨coeff, _, negative, rfl⟩ := isLower
  have positive : 0 < -coeff := by omega
  exact_mod_cast positive

theorem IsUpper.mentions
    (isUpper : IsUpper name ineq upper) (held : (upper.coeffs.get? key).isSome) :
    key ≠ name ∧ ineq.Mentions key := by
  obtain ⟨coeff, _, _, rfl⟩ := isUpper
  rw [OrdMap.get?_erase] at held
  split_ifs at held with same
  · cases held
  · exact ⟨same, held⟩

theorem IsLower.mentions
    (isLower : IsLower name ineq lower) (held : (lower.coeffs.get? key).isSome) :
    key ≠ name ∧ ineq.Mentions key := by
  obtain ⟨coeff, _, _, rfl⟩ := isLower
  rw [OrdMap.get?_mapValues, OrdMap.get?_erase] at held
  split_ifs at held with same
  · cases held
  · rw [Option.isSome_map] at held
    exact ⟨same, held⟩

theorem formValue_unmentioned (values : String → ℚ) {coeffs : OrdMap String Int}
    (value : ℚ) (absent : ¬(coeffs.get? name).isSome) :
    formValue (Function.update values name value) coeffs.toList =
      formValue values coeffs.toList :=
  formValue_update values value fun _ member same => absent (same ▸ isSome_get?_of_mem member)

/-- The inequalities after an elimination are those that do not mention the variable and
the combinations of its bounds. -/
theorem mem_eliminate
    (run : eliminate widths name ineqs = some next) (nonzero : AllNonzero ineqs) :
    (∀ ineq, ineq ∈ next ↔ (ineq ∈ ineqs ∧ ¬ineq.Mentions name) ∨
      ∃ upperIneq ∈ ineqs, ∃ lowerIneq ∈ ineqs, ∃ upper lower, IsUpper name upperIneq upper ∧
        IsLower name lowerIneq lower ∧ combine widths upper lower = some ineq) ∧
    ∀ upperIneq ∈ ineqs, ∀ lowerIneq ∈ ineqs, ∀ upper lower, IsUpper name upperIneq upper →
      IsLower name lowerIneq lower → ∃ ineq ∈ next, combine widths upper lower = some ineq := by
  unfold eliminate at run
  obtain ⟨below, belowRun, run⟩ := Option.bind_eq_some_iff.mp run
  obtain ⟨combined, combinedRun, run⟩ := Option.bind_eq_some_iff.mp run
  cases Option.some.inj run
  have pairs : ∀ upper lower, (upper, lower) ∈ ((uppers name ineqs).flatMap fun upper =>
      below.map fun lower => (upper, lower)) ↔
        (∃ ineq ∈ ineqs, IsUpper name ineq upper) ∧ ∃ ineq ∈ ineqs, IsLower name ineq lower := by
    intro upper lower
    simp only [List.mem_flatMap, List.mem_map, Prod.mk.injEq, exists_eq_right_right,
      mem_uppers, mem_lowers name ineqs belowRun]
  constructor
  · intro ineq
    rw [List.mem_append, mem_others nonzero, mem_of_mapM _ combinedRun]
    refine or_congr_right ⟨?_, ?_⟩
    · rintro ⟨⟨upper, lower⟩, member, computed⟩
      obtain ⟨⟨upperIneq, upperMember, isUpper⟩, lowerIneq, lowerMember, isLower⟩ :=
        (pairs upper lower).mp member
      exact ⟨upperIneq, upperMember, lowerIneq, lowerMember, upper, lower, isUpper, isLower,
        computed⟩
    · rintro ⟨upperIneq, upperMember, lowerIneq, lowerMember, upper, lower, isUpper, isLower,
        computed⟩
      exact ⟨(upper, lower), (pairs upper lower).mpr ⟨⟨upperIneq, upperMember, isUpper⟩,
        lowerIneq, lowerMember, isLower⟩, computed⟩
  · intro upperIneq upperMember lowerIneq lowerMember upper lower isUpper isLower
    obtain ⟨ineq, inside, computed⟩ := exists_of_mapM _ combinedRun (upper, lower)
      ((pairs upper lower).mpr ⟨⟨upperIneq, upperMember, isUpper⟩, lowerIneq, lowerMember,
        isLower⟩)
    exact ⟨ineq, List.mem_append_right _ inside, computed⟩

theorem eliminate_nonzero
    (run : eliminate widths name ineqs = some next) (nonzero : AllNonzero ineqs) :
    AllNonzero next := by
  intro ineq member
  rcases ((mem_eliminate run nonzero).1 ineq).mp member with
    ⟨member, _⟩ | ⟨_, _, _, _, _, _, _, _, computed⟩
  · exact nonzero ineq member
  · exact combine_nonzero computed

theorem eliminate_mentions
    (run : eliminate widths name ineqs = some next) (nonzero : AllNonzero ineqs)
    (member : ineq ∈ next) (mentions : ineq.Mentions key) :
    key ≠ name ∧ ∃ before ∈ ineqs, before.Mentions key := by
  rcases ((mem_eliminate run nonzero).1 ineq).mp member with
    ⟨member, unmentioned⟩ | ⟨upperIneq, upperMember, lowerIneq, lowerMember, upper, lower,
      isUpper, isLower, computed⟩
  · exact ⟨fun same => unmentioned (same ▸ mentions), ineq, member, mentions⟩
  · rcases combine_mentions computed mentions with held | held
    · obtain ⟨apart, before⟩ := isUpper.mentions held
      exact ⟨apart, upperIneq, upperMember, before⟩
    · obtain ⟨apart, before⟩ := isLower.mentions held
      exact ⟨apart, lowerIneq, lowerMember, before⟩

theorem eliminate_sources
    (run : eliminate widths name ineqs = some next) (member : ineq ∈ next) :
    ineq ∈ ineqs ∨
      ∃ upperIneq ∈ ineqs, ∃ lowerIneq ∈ ineqs, ∃ upper lower, IsUpper name upperIneq upper ∧
        IsLower name lowerIneq lower ∧ combine widths upper lower = some ineq := by
  unfold eliminate at run
  obtain ⟨below, belowRun, run⟩ := Option.bind_eq_some_iff.mp run
  obtain ⟨combined, combinedRun, run⟩ := Option.bind_eq_some_iff.mp run
  cases Option.some.inj run
  rcases List.mem_append.mp member with kept | made
  · exact Or.inl (List.mem_filter.mp kept).1
  · obtain ⟨⟨upper, lower⟩, paired, computed⟩ := (mem_of_mapM _ combinedRun ineq).mp made
    obtain ⟨held, upperIn, paired⟩ := List.mem_flatMap.mp paired
    obtain ⟨other, lowerIn, same⟩ := List.mem_map.mp paired
    obtain ⟨rfl, rfl⟩ := Prod.mk.inj same
    obtain ⟨upperIneq, upperMember, isUpper⟩ := (mem_uppers name ineqs held).mp upperIn
    obtain ⟨lowerIneq, lowerMember, isLower⟩ := (mem_lowers name ineqs belowRun other).mp lowerIn
    exact Or.inr ⟨upperIneq, upperMember, lowerIneq, lowerMember, held, other, isUpper, isLower,
      computed⟩

theorem eliminate_keeps
    (run : eliminate widths name ineqs = some next) {values : String → ℚ}
    (sat : AllSat values ineqs) : AllSat values next := by
  intro ineq member
  rcases eliminate_sources run member with
    member | ⟨upperIneq, upperMember, lowerIneq, lowerMember, upper, lower, isUpper, isLower,
      computed⟩
  · exact sat ineq member
  · rw [combine_sat computed]
    have above := (isUpper.sat_iff values).mp (sat upperIneq upperMember)
    have below := (isLower.sat_iff values).mp (sat lowerIneq lowerMember)
    calc (upper.factor : ℚ) * (lower.bound - formValue values lower.coeffs.toList)
        ≤ upper.factor * (lower.factor * values name) :=
          mul_le_mul_of_nonneg_left below (le_of_lt isUpper.positive)
      _ = lower.factor * (upper.factor * values name) := by ring
      _ ≤ lower.factor * (upper.bound - formValue values upper.coeffs.toList) :=
          mul_le_mul_of_nonneg_left above (le_of_lt isLower.positive)

theorem eliminate_complete
    (run : eliminate widths name ineqs = some next) (nonzero : AllNonzero ineqs)
    {values : String → ℚ} (sat : AllSat values next) :
    ∃ value, AllSat (Function.update values name value) ineqs := by
  obtain ⟨members, pairs⟩ := mem_eliminate run nonzero
  obtain ⟨below, belowRun, _⟩ := Option.bind_eq_some_iff.mp run
  have uppersFrom := mem_uppers name ineqs
  have lowersFrom := mem_lowers name ineqs belowRun
  obtain ⟨value, above, atMost⟩ := exists_between_scaled
    (below.map fun lower =>
      ((lower.factor : ℚ), (lower.bound : ℚ) - formValue values lower.coeffs.toList))
    ((uppers name ineqs).map fun upper =>
      ((upper.factor : ℚ), (upper.bound : ℚ) - formValue values upper.coeffs.toList))
    (by
      intro scaled_ member
      obtain ⟨lower, inside, rfl⟩ := List.mem_map.mp member
      obtain ⟨_, _, isLower⟩ := (lowersFrom lower).mp inside
      exact isLower.positive)
    (by
      intro scaled_ member
      obtain ⟨upper, inside, rfl⟩ := List.mem_map.mp member
      obtain ⟨_, _, isUpper⟩ := (uppersFrom upper).mp inside
      exact isUpper.positive)
    (by
      intro scaledUpper upperIn scaledLower lowerIn
      obtain ⟨upper, upperInside, rfl⟩ := List.mem_map.mp upperIn
      obtain ⟨lower, lowerInside, rfl⟩ := List.mem_map.mp lowerIn
      obtain ⟨upperIneq, upperMember, isUpper⟩ := (uppersFrom upper).mp upperInside
      obtain ⟨lowerIneq, lowerMember, isLower⟩ := (lowersFrom lower).mp lowerInside
      obtain ⟨ineq, inside, computed⟩ := pairs upperIneq upperMember lowerIneq lowerMember upper
        lower isUpper isLower
      exact (combine_sat computed values).mp (sat ineq inside))
  refine ⟨value, fun ineq member => ?_⟩
  rcases upper_lower_or_other nonzero name member with
    ⟨upper, isUpper⟩ | ⟨lower, isLower⟩ | unmentioned
  · have absent : ¬(upper.coeffs.get? name).isSome := fun held => (isUpper.mentions held).1 rfl
    rw [isUpper.sat_iff, Function.update_self, formValue_unmentioned values value absent]
    exact atMost _ (List.mem_map.mpr ⟨upper, (uppersFrom upper).mpr ⟨ineq, member, isUpper⟩, rfl⟩)
  · have absent : ¬(lower.coeffs.get? name).isSome := fun held => (isLower.mentions held).1 rfl
    rw [isLower.sat_iff, Function.update_self, formValue_unmentioned values value absent]
    exact above _ (List.mem_map.mpr ⟨lower, (lowersFrom lower).mpr ⟨ineq, member, isLower⟩, rfl⟩)
  · unfold LinIneq.Sat
    rw [formValue_unmentioned values value unmentioned]
    exact sat ineq ((members ineq).mpr (Or.inl ⟨member, unmentioned⟩))

/-! ## All variables -/

theorem eliminateAll_exact (names : List String) : ∀ {ineqs final : List LinIneq},
    eliminateAll widths names ineqs = some final → AllNonzero ineqs →
    ((∃ values, AllSat values ineqs) ↔ ∃ values, AllSat values final) ∧
      ∀ ineq ∈ final, ∀ key, ineq.Mentions key →
        key ∉ names ∧ ∃ before ∈ ineqs, before.Mentions key := by
  induction names with
  | nil =>
      intro ineqs final run _
      cases Option.some.inj run
      exact ⟨Iff.rfl, fun ineq member key mentions =>
        ⟨List.not_mem_nil, ineq, member, mentions⟩⟩
  | cons name rest ih =>
      intro ineqs final run nonzero
      obtain ⟨next, nextRun, run⟩ := Option.bind_eq_some_iff.mp run
      obtain ⟨later, mentioned⟩ := ih run (eliminate_nonzero nextRun nonzero)
      have step : (∃ values, AllSat values ineqs) ↔ ∃ values, AllSat values next := by
        constructor
        · rintro ⟨values, sat⟩
          exact ⟨values, eliminate_keeps nextRun sat⟩
        · rintro ⟨values, sat⟩
          obtain ⟨value, sat⟩ := eliminate_complete nextRun nonzero sat
          exact ⟨_, sat⟩
      refine ⟨step.trans later, fun ineq member key mentions => ?_⟩
      obtain ⟨unlisted, before, inside, held⟩ := mentioned ineq member key mentions
      obtain ⟨apart, earlier⟩ := eliminate_mentions nextRun nonzero inside held
      refine ⟨fun listed => ?_, earlier⟩
      rcases List.mem_cons.mp listed with same | listed
      · exact apart same
      · exact unlisted listed

theorem exists_sat_iff_of_constant
    (constant : ∀ ineq ∈ ineqs, ineq.coeffs.toList = []) :
    (∃ values, AllSat values ineqs) ↔
      (ineqs.any fun ineq => ineq.coeffs.toList.isEmpty && decide (ineq.c < 0)) = false := by
  rw [List.any_eq_false]
  have compare : ∀ ineq ∈ ineqs, ∀ values, ineq.Sat values ↔ 0 ≤ ineq.c := by
    intro ineq member values
    unfold LinIneq.Sat
    rw [constant ineq member, formValue_nil]
    exact Int.cast_nonneg_iff
  constructor
  · rintro ⟨values, sat⟩ ineq member
    have holds := (compare ineq member values).mp (sat ineq member)
    rw [constant ineq member]
    simpa using holds
  · intro all
    refine ⟨fun _ => 0, fun ineq member => (compare ineq member _).mpr ?_⟩
    have holds := all ineq member
    rw [constant ineq member] at holds
    simpa using holds

theorem unsatChecked_exact {order : VariableOrder}
    (wellFormed : AllWellFormed constraints) {answer : Bool}
    (run : unsatChecked widths order constraints = some answer) :
    answer = true ↔ ¬∃ values, Solves values constraints := by
  unfold unsatChecked at run
  obtain ⟨reduced, reducedRun, run⟩ := Option.bind_eq_some_iff.mp run
  obtain ⟨final, finalRun, run⟩ := Option.bind_eq_some_iff.mp run
  obtain ⟨reducedFormed, substituted⟩ := substituteRounds_solutions _ wellFormed reducedRun
  obtain ⟨eliminated, mentioned⟩ := eliminateAll_exact _ finalRun
    (toInequalities_nonzero reducedFormed)
  have constant : ∀ ineq ∈ final, ineq.coeffs.toList = [] := by
    intro ineq member
    refine List.eq_nil_iff_forall_not_mem.mpr fun entry inside => ?_
    obtain ⟨unlisted, before⟩ := mentioned ineq member entry.1 (isSome_get?_of_mem inside)
    exact unlisted ((order.mem_list _ _).mpr before)
  simp only [toInequalities_sat _ reducedFormed] at eliminated
  rw [substituted, eliminated, exists_sat_iff_of_constant constant, Option.some.inj run,
    Bool.not_eq_false]

/-! ## Integers -/

def Linear.intValue (values : String → Int) (lin : Linear) : Int :=
  (lin.terms.map fun term => term.2 * values term.1).sum + lin.constant

def Constraint.Holds (values : String → Int) (constraint : Constraint) : Prop :=
  match constraint.rel with
  | .le => constraint.lin.intValue values ≤ 0
  | .lt => constraint.lin.intValue values < 0
  | .ge => 0 ≤ constraint.lin.intValue values
  | .gt => 0 < constraint.lin.intValue values
  | .eq => constraint.lin.intValue values = 0
  | .ne => constraint.lin.intValue values ≠ 0

theorem value_intCast (values : String → Int) (lin : Linear) :
    lin.value (fun name => (values name : ℚ)) = lin.intValue values := by
  obtain ⟨terms, constant⟩ := lin
  unfold Linear.value Linear.intValue
  induction terms with
  | nil => simp
  | cons term rest ih =>
      simp only [formValue_cons, List.map_cons, List.sum_cons] at ih ⊢
      push_cast at ih ⊢
      linarith

theorem Constraint.Holds.tightened {values : String → Int}
    (holds : constraint.Holds values) : constraint.Tightened fun name => (values name : ℚ) := by
  obtain ⟨lin, rel⟩ := constraint
  unfold Constraint.Tightened
  unfold Constraint.Holds at holds
  cases rel with
  | le =>
      rw [value_intCast]
      exact_mod_cast holds
  | lt =>
      have below : lin.intValue values ≤ -1 := Int.le_sub_one_of_lt holds
      rw [value_intCast]
      exact_mod_cast below
  | ge =>
      rw [value_intCast]
      exact_mod_cast holds
  | gt =>
      have above : 1 ≤ lin.intValue values := holds
      rw [value_intCast]
      exact_mod_cast above
  | eq =>
      rw [value_intCast]
      exact_mod_cast holds
  | ne => trivial

/-! ## When there is an answer -/

def Widths.Within (narrow wide : Widths) : Prop :=
  (∀ value, narrow.fits64 value = true → wide.fits64 value = true) ∧
    ∀ value, narrow.fits128 value = true → wide.fits128 value = true

/-- Every result fits but this one. -/
def allBut64 (value : Int) : Widths := ⟨fun other => decide (other ≠ value), fun _ => true⟩

def allBut128 (value : Int) : Widths := ⟨fun _ => true, fun other => decide (other ≠ value)⟩

/-- `only` refuses a single result, one that these widths do not hold either. -/
def Widths.Lacks (widths only : Widths) : Prop :=
  ∃ value, widths.fits64 value = false ∧ only = allBut64 value ∨
    widths.fits128 value = false ∧ only = allBut128 value

theorem Widths.Lacks.within {only : Widths} (lacks : widths.Lacks only) : widths.Within only := by
  obtain ⟨value, ⟨refused, rfl⟩ | ⟨refused, rfl⟩⟩ := lacks
  · refine ⟨fun other fits => decide_eq_true ?_, fun _ _ => rfl⟩
    rintro rfl
    exact Bool.false_ne_true (refused.symm.trans fits)
  · refine ⟨fun _ _ => rfl, fun other fits => decide_eq_true ?_⟩
    rintro rfl
    exact Bool.false_ne_true (refused.symm.trans fits)

section

variable {A B : Type}

/-- The widths decide only whether there is an answer, and only by a result that does not
fit. -/
structure Asks (run : Widths → Option A) : Prop where
  widened : ∀ {narrow wide : Widths} {answer : A}, narrow.Within wide →
    run narrow = some answer → run wide = some answer
  refused : ∀ {widths : Widths}, run widths = none →
    ∃ only, widths.Lacks only ∧ run only = none

theorem Asks.answer (answer : A) : Asks fun _ => some answer :=
  ⟨fun _ => id, nofun⟩

theorem Asks.bind {run : Widths → Option A} {next : A → Widths → Option B} (asks : Asks run)
    (others : ∀ answer, Asks (next answer)) :
    Asks fun widths => run widths >>= fun answer => next answer widths := by
  constructor
  · intro narrow wide answer within found
    obtain ⟨first, ran, later⟩ := Option.bind_eq_some_iff.mp found
    exact Option.bind_eq_some_iff.mpr
      ⟨first, asks.widened within ran, (others first).widened within later⟩
  · intro widths failed
    cases ran : run widths with
    | none =>
        obtain ⟨only, lacks, refused⟩ := asks.refused ran
        exact ⟨only, lacks, by rw [refused]; rfl⟩
    | some first =>
        rw [ran] at failed
        obtain ⟨only, lacks, refused⟩ := (others first).refused failed
        refine ⟨only, lacks, ?_⟩
        rw [asks.widened lacks.within ran]
        exact refused

theorem Asks.map {run : Widths → Option A} (asks : Asks run) (change : A → B) :
    Asks fun widths => (run widths).map change := by
  simp only [Option.map_eq_bind]
  exact asks.bind fun answer => Asks.answer (change answer)

theorem Asks.mapM {compute : Widths → A → Option B}
    (asks : ∀ input, Asks fun widths => compute widths input) (inputs : List A) :
    Asks fun widths => inputs.mapM (compute widths) := by
  induction inputs with
  | nil => exact Asks.answer []
  | cons input rest ih =>
      simp only [List.mapM_cons]
      exact (asks input).bind fun first => ih.bind fun others => Asks.answer (first :: others)

end

theorem asks_check64 (value : Int) : Asks fun widths => check64 widths value := by
  constructor
  · intro narrow wide answer within found
    unfold check64 at found ⊢
    split_ifs at found with fits
    rw [if_pos (within.1 value fits)]
    exact found
  · intro widths failed
    unfold check64 at failed
    split_ifs at failed with fits
    exact ⟨_, ⟨value, Or.inl ⟨Bool.eq_false_iff.mpr fits, rfl⟩⟩,
      if_neg (by simp [allBut64])⟩

theorem asks_check128 (value : Int) : Asks fun widths => check128 widths value := by
  constructor
  · intro narrow wide answer within found
    unfold check128 at found ⊢
    split_ifs at found with fits
    rw [if_pos (within.2 value fits)]
    exact found
  · intro widths failed
    unfold check128 at failed
    split_ifs at failed with fits
    exact ⟨_, ⟨value, Or.inr ⟨Bool.eq_false_iff.mpr fits, rfl⟩⟩,
      if_neg (by simp [allBut128])⟩

theorem asks_addTerm (key : String) (added : Int) (terms : List (String × Int)) :
    Asks fun widths => addTerm widths key added terms := by
  induction terms with
  | nil => exact Asks.answer _
  | cons term rest ih =>
      by_cases same : term.1 = key
      · simp only [addTerm, if_pos same]
        exact (asks_check64 _).bind fun sum => Asks.answer _
      · simp only [addTerm, if_neg same]
        exact ih.map _

theorem asks_scaled (factor coeff unit : Int) :
    Asks fun widths => scaled widths factor coeff unit :=
  (asks_check64 _).bind fun _ => (asks_check64 _).bind fun _ => asks_check64 _

theorem asks_addTerms (variable_ : String × Int) (factor : Int)
    (definition : List (String × Int)) : ∀ terms : List (String × Int),
    Asks fun widths => addTerms widths variable_ factor definition terms := by
  induction definition with
  | nil => exact Asks.answer
  | cons term rest ih =>
      intro terms
      by_cases same : term.1 = variable_.1
      · simp only [addTerms, if_pos same]
        exact ih terms
      · simp only [addTerms, if_neg same]
        exact (asks_scaled _ _ _).bind fun added => (asks_addTerm _ _ _).bind ih

theorem asks_substituteInto (definition : Linear) (variable_ : String × Int)
    (constraint : Constraint) :
    Asks fun widths => substituteInto widths definition variable_ constraint := by
  unfold substituteInto
  cases constraint.lin.terms.find? fun term => decide (term.1 = variable_.1) with
  | none => exact Asks.answer constraint
  | some found =>
      exact (asks_addTerms _ _ _ _).bind fun terms => (asks_scaled _ _ _).bind fun added =>
        (asks_check64 _).bind fun constant => Asks.answer _

theorem asks_substituteRounds (rounds : Nat) : ∀ constraints : List Constraint,
    Asks fun widths => substituteRounds widths rounds constraints := by
  induction rounds with
  | zero => exact Asks.answer
  | succ rounds ih =>
      intro constraints
      simp only [substituteRounds]
      cases takeDefinition constraints with
      | none => exact Asks.answer constraints
      | some taken => exact (Asks.mapM (asks_substituteInto taken.1 taken.2.1) taken.2.2).bind ih

theorem asks_negated (coeffs : OrdMap String Int) : Asks fun widths => negated widths coeffs := by
  constructor
  · intro narrow wide answer within found
    unfold negated at found ⊢
    split_ifs at found with fits
    rw [if_pos (List.all_eq_true.mpr fun entry member =>
      within.2 _ (List.all_eq_true.mp fits entry member))]
    exact found
  · intro widths failed
    unfold negated at failed
    split_ifs at failed with fits
    obtain ⟨entry, member, refused⟩ := List.all_eq_false.mp (Bool.eq_false_iff.mpr fits)
    refine ⟨_, ⟨-entry.2, Or.inr ⟨Bool.eq_false_iff.mpr refused, rfl⟩⟩, if_neg fun all => ?_⟩
    exact absurd (List.all_eq_true.mp all entry member) (by simp [allBut128])

theorem asks_lowers (name : String) (ineqs : List LinIneq) :
    Asks fun widths => lowers widths name ineqs := by
  induction ineqs with
  | nil => exact Asks.answer []
  | cons ineq rest ih =>
      simp only [lowers]
      cases ineq.coeffs.get? name with
      | none => exact ih
      | some coeff =>
          by_cases negative : coeff < 0
          · simp only [if_pos negative]
            have bound : Asks fun widths => lowerOf widths name ineq coeff :=
              (asks_check128 _).bind fun _ => (asks_check128 _).bind fun _ =>
                (asks_negated _).bind fun _ => Asks.answer _
            exact bound.bind fun _ => ih.bind fun _ => Asks.answer _
          · simp only [if_neg negative]
            exact ih

theorem asks_crossed (lower left upper right : Int) :
    Asks fun widths => crossed widths lower left upper right :=
  (asks_check128 _).bind fun _ => (asks_check128 _).bind fun _ => asks_check128 _

theorem asks_combine (upper lower : Bound) : Asks fun widths => combine widths upper lower := by
  have coeffs : ∀ keys coeffs, Asks fun widths =>
      combineCoeffs widths upper lower keys coeffs := by
    intro keys
    induction keys with
    | nil => exact Asks.answer
    | cons key rest ih => exact fun _ => (asks_crossed _ _ _ _).bind fun _ => ih _
  exact (coeffs _ _).bind fun _ => (asks_crossed _ _ _ _).bind fun _ => Asks.answer _

theorem asks_eliminateAll (names : List String) : ∀ ineqs : List LinIneq,
    Asks fun widths => eliminateAll widths names ineqs := by
  induction names with
  | nil => exact Asks.answer
  | cons name rest ih =>
      intro ineqs
      have eliminated : Asks fun widths => eliminate widths name ineqs :=
        (asks_lowers name ineqs).bind fun _ =>
          (Asks.mapM (fun pair : Bound × Bound => asks_combine pair.1 pair.2) _).bind
            fun _ => Asks.answer _
      exact eliminated.bind ih

theorem asks_unsatChecked (order : VariableOrder) (constraints : List Constraint) :
    Asks fun widths => unsatChecked widths order constraints :=
  (asks_substituteRounds _ _).bind fun _ => (asks_eliminateAll _ _).bind fun _ => Asks.answer _

/-- There is no answer exactly where a result that does not fit is asked for: refusing it alone
ends the run as well. -/
theorem unsatChecked_eq_none_iff (order : VariableOrder) (constraints : List Constraint) :
    unsatChecked widths order constraints = none ↔
      ∃ only, widths.Lacks only ∧ unsatChecked only order constraints = none := by
  refine ⟨(asks_unsatChecked order constraints).refused, fun ⟨only, lacks, refused⟩ => ?_⟩
  cases answered : unsatChecked widths order constraints with
  | none => rfl
  | some answer =>
      have wider := (asks_unsatChecked order constraints).widened lacks.within answered
      cases refused.symm.trans wider

theorem isSome_unsatChecked_unbounded (order : VariableOrder) (constraints : List Constraint) :
    (unsatChecked unbounded order constraints).isSome := by
  refine Option.ne_none_iff_isSome.mp fun failed => ?_
  obtain ⟨_, ⟨_, lacks⟩, _⟩ := (asks_unsatChecked order constraints).refused failed
  rcases lacks with ⟨refused, _⟩ | ⟨refused, _⟩ <;> cases refused

/-- When no result overflows, the answer is that of the rationals with strict inequalities
tightened, and no integers solve a system that is reported unsatisfiable. -/
theorem unsat_checked_iff (order : VariableOrder) (constraints : List Constraint)
    (wellFormed : AllWellFormed constraints)
    (fits : unsatChecked machine order constraints ≠ none) :
    (unsatChecked machine order constraints = some true ↔
      ¬∃ values : String → ℚ, ∀ constraint ∈ constraints, constraint.Tightened values) ∧
    (unsatChecked machine order constraints = some true →
      ¬∃ values : String → Int, ∀ constraint ∈ constraints, constraint.Holds values) := by
  obtain ⟨answer, run⟩ := Option.ne_none_iff_exists'.mp fits
  have exact_ : answer = true ↔
      ¬∃ values : String → ℚ, ∀ constraint ∈ constraints, constraint.Tightened values :=
    unsatChecked_exact wellFormed run
  rw [run, Option.some.injEq]
  refine ⟨exact_, fun unsat => ?_⟩
  rintro ⟨values, holds⟩
  apply exact_.mp unsat
  exact ⟨_, fun constraint member => (holds constraint member).tightened⟩

/-! ## Three constraints -/

/-- `x >= 1`, `y == x` and `y <= 0`. -/
def oneToZero : List Constraint :=
  [⟨⟨[("x", 1)], -1⟩, .ge⟩, ⟨⟨[("y", 1), ("x", -1)], 0⟩, .eq⟩, ⟨⟨[("y", 1)], 0⟩, .le⟩]

def scanOrder : VariableOrder where
  list ineqs := (ineqs.flatMap fun ineq => ineq.coeffs.toList.map Prod.fst).dedup
  nodup ineqs := List.nodup_dedup _
  mem_list ineqs name := by
    simp only [List.mem_dedup, List.mem_flatMap, Option.isSome_iff_exists, OrdMap.get?_eq_some,
      List.mem_map, Prod.exists, exists_and_right, exists_eq_right]

theorem one_to_zero_has_no_solution :
    ¬∃ values : String → ℚ, ∀ constraint ∈ oneToZero, constraint.Tightened values := by
  have wellFormed : AllWellFormed oneToZero := by
    intro constraint member
    constructor
    · revert constraint
      decide
    · revert constraint
      decide
  have answer : unsatChecked machine scanOrder oneToZero = some true := by decide +kernel
  exact (unsat_checked_iff scanOrder oneToZero wellFormed (by rw [answer]; decide)).1.mp answer

end Pantheon.Telos
