import Mathlib
import Pantheon.Lib.OrdMap

/-!
# Linear forms and their projection

A linear form is a list of variables with integer coefficients; its value is
taken in an ordered field.  A system of upper and lower bounds of one variable
has a solution exactly when every lower bound is below every upper bound.
-/

set_option autoImplicit false

namespace Pantheon.Lib

/-! ## Values -/

section Values

variable {K F : Type} [Field F]

def formValue (values : K → F) (terms : List (K × Int)) : F :=
  (terms.map fun term => (term.2 : F) * values term.1).sum

@[simp] theorem formValue_nil (values : K → F) : formValue values [] = 0 := rfl

@[simp] theorem formValue_cons (values : K → F) (term : K × Int) (terms : List (K × Int)) :
    formValue values (term :: terms) =
      (term.2 : F) * values term.1 + formValue values terms :=
  List.sum_cons

theorem formValue_append (values : K → F) (left right : List (K × Int)) :
    formValue values (left ++ right) = formValue values left + formValue values right := by
  unfold formValue
  rw [List.map_append, List.sum_append]

theorem formValue_perm (values : K → F) {left right : List (K × Int)} (perm : left.Perm right) :
    formValue values left = formValue values right :=
  (perm.map _).sum_eq

theorem formValue_neg (values : K → F) (terms : List (K × Int)) :
    formValue values (terms.map fun term => (term.1, -term.2)) = -formValue values terms := by
  induction terms with
  | nil => simp
  | cons term rest ih =>
      rw [List.map_cons, formValue_cons, formValue_cons, ih]
      push_cast
      ring

/-- A form that does not mention a variable does not depend on it. -/
theorem formValue_update [DecidableEq K] (values : K → F) {terms : List (K × Int)} {key : K}
    (value : F) (absent : ∀ term ∈ terms, term.1 ≠ key) :
    formValue (Function.update values key value) terms = formValue values terms := by
  unfold formValue
  refine congrArg List.sum (List.map_congr_left fun term member => ?_)
  rw [Function.update_of_ne (absent term member)]

end Values

/-! ## Coefficient maps -/

section Coefficients

variable {K F : Type} [LinearOrder K] [Field F]

def coefficient (map : OrdMap K Int) (key : K) : Int := (map.get? key).getD 0

theorem formValue_erase (values : K → F) (map : OrdMap K Int) (key : K) :
    formValue values map.toList =
      (coefficient map key : F) * values key + formValue values (map.erase key).toList := by
  unfold coefficient
  cases found : map.get? key with
  | some value =>
      rw [formValue_perm values (map.perm_erase_of_get? found), formValue_cons]
      rfl
  | none =>
      have same : (map.erase key).toList = map.toList := by
        refine List.filter_eq_self.mpr fun entry member => ?_
        exact decide_eq_true ((OrdMap.get?_eq_none _ _).mp found entry member)
      rw [same]
      simp

theorem formValue_insert (values : K → F) (map : OrdMap K Int) {key : K} (value : Int)
    (fresh : map.get? key = none) :
    formValue values (map.insert key value).toList =
      (value : F) * values key + formValue values map.toList := by
  have erased : ((map.insert key value).erase key).toList = map.toList := by
    refine OrdMap.sorted_ext (OrdMap.sorted _) map.sorted fun entry => ?_
    rw [OrdMap.mem_erase, OrdMap.mem_insert]
    constructor
    · rintro ⟨rfl | ⟨member, _⟩, apart⟩
      · exact absurd rfl apart
      · exact member
    · intro member
      have apart := (OrdMap.get?_eq_none _ _).mp fresh entry member
      exact ⟨Or.inr ⟨member, apart⟩, apart⟩
  rw [formValue_erase values _ key, erased, coefficient, OrdMap.get?_insert, if_pos rfl]
  rfl

/-- The value of a form, summed over any keys that include its own. -/
theorem formValue_eq_sum (values : K → F) (keys : List K) : ∀ map : OrdMap K Int, keys.Nodup →
    (∀ entry ∈ map.toList, entry.1 ∈ keys) →
    formValue values map.toList =
      (keys.map fun key => (coefficient map key : F) * values key).sum := by
  induction keys with
  | nil =>
      intro map _ inside
      have empty : map.toList = [] :=
        List.eq_nil_iff_forall_not_mem.mpr fun entry member => by cases inside entry member
      rw [empty]
      rfl
  | cons key rest ih =>
      intro map nodup inside
      obtain ⟨fresh, nodup⟩ := List.nodup_cons.mp nodup
      rw [formValue_erase values map key, ih (map.erase key) nodup, List.map_cons, List.sum_cons]
      · refine congrArg₂ _ rfl (congrArg List.sum (List.map_congr_left fun other member => ?_))
        have apart : other ≠ key := fun same => fresh (same ▸ member)
        rw [coefficient, coefficient, OrdMap.get?_erase, if_neg apart]
      · intro entry member
        obtain ⟨member, apart⟩ := (OrdMap.mem_erase _ _ _).mp member
        exact (List.mem_cons.mp (inside entry member)).resolve_left apart

end Coefficients

/-! ## Projection -/

section Projection

variable {F : Type} [Field F] [LinearOrder F] [IsStrictOrderedRing F]

omit [IsStrictOrderedRing F] in
theorem exists_between (lowers uppers : List F)
    (ordered : ∀ lower ∈ lowers, ∀ upper ∈ uppers, lower ≤ upper) :
    ∃ value, (∀ lower ∈ lowers, lower ≤ value) ∧ ∀ upper ∈ uppers, value ≤ upper := by
  by_cases bounded : lowers = []
  · by_cases free : uppers = []
    · rw [bounded, free]
      exact ⟨0, by simp, by simp⟩
    · obtain ⟨least, member, minimal⟩ := uppers.toFinset.exists_min_image id
        (by simpa using free)
      refine ⟨least, by simp [bounded], fun upper inside => ?_⟩
      exact minimal upper (List.mem_toFinset.mpr inside)
  · obtain ⟨greatest, member, maximal⟩ := lowers.toFinset.exists_max_image id
      (by simpa using bounded)
    refine ⟨greatest, fun lower inside => maximal lower (List.mem_toFinset.mpr inside), ?_⟩
    exact ordered greatest (List.mem_toFinset.mp member)

/-- Bounds with positive factors: `factor * x ≤ bound` above, `bound ≤ factor * x` below. -/
theorem exists_between_scaled (lowers uppers : List (F × F))
    (lowersPositive : ∀ lower ∈ lowers, 0 < lower.1)
    (uppersPositive : ∀ upper ∈ uppers, 0 < upper.1)
    (crossed : ∀ upper ∈ uppers, ∀ lower ∈ lowers, upper.1 * lower.2 ≤ lower.1 * upper.2) :
    ∃ value, (∀ lower ∈ lowers, lower.2 ≤ lower.1 * value) ∧
      ∀ upper ∈ uppers, upper.1 * value ≤ upper.2 := by
  obtain ⟨value, above, below⟩ := exists_between
    (lowers.map fun lower => lower.2 / lower.1) (uppers.map fun upper => upper.2 / upper.1) (by
      intro low lowMember up upMember
      obtain ⟨lower, lowerMember, rfl⟩ := List.mem_map.mp lowMember
      obtain ⟨upper, upperMember, rfl⟩ := List.mem_map.mp upMember
      rw [div_le_div_iff₀ (lowersPositive lower lowerMember) (uppersPositive upper upperMember)]
      have cross := crossed upper upperMember lower lowerMember
      linarith only [cross])
  refine ⟨value, fun lower member => ?_, fun upper member => ?_⟩
  · have bound := above _ (List.mem_map.mpr ⟨lower, member, rfl⟩)
    rw [div_le_iff₀ (lowersPositive lower member)] at bound
    linarith only [bound]
  · have bound := below _ (List.mem_map.mpr ⟨upper, member, rfl⟩)
    rw [le_div_iff₀ (uppersPositive upper member)] at bound
    linarith only [bound]

end Projection

/-! ## Lists computed one by one -/

theorem mem_of_mapM {A B : Type} {compute : A → Option B} (inputs : List A) : ∀ {outputs : List B},
    inputs.mapM compute = some outputs →
    ∀ output, output ∈ outputs ↔ ∃ input ∈ inputs, compute input = some output := by
  induction inputs with
  | nil =>
      intro outputs run output
      cases Option.some.inj run
      simp
  | cons input rest ih =>
      intro outputs run output
      rw [List.mapM_cons] at run
      obtain ⟨first, computed, run⟩ := Option.bind_eq_some_iff.mp run
      obtain ⟨later, restRun, run⟩ := Option.bind_eq_some_iff.mp run
      cases Option.some.inj run
      rw [List.mem_cons, ih restRun, List.exists_mem_cons_iff, computed, Option.some.injEq]
      exact or_congr_left eq_comm

theorem exists_of_mapM {A B : Type} {compute : A → Option B} (inputs : List A) :
    ∀ {outputs : List B}, inputs.mapM compute = some outputs →
    ∀ input ∈ inputs, ∃ output ∈ outputs, compute input = some output := by
  induction inputs with
  | nil =>
      intro outputs _ input member
      cases member
  | cons head rest ih =>
      intro outputs run input member
      rw [List.mapM_cons] at run
      obtain ⟨first, computed, run⟩ := Option.bind_eq_some_iff.mp run
      obtain ⟨later, restRun, run⟩ := Option.bind_eq_some_iff.mp run
      cases Option.some.inj run
      rcases List.mem_cons.mp member with rfl | member
      · exact ⟨first, List.mem_cons_self, computed⟩
      · obtain ⟨output, inside, found⟩ := ih restRun input member
        exact ⟨output, List.mem_cons_of_mem _ inside, found⟩

end Pantheon.Lib
