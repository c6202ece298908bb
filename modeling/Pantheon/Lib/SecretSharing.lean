import Mathlib

/-!
# Sharing a secret by a polynomial

The coefficients of a polynomial over a field, the secret first, are evaluated at points.
As many values as coefficients give the secret back, by interpolation at zero.  With one
value fewer, at points other than zero, every secret is met by exactly one choice of the
other coefficients.
-/

set_option autoImplicit false

namespace Pantheon.Lib

open Polynomial

variable {F : Type} [Field F]

def hornerEval (coeffs : List F) (point : F) : F :=
  coeffs.foldr (fun coeff value => value * point + coeff) 0

noncomputable def polynomialOf (coeffs : List F) : F[X] :=
  coeffs.foldr (fun coeff poly => poly * X + C coeff) 0

theorem polynomialOf_cons (coeff : F) (coeffs : List F) :
    polynomialOf (coeff :: coeffs) = polynomialOf coeffs * X + C coeff :=
  rfl

theorem eval_polynomialOf (point : F) (coeffs : List F) :
    (polynomialOf coeffs).eval point = hornerEval coeffs point := by
  induction coeffs with
  | nil => exact eval_zero
  | cons coeff coeffs ih =>
      rw [polynomialOf_cons, eval_add, eval_mul, eval_X, eval_C, ih]
      rfl

theorem coeff_polynomialOf (coeffs : List F) :
    ∀ power, (polynomialOf coeffs).coeff power = coeffs.getD power 0 := by
  induction coeffs with
  | nil =>
      intro power
      exact coeff_zero power
  | cons coeff coeffs ih =>
      intro power
      rw [polynomialOf_cons, coeff_add]
      cases power with
      | zero => rw [coeff_mul_X_zero, coeff_C_zero, zero_add, List.getD_cons_zero]
      | succ power => rw [coeff_mul_X, coeff_C_succ, add_zero, ih, List.getD_cons_succ]

theorem degree_polynomialOf_lt (coeffs : List F) :
    (polynomialOf coeffs).degree < coeffs.length := by
  rw [degree_lt_iff_coeff_zero]
  intro power beyond
  rw [coeff_polynomialOf, List.getD_eq_default _ _ beyond]

/-! ## Interpolation at zero -/

section AtZero

variable {Node : Type} [DecidableEq Node]

def weightAtZero (nodes : Finset Node) (point : Node → F) (node : Node) : F :=
  (∏ other ∈ nodes.erase node, point other) *
    (∏ other ∈ nodes.erase node, (point other - point node))⁻¹

theorem eval_zero_basis (nodes : Finset Node) (point : Node → F) (node : Node) :
    (Lagrange.basis nodes point node).eval 0 = weightAtZero nodes point node := by
  have divisor : ∀ first second : F,
      (Lagrange.basisDivisor first second).eval 0 = second * (second - first)⁻¹ := by
    intro first second
    rw [Lagrange.basisDivisor, eval_mul, eval_C, eval_sub, eval_X, eval_C, zero_sub,
      ← neg_sub second first, inv_neg]
    ring
  rw [Lagrange.basis, eval_prod, weightAtZero, ← Finset.prod_inv_distrib,
    ← Finset.prod_mul_distrib]
  exact Finset.prod_congr rfl fun other _ => divisor _ _

variable {nodes : Finset Node} {point weight : Node → F} {count : Nat}

/-- A node that shares its point with another counts for nothing. -/
theorem weightAtZero_repeated {node other : Node}
    (inside : other ∈ nodes) (apart : other ≠ node) (same : point other = point node) :
    weightAtZero nodes point node = 0 := by
  have zero : ∏ other ∈ nodes.erase node, (point other - point node) = 0 :=
    Finset.prod_eq_zero (Finset.mem_erase.mpr ⟨apart, inside⟩) (sub_eq_zero.mpr same)
  rw [weightAtZero, zero, inv_zero, mul_zero]

/-! ## Weights that give the constant term -/

theorem hornerEval_eq_sum (coeffs : List F) (point : F) :
    hornerEval coeffs point =
      ∑ power ∈ Finset.range coeffs.length, coeffs.getD power 0 * point ^ power := by
  induction coeffs with
  | nil => rfl
  | cons coeff coeffs ih =>
      rw [List.length_cons, Finset.sum_range_succ', List.getD_cons_zero, pow_zero, mul_one]
      have shifted : ∀ power, (coeff :: coeffs).getD (power + 1) 0 * point ^ (power + 1) =
          coeffs.getD power 0 * point ^ power * point := by
        intro power
        rw [List.getD_cons_succ, pow_succ, mul_assoc]
      simp only [shifted, ← Finset.sum_mul, ← ih]
      rfl

/-- The weights give the value at zero of every power below the count. -/
def ReproducesPowers (nodes : Finset Node) (point weight : Node → F) (count : Nat) : Prop :=
  ∀ power < count, ∑ node ∈ nodes, point node ^ power * weight node = 0 ^ power

omit [DecidableEq Node] in
theorem ReproducesPowers.sum_eval
    (reproduces : ReproducesPowers nodes point weight count) {poly : F[X]}
    (degree : poly.natDegree < count) :
    ∑ node ∈ nodes, poly.eval (point node) * weight node = poly.eval 0 := by
  simp only [eval_eq_sum_range' degree, Finset.sum_mul]
  rw [Finset.sum_comm]
  apply Finset.sum_congr rfl
  intro power member
  rw [← reproduces power (Finset.mem_range.mp member), Finset.mul_sum]
  exact Finset.sum_congr rfl fun node _ => mul_assoc _ _ _

omit [DecidableEq Node] in
theorem ReproducesPowers.sum_hornerEval
    {secret : F} {others : List F}
    (reproduces : ReproducesPowers nodes point weight (others.length + 1)) :
    ∑ node ∈ nodes, hornerEval (secret :: others) (point node) * weight node = secret := by
  have degree : (polynomialOf (secret :: others)).natDegree < others.length + 1 := by
    apply Nat.lt_succ_of_le
    rw [natDegree_le_iff_coeff_eq_zero]
    intro power beyond
    rw [coeff_polynomialOf, List.getD_eq_default _ _ beyond]
  simp only [← eval_polynomialOf]
  rw [reproduces.sum_eval degree, ← coeff_zero_eq_eval_zero, coeff_polynomialOf,
    List.getD_cons_zero]

/-- Distinct nodes, at least as many as the count. -/
theorem reproducesPowers_of_distinct
    (distinct : Set.InjOn point nodes) (enough : count ≤ nodes.card) :
    ReproducesPowers nodes point (weightAtZero nodes point) count := by
  intro power below
  have low : (X ^ power : F[X]).degree < nodes.card := by
    rw [degree_X_pow]
    exact_mod_cast lt_of_lt_of_le below enough
  have interpolated := congrArg (eval 0) (Lagrange.eq_interpolate distinct low)
  rw [eval_pow, eval_X, Lagrange.interpolate_apply, eval_finsetSum] at interpolated
  refine Eq.trans (Finset.sum_congr rfl ?_) interpolated.symm
  intro node _
  rw [eval_mul, eval_C, eval_pow, eval_X, eval_zero_basis]

/-- Values at distinct nodes, at least as many as coefficients, give the constant term. -/
theorem sum_weightAtZero
    (distinct : Set.InjOn point nodes) (secret : F) (others : List F)
    (enough : others.length + 1 ≤ nodes.card) :
    ∑ node ∈ nodes, hornerEval (secret :: others) (point node) * weightAtZero nodes point node =
      secret :=
  (reproducesPowers_of_distinct distinct enough).sum_hornerEval

def powerCoeffs (count power : Nat) : List F :=
  (List.range count).map fun position => if position = power then 1 else 0

theorem hornerEval_powerCoeffs {power : Nat} (inside : power < count) (point : F) :
    hornerEval (powerCoeffs count power) point = point ^ power := by
  rw [hornerEval_eq_sum, powerCoeffs, List.length_map, List.length_range,
    Finset.sum_eq_single power]
  · rw [List.getD_eq_getElem _ _ (by simpa using inside), List.getElem_map, List.getElem_range,
      if_pos rfl, one_mul]
  · intro other member apart
    have within := Finset.mem_range.mp member
    rw [List.getD_eq_getElem _ _ (by simpa using within), List.getElem_map, List.getElem_range,
      if_neg apart, zero_mul]
  · intro absent
    exact absurd (Finset.mem_range.mpr inside) absent

/-- Fewer weights than the count that are not zero give no constant term: a polynomial
vanishes at their points. -/
theorem not_reproducesPowers_of_few {counted : Finset Node}
    (few : counted.card < count) (uncounted : ∀ node ∈ nodes, node ∉ counted →
      weight node = 0) (nonzero : ∀ node ∈ counted, point node ≠ 0) :
    ¬ReproducesPowers nodes point weight count := by
  intro reproduces
  let vanishing : F[X] := ∏ node ∈ counted, (X - C (point node))
  have degree : vanishing.natDegree < count := by
    rw [natDegree_prod_of_monic _ _ fun node _ => monic_X_sub_C _]
    simpa using few
  have restored := reproduces.sum_eval degree
  have nothing : ∑ node ∈ nodes, vanishing.eval (point node) * weight node = 0 := by
    apply Finset.sum_eq_zero
    intro node member
    by_cases listed : node ∈ counted
    · rw [eval_prod, Finset.prod_eq_zero listed (by simp), zero_mul]
    · rw [uncounted node member listed, mul_zero]
  rw [nothing, eval_prod, eq_comm, Finset.prod_eq_zero_iff] at restored
  obtain ⟨node, member, zero⟩ := restored
  exact nonzero node member (by simpa using zero)

end AtZero

/-! ## One value fewer -/

variable {count : Nat}

def withZero (point : Fin count → F) : Option (Fin count) → F
  | none => 0
  | some index => point index

theorem withZero_injective {point : Fin count → F} (distinct : Function.Injective point)
    (nonzero : ∀ index, point index ≠ 0) : Function.Injective (withZero point) := by
  intro left right same
  cases left with
  | none =>
      cases right with
      | none => rfl
      | some index => exact absurd same.symm (nonzero index)
  | some first =>
      cases right with
      | none => exact absurd same (nonzero first)
      | some second => exact congrArg some (distinct same)

theorem injOn_withZero {point : Fin count → F} (distinct : Function.Injective point)
    (nonzero : ∀ index, point index ≠ 0) :
    Set.InjOn (withZero point) (Finset.univ : Finset (Option (Fin count))) :=
  (withZero_injective distinct nonzero).injOn

theorem eq_of_agreesWithZero {point : Fin count → F} (distinct : Function.Injective point)
    (nonzero : ∀ index, point index ≠ 0) {left right : F[X]}
    (leftLow : left.degree < (count + 1 : Nat)) (rightLow : right.degree < (count + 1 : Nat))
    (agrees : ∀ node, left.eval (withZero point node) = right.eval (withZero point node)) :
    left = right := by
  have card : (Finset.univ : Finset (Option (Fin count))).card = count + 1 := by
    rw [Finset.card_univ, Fintype.card_option, Fintype.card_fin]
  have injective := injOn_withZero distinct nonzero
  rw [← card] at leftLow rightLow
  exact eq_of_degrees_lt_of_eval_index_eq Finset.univ injective leftLow rightLow
    fun node _ => agrees node

/-- Exactly one choice of the other coefficients gives the values. -/
theorem existsUnique_coefficients {point : Fin count → F} (distinct : Function.Injective point)
    (nonzero : ∀ index, point index ≠ 0) (secret : F) (value : Fin count → F) :
    ∃! others : Fin count → F,
      ∀ index, hornerEval (secret :: List.ofFn others) (point index) = value index := by
  have card : (Finset.univ : Finset (Option (Fin count))).card = count + 1 := by
    rw [Finset.card_univ, Fintype.card_option, Fintype.card_fin]
  have low : ∀ others : Fin count → F,
      (polynomialOf (secret :: List.ofFn others)).degree < (count + 1 : Nat) := by
    intro others
    have degree := degree_polynomialOf_lt (secret :: List.ofFn others)
    rw [List.length_cons, List.length_ofFn] at degree
    exact degree
  have constant : ∀ others : Fin count → F,
      (polynomialOf (secret :: List.ofFn others)).eval 0 = secret := by
    intro others
    rw [← coeff_zero_eq_eval_zero, coeff_polynomialOf, List.getD_cons_zero]
  let wanted : Option (Fin count) → F := fun node => node.elim secret value
  let poly := Lagrange.interpolate Finset.univ (withZero point) wanted
  have injective := injOn_withZero distinct nonzero
  have polyLow : poly.degree < (count + 1 : Nat) := by
    have degree := Lagrange.degree_interpolate_lt wanted injective
    rw [card] at degree
    exact degree
  have meets : ∀ node, poly.eval (withZero point node) = wanted node := fun node =>
    Lagrange.eval_interpolate_at_node wanted injective (Finset.mem_univ node)
  have rebuilt : polynomialOf (secret :: List.ofFn fun index : Fin count =>
      poly.coeff (index + 1)) = poly := by
    ext power
    rw [coeff_polynomialOf]
    cases power with
    | zero =>
        rw [List.getD_cons_zero, coeff_zero_eq_eval_zero]
        exact (meets none).symm
    | succ power =>
        rw [List.getD_cons_succ]
        by_cases inside : power < count
        · rw [List.getD_eq_getElem _ _ (by rwa [List.length_ofFn]), List.getElem_ofFn]
        · rw [List.getD_eq_default _ _ (by rw [List.length_ofFn]; omega)]
          exact (degree_lt_iff_coeff_zero poly _).mp polyLow (power + 1) (by omega) |>.symm
  refine ⟨fun index => poly.coeff (index + 1), ?_, ?_⟩
  · intro index
    rw [← eval_polynomialOf, rebuilt]
    exact meets (some index)
  · intro others gives
    have same : polynomialOf (secret :: List.ofFn others) = poly := by
      apply eq_of_agreesWithZero distinct nonzero (low others) polyLow
      intro node
      rw [meets node]
      cases node with
      | none => exact constant others
      | some index => exact (eval_polynomialOf _ _).trans (gives index)
    funext index
    rw [← same, coeff_polynomialOf, List.getD_cons_succ,
      List.getD_eq_getElem _ _ (by rw [List.length_ofFn]; exact index.isLt), List.getElem_ofFn]

end Pantheon.Lib
