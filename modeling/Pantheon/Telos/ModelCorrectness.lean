import Mathlib
import Pantheon.Telos.ModelTermination

/-!
# What the models of `solve_model` satisfy

While no result leaves `i128` a call eliminates as the solver does, so what it passes on
follows from what it got.  A value between the bounds of the variable then satisfies every
inequality of the call.
-/

set_option autoImplicit false

namespace Pantheon.Telos

open Pantheon.Lib

variable {result num den : Int} {A B : Type} {upper lower : Bound} {name : String}
  {ineqs next : List LinIneq} {frac : Frac} {model : IntModel} {order : KeyOrder}

/-! ## The machine's integers -/

abbrev Fits128 (value : Int) : Prop := -2 ^ 127 ≤ value ∧ value < 2 ^ 127

theorem word128_debug {value : Int} (run : Profile.debug.word128 value = .ok result) :
    result = value ∧ Fits128 value := by
  unfold Profile.word128 Profile.word at run
  split_ifs at run with fits
  cases run
  exact ⟨rfl, of_decide_eq_true fits⟩

/-- The release build computes what the debug build does, where that does not panic. -/
def Kept {A : Type} (run : Profile → Except Stop A) : Prop :=
  ∀ value, run .debug = .ok value → run .release = .ok value

theorem kept_ok (value : A) : Kept fun _ => .ok value := fun _ run => run

theorem Kept.bind {run : Profile → Except Stop A}
    {next : A → Profile → Except Stop B} (first : Kept run) (rest : ∀ value, Kept (next value)) :
    Kept fun profile => run profile >>= fun value => next value profile := by
  intro result ended
  obtain ⟨value, ran, ended⟩ := bind_ok ended
  change run .release >>= _ = _
  rw [first value ran]
  exact rest value result ended

theorem word128_kept (value : Int) : Kept fun profile => profile.word128 value := by
  intro result run
  obtain ⟨rfl, fits⟩ := word128_debug run
  refine (word128_follows result).answers result ?_
  exact if_pos (decide_eq_true fits)

theorem crossedRun_kept (upper left lower right : Int) :
    Kept fun profile => crossedRun profile upper left lower right :=
  (word128_kept _).bind fun _ => (word128_kept _).bind fun _ => word128_kept _

theorem combineKeysRun_kept (upper lower : Bound) (keys : List String) :
    ∀ coeffs, Kept fun profile => combineKeysRun profile upper lower keys coeffs := by
  induction keys with
  | nil => exact fun coeffs => kept_ok coeffs
  | cons key rest ih => exact fun coeffs => (crossedRun_kept _ _ _ _).bind fun coeff => ih _

theorem combineRun_kept (upper lower : Bound) :
    Kept fun profile => combineRun profile upper lower :=
  (combineKeysRun_kept _ _ _ _).bind fun _ => (crossedRun_kept _ _ _ _).bind fun _ => kept_ok _

theorem mapM_kept {compute : Profile → A → Except Stop B}
    (each : ∀ input, Kept fun profile => compute profile input) (inputs : List A) :
    Kept fun profile => inputs.mapM (compute profile) := by
  induction inputs with
  | nil => exact kept_ok []
  | cons input rest ih =>
      simp only [List.mapM_cons]
      exact (each input).bind fun _ => ih.bind fun _ => kept_ok _

theorem nextIneqs_kept (name : String) (ineqs : List LinIneq) :
    Kept fun profile => nextIneqs profile name ineqs := by
  have each : ∀ pair : Bound × Bound, Kept fun profile => combineRun profile pair.1 pair.2 :=
    fun pair => combineRun_kept pair.1 pair.2
  unfold nextIneqs
  exact (mapM_kept each _).bind fun combined => kept_ok (others name ineqs ++ combined)

theorem evalKeys_kept (coeffs : OrdMap String Int) (model : IntModel) (keys : List String) :
    ∀ sum, Kept fun profile => evalKeys profile coeffs model keys sum := by
  induction keys with
  | nil => exact fun sum => kept_ok sum
  | cons key rest ih =>
      exact fun sum => (word128_kept _).bind fun _ => (word128_kept _).bind fun sum => ih sum

theorem withSignOf_kept (den value : Int) : Kept fun profile => withSignOf profile den value := by
  unfold withSignOf
  split_ifs
  · exact word128_kept _
  · exact kept_ok _

theorem fracNew_kept (num den : Int) : Kept fun profile => Frac.new profile num den :=
  (withSignOf_kept den num).bind fun _ => (withSignOf_kept den den).bind fun _ => kept_ok _

theorem lowerFrac_kept (order : KeyOrder) (model : IntModel) (lower : Bound) :
    Kept fun profile => lowerFrac profile order model lower :=
  (evalKeys_kept _ _ _ _).bind fun _ => (word128_kept _).bind fun _ => (word128_kept _).bind
    fun _ => fracNew_kept _ _

theorem upperFrac_kept (order : KeyOrder) (model : IntModel) (upper : Bound) :
    Kept fun profile => upperFrac profile order model upper :=
  (evalKeys_kept _ _ _ _).bind fun _ => (word128_kept _).bind fun _ => fracNew_kept _ _

theorem tightest_kept {frac : Profile → Bound → Except Stop Frac}
    (each : ∀ bound, Kept fun profile => frac profile bound) (tighter : Int → Int → Bool)
    (bounds : List Bound) :
    ∀ best, Kept fun profile => tightest profile (frac profile) tighter bounds best := by
  induction bounds with
  | nil => exact fun best => kept_ok best
  | cons bound rest ih =>
      intro best
      cases best with
      | none => exact (each bound).bind fun found => ih _
      | some best =>
          exact (each bound).bind fun found => (word128_kept _).bind fun _ =>
            (word128_kept _).bind fun _ => ih _

theorem ceil_kept (frac : Frac) : Kept fun profile => frac.ceil profile := by
  unfold Frac.ceil
  split_ifs
  · exact kept_ok _
  · exact word128_kept _

theorem valueBetween_kept (low high : Option Frac) :
    Kept fun profile => valueBetween profile low high := by
  cases low with
  | none => cases high <;> exact kept_ok _
  | some low => cases high <;> exact (ceil_kept low).bind fun _ => kept_ok _

theorem boundedValue_kept (order : KeyOrder) (name : String) (ineqs : List LinIneq)
    (model : IntModel) : Kept fun profile => boundedValue profile order name ineqs model :=
  (tightest_kept (lowerFrac_kept order model) _ _ _).bind fun _ =>
    (tightest_kept (upperFrac_kept order model) _ _ _).bind fun _ => valueBetween_kept _ _

theorem recover_kept (order : KeyOrder) (name : String) (ineqs : List LinIneq) (model : IntModel) :
    Kept fun profile => recover profile order name ineqs model :=
  (boundedValue_kept order name ineqs model).bind fun _ => kept_ok _

theorem solveModel_same (order : KeyOrder) (calls : Nat) : ∀ ineqs : List LinIneq,
    (∀ stop, solveModel .debug order calls ineqs ≠ some (.error stop)) →
      solveModel .release order calls ineqs = solveModel .debug order calls ineqs := by
  induction calls with
  | zero => exact fun ineqs _ => rfl
  | succ calls ih =>
      intro ineqs kept
      cases taken : (vars order ineqs).head? with
      | none => simp only [solveModel, taken]
      | some name =>
          cases debug : nextIneqs .debug name ineqs with
          | error stop => exact absurd (solveModel_stop taken debug calls) (kept stop)
          | ok next =>
              have released : nextIneqs .release name ineqs = .ok next :=
                nextIneqs_kept name ineqs next debug
              simp only [solveModel_next taken debug] at kept ⊢
              rw [solveModel_next taken released]
              cases below : solveModel .debug order calls next with
              | none =>
                  rw [ih next (by simp [below]), below]
                  rfl
              | some answer =>
                  rw [below] at kept
                  cases answer with
                  | error stop => exact absurd rfl (kept stop)
                  | ok found =>
                      rw [ih next (by simp [below]), below]
                      cases found with
                      | none => rfl
                      | some model =>
                          cases recovered : recover .debug order name ineqs model with
                          | error stop => exact absurd (congrArg some recovered) (kept stop)
                          | ok result =>
                              have same := recover_kept order name ineqs model result recovered
                              exact congrArg some (same.trans recovered.symm)

/-! ## Elimination -/

def Bound.flipped (lower : Bound) : Bound :=
  ⟨-lower.factor, -lower.bound, lower.coeffs.mapValues fun _ coeff => -coeff⟩

theorem coefficient_flipped (lower : Bound) (key : String) :
    coefficient lower.flipped.coeffs key = -coefficient lower.coeffs key := by
  unfold coefficient Bound.flipped
  rw [OrdMap.get?_mapValues]
  cases lower.coeffs.get? key <;> rfl

theorem mergeKeys_flipped (upper lower : Bound) :
    mergeKeys upper.coeffs lower.flipped.coeffs = mergeKeys upper.coeffs lower.coeffs := by
  unfold mergeKeys Bound.flipped OrdMap.mapValues
  rw [List.map_map]
  rfl

theorem crossedRun_debug {upper left lower right : Int}
    (run : crossedRun .debug upper left lower right = .ok result) :
    result = upper * left - lower * right ∧ Fits128 result := by
  obtain ⟨one, oneRun, run⟩ := bind_ok run
  obtain ⟨other, otherRun, run⟩ := bind_ok run
  obtain ⟨rfl, -⟩ := word128_debug oneRun
  obtain ⟨rfl, -⟩ := word128_debug otherRun
  obtain ⟨rfl, fits⟩ := word128_debug run
  exact ⟨rfl, fits⟩

theorem crossed_unbounded {lower left upper right : Int} :
    crossed unbounded lower left upper right = some (lower * left - upper * right) := rfl

theorem combineKeysRun_exact (keys : List String) :
    ∀ {coeffs next : OrdMap String Int},
      combineKeysRun .debug upper lower keys coeffs = .ok next →
      combineCoeffs unbounded upper lower.flipped keys coeffs = some next := by
  induction keys with
  | nil =>
      intro coeffs next run
      cases run
      rfl
  | cons key rest ih =>
      intro coeffs next run
      obtain ⟨coeff, crossedRun_, run⟩ := bind_ok run
      obtain ⟨rfl, -⟩ := crossedRun_debug crossedRun_
      have same : lower.flipped.factor * coefficient upper.coeffs key -
          upper.factor * coefficient lower.flipped.coeffs key =
          upper.factor * coefficient lower.coeffs key -
            lower.factor * coefficient upper.coeffs key := by
        rw [coefficient_flipped, Bound.flipped]
        ring
      rw [combineCoeffs, crossed_unbounded, same]
      exact ih run

theorem combineRun_exact {ineq : LinIneq}
    (run : combineRun .debug upper lower = .ok ineq) :
    combine unbounded upper lower.flipped = some ineq := by
  obtain ⟨coeffs, coeffsRun, run⟩ := bind_ok run
  obtain ⟨c, cRun, run⟩ := bind_ok run
  cases run
  obtain ⟨rfl, -⟩ := crossedRun_debug cRun
  have same : lower.flipped.factor * upper.bound - upper.factor * lower.flipped.bound =
      upper.factor * lower.bound - lower.factor * upper.bound := by
    unfold Bound.flipped
    ring
  rw [combine, mergeKeys_flipped, combineKeysRun_exact _ coeffsRun, crossed_unbounded, same]
  rfl

theorem lowers_unbounded (name : String) (ineqs : List LinIneq) :
    lowers unbounded name ineqs = some ((modelLowers name ineqs).map Bound.flipped) := by
  induction ineqs with
  | nil => rfl
  | cons ineq rest ih =>
      rw [lowers, modelLowers, List.filterMap_cons]
      cases ineq.coeffs.get? name with
      | none => exact ih
      | some coeff =>
          by_cases negative : coeff < 0
          · have held : negated unbounded (ineq.coeffs.erase name) =
                some ((ineq.coeffs.erase name).mapValues fun _ coeff => -coeff) :=
              if_pos (List.all_eq_true.mpr fun _ _ => rfl)
            simp only [if_pos negative, ih, lowerOf, held]
            rfl
          · simp only [if_neg negative, ih]
            rfl

theorem mapM_exact {C : Type} {compute : A → Except Stop C} {image : A → B}
    {exact_ : B → Option C}
    (each : ∀ input output, compute input = .ok output → exact_ (image input) = some output)
    (inputs : List A) : ∀ {outputs : List C}, inputs.mapM compute = .ok outputs →
      (inputs.map image).mapM exact_ = some outputs := by
  induction inputs with
  | nil =>
      intro outputs run
      cases run
      rfl
  | cons input rest ih =>
      intro outputs run
      rw [List.mapM_cons] at run
      obtain ⟨first, firstRun, run⟩ := bind_ok run
      obtain ⟨later, laterRun, run⟩ := bind_ok run
      cases run
      rw [List.map_cons, List.mapM_cons, each input first firstRun, ih laterRun]
      rfl

theorem nextIneqs_exact
    (run : nextIneqs .debug name ineqs = .ok next) :
    eliminate unbounded name ineqs = some next := by
  obtain ⟨combined, combinedRun, run⟩ := bind_ok run
  cases run
  have pairs : (uppers name ineqs).flatMap (fun upper =>
      ((modelLowers name ineqs).map Bound.flipped).map fun lower => (upper, lower)) =
      ((uppers name ineqs).flatMap fun upper =>
        (modelLowers name ineqs).map fun lower => (upper, lower)).map fun pair =>
          (pair.1, pair.2.flipped) := by
    simp only [List.map_flatMap, List.map_map]
    rfl
  have exact_ := @mapM_exact _ _ _ (fun pair : Bound × Bound => combineRun .debug pair.1 pair.2)
    (fun pair => (pair.1, pair.2.flipped)) (fun pair => combine unbounded pair.1 pair.2)
    (fun pair ineq made => combineRun_exact made) _ _ combinedRun
  rw [eliminate, lowers_unbounded]
  simp only [Option.bind_eq_bind, Option.bind_some, pairs]
  rw [exact_]
  rfl

theorem nextIneqs_keeps
    (run : nextIneqs .debug name ineqs = .ok next) {values : String → ℚ}
    (sat : AllSat values ineqs) : AllSat values next :=
  eliminate_keeps (nextIneqs_exact run) sat

def AllFit (ineqs : List LinIneq) : Prop :=
  ∀ ineq ∈ ineqs, ∀ entry ∈ ineq.coeffs.toList, Fits128 entry.2

theorem nextIneqs_fit
    (run : nextIneqs .debug name ineqs = .ok next) (fits : AllFit ineqs) : AllFit next := by
  intro ineq member entry held
  rcases nextIneqs_source run member with ⟨old, -⟩ | ⟨above, -, below, -, made⟩
  · exact fits ineq old entry held
  · exact (crossedRun_debug (made entry held).2).2

/-! ## Fractions -/

def Frac.value (frac : Frac) : ℚ := frac.num / frac.den

theorem unsigned_eq {value : Int} (positive : 0 ≤ value) (fits : value < 2 ^ 127) :
    value % 2 ^ 128 = value :=
  Int.emod_eq_of_lt positive (fits.trans (by norm_num))

theorem signed_eq {value : Int} (positive : 0 ≤ value) (fits : value < 2 ^ 127) :
    value.bmod (2 ^ 128) = value := by
  apply Int.bmod_eq_of_le <;> omega

theorem reduced_eq (positive : 0 < den) (fits : den < 2 ^ 127) :
    reduced num den = ⟨num.tdiv (Int.gcd num den), den.tdiv (Int.gcd num den)⟩ := by
  have gcdPos : 0 < ((Int.gcd num den : Nat) : Int) :=
    Int.natCast_pos.mpr (Int.gcd_pos_of_ne_zero_right num positive.ne')
  have small : ((Int.gcd num den : Nat) : Int) ≤ den :=
    Int.le_of_dvd positive (Int.gcd_dvd_right num den)
  have unsigned := unsigned_eq positive.le fits
  have signed := signed_eq gcdPos.le (small.trans_lt fits)
  unfold reduced
  simp only [unsigned, signed]
  rw [if_neg gcdPos.ne']

theorem value_tdiv_gcd (positive : 0 < den) :
    0 < den.tdiv (Int.gcd num den) ∧
      ((num.tdiv (Int.gcd num den) : Int) : ℚ) / (den.tdiv (Int.gcd num den) : Int) =
        num / den := by
  have gcdPos : 0 < ((Int.gcd num den : Nat) : Int) :=
    Int.natCast_pos.mpr (Int.gcd_pos_of_ne_zero_right num positive.ne')
  have ofTop : ((Int.gcd num den : Nat) : Int) ∣ num := Int.gcd_dvd_left num den
  have ofBottom : ((Int.gcd num den : Nat) : Int) ∣ den := Int.gcd_dvd_right num den
  generalize ((Int.gcd num den : Nat) : Int) = divisor at gcdPos ofTop ofBottom ⊢
  obtain ⟨top, rfl⟩ := ofTop
  obtain ⟨bottom, rfl⟩ := ofBottom
  rw [Int.mul_tdiv_cancel_left _ gcdPos.ne', Int.mul_tdiv_cancel_left _ gcdPos.ne']
  have nonzero : (divisor : ℚ) ≠ 0 := by exact_mod_cast gcdPos.ne'
  refine ⟨(mul_pos_iff_of_pos_left gcdPos).mp positive, ?_⟩
  push_cast
  exact (mul_div_mul_left _ _ nonzero).symm

theorem fracNew_value (run : Frac.new .debug num den = .ok frac)
    (positive : 0 < den) (fits : den < 2 ^ 127) : 0 < frac.den ∧ frac.value = num / den := by
  obtain ⟨top, topRun, run⟩ := bind_ok run
  obtain ⟨bottom, bottomRun, run⟩ := bind_ok run
  rw [withSignOf, if_neg (not_lt.mpr positive.le)] at topRun bottomRun
  rw [← Except.ok.inj run, ← Except.ok.inj topRun, ← Except.ok.inj bottomRun,
    reduced_eq positive fits]
  exact value_tdiv_gcd positive

theorem value_le_ceil {least : Int} (positive : 0 < frac.den)
    (run : frac.ceil .debug = .ok least) : frac.value ≤ least := by
  have positive' : (0 : ℚ) < frac.den := by exact_mod_cast positive
  have split := Int.emod_add_mul_ediv frac.num frac.den
  have small := Int.emod_lt_of_pos frac.num positive
  rw [Frac.value, div_le_iff₀ positive']
  unfold Frac.ceil at run
  split_ifs at run with whole
  · cases run
    rw [whole, zero_add] at split
    exact_mod_cast (by linarith : frac.num ≤ frac.num / frac.den * frac.den)
  · obtain ⟨rfl, -⟩ := word128_debug run
    have below : frac.num ≤ (frac.num / frac.den + 1) * frac.den := by linarith
    exact_mod_cast below

theorem floor_le_value (positive : 0 < frac.den) :
    (frac.floor : ℚ) ≤ frac.value := by
  have positive' : (0 : ℚ) < frac.den := by exact_mod_cast positive
  rw [Frac.value, le_div_iff₀ positive', Frac.floor]
  exact_mod_cast Int.ediv_mul_le frac.num positive.ne'

/-! ## The bounds of a variable -/

/-- The value a model gives a variable; one it does not hold counts as zero. -/
def IntModel.value (model : IntModel) (name : String) : Int := (model.get? name).getD 0

def IntModel.rational (model : IntModel) (name : String) : ℚ := model.value name

theorem evalKeys_debug {coeffs : OrdMap String Int} (keys : List String) :
    ∀ {sum result : Int}, evalKeys .debug coeffs model keys sum = .ok result →
      (result : ℚ) =
        sum + (keys.map fun key => (coefficient coeffs key : ℚ) * model.rational key).sum := by
  induction keys with
  | nil =>
      intro sum result run
      cases run
      simp
  | cons key rest ih =>
      intro sum result run
      obtain ⟨product, productRun, run⟩ := bind_ok run
      obtain ⟨total, totalRun, run⟩ := bind_ok run
      obtain ⟨rfl, -⟩ := word128_debug productRun
      obtain ⟨rfl, -⟩ := word128_debug totalRun
      rw [ih run, List.map_cons, List.sum_cons, IntModel.rational, IntModel.value]
      push_cast
      ring

theorem eval_debug {coeffs : OrdMap String Int}
    (run : eval .debug order coeffs model = .ok result) :
    (result : ℚ) = formValue model.rational coeffs.toList := by
  have keys := order.perm coeffs
  rw [evalKeys_debug _ run, Int.cast_zero, zero_add, formValue_eq_sum model.rational
    (order.keys coeffs) coeffs (keys.nodup_iff.mpr (keys_nodup coeffs)) fun entry member =>
      keys.mem_iff.mpr (List.mem_map_of_mem member)]

theorem lowerFrac_debug
    (run : lowerFrac .debug order model lower = .ok frac) (negative : lower.factor < 0) :
    0 < frac.den ∧ frac.value =
      (formValue model.rational lower.coeffs.toList - lower.bound) / -lower.factor := by
  obtain ⟨value, valueRun, run⟩ := bind_ok run
  obtain ⟨num, numRun, run⟩ := bind_ok run
  obtain ⟨den, denRun, run⟩ := bind_ok run
  obtain ⟨rfl, -⟩ := word128_debug numRun
  obtain ⟨rfl, fits⟩ := word128_debug denRun
  obtain ⟨positive, value_⟩ := fracNew_value run (by omega) fits.2
  rw [value_, ← eval_debug valueRun]
  push_cast
  exact ⟨positive, rfl⟩

theorem upperFrac_debug
    (run : upperFrac .debug order model upper = .ok frac) (positive : 0 < upper.factor)
    (fits : Fits128 upper.factor) : 0 < frac.den ∧ frac.value =
      (upper.bound - formValue model.rational upper.coeffs.toList) / upper.factor := by
  obtain ⟨value, valueRun, run⟩ := bind_ok run
  obtain ⟨num, numRun, run⟩ := bind_ok run
  obtain ⟨rfl, -⟩ := word128_debug numRun
  obtain ⟨denPositive, value_⟩ := fracNew_value run positive fits.2
  rw [value_, ← eval_debug valueRun]
  push_cast
  exact ⟨denPositive, rfl⟩

/-- How the crosswise products compare the fractions. -/
structure Compares (tighter : Int → Int → Bool) (covers : ℚ → ℚ → Prop) : Prop where
  reads : ∀ left right : Frac, 0 < left.den → 0 < right.den →
    (tighter (left.num * right.den) (right.num * left.den) = true ↔ covers left.value right.value)
  refl : ∀ value, covers value value
  trans : ∀ first second third, covers first second → covers second third → covers first third
  total : ∀ first second, covers first second ∨ covers second first

theorem value_le_iff {left right : Frac} (leftPositive : 0 < left.den)
    (rightPositive : 0 < right.den) :
    left.value ≤ right.value ↔ left.num * right.den ≤ right.num * left.den := by
  have leftDen : (0 : ℚ) < left.den := by exact_mod_cast leftPositive
  have rightDen : (0 : ℚ) < right.den := by exact_mod_cast rightPositive
  rw [Frac.value, Frac.value, div_le_div_iff₀ leftDen rightDen]
  exact_mod_cast Iff.rfl

theorem compares_least : Compares (fun left right => decide (right ≤ left))
    fun first second => second ≤ first where
  reads left right leftPositive rightPositive := by
    rw [value_le_iff rightPositive leftPositive, decide_eq_true_eq]
  refl _ := le_rfl
  trans _ _ _ first second := second.trans first
  total first second := le_total second first

theorem compares_greatest : Compares (fun left right => decide (left ≤ right))
    fun first second => first ≤ second where
  reads left right leftPositive rightPositive := by
    rw [value_le_iff leftPositive rightPositive, decide_eq_true_eq]
  refl _ := le_rfl
  trans _ _ _ first second := first.trans second
  total first second := le_total first second

theorem tightest_covers {frac : Bound → Except Stop Frac} {tighter : Int → Int → Bool}
    {covers : ℚ → ℚ → Prop} (compares : Compares tighter covers) (bounds : List Bound)
    (positive : ∀ bound ∈ bounds, ∀ found, frac bound = .ok found → 0 < found.den) :
    ∀ {best result : Option Frac}, (∀ old, best = some old → 0 < old.den) →
      tightest .debug frac tighter bounds best = .ok result →
      (∀ old, best = some old →
        ∃ taken, result = some taken ∧ 0 < taken.den ∧ covers taken.value old.value) ∧
      ∀ bound ∈ bounds, ∃ found taken, frac bound = .ok found ∧ result = some taken ∧
        0 < taken.den ∧ covers taken.value found.value := by
  induction bounds with
  | nil =>
      intro best result bestPositive run
      cases run
      exact ⟨fun old held => ⟨old, held, bestPositive old held, compares.refl _⟩,
        fun bound member => by cases member⟩
  | cons bound rest ih =>
      intro best result bestPositive run
      -- the fraction of the first bound and what is best after it
      obtain ⟨found, next, foundRun, nextPositive, run, coversFound, coversBest⟩ :
          ∃ found next, frac bound = .ok found ∧ 0 < next.den ∧
            tightest .debug frac tighter rest (some next) = .ok result ∧
            covers next.value found.value ∧
            ∀ old, best = some old → covers next.value old.value := by
        cases best with
        | none =>
            obtain ⟨found, foundRun, run⟩ := bind_ok run
            exact ⟨found, found, foundRun, positive bound List.mem_cons_self found foundRun, run,
              compares.refl _, fun old held => by cases held⟩
        | some best =>
            obtain ⟨found, foundRun, run⟩ := bind_ok run
            obtain ⟨left, leftRun, run⟩ := bind_ok run
            obtain ⟨right, rightRun, run⟩ := bind_ok run
            obtain ⟨rfl, -⟩ := word128_debug leftRun
            obtain ⟨rfl, -⟩ := word128_debug rightRun
            have foundPositive := positive bound List.mem_cons_self found foundRun
            have oldPositive := bestPositive best rfl
            have reads := compares.reads found best foundPositive oldPositive
            by_cases tight : tighter (found.num * best.den) (best.num * found.den) = true
            · rw [if_pos tight] at run
              refine ⟨found, found, foundRun, foundPositive, run, compares.refl _, ?_⟩
              intro old held
              cases held
              exact reads.mp tight
            · rw [if_neg tight] at run
              refine ⟨found, best, foundRun, oldPositive, run, ?_, ?_⟩
              · exact (compares.total _ _).resolve_left fun tightToo => tight (reads.mpr tightToo)
              · intro old held
                cases held
                exact compares.refl _
      have afterward := ih (fun other member => positive other (List.mem_cons_of_mem _ member))
        (fun old held => by cases held; exact nextPositive) run
      obtain ⟨taken, takenEq, takenPositive, coversNext⟩ := afterward.1 next rfl
      refine ⟨fun old held => ⟨taken, takenEq, takenPositive,
        compares.trans _ _ _ coversNext (coversBest old held)⟩, fun other member => ?_⟩
      rcases List.mem_cons.mp member with rfl | member
      · exact ⟨found, taken, foundRun, takenEq, takenPositive,
          compares.trans _ _ _ coversNext coversFound⟩
      · exact afterward.2 other member

theorem valueBetween_debug {low high : Option Frac} {value : Int}
    (run : valueBetween .debug low high = .ok (some value)) :
    (∀ least, low = some least → 0 < least.den → least.value ≤ value) ∧
      ∀ most, high = some most → 0 < most.den → (value : ℚ) ≤ most.value := by
  cases low with
  | none =>
      refine ⟨fun least held => (nomatch held), fun most held positive => ?_⟩
      cases held
      cases run
      exact floor_le_value positive
  | some least =>
      cases high with
      | none =>
          obtain ⟨ceil, ceilRun, run⟩ := bind_ok run
          cases run
          refine ⟨fun other held positive => ?_, fun most held => (nomatch held)⟩
          cases held
          exact value_le_ceil positive ceilRun
      | some most =>
          obtain ⟨ceil, ceilRun, run⟩ := bind_ok run
          have answer := Except.ok.inj run
          split_ifs at answer with empty
          cases answer
          refine ⟨fun other held positive => ?_, fun other held positive => ?_⟩
          · cases held
            exact value_le_ceil positive ceilRun
          · cases held
            have le : value ≤ most.floor := not_lt.mp empty
            exact (by exact_mod_cast le : (value : ℚ) ≤ most.floor).trans (floor_le_value positive)

theorem boundedValue_sat
    {value : Int} (run : nextIneqs .debug name ineqs = .ok next)
    (fits : AllFit ineqs) (sat : AllSat model.rational next)
    (found : boundedValue .debug order name ineqs model = .ok (some value)) :
    AllSat (Function.update model.rational name value) ineqs := by
  obtain ⟨low, lowRun, found⟩ := bind_ok found
  obtain ⟨high, highRun, found⟩ := bind_ok found
  obtain ⟨above, below⟩ := valueBetween_debug found
  have lowers := (tightest_covers compares_least _ (by
    intro lower member frac made
    obtain ⟨ineq, -, negative, rfl⟩ := mem_modelLowers_iff.mp member
    exact (lowerFrac_debug made negative).1) (by simp) lowRun).2
  have factorFits : ∀ ineq ∈ ineqs, coefficient ineq.coeffs name ≠ 0 →
      Fits128 (coefficient ineq.coeffs name) := by
    intro ineq member nonzero
    obtain ⟨entry, held, same, -⟩ := coefficient_ne_zero.mp nonzero
    have value : coefficient ineq.coeffs name = entry.2 := by
      rw [coefficient, ← same, (OrdMap.get?_eq_some _ _ _).mpr held]
      rfl
    rw [value]
    exact fits ineq member entry held
  have uppers := (tightest_covers compares_greatest _ (by
    intro upper member frac made
    obtain ⟨ineq, inside, positive, rfl⟩ := mem_uppers_iff.mp member
    exact (upperFrac_debug made positive (factorFits ineq inside positive.ne')).1) (by simp)
    highRun).2
  intro ineq member
  have absent : ¬((ineq.coeffs.erase name).get? name).isSome := by
    rw [OrdMap.get?_erase, if_pos rfl]
    simp
  unfold LinIneq.Sat
  rw [formValue_erase _ _ name, Function.update_self, formValue_unmentioned _ _ absent]
  rcases lt_trichotomy (coefficient ineq.coeffs name) 0 with negative | zero | positive
  · obtain ⟨frac, taken, made, takenEq, takenPositive, covers⟩ :=
      lowers _ (mem_modelLowers_iff.mpr ⟨ineq, member, negative, rfl⟩)
    have bound := covers.trans (above taken takenEq takenPositive)
    have factor : (0 : ℚ) < -coefficient ineq.coeffs name := by
      exact_mod_cast neg_pos.mpr negative
    rw [(lowerFrac_debug made negative).2, div_le_iff₀ factor] at bound
    linarith only [bound]
  · have kept : ineq ∈ next := by
      obtain ⟨combined, -, run⟩ := bind_ok run
      cases run
      exact List.mem_append_left _ (List.mem_filter.mpr ⟨member, decide_eq_true zero⟩)
    have holds : formValue model.rational ineq.coeffs.toList ≤ ineq.c := sat ineq kept
    rw [formValue_erase _ _ name, zero] at holds
    rw [zero]
    simpa using holds
  · obtain ⟨frac, taken, made, takenEq, takenPositive, covers⟩ :=
      uppers _ (mem_uppers_iff.mpr ⟨ineq, member, positive, rfl⟩)
    have bound := (below taken takenEq takenPositive).trans covers
    have factor : (0 : ℚ) < coefficient ineq.coeffs name := by exact_mod_cast positive
    rw [(upperFrac_debug made positive (factorFits ineq member positive.ne')).2,
      le_div_iff₀ factor] at bound
    linarith only [bound]

end Pantheon.Telos
