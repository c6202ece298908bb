import Mathlib
import Pantheon.Lib.Doubles
import Pantheon.Sql.Aggregate

/-!
# Where values are ordered: `value_compare` in `executor/eval.rs`

ORDER BY takes values that cannot be compared for equal ones.  Two integers are compared
as they are, an integer and a float as doubles.
-/

set_option autoImplicit false

namespace Pantheon.Sql

open Pantheon.Lib

/-- The library with the comparison of doubles and the conversion to them. -/
def Library.withDoubles (lib : Library) : Library :=
  { lib with floatCompare := Doubles.partialCmp, floatOfInt := Doubles.ofInt }

/-- An integer is an `i64`. -/
def Value.InRange : Value → Prop
  | .int value => i64Min ≤ value ∧ value ≤ i64Max
  | _ => True

abbrev RuntimeValue : Type := { value : Value // value.InRange }

def sqlOrder (lib : Library) (left right : RuntimeValue) : Ordering :=
  orderKeys lib.withDoubles [(left.val, right.val, true)]

/-- A total preorder among these values, so that sorting orders them. -/
structure OrdersSoundly (lib : Library) (values : List RuntimeValue) : Prop where
  refl : ∀ value ∈ values, sqlOrder lib value value = .eq
  swap : ∀ left ∈ values, ∀ right ∈ values,
    sqlOrder lib right left = (sqlOrder lib left right).swap
  trans : ∀ left ∈ values, ∀ middle ∈ values, ∀ right ∈ values,
    sqlOrder lib left middle ≠ .gt → sqlOrder lib middle right ≠ .gt →
      sqlOrder lib left right ≠ .gt
  sorted : ∀ list : List RuntimeValue, (∀ value ∈ list, value ∈ values) →
    list.IsChain (fun left right => sqlOrder lib left right ≠ .gt) →
      list.Pairwise fun left right => sqlOrder lib left right ≠ .gt

/-! ## Kinds of values -/

inductive Kind where
  | number
  | text
  | bool
deriving DecidableEq

/-- The values of a kind are compared with each other; a NaN is equal to every number. -/
def kindOf : Value → Option Kind
  | .int _ => some .number
  | .float value => if Doubles.isNan value then none else some .number
  | .text _ => some .text
  | .bool _ => some .bool
  | _ => none

def numberRank : Value → Int
  | .int value => Doubles.rankOf value
  | .float value => Doubles.rank value
  | _ => 0

def Alike : Value → Value → Prop
  | .int left, .int right => left = right
  | .text left, .text right => left = right
  | .bool left, .bool right => left = right
  | left, right => kindOf left = some .number → kindOf right = some .number →
      numberRank left = numberRank right

/-- All values of one kind are equal, or there is one kind only and no float stands for two
of the integers. -/
def Homogeneous (values : List Value) : Prop :=
  (∀ left ∈ values, ∀ right ∈ values, Alike left right) ∨
    ∃ kind, (∀ value ∈ values, kindOf value = some kind) ∧
      ∀ left right float, .int left ∈ values → .int right ∈ values → .float float ∈ values →
        Doubles.rankOf left = Doubles.rank float → Doubles.rankOf right = Doubles.rank float →
          left = right

/-! ## The comparison -/

def kindOrder : Value → Value → Ordering
  | .int left, .int right => compare left right
  | .text left, .text right => compare left right
  | .bool left, .bool right => compare left right
  | left, right => compare (numberRank left) (numberRank right)

section

variable {lib : Library}

theorem orderKeys_single (left right : Value) :
    orderKeys lib [(left, right, true)] =
      match valueCompare lib left right with
      | .ok ordering => ordering
      | .error _ => .eq := by
  unfold orderKeys
  cases valueCompare lib left right with
  | error message => rfl
  | ok ordering => cases ordering <;> rfl

theorem floatOrdering_numbers {left right : F64} (leftNumber : Doubles.isNan left = false)
    (rightNumber : Doubles.isNan right = false) :
    floatOrdering lib.withDoubles left right =
      compare (Doubles.rank left) (Doubles.rank right) := by
  rw [floatOrdering]
  simp only [Library.withDoubles, Doubles.partialCmp, leftNumber, rightNumber]
  rfl

theorem floatOrdering_nan {left right : F64}
    (nan : Doubles.isNan left = true ∨ Doubles.isNan right = true) :
    floatOrdering lib.withDoubles left right = .eq := by
  rw [floatOrdering]
  simp only [Library.withDoubles, Doubles.partialCmp]
  rcases nan with nan | nan <;> simp [nan]

variable {kind : Kind} {left right : Value}

theorem isNan_of_kind {value : F64} (known : kindOf (.float value) = some kind) :
    Doubles.isNan value = false ∧ kind = .number := by
  rw [kindOf] at known
  split_ifs at known with nan
  exact ⟨by simpa using nan, (Option.some.inj known).symm⟩

theorem sqlOrder_of_kind {left right : RuntimeValue}
    (leftKind : kindOf left.val = some kind) (rightKind : kindOf right.val = some kind) :
    sqlOrder lib left right = kindOrder left.val right.val := by
  obtain ⟨left, leftRange⟩ := left
  obtain ⟨right, rightRange⟩ := right
  have fits : ∀ {value : Int}, (Value.int value).InRange → -2 ^ 63 ≤ value ∧ value < 2 ^ 63 := by
    intro value range
    have low : -2 ^ 63 ≤ value := range.1
    have high : value ≤ 2 ^ 63 - 1 := range.2
    exact ⟨low, by omega⟩
  rw [sqlOrder, orderKeys_single]
  cases left with
  | int left =>
      obtain ⟨low, high⟩ := fits leftRange
      cases right with
      | int right => rfl
      | float right =>
          have number := (isNan_of_kind rightKind).1
          have same := @floatOrdering_numbers lib _ _ (Doubles.isNan_ofInt low high) number
          rw [Doubles.rank_ofInt low high] at same
          exact same
      | text right => cases leftKind; cases rightKind
      | bool right => cases leftKind; cases rightKind
      | null | floatArray _ | bytea _ => cases rightKind
  | float left =>
      obtain ⟨number, rfl⟩ := isNan_of_kind leftKind
      cases right with
      | int right =>
          obtain ⟨low, high⟩ := fits rightRange
          have same := @floatOrdering_numbers lib _ _ number (Doubles.isNan_ofInt low high)
          rw [Doubles.rank_ofInt low high] at same
          exact same
      | float right => exact floatOrdering_numbers number (isNan_of_kind rightKind).1
      | text _ | bool _ | null | floatArray _ | bytea _ => cases rightKind
  | text left =>
      cases right with
      | text right => rfl
      | float right => cases leftKind; cases (isNan_of_kind rightKind).2
      | int _ | bool _ => cases leftKind; cases rightKind
      | null | floatArray _ | bytea _ => cases rightKind
  | bool left =>
      cases right with
      | bool right => rfl
      | float right => cases leftKind; cases (isNan_of_kind rightKind).2
      | int _ | text _ => cases leftKind; cases rightKind
      | null | floatArray _ | bytea _ => cases rightKind
  | null | floatArray _ | bytea _ => cases leftKind

theorem sqlOrder_of_no_kind {left right : RuntimeValue}
    (apart : ∀ kind, kindOf left.val = some kind → kindOf right.val ≠ some kind) :
    sqlOrder lib left right = .eq := by
  obtain ⟨left, leftRange⟩ := left
  obtain ⟨right, rightRange⟩ := right
  have nan : ∀ {value : F64}, kindOf (.float value) ≠ some .number →
      Doubles.isNan value = true := by
    intro value unknown
    rw [kindOf] at unknown
    split_ifs at unknown with nan
    · exact nan
    · exact absurd rfl unknown
  rw [sqlOrder, orderKeys_single]
  cases left with
  | int left =>
      cases right with
      | int right => exact absurd rfl (apart .number rfl)
      | float right => exact floatOrdering_nan (Or.inr (nan (apart .number rfl)))
      | _ => rfl
  | float left =>
      cases right with
      | int right =>
          exact floatOrdering_nan (Or.inl (nan fun known => apart .number known rfl))
      | float right =>
          refine floatOrdering_nan ?_
          by_cases known : kindOf (.float left) = some .number
          · exact Or.inr (nan (apart .number known))
          · exact Or.inl (nan known)
      | _ => rfl
  | text left =>
      cases right with
      | text right => exact absurd rfl (apart .text rfl)
      | _ => rfl
  | bool left =>
      cases right with
      | bool right => exact absurd rfl (apart .bool rfl)
      | _ => rfl
  | _ => cases right <;> rfl

/-! ## The order of a kind -/

theorem kindOrder_swap (left right : Value) :
    kindOrder right left = (kindOrder left right).swap := by
  cases left <;> cases right <;> simp only [kindOrder] <;> exact Std.OrientedCmp.eq_swap

theorem kindOrder_refl (value : Value) : kindOrder value value = .eq := by
  cases value <;> simp only [kindOrder] <;> exact compare_eq_iff_eq.mpr rfl

theorem kindOrder_eq_iff (leftKind : kindOf left = some kind)
    (rightKind : kindOf right = some kind) : kindOrder left right = .eq ↔ Alike left right := by
  have ranks : ∀ first second : Value, (kindOf first = some .number → kindOf second = some .number →
      numberRank first = numberRank second) ↔
        (kindOf first = some .number ∧ kindOf second = some .number →
          compare (numberRank first) (numberRank second) = .eq) := by
    intro first second
    rw [compare_eq_iff_eq, and_imp]
  cases left with
  | int left =>
      cases right with
      | int right => exact compare_eq_iff_eq
      | float right =>
          cases leftKind
          rw [Alike, ranks]
          · exact ⟨fun same _ => same, fun same => same ⟨rfl, rightKind⟩⟩
          all_goals simp
      | _ => cases leftKind; cases rightKind
  | float left =>
      obtain ⟨-, rfl⟩ := isNan_of_kind leftKind
      cases right with
      | int right | float right =>
          rw [Alike, ranks]
          · exact ⟨fun same _ => same, fun same => same ⟨leftKind, rightKind⟩⟩
          all_goals simp
      | _ => cases rightKind
  | text left =>
      cases leftKind
      cases right with
      | text right => exact compare_eq_iff_eq
      | float right => cases (isNan_of_kind rightKind).2
      | _ => cases rightKind
  | bool left =>
      cases leftKind
      cases right with
      | bool right => exact compare_eq_iff_eq
      | float right => cases (isNan_of_kind rightKind).2
      | _ => cases rightKind
  | _ => cases leftKind

theorem kindOrder_number (leftKind : kindOf left = some .number)
    (rightKind : kindOf right = some .number) :
    kindOrder left right ≠ .gt ↔ numberRank left < numberRank right ∨
      numberRank left = numberRank right ∧
        ∀ first second, left = .int first → right = .int second → first ≤ second := by
  cases left with
  | int left =>
      cases right with
      | int right =>
          have mono := @Doubles.rankOf_mono left right
          have strict := @Doubles.rankOf_mono right left
          rw [kindOrder, compare_le_iff_le]
          simp only [numberRank, Value.int.injEq]
          constructor
          · intro le
            rcases lt_or_eq_of_le (mono le) with less | same
            · exact Or.inl less
            · exact Or.inr ⟨same, by rintro _ _ rfl rfl; exact le⟩
          · rintro (less | ⟨-, le⟩)
            · by_contra above
              exact absurd (strict (le_of_not_ge above)) (not_le.mpr less)
            · exact le left right rfl rfl
      | float right =>
          rw [kindOrder, compare_le_iff_le, le_iff_lt_or_eq]
          · simp
          all_goals simp
      | _ => cases rightKind
  | float left =>
      cases right with
      | int right | float right =>
          rw [kindOrder, compare_le_iff_le, le_iff_lt_or_eq]
          · simp
          all_goals simp
      | _ => cases rightKind
  | _ => cases leftKind

theorem kindOrder_number_trans {middle : Value} (leftKind : kindOf left = some .number)
    (middleKind : kindOf middle = some .number) (rightKind : kindOf right = some .number)
    (single : ∀ first second float, left = .int first → right = .int second →
      middle = .float float → Doubles.rankOf first = Doubles.rank float →
        Doubles.rankOf second = Doubles.rank float → first = second)
    (below : kindOrder left middle ≠ .gt) (above : kindOrder middle right ≠ .gt) :
    kindOrder left right ≠ .gt := by
  rw [kindOrder_number leftKind middleKind] at below
  rw [kindOrder_number middleKind rightKind] at above
  rw [kindOrder_number leftKind rightKind]
  rcases below with less | ⟨same, integers⟩
  · rcases above with lessToo | ⟨sameToo, -⟩
    · exact Or.inl (less.trans lessToo)
    · exact Or.inl (sameToo ▸ less)
  · rcases above with lessToo | ⟨sameToo, integersToo⟩
    · exact Or.inl (same ▸ lessToo)
    · refine Or.inr ⟨same.trans sameToo, fun first second leftInt rightInt => ?_⟩
      cases middle with
      | int between => exact (integers _ _ leftInt rfl).trans (integersToo _ _ rfl rightInt)
      | float between =>
          subst leftInt rightInt
          exact (single _ _ _ rfl rfl rfl same sameToo.symm).le
      | _ => cases middleKind

theorem kindOrder_trans {values : List Value}
    (known : ∀ value ∈ values, kindOf value = some kind)
    (single : ∀ left right float, .int left ∈ values → .int right ∈ values →
      .float float ∈ values → Doubles.rankOf left = Doubles.rank float →
        Doubles.rankOf right = Doubles.rank float → left = right)
    {middle : Value} (leftIn : left ∈ values) (middleIn : middle ∈ values)
    (rightIn : right ∈ values) (below : kindOrder left middle ≠ .gt)
    (above : kindOrder middle right ≠ .gt) : kindOrder left right ≠ .gt := by
  have leftKind := known left leftIn
  have middleKind := known middle middleIn
  have rightKind := known right rightIn
  cases kind with
  | number =>
      refine kindOrder_number_trans leftKind middleKind rightKind ?_ below above
      rintro first second float rfl rfl rfl
      exact single first second float leftIn rightIn middleIn
  | text =>
      have texts : ∀ {value : Value}, kindOf value = some .text → ∃ text, value = .text text := by
        intro value isText
        cases value with
        | text text => exact ⟨text, rfl⟩
        | float value => cases (isNan_of_kind isText).2
        | _ => cases isText
      obtain ⟨left, rfl⟩ := texts leftKind
      obtain ⟨middle, rfl⟩ := texts middleKind
      obtain ⟨right, rfl⟩ := texts rightKind
      simp only [kindOrder, compare_le_iff_le] at below above ⊢
      exact below.trans above
  | bool =>
      have bools : ∀ {value : Value}, kindOf value = some .bool → ∃ flag, value = .bool flag := by
        intro value isBool
        cases value with
        | bool flag => exact ⟨flag, rfl⟩
        | float value => cases (isNan_of_kind isBool).2
        | _ => cases isBool
      obtain ⟨left, rfl⟩ := bools leftKind
      obtain ⟨middle, rfl⟩ := bools middleKind
      obtain ⟨right, rfl⟩ := bools rightKind
      simp only [kindOrder, compare_le_iff_le] at below above ⊢
      exact below.trans above

/-! ## When the order is sound -/

theorem sqlOrder_swap (left right : RuntimeValue) :
    sqlOrder lib right left = (sqlOrder lib left right).swap := by
  by_cases shared : ∃ kind, kindOf left.val = some kind ∧ kindOf right.val = some kind
  · obtain ⟨kind, leftKind, rightKind⟩ := shared
    rw [sqlOrder_of_kind leftKind rightKind, sqlOrder_of_kind rightKind leftKind, kindOrder_swap]
  · rw [sqlOrder_of_no_kind fun kind leftKind rightKind => shared ⟨kind, leftKind, rightKind⟩,
      sqlOrder_of_no_kind fun kind rightKind leftKind => shared ⟨kind, leftKind, rightKind⟩]
    rfl

theorem alike_of_no_kind
    (apart : ¬∃ kind, kindOf left = some kind ∧ kindOf right = some kind) : Alike left right := by
  have numbers : kindOf left = some .number → kindOf right = some .number →
      numberRank left = numberRank right :=
    fun leftKind rightKind => absurd ⟨_, leftKind, rightKind⟩ apart
  cases left <;> cases right <;> first | exact numbers | exact absurd ⟨_, rfl, rfl⟩ apart

theorem sqlOrder_eq_iff (left right : RuntimeValue) :
    sqlOrder lib left right = .eq ↔ Alike left.val right.val := by
  by_cases shared : ∃ kind, kindOf left.val = some kind ∧ kindOf right.val = some kind
  · obtain ⟨kind, leftKind, rightKind⟩ := shared
    rw [sqlOrder_of_kind leftKind rightKind, kindOrder_eq_iff leftKind rightKind]
  · exact iff_of_true (sqlOrder_of_no_kind fun kind leftKind rightKind =>
      shared ⟨kind, leftKind, rightKind⟩) (alike_of_no_kind shared)

theorem pairwise_of_chain {Item : Type} {before : Item → Item → Prop} (list : List Item)
    (trans : ∀ left ∈ list, ∀ middle ∈ list, ∀ right ∈ list,
      before left middle → before middle right → before left right)
    (chain : list.IsChain before) : list.Pairwise before := by
  induction list with
  | nil => exact List.Pairwise.nil
  | cons first rest ih =>
      have later := ih (fun left leftIn middle middleIn right rightIn =>
        trans left (.tail _ leftIn) middle (.tail _ middleIn) right (.tail _ rightIn)) chain.tail
      refine List.pairwise_cons.mpr ⟨fun other member => ?_, later⟩
      cases rest with
      | nil => cases member
      | cons second rest =>
          have step := (List.isChain_cons_cons.mp chain).1
          rcases List.mem_cons.mp member with rfl | far
          · exact step
          · exact trans first (.head _) second (.tail _ (.head _)) other (.tail _ member) step
              ((List.pairwise_cons.mp later).1 other far)

theorem orders_of_trans {values : List RuntimeValue}
    (trans : ∀ left ∈ values, ∀ middle ∈ values, ∀ right ∈ values,
      sqlOrder lib left middle ≠ .gt → sqlOrder lib middle right ≠ .gt →
        sqlOrder lib left right ≠ .gt) : OrdersSoundly lib values where
  refl value _ := by
    by_cases known : ∃ kind, kindOf value.val = some kind
    · obtain ⟨kind, known⟩ := known
      rw [sqlOrder_of_kind known known, kindOrder_refl]
    · exact sqlOrder_of_no_kind fun kind found => absurd ⟨kind, found⟩ known
  swap left _ right _ := sqlOrder_swap left right
  trans := trans
  sorted list inside := pairwise_of_chain list fun left leftIn middle middleIn right rightIn =>
    trans left (inside left leftIn) middle (inside middle middleIn) right (inside right rightIn)

theorem OrdersSoundly.homogeneous {values : List RuntimeValue}
    (sound : OrdersSoundly lib values) : Homogeneous (values.map Subtype.val) := by
  by_cases alike : ∀ left ∈ values, ∀ right ∈ values, Alike left.val right.val
  · refine Or.inl fun left leftIn right rightIn => ?_
    obtain ⟨first, firstIn, rfl⟩ := List.mem_map.mp leftIn
    obtain ⟨second, secondIn, rfl⟩ := List.mem_map.mp rightIn
    exact alike first firstIn second secondIn
  · right
    -- two values of one kind, the first below the second
    obtain ⟨low, lowIn, high, highIn, less⟩ : ∃ low ∈ values, ∃ high ∈ values,
        sqlOrder lib low high = .lt := by
      push Not at alike
      obtain ⟨left, leftIn, right, rightIn, unlike⟩ := alike
      rw [← @sqlOrder_eq_iff lib] at unlike
      cases order : sqlOrder lib left right with
      | lt => exact ⟨left, leftIn, right, rightIn, order⟩
      | eq => exact absurd order unlike
      | gt => exact ⟨right, rightIn, left, leftIn, by rw [sqlOrder_swap, order]; rfl⟩
    obtain ⟨kind, lowKind, highKind⟩ : ∃ kind, kindOf low.val = some kind ∧
        kindOf high.val = some kind := by
      by_contra apart
      rw [sqlOrder_of_no_kind fun kind lowKind highKind => apart ⟨kind, lowKind, highKind⟩] at less
      cases less
    refine ⟨kind, fun value member => ?_, fun left right float leftIn rightIn floatIn => ?_⟩
    · obtain ⟨value, inside, rfl⟩ := List.mem_map.mp member
      by_contra other
      have above : sqlOrder lib high value = .eq := sqlOrder_of_no_kind fun found foundHigh same =>
        other (by rw [same, ← foundHigh, highKind])
      have below : sqlOrder lib value low = .eq := sqlOrder_of_no_kind fun found same foundLow =>
        other (by rw [same, ← foundLow, lowKind])
      refine sound.trans high highIn value inside low lowIn (by rw [above]; decide)
        (by rw [below]; decide) ?_
      rw [sqlOrder_swap, less]
      rfl
    · intro leftRank rightRank
      obtain ⟨first, firstIn, firstVal⟩ := List.mem_map.mp leftIn
      obtain ⟨second, secondIn, secondVal⟩ := List.mem_map.mp rightIn
      obtain ⟨between, betweenIn, betweenVal⟩ := List.mem_map.mp floatIn
      have firstEq : sqlOrder lib first between = .eq := by
        rw [sqlOrder_eq_iff, firstVal, betweenVal]
        exact fun _ _ => leftRank
      have secondEq : sqlOrder lib second between = .eq := by
        rw [sqlOrder_eq_iff, secondVal, betweenVal]
        exact fun _ _ => rightRank
      have below := sound.trans first firstIn between betweenIn second secondIn
        (by rw [firstEq]; decide) (by rw [sqlOrder_swap, secondEq]; decide)
      have above := sound.trans second secondIn between betweenIn first firstIn
        (by rw [secondEq]; decide) (by rw [sqlOrder_swap, firstEq]; decide)
      have firstKind : kindOf first.val = some .number := by rw [firstVal]; rfl
      have secondKind : kindOf second.val = some .number := by rw [secondVal]; rfl
      rw [sqlOrder_of_kind firstKind secondKind, firstVal, secondVal, kindOrder,
        compare_le_iff_le] at below
      rw [sqlOrder_of_kind secondKind firstKind, firstVal, secondVal, kindOrder,
        compare_le_iff_le] at above
      exact le_antisymm below above

theorem orders_of_homogeneous {values : List RuntimeValue}
    (homogeneous : Homogeneous (values.map Subtype.val)) : OrdersSoundly lib values := by
  refine orders_of_trans fun left leftIn middle middleIn right rightIn below above => ?_
  have listed : ∀ value ∈ values, value.val ∈ values.map Subtype.val :=
    fun value member => List.mem_map_of_mem member
  rcases homogeneous with alike | ⟨kind, known, single⟩
  · rw [(sqlOrder_eq_iff left right).mpr
      (alike _ (listed left leftIn) _ (listed right rightIn))]
    decide
  · have leftKind := known _ (listed left leftIn)
    have middleKind := known _ (listed middle middleIn)
    have rightKind := known _ (listed right rightIn)
    rw [sqlOrder_of_kind leftKind middleKind] at below
    rw [sqlOrder_of_kind middleKind rightKind] at above
    rw [sqlOrder_of_kind leftKind rightKind]
    exact kindOrder_trans known single (listed left leftIn) (listed middle middleIn)
      (listed right rightIn) below above

/-! ## Predicates, MIN and MAX -/

theorem comparesAs_strict {order : Ordering} (strict : order ≠ .eq) (left right : RuntimeValue) :
    comparesAs lib.withDoubles (· == order) left.val right.val =
      decide (sqlOrder lib left right = order) := by
  unfold comparesAs sqlOrder orderKeys orderKeys
  cases valueCompare lib.withDoubles left.val right.val with
  | error message => exact (decide_eq_false strict.symm).symm
  | ok compared => cases compared <;> cases order <;> rfl

theorem OrdersSoundly.trans_swap {values : List RuntimeValue} (sound : OrdersSoundly lib values)
    {order : Ordering} (strict : order ≠ .eq) : ∀ left ∈ values, ∀ middle ∈ values,
      ∀ right ∈ values, sqlOrder lib left middle ≠ order.swap →
        sqlOrder lib middle right ≠ order.swap → sqlOrder lib left right ≠ order.swap := by
  intro left leftIn middle middleIn right rightIn
  cases order with
  | lt => exact sound.trans left leftIn middle middleIn right rightIn
  | eq => exact absurd rfl strict
  | gt =>
      have back := sound.trans right rightIn middle middleIn left leftIn
      rw [sqlOrder_swap middle right, sqlOrder_swap left middle, sqlOrder_swap left right] at back
      simp only [ne_eq, Ordering.swap_eq_gt, Ordering.swap_gt] at back ⊢
      exact fun below above => back above below

theorem foldl_best {values : List RuntimeValue} (sound : OrdersSoundly lib values)
    {order : Ordering} (strict : order ≠ .eq) (list : List RuntimeValue) :
    ∀ head, (∀ value ∈ head :: list, value ∈ values) → ∃ best ∈ head :: list,
      aggregateBest lib.withDoubles (· == order) ((head :: list).map Subtype.val) = best.val ∧
        ∀ value ∈ head :: list, sqlOrder lib best value ≠ order.swap := by
  have trans := sound.trans_swap strict
  induction list with
  | nil =>
      refine fun head inside => ⟨head, List.mem_cons_self, rfl, fun value member => ?_⟩
      rw [List.mem_singleton.mp member, sound.refl head (inside head List.mem_cons_self)]
      cases order <;> first | decide | exact absurd rfl strict
  | cons next list ih =>
      intro head inside
      have headIn := inside head List.mem_cons_self
      have nextIn := inside next (List.mem_cons_of_mem _ List.mem_cons_self)
      have swapped : sqlOrder lib next head = _ := sqlOrder_swap head next
      by_cases beats : sqlOrder lib next head = order
      · obtain ⟨best, member, folded, least⟩ :=
          ih next fun value member => inside value (List.mem_cons_of_mem _ member)
        refine ⟨best, List.mem_cons_of_mem _ member, ?_, fun value listed => ?_⟩
        · rw [← folded]
          simp [aggregateBest, comparesAs_strict strict, beats]
        · rcases List.mem_cons.mp listed with rfl | listed
          · refine trans best (inside best (List.mem_cons_of_mem _ member)) next nextIn value headIn
              (least next List.mem_cons_self) ?_
            rw [beats]
            cases order <;> first | decide | exact absurd rfl strict
          · exact least value listed
      · obtain ⟨best, member, folded, least⟩ := ih head fun value member =>
          inside value (by rcases List.mem_cons.mp member with rfl | member <;> simp [*])
        have bestIn : best ∈ head :: next :: list := by
          rcases List.mem_cons.mp member with rfl | member <;> simp [*]
        refine ⟨best, bestIn, ?_, fun value listed => ?_⟩
        · rw [← folded]
          simp [aggregateBest, comparesAs_strict strict, beats]
        · rcases List.mem_cons.mp listed with rfl | listed
          · exact least value List.mem_cons_self
          rcases List.mem_cons.mp listed with rfl | listed
          · refine trans best (inside best bestIn) head headIn value nextIn
              (least head List.mem_cons_self) fun same => beats ?_
            rw [swapped, same, Ordering.swap_swap]
          · exact least value (List.mem_cons_of_mem _ listed)

/-- `2 ^ 53` and the next integer, which the same double stands for. -/
def besideDouble : List RuntimeValue :=
  [⟨.int (2 ^ 53 + 1), by decide, by decide⟩, ⟨.float 0x4340000000000000, trivial⟩,
    ⟨.int (2 ^ 53), by decide, by decide⟩]

end

end Pantheon.Sql
