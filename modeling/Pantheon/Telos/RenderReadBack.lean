import Mathlib
import Pantheon.Telos.Render

/-!
# What generated expressions mean

Where precedence suffices the text is read as the regrouped tree, and regrouping keeps
the value.
-/

set_option autoImplicit false

namespace Pantheon.Telos

variable {self : List Token → Option (Expr × List Token)} {others : Expr → List Token}
  {naming : Naming} {inOld : Bool} {level : Nat} {op : BinOp} {rest : List Token}
  {result : Expr × List Token}

variable {expr : Expr} {child : BinOp}

/-! ## The text behind an operand -/

/-- No operator of the level or above stands first, and no postfix form. -/
def Closed (level : Nat) (rest : List Token) : Prop :=
  opensPostfix (peek rest) = false ∧
    ∀ higher, level ≤ higher → operatorAt higher (peek rest) = none

theorem closed_nil (level : Nat) : Closed level [] := by
  refine ⟨rfl, fun higher _ => ?_⟩
  unfold operatorAt
  split <;> rfl

theorem Closed.mono {other : Nat} (closed : Closed level rest) (below : level ≤ other) :
    Closed other rest :=
  ⟨closed.1, fun higher above => closed.2 higher (below.trans above)⟩

theorem closed_token (below : op.level < level) : Closed level (op.token :: rest) := by
  constructor
  · cases op <;> rfl
  · intro higher above
    exact (operatorAt_token op higher).trans (if_neg (by omega))

/-! ## Operands of a minus -/

theorem parsePostfix_of_primary {tokens : List Token} (closed : Closed level rest)
    (read : parsePrimary self tokens = some (expr, rest)) :
    parsePostfix self tokens = some (expr, rest) := by
  unfold parsePostfix
  simp only [read, Option.bind_eq_bind, Option.bind_some, closed.1, Bool.false_eq_true, if_false]

theorem parseUnary_name (name : Name) (closed : Closed level rest) :
    parseUnary self (name.tokens ++ rest) = some (name.expr, rest) := by
  cases name with
  | var name =>
      have read : parsePrimary self (.ident name :: rest) = some (.var name, rest) := by
        cases rest with
        | nil => rfl
        | cons head tail =>
            cases head with
            | dot => cases closed.1
            | _ => rfl
      exact parsePostfix_of_primary closed read
  | field base name =>
      have read : parsePrimary self (.ident base :: .dot :: .ident name :: rest) =
          some (.field base name, rest) := rfl
      exact parsePostfix_of_primary closed read

theorem parseUnary_unit (expr : Expr) : ∀ {inOld : Bool} {rest : List Token},
    expr.plain = true → 6 ≤ expr.level → Closed 6 rest →
      parseUnary self (renderWith others naming inOld expr ++ rest) =
        some (regrouped naming inOld expr, rest) := by
  induction expr using Expr.operators with
  | leaf expr shape =>
      intro inOld rest plain _ closed
      cases expr with
      | int value =>
          have read : parsePrimary self (.int value :: rest) = some (.int value, rest) := rfl
          exact parsePostfix_of_primary closed read
      | var name => exact parseUnary_name _ closed
      | field base name => exact parseUnary_name _ closed
      | _ => first | cases plain | cases shape
  | old expr ih => exact fun plain high closed => ih plain high closed
  | neg expr ih =>
      intro inOld rest plain high closed
      obtain ⟨plain, _⟩ := plain_neg.mp plain
      have inner : 6 ≤ expr.level := high.trans (min_le_right 6 expr.level)
      have apart : (regrouped naming inOld expr).level ≠ 5 := by
        rw [level_regrouped expr plain]
        omega
      simp only [renderWith, List.cons_append, parseUnary, ih plain inner closed,
        Option.bind_eq_bind, Option.bind_some, regrouped, negate_of_above apart]
  | bin op lhs rhs _ _ =>
      intro inOld rest _ high _
      have small : op.level ≤ 5 := by cases op <;> decide
      change 6 ≤ op.level at high
      omega

/-! ## Chains of products -/

def minuses (count : Nat) (tokens : List Token) : List Token :=
  List.replicate count .minus ++ tokens

theorem minuses_succ (count : Nat) (tokens : List Token) :
    minuses (count + 1) tokens = minuses count (.minus :: tokens) := by
  unfold minuses
  rw [List.replicate_succ', List.append_assoc]
  rfl

theorem level_of_leaf (shape : expr.isOperator = false) : expr.level = 7 := by
  cases expr with
  | bin op lhs rhs => cases shape
  | old expr => cases shape
  | neg expr => cases shape
  | _ => rfl

theorem level_iterate_negate (plain : expr.plain = true) (high : 6 ≤ expr.level)
    (count : Nat) : 6 ≤ (negate^[count] (regrouped naming inOld expr)).level := by
  induction count with
  | zero => exact (level_regrouped expr plain).symm ▸ high
  | succ count ih =>
      rw [Function.iterate_succ_apply', negate_of_above (by omega)]
      exact le_min le_rfl ih

theorem parseUnary_minuses (plain : expr.plain = true) (high : 6 ≤ expr.level)
    (closed : Closed 6 rest) (count : Nat) :
    parseUnary self (minuses count (renderWith others naming inOld expr ++ rest)) =
      some (negate^[count] (regrouped naming inOld expr), rest) := by
  induction count with
  | zero => exact parseUnary_unit expr plain high closed
  | succ count ih =>
      have above : 6 ≤ (negate^[count] (regrouped naming inOld expr)).level :=
        level_iterate_negate plain high count
      rw [Function.iterate_succ_apply', negate_of_above (by omega)]
      have first : minuses (count + 1) (renderWith others naming inOld expr ++ rest) =
          .minus :: minuses count (renderWith others naming inOld expr ++ rest) := rfl
      simp only [first, parseUnary, ih, Option.bind_eq_bind, Option.bind_some]

theorem iterate_negate_join (product : op.level = 5) (count : Nat) (lhs rhs : Expr) :
    negate^[count] (join op lhs rhs) = join op (negate^[count] lhs) rhs := by
  induction count generalizing lhs with
  | zero => rfl
  | succ count ih =>
      rw [Function.iterate_succ_apply, Function.iterate_succ_apply, negate_join product, ih]

/-- The tokens are read as the value where a chain of the level starts, and behind an operator
of it. -/
structure ReadInChain (level : Nat) (tokens : List Token) (value : Expr) (rest : List Token)
    (result : Expr × List Token) : Prop where
  starts : Loops level value rest result → Reads level tokens result
  goesOn : ∀ {op : BinOp} {lhs : Expr}, op.level = level →
    Loops level (join op lhs value) rest result → Loops level lhs (op.token :: tokens) result

/-- A chain of products behind minus signs is read as one that starts, or goes on, with
its regrouped tree. -/
theorem products_read (expr : Expr) : ∀ (inOld : Bool) (count : Nat) {rest : List Token},
    expr.plain = true → 5 ≤ expr.level → Closed 6 rest →
      ReadInChain 5 (minuses count (renderWith others naming inOld expr ++ rest))
        (negate^[count] (regrouped naming inOld expr)) rest result := by
  have unit : ∀ {expr : Expr} {inOld : Bool} {rest : List Token} {count : Nat},
      expr.plain = true → 6 ≤ expr.level → Closed 6 rest →
        ReadInChain 5 (minuses count (renderWith others naming inOld expr ++ rest))
          (negate^[count] (regrouped naming inOld expr)) rest result := by
    intro expr inOld rest count plain high closed
    have read : ∀ self, parseUnary self
        (minuses count (renderWith others naming inOld expr ++ rest)) =
          some (negate^[count] (regrouped naming inOld expr), rest) :=
      fun self => parseUnary_minuses plain high closed count
    have above : 6 ≤ (negate^[count] (regrouped naming inOld expr)).level :=
      level_iterate_negate plain high count
    refine ⟨reads_of_loops (by unfold Repeats; omega) (reads_unary read), ?_⟩
    intro op lhs product loops
    rw [join_of_above (by omega)] at loops
    exact loops_step product (reads_unary read) loops
  induction expr using Expr.operators with
  | leaf expr shape =>
      intro inOld count rest plain _ closed
      exact unit plain (by rw [level_of_leaf shape]; decide) closed
  | old expr ih => exact fun inOld count rest => ih true count
  | neg expr ih =>
      intro inOld count rest plain _ closed
      obtain ⟨plain, high⟩ := plain_neg.mp plain
      have inner := ih inOld (count + 1) plain high closed
      rw [minuses_succ, Function.iterate_succ_apply] at inner
      exact inner
  | bin op lhs rhs leftIh rightIh =>
      intro inOld count rest plain high closed
      obtain ⟨leftPlain, rightPlain, left, right⟩ := plain_bin.mp plain
      obtain ⟨leftHigh, rightHigh⟩ := level_of_fits left right
      have small : op.level ≤ 5 := by cases op <;> decide
      have product : op.level = 5 := le_antisymm small high
      have behind : Closed 6 (op.token :: (renderWith others naming inOld rhs ++ rest)) :=
        closed_token (by omega)
      have first := leftIh inOld count leftPlain (by omega) behind
      have second := rightIh inOld 0 rightPlain (by omega) closed
      have text : minuses count (renderWith others naming inOld (.bin op lhs rhs) ++ rest) =
          minuses count (renderWith others naming inOld lhs ++
            op.token :: (renderWith others naming inOld rhs ++ rest)) := by
        simp only [renderWith, List.append_assoc, List.cons_append]
      rw [text, regrouped, iterate_negate_join product]
      refine ⟨fun loops => first.starts (second.goesOn product loops), ?_⟩
      intro outer before same loops
      refine first.goesOn same (second.goesOn product ?_)
      rw [← join_join (product.trans same.symm)]
      exact loops

/-! ## The levels above -/

theorem chain_read (repeats : Repeats level) (low : level ≤ 4)
    (operands : ∀ (expr : Expr) (inOld : Bool) {rest : List Token}, expr.plain = true →
      level < expr.level → Closed (level + 1) rest →
        Reads (level + 1) (renderWith others naming inOld expr ++ rest)
          (regrouped naming inOld expr, rest)) (expr : Expr) :
    ∀ (inOld : Bool) {rest : List Token}, expr.plain = true → level ≤ expr.level →
      Closed (level + 1) rest →
        ReadInChain level (renderWith others naming inOld expr ++ rest)
          (regrouped naming inOld expr) rest result := by
  have operand : ∀ {expr : Expr} {inOld : Bool} {rest : List Token}, expr.plain = true →
      level < expr.level → Closed (level + 1) rest →
        ReadInChain level (renderWith others naming inOld expr ++ rest)
          (regrouped naming inOld expr) rest result := by
    intro expr inOld rest plain above closed
    have read := operands expr inOld plain above closed
    refine ⟨reads_of_loops repeats read, ?_⟩
    intro op lhs same loops
    rw [join_of_above (by rw [level_regrouped expr plain]; omega)] at loops
    exact loops_step same read loops
  induction expr using Expr.operators with
  | leaf expr shape =>
      intro inOld rest plain _ closed
      exact operand plain (by rw [level_of_leaf shape]; omega) closed
  | old expr ih => exact fun inOld rest => ih true
  | neg expr ih =>
      intro inOld rest plain _ closed
      obtain ⟨_, high⟩ := plain_neg.mp plain
      refine operand plain ?_ closed
      change level < min 6 expr.level
      omega
  | bin op lhs rhs leftIh rightIh =>
      intro inOld rest plain high closed
      change level ≤ op.level at high
      rcases Nat.eq_or_lt_of_le high with same | above
      · obtain ⟨leftPlain, rightPlain, left, right⟩ := plain_bin.mp plain
        obtain ⟨leftHigh, rightHigh⟩ := level_of_fits left right
        have behind : Closed (level + 1)
            (op.token :: (renderWith others naming inOld rhs ++ rest)) :=
          closed_token (by omega)
        have first := leftIh inOld leftPlain (by omega) behind
        have second := rightIh inOld rightPlain (by omega) closed
        have text : renderWith others naming inOld (.bin op lhs rhs) ++ rest =
            renderWith others naming inOld lhs ++
              op.token :: (renderWith others naming inOld rhs ++ rest) := by
          simp only [renderWith, List.append_assoc, List.cons_append]
        rw [text, regrouped]
        refine ⟨fun loops => first.starts (second.goesOn same.symm loops), ?_⟩
        intro outer before outerLevel loops
        refine first.goesOn outerLevel (second.goesOn same.symm ?_)
        rw [← join_join (same.symm.trans outerLevel.symm)]
        exact loops
      · exact operand plain above closed

/-- The text of an expression, behind which no operator of the level stands, is read at
that level as the regrouped tree. -/
def ReadAt (others : Expr → List Token) (naming : Naming) (level : Nat) : Prop :=
  ∀ (expr : Expr) (inOld : Bool) {rest : List Token}, expr.plain = true →
    level ≤ expr.level → Closed level rest →
      Reads level (renderWith others naming inOld expr ++ rest)
        (regrouped naming inOld expr, rest)

theorem readAt_products : ReadAt others naming 5 := by
  intro expr inOld rest plain high closed
  apply (products_read expr inOld 0 plain high (closed.mono (by decide))).starts
  exact loops_stop (closed.2 5 le_rfl)

theorem readAt_chain (repeats : Repeats level) (low : level ≤ 4)
    (above : ReadAt others naming (level + 1)) : ReadAt others naming level := by
  intro expr inOld rest plain high closed
  refine (chain_read repeats low ?_ expr inOld plain high
    (closed.mono (Nat.le_succ level))).starts ?_
  · intro expr inOld rest plain high closed
    exact above expr inOld plain high closed
  · exact loops_stop (closed.2 level le_rfl)

theorem readAt_comparison (above : ReadAt others naming 4) :
    ReadAt others naming 3 := by
  intro expr
  induction expr using Expr.operators with
  | old expr ih => exact fun inOld rest => ih true
  | bin op lhs rhs _ _ =>
      intro inOld rest plain high closed
      by_cases comparison : op.level = 3
      · obtain ⟨leftPlain, rightPlain, left, right⟩ := plain_bin.mp plain
        obtain ⟨leftHigh, rightHigh⟩ := above_of_comparison comparison left right
        have first := above lhs inOld leftPlain leftHigh
          (closed_token (comparison.trans_lt (by decide)) :
            Closed 4 (op.token :: (renderWith others naming inOld rhs ++ rest)))
        have second := above rhs inOld rightPlain rightHigh (closed.mono (by decide))
        have apart : (regrouped naming inOld rhs).level ≠ op.level := by
          rw [level_regrouped rhs rightPlain]
          omega
        simp only [renderWith, List.append_assoc, List.cons_append, regrouped,
          join_of_above apart]
        exact reads_comparison comparison first second
      · refine reads_no_comparison (closed.2 3 le_rfl) (above _ inOld plain ?_
          (closed.mono (by decide)))
        change 4 ≤ op.level
        change 3 ≤ op.level at high
        omega
  | neg expr _ =>
      intro inOld rest plain high closed
      obtain ⟨_, inner⟩ := plain_neg.mp plain
      refine reads_no_comparison (closed.2 3 le_rfl) (above _ inOld plain ?_
        (closed.mono (by decide)))
      exact le_min (by decide) (by omega)
  | leaf expr shape =>
      intro inOld rest plain high closed
      exact reads_no_comparison (closed.2 3 le_rfl) (above _ inOld plain
        (by rw [level_of_leaf shape]; decide) (closed.mono (by decide)))

theorem one_le_level (expr : Expr) : expr.plain = true → 1 ≤ expr.level := by
  induction expr using Expr.operators with
  | old expr ih => exact ih
  | neg expr _ =>
      intro plain
      exact le_min (by decide) (by have := (plain_neg.mp plain).2; omega)
  | bin op lhs rhs _ _ =>
      intro _
      change 1 ≤ op.level
      cases op <;> decide
  | leaf expr shape =>
      intro _
      rw [level_of_leaf shape]
      decide

theorem parses_rendered (plain : expr.plain = true) :
    Parses (renderWith others naming inOld expr) (regrouped naming inOld expr) := by
  have comparison : ReadAt others naming 3 :=
    readAt_comparison (readAt_chain (by unfold Repeats; decide) le_rfl readAt_products)
  have read : ReadAt others naming 1 :=
    readAt_chain (by unfold Repeats; decide) (by decide)
      (readAt_chain (by unfold Repeats; decide) (by decide) comparison)
  obtain ⟨enough, returns⟩ := read expr inOld plain (one_le_level expr plain) (closed_nil 1)
  refine ⟨enough + 1, fun fuel atLeast => ?_⟩
  obtain ⟨less, rfl⟩ : ∃ less, fuel = less + 1 := ⟨fuel - 1, by omega⟩
  have whole := returns (parseExpr less) less (by omega)
  rw [List.append_nil] at whole
  exact whole

/-! ## Values -/

/-- The operators of one level after which an operator may be moved to the left. -/
def Regroups (op other : BinOp) : Prop :=
  (op = .add ∧ (other = .add ∨ other = .sub)) ∨ (op = .mul ∧ other = .mul) ∨
    (op = .and ∧ other = .and) ∨ (op = .or ∧ other = .or)

theorem apply_regroups {op other : BinOp} (regroups : Regroups op other)
    (first second third : Option Value) :
    op.apply first (other.apply second third) = other.apply (op.apply first second) third := by
  rcases regroups with ⟨rfl, rfl | rfl⟩ | ⟨rfl, rfl⟩ | ⟨rfl, rfl⟩ | ⟨rfl, rfl⟩ <;>
    rcases first with _ | _ | (_ | _) <;> rcases second with _ | _ | (_ | _) <;>
      rcases third with _ | _ | (_ | _) <;>
        simp [BinOp.apply, onInts, Value.asInt, Value.asBool, add_assoc, add_sub_assoc, mul_assoc]

theorem negateValue_apply (product : op.level = 5) (lhs rhs : Option Value) :
    negateValue (op.apply lhs rhs) = op.apply (negateValue lhs) rhs := by
  have kinds : op = .mul ∨ op = .div := by cases op <;> simp_all [BinOp.level]
  rcases kinds with rfl | rfl
  · rcases lhs with _ | _ | _ <;> rcases rhs with _ | _ | _ <;>
      simp [BinOp.apply, negateValue, onInts, Value.asInt]
  · rcases lhs with _ | left | _ <;> rcases rhs with _ | right | _ <;>
      simp only [BinOp.apply, negateValue, onInts, Value.asInt, Option.bind_eq_bind,
        Option.bind_none, Option.bind_some, Option.map_none, Option.map_some]
    by_cases zero : right = 0
    · rw [if_pos zero, if_pos zero]
      rfl
    · rw [if_neg zero, if_neg zero, Int.neg_tdiv]
      rfl

variable {leaves : Leaves}

theorem value_negate (expr : Expr) :
    (negate expr).value leaves inOld = negateValue (expr.value leaves inOld) := by
  induction expr using Expr.operators with
  | bin op lhs rhs ih _ =>
      unfold negate
      by_cases product : op.level = 5
      · rw [if_pos product, Expr.value, Expr.value, negateValue_apply product, ih]
      · rw [if_neg product, Expr.value]
  | old expr _ => rfl
  | neg expr _ => rfl
  | leaf expr shape =>
      cases expr with
      | bin op lhs rhs => cases shape
      | _ => rfl

/-- The first operators of a chain of the operator's level may all be moved behind it. -/
def Absorbable (op : BinOp) : Expr → Prop
  | .bin other first _ => other.level = op.level → Regroups op other ∧ Absorbable op first
  | _ => True

theorem value_join {lhs : Expr} (rhs : Expr) : Absorbable op rhs →
    (join op lhs rhs).value leaves inOld =
      op.apply (lhs.value leaves inOld) (rhs.value leaves inOld) := by
  induction rhs using Expr.operators with
  | bin other first second ih _ =>
      intro absorbable
      unfold join
      by_cases same : other.level = op.level
      · obtain ⟨regroups, inner⟩ := absorbable same
        rw [if_pos same, Expr.value, ih inner, Expr.value, apply_regroups regroups]
      · rw [if_neg same, Expr.value]
  | old expr _ => exact fun _ => rfl
  | neg expr _ => exact fun _ => rfl
  | leaf expr shape =>
      intro _
      cases expr with
      | bin other first second => cases shape
      | _ => rfl

theorem absorbable_of_above {rhs : Expr} (above : op.level < rhs.level) : Absorbable op rhs := by
  cases rhs with
  | bin other first second =>
      intro same
      change op.level < other.level at above
      omega
  | _ => trivial

theorem absorbable_of_kind (kind : op = .add ∨ op = .and ∨ op = .or) (rhs : Expr) :
    Absorbable op rhs := by
  induction rhs using Expr.operators with
  | bin other first second ih _ =>
      intro same
      refine ⟨?_, ih⟩
      rcases kind with rfl | rfl | rfl <;> cases other <;> simp_all [BinOp.level, Regroups]
  | old expr _ => trivial
  | neg expr _ => trivial
  | leaf expr shape =>
      cases expr with
      | bin other first second => cases shape
      | _ => trivial

theorem absorbable_mul_join {lhs : Expr} (left : Absorbable .mul lhs) (product : op = .mul)
    (rhs : Expr) : Absorbable .mul rhs → Absorbable .mul (join op lhs rhs) := by
  subst product
  induction rhs using Expr.operators with
  | bin other first second ih _ =>
      intro right
      unfold join
      by_cases same : other.level = BinOp.mul.level
      · rw [if_pos same]
        intro _
        exact ⟨(right same).1, ih (right same).2⟩
      · rw [if_neg same]
        intro _
        exact ⟨by simp [Regroups], left⟩
  | old expr _ => exact fun _ _ => ⟨by simp [Regroups], left⟩
  | neg expr _ => exact fun _ _ => ⟨by simp [Regroups], left⟩
  | leaf expr shape =>
      intro _
      cases expr with
      | bin other first second => cases shape
      | _ => exact fun _ => ⟨by simp [Regroups], left⟩

theorem absorbable_mul_negate (expr : Expr) : Absorbable .mul expr →
    Absorbable .mul (negate expr) := by
  induction expr using Expr.operators with
  | bin other first second ih _ =>
      intro inner
      unfold negate
      by_cases same : other.level = 5
      · rw [if_pos same]
        intro _
        exact ⟨(inner same).1, ih (inner same).2⟩
      · rw [if_neg same]
        trivial
  | old expr _ => exact fun _ => trivial
  | neg expr _ => exact fun _ => trivial
  | leaf expr shape =>
      intro _
      cases expr with
      | bin other first second => cases shape
      | _ => trivial

theorem absorbable_name (name : Name) : Absorbable op name.expr := by
  cases name <;> trivial

theorem absorbable_of_noDivision (expr : Expr) : ∀ {inOld : Bool}, expr.plain = true →
    5 ≤ expr.level → expr.noDivision = true → Absorbable .mul (regrouped naming inOld expr) := by
  induction expr using Expr.operators with
  | old expr ih => exact fun plain high => ih plain high
  | neg expr ih =>
      intro inOld plain _ without
      obtain ⟨plain, high⟩ := plain_neg.mp plain
      exact absorbable_mul_negate _ (ih plain high without)
  | bin op lhs rhs leftIh rightIh =>
      intro inOld plain high without
      obtain ⟨leftPlain, rightPlain, left, right⟩ := plain_bin.mp plain
      obtain ⟨leftHigh, rightHigh⟩ := level_of_fits left right
      change 5 ≤ op.level at high
      have product : op = .mul := by
        cases op <;> simp_all [BinOp.level, Expr.noDivision]
      subst product
      obtain ⟨leftWithout, rightWithout⟩ := Bool.and_eq_true_iff.mp without
      exact absorbable_mul_join (leftIh leftPlain leftHigh leftWithout) rfl _
        (rightIh rightPlain rightHigh rightWithout)
  | leaf expr shape =>
      intro inOld plain _ _
      cases expr with
      | var name => exact absorbable_name _
      | field base name => exact absorbable_name _
      | _ => trivial

theorem absorbable_of_fits {rhs : Expr} (plain : rhs.plain = true)
    (fits : op.fitsRight rhs = true) : Absorbable op (regrouped naming inOld rhs) := by
  rcases fitsRight_iff.mp fits with above | ⟨same, absorbs⟩
  · exact absorbable_of_above (by rw [level_regrouped rhs plain]; exact above)
  · cases op with
    | add => exact absorbable_of_kind (by simp) _
    | and => exact absorbable_of_kind (by simp) _
    | or => exact absorbable_of_kind (by simp) _
    | mul => exact absorbable_of_noDivision rhs plain (le_of_eq same) absorbs
    | _ => cases absorbs

/-- What the leaves of the source read where the generated code reads their names. -/
def named (naming : Naming) (values : Name → Value) : Leaves :=
  fun inOld name => values (naming inOld name)

theorem value_name (values : Name → Value) (name : Name) (inner : Bool) :
    name.expr.value (fun _ => values) inner = some (values name) := by
  cases name with
  | var name => rfl
  | field base name => rfl

theorem value_regrouped (values : Name → Value) (expr : Expr) : ∀ {inOld : Bool},
    expr.plain = true → ((regrouped naming inOld expr).value (fun _ => values) false =
      expr.value (named naming values) inOld) := by
  induction expr using Expr.operators with
  | old expr ih => exact fun plain => ih plain
  | neg expr ih =>
      intro inOld plain
      obtain ⟨plain, _⟩ := plain_neg.mp plain
      rw [regrouped, value_negate, ih plain, Expr.value]
  | bin op lhs rhs leftIh rightIh =>
      intro inOld plain
      obtain ⟨leftPlain, rightPlain, _, right⟩ := plain_bin.mp plain
      rw [regrouped, value_join _ (absorbable_of_fits rightPlain right), leftIh leftPlain,
        rightIh rightPlain, Expr.value]
  | leaf expr shape =>
      intro inOld plain
      cases expr with
      | int value => rfl
      | var name => exact value_name values _ false
      | field base name => exact value_name values _ false
      | _ => first | cases plain | cases shape

/-- The leaves that an expression reads, in `old(..)` and outside. -/
def Expr.leavesIn (inOld : Bool) : Expr → List (Bool × Name)
  | .var name => [(inOld, .var name)]
  | .field base name => [(inOld, .field base name)]
  | .old expr => expr.leavesIn true
  | .neg expr => expr.leavesIn inOld
  | .bin _ lhs rhs => lhs.leavesIn inOld ++ rhs.leavesIn inOld
  | _ => []

/-- Leaves that differ are called differently. -/
def NamesApart (naming : Naming) (expr : Expr) : Prop :=
  ∀ leaf ∈ expr.leavesIn false, ∀ other ∈ expr.leavesIn false,
    naming leaf.1 leaf.2 = naming other.1 other.2 → leaf = other

instance (naming : Naming) (expr : Expr) : Decidable (NamesApart naming expr) :=
  inferInstanceAs (Decidable (∀ leaf ∈ expr.leavesIn false, ∀ other ∈ expr.leavesIn false,
    naming leaf.1 leaf.2 = naming other.1 other.2 → leaf = other))

/-- The names of the generated code have the values of the leaves they stand for. -/
def Carries (naming : Naming) (expr : Expr) (leaves : Leaves) (values : Name → Value) : Prop :=
  ∀ leaf ∈ expr.leavesIn false, values (naming leaf.1 leaf.2) = leaves leaf.1 leaf.2

/-- The text is read as an expression that has the value of the source under every assignment to
the leaves of the source: names can have the values of the leaves, and then the values agree. -/
def MeansTheSame (naming : Naming) (text : List Token) (expr : Expr) : Prop :=
  ∃ readBack, Parses text readBack ∧ ∀ leaves : Leaves, (∃ values, Carries naming expr leaves values) ∧
    ∀ values, Carries naming expr leaves values →
      readBack.value (fun _ => values) false = expr.value leaves false

theorem value_congr {leaves other : Leaves} (expr : Expr) : ∀ {inOld : Bool}, expr.plain = true →
    (∀ leaf ∈ expr.leavesIn inOld, leaves leaf.1 leaf.2 = other leaf.1 leaf.2) →
      expr.value leaves inOld = expr.value other inOld := by
  induction expr using Expr.operators with
  | old expr ih => exact fun plain same => ih plain same
  | neg expr ih =>
      intro inOld plain same
      rw [Expr.value, Expr.value, ih (plain_neg.mp plain).1 same]
  | bin op lhs rhs leftIh rightIh =>
      intro inOld plain same
      obtain ⟨leftPlain, rightPlain, _⟩ := plain_bin.mp plain
      have left := leftIh leftPlain fun leaf member => same leaf (List.mem_append_left _ member)
      have right := rightIh rightPlain fun leaf member => same leaf (List.mem_append_right _ member)
      rw [Expr.value, Expr.value, left, right]
  | leaf expr shape =>
      intro inOld plain same
      cases expr with
      | int value => rfl
      | var name => exact congrArg some (same (inOld, .var name) (List.mem_singleton_self _))
      | field base name =>
          exact congrArg some (same (inOld, .field base name) (List.mem_singleton_self _))
      | _ => first | cases plain | cases shape

theorem carries_of_apart (apart : NamesApart naming expr) (leaves : Leaves) :
    ∃ values, Carries naming expr leaves values := by
  let called (name : Name) (leaf : Bool × Name) : Bool := decide (naming leaf.1 leaf.2 = name)
  refine ⟨fun name => (((expr.leavesIn false).find? (called name)).map fun leaf =>
    leaves leaf.1 leaf.2).getD (.int 0), ?_⟩
  intro leaf member
  have own : called (naming leaf.1 leaf.2) leaf = true := decide_eq_true rfl
  obtain ⟨found, holds⟩ := Option.isSome_iff_exists.mp (List.find?_isSome.mpr ⟨leaf, member, own⟩)
  have calledSame : called (naming leaf.1 leaf.2) found = true := List.find?_some holds
  have named : naming found.1 found.2 = naming leaf.1 leaf.2 := of_decide_eq_true calledSame
  have same : found = leaf := apart found (List.mem_of_find?_eq_some holds) leaf member named
  simp only [holds, same, Option.map_some, Option.getD_some]

/-- A text cannot tell two leaves apart that it calls by one name. -/
theorem apart_of_carries
    (carried : ∀ leaves : Leaves, ∃ values, Carries naming expr leaves values) :
    NamesApart naming expr := by
  intro leaf member other otherMember named
  by_contra differ
  obtain ⟨values, carries⟩ := carried fun inOld name =>
    if (inOld, name) = leaf then .int 0 else .int 1
  have one : values (naming leaf.1 leaf.2) = .int 0 := (carries leaf member).trans (if_pos rfl)
  have two : values (naming other.1 other.2) = .int 1 :=
    (carries other otherMember).trans (if_neg (Ne.symm differ))
  rw [← named, one] at two
  cases two

theorem meansTheSame_of_plain (plain : expr.plain = true) :
    MeansTheSame naming (renderWith others naming false expr) expr ↔ NamesApart naming expr := by
  constructor
  · rintro ⟨_, _, same⟩
    exact apart_of_carries fun leaves => (same leaves).1
  · intro apart
    refine ⟨regrouped naming false expr, parses_rendered plain, fun leaves =>
      ⟨carries_of_apart apart leaves, fun values carries => ?_⟩⟩
    rw [value_regrouped values expr plain]
    exact value_congr expr plain carries

/-! ## Invariants -/

/-- The constraints of an invariant, joined by `&&`. -/
def renderInvariant (others : Expr → List Token) : List Expr → List Token
  | [] => []
  | [constraint] => renderInv others constraint
  | constraint :: rest => renderInv others constraint ++ .and :: renderInvariant others rest

def conjunction (first : Expr) (rest : List Expr) : Expr :=
  rest.foldl (fun left right => .bin .and left right) first

theorem renderInvariant_cons (first : Expr) (rest : List Expr) :
    renderInvariant others (first :: rest) = renderInv others (conjunction first rest) := by
  induction rest generalizing first with
  | nil => rfl
  | cons second rest ih =>
      have together := ih (.bin .and first second)
      cases rest with
      | nil => rfl
      | cons third rest =>
          unfold conjunction at together ⊢
          rw [List.foldl_cons, ← together]
          simp only [renderInvariant, renderInv, renderWith, BinOp.token, List.append_assoc,
            List.cons_append]

/-! ## Which groupings are lost -/

def BinOp.givesBool (op : BinOp) : Bool := decide (op.level ≤ 3)

/-- The operand of the first operator may be an expression of the second. -/
def BinOp.accepts (parent child : BinOp) : Bool :=
  match parent with
  | .and | .or => child.givesBool
  | .eq | .ne => true
  | _ => !child.givesBool

def leftNested (parent child : BinOp) : Expr :=
  .bin parent (.bin child (.var "x") (.var "y")) (.var "z")

def rightNested (parent child : BinOp) : Expr :=
  .bin parent (.var "x") (.bin child (.var "y") (.var "z"))

def negated_ (child : BinOp) : Expr := .neg (.bin child (.var "x") (.var "y"))

def twoOperators (first second : BinOp) : List Token :=
  [.ident "x", first.token, .ident "y", second.token, .ident "z"]

theorem parse_two_operators (first second : BinOp) (fuel : Nat) :
    parseExpr (fuel + 10) (twoOperators first second) =
      if first.level < second.level then some (rightNested first second, [])
      else if first.level = 3 ∧ second.level = 3 then
        some (.bin first (.var "x") (.var "y"), [second.token, .ident "z"])
      else some (leftNested second first, []) := by
  cases first <;> cases second <;> rfl

theorem parse_negated (op : BinOp) (fuel : Nat) :
    parseExpr (fuel + 10) [.minus, .ident "x", op.token, .ident "y"] =
      some (.bin op (.neg (.var "x")) (.var "y"), []) := by
  cases op <;> rfl

instance : Fintype BinOp where
  elems := {.add, .sub, .mul, .div, .eq, .ne, .lt, .le, .gt, .ge, .and, .or}
  complete := by
    intro op
    cases op <;> decide

/-- Values of `x`, `y` and `z`. -/
def sample (values : Value × Value × Value) : Name → Value
  | .var "x" => values.1
  | .var "y" => values.2.1
  | _ => values.2.2

def samples : List (Value × Value × Value) :=
  [(.bool false, .bool false, .bool true), (.bool true, .bool false, .bool false),
    (.bool false, .int 0, .int 0), (.int 2, .int 1, .int 2)]

def Differ (left right : Expr) : Prop :=
  ∃ values ∈ samples, left.value (fun _ => sample values) false ≠
    right.value (fun _ => sample values) false

instance (left right : Expr) : Decidable (Differ left right) :=
  inferInstanceAs (Decidable (∃ values ∈ samples, _))

theorem left_operand_lost : ∀ parent child : BinOp, parent.accepts child = true →
    (leftNested parent child).plain = false → ¬(child.level = 3 ∧ parent.level = 3) →
      child.level < parent.level ∧
        Differ (leftNested parent child) (rightNested child parent) := by
  decide +kernel

theorem right_operand_lost : ∀ parent child : BinOp, parent.accepts child = true →
    (rightNested parent child).plain = false → ¬(parent.level = 3 ∧ child.level = 3) →
      child.level ≤ parent.level ∧
        Differ (rightNested parent child) (leftNested child parent) := by
  decide +kernel

theorem negated_operand_lost : ∀ child : BinOp, child.givesBool = false →
    (negated_ child).plain = false →
      Differ (negated_ child) (.bin child (.neg (.var "x")) (.var "y")) := by
  decide +kernel

theorem not_meansTheSame {text : List Token} {readBack : Expr} {behind : List Token}
    (reads : ∀ fuel, parseExpr (fuel + 10) text = some (readBack, behind))
    (lost : behind ≠ [] ∨ Differ expr readBack) : ¬MeansTheSame exprNaming text expr := by
  rintro ⟨found, ⟨enough, returns⟩, same⟩
  have both := (reads enough).symm.trans (returns (enough + 10) (by omega))
  obtain ⟨rfl, rfl⟩ := Prod.mk.inj (Option.some.inj both)
  rcases lost with unread | ⟨values, _, apart⟩
  · exact unread rfl
  · exact apart ((same fun _ => sample values).2 _ fun _ _ => rfl).symm

theorem apart_outside (outside : ∀ leaf ∈ expr.leavesIn false, leaf.1 = false) :
    NamesApart exprNaming expr := fun leaf member other otherMember named =>
  Prod.ext ((outside leaf member).trans (outside other otherMember).symm) named

theorem meansTheSame_left_iff {parent : BinOp} (accepts : parent.accepts child = true) :
    MeansTheSame exprNaming (renderExpr others (leftNested parent child))
      (leftNested parent child) ↔ (leftNested parent child).plain = true := by
  constructor
  · intro same
    by_contra lost
    rw [Bool.not_eq_true] at lost
    have reads := parse_two_operators child parent
    by_cases comparisons : child.level = 3 ∧ parent.level = 3
    · simp only [if_neg (show ¬child.level < parent.level by omega), if_pos comparisons] at reads
      exact not_meansTheSame reads (Or.inl (List.cons_ne_nil _ _)) same
    · obtain ⟨below, differ⟩ := left_operand_lost parent child accepts lost comparisons
      simp only [if_pos below] at reads
      exact not_meansTheSame reads (Or.inr differ) same
  · exact fun plain => (meansTheSame_of_plain plain).mpr
      (apart_outside (by simp [leftNested, Expr.leavesIn]))

theorem meansTheSame_right_iff {parent : BinOp} (accepts : parent.accepts child = true) :
    MeansTheSame exprNaming (renderExpr others (rightNested parent child))
      (rightNested parent child) ↔ (rightNested parent child).plain = true := by
  constructor
  · intro same
    by_contra lost
    rw [Bool.not_eq_true] at lost
    have reads := parse_two_operators parent child
    by_cases comparisons : parent.level = 3 ∧ child.level = 3
    · simp only [if_neg (show ¬parent.level < child.level by omega), if_pos comparisons] at reads
      exact not_meansTheSame reads (Or.inl (List.cons_ne_nil _ _)) same
    · obtain ⟨below, differ⟩ := right_operand_lost parent child accepts lost comparisons
      simp only [if_neg (show ¬parent.level < child.level by omega), if_neg comparisons] at reads
      exact not_meansTheSame reads (Or.inr differ) same
  · exact fun plain => (meansTheSame_of_plain plain).mpr
      (apart_outside (by simp [rightNested, Expr.leavesIn]))

theorem meansTheSame_negated_iff (arithmetic : child.givesBool = false) :
    MeansTheSame exprNaming (renderExpr others (negated_ child)) (negated_ child) ↔
      (negated_ child).plain = true := by
  constructor
  · intro same
    by_contra lost
    rw [Bool.not_eq_true] at lost
    exact not_meansTheSame (parse_negated child)
      (Or.inr (negated_operand_lost child arithmetic lost)) same
  · exact fun plain => (meansTheSame_of_plain plain).mpr
      (apart_outside (by simp [negated_, Expr.leavesIn]))

/-- Where precedence suffices for the grouping of the source, generated expressions, invariants and
guards mean what the source does exactly if they call no two of its leaves by one name.  Of an
operator below another precedence must suffice. -/
theorem rendered_means_the_same (others : Expr → List Token) :
    (∀ expr : Expr, expr.plain = true →
      (MeansTheSame exprNaming (renderExpr others expr) expr ↔ NamesApart exprNaming expr) ∧
      (MeansTheSame invNaming (renderInv others expr) expr ↔ NamesApart invNaming expr) ∧
      ∀ scalarOut post, MeansTheSame (guardNaming scalarOut post)
        (rustGuardInner others scalarOut post expr) expr ↔
          NamesApart (guardNaming scalarOut post) expr) ∧
    (∀ (first : Expr) (rest : List Expr), (conjunction first rest).plain = true →
      (MeansTheSame invNaming (renderInvariant others (first :: rest)) (conjunction first rest) ↔
        NamesApart invNaming (conjunction first rest))) ∧
    (∀ parent child : BinOp, parent.accepts child = true →
      (MeansTheSame exprNaming (renderExpr others (leftNested parent child))
        (leftNested parent child) ↔ (leftNested parent child).plain = true) ∧
      (MeansTheSame exprNaming (renderExpr others (rightNested parent child))
        (rightNested parent child) ↔ (rightNested parent child).plain = true)) ∧
    ∀ child : BinOp, child.givesBool = false →
      (MeansTheSame exprNaming (renderExpr others (negated_ child)) (negated_ child) ↔
        (negated_ child).plain = true) := by
  refine ⟨fun expr plain => ?_, fun first rest plain => ?_, fun parent child accepts => ?_,
    fun child arithmetic => meansTheSame_negated_iff arithmetic⟩
  · exact ⟨meansTheSame_of_plain plain, meansTheSame_of_plain plain,
      fun scalarOut post => meansTheSame_of_plain plain⟩
  · rw [renderInvariant_cons]
    exact meansTheSame_of_plain plain
  · exact ⟨meansTheSame_left_iff accepts, meansTheSame_right_iff accepts⟩

theorem chained_difference_is_read_back :
    MeansTheSame exprNaming
      (renderExpr (fun _ => []) (.bin .sub (.bin .sub (.var "a") (.var "b")) (.var "c")))
      (.bin .sub (.bin .sub (.var "a") (.var "b")) (.var "c")) :=
  ((rendered_means_the_same fun _ => []).1 _ (by decide)).1.mpr (by decide)

/-- `a - (b - c)` is printed as `a - b - c`. -/
theorem nested_difference_is_regrouped :
    Parses [.ident "a", .minus, .lParen, .ident "b", .minus, .ident "c", .rParen]
        (.bin .sub (.var "a") (.bin .sub (.var "b") (.var "c"))) ∧
      ¬MeansTheSame exprNaming
        (renderExpr (fun _ => []) (.bin .sub (.var "a") (.bin .sub (.var "b") (.var "c"))))
        (.bin .sub (.var "a") (.bin .sub (.var "b") (.var "c"))) := by
  constructor
  · refine ⟨10, fun fuel atLeast => ?_⟩
    obtain ⟨less, rfl⟩ : ∃ less, fuel = less + 10 := ⟨fuel - 10, by omega⟩
    rfl
  · rintro ⟨found, ⟨enough, returns⟩, same⟩
    have reads : parseExpr (enough + 10)
        [.ident "a", .minus, .ident "b", .minus, .ident "c"] =
          some (.bin .sub (.bin .sub (.var "a") (.var "b")) (.var "c"), []) := rfl
    have both := reads.symm.trans (returns (enough + 10) (by omega))
    obtain ⟨rfl, _⟩ := Prod.mk.inj (Option.some.inj both)
    have ones := (same fun _ _ => .int 1).2 (fun _ => .int 1) fun _ _ => rfl
    revert ones
    decide

end Pantheon.Telos
