import Mathlib
import Pantheon.Telos.Grammar

/-!
# The expressions in the generated code: `render_expr`, `render_inv`, `rust_guard_inner`

The three renderers print operands and operators in order and differ in what they call a
variable or a field.  None prints a parenthesis, so what is read back is the expression
with its operators regrouped by precedence.  The text is given as its tokens.
-/

set_option autoImplicit false

namespace Pantheon.Telos

def Name.tokens : Name → List Token
  | .var name => [.ident name]
  | .field base name => [.ident base, .dot, .ident name]

def Name.expr : Name → Expr
  | .var name => .var name
  | .field base name => .field base name

/-- What a leaf is called, in `old(..)` and outside. -/
abbrev Naming : Type := Bool → Name → Name

/-- `others` prints the forms that are not arithmetic or boolean. -/
def renderWith (others : Expr → List Token) (naming : Naming) (inOld : Bool) :
    Expr → List Token
  | .int value => [.int value]
  | .var name => (naming inOld (.var name)).tokens
  | .field base field => (naming inOld (.field base field)).tokens
  | .old expr => renderWith others naming true expr
  | .neg expr => .minus :: renderWith others naming inOld expr
  | .bin op lhs rhs =>
      renderWith others naming inOld lhs ++ op.token :: renderWith others naming inOld rhs
  | expr => others expr

def exprNaming : Naming := fun _ name => name

def renderExpr (others : Expr → List Token) : Expr → List Token :=
  renderWith others exprNaming false

def invNaming : Naming := fun _ name =>
  match name with
  | .var name => .field "self" name
  | .field _ field => .field "self" field

def renderInv (others : Expr → List Token) : Expr → List Token :=
  renderWith others invNaming false

/-- The result is `__ret` behind the call, the fields before it are kept as `__old_..`. -/
def guardNaming (scalarOut : Option String) (post : Bool) : Naming := fun inOld name =>
  match name with
  | .var name =>
      if post = true ∧ inOld = false ∧ scalarOut = some name then .var "__ret" else .var name
  | .field base field =>
      if inOld then .var ("__old_" ++ base ++ "_" ++ field) else .field base field

def rustGuardInner (others : Expr → List Token) (scalarOut : Option String) (post : Bool) :
    Expr → List Token :=
  renderWith others (guardNaming scalarOut post) false

/-! ## Where no parenthesis is needed -/

def Expr.level : Expr → Nat
  | .old expr => expr.level
  | .neg expr => min 6 expr.level
  | .bin op _ _ => op.level
  | _ => 7

def Expr.noDivision : Expr → Bool
  | .old expr => expr.noDivision
  | .neg expr => expr.noDivision
  | .bin .mul lhs rhs => lhs.noDivision && rhs.noDivision
  | .bin .div _ _ => false
  | _ => true

/-- An operator whose right operand may be a chain of its own level: regrouping to the left
keeps the value. -/
def BinOp.absorbs (op : BinOp) (rhs : Expr) : Bool :=
  match op with
  | .add | .and | .or => true
  | .mul => rhs.noDivision
  | _ => false

def BinOp.fitsLeft (op : BinOp) (lhs : Expr) : Bool :=
  if op.level = 3 then decide (3 < lhs.level) else decide (op.level ≤ lhs.level)

def BinOp.fitsRight (op : BinOp) (rhs : Expr) : Bool :=
  decide (op.level < rhs.level) || (decide (op.level = rhs.level) && op.absorbs rhs)

/-- An arithmetic or boolean expression whose grouping precedence alone gives back, up to
regroupings that keep the value. -/
def Expr.plain : Expr → Bool
  | .int _ => true
  | .var _ => true
  | .field _ _ => true
  | .old expr => expr.plain
  | .neg expr => expr.plain && decide (5 ≤ expr.level)
  | .bin op lhs rhs => lhs.plain && rhs.plain && op.fitsLeft lhs && op.fitsRight rhs
  | _ => false

/-! ## The tree that is read back -/

/-- The operand on the left goes to the first operand of a chain of the same level. -/
def join (op : BinOp) (lhs : Expr) : Expr → Expr
  | .bin other first second =>
      if other.level = op.level then .bin other (join op lhs first) second
      else .bin op lhs (.bin other first second)
  | rhs => .bin op lhs rhs

/-- A minus goes to the first operand of a chain of products. -/
def negate : Expr → Expr
  | .bin op first second =>
      if op.level = 5 then .bin op (negate first) second else .neg (.bin op first second)
  | expr => .neg expr

def regrouped (naming : Naming) (inOld : Bool) : Expr → Expr
  | .var name => (naming inOld (.var name)).expr
  | .field base field => (naming inOld (.field base field)).expr
  | .old expr => regrouped naming true expr
  | .neg expr => negate (regrouped naming inOld expr)
  | .bin op lhs rhs => join op (regrouped naming inOld lhs) (regrouped naming inOld rhs)
  | expr => expr

variable {op : BinOp} {naming : Naming} {inOld : Bool}

theorem plain_neg {expr : Expr} :
    (Expr.neg expr).plain = true ↔ expr.plain = true ∧ 5 ≤ expr.level := by
  simp [Expr.plain]

theorem plain_bin {lhs rhs : Expr} : (Expr.bin op lhs rhs).plain = true ↔
    lhs.plain = true ∧ rhs.plain = true ∧ op.fitsLeft lhs = true ∧ op.fitsRight rhs = true := by
  simp only [Expr.plain, Bool.and_eq_true]
  tauto

theorem fitsRight_iff {rhs : Expr} : op.fitsRight rhs = true ↔
    op.level < rhs.level ∨ op.level = rhs.level ∧ op.absorbs rhs = true := by
  simp [BinOp.fitsRight]

theorem level_of_fits {lhs rhs : Expr} (left : op.fitsLeft lhs = true)
    (right : op.fitsRight rhs = true) : op.level ≤ lhs.level ∧ op.level ≤ rhs.level := by
  constructor
  · unfold BinOp.fitsLeft at left
    split_ifs at left with comparison <;> have := of_decide_eq_true left <;> omega
  · rcases fitsRight_iff.mp right with above | ⟨same, _⟩ <;> omega

theorem above_of_comparison {lhs rhs : Expr} (comparison : op.level = 3)
    (left : op.fitsLeft lhs = true) (right : op.fitsRight rhs = true) :
    3 < lhs.level ∧ 3 < rhs.level := by
  constructor
  · unfold BinOp.fitsLeft at left
    rw [if_pos comparison] at left
    exact of_decide_eq_true left
  · rcases fitsRight_iff.mp right with above | ⟨_, absorbs⟩
    · omega
    · cases op <;> simp_all [BinOp.level, BinOp.absorbs]

theorem level_join (lhs rhs : Expr) : (join op lhs rhs).level = op.level := by
  cases rhs with
  | bin other first second =>
      unfold join
      split_ifs with same
      · exact same
      · rfl
  | _ => rfl

theorem level_negate (expr : Expr) (high : 5 ≤ expr.level) :
    (negate expr).level = min 6 expr.level := by
  cases expr with
  | bin other first second =>
      have small : other.level ≤ 5 := by cases other <;> decide
      have five : other.level = 5 := le_antisymm small high
      unfold negate
      rw [if_pos five]
      simp only [Expr.level, five]
      rfl
  | _ => rfl

theorem level_name (name : Name) : name.expr.level = 7 := by
  cases name with
  | var name => rfl
  | field base name => rfl

theorem level_regrouped (expr : Expr) : ∀ {inOld : Bool}, expr.plain = true →
    (regrouped naming inOld expr).level = expr.level := by
  induction expr using Expr.operators with
  | leaf expr shape =>
      intro inOld plain
      cases expr with
      | var name => exact level_name _
      | field base name => exact level_name _
      | _ => first | rfl | cases shape
  | old expr ih => exact fun plain => ih plain
  | neg expr ih =>
      intro inOld plain
      obtain ⟨plain, high⟩ := plain_neg.mp plain
      unfold regrouped
      rw [level_negate _ (by rw [ih plain]; exact high), ih plain]
      rfl
  | bin op lhs rhs _ _ => exact fun _ => level_join _ _

theorem join_of_above {lhs rhs : Expr} (apart : rhs.level ≠ op.level) :
    join op lhs rhs = .bin op lhs rhs := by
  cases rhs with
  | bin other first second => exact if_neg apart
  | _ => rfl

theorem join_join {other : BinOp} (same : other.level = op.level) (lhs middle rhs : Expr) :
    join op lhs (join other middle rhs) = join other (join op lhs middle) rhs := by
  induction rhs using Expr.operators with
  | bin inner first second ih _ =>
      by_cases inside : inner.level = other.level
      · have outside : inner.level = op.level := inside.trans same
        simp only [join, if_pos inside, if_pos outside, ih]
      · simp only [join, if_neg inside, if_pos same]
  | old expr _ => simp only [join, if_pos same]
  | neg expr _ => simp only [join, if_pos same]
  | leaf expr shape =>
      cases expr with
      | bin inner first second => cases shape
      | _ => simp only [join, if_pos same]

theorem negate_of_above {expr : Expr} (apart : expr.level ≠ 5) : negate expr = .neg expr := by
  cases expr with
  | bin other first second => exact if_neg apart
  | _ => rfl

theorem negate_join (product : op.level = 5) (lhs rhs : Expr) :
    negate (join op lhs rhs) = join op (negate lhs) rhs := by
  induction rhs using Expr.operators with
  | bin inner first second ih _ =>
      by_cases inside : inner.level = op.level
      · have five : inner.level = 5 := inside.trans product
        simp only [join, if_pos inside, negate, if_pos five, ih]
      · simp only [join, if_neg inside, negate, if_pos product]
  | old expr _ => simp only [join, negate, if_pos product]
  | neg expr _ => simp only [join, negate, if_pos product]
  | leaf expr shape =>
      cases expr with
      | bin inner first second => cases shape
      | _ => simp only [join, negate, if_pos product]

end Pantheon.Telos
