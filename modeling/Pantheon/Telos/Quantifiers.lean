import Mathlib
import Pantheon.Telos.Builds
import Pantheon.Telos.Disjunctions

/-!
# Quantifiers are unrolled: `to_constraints_dnf` in `tpt-telos-ir/src/extract.rs`

`substitute_var` passes over conditionals, and replaces a name below an inner quantifier of
the same name too.  Where neither happens to a name that matters, the branches of a lowered
contract say what the contract says.
-/

set_option autoImplicit false

namespace Pantheon.Telos

open Pantheon.Lib

variable {values : String → Int} {leaves : Leaves} {inOld : Bool} {fieldFn : FieldNaming}

variable {name : String} {domain : Option Expr} {replacement : Expr}

/-! ## Contracts -/

def Expr.arithmetic : Expr → Bool
  | .int _ => true
  | .var _ => true
  | .field _ _ => true
  | .index _ _ => true
  | .old expr => expr.arithmetic
  | .neg expr => expr.arithmetic
  | .bin _ lhs rhs => lhs.arithmetic && rhs.arithmetic
  | _ => false

/-- Comparisons of arithmetic joined by `&&`, `||`, `if` and `forall` over a constant range. -/
def Expr.contract : Expr → Bool
  | .bin op lhs rhs =>
      match op with
      | .and | .or => lhs.contract && rhs.contract
      | _ => lhs.arithmetic && rhs.arithmetic
  | .ifElse condition thenExpr elseExpr =>
      condition.contract && thenExpr.contract && elseExpr.contract
  | .forall_ _ domain body => (rangeBounds domain).isSome && body.contract
  | _ => false

def Expr.formed : Expr → Bool
  | .int _ => true
  | .var _ => true
  | .field _ _ => true
  | .index _ _ => true
  | .old expr => expr.formed
  | .neg expr => expr.formed
  | .bin _ lhs rhs => lhs.formed && rhs.formed
  | .ifElse condition thenExpr elseExpr => condition.formed && thenExpr.formed && elseExpr.formed
  | .forall_ _ domain body => (rangeBounds domain).isSome && body.formed
  | _ => false

/-! ## Occurrences of a variable -/

def emptyRange (domain : Option Expr) : Bool :=
  (rangeBounds domain).any fun bounds => decide (bounds.2 ≤ bounds.1)

def Expr.free (name : String) : Expr → Bool
  | .var other => decide (other = name)
  | .index receiver position => decide (elementName receiver position = some (.var name))
  | .old expr => expr.free name
  | .neg expr => expr.free name
  | .bin _ lhs rhs => lhs.free name || rhs.free name
  | .ifElse condition thenExpr elseExpr =>
      condition.free name || thenExpr.free name || elseExpr.free name
  | .forall_ bound domain body => !emptyRange domain && decide (bound ≠ name) && body.free name
  | _ => false

def Expr.replaced (name : String) : Expr → Bool
  | .var other => decide (other = name)
  | .old expr => expr.replaced name
  | .neg expr => expr.replaced name
  | .bin _ lhs rhs => lhs.replaced name || rhs.replaced name
  | .forall_ _ _ body => body.replaced name
  | _ => false

/-- The substitution replaces the variable where it is free and nowhere else. -/
def Expr.reached (name : String) : Expr → Bool
  | .old expr => expr.reached name
  | .neg expr => expr.reached name
  | .bin _ lhs rhs => lhs.reached name && rhs.reached name
  | .index receiver position => !(Expr.index receiver position).free name
  | .ifElse condition thenExpr elseExpr => !(Expr.ifElse condition thenExpr elseExpr).free name
  | .forall_ bound domain body =>
      emptyRange domain || if bound = name then !body.replaced name else body.reached name
  | _ => true

def Expr.wellBound : Expr → Bool
  | .bin _ lhs rhs => lhs.wellBound && rhs.wellBound
  | .ifElse condition thenExpr elseExpr =>
      condition.wellBound && thenExpr.wellBound && elseExpr.wellBound
  | .forall_ name domain body => emptyRange domain || body.reached name && body.wellBound
  | _ => true

/-! ## Bindings -/

theorem bind_self (name : String) (first second : Value) :
    (leaves.bind name first).bind name second = leaves.bind name second := by
  funext inOld other
  unfold Leaves.bind
  split_ifs <;> rfl

theorem bind_comm {other : String} (apart : other ≠ name) (first second : Value) :
    (leaves.bind name first).bind other second = (leaves.bind other second).bind name first := by
  funext inOld leaf
  unfold Leaves.bind
  by_cases isOther : leaf = .var other
  · have notName : leaf ≠ .var name := fun same => apart (Name.var.inj (isOther.symm.trans same))
    rw [if_pos isOther, if_neg notName, if_pos isOther]
  · rw [if_neg isOther]
    by_cases isName : leaf = .var name
    · rw [if_pos isName, if_pos isName]
    · rw [if_neg isName, if_neg isName, if_neg isOther]

theorem bind_apart {value : Value} {leaf : Name} (apart : leaf ≠ .var name) :
    leaves.bind name value inOld leaf = leaves inOld leaf := if_neg apart

theorem forall_value_of_empty (empty : emptyRange domain = true)
    (name : String) (body : Expr) :
    (Expr.forall_ name domain body).value leaves inOld = some (.bool true) := by
  rw [Expr.value]
  unfold emptyRange at empty
  cases bounds : rangeBounds domain with
  | none =>
      rw [bounds] at empty
      cases empty
  | some bounds_ =>
      rw [bounds] at empty
      have ordered : bounds_.2 ≤ bounds_.1 := of_decide_eq_true empty
      rw [Option.bind_some, Int.toNat_of_nonpos (by omega)]
      rfl

theorem forall_value_congr {other : String} {body second : Expr}
    {others : Leaves}
    (same : ∀ value, body.value (leaves.bind name value) inOld =
      second.value (others.bind other value) inOld) :
    (Expr.forall_ name domain body).value leaves inOld =
      (Expr.forall_ other domain second).value others inOld := by
  rw [Expr.value, Expr.value]
  simp only [same]

@[elab_as_elim]
theorem Expr.byForm {motive : Expr → Prop}
    (int : ∀ value, motive (.int value)) (var : ∀ name, motive (.var name))
    (field : ∀ base name, motive (.field base name))
    (element : ∀ receiver position, motive (.index receiver position))
    (old : ∀ expr, motive expr → motive (.old expr))
    (neg : ∀ expr, motive expr → motive (.neg expr))
    (bin : ∀ op lhs rhs, motive lhs → motive rhs → motive (.bin op lhs rhs))
    (ifElse : ∀ condition thenExpr elseExpr, motive condition → motive thenExpr →
      motive elseExpr → motive (.ifElse condition thenExpr elseExpr))
    (forall_ : ∀ name domain body, motive body → motive (.forall_ name domain body))
    (other : ∀ expr : Expr, expr.formed = false → expr.arithmetic = false →
      expr.contract = false → motive expr) : ∀ expr, motive expr
  | .int value => int value
  | .var name => var name
  | .field base name => field base name
  | .index receiver position => element receiver position
  | .old expr =>
      old expr (Expr.byForm int var field element old neg bin ifElse forall_ other expr)
  | .neg expr =>
      neg expr (Expr.byForm int var field element old neg bin ifElse forall_ other expr)
  | .bin op lhs rhs =>
      bin op lhs rhs (Expr.byForm int var field element old neg bin ifElse forall_ other lhs)
        (Expr.byForm int var field element old neg bin ifElse forall_ other rhs)
  | .ifElse condition thenExpr elseExpr =>
      ifElse condition thenExpr elseExpr
        (Expr.byForm int var field element old neg bin ifElse forall_ other condition)
        (Expr.byForm int var field element old neg bin ifElse forall_ other thenExpr)
        (Expr.byForm int var field element old neg bin ifElse forall_ other elseExpr)
  | .forall_ name domain body =>
      forall_ name domain body
        (Expr.byForm int var field element old neg bin ifElse forall_ other body)
  | .call _ _ => other _ rfl rfl rfl
  | .methodCall _ _ _ => other _ rfl rfl rfl
  | .matchOn _ _ => other _ rfl rfl rfl
  | .try_ _ => other _ rfl rfl rfl
  | .aggregate _ _ => other _ rfl rfl rfl
  | .range _ _ => other _ rfl rfl rfl

theorem value_of_not_free {value : Value} (expr : Expr) :
    expr.formed = true → expr.free name = false → ∀ (leaves : Leaves) (inOld : Bool),
      expr.value (leaves.bind name value) inOld = expr.value leaves inOld := by
  induction expr using Expr.byForm with
  | int constant => exact fun _ _ leaves inOld => rfl
  | var other =>
      intro _ absent leaves inOld
      have apart : Name.var other ≠ .var name := fun same =>
        of_decide_eq_false absent (Name.var.inj same)
      rw [Expr.value, Expr.value, bind_apart apart]
  | field base field =>
      intro _ _ leaves inOld
      rw [Expr.value, Expr.value, bind_apart (by simp)]
  | element receiver position =>
      intro _ absent leaves inOld
      rw [Expr.value, Expr.value]
      cases found : elementName receiver position with
      | none => rfl
      | some leaf =>
          have apart : leaf ≠ .var name := fun same =>
            of_decide_eq_false absent (found.trans (congrArg some same))
          rw [Option.map_some, Option.map_some, bind_apart apart]
  | old expr ih | neg expr ih =>
      intro formed absent leaves inOld
      rw [Expr.value, Expr.value, ih formed absent]
  | bin op lhs rhs leftIh rightIh =>
      intro formed absent leaves inOld
      obtain ⟨leftFormed, rightFormed⟩ := Bool.and_eq_true_iff.mp formed
      obtain ⟨leftAbsent, rightAbsent⟩ := Bool.or_eq_false_iff.mp absent
      rw [Expr.value, Expr.value, leftIh leftFormed leftAbsent, rightIh rightFormed rightAbsent]
  | ifElse condition thenExpr elseExpr conditionIh thenIh elseIh =>
      intro formed absent leaves inOld
      obtain ⟨both, elseFormed⟩ := Bool.and_eq_true_iff.mp formed
      obtain ⟨conditionFormed, thenFormed⟩ := Bool.and_eq_true_iff.mp both
      obtain ⟨neither, elseAbsent⟩ := Bool.or_eq_false_iff.mp absent
      obtain ⟨conditionAbsent, thenAbsent⟩ := Bool.or_eq_false_iff.mp neither
      rw [Expr.value, Expr.value, conditionIh conditionFormed conditionAbsent,
        thenIh thenFormed thenAbsent, elseIh elseFormed elseAbsent]
  | forall_ var domain body ih =>
      intro formed absent leaves inOld
      obtain ⟨-, bodyFormed⟩ := Bool.and_eq_true_iff.mp formed
      by_cases empty : emptyRange domain = true
      · rw [forall_value_of_empty empty, forall_value_of_empty empty]
      · refine forall_value_congr fun bound => ?_
        by_cases same : var = name
        · rw [same, bind_self]
        · have bodyAbsent : body.free name = false := by
            simpa [Expr.free, empty, same] using absent
          rw [bind_comm same]
          exact ih bodyFormed bodyAbsent _ _
  | other expr shape _ _ =>
      intro formed
      rw [shape] at formed
      cases formed

/-! ## Substitution -/

theorem substituteVar_constant (expr : Expr) :
    ∀ {value : Int}, expr.constant = some value → substituteVar name replacement expr = expr := by
  induction expr using Expr.operators with
  | leaf expr shape =>
      intro value constant
      cases expr with
      | int value => rfl
      | _ => first | cases constant | cases shape
  | old expr ih =>
      intro value constant
      cases constant
  | neg expr ih =>
      intro value constant
      obtain ⟨inner, innerConstant, -⟩ := Option.map_eq_some_iff.mp constant
      rw [substituteVar, ih innerConstant]
  | bin op lhs rhs leftIh rightIh =>
      intro value constant
      obtain ⟨left, leftConstant, constant⟩ := Option.bind_eq_some_iff.mp constant
      obtain ⟨right, rightConstant, -⟩ := Option.bind_eq_some_iff.mp constant
      rw [substituteVar, leftIh leftConstant, rightIh rightConstant]

theorem substituteDomain_constant
    (range : (rangeBounds domain).isSome = true) :
    substituteDomain name replacement domain = domain := by
  cases domain with
  | none => rfl
  | some domain =>
      cases domain with
      | range lo hi =>
          obtain ⟨bounds, found⟩ := Option.isSome_iff_exists.mp range
          obtain ⟨low, lowConstant, found⟩ := Option.bind_eq_some_iff.mp found
          obtain ⟨high, highConstant, -⟩ := Option.bind_eq_some_iff.mp found
          rw [substituteDomain, substituteVar, substituteVar_constant lo lowConstant,
            substituteVar_constant hi highConstant]
      | _ => cases range

theorem substituteVar_of_not_replaced (expr : Expr) :
    expr.formed = true → expr.replaced name = false →
      substituteVar name replacement expr = expr := by
  induction expr using Expr.byForm with
  | int constant => exact fun _ _ => rfl
  | var other =>
      intro _ kept
      rw [substituteVar, if_neg (of_decide_eq_false kept)]
  | field base field => exact fun _ _ => rfl
  | element receiver position => exact fun _ _ => rfl
  | old expr ih =>
      intro formed kept
      rw [substituteVar, ih formed kept]
  | neg expr ih =>
      intro formed kept
      rw [substituteVar, ih formed kept]
  | bin op lhs rhs leftIh rightIh =>
      intro formed kept
      obtain ⟨leftFormed, rightFormed⟩ := Bool.and_eq_true_iff.mp formed
      obtain ⟨leftKept, rightKept⟩ := Bool.or_eq_false_iff.mp kept
      rw [substituteVar, leftIh leftFormed leftKept, rightIh rightFormed rightKept]
  | ifElse condition thenExpr elseExpr _ _ _ => exact fun _ _ => rfl
  | forall_ var domain body ih =>
      intro formed kept
      obtain ⟨range, bodyFormed⟩ := Bool.and_eq_true_iff.mp formed
      rw [substituteVar, substituteDomain_constant range, ih bodyFormed kept]
  | other expr shape _ _ =>
      intro formed
      rw [shape] at formed
      cases formed

theorem value_substitute {value : Int} (expr : Expr) :
    expr.formed = true → expr.reached name = true → ∀ (leaves : Leaves) (inOld : Bool),
      (substituteVar name (.int value) expr).value leaves inOld =
        expr.value (leaves.bind name (.int value)) inOld := by
  induction expr using Expr.byForm with
  | int constant => exact fun _ _ leaves inOld => rfl
  | var other =>
      intro _ _ leaves inOld
      by_cases same : other = name
      · rw [substituteVar, if_pos same, Expr.value, Expr.value, Leaves.bind,
          if_pos (congrArg Name.var same)]
      · rw [substituteVar, if_neg same, Expr.value, Expr.value,
          bind_apart fun equal => same (Name.var.inj equal)]
  | field base field =>
      intro _ _ leaves inOld
      change (Expr.field base field).value leaves inOld = _
      rw [Expr.value, Expr.value, bind_apart (by simp)]
  | element receiver position =>
      intro formed reached leaves inOld
      exact (value_of_not_free _ formed (by simpa [Expr.reached] using reached) _ _).symm
  | old expr ih | neg expr ih =>
      intro formed reached leaves inOld
      rw [substituteVar, Expr.value, Expr.value, ih formed reached]
  | bin op lhs rhs leftIh rightIh =>
      intro formed reached leaves inOld
      obtain ⟨leftFormed, rightFormed⟩ := Bool.and_eq_true_iff.mp formed
      obtain ⟨leftReached, rightReached⟩ := Bool.and_eq_true_iff.mp reached
      rw [substituteVar, Expr.value, Expr.value, leftIh leftFormed leftReached,
        rightIh rightFormed rightReached]
  | ifElse condition thenExpr elseExpr _ _ _ =>
      intro formed reached leaves inOld
      exact (value_of_not_free _ formed (by simpa [Expr.reached] using reached) _ _).symm
  | forall_ var domain body ih =>
      intro formed reached leaves inOld
      obtain ⟨range, bodyFormed⟩ := Bool.and_eq_true_iff.mp formed
      rw [substituteVar, substituteDomain_constant range]
      by_cases empty : emptyRange domain = true
      · rw [forall_value_of_empty empty, forall_value_of_empty empty]
      · have inside : (if var = name then !body.replaced name else body.reached name) = true := by
          simpa [Expr.reached, empty] using reached
        refine forall_value_congr fun bound => ?_
        by_cases same : var = name
        · rw [if_pos same, Bool.not_eq_true'] at inside
          rw [substituteVar_of_not_replaced body bodyFormed inside, same, bind_self]
        · rw [if_neg same] at inside
          rw [bind_comm same]
          exact ih bodyFormed inside _ _
  | other expr shape _ _ =>
      intro formed
      rw [shape] at formed
      cases formed

/-! ## Instances -/

/-- What an instance keeps of the body. -/
structure Instance (before after : Expr) : Prop where
  formed : before.formed = true → after.formed = true
  arithmetic : before.arithmetic = true → after.arithmetic = true
  contract : before.contract = true → after.contract = true
  free : ∀ name, before.free name = false → after.free name = false
  replaced : ∀ name, before.replaced name = false → after.replaced name = false
  reached : ∀ name, before.reached name = true → after.reached name = true
  wellBound : before.wellBound = true → after.wellBound = true

theorem Instance.refl (expr : Expr) : Instance expr expr :=
  ⟨id, id, id, fun _ => id, fun _ => id, fun _ => id, id⟩

theorem Instance.literal (name : String) (value : Int) : Instance (.var name) (.int value) :=
  ⟨fun _ => rfl, fun _ => rfl, (fun contract => nomatch contract), fun _ _ => rfl, fun _ _ => rfl,
    fun _ _ => rfl, fun _ => rfl⟩

theorem Instance.old {before after : Expr} (inner : Instance before after) :
    Instance (.old before) (.old after) :=
  ⟨inner.formed, inner.arithmetic, (fun contract => nomatch contract), inner.free, inner.replaced,
    inner.reached, fun _ => rfl⟩

theorem Instance.neg {before after : Expr} (inner : Instance before after) :
    Instance (.neg before) (.neg after) :=
  ⟨inner.formed, inner.arithmetic, (fun contract => nomatch contract), inner.free, inner.replaced,
    inner.reached, fun _ => rfl⟩

theorem and_imp {first second first' second' : Bool} (left : first = true → first' = true)
    (right : second = true → second' = true) (both : (first && second) = true) :
    (first' && second') = true := by
  rw [Bool.and_eq_true] at both ⊢
  exact ⟨left both.1, right both.2⟩

theorem or_imp {first second first' second' : Bool} (left : first = false → first' = false)
    (right : second = false → second' = false) (neither : (first || second) = false) :
    (first' || second') = false := by
  rw [Bool.or_eq_false_iff] at neither ⊢
  exact ⟨left neither.1, right neither.2⟩

theorem Instance.bin {lhs rhs lhs' rhs' : Expr} (op : BinOp) (left : Instance lhs lhs')
    (right : Instance rhs rhs') : Instance (.bin op lhs rhs) (.bin op lhs' rhs') where
  formed := and_imp left.formed right.formed
  arithmetic := and_imp left.arithmetic right.arithmetic
  contract := by
    cases op with
    | and | or => exact and_imp left.contract right.contract
    | _ => exact and_imp left.arithmetic right.arithmetic
  free name := or_imp (left.free name) (right.free name)
  replaced name := or_imp (left.replaced name) (right.replaced name)
  reached name := and_imp (left.reached name) (right.reached name)
  wellBound := and_imp left.wellBound right.wellBound

theorem Instance.forall_ {body body' : Expr} (bound : String) (domain : Option Expr)
    (inner : Instance body body') :
    Instance (.forall_ bound domain body) (.forall_ bound domain body') where
  formed := and_imp id inner.formed
  arithmetic arithmetic := nomatch arithmetic
  contract := and_imp id inner.contract
  free name absent := by
    simp only [Expr.free, Bool.and_eq_false_iff] at absent ⊢
    exact absent.imp_right (inner.free name)
  replaced := inner.replaced
  reached name reached := by
    simp only [Expr.reached, Bool.or_eq_true] at reached ⊢
    refine reached.imp_right fun inside => ?_
    by_cases same : bound = name
    · rw [if_pos same, Bool.not_eq_true'] at inside ⊢
      exact inner.replaced name inside
    · rw [if_neg same] at inside ⊢
      exact inner.reached name inside
  wellBound bounds := by
    simp only [Expr.wellBound, Bool.or_eq_true] at bounds ⊢
    exact bounds.imp_right (and_imp (inner.reached bound) inner.wellBound)

theorem instance_of_substitute (name : String) (value : Int) (expr : Expr) :
    expr.formed = true → Instance expr (substituteVar name (.int value) expr) := by
  induction expr using Expr.byForm with
  | int constant => exact fun _ => Instance.refl _
  | var other =>
      intro _
      by_cases same : other = name
      · rw [substituteVar, if_pos same]
        exact Instance.literal other value
      · rw [substituteVar, if_neg same]
        exact Instance.refl _
  | field base field => exact fun _ => Instance.refl _
  | element receiver position => exact fun _ => Instance.refl _
  | old expr ih => exact fun formed => (ih formed).old
  | neg expr ih => exact fun formed => (ih formed).neg
  | bin op lhs rhs leftIh rightIh =>
      intro formed
      obtain ⟨leftFormed, rightFormed⟩ := Bool.and_eq_true_iff.mp formed
      exact (leftIh leftFormed).bin op (rightIh rightFormed)
  | ifElse condition thenExpr elseExpr _ _ _ => exact fun _ => Instance.refl _
  | forall_ bound domain body ih =>
      intro formed
      obtain ⟨range, bodyFormed⟩ := Bool.and_eq_true_iff.mp formed
      rw [substituteVar, substituteDomain_constant range]
      exact (ih bodyFormed).forall_ bound domain
  | other expr shape _ _ =>
      intro formed
      rw [shape] at formed
      cases formed

theorem formed_of_arithmetic (expr : Expr) : expr.arithmetic = true → expr.formed = true := by
  induction expr using Expr.byForm with
  | int value => exact id
  | var name => exact id
  | field base field => exact id
  | element receiver position => exact id
  | old expr ih => exact ih
  | neg expr ih => exact ih
  | bin op lhs rhs leftIh rightIh => exact and_imp leftIh rightIh
  | ifElse condition thenExpr elseExpr _ _ _ => exact fun arithmetic => nomatch arithmetic
  | forall_ bound domain body _ => exact fun arithmetic => nomatch arithmetic
  | other expr _ shape _ =>
      intro arithmetic
      rw [shape] at arithmetic
      cases arithmetic

theorem formed_of_contract (expr : Expr) : expr.contract = true → expr.formed = true := by
  induction expr using Expr.byForm with
  | bin op lhs rhs leftIh rightIh =>
      cases op with
      | and | or => exact and_imp leftIh rightIh
      | _ => exact and_imp (formed_of_arithmetic lhs) (formed_of_arithmetic rhs)
  | ifElse condition thenExpr elseExpr conditionIh thenIh elseIh =>
      exact and_imp (and_imp conditionIh thenIh) elseIh
  | forall_ bound domain body ih => exact and_imp id ih
  | other expr _ _ shape =>
      intro contract
      rw [shape] at contract
      cases contract
  | _ => exact fun contract => nomatch contract

/-! ## Unrolling -/

theorem constant_of_evalConstExpr (expr : Expr) : ∀ {value : Int},
    evalConstExpr expr = some value → expr.constant = some value := by
  induction expr using Expr.operators with
  | leaf expr shape =>
      intro value run
      cases expr with
      | int constant => exact run
      | _ => first | cases run | cases shape
  | old expr ih =>
      intro value run
      cases run
  | neg expr ih =>
      intro value run
      obtain ⟨inner, innerRun, run⟩ := Option.bind_eq_some_iff.mp run
      rw [Expr.constant, ih innerRun, i64_eq_some run]
      rfl
  | bin op lhs rhs leftIh rightIh =>
      intro value run
      obtain ⟨left, leftRun, run⟩ := Option.bind_eq_some_iff.mp run
      obtain ⟨right, rightRun, run⟩ := Option.bind_eq_some_iff.mp run
      rw [Expr.constant, leftIh leftRun, rightIh rightRun]
      cases op with
      | add | sub | mul =>
          rw [i64_eq_some run]
          rfl
      | div =>
          simp only at run
          split_ifs at run with zero
          rw [i64_eq_some run]
          exact if_neg zero
      | _ => cases run

theorem rangeBounds_of_rangeOf {bounds : Int × Int}
    (run : rangeOf domain = some bounds) : rangeBounds domain = some bounds := by
  cases domain with
  | none => cases run
  | some domain =>
      cases domain with
      | range lo hi =>
          obtain ⟨low, lowRun, run⟩ := Option.bind_eq_some_iff.mp run
          obtain ⟨high, highRun, run⟩ := Option.bind_eq_some_iff.mp run
          cases run
          rw [rangeBounds, constant_of_evalConstExpr lo lowRun,
            constant_of_evalConstExpr hi highRun]
          rfl
      | _ => cases run

theorem allHold_bools (truths : List Bool) :
    allHold (truths.map fun truth => some (.bool truth)) = some (.bool (truths.all id)) := by
  induction truths with
  | nil => rfl
  | cons truth rest ih =>
      rw [List.map_cons, allHold, List.foldr_cons, ← allHold, ih, and_apply, List.all_cons]
      rfl

theorem lowerInstances_value {lower : Expr → Option Dnf} (instances : List Expr)
    (each : ∀ inst ∈ instances, ∀ dnf, lower inst = some dnf →
      LowersTo leaves inOld values inst dnf) :
    ∀ {combined dnf : Dnf}, lowerInstances lower combined instances = some dnf →
      ∃ truths : List Bool, instances.map (fun inst => inst.value leaves inOld) =
        truths.map (fun truth => some (.bool truth)) ∧
        (DnfHolds values dnf ↔ DnfHolds values combined ∧ truths.all id = true) := by
  induction instances with
  | nil =>
      intro combined dnf run
      cases run
      exact ⟨[], rfl, by simp⟩
  | cons inst rest ih =>
      intro combined dnf run
      obtain ⟨branches, branchesRun, run⟩ := Option.bind_eq_some_iff.mp run
      obtain ⟨truth, value, holds⟩ := each inst List.mem_cons_self branches branchesRun
      obtain ⟨truths, valuesEq, restHolds⟩ :=
        ih (fun other member => each other (List.mem_cons_of_mem _ member)) run
      refine ⟨truth :: truths, ?_, ?_⟩
      · rw [List.map_cons, List.map_cons, value, valuesEq]
      · rw [restHolds, dnfHolds_combine, ← holds, List.all_cons, Bool.and_eq_true, and_assoc]
        rfl

/-- A lowered contract whose variables are all reached is true where its disjunction of
conjunctions holds. -/
theorem contract_value (reads : ReadBy leaves inOld fieldFn values) (fuel : Nat) :
    ∀ {expr : Expr} {dnf : Dnf}, expr.contract = true → expr.wellBound = true →
      toConstraintsDnfAt fieldFn fuel expr = some dnf →
        LowersTo leaves inOld values expr dnf := by
  induction fuel with
  | zero =>
      intro expr dnf _ _ run
      cases run
  | succ fuel ih =>
      intro expr dnf contract wellBound run
      cases expr with
      | bin op lhs rhs =>
          obtain ⟨leftBound, rightBound⟩ := Bool.and_eq_true_iff.mp wellBound
          cases op with
          | or =>
              obtain ⟨leftContract, rightContract⟩ := Bool.and_eq_true_iff.mp contract
              obtain ⟨left, leftRun, run⟩ := Option.bind_eq_some_iff.mp run
              obtain ⟨right, rightRun, run⟩ := Option.bind_eq_some_iff.mp run
              cases Option.some.inj run
              exact (ih leftContract leftBound leftRun).or (ih rightContract rightBound rightRun)
          | and =>
              obtain ⟨leftContract, rightContract⟩ := Bool.and_eq_true_iff.mp contract
              obtain ⟨left, leftRun, run⟩ := Option.bind_eq_some_iff.mp run
              obtain ⟨right, rightRun, run⟩ := Option.bind_eq_some_iff.mp run
              cases Option.some.inj run
              exact (ih leftContract leftBound leftRun).and (ih rightContract rightBound rightRun)
          | _ => exact comparisonDnf_value reads run
      | ifElse condition thenExpr elseExpr =>
          obtain ⟨both, elseContract⟩ := Bool.and_eq_true_iff.mp contract
          obtain ⟨conditionContract, thenContract⟩ := Bool.and_eq_true_iff.mp both
          obtain ⟨bothBound, elseBound⟩ := Bool.and_eq_true_iff.mp wellBound
          obtain ⟨conditionBound, thenBound⟩ := Bool.and_eq_true_iff.mp bothBound
          obtain ⟨conditionDnf, conditionRun, run⟩ := Option.bind_eq_some_iff.mp run
          obtain ⟨thenDnf, thenRun, run⟩ := Option.bind_eq_some_iff.mp run
          obtain ⟨elseDnf, elseRun, run⟩ := Option.bind_eq_some_iff.mp run
          cases Option.some.inj run
          exact (ih conditionContract conditionBound conditionRun).ifElse
            (ih thenContract thenBound thenRun) (ih elseContract elseBound elseRun)
      | forall_ name domain body =>
          obtain ⟨bounds, boundsRun, run⟩ := Option.bind_eq_some_iff.mp run
          have range := rangeBounds_of_rangeOf boundsRun
          obtain ⟨-, bodyContract⟩ := Bool.and_eq_true_iff.mp contract
          have formed := formed_of_contract body bodyContract
          by_cases empty : emptyRange domain = true
          · have ordered : bounds.2 ≤ bounds.1 := by
              rw [emptyRange, range] at empty
              exact of_decide_eq_true empty
            have none_ : (bounds.2 - bounds.1).toNat = 0 := Int.toNat_of_nonpos (by omega)
            simp only [none_, List.range_zero] at run
            cases run
            refine ⟨true, forall_value_of_empty empty name body, iff_of_true rfl ?_⟩
            exact (dnfHolds_single []).mpr fun constraint member => nomatch member
          · obtain ⟨reached, bodyBound⟩ : body.reached name = true ∧ body.wellBound = true := by
              simpa [Expr.wellBound, empty] using wellBound
            obtain ⟨truths, valuesEq, holds⟩ := lowerInstances_value _ (fun inst member dnf run => by
              obtain ⟨offset, -, rfl⟩ := List.mem_map.mp member
              have kept := instance_of_substitute name (bounds.1 + offset) body formed
              exact ih (kept.contract bodyContract) (kept.wellBound bodyBound) run) run
            refine ⟨truths.all id, ?_, ?_⟩
            · rw [Expr.value, range, Option.bind_some, ← allHold_bools, ← valuesEq, List.map_map]
              refine congrArg allHold (List.map_congr_left fun offset _ => ?_)
              exact (value_substitute body formed reached leaves inOld).symm
            · rw [holds, dnfHolds_single]
              exact (and_iff_right fun constraint member => nomatch member).symm
      | _ => cases contract

/-- The lowering of a contract in a build with overflow checks is its lowering in every build. -/
theorem contract_included (profile : Profile) (fuel : Nat) : ∀ expr : Expr, expr.contract = true →
    Included (toConstraintsDnfAt fieldFn fuel expr)
      (@toConstraintsDnfAt ⟨profile⟩ fieldFn fuel expr) := by
  induction fuel with
  | zero => exact fun _ _ => .refl _
  | succ fuel ih =>
      intro expr contract
      cases expr with
      | bin op lhs rhs =>
          cases op with
          | or | and =>
              obtain ⟨left, right⟩ := Bool.and_eq_true_iff.mp contract
              exact (ih _ left).bind fun _ => (ih _ right).bind fun _ => .refl _
          | _ => exact comparisonDnf_included _ _ _ _
      | ifElse condition thenExpr elseExpr =>
          obtain ⟨both, last⟩ := Bool.and_eq_true_iff.mp contract
          obtain ⟨first, second⟩ := Bool.and_eq_true_iff.mp both
          exact (ih _ first).bind fun _ => (ih _ second).bind fun _ => (ih _ last).bind fun _ => .refl _
      | forall_ name domain body =>
          obtain ⟨-, bodyContract⟩ := Bool.and_eq_true_iff.mp contract
          refine (rangeOf_included domain).bind fun bounds => lowerInstances_included _ ?_ _
          intro inst member
          obtain ⟨offset, -, rfl⟩ := List.mem_map.mp member
          exact ih _ ((instance_of_substitute name _ body (formed_of_contract body bodyContract)).contract
            bodyContract)
      | _ => cases contract

/-! ## Branches and contracts -/

/-- What the leaves of an expression read of a valuation of the names. -/
def readingsBy (fieldFn : FieldNaming) (values : String → Int) : Leaves := fun inOld name =>
  .int (values (name.text (if inOld then preField else fieldFn)))

theorem readingsBy_read (fieldFn : FieldNaming) (values : String → Int) :
    ReadBy (readingsBy fieldFn values) false fieldFn values :=
  ⟨fun _ => rfl, fun _ => rfl⟩

/-- `forall i in 0..2 { i <= x }` -/
def aboveBoth : Expr :=
  .forall_ "i" (some (.range (.int 0) (.int 2))) (.bin .le (.var "i") (.var "x"))

/-- `forall i in 0..1 { if i >= 0 { 0 <= 0 } else { 1 <= 0 } }` -/
def underCondition : Expr :=
  .forall_ "i" (some (.range (.int 0) (.int 1)))
    (.ifElse (.bin .ge (.var "i") (.int 0)) (.bin .le (.int 0) (.int 0))
      (.bin .le (.int 1) (.int 0)))

/-- `forall i in 0..1 { forall i in 5..6 { i >= 5 } }` -/
def sameName : Expr :=
  .forall_ "i" (some (.range (.int 0) (.int 1)))
    (.forall_ "i" (some (.range (.int 5) (.int 6))) (.bin .ge (.var "i") (.int 5)))

/-- `9223372036854775807 + 1 >= 0` -/
def tooLarge : Expr := .bin .ge (.bin .add (.int (2 ^ 63 - 1)) (.int 1)) (.int 0)

end Pantheon.Telos
