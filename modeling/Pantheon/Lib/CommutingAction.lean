import Mathlib

/-!
# Products from commuting operators

Additive operators, one for each element, that commute pairwise and take a base element to
their own.  `a * b`, the operator of `b` at `a`, is then a commutative ring product.
-/

set_option autoImplicit false

namespace Pantheon.Lib

structure CommutingAction (Elem : Type) [AddCommGroup Elem] where
  act : Elem → AddMonoid.End Elem
  one : Elem
  commutes : ∀ left right, Commute (act left) (act right)
  act_one : ∀ elem, act elem one = elem

namespace CommutingAction

variable {Elem : Type} [AddCommGroup Elem] (action : CommutingAction Elem)

def mul (left right : Elem) : Elem := action.act right left

theorem act_comm (left right elem : Elem) :
    action.act left (action.act right elem) = action.act right (action.act left elem) :=
  DFunLike.congr_fun (action.commutes left right) elem

theorem mul_comm (left right : Elem) : action.mul left right = action.mul right left := by
  have swapped := action.act_comm right left action.one
  rw [action.act_one, action.act_one] at swapped
  exact swapped

theorem mul_assoc (first second third : Elem) :
    action.mul (action.mul first second) third = action.mul first (action.mul second third) := by
  have right : action.mul first (action.mul second third) =
      action.act first (action.act third second) := action.mul_comm first _
  have left : action.mul (action.mul first second) third =
      action.act third (action.act first second) :=
    congrArg (action.act third) (action.mul_comm first second)
  rw [left, right]
  exact action.act_comm third first second

theorem add_mul (left right elem : Elem) :
    action.mul (left + right) elem = action.mul left elem + action.mul right elem :=
  map_add (action.act elem) left right

theorem mul_add (elem left right : Elem) :
    action.mul elem (left + right) = action.mul elem left + action.mul elem right := by
  rw [action.mul_comm elem (left + right), action.add_mul, action.mul_comm left,
    action.mul_comm right]

theorem one_mul (elem : Elem) : action.mul action.one elem = elem := action.act_one elem

theorem mul_one (elem : Elem) : action.mul elem action.one = elem := by
  rw [action.mul_comm]
  exact action.one_mul elem

theorem zero_mul (elem : Elem) : action.mul 0 elem = 0 := map_zero (action.act elem)

theorem mul_zero (elem : Elem) : action.mul elem 0 = 0 := by
  rw [action.mul_comm]
  exact action.zero_mul elem

end CommutingAction

/-! ## Sums of powers of one operator -/

section Powers

variable {Elem : Type} [AddCommGroup Elem] (step : AddMonoid.End Elem)

/-- The sum of the powers of `step` at the set bits, from the lowest on. -/
def powerSum : Nat → (Nat → Bool) → AddMonoid.End Elem
  | 0, _ => 0
  | width + 1, bits =>
      (if bits 0 then 1 else 0) + powerSum width (fun position => bits (position + 1)) * step

theorem powerSum_succ (width : Nat) (bits : Nat → Bool) (elem : Elem) :
    powerSum step (width + 1) bits elem = (if bits 0 then elem else 0) +
      powerSum step width (fun position => bits (position + 1)) (step elem) := by
  by_cases lowest : bits 0 = true
  · simp only [powerSum, lowest, if_true]
    rfl
  · simp only [powerSum, lowest]
    rfl

theorem commute_powerSum_of_commute {other : AddMonoid.End Elem} (commutes : Commute other step)
    (width : Nat) : ∀ bits, Commute other (powerSum step width bits) := by
  induction width with
  | zero =>
      intro bits
      exact Commute.zero_right other
  | succ width ih =>
      intro bits
      apply Commute.add_right
      · split_ifs
        · exact Commute.one_right other
        · exact Commute.zero_right other
      · exact (ih _).mul_right commutes

theorem commute_powerSum (width : Nat) (left right : Nat → Bool) :
    Commute (powerSum step width left) (powerSum step width right) := by
  have inner := commute_powerSum_of_commute step (Commute.refl step) width left
  exact commute_powerSum_of_commute step inner.symm width right

end Powers

end Pantheon.Lib
