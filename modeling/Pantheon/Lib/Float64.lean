import Mathlib

/-!
# Numbers in double precision

How a fraction is rounded to the nearest number with a significand of 53 bits, to the one
with an even significand between two.
-/

set_option autoImplicit false

namespace Pantheon.Lib

/-- The nearest integer to a quotient, the even one between two. -/
def roundQuotient (num den : Nat) : Nat :=
  if den < 2 * (num % den) ∨ den = 2 * (num % den) ∧ num / den % 2 = 1 then num / den + 1
  else num / den

/-- The exponent of the highest power of two not above a positive fraction. -/
def floorLog2 (num den : Nat) : Int :=
  if den ≤ num then (num / den).log2 else -(((den - 1) / num).log2 + 1 : Int)

/-- The numerator and the denominator of a fraction times `2 ^ -exponent`. -/
def shiftDown (num den : Nat) (exponent : Int) : Nat × Nat :=
  (num * 2 ^ (-exponent).toNat, den * 2 ^ exponent.toNat)

namespace Float64

def exponentOf (num den : Nat) : Int := max (floorLog2 num den - 52) (-1074)

def signed (negative : Bool) (magnitude : Nat) : Int :=
  if negative then -magnitude else magnitude

end Float64

theorem roundQuotient_mul (quotient : Nat) {den : Nat} (positive : 0 < den) :
    roundQuotient (quotient * den) den = quotient := by
  have exact_ : quotient * den / den = quotient := Nat.mul_div_cancel quotient positive
  have rest : quotient * den % den = 0 := Nat.mul_mod_left quotient den
  unfold roundQuotient
  rw [rest, exact_, if_neg]
  omega

/-! ## Decimal numbers -/

/-- `digits * 10 ^ exponent` with a sign. -/
structure Decimal where
  negative : Bool
  digits : Nat
  exponent : Int
deriving DecidableEq

end Pantheon.Lib
