import Mathlib
import Pantheon.Lib.Float64

/-!
# Doubles by their bits

The bits below the sign order the numbers of one sign, infinities included.  An integer
becomes the nearest double.
-/

set_option autoImplicit false

namespace Pantheon.Lib

namespace Doubles

def magnitude (bits : UInt64) : Nat := bits.toNat % 2 ^ 63

def isNegative (bits : UInt64) : Bool := decide (2 ^ 63 ≤ bits.toNat)

def infinity : Nat := 2047 * 2 ^ 52

def isNan (bits : UInt64) : Bool := decide (infinity < magnitude bits)

def rank (bits : UInt64) : Int :=
  if isNegative bits then -(magnitude bits) else magnitude bits

/-- `f64::partial_cmp`. -/
def partialCmp (left right : UInt64) : Option Ordering :=
  if isNan left || isNan right then none else some (compare (rank left) (rank right))

def significand (number : Nat) : Nat :=
  if number.log2 ≤ 52 then number * 2 ^ (52 - number.log2)
  else roundQuotient number (2 ^ (number.log2 - 52))

/-- A significand that rounds up to the next power of two carries into the exponent. -/
def magnitudeOf (number : Nat) : Nat :=
  if number = 0 then 0 else (number.log2 + 1022) * 2 ^ 52 + significand number

/-- `i64 as f64`. -/
def ofInt (value : Int) : UInt64 :=
  UInt64.ofNat (magnitudeOf value.natAbs + if value < 0 then 2 ^ 63 else 0)

/-! ## Rounding keeps the order -/

theorem roundQuotient_mono {left right den : Nat} (le : left ≤ right) :
    roundQuotient left den ≤ roundQuotient right den := by
  have quotients : left / den ≤ right / den := Nat.div_le_div_right le
  have upper : ∀ number, roundQuotient number den ≤ number / den + 1 := by
    intro number
    unfold roundQuotient
    split_ifs <;> omega
  have lower : ∀ number, number / den ≤ roundQuotient number den := by
    intro number
    unfold roundQuotient
    split_ifs <;> omega
  rcases Nat.lt_or_ge (left / den) (right / den) with less | ge
  · exact (upper left).trans ((Nat.succ_le_of_lt less).trans (lower right))
  · have same : left / den = right / den := le_antisymm quotients ge
    have rests : left % den ≤ right % den := by
      have leftSplit := Nat.div_add_mod left den
      have rightSplit := Nat.div_add_mod right den
      rw [same] at leftSplit
      omega
    unfold roundQuotient
    rw [same]
    split_ifs <;> omega

theorem significand_bounds {number : Nat} (positive : number ≠ 0) :
    2 ^ 52 ≤ significand number ∧ significand number ≤ 2 ^ 53 := by
  have low := Nat.log2_self_le positive
  have high := Nat.lt_log2_self (n := number)
  unfold significand
  split_ifs with small
  · obtain ⟨gap, split⟩ := Nat.exists_eq_add_of_le small
    have gapEq : 52 - number.log2 = gap := by omega
    rw [gapEq]
    constructor
    · calc 2 ^ 52 = 2 ^ number.log2 * 2 ^ gap := by rw [split, pow_add]
        _ ≤ number * 2 ^ gap := Nat.mul_le_mul_right _ low
    · calc number * 2 ^ gap ≤ 2 ^ (number.log2 + 1) * 2 ^ gap := Nat.mul_le_mul_right _ high.le
        _ = 2 ^ (52 + 1) := by rw [split, ← pow_add]; congr 1; omega
        _ = 2 ^ 53 := rfl
  · obtain ⟨gap, split⟩ := Nat.exists_eq_add_of_le (Nat.le_of_not_le small)
    have gapEq : number.log2 - 52 = gap := by omega
    rw [gapEq]
    have powers : 2 ^ number.log2 = 2 ^ 52 * 2 ^ gap := by rw [split, pow_add]
    have least : 2 ^ 52 ≤ number / 2 ^ gap := by
      rw [Nat.le_div_iff_mul_le (Nat.two_pow_pos gap), ← powers]
      exact low
    have most : number / 2 ^ gap < 2 ^ 53 := by
      rw [Nat.div_lt_iff_lt_mul (Nat.two_pow_pos gap)]
      calc number < 2 ^ (number.log2 + 1) := high
        _ = 2 ^ 53 * 2 ^ gap := by rw [pow_succ, powers]; ring
    unfold roundQuotient
    split_ifs <;> omega

theorem significand_mono {left right : Nat} (same : left.log2 = right.log2) (le : left ≤ right) :
    significand left ≤ significand right := by
  unfold significand
  rw [same]
  split_ifs with small
  · exact Nat.mul_le_mul_right _ le
  · exact roundQuotient_mono le

theorem magnitudeOf_mono {left right : Nat} (le : left ≤ right) :
    magnitudeOf left ≤ magnitudeOf right := by
  unfold magnitudeOf
  split_ifs with leftZero rightZero rightZero
  · exact le_rfl
  · exact Nat.zero_le _
  · omega
  · have logs : left.log2 ≤ right.log2 := by
      rw [Nat.le_log2 rightZero]
      exact (Nat.log2_self_le leftZero).trans le
    have leftBounds := significand_bounds leftZero
    have rightBounds := significand_bounds rightZero
    rcases Nat.lt_or_ge left.log2 right.log2 with less | ge
    · omega
    · have same : left.log2 = right.log2 := le_antisymm logs ge
      have mono := significand_mono same le
      rw [same]
      omega

/-! ## The rank of an integer -/

theorem magnitudeOf_lt {number : Nat} (small : number ≤ 2 ^ 63) :
    magnitudeOf number < infinity := by
  have bound := magnitudeOf_mono small
  have value : magnitudeOf (2 ^ 63) < infinity := by
    have log : (2 ^ 63 : Nat).log2 = 63 := Nat.log2_two_pow
    have bounds := @significand_bounds (2 ^ 63) (by decide)
    rw [magnitudeOf, if_neg (by decide), log]
    unfold infinity
    omega
  omega

def rankOf (value : Int) : Int :=
  if value < 0 then -(magnitudeOf value.natAbs) else magnitudeOf value.natAbs

variable {value : Int}

theorem ofInt_bits (low : -2 ^ 63 ≤ value) (high : value < 2 ^ 63) :
    magnitude (ofInt value) = magnitudeOf value.natAbs ∧
      isNegative (ofInt value) = decide (value < 0) := by
  have bound := magnitudeOf_lt (show value.natAbs ≤ 2 ^ 63 by omega)
  have bits : (ofInt value).toNat =
      magnitudeOf value.natAbs + if value < 0 then 2 ^ 63 else 0 := by
    unfold ofInt infinity at *
    rw [UInt64.toNat_ofNat']
    apply Nat.mod_eq_of_lt
    split_ifs <;> omega
  unfold magnitude isNegative infinity at *
  rw [bits]
  split_ifs with negative
  · exact ⟨by omega, by simp [negative]⟩
  · refine ⟨by omega, ?_⟩
    simp only [negative, decide_false, decide_eq_false_iff_not]
    omega

theorem rank_ofInt (low : -2 ^ 63 ≤ value) (high : value < 2 ^ 63) :
    rank (ofInt value) = rankOf value := by
  obtain ⟨bits, sign⟩ := ofInt_bits low high
  rw [rank, rankOf, bits, sign]
  simp only [decide_eq_true_eq]

theorem isNan_ofInt (low : -2 ^ 63 ≤ value) (high : value < 2 ^ 63) :
    isNan (ofInt value) = false := by
  have bound := magnitudeOf_lt (show value.natAbs ≤ 2 ^ 63 by omega)
  rw [isNan, (ofInt_bits low high).1, decide_eq_false_iff_not]
  omega

theorem rankOf_mono {left right : Int} (le : left ≤ right) : rankOf left ≤ rankOf right := by
  unfold rankOf
  split_ifs with leftNegative rightNegative rightNegative
  · have mono : magnitudeOf right.natAbs ≤ magnitudeOf left.natAbs :=
      magnitudeOf_mono (by omega)
    omega
  · omega
  · omega
  · have mono : magnitudeOf left.natAbs ≤ magnitudeOf right.natAbs :=
      magnitudeOf_mono (by omega)
    omega

end Doubles

end Pantheon.Lib
