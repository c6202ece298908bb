import Mathlib

/-!
# Single bits of a byte
-/

set_option autoImplicit false

namespace Pantheon.Lib

def bitMask (bit : Nat) : UInt8 := 1 <<< UInt8.ofNat bit

def hasBit (byte : UInt8) (bit : Nat) : Bool := decide (byte &&& bitMask bit ≠ 0)

theorem getLsbD_bitMask : ∀ bit < 8, ∀ other < 8,
    (bitMask bit).toBitVec.getLsbD other = decide (bit = other) := by decide

theorem hasBit_eq (byte : UInt8) {bit : Nat} (small : bit < 8) :
    hasBit byte bit = byte.toBitVec.getLsbD bit := by
  have masked : ∀ other < 8, (byte &&& bitMask bit).toBitVec.getLsbD other =
      (byte.toBitVec.getLsbD other && decide (bit = other)) := by
    intro other otherSmall
    rw [UInt8.toBitVec_and, BitVec.getLsbD_and, getLsbD_bitMask bit small other otherSmall]
  cases held : byte.toBitVec.getLsbD bit with
  | true =>
      refine decide_eq_true fun zero => ?_
      have here := masked bit small
      rw [held, zero] at here
      simp at here
  | false =>
      refine decide_eq_false (not_not.mpr ?_)
      refine UInt8.toBitVec_inj.mp (BitVec.eq_of_getLsbD_eq fun other otherSmall => ?_)
      rw [masked other otherSmall]
      by_cases same : bit = other
      · rw [← same, held]
        simp
      · simp [same]

theorem hasBit_zero {bit : Nat} (small : bit < 8) : hasBit 0 bit = false := by
  rw [hasBit_eq 0 small]
  simp

theorem hasBit_or (byte : UInt8) {bit other : Nat} (small : bit < 8) (otherSmall : other < 8) :
    hasBit (byte ||| bitMask bit) other = (hasBit byte other || decide (bit = other)) := by
  rw [hasBit_eq _ otherSmall, hasBit_eq _ otherSmall, UInt8.toBitVec_or, BitVec.getLsbD_or,
    getLsbD_bitMask bit small other otherSmall]

theorem hasBit_andNot (byte : UInt8) {bit other : Nat} (small : bit < 8) (otherSmall : other < 8) :
    hasBit (byte &&& ~~~bitMask bit) other = (hasBit byte other && !decide (bit = other)) := by
  rw [hasBit_eq _ otherSmall, hasBit_eq _ otherSmall, UInt8.toBitVec_and, UInt8.toBitVec_not,
    BitVec.getLsbD_and, BitVec.getLsbD_not, getLsbD_bitMask bit small other otherSmall]
  simp [otherSmall]

end Pantheon.Lib
