import Mathlib
import Pantheon.Lib.CommutingAction

/-!
# The field of bytes: `pkg/recovery/recovery.go`

Addition is `^`, and `gfMul` multiplies polynomials over the bits modulo
`x^8 + x^4 + x^3 + x + 1`.  One turn of its loop multiplies `a` by `x`, an additive
operator: `gfMul` is the product of the operators at the bits.
-/

set_option autoImplicit false

namespace Pantheon.Identity

open Pantheon.Lib

/-! ## The code -/

/-- Eight turns with the bits of `b`, from the lowest on. -/
def gfMulLoop : Nat → UInt8 → UInt8 → UInt8 → UInt8
  | 0, p, _, _ => p
  | turns + 1, p, a, b =>
      let p := if b &&& 1 ≠ 0 then p ^^^ a else p
      let hi := a &&& 0x80
      let a := a <<< 1
      let a := if hi ≠ 0 then a ^^^ 0x1b else a
      gfMulLoop turns p a (b >>> 1)

def gfMul (a b : UInt8) : UInt8 := gfMulLoop 8 0 a b

def gfPolyEval (coeffs : List UInt8) (x : UInt8) : UInt8 :=
  coeffs.foldr (fun coeff result => gfMul result x ^^^ coeff) 0

/-- The exponent is a byte, so eight turns reach zero. -/
def gfInvLoop : Nat → UInt8 → UInt8 → UInt8 → UInt8
  | 0, result, _, _ => result
  | turns + 1, result, a, exp =>
      if 0 < exp then
        let result := if exp &&& 1 ≠ 0 then gfMul result a else result
        gfInvLoop turns result (gfMul a a) (exp >>> 1)
      else result

def gfInv (a : UInt8) : UInt8 := if a = 0 then 0 else gfInvLoop 8 1 a 254

def gfLagrange (xs ys : List UInt8) : UInt8 :=
  (List.range xs.length).foldl (fun result i =>
    let product := (List.range xs.length).foldl (fun product j =>
      if i = j then product
      else (gfMul product.1 (xs.getD j 0), gfMul product.2 (xs.getD i 0 ^^^ xs.getD j 0))) (1, 1)
    result ^^^ gfMul (ys.getD i 0) (gfMul product.1 (gfInv product.2))) 0

/-! ## The group of bytes -/

@[ext]
structure Gf256 where
  byte : UInt8
deriving DecidableEq

namespace Gf256

instance : Add Gf256 := ⟨fun left right => ⟨left.byte ^^^ right.byte⟩⟩
instance : Zero Gf256 := ⟨⟨0⟩⟩
instance : Neg Gf256 := ⟨id⟩

@[simp] theorem byte_add (left right : Gf256) : (left + right).byte = left.byte ^^^ right.byte := rfl
@[simp] theorem byte_zero : (0 : Gf256).byte = 0 := rfl
theorem neg_eq (elem : Gf256) : -elem = elem := rfl

instance : AddCommGroup Gf256 where
  add_assoc _ _ _ := Gf256.ext (UInt8.xor_assoc ..)
  zero_add _ := Gf256.ext UInt8.zero_xor
  add_zero _ := Gf256.ext UInt8.xor_zero
  neg_add_cancel _ := Gf256.ext UInt8.xor_self
  add_comm _ _ := Gf256.ext (UInt8.xor_comm ..)
  nsmul := nsmulRec
  zsmul := zsmulRec

end Gf256

/-! ## One turn of the loop -/

theorem forall_byte (property : UInt8 → Prop)
    (holds : ∀ number < 256, property (UInt8.ofNat number)) (byte : UInt8) : property byte := by
  have numbered := holds byte.toNat byte.toNat_lt
  rw [UInt8.ofNat_toNat] at numbered
  exact numbered

/-- `a` times `x`. -/
def xtime (a : UInt8) : UInt8 :=
  if a &&& 0x80 ≠ 0 then a <<< 1 ^^^ 0x1b else a <<< 1

theorem and_top_ne_zero (a : UInt8) : (a &&& 0x80 ≠ 0) = (a.toBitVec.msb = true) :=
  propext (forall_byte (fun a => a &&& 0x80 ≠ 0 ↔ a.toBitVec.msb = true) (by decide +kernel) a)

theorem xtime_xor (a b : UInt8) : xtime (a ^^^ b) = xtime a ^^^ xtime b := by
  simp only [xtime, and_top_ne_zero, UInt8.toBitVec_xor, BitVec.msb_xor, UInt8.shiftLeft_xor]
  cases a.toBitVec.msb with
  | true =>
      cases b.toBitVec.msb with
      | true =>
          simp only [Bool.xor_true, Bool.not_true, Bool.false_eq_true, if_false, if_true]
          rw [UInt8.xor_comm (b <<< 1), UInt8.xor_assoc, ← UInt8.xor_assoc 0x1b, UInt8.xor_self,
            UInt8.zero_xor]
      | false =>
          simp only [Bool.xor_false, Bool.false_eq_true, if_false, if_true]
          rw [UInt8.xor_assoc, UInt8.xor_comm (b <<< 1), ← UInt8.xor_assoc]
  | false =>
      cases b.toBitVec.msb with
      | true =>
          simp only [Bool.xor_true, Bool.not_false, Bool.false_eq_true, if_false, if_true]
          exact UInt8.xor_assoc ..
      | false =>
          simp only [Bool.xor_false, Bool.false_eq_true, if_false]

def turn : AddMonoid.End Gf256 where
  toFun elem := ⟨xtime elem.byte⟩
  map_zero' := rfl
  map_add' left right := Gf256.ext (xtime_xor left.byte right.byte)

def bitAt (b : UInt8) : Nat → Bool
  | 0 => decide (b &&& 1 ≠ 0)
  | position + 1 => bitAt (b >>> 1) position

theorem gfMulLoop_eq (turns : Nat) : ∀ p a b : UInt8,
    gfMulLoop turns p a b = ((⟨p⟩ : Gf256) + powerSum turn turns (bitAt b) ⟨a⟩).byte := by
  induction turns with
  | zero =>
      intro p a b
      exact UInt8.xor_zero.symm
  | succ turns ih =>
      intro p a b
      have later := ih (if b &&& 1 ≠ 0 then p ^^^ a else p) (xtime a) (b >>> 1)
      rw [powerSum_succ, ← add_assoc]
      refine later.trans ?_
      have first : (⟨if b &&& 1 ≠ 0 then p ^^^ a else p⟩ : Gf256) =
          ⟨p⟩ + if bitAt b 0 = true then ⟨a⟩ else 0 := by
        by_cases set : b &&& 1 ≠ 0
        · rw [if_pos set, bitAt, if_pos (decide_eq_true set)]
          rfl
        · rw [if_neg set, bitAt, if_neg (by simpa using set)]
          exact Gf256.ext UInt8.xor_zero.symm
      rw [first]
      rfl

/-! ## The ring -/

namespace Gf256

theorem gfMul_one_left (a : UInt8) : gfMul 1 a = a :=
  forall_byte (fun a => gfMul 1 a = a) (by decide +kernel) a

/-- The operator of a byte: the powers of `x` at its bits. -/
def multiplication : CommutingAction Gf256 where
  act elem := powerSum turn 8 (bitAt elem.byte)
  one := ⟨1⟩
  commutes _ _ := commute_powerSum turn 8 _ _
  act_one elem := by
    apply Gf256.ext
    have looped := gfMulLoop_eq 8 0 1 elem.byte
    rw [show (⟨0⟩ : Gf256) = 0 from rfl, zero_add] at looped
    exact looped.symm.trans (gfMul_one_left elem.byte)

instance : Mul Gf256 := ⟨multiplication.mul⟩
instance : One Gf256 := ⟨⟨1⟩⟩

@[simp] theorem byte_one : (1 : Gf256).byte = 1 := rfl

/-- The product of the ring is `gfMul`. -/
@[simp] theorem byte_mul (left right : Gf256) :
    (left * right).byte = gfMul left.byte right.byte := by
  have looped := gfMulLoop_eq 8 0 left.byte right.byte
  rw [show (⟨0⟩ : Gf256) = 0 from rfl, zero_add] at looped
  exact looped.symm

theorem mk_gfMul (a b : UInt8) : (⟨gfMul a b⟩ : Gf256) = ⟨a⟩ * ⟨b⟩ := Gf256.ext (byte_mul _ _).symm

instance : CommRing Gf256 where
  mul_assoc := multiplication.mul_assoc
  one_mul := multiplication.one_mul
  mul_one := multiplication.mul_one
  mul_comm := multiplication.mul_comm
  zero_mul := multiplication.zero_mul
  mul_zero := multiplication.mul_zero
  left_distrib := multiplication.mul_add
  right_distrib := multiplication.add_mul
  zsmul := zsmulRec
  neg_add_cancel := neg_add_cancel

/-! ## Every byte but zero is a power of 3 -/

instance : Fintype Gf256 :=
  Fintype.ofEquiv (Fin 256)
    ⟨fun number => ⟨UInt8.ofFin number⟩, fun elem => elem.byte.toFin, fun _ => rfl, fun _ => rfl⟩

theorem card_eq : Fintype.card Gf256 = 256 := by
  rw [Fintype.ofEquiv_card, Fintype.card_fin]

def generator : Gf256 := ⟨3⟩

theorem generator_pow : generator ^ 255 = 1 := by decide +kernel

theorem orderOf_generator : orderOf generator = 255 := by
  apply orderOf_eq_of_pow_and_pow_div_prime (by decide) generator_pow
  intro factor prime divides
  have factors : factor = 3 ∨ factor = 5 ∨ factor = 17 := by
    have product : factor ∣ 3 * (5 * 17) := divides
    rcases prime.dvd_mul.mp product with three | other
    · exact Or.inl ((Nat.prime_dvd_prime_iff_eq prime (by norm_num)).mp three)
    · rcases prime.dvd_mul.mp other with five | seventeen
      · exact Or.inr (Or.inl ((Nat.prime_dvd_prime_iff_eq prime (by norm_num)).mp five))
      · exact Or.inr (Or.inr ((Nat.prime_dvd_prime_iff_eq prime (by norm_num)).mp seventeen))
  rcases factors with same | same | same
  all_goals
    rw [same]
    decide +kernel

theorem exists_pow_generator {elem : Gf256} (nonzero : elem ≠ 0) :
    ∃ power, generator ^ power = elem := by
  have distinct : Set.InjOn (generator ^ ·) (Finset.range 255 : Set Nat) := by
    have below := pow_injOn_Iio_orderOf (x := generator)
    rw [orderOf_generator] at below
    intro left leftIn right rightIn same
    exact below (Finset.mem_range.mp leftIn) (Finset.mem_range.mp rightIn) same
  have unit : ∀ power, generator ^ power ≠ 0 := by
    intro power zero
    have one : (generator ^ power) ^ 255 = 1 := by
      rw [← pow_mul, mul_comm, pow_mul, generator_pow, one_pow]
    rw [zero] at one
    exact absurd one (by decide)
  have all : (Finset.range 255).image (generator ^ ·) = Finset.univ.erase 0 := by
    apply Finset.eq_of_subset_of_card_le
    · intro power member
      obtain ⟨exponent, _, exact⟩ := Finset.mem_image.mp member
      rw [← exact]
      exact Finset.mem_erase.mpr ⟨unit exponent, Finset.mem_univ _⟩
    · rw [Finset.card_image_of_injOn distinct, Finset.card_erase_of_mem (Finset.mem_univ _),
        Finset.card_univ, card_eq, Finset.card_range]
  have member : elem ∈ (Finset.range 255).image (generator ^ ·) := by
    rw [all]
    exact Finset.mem_erase.mpr ⟨nonzero, Finset.mem_univ _⟩
  obtain ⟨power, _, exact⟩ := Finset.mem_image.mp member
  exact ⟨power, exact⟩

theorem pow_255 {elem : Gf256} (nonzero : elem ≠ 0) : elem ^ 255 = 1 := by
  obtain ⟨power, rfl⟩ := exists_pow_generator nonzero
  rw [← pow_mul, mul_comm, pow_mul, generator_pow, one_pow]

/-! ## The inverse -/

theorem gfInvLoop_eq (turns : Nat) : ∀ result a exp : UInt8, exp.toNat < 2 ^ turns →
    (⟨gfInvLoop turns result a exp⟩ : Gf256) = ⟨result⟩ * ⟨a⟩ ^ exp.toNat := by
  induction turns with
  | zero =>
      intro result a exp small
      have zero : exp.toNat = 0 := Nat.lt_one_iff.mp small
      rw [gfInvLoop, zero, pow_zero, mul_one]
  | succ turns ih =>
      intro result a exp small
      rw [gfInvLoop]
      by_cases more : 0 < exp
      · have half : (exp >>> 1).toNat = exp.toNat / 2 := by
          rw [UInt8.toNat_shiftRight]
          exact Nat.shiftRight_eq_div_pow _ 1
        have odd : (exp &&& 1 ≠ 0) ↔ exp.toNat % 2 = 1 :=
          forall_byte (fun exp => exp &&& 1 ≠ 0 ↔ exp.toNat % 2 = 1) (by decide +kernel) exp
        have split := Nat.div_add_mod exp.toNat 2
        rw [if_pos more, ih _ _ _ (by rw [half]; omega), half, mk_gfMul, ← pow_two, ← pow_mul]
        by_cases lowest : exp &&& 1 ≠ 0
        · rw [if_pos lowest, mk_gfMul, mul_assoc, ← pow_succ']
          rw [odd.mp lowest] at split
          rw [split]
        · rw [if_neg lowest]
          have even : exp.toNat % 2 = 0 := by
            have other := mt odd.mpr lowest
            omega
          rw [even, add_zero] at split
          rw [split]
      · have zero : exp.toNat = 0 := by
          rw [UInt8.lt_iff_toNat_lt] at more
          exact Nat.eq_zero_of_not_pos more
        rw [if_neg more, zero, pow_zero, mul_one]

theorem mk_gfInv {a : UInt8} (nonzero : a ≠ 0) : (⟨gfInv a⟩ : Gf256) = ⟨a⟩ ^ 254 := by
  rw [gfInv, if_neg nonzero, gfInvLoop_eq 8 1 a 254 (by decide)]
  exact one_mul _

instance : Inv Gf256 := ⟨fun elem => ⟨gfInv elem.byte⟩⟩

theorem mul_inv_cancel_of_ne {elem : Gf256} (nonzero : elem ≠ 0) : elem * elem⁻¹ = 1 := by
  have byte : elem.byte ≠ 0 := fun zero => nonzero (Gf256.ext zero)
  have inverse : elem⁻¹ = elem ^ 254 := mk_gfInv byte
  rw [inverse, ← pow_succ']
  exact pow_255 nonzero

instance : Field Gf256 where
  exists_pair_ne := ⟨0, 1, by decide⟩
  mul_inv_cancel _ := mul_inv_cancel_of_ne
  inv_zero := rfl
  nnqsmul := _
  qsmul := _

end Gf256

end Pantheon.Identity
