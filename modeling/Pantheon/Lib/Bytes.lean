import Mathlib

/-!
# Bytes and big-endian words

Byte strings are lists of `UInt8` under the lexicographic order.  A word of
`width` bytes is written most significant byte first and holds the number
modulo `256 ^ width`.  `splitExact` is the bounds-checked read of a decoder:
a prefix of exactly the wanted length with the rest, or nothing.
-/

set_option autoImplicit false

namespace Pantheon.Lib

instance byteOrder : LinearOrder UInt8 where
  le_refl := UInt8.le_refl
  le_trans := fun _ _ _ => UInt8.le_trans
  le_antisymm := fun _ _ => UInt8.le_antisymm
  le_total := UInt8.le_total
  lt_iff_le_not_ge := by
    intro left right
    simp only [UInt8.lt_iff_toNat_lt, UInt8.le_iff_toNat_le]
    omega
  toDecidableLE := inferInstance
  toDecidableEq := inferInstance
  toDecidableLT := inferInstance

abbrev Bytes := List UInt8

def beBytes : Nat → Nat → Bytes
  | 0, _ => []
  | width + 1, number => beBytes width (number / 256) ++ [UInt8.ofNat (number % 256)]

def ofBe (bytes : Bytes) : Nat :=
  bytes.foldl (fun value byte => value * 256 + byte.toNat) 0

def signed (width number : Nat) : Int :=
  if number < 2 ^ (8 * width - 1) then number else (number : Int) - 2 ^ (8 * width)

@[simp] theorem beBytes_length (width number : Nat) : (beBytes width number).length = width := by
  induction width generalizing number with
  | zero => rfl
  | succ width ih => simp [beBytes, ih]

theorem ofBe_append_single (bytes : Bytes) (byte : UInt8) :
    ofBe (bytes ++ [byte]) = ofBe bytes * 256 + byte.toNat := by
  simp [ofBe]

theorem ofBe_beBytes (width number : Nat) : ofBe (beBytes width number) = number % 256 ^ width := by
  induction width generalizing number with
  | zero => simp [beBytes, ofBe, Nat.mod_one]
  | succ width ih =>
      rw [beBytes, ofBe_append_single, ih]
      have byteExact : (UInt8.ofNat (number % 256)).toNat = number % 256 := by
        simp
      rw [byteExact, pow_succ, Nat.mul_comm (256 ^ width) 256, Nat.mod_mul]
      ring

theorem ofBe_lt (bytes : Bytes) : ofBe bytes < 256 ^ bytes.length := by
  induction bytes using List.reverseRecOn with
  | nil => simp [ofBe]
  | append_singleton bytes byte ih =>
      rw [ofBe_append_single, List.length_append, List.length_singleton, pow_succ]
      have small : byte.toNat < 256 := byte.toNat_lt
      omega

theorem ofBe_beBytes_of_lt (width number : Nat) (fits : number < 256 ^ width) :
    ofBe (beBytes width number) = number := by
  rw [ofBe_beBytes, Nat.mod_eq_of_lt fits]

/-- The first `count` bytes and the rest, or `none` when fewer are left. -/
def splitExact (count : Nat) (bytes : Bytes) : Option (Bytes × Bytes) :=
  if bytes.length < count then none else some (bytes.take count, bytes.drop count)

theorem splitExact_append (front rest : Bytes) :
    splitExact front.length (front ++ rest) = some (front, rest) := by
  simp [splitExact]

theorem splitExact_beBytes (width number : Nat) (rest : Bytes) :
    splitExact width (beBytes width number ++ rest) = some (beBytes width number, rest) := by
  have := splitExact_append (beBytes width number) rest
  rwa [beBytes_length] at this

theorem splitExact_eq_some (count : Nat) (bytes front rest : Bytes)
    (found : splitExact count bytes = some (front, rest)) :
    bytes = front ++ rest ∧ front.length = count := by
  unfold splitExact at found
  split_ifs at found with short
  obtain ⟨rfl, rfl⟩ := Prod.mk.inj (Option.some.inj found)
  simp only [List.take_append_drop, List.length_take, true_and]
  omega

theorem splitExact_eq_none (count : Nat) (bytes : Bytes) :
    splitExact count bytes = none ↔ bytes.length < count := by
  simp [splitExact]

end Pantheon.Lib
