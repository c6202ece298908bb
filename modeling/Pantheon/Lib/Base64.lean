import Mathlib
import Pantheon.Lib.Bytes

/-!
# Base64 with the URL alphabet and no padding

Three bytes are four digits of six bits; one or two bytes at the end are two
or three digits.  The decoder skips line ends and does not look at the bits of
the last digit that belong to no byte.
-/

set_option autoImplicit false

namespace Pantheon.Lib.Base64

def digitByte (digit : Nat) : UInt8 :=
  if digit < 26 then UInt8.ofNat (65 + digit)
  else if digit < 52 then UInt8.ofNat (97 + (digit - 26))
  else if digit < 62 then UInt8.ofNat (48 + (digit - 52))
  else if digit = 62 then 45
  else 95

def byteDigit (byte : UInt8) : Option Nat :=
  let code := byte.toNat
  if 65 ≤ code ∧ code ≤ 90 then some (code - 65)
  else if 97 ≤ code ∧ code ≤ 122 then some (code - 97 + 26)
  else if 48 ≤ code ∧ code ≤ 57 then some (code - 48 + 52)
  else if code = 45 then some 62
  else if code = 95 then some 63
  else none

def digits : Bytes → List Nat
  | [] => []
  | [first] => [first.toNat / 4, first.toNat % 4 * 16]
  | [first, second] =>
      [first.toNat / 4, first.toNat % 4 * 16 + second.toNat / 16, second.toNat % 16 * 4]
  | first :: second :: third :: rest =>
      first.toNat / 4 :: (first.toNat % 4 * 16 + second.toNat / 16) ::
        (second.toNat % 16 * 4 + third.toNat / 64) :: third.toNat % 64 :: digits rest

def undigits : List Nat → Option Bytes
  | [] => some []
  | [_] => none
  | [first, second] => some [UInt8.ofNat ((first * 64 + second) / 16)]
  | [first, second, third] =>
      let number := (first * 64 + second) * 64 + third
      some [UInt8.ofNat (number / 1024), UInt8.ofNat (number / 4 % 256)]
  | first :: second :: third :: fourth :: rest => do
      let number := ((first * 64 + second) * 64 + third) * 64 + fourth
      let bytes ← undigits rest
      some (UInt8.ofNat (number / 65536) :: UInt8.ofNat (number / 256 % 256) ::
        UInt8.ofNat (number % 256) :: bytes)

def encode (bytes : Bytes) : Bytes := (digits bytes).map digitByte

def decode (text : Bytes) : Option Bytes := do
  let digits ← (text.filter fun byte => byte ≠ 10 ∧ byte ≠ 13).mapM byteDigit
  undigits digits

theorem digits_lt (bytes : Bytes) : ∀ digit ∈ digits bytes, digit < 64 := by
  induction bytes using digits.induct with
  | case1 => simp [digits]
  | case2 first =>
      have := first.toNat_lt
      simp only [digits, List.forall_mem_cons, List.not_mem_nil, false_implies, implies_true,
        and_true]
      omega
  | case3 first second =>
      have := first.toNat_lt
      have := second.toNat_lt
      simp only [digits, List.forall_mem_cons, List.not_mem_nil, false_implies, implies_true,
        and_true]
      omega
  | case4 first second third rest ih =>
      have := first.toNat_lt
      have := second.toNat_lt
      have := third.toNat_lt
      simp only [digits, List.forall_mem_cons]
      exact ⟨by omega, by omega, by omega, by omega, ih⟩

theorem undigits_digits (bytes : Bytes) : undigits (digits bytes) = some bytes := by
  have byte_of (byte : UInt8) (number : Nat) (same : number = byte.toNat) :
      UInt8.ofNat number = byte := by
    rw [same, UInt8.ofNat_toNat]
  induction bytes using digits.induct with
  | case1 => rfl
  | case2 first =>
      simp only [digits, undigits]
      rw [byte_of first]
      omega
  | case3 first second =>
      have := second.toNat_lt
      simp only [digits, undigits]
      rw [byte_of first, byte_of second]
      · omega
      · omega
  | case4 first second third rest ih =>
      have := second.toNat_lt
      have := third.toNat_lt
      simp only [digits, undigits, ih, Option.bind_eq_bind, Option.bind_some]
      rw [byte_of first, byte_of second, byte_of third]
      · omega
      · omega
      · omega

theorem byteDigit_digitByte : ∀ digit < 64, byteDigit (digitByte digit) = some digit := by
  decide

/-- The bytes of encoded text: letters, digits, hyphen and underscore. -/
theorem digitByte_plain : ∀ digit < 64, digitByte digit ≠ 10 ∧ digitByte digit ≠ 13 ∧
    digitByte digit ≠ 46 ∧ digitByte digit ≠ 126 ∧ digitByte digit < 128 := by
  decide

theorem mem_encode (bytes : Bytes) (byte : UInt8) (member : byte ∈ encode bytes) :
    byte ≠ 10 ∧ byte ≠ 13 ∧ byte ≠ 46 ∧ byte ≠ 126 ∧ byte < 128 := by
  obtain ⟨digit, isDigit, rfl⟩ := List.mem_map.mp member
  exact digitByte_plain digit (digits_lt bytes digit isDigit)

theorem mapM_byteDigit (numbers : List Nat) (small : ∀ digit ∈ numbers, digit < 64) :
    (numbers.map digitByte).mapM byteDigit = some numbers := by
  induction numbers with
  | nil => rfl
  | cons digit rest ih =>
      have head := byteDigit_digitByte digit (small digit List.mem_cons_self)
      have tail := ih fun other member => small other (List.mem_cons_of_mem _ member)
      simp only [List.map_cons, List.mapM_cons, head, tail, Option.bind_eq_bind, Option.bind_some,
        Option.pure_def]

theorem decode_encode (bytes : Bytes) : decode (encode bytes) = some bytes := by
  have kept : (encode bytes).filter (fun byte => byte ≠ 10 ∧ byte ≠ 13) = encode bytes := by
    apply List.filter_eq_self.mpr
    intro byte member
    have plain := mem_encode bytes byte member
    simp [plain.1, plain.2.1]
  rw [decode, kept, encode, mapM_byteDigit _ (digits_lt bytes)]
  exact undigits_digits bytes

end Pantheon.Lib.Base64
