import Mathlib
import Pantheon.Lib.Utf8

/-!
# Hexadecimal text

Two lowercase digits a byte.
-/

set_option autoImplicit false

namespace Pantheon.Lib

def lowerHexDigit (digit : Nat) : Char :=
  Char.ofNat (if digit < 10 then 48 + digit else 87 + digit)

def lowerHex (bytes : Bytes) : String :=
  String.ofList (bytes.flatMap fun byte =>
    [lowerHexDigit (byte.toNat / 16), lowerHexDigit (byte.toNat % 16)])

theorem lowerHexDigit_injective :
    ∀ one < 16, ∀ other < 16, lowerHexDigit one = lowerHexDigit other → one = other := by
  decide

theorem length_utf8EncodeChar_lowerHexDigit :
    ∀ digit < 16, (String.utf8EncodeChar (lowerHexDigit digit)).length = 1 := by
  decide

theorem length_utf8Bytes_lowerHex (bytes : Bytes) :
    (utf8Bytes (lowerHex bytes)).length = 2 * bytes.length := by
  unfold lowerHex
  rw [utf8Bytes_ofList]
  induction bytes with
  | nil => rfl
  | cons byte rest ih =>
      have width : byte.toNat < 256 := byte.toNat_lt
      rw [List.flatMap_cons, List.flatMap_append, List.length_append, ih]
      simp only [List.flatMap_cons, List.flatMap_nil, List.append_nil, List.length_append,
        length_utf8EncodeChar_lowerHexDigit (byte.toNat / 16) (by omega),
        length_utf8EncodeChar_lowerHexDigit (byte.toNat % 16) (by omega), List.length_cons]
      omega

theorem lowerHex_injective : Function.Injective lowerHex := by
  intro left right same
  have chars := String.ofList_injective same
  clear same
  induction left generalizing right with
  | nil =>
      cases right with
      | nil => rfl
      | cons byte rest => cases chars
  | cons one left ih =>
      cases right with
      | nil => cases chars
      | cons other right =>
          have oneWidth : one.toNat < 256 := one.toNat_lt
          have otherWidth : other.toNat < 256 := other.toNat_lt
          simp only [List.flatMap_cons, List.cons_append, List.nil_append, List.cons.injEq]
            at chars
          obtain ⟨high, low, rest⟩ := chars
          have highSame := lowerHexDigit_injective _ (by omega) _ (by omega) high
          have lowSame := lowerHexDigit_injective _ (by omega) _ (by omega) low
          have byteSame : one = other := UInt8.toNat_inj.mp (by omega)
          rw [byteSame, ih rest]

theorem utf8Bytes_injective : Function.Injective utf8Bytes := by
  intro left right same
  rw [← fromUtf8Lossy_utf8Bytes left, same, fromUtf8Lossy_utf8Bytes]

end Pantheon.Lib
