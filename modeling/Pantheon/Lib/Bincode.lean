import Mathlib
import Pantheon.Lib.Frames
import Pantheon.Lib.Utf8

/-!
# Fixed-width little-endian serialisation

The layout of a `bincode` value: integers in eight little-endian bytes, byte
strings and texts behind their length, an option behind one byte.  A reader
returns what it read with the bytes behind it.
-/

set_option autoImplicit false

namespace Pantheon.Lib

namespace Bincode

abbrev Reader (Value : Type) : Type := Bytes → Option (Value × Bytes)

def writeU64 (number : Nat) : Bytes := (beBytes 8 number).reverse

def readU64 : Reader Nat := fun data => do
  let (word, rest) ← splitExact 8 data
  some (ofBe word.reverse, rest)

def writeI64 (number : Int) : Bytes := writeU64 (number % 2 ^ 64).toNat

def readI64 : Reader Int := fun data => do
  let (number, rest) ← readU64 data
  some (signed 8 number, rest)

def writeBytes (bytes : Bytes) : Bytes := writeU64 bytes.length ++ bytes

def readBytes : Reader Bytes := fun data => do
  let (length, rest) ← readU64 data
  splitExact length rest

def writeOption : Option Bytes → Bytes
  | none => [0]
  | some bytes => 1 :: writeBytes bytes

def readOption : Reader (Option Bytes)
  | 0 :: rest => some (none, rest)
  | 1 :: rest => do
      let (bytes, rest) ← readBytes rest
      some (some bytes, rest)
  | _ => none

def writeString (text : String) : Bytes := writeBytes (utf8Bytes text)

def readString : Reader String := fun data => do
  let (bytes, rest) ← readBytes data
  let text ← String.fromUTF8? ⟨bytes.toArray⟩
  some (text, rest)

theorem readU64_writeU64 {number : Nat} (fits : number < 2 ^ 64) (rest : Bytes) :
    readU64 (writeU64 number ++ rest) = some (number, rest) := by
  have width : (writeU64 number).length = 8 := by simp [writeU64]
  have split := splitExact_append (writeU64 number) rest
  rw [width] at split
  have exact : ofBe (writeU64 number).reverse = number := by
    rw [writeU64, List.reverse_reverse]
    exact ofBe_beBytes_of_lt 8 number (by omega)
  simp [readU64, split, exact]

theorem readI64_writeI64 {number : Int} (fits : IsSigned64 number) (rest : Bytes) :
    readI64 (writeI64 number ++ rest) = some (number, rest) := by
  have small : (number % 2 ^ 64).toNat < 2 ^ 64 := by omega
  have exact := ofSignedBytes_signedBytes fits
  rw [ofSignedBytes, signedBytes, ofBe_beBytes_of_lt 8 _ (by omega)] at exact
  rw [readI64, writeI64, readU64_writeU64 small]
  simp only [Option.bind_eq_bind, Option.bind_some, exact]

theorem readBytes_writeBytes {bytes : Bytes} (fits : bytes.length < 2 ^ 64) (rest : Bytes) :
    readBytes (writeBytes bytes ++ rest) = some (bytes, rest) := by
  have split : writeBytes bytes ++ rest = writeU64 bytes.length ++ (bytes ++ rest) := by
    rw [writeBytes, List.append_assoc]
  rw [split, readBytes, readU64_writeU64 fits]
  exact splitExact_append bytes rest

theorem readOption_writeOption {option : Option Bytes}
    (fits : ∀ bytes ∈ option, bytes.length < 2 ^ 64) (rest : Bytes) :
    readOption (writeOption option ++ rest) = some (option, rest) := by
  cases option with
  | none => rfl
  | some bytes =>
      have read := readBytes_writeBytes (fits bytes rfl) rest
      simp [writeOption, readOption, read]

theorem readString_writeString {text : String} (fits : (utf8Bytes text).length < 2 ^ 64)
    (rest : Bytes) : readString (writeString text ++ rest) = some (text, rest) := by
  have wrap : (⟨(utf8Bytes text).toArray⟩ : ByteArray) = text.toByteArray := by
    simp [utf8Bytes]
  have decoded : String.fromUTF8? text.toByteArray = some text := by
    simp [String.fromUTF8?, String.fromUTF8, text.isValidUTF8]
  rw [readString, writeString, readBytes_writeBytes fits]
  simp only [Option.bind_eq_bind, Option.bind_some, wrap, decoded]

end Bincode

end Pantheon.Lib
