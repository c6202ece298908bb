import Mathlib
import Pantheon.Lib.Bytes

/-!
# UTF-8 text as bytes

`utf8Bytes` is the encoding of a string.  `fromUtf8Lossy` decodes any byte
string: valid input is taken as it is, and otherwise each maximal prefix of an
ill-formed sequence becomes one replacement character.
-/

set_option autoImplicit false

namespace Pantheon.Lib

def utf8Bytes (text : String) : Bytes := text.toByteArray.data.toList

/-- `char::is_whitespace`. -/
def isWhitespace (char : Char) : Bool :=
  let code := char.toNat
  decide (9 ≤ code ∧ code ≤ 13 ∨ code = 0x20 ∨ code = 0x85 ∨ code = 0xA0 ∨ code = 0x1680 ∨
    0x2000 ≤ code ∧ code ≤ 0x200A ∨ code = 0x2028 ∨ code = 0x2029 ∨ code = 0x202F ∨
    code = 0x205F ∨ code = 0x3000)

def isContinuation (byte : UInt8) : Bool := decide (0x80 ≤ byte ∧ byte ≤ 0xBF)

/-- The second bytes that may follow the first byte of a three or four byte
sequence. -/
def secondAllowed (first second : UInt8) : Bool :=
  if first = 0xE0 then decide (0xA0 ≤ second ∧ second ≤ 0xBF)
  else if first = 0xED then decide (0x80 ≤ second ∧ second ≤ 0x9F)
  else if first = 0xF0 then decide (0x90 ≤ second ∧ second ≤ 0xBF)
  else if first = 0xF4 then decide (0x80 ≤ second ∧ second ≤ 0x8F)
  else isContinuation second

/-- How many bytes of an ill-formed sequence one replacement character stands
for.  Bytes past the end count as zero. -/
def illFormedLength (bytes : Bytes) : Nat :=
  let first := bytes.getD 0 0
  if 0xE0 ≤ first ∧ first ≤ 0xEF then
    if secondAllowed first (bytes.getD 1 0) then 2 else 1
  else if 0xF0 ≤ first ∧ first ≤ 0xF4 then
    if secondAllowed first (bytes.getD 1 0) then
      if isContinuation (bytes.getD 2 0) then 3 else 2
    else 1
  else 1

def lossyChars : Nat → Bytes → List Char
  | 0, _ => []
  | _ + 1, [] => []
  | fuel + 1, bytes =>
      match ByteArray.utf8DecodeChar? ⟨bytes.toArray⟩ 0 with
      | some char => char :: lossyChars fuel (bytes.drop char.utf8Size)
      | none => '\uFFFD' :: lossyChars fuel (bytes.drop (illFormedLength bytes))

def fromUtf8Lossy (bytes : Bytes) : String :=
  match String.fromUTF8? ⟨bytes.toArray⟩ with
  | some text => text
  | none => String.ofList (lossyChars bytes.length bytes)

theorem fromUTF8_utf8Bytes (text : String) :
    String.fromUTF8? ⟨(utf8Bytes text).toArray⟩ = some text := by
  have wrap : (⟨(utf8Bytes text).toArray⟩ : ByteArray) = text.toByteArray := by
    simp [utf8Bytes]
  rw [wrap]
  simp [String.fromUTF8?, String.fromUTF8, text.isValidUTF8]

theorem fromUtf8Lossy_utf8Bytes (text : String) : fromUtf8Lossy (utf8Bytes text) = text := by
  unfold fromUtf8Lossy
  rw [fromUTF8_utf8Bytes]

/-! ## NUL bytes -/

theorem utf8Bytes_ofList (chars : List Char) :
    utf8Bytes (String.ofList chars) = chars.flatMap String.utf8EncodeChar := by
  unfold utf8Bytes
  rw [String.toByteArray_ofList]
  simp [List.utf8Encode]

theorem zero_notMem_utf8EncodeChar (char : Char) (visible : char ≠ '\x00') :
    0 ∉ String.utf8EncodeChar char := by
  have positive : 0 < char.val.toNat := by
    rcases Nat.eq_zero_or_pos char.val.toNat with zero | positive
    · exact absurd (Char.ext (UInt32.toNat_inj.mp zero)) visible
    · exact positive
  have byte : ∀ value : Nat, 0 < value → value < 256 → (0 : UInt8) ≠ UInt8.ofNat value := by
    intro value above below same
    have := congrArg UInt8.toNat same
    simp [Nat.mod_eq_of_lt below] at this
    omega
  unfold String.utf8EncodeChar
  simp only []
  split_ifs with one two three
  · simp only [List.mem_singleton]
    exact byte _ positive (by omega)
  · simp only [List.mem_cons, List.not_mem_nil, or_false, not_or]
    exact ⟨byte _ (by omega) (by omega), byte _ (by omega) (by omega)⟩
  · simp only [List.mem_cons, List.not_mem_nil, or_false, not_or]
    exact ⟨byte _ (by omega) (by omega), byte _ (by omega) (by omega), byte _ (by omega) (by omega)⟩
  · simp only [List.mem_cons, List.not_mem_nil, or_false, not_or]
    exact ⟨byte _ (by omega) (by omega), byte _ (by omega) (by omega), byte _ (by omega) (by omega),
      byte _ (by omega) (by omega)⟩

/-- A text and a NUL behind it begin with a text that has no NUL. -/
theorem utf8Bytes_until_zero (text : String) (rest : Bytes) : ∃ (front : String) (back : Bytes),
    utf8Bytes text ++ 0 :: rest = utf8Bytes front ++ 0 :: back ∧ 0 ∉ utf8Bytes front := by
  obtain ⟨chars, rfl⟩ : ∃ chars, text = String.ofList chars := ⟨text.toList, by simp⟩
  rw [utf8Bytes_ofList]
  induction chars with
  | nil => exact ⟨"", rest, rfl, by simp [utf8Bytes]⟩
  | cons char chars ih =>
      by_cases visible : char = '\x00'
      · subst visible
        exact ⟨"", chars.flatMap String.utf8EncodeChar ++ 0 :: rest, rfl, by simp [utf8Bytes]⟩
      · obtain ⟨front, back, split, clean⟩ := ih
        obtain ⟨frontChars, rfl⟩ : ∃ chars, front = String.ofList chars := ⟨front.toList, by simp⟩
        refine ⟨String.ofList (char :: frontChars), back, ?_, ?_⟩
        · rw [utf8Bytes_ofList] at split ⊢
          rw [List.flatMap_cons, List.append_assoc, split, List.flatMap_cons, List.append_assoc]
        · rw [utf8Bytes_ofList] at clean ⊢
          rw [List.flatMap_cons, List.mem_append, not_or]
          exact ⟨zero_notMem_utf8EncodeChar char visible, clean⟩

end Pantheon.Lib
