import Mathlib
import Pantheon.Lib.Float64
import Pantheon.Lib.Utf8

/-!
# The JSON reader of `telos-prove`: `tpt-telos-prove/src/json.rs`

A number is kept as it is written; the reader's own is `Decimal.float` of it.  The fuel bounds
the turns of the reader.  Errors are left out.
-/

set_option autoImplicit false

namespace Pantheon.Telos

open Pantheon.Lib

inductive JsonValue where
  | null
  | bool (value : Bool)
  | number (value : Decimal)
  | str (value : String)
  | array (items : List JsonValue)
  | object (fields : List (String × JsonValue))

abbrev Reader (A : Type) : Type := List Char → Option (A × List Char)

/-! ## White space, numbers, strings -/

def skipWs (chars : List Char) : List Char := chars.dropWhile isWhitespace

def isAsciiDigit (char : Char) : Bool := decide (48 ≤ char.toNat ∧ char.toNat ≤ 57)

def natOfDigits (digits : List Char) : Nat :=
  digits.foldl (fun value digit => 10 * value + (digit.toNat - 48)) 0

def readDigits : Reader (List Char) := fun chars =>
  let digits := chars.takeWhile isAsciiDigit
  if digits.isEmpty then none else some (digits, chars.dropWhile isAsciiDigit)

def readSign : List Char → Bool × List Char
  | '-' :: rest => (true, rest)
  | chars => (false, chars)

def readFraction : Reader (List Char)
  | '.' :: rest => readDigits rest
  | chars => some ([], chars)

def readExponentDigits (negative : Bool) : Reader Int := fun chars => do
  let (digits, rest) ← readDigits chars
  some (if negative then -natOfDigits digits else natOfDigits digits, rest)

def readExponent : Reader Int
  | char :: rest =>
      if char = 'e' ∨ char = 'E' then
        match rest with
        | '+' :: after => readExponentDigits false after
        | '-' :: after => readExponentDigits true after
        | after => readExponentDigits false after
      else some (0, char :: rest)
  | [] => some (0, [])

def parseNumber : Reader Decimal := fun chars => do
  let (negative, rest) := readSign chars
  let (whole, rest) ← readDigits rest
  let (fraction, rest) ← readFraction rest
  let (exponent, rest) ← readExponent rest
  some (⟨negative, natOfDigits (whole ++ fraction), exponent - fraction.length⟩, rest)

def hexDigit (char : Char) : Option Nat :=
  let code := char.toNat
  if 48 ≤ code ∧ code ≤ 57 then some (code - 48)
  else if 65 ≤ code ∧ code ≤ 70 then some (code - 55)
  else if 97 ≤ code ∧ code ≤ 102 then some (code - 87)
  else none

def parseHex4 : Reader Nat
  | first :: second :: third :: fourth :: rest => do
      let first ← hexDigit first
      let second ← hexDigit second
      let third ← hexDigit third
      let fourth ← hexDigit fourth
      some (((first * 16 + second) * 16 + third) * 16 + fourth, rest)
  | _ => none

def charFromU32 (code : Nat) : Option Char :=
  if code.isValidChar then some (Char.ofNat code) else none

def parseUnicode : Reader Char := fun chars => do
  let (code, rest) ← parseHex4 chars
  if 0xD800 ≤ code ∧ code ≤ 0xDBFF then
    match rest with
    | '\\' :: 'u' :: after => do
        let (low, rest) ← parseHex4 after
        if 0xDC00 ≤ low ∧ low ≤ 0xDFFF then do
          let char ← charFromU32 (0x10000 + (code - 0xD800) * 1024 + (low - 0xDC00))
          some (char, rest)
        else none
    | _ => none
  else do
    let char ← charFromU32 code
    some (char, rest)

def parseEscape : Reader Char
  | '"' :: rest => some ('"', rest)
  | '\\' :: rest => some ('\\', rest)
  | '/' :: rest => some ('/', rest)
  | 'b' :: rest => some (Char.ofNat 8, rest)
  | 'f' :: rest => some (Char.ofNat 12, rest)
  | 'n' :: rest => some ('\n', rest)
  | 'r' :: rest => some ('\r', rest)
  | 't' :: rest => some ('\t', rest)
  | 'u' :: rest => parseUnicode rest
  | _ => none

def parseString : Nat → Reader (List Char)
  | 0, _ => none
  | _ + 1, [] => none
  | fuel + 1, char :: rest =>
      if char = '"' then some ([], rest)
      else if char = '\\' then do
        let (escaped, rest) ← parseEscape rest
        let (text, rest) ← parseString fuel rest
        some (escaped :: text, rest)
      else do
        let (text, rest) ← parseString fuel rest
        some (char :: text, rest)

def tryMatch (word : List Char) (value : JsonValue) : Reader JsonValue := fun chars =>
  if word.isPrefixOf chars then some (value, chars.drop word.length) else none

/-! ## Values -/

def readSeparator (close : Char) : Reader Bool := fun chars =>
  match skipWs chars with
  | char :: rest =>
      if char = ',' then some (true, rest) else if char = close then some (false, rest) else none
  | [] => none

def expect (char : Char) (chars : List Char) : Option (List Char) :=
  match chars with
  | found :: rest => if found = char then some rest else none
  | [] => none

/-- The keyed members of an object, behind its opening brace or a comma. -/
def parseKey (fuel : Nat) : Reader String := fun chars => do
  let rest ← expect '"' (skipWs chars)
  let (key, rest) ← parseString fuel rest
  let rest ← expect ':' (skipWs rest)
  some (String.ofList key, rest)

mutual

def parseValue : Nat → Reader JsonValue
  | 0, _ => none
  | fuel + 1, chars =>
      match skipWs chars with
      | [] => none
      | char :: rest =>
          if char = '\x7b' then
            match expect '\x7d' (skipWs rest) with
            | some rest => some (.object [], rest)
            | none => do
                let (fields, rest) ← parseMembers fuel rest
                some (.object fields, rest)
          else if char = '[' then
            match expect ']' (skipWs rest) with
            | some rest => some (.array [], rest)
            | none => do
                let (items, rest) ← parseItems fuel rest
                some (.array items, rest)
          else if char = '"' then do
            let (text, rest) ← parseString fuel rest
            some (.str (String.ofList text), rest)
          else if char = 't' then tryMatch "true".toList (.bool true) (char :: rest)
          else if char = 'f' then tryMatch "false".toList (.bool false) (char :: rest)
          else if char = 'n' then tryMatch "null".toList .null (char :: rest)
          else if char = '-' || isAsciiDigit char then do
            let (value, rest) ← parseNumber (char :: rest)
            some (.number value, rest)
          else none

def parseItems : Nat → Reader (List JsonValue)
  | 0, _ => none
  | fuel + 1, chars => do
      let (item, rest) ← parseValue fuel chars
      let (more, rest) ← readSeparator ']' rest
      if more then do
        let (items, rest) ← parseItems fuel rest
        some (item :: items, rest)
      else some ([item], rest)

def parseMembers : Nat → Reader (List (String × JsonValue))
  | 0, _ => none
  | fuel + 1, chars => do
      let (key, rest) ← parseKey fuel chars
      let (value, rest) ← parseValue fuel rest
      let (more, rest) ← readSeparator '\x7d' rest
      if more then do
        let (fields, rest) ← parseMembers fuel rest
        some ((key, value) :: fields, rest)
      else some ([(key, value)], rest)

end

/-- One value with nothing but white space around it. -/
def parseJson (fuel : Nat) (src : String) : Option JsonValue := do
  let (value, rest) ← parseValue fuel src.toList
  if (skipWs rest).isEmpty then some value else none

end Pantheon.Telos
