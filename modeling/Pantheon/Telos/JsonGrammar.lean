import Mathlib
import Pantheon.Lib.Json
import Pantheon.Telos.Json

/-!
# The grammar of JSON texts

A reading notes where it uses a production that the grammar of JSON does not have, and where
it passes the escape of half a surrogate pair, which the grammar has.
-/

set_option autoImplicit false

namespace Pantheon.Telos

open Pantheon.Lib

inductive Note where
  | otherSpace
  | leadingZero
  | rawControl
  | unpairedHalf
deriving DecidableEq

inductive Space : List Note → List Char → List Char → Prop where
  | none {rest : List Char} : Space [] rest rest
  | plain {notes : List Note} {char : Char} {chars rest : List Char}
      (space : isJsonSpace char = true) (more : Space notes chars rest) :
      Space notes (char :: chars) rest
  | other {notes : List Note} {char : Char} {chars rest : List Char}
      (notSpace : isJsonSpace char = false) (white : isWhitespace char = true)
      (more : Space notes chars rest) : Space (.otherSpace :: notes) (char :: chars) rest

/-! ## Numbers -/

structure Digits (chars digits rest : List Char) : Prop where
  some_ : digits ≠ []
  all : ∀ char ∈ digits, isDecimalDigit char = true
  text : chars = digits ++ rest

inductive Sign : List Char → Bool → List Char → Prop where
  | absent {rest : List Char} : Sign rest false rest
  | minus {rest : List Char} : Sign ('-' :: rest) true rest

inductive Fraction : List Char → List Char → List Char → Prop where
  | absent {rest : List Char} : Fraction rest [] rest
  | present {chars digits rest : List Char} (read : Digits chars digits rest) :
      Fraction ('.' :: chars) digits rest

inductive Exponent : List Char → Int → List Char → Prop where
  | absent {rest : List Char} : Exponent rest 0 rest
  | unsigned {mark : Char} {chars digits rest : List Char} (marked : isExponentMark mark = true)
      (read : Digits chars digits rest) : Exponent (mark :: chars) (natOfDigits digits) rest
  | plus {mark : Char} {chars digits rest : List Char} (marked : isExponentMark mark = true)
      (read : Digits chars digits rest) :
      Exponent (mark :: '+' :: chars) (natOfDigits digits) rest
  | minus {mark : Char} {chars digits rest : List Char} (marked : isExponentMark mark = true)
      (read : Digits chars digits rest) :
      Exponent (mark :: '-' :: chars) (-natOfDigits digits) rest

/-- The whole part is `0` or starts with another digit. -/
def zeroNotes : List Char → List Note
  | first :: _ :: _ => if first = '0' then [.leadingZero] else []
  | _ => []

inductive Number : List Note → List Char → Decimal → List Char → Prop where
  | mk {chars start point mark rest whole fraction : List Char} {negative : Bool}
      {exponent : Int} (sign : Sign chars negative start) (digits : Digits start whole point)
      (behindPoint : Fraction point fraction mark) (scale : Exponent mark exponent rest) :
      Number (zeroNotes whole) chars
        ⟨negative, natOfDigits (whole ++ fraction), exponent - fraction.length⟩ rest

/-! ## Strings -/

def IsHigh (code : Nat) : Prop := 0xD800 ≤ code ∧ code ≤ 0xDBFF

def IsLow (code : Nat) : Prop := 0xDC00 ≤ code ∧ code ≤ 0xDFFF

def LowInFront (chars : List Char) : Prop :=
  ∃ digits low rest, chars = '\\' :: 'u' :: digits ∧ readHex4 digits = some (low, rest) ∧ IsLow low

/-- What stands behind a backslash.  Half a pair is no character; the replacement character is
put in its place. -/
inductive Escape : List Note → List Char → Char → List Char → Prop where
  | simple {mark char : Char} {rest : List Char} (known : simpleEscape mark = some char) :
      Escape [] (mark :: rest) char rest
  | code {digits rest : List Char} {code : Nat} (read : readHex4 digits = some (code, rest))
      (whole : ¬(IsHigh code ∨ IsLow code)) : Escape [] ('u' :: digits) (Char.ofNat code) rest
  | pair {digits second rest : List Char} {high low : Nat}
      (first : readHex4 digits = some (high, '\\' :: 'u' :: second)) (isHigh : IsHigh high)
      (read : readHex4 second = some (low, rest)) (isLow : IsLow low) :
      Escape [] ('u' :: digits)
        (Char.ofNat (0x10000 + (high - 0xD800) * 1024 + (low - 0xDC00))) rest
  | half {digits rest : List Char} {code : Nat} (read : readHex4 digits = some (code, rest))
      (isHalf : IsHigh code ∨ IsLow code) (alone : ¬(IsHigh code ∧ LowInFront rest)) :
      Escape [.unpairedHalf] ('u' :: digits) '\uFFFD' rest

def controlNotes (char : Char) : List Note := if char.toNat < 0x20 then [.rawControl] else []

/-- A string behind its opening quote. -/
inductive Quoted : List Note → List Char → List Char → List Char → Prop where
  | close {rest : List Char} : Quoted [] ('"' :: rest) [] rest
  | plain {notes : List Note} {char : Char} {chars text rest : List Char} (notQuote : char ≠ '"')
      (notEscape : char ≠ '\\') (more : Quoted notes chars text rest) :
      Quoted (controlNotes char ++ notes) (char :: chars) (char :: text) rest
  | escaped {first notes : List Note} {char : Char} {chars after text rest : List Char}
      (escape : Escape first chars char after) (more : Quoted notes after text rest) :
      Quoted (first ++ notes) ('\\' :: chars) (char :: text) rest

/-! ## Values -/

/-- A member's key and the colon behind it. -/
inductive Key : List Note → List Char → String → List Char → Prop where
  | mk {before named between : List Note} {chars quoted text after rest : List Char}
      (space : Space before chars ('"' :: quoted)) (name : Quoted named quoted text after)
      (colon : Space between after (':' :: rest)) :
      Key (before ++ named ++ between) chars (String.ofList text) rest

/-- What a part of a text stands for. -/
inductive Node where
  | value (value : JsonValue)
  | items (items : List JsonValue)
  | members (fields : List (String × JsonValue))

/-- What stands in front of a text, and what is left of it.  The items and members of a list
are read with what closes it. -/
inductive Reading : List Note → List Char → Node → List Char → Prop where
  | nullWord {rest : List Char} : Reading [] ('n' :: 'u' :: 'l' :: 'l' :: rest) (.value .null) rest
  | trueWord {rest : List Char} :
      Reading [] ('t' :: 'r' :: 'u' :: 'e' :: rest) (.value (.bool true)) rest
  | falseWord {rest : List Char} :
      Reading [] ('f' :: 'a' :: 'l' :: 's' :: 'e' :: rest) (.value (.bool false)) rest
  | number {notes : List Note} {chars rest : List Char} {value : Decimal}
      (read : Number notes chars value rest) : Reading notes chars (.value (.number value)) rest
  | str {notes : List Note} {chars text rest : List Char} (read : Quoted notes chars text rest) :
      Reading notes ('"' :: chars) (.value (.str (String.ofList text))) rest
  | emptyArray {notes : List Note} {chars rest : List Char}
      (close : Space notes chars (']' :: rest)) :
      Reading notes ('[' :: chars) (.value (.array [])) rest
  | array {notes : List Note} {chars rest : List Char} {items : List JsonValue}
      (read : Reading notes chars (.items items) rest) :
      Reading notes ('[' :: chars) (.value (.array items)) rest
  | emptyObject {notes : List Note} {chars rest : List Char}
      (close : Space notes chars ('\x7d' :: rest)) :
      Reading notes ('\x7b' :: chars) (.value (.object [])) rest
  | object {notes : List Note} {chars rest : List Char} {fields : List (String × JsonValue)}
      (read : Reading notes chars (.members fields) rest) :
      Reading notes ('\x7b' :: chars) (.value (.object fields)) rest
  | lastItem {before notes behind : List Note} {chars start after rest : List Char}
      {item : JsonValue} (space : Space before chars start)
      (read : Reading notes start (.value item) after)
      (close : Space behind after (']' :: rest)) :
      Reading (before ++ notes ++ behind) chars (.items [item]) rest
  | nextItem {before notes behind more : List Note} {chars start after next rest : List Char}
      {item : JsonValue} {items : List JsonValue} (space : Space before chars start)
      (read : Reading notes start (.value item) after)
      (comma : Space behind after (',' :: next)) (others : Reading more next (.items items) rest) :
      Reading (before ++ notes ++ behind ++ more) chars (.items (item :: items)) rest
  | lastMember {named before notes behind : List Note} {chars colon start after rest : List Char}
      {key : String} {value : JsonValue} (name : Key named chars key colon)
      (space : Space before colon start) (read : Reading notes start (.value value) after)
      (close : Space behind after ('\x7d' :: rest)) :
      Reading (named ++ before ++ notes ++ behind) chars (.members [(key, value)]) rest
  | nextMember {named before notes behind more : List Note}
      {chars colon start after next rest : List Char} {key : String} {value : JsonValue}
      {fields : List (String × JsonValue)} (name : Key named chars key colon)
      (space : Space before colon start) (read : Reading notes start (.value value) after)
      (comma : Space behind after (',' :: next))
      (others : Reading more next (.members fields) rest) :
      Reading (named ++ before ++ notes ++ behind ++ more) chars
        (.members ((key, value) :: fields)) rest

/-- One value with white space around it. -/
inductive Document : List Note → String → JsonValue → Prop where
  | mk {before notes behind : List Note} {src : String} {start after : List Char}
      {value : JsonValue} (space : Space before src.toList start)
      (read : Reading notes start (.value value) after) (close : Space behind after []) :
      Document (before ++ notes ++ behind) src value

def UsesExtension (notes : List Note) : Prop := ∃ note ∈ notes, note ≠ .unpairedHalf

def IsJsonText (src : String) (value : JsonValue) : Prop :=
  ∃ notes, Document notes src value ∧ ¬UsesExtension notes

end Pantheon.Telos
