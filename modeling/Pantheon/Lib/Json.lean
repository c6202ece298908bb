import Mathlib
import Pantheon.Lib.Bytes
import Pantheon.Lib.Utf8

/-!
# JSON text

A document is a tree whose strings are byte strings and whose numbers are
kept as they are written.  Writing replaces every ill-formed byte of a string
by the escape of the replacement character, so what is read back is the tree
with its strings made well-formed.
-/

set_option autoImplicit false

namespace Pantheon.Lib

inductive Json where
  | null
  | bool (value : Bool)
  | number (literal : List Char)
  | string (text : Bytes)
  | array (items : List Json)
  | object (members : List (Bytes × Json))

/-! ## Strings of bytes -/

/-- The characters of a byte string, `none` for a byte that begins none. -/
def runesOf : Nat → Bytes → List (Option Char)
  | 0, _ => []
  | _ + 1, [] => []
  | fuel + 1, byte :: bytes =>
      match ByteArray.utf8DecodeChar? ⟨(byte :: bytes).toArray⟩ 0 with
      | some char => some char :: runesOf fuel ((byte :: bytes).drop char.utf8Size)
      | none => none :: runesOf fuel bytes

def runes (bytes : Bytes) : List (Option Char) :=
  match String.fromUTF8? ⟨bytes.toArray⟩ with
  | some text => text.toList.map some
  | none => runesOf bytes.length bytes

def replaced (bytes : Bytes) : List Char := (runes bytes).map fun rune => rune.getD '\uFFFD'

def ofChars (chars : List Char) : Bytes := utf8Bytes (String.ofList chars)

def coerce (bytes : Bytes) : Bytes := ofChars (replaced bytes)

theorem runes_ofChars (chars : List Char) : runes (ofChars chars) = chars.map some := by
  unfold runes ofChars
  rw [fromUTF8_utf8Bytes]
  simp only [String.toList_ofList]

theorem replaced_ofChars (chars : List Char) : replaced (ofChars chars) = chars := by
  unfold replaced
  rw [runes_ofChars, List.map_map]
  exact List.map_id chars

@[simp] theorem coerce_ofChars (chars : List Char) : coerce (ofChars chars) = ofChars chars := by
  unfold coerce
  rw [replaced_ofChars]

@[simp] theorem coerce_coerce (bytes : Bytes) : coerce (coerce bytes) = coerce bytes :=
  coerce_ofChars _

/-! ## Writing -/

def hexChar (digit : Nat) : Char :=
  if digit < 10 then Char.ofNat (48 + digit) else Char.ofNat (87 + digit)

def hexEscape (code : Nat) : List Char :=
  ['\\', 'u', hexChar (code / 4096 % 16), hexChar (code / 256 % 16), hexChar (code / 16 % 16),
    hexChar (code % 16)]

def escapeChar (char : Char) : List Char :=
  if char = '"' then ['\\', '"']
  else if char = '\\' then ['\\', '\\']
  else if char = '\x08' then ['\\', 'b']
  else if char = '\x0C' then ['\\', 'f']
  else if char = '\n' then ['\\', 'n']
  else if char = '\r' then ['\\', 'r']
  else if char = '\t' then ['\\', 't']
  else if char.toNat < 0x20 ∨ char = '<' ∨ char = '>' ∨ char = '&' ∨ char = '\u2028' ∨
      char = '\u2029' then hexEscape char.toNat
  else [char]

def escapeRune : Option Char → List Char
  | some char => escapeChar char
  | none => hexEscape 0xFFFD

def renderString (text : Bytes) : List Char := '"' :: (runes text).flatMap escapeRune ++ ['"']

mutual

def Json.render : Json → List Char
  | .null => ['n', 'u', 'l', 'l']
  | .bool true => ['t', 'r', 'u', 'e']
  | .bool false => ['f', 'a', 'l', 's', 'e']
  | .number literal => literal
  | .string text => renderString text
  | .array items => '[' :: Json.renderItems items ++ [']']
  | .object members => '\x7b' :: Json.renderMembers members ++ ['\x7d']

def Json.renderItems : List Json → List Char
  | [] => []
  | [item] => item.render
  | item :: rest => item.render ++ ',' :: Json.renderItems rest

def Json.renderMembers : List (Bytes × Json) → List Char
  | [] => []
  | [(key, value)] => renderString key ++ ':' :: value.render
  | (key, value) :: rest =>
      renderString key ++ ':' :: value.render ++ ',' :: Json.renderMembers rest

end

/-! ## Reading -/

def isJsonSpace (char : Char) : Bool :=
  decide (char = ' ' ∨ char = '\t' ∨ char = '\r' ∨ char = '\n')

def skipSpace (chars : List Char) : List Char := chars.dropWhile isJsonSpace

/-- Where the scanner of a number stands. -/
inductive NumberState where
  | start
  | sign
  | zero
  | whole
  | point
  | fraction
  | exponent
  | exponentSign
  | exponentDigits
deriving DecidableEq

def NumberState.accepting : NumberState → Bool
  | .zero => true
  | .whole => true
  | .fraction => true
  | .exponentDigits => true
  | _ => false

def isDecimalDigit (char : Char) : Bool := decide (48 ≤ char.toNat ∧ char.toNat ≤ 57)

def isExponentMark (char : Char) : Bool := decide (char = 'e' ∨ char = 'E')

def NumberState.next : NumberState → Char → Option NumberState
  | .start, char =>
      if char = '-' then some .sign
      else if char = '0' then some .zero
      else if isDecimalDigit char then some .whole
      else none
  | .sign, char =>
      if char = '0' then some .zero
      else if isDecimalDigit char then some .whole
      else none
  | .zero, char =>
      if char = '.' then some .point
      else if isExponentMark char then some .exponent
      else none
  | .whole, char =>
      if isDecimalDigit char then some .whole
      else if char = '.' then some .point
      else if isExponentMark char then some .exponent
      else none
  | .point, char => if isDecimalDigit char then some .fraction else none
  | .fraction, char =>
      if isDecimalDigit char then some .fraction
      else if isExponentMark char then some .exponent
      else none
  | .exponent, char =>
      if char = '+' ∨ char = '-' then some .exponentSign
      else if isDecimalDigit char then some .exponentDigits
      else none
  | .exponentSign, char => if isDecimalDigit char then some .exponentDigits else none
  | .exponentDigits, char => if isDecimalDigit char then some .exponentDigits else none

def scanNumber (state : NumberState) : List Char → Option (List Char × List Char)
  | [] => if state.accepting then some ([], []) else none
  | char :: rest =>
      match state.next char with
      | some state => do
          let (literal, rest) ← scanNumber state rest
          some (char :: literal, rest)
      | none => if state.accepting then some ([], char :: rest) else none

def hexValue (char : Char) : Option Nat :=
  let code := char.toNat
  if 48 ≤ code ∧ code ≤ 57 then some (code - 48)
  else if 65 ≤ code ∧ code ≤ 70 then some (code - 55)
  else if 97 ≤ code ∧ code ≤ 102 then some (code - 87)
  else none

def readHex4 : List Char → Option (Nat × List Char)
  | first :: second :: third :: fourth :: rest => do
      let first ← hexValue first
      let second ← hexValue second
      let third ← hexValue third
      let fourth ← hexValue fourth
      some (((first * 16 + second) * 16 + third) * 16 + fourth, rest)
  | _ => none

def simpleEscape : Char → Option Char
  | '"' => some '"'
  | '\\' => some '\\'
  | '/' => some '/'
  | 'b' => some '\x08'
  | 'f' => some '\x0C'
  | 'n' => some '\n'
  | 'r' => some '\r'
  | 't' => some '\t'
  | _ => none

/-- The character of a code behind `\u`; the low half of a pair may follow,
and a half without its other is the replacement character. -/
def readCode (code : Nat) (rest : List Char) : Char × List Char :=
  if 0xD800 ≤ code ∧ code < 0xE000 then
    match rest with
    | '\\' :: 'u' :: after =>
        match readHex4 after with
        | some (low, behind) =>
            if code < 0xDC00 ∧ 0xDC00 ≤ low ∧ low < 0xE000 then
              (Char.ofNat (0x10000 + (code - 0xD800) * 1024 + (low - 0xDC00)), behind)
            else ('\uFFFD', rest)
        | none => ('\uFFFD', rest)
    | _ => ('\uFFFD', rest)
  else (Char.ofNat code, rest)

def readEscape : List Char → Option (Char × List Char)
  | [] => none
  | mark :: rest =>
      if mark = 'u' then do
        let (code, rest) ← readHex4 rest
        some (readCode code rest)
      else do
        let char ← simpleEscape mark
        some (char, rest)

def readString : Nat → List Char → Option (List Char × List Char)
  | 0, _ => none
  | _ + 1, [] => none
  | fuel + 1, char :: rest =>
      if char = '"' then some ([], rest)
      else if char = '\\' then do
        let (char, rest) ← readEscape rest
        let (chars, rest) ← readString fuel rest
        some (char :: chars, rest)
      else if char.toNat < 0x20 then none
      else do
        let (chars, rest) ← readString fuel rest
        some (char :: chars, rest)

def readWord (word : List Char) (value : Json) (rest : List Char) : Option (Json × List Char) :=
  if word.isPrefixOf rest then some (value, rest.drop word.length) else none

mutual

/-- A value and what is behind it.  `depth` is how many more arrays and
objects may be opened. -/
def readValue : Nat → Nat → List Char → Option (Json × List Char)
  | 0, _, _ => none
  | fuel + 1, depth, chars =>
      match skipSpace chars with
      | [] => none
      | char :: rest =>
          if char = '"' then do
            let (text, rest) ← readString (rest.length + 1) rest
            some (.string (ofChars text), rest)
          else if char = '[' then
            match depth with
            | 0 => none
            | depth + 1 => readArray fuel depth (skipSpace rest)
          else if char = '\x7b' then
            match depth with
            | 0 => none
            | depth + 1 => readObject fuel depth (skipSpace rest)
          else if char = 'n' then readWord ['u', 'l', 'l'] .null rest
          else if char = 't' then readWord ['r', 'u', 'e'] (.bool true) rest
          else if char = 'f' then readWord ['a', 'l', 's', 'e'] (.bool false) rest
          else do
            let (literal, rest) ← scanNumber .start (char :: rest)
            some (.number literal, rest)

def readArray : Nat → Nat → List Char → Option (Json × List Char)
  | 0, _, _ => none
  | fuel + 1, depth, chars =>
      if chars.head? = some ']' then some (.array [], chars.tail)
      else do
        let (items, rest) ← readItems fuel depth chars
        some (.array items, rest)

def readItems : Nat → Nat → List Char → Option (List Json × List Char)
  | 0, _, _ => none
  | fuel + 1, depth, chars => do
      let (item, rest) ← readValue fuel depth chars
      match skipSpace rest with
      | [] => none
      | char :: rest =>
          if char = ',' then do
            let (items, rest) ← readItems fuel depth rest
            some (item :: items, rest)
          else if char = ']' then some ([item], rest)
          else none

def readObject : Nat → Nat → List Char → Option (Json × List Char)
  | 0, _, _ => none
  | fuel + 1, depth, chars =>
      if chars.head? = some '\x7d' then some (.object [], chars.tail)
      else do
        let (members, rest) ← readMembers fuel depth chars
        some (.object members, rest)

def readMember : Nat → Nat → List Char → Option ((Bytes × Json) × List Char)
  | 0, _, _ => none
  | fuel + 1, depth, chars =>
      match skipSpace chars with
      | [] => none
      | char :: rest =>
          if char = '"' then do
            let (key, rest) ← readString (rest.length + 1) rest
            match skipSpace rest with
            | [] => none
            | char :: rest =>
                if char = ':' then do
                  let (value, rest) ← readValue fuel depth rest
                  some ((ofChars key, value), rest)
                else none
          else none

def readMembers : Nat → Nat → List Char → Option (List (Bytes × Json) × List Char)
  | 0, _, _ => none
  | fuel + 1, depth, chars => do
      let (member, rest) ← readMember fuel depth chars
      match skipSpace rest with
      | [] => none
      | char :: rest =>
          if char = ',' then do
            let (members, rest) ← readMembers fuel depth rest
            some (member :: members, rest)
          else if char = '\x7d' then some ([member], rest)
          else none

end

def maxNesting : Nat := 10000

def parseText (chars : List Char) : Option Json := do
  let (value, rest) ← readValue (4 * chars.length + 1) maxNesting chars
  if skipSpace rest = [] then some value else none

/-! ## Strings read back -/

theorem hexValue_hexChar : ∀ digit < 16, hexValue (hexChar digit) = some digit := by decide

theorem readHex4_hexEscape (code : Nat) (small : code < 65536) (rest : List Char) :
    readHex4 ((hexEscape code).drop 2 ++ rest) = some (code, rest) := by
  have digit (place : Nat) := hexValue_hexChar (place % 16) (Nat.mod_lt _ (by norm_num))
  simp only [hexEscape, List.drop_succ_cons, List.drop_zero, List.cons_append, List.nil_append,
    readHex4, digit, Option.bind_eq_bind, Option.bind_some, Option.some.injEq, Prod.mk.injEq,
    and_true]
  omega

theorem readEscape_hexEscape (code : Nat) (small : code < 65536)
    (plain : ¬ (0xD800 ≤ code ∧ code < 0xE000)) (rest : List Char) :
    readEscape ((hexEscape code).tail ++ rest) = some (Char.ofNat code, rest) := by
  have digits := readHex4_hexEscape code small rest
  rw [hexEscape, List.tail_cons, List.cons_append, readEscape, if_pos rfl]
  rw [hexEscape, List.drop_succ_cons, List.drop_succ_cons, List.drop_zero] at digits
  simp only [digits, Option.bind_eq_bind, Option.bind_some, readCode, if_neg plain]

theorem readString_escape (char : Char) (fuel : Nat) (escaped rest : List Char)
    (read : readEscape (escaped ++ rest) = some (char, rest)) :
    readString (fuel + 1) ('\\' :: escaped ++ rest) =
      (readString fuel rest).map fun later => (char :: later.1, later.2) := by
  rw [List.cons_append, readString, if_neg (by decide), if_pos rfl, read]
  simp only [Option.bind_eq_bind, Option.bind_some, Option.map_eq_bind]
  rfl

theorem readString_hexEscape (code fuel : Nat) (small : code < 65536)
    (plain : ¬ (0xD800 ≤ code ∧ code < 0xE000)) (rest : List Char) :
    readString (fuel + 1) (hexEscape code ++ rest) =
      (readString fuel rest).map fun later => (Char.ofNat code :: later.1, later.2) :=
  readString_escape (Char.ofNat code) fuel (hexEscape code).tail rest
    (readEscape_hexEscape code small plain rest)

/-- The characters written as a code are below the surrogates. -/
theorem hex_escaped_below (char : Char) (escaped : char.toNat < 0x20 ∨ char = '<' ∨ char = '>' ∨
    char = '&' ∨ char = '\u2028' ∨ char = '\u2029') : char.toNat < 0xD800 := by
  rcases escaped with control | rfl | rfl | rfl | rfl | rfl
  · omega
  all_goals decide

/-- A rune is read back as its character. -/
theorem readString_escapeRune (rune : Option Char) (fuel : Nat) (rest : List Char) :
    readString (fuel + 1) (escapeRune rune ++ rest) =
      (readString fuel rest).map fun later => (rune.getD '\uFFFD' :: later.1, later.2) := by
  cases rune with
  | none => exact readString_hexEscape 0xFFFD fuel (by norm_num) (by omega) rest
  | some char =>
      simp only [escapeRune, Option.getD_some, escapeChar]
      split_ifs with quote backslash backspace feed newline carriage tab coded
      · subst quote
        exact readString_escape '"' fuel ['"'] rest rfl
      · subst backslash
        exact readString_escape '\\' fuel ['\\'] rest rfl
      · subst backspace
        exact readString_escape '\x08' fuel ['b'] rest rfl
      · subst feed
        exact readString_escape '\x0C' fuel ['f'] rest rfl
      · subst newline
        exact readString_escape '\n' fuel ['n'] rest rfl
      · subst carriage
        exact readString_escape '\r' fuel ['r'] rest rfl
      · subst tab
        exact readString_escape '\t' fuel ['t'] rest rfl
      · have below := hex_escaped_below char coded
        have read := readString_hexEscape char.toNat fuel (by omega) (by omega) rest
        rwa [Char.ofNat_toNat] at read
      · have visible : ¬ char.toNat < 0x20 := fun control => coded (Or.inl control)
        rw [List.singleton_append, readString, if_neg quote, if_neg backslash, if_neg visible]
        simp only [Option.bind_eq_bind, Option.map_eq_bind]
        rfl

theorem readString_runes (text : List (Option Char)) : ∀ (fuel : Nat) (rest : List Char),
    text.length < fuel →
    readString fuel (text.flatMap escapeRune ++ '"' :: rest) =
      some (text.map fun rune => rune.getD '\uFFFD', rest) := by
  induction text with
  | nil =>
      intro fuel rest enough
      obtain ⟨fuel, rfl⟩ := Nat.exists_eq_succ_of_ne_zero (by omega : fuel ≠ 0)
      rw [List.flatMap_nil, List.nil_append, readString, if_pos rfl]
      rfl
  | cons rune text ih =>
      intro fuel rest enough
      obtain ⟨fuel, rfl⟩ := Nat.exists_eq_succ_of_ne_zero (by omega : fuel ≠ 0)
      rw [List.length_cons] at enough
      rw [List.flatMap_cons, List.append_assoc, readString_escapeRune,
        ih fuel rest (by omega)]
      rfl

theorem escapeRune_length_pos (rune : Option Char) : 1 ≤ (escapeRune rune).length := by
  cases rune with
  | none => exact Nat.le_add_left 1 5
  | some char =>
      simp only [escapeRune, escapeChar]
      split_ifs
      all_goals exact Nat.le_add_left 1 _

theorem length_le_escaped (text : List (Option Char)) :
    text.length ≤ (text.flatMap escapeRune).length := by
  induction text with
  | nil => exact Nat.zero_le _
  | cons rune text ih =>
      have first := escapeRune_length_pos rune
      rw [List.flatMap_cons, List.length_append, List.length_cons]
      omega

/-- A string is read back with its ill-formed bytes replaced. -/
theorem readString_renderString (text : Bytes) (rest : List Char) :
    ∃ tail, renderString text ++ rest = '"' :: tail ∧
      readString (tail.length + 1) tail = some (replaced text, rest) := by
  refine ⟨(runes text).flatMap escapeRune ++ '"' :: rest, ?_, ?_⟩
  · simp only [renderString, List.cons_append, List.append_assoc, List.nil_append]
  · apply readString_runes
    have long := length_le_escaped (runes text)
    rw [List.length_append]
    omega

/-! ## Numbers read back -/

def ValidNumber (literal : List Char) : Prop := scanNumber .start literal = some (literal, [])

def continuesNumber (char : Char) : Bool :=
  isDecimalDigit char || isExponentMark char || decide (char = '.' ∨ char = '+' ∨ char = '-')

/-- The text does not go on with a character of a number. -/
def EndsNumber (rest : List Char) : Prop := ∀ char, rest.head? = some char → ¬ continuesNumber char

theorem next_continues (state next : NumberState) (char : Char)
    (step : state.next char = some next) (started : state ≠ .start ∨ char ≠ '-') :
    continuesNumber char := by
  have zero : isDecimalDigit '0' = true := by decide
  unfold continuesNumber
  cases state <;> simp only [NumberState.next] at step <;> split_ifs at step <;> simp_all

theorem scanNumber_append (literal : List Char) : ∀ (state : NumberState) (rest : List Char),
    EndsNumber rest → scanNumber state literal = some (literal, []) →
    scanNumber state (literal ++ rest) = some (literal, rest) := by
  induction literal with
  | nil =>
      intro state rest ends scanned
      rw [scanNumber] at scanned
      split_ifs at scanned with accepting
      cases rest with
      | nil => rw [List.append_nil, scanNumber, if_pos accepting]
      | cons char rest =>
          have stops : state.next char = none := by
            cases step : state.next char with
            | none => rfl
            | some next =>
                have notStart : state ≠ .start := by
                  rintro rfl
                  exact absurd accepting (by decide)
                exact absurd (next_continues state next char step (Or.inl notStart))
                  (ends char rfl)
          rw [List.nil_append, scanNumber, stops]
          simp only [accepting, if_true]
  | cons char literal ih =>
      intro state rest ends scanned
      rw [scanNumber] at scanned
      rw [List.cons_append, scanNumber]
      cases step : state.next char with
      | none =>
          simp only [step] at scanned
          split_ifs at scanned
          exact absurd scanned (by simp)
      | some next =>
          simp only [step, Option.bind_eq_bind, Option.bind_eq_some_iff, Prod.exists,
            Option.some.injEq, Prod.mk.injEq, List.cons.injEq] at scanned
          obtain ⟨read, left, scanned, ⟨_, rfl⟩, rfl⟩ := scanned
          simp only [ih next rest ends scanned, Option.bind_eq_bind, Option.bind_some]

/-! ## Values read back -/

mutual

/-- The tree that is read back: every string with its ill-formed bytes
replaced. -/
def Json.coerced : Json → Json
  | .null => .null
  | .bool value => .bool value
  | .number literal => .number literal
  | .string text => .string (coerce text)
  | .array items => .array (Json.coercedItems items)
  | .object members => .object (Json.coercedMembers members)

def Json.coercedItems : List Json → List Json
  | [] => []
  | item :: rest => item.coerced :: Json.coercedItems rest

def Json.coercedMembers : List (Bytes × Json) → List (Bytes × Json)
  | [] => []
  | (key, value) :: rest => (coerce key, value.coerced) :: Json.coercedMembers rest

end

mutual

def Json.nesting : Json → Nat
  | .array items => Json.nestingItems items + 1
  | .object members => Json.nestingMembers members + 1
  | _ => 0

def Json.nestingItems : List Json → Nat
  | [] => 0
  | item :: rest => max item.nesting (Json.nestingItems rest)

def Json.nestingMembers : List (Bytes × Json) → Nat
  | [] => 0
  | (_, value) :: rest => max value.nesting (Json.nestingMembers rest)

end

mutual

def Json.Numbered : Json → Prop
  | .number literal => ValidNumber literal
  | .array items => Json.NumberedItems items
  | .object members => Json.NumberedMembers members
  | _ => True

def Json.NumberedItems : List Json → Prop
  | [] => True
  | item :: rest => item.Numbered ∧ Json.NumberedItems rest

def Json.NumberedMembers : List (Bytes × Json) → Prop
  | [] => True
  | (_, value) :: rest => value.Numbered ∧ Json.NumberedMembers rest

end

theorem skipSpace_cons (char : Char) (rest : List Char) (visible : isJsonSpace char = false) :
    skipSpace (char :: rest) = char :: rest := by
  rw [skipSpace, List.dropWhile_cons_of_neg (by simp [visible])]

/-- The first character of a number. -/
theorem validNumber_head (literal : List Char) (valid : ValidNumber literal) :
    ∃ char rest, literal = char :: rest ∧ (char = '-' ∨ isDecimalDigit char) := by
  unfold ValidNumber at valid
  cases literal with
  | nil => exact absurd valid (by decide)
  | cons char rest =>
      refine ⟨char, rest, rfl, ?_⟩
      rw [scanNumber] at valid
      by_cases sign : char = '-'
      · exact Or.inl sign
      · right
        by_contra notDigit
        have notZero : char ≠ '0' := by
          rintro rfl
          exact notDigit (by decide)
        simp [NumberState.next, sign, notZero, notDigit, NumberState.accepting] at valid

theorem number_head_plain (char : Char) (head : char = '-' ∨ isDecimalDigit char) :
    isJsonSpace char = false ∧ char ≠ '"' ∧ char ≠ '[' ∧ char ≠ ']' ∧ char ≠ '\x7b' ∧
      char ≠ 'n' ∧ char ≠ 't' ∧ char ≠ 'f' := by
  rcases head with rfl | digit
  · decide
  · simp only [isDecimalDigit, decide_eq_true_eq] at digit
    refine ⟨?_, ?_, ?_, ?_, ?_, ?_, ?_, ?_⟩
    · simp only [isJsonSpace, decide_eq_false_iff_not]
      rintro (rfl | rfl | rfl | rfl) <;> exact absurd digit (by decide)
    all_goals
      rintro rfl
      exact absurd digit (by decide)

/-- A value starts with a character that is neither a space nor a closing
bracket. -/
theorem Json.render_head (value : Json) (numbered : value.Numbered) :
    ∃ char rest, value.render = char :: rest ∧ isJsonSpace char = false ∧ char ≠ ']' := by
  cases value with
  | null => exact ⟨'n', ['u', 'l', 'l'], by simp only [Json.render], by decide, by decide⟩
  | bool value =>
      cases value with
      | true => exact ⟨'t', ['r', 'u', 'e'], by simp only [Json.render], by decide, by decide⟩
      | false => exact ⟨'f', ['a', 'l', 's', 'e'], by simp only [Json.render], by decide, by decide⟩
  | number literal =>
      simp only [Json.Numbered] at numbered
      obtain ⟨char, rest, rfl, head⟩ := validNumber_head literal numbered
      have plain := number_head_plain char head
      exact ⟨char, rest, by simp only [Json.render], plain.1, plain.2.2.2.1⟩
  | string text =>
      exact ⟨'"', (runes text).flatMap escapeRune ++ ['"'],
        by simp only [Json.render, renderString, List.cons_append], by decide, by decide⟩
  | array items =>
      exact ⟨'[', Json.renderItems items ++ [']'],
        by simp only [Json.render, List.cons_append], by decide, by decide⟩
  | object members =>
      exact ⟨'\x7b', Json.renderMembers members ++ ['\x7d'],
        by simp only [Json.render, List.cons_append], by decide, by decide⟩

theorem Json.renderItems_cons (item : Json) (rest : List Json) (after : List Char) :
    Json.renderItems (item :: rest) ++ ']' :: after =
      item.render ++ match rest with
        | [] => ']' :: after
        | next :: others => ',' :: (Json.renderItems (next :: others) ++ ']' :: after) := by
  cases rest with
  | nil => simp only [Json.renderItems]
  | cons next others =>
      simp only [Json.renderItems, List.append_assoc, List.cons_append]

theorem Json.renderMembers_cons (key : Bytes) (value : Json) (rest : List (Bytes × Json))
    (after : List Char) :
    Json.renderMembers ((key, value) :: rest) ++ '\x7d' :: after =
      renderString key ++ ':' :: (value.render ++ match rest with
        | [] => '\x7d' :: after
        | next :: others => ',' :: (Json.renderMembers (next :: others) ++ '\x7d' :: after)) := by
  cases rest with
  | nil => simp only [Json.renderMembers, List.append_assoc, List.cons_append]
  | cons next others =>
      simp only [Json.renderMembers, List.append_assoc, List.cons_append]

theorem endsNumber_cons (char : Char) (rest : List Char) (plain : ¬ continuesNumber char) :
    EndsNumber (char :: rest) := by
  intro other found
  cases Option.some.inj found
  exact plain

mutual

/-- A value is read back, whatever is behind it. -/
theorem readValue_render (value : Json) (numbered : value.Numbered) (fuel depth : Nat)
    (rest : List Char) (enough : 4 * value.render.length ≤ fuel) (nested : value.nesting ≤ depth)
    (ends : EndsNumber rest) :
    readValue fuel depth (value.render ++ rest) = some (value.coerced, rest) := by
  obtain ⟨first, tail, rendered, visible, _⟩ := value.render_head numbered
  have nonempty : 1 ≤ value.render.length := by
    rw [rendered, List.length_cons]
    omega
  obtain ⟨fuel, rfl⟩ := Nat.exists_eq_succ_of_ne_zero (by omega : fuel ≠ 0)
  have start : skipSpace (value.render ++ rest) = value.render ++ rest := by
    rw [rendered, List.cons_append, skipSpace_cons _ _ visible]
  rw [readValue, start]
  cases value with
  | null => rfl
  | bool value => cases value <;> rfl
  | number literal =>
      simp only [Json.Numbered] at numbered
      obtain ⟨char, others, rfl, head⟩ := validNumber_head literal numbered
      obtain ⟨_, notQuote, notArray, _, notObject, notNull, notTrue, notFalse⟩ :=
        number_head_plain char head
      have scanned := scanNumber_append (char :: others) .start rest ends numbered
      simp only [Json.render, List.cons_append] at scanned ⊢
      simp only [if_neg notQuote, if_neg notArray, if_neg notObject, if_neg notNull,
        if_neg notTrue, if_neg notFalse, scanned, Option.bind_eq_bind, Option.bind_some,
        Json.coerced]
  | string text =>
      obtain ⟨behind, split, read⟩ := readString_renderString text rest
      simp only [Json.render, split, if_true, read, Option.bind_eq_bind, Option.bind_some,
        Json.coerced]
      rfl
  | array items =>
      simp only [Json.nesting] at nested
      obtain ⟨depth, rfl⟩ := Nat.exists_eq_succ_of_ne_zero (by omega : depth ≠ 0)
      simp only [Json.render, List.length_append, List.length_cons, List.length_nil] at enough
      obtain ⟨fuel, rfl⟩ := Nat.exists_eq_succ_of_ne_zero (by omega : fuel ≠ 0)
      simp only [Json.Numbered] at numbered
      simp only [Json.render, List.cons_append, List.append_assoc, List.nil_append, Json.coerced,
        if_true]
      rw [if_neg (by decide)]
      cases items with
      | nil =>
          rw [Json.renderItems, List.nil_append, skipSpace_cons _ _ (by decide), readArray,
            List.head?_cons, if_pos rfl, List.tail_cons, Json.coercedItems]
      | cons item others =>
          have read := readItems_render (item :: others) (by simp) numbered fuel depth rest
            (by omega) (by omega)
          obtain ⟨char, behind, itemRendered, itemVisible, notClose⟩ :=
            item.render_head (by simp only [Json.NumberedItems] at numbered; exact numbered.1)
          have opening : ∃ more, Json.renderItems (item :: others) ++ ']' :: rest =
              char :: more := by
            rw [Json.renderItems_cons, itemRendered]
            exact ⟨_, rfl⟩
          obtain ⟨more, opening⟩ := opening
          have notClosing : ¬ (char :: more).head? = some ']' := fun same =>
            notClose (Option.some.inj same)
          rw [opening] at read ⊢
          rw [skipSpace_cons _ _ itemVisible, readArray, if_neg notClosing, read]
          rfl
  | object members =>
      simp only [Json.nesting] at nested
      obtain ⟨depth, rfl⟩ := Nat.exists_eq_succ_of_ne_zero (by omega : depth ≠ 0)
      simp only [Json.render, List.length_append, List.length_cons, List.length_nil] at enough
      obtain ⟨fuel, rfl⟩ := Nat.exists_eq_succ_of_ne_zero (by omega : fuel ≠ 0)
      simp only [Json.Numbered] at numbered
      simp only [Json.render, List.cons_append, List.append_assoc, List.nil_append, Json.coerced,
        if_true]
      rw [if_neg (by decide), if_neg (by decide)]
      cases members with
      | nil =>
          rw [Json.renderMembers, List.nil_append, skipSpace_cons _ _ (by decide), readObject,
            List.head?_cons, if_pos rfl, List.tail_cons, Json.coercedMembers]
      | cons member others =>
          have read := readMembers_render (member :: others) (by simp) numbered fuel depth rest
            (by omega) (by omega)
          obtain ⟨key, value⟩ := member
          have opening : ∃ more, Json.renderMembers ((key, value) :: others) ++ '\x7d' :: rest =
              '"' :: more := by
            rw [Json.renderMembers_cons, renderString]
            exact ⟨_, rfl⟩
          obtain ⟨more, opening⟩ := opening
          rw [opening] at read ⊢
          rw [skipSpace_cons _ _ (by decide), readObject, if_neg (by simp), read]
          rfl

theorem readItems_render (items : List Json) (nonempty : items ≠ [])
    (numbered : Json.NumberedItems items) (fuel depth : Nat) (rest : List Char)
    (enough : 4 * (Json.renderItems items).length + 1 ≤ fuel)
    (nested : Json.nestingItems items ≤ depth) :
    readItems fuel depth (Json.renderItems items ++ ']' :: rest) =
      some (Json.coercedItems items, rest) := by
  obtain ⟨fuel, rfl⟩ := Nat.exists_eq_succ_of_ne_zero (by omega : fuel ≠ 0)
  cases items with
  | nil => exact absurd rfl nonempty
  | cons item others =>
      simp only [Json.NumberedItems] at numbered
      simp only [Json.nestingItems] at nested
      rw [Json.renderItems_cons, readItems]
      cases others with
      | nil =>
          simp only [Json.renderItems] at enough
          rw [readValue_render item numbered.1 fuel depth (']' :: rest) (by omega) (by omega)
            (endsNumber_cons _ _ (by decide))]
          simp only [Option.bind_eq_bind, Option.bind_some]
          rw [skipSpace_cons _ _ (by decide)]
          simp only [Json.coercedItems]
          rfl
      | cons next others =>
          simp only [Json.renderItems, List.length_append, List.length_cons] at enough
          rw [readValue_render item numbered.1 fuel depth _ (by omega) (by omega)
            (endsNumber_cons _ _ (by decide))]
          simp only [Option.bind_eq_bind, Option.bind_some]
          rw [skipSpace_cons _ _ (by decide)]
          simp only [if_true]
          rw [readItems_render (next :: others) (by simp) numbered.2 fuel depth rest (by omega)
            (by omega)]
          simp only [Json.coercedItems, Option.bind_some]

theorem readMembers_render (members : List (Bytes × Json)) (nonempty : members ≠ [])
    (numbered : Json.NumberedMembers members) (fuel depth : Nat) (rest : List Char)
    (enough : 4 * (Json.renderMembers members).length + 1 ≤ fuel)
    (nested : Json.nestingMembers members ≤ depth) :
    readMembers fuel depth (Json.renderMembers members ++ '\x7d' :: rest) =
      some (Json.coercedMembers members, rest) := by
  obtain ⟨fuel, rfl⟩ := Nat.exists_eq_succ_of_ne_zero (by omega : fuel ≠ 0)
  cases members with
  | nil => exact absurd rfl nonempty
  | cons member others =>
      obtain ⟨key, value⟩ := member
      simp only [Json.NumberedMembers] at numbered
      simp only [Json.nestingMembers] at nested
      have enoughValue : 4 * value.render.length + 2 ≤ fuel := by
        cases others with
        | nil =>
            simp only [Json.renderMembers, List.length_append, List.length_cons] at enough
            omega
        | cons next others =>
            simp only [Json.renderMembers, List.length_append, List.length_cons] at enough
            omega
      obtain ⟨inner, rfl⟩ := Nat.exists_eq_succ_of_ne_zero (by omega : fuel ≠ 0)
      have read (behind : List Char) (ends : EndsNumber behind) :
          readMember (inner + 1) depth (renderString key ++ ':' :: (value.render ++ behind)) =
            some ((coerce key, value.coerced), behind) := by
        obtain ⟨tail, split, readKey⟩ :=
          readString_renderString key (':' :: (value.render ++ behind))
        rw [readMember, split, skipSpace_cons _ _ (by decide)]
        simp only [if_true, readKey, Option.bind_eq_bind, Option.bind_some]
        rw [skipSpace_cons _ _ (by decide)]
        simp only [if_true]
        rw [readValue_render value numbered.1 inner depth behind (by omega) (by omega) ends]
        rfl
      rw [Json.renderMembers_cons, readMembers]
      cases others with
      | nil =>
          rw [read _ (endsNumber_cons _ _ (by decide))]
          simp only [Option.bind_eq_bind, Option.bind_some]
          rw [skipSpace_cons _ _ (by decide)]
          simp only [Json.coercedMembers]
          rfl
      | cons next others =>
          simp only [Json.renderMembers, List.length_append, List.length_cons] at enough
          rw [read _ (endsNumber_cons _ _ (by decide))]
          simp only [Option.bind_eq_bind, Option.bind_some]
          rw [skipSpace_cons _ _ (by decide)]
          simp only [if_true]
          rw [readMembers_render (next :: others) (by simp) numbered.2 (inner + 1) depth rest
            (by omega) (by omega)]
          simp only [Json.coercedMembers, Option.bind_some]

end

/-- A document is read back with its strings made well-formed. -/
theorem parseText_render (value : Json) (numbered : value.Numbered)
    (nested : value.nesting ≤ maxNesting) : parseText value.render = some value.coerced := by
  have read := readValue_render value numbered (4 * value.render.length + 1) maxNesting []
    (by omega) nested (by intro char none; exact absurd none (by simp))
  rw [List.append_nil] at read
  rw [parseText, read]
  rfl

end Pantheon.Lib
