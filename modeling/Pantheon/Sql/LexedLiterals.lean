import Mathlib
import Pantheon.Lib.Lines
import Pantheon.Sql.Decimal
import Pantheon.Sql.Eval
import Pantheon.Sql.Lexer

/-!
# What literals denote

A quoted string or name is read byte by byte, so every character beyond ASCII comes
back as several.  The digits of a negative integer are read before its sign, so the
least `i64`, whose digits are no `i64`, cannot be written.
-/

set_option autoImplicit false

namespace Pantheon.Sql

open Pantheon.Lib

/-! ## Characters and bytes -/

def AsciiChar (char : Char) : Prop := char.toNat < 128

def Ascii (text : String) : Prop := ∀ char ∈ text.toList, AsciiChar char

instance (char : Char) : Decidable (AsciiChar char) := inferInstanceAs (Decidable (_ < _))

instance (text : String) : Decidable (Ascii text) := inferInstanceAs (Decidable (∀ _ ∈ _, _))

variable {char : Char} {value : Int}

theorem utf8EncodeChar_charByte (ascii : AsciiChar char) :
    String.utf8EncodeChar char = [Lexer.charByte char] :=
  utf8EncodeChar_ascii ascii

theorem byteChar_charByte (ascii : AsciiChar char) :
    Lexer.byteChar (Lexer.charByte char) = char := by
  have small : char.toNat < 128 := ascii
  have exact : (Lexer.charByte char).toNat = char.toNat := by
    rw [Lexer.charByte, UInt8.toNat_ofNat']
    omega
  rw [Lexer.byteChar, exact, Char.ofNat_toNat]

theorem two_le_length_utf8EncodeChar (beyond : ¬AsciiChar char) :
    2 ≤ (String.utf8EncodeChar char).length := by
  have large : 127 < char.val.toNat := by
    have bound : ¬char.val.toNat < 128 := beyond
    omega
  unfold String.utf8EncodeChar
  simp only []
  split_ifs with one two three
  · omega
  · exact le_rfl
  · exact Nat.le_succ 2
  · exact (Nat.le_succ 2).trans (Nat.le_succ 3)

def bytesAsChars (char : Char) : List Char := (String.utf8EncodeChar char).map Lexer.byteChar

theorem bytesAsChars_ascii (ascii : AsciiChar char) : bytesAsChars char = [char] := by
  rw [bytesAsChars, utf8EncodeChar_charByte ascii, List.map_cons, byteChar_charByte ascii]
  rfl

theorem flatMap_bytesAsChars_length (chars : List Char) :
    chars.length ≤ (chars.flatMap bytesAsChars).length := by
  induction chars with
  | nil => exact Nat.zero_le _
  | cons char chars ih =>
      have positive : 1 ≤ (bytesAsChars char).length := by
        by_cases ascii : AsciiChar char
        · rw [bytesAsChars_ascii ascii]
          exact le_rfl
        · rw [bytesAsChars, List.length_map]
          have several := two_le_length_utf8EncodeChar ascii
          omega
      rw [List.flatMap_cons, List.length_append, List.length_cons]
      omega

theorem flatMap_bytesAsChars_eq_iff (chars : List Char) :
    chars.flatMap bytesAsChars = chars ↔ ∀ char ∈ chars, AsciiChar char := by
  induction chars with
  | nil => simp
  | cons char chars ih =>
      by_cases ascii : AsciiChar char
      · rw [List.flatMap_cons, bytesAsChars_ascii ascii, List.singleton_append, List.cons.injEq, ih,
          List.forall_mem_cons]
        simp only [ascii, true_and]
      · have several := two_le_length_utf8EncodeChar ascii
        have others := flatMap_bytesAsChars_length chars
        constructor
        · intro same
          have lengths := congrArg List.length same
          rw [List.flatMap_cons, List.length_append, bytesAsChars, List.length_map,
            List.length_cons] at lengths
          omega
        · intro all
          exact absurd (all char (List.mem_cons_self ..)) ascii

/-! ## Quoted text -/

def doubled (quote : Char) (chars : List Char) : List Char :=
  chars.flatMap fun char => if char = quote then [quote, quote] else [char]

def quotedText (quote : Char) (text : String) : String :=
  String.ofList (quote :: (doubled quote text.toList ++ [quote]))

namespace Lexer

theorem readQuoted_plain {quote : UInt8} : ∀ (bytes rest : Bytes),
    (∀ byte ∈ bytes, byte ≠ quote) → rest ≠ [] →
    readQuoted quote (bytes ++ rest) =
      (readQuoted quote rest).map fun read => (bytes.map byteChar ++ read.1, read.2) := by
  intro bytes
  induction bytes with
  | nil =>
      intro rest _ _
      simp
  | cons byte bytes ih =>
      intro rest plain some_
      obtain ⟨here, others⟩ := List.forall_mem_cons.mp plain
      obtain ⟨next, more, behind⟩ : ∃ next more, bytes ++ rest = next :: more :=
        List.exists_cons_of_ne_nil (by simp [some_])
      have read := ih rest others some_
      rw [behind] at read
      rw [List.cons_append, behind, readQuoted, if_neg here, read, Option.map_map]
      rfl

theorem readQuoted_quote (quote : UInt8) (rest : Bytes) :
    readQuoted quote (quote :: quote :: rest) =
      (readQuoted quote rest).map fun read => (byteChar quote :: read.1, read.2) := by
  rw [readQuoted, if_pos rfl, if_pos rfl]

theorem readQuoted_doubled {quote : Char} (ascii : AsciiChar quote) (chars : List Char) :
    readQuoted (charByte quote)
        ((doubled quote chars).flatMap String.utf8EncodeChar ++ [charByte quote]) =
      some (chars.flatMap bytesAsChars, []) := by
  induction chars with
  | nil =>
      change readQuoted (charByte quote) [charByte quote] = _
      rw [readQuoted, if_pos rfl]
      rfl
  | cons char chars ih =>
      by_cases same : char = quote
      · subst same
        have twice : doubled char (char :: chars) = char :: char :: doubled char chars := by
          simp [doubled]
        rw [twice, List.flatMap_cons, List.flatMap_cons, utf8EncodeChar_charByte ascii,
          List.singleton_append, List.singleton_append, List.cons_append, List.cons_append,
          readQuoted_quote, ih, Option.map_some, List.flatMap_cons, bytesAsChars_ascii ascii,
          byteChar_charByte ascii]
        rfl
      · have once : doubled quote (char :: chars) = char :: doubled quote chars := by
          simp [doubled, same]
        have apart : ∀ byte ∈ String.utf8EncodeChar char, byte ≠ charByte quote := by
          intro byte member
          have small : (charByte quote).toNat = quote.toNat := by
            have bound : quote.toNat < 128 := ascii
            rw [charByte, UInt8.toNat_ofNat']
            omega
          by_cases asciiToo : AsciiChar char
          · rw [utf8EncodeChar_charByte asciiToo, List.mem_singleton] at member
            rw [member]
            intro equal
            apply same
            rw [← byteChar_charByte asciiToo, equal, byteChar_charByte ascii]
          · have large := utf8EncodeChar_above (Nat.le_of_not_lt asciiToo) byte member
            intro equal
            rw [equal, small] at large
            exact absurd ascii (Nat.not_lt.mpr large)
        rw [once, List.flatMap_cons, List.append_assoc, readQuoted_plain _ _ apart (by simp), ih,
          Option.map_some, List.flatMap_cons]
        rfl

theorem utf8Bytes_quotedText {quote : Char} (ascii : AsciiChar quote) (text : String) :
    utf8Bytes (quotedText quote text) = charByte quote ::
      ((doubled quote text.toList).flatMap String.utf8EncodeChar ++ [charByte quote]) := by
  rw [quotedText, utf8Bytes_ofList, List.flatMap_cons, List.flatMap_append,
    utf8EncodeChar_charByte ascii, List.singleton_append, List.flatMap_singleton,
    utf8EncodeChar_charByte ascii]

section

variable (parseFloat : String → Option F64)

theorem skipWhitespace_of_plain {byte : UInt8} (rest : Bytes) (visible : isWhitespace byte = false)
    (noLine : ¬(byte = charByte '-' ∧ nextIs '-' rest = true))
    (noBlock : ¬(byte = charByte '/' ∧ nextIs '*' rest = true)) :
    skipWhitespace (byte :: rest) = byte :: rest := by
  rw [skipWhitespace, skip, visible, if_neg (by decide), if_neg noLine, if_neg noBlock]

theorem tokensFrom_single {fuel : Nat} {bytes : Bytes} {token : Token} (notEnd : token ≠ .eof)
    (read : nextToken parseFloat bytes = .ok (token, [])) :
    tokensFrom parseFloat (fuel + 2) bytes = .ok [token, .eof] := by
  have last : tokensFrom parseFloat (fuel + 1) [] = .ok [.eof] := rfl
  rw [tokensFrom, read]
  simp only [bind, Except.bind, if_neg notEnd, last]

theorem tokenize_single {text : String} {first : UInt8} {rest : Bytes} {token : Token}
    (bytes : utf8Bytes text = first :: rest) (notEnd : token ≠ .eof)
    (read : nextToken parseFloat (first :: rest) = .ok (token, [])) :
    tokenize parseFloat text = .ok [token, .eof] := by
  rw [tokenize, bytes, List.length_cons]
  exact tokensFrom_single parseFloat notEnd read

theorem tokenize_quotedString (text : String) :
    tokenize parseFloat (quotedText (byteChar apostrophe) text) =
      .ok [.stringLiteral (String.ofList (text.toList.flatMap bytesAsChars)), .eof] := by
  have ascii : AsciiChar (byteChar apostrophe) := by decide
  have same : charByte (byteChar apostrophe) = apostrophe := by decide
  have bytes := utf8Bytes_quotedText ascii text
  have content := readQuoted_doubled ascii text.toList
  rw [same] at bytes content
  refine tokenize_single parseFloat bytes (by simp) ?_
  rw [nextToken, skipWhitespace_of_plain _ (by decide) (fun both => absurd both.1 (by decide))
    (fun both => absurd both.1 (by decide))]
  simp only [readToken, if_true, readString, content]

theorem tokenize_quotedIdent (text : String) :
    tokenize parseFloat (quotedText (byteChar doubleQuote) text) =
      .ok [.ident (String.ofList (text.toList.flatMap bytesAsChars)), .eof] := by
  have ascii : AsciiChar (byteChar doubleQuote) := by decide
  have same : charByte (byteChar doubleQuote) = doubleQuote := by decide
  have other : doubleQuote ≠ apostrophe := by decide
  have bytes := utf8Bytes_quotedText ascii text
  have content := readQuoted_doubled ascii text.toList
  rw [same] at bytes content
  refine tokenize_single parseFloat bytes (by simp) ?_
  rw [nextToken, skipWhitespace_of_plain _ (by decide) (fun both => absurd both.1 (by decide))
    (fun both => absurd both.1 (by decide))]
  simp only [readToken, if_neg other, if_true, readQuotedIdent, content]

end

end Lexer

theorem ofList_eq_iff (chars : List Char) (text : String) :
    String.ofList chars = text ↔ chars = text.toList := by
  rw [← String.toList_inj, String.toList_ofList]

theorem readBack_iff (text : String) :
    String.ofList (text.toList.flatMap bytesAsChars) = text ↔ Ascii text := by
  rw [ofList_eq_iff, flatMap_bytesAsChars_eq_iff]
  rfl

/-! ## Integers -/

theorem asciiChar_of_isDigit (digit : char.isDigit = true) : AsciiChar char := by
  simp only [Char.isDigit, Bool.and_eq_true, decide_eq_true_eq] at digit
  have upper : char.val.toNat ≤ 57 := digit.2
  unfold AsciiChar Char.toNat
  omega

theorem isDigit_charByte (digit : char.isDigit = true) :
    Lexer.isDigit (Lexer.charByte char) = true := by
  have ascii : char.toNat < 128 := asciiChar_of_isDigit digit
  simp only [Char.isDigit, Bool.and_eq_true, decide_eq_true_eq] at digit
  have lower : 48 ≤ char.toNat := digit.1
  have upper : char.toNat ≤ 57 := digit.2
  have exact : (Lexer.charByte char).toNat = char.toNat := by
    rw [Lexer.charByte, UInt8.toNat_ofNat']
    omega
  simp only [Lexer.isDigit, decide_eq_true_eq, UInt8.le_iff_toNat_le, exact]
  exact ⟨lower, upper⟩

theorem flatMap_utf8EncodeChar_ascii {chars : List Char}
    (ascii : ∀ char ∈ chars, AsciiChar char) :
    chars.flatMap String.utf8EncodeChar = chars.map Lexer.charByte := by
  induction chars with
  | nil => rfl
  | cons char chars ih =>
      obtain ⟨here, others⟩ := List.forall_mem_cons.mp ascii
      rw [List.flatMap_cons, utf8EncodeChar_charByte here, ih others]
      rfl

def digitBytes (number : Nat) : Bytes := (Nat.toDigits 10 number).map Lexer.charByte

theorem isDigit_digitBytes (number : Nat) :
    ∀ byte ∈ digitBytes number, Lexer.isDigit byte = true := by
  intro byte member
  obtain ⟨char, listed, rfl⟩ := List.mem_map.mp member
  exact isDigit_charByte (Nat.isDigit_of_mem_toDigits (by decide) (by decide) listed)

theorem exists_digitBytes (number : Nat) : ∃ first rest, digitBytes number = first :: rest :=
  List.exists_cons_of_ne_nil (by simp [digitBytes, Nat.toDigits_ne_nil])

theorem flatMap_toDigits (number : Nat) :
    (Nat.toDigits 10 number).flatMap String.utf8EncodeChar = digitBytes number :=
  flatMap_utf8EncodeChar_ascii fun _ member =>
    asciiChar_of_isDigit (Nat.isDigit_of_mem_toDigits (by decide) (by decide) member)

theorem utf8Bytes_repr (number : Nat) : utf8Bytes number.repr = digitBytes number := by
  rw [← String.ofList_toList (s := number.repr), utf8Bytes_ofList, Nat.toList_repr, flatMap_toDigits]

theorem utf8Bytes_negSucc (number : Nat) :
    utf8Bytes (toString (Int.negSucc number)) =
      Lexer.charByte '-' :: digitBytes (number + 1) := by
  have written : (toString (Int.negSucc number)) =
      String.ofList ('-' :: Nat.toDigits 10 (number + 1)) := by
    rw [eq_comm, ofList_eq_iff]
    change _ = ("-" ++ (number + 1).repr).toList
    rw [String.toList_append, Nat.toList_repr]
    rfl
  rw [written, utf8Bytes_ofList, List.flatMap_cons, flatMap_toDigits]
  rfl

namespace Lexer

theorem asciiText_digitBytes (number : Nat) : asciiText (digitBytes number) = number.repr := by
  have back : (digitBytes number).map byteChar = Nat.toDigits 10 number := by
    rw [digitBytes, List.map_map]
    refine (List.map_congr_left fun char member => ?_).trans (List.map_id _)
    exact byteChar_charByte
      (asciiChar_of_isDigit (Nat.isDigit_of_mem_toDigits (by decide) (by decide) member))
  rw [asciiText, back, ofList_eq_iff, Nat.toList_repr]

theorem spanNumber_digits : ∀ bytes : Bytes, (∀ byte ∈ bytes, isDigit byte = true) →
    spanNumber false false false bytes = (bytes, [], false) := by
  intro bytes
  induction bytes with
  | nil =>
      intro _
      rfl
  | cons byte bytes ih =>
      intro digits
      obtain ⟨here, others⟩ := List.forall_mem_cons.mp digits
      simp only [spanNumber, Bool.false_eq_true, false_and, if_false, here, if_true, ih others]

section

variable (parseFloat : String → Option F64)

theorem parseI64_repr (number : Nat) : parseI64 number.repr = checkI64 number := by
  rw [parseI64_of_digits Nat.toList_repr fun digit member =>
    Nat.isDigit_of_mem_toDigits (by decide) (by decide) member, parseDigits_toDigits,
    Option.bind_some]

def numberToken (number : Nat) : Except String (Token × Bytes) :=
  match checkI64 number with
  | some value => .ok (.intLiteral value, [])
  | none => .error "number too large to fit in target type"

theorem nextToken_digitBytes (number : Nat) :
    nextToken parseFloat (digitBytes number) = numberToken number := by
  obtain ⟨first, rest, listed⟩ := exists_digitBytes number
  have digits := isDigit_digitBytes number
  have digit : isDigit first = true := digits first (by rw [listed]; exact List.mem_cons_self ..)
  have read : readNumber parseFloat (digitBytes number) = numberToken number := by
    rw [numberToken]
    cases fits : checkI64 number with
    | some value | none =>
        simp only [readNumber, spanNumber_digits _ digits, Bool.false_eq_true, if_false,
          asciiText_digitBytes, parseI64_repr, fits]
  have noQuote : ∀ byte : UInt8, isDigit byte = true →
      byte ≠ apostrophe ∧ byte ≠ doubleQuote ∧ byte ≠ charByte '-' ∧ byte ≠ charByte '/' ∧
        isWhitespace byte = false := by
    decide +kernel
  obtain ⟨notApostrophe, notQuote, notMinus, notSlash, visible⟩ := noQuote first digit
  rw [listed] at read ⊢
  rw [nextToken, skipWhitespace_of_plain _ visible (fun both => notMinus both.1)
    (fun both => notSlash both.1)]
  simp only [readToken, if_neg notApostrophe, if_neg notQuote, digit, true_or, if_true, read]

theorem nextToken_minus (number : Nat) :
    nextToken parseFloat (charByte '-' :: digitBytes number) =
      .ok (.minus, digitBytes number) := by
  obtain ⟨first, rest, listed⟩ := exists_digitBytes number
  have digit : isDigit first = true :=
    isDigit_digitBytes number first (by rw [listed]; exact List.mem_cons_self ..)
  have noSymbol : ∀ byte : UInt8, isDigit byte = true →
      (some byte == some (charByte '-')) = false ∧ (some byte == some (charByte '>')) = false := by
    decide +kernel
  obtain ⟨notMinus, notArrow⟩ := noSymbol first digit
  have dash : nextIs '-' (digitBytes number) = false := by
    rw [listed]
    exact notMinus
  have arrow : nextIs '>' (digitBytes number) = false := by
    rw [listed]
    exact notArrow
  have symbol : readToken parseFloat (charByte '-') (digitBytes number) =
      readSymbol (charByte '-') (digitBytes number) := by
    rw [readToken, if_neg (by decide), if_neg (by decide),
      if_neg (fun either => either.elim (by decide) (fun both => absurd both.1 (by decide))),
      if_neg (fun both => absurd both.1 (by decide)), if_neg (by decide)]
  have minus : readSymbol (charByte '-') (digitBytes number) = .ok (.minus, digitBytes number) := by
    have char : byteChar (charByte '-') = '-' := by decide
    simp only [readSymbol, char, arrow, Bool.false_eq_true, if_false]
  rw [nextToken, skipWhitespace_of_plain _ (by decide) (by rw [dash]; simp)
    (fun both => absurd both.1 (by decide))]
  simp only [symbol, minus]

/-- The tokens of a sign, if there is one, and the digits of a number. -/
def numberTokens (sign : List Token) (number : Nat) : Except String (List Token) :=
  match checkI64 number with
  | some value => .ok (sign ++ [.intLiteral value, .eof])
  | none => .error "number too large to fit in target type"

theorem tokenize_repr (number : Nat) :
    tokenize parseFloat number.repr = numberTokens [] number := by
  rw [numberTokens]
  have bytes := utf8Bytes_repr number
  have read := nextToken_digitBytes parseFloat number
  obtain ⟨first, rest, listed⟩ := exists_digitBytes number
  rw [listed] at bytes read
  cases fits : checkI64 number with
  | some value =>
      rw [numberToken, fits] at read
      exact tokenize_single parseFloat bytes (by simp) read
  | none =>
      rw [numberToken, fits] at read
      rw [tokenize, bytes, tokensFrom, read]
      rfl

theorem tokenize_negSucc (number : Nat) :
    tokenize parseFloat (toString (Int.negSucc number)) =
      numberTokens [.minus] (number + 1) := by
  rw [numberTokens]
  have read := nextToken_digitBytes parseFloat (number + 1)
  obtain ⟨first, rest, listed⟩ := exists_digitBytes (number + 1)
  have unfolded : tokenize parseFloat (toString (Int.negSucc number)) =
      (tokensFrom parseFloat (rest.length + 2) (digitBytes (number + 1))).map (.minus :: ·) := by
    rw [tokenize, utf8Bytes_negSucc, tokensFrom, nextToken_minus, List.length_cons, listed]
    simp only [bind, Except.bind, reduceCtorEq, if_false, List.length_cons]
    cases tokensFrom parseFloat (rest.length + 2) (first :: rest) <;> rfl
  rw [unfolded]
  cases fits : checkI64 (number + 1 : Nat) with
  | some value =>
      rw [numberToken, fits] at read
      rw [tokensFrom_single parseFloat (by simp) read]
      rfl
  | none =>
      rw [numberToken, fits] at read
      rw [tokensFrom, read]
      rfl

end

end Lexer

/-! ## What is denoted -/

/-- `parse_expr_text`. -/
def parseExprText (parseFloat : String → Option F64) (grammar : Grammar) (fuel : Nat)
    (text : String) : Except String Expr := do
  let tokens ← Lexer.tokenize parseFloat text
  let (expr, _) ← grammar.parseExpr fuel 0 tokens
  .ok expr

section

variable (parseFloat : String → Option F64) (grammar : Grammar) (fuel : Nat)

theorem parseExpr_int (value : Int) :
    grammar.parseExpr (fuel + 2) 0 [.intLiteral value, .eof] =
      .ok (.literal (.int value), [.eof]) := rfl

theorem parseExpr_minus_int (value : Int) :
    grammar.parseExpr (fuel + 2) 0 [.minus, .intLiteral value, .eof] =
      .ok (.unaryOp .neg (.literal (.int value)), [.eof]) := rfl

theorem checkI64_eq_none (beyond : 2 ^ 63 ≤ value) : checkI64 value = none := by
  rw [checkI64, if_neg]
  unfold i64Min i64Max
  omega

theorem wrapI64_of_range (lower : -2 ^ 63 ≤ value) (upper : value < 2 ^ 63) :
    wrapI64 value = value := by
  unfold wrapI64
  omega

theorem parseExprText_toString (lib : Library) (ctx : RowContext)
    (lower : -2 ^ 63 ≤ value) (upper : value < 2 ^ 63) :
    (∃ expr, parseExprText parseFloat grammar (fuel + 2) (toString value) = .ok expr ∧
        eval lib ctx expr = .ok (.int value)) ↔ value ≠ -2 ^ 63 := by
  cases value with
  | ofNat number =>
      have small : (number : Int) < 2 ^ 63 := upper
      have fits : checkI64 number = some (number : Int) :=
        checkI64_of_range (by omega) small
      have tokens := Lexer.tokenize_repr parseFloat number
      rw [Lexer.numberTokens, fits] at tokens
      have parsed : parseExprText parseFloat grammar (fuel + 2) number.repr =
          .ok (.literal (.int number)) := by
        rw [parseExprText, tokens]
        simp only [bind, Except.bind, List.nil_append, parseExpr_int]
      constructor
      · intro _
        exact Int.ne_of_gt (lt_of_lt_of_le (by decide) (Int.natCast_nonneg number))
      · intro _
        refine ⟨_, parsed, ?_⟩
        rw [eval]
        rfl
  | negSucc number =>
      have tokens := Lexer.tokenize_negSucc parseFloat number
      have negated : Int.negSucc number = -((number + 1 : Nat) : Int) := rfl
      by_cases least : number + 1 = 2 ^ 63
      · have beyond : checkI64 (number + 1 : Nat) = none := checkI64_eq_none (by omega)
        rw [Lexer.numberTokens, beyond] at tokens
        constructor
        · rintro ⟨expr, parsed, _⟩
          rw [parseExprText, tokens] at parsed
          simp only [bind, Except.bind, reduceCtorEq] at parsed
        · intro other
          exact absurd (by rw [negated, least]; rfl) other
      · have fits : checkI64 (number + 1 : Nat) = some ((number + 1 : Nat) : Int) :=
          checkI64_of_range (by omega) (by omega)
        rw [Lexer.numberTokens, fits] at tokens
        have parsed : parseExprText parseFloat grammar (fuel + 2) (toString (Int.negSucc number)) =
            .ok (.unaryOp .neg (.literal (.int (number + 1 : Nat)))) := by
          rw [parseExprText, tokens]
          simp only [bind, Except.bind, List.singleton_append, parseExpr_minus_int]
        have valued : eval lib ctx (.unaryOp .neg (.literal (.int (number + 1 : Nat)))) =
            .ok (.int (wrapI64 (-((number + 1 : Nat) : Int)))) := by
          rw [eval, eval]
          rfl
        rw [wrapI64_of_range (by omega) (by omega)] at valued
        constructor
        · intro _
          omega
        · intro _
          exact ⟨_, parsed, valued⟩

/-- A quoted text, as a string or a name, is read back as it was exactly if it is ASCII,
and an `i64` in decimal exactly if it is not the least. -/
theorem literals_denote_iff (lib : Library) (ctx : RowContext) :
    (∀ text : String,
      (Lexer.tokenize parseFloat (quotedText (Lexer.byteChar Lexer.apostrophe) text) =
        .ok [.stringLiteral text, .eof] ↔ Ascii text)) ∧
    (∀ text : String,
      (Lexer.tokenize parseFloat (quotedText (Lexer.byteChar Lexer.doubleQuote) text) =
        .ok [.ident text, .eof] ↔ Ascii text)) ∧
    ∀ value : Int64,
      ((∃ expr, parseExprText parseFloat grammar (fuel + 2) (toString value.toInt) = .ok expr ∧
          eval lib ctx expr = .ok (.int value.toInt)) ↔ value ≠ Int64.minValue) := by
  refine ⟨fun text => ?_, fun text => ?_, fun value => ?_⟩
  · rw [Lexer.tokenize_quotedString, ← readBack_iff]
    simp
  · rw [Lexer.tokenize_quotedIdent, ← readBack_iff]
    simp
  · rw [parseExprText_toString parseFloat grammar fuel lib ctx value.le_toInt value.toInt_lt,
      ne_eq, ne_eq, ← Int64.toInt_inj, Int64.toInt_minValue]

/-- An accented letter comes back as two characters, and the least `i64` is refused. -/
theorem accented_letter_changes :
    Lexer.tokenize (fun _ => none) "'é'" = .ok [.stringLiteral "Ã©", .eof] ∧
      "Ã©" ≠ "é" ∧
    Lexer.tokenize (fun _ => none) "-9223372036854775808" =
      .error "number too large to fit in target type" := by
  refine ⟨?_, by decide, ?_⟩
  · exact Lexer.tokenize_quotedString (fun _ => none) "é"
  · exact Lexer.tokenize_negSucc (fun _ => none) (2 ^ 63 - 1)

end

end Pantheon.Sql
