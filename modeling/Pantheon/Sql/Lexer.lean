import Mathlib
import Pantheon.Lib.Utf8
import Pantheon.Sql.Parser
import Pantheon.Sql.Value

/-!
# Tokens of a text: `sql/lexer.rs`

The lexer walks over the bytes of the text.  Spaces and comments before a token are
skipped; a quoted string or name is taken byte by byte, each as a character of its own;
a number is read as an `i64` unless it has a point or an exponent.  A word or symbol that
no expression contains is `other`.
-/

set_option autoImplicit false

namespace Pantheon.Sql

open Pantheon.Lib

namespace Lexer

/-- `b as char`. -/
def byteChar (byte : UInt8) : Char := Char.ofNat byte.toNat

def charByte (char : Char) : UInt8 := UInt8.ofNat char.toNat

def apostrophe : UInt8 := 39

def doubleQuote : UInt8 := 34

def nextIs (char : Char) (bytes : Bytes) : Bool := bytes.head? == some (charByte char)

def isWhitespace (byte : UInt8) : Bool := [9, 10, 12, 13, 32].contains byte

def isDigit (byte : UInt8) : Bool := decide (48 ≤ byte ∧ byte ≤ 57)

def isAlphabetic (byte : UInt8) : Bool :=
  decide (65 ≤ byte ∧ byte ≤ 90) || decide (97 ≤ byte ∧ byte ≤ 122)

/-! ## Spaces and comments -/

/-- Where the skipping stands: between tokens, in a line comment, behind the slash of an
opening, in a block comment, and behind the star of a closing. -/
inductive Skipping where
  | between
  | line
  | opening
  | block
  | closing

/-- `skip_whitespace`: a comment without an end reaches to the end of the text. -/
def skip : Skipping → Bytes → Bytes
  | _, [] => []
  | .between, byte :: rest =>
      if isWhitespace byte then skip .between rest
      else if byte = charByte '-' ∧ nextIs '-' rest then skip .line rest
      else if byte = charByte '/' ∧ nextIs '*' rest then skip .opening rest
      else byte :: rest
  | .line, byte :: rest => if byte = 10 then skip .between rest else skip .line rest
  | .opening, _ :: rest => skip .block rest
  | .block, byte :: rest =>
      if byte = charByte '*' ∧ nextIs '/' rest then skip .closing rest else skip .block rest
  | .closing, _ :: rest => skip .between rest

def skipWhitespace (bytes : Bytes) : Bytes := skip .between bytes

/-! ## Literals and words -/

def readQuoted (quote : UInt8) : Bytes → Option (List Char × Bytes)
  | [] => none
  | [byte] => if byte = quote then some ([], []) else none
  | byte :: next :: rest =>
      if byte = quote then
        if next = quote then (readQuoted quote rest).map fun read => (byteChar quote :: read.1, read.2)
        else some ([], next :: rest)
      else (readQuoted quote (next :: rest)).map fun read => (byteChar byte :: read.1, read.2)

def readString (bytes : Bytes) : Except String (Token × Bytes) :=
  match readQuoted (apostrophe) bytes with
  | none => .error "unterminated string literal"
  | some (chars, rest) => .ok (.stringLiteral (String.ofList chars), rest)

def readQuotedIdent (bytes : Bytes) : Except String (Token × Bytes) :=
  match readQuoted (doubleQuote) bytes with
  | none => .error "unterminated quoted identifier"
  | some (chars, rest) => .ok (.ident (String.ofList chars), rest)

/-- The bytes of a number, what is behind them, and whether it is a float.  `sign` is set
behind the letter of an exponent. -/
def spanNumber : Bool → Bool → Bool → Bytes → Bytes × Bytes × Bool
  | hasDot, hasExp, _, [] => ([], [], hasDot || hasExp)
  | hasDot, hasExp, sign, byte :: rest =>
      let taken (read : Bytes × Bytes × Bool) : Bytes × Bytes × Bool := (byte :: read.1, read.2)
      if sign ∧ (byte = charByte '+' ∨ byte = charByte '-') then
        taken (spanNumber hasDot hasExp false rest)
      else if isDigit byte then taken (spanNumber hasDot hasExp false rest)
      else if byte = charByte '.' ∧ !hasDot ∧ !hasExp then taken (spanNumber true hasExp false rest)
      else if (byte = charByte 'e' ∨ byte = charByte 'E') ∧ !hasExp then
        taken (spanNumber hasDot true true rest)
      else ([], byte :: rest, hasDot || hasExp)

def asciiText (bytes : Bytes) : String := String.ofList (bytes.map byteChar)

section

variable (parseFloat : String → Option F64)

def readNumber (bytes : Bytes) : Except String (Token × Bytes) :=
  let (text, rest, isFloat) := spanNumber false false false bytes
  if isFloat then
    match parseFloat (asciiText text) with
    | some value => .ok (.floatLiteral value, rest)
    | none => .error "invalid float literal"
  else
    match parseI64 (asciiText text) with
    | some value => .ok (.intLiteral value, rest)
    | none => .error "number too large to fit in target type"

/-- `parse::<u32>().unwrap_or(0)`. -/
def parseU32 (text : String) : Nat :=
  match parseDigits text.toList with
  | some value => if value < 2 ^ 32 then value else 0
  | none => 0

def readDollar (bytes : Bytes) : Token × Bytes :=
  (.dollar (parseU32 (asciiText (bytes.takeWhile isDigit))), bytes.dropWhile isDigit)

def isWordByte (byte : UInt8) : Bool :=
  isAlphabetic byte || isDigit byte || byte == charByte '_' || byte == charByte '$'

def keywords : List (String × Token) :=
  [("SELECT", .select), ("FROM", .other "FROM"), ("WHERE", .other "WHERE"), ("AS", .as_),
    ("AND", .and), ("OR", .or), ("NOT", .not), ("NULL", .null), ("TRUE", .true_),
    ("FALSE", .false_), ("SET", .other "SET"), ("SHOW", .other "SHOW"), ("BEGIN", .other "BEGIN"),
    ("COMMIT", .other "COMMIT"), ("ROLLBACK", .other "ROLLBACK"), ("IS", .is), ("IN", .in_),
    ("LIKE", .like), ("BETWEEN", .between), ("LIMIT", .other "LIMIT"),
    ("OFFSET", .other "OFFSET"), ("ORDER", .order), ("BY", .by_), ("ASC", .asc), ("DESC", .desc),
    ("GROUP", .other "GROUP"), ("HAVING", .other "HAVING"), ("DISTINCT", .distinct),
    ("ALL", .other "ALL"), ("CASE", .case), ("WHEN", .when), ("THEN", .then_), ("ELSE", .else_),
    ("END", .end_), ("CAST", .cast), ("INTERVAL", .other "INTERVAL"), ("INSERT", .other "INSERT"),
    ("INTO", .other "INTO"), ("VALUES", .other "VALUES"), ("DELETE", .other "DELETE"),
    ("UPDATE", .other "UPDATE"), ("CREATE", .other "CREATE"), ("TABLE", .other "TABLE"),
    ("DROP", .other "DROP"), ("INDEX", .other "INDEX"), ("IF", .other "IF"), ("EXISTS", .exists),
    ("PRIMARY", .primary), ("KEY", .key), ("DEFAULT", .default), ("JOIN", .other "JOIN"),
    ("LEFT", .other "LEFT"), ("RIGHT", .other "RIGHT"), ("FULL", .other "FULL"),
    ("CROSS", .other "CROSS"), ("ON", .on_), ("WITH", .other "WITH"),
    ("RECURSIVE", .other "RECURSIVE"), ("UNION", .other "UNION"), ("OVER", .over_),
    ("PARTITION", .partition), ("ROWS", .rows), ("RANGE", .range), ("UNBOUNDED", .unbounded),
    ("PRECEDING", .preceding), ("FOLLOWING", .following), ("CURRENT", .current), ("ROW", .row),
    ("DECLARE", .other "DECLARE"), ("CURSOR", .other "CURSOR"), ("FOR", .other "FOR"),
    ("FETCH", .other "FETCH"), ("NEXT", .other "NEXT"), ("MOVE", .other "MOVE"),
    ("CLOSE", .other "CLOSE"), ("LISTEN", .other "LISTEN"), ("NOTIFY", .other "NOTIFY"),
    ("UNLISTEN", .other "UNLISTEN"), ("COPY", .other "COPY"), ("STDIN", .other "STDIN"),
    ("STDOUT", .other "STDOUT"), ("TO", .other "TO"), ("FUNCTION", .other "FUNCTION"),
    ("RETURNS", .other "RETURNS"), ("LANGUAGE", .other "LANGUAGE"), ("ALTER", .other "ALTER"),
    ("COLUMN", .other "COLUMN"), ("UNIQUE", .unique), ("REFERENCES", .references),
    ("FOREIGN", .other "FOREIGN"), ("SEQUENCE", .other "SEQUENCE"),
    ("INCREMENT", .other "INCREMENT"), ("START", .other "START"), ("TOPIC", .other "TOPIC"),
    ("ANALYZE", .other "ANALYZE"), ("COLLATE", .collate), ("OPERATOR", .operator),
    ("MATCH", .other "MATCH"), ("RETURN", .other "RETURN"), ("ROLE", .other "ROLE"),
    ("SUPERUSER", .other "SUPERUSER"), ("NOSUPERUSER", .other "NOSUPERUSER"),
    ("LOGIN", .other "LOGIN"), ("NOLOGIN", .other "NOLOGIN"), ("PASSWORD", .other "PASSWORD"),
    ("GRANT", .other "GRANT"), ("REVOKE", .other "REVOKE"), ("PRIVILEGES", .other "PRIVILEGES"),
    ("USAGE", .other "USAGE"), ("DATABASE", .other "DATABASE")]

def keywordOrIdent (text : String) : Token :=
  (keywords.lookup (String.ofList (text.toList.map Char.toUpper))).getD (.ident text)

def readIdentOrKeyword (bytes : Bytes) : Token × Bytes :=
  (keywordOrIdent (asciiText (bytes.takeWhile isWordByte)), bytes.dropWhile isWordByte)

/-! ## Symbols -/

/-- The token of a symbol and of the bytes behind it that belong to it. -/
def readSymbol (byte : UInt8) (rest : Bytes) : Except String (Token × Bytes) :=
  let unexpected : Except String (Token × Bytes) :=
    .error ("unexpected character: " ++ String.singleton (byteChar byte))
  match byteChar byte with
  | '*' => .ok (.star, rest)
  | '+' => .ok (.plus, rest)
  | '%' => .ok (.percent, rest)
  | ',' => .ok (.comma, rest)
  | '.' => .ok (.dot, rest)
  | ';' => .ok (.other ";", rest)
  | '(' => .ok (.lParen, rest)
  | ')' => .ok (.rParen, rest)
  | '[' => .ok (.lBracket, rest)
  | ']' => .ok (.rBracket, rest)
  | '/' => .ok (.slash, rest)
  | '=' => .ok (.eq, rest)
  | '!' =>
      if nextIs '=' rest then .ok (.notEq, rest.drop 1)
      else if nextIs '~' rest then
        if nextIs '*' (rest.drop 1) then .ok (.notTildeStar, rest.drop 2)
        else .ok (.notTilde, rest.drop 1)
      else unexpected
  | '<' =>
      if nextIs '=' rest then .ok (.lte, rest.drop 1)
      else if nextIs '>' rest then .ok (.notEq, rest.drop 1)
      else .ok (.lt, rest)
  | '>' => if nextIs '=' rest then .ok (.gte, rest.drop 1) else .ok (.gt, rest)
  | '-' =>
      if nextIs '>' rest then
        if nextIs '>' (rest.drop 1) then .ok (.longArrow, rest.drop 2)
        else .ok (.arrow, rest.drop 1)
      else .ok (.minus, rest)
  | '|' => if nextIs '|' rest then .ok (.concat, rest.drop 1) else unexpected
  | ':' => if nextIs ':' rest then .ok (.doubleColon, rest.drop 1) else .ok (.other ":", rest)
  | '@' => if nextIs '>' rest then .ok (.atArrow, rest.drop 1) else unexpected
  | '#' =>
      if nextIs '>' rest then
        if nextIs '>' (rest.drop 1) then .ok (.hashLongArrow, rest.drop 2)
        else .ok (.hashArrow, rest.drop 1)
      else unexpected
  | '~' => if nextIs '*' rest then .ok (.tildeStar, rest.drop 1) else .ok (.tilde, rest)
  | _ => unexpected

/-! ## The token list -/

def readToken (byte : UInt8) (rest : Bytes) : Except String (Token × Bytes) :=
  let nextDigit := (rest.head?.map isDigit).getD false
  if byte = apostrophe then readString rest
  else if byte = doubleQuote then readQuotedIdent rest
  else if isDigit byte ∨ byte = charByte '.' ∧ nextDigit then
    readNumber parseFloat (byte :: rest)
  else if byte = charByte '$' ∧ nextDigit then .ok (readDollar rest)
  else if isAlphabetic byte ∨ byte = charByte '_' then .ok (readIdentOrKeyword (byte :: rest))
  else readSymbol byte rest

def nextToken (bytes : Bytes) : Except String (Token × Bytes) :=
  match skipWhitespace bytes with
  | [] => .ok (.eof, [])
  | byte :: rest => readToken parseFloat byte rest

def tokensFrom : Nat → Bytes → Except String (List Token)
  | 0, _ => .error "out of fuel"
  | fuel + 1, bytes => do
      let (token, rest) ← nextToken parseFloat bytes
      if token = .eof then .ok [token]
      else do
        let tokens ← tokensFrom fuel rest
        .ok (token :: tokens)

/-- Every token but the last takes a byte, so there are no more of them than bytes. -/
def tokenize (text : String) : Except String (List Token) :=
  tokensFrom parseFloat ((utf8Bytes text).length + 1) (utf8Bytes text)

end

end Lexer

end Pantheon.Sql
