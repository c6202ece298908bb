import Mathlib
import Pantheon.Sql.Ast

/-!
# Parsing expressions and column definitions: `sql/parser.rs`

The parser reads a list of tokens; past the end it sees `Eof`.  `parseExpr` is a loop of
infix operators over `parseUnary`, and calls itself for operands and in parentheses.
The fuel bounds the depth of these calls and the length of the loops.

`parse_select` is a parameter: no expression is read inside it here.
-/

set_option autoImplicit false

namespace Pantheon.Sql

/-- The tokens that the expression grammar and the column definitions look at.  `other` is
any other token. -/
inductive Token where
  | intLiteral (value : Int)
  | floatLiteral (value : F64)
  | stringLiteral (value : String)
  | ident (name : String)
  | dollar (index : Nat)
  | select
  | distinct
  | and
  | or
  | not
  | null
  | true_
  | false_
  | is
  | in_
  | like
  | between
  | exists
  | case
  | when
  | then_
  | else_
  | end_
  | cast
  | as_
  | over_
  | partition
  | order
  | by_
  | asc
  | desc
  | rows
  | range
  | unbounded
  | preceding
  | following
  | current
  | row
  | collate
  | operator
  | primary
  | key
  | default
  | unique
  | references
  | on_
  | star
  | plus
  | minus
  | slash
  | percent
  | eq
  | notEq
  | lt
  | lte
  | gt
  | gte
  | concat
  | arrow
  | longArrow
  | hashArrow
  | hashLongArrow
  | atArrow
  | tilde
  | notTilde
  | tildeStar
  | notTildeStar
  | comma
  | dot
  | lParen
  | rParen
  | lBracket
  | rBracket
  | doubleColon
  | other (text : String)
  | eof
deriving DecidableEq

/-- `debugToken` is the token's `Debug` text, for errors. -/
structure Grammar where
  parseSelect : List Token → Except String (SelectStmt × List Token)
  debugToken : Token → String
  floatOfInt : Int → F64

/-- `parse_expr` with a minimal binding power: what was read, and the tokens behind it. -/
abbrev ParseExpr : Type := Nat → List Token → Except String (Expr × List Token)

def peek (tokens : List Token) : Token := tokens.headD .eof

def peek2 (tokens : List Token) : Token := peek (tokens.drop 1)

def eat (token : Token) (tokens : List Token) : Bool × List Token :=
  if peek tokens = token then (true, tokens.drop 1) else (false, tokens)

def outOfFuel {Result : Type} : Except String (Result × List Token) := .error "out of fuel"

/-- The binding powers to the left and to the right.  The words that begin a special case of
the loop count as comparisons. -/
def infixBp : Token → Option (Nat × Nat × BinOp)
  | .or => some (1, 2, .or)
  | .and => some (3, 4, .and)
  | .eq => some (5, 6, .eq)
  | .notEq => some (5, 6, .notEq)
  | .lt => some (5, 6, .lt)
  | .lte => some (5, 6, .lte)
  | .gt => some (5, 6, .gt)
  | .gte => some (5, 6, .gte)
  | .concat => some (7, 8, .concat)
  | .plus => some (9, 10, .add)
  | .minus => some (9, 10, .sub)
  | .star => some (11, 12, .mul)
  | .slash => some (11, 12, .div)
  | .percent => some (11, 12, .mod)
  | .arrow => some (13, 14, .arrow)
  | .longArrow => some (13, 14, .longArrow)
  | .hashArrow => some (13, 14, .hashArrow)
  | .hashLongArrow => some (13, 14, .hashLongArrow)
  | .atArrow => some (5, 6, .contains)
  | .tilde => some (5, 6, .regexMatch)
  | .notTilde => some (5, 6, .regexNotMatch)
  | .tildeStar => some (5, 6, .regexMatchCI)
  | .notTildeStar => some (5, 6, .regexNotMatchCI)
  | .is => some (5, 6, .eq)
  | .between => some (5, 6, .eq)
  | .like => some (5, 6, .eq)
  | .in_ => some (5, 6, .eq)
  | .not => some (5, 6, .eq)
  | .collate => some (5, 6, .eq)
  | .operator => some (5, 6, .eq)
  | _ => none

namespace Grammar

variable (grammar : Grammar)

def expected (token got : Token) : String :=
  "expected " ++ grammar.debugToken token ++ ", got " ++ grammar.debugToken got

def expect (token : Token) (tokens : List Token) : Except String (List Token) :=
  if peek tokens = token then .ok (tokens.drop 1)
  else .error (grammar.expected token (peek tokens))

def parseIdentString (tokens : List Token) : Except String (String × List Token) :=
  match peek tokens with
  | .ident name => .ok (name, tokens.drop 1)
  | other => .error ("expected identifier, got " ++ grammar.debugToken other)

def floatItems : List Token → Except String (List F64 × List Token)
  | .floatLiteral value :: .comma :: tokens => do
      let (items, tokens) ← floatItems tokens
      .ok (value :: items, tokens)
  | .floatLiteral value :: tokens => .ok ([value], tokens)
  | .intLiteral value :: .comma :: tokens => do
      let (items, tokens) ← floatItems tokens
      .ok (grammar.floatOfInt value :: items, tokens)
  | .intLiteral value :: tokens => .ok ([grammar.floatOfInt value], tokens)
  | tokens =>
      .error ("expected numeric element in float array literal, got " ++
        grammar.debugToken (peek tokens))

def parseFloatArrayLiteral (tokens : List Token) : Except String (Expr × List Token) := do
  let tokens ← grammar.expect .lBracket tokens
  let (items, tokens) ←
    if peek tokens = .rBracket then .ok ([], tokens) else grammar.floatItems tokens
  let tokens ← grammar.expect .rBracket tokens
  .ok (.literal (.floatArray items), tokens)

def parseExists (negated : Bool) (tokens : List Token) : Except String (Expr × List Token) := do
  let tokens ← grammar.expect .exists tokens
  let tokens ← grammar.expect .lParen tokens
  let (subquery, tokens) ← grammar.parseSelect tokens
  let tokens ← grammar.expect .rParen tokens
  .ok (.exists subquery negated, tokens)

section Calls

variable (self : ParseExpr)

def parseExprList : Nat → List Token → Except String (List Expr × List Token)
  | 0, _ => outOfFuel
  | fuel + 1, tokens => do
      let (first, tokens) ← self 0 tokens
      if peek tokens = .comma then do
        let (more, tokens) ← parseExprList fuel (tokens.drop 1)
        .ok (first :: more, tokens)
      else .ok ([first], tokens)

def parseOrderBy (tokens : List Token) : Except String (OrderBy × List Token) := do
  let (expr, tokens) ← self 0 tokens
  let (desc, tokens) := eat .desc tokens
  if desc then .ok (⟨expr, false⟩, tokens)
  else .ok (⟨expr, true⟩, (eat .asc tokens).2)

def parseOrderByList : Nat → List Token → Except String (List OrderBy × List Token)
  | 0, _ => outOfFuel
  | fuel + 1, tokens => do
      let (first, tokens) ← parseOrderBy self tokens
      if peek tokens = .comma then do
        let (more, tokens) ← parseOrderByList fuel (tokens.drop 1)
        .ok (first :: more, tokens)
      else .ok ([first], tokens)

def parseFrameBound (tokens : List Token) : Except String (FrameBound × List Token) :=
  let direction (preceding following : FrameBound) (tokens : List Token) :
      Except String (FrameBound × List Token) :=
    match peek tokens with
    | .preceding => .ok (preceding, tokens.drop 1)
    | .following => .ok (following, tokens.drop 1)
    | other => .error ("expected PRECEDING or FOLLOWING, got " ++ grammar.debugToken other)
  match peek tokens with
  | .unbounded =>
      direction ⟨.unboundedPreceding, none⟩ ⟨.unboundedFollowing, none⟩ (tokens.drop 1)
  | .current => do
      let tokens ← grammar.expect .row (tokens.drop 1)
      .ok (⟨.currentRow, none⟩, tokens)
  | _ => do
      let (offset, tokens) ← self 0 tokens
      direction ⟨.preceding, some offset⟩ ⟨.following, some offset⟩ tokens

def parseWindowFrame (tokens : List Token) : Except String (WindowFrame × List Token) := do
  let frameType ← match peek tokens with
    | .rows => .ok FrameType.rows
    | .range => .ok FrameType.range
    | other => .error ("expected ROWS or RANGE, got " ++ grammar.debugToken other)
  let (between, tokens) := eat .between (tokens.drop 1)
  let (start, tokens) ← grammar.parseFrameBound self tokens
  if between then do
    let tokens ← grammar.expect .and tokens
    let (stop, tokens) ← grammar.parseFrameBound self tokens
    .ok (⟨frameType, start, some stop⟩, tokens)
  else .ok (⟨frameType, start, none⟩, tokens)

def parseOverClause (fuel : Nat) (func : String) (args : List Expr) (tokens : List Token) :
    Except String (Expr × List Token) := do
  let tokens ← grammar.expect .over_ tokens
  let tokens ← grammar.expect .lParen tokens
  let (partitionBy, tokens) ←
    if peek tokens = .partition then do
      let tokens ← grammar.expect .by_ (tokens.drop 1)
      parseExprList self fuel tokens
    else .ok ([], tokens)
  let (orderBy, tokens) ←
    if peek tokens = .order ∧ peek2 tokens = .by_ then parseOrderByList self fuel (tokens.drop 2)
    else .ok ([], tokens)
  let (frame, tokens) ←
    if peek tokens = .rows ∨ peek tokens = .range then do
      let (frame, tokens) ← grammar.parseWindowFrame self tokens
      .ok (some frame, tokens)
    else .ok (none, tokens)
  let tokens ← grammar.expect .rParen tokens
  .ok (.window func args partitionBy orderBy frame, tokens)

/-- The arguments behind the opening parenthesis, and an OVER clause. -/
def parseCall (fuel : Nat) (name : String) (tokens : List Token) :
    Except String (Expr × List Token) := do
  let (distinct, tokens) := eat .distinct tokens
  let (args, tokens) ←
    if peek tokens = .star then .ok ([], tokens.drop 1)
    else if peek tokens = .rParen then .ok ([], tokens)
    else parseExprList self fuel tokens
  let tokens ← grammar.expect .rParen tokens
  if peek tokens = .over_ then grammar.parseOverClause self fuel name args tokens
  else .ok (.function name args distinct, tokens)

def parseBranches : Nat → List Token → Except String (List (Expr × Expr) × List Token)
  | 0, _ => outOfFuel
  | fuel + 1, tokens =>
      if peek tokens = .when then do
        let (condition, tokens) ← self 0 (tokens.drop 1)
        let tokens ← grammar.expect .then_ tokens
        let (result, tokens) ← self 0 tokens
        let (branches, tokens) ← parseBranches fuel tokens
        .ok ((condition, result) :: branches, tokens)
      else .ok ([], tokens)

def parseCase (fuel : Nat) (tokens : List Token) : Except String (Expr × List Token) := do
  let (operand, tokens) ←
    if peek tokens = .when then .ok (none, tokens)
    else do
      let (operand, tokens) ← self 0 tokens
      .ok (some operand, tokens)
  let (branches, tokens) ← grammar.parseBranches self fuel tokens
  let (else_, tokens) ←
    if peek tokens = .else_ then do
      let (result, tokens) ← self 0 (tokens.drop 1)
      .ok (some result, tokens)
    else .ok (none, tokens)
  let tokens ← grammar.expect .end_ tokens
  .ok (.case operand branches else_, tokens)

def parseCast (tokens : List Token) : Except String (Expr × List Token) := do
  let tokens ← grammar.expect .lParen tokens
  let (inner, tokens) ← self 0 tokens
  let (ty, tokens) ← grammar.parseIdentString (eat .as_ tokens).2
  let tokens ← grammar.expect .rParen tokens
  .ok (.cast inner ty, tokens)

/-- A name: a call, a qualified column, a qualified call or a column. -/
def parseName (fuel : Nat) (name : String) (tokens : List Token) :
    Except String (Expr × List Token) :=
  if peek tokens = .lParen then grammar.parseCall self fuel name (tokens.drop 1)
  else if peek tokens = .dot then do
    let (column, tokens) ← grammar.parseIdentString (tokens.drop 1)
    if peek tokens = .lParen then
      grammar.parseCall self fuel (name ++ "." ++ column) (tokens.drop 1)
    else .ok (.qualifiedIdent name column, tokens)
  else .ok (.ident name, tokens)

def parseAtom (fuel : Nat) (tokens : List Token) : Except String (Expr × List Token) :=
  match peek tokens with
  | .intLiteral value => .ok (.literal (.int value), tokens.drop 1)
  | .floatLiteral value => .ok (.literal (.float value), tokens.drop 1)
  | .stringLiteral value => .ok (.literal (.text value), tokens.drop 1)
  | .true_ => .ok (.literal (.bool true), tokens.drop 1)
  | .false_ => .ok (.literal (.bool false), tokens.drop 1)
  | .null => .ok (.literal .null, tokens.drop 1)
  | .lBracket => grammar.parseFloatArrayLiteral tokens
  | .dollar index => .ok (.param index, tokens.drop 1)
  | .lParen =>
      if peek2 tokens = .select then do
        let (subquery, tokens) ← grammar.parseSelect (tokens.drop 1)
        let tokens ← grammar.expect .rParen tokens
        .ok (.subquery subquery, tokens)
      else do
        let (expr, tokens) ← self 0 (tokens.drop 1)
        let tokens ← grammar.expect .rParen tokens
        .ok (expr, tokens)
  | .case => grammar.parseCase self fuel (tokens.drop 1)
  | .cast => grammar.parseCast self (tokens.drop 1)
  | .ident name => grammar.parseName self fuel name (tokens.drop 1)
  | other => .error ("unexpected token in expression: " ++ grammar.debugToken other)

def parseCasts (expr : Expr) : List Token → Except String (Expr × List Token)
  | .doubleColon :: .ident ty :: tokens => parseCasts (.cast expr ty) tokens
  | .doubleColon :: tokens =>
      .error ("expected identifier, got " ++ grammar.debugToken (peek tokens))
  | tokens => .ok (expr, tokens)

def parsePostfix (fuel : Nat) (tokens : List Token) : Except String (Expr × List Token) := do
  let (expr, tokens) ← grammar.parseAtom self fuel tokens
  grammar.parseCasts expr tokens

def parseUnary (fuel : Nat) : List Token → Except String (Expr × List Token)
  | .minus :: tokens => do
      let (expr, tokens) ← parseUnary fuel tokens
      .ok (.unaryOp .neg expr, tokens)
  | .plus :: tokens => parseUnary fuel tokens
  | .not :: tokens =>
      if peek tokens = .exists then grammar.parseExists true tokens
      else do
        let (expr, tokens) ← parseUnary fuel tokens
        .ok (.unaryOp .not expr, tokens)
  | .exists :: tokens => grammar.parseExists false (.exists :: tokens)
  | tokens => grammar.parsePostfix self fuel tokens

/-! ## The loop of infix operators -/

def parseIs (lhs : Expr) (tokens : List Token) : Except String (Expr × List Token) :=
  let (negated, tokens) := eat .not tokens
  match peek tokens with
  | .null => .ok (.isNull lhs negated, tokens.drop 1)
  | .true_ => .ok (.isTrue lhs negated, tokens.drop 1)
  | .false_ => .ok (.isFalse lhs negated, tokens.drop 1)
  | _ => .error "expected NULL, TRUE, or FALSE after IS"

def parseBetween (rBp : Nat) (lhs : Expr) (tokens : List Token) :
    Except String (Expr × List Token) := do
  let (negated, tokens) := eat .not tokens
  let tokens ← grammar.expect .between tokens
  let (low, tokens) ← self rBp tokens
  let (high, tokens) ← self rBp (eat .and tokens).2
  .ok (.between lhs low high negated, tokens)

def parseLike (rBp : Nat) (lhs : Expr) (tokens : List Token) :
    Except String (Expr × List Token) := do
  let (negated, tokens) := eat .not tokens
  let tokens ← grammar.expect .like tokens
  let (pattern, tokens) ← self rBp tokens
  .ok (.like lhs pattern negated, tokens)

def parseIn (fuel : Nat) (lhs : Expr) (tokens : List Token) :
    Except String (Expr × List Token) := do
  let (negated, tokens) := eat .not tokens
  let tokens ← grammar.expect .in_ tokens
  let tokens ← grammar.expect .lParen tokens
  if peek tokens = .select then do
    let (subquery, tokens) ← grammar.parseSelect tokens
    let tokens ← grammar.expect .rParen tokens
    .ok (.inSubquery lhs subquery negated, tokens)
  else do
    let (items, tokens) ← parseExprList self fuel tokens
    let tokens ← grammar.expect .rParen tokens
    .ok (.inList lhs items negated, tokens)

/-- A schema in front of a name, as in `pg_catalog.default`. -/
def skipSchema : List Token → List Token
  | .ident _ :: .dot :: tokens => tokens
  | tokens => tokens

def skipIdent : List Token → List Token
  | .ident _ :: tokens => tokens
  | tokens => tokens

def parseOperator (lhs : Expr) (tokens : List Token) : Except String (Expr × List Token) := do
  let tokens ← grammar.expect .lParen tokens
  let tokens := skipSchema tokens
  match infixBp (peek tokens) with
  | none => .error "unknown operator in OPERATOR(...)"
  | some (_, rBp, op) => do
      let tokens ← grammar.expect .rParen (tokens.drop 1)
      let (rhs, tokens) ← self rBp tokens
      .ok (.binaryOp op lhs rhs, tokens)

/-- One turn of the loop.  A NOT that no BETWEEN, LIKE or IN follows gets as far as the
operators, with the entry of the table as its meaning. -/
def parseInfix (fuel rBp : Nat) (op : BinOp) (lhs : Expr) (tokens : List Token) :
    Except String (Expr × List Token) :=
  let word (token : Token) : Prop :=
    peek tokens = token ∨ peek tokens = .not ∧ peek2 tokens = token
  if peek tokens = .is then parseIs lhs (tokens.drop 1)
  else if word .between then grammar.parseBetween self rBp lhs tokens
  else if word .like then grammar.parseLike self rBp lhs tokens
  else if word .in_ then grammar.parseIn self fuel lhs tokens
  else if peek tokens = .collate then .ok (lhs, skipIdent (skipSchema (tokens.drop 1)))
  else if peek tokens = .operator then grammar.parseOperator self lhs (tokens.drop 1)
  else do
    let (rhs, tokens) ← self rBp (tokens.drop 1)
    .ok (.binaryOp op lhs rhs, tokens)

def infixLoop (minBp : Nat) : Nat → Expr → List Token → Except String (Expr × List Token)
  | 0, _, _ => outOfFuel
  | fuel + 1, lhs, tokens =>
      match infixBp (peek tokens) with
      | none => .ok (lhs, tokens)
      | some (lBp, rBp, op) =>
          if lBp < minBp then .ok (lhs, tokens)
          else do
            let (lhs, tokens) ← grammar.parseInfix self fuel rBp op lhs tokens
            infixLoop minBp fuel lhs tokens

end Calls

def parseExpr : Nat → ParseExpr
  | 0, _, _ => outOfFuel
  | fuel + 1, minBp, tokens => do
      let (lhs, tokens) ← grammar.parseUnary (parseExpr fuel) fuel tokens
      grammar.infixLoop (parseExpr fuel) minBp fuel lhs tokens

/-! ## Column definitions -/

/-- A column of CREATE TABLE. -/
structure ParsedColumn where
  name : String
  colType : String
  nullable : Bool
  default : Option Expr
  isPk : Bool
  isUnique : Bool
  references : Option (String × String)
  isSerial : Bool

def parseObjectName (tokens : List Token) : Except String (String × List Token) := do
  let (first, tokens) ← grammar.parseIdentString tokens
  if peek tokens = .dot then grammar.parseIdentString (tokens.drop 1) else .ok (first, tokens)

def skipReferentialActions : List Token → List Token
  | .on_ :: _ :: _ :: .null :: tokens => skipReferentialActions tokens
  | .on_ :: _ :: _ :: .default :: tokens => skipReferentialActions tokens
  | .on_ :: _ :: _ :: tokens => skipReferentialActions tokens
  | .on_ :: _ => []
  | tokens => tokens

def parseReferences (tokens : List Token) : Except String ((String × String) × List Token) := do
  let (refTable, tokens) ← grammar.parseObjectName tokens
  let tokens ← grammar.expect .lParen tokens
  let (refColumn, tokens) ← grammar.parseIdentString tokens
  let tokens ← grammar.expect .rParen tokens
  .ok ((refTable, refColumn), skipReferentialActions tokens)

def parseConstraints : Nat → ParsedColumn → List Token →
    Except String (ParsedColumn × List Token)
  | 0, _, _ => outOfFuel
  | fuel + 1, column, tokens =>
      match peek tokens with
      | .primary => do
          let tokens ← grammar.expect .key (tokens.drop 1)
          parseConstraints fuel { column with isPk := true, nullable := false } tokens
      | .not =>
          let (null, tokens) := eat .null (tokens.drop 1)
          parseConstraints fuel (if null then { column with nullable := false } else column) tokens
      | .null => parseConstraints fuel { column with nullable := true } (tokens.drop 1)
      | .default => do
          let (expr, tokens) ← grammar.parseExpr fuel 0 (tokens.drop 1)
          parseConstraints fuel { column with default := some expr } tokens
      | .unique => parseConstraints fuel { column with isUnique := true } (tokens.drop 1)
      | .references => do
          let (references, tokens) ← grammar.parseReferences (tokens.drop 1)
          parseConstraints fuel { column with references := some references } tokens
      | _ => .ok (column, tokens)

def newColumn (name colType : String) : ParsedColumn :=
  let column : ParsedColumn := ⟨name, colType, true, none, false, false, none, false⟩
  match colType.toLower with
  | "serial" => { column with colType := "int4", nullable := false, isSerial := true }
  | "bigserial" => { column with colType := "int8", nullable := false, isSerial := true }
  | "smallserial" => { column with colType := "int2", nullable := false, isSerial := true }
  | _ => column

def parseColumn (fuel : Nat) (tokens : List Token) :
    Except String (ParsedColumn × List Token) := do
  let (name, tokens) ← grammar.parseIdentString tokens
  let (colType, tokens) ← grammar.parseIdentString tokens
  grammar.parseConstraints fuel (newColumn name colType) tokens

end Grammar

end Pantheon.Sql
