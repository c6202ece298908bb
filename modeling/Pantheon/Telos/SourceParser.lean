import Mathlib
import Pantheon.Telos.SourceLexer

/-!
# The parser of Telos: `tpt-telos-parser/src/parser.rs`

The functions of a level take what they call of the levels around them.  Fuel bounds how deep
they call each other and how often a loop turns.
-/

set_option autoImplicit false

namespace Pantheon.TelosSource

open Pantheon.Lib Pantheon.Lib.TokenParser
open Pantheon.Telos (BinOp AggregateOp Pattern AssignOp)

abbrev Parse (Result : Type) : Type := TokenParser Token Result

def outOfFuel {Result : Type} : Parse Result := halt .outOfFuel

/-- `current_span`: the offsets of the tokens are those of the lexer. -/
def currentSpan (lines : LineIndex) (offsets : List Nat) : Parse Span := fun _ pos =>
  match offsets[pos]? with
  | none => .error .outOfBounds
  | some offset => (lines.spanAt offset).map fun span => (span, pos)

def expect (expected : Token) : Parse Unit := do
  let got ← peek
  if got = expected then do
    let _ ← advance
  else fail ("expected " ++ expected.text ++ ", found " ++ got.text)

def expectIdent : Parse String := do
  match ← peek with
  | .ident name => do
      let _ ← advance
      return name
  | other => fail ("expected identifier, found " ++ other.text)

def expectIdentOrKeyword : Parse String := do
  match ← peek with
  | .ident name => do
      let _ ← advance
      return name
  | .kwState => do
      let _ ← advance
      return "state"
  | other => fail ("expected identifier, found " ++ other.text)

def atExprStart : Token → Bool
  | .int _ | .ident _ | .kwOld | .lParen | .minus | .kwIf | .kwMatch | .kwForall | .kwResult
  | .kwOk | .kwErr => true
  | _ => false

section Lists

variable {Result : Type} (item : Parse Result) (fuel : Nat)

/-- `while` what closes them is not next. -/
def parseUntil (close : Token) : Parse (List Result) :=
  collect (fun next => decide (next ≠ close)) item fuel

def block : Parse (List Result) := do
  expect .lBrace
  let items ← parseUntil item fuel .rBrace
  expect .rBrace
  return items

def commaList (close : Token) : Parse (List Result) := do
  if (← peek) = close then return [] else separated .comma item fuel

end Lists

/-! ## Types and patterns -/

def parseType : Nat → Parse TypeExpr
  | 0 => outOfFuel
  | fuel + 1 => do
      match ← peek with
      | .kwResult => do
          let _ ← advance
          expect .lt
          let ok ← parseType fuel
          expect .comma
          let err ← parseType fuel
          expect .gt
          return .generic "Result" [ok, err]
      | .lParen => do
          let _ ← advance
          let elems ← separated .comma (parseType fuel) fuel
          expect .rParen
          match elems with
          | [elem] => return elem
          | elems => return .tuple elems
      | .lSquare => do
          let _ ← advance
          let elem ← parseType fuel
          if ← accept .semicolon then do
            match ← peek with
            | .int len => do
                let _ ← advance
                expect .rSquare
                return .array elem len.toNat
            | other => fail ("expected array length, found " ++ other.text)
          else do
            expect .rSquare
            return .slice elem
      | .ident name => do
          let _ ← advance
          if ← accept .lt then do
            let args ← separated .comma (parseType fuel) fuel
            expect .gt
            return .generic name args
          else return .named name
      | other => fail ("expected type, found " ++ other.text)

/-- The negation of an `i64`. -/
def negated (value : Int) : Parse Int :=
  if value = -2 ^ 63 then halt .overflow else return -value

def parsePattern : Nat → Parse Pattern
  | 0 => outOfFuel
  | fuel + 1 => do
      match ← peek with
      | .int value => do
          let _ ← advance
          return .literal value
      | .minus => do
          let _ ← advance
          match ← peek with
          | .int value => do
              let _ ← advance
              return .literal (← negated value)
          | _ => fail "expected integer after `-` in pattern"
      | .ident name => do
          let _ ← advance
          if ← accept .lParen then do
            let fields ← commaList (parsePattern fuel) fuel .rParen
            expect .rParen
            return .constructor name fields
          else return .var name
      | .underScore => do
          let _ ← advance
          return .wildcard
      | other => fail ("expected pattern, found " ++ other.text)

/-! ## Expressions -/

def prettySimple : Expr → String
  | .int value => toString value
  | .var name => name
  | .field base field => base ++ "." ++ field
  | .old inner => "old(" ++ prettySimple inner ++ ")"
  | .neg _ => "<expr>"
  | .bin _ _ _ => "<expr>"
  | .call func _ => func ++ "(...)"
  | .methodCall receiver method _ => prettySimple receiver ++ "." ++ method ++ "(...)"
  | .index receiver _ => prettySimple receiver ++ "[...]"
  | .ifElse _ _ _ => "<if-expr>"
  | .matchOn _ _ => "<match-expr>"
  | .try_ inner => prettySimple inner ++ "?"
  | .forall_ _ _ _ _ => "<forall>"
  | .aggregate .sum _ => "sum(...)"
  | .aggregate .min _ => "min(...)"
  | .aggregate .max _ => "max(...)"
  | .aggregate .count _ => "count(...)"
  | .range _ _ => "<range>"

def aggregateOp : String → Option AggregateOp
  | "sum" => some .sum
  | "min" => some .min
  | "max" => some .max
  | "count" => some .count
  | _ => none

def orOp : Token → Option BinOp
  | .or => some .or
  | _ => none

def andOp : Token → Option BinOp
  | .and => some .and
  | _ => none

def cmpOp : Token → Option BinOp
  | .eqEq => some .eq
  | .ne => some .ne
  | .lt => some .lt
  | .le => some .le
  | .gt => some .gt
  | .ge => some .ge
  | _ => none

def addOp : Token → Option BinOp
  | .plus => some .add
  | .minus => some .sub
  | _ => none

def mulOp : Token → Option BinOp
  | .star => some .mul
  | .slash => some .div
  | _ => none

def opensPostfix : Token → Bool
  | .lParen | .dot | .lSquare | .question | .dotDot => true
  | _ => false

/-- The operators of a level and their operands, grouped to the left. -/
def chain (operator : Token → Option BinOp) (operand : Parse Expr) (fuel : Nat) : Parse Expr := do
  let lhs ← operand
  loop (fun next => (operator next).isSome) (fun lhs => do
    match operator (← peek) with
    | some op => do
        let _ ← advance
        let rhs ← operand
        return .bin op lhs rhs
    | none => return lhs) fuel lhs

def callOf (callee : Expr) (args : List Expr) : Parse Expr :=
  match callee with
  | .var name => return .call name args
  | .field base field => return .methodCall (.var base) field args
  | .methodCall receiver method _ => return .call (prettySimple receiver ++ "." ++ method) args
  | other => fail ("cannot call non-function expression `" ++ prettySimple other ++ "`")

def fieldOf (receiver : Expr) (field : String) : Expr :=
  match receiver with
  | .var name => .field name field
  | other => .methodCall other field []

section Expressions

variable (self : Parse Expr) (fuel : Nat)

def parenthesized : Parse Expr := do
  expect .lParen
  let expr ← self
  expect .rParen
  return expr

def braced : Parse Expr := do
  expect .lBrace
  let expr ← self
  expect .rBrace
  return expr

def parseIfExpr : Parse Expr := do
  expect .kwIf
  let condition ← self
  let thenExpr ← braced self
  expect .kwElse
  let elseExpr ← braced self
  return .ifElse condition thenExpr elseExpr

def parseExprArm : Parse (Pattern × Expr) := do
  let pattern ← parsePattern fuel
  expect .fatArrow
  let expr ← self
  let _ ← accept .comma
  return (pattern, expr)

def parseMatchExpr : Parse Expr := do
  expect .kwMatch
  let scrutinee ← self
  let arms ← block (parseExprArm self fuel) fuel
  return .matchOn scrutinee arms

def parseForallExpr : Parse Expr := do
  expect .kwForall
  let var ← expectIdent
  expect .colon
  let varTy ← parseType fuel
  let domain ← optional .kwIn self
  let body ← braced self
  return .forall_ var varTy domain body

def parseName (name : String) : Parse Expr := do
  if ← accept .dot then do
    let field ← expectIdent
    return .field name field
  else return .var name

def parsePrimary : Parse Expr := do
  match ← peek with
  | .int value => do
      let _ ← advance
      return .int value
  | .kwOld => do
      let _ ← advance
      let expr ← parenthesized self
      return .old expr
  | .lParen => do
      let _ ← advance
      let expr ← self
      expect .rParen
      return expr
  | .kwIf => parseIfExpr self
  | .kwMatch => parseMatchExpr self fuel
  | .kwForall => parseForallExpr self fuel
  | .kwResult => do
      let _ ← advance
      return .var "Result"
  | .kwOk => do
      let _ ← advance
      let expr ← parenthesized self
      return .call "Ok" [expr]
  | .kwErr => do
      let _ ← advance
      let expr ← parenthesized self
      return .call "Err" [expr]
  | .ident name => do
      let _ ← advance
      let next ← peek
      match aggregateOp name with
      | none => parseName name
      | some op =>
          if next = .lParen then do
            expect .lParen
            let args ← commaList self fuel .rParen
            expect .rParen
            return .aggregate op args
          else parseName name
  | other => fail ("expected expression, found " ++ other.text)

def parsePostfixForm (expr : Expr) : Parse Expr := do
  match ← peek with
  | .lParen => do
      let _ ← advance
      let args ← commaList self fuel .rParen
      expect .rParen
      callOf expr args
  | .dot => do
      let _ ← advance
      let field ← expectIdent
      return fieldOf expr field
  | .lSquare => do
      let _ ← advance
      let index ← self
      expect .rSquare
      return .index expr index
  | .question => do
      let _ ← advance
      return .try_ expr
  | .dotDot => do
      let _ ← advance
      let hi ← self
      return .range expr hi
  | _ => return expr

def parsePostfix : Parse Expr := do
  let expr ← parsePrimary self fuel
  loop opensPostfix (parsePostfixForm self fuel) fuel expr

def parseUnary : Nat → Parse Expr
  | 0 => outOfFuel
  | turns + 1 => do
      if (← peek) = .minus then do
        let _ ← advance
        let expr ← parseUnary turns
        return .neg expr
      else parsePostfix self fuel

def parseMul : Parse Expr := chain mulOp (parseUnary self fuel fuel) fuel

def parseAdd : Parse Expr := chain addOp (parseMul self fuel) fuel

def parseCmp : Parse Expr := do
  let lhs ← parseAdd self fuel
  match cmpOp (← peek) with
  | none => return lhs
  | some op => do
      let _ ← advance
      let rhs ← parseAdd self fuel
      return .bin op lhs rhs

def parseAnd : Parse Expr := chain andOp (parseCmp self fuel) fuel

def parseOr : Parse Expr := chain orOp (parseAnd self fuel) fuel

end Expressions

def parseExpr : Nat → Parse Expr
  | 0 => outOfFuel
  | fuel + 1 => parseOr (parseExpr fuel) (fuel + 1)

/-! ## Statements -/

def assignOp : Token → Option AssignOp
  | .assign => some .set
  | .plusAssign => some .add
  | .minusAssign => some .sub
  | _ => none

def parseAssign (fuel : Nat) : Parse Assign := do
  let target ← parseExpr fuel
  let next ← peek
  match assignOp next with
  | none => fail ("expected assignment operator, found " ++ next.text)
  | some op => do
      let _ ← advance
      let value ← parseExpr fuel
      let _ ← accept .semicolon
      return ⟨target, op, value⟩

def parseExprStmt (fuel : Nat) : Parse Stmt := do
  let expr ← parseExpr fuel
  match assignOp (← peek) with
  | some op => do
      let _ ← advance
      let value ← parseExpr fuel
      let _ ← accept .semicolon
      return .assign ⟨expr, op, value⟩
  | none => do
      let _ ← accept .semicolon
      return .assign ⟨expr, .set, .int 0⟩

def parseLet (fuel : Nat) : Parse Stmt := do
  let _ ← advance
  let name ← expectIdent
  let ty ← optional .colon (parseType fuel)
  expect .assign
  let value ← parseExpr fuel
  let _ ← accept .semicolon
  return .letBinding name ty value

def parseReturn (fuel : Nat) : Parse Stmt := do
  let _ ← advance
  if ← accept .semicolon then return .return_ none
  else if atExprStart (← peek) then do
    let expr ← parseExpr fuel
    let _ ← accept .semicolon
    return .return_ (some expr)
  else do
    let _ ← accept .semicolon
    return .return_ none

section Statements

variable (self : Parse Stmt) (fuel : Nat)

def parseIfStmt : Parse Stmt := do
  expect .kwIf
  let condition ← parseExpr fuel
  let thenBody ← block self fuel
  let elseBody ← optional .kwElse (block self fuel)
  return .ifStmt condition thenBody elseBody

def parseMatchArm : Parse (Pattern × List Stmt) := do
  let pattern ← parsePattern fuel
  expect .fatArrow
  if (← peek) = .lBrace then do
    let body ← block self fuel
    return (pattern, body)
  else do
    let stmt ← self
    return (pattern, [stmt])

def parseMatchStmt : Parse Stmt := do
  expect .kwMatch
  let scrutinee ← parseExpr fuel
  let arms ← block (parseMatchArm self fuel) fuel
  return .matchStmt scrutinee arms

end Statements

def parseStmt : Nat → Parse Stmt
  | 0 => outOfFuel
  | fuel + 1 => do
      match ← peek with
      | .kwMutate => do
          let _ ← advance
          expect .kwState
          let assigns ← block (parseAssign fuel) fuel
          return .mutateState assigns
      | .kwLet => parseLet (fuel + 1)
      | .kwIf => parseIfStmt (parseStmt fuel) (fuel + 1)
      | .kwMatch => parseMatchStmt (parseStmt fuel) (fuel + 1)
      | .kwReturn => parseReturn (fuel + 1)
      | _ => parseExprStmt (fuel + 1)

/-! ## Items -/

def parseArg : Parse Arg := do
  let key ← expectIdent
  if ← accept .assign then do
    match ← peek with
    | .int value => do
        let _ ← advance
        return .kv key (.int value)
    | .ident name => do
        let _ ← advance
        return .kv key (.ident name)
    | other => fail ("expected literal in attribute, found " ++ other.text)
  else return .flag key

section Items

variable (lines : LineIndex) (offsets : List Nat) (fuel : Nat)

def parseAttribute : Parse Attribute := do
  expect .at
  let name ← expectIdentOrKeyword
  if ← accept .lParen then do
    let args ← commaList parseArg fuel .rParen
    expect .rParen
    return ⟨name, args⟩
  else return ⟨name, []⟩

def parseAttributes : Parse (List Attribute) :=
  collect (fun next => decide (next = .at)) (parseAttribute fuel) fuel

def parseConstraint : Parse (Expr × Span) := do
  let span ← currentSpan lines offsets
  let expr ← parseExpr fuel
  let _ ← accept .semicolon
  return (expr, span)

def parseInvariant : Parse Invariant := do
  let span ← currentSpan lines offsets
  expect .kwInvariant
  let name ← expectIdent
  let constraints ← block (parseConstraint lines offsets fuel) fuel
  return ⟨name, constraints.map Prod.fst, span, constraints.map Prod.snd⟩

def parseField : Parse FieldDef := do
  let name ← expectIdent
  expect .colon
  let ty ← parseType fuel
  let _ ← accept .comma
  return ⟨name, ty⟩

def parseStructDef : Parse StructDef := do
  expect .kwStruct
  let name ← expectIdent
  let fields ← block (parseField fuel) fuel
  return ⟨name, fields⟩

def parseVariant : Parse VariantDef := do
  let name ← expectIdent
  if (← peek) = .lBrace then do
    let fields ← block (parseField fuel) fuel
    let _ ← accept .comma
    return ⟨name, fields⟩
  else do
    let _ ← accept .comma
    return ⟨name, []⟩

def parseEnumDef : Parse EnumDef := do
  expect .kwEnum
  let name ← expectIdent
  let variants ← block (parseVariant fuel) fuel
  return ⟨name, variants⟩

def parseParam : Parse Param := do
  let isMutable ← accept .kwMut
  let name ← expectIdent
  expect .colon
  let ty ← parseType fuel
  return ⟨name, ty, isMutable⟩

def opensClause (token : Token) : Bool := decide (token = .kwRequires ∨ token = .kwEnsures)

def parseClause (clauses : Clauses) : Parse Clauses := do
  if (← peek) = .kwRequires then do
    let _ ← advance
    let span ← currentSpan lines offsets
    let expr ← parseExpr fuel
    return { clauses with
      requires := clauses.requires ++ [expr]
      requiresSpans := clauses.requiresSpans ++ [span] }
  else do
    let _ ← advance
    let span ← currentSpan lines offsets
    let expr ← parseExpr fuel
    return { clauses with
      ensures := clauses.ensures ++ [expr]
      ensuresSpans := clauses.ensuresSpans ++ [span] }

/-- The statements, and whether they are left out. -/
def parseBody : Parse (List Stmt × Bool) := do
  if ← accept .semicolon then return ([], true)
  else do
    let body ← block (parseStmt fuel) fuel
    return (body, false)

def parseFunc (attributes : List Attribute) : Parse Func := do
  let span ← currentSpan lines offsets
  expect .kwFunc
  let name ← expectIdent
  expect .lParen
  let params ← commaList (parseParam fuel) fuel .rParen
  expect .rParen
  let returnTy ← optional .arrow (parseType fuel)
  let clauses ← loop opensClause (parseClause lines offsets fuel) fuel ⟨[], [], [], []⟩
  let body ← parseBody fuel
  return ⟨attributes, name, params, returnTy, clauses, body.1, body.2, span⟩

/-- An item that takes no attributes. -/
def unattributed {Result : Type} (kind : String) (attributes : List Attribute)
    (item : Parse Result) : Parse Result :=
  if attributes.isEmpty then item
  else fail ("attributes are not supported on `" ++ kind ++ "` items")

def parseItem : Parse Item := do
  let attributes ← parseAttributes fuel
  match ← peek with
  | .kwInvariant => do
      let item ← unattributed "invariant" attributes (parseInvariant lines offsets fuel)
      return .invariant item
  | .kwFunc => do
      let item ← parseFunc lines offsets fuel attributes
      return .func item
  | .kwStruct => do
      let item ← unattributed "struct" attributes (parseStructDef fuel)
      return .struct item
  | .kwEnum => do
      let item ← unattributed "enum" attributes (parseEnumDef fuel)
      return .enum item
  | other => fail ("expected `invariant`, `func`, `struct`, or `enum`, found " ++ other.text)

def parseModule : Parse Module := do
  let attributes ← parseAttributes fuel
  expect .kwModule
  let name ← expectIdent
  let items ← block (parseItem lines offsets fuel) fuel
  return ⟨attributes, name, items⟩

end Items

def parseSource (fuel : Nat) (src : String) : Except ParseStop (List Module) := do
  let spanned ← lex fuel src
  let offsets := spanned.map fun item => item.2.1
  let tokens := spanned.map Prod.fst
  let (modules, _) ← parseUntil (parseModule (.new src) offsets fuel) fuel .eof tokens 0
  return modules

end Pantheon.TelosSource
