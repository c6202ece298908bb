import Mathlib
import Pantheon.Lib.TokenParser
import Pantheon.Telos.Ast

/-!
# Tokens, lines and whole syntax trees: `lexer.rs`, `span.rs` and `ast.rs` of the parser

The trees of a source text with all that its parser puts into them.
-/

set_option autoImplicit false

namespace Pantheon.TelosSource

open Pantheon.Lib
open Pantheon.Telos (BinOp AggregateOp Pattern AssignOp)

inductive Token where
  | ident (name : String)
  | int (value : Int)
  | at
  | lParen
  | rParen
  | lBrace
  | rBrace
  | lSquare
  | rSquare
  | comma
  | colon
  | dot
  | semicolon
  | assign
  | plusAssign
  | minusAssign
  | plus
  | minus
  | star
  | slash
  | eqEq
  | ne
  | lt
  | le
  | gt
  | ge
  | and
  | or
  | arrow
  | fatArrow
  | question
  | dotDot
  | underScore
  | kwModule
  | kwInvariant
  | kwFunc
  | kwRequires
  | kwEnsures
  | kwMutate
  | kwState
  | kwOld
  | kwLet
  | kwMut
  | kwIf
  | kwElse
  | kwMatch
  | kwStruct
  | kwEnum
  | kwForall
  | kwIn
  | kwPure
  | kwReturn
  | kwResult
  | kwOk
  | kwErr
  | eof
deriving DecidableEq

/-- `Display` of a token other than an identifier or an integer, without its quotes. -/
def Token.symbol : Token → String
  | .ident name => name
  | .int value => toString value
  | .at => "@"
  | .lParen => "("
  | .rParen => ")"
  | .lBrace => "\x7b"
  | .rBrace => "\x7d"
  | .lSquare => "["
  | .rSquare => "]"
  | .comma => ","
  | .colon => ":"
  | .dot => "."
  | .dotDot => ".."
  | .semicolon => ";"
  | .assign => "="
  | .plusAssign => "+="
  | .minusAssign => "-="
  | .plus => "+"
  | .minus => "-"
  | .star => "*"
  | .slash => "/"
  | .eqEq => "=="
  | .ne => "!="
  | .lt => "<"
  | .le => "<="
  | .gt => ">"
  | .ge => ">="
  | .and => "&&"
  | .or => "||"
  | .arrow => "->"
  | .fatArrow => "=>"
  | .question => "?"
  | .underScore => "_"
  | .kwModule => "module"
  | .kwInvariant => "invariant"
  | .kwFunc => "func"
  | .kwRequires => "requires"
  | .kwEnsures => "ensures"
  | .kwMutate => "mutate"
  | .kwState => "state"
  | .kwOld => "old"
  | .kwLet => "let"
  | .kwMut => "mut"
  | .kwIf => "if"
  | .kwElse => "else"
  | .kwMatch => "match"
  | .kwStruct => "struct"
  | .kwEnum => "enum"
  | .kwForall => "forall"
  | .kwIn => "in"
  | .kwPure => "pure"
  | .kwReturn => "return"
  | .kwResult => "Result"
  | .kwOk => "Ok"
  | .kwErr => "Err"
  | .eof => "end of file"

def Token.text : Token → String
  | .ident name => "identifier `" ++ name ++ "`"
  | .int value => "integer `" ++ toString value ++ "`"
  | token => "`" ++ token.symbol ++ "`"

/-! ## Lines -/

structure Span where
  line : Nat
  col : Nat
deriving DecidableEq

/-- Where the lines start; the first starts at the first character. -/
structure LineIndex where
  lineStarts : List Nat
  starts_at_zero : lineStarts.head? = some 0

def newlineStarts : Nat → List Char → List Nat
  | _, [] => []
  | i, char :: rest =>
      if char = '\n' then (i + 1) :: newlineStarts (i + 1) rest else newlineStarts (i + 1) rest

def LineIndex.new (src : String) : LineIndex := ⟨0 :: newlineStarts 0 src.toList, rfl⟩

/-- The index of the offset among the line starts, or where it would stand. -/
def binarySearch (lineStarts : List Nat) (offset : Nat) : Except Nat Nat :=
  let below := (lineStarts.takeWhile fun start => decide (start < offset)).length
  if lineStarts[below]? = some offset then .ok below else .error below

def LineIndex.spanAt (lines : LineIndex) (offset : Nat) : Except ParseStop Span :=
  let lineIdx :=
    match binarySearch lines.lineStarts offset with
    | .ok i => i
    | .error i => i - 1
  match lines.lineStarts[lineIdx]? with
  | none => .error .outOfBounds
  | some lineStart =>
      if lineStart ≤ offset then .ok ⟨lineIdx + 1, offset - lineStart + 1⟩ else .error .overflow

theorem LineIndex.spanAt_answers (lines : LineIndex) (offset : Nat) :
    ∃ span, lines.spanAt offset = .ok span := by
  obtain ⟨starts, first⟩ := lines
  obtain ⟨others, rfl⟩ := List.head?_eq_some_iff.mp first
  -- a line start at or below the offset is enough
  have enough : ∀ {index start : Nat}, (0 :: others)[index]? = some start → start ≤ offset →
      ∃ span, (match (0 :: others)[index]? with
        | none => Except.error ParseStop.outOfBounds
        | some lineStart =>
            if lineStart ≤ offset then .ok (⟨index + 1, offset - lineStart + 1⟩ : Span)
            else .error .overflow) = .ok span := by
    intro index start found below
    rw [found]
    exact ⟨_, if_pos below⟩
  obtain ⟨behind, split⟩ :=
    @List.takeWhile_prefix _ (0 :: others) fun start => decide (start < offset)
  unfold LineIndex.spanAt binarySearch
  simp only
  split_ifs with exactly
  · exact enough exactly le_rfl
  · cases count : ((0 :: others).takeWhile fun start => decide (start < offset)).length with
    | zero => exact @enough (0 - 1) 0 rfl (Nat.zero_le offset)
    | succ before =>
        have inside : before <
            ((0 :: others).takeWhile fun start => decide (start < offset)).length := by omega
        have found := List.getElem?_eq_getElem inside
        rw [← List.getElem?_append_left inside, split] at found
        have below := List.mem_takeWhile_imp (List.getElem_mem inside)
        exact enough found (of_decide_eq_true below).le

/-! ## Trees -/

inductive TypeExpr where
  | named (name : String)
  | generic (name : String) (args : List TypeExpr)
  | tuple (elems : List TypeExpr)
  | array (elem : TypeExpr) (len : Nat)
  | slice (elem : TypeExpr)

inductive Literal where
  | int (value : Int)
  | ident (name : String)

inductive Arg where
  | flag (name : String)
  | kv (key : String) (value : Literal)

structure Attribute where
  name : String
  args : List Arg

inductive Expr where
  | int (value : Int)
  | var (name : String)
  | field (base field : String)
  | old (expr : Expr)
  | neg (expr : Expr)
  | bin (op : BinOp) (lhs rhs : Expr)
  | call (func : String) (args : List Expr)
  | methodCall (receiver : Expr) (method : String) (args : List Expr)
  | index (receiver index : Expr)
  | ifElse (condition thenExpr elseExpr : Expr)
  | matchOn (scrutinee : Expr) (arms : List (Pattern × Expr))
  | try_ (expr : Expr)
  | forall_ (var : String) (varTy : TypeExpr) (domain : Option Expr) (body : Expr)
  | aggregate (op : AggregateOp) (args : List Expr)
  | range (lo hi : Expr)

structure Assign where
  target : Expr
  op : AssignOp
  value : Expr

inductive Stmt where
  | mutateState (assigns : List Assign)
  | assign (assign : Assign)
  | letBinding (name : String) (ty : Option TypeExpr) (value : Expr)
  | ifStmt (condition : Expr) (thenBody : List Stmt) (elseBody : Option (List Stmt))
  | matchStmt (scrutinee : Expr) (arms : List (Pattern × List Stmt))
  | return_ (value : Option Expr)

structure Invariant where
  name : String
  constraints : List Expr
  span : Span
  constraintSpans : List Span

structure FieldDef where
  name : String
  ty : TypeExpr

structure StructDef where
  name : String
  fields : List FieldDef

structure VariantDef where
  name : String
  fields : List FieldDef

structure EnumDef where
  name : String
  variants : List VariantDef

structure Param where
  name : String
  ty : TypeExpr
  isMutable : Bool

/-- The conditions of a function and where they stand. -/
structure Clauses where
  requires : List Expr
  ensures : List Expr
  requiresSpans : List Span
  ensuresSpans : List Span

structure Func where
  attributes : List Attribute
  name : String
  params : List Param
  returnTy : Option TypeExpr
  clauses : Clauses
  body : List Stmt
  elided : Bool
  span : Span

inductive Item where
  | invariant (invariant : Invariant)
  | func (func : Func)
  | struct (struct : StructDef)
  | enum (enum : EnumDef)

structure Module where
  attributes : List Attribute
  name : String
  items : List Item

end Pantheon.TelosSource
