import Mathlib
import Pantheon.Sql.ParseRules

/-!
# Expressions as SQL writes them

`Term` is an expression of the scalar operators.  `print` writes it with the parentheses
that the precedence of its operators requires: OR, AND, NOT, the predicates, `||`, sums,
products, the sign, from loose to tight, and binary operators associate to the left.

`readUnder` is what the parser makes of these tokens: a NOT sinks to the first operand
behind it.  A term is read back when that changes nothing.
-/

set_option autoImplicit false

namespace Pantheon.Sql

inductive Operator where
  | or
  | and
  | eq
  | notEq
  | lt
  | lte
  | gt
  | gte
  | concat
  | add
  | sub
  | mul
  | div
  | mod
deriving DecidableEq

namespace Operator

def level : Operator → Nat
  | or => 1
  | and => 3
  | eq | notEq | lt | lte | gt | gte => 5
  | concat => 7
  | add | sub => 9
  | mul | div | mod => 11

def token : Operator → Token
  | or => .or
  | and => .and
  | eq => .eq
  | notEq => .notEq
  | lt => .lt
  | lte => .lte
  | gt => .gt
  | gte => .gte
  | concat => .concat
  | add => .plus
  | sub => .minus
  | mul => .star
  | div => .slash
  | mod => .percent

def binOp : Operator → BinOp
  | or => .or
  | and => .and
  | eq => .eq
  | notEq => .notEq
  | lt => .lt
  | lte => .lte
  | gt => .gt
  | gte => .gte
  | concat => .concat
  | add => .add
  | sub => .sub
  | mul => .mul
  | div => .div
  | mod => .mod

end Operator

/-- What IS asks for. -/
inductive Truth where
  | null
  | true_
  | false_
deriving DecidableEq

def Truth.token : Truth → Token
  | null => .null
  | true_ => .true_
  | false_ => .false_

mutual

inductive Term where
  | literal (value : Literal)
  | column (name : String)
  | qualified (table name : String)
  | neg (term : Term)
  | not (term : Term)
  | binary (op : Operator) (left right : Term)
  | test (kind : Truth) (negated : Bool) (term : Term)
  | between (negated : Bool) (term low high : Term)
  | like (negated : Bool) (term pattern : Term)
  | inList (negated : Bool) (term : Term) (items : Items)

/-- The list of an IN is not empty. -/
inductive Items where
  | last (term : Term)
  | more (term : Term) (items : Items)

end

namespace Term

/-- How tightly a term binds.  NOT stands between AND and the predicates. -/
def level : Term → Nat
  | literal _ | column _ | qualified _ _ => 16
  | neg _ => 15
  | not _ => 4
  | binary op _ _ => op.level
  | test _ _ _ | between _ _ _ _ | like _ _ _ | inList _ _ _ => 5

end Term

/-! ## Writing -/

def arrayTokens : List F64 → List Token
  | [] => []
  | [value] => [.floatLiteral value]
  | value :: values => .floatLiteral value :: .comma :: arrayTokens values

def literalTokens : Literal → List Token
  | .int value => [.intLiteral value]
  | .float value => [.floatLiteral value]
  | .text value => [.stringLiteral value]
  | .bool true => [.true_]
  | .bool false => [.false_]
  | .null => [.null]
  | .floatArray values => .lBracket :: (arrayTokens values ++ [.rBracket])

def enclose (loose : Bool) (tokens : List Token) : List Token :=
  if loose then .lParen :: (tokens ++ [.rParen]) else tokens

mutual

def Term.bare : Term → List Token
  | .literal value => literalTokens value
  | .column name => [.ident name]
  | .qualified table name => [.ident table, .dot, .ident name]
  | .neg term => .minus :: enclose (term.level < 15) term.bare
  | .not term => .not :: enclose (term.level < 4) term.bare
  | .binary op left right =>
      enclose (left.level < op.level) left.bare ++
        op.token :: enclose (right.level < op.level + 1) right.bare
  | .test kind negated term =>
      enclose (term.level < 5) term.bare ++ .is :: (Grammar.negation negated ++ [kind.token])
  | .between negated term low high =>
      enclose (term.level < 5) term.bare ++ (Grammar.negation negated ++
        .between :: (enclose (low.level < 6) low.bare ++
          .and :: enclose (high.level < 6) high.bare))
  | .like negated term pattern =>
      enclose (term.level < 5) term.bare ++ (Grammar.negation negated ++
        .like :: enclose (pattern.level < 6) pattern.bare)
  | .inList negated term items =>
      enclose (term.level < 5) term.bare ++ (Grammar.negation negated ++
        .in_ :: .lParen :: (items.tokens ++ [.rParen]))

def Items.tokens : Items → List Token
  | .last term => term.bare
  | .more term items => term.bare ++ .comma :: items.tokens

end

/-- A term as an operand that must bind at least as tightly as `place`. -/
def Term.print (place : Nat) (term : Term) : List Token := enclose (term.level < place) term.bare

/-! ## The tree -/

mutual

def Term.toExpr : Term → Expr
  | .literal value => .literal value
  | .column name => .ident name
  | .qualified table name => .qualifiedIdent table name
  | .neg term => .unaryOp .neg term.toExpr
  | .not term => .unaryOp .not term.toExpr
  | .binary op left right => .binaryOp op.binOp left.toExpr right.toExpr
  | .test kind negated term => Grammar.testExpr kind.token term.toExpr negated
  | .between negated term low high => .between term.toExpr low.toExpr high.toExpr negated
  | .like negated term pattern => .like term.toExpr pattern.toExpr negated
  | .inList negated term items => .inList term.toExpr items.toExprs negated

def Items.toExprs : Items → List Expr
  | .last term => [term.toExpr]
  | .more term items => term.toExpr :: items.toExprs

end

/-- `count` NOTs around an expression. -/
def negate : Nat → Expr → Expr
  | 0, expr => expr
  | count + 1, expr => .unaryOp .not (negate count expr)

/-- An operand on the left takes the NOTs in front of it, with its parentheses around it or
inside. -/
def sink (loose : Bool) (count : Nat) (read : Nat → Expr) : Expr :=
  if loose then negate count (read 0) else read count

mutual

/-- What the parser reads when `count` NOTs stand in front of the term. -/
def Term.readUnder : Term → Nat → Expr
  | .literal value, count => negate count (.literal value)
  | .column name, count => negate count (.ident name)
  | .qualified table name, count => negate count (.qualifiedIdent table name)
  | .neg term, count => negate count (.unaryOp .neg (term.readUnder 0))
  | .not term, count => sink (term.level < 4) (count + 1) term.readUnder
  | .binary op left right, count =>
      .binaryOp op.binOp (sink (left.level < op.level) count left.readUnder) (right.readUnder 0)
  | .test kind negated term, count =>
      Grammar.testExpr kind.token (sink (term.level < 5) count term.readUnder) negated
  | .between negated term low high, count =>
      .between (sink (term.level < 5) count term.readUnder) (low.readUnder 0) (high.readUnder 0)
        negated
  | .like negated term pattern, count =>
      .like (sink (term.level < 5) count term.readUnder) (pattern.readUnder 0) negated
  | .inList negated term items, count =>
      .inList (sink (term.level < 5) count term.readUnder) items.readAll negated

def Items.readAll : Items → List Expr
  | .last term => [term.readUnder 0]
  | .more term items => term.readUnder 0 :: items.readAll

end

/-! ## Which terms are read back -/

/-- A NOT right in front of the term takes all of it: an atom, a signed term or another
NOT. -/
def Term.takesNot : Term → Bool
  | .not _ => true
  | term => decide (15 ≤ term.level)

mutual

/-- Every NOT of the term stands in front of such a term, or of parentheses. -/
def Term.NotsHold : Term → Prop
  | .literal _ | .column _ | .qualified _ _ => True
  | .neg term => term.NotsHold
  | .not term => (term.level < 4 ∨ term.takesNot = true) ∧ term.NotsHold
  | .binary _ left right => left.NotsHold ∧ right.NotsHold
  | .test _ _ term => term.NotsHold
  | .between _ term low high => term.NotsHold ∧ low.NotsHold ∧ high.NotsHold
  | .like _ term pattern => term.NotsHold ∧ pattern.NotsHold
  | .inList _ term items => term.NotsHold ∧ items.NotsHold

def Items.NotsHold : Items → Prop
  | .last term => term.NotsHold
  | .more term items => term.NotsHold ∧ items.NotsHold

end

end Pantheon.Sql
