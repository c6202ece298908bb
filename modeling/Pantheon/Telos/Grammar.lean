import Mathlib
import Pantheon.Telos.Ast

/-!
# Reading expressions: `tpt-telos-parser/src/parser.rs`

One function for each level of precedence.  Four of the levels are loops that group to the
left, a comparison is not repeated, and a minus takes what the next level reads.  The forms
behind a primary (calls, fields of other things than names, indices, `?` and `..`) and the
keywords other than `old` are not read here: no arithmetic or boolean expression has them.

The fuel bounds the depth of parentheses and the length of the loops.
-/

set_option autoImplicit false

namespace Pantheon.Telos

inductive Token where
  | int (value : Int)
  | ident (name : String)
  | kwOld
  | dot
  | dotDot
  | lParen
  | rParen
  | lSquare
  | question
  | minus
  | plus
  | star
  | slash
  | eqEq
  | ne
  | lt
  | le
  | gt
  | ge
  | and
  | or
  | other (text : String)
  | eof
deriving DecidableEq

def peek (tokens : List Token) : Token := tokens.headD .eof

def orOp : Token → Option BinOp
  | .or => some .or
  | _ => none

def andOp : Token → Option BinOp
  | .and => some .and
  | _ => none

def cmpOp : Token → Option BinOp
  | .eqEq => some .eq
  | .ne => some .ne
  | .lt => some .lt
  | .le => some .le
  | .gt => some .gt
  | .ge => some .ge
  | _ => none

def addOp : Token → Option BinOp
  | .plus => some .add
  | .minus => some .sub
  | _ => none

def mulOp : Token → Option BinOp
  | .star => some .mul
  | .slash => some .div
  | _ => none

/-- What follows a primary and is read by the loop of `parse_postfix`. -/
def opensPostfix : Token → Bool
  | .lParen | .dot | .lSquare | .question | .dotDot => true
  | _ => false

def expectRParen {A : Type} (result : A) : List Token → Option (A × List Token)
  | .rParen :: tokens => some (result, tokens)
  | _ => none

/-- `while` the next token is an operator of the level: its operand, grouped to the left. -/
def chainLoop (operator : Token → Option BinOp)
    (operand : List Token → Option (Expr × List Token)) :
    Nat → Expr → List Token → Option (Expr × List Token)
  | 0, _, _ => none
  | fuel + 1, lhs, tokens =>
      match operator (peek tokens) with
      | none => some (lhs, tokens)
      | some op => do
          let (rhs, tokens) ← operand (tokens.drop 1)
          chainLoop operator operand fuel (.bin op lhs rhs) tokens

section Calls

variable (self : List Token → Option (Expr × List Token))

def parsePrimary : List Token → Option (Expr × List Token)
  | .int value :: tokens => some (.int value, tokens)
  | .kwOld :: .lParen :: tokens => do
      let (expr, tokens) ← self tokens
      expectRParen (.old expr) tokens
  | .lParen :: tokens => do
      let (expr, tokens) ← self tokens
      expectRParen expr tokens
  | .ident base :: .dot :: .ident field :: tokens => some (.field base field, tokens)
  | .ident _ :: .dot :: _ => none
  | .ident name :: tokens => some (.var name, tokens)
  | _ => none

def parsePostfix (tokens : List Token) : Option (Expr × List Token) := do
  let (expr, tokens) ← parsePrimary self tokens
  if opensPostfix (peek tokens) then none else some (expr, tokens)

def parseUnary : List Token → Option (Expr × List Token)
  | .minus :: tokens => do
      let (expr, tokens) ← parseUnary tokens
      some (.neg expr, tokens)
  | tokens => parsePostfix self tokens

def parseMul (fuel : Nat) (tokens : List Token) : Option (Expr × List Token) := do
  let (lhs, tokens) ← parseUnary self tokens
  chainLoop mulOp (parseUnary self) fuel lhs tokens

def parseAdd (fuel : Nat) (tokens : List Token) : Option (Expr × List Token) := do
  let (lhs, tokens) ← parseMul self fuel tokens
  chainLoop addOp (parseMul self fuel) fuel lhs tokens

def parseCmp (fuel : Nat) (tokens : List Token) : Option (Expr × List Token) := do
  let (lhs, tokens) ← parseAdd self fuel tokens
  match cmpOp (peek tokens) with
  | none => some (lhs, tokens)
  | some op => do
      let (rhs, tokens) ← parseAdd self fuel (tokens.drop 1)
      some (.bin op lhs rhs, tokens)

def parseAnd (fuel : Nat) (tokens : List Token) : Option (Expr × List Token) := do
  let (lhs, tokens) ← parseCmp self fuel tokens
  chainLoop andOp (parseCmp self fuel) fuel lhs tokens

def parseOr (fuel : Nat) (tokens : List Token) : Option (Expr × List Token) := do
  let (lhs, tokens) ← parseAnd self fuel tokens
  chainLoop orOp (parseAnd self fuel) fuel lhs tokens

end Calls

def parseExpr : Nat → List Token → Option (Expr × List Token)
  | 0, _ => none
  | fuel + 1, tokens => parseOr (parseExpr fuel) fuel tokens

def Parses (tokens : List Token) (expr : Expr) : Prop :=
  ∃ enough, ∀ fuel, enough ≤ fuel → parseExpr fuel tokens = some (expr, [])

/-! ## Levels -/

/-- From `||` at 1 to `*` and `/` at 5; 6 is the operand of a minus. -/
def BinOp.level : BinOp → Nat
  | .or => 1
  | .and => 2
  | .eq | .ne | .lt | .le | .gt | .ge => 3
  | .add | .sub => 4
  | .mul | .div => 5

def BinOp.token : BinOp → Token
  | .add => .plus
  | .sub => .minus
  | .mul => .star
  | .div => .slash
  | .eq => .eqEq
  | .ne => .ne
  | .lt => .lt
  | .le => .le
  | .gt => .gt
  | .ge => .ge
  | .and => .and
  | .or => .or

def operatorAt : Nat → Token → Option BinOp
  | 1 => orOp
  | 2 => andOp
  | 3 => cmpOp
  | 4 => addOp
  | 5 => mulOp
  | _ => fun _ => none

def stage (self : List Token → Option (Expr × List Token)) :
    Nat → Nat → List Token → Option (Expr × List Token)
  | 1 => parseOr self
  | 2 => parseAnd self
  | 3 => parseCmp self
  | 4 => parseAdd self
  | 5 => parseMul self
  | _ => fun _ => parseUnary self

def Repeats (level : Nat) : Prop := level = 1 ∨ level = 2 ∨ level = 4 ∨ level = 5

theorem operatorAt_token (op : BinOp) (level : Nat) :
    operatorAt level op.token = if op.level = level then some op else none := by
  by_cases low : level < 6
  · interval_cases level <;> cases op <;> rfl
  · have none_ : operatorAt level = fun _ => none := by
      unfold operatorAt
      split <;> first | omega | rfl
    have apart : op.level ≠ level := by
      cases op <;> simp only [BinOp.level] <;> omega
    rw [none_, if_neg apart]

variable {self : List Token → Option (Expr × List Token)}

theorem stage_of_repeats {level : Nat} (repeats : Repeats level) (fuel : Nat)
    (tokens : List Token) :
    stage self level fuel tokens = (stage self (level + 1) fuel tokens).bind fun read =>
      chainLoop (operatorAt level) (stage self (level + 1) fuel) fuel read.1 read.2 := by
  rcases repeats with rfl | rfl | rfl | rfl <;> rfl

/-! ## What the levels read of a text without parentheses -/

def Reads (level : Nat) (tokens : List Token) (result : Expr × List Token) : Prop :=
  ∃ enough, ∀ self fuel, enough ≤ fuel → stage self level fuel tokens = some result

def Loops (level : Nat) (lhs : Expr) (tokens : List Token) (result : Expr × List Token) : Prop :=
  ∃ enough, ∀ self deep fuel, enough ≤ deep → enough ≤ fuel →
    chainLoop (operatorAt level) (stage self (level + 1) deep) fuel lhs tokens = some result

variable {level : Nat} {lhs rhs : Expr} {tokens rest : List Token} {result : Expr × List Token}

theorem reads_of_loops (repeats : Repeats level) (first : Reads (level + 1) tokens (lhs, rest))
    (loops : Loops level lhs rest result) : Reads level tokens result := by
  obtain ⟨enough, returns⟩ := first
  obtain ⟨other, continues⟩ := loops
  refine ⟨max enough other, fun self fuel atLeast => ?_⟩
  rw [stage_of_repeats repeats, returns self fuel (by omega), Option.bind_some]
  exact continues self fuel fuel (by omega) (by omega)

theorem loops_stop (closed : operatorAt level (peek tokens) = none) :
    Loops level lhs tokens (lhs, tokens) := by
  refine ⟨1, fun self deep fuel _ atLeast => ?_⟩
  obtain ⟨less, rfl⟩ : ∃ less, fuel = less + 1 := ⟨fuel - 1, by omega⟩
  rw [chainLoop, closed]

theorem loops_step {op : BinOp} (atLevel : op.level = level)
    (operand : Reads (level + 1) tokens (rhs, rest))
    (loops : Loops level (.bin op lhs rhs) rest result) :
    Loops level lhs (op.token :: tokens) result := by
  obtain ⟨enough, returns⟩ := operand
  obtain ⟨other, continues⟩ := loops
  refine ⟨max enough other + 1, fun self deep fuel deepEnough atLeast => ?_⟩
  obtain ⟨less, rfl⟩ : ∃ less, fuel = less + 1 := ⟨fuel - 1, by omega⟩
  have operator : operatorAt level (peek (op.token :: tokens)) = some op :=
    (operatorAt_token op level).trans (if_pos atLevel)
  simp only [chainLoop, operator, List.drop_succ_cons, List.drop_zero, returns self deep (by omega),
    Option.bind_eq_bind, Option.bind_some]
  exact continues self deep less (by omega) (by omega)

theorem reads_comparison {op : BinOp} (atLevel : op.level = 3)
    (first : Reads 4 tokens (lhs, op.token :: rest)) {behind : List Token}
    (second : Reads 4 rest (rhs, behind)) : Reads 3 tokens (.bin op lhs rhs, behind) := by
  obtain ⟨enough, returns⟩ := first
  obtain ⟨other, also⟩ := second
  refine ⟨max enough other, fun self fuel atLeast => ?_⟩
  have operator : cmpOp (peek (op.token :: rest)) = some op :=
    (operatorAt_token op 3).trans (if_pos atLevel)
  have left : parseAdd self fuel tokens = some (lhs, op.token :: rest) := returns self fuel (by omega)
  have right : parseAdd self fuel rest = some (rhs, behind) := also self fuel (by omega)
  simp only [stage, parseCmp, left, operator, List.drop_succ_cons, List.drop_zero, right,
    Option.bind_eq_bind, Option.bind_some]

theorem reads_no_comparison (closed : operatorAt 3 (peek rest) = none)
    (first : Reads 4 tokens (lhs, rest)) : Reads 3 tokens (lhs, rest) := by
  obtain ⟨enough, returns⟩ := first
  refine ⟨enough, fun self fuel atLeast => ?_⟩
  have left : parseAdd self fuel tokens = some (lhs, rest) := returns self fuel atLeast
  have operator : cmpOp (peek rest) = none := closed
  simp only [stage, parseCmp, left, operator, Option.bind_eq_bind, Option.bind_some]

theorem reads_unary (read : ∀ self, parseUnary self tokens = some result) :
    Reads 6 tokens result :=
  ⟨0, fun self _ _ => read self⟩

end Pantheon.Telos
