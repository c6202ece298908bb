import Mathlib
import Pantheon.Sql.Parser

/-!
# What the expression parser does, rule by rule

`Parses` says what `parse_expr` returns with enough fuel, `Heads` what `parse_unary`
returns, `Turns` what one turn of the operator loop makes of its left operand, and `Loops`
what the loop makes of it.  A parse is a head and a loop.
-/

set_option autoImplicit false

namespace Pantheon.Sql

namespace Grammar

variable (grammar : Grammar)

def Parses (minBp : Nat) (tokens : List Token) (result : Expr × List Token) : Prop :=
  ∃ enough, ∀ fuel, enough ≤ fuel → grammar.parseExpr fuel minBp tokens = .ok result

def Heads (tokens : List Token) (result : Expr × List Token) : Prop :=
  ∃ enough, ∀ deep fuel, enough ≤ deep → enough ≤ fuel →
    grammar.parseUnary (grammar.parseExpr deep) fuel tokens = .ok result

def Turns (rBp : Nat) (op : BinOp) (lhs : Expr) (tokens : List Token)
    (result : Expr × List Token) : Prop :=
  ∃ enough, ∀ deep fuel, enough ≤ deep → enough ≤ fuel →
    grammar.parseInfix (grammar.parseExpr deep) fuel rBp op lhs tokens = .ok result

def Loops (minBp : Nat) (lhs : Expr) (tokens : List Token) (result : Expr × List Token) : Prop :=
  ∃ enough, ∀ deep fuel, enough ≤ deep → enough ≤ fuel →
    grammar.infixLoop (grammar.parseExpr deep) minBp fuel lhs tokens = .ok result

def ReadsList (tokens : List Token) (result : List Expr × List Token) : Prop :=
  ∃ enough, ∀ deep fuel, enough ≤ deep → enough ≤ fuel →
    parseExprList (grammar.parseExpr deep) fuel tokens = .ok result

variable {grammar} {minBp rBp : Nat} {op : BinOp} {lhs rhs next : Expr}
  {tokens rest : List Token} {result : Expr × List Token}

theorem Parses.unique {first second : Expr × List Token}
    (left : grammar.Parses minBp tokens first) (right : grammar.Parses minBp tokens second) :
    first = second := by
  obtain ⟨enough, returns⟩ := left
  obtain ⟨other, also⟩ := right
  have same := (returns _ (le_max_left enough other)).symm.trans (also _ (le_max_right _ _))
  exact Except.ok.inj same

theorem parses_of_heads (heads : grammar.Heads tokens (lhs, rest))
    (loops : grammar.Loops minBp lhs rest result) : grammar.Parses minBp tokens result := by
  obtain ⟨enough, returns⟩ := heads
  obtain ⟨other, continues⟩ := loops
  refine ⟨max enough other + 1, fun fuel atLeast => ?_⟩
  obtain ⟨fuel, rfl⟩ : ∃ less, fuel = less + 1 := ⟨fuel - 1, by omega⟩
  simp only [parseExpr, returns fuel fuel (by omega) (by omega), bind, Except.bind]
  exact continues fuel fuel (by omega) (by omega)

/-! ## The loop -/

theorem loops_stop (closed : ∀ entry, infixBp (peek tokens) = some entry → entry.1 < minBp) :
    grammar.Loops minBp lhs tokens (lhs, tokens) := by
  refine ⟨1, fun deep fuel _ atLeast => ?_⟩
  obtain ⟨fuel, rfl⟩ : ∃ less, fuel = less + 1 := ⟨fuel - 1, by omega⟩
  rw [infixLoop]
  cases entry : infixBp (peek tokens) with
  | none => rfl
  | some powers => exact if_pos (closed powers entry)

theorem loops_turn {lBp : Nat} (entry : infixBp (peek tokens) = some (lBp, rBp, op))
    (binds : minBp ≤ lBp) (turns : grammar.Turns rBp op lhs tokens (next, rest))
    (loops : grammar.Loops minBp next rest result) : grammar.Loops minBp lhs tokens result := by
  obtain ⟨enough, returns⟩ := turns
  obtain ⟨other, continues⟩ := loops
  refine ⟨max enough other + 1, fun deep fuel deepEnough atLeast => ?_⟩
  obtain ⟨fuel, rfl⟩ : ∃ less, fuel = less + 1 := ⟨fuel - 1, by omega⟩
  rw [infixLoop, entry]
  simp only [if_neg (Nat.not_lt.mpr binds), returns deep fuel (by omega) (by omega), bind,
    Except.bind]
  exact continues deep fuel (by omega) (by omega)

def PlainInfix (tokens : List Token) : Prop :=
  peek tokens ≠ .is ∧ peek tokens ≠ .collate ∧ peek tokens ≠ .operator ∧
    ∀ word ∈ [Token.between, .like, .in_],
      ¬ (peek tokens = word ∨ peek tokens = .not ∧ peek2 tokens = word)

theorem turns_plain (plain : PlainInfix tokens)
    (operand : grammar.Parses rBp (tokens.drop 1) (rhs, rest)) :
    grammar.Turns rBp op lhs tokens (.binaryOp op lhs rhs, rest) := by
  obtain ⟨notIs, notCollate, notOperator, notWord⟩ := plain
  obtain ⟨enough, returns⟩ := operand
  refine ⟨enough, fun deep fuel deepEnough _ => ?_⟩
  simp only [parseInfix, if_neg notIs, if_neg notCollate, if_neg notOperator,
    if_neg (notWord .between (by simp)), if_neg (notWord .like (by simp)),
    if_neg (notWord .in_ (by simp)), returns deep deepEnough, bind, Except.bind]

def testExpr (kind : Token) (lhs : Expr) (negated : Bool) : Expr :=
  match kind with
  | .true_ => .isTrue lhs negated
  | .false_ => .isFalse lhs negated
  | _ => .isNull lhs negated

/-- `NOT` or nothing. -/
def negation (negated : Bool) : List Token := if negated then [.not] else []

variable (tokens) in
theorem eat_negation (negated : Bool) (other : peek tokens ≠ .not) :
    eat .not (negation negated ++ tokens) = (negated, tokens) := by
  cases negated with
  | true => rfl
  | false => exact if_neg other

theorem turns_is {kind : Token} (test : kind = .null ∨ kind = .true_ ∨ kind = .false_)
    (negated : Bool) :
    grammar.Turns rBp op lhs (.is :: (negation negated ++ kind :: rest))
      (testExpr kind lhs negated, rest) := by
  refine ⟨0, fun deep fuel _ _ => ?_⟩
  have eaten : eat .not (negation negated ++ kind :: rest) = (negated, kind :: rest) := by
    apply eat_negation
    rcases test with same | same | same
    all_goals
      rw [same]
      exact Token.noConfusion
  have is : peek (.is :: (negation negated ++ kind :: rest)) = .is := rfl
  simp only [parseInfix, if_pos is, List.drop_succ_cons, List.drop_zero, parseIs, eaten]
  rcases test with same | same | same
  all_goals
    rw [same]
    rfl

theorem word_of_negation {word : Token} (negated : Bool) :
    peek (negation negated ++ word :: rest) = word ∨
      peek (negation negated ++ word :: rest) = .not ∧
        peek2 (negation negated ++ word :: rest) = word := by
  cases negated with
  | true => exact Or.inr ⟨rfl, rfl⟩
  | false => exact Or.inl rfl

theorem infixBp_negation {word : Token} (negated : Bool)
    (predicate : word = .between ∨ word = .like ∨ word = .in_) :
    infixBp (peek (negation negated ++ word :: rest)) = some (5, 6, .eq) := by
  cases negated with
  | true => rfl
  | false =>
      rcases predicate with same | same | same
      all_goals
        rw [same]
        rfl

theorem expect_cons (token : Token) (tokens : List Token) :
    grammar.expect token (token :: tokens) = .ok tokens :=
  if_pos rfl

theorem eat_cons (token : Token) (tokens : List Token) :
    eat token (token :: tokens) = (true, tokens) :=
  if_pos rfl

variable (rest) in
theorem peek_negation_ne_is (word : Token) (negated : Bool) (other : word ≠ .is) :
    peek (negation negated ++ word :: rest) ≠ .is := by
  cases negated with
  | true => exact Token.noConfusion
  | false => exact other

theorem not_word_of_negation {word asked : Token} (negated : Bool) (other : word ≠ asked)
    (plain : word ≠ .not) (operator : asked ≠ .not) :
    ¬ (peek (negation negated ++ word :: rest) = asked ∨
      peek (negation negated ++ word :: rest) = .not ∧
        peek2 (negation negated ++ word :: rest) = asked) := by
  cases negated with
  | true =>
      intro same
      rcases same with same | same
      · exact operator same.symm
      · exact other same.2
  | false =>
      intro same
      rcases same with same | same
      · exact other same
      · exact plain same.1

theorem turns_between {low high : Expr} {middle : List Token} (negated : Bool)
    (lower : grammar.Parses rBp tokens (low, .and :: middle))
    (upper : grammar.Parses rBp middle (high, rest)) :
    grammar.Turns rBp op lhs (negation negated ++ .between :: tokens)
      (.between lhs low high negated, rest) := by
  obtain ⟨enough, returns⟩ := lower
  obtain ⟨other, also⟩ := upper
  refine ⟨max enough other, fun deep fuel deepEnough _ => ?_⟩
  have eaten := eat_negation (.between :: tokens) negated Token.noConfusion
  have notIs := peek_negation_ne_is tokens .between negated Token.noConfusion
  rw [parseInfix, if_neg notIs, if_pos (word_of_negation negated)]
  simp only [parseBetween, eaten, expect_cons, eat_cons, bind, Except.bind,
    returns deep (le_trans (le_max_left _ _) deepEnough),
    also deep (le_trans (le_max_right _ _) deepEnough)]

theorem turns_like {pattern : Expr} (negated : Bool)
    (operand : grammar.Parses rBp tokens (pattern, rest)) :
    grammar.Turns rBp op lhs (negation negated ++ .like :: tokens)
      (.like lhs pattern negated, rest) := by
  obtain ⟨enough, returns⟩ := operand
  refine ⟨enough, fun deep fuel deepEnough _ => ?_⟩
  have eaten := eat_negation (.like :: tokens) negated Token.noConfusion
  have notIs := peek_negation_ne_is tokens .like negated Token.noConfusion
  rw [parseInfix, if_neg notIs,
    if_neg (not_word_of_negation negated Token.noConfusion Token.noConfusion Token.noConfusion),
    if_pos (word_of_negation negated)]
  simp only [parseLike, eaten, expect_cons, bind, Except.bind, returns deep deepEnough]

theorem turns_in {items : List Expr} (negated : Bool) (list : peek tokens ≠ .select)
    (operands : grammar.ReadsList tokens (items, .rParen :: rest)) :
    grammar.Turns rBp op lhs (negation negated ++ .in_ :: .lParen :: tokens)
      (.inList lhs items negated, rest) := by
  obtain ⟨enough, returns⟩ := operands
  refine ⟨enough, fun deep fuel deepEnough fuelEnough => ?_⟩
  have eaten := eat_negation (.in_ :: .lParen :: tokens) negated Token.noConfusion
  have notIs := peek_negation_ne_is (.lParen :: tokens) .in_ negated
    Token.noConfusion
  rw [parseInfix, if_neg notIs,
    if_neg (not_word_of_negation negated Token.noConfusion Token.noConfusion Token.noConfusion),
    if_neg (not_word_of_negation negated Token.noConfusion Token.noConfusion Token.noConfusion),
    if_pos (word_of_negation negated)]
  simp only [parseIn, eaten, expect_cons, bind, Except.bind, if_neg list,
    returns deep fuel deepEnough fuelEnough]

/-! ## Lists -/

theorem readsList_last {item : Expr} (parses : grammar.Parses 0 tokens (item, rest))
    (last : peek rest ≠ .comma) : grammar.ReadsList tokens ([item], rest) := by
  obtain ⟨enough, returns⟩ := parses
  refine ⟨enough + 1, fun deep fuel deepEnough fuelEnough => ?_⟩
  obtain ⟨fuel, rfl⟩ : ∃ less, fuel = less + 1 := ⟨fuel - 1, by omega⟩
  simp only [parseExprList, returns deep (by omega), bind, Except.bind, if_neg last]

theorem readsList_more {item : Expr} {items : List Expr} {more : List Token}
    (parses : grammar.Parses 0 tokens (item, .comma :: more))
    (later : grammar.ReadsList more (items, rest)) :
    grammar.ReadsList tokens (item :: items, rest) := by
  obtain ⟨enough, returns⟩ := parses
  obtain ⟨other, also⟩ := later
  refine ⟨max enough other + 1, fun deep fuel deepEnough fuelEnough => ?_⟩
  obtain ⟨fuel, rfl⟩ : ∃ less, fuel = less + 1 := ⟨fuel - 1, by omega⟩
  have comma : peek (Token.comma :: more) = .comma := rfl
  simp only [parseExprList, returns deep (by omega), bind, Except.bind, if_pos comma,
    List.drop_succ_cons, List.drop_zero, also deep fuel (by omega) (by omega)]

/-! ## Heads -/

theorem heads_not (operand : peek tokens ≠ .exists) (heads : grammar.Heads tokens (rhs, rest)) :
    grammar.Heads (.not :: tokens) (.unaryOp .not rhs, rest) := by
  obtain ⟨enough, returns⟩ := heads
  refine ⟨enough, fun deep fuel deepEnough fuelEnough => ?_⟩
  rw [parseUnary, if_neg operand]
  simp only [returns deep fuel deepEnough fuelEnough, bind, Except.bind]

theorem heads_neg (heads : grammar.Heads tokens (rhs, rest)) :
    grammar.Heads (.minus :: tokens) (.unaryOp .neg rhs, rest) := by
  obtain ⟨enough, returns⟩ := heads
  refine ⟨enough, fun deep fuel deepEnough fuelEnough => ?_⟩
  rw [parseUnary]
  simp only [returns deep fuel deepEnough fuelEnough, bind, Except.bind]

theorem heads_atom {token : Token} (prefixed : token ≠ .minus ∧ token ≠ .plus ∧ token ≠ .not ∧
      token ≠ .exists) (uncast : peek rest ≠ .doubleColon)
    (atom : ∃ enough, ∀ deep fuel, enough ≤ deep → enough ≤ fuel →
      grammar.parseAtom (grammar.parseExpr deep) fuel (token :: tokens) = .ok (lhs, rest)) :
    grammar.Heads (token :: tokens) (lhs, rest) := by
  obtain ⟨enough, returns⟩ := atom
  obtain ⟨notMinus, notPlus, notNot, notExists⟩ := prefixed
  refine ⟨enough, fun deep fuel deepEnough fuelEnough => ?_⟩
  have cast : grammar.parseCasts lhs rest = .ok (lhs, rest) := by
    unfold parseCasts
    split
    · exact absurd rfl uncast
    · exact absurd rfl uncast
    · rfl
  have direct : grammar.parseUnary (grammar.parseExpr deep) fuel (token :: tokens) =
      grammar.parsePostfix (grammar.parseExpr deep) fuel (token :: tokens) := by
    unfold parseUnary
    split <;> simp_all
  rw [direct, parsePostfix, returns deep fuel deepEnough fuelEnough]
  exact cast

theorem heads_paren (inside : peek tokens ≠ .select)
    (parses : grammar.Parses 0 tokens (lhs, .rParen :: rest)) (uncast : peek rest ≠ .doubleColon) :
    grammar.Heads (.lParen :: tokens) (lhs, rest) := by
  obtain ⟨enough, returns⟩ := parses
  refine heads_atom (by simp) uncast ⟨enough, fun deep fuel deepEnough _ => ?_⟩
  have first : peek2 (.lParen :: tokens) ≠ .select := inside
  simp only [parseAtom, peek, List.headD_cons, if_neg first, List.drop_succ_cons, List.drop_zero,
    returns deep deepEnough, bind, Except.bind, expect_cons]

end Grammar

end Pantheon.Sql
