import Mathlib
import Pantheon.Sql.ReadBack

/-!
# NOT behind an operand, and column definitions

The table of binding powers has an entry for NOT, for NOT BETWEEN, NOT LIKE and NOT IN.
Before any other operand the loop takes NOT for an equality.
-/

set_option autoImplicit false

namespace Pantheon.Sql

open Grammar

variable {grammar : Grammar} {rest : List Token}

/-! ## An operand, NOT, and another operand -/

theorem Term.lt_rightBp_not : ∀ term : Term, 4 ≤ term.level → 5 < term.rightBp
  | .not term, _ => by
      rw [term.rightBp_not]
      split_ifs with loose
      · decide
      · exact term.lt_rightBp_not (Nat.le_of_not_lt loose)
  | .binary op left right, tight => by
      have odd := op.level_odd.1
      have level : (Term.binary op left right).level = op.level := rfl
      exact Term.lt_rightBp rfl (by decide) (by omega)
  | .literal _, _ | .column _, _ | .qualified _ _, _ | .neg _, _ | .test _ _ _, _
  | .between _ _ _ _, _ | .like _ _ _, _ | .inList _ _ _, _ =>
      Term.lt_rightBp rfl (by decide) (Nat.le_of_ble_eq_true rfl)

/-- What is read of the term and NOT with an operand behind it: the last operand of its ANDs
and ORs is compared with that operand. -/
def Term.thenNot (operand : Expr) : Term → Expr
  | .binary op left right =>
      if op.level < 5 then
        .binaryOp op.binOp (left.readUnder 0)
          (if right.level < op.level + 1 then .binaryOp .eq (right.readUnder 0) operand
          else right.thenNot operand)
      else .binaryOp .eq ((Term.binary op left right).readUnder 0) operand
  | term => .binaryOp .eq (term.readUnder 0) operand

theorem closes_not {bound : Nat} (above : 5 < bound) : Closes bound .not := by
  refine ⟨⟨Token.noConfusion, Token.noConfusion, Token.noConfusion⟩, fun entry found => ?_⟩
  cases found
  exact above

theorem loops_last (lhs : Expr) {minBp lBp rBp : Nat} {op : BinOp} {rhs : Expr}
    {tokens : List Token} (entry : infixBp (peek tokens) = some (lBp, rBp, op))
    (within : minBp ≤ lBp) (plain : PlainInfix tokens)
    (operand : grammar.Parses rBp (tokens.drop 1) (rhs, rest)) (closes : Closes 0 (peek rest)) :
    grammar.Loops minBp lhs tokens (.binaryOp op lhs rhs, rest) :=
  loops_turn entry within (turns_plain plain operand) (loops_closed (closes.mono (Nat.zero_le _)))

theorem loops_not {minBp : Nat} {lhs operand : Expr} {tokens : List Token}
    (begins : beginsOperand (peek tokens) = true) (low : minBp ≤ 5)
    (parses : grammar.Parses 6 tokens (operand, rest)) (closes : Closes 0 (peek rest)) :
    grammar.Loops minBp lhs (.not :: tokens) (.binaryOp .eq lhs operand, rest) := by
  have plain : PlainInfix (.not :: tokens) := by
    refine ⟨Token.noConfusion, Token.noConfusion, Token.noConfusion, fun word member same => ?_⟩
    have refused : beginsOperand word = false := by
      fin_cases member <;> rfl
    rcases same with same | same
    · rw [← same] at refused
      cases refused
    · exact ne_of_beginsOperand begins refused same.2
  exact loops_last lhs rfl low plain parses closes

section ThenNot

variable {operand : Expr} {tokens : List Token} (begins : beginsOperand (peek tokens) = true)
  (parses : grammar.Parses 6 tokens (operand, rest)) (closes : Closes 0 (peek rest))

include begins parses closes

theorem Term.parses_whole_not (term : Term) {minBp : Nat} (low : minBp ≤ 5)
    (within : minBp ≤ term.level) (tight : 4 ≤ term.level) :
    grammar.Parses minBp (term.bare ++ .not :: tokens)
      (.binaryOp .eq (term.readUnder 0) operand, rest) :=
  term.reads.parses 0 minBp _ _ within (closes_not (term.lt_rightBp_not tight))
    (loops_not begins low parses closes)

theorem Term.parses_thenNot : ∀ (term : Term) (minBp : Nat), minBp ≤ 5 → minBp ≤ term.level →
    grammar.Parses minBp (term.bare ++ .not :: tokens) (term.thenNot operand, rest)
  | .binary op left right, minBp, low, within => by
      have level : (Term.binary op left right).level = op.level := rfl
      rw [Term.thenNot]
      by_cases loose : op.level < 5
      · rw [if_pos loose]
        have last : grammar.Parses (op.level + 1)
            (enclose (right.level < op.level + 1) right.bare ++ .not :: tokens)
            (if right.level < op.level + 1 then .binaryOp .eq (right.readUnder 0) operand
              else right.thenNot operand, rest) := by
          by_cases wrapped : right.level < op.level + 1
          · rw [if_pos wrapped, enclose, if_pos (decide_eq_true wrapped), List.cons_append,
              List.append_assoc, List.singleton_append]
            exact parses_of_heads (right.reads.enclosed 0 (closes_not (Nat.lt_succ_self 5)).1)
              (loops_not begins (by omega) parses closes)
          · rw [if_neg wrapped, enclose, if_neg (by simpa using wrapped)]
            exact right.parses_thenNot (op.level + 1) (by omega) (Nat.le_of_not_lt wrapped)
        have plain : PlainInfix (op.token :: (enclose (right.level < op.level + 1) right.bare ++
            .not :: tokens)) := by
          cases op <;> simp [PlainInfix, peek, peek2, Operator.token]
        have entry : infixBp (peek (op.token :: (enclose (right.level < op.level + 1) right.bare ++
            .not :: tokens))) = some (op.level, op.level + 1, op.binOp) := op.infixBp_token
        have loops := loops_last (left.readUnder 0) entry within plain last closes
        rw [← sink_zero (left.level < op.level) left.readUnder] at loops
        have placed := left.reads.placed op.level minBp 0 loops
          (fun bound => ⟨le_trans within bound,
            op.closes (Term.lt_rightBp op.level_odd.1 op.level_odd.2 bound)⟩)
          (op.closes (Nat.lt_succ_self _)).1
        rw [sink_zero] at placed
        rw [Term.bare, List.append_assoc]
        exact placed
      · rw [if_neg loose]
        exact Term.parses_whole_not begins parses closes _ low within (by omega)
  | .not term, minBp, low, within =>
      Term.parses_whole_not begins parses closes (.not term) low within (le_refl 4)
  | .neg term, minBp, low, within =>
      Term.parses_whole_not begins parses closes (.neg term) low within
        (Nat.le_of_ble_eq_true rfl)
  | .literal value, minBp, low, within =>
      Term.parses_whole_not begins parses closes (.literal value) low within
        (Nat.le_of_ble_eq_true rfl)
  | .column name, minBp, low, within =>
      Term.parses_whole_not begins parses closes (.column name) low within
        (Nat.le_of_ble_eq_true rfl)
  | .qualified table name, minBp, low, within =>
      Term.parses_whole_not begins parses closes (.qualified table name) low within
        (Nat.le_of_ble_eq_true rfl)
  | .test kind negated term, minBp, low, within =>
      Term.parses_whole_not begins parses closes (.test kind negated term) low within
        (Nat.le_of_ble_eq_true rfl)
  | .between negated term lower upper, minBp, low, within =>
      Term.parses_whole_not begins parses closes (.between negated term lower upper) low within
        (Nat.le_of_ble_eq_true rfl)
  | .like negated term pattern, minBp, low, within =>
      Term.parses_whole_not begins parses closes (.like negated term pattern) low within
        (Nat.le_of_ble_eq_true rfl)
  | .inList negated term items, minBp, low, within =>
      Term.parses_whole_not begins parses closes (.inList negated term items) low within
        (Nat.le_of_ble_eq_true rfl)

end ThenNot

theorem Term.thenNot_ne (operand : Expr) : ∀ term : Term,
    term.thenNot operand ≠ term.readUnder 0 := by
  have larger : ∀ expr : Expr, Expr.binaryOp .eq expr operand ≠ expr := by
    intro expr same
    have sizes := congrArg sizeOf same
    simp only [Expr.binaryOp.sizeOf_spec] at sizes
    omega
  intro term
  induction term using Term.thenNot.induct with
  | case1 op left right loose ih =>
      rw [Term.thenNot, if_pos loose, Term.readUnder, sink_zero]
      intro same
      have right := (Expr.binaryOp.inj same).2.2
      split_ifs at right with wrapped
      · exact larger _ right
      · exact ih right
  | case2 op left right tight =>
      rw [Term.thenNot, if_neg tight]
      exact larger _
  | case3 term other =>
      rw [Term.thenNot]
      · exact larger _
      · exact other

/-! ## Column definitions -/

namespace Grammar

variable (grammar)

def Constrains (column : ParsedColumn) (tokens : List Token)
    (result : ParsedColumn × List Token) : Prop :=
  ∃ enough, ∀ fuel, enough ≤ fuel → grammar.parseConstraints fuel column tokens = .ok result

def ReadsColumn (tokens : List Token) (result : ParsedColumn × List Token) : Prop :=
  ∃ enough, ∀ fuel, enough ≤ fuel → grammar.parseColumn fuel tokens = .ok result

variable {grammar} {column : ParsedColumn} {tokens : List Token}
  {result : ParsedColumn × List Token}

theorem ReadsColumn.unique {first second : ParsedColumn × List Token}
    (left : grammar.ReadsColumn tokens first) (right : grammar.ReadsColumn tokens second) :
    first = second := by
  obtain ⟨enough, returns⟩ := left
  obtain ⟨other, also⟩ := right
  have same := (returns _ (le_max_left enough other)).symm.trans (also _ (le_max_right _ _))
  exact Except.ok.inj same

def EndsColumn (token : Token) : Prop := token = .comma ∨ token = .rParen

theorem EndsColumn.closes {token : Token} (ends : EndsColumn token) : Closes 0 token := by
  rcases ends with rfl | rfl
  · exact closes_comma
  · exact closes_rParen

theorem constrains_end (ends : EndsColumn (peek tokens)) :
    grammar.Constrains column tokens (column, tokens) := by
  refine ⟨1, fun fuel atLeast => ?_⟩
  obtain ⟨fuel, rfl⟩ : ∃ less, fuel = less + 1 := ⟨fuel - 1, by omega⟩
  rw [parseConstraints]
  rcases ends with end_ | end_
  · rw [end_]
  · rw [end_]

theorem constrains_default {expr : Expr} (parses : grammar.Parses 0 tokens (expr, rest))
    (later : grammar.Constrains { column with default := some expr } rest result) :
    grammar.Constrains column (.default :: tokens) result := by
  obtain ⟨enough, returns⟩ := parses
  obtain ⟨other, continues⟩ := later
  refine ⟨max enough other + 1, fun fuel atLeast => ?_⟩
  obtain ⟨fuel, rfl⟩ : ∃ less, fuel = less + 1 := ⟨fuel - 1, by omega⟩
  have expression : grammar.parseExpr fuel 0 ((Token.default :: tokens).drop 1) =
      .ok (expr, rest) := returns fuel (by omega)
  rw [parseConstraints]
  simp only [peek, List.headD_cons, expression, bind, Except.bind]
  exact continues fuel (by omega)

theorem constrains_notNull
    (later : grammar.Constrains { column with nullable := false } tokens result) :
    grammar.Constrains column (.not :: .null :: tokens) result := by
  obtain ⟨enough, continues⟩ := later
  refine ⟨enough + 1, fun fuel atLeast => ?_⟩
  obtain ⟨fuel, rfl⟩ : ∃ less, fuel = less + 1 := ⟨fuel - 1, by omega⟩
  exact continues fuel (by omega)

theorem readsColumn_of_constrains {name colType : String}
    (constrains : grammar.Constrains (newColumn name colType) tokens result) :
    grammar.ReadsColumn (.ident name :: .ident colType :: tokens) result := by
  obtain ⟨enough, returns⟩ := constrains
  exact ⟨enough, returns⟩

end Grammar

theorem readsColumn_default_notNull (name colType : String) (term : Term)
    (ends : EndsColumn (peek rest)) :
    grammar.ReadsColumn
      (.ident name :: .ident colType :: .default :: (term.print 0 ++ .not :: .null :: rest))
      ({ newColumn name colType with default := some (term.thenNot (.literal .null)) }, rest) := by
  have null : grammar.Parses 6 (.null :: rest) (.literal .null, rest) := by
    have reads : Reads grammar (.literal .null) := Term.reads _
    exact reads.operand (ends.closes.mono (Nat.zero_le 6))
  have parses := term.parses_thenNot rfl null ends.closes 0 (Nat.zero_le 5) (Nat.zero_le _)
  exact readsColumn_of_constrains (constrains_default parses (constrains_end ends))

theorem readsColumn_notNull_default (name colType : String) (term : Term)
    (ends : EndsColumn (peek rest)) :
    grammar.ReadsColumn
      (.ident name :: .ident colType :: .not :: .null :: .default :: (term.print 0 ++ rest))
      ({ newColumn name colType with nullable := false, default := some (term.readUnder 0) },
        rest) := by
  have reads : Reads grammar term := term.reads
  exact readsColumn_of_constrains
    (constrains_notNull (constrains_default (reads.whole ends.closes) (constrains_end ends)))

theorem readsColumn_orders_ne (name colType : String) (term : Term)
    (ends : EndsColumn (peek rest)) {column : ParsedColumn}
    (first : grammar.ReadsColumn
      (.ident name :: .ident colType :: .default :: (term.print 0 ++ .not :: .null :: rest))
      (column, rest)) :
    ¬ grammar.ReadsColumn
      (.ident name :: .ident colType :: .not :: .null :: .default :: (term.print 0 ++ rest))
      (column, rest) := by
  intro second
  have left := first.unique (readsColumn_default_notNull name colType term ends)
  have right := second.unique (readsColumn_notNull_default name colType term ends)
  have same := congrArg (fun result => result.1.default) (left.symm.trans right)
  exact term.thenNot_ne _ (Option.some.inj same)

/-! ## The grammar -/

/-- A written term is read back exactly when each of its NOTs takes what stands behind it.
NOT is taken in front of every operand, and a default takes the NOT of NOT NULL. -/
theorem expression_grammar (grammar : Grammar) (term : Term) (rest : List Token)
    (closes : Closes 0 (peek rest)) :
    (grammar.Parses 0 (term.print 0 ++ rest) (term.toExpr, rest) ↔ term.NotsHold) ∧
      (∀ operand : Term, ∃ expr,
        grammar.Parses 0 (term.print 0 ++ .not :: (operand.print 6 ++ rest)) (expr, rest)) ∧
      (EndsColumn (peek rest) → ∀ (name colType : String) (column : ParsedColumn),
        grammar.ReadsColumn
          (.ident name :: .ident colType :: .default :: (term.print 0 ++ .not :: .null :: rest))
          (column, rest) →
        ¬ grammar.ReadsColumn
          (.ident name :: .ident colType :: .not :: .null :: .default :: (term.print 0 ++ rest))
          (column, rest)) := by
  refine ⟨parses_print_iff term closes, fun operand => ?_,
    fun ends name colType column first => readsColumn_orders_ne name colType term ends first⟩
  have reads : Reads grammar operand := operand.reads
  have begins : beginsOperand (peek (operand.print 6 ++ rest)) = true :=
    begins_enclose (operand.begins_bare _)
  exact ⟨_, term.parses_thenNot begins (reads.operand (closes.mono (Nat.zero_le 6))) closes 0
    (Nat.zero_le 5) (Nat.zero_le _)⟩

/-- `a AND NOT b`. -/
def plainNot : Term := .binary .and (.column "a") (.not (.column "b"))

/-- `NOT a = b`. -/
def comparedNot : Term := .not (.binary .eq (.column "a") (.column "b"))

def bareGrammar : Grammar := ⟨fun _ => .error "no SELECT", fun _ => "token", fun _ => 0⟩

theorem plainNot_read_back :
    bareGrammar.Parses 0 (plainNot.print 0 ++ [.rParen]) (plainNot.toExpr, [.rParen]) :=
  (expression_grammar bareGrammar plainNot [.rParen] closes_rParen).1.mpr
    ⟨trivial, Or.inr rfl, trivial⟩

/-- `NOT a = b` is read as `(NOT a) = b`. -/
theorem comparedNot_sinks :
    ¬ bareGrammar.Parses 0 (comparedNot.print 0 ++ [.rParen]) (comparedNot.toExpr, [.rParen]) ∧
      bareGrammar.Parses 0 (comparedNot.print 0 ++ [.rParen])
        (.binaryOp .eq (.unaryOp .not (.ident "a")) (.ident "b"), [.rParen]) := by
  have reads : Reads bareGrammar comparedNot := comparedNot.reads
  have closes : Closes 0 (peek [Token.rParen]) := closes_rParen
  refine ⟨fun parsed => ?_, reads.whole closes⟩
  have holds := (parses_print_iff comparedNot closes).mp parsed
  rcases holds.1 with loose | takes
  · exact absurd loose (by decide)
  · exact absurd takes (by decide)

end Pantheon.Sql
