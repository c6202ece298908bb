import Mathlib
import Pantheon.Sql.Written

/-!
# Reading a written expression back

The parser reads every term that SQL writes, as `readUnder` says.  The induction is over
the term, for any NOTs in front of it and anything behind it that binds more loosely.
-/

set_option autoImplicit false

namespace Pantheon.Sql

open Grammar

/-! ## The tokens behind a term -/

/-- The token continues no name and no cast. -/
def EndsAtom (token : Token) : Prop :=
  token ≠ .doubleColon ∧ token ≠ .lParen ∧ token ≠ .dot

/-- The token ends an operand of a loop that takes operators from `minBp` on. -/
def Closes (minBp : Nat) (token : Token) : Prop :=
  EndsAtom token ∧ ∀ entry, infixBp token = some entry → entry.1 < minBp

theorem Closes.mono {less more : Nat} {token : Token} (closes : Closes less token)
    (within : less ≤ more) : Closes more token :=
  ⟨closes.1, fun entry found => lt_of_lt_of_le (closes.2 entry found) within⟩

theorem Operator.infixBp_token (op : Operator) :
    infixBp op.token = some (op.level, op.level + 1, op.binOp) := by
  cases op <;> rfl

theorem Operator.level_odd (op : Operator) : op.level % 2 = 1 ∧ op.level ≤ 11 := by
  cases op <;> decide

theorem Operator.closes {op : Operator} {bound : Nat} (binds : op.level < bound) :
    Closes bound op.token := by
  refine ⟨?_, fun entry found => ?_⟩
  · cases op <;> simp [EndsAtom, Operator.token]
  · rw [op.infixBp_token] at found
    cases found
    exact binds

theorem closes_rParen : Closes 0 .rParen :=
  ⟨by simp [EndsAtom], fun entry found => by cases found⟩

theorem closes_comma : Closes 0 .comma :=
  ⟨by simp [EndsAtom], fun entry found => by cases found⟩

/-- From which binding power on an operator behind the term goes to its last operand. -/
def Term.rightBp : Term → Nat
  | .binary op _ _ => op.level + 1
  | .between _ _ _ _ | .like _ _ _ => 6
  | .not term => if term.level < 4 then 16 else term.rightBp
  | _ => 16

theorem Term.rightBp_not (term : Term) :
    (Term.not term).rightBp = if term.level < 4 then 16 else term.rightBp :=
  rfl

theorem Term.level_le_rightBp : ∀ term : Term, term.level ≤ term.rightBp
  | .literal _ | .column _ | .qualified _ _ => le_refl 16
  | .neg _ => Nat.le_succ 15
  | .binary op _ _ => Nat.le_succ op.level
  | .between _ _ _ _ | .like _ _ _ => Nat.le_succ 5
  | .test _ _ _ | .inList _ _ _ => Nat.le_of_ble_eq_true rfl
  | .not term => by
      have inner := term.level_le_rightBp
      have outer : (Term.not term).level = 4 := rfl
      rw [term.rightBp_not, outer]
      split_ifs <;> omega

variable {term : Term} {negated : Bool}

theorem Term.lt_rightBp {power : Nat} (odd : power % 2 = 1) (small : power ≤ 11)
    (within : power ≤ term.level) : power < term.rightBp := by
  cases term with
  | not term =>
      have inner := term.level_le_rightBp
      have outer : (Term.not term).level = 4 := rfl
      rw [outer] at within
      rw [term.rightBp_not]
      split_ifs <;> omega
  | binary op left right => exact Nat.lt_succ_of_le within
  | between negated term low high => exact Nat.lt_succ_of_le within
  | like negated term pattern => exact Nat.lt_succ_of_le within
  | _ => exact lt_of_le_of_lt small (show 11 < 16 by decide)

/-! ## The first token -/

def beginsOperand : Token → Bool
  | .select | .exists | .between | .like | .in_ => false
  | _ => true

theorem ne_of_beginsOperand {token word : Token} (begins : beginsOperand token = true)
    (refused : beginsOperand word = false) : token ≠ word := by
  intro same
  rw [same, refused] at begins
  cases begins

theorem begins_enclose {loose : Bool} {tokens rest : List Token}
    (bare : beginsOperand (peek (tokens ++ rest)) = true) :
    beginsOperand (peek (enclose loose tokens ++ rest)) = true := by
  cases loose with
  | true => rfl
  | false => exact bare

theorem Term.begins_bare : ∀ (term : Term) (rest : List Token),
    beginsOperand (peek (term.bare ++ rest)) = true
  | .literal value, rest => by
      rw [bare]
      cases value with
      | bool value => cases value <;> rfl
      | _ => rfl
  | .column _, _ | .qualified _ _, _ | .neg _, _ | .not _, _ => by
      rw [bare]
      rfl
  | .binary op left right, rest => by
      rw [bare, List.append_assoc]
      exact begins_enclose (left.begins_bare _)
  | .test kind negated term, rest => by
      rw [bare, List.append_assoc]
      exact begins_enclose (term.begins_bare _)
  | .between negated term low high, rest => by
      rw [bare, List.append_assoc]
      exact begins_enclose (term.begins_bare _)
  | .like negated term pattern, rest => by
      rw [bare, List.append_assoc]
      exact begins_enclose (term.begins_bare _)
  | .inList negated term items, rest => by
      rw [bare, List.append_assoc]
      exact begins_enclose (term.begins_bare _)

theorem Items.begins_tokens (items : Items) (rest : List Token) :
    beginsOperand (peek (items.tokens ++ rest)) = true := by
  cases items with
  | last term =>
      rw [tokens]
      exact term.begins_bare rest
  | more term items =>
      rw [tokens, List.append_assoc]
      exact term.begins_bare _

/-! ## Atoms -/

variable {grammar : Grammar} {rest : List Token}

theorem heads_nots {tokens : List Token} {expr : Expr} (operand : peek tokens ≠ .exists)
    (heads : grammar.Heads tokens (expr, rest)) : ∀ count,
      grammar.Heads (List.replicate count .not ++ tokens) (negate count expr, rest) := by
  intro count
  induction count with
  | zero => exact heads
  | succ count ih =>
      refine heads_not ?_ ih
      cases count with
      | zero => exact operand
      | succ count => exact Token.noConfusion

theorem floatItems_arrayTokens (rest : List Token) (value : F64) (values : List F64) :
    grammar.floatItems (arrayTokens (value :: values) ++ .rBracket :: rest) =
      .ok (value :: values, .rBracket :: rest) := by
  induction values generalizing value with
  | nil => rfl
  | cons next values ih =>
      rw [arrayTokens, List.cons_append, List.cons_append, floatItems, ih]
      · rfl
      · exact List.cons_ne_nil _ _

theorem heads_literal (value : Literal) (uncast : peek rest ≠ .doubleColon) :
    grammar.Heads (literalTokens value ++ rest) (.literal value, rest) := by
  cases value with
  | bool value => cases value <;> exact heads_atom (by simp) uncast ⟨0, fun _ _ _ _ => rfl⟩
  | floatArray values =>
      refine heads_atom (by simp) uncast ⟨0, fun deep fuel _ _ => ?_⟩
      have array : parseFloatArrayLiteral grammar
          (.lBracket :: (arrayTokens values ++ [.rBracket] ++ rest)) =
            .ok (.literal (.floatArray values), rest) := by
        rw [List.append_assoc, List.singleton_append]
        simp only [parseFloatArrayLiteral, expect_cons, bind, Except.bind]
        cases values with
        | nil => rfl
        | cons value values =>
            have first : peek (arrayTokens (value :: values) ++ .rBracket :: rest) ≠ .rBracket := by
              cases values <;> exact Token.noConfusion
            simp only [if_neg first, floatItems_arrayTokens, expect_cons]
      exact array
  | _ => exact heads_atom (by simp) uncast ⟨0, fun _ _ _ _ => rfl⟩

theorem heads_column (name : String) (ends : EndsAtom (peek rest)) :
    grammar.Heads (.ident name :: rest) (.ident name, rest) := by
  refine heads_atom (by simp) ends.1 ⟨0, fun deep fuel _ _ => ?_⟩
  have column : parseName grammar (grammar.parseExpr deep) fuel name rest =
      .ok (.ident name, rest) := by
    rw [parseName, if_neg ends.2.1, if_neg ends.2.2]
  exact column

theorem heads_qualified (table name : String) (ends : EndsAtom (peek rest)) :
    grammar.Heads (.ident table :: .dot :: .ident name :: rest)
      (.qualifiedIdent table name, rest) := by
  refine heads_atom (by simp) ends.1 ⟨0, fun deep fuel _ _ => ?_⟩
  have column : parseName grammar (grammar.parseExpr deep) fuel table
      (.dot :: .ident name :: rest) = .ok (.qualifiedIdent table name, rest) := by
    have notCall : peek (.dot :: .ident name :: rest) ≠ .lParen := Token.noConfusion
    have dot : peek (.dot :: .ident name :: rest) = .dot := rfl
    have read : grammar.parseIdentString (.ident name :: rest) = .ok (name, rest) := rfl
    rw [parseName, if_neg notCall, if_pos dot]
    simp only [List.drop_succ_cons, List.drop_zero, read, bind, Except.bind, if_neg ends.2.1]
  exact column

/-! ## One term -/

/-- How a term is read, in front of any tokens: in a loop of operators, and as the operand of
a sign. -/
structure Reads (grammar : Grammar) (term : Term) : Prop where
  parses : ∀ (count minBp : Nat) (rest : List Token) (result : Expr × List Token),
    minBp ≤ term.level → Closes term.rightBp (peek rest) →
    grammar.Loops minBp (term.readUnder count) rest result →
    grammar.Parses minBp (List.replicate count .not ++ (term.bare ++ rest)) result
  heads : 15 ≤ term.level → ∀ (count : Nat) (rest : List Token), EndsAtom (peek rest) →
    grammar.Heads (List.replicate count .not ++ (term.bare ++ rest)) (term.readUnder count, rest)

theorem reads_of_heads (heads : ∀ (count : Nat) (rest : List Token),
      EndsAtom (peek rest) → grammar.Heads (List.replicate count .not ++ (term.bare ++ rest))
        (term.readUnder count, rest)) : Reads grammar term :=
  ⟨fun count _ rest _ _ closes loops => parses_of_heads (heads count rest closes.1) loops,
    fun _ => heads⟩

theorem loops_closed {minBp : Nat} {lhs : Expr} (closes : Closes minBp (peek rest)) :
    grammar.Loops minBp lhs rest (lhs, rest) :=
  loops_stop closes.2

namespace Reads

variable {term : Term} (reads : Reads grammar term)

include reads

theorem enclosed (count : Nat) (ends : EndsAtom (peek rest)) :
    grammar.Heads (List.replicate count .not ++ (.lParen :: (term.bare ++ .rParen :: rest)))
      (negate count (term.readUnder 0), rest) := by
  refine heads_nots Token.noConfusion
    (heads_paren (ne_of_beginsOperand (term.begins_bare _) rfl) ?_ ends.1) count
  exact reads.parses 0 0 _ _ (Nat.zero_le _) (closes_rParen.mono (Nat.zero_le _))
    (loops_closed closes_rParen)

theorem placed (place minBp count : Nat) {result : Expr × List Token}
    (loops : grammar.Loops minBp (sink (term.level < place) count term.readUnder) rest result)
    (bare : place ≤ term.level → minBp ≤ term.level ∧ Closes term.rightBp (peek rest))
    (ends : EndsAtom (peek rest)) :
    grammar.Parses minBp (List.replicate count .not ++
      (enclose (term.level < place) term.bare ++ rest)) result := by
  by_cases loose : term.level < place
  · simp only [sink, enclose, decide_eq_true loose, if_true] at loops ⊢
    have heads := reads.enclosed count ends
    rw [List.cons_append, List.append_assoc, List.singleton_append]
    exact parses_of_heads heads loops
  · simp only [sink, enclose, decide_eq_false loose, Bool.false_eq_true, if_false] at loops ⊢
    obtain ⟨within, closes⟩ := bare (Nat.le_of_not_lt loose)
    exact reads.parses count minBp rest result within closes loops

theorem operand {place : Nat} (closes : Closes place (peek rest)) :
    grammar.Parses place (enclose (term.level < place) term.bare ++ rest)
      (term.readUnder 0, rest) := by
  have sunk : sink (term.level < place) 0 term.readUnder = term.readUnder 0 := by
    unfold sink
    split_ifs <;> rfl
  have loops : grammar.Loops place (sink (term.level < place) 0 term.readUnder) rest
      (term.readUnder 0, rest) := by
    rw [sunk]
    exact loops_closed closes
  have placed := reads.placed place place 0 loops
    (fun within => ⟨within, closes.mono (le_trans within term.level_le_rightBp)⟩) closes.1
  exact placed

theorem signed (ends : EndsAtom (peek rest)) :
    grammar.Heads (enclose (term.level < 15) term.bare ++ rest) (term.readUnder 0, rest) := by
  by_cases loose : term.level < 15
  · simp only [enclose, decide_eq_true loose, if_true]
    have heads := reads.enclosed 0 ends
    rw [List.cons_append, List.append_assoc, List.singleton_append]
    exact heads
  · simp only [enclose, decide_eq_false loose, Bool.false_eq_true, if_false]
    exact reads.heads (Nat.le_of_not_lt loose) 0 rest ends

end Reads

theorem reads_neg (reads : Reads grammar term) : Reads grammar (.neg term) := by
  apply reads_of_heads
  intro count rest ends
  exact heads_nots Token.noConfusion (heads_neg (reads.signed ends)) count

theorem reads_not (reads : Reads grammar term) : Reads grammar (.not term) := by
  constructor
  · intro count minBp rest result within closes loops
    have more := reads.placed 4 minBp (count + 1) loops (fun bare => ?_) closes.1
    · rw [Term.bare]
      rw [List.replicate_succ', List.append_assoc, List.singleton_append] at more
      exact more
    · rw [term.rightBp_not, if_neg (Nat.not_lt.mpr bare)] at closes
      exact ⟨le_trans within bare, closes⟩
  · intro tight
    exact absurd tight (show ¬ 15 ≤ 4 by decide)

/-- A term that begins with an operand on its left: an operator or a predicate, whose tokens
behind that operand are one turn of the loop. -/
theorem reads_turn {left : Term} (leftReads : Reads grammar left) (tail : List Token)
    (rBp : Nat) (op : BinOp) (build : Expr → Expr)
    (levels : term.level % 2 = 1 ∧ term.level ≤ 11)
    (bare : term.bare = enclose (left.level < term.level) left.bare ++ tail)
    (read : ∀ count, term.readUnder count =
      build (sink (left.level < term.level) count left.readUnder))
    (entry : ∀ rest, infixBp (peek (tail ++ rest)) = some (term.level, rBp, op))
    (ends : ∀ rest, EndsAtom (peek (tail ++ rest)))
    (turns : ∀ (lhs : Expr) (rest : List Token), Closes term.rightBp (peek rest) →
      grammar.Turns rBp op lhs (tail ++ rest) (build lhs, rest)) : Reads grammar term := by
  constructor
  · intro count minBp rest result within closes loops
    rw [read] at loops
    have turned := loops_turn (entry rest) within (turns _ rest closes) loops
    have placed := leftReads.placed term.level minBp count turned
      (fun tight => ⟨le_trans within tight, ends rest, fun powers found => ?_⟩) (ends rest)
    · rw [bare, List.append_assoc]
      exact placed
    · rw [entry rest] at found
      cases found
      exact Term.lt_rightBp levels.1 levels.2 tight
  · intro tight
    omega

theorem reads_binary {op : Operator} {left right : Term} (leftReads : Reads grammar left)
    (rightReads : Reads grammar right) : Reads grammar (.binary op left right) := by
  refine reads_turn leftReads
    (op.token :: enclose (right.level < op.level + 1) right.bare) (op.level + 1) op.binOp
    (fun lhs => .binaryOp op.binOp lhs (right.readUnder 0)) op.level_odd ?_
    (fun count => ?_) (fun rest => op.infixBp_token) (fun rest => ?_)
    (fun lhs rest closes => ?_)
  · rw [Term.bare]
    rfl
  · rw [Term.readUnder]
    rfl
  · exact (op.closes (Nat.lt_succ_self _)).1
  · refine turns_plain ?_ (rightReads.operand closes)
    cases op <;> simp [PlainInfix, peek, peek2, Operator.token]

theorem reads_test {kind : Truth} (reads : Reads grammar term) :
    Reads grammar (.test kind negated term) := by
  refine reads_turn reads (.is :: (negation negated ++ [kind.token])) 6 .eq
    (fun lhs => testExpr kind.token lhs negated)
    (show 5 % 2 = 1 ∧ 5 ≤ 11 by decide) ?_ (fun count => ?_)
    (fun rest => rfl) (fun rest => ?_) (fun lhs rest closes => ?_)
  · rw [Term.bare]
    rfl
  · rw [Term.readUnder]
    rfl
  · exact ⟨Token.noConfusion, Token.noConfusion, Token.noConfusion⟩
  · rw [List.cons_append, List.append_assoc, List.singleton_append]
    exact turns_is (by cases kind <;> simp [Truth.token]) negated

theorem endsAtom_negation {word : Token} (negated : Bool)
    (predicate : word = .between ∨ word = .like ∨ word = .in_) :
    EndsAtom (peek (negation negated ++ word :: rest)) := by
  cases negated with
  | true => exact ⟨Token.noConfusion, Token.noConfusion, Token.noConfusion⟩
  | false =>
      rcases predicate with same | same | same
      all_goals
        rw [same]
        exact ⟨Token.noConfusion, Token.noConfusion, Token.noConfusion⟩

/-- A turn of BETWEEN, LIKE or IN. -/
theorem reads_predicate (negated : Bool) {left : Term} (leftReads : Reads grammar left)
    {word : Token} (predicate : word = .between ∨ word = .like ∨ word = .in_) (tail : List Token)
    (build : Expr → Expr) (level : term.level = 5)
    (bare : term.bare = enclose (left.level < 5) left.bare ++ (negation negated ++ word :: tail))
    (read : ∀ count, term.readUnder count = build (sink (left.level < 5) count left.readUnder))
    (turns : ∀ (lhs : Expr) (rest : List Token), Closes term.rightBp (peek rest) →
      grammar.Turns 6 .eq lhs (negation negated ++ word :: (tail ++ rest)) (build lhs, rest)) :
    Reads grammar term := by
  rw [← level] at bare read
  refine reads_turn leftReads _ 6 .eq build (by rw [level]; decide) bare read (fun rest => ?_)
    (fun rest => ?_) (fun lhs rest closes => ?_)
  · rw [List.append_assoc, List.cons_append, level]
    exact infixBp_negation negated predicate
  · rw [List.append_assoc, List.cons_append]
    exact endsAtom_negation negated predicate
  · rw [List.append_assoc, List.cons_append]
    exact turns lhs rest closes

theorem reads_between {low high : Term} (reads : Reads grammar term)
    (lowReads : Reads grammar low) (highReads : Reads grammar high) :
    Reads grammar (.between negated term low high) := by
  refine reads_predicate negated reads (Or.inl rfl)
    (enclose (low.level < 6) low.bare ++ .and :: enclose (high.level < 6) high.bare)
    (fun lhs => .between lhs (low.readUnder 0) (high.readUnder 0) negated) rfl (by rw [Term.bare])
    (fun count => by rw [Term.readUnder]) (fun lhs rest closes => ?_)
  · rw [List.append_assoc, List.cons_append]
    refine turns_between negated (lowReads.operand ?_) (highReads.operand closes)
    have and : Closes 6 Operator.and.token := Operator.closes (by decide)
    exact and

theorem reads_like {pattern : Term} (reads : Reads grammar term)
    (patternReads : Reads grammar pattern) : Reads grammar (.like negated term pattern) := by
  refine reads_predicate negated reads (Or.inr (Or.inl rfl))
    (enclose (pattern.level < 6) pattern.bare) (fun lhs => .like lhs (pattern.readUnder 0) negated)
    rfl (by rw [Term.bare]) (fun count => by rw [Term.readUnder]) (fun lhs rest closes => ?_)
  exact turns_like negated (patternReads.operand closes)

theorem reads_inList {items : Items} (reads : Reads grammar term)
    (itemsRead : ∀ rest, grammar.ReadsList (items.tokens ++ .rParen :: rest)
      (items.readAll, .rParen :: rest)) : Reads grammar (.inList negated term items) := by
  refine reads_predicate negated reads (Or.inr (Or.inr rfl))
    (.lParen :: (items.tokens ++ [.rParen])) (fun lhs => .inList lhs items.readAll negated) rfl
    (by rw [Term.bare]) (fun count => by rw [Term.readUnder]) (fun lhs rest closes => ?_)
  · rw [List.cons_append, List.append_assoc, List.singleton_append]
    exact turns_in negated (ne_of_beginsOperand (items.begins_tokens _) rfl) (itemsRead rest)

/-! ## Every term -/

theorem Reads.whole (reads : Reads grammar term) (closes : Closes 0 (peek rest)) :
    grammar.Parses 0 (term.bare ++ rest) (term.readUnder 0, rest) :=
  reads.parses 0 0 rest _ (Nat.zero_le _) (closes.mono (Nat.zero_le _)) (loops_closed closes)

mutual

theorem Term.reads : ∀ term : Term, Reads grammar term
  | .literal value => reads_of_heads fun count rest ends => by
      rw [Term.bare, Term.readUnder]
      refine heads_nots ?_ (heads_literal value ends.1) count
      exact ne_of_beginsOperand ((Term.literal value).begins_bare rest) rfl
  | .column name => reads_of_heads fun count rest ends =>
      heads_nots Token.noConfusion (heads_column name ends) count
  | .qualified table name => reads_of_heads fun count rest ends =>
      heads_nots Token.noConfusion (heads_qualified table name ends) count
  | .neg term => reads_neg term.reads
  | .not term => reads_not term.reads
  | .binary _ left right => reads_binary left.reads right.reads
  | .test _ _ term => reads_test term.reads
  | .between _ term low high => reads_between term.reads low.reads high.reads
  | .like _ term pattern => reads_like term.reads pattern.reads
  | .inList _ term items => reads_inList term.reads items.readsList

theorem Items.readsList : ∀ (items : Items) (rest : List Token),
    grammar.ReadsList (items.tokens ++ .rParen :: rest) (items.readAll, .rParen :: rest)
  | .last term, rest => readsList_last (term.reads.whole closes_rParen) Token.noConfusion
  | .more term items, rest => by
      rw [Items.tokens, List.append_assoc]
      exact readsList_more (term.reads.whole closes_comma) (items.readsList rest)

end

/-! ## What is read is what was written -/

theorem negate_succ (count : Nat) (expr : Expr) :
    negate (count + 1) expr = negate count (.unaryOp .not expr) := by
  induction count with
  | zero => rfl
  | succ count ih =>
      rw [negate, ih]
      rfl

theorem negate_injective {count : Nat} {first second : Expr}
    (same : negate count first = negate count second) : first = second := by
  induction count with
  | zero => exact same
  | succ count ih => exact ih (Expr.unaryOp.inj same).2

theorem sink_zero (loose : Bool) (read : Nat → Expr) : sink loose 0 read = read 0 := by
  cases loose <;> rfl

theorem eq_zero_of_negate {count : Nat} {expr read : Expr} (same : read = negate count expr)
    (other : ∀ inner, read ≠ .unaryOp .not inner) : count = 0 := by
  cases count with
  | zero => rfl
  | succ count => exact absurd same (other _)

mutual

theorem Term.readUnder_of_notsHold : ∀ (term : Term) (count : Nat), term.NotsHold →
    (count = 0 ∨ term.takesNot = true) → term.readUnder count = negate count term.toExpr
  | .literal _, _, _, _ | .column _, _, _, _ | .qualified _ _, _, _, _ => rfl
  | .neg term, count, holds, _ => by
      rw [Term.readUnder, term.readUnder_of_notsHold 0 holds (Or.inl rfl)]
      rfl
  | .not term, count, holds, _ => by
      rw [Term.readUnder, Term.toExpr, ← negate_succ]
      by_cases loose : term.level < 4
      · rw [sink, if_pos (decide_eq_true loose),
          term.readUnder_of_notsHold 0 holds.2 (Or.inl rfl)]
        rfl
      · rw [sink, if_neg (by simpa using loose)]
        exact term.readUnder_of_notsHold (count + 1) holds.2
          (Or.inr (holds.1.resolve_left loose))
  | .binary op left right, count, holds, free => by
      have zero : count = 0 := free.resolve_right fun takes => by
        cases op <;> cases takes
      rw [zero, Term.readUnder, sink_zero, left.readUnder_of_notsHold 0 holds.1 (Or.inl rfl),
        right.readUnder_of_notsHold 0 holds.2 (Or.inl rfl)]
      rfl
  | .test kind negated term, count, holds, free => by
      have zero : count = 0 := free.resolve_right fun takes => by cases takes
      rw [zero, Term.readUnder, sink_zero, term.readUnder_of_notsHold 0 holds (Or.inl rfl)]
      rfl
  | .between negated term low high, count, holds, free => by
      have zero : count = 0 := free.resolve_right fun takes => by cases takes
      rw [zero, Term.readUnder, sink_zero, term.readUnder_of_notsHold 0 holds.1 (Or.inl rfl),
        low.readUnder_of_notsHold 0 holds.2.1 (Or.inl rfl),
        high.readUnder_of_notsHold 0 holds.2.2 (Or.inl rfl)]
      rfl
  | .like negated term pattern, count, holds, free => by
      have zero : count = 0 := free.resolve_right fun takes => by cases takes
      rw [zero, Term.readUnder, sink_zero, term.readUnder_of_notsHold 0 holds.1 (Or.inl rfl),
        pattern.readUnder_of_notsHold 0 holds.2 (Or.inl rfl)]
      rfl
  | .inList negated term items, count, holds, free => by
      have zero : count = 0 := free.resolve_right fun takes => by cases takes
      rw [zero, Term.readUnder, sink_zero, term.readUnder_of_notsHold 0 holds.1 (Or.inl rfl),
        items.readAll_of_notsHold holds.2]
      rfl

theorem Items.readAll_of_notsHold : ∀ items : Items, items.NotsHold →
    items.readAll = items.toExprs
  | .last term, holds => by
      rw [Items.readAll, term.readUnder_of_notsHold 0 holds (Or.inl rfl)]
      rfl
  | .more term items, holds => by
      rw [Items.readAll, term.readUnder_of_notsHold 0 holds.1 (Or.inl rfl),
        items.readAll_of_notsHold holds.2]
      rfl

end

mutual

theorem Term.notsHold_of_readUnder : ∀ (term : Term) (count : Nat),
    term.readUnder count = negate count term.toExpr →
      (count = 0 ∨ term.takesNot = true) ∧ term.NotsHold
  | .literal _, _, _ | .column _, _, _ | .qualified _ _, _, _ => ⟨Or.inr rfl, trivial⟩
  | .neg term, count, same => by
      have inner := (Expr.unaryOp.inj (negate_injective same)).2
      exact ⟨Or.inr rfl, (term.notsHold_of_readUnder 0 inner).2⟩
  | .not term, count, same => by
      rw [Term.readUnder, Term.toExpr, ← negate_succ] at same
      refine ⟨Or.inr rfl, ?_⟩
      by_cases loose : term.level < 4
      · rw [sink, if_pos (decide_eq_true loose)] at same
        exact ⟨Or.inl loose, (term.notsHold_of_readUnder 0 (negate_injective same)).2⟩
      · rw [sink, if_neg (by simpa using loose)] at same
        obtain ⟨free, holds⟩ := term.notsHold_of_readUnder (count + 1) same
        exact ⟨Or.inr (free.resolve_left (Nat.succ_ne_zero count)), holds⟩
  | .binary op left right, count, same => by
      rw [Term.readUnder] at same
      obtain rfl := eq_zero_of_negate same fun inner => by simp
      rw [sink_zero] at same
      obtain ⟨_, leftSame, rightSame⟩ := Expr.binaryOp.inj same
      exact ⟨Or.inl rfl, (left.notsHold_of_readUnder 0 leftSame).2,
        (right.notsHold_of_readUnder 0 rightSame).2⟩
  | .test kind negated term, count, same => by
      rw [Term.readUnder] at same
      obtain rfl := eq_zero_of_negate same fun inner => by
        cases kind <;> simp [testExpr, Truth.token]
      rw [sink_zero] at same
      have inner : term.readUnder 0 = term.toExpr := by
        cases kind
        · exact (Expr.isNull.inj same).1
        · exact (Expr.isTrue.inj same).1
        · exact (Expr.isFalse.inj same).1
      exact ⟨Or.inl rfl, (term.notsHold_of_readUnder 0 inner).2⟩
  | .between negated term low high, count, same => by
      rw [Term.readUnder] at same
      obtain rfl := eq_zero_of_negate same fun inner => by simp
      rw [sink_zero] at same
      obtain ⟨first, lower, upper, _⟩ := Expr.between.inj same
      exact ⟨Or.inl rfl, (term.notsHold_of_readUnder 0 first).2,
        (low.notsHold_of_readUnder 0 lower).2, (high.notsHold_of_readUnder 0 upper).2⟩
  | .like negated term pattern, count, same => by
      rw [Term.readUnder] at same
      obtain rfl := eq_zero_of_negate same fun inner => by simp
      rw [sink_zero] at same
      obtain ⟨first, second, _⟩ := Expr.like.inj same
      exact ⟨Or.inl rfl, (term.notsHold_of_readUnder 0 first).2,
        (pattern.notsHold_of_readUnder 0 second).2⟩
  | .inList negated term items, count, same => by
      rw [Term.readUnder] at same
      obtain rfl := eq_zero_of_negate same fun inner => by simp
      rw [sink_zero] at same
      obtain ⟨first, listed, _⟩ := Expr.inList.inj same
      exact ⟨Or.inl rfl, (term.notsHold_of_readUnder 0 first).2,
        items.notsHold_of_readAll listed⟩

theorem Items.notsHold_of_readAll : ∀ items : Items, items.readAll = items.toExprs →
    items.NotsHold
  | .last term, same => (term.notsHold_of_readUnder 0 (List.singleton_inj.mp same)).2
  | .more term items, same => by
      obtain ⟨first, later⟩ := List.cons.inj same
      exact ⟨(term.notsHold_of_readUnder 0 first).2, items.notsHold_of_readAll later⟩

end

theorem parses_print_iff (term : Term) (closes : Closes 0 (peek rest)) :
    grammar.Parses 0 (term.print 0 ++ rest) (term.toExpr, rest) ↔ term.NotsHold := by
  have bare : term.print 0 = term.bare := rfl
  have reads : Reads grammar term := term.reads
  have read := reads.whole closes
  rw [bare]
  constructor
  · intro parsed
    have same := congrArg Prod.fst (read.unique parsed)
    exact (term.notsHold_of_readUnder 0 same).2
  · intro holds
    rw [term.readUnder_of_notsHold 0 holds (Or.inl rfl)] at read
    exact read

end Pantheon.Sql
