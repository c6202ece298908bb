import Mathlib
import Pantheon.Telos.SourceParser

/-!
# The front end answers every text

No function of the parser looks behind the end of the file or passes it, every turn of its
loops takes a token, and none of them calls itself without having taken one.
-/

set_option autoImplicit false

namespace Pantheon.TelosSource

open Pantheon.Lib Pantheon.Lib.TokenParser
open Pantheon.Telos (BinOp AggregateOp Pattern AssignOp)

variable {tokens : List Token} {on : Token → Prop} {bound least fuel : Nat}

section Parsers

variable (ends : EndsWith tokens .eof)

include ends

/-! ## Single tokens -/

theorem total_next {token : Token} (apart : token ≠ .eof) :
    Total tokens (fun other => other = token) bound 1 advance :=
  total_advance ends fun _ same => same ▸ apart

theorem total_expect {expected : Token} (apart : expected ≠ .eof) :
    Total tokens on bound 1 (expect expected) := by
  refine total_peek fun got _ _ => total_ite (fun same => ?_) fun _ => total_fail _
  exact (total_next ends (same ▸ apart)).seq fun _ => total_pure _

theorem expects {expected : Token} (apart : expected ≠ .eof) :
    Total tokens on bound 0 (expect expected) := (total_expect ends apart).free

theorem total_expectIdent : Total tokens on bound 1 expectIdent := by
  refine total_peek fun token _ _ => ?_
  split
  · exact (total_next ends (by nofun)).seq fun _ => total_pure _
  · exact total_fail _

theorem total_expectIdentOrKeyword : Total tokens on bound 1 expectIdentOrKeyword := by
  refine total_peek fun token _ _ => ?_
  split
  · exact (total_next ends (by nofun)).seq fun _ => total_pure _
  · exact (total_next ends (by nofun)).seq fun _ => total_pure _
  · exact total_fail _

theorem accepts {token : Token} (apart : token ≠ .eof) :
    Total tokens on bound 0 (accept token) := total_accept ends apart

/-! ## Lists -/

section Lists

variable {Result : Type} {item : Parse Result}

omit ends in
theorem total_parseUntil (total : Total tokens Any bound 1 item) (enough : bound ≤ fuel)
    (close : Token) : Total tokens on bound 0 (parseUntil item fuel close) :=
  total_collect total.anywhere enough

theorem total_block (total : Total tokens Any bound 1 item) (enough : bound ≤ fuel) :
    Total tokens on bound 1 (block item fuel) := by
  refine (total_expect ends (by nofun)).seq fun _ => ?_
  refine (total_parseUntil total enough .rBrace).seq fun items => ?_
  exact (expects ends (by nofun)).seq fun _ => total_pure items

theorem total_commaList (total : Total tokens Any bound 1 item) (enough : bound ≤ fuel)
    (close : Token) : Total tokens on bound 0 (commaList item fuel close) := by
  refine total_peek fun token _ _ => total_ite (fun _ => total_pure []) fun _ => ?_
  exact (total_separated ends (by nofun) total enough).free.anywhere

end Lists

/-! ## Types and patterns -/

theorem total_parseType : ∀ {fuel : Nat}, Total tokens Any fuel 1 (parseType fuel) := by
  intro fuel
  induction fuel with
  | zero => exact total_zero
  | succ fuel ih =>
      have types : Total tokens Any fuel 1 (separated .comma (parseType fuel) fuel) :=
        total_separated ends (by nofun) ih le_rfl
      refine total_peek fun token _ _ => ?_
      split
      · refine (total_next ends (by nofun)).first fun _ => ?_
        refine (expects ends (by nofun)).seq fun _ => ?_
        refine ih.free.seq fun ok => ?_
        refine (expects ends (by nofun)).seq fun _ => ?_
        refine ih.free.seq fun err => ?_
        exact (expects ends (by nofun)).seq fun _ => total_pure _
      · refine (total_next ends (by nofun)).first fun _ => ?_
        refine types.free.seq fun elems => ?_
        refine (expects ends (by nofun)).seq fun _ => ?_
        split <;> exact total_pure _
      · refine (total_next ends (by nofun)).first fun _ => ?_
        refine ih.free.seq fun elem => ?_
        refine (accepts ends (by nofun)).seq fun found => total_ite (fun _ => ?_) fun _ => ?_
        · refine total_peek fun token _ _ => ?_
          split
          · refine (total_next ends (by nofun)).free.seq fun _ => ?_
            exact (expects ends (by nofun)).seq fun _ => total_pure _
          · exact total_fail _
        · exact (expects ends (by nofun)).seq fun _ => total_pure _
      · refine (total_next ends (by nofun)).first fun _ => ?_
        refine (accepts ends (by nofun)).seq fun found => total_ite (fun _ => ?_) fun _ => ?_
        · refine types.free.seq fun args => ?_
          exact (expects ends (by nofun)).seq fun _ => total_pure _
        · exact total_pure _
      · exact total_fail _

variable (fits : ∀ token ∈ tokens, ∀ value, token = .int value → 0 ≤ value)

omit ends in
theorem total_negated {value : Int} (nonnegative : 0 ≤ value) :
    Total tokens on bound 0 (negated value) := by
  unfold negated
  rw [if_neg (by omega)]
  exact total_pure _

include fits

theorem total_parsePattern : ∀ {fuel : Nat}, Total tokens Any fuel 1 (parsePattern fuel) := by
  intro fuel
  induction fuel with
  | zero => exact total_zero
  | succ fuel ih =>
      refine total_peek fun token _ _ => ?_
      split
      · exact (total_next ends (by nofun)).seq fun _ => total_pure _
      · refine (total_next ends (by nofun)).first fun _ => ?_
        refine total_peek fun token _ member => ?_
        split
        · have nonnegative := fits _ member _ rfl
          refine (total_next ends (by nofun)).free.seq fun _ => ?_
          exact (total_negated nonnegative).seq fun _ => total_pure _
        · exact total_fail _
      · refine (total_next ends (by nofun)).first fun _ => ?_
        refine (accepts ends (by nofun)).seq fun found => total_ite (fun _ => ?_) fun _ => ?_
        · refine (total_commaList ends ih le_rfl .rParen).seq fun fields => ?_
          exact (expects ends (by nofun)).seq fun _ => total_pure _
        · exact total_pure _
      · exact (total_next ends (by nofun)).seq fun _ => total_pure _
      · exact total_fail _

/-! ## Expressions -/

omit fits in
theorem total_chain {operator : Token → Option BinOp} {operand : Parse Expr}
    (apart : operator .eof = none) (total : Total tokens Any bound 1 operand)
    (enough : bound ≤ fuel) : Total tokens Any bound 1 (chain operator operand fuel) := by
  refine total.seq fun lhs => total_loop (fun lhs => ?_) le_rfl enough lhs
  refine total_peek fun token goes _ => ?_
  split
  · rename_i op found
    have notEnd : token ≠ .eof := by
      rintro rfl
      rw [apart] at found
      cases found
    refine (total_next ends notEnd).seq fun _ => ?_
    exact total.free.seq fun rhs => total_pure _
  · rename_i stops
    rw [stops] at goes
    cases goes

omit ends fits in
theorem total_callOf (callee : Expr) (args : List Expr) :
    Total tokens on bound 0 (callOf callee args) := by
  unfold callOf
  split
  · exact total_pure _
  · exact total_pure _
  · exact total_pure _
  · exact total_fail _

section Expressions

variable {self : Parse Expr} (total : Total tokens Any fuel 1 self)

include total

omit fits in
theorem total_parenthesized : Total tokens on fuel 1 (parenthesized self) := by
  refine (total_expect ends (by nofun)).seq fun _ => ?_
  refine total.free.seq fun expr => ?_
  exact (expects ends (by nofun)).seq fun _ => total_pure expr

omit fits in
theorem total_braced : Total tokens on fuel 1 (braced self) := by
  refine (total_expect ends (by nofun)).seq fun _ => ?_
  refine total.free.seq fun expr => ?_
  exact (expects ends (by nofun)).seq fun _ => total_pure expr

omit fits in
theorem total_parseIfExpr : Total tokens on (fuel + 1) 1 (parseIfExpr self) := by
  refine (total_expect ends (by nofun)).first fun _ => ?_
  refine total.free.seq fun condition => ?_
  refine (total_braced ends total).free.seq fun thenExpr => ?_
  refine (expects ends (by nofun)).seq fun _ => ?_
  exact (total_braced ends total).free.seq fun elseExpr => total_pure _

theorem total_parseExprArm : Total tokens on fuel 1 (parseExprArm self (fuel + 1)) := by
  have patterns : Total tokens on fuel 1 (parsePattern (fuel + 1)) :=
    (total_parsePattern ends fits).weaken (fun _ _ => trivial) (Nat.le_succ fuel) le_rfl
  refine patterns.seq fun pattern => ?_
  refine (expects ends (by nofun)).seq fun _ => ?_
  refine total.free.seq fun expr => ?_
  exact (accepts ends (by nofun)).seq fun _ => total_pure _

theorem total_parseMatchExpr : Total tokens on (fuel + 1) 1 (parseMatchExpr self (fuel + 1)) := by
  refine (total_expect ends (by nofun)).first fun _ => ?_
  refine total.free.seq fun scrutinee => ?_
  refine (total_block ends (total_parseExprArm ends fits total) (Nat.le_succ fuel)).free.seq ?_
  exact fun arms => total_pure _

omit fits in
theorem total_parseForallExpr :
    Total tokens on (fuel + 1) 1 (parseForallExpr self (fuel + 1)) := by
  have types : Total tokens Any fuel 0 (parseType (fuel + 1)) :=
    (total_parseType ends).weaken (fun _ holds => holds) (Nat.le_succ fuel) (Nat.zero_le 1)
  refine (total_expect ends (by nofun)).first fun _ => ?_
  refine (total_expectIdent ends).free.seq fun var => ?_
  refine (expects ends (by nofun)).seq fun _ => ?_
  refine types.seq fun varTy => ?_
  refine (total_optional ends (by nofun) total.free).seq fun domain => ?_
  exact (total_braced ends total).free.seq fun body => total_pure _

omit fits total in
theorem total_parseName (name : String) : Total tokens on bound 0 (parseName name) := by
  refine (accepts ends (by nofun)).seq fun found => total_ite (fun _ => ?_) fun _ => ?_
  · exact (total_expectIdent ends).free.seq fun field => total_pure _
  · exact total_pure _

theorem total_parsePrimary : Total tokens on (fuel + 1) 1 (parsePrimary self (fuel + 1)) := by
  refine total_peek fun token _ _ => ?_
  split
  · exact (total_next ends (by nofun)).seq fun _ => total_pure _
  · refine (total_next ends (by nofun)).first fun _ => ?_
    exact (total_parenthesized ends total).free.seq fun expr => total_pure _
  · refine (total_next ends (by nofun)).first fun _ => ?_
    refine total.free.seq fun expr => ?_
    exact (expects ends (by nofun)).seq fun _ => total_pure _
  · exact total_parseIfExpr ends total
  · exact total_parseMatchExpr ends fits total
  · exact total_parseForallExpr ends total
  · exact (total_next ends (by nofun)).seq fun _ => total_pure _
  · refine (total_next ends (by nofun)).first fun _ => ?_
    exact (total_parenthesized ends total).free.seq fun expr => total_pure _
  · refine (total_next ends (by nofun)).first fun _ => ?_
    exact (total_parenthesized ends total).free.seq fun expr => total_pure _
  · refine (total_next ends (by nofun)).first fun _ => ?_
    refine total_peek fun next _ _ => ?_
    split
    · exact total_parseName ends _
    · refine total_ite (fun _ => ?_) fun _ => total_parseName ends _
      refine (expects ends (by nofun)).seq fun _ => ?_
      refine (total_commaList ends total (Nat.le_succ fuel) .rParen).seq fun args => ?_
      exact (expects ends (by nofun)).seq fun _ => total_pure _
  · exact total_fail _

omit fits in
theorem total_parsePostfixForm (expr : Expr) :
    Total tokens (fun token => opensPostfix token = true) (fuel + 1) 1
      (parsePostfixForm self (fuel + 1) expr) := by
  refine total_peek fun token opens _ => ?_
  split
  · refine (total_next ends (by nofun)).first fun _ => ?_
    refine (total_commaList ends total (Nat.le_succ fuel) .rParen).seq fun args => ?_
    exact (expects ends (by nofun)).seq fun _ => total_callOf expr args
  · refine (total_next ends (by nofun)).first fun _ => ?_
    exact (total_expectIdent ends).free.seq fun field => total_pure _
  · refine (total_next ends (by nofun)).first fun _ => ?_
    refine total.free.seq fun index => ?_
    exact (expects ends (by nofun)).seq fun _ => total_pure _
  · exact (total_next ends (by nofun)).seq fun _ => total_pure _
  · refine (total_next ends (by nofun)).first fun _ => ?_
    exact total.free.seq fun hi => total_pure _
  · -- no other token opens a form
    rename_i notParen notDot notSquare notQuestion notDots
    unfold opensPostfix at opens
    split at opens
    · exact absurd rfl notParen
    · exact absurd rfl notDot
    · exact absurd rfl notSquare
    · exact absurd rfl notQuestion
    · exact absurd rfl notDots
    · cases opens

theorem total_parsePostfix : Total tokens on (fuel + 1) 1 (parsePostfix self (fuel + 1)) := by
  refine (total_parsePrimary ends fits total).seq fun expr => ?_
  exact total_loop (fun expr => total_parsePostfixForm ends total expr) le_rfl le_rfl expr

theorem total_parseUnary : ∀ {turns : Nat}, turns ≤ fuel + 1 →
    Total tokens Any turns 1 (parseUnary self (fuel + 1) turns) := by
  intro turns
  induction turns with
  | zero => exact fun _ => total_zero
  | succ turns ih =>
      intro small
      refine total_peek fun token _ _ => total_ite (fun same => ?_) fun _ => ?_
      · subst same
        refine (total_next ends (by nofun)).first fun _ => ?_
        exact (ih (Nat.le_of_succ_le small)).free.seq fun expr => total_pure _
      · exact (total_parsePostfix ends fits total).weaken (fun _ holds => holds) small le_rfl

theorem total_parseMul : Total tokens Any (fuel + 1) 1 (parseMul self (fuel + 1)) :=
  total_chain ends rfl (total_parseUnary ends fits total le_rfl) le_rfl

theorem total_parseAdd : Total tokens Any (fuel + 1) 1 (parseAdd self (fuel + 1)) :=
  total_chain ends rfl (total_parseMul ends fits total) le_rfl

theorem total_parseCmp : Total tokens Any (fuel + 1) 1 (parseCmp self (fuel + 1)) := by
  have operands := total_parseAdd ends fits total
  refine operands.seq fun lhs => total_peek fun token _ _ => ?_
  split
  · exact total_pure _
  · rename_i op found
    have notEnd : token ≠ .eof := by
      rintro rfl
      cases found
    refine (total_next ends notEnd).free.seq fun _ => ?_
    exact operands.free.seq fun rhs => total_pure _

theorem total_parseAnd : Total tokens Any (fuel + 1) 1 (parseAnd self (fuel + 1)) :=
  total_chain ends rfl (total_parseCmp ends fits total) le_rfl

theorem total_parseOr : Total tokens Any (fuel + 1) 1 (parseOr self (fuel + 1)) :=
  total_chain ends rfl (total_parseAnd ends fits total) le_rfl

end Expressions

theorem total_parseExpr : ∀ {fuel : Nat}, Total tokens Any fuel 1 (parseExpr fuel) := by
  intro fuel
  induction fuel with
  | zero => exact total_zero
  | succ fuel ih => exact total_parseOr ends fits ih

/-! ## Statements -/

theorem total_parseAssign : Total tokens Any fuel 1 (parseAssign fuel) := by
  have exprs : Total tokens Any fuel 1 (parseExpr fuel) := total_parseExpr ends fits
  refine exprs.seq fun target => total_peek fun token _ _ => ?_
  split
  · exact total_fail _
  · rename_i op found
    have notEnd : token ≠ .eof := by
      rintro rfl
      cases found
    refine (total_next ends notEnd).free.seq fun _ => ?_
    refine exprs.free.seq fun value => ?_
    exact (accepts ends (by nofun)).seq fun _ => total_pure _

theorem total_parseExprStmt : Total tokens Any fuel 1 (parseExprStmt fuel) := by
  have exprs : Total tokens Any fuel 1 (parseExpr fuel) := total_parseExpr ends fits
  refine exprs.seq fun expr => total_peek fun token _ _ => ?_
  split
  · rename_i op found
    have notEnd : token ≠ .eof := by
      rintro rfl
      cases found
    refine (total_next ends notEnd).free.seq fun _ => ?_
    refine exprs.free.seq fun value => ?_
    exact (accepts ends (by nofun)).seq fun _ => total_pure _
  · exact (accepts ends (by nofun)).seq fun _ => total_pure _

theorem total_parseLet :
    Total tokens (fun token => token = .kwLet) fuel 1 (parseLet fuel) := by
  refine (total_next ends (by nofun)).seq fun _ => ?_
  refine (total_expectIdent ends).free.seq fun name => ?_
  refine (total_optional ends (by nofun) (total_parseType ends).free).seq fun ty => ?_
  refine (expects ends (by nofun)).seq fun _ => ?_
  refine (total_parseExpr ends fits).free.seq fun value => ?_
  exact (accepts ends (by nofun)).seq fun _ => total_pure _

theorem total_parseReturn :
    Total tokens (fun token => token = .kwReturn) fuel 1 (parseReturn fuel) := by
  refine (total_next ends (by nofun)).seq fun _ => ?_
  refine (accepts ends (by nofun)).seq fun found => total_ite (fun _ => total_pure _) fun _ => ?_
  refine total_peek fun token _ _ => total_ite (fun _ => ?_) fun _ => ?_
  · refine (total_parseExpr ends fits).free.anywhere.seq fun expr => ?_
    exact (accepts ends (by nofun)).seq fun _ => total_pure _
  · exact (accepts ends (by nofun)).seq fun _ => total_pure _

section Statements

variable {self : Parse Stmt} (total : Total tokens Any fuel 1 self)

include total

theorem total_parseIfStmt : Total tokens on (fuel + 1) 1 (parseIfStmt self (fuel + 1)) := by
  have exprs : Total tokens Any fuel 0 (parseExpr (fuel + 1)) :=
    (total_parseExpr ends fits).weaken (fun _ holds => holds) (Nat.le_succ fuel) (Nat.zero_le 1)
  have blocks : Total tokens Any fuel 0 (block self (fuel + 1)) :=
    (total_block ends total (Nat.le_succ fuel)).free
  refine (total_expect ends (by nofun)).first fun _ => ?_
  refine exprs.seq fun condition => ?_
  refine blocks.seq fun thenBody => ?_
  exact (total_optional ends (by nofun) blocks).seq fun elseBody => total_pure _

theorem total_parseMatchArm : Total tokens Any fuel 1 (parseMatchArm self (fuel + 1)) := by
  have patterns : Total tokens Any fuel 1 (parsePattern (fuel + 1)) :=
    (total_parsePattern ends fits).weaken (fun _ holds => holds) (Nat.le_succ fuel) le_rfl
  refine patterns.seq fun pattern => ?_
  refine (expects ends (by nofun)).seq fun _ => ?_
  refine total_peek fun token _ _ => total_ite (fun _ => ?_) fun _ => ?_
  · exact (total_block ends total (Nat.le_succ fuel)).free.seq fun body => total_pure _
  · exact total.free.anywhere.seq fun stmt => total_pure _

theorem total_parseMatchStmt :
    Total tokens on (fuel + 1) 1 (parseMatchStmt self (fuel + 1)) := by
  have exprs : Total tokens Any fuel 0 (parseExpr (fuel + 1)) :=
    (total_parseExpr ends fits).weaken (fun _ holds => holds) (Nat.le_succ fuel) (Nat.zero_le 1)
  refine (total_expect ends (by nofun)).first fun _ => ?_
  refine exprs.seq fun scrutinee => ?_
  refine (total_block ends (total_parseMatchArm ends fits total) (Nat.le_succ fuel)).free.seq ?_
  exact fun arms => total_pure _

end Statements

theorem total_parseStmt : ∀ {fuel : Nat}, Total tokens Any fuel 1 (parseStmt fuel) := by
  intro fuel
  induction fuel with
  | zero => exact total_zero
  | succ fuel ih =>
      refine total_peek fun token _ _ => ?_
      split
      · refine (total_next ends (by nofun)).first fun _ => ?_
        refine (expects ends (by nofun)).seq fun _ => ?_
        refine (total_block ends (total_parseAssign ends fits) le_rfl).free.seq ?_
        exact fun assigns => total_pure _
      · exact total_parseLet ends fits
      · exact total_parseIfStmt ends fits ih
      · exact total_parseMatchStmt ends fits ih
      · exact total_parseReturn ends fits
      · exact (total_parseExprStmt ends fits).anywhere

/-! ## Items -/

omit fits in
theorem total_parseArg : Total tokens Any bound 1 parseArg := by
  refine (total_expectIdent ends).seq fun key => ?_
  refine (accepts ends (by nofun)).seq fun found => total_ite (fun _ => ?_) fun _ => total_pure _
  refine total_peek fun token _ _ => ?_
  split
  · exact (total_next ends (by nofun)).free.seq fun _ => total_pure _
  · exact (total_next ends (by nofun)).free.seq fun _ => total_pure _
  · exact total_fail _

omit fits in
theorem total_parseAttribute : Total tokens on fuel 1 (parseAttribute fuel) := by
  refine (total_expect ends (by nofun)).seq fun _ => ?_
  refine (total_expectIdentOrKeyword ends).free.seq fun name => ?_
  refine (accepts ends (by nofun)).seq fun found => total_ite (fun _ => ?_) fun _ => total_pure _
  refine (total_commaList ends (total_parseArg ends) le_rfl .rParen).seq fun args => ?_
  exact (expects ends (by nofun)).seq fun _ => total_pure _

omit fits in
theorem total_parseAttributes : Total tokens on fuel 0 (parseAttributes fuel) :=
  total_collect (total_parseAttribute ends) le_rfl

omit fits in
theorem total_parseField : Total tokens Any fuel 1 (parseField fuel) := by
  refine (total_expectIdent ends).seq fun name => ?_
  refine (expects ends (by nofun)).seq fun _ => ?_
  refine (total_parseType ends).free.seq fun ty => ?_
  exact (accepts ends (by nofun)).seq fun _ => total_pure _

omit fits in
theorem total_parseStructDef : Total tokens on fuel 1 (parseStructDef fuel) := by
  refine (total_expect ends (by nofun)).seq fun _ => ?_
  refine (total_expectIdent ends).free.seq fun name => ?_
  exact (total_block ends (total_parseField ends) le_rfl).free.seq fun fields => total_pure _

omit fits in
theorem total_parseVariant : Total tokens Any fuel 1 (parseVariant fuel) := by
  refine (total_expectIdent ends).seq fun name => ?_
  refine total_peek fun token _ _ => total_ite (fun _ => ?_) fun _ => ?_
  · refine (total_block ends (total_parseField ends) le_rfl).free.seq fun fields => ?_
    exact (accepts ends (by nofun)).seq fun _ => total_pure _
  · exact (accepts ends (by nofun)).seq fun _ => total_pure _

omit fits in
theorem total_parseEnumDef : Total tokens on fuel 1 (parseEnumDef fuel) := by
  refine (total_expect ends (by nofun)).seq fun _ => ?_
  refine (total_expectIdent ends).free.seq fun name => ?_
  exact (total_block ends (total_parseVariant ends) le_rfl).free.seq fun variants => total_pure _

omit fits in
theorem total_parseParam : Total tokens Any fuel 1 (parseParam fuel) := by
  refine (accepts ends (by nofun)).seq_free fun isMutable => ?_
  refine (total_expectIdent ends).seq fun name => ?_
  refine (expects ends (by nofun)).seq fun _ => ?_
  exact (total_parseType ends).free.seq fun ty => total_pure _

theorem total_parseBody : Total tokens on fuel 0 (parseBody fuel) := by
  refine (accepts ends (by nofun)).seq fun found => total_ite (fun _ => total_pure _) fun _ => ?_
  exact (total_block ends (total_parseStmt ends fits) le_rfl).free.seq fun body => total_pure _

omit ends fits in
theorem total_unattributed {Result : Type} {item : Parse Result} (kind : String)
    (attributes : List Attribute) (total : Total tokens on bound least item) :
    Total tokens on bound least (unattributed kind attributes item) :=
  total_ite (fun _ => total) fun _ => total_fail _

section Spans

variable {offsets : List Nat} (lines : LineIndex) (spanned : offsets.length = tokens.length)

include spanned

omit ends fits in
theorem total_currentSpan : Total tokens on bound 0 (currentSpan lines offsets) := by
  intro pos token found _ _
  have inside := (List.getElem?_eq_some_iff.mp found).choose
  have offset := List.getElem?_eq_getElem (spanned ▸ inside : pos < offsets.length)
  obtain ⟨span, answered⟩ := lines.spanAt_answers offsets[pos]
  have run : currentSpan lines offsets tokens pos = .ok (span, pos) := by
    unfold currentSpan
    rw [offset]
    simp only [answered]
    rfl
  rw [run]
  exact ⟨le_rfl, inside⟩

theorem total_parseConstraint : Total tokens Any fuel 1 (parseConstraint lines offsets fuel) := by
  refine (total_currentSpan lines spanned).seq_free fun span => ?_
  refine (total_parseExpr ends fits).seq fun expr => ?_
  exact (accepts ends (by nofun)).seq fun _ => total_pure _

theorem total_parseInvariant : Total tokens on fuel 1 (parseInvariant lines offsets fuel) := by
  have constraints : Total tokens Any fuel 1 (parseConstraint lines offsets fuel) :=
    total_parseConstraint ends fits lines spanned
  refine (total_currentSpan lines spanned).seq_free fun span => ?_
  refine (total_expect ends (by nofun)).seq fun _ => ?_
  refine (total_expectIdent ends).free.seq fun name => ?_
  exact (total_block ends constraints le_rfl).free.seq fun constraints => total_pure _

theorem total_parseClause (clauses : Clauses) :
    Total tokens (fun token => opensClause token = true) fuel 1
      (parseClause lines offsets fuel clauses) := by
  refine total_peek fun token opens _ => ?_
  have notEnd : token ≠ .eof := by
    rintro rfl
    cases opens
  refine total_ite (fun _ => ?_) fun _ => ?_
  · refine (total_next ends notEnd).seq fun _ => ?_
    refine (total_currentSpan lines spanned).seq fun span => ?_
    exact (total_parseExpr ends fits).free.seq fun expr => total_pure _
  · refine (total_next ends notEnd).seq fun _ => ?_
    refine (total_currentSpan lines spanned).seq fun span => ?_
    exact (total_parseExpr ends fits).free.seq fun expr => total_pure _

theorem total_parseFunc (attributes : List Attribute) :
    Total tokens on fuel 1 (parseFunc lines offsets fuel attributes) := by
  refine (total_currentSpan lines spanned).seq_free fun span => ?_
  refine (total_expect ends (by nofun)).seq fun _ => ?_
  refine (total_expectIdent ends).free.seq fun name => ?_
  refine (expects ends (by nofun)).seq fun _ => ?_
  refine (total_commaList ends (total_parseParam ends) le_rfl .rParen).seq fun params => ?_
  refine (expects ends (by nofun)).seq fun _ => ?_
  refine (total_optional ends (by nofun) (total_parseType ends).free).seq fun returnTy => ?_
  have clause : ∀ clauses, Total tokens (fun token => opensClause token = true) fuel 1
      (parseClause lines offsets fuel clauses) :=
    fun clauses => total_parseClause ends fits lines spanned clauses
  refine (total_loop clause le_rfl le_rfl _).seq fun clauses => ?_
  exact (total_parseBody ends fits).seq fun body => total_pure _

theorem total_parseItem : Total tokens Any fuel 1 (parseItem lines offsets fuel) := by
  refine (total_parseAttributes ends).seq_free fun attributes => total_peek fun token _ _ => ?_
  split
  · refine (total_unattributed "invariant" attributes ?_).seq fun item => total_pure _
    exact total_parseInvariant ends fits lines spanned
  · exact (total_parseFunc ends fits lines spanned attributes).seq fun item => total_pure _
  · refine (total_unattributed "struct" attributes ?_).seq fun item => total_pure _
    exact total_parseStructDef ends
  · refine (total_unattributed "enum" attributes ?_).seq fun item => total_pure _
    exact total_parseEnumDef ends
  · exact total_fail _

theorem total_parseModule : Total tokens Any fuel 1 (parseModule lines offsets fuel) := by
  refine (total_parseAttributes ends).seq_free fun attributes => ?_
  refine (total_expect ends (by nofun)).seq fun _ => ?_
  refine (total_expectIdent ends).free.seq fun name => ?_
  have item : Total tokens Any fuel 1 (parseItem lines offsets fuel) :=
    total_parseItem ends fits lines spanned
  exact (total_block ends item le_rfl).free.seq fun items => total_pure _

end Spans

end Parsers

/-! ## The tokens of a text -/

theorem Lexed.endsWith {spanned : List Spanned} (lexed : Lexed spanned) :
    EndsWith (spanned.map Prod.fst) .eof := by
  obtain ⟨front, offset, rfl, -⟩ := lexed.ended
  intro pos token found apart
  have inside := (List.getElem?_eq_some_iff.mp found).choose
  simp only [List.map_append, List.map_cons, List.map_nil, List.length_append, List.length_map,
    List.length_cons, List.length_nil] at inside ⊢
  by_contra last
  have atEnd : pos = (front.map Prod.fst).length := by
    rw [List.length_map]
    omega
  rw [List.map_append, atEnd, List.map_singleton, List.getElem?_concat_length] at found
  exact apart (Option.some.inj found).symm

theorem Lexed.fits {spanned : List Spanned} (lexed : Lexed spanned) :
    ∀ token ∈ spanned.map Prod.fst, ∀ value, token = .int value → 0 ≤ value := by
  obtain ⟨front, offset, rfl, all⟩ := lexed.ended
  intro token member value same
  obtain ⟨item, itemMember, rfl⟩ := List.mem_map.mp member
  rcases List.mem_append.mp itemMember with inFront | last
  · exact (all item inFront).2 value same
  · rw [List.mem_singleton.mp last] at same
    cases same

theorem Lexed.length_pos {spanned : List Spanned} (lexed : Lexed spanned) : 0 < spanned.length := by
  obtain ⟨front, offset, rfl, -⟩ := lexed.ended
  rw [List.length_append]
  exact Nat.lt_add_left _ Nat.one_pos

/-- Every source text is parsed, or an error is told. -/
theorem parse_source_answers (src : String) {fuel : Nat} (enough : src.toList.length < fuel) :
    (∃ modules, parseSource fuel src = .ok modules) ∨
      ∃ message, parseSource fuel src = .error (.error message) := by
  have lexed : LexAnswers (src.toList.length + 1) (lex fuel src) := lexFrom_answers enough
  unfold parseSource
  cases run : lex fuel src with
  | error stop =>
      rw [run] at lexed
      obtain ⟨message, rfl⟩ := lexed
      exact Or.inr ⟨message, rfl⟩
  | ok spanned =>
      rw [run] at lexed
      obtain ⟨lexed, few⟩ := lexed
      have count : (spanned.map fun item => item.2.1).length = (spanned.map Prod.fst).length := by
        rw [List.length_map, List.length_map]
      have modules : Total (spanned.map Prod.fst) Any fuel 1
          (parseModule (.new src) (spanned.map fun item => item.2.1) fuel) :=
        total_parseModule lexed.endsWith lexed.fits (.new src) count
      have first : 0 < (spanned.map Prod.fst).length := by
        rw [List.length_map]
        exact lexed.length_pos
      have answers := @total_parseUntil _ Any _ _ _ _ modules le_rfl .eof 0 _
        (List.getElem?_eq_getElem first) trivial
        (by rw [Nat.sub_zero, List.length_map]; exact few.trans enough)
      simp only [Except.bind, bind]
      cases outcome : parseUntil (parseModule (.new src) (spanned.map fun item => item.2.1) fuel)
          fuel .eof (spanned.map Prod.fst) 0 with
      | error stop =>
          rw [outcome] at answers
          obtain ⟨message, rfl⟩ := answers
          exact Or.inr ⟨message, rfl⟩
      | ok pair => exact Or.inl ⟨pair.1, rfl⟩

def depositModule : String :=
  "module Wallet \x7b func deposit(amount: Int) requires amount > 0 \x7b return amount \x7d \x7d"

theorem deposit_module_answers :
    (∃ modules, parseSource 100 depositModule = .ok modules) ∨
      ∃ message, parseSource 100 depositModule = .error (.error message) :=
  parse_source_answers depositModule (by decide)

end Pantheon.TelosSource
