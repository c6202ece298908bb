import Mathlib
import Pantheon.Telos.Json
import Pantheon.Telos.SourceTrees

/-!
# The lexer of Telos: `tpt-telos-parser/src/lexer.rs`

Every token takes a character, and the end of the file comes once, at the end.
-/

set_option autoImplicit false

namespace Pantheon.TelosSource

open Pantheon.Lib
open Pantheon.Telos (isAsciiDigit natOfDigits)

/-- A token and the offsets of its first character and of what follows it. -/
abbrev Spanned : Type := Token × Nat × Nat

def isIdentStart (char : Char) : Bool := char.isAlpha || decide (char = '_')

def isIdentPart (char : Char) : Bool := char.isAlphanum || decide (char = '_')

def wordToken : String → Token
  | "module" => .kwModule
  | "invariant" => .kwInvariant
  | "func" => .kwFunc
  | "requires" => .kwRequires
  | "ensures" => .kwEnsures
  | "mutate" => .kwMutate
  | "state" => .kwState
  | "old" => .kwOld
  | "let" => .kwLet
  | "mut" => .kwMut
  | "if" => .kwIf
  | "else" => .kwElse
  | "match" => .kwMatch
  | "struct" => .kwStruct
  | "enum" => .kwEnum
  | "forall" => .kwForall
  | "in" => .kwIn
  | "pure" => .kwPure
  | "return" => .kwReturn
  | "Result" => .kwResult
  | "Ok" => .kwOk
  | "Err" => .kwErr
  | "_" => .underScore
  | word => .ident word

def operatorToken : Char → Char → Option Token
  | '+', '=' => some .plusAssign
  | '-', '=' => some .minusAssign
  | '=', '=' => some .eqEq
  | '!', '=' => some .ne
  | '<', '=' => some .le
  | '>', '=' => some .ge
  | '&', '&' => some .and
  | '|', '|' => some .or
  | '-', '>' => some .arrow
  | '=', '>' => some .fatArrow
  | '.', '.' => some .dotDot
  | _, _ => none

def charToken : Char → Option Token
  | '@' => some .at
  | '(' => some .lParen
  | ')' => some .rParen
  | '\x7b' => some .lBrace
  | '\x7d' => some .rBrace
  | '[' => some .lSquare
  | ']' => some .rSquare
  | ',' => some .comma
  | ':' => some .colon
  | '.' => some .dot
  | ';' => some .semicolon
  | '=' => some .assign
  | '+' => some .plus
  | '-' => some .minus
  | '*' => some .star
  | '/' => some .slash
  | '<' => some .lt
  | '>' => some .gt
  | '?' => some .question
  | _ => none

def pushed (token : Token) (start stop : Nat) (others : Except ParseStop (List Spanned)) :
    Except ParseStop (List Spanned) := others.map fun tokens => (token, start, stop) :: tokens

/-- `while i < chars.len()`; the characters are those from `i` on. -/
def lexFrom : Nat → Nat → List Char → Except ParseStop (List Spanned)
  | 0, _, _ => .error .outOfFuel
  | _ + 1, i, [] => .ok [(.eof, i, i)]
  | fuel + 1, i, char :: rest =>
      if isWhitespace char then lexFrom fuel (i + 1) rest
      else if char = '/' ∧ rest.head? = some '/' then
        let comment := rest.takeWhile fun next => decide (next ≠ '\n')
        lexFrom fuel (i + 1 + comment.length) (rest.dropWhile fun next => decide (next ≠ '\n'))
      else if isIdentStart char then
        let word := char :: rest.takeWhile isIdentPart
        pushed (wordToken (String.ofList word)) i (i + word.length)
          (lexFrom fuel (i + word.length) (rest.dropWhile isIdentPart))
      else if isAsciiDigit char then
        let digits := char :: rest.takeWhile isAsciiDigit
        if natOfDigits digits < 2 ^ 63 then
          pushed (.int (natOfDigits digits)) i (i + digits.length)
            (lexFrom fuel (i + digits.length) (rest.dropWhile isAsciiDigit))
        else
          .error (.error ("line/col: integer literal `" ++ String.ofList digits ++
            "` out of range"))
      else
        match rest.head?.bind (operatorToken char) with
        | some token => pushed token i (i + 2) (lexFrom fuel (i + 2) (rest.drop 1))
        | none =>
            match charToken char with
            | some token => pushed token i (i + 1) (lexFrom fuel (i + 1) rest)
            | none =>
                .error (.error ("unexpected character `" ++ char.toString ++ "` at offset " ++
                  toString i))

def lex (fuel : Nat) (src : String) : Except ParseStop (List Spanned) := lexFrom fuel 0 src.toList

/-! ## What it answers -/

/-- Not the end of the file, and no number below zero. -/
def Plain (token : Token) : Prop := token ≠ .eof ∧ ∀ value, token = .int value → 0 ≤ value

/-- Plain tokens with the end of the file behind them. -/
structure Lexed (spanned : List Spanned) : Prop where
  ended : ∃ front offset, spanned = front ++ [(.eof, offset)] ∧
    ∀ item ∈ front, Plain item.1

theorem lexed_eof (offset : Nat × Nat) : Lexed [(.eof, offset)] :=
  ⟨[], offset, rfl, fun _ member => (nomatch member)⟩

theorem Lexed.cons {spanned : List Spanned} {item : Spanned} (plain : Plain item.1)
    (lexed : Lexed spanned) : Lexed (item :: spanned) := by
  obtain ⟨front, offset, rfl, all⟩ := lexed.ended
  exact ⟨item :: front, offset, rfl, List.forall_mem_cons.mpr ⟨plain, all⟩⟩

def LexAnswers (most : Nat) : Except ParseStop (List Spanned) → Prop
  | .ok spanned => Lexed spanned ∧ spanned.length ≤ most
  | .error stop => ∃ message, stop = .error message

theorem LexAnswers.more {fewer most : Nat} {outcome : Except ParseStop (List Spanned)}
    (few : fewer ≤ most) (answers : LexAnswers fewer outcome) : LexAnswers most outcome := by
  cases outcome with
  | error stop => exact answers
  | ok spanned => exact ⟨answers.1, answers.2.trans few⟩

theorem LexAnswers.pushed {fewer most : Nat} {outcome : Except ParseStop (List Spanned)}
    {token : Token} (plain : Plain token) (few : fewer < most) (start stop : Nat)
    (answers : LexAnswers fewer outcome) : LexAnswers most (pushed token start stop outcome) := by
  cases outcome with
  | error stop => exact answers
  | ok spanned => exact ⟨answers.1.cons plain, by
      have fewTokens := answers.2
      rw [List.length_cons]
      omega⟩

theorem plain_of_apart {token : Token} (notEof : token ≠ .eof)
    (notInt : ∀ value, token ≠ .int value) : Plain token :=
  ⟨notEof, fun value same => absurd same (notInt value)⟩

theorem plain_wordToken (word : String) : Plain (wordToken word) := by
  unfold wordToken
  split <;> exact plain_of_apart (fun same => nomatch same) (fun _ same => nomatch same)

theorem plain_int (value : Nat) : Plain (.int value) := by
  refine ⟨Token.noConfusion, ?_⟩
  intro other same
  cases same
  exact Int.natCast_nonneg value

theorem plain_operatorToken {first second : Char} {token : Token}
    (found : operatorToken first second = some token) : Plain token := by
  unfold operatorToken at found
  split at found <;> cases found <;>
    exact plain_of_apart (fun same => nomatch same) (fun _ same => nomatch same)

theorem plain_charToken {char : Char} {token : Token} (found : charToken char = some token) :
    Plain token := by
  unfold charToken at found
  split at found <;> cases found <;>
    exact plain_of_apart (fun same => nomatch same) (fun _ same => nomatch same)

theorem lexFrom_answers {fuel : Nat} : ∀ {i : Nat} {chars : List Char}, chars.length < fuel →
    LexAnswers (chars.length + 1) (lexFrom fuel i chars) := by
  induction fuel with
  | zero => exact fun short => absurd short (Nat.not_lt_zero _)
  | succ fuel ih =>
      intro i chars short
      cases chars with
      | nil => exact ⟨lexed_eof (i, i), le_rfl⟩
      | cons char rest =>
          have less : rest.length < fuel := Nat.lt_of_succ_lt_succ short
          have dropped : ∀ goesOn : Char → Bool,
              (rest.dropWhile goesOn).length ≤ rest.length := fun goesOn =>
            (List.dropWhile_suffix goesOn).length_le
          rw [lexFrom]
          simp only [List.length_cons]
          split_ifs with white comment word digit small
          · exact (ih less).more (Nat.le_succ _)
          · exact (ih ((dropped _).trans_lt less)).more
              (Nat.succ_le_succ ((dropped _).trans (Nat.le_succ _)))
          · exact (ih ((dropped _).trans_lt less)).pushed (plain_wordToken _)
              (Nat.succ_lt_succ ((dropped _).trans_lt (Nat.lt_succ_self _))) _ _
          · exact (ih ((dropped _).trans_lt less)).pushed (plain_int _)
              (Nat.succ_lt_succ ((dropped _).trans_lt (Nat.lt_succ_self _))) _ _
          · exact ⟨_, rfl⟩
          · split
            · rename_i token found
              obtain ⟨next, -, operator⟩ := Option.bind_eq_some_iff.mp found
              have shorter : (rest.drop 1).length ≤ rest.length :=
                (List.drop_suffix 1 rest).length_le
              exact (ih (shorter.trans_lt less)).pushed (plain_operatorToken operator)
                (Nat.succ_lt_succ (shorter.trans_lt (Nat.lt_succ_self _))) _ _
            · split
              · rename_i token found
                exact (ih less).pushed (plain_charToken found) (Nat.lt_succ_self _) _ _
              · exact ⟨_, rfl⟩

end Pantheon.TelosSource
