import Mathlib

/-!
# Parsers that move a position over a list of tokens

A parser answers, or it stops with an error of its own.  The other stops are what it must
not do: look behind the last token, pass it, or turn a loop without taking a token.

`Total` says that a parser does none of these where the next token is one of some kind, that
it takes at least so many tokens, and that it ends if fewer tokens are left than a bound.
-/

set_option autoImplicit false

namespace Pantheon.Lib

inductive ParseStop where
  | error (message : String)
  | outOfBounds
  | pastEnd
  | idle
  | overflow
  | outOfFuel
deriving DecidableEq

abbrev TokenParser (Token Result : Type) : Type :=
  ReaderT (List Token) (StateT Nat (Except ParseStop)) Result

namespace TokenParser

variable {Token Result Other : Type}

def halt (stop : ParseStop) : TokenParser Token Result := fun _ _ => .error stop

def fail (message : String) : TokenParser Token Result := halt (.error message)

def position : TokenParser Token Nat := fun _ pos => .ok (pos, pos)

def peek : TokenParser Token Token := fun tokens pos =>
  match tokens[pos]? with
  | some token => .ok (token, pos)
  | none => .error .outOfBounds

def advance : TokenParser Token Token := fun tokens pos =>
  match tokens[pos]? with
  | some token => if pos + 1 < tokens.length then .ok (token, pos + 1) else .error .pastEnd
  | none => .error .outOfBounds

/-- `while` the next token is such a one. -/
def loop (goesOn : Token → Bool) (body : Result → TokenParser Token Result) :
    Nat → Result → TokenParser Token Result
  | 0, _ => halt .outOfFuel
  | fuel + 1, result => do
      let token ← peek
      if goesOn token then do
        let before ← position
        let result ← body result
        let after ← position
        if before < after then loop goesOn body fuel result else halt .idle
      else return result

/-- Results are pushed `while` the next token is such a one. -/
def collect (goesOn : Token → Bool) (item : TokenParser Token Result) (fuel : Nat) :
    TokenParser Token (List Result) :=
  loop goesOn (fun results => do return results ++ [← item]) fuel []

section Token

variable [DecidableEq Token]

/-- The token is passed if it is the next one. -/
def accept (token : Token) : TokenParser Token Bool := do
  if (← peek) = token then do
    let _ ← advance
    return true
  else return false

def optional (token : Token) (item : TokenParser Token Result) :
    TokenParser Token (Option Result) := do
  if ← accept token then do
    return some (← item)
  else return none

def separated (token : Token) (item : TokenParser Token Result) (fuel : Nat) :
    TokenParser Token (List Result) := do
  let first ← item
  let others ← collect (fun next => decide (next = token)) (do
    let _ ← advance
    item) fuel
  return first :: others

end Token

/-! ## Parsers that answer -/

/-- The parser answers or tells an error, takes `least` tokens and does not pass the last. -/
def Answers (tokens : List Token) (least pos : Nat) :
    Except ParseStop (Result × Nat) → Prop
  | .ok (_, after) => pos + least ≤ after ∧ after < tokens.length
  | .error stop => ∃ message, stop = .error message

def Total (tokens : List Token) (on : Token → Prop) (bound least : Nat)
    (parser : TokenParser Token Result) : Prop :=
  ∀ pos token, tokens[pos]? = some token → on token → tokens.length - pos ≤ bound →
    Answers tokens least pos (parser tokens pos)

def Any : Token → Prop := fun _ => True

def EndsWith (tokens : List Token) (last : Token) : Prop :=
  ∀ pos token, tokens[pos]? = some token → token ≠ last → pos + 1 < tokens.length

variable {tokens : List Token} {on : Token → Prop} {bound least : Nat}
  {parser : TokenParser Token Result} {next : Result → TokenParser Token Other}

variable {pos : Nat} {token : Token} {item : TokenParser Token Result}

theorem Answers.weaken {fewer : Nat} {outcome : Except ParseStop (Result × Nat)}
    (few : fewer ≤ least) (answers : Answers tokens least pos outcome) :
    Answers tokens fewer pos outcome := by
  cases outcome with
  | error stop => exact answers
  | ok pair => exact ⟨(Nat.add_le_add_left few pos).trans answers.1, answers.2⟩

theorem Total.weaken {wider : Token → Prop} {larger more : Nat}
    (total : Total tokens wider larger more parser) (wide : ∀ token, on token → wider token)
    (small : bound ≤ larger) (few : least ≤ more) : Total tokens on bound least parser :=
  fun pos token found holds left =>
    (total pos token found (wide token holds) (left.trans small)).weaken few

theorem Total.anywhere (total : Total tokens Any bound least parser) :
    Total tokens on bound least parser := total.weaken (fun _ _ => trivial) le_rfl le_rfl

theorem Total.free (total : Total tokens on bound least parser) : Total tokens on bound 0 parser :=
  total.weaken (fun _ holds => holds) le_rfl (Nat.zero_le least)

theorem total_pure (result : Result) :
    Total tokens on bound 0 (pure result : TokenParser Token Result) :=
  fun _ _ found _ _ => ⟨le_rfl, (List.getElem?_eq_some_iff.mp found).choose⟩

theorem total_fail (message : String) :
    Total tokens on bound least (fail message : TokenParser Token Result) :=
  fun _ _ _ _ _ => ⟨message, rfl⟩

/-- Nothing is said where no token is left. -/
theorem total_zero : Total tokens on 0 least parser := by
  intro pos token found _ left
  have inside := (List.getElem?_eq_some_iff.mp found).choose
  omega

/-- One parser behind another; behind tokens that were taken the bound is less. -/
theorem Total.bind {more : Nat} (total : Total tokens on bound least parser)
    (continues : ∀ result, Total tokens Any (bound - least) more (next result)) :
    Total tokens on bound (least + more) (parser >>= next) := by
  intro pos token found holds left
  have answers := total pos token found holds left
  change Answers tokens (least + more) pos
    ((parser tokens pos).bind fun pair => next pair.1 tokens pair.2)
  cases run : parser tokens pos with
  | error stop =>
      rw [run] at answers
      exact answers
  | ok pair =>
      obtain ⟨result, after⟩ := pair
      rw [run] at answers
      obtain ⟨taken, inside⟩ := answers
      have second := continues result after tokens[after] (List.getElem?_eq_getElem inside) trivial
        (by omega)
      change Answers tokens (least + more) pos (next result tokens after)
      cases second' : next result tokens after with
      | error stop =>
          rw [second'] at second
          exact second
      | ok pair =>
          rw [second'] at second
          obtain ⟨takenToo, insideToo⟩ := second
          exact ⟨by omega, insideToo⟩

/-- What follows is held to the same bound and takes no token for sure. -/
theorem Total.seq (total : Total tokens on bound least parser)
    (continues : ∀ result, Total tokens Any bound 0 (next result)) :
    Total tokens on bound least (parser >>= next) :=
  total.bind fun result => (continues result).weaken (fun _ holds => holds) (Nat.sub_le _ _) le_rfl

/-- What comes first takes no token for sure. -/
theorem Total.seq_free (total : Total tokens on bound 0 parser)
    (continues : ∀ result, Total tokens Any bound least (next result)) :
    Total tokens on bound least (parser >>= next) :=
  (total.bind continues).weaken (fun _ holds => holds) le_rfl (Nat.zero_add least).ge

/-- Behind a first token the bound is one less. -/
theorem Total.first (total : Total tokens on (bound + 1) 1 parser)
    (continues : ∀ result, Total tokens Any bound 0 (next result)) :
    Total tokens on (bound + 1) 1 (parser >>= next) := total.bind continues

theorem peek_bind {next : Token → TokenParser Token Result}
    (found : tokens[pos]? = some token) :
    (peek >>= next : TokenParser Token Result) tokens pos = next token tokens pos := by
  change ((peek : TokenParser Token Token) tokens pos).bind
    (fun pair => next pair.1 tokens pair.2) = _
  rw [peek, found]
  rfl

/-- The next token is looked at and stays. -/
theorem total_peek {next : Token → TokenParser Token Result}
    (continues : ∀ token, on token → token ∈ tokens →
      Total tokens (fun other => other = token) bound least (next token)) :
    Total tokens on bound least (peek >>= next) := by
  intro pos token found holds left
  rw [peek_bind found]
  exact continues token holds (List.mem_of_getElem? found) pos token found rfl left

theorem total_advance {last : Token} (ends : EndsWith tokens last)
    (apart : ∀ token, on token → token ≠ last) : Total tokens on bound 1 advance := by
  intro pos token found holds _
  have inside := ends pos token found (apart token holds)
  have taken : (advance : TokenParser Token Token) tokens pos = .ok (token, pos + 1) := by
    rw [advance, found]
    exact if_pos inside
  rw [taken]
  exact ⟨le_rfl, inside⟩

/-- A choice that does not depend on the position. -/
theorem total_ite {condition : Prop} [Decidable condition] {first second : TokenParser Token Result}
    (yes : condition → Total tokens on bound least first)
    (no : ¬condition → Total tokens on bound least second) :
    Total tokens on bound least (if condition then first else second) := by
  by_cases chosen : condition
  · rw [if_pos chosen]
    exact yes chosen
  · rw [if_neg chosen]
    exact no chosen

section Loops

variable {goesOn : Token → Bool} {body : Result → TokenParser Token Result} {fuel : Nat}

theorem loop_turn (found : tokens[pos]? = some token)
    (goes : goesOn token = true) (result : Result) :
    loop goesOn body (fuel + 1) result tokens pos =
      (body result tokens pos).bind fun pair =>
        if pos < pair.2 then loop goesOn body fuel pair.1 tokens pair.2 else .error .idle := by
  rw [loop, peek_bind found, if_pos goes]
  change (body result tokens pos).bind (fun pair =>
    (if pos < pair.2 then loop goesOn body fuel pair.1 else halt .idle) tokens pair.2) = _
  congr 1
  funext pair
  split_ifs <;> rfl

theorem loop_end (found : tokens[pos]? = some token)
    (stops : ¬goesOn token = true) (result : Result) :
    loop goesOn body (fuel + 1) result tokens pos = .ok (result, pos) := by
  rw [loop, peek_bind found, if_neg stops]
  rfl

/-- A turn takes a token, so that there are fewer turns than tokens. -/
theorem total_loop
    (turn : ∀ result, Total tokens (fun token => goesOn token = true) bound 1 (body result)) :
    ∀ {left : Nat}, left ≤ bound → left ≤ fuel → ∀ result,
      Total tokens on left 0 (loop goesOn body fuel result) := by
  induction fuel generalizing on with
  | zero =>
      intro left _ few result
      rw [Nat.le_zero.mp few]
      exact total_zero
  | succ fuel ih =>
      intro left small few result pos token found _ room
      have inside := (List.getElem?_eq_some_iff.mp found).choose
      by_cases goes : goesOn token = true
      · have answers := turn result pos token found goes (room.trans small)
        rw [loop_turn found goes]
        cases run : body result tokens pos with
        | error stop =>
            rw [run] at answers
            exact answers
        | ok pair =>
            rw [run] at answers
            obtain ⟨taken, insideToo⟩ := answers
            have later : pos < pair.2 := taken
            have rest := @ih Any (left - 1) (by omega) (by omega) pair.1 pair.2 tokens[pair.2]
              (List.getElem?_eq_getElem insideToo) trivial (by omega)
            change Answers tokens 0 pos (if pos < pair.2 then _ else _)
            rw [if_pos later]
            cases behind : loop goesOn body fuel pair.1 tokens pair.2 with
            | error stop =>
                rw [behind] at rest
                exact rest
            | ok last =>
                rw [behind] at rest
                exact ⟨later.le.trans rest.1, rest.2⟩
      · rw [loop_end found goes]
        exact ⟨le_rfl, inside⟩

theorem total_collect
    (turn : Total tokens (fun token => goesOn token = true) bound 1 item) (enough : bound ≤ fuel) :
    Total tokens on bound 0 (collect goesOn item fuel) :=
  total_loop (fun _ => turn.seq fun _ => total_pure _) le_rfl enough []

variable [DecidableEq Token] {last : Token}

theorem total_accept (ends : EndsWith tokens last) (apart : token ≠ last) :
    Total tokens on bound 0 (accept token) := by
  refine total_peek fun found _ _ => total_ite (fun same => ?_) fun _ => total_pure false
  refine (total_advance ends ?_).free.seq fun _ => total_pure true
  rintro other rfl
  exact same ▸ apart

theorem total_optional (ends : EndsWith tokens last) (apart : token ≠ last)
    (total : Total tokens Any bound 0 item) :
    Total tokens on bound 0 (optional token item) := by
  refine (total_accept ends apart).seq fun found => ?_
  exact total_ite (fun _ => total.seq fun _ => total_pure _) fun _ => total_pure none

theorem total_separated (ends : EndsWith tokens last) (apart : token ≠ last)
    (total : Total tokens Any bound least item)
    (enough : bound ≤ fuel) : Total tokens Any bound least (separated token item fuel) := by
  refine total.seq fun first => ?_
  refine Total.seq (total_collect ?_ enough) fun others => total_pure _
  refine (total_advance ends ?_).seq fun _ => total.free
  intro other same
  exact of_decide_eq_true same ▸ apart

end Loops

end TokenParser

end Pantheon.Lib
