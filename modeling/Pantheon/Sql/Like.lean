import Mathlib
import Pantheon.Sql.Value

/-!
# What LIKE matches: `like_match` in `executor/eval.rs`

A text is cut into as many pieces as the pattern has characters, one piece for each.
-/

set_option autoImplicit false

namespace Pantheon.Sql

/-- A character of the pattern and the piece of the text in its place. -/
def Fits (symbol : Char) (piece : List Char) : Prop :=
  if symbol = '%' then True else if symbol = '_' then piece.length = 1 else piece = [symbol]

/-- The text is cut so that every character of the pattern fits its piece. -/
def SplitsAs (text pattern : List Char) : Prop :=
  ∃ pieces : List (List Char), pieces.flatten = text ∧ List.Forall₂ Fits pattern pieces

theorem splitsAs_nil (text : List Char) : SplitsAs text [] ↔ text = [] := by
  constructor
  · rintro ⟨pieces, rfl, fits⟩
    cases fits
    rfl
  · rintro rfl
    exact ⟨[], rfl, .nil⟩

theorem splitsAs_cons (text : List Char) (symbol : Char) (pattern : List Char) :
    SplitsAs text (symbol :: pattern) ↔
      ∃ piece rest, piece ++ rest = text ∧ Fits symbol piece ∧ SplitsAs rest pattern := by
  constructor
  · rintro ⟨pieces, rfl, fits⟩
    cases fits with
    | cons first others => exact ⟨_, _, rfl, first, _, rfl, others⟩
  · rintro ⟨piece, rest, rfl, first, pieces, rfl, others⟩
    exact ⟨piece :: pieces, rfl, .cons first others⟩

theorem fits_percent (piece : List Char) : Fits '%' piece := by
  rw [Fits, if_pos rfl]
  trivial

theorem fits_one {symbol : Char} (plain : symbol ≠ '%') (piece : List Char) :
    Fits symbol piece ↔ ∃ letter, piece = [letter] ∧ (symbol = '_' ∨ letter = symbol) := by
  rw [Fits, if_neg plain]
  split_ifs with any
  · rw [List.length_eq_one_iff]
    exact exists_congr fun letter => (and_iff_left (Or.inl any)).symm
  · constructor
    · rintro rfl
      exact ⟨symbol, rfl, Or.inr rfl⟩
    · rintro ⟨letter, rfl, anyToo | same⟩
      · exact absurd anyToo any
      · rw [same]

theorem likeRecursive_iff (pattern : List Char) : ∀ text : List Char,
    likeRecursive text pattern = true ↔ SplitsAs text pattern := by
  induction pattern with
  | nil =>
      intro text
      rw [likeRecursive, List.isEmpty_iff, splitsAs_nil]
  | cons symbol pattern ih =>
      intro text
      rw [splitsAs_cons, likeRecursive.eq_def]
      by_cases percent : symbol = '%'
      · subst percent
        simp only [if_true, List.any_eq_true, List.mem_tails, ih]
        constructor
        · rintro ⟨rest, ⟨piece, split⟩, matches_⟩
          exact ⟨piece, rest, split, fits_percent piece, matches_⟩
        · rintro ⟨piece, rest, split, _, matches_⟩
          exact ⟨rest, ⟨piece, split⟩, matches_⟩
      · simp only [percent, if_false, fits_one percent]
        cases text with
        | nil =>
            refine iff_of_false (by simp) ?_
            rintro ⟨piece, rest, split, ⟨letter, rfl, _⟩, _⟩
            cases split
        | cons letter text =>
            simp only [Bool.and_eq_true, Bool.or_eq_true, decide_eq_true_eq, ih]
            constructor
            · rintro ⟨fits, matches_⟩
              exact ⟨[letter], text, rfl, ⟨letter, rfl, fits⟩, matches_⟩
            · rintro ⟨piece, rest, split, ⟨found, rfl, fits⟩, matches_⟩
              obtain ⟨rfl, rfl⟩ := List.cons.inj split
              exact ⟨fits, matches_⟩

/-- LIKE holds exactly when the text can be cut along the pattern. -/
theorem like_match_iff (text pattern : String) :
    likeMatch text pattern = true ↔ SplitsAs text.toList pattern.toList :=
  likeRecursive_iff pattern.toList text.toList

example : likeMatch "mississippi" "m%iss%i_pi" = true := by decide

end Pantheon.Sql
