import Mathlib
import Pantheon.Lib.Utf8

/-!
# Lines of a stream that comes in pieces

A buffer is cut at every end mark; what is behind the last one waits for the next
piece.  The lines do not depend on how the stream was cut into pieces.
-/

set_option autoImplicit false

namespace Pantheon.Lib

section Lines

variable {Item State : Type} [DecidableEq Item] (mark : Item)

/-- One item in front of the first line, or of the rest when no line is complete. -/
def extendFirst (item : Item) : List (List Item) × List Item → List (List Item) × List Item
  | ([], rest) => ([], item :: rest)
  | (line :: lines, rest) => ((item :: line) :: lines, rest)

def takeLines : List Item → List (List Item) × List Item
  | [] => ([], [])
  | item :: items =>
      if item = mark then ([] :: (takeLines items).1, (takeLines items).2)
      else extendFirst item (takeLines items)

/-- One piece of the stream: each line that it completes is consumed. -/
def feed (consume : State → List Item → State) (state : State × List Item)
    (piece : List Item) : State × List Item :=
  let (lines, rest) := takeLines mark (state.2 ++ piece)
  (lines.foldl consume state.1, rest)

theorem takeLines_mark (items : List Item) :
    takeLines mark (mark :: items) = ([] :: (takeLines mark items).1, (takeLines mark items).2) :=
  if_pos rfl

theorem takeLines_other {item : Item} (other : item ≠ mark) (items : List Item) :
    takeLines mark (item :: items) = extendFirst item (takeLines mark items) :=
  if_neg other

theorem takeLines_line {line : List Item} (whole : mark ∉ line) (items : List Item) :
    takeLines mark (line ++ mark :: items) =
      (line :: (takeLines mark items).1, (takeLines mark items).2) := by
  induction line with
  | nil => exact takeLines_mark mark items
  | cons item line ih =>
      rw [List.mem_cons, not_or] at whole
      rw [List.cons_append, takeLines_other mark (Ne.symm whole.1), ih whole.2]
      rfl

theorem takeLines_lines {lines : List (List Item)} (whole : ∀ line ∈ lines, mark ∉ line) :
    takeLines mark (lines.flatMap fun line => line ++ [mark]) = (lines, []) := by
  induction lines with
  | nil => rfl
  | cons line lines ih =>
      have rest := ih fun other member => whole other (List.mem_cons_of_mem _ member)
      rw [List.flatMap_cons, List.append_assoc, List.singleton_append,
        takeLines_line mark (whole line List.mem_cons_self), rest]

theorem takeLines_unfinished {items : List Item} (unfinished : mark ∉ items) :
    takeLines mark items = ([], items) := by
  induction items with
  | nil => rfl
  | cons item items ih =>
      rw [List.mem_cons, not_or] at unfinished
      rw [takeLines_other mark (Ne.symm unfinished.1), ih unfinished.2]
      rfl

theorem takeLines_rest (items : List Item) : mark ∉ (takeLines mark items).2 := by
  induction items with
  | nil => exact List.not_mem_nil
  | cons item items ih =>
      by_cases same : item = mark
      · rw [same, takeLines_mark]
        exact ih
      · rw [takeLines_other mark same]
        cases found : takeLines mark items with
        | mk lines rest =>
            rw [found] at ih
            cases lines with
            | nil =>
                rw [extendFirst, List.mem_cons, not_or]
                exact ⟨Ne.symm same, ih⟩
            | cons line lines => exact ih

/-- The lines of two pieces: those of the first, and then those of its rest with the
second. -/
theorem takeLines_append (front back : List Item) :
    takeLines mark (front ++ back) =
      ((takeLines mark front).1 ++ (takeLines mark ((takeLines mark front).2 ++ back)).1,
        (takeLines mark ((takeLines mark front).2 ++ back)).2) := by
  induction front with
  | nil => rfl
  | cons item front ih =>
      rw [List.cons_append]
      by_cases same : item = mark
      · rw [same, takeLines_mark, takeLines_mark, ih]
        rfl
      · rw [takeLines_other mark same, takeLines_other mark same, ih]
        cases found : takeLines mark front with
        | mk lines rest =>
            cases lines with
            | nil => exact (takeLines_other mark same (rest ++ back)).symm
            | cons line lines => rfl

theorem foldl_feed (consume : State → List Item → State) (pieces : List (List Item)) :
    ∀ (state : State) (waiting : List Item), mark ∉ waiting →
      pieces.foldl (feed mark consume) (state, waiting) =
        feed mark consume (state, waiting) pieces.flatten := by
  induction pieces with
  | nil =>
      intro state waiting unfinished
      simp [feed, takeLines_unfinished mark unfinished]
  | cons piece pieces ih =>
      intro state waiting unfinished
      rw [List.foldl_cons, List.flatten_cons]
      have first : feed mark consume (state, waiting) piece =
          ((takeLines mark (waiting ++ piece)).1.foldl consume state,
            (takeLines mark (waiting ++ piece)).2) := rfl
      rw [first, ih _ _ (takeLines_rest mark _)]
      simp only [feed]
      rw [← List.append_assoc, takeLines_append mark (waiting ++ piece), List.foldl_append]

theorem takeLines_lines_rest {lines : List (List Item)} (whole : ∀ line ∈ lines, mark ∉ line)
    {rest : List Item} (unfinished : mark ∉ rest) :
    takeLines mark ((lines.flatMap fun line => line ++ [mark]) ++ rest) = (lines, rest) := by
  rw [takeLines_append, takeLines_lines mark whole, List.nil_append,
    takeLines_unfinished mark unfinished, List.append_nil]

/-- However a stream of whole lines is cut, each line is consumed once and in order. -/
theorem foldl_feed_lines (consume : State → List Item → State) (state : State)
    {lines : List (List Item)} (whole : ∀ line ∈ lines, mark ∉ line) {pieces : List (List Item)}
    (stream : pieces.flatten = lines.flatMap fun line => line ++ [mark]) :
    pieces.foldl (feed mark consume) (state, []) = (lines.foldl consume state, []) := by
  rw [foldl_feed mark consume pieces state [] List.not_mem_nil, stream]
  simp only [feed, List.nil_append]
  rw [takeLines_lines mark whole]

end Lines

/-! ## ASCII bytes in UTF-8 text -/

theorem utf8EncodeChar_ascii {char : Char} (ascii : char.toNat < 128) :
    String.utf8EncodeChar char = [UInt8.ofNat char.toNat] := by
  have small : char.val.toNat ≤ 127 := Nat.lt_succ_iff.mp ascii
  unfold String.utf8EncodeChar
  simp only [if_pos small]
  rfl

theorem utf8EncodeChar_above {char : Char} (above : 128 ≤ char.toNat) :
    ∀ byte ∈ String.utf8EncodeChar char, 128 ≤ byte.toNat := by
  have bound : ∀ value : Nat, value < 256 → 128 ≤ value → 128 ≤ (UInt8.ofNat value).toNat := by
    intro value small atLeast
    rw [UInt8.toNat_ofNat', Nat.mod_eq_of_lt small]
    exact atLeast
  have large : ¬ char.val.toNat ≤ 127 := by
    have : 128 ≤ char.val.toNat := above
    omega
  intro byte member
  unfold String.utf8EncodeChar at member
  simp only [if_neg large] at member
  split_ifs at member with two three
  · simp only [List.mem_cons, List.not_mem_nil, or_false] at member
    rcases member with same | same
    all_goals
      rw [same]
      apply bound <;> omega
  · simp only [List.mem_cons, List.not_mem_nil, or_false] at member
    rcases member with same | same | same
    all_goals
      rw [same]
      apply bound <;> omega
  · simp only [List.mem_cons, List.not_mem_nil, or_false] at member
    rcases member with same | same | same | same
    all_goals
      rw [same]
      apply bound <;> omega

end Pantheon.Lib
