import Mathlib
import Pantheon.Sql.Aggregate
import Pantheon.Sql.Decimal

/-!
# Where integer arithmetic panics: `executor/eval.rs`

Sums, differences and products of two operands are checked.  Quotients, remainders,
negation, `abs`, the running total of `sum` and the length of an interval are those of
`i64`, which panics where a result does not fit.
-/

set_option autoImplicit false

namespace Pantheon.Sql

abbrev I64 : Type := { value : Int // i64Min ≤ value ∧ value ≤ i64Max }

/-- How an evaluation ends without a value. -/
inductive Halt where
  | panic (message : String)
  | error (message : String)
deriving DecidableEq

/-- The operators of `eval_arithmetic`. -/
inductive ArithmeticOp where
  | add
  | sub
  | mul
  | div
  | mod
deriving DecidableEq

def ArithmeticOp.binOp : ArithmeticOp → BinOp
  | .add => .add
  | .sub => .sub
  | .mul => .mul
  | .div => .div
  | .mod => .mod

def fitting (halt : Halt) (value : Int) : Except Halt Int :=
  match checkI64 value with
  | some value => .ok value
  | none => .error halt

/-- A remainder panics where the quotient does not fit. -/
def evalInts (op : ArithmeticOp) (left right : Int) : Except Halt Int :=
  match op with
  | .add => fitting (.error "integer overflow") (left + right)
  | .sub => fitting (.error "integer overflow") (left - right)
  | .mul => fitting (.error "integer overflow") (left * right)
  | .div =>
      if right = 0 then .error (.error "division by zero")
      else fitting (.panic "attempt to divide with overflow") (left.tdiv right)
  | .mod =>
      if right = 0 then .error (.error "division by zero")
      else do
        let _ ← fitting (.panic "attempt to calculate the remainder with overflow")
          (left.tdiv right)
        .ok (left.tmod right)

def negateInteger (value : Int) : Except Halt Int :=
  fitting (.panic "attempt to negate with overflow") (-value)

def absolute (value : Int) : Except Halt Int :=
  if value < 0 then negateInteger value else .ok value

/-- `int_sum += n` for each of the values. -/
def sumFrom : Int → List Int → Except Halt Int
  | total, [] => .ok total
  | total, value :: values => do
      let total ← fitting (.panic "attempt to add with overflow") (total + value)
      sumFrom total values

def sumRows (values : List Int) : Except Halt Value :=
  if values.isEmpty then .ok .null else (sumFrom 0 values).map .int

/-! ## Intervals -/

def trimEnd (drops : Char → Bool) (chars : List Char) : List Char :=
  (chars.reverse.dropWhile drops).reverse

def trim (chars : List Char) : List Char := trimEnd Lib.isWhitespace (chars.dropWhile Lib.isWhitespace)

def unitMs : String → Option Int
  | "ms" | "millisecond" => some 1
  | "s" | "sec" | "second" => some 1000
  | "m" | "min" | "minute" => some 60000
  | "h" | "hr" | "hour" => some 3600000
  | "d" | "day" => some 86400000
  | "w" | "week" => some (7 * 86400000)
  | "mon" | "month" => some (30 * 86400000)
  | _ => none

def intervalParts (text : String) : Option (Int × Int) :=
  let chars := trim text.toList
  let unit := chars.dropWhile Char.isDigit
  if unit.isEmpty then none
  else do
    let number ← parseI64 (String.ofList (chars.takeWhile Char.isDigit))
    let millis ← unitMs (String.ofList ((trimEnd (· = 's') (trim unit)).map Char.toLower))
    some (number, millis)

def parseInterval (text : String) : Except Halt (Option Int) :=
  match intervalParts text with
  | none => .ok none
  | some (number, millis) =>
      (fitting (.panic "attempt to multiply with overflow") (number * millis)).map some

/-- `eval_interval_arg` for a text. -/
def evalIntervalArg (debugText : String → String) (fname text : String) : Except Halt Int := do
  match ← parseInterval text with
  | some millis => .ok millis
  | none => .error (.error (fname ++ "(): invalid interval literal " ++ debugText text))

/-! ## Operations -/

inductive Operation where
  | arithmetic (op : ArithmeticOp) (left right : I64)
  | neg (value : I64)
  | abs (value : I64)
  | sum (values : List I64)
  | interval (fname text : String)

def Operation.run (debugText : String → String) : Operation → Except Halt Value
  | .arithmetic op left right => (evalInts op left right).map .int
  | .neg value => (negateInteger value).map .int
  | .abs value => (absolute value).map .int
  | .sum values => sumRows (values.map Subtype.val)
  | .interval fname text => (evalIntervalArg debugText fname text).map .int

/-- The results that the code does not check fit. -/
def Operation.StaysInside : Operation → Prop
  | .arithmetic op left right => ¬(left.val = i64Min ∧ right.val = -1 ∧ (op = .div ∨ op = .mod))
  | .neg value => value.val ≠ i64Min
  | .abs value => value.val ≠ i64Min
  | .sum values => ∀ count ≤ values.length,
      i64Min ≤ ((values.take count).map Subtype.val).sum ∧
        ((values.take count).map Subtype.val).sum ≤ i64Max
  | .interval _ text => ∀ parts ∈ intervalParts text, parts.1 * parts.2 ≤ i64Max

/-- The evaluation does not panic. -/
def Ends {Result : Type} (outcome : Except Halt Result) : Prop :=
  ∀ message, outcome ≠ .error (.panic message)

section Ends

variable {Result Other : Type}

theorem ends_ok (result : Result) : Ends (.ok result) := fun _ => by simp

theorem ends_error (message : String) : Ends (.error (.error message) : Except Halt Result) :=
  fun _ => by simp

theorem ends_map (outcome : Except Halt Result) (change : Result → Other) :
    Ends (outcome.map change) ↔ Ends outcome := by
  cases outcome <;> simp [Ends, Except.map]

theorem ends_bind_ok (outcome : Except Halt Result) (change : Result → Other) :
    Ends (outcome >>= fun result => .ok (change result)) ↔ Ends outcome := by
  cases outcome <;> simp [Ends, Bind.bind, Except.bind]

theorem ends_fitting (message : String) (value : Int) :
    Ends (fitting (.panic message) value) ↔ i64Min ≤ value ∧ value ≤ i64Max := by
  unfold fitting checkI64
  split_ifs with inside
  · exact iff_of_true (ends_ok value) inside
  · exact iff_of_false (fun ends => ends message rfl) inside

theorem ends_fitting_error (message : String) (value : Int) :
    Ends (fitting (.error message) value) := by
  unfold fitting
  cases checkI64 value with
  | some value => exact ends_ok value
  | none => exact ends_error message

end Ends

theorem tdiv_inside_iff (left right : I64) (nonzero : right.val ≠ 0) :
    (i64Min ≤ left.val.tdiv right.val ∧ left.val.tdiv right.val ≤ i64Max) ↔
      ¬(left.val = i64Min ∧ right.val = -1) := by
  obtain ⟨left, low, high⟩ := left
  obtain ⟨right, _, _⟩ := right
  have low : -2 ^ 63 ≤ left := low
  have high : left ≤ 2 ^ 63 - 1 := high
  simp only [i64Min, i64Max] at nonzero ⊢
  by_cases unit : right = -1
  · subst unit
    rw [Int.tdiv_neg, Int.tdiv_one]
    omega
  · refine iff_of_true ?_ fun both => unit both.2
    by_cases one : right = 1
    · subst one
      rw [Int.tdiv_one]
      exact ⟨low, high⟩
    · have half : (left.tdiv right).natAbs ≤ left.natAbs / 2 := by
        rw [Int.natAbs_tdiv]
        exact Nat.div_le_div_left (by omega) (by decide)
      omega

theorem ends_evalInts (op : ArithmeticOp) (left right : I64) :
    Ends (evalInts op left.val right.val) ↔
      ¬(left.val = i64Min ∧ right.val = -1 ∧ (op = .div ∨ op = .mod)) := by
  cases op with
  | add => simp [evalInts, ends_fitting_error]
  | sub => simp [evalInts, ends_fitting_error]
  | mul => simp [evalInts, ends_fitting_error]
  | div =>
      rw [evalInts]
      split_ifs with zero
      · refine iff_of_true (ends_error _) ?_
        rw [zero]
        simp
      · rw [ends_fitting, tdiv_inside_iff left right zero]
        simp
  | mod =>
      rw [evalInts]
      split_ifs with zero
      · refine iff_of_true (ends_error _) ?_
        rw [zero]
        simp
      · rw [ends_bind_ok, ends_fitting, tdiv_inside_iff left right zero]
        simp

theorem ends_negate (value : I64) : Ends (negateInteger value.val) ↔ value.val ≠ i64Min := by
  obtain ⟨value, low, high⟩ := value
  have low : -2 ^ 63 ≤ value := low
  have high : value ≤ 2 ^ 63 - 1 := high
  rw [negateInteger, ends_fitting]
  simp only [i64Min, i64Max]
  omega

theorem ends_absolute (value : I64) : Ends (absolute value.val) ↔ value.val ≠ i64Min := by
  rw [absolute]
  split_ifs with negative
  · exact ends_negate value
  · refine iff_of_true (ends_ok _) fun least => negative ?_
    rw [least]
    decide

theorem ends_sumFrom (values : List Int) : ∀ total : Int, Ends (sumFrom total values) ↔
    ∀ count, 1 ≤ count → count ≤ values.length →
      i64Min ≤ total + (values.take count).sum ∧ total + (values.take count).sum ≤ i64Max := by
  induction values with
  | nil =>
      intro total
      refine iff_of_true (ends_ok total) ?_
      intro count least most
      exact absurd (le_trans least most) (by simp)
  | cons value values ih =>
      intro total
      rw [sumFrom]
      unfold fitting checkI64
      split_ifs with inside
      · refine (ih (total + value)).trans ⟨fun later count least most => ?_,
          fun all count least most => ?_⟩
        · obtain ⟨count, rfl⟩ : ∃ less, count = less + 1 := ⟨count - 1, by omega⟩
          rw [List.take_succ_cons, List.sum_cons, ← add_assoc]
          by_cases first : count = 0
          · subst first
            simpa using inside
          · exact later count (by omega) (Nat.le_of_succ_le_succ most)
        · have next := all (count + 1) (by omega) (Nat.succ_le_succ most)
          rw [List.take_succ_cons, List.sum_cons, ← add_assoc] at next
          exact next
      · refine iff_of_false (fun ends => ends _ rfl) fun all => inside ?_
        have first := all 1 le_rfl (Nat.succ_le_succ (Nat.zero_le _))
        simpa using first

theorem ends_sumRows (values : List Int) : Ends (sumRows values) ↔
    ∀ count ≤ values.length,
      i64Min ≤ (values.take count).sum ∧ (values.take count).sum ≤ i64Max := by
  have nothing : i64Min ≤ 0 ∧ (0 : Int) ≤ i64Max := by decide
  rw [sumRows]
  split_ifs with empty
  · rw [List.isEmpty_iff] at empty
    subst empty
    refine iff_of_true (ends_ok _) fun count _ => ?_
    simpa using nothing
  · rw [ends_map, ends_sumFrom]
    simp only [zero_add]
    refine ⟨fun all count most => ?_, fun all count _ most => all count most⟩
    by_cases first : count = 0
    · subst first
      simpa using nothing
    · exact all count (by omega) most

theorem unitMs_pos {unit : String} {millis : Int} (found : unitMs unit = some millis) :
    0 < millis := by
  unfold unitMs at found
  split at found <;> first | cases found; decide | cases found

theorem parseI64_digits_nonneg {chars : List Char} {number : Int}
    (read : parseI64 (String.ofList (chars.takeWhile Char.isDigit)) = some number) :
    0 ≤ number := by
  rw [parseI64_of_digits String.toList_ofList fun digit member =>
    List.mem_takeWhile_imp member] at read
  obtain ⟨value, -, checked⟩ := Option.bind_eq_some_iff.mp read
  unfold checkI64 at checked
  split_ifs at checked
  rw [← Option.some.inj checked]
  exact Int.natCast_nonneg value

theorem intervalParts_nonneg {text : String} {parts : Int × Int}
    (found : intervalParts text = some parts) : 0 ≤ parts.1 * parts.2 := by
  unfold intervalParts at found
  simp only at found
  split_ifs at found
  obtain ⟨number, read, found⟩ := Option.bind_eq_some_iff.mp found
  obtain ⟨millis, unit, found⟩ := Option.bind_eq_some_iff.mp found
  cases Option.some.inj found
  exact mul_nonneg (parseI64_digits_nonneg read) (unitMs_pos unit).le

theorem ends_evalIntervalArg (debugText : String → String) (fname text : String) :
    Ends (evalIntervalArg debugText fname text) ↔
      ∀ parts ∈ intervalParts text, parts.1 * parts.2 ≤ i64Max := by
  rw [evalIntervalArg, parseInterval]
  cases found : intervalParts text with
  | none => exact iff_of_true (ends_error _) fun parts member => by cases member
  | some parts =>
      obtain ⟨number, millis⟩ := parts
      have product := intervalParts_nonneg found
      have fits := ends_fitting "attempt to multiply with overflow" (number * millis)
      have bound : (i64Min ≤ number * millis ∧ number * millis ≤ i64Max) ↔
          ∀ parts ∈ some (number, millis), parts.1 * parts.2 ≤ i64Max := by
        simp only [Option.mem_def, Option.some.injEq, forall_eq', and_iff_right_iff_imp]
        intro _
        exact le_trans (by decide) product
      rw [← bound, ← fits]
      simp only
      generalize fitting (.panic "attempt to multiply with overflow") (number * millis) = outcome
      cases outcome <;> simp [Ends, Except.map, Bind.bind, Except.bind]

/-! ## The evaluator where nothing panics -/

/-- No operation panics exactly where the results that are not checked fit. -/
theorem integer_arithmetic_ends_iff (debugText : String → String) (operation : Operation) :
    (∀ message, operation.run debugText ≠ .error (.panic message)) ↔ operation.StaysInside := by
  cases operation with
  | arithmetic op left right => exact (ends_map _ _).trans (ends_evalInts op left right)
  | neg value => exact (ends_map _ _).trans (ends_negate value)
  | abs value => exact (ends_map _ _).trans (ends_absolute value)
  | sum values =>
      refine (ends_sumRows _).trans ?_
      simp only [List.length_map, ← List.map_take]
      rfl
  | interval fname text =>
      exact (ends_map _ _).trans (ends_evalIntervalArg debugText fname text)

def leastI64 : I64 := ⟨i64Min, by decide, by decide⟩

/-- The least `i64` has no opposite. -/
theorem least_quotient_panics :
    ¬Ends ((Operation.arithmetic .div leastI64 ⟨-1, by decide, by decide⟩).run id) := by
  intro ends
  exact ends "attempt to divide with overflow" rfl

end Pantheon.Sql
