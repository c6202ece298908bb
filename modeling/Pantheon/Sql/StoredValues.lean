import Mathlib
import Pantheon.Lib.DoubleText
import Pantheon.Sql.Decimal
import Pantheon.Sql.ValueOrder

/-!
# Values that are stored: `to_wire_bytes` and `from_bytes` in `executor/eval.rs`

A cell does not say what type its bytes are of, so a text that reads as a number or as a
boolean comes back as one.
-/

set_option autoImplicit false

namespace Pantheon.Sql

open Pantheon.Lib

def Library.withTexts (lib : Library) : Library :=
  { lib.withDoubles with floatText := Doubles.text, parseFloat := Doubles.parse }

/-- Values of different classes are not compared. -/
inductive ComparisonClass where
  | number
  | text
  | bool
  | null
  | array
  | bytes
deriving DecidableEq

def classOf : Value → ComparisonClass
  | .int _ => .number
  | .float _ => .number
  | .text _ => .text
  | .bool _ => .bool
  | .null => .null
  | .floatArray _ => .array
  | .bytea _ => .bytes

def stored (lib : Library) (value : Value) : Value :=
  Value.fromBytes lib.withTexts (value.toWireBytes lib.withTexts)

/-- The stored value is equal to it, and of its class. -/
structure KeepsMeaning (lib : Library) (value : Value) : Prop where
  equal : valueCompare lib.withTexts value (stored lib value) = .ok .eq
  sameClass : classOf (stored lib value) = classOf value

/-- No text that reads as another type; arrays and byte strings are written as texts. -/
def ReadsAsItself : Value → Prop
  | .text value => Doubles.parse value = none ∧ value ≠ "t" ∧ value ≠ "f"
  | .floatArray _ => False
  | .bytea _ => False
  | _ => True

variable {lib : Library}

/-! ## Texts that read as integers -/

theorem foldl_readDigit (digits : List Char) : ∀ {number : Nat},
    digits.foldl readDigit (some 0) = some number →
      Doubles.AllDigits digits ∧ Doubles.digitsValue digits = number := by
  induction digits using List.reverseRecOn with
  | nil =>
      intro number run
      cases run
      exact ⟨fun _ member => (nomatch member), rfl⟩
  | append_singleton digits digit ih =>
      intro number run
      rw [List.foldl_concat] at run
      obtain ⟨before, beforeRun, run⟩ := Option.bind_eq_some_iff.mp run
      obtain ⟨all, value⟩ := ih beforeRun
      split_ifs at run with isDigit
      cases run
      refine ⟨fun char member => ?_, ?_⟩
      · rcases List.mem_append.mp member with earlier | last
        · exact all char earlier
        · rw [List.mem_singleton.mp last]
          exact isDigit
      · rw [Doubles.digitsValue_concat, value]

theorem parseDigits_value {digits : List Char} {number : Nat}
    (run : parseDigits digits = some number) :
    Doubles.AllDigits digits ∧ digits ≠ [] ∧ Doubles.digitsValue digits = number := by
  by_cases none_ : digits = []
  · rw [parseDigits, if_pos none_] at run
    cases run
  · rw [parseDigits_eq none_] at run
    obtain ⟨all, value⟩ := foldl_readDigit digits run
    exact ⟨all, none_, value⟩

theorem checkI64_eq_some {value result : Int} (run : checkI64 value = some result) :
    result = value ∧ -2 ^ 63 ≤ value ∧ value ≤ 2 ^ 63 - 1 := by
  unfold checkI64 at run
  split_ifs at run with range
  cases run
  exact ⟨rfl, range⟩

theorem parse_of_parseI64 {text : String} {value : Int} (run : parseI64 text = some value) :
    (Value.int value).InRange ∧ ∃ bits, Doubles.parse text = some bits ∧
      Doubles.isNan bits = false ∧ Doubles.rank bits = Doubles.rankOf value := by
  -- the digits after the sign
  have reads : ∀ {digits : List Char} {number : Nat} {negative : Bool},
      parseDigits digits = some number → number ≤ 2 ^ 63 →
      ∃ bits, (Doubles.readUnsigned digits).map (Doubles.withSign negative) = some bits ∧
        Doubles.isNan bits = false ∧
          Doubles.rank bits = if negative then -(Doubles.magnitudeOf number : Int)
            else Doubles.magnitudeOf number := by
    intro digits number negative digitsRun small
    obtain ⟨all, some_, value⟩ := parseDigits_value digitsRun
    have less := Doubles.magnitudeOf_lt small
    rw [Doubles.readUnsigned_digits all some_ (by rwa [value]), value, Option.map_some]
    exact ⟨_, rfl, Doubles.rank_withSign less.le⟩
  unfold parseI64 at run
  split at run
  · rename_i digits form
    obtain ⟨number, digitsRun, run⟩ := Option.bind_eq_some_iff.mp run
    obtain ⟨rfl, low, high⟩ := checkI64_eq_some run
    obtain ⟨bits, read, number_, rank⟩ := @reads digits number true digitsRun (by omega)
    refine ⟨⟨low, high⟩, bits, ?_, number_, ?_⟩
    · rw [Doubles.parse, form]
      exact read
    · rw [rank, if_pos rfl, Doubles.rankOf, Int.natAbs_neg, Int.natAbs_natCast]
      rcases Nat.eq_zero_or_pos number with rfl | positive
      · rfl
      · rw [if_pos (by omega)]
  · rename_i digits form
    obtain ⟨number, digitsRun, run⟩ := Option.bind_eq_some_iff.mp run
    obtain ⟨rfl, low, high⟩ := checkI64_eq_some run
    obtain ⟨bits, read, number_, rank⟩ := @reads digits number false digitsRun (by omega)
    refine ⟨⟨low, high⟩, bits, ?_, number_, ?_⟩
    · rw [Doubles.parse, form]
      exact read
    · rw [rank, if_neg Bool.false_ne_true, Doubles.rankOf, if_neg (by omega), Int.natAbs_natCast]
  · rename_i notMinus notPlus
    obtain ⟨number, digitsRun, run⟩ := Option.bind_eq_some_iff.mp run
    obtain ⟨rfl, low, high⟩ := checkI64_eq_some run
    obtain ⟨bits, read, number_, rank⟩ := @reads _ number false digitsRun (by omega)
    refine ⟨⟨low, high⟩, bits, ?_, number_, ?_⟩
    · obtain ⟨first, rest, form⟩ := List.exists_cons_of_ne_nil (parseDigits_value digitsRun).2.1
      rw [Doubles.parse_unsigned form (fun same => notMinus rest (same ▸ form))
        (fun same => notPlus rest (same ▸ form)), ← form]
      exact read
    · rw [rank, if_neg Bool.false_ne_true, Doubles.rankOf, if_neg (by omega), Int.natAbs_natCast]

/-! ## What is read back -/

theorem stored_of_text {value : Value} {content : String}
    (written : value.toWireBytes lib.withTexts = some (utf8Bytes content)) :
    stored lib value =
      match parseI64 content with
      | some number => .int number
      | none =>
          match Doubles.parse content with
          | some bits => .float bits
          | none =>
              if content = "t" then .bool true
              else if content = "f" then .bool false
              else .text content := by
  rw [stored, written, Value.fromBytes]
  simp only [fromUTF8_utf8Bytes]
  rfl

theorem floatOrdering_of_rank {left right : F64} (leftNumber : Doubles.isNan left = false)
    (rightNumber : Doubles.isNan right = false) (same : Doubles.rank left = Doubles.rank right) :
    floatOrdering lib.withTexts left right = .eq := by
  have numbers := @floatOrdering_numbers lib left right leftNumber rightNumber
  rw [same, compare_eq_iff_eq.mpr rfl] at numbers
  exact numbers

theorem keeps_float (bits : F64) : KeepsMeaning lib (.float bits) := by
  have form := @stored_of_text lib (.float bits) (Doubles.text bits) rfl
  cases nan : Doubles.isNan bits with
  | true =>
      obtain ⟨read, parsed, isNan⟩ := Doubles.parse_text_nan nan
      have notInt : parseI64 (Doubles.text bits) = none := by
        cases run : parseI64 (Doubles.text bits) with
        | none => rfl
        | some number =>
            obtain ⟨-, other, otherParsed, number_, -⟩ := parse_of_parseI64 run
            rw [parsed] at otherParsed
            cases otherParsed
            rw [isNan] at number_
            cases number_
      simp only [notInt, parsed] at form
      refine ⟨?_, by rw [form]; rfl⟩
      rw [form, valueCompare]
      exact congrArg Except.ok (@floatOrdering_nan lib bits read (Or.inl nan))
  | false =>
      have parsed := Doubles.parse_text nan
      cases run : parseI64 (Doubles.text bits) with
      | none =>
          simp only [run, parsed] at form
          refine ⟨?_, by rw [form]⟩
          rw [form, valueCompare, floatOrdering_of_rank nan nan rfl]
      | some number =>
          obtain ⟨⟨low, high⟩, other, otherParsed, -, rank⟩ := parse_of_parseI64 run
          rw [parsed] at otherParsed
          cases otherParsed
          simp only [run] at form
          refine ⟨?_, by rw [form]; rfl⟩
          have least : -2 ^ 63 ≤ number := low
          have most : number ≤ 2 ^ 63 - 1 := high
          have integer : Doubles.rank (Doubles.ofInt number) = Doubles.rankOf number :=
            Doubles.rank_ofInt least (by omega)
          rw [form, valueCompare]
          exact congrArg Except.ok (floatOrdering_of_rank nan
            (Doubles.isNan_ofInt least (by omega)) (rank.trans integer.symm))

theorem keeps_int {value : Int} (range : (Value.int value).InRange) :
    KeepsMeaning lib (.int value) := by
  have low : -2 ^ 63 ≤ value := range.1
  have high : value ≤ 2 ^ 63 - 1 := range.2
  have read : stored lib (.int value) = .int value :=
    fromBytes_toString lib.withTexts low (by omega)
  refine ⟨?_, by rw [read]⟩
  rw [read, valueCompare, compare_eq_iff_eq.mpr rfl]

theorem keeps_bool (value : Bool) : KeepsMeaning lib (.bool value) := by
  have read : stored lib (.bool value) = .bool value := by
    rw [@stored_of_text lib (.bool value) (if value then "t" else "f") rfl]
    cases value <;> decide
  refine ⟨?_, by rw [read]⟩
  rw [read, valueCompare, compare_eq_iff_eq.mpr rfl]

theorem keeps_text_iff (value : String) :
    KeepsMeaning lib (.text value) ↔ ReadsAsItself (.text value) := by
  have form := @stored_of_text lib (.text value) value rfl
  constructor
  · intro keeps
    have sameClass := keeps.sameClass
    cases run : parseI64 value with
    | some number =>
        simp only [run] at form
        rw [form] at sameClass
        cases sameClass
    | none =>
        cases parsed : Doubles.parse value with
        | some bits =>
            simp only [run, parsed] at form
            rw [form] at sameClass
            cases sameClass
        | none =>
            simp only [run, parsed] at form
            refine ⟨parsed, ?_, ?_⟩
            · rintro rfl
              rw [form] at sameClass
              cases sameClass
            · rintro rfl
              rw [form] at sameClass
              cases sameClass
  · rintro ⟨parsed, notTrue, notFalse⟩
    have notInt : parseI64 value = none := by
      cases run : parseI64 value with
      | none => rfl
      | some number =>
          obtain ⟨-, bits, found, -⟩ := parse_of_parseI64 run
          rw [parsed] at found
          cases found
    simp only [notInt, parsed, if_neg notTrue, if_neg notFalse] at form
    refine ⟨?_, by rw [form]⟩
    rw [form, valueCompare, compare_eq_iff_eq.mpr rfl]

theorem not_keeps_of_class {value : Value} {content : String}
    (written : value.toWireBytes lib.withTexts = some (utf8Bytes content))
    (apart : classOf value = .array ∨ classOf value = .bytes) : ¬KeepsMeaning lib value := by
  intro keeps
  have sameClass := keeps.sameClass
  rw [stored_of_text written] at sameClass
  have known : classOf (match parseI64 content with
      | some number => .int number
      | none =>
          match Doubles.parse content with
          | some bits => .float bits
          | none =>
              if content = "t" then .bool true
              else if content = "f" then .bool false
              else .text content) ∈ [ComparisonClass.number, .text, .bool] := by
    cases parseI64 content with
    | some number => exact List.mem_cons_self
    | none =>
        cases Doubles.parse content with
        | some bits => exact List.mem_cons_self
        | none =>
            simp only
            split_ifs
            · exact .tail _ (.tail _ List.mem_cons_self)
            · exact .tail _ (.tail _ List.mem_cons_self)
            · exact .tail _ List.mem_cons_self
  rw [sameClass] at known
  rcases apart with array | bytes
  · rw [array] at known
    exact absurd known (by decide)
  · rw [bytes] at known
    exact absurd known (by decide)

/-- Storing keeps the meaning of every value other than a text that reads as a number, `t` or
`f`, an array or a byte string. -/
theorem stored_value_iff (lib : Library) (value : RuntimeValue) :
    KeepsMeaning lib value.val ↔ ReadsAsItself value.val := by
  obtain ⟨value, range⟩ := value
  cases value with
  | int value => exact iff_of_true (keeps_int range) trivial
  | float bits => exact iff_of_true (keeps_float bits) trivial
  | text value => exact keeps_text_iff value
  | bool value => exact iff_of_true (keeps_bool value) trivial
  | null => exact iff_of_true ⟨rfl, rfl⟩ trivial
  | floatArray items => exact iff_of_false (not_keeps_of_class rfl (Or.inl rfl)) id
  | bytea bytes => exact iff_of_false (not_keeps_of_class rfl (Or.inr rfl)) id

theorem text_of_digits_is_lost : ¬KeepsMeaning Library.basic (.text "42") := by
  intro keeps
  exact absurd keeps.sameClass (by decide +kernel)

end Pantheon.Sql
