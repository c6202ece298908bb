import Mathlib
import Pantheon.Sql.Value

/-!
# Integers and their decimal text

An integer that a cell holds as text is read as that integer, on the whole range of
an `i64`.
-/

set_option autoImplicit false

namespace Pantheon.Sql

open Pantheon.Lib

def readDigit (number : Option Nat) (digit : Char) : Option Nat :=
  number.bind fun number =>
    if digit.isDigit then some (10 * number + (digit.toNat - 48)) else none

theorem parseDigits_eq {digits : List Char} (some_ : digits ≠ []) :
    parseDigits digits = digits.foldl readDigit (some 0) := by
  rw [parseDigits, if_neg some_]
  rfl

theorem readDigit_digitChar (number : Nat) {digit : Nat} (small : digit < 10) :
    readDigit (some number) digit.digitChar = some (10 * number + digit) := by
  have isDigit : digit.digitChar.isDigit = true := by
    have listed : digit.digitChar ∈ Nat.toDigits 10 digit := by
      rw [Nat.toDigits_of_lt_base small]
      exact List.mem_singleton_self _
    exact Nat.isDigit_of_mem_toDigits (by decide) (by decide) listed
  simp only [readDigit, Option.bind_some, isDigit, if_true,
    Nat.toNat_digitChar_sub_48_of_lt_ten small]

theorem foldl_readDigit_toDigits (number : Nat) :
    (Nat.toDigits 10 number).foldl readDigit (some 0) = some number := by
  induction number using Nat.strongRecOn with
  | ind number ih =>
      rw [Nat.toDigits_eq_if (by decide)]
      split_ifs with small
      · rw [List.foldl_cons, List.foldl_nil, readDigit_digitChar 0 small, Nat.mul_zero,
          Nat.zero_add]
      · rw [List.foldl_append, ih (number / 10) (by omega), List.foldl_cons, List.foldl_nil,
          readDigit_digitChar _ (Nat.mod_lt _ (by decide)), Nat.div_add_mod]

theorem parseDigits_toDigits (number : Nat) :
    parseDigits (Nat.toDigits 10 number) = some number := by
  rw [parseDigits_eq Nat.toDigits_ne_nil, foldl_readDigit_toDigits]

theorem parseI64_of_digits {text : String} {digits : List Char} (listed : text.toList = digits)
    (all : ∀ digit ∈ digits, digit.isDigit = true) :
    parseI64 text = (parseDigits digits).bind fun number => checkI64 number := by
  unfold parseI64
  rw [listed]
  split
  · exact absurd (all '-' (List.mem_cons_self ..)) (by decide)
  · exact absurd (all '+' (List.mem_cons_self ..)) (by decide)
  · rfl

theorem parseI64_of_minus {text : String} {digits : List Char}
    (listed : text.toList = '-' :: digits) :
    parseI64 text = (parseDigits digits).bind fun number => checkI64 (-(number : Int)) := by
  unfold parseI64
  rw [listed]
  rfl

theorem checkI64_of_range {value : Int} (lower : -2 ^ 63 ≤ value) (upper : value < 2 ^ 63) :
    checkI64 value = some value := by
  rw [checkI64, if_pos]
  unfold i64Min i64Max
  omega

theorem parseI64_toString {value : Int} (lower : -2 ^ 63 ≤ value) (upper : value < 2 ^ 63) :
    parseI64 (toString value) = some value := by
  cases value with
  | ofNat number =>
      have digits : (toString (Int.ofNat number)).toList = Nat.toDigits 10 number :=
        Nat.toList_repr
      rw [parseI64_of_digits digits fun digit member =>
        Nat.isDigit_of_mem_toDigits (by decide) (by decide) member, parseDigits_toDigits,
        Option.bind_some, ← Int.ofNat_eq_natCast]
      exact checkI64_of_range lower upper
  | negSucc number =>
      have digits : (toString (Int.negSucc number)).toList =
          '-' :: Nat.toDigits 10 (number + 1) := by
        change ("-" ++ (number + 1).repr).toList = _
        rw [String.toList_append, Nat.toList_repr]
        rfl
      rw [parseI64_of_minus digits, parseDigits_toDigits, Option.bind_some, ← Int.neg_ofNat_succ]
      rw [← Int.neg_ofNat_succ] at lower upper
      exact checkI64_of_range lower upper

theorem fromBytes_toString (lib : Library) {value : Int} (lower : -2 ^ 63 ≤ value)
    (upper : value < 2 ^ 63) :
    Value.fromBytes lib (some (utf8Bytes (toString value))) = .int value := by
  simp only [Value.fromBytes, fromUTF8_utf8Bytes, parseI64_toString lower upper]

end Pantheon.Sql
