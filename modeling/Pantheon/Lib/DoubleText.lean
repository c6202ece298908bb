import Mathlib
import Pantheon.Lib.Doubles

/-!
# Doubles as decimal texts

A text reads as the nearest double.  A double is written with the fewest digits that read
back as it, and never with an exponent.
-/

set_option autoImplicit false

namespace Pantheon.Lib

namespace Doubles

/-! ## The nearest double -/

def ofFraction (num den : Nat) : Nat :=
  if num = 0 then 0
  else
    let unit := Float64.exponentOf num den
    let scaled := shiftDown num den unit
    min infinity ((unit + 1074).toNat * 2 ^ 52 + roundQuotient scaled.1 scaled.2)

def withSign (negative : Bool) (magnitude : Nat) : UInt64 :=
  UInt64.ofNat (magnitude + if negative then 2 ^ 63 else 0)

/-- `digits * 10 ^ exponent` -/
def ofDecimal (digits : Nat) (exponent : Int) : Nat :=
  ofFraction (digits * 10 ^ exponent.toNat) (10 ^ (-exponent).toNat)

/-! ## Reading -/

def digitsValue (digits : List Char) : Nat :=
  digits.foldl (fun number digit => 10 * number + (digit.toNat - 48)) 0

def readDigits (text : List Char) : List Char × List Char :=
  (text.takeWhile Char.isDigit, text.dropWhile Char.isDigit)

def readSigned (text : List Char) : Option Int :=
  let (negative, text) := match text with
    | '-' :: rest => (true, rest)
    | '+' :: rest => (false, rest)
    | rest => (false, rest)
  let (digits, rest) := readDigits text
  if digits = [] ∨ rest ≠ [] then none
  else some (Float64.signed negative (digitsValue digits))

def readExponent : List Char → Option Int
  | [] => some 0
  | 'e' :: rest => readSigned rest
  | 'E' :: rest => readSigned rest
  | _ => none

def readFraction : List Char → List Char × List Char
  | '.' :: rest => readDigits rest
  | rest => ([], rest)

def readNumber (text : List Char) : Option Nat :=
  let (whole, rest) := readDigits text
  let (decimals, rest) := readFraction rest
  if whole = [] ∧ decimals = [] then none
  else (readExponent rest).map fun exponent =>
    ofDecimal (digitsValue (whole ++ decimals)) (exponent - decimals.length)

def nan : Nat := infinity + 2 ^ 51

def readUnsigned (text : List Char) : Option Nat :=
  let lower := text.map Char.toLower
  if lower = "inf".toList ∨ lower = "infinity".toList then some infinity
  else if lower = "nan".toList then some nan
  else readNumber text

/-- `str::parse::<f64>`. -/
def parse (text : String) : Option UInt64 :=
  match text.toList with
  | '-' :: rest => (readUnsigned rest).map (withSign true)
  | '+' :: rest => (readUnsigned rest).map (withSign false)
  | rest => (readUnsigned rest).map (withSign false)

/-! ## Writing -/

/-- The last digits of a number, with leading zeros. -/
def paddedDigits : Nat → Nat → List Char
  | 0, _ => []
  | count + 1, number => paddedDigits count (number / 10) ++ [Nat.digitChar (number % 10)]

def decimalText (digits : Nat) (exponent : Int) : List Char :=
  if 0 ≤ exponent then Nat.toDigits 10 (digits * 10 ^ exponent.toNat)
  else
    let places := (-exponent).toNat
    Nat.toDigits 10 (digits / 10 ^ places) ++ '.' :: paddedDigits places (digits % 10 ^ places)

/-- The integer and the power of two whose product a finite magnitude is. -/
def binary (magnitude : Nat) : Nat × Int :=
  if magnitude < 2 ^ 52 then (magnitude, -1074)
  else (magnitude % 2 ^ 52 + 2 ^ 52, (magnitude / 2 ^ 52 : Nat) - 1075)

def fractionOf (magnitude : Nat) : Nat × Nat :=
  ((binary magnitude).1 * 2 ^ (binary magnitude).2.toNat, 2 ^ (-(binary magnitude).2).toNat)

def exactDecimal (magnitude : Nat) : Nat × Int :=
  ((fractionOf magnitude).1 * 5 ^ (-(binary magnitude).2).toNat, min 0 (binary magnitude).2)

/-- The digits at a power of ten that read back, the nearer ones, or those above between two. -/
def digitsAt (magnitude : Nat) (exponent : Int) : Option (Nat × Int) :=
  let num := (fractionOf magnitude).1 * 10 ^ (-exponent).toNat
  let den := (fractionOf magnitude).2 * 10 ^ exponent.toNat
  let below := num / den
  let readsBelow := decide (ofDecimal below exponent = magnitude)
  let readsAbove := decide (ofDecimal (below + 1) exponent = magnitude)
  if readsAbove ∧ (¬readsBelow ∨ den ≤ 2 * (num % den)) then some (below + 1, exponent)
  else if readsBelow then some (below, exponent)
  else none

def shortestDecimal (magnitude : Nat) : Nat × Int :=
  ((List.range 633).findSome? fun place : Nat => digitsAt magnitude (308 - place)).getD
    (exactDecimal magnitude)

def magnitudeText (magnitude : Nat) : List Char :=
  if magnitude = infinity then "inf".toList
  else if magnitude = 0 then "0".toList
  else decimalText (shortestDecimal magnitude).1 (shortestDecimal magnitude).2

/-- `format!("\x7b\x7d")` of a double. -/
def text (bits : UInt64) : String :=
  if isNan bits then "NaN"
  else if isNegative bits then String.ofList ('-' :: magnitudeText (magnitude bits))
  else String.ofList (magnitudeText (magnitude bits))

/-! ## Fractions that are doubles -/

theorem roundQuotient_scale {scale : Nat} (positive : 0 < scale) (num den : Nat) :
    roundQuotient (scale * num) (scale * den) = roundQuotient num den := by
  have double : 2 * (scale * (num % den)) = scale * (2 * (num % den)) := by ring
  unfold roundQuotient
  simp only [Nat.mul_div_mul_left _ _ positive, Nat.mul_mod_mul_left, double,
    Nat.mul_lt_mul_left positive, Nat.mul_left_cancel_iff positive]

theorem floorLog2_scale {scale : Nat} (positive : 0 < scale) (num den : Nat)
    (denPositive : 0 < den) : floorLog2 (scale * num) (scale * den) = floorLog2 num den := by
  have below : (scale * den - 1) / (scale * num) = (den - 1) / num := by
    rw [← Nat.div_div_eq_div_mul]
    congr 1
    obtain ⟨rest, rfl⟩ := Nat.exists_eq_add_of_lt denPositive
    rw [Nat.div_eq_iff positive]
    constructor
    · have split : scale * (0 + rest + 1) = scale * rest + scale := by ring
      have product : (0 + rest + 1 - 1) * scale = scale * rest := by
        rw [Nat.add_sub_cancel, Nat.zero_add, Nat.mul_comm]
      omega
    · have split : scale * (0 + rest + 1) = scale * rest + scale := by ring
      have product : (0 + rest + 1 - 1) * scale = scale * rest := by
        rw [Nat.add_sub_cancel, Nat.zero_add, Nat.mul_comm]
      omega
  unfold floorLog2
  simp only [Nat.mul_le_mul_left_iff positive, Nat.mul_div_mul_left _ _ positive, below]

theorem ofFraction_scale {scale : Nat} (positive : 0 < scale) (num den : Nat)
    (denPositive : 0 < den) : ofFraction (scale * num) (scale * den) = ofFraction num den := by
  unfold ofFraction Float64.exponentOf shiftDown
  simp only [floorLog2_scale positive num den denPositive, Nat.mul_assoc,
    roundQuotient_scale positive, Nat.mul_eq_zero, positive.ne', false_or]

/-- The logarithm of an integer times or over a power of two. -/
theorem floorLog2_pow {num : Nat} (positive : num ≠ 0) (power : Int) :
    floorLog2 (num * 2 ^ power.toNat) (2 ^ (-power).toNat) = num.log2 + power := by
  have low := Nat.log2_self_le positive
  have high : num < 2 ^ (num.log2 + 1) := Nat.lt_log2_self
  rcases le_or_gt 0 power with above | below
  · obtain ⟨up, rfl⟩ := Int.eq_ofNat_of_zero_le above
    have down : (-(up : Int)).toNat = 0 := by omega
    have least : 1 ≤ num * 2 ^ up :=
      Nat.mul_pos (Nat.pos_of_ne_zero positive) (Nat.two_pow_pos up)
    rw [down, pow_zero, Int.toNat_natCast, floorLog2, if_pos least, Nat.div_one]
    have log : (num * 2 ^ up).log2 = num.log2 + up := by
      refine (Nat.log2_eq_iff (Nat.mul_ne_zero positive (Nat.two_pow_pos up).ne')).mpr ⟨?_, ?_⟩
      · rw [pow_add]
        exact Nat.mul_le_mul_right _ low
      · rw [show num.log2 + up + 1 = num.log2 + 1 + up by omega, pow_add]
        exact Nat.mul_lt_mul_of_pos_right high (Nat.two_pow_pos up)
    rw [log]
    push_cast
    rfl
  · obtain ⟨down, rfl⟩ : ∃ down : Nat, power = -(down : Int) := ⟨(-power).toNat, by omega⟩
    have up : (-(down : Int)).toNat = 0 := by omega
    rw [up, pow_zero, Nat.mul_one, neg_neg, Int.toNat_natCast, floorLog2]
    split_ifs with whole
    · have least : down ≤ num.log2 := (Nat.le_log2 positive).mpr whole
      have log : (num / 2 ^ down).log2 = num.log2 - down := by
        refine (Nat.log2_eq_iff (Nat.div_pos whole (Nat.two_pow_pos down)).ne').mpr ⟨?_, ?_⟩
        · rw [Nat.le_div_iff_mul_le (Nat.two_pow_pos down), ← pow_add,
            Nat.sub_add_cancel least]
          exact low
        · rw [Nat.div_lt_iff_lt_mul (Nat.two_pow_pos down), ← pow_add]
          rwa [show num.log2 - down + 1 + down = num.log2 + 1 by omega]
      rw [log]
      omega
    · have most : num.log2 < down := (Nat.log2_lt positive).mpr (not_le.mp whole)
      obtain ⟨gap, rfl⟩ := Nat.exists_eq_add_of_lt most
      have log : ((2 ^ (num.log2 + gap + 1) - 1) / num).log2 = gap := by
        have power : 2 ^ (num.log2 + gap + 1) = 2 ^ gap * 2 ^ (num.log2 + 1) := by
          rw [← pow_add]
          congr 1
          omega
        have least : 2 ^ gap ≤ (2 ^ (num.log2 + gap + 1) - 1) / num := by
          rw [Nat.le_div_iff_mul_le (Nat.pos_of_ne_zero positive), power]
          have less := Nat.mul_lt_mul_of_pos_left high (Nat.two_pow_pos gap)
          omega
        refine (Nat.log2_eq_iff ((Nat.two_pow_pos gap).trans_le least).ne').mpr ⟨least, ?_⟩
        rw [Nat.div_lt_iff_lt_mul (Nat.pos_of_ne_zero positive)]
        have same : 2 ^ (num.log2 + gap + 1) = 2 ^ (gap + 1) * 2 ^ num.log2 := by
          rw [← pow_add]
          congr 1
          omega
        have more := Nat.mul_le_mul_left (2 ^ (gap + 1)) low
        have positive' := Nat.two_pow_pos (num.log2 + gap + 1)
        omega
      rw [log]
      push_cast
      omega

theorem binary_bounds {magnitude : Nat} (nonzero : magnitude ≠ 0) (finite : magnitude < infinity) :
    (binary magnitude).1 ≠ 0 ∧ (binary magnitude).1 < 2 ^ 53 ∧
      max ((binary magnitude).1.log2 + (binary magnitude).2 - 52) (-1074) = (binary magnitude).2 ∧
      ((binary magnitude).2 + 1074).toNat * 2 ^ 52 + (binary magnitude).1 = magnitude := by
  unfold infinity at finite
  unfold binary
  split_ifs with small
  · have log : magnitude.log2 < 52 := (Nat.log2_lt nonzero).mpr small
    refine ⟨nonzero, by omega, ?_, by simp⟩
    dsimp only
    omega
  · have split := Nat.div_add_mod magnitude (2 ^ 52)
    have least : 1 ≤ magnitude / 2 ^ 52 := by omega
    have log : (magnitude % 2 ^ 52 + 2 ^ 52).log2 = 52 :=
      (Nat.log2_eq_iff (by omega)).mpr ⟨by omega, by omega⟩
    refine ⟨by omega, by omega, ?_, ?_⟩
    · rw [log]
      omega
    · have places : ((magnitude / 2 ^ 52 : Nat) - 1075 + 1074 : Int).toNat =
          magnitude / 2 ^ 52 - 1 := by omega
      rw [places]
      omega

/-- The fraction a magnitude stands for rounds to it. -/
theorem ofFraction_fractionOf {magnitude : Nat} (finite : magnitude < infinity) :
    ofFraction (fractionOf magnitude).1 (fractionOf magnitude).2 = magnitude := by
  by_cases zero : magnitude = 0
  · rw [zero]
    rfl
  obtain ⟨nonzero, -, unit, value⟩ := binary_bounds zero finite
  have exponent : Float64.exponentOf (fractionOf magnitude).1 (fractionOf magnitude).2 =
      (binary magnitude).2 := by
    rw [Float64.exponentOf, fractionOf, floorLog2_pow nonzero, unit]
  have product : (fractionOf magnitude).1 ≠ 0 :=
    Nat.mul_ne_zero nonzero (Nat.two_pow_pos _).ne'
  rw [ofFraction, if_neg product, exponent]
  simp only [shiftDown, fractionOf]
  rw [Nat.mul_assoc, ← pow_add, ← pow_add, Nat.add_comm (-(binary magnitude).2).toNat,
    roundQuotient_mul _ (Nat.two_pow_pos _), value]
  exact min_eq_right finite.le

theorem ofDecimal_exact {magnitude : Nat} (finite : magnitude < infinity) :
    ofDecimal (exactDecimal magnitude).1 (exactDecimal magnitude).2 = magnitude := by
  have whole : (min 0 (binary magnitude).2).toNat = 0 := by omega
  have places : (-min 0 (binary magnitude).2).toNat = (-(binary magnitude).2).toNat := by omega
  have tens : 10 ^ (-(binary magnitude).2).toNat =
      5 ^ (-(binary magnitude).2).toNat * (fractionOf magnitude).2 := by
    rw [fractionOf, ← Nat.mul_pow]
  have positive : 0 < (fractionOf magnitude).2 := Nat.two_pow_pos _
  rw [ofDecimal, exactDecimal]
  dsimp only
  rw [whole, places, pow_zero, Nat.mul_one, tens, Nat.mul_comm,
    ofFraction_scale (Nat.pow_pos (by decide)) _ _ positive]
  exact ofFraction_fractionOf finite

theorem ofDecimal_digitsAt {magnitude : Nat} {exponent : Int} {found : Nat × Int}
    (run : digitsAt magnitude exponent = some found) : ofDecimal found.1 found.2 = magnitude := by
  unfold digitsAt at run
  dsimp only at run
  split_ifs at run with above below
  · cases run
    exact of_decide_eq_true above.1
  · cases run
    exact of_decide_eq_true below

theorem ofDecimal_shortest {magnitude : Nat} (finite : magnitude < infinity) :
    ofDecimal (shortestDecimal magnitude).1 (shortestDecimal magnitude).2 = magnitude := by
  unfold shortestDecimal
  cases search : (List.range 633).findSome? fun place : Nat =>
      digitsAt magnitude (308 - place) with
  | none => exact ofDecimal_exact finite
  | some found =>
      obtain ⟨place, -, run⟩ := List.exists_of_findSome?_eq_some search
      exact ofDecimal_digitsAt run

/-! ## A number reads as it was written -/

def AllDigits (text : List Char) : Prop := ∀ digit ∈ text, digit.isDigit = true

theorem allDigits_toDigits (number : Nat) : AllDigits (Nat.toDigits 10 number) :=
  fun _ member => Nat.isDigit_of_mem_toDigits (by decide) (by decide) member

theorem isDigit_digitChar {digit : Nat} (small : digit < 10) : digit.digitChar.isDigit = true := by
  refine allDigits_toDigits digit _ ?_
  rw [Nat.toDigits_of_lt_base small]
  exact List.mem_singleton_self _

theorem allDigits_padded (count : Nat) : ∀ number, AllDigits (paddedDigits count number) := by
  induction count with
  | zero =>
      intro number digit member
      cases member
  | succ count ih =>
      intro number digit member
      rcases List.mem_append.mp member with earlier | last
      · exact ih _ digit earlier
      · rw [List.mem_singleton.mp last]
        exact isDigit_digitChar (Nat.mod_lt _ (by decide))

theorem digitsValue_concat (digits : List Char) (digit : Char) :
    digitsValue (digits ++ [digit]) = 10 * digitsValue digits + (digit.toNat - 48) := by
  unfold digitsValue
  rw [List.foldl_concat]

theorem digitsValue_toDigits (number : Nat) : digitsValue (Nat.toDigits 10 number) = number := by
  induction number using Nat.strongRecOn with
  | ind number ih =>
      rw [Nat.toDigits_eq_if (by decide)]
      split_ifs with small
      · rw [← List.nil_append [_], digitsValue_concat, Nat.toNat_digitChar_sub_48_of_lt_ten small]
        exact Nat.zero_add number
      · rw [digitsValue_concat, ih (number / 10) (by omega),
          Nat.toNat_digitChar_sub_48_of_lt_ten (Nat.mod_lt _ (by decide)), Nat.div_add_mod]

theorem digitsValue_padded (whole : List Char) (count : Nat) : ∀ number, number < 10 ^ count →
    digitsValue (whole ++ paddedDigits count number) = digitsValue whole * 10 ^ count + number := by
  induction count with
  | zero =>
      intro number small
      rw [paddedDigits, List.append_nil, pow_zero, Nat.mul_one]
      omega
  | succ count ih =>
      intro number small
      rw [pow_succ] at small
      rw [paddedDigits, ← List.append_assoc, digitsValue_concat, ih (number / 10) (by omega),
        Nat.toNat_digitChar_sub_48_of_lt_ten (Nat.mod_lt _ (by decide)), pow_succ, Nat.mul_add,
        Nat.add_assoc, Nat.div_add_mod]
      ring

theorem readDigits_append {digits rest : List Char} (all : AllDigits digits)
    (stops : ∀ char ∈ rest.head?, char.isDigit = false) :
    readDigits (digits ++ rest) = (digits, rest) := by
  unfold readDigits
  rw [List.takeWhile_append_of_pos all, List.dropWhile_append_of_pos all]
  cases rest with
  | nil => rw [List.takeWhile_nil, List.append_nil, List.dropWhile_nil]
  | cons char rest =>
      have notDigit := stops char rfl
      rw [List.takeWhile_cons_of_neg (by simp [notDigit]), List.append_nil,
        List.dropWhile_cons_of_neg (by simp [notDigit])]

/-- Digits without a point. -/
theorem readNumber_digits {digits : List Char} (all : AllDigits digits) (some_ : digits ≠ []) :
    readNumber digits = some (ofDecimal (digitsValue digits) 0) := by
  have read : readDigits digits = (digits, []) := by
    have read := @readDigits_append digits [] all (by simp)
    rwa [List.append_nil] at read
  unfold readNumber
  rw [read]
  simp [readFraction, readExponent, some_]

theorem readNumber_point {whole decimals : List Char} (all : AllDigits whole)
    (allToo : AllDigits decimals) (some_ : whole ≠ []) :
    readNumber (whole ++ '.' :: decimals) =
      some (ofDecimal (digitsValue (whole ++ decimals)) (-decimals.length)) := by
  have read : readDigits (whole ++ '.' :: decimals) = (whole, '.' :: decimals) :=
    readDigits_append all (by simp)
  have readToo : readDigits decimals = (decimals, []) := by
    have read := @readDigits_append decimals [] allToo (by simp)
    rwa [List.append_nil] at read
  unfold readNumber
  rw [read]
  simp [readFraction, readToo, readExponent, some_]

theorem length_padded (count : Nat) : ∀ number, (paddedDigits count number).length = count := by
  induction count with
  | zero => exact fun _ => rfl
  | succ count ih =>
      intro number
      rw [paddedDigits, List.length_append, ih, List.length_singleton]

theorem readNumber_decimalText (digits : Nat) (exponent : Int) :
    readNumber (decimalText digits exponent) = some (ofDecimal digits exponent) := by
  unfold decimalText
  split_ifs with whole
  · rw [readNumber_digits (allDigits_toDigits _) Nat.toDigits_ne_nil, digitsValue_toDigits]
    have none_ : (-exponent).toNat = 0 := by omega
    simp [ofDecimal, none_]
  · have places : exponent = -((-exponent).toNat : Int) := by omega
    rw [readNumber_point (allDigits_toDigits _) (allDigits_padded _ _) Nat.toDigits_ne_nil,
      digitsValue_padded _ _ _ (Nat.mod_lt _ (Nat.pow_pos (by decide))), digitsValue_toDigits,
      Nat.div_add_mod', length_padded, ← places]

/-- A number begins with a digit. -/
theorem decimalText_head (digits : Nat) (exponent : Int) :
    ∃ digit rest, decimalText digits exponent = digit :: rest ∧ digit.isDigit = true := by
  have starts : ∀ (number : Nat) (after : List Char), ∃ digit rest,
      Nat.toDigits 10 number ++ after = digit :: rest ∧ digit.isDigit = true := by
    intro number after
    obtain ⟨digit, rest, form⟩ :=
      List.exists_cons_of_ne_nil (@Nat.toDigits_ne_nil number 10)
    have first : digit ∈ Nat.toDigits 10 number := by
      rw [form]
      exact List.mem_cons_self
    exact ⟨digit, rest ++ after, by rw [form]; rfl, allDigits_toDigits number digit first⟩
  unfold decimalText
  split_ifs with whole
  · obtain ⟨digit, rest, form, isDigit⟩ := starts (digits * 10 ^ exponent.toNat) []
    exact ⟨digit, rest, by rw [← form, List.append_nil], isDigit⟩
  · exact starts _ _

theorem toLower_digit {digit : Char} (isDigit : digit.isDigit = true) : digit.toLower = digit := by
  have range : 48 ≤ digit.toNat ∧ digit.toNat ≤ 57 := Char.isDigit_iff_toNat.mp isDigit
  unfold Char.toLower
  rw [dif_neg]
  rintro ⟨upper, -⟩
  have above : 65 ≤ digit.toNat := UInt32.le_iff_toNat_le.mp upper
  omega

theorem readUnsigned_digit {digit : Char} (isDigit : digit.isDigit = true) (rest : List Char) :
    readUnsigned (digit :: rest) = readNumber (digit :: rest) := by
  have apart : ∀ (first : Char) (word : List Char), first.isDigit = false →
      (digit :: rest).map Char.toLower ≠ first :: word := by
    intro first word notDigit same
    have head : digit.toLower = first := (List.cons.inj same).1
    rw [toLower_digit isDigit] at head
    rw [head, notDigit] at isDigit
    cases isDigit
  unfold readUnsigned
  dsimp only
  rw [if_neg, if_neg]
  · exact apart 'n' _ rfl
  · rintro (same | same)
    · exact apart 'i' _ rfl same
    · exact apart 'i' _ rfl same

theorem readUnsigned_magnitudeText {magnitude : Nat} (number : magnitude ≤ infinity) :
    readUnsigned (magnitudeText magnitude) = some magnitude := by
  unfold magnitudeText
  split_ifs with infinite zero
  · rw [infinite]
    rfl
  · rw [zero]
    decide
  · obtain ⟨digit, rest, form, isDigit⟩ :=
      decimalText_head (shortestDecimal magnitude).1 (shortestDecimal magnitude).2
    rw [form, readUnsigned_digit isDigit, ← form, readNumber_decimalText,
      ofDecimal_shortest (lt_of_le_of_ne number infinite)]

/-- A text without a sign. -/
theorem parse_unsigned {text : String} {first : Char} {rest : List Char}
    (form : text.toList = first :: rest) (notMinus : first ≠ '-') (notPlus : first ≠ '+') :
    parse text = (readUnsigned (first :: rest)).map (withSign false) := by
  unfold parse
  rw [form]
  split
  · rename_i found
    exact absurd (List.cons.inj found).1 notMinus
  · rename_i found
    exact absurd (List.cons.inj found).1 notPlus
  · rfl

theorem withSign_eq (bits : UInt64) : withSign (isNegative bits) (magnitude bits) = bits := by
  have small := bits.toNat_lt
  apply UInt64.toNat_inj.mp
  unfold withSign isNegative magnitude
  rw [UInt64.toNat_ofNat']
  by_cases negative : 2 ^ 63 ≤ bits.toNat
  · simp only [negative, decide_true, if_true]
    omega
  · simp only [negative, decide_false, Bool.false_eq_true, if_false]
    omega

/-- A double other than NaN reads back from its text. -/
theorem parse_text {bits : UInt64} (number : isNan bits = false) :
    parse (text bits) = some bits := by
  have finite : magnitude bits ≤ infinity := not_lt.mp (of_decide_eq_false number)
  have read := readUnsigned_magnitudeText finite
  have whole := withSign_eq bits
  unfold text
  rw [number, if_neg Bool.false_ne_true]
  cases sign : isNegative bits with
  | true =>
      rw [sign] at whole
      rw [if_pos rfl, parse, String.toList_ofList]
      simp only [read, Option.map_some, whole]
  | false =>
      rw [sign] at whole
      rw [if_neg Bool.false_ne_true]
      obtain ⟨first, rest, form, notMinus, notPlus⟩ : ∃ first rest,
          magnitudeText (magnitude bits) = first :: rest ∧ first ≠ '-' ∧ first ≠ '+' := by
        unfold magnitudeText
        split_ifs with infinite zero
        · exact ⟨_, _, rfl, by decide, by decide⟩
        · exact ⟨_, _, rfl, by decide, by decide⟩
        · obtain ⟨digit, rest, form, isDigit⟩ := decimalText_head
            (shortestDecimal (magnitude bits)).1 (shortestDecimal (magnitude bits)).2
          refine ⟨digit, rest, form, ?_, ?_⟩
          · rintro rfl
            exact absurd isDigit (by decide)
          · rintro rfl
            exact absurd isDigit (by decide)
      rw [parse_unsigned (String.toList_ofList.trans form) notMinus notPlus, ← form, read,
        Option.map_some, whole]

theorem parse_nan : parse "NaN" = some (withSign false nan) := by decide

theorem isNan_nan : isNan (withSign false nan) = true := by decide

/-- The text of a NaN reads as a NaN. -/
theorem parse_text_nan {bits : UInt64} (isNan_ : isNan bits = true) :
    ∃ read, parse (text bits) = some read ∧ isNan read = true := by
  unfold text
  rw [isNan_, if_pos rfl]
  exact ⟨_, parse_nan, isNan_nan⟩

/-! ## Integers -/

theorem ofDecimal_integer {number : Nat} (small : number ≤ 2 ^ 63) :
    ofDecimal number 0 = magnitudeOf number := by
  have less := magnitudeOf_lt small
  unfold ofDecimal ofFraction magnitudeOf at *
  simp only [Int.toNat_zero, neg_zero, pow_zero, Nat.mul_one]
  split_ifs at less ⊢ with zero
  · rfl
  · have log : floorLog2 number 1 = number.log2 := by
      have power := floorLog2_pow zero 0
      rwa [Int.toNat_zero, neg_zero, Int.toNat_zero, pow_zero, Nat.mul_one, add_zero] at power
    have unit : Float64.exponentOf number 1 = (number.log2 : Int) - 52 := by
      rw [Float64.exponentOf, log]
      omega
    have places : ((number.log2 : Int) - 52 + 1074).toNat = number.log2 + 1022 := by omega
    have rounded : roundQuotient (shiftDown number 1 (number.log2 - 52)).1
        (shiftDown number 1 (number.log2 - 52)).2 = significand number := by
      unfold shiftDown significand
      split_ifs with short
      · have up : (-((number.log2 : Int) - 52)).toNat = 52 - number.log2 := by omega
        have down : ((number.log2 : Int) - 52).toNat = 0 := by omega
        have exact_ := @roundQuotient_mul (number * 2 ^ (52 - number.log2)) 1 (by decide)
        rw [Nat.mul_one] at exact_
        rw [up, down, pow_zero, Nat.mul_one, exact_]
      · have up : (-((number.log2 : Int) - 52)).toNat = 0 := by omega
        have down : ((number.log2 : Int) - 52).toNat = number.log2 - 52 := by omega
        rw [up, down, pow_zero, Nat.mul_one, Nat.one_mul]
    rw [unit, places, rounded]
    exact min_eq_right less.le

theorem rank_withSign {negative : Bool} {magnitude_ : Nat} (small : magnitude_ ≤ infinity) :
    isNan (withSign negative magnitude_) = false ∧
      rank (withSign negative magnitude_) =
        if negative then -(magnitude_ : Int) else magnitude_ := by
  unfold infinity at small
  have bits : (withSign negative magnitude_).toNat =
      magnitude_ + if negative then 2 ^ 63 else 0 := by
    unfold withSign
    rw [UInt64.toNat_ofNat']
    cases negative <;> simp only [Bool.false_eq_true, if_false, if_true] <;> omega
  unfold isNan rank isNegative magnitude infinity
  rw [bits]
  cases negative with
  | true =>
      simp only [if_true]
      have rest : (magnitude_ + 2 ^ 63) % 2 ^ 63 = magnitude_ := by omega
      rw [rest]
      have high : 2 ^ 63 ≤ magnitude_ + 2 ^ 63 := Nat.le_add_left _ _
      refine ⟨decide_eq_false (by omega), ?_⟩
      rw [decide_eq_true high, if_pos rfl]
  | false =>
      simp only [Bool.false_eq_true, if_false, Nat.add_zero]
      have rest : magnitude_ % 2 ^ 63 = magnitude_ := by omega
      rw [rest]
      have low : ¬2 ^ 63 ≤ magnitude_ := by omega
      refine ⟨decide_eq_false (by omega), ?_⟩
      rw [decide_eq_false low, if_neg Bool.false_ne_true]

/-- Digits read as the double nearest to the integer. -/
theorem readUnsigned_digits {digits : List Char} (all : AllDigits digits) (some_ : digits ≠ [])
    (small : digitsValue digits ≤ 2 ^ 63) :
    readUnsigned digits = some (magnitudeOf (digitsValue digits)) := by
  obtain ⟨digit, rest, rfl⟩ := List.exists_cons_of_ne_nil some_
  rw [readUnsigned_digit (all digit List.mem_cons_self), readNumber_digits all some_,
    ofDecimal_integer small]

end Doubles

end Pantheon.Lib
