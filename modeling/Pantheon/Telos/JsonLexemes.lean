import Mathlib
import Pantheon.Telos.JsonGrammar

/-!
# White space, numbers and strings of a JSON text

What the grammar reads the reader reads, and in one way only.
-/

set_option autoImplicit false

namespace Pantheon.Telos

open Pantheon.Lib

variable {char : Char} {chars rest other digits point text : List Char} {notes others : List Note}
  {exponent : Int} {value : Decimal} {code : Nat}

/-! ## White space -/

def Visible (chars : List Char) : Prop :=
  ∀ char, chars.head? = some char → isWhitespace char = false

theorem isWhitespace_of_space (space : isJsonSpace char = true) :
    isWhitespace char = true := by
  rcases of_decide_eq_true space with rfl | rfl | rfl | rfl <;> decide

theorem visible_cons (rest : List Char) (visible : isWhitespace char = false) :
    Visible (char :: rest) := by
  intro other found
  cases found
  exact visible

theorem skipWs_visible (visible : Visible chars) : skipWs chars = chars := by
  cases chars with
  | nil => rfl
  | cons char rest =>
      have notWhite := visible char rfl
      rw [skipWs, List.dropWhile_cons_of_neg (by rw [notWhite]; exact Bool.false_ne_true)]

theorem skipWs_cons (rest : List Char) (white : isWhitespace char = true) :
    skipWs (char :: rest) = skipWs rest := List.dropWhile_cons_of_pos white

theorem Space.skipWs_eq
    (space : Space notes chars rest) : skipWs chars = skipWs rest := by
  induction space with
  | none => rfl
  | plain space _ ih => rw [skipWs_cons _ (isWhitespace_of_space space), ih]
  | other _ white _ ih => rw [skipWs_cons _ white, ih]

theorem Space.skipWs_of_visible
    (space : Space notes chars rest) (visible : Visible rest) : skipWs chars = rest :=
  space.skipWs_eq.trans (skipWs_visible visible)

theorem Space.paired
    (space : Space notes chars rest) : Note.unpairedHalf ∉ notes := by
  induction space with
  | none => exact List.not_mem_nil
  | plain _ _ ih => exact ih
  | other _ _ _ ih =>
      intro member
      rcases List.mem_cons.mp member with same | later
      · cases same
      · exact ih later

theorem Space.length_le
    (space : Space notes chars rest) : rest.length ≤ chars.length := by
  induction space with
  | none => exact le_rfl
  | plain _ _ ih => exact ih.trans (Nat.le_succ _)
  | other _ _ _ ih => exact ih.trans (Nat.le_succ _)

theorem space_skipWs (chars : List Char) : ∃ notes, Space notes chars (skipWs chars) := by
  induction chars with
  | nil => exact ⟨[], .none⟩
  | cons char rest ih =>
      cases white : isWhitespace char with
      | false => exact ⟨[], by rw [skipWs_visible (visible_cons rest white)]; exact .none⟩
      | true =>
          obtain ⟨notes, space⟩ := ih
          rw [skipWs_cons rest white]
          cases plain : isJsonSpace char with
          | true => exact ⟨notes, .plain plain space⟩
          | false => exact ⟨.otherSpace :: notes, .other plain white space⟩

theorem Space.unique
    (first : Space notes chars rest) (visible : Visible rest)
    (second : Space others chars other) (otherVisible : Visible other) :
    notes = others ∧ rest = other := by
  induction first generalizing others with
  | none =>
      cases second with
      | none => exact ⟨rfl, rfl⟩
      | plain space _ =>
          have white := isWhitespace_of_space space
          rw [visible _ rfl] at white
          cases white
      | other _ white _ =>
          rw [visible _ rfl] at white
          cases white
  | plain space _ ih =>
      cases second with
      | none =>
          have white := isWhitespace_of_space space
          rw [otherVisible _ rfl] at white
          cases white
      | plain _ more => exact ih visible more
      | other notSpace _ _ =>
          rw [space] at notSpace
          cases notSpace
  | other notSpace white _ ih =>
      cases second with
      | none =>
          rw [otherVisible _ rfl] at white
          cases white
      | plain space _ =>
          rw [space] at notSpace
          cases notSpace
      | other _ _ more =>
          obtain ⟨rfl, rest⟩ := ih visible more
          exact ⟨rfl, rest⟩

/-! ## Numbers -/

def NoDigit (chars : List Char) : Prop :=
  ∀ char, chars.head? = some char → isDecimalDigit char = false

theorem Digits.read (read : Digits chars digits rest)
    (ends : NoDigit rest) : readDigits chars = some (digits, rest) := by
  have taken : rest.takeWhile isAsciiDigit = [] ∧ rest.dropWhile isAsciiDigit = rest := by
    cases rest with
    | nil => exact ⟨rfl, rfl⟩
    | cons char rest =>
        have notDigit : ¬isAsciiDigit char = true := by
          rw [show isAsciiDigit char = false from ends char rfl]
          exact Bool.false_ne_true
        exact ⟨List.takeWhile_cons_of_neg notDigit, List.dropWhile_cons_of_neg notDigit⟩
  have all : ∀ char ∈ digits, isAsciiDigit char = true := read.all
  unfold readDigits
  rw [read.text, List.takeWhile_append_of_pos all, List.dropWhile_append_of_pos all, taken.1,
    taken.2, List.append_nil]
  exact if_neg (by simpa using read.some_)

theorem digits_of_readDigits
    (run : readDigits chars = some (digits, rest)) : Digits chars digits rest := by
  simp only [readDigits] at run
  split_ifs at run with empty
  cases run
  exact ⟨by simpa using empty, fun char member => List.mem_takeWhile_imp member,
    List.takeWhile_append_dropWhile.symm⟩

theorem Digits.head (read : Digits chars digits rest) :
    ∃ first tail, chars = first :: tail ∧ isDecimalDigit first = true := by
  obtain ⟨first, more, rfl⟩ := List.exists_cons_of_ne_nil read.some_
  exact ⟨first, more ++ rest, read.text, read.all first List.mem_cons_self⟩

theorem digit_ne_sign {first : Char} (digit : isDecimalDigit first = true) :
    first ≠ '-' ∧ first ≠ '+' := by
  constructor
  · rintro rfl
    exact absurd digit (by decide)
  · rintro rfl
    exact absurd digit (by decide)

theorem Sign.read {start whole : List Char} {negative : Bool}
    (sign : Sign chars negative start) (digits : Digits start whole point) :
    readSign chars = (negative, start) := by
  cases sign with
  | minus => rfl
  | absent =>
      obtain ⟨first, tail, rfl, digit⟩ := digits.head
      unfold readSign
      split
      · rename_i same
        exact absurd (List.cons.inj same).1 (digit_ne_sign digit).1
      · rfl

theorem sign_of_readSign (chars : List Char) :
    Sign chars (readSign chars).1 (readSign chars).2 := by
  unfold readSign
  split
  · exact .minus
  · exact .absent

theorem isExponentMark_iff :
    isExponentMark char = true ↔ char = 'e' ∨ char = 'E' := decide_eq_true_iff

theorem Exponent.head {mark : List Char}
    (scale : Exponent mark exponent rest) (ends : EndsNumber rest) :
    NoDigit mark ∧ mark.head? ≠ some '.' := by
  have marks : ∀ {char : Char}, isExponentMark char = true →
      isDecimalDigit char = false ∧ char ≠ '.' := by
    intro char marked
    rcases isExponentMark_iff.mp marked with rfl | rfl <;> decide
  have front : ∀ {char : Char} {chars : List Char}, isExponentMark char = true →
      NoDigit (char :: chars) ∧ (char :: chars).head? ≠ some '.' := by
    intro char chars marked
    refine ⟨fun other found => ?_, fun found => (marks marked).2 (Option.some.inj found)⟩
    cases found
    exact (marks marked).1
  cases scale with
  | absent =>
      constructor
      · intro char found
        have plain := ends char found
        simp only [continuesNumber, Bool.or_eq_true, not_or] at plain
        simpa using plain.1.1
      · intro found
        exact ends '.' found (by decide)
  | unsigned marked _ => exact front marked
  | plus marked _ => exact front marked
  | minus marked _ => exact front marked

theorem noDigit_of_ends (ends : EndsNumber rest) : NoDigit rest :=
  (Exponent.head .absent ends).1

theorem Exponent.read {mark rest : List Char}
    (scale : Exponent mark exponent rest) (ends : EndsNumber rest) :
    readExponent mark = some (exponent, rest) := by
  have digits : ∀ {chars found : List Char} (negative : Bool), Digits chars found rest →
      readExponentDigits negative chars =
        some (if negative then -(natOfDigits found : Int) else natOfDigits found, rest) := by
    intro chars found negative read
    rw [readExponentDigits, read.read (noDigit_of_ends ends)]
    rfl
  unfold readExponent
  cases scale with
  | absent =>
      cases mark with
      | nil => rfl
      | cons char rest =>
          have plain : ¬(char = 'e' ∨ char = 'E') := by
            intro marked
            refine ends char rfl ?_
            rcases marked with rfl | rfl <;> decide
          simp only [if_neg plain]
  | unsigned marked read =>
      obtain ⟨first, tail, rfl, digit⟩ := read.head
      simp only [if_pos (isExponentMark_iff.mp marked)]
      split
      · rename_i same
        exact absurd (List.cons.inj same).1 (digit_ne_sign digit).2
      · rename_i same
        exact absurd (List.cons.inj same).1 (digit_ne_sign digit).1
      · exact digits false read
  | plus marked read =>
      simp only [if_pos (isExponentMark_iff.mp marked)]
      exact digits false read
  | minus marked read =>
      simp only [if_pos (isExponentMark_iff.mp marked)]
      exact digits true read

theorem exponent_of_readExponent
    (run : readExponent chars = some (exponent, rest)) : Exponent chars exponent rest := by
  have digits : ∀ {chars : List Char} {negative : Bool},
      readExponentDigits negative chars = some (exponent, rest) →
      ∃ found, Digits chars found rest ∧
        exponent = if negative then -(natOfDigits found : Int) else natOfDigits found := by
    intro chars negative run
    obtain ⟨⟨found, after⟩, read, run⟩ := Option.bind_eq_some_iff.mp run
    cases run
    exact ⟨found, digits_of_readDigits read, rfl⟩
  unfold readExponent at run
  cases chars with
  | nil =>
      cases run
      exact .absent
  | cons char chars =>
      simp only at run
      split_ifs at run with marked
      · split at run
        · obtain ⟨found, read, rfl⟩ := digits run
          exact .plus (isExponentMark_iff.mpr marked) read
        · obtain ⟨found, read, rfl⟩ := digits run
          exact .minus (isExponentMark_iff.mpr marked) read
        · obtain ⟨found, read, rfl⟩ := digits run
          exact .unsigned (isExponentMark_iff.mpr marked) read
      · cases run
        exact .absent

theorem Fraction.read {fraction mark : List Char}
    (behindPoint : Fraction point fraction mark) (scale : Exponent mark exponent rest)
    (ends : EndsNumber rest) : readFraction point = some (fraction, mark) := by
  cases behindPoint with
  | present read => exact read.read (scale.head ends).1
  | absent =>
      unfold readFraction
      split
      · exact absurd rfl (scale.head ends).2
      · rfl

theorem fraction_of_readFraction
    (run : readFraction chars = some (digits, rest)) : Fraction chars digits rest := by
  unfold readFraction at run
  split at run
  · exact .present (digits_of_readDigits run)
  · cases run
    exact .absent

theorem Fraction.noDigit {fraction mark : List Char}
    (behindPoint : Fraction point fraction mark) (scale : Exponent mark exponent rest)
    (ends : EndsNumber rest) : NoDigit point := by
  cases behindPoint with
  | absent => exact (scale.head ends).1
  | present _ =>
      intro char found
      cases found
      rfl

theorem Number.read
    (number : Number notes chars value rest) (ends : EndsNumber rest) :
    parseNumber chars = some (value, rest) := by
  cases number with
  | mk sign digits behindPoint scale =>
      unfold parseNumber
      simp only [sign.read digits, digits.read (behindPoint.noDigit scale ends),
        behindPoint.read scale ends, scale.read ends, Option.bind_eq_bind, Option.bind_some]

theorem zeroNotes_paired (whole : List Char) : Note.unpairedHalf ∉ zeroNotes whole := by
  unfold zeroNotes
  split
  · split_ifs
    · decide
    · exact List.not_mem_nil
  · exact List.not_mem_nil

theorem number_of_parseNumber
    (run : parseNumber chars = some (value, rest)) :
    ∃ notes, Number notes chars value rest ∧ .unpairedHalf ∉ notes := by
  obtain ⟨⟨whole, point⟩, digits, run⟩ := Option.bind_eq_some_iff.mp run
  obtain ⟨⟨fraction, mark⟩, behindPoint, run⟩ := Option.bind_eq_some_iff.mp run
  obtain ⟨⟨exponent, after⟩, scale, run⟩ := Option.bind_eq_some_iff.mp run
  cases run
  exact ⟨zeroNotes whole, .mk (sign_of_readSign chars) (digits_of_readDigits digits)
    (fraction_of_readFraction behindPoint) (exponent_of_readExponent scale),
    zeroNotes_paired whole⟩

theorem Number.unique
    {otherValue : Decimal} (first : Number notes chars value rest) (ends : EndsNumber rest)
    (second : Number others chars otherValue other) (otherEnds : EndsNumber other) :
    notes = others ∧ value = otherValue ∧ rest = other := by
  have same := (first.read ends).symm.trans (second.read otherEnds)
  obtain ⟨sameValue, sameRest⟩ := Prod.mk.inj (Option.some.inj same)
  refine ⟨?_, sameValue, sameRest⟩
  cases first with
  | mk sign digits behindPoint scale =>
      cases second with
      | mk otherSign otherDigits otherPoint otherScale =>
          have signs := (sign.read digits).symm.trans (otherSign.read otherDigits)
          obtain ⟨-, rfl⟩ := Prod.mk.inj signs
          have wholes := (digits.read (behindPoint.noDigit scale ends)).symm.trans
            (otherDigits.read (otherPoint.noDigit otherScale otherEnds))
          rw [(Prod.mk.inj (Option.some.inj wholes)).1]

theorem Number.head
    (number : Number notes chars value rest) :
    ∃ first tail, chars = first :: tail ∧ (first = '-' ∨ isDecimalDigit first = true) := by
  cases number with
  | mk sign digits _ _ =>
      cases sign with
      | minus => exact ⟨_, _, rfl, Or.inl rfl⟩
      | absent =>
          obtain ⟨first, tail, rfl, digit⟩ := digits.head
          exact ⟨first, tail, rfl, Or.inr digit⟩

/-! ## Escapes -/

theorem parseHex4_eq (chars : List Char) : parseHex4 chars = readHex4 chars := rfl

theorem hexValue_lt {digit : Nat} (read : hexValue char = some digit) :
    digit < 16 := by
  simp only [hexValue] at read
  split_ifs at read <;> cases read <;> omega

theorem readHex4_spec
    (read : readHex4 chars = some (code, rest)) :
    code < 0x10000 ∧ rest.length < chars.length := by
  unfold readHex4 at read
  split at read
  · obtain ⟨first, firstRead, read⟩ := Option.bind_eq_some_iff.mp read
    obtain ⟨second, secondRead, read⟩ := Option.bind_eq_some_iff.mp read
    obtain ⟨third, thirdRead, read⟩ := Option.bind_eq_some_iff.mp read
    obtain ⟨fourth, fourthRead, read⟩ := Option.bind_eq_some_iff.mp read
    have firstSmall := hexValue_lt firstRead
    have secondSmall := hexValue_lt secondRead
    have thirdSmall := hexValue_lt thirdRead
    have fourthSmall := hexValue_lt fourthRead
    cases read
    refine ⟨by omega, ?_⟩
    simp only [List.length_cons]
    omega
  · cases read

theorem charFromU32_eq (small : code < 0x110000)
    (whole : ¬(IsHigh code ∨ IsLow code)) : charFromU32 code = some (Char.ofNat code) := by
  unfold IsHigh IsLow at whole
  have valid : code.isValidChar := by
    unfold Nat.isValidChar
    omega
  exact if_pos valid

theorem charFromU32_half (isHalf : IsHigh code ∨ IsLow code) :
    charFromU32 code = none := by
  unfold IsHigh IsLow at isHalf
  have notValid : ¬code.isValidChar := by
    unfold Nat.isValidChar
    omega
  exact if_neg notValid

theorem charFromU32_pair {high low : Nat} (isHigh : IsHigh high) (isLow : IsLow low) :
    charFromU32 (0x10000 + (high - 0xD800) * 1024 + (low - 0xDC00)) =
      some (Char.ofNat (0x10000 + (high - 0xD800) * 1024 + (low - 0xDC00))) := by
  unfold IsHigh at isHigh
  unfold IsLow at isLow
  refine charFromU32_eq (by omega) ?_
  unfold IsHigh IsLow
  omega

theorem parseEscape_simple {mark : Char} (known : simpleEscape mark = some char)
    (rest : List Char) : parseEscape (mark :: rest) = some (char, rest) := by
  unfold simpleEscape at known
  split at known <;> cases known <;> rfl

theorem Escape.read
    (escape : Escape notes chars char rest) (paired : .unpairedHalf ∉ notes) :
    parseEscape chars = some (char, rest) := by
  cases escape with
  | simple known => exact parseEscape_simple known rest
  | code read whole =>
      have small := (readHex4_spec read).1
      have notHigh : ¬(0xD800 ≤ _ ∧ _ ≤ 0xDBFF) := fun high => whole (Or.inl high)
      change parseUnicode _ = _
      simp only [parseUnicode, parseHex4_eq, read, Option.bind_eq_bind, Option.bind_some,
        if_neg notHigh, charFromU32_eq (by omega) whole]
  | pair first isHigh read isLow =>
      change parseUnicode _ = _
      have high : 0xD800 ≤ _ ∧ _ ≤ 0xDBFF := isHigh
      have low : 0xDC00 ≤ _ ∧ _ ≤ 0xDFFF := isLow
      simp only [parseUnicode, parseHex4_eq, first, read, Option.bind_eq_bind, Option.bind_some,
        if_pos high, if_pos low, charFromU32_pair isHigh isLow]
  | half _ _ _ => exact absurd List.mem_cons_self paired

theorem escape_of_parseUnicode
    (run : parseUnicode chars = some (char, rest)) : Escape [] ('u' :: chars) char rest := by
  obtain ⟨⟨code, after⟩, read, run⟩ := Option.bind_eq_some_iff.mp run
  simp only at run
  split_ifs at run with high
  · split at run
    · rename_i second
      obtain ⟨⟨low, behind⟩, lowRead, run⟩ := Option.bind_eq_some_iff.mp run
      simp only at run
      split_ifs at run with isLow
      simp only [charFromU32_pair high isLow, Option.bind_eq_bind, Option.bind_some,
        Option.some.injEq, Prod.mk.injEq] at run
      obtain ⟨rfl, rfl⟩ := run
      exact .pair read high lowRead isLow
    · cases run
  · by_cases isLow : IsLow code
    · rw [charFromU32_half (Or.inr isLow)] at run
      cases run
    · have small := (readHex4_spec read).1
      have whole : ¬(IsHigh code ∨ IsLow code) := not_or.mpr ⟨high, isLow⟩
      rw [charFromU32_eq (by omega) whole] at run
      cases run
      exact .code read whole

theorem escape_of_parseEscape
    (run : parseEscape chars = some (char, rest)) : Escape [] chars char rest := by
  unfold parseEscape at run
  split at run
  case h_9 => exact escape_of_parseUnicode run
  case h_10 => cases run
  all_goals
    cases run
    exact .simple rfl

theorem simpleEscape_u (char : Char) : simpleEscape 'u' ≠ some char := by
  intro known
  cases known

theorem readHex4_unique {otherCode : Nat}
    (first : readHex4 digits = some (code, rest))
    (second : readHex4 digits = some (otherCode, other)) : code = otherCode ∧ rest = other :=
  Prod.mk.inj (Option.some.inj (first.symm.trans second))

theorem Escape.unique
    {otherChar : Char} (first : Escape notes chars char rest)
    (second : Escape others chars otherChar other) :
    notes = others ∧ char = otherChar ∧ rest = other := by
  cases first with
  | simple known =>
      cases second with
      | simple otherKnown => exact ⟨rfl, Option.some.inj (known.symm.trans otherKnown), rfl⟩
      | code _ _ => exact absurd known (simpleEscape_u char)
      | pair _ _ _ _ => exact absurd known (simpleEscape_u char)
      | half _ _ _ => exact absurd known (simpleEscape_u char)
  | code read whole =>
      cases second with
      | simple otherKnown => exact absurd otherKnown (simpleEscape_u otherChar)
      | code otherRead _ =>
          obtain ⟨rfl, rfl⟩ := readHex4_unique read otherRead
          exact ⟨rfl, rfl, rfl⟩
      | pair otherFirst isHigh _ _ =>
          obtain ⟨rfl, rfl⟩ := readHex4_unique read otherFirst
          exact absurd (Or.inl isHigh) whole
      | half otherRead isHalf _ =>
          obtain ⟨rfl, rfl⟩ := readHex4_unique read otherRead
          exact absurd isHalf whole
  | pair high isHigh read isLow =>
      cases second with
      | simple otherKnown => exact absurd otherKnown (simpleEscape_u otherChar)
      | code otherRead whole =>
          obtain ⟨rfl, rfl⟩ := readHex4_unique high otherRead
          exact absurd (Or.inl isHigh) whole
      | pair otherHigh _ otherRead _ =>
          obtain ⟨rfl, same⟩ := readHex4_unique high otherHigh
          cases same
          obtain ⟨rfl, rfl⟩ := readHex4_unique read otherRead
          exact ⟨rfl, rfl, rfl⟩
      | half otherRead _ alone =>
          obtain ⟨rfl, rfl⟩ := readHex4_unique high otherRead
          exact absurd ⟨isHigh, _, _, _, rfl, read, isLow⟩ alone
  | half read isHalf alone =>
      cases second with
      | simple otherKnown => exact absurd otherKnown (simpleEscape_u otherChar)
      | code otherRead whole =>
          obtain ⟨rfl, rfl⟩ := readHex4_unique read otherRead
          exact absurd isHalf whole
      | pair otherHigh isHigh otherRead isLow =>
          obtain ⟨rfl, rfl⟩ := readHex4_unique read otherHigh
          exact absurd ⟨isHigh, _, _, _, rfl, otherRead, isLow⟩ alone
      | half otherRead _ _ =>
          obtain ⟨rfl, rfl⟩ := readHex4_unique read otherRead
          exact ⟨rfl, rfl, rfl⟩

theorem Escape.length_lt
    (escape : Escape notes chars char rest) : rest.length < chars.length := by
  cases escape with
  | simple _ => exact Nat.lt_succ_self _
  | code read _ => exact (readHex4_spec read).2.trans (Nat.lt_succ_self _)
  | pair first _ read _ =>
      have before := (readHex4_spec first).2
      have after := (readHex4_spec read).2
      simp only [List.length_cons] at before ⊢
      omega
  | half read _ _ => exact (readHex4_spec read).2.trans (Nat.lt_succ_self _)

/-! ## Strings -/

theorem controlNotes_paired (char : Char) : Note.unpairedHalf ∉ controlNotes char := by
  unfold controlNotes
  split_ifs
  · decide
  · exact List.not_mem_nil

theorem Quoted.read
    (quoted : Quoted notes chars text rest) : .unpairedHalf ∉ notes → ∀ {fuel : Nat},
      chars.length < fuel → parseString fuel chars = some (text, rest) := by
  induction quoted with
  | close =>
      intro _ fuel enough
      obtain ⟨fuel, rfl⟩ := Nat.exists_eq_add_of_lt enough
      rfl
  | plain notQuote notEscape _ ih =>
      intro paired fuel enough
      obtain ⟨fuel, rfl⟩ := Nat.exists_eq_succ_of_ne_zero (Nat.ne_zero_of_lt enough)
      have read := ih (fun member => paired (List.mem_append_right _ member))
        (Nat.lt_of_succ_lt_succ enough)
      simp only [parseString, if_neg notQuote, if_neg notEscape, read, Option.bind_eq_bind,
        Option.bind_some]
  | escaped escape _ ih =>
      intro paired fuel enough
      obtain ⟨fuel, rfl⟩ := Nat.exists_eq_succ_of_ne_zero (Nat.ne_zero_of_lt enough)
      have first := escape.read fun member => paired (List.mem_append_left _ member)
      have read := ih (fun member => paired (List.mem_append_right _ member))
        (escape.length_lt.trans (Nat.lt_of_succ_lt_succ enough))
      have notQuote : '\\' ≠ '"' := by decide
      simp only [parseString, if_neg notQuote, if_true, first, read, Option.bind_eq_bind,
        Option.bind_some]

theorem quoted_of_parseString : ∀ {fuel : Nat} {chars text rest : List Char},
    parseString fuel chars = some (text, rest) →
      ∃ notes, Quoted notes chars text rest ∧ .unpairedHalf ∉ notes := by
  intro fuel
  induction fuel with
  | zero =>
      intro chars text rest run
      cases run
  | succ fuel ih =>
      intro chars text rest run
      cases chars with
      | nil => cases run
      | cons char chars =>
          rw [parseString] at run
          split_ifs at run with isQuote isEscape
          · cases run
            cases isQuote
            exact ⟨[], .close, List.not_mem_nil⟩
          · obtain ⟨⟨escaped, after⟩, first, run⟩ := Option.bind_eq_some_iff.mp run
            obtain ⟨⟨more, behind⟩, second, run⟩ := Option.bind_eq_some_iff.mp run
            cases run
            cases isEscape
            obtain ⟨notes, quoted, paired⟩ := ih second
            exact ⟨notes, .escaped (escape_of_parseEscape first) quoted, paired⟩
          · obtain ⟨⟨more, behind⟩, second, run⟩ := Option.bind_eq_some_iff.mp run
            cases run
            obtain ⟨notes, quoted, paired⟩ := ih second
            refine ⟨_, .plain isQuote isEscape quoted, fun member => ?_⟩
            rcases List.mem_append.mp member with here | later
            · exact controlNotes_paired char here
            · exact paired later

theorem Quoted.unique
    (first : Quoted notes chars text rest) : ∀ {others : List Note} {otherText other : List Char},
      Quoted others chars otherText other →
        notes = others ∧ text = otherText ∧ rest = other := by
  induction first with
  | close =>
      intro others otherText other second
      cases second with
      | close => exact ⟨rfl, rfl, rfl⟩
      | plain notQuote _ _ => exact absurd rfl notQuote
  | plain notQuote notEscape _ ih =>
      intro others otherText other second
      cases second with
      | close => exact absurd rfl notQuote
      | plain _ _ more =>
          obtain ⟨rfl, rfl, rfl⟩ := ih more
          exact ⟨rfl, rfl, rfl⟩
      | escaped _ _ => exact absurd rfl notEscape
  | escaped escape _ ih =>
      intro others otherText other second
      cases second with
      | plain _ notEscape _ => exact absurd rfl notEscape
      | escaped otherEscape more =>
          obtain ⟨rfl, rfl, rfl⟩ := escape.unique otherEscape
          obtain ⟨rfl, rfl, rfl⟩ := ih more
          exact ⟨rfl, rfl, rfl⟩

theorem Quoted.length_lt
    (quoted : Quoted notes chars text rest) : rest.length < chars.length := by
  induction quoted with
  | close => exact Nat.lt_succ_self _
  | plain _ _ _ ih => exact ih.trans (Nat.lt_succ_self _)
  | escaped escape _ ih => exact (ih.trans escape.length_lt).trans (Nat.lt_succ_self _)

end Pantheon.Telos
