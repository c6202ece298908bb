import Mathlib
import Pantheon.Lib.OrdMap
import Pantheon.Lib.Utf8
import Pantheon.Keystone.Compress

/-!
# Binary JSON: `storage/jsonb.rs`

A JSON value is a tag, and behind it a fixed-width number or a length and a
content; objects list their keys in order.  A stored cell in this format begins
with a marker of two bytes.  The text of a value is read and written by
`serde_json`, which the model takes as a parameter.
-/

set_option autoImplicit false

namespace Pantheon.Keystone

open Pantheon.Lib

/-- A number of `serde_json`: a `u64`, a negative `i64` or a finite `f64` by its bits. -/
inductive JsonNumber where
  | posInt (value : Nat)
  | negInt (value : Int)
  | float (bits : UInt64)
deriving DecidableEq

/-- A value of `serde_json`; the entries of an object are those of a sorted map. -/
inductive Json where
  | null
  | bool (value : Bool)
  | number (value : JsonNumber)
  | string (value : String)
  | array (items : List Json)
  | object (entries : List (String × Json))

namespace JsonNumber

def asI64 : JsonNumber → Option Int
  | posInt value => if value < 2 ^ 63 then some value else none
  | negInt value => some value
  | float _ => none

/-- The float nearest to an integer from `2 ^ 63` to `2 ^ 64`, ties to even. -/
def floatOfLarge (value : Nat) : UInt64 :=
  let quotient := value / 2 ^ 11
  let remainder := value % 2 ^ 11
  let rounded :=
    if 2 ^ 10 < remainder ∨ (remainder = 2 ^ 10 ∧ quotient % 2 = 1) then quotient + 1 else quotient
  UInt64.ofNat (1086 * 2 ^ 52 + (rounded - 2 ^ 52))

/-- The float of a number that is no `i64`. -/
def asF64 : JsonNumber → UInt64
  | posInt value => floatOfLarge value
  | negInt _ => 0
  | float bits => bits

/-- `Number::from(i64)`. -/
def ofI64 (value : Int) : JsonNumber :=
  if value < 0 then negInt value else posInt value.toNat

def isFinite (bits : UInt64) : Bool := bits.toNat / 2 ^ 52 % 2 ^ 11 != 2 ^ 11 - 1

def stored (number : JsonNumber) : JsonNumber :=
  match number.asI64 with
  | some value => ofI64 value
  | none => float number.asF64

end JsonNumber

namespace Jsonb

def writeVarint (value : Nat) : Bytes := Compress.writeVarint value

def readVarint (data : Bytes) : Option (Nat × Bytes) := Compress.readVarint data

def encodeNumber (number : JsonNumber) : Bytes :=
  match number.asI64 with
  | some value => 3 :: signedBytes value
  | none => 4 :: beBytes 8 number.asF64.toNat

def encodeText (text : String) : Bytes :=
  writeVarint (utf8Bytes text).length ++ utf8Bytes text

mutual

def encodeInto : Json → Bytes
  | .null => [0]
  | .bool false => [1]
  | .bool true => [2]
  | .number number => encodeNumber number
  | .string text => 5 :: encodeText text
  | .array items => 6 :: (writeVarint items.length ++ encodeItems items)
  | .object entries =>
      7 :: (writeVarint entries.length ++
        ((encodeEntries entries).insertionSort fun left right => left.1 ≤ right.1).flatMap
          fun entry => encodeText entry.1 ++ entry.2)

def encodeItems : List Json → Bytes
  | [] => []
  | item :: items => encodeInto item ++ encodeItems items

def encodeEntries : List (String × Json) → List (String × Bytes)
  | [] => []
  | (key, value) :: entries => (key, encodeInto value) :: encodeEntries entries

end

/-- A decoder refuses what its caller then takes as it is, or it panics. -/
inductive Failure where
  | refused
  | panicked
deriving DecidableEq

def orRefused {Value : Type} : Option Value → Except Failure Value
  | some value => .ok value
  | none => .error .refused

/-- `count` values, each read from what the one before left. -/
def readEach {Value : Type} (read : Bytes → Except Failure (Value × Bytes)) :
    Nat → Bytes → Except Failure (List Value × Bytes)
  | 0, data => .ok ([], data)
  | count + 1, data => do
      let (value, data) ← read data
      let (values, data) ← readEach read count data
      .ok (value :: values, data)

/-- A length that wraps, as in a release build, ends before it starts and is refused like
one that is too long. -/
def decodeText (data : Bytes) : Option (String × Bytes) := do
  let (length, data) ← readVarint data
  let (text, data) ← splitExact length data
  some (fromUtf8Lossy text, data)

def decodeEntry (decodeValue : Bytes → Except Failure (Json × Bytes)) (data : Bytes) :
    Except Failure ((String × Json) × Bytes) := do
  let (key, data) ← orRefused (decodeText data)
  let (value, data) ← decodeValue data
  .ok ((key, value), data)

/-- The items of a vector, of 32 bytes each, have to fit an `isize`. -/
def maxItems : Nat := 2 ^ 58

def decodeAt : Nat → Bytes → Except Failure (Json × Bytes)
  | 0, _ => .error .refused
  | _ + 1, [] => .error .refused
  | fuel + 1, tag :: data =>
      match tag.toNat with
      | 0 => .ok (.null, data)
      | 1 => .ok (.bool false, data)
      | 2 => .ok (.bool true, data)
      | 3 => do
          let (word, data) ← orRefused (splitExact 8 data)
          .ok (.number (.ofI64 (ofSignedBytes word)), data)
      | 4 => do
          let (word, data) ← orRefused (splitExact 8 data)
          let bits := UInt64.ofNat (ofBe word)
          .ok (if JsonNumber.isFinite bits then .number (.float bits) else .null, data)
      | 5 => do
          let (text, data) ← orRefused (decodeText data)
          .ok (.string text, data)
      | 6 => do
          let (count, data) ← orRefused (readVarint data)
          -- `Vec::with_capacity(len)`; a smaller allocation is taken to succeed
          if maxItems ≤ count then .error .panicked
          else do
            let (items, data) ← readEach (decodeAt fuel) count data
            .ok (.array items, data)
      | 7 => do
          -- `Map::with_capacity` allocates nothing: the map is a tree
          let (count, data) ← orRefused (readVarint data)
          let (entries, data) ← readEach (decodeEntry (decodeAt fuel)) count data
          .ok (.object (entries.foldl (fun map entry =>
            OrdMap.insertList entry.1 entry.2 map) []), data)
      | _ => .error .refused

/-- Bytes behind the value are not looked at. -/
def decode (data : Bytes) : Except Failure Json :=
  (decodeAt (data.length + 1) data).map Prod.fst

end Jsonb

/-! ## Values of `serde_json` -/

namespace JsonNumber

def WellFormed : JsonNumber → Prop
  | posInt value => value < 2 ^ 64
  | negInt value => -2 ^ 63 ≤ value ∧ value < 0
  | float bits => isFinite bits = true

/-- The integer is one of an `i64`. -/
def Exact : JsonNumber → Prop
  | posInt value => value < 2 ^ 63
  | _ => True

theorem stored_eq_self_iff {number : JsonNumber} (wellFormed : number.WellFormed) :
    number.stored = number ↔ number.Exact := by
  cases number with
  | posInt value =>
      by_cases small : value < 2 ^ 63
      · have read : (posInt value).asI64 = some (value : Int) := if_pos small
        have nonneg : ¬(value : Int) < 0 := by omega
        simp only [stored, read, ofI64, if_neg nonneg, Int.toNat_natCast, Exact, small]
      · have read : (posInt value).asI64 = none := if_neg small
        simp only [stored, read, Exact, small, reduceCtorEq]
  | negInt value =>
      have negative : value < 0 := wellFormed.2
      simp [stored, asI64, ofI64, Exact, negative]
  | float bits => simp [stored, asI64, asF64, Exact]

theorem isFinite_floatOfLarge {value : Nat} (large : 2 ^ 63 ≤ value) (small : value < 2 ^ 64) :
    isFinite (floatOfLarge value) = true := by
  have rounded : ∃ mantissa, floatOfLarge value = UInt64.ofNat (1086 * 2 ^ 52 + mantissa) ∧
      mantissa ≤ 2 ^ 52 := by
    unfold floatOfLarge
    refine ⟨_, rfl, ?_⟩
    split_ifs <;> omega
  obtain ⟨mantissa, exact, bound⟩ := rounded
  have bits : (UInt64.ofNat (1086 * 2 ^ 52 + mantissa)).toNat = 1086 * 2 ^ 52 + mantissa := by
    rw [UInt64.toNat_ofNat']
    omega
  have exponent : (1086 * 2 ^ 52 + mantissa) / 2 ^ 52 % 2 ^ 11 ≠ 2 ^ 11 - 1 := by omega
  rw [exact, isFinite, bits]
  exact bne_iff_ne.mpr exponent

end JsonNumber

namespace Json

mutual

/-- Every number satisfies the predicate, the items of every array fit a vector and the keys
of every object are in order. -/
def Numbers (good : JsonNumber → Prop) : Json → Prop
  | .number value => good value
  | .array items => items.length < Jsonb.maxItems ∧ NumbersItems good items
  | .object entries =>
      entries.Pairwise (fun left right => left.1 < right.1) ∧ NumbersEntries good entries
  | _ => True

def NumbersItems (good : JsonNumber → Prop) : List Json → Prop
  | [] => True
  | item :: items => Numbers good item ∧ NumbersItems good items

def NumbersEntries (good : JsonNumber → Prop) : List (String × Json) → Prop
  | [] => True
  | (_, value) :: entries => Numbers good value ∧ NumbersEntries good entries

end

mutual

def mapNumbers (change : JsonNumber → JsonNumber) : Json → Json
  | .number value => .number (change value)
  | .array items => .array (mapItems change items)
  | .object entries => .object (mapEntries change entries)
  | value => value

def mapItems (change : JsonNumber → JsonNumber) : List Json → List Json
  | [] => []
  | item :: items => mapNumbers change item :: mapItems change items

def mapEntries (change : JsonNumber → JsonNumber) : List (String × Json) → List (String × Json)
  | [] => []
  | (key, value) :: entries => (key, mapNumbers change value) :: mapEntries change entries

end

section

variable {change : JsonNumber → JsonNumber} {good same : JsonNumber → Prop}

theorem mapEntries_keys (change : JsonNumber → JsonNumber) (entries : List (String × Json)) :
    (mapEntries change entries).map Prod.fst = entries.map Prod.fst := by
  induction entries with
  | nil => rfl
  | cons entry entries ih =>
      obtain ⟨key, value⟩ := entry
      rw [mapEntries, List.map_cons, List.map_cons, ih]

mutual

theorem mapNumbers_eq_self_iff
    (fixed : ∀ number, good number → (change number = number ↔ same number)) : ∀ value : Json, value.Numbers good →
    (value.mapNumbers change = value ↔ value.Numbers same)
  | .null, _ => by simp [mapNumbers, Numbers]
  | .bool _, _ => by simp [mapNumbers, Numbers]
  | .string _, _ => by simp [mapNumbers, Numbers]
  | .number value, kept => by
      have here := fixed value kept
      simp only [mapNumbers, Numbers, Json.number.injEq, here]
  | .array items, kept => by
      have here := mapItems_eq_self_iff fixed items kept.2
      simp only [mapNumbers, Numbers, Json.array.injEq, here, kept.1, true_and]
  | .object entries, kept => by
      have here := mapEntries_eq_self_iff fixed entries kept.2
      simp only [mapNumbers, Numbers, Json.object.injEq, here, kept.1, true_and]

theorem mapItems_eq_self_iff
    (fixed : ∀ number, good number → (change number = number ↔ same number)) : ∀ items : List Json, NumbersItems good items →
    (mapItems change items = items ↔ NumbersItems same items)
  | [], _ => by simp [mapItems, NumbersItems]
  | item :: items, kept => by
      have here := mapNumbers_eq_self_iff fixed item kept.1
      have others := mapItems_eq_self_iff fixed items kept.2
      simp only [mapItems, NumbersItems, List.cons.injEq, here, others]

theorem mapEntries_eq_self_iff
    (fixed : ∀ number, good number → (change number = number ↔ same number)) : ∀ entries : List (String × Json), NumbersEntries good entries →
    (mapEntries change entries = entries ↔ NumbersEntries same entries)
  | [], _ => by simp [mapEntries, NumbersEntries]
  | (key, value) :: entries, kept => by
      have here := mapNumbers_eq_self_iff fixed value kept.1
      have others := mapEntries_eq_self_iff fixed entries kept.2
      simp only [mapEntries, NumbersEntries, List.cons.injEq, Prod.mk.injEq, true_and, here, others]

end

end

end Json

/-! ## Reading what was written -/

namespace Jsonb

theorem readVarint_writeVarint {value : Nat} (small : value < 2 ^ 64) (rest : Bytes) :
    readVarint (writeVarint value ++ rest) = some (value, rest) :=
  Compress.readVarint_writeVarint small rest

theorem decodeText_encodeText {text : String} (small : (utf8Bytes text).length < 2 ^ 64)
    (rest : Bytes) : decodeText (encodeText text ++ rest) = some (text, rest) := by
  rw [encodeText, List.append_assoc, decodeText, readVarint_writeVarint small]
  simp only [Option.bind_eq_bind, Option.bind_some, splitExact_append, fromUtf8Lossy_utf8Bytes]

theorem encodeInto_pos (value : Json) : 0 < (encodeInto value).length := by
  cases value with
  | null => simp [encodeInto]
  | bool value => cases value <;> simp [encodeInto]
  | number value =>
      rw [encodeInto, encodeNumber]
      split <;> simp
  | string value => simp [encodeInto]
  | array items => simp [encodeInto]
  | object entries => simp [encodeInto]

theorem length_le_encodeItems (items : List Json) : items.length ≤ (encodeItems items).length := by
  induction items with
  | nil => exact Nat.zero_le _
  | cons item items ih =>
      have positive := encodeInto_pos item
      rw [encodeItems, List.length_append, List.length_cons]
      omega

/-- The bytes of the entries of an object in the order in which they stand. -/
def entryBytes (entries : List (String × Json)) : Bytes :=
  (encodeEntries entries).flatMap fun entry => encodeText entry.1 ++ entry.2

theorem entryBytes_cons (key : String) (value : Json) (entries : List (String × Json)) :
    entryBytes ((key, value) :: entries) =
      encodeText key ++ (encodeInto value ++ entryBytes entries) := by
  rw [entryBytes, encodeEntries, List.flatMap_cons, List.append_assoc]
  rfl

theorem length_le_entryBytes (entries : List (String × Json)) :
    entries.length ≤ (entryBytes entries).length := by
  induction entries with
  | nil => exact Nat.zero_le _
  | cons entry entries ih =>
      obtain ⟨key, value⟩ := entry
      have positive := encodeInto_pos value
      rw [entryBytes_cons, List.length_append, List.length_append, List.length_cons]
      omega

theorem encodeEntries_keys (entries : List (String × Json)) :
    (encodeEntries entries).map Prod.fst = entries.map Prod.fst := by
  induction entries with
  | nil => rfl
  | cons entry entries ih =>
      obtain ⟨key, value⟩ := entry
      rw [encodeEntries, List.map_cons, List.map_cons, ih]

theorem encodeInto_object {entries : List (String × Json)}
    (sorted : entries.Pairwise fun left right => left.1 < right.1) :
    encodeInto (.object entries) =
      7 :: (writeVarint entries.length ++ entryBytes entries) := by
  have keys : ((encodeEntries entries).map Prod.fst).Pairwise (· < ·) := by
    rw [encodeEntries_keys]
    exact List.pairwise_map.mpr sorted
  have ordered : (encodeEntries entries).Pairwise fun left right => left.1 ≤ right.1 :=
    (List.pairwise_map.mp keys).imp fun less => le_of_lt less
  rw [encodeInto, List.Pairwise.insertionSort_eq ordered]
  rfl

theorem insertList_last {Value : Type} (key : String) (value : Value) :
    ∀ entries : List (String × Value), (∀ entry ∈ entries, entry.1 < key) →
      OrdMap.insertList key value entries = entries ++ [(key, value)] := by
  intro entries
  induction entries with
  | nil => intro _; rfl
  | cons entry entries ih =>
      intro below
      have first := below entry (List.mem_cons_self ..)
      rw [OrdMap.insertList, if_neg (not_lt.mpr (le_of_lt first)), if_neg (ne_of_gt first),
        ih fun other member => below other (List.mem_cons_of_mem _ member)]
      rfl

theorem foldl_insertList {Value : Type} : ∀ entries before : List (String × Value),
    (before ++ entries).Pairwise (fun left right => left.1 < right.1) →
    entries.foldl (fun map entry => OrdMap.insertList entry.1 entry.2 map) before =
      before ++ entries := by
  intro entries
  induction entries with
  | nil => intro before _; exact (List.append_nil before).symm
  | cons entry entries ih =>
      intro before sorted
      have below : ∀ other ∈ before, other.1 < entry.1 := fun other member =>
        (List.pairwise_append.mp sorted).2.2 other member entry (List.mem_cons_self ..)
      have appended : before ++ entry :: entries = (before ++ [entry]) ++ entries := by simp
      rw [List.foldl_cons, insertList_last _ _ before below, appended]
      exact ih _ (appended ▸ sorted)

/-! ## Values -/

theorem decodeAt_encodeNumber {number : JsonNumber} (wellFormed : number.WellFormed) (fuel : Nat)
    (rest : Bytes) :
    decodeAt (fuel + 1) (encodeNumber number ++ rest) = .ok (.number number.stored, rest) := by
  have word : ∀ value : Int, splitExact 8 (signedBytes value ++ rest) =
      some (signedBytes value, rest) := by
    intro value
    have split := splitExact_append (signedBytes value) rest
    rwa [signedBytes_length] at split
  have exact : ∀ bits : UInt64, UInt64.ofNat (ofBe (beBytes 8 bits.toNat)) = bits := by
    intro bits
    rw [ofBe_beBytes_of_lt 8 _ (by have := bits.toNat_lt; omega), UInt64.ofNat_toNat]
  cases integer : number.asI64 with
  | some value =>
      have range : IsSigned64 value := by
        cases number with
        | posInt _ =>
            simp only [JsonNumber.asI64, Option.ite_none_right_eq_some, Option.some.injEq] at integer
            constructor <;> omega
        | negInt _ =>
            obtain ⟨lower, upper⟩ := wellFormed
            cases integer
            constructor <;> omega
        | float _ => cases integer
      simp only [encodeNumber, integer, List.cons_append, decodeAt, word, orRefused, bind,
        Except.bind, ofSignedBytes_signedBytes range, JsonNumber.stored]
      rfl
  | none =>
      have finite : JsonNumber.isFinite number.asF64 = true := by
        cases number with
        | posInt value =>
            have large : 2 ^ 63 ≤ value := by
              by_contra below
              rw [JsonNumber.asI64, if_pos (by omega)] at integer
              cases integer
            exact JsonNumber.isFinite_floatOfLarge large wellFormed
        | negInt _ => cases integer
        | float bits => exact wellFormed
      simp only [encodeNumber, integer, List.cons_append, decodeAt, splitExact_beBytes, orRefused,
        bind, Except.bind, exact, finite, JsonNumber.stored]
      simp

theorem length_encodeText (text : String) :
    (utf8Bytes text).length ≤ (encodeText text).length := by
  rw [encodeText, List.length_append]
  omega

mutual

theorem decodeAt_encodeInto : ∀ (value : Json) (fuel : Nat) (rest : Bytes),
    value.Numbers JsonNumber.WellFormed →
    (encodeInto value).length < 2 ^ 64 → (encodeInto value).length < fuel →
    decodeAt fuel (encodeInto value ++ rest) = .ok (value.mapNumbers JsonNumber.stored, rest)
  | value, 0, rest, _, _, enough => (Nat.not_lt_zero _ enough).elim
  | .null, fuel + 1, rest, _, _, _ => rfl
  | .bool false, fuel + 1, rest, _, _, _ => rfl
  | .bool true, fuel + 1, rest, _, _, _ => rfl
  | .number number, fuel + 1, rest, wellFormed, _, _ => by
      rw [encodeInto]
      exact decodeAt_encodeNumber wellFormed fuel rest
  | .string text, fuel + 1, rest, _, small, _ => by
      rw [encodeInto] at small
      have inside := length_encodeText text
      rw [List.length_cons] at small
      rw [encodeInto, List.cons_append]
      simp only [decodeAt, decodeText_encodeText (lt_of_le_of_lt inside (by omega)),
        orRefused, bind, Except.bind]
      rfl
  | .array items, fuel + 1, rest, wellFormed, small, enough => by
      have count := length_le_encodeItems items
      rw [encodeInto, List.length_cons, List.length_append] at small enough
      have read := decodeItems items fuel rest wellFormed.2 (by omega) (by omega)
      rw [encodeInto, List.cons_append, List.append_assoc]
      simp only [decodeAt, readVarint_writeVarint (lt_of_le_of_lt count (by omega)), read,
        orRefused, bind, Except.bind, if_neg (not_le.mpr wellFormed.1)]
      rfl
  | .object entries, fuel + 1, rest, wellFormed, small, enough => by
      obtain ⟨sorted, others⟩ := wellFormed
      have count := length_le_entryBytes entries
      rw [encodeInto_object sorted, List.length_cons, List.length_append] at small enough
      have read := decodeEntries entries fuel rest others (by omega) (by omega)
      have keys : ((Json.mapEntries JsonNumber.stored entries).map Prod.fst).Pairwise (· < ·) := by
        rw [Json.mapEntries_keys]
        exact List.pairwise_map.mpr sorted
      have rebuilt := foldl_insertList (Json.mapEntries JsonNumber.stored entries) []
        (List.pairwise_map.mp keys)
      rw [List.nil_append] at rebuilt
      rw [encodeInto_object sorted, List.cons_append, List.append_assoc]
      simp only [decodeAt, readVarint_writeVarint (lt_of_le_of_lt count (by omega)), read,
        orRefused, bind, Except.bind, rebuilt]
      rfl

theorem decodeItems : ∀ (items : List Json) (fuel : Nat) (rest : Bytes),
    Json.NumbersItems JsonNumber.WellFormed items → (encodeItems items).length < 2 ^ 64 →
    (encodeItems items).length < fuel →
    readEach (decodeAt fuel) items.length (encodeItems items ++ rest) =
      .ok (Json.mapItems JsonNumber.stored items, rest)
  | [], fuel, rest, _, _, _ => rfl
  | item :: items, fuel, rest, wellFormed, small, enough => by
      obtain ⟨first, others⟩ := wellFormed
      rw [encodeItems, List.length_append] at small enough
      have here := decodeAt_encodeInto item fuel (encodeItems items ++ rest) first (by omega)
        (by omega)
      have after := decodeItems items fuel rest others (by omega) (by omega)
      rw [encodeItems, List.append_assoc, List.length_cons, readEach, here]
      simp only [bind, Except.bind, after, Json.mapItems]

theorem decodeEntries : ∀ (entries : List (String × Json)) (fuel : Nat) (rest : Bytes),
    Json.NumbersEntries JsonNumber.WellFormed entries → (entryBytes entries).length < 2 ^ 64 →
    (entryBytes entries).length < fuel →
    readEach (decodeEntry (decodeAt fuel)) entries.length (entryBytes entries ++ rest) =
      .ok (Json.mapEntries JsonNumber.stored entries, rest)
  | [], fuel, rest, _, _, _ => rfl
  | (key, value) :: entries, fuel, rest, wellFormed, small, enough => by
      obtain ⟨first, others⟩ := wellFormed
      rw [entryBytes_cons, List.length_append, List.length_append] at small enough
      have inside := length_encodeText key
      have here := decodeAt_encodeInto value fuel (entryBytes entries ++ rest) first (by omega)
        (by omega)
      have after := decodeEntries entries fuel rest others (by omega) (by omega)
      rw [entryBytes_cons, List.append_assoc, List.append_assoc, List.length_cons, readEach,
        decodeEntry, decodeText_encodeText (lt_of_le_of_lt inside (by omega))]
      simp only [orRefused, bind, Except.bind, here, after, Json.mapEntries]

end

theorem decode_stored {value : Json} (wellFormed : value.Numbers JsonNumber.WellFormed)
    (small : (encodeInto value).length < 2 ^ 64) :
    decode (encodeInto value) = .ok (value.mapNumbers JsonNumber.stored) := by
  have read := decodeAt_encodeInto value ((encodeInto value).length + 1) [] wellFormed small
    (Nat.lt_succ_self _)
  rw [List.append_nil] at read
  rw [decode, read]
  rfl

theorem decode_encodeInto {value : Json} (wellFormed : value.Numbers JsonNumber.WellFormed)
    (exact_ : value.Numbers JsonNumber.Exact) (small : (encodeInto value).length < 2 ^ 64) :
    decode (encodeInto value) = .ok value := by
  have same := Json.mapNumbers_eq_self_iff (fun _ => JsonNumber.stored_eq_self_iff) value wellFormed
  rw [decode_stored wellFormed small, same.mpr exact_]

/-- A value comes back exactly where every integer in it is an `i64`. -/
theorem decode_encode_iff {value : Json} (wellFormed : value.Numbers JsonNumber.WellFormed)
    (small : (encodeInto value).length < 2 ^ 64) :
    decode (encodeInto value) = .ok value ↔ value.Numbers JsonNumber.Exact := by
  rw [decode_stored wellFormed small, Except.ok.injEq]
  exact Json.mapNumbers_eq_self_iff (fun _ => JsonNumber.stored_eq_self_iff) value wellFormed

theorem decode_encode_nested :
    decode (encodeInto (.array [.object [("a", .number (.negInt (-2 ^ 63)))],
      .number (.posInt (2 ^ 63 - 1)), .number (.float 0x3FF8000000000000)])) =
      .ok (.array [.object [("a", .number (.negInt (-2 ^ 63)))],
        .number (.posInt (2 ^ 63 - 1)), .number (.float 0x3FF8000000000000)]) := by
  refine (decode_encode_iff ?_ ?_).mpr ?_
  · simp [Json.Numbers, Json.NumbersItems, Json.NumbersEntries, JsonNumber.WellFormed,
      JsonNumber.isFinite, maxItems]
  · decide +kernel
  · simp [Json.Numbers, Json.NumbersItems, Json.NumbersEntries, JsonNumber.Exact, maxItems]

/-- The largest `u64` comes back as a float. -/
theorem largest_u64_changes :
    decode (encodeInto (.number (.posInt (2 ^ 64 - 1)))) ≠ .ok (.number (.posInt (2 ^ 64 - 1))) := by
  intro kept
  have wellFormed : (Json.number (.posInt (2 ^ 64 - 1))).Numbers JsonNumber.WellFormed :=
    show (2 ^ 64 - 1 : Nat) < 2 ^ 64 by decide
  have exact_ := (decode_encode_iff wellFormed (by decide)).mp kept
  exact absurd exact_ (show ¬(2 ^ 64 - 1 : Nat) < 2 ^ 63 by decide)

end Jsonb

/-! ## Cells -/

/-- `serde_json::from_slice` and `serde_json::to_vec`. -/
structure Serde where
  fromSlice : Bytes → Option Json
  toVec : Json → Bytes
  wellFormed : ∀ text value, fromSlice text = some value → value.Numbers JsonNumber.WellFormed

namespace Jsonb

variable (serde : Serde)

def cellMarker : Bytes := [0, 1]

def isBinaryCell (bytes : Bytes) : Bool := cellMarker.isPrefixOf bytes

/-- A text that is no JSON is stored as it is. -/
def encodeCell (text : Bytes) : Bytes :=
  match serde.fromSlice text with
  | some value => cellMarker ++ encodeInto value
  | none => text

/-- The answer for a cell that is to be taken as it is is `some none`; without an answer the
decoder panicked. -/
def decodeCell (bytes : Bytes) : Option (Option Bytes) :=
  if isBinaryCell bytes then
    match decode (bytes.drop cellMarker.length) with
    | .ok value => some (some (serde.toVec value))
    | .error .refused => some none
    | .error .panicked => none
  else some none

theorem decodeCell_encodeCell {text : Bytes} {value : Json}
    (parsed : serde.fromSlice text = some value) (exact_ : value.Numbers JsonNumber.Exact)
    (small : (encodeCell serde text).length < 2 ^ 64) :
    decodeCell serde (encodeCell serde text) = some (some (serde.toVec value)) := by
  have stored : encodeCell serde text = cellMarker ++ encodeInto value := by
    simp only [encodeCell, parsed]
  have marked : isBinaryCell (cellMarker ++ encodeInto value) = true := by
    simp [isBinaryCell]
  have wellFormed := serde.wellFormed text value parsed
  rw [stored, List.length_append] at small
  rw [stored, decodeCell, if_pos marked, List.drop_left,
    decode_encodeInto wellFormed exact_ (by omega)]

theorem decodeCell_of_unmarked {bytes : Bytes} (unmarked : isBinaryCell bytes = false) :
    decodeCell serde bytes = some none := by
  rw [decodeCell, unmarked]
  rfl

end Jsonb

end Pantheon.Keystone
