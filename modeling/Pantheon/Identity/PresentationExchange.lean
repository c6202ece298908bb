import Mathlib
import Pantheon.Lib.DoubleText
import Pantheon.Lib.Json
import Pantheon.Lib.Lines
import Pantheon.Lib.OrdMap

/-!
# Presentation exchange: `pkg/pe/submission.go`

A string is its bytes, and a value that Go has as `any` is a tree of JSON with `nil` as `null`.
A filter that gives an enum is done at its first match, and a path of a descriptor that names
no index stands for the first credential.
-/

set_option autoImplicit false

namespace Pantheon.Identity.Pe

open Pantheon.Lib

/-- What is not given is empty or `null`. -/
structure Filter where
  pattern : Bytes
  const : Json
  enum : List Json

structure Field where
  path : List Bytes
  filter : Option Filter
  optional : Bool

structure Constraints where
  fields : List Field

structure InputDescriptor where
  id : Bytes
  constraints : Option Constraints

structure PresentationDefinition where
  id : Bytes
  inputDescriptors : List InputDescriptor

structure Descriptor where
  id : Bytes
  path : Bytes

structure PresentationSubmission where
  definitionId : Bytes
  descriptorMap : List Descriptor

structure CredentialSubject where
  id : Bytes
  claims : OrdMap Bytes Bytes

structure VerifiableCredential where
  credentialSubject : CredentialSubject

/-- The length of a slice is an `int`. -/
structure VerifiablePresentation where
  verifiableCredential : List VerifiableCredential
  counted : verifiableCredential.length < 2 ^ 63

/-! ## Filters -/

def isNil : Json → Bool
  | .null => true
  | _ => false

def jsonEqual (left right : Json) : Bool := left.render == right.render

def inCutset (byte : UInt8) : Bool :=
  decide (byte = '^'.toUInt8 ∨ byte = '$'.toUInt8 ∨ byte = '.'.toUInt8 ∨ byte = '*'.toUInt8)

def matchesPattern (pattern text : Bytes) : Bool :=
  if pattern.head? = some '^'.toUInt8 ∧ pattern.getLast? = some '$'.toUInt8 then
    decide (text = (pattern.take (pattern.length - 1)).drop 1)
  else decide (((pattern.dropWhile inCutset).rdropWhile inCutset) <:+: text)

inductive FilterFault where
  | const
  | enum
  | notString
  | pattern (pattern : Bytes)
deriving DecidableEq

def checkConst (filter : Filter) (value : Json) : Bool :=
  isNil filter.const || jsonEqual value filter.const

def checkEnum (filter : Filter) (value : Json) : Bool := filter.enum.any (jsonEqual value)

def checkPattern (filter : Filter) : Json → Option FilterFault
  | .string text =>
      if matchesPattern filter.pattern text then none else some (.pattern filter.pattern)
  | _ => some .notString

/-- A match in the enum returns, with no look at the pattern. -/
def applyFilter (filter : Filter) (value : Json) : Option FilterFault :=
  if !checkConst filter value then some .const
  else if filter.enum ≠ [] then
    if checkEnum filter value then none else some .enum
  else if filter.pattern ≠ [] then checkPattern filter value
  else none

/-! ## Paths -/

/-- The subject as `json.Unmarshal` gives it back. -/
def subjectMap (subject : CredentialSubject) : OrdMap Bytes Json :=
  let claims := subject.claims.toList.foldl
    (fun (map : OrdMap Bytes Json) (name, value) =>
      map.insert (coerce name) (.string (coerce value)))
    OrdMap.empty
  let map := OrdMap.empty.insert (utf8Bytes "id") (.string (coerce subject.id))
  if subject.claims.toList = [] then map
  else map.insert (utf8Bytes "claims") (.object claims.toList)

def trimPrefix (front text : Bytes) : Bytes :=
  if front.isPrefixOf text then text.drop front.length else text

def member (members : List (Bytes × Json)) (part : Bytes) : Json :=
  match members.find? fun entry => entry.1 = part with
  | some entry => entry.2
  | none => .null

def resolveParts : List Bytes → Json → Json
  | [], current => current
  | part :: parts, current =>
      if part = [] then resolveParts parts current
      else
        match current with
        | .object members => resolveParts parts (member members part)
        | _ => .null

def resolveJSONPath (subject : OrdMap Bytes Json) (path : Bytes) : Json :=
  let path := trimPrefix (utf8Bytes "$") (trimPrefix (utf8Bytes "$.") path)
  resolveParts (path.splitOn '.'.toUInt8) (.object subject.toList)

def pathFits (subject : OrdMap Bytes Json) (field : Field) (jsonPath : Bytes) : Bool :=
  let value := resolveJSONPath subject jsonPath
  !isNil value &&
    match field.filter with
    | some filter => (applyFilter filter value).isNone
    | none => true

/-- The paths of the first field that is not found. -/
def checkConstraints (constraints : Constraints) (credential : VerifiableCredential) :
    Option (List Bytes) :=
  let subject := subjectMap credential.credentialSubject
  (constraints.fields.find? fun field =>
    !field.optional && !field.path.any (pathFits subject field)).map Field.path

/-! ## Indices -/

def lastIndex (byte : UInt8) : Bytes → Option Nat
  | [] => none
  | first :: rest =>
      match lastIndex byte rest with
      | some index => some (index + 1)
      | none => if first = byte then some 0 else none

def isScanSpace (code : Nat) : Bool :=
  decide (code = 9 ∨ (11 ≤ code ∧ code ≤ 13) ∨ code = 32 ∨ code = 0x85 ∨ code = 0xA0 ∨
    code = 0x1680 ∨ (0x2000 ≤ code ∧ code ≤ 0x200A) ∨ code = 0x2028 ∨ code = 0x2029 ∨
    code = 0x202F ∨ code = 0x205F ∨ code = 0x3000)

def isSpaceRune : Option Char → Bool
  | some char => isScanSpace char.toNat
  | none => false

def digitRunes (text : List (Option Char)) : List Char :=
  (text.map fun rune => rune.getD ' ').takeWhile Char.isDigit

/-- `fmt.Sscanf(text, "%d", &idx)` for an `idx` of zero, which an error leaves as it is. -/
def sscanfIndex (text : Bytes) : Int :=
  let (sign, text) := match (runes text).dropWhile isSpaceRune with
    | some '-' :: rest => ((-1 : Int), rest)
    | some '+' :: rest => (1, rest)
    | rest => (1, rest)
  let index := sign * Doubles.digitsValue (digitRunes text)
  if -2 ^ 63 ≤ index ∧ index < 2 ^ 63 then index else 0

def extractArrayIndex (path : Bytes) : Int :=
  match lastIndex '['.toUInt8 path, lastIndex ']'.toUInt8 path with
  | some left, some right =>
      if right ≤ left then 0 else sscanfIndex ((path.take right).drop (left + 1))
  | _, _ => 0

inductive Fault where
  | missing (descriptor : Bytes)
  | outOfRange (descriptor path : Bytes) (index : Int) (count : Nat)
  | constraint (descriptor : Bytes) (paths : List Bytes)

def resolveCredential (credentials : List VerifiableCredential) (path : Bytes) :
    Option VerifiableCredential :=
  let index := extractArrayIndex path
  if index < 0 then none else credentials[index.toNat]?

/-! ## Evaluation -/

/-- The last entry of a descriptor counts. -/
def PresentationSubmission.descMap (submission : PresentationSubmission) (id : Bytes) :
    Option Bytes :=
  submission.descriptorMap.foldl
    (fun found entry => if entry.id = id then some entry.path else found) none

structure EvaluationResult where
  satisfied : Bool
  errors : List Fault
  matchedCredentials : AList fun _ : Bytes => VerifiableCredential

def evaluateDescriptor (submission : PresentationSubmission)
    (credentials : List VerifiableCredential) (inputDesc : InputDescriptor) :
    Except Fault VerifiableCredential :=
  match submission.descMap inputDesc.id with
  | none => .error (.missing inputDesc.id)
  | some path =>
      match resolveCredential credentials path with
      | none => .error (.outOfRange inputDesc.id path (extractArrayIndex path) credentials.length)
      | some credential =>
          match inputDesc.constraints.bind (checkConstraints · credential) with
          | some paths => .error (.constraint inputDesc.id paths)
          | none => .ok credential

def evaluateNext (submission : PresentationSubmission) (credentials : List VerifiableCredential)
    (result : EvaluationResult) (inputDesc : InputDescriptor) : EvaluationResult :=
  match evaluateDescriptor submission credentials inputDesc with
  | .error fault => { result with errors := result.errors ++ [fault] }
  | .ok credential =>
      { result with matchedCredentials := result.matchedCredentials.insert inputDesc.id credential }

def evaluate (definition : PresentationDefinition) (submission : PresentationSubmission)
    (vp : VerifiablePresentation) : Except (Bytes × Bytes) EvaluationResult :=
  if submission.definitionId ≠ definition.id then .error (submission.definitionId, definition.id)
  else
    let result := definition.inputDescriptors.foldl
      (evaluateNext submission vp.verifiableCredential) ⟨false, [], ∅⟩
    .ok { result with
      satisfied := result.errors.isEmpty &&
        result.matchedCredentials.keys.length == definition.inputDescriptors.length }

def Satisfied (definition : PresentationDefinition) (submission : PresentationSubmission)
    (vp : VerifiablePresentation) : Prop :=
  ∃ result, evaluate definition submission vp = .ok result ∧ result.satisfied = true

/-! ## What is wanted of a presentation -/

/-- The value meets every part of the filter that is given. -/
structure Meets (filter : Filter) (value : Json) : Prop where
  const : isNil filter.const = false → jsonEqual value filter.const = true
  enum : filter.enum ≠ [] → ∃ entry ∈ filter.enum, jsonEqual value entry = true
  pattern : filter.pattern ≠ [] →
    ∃ text, value = .string text ∧ matchesPattern filter.pattern text = true

def FieldMet (subject : OrdMap Bytes Json) (field : Field) : Prop :=
  ∃ jsonPath ∈ field.path, isNil (resolveJSONPath subject jsonPath) = false ∧
    ∀ filter, field.filter = some filter → Meets filter (resolveJSONPath subject jsonPath)

/-- `$.verifiableCredential[2]` names the index `2`. -/
def Names (path : Bytes) (index : Nat) : Prop :=
  ∃ digits : List Char, digits ≠ [] ∧ (∀ digit ∈ digits, digit.isDigit = true) ∧
    Doubles.digitsValue digits = index ∧
    path = utf8Bytes "$.verifiableCredential" ++
      '['.toUInt8 :: (ofChars digits ++ [']'.toUInt8])

def DescriptorMet (submission : PresentationSubmission) (vp : VerifiablePresentation)
    (inputDesc : InputDescriptor) : Prop :=
  ∃ path index credential, submission.descMap inputDesc.id = some path ∧ Names path index ∧
    vp.verifiableCredential[index]? = some credential ∧
    ∀ constraints, inputDesc.constraints = some constraints →
      ∀ field ∈ constraints.fields, field.optional = false →
        FieldMet (subjectMap credential.credentialSubject) field

def Sound (definition : PresentationDefinition) (submission : PresentationSubmission)
    (vp : VerifiablePresentation) : Prop :=
  ∀ inputDesc ∈ definition.inputDescriptors, DescriptorMet submission vp inputDesc

/-! ## Filters, field by field -/

theorem applyFilter_eq_none (filter : Filter) (value : Json) : applyFilter filter value = none ↔
    checkConst filter value = true ∧ (filter.enum ≠ [] → checkEnum filter value = true) ∧
      (filter.enum = [] → filter.pattern ≠ [] → checkPattern filter value = none) := by
  unfold applyFilter
  cases checkConst filter value with
  | false => simp
  | true =>
      by_cases enumGiven : filter.enum = []
      · by_cases patternGiven : filter.pattern = [] <;> simp [enumGiven, patternGiven]
      · cases checkEnum filter value <;> simp [enumGiven]

theorem checkPattern_eq_none (filter : Filter) (value : Json) :
    checkPattern filter value = none ↔
      ∃ text, value = .string text ∧ matchesPattern filter.pattern text = true := by
  cases value <;> simp [checkPattern]

theorem meets_iff (filter : Filter) (value : Json) : Meets filter value ↔
    applyFilter filter value = none ∧
      (filter.enum ≠ [] → filter.pattern ≠ [] → checkPattern filter value = none) := by
  have constMet : checkConst filter value = true ↔
      (isNil filter.const = false → jsonEqual value filter.const = true) := by
    unfold checkConst
    cases isNil filter.const <;> simp
  have enumMet : checkEnum filter value = true ↔
      ∃ entry ∈ filter.enum, jsonEqual value entry = true := by
    simp [checkEnum]
  rw [applyFilter_eq_none, constMet, enumMet, checkPattern_eq_none]
  constructor
  · exact fun met => ⟨⟨met.const, met.enum, fun _ => met.pattern⟩, fun _ => met.pattern⟩
  · rintro ⟨⟨const, enum, alone⟩, both⟩
    refine ⟨const, enum, fun given => ?_⟩
    by_cases enumGiven : filter.enum = []
    · exact alone enumGiven given
    · exact both enumGiven given

/-- Where both an enum and a pattern are given, a path that fits has a value of the pattern. -/
def PatternChecked (subject : OrdMap Bytes Json) (field : Field) : Prop :=
  ∀ filter, field.filter = some filter → filter.enum ≠ [] → filter.pattern ≠ [] →
    ∃ jsonPath ∈ field.path, pathFits subject field jsonPath = true ∧
      checkPattern filter (resolveJSONPath subject jsonPath) = none

theorem pathFits_iff (subject : OrdMap Bytes Json) (field : Field) (jsonPath : Bytes) :
    pathFits subject field jsonPath = true ↔
      isNil (resolveJSONPath subject jsonPath) = false ∧ ∀ filter, field.filter = some filter →
        applyFilter filter (resolveJSONPath subject jsonPath) = none := by
  unfold pathFits
  cases field.filter <;> simp

theorem fieldMet_iff {subject : OrdMap Bytes Json} {field : Field}
    (found : field.path.any (pathFits subject field) = true) :
    FieldMet subject field ↔ PatternChecked subject field := by
  constructor
  · rintro ⟨jsonPath, listed, present, met⟩ filter given enumGiven patternGiven
    have parts := fun other same => (meets_iff other _).mp (met other same)
    exact ⟨jsonPath, listed,
      (pathFits_iff subject field jsonPath).mpr ⟨present, fun other same => (parts other same).1⟩,
      (parts filter given).2 enumGiven patternGiven⟩
  · intro checked
    by_cases both : ∃ filter, field.filter = some filter ∧ filter.enum ≠ [] ∧ filter.pattern ≠ []
    · obtain ⟨filter, given, enumGiven, patternGiven⟩ := both
      obtain ⟨jsonPath, listed, fits, ofPattern⟩ := checked filter given enumGiven patternGiven
      obtain ⟨present, applied⟩ := (pathFits_iff subject field jsonPath).mp fits
      refine ⟨jsonPath, listed, present, fun other same => (meets_iff other _).mpr ?_⟩
      obtain rfl := Option.some.inj (given.symm.trans same)
      exact ⟨applied filter given, fun _ _ => ofPattern⟩
    · obtain ⟨jsonPath, listed, fits⟩ := List.any_eq_true.mp found
      obtain ⟨present, applied⟩ := (pathFits_iff subject field jsonPath).mp fits
      refine ⟨jsonPath, listed, present, fun other same => (meets_iff other _).mpr ?_⟩
      exact ⟨applied other same, fun enumGiven patternGiven =>
        absurd ⟨other, same, enumGiven, patternGiven⟩ both⟩

/-! ## Indices of paths -/

theorem lastIndex_absent {byte : UInt8} : ∀ {bytes : Bytes}, byte ∉ bytes →
    lastIndex byte bytes = none := by
  intro bytes
  induction bytes with
  | nil => exact fun _ => rfl
  | cons first rest hyp =>
      intro absent
      obtain ⟨other, later⟩ := not_or.mp (fun held => absent (List.mem_cons.mpr held))
      rw [lastIndex, hyp later]
      exact if_neg fun same => other same.symm

theorem lastIndex_append {byte : UInt8} (front : Bytes) {back : Bytes} (absent : byte ∉ back) :
    lastIndex byte (front ++ byte :: back) = some front.length := by
  induction front with
  | nil =>
      rw [List.nil_append, lastIndex, lastIndex_absent absent]
      exact if_pos rfl
  | cons first front hyp => rw [List.cons_append, lastIndex, hyp, List.length_cons]

theorem isDigit_code {digit : Char} (isDigit : digit.isDigit = true) :
    48 ≤ digit.toNat ∧ digit.toNat ≤ 57 := by
  unfold Char.isDigit at isDigit
  simp only [Bool.and_eq_true, decide_eq_true_eq, ge_iff_le, UInt32.le_iff_toNat_le] at isDigit
  exact isDigit

theorem mem_ofChars_digits {digits : List Char}
    (areDigits : ∀ digit ∈ digits, digit.isDigit = true) :
    ∀ byte ∈ ofChars digits, 48 ≤ byte.toNat ∧ byte.toNat ≤ 57 := by
  intro byte written
  rw [ofChars, utf8Bytes_ofList, List.mem_flatMap] at written
  obtain ⟨digit, listed, written⟩ := written
  have code := isDigit_code (areDigits digit listed)
  rw [utf8EncodeChar_ascii (by omega), List.mem_singleton] at written
  rw [written, UInt8.toNat_ofNat', Nat.mod_eq_of_lt (by omega)]
  exact code

theorem digitRunes_digits {digits : List Char}
    (areDigits : ∀ digit ∈ digits, digit.isDigit = true) :
    digitRunes (digits.map some) = digits := by
  have same : (digits.map some).map (fun rune => rune.getD ' ') = digits := by
    rw [List.map_map]
    exact List.map_id digits
  rw [digitRunes, same]
  exact List.takeWhile_eq_self_iff.mpr areDigits

theorem digits_no_space {digits : List Char}
    (areDigits : ∀ digit ∈ digits, digit.isDigit = true) :
    (digits.map some).dropWhile isSpaceRune = digits.map some := by
  cases digits with
  | nil => rfl
  | cons first rest =>
      have code := isDigit_code (areDigits first List.mem_cons_self)
      have noSpace : isSpaceRune (some first) = false := by
        refine decide_eq_false ?_
        omega
      rw [List.map_cons, List.dropWhile_cons_of_neg (by rw [noSpace]; decide)]

theorem sscanfIndex_digits {digits : List Char}
    (areDigits : ∀ digit ∈ digits, digit.isDigit = true)
    (small : Doubles.digitsValue digits < 2 ^ 63) :
    sscanfIndex (ofChars digits) = Doubles.digitsValue digits := by
  have noSign : ∀ sign : Char, sign.isDigit = false → ∀ rest,
      digits.map some ≠ some sign :: rest := by
    intro sign notDigit rest signed
    have written : some sign ∈ digits.map some := signed ▸ List.mem_cons_self
    obtain ⟨digit, listed, same⟩ := List.mem_map.mp written
    obtain rfl := Option.some.inj same
    rw [areDigits digit listed] at notDigit
    cases notDigit
  unfold sscanfIndex
  rw [runes_ofChars, digits_no_space areDigits]
  split
  rename_i sign text scanned
  split at scanned
  · exact absurd (by assumption) (noSign '-' rfl _)
  · exact absurd (by assumption) (noSign '+' rfl _)
  · obtain ⟨rfl, rfl⟩ := Prod.mk.inj scanned
    rw [digitRunes_digits areDigits, one_mul]
    exact if_pos (by omega)

theorem extractArrayIndex_named {path : Bytes} {index : Nat} (named : Names path index)
    (small : index < 2 ^ 63) : extractArrayIndex path = index := by
  obtain ⟨digits, some_digit, areDigits, rfl, rfl⟩ := named
  have codes := mem_ofChars_digits areDigits
  generalize utf8Bytes "$.verifiableCredential" = front
  have left : lastIndex '['.toUInt8 (front ++ '['.toUInt8 :: (ofChars digits ++ [']'.toUInt8])) =
      some front.length := by
    refine lastIndex_append front fun written => ?_
    rcases List.mem_append.mp written with held | held
    · exact absurd (codes _ held).2 (by decide)
    · exact absurd (List.mem_singleton.mp held) (by decide)
  have shape : front ++ '['.toUInt8 :: (ofChars digits ++ [']'.toUInt8]) =
      (front ++ '['.toUInt8 :: ofChars digits) ++ ']'.toUInt8 :: [] := by
    rw [List.append_assoc, List.cons_append]
  have right : lastIndex ']'.toUInt8 (front ++ '['.toUInt8 :: (ofChars digits ++ [']'.toUInt8])) =
      some (front ++ '['.toUInt8 :: ofChars digits).length := by
    rw [shape]
    exact lastIndex_append _ List.not_mem_nil
  have between : ((front ++ '['.toUInt8 :: (ofChars digits ++ [']'.toUInt8])).take
      (front ++ '['.toUInt8 :: ofChars digits).length).drop (front.length + 1) =
        ofChars digits := by
    rw [shape, List.take_left, ← List.drop_drop, List.drop_left]
    rfl
  have order : ¬(front ++ '['.toUInt8 :: ofChars digits).length ≤ front.length := by
    rw [List.length_append, List.length_cons]
    omega
  unfold extractArrayIndex
  rw [left, right]
  simp only [if_neg order, between]
  exact sscanfIndex_digits areDigits small

/-! ## When the code is satisfied -/

section Evaluation

variable {submission : PresentationSubmission} {credentials : List VerifiableCredential}

/-- A required field of the credential that the code takes is not found, if the code takes one. -/
def DescriptorRefused (submission : PresentationSubmission)
    (credentials : List VerifiableCredential) (inputDesc : InputDescriptor) : Prop :=
  ∀ path, submission.descMap inputDesc.id = some path →
    ∀ credential, resolveCredential credentials path = some credential →
      ∃ constraints, inputDesc.constraints = some constraints ∧ ∃ field ∈ constraints.fields,
        field.optional = false ∧ ∀ jsonPath ∈ field.path,
          pathFits (subjectMap credential.credentialSubject) field jsonPath = false

theorem checkConstraints_eq_none (constraints : Constraints) (credential : VerifiableCredential) :
    checkConstraints constraints credential = none ↔
      ∀ field ∈ constraints.fields, field.optional = false →
        field.path.any (pathFits (subjectMap credential.credentialSubject) field) = true := by
  unfold checkConstraints
  rw [Option.map_eq_none_iff, List.find?_eq_none]
  simp only [Bool.and_eq_true, Bool.not_eq_true', not_and, Bool.not_eq_false]

theorem evaluateDescriptor_eq_ok (inputDesc : InputDescriptor) (credential : VerifiableCredential) :
    evaluateDescriptor submission credentials inputDesc = .ok credential ↔
      ∃ path, submission.descMap inputDesc.id = some path ∧
        resolveCredential credentials path = some credential ∧
        ∀ constraints, inputDesc.constraints = some constraints →
          ∀ field ∈ constraints.fields, field.optional = false →
            field.path.any (pathFits (subjectMap credential.credentialSubject) field) = true := by
  have checked (held : VerifiableCredential) :
      inputDesc.constraints.bind (checkConstraints · held) = none ↔
        ∀ constraints, inputDesc.constraints = some constraints →
          ∀ field ∈ constraints.fields, field.optional = false →
            field.path.any (pathFits (subjectMap held.credentialSubject) field) = true := by
    cases inputDesc.constraints with
    | none => simp
    | some constraints => simp [checkConstraints_eq_none]
  unfold evaluateDescriptor
  cases submission.descMap inputDesc.id with
  | none => simp
  | some path =>
      dsimp only
      cases taken : resolveCredential credentials path with
      | none => simp [taken]
      | some held =>
          dsimp only
          cases faults : inputDesc.constraints.bind (checkConstraints · held) with
          | some paths =>
              constructor
              · exact fun accepted => by cases accepted
              · rintro ⟨other, same, back, all⟩
                obtain rfl := Option.some.inj same
                obtain rfl := Option.some.inj (taken.symm.trans back)
                rw [(checked held).mpr all] at faults
                cases faults
          | none =>
              constructor
              · intro accepted
                obtain rfl := Except.ok.inj accepted
                exact ⟨path, rfl, taken, (checked held).mp faults⟩
              · rintro ⟨other, same, back, _⟩
                obtain rfl := Option.some.inj same
                rw [Option.some.inj (taken.symm.trans back)]

theorem not_descriptorRefused_iff (inputDesc : InputDescriptor) :
    ¬DescriptorRefused submission credentials inputDesc ↔
      ∃ credential, evaluateDescriptor submission credentials inputDesc = .ok credential := by
  simp only [evaluateDescriptor_eq_ok, DescriptorRefused]
  push Not
  constructor
  · rintro ⟨path, mapped, credential, taken, fields⟩
    refine ⟨credential, path, mapped, taken, fun constraints given field listed required => ?_⟩
    obtain ⟨jsonPath, there, fits⟩ := fields constraints given field listed required
    exact List.any_eq_true.mpr ⟨jsonPath, there, by simpa using fits⟩
  · rintro ⟨credential, path, mapped, taken, fields⟩
    refine ⟨path, mapped, credential, taken, fun constraints given field listed required => ?_⟩
    obtain ⟨jsonPath, there, fits⟩ :=
      List.any_eq_true.mp (fields constraints given field listed required)
    exact ⟨jsonPath, there, by simpa using fits⟩

theorem errors_foldl (inputDescs : List InputDescriptor) : ∀ result : EvaluationResult,
    (inputDescs.foldl (evaluateNext submission credentials) result).errors = [] ↔
      result.errors = [] ∧ ∀ inputDesc ∈ inputDescs,
        ¬DescriptorRefused submission credentials inputDesc := by
  induction inputDescs with
  | nil => simp
  | cons inputDesc inputDescs hyp =>
      intro result
      rw [List.foldl_cons, hyp, List.forall_mem_cons, not_descriptorRefused_iff inputDesc]
      unfold evaluateNext
      cases evaluateDescriptor submission credentials inputDesc with
      | error fault => simp
      | ok credential => simp

theorem keys_foldl (inputDescs : List InputDescriptor)
    (accepted : ∀ inputDesc ∈ inputDescs, ¬DescriptorRefused submission credentials inputDesc)
    (id : Bytes) : ∀ result : EvaluationResult,
      id ∈ (inputDescs.foldl (evaluateNext submission credentials) result).matchedCredentials.keys ↔
        id ∈ inputDescs.map InputDescriptor.id ∨ id ∈ result.matchedCredentials.keys := by
  induction inputDescs with
  | nil => simp
  | cons inputDesc inputDescs hyp =>
      intro result
      obtain ⟨first, later⟩ := List.forall_mem_cons.mp accepted
      obtain ⟨credential, taken⟩ := (not_descriptorRefused_iff inputDesc).mp first
      rw [List.foldl_cons, hyp later, evaluateNext, taken, List.map_cons, List.mem_cons]
      rw [← AList.mem_keys, AList.mem_insert, AList.mem_keys]
      tauto

theorem matched_length (inputDescs : List InputDescriptor)
    (accepted : ∀ inputDesc ∈ inputDescs, ¬DescriptorRefused submission credentials inputDesc) :
    (inputDescs.foldl (evaluateNext submission credentials)
        ⟨false, [], ∅⟩).matchedCredentials.keys.length = inputDescs.length ↔
      (inputDescs.map InputDescriptor.id).Nodup := by
  have keys := fun id => keys_foldl inputDescs accepted id ⟨false, [], ∅⟩
  generalize inputDescs.foldl (evaluateNext submission credentials) ⟨false, [], ∅⟩ = result
    at keys ⊢
  have same : result.matchedCredentials.keys.toFinset =
      (inputDescs.map InputDescriptor.id).toFinset := by
    ext id
    rw [List.mem_toFinset, List.mem_toFinset, keys id]
    exact or_iff_left List.not_mem_nil
  rw [← List.toFinset_card_of_nodup result.matchedCredentials.keys_nodup, same,
    ← List.length_map InputDescriptor.id]
  exact Multiset.toFinset_card_eq_card_iff_nodup

end Evaluation

/-- The code refuses for the names of the definition or of its descriptors, or for one of them. -/
def Refused (definition : PresentationDefinition) (submission : PresentationSubmission)
    (vp : VerifiablePresentation) : Prop :=
  submission.definitionId ≠ definition.id ∨
    ¬(definition.inputDescriptors.map InputDescriptor.id).Nodup ∨
    ∃ inputDesc ∈ definition.inputDescriptors,
      DescriptorRefused submission vp.verifiableCredential inputDesc

theorem satisfied_iff (definition : PresentationDefinition) (submission : PresentationSubmission)
    (vp : VerifiablePresentation) :
    Satisfied definition submission vp ↔ ¬Refused definition submission vp := by
  unfold Satisfied evaluate Refused
  split_ifs with other
  · simp [other]
  · have same : submission.definitionId = definition.id := not_not.mp other
    have errors := @errors_foldl submission vp.verifiableCredential definition.inputDescriptors
      ⟨false, [], ∅⟩
    simp only [Except.ok.injEq, exists_eq_left', Bool.and_eq_true, List.isEmpty_iff, beq_iff_eq,
      errors, true_and, same, ne_eq, not_true_eq_false, false_or, not_or, not_exists, not_and]
    constructor
    · rintro ⟨accepted, length⟩
      exact ⟨not_not.mpr ((matched_length _ accepted).mp length), accepted⟩
    · rintro ⟨distinct, accepted⟩
      exact ⟨accepted, (matched_length _ accepted).mpr (not_not.mp distinct)⟩

/-- The path of the descriptor names an index that is an `int`. -/
def IndexNamed (submission : PresentationSubmission) (inputDesc : InputDescriptor) : Prop :=
  ∀ path, submission.descMap inputDesc.id = some path → ∃ index < 2 ^ 63, Names path index

/-- Each required field that gives an enum and a pattern is found with a value of the pattern. -/
def PatternsChecked (submission : PresentationSubmission) (vp : VerifiablePresentation)
    (inputDesc : InputDescriptor) : Prop :=
  ∀ path, submission.descMap inputDesc.id = some path →
    ∀ credential, resolveCredential vp.verifiableCredential path = some credential →
    ∀ constraints, inputDesc.constraints = some constraints →
    ∀ field ∈ constraints.fields, field.optional = false →
      PatternChecked (subjectMap credential.credentialSubject) field

theorem resolveCredential_named {credentials : List VerifiableCredential} {path : Bytes}
    {index : Nat} (named : Names path index) (small : index < 2 ^ 63) :
    resolveCredential credentials path = credentials[index]? := by
  unfold resolveCredential
  rw [extractArrayIndex_named named small]
  exact if_neg (by omega)

theorem descriptorMet_iff {submission : PresentationSubmission} {vp : VerifiablePresentation}
    {inputDesc : InputDescriptor} {credential : VerifiableCredential}
    (ok : evaluateDescriptor submission vp.verifiableCredential inputDesc = .ok credential) :
    DescriptorMet submission vp inputDesc ↔
      IndexNamed submission inputDesc ∧ PatternsChecked submission vp inputDesc := by
  obtain ⟨path, mapped, taken, found⟩ := (evaluateDescriptor_eq_ok inputDesc credential).mp ok
  constructor
  · rintro ⟨other, index, held, same, named, there, met⟩
    obtain rfl := Option.some.inj (mapped.symm.trans same)
    have small : index < 2 ^ 63 := (List.getElem?_eq_some_iff.mp there).1.trans vp.counted
    have sameHeld : credential = held := by
      rw [resolveCredential_named named small] at taken
      exact Option.some.inj (taken.symm.trans there)
    refine ⟨fun again sameAgain => ?_, fun again sameAgain other takenAgain => ?_⟩
    · obtain rfl := Option.some.inj (mapped.symm.trans sameAgain)
      exact ⟨index, small, named⟩
    · obtain rfl := Option.some.inj (mapped.symm.trans sameAgain)
      obtain rfl := Option.some.inj (taken.symm.trans takenAgain)
      subst sameHeld
      intro constraints given field listed required
      exact (fieldMet_iff (found constraints given field listed required)).mp
        (met constraints given field listed required)
  · rintro ⟨indexNamed, checked⟩
    obtain ⟨index, small, named⟩ := indexNamed path mapped
    refine ⟨path, index, credential, mapped, named, ?_, ?_⟩
    · rw [← resolveCredential_named named small]
      exact taken
    · intro constraints given field listed required
      exact (fieldMet_iff (found constraints given field listed required)).mpr
        (checked path mapped credential taken constraints given field listed required)

/-- A presentation that is accepted is what was wanted exactly when its paths name their
indices and no enum stands in for a pattern. -/
theorem evaluate_sound_iff (definition : PresentationDefinition)
    (submission : PresentationSubmission) (vp : VerifiablePresentation) :
    (Satisfied definition submission vp → Sound definition submission vp) ↔
      Refused definition submission vp ∨ ∀ inputDesc ∈ definition.inputDescriptors,
        IndexNamed submission inputDesc ∧ PatternsChecked submission vp inputDesc := by
  rw [satisfied_iff]
  by_cases refused : Refused definition submission vp
  · simp [refused]
  · have met : ∀ inputDesc ∈ definition.inputDescriptors,
        (DescriptorMet submission vp inputDesc ↔
          IndexNamed submission inputDesc ∧ PatternsChecked submission vp inputDesc) := by
      intro inputDesc listed
      obtain ⟨credential, ok⟩ := (not_descriptorRefused_iff inputDesc).mp
        fun one => refused (Or.inr (Or.inr ⟨inputDesc, listed, one⟩))
      exact descriptorMet_iff ok
    simp only [refused, not_false_eq_true, forall_true_left, false_or]
    exact forall₂_congr met

def pathless : PresentationSubmission := ⟨[], [⟨[], []⟩]⟩

def oneCredential : VerifiablePresentation := ⟨[⟨⟨[], OrdMap.empty⟩⟩], by decide⟩

/-- An empty path is taken for the first credential. -/
theorem empty_path_is_satisfied :
    Satisfied ⟨[], [⟨[], none⟩]⟩ pathless oneCredential ∧
      ¬Sound ⟨[], [⟨[], none⟩]⟩ pathless oneCredential := by
  refine ⟨⟨_, rfl, rfl⟩, fun sound => ?_⟩
  obtain ⟨path, index, credential, mapped, ⟨digits, _, _, _, named⟩, _⟩ :=
    sound ⟨[], none⟩ List.mem_cons_self
  obtain rfl : [] = path := Option.some.inj mapped
  exact absurd named (by simp)

end Pantheon.Identity.Pe
