import Mathlib
import Pantheon.Lib.Bytes
import Pantheon.Lib.Utf8
import Pantheon.Lib.Json

/-!
# The JSON of a DIDComm envelope: the records of `pkg/didcomm/didcomm.go`

Texts are byte strings.  A record is written field by field and read into an
empty one: a key names a field up to case, a later member overrides an earlier
one, and a value of another type is an error.
-/

set_option autoImplicit false

namespace Pantheon.Identity.DidComm

open Pantheon.Lib

/-! ## Envelopes and headers -/

structure JwkOKP where
  kty : Bytes
  crv : Bytes
  x : Bytes
deriving DecidableEq

structure JweRecipHeader where
  kid : Bytes
  epk : Option JwkOKP
deriving DecidableEq

structure JweRecip where
  header : JweRecipHeader
  encryptedKey : Bytes
deriving DecidableEq

structure Envelope where
  protectedHeader : Bytes
  recipients : List JweRecip
  iv : Bytes
  ciphertext : Bytes
  tag : Bytes
deriving DecidableEq

structure ProtectedHeader where
  typ : Bytes
  alg : Bytes
  enc : Bytes
  skid : Bytes
  apu : Bytes
  apv : Bytes
deriving DecidableEq

def ascii (text : String) : Bytes := utf8Bytes text

def mediaTypeEncrypted : Bytes := ascii "application/didcomm-encrypted+json"

def algAnoncrypt : Bytes := ascii "ECDH-ES+A256KW"

def algAuthcrypt : Bytes := ascii "ECDH-1PU+A256KW"

def encXC20P : Bytes := ascii "XC20P"

/-! ## JSON of the envelope -/

/-- A field that is left out when it is empty. -/
def omitEmpty (name : String) (text : Bytes) : List (Bytes × Json) :=
  if text = [] then [] else [(ascii name, .string text)]

def ProtectedHeader.json (header : ProtectedHeader) : Json :=
  .object ([(ascii "typ", .string header.typ), (ascii "alg", .string header.alg),
    (ascii "enc", .string header.enc)] ++ omitEmpty "skid" header.skid ++
    omitEmpty "apu" header.apu ++ omitEmpty "apv" header.apv)

def JwkOKP.json (jwk : JwkOKP) : Json :=
  .object [(ascii "kty", .string jwk.kty), (ascii "crv", .string jwk.crv),
    (ascii "x", .string jwk.x)]

def JweRecipHeader.json (header : JweRecipHeader) : Json :=
  .object ((ascii "kid", .string header.kid) ::
    header.epk.toList.map fun jwk => (ascii "epk", jwk.json))

def JweRecip.json (recipient : JweRecip) : Json :=
  .object [(ascii "header", recipient.header.json),
    (ascii "encrypted_key", .string recipient.encryptedKey)]

def Envelope.json (envelope : Envelope) : Json :=
  .object [(ascii "protected", .string envelope.protectedHeader),
    (ascii "recipients", .array (envelope.recipients.map JweRecip.json)),
    (ascii "iv", .string envelope.iv), (ascii "ciphertext", .string envelope.ciphertext),
    (ascii "tag", .string envelope.tag)]

def marshal (value : Json) : Bytes := ofChars value.render

def unmarshal (bytes : Bytes) : Option Json := parseText (replaced bytes)

/-- Letters without their case; two other characters fold to letters. -/
def foldRune (char : Char) : Char :=
  if 'a' ≤ char ∧ char ≤ 'z' then Char.ofNat (char.toNat - 32)
  else if char = '\u017F' then 'S'
  else if char = '\u212A' then 'K'
  else char

def isField (name : String) (key : Bytes) : Bool :=
  decide ((replaced key).map foldRune = name.toList.map foldRune)

/-- A text field keeps its value when `null` is read into it. -/
def readText (old : Bytes) : Json → Option Bytes
  | .null => some old
  | .string text => some text
  | _ => none

def readHeaderMember (header : ProtectedHeader) (member : Bytes × Json) : Option ProtectedHeader :=
  if isField "typ" member.1 then
    (readText header.typ member.2).map fun text => { header with typ := text }
  else if isField "alg" member.1 then
    (readText header.alg member.2).map fun text => { header with alg := text }
  else if isField "enc" member.1 then
    (readText header.enc member.2).map fun text => { header with enc := text }
  else if isField "skid" member.1 then
    (readText header.skid member.2).map fun text => { header with skid := text }
  else if isField "apu" member.1 then
    (readText header.apu member.2).map fun text => { header with apu := text }
  else if isField "apv" member.1 then
    (readText header.apv member.2).map fun text => { header with apv := text }
  else some header

def readHeader : Json → Option ProtectedHeader
  | .null => some ⟨[], [], [], [], [], []⟩
  | .object members => members.foldlM readHeaderMember ⟨[], [], [], [], [], []⟩
  | _ => none

def readJwkMember (jwk : JwkOKP) (member : Bytes × Json) : Option JwkOKP :=
  if isField "kty" member.1 then
    (readText jwk.kty member.2).map fun text => { jwk with kty := text }
  else if isField "crv" member.1 then
    (readText jwk.crv member.2).map fun text => { jwk with crv := text }
  else if isField "x" member.1 then
    (readText jwk.x member.2).map fun text => { jwk with x := text }
  else some jwk

def readJwk (old : Option JwkOKP) : Json → Option (Option JwkOKP)
  | .null => some none
  | .object members => (members.foldlM readJwkMember (old.getD ⟨[], [], []⟩)).map some
  | _ => none

def readRecipHeaderMember (header : JweRecipHeader) (member : Bytes × Json) :
    Option JweRecipHeader :=
  if isField "kid" member.1 then
    (readText header.kid member.2).map fun text => { header with kid := text }
  else if isField "epk" member.1 then
    (readJwk header.epk member.2).map fun jwk => { header with epk := jwk }
  else some header

def readRecipHeader (old : JweRecipHeader) : Json → Option JweRecipHeader
  | .null => some old
  | .object members => members.foldlM readRecipHeaderMember old
  | _ => none

def readRecipMember (recipient : JweRecip) (member : Bytes × Json) : Option JweRecip :=
  if isField "header" member.1 then
    (readRecipHeader recipient.header member.2).map fun header =>
      { recipient with header := header }
  else if isField "encrypted_key" member.1 then
    (readText recipient.encryptedKey member.2).map fun text =>
      { recipient with encryptedKey := text }
  else some recipient

def readRecip : Json → Option JweRecip
  | .null => some ⟨⟨[], none⟩, []⟩
  | .object members => members.foldlM readRecipMember ⟨⟨[], none⟩, []⟩
  | _ => none

def readRecipients : Json → Option (List JweRecip)
  | .null => some []
  | .array items => items.mapM readRecip
  | _ => none

def readEnvelopeMember (envelope : Envelope) (member : Bytes × Json) : Option Envelope :=
  if isField "protected" member.1 then
    (readText envelope.protectedHeader member.2).map fun text =>
      { envelope with protectedHeader := text }
  else if isField "recipients" member.1 then
    (readRecipients member.2).map fun recipients => { envelope with recipients := recipients }
  else if isField "iv" member.1 then
    (readText envelope.iv member.2).map fun text => { envelope with iv := text }
  else if isField "ciphertext" member.1 then
    (readText envelope.ciphertext member.2).map fun text => { envelope with ciphertext := text }
  else if isField "tag" member.1 then
    (readText envelope.tag member.2).map fun text => { envelope with tag := text }
  else some envelope

def readEnvelope : Json → Option Envelope
  | .null => some ⟨[], [], [], [], []⟩
  | .object members => members.foldlM readEnvelopeMember ⟨[], [], [], [], []⟩
  | _ => none

/-! ## What is written is read back -/

def ProtectedHeader.coerced (header : ProtectedHeader) : ProtectedHeader :=
  ⟨coerce header.typ, coerce header.alg, coerce header.enc, coerce header.skid,
    coerce header.apu, coerce header.apv⟩

def JwkOKP.coerced (jwk : JwkOKP) : JwkOKP := ⟨coerce jwk.kty, coerce jwk.crv, coerce jwk.x⟩

def JweRecip.coerced (recipient : JweRecip) : JweRecip :=
  ⟨⟨coerce recipient.header.kid, recipient.header.epk.map JwkOKP.coerced⟩,
    coerce recipient.encryptedKey⟩

def Envelope.coerced (envelope : Envelope) : Envelope :=
  ⟨coerce envelope.protectedHeader, envelope.recipients.map JweRecip.coerced,
    coerce envelope.iv, coerce envelope.ciphertext, coerce envelope.tag⟩

theorem ascii_eq (text : String) : ascii text = ofChars text.toList := by
  rw [ofChars, String.ofList_toList]
  rfl

@[simp] theorem coerce_ascii (text : String) : coerce (ascii text) = ascii text := by
  rw [ascii_eq, coerce_ofChars]

@[simp] theorem isField_ascii (name key : String) :
    isField name (ascii key) = decide (key.toList.map foldRune = name.toList.map foldRune) := by
  rw [isField, ascii_eq, replaced_ofChars]

@[simp] theorem coerce_nil : coerce [] = [] := coerce_ofChars []

theorem unmarshal_marshal (value : Json) (numbered : value.Numbered)
    (nested : value.nesting ≤ maxNesting) : unmarshal (marshal value) = some value.coerced := by
  rw [unmarshal, marshal, replaced_ofChars, parseText_render value numbered nested]

theorem readHeader_json (header : ProtectedHeader) :
    readHeader header.json.coerced = some header.coerced := by
  obtain ⟨typ, alg, enc, skid, apu, apv⟩ := header
  by_cases noSkid : skid = [] <;> by_cases noApu : apu = [] <;> by_cases noApv : apv = []
  all_goals
    simp +decide only [ProtectedHeader.json, omitEmpty, noSkid, noApu, noApv, if_true, if_false,
      List.append_nil, List.cons_append, List.nil_append, Json.coerced, Json.coercedMembers,
      readHeader, List.foldlM_cons, List.foldlM_nil, readHeaderMember, coerce_ascii,
      isField_ascii, readText, Option.map_some, Option.bind_eq_bind, Option.bind_some,
      ProtectedHeader.coerced, coerce_nil, Option.pure_def]

theorem header_json_fits (header : ProtectedHeader) :
    header.json.Numbered ∧ header.json.nesting ≤ maxNesting := by
  obtain ⟨typ, alg, enc, skid, apu, apv⟩ := header
  by_cases noSkid : skid = [] <;> by_cases noApu : apu = [] <;> by_cases noApv : apv = []
  all_goals
    simp [ProtectedHeader.json, omitEmpty, noSkid, noApu, noApv, Json.Numbered,
      Json.NumberedMembers, Json.nesting, Json.nestingMembers, maxNesting]

theorem header_reads_back (header : ProtectedHeader) :
    (unmarshal (marshal header.json)).bind readHeader = some header.coerced := by
  obtain ⟨numbered, nested⟩ := header_json_fits header
  rw [unmarshal_marshal header.json numbered nested]
  exact readHeader_json header

theorem coercedItems_eq_map (items : List Json) :
    Json.coercedItems items = items.map Json.coerced := by
  induction items with
  | nil => simp only [Json.coercedItems, List.map_nil]
  | cons item items ih => simp only [Json.coercedItems, List.map_cons, ih]

theorem readRecip_json (recipient : JweRecip) :
    readRecip recipient.json.coerced = some recipient.coerced := by
  obtain ⟨⟨kid, epk⟩, encryptedKey⟩ := recipient
  cases epk with
  | none =>
      simp +decide only [JweRecip.json, JweRecipHeader.json, Option.toList_none, List.map_nil,
        Json.coerced, Json.coercedMembers, readRecip, readRecipMember, readRecipHeader,
        readRecipHeaderMember, List.foldlM_cons, List.foldlM_nil, coerce_ascii, isField_ascii,
        if_true, if_false, readText, Option.map_some, Option.map_none, Option.bind_eq_bind,
        Option.bind_some, Option.pure_def, JweRecip.coerced]
  | some jwk =>
      simp +decide only [JweRecip.json, JweRecipHeader.json, Option.toList_some, List.map_cons,
        List.map_nil, JwkOKP.json, Json.coerced, Json.coercedMembers, readRecip, readRecipMember,
        readRecipHeader, readRecipHeaderMember, readJwk, readJwkMember,
        List.foldlM_cons, List.foldlM_nil, coerce_ascii, isField_ascii, if_true, if_false,
        readText, Option.map_some, Option.bind_eq_bind, Option.bind_some, Option.pure_def,
        JweRecip.coerced, JwkOKP.coerced]

theorem readRecipients_json (recipients : List JweRecip) :
    (recipients.map fun recipient => recipient.json.coerced).mapM readRecip =
      some (recipients.map JweRecip.coerced) := by
  induction recipients with
  | nil => rfl
  | cons recipient recipients ih =>
      simp only [List.map_cons, List.mapM_cons, readRecip_json, ih, Option.bind_eq_bind,
        Option.bind_some, Option.pure_def]

theorem readEnvelope_json (envelope : Envelope) :
    readEnvelope envelope.json.coerced = some envelope.coerced := by
  have recipients := readRecipients_json envelope.recipients
  simp +decide only [Envelope.json, Json.coerced, Json.coercedMembers, coercedItems_eq_map,
    List.map_map, readEnvelope, readEnvelopeMember, List.foldlM_cons, List.foldlM_nil,
    coerce_ascii, isField_ascii, if_true, if_false, readText, readRecipients, Option.map_some,
    Option.bind_eq_bind, Option.bind_some, Option.pure_def, Envelope.coerced]
  rw [Function.comp_def, recipients]
  rfl

theorem recip_json_fits (recipient : JweRecip) :
    recipient.json.Numbered ∧ recipient.json.nesting ≤ 3 := by
  obtain ⟨⟨kid, epk⟩, encryptedKey⟩ := recipient
  cases epk with
  | none =>
      simp [JweRecip.json, JweRecipHeader.json, Json.Numbered, Json.NumberedMembers, Json.nesting,
        Json.nestingMembers]
  | some jwk =>
      simp [JweRecip.json, JweRecipHeader.json, JwkOKP.json, Json.Numbered, Json.NumberedMembers,
        Json.nesting, Json.nestingMembers]

theorem recipients_json_fit (recipients : List JweRecip) :
    Json.NumberedItems (recipients.map JweRecip.json) ∧
      Json.nestingItems (recipients.map JweRecip.json) ≤ 3 := by
  induction recipients with
  | nil => simp [Json.NumberedItems, Json.nestingItems]
  | cons recipient recipients ih =>
      obtain ⟨numbered, nested⟩ := recip_json_fits recipient
      simp only [List.map_cons, Json.NumberedItems, Json.nestingItems]
      exact ⟨⟨numbered, ih.1⟩, max_le nested ih.2⟩

theorem envelope_reads_back (envelope : Envelope) :
    (unmarshal (marshal envelope.json)).bind readEnvelope = some envelope.coerced := by
  obtain ⟨numbered, nested⟩ := recipients_json_fit envelope.recipients
  have allNumbered : envelope.json.Numbered := by
    simp only [Envelope.json, Json.Numbered, Json.NumberedMembers, and_true, true_and]
    exact numbered
  have shallow : envelope.json.nesting ≤ maxNesting := by
    simp only [Envelope.json, Json.nesting, Json.nestingMembers, maxNesting]
    omega
  rw [unmarshal_marshal envelope.json allNumbered shallow]
  exact readEnvelope_json envelope

end Pantheon.Identity.DidComm
