import Mathlib
import Pantheon.Identity.DidCommRoundTrip

/-!
# Whose message it is

`Unpack` reports the `skid` of the header whichever algorithm the header
names, so a header of the anoncrypt algorithm with a `skid` reports a sender
whose key was never used.
-/

set_option autoImplicit false

namespace Pantheon.Identity.DidComm

open Pantheon.Lib

/-- The key-encryption key of the opened entry is the one that ECDH-1PU gives
for the sender's public key. -/
def DerivedFrom (crypto : Crypto) (header : ProtectedHeader) (recipients : List JweRecip)
    (recipKeyFn : Bytes → Option Key32) (senderPub : Key32) (opened : Opened) : Prop :=
  opened.source = .ecdh1PU senderPub ∧
    ∃ recipient ∈ recipients, ∃ recipPriv ephPub,
      recipKeyFn recipient.header.kid = some recipPriv ∧
        ecdh1PUKEKRecipient crypto ephPub recipPriv senderPub header.alg header.apu header.apv =
          some opened.kek

/-- A sender that `Unpack` reports for an envelope is the one whose public key
the key-encryption key was derived from. -/
def SenderBound (crypto : Crypto) (bytes : Bytes) (recipKeyFn : Bytes → Option Key32)
    (senderPubFn : Option (Bytes → Option Key32)) : Prop :=
  ∀ envelope header message skid opened,
    (unmarshal bytes).bind readEnvelope = some envelope →
    readProtected envelope.protectedHeader = .ok header →
    unpackOpened crypto bytes recipKeyFn senderPubFn = .ok (message, skid, opened) → skid ≠ [] →
    ∃ resolve senderPub, senderPubFn = some resolve ∧ resolve skid = some senderPub ∧
      DerivedFrom crypto header envelope.recipients recipKeyFn senderPub opened

/-! ## What a successful call did -/

theorem unpackParsed_eq_ok (crypto : Crypto) (envelope : Envelope)
    (recipKeyFn : Bytes → Option Key32) (senderPubFn : Option (Bytes → Option Key32))
    (message skid : Bytes) (opened : Opened) (header : ProtectedHeader)
    (read : readProtected envelope.protectedHeader = .ok header)
    (run : unpackParsed crypto envelope recipKeyFn senderPubFn = .ok (message, skid, opened)) :
    skid = header.skid ∧ ∃ senderPub, resolveSender header.skid senderPubFn = .ok senderPub ∧
      ∃ recipient ∈ envelope.recipients,
        openRecipient crypto header senderPub recipKeyFn recipient = some opened := by
  simp only [unpackParsed, read, bind, Except.bind] at run
  cases resolved : resolveSender header.skid senderPubFn with
  | error error => simp [resolved] at run
  | ok senderPub =>
      simp only [resolved] at run
      cases found : envelope.recipients.findSome?
          (openRecipient crypto header senderPub recipKeyFn) with
      | none => simp [found] at run
      | some entry =>
          simp only [found] at run
          cases content : openContent crypto envelope entry.cek with
          | error error => simp [content] at run
          | ok text =>
              simp only [content, Except.ok.injEq, Prod.mk.injEq] at run
              obtain ⟨recipient, member, opens⟩ := List.exists_of_findSome?_eq_some found
              exact ⟨run.2.1.symm, senderPub, rfl, recipient, member, run.2.2 ▸ opens⟩

theorem resolveSender_eq_ok (skid : Bytes) (senderPubFn : Option (Bytes → Option Key32))
    (senderPub : Key32) (named : skid ≠ []) (run : resolveSender skid senderPubFn = .ok senderPub) :
    ∃ resolve, senderPubFn = some resolve ∧ resolve skid = some senderPub := by
  simp only [resolveSender, if_pos named] at run
  cases senderPubFn with
  | none => simp at run
  | some resolve =>
      cases found : resolve skid with
      | none => simp [found] at run
      | some key =>
          simp only [found, Except.ok.injEq] at run
          exact ⟨resolve, rfl, run ▸ found⟩

theorem openRecipient_eq_some (crypto : Crypto) (header : ProtectedHeader) (senderPub : Key32)
    (recipKeyFn : Bytes → Option Key32) (recipient : JweRecip) (opened : Opened)
    (opens : openRecipient crypto header senderPub recipKeyFn recipient = some opened) :
    ∃ recipPriv ephPub, recipKeyFn recipient.header.kid = some recipPriv ∧
      deriveKek crypto header senderPub recipPriv ephPub = some (opened.source, opened.kek) := by
  obtain ⟨recipPriv, held, opens⟩ := Option.bind_eq_some_iff.mp opens
  obtain ⟨epk, _, opens⟩ := Option.bind_eq_some_iff.mp opens
  obtain ⟨ephBytes, _, opens⟩ := Option.bind_eq_some_iff.mp opens
  obtain ⟨ephPub, _, opens⟩ := Option.bind_eq_some_iff.mp opens
  obtain ⟨⟨source, kek⟩, derived, opens⟩ := Option.bind_eq_some_iff.mp opens
  obtain ⟨encKey, _, opens⟩ := Option.bind_eq_some_iff.mp opens
  obtain ⟨cekSlice, _, opens⟩ := Option.bind_eq_some_iff.mp opens
  obtain ⟨cek, _, opens⟩ := Option.bind_eq_some_iff.mp opens
  cases Option.some.inj opens
  exact ⟨recipPriv, ephPub, held, derived⟩

/-- Under another algorithm than anoncrypt the key is derived from the
sender's. -/
theorem deriveKek_sender (crypto : Crypto) (header : ProtectedHeader)
    (senderPub recipPriv ephPub kek : Key32) (source : KekSource)
    (notAnoncrypt : header.alg ≠ algAnoncrypt)
    (derived : deriveKek crypto header senderPub recipPriv ephPub = some (source, kek)) :
    source = .ecdh1PU senderPub ∧
      ecdh1PUKEKRecipient crypto ephPub recipPriv senderPub header.alg header.apu header.apv =
        some kek := by
  unfold deriveKek at derived
  rw [if_neg notAnoncrypt] at derived
  split_ifs at derived
  obtain ⟨key, isKey, derived⟩ := Option.bind_eq_some_iff.mp derived
  cases Option.some.inj derived
  exact ⟨rfl, isKey⟩

theorem deriveKek_decodes (crypto : Crypto) (header : ProtectedHeader)
    (senderPub recipPriv ephPub : Key32) (derivation : KekSource × Key32)
    (anoncrypt : header.alg = algAnoncrypt)
    (derived : deriveKek crypto header senderPub recipPriv ephPub = some derivation) :
    (Base64.decode header.apv).isSome := by
  unfold deriveKek at derived
  rw [if_pos anoncrypt] at derived
  obtain ⟨key, isKey, _⟩ := Option.bind_eq_some_iff.mp derived
  obtain ⟨z, _, isKey⟩ := Option.bind_eq_some_iff.mp isKey
  obtain ⟨apv, decoded, _⟩ := Option.bind_eq_some_iff.mp isKey
  rw [decoded]
  rfl

/-- A header that names a sender although its algorithm has none. -/
def NamesUnusedSender (header : ProtectedHeader) : Prop :=
  header.alg = algAnoncrypt ∧ header.skid ≠ [] ∧ (Base64.decode header.apv).isSome

instance (header : ProtectedHeader) : Decidable (NamesUnusedSender header) :=
  inferInstanceAs (Decidable (_ ∧ _ ∧ _))

theorem senderBound_of_header (crypto : Crypto) (bytes : Bytes) (envelope : Envelope)
    (header : ProtectedHeader) (parsed : (unmarshal bytes).bind readEnvelope = some envelope)
    (read : readProtected envelope.protectedHeader = .ok header)
    (used : ¬ NamesUnusedSender header) (recipKeyFn : Bytes → Option Key32)
    (senderPubFn : Option (Bytes → Option Key32)) :
    SenderBound crypto bytes recipKeyFn senderPubFn := by
  intro other otherHeader message skid opened otherParsed otherRead run named
  rw [parsed] at otherParsed
  cases Option.some.inj otherParsed
  rw [read] at otherRead
  cases Except.ok.inj otherRead
  simp only [unpackOpened, parsed] at run
  obtain ⟨rfl, senderPub, resolved, recipient, member, opens⟩ :=
    unpackParsed_eq_ok crypto envelope recipKeyFn senderPubFn message skid opened header read run
  obtain ⟨resolve, given, isPub⟩ := resolveSender_eq_ok _ senderPubFn senderPub named resolved
  obtain ⟨recipPriv, ephPub, held, derived⟩ :=
    openRecipient_eq_some crypto header senderPub recipKeyFn recipient opened opens
  have notAnoncrypt : header.alg ≠ algAnoncrypt := by
    intro anoncrypt
    exact used ⟨anoncrypt, named,
      deriveKek_decodes crypto header senderPub recipPriv ephPub _ anoncrypt derived⟩
  obtain ⟨source, isKey⟩ := deriveKek_sender crypto header senderPub recipPriv ephPub opened.kek
    opened.source notAnoncrypt derived
  exact ⟨resolve, senderPub, given, isPub, source, recipient, member, recipPriv, ephPub, held,
    isKey⟩

/-! ## A message in another's name -/

/-- Some exchange between a recipient and an ephemeral key succeeds, and some
message can be sealed. -/
structure Crypto.Works (crypto : Crypto) : Prop where
  exchange : ∃ drawn ephPriv ephPub recipPriv recipPub z,
    generateX25519 crypto (some drawn) = some (ephPriv, ephPub) ∧
      crypto.x25519 recipPriv basepoint = some recipPub ∧
      crypto.x25519 ephPriv recipPub = some z
  seals : ∃ (cek : Key32) (iv message : Bytes), iv.length = 24 ∧ ∀ aad,
    ∃ sealed, crypto.sealWith cek iv message aad = some sealed

/-- Under a header of the anoncrypt algorithm, whatever its `skid`, an entry
that was packed without a sender is opened. -/
theorem openRecipient_anoncrypt (crypto : Crypto) (lawful : crypto.Lawful)
    (header : ProtectedHeader) (anoncrypt : header.alg = algAnoncrypt) (senderPub cek : Key32)
    (drawn : Option Key32) (recipient : Recipient) (packed : JweRecip)
    (run : packRecipient crypto header none cek drawn recipient = .ok packed)
    (recipKeyFn : Bytes → Option Key32) (recipPriv : Key32)
    (held : recipKeyFn (coerce recipient.kid) = some recipPriv)
    (recipKey : crypto.x25519 recipPriv basepoint = some recipient.pubKey) :
    ∃ kek, openRecipient crypto header senderPub recipKeyFn packed.coerced =
      some ⟨.ecdhES, kek, cek⟩ := by
  obtain ⟨ephPriv, ephPub, kek, bytes, generated, derived, wrapped, rfl⟩ :=
    packRecipient_ok crypto run
  have exchanged := generateX25519_pub crypto lawful drawn ephPriv ephPub recipPriv
    recipient.pubKey generated recipKey
  have unwrapped := aesKeyUnwrap_of_aesKeyWrap crypto.aes kek.1 cek.1 bytes wrapped
  have same : ecdhESKEKRecipient crypto recipPriv ephPub header.alg header.apv = some kek := by
    rw [ecdhESKEKRecipient, exchanged]
    exact derived
  refine ⟨kek, ?_⟩
  simp only [openRecipient, JweRecip.coerced, Option.map_some, JwkOKP.coerced, held,
    coerce_encode, Base64.decode_encode, key32?_val, deriveKek, if_pos anoncrypt, same, unwrapped,
    Except.toOption, Option.bind_eq_bind, Option.bind_some]

theorem byteDigit_of_mapM (text : Bytes) : ∀ digits : List Nat,
    text.mapM Base64.byteDigit = some digits →
    ∀ byte ∈ text, ∃ digit, Base64.byteDigit byte = some digit := by
  induction text with
  | nil => intro digits _ byte member; exact absurd member List.not_mem_nil
  | cons head text ih =>
      intro digits run byte member
      rw [List.mapM_cons] at run
      obtain ⟨digit, first, run⟩ := Option.bind_eq_some_iff.mp run
      obtain ⟨others, rest, _⟩ := Option.bind_eq_some_iff.mp run
      rcases List.mem_cons.mp member with rfl | member
      · exact ⟨digit, first⟩
      · exact ih others rest byte member

theorem small_of_byteDigit (byte : UInt8) (digit : Nat)
    (decoded : Base64.byteDigit byte = some digit) : byte < 128 := by
  rw [UInt8.lt_iff_toNat_lt]
  by_contra large
  have code : 128 ≤ byte.toNat := Nat.le_of_not_lt large
  simp only [Base64.byteDigit] at decoded
  split_ifs at decoded
  all_goals omega

theorem coerce_of_decode (text bytes : Bytes) (decoded : Base64.decode text = some bytes) :
    coerce text = text := by
  apply coerce_of_small
  intro byte member
  by_cases content : byte ≠ 10 ∧ byte ≠ 13
  · obtain ⟨digits, allDigits, _⟩ := Option.bind_eq_some_iff.mp decoded
    have kept : byte ∈ text.filter fun byte => byte ≠ 10 ∧ byte ≠ 13 :=
      List.mem_filter.mpr ⟨member, by simpa using content⟩
    obtain ⟨digit, isDigit⟩ := byteDigit_of_mapM _ digits allDigits byte kept
    exact small_of_byteDigit byte digit isDigit
  · rcases Decidable.not_and_iff_or_not.mp content with lineFeed | carriage
    · rw [not_not.mp lineFeed]
      decide
    · rw [not_not.mp carriage]
      decide

/-- Where the exchange works, an entry is packed under every header of the
anoncrypt algorithm whose party info decodes. -/
theorem packRecipient_anoncrypt (crypto : Crypto) (header : ProtectedHeader) (apv : Bytes)
    (decoded : Base64.decode header.apv = some apv) (cek drawn ephPriv ephPub recipPub z : Key32)
    (generated : generateX25519 crypto (some drawn) = some (ephPriv, ephPub))
    (exchanged : crypto.x25519 ephPriv recipPub = some z) (kid : Bytes) :
    ∃ packed, packRecipient crypto header none cek (some drawn) ⟨kid, recipPub⟩ = .ok packed := by
  have empty : Base64.decode [] = some [] := rfl
  have derived : packKek crypto header none ephPriv recipPub =
      some (crypto.sha256 (kdfInput z.1 header.alg [] apv)) := by
    simp only [packKek, ecdhESKEKSender, exchanged, concatKDF, empty, decoded,
      Option.bind_eq_bind, Option.bind_some]
  have size : validKeySize (crypto.sha256 (kdfInput z.1 header.alg [] apv)).1 := by
    rw [validKeySize, (crypto.sha256 _).2]
    rfl
  obtain ⟨wrapped, wraps, _⟩ := aesKeyUnwrap_aesKeyWrap crypto.aes _ cek.1 size
    (by rw [cek.2]; norm_num) (by rw [cek.2])
  rw [packRecipient, generated]
  simp only [derived, wraps]
  exact ⟨_, rfl⟩

/-- Anyone can pack an anoncrypt message under a header that names a sender:
`Unpack` reports that sender, and the key came from an exchange the sender has
no part in. -/
theorem message_in_any_name (crypto : Crypto) (lawful : crypto.Lawful) (works : crypto.Works)
    (text : Bytes) (header : ProtectedHeader) (read : readProtected text = .ok header)
    (unused : NamesUnusedSender header) (senderPub : Key32) :
    ∃ bytes envelope recipKeyFn message opened,
      (unmarshal bytes).bind readEnvelope = some envelope ∧ envelope.protectedHeader = text ∧
        unpackOpened crypto bytes recipKeyFn (some fun _ => some senderPub) =
          .ok (message, header.skid, opened) ∧ opened.source = .ecdhES := by
  obtain ⟨drawn, ephPriv, ephPub, recipPriv, recipPub, z, generated, recipKey, exchanged⟩ :=
    works.exchange
  obtain ⟨cek, iv, message, nonce, seals⟩ := works.seals
  obtain ⟨anoncrypt, named, decodes⟩ := unused
  obtain ⟨apv, decoded⟩ := Option.isSome_iff_exists.mp decodes
  have carried : coerce text = text := by
    cases protJSON : Base64.decode text with
    | none => simp [readProtected, protJSON] at read
    | some bytes => exact coerce_of_decode text bytes protJSON
  obtain ⟨packed, packs⟩ := packRecipient_anoncrypt crypto header apv decoded cek drawn ephPriv
    ephPub recipPub z generated exchanged []
  obtain ⟨kek, opens⟩ := openRecipient_anoncrypt crypto lawful header anoncrypt senderPub cek
    (some drawn) ⟨[], recipPub⟩ packed packs (fun _ => some recipPriv) recipPriv rfl recipKey
  obtain ⟨envelope, content⟩ : ∃ envelope,
      packContent crypto cek iv message text [packed] = .ok envelope := by
    obtain ⟨sealed, sealing⟩ := seals text
    simp only [packContent, sealing]
    exact ⟨_, rfl⟩
  obtain ⟨carries, listed, opensContent⟩ := openContent_of_packContent crypto lawful cek iv message
    text [packed] envelope nonce carried content
  have coercedText : envelope.coerced.protectedHeader = text := by
    rw [Envelope.coerced, carries, carried]
  have coercedList : envelope.coerced.recipients = [packed.coerced] := by
    rw [Envelope.coerced, listed]
    rfl
  have resolved : resolveSender header.skid (some fun _ => some senderPub) = .ok senderPub := by
    simp only [resolveSender, if_pos named]
  have parsed := envelope_reads_back envelope
  refine ⟨marshal envelope.json, envelope.coerced, fun _ => some recipPriv, message,
    ⟨.ecdhES, kek, cek⟩, parsed, coercedText, ?_, rfl⟩
  simp only [unpackOpened, parsed, unpackParsed, coercedText, read, resolved, coercedList,
    List.findSome?_cons, opens, opensContent, bind, Except.bind]

/-- Whatever envelope comes with a protected header, the sender that is
reported is the one the key was derived from, exactly when the header does not
name a sender under the anoncrypt algorithm. -/
theorem sender_bound_iff (crypto : Crypto) (lawful : crypto.Lawful) (works : crypto.Works)
    (text : Bytes) (header : ProtectedHeader) (read : readProtected text = .ok header) :
    (∀ bytes envelope recipKeyFn senderPubFn,
      (unmarshal bytes).bind readEnvelope = some envelope → envelope.protectedHeader = text →
      SenderBound crypto bytes recipKeyFn senderPubFn) ↔ ¬ NamesUnusedSender header := by
  constructor
  · intro bound unused
    obtain ⟨bytes, envelope, recipKeyFn, message, opened, parsed, carries, run, source⟩ :=
      message_in_any_name crypto lawful works text header read unused zeroKey
    obtain ⟨resolve, senderPub, _, _, derived⟩ := bound bytes envelope recipKeyFn _ parsed carries
      envelope header message header.skid opened parsed (carries ▸ read) run unused.2.1
    have claimed := derived.1
    rw [source] at claimed
    exact absurd claimed (by simp)
  · intro used bytes envelope recipKeyFn senderPubFn parsed carries
    exact senderBound_of_header crypto bytes envelope header parsed (carries ▸ read) used
      recipKeyFn senderPubFn

theorem addingCrypto_works : addingCrypto.Works where
  exchange := ⟨zeroKey, clamp zeroKey, addKeys (clamp zeroKey) basepoint, zeroKey,
    addKeys zeroKey basepoint, addKeys (clamp zeroKey) (addKeys zeroKey basepoint), rfl, rfl, rfl⟩
  seals := ⟨zeroKey, List.replicate 24 0, [104], rfl, fun _ => ⟨_, rfl⟩⟩

/-- The header of an authcrypt message from `alice`. -/
def authcryptHeader : ProtectedHeader :=
  ⟨mediaTypeEncrypted, algAuthcrypt, encXC20P, ascii "alice", Base64.encode (ascii "alice"), []⟩

/-- The header of an anoncrypt message that names `alice`. -/
def forgedHeader : ProtectedHeader :=
  ⟨mediaTypeEncrypted, algAnoncrypt, encXC20P, ascii "alice", [], []⟩

theorem authcryptHeader_coerced : authcryptHeader.coerced = authcryptHeader := by
  simp only [authcryptHeader, ProtectedHeader.coerced, mediaTypeEncrypted, algAuthcrypt, encXC20P,
    coerce_ascii, coerce_encode, coerce_nil]

theorem forgedHeader_coerced : forgedHeader.coerced = forgedHeader := by
  simp only [forgedHeader, ProtectedHeader.coerced, mediaTypeEncrypted, algAnoncrypt, encXC20P,
    coerce_ascii, coerce_nil]

/-- Every envelope with the authcrypt header of `alice` is bound to her key. -/
theorem authcrypt_from_alice_is_bound :
    ¬ NamesUnusedSender authcryptHeader ∧
      ∀ bytes envelope recipKeyFn senderPubFn,
        (unmarshal bytes).bind readEnvelope = some envelope →
        envelope.protectedHeader = Base64.encode (marshal authcryptHeader.json) →
        SenderBound addingCrypto bytes recipKeyFn senderPubFn := by
  have used : ¬ NamesUnusedSender authcryptHeader := by
    intro unused
    exact absurd unused.1 (by decide)
  have read := readProtected_marshal authcryptHeader
  rw [authcryptHeader_coerced] at read
  exact ⟨used, (sender_bound_iff addingCrypto addingCrypto_lawful addingCrypto_works _
    authcryptHeader read).mpr used⟩

/-- A message that was packed without any key of `alice` and is reported as
coming from her. -/
theorem anoncrypt_in_alices_name :
    ∃ bytes recipKeyFn message opened,
      unpackOpened addingCrypto bytes recipKeyFn (some fun _ => some basepoint) =
          .ok (message, ascii "alice", opened) ∧
        opened.source = .ecdhES ∧
        ¬ SenderBound addingCrypto bytes recipKeyFn (some fun _ => some basepoint) := by
  have read := readProtected_marshal forgedHeader
  rw [forgedHeader_coerced] at read
  have named : ascii "alice" ≠ [] := by decide
  have unused : NamesUnusedSender forgedHeader := ⟨rfl, named, rfl⟩
  obtain ⟨bytes, envelope, recipKeyFn, message, opened, parsed, carries, run, source⟩ :=
    message_in_any_name addingCrypto addingCrypto_lawful addingCrypto_works _ forgedHeader read
      unused basepoint
  refine ⟨bytes, recipKeyFn, message, opened, run, source, ?_⟩
  intro bound
  obtain ⟨resolve, senderPub, _, _, derived⟩ := bound envelope forgedHeader message (ascii "alice")
    opened parsed (carries ▸ read) run named
  have claimed := derived.1
  rw [source] at claimed
  exact absurd claimed (by simp)

end Pantheon.Identity.DidComm
