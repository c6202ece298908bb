import Mathlib
import Pantheon.Identity.DidComm

/-!
# A packed message is unpacked

Both sides derive the same key-encryption key from the header that travels
with the message, so the first entry whose private key is at hand gives the
content key.
-/

set_option autoImplicit false

namespace Pantheon.Identity.DidComm

open Pantheon.Lib

/-! ## Texts that travel unchanged -/

theorem ascii_char_bytes : ∀ code < 128,
    String.utf8EncodeChar (Char.ofNat code) = [UInt8.ofNat code] := by
  decide

theorem coerce_of_small (bytes : Bytes) (small : ∀ byte ∈ bytes, byte < 128) :
    coerce bytes = bytes := by
  have chars : ofChars (bytes.map fun byte => Char.ofNat byte.toNat) = bytes := by
    rw [ofChars, utf8Bytes_ofList]
    induction bytes with
    | nil => rfl
    | cons byte bytes ih =>
        have first := ascii_char_bytes byte.toNat
          (UInt8.lt_iff_toNat_lt.mp (small byte List.mem_cons_self))
        rw [List.map_cons, List.flatMap_cons, first,
          ih fun other member => small other (List.mem_cons_of_mem _ member), UInt8.ofNat_toNat]
        rfl
  rw [← chars, coerce_ofChars]

@[simp] theorem coerce_encode (bytes : Bytes) :
    coerce (Base64.encode bytes) = Base64.encode bytes :=
  coerce_of_small _ fun byte member => (Base64.mem_encode bytes byte member).2.2.2.2

@[simp] theorem key32?_val (key : Key32) : key32? key.1 = some key := by
  rw [key32?, dif_pos key.2]

/-! ## Both sides derive the same key -/

section Agreement

variable (crypto : Crypto) (lawful : crypto.Lawful)

include lawful

theorem generateX25519_pub (drawn : Option Key32) (ephPriv ephPub recipPriv recipPub : Key32)
    (generated : generateX25519 crypto drawn = some (ephPriv, ephPub))
    (recipient : crypto.x25519 recipPriv basepoint = some recipPub) :
    crypto.x25519 recipPriv ephPub = crypto.x25519 ephPriv recipPub := by
  obtain ⟨bytes, _, generated⟩ := Option.bind_eq_some_iff.mp generated
  obtain ⟨pub, isPub, generated⟩ := Option.bind_eq_some_iff.mp generated
  cases Option.some.inj generated
  exact lawful.commutes _ _ _ _ recipient isPub

/-- The key the recipient derives from what travels is the one the sender
wrapped under, and the source it notes is the sender's. -/
theorem deriveKek_of_packKek (recipients : List Recipient) (sender : Option Sender)
    (senderPub : Key32)
    (senderKey : ∀ senderKID senderPriv, sender = some (senderKID, senderPriv) →
      crypto.x25519 senderPriv basepoint = some senderPub)
    (drawn : Option Key32) (ephPriv ephPub recipPriv recipPub kek : Key32)
    (generated : generateX25519 crypto drawn = some (ephPriv, ephPub))
    (recipient : crypto.x25519 recipPriv basepoint = some recipPub)
    (packed : packKek crypto (headerFor crypto recipients sender) sender ephPriv recipPub =
      some kek) :
    ∃ source, deriveKek crypto (headerFor crypto recipients sender).coerced senderPub recipPriv
      ephPub = some (source, kek) := by
  have exchanged := generateX25519_pub crypto lawful drawn ephPriv ephPub recipPriv recipPub
    generated recipient
  cases sender with
  | none =>
      refine ⟨.ecdhES, ?_⟩
      simp only [headerFor, ProtectedHeader.coerced, algAnoncrypt, coerce_ascii, apvOf,
        coerce_encode] at packed ⊢
      simp only [packKek, ecdhESKEKSender] at packed
      simp only [deriveKek, algAnoncrypt, if_true, ecdhESKEKRecipient, exchanged, packed,
        Option.bind_eq_bind, Option.bind_some]
  | some sender =>
      obtain ⟨senderKID, senderPriv⟩ := sender
      have sent := lawful.commutes _ _ _ _ recipient (senderKey senderKID senderPriv rfl)
      have other : ascii "ECDH-1PU+A256KW" ≠ ascii "ECDH-ES+A256KW" := by decide
      refine ⟨.ecdh1PU senderPub, ?_⟩
      simp only [headerFor, ProtectedHeader.coerced, algAuthcrypt, coerce_ascii, apvOf,
        coerce_encode] at packed ⊢
      simp only [packKek, ecdh1PUKEKSender, Option.bind_eq_bind] at packed
      simp only [deriveKek, algAnoncrypt, algAuthcrypt, if_neg other, if_true,
        ecdh1PUKEKRecipient, exchanged, sent, packed, Option.bind_eq_bind, Option.bind_some]

omit lawful in
/-- What a packed entry is made of. -/
theorem packRecipient_ok {header : ProtectedHeader} {sender : Option Sender} {cek : Key32}
    {drawn : Option Key32} {recipient : Recipient} {packed : JweRecip}
    (run : packRecipient crypto header sender cek drawn recipient = .ok packed) :
    ∃ ephPriv ephPub kek wrapped, generateX25519 crypto drawn = some (ephPriv, ephPub) ∧
      packKek crypto header sender ephPriv recipient.pubKey = some kek ∧
      aesKeyWrap crypto.aes kek.1 cek.1 = .ok wrapped ∧
      packed = ⟨⟨recipient.kid, some ⟨ascii "OKP", ascii "X25519", Base64.encode ephPub.1⟩⟩,
        Base64.encode wrapped⟩ := by
  unfold packRecipient at run
  cases generated : generateX25519 crypto drawn with
  | none => simp [generated] at run
  | some pair =>
      cases derived : packKek crypto header sender pair.1 recipient.pubKey with
      | none => simp [generated, derived] at run
      | some kek =>
          cases wrapped : aesKeyWrap crypto.aes kek.1 cek.1 with
          | error error => simp [generated, derived, wrapped] at run
          | ok bytes =>
              simp only [generated, derived, wrapped, Except.ok.injEq] at run
              exact ⟨pair.1, pair.2, kek, bytes, rfl, derived, wrapped, run.symm⟩

theorem openRecipient_of_packRecipient (recipients : List Recipient) (sender : Option Sender)
    (senderPub : Key32)
    (senderKey : ∀ senderKID senderPriv, sender = some (senderKID, senderPriv) →
      crypto.x25519 senderPriv basepoint = some senderPub)
    (cek : Key32) (drawn : Option Key32) (recipient : Recipient) (packed : JweRecip)
    (run : packRecipient crypto (headerFor crypto recipients sender) sender cek drawn recipient =
      .ok packed)
    (recipKeyFn : Bytes → Option Key32) (recipPriv : Key32)
    (held : recipKeyFn (coerce recipient.kid) = some recipPriv)
    (recipKey : crypto.x25519 recipPriv basepoint = some recipient.pubKey) :
    ∃ opened, openRecipient crypto (headerFor crypto recipients sender).coerced senderPub
      recipKeyFn packed.coerced = some opened ∧ opened.cek = cek := by
  obtain ⟨ephPriv, ephPub, kek, bytes, generated, derived, wrapped, rfl⟩ :=
    packRecipient_ok crypto run
  obtain ⟨source, same⟩ := deriveKek_of_packKek crypto lawful recipients sender senderPub senderKey
    drawn ephPriv ephPub recipPriv recipient.pubKey kek generated recipKey derived
  have unwrapped := aesKeyUnwrap_of_aesKeyWrap crypto.aes kek.1 cek.1 bytes wrapped
  refine ⟨⟨source, kek, cek⟩, ?_, rfl⟩
  simp only [openRecipient, JweRecip.coerced, Option.map_some, JwkOKP.coerced, held,
    coerce_encode, Base64.decode_encode, key32?_val, same, unwrapped, Except.toOption,
    Option.bind_eq_bind, Option.bind_some]

/-- The keys at hand are those of the recipients: for each of them none, or
its own. -/
def HoldsOwnKeys (recipKeyFn : Bytes → Option Key32) (recipients : List Recipient) : Prop :=
  ∀ recipient ∈ recipients, recipKeyFn (coerce recipient.kid) = none ∨
    ∃ recipPriv, recipKeyFn (coerce recipient.kid) = some recipPriv ∧
      crypto.x25519 recipPriv basepoint = some recipient.pubKey

omit lawful in
theorem openRecipient_unheld (recipients : List Recipient) (sender : Option Sender)
    (senderPub : Key32) (cek : Key32) (drawn : Option Key32) (recipient : Recipient)
    (packed : JweRecip)
    (run : packRecipient crypto (headerFor crypto recipients sender) sender cek drawn recipient =
      .ok packed)
    (recipKeyFn : Bytes → Option Key32) (unheld : recipKeyFn (coerce recipient.kid) = none) :
    openRecipient crypto (headerFor crypto recipients sender).coerced senderPub recipKeyFn
      packed.coerced = none := by
  obtain ⟨_, _, _, _, _, _, _, rfl⟩ := packRecipient_ok crypto run
  simp only [openRecipient, JweRecip.coerced, unheld, Option.bind_eq_bind, Option.bind_none]

/-- Some entry is opened as soon as one recipient's key is at hand, and it
gives the content key. -/
theorem findSome_of_packRecipients (recipients : List Recipient) (sender : Option Sender)
    (senderPub : Key32)
    (senderKey : ∀ senderKID senderPriv, sender = some (senderKID, senderPriv) →
      crypto.x25519 senderPriv basepoint = some senderPub)
    (cek : Key32) (ephemeral : Nat → Option Key32) (recipKeyFn : Bytes → Option Key32)
    (listed : List Recipient) : ∀ (index : Nat) (packed : List JweRecip),
    packRecipients crypto (headerFor crypto recipients sender) sender cek ephemeral index listed =
      .ok packed →
    HoldsOwnKeys crypto recipKeyFn listed →
    (∃ recipient ∈ listed, recipKeyFn (coerce recipient.kid) ≠ none) →
    ∃ opened, (packed.map JweRecip.coerced).findSome? (openRecipient crypto
      (headerFor crypto recipients sender).coerced senderPub recipKeyFn) = some opened ∧
      opened.cek = cek := by
  induction listed with
  | nil =>
      intro index packed _ _ ⟨recipient, member, _⟩
      exact absurd member List.not_mem_nil
  | cons head listed ih =>
      intro index packed run own ⟨recipient, member, held⟩
      unfold packRecipients at run
      cases first : packRecipient crypto (headerFor crypto recipients sender) sender cek
          (ephemeral index) head with
      | error error => simp [first, bind, Except.bind] at run
      | ok entry =>
          cases later : packRecipients crypto (headerFor crypto recipients sender) sender cek
              ephemeral (index + 1) listed with
          | error error => simp [first, later, bind, Except.bind] at run
          | ok entries =>
              simp only [first, later, bind, Except.bind, Except.ok.injEq] at run
              subst run
              rw [List.map_cons, List.findSome?_cons]
              rcases own head List.mem_cons_self with unheld | ⟨recipPriv, isHeld, recipKey⟩
              · rw [openRecipient_unheld crypto recipients sender senderPub cek _ head entry first
                  recipKeyFn unheld]
                apply ih (index + 1) entries later
                · intro other otherMember
                  exact own other (List.mem_cons_of_mem _ otherMember)
                · rcases List.mem_cons.mp member with rfl | member
                  · exact absurd unheld held
                  · exact ⟨recipient, member, held⟩
              · obtain ⟨opened, found, exact⟩ := openRecipient_of_packRecipient crypto lawful
                  recipients sender senderPub senderKey cek _ head entry first recipKeyFn recipPriv
                  isHeld recipKey
                rw [found]
                exact ⟨opened, rfl, exact⟩

theorem openContent_of_packContent (cek : Key32) (iv message protB64 : Bytes)
    (packed : List JweRecip) (envelope : Envelope) (nonce : iv.length = 24)
    (carried : coerce protB64 = protB64)
    (run : packContent crypto cek iv message protB64 packed = .ok envelope) :
    envelope.protectedHeader = protB64 ∧ envelope.recipients = packed ∧
      openContent crypto envelope.coerced cek = .ok message := by
  unfold packContent at run
  cases sealing : crypto.sealWith cek iv message protB64 with
  | none => simp [sealing] at run
  | some sealed =>
      simp only [sealing, Except.ok.injEq] at run
      have opened := lawful.opens _ _ _ _ _ sealing
      subst run
      refine ⟨rfl, rfl, ?_⟩
      simp only [openContent, Envelope.coerced, coerce_encode, carried, Base64.decode_encode,
        if_neg (not_not.mpr nonce), List.take_append_drop, opened]

omit lawful in
theorem readProtected_marshal (header : ProtectedHeader) :
    readProtected (Base64.encode (marshal header.json)) = .ok header.coerced := by
  simp only [readProtected, Base64.decode_encode, header_reads_back]

/-- The sender's key as the recipient resolves it: an anoncrypt message has no
sender to resolve. -/
def Resolves (sender : Option Sender) (senderPubFn : Option (Bytes → Option Key32)) : Prop :=
  ∀ senderKID senderPriv, sender = some (senderKID, senderPriv) → coerce senderKID ≠ [] ∧
    ∃ resolve senderPub, senderPubFn = some resolve ∧
      resolve (coerce senderKID) = some senderPub ∧
      crypto.x25519 senderPriv basepoint = some senderPub

def senderKid : Option Sender → Bytes
  | none => []
  | some (senderKID, _) => senderKID

omit lawful in
/-- The sender's key id is the header's, and resolving it gives the key whose
private half packed the message. -/
theorem resolveSender_of_resolves (recipients : List Recipient) (sender : Option Sender)
    (senderPubFn : Option (Bytes → Option Key32)) (resolves : Resolves crypto sender senderPubFn) :
    (headerFor crypto recipients sender).coerced.skid = coerce (senderKid sender) ∧
      ∃ senderPub, resolveSender (coerce (senderKid sender)) senderPubFn = .ok senderPub ∧
        ∀ senderKID senderPriv, sender = some (senderKID, senderPriv) →
          crypto.x25519 senderPriv basepoint = some senderPub := by
  cases sender with
  | none =>
      refine ⟨rfl, zeroKey, ?_, ?_⟩
      · simp only [senderKid, coerce_nil, resolveSender, ne_eq, not_true_eq_false, if_false]
      · intro senderKID senderPriv impossible
        exact absurd impossible (by simp)
  | some sender =>
      obtain ⟨senderKID, senderPriv⟩ := sender
      obtain ⟨named, resolve, senderPub, given, resolved, isPub⟩ := resolves _ _ rfl
      refine ⟨rfl, senderPub, ?_, ?_⟩
      · simp only [resolveSender, senderKid, if_pos named, given, resolved]
      · intro otherKID otherPriv same
        cases Option.some.inj same
        exact isPub

/-- A packed envelope is unpacked to its message by anyone who holds the key
of a recipient and no wrong one; key ids travel as text. -/
theorem unpack_of_packEnvelope (draws : Draws) (message : Bytes) (recipients : List Recipient)
    (sender : Option Sender) (bytes : Bytes)
    (run : packEnvelope crypto draws message recipients sender = .ok bytes)
    (recipKeyFn : Bytes → Option Key32) (senderPubFn : Option (Bytes → Option Key32))
    (own : HoldsOwnKeys crypto recipKeyFn recipients)
    (held : ∃ recipient ∈ recipients, recipKeyFn (coerce recipient.kid) ≠ none)
    (resolves : Resolves crypto sender senderPubFn) :
    unpack crypto bytes recipKeyFn senderPubFn = .ok (message, coerce (senderKid sender)) := by
  obtain ⟨skid, senderPub, resolved, senderKey⟩ :=
    resolveSender_of_resolves crypto recipients sender senderPubFn resolves
  unfold packEnvelope at run
  split_ifs at run
  dsimp only at run
  cases drawnCek : draws.cek with
  | none => simp [drawnCek] at run
  | some cek =>
      simp only [drawnCek] at run
      cases entries : packRecipients crypto (headerFor crypto recipients sender) sender cek
          draws.ephemeral 0 recipients with
      | error error => simp [entries, bind, Except.bind] at run
      | ok packed =>
          cases drawnIv : draws.iv with
          | none => simp [entries, drawnIv, bind, Except.bind] at run
          | some iv =>
              cases content : packContent crypto cek iv message
                  (Base64.encode (marshal (headerFor crypto recipients sender).json)) packed with
              | error error => simp [entries, drawnIv, content, bind, Except.bind] at run
              | ok envelope =>
                  simp only [entries, drawnIv, content, bind, Except.bind, Except.ok.injEq] at run
                  obtain ⟨header, listed, opens⟩ := openContent_of_packContent crypto lawful cek iv
                    message _ packed envelope (draws.length_iv iv drawnIv) (coerce_encode _) content
                  obtain ⟨opened, found, cekExact⟩ := findSome_of_packRecipients crypto lawful
                    recipients sender senderPub senderKey cek draws.ephemeral recipKeyFn recipients
                    0 packed entries own held
                  have parsed : unpackParsed crypto envelope.coerced recipKeyFn senderPubFn =
                      .ok (message, coerce (senderKid sender), opened) := by
                    simp only [unpackParsed, Envelope.coerced, header, coerce_encode,
                      readProtected_marshal, bind, Except.bind, skid, resolved, listed, found]
                    simp only [Envelope.coerced, header, coerce_encode] at opens
                    rw [cekExact]
                    simp only [listed] at opens
                    rw [opens]
                  rw [unpack, unpackOpened, ← run, envelope_reads_back]
                  simp only [parsed, Except.map]

end Agreement

/-! ## Messages for recipients named by text -/

def IsText (bytes : Bytes) : Prop := ∃ text : String, utf8Bytes text = bytes

theorem coerce_of_isText (bytes : Bytes) (text : IsText bytes) : coerce bytes = bytes := by
  obtain ⟨text, rfl⟩ := text
  exact coerce_ascii text

def onlyKey (kid : Bytes) (recipPriv : Key32) : Bytes → Option Key32 := fun other =>
  if other = kid then some recipPriv else none

/-- The recipients' key ids are texts, and one of them stands for one key. -/
structure Named (recipients : List Recipient) (recipient : Recipient) : Prop where
  listed : recipient ∈ recipients
  text : ∀ other ∈ recipients, IsText other.kid
  own : ∀ other ∈ recipients, other.kid = recipient.kid → other.pubKey = recipient.pubKey

theorem onlyKey_holdsOwnKeys (crypto : Crypto) (recipients : List Recipient)
    (recipient : Recipient) (named : Named recipients recipient) (recipPriv : Key32)
    (recipKey : crypto.x25519 recipPriv basepoint = some recipient.pubKey) :
    HoldsOwnKeys crypto (onlyKey recipient.kid recipPriv) recipients := by
  intro other member
  rw [coerce_of_isText other.kid (named.text other member), onlyKey]
  by_cases same : other.kid = recipient.kid
  · right
    refine ⟨recipPriv, if_pos same, ?_⟩
    rw [named.own other member same]
    exact recipKey
  · left
    exact if_neg same

theorem onlyKey_held (recipients : List Recipient) (recipient : Recipient)
    (named : Named recipients recipient) (recipPriv : Key32) :
    ∃ other ∈ recipients, onlyKey recipient.kid recipPriv (coerce other.kid) ≠ none := by
  refine ⟨recipient, named.listed, ?_⟩
  rw [coerce_of_isText recipient.kid (named.text recipient named.listed), onlyKey, if_pos rfl]
  simp

/-- With key ids that are texts, one key under each: what is packed, with or
without a sender, is unpacked by every recipient to the message and the
sender's key id; and what is wrapped is unwrapped. -/
theorem packed_messages_are_unpacked (crypto : Crypto) (lawful : crypto.Lawful) :
    (∀ (draws : Draws) (message : Bytes) (recipients : List Recipient) (bytes : Bytes)
      (recipient : Recipient) (recipPriv : Key32) (senderPubFn : Option (Bytes → Option Key32)),
      packAnoncrypt crypto draws message recipients = .ok bytes → Named recipients recipient →
      crypto.x25519 recipPriv basepoint = some recipient.pubKey →
      unpack crypto bytes (onlyKey recipient.kid recipPriv) senderPubFn = .ok (message, [])) ∧
    (∀ (draws : Draws) (message : Bytes) (recipients : List Recipient) (senderKID : Bytes)
      (senderPriv senderPub : Key32) (bytes : Bytes) (recipient : Recipient) (recipPriv : Key32)
      (senderPubFn : Bytes → Option Key32),
      packAuthcrypt crypto draws message recipients senderKID senderPriv = .ok bytes →
      Named recipients recipient → crypto.x25519 recipPriv basepoint = some recipient.pubKey →
      senderKID ≠ [] → IsText senderKID → senderPubFn senderKID = some senderPub →
      crypto.x25519 senderPriv basepoint = some senderPub →
      unpack crypto bytes (onlyKey recipient.kid recipPriv) (some senderPubFn) =
        .ok (message, senderKID)) ∧
    ∀ kek plaintext : Bytes, validKeySize kek → 16 ≤ plaintext.length →
      plaintext.length % 8 = 0 →
      ∃ wrapped, aesKeyWrap crypto.aes kek plaintext = .ok wrapped ∧
        aesKeyUnwrap crypto.aes kek wrapped = .ok plaintext := by
  refine ⟨?_, ?_, ?_⟩
  · intro draws message recipients bytes recipient recipPriv senderPubFn packed named recipKey
    have unpacked := unpack_of_packEnvelope crypto lawful draws message recipients none bytes packed
      (onlyKey recipient.kid recipPriv) senderPubFn
      (onlyKey_holdsOwnKeys crypto recipients recipient named recipPriv recipKey)
      (onlyKey_held recipients recipient named recipPriv)
      (by intro senderKID senderPriv impossible; exact absurd impossible (by simp))
    rwa [senderKid, coerce_nil] at unpacked
  · intro draws message recipients senderKID senderPriv senderPub bytes recipient recipPriv
      senderPubFn packed named recipKey nonempty text resolved senderKey
    have carried := coerce_of_isText senderKID text
    have unpacked := unpack_of_packEnvelope crypto lawful draws message recipients
      (some (senderKID, senderPriv)) bytes packed
      (onlyKey recipient.kid recipPriv) (some senderPubFn)
      (onlyKey_holdsOwnKeys crypto recipients recipient named recipPriv recipKey)
      (onlyKey_held recipients recipient named recipPriv)
      (by
        intro otherKID otherPriv same
        cases Option.some.inj same
        rw [carried]
        exact ⟨nonempty, senderPubFn, senderPub, rfl, resolved, senderKey⟩)
    rwa [senderKid, carried] at unpacked
  · intro kek plaintext size long whole
    exact aesKeyUnwrap_aesKeyWrap crypto.aes kek plaintext size long whole

/-! ## A concrete suite

The exchange adds the keys byte by byte, the hash keeps the first bytes of the
secret, the block cipher adds the key to the lower half of a block, and the
tag is the first half of the content key. -/

def addBytes (left right : Bytes) : Bytes := List.zipWith (· + ·) left right

def subBytes (left right : Bytes) : Bytes := List.zipWith (· - ·) left right

theorem addBytes_length (left right : Bytes) (same : left.length = right.length) :
    (addBytes left right).length = right.length := by
  rw [addBytes, List.length_zipWith, same, min_self]

theorem subBytes_addBytes (left : Bytes) : ∀ right : Bytes, left.length = right.length →
    subBytes (addBytes left right) right = left := by
  induction left with
  | nil => intro right _; rfl
  | cons byte left ih =>
      intro right same
      cases right with
      | nil => exact absurd same (by simp)
      | cons other right =>
          have rest := ih right (Nat.succ.inj same)
          simp only [subBytes, addBytes, List.zipWith_cons_cons] at rest ⊢
          rw [rest, UInt8.add_sub_cancel]

theorem addBytes_left_comm (left : Bytes) : ∀ middle right : Bytes,
    addBytes left (addBytes middle right) = addBytes middle (addBytes left right) := by
  induction left with
  | nil =>
      intro middle right
      simp [addBytes]
  | cons byte left ih =>
      intro middle right
      cases middle with
      | nil => simp [addBytes]
      | cons second middle =>
          cases right with
          | nil => simp [addBytes]
          | cons third right =>
              have rest := ih middle right
              simp only [addBytes, List.zipWith_cons_cons] at rest ⊢
              rw [rest, ← UInt8.add_assoc, ← UInt8.add_assoc, UInt8.add_comm byte second]

/-- The first eight bytes of a key, with zeros for those it does not have. -/
def keyHalf (key : Bytes) : Bytes := (key ++ List.replicate 8 0).take 8

theorem keyHalf_length (key : Bytes) : (keyHalf key).length = 8 := by
  rw [keyHalf, List.length_take, List.length_append, List.length_replicate]
  omega

def addingAes : Aes where
  encrypt := fun key block => block.take 8 ++ addBytes (block.drop 8) (keyHalf key)
  decrypt := fun key block => block.take 8 ++ subBytes (block.drop 8) (keyHalf key)
  length_encrypt := by
    intro key block width
    have half := keyHalf_length key
    rw [List.length_append, addBytes_length _ _ (by rw [List.length_drop]; omega),
      List.length_take]
    omega
  decrypt_encrypt := by
    intro key block width
    have half := keyHalf_length key
    have front : (block.take 8).length = 8 := by
      rw [List.length_take]
      omega
    rw [List.take_left' front, List.drop_left' front,
      subBytes_addBytes _ _ (by rw [List.length_drop]; omega), List.take_append_drop]

def addKeys (left right : Key32) : Key32 :=
  ⟨addBytes left.1 right.1, (addBytes_length left.1 right.1 (left.2.trans right.2.symm)).trans right.2⟩

def addingCrypto : Crypto where
  aes := addingAes
  x25519 := fun scalar point => some (addKeys scalar point)
  sha256 := fun bytes => ⟨(bytes.drop 4 ++ List.replicate 32 0).take 32, by
    rw [List.length_take, List.length_append, List.length_replicate]
    omega⟩
  sealWith := fun key _ message _ => some (message ++ key.1.take 16)
  openWith := fun key _ sealed _ =>
    if sealed.drop (sealed.length - 16) = key.1.take 16 then
      some (sealed.take (sealed.length - 16))
    else none

theorem addingCrypto_lawful : addingCrypto.Lawful where
  commutes := by
    intro left right leftPub rightPub leftKey rightKey
    cases Option.some.inj leftKey
    cases Option.some.inj rightKey
    apply congrArg some
    apply Subtype.ext
    exact addBytes_left_comm left.1 right.1 basepoint.1
  opens := by
    intro key nonce message aad sealed sealing
    cases Option.some.inj sealing
    have tag : (key.1.take 16).length = 16 := by
      rw [List.length_take, key.2]
      rfl
    have front : (message ++ key.1.take 16).length - 16 = message.length := by
      rw [List.length_append, tag]
      omega
    simp only [addingCrypto, front, List.drop_left, List.take_left, if_true]

def someDraws : Draws where
  cek := some ⟨(List.range 32).map UInt8.ofNat, rfl⟩
  ephemeral := fun _ => some ⟨(List.range 32).map UInt8.ofNat, rfl⟩
  iv := some (List.replicate 24 0)
  length_iv := by
    intro bytes drawn
    cases Option.some.inj drawn
    rfl

theorem addingCrypto_packsRecipient (recipients : List Recipient) (sender : Option Sender)
    (cek drawn : Key32) (recipient : Recipient) :
    ∃ packed, packRecipient addingCrypto (headerFor addingCrypto recipients sender) sender cek
      (some drawn) recipient = .ok packed := by
  have generated : generateX25519 addingCrypto (some drawn) =
      some (clamp drawn, addKeys (clamp drawn) basepoint) := rfl
  obtain ⟨kek, derived⟩ : ∃ kek, packKek addingCrypto (headerFor addingCrypto recipients sender)
      sender (clamp drawn) recipient.pubKey = some kek := by
    cases sender with
    | none =>
        have empty : Base64.decode [] = some [] := rfl
        simp only [packKek, headerFor, apvOf, ecdhESKEKSender, concatKDF, addingCrypto, empty,
          Base64.decode_encode, Option.bind_eq_bind, Option.bind_some]
        exact ⟨_, rfl⟩
    | some sender =>
        obtain ⟨senderKID, senderPriv⟩ := sender
        simp only [packKek, headerFor, apvOf, ecdh1PUKEKSender, concatKDF, addingCrypto,
          Base64.decode_encode, Option.bind_eq_bind, Option.bind_some]
        exact ⟨_, rfl⟩
  have size : validKeySize kek.1 := by
    rw [validKeySize, kek.2]
    rfl
  obtain ⟨wrapped, wraps, _⟩ := aesKeyUnwrap_aesKeyWrap addingCrypto.aes kek.1 cek.1 size
    (by rw [cek.2]; norm_num) (by rw [cek.2])
  rw [packRecipient, generated]
  simp only [derived, wraps]
  exact ⟨_, rfl⟩

theorem addingCrypto_packsRecipients (recipients : List Recipient) (sender : Option Sender)
    (cek : Key32) (listed : List Recipient) : ∀ index : Nat,
    ∃ packed, packRecipients addingCrypto (headerFor addingCrypto recipients sender) sender cek
      someDraws.ephemeral index listed = .ok packed := by
  induction listed with
  | nil => intro index; exact ⟨[], rfl⟩
  | cons recipient listed ih =>
      intro index
      obtain ⟨entry, first⟩ := addingCrypto_packsRecipient recipients sender cek
        ⟨(List.range 32).map UInt8.ofNat, rfl⟩ recipient
      obtain ⟨entries, later⟩ := ih (index + 1)
      refine ⟨entry :: entries, ?_⟩
      have drawn : someDraws.ephemeral index = some ⟨(List.range 32).map UInt8.ofNat, rfl⟩ := rfl
      simp only [packRecipients, drawn, first, later, bind, Except.bind]

theorem addingCrypto_packs (message : Bytes) (recipients : List Recipient)
    (sender : Option Sender) (nonempty : recipients ≠ []) :
    ∃ bytes, packEnvelope addingCrypto someDraws message recipients sender = .ok bytes := by
  obtain ⟨packed, entries⟩ := addingCrypto_packsRecipients recipients sender
    ⟨(List.range 32).map UInt8.ofNat, rfl⟩ recipients 0
  have listed : ¬ recipients.length = 0 := by
    rw [List.length_eq_zero_iff]
    exact nonempty
  have drawnCek : someDraws.cek = some ⟨(List.range 32).map UInt8.ofNat, rfl⟩ := rfl
  have drawnIv : someDraws.iv = some (List.replicate 24 0) := rfl
  have sealing (key : Key32) (nonce aad : Bytes) :
      addingCrypto.sealWith key nonce message aad = some (message ++ key.1.take 16) := rfl
  simp only [packEnvelope, if_neg listed, drawnCek, drawnIv, entries, packContent, sealing, bind,
    Except.bind]
  exact ⟨_, rfl⟩

theorem named_singleton (text : String) (pubKey : Key32) :
    Named [⟨ascii text, pubKey⟩] ⟨ascii text, pubKey⟩ := by
  refine ⟨List.mem_singleton_self _, ?_, ?_⟩
  · intro other member
    rw [List.mem_singleton.mp member]
    exact ⟨text, rfl⟩
  · intro other member _
    rw [List.mem_singleton.mp member]

/-- A message from `s` for `r` comes back with the sender's key id. -/
theorem message_for_r_is_unpacked :
    ∃ bytes, packAuthcrypt addingCrypto someDraws [104, 105]
        [⟨ascii "r", addKeys zeroKey basepoint⟩] (ascii "s") basepoint = .ok bytes ∧
      unpack addingCrypto bytes (onlyKey (ascii "r") zeroKey)
        (some fun _ => some (addKeys basepoint basepoint)) = .ok ([104, 105], ascii "s") := by
  obtain ⟨bytes, packed⟩ := addingCrypto_packs [104, 105]
    [⟨ascii "r", addKeys zeroKey basepoint⟩] (some (ascii "s", basepoint)) (by simp)
  refine ⟨bytes, packed, ?_⟩
  have named := named_singleton "r" (addKeys zeroKey basepoint)
  exact (packed_messages_are_unpacked addingCrypto addingCrypto_lawful).2.1 someDraws [104, 105] _
    (ascii "s") basepoint (addKeys basepoint basepoint) bytes _ zeroKey _ packed named rfl
    (by decide) ⟨"s", rfl⟩ rfl rfl

theorem coerce_ff : coerce [0xFF] = [0xEF, 0xBF, 0xBD] := by
  decide +kernel

/-- The content key and the ephemeral bytes of `someDraws`. -/
def numbers : Key32 := ⟨(List.range 32).map UInt8.ofNat, rfl⟩

theorem addingCrypto_kdf (z : Key32) (alg apv : Bytes) :
    concatKDF addingCrypto z.1 alg [] (Base64.encode apv) = some z := by
  have empty : Base64.decode [] = some [] := rfl
  have counter : (beBytes 4 1).length = 4 := beBytes_length 4 1
  simp only [concatKDF, empty, Base64.decode_encode, Option.bind_eq_bind, Option.bind_some,
    addingCrypto, kdfInput, List.append_assoc, List.drop_left' counter, Option.some.injEq]
  apply Subtype.ext
  exact List.take_left' z.2

/-- The content key as it is wrapped for the key `basepoint`. -/
def wrappedNumbers : Bytes :=
  (aesKeyWrap addingAes (addKeys (clamp numbers) basepoint).1 numbers.1).toOption.getD []

theorem wrappedNumbers_eq : aesKeyWrap addingAes (addKeys (clamp numbers) basepoint).1 numbers.1 =
    .ok wrappedNumbers := by
  decide +kernel

/-- Unwrapping it under the key of another private key passes the integrity
check and gives another content key. -/
def wrongNumbers : Key32 :=
  (key32? ((aesKeyUnwrap addingAes
    (addKeys numbers (addKeys (clamp numbers) basepoint)).1 wrappedNumbers).toOption.getD [])).getD
      zeroKey

theorem wrongNumbers_eq : aesKeyUnwrap addingAes
    (addKeys numbers (addKeys (clamp numbers) basepoint)).1 wrappedNumbers =
      .ok wrongNumbers.1 ∧ wrongNumbers.1.take 16 ≠ numbers.1.take 16 := by
  decide +kernel

theorem unpack_marshal (crypto : Crypto) (envelope : Envelope) (recipKeyFn : Bytes → Option Key32)
    (senderPubFn : Option (Bytes → Option Key32)) :
    unpack crypto (marshal envelope.json) recipKeyFn senderPubFn =
      (unpackParsed crypto envelope.coerced recipKeyFn senderPubFn).map fun result =>
        (result.1, result.2.1) := by
  rw [unpack, unpackOpened, envelope_reads_back]

/-- The entry of a recipient `r` with the public key `basepoint`. -/
def firstEntry : JweRecip :=
  ⟨⟨ascii "r", some ⟨ascii "OKP", ascii "X25519",
    Base64.encode (addKeys (clamp numbers) basepoint).1⟩⟩, Base64.encode wrappedNumbers⟩

theorem packRecipient_firstEntry (recipients : List Recipient) :
    packRecipient addingCrypto (headerFor addingCrypto recipients none) none numbers (some numbers)
      ⟨ascii "r", basepoint⟩ = .ok firstEntry := by
  have generated : generateX25519 addingCrypto (some numbers) =
      some (clamp numbers, addKeys (clamp numbers) basepoint) := rfl
  have exchanged : addingCrypto.x25519 (clamp numbers) basepoint =
      some (addKeys (clamp numbers) basepoint) := rfl
  have wraps : aesKeyWrap addingCrypto.aes (addKeys (clamp numbers) basepoint).1 numbers.1 =
      .ok wrappedNumbers := wrappedNumbers_eq
  simp only [packRecipient, generated, packKek, ecdhESKEKSender, headerFor, apvOf, exchanged,
    addingCrypto_kdf, Option.bind_eq_bind, Option.bind_some, wraps, firstEntry]

/-- The entry is opened with the private key `numbers`, which is not its
recipient's. -/
theorem openRecipient_firstEntry (recipients : List Recipient) :
    openRecipient addingCrypto (headerFor addingCrypto recipients none).coerced zeroKey
      (onlyKey (ascii "r") numbers) firstEntry.coerced =
      some ⟨.ecdhES, addKeys numbers (addKeys (clamp numbers) basepoint), wrongNumbers⟩ := by
  have exchanged : addingCrypto.x25519 numbers (addKeys (clamp numbers) basepoint) =
      some (addKeys numbers (addKeys (clamp numbers) basepoint)) := rfl
  have unwraps : aesKeyUnwrap addingCrypto.aes
      (addKeys numbers (addKeys (clamp numbers) basepoint)).1 wrappedNumbers =
        .ok wrongNumbers.1 := wrongNumbers_eq.1
  simp only [openRecipient, firstEntry, JweRecip.coerced, JwkOKP.coerced, Option.map_some,
    coerce_ascii, coerce_encode, onlyKey, if_true, Base64.decode_encode, key32?_val, deriveKek,
    headerFor, ProtectedHeader.coerced, algAnoncrypt, apvOf, ecdhESKEKRecipient, exchanged,
    addingCrypto_kdf, unwraps, Except.toOption, Option.bind_eq_bind, Option.bind_some]

theorem openWith_wrongNumbers (message nonce aad : Bytes) :
    addingCrypto.openWith wrongNumbers nonce (message ++ numbers.1.take 16) aad = none := by
  have tag : (numbers.1.take 16).length = 16 := rfl
  have front : (message ++ numbers.1.take 16).length - 16 = message.length := by
    rw [List.length_append, tag]
    omega
  have differs := wrongNumbers_eq.2.symm
  simp only [addingCrypto, front, List.drop_left, if_neg differs]

def twoUnderOne : List Recipient := [⟨ascii "r", basepoint⟩, ⟨ascii "r", addKeys numbers basepoint⟩]

def sharedEnvelope (message : Bytes) (second : JweRecip) : Envelope :=
  let sealed := message ++ numbers.1.take 16
  ⟨Base64.encode (marshal (headerFor addingCrypto twoUnderOne none).json), [firstEntry, second],
    Base64.encode (List.replicate 24 0), Base64.encode (sealed.take (sealed.length - overhead)),
    Base64.encode (sealed.drop (sealed.length - overhead))⟩

/-- The first entry is opened with the key of the second, and the content is
not. -/
theorem sharedEnvelope_fails (message : Bytes) (second : JweRecip) :
    unpack addingCrypto (marshal (sharedEnvelope message second).json)
      (onlyKey (ascii "r") numbers) none = .error .decryptContent := by
  have opensFirst := openRecipient_firstEntry twoUnderOne
  have nonce : ¬ (List.replicate 24 (0 : UInt8)).length ≠ 24 := by simp
  have noSender : resolveSender (headerFor addingCrypto twoUnderOne none).coerced.skid none =
      .ok zeroKey := by
    simp only [headerFor, ProtectedHeader.coerced, coerce_nil, resolveSender, ne_eq,
      not_true_eq_false, if_false]
  rw [unpack_marshal]
  simp only [sharedEnvelope, unpackParsed, Envelope.coerced, coerce_encode, readProtected_marshal,
    noSender, bind, Except.bind, List.map_cons, List.findSome?_cons, opensFirst, openContent,
    Base64.decode_encode, if_neg nonce, List.take_append_drop, openWith_wrongNumbers, Except.map]

theorem packAnoncrypt_twoUnderOne (message : Bytes) :
    ∃ second, packAnoncrypt addingCrypto someDraws message twoUnderOne =
      .ok (marshal (sharedEnvelope message second).json) := by
  obtain ⟨second, packsSecond⟩ := addingCrypto_packsRecipient twoUnderOne none numbers numbers
    ⟨ascii "r", addKeys numbers basepoint⟩
  have packsFirst := packRecipient_firstEntry twoUnderOne
  have entries : packRecipients addingCrypto (headerFor addingCrypto twoUnderOne none) none numbers
      someDraws.ephemeral 0 twoUnderOne = .ok [firstEntry, second] := by
    have drawn (index : Nat) : someDraws.ephemeral index = some numbers := rfl
    rw [twoUnderOne] at packsFirst packsSecond ⊢
    simp only [packRecipients, drawn, packsFirst, packsSecond, bind, Except.bind]
  have listed : ¬ twoUnderOne.length = 0 := by simp [twoUnderOne]
  have drawnCek : someDraws.cek = some numbers := rfl
  have drawnIv : someDraws.iv = some (List.replicate 24 0) := rfl
  have sealing (key : Key32) (nonce aad : Bytes) :
      addingCrypto.sealWith key nonce message aad = some (message ++ key.1.take 16) := rfl
  refine ⟨second, ?_⟩
  simp only [packAnoncrypt, packEnvelope, if_neg listed, drawnCek, entries, drawnIv, packContent,
    sealing, bind, Except.bind, sharedEnvelope]

/-- A sender's key id that is no text comes back changed, although the
sender's key is resolved; and where another recipient is listed under the same
key id, a recipient does not get the message. -/
theorem packed_message_is_not_unpacked :
    (∃ bytes, packAuthcrypt addingCrypto someDraws [104]
        [⟨ascii "r", addKeys zeroKey basepoint⟩] [0xFF] basepoint = .ok bytes ∧
      unpack addingCrypto bytes (onlyKey (ascii "r") zeroKey)
        (some fun _ => some (addKeys basepoint basepoint)) ≠ .ok ([104], [0xFF])) ∧
    ∃ bytes, packAnoncrypt addingCrypto someDraws [104]
        [⟨ascii "r", addKeys zeroKey basepoint⟩, ⟨ascii "r", addKeys numbers basepoint⟩] =
          .ok bytes ∧
      unpack addingCrypto bytes (onlyKey (ascii "r") numbers) none ≠ .ok ([104], []) := by
  constructor
  · obtain ⟨bytes, packed⟩ := addingCrypto_packs [104]
      [⟨ascii "r", addKeys zeroKey basepoint⟩] (some ([0xFF], basepoint)) (by simp)
    have named : Named [⟨ascii "r", addKeys zeroKey basepoint⟩]
        ⟨ascii "r", addKeys zeroKey basepoint⟩ := named_singleton "r" _
    have unpacked := unpack_of_packEnvelope addingCrypto addingCrypto_lawful someDraws [104] _
      (some ([0xFF], basepoint)) bytes packed (onlyKey (ascii "r") zeroKey)
      (some fun _ => some (addKeys basepoint basepoint))
      (onlyKey_holdsOwnKeys addingCrypto _ _ named zeroKey rfl)
      (onlyKey_held _ _ named zeroKey)
      (by
        intro senderKID senderPriv same
        cases Option.some.inj same
        rw [coerce_ff]
        exact ⟨by simp, _, addKeys basepoint basepoint, rfl, rfl, rfl⟩)
    rw [senderKid, coerce_ff] at unpacked
    refine ⟨bytes, packed, ?_⟩
    rw [unpacked]
    decide
  · obtain ⟨second, packed⟩ := packAnoncrypt_twoUnderOne [104]
    have same : addKeys zeroKey basepoint = basepoint := by decide
    refine ⟨_, by rw [same]; exact packed, ?_⟩
    rw [sharedEnvelope_fails]
    simp

end Pantheon.Identity.DidComm
