import Mathlib
import Pantheon.Lib.Bytes
import Pantheon.Lib.Utf8
import Pantheon.Lib.Base64
import Pantheon.Identity.KeyWrap
import Pantheon.Identity.DidCommEnvelope

/-!
# DIDComm messages: `pkg/didcomm/didcomm.go`

A message is encrypted under a random content key, and the content key is
wrapped for each recipient under a key derived from an ephemeral exchange
(anoncrypt) or from an ephemeral and the sender's exchange (authcrypt).  The
exchange, the hash and the content cipher are parameters.
-/

set_option autoImplicit false

namespace Pantheon.Identity.DidComm

open Pantheon.Lib

/-! ## Keys and the cryptographic functions -/

abbrev Key32 := { bytes : Bytes // bytes.length = 32 }

def key32? (bytes : Bytes) : Option Key32 :=
  if exact : bytes.length = 32 then some ⟨bytes, exact⟩ else none

/-- `x25519` fails on points of low order, `sealWith` on messages that are too
long for the cipher. -/
structure Crypto where
  aes : Aes
  x25519 : Key32 → Key32 → Option Key32
  sha256 : Bytes → Key32
  sealWith : Key32 → Bytes → Bytes → Bytes → Option Bytes
  openWith : Key32 → Bytes → Bytes → Bytes → Option Bytes

def basepoint : Key32 := ⟨9 :: List.replicate 31 0, rfl⟩

/-- Both sides of an exchange arrive at the same secret, and what was sealed
is opened under the same key, nonce and additional data. -/
structure Crypto.Lawful (crypto : Crypto) : Prop where
  commutes : ∀ left right leftPub rightPub : Key32,
    crypto.x25519 left basepoint = some leftPub → crypto.x25519 right basepoint = some rightPub →
    crypto.x25519 left rightPub = crypto.x25519 right leftPub
  opens : ∀ key nonce message aad sealed,
    crypto.sealWith key nonce message aad = some sealed →
    crypto.openWith key nonce sealed aad = some message

/-- The random bytes that packing draws: the content key, the bytes of the
ephemeral key of each recipient, and the nonce. -/
structure Draws where
  cek : Option Key32
  ephemeral : Nat → Option Key32
  iv : Option Bytes
  length_iv : ∀ bytes, iv = some bytes → bytes.length = 24

inductive DidCommError where
  | noRecipients
  | genCek
  | ephemKey
  | kek (kid : Bytes)
  | keyWrap (kid : Bytes) (error : KeyWrapError)
  | genIv
  | tooLong
  | parseEnvelope
  | decodeProtected
  | parseProtected
  | senderPubFnRequired
  | resolveSender (skid : Bytes)
  | noMatchingRecipient
  | decodeIv
  | decodeCiphertext
  | decodeTag
  | badNonce
  | decryptContent
deriving DecidableEq

/-- The text of an error, before that of the error it wraps.  `tooLong` and
`badNonce` are panics of the cipher. -/
def DidCommError.message : DidCommError → String
  | noRecipients => "didcomm: at least one recipient required"
  | genCek => "didcomm: gen cek: "
  | ephemKey => "didcomm: ephem key: "
  | kek kid => "didcomm: kek for " ++ fromUtf8Lossy kid ++ ": "
  | keyWrap kid error => "didcomm: key wrap for " ++ fromUtf8Lossy kid ++ ": " ++ error.message
  | genIv => "didcomm: gen iv: "
  | tooLong => "chacha20poly1305: plaintext too large"
  | parseEnvelope => "didcomm: parse envelope: "
  | decodeProtected => "didcomm: decode protected header: "
  | parseProtected => "didcomm: parse protected header: "
  | senderPubFnRequired => "didcomm: authcrypt envelope requires senderPubFn"
  | resolveSender skid => "didcomm: resolve sender key " ++ fromUtf8Lossy skid ++ ": "
  | noMatchingRecipient => "didcomm: no matching recipient key found"
  | decodeIv => "didcomm: decode iv: "
  | decodeCiphertext => "didcomm: decode ciphertext: "
  | decodeTag => "didcomm: decode tag: "
  | badNonce => "chacha20poly1305: bad nonce length passed to Open"
  | decryptContent => "didcomm: decrypt content: "

/-! ## Key agreement -/

/-- What the key derivation hashes: the counter, the secret, the three
length-prefixed texts and the number of bits wanted. -/
def kdfInput (z alg apu apv : Bytes) : Bytes :=
  beBytes 4 1 ++ z ++ beBytes 4 alg.length ++ alg ++ beBytes 4 apu.length ++ apu ++
    beBytes 4 apv.length ++ apv ++ beBytes 4 256

def concatKDF (crypto : Crypto) (z alg apuB64 apvB64 : Bytes) : Option Key32 := do
  let apu ← Base64.decode apuB64
  let apv ← Base64.decode apvB64
  some (crypto.sha256 (kdfInput z alg apu apv))

def ecdhESKEKSender (crypto : Crypto) (ephPriv recipPub : Key32) (alg apvB64 : Bytes) :
    Option Key32 := do
  let z ← crypto.x25519 ephPriv recipPub
  concatKDF crypto z.1 alg [] apvB64

def ecdhESKEKRecipient (crypto : Crypto) (recipPriv ephPub : Key32) (alg apvB64 : Bytes) :
    Option Key32 := do
  let z ← crypto.x25519 recipPriv ephPub
  concatKDF crypto z.1 alg [] apvB64

def ecdh1PUKEKSender (crypto : Crypto) (ephPriv senderPriv recipPub : Key32)
    (alg apuB64 apvB64 : Bytes) : Option Key32 := do
  let ze ← crypto.x25519 ephPriv recipPub
  let zs ← crypto.x25519 senderPriv recipPub
  concatKDF crypto (ze.1 ++ zs.1) alg apuB64 apvB64

def ecdh1PUKEKRecipient (crypto : Crypto) (ephPub recipPriv senderPub : Key32)
    (alg apuB64 apvB64 : Bytes) : Option Key32 := do
  let ze ← crypto.x25519 recipPriv ephPub
  let zs ← crypto.x25519 recipPriv senderPub
  concatKDF crypto (ze.1 ++ zs.1) alg apuB64 apvB64

/-! ## Packing -/

structure Recipient where
  kid : Bytes
  pubKey : Key32
deriving DecidableEq

def clamp (bytes : Key32) : Key32 :=
  ⟨(bytes.1.modify 0 (· &&& 248)).modify 31 fun byte => byte &&& 127 ||| 64, by
    rw [List.length_modify, List.length_modify]
    exact bytes.2⟩

def generateX25519 (crypto : Crypto) (drawn : Option Key32) : Option (Key32 × Key32) := do
  let bytes ← drawn
  let priv := clamp bytes
  let pub ← crypto.x25519 priv basepoint
  some (priv, pub)

def computeAPV (crypto : Crypto) (sortedKIDs : List Bytes) : Bytes :=
  (crypto.sha256 ((sortedKIDs.intersperse (ascii ".")).flatten)).1

def apvOf (crypto : Crypto) (recipients : List Recipient) : Bytes :=
  Base64.encode (computeAPV crypto
    ((recipients.map Recipient.kid).mergeSort fun left right => decide (left ≤ right)))

/-- The sender of an authcrypt message: its key id and its private key. -/
abbrev Sender := Bytes × Key32

def headerFor (crypto : Crypto) (recipients : List Recipient) (sender : Option Sender) :
    ProtectedHeader :=
  match sender with
  | none => ⟨mediaTypeEncrypted, algAnoncrypt, encXC20P, [], [], apvOf crypto recipients⟩
  | some (senderKID, _) =>
      ⟨mediaTypeEncrypted, algAuthcrypt, encXC20P, senderKID, Base64.encode senderKID,
        apvOf crypto recipients⟩

def packKek (crypto : Crypto) (header : ProtectedHeader) (sender : Option Sender)
    (ephPriv recipPub : Key32) : Option Key32 :=
  match sender with
  | none => ecdhESKEKSender crypto ephPriv recipPub header.alg header.apv
  | some (_, senderPriv) =>
      ecdh1PUKEKSender crypto ephPriv senderPriv recipPub header.alg header.apu header.apv

def packRecipient (crypto : Crypto) (header : ProtectedHeader) (sender : Option Sender)
    (cek : Key32) (drawn : Option Key32) (recipient : Recipient) : Except DidCommError JweRecip :=
  match generateX25519 crypto drawn with
  | none => .error .ephemKey
  | some (ephPriv, ephPub) =>
      match packKek crypto header sender ephPriv recipient.pubKey with
      | none => .error (.kek recipient.kid)
      | some kek =>
          match aesKeyWrap crypto.aes kek.1 cek.1 with
          | .error error => .error (.keyWrap recipient.kid error)
          | .ok wrapped => .ok ⟨⟨recipient.kid,
              some ⟨ascii "OKP", ascii "X25519", Base64.encode ephPub.1⟩⟩, Base64.encode wrapped⟩

/-- The recipients from the `index`-th on, each with its own ephemeral key. -/
def packRecipients (crypto : Crypto) (header : ProtectedHeader) (sender : Option Sender)
    (cek : Key32) (ephemeral : Nat → Option Key32) :
    Nat → List Recipient → Except DidCommError (List JweRecip)
  | _, [] => .ok []
  | index, recipient :: rest => do
      let packed ← packRecipient crypto header sender cek (ephemeral index) recipient
      let later ← packRecipients crypto header sender cek ephemeral (index + 1) rest
      .ok (packed :: later)

def overhead : Nat := 16

def packContent (crypto : Crypto) (cek : Key32) (iv message protB64 : Bytes)
    (recipients : List JweRecip) : Except DidCommError Envelope :=
  match crypto.sealWith cek iv message protB64 with
  | none => .error .tooLong
  | some sealed =>
      let tagOff := sealed.length - overhead
      .ok ⟨protB64, recipients, Base64.encode iv, Base64.encode (sealed.take tagOff),
        Base64.encode (sealed.drop tagOff)⟩

def packEnvelope (crypto : Crypto) (draws : Draws) (message : Bytes) (recipients : List Recipient)
    (sender : Option Sender) : Except DidCommError Bytes :=
  if recipients.length = 0 then .error .noRecipients
  else
    let header := headerFor crypto recipients sender
    let protB64 := Base64.encode (marshal header.json)
    match draws.cek with
    | none => .error .genCek
    | some cek => do
        let packed ← packRecipients crypto header sender cek draws.ephemeral 0 recipients
        match draws.iv with
        | none => .error .genIv
        | some iv => do
            let envelope ← packContent crypto cek iv message protB64 packed
            .ok (marshal envelope.json)

def packAnoncrypt (crypto : Crypto) (draws : Draws) (message : Bytes)
    (recipients : List Recipient) : Except DidCommError Bytes :=
  packEnvelope crypto draws message recipients none

def packAuthcrypt (crypto : Crypto) (draws : Draws) (message : Bytes)
    (recipients : List Recipient) (senderKID : Bytes) (senderPriv : Key32) :
    Except DidCommError Bytes :=
  packEnvelope crypto draws message recipients (some (senderKID, senderPriv))

/-! ## Unpacking -/

/-- Which derivation the key-encryption key came from. -/
inductive KekSource where
  | ecdhES
  | ecdh1PU (senderPub : Key32)
deriving DecidableEq

/-- The recipient's entry that was opened: where its key-encryption key came
from, that key, and the content key. -/
structure Opened where
  source : KekSource
  kek : Key32
  cek : Key32
deriving DecidableEq

def deriveKek (crypto : Crypto) (header : ProtectedHeader) (senderPub recipPriv ephPub : Key32) :
    Option (KekSource × Key32) :=
  if header.alg = algAnoncrypt then do
    let kek ← ecdhESKEKRecipient crypto recipPriv ephPub header.alg header.apv
    some (.ecdhES, kek)
  else if header.alg = algAuthcrypt then do
    let kek ← ecdh1PUKEKRecipient crypto ephPub recipPriv senderPub header.alg header.apu header.apv
    some (.ecdh1PU senderPub, kek)
  else none

/-- One round of the loop over the recipients; `none` goes on to the next. -/
def openRecipient (crypto : Crypto) (header : ProtectedHeader) (senderPub : Key32)
    (recipKeyFn : Bytes → Option Key32) (recipient : JweRecip) : Option Opened := do
  let recipPriv ← recipKeyFn recipient.header.kid
  let epk ← recipient.header.epk
  let ephPubBytes ← Base64.decode epk.x
  let ephPub ← key32? ephPubBytes
  let (source, kek) ← deriveKek crypto header senderPub recipPriv ephPub
  let encKey ← Base64.decode recipient.encryptedKey
  let cekSlice ← (aesKeyUnwrap crypto.aes kek.1 encKey).toOption
  let cek ← key32? cekSlice
  some ⟨source, kek, cek⟩

def zeroKey : Key32 := ⟨List.replicate 32 0, rfl⟩

/-- The sender's public key, resolved once; all zeros without a sender. -/
def resolveSender (skid : Bytes) (senderPubFn : Option (Bytes → Option Key32)) :
    Except DidCommError Key32 :=
  if skid ≠ [] then
    match senderPubFn with
    | none => .error .senderPubFnRequired
    | some senderPubFn =>
        match senderPubFn skid with
        | none => .error (.resolveSender skid)
        | some senderPub => .ok senderPub
  else .ok zeroKey

def openContent (crypto : Crypto) (envelope : Envelope) (cek : Key32) :
    Except DidCommError Bytes :=
  match Base64.decode envelope.iv with
  | none => .error .decodeIv
  | some iv =>
      match Base64.decode envelope.ciphertext with
      | none => .error .decodeCiphertext
      | some ciphertext =>
          match Base64.decode envelope.tag with
          | none => .error .decodeTag
          | some tag =>
              if iv.length ≠ 24 then .error .badNonce
              else
                match crypto.openWith cek iv (ciphertext ++ tag) envelope.protectedHeader with
                | none => .error .decryptContent
                | some message => .ok message

def readProtected (text : Bytes) : Except DidCommError ProtectedHeader :=
  match Base64.decode text with
  | none => .error .decodeProtected
  | some protJSON =>
      match (unmarshal protJSON).bind readHeader with
      | none => .error .parseProtected
      | some header => .ok header

/-- What is behind the parsing of the envelope, with the entry that was opened. -/
def unpackParsed (crypto : Crypto) (envelope : Envelope) (recipKeyFn : Bytes → Option Key32)
    (senderPubFn : Option (Bytes → Option Key32)) :
    Except DidCommError (Bytes × Bytes × Opened) := do
  let header ← readProtected envelope.protectedHeader
  let senderPub ← resolveSender header.skid senderPubFn
  match envelope.recipients.findSome? (openRecipient crypto header senderPub recipKeyFn) with
  | none => .error .noMatchingRecipient
  | some opened => do
      let message ← openContent crypto envelope opened.cek
      .ok (message, header.skid, opened)

def unpackOpened (crypto : Crypto) (bytes : Bytes) (recipKeyFn : Bytes → Option Key32)
    (senderPubFn : Option (Bytes → Option Key32)) :
    Except DidCommError (Bytes × Bytes × Opened) :=
  match (unmarshal bytes).bind readEnvelope with
  | none => .error .parseEnvelope
  | some envelope => unpackParsed crypto envelope recipKeyFn senderPubFn

def unpack (crypto : Crypto) (bytes : Bytes) (recipKeyFn : Bytes → Option Key32)
    (senderPubFn : Option (Bytes → Option Key32)) : Except DidCommError (Bytes × Bytes) :=
  (unpackOpened crypto bytes recipKeyFn senderPubFn).map fun result => (result.1, result.2.1)

end Pantheon.Identity.DidComm
