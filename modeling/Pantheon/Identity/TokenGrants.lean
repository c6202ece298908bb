import Mathlib
import Pantheon.Lib.Program
import Pantheon.Identity.TokenStore

/-!
# The token endpoint: `oidc/provider.go`, `oidc/device.go`, `oidc/oid4vci.go`

The handlers that redeem an authorization code, a refresh token, a device code
and a pre-authorized code.  Every store statement and every reading of the
clock, the random source and the signer is one call, so other requests may run
between any two of them.  Hashes are parameters.
-/

set_option autoImplicit false

namespace Pantheon.Identity.Oidc

open Pantheon.Lib

structure Provider where
  issuer : String
  hashToken : String → String
  hashSecret : String → String
  /-- The unpadded base64 of the hash of a code verifier. -/
  challengeOf : String → String

def idTokenTTL : Nat := 3600
def accessTokenTTL : Nat := 3600
def refreshTokenTTL : Nat := 30 * 24 * 3600

/-- What the request carries to authenticate its client. -/
structure ClientAuth where
  basicAuth : Option (String × String)
  clientSecret : String
deriving DecidableEq

inductive Response where
  | error (code description : String)
  | internalError
  | tokens (accessToken idToken refreshToken scope : String) (expiresIn : Nat)
  | credentialToken (accessToken cNonce : String) (expiresIn : Nat)
deriving DecidableEq

def Response.Issued : Response → Prop
  | .tokens .. | .credentialToken .. => True
  | .error .. | .internalError => False

instance : DecidablePred Response.Issued := fun response => by
  cases response <;> unfold Response.Issued <;> infer_instance

/-- Requests to the token endpoint, by grant.  `TokenHandler` has no case for the last, whose
handler says that it is called from there. -/
inductive TokenRequest where
  | authorizationCode (code clientID codeVerifier : String) (auth : ClientAuth)
  | refreshToken (rawToken : String) (auth : ClientAuth)
  | deviceCode (deviceCode clientID : String)
  | preAuthorizedCode (preAuthCode : String)
deriving DecidableEq

abbrev Handler := Program Op Op.Reply

def ask (op : Op) : Handler op.Reply :=
  Program.perform op

@[simp] theorem ask_bind {α : Type} (op : Op) (next : op.Reply → Handler α) :
    (ask op >>= next) = Program.call op next :=
  rfl

variable (provider : Provider)

def issueIDToken (subject audience nonce : String) : Handler (Option String) :=
  ask (.issueJWT
    ⟨"id", provider.issuer, subject, audience, idTokenTTL, nonce, "", "", []⟩)

def issueAccessToken (subject audience : String) : Handler (Option String) :=
  ask (.issueJWT
    ⟨"access", provider.issuer, subject, audience, accessTokenTTL, "", "", "", []⟩)

def generateRefreshToken : Handler (Option (String × String)) := do
  let raw ← ask (.randomHex 32)
  return raw.map fun raw => (raw, provider.hashToken raw)

/-- The message of the error, or `none` where the client is authenticated. -/
def validateClientAuth (auth : ClientAuth) (clientID : String) : Handler (Option String) := do
  match ← ask (.getClient clientID) with
  | none => return some "unknown client"
  | some ⟨client, _⟩ =>
      if client.tokenEndpointAuthMethod = "none" then
        return none
      let providedSecret :=
        match auth.basicAuth with
        | some (user, pass) => if user = clientID then pass else auth.clientSecret
        | none => auth.clientSecret
      if providedSecret = "" then
        return some "client authentication required"
      if provider.hashSecret providedSecret ≠ client.clientSecretHash then
        return some "invalid client credentials"
      return none

def newRefreshToken (hash subject client scope : String) : Handler RefreshToken := do
  let issuedAt ← ask .now
  let expiring ← ask .now
  return ⟨hash, subject, client, scope, issuedAt, expiring + refreshTokenTTL, none⟩

def handleAuthCodeExchange (code clientID codeVerifier : String) (auth : ClientAuth) :
    Handler Response := do
  if code = "" then
    return .error "invalid_request" "missing code"
  match ← ask (.getSessionByCode code) with
  | none => return .error "invalid_grant" "code not found or expired"
  | some ⟨sess, _⟩ =>
      if sess.expiresAt < (← ask .now) then
        return .error "invalid_grant" "code not found or expired"
      if clientID ≠ "" ∧ clientID ≠ sess.clientID then
        return .error "invalid_grant" "client_id mismatch"
      if codeVerifier = "" then
        return .error "invalid_grant" "code_verifier is required (PKCE)"
      if sess.codeChallenge = "" then
        return .error "invalid_grant" "no PKCE challenge found for this code"
      if provider.challengeOf codeVerifier ≠ sess.codeChallenge then
        return .error "invalid_grant" "code_verifier mismatch"
      if let some message ← validateClientAuth provider auth sess.clientID then
        return .error "invalid_client" message
      let some idToken ← issueIDToken provider sess.subjectDID sess.clientID sess.nonce
        | return .internalError
      let some accessToken ← issueAccessToken provider sess.subjectDID sess.clientID
        | return .internalError
      let some (rawRefresh, refreshHash) ← generateRefreshToken provider
        | return .internalError
      let token ← newRefreshToken refreshHash sess.subjectDID sess.clientID sess.scope
      if !(← ask (.saveRefreshToken token)) then
        return .internalError
      -- The code is invalidated last, and whether that failed is not looked at.
      let _ ← ask (.deleteSession sess.id)
      return .tokens accessToken idToken rawRefresh sess.scope accessTokenTTL

def handleRefreshTokenGrant (rawToken : String) (auth : ClientAuth) : Handler Response := do
  if rawToken = "" then
    return .error "invalid_request" "missing refresh_token"
  let hash := provider.hashToken rawToken
  match ← ask (.getRefreshToken hash) with
  | none => return .error "invalid_grant" "refresh token not found"
  | some ⟨rt, _⟩ =>
      if rt.expiresAt < (← ask .now) then
        let _ ← ask (.deleteRefreshToken hash)
        return .error "invalid_grant" "refresh token expired"
      if rt.usedAt.isSome then
        let _ ← ask (.deleteRefreshToken hash)
        return .error "invalid_grant" "refresh token already used"
      if let some message ← validateClientAuth provider auth rt.clientID then
        return .error "invalid_client" message
      let now ← ask .now
      let _ ← ask (.saveRefreshToken { rt with usedAt := some now })
      let some accessToken ← issueAccessToken provider rt.subjectDID rt.clientID
        | return .internalError
      let some (rawRefresh, refreshHash) ← generateRefreshToken provider
        | return .internalError
      let token ← newRefreshToken refreshHash rt.subjectDID rt.clientID rt.scope
      if !(← ask (.saveRefreshToken token)) then
        return .internalError
      return .tokens accessToken "" rawRefresh rt.scope accessTokenTTL

def handleDeviceGrant (deviceCode clientID : String) : Handler Response := do
  if deviceCode = "" then
    return .error "invalid_request" "device_code required"
  match ← ask (.getDeviceCode deviceCode) with
  | none => return .error "invalid_grant" "device_code not found"
  | some ⟨dc, _⟩ =>
      if clientID ≠ "" ∧ clientID ≠ dc.clientID then
        return .error "invalid_client" "client_id mismatch"
      if dc.expiresAt < (← ask .now) then
        let _ ← ask (.deleteDeviceCode deviceCode)
        return .error "expired_token" "device_code expired"
      if dc.denied then
        let _ ← ask (.deleteDeviceCode deviceCode)
        return .error "access_denied" "user denied the request"
      if !dc.approved then
        return .error "authorization_pending"
          "The user has not yet approved the device request; keep polling."
      let some accessToken ← issueAccessToken provider dc.subjectDID dc.clientID
        | return .internalError
      let some (rawRefresh, refreshHash) ← generateRefreshToken provider
        | return .internalError
      let token ← newRefreshToken refreshHash dc.subjectDID dc.clientID dc.scope
      if !(← ask (.saveRefreshToken token)) then
        return .internalError
      let _ ← ask (.deleteDeviceCode deviceCode)
      return .tokens accessToken "" rawRefresh dc.scope accessTokenTTL

def handlePreAuthorizedCode (preAuthCode : String) : Handler Response := do
  if preAuthCode = "" then
    return .error "invalid_request" "pre-authorized_code required"
  match ← ask (.getCredentialOffer preAuthCode) with
  | none => return .error "invalid_grant" "pre-authorized_code not found"
  | some ⟨offer, _⟩ =>
      if offer.used then
        return .error "invalid_grant" "pre-authorized_code already used"
      if offer.expiresAt < (← ask .now) then
        return .error "invalid_grant" "pre-authorized_code expired"
      let _ ← ask (.markCredentialOfferUsed preAuthCode)
      let scopes := offer.schemaIDs.map fun sid => "credential:" ++ sid
      let subject :=
        if offer.subjectDID = "" then "urn:pre-auth:" ++ preAuthCode else offer.subjectDID
      let some accessToken ← ask (.issueJWT
          ⟨"access", provider.issuer, subject, provider.issuer, accessTokenTTL, "",
            " ".intercalate scopes, offer.id, offer.schemaIDs⟩)
        | return .internalError
      -- `mustRandomHex` takes an empty string where the random source fails.
      let cNonce ← ask (.randomHex 16)
      return .credentialToken accessToken (cNonce.getD "") accessTokenTTL

def tokenHandler : TokenRequest → Handler Response
  | .authorizationCode code clientID codeVerifier auth =>
      handleAuthCodeExchange provider code clientID codeVerifier auth
  | .refreshToken rawToken auth => handleRefreshTokenGrant provider rawToken auth
  | .deviceCode deviceCode clientID => handleDeviceGrant provider deviceCode clientID
  | .preAuthorizedCode preAuthCode => handlePreAuthorizedCode provider preAuthCode

abbrev Endpoint := Shared Op Op.Reply Response TokenRequest Choice Store

abbrev RequestThread := Thread Op Op.Reply Response TokenRequest Choice

end Pantheon.Identity.Oidc
