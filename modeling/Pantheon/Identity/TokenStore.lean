import Mathlib
import Pantheon.Lib.Program

/-!
# The store behind the token endpoint: `internal/store/sqlite.go`

The tables that token requests read and write, one definition for each
statement they issue, and the calls a request makes: one store statement each,
or a reading of the clock, of the random source or of the signer.
-/

set_option autoImplicit false

namespace Pantheon.Identity.Oidc

open Pantheon.Lib

structure OIDCSession where
  id : String
  subjectDID : String
  clientID : String
  scope : String
  nonce : String
  code : String
  codeChallenge : String
  expiresAt : Nat
deriving DecidableEq

structure RefreshToken where
  hash : String
  subjectDID : String
  clientID : String
  scope : String
  issuedAt : Nat
  expiresAt : Nat
  usedAt : Option Nat
deriving DecidableEq

structure DeviceCode where
  deviceCode : String
  clientID : String
  scope : String
  subjectDID : String
  approved : Bool
  denied : Bool
  expiresAt : Nat
deriving DecidableEq

structure CredentialOffer where
  id : String
  schemaIDs : List String
  subjectDID : String
  expiresAt : Nat
  used : Bool
deriving DecidableEq

structure OIDCClient where
  clientID : String
  clientSecretHash : String
  tokenEndpointAuthMethod : String
deriving DecidableEq

/-- The tables.  A code is drawn afresh for each session, so it names one. -/
structure Store where
  sessions : List OIDCSession
  refreshTokens : List RefreshToken
  deviceCodes : List DeviceCode
  offers : List CredentialOffer
  clients : List OIDCClient
  codes_distinct : ∀ left ∈ sessions, ∀ right ∈ sessions, left.code = right.code →
    left.id = right.id

/-- `SELECT` with an equation on one column, as far as its first row. -/
def firstWith {Row Key : Type} [DecidableEq Key] (column : Row → Key) (key : Key) :
    List Row → Option { row : Row // column row = key }
  | [] => none
  | row :: rest => if names : column row = key then some ⟨row, names⟩ else firstWith column key rest

theorem mem_of_firstWith {Row Key : Type} [DecidableEq Key] {column : Row → Key} {key : Key} :
    ∀ {rows : List Row} {row : { row : Row // column row = key }},
      firstWith column key rows = some row → row.val ∈ rows := by
  intro rows
  induction rows with
  | nil => exact nofun
  | cons head rest ih =>
      intro row found
      unfold firstWith at found
      split_ifs at found with names
      · rw [← Option.some.inj found]
        exact List.mem_cons_self
      · exact List.mem_cons_of_mem head (ih found)

namespace Store

variable (store : Store)

def getSessionByCode (code : String) : Option { session : OIDCSession // session.code = code } :=
  firstWith OIDCSession.code code store.sessions

def deleteSession (id : String) : Store :=
  { store with
    sessions := store.sessions.filter fun session => session.id != id
    codes_distinct := by
      intro left memLeft right memRight
      exact store.codes_distinct left (List.mem_filter.mp memLeft).1 right
        (List.mem_filter.mp memRight).1 }

def getRefreshToken (hash : String) : Option { token : RefreshToken // token.hash = hash } :=
  firstWith RefreshToken.hash hash store.refreshTokens

/-- Inserts the token.  On a conflict only the mark of use is taken over. -/
def saveRefreshToken (token : RefreshToken) : Store :=
  { store with
    refreshTokens :=
      if store.refreshTokens.any fun row => row.hash == token.hash then
        store.refreshTokens.map fun row =>
          if row.hash = token.hash then { row with usedAt := token.usedAt } else row
      else store.refreshTokens ++ [token] }

def deleteRefreshToken (hash : String) : Store :=
  { store with refreshTokens := store.refreshTokens.filter fun token => token.hash != hash }

def getDeviceCode (deviceCode : String) :
    Option { row : DeviceCode // row.deviceCode = deviceCode } :=
  firstWith DeviceCode.deviceCode deviceCode store.deviceCodes

def deleteDeviceCode (deviceCode : String) : Store :=
  { store with deviceCodes := store.deviceCodes.filter fun row => row.deviceCode != deviceCode }

def getCredentialOffer (id : String) : Option { offer : CredentialOffer // offer.id = id } :=
  firstWith CredentialOffer.id id store.offers

def markCredentialOfferUsed (id : String) : Store :=
  { store with
    offers := store.offers.map fun offer =>
      if offer.id = id then { offer with used := true } else offer }

def getClient (clientID : String) : Option { client : OIDCClient // client.clientID = clientID } :=
  firstWith OIDCClient.clientID clientID store.clients

end Store

/-! ## Calls -/

/-- What a signed token says, other than when it was issued. -/
structure TokenClaims where
  tokenType : String
  issuer : String
  subject : String
  audience : String
  ttl : Nat
  nonce : String
  scope : String
  offerID : String
  schemaIDs : List String
deriving DecidableEq

inductive Op where
  | getSessionByCode (code : String)
  | deleteSession (id : String)
  | getRefreshToken (hash : String)
  | saveRefreshToken (token : RefreshToken)
  | deleteRefreshToken (hash : String)
  | getDeviceCode (deviceCode : String)
  | deleteDeviceCode (deviceCode : String)
  | getCredentialOffer (id : String)
  | markCredentialOfferUsed (id : String)
  | getClient (clientID : String)
  | now
  | issueJWT (claims : TokenClaims)
  | randomHex (bytes : Nat)
deriving DecidableEq

/-- A lookup replies with the row unless it fails, a write with whether it
went through. -/
@[reducible] def Op.Reply : Op → Type
  | .getSessionByCode code => Option { session : OIDCSession // session.code = code }
  | .getRefreshToken hash => Option { token : RefreshToken // token.hash = hash }
  | .getDeviceCode deviceCode => Option { row : DeviceCode // row.deviceCode = deviceCode }
  | .getCredentialOffer id => Option { offer : CredentialOffer // offer.id = id }
  | .getClient clientID => Option { client : OIDCClient // client.clientID = clientID }
  | .deleteSession _ => Bool
  | .saveRefreshToken _ => Bool
  | .deleteRefreshToken _ => Bool
  | .deleteDeviceCode _ => Bool
  | .markCredentialOfferUsed _ => Bool
  | .now => Nat
  | .issueJWT _ => Option String
  | .randomHex _ => Option String

/-- How a call goes: whether it fails, what the clock shows, and what the
random source or the signer puts out. -/
structure Choice where
  fails : Bool
  clock : Nat
  drawn : String
deriving DecidableEq

/-- A statement that fails replies with its error and changes nothing. -/
def exec (choice : Choice) : (op : Op) → Store → Store × op.Reply
  | .getSessionByCode code, store =>
      (store, if choice.fails then none else store.getSessionByCode code)
  | .getRefreshToken hash, store =>
      (store, if choice.fails then none else store.getRefreshToken hash)
  | .getDeviceCode deviceCode, store =>
      (store, if choice.fails then none else store.getDeviceCode deviceCode)
  | .getCredentialOffer id, store =>
      (store, if choice.fails then none else store.getCredentialOffer id)
  | .getClient clientID, store =>
      (store, if choice.fails then none else store.getClient clientID)
  | .deleteSession id, store =>
      if choice.fails then (store, false) else (store.deleteSession id, true)
  | .saveRefreshToken token, store =>
      if choice.fails then (store, false) else (store.saveRefreshToken token, true)
  | .deleteRefreshToken hash, store =>
      if choice.fails then (store, false) else (store.deleteRefreshToken hash, true)
  | .deleteDeviceCode deviceCode, store =>
      if choice.fails then (store, false) else (store.deleteDeviceCode deviceCode, true)
  | .markCredentialOfferUsed id, store =>
      if choice.fails then (store, false) else (store.markCredentialOfferUsed id, true)
  | .now, store => (store, choice.clock)
  | .issueJWT _, store => (store, if choice.fails then none else some choice.drawn)
  | .randomHex _, store => (store, if choice.fails then none else some choice.drawn)

/-! ## What a call leaves in the tables -/

theorem exec_sessions (choice : Choice) (op : Op) (store : Store) :
    (exec choice op store).1.sessions = store.sessions ∨
      ∃ id, op = .deleteSession id ∧
        (exec choice op store).1.sessions =
          store.sessions.filter fun session => session.id != id := by
  cases op with
  | deleteSession id =>
      cases fails : choice.fails
      · exact Or.inr ⟨id, rfl, by simp [exec, fails, Store.deleteSession]⟩
      · exact Or.inl (by simp [exec, fails])
  | saveRefreshToken | deleteRefreshToken | deleteDeviceCode | markCredentialOfferUsed =>
      left
      cases fails : choice.fails <;>
        simp [exec, fails, Store.saveRefreshToken, Store.deleteRefreshToken,
          Store.deleteDeviceCode, Store.markCredentialOfferUsed]
  | _ => exact Or.inl rfl

theorem exec_deviceCodes (choice : Choice) (op : Op) (store : Store) :
    (exec choice op store).1.deviceCodes = store.deviceCodes ∨
      ∃ deviceCode, op = .deleteDeviceCode deviceCode ∧
        (exec choice op store).1.deviceCodes =
          store.deviceCodes.filter fun row => row.deviceCode != deviceCode := by
  cases op with
  | deleteDeviceCode deviceCode =>
      cases fails : choice.fails
      · exact Or.inr ⟨deviceCode, rfl, by simp [exec, fails, Store.deleteDeviceCode]⟩
      · exact Or.inl (by simp [exec, fails])
  | saveRefreshToken | deleteRefreshToken | deleteSession | markCredentialOfferUsed =>
      left
      cases fails : choice.fails <;>
        simp [exec, fails, Store.saveRefreshToken, Store.deleteRefreshToken,
          Store.deleteSession, Store.markCredentialOfferUsed]
  | _ => exact Or.inl rfl

theorem exec_offers (choice : Choice) (op : Op) (store : Store) :
    (exec choice op store).1.offers = store.offers ∨
      ∃ id, op = .markCredentialOfferUsed id ∧
        (exec choice op store).1.offers =
          store.offers.map fun offer =>
            if offer.id = id then { offer with used := true } else offer := by
  cases op with
  | markCredentialOfferUsed id =>
      cases fails : choice.fails
      · exact Or.inr ⟨id, rfl, by simp [exec, fails, Store.markCredentialOfferUsed]⟩
      · exact Or.inl (by simp [exec, fails])
  | saveRefreshToken | deleteRefreshToken | deleteSession | deleteDeviceCode =>
      left
      cases fails : choice.fails <;>
        simp [exec, fails, Store.saveRefreshToken, Store.deleteRefreshToken,
          Store.deleteSession, Store.deleteDeviceCode]
  | _ => exact Or.inl rfl

theorem exec_refreshTokens (choice : Choice) (op : Op) (store : Store) :
    (∀ token ∈ (exec choice op store).1.refreshTokens, token ∈ store.refreshTokens) ∨
      ∃ token, op = .saveRefreshToken token ∧ choice.fails = false ∧
        (exec choice op store).1 = store.saveRefreshToken token := by
  cases op with
  | saveRefreshToken token =>
      cases fails : choice.fails
      · exact Or.inr ⟨token, rfl, rfl, by simp [exec, fails]⟩
      · exact Or.inl (by simp [exec, fails])
  | deleteRefreshToken hash =>
      left
      intro token mem
      cases fails : choice.fails
      · simp only [exec, fails, Bool.false_eq_true, if_false, Store.deleteRefreshToken] at mem
        exact (List.mem_filter.mp mem).1
      · simpa [exec, fails] using mem
  | deleteSession | deleteDeviceCode | markCredentialOfferUsed =>
      left
      cases fails : choice.fails <;>
        simp [exec, fails, Store.deleteSession, Store.deleteDeviceCode,
          Store.markCredentialOfferUsed]
  | _ => exact Or.inl fun _ mem => mem

theorem mem_saveRefreshToken {store : Store} {saved token : RefreshToken}
    (mem : token ∈ (store.saveRefreshToken saved).refreshTokens) :
    (token ∈ store.refreshTokens ∧ token.hash ≠ saved.hash) ∨
      (token.hash = saved.hash ∧ token.usedAt = saved.usedAt) := by
  simp only [Store.saveRefreshToken] at mem
  split_ifs at mem with conflict
  · obtain ⟨row, memRow, rfl⟩ := List.mem_map.mp mem
    split_ifs with hit
    · exact Or.inr ⟨hit, rfl⟩
    · exact Or.inl ⟨memRow, hit⟩
  · rcases List.mem_append.mp mem with old | new
    · refine Or.inl ⟨old, fun hit => conflict ?_⟩
      exact List.any_eq_true.mpr ⟨token, old, by simpa using hit⟩
    · rw [List.mem_singleton.mp new]
      exact Or.inr ⟨rfl, rfl⟩

end Pantheon.Identity.Oidc
