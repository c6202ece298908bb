import Mathlib
import Pantheon.Lib.Runs
import Pantheon.Lib.CheckThenAct
import Pantheon.Identity.TokenGrants

/-!
# Single use of codes at the token endpoint

Authorization codes, device codes and pre-authorized codes are looked up first
and invalidated later, in a call of its own whose outcome is not looked at.
Two requests that both look a code up before either invalidates it are both
served, and so is a second one after an invalidation that failed.
-/

set_option autoImplicit false

namespace Pantheon.Identity.Oidc

open Pantheon.Lib

variable {op : Op} {next : op.Reply → Handler Response} {endpoint : Endpoint}

def Op.Invalidates : Op → Prop
  | .deleteSession _ | .deleteDeviceCode _ | .markCredentialOfferUsed _ => True
  | _ => False

instance : DecidablePred Op.Invalidates := fun op => by
  cases op <;> unfold Op.Invalidates <;> infer_instance

/-- A code that a token request can redeem. -/
inductive Grant where
  | authorizationCode (code : String)
  | deviceCode (code : String)
  | preAuthorizedCode (code : String)
deriving DecidableEq

namespace Grant

def presentedBy : Grant → TokenRequest → Prop
  | .authorizationCode code, .authorizationCode given _ _ _ => given = code
  | .deviceCode code, .deviceCode given _ => given = code
  | .preAuthorizedCode code, .preAuthorizedCode given => given = code
  | _, _ => False

def redeemableIn (store : Store) : Grant → Prop
  | .authorizationCode code => ∃ session ∈ store.sessions, session.code = code
  | .deviceCode code => ∃ row ∈ store.deviceCodes, row.deviceCode = code
  | .preAuthorizedCode code => ∃ offer ∈ store.offers, offer.id = code ∧ offer.used = false

def clearedBy (store : Store) : Grant → Op → Prop
  | .authorizationCode code, .deleteSession id =>
      ∀ session ∈ store.sessions, session.code = code → session.id = id
  | .deviceCode code, .deleteDeviceCode given => given = code
  | .preAuthorizedCode code, .markCredentialOfferUsed given => given = code
  | _, _ => False

def artefact (grant : Grant) : Artefact Op Response TokenRequest Store where
  presents := grant.presentedBy
  redeemed := Response.Issued
  spends := Op.Invalidates
  redeemable := fun store => grant.redeemableIn store
  clears := fun store => grant.clearedBy store

end Grant

/-- At most one of the requests that present the code has ended with a token
response. -/
def Grant.UsedOnce (grant : Grant) (endpoint : Endpoint) : Prop :=
  grant.artefact.RedeemedOnce endpoint

/-- The turn invalidates what it means to, and it does not look a code up
while another request that presents it has looked it up, has not ended and has
made no invalidating call. -/
structure RedeemsApart (endpoint : Endpoint) (turn : Turn Choice) : Prop where
  invalidates : ∀ (thread : RequestThread) (op : Op) (rest : op.Reply → Handler Response),
    endpoint.threads[turn.thread]? = some thread → thread.program = .call op rest →
    op.Invalidates → turn.choice.fails = false
  serial : ∀ (grant : Grant) (thread other : RequestThread) (index : Nat),
    endpoint.threads[turn.thread]? = some thread → grant.presentedBy thread.request →
    thread.calls = [] → index ≠ turn.thread → endpoint.threads[index]? = some other →
    grant.presentedBy other.request → ¬ other.Between grant.artefact

/-! ## What the calls do to a code -/

theorem Grant.clearedBy_exec (grant : Grant) (choice : Choice) (op called : Op) (store : Store)
    (clears : grant.clearedBy store op) : grant.clearedBy (exec choice called store).1 op := by
  cases grant with
  | authorizationCode code =>
      cases op with
      | deleteSession id =>
          intro session mem names
          rcases exec_sessions choice called store with same | ⟨other, _, filtered⟩
          · rw [same] at mem
            exact clears session mem names
          · rw [filtered] at mem
            exact clears session (List.mem_filter.mp mem).1 names
      | _ => exact clears
  | deviceCode code => cases op <;> exact clears
  | preAuthorizedCode code => cases op <;> exact clears

theorem Grant.redeemable_exec (grant : Grant) (choice : Choice) (called : Op) (store : Store)
    (redeemable : grant.redeemableIn (exec choice called store).1) : grant.redeemableIn store := by
  cases grant with
  | authorizationCode code =>
      obtain ⟨session, mem, names⟩ := redeemable
      rcases exec_sessions choice called store with same | ⟨other, _, filtered⟩
      · exact ⟨session, by rwa [same] at mem, names⟩
      · rw [filtered] at mem
        exact ⟨session, (List.mem_filter.mp mem).1, names⟩
  | deviceCode code =>
      obtain ⟨row, mem, names⟩ := redeemable
      rcases exec_deviceCodes choice called store with same | ⟨other, _, filtered⟩
      · exact ⟨row, by rwa [same] at mem, names⟩
      · rw [filtered] at mem
        exact ⟨row, (List.mem_filter.mp mem).1, names⟩
  | preAuthorizedCode code =>
      obtain ⟨offer, mem, names, unused⟩ := redeemable
      rcases exec_offers choice called store with same | ⟨other, _, marked⟩
      · exact ⟨offer, by rwa [same] at mem, names, unused⟩
      · rw [marked] at mem
        obtain ⟨row, memRow, rfl⟩ := List.mem_map.mp mem
        split_ifs at names unused with hit
        exact ⟨row, memRow, names, unused⟩

theorem Grant.cleared (grant : Grant) (choice : Choice) (op : Op) (store : Store)
    (works : choice.fails = false) (clears : grant.clearedBy store op) :
    ¬ grant.redeemableIn (exec choice op store).1 := by
  intro redeemable
  cases grant with
  | authorizationCode code =>
      cases op with
      | deleteSession id =>
          obtain ⟨session, mem, names⟩ := redeemable
          simp only [exec, works, Store.deleteSession, Bool.false_eq_true, if_false] at mem
          obtain ⟨mem, kept⟩ := List.mem_filter.mp mem
          exact absurd (clears session mem names) (by simpa using kept)
      | _ => exact clears
  | deviceCode code =>
      cases op with
      | deleteDeviceCode given =>
          obtain ⟨row, mem, names⟩ := redeemable
          simp only [exec, works, Store.deleteDeviceCode, Bool.false_eq_true, if_false] at mem
          have kept := (List.mem_filter.mp mem).2
          exact absurd (names.trans clears.symm) (by simpa using kept)
      | _ => exact clears
  | preAuthorizedCode code =>
      cases op with
      | markCredentialOfferUsed given =>
          obtain ⟨offer, mem, names, unused⟩ := redeemable
          simp only [exec, works, Store.markCredentialOfferUsed, Bool.false_eq_true, if_false]
            at mem
          obtain ⟨row, _, rfl⟩ := List.mem_map.mp mem
          split_ifs at names unused with hit
          exact hit (names.trans clears.symm)
      | _ => exact clears

/-! ## What each handler owes -/

section Owes

variable {spends clears : Op → Prop}

theorem never_ask {wanted : Response → Prop}
    (later : ∀ reply, (next reply).Never wanted) : (ask op >>= next).Never wanted :=
  later

theorem owes_ask (quiet : ¬ spends op)
    (later : ∀ reply, (next reply).Owes Response.Issued spends clears) :
    (ask op >>= next).Owes Response.Issued spends clears :=
  Or.inr ⟨quiet, later⟩

theorem looksUpFirst_ask {artefact : Artefact Op Response TokenRequest Store} {lookup : Op}
    {next : lookup.Reply → Handler Response} (quiet : ¬ artefact.spends lookup)
    (found : ∀ (choice : Choice) (store : Store), (exec choice lookup store).1 = store ∧
      ((next (exec choice lookup store).2).Never artefact.redeemed ∨
        artefact.redeemable store ∧
          (next (exec choice lookup store).2).Owes artefact.redeemed artefact.spends
            (artefact.clears store))) :
    LooksUpFirst artefact exec (ask lookup >>= next) :=
  Or.inr ⟨lookup, next, rfl, quiet, found⟩

theorem owes_clearing (spending : spends op)
    (clearing : clears op) : (ask op >>= next).Owes Response.Issued spends clears :=
  Or.inl ⟨spending, clearing⟩

theorem avoids_ask {α : Type} {next : op.Reply → Handler α} (quiet : ¬ spends op)
    (later : ∀ reply, (next reply).Avoids spends) : (ask op >>= next).Avoids spends :=
  ⟨quiet, later⟩

variable (provider : Provider)

theorem validateClientAuth_avoids (auth : ClientAuth) (clientID : String)
    (quiet : ¬ spends (.getClient clientID)) :
    (validateClientAuth provider auth clientID).Avoids spends := by
  refine avoids_ask quiet fun client => ?_
  cases client with
  | none => trivial
  | some client =>
      dsimp only
      split_ifs <;> trivial

theorem newRefreshToken_avoids (hash subject client scope : String) :
    (newRefreshToken hash subject client scope).Avoids Op.Invalidates :=
  avoids_ask id fun _ => avoids_ask id fun _ => trivial

theorem generateRefreshToken_avoids :
    (generateRefreshToken provider).Avoids Op.Invalidates :=
  avoids_ask id fun _ => trivial

/-- The tail of the three grants that save a refresh token: it is saved, then
the code is invalidated. -/
theorem owes_saved {token : RefreshToken} {response : Response}
    (invalidates : op.Invalidates) (clearing : clears op) :
    (do
      if !(← ask (.saveRefreshToken token)) then
        return .internalError
      let _ ← ask op
      return response : Handler Response).Owes Response.Issued Op.Invalidates clears := by
  refine owes_ask id fun saved => ?_
  split
  · exact not_false
  · exact owes_clearing invalidates clearing

theorem authorizationCode_looksUpFirst (code clientID codeVerifier : String) (auth : ClientAuth) :
    LooksUpFirst (Grant.authorizationCode code).artefact exec
      (handleAuthCodeExchange provider code clientID codeVerifier auth) := by
  unfold handleAuthCodeExchange
  split
  · exact Or.inl not_false
  refine looksUpFirst_ask id fun choice store => ⟨rfl, ?_⟩
  cases reply : (exec choice (.getSessionByCode code) store).2 with
  | none => exact Or.inl not_false
  | some found =>
      obtain ⟨sess, names⟩ := found
      have row : store.getSessionByCode code = some ⟨sess, names⟩ := by
        simp only [exec] at reply
        split_ifs at reply
        exact reply
      have mem := mem_of_firstWith row
      refine Or.inr ⟨⟨sess, mem, names⟩, ?_⟩
      have clears : (Grant.authorizationCode code).clearedBy store (.deleteSession sess.id) := by
        intro session memSession namesSession
        exact store.codes_distinct session memSession sess mem (namesSession.trans names.symm)
      have invalidates : (Op.deleteSession sess.id).Invalidates := trivial
      dsimp only
      refine owes_ask id fun now => ?_
      split_ifs <;> try exact not_false
      refine Program.Owes.of_avoids (fun message => ?_) (validateClientAuth_avoids provider _ _ id)
      cases message with
      | some message => exact not_false
      | none =>
          refine owes_ask id fun idToken => ?_
          cases idToken with
          | none => exact not_false
          | some idToken =>
              refine owes_ask id fun accessToken => ?_
              cases accessToken with
              | none => exact not_false
              | some accessToken =>
                  refine Program.Owes.of_avoids (fun drawn => ?_)
                    (generateRefreshToken_avoids provider)
                  cases drawn with
                  | none => exact not_false
                  | some drawn =>
                      exact Program.Owes.of_avoids (fun token => owes_saved invalidates clears)
                        (newRefreshToken_avoids _ _ _ _)

theorem deviceCode_looksUpFirst (code clientID : String) :
    LooksUpFirst (Grant.deviceCode code).artefact exec
      (handleDeviceGrant provider code clientID) := by
  unfold handleDeviceGrant
  split
  · exact Or.inl not_false
  refine looksUpFirst_ask id fun choice store => ⟨rfl, ?_⟩
  cases reply : (exec choice (.getDeviceCode code) store).2 with
  | none => exact Or.inl not_false
  | some found =>
      obtain ⟨dc, names⟩ := found
      have row : store.getDeviceCode code = some ⟨dc, names⟩ := by
        simp only [exec] at reply
        split_ifs at reply
        exact reply
      have mem := mem_of_firstWith row
      refine Or.inr ⟨⟨dc, mem, names⟩, ?_⟩
      have clears : (Grant.deviceCode code).clearedBy store (.deleteDeviceCode code) := rfl
      have invalidates : (Op.deleteDeviceCode code).Invalidates := trivial
      dsimp only
      split
      · exact not_false
      refine owes_ask id fun now => ?_
      split
      · exact owes_clearing trivial clears
      split
      · exact owes_clearing trivial clears
      split
      · exact not_false
      refine owes_ask id fun accessToken => ?_
      cases accessToken with
      | none => exact not_false
      | some accessToken =>
          refine Program.Owes.of_avoids (fun drawn => ?_) (generateRefreshToken_avoids provider)
          cases drawn with
          | none => exact not_false
          | some drawn =>
              exact Program.Owes.of_avoids (fun token => owes_saved invalidates clears)
                (newRefreshToken_avoids _ _ _ _)

theorem preAuthorizedCode_looksUpFirst (code : String) :
    LooksUpFirst (Grant.preAuthorizedCode code).artefact exec
      (handlePreAuthorizedCode provider code) := by
  unfold handlePreAuthorizedCode
  split
  · exact Or.inl not_false
  refine looksUpFirst_ask id fun choice store => ⟨rfl, ?_⟩
  cases reply : (exec choice (.getCredentialOffer code) store).2 with
  | none => exact Or.inl not_false
  | some found =>
      obtain ⟨offer, names⟩ := found
      have row : store.getCredentialOffer code = some ⟨offer, names⟩ := by
        simp only [exec] at reply
        split_ifs at reply
        exact reply
      have mem := mem_of_firstWith row
      cases used : offer.used with
      | true =>
          left
          dsimp only
          rw [if_pos used]
          exact not_false
      | false =>
          refine Or.inr ⟨⟨offer, mem, names, used⟩, ?_⟩
          have clears : (Grant.preAuthorizedCode code).clearedBy store
              (.markCredentialOfferUsed code) := rfl
          dsimp only
          rw [if_neg (by simp [used])]
          refine owes_ask id fun now => ?_
          split
          · exact not_false
          · exact owes_clearing trivial clears

end Owes

theorem tokenHandler_looksUpFirst (provider : Provider) (grant : Grant) (request : TokenRequest)
    (presents : grant.presentedBy request) :
    LooksUpFirst grant.artefact exec (tokenHandler provider request) := by
  cases grant with
  | authorizationCode code =>
      cases request with
      | authorizationCode given clientID codeVerifier auth =>
          cases presents
          exact authorizationCode_looksUpFirst provider _ clientID codeVerifier auth
      | _ => exact presents.elim
  | deviceCode code =>
      cases request with
      | deviceCode given clientID =>
          cases presents
          exact deviceCode_looksUpFirst provider _ clientID
      | _ => exact presents.elim
  | preAuthorizedCode code =>
      cases request with
      | preAuthorizedCode given =>
          cases presents
          exact preAuthorizedCode_looksUpFirst provider _
      | _ => exact presents.elim

/-! ## Runs -/

theorem RedeemsApart.keepsApart {next : Endpoint} {turn : Turn Choice}
    (apart : RedeemsApart endpoint turn) (taken : takeTurn exec endpoint turn = some next)
    (grant : Grant) : KeepsApart grant.artefact exec endpoint next turn := by
  obtain ⟨mover, called, tail, present, shape, stored, _⟩ := takeTurn_cases taken
  constructor
  · exact apart.serial grant
  · intro thread op rest found calls spending clearing
    have works := apart.invalidates thread op rest found calls spending
    rw [present] at found
    cases found
    rw [shape] at calls
    cases calls
    rw [stored]
    exact grant.cleared turn.choice called endpoint.store works clearing
  · intro _ _ _ _ _ gone redeemable
    rw [stored] at redeemable
    exact gone (grant.redeemable_exec _ _ _ redeemable)
  · intro op clears
    rw [stored]
    exact grant.clearedBy_exec _ op _ _ clears

theorem RedeemsApart.of_idle {turn : Turn Choice}
    (works : turn.choice.fails = false) (idle : otherThreadsIdle endpoint turn = true) :
    RedeemsApart endpoint turn where
  invalidates := fun _ _ _ _ _ _ => works
  serial := by
    intro grant thread other index _ _ _ apart present _ between
    rcases idle_of_otherThreadsIdle idle present apart with untouched | ⟨result, ended⟩
    · exact between.1 untouched
    · exact between.2.2 result ended

/-- In a run whose turns redeem apart, every code is used at most once. -/
theorem codes_are_single_use (provider : Provider) (store : Store) (requests : List TokenRequest)
    (endpoint : Endpoint)
    (reached : Reaches (takeTurn exec) RedeemsApart
      (arrive (tokenHandler provider) store requests) endpoint) (grant : Grant) :
    grant.UsedOnce endpoint := by
  have looks := tokenHandler_looksUpFirst provider grant
  have exclusive : Exclusive grant.artefact (tokenHandler provider) endpoint := by
    refine Reaches.invariant (Exclusive grant.artefact (tokenHandler provider)) ?_ ?_ endpoint
      reached
    · exact Exclusive.arrive store requests
    · intro state turn next before apart taken
      exact before.afterTurn looks taken (apart.keepsApart taken grant)
  exact exclusive.redeemedOnce looks

/-! ## One code, two requests -/

def outcomes (endpoint : Endpoint) : List (TokenRequest × Option Response) :=
  endpoint.threads.map fun thread => (thread.request, thread.program.outcome)

theorem not_usedOnce {grant : Grant} {request : TokenRequest}
    {leftResponse rightResponse : Response}
    (served : outcomes endpoint = [(request, some leftResponse), (request, some rightResponse)])
    (presents : grant.presentedBy request) (issuedLeft : leftResponse.Issued)
    (issuedRight : rightResponse.Issued) : ¬ grant.UsedOnce endpoint := by
  intro once
  obtain ⟨left, others, threads, isLeft, served⟩ := List.map_eq_cons_iff.mp served
  obtain ⟨right, rest, rfl, isRight, _⟩ := List.map_eq_cons_iff.mp served
  obtain ⟨requestLeft, endedLeft⟩ := Prod.mk.inj isLeft
  obtain ⟨requestRight, endedRight⟩ := Prod.mk.inj isRight
  have same := once 0 1 left right leftResponse rightResponse (by rw [threads]; rfl)
    (by rw [threads]; rfl) (by rw [requestLeft]; exact presents)
    (by rw [requestRight]; exact presents) (Program.eq_done_of_outcome endedLeft)
    (Program.eq_done_of_outcome endedRight) issuedLeft issuedRight
  exact absurd same (by decide)

def plainProvider : Provider :=
  ⟨"https://issuer", fun raw => "hash of " ++ raw, fun secret => "hash of " ++ secret,
    fun verifier => "hash of " ++ verifier⟩

/-- A session, a device code and an offer that can be redeemed until time 10. -/
def openStore : Store where
  sessions := [⟨"session", "did:key:alice", "app", "openid", "", "code", "hash of verifier", 10⟩]
  refreshTokens := []
  deviceCodes := [⟨"device", "app", "openid", "did:key:alice", true, false, 10⟩]
  offers := [⟨"offer", ["degree"], "did:key:alice", 10, false⟩]
  clients := [⟨"app", "", "none"⟩]
  codes_distinct := by decide

def codeRequest : TokenRequest :=
  .authorizationCode "code" "app" "verifier" ⟨none, ""⟩

def turnOf (thread : Nat) (drawn : String) : Turn Choice :=
  ⟨thread, ⟨false, 1, drawn⟩⟩

theorem code_redeemed_then_refused :
    ∃ endpoint : Endpoint,
      Reaches (takeTurn exec) RedeemsApart
        (arrive (tokenHandler plainProvider) openStore [codeRequest, codeRequest]) endpoint ∧
      outcomes endpoint =
        [(codeRequest, some (.tokens "a" "a" "a" "openid" 3600)),
          (codeRequest, some (.error "invalid_grant" "code not found or expired"))] ∧
      (Grant.authorizationCode "code").UsedOnce endpoint := by
  let start : Endpoint :=
    arrive (tokenHandler plainProvider) openStore [codeRequest, codeRequest]
  let guard : Endpoint → Turn Choice → Bool :=
    fun endpoint turn => !turn.choice.fails && otherThreadsIdle endpoint turn
  let turns := List.replicate 10 (turnOf 0 "a") ++ [turnOf 1 "b"]
  have served : (runChecked (takeTurn exec) guard start turns).map outcomes =
      some [(codeRequest, some (.tokens "a" "a" "a" "openid" 3600)),
        (codeRequest, some (.error "invalid_grant" "code not found or expired"))] := by
    decide +kernel
  obtain ⟨endpoint, run, outcome⟩ := Option.map_eq_some_iff.mp served
  have reached : Reaches (takeTurn exec) RedeemsApart start endpoint := by
    refine runChecked_reaches guard ?_ turns start endpoint run
    intro state turn checked
    obtain ⟨works, idle⟩ := (Bool.and_eq_true _ _).mp checked
    exact RedeemsApart.of_idle (by simpa using works) idle
  exact ⟨endpoint, reached, outcome,
    codes_are_single_use plainProvider openStore [codeRequest, codeRequest] endpoint reached _⟩

/-- Two requests that look the authorization code up before either of them
deletes its session both get tokens, and so does the second request for a
device code or an offer whose invalidation failed. -/
theorem codes_are_used_twice :
    (∃ (requests : List TokenRequest) (endpoint : Endpoint),
      Reaches (takeTurn exec) (fun _ _ => True)
        (arrive (tokenHandler plainProvider) openStore requests) endpoint ∧
      ¬ (Grant.authorizationCode "code").UsedOnce endpoint) ∧
    (∃ (requests : List TokenRequest) (endpoint : Endpoint),
      Reaches (takeTurn exec) (fun _ _ => True)
        (arrive (tokenHandler plainProvider) openStore requests) endpoint ∧
      ¬ (Grant.deviceCode "device").UsedOnce endpoint) ∧
    (∃ (requests : List TokenRequest) (endpoint : Endpoint),
      Reaches (takeTurn exec) (fun _ _ => True)
        (arrive (tokenHandler plainProvider) openStore requests) endpoint ∧
      ¬ (Grant.preAuthorizedCode "offer").UsedOnce endpoint) := by
  have twice : ∀ (grant : Grant) (request : TokenRequest) (turns : List (Turn Choice))
      (left right : Response), grant.presentedBy request → left.Issued → right.Issued →
      (runChecked (takeTurn exec) (fun _ _ => true)
        (arrive (tokenHandler plainProvider) openStore [request, request]) turns).map outcomes =
          some [(request, some left), (request, some right)] →
      ∃ (requests : List TokenRequest) (endpoint : Endpoint),
        Reaches (takeTurn exec) (fun _ _ => True)
          (arrive (tokenHandler plainProvider) openStore requests) endpoint ∧
        ¬ grant.UsedOnce endpoint := by
    intro grant request turns left right presents issuedLeft issuedRight served
    obtain ⟨endpoint, run, outcome⟩ := Option.map_eq_some_iff.mp served
    refine ⟨[request, request], endpoint, ?_, ?_⟩
    · exact runChecked_unguarded run
    · exact not_usedOnce outcome presents issuedLeft issuedRight
  refine ⟨?_, ?_, ?_⟩
  · refine twice _ codeRequest
      ([turnOf 0 "a", turnOf 1 "b"] ++ List.replicate 9 (turnOf 0 "a") ++
        List.replicate 9 (turnOf 1 "b"))
      (.tokens "a" "a" "a" "openid" 3600) (.tokens "b" "b" "b" "openid" 3600) rfl trivial trivial
      ?_
    decide +kernel
  · refine twice _ (.deviceCode "device" "app")
      (List.replicate 7 (turnOf 0 "a") ++ [⟨0, ⟨true, 1, ""⟩⟩] ++
        List.replicate 8 (turnOf 1 "b"))
      (.tokens "a" "" "a" "openid" 3600) (.tokens "b" "" "b" "openid" 3600) rfl trivial trivial
      ?_
    decide +kernel
  · refine twice _ (.preAuthorizedCode "offer")
      (List.replicate 2 (turnOf 0 "a") ++ [⟨0, ⟨true, 1, ""⟩⟩] ++
        List.replicate 2 (turnOf 0 "a") ++ List.replicate 5 (turnOf 1 "b"))
      (.credentialToken "a" "a" 3600) (.credentialToken "b" "b" 3600) rfl trivial trivial
      ?_
    decide +kernel

end Pantheon.Identity.Oidc
