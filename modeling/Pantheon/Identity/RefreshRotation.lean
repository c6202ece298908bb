import Mathlib
import Pantheon.Lib.Runs
import Pantheon.Lib.CheckThenAct
import Pantheon.Identity.TokenGrants
import Pantheon.Identity.SingleUse

/-!
# Rotation of refresh tokens

A refresh token is looked up, then marked as used by saving it again, then its
successor is saved.  A saved token that is not marked is either presented
first or was drawn by the request that saves it; where drawn tokens are fresh,
no token is unmarked again.
-/

set_option autoImplicit false

namespace Pantheon.Identity.Oidc

open Pantheon.Lib

/-- The row is there and has not been marked as used. -/
def Usable (store : Store) (hash : String) : Prop :=
  ∃ token ∈ store.refreshTokens, token.hash = hash ∧ token.usedAt = none

def Op.MarksUsed : Op → Prop
  | .saveRefreshToken token => token.usedAt.isSome
  | _ => False

instance : DecidablePred Op.MarksUsed
  | .saveRefreshToken token => inferInstanceAs (Decidable (token.usedAt.isSome = true))
  | .getSessionByCode _ | .deleteSession _ | .getRefreshToken _ | .deleteRefreshToken _
  | .getDeviceCode _ | .deleteDeviceCode _ | .getCredentialOffer _ | .markCredentialOfferUsed _
  | .getClient _ | .now | .issueJWT _ | .randomHex _ => isFalse id

def marksHash (hash : String) : Op → Prop
  | .saveRefreshToken token => token.hash = hash ∧ token.usedAt.isSome
  | _ => False

section Rotation

variable (provider : Provider)

def presentsToken (hash : String) : TokenRequest → Prop
  | .refreshToken rawToken _ => provider.hashToken rawToken = hash
  | _ => False

def rotation (hash : String) : Artefact Op Response TokenRequest Store where
  presents := presentsToken provider hash
  redeemed := Response.Issued
  spends := Op.MarksUsed
  redeemable := fun store => Usable store hash
  clears := fun _ => marksHash hash

/-- A request that presented the one token was answered with the other. -/
def Succeeds (endpoint : Endpoint) (hash next : String) : Prop :=
  ∃ thread ∈ endpoint.threads, presentsToken provider hash thread.request ∧
    ∃ (accessToken idToken rawRefresh scope : String) (expiresIn : Nat),
      thread.program = .done (.tokens accessToken idToken rawRefresh scope expiresIn) ∧
      provider.hashToken rawRefresh = next

/-- The tokens that a token was exchanged for, and these, and so on. -/
def Chain (endpoint : Endpoint) : String → String → Prop :=
  Relation.ReflTransGen (Succeeds provider endpoint)

def Seen (endpoint : Endpoint) (hash : String) : Prop :=
  (∃ token ∈ endpoint.store.refreshTokens, token.hash = hash) ∨
    ∃ thread ∈ endpoint.threads, ∃ call ∈ thread.calls,
      call.1 = .getRefreshToken hash ∨
        ∃ bytes, call.1 = .randomHex bytes ∧ provider.hashToken call.2.drawn = hash

/-- The turn marks what it means to mark, it does not look a token up while
another request that presents it has looked it up, has not ended and has
marked nothing, and a token it draws is fresh. -/
structure RotatesApart (endpoint : Endpoint) (turn : Turn Choice) : Prop where
  marks : ∀ (thread : RequestThread) (op : Op) (rest : op.Reply → Handler Response),
    endpoint.threads[turn.thread]? = some thread → thread.program = .call op rest →
    op.MarksUsed → turn.choice.fails = false
  serial : ∀ (hash : String) (thread other : RequestThread) (index : Nat),
    endpoint.threads[turn.thread]? = some thread → presentsToken provider hash thread.request →
    thread.calls = [] → index ≠ turn.thread → endpoint.threads[index]? = some other →
    presentsToken provider hash other.request → ¬ other.Between (rotation provider hash)
  fresh : ∀ (thread : RequestThread) (bytes : Nat)
    (rest : (Op.randomHex bytes).Reply → Handler Response),
    endpoint.threads[turn.thread]? = some thread →
    thread.program = .call (.randomHex bytes) rest → turn.choice.fails = false →
    ¬ Seen provider endpoint (provider.hashToken turn.choice.drawn)

/-- The hash is that of no row, no token looked up and no token drawn. -/
def unseen (endpoint : Endpoint) (hash : String) : Bool :=
  (endpoint.store.refreshTokens.all fun token => token.hash != hash) &&
    endpoint.threads.all fun thread => thread.calls.all fun call =>
      match call.1 with
      | .getRefreshToken shown => shown != hash
      | .randomHex _ => provider.hashToken call.2.drawn != hash
      | _ => true

variable {hash : String} {op : Op} {rest : op.Reply → Handler Response} {index : Nat}

variable {provider} in
theorem not_seen_of_unseen {endpoint : Endpoint}
    (checked : unseen provider endpoint hash = true) : ¬ Seen provider endpoint hash := by
  obtain ⟨rows, calls⟩ := (Bool.and_eq_true _ _).mp checked
  rintro (⟨token, mem, names⟩ | ⟨thread, mem, call, made, shown⟩)
  · exact absurd names (by simpa using List.all_eq_true.mp rows token mem)
  · have quiet := List.all_eq_true.mp (List.all_eq_true.mp calls thread mem) call made
    rcases shown with lookup | ⟨bytes, draw, isHash⟩
    · simp [lookup] at quiet
    · simp [draw, isHash] at quiet

variable {provider} in
/-- Requests that are served one after the other, with tokens that have not
been seen, rotate apart. -/
theorem RotatesApart.of_idle {endpoint : Endpoint} {turn : Turn Choice}
    (works : turn.choice.fails = false) (idle : otherThreadsIdle endpoint turn = true)
    (fresh : unseen provider endpoint (provider.hashToken turn.choice.drawn) = true) :
    RotatesApart provider endpoint turn where
  marks := fun _ _ _ _ _ _ => works
  serial := by
    intro hash thread other index _ _ _ apart present _ between
    rcases idle_of_otherThreadsIdle idle present apart with untouched | ⟨result, ended⟩
    · exact between.1 untouched
    · exact between.2.2 result ended
  fresh := fun _ _ _ _ _ _ => not_seen_of_unseen fresh

/-! ## What the handlers save -/

/-- An unused token is saved only if it is the one `drawn` last, and then
once; a used one only if its hash is the one presented, in a program that may
still succeed. -/
def SavesDrawn (presented : String → Prop) : Option String → Handler Response → Prop
  | _, .done _ => True
  | drawn, .call (.saveRefreshToken token) rest =>
      (token.usedAt = none → drawn = some token.hash) ∧
      (token.usedAt.isSome →
        presented token.hash ∧ ¬ ∀ reply, (rest reply).Never Response.Issued) ∧
      ∀ reply, SavesDrawn presented (if token.usedAt = none then none else drawn) (rest reply)
  | _, .call (.randomHex _) rest =>
      ∀ reply, SavesDrawn presented (reply.map provider.hashToken) (rest reply)
  | drawn, .call _ rest => ∀ reply, SavesDrawn presented drawn (rest reply)

def Op.SavesOrDraws : Op → Prop
  | .saveRefreshToken _ | .randomHex _ => True
  | _ => False

variable {provider} {presented : String → Prop} {drawn : Option String}

theorem savesDrawn_call
    (quiet : ¬ op.SavesOrDraws) (later : ∀ reply, SavesDrawn provider presented drawn (rest reply)) :
    SavesDrawn provider presented drawn (.call op rest) := by
  cases op with
  | saveRefreshToken token => exact absurd trivial quiet
  | randomHex bytes => exact absurd trivial quiet
  | _ => exact later

theorem savesDrawn_ask {next : op.Reply → Handler Response} (quiet : ¬ op.SavesOrDraws)
    (later : ∀ reply, SavesDrawn provider presented drawn (next reply)) :
    SavesDrawn provider presented drawn (ask op >>= next) :=
  savesDrawn_call quiet later

theorem savesDrawn_of_avoids {α : Type} {next : α → Handler Response}
    (later : ∀ result, SavesDrawn provider presented drawn (next result)) :
    ∀ {first : Handler α}, first.Avoids Op.SavesOrDraws →
      SavesDrawn provider presented drawn (first >>= next) := by
  intro first
  induction first with
  | done result =>
      intro _
      exact later result
  | call op rest ih =>
      intro avoids
      exact savesDrawn_call avoids.1 fun reply => ih reply (avoids.2 reply)

theorem savesDrawn_of_quiet : ∀ {program : Handler Response},
    program.Avoids Op.SavesOrDraws → SavesDrawn provider presented drawn program := by
  intro program
  induction program with
  | done result =>
      intro _
      trivial
  | call op rest ih =>
      intro avoids
      exact savesDrawn_call avoids.1 fun reply => ih reply (avoids.2 reply)

/-- The tail of a grant: a token is drawn and saved unused, and nothing is
saved after that. -/
theorem savesDrawn_newToken {subject client scope : String} {finish : String → Handler Response}
    (quiet : ∀ raw, (finish raw).Avoids Op.SavesOrDraws) :
    SavesDrawn provider presented drawn (do
      let some (rawRefresh, refreshHash) ← generateRefreshToken provider
        | return .internalError
      let token ← newRefreshToken refreshHash subject client scope
      if !(← ask (.saveRefreshToken token)) then
        return .internalError
      finish rawRefresh) := by
  intro raw
  cases raw with
  | none => trivial
  | some raw =>
      refine savesDrawn_ask id fun issuedAt => savesDrawn_ask id fun expiring => ?_
      refine ⟨fun _ => rfl, fun used => absurd used (by simp), fun saved => ?_⟩
      cases saved with
      | true => exact savesDrawn_of_quiet (quiet raw)
      | false => trivial

theorem savesDrawn_authorizationCode (code clientID codeVerifier : String) (auth : ClientAuth) :
    SavesDrawn provider presented drawn
      (handleAuthCodeExchange provider code clientID codeVerifier auth) := by
  unfold handleAuthCodeExchange
  split
  · trivial
  refine savesDrawn_ask id fun reply => ?_
  cases reply with
  | none => trivial
  | some sess =>
      refine savesDrawn_ask id fun now => ?_
      split_ifs <;> try trivial
      refine savesDrawn_of_avoids (fun message => ?_) (validateClientAuth_avoids provider _ _ id)
      cases message with
      | some message => trivial
      | none =>
          refine savesDrawn_ask id fun idToken => ?_
          cases idToken with
          | none => trivial
          | some idToken =>
              refine savesDrawn_ask id fun accessToken => ?_
              cases accessToken with
              | none => trivial
              | some accessToken => exact savesDrawn_newToken fun _ => avoids_ask id fun _ => trivial

theorem savesDrawn_deviceCode (code clientID : String) :
    SavesDrawn provider presented drawn (handleDeviceGrant provider code clientID) := by
  unfold handleDeviceGrant
  split
  · trivial
  refine savesDrawn_ask id fun reply => ?_
  cases reply with
  | none => trivial
  | some dc =>
      dsimp only
      split
      · trivial
      refine savesDrawn_ask id fun now => ?_
      split
      · exact savesDrawn_ask id fun _ => trivial
      split
      · exact savesDrawn_ask id fun _ => trivial
      split
      · trivial
      refine savesDrawn_ask id fun accessToken => ?_
      cases accessToken with
      | none => trivial
      | some accessToken => exact savesDrawn_newToken fun _ => avoids_ask id fun _ => trivial

theorem savesDrawn_preAuthorizedCode (code : String) :
    SavesDrawn provider presented drawn (handlePreAuthorizedCode provider code) := by
  unfold handlePreAuthorizedCode
  split
  · trivial
  refine savesDrawn_ask id fun reply => ?_
  cases reply with
  | none => trivial
  | some offer =>
      dsimp only
      split
      · trivial
      refine savesDrawn_ask id fun now => ?_
      split
      · trivial
      refine savesDrawn_ask id fun marked => savesDrawn_ask id fun accessToken => ?_
      cases accessToken with
      | none => trivial
      | some accessToken => exact fun cNonce => trivial

theorem savesDrawn_refreshToken (rawToken : String) (auth : ClientAuth)
    (presents : presented (provider.hashToken rawToken)) :
    SavesDrawn provider presented drawn (handleRefreshTokenGrant provider rawToken auth) := by
  unfold handleRefreshTokenGrant
  split
  · trivial
  refine savesDrawn_ask id fun reply => ?_
  cases reply with
  | none => trivial
  | some found =>
      obtain ⟨rt, names⟩ := found
      refine savesDrawn_ask id fun now => ?_
      split
      · exact savesDrawn_ask id fun _ => trivial
      split
      · exact savesDrawn_ask id fun _ => trivial
      refine savesDrawn_of_avoids (fun message => ?_) (validateClientAuth_avoids provider _ _ id)
      cases message with
      | some message => trivial
      | none =>
          refine savesDrawn_ask id fun marking => ?_
          refine ⟨fun unused => absurd unused (by simp), fun _ => ⟨?_, ?_⟩, fun marked => ?_⟩
          · rw [show ({ rt with usedAt := some marking } : RefreshToken).hash = rt.hash from rfl,
              names]
            exact presents
          · -- The token can still be issued, saved and handed out.
            intro never
            exact never true (some "") (some "") 0 0 true trivial
          · refine savesDrawn_ask id fun accessToken => ?_
            cases accessToken with
            | none => trivial
            | some accessToken => exact savesDrawn_newToken fun _ => trivial

theorem savesDrawn_tokenHandler (request : TokenRequest) :
    SavesDrawn provider (fun hash => presentsToken provider hash request) drawn
      (tokenHandler provider request) := by
  cases request with
  | authorizationCode code clientID codeVerifier auth =>
      exact savesDrawn_authorizationCode code clientID codeVerifier auth
  | refreshToken rawToken auth => exact savesDrawn_refreshToken rawToken auth rfl
  | deviceCode deviceCode clientID => exact savesDrawn_deviceCode deviceCode clientID
  | preAuthorizedCode preAuthCode => exact savesDrawn_preAuthorizedCode preAuthCode

/-! ## The lookup of a refresh token -/

theorem refreshToken_looksUpFirst (rawToken : String) (auth : ClientAuth) :
    LooksUpFirst (rotation provider (provider.hashToken rawToken)) exec
      (handleRefreshTokenGrant provider rawToken auth) := by
  unfold handleRefreshTokenGrant
  split
  · exact Or.inl not_false
  refine looksUpFirst_ask id fun choice store => ⟨rfl, ?_⟩
  cases reply : (exec choice (.getRefreshToken (provider.hashToken rawToken)) store).2 with
  | none => exact Or.inl not_false
  | some found =>
      obtain ⟨rt, names⟩ := found
      have row : store.getRefreshToken (provider.hashToken rawToken) = some ⟨rt, names⟩ := by
        simp only [exec] at reply
        split_ifs at reply
        exact reply
      have mem := mem_of_firstWith row
      cases used : rt.usedAt with
      | some time =>
          left
          refine never_ask fun now => ?_
          split
          · exact never_ask fun _ => not_false
          · rw [if_pos (by simp [used])]
            exact never_ask fun _ => not_false
      | none =>
          refine Or.inr ⟨⟨rt, mem, names, used⟩, ?_⟩
          refine owes_ask id fun now => ?_
          split
          · exact owes_ask id fun _ => not_false
          rw [if_neg (by simp [used])]
          refine Program.Owes.of_avoids (fun message => ?_)
            (validateClientAuth_avoids provider auth rt.clientID id)
          cases message with
          | some message => exact not_false
          | none =>
              refine owes_ask id fun marking => ?_
              exact owes_clearing rfl ⟨names, rfl⟩

theorem rotation_looksUpFirst (hash : String) (request : TokenRequest)
    (presents : presentsToken provider hash request) :
    LooksUpFirst (rotation provider hash) exec (tokenHandler provider request) := by
  cases request with
  | refreshToken rawToken auth =>
      cases presents
      exact refreshToken_looksUpFirst rawToken auth
  | _ => exact presents.elim

theorem first_call_of_presents {request : TokenRequest}
    (presents : presentsToken provider hash request)
    (shape : tokenHandler provider request = .call op rest) :
    op = .getRefreshToken hash := by
  cases request with
  | refreshToken rawToken auth =>
      cases presents
      change handleRefreshTokenGrant provider rawToken auth = _ at shape
      unfold handleRefreshTokenGrant at shape
      by_cases missing : rawToken = ""
      · rw [if_pos missing] at shape
        cases shape
      · rw [if_neg missing] at shape
        cases shape
        rfl
  | _ => exact presents.elim

/-! ## What a run keeps -/

/-- Which token each request has drawn and not yet saved.  Nobody else has
drawn it, no row has its hash, and no request that presents it is active. -/
structure Drawn (provider : Provider) (endpoint : Endpoint) (drawn : Nat → Option String) :
    Prop where
  saves : ∀ (index : Nat) (thread : RequestThread), endpoint.threads[index]? = some thread →
    SavesDrawn provider (fun hash => presentsToken provider hash thread.request) (drawn index)
      thread.program
  logged : ∀ (index : Nat) (hash : String), drawn index = some hash →
    ∃ thread : RequestThread, endpoint.threads[index]? = some thread ∧
      ∃ call ∈ thread.calls, ∃ bytes, call.1 = .randomHex bytes ∧
        provider.hashToken call.2.drawn = hash
  own : ∀ (first second : Nat) (hash : String), drawn first = some hash →
    drawn second = some hash → first = second
  unsaved : ∀ (index : Nat) (hash : String), drawn index = some hash →
    ∀ token ∈ endpoint.store.refreshTokens, token.hash ≠ hash
  idle : ∀ (index : Nat) (hash : String), drawn index = some hash →
    ∀ (other : Nat) (thread : RequestThread), endpoint.threads[other]? = some thread →
      presentsToken provider hash thread.request → ¬ thread.Active (rotation provider hash)

structure Tracked (provider : Provider) (endpoint : Endpoint) : Prop where
  untouched : ∀ (index : Nat) (thread : RequestThread), endpoint.threads[index]? = some thread →
    thread.calls = [] → thread.program = tokenHandler provider thread.request
  lookedUp : ∀ (index : Nat) (thread : RequestThread) (hash : String),
    endpoint.threads[index]? = some thread → presentsToken provider hash thread.request →
    thread.calls ≠ [] → ∃ call ∈ thread.calls, call.1 = .getRefreshToken hash
  exclusive : ∀ hash, Exclusive (rotation provider hash) (tokenHandler provider) endpoint
  drawn : ∃ drawn, Drawn provider endpoint drawn

variable {endpoint next : Endpoint} {turn : Turn Choice}

theorem Tracked.arrive (store : Store) (requests : List TokenRequest) :
    Tracked provider (arrive (tokenHandler provider) store requests) where
  untouched := by
    intro index thread present _
    obtain ⟨request, _, rfl⟩ := List.mem_map.mp (List.mem_of_getElem? present)
    rfl
  lookedUp := by
    intro index thread hash present _ started
    obtain ⟨request, _, rfl⟩ := List.mem_map.mp (List.mem_of_getElem? present)
    exact absurd rfl started
  exclusive := fun hash => Exclusive.arrive store requests
  drawn := by
    refine ⟨fun _ => none, ?_, nofun, nofun, nofun, nofun⟩
    intro index thread present
    obtain ⟨request, _, rfl⟩ := List.mem_map.mp (List.mem_of_getElem? present)
    exact savesDrawn_tokenHandler request

theorem Tracked.seen_of_active (tracked : Tracked provider endpoint)
    {thread : RequestThread} (present : endpoint.threads[index]? = some thread)
    (presents : presentsToken provider hash thread.request)
    (active : thread.Active (rotation provider hash)) : Seen provider endpoint hash := by
  obtain ⟨call, made, lookup⟩ := tracked.lookedUp index thread hash present presents active.1
  exact Or.inr ⟨thread, List.mem_of_getElem? present, call, made, Or.inl lookup⟩

/-- A call that saves a marked token comes from an active request that
presents it. -/
theorem Tracked.active_of_marks (tracked : Tracked provider endpoint)
    {drawn : Nat → Option String} (keeps : Drawn provider endpoint drawn)
    {thread : RequestThread} {token : RefreshToken} {rest : Bool → Handler Response}
    (present : endpoint.threads[index]? = some thread)
    (shape : thread.program = .call (.saveRefreshToken token) rest)
    (used : token.usedAt.isSome) :
    presentsToken provider token.hash thread.request ∧
      thread.Active (rotation provider token.hash) := by
  have saves := keeps.saves index thread present
  rw [shape] at saves
  obtain ⟨presents, mayIssue⟩ := saves.2.1 used
  refine ⟨presents, ?_, ?_⟩
  · intro untouched
    have initial := tracked.untouched index thread present untouched
    rw [shape] at initial
    cases first_call_of_presents presents initial.symm
  · intro never
    rw [shape] at never
    exact mayIssue never

theorem RotatesApart.keepsApart (apart : RotatesApart provider endpoint turn)
    (tracked : Tracked provider endpoint) (taken : takeTurn exec endpoint turn = some next)
    (hash : String) : KeepsApart (rotation provider hash) exec endpoint next turn := by
  obtain ⟨mover, called, tail, present, shape, stored, _⟩ := takeTurn_cases taken
  constructor
  · exact apart.serial hash
  · intro thread op rest found calls marking clearing
    have works := apart.marks thread op rest found calls marking
    rw [present] at found
    cases found
    rw [shape] at calls
    cases calls
    cases called with
    | saveRefreshToken token =>
        obtain ⟨names, used⟩ := clearing
        rintro ⟨row, mem, rowNames, unused⟩
        rw [stored] at mem
        simp only [exec, works, Bool.false_eq_true, if_false] at mem
        rcases mem_saveRefreshToken mem with ⟨_, other⟩ | ⟨_, marked⟩
        · exact other (rowNames.trans names.symm)
        · rw [← marked, unused] at used
          cases used
    | _ => exact marking.elim
  · intro index thread found presents active gone
    rintro ⟨row, mem, names, unused⟩
    rw [stored] at mem
    rcases exec_refreshTokens turn.choice called endpoint.store with kept | ⟨token, isSave, _, saved⟩
    · exact gone ⟨row, kept row mem, names, unused⟩
    · rw [saved] at mem
      rcases mem_saveRefreshToken mem with ⟨old, _⟩ | ⟨same, marked⟩
      · exact gone ⟨row, old, names, unused⟩
      · -- Only a drawn token is saved unused, and this one has been presented.
        obtain ⟨drawn, keeps⟩ := tracked.drawn
        have saves := keeps.saves turn.thread mover present
        subst isSave
        rw [shape] at saves
        have isDrawn := saves.1 (marked.symm.trans unused)
        rw [← same, names] at isDrawn
        exact keeps.idle turn.thread hash isDrawn index thread found presents active
  · exact fun _ clears => clears

/-- The token a request has drawn and not saved, after one more call. -/
def stillDrawn (provider : Provider) (drawn : Option String) : (op : Op) → op.Reply → Option String
  | .randomHex _, reply => reply.map provider.hashToken
  | .saveRefreshToken token, _ => if token.usedAt = none then none else drawn
  | _, _ => drawn

theorem savesDrawn_rest
    (saves : SavesDrawn provider presented drawn (.call op rest)) (reply : op.Reply) :
    SavesDrawn provider presented (stillDrawn provider drawn op reply) (rest reply) := by
  cases op with
  | saveRefreshToken token => exact saves.2.2 reply
  | _ => exact saves reply

theorem stillDrawn_eq_some {choice : Choice} {store : Store}
    (still : stillDrawn provider drawn op (exec choice op store).2 = some hash) :
    drawn = some hash ∨
      ∃ bytes, op = .randomHex bytes ∧ choice.fails = false ∧
        provider.hashToken choice.drawn = hash := by
  cases op with
  | randomHex bytes =>
      right
      simp only [stillDrawn, exec] at still
      split_ifs at still with fails
      · cases still
      · exact ⟨bytes, rfl, by simpa using fails, Option.some.inj still⟩
  | saveRefreshToken token =>
      left
      simp only [stillDrawn] at still
      split_ifs at still
      exact still
  | _ => exact Or.inl still

/-- What each thread has drawn and not saved behind a turn that calls `called`. -/
def drawnAfter (provider : Provider) (endpoint : Endpoint) (turn : Turn Choice) (called : Op)
    (drawn : Nat → Option String) : Nat → Option String :=
  Function.update drawn turn.thread
    (stillDrawn provider (drawn turn.thread) called (exec turn.choice called endpoint.store).2)

theorem Drawn.seen {drawn : Nat → Option String} (keeps : Drawn provider endpoint drawn)
    (isDrawn : drawn index = some hash) :
    Seen provider endpoint hash := by
  obtain ⟨thread, found, call, made, isDraw⟩ := keeps.logged index hash isDrawn
  exact Or.inr ⟨thread, List.mem_of_getElem? found, call, made, Or.inr isDraw⟩

section AfterTurn

variable {drawn : Nat → Option String} {mover : RequestThread} {called : Op}
  {tail : called.Reply → Handler Response} {index : Nat} {hash : String}
variable (tracked : Tracked provider endpoint) (apart : RotatesApart provider endpoint turn)
  (keeps : Drawn provider endpoint drawn) (present : endpoint.threads[turn.thread]? = some mover)
  (shape : mover.program = .call called tail)
  (isDrawn : drawnAfter provider endpoint turn called drawn index = some hash)

include apart present shape isDrawn

/-- What is drawn now was drawn before or has not been seen before. -/
theorem drawn_source : drawn index = some hash ∨ (index = turn.thread ∧
    ¬ Seen provider endpoint hash ∧
      ∃ bytes, called = .randomHex bytes ∧ provider.hashToken turn.choice.drawn = hash) := by
  by_cases same : index = turn.thread
  · subst same
    rw [drawnAfter, Function.update_self] at isDrawn
    rcases stillDrawn_eq_some isDrawn with old | ⟨bytes, isDraw, works, isHash⟩
    · exact Or.inl old
    · subst isDraw
      refine Or.inr ⟨rfl, ?_, bytes, rfl, isHash⟩
      rw [← isHash]
      exact apart.fresh mover bytes tail present shape works
  · rw [drawnAfter, Function.update_of_ne same] at isDrawn
    exact Or.inl isDrawn

include keeps

theorem drawn_unsaved : ∀ token ∈ endpoint.store.refreshTokens, token.hash ≠ hash := by
  intro token mem
  rcases drawn_source apart present shape isDrawn with old | ⟨_, unseen, _⟩
  · exact keeps.unsaved index hash old token mem
  · exact fun names => unseen (Or.inl ⟨token, mem, names⟩)

include tracked

theorem drawn_idle (other : Nat) (thread : RequestThread)
    (found : endpoint.threads[other]? = some thread)
    (presents : presentsToken provider hash thread.request) :
    ¬ thread.Active (rotation provider hash) := by
  intro active
  rcases drawn_source apart present shape isDrawn with old | ⟨_, unseen, _⟩
  · exact keeps.idle index hash old other thread found presents active
  · exact unseen (tracked.seen_of_active found presents active)

end AfterTurn

theorem Tracked.drawn_afterTurn (tracked : Tracked provider endpoint)
    (apart : RotatesApart provider endpoint turn)
    (taken : takeTurn exec endpoint turn = some next) : ∃ drawn, Drawn provider next drawn := by
  obtain ⟨drawn, keeps⟩ := tracked.drawn
  obtain ⟨mover, called, tail, present, shape, stored, threads⟩ := takeTurn_cases taken
  have moverSaves := keeps.saves turn.thread mover present
  rw [shape] at moverSaves
  have moved : next.threads[turn.thread]? = some ⟨mover.request,
      mover.calls ++ [(called, turn.choice)], tail (exec turn.choice called endpoint.store).2⟩ := by
    rw [threads, List.getElem?_set_self (List.getElem?_eq_some_iff.mp present).1]
  refine ⟨drawnAfter provider endpoint turn called drawn, ?_, ?_, ?_, ?_, ?_⟩
  · intro index thread found
    rw [threads] at found
    rcases thread_after_turn found with ⟨rfl, rfl⟩ | ⟨elsewhere, before⟩
    · rw [drawnAfter, Function.update_self]
      exact savesDrawn_rest moverSaves _
    · rw [drawnAfter, Function.update_of_ne elsewhere]
      exact keeps.saves index thread before
  · intro index hash isDrawn
    rcases drawn_source apart present shape isDrawn with old | ⟨rfl, _, bytes, rfl, isHash⟩
    · obtain ⟨thread, found, call, made, isDraw⟩ := keeps.logged index hash old
      by_cases same : index = turn.thread
      · subst same
        rw [present] at found
        cases found
        exact ⟨_, moved, call, List.mem_append_left _ made, isDraw⟩
      · refine ⟨thread, ?_, call, made, isDraw⟩
        rw [threads, List.getElem?_set_ne (Ne.symm same)]
        exact found
    · exact ⟨_, moved, _, List.mem_append_right _ (List.mem_singleton_self _), bytes, rfl, isHash⟩
  · intro first second hash isFirst isSecond
    rcases drawn_source apart present shape isFirst with oldFirst | ⟨atFirst, unseen, _⟩
    · rcases drawn_source apart present shape isSecond with oldSecond | ⟨atSecond, unseen, _⟩
      · exact keeps.own first second hash oldFirst oldSecond
      · exact absurd (keeps.seen oldFirst) unseen
    · rcases drawn_source apart present shape isSecond with oldSecond | ⟨atSecond, _⟩
      · exact absurd (keeps.seen oldSecond) unseen
      · exact atFirst.trans atSecond.symm
  · intro index hash isDrawn token mem names
    rw [stored] at mem
    rcases exec_refreshTokens turn.choice called endpoint.store with
      kept | ⟨saved, isSave, _, result⟩
    · exact drawn_unsaved apart keeps present shape isDrawn token (kept token mem) names
    · rw [result] at mem
      rcases mem_saveRefreshToken mem with ⟨old, _⟩ | ⟨same, _⟩
      · exact drawn_unsaved apart keeps present shape isDrawn token old names
      · subst isSave
        rw [same] at names
        by_cases unused : saved.usedAt = none
        · have own := moverSaves.1 unused
          rw [names] at own
          rcases drawn_source apart present shape isDrawn with old | ⟨_, _, bytes, isDraw, _⟩
          · have atMover := keeps.own index turn.thread hash old own
            rw [atMover, drawnAfter, Function.update_self, stillDrawn, if_pos unused] at isDrawn
            cases isDrawn
          · cases isDraw
        · have used : saved.usedAt.isSome := Option.isSome_iff_ne_none.mpr unused
          obtain ⟨presents, active⟩ := tracked.active_of_marks keeps present shape used
          rw [names] at presents active
          exact drawn_idle tracked apart keeps present shape isDrawn turn.thread mover present
            presents active
  · intro index hash isDrawn other thread found presents active
    rw [threads] at found
    rcases thread_after_turn found with ⟨rfl, rfl⟩ | ⟨_, before⟩
    · have phase := ((tracked.exclusive hash).phase turn.thread mover present presents).moved
        (rotation_looksUpFirst hash) (apart.keepsApart tracked taken hash) present shape stored
        presents
      rcases phase.2 active with was | ⟨_, row, mem, names, _⟩
      · exact drawn_idle tracked apart keeps present shape isDrawn turn.thread mover present
          presents was
      · exact drawn_unsaved apart keeps present shape isDrawn row mem names
    · exact drawn_idle tracked apart keeps present shape isDrawn other thread before presents active

theorem Tracked.afterTurn (tracked : Tracked provider endpoint)
    (apart : RotatesApart provider endpoint turn)
    (taken : takeTurn exec endpoint turn = some next) : Tracked provider next := by
  obtain ⟨mover, called, tail, present, shape, _, threads⟩ := takeTurn_cases taken
  constructor
  · intro index thread found untouched
    rw [threads] at found
    rcases thread_after_turn found with ⟨rfl, rfl⟩ | ⟨_, before⟩
    · simp at untouched
    · exact tracked.untouched index thread before untouched
  · intro index thread hash found presents started
    rw [threads] at found
    rcases thread_after_turn found with ⟨rfl, rfl⟩ | ⟨_, before⟩
    · by_cases untouched : mover.calls = []
      · have initial := tracked.untouched turn.thread mover present untouched
        rw [shape] at initial
        refine ⟨(called, turn.choice), List.mem_append_right _ (List.mem_singleton_self _), ?_⟩
        exact first_call_of_presents presents initial.symm
      · obtain ⟨call, made, lookup⟩ :=
          tracked.lookedUp turn.thread mover hash present presents untouched
        exact ⟨call, List.mem_append_left _ made, lookup⟩
    · exact tracked.lookedUp index thread hash before presents started
  · intro hash
    exact (tracked.exclusive hash).afterTurn (rotation_looksUpFirst hash) taken
      (apart.keepsApart tracked taken hash)
  · exact tracked.drawn_afterTurn apart taken

theorem Tracked.of_reaches {store : Store} {requests : List TokenRequest}
    (reached : Reaches (takeTurn exec) (RotatesApart provider)
      (Pantheon.Lib.arrive (tokenHandler provider) store requests) endpoint) :
    Tracked provider endpoint := by
  refine Reaches.invariant (Tracked provider) ?_ ?_ endpoint reached
  · exact Tracked.arrive store requests
  · intro state turn next tracked apart taken
    exact tracked.afterTurn apart taken

/-! ## Chains -/

theorem succeeds_unique
    (once : ∀ hash, (rotation provider hash).RedeemedOnce endpoint) {left right : String}
    (toLeft : Succeeds provider endpoint hash left)
    (toRight : Succeeds provider endpoint hash right) : left = right := by
  obtain ⟨leftThread, leftMem, leftPresents, _, _, leftRaw, _, _, leftEnded, rfl⟩ := toLeft
  obtain ⟨rightThread, rightMem, rightPresents, _, _, rightRaw, _, _, rightEnded, rfl⟩ := toRight
  obtain ⟨first, leftFound⟩ := List.getElem?_of_mem leftMem
  obtain ⟨second, rightFound⟩ := List.getElem?_of_mem rightMem
  have same := once hash first second leftThread rightThread _ _ leftFound rightFound leftPresents
    rightPresents leftEnded rightEnded trivial trivial
  rw [same, rightFound] at leftFound
  cases leftFound
  rw [leftEnded] at rightEnded
  cases rightEnded
  rfl

/-- In a run whose turns rotate apart, a refresh token is exchanged by at most
one request, and of a chain at most one token is usable. -/
theorem rotation_is_linear (provider : Provider) (store : Store) (requests : List TokenRequest)
    (endpoint : Endpoint)
    (reached : Reaches (takeTurn exec) (RotatesApart provider)
      (Pantheon.Lib.arrive (tokenHandler provider) store requests) endpoint) :
    (∀ hash, (rotation provider hash).RedeemedOnce endpoint) ∧
    (∀ hash left right, Succeeds provider endpoint hash left →
      Succeeds provider endpoint hash right → left = right) ∧
    ∀ root left right, Chain provider endpoint root left → Chain provider endpoint root right →
      Usable endpoint.store left → Usable endpoint.store right → left = right := by
  have tracked := Tracked.of_reaches reached
  have once : ∀ hash, (rotation provider hash).RedeemedOnce endpoint :=
    fun hash => (tracked.exclusive hash).redeemedOnce (rotation_looksUpFirst hash)
  have unique : Relator.RightUnique (Succeeds provider endpoint) :=
    fun _ _ _ toLeft toRight => succeeds_unique once toLeft toRight
  have exchanged : ∀ hash next, Succeeds provider endpoint hash next →
      ¬ Usable endpoint.store hash := by
    rintro hash next ⟨thread, mem, presents, _, _, _, _, _, ended, _⟩
    obtain ⟨index, found⟩ := List.getElem?_of_mem mem
    exact (tracked.exclusive hash).gone_of_redeemed (rotation_looksUpFirst hash) found presents
      ended trivial
  -- Further along the chain there is something only if this one was exchanged.
  have last : ∀ left right, Chain provider endpoint left right → Usable endpoint.store left →
      left = right := by
    intro left right chain usable
    rcases Relation.ReflTransGen.cases_head chain with same | ⟨middle, step, _⟩
    · exact same
    · exact absurd usable (exchanged left middle step)
  refine ⟨once, fun hash left right => succeeds_unique once, ?_⟩
  intro root left right toLeft toRight usableLeft usableRight
  rcases Relation.ReflTransGen.total_of_right_unique unique toLeft toRight with forward | backward
  · exact last left right forward usableLeft
  · exact (last right left backward usableRight).symm

end Rotation

/-! ## One token, two requests -/

def rotatingStore : Store where
  sessions := []
  refreshTokens := [⟨"hash of first", "did:key:alice", "app", "openid", 0, 10, none⟩]
  deviceCodes := []
  offers := []
  clients := [⟨"app", "", "none"⟩]
  codes_distinct := by decide

def refreshRequest : TokenRequest :=
  .refreshToken "first" ⟨none, ""⟩

theorem token_rotated_then_refused :
    ∃ endpoint : Endpoint,
      Reaches (takeTurn exec) (RotatesApart plainProvider)
        (arrive (tokenHandler plainProvider) rotatingStore [refreshRequest, refreshRequest])
        endpoint ∧
      outcomes endpoint =
        [(refreshRequest, some (.tokens "access" "" "second" "openid" 3600)),
          (refreshRequest, some (.error "invalid_grant" "refresh token already used"))] ∧
      (rotation plainProvider "hash of first").RedeemedOnce endpoint := by
  let start : Endpoint :=
    arrive (tokenHandler plainProvider) rotatingStore [refreshRequest, refreshRequest]
  let guard : Endpoint → Turn Choice → Bool := fun endpoint turn =>
    !turn.choice.fails && otherThreadsIdle endpoint turn &&
      unseen plainProvider endpoint (plainProvider.hashToken turn.choice.drawn)
  let turns := [turnOf 0 "", turnOf 0 "", turnOf 0 "", turnOf 0 "", turnOf 0 "",
    turnOf 0 "access", turnOf 0 "second", turnOf 0 "", turnOf 0 "", turnOf 0 "",
    turnOf 1 "", turnOf 1 "", turnOf 1 ""]
  have served : (runChecked (takeTurn exec) guard start turns).map outcomes =
      some [(refreshRequest, some (.tokens "access" "" "second" "openid" 3600)),
        (refreshRequest, some (.error "invalid_grant" "refresh token already used"))] := by
    decide +kernel
  obtain ⟨endpoint, run, outcome⟩ := Option.map_eq_some_iff.mp served
  have reached : Reaches (takeTurn exec) (RotatesApart plainProvider) start endpoint := by
    refine runChecked_reaches guard ?_ turns start endpoint run
    intro state turn checked
    obtain ⟨checked, fresh⟩ := (Bool.and_eq_true _ _).mp checked
    obtain ⟨works, idle⟩ := (Bool.and_eq_true _ _).mp checked
    exact RotatesApart.of_idle (by simpa using works) idle fresh
  exact ⟨endpoint, reached, outcome,
    (rotation_is_linear plainProvider rotatingStore [refreshRequest, refreshRequest] endpoint
      reached).1 _⟩

/-- Two requests that look the token up before either of them marks it both
get a successor, and both successors are usable. -/
theorem chain_forks :
    ∃ endpoint : Endpoint,
      Reaches (takeTurn exec) (fun _ _ => True)
        (arrive (tokenHandler plainProvider) rotatingStore [refreshRequest, refreshRequest])
        endpoint ∧
      ∃ left right : String, left ≠ right ∧
        Succeeds plainProvider endpoint "hash of first" left ∧
        Succeeds plainProvider endpoint "hash of first" right ∧
        Usable endpoint.store left ∧ Usable endpoint.store right := by
  let start : Endpoint :=
    arrive (tokenHandler plainProvider) rotatingStore [refreshRequest, refreshRequest]
  let turns := [turnOf 0 "", turnOf 1 ""] ++ List.replicate 9 (turnOf 0 "left") ++
    List.replicate 9 (turnOf 1 "right")
  have run : (runChecked (takeTurn exec) (fun _ _ => true) start turns).map
      (fun endpoint => (outcomes endpoint,
        endpoint.store.refreshTokens.map fun token => (token.hash, token.usedAt))) =
      some ([(refreshRequest, some (.tokens "left" "" "left" "openid" 3600)),
          (refreshRequest, some (.tokens "right" "" "right" "openid" 3600))],
        [("hash of first", some 1), ("hash of left", none), ("hash of right", none)]) := by
    decide +kernel
  obtain ⟨endpoint, run, view⟩ := Option.map_eq_some_iff.mp run
  obtain ⟨served, rows⟩ := Prod.mk.inj view
  have succeeds : ∀ raw : String,
      (refreshRequest, some (Response.tokens raw "" raw "openid" 3600)) ∈ outcomes endpoint →
      Succeeds plainProvider endpoint "hash of first" ("hash of " ++ raw) := by
    intro raw mem
    obtain ⟨thread, found, isThread⟩ := List.mem_map.mp mem
    obtain ⟨isRequest, ended⟩ := Prod.mk.inj isThread
    refine ⟨thread, found, ?_, raw, "", raw, "openid", 3600, ?_, rfl⟩
    · rw [isRequest]
      exact rfl
    · exact Program.eq_done_of_outcome ended
  have usable : ∀ hash : String,
      (hash, none) ∈ endpoint.store.refreshTokens.map (fun token => (token.hash, token.usedAt)) →
      Usable endpoint.store hash := by
    intro hash mem
    obtain ⟨token, found, isToken⟩ := List.mem_map.mp mem
    obtain ⟨names, unused⟩ := Prod.mk.inj isToken
    exact ⟨token, found, names, unused⟩
  refine ⟨endpoint, ?_, "hash of left", "hash of right", by decide, ?_, ?_, ?_, ?_⟩
  · exact runChecked_unguarded run
  · exact succeeds "left" (by rw [served]; exact List.mem_cons_self)
  · exact succeeds "right" (by rw [served]; exact List.mem_cons_of_mem _ List.mem_cons_self)
  · exact usable _ (by rw [rows]; exact List.mem_cons_of_mem _ List.mem_cons_self)
  · exact usable _ (by
      rw [rows]
      exact List.mem_cons_of_mem _ (List.mem_cons_of_mem _ List.mem_cons_self))

end Pantheon.Identity.Oidc
