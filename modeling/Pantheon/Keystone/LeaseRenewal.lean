import Mathlib
import Pantheon.Keystone.Lease
import Pantheon.Keystone.Lsm

/-!
# Renewing one lease over and over

`renew` as one call: what other nodes and the store do to it is a record of
what the lease object holds when it is read and when it is put over, and of
which request fails.  A sequence of such records is a run of one manager.  An
extension stores the new ETag and leaves the validity flag as it finds it.
-/

set_option autoImplicit false

namespace Pantheon.Keystone

open Pantheon.Lib

inductive LeaseError where
  | store
  | heldByOther
  | swapLost
deriving DecidableEq

/-- What one call meets.  `atLoad` and `atPut` are the lease object when the
call reads it and when its put arrives. -/
structure LeaseWeather where
  atLoad : Option Lease
  atPut : Option Lease
  loadNow : Nat
  putNow : Nat
  getFails : Bool
  putFails : Bool

/-- What a call leaves: the manager, the lease object and the returned result. -/
structure LeaseOutcome (ETag : Type) where
  manager : LeaseManager ETag
  stored : Option Lease
  result : Except LeaseError Unit

theorem beginFlush_not_fenced {ETag : Type} {engine : LsmEngine ETag}
    (valid : engine.lease.valid = true) : engine.beginFlush.2 ≠ .error .fenced := by
  unfold LsmEngine.beginFlush
  rw [valid, if_neg (by simp)]
  dsimp only
  split_ifs
  · simp
  · simp

namespace LeaseManager

variable {ETag : Type} [DecidableEq ETag] (leaseEtag : Lease → ETag)

def putLease (manager : LeaseManager ETag) (put : LeasePut) (expected : Option ETag) (token : Nat)
    (weather : LeaseWeather) : LeaseOutcome ETag :=
  if weather.putFails then ⟨manager.demoted, weather.atPut, .error .store⟩
  else
    match putIfMatch leaseEtag weather.atPut (manager.newLease token weather.putNow) expected with
    | .ok (stored, etag) => ⟨manager.installed put token etag, stored, .ok ()⟩
    | .error _ => ⟨manager.demoted, weather.atPut, .error .swapLost⟩

def tryAcquire (manager : LeaseManager ETag) (weather : LeaseWeather) : LeaseOutcome ETag :=
  if weather.getFails then ⟨manager, weather.atPut, .error .store⟩
  else
    match manager.loadLease weather.atLoad leaseEtag weather.loadNow with
    | none => ⟨manager.demoted, weather.atPut, .error .heldByOther⟩
    | some (expected, token) => manager.putLease leaseEtag .acquisition expected token weather

def renew (manager : LeaseManager ETag) (weather : LeaseWeather) : LeaseOutcome ETag :=
  match manager.currentEtag with
  | none => manager.tryAcquire leaseEtag weather
  | some etag =>
      manager.putLease leaseEtag .extension (some etag) manager.handle.token weather

/-- The outcomes of a sequence of `renew` calls. -/
def renewals : LeaseManager ETag → List LeaseWeather → List (LeaseOutcome ETag)
  | _, [] => []
  | manager, weather :: rest =>
      manager.renew leaseEtag weather :: renewals (manager.renew leaseEtag weather).manager rest

/-! ## One call -/

theorem putLease_cases (manager : LeaseManager ETag) (put : LeasePut) (expected : Option ETag)
    (token : Nat) (weather : LeaseWeather) :
    (weather.putFails = false ∧ expected = weather.atPut.map leaseEtag ∧
      manager.putLease leaseEtag put expected token weather =
        ⟨manager.installed put token (leaseEtag (manager.newLease token weather.putNow)),
          some (manager.newLease token weather.putNow), .ok ()⟩) ∨
    (¬ (weather.putFails = false ∧ expected = weather.atPut.map leaseEtag) ∧
      ∃ error, manager.putLease leaseEtag put expected token weather =
        ⟨manager.demoted, weather.atPut, .error error⟩) := by
  unfold putLease putIfMatch
  cases failing : weather.putFails with
  | true => exact Or.inr ⟨by simp, .store, by simp⟩
  | false =>
      by_cases matched : expected = weather.atPut.map leaseEtag
      · exact Or.inl ⟨rfl, matched, by simp [matched]⟩
      · exact Or.inr ⟨by simp [matched], .swapLost, by simp [matched]⟩

/-- The handle allows a flush and names the token in the store. -/
structure Tracks (outcome : LeaseOutcome ETag) : Prop where
  valid : outcome.manager.handle.valid = true
  token : outcome.stored.map Lease.fencingToken = some outcome.manager.handle.token
  mayFlush : ∀ engine : LsmEngine ETag, engine.lease = outcome.manager.handle →
    engine.beginFlush.2 ≠ .error .fenced

/-- An extension is about to go through under a handle that an earlier failure
has invalidated. -/
def Revives (manager : LeaseManager ETag) (weather : LeaseWeather) : Prop :=
  manager.handle.valid = false ∧ manager.currentEtag ≠ none ∧ weather.putFails = false ∧
    manager.currentEtag = weather.atPut.map leaseEtag

instance (manager : LeaseManager ETag) (weather : LeaseWeather) :
    Decidable (manager.Revives leaseEtag weather) := by
  unfold Revives
  infer_instance

omit [DecidableEq ETag] in
theorem tracks_of_valid {outcome : LeaseOutcome ETag}
    (valid : outcome.manager.handle.valid = true)
    (token : outcome.stored.map Lease.fencingToken = some outcome.manager.handle.token) :
    Tracks outcome :=
  ⟨valid, token, fun _ same => beginFlush_not_fenced (same ▸ valid)⟩

/-- What one call does to the handle: an acquisition that goes through makes it
valid, an extension that goes through keeps it, and a failed call never makes
it valid. -/
theorem renew_cases (manager : LeaseManager ETag) (weather : LeaseWeather) :
    (manager.currentEtag = none ∧ (manager.renew leaseEtag weather).result = .ok () ∧
      Tracks (manager.renew leaseEtag weather)) ∨
    (manager.currentEtag ≠ none ∧ weather.putFails = false ∧
      manager.currentEtag = weather.atPut.map leaseEtag ∧
      (manager.renew leaseEtag weather).result = .ok () ∧
      (manager.renew leaseEtag weather).manager.handle = manager.handle ∧
      (manager.renew leaseEtag weather).manager.currentEtag ≠ none ∧
      (manager.renew leaseEtag weather).stored.map Lease.fencingToken =
        some manager.handle.token) ∨
    ((∃ error, (manager.renew leaseEtag weather).result = .error error) ∧
      (manager.renew leaseEtag weather).manager.currentEtag = manager.currentEtag ∧
      (manager.currentEtag ≠ none →
        (manager.renew leaseEtag weather).manager.handle.valid = false)) := by
  unfold renew
  cases held : manager.currentEtag with
  | none =>
      dsimp only
      unfold tryAcquire
      by_cases unread : weather.getFails = true
      · rw [if_pos unread]
        exact Or.inr (Or.inr ⟨⟨_, rfl⟩, held, fun some => absurd rfl some⟩)
      · rw [if_neg unread]
        cases loaded : manager.loadLease weather.atLoad leaseEtag weather.loadNow with
        | none => exact Or.inr (Or.inr ⟨⟨_, rfl⟩, held, fun some => absurd rfl some⟩)
        | some load =>
            obtain ⟨expected, token⟩ := load
            dsimp only
            rcases putLease_cases leaseEtag manager .acquisition expected token weather with
              ⟨_, _, exact⟩ | ⟨_, error, exact⟩
            · rw [exact]
              exact Or.inl ⟨rfl, rfl, tracks_of_valid rfl rfl⟩
            · rw [exact]
              exact Or.inr (Or.inr ⟨⟨error, rfl⟩, held, fun some => absurd rfl some⟩)
  | some etag =>
      dsimp only
      rcases putLease_cases leaseEtag manager .extension (some etag) manager.handle.token weather
        with ⟨arrives, matched, exact⟩ | ⟨_, error, exact⟩
      · rw [exact]
        refine Or.inr (Or.inl ⟨by simp, arrives, matched, rfl, rfl, ?_, rfl⟩)
        simp [installed]
      · rw [exact]
        exact Or.inr (Or.inr ⟨⟨error, rfl⟩, held, fun _ => rfl⟩)

/-- After a call that returned, the handle tracks the store unless the call
extended a lease under an invalid handle. -/
theorem tracks_iff (manager : LeaseManager ETag) (weather : LeaseWeather)
    (returned : (manager.renew leaseEtag weather).result = .ok ()) :
    Tracks (manager.renew leaseEtag weather) ↔ ¬ manager.Revives leaseEtag weather := by
  rcases renew_cases leaseEtag manager weather with
    ⟨unheld, _, tracks⟩ | ⟨held, arrives, matched, _, handleSame, _, token⟩ | ⟨⟨error, failed⟩, _⟩
  · exact iff_of_true tracks fun revives => revives.2.1 unheld
  · constructor
    · intro tracks revives
      have valid := tracks.valid
      rw [handleSame, revives.1] at valid
      exact Bool.false_ne_true valid
    · intro fresh
      have valid : manager.handle.valid = true := by
        by_contra invalid
        exact fresh ⟨Bool.eq_false_of_not_eq_true invalid, held, arrives, matched⟩
      refine tracks_of_valid ?_ ?_
      · rw [handleSame, valid]
      · rw [token, handleSame]
  · rw [failed] at returned
    exact absurd returned (by simp)

theorem revives_returns (manager : LeaseManager ETag) (weather : LeaseWeather)
    (revives : manager.Revives leaseEtag weather) :
    (manager.renew leaseEtag weather).result = .ok () := by
  obtain ⟨_, held, arrives, matched⟩ := revives
  obtain ⟨etag, etagExact⟩ := Option.ne_none_iff_exists'.mp held
  unfold renew
  rw [etagExact]
  dsimp only
  rcases putLease_cases leaseEtag manager .extension (some etag) manager.handle.token weather
    with ⟨_, _, exact⟩ | ⟨lost, _⟩
  · rw [exact]
  · exact absurd ⟨arrives, etagExact ▸ matched⟩ lost

/-! ## Sequences of calls -/

/-- No call of the sequence extends the lease under an invalid handle. -/
def NeverRevives : LeaseManager ETag → List LeaseWeather → Prop
  | _, [] => True
  | manager, weather :: rest =>
      ¬ manager.Revives leaseEtag weather ∧
        NeverRevives (manager.renew leaseEtag weather).manager rest

theorem renewals_track_iff_from : ∀ (weathers : List LeaseWeather) (manager : LeaseManager ETag),
    (∀ outcome ∈ manager.renewals leaseEtag weathers, outcome.result = .ok () → Tracks outcome) ↔
      NeverRevives leaseEtag manager weathers := by
  intro weathers
  induction weathers with
  | nil => intro manager; simp [renewals, NeverRevives]
  | cons weather rest ih =>
      intro manager
      rw [renewals, List.forall_mem_cons, ih, NeverRevives]
      refine and_congr ?_ Iff.rfl
      constructor
      · intro tracks revives
        have returned := revives_returns leaseEtag manager weather revives
        exact (tracks_iff leaseEtag manager weather returned).mp (tracks returned) revives
      · intro fresh returned
        exact (tracks_iff leaseEtag manager weather returned).mpr fresh

/-- In a run of `renew` calls the handle is valid and up to date after each that
returned, exactly when none of them extends the lease under a handle that an
earlier failure has left invalid. -/
theorem renewals_track_iff (holderId : String) (ttlMs : Nat) (weathers : List LeaseWeather) :
    (∀ outcome ∈ (new holderId ttlMs).renewals leaseEtag weathers,
      outcome.result = .ok () → Tracks outcome) ↔
      NeverRevives leaseEtag (new holderId ttlMs) weathers :=
  renewals_track_iff_from leaseEtag weathers (new holderId ttlMs)

/-- Acquired, then a put that the store refuses for once, then an extension. -/
def hiccup : List LeaseWeather :=
  [⟨none, none, 0, 0, false, false⟩, ⟨some ⟨"a", 1, 10⟩, some ⟨"a", 1, 10⟩, 3, 3, false, true⟩,
    ⟨some ⟨"a", 1, 10⟩, some ⟨"a", 1, 10⟩, 6, 6, false, false⟩]

theorem renewed_handle_stays_invalid :
    ¬ ∀ outcome ∈ (new "a" 10).renewals id hiccup, outcome.result = .ok () → Tracks outcome := by
  intro claimed
  have last : ((new "a" 10).renewals id hiccup)[2]?.map (fun outcome =>
      (outcome.result.toBool, outcome.manager.handle.valid)) = some (true, false) := by decide +kernel
  obtain ⟨outcome, found, exact⟩ := Option.map_eq_some_iff.mp last
  obtain ⟨returned, invalid⟩ := Prod.mk.inj exact
  have ok : outcome.result = .ok () := by
    cases result : outcome.result with
    | error error => rw [result] at returned; exact absurd returned (by simp [Except.toBool])
    | ok value => rfl
  have valid := (claimed outcome (List.mem_of_getElem? found) ok).valid
  rw [invalid] at valid
  exact Bool.false_ne_true valid

end LeaseManager

namespace LeaseSystem

variable {Node ETag : Type} [DecidableEq Node] [DecidableEq ETag]

/-- The two steps of a call in the system of all nodes, nothing in between, are
one `renew`. -/
theorem renew_then_swap (system : LeaseSystem Node ETag) (node : Node) (loadNow putNow : Nat)
    (putFails : Bool) (idle : system.calls = []) :
    let outcome := (system.manager node).renew system.store.leaseEtag
      ⟨system.store.lease, system.store.lease, loadNow, putNow, false, putFails⟩
    ∃ loaded, system.step (.renew node loadNow) = some loaded ∧ ∃ final,
      (loaded.calls = [] ∧ final = loaded ∨ loaded.step (.swap 0 putNow putFails) = some final) ∧
        final.manager node = outcome.manager ∧ final.store.lease = outcome.stored := by
  -- the put that both end in
  have put : ∀ pending : PendingLease Node ETag, pending.node = node → ∃ final,
      ({ system with calls := system.calls ++ [pending] } : LeaseSystem Node ETag).step
        (.swap 0 putNow putFails) = some final ∧
      final.manager node = ((system.manager node).putLease system.store.leaseEtag pending.put
        pending.expected pending.token
        ⟨system.store.lease, system.store.lease, loadNow, putNow, false, putFails⟩).manager ∧
      final.store.lease = ((system.manager node).putLease system.store.leaseEtag pending.put
        pending.expected pending.token
        ⟨system.store.lease, system.store.lease, loadNow, putNow, false, putFails⟩).stored := by
    rintro pending rfl
    simp only [LeaseSystem.step, idle, List.nil_append, List.getElem?_cons_zero]
    unfold LeaseManager.putLease
    by_cases failing : putFails = true
    · rw [if_pos failing, if_pos failing]
      exact ⟨_, rfl, by simp, rfl⟩
    · rw [if_neg failing, if_neg failing]
      cases swapped : putIfMatch system.store.leaseEtag system.store.lease
          ((system.manager pending.node).newLease pending.token putNow) pending.expected with
      | ok result => exact ⟨_, rfl, by simp, rfl⟩
      | error current => exact ⟨_, rfl, by simp, rfl⟩
  intro outcome
  unfold outcome LeaseManager.renew
  simp only [LeaseSystem.step]
  cases held : (system.manager node).currentEtag with
  | none =>
      dsimp only
      unfold LeaseManager.tryAcquire
      dsimp only [begin]
      rw [if_neg Bool.false_ne_true]
      cases loaded : (system.manager node).loadLease system.store.lease system.store.leaseEtag
          loadNow with
      | none => exact ⟨_, rfl, _, Or.inl ⟨idle, rfl⟩, by simp, rfl⟩
      | some load =>
          obtain ⟨final, taken, same⟩ := put ⟨node, .renew, .acquisition, load.1, load.2⟩ rfl
          exact ⟨_, rfl, final, Or.inr taken, same⟩
  | some etag =>
      obtain ⟨final, taken, same⟩ := put
        ⟨node, .renew, .extension, some etag, (system.manager node).handle.token⟩ rfl
      exact ⟨_, rfl, final, Or.inr taken, same⟩

end LeaseSystem

end Pantheon.Keystone
