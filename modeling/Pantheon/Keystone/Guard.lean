import Mathlib
import Pantheon.Lib.Runs

/-!
# The circuit breaker of the object store: `storage/guard.rs`

A request is admitted or shed, and its outcome is recorded later; the two steps of any number
of requests interleave.  Shed requests are recorded like failures, an answer to a request that
was admitted before the trip closes the breaker, and so does the admission of a probe: the
breaker recovers in time and probes alone only in runs that avoid these.
-/

set_option autoImplicit false

namespace Pantheon.Keystone.Guard

open Pantheon.Lib

/-- The settings, as the environment or the defaults give them. -/
structure Config where
  maxInflight : Nat
  failureThreshold : Nat
  openFor : Nat
  someInflight : 1 ≤ maxInflight
  someFailures : 1 ≤ failureThreshold

structure BreakerState where
  failures : Nat
  openedAt : Option Nat
  probing : Bool
deriving DecidableEq

/-- How a request gets past the breaker: the first two are `Ok`, the second on the half-open
branch. -/
inductive Admission where
  | served
  | probe
  | shed
deriving DecidableEq

/-- `admit`. -/
def admitCall (config : Config) (b : BreakerState) (now : Nat) : BreakerState × Admission :=
  match b.openedAt with
  | none => (b, .served)
  | some opened =>
      if config.openFor ≤ now - opened then ({ b with probing := true, openedAt := none }, .probe)
      else (b, .shed)

def onSuccess : BreakerState := ⟨0, none, false⟩

def counted (b : BreakerState) : Nat := if b.probing then b.failures else (b.failures + 1) % 2 ^ 64

def onFailure (config : Config) (b : BreakerState) (now : Nat) : BreakerState where
  failures := counted b
  openedAt := if config.failureThreshold ≤ counted b then some now else b.openedAt
  probing := false

/-! ## Requests -/

inductive Outcome where
  | success
  | conflict
  | failure
  | shed
deriving DecidableEq

/-- The breaker and the requests between their two steps in the order of their admission.  Beside
them is kept what the backend has reported: when it last failed, and the failure that tripped
the breaker until its open period has been waited out. -/
structure Guarded where
  breaker : BreakerState
  pending : List (Nat × Admission)
  lastFailure : Option Nat
  tripped : Option Nat

def start : Guarded := ⟨⟨0, none, false⟩, [], none, none⟩

def running (config : Config) (tripped : Option Nat) (now : Nat) : Option Nat :=
  tripped.filter fun last => now - last < config.openFor

/-- What a recorded outcome says about the trip: only a failure of the backend makes one, and
no answer ends one early. -/
def tripAfter (config : Config) (state : Guarded) (outcome : Outcome) (now : Nat) : Option Nat :=
  match outcome with
  | .failure =>
      if config.failureThreshold ≤ counted state.breaker then some now else state.tripped
  | .success | .conflict => running config state.tripped now
  | .shed => state.tripped

inductive Action where
  | arrive (request now : Nat)
  | record (request : Nat) (outcome : Outcome) (now : Nat)

/-- A shed request has no other outcome, and no other request has that one. -/
def step (config : Config) (state : Guarded) : Action → Option Guarded
  | .arrive request now =>
      if state.pending.length < config.maxInflight ∧ request ∉ state.pending.map Prod.fst then
        some { state with
          breaker := (admitCall config state.breaker now).1
          pending := state.pending ++ [(request, (admitCall config state.breaker now).2)]
          tripped := running config state.tripped now }
      else none
  | .record request outcome now =>
      if (request, Admission.shed) ∈ state.pending ∧ outcome = .shed ∨
          ((request, Admission.served) ∈ state.pending ∨
            (request, Admission.probe) ∈ state.pending) ∧ outcome ≠ .shed then
        some {
          breaker :=
            match outcome with
            | .success => onSuccess
            | .conflict => onSuccess
            | .failure => onFailure config state.breaker now
            | .shed => onFailure config state.breaker now
          pending := state.pending.filter fun entry => entry.1 ≠ request
          lastFailure := if outcome = .failure then some now else state.lastFailure
          tripped := tripAfter config state outcome now }
      else none

/-! ## Recovery and probes -/

def Refused (config : Config) (state : Guarded) (now : Nat) : Prop :=
  (admitCall config state.breaker now).2 = .shed

instance (config : Config) (state : Guarded) (now : Nat) : Decidable (Refused config state now) :=
  inferInstanceAs (Decidable ((admitCall config state.breaker now).2 = .shed))

/-- The trip is the last failure of the backend, and requests are refused while less than the
open period has passed since then and not longer. -/
structure Recovers (config : Config) (state : Guarded) : Prop where
  last : ∀ last, state.tripped = some last → state.lastFailure = some last
  refused : ∀ now, Refused config state now ↔
    ∃ last, state.tripped = some last ∧ now - last < config.openFor

def ProbesAlone (state : Guarded) : Prop :=
  state.pending.Pairwise fun earlier later => earlier.2 = .probe → later.2 = .shed

/-! ## Steps that keep to it -/

variable {config : Config}

/-- A request that comes while a probe is out comes in the open period of a failure since; no
answer of the backend is recorded in an open period; a shed request is recorded below the
threshold or when the backend fails; the counter does not overflow. -/
def Careful (config : Config) (state : Guarded) : Action → Prop
  | .arrive _ now => Admission.probe ∈ state.pending.map Prod.snd →
      (running config state.tripped now).isSome
  | .record _ outcome now =>
      (outcome = .success ∨ outcome = .conflict → running config state.tripped now = none) ∧
      (outcome = .shed → counted state.breaker < config.failureThreshold ∨
        state.tripped = some now) ∧
      (outcome = .failure ∨ outcome = .shed → state.breaker.failures + 1 < 2 ^ 64)

instance (state : Guarded) : (action : Action) → Decidable (Careful config state action)
  | .arrive _ now => inferInstanceAs (Decidable (Admission.probe ∈ state.pending.map Prod.snd →
      (running config state.tripped now).isSome))
  | .record _ outcome now => inferInstanceAs (Decidable
      ((outcome = .success ∨ outcome = .conflict → running config state.tripped now = none) ∧
      (outcome = .shed → counted state.breaker < config.failureThreshold ∨
        state.tripped = some now) ∧
      (outcome = .failure ∨ outcome = .shed → state.breaker.failures + 1 < 2 ^ 64)))

/-- The breaker is open since the failure that tripped it, and has counted enough failures. -/
structure Invariant (config : Config) (state : Guarded) : Prop where
  opened : state.breaker.openedAt = state.tripped
  tripped : ∀ last, state.tripped = some last →
    config.failureThreshold ≤ state.breaker.failures ∧ state.lastFailure = some last
  alone : ProbesAlone state

theorem refused_iff {state : Guarded} {now : Nat} : Refused config state now ↔
    ∃ opened, state.breaker.openedAt = some opened ∧ now - opened < config.openFor := by
  unfold Refused admitCall
  cases open_ : state.breaker.openedAt with
  | none => simp
  | some opened =>
      dsimp only
      split_ifs with late
      · refine iff_of_false (by nofun) ?_
        rintro ⟨_, same, early⟩
        cases same
        exact Nat.not_lt.mpr late early
      · exact iff_of_true rfl ⟨opened, rfl, Nat.not_le.mp late⟩

theorem Invariant.recovers {state : Guarded} (invariant : Invariant config state) :
    Recovers config state := by
  refine ⟨fun last open_ => (invariant.tripped last open_).2, fun now => ?_⟩
  rw [refused_iff, invariant.opened]

theorem failures_le_counted {b : BreakerState} (room : b.failures + 1 < 2 ^ 64) :
    b.failures ≤ counted b := by
  unfold counted
  split_ifs with probing
  · exact le_rfl
  · omega

theorem failures_admitCall (b : BreakerState) (now : Nat) :
    (admitCall config b now).1.failures = b.failures := by
  unfold admitCall
  cases b.openedAt with
  | none => rfl
  | some opened =>
      dsimp only
      split_ifs with late
      · rfl
      · rfl

theorem openedAt_admitCall (b : BreakerState) (now : Nat) :
    (admitCall config b now).1.openedAt = running config b.openedAt now := by
  unfold admitCall running
  cases open_ : b.openedAt with
  | none => exact open_
  | some opened =>
      dsimp only
      split_ifs with late
      · rw [Option.filter_some, if_neg (by simpa using late)]
      · rw [Option.filter_some, if_pos (by simpa using late)]
        exact open_

theorem running_eq_some {tripped : Option Nat} {now last : Nat} :
    running config tripped now = some last ↔ tripped = some last ∧ now - last < config.openFor := by
  simp [running, Option.filter_eq_some_iff]

theorem invariant_arrive {state next : Guarded} {request now : Nat}
    (invariant : Invariant config state) (careful : Careful config state (.arrive request now))
    (taken : step config state (.arrive request now) = some next) : Invariant config next := by
  simp only [step] at taken
  split_ifs at taken with free
  obtain rfl := Option.some.inj taken
  constructor
  · dsimp only
    rw [openedAt_admitCall, invariant.opened]
  · intro last open_
    dsimp only at open_ ⊢
    rw [failures_admitCall]
    exact invariant.tripped last (running_eq_some.mp open_).1
  · refine List.pairwise_append.mpr ⟨invariant.alone, List.pairwise_singleton _ _, ?_⟩
    rintro ⟨earlier, admission⟩ waiting later only probing
    rw [List.mem_singleton.mp only]
    dsimp only at probing ⊢
    rw [probing] at waiting
    -- The failure since the probe's admission has opened the breaker again.
    obtain ⟨last, runs⟩ := Option.isSome_iff_exists.mp
      (careful (List.mem_map.mpr ⟨_, waiting, rfl⟩))
    exact (invariant.recovers.refused now).mpr ⟨last, running_eq_some.mp runs⟩

/-- A failure or a shed request that reaches the threshold opens the breaker at that moment, and
any other leaves it as it is. -/
theorem openedAt_onFailure (b : BreakerState) (now : Nat) :
    (onFailure config b now).openedAt =
      if config.failureThreshold ≤ counted b then some now else b.openedAt := rfl

theorem invariant_record {state next : Guarded} {request now : Nat} {outcome : Outcome}
    (invariant : Invariant config state)
    (careful : Careful config state (.record request outcome now))
    (taken : step config state (.record request outcome now) = some next) :
    Invariant config next := by
  simp only [step] at taken
  split at taken
  case isFalse => cases taken
  obtain rfl := Option.some.inj taken
  obtain ⟨early, gentle, room⟩ := careful
  have kept (last : Nat) (open_ : state.tripped = some last)
      (grows : state.breaker.failures + 1 < 2 ^ 64) :
      config.failureThreshold ≤ counted state.breaker :=
    (invariant.tripped last open_).1.trans (failures_le_counted grows)
  refine ⟨?_, fun last open_ => ?_, invariant.alone.filter _⟩
  · cases outcome with
    | success => exact (early (Or.inl rfl)).symm
    | conflict => exact (early (Or.inr rfl)).symm
    | failure =>
        dsimp only [tripAfter]
        rw [openedAt_onFailure, invariant.opened]
    | shed =>
        dsimp only [tripAfter]
        rw [openedAt_onFailure, invariant.opened]
        rcases gentle rfl with few | same
        · rw [if_neg (Nat.not_le.mpr few)]
        · rw [same, ite_self]
  · cases outcome with
    | success => exact absurd open_ (by simp [tripAfter, early])
    | conflict => exact absurd open_ (by simp [tripAfter, early])
    | failure =>
        dsimp only [tripAfter] at open_
        split_ifs at open_ with enough
        · exact ⟨enough, open_⟩
        · exact absurd (kept last open_ (room (Or.inl rfl))) enough
    | shed =>
        exact ⟨kept last open_ (room (Or.inr rfl)), (invariant.tripped last open_).2⟩

theorem reaches_invariant {state : Guarded}
    (reached : Reaches (step config) (Careful config) start state) : Invariant config state := by
  have initial : Invariant config start := by
    constructor
    · rfl
    · intro last open_
      cases open_
    · exact List.Pairwise.nil
  refine Reaches.invariant (Invariant config) initial
    (fun state action next invariant careful taken => ?_) state reached
  · cases action with
    | arrive request now => exact invariant_arrive invariant careful taken
    | record request outcome now => exact invariant_record invariant careful taken

/-- In runs of careful steps the breaker lets requests through again an open period after the
last failure of the backend, and a probe is alone. -/
theorem breaker_recovers_alone (config : Config) (state : Guarded)
    (reached : Reaches (step config) (Careful config) start state) :
    Recovers config state ∧ ProbesAlone state :=
  ⟨(reaches_invariant reached).recovers, (reaches_invariant reached).alone⟩

def twoFailures : Config := ⟨64, 2, 10, by decide, by decide⟩

/-- Two failures open the breaker, one request is shed and another probes successfully before
the shed one is recorded; two more failures open the breaker again. -/
def recovery : List Action :=
  [.arrive 0 0, .record 0 .failure 1, .arrive 1 2, .record 1 .failure 3, .arrive 2 5, .arrive 3 13,
    .record 3 .success 14, .record 2 .shed 15, .arrive 4 16, .record 4 .failure 17, .arrive 5 18]

def recovered : Guarded := ⟨⟨2, some 17, false⟩, [(5, .shed)], some 17, some 17⟩

theorem breaker_recovers_alone_recovered :
    Recovers twoFailures recovered ∧ ProbesAlone recovered := by
  have ran : runChecked (step twoFailures) (fun state action => decide
      (Careful twoFailures state action)) start recovery = some recovered := rfl
  exact breaker_recovers_alone twoFailures recovered
    (runChecked_reaches _ (fun _ _ => of_decide_eq_true) recovery start recovered ran)

def oneFailure : Config := ⟨64, 1, 10, by decide, by decide⟩

/-- A shed request moves the time of recovery, an answer to a request admitted before the trip
ends it early, and two requests get through when the open period has passed. -/
theorem shed_request_postpones :
    (∃ state, Reaches (step oneFailure) (fun _ _ => True) start state ∧
      ¬Recovers oneFailure state) ∧
    (∃ state, Reaches (step oneFailure) (fun _ _ => True) start state ∧
      ¬Recovers oneFailure state) ∧
    ∃ state, Reaches (step oneFailure) (fun _ _ => True) start state ∧ ¬ProbesAlone state := by
  refine ⟨?_, ?_, ?_⟩
  · refine ⟨⟨⟨2, some 5, false⟩, [], some 0, some 0⟩, ?_, fun recovers => ?_⟩
    · exact runChecked_reaches (fun _ _ => true) (fun _ _ _ => trivial)
        [.arrive 0 0, .record 0 .failure 0, .arrive 1 5, .record 1 .shed 5] start _ rfl
    · obtain ⟨last, same, early⟩ := (recovers.refused 10).mp (by decide)
      cases same
      exact absurd early (by decide)
  · refine ⟨⟨⟨0, none, false⟩, [], some 1, some 1⟩, ?_, fun recovers => ?_⟩
    · exact runChecked_reaches (fun _ _ => true) (fun _ _ _ => trivial)
        [.arrive 0 0, .arrive 1 0, .record 0 .failure 1, .record 1 .success 2] start _ rfl
    · exact absurd ((recovers.refused 3).mpr ⟨1, rfl, by decide⟩) (by decide)
  · refine ⟨⟨⟨1, none, true⟩, [(1, .probe), (2, .served)], some 0, none⟩, ?_, fun alone => ?_⟩
    · exact runChecked_reaches (fun _ _ => true) (fun _ _ _ => trivial)
        [.arrive 0 0, .record 0 .failure 0, .arrive 1 10, .arrive 2 10] start _ rfl
    · exact absurd (List.rel_of_pairwise_cons alone (List.mem_singleton_self _) rfl) (by decide)

end Pantheon.Keystone.Guard
