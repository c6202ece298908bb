import Mathlib
import Pantheon.Lib.Runs
import Pantheon.Keystone.ObjectStore

/-!
# The write lease: `storage/lease.rs`

Any number of nodes call `try_acquire` and `renew` on one lease object.  Each
call is a load followed by a conditional put, and between the two any other
step may be taken, by the same node too.  Expiry is judged by the clock value
the caller happens to read.

Tokens are counted in `Nat`; the code's counter is a `u64` that starts at 1 and
moves by one with each acquisition.
-/

set_option autoImplicit false

namespace Pantheon.Keystone

open Pantheon.Lib

structure LeaseManager (ETag : Type) where
  holderId : String
  ttlMs : Nat
  handle : LeaseHandle
  currentEtag : Option ETag

/-- The public function a caller is in. -/
inductive LeaseCall where
  | tryAcquire
  | renew
deriving DecidableEq

/-- What its conditional put is for: `renew` falls back to an acquisition while
the manager has never held the lease. -/
inductive LeasePut where
  | acquisition
  | extension
deriving DecidableEq

/-- A call between its load and its conditional put. -/
structure PendingLease (Node ETag : Type) where
  node : Node
  call : LeaseCall
  put : LeasePut
  expected : Option ETag
  token : Nat

namespace LeaseManager

variable {ETag : Type}

def new (holderId : String) (ttlMs : Nat) : LeaseManager ETag :=
  ⟨holderId, ttlMs, LeaseHandle.default, none⟩

def demoted (manager : LeaseManager ETag) : LeaseManager ETag :=
  { manager with handle := { manager.handle with valid := false } }

/-- The load of `try_acquire`: the ETag to expect and the token to take. -/
def loadLease (manager : LeaseManager ETag) (stored : Option Lease) (leaseEtag : Lease → ETag)
    (now : Nat) : Option (Option ETag × Nat) :=
  match stored with
  | none => some (none, 1)
  | some existing =>
      let expired := decide (existing.expiresAtMs < now)
      let oursAlready := existing.holderId == manager.holderId
      if !expired && !oursAlready then none
      else some (some (leaseEtag existing), existing.fencingToken + 1)

def newLease (manager : LeaseManager ETag) (token now : Nat) : Lease :=
  ⟨manager.holderId, token, now + manager.ttlMs⟩

def installed (manager : LeaseManager ETag) (put : LeasePut) (token : Nat) (etag : ETag) :
    LeaseManager ETag :=
  match put with
  | .acquisition => { manager with handle := ⟨token, true⟩, currentEtag := some etag }
  | .extension => { manager with currentEtag := some etag }

@[simp] theorem demoted_token (manager : LeaseManager ETag) :
    manager.demoted.handle.token = manager.handle.token := rfl

@[simp] theorem demoted_currentEtag (manager : LeaseManager ETag) :
    manager.demoted.currentEtag = manager.currentEtag := rfl

end LeaseManager

/-! ## The nodes and the lease object -/

structure LeaseSystem (Node ETag : Type) where
  store : ObjectStore ETag
  manager : Node → LeaseManager ETag
  calls : List (PendingLease Node ETag)
  /-- Every successful acquisition, oldest first. -/
  acquired : List (Node × Nat)

inductive LeaseAction (Node : Type) where
  | tryAcquire (node : Node) (now : Nat)
  | renew (node : Node) (now : Nat)
  | swap (index now : Nat) (ioFails : Bool)

namespace LeaseSystem

variable {Node ETag : Type} [DecidableEq Node] [DecidableEq ETag]

def start (store : ObjectStore ETag) (identity : Node → String × Nat) : LeaseSystem Node ETag :=
  ⟨store, fun node => LeaseManager.new (identity node).1 (identity node).2, [], []⟩

/-- The load step of an acquisition; a current lease of another holder ends the call. -/
def begin (system : LeaseSystem Node ETag) (node : Node) (call : LeaseCall) (now : Nat) :
    LeaseSystem Node ETag :=
  match (system.manager node).loadLease system.store.lease system.store.leaseEtag now with
  | none => { system with
      manager := Function.update system.manager node (system.manager node).demoted }
  | some (expected, token) => { system with
      calls := system.calls ++ [⟨node, call, .acquisition, expected, token⟩] }

def step (system : LeaseSystem Node ETag) : LeaseAction Node → Option (LeaseSystem Node ETag)
  | .tryAcquire node now => some (system.begin node .tryAcquire now)
  | .renew node now =>
      match (system.manager node).currentEtag with
      | none => some (system.begin node .renew now)
      | some etag => some { system with
          calls := system.calls ++
            [⟨node, .renew, .extension, some etag, (system.manager node).handle.token⟩] }
  | .swap index now ioFails =>
      match system.calls[index]? with
      | none => none
      | some pending =>
          let manager := system.manager pending.node
          let lease := manager.newLease pending.token now
          let calls := system.calls.eraseIdx index
          if ioFails then
            some { system with
              manager := Function.update system.manager pending.node manager.demoted
              calls := calls }
          else
            match putIfMatch system.store.leaseEtag system.store.lease lease pending.expected with
            | .ok (stored, etag) =>
                some { system with
                  store := { system.store with lease := stored }
                  manager := Function.update system.manager pending.node
                    (manager.installed pending.put pending.token etag)
                  calls := calls
                  acquired := system.acquired ++
                    if pending.put = .acquisition then [(pending.node, pending.token)] else [] }
            | .error _ =>
                some { system with
                  manager := Function.update system.manager pending.node manager.demoted
                  calls := calls }

/-- The fencing token in the store, 0 while there is no lease. -/
def storedToken (system : LeaseSystem Node ETag) : Nat :=
  (system.store.lease.map Lease.fencingToken).getD 0

variable {system next : LeaseSystem Node ETag} {now : Nat} {action : LeaseAction Node}

/-! ## What one step can do -/

/-- What the load of a call reads: an acquisition reads the lease object, an
extension only the manager's own ETag and token. -/
def Loads (system : LeaseSystem Node ETag) (pending : PendingLease Node ETag) : Prop :=
  match pending.put with
  | .acquisition =>
      pending.expected = system.store.lease.map system.store.leaseEtag ∧
        pending.token = system.storedToken + 1
  | .extension =>
      (∃ etag, (system.manager pending.node).currentEtag = some etag ∧
        pending.expected = some etag) ∧
      pending.token = (system.manager pending.node).handle.token

/-- A failed call: its node demotes itself, and nothing else is written. -/
def failed (system : LeaseSystem Node ETag) (node : Node) (calls : List (PendingLease Node ETag)) :
    LeaseSystem Node ETag :=
  { system with
    manager := Function.update system.manager node (system.manager node).demoted
    calls := calls }

def swapped (system : LeaseSystem Node ETag) (pending : PendingLease Node ETag) (now : Nat)
    (calls : List (PendingLease Node ETag)) : LeaseSystem Node ETag :=
  let lease := (system.manager pending.node).newLease pending.token now
  { system with
    store := { system.store with lease := some lease }
    manager := Function.update system.manager pending.node
      ((system.manager pending.node).installed pending.put pending.token
        (system.store.leaseEtag lease))
    calls := calls
    acquired := system.acquired ++
      if pending.put = .acquisition then [(pending.node, pending.token)] else [] }

omit [DecidableEq Node] [DecidableEq ETag] in
theorem loadLease_reads (system : LeaseSystem Node ETag) (node : Node) (now : Nat)
    (expected : Option ETag) (token : Nat)
    (loaded : (system.manager node).loadLease system.store.lease system.store.leaseEtag now =
      some (expected, token)) :
    expected = system.store.lease.map system.store.leaseEtag ∧ token = system.storedToken + 1 := by
  unfold LeaseManager.loadLease at loaded
  unfold storedToken
  cases stored : system.store.lease with
  | none =>
      rw [stored] at loaded
      cases Option.some.inj loaded
      exact ⟨rfl, rfl⟩
  | some existing =>
      simp only [stored] at loaded
      split_ifs at loaded
      cases Option.some.inj loaded
      exact ⟨rfl, rfl⟩

omit [DecidableEq ETag] in
theorem begin_cases (system : LeaseSystem Node ETag) (node : Node) (call : LeaseCall) (now : Nat) :
    system.begin node call now = system.failed node system.calls ∨
      ∃ pending, pending.node = node ∧ pending.put = .acquisition ∧ system.Loads pending ∧
        system.begin node call now = { system with calls := system.calls ++ [pending] } := by
  unfold begin
  split
  · exact Or.inl rfl
  · rename_i expected token loaded
    exact Or.inr ⟨⟨node, call, .acquisition, expected, token⟩, rfl, rfl,
      system.loadLease_reads node now expected token loaded, rfl⟩

theorem swap_cases {index : Nat} {ioFails : Bool}
    (taken : system.step (.swap index now ioFails) = some next) :
    ∃ pending, system.calls[index]? = some pending ∧
      (next = system.failed pending.node (system.calls.eraseIdx index) ∨
        pending.expected = system.store.lease.map system.store.leaseEtag ∧
          next = system.swapped pending now (system.calls.eraseIdx index)) := by
  simp only [step] at taken
  cases found : system.calls[index]? with
  | none => simp [found] at taken
  | some pending =>
      refine ⟨pending, rfl, ?_⟩
      simp only [found] at taken
      by_cases failing : ioFails = true
      · rw [if_pos failing] at taken
        exact Or.inl (Option.some.inj taken).symm
      · rw [if_neg failing] at taken
        split at taken
        · rename_i stored etag put
          obtain ⟨matched, result⟩ := (putIfMatch_eq_ok _ _ _ _ _).mp put
          cases result
          exact Or.inr ⟨matched, (Option.some.inj taken).symm⟩
        · exact Or.inl (Option.some.inj taken).symm

/-- A step fails a call, loads for one, or puts a lease over the one that was
expected. -/
theorem step_cases
    (taken : system.step action = some next) :
    (∃ node calls, (∀ pending ∈ calls, pending ∈ system.calls) ∧
      next = system.failed node calls) ∨
    (∃ pending, system.Loads pending ∧
      next = { system with calls := system.calls ++ [pending] }) ∨
    ∃ pending now calls, pending ∈ system.calls ∧ (∀ other ∈ calls, other ∈ system.calls) ∧
      pending.expected = system.store.lease.map system.store.leaseEtag ∧
      next = system.swapped pending now calls := by
  cases action with
  | tryAcquire node now =>
      cases Option.some.inj taken
      rcases system.begin_cases node .tryAcquire now with failed | ⟨pending, _, _, loads, exact⟩
      · exact Or.inl ⟨node, system.calls, fun _ member => member, failed⟩
      · exact Or.inr (Or.inl ⟨pending, loads, exact⟩)
  | renew node now =>
      simp only [step] at taken
      cases held : (system.manager node).currentEtag with
      | none =>
          rw [held] at taken
          cases Option.some.inj taken
          rcases system.begin_cases node .renew now with failed | ⟨pending, _, _, loads, exact⟩
          · exact Or.inl ⟨node, system.calls, fun _ member => member, failed⟩
          · exact Or.inr (Or.inl ⟨pending, loads, exact⟩)
      | some etag =>
          rw [held] at taken
          have loads : system.Loads
              ⟨node, .renew, .extension, some etag, (system.manager node).handle.token⟩ :=
            ⟨⟨etag, held, rfl⟩, rfl⟩
          exact Or.inr (Or.inl ⟨_, loads, (Option.some.inj taken).symm⟩)
  | swap index now ioFails =>
      obtain ⟨pending, found, failed | ⟨matched, swapped⟩⟩ := swap_cases taken
      · exact Or.inl ⟨_, _, fun _ member => List.mem_of_mem_eraseIdx member, failed⟩
      · exact Or.inr (Or.inr ⟨pending, now, _, List.mem_of_getElem? found,
          fun _ member => List.mem_of_mem_eraseIdx member, matched, swapped⟩)

omit [DecidableEq ETag] in
@[simp] theorem swapped_storedToken (system : LeaseSystem Node ETag)
    (pending : PendingLease Node ETag) (now : Nat) (calls : List (PendingLease Node ETag)) :
    (system.swapped pending now calls).storedToken = pending.token := rfl

omit [DecidableEq ETag] in
@[simp] theorem failed_storedToken (system : LeaseSystem Node ETag) (node : Node)
    (calls : List (PendingLease Node ETag)) :
    (system.failed node calls).storedToken = system.storedToken := rfl

/-! ## Tokens only grow -/

/-- `expected` is the ETag of a lease that carried `token`; no object carries 0. -/
def Carried (system : LeaseSystem Node ETag) (expected : Option ETag) (token : Nat) : Prop :=
  (expected = none ∧ token = 0) ∨
    ∃ lease, expected = some (system.store.leaseEtag lease) ∧ lease.fencingToken = token

def replaced (pending : PendingLease Node ETag) : LeasePut → Nat → Prop
  | .acquisition, token => pending.token = token + 1
  | .extension, token => pending.token = token

/-- What every interleaving keeps: each manager's ETag is that of a lease with
its own token, each pending put expects the ETag of a lease with the token it
replaces, and nobody holds a token the store has not reached. -/
structure Ordered (system : LeaseSystem Node ETag) : Prop where
  held : ∀ node etag, (system.manager node).currentEtag = some etag →
    system.Carried (some etag) (system.manager node).handle.token
  reached : ∀ node, (system.manager node).handle.token ≤ system.storedToken
  pending : ∀ pending ∈ system.calls, ∃ token, system.Carried pending.expected token ∧
    replaced pending pending.put token
  extending : ∀ pending ∈ system.calls, pending.put = .extension →
    pending.token ≤ (system.manager pending.node).handle.token
  holders : ∀ entry ∈ system.acquired, ∃ etag, (system.manager entry.1).currentEtag = some etag
  recorded : ∀ entry ∈ system.acquired, entry.2 ≤ system.storedToken
  increasing : (system.acquired.map Prod.snd).Pairwise (· < ·)

omit [DecidableEq Node] [DecidableEq ETag] in
theorem ordered_start (store : ObjectStore ETag) (identity : Node → String × Nat) :
    (start store identity).Ordered := by
  refine ⟨?_, ?_, ?_, ?_, ?_, ?_, ?_⟩
  · intro node etag held
    exact absurd held (by simp [start, LeaseManager.new])
  · intro node
    exact Nat.zero_le _
  · exact List.forall_mem_nil _
  · exact List.forall_mem_nil _
  · exact List.forall_mem_nil _
  · exact List.forall_mem_nil _
  · exact List.Pairwise.nil

omit [DecidableEq Node] [DecidableEq ETag] in
theorem Carried.current
    (collisionFree : Function.Injective system.store.leaseEtag) {expected : Option ETag}
    {token : Nat} (carried : system.Carried expected token)
    (matched : expected = system.store.lease.map system.store.leaseEtag) :
    token = system.storedToken := by
  unfold storedToken
  rcases carried with ⟨absent, zero⟩ | ⟨lease, present, carries⟩
  · rw [absent] at matched
    rw [Option.map_eq_none_iff.mp matched.symm, zero]
    rfl
  · rw [present] at matched
    obtain ⟨stored, found, same⟩ := Option.map_eq_some_iff.mp matched.symm
    rw [found, collisionFree same, ← carries]
    rfl

omit [DecidableEq Node] [DecidableEq ETag] in
theorem carried_stored (system : LeaseSystem Node ETag) :
    system.Carried (system.store.lease.map system.store.leaseEtag) system.storedToken := by
  unfold Carried storedToken
  cases system.store.lease with
  | none => exact Or.inl ⟨rfl, rfl⟩
  | some lease => exact Or.inr ⟨lease, rfl, rfl⟩

omit [DecidableEq ETag] in
@[simp] theorem failed_token (system : LeaseSystem Node ETag) (node : Node)
    (calls : List (PendingLease Node ETag)) (other : Node) :
    ((system.failed node calls).manager other).handle.token =
      (system.manager other).handle.token := by
  by_cases same : other = node
  · rw [same]
    simp [LeaseSystem.failed]
  · simp [LeaseSystem.failed, Function.update_of_ne same]

omit [DecidableEq ETag] in
theorem Ordered.failed (ordered : system.Ordered) (node : Node)
    (calls : List (PendingLease Node ETag)) (kept : ∀ pending ∈ calls, pending ∈ system.calls) :
    (system.failed node calls).Ordered := by
  have sameToken := system.failed_token node calls
  have sameEtag : ∀ other, ((system.failed node calls).manager other).currentEtag =
      (system.manager other).currentEtag := by
    intro other
    by_cases same : other = node
    · rw [same]
      simp [LeaseSystem.failed]
    · simp [LeaseSystem.failed, Function.update_of_ne same]
  refine ⟨?_, ?_, ?_, ?_, ?_, ordered.recorded, ordered.increasing⟩
  · intro other etag held
    rw [sameEtag] at held
    rw [sameToken]
    exact ordered.held other etag held
  · intro other
    rw [sameToken]
    exact ordered.reached other
  · intro pending member
    exact ordered.pending pending (kept pending member)
  · intro pending member extension
    rw [sameToken]
    exact ordered.extending pending (kept pending member) extension
  · intro entry listed
    rw [sameEtag]
    exact ordered.holders entry listed

omit [DecidableEq Node] [DecidableEq ETag] in
theorem Ordered.loaded (ordered : system.Ordered)
    (pending : PendingLease Node ETag) (loads : system.Loads pending) :
    ({ system with calls := system.calls ++ [pending] } : LeaseSystem Node ETag).Ordered := by
  refine ⟨ordered.held, ordered.reached, ?_, ?_, ordered.holders, ordered.recorded,
    ordered.increasing⟩
  · intro other member
    rcases List.mem_append.mp member with earlier | added
    · exact ordered.pending other earlier
    · rw [List.mem_singleton.mp added]
      unfold Loads at loads
      cases kind : pending.put with
      | acquisition =>
          rw [kind] at loads
          exact ⟨system.storedToken, loads.1 ▸ system.carried_stored, loads.2⟩
      | extension =>
          rw [kind] at loads
          obtain ⟨⟨etag, held, expected⟩, token⟩ := loads
          exact ⟨_, expected ▸ ordered.held pending.node etag held, token⟩
  · intro other member extension
    rcases List.mem_append.mp member with earlier | added
    · exact ordered.extending other earlier extension
    · rw [List.mem_singleton.mp added] at extension ⊢
      unfold Loads at loads
      rw [extension] at loads
      exact le_of_eq loads.2

omit [DecidableEq Node] [DecidableEq ETag] in
theorem Ordered.swap_token (ordered : system.Ordered)
    (collisionFree : Function.Injective system.store.leaseEtag)
    (pending : PendingLease Node ETag) (member : pending ∈ system.calls)
    (matched : pending.expected = system.store.lease.map system.store.leaseEtag) :
    replaced pending pending.put system.storedToken := by
  obtain ⟨token, carried, replaces⟩ := ordered.pending pending member
  rw [← carried.current collisionFree matched]
  exact replaces

omit [DecidableEq Node] [DecidableEq ETag] in
theorem Ordered.swap_grows (ordered : system.Ordered)
    (collisionFree : Function.Injective system.store.leaseEtag)
    (pending : PendingLease Node ETag) (member : pending ∈ system.calls)
    (matched : pending.expected = system.store.lease.map system.store.leaseEtag) :
    system.storedToken ≤ pending.token := by
  have replaces := ordered.swap_token collisionFree pending member matched
  cases kind : pending.put with
  | acquisition =>
      rw [kind] at replaces
      simp only [replaced] at replaces
      omega
  | extension =>
      rw [kind] at replaces
      simp only [replaced] at replaces
      omega

omit [DecidableEq Node] [DecidableEq ETag] in
/-- An extension finds its node's token in the store, so the handle already
carries the token that is put. -/
theorem Ordered.swap_handle (ordered : system.Ordered)
    (collisionFree : Function.Injective system.store.leaseEtag)
    (pending : PendingLease Node ETag) (member : pending ∈ system.calls)
    (matched : pending.expected = system.store.lease.map system.store.leaseEtag) (etag : ETag) :
    ((system.manager pending.node).installed pending.put pending.token etag).handle.token =
      pending.token := by
  have replaces := ordered.swap_token collisionFree pending member matched
  cases kind : pending.put with
  | acquisition => rfl
  | extension =>
      rw [kind] at replaces
      simp only [replaced] at replaces
      have below := ordered.extending pending member kind
      have above := ordered.reached pending.node
      simp only [LeaseManager.installed]
      omega

omit [DecidableEq ETag] in
theorem Ordered.swapped_handles (ordered : system.Ordered)
    (collisionFree : Function.Injective system.store.leaseEtag)
    (pending : PendingLease Node ETag) (member : pending ∈ system.calls) (now : Nat)
    (calls : List (PendingLease Node ETag))
    (matched : pending.expected = system.store.lease.map system.store.leaseEtag) (node : Node) :
    (system.manager node).handle.token ≤
      ((system.swapped pending now calls).manager node).handle.token := by
  by_cases same : node = pending.node
  · rw [same]
    simp only [LeaseSystem.swapped, Function.update_self,
      ordered.swap_handle collisionFree pending member matched]
    exact le_trans (ordered.reached pending.node)
      (ordered.swap_grows collisionFree pending member matched)
  · simp only [LeaseSystem.swapped, Function.update_of_ne same, le_refl]

omit [DecidableEq ETag] in
theorem Ordered.swapped (ordered : system.Ordered)
    (collisionFree : Function.Injective system.store.leaseEtag)
    (pending : PendingLease Node ETag) (member : pending ∈ system.calls) (now : Nat)
    (calls : List (PendingLease Node ETag)) (kept : ∀ other ∈ calls, other ∈ system.calls)
    (matched : pending.expected = system.store.lease.map system.store.leaseEtag) :
    (system.swapped pending now calls).Ordered := by
  have replaces := ordered.swap_token collisionFree pending member matched
  have grows := ordered.swap_grows collisionFree pending member matched
  have handle := ordered.swap_handle collisionFree pending member matched
  have handles := ordered.swapped_handles collisionFree pending member now calls matched
  refine ⟨?_, ?_, ?_, ?_, ?_, ?_, ?_⟩
  · intro node etag held
    by_cases same : node = pending.node
    · rw [same] at held ⊢
      simp only [LeaseSystem.swapped, Function.update_self, handle] at held ⊢
      refine Or.inr ⟨(system.manager pending.node).newLease pending.token now, ?_, rfl⟩
      rw [← held]
      cases pending.put <;> rfl
    · simp only [LeaseSystem.swapped, Function.update_of_ne same] at held ⊢
      exact ordered.held node etag held
  · intro node
    rw [swapped_storedToken]
    by_cases same : node = pending.node
    · rw [same]
      simp only [LeaseSystem.swapped, Function.update_self, handle, le_refl]
    · simp only [LeaseSystem.swapped, Function.update_of_ne same]
      exact le_trans (ordered.reached node) grows
  · intro other remaining
    exact ordered.pending other (kept other remaining)
  · intro other remaining extension
    exact le_trans (ordered.extending other (kept other remaining) extension) (handles other.node)
  · intro entry listed
    by_cases same : entry.1 = pending.node
    · rw [same]
      simp only [LeaseSystem.swapped, Function.update_self]
      cases pending.put <;> exact ⟨_, rfl⟩
    · simp only [LeaseSystem.swapped, Function.update_of_ne same] at listed ⊢
      rcases List.mem_append.mp listed with earlier | added
      · exact ordered.holders entry earlier
      · split_ifs at added with acquisition
        · exact absurd (congrArg Prod.fst (List.mem_singleton.mp added)) same
        · exact absurd added List.not_mem_nil
  · intro entry listed
    rw [swapped_storedToken]
    rcases List.mem_append.mp listed with earlier | added
    · exact le_trans (ordered.recorded entry earlier) grows
    · split_ifs at added with acquisition
      · rw [List.mem_singleton.mp added]
      · exact absurd added List.not_mem_nil
  · simp only [LeaseSystem.swapped, List.map_append, List.pairwise_append]
    refine ⟨ordered.increasing, ?_, ?_⟩
    · split_ifs
      · exact List.pairwise_singleton _ _
      · exact List.Pairwise.nil
    · intro earlier listed added new
      obtain ⟨entry, recorded, rfl⟩ := List.mem_map.mp listed
      split_ifs at new with acquisition
      · rw [acquisition] at replaces
        simp only [replaced] at replaces
        have bounded := ordered.recorded entry recorded
        rw [List.mem_singleton.mp new]
        show entry.2 < pending.token
        omega
      · exact absurd new List.not_mem_nil

theorem Ordered.step
    (collisionFree : Function.Injective system.store.leaseEtag) (ordered : system.Ordered)
    (taken : system.step action = some next) :
    next.Ordered ∧ next.store.leaseEtag = system.store.leaseEtag := by
  rcases step_cases taken with ⟨node, calls, kept, rfl⟩ | ⟨pending, loads, rfl⟩ |
    ⟨pending, now, calls, member, kept, matched, rfl⟩
  · exact ⟨ordered.failed node calls kept, rfl⟩
  · exact ⟨ordered.loaded pending loads, rfl⟩
  · exact ⟨ordered.swapped collisionFree pending member now calls kept matched, rfl⟩

theorem Ordered.step_handles
    (collisionFree : Function.Injective system.store.leaseEtag) (ordered : system.Ordered)
    (taken : system.step action = some next) (node : Node) :
    (system.manager node).handle.token ≤ (next.manager node).handle.token := by
  rcases step_cases taken with ⟨failing, calls, kept, rfl⟩ | ⟨pending, loads, rfl⟩ |
    ⟨pending, now, calls, member, kept, matched, rfl⟩
  · exact le_of_eq (system.failed_token failing calls node).symm
  · exact le_refl _
  · exact ordered.swapped_handles collisionFree pending member now calls matched node

theorem step_store
    (taken : system.step action = some next) :
    next.store = { system.store with lease := next.store.lease } := by
  rcases step_cases taken with ⟨node, calls, kept, rfl⟩ | ⟨pending, loads, rfl⟩ |
    ⟨pending, now, calls, member, kept, matched, rfl⟩ <;> rfl

omit [DecidableEq Node] [DecidableEq ETag] in
theorem Ordered.congr (ordered : system.Ordered)
    (store : ObjectStore ETag) (sameLease : store.lease = system.store.lease)
    (sameHash : store.leaseEtag = system.store.leaseEtag) :
    ({ system with store := store } : LeaseSystem Node ETag).Ordered := by
  have sameToken : ({ system with store := store } : LeaseSystem Node ETag).storedToken =
      system.storedToken := by
    simp only [storedToken, sameLease]
  have sameCarried : ∀ expected token, system.Carried expected token →
      ({ system with store := store } : LeaseSystem Node ETag).Carried expected token := by
    intro expected token carried
    unfold Carried at carried ⊢
    rw [sameHash]
    exact carried
  refine ⟨?_, ?_, ?_, ordered.extending, ordered.holders, ?_, ordered.increasing⟩
  · intro node etag held
    exact sameCarried _ _ (ordered.held node etag held)
  · intro node
    rw [sameToken]
    exact ordered.reached node
  · intro pending member
    obtain ⟨token, carried, replaces⟩ := ordered.pending pending member
    exact ⟨token, sameCarried _ _ carried, replaces⟩
  · intro entry listed
    rw [sameToken]
    exact ordered.recorded entry listed

theorem Ordered.run {store : ObjectStore ETag} {identity : Node → String × Nat}
    (collisionFree : Function.Injective store.leaseEtag)
    (reached : Reaches LeaseSystem.step (fun _ _ => True) (start store identity) system) :
    system.Ordered ∧ system.store.leaseEtag = store.leaseEtag := by
  refine Reaches.invariant
    (fun system => system.Ordered ∧ system.store.leaseEtag = store.leaseEtag)
    ⟨ordered_start store identity, rfl⟩ ?_ system reached
  intro state action next invariant _ taken
  obtain ⟨ordered, etags⟩ := invariant
  have collisionFree' : Function.Injective state.store.leaseEtag := by
    rw [etags]
    exact collisionFree
  obtain ⟨ordered', etags'⟩ := ordered.step collisionFree' taken
  exact ⟨ordered', etags'.trans etags⟩

/-- One step from an ordered state: the stored token never falls, it rises only
with an acquisition, by one, and past every token acquired before. -/
theorem Ordered.step_token
    (collisionFree : Function.Injective system.store.leaseEtag) (ordered : system.Ordered)
    (taken : system.step action = some next) :
    (next.acquired = system.acquired ∧ next.storedToken = system.storedToken) ∨
      ∃ node, next.acquired = system.acquired ++ [(node, system.storedToken + 1)] ∧
        next.storedToken = system.storedToken + 1 := by
  rcases step_cases taken with ⟨node, calls, kept, rfl⟩ | ⟨pending, loads, rfl⟩ |
    ⟨pending, now, calls, member, kept, matched, rfl⟩
  · exact Or.inl ⟨rfl, rfl⟩
  · exact Or.inl ⟨rfl, rfl⟩
  · have replaces := ordered.swap_token collisionFree pending member matched
    cases kind : pending.put with
    | acquisition =>
        rw [kind] at replaces
        simp only [replaced] at replaces
        refine Or.inr ⟨pending.node, ?_, ?_⟩
        · simp [LeaseSystem.swapped, kind, replaces]
        · rw [swapped_storedToken, replaces]
    | extension =>
        rw [kind] at replaces
        simp only [replaced] at replaces
        refine Or.inl ⟨?_, ?_⟩
        · simp [LeaseSystem.swapped, kind]
        · rw [swapped_storedToken, replaces]

theorem Ordered.renew_extends {node : Node}
    (ordered : system.Ordered) (before : ∃ token, (node, token) ∈ system.acquired)
    (taken : system.step (.renew node now) = some next) :
    ∃ etag, next.calls = system.calls ++
      [⟨node, .renew, .extension, some etag, (system.manager node).handle.token⟩] := by
  obtain ⟨token, acquired⟩ := before
  obtain ⟨etag, held⟩ := ordered.holders (node, token) acquired
  simp only [LeaseSystem.step, held] at taken
  cases Option.some.inj taken
  exact ⟨etag, rfl⟩

theorem Ordered.acquisition_raises {index : Nat} {ioFails : Bool}
    {pending : PendingLease Node ETag} (collisionFree : Function.Injective system.store.leaseEtag)
    (ordered : system.Ordered) (found : system.calls[index]? = some pending)
    (acquisition : pending.put = .acquisition)
    (taken : system.step (.swap index now ioFails) = some next) :
    next = system.failed pending.node (system.calls.eraseIdx index) ∨
      next.acquired = system.acquired ++ [(pending.node, system.storedToken + 1)] ∧
        next.storedToken = system.storedToken + 1 := by
  obtain ⟨other, sameIndex, failed | ⟨matched, swapped⟩⟩ := swap_cases taken
  · cases Option.some.inj (found.symm.trans sameIndex)
    exact Or.inl failed
  · cases Option.some.inj (found.symm.trans sameIndex)
    have replaces := ordered.swap_token collisionFree pending (List.mem_of_getElem? found) matched
    rw [acquisition] at replaces
    rw [swapped, swapped_storedToken, ← show pending.token = system.storedToken + 1 from replaces]
    exact Or.inr ⟨by simp [LeaseSystem.swapped, acquisition], rfl⟩

/-- The put of an extension, successful or not, leaves the stored token and its
node's own token as they are. -/
theorem Ordered.extension_keeps {index : Nat}
    {ioFails : Bool} {pending : PendingLease Node ETag}
    (collisionFree : Function.Injective system.store.leaseEtag) (ordered : system.Ordered)
    (found : system.calls[index]? = some pending) (extension : pending.put = .extension)
    (taken : system.step (.swap index now ioFails) = some next) :
    next.storedToken = system.storedToken ∧
      (next.manager pending.node).handle.token = (system.manager pending.node).handle.token := by
  obtain ⟨other, sameIndex, failed | ⟨matched, swapped⟩⟩ := swap_cases taken
  · cases Option.some.inj (found.symm.trans sameIndex)
    rw [failed]
    simp [LeaseSystem.failed, storedToken]
  · cases Option.some.inj (found.symm.trans sameIndex)
    have replaces := ordered.swap_token collisionFree pending (List.mem_of_getElem? found) matched
    rw [extension] at replaces
    rw [swapped]
    refine ⟨replaces, ?_⟩
    simp [LeaseSystem.swapped, LeaseManager.installed, extension]

/-- Over every interleaving, the stored token never decreases, the acquired
tokens strictly increase in the order of the acquisitions, and a renewal that
its node begins after an acquisition of its own never changes the token.  A
renewal without an ETag acquires, for the token after the stored one. -/
theorem lease_tokens_increase (store : ObjectStore ETag) (identity : Node → String × Nat)
    (collisionFree : Function.Injective store.leaseEtag) (system : LeaseSystem Node ETag)
    (reached : Reaches LeaseSystem.step (fun _ _ => True) (start store identity) system) :
    (system.acquired.map Prod.snd).Pairwise (· < ·) ∧
    (∀ action next, system.step action = some next →
      system.storedToken ≤ next.storedToken ∧
      ∀ node token, next.acquired = system.acquired ++ [(node, token)] →
        token = next.storedToken ∧ ∀ entry ∈ system.acquired, entry.2 < token) ∧
    (∀ node now next, (∃ token, (node, token) ∈ system.acquired) →
      system.step (.renew node now) = some next →
      ∃ etag, next.calls = system.calls ++
        [⟨node, .renew, .extension, some etag, (system.manager node).handle.token⟩]) ∧
    (∀ index now ioFails pending next, system.calls[index]? = some pending →
      pending.put = .extension → system.step (.swap index now ioFails) = some next →
      next.storedToken = system.storedToken ∧
        (next.manager pending.node).handle.token = (system.manager pending.node).handle.token) ∧
    (∀ node now next, (system.manager node).currentEtag = none →
      system.step (.renew node now) = some next → next = system.failed node system.calls ∨
        ∃ pending, pending.node = node ∧ pending.put = .acquisition ∧
          pending.token = system.storedToken + 1 ∧
          next = { system with calls := system.calls ++ [pending] }) ∧
    (∀ index now ioFails pending next, system.calls[index]? = some pending →
      pending.put = .acquisition → system.step (.swap index now ioFails) = some next →
      next = system.failed pending.node (system.calls.eraseIdx index) ∨
        next.acquired = system.acquired ++ [(pending.node, system.storedToken + 1)] ∧
          next.storedToken = system.storedToken + 1) := by
  obtain ⟨ordered, etags⟩ := Ordered.run collisionFree reached
  have injective : Function.Injective system.store.leaseEtag := by
    rw [etags]
    exact collisionFree
  refine ⟨ordered.increasing, ?_, ?_, ?_, ?_, ?_⟩
  · intro action next taken
    rcases ordered.step_token injective taken with ⟨same, kept⟩ | ⟨acquirer, grown, raised⟩
    · refine ⟨le_of_eq kept.symm, ?_⟩
      intro node token appended
      rw [same] at appended
      exact absurd (congrArg List.length appended) (by simp)
    · refine ⟨by omega, ?_⟩
      intro node token appended
      rw [grown] at appended
      have tokenExact : system.storedToken + 1 = token :=
        congrArg Prod.snd (List.singleton_inj.mp (List.append_cancel_left appended))
      refine ⟨tokenExact.symm.trans raised.symm, ?_⟩
      intro entry listed
      have bounded := ordered.recorded entry listed
      omega
  · intro node now next before taken
    exact ordered.renew_extends before taken
  · intro index now ioFails pending next found extension taken
    exact ordered.extension_keeps injective found extension taken
  · intro node now next bare taken
    simp only [LeaseSystem.step, bare] at taken
    cases Option.some.inj taken
    rcases system.begin_cases node .renew now with failed | ⟨pending, own, put, loads, exact⟩
    · exact Or.inl failed
    · rw [Loads, put] at loads
      exact Or.inr ⟨pending, own, put, loads.2, exact⟩
  · intro index now ioFails pending next found acquisition taken
    exact ordered.acquisition_raises injective found acquisition taken

def pairOfNodes : LeaseSystem Bool (Manifest ⊕ Lease) :=
  start (ObjectStore.empty Sum.inl Sum.inr) fun node => (if node then "b" else "a", 10)

/-- `a` acquires and renews; after its lease has run out `b` acquires. -/
def handover : List (LeaseAction Bool) :=
  [.tryAcquire false 0, .swap 0 0 false, .renew false 5, .swap 0 5 false,
    .tryAcquire true 16, .swap 0 16 false]

theorem handover_tokens_increase :
    ∃ system, runChecked LeaseSystem.step (fun _ _ => true) pairOfNodes handover = some system ∧
      system.acquired = [(false, 1), (true, 2)] ∧
      (system.acquired.map Prod.snd).Pairwise (· < ·) := by
  have facts : (runChecked LeaseSystem.step (fun _ _ => true) pairOfNodes handover).map
      LeaseSystem.acquired = some [(false, 1), (true, 2)] := by decide +kernel
  obtain ⟨system, ran, acquired⟩ := Option.map_eq_some_iff.mp facts
  have reached := runChecked_unguarded ran
  exact ⟨system, ran, acquired,
    (lease_tokens_increase _ _ Sum.inr_injective system reached).1⟩

/-! ## A renewal that takes the lease over -/

/-- `b` has acquired nothing yet when it renews after `a`'s lease has run out. -/
def takeover : List (LeaseAction Bool) :=
  [.tryAcquire false 0, .swap 0 0 false, .renew true 11]

theorem renew_takes_over :
    ¬ ∀ system : LeaseSystem Bool (Manifest ⊕ Lease),
      Reaches LeaseSystem.step (fun _ _ => True) pairOfNodes system →
      ∀ index now pending next, system.calls[index]? = some pending → pending.call = .renew →
        system.step (.swap index now false) = some next →
        next.storedToken = system.storedToken := by
  intro kept
  have facts : (runChecked LeaseSystem.step (fun _ _ => true) pairOfNodes takeover).map
      (fun system => (system.storedToken, (system.calls[0]?).map PendingLease.call,
        (system.step (.swap 0 11 false)).map LeaseSystem.storedToken)) =
      some (1, some .renew, some 2) := by decide +kernel
  obtain ⟨system, ran, values⟩ := Option.map_eq_some_iff.mp facts
  have reached := runChecked_unguarded ran
  obtain ⟨before, rest⟩ := Prod.mk.inj values
  obtain ⟨called, after⟩ := Prod.mk.inj rest
  obtain ⟨pending, found, renewing⟩ := Option.map_eq_some_iff.mp called
  obtain ⟨next, taken, raised⟩ := Option.map_eq_some_iff.mp after
  have same := kept system reached 0 11 pending next found renewing taken
  omega

end LeaseSystem

end Pantheon.Keystone
