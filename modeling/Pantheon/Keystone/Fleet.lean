import Mathlib
import Pantheon.Keystone.Host
import Pantheon.Keystone.Lease

/-!
# Several engines on one object store

Every node has its own log, engine and tasks, and a lease manager whose handle
its engine reads; the store is shared.  A run interleaves the steps of the lease
managers with those of the engines, in any order.
-/

set_option autoImplicit false

namespace Pantheon.Keystone

open Pantheon.Lib

def LsmEngine.CommitFlushFault.reachesSwap (walBytes : Bytes) :
    Option LsmEngine.CommitFlushFault → Bool
  | some .readWal => false
  | some .putSegment => decide (walBytes = [])
  | some .saveManifest => false
  | some (.truncate _) => true
  | none => true

namespace LsmEngine

variable {ETag : Type} [DecidableEq ETag]

omit [DecidableEq ETag] in
theorem beginCompact_etag (engine : LsmEngine ETag) :
    engine.beginCompact.1.write.manifestEtag = engine.write.manifestEtag := by
  unfold beginCompact
  split_ifs <;> rfl

end LsmEngine

namespace Host

variable {ETag : Type} [DecidableEq ETag]

instance (host : Host ETag) : Decidable host.InSync :=
  inferInstanceAs (Decidable (_ = _))

/-- The manifest that a step installs, if it installs one. -/
def installing (host : Host ETag) : Action → Option Manifest
  | .commitFlush index fault _ =>
      match host.flushes[index]? with
      | some ⟨pending, some _⟩ =>
          if LsmEngine.CommitFlushFault.reachesSwap host.walFile fault ∧ host.InSync then
            some (host.flushManifest pending)
          else none
      | _ => none
  | .commitCompact index saveFails _ =>
      match host.compactions[index]? with
      | some ⟨pending, some table⟩ =>
          if saveFails = false ∧ host.InSync then some (host.compactManifest pending table) else none
      | _ => none
  | _ => none

/-- A step and the manifest: untouched, loaded, or replaced under the engine's
own token. -/
structure Touches (host next : Host ETag) (action : Action) : Prop where
  handle : next.engine.lease = host.engine.lease
  lease : next.store.lease = host.store.lease
  manifestHash : next.store.manifestEtag = host.store.manifestEtag
  leaseHash : next.store.leaseEtag = host.store.leaseEtag
  manifest :
    (host.installing action = none ∧ next.store.manifest = host.store.manifest ∧
      (next.engine.write.manifestEtag = host.engine.write.manifestEtag ∨
        (∃ unreadable, action = .reopen unreadable) ∧ next.InSync)) ∨
    ∃ manifest, host.installing action = some manifest ∧ host.InSync ∧
      manifest.writerFencingToken = host.engine.lease.token ∧
      next.store.manifest = some manifest ∧
      next.engine.write.manifestEtag = some (host.store.manifestEtag manifest)

theorem commitFlush_manifest (host : Host ETag)
    (fault : Option LsmEngine.CommitFlushFault) (threshold : Nat) (pending : PendingFlush)
    (table : SSTable)
    (outcome : LsmEngine ETag × ObjectStore ETag × Except StorageError (Option PendingCompaction))
    (ran : host.engine.commitFlush host.store fault threshold pending table = outcome) :
    ((LsmEngine.CommitFlushFault.reachesSwap host.engine.write.wal.readAllBytes fault = true ∧
        host.engine.write.manifestEtag = host.store.manifest.map host.store.manifestEtag) ∧
      outcome.2.1.manifest = some (host.flushManifest pending) ∧
        outcome.1.write.manifestEtag = some (host.store.manifestEtag (host.flushManifest pending))) ∨
    (¬ (LsmEngine.CommitFlushFault.reachesSwap host.engine.write.wal.readAllBytes fault = true ∧
        host.engine.write.manifestEtag = host.store.manifest.map host.store.manifestEtag) ∧
      outcome.2.1.manifest = host.store.manifest ∧
        outcome.1.write.manifestEtag = host.engine.write.manifestEtag) := by
  have shippedManifest : ∀ bytes : Bytes, (if bytes = [] then host.store
      else host.store.putWalSegment host.engine.write.walSegId bytes).manifest = host.store.manifest := by
    intro bytes
    split_ifs <;> rfl
  have shippedEtag : ∀ bytes : Bytes, (if bytes = [] then host.store
      else host.store.putWalSegment host.engine.write.walSegId bytes).manifestEtag = host.store.manifestEtag := by
    intro bytes
    split_ifs <;> rfl
  unfold LsmEngine.commitFlush at ran
  simp only [] at ran
  by_cases readFails : fault = some .readWal
  · rw [if_pos readFails] at ran
    subst readFails
    simp [LsmEngine.CommitFlushFault.reachesSwap, ← ran]
  by_cases putFails : host.engine.write.wal.readAllBytes ≠ [] ∧ fault = some .putSegment
  · rw [if_neg readFails, if_pos putFails] at ran
    simp [LsmEngine.CommitFlushFault.reachesSwap, ← ran, putFails.2, putFails.1]
  by_cases saveFails : fault = some .saveManifest
  · rw [if_neg readFails, if_neg putFails, if_pos saveFails] at ran
    subst saveFails
    simp [LsmEngine.CommitFlushFault.reachesSwap, ← ran, shippedManifest]
  rw [if_neg readFails, if_neg putFails, if_neg saveFails] at ran
  have reaches : LsmEngine.CommitFlushFault.reachesSwap host.engine.write.wal.readAllBytes fault = true := by
    rcases fault with _ | _ | _ | _ | _ <;> simp_all [LsmEngine.CommitFlushFault.reachesSwap]
  unfold ObjectStore.saveManifestCas putIfMatch at ran
  rw [shippedManifest, shippedEtag] at ran
  by_cases matched : host.engine.write.manifestEtag = host.store.manifest.map host.store.manifestEtag
  · refine Or.inl ⟨⟨reaches, matched⟩, ?_⟩
    rw [if_pos matched] at ran
    simp only [] at ran
    split at ran
    · simp [← ran, flushManifest]
    · split at ran
      · simp [← ran, flushManifest, LsmEngine.beginCompact_etag]
      · simp [← ran, flushManifest]
  · refine Or.inr ⟨fun both => matched both.2, ?_⟩
    rw [if_neg matched] at ran
    simp [← ran, shippedManifest]

variable {host next : Host ETag}

theorem touches_commitFlush {index threshold : Nat} {fault : Option LsmEngine.CommitFlushFault}
    (taken : host.step (.commitFlush index fault threshold) = some next) :
    host.Touches next (.commitFlush index fault threshold) := by
  obtain ⟨pending, table, segments, found, effect⟩ := step_commitFlush taken
  have stores : next.engine.lease = host.engine.lease ∧ next.store.lease = host.store.lease ∧
      next.store.manifestEtag = host.store.manifestEtag ∧
      next.store.leaseEtag = host.store.leaseEtag := by
    rcases effect with ⟨rfl, _⟩ | ⟨_, done, rfl, rfl | rfl, _⟩ <;> exact ⟨rfl, rfl, rfl, rfl⟩
  refine ⟨stores.1, stores.2.1, stores.2.2.1, stores.2.2.2, ?_⟩
  simp only [step, found] at taken
  generalize ran : host.engine.commitFlush host.store fault threshold pending table = outcome at taken
  have manifest := commitFlush_manifest _ _ _ _ _ outcome ran
  obtain ⟨engine, store, result⟩ := outcome
  have nextExact : next.engine = engine ∧ next.store = store := by
    cases result <;> cases Option.some.inj taken <;> exact ⟨rfl, rfl⟩
  rw [nextExact.1, nextExact.2]
  rcases manifest with ⟨swaps, stored, etag⟩ | ⟨blocked, stored, etag⟩
  · refine Or.inr ⟨host.flushManifest pending, ?_, swaps.2, rfl, stored, etag⟩
    simp only [installing, found]
    exact if_pos swaps
  · refine Or.inl ⟨?_, stored, Or.inl etag⟩
    simp only [installing, found]
    exact if_neg blocked

theorem touches_commitCompact {index : Nat} {saveFails : Bool} {deleteFails : Nat → Bool}
    (taken : host.step (.commitCompact index saveFails deleteFails) = some next) :
    host.Touches next (.commitCompact index saveFails deleteFails) := by
  obtain ⟨pending, table, found, effect⟩ := step_commitCompact taken
  cases saveFails with
  | true =>
      simp only [step, found, LsmEngine.commitCompact, if_true, Option.some.injEq] at taken
      subst taken
      refine ⟨rfl, rfl, rfl, rfl, Or.inl ⟨?_, rfl, Or.inl rfl⟩⟩
      simp [installing, found]
  | false =>
      rcases effect with ⟨rfl, fails | stale⟩ | ⟨inSync, objects, rfl, _⟩
      · exact absurd fails (by simp)
      · refine ⟨rfl, rfl, rfl, rfl, Or.inl ⟨?_, rfl, Or.inl rfl⟩⟩
        simp [installing, found, stale]
      · refine ⟨rfl, rfl, rfl, rfl, Or.inr ⟨host.compactManifest pending table, ?_, inSync, rfl,
          rfl, rfl⟩⟩
        simp [installing, found, inSync]

theorem touches_step {action : Action} (own : ∀ lease, action ≠ .setLease lease)
    (taken : host.step action = some next) : host.Touches next action := by
  cases action with
  | write failure entries =>
      cases failure with
      | none =>
          rcases step_write taken with ⟨rfl, _⟩ | ⟨rfl, _⟩ | ⟨_, rfl⟩ <;>
            exact ⟨rfl, rfl, rfl, rfl, Or.inl ⟨rfl, rfl, Or.inl rfl⟩⟩
      | some written =>
          rw [step_write_failed taken]
          exact ⟨rfl, rfl, rfl, rfl, Or.inl ⟨rfl, rfl, Or.inl rfl⟩⟩
  | snapshotNow =>
      cases Option.some.inj taken
      exact ⟨rfl, rfl, rfl, rfl, Or.inl ⟨rfl, rfl, Or.inl rfl⟩⟩
  | releaseSnapshot seq =>
      cases Option.some.inj taken
      have engine : (host.engine.releaseSnapshot seq).lease = host.engine.lease ∧
          (host.engine.releaseSnapshot seq).write.manifestEtag =
            host.engine.write.manifestEtag := by
        unfold LsmEngine.releaseSnapshot
        split <;> exact ⟨rfl, rfl⟩
      exact ⟨engine.1, rfl, rfl, rfl, Or.inl ⟨rfl, rfl, Or.inl engine.2⟩⟩
  | beginFlush =>
      rcases step_beginFlush taken with rfl | rfl <;>
        exact ⟨rfl, rfl, rfl, rfl, Or.inl ⟨rfl, rfl, Or.inl rfl⟩⟩
  | finishFlush index bloom putFails =>
      obtain ⟨pending, _, ⟨rfl, _⟩ | rfl⟩ := step_finishFlush taken <;>
        exact ⟨rfl, rfl, rfl, rfl, Or.inl ⟨rfl, rfl, Or.inl rfl⟩⟩
  | commitFlush index fault threshold => exact touches_commitFlush taken
  | beginCompact =>
      rcases step_beginCompact taken with rfl | rfl <;>
        exact ⟨rfl, rfl, rfl, rfl, Or.inl ⟨rfl, rfl, Or.inl rfl⟩⟩
  | finishCompact index bloom putFails =>
      obtain ⟨pending, _, ⟨rfl, _⟩ | ⟨table, _, rfl⟩⟩ := step_finishCompact taken <;>
        exact ⟨rfl, rfl, rfl, rfl, Or.inl ⟨rfl, rfl, Or.inl rfl⟩⟩
  | commitCompact index saveFails deleteFails => exact touches_commitCompact taken
  | startRead key | endRead index =>
      cases Option.some.inj taken
      exact ⟨rfl, rfl, rfl, rfl, Or.inl ⟨rfl, rfl, Or.inl rfl⟩⟩
  | setLease lease => exact absurd rfl (own lease)
  | reopen unreadable =>
      cases Option.some.inj taken
      refine ⟨rfl, rfl, rfl, rfl, Or.inl ⟨rfl, rfl, Or.inr ⟨⟨unreadable, rfl⟩, ?_⟩⟩⟩
      simp [InSync, LsmEngine.openEngine, ObjectStore.loadManifest, Function.comp_def]

end Host

/-! ## The fleet -/

structure Fleet (Node ETag : Type) where
  /-- The lease managers, with the shared store. -/
  leases : LeaseSystem Node ETag
  hosts : Node → Host ETag

inductive FleetAction (Node : Type) where
  | lease (action : LeaseAction Node)
  | engine (node : Node) (action : Action)

namespace Fleet

variable {Node ETag : Type} [DecidableEq Node] [DecidableEq ETag]

/-- Every node opened on an empty store, before anybody has acquired the lease. -/
def start (manifestEtag : Manifest → ETag) (leaseEtag : Lease → ETag)
    (identity : Node → String × Nat) : Fleet Node ETag :=
  ⟨LeaseSystem.start (ObjectStore.empty manifestEtag leaseEtag) identity,
    fun _ => Host.start manifestEtag leaseEtag LeaseHandle.default⟩

def store (fleet : Fleet Node ETag) : ObjectStore ETag := fleet.leases.store

def token (fleet : Fleet Node ETag) (node : Node) : Nat := (fleet.leases.manager node).handle.token

def host (fleet : Fleet Node ETag) (node : Node) : Host ETag :=
  { fleet.hosts node with
    engine := { (fleet.hosts node).engine with lease := (fleet.leases.manager node).handle }
    store := fleet.store }

def step (fleet : Fleet Node ETag) : FleetAction Node → Option (Fleet Node ETag)
  | .lease action => (fleet.leases.step action).map fun leases => { fleet with leases := leases }
  | .engine _ (.setLease _) => none
  | .engine node action =>
      ((fleet.host node).step action).map fun next =>
        ⟨{ fleet.leases with store := next.store }, Function.update fleet.hosts node next⟩

/-- The manifest that a step installs, if it installs one. -/
def installing (fleet : Fleet Node ETag) : FleetAction Node → Option Manifest
  | .lease _ => none
  | .engine node action => (fleet.host node).installing action

theorem step_engine {fleet next : Fleet Node ETag} {node : Node} {action : Action}
    (taken : fleet.step (.engine node action) = some next) :
    (∀ lease, action ≠ .setLease lease) ∧ ∃ moved, (fleet.host node).step action = some moved ∧
      next = ⟨{ fleet.leases with store := moved.store },
        Function.update fleet.hosts node moved⟩ := by
  cases action with
  | setLease lease => exact absurd taken (by simp [step])
  | _ =>
      simp only [step, Option.map_eq_some_iff] at taken
      obtain ⟨moved, ran, result⟩ := taken
      exact ⟨by simp, moved, ran, result.symm⟩

end Fleet

end Pantheon.Keystone
