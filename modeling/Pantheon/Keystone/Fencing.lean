import Mathlib
import Pantheon.Keystone.Fleet

/-!
# Fencing the manifest by its compare-and-swap

A commit swaps the manifest on the ETag its engine last saw, under the token
its handle carries at that moment; nothing in the swap looks at the lease.  An
outdated holder is therefore stopped only by a manifest it has not seen: one
that a newer holder wrote, as long as it has not loaded that one either.
-/

set_option autoImplicit false

namespace Pantheon.Keystone

open Pantheon.Lib

namespace Fleet

variable {Node ETag : Type} [DecidableEq Node] [DecidableEq ETag]

/-- A node opens no manifest of a newer holder, and a node that is not the
newest holder commits only once a manifest of a newer one is installed. -/
def Succession (fleet : Fleet Node ETag) : FleetAction Node → Prop
  | .engine node (.reopen _) =>
      ∀ manifest ∈ fleet.store.manifest, manifest.writerFencingToken ≤ fleet.token node
  | .engine node (.commitFlush _ _ _) | .engine node (.commitCompact _ _ _) =>
      fleet.token node = fleet.leases.storedToken ∨
        ∃ manifest ∈ fleet.store.manifest, fleet.token node < manifest.writerFencingToken
  | _ => True

instance (fleet : Fleet Node ETag) (action : FleetAction Node) :
    Decidable (fleet.Succession action) := by
  induction action using FleetAction.casesOn with
  | engine node action =>
      induction action using Action.casesOn <;> (dsimp only [Succession]; infer_instance)
  | lease action => dsimp only [Succession]; infer_instance

/-- No engine has seen a manifest of a newer holder than its own node. -/
structure Seen (fleet : Fleet Node ETag) : Prop where
  ordered : fleet.leases.Ordered
  leaseHash : Function.Injective fleet.store.leaseEtag
  manifestHash : Function.Injective fleet.store.manifestEtag
  seen : ∀ node manifest, (fleet.hosts node).engine.write.manifestEtag =
    some (fleet.store.manifestEtag manifest) → manifest.writerFencingToken ≤ fleet.token node

omit [DecidableEq Node] [DecidableEq ETag] in
theorem seen_start (manifestEtag : Manifest → ETag) (leaseEtag : Lease → ETag)
    (identity : Node → String × Nat) (leaseHash : Function.Injective leaseEtag)
    (manifestHash : Function.Injective manifestEtag) :
    (start manifestEtag leaseEtag identity).Seen := by
  refine ⟨LeaseSystem.ordered_start _ _, leaseHash, manifestHash, ?_⟩
  intro node manifest etag
  exact absurd etag (by simp [start, Host.start, LsmEngine.openEngine, ObjectStore.loadManifest,
    ObjectStore.empty])

theorem Seen.lease {fleet : Fleet Node ETag} (seen : fleet.Seen) {action : LeaseAction Node}
    {leases : LeaseSystem Node ETag} (taken : fleet.leases.step action = some leases) :
    ({ fleet with leases := leases } : Fleet Node ETag).Seen := by
  have sameStore := LeaseSystem.step_store taken
  have sameLeaseHash : leases.store.leaseEtag = fleet.store.leaseEtag := by rw [sameStore]; rfl
  have sameHash : leases.store.manifestEtag = fleet.store.manifestEtag := by rw [sameStore]; rfl
  refine ⟨(seen.ordered.step seen.leaseHash taken).1, ?_, ?_, ?_⟩
  · rw [store, sameLeaseHash]
    exact seen.leaseHash
  · rw [store, sameHash]
    exact seen.manifestHash
  · intro node manifest etag
    rw [store, sameHash] at etag
    exact le_trans (seen.seen node manifest etag)
      (seen.ordered.step_handles seen.leaseHash taken node)

theorem Seen.engine {fleet : Fleet Node ETag} (seen : fleet.Seen) {node : Node} {action : Action}
    {moved : Host ETag} (guard : fleet.Succession (.engine node action))
    (own : ∀ lease, action ≠ .setLease lease) (ran : (fleet.host node).step action = some moved) :
    (⟨{ fleet.leases with store := moved.store }, Function.update fleet.hosts node moved⟩ :
      Fleet Node ETag).Seen := by
  have touches := Host.touches_step own ran
  have sameHash : moved.store.manifestEtag = fleet.store.manifestEtag := touches.manifestHash
  have sameLeaseHash : moved.store.leaseEtag = fleet.store.leaseEtag := touches.leaseHash
  refine ⟨seen.ordered.congr moved.store touches.lease touches.leaseHash, ?_, ?_, ?_⟩
  · simp only [store, sameLeaseHash]
    exact seen.leaseHash
  · simp only [store, sameHash]
    exact seen.manifestHash
  intro other manifest etag
  simp only [store, sameHash] at etag
  by_cases same : other = node
  · subst same
    simp only [Function.update_self] at etag
    rcases touches.manifest with ⟨_, stored, kept | ⟨⟨unreadable, rfl⟩, loaded⟩⟩ |
      ⟨installed, _, _, token, stored, replaced⟩
    · exact seen.seen other manifest (kept ▸ etag)
    · have found : moved.store.manifest.map fleet.store.manifestEtag =
          some (fleet.store.manifestEtag manifest) := by
        have loaded' : moved.engine.write.manifestEtag =
            moved.store.manifest.map moved.store.manifestEtag := loaded
        rw [sameHash] at loaded'
        exact loaded'.symm.trans etag
      obtain ⟨current, listed, hash⟩ := Option.map_eq_some_iff.mp found
      rw [seen.manifestHash hash] at listed
      exact guard manifest (stored ▸ listed)
    · rw [replaced] at etag
      rw [← seen.manifestHash (Option.some.inj etag)]
      exact le_of_eq token
  · simp only [Function.update_of_ne same] at etag
    exact seen.seen other manifest etag

theorem Seen.step {fleet next : Fleet Node ETag} {action : FleetAction Node} (seen : fleet.Seen)
    (guard : fleet.Succession action) (taken : fleet.step action = some next) : next.Seen := by
  cases action with
  | lease action =>
      obtain ⟨leases, ran, rfl⟩ := Option.map_eq_some_iff.mp taken
      exact seen.lease ran
  | engine node action =>
      obtain ⟨own, moved, ran, rfl⟩ := step_engine taken
      exact seen.engine guard own ran

theorem Seen.installs {fleet next : Fleet Node ETag} {action : FleetAction Node}
    {manifest : Manifest} (seen : fleet.Seen) (guard : fleet.Succession action)
    (taken : fleet.step action = some next)
    (installs : fleet.installing action = some manifest) :
    manifest.writerFencingToken = fleet.leases.storedToken := by
  cases action with
  | lease action => exact absurd installs (by simp [installing])
  | engine node action =>
      obtain ⟨own, moved, ran, rfl⟩ := step_engine taken
      rcases (Host.touches_step own ran).manifest with ⟨nothing, _⟩ |
        ⟨installed, installs', inSync, token, _, _⟩
      · exact absurd (nothing.symm.trans installs) (by simp)
      cases Option.some.inj (installs'.symm.trans installs)
      have current : fleet.token node = fleet.leases.storedToken ∨
          ∃ manifest ∈ fleet.store.manifest, fleet.token node < manifest.writerFencingToken := by
        cases action with
        | commitFlush index fault threshold => exact guard
        | commitCompact index saveFails deleteFails => exact guard
        | _ => exact absurd installs (by simp [installing, Host.installing])
      rcases current with newest | ⟨written, stored, newer⟩
      · exact token.trans newest
      · -- the newer holder's manifest is the stored one, and this node has not seen it
        have swapped : (fleet.hosts node).engine.write.manifestEtag =
            some (fleet.store.manifestEtag written) := by
          have inSync' : (fleet.hosts node).engine.write.manifestEtag =
              fleet.store.manifest.map fleet.store.manifestEtag := inSync
          rw [inSync', Option.mem_def.mp stored]
          rfl
        have older := seen.seen node written swapped
        omega

/-- As long as nodes open no manifest of a newer holder and the newest holder
writes the manifest before an older one commits again, every manifest that is
installed carries at least every token acquired before. -/
theorem installed_manifest_fenced (manifestEtag : Manifest → ETag) (leaseEtag : Lease → ETag)
    (identity : Node → String × Nat) (manifestHash : Function.Injective manifestEtag)
    (leaseHash : Function.Injective leaseEtag) (fleet : Fleet Node ETag)
    (reached : Reaches step Succession (start manifestEtag leaseEtag identity) fleet)
    (action : FleetAction Node) (next : Fleet Node ETag) (guard : fleet.Succession action)
    (taken : fleet.step action = some next) (manifest : Manifest)
    (installs : fleet.installing action = some manifest) :
    ∀ entry ∈ fleet.leases.acquired, entry.2 ≤ manifest.writerFencingToken := by
  have seen : fleet.Seen :=
    Reaches.invariant Seen (seen_start manifestEtag leaseEtag identity leaseHash manifestHash)
      (fun _ _ _ seen guard taken => seen.step guard taken) fleet reached
  intro entry acquired
  rw [seen.installs guard taken installs]
  exact seen.ordered.recorded entry acquired

/-! ## Two nodes -/

def pairOfNodes : Fleet Bool (Manifest ⊕ Lease) :=
  start Sum.inl Sum.inr fun node => (if node then "b" else "a", 10)

def uploads (node : Bool) (key : Bytes) : List (FleetAction Bool) :=
  [.engine node (.write none [⟨"t", key, some [1]⟩]), .engine node .beginFlush,
    .engine node (.finishFlush 0 Bloom.accepting false)]

/-- `a` uploads a table under token 1; `b` then takes the lapsed lease over. -/
def takeover : List (FleetAction Bool) :=
  [.lease (.tryAcquire false 0), .lease (.swap 0 0 false)] ++ uploads false [1] ++
    [.lease (.tryAcquire true 11), .lease (.swap 0 11 false)]

theorem takeover_manifest_fenced :
    ∃ fleet : Fleet Bool (Manifest ⊕ Lease), ∃ manifest,
      Reaches step Succession pairOfNodes fleet ∧ fleet.leases.acquired = [(false, 1), (true, 2)] ∧
      fleet.installing (.engine true (.commitFlush 0 none 4)) = some manifest ∧
      ∀ entry ∈ fleet.leases.acquired, entry.2 ≤ manifest.writerFencingToken := by
  have facts : (runChecked step (fun fleet action => decide (fleet.Succession action)) pairOfNodes
      (takeover ++ uploads true [2])).map (fun fleet => (fleet.leases.acquired,
        ((fleet.installing (.engine true (.commitFlush 0 none 4))).isSome,
          (fleet.step (.engine true (.commitFlush 0 none 4))).isSome),
        decide (fleet.Succession (.engine true (.commitFlush 0 none 4))))) =
      some ([(false, 1), (true, 2)], (true, true), true) := by decide +kernel
  obtain ⟨fleet, ran, values⟩ := Option.map_eq_some_iff.mp facts
  have reached := runChecked_decided ran
  obtain ⟨acquired, rest⟩ := Prod.mk.inj values
  obtain ⟨outcome, guard⟩ := Prod.mk.inj rest
  obtain ⟨installs, enabled⟩ := Prod.mk.inj outcome
  obtain ⟨manifest, installs⟩ := Option.isSome_iff_exists.mp installs
  obtain ⟨next, taken⟩ := Option.isSome_iff_exists.mp enabled
  exact ⟨fleet, manifest, reached, acquired, installs,
    installed_manifest_fenced _ _ _ Sum.inl_injective Sum.inr_injective fleet reached _ next
      (of_decide_eq_true guard) taken manifest installs⟩

theorem outdated_holder_installs :
    ¬ ∀ fleet : Fleet Bool (Manifest ⊕ Lease), Reaches step (fun _ _ => True) pairOfNodes fleet →
      ∀ action next manifest, fleet.step action = some next →
        fleet.installing action = some manifest →
        ∀ entry ∈ fleet.leases.acquired, entry.2 ≤ manifest.writerFencingToken := by
  intro fenced
  have facts : (runChecked step (fun _ _ => true) pairOfNodes takeover).map (fun fleet =>
      (fleet.leases.acquired,
        (fleet.installing (.engine false (.commitFlush 0 none 4))).map Manifest.writerFencingToken,
        (fleet.step (.engine false (.commitFlush 0 none 4))).isSome)) =
      some ([(false, 1), (true, 2)], some 1, true) := by decide +kernel
  obtain ⟨fleet, ran, values⟩ := Option.map_eq_some_iff.mp facts
  have reached := runChecked_unguarded ran
  obtain ⟨acquired, rest⟩ := Prod.mk.inj values
  obtain ⟨installs, enabled⟩ := Prod.mk.inj rest
  obtain ⟨manifest, installs, token⟩ := Option.map_eq_some_iff.mp installs
  obtain ⟨next, taken⟩ := Option.isSome_iff_exists.mp enabled
  have bound := fenced fleet reached _ next manifest taken installs (true, 2)
    (by rw [acquired]; simp)
  omega

end Fleet

end Pantheon.Keystone
