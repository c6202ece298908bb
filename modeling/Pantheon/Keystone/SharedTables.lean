import Mathlib
import Pantheon.Keystone.Fleet
import Pantheon.Keystone.Wiring

/-!
# Table objects under several engines

An engine numbers its tables from its own counter and uploads a table before
the manifest swap that could refuse it.  `Numbered` is what an engine's own
steps keep, whatever the others do to the store: its counter is past every table
it holds and every table of the manifest it last saw.
-/

set_option autoImplicit false

namespace Pantheon.Keystone

open Pantheon.Lib

namespace Host

variable {ETag : Type}

variable {host next : Host ETag} {table : SSTable}

structure Numbered (host : Host ETag) : Prop where
  heldBelow : ∀ id ∈ host.heldIds, id < host.engine.write.sstableId
  reservedBelow : ∀ id ∈ host.reservedIds, id < host.engine.write.sstableId
  reservedNodup : host.reservedIds.Nodup
  apart : ∀ id ∈ host.reservedIds, id ∉ host.heldIds
  builtFlush : ∀ task ∈ host.flushes, ∀ table ∈ task.built, table.id = task.pending.sstableId
  builtCompaction : ∀ task ∈ host.compactions, ∀ table ∈ task.built, table.id = task.pending.newId
  seen : ∀ manifest, host.engine.write.manifestEtag = some (host.store.manifestEtag manifest) →
    ∀ id ∈ manifest.sstableIds, id < host.engine.write.sstableId ∧ id ∉ host.reservedIds

theorem Numbered.fewer (numbered : host.Numbered)
    (sameTables : next.tables = host.tables)
    (sameCounter : next.engine.write.sstableId = host.engine.write.sstableId)
    (sameEtag : next.engine.write.manifestEtag = host.engine.write.manifestEtag)
    (sameHash : next.store.manifestEtag = host.store.manifestEtag)
    (flushes : next.flushes.Sublist host.flushes)
    (compactions : next.compactions.Sublist host.compactions) : next.Numbered := by
  have reserved : next.reservedIds.Sublist host.reservedIds :=
    (flushes.map _).append (compactions.map _)
  have held : next.heldIds.Sublist host.heldIds := by
    simp only [heldIds, sameTables]
    exact (List.Sublist.refl _).append (compactions.flatMap _)
  refine ⟨?_, ?_, numbered.reservedNodup.sublist reserved, ?_, ?_, ?_, ?_⟩
  · intro id member
    rw [sameCounter]
    exact numbered.heldBelow id (held.subset member)
  · intro id member
    rw [sameCounter]
    exact numbered.reservedBelow id (reserved.subset member)
  · intro id member inUse
    exact numbered.apart id (reserved.subset member) (held.subset inUse)
  · intro task member
    exact numbered.builtFlush task (flushes.subset member)
  · intro task member
    exact numbered.builtCompaction task (compactions.subset member)
  · intro manifest etag id listed
    rw [sameEtag, sameHash] at etag
    rw [sameCounter]
    obtain ⟨below, free⟩ := numbered.seen manifest etag id listed
    exact ⟨below, fun member => free (reserved.subset member)⟩

theorem Numbered.reserve (numbered : host.Numbered)
    (sameEtag : next.engine.write.manifestEtag = host.engine.write.manifestEtag)
    (sameHash : next.store.manifestEtag = host.store.manifestEtag)
    (counter : next.engine.write.sstableId = host.engine.write.sstableId + 1)
    (reserved : next.reservedIds.Perm (host.engine.write.sstableId :: host.reservedIds))
    (held : ∀ id ∈ next.heldIds, id ∈ host.heldIds)
    (flushes : ∀ task ∈ next.flushes, task ∈ host.flushes ∨ task.built = none)
    (compactions : ∀ task ∈ next.compactions, task ∈ host.compactions ∨ task.built = none) :
    next.Numbered := by
  have splitReserved : ∀ id ∈ next.reservedIds, id = host.engine.write.sstableId ∨
      id ∈ host.reservedIds := by
    intro id member
    simpa using reserved.mem_iff.mp member
  refine ⟨?_, ?_, ?_, ?_, ?_, ?_, ?_⟩
  · intro id member
    rw [counter]
    exact (numbered.heldBelow id (held id member)).trans (Nat.lt_succ_self _)
  · intro id member
    rw [counter]
    rcases splitReserved id member with rfl | member
    · exact Nat.lt_succ_self _
    · exact (numbered.reservedBelow id member).trans (Nat.lt_succ_self _)
  · refine reserved.nodup_iff.mpr (List.nodup_cons.mpr ⟨?_, numbered.reservedNodup⟩)
    intro member
    exact absurd (numbered.reservedBelow _ member) (lt_irrefl _)
  · intro id member inUse
    rcases splitReserved id member with rfl | member
    · exact absurd (numbered.heldBelow _ (held _ inUse)) (lt_irrefl _)
    · exact numbered.apart id member (held id inUse)
  · intro task member table built
    rcases flushes task member with member | unbuilt
    · exact numbered.builtFlush task member table built
    · rw [unbuilt] at built
      exact absurd built (by simp)
  · intro task member table built
    rcases compactions task member with member | unbuilt
    · exact numbered.builtCompaction task member table built
    · rw [unbuilt] at built
      exact absurd built (by simp)
  · intro manifest etag id listed
    rw [sameEtag, sameHash] at etag
    rw [counter]
    obtain ⟨below, free⟩ := numbered.seen manifest etag id listed
    refine ⟨below.trans (Nat.lt_succ_self _), fun member => ?_⟩
    rcases splitReserved id member with rfl | member
    · exact absurd below (lt_irrefl _)
    · exact free member

theorem Numbered.frozen (numbered : host.Numbered) : host.frozen.Numbered := by
  by_cases nothing : host.engine.view.memtable.toEntries.entries = []
  · refine numbered.fewer rfl ?_ rfl rfl ?_ (List.Sublist.refl _)
    · simp [Host.frozen, nothing]
    · simp [Host.frozen, nothing]
  · refine numbered.reserve rfl rfl ?_ (reservedIds_frozen nothing) (fun id member => member) ?_
      fun task member => Or.inl member
    · simp [Host.frozen, nothing]
    · intro task member
      exact (mem_frozen_flushes member).imp id fun exact => by rw [exact]

theorem Numbered.captured (numbered : host.Numbered) :
    host.captured.Numbered := by
  by_cases few : host.engine.view.sstables.length < 2
  · refine numbered.fewer rfl ?_ rfl rfl (List.Sublist.refl _) ?_
    · simp [Host.captured, few]
    · simp [Host.captured, few]
  · refine numbered.reserve rfl rfl ?_ (reservedIds_captured few) (heldIds_of_captured few)
      (fun task member => Or.inl member) ?_
    · simp [Host.captured, few]
    · intro task member
      rcases mem_captured_compactions member with member | ⟨rfl, _⟩
      · exact Or.inl member
      · exact Or.inr rfl

theorem Numbered.built (numbered : host.Numbered)
    (sameEngine : next.engine = host.engine)
    (sameHash : next.store.manifestEtag = host.store.manifestEtag)
    (reserved : next.reservedIds = host.reservedIds) (held : next.heldIds = host.heldIds)
    (flushes : ∀ task ∈ next.flushes, ∀ table ∈ task.built, table.id = task.pending.sstableId)
    (compactions : ∀ task ∈ next.compactions, ∀ table ∈ task.built,
      table.id = task.pending.newId) : next.Numbered := by
  refine ⟨?_, ?_, ?_, ?_, flushes, compactions, ?_⟩
  · rw [held, sameEngine]
    exact numbered.heldBelow
  · rw [reserved, sameEngine]
    exact numbered.reservedBelow
  · rw [reserved]
    exact numbered.reservedNodup
  · rw [reserved, held]
    exact numbered.apart
  · rw [reserved, sameEngine, sameHash]
    exact numbered.seen

theorem Numbered.installed (numbered : host.Numbered) (id : Nat)
    (manifest : Manifest) (hashes : Function.Injective host.store.manifestEtag)
    (own : id ∈ host.reservedIds)
    (etag : next.engine.write.manifestEtag = some (host.store.manifestEtag manifest))
    (sameHash : next.store.manifestEtag = host.store.manifestEtag)
    (sameCounter : next.engine.write.sstableId = host.engine.write.sstableId)
    (reserved : ∀ other ∈ next.reservedIds, other ∈ host.reservedIds ∧ other ≠ id)
    (nodup : next.reservedIds.Nodup)
    (held : ∀ other ∈ next.heldIds, other ∈ host.heldIds ∨ other = id)
    (listed : ∀ other ∈ manifest.sstableIds, other ∈ host.heldIds ∨ other = id)
    (flushes : next.flushes.Sublist host.flushes)
    (compactions : next.compactions.Sublist host.compactions) : next.Numbered := by
  have below : ∀ other, other ∈ host.heldIds ∨ other = id →
      other < next.engine.write.sstableId ∧ other ∉ next.reservedIds := by
    intro other inUse
    rw [sameCounter]
    rcases inUse with inUse | rfl
    · exact ⟨numbered.heldBelow other inUse,
        fun member => numbered.apart other (reserved other member).1 inUse⟩
    · exact ⟨numbered.reservedBelow other own, fun member => (reserved other member).2 rfl⟩
  refine ⟨?_, ?_, nodup, ?_, ?_, ?_, ?_⟩
  · intro other member
    exact (below other (held other member)).1
  · intro other member
    rw [sameCounter]
    exact numbered.reservedBelow other (reserved other member).1
  · intro other member inUse
    exact (below other (held other inUse)).2 member
  · intro task member
    exact numbered.builtFlush task (flushes.subset member)
  · intro task member
    exact numbered.builtCompaction task (compactions.subset member)
  · intro other etag' listedId member
    rw [etag, sameHash] at etag'
    rw [← hashes (Option.some.inj etag')] at member
    exact below listedId (listed listedId member)

theorem Numbered.flushed (numbered : host.Numbered)
    (hashes : Function.Injective host.store.manifestEtag) {index : Nat}
    {segments : Nat → Option Bytes} {fault : Option TruncateFault} {pending : PendingFlush}
    (found : host.flushes[index]? = some ⟨pending, some table⟩) :
    (host.flushed index segments fault pending table).Numbered := by
  have own := List.mem_of_getElem? found
  have idExact := numbered.builtFlush _ own table rfl
  refine numbered.installed pending.sstableId (host.flushManifest pending) hashes
    (reservedIds_flush own) rfl rfl rfl (flush_released numbered.reservedNodup found) ?_ ?_ ?_
    (List.eraseIdx_sublist _ _) (List.Sublist.refl _)
  · exact numbered.reservedNodup.sublist
      (((List.eraseIdx_sublist _ _).map _).append (List.Sublist.refl _))
  · intro id member
    simp only [heldIds, tables, Host.flushed, List.map_append, List.map_cons, List.map_nil,
      List.mem_append, List.mem_singleton] at member ⊢
    rcases member with (member | same) | member
    · exact Or.inl (Or.inl member)
    · exact Or.inr (same.trans idExact)
    · exact Or.inl (Or.inr member)
  · intro id member
    rcases List.mem_append.mp member with member | member
    · exact Or.inl (List.mem_append_left _ member)
    · exact Or.inr (List.mem_singleton.mp member)

theorem mem_compactManifest {pending : PendingCompaction}
    {id : Nat} (listed : id ∈ (host.compactManifest pending table).sstableIds) :
    (id ∈ host.heldIds ∧ id ∉ pending.sstables.map SSTable.id) ∨ id = table.id := by
  obtain ⟨live, member, rfl⟩ := List.mem_map.mp listed
  rcases List.mem_append.mp member with member | member
  · obtain ⟨inView, survives⟩ := mem_survivors.mp member
    exact Or.inl ⟨heldIds_table inView, survives⟩
  · exact Or.inr (by rw [List.mem_singleton.mp member])

theorem Numbered.compacted (numbered : host.Numbered)
    (hashes : Function.Injective host.store.manifestEtag) {index : Nat}
    {objects : Nat → Option SSTable} {pending : PendingCompaction}
    (found : host.compactions[index]? = some ⟨pending, some table⟩) :
    (host.compacted index objects pending table).Numbered := by
  have own := List.mem_of_getElem? found
  have idExact : table.id = pending.newId := numbered.builtCompaction _ own table rfl
  have listed : ∀ id ∈ (host.compactManifest pending table).sstableIds,
      id ∈ host.heldIds ∨ id = pending.newId := by
    intro id member
    rcases mem_compactManifest member with ⟨inUse, _⟩ | same
    · exact Or.inl inUse
    · exact Or.inr (same.trans idExact)
  refine numbered.installed pending.newId (host.compactManifest pending table) hashes
    (reservedIds_compaction own) rfl rfl rfl (compaction_released numbered.reservedNodup found)
    ?_ ?_ listed (List.Sublist.refl _) (List.eraseIdx_sublist _ _)
  · exact numbered.reservedNodup.sublist
      ((List.Sublist.refl _).append ((List.eraseIdx_sublist _ _).map _))
  · intro id member
    rcases List.mem_append.mp member with member | member
    · exact listed id member
    · exact Or.inl (List.mem_append_right _
        (((List.eraseIdx_sublist _ _).flatMap _).subset member))

theorem openEngine_listed (file : Bytes) (store : ObjectStore ETag) (lease : LeaseHandle)
    (unreadable : Nat → Bool) (id : Nat)
    (member : id ∈ (LsmEngine.openEngine file store lease unreadable).view.sstables.map SSTable.id) :
    id ∈ (store.manifest.getD Manifest.default).sstableIds := by
  simp only [LsmEngine.openEngine, ObjectStore.loadManifest_getD] at member
  have loaded := ((List.perm_insertionSort (fun left right : SSTable => left.id ≤ right.id)
    _).map SSTable.id).mem_iff.mp member
  exact (store.loaded_ids_sublist unreadable _).subset loaded

theorem Numbered.reopened
    (hashes : Function.Injective next.store.manifestEtag) (file : Bytes) (lease : LeaseHandle)
    (unreadable : Nat → Bool)
    (engine : next.engine = LsmEngine.openEngine file next.store lease unreadable)
    (flushes : next.flushes = []) (compactions : next.compactions = []) : next.Numbered := by
  have reserved : next.reservedIds = [] := by simp [reservedIds, flushes, compactions]
  refine ⟨?_, ?_, ?_, ?_, ?_, ?_, ?_⟩
  · intro id member
    simp only [heldIds, compactions, List.flatMap_nil, List.append_nil, tables, engine] at member
    rw [engine]
    exact openEngine_counter _ _ _ _ id (openEngine_listed _ _ _ _ id member)
  · rw [reserved]
    exact fun id member => absurd member List.not_mem_nil
  · rw [reserved]
    exact List.nodup_nil
  · rw [reserved]
    exact fun id member => absurd member List.not_mem_nil
  · rw [flushes]
    exact fun task member => absurd member List.not_mem_nil
  · rw [compactions]
    exact fun task member => absurd member List.not_mem_nil
  · intro manifest etag id listed
    rw [reserved]
    refine ⟨?_, List.not_mem_nil⟩
    rw [engine] at etag ⊢
    refine openEngine_counter _ _ _ _ id ?_
    cases stored : next.store.manifest with
    | none => simp [LsmEngine.openEngine, ObjectStore.loadManifest, stored] at etag
    | some current =>
        simp only [LsmEngine.openEngine, ObjectStore.loadManifest, stored, Option.map_some,
          Option.some.injEq] at etag
        rw [hashes etag]
        exact listed

theorem Numbered.step [DecidableEq ETag] {action : Action}
    (numbered : host.Numbered) (hashes : Function.Injective host.store.manifestEtag)
    (taken : host.step action = some next) : next.Numbered := by
  have same : ∀ {next : Host ETag}, next.tables = host.tables →
      next.engine.write.sstableId = host.engine.write.sstableId →
      next.engine.write.manifestEtag = host.engine.write.manifestEtag →
      next.store.manifestEtag = host.store.manifestEtag → next.flushes.Sublist host.flushes →
      next.compactions.Sublist host.compactions → next.Numbered := numbered.fewer
  have refl {α : Type} : ∀ tasks : List α, tasks.Sublist tasks := List.Sublist.refl
  cases action with
  | write failure entries =>
      have applied : (host.applied entries).Numbered := same rfl rfl rfl rfl (refl _) (refl _)
      cases failure with
      | none =>
          rcases step_write taken with ⟨rfl, _⟩ | ⟨rfl, _⟩ | ⟨_, rfl⟩
          · exact applied
          · exact applied.frozen
          · exact same rfl rfl rfl rfl (refl _) (refl _)
      | some written =>
          rw [step_write_failed taken]
          exact same rfl rfl rfl rfl (refl _) (refl _)
  | snapshotNow =>
      rw [← Option.some.inj taken]
      exact same rfl rfl rfl rfl (refl _) (refl _)
  | releaseSnapshot seq =>
      obtain ⟨snapshots, rfl⟩ := step_releaseSnapshot taken
      exact same rfl rfl rfl rfl (refl _) (refl _)
  | beginFlush =>
      rcases step_beginFlush taken with rfl | rfl
      · exact numbered
      · exact numbered.frozen
  | finishFlush index bloom putFails =>
      obtain ⟨pending, found, ⟨rfl, _⟩ | rfl⟩ := step_finishFlush taken
      · exact same rfl rfl rfl rfl (List.eraseIdx_sublist _ _) (refl _)
      · have sameIds := set_map_of_getElem? (fun task : FlushTask => task.pending.sstableId)
          host.flushes index _
          ⟨pending, some (SSTable.build bloom pending.sstableId pending.entries)⟩ found rfl
        refine numbered.built rfl rfl ?_ rfl ?_ numbered.builtCompaction
        · simp only [reservedIds, sameIds]
        · intro task member table built
          rcases List.mem_or_eq_of_mem_set member with member | rfl
          · exact numbered.builtFlush task member table built
          · rw [← Option.some.inj built]
            rfl
  | commitFlush index fault threshold =>
      obtain ⟨pending, table, segments, found, ⟨rfl, _⟩ | ⟨_, done, rfl, rfl | rfl, _⟩⟩ :=
        step_commitFlush taken
      · exact same rfl rfl rfl rfl (List.eraseIdx_sublist _ _) (refl _)
      · exact numbered.flushed hashes found
      · exact (numbered.flushed hashes found).captured
  | beginCompact =>
      rcases step_beginCompact taken with rfl | rfl
      · exact numbered
      · exact numbered.captured
  | finishCompact index bloom putFails =>
      obtain ⟨pending, found, ⟨rfl, _⟩ | ⟨table, tableExact, rfl⟩⟩ := step_finishCompact taken
      · exact same rfl rfl rfl rfl (refl _) (List.eraseIdx_sublist _ _)
      · have sameIds := set_map_of_getElem? (fun task : CompactTask => task.pending.newId)
          host.compactions index _ ⟨pending, some table⟩ found rfl
        have sameCaptured := set_map_of_getElem?
          (fun task : CompactTask => task.pending.sstables.map SSTable.id)
          host.compactions index _ ⟨pending, some table⟩ found rfl
        refine numbered.built rfl rfl ?_ ?_ numbered.builtFlush ?_
        · simp only [reservedIds, sameIds]
        · simp only [heldIds, List.flatMap_def, sameCaptured, tables]
        · intro task member other built
          rcases List.mem_or_eq_of_mem_set member with member | rfl
          · exact numbered.builtCompaction task member other built
          · rw [← Option.some.inj built, tableExact]
            rfl
  | commitCompact index saveFails deleteFails =>
      obtain ⟨pending, table, found, ⟨rfl, _⟩ | ⟨_, objects, rfl, kept⟩⟩ := step_commitCompact taken
      · exact same rfl rfl rfl rfl (refl _) (List.eraseIdx_sublist _ _)
      · exact numbered.compacted hashes found
  | startRead key | endRead index | setLease lease =>
      rw [← Option.some.inj taken]
      exact same rfl rfl rfl rfl (refl _) (refl _)
  | reopen unreadable =>
      rw [← Option.some.inj taken]
      exact Numbered.reopened hashes _ _ unreadable rfl rfl rfl

/-- One step of an engine leaves the object of a listed table as it is, or
installs a manifest without it; an upload does so while the engine is in sync. -/
theorem Numbered.step_objects [DecidableEq ETag] {action : Action}
    (numbered : host.Numbered)
    (inSync : ∀ index bloom putFails, action = .finishFlush index bloom putFails ∨
      action = .finishCompact index bloom putFails → host.InSync)
    (taken : host.step action = some next) (manifest : Manifest)
    (stored : host.store.manifest = some manifest) (id : Nat) (listed : id ∈ manifest.sstableIds) :
    next.store.sst id = host.store.sst id ∨
      ∃ replacing, next.store.manifest = some replacing ∧ id ∉ replacing.sstableIds := by
  have uploaded : host.InSync → ∀ own ∈ host.reservedIds, ∀ table,
      (host.store.putSst own table).sst id = host.store.sst id := by
    intro synced own reserved table
    have etag : host.engine.write.manifestEtag = some (host.store.manifestEtag manifest) := by
      rw [synced, stored]
      rfl
    have free := (numbered.seen manifest etag id listed).2
    have differs : id ≠ own := by
      rintro rfl
      exact free reserved
    exact Function.update_of_ne differs _ _
  cases action with
  | write failure entries =>
      cases failure with
      | none => rcases step_write taken with ⟨rfl, _⟩ | ⟨rfl, _⟩ | ⟨_, rfl⟩ <;> exact Or.inl rfl
      | some written =>
          rw [step_write_failed taken]
          exact Or.inl rfl
  | beginFlush => rcases step_beginFlush taken with rfl | rfl <;> exact Or.inl rfl
  | finishFlush index bloom putFails =>
      obtain ⟨pending, found, ⟨rfl, _⟩ | rfl⟩ := step_finishFlush taken
      · exact Or.inl rfl
      · exact Or.inl (uploaded (inSync index bloom putFails (Or.inl rfl)) _
          (reservedIds_flush (List.mem_of_getElem? found)) _)
  | commitFlush index fault threshold =>
      obtain ⟨pending, table, segments, found, ⟨rfl, _⟩ | ⟨_, done, rfl, rfl | rfl, _⟩⟩ :=
        step_commitFlush taken <;> exact Or.inl rfl
  | beginCompact => rcases step_beginCompact taken with rfl | rfl <;> exact Or.inl rfl
  | finishCompact index bloom putFails =>
      obtain ⟨pending, found, ⟨rfl, _⟩ | ⟨table, _, rfl⟩⟩ := step_finishCompact taken
      · exact Or.inl rfl
      · exact Or.inl (uploaded (inSync index bloom putFails (Or.inr rfl)) _
          (reservedIds_compaction (List.mem_of_getElem? found)) _)
  | commitCompact index saveFails deleteFails =>
      obtain ⟨pending, table, found, ⟨rfl, _⟩ | ⟨_, objects, rfl, kept⟩⟩ := step_commitCompact taken
      · exact Or.inl rfl
      by_cases consumed : id ∈ pending.sstables.map SSTable.id
      · -- a consumed table is not a survivor, and the merged one has a new id
        refine Or.inr ⟨_, rfl, fun relisted => ?_⟩
        rcases mem_compactManifest relisted with ⟨_, survives⟩ | same
        · exact survives consumed
        · have own := List.mem_of_getElem? found
          have idExact : table.id = pending.newId := numbered.builtCompaction _ own table rfl
          refine numbered.apart id ?_ (List.mem_append_right _
            (List.mem_flatMap.mpr ⟨_, own, consumed⟩))
          rw [same, idExact]
          exact reservedIds_compaction own
      · exact Or.inl (kept id consumed)
  | _ =>
      cases Option.some.inj taken
      exact Or.inl rfl

end Host

namespace Fleet

variable {Node ETag : Type}

/-- Engines upload only while the manifest in the store is the one they last saw. -/
def UploadsInSync (fleet : Fleet Node ETag) : FleetAction Node → Prop
  | .engine node (.finishFlush _ _ _) | .engine node (.finishCompact _ _ _) =>
      (fleet.host node).InSync
  | _ => True

instance [DecidableEq ETag] (fleet : Fleet Node ETag) (action : FleetAction Node) :
    Decidable (fleet.UploadsInSync action) := by
  induction action using FleetAction.casesOn with
  | engine node action =>
      induction action using Action.casesOn <;> (dsimp only [UploadsInSync]; infer_instance)
  | lease action => dsimp only [UploadsInSync]; infer_instance

/-- Every engine is numbered, whatever the order of the steps. -/
structure AllNumbered (fleet : Fleet Node ETag) : Prop where
  hashes : Function.Injective fleet.store.manifestEtag
  numbered : ∀ node, (fleet.host node).Numbered

theorem allNumbered_start (manifestEtag : Manifest → ETag) (leaseEtag : Lease → ETag)
    (identity : Node → String × Nat) (hashes : Function.Injective manifestEtag) :
    (start manifestEtag leaseEtag identity).AllNumbered := by
  refine ⟨hashes, fun node => ?_⟩
  exact Host.Numbered.reopened hashes [] LeaseHandle.default (fun _ => false) rfl rfl rfl

theorem numbered_elsewhere {fleet next : Fleet Node ETag} {node : Node}
    (numbered : (fleet.host node).Numbered)
    (sameHost : next.hosts node = fleet.hosts node)
    (sameHash : next.store.manifestEtag = fleet.store.manifestEtag) :
    (next.host node).Numbered := by
  refine numbered.fewer ?_ ?_ ?_ sameHash ?_ ?_
  · simp only [Host.tables, host, sameHost]
  · simp only [host, sameHost]
  · simp only [host, sameHost]
  · simp only [host, sameHost]
    exact List.Sublist.refl _
  · simp only [host, sameHost]
    exact List.Sublist.refl _

variable [DecidableEq Node] [DecidableEq ETag]

theorem AllNumbered.step {fleet next : Fleet Node ETag} {action : FleetAction Node}
    (all : fleet.AllNumbered) (taken : fleet.step action = some next) : next.AllNumbered := by
  cases action with
  | lease action =>
      obtain ⟨leases, ran, rfl⟩ := Option.map_eq_some_iff.mp taken
      have sameHash : leases.store.manifestEtag = fleet.store.manifestEtag := by
        rw [LeaseSystem.step_store ran]
        rfl
      refine ⟨?_, fun node => numbered_elsewhere (all.numbered node) rfl sameHash⟩
      simp only [store, sameHash]
      exact all.hashes
  | engine node action =>
      obtain ⟨own, moved, ran, rfl⟩ := step_engine taken
      have touches := Host.touches_step own ran
      have sameHash : moved.store.manifestEtag = fleet.store.manifestEtag := touches.manifestHash
      refine ⟨?_, fun other => ?_⟩
      · simp only [store, sameHash]
        exact all.hashes
      by_cases same : other = node
      · have numbered := (all.numbered node).step all.hashes ran
        refine numbered.fewer ?_ ?_ ?_ rfl ?_ ?_ <;>
          simp only [Host.tables, host, same, Function.update_self]
        · exact List.Sublist.refl _
        · exact List.Sublist.refl _
      · exact numbered_elsewhere (all.numbered other) (Function.update_of_ne same _ _) sameHash

/-- As long as every engine uploads only in sync with the store's manifest, no
step of any engine replaces the object of a table that the installed manifest
lists and goes on listing. -/
theorem listed_table_immutable (manifestEtag : Manifest → ETag) (leaseEtag : Lease → ETag)
    (identity : Node → String × Nat) (hashes : Function.Injective manifestEtag)
    (fleet : Fleet Node ETag)
    (reached : Reaches step UploadsInSync (start manifestEtag leaseEtag identity) fleet)
    (action : FleetAction Node) (next : Fleet Node ETag) (guard : fleet.UploadsInSync action)
    (taken : fleet.step action = some next) (manifest : Manifest)
    (installed : fleet.store.manifest = some manifest) (id : Nat)
    (listed : id ∈ manifest.sstableIds) :
    next.store.sst id = fleet.store.sst id ∨
      ∃ replacing, next.store.manifest = some replacing ∧ id ∉ replacing.sstableIds := by
  have all : fleet.AllNumbered :=
    Reaches.invariant AllNumbered (allNumbered_start manifestEtag leaseEtag identity hashes)
      (fun _ _ _ all _ taken => all.step taken) fleet reached
  cases action with
  | lease action =>
      obtain ⟨leases, ran, rfl⟩ := Option.map_eq_some_iff.mp taken
      refine Or.inl ?_
      simp only [store]
      rw [LeaseSystem.step_store ran]
  | engine node action =>
      obtain ⟨own, moved, ran, rfl⟩ := step_engine taken
      refine (all.numbered node).step_objects ?_ ran manifest installed id listed
      rintro index bloom putFails (rfl | rfl)
      · exact guard
      · exact guard

/-! ## A stale holder -/

def twoEngines : Fleet Bool (Manifest ⊕ Lease) :=
  start Sum.inl Sum.inr fun node => (if node then "b" else "a", 10)

def flushes (node : Bool) (key : Bytes) : List (FleetAction Bool) :=
  [.engine node (.write none [⟨"t", key, some [1]⟩]), .engine node .beginFlush]

/-- Both nodes have opened the empty store; `b` takes the lapsed lease of `a`
over and commits table 1, while `a` has numbered a table 1 of its own. -/
def staleHolder : List (FleetAction Bool) :=
  [.lease (.tryAcquire false 0), .lease (.swap 0 0 false)] ++ flushes false [1] ++
    [.lease (.tryAcquire true 11), .lease (.swap 0 11 false)] ++ flushes true [2] ++
    [.engine true (.finishFlush 0 Bloom.accepting false), .engine true (.commitFlush 0 none 4)]

def entriesOf (fleet : Fleet Bool (Manifest ⊕ Lease)) (id : Nat) : Option (List Entry) :=
  (fleet.store.sst id).map fun table => table.run.entries

/-- `b` goes on to upload its next table; table 1 stays as it is. -/
theorem current_holder_keeps_table :
    ∃ fleet next : Fleet Bool (Manifest ⊕ Lease), ∃ manifest,
      Reaches step UploadsInSync twoEngines fleet ∧
      fleet.step (.engine true (.finishFlush 0 Bloom.accepting false)) = some next ∧
      fleet.store.manifest = some manifest ∧ manifest.sstableIds = [1] ∧
      (next.store.sst 1 = fleet.store.sst 1 ∨
        ∃ replacing, next.store.manifest = some replacing ∧ 1 ∉ replacing.sstableIds) := by
  have facts : (runChecked step (fun fleet action => decide (fleet.UploadsInSync action)) twoEngines
      (staleHolder ++ flushes true [3])).map (fun fleet =>
        (fleet.store.manifest.map Manifest.sstableIds,
          (fleet.step (.engine true (.finishFlush 0 Bloom.accepting false))).isSome,
          decide (fleet.UploadsInSync (.engine true (.finishFlush 0 Bloom.accepting false))))) =
      some (some [1], true, true) := by decide +kernel
  obtain ⟨fleet, ran, values⟩ := Option.map_eq_some_iff.mp facts
  have reached := runChecked_decided ran
  obtain ⟨stored, rest⟩ := Prod.mk.inj values
  obtain ⟨enabled, guard⟩ := Prod.mk.inj rest
  obtain ⟨manifest, installed, ids⟩ := Option.map_eq_some_iff.mp stored
  obtain ⟨next, taken⟩ := Option.isSome_iff_exists.mp enabled
  exact ⟨fleet, next, manifest, reached, taken, installed, ids,
    listed_table_immutable _ _ _ Sum.inl_injective fleet reached _ next (of_decide_eq_true guard)
      taken manifest installed 1 (by rw [ids]; simp)⟩

theorem stale_holder_overwrites :
    ¬ ∀ fleet : Fleet Bool (Manifest ⊕ Lease), Reaches step (fun _ _ => True) twoEngines fleet →
      ∀ action next, fleet.step action = some next → ∀ manifest,
        fleet.store.manifest = some manifest → ∀ id ∈ manifest.sstableIds,
          next.store.sst id = fleet.store.sst id ∨
            ∃ replacing, next.store.manifest = some replacing ∧ id ∉ replacing.sstableIds := by
  intro immutable
  have facts : (runChecked step (fun _ _ => true) twoEngines staleHolder).map (fun fleet =>
      (fleet.store.manifest.map Manifest.sstableIds,
        (fleet.step (.engine false (.finishFlush 0 Bloom.accepting false))).map fun next =>
          (next.store.manifest.map Manifest.sstableIds,
            decide (next.entriesOf 1 = fleet.entriesOf 1)))) =
      some (some [1], some (some [1], false)) := by decide +kernel
  obtain ⟨fleet, ran, values⟩ := Option.map_eq_some_iff.mp facts
  have reached := runChecked_unguarded ran
  obtain ⟨before, after⟩ := Prod.mk.inj values
  obtain ⟨manifest, installed, ids⟩ := Option.map_eq_some_iff.mp before
  obtain ⟨next, taken, outcome⟩ := Option.map_eq_some_iff.mp after
  obtain ⟨relisted, changed⟩ := Prod.mk.inj outcome
  rcases immutable fleet reached _ next taken manifest installed 1 (by rw [ids]; simp) with
    same | ⟨replacing, stored, dropped⟩
  · exact of_decide_eq_false changed (by rw [entriesOf, entriesOf, same])
  · rw [stored, Option.map_some, Option.some.injEq] at relisted
    exact dropped (by rw [relisted]; simp)

end Fleet

end Pantheon.Keystone
