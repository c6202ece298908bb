import Mathlib
import Pantheon.Keystone.SourceOrder
import Pantheon.Keystone.ReadCorrectness

/-!
# A writer and a reader on one store

A reader node opens an engine of its own on the store, rejects writes, and
follows the manifest by `refresh`.  Readers do not act on the writer or on each
other, so one of them stands for all.  The id of a table the manifest ever
listed is never given to another table, so what a reader keeps across a refresh
is still what the writer's manifest means.
-/

set_option autoImplicit false

namespace Pantheon.Keystone

open Pantheon.Lib

variable {table : SSTable}

structure Cluster (ETag : Type) where
  host : Host ETag
  reader : LsmEngine ETag

inductive ClusterAction where
  | writer (action : Action)
  | refreshWriter
  | openReader (lease : LeaseHandle) (unreadable : Nat → Bool)
  | refreshReader

namespace Host

variable {ETag : Type}

instance (host : Host ETag) (unreadable : Nat → Bool) : Decidable (host.AllReadable unreadable) :=
  inferInstanceAs (Decidable (∀ id ∈ host.listedIds, unreadable id = false))

/-- The steps of one process and its restarts whose I/O all succeeds. -/
def Faultless (host : Host ETag) : Action → Prop
  | .startRead _ => True
  | .endRead _ => True
  | .setLease _ => True
  | .reopen unreadable => host.AllReadable unreadable
  | action => action.Succeeds

instance (host : Host ETag) (action : Action) : Decidable (host.Faultless action) := by
  induction action using Action.casesOn <;> (dsimp only [Faultless]; infer_instance)

def KeepsOrder (host : Host ETag) : Action → Prop
  | .write _ entries => host.FitsLog entries
  | .commitFlush index _ _ => host.CommitsInOrder index
  | .commitCompact index _ _ => host.MergesApart index
  | _ => True

instance (host : Host ETag) (action : Action) : Decidable (host.KeepsOrder action) := by
  induction action using Action.casesOn <;> (dsimp only [KeepsOrder]; infer_instance)

variable {host next : Host ETag} {log : List Commit}

theorem Faultless.readable {action : Action} (faultless : host.Faultless action) :
    ∀ unreadable, action = .reopen unreadable → host.AllReadable unreadable := by
  rintro unreadable rfl
  exact faultless

theorem SourceOrdered.step [DecidableEq ETag] (ordered : host.SourceOrdered log) (action : Action)
    (faultless : host.Faultless action) (keeps : host.KeepsOrder action)
    (taken : host.step action = some next) : ∃ log, next.SourceOrdered log := by
  have wired := ordered.wired.step action faultless.readable taken
  have sameFlushes : ∀ task ∈ host.flushes, ∃ before ∈ host.flushes,
      before.pending = task.pending := fun task member => ⟨task, member, rfl⟩
  have sameTasks : ∀ task ∈ host.compactions, ∃ before ∈ host.compactions,
      before.pending = task.pending := fun task member => ⟨task, member, rfl⟩
  cases action with
  | write failure entries =>
      obtain rfl : failure = none := faultless
      have applied := ordered.applied keeps
      rcases step_write taken with ⟨rfl, _⟩ | ⟨rfl, _⟩ | ⟨_, rfl⟩
      · exact ⟨_, applied⟩
      · exact ⟨_, applied.frozen⟩
      · exact ⟨_, applied.retask wired rfl rfl rfl rfl sameFlushes sameTasks⟩
  | snapshotNow =>
      rw [← Option.some.inj taken] at wired ⊢
      exact ⟨log, ordered.retask wired rfl rfl rfl rfl sameFlushes sameTasks⟩
  | releaseSnapshot seq =>
      obtain ⟨snapshots, rfl⟩ := step_releaseSnapshot taken
      exact ⟨log, ordered.retask wired rfl rfl rfl rfl sameFlushes sameTasks⟩
  | beginFlush =>
      rcases step_beginFlush taken with rfl | rfl
      · exact ⟨log, ordered⟩
      · exact ⟨log, ordered.frozen⟩
  | finishFlush index bloom putFails =>
      obtain ⟨pending, found, ⟨_, fails⟩ | rfl⟩ := step_finishFlush taken
      · exact absurd (faultless.symm.trans fails) (by simp)
      · exact ⟨log, ordered.retask wired rfl rfl rfl rfl
          (mem_set_of_getElem? FlushTask.pending found rfl) sameTasks⟩
  | commitFlush index fault threshold =>
      obtain rfl : fault = none := faultless
      obtain ⟨pending, table, segments, found, ⟨_, fails⟩ | ⟨_, done, rfl, rfl | rfl, _⟩⟩ :=
        step_commitFlush taken
      · rcases fails with fails | stale
        · exact absurd rfl fails
        · exact absurd ordered.wired.inSync stale
      · exact ⟨[], ordered.flushed found keeps⟩
      · exact ⟨[], (ordered.flushed found keeps).captured⟩
  | beginCompact =>
      rcases step_beginCompact taken with rfl | rfl
      · exact ⟨log, ordered⟩
      · exact ⟨log, ordered.captured⟩
  | finishCompact index bloom putFails =>
      obtain ⟨pending, found, ⟨_, fails⟩ | ⟨table, tableExact, rfl⟩⟩ := step_finishCompact taken
      · exact absurd (faultless.symm.trans fails) (by simp)
      · exact ⟨log, ordered.retask wired rfl rfl rfl rfl sameFlushes
          (mem_set_of_getElem? CompactTask.pending found rfl)⟩
  | commitCompact index saveFails deleteFails =>
      obtain ⟨pending, table, found, ⟨_, fails⟩ | ⟨_, objects, rfl, kept⟩⟩ := step_commitCompact taken
      · rcases fails with fails | stale
        · exact absurd (faultless.symm.trans fails) (by simp)
        · exact absurd ordered.wired.inSync stale
      · exact ⟨log, ordered.compacted found kept keeps⟩
  | startRead key | endRead index | setLease lease =>
      rw [← Option.some.inj taken] at wired ⊢
      exact ⟨log, ordered.retask wired rfl rfl rfl rfl sameFlushes sameTasks⟩
  | reopen unreadable =>
      rw [← Option.some.inj taken]
      exact ⟨log, ordered.reopened faultless⟩

/-! ## Ids that were listed -/

/-- No other table has the id of `table`, or can get it. -/
structure IdTaken (host : Host ETag) (table : SSTable) : Prop where
  below : table.id < host.engine.write.sstableId
  unreserved : table.id ∉ host.reservedIds
  same : ∀ live ∈ host.tables, live.id = table.id → live = table
  covered : ∃ top ∈ host.listedIds, table.id ≤ top

theorem Wired.idTaken (wired : host.Wired) (member : table ∈ host.tables) :
    host.IdTaken table := by
  refine ⟨wired.heldBelow _ (heldIds_table member), ?_, ?_, table.id, ?_, le_rfl⟩
  · intro reserved
    exact wired.apart _ reserved (heldIds_table member)
  · intro live liveMember sameId
    exact wired.table_unique liveMember member sameId
  · exact wired.listed.mem_iff.mpr (List.mem_map.mpr ⟨table, member, rfl⟩)

theorem IdTaken.advance (taken : host.IdTaken table)
    (counter : host.engine.write.sstableId ≤ next.engine.write.sstableId)
    (reserved : ∀ id ∈ next.reservedIds, id ∈ host.reservedIds ∨ host.engine.write.sstableId ≤ id)
    (tables : ∀ live ∈ next.tables, live ∈ host.tables ∨ live.id ∈ host.reservedIds)
    (listed : ∀ top ∈ host.listedIds, ∃ higher ∈ next.listedIds, top ≤ higher) :
    next.IdTaken table := by
  refine ⟨taken.below.trans_le counter, ?_, ?_, ?_⟩
  · intro member
    rcases reserved _ member with before | fresh
    · exact taken.unreserved before
    · exact absurd taken.below (not_lt_of_ge fresh)
  · intro live member sameId
    rcases tables live member with before | fresh
    · exact taken.same live before sameId
    · exact absurd (sameId ▸ fresh) taken.unreserved
  · obtain ⟨top, member, le⟩ := taken.covered
    obtain ⟨higher, higherMember, above⟩ := listed top member
    exact ⟨higher, higherMember, le.trans above⟩

theorem mem_reservedIds (host : Host ETag) (id : Nat) : id ∈ host.reservedIds ↔
    (∃ task ∈ host.flushes, task.pending.sstableId = id) ∨
      ∃ task ∈ host.compactions, task.pending.newId = id := by
  simp [reservedIds]

theorem IdTaken.frozen (taken : host.IdTaken table) :
    host.frozen.IdTaken table := by
  refine taken.advance ?_ ?_ (fun live member => Or.inl member) fun top member =>
    ⟨top, member, le_rfl⟩
  · simp only [Host.frozen]
    split_ifs
    · exact le_rfl
    · exact Nat.le_succ _
  · intro id member
    rcases (mem_reservedIds _ id).mp member with ⟨task, taskMember, rfl⟩ | compaction
    · rcases mem_frozen_flushes taskMember with before | rfl
      · exact Or.inl (reservedIds_flush before)
      · exact Or.inr le_rfl
    · exact Or.inl ((mem_reservedIds _ id).mpr (Or.inr compaction))

theorem IdTaken.captured (taken : host.IdTaken table) :
    host.captured.IdTaken table := by
  refine taken.advance ?_ ?_ (fun live member => Or.inl member) fun top member =>
    ⟨top, member, le_rfl⟩
  · simp only [Host.captured]
    split_ifs
    · exact le_rfl
    · exact Nat.le_succ _
  · intro id member
    rcases (mem_reservedIds _ id).mp member with flush | ⟨task, taskMember, rfl⟩
    · exact Or.inl ((mem_reservedIds _ id).mpr (Or.inl flush))
    · rcases mem_captured_compactions taskMember with before | ⟨rfl, _⟩
      · exact Or.inl (reservedIds_compaction before)
      · exact Or.inr le_rfl

theorem IdTaken.retask (taken : host.IdTaken table)
    (sameCounter : next.engine.write.sstableId = host.engine.write.sstableId)
    (sameTables : next.tables = host.tables) (sameManifest : next.store.manifest = host.store.manifest)
    (flushes : ∀ task ∈ next.flushes, ∃ before ∈ host.flushes, before.pending = task.pending)
    (compactions : ∀ task ∈ next.compactions, ∃ before ∈ host.compactions,
      before.pending = task.pending) : next.IdTaken table := by
  refine taken.advance sameCounter.ge ?_ ?_ ?_
  · intro id member
    refine Or.inl ((mem_reservedIds _ id).mpr ?_)
    rcases (mem_reservedIds _ id).mp member with ⟨task, taskMember, rfl⟩ | ⟨task, taskMember, rfl⟩
    · obtain ⟨before, beforeMember, samePending⟩ := flushes task taskMember
      exact Or.inl ⟨before, beforeMember, by rw [samePending]⟩
    · obtain ⟨before, beforeMember, samePending⟩ := compactions task taskMember
      exact Or.inr ⟨before, beforeMember, by rw [samePending]⟩
  · intro live member
    exact Or.inl (sameTables ▸ member)
  · intro top member
    rw [listedIds, sameManifest]
    exact ⟨top, member, le_rfl⟩

theorem IdTaken.flushed {held : SSTable} (taken : host.IdTaken held) (wired : host.Wired)
    {index : Nat} {segments : Nat → Option Bytes} {fault : Option TruncateFault}
    {pending : PendingFlush}
    (found : host.flushes[index]? = some ⟨pending, some table⟩) :
    (host.flushed index segments fault pending table).IdTaken held := by
  have own := List.mem_of_getElem? found
  refine taken.advance le_rfl ?_ ?_ ?_
  · intro id member
    refine Or.inl ((mem_reservedIds _ id).mpr ?_)
    rcases (mem_reservedIds _ id).mp member with ⟨task, taskMember, rfl⟩ | compaction
    · exact Or.inl ⟨task, (List.eraseIdx_sublist _ _).subset taskMember, rfl⟩
    · exact Or.inr compaction
  · intro live member
    rcases List.mem_append.mp member with member | member
    · exact Or.inl member
    · rw [List.mem_singleton.mp member, (wired.builtFlush _ own table rfl).1]
      exact Or.inr (reservedIds_flush own)
  · intro top member
    exact ⟨top, List.mem_append_left _ (wired.listed.mem_iff.mp member), le_rfl⟩

theorem IdTaken.compacted {held : SSTable} (taken : host.IdTaken held)
    (ordered : host.SourceOrdered log) {index : Nat} {objects : Nat → Option SSTable}
    {pending : PendingCompaction}
    (found : host.compactions[index]? = some ⟨pending, some table⟩) :
    (host.compacted index objects pending table).IdTaken held := by
  have own := List.mem_of_getElem? found
  have idExact := (ordered.wired.builtCompaction _ own table rfl).1
  refine taken.advance le_rfl ?_ ?_ ?_
  · intro id member
    refine Or.inl ((mem_reservedIds _ id).mpr ?_)
    rcases (mem_reservedIds _ id).mp member with flush | ⟨task, taskMember, rfl⟩
    · exact Or.inl flush
    · exact Or.inr ⟨task, (List.eraseIdx_sublist _ _).subset taskMember, rfl⟩
  · intro live member
    rcases List.mem_append.mp member with member | member
    · exact Or.inl (mem_survivors.mp member).1
    · rw [List.mem_singleton.mp member, idExact]
      exact Or.inr (reservedIds_compaction own)
  · -- a consumed id is below the id of the merged table
    intro top member
    obtain ⟨live, liveMember, rfl⟩ := List.mem_map.mp (ordered.wired.listed.mem_iff.mp member)
    have listedAs : (host.compacted index objects pending table).listedIds =
        (host.survivors pending ++ [table]).map SSTable.id := rfl
    rw [listedAs]
    by_cases consumed : live.id ∈ pending.sstables.map SSTable.id
    · obtain ⟨captured, capturedMember, sameId⟩ := List.mem_map.mp consumed
      have below := ordered.capturedBelow _ own captured capturedMember
      refine ⟨table.id, by simp, ?_⟩
      rw [← sameId, idExact]
      exact le_of_lt below
    · exact ⟨live.id, List.mem_map.mpr ⟨live, List.mem_append_left _
        (mem_survivors.mpr ⟨liveMember, consumed⟩), rfl⟩, le_rfl⟩

theorem IdTaken.reopened (taken : host.IdTaken table) (wired : host.Wired)
    {unreadable : Nat → Bool} (readable : host.AllReadable unreadable) :
    IdTaken { host with
      engine := host.reopened unreadable, flushes := [], compactions := [], reads := [] } table := by
  have perm := wired.reopened_tables readable
  obtain ⟨top, member, le⟩ := taken.covered
  refine ⟨?_, List.not_mem_nil, ?_, top, member, le⟩
  · exact lt_of_le_of_lt le (openEngine_counter _ _ _ _ top member)
  · intro live liveMember
    exact taken.same live (perm.mem_iff.mp liveMember)

theorem IdTaken.step [DecidableEq ETag] (idTaken : host.IdTaken table)
    (ordered : host.SourceOrdered log) (action : Action)
    (readable : ∀ unreadable, action = .reopen unreadable → host.AllReadable unreadable)
    (taken : host.step action = some next) : next.IdTaken table := by
  have sameFlushes : ∀ task ∈ host.flushes, ∃ before ∈ host.flushes,
      before.pending = task.pending := fun task member => ⟨task, member, rfl⟩
  have fewerFlushes : ∀ index, ∀ task ∈ host.flushes.eraseIdx index, ∃ before ∈ host.flushes,
      before.pending = task.pending :=
    fun index task member => ⟨task, (List.eraseIdx_sublist _ _).subset member, rfl⟩
  have sameTasks : ∀ task ∈ host.compactions, ∃ before ∈ host.compactions,
      before.pending = task.pending := fun task member => ⟨task, member, rfl⟩
  have fewerTasks : ∀ index, ∀ task ∈ host.compactions.eraseIdx index, ∃ before ∈ host.compactions,
      before.pending = task.pending :=
    fun index task member => ⟨task, (List.eraseIdx_sublist _ _).subset member, rfl⟩
  cases action with
  | write failure entries =>
      have applied : (host.applied entries).IdTaken table :=
        idTaken.retask rfl rfl rfl sameFlushes sameTasks
      cases failure with
      | none =>
          rcases step_write taken with ⟨rfl, _⟩ | ⟨rfl, _⟩ | ⟨_, rfl⟩
          · exact applied
          · exact applied.frozen
          · exact idTaken.retask rfl rfl rfl sameFlushes sameTasks
      | some written =>
          rw [step_write_failed taken]
          exact idTaken.retask rfl rfl rfl sameFlushes sameTasks
  | snapshotNow =>
      rw [← Option.some.inj taken]
      exact idTaken.retask rfl rfl rfl sameFlushes sameTasks
  | releaseSnapshot seq =>
      obtain ⟨snapshots, rfl⟩ := step_releaseSnapshot taken
      exact idTaken.retask rfl rfl rfl sameFlushes sameTasks
  | beginFlush =>
      rcases step_beginFlush taken with rfl | rfl
      · exact idTaken
      · exact idTaken.frozen
  | finishFlush index bloom putFails =>
      obtain ⟨pending, found, ⟨rfl, _⟩ | rfl⟩ := step_finishFlush taken
      · exact idTaken.retask rfl rfl rfl (fewerFlushes index) sameTasks
      · exact idTaken.retask rfl rfl rfl
          (mem_set_of_getElem? FlushTask.pending found rfl) sameTasks
  | commitFlush index fault threshold =>
      obtain ⟨pending, built, segments, found, ⟨rfl, _⟩ | ⟨_, done, rfl, rfl | rfl, _⟩⟩ :=
        step_commitFlush taken
      · exact idTaken.retask rfl rfl rfl (fewerFlushes index) sameTasks
      · exact idTaken.flushed ordered.wired found
      · exact (idTaken.flushed ordered.wired found).captured
  | beginCompact =>
      rcases step_beginCompact taken with rfl | rfl
      · exact idTaken
      · exact idTaken.captured
  | finishCompact index bloom putFails =>
      obtain ⟨pending, found, ⟨rfl, _⟩ | ⟨built, _, rfl⟩⟩ := step_finishCompact taken
      · exact idTaken.retask rfl rfl rfl sameFlushes (fewerTasks index)
      · exact idTaken.retask rfl rfl rfl sameFlushes
          (mem_set_of_getElem? CompactTask.pending found rfl)
  | commitCompact index saveFails deleteFails =>
      obtain ⟨pending, built, found, ⟨rfl, _⟩ | ⟨_, objects, rfl, _⟩⟩ := step_commitCompact taken
      · exact idTaken.retask rfl rfl rfl sameFlushes (fewerTasks index)
      · exact idTaken.compacted ordered found
  | startRead key | endRead index | setLease lease =>
      rw [← Option.some.inj taken]
      exact idTaken.retask rfl rfl rfl sameFlushes sameTasks
  | reopen unreadable =>
      rw [← Option.some.inj taken]
      exact idTaken.reopened ordered.wired (readable unreadable rfl)

end Host

/-! ## Opening and refreshing a reader -/

section Reader

variable {ETag : Type} {host : Host ETag}

theorem Host.Wired.openSst_mem (wired : host.Wired) {id : Nat}
    (listed : id ∈ host.listedIds) (opened : host.store.openSst id = some table) :
    table ∈ host.tables := by
  obtain ⟨live, member, rfl⟩ := List.mem_map.mp (wired.listed.mem_iff.mp listed)
  rw [ObjectStore.openSst, wired.objects live member] at opened
  exact Option.some.inj opened ▸ member

theorem mapM_openSst (store : ObjectStore ETag) : ∀ (ids : List Nat) (fetched : List SSTable),
    ids.mapM store.openSst = some fetched → fetched.map SSTable.id = ids ∧
      ∀ table ∈ fetched, table.id ∈ ids ∧ store.openSst table.id = some table := by
  intro ids
  induction ids with
  | nil =>
      intro fetched run
      cases Option.some.inj run
      exact ⟨rfl, fun table member => absurd member List.not_mem_nil⟩
  | cons id ids ih =>
      intro fetched run
      rw [List.mapM_cons] at run
      obtain ⟨table, opened, run⟩ := Option.bind_eq_some_iff.mp run
      obtain ⟨rest, restRun, run⟩ := Option.bind_eq_some_iff.mp run
      cases Option.some.inj run
      obtain ⟨restIds, restOpened⟩ := ih rest restRun
      have idExact := ObjectStore.openSst_id opened
      refine ⟨by rw [List.map_cons, idExact, restIds], ?_⟩
      intro other member
      rcases List.mem_cons.mp member with rfl | member
      · rw [idExact]
        exact ⟨List.mem_cons_self, opened⟩
      · obtain ⟨listed, otherOpened⟩ := restOpened other member
        exact ⟨List.mem_cons_of_mem _ listed, otherOpened⟩

/-- A refresh leaves the engine as it was, or its tables are those it kept and
those it fetched, sorted by id. -/
theorem refresh_cases [DecidableEq ETag] (engine : LsmEngine ETag) (store : ObjectStore ETag) :
    (engine.refresh store).1 = engine ∨
      ∃ manifest fetched, store.manifest = some manifest ∧
        (manifest.sstableIds.filter fun id =>
          decide (id ∉ engine.view.sstables.map SSTable.id)).mapM store.openSst = some fetched ∧
        (engine.refresh store).1.view =
          { engine.view with
            sstables := ((engine.view.sstables.filter fun table =>
              decide (table.id ∈ manifest.sstableIds)) ++ fetched).insertionSort
                fun left right => left.id ≤ right.id } := by
  unfold LsmEngine.refresh ObjectStore.loadManifest
  cases stored : store.manifest with
  | none => exact Or.inl rfl
  | some manifest =>
      simp only [Option.map_some]
      split_ifs
      · exact Or.inl rfl
      · cases missing : (manifest.sstableIds.filter fun id =>
            decide (id ∉ engine.view.sstables.map SSTable.id)).mapM store.openSst with
        | none => exact Or.inl rfl
        | some fetched => exact Or.inr ⟨manifest, fetched, rfl, missing, rfl⟩

theorem refresh_writer [DecidableEq ETag] (inSync : host.InSync) :
    (host.engine.refresh host.store).1 = host.engine := by
  unfold LsmEngine.refresh ObjectStore.loadManifest
  cases stored : host.store.manifest with
  | none => rfl
  | some manifest =>
      rw [Host.InSync, stored] at inSync
      simp only [Option.map_some, inSync, if_true]

end Reader

namespace Cluster

variable {ETag : Type}

def start (manifestEtag : Manifest → ETag) (leaseEtag : Lease → ETag) (lease : LeaseHandle) :
    Cluster ETag :=
  let host := Host.start manifestEtag leaseEtag lease
  ⟨host, LsmEngine.openEngine [] host.store LeaseHandle.default fun _ => false⟩

/-- A reader's log is empty: it never wrote. -/
def step [DecidableEq ETag] (cluster : Cluster ETag) : ClusterAction → Option (Cluster ETag)
  | .writer action => (cluster.host.step action).map fun host => { cluster with host := host }
  | .refreshWriter =>
      some { cluster with
        host := { cluster.host with
          engine := (cluster.host.engine.refresh cluster.host.store).1 } }
  | .openReader lease unreadable =>
      some { cluster with
        reader := LsmEngine.openEngine [] cluster.host.store lease unreadable }
  | .refreshReader => some { cluster with reader := (cluster.reader.refresh cluster.host.store).1 }

/-- A reader may skip tables it cannot load; the writer's I/O succeeds. -/
def Faultless (cluster : Cluster ETag) : ClusterAction → Prop
  | .writer action => cluster.host.Faultless action
  | _ => True

instance (cluster : Cluster ETag) (action : ClusterAction) : Decidable (cluster.Faultless action) := by
  induction action using ClusterAction.casesOn <;> (dsimp only [Faultless]; infer_instance)

def KeepsOrder (cluster : Cluster ETag) : ClusterAction → Prop
  | .writer action => cluster.host.KeepsOrder action
  | _ => True

instance (cluster : Cluster ETag) (action : ClusterAction) :
    Decidable (cluster.KeepsOrder action) := by
  induction action using ClusterAction.casesOn <;> (dsimp only [KeepsOrder]; infer_instance)

/-- What a reader holds: tables in order, each under an id of its own. -/
structure Following (cluster : Cluster ETag) : Prop where
  noMem : cluster.reader.view.memVersions = ∅
  noFrozen : cluster.reader.view.immutable = none
  nodup : (cluster.reader.view.sstables.map SSTable.id).Nodup
  ordered : cluster.reader.view.sstables.Pairwise fun earlier later =>
    KeyOlder earlier.versions later.versions
  taken : ∀ table ∈ cluster.reader.view.sstables, cluster.host.IdTaken table

variable {cluster : Cluster ETag} {log : List Commit}

theorem Following.view (following : cluster.Following) : cluster.reader.view.Ordered := by
  have noFrozen := EngineView.frozenVersions_none following.noFrozen
  refine ⟨?_, ?_, ?_, following.ordered⟩
  · rw [following.noMem]; exact Older.empty_right _
  · rw [following.noMem]; exact Older.empty_right _
  · rw [noFrozen]; exact Older.empty_right _

theorem following_of_sorted {reader : LsmEngine ETag} (ordered : cluster.host.SourceOrdered log)
    (noMem : reader.view.memVersions = ∅) (noFrozen : reader.view.immutable = none)
    (sorted : reader.view.sstables.Pairwise fun left right => left.id ≤ right.id)
    (nodup : (reader.view.sstables.map SSTable.id).Nodup)
    (tables : ∀ table ∈ reader.view.sstables, table ∈ cluster.host.tables) :
    Following { cluster with reader := reader } := by
  refine ⟨noMem, noFrozen, nodup, keyOlder_of_sorted sorted nodup ?_, ?_⟩
  · intro lower lowerMember upper upperMember
    exact ordered.idOrdered lower (tables lower lowerMember) upper (tables upper upperMember)
  · intro table member
    exact ordered.wired.idTaken (tables table member)

theorem Following.opened (ordered : cluster.host.SourceOrdered log) (lease : LeaseHandle)
    (unreadable : Nat → Bool) :
    Following { cluster with
      reader := LsmEngine.openEngine [] cluster.host.store lease unreadable } := by
  set loaded := cluster.host.listedIds.filterMap fun id =>
    if unreadable id then none else cluster.host.store.openSst id with loadedExact
  have tablesExact : (LsmEngine.openEngine [] cluster.host.store lease unreadable).view.sstables =
      loaded.insertionSort fun left right => left.id ≤ right.id := by
    simp only [LsmEngine.openEngine, loadedExact, Host.listedIds]
    congr 2
    cases stored : cluster.host.store.manifest <;> simp [ObjectStore.loadManifest, stored]
  have memExact := opened_memtable cluster.host.store lease unreadable []
    fun commit member => absurd member List.not_mem_nil
  have idsSub : (loaded.map SSTable.id).Sublist cluster.host.listedIds :=
    cluster.host.store.loaded_ids_sublist unreadable _
  have perm := List.perm_insertionSort (fun left right : SSTable => left.id ≤ right.id) loaded
  refine following_of_sorted ordered ?_ rfl ?_ ?_ ?_
  · have noLog : logBytes [] = [] := rfl
    rw [noLog] at memExact
    rw [EngineView.memVersions, memExact]
    exact MemTable.new_versions _
  · rw [tablesExact]
    exact List.pairwise_insertionSort (fun left right : SSTable => left.id ≤ right.id) _
  · rw [tablesExact]
    refine (perm.map SSTable.id).nodup_iff.mpr (List.Nodup.sublist idsSub ?_)
    exact ordered.wired.listed.nodup_iff.mpr ordered.wired.tablesNodup
  · intro table member
    rw [tablesExact] at member
    obtain ⟨id, listed, found⟩ := List.mem_filterMap.mp (perm.mem_iff.mp member)
    split_ifs at found
    exact ordered.wired.openSst_mem listed found

theorem Following.refreshed [DecidableEq ETag] (following : cluster.Following)
    (ordered : cluster.host.SourceOrdered log) :
    Following { cluster with reader := (cluster.reader.refresh cluster.host.store).1 } := by
  rcases refresh_cases cluster.reader cluster.host.store with same | ⟨manifest, fetched, stored,
    fetches, viewExact⟩
  · rw [same]
    exact following
  obtain ⟨fetchedIds, fetchedOpen⟩ := mapM_openSst cluster.host.store _ fetched fetches
  have listedExact : cluster.host.listedIds = manifest.sstableIds := by
    rw [Host.listedIds, stored]; rfl
  set kept := cluster.reader.view.sstables.filter fun table =>
    decide (table.id ∈ manifest.sstableIds) with keptExact
  have perm := List.perm_insertionSort (fun left right : SSTable => left.id ≤ right.id)
    (kept ++ fetched)
  have keptMember : ∀ table ∈ kept, table ∈ cluster.reader.view.sstables ∧
      table.id ∈ manifest.sstableIds := by
    intro table member
    simpa [keptExact] using member
  refine following_of_sorted ordered ?_ ?_ ?_ ?_ ?_
  · rw [viewExact]; exact following.noMem
  · rw [viewExact]; exact following.noFrozen
  · rw [viewExact]
    exact List.pairwise_insertionSort (fun left right : SSTable => left.id ≤ right.id) _
  · rw [viewExact]
    refine (perm.map SSTable.id).nodup_iff.mpr ?_
    rw [List.map_append, fetchedIds]
    refine List.Nodup.append ?_ ?_ ?_
    · exact following.nodup.sublist (List.filter_sublist.map _)
    · refine List.Nodup.filter _ ?_
      rw [← listedExact]
      exact ordered.wired.listed.nodup_iff.mpr ordered.wired.tablesNodup
    · -- what was fetched was not held
      intro id inKept inFetched
      obtain ⟨table, member, rfl⟩ := List.mem_map.mp inKept
      have unknown := of_decide_eq_true (List.mem_filter.mp inFetched).2
      exact unknown (List.mem_map.mpr ⟨table, (keptMember table member).1, rfl⟩)
  · rw [viewExact]
    intro table member
    rcases List.mem_append.mp (perm.mem_iff.mp member) with member | member
    · obtain ⟨held, listed⟩ := keptMember table member
      rw [← listedExact] at listed
      obtain ⟨live, liveMember, sameId⟩ := List.mem_map.mp (ordered.wired.listed.mem_iff.mp listed)
      exact (following.taken table held).same live liveMember sameId ▸ liveMember
    · obtain ⟨wanted, opened⟩ := fetchedOpen table member
      refine ordered.wired.openSst_mem ?_ opened
      rw [listedExact]
      exact (List.mem_filter.mp wanted).1

def InOrder (cluster : Cluster ETag) : Prop :=
  (∃ log, cluster.host.SourceOrdered log) ∧ cluster.Following

theorem InOrder.step [DecidableEq ETag] {next : Cluster ETag} (inOrder : cluster.InOrder)
    (action : ClusterAction) (faultless : cluster.Faultless action)
    (keeps : cluster.KeepsOrder action) (taken : cluster.step action = some next) :
    next.InOrder := by
  obtain ⟨⟨log, ordered⟩, following⟩ := inOrder
  cases action with
  | writer action =>
      obtain ⟨host, hostTaken, rfl⟩ := Option.map_eq_some_iff.mp taken
      refine ⟨ordered.step action faultless keeps hostTaken, following.noMem, following.noFrozen,
        following.nodup, following.ordered, ?_⟩
      intro table member
      exact (following.taken table member).step ordered action
        (Host.Faultless.readable faultless) hostTaken
  | refreshWriter =>
      have same := refresh_writer ordered.wired.inSync
      rw [← Option.some.inj taken, same]
      exact ⟨⟨log, ordered⟩, following⟩
  | openReader lease unreadable =>
      rw [← Option.some.inj taken]
      exact ⟨⟨log, ordered⟩, Following.opened ordered lease unreadable⟩
  | refreshReader =>
      rw [← Option.some.inj taken]
      exact ⟨⟨log, ordered⟩, following.refreshed ordered⟩

theorem InOrder.started (manifestEtag : Manifest → ETag) (leaseEtag : Lease → ETag)
    (lease : LeaseHandle) : (start manifestEtag leaseEtag lease).InOrder := by
  have ordered : (start manifestEtag leaseEtag lease).host.SourceOrdered [] :=
    Host.SourceOrdered.started manifestEtag leaseEtag lease
  exact ⟨⟨[], ordered⟩, Following.opened ordered LeaseHandle.default fun _ => false⟩

/-- A writer and a reader on an empty store, ETags being the contents themselves. -/
def fresh : Cluster (Option Manifest) := start some (fun _ => none) ⟨1, true⟩

end Cluster

variable {ETag : Type} [DecidableEq ETag]

/-- In every state of a run whose commits keep the order, each source of the
writer and of the reader is newer on every key than all that `read_at` probes
after it. -/
theorem sources_in_probe_order (manifestEtag : Manifest → ETag) (leaseEtag : Lease → ETag)
    (lease : LeaseHandle) (cluster : Cluster ETag)
    (reached : Reaches Cluster.step
      (fun cluster action => cluster.Faultless action ∧ cluster.KeepsOrder action)
      (Cluster.start manifestEtag leaseEtag lease) cluster) :
    cluster.host.engine.view.sources.Pairwise (fun above below => KeyOlder below above) ∧
      cluster.reader.view.sources.Pairwise (fun above below => KeyOlder below above) := by
  obtain ⟨⟨log, ordered⟩, following⟩ := Reaches.invariant Cluster.InOrder
    (Cluster.InOrder.started _ _ _)
    (fun cluster action next inOrder ⟨faultless, keeps⟩ taken =>
      inOrder.step action faultless keeps taken) cluster reached
  exact ⟨ordered.view.keyOlder, following.view.keyOlder⟩

def twoFlushes : List Action :=
  [.write none [⟨"t", [1], some [7]⟩]] ++ flushNow ++ [.write none [⟨"t", [1], some [8]⟩]] ++
    flushNow

/-- A compaction beside a flush of another key, a write, and a restart. -/
def compactAndReopen : List Action :=
  [.beginCompact, .finishCompact 0 Bloom.accepting false, .write none [⟨"t", [2], some [7]⟩]] ++
    flushNow ++ [.commitCompact 0 false fun _ => false, .write none [⟨"t", [1], some [9]⟩],
      .reopen fun _ => false]

def orderedRun : List ClusterAction :=
  twoFlushes.map .writer ++ [.openReader ⟨0, false⟩ fun _ => false] ++
    compactAndReopen.map .writer ++ [.refreshReader]

theorem sources_in_probe_order_after_reopen :
    ∃ cluster, runChecked Cluster.step
        (fun cluster action => decide (cluster.Faultless action ∧ cluster.KeepsOrder action))
        Cluster.fresh orderedRun = some cluster ∧
      cluster.reader.view.sstables.map SSTable.id = [3, 4] ∧
      cluster.host.engine.view.sources.Pairwise (fun above below => KeyOlder below above) ∧
      cluster.reader.view.sources.Pairwise (fun above below => KeyOlder below above) := by
  have facts : (runChecked Cluster.step
      (fun cluster action => decide (cluster.Faultless action ∧ cluster.KeepsOrder action))
      Cluster.fresh orderedRun).map (fun cluster => cluster.reader.view.sstables.map SSTable.id) =
        some [3, 4] := by
    decide +kernel
  obtain ⟨cluster, ran, exact⟩ := Option.map_eq_some_iff.mp facts
  have reached := runChecked_decided ran
  exact ⟨cluster, ran, exact,
    sources_in_probe_order some (fun _ => none) ⟨1, true⟩ cluster reached⟩

/-- `KeyOlder`, checked on the rows of two tables. -/
def SSTable.RowsOlder (lower upper : SSTable) : Prop :=
  ∀ one ∈ lower.run.entries, ∀ other ∈ upper.run.entries,
    one.1.userKey = other.1.userKey → one.1.seq < other.1.seq

instance (lower upper : SSTable) : Decidable (lower.RowsOlder upper) :=
  inferInstanceAs (Decidable (∀ one ∈ lower.run.entries, ∀ other ∈ upper.run.entries,
    one.1.userKey = other.1.userKey → one.1.seq < other.1.seq))

theorem SSTable.rowsOlder_of_keyOlder {lower upper : SSTable}
    (older : KeyOlder lower.versions upper.versions) : lower.RowsOlder upper :=
  fun one oneMember other otherMember =>
    older one.version ⟨one, oneMember, rfl⟩ other.version ⟨other, otherMember, rfl⟩

/-- The compaction that a flush overtook is probed before the younger table. -/
theorem sources_out_of_order_after_overtaken_compaction :
    ¬ ∀ cluster : Cluster (Option Manifest),
      Reaches Cluster.step Cluster.Faultless Cluster.fresh cluster →
        cluster.host.engine.view.sources.Pairwise (fun above below => KeyOlder below above) := by
  intro claimed
  have facts : (runChecked Cluster.step (fun cluster action => decide (cluster.Faultless action))
      Cluster.fresh (overtakenRun.map ClusterAction.writer)).map (fun cluster =>
        decide (cluster.host.engine.view.sstables.Pairwise SSTable.RowsOlder)) = some false := by
    decide +kernel
  obtain ⟨cluster, ran, unordered⟩ := Option.map_eq_some_iff.mp facts
  have reached := runChecked_decided ran
  have sources := claimed cluster reached
  have tables := (List.pairwise_cons.mp (List.pairwise_cons.mp sources).2).2
  rw [List.pairwise_map, List.pairwise_reverse] at tables
  exact of_decide_eq_false unordered (tables.imp fun older => SSTable.rowsOlder_of_keyOlder older)

end Pantheon.Keystone
