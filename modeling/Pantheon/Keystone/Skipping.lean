import Mathlib
import Pantheon.Keystone.Recorded
import Pantheon.Keystone.SourceOrder

/-!
# A process that skipped tables

What holds of it from the open on: of the process as a whole, and of a key that it has
not written.  The key is followed through writes and through flushes and compactions
that begin.
-/

set_option autoImplicit false

namespace Pantheon.Keystone

open Pantheon.Lib

/-! ## The process -/

namespace Host

variable {ETag : Type}

def opened (file : Bytes) (store : ObjectStore ETag) (lease : LeaseHandle)
    (unreadable : Nat → Bool) : Host ETag :=
  ⟨LsmEngine.openEngine file store lease unreadable, store, [], [], [], []⟩

def Untouched (host : Host ETag) (key : Bytes) : Prop :=
  ∀ commit ∈ host.history, ∀ entry ∈ commit.entries, entry.key ≠ key

def heldRows (host : Host ETag) : List Entry :=
  host.engine.view.memtable.toEntries.entries ++
    (host.flushes.flatMap fun task => task.pending.entries.entries) ++
    host.tables.flatMap fun table => table.run.entries

/-- Every row of a listed table that is not in the view has a newer version
among the rows the process holds. -/
def Superseded (host : Host ETag) : Prop :=
  ∀ table ∈ host.store.listedTables, table.id ∉ host.tables.map SSTable.id →
    ∀ row ∈ table.run.entries, ∃ other ∈ host.heldRows,
      other.1.userKey = row.1.userKey ∧ row.1.seq < other.1.seq

instance (host : Host ETag) : Decidable host.Superseded :=
  inferInstanceAs (Decidable (∀ table ∈ host.store.listedTables,
    table.id ∉ host.tables.map SSTable.id → ∀ row ∈ table.run.entries, ∃ other ∈ host.heldRows,
      other.1.userKey = row.1.userKey ∧ row.1.seq < other.1.seq))

/-- The conditions on each step: flushes commit in the order they began, no
commit reverses the order of a shared key, and no commit drops a row that
nothing supersedes. -/
def KeepsRecorded (host : Host ETag) : Action → Prop
  | .write _ entries => DistinctKeys entries ∧ host.FitsLog entries
  | .commitFlush index _ _ => index = 0 ∧ host.CommitsInOrder index ∧ host.Superseded
  | .commitCompact index _ _ => host.KeepsIdOrder index ∧ host.Superseded
  | _ => True

instance (host : Host ETag) (action : Action) : Decidable (host.KeepsRecorded action) := by
  induction action using Action.casesOn <;> (dsimp only [KeepsRecorded]; infer_instance)

/-- The host as if the manifest listed just the tables of the view. -/
def ownView (host : Host ETag) : Host ETag :=
  let manifest : Manifest := { Manifest.default with sstableIds := host.tables.map SSTable.id }
  { host with
    engine := { host.engine with write := { host.engine.write with
      manifestEtag := some (host.store.manifestEtag manifest) } }
    store := { host.store with manifest := some manifest } }

theorem Wired.ownView {host : Host ETag} (wired : host.Wired) : host.ownView.Wired :=
  ⟨rfl, wired.heldBelow, wired.reservedBelow, wired.tablesNodup, wired.reservedNodup, wired.apart,
    wired.capturedSame, wired.builtFlush, wired.builtCompaction, List.Perm.refl _, wired.objects⟩

/-- The flushes in flight, oldest first. -/
def pendingRuns (host : Host ETag) : List SortedRun :=
  host.flushes.map fun task => task.pending.entries

/-- Where the versions of `key` that the front of the log holds are in memory:
in the memtable until a flush begins, then in the oldest flush; nowhere else. -/
def Located (host : Host ETag) (front : Bytes) (key : Bytes) : Prop :=
  (host.pendingRuns = [] ∧
      slice host.engine.view.memVersions key = slice (loggedVersions front) key) ∨
    (slice host.engine.view.memVersions key = ∅ ∧ ∃ first rest, host.pendingRuns = first :: rest ∧
      slice first.versions key = slice (loggedVersions front) key ∧
      ∀ run ∈ rest, slice run.versions key = ∅) ∨
    (slice (loggedVersions front) key = ∅ ∧ slice host.engine.view.memVersions key = ∅ ∧
      ∀ run ∈ host.pendingRuns, slice run.versions key = ∅)

/-- Everything in memory, in the listed tables and in the front of the log. -/
def everything (host : Host ETag) (front : Bytes) : Set (Version Bytes Bytes) :=
  host.engine.view.memVersions ∪ host.inFlightVersions ∪ host.published ∪
    tableVersions host.store.listedTables ∪ loggedVersions front

/-- The process as a whole: `front` is the log it was opened on, or nothing
once a flush has committed, and `log` are the batches appended behind it. -/
structure Skipping (host : Host ETag) (recorded : Set (Version Bytes Bytes)) (front : Bytes)
    (log : List Commit) : Prop where
  wired : host.ownView.Wired
  inSync : host.InSync
  valid : host.engine.lease.valid = true
  aligned : host.Aligned
  file : host.walFile = front ++ logBytes log
  unbroken : Unbroken front
  fits : ∀ commit ∈ log, commit.walBatch.Fits
  logged : ∀ commit ∈ log, commit ∈ host.history
  nodup : host.store.listedIds.Nodup
  intact : host.store.Intact
  unreserved : ∀ id ∈ host.reservedIds, id ∉ host.store.listedIds
  listedBelow : ∀ id ∈ host.store.listedIds, id < host.engine.write.sstableId
  viewListed : ∀ table ∈ host.tables, table.id ∈ host.store.listedIds
  det : Deterministic (recorded ∪ host.commits)
  bounded : ∀ version ∈ recorded ∪ host.commits, version.seq < host.engine.write.nextCommitSeq
  visible : ∀ version ∈ recorded, version.seq ≤ max host.manifestMaxSeq (replayFrom front 0).2
  subset : host.everything front ⊆ recorded ∪ host.commits
  captives : ∀ task ∈ host.compactions, task.pending.sstables ≠ []
  overlap : (host.compactions.map CompactTask.pending).Pairwise fun left right =>
    host.Present left → host.Present right → ∃ table ∈ left.sstables, table ∈ right.sstables

/-- One key that the process has not written. -/
structure Spared (host : Host ETag) (recorded : Set (Version Bytes Bytes)) (front : Bytes)
    (key : Bytes) : Prop where
  retains : ∀ cutoff, (∀ version ∈ recorded, version.seq ≤ cutoff) →
    Retains (loggedVersions front ∪ tableVersions host.store.listedTables) recorded key cutoff
  aged : ∀ lower ∈ host.store.listedTables, ∀ upper ∈ host.store.listedTables,
    lower.id < upper.id → Shadows (slice upper.versions key) (slice lower.versions key)
  frontShadows : ∀ table ∈ host.store.listedTables,
    Shadows (slice (loggedVersions front) key) (slice table.versions key)
  captured : ∀ task ∈ host.compactions, Shadows (slice (loggedVersions front) key)
    (slice (tableVersions task.pending.sstables) key)
  behind : ∀ task ∈ host.compactions, host.Present task.pending → ∀ table ∈ host.tables,
    table ∈ task.pending.sstables ∨
      Shadows (slice table.versions key) (slice (tableVersions task.pending.sstables) key)
  located : host.Located front key

variable {host next : Host ETag} {recorded : Set (Version Bytes Bytes)} {front : Bytes}
  {log : List Commit} {key : Bytes}

theorem Skipping.view_listed (skipping : host.Skipping recorded front log) {table : SSTable}
    (member : table ∈ host.tables) : table ∈ host.store.listedTables :=
  (mem_listedTables skipping.intact table).mpr
    ⟨skipping.viewListed table member, skipping.wired.objects table member⟩

theorem Skipping.held_recorded (skipping : host.Skipping recorded front log)
    (untouched : host.Untouched key) {version : Version Bytes Bytes}
    (held : version ∈ host.everything front) (sameKey : version.key = key) :
    version ∈ recorded := by
  rcases skipping.subset held with member | ⟨commit, member, entry, entryMember, rfl⟩
  · exact member
  · exact absurd sameKey (untouched commit member entry entryMember)

/-! ## The next open -/

theorem Spared.reopened_answers (spared : host.Spared recorded front key)
    (skipping : host.Skipping recorded front log) (untouched : host.Untouched key)
    (recordedDet : Deterministic recorded) :
    Answers recorded key (host.reopened fun _ => false).currentSeq
      ((host.reopened fun _ => false).readAt key (host.reopened fun _ => false).currentSeq) := by
  set engine := host.reopened fun _ => false with engineExact
  have tablesExact : engine.view.sstables =
      host.store.listedTables.insertionSort fun left right => left.id ≤ right.id := by
    simp only [engineExact, reopened, LsmEngine.openEngine, ObjectStore.loadManifest_getD,
      ObjectStore.listedTables, ObjectStore.listedIds, Bool.false_eq_true, if_false]
  have perm : engine.view.sstables.Perm host.store.listedTables := by
    rw [tablesExact]
    exact List.perm_insertionSort (fun left right : SSTable => left.id ≤ right.id) _
  have replayed := skipping.unbroken.replayFrom_append (logBytes log) 0
  have logReplayed : replayFrom (logBytes log) (replayFrom front 0).2 =
      ((log.map Commit.walBatch).flatMap WalBatch.records,
        highestSeq (replayFrom front 0).2 (log.map Commit.walBatch)) := by
    have run := replayFrom_encodeBatches (log.map Commit.walBatch) [] (replayFrom front 0).2 (by
      intro batch member
      obtain ⟨commit, commitMember, rfl⟩ := List.mem_map.mp member
      exact skipping.fits commit commitMember)
    rwa [List.append_nil, replayFrom_nil, List.append_nil] at run
  rw [logReplayed] at replayed
  have memSlice : slice engine.view.memVersions key = slice (loggedVersions front) key := by
    rw [EngineView.memVersions]
    simp only [engineExact, reopened, LsmEngine.openEngine, Wal.replay, Wal.openFile,
      skipping.file, replayed, replayInto_append]
    exact slice_replayInto key log _ fun commit member =>
      untouched commit (skipping.logged commit member)
  have frozenExact : engine.view.frozenVersions = ∅ := EngineView.frozenVersions_none rfl
  have versionsSlice : slice (union engine.view.sources) key =
      slice (loggedVersions front ∪ tableVersions host.store.listedTables) key := by
    have sameTables : tableVersions engine.view.sstables = tableVersions host.store.listedTables :=
      Set.Subset.antisymm (tableVersions_mono fun table member => perm.mem_iff.mp member)
        (tableVersions_mono fun table member => perm.mem_iff.mpr member)
    rw [EngineView.union_sources, EngineView.versions, frozenExact, Set.union_empty, sameTables,
      slice_union, slice_union, memSlice]
  have ordered : engine.view.sources.Pairwise fun above below =>
      Shadows (slice above key) (slice below key) := by
    rw [EngineView.sources]
    refine List.pairwise_cons.mpr ⟨?_, List.pairwise_cons.mpr ⟨?_, ?_⟩⟩
    · intro source member
      rw [memSlice]
      rcases List.mem_cons.mp member with rfl | member
      · rw [frozenExact]
        exact fun _ _ lower lowerMember => absurd lowerMember.1 (Set.notMem_empty _)
      · obtain ⟨table, tableMember, rfl⟩ := List.mem_map.mp member
        exact spared.frontShadows table (perm.mem_iff.mp (List.mem_reverse.mp tableMember))
    · intro source _ upper member
      rw [frozenExact] at member
      exact absurd member.1 (Set.notMem_empty _)
    · rw [List.pairwise_map, List.pairwise_reverse]
      have nodup : (engine.view.sstables.map SSTable.id).Nodup :=
        (perm.map SSTable.id).nodup_iff.mpr
          (skipping.nodup.sublist host.store.listedTables_ids_sublist)
      refine ((host.reopened_sorted fun _ => false).and (List.pairwise_map.mp nodup)).imp_of_mem ?_
      rintro lower upper lowerMember upperMember ⟨le, differs⟩
      exact spared.aged lower (perm.mem_iff.mp lowerMember) upper (perm.mem_iff.mp upperMember)
        (lt_of_le_of_ne le differs)
  have latest : ∀ version ∈ recorded, version.seq ≤ engine.currentSeq := by
    intro version member
    refine (skipping.visible version member).trans ?_
    simp only [engineExact, reopened, LsmEngine.currentSeq, LsmEngine.openEngine, Wal.replay,
      Wal.openFile, skipping.file, replayed, ObjectStore.loadManifest_getD, Nat.add_sub_cancel]
    refine max_le (le_max_right _ _) ?_
    exact ((le_highestSeq _ _).1.trans (le_max_left _ _)).trans (le_max_left _ _)
  rw [LsmEngine.readAt, EngineView.readAt_eq_firstHit]
  refine answers_at engine.view.sources_resolve ordered ?_ recordedDet ?_
  · rw [versionsSlice]
    rintro version ⟨held, sameKey⟩
    refine skipping.held_recorded untouched ?_ sameKey
    rcases held with held | held
    · exact Or.inr held
    · exact Or.inl (Or.inr held)
  · exact (spared.retains _ latest).of_slice versionsSlice.symm

/-! ## Effects -/

theorem pending_of_map {tasks before : List CompactTask}
    (same : tasks.map CompactTask.pending = before.map CompactTask.pending) {task : CompactTask}
    (member : task ∈ tasks) : ∃ earlier ∈ before, earlier.pending = task.pending := by
  have mapped : task.pending ∈ tasks.map CompactTask.pending := List.mem_map.mpr ⟨task, member, rfl⟩
  rw [same] at mapped
  exact List.mem_map.mp mapped

theorem inFlight_eq_runs (host : Host ETag) : host.inFlightVersions =
    {version | ∃ run ∈ host.pendingRuns, version ∈ run.versions} := by
  ext version
  simp [inFlightVersions, pendingRuns]

/-- Only the snapshots and the progress of the tasks differ. -/
structure Retasked (host next : Host ETag) : Prop where
  engine : ∃ snapshots, next.engine = { host.engine with
    write := { host.engine.write with openSnapshots := snapshots } }
  history : next.history = host.history
  manifest : next.store.manifest = host.store.manifest
  etag : next.store.manifestEtag = host.store.manifestEtag
  objects : ∀ id ∈ host.store.listedIds, next.store.sst id = host.store.sst id
  flushes : next.flushes.map FlushTask.pending = host.flushes.map FlushTask.pending
  compactions : next.compactions.map CompactTask.pending =
    host.compactions.map CompactTask.pending

theorem Skipping.retask (skipping : host.Skipping recorded front log) (wired : next.ownView.Wired)
    (same : host.Retasked next) : next.Skipping recorded front log := by
  obtain ⟨⟨snapshots, sameEngine⟩, sameHistory, sameManifest, sameEtag, objects, flushes,
    compactions⟩ := same
  have sameTables : next.tables = host.tables := by rw [tables, sameEngine]; rfl
  have sameListed : next.store.listedIds = host.store.listedIds := by
    rw [ObjectStore.listedIds, sameManifest]; rfl
  have sameObjects := ObjectStore.listedTables_congr sameManifest objects
  have sameCommits : next.commits = host.commits := by rw [commits, commits, sameHistory]
  have sameReserved : next.reservedIds = host.reservedIds := by
    have flushIds := congrArg (List.map PendingFlush.sstableId) flushes
    have compactionIds := congrArg (List.map PendingCompaction.newId) compactions
    rw [List.map_map, List.map_map] at flushIds compactionIds
    exact congrArg₂ (· ++ ·) flushIds compactionIds
  have sameRuns : next.pendingRuns = host.pendingRuns := by
    have runs := congrArg (List.map PendingFlush.entries) flushes
    rwa [List.map_map, List.map_map] at runs
  have publishedSub : next.published ⊆ host.published := by
    rintro version (held | ⟨task, member, held⟩)
    · exact Or.inl (sameTables ▸ held)
    · obtain ⟨before, beforeMember, samePending⟩ := pending_of_map compactions member
      exact captured_published beforeMember (samePending ▸ held)
  refine ⟨wired, ?_, ?_, ?_, ?_, skipping.unbroken, skipping.fits, ?_, ?_, ?_, ?_, ?_, ?_, ?_, ?_,
    ?_, ?_, ?_, ?_⟩
  · rw [InSync, sameEngine, sameManifest, sameEtag]; exact skipping.inSync
  · rw [sameEngine]; exact skipping.valid
  · rw [Aligned, sameEngine]; exact skipping.aligned
  · rw [walFile, sameEngine]; exact skipping.file
  · rw [sameHistory]; exact skipping.logged
  · rw [sameListed]; exact skipping.nodup
  · intro id member
    rw [sameListed] at member
    obtain ⟨table, found, idExact⟩ := skipping.intact id member
    exact ⟨table, (objects id member).trans found, idExact⟩
  · rw [sameReserved, sameListed]; exact skipping.unreserved
  · rw [sameListed, sameEngine]; exact skipping.listedBelow
  · rw [sameTables, sameListed]; exact skipping.viewListed
  · rw [sameCommits]; exact skipping.det
  · rw [sameCommits, sameEngine]; exact skipping.bounded
  · have sameMax : next.manifestMaxSeq = host.manifestMaxSeq := by
      rw [manifestMaxSeq, manifestMaxSeq, sameManifest]
    rw [sameMax]; exact skipping.visible
  · rw [sameCommits]
    rintro version ((((held | held) | held) | held) | held)
    · rw [sameEngine] at held
      exact skipping.subset (Or.inl (Or.inl (Or.inl (Or.inl held))))
    · rw [inFlight_eq_runs, sameRuns, ← inFlight_eq_runs] at held
      exact skipping.subset (Or.inl (Or.inl (Or.inl (Or.inr held))))
    · exact skipping.subset (Or.inl (Or.inl (Or.inr (publishedSub held))))
    · rw [sameObjects] at held
      exact skipping.subset (Or.inl (Or.inr held))
    · exact skipping.subset (Or.inr held)
  · intro task member
    obtain ⟨before, beforeMember, samePending⟩ := pending_of_map compactions member
    rw [← samePending]
    exact skipping.captives before beforeMember
  · rw [compactions]
    simp only [Present, sameTables]
    exact skipping.overlap

theorem Spared.retask (spared : host.Spared recorded front key)
    (sameView : next.engine.view = host.engine.view)
    (sameObjects : next.store.listedTables = host.store.listedTables)
    (flushes : next.flushes.map FlushTask.pending = host.flushes.map FlushTask.pending)
    (compactions : next.compactions.map CompactTask.pending =
      host.compactions.map CompactTask.pending) : next.Spared recorded front key := by
  have sameTables : next.tables = host.tables := by rw [tables, sameView]; rfl
  have sameRuns : next.pendingRuns = host.pendingRuns := by
    have runs := congrArg (List.map PendingFlush.entries) flushes
    rwa [List.map_map, List.map_map] at runs
  refine ⟨?_, ?_, ?_, ?_, ?_, ?_⟩
  · rw [sameObjects]; exact spared.retains
  · rw [sameObjects]; exact spared.aged
  · rw [sameObjects]; exact spared.frontShadows
  · intro task member
    obtain ⟨before, beforeMember, samePending⟩ := pending_of_map compactions member
    rw [← samePending]
    exact spared.captured before beforeMember
  · intro task member
    obtain ⟨before, beforeMember, samePending⟩ := pending_of_map compactions member
    rw [← samePending, Present, sameTables]
    exact spared.behind before beforeMember
  · rw [Located, sameView, sameRuns]
    exact spared.located

theorem Skipping.applied (skipping : host.Skipping recorded front log) {entries : List BatchEntry}
    (distinct : DistinctKeys entries) (fits : host.FitsLog entries) :
    (host.applied entries).Skipping recorded front
      (log ++ [⟨host.engine.write.nextCommitSeq, entries⟩]) := by
  set commit : Commit := ⟨host.engine.write.nextCommitSeq, entries⟩ with commitExact
  have commitsExact : recorded ∪ (host.applied entries).commits =
      recorded ∪ host.commits ∪ commit.versions := by
    rw [applied_commits, Set.union_assoc]
  refine { skipping with
    wired := (skipping.wired.applied entries).ownView, aligned := ?_, file := ?_, fits := ?_
    logged := ?_, det := ?_, bounded := ?_, subset := ?_ }
  · rw [Aligned, applied_io entries skipping.aligned]
  · rw [walFile, applied_io entries skipping.aligned, skipping.file, logBytes_append,
      logBytes_singleton, List.append_assoc]
  · intro other member
    rcases List.mem_append.mp member with member | member
    · exact skipping.fits other member
    · rw [List.mem_singleton.mp member]
      exact fits
  · intro other member
    rcases List.mem_append.mp member with member | member
    · exact List.mem_append_left _ (skipping.logged other member)
    · exact List.mem_append_right _ member
  · rw [commitsExact]
    exact deterministic_extend skipping.det skipping.bounded distinct
  · rw [commitsExact]
    rintro version (held | held)
    · exact (skipping.bounded version held).trans (Nat.lt_succ_self _)
    · rw [commit_seq_of_mem held]
      exact Nat.lt_succ_self _
  · rw [commitsExact]
    rintro version ((((held | held) | held) | held) | held)
    · rcases mem_insertBatch_sub commit.seq version entries _ held with held | held
      · exact Or.inl (skipping.subset (Or.inl (Or.inl (Or.inl (Or.inl held)))))
      · exact Or.inr held
    · exact Or.inl (skipping.subset (Or.inl (Or.inl (Or.inl (Or.inr held)))))
    · exact Or.inl (skipping.subset (Or.inl (Or.inl (Or.inr held))))
    · exact Or.inl (skipping.subset (Or.inl (Or.inr held)))
    · exact Or.inl (skipping.subset (Or.inr held))

theorem Spared.applied (spared : host.Spared recorded front key) {entries : List BatchEntry}
    (apart : ∀ entry ∈ entries, entry.key ≠ key) :
    (host.applied entries).Spared recorded front key := by
  refine { spared with located := ?_ }
  have memSlice : slice (host.applied entries).engine.view.memVersions key =
      slice host.engine.view.memVersions key := slice_insertBatch key _ entries _ apart
  rw [Located, memSlice]
  exact spared.located

theorem frozen_runs (host : Host ETag) : host.frozen.pendingRuns = host.pendingRuns ++
    if host.engine.view.memtable.toEntries.entries = [] then []
    else [host.engine.view.memtable.toEntries] := by
  simp only [pendingRuns, Host.frozen, List.map_append]
  split_ifs <;> rfl

theorem Skipping.frozen (skipping : host.Skipping recorded front log) :
    host.frozen.Skipping recorded front log := by
  have noMem : host.frozen.engine.view.memVersions = ∅ := MemTable.new_versions _
  have counter : host.engine.write.sstableId ≤ host.frozen.engine.write.sstableId := by
    simp only [Host.frozen]
    split_ifs
    · exact le_rfl
    · exact Nat.le_succ _
  refine { skipping with
    wired := skipping.wired.frozen.ownView, unreserved := ?_, listedBelow := ?_, subset := ?_ }
  · intro id member listed
    rcases List.mem_append.mp member with member | member
    · obtain ⟨task, taskMember, rfl⟩ := List.mem_map.mp member
      rcases mem_frozen_flushes taskMember with before | rfl
      · exact skipping.unreserved _ (reservedIds_flush before) listed
      · exact absurd (skipping.listedBelow _ listed) (lt_irrefl _)
    · exact skipping.unreserved id (List.mem_append_right _ member) listed
  · intro id listed
    exact (skipping.listedBelow id listed).trans_le counter
  · rintro version ((((held | ⟨task, member, held⟩) | held) | held) | held)
    · rw [noMem] at held
      exact absurd held (Set.notMem_empty _)
    · rcases mem_frozen_flushes member with before | rfl
      · exact skipping.subset (Or.inl (Or.inl (Or.inl (Or.inr ⟨task, before, held⟩))))
      · exact skipping.subset (Or.inl (Or.inl (Or.inl (Or.inl held))))
    · exact skipping.subset (Or.inl (Or.inl (Or.inr held)))
    · exact skipping.subset (Or.inl (Or.inr held))
    · exact skipping.subset (Or.inr held)

/-- The first flush to begin takes what the log held; a later one has nothing
of the key. -/
theorem Spared.frozen (spared : host.Spared recorded front key) :
    host.frozen.Spared recorded front key := by
  refine { spared with located := ?_ }
  have noMem : slice host.frozen.engine.view.memVersions key = ∅ := by
    have empty : host.frozen.engine.view.memVersions = ∅ := MemTable.new_versions _
    rw [empty]
    ext version
    simp [slice]
  have memExact : host.engine.view.memtable.toEntries.versions = host.engine.view.memVersions := rfl
  rw [Located, frozen_runs]
  rcases spared.located with ⟨idle, inMem⟩ | ⟨memClear, first, rest, runs, inFirst, restClear⟩ |
    ⟨nothing, memClear, runsClear⟩
  · by_cases empty : host.engine.view.memtable.toEntries.entries = []
    · refine Or.inr (Or.inr ⟨?_, noMem, ?_⟩)
      · rw [← inMem, ← memExact, SortedRun.versions, empty, versionsOf_nil]
        ext version
        simp [slice]
      · rw [idle, if_pos empty]
        exact fun run member => absurd member List.not_mem_nil
    · refine Or.inr (Or.inl ⟨noMem, host.engine.view.memtable.toEntries, [], ?_, inMem,
        fun run member => absurd member List.not_mem_nil⟩)
      rw [idle, if_neg empty, List.nil_append]
  · refine Or.inr (Or.inl ⟨noMem, first, rest ++ if host.engine.view.memtable.toEntries.entries = []
      then [] else [host.engine.view.memtable.toEntries], by rw [runs, List.cons_append], inFirst, ?_⟩)
    intro run member
    rcases List.mem_append.mp member with member | member
    · exact restClear run member
    · split_ifs at member
      · exact absurd member List.not_mem_nil
      · rw [List.mem_singleton.mp member]
        exact memClear
  · refine Or.inr (Or.inr ⟨nothing, noMem, ?_⟩)
    intro run member
    rcases List.mem_append.mp member with member | member
    · exact runsClear run member
    · split_ifs at member
      · exact absurd member List.not_mem_nil
      · rw [List.mem_singleton.mp member]
        exact memClear

theorem Skipping.captured (skipping : host.Skipping recorded front log) :
    host.captured.Skipping recorded front log := by
  have counter : host.engine.write.sstableId ≤ host.captured.engine.write.sstableId := by
    simp only [Host.captured]
    split_ifs
    · exact le_rfl
    · exact Nat.le_succ _
  refine { skipping with
    wired := skipping.wired.captured.ownView, unreserved := ?_, listedBelow := ?_, subset := ?_
    captives := ?_, overlap := ?_ }
  · intro id member listed
    rcases List.mem_append.mp member with member | member
    · exact skipping.unreserved id (List.mem_append_left _ member) listed
    · obtain ⟨task, taskMember, rfl⟩ := List.mem_map.mp member
      rcases mem_captured_compactions taskMember with before | ⟨rfl, _⟩
      · exact skipping.unreserved _ (reservedIds_compaction before) listed
      · exact absurd (skipping.listedBelow _ listed) (lt_irrefl _)
  · intro id listed
    exact (skipping.listedBelow id listed).trans_le counter
  · rintro version (((held | (held | ⟨task, member, held⟩)) | held) | held)
    · exact skipping.subset (Or.inl (Or.inl (Or.inl held)))
    · exact skipping.subset (Or.inl (Or.inl (Or.inr (Or.inl held))))
    · rcases mem_captured_compactions member with before | ⟨rfl, _⟩
      · exact skipping.subset (Or.inl (Or.inl (Or.inr (captured_published before held))))
      · exact skipping.subset (Or.inl (Or.inl (Or.inr (Or.inl held))))
    · exact skipping.subset (Or.inl (Or.inr held))
    · exact skipping.subset (Or.inr held)
  · intro task member
    rcases mem_captured_compactions member with before | ⟨rfl, many⟩
    · exact skipping.captives task before
    · exact List.ne_nil_of_length_pos (lt_of_lt_of_le Nat.two_pos many)
  · -- an earlier compaction that is still present captured tables of this view
    by_cases few : host.engine.view.sstables.length < 2
    · have same : host.captured.compactions = host.compactions := by
        simp only [Host.captured, if_pos few, List.append_nil]
      rw [same]
      exact skipping.overlap
    · simp only [Host.captured, if_neg few, List.map_append, List.map_cons, List.map_nil]
      refine List.pairwise_append.mpr ⟨skipping.overlap, List.pairwise_singleton _ _, ?_⟩
      intro left member right rightMember leftPresent _
      rw [List.mem_singleton.mp rightMember]
      obtain ⟨task, taskMember, rfl⟩ := List.mem_map.mp member
      obtain ⟨table, tableMember⟩ := List.exists_mem_of_ne_nil _ (skipping.captives task taskMember)
      exact ⟨table, tableMember, leftPresent table tableMember⟩

theorem Spared.capturedNow (spared : host.Spared recorded front key)
    (skipping : host.Skipping recorded front log) : host.captured.Spared recorded front key := by
  refine { spared with captured := ?_, behind := ?_ }
  · intro task member
    rcases mem_captured_compactions member with before | ⟨rfl, _⟩
    · exact spared.captured task before
    · rintro upper upperMember lower ⟨⟨table, tableMember, held⟩, sameKey⟩
      exact spared.frontShadows table (skipping.view_listed tableMember) upper upperMember lower
        ⟨held, sameKey⟩
  · intro task member
    rcases mem_captured_compactions member with before | ⟨rfl, _⟩
    · exact spared.behind task before
    · exact fun _ table present => Or.inl present

end Host

end Pantheon.Keystone
