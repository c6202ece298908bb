import Mathlib
import Pantheon.Keystone.Recovery

/-!
# Acknowledged writes across a crash

`commit_flush` truncates the whole log, while the table it installs holds only
what was frozen when the flush began.  When nothing was written since and no
other flush is in flight, the two are the same and every acknowledged write
survives a crash at any point.
-/

set_option autoImplicit false

namespace Pantheon.Keystone

open Pantheon.Lib

namespace Host

variable {ETag : Type}

/-- The committing flush covers the log: the memtable is empty and no other
flush is in flight.  A table with a larger id, which reopening probes first,
shares no key with it. -/
def CoversLog (host : Host ETag) (index : Nat) : Prop :=
  match host.flushes[index]? with
  | some ⟨pending, some table⟩ =>
      host.engine.view.memtable.toEntries.entries = [] ∧ host.flushes.length = 1 ∧
        ∀ live ∈ host.tables, pending.sstableId < live.id → live.SharesNoKey table
  | _ => True

instance (host : Host ETag) (index : Nat) : Decidable (host.CoversLog index) := by
  unfold CoversLog
  rcases host.flushes[index]? with _ | ⟨pending, _ | table⟩ <;> infer_instance

/-- The committing compaction still owns its tables, and a table flushed since
under a smaller id shares no key with the merged one. -/
def KeepsIdOrder (host : Host ETag) (index : Nat) : Prop :=
  match host.compactions[index]? with
  | some ⟨pending, some table⟩ =>
      host.AllListed pending ∧
        ∀ survivor ∈ host.survivors pending, survivor.id < pending.newId →
          survivor.SharesNoKey table
  | _ => True

instance (host : Host ETag) (index : Nat) : Decidable (host.KeepsIdOrder index) := by
  unfold KeepsIdOrder
  rcases host.compactions[index]? with _ | ⟨pending, _ | table⟩ <;> infer_instance

def FitsLog (host : Host ETag) (entries : List BatchEntry) : Prop :=
  (Commit.walBatch ⟨host.engine.write.nextCommitSeq, entries⟩).Fits

instance (host : Host ETag) (entries : List BatchEntry) : Decidable (host.FitsLog entries) :=
  inferInstanceAs (Decidable (Commit.walBatch ⟨host.engine.write.nextCommitSeq, entries⟩).Fits)

def Covering (host : Host ETag) : Action → Prop
  | .write _ entries => DistinctKeys entries ∧ host.FitsLog entries
  | .commitFlush index _ _ => host.CoversLog index
  | .commitCompact index _ _ => host.KeepsIdOrder index
  | _ => True

instance (host : Host ETag) (action : Action) : Decidable (host.Covering action) := by
  induction action using Action.casesOn <;> (dsimp only [Covering]; infer_instance)

def inFlightVersions (host : Host ETag) : Set (Version Bytes Bytes) :=
  {version | ∃ task ∈ host.flushes, version ∈ task.pending.entries.versions}

/-- The log holds exactly what is in memory only, and it is newer than every
table and than everything captured. -/
structure LogCovered (host : Host ETag) (log : List Commit) : Prop where
  durable : host.Durable log
  valid : host.engine.lease.valid = true
  aligned : host.Aligned
  logExact : committed log = host.engine.view.memVersions ∪ host.inFlightVersions
  tablesOlder : Older (tableVersions host.tables) (committed log)
  capturedOlder : ∀ task ∈ host.compactions,
    Older (tableVersions task.pending.sstables) (committed log)

variable {host : Host ETag} {log : List Commit}

theorem LogCovered.applied (covered : host.LogCovered log) {entries : List BatchEntry}
    (distinct : DistinctKeys entries) (fits : host.FitsLog entries) :
    (host.applied entries).LogCovered (log ++ [⟨host.engine.write.nextCommitSeq, entries⟩]) := by
  set commit : Commit := ⟨host.engine.write.nextCommitSeq, entries⟩ with commitExact
  have olderFresh : ∀ lower, lower ⊆ host.commits → Older lower commit.versions := by
    intro lower lowerSubset early earlyMember late lateMember
    rw [commit_seq_of_mem lateMember]
    exact covered.durable.versionBounded early (lowerSubset earlyMember)
  have memExact : (host.applied entries).engine.view.memVersions =
      host.engine.view.memVersions ∪ commit.versions := by
    refine versions_insertBatch commit.seq entries _ distinct ?_
    intro held member sameSeq
    have logged : held.version ∈ committed log := by
      rw [covered.logExact]
      exact Or.inl ⟨held, member, rfl⟩
    have old := covered.durable.versionBounded _ (covered.durable.logSubset logged)
    rw [Entry.version_seq, sameSeq] at old
    exact absurd old (lt_irrefl _)
  refine ⟨covered.durable.applied covered.aligned distinct fits, covered.valid, ?_, ?_, ?_, ?_⟩
  · rw [Aligned, applied_io entries covered.aligned]
  · rw [committed_append, committed_singleton, covered.logExact, memExact, Set.union_right_comm]
    rfl
  · rw [committed_append, committed_singleton]
    exact covered.tablesOlder.union_right (olderFresh _ covered.durable.tablesSubset)
  · intro task member
    rw [committed_append, committed_singleton]
    exact (covered.capturedOlder task member).union_right
      (olderFresh _ (covered.durable.captured task member).1)

theorem frozen_inFlight (host : Host ETag) : host.frozen.inFlightVersions =
    host.engine.view.memVersions ∪ host.inFlightVersions := by
  by_cases nothing : host.engine.view.memtable.toEntries.entries = []
  · have noMem : host.engine.view.memVersions = ∅ := by
      rw [EngineView.memVersions, MemTable.versions, SortedRun.versions, nothing, versionsOf_nil]
    rw [noMem, Set.empty_union]
    simp [inFlightVersions, Host.frozen, nothing]
  · ext version
    simp only [inFlightVersions, Host.frozen, nothing, if_false, List.mem_append,
      List.mem_singleton, Set.mem_ofPred_eq, or_and_right, exists_or, exists_eq_left, Set.mem_union]
    exact or_comm

theorem LogCovered.frozen (covered : host.LogCovered log) : host.frozen.LogCovered log := by
  refine ⟨covered.durable.retask covered.durable.wired.frozen rfl rfl rfl rfl rfl
    fun task member => ⟨task, member, rfl⟩, covered.valid, covered.aligned, ?_,
    covered.tablesOlder, covered.capturedOlder⟩
  rw [frozen_inFlight, covered.logExact]
  have noMem : host.frozen.engine.view.memVersions = ∅ := MemTable.new_versions _
  rw [noMem, Set.empty_union]

theorem LogCovered.captured (covered : host.LogCovered log) : host.captured.LogCovered log := by
  refine ⟨covered.durable.capturedNow, covered.valid, covered.aligned, covered.logExact,
    covered.tablesOlder, ?_⟩
  intro task member
  rcases mem_captured_compactions member with member | ⟨rfl, _⟩
  · exact covered.capturedOlder task member
  · exact covered.tablesOlder

theorem LogCovered.flushed (covered : host.LogCovered log) {index : Nat}
    {segments : Nat → Option Bytes} {pending : PendingFlush} {table : SSTable}
    (found : host.flushes[index]? = some ⟨pending, some table⟩) (covers : host.CoversLog index) :
    (host.flushed index segments none pending table).LogCovered [] := by
  simp only [CoversLog, found] at covers
  obtain ⟨noMem, single, apart⟩ := covers
  obtain ⟨idExact, runExact, _⟩ := covered.durable.wired.builtFlush _
    (List.mem_of_getElem? found) table rfl
  obtain ⟨task, flushesExact⟩ := List.length_eq_one_iff.mp single
  obtain ⟨rfl, rfl⟩ : index = 0 ∧ task = ⟨pending, some table⟩ := by
    rw [flushesExact] at found
    cases index with
    | zero => exact ⟨rfl, by simpa using found⟩
    | succ index => exact absurd found (by simp)
  have memEmpty : host.engine.view.memVersions = ∅ := by
    rw [EngineView.memVersions, MemTable.versions, SortedRun.versions, noMem, versionsOf_nil]
  -- the log is what the table holds
  have tableExact : committed log = table.versions := by
    rw [covered.logExact, memEmpty, Set.empty_union, SSTable.versions, runExact]
    ext version
    simp [inFlightVersions, flushesExact]
  have noneLeft : committed ([] : List Commit) = ∅ := by
    ext version
    simp [committed]
  refine ⟨covered.durable.flushed found (fun commit member => absurd member List.not_mem_nil) rfl
    (List.nil_suffix) ?_ ?_ ?_ ?_ ?_, covered.valid, rfl, ?_, ?_, ?_⟩
  · rw [← tableExact]; exact covered.durable.logSubset
  · rw [← tableExact]; exact covered.tablesOlder
  · intro live member larger
    exact (apart live member (idExact ▸ larger)).keysApart
  · rw [noneLeft, Set.empty_union, ← tableExact, Set.union_comm]
    exact covered.durable.retains
  · intro other member
    rw [← tableExact]
    exact covered.capturedOlder other member
  · have noMem : (host.flushed 0 segments none pending table).engine.view.memVersions = ∅ := memEmpty
    rw [noneLeft, noMem, Set.empty_union]
    ext version
    simp [inFlightVersions, Host.flushed, flushesExact]
  · rw [noneLeft]; exact Older.empty_right _
  · intro other member
    rw [noneLeft]; exact Older.empty_right _

theorem LogCovered.compacted (covered : host.LogCovered log) {index : Nat}
    {objects : Nat → Option SSTable} {pending : PendingCompaction} {table : SSTable}
    (found : host.compactions[index]? = some ⟨pending, some table⟩)
    (kept : ∀ id, id ∉ pending.sstables.map SSTable.id → objects id = host.store.sst id)
    (keeps : host.KeepsIdOrder index) :
    (host.compacted index objects pending table).LogCovered log := by
  simp only [KeepsIdOrder, found] at keeps
  obtain ⟨allListed, apart⟩ := keeps
  have own := List.mem_of_getElem? found
  have present := covered.durable.wired.present_of_allListed own allListed
  obtain ⟨idExact, _, _⟩ := covered.durable.wired.builtCompaction _ own table rfl
  have merged := (covered.durable.wired.thinned own rfl covered.durable.det
    (covered.durable.captured _ own).1).subset
  refine ⟨covered.durable.compacted found kept present ?_, covered.valid, covered.aligned,
    covered.logExact, ?_, ?_⟩
  · intro survivor member smaller
    exact (apart survivor member (idExact ▸ smaller)).keysApart
  · rintro early ⟨live, member, held⟩
    rcases List.mem_append.mp member with member | member
    · exact covered.tablesOlder early ⟨live, (mem_survivors.mp member).1, held⟩
    · rw [List.mem_singleton.mp member] at held
      exact covered.capturedOlder _ own early (merged held)
  · intro task member
    exact covered.capturedOlder task ((List.eraseIdx_sublist _ _).subset member)

theorem LogCovered.retask {next : Host ETag} (covered : host.LogCovered log) (wired : next.Wired)
    (sameView : next.engine.view = host.engine.view)
    (sameWrite : ∃ snapshots, next.engine.write =
      { host.engine.write with openSnapshots := snapshots })
    (sameLease : next.engine.lease = host.engine.lease)
    (sameHistory : next.history = host.history)
    (sameManifest : next.store.manifest = host.store.manifest)
    (sameFlushes : next.inFlightVersions = host.inFlightVersions)
    (compactions : ∀ task ∈ next.compactions, ∃ before ∈ host.compactions,
      before.pending = task.pending) : next.LogCovered log := by
  obtain ⟨snapshots, sameWrite⟩ := sameWrite
  refine ⟨covered.durable.retask wired (by rw [sameWrite]) sameHistory
    (by rw [walFile, sameWrite]; rfl) (by rw [tables, sameView]; rfl) sameManifest compactions,
    ?_, ?_, ?_, ?_, ?_⟩
  · rw [sameLease]; exact covered.valid
  · rw [Aligned, sameWrite]; exact covered.aligned
  · rw [sameView, sameFlushes]; exact covered.logExact
  · rw [tables, sameView]; exact covered.tablesOlder
  · intro task member
    obtain ⟨before, beforeMember, samePending⟩ := compactions task member
    rw [← samePending]
    exact covered.capturedOlder before beforeMember

theorem LogCovered.started (manifestEtag : Manifest → ETag) (leaseEtag : Lease → ETag)
    (token : Nat) : (start manifestEtag leaseEtag ⟨token, true⟩).LogCovered [] := by
  have noneLogged : committed ([] : List Commit) = ∅ := by
    ext version
    simp [committed]
  refine ⟨Durable.started _ _ _, rfl, rfl, ?_, ?_, ?_⟩
  · rw [noneLogged]
    ext version
    simp [inFlightVersions, EngineView.memVersions, start, LsmEngine.openEngine, Wal.replay,
      Wal.openFile, LsmEngine.replayInto]
  · rw [noneLogged]; exact Older.empty_right _
  · intro task member
    exact absurd member List.not_mem_nil

theorem inFlightVersions_set {index : Nat} {pending : PendingFlush} {built table : Option SSTable}
    (found : host.flushes[index]? = some ⟨pending, built⟩) {next : Host ETag}
    (flushes : next.flushes = host.flushes.set index ⟨pending, table⟩) :
    next.inFlightVersions = host.inFlightVersions := by
  have sameEntries := set_map_of_getElem? (fun task : FlushTask => task.pending.entries)
    host.flushes index _ ⟨pending, table⟩ found rfl
  have asMap : ∀ tasks : List FlushTask,
      {version | ∃ task ∈ tasks, version ∈ task.pending.entries.versions} =
        {version | ∃ entries ∈ tasks.map fun task => task.pending.entries,
          version ∈ entries.versions} := by
    intro tasks
    ext version
    simp
  rw [inFlightVersions, inFlightVersions, flushes, asMap, sameEntries, ← asMap]

theorem LogCovered.step [DecidableEq ETag] {next : Host ETag} (covered : host.LogCovered log)
    (action : Action) (succeeds : action.Succeeds) (covering : host.Covering action)
    (taken : host.step action = some next) : ∃ log, next.LogCovered log := by
  have sameTasks : ∀ task ∈ host.compactions, ∃ before ∈ host.compactions,
      before.pending = task.pending := fun task member => ⟨task, member, rfl⟩
  have wired := covered.durable.wired.step action
    (fun unreadable same => by subst same; exact absurd succeeds (by simp [Action.Succeeds])) taken
  cases action with
  | write failure entries =>
      obtain rfl : failure = none := succeeds
      obtain ⟨distinct, fits⟩ := covering
      rcases step_write taken with ⟨rfl, _⟩ | ⟨rfl, _⟩ | ⟨invalid, _⟩
      · exact ⟨_, covered.applied distinct fits⟩
      · exact ⟨_, (covered.applied distinct fits).frozen⟩
      · rw [covered.valid] at invalid
        exact absurd invalid (by simp)
  | snapshotNow =>
      rw [← Option.some.inj taken] at wired ⊢
      exact ⟨log, covered.retask wired rfl ⟨_, rfl⟩ rfl rfl rfl rfl sameTasks⟩
  | releaseSnapshot seq =>
      obtain ⟨snapshots, rfl⟩ := step_releaseSnapshot taken
      exact ⟨log, covered.retask wired rfl ⟨_, rfl⟩ rfl rfl rfl rfl sameTasks⟩
  | beginFlush =>
      rcases step_beginFlush taken with rfl | rfl
      · exact ⟨log, covered⟩
      · exact ⟨log, covered.frozen⟩
  | finishFlush index bloom putFails =>
      obtain ⟨pending, found, ⟨_, fails⟩ | rfl⟩ := step_finishFlush taken
      · exact absurd (succeeds.symm.trans fails) (by simp)
      · exact ⟨log, covered.retask wired rfl ⟨_, rfl⟩ rfl rfl rfl (inFlightVersions_set found rfl)
          sameTasks⟩
  | commitFlush index fault threshold =>
      obtain rfl : fault = none := succeeds
      obtain ⟨pending, table, segments, found, ⟨_, fails⟩ | ⟨_, done, rfl, rfl | rfl, _⟩⟩ :=
        step_commitFlush taken
      · rcases fails with fails | stale
        · exact absurd rfl fails
        · exact absurd covered.durable.wired.inSync stale
      · exact ⟨[], covered.flushed found covering⟩
      · exact ⟨[], (covered.flushed found covering).captured⟩
  | beginCompact =>
      rcases step_beginCompact taken with rfl | rfl
      · exact ⟨log, covered⟩
      · exact ⟨log, covered.captured⟩
  | finishCompact index bloom putFails =>
      obtain ⟨pending, found, ⟨_, fails⟩ | ⟨table, tableExact, rfl⟩⟩ := step_finishCompact taken
      · exact absurd (succeeds.symm.trans fails) (by simp)
      · exact ⟨log, covered.retask wired rfl ⟨_, rfl⟩ rfl rfl rfl rfl
          (mem_set_of_getElem? CompactTask.pending found rfl)⟩
  | commitCompact index saveFails deleteFails =>
      obtain ⟨pending, table, found, ⟨_, fails⟩ | ⟨_, objects, rfl, kept⟩⟩ := step_commitCompact taken
      · rcases fails with fails | stale
        · exact absurd (succeeds.symm.trans fails) (by simp)
        · exact absurd covered.durable.wired.inSync stale
      · exact ⟨log, covered.compacted found kept covering⟩
  | startRead key => exact absurd succeeds (by simp [Action.Succeeds])
  | endRead index => exact absurd succeeds (by simp [Action.Succeeds])
  | setLease lease => exact absurd succeeds (by simp [Action.Succeeds])
  | reopen unreadable => exact absurd succeeds (by simp [Action.Succeeds])

theorem LogCovered.reached [DecidableEq ETag] {manifestEtag : Manifest → ETag}
    {leaseEtag : Lease → ETag} {token : Nat}
    (reached : Reaches Host.step (fun host action => action.Succeeds ∧ host.Covering action)
      (start manifestEtag leaseEtag ⟨token, true⟩) host) : ∃ log, host.LogCovered log :=
  Reaches.invariant (fun host => ∃ log, host.LogCovered log) ⟨[], LogCovered.started _ _ _⟩
    (fun _ action _ ⟨_, covered⟩ ⟨succeeds, covering⟩ taken =>
      covered.step action succeeds covering taken) host reached

end Host

variable {ETag : Type} [DecidableEq ETag]

/-- After any run whose flushes commit only over a log they cover, an engine
reopened on what a crash leaves reads every acknowledged write. -/
theorem reopened_reads_acknowledged_writes (manifestEtag : Manifest → ETag)
    (leaseEtag : Lease → ETag) (token : Nat) (host : Host ETag)
    (reached : Reaches Host.step (fun host action => action.Succeeds ∧ host.Covering action)
      (Host.start manifestEtag leaseEtag ⟨token, true⟩) host) :
    ∀ key, Answers host.commits key (host.reopened fun _ => false).currentSeq
      ((host.reopened fun _ => false).readAt key (host.reopened fun _ => false).currentSeq) := by
  obtain ⟨log, covered⟩ := Host.LogCovered.reached reached
  intro key
  exact covered.durable.reopened_answers (fun id _ => rfl) key

/-- Two flushed tables, a third batch in the log and a compaction of the two. -/
def coveredRun : List Action :=
  [.write none [⟨"t", [1], some [7]⟩], .beginFlush, .finishFlush 0 Bloom.accepting false,
    .commitFlush 0 none 4, .write none [⟨"t", [2], some [7]⟩], .beginFlush,
    .finishFlush 0 Bloom.accepting false, .commitFlush 0 none 2,
    .write none [⟨"t", [1], some [8]⟩], .finishCompact 0 Bloom.accepting false,
    .commitCompact 0 false fun _ => false]

theorem reopened_reads_after_compaction :
    ∃ host, runChecked Host.step (fun host action => decide (action.Succeeds ∧ host.Covering action))
        Host.fresh coveredRun = some host ∧ host.listedIds = [3] ∧
      Answers host.commits [1] (host.reopened fun _ => false).currentSeq
        ((host.reopened fun _ => false).readAt [1] (host.reopened fun _ => false).currentSeq) := by
  have facts : (runChecked Host.step (fun host action => decide (action.Succeeds ∧ host.Covering action))
      Host.fresh coveredRun).map (fun host => host.listedIds) = some [3] := by
    decide +kernel
  obtain ⟨host, ran, exact⟩ := Option.map_eq_some_iff.mp facts
  have reached := runChecked_decided ran
  exact ⟨host, ran, exact, reopened_reads_acknowledged_writes some (fun _ => none) 1 host reached [1]⟩

def uncoveredRun : List Action :=
  [.write none [⟨"t", [1], some [7]⟩], .beginFlush, .write none [⟨"t", [2], some [8]⟩],
    .finishFlush 0 Bloom.accepting false, .commitFlush 0 none 4]

/-- The commit truncates the batch out of the log, and a crash loses it. -/
theorem reopened_loses_write_during_flush :
    ¬ ∀ host : Host (Option Manifest), Reaches Host.step (fun _ action => action.Succeeds)
        Host.fresh host →
      ∀ key, Answers host.commits key (host.reopened fun _ => false).currentSeq
        ((host.reopened fun _ => false).readAt key (host.reopened fun _ => false).currentSeq) := by
  intro claimed
  have facts : (runChecked Host.step (fun _ action => decide action.Succeeds) Host.fresh
      uncoveredRun).map (fun host => ((host.reopened fun _ => false).readAt [2] 2,
        (host.reopened fun _ => false).currentSeq, host.history)) =
      some (none, 2, [⟨1, [⟨"t", [1], some [7]⟩]⟩, ⟨2, [⟨"t", [2], some [8]⟩]⟩]) := by
    decide +kernel
  obtain ⟨host, ran, exact⟩ := Option.map_eq_some_iff.mp facts
  simp only [Prod.mk.injEq] at exact
  obtain ⟨read, current, history⟩ := exact
  have reached := runChecked_decided ran
  have newest : Newest host.commits [2] 2 ⟨[2], 2, some [8]⟩ := by
    rw [Host.commits, history]
    exact newest_of_listed (by decide)
  have answered := claimed host reached [2]
  rw [current] at answered
  have found := answered.1 _ newest
  rw [read] at found
  exact absurd found (by decide)

end Pantheon.Keystone
