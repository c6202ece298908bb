import Mathlib
import Pantheon.Keystone.LiveReads
import Pantheon.Keystone.Durability

/-!
# Flushes that fail

Any upload, manifest swap or log truncation of a flush may fail.  The frozen
rows then stand in the immutable slot and in the log, and nothing is lost as
long as no later flush freezes over the slot, a flush that truncates the log
does so with nothing written since it began, and no batch is appended where a
failed truncation left the append position behind the end of the file.
-/

set_option autoImplicit false

namespace Pantheon.Keystone

open Pantheon.Lib

namespace Host

variable {ETag : Type}

def EmptiesLog (fault : Option LsmEngine.CommitFlushFault) : Prop :=
  fault = none ∨ fault = some (.truncate .sync)

instance (fault : Option LsmEngine.CommitFlushFault) : Decidable (EmptiesLog fault) :=
  inferInstanceAs (Decidable (fault = none ∨ fault = some (.truncate .sync)))

def Installs (fault : Option LsmEngine.CommitFlushFault) : Prop :=
  EmptiesLog fault ∨ fault = some (.truncate .setLen)

instance (fault : Option LsmEngine.CommitFlushFault) : Decidable (Installs fault) :=
  inferInstanceAs (Decidable (EmptiesLog fault ∨ fault = some (.truncate .setLen)))

/-- A flush that empties the log was the last to see a write, and one that is
installed shares no key with a table of a larger id. -/
def MayCommit (host : Host ETag) (index : Nat) (fault : Option LsmEngine.CommitFlushFault) : Prop :=
  match host.flushes[index]? with
  | some ⟨pending, some table⟩ =>
      (EmptiesLog fault → host.engine.view.memtable.toEntries.entries = []) ∧
        (Installs fault → ∀ live ∈ host.tables, pending.sstableId < live.id →
          live.SharesNoKey table)
  | _ => True

instance (host : Host ETag) (index : Nat) (fault : Option LsmEngine.CommitFlushFault) :
    Decidable (host.MayCommit index fault) := by
  unfold MayCommit
  rcases host.flushes[index]? with _ | ⟨pending, _ | table⟩ <;> infer_instance

def Guarded (host : Host ETag) : Action → Prop
  | .write failure entries => host.Careful (.write failure entries) ∧ host.FitsLog entries ∧
      host.Aligned
  | .beginFlush => host.SlotFree
  | .commitFlush index fault _ => host.MayCommit index fault
  | .commitCompact index _ _ => host.MayCompact index
  | .setLease _ => False
  | .reopen _ => False
  | _ => True

instance (host : Host ETag) (action : Action) : Decidable (host.Guarded action) := by
  induction action using Action.casesOn <;> (dsimp only [Guarded]; infer_instance)

theorem Guarded.careful {host : Host ETag} {action : Action} (guarded : host.Guarded action) :
    host.Careful action := by
  cases action with
  | write failure entries => exact guarded.1
  | beginFlush => exact guarded
  | commitCompact index saveFails deleteFails => exact guarded
  | setLease lease => exact absurd guarded (by simp [Guarded])
  | reopen unreadable => exact absurd guarded (by simp [Guarded])
  | _ => trivial

/-- A live engine whose rows in memory are all in the log. -/
structure Logged (host : Host ETag) (log : List Commit) : Prop where
  live : host.Live
  durable : host.Durable log
  memLogged : host.engine.view.memVersions ⊆ committed log
  frozenLogged : host.engine.view.frozenVersions ⊆ committed log

variable {host : Host ETag} {log : List Commit}

theorem logBytes_eq_nil {log : List Commit} (empty : logBytes log = []) : log = [] := by
  cases log with
  | nil => rfl
  | cons commit rest =>
      exact absurd (congrArg List.length empty) (by simp [logBytes, encodeBatches, encodeBatch])

/-- With nothing written since it began, an installed flush leaves tables that
retain the latest versions by themselves. -/
theorem Logged.retains_without_log (logged : host.Logged log)
    (noMem : host.engine.view.memVersions = ∅) :
    RetainsLatest (tableVersions host.tables ∪ host.engine.view.frozenVersions) host.commits := by
  intro key cutoff above
  have current := logged.live.retains key host.engine.currentSeq (Or.inl rfl)
  have viewExact : host.engine.view.versions =
      tableVersions host.tables ∪ host.engine.view.frozenVersions := by
    rw [EngineView.versions, noMem, Set.empty_union, Set.union_comm]
    rfl
  rw [viewExact] at current
  exact current.of_bounded (viewExact ▸ logged.live.subset)
    (fun version member => Nat.le_sub_one_of_lt (logged.live.bounded version member)) above

theorem frozenVersions_nonempty (nonempty : host.frozenRows ≠ []) :
    ∃ version, version ∈ host.engine.view.frozenVersions := by
  unfold frozenRows at nonempty
  cases occupied : host.engine.view.immutable with
  | none =>
      rw [occupied] at nonempty
      exact absurd rfl nonempty
  | some frozen =>
      simp only [occupied] at nonempty
      obtain ⟨entry, member⟩ := List.exists_mem_of_ne_nil _ nonempty
      exact ⟨entry.version, frozen, occupied, entry, member, rfl⟩

theorem Logged.installed (logged : host.Logged log) {index : Nat} {segments : Nat → Option Bytes}
    {fault : Option TruncateFault} {pending : PendingFlush} {table : SSTable}
    (found : host.flushes[index]? = some ⟨pending, some table⟩)
    (apart : ∀ live ∈ host.tables, pending.sstableId < live.id → live.SharesNoKey table)
    {rest : List Commit} (restFits : ∀ commit ∈ rest, commit.walBatch.Fits)
    (restFile : (host.engine.write.wal.truncate fault).1.io.file = logBytes rest)
    (restSuffix : rest <:+ host.history)
    (retains : RetainsLatest (committed rest ∪
      (tableVersions host.tables ∪ host.engine.view.frozenVersions)) host.commits)
    (memLogged : host.engine.view.memVersions ⊆ committed rest) :
    (host.flushed index segments fault pending table).Logged rest := by
  obtain ⟨_, _, tableExact, _⟩ := logged.live.flushing found
  obtain ⟨idExact, _, _⟩ := logged.live.wired.builtFlush _ (List.mem_of_getElem? found) table rfl
  have frozenExact : (host.flushed index segments fault pending table).engine.view.frozenVersions =
      ∅ := EngineView.frozenVersions_none rfl
  refine ⟨logged.live.flushed found, logged.durable.flushed found restFits restFile restSuffix
    ?_ ?_ ?_ ?_ ?_, memLogged, ?_⟩
  · rw [tableExact]
    exact fun version held => logged.live.subset (Or.inl (Or.inr held))
  · rw [tableExact]
    exact logged.live.ordered.tablesOlderFrozen
  · intro live member larger
    exact (apart live member (idExact ▸ larger)).keysApart
  · rw [tableExact]
    exact retains
  · intro task member
    rw [tableExact]
    exact (logged.live.capturing task member).olderFrozen
  · rw [frozenExact]
    exact Set.empty_subset _

theorem Logged.flushed (logged : host.Logged log) {index : Nat} {segments : Nat → Option Bytes}
    {fault : Option LsmEngine.CommitFlushFault} {pending : PendingFlush} {table : SSTable}
    (found : host.flushes[index]? = some ⟨pending, some table⟩)
    (may : host.MayCommit index fault)
    (reached : fault = none ∨ (∃ truncateFault, fault = some (.truncate truncateFault)) ∨
      fault = some .putSegment ∧ host.walFile = []) :
    ∃ rest, (host.flushed index segments (LsmEngine.CommitFlushFault.truncateFault fault) pending
      table).Logged rest := by
  simp only [MayCommit, found] at may
  obtain ⟨lastWrite, apart⟩ := may
  have noneLeft : committed ([] : List Commit) = ∅ := by
    ext version
    simp [committed]
  have emptied : EmptiesLog fault → ∀ truncateFault,
      (host.engine.write.wal.truncate truncateFault).1.io.file = [] →
      (host.flushed index segments truncateFault pending table).Logged [] := by
    intro empties truncateFault emptyFile
    have noMem : host.engine.view.memVersions = ∅ := by
      rw [EngineView.memVersions, MemTable.versions, SortedRun.versions, lastWrite empties,
        versionsOf_nil]
    refine logged.installed found (apart (Or.inl empties))
      (fun commit member => absurd member List.not_mem_nil) emptyFile List.nil_suffix ?_ ?_
    · rw [noneLeft, Set.empty_union]
      exact logged.retains_without_log noMem
    · rw [noMem]
      exact Set.empty_subset _
  rcases reached with rfl | ⟨truncateFault, rfl⟩ | ⟨rfl, noLog⟩
  · exact ⟨[], emptied (Or.inl rfl) none rfl⟩
  · cases truncateFault with
    | sync => exact ⟨[], emptied (Or.inr rfl) (some .sync) rfl⟩
    | setLen =>
        -- the log keeps the frozen rows, so the table adds nothing to it
        refine ⟨log, logged.installed found (apart (Or.inr rfl)) logged.durable.fits
          logged.durable.file logged.durable.suffix ?_ logged.memLogged⟩
        rw [Set.union_comm (tableVersions host.tables), ← Set.union_assoc,
          Set.union_eq_self_of_subset_right logged.frozenLogged]
        exact logged.durable.retains
  · -- an empty log has nothing frozen that could be in flight
    obtain ⟨_, _, _, nonempty⟩ := logged.live.flushing found
    obtain ⟨version, frozen⟩ := frozenVersions_nonempty nonempty
    have noCommits := logged.frozenLogged frozen
    rw [logBytes_eq_nil (logged.durable.file.symm.trans noLog), noneLeft] at noCommits
    exact absurd noCommits (Set.notMem_empty _)

theorem Logged.applied (logged : host.Logged log) {entries : List BatchEntry}
    (distinct : DistinctKeys entries) (fits : host.FitsLog entries) (aligned : host.Aligned) :
    (host.applied entries).Logged (log ++ [⟨host.engine.write.nextCommitSeq, entries⟩]) := by
  have grown : committed log ⊆
      committed (log ++ [⟨host.engine.write.nextCommitSeq, entries⟩]) := by
    rw [committed_append]
    exact Set.subset_union_left
  refine ⟨logged.live.applied distinct, logged.durable.applied aligned distinct fits, ?_,
    logged.frozenLogged.trans grown⟩
  intro version member
  rcases mem_insertBatch_sub _ version entries _ member with member | member
  · exact grown (logged.memLogged member)
  · rw [committed_append, committed_singleton]
    exact Or.inr member

theorem Logged.frozen (logged : host.Logged log) (free : host.SlotFree) :
    host.frozen.Logged log := by
  refine ⟨logged.live.frozen free, logged.durable.retask logged.live.wired.frozen rfl rfl rfl rfl rfl
    fun task member => ⟨task, member, rfl⟩, ?_, ?_⟩
  · have noMem : host.frozen.engine.view.memVersions = ∅ := MemTable.new_versions _
    rw [noMem]
    exact Set.empty_subset _
  · have frozenExact : host.frozen.engine.view.frozenVersions = host.engine.view.memVersions :=
      EngineView.frozenVersions_some rfl
    rw [frozenExact]
    exact logged.memLogged

theorem Logged.captured (logged : host.Logged log) : host.captured.Logged log :=
  ⟨logged.live.captured, logged.durable.capturedNow, logged.memLogged, logged.frozenLogged⟩

theorem Logged.retask {next : Host ETag} (logged : host.Logged log) (live : next.Live)
    (sameView : next.engine.view = host.engine.view)
    (sameWrite : ∃ snapshots, next.engine.write =
      { host.engine.write with openSnapshots := snapshots })
    (sameHistory : next.history = host.history)
    (sameManifest : next.store.manifest = host.store.manifest)
    (compactions : ∀ task ∈ next.compactions, ∃ before ∈ host.compactions,
      before.pending = task.pending) : next.Logged log := by
  obtain ⟨snapshots, sameWrite⟩ := sameWrite
  refine ⟨live, logged.durable.retask live.wired (by rw [sameWrite]) sameHistory
    (by rw [walFile, sameWrite]; rfl) (by rw [tables, sameView]; rfl) sameManifest compactions,
    ?_, ?_⟩
  · rw [sameView]; exact logged.memLogged
  · rw [sameView]; exact logged.frozenLogged

theorem Logged.step [DecidableEq ETag] {next : Host ETag} (logged : host.Logged log)
    (action : Action) (guarded : host.Guarded action) (taken : host.step action = some next) :
    ∃ log, next.Logged log := by
  have sameTasks : ∀ task ∈ host.compactions, ∃ before ∈ host.compactions,
      before.pending = task.pending := fun task member => ⟨task, member, rfl⟩
  have live := logged.live.step action guarded.careful taken
  cases action with
  | write failure entries =>
      obtain ⟨⟨rfl, distinct, free⟩, fits, aligned⟩ := guarded
      rcases step_write taken with ⟨rfl, _⟩ | ⟨rfl, full⟩ | ⟨invalid, _⟩
      · exact ⟨_, logged.applied distinct fits aligned⟩
      · exact ⟨_, (logged.applied distinct fits aligned).frozen (free full)⟩
      · rw [logged.live.valid] at invalid
        exact absurd invalid (by simp)
  | snapshotNow =>
      rw [← Option.some.inj taken] at live ⊢
      exact ⟨log, logged.retask live rfl ⟨_, rfl⟩ rfl rfl sameTasks⟩
  | releaseSnapshot seq =>
      obtain ⟨snapshots, rfl⟩ := step_releaseSnapshot taken
      exact ⟨log, logged.retask live rfl ⟨_, rfl⟩ rfl rfl sameTasks⟩
  | beginFlush =>
      rcases step_beginFlush taken with rfl | rfl
      · exact ⟨log, logged⟩
      · exact ⟨log, logged.frozen guarded⟩
  | finishFlush index bloom putFails =>
      obtain ⟨pending, found, ⟨rfl, _⟩ | rfl⟩ := step_finishFlush taken
      · exact ⟨log, logged.retask live rfl ⟨_, rfl⟩ rfl rfl sameTasks⟩
      · exact ⟨log, logged.retask live rfl ⟨_, rfl⟩ rfl rfl sameTasks⟩
  | commitFlush index fault threshold =>
      obtain ⟨pending, table, segments, found, ⟨rfl, _⟩ | ⟨_, done, rfl, outcome, reached⟩⟩ :=
        step_commitFlush taken
      · exact ⟨log, logged.retask live rfl ⟨_, rfl⟩ rfl rfl sameTasks⟩
      · obtain ⟨rest, installed⟩ := logged.flushed found guarded reached
        rcases outcome with rfl | rfl
        · exact ⟨rest, installed⟩
        · exact ⟨rest, installed.captured⟩
  | beginCompact =>
      rcases step_beginCompact taken with rfl | rfl
      · exact ⟨log, logged⟩
      · exact ⟨log, logged.captured⟩
  | finishCompact index bloom putFails =>
      obtain ⟨pending, found, ⟨rfl, _⟩ | ⟨table, tableExact, rfl⟩⟩ := step_finishCompact taken
      · refine ⟨log, logged.retask live rfl ⟨_, rfl⟩ rfl rfl fun task member => ?_⟩
        exact ⟨task, (List.eraseIdx_sublist _ _).subset member, rfl⟩
      · exact ⟨log, logged.retask live rfl ⟨_, rfl⟩ rfl rfl
          (mem_set_of_getElem? CompactTask.pending found rfl)⟩
  | commitCompact index saveFails deleteFails =>
      obtain ⟨pending, table, found, ⟨rfl, _⟩ | ⟨_, objects, rfl, kept⟩⟩ := step_commitCompact taken
      · refine ⟨log, logged.retask live rfl ⟨_, rfl⟩ rfl rfl fun task member => ?_⟩
        exact ⟨task, (List.eraseIdx_sublist _ _).subset member, rfl⟩
      · simp only [Guarded, MayCompact, found] at guarded
        obtain ⟨allListed, apart, _⟩ := guarded
        have present := logged.live.wired.present_of_allListed (List.mem_of_getElem? found) allListed
        exact ⟨log, live, logged.durable.compacted found kept present
          (fun survivor member _ => (apart survivor member).keysApart), logged.memLogged,
          logged.frozenLogged⟩
  | startRead key | endRead index =>
      rw [← Option.some.inj taken] at live ⊢
      exact ⟨log, logged.retask live rfl ⟨_, rfl⟩ rfl rfl sameTasks⟩
  | setLease lease => exact absurd guarded (by simp [Guarded])
  | reopen unreadable => exact absurd guarded (by simp [Guarded])

theorem Logged.started (manifestEtag : Manifest → ETag) (leaseEtag : Lease → ETag) (token : Nat) :
    (start manifestEtag leaseEtag ⟨token, true⟩).Logged [] := by
  refine ⟨Live.started _ _ _, Durable.started _ _ _, ?_, ?_⟩
  · intro version member
    have empty : (start manifestEtag leaseEtag ⟨token, true⟩).engine.view.memVersions = ∅ := by
      simp [EngineView.memVersions, start, LsmEngine.openEngine, Wal.replay, Wal.openFile,
        LsmEngine.replayInto]
    rw [empty] at member
    exact absurd member (Set.notMem_empty _)
  · have empty : (start manifestEtag leaseEtag ⟨token, true⟩).engine.view.frozenVersions = ∅ :=
      EngineView.frozenVersions_none rfl
    rw [empty]
    exact Set.empty_subset _

end Host

/-- The steps of a process in which only flushes fail. -/
def Action.OnlyFlushesFail : Action → Prop
  | .write failure _ => failure = none
  | .finishCompact _ _ putFails => putFails = false
  | .commitCompact _ saveFails _ => saveFails = false
  | .startRead _ => False
  | .endRead _ => False
  | .setLease _ => False
  | .reopen _ => False
  | _ => True

instance (action : Action) : Decidable action.OnlyFlushesFail := by
  induction action using Action.casesOn <;> (dsimp only [Action.OnlyFlushesFail]; infer_instance)

variable {ETag : Type} [DecidableEq ETag]

/-- Whatever flush steps fail, in a guarded run every acknowledged write is
read by the running engine and by one reopened after a crash. -/
theorem failed_flush_loses_nothing (manifestEtag : Manifest → ETag) (leaseEtag : Lease → ETag)
    (token : Nat) (host : Host ETag)
    (reached : Reaches Host.step (fun host action => action.OnlyFlushesFail ∧ host.Guarded action)
      (Host.start manifestEtag leaseEtag ⟨token, true⟩) host) :
    ∀ key, Answers host.commits key host.engine.currentSeq
        (host.engine.readAt key host.engine.currentSeq) ∧
      Answers host.commits key (host.reopened fun _ => false).currentSeq
        ((host.reopened fun _ => false).readAt key (host.reopened fun _ => false).currentSeq) := by
  obtain ⟨log, logged⟩ := Reaches.invariant (fun host => ∃ log, host.Logged log)
    ⟨[], Host.Logged.started _ _ _⟩
    (fun host action next ⟨log, logged⟩ ⟨_, guarded⟩ taken => logged.step action guarded taken)
    host reached
  intro key
  exact ⟨logged.live.answers (Or.inl rfl),
    logged.durable.reopened_answers (fun id _ => rfl) key⟩

def guardedFailures : List Action :=
  [.write none [⟨"t", [1], some [7]⟩], .beginFlush, .finishFlush 0 Bloom.accepting false,
    .commitFlush 0 (some (.truncate .setLen)) 4, .write none [⟨"t", [2], some [7]⟩], .beginFlush,
    .finishFlush 0 Bloom.accepting true, .write none [⟨"t", [1], some [8]⟩]]

theorem failed_flushes_keep_writes :
    ∃ host, runChecked Host.step
        (fun host action => decide (action.OnlyFlushesFail ∧ host.Guarded action)) Host.fresh
        guardedFailures = some host ∧ host.listedIds = [1] ∧
      Answers host.commits [2] host.engine.currentSeq
        (host.engine.readAt [2] host.engine.currentSeq) := by
  have facts : (runChecked Host.step
      (fun host action => decide (action.OnlyFlushesFail ∧ host.Guarded action)) Host.fresh
      guardedFailures).map (fun host => host.listedIds) = some [1] := by
    decide +kernel
  obtain ⟨host, ran, exact⟩ := Option.map_eq_some_iff.mp facts
  have reached := runChecked_decided ran
  exact ⟨host, ran, exact, (failed_flush_loses_nothing some (fun _ => none) 1 host reached [2]).1⟩

/-- An upload fails, and the next flush freezes over the slot and commits. -/
def overwrittenSlot : List Action :=
  [.write none [⟨"t", [1], some [7]⟩], .beginFlush, .finishFlush 0 Bloom.accepting true,
    .write none [⟨"t", [2], some [8]⟩], .beginFlush, .finishFlush 0 Bloom.accepting false,
    .commitFlush 0 none 4]

/-- The first batch is neither in the engine nor on disk. -/
theorem failed_flush_loses_frozen_rows :
    ¬ ∀ host : Host (Option Manifest), Reaches Host.step (fun _ action => action.OnlyFlushesFail)
        Host.fresh host →
      ∀ key, Answers host.commits key host.engine.currentSeq
          (host.engine.readAt key host.engine.currentSeq) ∧
        Answers host.commits key (host.reopened fun _ => false).currentSeq
          ((host.reopened fun _ => false).readAt key (host.reopened fun _ => false).currentSeq) := by
  intro claimed
  have facts : (runChecked Host.step (fun _ action => decide action.OnlyFlushesFail) Host.fresh
      overwrittenSlot).map (fun host => (host.engine.readAt [1] 2, host.engine.currentSeq,
        host.history)) =
      some (none, 2, [⟨1, [⟨"t", [1], some [7]⟩]⟩, ⟨2, [⟨"t", [2], some [8]⟩]⟩]) := by
    decide +kernel
  obtain ⟨host, ran, exact⟩ := Option.map_eq_some_iff.mp facts
  simp only [Prod.mk.injEq] at exact
  obtain ⟨read, current, history⟩ := exact
  have reached := runChecked_decided ran
  have newest : Newest host.commits [1] 2 ⟨[1], 1, some [7]⟩ := by
    rw [Host.commits, history]
    exact newest_of_listed (by decide)
  have answered := (claimed host reached [1]).1
  rw [current] at answered
  have found := answered.1 _ newest
  rw [read] at found
  exact absurd found (by decide)

end Pantheon.Keystone
