import Mathlib
import Pantheon.Keystone.WalReplay
import Pantheon.Keystone.Wiring
import Pantheon.Keystone.Sources

/-!
# What reopening recovers

A crash drops everything in memory; the log file, the table objects and the
manifest stay.  `Durable` is the invariant of what stays: the log file holds
the encoding of a suffix of the history, the listed tables are ordered by id,
and log and tables together retain the latest version of every key.
-/

set_option autoImplicit false

namespace Pantheon.Keystone

open Pantheon.Lib

/-! ## Replaying a log of whole batches -/

def Commit.walBatch (commit : Commit) : WalBatch :=
  ⟨commit.seq, commit.entries.map BatchEntry.walEntry⟩

def logBytes (log : List Commit) : Bytes := encodeBatches (log.map Commit.walBatch)

theorem logBytes_append (front back : List Commit) :
    logBytes (front ++ back) = logBytes front ++ logBytes back := by
  simp [logBytes, encodeBatches]

theorem logBytes_singleton (commit : Commit) : logBytes [commit] = encodeBatch commit.walBatch := by
  simp [logBytes, encodeBatches]

theorem replayInto_walBatch (memtable : MemTable) (commit : Commit) :
    LsmEngine.replayInto memtable commit.walBatch.records =
      LsmEngine.insertBatch memtable commit.seq commit.entries := by
  simp only [LsmEngine.replayInto, LsmEngine.insertBatch, Commit.walBatch, WalBatch.records,
    List.map_map, List.foldl_map]
  rfl

theorem replayInto_append (memtable : MemTable) (front back : List WalRecord) :
    LsmEngine.replayInto memtable (front ++ back) =
      LsmEngine.replayInto (LsmEngine.replayInto memtable front) back :=
  List.foldl_append

theorem mem_replayInto_sub (version : Version Bytes Bytes) :
    ∀ (log : List Commit) (memtable : MemTable),
      version ∈ (LsmEngine.replayInto memtable
        ((log.map Commit.walBatch).flatMap WalBatch.records)).versions →
      version ∈ memtable.versions ∨ version ∈ committed log := by
  intro log
  induction log with
  | nil => intro memtable member; exact Or.inl member
  | cons commit log ih =>
      intro memtable member
      rw [List.map_cons, List.flatMap_cons, replayInto_append, replayInto_walBatch] at member
      rcases ih _ member with member | ⟨later, laterMember, held⟩
      · rcases mem_insertBatch_sub commit.seq version commit.entries memtable member with
          member | member
        · exact Or.inl member
        · exact Or.inr ⟨commit, List.mem_cons_self, member⟩
      · exact Or.inr ⟨later, List.mem_cons_of_mem _ laterMember, held⟩

/-- Replaying batches of distinct keys under increasing sequences recovers
exactly their versions. -/
theorem versions_replayInto : ∀ (log : List Commit) (memtable : MemTable),
    (∀ commit ∈ log, DistinctKeys commit.entries) →
    log.Pairwise (fun earlier later => earlier.seq < later.seq) →
    (∀ version ∈ memtable.versions, ∀ commit ∈ log, version.seq < commit.seq) →
    (LsmEngine.replayInto memtable ((log.map Commit.walBatch).flatMap WalBatch.records)).versions =
      memtable.versions ∪ committed log := by
  intro log
  induction log with
  | nil =>
      intro memtable _ _ _
      ext version
      simp [committed, LsmEngine.replayInto]
  | cons commit log ih =>
      intro memtable distinct increasing below
      obtain ⟨headBelow, restIncreasing⟩ := List.pairwise_cons.mp increasing
      have inserted : (LsmEngine.insertBatch memtable commit.seq commit.entries).versions =
          memtable.versions ∪ commit.versions := by
        refine versions_insertBatch commit.seq commit.entries memtable
          (distinct commit List.mem_cons_self) ?_
        intro held member sameSeq
        have := below held.version ⟨held, member, rfl⟩ commit List.mem_cons_self
        rw [Entry.version_seq] at this
        omega
      rw [List.map_cons, List.flatMap_cons, replayInto_append, replayInto_walBatch,
        ih _ (fun other member => distinct other (List.mem_cons_of_mem _ member)) restIncreasing,
        inserted, Set.union_assoc, ← committed_singleton, ← committed_append]
      · rfl
      · rw [inserted]
        rintro version (member | member) later laterMember
        · exact below version member later (List.mem_cons_of_mem _ laterMember)
        · rw [commit_seq_of_mem member]
          exact headBelow later laterMember

theorem versions_replayed (log : List Commit) (distinct : ∀ commit ∈ log, DistinctKeys commit.entries)
    (increasing : log.Pairwise fun earlier later => earlier.seq < later.seq) :
    (LsmEngine.replayInto (MemTable.new memtableMaxSize)
      ((log.map Commit.walBatch).flatMap WalBatch.records)).versions = committed log := by
  rw [versions_replayInto log _ distinct increasing]
  · rw [MemTable.new_versions, Set.empty_union]
  · intro version member
    rw [MemTable.new_versions] at member
    exact absurd member (Set.notMem_empty _)

/-! ## The opened engine -/

section Opened

variable {ETag : Type} (store : ObjectStore ETag) (lease : LeaseHandle) (unreadable : Nat → Bool)

theorem replay_logBytes (log : List Commit) (fits : ∀ commit ∈ log, commit.walBatch.Fits)
    (rest : Bytes) : replayFrom (logBytes log ++ rest) 0 =
      ((log.map Commit.walBatch).flatMap WalBatch.records ++
        (replayFrom rest (highestSeq 0 (log.map Commit.walBatch))).1,
        (replayFrom rest (highestSeq 0 (log.map Commit.walBatch))).2) := by
  refine replayFrom_encodeBatches _ rest 0 ?_
  intro batch member
  obtain ⟨commit, commitMember, rfl⟩ := List.mem_map.mp member
  exact fits commit commitMember

theorem opened_memtable (log : List Commit) (fits : ∀ commit ∈ log, commit.walBatch.Fits) :
    (LsmEngine.openEngine (logBytes log) store lease unreadable).view.memtable =
      LsmEngine.replayInto (MemTable.new memtableMaxSize)
        ((log.map Commit.walBatch).flatMap WalBatch.records) := by
  have replayed := replay_logBytes log fits []
  rw [List.append_nil, replayFrom_nil] at replayed
  simp only [LsmEngine.openEngine, Wal.replay, Wal.openFile, replayed, List.append_nil]

theorem opened_currentSeq (log : List Commit) (fits : ∀ commit ∈ log, commit.walBatch.Fits) :
    (∀ commit ∈ log, commit.seq ≤
      (LsmEngine.openEngine (logBytes log) store lease unreadable).currentSeq) ∧
    (store.manifest.getD Manifest.default).maxCommitSeq ≤
      (LsmEngine.openEngine (logBytes log) store lease unreadable).currentSeq := by
  have replayed := replay_logBytes log fits []
  rw [List.append_nil, replayFrom_nil] at replayed
  simp only [LsmEngine.currentSeq, LsmEngine.openEngine, Wal.replay, Wal.openFile, replayed,
    ObjectStore.loadManifest_getD, Nat.add_sub_cancel]
  refine ⟨fun commit member => ?_, le_max_right _ _⟩
  have logged := (le_highestSeq (log.map Commit.walBatch) 0).2 commit.walBatch
    (List.mem_map.mpr ⟨commit, member, rfl⟩)
  exact le_trans (le_trans logged (le_max_left _ _)) (le_max_left _ _)

end Opened

/-! ## What stays across a crash -/

namespace Host

variable {ETag : Type}

/-- The engine a crash and `LsmEngine::open` lead to. -/
def reopened (host : Host ETag) (unreadable : Nat → Bool) : LsmEngine ETag :=
  LsmEngine.openEngine host.walFile host.store host.engine.lease unreadable

def manifestMaxSeq (host : Host ETag) : Nat :=
  (host.store.manifest.getD Manifest.default).maxCommitSeq

structure Durable (host : Host ETag) (log : List Commit) : Prop where
  wired : host.Wired
  nextPos : 0 < host.engine.write.nextCommitSeq
  bounded : ∀ commit ∈ host.history, commit.seq < host.engine.write.nextCommitSeq
  increasing : host.history.Pairwise fun earlier later => earlier.seq < later.seq
  distinct : ∀ commit ∈ host.history, DistinctKeys commit.entries
  fits : ∀ commit ∈ log, commit.walBatch.Fits
  file : host.walFile = logBytes log
  suffix : log <:+ host.history
  tablesSubset : tableVersions host.tables ⊆ host.commits
  idOrdered : ∀ lower ∈ host.tables, ∀ upper ∈ host.tables, lower.id < upper.id →
    KeyOlder lower.versions upper.versions
  retains : RetainsLatest (committed log ∪ tableVersions host.tables) host.commits
  recorded : ∀ commit ∈ host.history, commit ∈ log ∨ commit.seq ≤ host.manifestMaxSeq
  captured : ∀ task ∈ host.compactions,
    tableVersions task.pending.sstables ⊆ host.commits ∧ host.Behind task.pending

theorem deterministic_of_increasing : ∀ history : List Commit,
    history.Pairwise (fun earlier later => earlier.seq < later.seq) →
    (∀ commit ∈ history, DistinctKeys commit.entries) → Deterministic (committed history) := by
  intro history
  induction history with
  | nil =>
      rintro _ _ left ⟨commit, member, _⟩
      exact absurd member List.not_mem_nil
  | cons commit history ih =>
      intro increasing distinct
      obtain ⟨headBelow, restIncreasing⟩ := List.pairwise_cons.mp increasing
      have rest := ih restIncreasing fun other member =>
        distinct other (List.mem_cons_of_mem _ member)
      rintro left ⟨leftCommit, leftMember, leftHeld⟩ right ⟨rightCommit, rightMember, rightHeld⟩
        sameKey sameSeq
      have leftSeq := commit_seq_of_mem leftHeld
      have rightSeq := commit_seq_of_mem rightHeld
      rcases List.mem_cons.mp leftMember with rfl | leftLater
      · rcases List.mem_cons.mp rightMember with rfl | rightLater
        · exact commit_deterministic (distinct _ List.mem_cons_self) left leftHeld right rightHeld
            sameKey sameSeq
        · have := headBelow rightCommit rightLater
          omega
      · rcases List.mem_cons.mp rightMember with rfl | rightLater
        · have := headBelow leftCommit leftLater
          omega
        · exact rest left ⟨leftCommit, leftLater, leftHeld⟩ right
            ⟨rightCommit, rightLater, rightHeld⟩ sameKey sameSeq

variable {host : Host ETag} {log : List Commit}

theorem Durable.det (durable : host.Durable log) : Deterministic host.commits :=
  deterministic_of_increasing host.history durable.increasing durable.distinct

theorem Durable.versionBounded (durable : host.Durable log) :
    ∀ version ∈ host.commits, version.seq < host.engine.write.nextCommitSeq := by
  rintro version ⟨commit, member, held⟩
  rw [commit_seq_of_mem held]
  exact durable.bounded commit member

theorem Durable.logSubset (durable : host.Durable log) : committed log ⊆ host.commits := by
  rintro version ⟨commit, member, held⟩
  exact ⟨commit, durable.suffix.subset member, held⟩

theorem Durable.keptSubset (durable : host.Durable log) :
    committed log ∪ tableVersions host.tables ⊆ host.commits :=
  Set.union_subset durable.logSubset durable.tablesSubset

/-- The log is a suffix of the history, so nothing committed is newer than one
of its versions without being in it. -/
theorem Durable.log_shadows (durable : host.Durable log) {below : Set (Version Bytes Bytes)}
    (subset : below ⊆ host.commits) : Shadows (committed log) below := by
  rintro upper ⟨upperCommit, upperMember, upperHeld⟩ lower lowerMember _ newer
  obtain ⟨lowerCommit, lowerCommitMember, lowerHeld⟩ := subset lowerMember
  obtain ⟨older, whole⟩ := durable.suffix
  have increasing := durable.increasing
  rw [← whole] at lowerCommitMember increasing
  rcases List.mem_append.mp lowerCommitMember with inOlder | inLog
  · have := (List.pairwise_append.mp increasing).2.2 lowerCommit inOlder upperCommit upperMember
    rw [commit_seq_of_mem upperHeld, commit_seq_of_mem lowerHeld] at newer
    omega
  · exact ⟨lowerCommit, inLog, lowerHeld⟩

theorem reopened_sorted (host : Host ETag) (unreadable : Nat → Bool) :
    (host.reopened unreadable).view.sstables.Pairwise fun left right => left.id ≤ right.id :=
  List.pairwise_insertionSort (fun left right : SSTable => left.id ≤ right.id) _

theorem Durable.reopened_answers (durable : host.Durable log) {unreadable : Nat → Bool}
    (readable : host.AllReadable unreadable) (key : Bytes) :
    Answers host.commits key (host.reopened unreadable).currentSeq
      ((host.reopened unreadable).readAt key (host.reopened unreadable).currentSeq) := by
  set engine := host.reopened unreadable with engineExact
  have perm : engine.view.sstables.Perm host.tables := durable.wired.reopened_tables readable
  have tablesExact : tableVersions engine.view.sstables = tableVersions host.tables := by
    refine Set.Subset.antisymm (tableVersions_mono fun table member => perm.mem_iff.mp member)
      (tableVersions_mono fun table member => perm.mem_iff.mpr member)
  have logIncreasing : log.Pairwise fun earlier later => earlier.seq < later.seq :=
    durable.increasing.sublist durable.suffix.sublist
  have memExact : engine.view.memVersions = committed log := by
    rw [EngineView.memVersions, engineExact, reopened, durable.file,
      opened_memtable _ _ _ log durable.fits]
    exact versions_replayed log
      (fun commit member => durable.distinct commit (durable.suffix.subset member)) logIncreasing
  have frozenExact : engine.view.frozenVersions = ∅ := EngineView.frozenVersions_none rfl
  have versionsExact : engine.view.versions = committed log ∪ tableVersions host.tables := by
    rw [EngineView.versions, memExact, frozenExact, tablesExact, Set.union_empty]
  have shadowed : engine.view.sources.Pairwise Shadows := by
    rw [EngineView.sources, memExact, frozenExact]
    refine List.pairwise_cons.mpr ⟨?_, List.pairwise_cons.mpr ⟨?_, ?_⟩⟩
    · intro source member
      refine durable.log_shadows ?_
      rcases List.mem_cons.mp member with rfl | member
      · exact Set.empty_subset _
      · obtain ⟨table, tableMember, rfl⟩ := List.mem_map.mp member
        have inView := perm.mem_iff.mp (List.mem_reverse.mp tableMember)
        exact fun version held => durable.tablesSubset ⟨table, inView, held⟩
    · intro source _ upper member
      exact absurd member (Set.notMem_empty _)
    · -- the ids are distinct, so sorted by id they increase strictly
      have nodup : (engine.view.sstables.map SSTable.id).Nodup :=
        (perm.map SSTable.id).nodup_iff.mpr durable.wired.tablesNodup
      rw [List.pairwise_map, List.pairwise_reverse]
      refine (keyOlder_of_sorted (host.reopened_sorted unreadable) nodup ?_).imp
        fun older => older.shadows
      intro lower lowerMember upper upperMember
      exact durable.idOrdered lower (perm.mem_iff.mp lowerMember) upper
        (perm.mem_iff.mp upperMember)
  have resolves := engine.view.readAt_resolves shadowed
  rw [versionsExact] at resolves
  have latest : ∀ version ∈ host.commits, version.seq ≤ engine.currentSeq := by
    rintro version ⟨commit, member, held⟩
    have started := opened_currentSeq host.store host.engine.lease unreadable log durable.fits
    rw [← durable.file] at started
    rw [commit_seq_of_mem held]
    rcases durable.recorded commit member with logged | recorded
    · exact started.1 commit logged
    · exact recorded.trans started.2
  rw [LsmEngine.readAt, EngineView.readAt_eq_firstHit]
  exact resolves.answers durable.keptSubset durable.det (durable.retains key _ latest)

/-! ## Effects -/

def Aligned (host : Host ETag) : Prop :=
  host.engine.write.wal.io.offset = host.engine.write.wal.io.file.length

instance (host : Host ETag) : Decidable host.Aligned :=
  inferInstanceAs (Decidable (host.engine.write.wal.io.offset =
    host.engine.write.wal.io.file.length))

theorem applied_io (entries : List BatchEntry) (aligned : host.Aligned) :
    (host.applied entries).engine.write.wal.io =
      ⟨host.walFile ++ encodeBatch (Commit.walBatch ⟨host.engine.write.nextCommitSeq, entries⟩),
        (host.walFile ++
          encodeBatch (Commit.walBatch ⟨host.engine.write.nextCommitSeq, entries⟩)).length⟩ :=
  appendBatch_io host.engine.write.wal _ aligned

theorem Durable.retask {next : Host ETag} (durable : host.Durable log) (wired : next.Wired)
    (sameNext : next.engine.write.nextCommitSeq = host.engine.write.nextCommitSeq)
    (sameHistory : next.history = host.history) (sameFile : next.walFile = host.walFile)
    (sameTables : next.tables = host.tables)
    (sameManifest : next.store.manifest = host.store.manifest)
    (compactions : ∀ task ∈ next.compactions, ∃ before ∈ host.compactions,
      before.pending = task.pending) : next.Durable log := by
  have sameCommits : next.commits = host.commits := by rw [commits, commits, sameHistory]
  have sameMax : next.manifestMaxSeq = host.manifestMaxSeq := by
    rw [manifestMaxSeq, manifestMaxSeq, sameManifest]
  refine ⟨wired, ?_, ?_, ?_, ?_, durable.fits, ?_, ?_, ?_, ?_, ?_, ?_, ?_⟩
  · rw [sameNext]; exact durable.nextPos
  · rw [sameNext, sameHistory]; exact durable.bounded
  · rw [sameHistory]; exact durable.increasing
  · rw [sameHistory]; exact durable.distinct
  · rw [sameFile]; exact durable.file
  · rw [sameHistory]; exact durable.suffix
  · rw [sameTables, sameCommits]; exact durable.tablesSubset
  · rw [sameTables]; exact durable.idOrdered
  · rw [sameTables, sameCommits]; exact durable.retains
  · rw [sameHistory, sameMax]; exact durable.recorded
  · intro task member
    obtain ⟨before, beforeMember, samePending⟩ := compactions task member
    rw [← samePending, sameCommits, Behind, Present, sameTables]
    exact durable.captured before beforeMember

theorem Durable.applied (durable : host.Durable log) {entries : List BatchEntry}
    (aligned : host.Aligned) (distinct : DistinctKeys entries)
    (fits : (Commit.walBatch ⟨host.engine.write.nextCommitSeq, entries⟩).Fits) :
    (host.applied entries).Durable (log ++ [⟨host.engine.write.nextCommitSeq, entries⟩]) := by
  set commit : Commit := ⟨host.engine.write.nextCommitSeq, entries⟩ with commitExact
  have commitsExact : (host.applied entries).commits = host.commits ∪ commit.versions :=
    applied_commits host entries
  have historyExact : (host.applied entries).history = host.history ++ [commit] := rfl
  refine ⟨durable.wired.applied entries, Nat.succ_pos _, ?_, ?_, ?_, ?_, ?_, ?_, ?_,
    durable.idOrdered, ?_, ?_, ?_⟩
  · rw [historyExact]
    intro other member
    rcases List.mem_append.mp member with member | member
    · exact (durable.bounded other member).trans (Nat.lt_succ_self _)
    · rw [List.mem_singleton.mp member]
      exact Nat.lt_succ_self _
  · rw [historyExact]
    refine List.pairwise_append.mpr ⟨durable.increasing, List.pairwise_singleton _ _, ?_⟩
    intro earlier earlierMember later laterMember
    rw [List.mem_singleton.mp laterMember]
    exact durable.bounded earlier earlierMember
  · rw [historyExact]
    intro other member
    rcases List.mem_append.mp member with member | member
    · exact durable.distinct other member
    · rw [List.mem_singleton.mp member]
      exact distinct
  · intro other member
    rcases List.mem_append.mp member with member | member
    · exact durable.fits other member
    · rw [List.mem_singleton.mp member]
      exact fits
  · rw [walFile, applied_io entries aligned, durable.file, logBytes_append, logBytes_singleton]
  · rw [historyExact]
    obtain ⟨older, whole⟩ := durable.suffix
    exact ⟨older, by rw [← List.append_assoc, whole]⟩
  · rw [commitsExact]
    exact durable.tablesSubset.trans Set.subset_union_left
  · have exactSeq : ∀ version ∈ commit.versions, version.seq = commit.seq :=
      fun version member => commit_seq_of_mem member
    have extended := durable.retains.extend durable.keptSubset durable.versionBounded
      durable.nextPos exactSeq
    rw [commitsExact, committed_append, committed_singleton, Set.union_assoc,
      Set.union_comm commit.versions, ← Set.union_assoc]
    exact extended
  · rw [historyExact]
    intro other member
    rcases List.mem_append.mp member with member | member
    · rcases durable.recorded other member with logged | recorded
      · exact Or.inl (List.mem_append_left _ logged)
      · exact Or.inr recorded
    · exact Or.inl (List.mem_append_right _ member)
  · intro task member
    obtain ⟨subset, behind⟩ := durable.captured task member
    exact ⟨commitsExact ▸ subset.trans Set.subset_union_left, behind⟩

theorem Durable.capturedNow (durable : host.Durable log) : host.captured.Durable log := by
  refine ⟨durable.wired.captured, durable.nextPos, durable.bounded, durable.increasing,
    durable.distinct, durable.fits, durable.file, durable.suffix, durable.tablesSubset,
    durable.idOrdered, durable.retains, durable.recorded, ?_⟩
  intro task member
  rcases mem_captured_compactions member with member | ⟨rfl, _⟩
  · exact durable.captured task member
  · exact ⟨durable.tablesSubset, fun _ table present => Or.inl present⟩

/-- A flush is installed and the log becomes `rest`, when the tables and `rest`
still retain the latest versions. -/
theorem Durable.flushed (durable : host.Durable log) {index : Nat}
    {segments : Nat → Option Bytes} {fault : Option TruncateFault} {pending : PendingFlush}
    {table : SSTable} (found : host.flushes[index]? = some ⟨pending, some table⟩)
    {rest : List Commit} (restFits : ∀ commit ∈ rest, commit.walBatch.Fits)
    (restFile : (host.engine.write.wal.truncate fault).1.io.file = logBytes rest)
    (restSuffix : rest <:+ host.history) (tableSubset : table.versions ⊆ host.commits)
    (older : Older (tableVersions host.tables) table.versions)
    (apart : ∀ live ∈ host.tables, table.id < live.id → KeysApart live.versions table.versions)
    (retains : RetainsLatest (committed rest ∪ (tableVersions host.tables ∪ table.versions))
      host.commits)
    (newer : ∀ task ∈ host.compactions,
      Older (tableVersions task.pending.sstables) table.versions) :
    (host.flushed index segments fault pending table).Durable rest := by
  have tablesExact : tableVersions (host.flushed index segments fault pending table).tables =
      tableVersions host.tables ∪ table.versions := by
    rw [← tableVersions_singleton, ← tableVersions_append]
    rfl
  refine ⟨durable.wired.flushed found, durable.nextPos, durable.bounded, durable.increasing,
    durable.distinct, restFits, restFile, restSuffix, ?_, ?_, ?_, ?_, ?_⟩
  · rw [tablesExact]
    exact Set.union_subset durable.tablesSubset tableSubset
  · intro lower lowerMember upper upperMember below
    rcases List.mem_append.mp lowerMember with lowerMember | lowerMember
    · rcases List.mem_append.mp upperMember with upperMember | upperMember
      · exact durable.idOrdered lower lowerMember upper upperMember below
      · rw [List.mem_singleton.mp upperMember]
        exact (EngineView.older_of_mem older lowerMember).keyOlder
    · rw [List.mem_singleton.mp lowerMember] at below ⊢
      rcases List.mem_append.mp upperMember with upperMember | upperMember
      · exact (apart upper upperMember below).symm.keyOlder
      · rw [List.mem_singleton.mp upperMember] at below
        exact absurd below (lt_irrefl _)
  · rw [tablesExact]
    exact retains
  · intro commit member
    exact Or.inr (Nat.le_sub_one_of_lt (durable.bounded commit member))
  · intro task member
    obtain ⟨subset, behind⟩ := durable.captured task member
    exact ⟨subset, behind.flushed durable.wired found member (newer task member)⟩

/-- A compaction is installed: the tables flushed since are newer, and those of
them that have a smaller id share no key with the merged table. -/
theorem Durable.compacted (durable : host.Durable log) {index : Nat}
    {objects : Nat → Option SSTable} {pending : PendingCompaction} {table : SSTable}
    (found : host.compactions[index]? = some ⟨pending, some table⟩)
    (kept : ∀ id, id ∉ pending.sstables.map SSTable.id → objects id = host.store.sst id)
    (present : host.Present pending)
    (apart : ∀ survivor ∈ host.survivors pending, survivor.id < table.id →
      KeysApart survivor.versions table.versions) :
    (host.compacted index objects pending table).Durable log := by
  have own := List.mem_of_getElem? found
  obtain ⟨captiveSubset, behind⟩ := durable.captured _ own
  have thinned := durable.wired.thinned own rfl durable.det captiveSubset
  have merged : table.versions ⊆ tableVersions pending.sstables := thinned.subset
  have split := durable.wired.tables_split present
  have newer := behind.survivors_newer present
  have tablesExact : tableVersions (host.compacted index objects pending table).tables =
      tableVersions (host.survivors pending) ∪ table.versions := by
    rw [← tableVersions_singleton, ← tableVersions_append]
    rfl
  have survivorsSubset : tableVersions (host.survivors pending) ⊆ host.commits :=
    fun version held => durable.tablesSubset (split ▸ Or.inl held)
  have keptExact : committed log ∪ tableVersions host.tables =
      committed log ∪ tableVersions (host.survivors pending) ∪ tableVersions pending.sstables := by
    rw [split, Set.union_assoc]
  refine ⟨durable.wired.compacted found kept, durable.nextPos, durable.bounded, durable.increasing,
    durable.distinct, durable.fits, durable.file, durable.suffix, ?_, ?_, ?_, ?_, ?_⟩
  · rw [tablesExact]
    exact Set.union_subset survivorsSubset (merged.trans captiveSubset)
  · intro lower lowerMember upper upperMember below
    rcases List.mem_append.mp lowerMember with lowerMember | lowerMember
    · rcases List.mem_append.mp upperMember with upperMember | upperMember
      · exact durable.idOrdered lower (mem_survivors.mp lowerMember).1 upper
          (mem_survivors.mp upperMember).1 below
      · rw [List.mem_singleton.mp upperMember] at below ⊢
        exact (apart lower lowerMember below).keyOlder
    · rw [List.mem_singleton.mp lowerMember] at below ⊢
      rcases List.mem_append.mp upperMember with upperMember | upperMember
      · refine Older.keyOlder (newer.mono merged ?_)
        exact fun version held => ⟨upper, upperMember, held⟩
      · rw [List.mem_singleton.mp upperMember] at below
        exact absurd below (lt_irrefl _)
  · rw [tablesExact, ← Set.union_assoc]
    refine RetainsLatest.replace (keptExact ▸ durable.retains) (keptExact ▸ durable.keptSubset)
      durable.det thinned ?_
    exact (durable.log_shadows captiveSubset).union_left newer.keyOlder.shadows
  · intro commit member
    exact Or.inr (Nat.le_sub_one_of_lt (durable.bounded commit member))
  · intro task member
    have before : task ∈ host.compactions := (List.eraseIdx_sublist _ _).subset member
    obtain ⟨subset, taskBehind⟩ := durable.captured task before
    exact ⟨subset, taskBehind.compacted durable.wired found present merged before⟩

theorem Durable.started (manifestEtag : Manifest → ETag) (leaseEtag : Lease → ETag)
    (lease : LeaseHandle) : (start manifestEtag leaseEtag lease).Durable [] := by
  have noTables : tableVersions (start manifestEtag leaseEtag lease).tables = ∅ := by
    ext version
    simp [tableVersions, tables, start, LsmEngine.openEngine, ObjectStore.empty,
      ObjectStore.loadManifest, Manifest.default]
  have noCommits : (start manifestEtag leaseEtag lease).commits = ∅ := by
    ext version
    simp [commits, start, committed]
  refine ⟨Wired.started _ _ _, Nat.succ_pos _, ?_, List.Pairwise.nil, ?_, ?_, rfl,
    List.suffix_refl _, ?_, ?_, ?_, ?_, ?_⟩
  · exact List.forall_mem_nil _
  · exact List.forall_mem_nil _
  · exact List.forall_mem_nil _
  · rw [noTables]
    exact Set.empty_subset _
  · exact List.forall_mem_nil _
  · intro key cutoff _ version newest
    rw [noCommits] at newest
    exact absurd newest.mem (Set.notMem_empty _)
  · exact List.forall_mem_nil _
  · exact List.forall_mem_nil _

end Host

end Pantheon.Keystone
