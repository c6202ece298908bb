import Mathlib
import Pantheon.Keystone.Durability

/-!
# The order of the sources

`read_at` stops at the first source with a visible version, so on every key
each source has to be newer than all that are probed after it.  `SourceOrdered`
is the invariant of one process across restarts that gives this: what is in
memory is newer than every table, a flush in flight is newer than the tables
and flushes with smaller ids, and the tables age by their place in the view as
well as by id, the order that reopening and refreshing put them in.
-/

set_option autoImplicit false

namespace Pantheon.Keystone

open Pantheon.Lib

namespace Host

variable {ETag : Type}

/-- The committing flush shares no key with a table of a larger id. -/
def CommitsInOrder (host : Host ETag) (index : Nat) : Prop :=
  match host.flushes[index]? with
  | some ⟨pending, some table⟩ =>
      ∀ live ∈ host.tables, pending.sstableId < live.id → live.SharesNoKey table
  | _ => True

instance (host : Host ETag) (index : Nat) : Decidable (host.CommitsInOrder index) := by
  unfold CommitsInOrder
  rcases host.flushes[index]? with _ | ⟨pending, _ | table⟩ <;> infer_instance

/-- The committing compaction shares no key with a table that survives it. -/
def MergesApart (host : Host ETag) (index : Nat) : Prop :=
  match host.compactions[index]? with
  | some ⟨pending, some table⟩ => ∀ survivor ∈ host.survivors pending, survivor.SharesNoKey table
  | _ => True

instance (host : Host ETag) (index : Nat) : Decidable (host.MergesApart index) := by
  unfold MergesApart
  rcases host.compactions[index]? with _ | ⟨pending, _ | table⟩ <;> infer_instance

/-- The versions of the tables and of everything captured for a compaction. -/
def published (host : Host ETag) : Set (Version Bytes Bytes) :=
  tableVersions host.tables ∪
    {version | ∃ task ∈ host.compactions, version ∈ tableVersions task.pending.sstables}

def settled (host : Host ETag) : Set (Version Bytes Bytes) :=
  host.engine.view.frozenVersions ∪ host.inFlightVersions ∪ host.published

structure SourceOrdered (host : Host ETag) (log : List Commit) : Prop where
  wired : host.Wired
  fits : ∀ commit ∈ log, commit.walBatch.Fits
  file : host.walFile = logBytes log
  aligned : host.Aligned
  bounded : ∀ version ∈ host.settled ∪ host.engine.view.memVersions ∪ committed log,
    version.seq < host.engine.write.nextCommitSeq
  recorded : ∀ version ∈ tableVersions host.tables, version.seq ≤ host.manifestMaxSeq
  settledOlder : Older host.settled host.engine.view.memVersions
  frozenNewer : Older host.published host.engine.view.frozenVersions
  logNewer : Older host.published (committed log)
  flushesOrdered : ∀ lower ∈ host.flushes, ∀ upper ∈ host.flushes,
    lower.pending.sstableId < upper.pending.sstableId →
      Older lower.pending.entries.versions upper.pending.entries.versions
  tablesBelowFlush : ∀ table ∈ host.tables, ∀ flush ∈ host.flushes,
    table.id < flush.pending.sstableId → Older table.versions flush.pending.entries.versions
  capturedBelowFlush : ∀ task ∈ host.compactions, ∀ flush ∈ host.flushes,
    task.pending.newId < flush.pending.sstableId →
      Older (tableVersions task.pending.sstables) flush.pending.entries.versions
  capturedBelow : ∀ task ∈ host.compactions, ∀ table ∈ task.pending.sstables,
    table.id < task.pending.newId
  viewOrdered : host.tables.Pairwise fun earlier later => KeyOlder earlier.versions later.versions
  idOrdered : ∀ lower ∈ host.tables, ∀ upper ∈ host.tables, lower.id < upper.id →
    KeyOlder lower.versions upper.versions

variable {host next : Host ETag} {log : List Commit}

theorem tables_published (host : Host ETag) : tableVersions host.tables ⊆ host.published :=
  Set.subset_union_left

theorem captured_published {task : CompactTask} (member : task ∈ host.compactions) :
    tableVersions task.pending.sstables ⊆ host.published :=
  fun _ held => Or.inr ⟨task, member, held⟩

theorem published_settled (host : Host ETag) : host.published ⊆ host.settled :=
  Set.subset_union_right

theorem flush_settled {task : FlushTask} (member : task ∈ host.flushes) :
    task.pending.entries.versions ⊆ host.settled :=
  fun _ held => Or.inl (Or.inr ⟨task, member, held⟩)

theorem SourceOrdered.view (ordered : host.SourceOrdered log) : host.engine.view.Ordered := by
  refine ⟨?_, ?_, ?_, ordered.viewOrdered⟩
  · exact ordered.settledOlder.mono (fun _ held => Or.inl (Or.inl held)) (Set.Subset.refl _)
  · exact ordered.settledOlder.mono (host.tables_published.trans host.published_settled)
      (Set.Subset.refl _)
  · exact ordered.frozenNewer.mono host.tables_published (Set.Subset.refl _)

/-! ## Effects -/

theorem SourceOrdered.retask (ordered : host.SourceOrdered log) (wired : next.Wired)
    (sameView : next.engine.view = host.engine.view)
    (sameWal : next.engine.write.wal = host.engine.write.wal)
    (sameNext : next.engine.write.nextCommitSeq = host.engine.write.nextCommitSeq)
    (sameManifest : next.store.manifest = host.store.manifest)
    (flushes : ∀ task ∈ next.flushes, ∃ before ∈ host.flushes, before.pending = task.pending)
    (compactions : ∀ task ∈ next.compactions, ∃ before ∈ host.compactions,
      before.pending = task.pending) : next.SourceOrdered log := by
  have sameTables : next.tables = host.tables := by rw [tables, sameView]; rfl
  have publishedSub : next.published ⊆ host.published := by
    rintro version (held | ⟨task, member, held⟩)
    · exact Or.inl (sameTables ▸ held)
    · obtain ⟨before, beforeMember, samePending⟩ := compactions task member
      exact captured_published beforeMember (samePending ▸ held)
  have settledSub : next.settled ⊆ host.settled := by
    rintro version ((held | ⟨task, member, held⟩) | held)
    · exact Or.inl (Or.inl (sameView ▸ held))
    · obtain ⟨before, beforeMember, samePending⟩ := flushes task member
      exact flush_settled beforeMember (samePending ▸ held)
    · exact host.published_settled (publishedSub held)
  refine ⟨wired, ordered.fits, ?_, ?_, ?_, ?_, ?_, ?_, ?_, ?_, ?_, ?_, ?_, ?_, ?_⟩
  · rw [walFile, sameWal]; exact ordered.file
  · rw [Aligned, sameWal]; exact ordered.aligned
  · rw [sameNext, sameView]
    rintro version ((held | held) | held)
    · exact ordered.bounded version (Or.inl (Or.inl (settledSub held)))
    · exact ordered.bounded version (Or.inl (Or.inr held))
    · exact ordered.bounded version (Or.inr held)
  · rw [sameTables, manifestMaxSeq, sameManifest]; exact ordered.recorded
  · rw [sameView]; exact ordered.settledOlder.mono settledSub (Set.Subset.refl _)
  · rw [sameView]; exact ordered.frozenNewer.mono publishedSub (Set.Subset.refl _)
  · exact ordered.logNewer.mono publishedSub (Set.Subset.refl _)
  · intro lower lowerMember upper upperMember
    obtain ⟨lowerBefore, lowerBeforeMember, lowerSame⟩ := flushes lower lowerMember
    obtain ⟨upperBefore, upperBeforeMember, upperSame⟩ := flushes upper upperMember
    rw [← lowerSame, ← upperSame]
    exact ordered.flushesOrdered _ lowerBeforeMember _ upperBeforeMember
  · intro table member flush flushMember
    obtain ⟨before, beforeMember, samePending⟩ := flushes flush flushMember
    rw [← samePending]
    exact ordered.tablesBelowFlush table (sameTables ▸ member) before beforeMember
  · intro task member flush flushMember
    obtain ⟨before, beforeMember, samePending⟩ := compactions task member
    obtain ⟨flushBefore, flushBeforeMember, sameFlush⟩ := flushes flush flushMember
    rw [← samePending, ← sameFlush]
    exact ordered.capturedBelowFlush before beforeMember flushBefore flushBeforeMember
  · intro task member
    obtain ⟨before, beforeMember, samePending⟩ := compactions task member
    rw [← samePending]
    exact ordered.capturedBelow before beforeMember
  · rw [sameTables]; exact ordered.viewOrdered
  · rw [sameTables]; exact ordered.idOrdered

theorem SourceOrdered.applied (ordered : host.SourceOrdered log) {entries : List BatchEntry}
    (fits : host.FitsLog entries) :
    (host.applied entries).SourceOrdered (log ++ [⟨host.engine.write.nextCommitSeq, entries⟩]) := by
  set commit : Commit := ⟨host.engine.write.nextCommitSeq, entries⟩ with commitExact
  have olderFresh : ∀ lower ⊆ host.settled, Older lower commit.versions := by
    intro lower lowerSubset early earlyMember late lateMember
    rw [commit_seq_of_mem lateMember]
    exact ordered.bounded early (Or.inl (Or.inl (lowerSubset earlyMember)))
  have memSub : (host.applied entries).engine.view.memVersions ⊆
      host.engine.view.memVersions ∪ commit.versions :=
    fun version held => mem_insertBatch_sub commit.seq version entries _ held
  refine ⟨ordered.wired.applied entries, ?_, ?_, ?_, ?_, ordered.recorded, ?_,
    ordered.frozenNewer, ?_, ordered.flushesOrdered, ordered.tablesBelowFlush,
    ordered.capturedBelowFlush, ordered.capturedBelow, ordered.viewOrdered, ordered.idOrdered⟩
  · intro other member
    rcases List.mem_append.mp member with member | member
    · exact ordered.fits other member
    · rw [List.mem_singleton.mp member]
      exact fits
  · rw [walFile, applied_io entries ordered.aligned, ordered.file, logBytes_append,
      logBytes_singleton]
  · rw [Aligned, applied_io entries ordered.aligned]
  · have freshBelow : ∀ version ∈ commit.versions,
        version.seq < host.engine.write.nextCommitSeq + 1 := by
      intro version held
      rw [commit_seq_of_mem held]
      exact Nat.lt_succ_self _
    have oldBelow : ∀ version ∈ host.settled ∪ host.engine.view.memVersions ∪ committed log,
        version.seq < host.engine.write.nextCommitSeq + 1 :=
      fun version held => (ordered.bounded version held).trans (Nat.lt_succ_self _)
    rw [committed_append, committed_singleton]
    rintro version ((held | held) | (held | held))
    · exact oldBelow version (Or.inl (Or.inl held))
    · rcases memSub held with held | held
      · exact oldBelow version (Or.inl (Or.inr held))
      · exact freshBelow version held
    · exact oldBelow version (Or.inr held)
    · exact freshBelow version held
  · exact (ordered.settledOlder.union_right (olderFresh _ (Set.Subset.refl _))).mono
      (Set.Subset.refl _) memSub
  · rw [committed_append, committed_singleton]
    exact ordered.logNewer.union_right (olderFresh _ host.published_settled)

theorem SourceOrdered.frozen (ordered : host.SourceOrdered log) : host.frozen.SourceOrdered log := by
  have noMem : host.frozen.engine.view.memVersions = ∅ := MemTable.new_versions _
  have frozenExact : host.frozen.engine.view.frozenVersions = host.engine.view.memVersions :=
    EngineView.frozenVersions_some rfl
  have publishedExact : host.frozen.published = host.published := rfl
  have flushCases : ∀ task ∈ host.frozen.flushes, task ∈ host.flushes ∨
      task.pending.sstableId = host.engine.write.sstableId ∧
        task.pending.entries.versions = host.engine.view.memVersions := by
    intro task member
    rcases mem_frozen_flushes member with member | rfl
    · exact Or.inl member
    · exact Or.inr ⟨rfl, rfl⟩
  have settledSub : host.frozen.settled ⊆ host.settled ∪ host.engine.view.memVersions := by
    rintro version ((held | ⟨task, member, held⟩) | held)
    · exact Or.inr (frozenExact ▸ held)
    · rcases flushCases task member with member | ⟨_, exact⟩
      · exact Or.inl (flush_settled member held)
      · exact Or.inr (exact ▸ held)
    · exact Or.inl (host.published_settled held)
  refine ⟨ordered.wired.frozen, ordered.fits, ordered.file, ordered.aligned, ?_, ordered.recorded,
    ?_, ?_, ordered.logNewer, ?_, ?_, ?_, ordered.capturedBelow, ordered.viewOrdered,
    ordered.idOrdered⟩
  · rw [noMem, Set.union_empty]
    rintro version (held | held)
    · exact ordered.bounded version (Or.inl (settledSub held))
    · exact ordered.bounded version (Or.inr held)
  · rw [noMem]; exact Older.empty_right _
  · rw [frozenExact, publishedExact]
    exact ordered.settledOlder.mono host.published_settled (Set.Subset.refl _)
  · intro lower lowerMember upper upperMember below
    rcases flushCases upper upperMember with upperMember | ⟨idExact, exact⟩
    · rcases flushCases lower lowerMember with lowerMember | ⟨idExact, _⟩
      · exact ordered.flushesOrdered lower lowerMember upper upperMember below
      · have := ordered.wired.reservedBelow _ (reservedIds_flush upperMember)
        omega
    · rcases flushCases lower lowerMember with lowerMember | ⟨lowerId, _⟩
      · rw [exact]
        exact ordered.settledOlder.mono (flush_settled lowerMember) (Set.Subset.refl _)
      · omega
  · intro table member flush flushMember below
    rcases flushCases flush flushMember with flushMember | ⟨_, exact⟩
    · exact ordered.tablesBelowFlush table member flush flushMember below
    · rw [exact]
      exact ordered.settledOlder.mono (fun version held => host.published_settled
        (Or.inl ⟨table, member, held⟩)) (Set.Subset.refl _)
  · intro task member flush flushMember below
    rcases flushCases flush flushMember with flushMember | ⟨_, exact⟩
    · exact ordered.capturedBelowFlush task member flush flushMember below
    · rw [exact]
      exact ordered.settledOlder.mono ((captured_published member).trans host.published_settled)
        (Set.Subset.refl _)

theorem SourceOrdered.captured (ordered : host.SourceOrdered log) :
    host.captured.SourceOrdered log := by
  have taskCases : ∀ task ∈ host.captured.compactions, task ∈ host.compactions ∨
      task.pending.newId = host.engine.write.sstableId ∧ task.pending.sstables = host.tables := by
    intro task member
    rcases mem_captured_compactions member with member | ⟨rfl, _⟩
    · exact Or.inl member
    · exact Or.inr ⟨rfl, rfl⟩
  have publishedSub : host.captured.published ⊆ host.published := by
    rintro version (held | ⟨task, member, held⟩)
    · exact Or.inl held
    · rcases taskCases task member with member | ⟨_, exact⟩
      · exact captured_published member held
      · exact Or.inl (exact ▸ held)
  have settledSub : host.captured.settled ⊆ host.settled := by
    rintro version (held | held)
    · exact Or.inl held
    · exact Or.inr (publishedSub held)
  refine ⟨ordered.wired.captured, ordered.fits, ordered.file, ordered.aligned, ?_,
    ordered.recorded, ordered.settledOlder.mono settledSub (Set.Subset.refl _),
    ordered.frozenNewer.mono publishedSub (Set.Subset.refl _),
    ordered.logNewer.mono publishedSub (Set.Subset.refl _), ordered.flushesOrdered,
    ordered.tablesBelowFlush, ?_, ?_, ordered.viewOrdered, ordered.idOrdered⟩
  · rintro version ((held | held) | held)
    · exact ordered.bounded version (Or.inl (Or.inl (settledSub held)))
    · exact ordered.bounded version (Or.inl (Or.inr held))
    · exact ordered.bounded version (Or.inr held)
  · intro task member flush flushMember below
    rcases taskCases task member with member | ⟨idExact, _⟩
    · exact ordered.capturedBelowFlush task member flush flushMember below
    · have := ordered.wired.reservedBelow _ (reservedIds_flush flushMember)
      omega
  · intro task member table tableMember
    rcases taskCases task member with member | ⟨idExact, exact⟩
    · exact ordered.capturedBelow task member table tableMember
    · rw [idExact]
      exact ordered.wired.heldBelow _ (heldIds_table (exact ▸ tableMember))

theorem SourceOrdered.flushed (ordered : host.SourceOrdered log) {index : Nat}
    {segments : Nat → Option Bytes} {pending : PendingFlush} {table : SSTable}
    (found : host.flushes[index]? = some ⟨pending, some table⟩)
    (inOrder : host.CommitsInOrder index) :
    (host.flushed index segments none pending table).SourceOrdered [] := by
  simp only [CommitsInOrder, found] at inOrder
  have own := List.mem_of_getElem? found
  obtain ⟨idExact, runExact, _⟩ := ordered.wired.builtFlush _ own table rfl
  set next := host.flushed index segments none pending table with nextExact
  have tableExact : table.versions = pending.entries.versions := by
    rw [SSTable.versions, runExact]
  have noneLogged : committed ([] : List Commit) = ∅ := by
    ext version
    simp [committed]
  have tablesExact : tableVersions next.tables = tableVersions host.tables ∪ table.versions := by
    rw [← tableVersions_singleton, ← tableVersions_append]
    rfl
  have noFrozen : next.engine.view.frozenVersions = ∅ := EngineView.frozenVersions_none rfl
  have fewerFlushes : ∀ task ∈ next.flushes, task ∈ host.flushes :=
    fun task member => (List.eraseIdx_sublist _ _).subset member
  have publishedSub : next.published ⊆ host.settled := by
    rintro version (held | held)
    · rw [tablesExact] at held
      rcases held with held | held
      · exact host.published_settled (Or.inl held)
      · exact flush_settled own (tableExact ▸ held)
    · exact host.published_settled (Or.inr held)
  have settledSub : next.settled ⊆ host.settled := by
    rintro version ((held | ⟨task, member, held⟩) | held)
    · rw [noFrozen] at held
      exact absurd held (Set.notMem_empty _)
    · exact flush_settled (fewerFlushes task member) held
    · exact publishedSub held
  -- a table of the view is older on its keys, whichever side of the new id it is on
  have keysOlder : ∀ live ∈ host.tables, KeyOlder live.versions table.versions := by
    intro live member
    rcases lt_trichotomy live.id table.id with below | same | above
    · rw [tableExact]
      exact (ordered.tablesBelowFlush live member _ own (idExact ▸ below)).keyOlder
    · exact absurd (heldIds_table member) (same ▸ idExact ▸ ordered.wired.apart _
        (reservedIds_flush own))
    · exact (inOrder live member (idExact ▸ above)).keysApart.keyOlder
  refine ⟨ordered.wired.flushed found, fun commit member => absurd member List.not_mem_nil, rfl,
    rfl, ?_, ?_, ordered.settledOlder.mono settledSub (Set.Subset.refl _), ?_, ?_, ?_, ?_, ?_,
    ordered.capturedBelow, ?_, ?_⟩
  · rw [noneLogged, Set.union_empty]
    rintro version (held | held)
    · exact ordered.bounded version (Or.inl (Or.inl (settledSub held)))
    · exact ordered.bounded version (Or.inl (Or.inr held))
  · intro version held
    exact Nat.le_sub_one_of_lt
      (ordered.bounded version (Or.inl (Or.inl (publishedSub (Or.inl held)))))
  · rw [noFrozen]; exact Older.empty_right _
  · rw [noneLogged]; exact Older.empty_right _
  · intro lower lowerMember upper upperMember
    exact ordered.flushesOrdered lower (fewerFlushes lower lowerMember) upper
      (fewerFlushes upper upperMember)
  · intro live member flush flushMember below
    rcases List.mem_append.mp member with member | member
    · exact ordered.tablesBelowFlush live member flush (fewerFlushes flush flushMember) below
    · rw [List.mem_singleton.mp member] at below ⊢
      rw [tableExact]
      exact ordered.flushesOrdered _ own flush (fewerFlushes flush flushMember) (idExact ▸ below)
  · intro task member flush flushMember
    exact ordered.capturedBelowFlush task member flush (fewerFlushes flush flushMember)
  · refine List.pairwise_append.mpr ⟨ordered.viewOrdered, List.pairwise_singleton _ _, ?_⟩
    intro earlier earlierMember later laterMember
    rw [List.mem_singleton.mp laterMember]
    exact keysOlder earlier earlierMember
  · intro lower lowerMember upper upperMember below
    rcases List.mem_append.mp lowerMember with lowerMember | lowerMember
    · rcases List.mem_append.mp upperMember with upperMember | upperMember
      · exact ordered.idOrdered lower lowerMember upper upperMember below
      · rw [List.mem_singleton.mp upperMember]
        exact keysOlder lower lowerMember
    · rw [List.mem_singleton.mp lowerMember] at below ⊢
      rcases List.mem_append.mp upperMember with upperMember | upperMember
      · exact (inOrder upper upperMember (idExact ▸ below)).keysApart.symm.keyOlder
      · rw [List.mem_singleton.mp upperMember] at below
        exact absurd below (lt_irrefl _)

theorem SourceOrdered.compacted (ordered : host.SourceOrdered log) {index : Nat}
    {objects : Nat → Option SSTable} {pending : PendingCompaction} {table : SSTable}
    (found : host.compactions[index]? = some ⟨pending, some table⟩)
    (kept : ∀ id, id ∉ pending.sstables.map SSTable.id → objects id = host.store.sst id)
    (apart : host.MergesApart index) :
    (host.compacted index objects pending table).SourceOrdered log := by
  simp only [MergesApart, found] at apart
  have own := List.mem_of_getElem? found
  obtain ⟨idExact, runExact, _⟩ := ordered.wired.builtCompaction _ own table rfl
  set next := host.compacted index objects pending table with nextExact
  have merged : table.versions ⊆ tableVersions pending.sstables := by
    rw [SSTable.versions, runExact]
    exact LsmEngine.mergeEntries_sub _ _
  have tableCases : ∀ live ∈ next.tables, live ∈ host.survivors pending ∨ live = table := by
    intro live member
    exact (List.mem_append.mp member).imp id List.mem_singleton.mp
  have fewer : ∀ task ∈ next.compactions, task ∈ host.compactions :=
    fun task member => (List.eraseIdx_sublist _ _).subset member
  have publishedSub : next.published ⊆ host.published := by
    rintro version (⟨live, member, held⟩ | ⟨task, member, held⟩)
    · rcases tableCases live member with member | rfl
      · exact Or.inl ⟨live, (mem_survivors.mp member).1, held⟩
      · exact captured_published own (merged held)
    · exact captured_published (fewer task member) held
  have settledSub : next.settled ⊆ host.settled := by
    rintro version (held | held)
    · exact Or.inl held
    · exact Or.inr (publishedSub held)
  refine ⟨ordered.wired.compacted found kept, ordered.fits, ordered.file, ordered.aligned, ?_, ?_,
    ordered.settledOlder.mono settledSub (Set.Subset.refl _),
    ordered.frozenNewer.mono publishedSub (Set.Subset.refl _),
    ordered.logNewer.mono publishedSub (Set.Subset.refl _), ordered.flushesOrdered, ?_, ?_, ?_,
    ?_, ?_⟩
  · rintro version ((held | held) | held)
    · exact ordered.bounded version (Or.inl (Or.inl (settledSub held)))
    · exact ordered.bounded version (Or.inl (Or.inr held))
    · exact ordered.bounded version (Or.inr held)
  · intro version held
    exact Nat.le_sub_one_of_lt (ordered.bounded version
      (Or.inl (Or.inl (host.published_settled (publishedSub (Or.inl held))))))
  · intro live member flush flushMember below
    rcases tableCases live member with member | rfl
    · exact ordered.tablesBelowFlush live (mem_survivors.mp member).1 flush flushMember below
    · exact (ordered.capturedBelowFlush _ own flush flushMember (idExact ▸ below)).mono merged
        (Set.Subset.refl _)
  · intro task member
    exact ordered.capturedBelowFlush task (fewer task member)
  · intro task member
    exact ordered.capturedBelow task (fewer task member)
  · refine List.pairwise_append.mpr ⟨ordered.viewOrdered.sublist List.filter_sublist,
      List.pairwise_singleton _ _, ?_⟩
    intro earlier earlierMember later laterMember
    rw [List.mem_singleton.mp laterMember]
    exact (apart earlier earlierMember).keysApart.keyOlder
  · intro lower lowerMember upper upperMember below
    rcases tableCases lower lowerMember with lowerSurvives | lowerExact
    · rcases tableCases upper upperMember with upperSurvives | upperExact
      · exact ordered.idOrdered lower (mem_survivors.mp lowerSurvives).1 upper
          (mem_survivors.mp upperSurvives).1 below
      · rw [upperExact]
        exact (apart lower lowerSurvives).keysApart.keyOlder
    · rcases tableCases upper upperMember with upperSurvives | upperExact
      · rw [lowerExact]
        exact (apart upper upperSurvives).keysApart.symm.keyOlder
      · rw [lowerExact, upperExact] at below
        exact absurd below (lt_irrefl _)

theorem SourceOrdered.reopened (ordered : host.SourceOrdered log) {unreadable : Nat → Bool}
    (readable : host.AllReadable unreadable) :
    SourceOrdered { host with
      engine := host.reopened unreadable, flushes := [], compactions := [], reads := [] } log := by
  set next : Host ETag := { host with
    engine := host.reopened unreadable, flushes := [], compactions := [], reads := [] } with nextExact
  have wired : next.Wired := ordered.wired.reopened readable
  have perm : next.tables.Perm host.tables := ordered.wired.reopened_tables readable
  have tablesSub : tableVersions next.tables ⊆ tableVersions host.tables :=
    tableVersions_mono fun table member => perm.mem_iff.mp member
  have memSub : next.engine.view.memVersions ⊆ committed log := by
    intro version held
    rw [EngineView.memVersions, nextExact, Host.reopened, ordered.file,
      opened_memtable _ _ _ log ordered.fits] at held
    rcases mem_replayInto_sub version log _ held with held | held
    · rw [MemTable.new_versions] at held
      exact absurd held (Set.notMem_empty _)
    · exact held
  have noFrozen : next.engine.view.frozenVersions = ∅ := EngineView.frozenVersions_none rfl
  have publishedSub : next.published ⊆ tableVersions host.tables := by
    rintro version (held | ⟨task, member, _⟩)
    · exact tablesSub held
    · exact absurd member List.not_mem_nil
  have settledSub : next.settled ⊆ tableVersions host.tables := by
    rintro version ((held | ⟨task, member, _⟩) | held)
    · rw [noFrozen] at held
      exact absurd held (Set.notMem_empty _)
    · exact absurd member List.not_mem_nil
    · exact publishedSub held
  have idOrdered : ∀ lower ∈ next.tables, ∀ upper ∈ next.tables, lower.id < upper.id →
      KeyOlder lower.versions upper.versions := fun lower lowerMember upper upperMember =>
    ordered.idOrdered lower (perm.mem_iff.mp lowerMember) upper (perm.mem_iff.mp upperMember)
  have started := opened_currentSeq host.store host.engine.lease unreadable log ordered.fits
  rw [← ordered.file] at started
  have logBounded : ∀ version ∈ committed log,
      version.seq < next.engine.write.nextCommitSeq := by
    rintro version ⟨commit, member, held⟩
    rw [commit_seq_of_mem held]
    exact Nat.lt_succ_of_le (started.1 commit member)
  refine ⟨wired, ordered.fits, ordered.file, rfl, ?_, ?_, ?_, ?_, ?_, ?_, ?_, ?_, ?_, ?_, idOrdered⟩
  · rintro version ((held | held) | held)
    · exact Nat.lt_succ_of_le ((ordered.recorded version (settledSub held)).trans started.2)
    · exact logBounded version (memSub held)
    · exact logBounded version held
  · intro version held
    exact ordered.recorded version (tablesSub held)
  · exact ordered.logNewer.mono (settledSub.trans host.tables_published) memSub
  · rw [noFrozen]; exact Older.empty_right _
  · exact ordered.logNewer.mono (publishedSub.trans host.tables_published) (Set.Subset.refl _)
  · exact List.forall_mem_nil _
  · intro table _ flush member
    exact absurd member List.not_mem_nil
  · exact List.forall_mem_nil _
  · exact List.forall_mem_nil _
  · exact keyOlder_of_sorted (host.reopened_sorted unreadable) wired.tablesNodup idOrdered

theorem SourceOrdered.started (manifestEtag : Manifest → ETag) (leaseEtag : Lease → ETag)
    (lease : LeaseHandle) : (start manifestEtag leaseEtag lease).SourceOrdered [] := by
  have noTables : tableVersions (start manifestEtag leaseEtag lease).tables = ∅ := by
    ext version
    simp [tableVersions, tables, start, LsmEngine.openEngine, ObjectStore.empty,
      ObjectStore.loadManifest, Manifest.default]
  have noneLogged : committed ([] : List Commit) = ∅ := by
    ext version
    simp [committed]
  have noMem : (start manifestEtag leaseEtag lease).engine.view.memVersions = ∅ :=
    MemTable.new_versions _
  have noFrozen : (start manifestEtag leaseEtag lease).engine.view.frozenVersions = ∅ :=
    EngineView.frozenVersions_none rfl
  have nothing : (start manifestEtag leaseEtag lease).settled = ∅ := by
    rw [settled, noFrozen, published, noTables]
    ext version
    simp [inFlightVersions, start]
  refine ⟨Wired.started _ _ _, fun commit member => absurd member List.not_mem_nil, rfl, rfl, ?_,
    ?_, ?_, ?_, ?_, ?_, ?_, ?_, ?_, List.Pairwise.nil, ?_⟩
  · rw [nothing, noMem, noneLogged, Set.union_empty, Set.union_empty]
    exact fun version held => absurd held (Set.notMem_empty _)
  · rw [noTables]
    exact fun version held => absurd held (Set.notMem_empty _)
  · rw [noMem]; exact Older.empty_right _
  · rw [noFrozen]; exact Older.empty_right _
  · rw [noneLogged]; exact Older.empty_right _
  · exact List.forall_mem_nil _
  · exact List.forall_mem_nil _
  · exact List.forall_mem_nil _
  · exact List.forall_mem_nil _
  · exact List.forall_mem_nil _

end Host

end Pantheon.Keystone
