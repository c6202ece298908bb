import Mathlib
import Pantheon.Keystone.Wiring
import Pantheon.Keystone.Sources

/-!
# What a running engine answers

The invariant of a process that never freezes a memtable over an occupied
immutable slot and commits a compaction only when its tables are all still in
the view and no surviving table shares a key with the merged one.  Under it the
sources stay strictly ordered and every observed sequence keeps its answer.
-/

set_option autoImplicit false

namespace Pantheon.Keystone

open Pantheon.Lib

namespace Host

variable {ETag : Type}

variable {host next : Host ETag} {index : Nat} {pending : PendingFlush} {table : SSTable}

def Registered (host : Host ETag) (seq : Nat) : Prop :=
  ∃ count, (seq, count) ∈ host.engine.write.openSnapshots.toList

/-- A sequence someone may read `key` at: the current one, a registered
snapshot, or one that a started read has loaded. -/
def Observed (host : Host ETag) (key : Bytes) (seq : Nat) : Prop :=
  seq = host.engine.currentSeq ∨ host.Registered seq ∨ (key, seq) ∈ host.reads

def frozenRows (host : Host ETag) : List Entry :=
  match host.engine.view.immutable with
  | some frozen => frozen.toEntries.entries
  | none => []

def SlotFree (host : Host ETag) : Prop := host.frozenRows = []

instance (host : Host ETag) : Decidable host.SlotFree :=
  inferInstanceAs (Decidable (host.frozenRows = []))

/-- What a captured compaction knows of the view it was captured from. -/
structure Capturing (host : Host ETag) (pending : PendingCompaction) : Prop where
  subset : tableVersions pending.sstables ⊆ host.commits
  olderMem : Older (tableVersions pending.sstables) host.engine.view.memVersions
  olderFrozen : Older (tableVersions pending.sstables) host.engine.view.frozenVersions
  covered : ∀ seq, seq = host.engine.currentSeq ∨ host.Registered seq →
    pending.watermark ≤ seq ∨ ∀ version ∈ tableVersions pending.sstables, version.seq ≤ seq
  behind : host.Behind pending

def InFlight (host : Host ETag) : Prop :=
  host.flushes = [] ∨ ∃ task frozen, host.flushes = [task] ∧
    host.engine.view.immutable = some frozen ∧ frozen.toEntries = task.pending.entries ∧
      frozen.toEntries.entries ≠ []

structure Live (host : Host ETag) : Prop where
  wired : host.Wired
  valid : host.engine.lease.valid = true
  nextPos : 0 < host.engine.write.nextCommitSeq
  bounded : ∀ version ∈ host.commits, version.seq < host.engine.write.nextCommitSeq
  registeredBounded : ∀ seq, host.Registered seq → seq < host.engine.write.nextCommitSeq
  readsBounded : ∀ read ∈ host.reads, read.2 < host.engine.write.nextCommitSeq
  det : Deterministic host.commits
  subset : host.engine.view.versions ⊆ host.commits
  ordered : host.engine.view.Ordered
  retains : ∀ key seq, host.Observed key seq →
    Retains host.engine.view.versions host.commits key seq
  inFlight : host.InFlight
  capturing : ∀ task ∈ host.compactions, host.Capturing task.pending

theorem Live.answers (live : host.Live) {key : Bytes} {seq : Nat}
    (observed : host.Observed key seq) :
    Answers host.commits key seq (host.engine.readAt key seq) := by
  have resolves := host.engine.view.readAt_resolves live.ordered.shadows
  rw [LsmEngine.readAt, EngineView.readAt_eq_firstHit]
  exact resolves.answers live.subset live.det (live.retains key seq observed)

/-! ## Effects -/

theorem Live.applied (live : host.Live) {entries : List BatchEntry}
    (distinct : DistinctKeys entries) : (host.applied entries).Live := by
  set next := host.engine.write.nextCommitSeq with nextExact
  set fresh := (⟨next, entries⟩ : Commit).versions with freshExact
  have freshSeq : ∀ version ∈ fresh, version.seq = next := fun version member =>
    commit_seq_of_mem member
  have olderFresh : ∀ lower, lower ⊆ host.commits → Older lower fresh := by
    intro lower lowerSubset early earlyMember late lateMember
    rw [freshSeq late lateMember]
    exact live.bounded early (lowerSubset earlyMember)
  have commitsExact : (host.applied entries).commits = host.commits ∪ fresh :=
    applied_commits host entries
  have memExact : (host.applied entries).engine.view.memVersions =
      host.engine.view.memVersions ∪ fresh := by
    refine versions_insertBatch next entries _ distinct ?_
    intro held member sameSeq
    have old := live.bounded _ (live.subset (Or.inl (Or.inl ⟨held, member, rfl⟩)))
    rw [Entry.version_seq, sameSeq] at old
    exact absurd old (lt_irrefl _)
  have versionsExact : (host.applied entries).engine.view.versions =
      host.engine.view.versions ∪ fresh := by
    rw [EngineView.versions, memExact, EngineView.versions]
    change _ ∪ fresh ∪ host.engine.view.frozenVersions ∪ tableVersions host.engine.view.sstables = _
    simp only [Set.union_comm, Set.union_left_comm]
  have frozenSubset : host.engine.view.frozenVersions ⊆ host.commits := fun version member =>
    live.subset (Or.inl (Or.inr member))
  have tablesSubset : tableVersions host.engine.view.sstables ⊆ host.commits :=
    fun version member => live.subset (Or.inr member)
  refine ⟨live.wired.applied entries, live.valid, Nat.succ_pos _, ?_, ?_, ?_, ?_, ?_, ?_, ?_,
    live.inFlight, ?_⟩
  · rw [commitsExact]
    rintro version (member | member)
    · exact (live.bounded version member).trans (Nat.lt_succ_self _)
    · rw [freshSeq version member]
      exact Nat.lt_succ_self _
  · intro seq registered
    exact (live.registeredBounded seq registered).trans (Nat.lt_succ_self _)
  · intro read member
    exact (live.readsBounded read member).trans (Nat.lt_succ_self _)
  · rw [commitsExact]
    exact deterministic_extend live.det live.bounded distinct
  · rw [commitsExact, versionsExact]
    exact Set.union_subset_union_left fresh live.subset
  · refine ⟨?_, ?_, live.ordered.tablesOlderFrozen, live.ordered.tablesOrdered⟩
    · rw [memExact]
      exact live.ordered.frozenOlder.union_right (olderFresh _ frozenSubset)
    · rw [memExact]
      exact live.ordered.tablesOlderMem.union_right (olderFresh _ tablesSubset)
  · intro key seq observed
    rw [commitsExact, versionsExact]
    rcases observed with current | registered | started
    · have seqExact : seq = next := current
      have before := live.retains key host.engine.currentSeq (Or.inl rfl)
      refine before.extend_at ?_ ?_ (seqExact ▸ freshSeq) live.subset
      · intro version member
        exact Nat.le_sub_one_of_lt (live.bounded version member)
      · have := live.nextPos
        rw [LsmEngine.currentSeq, seqExact]
        omega
    · refine (live.retains key seq (Or.inr (Or.inl registered))).extend_above ?_
      intro version member
      rw [freshSeq version member]
      exact live.registeredBounded seq registered
    · refine (live.retains key seq (Or.inr (Or.inr started))).extend_above ?_
      intro version member
      rw [freshSeq version member]
      exact live.readsBounded _ started
  · intro task member
    have before := live.capturing task member
    refine ⟨?_, ?_, before.olderFrozen, ?_, before.behind⟩
    · rw [commitsExact]
      exact before.subset.trans Set.subset_union_left
    · rw [memExact]
      exact before.olderMem.union_right (olderFresh _ before.subset)
    · rintro seq (current | registered)
      · refine Or.inr fun version held => ?_
        have old := live.bounded version (before.subset held)
        have seqExact : seq = next := current
        omega
      · exact before.covered seq (Or.inr registered)

theorem SlotFree.frozenVersions (free : host.SlotFree) :
    host.engine.view.frozenVersions = ∅ := by
  unfold SlotFree frozenRows at free
  cases occupied : host.engine.view.immutable with
  | none => exact EngineView.frozenVersions_none occupied
  | some frozen =>
      simp only [occupied] at free
      rw [EngineView.frozenVersions_some occupied, MemTable.versions, SortedRun.versions, free,
        versionsOf_nil]

theorem InFlight.none_of_slotFree (inFlight : host.InFlight)
    (free : host.SlotFree) : host.flushes = [] := by
  rcases inFlight with none | ⟨task, frozen, _, occupied, _, nonempty⟩
  · exact none
  · rw [SlotFree, frozenRows, occupied] at free
    exact absurd free nonempty

theorem Live.frozen (live : host.Live) (free : host.SlotFree) :
    host.frozen.Live := by
  have idle := live.inFlight.none_of_slotFree free
  have memExact : host.frozen.engine.view.memVersions = ∅ := MemTable.new_versions _
  have frozenExact : host.frozen.engine.view.frozenVersions = host.engine.view.memVersions :=
    EngineView.frozenVersions_some rfl
  have versionsExact : host.frozen.engine.view.versions = host.engine.view.versions := by
    rw [EngineView.versions, EngineView.versions, memExact, frozenExact, free.frozenVersions,
      Set.empty_union, Set.union_empty]
    rfl
  refine ⟨live.wired.frozen, live.valid, live.nextPos, live.bounded, live.registeredBounded,
    live.readsBounded, live.det, ?_, ⟨?_, ?_, ?_, live.ordered.tablesOrdered⟩, ?_, ?_, ?_⟩
  · rw [versionsExact]; exact live.subset
  · rw [memExact]; exact Older.empty_right _
  · rw [memExact]; exact Older.empty_right _
  · rw [frozenExact]; exact live.ordered.tablesOlderMem
  · rw [versionsExact]; exact live.retains
  · by_cases nothing : host.engine.view.memtable.toEntries.entries = []
    · exact Or.inl (by simp [Host.frozen, nothing, idle])
    · refine Or.inr ⟨⟨⟨host.engine.view.memtable.toEntries, host.engine.write.sstableId⟩, none⟩,
        host.engine.view.memtable, ?_, rfl, rfl, nothing⟩
      simp only [Host.frozen, nothing, if_false, idle, List.nil_append]
  · intro task member
    have before := live.capturing task member
    refine ⟨before.subset, ?_, ?_, before.covered, before.behind⟩
    · rw [memExact]; exact Older.empty_right _
    · rw [frozenExact]; exact before.olderMem

theorem Live.retask (live : host.Live) (wired : next.Wired)
    (sameEngine : next.engine = host.engine) (sameHistory : next.history = host.history)
    (sameReads : next.reads = host.reads) (inFlight : next.InFlight)
    (compactions : ∀ task ∈ next.compactions, ∃ before ∈ host.compactions,
      before.pending = task.pending) : next.Live := by
  have sameCommits : next.commits = host.commits := by rw [commits, commits, sameHistory]
  have sameRegistered : ∀ seq, next.Registered seq ↔ host.Registered seq := by
    intro seq
    rw [Registered, Registered, sameEngine]
  refine ⟨wired, ?_, ?_, ?_, ?_, ?_, ?_, ?_, ?_, ?_, inFlight, ?_⟩
  · rw [sameEngine]; exact live.valid
  · rw [sameEngine]; exact live.nextPos
  · rw [sameCommits, sameEngine]; exact live.bounded
  · intro seq registered
    rw [sameEngine]
    exact live.registeredBounded seq ((sameRegistered seq).mp registered)
  · rw [sameReads, sameEngine]; exact live.readsBounded
  · rw [sameCommits]; exact live.det
  · rw [sameCommits, sameEngine]; exact live.subset
  · rw [sameEngine]; exact live.ordered
  · intro key seq observed
    rw [sameCommits, sameEngine]
    rw [Observed, sameEngine, sameRegistered, sameReads] at observed
    exact live.retains key seq observed
  · intro task member
    obtain ⟨before, beforeMember, samePending⟩ := compactions task member
    rw [← samePending]
    have known := live.capturing before beforeMember
    refine ⟨?_, ?_, ?_, ?_, ?_⟩
    · rw [sameCommits]; exact known.subset
    · rw [sameEngine]; exact known.olderMem
    · rw [sameEngine]; exact known.olderFrozen
    · intro seq watched
      rw [sameEngine, sameRegistered] at watched
      exact known.covered seq watched
    · rw [Behind, Present, tables, sameEngine]; exact known.behind

theorem Live.observe (live : host.Live) (snapshots : OrdMap Nat Nat)
    (reads : List (Bytes × Nat))
    (registered : ∀ entry ∈ snapshots.toList,
      entry.1 = host.engine.currentSeq ∨ host.Registered entry.1)
    (started : ∀ read ∈ reads, read.2 = host.engine.currentSeq ∨ read ∈ host.reads) :
    Live { host with
      engine := { host.engine with write := { host.engine.write with openSnapshots := snapshots } }
      reads := reads } := by
  have currentLt : host.engine.currentSeq < host.engine.write.nextCommitSeq :=
    Nat.sub_lt live.nextPos Nat.one_pos
  refine ⟨live.wired.congr rfl rfl rfl ⟨_, rfl⟩ rfl rfl, live.valid, live.nextPos, live.bounded,
    ?_, ?_, live.det, live.subset, live.ordered, ?_, live.inFlight, ?_⟩
  · rintro seq ⟨count, member⟩
    rcases registered _ member with current | before
    · exact lt_of_eq_of_lt current currentLt
    · exact live.registeredBounded seq before
  · intro read member
    rcases started read member with current | before
    · exact lt_of_eq_of_lt current currentLt
    · exact live.readsBounded read before
  · rintro key seq (current | ⟨count, member⟩ | member)
    · exact live.retains key seq (Or.inl current)
    · rcases registered _ member with current | before
      · exact live.retains key seq (Or.inl current)
      · exact live.retains key seq (Or.inr (Or.inl before))
    · rcases started _ member with current | before
      · exact live.retains key seq (Or.inl current)
      · exact live.retains key seq (Or.inr (Or.inr before))
  · intro task member
    have known := live.capturing task member
    refine ⟨known.subset, known.olderMem, known.olderFrozen, ?_, known.behind⟩
    rintro seq (current | ⟨count, member⟩)
    · exact known.covered seq (Or.inl current)
    · rcases registered _ member with current | before
      · exact known.covered seq (Or.inl current)
      · exact known.covered seq (Or.inr before)

theorem Live.flushing (live : host.Live)
    (found : host.flushes[index]? = some ⟨pending, some table⟩) :
    host.flushes = [⟨pending, some table⟩] ∧ index = 0 ∧
      table.versions = host.engine.view.frozenVersions ∧ host.frozenRows ≠ [] := by
  obtain ⟨_, runExact, _⟩ := live.wired.builtFlush _ (List.mem_of_getElem? found) table rfl
  rcases live.inFlight with none | ⟨task, frozen, single, occupied, entriesExact, nonempty⟩
  · rw [none] at found
    exact absurd found (by simp)
  · obtain ⟨rfl, rfl⟩ : index = 0 ∧ task = ⟨pending, some table⟩ := by
      rw [single] at found
      cases index with
      | zero => exact ⟨rfl, by simpa using found⟩
      | succ index => exact absurd found (by simp)
    refine ⟨single, rfl, ?_, ?_⟩
    · rw [EngineView.frozenVersions_some occupied, SSTable.versions, runExact, ← entriesExact]
      rfl
    · rw [frozenRows, occupied]
      exact nonempty

theorem Live.flushed (live : host.Live)
    {segments : Nat → Option Bytes} {fault : Option TruncateFault}
    (found : host.flushes[index]? = some ⟨pending, some table⟩) :
    (host.flushed index segments fault pending table).Live := by
  obtain ⟨single, rfl, tableExact, _⟩ := live.flushing found
  set next := host.flushed 0 segments fault pending table with nextExact
  have frozenExact : next.engine.view.frozenVersions = ∅ := EngineView.frozenVersions_none rfl
  have tablesExact : tableVersions next.engine.view.sstables =
      tableVersions host.engine.view.sstables ∪ host.engine.view.frozenVersions := by
    rw [← tableExact, ← tableVersions_singleton, ← tableVersions_append]
    rfl
  have versionsExact : next.engine.view.versions = host.engine.view.versions := by
    rw [EngineView.versions, tablesExact, frozenExact, Set.union_empty, EngineView.versions,
      Set.union_assoc, Set.union_comm (tableVersions _)]
    rfl
  refine ⟨live.wired.flushed found, live.valid, live.nextPos, live.bounded, live.registeredBounded,
    live.readsBounded, live.det, ?_, ⟨?_, ?_, ?_, ?_⟩, ?_, ?_, ?_⟩
  · rw [versionsExact]; exact live.subset
  · rw [frozenExact]; exact fun early member => absurd member (Set.notMem_empty _)
  · rw [tablesExact]
    rintro early (member | member)
    · exact live.ordered.tablesOlderMem early member
    · exact live.ordered.frozenOlder early member
  · rw [frozenExact]; exact Older.empty_right _
  · refine List.pairwise_append.mpr ⟨live.ordered.tablesOrdered, List.pairwise_singleton _ _, ?_⟩
    intro earlier earlierMember later laterMember
    rw [List.mem_singleton.mp laterMember, tableExact]
    exact (EngineView.older_of_mem live.ordered.tablesOlderFrozen earlierMember).keyOlder
  · rw [versionsExact]; exact live.retains
  · exact Or.inl (by simp [nextExact, Host.flushed, single])
  · intro other otherMember
    have member : other ∈ host.compactions := otherMember
    have known := live.capturing other member
    refine ⟨known.subset, known.olderMem, ?_, known.covered, ?_⟩
    · rw [frozenExact]; exact Older.empty_right _
    · exact known.behind.flushed live.wired found member (tableExact ▸ known.olderFrozen)

theorem Live.captured (live : host.Live) : host.captured.Live := by
  refine ⟨live.wired.captured, live.valid, live.nextPos, live.bounded, live.registeredBounded,
    live.readsBounded, live.det, live.subset, live.ordered, live.retains, live.inFlight, ?_⟩
  have known : ∀ task ∈ host.compactions, host.captured.Capturing task.pending := by
    intro task member
    have before := live.capturing task member
    exact ⟨before.subset, before.olderMem, before.olderFrozen, before.covered, before.behind⟩
  intro task member
  rcases mem_captured_compactions member with member | ⟨rfl, _⟩
  · exact known task member
  · refine ⟨fun version held => live.subset (Or.inr held), live.ordered.tablesOlderMem,
      live.ordered.tablesOlderFrozen, ?_, fun _ table present => Or.inl present⟩
    rintro seq (current | ⟨count, registered⟩)
    · refine Or.inr fun version held => ?_
      have old := live.bounded version (live.subset (Or.inr held))
      rw [current]
      exact Nat.le_sub_one_of_lt old
    · refine Or.inl ?_
      -- the watermark is the least registered snapshot
      change host.engine.watermark ≤ seq
      unfold LsmEngine.watermark
      cases first : host.engine.write.openSnapshots.firstKey with
      | none =>
          rw [OrdMap.firstKey_eq_none] at first
          change (seq, count) ∈ host.engine.write.openSnapshots.toList at registered
          rw [first] at registered
          exact absurd registered List.not_mem_nil
      | some least => exact OrdMap.firstKey_le _ least first _ registered

/-- A compaction commits over a view that still holds its tables, next to
survivors whose keys the merged table does not have. -/
theorem Live.compacted (live : host.Live)
    {objects : Nat → Option SSTable} {pending : PendingCompaction}
    (found : host.compactions[index]? = some ⟨pending, some table⟩)
    (kept : ∀ id, id ∉ pending.sstables.map SSTable.id → objects id = host.store.sst id)
    (present : host.Present pending)
    (apart : ∀ survivor ∈ host.survivors pending, KeysApart survivor.versions table.versions)
    (noGap : ∀ read ∈ host.reads,
      NoGap (tableVersions pending.sstables) pending.watermark read.1 read.2) :
    (host.compacted index objects pending table).Live := by
  have own := List.mem_of_getElem? found
  have known := live.capturing _ own
  have thinned := live.wired.thinned own rfl live.det known.subset
  have merged : table.versions ⊆ tableVersions pending.sstables := thinned.subset
  have split := live.wired.tables_split present
  set next := host.compacted index objects pending table with nextExact
  have tablesExact : tableVersions next.engine.view.sstables =
      tableVersions (host.survivors pending) ∪ table.versions := by
    rw [← tableVersions_singleton, ← tableVersions_append]
    rfl
  have tablesSub : tableVersions next.engine.view.sstables ⊆
      tableVersions host.engine.view.sstables := by
    rw [tablesExact]
    change _ ⊆ tableVersions host.tables
    rw [split]
    exact Set.union_subset_union_right _ merged
  set others := host.engine.view.memVersions ∪ host.engine.view.frozenVersions ∪
    tableVersions (host.survivors pending) with othersExact
  have before : host.engine.view.versions = others ∪ tableVersions pending.sstables := by
    rw [EngineView.versions, othersExact, Set.union_assoc _ (tableVersions (host.survivors pending)),
      ← split]
    rfl
  have after : next.engine.view.versions = others ∪ table.versions := by
    rw [EngineView.versions, tablesExact, othersExact, ← Set.union_assoc]
    rfl
  have shadows : Shadows others (tableVersions pending.sstables) :=
    ((known.olderMem.keyOlder.shadows).union_left known.olderFrozen.keyOlder.shadows).union_left
      (known.behind.survivors_newer present).keyOlder.shadows
  refine ⟨live.wired.compacted found kept, live.valid, live.nextPos, live.bounded,
    live.registeredBounded, live.readsBounded, live.det, ?_, ⟨live.ordered.frozenOlder,
    live.ordered.tablesOlderMem.mono tablesSub (Set.Subset.refl _),
    live.ordered.tablesOlderFrozen.mono tablesSub (Set.Subset.refl _), ?_⟩, ?_, live.inFlight, ?_⟩
  · rw [after]
    refine (Set.union_subset_union_right others merged).trans ?_
    rw [← before]
    exact live.subset
  · refine List.pairwise_append.mpr ⟨live.ordered.tablesOrdered.filter _,
      List.pairwise_singleton _ _, ?_⟩
    intro survivor survivorMember last lastMember
    rw [List.mem_singleton.mp lastMember]
    exact (apart survivor survivorMember).keyOlder
  · intro key seq observed
    rw [after]
    have retained := live.retains key seq observed
    rw [before] at retained
    refine retained.replace (before ▸ live.subset) live.det thinned ?_ shadows
    rcases observed with current | registered | started
    · rcases known.covered seq (Or.inl current) with reached | visible
      · exact NoGap.of_watermark_le reached
      · exact NoGap.of_visible visible
    · rcases known.covered seq (Or.inr registered) with reached | visible
      · exact NoGap.of_watermark_le reached
      · exact NoGap.of_visible visible
    · exact noGap _ started
  · intro task taskMember
    have member : task ∈ host.compactions := (List.eraseIdx_sublist _ _).subset taskMember
    have other := live.capturing task member
    exact ⟨other.subset, other.olderMem, other.olderFrozen, other.covered,
      other.behind.compacted live.wired found present merged member⟩

/-! ## Runs -/

/-- A compaction may commit: its tables are all still in the view, no surviving
table has a key of the merged one, and no started read stands between a version
it drops and the watermark. -/
def MayCompact (host : Host ETag) (index : Nat) : Prop :=
  match host.compactions[index]? with
  | some ⟨pending, some table⟩ =>
      host.AllListed pending ∧
        (∀ survivor ∈ host.survivors pending, survivor.SharesNoKey table) ∧
        ∀ read ∈ host.reads, pending.GapFree read.1 read.2
  | _ => True

instance (host : Host ETag) (index : Nat) : Decidable (host.MayCompact index) := by
  unfold MayCompact
  rcases host.compactions[index]? with _ | ⟨pending, _ | table⟩ <;> infer_instance

/-- The conditions on each step: distinct keys in a batch, no freeze over an
occupied slot, and only compactions that may commit. -/
def Careful (host : Host ETag) : Action → Prop
  | .write failure entries => failure = none ∧ DistinctKeys entries ∧
      ((host.applied entries).engine.view.memtable.isFull = true → host.SlotFree)
  | .beginFlush => host.SlotFree
  | .commitCompact index _ _ => host.MayCompact index
  | .setLease _ => False
  | .reopen _ => False
  | _ => True

instance (host : Host ETag) (action : Action) : Decidable (host.Careful action) := by
  induction action using Action.casesOn <;> (dsimp only [Careful]; infer_instance)

theorem Live.started (manifestEtag : Manifest → ETag) (leaseEtag : Lease → ETag) (token : Nat) :
    (start manifestEtag leaseEtag ⟨token, true⟩).Live := by
  have nothing : (start manifestEtag leaseEtag ⟨token, true⟩).commits = ∅ := by
    ext version
    simp [commits, start, committed]
  have empty : (start manifestEtag leaseEtag ⟨token, true⟩).engine.view.versions = ∅ := by
    ext version
    simp [EngineView.versions, EngineView.memVersions, EngineView.frozenVersions, tableVersions,
      start, LsmEngine.openEngine, ObjectStore.empty, ObjectStore.loadManifest, Manifest.default,
      Wal.replay, Wal.openFile, replayFrom, replayLoop, LsmEngine.replayInto]
  have noMem : ∀ version, version ∉
      (start manifestEtag leaseEtag ⟨token, true⟩).engine.view.memVersions := by
    intro version member
    exact absurd (empty ▸ Or.inl (Or.inl member) : version ∈ (∅ : Set _)) (Set.notMem_empty _)
  refine ⟨Wired.started _ _ _, rfl, Nat.succ_pos _, ?_, ?_, ?_, ?_, ?_, ⟨?_, ?_, ?_,
    List.Pairwise.nil⟩, ?_, Or.inl rfl, ?_⟩
  · rw [nothing]
    exact fun version member => absurd member (Set.notMem_empty _)
  · rintro seq ⟨count, member⟩
    exact absurd member List.not_mem_nil
  · exact List.forall_mem_nil _
  · rw [nothing]
    exact fun left member => absurd member (Set.notMem_empty _)
  · rw [empty]
    exact Set.empty_subset _
  · exact fun early _ late member => absurd member (noMem late)
  · exact fun early _ late member => absurd member (noMem late)
  · rintro early ⟨table, member, _⟩
    exact absurd member List.not_mem_nil
  · intro key seq _
    rw [nothing]
    exact fun version newest => absurd newest.mem (Set.notMem_empty _)
  · exact List.forall_mem_nil _

theorem Live.snapshotNow (live : host.Live) :
    Live { host with engine := host.engine.snapshotNow.1 } := by
  refine live.observe _ host.reads ?_ fun read member => Or.inr member
  intro entry member
  rcases (OrdMap.mem_insert _ _ _ _).mp member with rfl | ⟨member, _⟩
  · exact Or.inl rfl
  · exact Or.inr ⟨entry.2, member⟩

theorem Live.releaseSnapshot (live : host.Live) (seq : Nat) :
    Live { host with engine := host.engine.releaseSnapshot seq } := by
  unfold LsmEngine.releaseSnapshot
  cases held : host.engine.write.openSnapshots.get? seq with
  | none => exact live
  | some count =>
      refine live.observe _ host.reads ?_ fun read member => Or.inr member
      intro entry member
      refine Or.inr ?_
      split_ifs at member with last
      · exact ⟨entry.2, ((OrdMap.mem_erase _ _ _).mp member).1⟩
      · rcases (OrdMap.mem_insert _ _ _ _).mp member with rfl | ⟨member, _⟩
        · exact ⟨count, (OrdMap.get?_eq_some _ _ _).mp held⟩
        · exact ⟨entry.2, member⟩

theorem InFlight.eraseIdx (inFlight : host.InFlight)
    {task : FlushTask} (found : host.flushes[index]? = some task) :
    host.flushes.eraseIdx index = [] := by
  rcases inFlight with none | ⟨other, frozen, single, _⟩
  · rw [none] at found
    exact absurd found (by simp)
  · rw [single] at found ⊢
    cases index with
    | zero => rfl
    | succ index => exact absurd found (by simp)

theorem InFlight.set (inFlight : host.InFlight)
    {built table : Option SSTable}
    (found : host.flushes[index]? = some ⟨pending, built⟩) (sameEngine : next.engine = host.engine)
    (flushes : next.flushes = host.flushes.set index ⟨pending, table⟩) : next.InFlight := by
  rcases inFlight with none | ⟨task, frozen, single, occupied, entriesExact, nonempty⟩
  · rw [none] at found
    exact absurd found (by simp)
  · rw [single] at found flushes
    cases index with
    | zero =>
        have taskExact : task = ⟨pending, built⟩ := by simpa using found
        rw [taskExact] at entriesExact
        exact Or.inr ⟨⟨pending, table⟩, frozen, by simpa using flushes, sameEngine ▸ occupied,
          entriesExact, nonempty⟩
    | succ index => exact absurd found (by simp)

theorem Live.step [DecidableEq ETag] (live : host.Live) (action : Action)
    (careful : host.Careful action) (taken : host.step action = some next) : next.Live := by
  have sameTasks : ∀ task ∈ host.compactions, ∃ before ∈ host.compactions,
      before.pending = task.pending := fun task member => ⟨task, member, rfl⟩
  cases action with
  | write failure entries =>
      obtain ⟨rfl, distinct, free⟩ := careful
      rcases step_write taken with ⟨rfl, _⟩ | ⟨rfl, full⟩ | ⟨invalid, _⟩
      · exact live.applied distinct
      · exact (live.applied distinct).frozen (free full)
      · rw [live.valid] at invalid
        exact absurd invalid (by simp)
  | snapshotNow => rw [← Option.some.inj taken]; exact live.snapshotNow
  | releaseSnapshot seq => rw [← Option.some.inj taken]; exact live.releaseSnapshot seq
  | beginFlush =>
      rcases step_beginFlush taken with rfl | rfl
      · exact live
      · exact live.frozen careful
  | finishFlush index bloom putFails =>
      have wired := live.wired.step _ (fun _ same => by cases same) taken
      obtain ⟨pending, found, ⟨rfl, _⟩ | rfl⟩ := step_finishFlush taken
      · exact live.retask wired rfl rfl rfl (Or.inl (live.inFlight.eraseIdx found)) sameTasks
      · exact live.retask wired rfl rfl rfl (live.inFlight.set found rfl rfl) sameTasks
  | commitFlush index fault threshold =>
      have wired := live.wired.step _ (fun _ same => by cases same) taken
      obtain ⟨pending, table, segments, found, ⟨rfl, _⟩ | ⟨_, done, rfl, rfl | rfl, _⟩⟩ :=
        step_commitFlush taken
      · exact live.retask wired rfl rfl rfl (Or.inl (live.inFlight.eraseIdx found)) sameTasks
      · exact live.flushed found
      · exact (live.flushed found).captured
  | beginCompact =>
      rcases step_beginCompact taken with rfl | rfl
      · exact live
      · exact live.captured
  | finishCompact index bloom putFails =>
      have wired := live.wired.step _ (fun _ same => by cases same) taken
      obtain ⟨pending, found, ⟨rfl, _⟩ | ⟨table, tableExact, rfl⟩⟩ := step_finishCompact taken
      · refine live.retask wired rfl rfl rfl live.inFlight fun task member => ?_
        exact ⟨task, (List.eraseIdx_sublist _ _).subset member, rfl⟩
      · exact live.retask wired rfl rfl rfl live.inFlight
          (mem_set_of_getElem? CompactTask.pending found rfl)
  | commitCompact index saveFails deleteFails =>
      have wired := live.wired.step _ (fun _ same => by cases same) taken
      obtain ⟨pending, table, found, ⟨rfl, _⟩ | ⟨_, objects, rfl, kept⟩⟩ := step_commitCompact taken
      · refine live.retask wired rfl rfl rfl live.inFlight fun task member => ?_
        exact ⟨task, (List.eraseIdx_sublist _ _).subset member, rfl⟩
      · simp only [Careful, MayCompact, found] at careful
        obtain ⟨allListed, apart, gapFree⟩ := careful
        exact live.compacted found kept
          (live.wired.present_of_allListed (List.mem_of_getElem? found) allListed)
          (fun survivor member => (apart survivor member).keysApart)
          fun read member => (gapFree read member).noGap
  | startRead key =>
      rw [← Option.some.inj taken]
      refine live.observe host.engine.write.openSnapshots _ (fun entry member => ?_) ?_
      · exact Or.inr ⟨entry.2, member⟩
      · intro read member
        rcases List.mem_append.mp member with member | member
        · exact Or.inr member
        · exact Or.inl (by rw [List.mem_singleton.mp member])
  | endRead index =>
      rw [← Option.some.inj taken]
      refine live.observe host.engine.write.openSnapshots _ (fun entry member => ?_) ?_
      · exact Or.inr ⟨entry.2, member⟩
      · intro read member
        exact Or.inr ((List.eraseIdx_sublist _ _).subset member)
  | setLease lease => exact absurd careful (by simp [Careful])
  | reopen unreadable => exact absurd careful (by simp [Careful])

theorem Live.of_reaches [DecidableEq ETag] {manifestEtag : Manifest → ETag}
    {leaseEtag : Lease → ETag} {token : Nat} {allowed : Host ETag → Action → Prop}
    (careful : ∀ host action, allowed host action → host.Careful action) :
    ∀ host, Reaches Host.step allowed (start manifestEtag leaseEtag ⟨token, true⟩) host →
      host.Live :=
  Reaches.invariant _ (Live.started _ _ _) fun host action _ live guard taken =>
    live.step action (careful host action guard) taken

end Host

end Pantheon.Keystone
