import Mathlib
import Pantheon.Keystone.MergeReads
import Pantheon.Keystone.TornReads

/-!
# Writes that return an error

`write_batch` logs a batch, inserts it and may then start a flush.  It fails
while logging, with some of the batch's bytes in the file, or after the
inserts, when the flush finds the lease gone.

A read asks the newest row of the memtable first.  So the outcome of a failed
write is decided by the records that it makes the live and the recovered engine
insert, and by whether they say anything new.
-/

set_option autoImplicit false

namespace Pantheon.Keystone

open Pantheon.Lib

/-! ## Reading at the latest sequence -/

theorem lookEntries_latest {entries : List Entry} {key : Bytes} {snapshotSeq : Nat}
    (sorted : entries.Pairwise fun left right => left.1 ≤ right.1)
    (all : ∀ entry ∈ entries, entry.1.seq ≤ snapshotSeq) :
    lookEntries entries key snapshotSeq = (keyEntries key entries).head?.map Entry.value := by
  rw [lookEntries_eq_find key snapshotSeq entries sorted]
  cases rows : keyEntries key entries with
  | nil => rfl
  | cons entry rest =>
      have member : entry ∈ keyEntries key entries := rows ▸ List.mem_cons_self
      have visible := all entry (List.mem_filter.mp member).1
      rw [List.find?_cons_of_pos (by simpa using visible), List.head?_cons]

theorem MemTable.getAt_latest {table : MemTable} {key : Bytes} {snapshotSeq : Nat}
    (all : ∀ version ∈ table.versions, version.seq ≤ snapshotSeq) :
    table.getAt key snapshotSeq = (keyEntries key table.data.toList).head?.map Entry.value :=
  lookEntries_latest table.toEntries.sorted fun entry member => all _ ⟨entry, member, rfl⟩

theorem findSome?_congr {Source Result : Type} {look other : Source → Option Result} :
    ∀ {sources : List Source}, (∀ source ∈ sources, look source = other source) →
      sources.findSome? look = sources.findSome? other := by
  intro sources
  induction sources with
  | nil => intro _; rfl
  | cons source rest ih =>
      intro same
      rw [List.findSome?_cons, List.findSome?_cons, same source List.mem_cons_self,
        ih fun later member => same later (List.mem_cons_of_mem _ member)]

namespace EngineView

def Within (view : EngineView) (snapshotSeq : Nat) : Prop :=
  ∀ version ∈ view.versions, version.seq ≤ snapshotSeq

def latest (view : EngineView) (key : Bytes) : Option Bytes :=
  match (keyEntries key view.memtable.data.toList).head?.map Entry.value with
  | some value => value
  | none =>
      match view.immutable.bind fun frozen =>
          (keyEntries key frozen.data.toList).head?.map Entry.value with
      | some value => value
      | none => (view.sstables.reverse.findSome? fun table =>
          (keyEntries key table.run.entries).head?.map Entry.value).join

theorem readAt_latest {view : EngineView} {snapshotSeq : Nat} (within : view.Within snapshotSeq)
    (key : Bytes) : view.readAt key snapshotSeq = view.latest key := by
  have mem : view.memtable.getAt key snapshotSeq =
      (keyEntries key view.memtable.data.toList).head?.map Entry.value :=
    MemTable.getAt_latest fun version held => within version (Or.inl (Or.inl held))
  have frozen : (view.immutable.bind fun frozen => frozen.getAt key snapshotSeq) =
      view.immutable.bind fun frozen =>
        (keyEntries key frozen.data.toList).head?.map Entry.value := by
    cases occupied : view.immutable with
    | none => rfl
    | some frozen =>
        refine MemTable.getAt_latest fun version held => within version (Or.inl (Or.inr ?_))
        exact ⟨frozen, occupied, held⟩
  have tables : (view.sstables.reverse.findSome? fun table => table.readAt key snapshotSeq) =
      view.sstables.reverse.findSome? fun table =>
        (keyEntries key table.run.entries).head?.map Entry.value := by
    refine findSome?_congr fun table member => ?_
    rw [table.readAt_eq]
    refine lookEntries_latest table.run.sorted fun entry entryMember => ?_
    exact within entry.version (Or.inr ⟨table, List.mem_reverse.mp member, entry, entryMember, rfl⟩)
  unfold readAt
  rw [mem, frozen, tables]
  rfl

end EngineView

/-! ## Records over a memtable -/

theorem keyEntries_head?_iff {key : Bytes} {entries : List Entry}
    (sorted : entries.Pairwise fun left right => left.1 < right.1) {entry : Entry} :
    (keyEntries key entries).head? = some entry ↔
      entry ∈ keyEntries key entries ∧ ∀ other ∈ keyEntries key entries, entry.1 ≤ other.1 := by
  have rows : (keyEntries key entries).Pairwise fun left right => left.1 < right.1 :=
    sorted.filter _
  cases list : keyEntries key entries with
  | nil => simp
  | cons first rest =>
      rw [list] at rows
      have before : ∀ later ∈ rest, first.1 < later.1 := fun later =>
        List.rel_of_pairwise_cons rows
      rw [List.head?_cons, Option.some.injEq]
      constructor
      · rintro rfl
        refine ⟨List.mem_cons_self, fun other member => ?_⟩
        rcases List.mem_cons.mp member with rfl | later
        · exact le_rfl
        · exact le_of_lt (before other later)
      · rintro ⟨member, least⟩
        rcases List.mem_cons.mp member with same | later
        · exact same.symm
        · exact absurd (least first List.mem_cons_self) (not_le_of_gt (before entry later))

def recordsLook (records : List WalRecord) (key : Bytes) : Option Entry :=
  (keyEntries key
    (LsmEngine.replayInto (MemTable.new memtableMaxSize) records).data.toList).head?

theorem mem_replayInto_over (old : MemTable) : ∀ (records : List WalRecord) (table alone : MemTable),
    (∀ entry, entry ∈ table.data.toList ↔ entry ∈ alone.data.toList ∨
      entry ∈ old.data.toList ∧ ∀ other ∈ alone.data.toList, other.1 ≠ entry.1) →
    ∀ entry, entry ∈ (LsmEngine.replayInto table records).data.toList ↔
      entry ∈ (LsmEngine.replayInto alone records).data.toList ∨ entry ∈ old.data.toList ∧
        ∀ other ∈ (LsmEngine.replayInto alone records).data.toList, other.1 ≠ entry.1 := by
  intro records
  induction records with
  | nil => exact fun table alone same => same
  | cons record rest ih =>
      intro table alone same
      refine ih _ _ fun entry => ?_
      have inserted : ∀ (target : MemTable) (entry : Entry), entry ∈ (target.insert record.key
            record.seq record.value record.recordType).data.toList ↔
          entry = (⟨record.key, record.seq, record.recordType⟩, record.value) ∨
            entry ∈ target.data.toList ∧
              entry.1 ≠ ⟨record.key, record.seq, record.recordType⟩ :=
        fun target entry => target.data.mem_insert _ _ entry
      rw [inserted, inserted, same]
      simp only [inserted]
      constructor
      · rintro (fresh | ⟨aloneHeld | ⟨oldHeld, apart⟩, differs⟩)
        · exact Or.inl (Or.inl fresh)
        · exact Or.inl (Or.inr ⟨aloneHeld, differs⟩)
        · refine Or.inr ⟨oldHeld, ?_⟩
          rintro other (rfl | ⟨otherHeld, _⟩)
          · exact differs.symm
          · exact apart other otherHeld
      · rintro ((fresh | ⟨aloneHeld, differs⟩) | ⟨oldHeld, apart⟩)
        · exact Or.inl fresh
        · exact Or.inr ⟨Or.inl aloneHeld, differs⟩
        · have differs : entry.1 ≠ ⟨record.key, record.seq, record.recordType⟩ :=
            (apart _ (Or.inl rfl)).symm
          refine Or.inr ⟨Or.inr ⟨oldHeld, fun other otherHeld same => ?_⟩, differs⟩
          exact apart other (Or.inr ⟨otherHeld, same ▸ differs⟩) same

def EngineView.under (view : EngineView) (records : List WalRecord) : EngineView :=
  { view with memtable := LsmEngine.replayInto view.memtable records }

def EngineView.Shadows (view : EngineView) (entry : Entry) : Prop :=
  ∃ held ∈ keyEntries entry.1.userKey view.memtable.data.toList, held.1 < entry.1

/-- A read asks the newest row of the memtable: one of the records, unless an older table of rows
has a newer one. -/
theorem EngineView.latest_under_iff (view : EngineView) (records : List WalRecord) (key : Bytes) :
    (view.under records).latest key = view.latest key ↔
      ∀ entry, recordsLook records key = some entry → ¬view.Shadows entry →
        view.latest key = entry.value := by
  set alone := LsmEngine.replayInto (MemTable.new memtableMaxSize) records with aloneExact
  have members : ∀ entry, entry ∈ (view.under records).memtable.data.toList ↔
      entry ∈ alone.data.toList ∨ entry ∈ view.memtable.data.toList ∧
        ∀ other ∈ alone.data.toList, other.1 ≠ entry.1 :=
    mem_replayInto_over view.memtable records view.memtable (MemTable.new memtableMaxSize)
      (by simp [MemTable.new])
  have rows : ∀ entry, entry ∈ keyEntries key (view.under records).memtable.data.toList ↔
      entry ∈ keyEntries key alone.data.toList ∨ entry ∈ keyEntries key view.memtable.data.toList ∧
        ∀ other ∈ alone.data.toList, other.1 ≠ entry.1 := by
    intro entry
    simp only [keyEntries, List.mem_filter, members entry]
    tauto
  have unchanged : (keyEntries key (view.under records).memtable.data.toList).head? =
      (keyEntries key view.memtable.data.toList).head? →
        (view.under records).latest key = view.latest key := by
    intro same
    unfold latest
    rw [same]
    rfl
  cases said : recordsLook records key with
  | none =>
      have silent : keyEntries key alone.data.toList = [] := List.head?_eq_none_iff.mp said
      refine iff_of_true (unchanged ?_) fun _ found =>
        absurd found.symm (Option.some_ne_none _)
      refine congrArg List.head? (OrdMap.sorted_ext ((OrdMap.sorted _).filter _)
        ((OrdMap.sorted _).filter _) fun entry => ?_)
      change entry ∈ keyEntries key _ ↔ entry ∈ keyEntries key _
      rw [rows, silent]
      refine ⟨fun held => held.resolve_left List.not_mem_nil |>.1, fun held => Or.inr ⟨held, ?_⟩⟩
      intro other otherHeld sameKey
      have ofKey : other ∈ keyEntries key alone.data.toList := by
        refine List.mem_filter.mpr ⟨otherHeld, ?_⟩
        rw [sameKey]
        exact (List.mem_filter.mp held).2
      rw [silent] at ofKey
      exact List.not_mem_nil ofKey
  | some entry =>
      obtain ⟨entryHeld, entryLeast⟩ := (keyEntries_head?_iff alone.data.sorted).mp said
      have entryKey : entry.1.userKey = key := of_decide_eq_true (List.mem_filter.mp entryHeld).2
      simp only [Option.some.injEq, forall_eq']
      by_cases shadowed : view.Shadows entry
      · refine iff_of_true (unchanged ?_) fun free => absurd shadowed free
        obtain ⟨held, heldMember, front⟩ := shadowed
        rw [entryKey] at heldMember
        obtain ⟨first, firstExact⟩ := Option.isSome_iff_exists.mp
          (List.isSome_head?.mpr (List.ne_nil_of_mem heldMember))
        obtain ⟨firstHeld, firstLeast⟩ := (keyEntries_head?_iff view.memtable.data.sorted).mp firstExact
        have before : first.1 < entry.1 := (firstLeast held heldMember).trans_lt front
        have firstKey := of_decide_eq_true (List.mem_filter.mp firstHeld).2
        rw [firstExact]
        refine (keyEntries_head?_iff (OrdMap.sorted _)).mpr ⟨(rows first).mpr (Or.inr ⟨firstHeld, ?_⟩), ?_⟩
        · intro other otherHeld sameKey
          have ofKey : other ∈ keyEntries key alone.data.toList :=
            List.mem_filter.mpr ⟨otherHeld, decide_eq_true (sameKey ▸ firstKey)⟩
          exact absurd (entryLeast other ofKey) (not_le_of_gt (sameKey ▸ before))
        · intro other otherMember
          rcases (rows other).mp otherMember with inAlone | ⟨inOld, _⟩
          · exact (le_of_lt before).trans (entryLeast other inAlone)
          · exact firstLeast other inOld
      · have first : (keyEntries key (view.under records).memtable.data.toList).head? =
            some entry := by
          refine (keyEntries_head?_iff (OrdMap.sorted _)).mpr
            ⟨(rows entry).mpr (Or.inl entryHeld), fun other otherMember => ?_⟩
          rcases (rows other).mp otherMember with inAlone | ⟨inOld, _⟩
          · exact entryLeast other inAlone
          · exact le_of_not_gt fun front => shadowed ⟨other, entryKey ▸ inOld, front⟩
        have reads : (view.under records).latest key = entry.value := by
          unfold latest
          rw [first]
          rfl
        rw [reads]
        exact ⟨fun same _ => same.symm, fun same => (same shadowed).symm⟩

theorem EngineView.Within.under {view : EngineView} {snapshotSeq : Nat} {commit : Commit}
    (within : view.Within snapshotSeq) (reaches : commit.seq ≤ snapshotSeq) :
    (view.under commit.walBatch.records).Within snapshotSeq := by
  rintro version ((inMem | inFrozen) | inTables)
  · unfold EngineView.under at inMem
    rw [replayInto_walBatch] at inMem
    rcases mem_insertBatch_sub commit.seq version commit.entries view.memtable inMem with
      earlier | fresh
    · exact within version (Or.inl (Or.inl earlier))
    · rw [commit_seq_of_mem fresh]
      exact reaches
  · exact within version (Or.inl (Or.inr inFrozen))
  · exact within version (Or.inr inTables)

/-! ## Replay of a longer log -/

theorem splitExact_longer {count : Nat} {bytes front rest : Bytes}
    (found : splitExact count bytes = some (front, rest)) (more : Bytes) :
    splitExact count (bytes ++ more) = some (front, rest ++ more) := by
  obtain ⟨rfl, rfl⟩ := splitExact_eq_some count bytes front rest found
  rw [List.append_assoc]
  exact splitExact_append front (rest ++ more)

theorem parseRecord_longer {seq : Nat} {buf rest : Bytes} {record : WalRecord}
    (parsed : parseRecord seq buf = some (record, rest)) (more : Bytes) :
    parseRecord seq (buf ++ more) = some (record, rest ++ more) := by
  simp only [parseRecord, Option.bind_eq_bind, Option.bind_eq_some_iff, Prod.exists] at parsed
  obtain ⟨_, _, tableLen, _, _, table, _, _, keyLen, _, _, key, _, _, valueLen, _, _, value, _, _,
    recordType, same⟩ := parsed
  cases same
  simp only [parseRecord, Option.bind_eq_bind, splitExact_longer tableLen, splitExact_longer table,
    splitExact_longer keyLen, splitExact_longer key, splitExact_longer valueLen,
    splitExact_longer value, splitExact_longer recordType, Option.bind_some]

theorem parseRecords_longer {seq : Nat} : ∀ {count : Nat} {buf rest : Bytes}
    {records : List WalRecord}, parseRecords seq count buf = some (records, rest) →
    ∀ more : Bytes, parseRecords seq count (buf ++ more) = some (records, rest ++ more) := by
  intro count
  induction count with
  | zero =>
      intro buf rest records parsed more
      cases parsed
      rfl
  | succ count ih =>
      intro buf rest records parsed more
      simp only [parseRecords, Option.bind_eq_bind, Option.bind_eq_some_iff, Prod.exists] at parsed
      obtain ⟨record, behind, first, later, last, others, same⟩ := parsed
      cases same
      simp only [parseRecords, Option.bind_eq_bind, parseRecord_longer first, ih others,
        Option.bind_some]

theorem replayLoop_longer : ∀ (fuel other : Nat) (buf more : Bytes) (maxSeq start : Nat),
    (buf ++ more).length < other →
    (replayLoop fuel buf maxSeq).1 <+: (replayLoop other (buf ++ more) start).1 := by
  intro fuel
  induction fuel with
  | zero => exact fun _ _ _ _ _ _ => List.nil_prefix
  | succ fuel ih =>
      intro other buf more maxSeq start enough
      obtain ⟨other, rfl⟩ := Nat.exists_eq_succ_of_ne_zero (Nat.ne_of_gt (Nat.zero_lt_of_lt enough))
      rw [replayLoop]
      split_ifs with stop
      · exact List.nil_prefix
      · push Not at stop
        obtain ⟨long, marked⟩ := stop
        have begins : ¬((buf ++ more).length < 1 + 8 + 4 ∨
            (buf ++ more).head? ≠ some batchMarker) := by
          rw [List.length_append, List.head?_append, marked]
          simp only [Option.some_or, ne_eq, not_true_eq_false, or_false]
          omega
        have seqRead : ((buf ++ more).drop 1).take 8 = (buf.drop 1).take 8 := by
          rw [List.drop_append_of_le_length (by omega),
            List.take_append_of_le_length (by rw [List.length_drop]; omega)]
        have countRead : ((buf ++ more).drop 9).take 4 = (buf.drop 9).take 4 := by
          rw [List.drop_append_of_le_length (by omega),
            List.take_append_of_le_length (by rw [List.length_drop]; omega)]
        have bodyRead : (buf ++ more).drop 13 = buf.drop 13 ++ more :=
          List.drop_append_of_le_length (by omega)
        rw [replayLoop, if_neg begins, seqRead, countRead, bodyRead]
        dsimp only
        cases parsed : parseRecords (ofBe ((buf.drop 1).take 8)) (ofBe ((buf.drop 9).take 4))
            (buf.drop 13) with
        | none => exact List.nil_prefix
        | some pair =>
            obtain ⟨records, rest⟩ := pair
            have shorter := parseRecords_length _ _ _ _ _ parsed
            rw [List.length_drop] at shorter
            rw [List.length_append] at enough
            rw [parseRecords_longer parsed more]
            dsimp only
            refine (List.prefix_append_right_inj records).mpr (ih other rest more _ _ ?_)
            rw [List.length_append]
            omega

theorem replayFrom_longer (front more : Bytes) (maxSeq : Nat) :
    (replayFrom front maxSeq).1 <+: (replayFrom (front ++ more) maxSeq).1 :=
  replayLoop_longer _ _ front more maxSeq maxSeq (Nat.lt_succ_self _)

/-! ## All that is held is below the counter -/

def FlushTask.held (task : FlushTask) : Set (Version Bytes Bytes) :=
  task.pending.entries.versions ∪
    {version | ∃ table, task.built = some table ∧ version ∈ table.versions}

def CompactTask.held (task : CompactTask) : Set (Version Bytes Bytes) :=
  tableVersions task.pending.sstables ∪
    {version | ∃ table, task.built = some table ∧ version ∈ table.versions}

namespace Host

variable {ETag : Type} {host next : Host ETag}

def held (host : Host ETag) : Set (Version Bytes Bytes) :=
  host.engine.view.versions ∪ {version | ∃ task ∈ host.flushes, version ∈ task.held} ∪
    {version | ∃ task ∈ host.compactions, version ∈ task.held}

def HeldBelow (host : Host ETag) : Prop :=
  ∀ version ∈ host.held, version.seq < host.engine.write.nextCommitSeq

theorem HeldBelow.keep (below : host.HeldBelow) (part : next.held ⊆ host.held)
    (counted : host.engine.write.nextCommitSeq ≤ next.engine.write.nextCommitSeq) :
    next.HeldBelow := fun version member => (below version (part member)).trans_le counted

theorem held_mono
    (view : next.engine.view.versions ⊆ host.held)
    (flushes : ∀ task ∈ next.flushes, task.held ⊆ host.held)
    (compactions : ∀ task ∈ next.compactions, task.held ⊆ host.held) : next.held ⊆ host.held := by
  rintro version ((inView | ⟨task, member, inTask⟩) | ⟨task, member, inTask⟩)
  · exact view inView
  · exact flushes task member inTask
  · exact compactions task member inTask

theorem view_held (host : Host ETag) : host.engine.view.versions ⊆ host.held :=
  fun _ member => Or.inl (Or.inl member)

theorem flush_held {task : FlushTask} (member : task ∈ host.flushes) : task.held ⊆ host.held :=
  fun _ inTask => Or.inl (Or.inr ⟨task, member, inTask⟩)

theorem compaction_held {task : CompactTask} (member : task ∈ host.compactions) :
    task.held ⊆ host.held := fun _ inTask => Or.inr ⟨task, member, inTask⟩

theorem held_tasks (view : next.engine.view.versions ⊆ host.held)
    (flushes : ∀ task ∈ next.flushes, task ∈ host.flushes)
    (compactions : ∀ task ∈ next.compactions, task ∈ host.compactions) :
    next.held ⊆ host.held :=
  held_mono view (fun task member => flush_held (flushes task member))
    fun task member => compaction_held (compactions task member)

theorem HeldBelow.applied (below : host.HeldBelow) (entries : List BatchEntry) :
    (host.applied entries).HeldBelow := by
  have earlier : ∀ version ∈ host.held, version.seq < host.engine.write.nextCommitSeq + 1 :=
    fun version member => (below version member).trans (Nat.lt_succ_self _)
  rintro version ((((inMem | inFrozen) | inTables) | inFlushes) | inCompactions)
  · rcases mem_insertBatch_sub _ version entries host.engine.view.memtable inMem with before | fresh
    · exact earlier version (Or.inl (Or.inl (Or.inl (Or.inl before))))
    · rw [commit_seq_of_mem fresh]
      exact Nat.lt_succ_self _
  · exact earlier version (Or.inl (Or.inl (Or.inl (Or.inr inFrozen))))
  · exact earlier version (Or.inl (Or.inl (Or.inr inTables)))
  · exact earlier version (Or.inl (Or.inr inFlushes))
  · exact earlier version (Or.inr inCompactions)

theorem held_frozen : host.frozen.held ⊆ host.held := by
  have memHeld : host.engine.view.memtable.versions ⊆ host.held :=
    fun version inMem => view_held host (Or.inl (Or.inl inMem))
  refine held_mono ?_ ?_ fun task member => compaction_held member
  · rintro version ((inMem | ⟨frozen, exact, inFrozen⟩) | inTables)
    · exact absurd inMem (by rw [EngineView.memVersions, Host.frozen, MemTable.new_versions]; simp)
    · cases Option.some.inj exact
      exact memHeld inFrozen
    · exact view_held host (Or.inr inTables)
  · intro task member
    rcases mem_frozen_flushes member with before | rfl
    · exact flush_held before
    · rintro version (inEntries | ⟨table, built, _⟩)
      · exact memHeld inEntries
      · exact absurd built (by simp)

theorem held_captured : host.captured.held ⊆ host.held := by
  refine held_mono (fun version member => view_held host member) (fun task member => flush_held member) ?_
  intro task member
  rcases mem_captured_compactions member with before | ⟨rfl, _⟩
  · exact compaction_held before
  · rintro version (inTables | ⟨table, built, _⟩)
    · exact view_held host (Or.inr inTables)
    · exact absurd built (by simp)

theorem held_flushed {index : Nat} {segments : Nat → Option Bytes} {fault : Option TruncateFault}
    {pending : PendingFlush} {table : SSTable}
    (found : host.flushes[index]? = some ⟨pending, some table⟩) :
    (host.flushed index segments fault pending table).held ⊆ host.held := by
  refine held_tasks ?_ (fun task member => List.mem_of_mem_eraseIdx member) fun task member => member
  rintro version ((inMem | ⟨frozen, gone, _⟩) | ⟨live, liveMember, inLive⟩)
  · exact view_held host (Or.inl (Or.inl inMem))
  · exact absurd gone (by simp [Host.flushed])
  · rcases List.mem_append.mp liveMember with before | installed
    · exact view_held host (Or.inr ⟨live, before, inLive⟩)
    · cases List.mem_singleton.mp installed
      exact flush_held (List.mem_of_getElem? found) (Or.inr ⟨table, rfl, inLive⟩)

theorem held_compacted {index : Nat} {objects : Nat → Option SSTable}
    {pending : PendingCompaction} {table : SSTable}
    (found : host.compactions[index]? = some ⟨pending, some table⟩) :
    (host.compacted index objects pending table).held ⊆ host.held := by
  refine held_tasks ?_ (fun task member => member) fun task member => List.mem_of_mem_eraseIdx member
  rintro version ((inMem | inFrozen) | ⟨live, liveMember, inLive⟩)
  · exact view_held host (Or.inl (Or.inl inMem))
  · exact view_held host (Or.inl (Or.inr inFrozen))
  · rcases List.mem_append.mp liveMember with survivor | installed
    · exact view_held host (Or.inr ⟨live, (List.mem_filter.mp survivor).1, inLive⟩)
    · cases List.mem_singleton.mp installed
      exact compaction_held (List.mem_of_getElem? found) (Or.inr ⟨table, rfl, inLive⟩)

theorem foldl_max_le_tables {tables : List SSTable} {table : SSTable} (member : table ∈ tables) :
    table.maxSeq ≤ tables.foldl (fun highest table => max highest table.maxSeq) 0 := by
  have reach : ∀ (tables : List SSTable) (start : Nat),
      start ≤ tables.foldl (fun highest table => max highest table.maxSeq) start ∧
        ∀ table ∈ tables,
          table.maxSeq ≤ tables.foldl (fun highest table => max highest table.maxSeq) start := by
    intro tables
    induction tables with
    | nil => intro start; simp
    | cons head rest ih =>
        intro start
        obtain ⟨startLe, restLe⟩ := ih (max start head.maxSeq)
        refine ⟨(le_max_left _ _).trans startLe, ?_⟩
        intro table member
        rcases List.mem_cons.mp member with rfl | member
        · exact (le_max_right _ _).trans startLe
        · exact restLe table member
  exact (reach tables 0).2 table member

theorem openEngine_within (file : Bytes) (store : ObjectStore ETag) (lease : LeaseHandle)
    (unreadable : Nat → Bool) :
    let engine := LsmEngine.openEngine file store lease unreadable
    engine.view.Within engine.currentSeq := by
  rintro engine version ((inMem | ⟨frozen, none, _⟩) | ⟨table, tableMember, inTable⟩)
  · obtain ⟨entry, member, rfl⟩ := inMem
    rcases mem_replayInto_seq _ _ entry member with earlier | ⟨record, listed, same⟩
    · exact absurd earlier List.not_mem_nil
    · have recovered : record ∈ (replayFrom file 0).1 := listed
      have bounded := replayLoop_bounded _ _ _ record recovered
      rw [Entry.version_seq, same]
      exact (bounded.trans (le_max_left _ _)).trans (le_max_left _ _)
  · exact absurd none (by simp [engine, LsmEngine.openEngine])
  · have loaded := (List.mem_insertionSort _).mp tableMember
    refine (table.le_maxSeq version inTable).trans ((foldl_max_le_tables loaded).trans ?_)
    exact (le_max_right _ _).trans (le_max_left _ _)

theorem HeldBelow.step [DecidableEq ETag] (below : host.HeldBelow) (action : Action)
    (taken : host.step action = some next) : next.HeldBelow := by
  cases action with
  | write failure entries =>
      cases failure with
      | none =>
          rcases step_write taken with ⟨rfl, _⟩ | ⟨rfl, _⟩ | ⟨_, rfl⟩
          · exact below.applied entries
          · exact (below.applied entries).keep held_frozen le_rfl
          · exact (below.applied entries).keep (fun _ member => member) le_rfl
      | some written =>
          rw [step_write_failed taken]
          exact below.keep (fun _ member => member) (Nat.le_succ _)
  | snapshotNow =>
      rw [← Option.some.inj taken]
      exact below.keep (fun _ member => member) le_rfl
  | releaseSnapshot seq =>
      obtain ⟨snapshots, rfl⟩ := step_releaseSnapshot taken
      exact below.keep (fun _ member => member) le_rfl
  | beginFlush =>
      rcases step_beginFlush taken with rfl | rfl
      · exact below
      · exact below.keep held_frozen le_rfl
  | finishFlush index bloom putFails =>
      obtain ⟨pending, found, ⟨rfl, _⟩ | rfl⟩ := step_finishFlush taken
      · exact below.keep (held_tasks (view_held host) (fun task member => List.mem_of_mem_eraseIdx member)
          fun task member => member) le_rfl
      · refine below.keep (held_mono (view_held host) ?_ fun task member => compaction_held member) le_rfl
        intro task member
        rcases List.mem_or_eq_of_mem_set member with before | rfl
        · exact flush_held before
        · rintro version (inEntries | ⟨table, built, inTable⟩)
          · exact flush_held (List.mem_of_getElem? found) (Or.inl inEntries)
          · cases Option.some.inj built
            exact flush_held (List.mem_of_getElem? found) (Or.inl inTable)
  | commitFlush index fault threshold =>
      obtain ⟨pending, table, segments, found, ⟨rfl, _⟩ | ⟨_, done, rfl, rfl | rfl, _⟩⟩ :=
        step_commitFlush taken
      · exact below.keep (held_tasks (view_held host) (fun task member => List.mem_of_mem_eraseIdx member)
          fun task member => member) le_rfl
      · exact below.keep (held_flushed found) le_rfl
      · exact below.keep (held_captured.trans (held_flushed found)) le_rfl
  | beginCompact =>
      rcases step_beginCompact taken with rfl | rfl
      · exact below
      · exact below.keep held_captured le_rfl
  | finishCompact index bloom putFails =>
      obtain ⟨pending, found, ⟨rfl, _⟩ | ⟨table, tableExact, rfl⟩⟩ := step_finishCompact taken
      · exact below.keep (held_tasks (view_held host) (fun task member => member)
          fun task member => List.mem_of_mem_eraseIdx member) le_rfl
      · refine below.keep (held_mono (view_held host) (fun task member => flush_held member) ?_) le_rfl
        intro task member
        rcases List.mem_or_eq_of_mem_set member with before | rfl
        · exact compaction_held before
        · rintro version (inTables | ⟨built, exact, inTable⟩)
          · exact compaction_held (List.mem_of_getElem? found) (Or.inl inTables)
          · cases Option.some.inj exact
            rw [tableExact] at inTable
            exact compaction_held (List.mem_of_getElem? found)
              (Or.inl (LsmEngine.mergeEntries_sub _ _ inTable))
  | commitCompact index saveFails deleteFails =>
      obtain ⟨pending, table, found, ⟨rfl, _⟩ | ⟨_, objects, rfl, _⟩⟩ := step_commitCompact taken
      · exact below.keep (held_tasks (view_held host) (fun task member => member)
          fun task member => List.mem_of_mem_eraseIdx member) le_rfl
      · exact below.keep (held_compacted found) le_rfl
  | startRead key | endRead index | setLease lease =>
      rw [← Option.some.inj taken]
      exact below.keep (fun _ member => member) le_rfl
  | reopen unreadable =>
      rw [← Option.some.inj taken]
      rintro version ((inView | ⟨task, none, _⟩) | ⟨task, none, _⟩)
      · exact Nat.lt_succ_of_le (openEngine_within _ _ _ _ version inView)
      · exact absurd none List.not_mem_nil
      · exact absurd none List.not_mem_nil

theorem heldBelow_of_reaches [DecidableEq ETag] {manifestEtag : Manifest → ETag}
    {leaseEtag : Lease → ETag} {lease : LeaseHandle} {allowed : Host ETag → Action → Prop}
    (reached : Reaches Host.step allowed (start manifestEtag leaseEtag lease) host) :
    host.HeldBelow := by
  refine Reaches.invariant HeldBelow ?_ (fun _ action _ below _ taken => below.step action taken)
    host reached
  rintro version ((inView | ⟨task, none, _⟩) | ⟨task, none, _⟩)
  · exact Nat.lt_succ_of_le (openEngine_within _ _ _ _ version inView)
  · exact absurd none List.not_mem_nil
  · exact absurd none List.not_mem_nil

/-! ## What a failed write leaves -/

def reaching (host : Host ETag) (failure : Option Nat) (entries : List BatchEntry) : Bytes :=
  let buf := encodeBatch (Commit.walBatch ⟨host.engine.write.nextCommitSeq, entries⟩)
  match failure with
  | none => buf
  | some written => buf.take written

def acknowledgedLog (host : Host ETag) : Bytes := host.walFile.take host.engine.write.wal.io.offset

/-- The engine that a crash and an open lead to when the log file is `file`. -/
def openedFrom (host : Host ETag) (file : Bytes) (unreadable : Nat → Bool) : LsmEngine ETag :=
  LsmEngine.openEngine file host.store host.engine.lease unreadable

/-- The records that the log replays behind those of the acknowledged part, once the bytes of the
call lie over whatever an earlier call has left there. -/
def stray (host : Host ETag) (failure : Option Nat) (entries : List BatchEntry) : List WalRecord :=
  (replayFrom (writeAt host.walFile host.engine.write.wal.io.offset
    (host.reaching failure entries)) 0).1.drop (replayFrom host.acknowledgedLog 0).1.length

/-- Live and recovered, `engine` reads at its current sequence as `host` did
before; recovered, as from the log that was acknowledged. -/
structure Unaffected (host : Host ETag) (engine : LsmEngine ETag) : Prop where
  reads : ∀ key, engine.readAt key engine.currentSeq =
    host.engine.readAt key host.engine.currentSeq
  scan : engine.scanAt engine.currentSeq = host.engine.scanAt host.engine.currentSeq
  recoveredReads : ∀ unreadable key,
    let recovered := host.openedFrom engine.write.wal.io.file unreadable
    let before := host.openedFrom host.acknowledgedLog unreadable
    recovered.readAt key recovered.currentSeq = before.readAt key before.currentSeq
  recoveredScan : ∀ unreadable,
    let recovered := host.openedFrom engine.write.wal.io.file unreadable
    let before := host.openedFrom host.acknowledgedLog unreadable
    recovered.scanAt recovered.currentSeq = before.scanAt before.currentSeq

/-- What the records say of a key last is what the engine reads anyway, or stands behind a newer
row. -/
def SaysNothing (engine : LsmEngine ETag) (records : List WalRecord) : Prop :=
  ∀ key entry, recordsLook records key = some entry → ¬engine.view.Shadows entry →
    engine.readAt key engine.currentSeq = entry.value

/-- The live engine has the batch once it is logged; the recovered one has the stray records. -/
structure KeptOut (host : Host ETag) (failure : Option Nat) (entries : List BatchEntry) :
    Prop where
  live : failure = none → SaysNothing host.engine
    (Commit.walBatch ⟨host.engine.write.nextCommitSeq, entries⟩).records
  recovered : ∀ unreadable, SaysNothing (host.openedFrom host.acknowledgedLog unreadable)
    (host.stray failure entries)

/-- A write that fails has failed to log, or has logged and inserted and then
found the lease gone. -/
theorem writeBatch_error {failure : Option Nat} {entries : List BatchEntry}
    {engine : LsmEngine ETag} {error : StorageError}
    (failed : host.engine.writeBatch failure entries = (engine, .error error)) :
    engine.write.wal.io.file = writeAt host.walFile host.engine.write.wal.io.offset
        (host.reaching failure entries) ∧
      engine.currentSeq = host.engine.write.nextCommitSeq ∧
      engine.view = match failure with
        | some _ => host.engine.view
        | none => host.engine.view.under
            (Commit.walBatch ⟨host.engine.write.nextCommitSeq, entries⟩).records := by
  cases failure with
  | some written =>
      simp only [LsmEngine.writeBatch, Wal.appendBatch, WalIo.append] at failed
      obtain ⟨rfl, _⟩ := Prod.mk.inj failed
      exact ⟨rfl, rfl, rfl⟩
  | none =>
      have inserted : host.engine.view.under
          (Commit.walBatch ⟨host.engine.write.nextCommitSeq, entries⟩).records =
            { host.engine.view with memtable := (LsmEngine.insertBatch host.engine.view.memtable
                host.engine.write.nextCommitSeq entries) } := by
        rw [EngineView.under, replayInto_walBatch]
      rw [inserted]
      simp only [LsmEngine.writeBatch, Wal.appendBatch, WalIo.append] at failed
      split_ifs at failed with full
      · unfold LsmEngine.beginFlush at failed
        cases valid : host.engine.lease.valid with
        | false =>
            simp only [valid, Bool.not_false, if_true] at failed
            obtain ⟨rfl, _⟩ := Prod.mk.inj failed
            exact ⟨rfl, rfl, rfl⟩
        | true =>
            simp only [valid, Bool.not_true, Bool.false_eq_true, if_false] at failed
            split_ifs at failed
            · exact absurd (Prod.mk.inj failed).2 (by simp)
            · exact absurd (Prod.mk.inj failed).2 (by simp)
      · exact absurd (Prod.mk.inj failed).2 (by simp)

theorem openedFrom_reads (host : Host ETag) (file : Bytes) (unreadable : Nat → Bool)
    (key : Bytes) : (host.openedFrom file unreadable).readAt key
      (host.openedFrom file unreadable).currentSeq =
        (host.openedFrom file unreadable).view.latest key :=
  EngineView.readAt_latest (openEngine_within file host.store host.engine.lease unreadable) key

theorem openedFrom_under {front file : Bytes} (unreadable : Nat → Bool) {later : List WalRecord}
    (records : (replayFrom file 0).1 = (replayFrom front 0).1 ++ later) :
    (host.openedFrom file unreadable).view = (host.openedFrom front unreadable).view.under later := by
  simp only [openedFrom, LsmEngine.openEngine, Wal.replay, Wal.openFile, records,
    replayInto_append, EngineView.under]

theorem replay_stray (host : Host ETag) (failure : Option Nat) (entries : List BatchEntry) :
    (replayFrom (writeAt host.walFile host.engine.write.wal.io.offset
        (host.reaching failure entries)) 0).1 =
      (replayFrom host.acknowledgedLog 0).1 ++ host.stray failure entries := by
  have longer : ∃ more, writeAt host.walFile host.engine.write.wal.io.offset
      (host.reaching failure entries) = host.acknowledgedLog ++ more :=
    ⟨_, by rw [writeAt, List.append_assoc, List.append_assoc]; rfl⟩
  obtain ⟨more, split⟩ := longer
  have front := replayFrom_longer host.acknowledgedLog more 0
  rw [stray, split]
  exact (List.prefix_iff_eq_append.mp front).symm

theorem recovered_same_iff {host : Host ETag} {failure : Option Nat} {entries : List BatchEntry}
    {engine : LsmEngine ETag} {error : StorageError}
    (failed : host.engine.writeBatch failure entries = (engine, .error error))
    (unreadable : Nat → Bool) :
    (∀ key, (host.openedFrom engine.write.wal.io.file unreadable).view.latest key =
      (host.openedFrom host.acknowledgedLog unreadable).view.latest key) ↔
    SaysNothing (host.openedFrom host.acknowledgedLog unreadable) (host.stray failure entries) := by
  obtain ⟨fileExact, _, _⟩ := writeBatch_error failed
  have replayed := replay_stray host failure entries
  rw [← fileExact] at replayed
  rw [openedFrom_under unreadable replayed]
  refine forall_congr' fun key => ?_
  rw [EngineView.latest_under_iff, openedFrom_reads]

theorem live_same_iff {host : Host ETag} (below : host.HeldBelow) (memBelow : host.MemBelow)
    {failure : Option Nat} {entries : List BatchEntry} {engine : LsmEngine ETag}
    {error : StorageError}
    (failed : host.engine.writeBatch failure entries = (engine, .error error)) :
    (∀ key, engine.readAt key engine.currentSeq =
      host.engine.readAt key host.engine.currentSeq) ↔
    (failure = none → SaysNothing host.engine
      (Commit.walBatch ⟨host.engine.write.nextCommitSeq, entries⟩).records) := by
  obtain ⟨_, currentExact, viewExact⟩ := writeBatch_error failed
  have counting := memBelow.counting
  have withinBefore : host.engine.view.Within host.engine.currentSeq := by
    intro version member
    have := below version (view_held host member)
    unfold LsmEngine.currentSeq
    omega
  have withinAfter : host.engine.view.Within host.engine.write.nextCommitSeq :=
    fun version member => le_of_lt (below version (view_held host member))
  have before : ∀ key, host.engine.view.readAt key host.engine.currentSeq =
      host.engine.view.latest key := EngineView.readAt_latest withinBefore
  unfold SaysNothing
  simp only [LsmEngine.readAt, before, currentExact]
  rw [viewExact]
  cases failure with
  | some written =>
      exact iff_of_true (fun key => EngineView.readAt_latest withinAfter key)
        fun absent => absurd absent (Option.some_ne_none _)
  | none =>
      have after : ∀ key, (host.engine.view.under
          (Commit.walBatch ⟨host.engine.write.nextCommitSeq, entries⟩).records).readAt key
            host.engine.write.nextCommitSeq = _ :=
        EngineView.readAt_latest (withinAfter.under le_rfl)
      simp only [after, true_implies]
      exact forall_congr' fun key => EngineView.latest_under_iff _ _ key

def leftover : Host (Option Manifest) :=
  { fresh with engine := (fresh.engine.writeBatch (some 5) [⟨"t", [1], some [7]⟩]).1 }

def fencedHost : Host (Option Manifest) :=
  { fresh with engine := { fresh.engine with lease := ⟨1, false⟩ } }

theorem recordsLook_single (value : Bytes) :
    recordsLook (Commit.walBatch ⟨1, [⟨"t", [1], some value⟩]⟩).records [1] =
      some (⟨[1], 1, putTag⟩, value) := by
  rw [recordsLook, replayInto_walBatch]
  simp [LsmEngine.insertBatch, MemTable.insert, MemTable.new, OrdMap.insert,
    OrdMap.empty, OrdMap.insertList, keyEntries, BatchEntry.tag]

theorem writeBatch_filling (value : Bytes) (fills : memtableMaxSize ≤ value.length) :
    ∃ engine, fencedHost.engine.writeBatch none [⟨"t", [1], some value⟩] =
      (engine, .error .fenced) := by
  have full : (LsmEngine.insertBatch fencedHost.engine.view.memtable
      fencedHost.engine.write.nextCommitSeq [⟨"t", [1], some value⟩]).isFull = true := by
    refine decide_eq_true ?_
    change memtableMaxSize ≤ 0 + (1 + value.length + 8 + 1)
    omega
  simp only [LsmEngine.writeBatch, Wal.appendBatch, WalIo.append]
  rw [if_pos full]
  exact ⟨_, rfl⟩

end Host

end Pantheon.Keystone
