import Mathlib
import Pantheon.Lib.Runs
import Pantheon.Keystone.Lsm

/-!
# Runs of one engine against its store

A host holds the engine, the store, and the tasks between the phases: flushes
and compactions that were begun and not yet committed, and reads that loaded
their sequence and have not probed yet.  A task is consumed by its last phase
or dropped when a phase fails, as every caller of the engine does.  `history`
is the ghost record of the batches that returned `Ok`, oldest first.

The second half restates each engine operation by its effect, so that an
invariant of runs is proved effect by effect.
-/

set_option autoImplicit false

namespace Pantheon.Keystone

open Pantheon.Lib

/-- A batch that returned `Ok`, under the sequence it was given. -/
structure Commit where
  seq : Nat
  entries : List BatchEntry
deriving DecidableEq

def BatchEntry.version (entry : BatchEntry) (seq : Nat) : Version Bytes Bytes :=
  ⟨entry.key, seq, entry.value⟩

def Commit.versions (commit : Commit) : Set (Version Bytes Bytes) :=
  {version | ∃ entry ∈ commit.entries, entry.version commit.seq = version}

def committed (history : List Commit) : Set (Version Bytes Bytes) :=
  {version | ∃ commit ∈ history, version ∈ commit.versions}

structure FlushTask where
  pending : PendingFlush
  built : Option SSTable

structure CompactTask where
  pending : PendingCompaction
  built : Option SSTable

structure Host (ETag : Type) where
  engine : LsmEngine ETag
  store : ObjectStore ETag
  flushes : List FlushTask
  compactions : List CompactTask
  reads : List (Bytes × Nat)
  history : List Commit

/-- The phases and calls of one process.  An index picks a task; the faults say
which I/O fails. -/
inductive Action where
  | write (failure : Option Nat) (entries : List BatchEntry)
  | snapshotNow
  | releaseSnapshot (seq : Nat)
  | beginFlush
  | finishFlush (index : Nat) (bloom : Bloom) (putFails : Bool)
  | commitFlush (index : Nat) (fault : Option LsmEngine.CommitFlushFault) (threshold : Nat)
  | beginCompact
  | finishCompact (index : Nat) (bloom : Bloom) (putFails : Bool)
  | commitCompact (index : Nat) (saveFails : Bool) (deleteFails : Nat → Bool)
  | startRead (key : Bytes)
  | endRead (index : Nat)
  | setLease (lease : LeaseHandle)
  | reopen (unreadable : Nat → Bool)

def Action.Succeeds : Action → Prop
  | .write failure _ => failure = none
  | .finishFlush _ _ putFails => putFails = false
  | .commitFlush _ fault _ => fault = none
  | .finishCompact _ _ putFails => putFails = false
  | .commitCompact _ saveFails _ => saveFails = false
  | .startRead _ => False
  | .endRead _ => False
  | .setLease _ => False
  | .reopen _ => False
  | _ => True

instance (action : Action) : Decidable action.Succeeds := by
  induction action using Action.casesOn <;> (dsimp only [Action.Succeeds]; infer_instance)

def FlushTask.begun (pending : Option PendingFlush) : List FlushTask :=
  (pending.map fun pending => ⟨pending, none⟩).toList

def CompactTask.begun (pending : Option PendingCompaction) : List CompactTask :=
  (pending.map fun pending => ⟨pending, none⟩).toList

namespace Host

variable {ETag : Type}

def start (manifestEtag : Manifest → ETag) (leaseEtag : Lease → ETag) (lease : LeaseHandle) :
    Host ETag :=
  let store := ObjectStore.empty manifestEtag leaseEtag
  ⟨LsmEngine.openEngine [] store lease fun _ => false, store, [], [], [], []⟩

def walFile (host : Host ETag) : Bytes := host.engine.write.wal.io.file

def step [DecidableEq ETag] (host : Host ETag) : Action → Option (Host ETag)
  | .write failure entries =>
      match host.engine.writeBatch failure entries with
      | (engine, .ok (seq, pending)) =>
          some { host with
            engine := engine
            flushes := host.flushes ++ FlushTask.begun pending
            history := host.history ++ [⟨seq, entries⟩] }
      | (engine, .error _) => some { host with engine := engine }
  | .snapshotNow => some { host with engine := host.engine.snapshotNow.1 }
  | .releaseSnapshot seq => some { host with engine := host.engine.releaseSnapshot seq }
  | .beginFlush =>
      match host.engine.beginFlush with
      | (engine, .ok pending) =>
          some { host with engine := engine, flushes := host.flushes ++ FlushTask.begun pending }
      | (engine, .error _) => some { host with engine := engine }
  | .finishFlush index bloom putFails =>
      match host.flushes[index]? with
      | some ⟨pending, none⟩ =>
          match LsmEngine.finishFlush host.store bloom putFails pending with
          | (store, .ok table) =>
              some { host with store := store, flushes := host.flushes.set index ⟨pending, some table⟩ }
          | (store, .error _) =>
              some { host with store := store, flushes := host.flushes.eraseIdx index }
      | _ => none
  | .commitFlush index fault threshold =>
      match host.flushes[index]? with
      | some ⟨pending, some table⟩ =>
          match host.engine.commitFlush host.store fault threshold pending table with
          | (engine, store, .ok compaction) =>
              some { host with
                engine := engine
                store := store
                flushes := host.flushes.eraseIdx index
                compactions := host.compactions ++ CompactTask.begun compaction }
          | (engine, store, .error _) =>
              some { host with
                engine := engine
                store := store
                flushes := host.flushes.eraseIdx index }
      | _ => none
  | .beginCompact =>
      match host.engine.beginCompact with
      | (engine, .ok compaction) =>
          some { host with
            engine := engine
            compactions := host.compactions ++ CompactTask.begun compaction }
      | (engine, .error _) => some { host with engine := engine }
  | .finishCompact index bloom putFails =>
      match host.compactions[index]? with
      | some ⟨pending, none⟩ =>
          match LsmEngine.finishCompact host.store bloom putFails pending with
          | (store, .ok table) =>
              some { host with
                store := store
                compactions := host.compactions.set index ⟨pending, some table⟩ }
          | (store, .error _) =>
              some { host with store := store, compactions := host.compactions.eraseIdx index }
      | _ => none
  | .commitCompact index saveFails deleteFails =>
      match host.compactions[index]? with
      | some ⟨pending, some table⟩ =>
          match host.engine.commitCompact host.store saveFails deleteFails pending table with
          | (engine, store, _) =>
              some { host with
                engine := engine
                store := store
                compactions := host.compactions.eraseIdx index }
      | _ => none
  | .startRead key => some { host with reads := host.reads ++ [(key, host.engine.currentSeq)] }
  | .endRead index => some { host with reads := host.reads.eraseIdx index }
  | .setLease lease => some { host with engine := { host.engine with lease := lease } }
  | .reopen unreadable =>
      some { host with
        engine := LsmEngine.openEngine host.walFile host.store host.engine.lease unreadable
        flushes := []
        compactions := []
        reads := [] }

def fresh : Host (Option Manifest) := start some (fun _ => none) ⟨1, true⟩

/-! ## Effects -/

def applied (host : Host ETag) (entries : List BatchEntry) : Host ETag :=
  let write := host.engine.write
  let batch : WalBatch := ⟨write.nextCommitSeq, entries.map BatchEntry.walEntry⟩
  { host with
    engine :=
      { host.engine with
        write :=
          { write with
            wal := (write.wal.appendBatch none batch).1
            nextCommitSeq := write.nextCommitSeq + 1 }
        view :=
          { host.engine.view with
            memtable :=
              LsmEngine.insertBatch host.engine.view.memtable write.nextCommitSeq entries } }
    history := host.history ++ [⟨write.nextCommitSeq, entries⟩] }

/-- The active memtable moves to the immutable slot, whatever stood there. -/
def frozen (host : Host ETag) : Host ETag :=
  let entries := host.engine.view.memtable.toEntries
  let id := host.engine.write.sstableId
  { host with
    engine :=
      { host.engine with
        view :=
          ⟨MemTable.new memtableMaxSize, some host.engine.view.memtable, host.engine.view.sstables⟩
        write :=
          { host.engine.write with sstableId := if entries.entries = [] then id else id + 1 } }
    flushes := host.flushes ++ if entries.entries = [] then [] else [⟨⟨entries, id⟩, none⟩] }

/-- The current tables are captured for a compaction, when there are two. -/
def captured (host : Host ETag) : Host ETag :=
  let tables := host.engine.view.sstables
  let id := host.engine.write.sstableId
  { host with
    engine :=
      { host.engine with
        write :=
          { host.engine.write with sstableId := if tables.length < 2 then id else id + 1 } }
    compactions := host.compactions ++
      if tables.length < 2 then [] else [⟨⟨tables, host.engine.watermark, id⟩, none⟩] }

def flushDropped (host : Host ETag) (index : Nat) (segments : Nat → Option Bytes) : Host ETag :=
  { host with
    store := { host.store with walSegment := segments }
    flushes := host.flushes.eraseIdx index }

def flushManifest (host : Host ETag) (pending : PendingFlush) : Manifest where
  sstableIds := host.engine.view.sstables.map SSTable.id ++ [pending.sstableId]
  walSegmentSeq := host.engine.write.walSegId
  writerFencingToken := host.engine.lease.token
  maxCommitSeq := host.engine.write.nextCommitSeq - 1

/-- A flush is in the manifest and in the view; the log is what the truncation
left of it. -/
def flushed (host : Host ETag) (index : Nat) (segments : Nat → Option Bytes)
    (fault : Option TruncateFault) (pending : PendingFlush) (table : SSTable) : Host ETag :=
  let write := host.engine.write
  let manifest := host.flushManifest pending
  { host with
    engine :=
      { host.engine with
        write :=
          { write with
            wal := (write.wal.truncate fault).1
            manifestEtag := some (host.store.manifestEtag manifest)
            committedWalSegmentSeq := write.walSegId
            walSegId := write.walSegId + 1 }
        view := ⟨host.engine.view.memtable, none, host.engine.view.sstables ++ [table]⟩ }
    store := { host.store with walSegment := segments, manifest := some manifest }
    flushes := host.flushes.eraseIdx index }

def survivors (host : Host ETag) (pending : PendingCompaction) : List SSTable :=
  host.engine.view.sstables.filter fun live => decide (live.id ∉ pending.sstables.map SSTable.id)

def compactManifest (host : Host ETag) (pending : PendingCompaction) (table : SSTable) :
    Manifest where
  sstableIds := (host.survivors pending ++ [table]).map SSTable.id
  walSegmentSeq := host.engine.write.committedWalSegmentSeq
  writerFencingToken := host.engine.lease.token
  maxCommitSeq := host.engine.write.nextCommitSeq - 1

/-- A compaction is in the manifest and in the view; `objects` are the table
objects the deletions left. -/
def compacted (host : Host ETag) (index : Nat) (objects : Nat → Option SSTable)
    (pending : PendingCompaction) (table : SSTable) : Host ETag :=
  let manifest := host.compactManifest pending table
  { host with
    engine :=
      { host.engine with
        write :=
          { host.engine.write with manifestEtag := some (host.store.manifestEtag manifest) }
        view := { host.engine.view with sstables := host.survivors pending ++ [table] } }
    store := { host.store with sst := objects, manifest := some manifest }
    compactions := host.compactions.eraseIdx index }

theorem mem_frozen_flushes {host : Host ETag} {task : FlushTask}
    (member : task ∈ host.frozen.flushes) : task ∈ host.flushes ∨
      task = ⟨⟨host.engine.view.memtable.toEntries, host.engine.write.sstableId⟩, none⟩ := by
  rcases List.mem_append.mp member with member | member
  · exact Or.inl member
  · split_ifs at member
    · exact absurd member List.not_mem_nil
    · exact Or.inr (List.mem_singleton.mp member)

theorem mem_captured_compactions {host : Host ETag} {task : CompactTask}
    (member : task ∈ host.captured.compactions) : task ∈ host.compactions ∨
      task = ⟨⟨host.engine.view.sstables, host.engine.watermark, host.engine.write.sstableId⟩,
        none⟩ ∧ 2 ≤ host.engine.view.sstables.length := by
  rcases List.mem_append.mp member with member | member
  · exact Or.inl member
  · split_ifs at member with few
    · exact absurd member List.not_mem_nil
    · exact Or.inr ⟨List.mem_singleton.mp member, le_of_not_gt few⟩

/-- The store's manifest is the one the engine last saw. -/
def InSync (host : Host ETag) : Prop :=
  host.engine.write.manifestEtag = host.store.manifest.map host.store.manifestEtag

section Steps

variable [DecidableEq ETag] {host next : Host ETag}

theorem step_write {entries : List BatchEntry}
    (taken : host.step (.write none entries) = some next) :
    (next = host.applied entries ∧ (host.applied entries).engine.view.memtable.isFull = false) ∨
      (next = (host.applied entries).frozen ∧
        (host.applied entries).engine.view.memtable.isFull = true) ∨
      (host.engine.lease.valid = false ∧
        next = { host.applied entries with history := host.history }) := by
  simp only [step, LsmEngine.writeBatch, Wal.appendBatch, WalIo.append] at taken
  cases full : (LsmEngine.insertBatch host.engine.view.memtable host.engine.write.nextCommitSeq
      entries).isFull with
  | false =>
      simp only [full, Bool.false_eq_true, if_false, FlushTask.begun, Option.map_none,
        Option.toList_none, List.append_nil, Option.some.injEq] at taken
      exact Or.inl ⟨taken.symm, full⟩
  | true =>
      cases valid : host.engine.lease.valid with
      | false =>
          simp only [full, LsmEngine.beginFlush, valid, Bool.not_false, if_true,
            Option.some.injEq] at taken
          exact Or.inr (Or.inr ⟨rfl, taken.symm⟩)
      | true =>
          refine Or.inr (Or.inl ⟨?_, full⟩)
          simp only [full, LsmEngine.beginFlush, valid, Bool.not_true, Bool.false_eq_true,
            if_true, if_false] at taken
          by_cases nothing : (LsmEngine.insertBatch host.engine.view.memtable
              host.engine.write.nextCommitSeq entries).toEntries.entries = []
          · simp only [nothing, if_true, FlushTask.begun, Option.map_none, Option.toList_none,
              List.append_nil, Option.some.injEq] at taken
            simp only [frozen, applied, nothing, if_true, List.append_nil]
            exact taken.symm
          · simp only [nothing, if_false, FlushTask.begun, Option.map_some, Option.toList_some,
              Option.some.injEq] at taken
            simp only [frozen, applied, nothing, if_false]
            exact taken.symm

theorem step_write_failed {written : Nat} {entries : List BatchEntry}
    (taken : host.step (.write (some written) entries) = some next) :
    next = { host with engine := { host.engine with write := { host.engine.write with
      wal := (host.engine.write.wal.appendBatch (some written)
        ⟨host.engine.write.nextCommitSeq, entries.map BatchEntry.walEntry⟩).1
      nextCommitSeq := host.engine.write.nextCommitSeq + 1 } } } := by
  simp only [step, LsmEngine.writeBatch, Wal.appendBatch, WalIo.append, Option.some.injEq] at taken
  exact taken.symm

theorem step_beginFlush (taken : host.step .beginFlush = some next) :
    next = host ∨ next = host.frozen := by
  simp only [step, LsmEngine.beginFlush] at taken
  cases valid : host.engine.lease.valid with
  | false =>
      simp only [valid, Bool.not_false, if_true, Option.some.injEq] at taken
      exact Or.inl taken.symm
  | true =>
      refine Or.inr ?_
      simp only [valid, Bool.not_true, Bool.false_eq_true, if_false] at taken
      by_cases nothing : host.engine.view.memtable.toEntries.entries = []
      · simp only [nothing, if_true, FlushTask.begun, Option.map_none, Option.toList_none,
          List.append_nil, Option.some.injEq] at taken
        simp only [frozen, nothing, if_true, List.append_nil]
        exact taken.symm
      · simp only [nothing, if_false, FlushTask.begun, Option.map_some, Option.toList_some,
          Option.some.injEq] at taken
        simp only [frozen, nothing, if_false]
        exact taken.symm

theorem step_finishFlush {index : Nat} {bloom : Bloom} {putFails : Bool}
    (taken : host.step (.finishFlush index bloom putFails) = some next) :
    ∃ pending, host.flushes[index]? = some ⟨pending, none⟩ ∧
      (next = host.flushDropped index host.store.walSegment ∧ putFails = true ∨
        next = { host with
          store := host.store.putSst pending.sstableId
            (SSTable.build bloom pending.sstableId pending.entries)
          flushes := host.flushes.set index
            ⟨pending, some (SSTable.build bloom pending.sstableId pending.entries)⟩ }) := by
  simp only [step] at taken
  split at taken
  · rename_i pending found
    refine ⟨pending, found, ?_⟩
    cases putFails with
    | true => exact Or.inl ⟨(Option.some.inj taken).symm, rfl⟩
    | false => exact Or.inr (Option.some.inj taken).symm
  · exact absurd taken (by simp)

theorem step_finishCompact {index : Nat} {bloom : Bloom} {putFails : Bool}
    (taken : host.step (.finishCompact index bloom putFails) = some next) :
    ∃ pending, host.compactions[index]? = some ⟨pending, none⟩ ∧
      (next = { host with compactions := host.compactions.eraseIdx index } ∧ putFails = true ∨
        ∃ table, table = SSTable.build bloom pending.newId (LsmEngine.mergeEntries pending.watermark
            (pending.sstables.flatMap SSTable.scanAllVersions)) ∧
          next = { host with
            store := host.store.putSst pending.newId table
            compactions := host.compactions.set index ⟨pending, some table⟩ }) := by
  simp only [step] at taken
  split at taken
  · rename_i pending found
    refine ⟨pending, found, ?_⟩
    cases putFails with
    | true => exact Or.inl ⟨(Option.some.inj taken).symm, rfl⟩
    | false => exact Or.inr ⟨_, rfl, (Option.some.inj taken).symm⟩
  · exact absurd taken (by simp)

theorem step_beginCompact (taken : host.step .beginCompact = some next) :
    next = host ∨ next = host.captured := by
  simp only [step, LsmEngine.beginCompact] at taken
  by_cases few : host.engine.view.sstables.length < 2
  · simp only [few, if_true, CompactTask.begun, Option.map_none, Option.toList_none,
      List.append_nil, Option.some.injEq] at taken
    exact Or.inl taken.symm
  · cases valid : host.engine.lease.valid with
    | false =>
        simp only [few, valid, Bool.not_false, if_true, if_false, Option.some.injEq] at taken
        exact Or.inl taken.symm
    | true =>
        simp only [few, valid, Bool.not_true, Bool.false_eq_true, if_false, CompactTask.begun,
          Option.map_some, Option.toList_some, Option.some.injEq] at taken
        refine Or.inr ?_
        simp only [captured, few, if_false]
        exact taken.symm

omit [DecidableEq ETag] in
theorem beginCompact_effect (host : Host ETag) :
    (∃ error, host.engine.beginCompact = (host.engine, .error error)) ∨
      (host.engine.beginCompact = (host.engine, .ok none)) ∨
      ∃ pending, host.engine.beginCompact.2 = .ok (some pending) ∧
        { host with
          engine := host.engine.beginCompact.1
          compactions := host.compactions ++ [⟨pending, none⟩] } = host.captured := by
  unfold LsmEngine.beginCompact captured
  by_cases few : host.engine.view.sstables.length < 2
  · simp [few]
  · cases valid : host.engine.lease.valid with
    | false => simp [few]
    | true => simp [few]

/-- A commit of a flush gives it up, or installs it when the engine's ETag is
the current one, and may then capture a compaction. -/
theorem step_commitFlush {index threshold : Nat} {fault : Option LsmEngine.CommitFlushFault}
    (taken : host.step (.commitFlush index fault threshold) = some next) :
    ∃ pending table segments, host.flushes[index]? = some ⟨pending, some table⟩ ∧
      (next = host.flushDropped index segments ∧ (fault ≠ none ∨ ¬ host.InSync) ∨
        host.InSync ∧ ∃ done, done = host.flushed index segments
          (LsmEngine.CommitFlushFault.truncateFault fault) pending table ∧
          (next = done ∨ next = done.captured) ∧
          (fault = none ∨ (∃ truncateFault, fault = some (.truncate truncateFault)) ∨
            fault = some .putSegment ∧ host.walFile = [])) := by
  simp only [step] at taken
  split at taken
  case h_2 => exact absurd taken (by simp)
  rename_i pending table found
  refine ⟨pending, table, ?_⟩
  unfold LsmEngine.commitFlush at taken
  simp only [] at taken
  generalize segmentsEq : (if host.engine.write.wal.readAllBytes = [] then host.store
    else host.store.putWalSegment host.engine.write.walSegId
      host.engine.write.wal.readAllBytes) = shipped at taken
  obtain ⟨segments, rfl⟩ : ∃ segments, shipped = { host.store with walSegment := segments } := by
    rw [← segmentsEq]
    split_ifs
    · exact ⟨host.store.walSegment, rfl⟩
    · exact ⟨_, rfl⟩
  by_cases readFails : fault = some .readWal
  · simp only [readFails, if_true, Option.some.injEq] at taken
    exact ⟨host.store.walSegment, found, Or.inl ⟨taken.symm, Or.inl (by simp [readFails])⟩⟩
  by_cases putFails : host.engine.write.wal.readAllBytes ≠ [] ∧ fault = some .putSegment
  · rw [if_neg readFails, if_pos putFails] at taken
    exact ⟨host.store.walSegment, found,
      Or.inl ⟨(Option.some.inj taken).symm, Or.inl (by simp [putFails.2])⟩⟩
  refine ⟨segments, found, ?_⟩
  rw [if_neg readFails, if_neg putFails] at taken
  by_cases saveFails : fault = some .saveManifest
  · rw [if_pos saveFails] at taken
    exact Or.inl ⟨(Option.some.inj taken).symm, Or.inl (by simp [saveFails])⟩
  rw [if_neg saveFails] at taken
  cases swapped : ObjectStore.saveManifestCas { host.store with walSegment := segments }
      (host.flushManifest pending) host.engine.write.manifestEtag with
  | error _ =>
      have stale := ObjectStore.saveManifestCas_error _ _ _ _ swapped
      simp only [flushManifest] at swapped
      simp only [swapped, Option.some.injEq] at taken
      exact Or.inl ⟨taken.symm, Or.inr stale⟩
  | ok result =>
      obtain ⟨current, rfl⟩ := (ObjectStore.saveManifestCas_eq_ok _ _ _ _).mp swapped
      simp only [flushManifest] at swapped
      refine Or.inr ⟨current, _, rfl, ?_, ?_⟩
      case refine_2 =>
        rcases fault with _ | _ | _ | _ | truncateFault
        · exact Or.inl rfl
        · exact absurd rfl readFails
        · exact Or.inr (Or.inr ⟨rfl, by_contra fun nonempty => putFails ⟨nonempty, rfl⟩⟩)
        · exact absurd rfl saveFails
        · exact Or.inr (Or.inl ⟨truncateFault, rfl⟩)
      simp only [swapped] at taken
      cases truncated : (host.engine.write.wal.truncate
          (LsmEngine.CommitFlushFault.truncateFault fault)).2 with
      | error error =>
          simp only [truncated, Option.some.injEq] at taken
          exact Or.inl taken.symm
      | ok _ =>
          simp only [truncated] at taken
          by_cases crossed : threshold ≤ (host.engine.view.sstables ++ [table]).length
          · rw [if_pos crossed] at taken
            have effect := beginCompact_effect (host.flushed index segments
              (LsmEngine.CommitFlushFault.truncateFault fault) pending table)
            rcases effect with ⟨error, fenced⟩ | nothing | ⟨compaction, begun, whole⟩
            · simp only [flushed, flushManifest] at fenced
              simp only [fenced, Option.some.injEq] at taken
              exact Or.inl taken.symm
            · simp only [flushed, flushManifest] at nothing
              simp only [nothing, CompactTask.begun, Option.map_none, Option.toList_none,
                List.append_nil, Option.some.injEq] at taken
              exact Or.inl taken.symm
            · refine Or.inr ?_
              rw [← whole]
              simp only [flushed, flushManifest] at begun ⊢
              simp only [begun, CompactTask.begun, Option.map_some, Option.toList_some,
                Option.some.injEq] at taken
              exact taken.symm
          · rw [if_neg crossed] at taken
            simp only [CompactTask.begun, Option.map_none, Option.toList_none, List.append_nil,
              Option.some.injEq] at taken
            exact Or.inl taken.symm

omit [DecidableEq ETag] in
theorem foldl_deleteSst (deleteFails : Nat → Bool) : ∀ (ids : List Nat) (store : ObjectStore ETag),
    ∃ objects, ids.foldl
        (fun store id => if deleteFails id then store else store.deleteSst id) store =
          { store with sst := objects } ∧ ∀ id, id ∉ ids → objects id = store.sst id := by
  intro ids
  induction ids with
  | nil => intro store; exact ⟨store.sst, rfl, fun _ _ => rfl⟩
  | cons head rest ih =>
      intro store
      by_cases fails : deleteFails head = true
      · obtain ⟨objects, folded, kept⟩ := ih store
        refine ⟨objects, by simpa [fails] using folded, ?_⟩
        intro id outside
        exact kept id fun member => outside (List.mem_cons_of_mem _ member)
      · obtain ⟨objects, folded, kept⟩ := ih (store.deleteSst head)
        refine ⟨objects, by simpa [fails, ObjectStore.deleteSst] using folded, ?_⟩
        intro id outside
        have differs : id ≠ head := fun same => outside (same ▸ List.mem_cons_self)
        rw [kept id fun member => outside (List.mem_cons_of_mem _ member)]
        exact Function.update_of_ne differs _ _

/-- A commit of a compaction gives it up, or installs it when the engine's ETag
is the current one; only consumed tables may be deleted. -/
theorem step_commitCompact {index : Nat} {saveFails : Bool} {deleteFails : Nat → Bool}
    (taken : host.step (.commitCompact index saveFails deleteFails) = some next) :
    ∃ pending table, host.compactions[index]? = some ⟨pending, some table⟩ ∧
      (next = { host with compactions := host.compactions.eraseIdx index } ∧
          (saveFails = true ∨ ¬ host.InSync) ∨
        host.InSync ∧ ∃ objects, next = host.compacted index objects pending table ∧
          ∀ id, id ∉ pending.sstables.map SSTable.id → objects id = host.store.sst id) := by
  simp only [step] at taken
  split at taken
  case h_2 => exact absurd taken (by simp)
  rename_i pending table found
  refine ⟨pending, table, found, ?_⟩
  unfold LsmEngine.commitCompact at taken
  simp only [] at taken
  cases saveFails with
  | true =>
      simp only [if_true, Option.some.injEq] at taken
      exact Or.inl ⟨taken.symm, Or.inl rfl⟩
  | false =>
      simp only [Bool.false_eq_true, if_false] at taken
      cases swapped : host.store.saveManifestCas (host.compactManifest pending table)
          host.engine.write.manifestEtag with
      | error _ =>
          have stale : ¬ host.InSync := ObjectStore.saveManifestCas_error _ _ _ _ swapped
          simp only [compactManifest, survivors] at swapped
          simp only [swapped, Option.some.injEq] at taken
          exact Or.inl ⟨taken.symm, Or.inr stale⟩
      | ok result =>
          obtain ⟨current, rfl⟩ := (ObjectStore.saveManifestCas_eq_ok _ _ _ _).mp swapped
          obtain ⟨objects, folded, kept⟩ := foldl_deleteSst deleteFails
            (pending.sstables.map SSTable.id)
            { host.store with manifest := some (host.compactManifest pending table) }
          refine Or.inr ⟨current, objects, ?_, kept⟩
          simp only [compactManifest, survivors] at swapped folded
          simp only [swapped, folded, Option.some.injEq] at taken
          exact taken.symm

end Steps

end Host

end Pantheon.Keystone
