import Mathlib
import Pantheon.Lib.OrdMap
import Pantheon.Keystone.MemTable
import Pantheon.Keystone.ObjectStore

/-!
# The engine of `storage/lsm.rs`

`WriteState` and `EngineView` are the two halves the engine guards by its two
locks; an operation takes the engine and returns it changed, with the store
beside it where it does I/O.  Flush and compaction are split in phases as in
the source, so that a caller may run other operations between them.

An operation that can fail returns the engine it leaves behind together with
the error.  Which I/O step fails is an argument.
-/

set_option autoImplicit false

namespace Pantheon.Keystone

open Pantheon.Lib

def u64Max : Nat := 2 ^ 64 - 1

def defaultCompactionSstableThreshold : Nat := 4

structure PendingFlush where
  entries : SortedRun
  sstableId : Nat

structure PendingCompaction where
  sstables : List SSTable
  watermark : Nat
  newId : Nat

structure WriteState (ETag : Type) where
  wal : Wal
  sstableId : Nat
  walSegId : Nat
  manifestEtag : Option ETag
  committedWalSegmentSeq : Nat
  nextCommitSeq : Nat
  openSnapshots : OrdMap Nat Nat

structure EngineView where
  memtable : MemTable
  immutable : Option MemTable
  sstables : List SSTable

structure LsmEngine (ETag : Type) where
  write : WriteState ETag
  view : EngineView
  lease : LeaseHandle

/-- One row of a batch: table name, key, and a value or a deletion. -/
structure BatchEntry where
  table : String
  key : Bytes
  value : Option Bytes
deriving DecidableEq

def BatchEntry.tag (entry : BatchEntry) : UInt8 :=
  match entry.value with
  | some _ => putTag
  | none => deleteTag

def BatchEntry.walEntry (entry : BatchEntry) : WalEntry :=
  ⟨entry.table, entry.key, entry.value.getD [], entry.tag⟩

/-- The newest version per key that the snapshot sees, from rows in internal
key order.  `resolved` is the last key already decided. -/
def firstVisiblePerKey (snapshotSeq : Nat) :
    List VersionRow → Option Bytes → List (Bytes × Option Bytes)
  | [], _ => []
  | row :: rest, resolved =>
      if resolved = some row.key then firstVisiblePerKey snapshotSeq rest resolved
      else if row.seq ≤ snapshotSeq then
        (row.key, row.value) :: firstVisiblePerKey snapshotSeq rest (some row.key)
      else firstVisiblePerKey snapshotSeq rest resolved

namespace EngineView

/-- Memtable, immutable memtable, then tables from the last to the first. -/
def readAt (view : EngineView) (key : Bytes) (snapshotSeq : Nat) : Option Bytes :=
  match view.memtable.getAt key snapshotSeq with
  | some value => value
  | none =>
      match view.immutable.bind fun frozen => frozen.getAt key snapshotSeq with
      | some value => value
      | none =>
          (view.sstables.reverse.findSome? fun table => table.readAt key snapshotSeq).join

def overlay (merged : OrdMap Bytes (Option Bytes)) (rows : List (Bytes × Option Bytes)) :
    OrdMap Bytes (Option Bytes) :=
  rows.foldl (fun merged row => merged.insert row.1 row.2) merged

/-- Every source reduced to what the snapshot sees, overlaid oldest first. -/
def scanAt (view : EngineView) (snapshotSeq : Nat) : List (Bytes × Bytes) :=
  let merged := view.sstables.foldl
    (fun merged table =>
      overlay merged (firstVisiblePerKey snapshotSeq table.scanAllVersions none))
    OrdMap.empty
  let merged := match view.immutable with
    | some frozen => overlay merged (firstVisiblePerKey snapshotSeq frozen.iterVersions none)
    | none => merged
  let merged := overlay merged (firstVisiblePerKey snapshotSeq view.memtable.iterVersions none)
  merged.toList.filterMap fun row => row.2.map fun value => (row.1, value)

end EngineView

namespace LsmEngine

variable {ETag : Type}

/-! ## Reading and snapshots -/

def currentSeq (engine : LsmEngine ETag) : Nat := engine.write.nextCommitSeq - 1

def readAt (engine : LsmEngine ETag) (key : Bytes) (snapshotSeq : Nat) : Option Bytes :=
  engine.view.readAt key snapshotSeq

def scanAt (engine : LsmEngine ETag) (snapshotSeq : Nat) : List (Bytes × Bytes) :=
  engine.view.scanAt snapshotSeq

def registerSnapshot (engine : LsmEngine ETag) (seq : Nat) : LsmEngine ETag :=
  let count := (engine.write.openSnapshots.get? seq).getD 0
  { engine with
    write := { engine.write with openSnapshots := engine.write.openSnapshots.insert seq (count + 1) } }

def snapshotNow (engine : LsmEngine ETag) : LsmEngine ETag × Nat :=
  (engine.registerSnapshot engine.currentSeq, engine.currentSeq)

def releaseSnapshot (engine : LsmEngine ETag) (seq : Nat) : LsmEngine ETag :=
  match engine.write.openSnapshots.get? seq with
  | none => engine
  | some count =>
      let snapshots := engine.write.openSnapshots
      let snapshots := if count - 1 = 0 then snapshots.erase seq else snapshots.insert seq (count - 1)
      { engine with write := { engine.write with openSnapshots := snapshots } }

/-! ## Opening -/

def replayInto (memtable : MemTable) (records : List WalRecord) : MemTable :=
  records.foldl
    (fun memtable record => memtable.insert record.key record.seq record.value record.recordType)
    memtable

/-- `unreadable` are the tables that fail to load; they are skipped. -/
def openEngine (walFile : Bytes) (store : ObjectStore ETag) (lease : LeaseHandle)
    (unreadable : Nat → Bool) : LsmEngine ETag :=
  let wal := Wal.openFile walFile
  let (records, walMaxSeq) := wal.replay
  let manifest := (store.loadManifest.map Prod.fst).getD Manifest.default
  let sstables := manifest.sstableIds.filterMap fun id =>
    if unreadable id then none else store.openSst id
  let sstableMaxSeq := sstables.foldl (fun highest table => max highest table.maxSeq) 0
  { write :=
      { wal := wal
        sstableId := (manifest.sstableIds.max?.map fun highest => highest + 1).getD 1
        walSegId := manifest.walSegmentSeq + 1
        manifestEtag := store.loadManifest.map Prod.snd
        committedWalSegmentSeq := manifest.walSegmentSeq
        nextCommitSeq := max (max walMaxSeq sstableMaxSeq) manifest.maxCommitSeq + 1
        openSnapshots := OrdMap.empty }
    view :=
      { memtable := replayInto (MemTable.new memtableMaxSize) records
        immutable := none
        sstables := sstables.insertionSort fun left right => left.id ≤ right.id }
    lease := lease }

/-! ## Flush -/

def beginFlush (engine : LsmEngine ETag) :
    LsmEngine ETag × Except StorageError (Option PendingFlush) :=
  if !engine.lease.valid then (engine, .error .fenced)
  else
    let frozen := engine.view.memtable
    let view : EngineView :=
      { memtable := MemTable.new memtableMaxSize
        immutable := some frozen
        sstables := engine.view.sstables }
    -- nothing to flush, but the view is already replaced
    if frozen.toEntries.entries = [] then ({ engine with view := view }, .ok none)
    else
      ({ engine with
          view := view
          write := { engine.write with sstableId := engine.write.sstableId + 1 } },
        .ok (some ⟨frozen.toEntries, engine.write.sstableId⟩))

def finishFlush (store : ObjectStore ETag) (bloom : Bloom) (putFails : Bool)
    (pending : PendingFlush) : ObjectStore ETag × Except StorageError SSTable :=
  if putFails then (store, .error .io)
  else
    let table := SSTable.build bloom pending.sstableId pending.entries
    (store.putSst pending.sstableId table, .ok table)

/-- The oldest open snapshot, or no bound when none is open. -/
def watermark (engine : LsmEngine ETag) : Nat :=
  engine.write.openSnapshots.firstKey.getD u64Max

def beginCompact (engine : LsmEngine ETag) :
    LsmEngine ETag × Except StorageError (Option PendingCompaction) :=
  if engine.view.sstables.length < 2 then (engine, .ok none)
  else if !engine.lease.valid then (engine, .error .fenced)
  else
    ({ engine with write := { engine.write with sstableId := engine.write.sstableId + 1 } },
      .ok (some ⟨engine.view.sstables, engine.watermark, engine.write.sstableId⟩))

inductive CommitFlushFault where
  | readWal
  | putSegment
  | saveManifest
  | truncate (fault : TruncateFault)
deriving DecidableEq

def CommitFlushFault.truncateFault : Option CommitFlushFault → Option TruncateFault
  | some (.truncate fault) => some fault
  | _ => none

/-- Ship the log, swap the manifest, splice the table in and clear the
immutable slot, and only then truncate the log. -/
def commitFlush [DecidableEq ETag] (engine : LsmEngine ETag) (store : ObjectStore ETag)
    (fault : Option CommitFlushFault) (threshold : Nat) (pending : PendingFlush) (table : SSTable) :
    LsmEngine ETag × ObjectStore ETag × Except StorageError (Option PendingCompaction) :=
  if fault = some .readWal then (engine, store, .error .io)
  else
    let walBytes := engine.write.wal.readAllBytes
    if walBytes ≠ [] ∧ fault = some .putSegment then (engine, store, .error .io)
    else
      let store := if walBytes = [] then store else store.putWalSegment engine.write.walSegId walBytes
      let manifest : Manifest :=
        { sstableIds := engine.view.sstables.map SSTable.id ++ [pending.sstableId]
          walSegmentSeq := engine.write.walSegId
          writerFencingToken := engine.lease.token
          maxCommitSeq := engine.write.nextCommitSeq - 1 }
      if fault = some .saveManifest then (engine, store, .error .manifestAfterFlush)
      else
        match store.saveManifestCas manifest engine.write.manifestEtag with
        | .error _ => (engine, store, .error .manifestAfterFlush)
        | .ok (store, etag) =>
            let sstables := engine.view.sstables ++ [table]
            let (wal, truncated) :=
              engine.write.wal.truncate (CommitFlushFault.truncateFault fault)
            let engine : LsmEngine ETag :=
              { write :=
                  { engine.write with
                    wal := wal
                    manifestEtag := some etag
                    committedWalSegmentSeq := engine.write.walSegId
                    walSegId := engine.write.walSegId + 1 }
                view :=
                  { memtable := engine.view.memtable
                    immutable := none
                    sstables := sstables }
                lease := engine.lease }
            match truncated with
            | .error error => (engine, store, .error error)
            | .ok () =>
                if threshold ≤ sstables.length then
                  let (engine, pendingCompaction) := engine.beginCompact
                  (engine, store, pendingCompaction)
                else (engine, store, .ok none)

/-! ## Compaction -/

/-- All versions per key, in the order the tables and their rows come. -/
def groupByKey (rows : List VersionRow) : OrdMap Bytes (List VersionRow) :=
  rows.foldl (fun groups row => groups.insert row.key ((groups.get? row.key).getD [] ++ [row]))
    OrdMap.empty

def mergedEntry (row : VersionRow) : Entry :=
  (⟨row.key, row.seq, row.tag⟩, row.value.getD [])

/-- Of one key's versions, newest first: everything from the watermark on and
the first one below it, unless no snapshot is open and that one is a deletion. -/
def keepVersions (watermark : Nat) : List VersionRow → List Entry
  | [] => []
  | row :: rest =>
      if watermark ≤ row.seq then mergedEntry row :: keepVersions watermark rest
      else if watermark = u64Max ∧ row.tag = deleteTag then []
      else [mergedEntry row]

def mergeEntries (watermark : Nat) (rows : List VersionRow) : SortedRun where
  entries :=
    ((groupByKey rows).toList.flatMap fun group =>
      keepVersions watermark (group.2.insertionSort fun left right => right.seq ≤ left.seq)).insertionSort
        fun left right => left.1 ≤ right.1
  sorted := List.pairwise_insertionSort (fun left right : Entry => left.1 ≤ right.1) _

def finishCompact (store : ObjectStore ETag) (bloom : Bloom) (putFails : Bool)
    (pending : PendingCompaction) : ObjectStore ETag × Except StorageError SSTable :=
  let rows := pending.sstables.flatMap SSTable.scanAllVersions
  let table := SSTable.build bloom pending.newId (mergeEntries pending.watermark rows)
  if putFails then (store, .error .io)
  else (store.putSst pending.newId table, .ok table)

/-- The tables of the view that the compaction did not consume survive, in
front of the merged table.  Deleting the consumed objects is best effort. -/
def commitCompact [DecidableEq ETag] (engine : LsmEngine ETag) (store : ObjectStore ETag)
    (saveFails : Bool) (deleteFails : Nat → Bool) (pending : PendingCompaction) (table : SSTable) :
    LsmEngine ETag × ObjectStore ETag × Except StorageError Unit :=
  let consumedIds := pending.sstables.map SSTable.id
  let sstables := (engine.view.sstables.filter fun live => decide (live.id ∉ consumedIds)) ++ [table]
  let manifest : Manifest :=
    { sstableIds := sstables.map SSTable.id
      walSegmentSeq := engine.write.committedWalSegmentSeq
      writerFencingToken := engine.lease.token
      maxCommitSeq := engine.write.nextCommitSeq - 1 }
  if saveFails then (engine, store, .error .manifestAfterCompaction)
  else
    match store.saveManifestCas manifest engine.write.manifestEtag with
    | .error _ => (engine, store, .error .manifestAfterCompaction)
    | .ok (store, etag) =>
        let store := consumedIds.foldl
          (fun store id => if deleteFails id then store else store.deleteSst id) store
        ({ engine with
            write := { engine.write with manifestEtag := some etag }
            view := { engine.view with sstables := sstables } },
          store, .ok ())

/-! ## Writing -/

def insertBatch (memtable : MemTable) (commitSeq : Nat) (entries : List BatchEntry) : MemTable :=
  entries.foldl
    (fun memtable entry =>
      memtable.insert entry.key commitSeq (entry.value.getD []) entry.tag)
    memtable

/-- One commit sequence for the whole batch: log append, then the inserts, then
a flush when the memtable is full. -/
def writeBatch (engine : LsmEngine ETag) (appendFailure : Option Nat) (entries : List BatchEntry) :
    LsmEngine ETag × Except StorageError (Nat × Option PendingFlush) :=
  let commitSeq := engine.write.nextCommitSeq
  let batch : WalBatch := ⟨commitSeq, entries.map BatchEntry.walEntry⟩
  let (wal, appended) := engine.write.wal.appendBatch appendFailure batch
  let engine := { engine with write := { engine.write with wal := wal, nextCommitSeq := commitSeq + 1 } }
  match appended with
  | .error error => (engine, .error error)
  | .ok _ =>
      let memtable := insertBatch engine.view.memtable commitSeq entries
      let engine := { engine with view := { engine.view with memtable := memtable } }
      if memtable.isFull then
        match engine.beginFlush with
        | (engine, .ok pending) => (engine, .ok (commitSeq, pending))
        | (engine, .error error) => (engine, .error error)
      else (engine, .ok (commitSeq, none))

/-! ## Refreshing a reader -/

/-- Fetch what the manifest lists and is not held, drop what it does not list,
and order by id.  A table that cannot be fetched fails the call. -/
def refresh [DecidableEq ETag] (engine : LsmEngine ETag) (store : ObjectStore ETag) :
    LsmEngine ETag × Except StorageError Bool :=
  match store.loadManifest with
  | none => (engine, .ok false)
  | some (manifest, etag) =>
      if some etag = engine.write.manifestEtag then (engine, .ok false)
      else
        let known := engine.view.sstables.map SSTable.id
        let missing := manifest.sstableIds.filter fun id => decide (id ∉ known)
        match missing.mapM store.openSst with
        | none => (engine, .error .io)
        | some fetched =>
            let kept := engine.view.sstables.filter fun table => decide (table.id ∈ manifest.sstableIds)
            let dropped := engine.view.sstables.length - kept.length
            let sstables := (kept ++ fetched).insertionSort fun left right => left.id ≤ right.id
            ({ engine with
                view := { engine.view with sstables := sstables }
                write :=
                  { engine.write with
                    manifestEtag := some etag
                    nextCommitSeq := max engine.write.nextCommitSeq (manifest.maxCommitSeq + 1) } },
              .ok (decide (0 < fetched.length ∨ 0 < dropped)))

end LsmEngine

end Pantheon.Keystone
