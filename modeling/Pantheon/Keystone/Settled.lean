import Mathlib
import Pantheon.Lib.Overlay
import Pantheon.Keystone.Database

/-!
# Between two calls

Between two calls whose I/O succeeded no flush and no compaction is in flight
and the immutable slot is free, so the next write path runs through: it returns
`Ok`, its batch is what reads find from then on, and the registered snapshots
read as before.
-/

set_option autoImplicit false

namespace Pantheon.Keystone

open Pantheon.Lib

variable {ETag : Type}

variable {entries : List BatchEntry} {io : Io}

/-! ## The phases of a write path -/

namespace LsmEngine

theorem writeBatch_succeeds (engine : LsmEngine ETag) (valid : engine.lease.valid = true)
    (entries : List BatchEntry) : ∃ next pending,
      engine.writeBatch none entries = (next, .ok (engine.write.nextCommitSeq, pending)) := by
  simp only [writeBatch, Wal.appendBatch, WalIo.append]
  split_ifs with full
  · simp only [beginFlush, valid, Bool.not_true, Bool.false_eq_true, if_false]
    split_ifs with nothing
    · exact ⟨_, _, rfl⟩
    · exact ⟨_, _, rfl⟩
  · exact ⟨_, _, rfl⟩

theorem beginCompact_succeeds (engine : LsmEngine ETag) (valid : engine.lease.valid = true) :
    ∃ next pending, engine.beginCompact = (next, .ok pending) := by
  unfold beginCompact
  split_ifs with few fenced
  · exact ⟨_, _, rfl⟩
  · rw [valid] at fenced
    exact absurd fenced (by decide)
  · exact ⟨_, _, rfl⟩

variable [DecidableEq ETag]

theorem commitFlush_succeeds (engine : LsmEngine ETag) (store : ObjectStore ETag)
    (valid : engine.lease.valid = true)
    (inSync : engine.write.manifestEtag = store.manifest.map store.manifestEtag) (threshold : Nat)
    (pending : PendingFlush) (table : SSTable) : ∃ next stored compaction,
      engine.commitFlush store none threshold pending table = (next, stored, .ok compaction) := by
  have swapped : ∀ segments manifest, ObjectStore.saveManifestCas
      { store with walSegment := segments } manifest engine.write.manifestEtag =
        .ok ({ store with walSegment := segments, manifest := some manifest },
          store.manifestEtag manifest) := fun segments manifest =>
    (ObjectStore.saveManifestCas_eq_ok _ _ _ _).mpr ⟨inSync, rfl⟩
  obtain ⟨segments, shipped⟩ : ∃ segments, (if engine.write.wal.readAllBytes = [] then store
      else store.putWalSegment engine.write.walSegId engine.write.wal.readAllBytes) =
        { store with walSegment := segments } := by
    split_ifs
    · exact ⟨store.walSegment, rfl⟩
    · exact ⟨_, rfl⟩
  unfold commitFlush
  simp only [reduceCtorEq, if_false, and_false, shipped, swapped, CommitFlushFault.truncateFault]
  have truncated : (engine.write.wal.truncate none).2 = .ok () := rfl
  simp only [truncated]
  split_ifs with crossed
  · obtain ⟨next, compaction, begun⟩ := beginCompact_succeeds
      { write := { engine.write with
          wal := (engine.write.wal.truncate none).1
          manifestEtag := some (store.manifestEtag
            ⟨engine.view.sstables.map SSTable.id ++ [pending.sstableId], engine.write.walSegId,
              engine.lease.token, engine.write.nextCommitSeq - 1⟩)
          committedWalSegmentSeq := engine.write.walSegId
          walSegId := engine.write.walSegId + 1 }
        view := ⟨engine.view.memtable, none, engine.view.sstables ++ [table]⟩
        lease := engine.lease } valid
    exact ⟨next, _, compaction, by rw [begun]⟩
  · exact ⟨_, _, _, rfl⟩

theorem commitFlush_mended {engine : LsmEngine ETag} {store : ObjectStore ETag}
    {fault : Option CommitFlushFault} {threshold : Nat} {pending : PendingFlush} {table : SSTable}
    {compaction : Option PendingCompaction}
    (returned : (engine.commitFlush store fault threshold pending table).2.2 = .ok compaction) :
    engine.commitFlush store fault threshold pending table =
      engine.commitFlush store none threshold pending table := by
  cases fault with
  | none => rfl
  | some fault =>
      cases fault with
      | readWal => cases returned
      | putSegment =>
          unfold commitFlush at returned ⊢
          by_cases bytes : engine.write.wal.readAllBytes = []
          · simp [bytes, CommitFlushFault.truncateFault]
          · simp [bytes] at returned
      | saveManifest =>
          unfold commitFlush at returned
          simp at returned
      | truncate fault =>
          unfold commitFlush at returned
          simp only [Option.some.injEq, reduceCtorEq, and_false, if_false,
            CommitFlushFault.truncateFault] at returned
          split at returned
          · cases returned
          · cases fault <;> cases returned

theorem commitCompact_succeeds (engine : LsmEngine ETag) (store : ObjectStore ETag)
    (inSync : engine.write.manifestEtag = store.manifest.map store.manifestEtag)
    (deleteFails : Nat → Bool) (pending : PendingCompaction) (table : SSTable) :
    ∃ next stored,
      engine.commitCompact store false deleteFails pending table = (next, stored, .ok ()) := by
  have swapped : ∀ manifest, store.saveManifestCas manifest engine.write.manifestEtag =
      .ok ({ store with manifest := some manifest }, store.manifestEtag manifest) :=
    fun manifest => (ObjectStore.saveManifestCas_eq_ok _ _ _ _).mpr ⟨inSync, rfl⟩
  unfold commitCompact
  simp only [Bool.false_eq_true, if_false, swapped]
  exact ⟨_, _, rfl⟩

end LsmEngine

namespace Host

/-- No task is in flight and the slot is free. -/
structure AtRest (host : Host ETag) : Prop where
  flushes : host.flushes = []
  compactions : host.compactions = []
  reads : host.reads = []
  slot : host.SlotFree

/-- The state after a write path that logged its batch. -/
structure Inserted (host : Host ETag) (entries : List BatchEntry) (next : Host ETag) : Prop where
  live : next.Live
  history : next.history = host.history ++ [⟨host.engine.write.nextCommitSeq, entries⟩]
  counted : next.engine.write.nextCommitSeq = host.engine.write.nextCommitSeq + 1

/-- The state after a write path that returned `Ok`. -/
structure Persisted (host : Host ETag) (entries : List BatchEntry) (next : Host ETag) : Prop
    extends host.Inserted entries next where
  rest : next.AtRest
  snapshots : next.engine.write.openSnapshots = host.engine.write.openSnapshots

section Phases

variable {host : Host ETag}

theorem slotFree_of_immutable (empty : host.engine.view.immutable = none) : host.SlotFree := by
  unfold SlotFree frozenRows
  rw [empty]

variable [DecidableEq ETag]

/-- The flush in flight, whatever of it fails; a compaction that begins behind it takes every
table of the view. -/
theorem Live.flush_step (live : host.Live) (compactions : host.compactions = [])
    {pending : PendingFlush} (single : host.flushes = [⟨pending, none⟩]) (io : Io) :
    match LsmEngine.finishFlush host.store io.bloom io.putFails pending with
    | (store, .error _) => Live { host with store := store, flushes := [] }
    | (store, .ok table) =>
        match host.engine.commitFlush store io.flushFault io.threshold pending table with
        | (engine, store, .error _) =>
            Live { host with engine := engine, store := store, flushes := [] } ∧
              engine.write.nextCommitSeq = host.engine.write.nextCommitSeq
        | (engine, store, .ok compaction) =>
            Live { host with
              engine := engine, store := store, flushes := []
              compactions := CompactTask.begun compaction } ∧
            engine.view.immutable = none ∧
            engine.write.nextCommitSeq = host.engine.write.nextCommitSeq ∧
            engine.write.openSnapshots = host.engine.write.openSnapshots ∧
            ∀ captured, compaction = some captured → captured.sstables = engine.view.sstables := by
  rcases ran : LsmEngine.finishFlush host.store io.bloom io.putFails pending with
    ⟨store, error | table⟩
  · have dropped : host.step (.finishFlush 0 io.bloom io.putFails) =
        some { host with store := store, flushes := [] } := by
      simp only [Host.step, single, List.getElem?_cons_zero, ran]
      rfl
    exact live.step (.finishFlush 0 io.bloom io.putFails) trivial dropped
  set built : Host ETag := { host with
    store := store, flushes := [⟨pending, some table⟩] } with builtExact
  have finished : host.step (.finishFlush 0 io.bloom io.putFails) = some built := by
    simp only [Host.step, single, List.getElem?_cons_zero, ran]
    rfl
  have builtLive : built.Live := 
    live.step (.finishFlush 0 io.bloom io.putFails) trivial finished
  have found : built.flushes[0]? = some ⟨pending, some table⟩ := rfl
  dsimp only
  rcases done : host.engine.commitFlush store io.flushFault io.threshold pending table with
    ⟨engine, shipped, error | compaction⟩
  · have dropped : built.step (.commitFlush 0 io.flushFault io.threshold) =
        some { host with engine := engine, store := shipped, flushes := [] } := by
      simp only [Host.step, found]
      rw [show built.engine.commitFlush built.store io.flushFault io.threshold pending table =
        (engine, shipped, .error error) from done]
      rfl
    refine ⟨builtLive.step (.commitFlush 0 io.flushFault io.threshold) trivial dropped, ?_⟩
    obtain ⟨_, _, _, _, ⟨same, _⟩ | ⟨_, result, resultExact, same | same, _⟩⟩ :=
      step_commitFlush dropped
    · exact congrArg (fun host : Host ETag => host.engine.write.nextCommitSeq) same
    · rw [resultExact] at same
      exact congrArg (fun host : Host ETag => host.engine.write.nextCommitSeq) same
    · rw [resultExact] at same
      exact congrArg (fun host : Host ETag => host.engine.write.nextCommitSeq) same
  · set next : Host ETag := { host with
      engine := engine, store := shipped, flushes := [],
      compactions := CompactTask.begun compaction } with nextDef
    have mended : host.engine.commitFlush store none io.threshold pending table =
        (engine, shipped, .ok compaction) := by
      rw [← done]
      exact (LsmEngine.commitFlush_mended (congrArg (fun outcome => outcome.2.2) done)).symm
    have committed : built.step (.commitFlush 0 none io.threshold) = some next := by
      simp only [Host.step, found]
      rw [show built.engine.commitFlush built.store none io.threshold pending table =
        (engine, shipped, .ok compaction) from mended, nextDef, builtExact, compactions]
      rfl
    refine ⟨builtLive.step (.commitFlush 0 none io.threshold) trivial committed, ?_⟩
    obtain ⟨_, _, _, _, ⟨_, failed⟩ | ⟨_, result, resultExact, reached, _⟩⟩ :=
      step_commitFlush committed
    · rcases failed with failed | stale
      · exact absurd rfl failed
      · exact absurd builtLive.wired.inSync stale
    have noTask : result.compactions = [] := by
      rw [resultExact]
      exact compactions
    have begun : next.compactions = CompactTask.begun compaction := rfl
    rcases reached with same | same
    · have engineExact : engine = result.engine := congrArg Host.engine same
      rw [same, noTask] at begun
      rw [engineExact, resultExact]
      refine ⟨rfl, rfl, rfl, fun captured is => ?_⟩
      rw [is] at begun
      exact absurd begun (by simp [CompactTask.begun])
    · have engineExact : engine = result.captured.engine := congrArg Host.engine same
      have taken : result.captured.compactions = CompactTask.begun compaction := by
        rw [← same, begun]
      rw [engineExact]
      refine ⟨by rw [resultExact]; rfl, by rw [resultExact]; rfl, by rw [resultExact]; rfl, ?_⟩
      intro captured is
      rw [is] at taken
      have member : (⟨captured, none⟩ : CompactTask) ∈ result.captured.compactions := by
        rw [taken]
        exact List.mem_singleton.mpr rfl
      rcases mem_captured_compactions member with before | ⟨exact, _⟩
      · rw [noTask] at before
        exact absurd before List.not_mem_nil
      · rw [(CompactTask.mk.inj exact).1]
        rfl

theorem Live.compaction_step (live : host.Live) (reads : host.reads = [])
    {pending : PendingCompaction} (single : host.compactions = [⟨pending, none⟩])
    (whole : pending.sstables = host.tables) (io : Io) :
    match LsmEngine.finishCompact host.store io.mergedBloom io.mergedPutFails pending with
    | (store, .error _) => Live { host with store := store, compactions := [] }
    | (store, .ok table) =>
        match host.engine.commitCompact store io.saveFails io.deleteFails pending table with
        | (engine, store, _) =>
            Live { host with engine := engine, store := store, compactions := [] } ∧
              engine.view.immutable = host.engine.view.immutable ∧
              engine.write.nextCommitSeq = host.engine.write.nextCommitSeq ∧
              engine.write.openSnapshots = host.engine.write.openSnapshots := by
  rcases ran : LsmEngine.finishCompact host.store io.mergedBloom io.mergedPutFails pending with
    ⟨store, error | table⟩
  · have dropped : host.step (.finishCompact 0 io.mergedBloom io.mergedPutFails) =
        some { host with store := store, compactions := [] } := by
      simp only [Host.step, single, List.getElem?_cons_zero, ran]
      rfl
    exact live.step (.finishCompact 0 io.mergedBloom io.mergedPutFails) trivial dropped
  set built : Host ETag := { host with
    store := store, compactions := [⟨pending, some table⟩] } with builtExact
  have finished : host.step (.finishCompact 0 io.mergedBloom io.mergedPutFails) = some built := by
    simp only [Host.step, single, List.getElem?_cons_zero, ran]
    rfl
  have builtLive : built.Live := 
    live.step (.finishCompact 0 io.mergedBloom io.mergedPutFails) trivial finished
  have found : built.compactions[0]? = some ⟨pending, some table⟩ := rfl
  dsimp only
  rcases done : host.engine.commitCompact store io.saveFails io.deleteFails pending table with
    ⟨engine, stored, outcome⟩
  have committed : built.step (.commitCompact 0 io.saveFails io.deleteFails) =
      some { host with engine := engine, store := stored, compactions := [] } := by
    simp only [Host.step, found]
    rw [show built.engine.commitCompact built.store io.saveFails io.deleteFails pending table =
      (engine, stored, outcome) from done]
    rfl
  have noSurvivor : built.survivors pending = [] := by
    refine List.filter_eq_nil_iff.mpr fun live member => ?_
    simp only [decide_not, Bool.not_eq_true', decide_eq_false_iff_not, not_not]
    rw [whole]
    exact List.mem_map_of_mem member
  have careful : built.Careful (.commitCompact 0 io.saveFails io.deleteFails) := by
    simp only [Careful, MayCompact, found]
    refine ⟨fun captured member => ?_, fun survivor member => ?_, fun read member => ?_⟩
    · rw [whole] at member
      exact List.mem_map_of_mem member
    · rw [noSurvivor] at member
      exact absurd member List.not_mem_nil
    · rw [builtExact, reads] at member
      exact absurd member List.not_mem_nil
  refine ⟨builtLive.step _ careful committed, ?_⟩
  obtain ⟨captured, merged, _, ⟨same, _⟩ | ⟨_, objects, same, _⟩⟩ := step_commitCompact committed
  · have engineExact : engine = host.engine := congrArg Host.engine same
    rw [engineExact]
    exact ⟨rfl, rfl, rfl⟩
  · have engineExact : engine = (built.compacted 0 objects captured merged).engine :=
      congrArg Host.engine same
    rw [engineExact]
    exact ⟨rfl, rfl, rfl⟩

theorem Live.write_step (live : host.Live) (rest : host.AtRest)
    (distinct : DistinctKeys entries) : ∃ engine pending,
      host.engine.writeBatch none entries =
          (engine, .ok (host.engine.write.nextCommitSeq, pending)) ∧
        Live { host with
          engine := engine, flushes := FlushTask.begun pending
          history := host.history ++ [⟨host.engine.write.nextCommitSeq, entries⟩] } ∧
        engine.write.nextCommitSeq = host.engine.write.nextCommitSeq + 1 ∧
        engine.write.openSnapshots = host.engine.write.openSnapshots ∧
        (pending = none → Host.SlotFree { host with engine := engine }) := by
  obtain ⟨engine, pending, wrote⟩ := host.engine.writeBatch_succeeds live.valid entries
  set logged : Host ETag := { host with
    engine := engine
    flushes := FlushTask.begun pending
    history := host.history ++ [⟨host.engine.write.nextCommitSeq, entries⟩] } with loggedExact
  have taken : host.step (.write none entries) = some logged := by
    simp only [Host.step, wrote, rest.flushes, List.nil_append]
    rfl
  refine ⟨engine, pending, wrote, live.step (.write none entries)
    ⟨rfl, distinct, fun _ => rest.slot⟩ taken, ?_⟩
  rcases step_write taken with ⟨same, _⟩ | ⟨same, _⟩ | ⟨invalid, _⟩
  · have engineExact : engine = (host.applied entries).engine := congrArg Host.engine same
    rw [engineExact]
    exact ⟨rfl, rfl, fun _ => rest.slot⟩
  · have engineExact : engine = (host.applied entries).frozen.engine := congrArg Host.engine same
    refine ⟨by rw [engineExact]; rfl, by rw [engineExact]; rfl, fun nothing => ?_⟩
    -- no flush began, so the memtable that was frozen holds no row
    have noFlush : (host.applied entries).frozen.flushes = [] := by
      rw [← same, loggedExact, nothing]
      rfl
    have noRows : (host.applied entries).engine.view.memtable.toEntries.entries = [] := by
      by_contra rows
      simp [Host.frozen, rows] at noFlush
    rw [engineExact]
    exact noRows
  · rw [live.valid] at invalid
    exact absurd invalid (by decide)

theorem Live.persist_inserted (live : host.Live) (rest : host.AtRest)
    (appended : io.append = none) (distinct : DistinctKeys entries) :
    host.Inserted entries { host with
      engine := (host.engine.persist host.store io entries).1
      store := (host.engine.persist host.store io entries).2.1
      history := host.history ++ [⟨host.engine.write.nextCommitSeq, entries⟩] } := by
  obtain ⟨written, pending, wrote, loggedLive, counted, _⟩ := live.write_step rest distinct
  unfold LsmEngine.persist
  rw [appended, wrote]
  cases pending with
  | none =>
      refine ⟨?_, rfl, counted⟩
      rw [rest.flushes]
      exact loggedLive
  | some flush =>
      have flushing := loggedLive.flush_step rest.compactions rfl io
      dsimp only at flushing ⊢
      rcases built : LsmEngine.finishFlush host.store io.bloom io.putFails flush with
        ⟨store, error | table⟩ <;> rw [built] at flushing
      · refine ⟨?_, rfl, counted⟩
        rw [rest.flushes]
        exact flushing
      dsimp only at flushing ⊢
      rcases flushed : written.commitFlush store io.flushFault io.threshold flush table with
        ⟨engine, shipped, error | _ | captured⟩ <;> rw [flushed] at flushing
      · obtain ⟨flushedLive, flushCounted⟩ := flushing
        refine ⟨?_, rfl, flushCounted.trans counted⟩
        rw [rest.flushes]
        exact flushedLive
      · obtain ⟨flushedLive, _, flushCounted, _⟩ := flushing
        refine ⟨?_, rfl, flushCounted.trans counted⟩
        rw [rest.flushes, rest.compactions]
        exact flushedLive
      · obtain ⟨flushedLive, _, flushCounted, _, whole⟩ := flushing
        have compacting := flushedLive.compaction_step rest.reads rfl (whole captured rfl) io
        dsimp only at compacting ⊢
        rcases merging : LsmEngine.finishCompact shipped io.mergedBloom io.mergedPutFails captured with
          ⟨stored, error | merged⟩ <;> rw [merging] at compacting
        · refine ⟨?_, rfl, flushCounted.trans counted⟩
          rw [rest.flushes, rest.compactions]
          exact compacting
        · obtain ⟨finalLive, _, finalCounted, _⟩ := compacting
          refine ⟨?_, rfl, finalCounted.trans (flushCounted.trans counted)⟩
          rw [rest.flushes, rest.compactions]
          exact finalLive

theorem Live.persist (live : host.Live) (rest : host.AtRest) (sound : io.Succeeds)
    (distinct : DistinctKeys entries) : ∃ engine store,
      host.engine.persist host.store io entries = (engine, store, .ok ()) ∧
      host.Persisted entries { host with
        engine := engine
        store := store
        history := host.history ++ [⟨host.engine.write.nextCommitSeq, entries⟩] } := by
  have inserted := live.persist_inserted rest sound.append distinct
  obtain ⟨written, pending, wrote, loggedLive, _, snapshots, slot⟩ := live.write_step rest distinct
  have atRest : ∀ engine store, Host.SlotFree { host with engine := engine } → AtRest { host with
      engine := engine, store := store
      history := host.history ++ [⟨host.engine.write.nextCommitSeq, entries⟩] } :=
    fun engine store slot => ⟨rest.flushes, rest.compactions, rest.reads, slot⟩
  unfold LsmEngine.persist at inserted ⊢
  rw [sound.append, wrote] at inserted ⊢
  cases pending with
  | none => exact ⟨written, host.store, rfl, inserted, atRest _ _ (slot rfl), snapshots⟩
  | some flush =>
      have flushing := loggedLive.flush_step rest.compactions rfl io
      obtain ⟨engine, shipped, compaction, flushed⟩ := written.commitFlush_succeeds
        (host.store.putSst flush.sstableId (SSTable.build io.bloom flush.sstableId flush.entries))
        loggedLive.valid loggedLive.wired.inSync io.threshold flush
        (SSTable.build io.bloom flush.sstableId flush.entries)
      simp only [LsmEngine.finishFlush, sound.put, sound.flush, flushed, Bool.false_eq_true,
        if_false] at flushing inserted ⊢
      obtain ⟨flushedLive, empty, _, flushSnapshots, whole⟩ := flushing
      cases compaction with
      | none =>
          exact ⟨engine, shipped, rfl, inserted, atRest _ _ (slotFree_of_immutable empty),
            flushSnapshots.trans snapshots⟩
      | some captured =>
          have compacting := flushedLive.compaction_step rest.reads rfl (whole captured rfl) io
          obtain ⟨final, stored, compacted⟩ := engine.commitCompact_succeeds
            (shipped.putSst captured.newId (SSTable.build io.mergedBloom captured.newId
              (LsmEngine.mergeEntries captured.watermark
                (captured.sstables.flatMap SSTable.scanAllVersions))))
            flushedLive.wired.inSync io.deleteFails captured
            (SSTable.build io.mergedBloom captured.newId (LsmEngine.mergeEntries
              captured.watermark (captured.sstables.flatMap SSTable.scanAllVersions)))
          simp only [LsmEngine.finishCompact, sound.mergedPut, sound.save, compacted,
            Bool.false_eq_true, if_false] at compacting inserted ⊢
          obtain ⟨_, kept, _, finalSnapshots⟩ := compacting
          exact ⟨final, stored, rfl, inserted,
            atRest _ _ (slotFree_of_immutable (kept.trans empty)),
            finalSnapshots.trans (flushSnapshots.trans snapshots)⟩

end Phases

/-! ## Reads behind a write path -/

def writesOf (entries : List BatchEntry) (key : Bytes) : Option (Option Bytes) :=
  (entries.find? fun entry => decide (entry.key = key)).map BatchEntry.value

variable {host next : Host ETag} {entries : List BatchEntry}

def latest (host : Host ETag) : Bytes → Option Bytes :=
  fun key => host.engine.readAt key host.engine.currentSeq

theorem Inserted.commits (persisted : host.Inserted entries next) :
    next.commits = host.commits ∪
      (⟨host.engine.write.nextCommitSeq, entries⟩ : Commit).versions := by
  rw [Host.commits, Host.commits, persisted.history, committed_append, committed_singleton]

theorem Persisted.registered (persisted : host.Persisted entries next) (seq : Nat) :
    next.Registered seq ↔ host.Registered seq := by
  unfold Registered
  rw [persisted.snapshots]

theorem Persisted.readAt_registered (persisted : host.Persisted entries next) (live : host.Live)
    {seq : Nat} (registered : host.Registered seq) (key : Bytes) :
    next.engine.readAt key seq = host.engine.readAt key seq := by
  refine Answers.same (persisted.live.answers (Or.inr (Or.inl ?_)))
    (live.answers (Or.inr (Or.inl registered))) fun version _ => ?_
  · exact (persisted.registered seq).mpr registered
  · rw [persisted.commits]
    refine ⟨?_, fun ⟨member, visible⟩ => ⟨Or.inl member, visible⟩⟩
    rintro ⟨member | member, visible⟩
    · exact ⟨member, visible⟩
    · have newer := commit_seq_of_mem member
      have old := live.registeredBounded seq registered
      simp only at newer
      omega

theorem Inserted.latest (persisted : host.Inserted entries next) (live : host.Live) :
    next.latest = overlay (writesOf entries) host.latest := by
  funext key
  have nextAnswers : Answers next.commits key next.engine.currentSeq (next.latest key) :=
    persisted.live.answers (Or.inl rfl)
  have current : next.engine.currentSeq = host.engine.write.nextCommitSeq := by
    rw [LsmEngine.currentSeq, persisted.counted, Nat.add_sub_cancel]
  have newer : ∀ version ∈ host.commits, version.seq ≤ host.engine.currentSeq := by
    intro version member
    have := live.bounded version member
    rw [LsmEngine.currentSeq]
    omega
  cases written : entries.find? fun entry => decide (entry.key = key) with
  | none =>
      rw [overlay_none (by rw [writesOf, written]; rfl)]
      refine Answers.same nextAnswers (live.answers (Or.inl rfl)) fun version keyExact => ?_
      rw [persisted.commits, current]
      constructor
      · rintro ⟨member | ⟨entry, listed, rfl⟩, _⟩
        · exact ⟨member, newer version member⟩
        · have missed := List.find?_eq_none.mp written entry listed
          exact absurd (decide_eq_true keyExact) missed
      · rintro ⟨member, _⟩
        exact ⟨Or.inl member, (live.bounded version member).le⟩
  | some entry =>
      have keyExact : entry.key = key := by simpa using List.find?_some written
      rw [overlay_some (by rw [writesOf, written]; rfl)]
      have member : entry.version host.engine.write.nextCommitSeq ∈ next.commits := by
        rw [persisted.commits]
        exact Or.inr ⟨entry, List.mem_of_find?_eq_some written, rfl⟩
      refine nextAnswers.1 _ ⟨member, keyExact, current.ge, fun other otherMember _ visible => ?_⟩
      rw [current] at visible
      exact visible

theorem Live.readAt_u64Max (live : host.Live)
    (counted : host.engine.write.nextCommitSeq ≤ u64Max + 1) (key : Bytes) :
    host.engine.readAt key u64Max = host.latest key := by
  have below : ∀ version ∈ host.commits, version.seq ≤ u64Max := by
    intro version member
    have := live.bounded version member
    omega
  have newer : ∀ version ∈ host.commits, version.seq ≤ host.engine.currentSeq := by
    intro version member
    have := live.bounded version member
    rw [LsmEngine.currentSeq]
    omega
  have resolves := host.engine.view.readAt_resolves live.ordered.shadows
  have retains := (live.retains key _ (Or.inl rfl)).of_bounded live.subset newer below
  have answers : Answers host.commits key u64Max (host.engine.readAt key u64Max) := by
    rw [LsmEngine.readAt, EngineView.readAt_eq_firstHit]
    exact resolves.answers live.subset live.det retains
  refine Answers.same answers (live.answers (Or.inl rfl)) fun version _ => ?_
  constructor
  · intro visible
    exact ⟨visible.1, newer version visible.1⟩
  · intro visible
    exact ⟨visible.1, below version visible.1⟩

end Host

/-! ## Staged writes -/

theorem findIdx?_zero (front : Bytes) (clean : 0 ∉ front) (back : Bytes) :
    (front ++ 0 :: back).findIdx? (· == 0) = some front.length := by
  rw [List.findIdx?_append]
  have absent : front.findIdx? (· == 0) = none := by
    rw [List.findIdx?_eq_none_iff]
    intro byte member
    simpa using fun zero : byte = 0 => clean (zero ▸ member)
  rw [absent]
  simp [List.findIdx?_cons]

/-- The entry `commit_txn` makes of one staged write. -/
def commitEntry (write : Bytes × Option Bytes) : Option BatchEntry :=
  match write.1.findIdx? (· == 0) with
  | none => none
  | some index =>
      (String.fromUTF8? ⟨(write.1.take index).toArray⟩).map fun table => ⟨table, write.1, write.2⟩

theorem commitEntries_eq (staged : OrdMap Bytes (Option Bytes)) :
    commitEntries staged = staged.toList.filterMap commitEntry := rfl

theorem commitEntry_key {write : Bytes × Option Bytes} {entry : BatchEntry}
    (made : commitEntry write = some entry) : entry.key = write.1 ∧ entry.value = write.2 := by
  unfold commitEntry at made
  split at made
  · exact absurd made (by simp)
  · obtain ⟨table, _, rfl⟩ := Option.map_eq_some_iff.mp made
    exact ⟨rfl, rfl⟩

theorem commitEntry_makeKey (table : String) (key : Bytes) (value : Option Bytes) :
    ∃ entry, commitEntry (makeKey table key, value) = some entry := by
  obtain ⟨front, back, split, clean⟩ := utf8Bytes_until_zero table key
  have keyExact : makeKey table key = utf8Bytes front ++ 0 :: back := by
    rw [← split, makeKey, List.append_assoc]
    rfl
  refine ⟨⟨front, makeKey table key, value⟩, ?_⟩
  unfold commitEntry
  simp only [keyExact, findIdx?_zero _ clean, List.take_left, fromUTF8_utf8Bytes, Option.map_some]

def Keyed (staged : OrdMap Bytes (Option Bytes)) : Prop :=
  ∀ write ∈ staged.toList, ∃ table key, write.1 = makeKey table key

theorem keyed_empty : Keyed OrdMap.empty := fun _ member => absurd member List.not_mem_nil

theorem Keyed.insert {staged : OrdMap Bytes (Option Bytes)} (keyed : Keyed staged) (table : String)
    (key : Bytes) (value : Option Bytes) : Keyed (staged.insert (makeKey table key) value) := by
  intro write member
  rcases (OrdMap.mem_insert _ _ _ _).mp member with rfl | ⟨member, _⟩
  · exact ⟨table, key, rfl⟩
  · exact keyed write member

theorem writesOf_commitEntries {staged : OrdMap Bytes (Option Bytes)} (keyed : Keyed staged) :
    Host.writesOf (commitEntries staged) = staged.get? := by
  funext key
  rw [Host.writesOf]
  cases found : staged.get? key with
  | none =>
      have missed : (commitEntries staged).find? (fun entry => decide (entry.key = key)) = none := by
        rw [List.find?_eq_none, commitEntries_eq]
        intro entry listed
        obtain ⟨write, member, made⟩ := List.mem_filterMap.mp listed
        rw [(commitEntry_key made).1]
        simpa using (OrdMap.get?_eq_none _ _).mp found write member
      rw [missed]
      rfl
  | some value =>
      have member := (OrdMap.get?_eq_some _ _ _).mp found
      obtain ⟨table, rest, keyExact⟩ := keyed _ member
      obtain ⟨entry, made⟩ := commitEntry_makeKey table rest value
      rw [← keyExact] at made
      obtain ⟨entryKey, entryValue⟩ := commitEntry_key made
      have listed : entry ∈ commitEntries staged := by
        rw [commitEntries_eq]
        exact List.mem_filterMap.mpr ⟨_, member, made⟩
      have hit := find?_of_distinct (commitEntries_distinct staged) listed
      rw [entryKey] at hit
      rw [hit]
      exact congrArg some entryValue

/-! ## Calls -/

namespace Database

def isOpen (seq : Nat) (handle : Handle) : Bool :=
  !handle.txn.finished && decide (handle.txn.snapshotSeq = seq)

/-- Between two calls.  Each open transaction holds a registration of its own,
so that another one's end does not release it. -/
structure Settled (database : Database ETag) : Prop where
  live : database.host.Live
  rest : database.host.AtRest
  pinned : ∀ seq, database.handles.countP (isOpen seq) ≤
    (database.host.engine.write.openSnapshots.get? seq).getD 0
  keyed : ∀ handle ∈ database.handles, Keyed handle.txn.staged

variable {database : Database ETag}

theorem Settled.started (manifestEtag : Manifest → ETag) (leaseEtag : Lease → ETag) (token : Nat) :
    (start manifestEtag leaseEtag token).Settled := by
  refine ⟨Host.Live.started _ _ _, ⟨rfl, rfl, rfl, rfl⟩, fun seq => Nat.zero_le _, ?_⟩
  exact fun handle member => absurd member List.not_mem_nil

theorem Settled.registered (settled : database.Settled) {handle : Handle}
    (member : handle ∈ database.handles) (unfinished : handle.txn.finished = false) :
    database.host.Registered handle.txn.snapshotSeq := by
  have counted : 0 < database.handles.countP (isOpen handle.txn.snapshotSeq) := by
    rw [List.countP_pos_iff]
    exact ⟨handle, member, by simp [isOpen, unfinished]⟩
  have pinned := settled.pinned handle.txn.snapshotSeq
  cases found : database.host.engine.write.openSnapshots.get? handle.txn.snapshotSeq with
  | none =>
      rw [found, Option.getD_none] at pinned
      omega
  | some count => exact ⟨count, (OrdMap.get?_eq_some _ _ _).mp found⟩

theorem Settled.beginTxn (settled : database.Settled) : database.beginTxn.Settled := by
  have live := settled.live.snapshotNow
  refine ⟨live, ⟨settled.rest.flushes, settled.rest.compactions, settled.rest.reads,
    settled.rest.slot⟩, fun seq => ?_, fun handle member => ?_⟩
  · have before := settled.pinned seq
    simp only [Database.beginTxn, LsmEngine.snapshotNow, LsmEngine.registerSnapshot,
      OrdMap.get?_insert, List.countP_append]
    by_cases same : seq = database.host.engine.currentSeq
    · subst same
      simp only [if_true, Option.getD_some, isOpen, List.countP_singleton, Bool.not_false,
        Bool.true_and, decide_true]
      exact Nat.add_le_add_right before 1
    · have other : isOpen seq ⟨⟨database.host.engine.currentSeq, false, OrdMap.empty⟩,
          database.calls.length⟩ = false := by
        simp [isOpen, Ne.symm same]
      rw [if_neg same, List.countP_singleton, other]
      simpa using before
  · rcases List.mem_append.mp member with member | member
    · exact settled.keyed handle member
    · rw [List.mem_singleton.mp member]
      exact keyed_empty

theorem countP_modify (seq : Nat) (update : Txn → Txn)
    (same : ∀ txn, (update txn).finished = txn.finished ∧
      (update txn).snapshotSeq = txn.snapshotSeq) : ∀ (handles : List Handle) (index : Nat),
    (handles.modify index fun handle => { handle with txn := update handle.txn }).countP
        (isOpen seq) = handles.countP (isOpen seq) := by
  intro handles
  induction handles with
  | nil => intro index; simp
  | cons head rest ih =>
      intro index
      cases index with
      | zero =>
          have sameOpen : isOpen seq { head with txn := update head.txn } = isOpen seq head := by
            rw [isOpen, isOpen, (same head.txn).1, (same head.txn).2]
          rw [List.modify_zero_cons, List.countP_cons, List.countP_cons, sameOpen]
      | succ index => rw [List.modify_succ_cons, List.countP_cons, List.countP_cons, ih index]

theorem mem_modify_txn {handles : List Handle} {index : Nat} {update : Txn → Txn} {handle : Handle}
    (member : handle ∈ handles.modify index fun handle => { handle with txn := update handle.txn }) :
    handle ∈ handles ∨ ∃ before, handles[index]? = some before ∧
      handle = { before with txn := update before.txn } := by
  obtain ⟨position, found⟩ := List.mem_iff_getElem?.mp member
  rw [List.getElem?_modify] at found
  obtain ⟨before, held, rfl⟩ := Option.map_eq_some_iff.mp found
  by_cases same : index = position
  · subst same
    rw [if_pos rfl]
    exact Or.inr ⟨before, held, rfl⟩
  · rw [if_neg same]
    exact Or.inl (List.mem_of_getElem? held)

theorem Settled.stage (settled : database.Settled) (index : Nat) (table : String) (key : Bytes)
    (value : Option Bytes) (update : Txn → Txn)
    (staging : ∀ txn, update txn = txn ∨
      update txn = { txn with staged := txn.staged.insert (makeKey table key) value }) :
    (database.restage index update).Settled := by
  refine ⟨settled.live, settled.rest, fun seq => ?_, fun handle member => ?_⟩
  · refine (countP_modify seq update (fun txn => ?_) database.handles index).le.trans
      (settled.pinned seq)
    rcases staging txn with same | same <;> rw [same] <;> exact ⟨rfl, rfl⟩
  · rcases mem_modify_txn member with member | ⟨before, held, rfl⟩
    · exact settled.keyed handle member
    · have keyed := settled.keyed before (List.mem_of_getElem? held)
      rcases staging before.txn with same | same <;> rw [same]
      · exact keyed
      · exact keyed.insert table key value

theorem stageWrite_cases (txn : Txn) (compositeKey value : Bytes) :
    txn.stageWrite compositeKey value = txn ∨ txn.stageWrite compositeKey value =
      { txn with staged := txn.staged.insert compositeKey (some value) } := by
  unfold Txn.stageWrite
  split_ifs
  · exact Or.inl rfl
  · exact Or.inr rfl

theorem stageDelete_cases (txn : Txn) (compositeKey : Bytes) :
    txn.stageDelete compositeKey = txn ∨ txn.stageDelete compositeKey =
      { txn with staged := txn.staged.insert compositeKey none } := by
  unfold Txn.stageDelete
  split_ifs
  · exact Or.inl rfl
  · exact Or.inr rfl

theorem countP_closed (seq : Nat) : ∀ (handles : List Handle) (index : Nat) (handle : Handle),
    handles[index]? = some handle →
    (handles.modify index fun handle => { handle with txn := closed handle.txn }).countP
        (isOpen seq) + (if isOpen seq handle then 1 else 0) = handles.countP (isOpen seq) := by
  intro handles
  induction handles with
  | nil => intro index handle found; simp at found
  | cons head rest ih =>
      intro index handle found
      cases index with
      | zero =>
          cases Option.some.inj found
          have shut : isOpen seq { head with txn := closed head.txn } = false := rfl
          rw [List.modify_zero_cons, List.countP_cons, List.countP_cons, shut]
          simp
      | succ index =>
          have fewer := ih index handle (by simpa using found)
          rw [List.modify_succ_cons, List.countP_cons, List.countP_cons]
          omega

theorem releaseSnapshot_count (engine : LsmEngine ETag) (seq other : Nat) :
    (((engine.releaseSnapshot seq).write.openSnapshots).get? other).getD 0 =
      (engine.write.openSnapshots.get? other).getD 0 - if other = seq then 1 else 0 := by
  unfold LsmEngine.releaseSnapshot
  cases found : engine.write.openSnapshots.get? seq with
  | none =>
      by_cases same : other = seq
      · rw [same, found]
        simp
      · rw [if_neg same]
        rfl
  | some count =>
      by_cases same : other = seq
      · subst same
        by_cases last : count - 1 = 0
        · simp [last, OrdMap.get?_erase, found]
        · simp [last, OrdMap.get?_insert, found]
      · by_cases last : count - 1 = 0
        · simp [last, OrdMap.get?_erase, same]
        · simp [last, OrdMap.get?_insert, same]

theorem releaseSnapshot_view (engine : LsmEngine ETag) (seq : Nat) :
    (engine.releaseSnapshot seq).view = engine.view := by
  unfold LsmEngine.releaseSnapshot
  split <;> rfl

theorem finish_cases (database : Database ETag) (index : Nat) :
    (database.handles[index]? = none ∧ database.finish index = database) ∨
      ∃ handle, database.handles[index]? = some handle ∧
        (handle.txn.finished = true ∧ database.finish index = database.restage index closed ∨
          handle.txn.finished = false ∧ database.finish index =
            { database.restage index closed with
              host := { database.host with
                engine := database.host.engine.releaseSnapshot handle.txn.snapshotSeq } }) := by
  unfold Database.finish txnAt
  cases found : database.handles[index]? with
  | none => exact Or.inl ⟨rfl, rfl⟩
  | some handle =>
      refine Or.inr ⟨handle, rfl, ?_⟩
      cases finished : handle.txn.finished with
      | true => exact Or.inl ⟨rfl, by simp [finished]⟩
      | false => exact Or.inr ⟨rfl, by simp [finished]⟩

theorem Settled.finish (settled : database.Settled) (index : Nat) :
    (database.finish index).Settled := by
  have keyed : ∀ after ∈ (database.restage index closed).handles, Keyed after.txn.staged := by
    intro after member
    rcases mem_modify_txn member with member | ⟨before, _, rfl⟩
    · exact settled.keyed after member
    · exact keyed_empty
  rcases database.finish_cases index with ⟨_, same⟩ | ⟨handle, held, ⟨_, same⟩ | ⟨unfinished, same⟩⟩
  · rw [same]
    exact settled
  · rw [same]
    refine ⟨settled.live, settled.rest, fun seq => ?_, keyed⟩
    have fewer := countP_closed seq database.handles index handle held
    exact (Nat.le_of_add_right_le fewer.le).trans (settled.pinned seq)
  · rw [same]
    refine ⟨settled.live.releaseSnapshot _, ⟨settled.rest.flushes, settled.rest.compactions,
      settled.rest.reads, ?_⟩, fun seq => ?_, keyed⟩
    · have slot := settled.rest.slot
      unfold Host.SlotFree Host.frozenRows at slot ⊢
      simp only [releaseSnapshot_view]
      exact slot
    · have fewer := countP_closed seq database.handles index handle held
      have pinned := settled.pinned seq
      simp only [restage]
      rw [releaseSnapshot_count]
      have opened : isOpen seq handle = decide (handle.txn.snapshotSeq = seq) := by
        rw [isOpen, unfinished]
        rfl
      rw [opened] at fewer
      by_cases own : seq = handle.txn.snapshotSeq
      · rw [if_pos own]
        rw [if_pos (by simp [own])] at fewer
        omega
      · rw [if_neg own]
        rw [if_neg (by simp [Ne.symm own])] at fewer
        omega

/-! ## Write paths -/

/-- What one successful write path changes. -/
structure Applied (database : Database ETag) (writes : Bytes → Option (Option Bytes))
    (next : Database ETag) : Prop where
  settled : next.Settled
  role : next.role = database.role
  handles : next.handles = database.handles
  calls : next.calls = database.calls
  latest : next.host.latest = overlay writes database.host.latest
  snapshots : ∀ handle ∈ database.handles, handle.txn.finished = false → ∀ key,
    next.host.engine.readAt key handle.txn.snapshotSeq =
      database.host.engine.readAt key handle.txn.snapshotSeq
  counted : next.host.engine.write.nextCommitSeq = database.host.engine.write.nextCommitSeq + 1

theorem Settled.persist [DecidableEq ETag] (settled : database.Settled)
    (sound : io.Succeeds) (distinct : DistinctKeys entries) :
    (database.persist io entries).2 = .ok () ∧
      database.Applied (Host.writesOf entries) (database.persist io entries).1 := by
  obtain ⟨engine, store, ran, persisted⟩ := settled.live.persist settled.rest sound distinct
  have exact : database.persist io entries = ({ database with
      host := { database.host with
        engine := engine
        store := store
        history := database.host.history ++
          [⟨database.host.engine.write.nextCommitSeq, entries⟩] } }, .ok ()) := by
    simp only [Database.persist, ran, sound.append, if_true, maintainIndexes, sound.index]
  rw [exact]
  refine ⟨rfl, ⟨persisted.live, persisted.rest, fun seq => ?_, settled.keyed⟩, rfl, rfl, rfl,
    persisted.latest settled.live, fun handle member unfinished key => ?_, persisted.counted⟩
  · have pinned := settled.pinned seq
    rw [← persisted.snapshots] at pinned
    exact pinned
  · exact persisted.readAt_registered settled.live (settled.registered member unfinished) key

end Database

end Pantheon.Keystone
