import Mathlib
import Pantheon.Keystone.LastCommit

/-!
# The rows a session can read

A scan lists the rows that reads find, with or without a transaction.  A read finds
a version of the view or a staged write, and the view holds nothing but what some
batch brought, whatever I/O failed on the way.
-/

set_option autoImplicit false

namespace Pantheon.Keystone

open Pantheon.Lib

variable {key value : Bytes} {entries : List BatchEntry}

/-! ## Scans and reads -/

theorem mem_of_firstHit {K V : Type} {sources : List (Set (Version K V))}
    {looks : List (K → Nat → Option (Option V))} (each : List.Forall₂ Resolves sources looks)
    {key : K} {cutoff : Nat} {result : Option V} (found : firstHit looks key cutoff = some result) :
    ∃ version ∈ union sources, version.key = key ∧ version.value = result := by
  induction each with
  | nil => cases found
  | @cons source look sources looks resolves _ ih =>
      rw [firstHit, List.findSome?_cons] at found
      rw [union_cons]
      cases looked : look key cutoff with
      | some value =>
          rw [looked] at found
          cases found
          obtain ⟨version, newest, valueExact⟩ := resolves.hit key cutoff _ looked
          exact ⟨version, Or.inl newest.mem, newest.keyEq, valueExact⟩
      | none =>
          rw [looked] at found
          obtain ⟨version, member, exact⟩ := ih found
          exact ⟨version, Or.inr member, exact⟩

theorem EngineView.mem_of_readAt {view : EngineView} {snapshotSeq : Nat}
    (found : view.readAt key snapshotSeq = some value) :
    ∃ version ∈ view.versions, version.key = key ∧ version.value = some value := by
  rw [readAt_eq_firstHit] at found
  rw [← union_sources]
  have hit : firstHit view.looks key snapshotSeq = some (some value) := by
    cases looked : firstHit view.looks key snapshotSeq with
    | none =>
        rw [looked] at found
        cases found
    | some result =>
        rw [looked] at found
        exact congrArg some found
  exact mem_of_firstHit view.sources_resolve hit

theorem lookupRows_toList (map : OrdMap Bytes (Option Bytes)) (key : Bytes) :
    lookupRows map.toList key = map.get? key := by
  refine Option.ext fun value => ?_
  rw [lookupRows_eq_some map.sorted, OrdMap.get?_eq_some]

theorem lookupRows_filter {rows : List (Bytes × Option Bytes)}
    (sorted : rows.Pairwise fun left right => left.1 < right.1) (kept : Bytes → Bool)
    (key : Bytes) :
    lookupRows (rows.filter fun row => kept row.1) key =
      if kept key then lookupRows rows key else none := by
  refine Option.ext fun value => ?_
  rw [lookupRows_eq_some (sorted.filter _), List.mem_filter]
  by_cases keeps : kept key = true
  · rw [if_pos keeps, lookupRows_eq_some sorted, and_iff_left keeps]
  · rw [if_neg keeps]
    exact iff_of_false (fun both => keeps both.2) (by simp)

def mergedRows (txn : Option Txn) (table : String) (committed : List (Bytes × Bytes)) :
    OrdMap Bytes (Option Bytes) :=
  EngineView.overlay
    (EngineView.overlay OrdMap.empty
      ((committed.map fun row => (row.1, some row.2)).filter fun row =>
        (makePrefix table).isPrefixOf row.1))
    (((txn.map fun txn => txn.staged.toList).getD []).filter fun write =>
      (makePrefix table).isPrefixOf write.1)

theorem tableRows_eq (txn : Option Txn) (table : String) (committed : List (Bytes × Bytes)) :
    tableRows txn table committed = (mergedRows txn table committed).toList.filterMap fun row =>
      row.2.map fun value => (row.1.drop (makePrefix table).length, value) := by
  have rows : ∀ (merged : OrdMap Bytes (Option Bytes)),
      (committed.filter fun row => (makePrefix table).isPrefixOf row.1).foldl
          (fun merged row => merged.insert row.1 (some row.2)) merged =
        EngineView.overlay merged ((committed.map fun row => (row.1, some row.2)).filter
          fun row => (makePrefix table).isPrefixOf row.1) := by
    intro merged
    rw [EngineView.overlay, List.filter_map, List.foldl_map]
    rfl
  unfold tableRows mergedRows
  rw [rows]
  cases txn <;> rfl

/-- Every key of the table reads as the staged write, or else as the committed row; no
other key is there. -/
theorem mergedRows_get? (txn : Option Txn) (table : String) {committed : List (Bytes × Bytes)}
    (sorted : committed.Pairwise fun left right => left.1 < right.1) (key : Bytes) :
    (mergedRows txn table committed).get? key =
      if (makePrefix table).isPrefixOf key then
        ((txn.bind fun txn => txn.staged.get? key).or
          (lookupRows (committed.map fun row => (row.1, some row.2)) key))
      else none := by
  have committedSorted : (committed.map fun row => (row.1, some row.2)).Pairwise
      fun left right => left.1 < right.1 := by
    rw [List.pairwise_map]
    exact sorted
  have staged : lookupRows (((txn.map fun txn => txn.staged.toList).getD []).filter fun write =>
      (makePrefix table).isPrefixOf write.1) key =
        if (makePrefix table).isPrefixOf key then txn.bind fun txn => txn.staged.get? key
        else none := by
    cases txn with
    | none => exact (ite_self _).symm
    | some txn =>
        rw [Option.map_some, Option.getD_some, lookupRows_filter txn.staged.sorted,
          lookupRows_toList]
        rfl
  have empty : (OrdMap.empty : OrdMap Bytes (Option Bytes)).get? key = none := rfl
  rw [mergedRows, EngineView.overlay_get?, EngineView.overlay_get?, staged,
    lookupRows_filter committedSorted, empty]
  by_cases under : (makePrefix table).isPrefixOf key = true
  · rw [if_pos under, if_pos under, if_pos under, Option.or_none]
  · rw [if_neg under, if_neg under, if_neg under]
    rfl

theorem mem_txnScan (view : EngineView) (txn : Option Txn) (table : String) (key value : Bytes) :
    (key, value) ∈ txnScan view txn table ↔ txnRead view txn table key = some value := by
  have sorted := view.scanAt_sorted (snapshotOf txn)
  have prefixed : (makePrefix table).isPrefixOf (makePrefix table ++ key) = true :=
    List.isPrefixOf_iff_prefix.mpr (List.prefix_append _ _)
  have committed : lookupRows ((view.scanAt (snapshotOf txn)).map fun row => (row.1, some row.2))
      (makePrefix table ++ key) =
        (view.readAt (makePrefix table ++ key) (snapshotOf txn)).map some := by
    have rowsSorted : ((view.scanAt (snapshotOf txn)).map fun row => (row.1, some row.2)).Pairwise
        fun left right => left.1 < right.1 := by
      rw [List.pairwise_map]
      exact sorted
    refine Option.ext fun held => ?_
    rw [lookupRows_eq_some rowsSorted, List.mem_map, Option.map_eq_some_iff]
    constructor
    · rintro ⟨⟨rowKey, rowValue⟩, member, exact⟩
      obtain ⟨rfl, rfl⟩ := Prod.mk.inj exact
      exact ⟨rowValue, (view.mem_scanAt _ _ _).mp member, rfl⟩
    · rintro ⟨rowValue, found, rfl⟩
      exact ⟨_, (view.mem_scanAt _ _ _).mpr found, rfl⟩
  have merged : (mergedRows txn table (view.scanAt (snapshotOf txn))).get?
      (makePrefix table ++ key) = some (some value) ↔ txnRead view txn table key = some value := by
    rw [mergedRows_get? txn table sorted, if_pos prefixed, committed]
    have composite : makeKey table key = makePrefix table ++ key := rfl
    unfold txnRead
    rw [composite]
    cases txn with
    | none =>
        simp only [Option.bind_none, Option.none_or]
        cases view.readAt (makePrefix table ++ key) (snapshotOf none) <;> simp
    | some txn =>
        simp only [Option.bind_some, Txn.stagedRead]
        cases txn.staged.get? (makePrefix table ++ key) with
        | some held => simp
        | none => cases view.readAt (makePrefix table ++ key) (snapshotOf (some txn)) <;> simp
  rw [txnScan, tableRows_eq, List.mem_filterMap, ← merged, OrdMap.get?_eq_some]
  constructor
  · rintro ⟨⟨rowKey, rowValue⟩, member, live⟩
    obtain ⟨held, rfl, exact⟩ := Option.map_eq_some_iff.mp live
    obtain ⟨rfl, rfl⟩ := Prod.mk.inj exact
    have under : (makePrefix table).isPrefixOf rowKey = true := by
      have found := (OrdMap.get?_eq_some _ _ _).mpr member
      rw [mergedRows_get? txn table sorted] at found
      by_contra outside
      rw [if_neg outside] at found
      cases found
    obtain ⟨rest, rfl⟩ := List.isPrefixOf_iff_prefix.mp under
    rw [List.drop_left]
    exact member
  · intro member
    exact ⟨_, member, by simp⟩

theorem txnScan_keys_nodup (view : EngineView) (txn : Option Txn) (table : String) :
    ((txnScan view txn table).map Prod.fst).Nodup := by
  have sorted := view.scanAt_sorted (snapshotOf txn)
  rw [txnScan, tableRows_eq, List.Nodup, List.pairwise_map]
  refine List.Pairwise.filterMap _ ?_
    ((mergedRows txn table (view.scanAt (snapshotOf txn))).sorted.imp_of_mem
      (S := fun left right => left.1.drop (makePrefix table).length ≠
        right.1.drop (makePrefix table).length) ?_)
  · intro left right apart leftRow leftLive rightRow rightLive
    obtain ⟨_, _, rfl⟩ := Option.map_eq_some_iff.mp leftLive
    obtain ⟨_, _, rfl⟩ := Option.map_eq_some_iff.mp rightLive
    exact apart
  · intro left right leftMember rightMember less same
    have under : ∀ row ∈ (mergedRows txn table (view.scanAt (snapshotOf txn))).toList,
        makePrefix table <+: row.1 := by
      intro row member
      have found := (OrdMap.get?_eq_some _ _ _).mpr member
      rw [mergedRows_get? txn table sorted] at found
      by_contra outside
      rw [if_neg fun inside => outside (List.isPrefixOf_iff_prefix.mp inside)] at found
      cases found
    obtain ⟨leftRest, leftExact⟩ := under left leftMember
    obtain ⟨rightRest, rightExact⟩ := under right rightMember
    rw [← leftExact, ← rightExact, List.drop_left, List.drop_left] at same
    exact ne_of_lt less (by rw [← leftExact, ← rightExact, same])

/-! ## What a write depends on -/

namespace Database

variable {ETag : Type} [DecidableEq ETag]

/-- What a write returns when the engine is done. -/
def returned (io : Io) (entries : List BatchEntry) :
    Except StorageError Unit → Except DatabaseError Unit
  | .error error => .error (.storage error)
  | .ok () => maintainIndexes io entries

theorem persist_spec (database : Database ETag) (io : Io) (entries : List BatchEntry)
    {engine : LsmEngine ETag} {store : ObjectStore ETag} {result : Except StorageError Unit}
    (ran : database.host.engine.persist database.host.store io entries = (engine, store, result)) :
    (database.persist io entries).1 =
        { database with
          host := { database.host with
            engine := engine
            store := store
            history := if io.append = none then
                database.host.history ++ [⟨database.host.engine.write.nextCommitSeq, entries⟩]
              else database.host.history } } ∧
      (database.persist io entries).2 = returned io entries result := by
  simp only [persist, ran]
  cases result <;> exact ⟨rfl, rfl⟩

theorem persist_frame (database : Database ETag) (io : Io) (entries : List BatchEntry) :
    (database.persist io entries).1.handles = database.handles ∧
      (database.persist io entries).1.role = database.role := by
  obtain ⟨next, _⟩ := database.persist_spec io entries rfl
  rw [next]
  exact ⟨rfl, rfl⟩

theorem persist_congr {left right : Database ETag} (same : left.host = right.host) (io : Io)
    (entries : List BatchEntry) :
    (left.persist io entries).1.host = (right.persist io entries).1.host ∧
      (left.persist io entries).2 = (right.persist io entries).2 := by
  cases ran : right.host.engine.persist right.host.store io entries with
  | mk engine rest =>
      cases rest with
      | mk store result =>
          obtain ⟨leftNext, leftResult⟩ := left.persist_spec io entries (same ▸ ran)
          obtain ⟨rightNext, rightResult⟩ := right.persist_spec io entries ran
          rw [leftNext, leftResult, rightNext, rightResult]
          rw [same]
          exact ⟨rfl, rfl⟩

theorem persist_history (database : Database ETag) {io : Io} (append : io.append = none)
    (entries : List BatchEntry) :
    (database.persist io entries).1.host.history =
      database.host.history ++ [⟨database.host.engine.write.nextCommitSeq, entries⟩] := by
  obtain ⟨next, _⟩ := database.persist_spec io entries rfl
  rw [next]
  exact if_pos append

theorem autocommit_frame (database : Database ETag) (io : Io) (table : String) (key : Bytes)
    (value : Option Bytes) :
    (database.autocommit io table key value).1.handles = database.handles ∧
      (database.autocommit io table key value).1.role = database.role := by
  simp only [autocommit, recorded]
  split_ifs
  · exact ⟨rfl, rfl⟩
  · exact database.persist_frame io _

theorem autocommit_congr {left right : Database ETag} (host : left.host = right.host)
    (role : left.role = right.role) (io : Io) (table : String) (key : Bytes)
    (value : Option Bytes) :
    (left.autocommit io table key value).1.host = (right.autocommit io table key value).1.host ∧
      (left.autocommit io table key value).2 = (right.autocommit io table key value).2 := by
  simp only [autocommit, recorded]
  by_cases reader : right.role = .reader
  · rw [if_pos reader, if_pos (role.trans reader)]
    exact ⟨host, rfl⟩
  · rw [if_neg reader, if_neg fun same => reader (role.symm.trans same)]
    exact persist_congr host io _

theorem autocommit_reader (database : Database ETag) (reader : database.role = .reader) (io : Io)
    (table : String) (key : Bytes) (value : Option Bytes) :
    (database.autocommit io table key value).1.host = database.host ∧
      (database.autocommit io table key value).2 = .error .readOnlyReplica := by
  simp only [autocommit, recorded, if_pos reader]
  exact ⟨trivial, trivial⟩

theorem autocommit_history (database : Database ETag) (writer : database.role ≠ .reader) {io : Io}
    (append : io.append = none) (table : String) (key : Bytes) (value : Option Bytes) :
    (database.autocommit io table key value).1.host.history = database.host.history ++
      [⟨database.host.engine.write.nextCommitSeq, [⟨table, makeKey table key, value⟩]⟩] := by
  simp only [autocommit, recorded, if_neg writer]
  exact database.persist_history append _

end Database

/-! ## What a write path may leave in the view -/

section Versions

variable {ETag : Type} {allowed : Set (Version Bytes Bytes)}

namespace LsmEngine

theorem beginFlush_versions (engine : LsmEngine ETag)
    (held : engine.view.versions ⊆ allowed) :
    engine.beginFlush.1.view.versions ⊆ allowed ∧
      ∀ pending, engine.beginFlush.2 = .ok (some pending) → pending.entries.versions ⊆ allowed := by
  have memHeld : engine.view.memtable.versions ⊆ allowed :=
    fun version inMem => held (Or.inl (Or.inl inMem))
  have frozen : (⟨MemTable.new memtableMaxSize, some engine.view.memtable,
      engine.view.sstables⟩ : EngineView).versions ⊆ allowed := by
    rintro version ((inMem | ⟨table, same, inFrozen⟩) | inTables)
    · exact absurd inMem (by rw [EngineView.memVersions, MemTable.new_versions]; simp)
    · cases same
      exact memHeld inFrozen
    · exact held (Or.inr inTables)
  unfold beginFlush
  by_cases fenced : (!engine.lease.valid) = true
  · rw [if_pos fenced]
    exact ⟨held, fun pending begun => by cases begun⟩
  · rw [if_neg fenced]
    by_cases nothing : engine.view.memtable.toEntries.entries = []
    · simp only [nothing, if_true]
      exact ⟨frozen, fun pending begun => by cases begun⟩
    · simp only [nothing, if_false]
      refine ⟨frozen, fun pending begun => ?_⟩
      cases begun
      exact memHeld

theorem writeBatch_versions (engine : LsmEngine ETag) (failure : Option Nat)
    (held : engine.view.versions ⊆ allowed)
    (fresh : (⟨engine.write.nextCommitSeq, entries⟩ : Commit).versions ⊆ allowed) :
    (engine.writeBatch failure entries).1.view.versions ⊆ allowed ∧
      ∀ seq pending, (engine.writeBatch failure entries).2 = .ok (seq, some pending) →
        pending.entries.versions ⊆ allowed := by
  have inserted : (⟨insertBatch engine.view.memtable engine.write.nextCommitSeq entries,
      engine.view.immutable, engine.view.sstables⟩ : EngineView).versions ⊆ allowed := by
    rintro version ((inMem | inFrozen) | inTables)
    · rcases mem_insertBatch_sub _ version entries engine.view.memtable inMem with before | new
      · exact held (Or.inl (Or.inl before))
      · exact fresh new
    · exact held (Or.inl (Or.inr inFrozen))
    · exact held (Or.inr inTables)
  cases failure with
  | some written => exact ⟨held, fun seq pending begun => by cases begun⟩
  | none =>
      simp only [writeBatch, Wal.appendBatch, WalIo.append]
      split_ifs with full
      · generalize logged : ({ engine with
            write := { engine.write with
              wal := _, nextCommitSeq := engine.write.nextCommitSeq + 1 }
            view := { engine.view with
              memtable := insertBatch engine.view.memtable engine.write.nextCommitSeq entries } } :
                LsmEngine ETag) = next
        have nextHeld : next.view.versions ⊆ allowed := by
          rw [← logged]
          exact inserted
        obtain ⟨view, begun⟩ := next.beginFlush_versions nextHeld
        cases began : next.beginFlush with
        | mk frozen result =>
            rw [began] at view begun
            cases result with
            | error error => exact ⟨view, fun seq pending exact => by cases exact⟩
            | ok pending =>
                refine ⟨view, fun seq flush exact => begun flush ?_⟩
                cases exact
                rfl
      · exact ⟨inserted, fun seq pending begun => by cases begun⟩

theorem beginCompact_versions (engine : LsmEngine ETag)
    (held : engine.view.versions ⊆ allowed) :
    engine.beginCompact.1.view.versions ⊆ allowed ∧
      ∀ pending, engine.beginCompact.2 = .ok (some pending) →
        tableVersions pending.sstables ⊆ allowed := by
  unfold beginCompact
  split_ifs with few fenced
  · exact ⟨held, fun pending begun => by cases begun⟩
  · exact ⟨held, fun pending begun => by cases begun⟩
  · refine ⟨held, fun pending begun => ?_⟩
    cases begun
    exact fun version inTables => held (Or.inr inTables)

variable [DecidableEq ETag]

theorem commitFlush_versions (engine : LsmEngine ETag) (store : ObjectStore ETag)
    (fault : Option CommitFlushFault) (threshold : Nat) (pending : PendingFlush) {table : SSTable}
    (held : engine.view.versions ⊆ allowed) (built : table.versions ⊆ allowed) :
    (engine.commitFlush store fault threshold pending table).1.view.versions ⊆ allowed ∧
      ∀ compaction, (engine.commitFlush store fault threshold pending table).2.2 =
        .ok (some compaction) → tableVersions compaction.sstables ⊆ allowed := by
  have installed : (⟨engine.view.memtable, none, engine.view.sstables ++ [table]⟩ :
      EngineView).versions ⊆ allowed := by
    rintro version ((inMem | ⟨frozen, gone, _⟩) | ⟨live, member, inLive⟩)
    · exact held (Or.inl (Or.inl inMem))
    · cases gone
    · rcases List.mem_append.mp member with before | new
      · exact held (Or.inr ⟨live, before, inLive⟩)
      · cases List.mem_singleton.mp new
        exact built inLive
  unfold commitFlush
  by_cases readWal : fault = some .readWal
  · rw [if_pos readWal]
    exact ⟨held, fun compaction begun => by cases begun⟩
  rw [if_neg readWal]
  by_cases putSegment : engine.write.wal.readAllBytes ≠ [] ∧ fault = some .putSegment
  · simp only [if_pos putSegment]
    exact ⟨held, fun compaction begun => by cases begun⟩
  simp only [if_neg putSegment]
  by_cases saveManifest : fault = some .saveManifest
  · simp only [if_pos saveManifest]
    exact ⟨held, fun compaction begun => by cases begun⟩
  simp only [if_neg saveManifest]
  split
  · exact ⟨held, fun compaction begun => by cases begun⟩
  split
  · exact ⟨installed, fun compaction begun => by cases begun⟩
  split_ifs with crossed
  · exact beginCompact_versions _ installed
  · exact ⟨installed, fun compaction begun => by cases begun⟩

theorem commitCompact_versions (engine : LsmEngine ETag) (store : ObjectStore ETag)
    (saveFails : Bool) (deleteFails : Nat → Bool) (pending : PendingCompaction) {table : SSTable}
    (held : engine.view.versions ⊆ allowed) (built : table.versions ⊆ allowed) :
    (engine.commitCompact store saveFails deleteFails pending table).1.view.versions ⊆ allowed := by
  unfold commitCompact
  by_cases failed : saveFails = true
  · simp only [if_pos failed]
    exact held
  simp only [if_neg failed]
  split
  · exact held
  rintro version ((inMem | inFrozen) | ⟨live, member, inLive⟩)
  · exact held (Or.inl (Or.inl inMem))
  · exact held (Or.inl (Or.inr inFrozen))
  · rcases List.mem_append.mp member with before | new
    · exact held (Or.inr ⟨live, (List.mem_filter.mp before).1, inLive⟩)
    · cases List.mem_singleton.mp new
      exact built inLive

theorem persist_versions (engine : LsmEngine ETag) (store : ObjectStore ETag) (io : Io)
    (held : engine.view.versions ⊆ allowed)
    (fresh : (⟨engine.write.nextCommitSeq, entries⟩ : Commit).versions ⊆ allowed) :
    (engine.persist store io entries).1.view.versions ⊆ allowed := by
  obtain ⟨view, frozen⟩ := engine.writeBatch_versions io.append held fresh
  unfold persist
  cases wrote : engine.writeBatch io.append entries with
  | mk written result =>
      rw [wrote] at view frozen
      rcases result with error | ⟨seq, _ | pending⟩
      · exact view
      · exact view
      simp only [finishFlush]
      by_cases putFails : io.putFails = true
      · simp only [if_pos putFails]
        exact view
      simp only [if_neg putFails]
      have built : (SSTable.build io.bloom pending.sstableId pending.entries).versions ⊆ allowed :=
        frozen seq pending rfl
      obtain ⟨flushed, captured⟩ := written.commitFlush_versions
        (store.putSst pending.sstableId (SSTable.build io.bloom pending.sstableId pending.entries))
        io.flushFault io.threshold pending view built
      split
      · rename_i engine store error exact
        rw [exact] at flushed
        exact flushed
      · rename_i engine store exact
        rw [exact] at flushed
        exact flushed
      · rename_i engine store compaction exact
        rw [exact] at flushed captured
        have merged := (mergeEntries_sub compaction.watermark compaction.sstables).trans
          (captured compaction rfl)
        simp only [finishCompact]
        by_cases mergedPutFails : io.mergedPutFails = true
        · simp only [if_pos mergedPutFails]
          exact flushed
        · simp only [if_neg mergedPutFails]
          exact engine.commitCompact_versions _ _ _ _ flushed merged

end LsmEngine

end Versions

/-! ## A property of every row -/

namespace Database

variable {ETag : Type} {database : Database ETag} {row : Bytes → Bytes → Prop}

/-- Every row that is stored or staged has the property. -/
structure EveryRow (row : Bytes → Bytes → Prop) (database : Database ETag) : Prop where
  stored : database.host.engine.view.versions ⊆
    {version | ∀ value, version.value = some value → row version.key value}
  staged : ∀ handle ∈ database.handles, ∀ write ∈ handle.txn.staged.toList, ∀ value,
    write.2 = some value → row write.1 value

theorem EveryRow.started (manifestEtag : Manifest → ETag) (leaseEtag : Lease → ETag)
    (token : Nat) : (start manifestEtag leaseEtag token).EveryRow row := by
  refine ⟨?_, fun handle member => absurd member List.not_mem_nil⟩
  have live := Host.Live.started manifestEtag leaseEtag token
  intro version member
  have recorded := live.subset member
  exact absurd recorded (by simp [Host.commits, Host.start, committed])

theorem EveryRow.read (every : database.EveryRow row) {session : Option Nat} {table : String}
    (found : txnRead database.host.engine.view (session.bind database.txnAt)
      table key = some value) : row (makeKey table key) value := by
  have committed : ∀ seq, database.host.engine.view.readAt (makeKey table key) seq = some value →
      row (makeKey table key) value := by
    intro seq read
    obtain ⟨version, member, sameKey, sameValue⟩ := EngineView.mem_of_readAt read
    rw [← sameKey]
    exact every.stored member value sameValue
  cases opened : session.bind database.txnAt with
  | none =>
      rw [opened] at found
      exact committed _ found
  | some txn =>
      rw [opened] at found
      simp only [txnRead, Option.bind_some, Txn.stagedRead] at found
      cases staged : txn.staged.get? (makeKey table key) with
      | none =>
          rw [staged] at found
          exact committed _ found
      | some held =>
          rw [staged] at found
          obtain ⟨index, _, held⟩ := Option.bind_eq_some_iff.mp opened
          obtain ⟨handle, there, rfl⟩ := Option.map_eq_some_iff.mp held
          exact every.staged handle (List.mem_of_getElem? there) _
            ((OrdMap.get?_eq_some _ _ _).mp staged) value found

theorem EveryRow.restage (every : database.EveryRow row) (index : Nat) (update : Txn → Txn)
    (fresh : ∀ txn, ∀ write ∈ (update txn).staged.toList, write ∈ txn.staged.toList ∨
      ∀ value, write.2 = some value → row write.1 value) :
    (database.restage index update).EveryRow row := by
  refine ⟨every.stored, fun handle member write held value exact => ?_⟩
  rcases mem_modify_txn member with before | ⟨before, found, rfl⟩
  · exact every.staged handle before write held value exact
  · rcases fresh before.txn write held with earlier | new
    · exact every.staged before (List.mem_of_getElem? found) write earlier value exact
    · exact new value exact

theorem EveryRow.finish (every : database.EveryRow row) (index : Nat) :
    (database.finish index).EveryRow row := by
  have closing : (database.restage index closed).EveryRow row :=
    every.restage index closed fun txn write member => absurd member List.not_mem_nil
  rcases database.finish_cases index with ⟨_, same⟩ | ⟨handle, _, ⟨_, same⟩ | ⟨_, same⟩⟩
  · rw [same]
    exact every
  · rw [same]
    exact closing
  · rw [same]
    refine ⟨?_, closing.staged⟩
    rw [releaseSnapshot_view]
    exact every.stored

theorem EveryRow.beginTxn (every : database.EveryRow row) : database.beginTxn.EveryRow row := by
  refine ⟨every.stored, fun handle member write held value exact => ?_⟩
  rcases List.mem_append.mp member with before | new
  · exact every.staged handle before write held value exact
  · rw [List.mem_singleton.mp new] at held
    exact absurd held List.not_mem_nil

variable [DecidableEq ETag]

theorem EveryRow.persist (every : database.EveryRow row) (io : Io)
    (fresh : ∀ entry ∈ entries, ∀ value, entry.value = some value → row entry.key value) :
    (database.persist io entries).1.EveryRow row := by
  obtain ⟨next, _⟩ := database.persist_spec io entries rfl
  rw [next]
  refine ⟨database.host.engine.persist_versions _ io every.stored ?_, every.staged⟩
  rintro version ⟨entry, member, rfl⟩ value exact
  exact fresh entry member value exact

theorem EveryRow.autocommit (every : database.EveryRow row) (io : Io) (table : String)
    (key : Bytes) {value : Option Bytes}
    (fresh : ∀ held, value = some held → row (makeKey table key) held) :
    (database.autocommit io table key value).1.EveryRow row := by
  have written : (database.persist io [⟨table, makeKey table key, value⟩]).1.EveryRow row := by
    apply every.persist
    intro entry member held exact
    cases List.mem_singleton.mp member
    exact fresh held exact
  simp only [Database.autocommit, recorded]
  split_ifs
  · exact ⟨every.stored, every.staged⟩
  · exact ⟨written.stored, written.staged⟩

theorem EveryRow.txnWrite (every : database.EveryRow row) (session : Option Nat) (io : Io)
    {table : String} (fresh : row (makeKey table key) value) :
    (database.txnWrite session io table key value).1.EveryRow row := by
  cases session with
  | none =>
      apply every.autocommit
      intro held exact
      cases exact
      exact fresh
  | some index =>
      refine every.restage index (fun txn => txn.stageWrite (makeKey table key) value)
        fun txn write member => ?_
      rcases stageWrite_cases txn (makeKey table key) value with same | same
      · rw [same] at member
        exact Or.inl member
      · rw [same] at member
        rcases (OrdMap.mem_insert _ _ _ _).mp member with rfl | ⟨before, _⟩
        · refine Or.inr fun held exact => ?_
          cases exact
          exact fresh
        · exact Or.inl before

theorem EveryRow.txnDelete (every : database.EveryRow row) (session : Option Nat) (io : Io)
    (table : String) (key : Bytes) :
    (database.txnDelete session io table key).1.EveryRow row := by
  cases session with
  | none => exact every.autocommit io table key fun held exact => by cases exact
  | some index =>
      refine every.restage index (fun txn => txn.stageDelete (makeKey table key))
        fun txn write member => ?_
      rcases stageDelete_cases txn (makeKey table key) with same | same
      · rw [same] at member
        exact Or.inl member
      · rw [same] at member
        rcases (OrdMap.mem_insert _ _ _ _).mp member with rfl | ⟨before, _⟩
        · exact Or.inr fun held exact => by cases exact
        · exact Or.inl before

theorem EveryRow.commitTxn (every : database.EveryRow row) (index : Nat) (io : Io) :
    (database.commitTxn index io).1.EveryRow row := by
  unfold Database.commitTxn
  cases found : database.handles[index]? with
  | none => exact every
  | some handle =>
      have finished := every.finish index
      have written : ((database.finish index).persist io
          (commitEntries handle.txn.staged)).1.EveryRow row := by
        apply finished.persist
        intro entry member value exact
        rw [commitEntries_eq] at member
        obtain ⟨write, staged, made⟩ := List.mem_filterMap.mp member
        obtain ⟨sameKey, sameValue⟩ := commitEntry_key made
        rw [sameKey]
        exact every.staged handle (List.mem_of_getElem? found) write staged value
          (sameValue.symm.trans exact)
      simp only [recorded]
      split_ifs
      · exact ⟨finished.stored, finished.staged⟩
      · exact ⟨finished.stored, finished.staged⟩
      · exact ⟨written.stored, written.staged⟩

end Database

end Pantheon.Keystone
