import Mathlib
import Pantheon.Keystone.CommitSequence

/-!
# What a log and a store record

The versions that an open finds when every listed table loads, and what inserting
other keys leaves of one key.
-/

set_option autoImplicit false

namespace Pantheon.Keystone

open Pantheon.Lib

/-! ## What is recorded -/

def loggedVersions (file : Bytes) : Set (Version Bytes Bytes) :=
  (LsmEngine.replayInto (MemTable.new memtableMaxSize) (replayFrom file 0).1).versions

theorem loggedVersions_nil : loggedVersions [] = ∅ := by
  rw [loggedVersions, replayFrom_nil]
  exact MemTable.new_versions _

theorem mem_replayInto_seq (version : Version Bytes Bytes) :
    ∀ (records : List WalRecord) (memtable : MemTable),
      version ∈ (LsmEngine.replayInto memtable records).versions →
      version ∈ memtable.versions ∨ ∃ record ∈ records, version.seq = record.seq := by
  intro records
  induction records with
  | nil => intro memtable member; exact Or.inl member
  | cons record records ih =>
      intro memtable member
      rcases ih _ member with ⟨entry, entryMember, rfl⟩ | ⟨later, laterMember, sameSeq⟩
      · rcases (MemTable.mem_insert _ _ _ _ _ _).mp entryMember with rfl | ⟨entryMember, _⟩
        · exact Or.inr ⟨record, List.mem_cons_self, rfl⟩
        · exact Or.inl ⟨entry, entryMember, rfl⟩
      · exact Or.inr ⟨later, List.mem_cons_of_mem _ laterMember, sameSeq⟩

theorem loggedVersions_bounded (file : Bytes) :
    ∀ version ∈ loggedVersions file, version.seq ≤ (replayFrom file 0).2 := by
  intro version member
  rcases mem_replayInto_seq version _ _ member with member | ⟨record, recordMember, sameSeq⟩
  · rw [MemTable.new_versions] at member
    exact absurd member (Set.notMem_empty _)
  · rw [sameSeq]
    exact replayLoop_bounded _ _ _ record recordMember

section Recorded

variable {ETag : Type}

def ObjectStore.listedIds (store : ObjectStore ETag) : List Nat :=
  (store.manifest.getD Manifest.default).sstableIds

/-- The tables an open loads when none fails. -/
def ObjectStore.listedTables (store : ObjectStore ETag) : List SSTable :=
  store.listedIds.filterMap store.openSst

theorem ObjectStore.listedTables_ids_sublist (store : ObjectStore ETag) :
    (store.listedTables.map SSTable.id).Sublist store.listedIds := by
  have loaded := store.loaded_ids_sublist (fun _ => false) store.listedIds
  simp only [Bool.false_eq_true, if_false] at loaded
  exact loaded

theorem ObjectStore.listedTables_congr {store other : ObjectStore ETag}
    (sameManifest : other.manifest = store.manifest)
    (objects : ∀ id ∈ store.listedIds, other.sst id = store.sst id) :
    other.listedTables = store.listedTables := by
  have sameListed : other.listedIds = store.listedIds := by
    rw [ObjectStore.listedIds, sameManifest]; rfl
  rw [ObjectStore.listedTables, sameListed]
  refine List.filterMap_congr fun id member => ?_
  rw [ObjectStore.openSst, ObjectStore.openSst, objects id member]

theorem tableVersions_eq_listed (tables : List SSTable) : tableVersions tables =
    {version | version ∈ tables.flatMap fun table => table.run.entries.map Entry.version} := by
  ext version
  simp only [tableVersions, Set.mem_ofPred_eq, List.mem_flatMap, List.mem_map]
  exact Iff.rfl

def recordedVersions (file : Bytes) (store : ObjectStore ETag) : Set (Version Bytes Bytes) :=
  loggedVersions file ∪ tableVersions store.listedTables

def ObjectStore.Intact (store : ObjectStore ETag) : Prop :=
  ∀ id ∈ store.listedIds, ∃ table, store.sst id = some table ∧ table.id = id

/-- A store and a log that an open reads in order: whole batches, distinct
intact tables whose keys age by id, a log in front of the tables. -/
structure Recorded (file : Bytes) (store : ObjectStore ETag) : Prop where
  whole : Unbroken file
  nodup : store.listedIds.Nodup
  intact : store.Intact
  det : Deterministic (recordedVersions file store)
  aged : ∀ lower ∈ store.listedTables, ∀ upper ∈ store.listedTables, lower.id < upper.id →
    KeyOlder lower.versions upper.versions
  logShadows : Shadows (loggedVersions file) (tableVersions store.listedTables)
  bounded : ∀ version ∈ tableVersions store.listedTables,
    version.seq ≤ (store.manifest.getD Manifest.default).maxCommitSeq

theorem mem_listedTables {store : ObjectStore ETag} (intact : store.Intact) (table : SSTable) :
    table ∈ store.listedTables ↔ table.id ∈ store.listedIds ∧ store.sst table.id = some table := by
  constructor
  · intro member
    obtain ⟨id, listed, opened⟩ := List.mem_filterMap.mp member
    obtain ⟨stored, found, idExact⟩ := intact id listed
    have tableExact : table = stored := by
      rw [ObjectStore.openSst, found, Option.map_some] at opened
      rw [← Option.some.inj opened, ← idExact]
    rw [tableExact, idExact]
    exact ⟨listed, found⟩
  · rintro ⟨listed, found⟩
    exact List.mem_filterMap.mpr ⟨table.id, listed, by rw [ObjectStore.openSst, found]; rfl⟩

end Recorded

/-! ## Keys that are not written -/

theorem slice_insert (table : MemTable) {userKey key : Bytes} (differs : userKey ≠ key) (seq : Nat)
    (value : Bytes) (tag : UInt8) :
    slice (table.insert userKey seq value tag).versions key = slice table.versions key := by
  ext version
  constructor
  · rintro ⟨⟨entry, member, rfl⟩, sameKey⟩
    rcases (MemTable.mem_insert _ _ _ _ _ _).mp member with rfl | ⟨member, _⟩
    · exact absurd sameKey differs
    · exact ⟨⟨entry, member, rfl⟩, sameKey⟩
  · rintro ⟨⟨entry, member, rfl⟩, sameKey⟩
    refine ⟨⟨entry, (MemTable.mem_insert _ _ _ _ _ _).mpr (Or.inr ⟨member, ?_⟩), rfl⟩, sameKey⟩
    intro same
    rw [Entry.version_key, same] at sameKey
    exact differs sameKey

theorem slice_insertBatch (key : Bytes) (seq : Nat) : ∀ (entries : List BatchEntry)
    (table : MemTable), (∀ entry ∈ entries, entry.key ≠ key) →
    slice (LsmEngine.insertBatch table seq entries).versions key = slice table.versions key := by
  intro entries
  induction entries with
  | nil => intro table _; rfl
  | cons entry entries ih =>
      intro table apart
      have rest := ih (table.insert entry.key seq (entry.value.getD []) entry.tag)
        fun other member => apart other (List.mem_cons_of_mem _ member)
      exact rest.trans (slice_insert table (apart entry List.mem_cons_self) _ _ _)

theorem slice_replayInto (key : Bytes) : ∀ (log : List Commit) (table : MemTable),
    (∀ commit ∈ log, ∀ entry ∈ commit.entries, entry.key ≠ key) →
    slice (LsmEngine.replayInto table ((log.map Commit.walBatch).flatMap WalBatch.records)).versions
      key = slice table.versions key := by
  intro log
  induction log with
  | nil => intro table _; rfl
  | cons commit log ih =>
      intro table apart
      rw [List.map_cons, List.flatMap_cons, replayInto_append, replayInto_walBatch,
        ih _ fun other member => apart other (List.mem_cons_of_mem _ member)]
      exact slice_insertBatch key commit.seq commit.entries table
        (apart commit List.mem_cons_self)

end Pantheon.Keystone
