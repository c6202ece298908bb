import Mathlib
import Pantheon.Lib.OrdMap
import Pantheon.Keystone.InternalKey

/-!
# The memtable of `storage/lsm.rs`

The skip map is an ordered map from internal keys to value bytes.  An insert
never replaces another version: each batch has its own sequence number.
-/

set_option autoImplicit false

namespace Pantheon.Keystone

open Pantheon.Lib

def memtableMaxSize : Nat := 4 * 1024 * 1024

structure MemTable where
  data : OrdMap InternalKey Bytes
  sizeBytes : Nat
  maxSize : Nat

namespace MemTable

def new (maxSize : Nat) : MemTable := ⟨OrdMap.empty, 0, maxSize⟩

def insert (table : MemTable) (userKey : Bytes) (seq : Nat) (value : Bytes) (tag : UInt8) :
    MemTable :=
  { table with
    data := table.data.insert ⟨userKey, seq, tag⟩ value
    sizeBytes := table.sizeBytes + (userKey.length + value.length + 8 + 1) }

/-- `none`: nothing here, fall through.  `some none`: a visible deletion. -/
def getAt (table : MemTable) (key : Bytes) (snapshotSeq : Nat) : Option (Option Bytes) :=
  match table.data.seek (InternalKey.seek key snapshotSeq) with
  | none => none
  | some entry =>
      if entry.1.userKey ≠ key then none
      else if entry.1.isDelete then some none
      else some (some entry.2)

def isFull (table : MemTable) : Bool := decide (table.maxSize ≤ table.sizeBytes)

def toEntries (table : MemTable) : SortedRun :=
  ⟨table.data.toList, table.data.sorted.imp fun less => le_of_lt less⟩

def iterVersions (table : MemTable) : List VersionRow := table.data.toList.map Entry.row

def versions (table : MemTable) : Set (Version Bytes Bytes) := table.toEntries.versions

@[simp] theorem new_toEntries (maxSize : Nat) : (new maxSize).toEntries.entries = [] := rfl

@[simp] theorem new_versions (maxSize : Nat) : (new maxSize).versions = ∅ := versionsOf_nil

theorem getAt_resolves (table : MemTable) : Resolves table.versions table.getAt :=
  lookEntries_resolves table.toEntries.entries table.toEntries.sorted

theorem mem_insert (table : MemTable) (userKey : Bytes) (seq : Nat) (value : Bytes) (tag : UInt8)
    (entry : Entry) : entry ∈ (table.insert userKey seq value tag).toEntries.entries ↔
      entry = (⟨userKey, seq, tag⟩, value) ∨
        entry ∈ table.toEntries.entries ∧ entry.1 ≠ ⟨userKey, seq, tag⟩ :=
  table.data.mem_insert ⟨userKey, seq, tag⟩ value entry

theorem versions_insert (table : MemTable) (userKey : Bytes) (seq : Nat) (value : Bytes)
    (tag : UInt8) (fresh : ∀ entry ∈ table.toEntries.entries, entry.1 ≠ ⟨userKey, seq, tag⟩) :
    (table.insert userKey seq value tag).versions =
      table.versions ∪ {Entry.version (⟨userKey, seq, tag⟩, value)} := by
  ext version
  constructor
  · rintro ⟨entry, member, rfl⟩
    rcases (mem_insert table userKey seq value tag entry).mp member with rfl | ⟨member, _⟩
    · exact Or.inr rfl
    · exact Or.inl ⟨entry, member, rfl⟩
  · rintro (⟨entry, member, rfl⟩ | rfl)
    · exact ⟨entry, (mem_insert table userKey seq value tag entry).mpr
        (Or.inr ⟨member, fresh entry member⟩), rfl⟩
    · exact ⟨_, (mem_insert table userKey seq value tag _).mpr (Or.inl rfl), rfl⟩

end MemTable

end Pantheon.Keystone
