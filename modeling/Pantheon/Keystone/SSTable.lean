import Mathlib
import Pantheon.Keystone.InternalKey

/-!
# Sorted tables of `storage/sstable.rs`

A decoded table: its id, its index with the value each index entry points to,
and its bloom filter.  The filter comes from a crate, so a table may carry any
filter that accepts every key set in it; `bloomSet` is that property.
-/

set_option autoImplicit false

namespace Pantheon.Keystone

open Pantheon.Lib

/-- A bloom filter construction: whatever hash keys it drew, a key that was
set checks positive. -/
structure Bloom where
  ofKeys : List Bytes → Bytes → Bool
  set_check : ∀ keys key, key ∈ keys → ofKeys keys key = true

def Bloom.accepting : Bloom := ⟨fun _ _ => true, fun _ _ _ => rfl⟩

structure SSTable where
  id : Nat
  run : SortedRun
  bloom : Bytes → Bool
  bloomSet : ∀ entry ∈ run.entries, bloom entry.1.userKey = true

/-- The number of leading elements satisfying `before`: the partition point of
a slice that is partitioned by it. -/
def partitionPoint {α : Type} (before : α → Bool) (slice : List α) : Nat :=
  (slice.takeWhile before).length

theorem getElem?_partitionPoint {α : Type} (before : α → Bool) (slice : List α) :
    slice[partitionPoint before slice]? = slice.find? fun element => !before element := by
  induction slice with
  | nil => rfl
  | cons head rest ih =>
      cases step : before head with
      | true => simpa [partitionPoint, step] using ih
      | false => simp [partitionPoint, step]

namespace SSTable

def build (bloom : Bloom) (id : Nat) (run : SortedRun) : SSTable where
  id := id
  run := run
  bloom := bloom.ofKeys (run.entries.map fun entry => entry.1.userKey)
  bloomSet := by
    intro entry member
    exact bloom.set_check _ _ (List.mem_map.mpr ⟨entry, member, rfl⟩)

/-- Strictly before the seek point: an earlier key, or a version of this key
that is too new for the snapshot. -/
def beforeSeek (key : Bytes) (snapshotSeq : Nat) (entry : Entry) : Bool :=
  if entry.1.userKey < key then true
  else if entry.1.userKey = key then decide (snapshotSeq < entry.1.seq)
  else false

def readAt (table : SSTable) (key : Bytes) (snapshotSeq : Nat) : Option (Option Bytes) :=
  if !table.bloom key then none
  else
    match table.run.entries[partitionPoint (beforeSeek key snapshotSeq) table.run.entries]? with
    | none => none
    | some entry =>
        if entry.1.userKey ≠ key then none
        else if entry.1.isDelete then some none
        else some (some entry.2)

def maxSeq (table : SSTable) : Nat :=
  table.run.entries.foldl (fun highest entry => max highest entry.1.seq) 0

def scanAllVersions (table : SSTable) : List VersionRow := table.run.entries.map Entry.row

def versions (table : SSTable) : Set (Version Bytes Bytes) := table.run.versions

theorem beforeSeek_eq (key : Bytes) (snapshotSeq : Nat) (entry : Entry) :
    (!beforeSeek key snapshotSeq entry) = decide (InternalKey.seek key snapshotSeq ≤ entry.1) := by
  have reach := InternalKey.seek_le key snapshotSeq entry.1
  unfold beforeSeek
  split_ifs with less same
  · have notReached : ¬ InternalKey.seek key snapshotSeq ≤ entry.1 := by
      rw [reach]
      rintro (greater | ⟨same, _⟩)
      · exact lt_asymm less greater
      · exact ne_of_lt less same.symm
    simp [notReached]
  · have iff : InternalKey.seek key snapshotSeq ≤ entry.1 ↔ entry.1.seq ≤ snapshotSeq := by
      rw [reach, same]
      simp
    simp only [iff, ← decide_not, not_lt]
  · have reached : InternalKey.seek key snapshotSeq ≤ entry.1 :=
      reach.mpr (Or.inl (lt_of_le_of_ne (le_of_not_gt less) (Ne.symm same)))
    simp [reached]

theorem readAt_eq (table : SSTable) (key : Bytes) (snapshotSeq : Nat) :
    table.readAt key snapshotSeq = lookEntries table.run.entries key snapshotSeq := by
  unfold readAt lookEntries
  simp only [getElem?_partitionPoint, beforeSeek_eq]
  split_ifs with rejected
  · split
    · rfl
    · rename_i entry hit
      have accepted := table.bloomSet entry (List.mem_of_find?_eq_some hit)
      have otherKey : entry.1.userKey ≠ key := by
        intro same
        rw [same] at accepted
        simp [accepted] at rejected
      simp [otherKey]
  · rfl

theorem readAt_resolves (table : SSTable) : Resolves table.versions table.readAt := by
  have same : table.readAt = lookEntries table.run.entries := by
    funext key snapshotSeq
    exact table.readAt_eq key snapshotSeq
  rw [same]
  exact lookEntries_resolves table.run.entries table.run.sorted

theorem foldl_max_ge (entries : List Entry) : ∀ start,
    start ≤ entries.foldl (fun highest entry => max highest entry.1.seq) start ∧
      ∀ entry ∈ entries,
        entry.1.seq ≤ entries.foldl (fun highest entry => max highest entry.1.seq) start := by
  induction entries with
  | nil => intro start; simp
  | cons head rest ih =>
      intro start
      obtain ⟨startLe, restLe⟩ := ih (max start head.1.seq)
      refine ⟨(le_max_left _ _).trans startLe, ?_⟩
      intro entry member
      rcases List.mem_cons.mp member with rfl | member
      · exact (le_max_right _ _).trans startLe
      · exact restLe entry member

theorem le_maxSeq (table : SSTable) (version : Version Bytes Bytes)
    (member : version ∈ table.versions) : version.seq ≤ table.maxSeq := by
  obtain ⟨entry, entryMember, rfl⟩ := member
  exact (foldl_max_ge table.run.entries 0).2 entry entryMember

end SSTable

end Pantheon.Keystone
