import Mathlib
import Pantheon.Lib.Bytes
import Pantheon.Lib.Versions

/-!
# Internal keys of `storage/internal_key.rs`

A user key tagged with the commit sequence of the write and a put/delete tag.
The order is by user key, then newest sequence first, then tag; the key bytes
are compared in isolation, so one user key may be a prefix of another.

The memtable and the tables are both lists of entries in this order, and both
look a key up by seeking the first entry at or after `seek key snapshot`.
`lookEntries` is that lookup, once.
-/

set_option autoImplicit false

namespace Pantheon.Keystone

open Pantheon.Lib

def putTag : UInt8 := 0
def deleteTag : UInt8 := 2

structure InternalKey where
  userKey : Bytes
  seq : Nat
  tag : UInt8
deriving DecidableEq

namespace InternalKey

def rank (key : InternalKey) : Bytes ×ₗ (Natᵒᵈ ×ₗ UInt8) :=
  toLex (key.userKey, toLex (OrderDual.toDual key.seq, key.tag))

theorem rank_injective : Function.Injective rank := by
  rintro ⟨leftKey, leftSeq, leftTag⟩ ⟨rightKey, rightSeq, rightTag⟩ same
  simpa [rank] using same

instance : LinearOrder InternalKey := LinearOrder.lift' rank rank_injective

theorem lt_iff (left right : InternalKey) :
    left < right ↔ left.userKey < right.userKey ∨ left.userKey = right.userKey ∧
      (right.seq < left.seq ∨ left.seq = right.seq ∧ left.tag < right.tag) := by
  change left.rank < right.rank ↔ _
  simp [rank, Prod.Lex.toLex_lt_toLex]

theorem le_iff (left right : InternalKey) :
    left ≤ right ↔ left.userKey < right.userKey ∨ left.userKey = right.userKey ∧
      (right.seq < left.seq ∨ left.seq = right.seq ∧ left.tag ≤ right.tag) := by
  change left.rank ≤ right.rank ↔ _
  simp [rank, Prod.Lex.toLex_le_toLex]

def seek (userKey : Bytes) (snapshotSeq : Nat) : InternalKey :=
  ⟨userKey, snapshotSeq, putTag⟩

def isDelete (key : InternalKey) : Bool := key.tag == deleteTag

/-- The stored keys at or after a seek key: later user keys, and the versions
of this one that the snapshot can see. -/
theorem seek_le (userKey : Bytes) (snapshotSeq : Nat) (key : InternalKey) :
    seek userKey snapshotSeq ≤ key ↔
      userKey < key.userKey ∨ userKey = key.userKey ∧ key.seq ≤ snapshotSeq := by
  have tagLeast : putTag ≤ key.tag := by simp [putTag, UInt8.le_iff_toNat_le]
  simp only [le_iff, seek, tagLeast, and_true]
  constructor
  · rintro (less | ⟨same, less | exact⟩)
    · exact Or.inl less
    · exact Or.inr ⟨same, le_of_lt less⟩
    · exact Or.inr ⟨same, le_of_eq exact.symm⟩
  · rintro (less | ⟨same, visible⟩)
    · exact Or.inl less
    · exact Or.inr ⟨same, (lt_or_eq_of_le visible).imp id Eq.symm⟩

end InternalKey

abbrev Entry := InternalKey × Bytes

/-- What a reader may see of an entry: the tag decides whether it is a
deletion, whatever bytes stand beside it. -/
def Entry.value (entry : Entry) : Option Bytes :=
  if entry.1.isDelete then none else some entry.2

def Entry.version (entry : Entry) : Version Bytes Bytes :=
  ⟨entry.1.userKey, entry.1.seq, entry.value⟩

@[simp] theorem Entry.version_key (entry : Entry) : entry.version.key = entry.1.userKey := rfl
@[simp] theorem Entry.version_seq (entry : Entry) : entry.version.seq = entry.1.seq := rfl
@[simp] theorem Entry.version_value (entry : Entry) : entry.version.value = entry.value := rfl

def versionsOf (entries : List Entry) : Set (Version Bytes Bytes) :=
  {version | ∃ entry ∈ entries, entry.version = version}

@[simp] theorem versionsOf_nil : versionsOf [] = ∅ := by
  ext version
  simp [versionsOf]

/-- Entries in the order the table format requires.  Equal internal keys may
stand next to each other. -/
structure SortedRun where
  entries : List Entry
  sorted : entries.Pairwise fun left right => left.1 ≤ right.1

def SortedRun.versions (run : SortedRun) : Set (Version Bytes Bytes) := versionsOf run.entries

/-- One row of a version scan, `none` for a deletion. -/
structure VersionRow where
  key : Bytes
  seq : Nat
  tag : UInt8
  value : Option Bytes
deriving DecidableEq

def Entry.row (entry : Entry) : VersionRow :=
  ⟨entry.1.userKey, entry.1.seq, entry.1.tag, entry.value⟩

/-- The lookup shared by memtable and tables: the first entry at or after the
seek key, if it belongs to this user key. -/
def lookEntries (entries : List Entry) (key : Bytes) (snapshotSeq : Nat) :
    Option (Option Bytes) :=
  match entries.find? fun entry => decide (InternalKey.seek key snapshotSeq ≤ entry.1) with
  | none => none
  | some entry =>
      if entry.1.userKey ≠ key then none
      else if entry.1.isDelete then some none
      else some (some entry.2)

/-- On sorted entries the first entry at or after the seek key is the newest
visible version, or belongs to a later user key when there is none. -/
theorem lookEntries_resolves (entries : List Entry)
    (sorted : entries.Pairwise fun left right => left.1 ≤ right.1) :
    Resolves (versionsOf entries) (lookEntries entries) := by
  -- everything in front of the hit is before the seek key, everything behind is after the hit
  have firstLe : ∀ key snapshotSeq entry,
      entries.find? (fun entry => decide (InternalKey.seek key snapshotSeq ≤ entry.1)) =
        some entry → ∀ other ∈ entries, InternalKey.seek key snapshotSeq ≤ other.1 →
          entry.1 ≤ other.1 := by
    intro key snapshotSeq entry found other member above
    obtain ⟨_, before, after, split, skipped⟩ := List.find?_eq_some_iff_append.mp found
    rw [split] at member sorted
    rcases List.mem_append.mp member with member | member
    · exact absurd above (by simpa using skipped other member)
    · rcases List.mem_cons.mp member with rfl | member
      · exact le_rfl
      · exact (List.pairwise_cons.mp (List.pairwise_append.mp sorted).2.1).1 other member
  constructor
  · intro key snapshotSeq result found
    unfold lookEntries at found
    split at found
    · exact absurd found (by simp)
    · rename_i entry hit
      have reached : InternalKey.seek key snapshotSeq ≤ entry.1 := by
        simpa using List.find?_some hit
      have newestOf : entry.1.userKey = key →
          Newest (versionsOf entries) key snapshotSeq entry.version := by
        intro sameKey
        refine ⟨⟨entry, List.mem_of_find?_eq_some hit, rfl⟩, sameKey, ?_, ?_⟩
        · rcases (InternalKey.seek_le key snapshotSeq entry.1).mp reached with less | ⟨_, visible⟩
          · exact absurd less (sameKey ▸ lt_irrefl _)
          · exact visible
        · rintro _ ⟨other, member, rfl⟩ otherSame otherVisible
          have above := firstLe key snapshotSeq entry hit other member
            ((InternalKey.seek_le _ _ _).mpr (Or.inr ⟨otherSame.symm, otherVisible⟩))
          rcases (InternalKey.le_iff _ _).mp above with less | ⟨_, less | ⟨same, _⟩⟩
          · exact absurd less (by rw [sameKey, ← otherSame]; exact lt_irrefl _)
          · exact le_of_lt less
          · exact le_of_eq same.symm
      split_ifs at found with otherKey deleted
      · exact ⟨entry.version, newestOf (not_not.mp otherKey),
          by rw [← Option.some.inj found]; simp [Entry.value, deleted]⟩
      · exact ⟨entry.version, newestOf (not_not.mp otherKey),
          by rw [← Option.some.inj found]; simp [Entry.value, deleted]⟩
  · intro key snapshotSeq missed
    rintro _ ⟨other, member, rfl⟩ otherSame
    by_contra hidden
    have above : InternalKey.seek key snapshotSeq ≤ other.1 :=
      (InternalKey.seek_le _ _ _).mpr (Or.inr ⟨otherSame.symm, le_of_not_gt hidden⟩)
    unfold lookEntries at missed
    split at missed
    · rename_i none
      exact absurd above (by simpa using List.find?_eq_none.mp none other member)
    · rename_i entry hit
      split_ifs at missed with otherKey
      -- a hit on another user key lies after every version of this one
      have reached : InternalKey.seek key snapshotSeq ≤ entry.1 := by
        simpa using List.find?_some hit
      have later : key < entry.1.userKey := by
        rcases (InternalKey.seek_le _ _ _).mp reached with less | ⟨same, _⟩
        · exact less
        · exact absurd same.symm otherKey
      have before := firstLe key snapshotSeq entry hit other member above
      rcases (InternalKey.le_iff _ _).mp before with less | ⟨same, _⟩
      · exact absurd (less.trans_eq otherSame) (lt_asymm later)
      · exact otherKey (same.trans otherSame)

end Pantheon.Keystone
