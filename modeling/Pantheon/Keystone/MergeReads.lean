import Mathlib
import Pantheon.Keystone.Compaction
import Pantheon.Keystone.Scan

/-!
# What reads see of a merge

A lookup in sorted entries is the first of the key's rows that the snapshot
sees.  Tables in source order laid out newest first are one such list of rows
per key, the list that `finish_compact` sorts and cuts.  The cut lies behind
the first version below the watermark, which every snapshot from the watermark
on stops at.
-/

set_option autoImplicit false

namespace Pantheon.Keystone

open Pantheon.Lib

variable {key : Bytes} {tables : List SSTable}

/-! ## One key's entries -/

def keyEntries (key : Bytes) (entries : List Entry) : List Entry :=
  entries.filter fun entry => decide (entry.1.userKey = key)

theorem keyEntries_eq_nil {entries : List Entry}
    (above : ∀ entry ∈ entries, key < entry.1.userKey) : keyEntries key entries = [] := by
  refine List.filter_eq_nil_iff.mpr fun entry member => ?_
  simpa using ne_of_gt (above entry member)

theorem lookEntries_eq_find (key : Bytes) (snapshotSeq : Nat) : ∀ entries : List Entry,
    entries.Pairwise (fun left right => left.1 ≤ right.1) →
    lookEntries entries key snapshotSeq =
      ((keyEntries key entries).find? fun entry => decide (entry.1.seq ≤ snapshotSeq)).map
        Entry.value := by
  intro entries
  induction entries with
  | nil => intro _; rfl
  | cons head rest ih =>
      intro sorted
      obtain ⟨headLe, restSorted⟩ := List.pairwise_cons.mp sorted
      have reach := InternalKey.seek_le key snapshotSeq head.1
      rcases lt_trichotomy head.1.userKey key with below | same | above
      · have before : ¬ InternalKey.seek key snapshotSeq ≤ head.1 := by
          rw [reach]
          rintro (less | ⟨equal, _⟩)
          · exact lt_asymm less below
          · exact ne_of_lt below equal.symm
        rw [lookEntries_cons_before before, ih restSorted, keyEntries, keyEntries,
          List.filter_cons_of_neg (by simpa using ne_of_lt below)]
      · have kept : keyEntries key (head :: rest) = head :: keyEntries key rest :=
          List.filter_cons_of_pos (by simpa using same)
        rw [kept]
        by_cases visible : head.1.seq ≤ snapshotSeq
        · rw [lookEntries_cons_reached (reach.mpr (Or.inr ⟨same.symm, visible⟩)), if_pos same,
            List.find?_cons_of_pos (by simpa using visible), Option.map_some]
        · have before : ¬ InternalKey.seek key snapshotSeq ≤ head.1 := by
            rw [reach]
            rintro (less | ⟨_, shows⟩)
            · exact ne_of_lt less same.symm
            · exact visible shows
          rw [lookEntries_cons_before before, ih restSorted,
            List.find?_cons_of_neg (by simpa using visible)]
      · -- every key from here on is a later one
        have later : ∀ entry ∈ head :: rest, key < entry.1.userKey := by
          intro entry member
          rcases List.mem_cons.mp member with rfl | member
          · exact above
          · rcases (InternalKey.le_iff _ _).mp (headLe entry member) with less | ⟨equal, _⟩
            · exact above.trans less
            · exact equal ▸ above
        rw [lookEntries_cons_reached (reach.mpr (Or.inl above)), if_neg (ne_of_gt above),
          keyEntries_eq_nil later]
        rfl

theorem SSTable.readAt_eq_find (table : SSTable) (key : Bytes) (snapshotSeq : Nat) :
    table.readAt key snapshotSeq =
      ((keyEntries key table.run.entries).find? fun entry =>
        decide (entry.1.seq ≤ snapshotSeq)).map Entry.value := by
  rw [table.readAt_eq, lookEntries_eq_find key snapshotSeq table.run.entries table.run.sorted]

/-! ## Sorting the rows of one key -/

section StableSort

variable {Row : Type} (before : Row → Row → Prop) [DecidableRel before]

theorem orderedInsert_append (row : Row) : ∀ front back : List Row,
    (∀ other ∈ front, ¬ before row other) →
    (front ++ back).orderedInsert before row = front ++ back.orderedInsert before row := by
  intro front
  induction front with
  | nil => intro back _; rfl
  | cons head rest ih =>
      intro back after
      rw [List.cons_append, List.orderedInsert_of_not_le before _ (after head List.mem_cons_self),
        ih back fun other member => after other (List.mem_cons_of_mem _ member)]
      rfl

theorem insertionSort_append_swap : ∀ front back : List Row,
    (∀ row ∈ front, ∀ other ∈ back, ¬ before row other) →
    (front ++ back).insertionSort before = back.insertionSort before ++ front.insertionSort before := by
  intro front
  induction front with
  | nil => intro back _; simp
  | cons head rest ih =>
      intro back after
      rw [List.cons_append, List.insertionSort_cons, List.insertionSort_cons,
        ih back fun row member => after row (List.mem_cons_of_mem _ member)]
      refine orderedInsert_append before head _ _ fun other member => ?_
      exact after head List.mem_cons_self other ((List.mem_insertionSort before).mp member)

end StableSort

/-- The entries of a key across tables, the last table's first. -/
def newestFirst (key : Bytes) (tables : List SSTable) : List Entry :=
  tables.reverse.flatMap fun table => keyEntries key table.run.entries

theorem newestFirst_cons (key : Bytes) (table : SSTable) (tables : List SSTable) :
    newestFirst key (table :: tables) =
      newestFirst key tables ++ keyEntries key table.run.entries := by
  simp [newestFirst]

theorem mem_newestFirst {entry : Entry} :
    entry ∈ newestFirst key tables ↔
      ∃ table ∈ tables, entry ∈ table.run.entries ∧ entry.1.userKey = key := by
  simp [newestFirst, keyEntries]

theorem scanAllVersions_filter (key : Bytes) (table : SSTable) :
    (table.scanAllVersions.filter fun row => decide (row.key = key)) =
      (keyEntries key table.run.entries).map Entry.row := by
  rw [SSTable.scanAllVersions, List.filter_map]
  rfl

theorem newest_of_sorted {entries : List Entry}
    (sorted : entries.Pairwise fun left right => left.1 ≤ right.1)
    (own : ∀ entry ∈ entries, entry.1.userKey = key) :
    entries.Pairwise fun left right => right.1.seq ≤ left.1.seq := by
  refine sorted.imp_of_mem ?_
  intro left right leftMember rightMember le
  rcases (InternalKey.le_iff _ _).mp le with less | ⟨_, less | ⟨equal, _⟩⟩
  · exact absurd ((own left leftMember).trans (own right rightMember).symm) (ne_of_lt less)
  · exact le_of_lt less
  · exact le_of_eq equal.symm

theorem keyEntries_newest (key : Bytes) (run : SortedRun) :
    (keyEntries key run.entries).Pairwise fun left right => right.1.seq ≤ left.1.seq :=
  newest_of_sorted (run.sorted.filter _) fun _ member =>
    of_decide_eq_true (List.mem_filter.mp member).2

/-- Tables in which every later one is newer on every key they share. -/
def InSourceOrder (tables : List SSTable) : Prop :=
  tables.Pairwise fun earlier later => KeyOlder earlier.versions later.versions

/-- Sorting the rows of a key newest first, as the tables come oldest first,
turns the tables round and leaves each as it is. -/
theorem sorted_group (key : Bytes) : ∀ tables : List SSTable, InSourceOrder tables →
    ((tables.flatMap SSTable.scanAllVersions).filter fun row =>
        decide (row.key = key)).insertionSort (fun left right => right.seq ≤ left.seq) =
      (newestFirst key tables).map Entry.row := by
  intro tables
  induction tables with
  | nil => intro _; rfl
  | cons table tables ih =>
      intro ordered
      obtain ⟨older, restOrdered⟩ := List.pairwise_cons.mp ordered
      have own : ((keyEntries key table.run.entries).map Entry.row).insertionSort
          (fun left right => right.seq ≤ left.seq) =
            (keyEntries key table.run.entries).map Entry.row := by
        refine List.Pairwise.insertionSort_eq ?_
        exact List.pairwise_map.mpr (keyEntries_newest key table.run)
      rw [List.flatMap_cons, List.filter_append, scanAllVersions_filter,
        insertionSort_append_swap, ih restOrdered, own, newestFirst_cons, List.map_append]
      intro row member other otherMember
      obtain ⟨early, earlyMember, rfl⟩ := List.mem_map.mp member
      obtain ⟨otherRow, otherKey⟩ := List.mem_filter.mp otherMember
      obtain ⟨later, laterMember, late, lateMember, rfl⟩ :=
        (LsmEngine.mem_rows tables other).mp otherRow
      obtain ⟨earlyHeld, earlyKey⟩ := List.mem_filter.mp earlyMember
      refine not_le_of_gt (older later laterMember early.version ⟨early, earlyHeld, rfl⟩
        late.version ⟨late, lateMember, rfl⟩ ?_)
      exact (of_decide_eq_true earlyKey).trans (of_decide_eq_true otherKey).symm

theorem newestFirst_sorted (key : Bytes) : ∀ tables : List SSTable, InSourceOrder tables →
    (newestFirst key tables).Pairwise fun left right => left.1 ≤ right.1 := by
  intro tables
  induction tables with
  | nil => intro _; exact List.Pairwise.nil
  | cons table tables ih =>
      intro ordered
      obtain ⟨older, restOrdered⟩ := List.pairwise_cons.mp ordered
      rw [newestFirst_cons]
      refine List.pairwise_append.mpr ⟨ih restOrdered, table.run.sorted.filter _, ?_⟩
      intro late lateMember early earlyMember
      obtain ⟨later, laterMember, lateHeld, lateKey⟩ := mem_newestFirst.mp lateMember
      obtain ⟨earlyHeld, earlyKey⟩ := List.mem_filter.mp earlyMember
      have sameKey : early.1.userKey = late.1.userKey :=
        (of_decide_eq_true earlyKey).trans lateKey.symm
      have newer := older later laterMember early.version ⟨early, earlyHeld, rfl⟩ late.version
        ⟨late, lateHeld, rfl⟩ sameKey
      exact (InternalKey.le_iff _ _).mpr (Or.inr ⟨sameKey.symm, Or.inl newer⟩)

/-- Probing the tables newest to oldest takes the first entry that the snapshot
sees, all tables taken together. -/
theorem probe_eq_find (key : Bytes) (snapshotSeq : Nat) (tables : List SSTable) :
    (tables.reverse.findSome? fun table => table.readAt key snapshotSeq) =
      ((newestFirst key tables).find? fun entry => decide (entry.1.seq ≤ snapshotSeq)).map
        Entry.value := by
  rw [newestFirst, List.find?_flatMap, List.map_findSome?]
  congr 1
  funext table
  exact table.readAt_eq_find key snapshotSeq

/-! ## The merged table, key by key -/

namespace LsmEngine

theorem keepVersions_sublist (watermark : Nat) : ∀ rows : List VersionRow,
    (keepVersions watermark rows).Sublist (rows.map mergedEntry) := by
  intro rows
  induction rows with
  | nil => exact List.Sublist.refl _
  | cons row rows ih =>
      rw [keepVersions, List.map_cons]
      split_ifs with above dead
      · exact ih.cons_cons _
      · exact List.nil_sublist _
      · exact (List.nil_sublist _).cons_cons _

theorem mergedEntry_key (entry : Entry) : (mergedEntry entry.row).1 = entry.1 := rfl

theorem mergedEntry_value (entry : Entry) : (mergedEntry entry.row).value = entry.value :=
  congrArg Version.value (mergedEntry_version entry)

def keptEntries (watermark : Nat) (key : Bytes) (tables : List SSTable) : List Entry :=
  keepVersions watermark ((newestFirst key tables).map Entry.row)

theorem keptEntries_key {watermark : Nat} {entry : Entry}
    (member : entry ∈ keptEntries watermark key tables) : entry.1.userKey = key := by
  obtain ⟨row, rowMember, rfl⟩ := keepVersions_sub watermark entry _ member
  obtain ⟨held, heldMember, rfl⟩ := List.mem_map.mp rowMember
  obtain ⟨_, _, _, keyExact⟩ := mem_newestFirst.mp heldMember
  exact keyExact

theorem keptEntries_sorted (watermark : Nat) (key : Bytes)
    (ordered : InSourceOrder tables) :
    (keptEntries watermark key tables).Pairwise fun left right => left.1 ≤ right.1 := by
  refine List.Pairwise.sublist (keepVersions_sublist watermark _) ?_
  rw [List.map_map]
  exact List.pairwise_map.mpr (newestFirst_sorted key tables ordered)

theorem mergeEntries_eq (watermark : Nat) (ordered : InSourceOrder tables) :
    (mergeEntries watermark (tables.flatMap SSTable.scanAllVersions)).entries =
      (groupByKey (tables.flatMap SSTable.scanAllVersions)).toList.flatMap fun group =>
        keptEntries watermark group.1 tables := by
  have cut : (groupByKey (tables.flatMap SSTable.scanAllVersions)).toList.flatMap (fun group =>
      keepVersions watermark (group.2.insertionSort fun left right => right.seq ≤ left.seq)) =
        (groupByKey (tables.flatMap SSTable.scanAllVersions)).toList.flatMap fun group =>
          keptEntries watermark group.1 tables := by
    refine List.flatMap_congr fun group member => ?_
    rw [groupByKey_group _ group.1 group.2 member, sorted_group group.1 tables ordered]
    rfl
  unfold mergeEntries
  simp only [cut]
  refine List.Pairwise.insertionSort_eq (List.pairwise_flatMap.mpr ⟨?_, ?_⟩)
  · intro group _
    exact keptEntries_sorted watermark group.1 ordered
  · refine (groupByKey _).sorted.imp ?_
    intro left right less entry entryMember other otherMember
    refine (InternalKey.le_iff _ _).mpr (Or.inl ?_)
    rw [keptEntries_key entryMember, keptEntries_key otherMember]
    exact less

theorem flatMap_other_keys {K V T : Type} (key : K) (part : K → List T)
    (pick : T → Bool) (picks : ∀ other, ∀ element ∈ part other, pick element = true ↔ other = key) :
    ∀ groups : List (K × V), (∀ group ∈ groups, group.1 ≠ key) →
      (groups.flatMap fun group => part group.1).filter pick = [] := by
  intro groups others
  refine List.filter_eq_nil_iff.mpr fun element member => ?_
  obtain ⟨group, groupMember, inPart⟩ := List.mem_flatMap.mp member
  exact fun picked => others group groupMember ((picks group.1 element inPart).mp picked)

theorem flatMap_one_key {K V T : Type} [LinearOrder K] (key : K) (part : K → List T)
    (pick : T → Bool) (picks : ∀ other, ∀ element ∈ part other, pick element = true ↔ other = key) :
    ∀ groups : List (K × V), groups.Pairwise (fun left right => left.1 < right.1) →
      (∃ group ∈ groups, group.1 = key) →
      (groups.flatMap fun group => part group.1).filter pick = part key := by
  intro groups
  induction groups with
  | nil =>
      rintro _ ⟨group, member, _⟩
      exact absurd member List.not_mem_nil
  | cons head rest ih =>
      rintro sorted ⟨group, member, keyExact⟩
      obtain ⟨headLt, restSorted⟩ := List.pairwise_cons.mp sorted
      rw [List.flatMap_cons, List.filter_append]
      by_cases same : head.1 = key
      · have own : (part head.1).filter pick = part head.1 :=
          List.filter_eq_self.mpr fun element inPart => (picks head.1 element inPart).mpr same
        rw [own, same, flatMap_other_keys key part pick picks rest fun other otherMember =>
          same ▸ ne_of_gt (headLt other otherMember), List.append_nil]
      · have none : (part head.1).filter pick = [] := List.filter_eq_nil_iff.mpr
          fun element inPart picked => same ((picks head.1 element inPart).mp picked)
        have inRest : group ∈ rest := by
          rcases List.mem_cons.mp member with rfl | member
          · exact absurd keyExact same
          · exact member
        rw [none, List.nil_append, ih restSorted ⟨group, inRest, keyExact⟩]

theorem keyEntries_mergeEntries (watermark : Nat) (key : Bytes)
    (ordered : InSourceOrder tables) :
    keyEntries key (mergeEntries watermark (tables.flatMap SSTable.scanAllVersions)).entries =
      keptEntries watermark key tables := by
  have picks : ∀ other, ∀ entry ∈ keptEntries watermark other tables,
      decide (entry.1.userKey = key) = true ↔ other = key := by
    intro other entry member
    rw [decide_eq_true_iff, keptEntries_key member]
  rw [mergeEntries_eq watermark ordered, keyEntries]
  cases rows : newestFirst key tables with
  | nil =>
      have empty : keptEntries watermark key tables = [] := by rw [keptEntries, rows]; rfl
      rw [empty]
      refine List.filter_eq_nil_iff.mpr fun entry member picked => ?_
      obtain ⟨group, _, kept⟩ := List.mem_flatMap.mp member
      rw [(picks group.1 entry kept).mp picked, empty] at kept
      exact absurd kept List.not_mem_nil
  | cons entry rest =>
      have held : entry ∈ newestFirst key tables := rows ▸ List.mem_cons_self
      obtain ⟨table, tableMember, entryMember, rfl⟩ := mem_newestFirst.mp held
      refine flatMap_one_key _ (fun key => keptEntries watermark key tables) _ picks _
        (groupByKey _).sorted ⟨_, groupByKey_mem _ entry.row ?_, rfl⟩
      exact (mem_rows tables entry.row).mpr ⟨table, tableMember, entry, entryMember, rfl⟩

/-- From the watermark on, and from the newest version on, a snapshot stops in
front of the cut; the deletion that may fall with it reads like nothing. -/
theorem find?_keepVersions (watermark snapshotSeq : Nat) : ∀ entries : List Entry,
    (watermark ≤ snapshotSeq ∨ ∀ entry ∈ entries, entry.1.seq ≤ snapshotSeq) →
    (((keepVersions watermark (entries.map Entry.row)).find? fun entry =>
        decide (entry.1.seq ≤ snapshotSeq)).map Entry.value).join =
      ((entries.find? fun entry => decide (entry.1.seq ≤ snapshotSeq)).map Entry.value).join := by
  intro entries
  induction entries with
  | nil => intro _; rfl
  | cons head rest ih =>
      intro covered
      have restCovered : watermark ≤ snapshotSeq ∨
          ∀ entry ∈ rest, entry.1.seq ≤ snapshotSeq :=
        covered.imp id fun all entry member => all entry (List.mem_cons_of_mem _ member)
      rw [List.map_cons, keepVersions]
      have seqSame : (mergedEntry head.row).1.seq = head.1.seq := rfl
      by_cases above : watermark ≤ head.row.seq
      · rw [if_pos above]
        by_cases visible : head.1.seq ≤ snapshotSeq
        · rw [List.find?_cons_of_pos (by simpa [seqSame] using visible),
            List.find?_cons_of_pos (by simpa using visible), Option.map_some, Option.map_some,
            mergedEntry_value]
        · rw [List.find?_cons_of_neg (by simpa [seqSame] using visible),
            List.find?_cons_of_neg (by simpa using visible), ih restCovered]
      · have below : head.1.seq < watermark := lt_of_not_ge above
        have visible : head.1.seq ≤ snapshotSeq := by
          rcases covered with reached | all
          · exact (le_of_lt below).trans reached
          · exact all head List.mem_cons_self
        rw [if_neg above, List.find?_cons_of_pos (l := rest) (by simpa using visible)]
        by_cases dead : watermark = u64Max ∧ head.row.tag = deleteTag
        · have deleted : head.value = none := by
            have isDelete : head.1.isDelete = true := by
              simpa [InternalKey.isDelete, Entry.row] using dead.2
            rw [Entry.value, if_pos isDelete]
          rw [if_pos dead, Option.map_some, deleted]
          rfl
        · rw [if_neg dead, List.find?_cons_of_pos (by simpa [seqSame] using visible),
            Option.map_some, Option.map_some, mergedEntry_value]

/-- An entry that the cut drops lies below the watermark, nothing older is
left, and the newest entry below the watermark is either left or a deletion
that no open snapshot asks for. -/
theorem keepVersions_dropped (watermark : Nat) (dropped : Entry) : ∀ entries : List Entry,
    entries.Pairwise (fun left right => right.1.seq ≤ left.1.seq) → dropped ∈ entries →
    mergedEntry dropped.row ∉ keepVersions watermark (entries.map Entry.row) →
    dropped.1.seq < watermark ∧
      (∀ kept ∈ keepVersions watermark (entries.map Entry.row), dropped.1.seq ≤ kept.1.seq) ∧
      (watermark = u64Max ∨ ∃ kept ∈ keepVersions watermark (entries.map Entry.row),
        dropped.1.seq ≤ kept.1.seq ∧ kept.1.seq < watermark) := by
  intro entries
  induction entries with
  | nil => intro _ member; exact absurd member List.not_mem_nil
  | cons head rest ih =>
      intro sorted member gone
      obtain ⟨headAbove, restSorted⟩ := List.pairwise_cons.mp sorted
      rw [List.map_cons, keepVersions] at gone ⊢
      by_cases above : watermark ≤ head.row.seq
      · rw [if_pos above] at gone ⊢
        have inRest : dropped ∈ rest := by
          rcases List.mem_cons.mp member with rfl | member
          · exact absurd List.mem_cons_self gone
          · exact member
        obtain ⟨below, oldest, covered⟩ := ih restSorted inRest fun kept =>
          gone (List.mem_cons_of_mem _ kept)
        refine ⟨below, ?_, ?_⟩
        · intro kept keptMember
          rcases List.mem_cons.mp keptMember with rfl | keptMember
          · exact (le_of_lt below).trans above
          · exact oldest kept keptMember
        · refine covered.imp id ?_
          rintro ⟨kept, keptMember, bounds⟩
          exact ⟨kept, List.mem_cons_of_mem _ keptMember, bounds⟩
      · have headBelow : head.1.seq < watermark := lt_of_not_ge above
        have headNewer : dropped.1.seq ≤ head.1.seq := by
          rcases List.mem_cons.mp member with rfl | member
          · exact le_rfl
          · exact headAbove dropped member
        have below : dropped.1.seq < watermark := lt_of_le_of_lt headNewer headBelow
        rw [if_neg above] at gone ⊢
        by_cases dead : watermark = u64Max ∧ head.row.tag = deleteTag
        · rw [if_pos dead]
          exact ⟨below, fun kept keptMember => absurd keptMember List.not_mem_nil, Or.inl dead.1⟩
        · rw [if_neg dead]
          refine ⟨below, ?_, Or.inr ⟨_, List.mem_singleton.mpr rfl, headNewer, headBelow⟩⟩
          intro kept keptMember
          rw [List.mem_singleton.mp keptMember]
          exact headNewer

/-! ## Compaction -/

theorem finishCompact_table {ETag : Type} {store after : ObjectStore ETag} {bloom : Bloom}
    {putFails : Bool} {pending : PendingCompaction} {table : SSTable}
    (merged : finishCompact store bloom putFails pending = (after, .ok table)) :
    table.run.entries =
      (mergeEntries pending.watermark (pending.sstables.flatMap SSTable.scanAllVersions)).entries := by
  unfold finishCompact at merged
  split_ifs at merged
  · exact absurd (congrArg Prod.snd merged) (by simp)
  · have built := Except.ok.inj (congrArg Prod.snd merged)
    rw [← built]
    rfl

/-- The merged table reads as the tables it replaces, at every snapshot from
the watermark on and at the latest sequence, and the deletions it drops are not
needed. -/
theorem compaction_preserves_reads {ETag : Type} {store after : ObjectStore ETag} {bloom : Bloom}
    {putFails : Bool} {pending : PendingCompaction} {table : SSTable}
    (merged : finishCompact store bloom putFails pending = (after, .ok table))
    (ordered : InSourceOrder pending.sstables) :
    (∀ key snapshotSeq, (pending.watermark ≤ snapshotSeq ∨
        ∀ version ∈ tableVersions pending.sstables, version.seq ≤ snapshotSeq) →
      (table.readAt key snapshotSeq).join =
        (pending.sstables.reverse.findSome? fun source => source.readAt key snapshotSeq).join) ∧
    ∀ source ∈ pending.sstables, ∀ tombstone ∈ source.run.entries, tombstone.1.isDelete = true →
      tombstone.1 ∉ table.run.entries.map Prod.fst →
      tombstone.1.seq < pending.watermark ∧
      (∀ kept ∈ table.run.entries, kept.1.userKey = tombstone.1.userKey →
        tombstone.1.seq ≤ kept.1.seq) ∧
      (pending.watermark = u64Max ∨ ∃ kept ∈ table.run.entries,
        kept.1.userKey = tombstone.1.userKey ∧ tombstone.1.seq ≤ kept.1.seq ∧
          kept.1.seq < pending.watermark) := by
  have perKey : ∀ key, keyEntries key table.run.entries =
      keptEntries pending.watermark key pending.sstables := by
    intro key
    rw [finishCompact_table merged]
    exact keyEntries_mergeEntries pending.watermark key ordered
  have mem_perKey : ∀ key entry, entry ∈ keptEntries pending.watermark key pending.sstables ↔
      entry ∈ table.run.entries ∧ entry.1.userKey = key := by
    intro key entry
    rw [← perKey key, keyEntries, List.mem_filter, decide_eq_true_iff]
  constructor
  · intro key snapshotSeq covered
    rw [table.readAt_eq_find, probe_eq_find, perKey]
    refine find?_keepVersions pending.watermark snapshotSeq _ (covered.imp id ?_)
    intro all entry member
    obtain ⟨source, sourceMember, held, _⟩ := mem_newestFirst.mp member
    exact all entry.version ⟨source, sourceMember, entry, held, rfl⟩
  · intro source sourceMember tombstone held _ gone
    set key := tombstone.1.userKey with keyExact
    have newest : (newestFirst key pending.sstables).Pairwise
        fun left right => right.1.seq ≤ left.1.seq := by
      have own : ∀ entry ∈ newestFirst key pending.sstables, entry.1.userKey = key := by
        intro entry member
        obtain ⟨_, _, _, sameKey⟩ := mem_newestFirst.mp member
        exact sameKey
      exact newest_of_sorted (newestFirst_sorted key _ ordered) own
    have dropped : mergedEntry tombstone.row ∉
        keptEntries pending.watermark key pending.sstables := by
      intro kept
      obtain ⟨inTable, _⟩ := (mem_perKey key _).mp kept
      exact gone (List.mem_map.mpr ⟨_, inTable, mergedEntry_key tombstone⟩)
    obtain ⟨below, oldest, covered⟩ := keepVersions_dropped pending.watermark tombstone _ newest
      (mem_newestFirst.mpr ⟨source, sourceMember, held, rfl⟩) dropped
    refine ⟨below, ?_, covered.imp id ?_⟩
    · intro kept inTable sameKey
      exact oldest kept ((mem_perKey key kept).mpr ⟨inTable, sameKey⟩)
    · rintro ⟨kept, keptMember, newer, keptBelow⟩
      obtain ⟨inTable, sameKey⟩ := (mem_perKey key kept).mp keptMember
      exact ⟨kept, inTable, sameKey, newer, keptBelow⟩

def putThenDeleted : PendingCompaction where
  sstables :=
    [SSTable.build Bloom.accepting 1 ⟨[(⟨[1], 1, putTag⟩, [7]), (⟨[2], 2, putTag⟩, [8])],
        by decide +kernel⟩,
      SSTable.build Bloom.accepting 2 ⟨[(⟨[1], 3, deleteTag⟩, [])], by decide +kernel⟩]
  watermark := u64Max
  newId := 3

/-- With no snapshot open the deletion goes, together with what it deleted. -/
theorem compaction_preserves_reads_deleted :
    ∃ after table, finishCompact (ObjectStore.empty some fun _ => none) Bloom.accepting false
        putThenDeleted = (after, .ok table) ∧
      (table.readAt [1] 3).join = none ∧ (table.readAt [2] 3).join = some [8] ∧
      ∀ kept ∈ table.run.entries, kept.1.userKey = [1] → 3 ≤ kept.1.seq := by
  have ordered : InSourceOrder putThenDeleted.sstables := by
    refine List.pairwise_pair.mpr ?_
    rintro _ ⟨early, earlyMember, rfl⟩ _ ⟨late, lateMember, rfl⟩ sameKey
    have rows : ∀ early ∈ [((⟨[1], 1, putTag⟩ : InternalKey), ([7] : Bytes)),
        (⟨[2], 2, putTag⟩, [8])], ∀ late ∈ [((⟨[1], 3, deleteTag⟩ : InternalKey), ([] : Bytes))],
        early.1.userKey = late.1.userKey → early.1.seq < late.1.seq := by decide
    exact rows early earlyMember late lateMember sameKey
  obtain ⟨table, merged⟩ : ∃ table, finishCompact (ObjectStore.empty some fun _ => none)
      Bloom.accepting false putThenDeleted = (_, .ok table) := ⟨_, rfl⟩
  obtain ⟨reads, tombstones⟩ := compaction_preserves_reads merged ordered
  have latest : ∀ version ∈ tableVersions putThenDeleted.sstables, version.seq ≤ 3 := by
    rintro _ ⟨source, sourceMember, entry, member, rfl⟩
    have rows : ∀ source ∈ putThenDeleted.sstables, ∀ entry ∈ source.run.entries,
        entry.1.seq ≤ 3 := by decide +kernel
    exact rows source sourceMember entry member
  refine ⟨_, table, merged, ?_, ?_, ?_⟩
  · rw [reads [1] 3 (Or.inr latest)]
    decide +kernel
  · rw [reads [2] 3 (Or.inr latest)]
    decide +kernel
  · have gone : (⟨[1], 3, deleteTag⟩ : InternalKey) ∉ table.run.entries.map Prod.fst := by
      rw [finishCompact_table merged]
      decide +kernel
    exact (tombstones (SSTable.build Bloom.accepting 2 ⟨[(⟨[1], 3, deleteTag⟩, [])],
      by decide +kernel⟩) (by simp [putThenDeleted]) (⟨[1], 3, deleteTag⟩, [])
        List.mem_cons_self rfl gone).2.1

end LsmEngine

end Pantheon.Keystone
