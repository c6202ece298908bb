import Mathlib
import Pantheon.Keystone.Lsm

/-!
# What a merge keeps

`finish_compact` groups the rows of the captured tables by key, sorts each
group newest first and cuts it behind the first version below the watermark.
As a set of versions the result is the captured versions thinned at the
watermark.
-/

set_option autoImplicit false

namespace Pantheon.Keystone

open Pantheon.Lib

def tableVersions (tables : List SSTable) : Set (Version Bytes Bytes) :=
  {version | ∃ table ∈ tables, version ∈ table.versions}

theorem tableVersions_append (front back : List SSTable) :
    tableVersions (front ++ back) = tableVersions front ∪ tableVersions back := by
  ext version
  simp [tableVersions, or_and_right, exists_or]

theorem tableVersions_singleton (table : SSTable) : tableVersions [table] = table.versions := by
  ext version
  simp [tableVersions]

theorem tableVersions_mono {part whole : List SSTable} (subset : ∀ table ∈ part, table ∈ whole) :
    tableVersions part ⊆ tableVersions whole := by
  rintro version ⟨table, member, held⟩
  exact ⟨table, subset table member, held⟩

namespace LsmEngine

/-! ## Grouping -/

theorem groupByKey_get? (key : Bytes) : ∀ (rows : List VersionRow)
    (groups : OrdMap Bytes (List VersionRow)),
    ((rows.foldl (fun groups row => groups.insert row.key ((groups.get? row.key).getD [] ++ [row]))
        groups).get? key).getD [] =
      (groups.get? key).getD [] ++ rows.filter fun row => decide (row.key = key) := by
  intro rows
  induction rows with
  | nil => intro groups; simp
  | cons row rows ih =>
      intro groups
      rw [List.foldl_cons, ih, OrdMap.get?_insert]
      by_cases same : row.key = key
      · simp [same]
      · simp [same, Ne.symm same]

theorem groupByKey_group (rows : List VersionRow) (key : Bytes) (group : List VersionRow)
    (member : (key, group) ∈ (groupByKey rows).toList) :
    group = rows.filter fun row => decide (row.key = key) := by
  have grouped := groupByKey_get? key rows OrdMap.empty
  have found := ((groupByKey rows).get?_eq_some key group).mpr member
  unfold groupByKey at found
  rw [found] at grouped
  simpa [OrdMap.get?] using grouped

theorem groupByKey_mem (rows : List VersionRow) (row : VersionRow) (member : row ∈ rows) :
    (row.key, rows.filter fun other => decide (other.key = row.key)) ∈ (groupByKey rows).toList := by
  have grouped := groupByKey_get? row.key rows OrdMap.empty
  change ((groupByKey rows).get? row.key).getD [] = _ at grouped
  have own : row ∈ rows.filter fun other => decide (other.key = row.key) := by
    simpa using member
  cases found : (groupByKey rows).get? row.key with
  | none =>
      rw [found] at grouped
      simp only [OrdMap.get?, OrdMap.empty_toList, List.find?_nil, Option.map_none,
        Option.getD_none, List.nil_append] at grouped
      rw [← grouped] at own
      exact absurd own List.not_mem_nil
  | some group =>
      have inGroups := ((groupByKey rows).get?_eq_some row.key group).mp found
      rwa [← groupByKey_group rows row.key group inGroups]

/-! ## Cutting one key's versions -/

theorem keepVersions_sub (watermark : Nat) (entry : Entry) : ∀ rows : List VersionRow,
    entry ∈ keepVersions watermark rows → ∃ row ∈ rows, mergedEntry row = entry := by
  intro rows
  induction rows with
  | nil => intro member; exact absurd member List.not_mem_nil
  | cons row rows ih =>
      intro member
      unfold keepVersions at member
      split_ifs at member with above dead
      · rcases List.mem_cons.mp member with rfl | member
        · exact ⟨row, List.mem_cons_self, rfl⟩
        · obtain ⟨kept, keptMember, exact⟩ := ih member
          exact ⟨kept, List.mem_cons_of_mem _ keptMember, exact⟩
      · exact absurd member List.not_mem_nil
      · exact ⟨row, List.mem_cons_self, (List.mem_singleton.mp member).symm⟩

theorem keepVersions_above (watermark : Nat) (row : VersionRow) (above : watermark ≤ row.seq) :
    ∀ rows : List VersionRow, rows.Pairwise (fun left right => right.seq ≤ left.seq) →
      row ∈ rows → mergedEntry row ∈ keepVersions watermark rows := by
  intro rows
  induction rows with
  | nil => intro _ member; exact absurd member List.not_mem_nil
  | cons head rest ih =>
      intro sorted member
      obtain ⟨headAbove, restSorted⟩ := List.pairwise_cons.mp sorted
      have headReached : watermark ≤ head.seq := by
        rcases List.mem_cons.mp member with rfl | member
        · exact above
        · exact above.trans (headAbove row member)
      unfold keepVersions
      rw [if_pos headReached]
      rcases List.mem_cons.mp member with rfl | member
      · exact List.mem_cons_self
      · exact List.mem_cons_of_mem _ (ih restSorted member)

/-- The newest row below the watermark is kept, or it is a dead deletion and
nothing below the watermark is kept. -/
theorem keepVersions_floor (watermark : Nat) (row : VersionRow) (below : row.seq < watermark) :
    ∀ rows : List VersionRow, rows.Pairwise (fun left right => right.seq ≤ left.seq) →
      row ∈ rows → (∀ other ∈ rows, other.seq < watermark → other.seq ≤ row.seq) →
      ∃ floor ∈ rows, floor.seq = row.seq ∧
        (mergedEntry floor ∈ keepVersions watermark rows ∨
          floor.tag = deleteTag ∧ ∀ entry ∈ keepVersions watermark rows, watermark ≤ entry.1.seq) := by
  intro rows
  induction rows with
  | nil => intro _ member; exact absurd member List.not_mem_nil
  | cons head rest ih =>
      intro sorted member newest
      obtain ⟨headAbove, restSorted⟩ := List.pairwise_cons.mp sorted
      unfold keepVersions
      by_cases reached : watermark ≤ head.seq
      · have inRest : row ∈ rest := by
          rcases List.mem_cons.mp member with rfl | member
          · exact absurd reached (not_le_of_gt below)
          · exact member
        obtain ⟨floor, floorMember, sameSeq, outcome⟩ := ih restSorted inRest
          fun other otherMember => newest other (List.mem_cons_of_mem _ otherMember)
        refine ⟨floor, List.mem_cons_of_mem _ floorMember, sameSeq, ?_⟩
        rw [if_pos reached]
        rcases outcome with kept | ⟨deleted, cleared⟩
        · exact Or.inl (List.mem_cons_of_mem _ kept)
        · refine Or.inr ⟨deleted, ?_⟩
          intro entry entryMember
          rcases List.mem_cons.mp entryMember with rfl | entryMember
          · exact reached
          · exact cleared entry entryMember
      · -- the head is the first row below the watermark, so the cut is here
        have headExact : head.seq = row.seq := by
          refine le_antisymm (newest head List.mem_cons_self (lt_of_not_ge reached)) ?_
          rcases List.mem_cons.mp member with rfl | member
          · exact le_rfl
          · exact headAbove row member
        refine ⟨head, List.mem_cons_self, headExact, ?_⟩
        rw [if_neg reached]
        split_ifs with dead
        · exact Or.inr ⟨dead.2, fun entry member => absurd member List.not_mem_nil⟩
        · exact Or.inl List.mem_cons_self

/-! ## The merged table -/

theorem mergedEntry_version (entry : Entry) : (mergedEntry entry.row).version = entry.version := by
  by_cases deleted : entry.1.isDelete = true
  · have tagExact : entry.1.tag = deleteTag := by simpa [InternalKey.isDelete] using deleted
    simp [mergedEntry, Entry.row, Entry.version, Entry.value, InternalKey.isDelete, tagExact]
  · have tagOther : entry.1.tag ≠ deleteTag := by simpa [InternalKey.isDelete] using deleted
    simp [mergedEntry, Entry.row, Entry.version, Entry.value, InternalKey.isDelete, tagOther]

theorem mem_rows (tables : List SSTable) (row : VersionRow) :
    row ∈ tables.flatMap SSTable.scanAllVersions ↔
      ∃ table ∈ tables, ∃ entry ∈ table.run.entries, entry.row = row := by
  simp [SSTable.scanAllVersions]

theorem mem_mergeEntries (watermark : Nat) (rows : List VersionRow) (entry : Entry) :
    entry ∈ (mergeEntries watermark rows).entries ↔
      ∃ group ∈ (groupByKey rows).toList, entry ∈ keepVersions watermark
        (group.2.insertionSort fun left right => right.seq ≤ left.seq) := by
  simp [mergeEntries, List.mem_insertionSort]

theorem mergedEntry_mem {tables : List SSTable} {row : VersionRow}
    (member : row ∈ tables.flatMap SSTable.scanAllVersions) :
    (mergedEntry row).version ∈ tableVersions tables := by
  obtain ⟨table, tableMember, entry, entryMember, rfl⟩ := (mem_rows tables row).mp member
  exact ⟨table, tableMember, entry, entryMember, (mergedEntry_version entry).symm⟩

theorem mergeEntries_row {watermark : Nat} {rows : List VersionRow} {entry : Entry}
    (member : entry ∈ (mergeEntries watermark rows).entries) :
    ∃ row ∈ rows, mergedEntry row = entry := by
  obtain ⟨⟨key, group⟩, groupMember, kept⟩ := (mem_mergeEntries watermark rows entry).mp member
  obtain ⟨row, rowMember, exact⟩ := keepVersions_sub watermark entry _ kept
  rw [List.mem_insertionSort, groupByKey_group rows key group groupMember] at rowMember
  exact ⟨row, (List.mem_filter.mp rowMember).1, exact⟩

theorem mergeEntries_sub (watermark : Nat) (tables : List SSTable) :
    (mergeEntries watermark (tables.flatMap SSTable.scanAllVersions)).versions ⊆
      tableVersions tables := by
  rintro version ⟨entry, member, rfl⟩
  obtain ⟨row, rowMember, rfl⟩ := mergeEntries_row member
  exact mergedEntry_mem rowMember

theorem mergeEntries_thinned (watermark : Nat) (tables : List SSTable)
    (det : Deterministic (tableVersions tables)) :
    Thinned watermark (tableVersions tables)
      (mergeEntries watermark (tables.flatMap SSTable.scanAllVersions)).versions := by
  set rows := tables.flatMap SSTable.scanAllVersions with rowsExact
  have rowOfVersion : ∀ version ∈ tableVersions tables, ∃ row ∈ rows,
      row.key = version.key ∧ row.seq = version.seq ∧ (mergedEntry row).version = version := by
    rintro version ⟨table, tableMember, entry, entryMember, rfl⟩
    exact ⟨entry.row, (mem_rows tables entry.row).mpr ⟨table, tableMember, entry, entryMember, rfl⟩,
      rfl, rfl, mergedEntry_version entry⟩
  have groupSorted : ∀ key, ((rows.filter fun row => decide (row.key = key)).insertionSort
      fun left right => right.seq ≤ left.seq).Pairwise fun left right => right.seq ≤ left.seq :=
    fun key => List.pairwise_insertionSort _ _
  refine ⟨mergeEntries_sub watermark tables, ?_, ?_⟩
  · intro version held above
    obtain ⟨row, rowMember, _, seqExact, rfl⟩ := rowOfVersion version held
    refine ⟨mergedEntry row, (mem_mergeEntries watermark rows _).mpr
      ⟨_, groupByKey_mem rows row rowMember, ?_⟩, rfl⟩
    refine keepVersions_above watermark row (seqExact ▸ above) _ (groupSorted row.key) ?_
    rw [List.mem_insertionSort]
    simpa using rowMember
  · intro version held below newest
    obtain ⟨row, rowMember, keyExact, seqExact, versionExact⟩ := rowOfVersion version held
    have inGroup : row ∈ (rows.filter fun other => decide (other.key = row.key)).insertionSort
        fun left right => right.seq ≤ left.seq := by
      rw [List.mem_insertionSort]
      simpa using rowMember
    obtain ⟨floor, floorMember, sameSeq, outcome⟩ := keepVersions_floor watermark row
      (seqExact ▸ below) _ (groupSorted row.key) inGroup (by
        intro other member otherBelow
        rw [List.mem_insertionSort] at member
        obtain ⟨otherMember, sameKey⟩ := List.mem_filter.mp member
        have otherKey : other.key = version.key := (of_decide_eq_true sameKey).trans keyExact
        rw [seqExact]
        exact newest _ (mergedEntry_mem otherMember) otherKey otherBelow)
    rw [List.mem_insertionSort] at floorMember
    obtain ⟨floorRow, floorKey⟩ := List.mem_filter.mp floorMember
    -- one version per key and sequence: the row at the cut is this version
    have floorExact : (mergedEntry floor).version = version :=
      det _ (mergedEntry_mem floorRow) version held
        ((of_decide_eq_true floorKey).trans keyExact) (sameSeq.trans seqExact)
    rcases outcome with kept | ⟨deleted, cleared⟩
    · exact Or.inl ⟨mergedEntry floor, (mem_mergeEntries watermark rows _).mpr
        ⟨_, groupByKey_mem rows row rowMember, kept⟩, floorExact⟩
    · refine Or.inr ⟨?_, ?_⟩
      · rw [← floorExact]
        simp [mergedEntry, Entry.value, InternalKey.isDelete, deleted]
      · rintro other ⟨entry, member, rfl⟩ sameKey
        obtain ⟨⟨key, group⟩, groupMember, kept⟩ := (mem_mergeEntries watermark rows entry).mp member
        obtain ⟨keptRow, keptMember, rfl⟩ := keepVersions_sub watermark entry _ kept
        have groupExact := groupByKey_group rows key group groupMember
        rw [List.mem_insertionSort, groupExact] at keptMember
        have keptKey : keptRow.key = key := of_decide_eq_true (List.mem_filter.mp keptMember).2
        have keyIsRow : key = row.key := keptKey.symm.trans (sameKey.trans keyExact.symm)
        rw [groupExact, keyIsRow] at kept
        exact cleared _ kept

end LsmEngine

end Pantheon.Keystone
