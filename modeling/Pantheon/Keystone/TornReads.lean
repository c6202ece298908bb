import Mathlib
import Pantheon.Keystone.Txn
import Pantheon.Keystone.CommitSequence

/-!
# Autocommit reads under a commit

A reader with a registered snapshot is below the commit's sequence and sees none
of its rows.  An autocommit reader is above it and sees the rows that are in so
far, so a scan is whole exactly when no table has two rows that the commit
changes.
-/

set_option autoImplicit false

namespace Pantheon.Keystone

open Pantheon.Lib

/-! ## The memtable is below the counter -/

namespace Host

variable {ETag : Type}

/-- What the next batch needs: every row of the memtable is older, and so is
every snapshot. -/
structure MemBelow (host : Host ETag) : Prop where
  rows : ∀ held ∈ host.engine.view.memtable.data.toList,
    held.1.seq < host.engine.write.nextCommitSeq
  counting : 0 < host.engine.write.nextCommitSeq

theorem mem_insertBatch_seq (seq : Nat) : ∀ (entries : List BatchEntry) (table : MemTable),
    ∀ held ∈ (LsmEngine.insertBatch table seq entries).data.toList,
      held ∈ table.data.toList ∨ held.1.seq = seq := by
  intro entries
  induction entries with
  | nil => intro table held member; exact Or.inl member
  | cons entry entries ih =>
      intro table held member
      rcases ih _ held member with earlier | same
      · rcases mem_insert_entry table entry seq held earlier with rfl | before
        · exact Or.inr rfl
        · exact Or.inl before
      · exact Or.inr same

theorem mem_replayInto_seq : ∀ (records : List WalRecord) (table : MemTable),
    ∀ held ∈ (LsmEngine.replayInto table records).data.toList,
      held ∈ table.data.toList ∨ ∃ record ∈ records, held.1.seq = record.seq := by
  intro records
  induction records with
  | nil => intro table held member; exact Or.inl member
  | cons record records ih =>
      intro table held member
      rcases ih _ held member with earlier | ⟨other, listed, same⟩
      · rcases (OrdMap.mem_insert _ _ _ _).mp earlier with rfl | ⟨before, _⟩
        · exact Or.inr ⟨record, List.mem_cons_self, rfl⟩
        · exact Or.inl before
      · exact Or.inr ⟨other, List.mem_cons_of_mem _ listed, same⟩

variable {host next : Host ETag}

theorem MemBelow.keep (below : host.MemBelow)
    (sameTable : next.engine.view.memtable = host.engine.view.memtable)
    (counted : host.engine.write.nextCommitSeq ≤ next.engine.write.nextCommitSeq) :
    next.MemBelow := by
  refine ⟨fun held member => ?_, below.counting.trans_le counted⟩
  rw [sameTable] at member
  exact (below.rows held member).trans_le counted

theorem MemBelow.applied (below : host.MemBelow) (entries : List BatchEntry) :
    (host.applied entries).MemBelow := by
  refine ⟨fun held member => ?_, Nat.succ_pos _⟩
  rcases mem_insertBatch_seq _ entries _ held member with earlier | same
  · exact (below.rows held earlier).trans (Nat.lt_succ_self _)
  · rw [same]
    exact Nat.lt_succ_self _

theorem MemBelow.frozen (below : host.MemBelow) : host.frozen.MemBelow :=
  ⟨fun _ member => absurd member List.not_mem_nil, below.counting⟩

theorem memBelow_openEngine (host : Host ETag)
    (unreadable : Nat → Bool) : MemBelow { host with
      engine := LsmEngine.openEngine host.walFile host.store host.engine.lease unreadable
      flushes := [], compactions := [], reads := [] } := by
  refine ⟨fun held member => ?_, Nat.succ_pos _⟩
  rcases mem_replayInto_seq _ _ held member with earlier | ⟨record, listed, same⟩
  · exact absurd earlier List.not_mem_nil
  · have recovered : record ∈ (replayFrom host.walFile 0).1 := listed
    have bounded := replayLoop_bounded _ _ _ record recovered
    rw [same]
    simp only [LsmEngine.openEngine]
    exact Nat.lt_succ_of_le ((bounded.trans (le_max_left _ _)).trans (le_max_left _ _))

theorem MemBelow.step [DecidableEq ETag] (below : host.MemBelow) (action : Action)
    (taken : host.step action = some next) : next.MemBelow := by
  cases action with
  | write failure entries =>
      cases failure with
      | none =>
          rcases step_write taken with ⟨rfl, _⟩ | ⟨rfl, _⟩ | ⟨_, rfl⟩
          · exact below.applied entries
          · exact (below.applied entries).frozen
          · exact (below.applied entries).keep rfl le_rfl
      | some written =>
          rw [step_write_failed taken]
          exact below.keep rfl (Nat.le_succ _)
  | snapshotNow =>
      rw [← Option.some.inj taken]
      exact below.keep rfl le_rfl
  | releaseSnapshot seq =>
      obtain ⟨snapshots, rfl⟩ := step_releaseSnapshot taken
      exact below.keep rfl le_rfl
  | beginFlush =>
      rcases step_beginFlush taken with rfl | rfl
      · exact below.keep rfl le_rfl
      · exact below.frozen
  | finishFlush index bloom putFails =>
      obtain ⟨pending, _, ⟨rfl, _⟩ | rfl⟩ := step_finishFlush taken <;> exact below.keep rfl le_rfl
  | commitFlush index fault threshold =>
      obtain ⟨pending, table, segments, _, ⟨rfl, _⟩ | ⟨_, done, rfl, rfl | rfl, _⟩⟩ :=
        step_commitFlush taken <;> exact below.keep rfl le_rfl
  | beginCompact =>
      rcases step_beginCompact taken with rfl | rfl <;> exact below.keep rfl le_rfl
  | finishCompact index bloom putFails =>
      obtain ⟨pending, _, ⟨rfl, _⟩ | ⟨table, _, rfl⟩⟩ := step_finishCompact taken <;>
        exact below.keep rfl le_rfl
  | commitCompact index saveFails deleteFails =>
      obtain ⟨pending, table, _, ⟨rfl, _⟩ | ⟨_, objects, rfl, _⟩⟩ := step_commitCompact taken <;>
        exact below.keep rfl le_rfl
  | startRead key =>
      rw [← Option.some.inj taken]
      exact below.keep rfl le_rfl
  | endRead index =>
      rw [← Option.some.inj taken]
      exact below.keep rfl le_rfl
  | setLease lease =>
      rw [← Option.some.inj taken]
      exact below.keep rfl le_rfl
  | reopen unreadable =>
      rw [← Option.some.inj taken]
      exact memBelow_openEngine host unreadable

theorem memBelow_of_reaches [DecidableEq ETag] {manifestEtag : Manifest → ETag}
    {leaseEtag : Lease → ETag} {lease : LeaseHandle} {allowed : Host ETag → Action → Prop}
    (reached : Reaches Host.step allowed (start manifestEtag leaseEtag lease) host) :
    host.MemBelow := by
  refine Reaches.invariant MemBelow ?_ (fun _ action _ below _ taken => below.step action taken)
    host reached
  exact ⟨fun _ member => absurd member List.not_mem_nil, Nat.succ_pos _⟩

theorem MemBelow.newerThan (below : host.MemBelow) (entries : List BatchEntry) :
    NewerThan host.engine.view.memtable host.engine.write.nextCommitSeq entries :=
  fun held member _ _ _ => below.rows held member

end Host

/-! ## Rows of one table -/

theorem lookupRows_eq_some {rows : List (Bytes × Option Bytes)}
    (sorted : rows.Pairwise fun left right => left.1 < right.1) (key : Bytes)
    (value : Option Bytes) : lookupRows rows key = some value ↔ (key, value) ∈ rows := by
  induction rows with
  | nil => simp [lookupRows]
  | cons row rows ih =>
      obtain ⟨headLess, restSorted⟩ := List.pairwise_cons.mp sorted
      rw [lookupRows_cons, List.mem_cons]
      by_cases same : row.1 = key
      · have absent : lookupRows rows key = none := by
          refine lookupRows_eq_none fun other member otherSame => ?_
          exact ne_of_lt (headLess other member) (same.trans otherSame.symm)
        have missing : (key, value) ∉ rows := by
          intro member
          exact ne_of_lt (headLess _ member) same
        rw [absent, Option.none_or, if_pos same, or_iff_left missing, Option.some.injEq,
          Prod.ext_iff]
        exact ⟨fun equal => ⟨same.symm, equal.symm⟩, fun both => both.2.symm⟩
      · rw [if_neg same, Option.or_none, ih restSorted, or_iff_right]
        intro equal
        exact same (congrArg Prod.fst equal).symm

/-- Without a transaction the rows of a table are the committed rows under its
prefix. -/
theorem mem_tableRows (table : String) {committed : List (Bytes × Bytes)}
    (sorted : committed.Pairwise fun left right => left.1 < right.1) (key value : Bytes) :
    (key, value) ∈ tableRows none table committed ↔
      (makePrefix table ++ key, value) ∈ committed := by
  set rows := (committed.filter fun row => (makePrefix table).isPrefixOf row.1).map
    fun row => (row.1, some row.2) with rowsExact
  have rowsSorted : rows.Pairwise fun left right => left.1 < right.1 := by
    rw [rowsExact, List.pairwise_map]
    exact sorted.filter _
  have merged : (committed.filter fun row => (makePrefix table).isPrefixOf row.1).foldl
      (fun merged row => merged.insert row.1 (some row.2)) OrdMap.empty =
        EngineView.overlay OrdMap.empty rows := by
    rw [rowsExact, EngineView.overlay, List.foldl_map]
  have mergedMem : ∀ rowKey rowValue, (rowKey, rowValue) ∈
      (EngineView.overlay OrdMap.empty rows).toList ↔ (rowKey, rowValue) ∈ rows := by
    intro rowKey rowValue
    rw [← OrdMap.get?_eq_some, EngineView.overlay_get?,
      ← lookupRows_eq_some rowsSorted rowKey rowValue]
    exact iff_of_eq (congrArg (· = some rowValue) Option.or_none)
  unfold tableRows
  simp only [merged, List.mem_filterMap]
  constructor
  · rintro ⟨⟨rowKey, rowValue⟩, member, live⟩
    obtain ⟨held, same, result⟩ := Option.map_eq_some_iff.mp live
    obtain ⟨rfl, rfl⟩ := Prod.mk.inj result
    obtain ⟨row, listed, rowExact⟩ := List.mem_map.mp ((mergedMem _ _).mp member)
    obtain ⟨rfl, valueExact⟩ := Prod.mk.inj rowExact
    obtain ⟨inTable, under⟩ := List.mem_filter.mp listed
    obtain ⟨rest, restExact⟩ := List.isPrefixOf_iff_prefix.mp under
    have heldExact : row.2 = held := Option.some.inj (valueExact.trans same)
    rw [← restExact, List.drop_left, restExact, ← heldExact]
    exact inTable
  · intro member
    refine ⟨(makePrefix table ++ key, some value), (mergedMem _ _).mpr ?_, ?_⟩
    · refine List.mem_map.mpr ⟨_, List.mem_filter.mpr ⟨member, ?_⟩, rfl⟩
      exact List.isPrefixOf_iff_prefix.mpr (List.prefix_append _ _)
    · simp

namespace EngineView

def SameRows (table : String) (left right : EngineView) (snapshotSeq : Nat) : Prop :=
  ∀ key, left.readAt (makePrefix table ++ key) snapshotSeq =
    right.readAt (makePrefix table ++ key) snapshotSeq

theorem tableRows_scanAt_eq_iff (table : String) (left right : EngineView) (snapshotSeq : Nat) :
    tableRows none table (left.scanAt snapshotSeq) =
        tableRows none table (right.scanAt snapshotSeq) ↔
      SameRows table left right snapshotSeq := by
  constructor
  · intro same key
    refine Option.ext fun value => ?_
    have leftRow := mem_tableRows table (left.scanAt_sorted snapshotSeq) key value
    have rightRow := mem_tableRows table (right.scanAt_sorted snapshotSeq) key value
    rw [mem_scanAt] at leftRow rightRow
    rw [same] at leftRow
    exact leftRow.symm.trans rightRow
  · intro same
    have filtered : (left.scanAt snapshotSeq).filter
          (fun row => (makePrefix table).isPrefixOf row.1) =
        (right.scanAt snapshotSeq).filter fun row => (makePrefix table).isPrefixOf row.1 := by
      refine OrdMap.sorted_ext ((left.scanAt_sorted _).filter _)
        ((right.scanAt_sorted _).filter _) ?_
      rintro ⟨key, value⟩
      rw [List.mem_filter, List.mem_filter, mem_scanAt, mem_scanAt]
      refine and_congr_left fun under => ?_
      obtain ⟨rest, rfl⟩ := List.isPrefixOf_iff_prefix.mp under
      rw [same rest]
    unfold tableRows
    rw [filtered]

theorem scanAt_ext {left right : EngineView} {leftSeq rightSeq : Nat}
    (same : ∀ key, left.readAt key leftSeq = right.readAt key rightSeq) :
    left.scanAt leftSeq = right.scanAt rightSeq := by
  refine OrdMap.sorted_ext (left.scanAt_sorted _) (right.scanAt_sorted _) ?_
  rintro ⟨key, value⟩
  rw [mem_scanAt, mem_scanAt, same key]

theorem scanDuring_seen (view : EngineView) (snapshotSeq seq : Nat) {entries : List BatchEntry}
    (distinct : DistinctKeys entries) (newer : NewerThan view.memtable seq entries)
    (schedule : List ScanStep) : ∃ seen : List BatchEntry, seen.Sublist entries ∧
      view.scanDuring snapshotSeq seq entries schedule =
        (view.publish seq seen).scanAt snapshotSeq := by
  obtain ⟨seen, sub, exact⟩ := iterDuring_seen seq schedule view.memtable entries none distinct newer
  refine ⟨seen, sub, ?_⟩
  have all : (LsmEngine.insertBatch view.memtable seq seen).data.toList.filter
      (behindCursor none) = (LsmEngine.insertBatch view.memtable seq seen).data.toList :=
    List.filter_eq_self.mpr fun _ _ => rfl
  rw [scanDuring, exact, all]
  rfl

theorem iterDuring_inserts (seq : Nat) : ∀ (count : Nat) (table : MemTable)
    (entries : List BatchEntry), iterDuring seq (List.replicate count .insert) table entries none =
      (LsmEngine.insertBatch table seq (entries.take count)).data.toList := by
  intro count
  induction count with
  | zero =>
      intro table entries
      exact List.filter_eq_self.mpr fun _ _ => rfl
  | succ count ih =>
      intro table entries
      rw [List.replicate_succ]
      cases entries with
      | nil =>
          have step := ih table []
          rw [List.take_nil] at step ⊢
          exact step
      | cons entry entries => exact ih _ entries

theorem scanDuring_inserts (view : EngineView) (snapshotSeq seq : Nat) (entries : List BatchEntry)
    (count : Nat) : view.scanDuring snapshotSeq seq entries (List.replicate count .insert) =
      (view.publish seq (entries.take count)).scanAt snapshotSeq := by
  rw [scanDuring, iterDuring_inserts]
  rfl

end EngineView

/-! ## Commits -/

theorem commitEntries_distinct (staged : OrdMap Bytes (Option Bytes)) :
    DistinctKeys (commitEntries staged) := by
  refine List.pairwise_map.mpr (staged.sorted.filterMap _ ?_)
  intro left right less leftEntry leftKept rightEntry rightKept
  have leftKey : leftEntry.key = left.1 := by
    cases found : left.1.findIdx? (· == 0) with
    | none => simp [found] at leftKept
    | some index =>
        simp only [found, Option.map_eq_some_iff] at leftKept
        obtain ⟨table, _, rfl⟩ := leftKept
        rfl
  have rightKey : rightEntry.key = right.1 := by
    cases found : right.1.findIdx? (· == 0) with
    | none => simp [found] at rightKept
    | some index =>
        simp only [found, Option.map_eq_some_iff] at rightKept
        obtain ⟨table, _, rfl⟩ := rightKept
        rfl
  rw [leftKey, rightKey]
  exact ne_of_lt less

def BatchEntry.Changes (entry : BatchEntry) (view : EngineView) (table : String) : Prop :=
  makePrefix table <+: entry.key ∧ view.readAt entry.key u64Max ≠ entry.value

def OneRowPerTable (view : EngineView) (entries : List BatchEntry) : Prop :=
  ∀ table, ∀ first ∈ entries, ∀ second ∈ entries, first.Changes view table →
    second.Changes view table → first = second

/-- Whenever it runs, an autocommit read or scan finds all of the batch or none
of it. -/
structure ObservedWhole (view : EngineView) (seq : Nat) (entries : List BatchEntry) : Prop where
  reads : ∀ table key count,
    txnRead (view.publish seq (entries.take count)) none table key = txnRead view none table key ∨
      txnRead (view.publish seq (entries.take count)) none table key =
        txnRead (view.publish seq entries) none table key
  scans : ∀ table schedule,
    txnScanDuring view none table seq entries schedule = txnScan view none table ∨
      txnScanDuring view none table seq entries schedule =
        txnScan (view.publish seq entries) none table

/-- A transaction that began before the commit finds none of it. -/
structure ObservedNever (view : EngineView) (seq : Nat) (entries : List BatchEntry) (txn : Txn) :
    Prop where
  reads : ∀ table key count, txnRead (view.publish seq (entries.take count)) (some txn) table key =
    txnRead view (some txn) table key
  scans : ∀ table schedule, txnScanDuring view (some txn) table seq entries schedule =
    txnScan view (some txn) table

section Batch

variable {view : EngineView} {seq : Nat} {entries seen : List BatchEntry}

theorem find?_of_distinct (distinct : DistinctKeys entries) {entry : BatchEntry}
    (member : entry ∈ entries) :
    entries.find? (fun other => decide (other.key = entry.key)) = some entry := by
  cases found : entries.find? fun other => decide (other.key = entry.key) with
  | none =>
      have missed := List.find?_eq_none.mp found entry member
      exact absurd (decide_eq_true rfl) missed
  | some other =>
      have same : other.key = entry.key := by simpa using List.find?_some found
      exact congrArg some
        (List.inj_on_of_nodup_map distinct (List.mem_of_find?_eq_some found) member same)

theorem readAt_publish_mem (visible : seq ≤ u64Max) (distinct : DistinctKeys seen)
    (newer : NewerThan view.memtable seq seen) {entry : BatchEntry} (member : entry ∈ seen) :
    (view.publish seq seen).readAt entry.key u64Max = entry.value := by
  rw [view.readAt_publish visible distinct newer, find?_of_distinct distinct member]

theorem readAt_publish_same (visible : seq ≤ u64Max) (distinct : DistinctKeys seen)
    (newer : NewerThan view.memtable seq seen) {key : Bytes}
    (unchanged : ∀ entry ∈ seen, entry.key = key → view.readAt key u64Max = entry.value) :
    (view.publish seq seen).readAt key u64Max = view.readAt key u64Max := by
  rw [view.readAt_publish visible distinct newer]
  cases found : seen.find? fun entry => decide (entry.key = key) with
  | none => rfl
  | some entry =>
      have same : entry.key = key := by simpa using List.find?_some found
      exact (unchanged entry (List.mem_of_find?_eq_some found) same).symm

theorem txnRead_publish (visible : seq ≤ u64Max) (distinct : DistinctKeys entries)
    (newer : NewerThan view.memtable seq entries) (sub : seen.Sublist entries)
    (table : String) (key : Bytes) :
    txnRead (view.publish seq seen) none table key = txnRead view none table key ∨
      txnRead (view.publish seq seen) none table key =
        txnRead (view.publish seq entries) none table key := by
  have seenDistinct : DistinctKeys seen := distinct.sublist (sub.map _)
  by_cases written : ∃ entry ∈ seen, entry.key = makeKey table key
  · obtain ⟨entry, member, keyExact⟩ := written
    have partly := readAt_publish_mem visible seenDistinct (newer.sublist sub) member
    have fully := readAt_publish_mem visible distinct newer (sub.subset member)
    rw [keyExact] at partly fully
    exact Or.inr (partly.trans fully.symm)
  · refine Or.inl (readAt_publish_same visible seenDistinct (newer.sublist sub) ?_)
    intro entry member same
    exact absurd ⟨entry, member, same⟩ written

theorem sameRows_publish (visible : seq ≤ u64Max) (distinct : DistinctKeys entries)
    (newer : NewerThan view.memtable seq entries) (sub : seen.Sublist entries)
    (single : OneRowPerTable view entries) (table : String) :
    EngineView.SameRows table (view.publish seq seen) view u64Max ∨
      EngineView.SameRows table (view.publish seq seen) (view.publish seq entries) u64Max := by
  have seenDistinct : DistinctKeys seen := distinct.sublist (sub.map _)
  by_cases changed : ∃ entry ∈ seen, entry.Changes view table
  · obtain ⟨entry, member, changes⟩ := changed
    refine Or.inr fun key => ?_
    by_cases same : entry.key = makePrefix table ++ key
    · rw [← same, readAt_publish_mem visible seenDistinct (newer.sublist sub) member,
        readAt_publish_mem visible distinct newer (sub.subset member)]
    · -- every other row of the table is written with the value it has
      have unchanged : ∀ other ∈ entries, other.key = makePrefix table ++ key →
          view.readAt (makePrefix table ++ key) u64Max = other.value := by
        intro other listed otherKey
        by_contra differs
        have otherChanges : other.Changes view table :=
          ⟨otherKey ▸ List.prefix_append _ _, otherKey ▸ differs⟩
        have equal := single table entry (sub.subset member) other listed changes otherChanges
        exact same (equal ▸ otherKey)
      rw [readAt_publish_same visible distinct newer unchanged,
        readAt_publish_same visible seenDistinct (newer.sublist sub)
          fun other listed => unchanged other (sub.subset listed)]
  · refine Or.inl fun key => readAt_publish_same visible seenDistinct (newer.sublist sub) ?_
    intro entry member same
    by_contra differs
    exact changed ⟨entry, member, same ▸ List.prefix_append _ _, same ▸ differs⟩

theorem observedWhole_of_oneRow (visible : seq ≤ u64Max) (distinct : DistinctKeys entries)
    (newer : NewerThan view.memtable seq entries) (single : OneRowPerTable view entries) :
    ObservedWhole view seq entries := by
  constructor
  · intro table key count
    exact txnRead_publish visible distinct newer (List.take_sublist _ _) table key
  · intro table schedule
    obtain ⟨seen, sub, exact⟩ := view.scanDuring_seen u64Max seq distinct newer schedule
    have result : txnScanDuring view none table seq entries schedule =
        tableRows none table ((view.publish seq seen).scanAt u64Max) :=
      congrArg (tableRows none table) exact
    rw [result]
    rcases sameRows_publish visible distinct newer sub single table with same | same
    · exact Or.inl ((EngineView.tableRows_scanAt_eq_iff _ _ _ _).mpr same)
    · exact Or.inr ((EngineView.tableRows_scanAt_eq_iff _ _ _ _).mpr same)

theorem torn_between (visible : seq ≤ u64Max) (distinct : DistinctKeys entries)
    (newer : NewerThan view.memtable seq entries) {table : String} {front back : List BatchEntry}
    {first second : BatchEntry} (split : entries = front ++ first :: back) (later : second ∈ back)
    (firstChanges : first.Changes view table) (secondChanges : second.Changes view table) :
    ¬ ObservedWhole view seq entries := by
  intro whole
  have taken : entries.take (front.length + 1) = front ++ [first] := by
    rw [split, List.take_append]
    simp
  have sub : (front ++ [first]).Sublist entries := taken ▸ List.take_sublist _ _
  have seenDistinct : DistinctKeys (front ++ [first]) := distinct.sublist (sub.map _)
  have secondMember : second ∈ entries := by rw [split]; simp [later]
  have result : txnScanDuring view none table seq entries
      (List.replicate (front.length + 1) .insert) =
        tableRows none table ((view.publish seq (front ++ [first])).scanAt u64Max) := by
    rw [← taken]
    exact congrArg (tableRows none table) (view.scanDuring_inserts _ _ _ _)
  have cases := whole.scans table (List.replicate (front.length + 1) .insert)
  rw [result] at cases
  rcases cases with same | same
  · obtain ⟨rest, keyExact⟩ := firstChanges.1
    have rows := (EngineView.tableRows_scanAt_eq_iff _ _ _ _).mp same rest
    rw [keyExact, readAt_publish_mem visible seenDistinct (newer.sublist sub) (by simp)] at rows
    exact firstChanges.2 rows.symm
  · obtain ⟨rest, keyExact⟩ := secondChanges.1
    have rows := (EngineView.tableRows_scanAt_eq_iff _ _ _ _).mp same rest
    rw [keyExact, readAt_publish_mem visible distinct newer secondMember] at rows
    have unseen : ∀ entry ∈ front ++ [first], entry.key ≠ second.key := by
      intro entry member equal
      have keys : ((front ++ [first]) ++ back).map BatchEntry.key = entries.map BatchEntry.key := by
        rw [split, List.append_assoc, List.singleton_append]
      have apart : (((front ++ [first]) ++ back).map BatchEntry.key).Nodup := keys ▸ distinct
      rw [List.map_append, List.nodup_append] at apart
      exact apart.2.2 _ (List.mem_map_of_mem member) _ (List.mem_map_of_mem later) equal
    rw [readAt_publish_same visible seenDistinct (newer.sublist sub)
      fun entry member equal => absurd equal (unseen entry member)] at rows
    exact secondChanges.2 rows

theorem observedWhole_iff (visible : seq ≤ u64Max) (distinct : DistinctKeys entries)
    (newer : NewerThan view.memtable seq entries) :
    ObservedWhole view seq entries ↔ OneRowPerTable view entries := by
  constructor
  · intro whole table first firstMember second secondMember firstChanges secondChanges
    by_contra different
    obtain ⟨front, back, split⟩ := List.append_of_mem firstMember
    have placed := secondMember
    rw [split, List.mem_append, List.mem_cons] at placed
    rcases placed with early | same | late
    · obtain ⟨start, middle, rfl⟩ := List.append_of_mem early
      have resplit : entries = start ++ second :: (middle ++ first :: back) :=
        split.trans (by simp)
      exact torn_between visible distinct newer resplit (by simp) secondChanges firstChanges whole
    · exact different same.symm
    · exact torn_between visible distinct newer split late firstChanges secondChanges whole
  · exact observedWhole_of_oneRow visible distinct newer

theorem observedNever (distinct : DistinctKeys entries) (newer : NewerThan view.memtable seq entries)
    {txn : Txn} (before : txn.snapshotSeq < seq) : ObservedNever view seq entries txn := by
  constructor
  · intro table key count
    have sub := List.take_sublist count entries
    have read := view.readAt_publish_hidden before (distinct.sublist (sub.map _))
      (newer.sublist sub) (makeKey table key)
    unfold txnRead
    split
    · rfl
    · exact read
  · intro table schedule
    obtain ⟨seen, sub, exact⟩ := view.scanDuring_seen txn.snapshotSeq seq distinct newer schedule
    refine congrArg (tableRows (some txn) table) (exact.trans ?_)
    exact EngineView.scanAt_ext
      (view.readAt_publish_hidden before (distinct.sublist (sub.map _)) (newer.sublist sub))

end Batch

/-- In any state an engine can reach, an autocommit reader finds a commit whole
at every moment exactly when no table has two rows that the commit changes; a
transaction that began before never finds any of it. -/
theorem autocommit_observes_whole_iff {ETag : Type} [DecidableEq ETag]
    (manifestEtag : Manifest → ETag) (leaseEtag : Lease → ETag) (lease : LeaseHandle)
    (host : Host ETag)
    (reached : Reaches Host.step (fun _ _ => True) (Host.start manifestEtag leaseEtag lease) host)
    (counted : host.engine.write.nextCommitSeq ≤ u64Max) (staged : OrdMap Bytes (Option Bytes)) :
    (ObservedWhole host.engine.view host.engine.write.nextCommitSeq (commitEntries staged) ↔
      OneRowPerTable host.engine.view (commitEntries staged)) ∧
    ∀ txn : Txn, txn.snapshotSeq ≤ host.engine.currentSeq →
      ObservedNever host.engine.view host.engine.write.nextCommitSeq (commitEntries staged) txn := by
  have distinct := commitEntries_distinct staged
  have below := Host.memBelow_of_reaches reached
  have newer := below.newerThan (commitEntries staged)
  refine ⟨observedWhole_iff counted distinct newer, fun txn before => ?_⟩
  exact observedNever distinct newer
    (lt_of_le_of_lt before (Nat.sub_lt below.counting Nat.one_pos))

def oneRowHost : Option (Host (Option Manifest)) :=
  runChecked Host.step (fun _ _ => true) Host.fresh
    [.write none [⟨"t", [116, 0, 1], some [7]⟩]]

/-- A commit of two rows of one table, the first of them as `oneRowHost` has it. -/
def twoRows : OrdMap Bytes (Option Bytes) :=
  (OrdMap.empty.insert [116, 0, 1] (some [7])).insert [116, 0, 2] (some [9])

theorem autocommit_observes_added_row_whole :
    ∃ host, oneRowHost = some host ∧
      ObservedWhole host.engine.view host.engine.write.nextCommitSeq
        (commitEntries twoRows) := by
  have facts : oneRowHost.map (fun host => (host.engine.write.nextCommitSeq,
      host.engine.view.readAt [116, 0, 1] u64Max)) = some (2, some [7]) := by
    decide +kernel
  obtain ⟨host, ran, exact⟩ := Option.map_eq_some_iff.mp facts
  obtain ⟨seqExact, readExact⟩ := Prod.mk.inj exact
  have reached := runChecked_unguarded ran
  have entriesExact : commitEntries twoRows =
      [⟨"t", [116, 0, 1], some [7]⟩, ⟨"t", [116, 0, 2], some [9]⟩] := by
    decide +kernel
  refine ⟨host, ran, ((autocommit_observes_whole_iff some (fun _ => none) ⟨1, true⟩ host reached
    (by rw [seqExact]; decide) twoRows).1).mpr ?_⟩
  have onlyAdded : ∀ (table : String) (entry : BatchEntry), entry ∈ commitEntries twoRows →
      entry.Changes host.engine.view table → entry = ⟨"t", [116, 0, 2], some [9]⟩ := by
    intro table entry member changes
    rw [entriesExact] at member
    rcases List.mem_cons.mp member with rfl | member
    · exact absurd readExact changes.2
    · exact List.mem_singleton.mp member
  intro table first firstMember second secondMember firstChanges secondChanges
  exact (onlyAdded table first firstMember firstChanges).trans
    (onlyAdded table second secondMember secondChanges).symm

/-- On an empty store both rows are new, and between the inserts a scan finds
one of them. -/
theorem autocommit_scan_torn :
    ¬ ∀ host : Host (Option Manifest), Reaches Host.step (fun _ _ => True) Host.fresh host →
      ∀ staged, ObservedWhole host.engine.view host.engine.write.nextCommitSeq
        (commitEntries staged) := by
  intro claimed
  have whole := (claimed Host.fresh Reaches.refl twoRows).scans "t" [.insert]
  have during : txnScanDuring Host.fresh.engine.view none "t" Host.fresh.engine.write.nextCommitSeq
      (commitEntries twoRows) [.insert] = [([1], [7])] := by
    decide +kernel
  have before : txnScan Host.fresh.engine.view none "t" = [] := by decide +kernel
  have after : txnScan (Host.fresh.engine.view.publish Host.fresh.engine.write.nextCommitSeq
      (commitEntries twoRows)) none "t" = [([1], [7]), ([2], [9])] := by
    decide +kernel
  rw [during, before, after] at whole
  exact absurd whole (by decide)

end Pantheon.Keystone
