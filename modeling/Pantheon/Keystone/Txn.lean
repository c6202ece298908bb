import Mathlib
import Pantheon.Keystone.Scan

/-!
# Transactions and autocommit reads: `storage/database/mod.rs`, `txn.rs`

A transaction stages its writes under composite keys and commits them as one
batch.  `txn_read` and `txn_scan` read at the transaction's snapshot, and
without a transaction at `u64::MAX`: not at the last finished commit.

`write_batch` inserts the rows of a batch one by one into the memtable that
readers share, so a reader may run between two inserts, and the iteration of a
scan may be overtaken by them.
-/

set_option autoImplicit false

namespace Pantheon.Keystone

open Pantheon.Lib

def makeKey (table : String) (key : Bytes) : Bytes := utf8Bytes table ++ [0] ++ key

def makePrefix (table : String) : Bytes := utf8Bytes table ++ [0]

structure Txn where
  snapshotSeq : Nat
  finished : Bool
  staged : OrdMap Bytes (Option Bytes)

namespace Txn

def stageWrite (txn : Txn) (compositeKey value : Bytes) : Txn :=
  if txn.finished then txn
  else { txn with staged := txn.staged.insert compositeKey (some value) }

def stageDelete (txn : Txn) (compositeKey : Bytes) : Txn :=
  if txn.finished then txn
  else { txn with staged := txn.staged.insert compositeKey none }

/-- `some none` is a staged deletion, `none` falls through to the store. -/
def stagedRead (txn : Txn) (compositeKey : Bytes) : Option (Option Bytes) :=
  txn.staged.get? compositeKey

end Txn

/-- The batch of `commit_txn`: entries in key order, without those whose key
does not begin with a table name. -/
def commitEntries (staged : OrdMap Bytes (Option Bytes)) : List BatchEntry :=
  staged.toList.filterMap fun write =>
    match write.1.findIdx? (· == 0) with
    | none => none
    | some index =>
        (String.fromUTF8? ⟨(write.1.take index).toArray⟩).map fun table =>
          ⟨table, write.1, write.2⟩

def snapshotOf (txn : Option Txn) : Nat := (txn.map Txn.snapshotSeq).getD u64Max

def txnRead (view : EngineView) (txn : Option Txn) (table : String) (key : Bytes) :
    Option Bytes :=
  match txn.bind fun txn => txn.stagedRead (makeKey table key) with
  | some value => value
  | none => view.readAt (makeKey table key) (snapshotOf txn)

/-- The rows of one table under its own keys, with the staged writes on top. -/
def tableRows (txn : Option Txn) (table : String) (committed : List (Bytes × Bytes)) :
    List (Bytes × Bytes) :=
  let merged : OrdMap Bytes (Option Bytes) :=
    (committed.filter fun row => (makePrefix table).isPrefixOf row.1).foldl
      (fun merged row => merged.insert row.1 (some row.2)) OrdMap.empty
  let merged : OrdMap Bytes (Option Bytes) := match txn with
    | none => merged
    | some txn =>
        (txn.staged.toList.filter fun write => (makePrefix table).isPrefixOf write.1).foldl
          (fun merged write => merged.insert write.1 write.2) merged
  merged.toList.filterMap fun row =>
    row.2.map fun value => (row.1.drop (makePrefix table).length, value)

def txnScan (view : EngineView) (txn : Option Txn) (table : String) : List (Bytes × Bytes) :=
  tableRows txn table (view.scanAt (snapshotOf txn))

/-! ## Publishing a batch under a running scan -/

/-- One step of a schedule: the writer's next insert, or the reader's next row. -/
inductive ScanStep where
  | insert
  | next
deriving DecidableEq

def BatchEntry.entry (entry : BatchEntry) (seq : Nat) : Entry :=
  (⟨entry.key, seq, entry.tag⟩, entry.value.getD [])

def behindCursor (cursor : Option InternalKey) (entry : Entry) : Bool :=
  cursor.all fun key => decide (key < entry.1)

/-- The rows an iteration yields while the batch is inserted; the rest of it
runs after the schedule, before any further insert. -/
def iterDuring (seq : Nat) : List ScanStep → MemTable → List BatchEntry → Option InternalKey →
    List Entry
  | [], memtable, _, cursor => memtable.data.toList.filter (behindCursor cursor)
  | .insert :: schedule, memtable, [], cursor => iterDuring seq schedule memtable [] cursor
  | .insert :: schedule, memtable, entry :: pending, cursor =>
      iterDuring seq schedule
        (memtable.insert entry.key seq (entry.value.getD []) entry.tag) pending cursor
  | .next :: schedule, memtable, pending, cursor =>
      match memtable.data.toList.find? (behindCursor cursor) with
      | none => []
      | some entry => entry :: iterDuring seq schedule memtable pending (some entry.1)

namespace EngineView

def publish (view : EngineView) (seq : Nat) (entries : List BatchEntry) : EngineView :=
  { view with memtable := LsmEngine.insertBatch view.memtable seq entries }

def scanDuring (view : EngineView) (snapshotSeq seq : Nat) (entries : List BatchEntry)
    (schedule : List ScanStep) : List (Bytes × Bytes) :=
  liveRows (view.mergeRows snapshotSeq
    ((iterDuring seq schedule view.memtable entries none).map Entry.row))

end EngineView

def txnScanDuring (view : EngineView) (txn : Option Txn) (table : String) (seq : Nat)
    (entries : List BatchEntry) (schedule : List ScanStep) : List (Bytes × Bytes) :=
  tableRows txn table (view.scanDuring (snapshotOf txn) seq entries schedule)

/-! ## Inserting one row -/

namespace MemTable

/-- A row at a newer sequence answers for its key from then on, and for nothing
else. -/
theorem getAt_insert (table : MemTable) (userKey : Bytes) (seq : Nat) (value : Bytes) (tag : UInt8)
    (newer : ∀ held ∈ table.data.toList, held.1.userKey = userKey → held.1.seq < seq)
    (key : Bytes) (snapshotSeq : Nat) :
    (table.insert userKey seq value tag).getAt key snapshotSeq =
      if key = userKey ∧ seq ≤ snapshotSeq then
        some (Entry.value (⟨userKey, seq, tag⟩, value))
      else table.getAt key snapshotSeq := by
  have reach := InternalKey.seek_le key snapshotSeq ⟨userKey, seq, tag⟩
  have inserted : (table.insert userKey seq value tag).data.seek
      (InternalKey.seek key snapshotSeq) = _ :=
    table.data.seek_insert ⟨userKey, seq, tag⟩ value (InternalKey.seek key snapshotSeq)
  unfold getAt
  rw [inserted]
  by_cases reached : InternalKey.seek key snapshotSeq ≤ ⟨userKey, seq, tag⟩
  · rw [if_pos reached]
    cases found : table.data.seek (InternalKey.seek key snapshotSeq) with
    | none =>
        rcases reach.mp reached with less | ⟨same, visible⟩
        · simp [ne_of_gt less, ne_of_lt less]
        · simp only at same visible
          subst same
          by_cases deleted : InternalKey.isDelete ⟨key, seq, tag⟩ = true <;>
            simp [visible, deleted, Entry.value]
    | some held =>
        obtain ⟨member, heldReached, _⟩ := OrdMap.seek_eq_some _ _ _ found
        rcases reach.mp reached with less | ⟨same, visible⟩
        · simp only at less
          by_cases first : held.1 < ⟨userKey, seq, tag⟩
          · simp [first, ne_of_lt less]
          · have beyond : key < held.1.userKey := by
              rcases (InternalKey.le_iff _ _).mp (le_of_not_gt first) with later | ⟨equal, _⟩
              · exact less.trans later
              · exact less.trans_eq equal
            simp [first, ne_of_lt less, ne_of_gt less, ne_of_gt beyond]
        · simp only at same visible
          subst same
          have second : ¬ held.1 < ⟨key, seq, tag⟩ := by
            intro first
            rcases (InternalKey.lt_iff _ _).mp first with less | ⟨equal, order⟩
            · rcases (InternalKey.seek_le _ _ _).mp heldReached with later | ⟨equal, _⟩
              · exact lt_asymm less later
              · exact ne_of_lt less equal.symm
            · have older := newer held member equal
              rcases order with more | ⟨sameSeq, _⟩
              · exact absurd more (by simpa using le_of_lt older)
              · exact absurd sameSeq (ne_of_lt older)
          by_cases deleted : InternalKey.isDelete ⟨key, seq, tag⟩ = true <;>
            simp [second, visible, deleted, Entry.value]
  · have other : ¬ (key = userKey ∧ seq ≤ snapshotSeq) := by
      rintro ⟨same, visible⟩
      exact reached (reach.mpr (Or.inr ⟨same, visible⟩))
    rw [if_neg reached, if_neg other]

end MemTable

/-! ## What a reader sees of a batch -/

theorem BatchEntry.entry_value (entry : BatchEntry) (seq : Nat) :
    (entry.entry seq).value = entry.value :=
  congrArg Version.value (entry_version_of_batch entry seq)

theorem mem_insert_entry (table : MemTable) (entry : BatchEntry) (seq : Nat) (held : Entry)
    (member : held ∈ (table.insert entry.key seq (entry.value.getD []) entry.tag).data.toList) :
    held = entry.entry seq ∨ held ∈ table.data.toList := by
  rcases (OrdMap.mem_insert _ _ _ _).mp member with same | ⟨earlier, _⟩
  · exact Or.inl same
  · exact Or.inr earlier

/-- The rows of the memtable under the batch's keys are older than the batch. -/
def NewerThan (table : MemTable) (seq : Nat) (entries : List BatchEntry) : Prop :=
  ∀ held ∈ table.data.toList, ∀ entry ∈ entries, held.1.userKey = entry.key → held.1.seq < seq

theorem NewerThan.insert {table : MemTable} {seq : Nat} {entry : BatchEntry}
    {entries : List BatchEntry} (newer : NewerThan table seq (entry :: entries))
    (distinct : DistinctKeys (entry :: entries)) :
    NewerThan (table.insert entry.key seq (entry.value.getD []) entry.tag) seq entries := by
  intro held member other listed sameKey
  rcases mem_insert_entry table entry seq held member with rfl | earlier
  · exact absurd (List.mem_map.mpr ⟨other, listed, sameKey.symm⟩) (List.nodup_cons.mp distinct).1
  · exact newer held earlier other (List.mem_cons_of_mem _ listed) sameKey

theorem getAt_insertBatch (seq : Nat) (key : Bytes) (snapshotSeq : Nat)
    (visible : seq ≤ snapshotSeq) :
    ∀ (entries : List BatchEntry) (table : MemTable), DistinctKeys entries →
      NewerThan table seq entries →
      (LsmEngine.insertBatch table seq entries).getAt key snapshotSeq =
        match entries.find? fun entry => decide (entry.key = key) with
        | some entry => some entry.value
        | none => table.getAt key snapshotSeq := by
  intro entries
  induction entries with
  | nil => intro table _ _; rfl
  | cons entry entries ih =>
      intro table distinct newer
      obtain ⟨headDistinct, restDistinct⟩ := List.nodup_cons.mp distinct
      have step : LsmEngine.insertBatch table seq (entry :: entries) = LsmEngine.insertBatch
          (table.insert entry.key seq (entry.value.getD []) entry.tag) seq entries := rfl
      have inserted := table.getAt_insert entry.key seq (entry.value.getD []) entry.tag
        (fun held member same => newer held member entry List.mem_cons_self same) key snapshotSeq
      rw [step, ih _ restDistinct (newer.insert distinct), inserted]
      by_cases same : entry.key = key
      · have absent : entries.find? (fun other => decide (other.key = key)) = none := by
          rw [List.find?_eq_none]
          intro other listed
          simp only [decide_eq_true_eq]
          intro otherSame
          exact headDistinct (List.mem_map.mpr ⟨other, listed, otherSame.trans same.symm⟩)
        rw [absent, List.find?_cons_of_pos (by simpa using same), if_pos ⟨same.symm, visible⟩]
        exact congrArg some (entry.entry_value seq)
      · rw [List.find?_cons_of_neg (by simpa using same), if_neg fun both => same both.1.symm]

theorem getAt_insertBatch_hidden (seq : Nat) (key : Bytes) (snapshotSeq : Nat)
    (hidden : snapshotSeq < seq) :
    ∀ (entries : List BatchEntry) (table : MemTable), DistinctKeys entries →
      NewerThan table seq entries →
      (LsmEngine.insertBatch table seq entries).getAt key snapshotSeq =
        table.getAt key snapshotSeq := by
  intro entries
  induction entries with
  | nil => intro table _ _; rfl
  | cons entry entries ih =>
      intro table distinct newer
      have step : LsmEngine.insertBatch table seq (entry :: entries) = LsmEngine.insertBatch
          (table.insert entry.key seq (entry.value.getD []) entry.tag) seq entries := rfl
      have inserted := table.getAt_insert entry.key seq (entry.value.getD []) entry.tag
        (fun held member same => newer held member entry List.mem_cons_self same) key snapshotSeq
      rw [step, ih _ (List.nodup_cons.mp distinct).2 (newer.insert distinct), inserted,
        if_neg fun both => absurd both.2 (not_le_of_gt hidden)]

namespace EngineView

/-- A read past the batch's sequence finds the batch's rows that are in, and
what was there before otherwise. -/
theorem readAt_publish (view : EngineView) {seq snapshotSeq : Nat} {entries : List BatchEntry}
    (visible : seq ≤ snapshotSeq) (distinct : DistinctKeys entries)
    (newer : NewerThan view.memtable seq entries) (key : Bytes) :
    (view.publish seq entries).readAt key snapshotSeq =
      match entries.find? fun entry => decide (entry.key = key) with
      | some entry => entry.value
      | none => view.readAt key snapshotSeq := by
  have looked := getAt_insertBatch seq key snapshotSeq visible entries view.memtable distinct newer
  unfold readAt publish
  simp only [looked]
  cases entries.find? fun entry => decide (entry.key = key) <;> rfl

theorem readAt_publish_hidden (view : EngineView) {seq snapshotSeq : Nat}
    {entries : List BatchEntry} (hidden : snapshotSeq < seq) (distinct : DistinctKeys entries)
    (newer : NewerThan view.memtable seq entries) (key : Bytes) :
    (view.publish seq entries).readAt key snapshotSeq = view.readAt key snapshotSeq := by
  have looked := getAt_insertBatch_hidden seq key snapshotSeq hidden entries view.memtable distinct
    newer
  unfold readAt publish
  simp only [looked]

end EngineView

/-! ## The rows of an overtaken iteration -/

theorem mem_insertBatch (seq : Nat) (held : Entry) : ∀ (entries : List BatchEntry)
    (table : MemTable), DistinctKeys entries → NewerThan table seq entries →
    (held ∈ (LsmEngine.insertBatch table seq entries).data.toList ↔
      held ∈ table.data.toList ∨ ∃ entry ∈ entries, held = entry.entry seq) := by
  intro entries
  induction entries with
  | nil => intro table _ _; simp [LsmEngine.insertBatch]
  | cons entry entries ih =>
      intro table distinct newer
      have step : LsmEngine.insertBatch table seq (entry :: entries) = LsmEngine.insertBatch
          (table.insert entry.key seq (entry.value.getD []) entry.tag) seq entries := rfl
      have fresh : ∀ other ∈ table.data.toList, other.1 ≠ (entry.entry seq).1 := by
        intro other member same
        have older := newer other member entry List.mem_cons_self (by rw [same]; rfl)
        rw [same] at older
        exact absurd older (lt_irrefl _)
      have inserted : held ∈ (table.insert entry.key seq (entry.value.getD [])
          entry.tag).data.toList ↔ held = entry.entry seq ∨ held ∈ table.data.toList := by
        refine (OrdMap.mem_insert _ _ _ _).trans (or_congr_right ?_)
        exact ⟨And.left, fun member => ⟨member, fresh held member⟩⟩
      rw [step, ih _ (List.nodup_cons.mp distinct).2 (newer.insert distinct), inserted]
      simp only [List.mem_cons, exists_eq_or_imp]
      tauto

theorem NewerThan.sublist {table : MemTable} {seq : Nat} {fewer entries : List BatchEntry}
    (newer : NewerThan table seq entries) (sub : fewer.Sublist entries) :
    NewerThan table seq fewer :=
  fun held member entry listed => newer held member entry (sub.subset listed)

theorem behindCursor_trans {cursor : Option InternalKey} {left right : Entry}
    (behind : behindCursor cursor left = true) (less : left.1 < right.1) :
    behindCursor cursor right = true := by
  cases cursor with
  | none => rfl
  | some key =>
      simp only [behindCursor, Option.all_some, decide_eq_true_eq] at behind ⊢
      exact behind.trans less

/-- The next row of an iteration is the first one left; of what the batch adds
later only the rows behind it are met. -/
theorem cursor_advance (seq : Nat) (table : MemTable) (seen : List BatchEntry)
    (cursor : Option InternalKey) (held : Entry) (distinct : DistinctKeys seen)
    (newer : NewerThan table seq seen)
    (found : table.data.toList.find? (behindCursor cursor) = some held) :
    held :: (LsmEngine.insertBatch table seq seen).data.toList.filter
        (behindCursor (some held.1)) =
      (LsmEngine.insertBatch table seq
        (seen.filter fun entry => decide (held.1 < (entry.entry seq).1))).data.toList.filter
          (behindCursor cursor) := by
  obtain ⟨behind, front, back, split, passed⟩ := List.find?_eq_some_iff_append.mp found
  have first : ∀ entry ∈ table.data.toList, behindCursor cursor entry = true →
      entry = held ∨ held.1 < entry.1 := by
    intro entry member entryBehind
    rw [split] at member
    rcases List.mem_append.mp member with early | late
    · have not := passed entry early
      rw [entryBehind] at not
      exact absurd not (by decide)
    · rcases List.mem_cons.mp late with same | later
      · exact Or.inl same
      · have sorted := table.data.sorted
        rw [split] at sorted
        exact Or.inr ((List.pairwise_cons.mp (List.pairwise_append.mp sorted).2.1).1 entry later)
  have heldMember : held ∈ table.data.toList := List.mem_of_find?_eq_some found
  refine OrdMap.sorted_ext ?_ ?_ ?_
  · refine List.pairwise_cons.mpr ⟨?_, (OrdMap.sorted _).filter _⟩
    intro entry member
    simpa [behindCursor] using (List.mem_filter.mp member).2
  · exact (OrdMap.sorted _).filter _
  · intro entry
    have fewer := List.filter_sublist (l := seen)
      (p := fun entry => decide (held.1 < (entry.entry seq).1))
    rw [List.mem_cons, List.mem_filter, List.mem_filter,
      mem_insertBatch seq entry seen table distinct newer,
      mem_insertBatch seq entry _ table (distinct.sublist (fewer.map _)) (newer.sublist fewer)]
    simp only [behindCursor, Option.all_some, decide_eq_true_eq]
    constructor
    · rintro (rfl | ⟨kept | ⟨added, listed, rfl⟩, less⟩)
      · exact ⟨Or.inl heldMember, behind⟩
      · exact ⟨Or.inl kept, behindCursor_trans behind less⟩
      · refine ⟨Or.inr ⟨added, ?_, rfl⟩, behindCursor_trans behind less⟩
        exact List.mem_filter.mpr ⟨listed, by simpa using less⟩
    · rintro ⟨kept | ⟨added, listed, rfl⟩, entryBehind⟩
      · rcases first entry kept entryBehind with same | less
        · exact Or.inl same
        · exact Or.inr ⟨Or.inl kept, less⟩
      · obtain ⟨member, less⟩ := List.mem_filter.mp listed
        exact Or.inr ⟨Or.inr ⟨added, member, rfl⟩, by simpa using less⟩

/-- However the inserts fall between its rows, the iteration yields the memtable
with some of the batch in it. -/
theorem iterDuring_seen (seq : Nat) : ∀ (schedule : List ScanStep) (table : MemTable)
    (pending : List BatchEntry) (cursor : Option InternalKey), DistinctKeys pending →
    NewerThan table seq pending → ∃ seen : List BatchEntry, seen.Sublist pending ∧
      iterDuring seq schedule table pending cursor =
        (LsmEngine.insertBatch table seq seen).data.toList.filter (behindCursor cursor) := by
  intro schedule
  induction schedule with
  | nil =>
      intro table pending cursor _ _
      exact ⟨[], List.nil_sublist _, rfl⟩
  | cons move schedule ih =>
      intro table pending cursor distinct newer
      cases move with
      | insert =>
          cases pending with
          | nil => exact ih table [] cursor distinct newer
          | cons entry pending =>
              obtain ⟨seen, sub, exact⟩ := ih _ pending cursor (List.nodup_cons.mp distinct).2
                (newer.insert distinct)
              exact ⟨entry :: seen, sub.cons_cons entry, exact⟩
      | next =>
          unfold iterDuring
          cases found : table.data.toList.find? (behindCursor cursor) with
          | none =>
              refine ⟨[], List.nil_sublist _, ?_⟩
              simpa [LsmEngine.insertBatch] using (List.filter_eq_nil_iff.mpr
                (List.find?_eq_none.mp found)).symm
          | some held =>
              obtain ⟨seen, sub, exact⟩ := ih table pending (some held.1) distinct newer
              refine ⟨seen.filter fun entry => decide (held.1 < (entry.entry seq).1),
                (List.filter_sublist).trans sub, ?_⟩
              refine (congrArg (held :: ·) exact).trans ?_
              exact cursor_advance seq table seen cursor held (distinct.sublist (sub.map _))
                (newer.sublist sub) found

end Pantheon.Keystone
