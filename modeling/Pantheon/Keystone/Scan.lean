import Mathlib
import Pantheon.Keystone.Sources

/-!
# A scan lists what reads find

`scan_at` overlays the sources oldest first, `read_at` probes them newest first
and stops at the first hit.  Source by source the two resolve a key alike, so
the scan is the sorted list of the keys that a read finds.
-/

set_option autoImplicit false

namespace Pantheon.Keystone

open Pantheon.Lib

def lookupRows (rows : List (Bytes × Option Bytes)) (key : Bytes) : Option (Option Bytes) :=
  (rows.reverse.find? fun row => decide (row.1 = key)).map Prod.snd

theorem lookupRows_append (front back : List (Bytes × Option Bytes)) (key : Bytes) :
    lookupRows (front ++ back) key = (lookupRows back key).or (lookupRows front key) := by
  unfold lookupRows
  rw [List.reverse_append, List.find?_append]
  cases back.reverse.find? fun row => decide (row.1 = key) <;> rfl

theorem lookupRows_cons (row : Bytes × Option Bytes) (rows : List (Bytes × Option Bytes))
    (key : Bytes) : lookupRows (row :: rows) key =
      (lookupRows rows key).or (if row.1 = key then some row.2 else none) := by
  rw [← List.singleton_append, lookupRows_append]
  congr 1
  by_cases same : row.1 = key
  · simp [lookupRows, same]
  · simp [lookupRows, same]

theorem lookupRows_eq_none {rows : List (Bytes × Option Bytes)} {key : Bytes}
    (others : ∀ row ∈ rows, row.1 ≠ key) : lookupRows rows key = none := by
  unfold lookupRows
  rw [Option.map_eq_none_iff, List.find?_eq_none]
  intro row member
  simpa using others row (List.mem_reverse.mp member)

theorem firstVisiblePerKey_keys (snapshotSeq : Nat) : ∀ (rows : List VersionRow)
    (resolved : Option Bytes), ∀ row ∈ firstVisiblePerKey snapshotSeq rows resolved,
      ∃ version ∈ rows, version.key = row.1 := by
  intro rows
  induction rows with
  | nil => intro resolved row member; exact absurd member List.not_mem_nil
  | cons head rest ih =>
      intro resolved row member
      unfold firstVisiblePerKey at member
      split_ifs at member with skipped visible
      · obtain ⟨version, held, same⟩ := ih _ row member
        exact ⟨version, List.mem_cons_of_mem _ held, same⟩
      · rcases List.mem_cons.mp member with rfl | later
        · exact ⟨head, List.mem_cons_self, rfl⟩
        · obtain ⟨version, held, same⟩ := ih _ row later
          exact ⟨version, List.mem_cons_of_mem _ held, same⟩
      · obtain ⟨version, held, same⟩ := ih _ row member
        exact ⟨version, List.mem_cons_of_mem _ held, same⟩

theorem lookEntries_cons_before {entry : Entry} {entries : List Entry} {key : Bytes}
    {snapshotSeq : Nat} (before : ¬ InternalKey.seek key snapshotSeq ≤ entry.1) :
    lookEntries (entry :: entries) key snapshotSeq = lookEntries entries key snapshotSeq := by
  unfold lookEntries
  rw [List.find?_cons_of_neg (by simpa using before)]

theorem lookEntries_cons_reached {entry : Entry} {entries : List Entry} {key : Bytes}
    {snapshotSeq : Nat} (reached : InternalKey.seek key snapshotSeq ≤ entry.1) :
    lookEntries (entry :: entries) key snapshotSeq =
      if entry.1.userKey = key then some entry.value else none := by
  unfold lookEntries
  rw [List.find?_cons_of_pos (by simpa using reached)]
  by_cases same : entry.1.userKey = key
  · by_cases deleted : entry.1.isDelete = true
    · simp [same, deleted, Entry.value]
    · simp [same, deleted, Entry.value]
  · simp [same]

/-- Reducing a sorted source to one row per key and looking the key up is the
lookup in the source.  `resolved` is the key already decided, in front of all
that is left. -/
theorem lookup_firstVisiblePerKey (snapshotSeq : Nat) (key : Bytes) : ∀ (entries : List Entry)
    (resolved : Option Bytes), entries.Pairwise (fun left right => left.1 ≤ right.1) →
    (∀ decided ∈ resolved, ∀ entry ∈ entries, decided ≤ entry.1.userKey) →
    lookupRows (firstVisiblePerKey snapshotSeq (entries.map Entry.row) resolved) key =
      if resolved = some key then none else lookEntries entries key snapshotSeq := by
  intro entries
  induction entries with
  | nil =>
      intro resolved _ _
      simp [firstVisiblePerKey, lookupRows, lookEntries]
  | cons head rest ih =>
      intro resolved sorted front
      obtain ⟨headLe, restSorted⟩ := List.pairwise_cons.mp sorted
      have keyLe : ∀ entry ∈ rest, head.1.userKey ≤ entry.1.userKey := by
        intro entry member
        rcases (InternalKey.le_iff _ _).mp (headLe entry member) with less | ⟨same, _⟩
        · exact le_of_lt less
        · exact le_of_eq same
      have frontRest : ∀ decided ∈ resolved, ∀ entry ∈ rest, decided ≤ entry.1.userKey :=
        fun decided is entry member => front decided is entry (List.mem_cons_of_mem _ member)
      have reach := InternalKey.seek_le key snapshotSeq head.1
      have decidedRest : ∀ decided ∈ some head.1.userKey, ∀ entry ∈ rest,
          decided ≤ entry.1.userKey := by
        intro decided is entry member
        rw [← Option.some.inj is]
        exact keyLe entry member
      rcases lt_trichotomy head.1.userKey key with below | same | above
      · have before : ¬ InternalKey.seek key snapshotSeq ≤ head.1 := by
          rw [reach]
          rintro (less | ⟨equal, _⟩)
          · exact lt_asymm less below
          · exact ne_of_lt below equal.symm
        have undecided : resolved ≠ some key := by
          intro is
          exact absurd (front key is head List.mem_cons_self) (not_le_of_gt below)
        rw [List.map_cons, firstVisiblePerKey, lookEntries_cons_before before]
        split_ifs with skipped visible
        · rw [ih resolved restSorted frontRest, if_neg undecided]
        · rw [lookupRows_cons, ih (some head.row.key) restSorted decidedRest]
          have rowKey : head.row.key ≠ key := ne_of_lt below
          rw [if_neg (fun equal => rowKey (Option.some.inj equal)), if_neg rowKey, Option.or_none]
        · rw [ih resolved restSorted frontRest, if_neg undecided]
      · rw [List.map_cons, firstVisiblePerKey]
        by_cases skipped : resolved = some head.row.key
        · have decided : resolved = some key := skipped.trans (congrArg some same)
          rw [if_pos skipped, ih resolved restSorted frontRest, if_pos decided, if_pos decided]
        · have undecided : resolved ≠ some key := fun is => skipped (is.trans (congrArg some same.symm))
          rw [if_neg skipped, if_neg undecided]
          by_cases visible : head.row.seq ≤ snapshotSeq
          · rw [if_pos visible, lookupRows_cons, ih (some head.row.key) restSorted decidedRest,
              lookEntries_cons_reached (reach.mpr (Or.inr ⟨same.symm, visible⟩)), if_pos same]
            have rowKey : head.row.key = key := same
            rw [if_pos (congrArg some rowKey), if_pos rowKey]
            rfl
          · have before : ¬ InternalKey.seek key snapshotSeq ≤ head.1 := by
              rw [reach]
              rintro (less | ⟨_, shows⟩)
              · exact ne_of_lt less same.symm
              · exact visible shows
            rw [if_neg visible, ih resolved restSorted frontRest, if_neg undecided,
              lookEntries_cons_before before]
      · have nothing : lookupRows (firstVisiblePerKey snapshotSeq ((head :: rest).map Entry.row)
            resolved) key = none := by
          refine lookupRows_eq_none fun row member => ?_
          obtain ⟨version, held, sameKey⟩ := firstVisiblePerKey_keys snapshotSeq _ _ row member
          obtain ⟨entry, entryMember, rfl⟩ := List.mem_map.mp held
          rw [← sameKey]
          rcases List.mem_cons.mp entryMember with rfl | later
          · exact ne_of_gt above
          · exact ne_of_gt (lt_of_lt_of_le above (keyLe entry later))
        rw [nothing, lookEntries_cons_reached (reach.mpr (Or.inl above)),
          if_neg (ne_of_gt above), ite_self]

theorem lookup_source (snapshotSeq : Nat) (key : Bytes) (run : SortedRun) :
    lookupRows (firstVisiblePerKey snapshotSeq (run.entries.map Entry.row) none) key =
      lookEntries run.entries key snapshotSeq := by
  rw [lookup_firstVisiblePerKey snapshotSeq key run.entries none run.sorted (by simp)]
  simp

namespace EngineView

theorem overlay_get? (key : Bytes) : ∀ (rows : List (Bytes × Option Bytes))
    (merged : OrdMap Bytes (Option Bytes)),
    (overlay merged rows).get? key = (lookupRows rows key).or (merged.get? key) := by
  intro rows
  induction rows with
  | nil => intro merged; rfl
  | cons row rows ih =>
      intro merged
      have step : overlay merged (row :: rows) = overlay (merged.insert row.1 row.2) rows := rfl
      rw [step, ih, lookupRows_cons, OrdMap.get?_insert, Option.or_assoc]
      congr 1
      by_cases same : row.1 = key
      · simp [same]
      · simp [same, Ne.symm same]

theorem tables_get? (snapshotSeq : Nat) (key : Bytes) (tables : List SSTable) :
    (tables.foldl (fun merged table =>
      overlay merged (firstVisiblePerKey snapshotSeq table.scanAllVersions none))
        OrdMap.empty).get? key =
      tables.reverse.findSome? fun table => table.readAt key snapshotSeq := by
  induction tables using List.reverseRecOn with
  | nil => rfl
  | append_singleton tables table ih =>
      rw [List.foldl_append, List.foldl_cons, List.foldl_nil, overlay_get?, ih,
        List.reverse_append, List.reverse_singleton, List.singleton_append, List.findSome?_cons,
        SSTable.readAt_eq]
      have look : lookupRows (firstVisiblePerKey snapshotSeq table.scanAllVersions none) key =
          lookEntries table.run.entries key snapshotSeq := lookup_source snapshotSeq key table.run
      rw [look]
      cases lookEntries table.run.entries key snapshotSeq <;> rfl

/-- The rows of a scan before deletions are dropped, for memtable rows in order. -/
def mergeRows (view : EngineView) (snapshotSeq : Nat) (rows : List VersionRow) :
    OrdMap Bytes (Option Bytes) :=
  let merged := view.sstables.foldl
    (fun merged table =>
      overlay merged (firstVisiblePerKey snapshotSeq table.scanAllVersions none))
    OrdMap.empty
  let merged := match view.immutable with
    | some frozen => overlay merged (firstVisiblePerKey snapshotSeq frozen.iterVersions none)
    | none => merged
  overlay merged (firstVisiblePerKey snapshotSeq rows none)

def liveRows (merged : OrdMap Bytes (Option Bytes)) : List (Bytes × Bytes) :=
  merged.toList.filterMap fun row => row.2.map fun value => (row.1, value)

theorem scanAt_eq_liveRows (view : EngineView) (snapshotSeq : Nat) :
    view.scanAt snapshotSeq = liveRows (view.mergeRows snapshotSeq view.memtable.iterVersions) :=
  rfl

theorem mem_liveRows (merged : OrdMap Bytes (Option Bytes)) (key value : Bytes) :
    (key, value) ∈ liveRows merged ↔ merged.get? key = some (some value) := by
  rw [OrdMap.get?_eq_some, liveRows, List.mem_filterMap]
  constructor
  · rintro ⟨⟨rowKey, rowValue⟩, member, live⟩
    obtain ⟨held, same, result⟩ := Option.map_eq_some_iff.mp live
    obtain ⟨rfl, rfl⟩ := Prod.mk.inj result
    cases same
    exact member
  · intro member
    exact ⟨_, member, rfl⟩

theorem liveRows_sorted (merged : OrdMap Bytes (Option Bytes)) :
    (liveRows merged).Pairwise fun left right => left.1 < right.1 := by
  refine merged.sorted.filterMap _ ?_
  intro left right less leftRow leftLive rightRow rightLive
  obtain ⟨_, _, rfl⟩ := Option.map_eq_some_iff.mp leftLive
  obtain ⟨_, _, rfl⟩ := Option.map_eq_some_iff.mp rightLive
  exact less

theorem mergeRows_get? (view : EngineView) (snapshotSeq : Nat) (key : Bytes) :
    (view.mergeRows snapshotSeq view.memtable.iterVersions).get? key =
      firstHit view.looks key snapshotSeq := by
  have memLook : lookupRows (firstVisiblePerKey snapshotSeq view.memtable.iterVersions none) key =
      view.memtable.getAt key snapshotSeq := lookup_source snapshotSeq key view.memtable.toEntries
  unfold mergeRows firstHit looks
  simp only [List.findSome?_cons, List.findSome?_map]
  rw [overlay_get?, memLook]
  cases view.memtable.getAt key snapshotSeq with
  | some value => rfl
  | none =>
      cases view.immutable with
      | none => exact tables_get? snapshotSeq key view.sstables
      | some frozen =>
          have frozenLook : lookupRows (firstVisiblePerKey snapshotSeq frozen.iterVersions none)
              key = frozen.getAt key snapshotSeq := lookup_source snapshotSeq key frozen.toEntries
          simp only [Option.none_or, Option.bind_some]
          rw [overlay_get?, frozenLook, tables_get?]
          cases frozen.getAt key snapshotSeq <;> rfl

theorem mem_scanAt (view : EngineView) (snapshotSeq : Nat) (key value : Bytes) :
    (key, value) ∈ view.scanAt snapshotSeq ↔ view.readAt key snapshotSeq = some value := by
  rw [scanAt_eq_liveRows, mem_liveRows, mergeRows_get?, readAt_eq_firstHit]
  cases firstHit view.looks key snapshotSeq with
  | none => simp
  | some result => simp

theorem scanAt_sorted (view : EngineView) (snapshotSeq : Nat) :
    (view.scanAt snapshotSeq).Pairwise fun left right => left.1 < right.1 :=
  liveRows_sorted _

end EngineView

/-- A scan and the point reads at one sequence say the same. -/
theorem scanAt_agrees_with_readAt {ETag : Type} (engine : LsmEngine ETag) (snapshotSeq : Nat) :
    (engine.scanAt snapshotSeq).Pairwise (fun left right => left.1 < right.1) ∧
      ((engine.scanAt snapshotSeq).map Prod.fst).Nodup ∧
      ∀ key value, (key, value) ∈ engine.scanAt snapshotSeq ↔
        engine.readAt key snapshotSeq = some value := by
  have increasing := engine.view.scanAt_sorted snapshotSeq
  refine ⟨increasing, ?_, engine.view.mem_scanAt snapshotSeq⟩
  rw [List.Nodup, List.pairwise_map]
  exact increasing.imp fun less => ne_of_lt less

end Pantheon.Keystone
