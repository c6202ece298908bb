import Mathlib
import Pantheon.Lib.Overlay

/-!
# What sessions have written

A log of the writes of concurrent sessions under snapshot isolation: those that are
committed, and for each session those it saw when it began and those it has made since.
Storing writes under keys keeps all of them exactly when no key comes twice.
-/

set_option autoImplicit false

namespace Pantheon.Lib

structure SessionLog (Item : Type) where
  committed : List Item
  seen : Nat → List Item
  staged : Nat → List Item

namespace SessionLog

variable {Item Other : Type}

def empty : SessionLog Item := ⟨[], fun _ => [], fun _ => []⟩

def add (log : SessionLog Item) (session : Option Nat) (items : List Item) : SessionLog Item :=
  match session with
  | none => { log with committed := log.committed ++ items }
  | some index =>
      { log with staged := Function.update log.staged index (log.staged index ++ items) }

/-- A session sees what is committed when it begins. -/
def start (log : SessionLog Item) (index : Nat) : SessionLog Item :=
  { log with
    seen := Function.update log.seen index log.committed
    staged := Function.update log.staged index [] }

def commit (log : SessionLog Item) (index : Nat) : SessionLog Item :=
  { log with committed := log.committed ++ log.staged index }

def visible (log : SessionLog Item) : Option Nat → List Item
  | none => log.committed
  | some index => log.seen index ++ log.staged index

def map (convert : Item → Other) (log : SessionLog Item) : SessionLog Other :=
  ⟨log.committed.map convert, fun index => (log.seen index).map convert,
    fun index => (log.staged index).map convert⟩

@[simp] theorem map_add (convert : Item → Other) (log : SessionLog Item) (session : Option Nat)
    (items : List Item) :
    (log.add session items).map convert = (log.map convert).add session (items.map convert) := by
  cases session with
  | none => simp [add, map]
  | some index =>
      simp only [add, map, mk.injEq, true_and]
      funext other
      by_cases same : other = index
      · subst same
        simp
      · simp [same]

@[simp] theorem map_start (convert : Item → Other) (log : SessionLog Item) (index : Nat) :
    (log.start index).map convert = (log.map convert).start index := by
  simp only [start, map, mk.injEq, true_and]
  constructor <;>
    · funext other
      by_cases same : other = index
      · subst same
        simp
      · simp [same]

@[simp] theorem map_commit (convert : Item → Other) (log : SessionLog Item) (index : Nat) :
    (log.commit index).map convert = (log.map convert).commit index := by
  simp [commit, map]

@[simp] theorem visible_map (convert : Item → Other) (log : SessionLog Item)
    (session : Option Nat) :
    (log.map convert).visible session = (log.visible session).map convert := by
  cases session with
  | none => rfl
  | some index => exact (List.map_append ..).symm

@[simp] theorem add_nil (log : SessionLog Item) (session : Option Nat) :
    log.add session [] = log := by
  cases session with
  | none => simp [add]
  | some index => simp [add]

theorem add_append (log : SessionLog Item) (session : Option Nat) (front back : List Item) :
    log.add session (front ++ back) = (log.add session front).add session back := by
  cases session with
  | none => simp [add]
  | some index => simp [add]

end SessionLog

/-! ## Writes under keys -/

section Keys

variable {K V : Type} [DecidableEq K]

theorem lastWrite_of_nodup {rows : List (K × V)} (nodup : (rows.map Prod.fst).Nodup) {key : K}
    {value : V} (member : (key, value) ∈ rows) :
    lastWrite (rows.map fun row => (row.1, some row.2)) key = some value := by
  induction rows using List.reverseRecOn with
  | nil => exact absurd member List.not_mem_nil
  | append_singleton rows row ih =>
      rw [List.map_append, List.nodup_append] at nodup
      obtain ⟨front, _, apart⟩ := nodup
      rw [List.map_append, List.map_singleton, lastWrite_append_single]
      rcases List.mem_append.mp member with earlier | last
      · have other : row.1 ≠ key := fun same => apart key (List.mem_map_of_mem earlier) row.1
          (by simp) same.symm
        rw [if_neg other]
        exact ih front earlier
      · cases List.mem_singleton.mp last
        exact if_pos rfl

/-- The writes to one part of the keys, under the keys they have there. -/
theorem lastWrite_part {Item Part : Type} [DecidableEq Part] (write : Item → K × Option V)
    (within : Item → Part × Option V) (belongs : Item → Bool) (place : Part → K) {key : Part}
    {items : List Item}
    (places : ∀ item ∈ items, (write item).1 = place key ↔
      belongs item = true ∧ (within item).1 = key)
    (values : ∀ item, (within item).2 = (write item).2) :
    lastWrite (items.map write) (place key) =
      lastWrite ((items.filter belongs).map within) key := by
  induction items using List.reverseRecOn with
  | nil => rfl
  | append_singleton items item ih =>
      have earlier := ih fun other member => places other (List.mem_append_left _ member)
      have last := places item (List.mem_append_right _ List.mem_cons_self)
      rw [List.map_append, List.map_singleton, lastWrite_append_single, List.filter_append]
      by_cases there : belongs item = true
      · rw [List.filter_cons_of_pos there, List.filter_nil, List.map_append, List.map_singleton,
          lastWrite_append_single, earlier, values]
        by_cases same : (within item).1 = key
        · rw [if_pos same, if_pos (last.mpr ⟨there, same⟩)]
        · rw [if_neg same, if_neg fun hit => same (last.mp hit).2]
      · rw [List.filter_cons_of_neg there, List.filter_nil, List.append_nil, earlier,
          if_neg fun hit => there (last.mp hit).1]

/-- A listing of the last writes has all of them, counted as often as they were made, exactly
when no key was written twice. -/
theorem subperm_listing_iff (rows : List (K × V)) {listing : List (K × V)}
    (nodup : (listing.map Prod.fst).Nodup)
    (lists : ∀ key value, (key, value) ∈ listing ↔
      lastWrite (rows.map fun row => (row.1, some row.2)) key = some value) {Seen : Type}
    (view : V → Seen) :
    (rows.map fun row => view row.2).Subperm (listing.map fun row => view row.2) ↔
      (rows.map Prod.fst).Nodup := by
  constructor
  · intro all
    have enough : rows.length ≤ listing.length := by simpa using all.length_le
    have keys : listing.map Prod.fst ⊆ (rows.map Prod.fst).dedup := by
      intro key member
      obtain ⟨row, listed, rfl⟩ := List.mem_map.mp member
      obtain ⟨written, made, same⟩ := List.mem_map.mp
        (mem_of_lastWrite ((lists row.1 row.2).mp listed))
      rw [List.mem_dedup, ← (Prod.mk.inj same).1]
      exact List.mem_map_of_mem made
    have few : listing.length ≤ (rows.map Prod.fst).dedup.length := by
      simpa using (List.subperm_of_subset nodup keys).length_le
    have whole : (rows.map Prod.fst).dedup = rows.map Prod.fst := by
      refine (List.dedup_sublist _).eq_of_length_le ?_
      rw [List.length_map]
      exact enough.trans few
    exact List.dedup_eq_self.mp whole
  · intro keysNodup
    have rowsNodup : rows.Nodup := List.Nodup.of_map _ keysNodup
    have subset : rows ⊆ listing := by
      intro row member
      exact (lists row.1 row.2).mpr (lastWrite_of_nodup keysNodup member)
    obtain ⟨part, perm, sub⟩ := List.subperm_of_subset rowsNodup subset
    exact ⟨part.map fun row => view row.2, perm.map _, sub.map _⟩

end Keys

end Pantheon.Lib
