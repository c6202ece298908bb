import Mathlib
import Pantheon.Keystone.ReadCorrectness

/-!
# An unregistered read beside complete operations

`LsmEngine::read` loads the current sequence and then probes at it, without
registering a snapshot in between.  The other tasks run whole operations: a
flush or a compaction that begins is driven to its end before the next one
begins, and nothing fails.  A compaction between the two steps of the read
takes its watermark without the read and may drop the version it needs.
-/

set_option autoImplicit false

namespace Pantheon.Keystone

open Pantheon.Lib

namespace Host

variable {ETag : Type}

def Idle (host : Host ETag) : Prop := host.flushes.length = 0 ∧ host.compactions.length = 0

instance (host : Host ETag) : Decidable host.Idle :=
  inferInstanceAs (Decidable (host.flushes.length = 0 ∧ host.compactions.length = 0))

/-- Whole operations: nothing begins while a flush or a compaction is between
its phases, and every phase succeeds. -/
def Whole (host : Host ETag) : Action → Prop
  | .write failure _ => failure = none ∧ host.Idle
  | .beginFlush => host.Idle
  | .finishFlush _ _ putFails => putFails = false
  | .commitFlush _ fault _ => fault = none
  | .beginCompact => host.Idle
  | .finishCompact _ _ putFails => putFails = false
  | .commitCompact _ saveFails _ => saveFails = false
  | .setLease _ => False
  | .reopen _ => False
  | _ => True

instance (host : Host ETag) (action : Action) : Decidable (host.Whole action) := by
  induction action using Action.casesOn <;> (dsimp only [Whole]; infer_instance)

/-- The compaction that commits drops nothing a started read may need. -/
def SparesReads (host : Host ETag) (index : Nat) : Prop :=
  match host.compactions[index]? with
  | some ⟨pending, _⟩ => ∀ read ∈ host.reads, pending.GapFree read.1 read.2
  | none => True

instance (host : Host ETag) (index : Nat) : Decidable (host.SparesReads index) := by
  unfold SparesReads
  cases host.compactions[index]? <;> infer_instance

/-- Batches have distinct keys and compactions spare the started reads. -/
def Sparing (host : Host ETag) : Action → Prop
  | .write _ entries => DistinctKeys entries
  | .commitCompact index _ _ => host.SparesReads index
  | _ => True

instance (host : Host ETag) (action : Action) : Decidable (host.Sparing action) := by
  induction action using Action.casesOn <;> (dsimp only [Sparing]; infer_instance)

/-- At most one operation is between its phases; a compaction there has
captured the view as it is. -/
def Solo (host : Host ETag) : Prop :=
  (host.flushes = [] ∧ host.compactions = [] ∧ host.SlotFree) ∨
    (host.compactions = [] ∧ ∃ task, host.flushes = [task]) ∨
    (host.flushes = [] ∧ host.SlotFree ∧
      ∃ task, host.compactions = [task] ∧ task.pending.sstables = host.tables)

theorem Solo.idle {host : Host ETag} (solo : host.Solo) (idle : host.Idle) :
    host.flushes = [] ∧ host.compactions = [] ∧ host.SlotFree := by
  obtain ⟨noFlush, noCompaction⟩ := idle
  rcases solo with quiet | ⟨_, task, single⟩ | ⟨_, _, task, single, _⟩
  · exact quiet
  · rw [single] at noFlush
    exact absurd noFlush (by simp)
  · rw [single] at noCompaction
    exact absurd noCompaction (by simp)

theorem Solo.congr {host next : Host ETag} (solo : host.Solo)
    (sameView : next.engine.view = host.engine.view) (sameFlushes : next.flushes = host.flushes)
    (sameCompactions : next.compactions = host.compactions) : next.Solo := by
  rw [Solo, SlotFree, frozenRows, tables, sameView, sameFlushes, sameCompactions]
  exact solo

/-- Freezing from an idle state puts one flush in flight, or none when the
memtable is empty. -/
theorem Solo.frozen {host : Host ETag} (noFlush : host.flushes = [])
    (noCompaction : host.compactions = []) : host.frozen.Solo := by
  by_cases nothing : host.engine.view.memtable.toEntries.entries = []
  · refine Or.inl ⟨?_, noCompaction, nothing⟩
    simp [Host.frozen, nothing, noFlush]
  · refine Or.inr (Or.inl ⟨noCompaction, ?_⟩)
    simp [Host.frozen, nothing, noFlush]

theorem Solo.captured {host : Host ETag} (noFlush : host.flushes = [])
    (noCompaction : host.compactions = []) (free : host.SlotFree) : host.captured.Solo := by
  by_cases few : host.engine.view.sstables.length < 2
  · refine Or.inl ⟨noFlush, ?_, free⟩
    simp [Host.captured, few, noCompaction]
  · refine Or.inr (Or.inr ⟨noFlush, free, ?_⟩)
    simp [Host.captured, few, noCompaction, tables]

theorem Solo.step [DecidableEq ETag] {host next : Host ETag} (solo : host.Solo)
    (wired : host.Wired) (action : Action) (whole : host.Whole action)
    (taken : host.step action = some next) : next.Solo := by
  cases action with
  | write failure entries =>
      obtain ⟨rfl, idle⟩ := whole
      obtain ⟨noFlush, noCompaction, free⟩ := solo.idle idle
      rcases step_write taken with ⟨rfl, _⟩ | ⟨rfl, _⟩ | ⟨_, rfl⟩
      · exact Or.inl ⟨noFlush, noCompaction, free⟩
      · exact Solo.frozen noFlush noCompaction
      · exact Or.inl ⟨noFlush, noCompaction, free⟩
  | snapshotNow => rw [← Option.some.inj taken]; exact solo.congr rfl rfl rfl
  | releaseSnapshot seq =>
      obtain ⟨snapshots, rfl⟩ := step_releaseSnapshot taken
      exact solo.congr rfl rfl rfl
  | beginFlush =>
      obtain ⟨noFlush, noCompaction, _⟩ := solo.idle whole
      rcases step_beginFlush taken with rfl | rfl
      · exact solo
      · exact Solo.frozen noFlush noCompaction
  | finishFlush index bloom putFails =>
      obtain ⟨pending, found, ⟨_, fails⟩ | rfl⟩ := step_finishFlush taken
      · exact absurd (whole.symm.trans fails) (by simp)
      · rcases solo with ⟨noFlush, _⟩ | ⟨noCompaction, task, single⟩ | ⟨noFlush, _⟩
        · rw [noFlush] at found
          exact absurd found (by simp)
        · refine Or.inr (Or.inl ⟨noCompaction, ?_⟩)
          rw [single] at found ⊢
          cases index with
          | zero => exact ⟨_, rfl⟩
          | succ index => exact absurd found (by simp)
        · rw [noFlush] at found
          exact absurd found (by simp)
  | commitFlush index fault threshold =>
      obtain ⟨pending, table, segments, found, ⟨_, fails⟩ | ⟨_, done, rfl, outcome, _⟩⟩ :=
        step_commitFlush taken
      · rcases fails with fails | stale
        · exact absurd whole fails
        · exact absurd wired.inSync stale
      · have single : ∃ task, host.flushes = [task] ∧ host.compactions = [] := by
          rcases solo with ⟨noFlush, _⟩ | ⟨noCompaction, task, single⟩ | ⟨noFlush, _⟩
          · rw [noFlush] at found
            exact absurd found (by simp)
          · exact ⟨task, single, noCompaction⟩
          · rw [noFlush] at found
            exact absurd found (by simp)
        obtain ⟨task, single, noCompaction⟩ := single
        have noFlush : host.flushes.eraseIdx index = [] := by
          rw [single] at found ⊢
          cases index with
          | zero => rfl
          | succ index => exact absurd found (by simp)
        rcases outcome with rfl | rfl
        · exact Or.inl ⟨noFlush, noCompaction, rfl⟩
        · exact Solo.captured noFlush noCompaction rfl
  | beginCompact =>
      obtain ⟨noFlush, noCompaction, free⟩ := solo.idle whole
      rcases step_beginCompact taken with rfl | rfl
      · exact solo
      · exact Solo.captured noFlush noCompaction free
  | finishCompact index bloom putFails =>
      obtain ⟨pending, found, ⟨_, fails⟩ | ⟨table, _, rfl⟩⟩ := step_finishCompact taken
      · exact absurd (whole.symm.trans fails) (by simp)
      · rcases solo with ⟨_, noCompaction, _⟩ | ⟨noCompaction, _⟩ | ⟨noFlush, free, task, single, all⟩
        · rw [noCompaction] at found
          exact absurd found (by simp)
        · rw [noCompaction] at found
          exact absurd found (by simp)
        · refine Or.inr (Or.inr ⟨noFlush, free, ⟨pending, some table⟩, ?_⟩)
          rw [single] at found
          cases index with
          | zero =>
              have taskExact : task = ⟨pending, none⟩ := by simpa using found
              rw [taskExact] at all
              exact ⟨by simp [single], all⟩
          | succ index => exact absurd found (by simp)
  | commitCompact index saveFails deleteFails =>
      obtain ⟨pending, table, found, ⟨_, fails⟩ | ⟨_, objects, rfl, kept⟩⟩ := step_commitCompact taken
      · rcases fails with fails | stale
        · exact absurd (whole.symm.trans fails) (by simp)
        · exact absurd wired.inSync stale
      · rcases solo with ⟨_, noCompaction, _⟩ | ⟨noCompaction, _⟩ | ⟨noFlush, free, task, single, all⟩
        · rw [noCompaction] at found
          exact absurd found (by simp)
        · rw [noCompaction] at found
          exact absurd found (by simp)
        · refine Or.inl ⟨noFlush, ?_, free⟩
          change host.compactions.eraseIdx index = []
          rw [single] at found ⊢
          cases index with
          | zero => rfl
          | succ index => exact absurd found (by simp)
  | startRead key => rw [← Option.some.inj taken]; exact solo.congr rfl rfl rfl
  | endRead index => rw [← Option.some.inj taken]; exact solo.congr rfl rfl rfl
  | setLease lease => exact absurd whole (by simp [Whole])
  | reopen unreadable => exact absurd whole (by simp [Whole])

theorem Solo.careful {host : Host ETag} (solo : host.Solo) (action : Action)
    (whole : host.Whole action) (sparing : host.Sparing action) : host.Careful action := by
  cases action with
  | write failure entries => exact ⟨whole.1, sparing, fun _ => (solo.idle whole.2).2.2⟩
  | beginFlush => exact (solo.idle whole).2.2
  | commitCompact index saveFails deleteFails =>
      simp only [Careful, MayCompact]
      split
      · rename_i pending table found
        simp only [Sparing, SparesReads, found] at sparing
        rcases solo with ⟨_, noCompaction, _⟩ | ⟨noCompaction, _⟩ | ⟨_, _, task, single, all⟩
        · rw [noCompaction] at found
          exact absurd found (by simp)
        · rw [noCompaction] at found
          exact absurd found (by simp)
        · have captured : pending.sstables = host.tables := by
            rw [single] at found
            cases index with
            | zero =>
                have taskExact : task = ⟨pending, some table⟩ := by simpa using found
                rw [taskExact] at all
                exact all
            | succ index => exact absurd found (by simp)
          refine ⟨?_, ?_, sparing⟩
          · intro captive member
            exact List.mem_map.mpr ⟨captive, captured ▸ member, rfl⟩
          · -- everything was captured, so nothing survives
            intro survivor member
            obtain ⟨inView, survives⟩ := mem_survivors.mp member
            rw [captured] at survives
            exact absurd (List.mem_map.mpr ⟨survivor, inView, rfl⟩) survives
      · trivial
  | setLease lease => exact absurd whole (by simp [Whole])
  | reopen unreadable => exact absurd whole (by simp [Whole])
  | _ => trivial

theorem Solo.started (manifestEtag : Manifest → ETag) (leaseEtag : Lease → ETag)
    (lease : LeaseHandle) : (start manifestEtag leaseEtag lease).Solo :=
  Or.inl ⟨rfl, rfl, rfl⟩

end Host

variable {ETag : Type} [DecidableEq ETag]

/-- A started read of a key that is live throughout returns a value the key had
while the read ran, in every run of whole operations whose compactions spare
the started reads. -/
theorem unregistered_read_finds_live_key (manifestEtag : Manifest → ETag)
    (leaseEtag : Lease → ETag) (token : Nat) (host : Host ETag)
    (reached : Reaches Host.step (fun host action => host.Whole action ∧ host.Sparing action)
      (Host.start manifestEtag leaseEtag ⟨token, true⟩) host)
    (key : Bytes) (seq : Nat) (started : (key, seq) ∈ host.reads)
    (alive : ∀ during, seq ≤ during → during ≤ host.engine.currentSeq →
      ∃ version value, Newest host.commits key during version ∧ version.value = some value) :
    ∃ value, host.engine.readAt key seq = some value ∧
      ∃ during version, seq ≤ during ∧ during ≤ host.engine.currentSeq ∧
        Newest host.commits key during version ∧ version.value = some value := by
  have invariant := Reaches.invariant (fun host => host.Live ∧ host.Solo)
    ⟨Host.Live.started _ _ _, Host.Solo.started _ _ _⟩
    (fun host action next ⟨live, solo⟩ ⟨whole, sparing⟩ taken =>
      ⟨live.step action (solo.careful action whole sparing) taken,
        solo.step live.wired action whole taken⟩) host reached
  obtain ⟨live, _⟩ := invariant
  have bounded : seq ≤ host.engine.currentSeq :=
    Nat.le_sub_one_of_lt (live.readsBounded _ started)
  obtain ⟨version, value, newest, valueExact⟩ := alive seq le_rfl bounded
  refine ⟨value, ?_, seq, version, le_rfl, bounded, newest, valueExact⟩
  rw [(live.answers (Or.inr (Or.inr started))).1 version newest, valueExact]

def compactNow : List Action :=
  [.beginCompact, .finishCompact 0 Bloom.accepting false, .commitCompact 0 false fun _ => false]

def sparedRun : List Action :=
  [.write none [⟨"t", [1], some [7]⟩]] ++ flushNow ++ [.write none [⟨"t", [1], some [8]⟩]] ++
    flushNow ++ [.startRead [1]] ++ compactNow

theorem unregistered_read_after_overwrite : ∃ host : Host (Option Manifest),
    host.tables.map SSTable.id = [3] ∧ ∃ value, host.engine.readAt [1] 2 = some value := by
  have facts : (runChecked Host.step
      (fun host action => decide (host.Whole action ∧ host.Sparing action)) Host.fresh
      sparedRun).map (fun host => ((host.tables.map SSTable.id, host.engine.currentSeq), host.reads,
        host.history)) = some (([3], 2), [([1], 2)], [⟨1, [⟨"t", [1], some [7]⟩]⟩,
          ⟨2, [⟨"t", [1], some [8]⟩]⟩]) := by
    decide +kernel
  obtain ⟨host, ran, exact⟩ := Option.map_eq_some_iff.mp facts
  simp only [Prod.mk.injEq] at exact
  obtain ⟨⟨ids, current⟩, reads, history⟩ := exact
  have reached := runChecked_decided ran
  obtain ⟨value, found, _⟩ := unregistered_read_finds_live_key some (fun _ => none) 1 host reached
    [1] 2 (by rw [reads]; exact List.mem_singleton.mpr rfl) (by
      intro during low high
      obtain rfl : during = 2 := by omega
      refine ⟨⟨[1], 2, some [8]⟩, [8], ?_, rfl⟩
      rw [Host.commits, history]
      exact newest_of_listed (by decide))
  exact ⟨host, ids, value, found⟩

/-- The read loads its sequence, and then the key is overwritten, flushed and
merged without the version the read needs. -/
def droppedRun : List Action :=
  [.write none [⟨"t", [1], some [7]⟩]] ++ flushNow ++ [.startRead [1]] ++
    [.write none [⟨"t", [1], some [8]⟩]] ++ flushNow ++ compactNow

theorem unregistered_read_loses_live_key :
    ¬ ∀ host : Host (Option Manifest), Reaches Host.step (fun host action => host.Whole action)
        Host.fresh host → ∀ key seq, (key, seq) ∈ host.reads →
      (∀ during, seq ≤ during → during ≤ host.engine.currentSeq →
        ∃ version value, Newest host.commits key during version ∧ version.value = some value) →
      ∃ value, host.engine.readAt key seq = some value ∧
        ∃ during version, seq ≤ during ∧ during ≤ host.engine.currentSeq ∧
          Newest host.commits key during version ∧ version.value = some value := by
  intro claimed
  have facts : (runChecked Host.step (fun host action => decide (host.Whole action)) Host.fresh
      droppedRun).map (fun host => ((host.engine.readAt [1] 1, host.engine.currentSeq), host.reads,
        host.history)) = some ((none, 2), [([1], 1)], [⟨1, [⟨"t", [1], some [7]⟩]⟩,
          ⟨2, [⟨"t", [1], some [8]⟩]⟩]) := by
    decide +kernel
  obtain ⟨host, ran, exact⟩ := Option.map_eq_some_iff.mp facts
  simp only [Prod.mk.injEq] at exact
  obtain ⟨⟨read, current⟩, reads, history⟩ := exact
  have reached := runChecked_decided ran
  obtain ⟨value, found, _⟩ := claimed host reached [1] 1
    (by rw [reads]; exact List.mem_singleton.mpr rfl) (by
      intro during low high
      rw [Host.commits, history]
      obtain rfl | rfl : during = 1 ∨ during = 2 := by omega
      · exact ⟨⟨[1], 1, some [7]⟩, [7], newest_of_listed (by decide), rfl⟩
      · exact ⟨⟨[1], 2, some [8]⟩, [8], newest_of_listed (by decide), rfl⟩)
  rw [read] at found
  exact absurd found (by simp)

end Pantheon.Keystone
