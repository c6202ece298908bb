import Mathlib
import Pantheon.Keystone.LiveReads

/-!
# Reads over whole runs

`read_at` at the current sequence or at a registered snapshot answers for the
history of all acknowledged batches, in every run whose steps are careful.
Flushing over an occupied immutable slot hides the frozen rows, and a
compaction that commits behind a younger flush is probed before it.
-/

set_option autoImplicit false

namespace Pantheon.Keystone

open Pantheon.Lib

variable {ETag : Type} [DecidableEq ETag]

/-- Every run of careful steps reads correctly at every sequence that is
current or registered. -/
theorem readAt_answers_history (manifestEtag : Manifest → ETag) (leaseEtag : Lease → ETag)
    (token : Nat) (host : Host ETag)
    (reached : Reaches Host.step (fun host action => action.Succeeds ∧ host.Careful action)
      (Host.start manifestEtag leaseEtag ⟨token, true⟩) host) :
    ∀ key seq, seq = host.engine.currentSeq ∨ host.Registered seq →
      Answers host.commits key seq (host.engine.readAt key seq) := by
  intro key seq watched
  have live := Host.Live.of_reaches (fun host action guard => guard.2) host reached
  refine live.answers ?_
  rcases watched with current | registered
  · exact Or.inl current
  · exact Or.inr (Or.inl registered)

def flushNow : List Action :=
  [.beginFlush, .finishFlush 0 Bloom.accepting false, .commitFlush 0 none 4]

/-- Two flushed tables, a snapshot, a third flush and a compaction of all three. -/
def carefulRun : List Action :=
  [.write none [⟨"t", [1], some [7]⟩]] ++ flushNow ++ [.write none [⟨"t", [2], some [7]⟩]] ++
    flushNow ++ [.snapshotNow, .write none [⟨"t", [1], none⟩]] ++ flushNow ++
    [.beginCompact, .finishCompact 0 Bloom.accepting false, .commitCompact 0 false fun _ => false]

/-- The careful run reaches a state whose only table is the merged one. -/
theorem readAt_answers_history_compacted :
    ∃ host, (runChecked Host.step (fun host action => decide (action.Succeeds ∧ host.Careful action))
        Host.fresh carefulRun) = some host ∧ host.tables.map SSTable.id = [4] ∧
      Answers host.commits [1] 3 (host.engine.readAt [1] 3) ∧
      Answers host.commits [1] 2 (host.engine.readAt [1] 2) := by
  have facts : (runChecked Host.step (fun host action => decide (action.Succeeds ∧ host.Careful action))
      Host.fresh carefulRun).map (fun host => (host.tables.map SSTable.id, host.engine.currentSeq,
        host.engine.write.openSnapshots.toList)) = some ([4], 3, [(2, 1)]) := by
    decide +kernel
  obtain ⟨host, ran, exact⟩ := Option.map_eq_some_iff.mp facts
  obtain ⟨ids, current, snapshots⟩ : host.tables.map SSTable.id = [4] ∧
      host.engine.currentSeq = 3 ∧ host.engine.write.openSnapshots.toList = [(2, 1)] := by
    simpa using exact
  have reached := runChecked_decided ran
  refine ⟨host, ran, ids, ?_, ?_⟩
  · exact readAt_answers_history some (fun _ => none) 1 host reached [1] 3 (Or.inl current.symm)
  · refine readAt_answers_history some (fun _ => none) 1 host reached [1] 2 (Or.inr ⟨1, ?_⟩)
    rw [snapshots]
    exact List.mem_singleton.mpr rfl

/-- A compaction is captured, a younger table is flushed, and then the
compaction commits. -/
def overtakenRun : List Action :=
  [.write none [⟨"t", [1], some [7]⟩]] ++ flushNow ++ [.write none [⟨"t", [2], some [7]⟩]] ++
    flushNow ++ [.beginCompact, .finishCompact 0 Bloom.accepting false] ++
    [.write none [⟨"t", [1], some [8]⟩]] ++ flushNow ++ [.commitCompact 0 false fun _ => false]

/-- The merged table is probed before the younger one and serves the old value. -/
theorem readAt_stale_after_overtaken_compaction :
    ¬ ∀ host, Reaches Host.step (fun _ action => action.Succeeds) Host.fresh host →
      ∀ key seq, seq = host.engine.currentSeq ∨ host.Registered seq →
        Answers host.commits key seq (host.engine.readAt key seq) := by
  intro claimed
  have facts : (runChecked Host.step (fun _ action => decide action.Succeeds) Host.fresh
      overtakenRun).map (fun host => (host.engine.readAt [1] 3, host.engine.currentSeq,
        host.history)) = some (some [7], 3, [⟨1, [⟨"t", [1], some [7]⟩]⟩,
          ⟨2, [⟨"t", [2], some [7]⟩]⟩, ⟨3, [⟨"t", [1], some [8]⟩]⟩]) := by
    decide +kernel
  obtain ⟨host, ran, exact⟩ := Option.map_eq_some_iff.mp facts
  simp only [Prod.mk.injEq] at exact
  obtain ⟨read, current, history⟩ := exact
  have reached := runChecked_decided ran
  have newest : Newest host.commits [1] 3 ⟨[1], 3, some [8]⟩ := by
    rw [Host.commits, history]
    exact newest_of_listed (by decide)
  have answered := (claimed host reached [1] 3 (Or.inl current.symm)).1 _ newest
  rw [read] at answered
  exact absurd answered (by decide)

end Pantheon.Keystone
