import Mathlib
import Pantheon.Keystone.Durability

/-!
# Commit sequences across restarts

A restart rebuilds the counter from the manifest's maximum and from the log as
far as replay reads it.  Every batch appended where the bytes in front of it
are whole batches is reached by replay; behind a torn tail it is not, and the
next process hands its sequence out again.

Any step may fail and the process may crash and reopen between any two steps.
A crash inside an append is a failed append followed by `reopen`.
-/

set_option autoImplicit false

namespace Pantheon.Keystone

open Pantheon.Lib

/-! ## Bytes that replay reads to their end -/

inductive Unbroken : Bytes → Prop where
  | nil : Unbroken []
  | batch {seqField countField body rest : Bytes} {records : List WalRecord}
      (seqWidth : seqField.length = 8) (countWidth : countField.length = 4)
      (parsed : parseRecords (ofBe seqField) (ofBe countField) body = some (records, rest))
      (behind : Unbroken rest) : Unbroken (batchMarker :: (seqField ++ (countField ++ body)))

/-- The batch loop, asked whether it reads the bytes to their end. -/
def readsToEnd : Nat → Bytes → Bool
  | 0, _ => false
  | fuel + 1, buf =>
      if buf = [] then true
      else if buf.length < 1 + 8 + 4 ∨ buf.head? ≠ some batchMarker then false
      else
        match parseRecords (ofBe ((buf.drop 1).take 8)) (ofBe ((buf.drop 9).take 4))
          (buf.drop 13) with
        | none => false
        | some (_, rest) => readsToEnd fuel rest

theorem unbroken_of_readsToEnd : ∀ (fuel : Nat) (buf : Bytes),
    readsToEnd fuel buf = true → Unbroken buf := by
  intro fuel
  induction fuel with
  | zero => intro buf reads; exact absurd reads (by simp [readsToEnd])
  | succ fuel ih =>
      intro buf reads
      unfold readsToEnd at reads
      split_ifs at reads with empty stop
      · rw [empty]
        exact Unbroken.nil
      · push Not at stop
        obtain ⟨long, marked⟩ := stop
        split at reads
        · exact absurd reads (by simp)
        · rename_i records rest parsed
          rw [split_header buf long marked]
          exact Unbroken.batch (by simp; omega) (by simp; omega) parsed (ih rest reads)

theorem Unbroken.replayFrom_append {front : Bytes} (unbroken : Unbroken front) (rest : Bytes) :
    ∀ maxSeq, replayFrom (front ++ rest) maxSeq =
      ((replayFrom front maxSeq).1 ++ (replayFrom rest (replayFrom front maxSeq).2).1,
        (replayFrom rest (replayFrom front maxSeq).2).2) := by
  induction unbroken with
  | nil => intro maxSeq; simp
  | @batch seqField countField body behindBytes records seqWidth countWidth parsed behind ih =>
      intro maxSeq
      have extended := parseRecords_extend _ _ _ _ rest _ parsed
      rw [List.cons_append, List.append_assoc, List.append_assoc,
        replayFrom_header _ _ _ _ seqWidth countWidth,
        replayFrom_header _ _ _ _ seqWidth countWidth, parsed, extended]
      simp only [ih, List.append_assoc]

theorem Unbroken.append {front back : Bytes} (unbroken : Unbroken front)
    (backUnbroken : Unbroken back) : Unbroken (front ++ back) := by
  induction unbroken with
  | nil => exact backUnbroken
  | batch seqWidth countWidth parsed _ ih =>
      rw [List.cons_append, List.append_assoc, List.append_assoc]
      exact Unbroken.batch seqWidth countWidth (parseRecords_extend _ _ _ _ back _ parsed) ih

theorem unbroken_encodeBatch (batch : WalBatch) (fits : batch.Fits) :
    Unbroken (encodeBatch batch) := by
  have parsed := parseRecords_encode (ofBe (beBytes 8 batch.commitSeq)) batch.entries []
    fits.entries
  rw [← ofBe_beBytes_four _ fits.count] at parsed
  rw [← List.append_nil (encodeBatch batch), encodeBatch_append]
  exact Unbroken.batch (beBytes_length _ _) (beBytes_length _ _) parsed Unbroken.nil

theorem unbroken_encodeBatches (batches : List WalBatch) (fits : ∀ batch ∈ batches, batch.Fits) :
    Unbroken (encodeBatches batches) := by
  induction batches with
  | nil => exact Unbroken.nil
  | cons batch batches ih =>
      exact (unbroken_encodeBatch batch (fits batch List.mem_cons_self)).append
        (ih fun other member => fits other (List.mem_cons_of_mem _ member))

theorem le_replayLoop : ∀ (fuel : Nat) (buf : Bytes) (maxSeq : Nat),
    maxSeq ≤ (replayLoop fuel buf maxSeq).2 := by
  intro fuel
  induction fuel with
  | zero => intro buf maxSeq; exact le_rfl
  | succ fuel ih =>
      intro buf maxSeq
      unfold replayLoop
      split_ifs
      · exact le_rfl
      · simp only
        split
        · exact le_max_left _ _
        · exact (le_max_left _ _).trans (ih _ _)

theorem le_replayFrom (buf : Bytes) (maxSeq : Nat) : maxSeq ≤ (replayFrom buf maxSeq).2 :=
  le_replayLoop _ buf maxSeq

theorem replayLoop_bounded : ∀ (fuel : Nat) (buf : Bytes) (maxSeq : Nat),
    ∀ record ∈ (replayLoop fuel buf maxSeq).1, record.seq ≤ (replayLoop fuel buf maxSeq).2 := by
  intro fuel
  induction fuel with
  | zero => intro buf maxSeq record member; exact absurd member List.not_mem_nil
  | succ fuel ih =>
      intro buf maxSeq record
      unfold replayLoop
      split_ifs
      · exact fun member => absurd member List.not_mem_nil
      · simp only
        split
        · exact fun member => absurd member List.not_mem_nil
        · rename_i records rest parsed
          intro member
          rcases List.mem_append.mp member with member | member
          · rw [parseRecords_seq _ _ _ _ _ parsed record member]
            exact (le_max_right _ _).trans (le_replayLoop _ _ _)
          · exact ih _ _ record member

theorem Unbroken.maxSeq_le {front file : Bytes} (unbroken : Unbroken front)
    (stands : front <+: file) : (replayFrom front 0).2 ≤ (replayFrom file 0).2 := by
  obtain ⟨rest, rfl⟩ := stands
  rw [unbroken.replayFrom_append]
  exact le_replayFrom _ _

theorem stands_writeAt {front file : Bytes} {offset : Nat} (stands : front <+: file)
    (settled : front.length ≤ offset) (data : Bytes) : front <+: writeAt file offset data := by
  have before : front <+: file.take offset := List.prefix_take_iff.mpr ⟨stands, settled⟩
  unfold writeAt
  rw [List.append_assoc, List.append_assoc]
  exact before.trans (List.prefix_append _ _)

/-! ## The invariant -/

namespace Host

variable {ETag : Type}

/-- The bytes in front of the append position are whole batches, and the batch
fits its fields. -/
def AppendsWhole (host : Host ETag) (entries : List BatchEntry) : Prop :=
  host.engine.write.wal.io.offset ≤ host.walFile.length ∧
    Unbroken (host.walFile.take host.engine.write.wal.io.offset) ∧ host.FitsLog entries

/-- The condition on each step: only an append that succeeds has one. -/
def Continues (host : Host ETag) : Action → Prop
  | .write none entries => host.AppendsWhole entries
  | _ => True

/-- `front` is the part of the log that replay is sure to read: every
acknowledged sequence is in it or below the manifest's maximum. -/
structure Sequenced (host : Host ETag) (front : Bytes) : Prop where
  increasing : host.history.Pairwise fun earlier later => earlier.seq < later.seq
  bounded : ∀ commit ∈ host.history, commit.seq < host.engine.write.nextCommitSeq
  unbroken : Unbroken front
  stands : front <+: host.walFile
  settled : front.length ≤ host.engine.write.wal.io.offset
  recorded : ∀ commit ∈ host.history,
    commit.seq ≤ max host.manifestMaxSeq (replayFrom front 0).2

variable {host next : Host ETag} {front : Bytes}

theorem Sequenced.keep (sequenced : host.Sequenced front) (sameHistory : next.history = host.history)
    (counted : host.engine.write.nextCommitSeq ≤ next.engine.write.nextCommitSeq)
    (sameManifest : next.store.manifest = host.store.manifest) (stands : front <+: next.walFile)
    (settled : front.length ≤ next.engine.write.wal.io.offset) : next.Sequenced front := by
  refine ⟨?_, ?_, sequenced.unbroken, stands, settled, ?_⟩
  · rw [sameHistory]; exact sequenced.increasing
  · rw [sameHistory]
    intro commit member
    exact (sequenced.bounded commit member).trans_le counted
  · rw [sameHistory, manifestMaxSeq, sameManifest]
    exact sequenced.recorded

theorem Sequenced.saved (sequenced : host.Sequenced front) (sameHistory : next.history = host.history)
    (sameNext : next.engine.write.nextCommitSeq = host.engine.write.nextCommitSeq)
    (recorded : next.manifestMaxSeq = host.engine.write.nextCommitSeq - 1) :
    next.Sequenced [] := by
  refine ⟨?_, ?_, Unbroken.nil, List.nil_prefix, Nat.zero_le _, ?_⟩
  · rw [sameHistory]; exact sequenced.increasing
  · rw [sameHistory, sameNext]; exact sequenced.bounded
  · rw [sameHistory, recorded]
    intro commit member
    exact (Nat.le_sub_one_of_lt (sequenced.bounded commit member)).trans (le_max_left _ _)

theorem Sequenced.logged (sequenced : host.Sequenced front) (entries : List BatchEntry) :
    Sequenced { host.applied entries with history := host.history } front := by
  refine sequenced.keep rfl (Nat.le_succ _) rfl
    (stands_writeAt sequenced.stands sequenced.settled _) ?_
  exact sequenced.settled.trans (Nat.le_add_right _ _)

theorem Sequenced.applied (sequenced : host.Sequenced front) {entries : List BatchEntry}
    (appends : host.AppendsWhole entries) :
    (host.applied entries).Sequenced
      (host.walFile.take host.engine.write.wal.io.offset ++
        encodeBatch (Commit.walBatch ⟨host.engine.write.nextCommitSeq, entries⟩)) := by
  obtain ⟨within, whole, fits⟩ := appends
  set commit : Commit := ⟨host.engine.write.nextCommitSeq, entries⟩ with commitExact
  have historyExact : (host.applied entries).history = host.history ++ [commit] := rfl
  have fileExact : (host.applied entries).walFile =
      writeAt host.walFile host.engine.write.wal.io.offset (encodeBatch commit.walBatch) := rfl
  have reads := whole.replayFrom_append (encodeBatch commit.walBatch) 0
  have single := replayFrom_encodeBatch commit.walBatch fits []
    (replayFrom (host.walFile.take host.engine.write.wal.io.offset) 0).2
  rw [List.append_nil, replayFrom_nil] at single
  refine ⟨?_, ?_, whole.append (unbroken_encodeBatch _ fits), ?_, ?_, ?_⟩
  · rw [historyExact]
    refine List.pairwise_append.mpr ⟨sequenced.increasing, List.pairwise_singleton _ _, ?_⟩
    intro earlier earlierMember later laterMember
    rw [List.mem_singleton.mp laterMember]
    exact sequenced.bounded earlier earlierMember
  · rw [historyExact]
    intro other member
    rcases List.mem_append.mp member with member | member
    · exact (sequenced.bounded other member).trans (Nat.lt_succ_self _)
    · rw [List.mem_singleton.mp member]
      exact Nat.lt_succ_self _
  · rw [fileExact, writeAt, Nat.sub_eq_zero_of_le within, List.replicate_zero, List.append_nil]
    exact List.prefix_append _ _
  · rw [List.length_append]
    exact Nat.add_le_add_right (List.length_take_le _ _) _
  · rw [historyExact, reads, single]
    intro other member
    rcases List.mem_append.mp member with member | member
    · have before : front <+: host.walFile.take host.engine.write.wal.io.offset :=
        List.prefix_take_iff.mpr ⟨sequenced.stands, sequenced.settled⟩
      have grows := sequenced.unbroken.maxSeq_le before
      exact (sequenced.recorded other member).trans
        (max_le_max le_rfl (grows.trans (le_max_left _ _)))
    · rw [List.mem_singleton.mp member]
      exact (le_max_right _ _).trans (le_max_right _ _)

theorem Sequenced.reopened (sequenced : host.Sequenced front) (unreadable : Nat → Bool) :
    Sequenced { host with
      engine := LsmEngine.openEngine host.walFile host.store host.engine.lease unreadable
      flushes := [], compactions := [], reads := [] } front := by
  refine ⟨sequenced.increasing, ?_, sequenced.unbroken, sequenced.stands,
    sequenced.stands.length_le, sequenced.recorded⟩
  intro commit member
  have replayed := sequenced.unbroken.maxSeq_le sequenced.stands
  have recorded := sequenced.recorded commit member
  simp only [LsmEngine.openEngine, Wal.replay, Wal.openFile, ObjectStore.loadManifest_getD]
  rw [Nat.lt_succ_iff]
  refine recorded.trans (max_le (le_max_right _ _) ?_)
  exact (replayed.trans (le_max_left _ _)).trans (le_max_left _ _)

theorem Sequenced.started (manifestEtag : Manifest → ETag) (leaseEtag : Lease → ETag)
    (lease : LeaseHandle) : (start manifestEtag leaseEtag lease).Sequenced [] := by
  refine ⟨List.Pairwise.nil, ?_, Unbroken.nil, List.nil_prefix, Nat.zero_le _, ?_⟩ <;>
  · intro commit member
    exact absurd member List.not_mem_nil

theorem Sequenced.step [DecidableEq ETag] (sequenced : host.Sequenced front) (action : Action)
    (continues : host.Continues action) (taken : host.step action = some next) :
    ∃ front, next.Sequenced front := by
  have same : ∀ {next : Host ETag}, next.history = host.history →
      next.engine.write.nextCommitSeq = host.engine.write.nextCommitSeq →
      next.engine.write.wal = host.engine.write.wal →
      next.store.manifest = host.store.manifest → ∃ front, next.Sequenced front := by
    intro next sameHistory sameNext sameWal sameManifest
    refine ⟨front, sequenced.keep sameHistory sameNext.ge sameManifest ?_ ?_⟩
    · rw [walFile, sameWal]; exact sequenced.stands
    · rw [sameWal]; exact sequenced.settled
  cases action with
  | write failure entries =>
      cases failure with
      | none =>
          have applied := sequenced.applied continues
          rcases step_write taken with ⟨rfl, _⟩ | ⟨rfl, _⟩ | ⟨_, rfl⟩
          · exact ⟨_, applied⟩
          · exact ⟨_, applied.keep rfl le_rfl rfl applied.stands applied.settled⟩
          · exact ⟨front, sequenced.logged entries⟩
      | some written =>
          rw [step_write_failed taken]
          exact ⟨front, sequenced.keep rfl (Nat.le_succ _) rfl
            (stands_writeAt sequenced.stands sequenced.settled _) sequenced.settled⟩
  | snapshotNow =>
      rw [← Option.some.inj taken]
      exact same rfl rfl rfl rfl
  | releaseSnapshot seq =>
      obtain ⟨snapshots, rfl⟩ := step_releaseSnapshot taken
      exact same rfl rfl rfl rfl
  | beginFlush =>
      rcases step_beginFlush taken with rfl | rfl <;> exact same rfl rfl rfl rfl
  | finishFlush index bloom putFails =>
      obtain ⟨pending, _, ⟨rfl, _⟩ | rfl⟩ := step_finishFlush taken <;> exact same rfl rfl rfl rfl
  | commitFlush index fault threshold =>
      obtain ⟨pending, table, segments, _, ⟨rfl, _⟩ | ⟨_, done, rfl, rfl | rfl, _⟩⟩ :=
        step_commitFlush taken
      · exact same rfl rfl rfl rfl
      · exact ⟨[], sequenced.saved rfl rfl rfl⟩
      · exact ⟨[], sequenced.saved rfl rfl rfl⟩
  | beginCompact =>
      rcases step_beginCompact taken with rfl | rfl <;> exact same rfl rfl rfl rfl
  | finishCompact index bloom putFails =>
      obtain ⟨pending, _, ⟨rfl, _⟩ | ⟨table, _, rfl⟩⟩ := step_finishCompact taken <;>
        exact same rfl rfl rfl rfl
  | commitCompact index saveFails deleteFails =>
      obtain ⟨pending, table, _, ⟨rfl, _⟩ | ⟨_, objects, rfl, _⟩⟩ := step_commitCompact taken
      · exact same rfl rfl rfl rfl
      · exact ⟨[], sequenced.saved rfl rfl rfl⟩
  | startRead key =>
      rw [← Option.some.inj taken]
      exact same rfl rfl rfl rfl
  | endRead index =>
      rw [← Option.some.inj taken]
      exact same rfl rfl rfl rfl
  | setLease lease =>
      rw [← Option.some.inj taken]
      exact same rfl rfl rfl rfl
  | reopen unreadable =>
      rw [← Option.some.inj taken]
      exact ⟨front, sequenced.reopened unreadable⟩

end Host

variable {ETag : Type} [DecidableEq ETag]

/-- Over any run with faults, crashes and reopens in which batches are
acknowledged only behind whole batches, every acknowledged batch has a sequence
above all acknowledged before it. -/
theorem commit_sequences_increase (manifestEtag : Manifest → ETag) (leaseEtag : Lease → ETag)
    (lease : LeaseHandle) (host : Host ETag)
    (reached : Reaches Host.step Host.Continues (Host.start manifestEtag leaseEtag lease) host) :
    host.history.Pairwise fun earlier later => earlier.seq < later.seq := by
  obtain ⟨front, sequenced⟩ := Reaches.invariant (fun host => ∃ front, host.Sequenced front)
    ⟨[], Host.Sequenced.started _ _ _⟩
    (fun host action next ⟨front, sequenced⟩ continues taken =>
      sequenced.step action continues taken) host reached
  exact sequenced.increasing

def continuesCheck (host : Host (Option Manifest)) : Action → Bool
  | .write none entries =>
      decide (host.engine.write.wal.io.offset ≤ host.walFile.length) &&
        readsToEnd (host.walFile.length + 1)
          (host.walFile.take host.engine.write.wal.io.offset) &&
        decide (host.FitsLog entries)
  | _ => true

theorem continuesCheck_sound (host : Host (Option Manifest)) (action : Action)
    (checked : continuesCheck host action = true) : host.Continues action := by
  cases action with
  | write failure entries =>
      cases failure with
      | none =>
          simp only [continuesCheck, Bool.and_eq_true, decide_eq_true_eq] at checked
          exact ⟨checked.1.1, unbroken_of_readsToEnd _ _ checked.1.2, checked.2⟩
      | some _ => trivial
  | _ => trivial

/-- A failed append is overwritten; a second one is left torn by a crash, and
the next flush truncates it away before anything is appended behind it. -/
def tornThenFlushedRun : List Action :=
  [.write none [⟨"t", [1], some [7]⟩], .write (some 20) [⟨"t", [2], some [7]⟩],
    .write none [⟨"t", [1], some [8]⟩], .write (some 20) [⟨"t", [2], some [7]⟩],
    .reopen fun _ => false, .beginFlush, .finishFlush 0 Bloom.accepting false,
    .commitFlush 0 none 4, .write none [⟨"t", [1], some [9]⟩]]

theorem commit_sequences_increase_after_torn_append :
    ∃ host, runChecked Host.step continuesCheck Host.fresh tornThenFlushedRun = some host ∧
      host.history.map Commit.seq = [1, 3, 5] ∧
      host.history.Pairwise fun earlier later => earlier.seq < later.seq := by
  have facts : (runChecked Host.step continuesCheck Host.fresh tornThenFlushedRun).map
      (fun host => host.history.map Commit.seq) = some [1, 3, 5] := by
    decide +kernel
  obtain ⟨host, ran, exact⟩ := Option.map_eq_some_iff.mp facts
  have reached := runChecked_reaches continuesCheck continuesCheck_sound tornThenFlushedRun
    Host.fresh host ran
  exact ⟨host, ran, exact, commit_sequences_increase some (fun _ => none) ⟨1, true⟩ host reached⟩

/-- A batch is acknowledged behind a torn one, and the process crashes again. -/
def behindTornRun : List Action :=
  [.write none [⟨"t", [1], some [7]⟩], .write (some 20) [⟨"t", [1], some [7]⟩],
    .reopen fun _ => false, .write none [⟨"t", [1], some [8]⟩], .reopen fun _ => false,
    .write none [⟨"t", [1], some [9]⟩]]

/-- The batch after the second restart gets the sequence of the one before it. -/
theorem commit_sequence_reused_behind_torn_tail :
    ¬ ∀ host : Host (Option Manifest), Reaches Host.step (fun _ _ => True) Host.fresh host →
      host.history.Pairwise fun earlier later => earlier.seq < later.seq := by
  intro claimed
  have facts : (runChecked Host.step (fun _ _ => true) Host.fresh behindTornRun).map
      (fun host => host.history.map Commit.seq) = some [1, 3, 3] := by
    decide +kernel
  obtain ⟨host, ran, exact⟩ := Option.map_eq_some_iff.mp facts
  have reached := runChecked_unguarded ran
  have increasing := List.pairwise_map.mpr (claimed host reached)
  rw [exact] at increasing
  exact absurd increasing (by decide)

end Pantheon.Keystone
