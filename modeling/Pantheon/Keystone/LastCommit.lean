import Mathlib
import Pantheon.Keystone.Settled

/-!
# The last commit wins

`commit_txn` hands its staged writes to `write_batch` without asking what was
committed since the transaction's snapshot.  So every commit goes through, and
a row is what the last transaction to commit it staged.
-/

set_option autoImplicit false

namespace Pantheon.Keystone

open Pantheon.Lib

variable {ETag : Type}

def lastStaged (calls : List CommitCall) : Bytes → Option Bytes :=
  calls.foldl (fun rows call => overlay call.staged.get? rows) fun _ => none

theorem lastStaged_append (calls : List CommitCall) (call : CommitCall) :
    lastStaged (calls ++ [call]) = overlay call.staged.get? (lastStaged calls) := by
  rw [lastStaged, List.foldl_append]
  rfl

theorem lastStaged_of_staged (calls : List CommitCall) (call : CommitCall) {key : Bytes}
    {value : Option Bytes} (written : call.staged.get? key = some value) :
    lastStaged (calls ++ [call]) key = value := by
  rw [lastStaged_append, overlay_some written]

theorem overlay_empty {rows : Bytes → Option Bytes} {staged : OrdMap Bytes (Option Bytes)}
    (empty : staged.toList = []) : overlay staged.get? rows = rows := by
  funext key
  refine overlay_none ?_ rows
  rw [OrdMap.get?_eq_none, empty]
  exact fun entry member => absurd member List.not_mem_nil

theorem writesOf_singleton (table : String) (compositeKey : Bytes) (value : Option Bytes) :
    Host.writesOf [⟨table, compositeKey, value⟩] =
      (OrdMap.empty.insert compositeKey value : OrdMap Bytes (Option Bytes)).get? := by
  funext key
  rw [OrdMap.get?_insert]
  by_cases same : compositeKey = key
  · simp [Host.writesOf, same]
  · rw [if_neg (Ne.symm same)]
    simp [Host.writesOf, same, OrdMap.get?]

namespace Database

/-- Every commit so far returned `Ok`, and the rows are those of the last ones. -/
structure LastWins (database : Database ETag) : Prop where
  settled : database.Settled
  writer : database.role = .writer
  succeeded : ∀ call ∈ database.calls, call.result = .ok ()
  latest : database.host.latest = lastStaged database.calls

variable {database : Database ETag}

theorem LastWins.quiet (wins : database.LastWins) {next : Database ETag} (settled : next.Settled)
    (sameRole : next.role = database.role) (sameCalls : next.calls = database.calls)
    (sameView : next.host.engine.view = database.host.engine.view)
    (sameSeq : next.host.engine.currentSeq = database.host.engine.currentSeq) :
    next.LastWins := by
  refine ⟨settled, sameRole.trans wins.writer, ?_, ?_⟩
  · rw [sameCalls]
    exact wins.succeeded
  · have sameRows : next.host.latest = database.host.latest := by
      funext key
      rw [Host.latest, Host.latest, LsmEngine.readAt, LsmEngine.readAt, sameView, sameSeq]
    rw [sameRows, sameCalls]
    exact wins.latest

theorem LastWins.record (wins : database.LastWins) {next : Database ETag} {call : CommitCall}
    (settled : next.Settled) (sameRole : next.role = database.role)
    (appended : next.calls = database.calls ++ [call]) (succeeded : call.result = .ok ())
    (written : next.host.latest = overlay call.staged.get? database.host.latest) :
    next.LastWins := by
  refine ⟨settled, sameRole.trans wins.writer, ?_, ?_⟩
  · intro made member
    rw [appended] at member
    rcases List.mem_append.mp member with member | member
    · exact wins.succeeded made member
    · rw [List.mem_singleton.mp member]
      exact succeeded
  · rw [appended, lastStaged_append, ← wins.latest]
    exact written

theorem Settled.forget (settled : database.Settled) (calls : List CommitCall) :
    Settled { database with calls := calls } :=
  ⟨settled.live, settled.rest, settled.pinned, settled.keyed⟩

/-- The end of a transaction leaves the rows as they are. -/
structure Closed (database : Database ETag) (index : Nat) (next : Database ETag) : Prop where
  role : next.role = database.role
  calls : next.calls = database.calls
  view : next.host.engine.view = database.host.engine.view
  counted : next.host.engine.write.nextCommitSeq = database.host.engine.write.nextCommitSeq
  handles : next.handles = (database.restage index closed).handles

theorem finish_closed (database : Database ETag) (index : Nat) :
    database.Closed index (database.finish index) := by
  rcases database.finish_cases index with ⟨absent, same⟩ | ⟨handle, _, ⟨_, same⟩ | ⟨_, same⟩⟩
  · rw [same]
    refine ⟨rfl, rfl, rfl, rfl, ?_⟩
    rw [restage, List.modify_eq_self (List.getElem?_eq_none_iff.mp absent)]
  · rw [same]
    exact ⟨rfl, rfl, rfl, rfl, rfl⟩
  · rw [same]
    refine ⟨rfl, rfl, releaseSnapshot_view _ _, ?_, rfl⟩
    unfold LsmEngine.releaseSnapshot
    split <;> rfl

theorem LastWins.finish (wins : database.LastWins) (index : Nat) :
    (database.finish index).LastWins := by
  have closed := database.finish_closed index
  refine wins.quiet (wins.settled.finish index) closed.role closed.calls closed.view ?_
  rw [LsmEngine.currentSeq, LsmEngine.currentSeq, closed.counted]

theorem LastWins.started (manifestEtag : Manifest → ETag) (leaseEtag : Lease → ETag)
    (token : Nat) : (start manifestEtag leaseEtag token).LastWins := by
  have settled := Settled.started manifestEtag leaseEtag token
  refine ⟨settled, rfl, fun call member => absurd member List.not_mem_nil, ?_⟩
  funext key
  have answers : Answers (start manifestEtag leaseEtag token).host.commits key
      (start manifestEtag leaseEtag token).host.engine.currentSeq
        ((start manifestEtag leaseEtag token).host.latest key) :=
    settled.live.answers (Or.inl rfl)
  refine answers.2 fun version member _ => ?_
  exact absurd member (by simp [Host.commits, start, Host.start, committed])

variable [DecidableEq ETag]

theorem LastWins.autocommit (wins : database.LastWins) {io : Io} (sound : io.Succeeds)
    (table : String) (key : Bytes) (value : Option Bytes) :
    (database.autocommit io table key value).1.LastWins := by
  have distinct : DistinctKeys [⟨table, makeKey table key, value⟩] := List.nodup_singleton _
  obtain ⟨succeeded, applied⟩ := wins.settled.persist sound distinct
  have notReader : ¬ database.role = .reader := by rw [wins.writer]; decide
  unfold Database.autocommit
  simp only [notReader, if_false, recorded]
  refine wins.record (applied.settled.forget _) applied.role
    (congrArg (· ++ [_]) applied.calls) succeeded ?_
  rw [← writesOf_singleton table]
  exact applied.latest

theorem LastWins.commitTxn (wins : database.LastWins) (index : Nat) {io : Io}
    (sound : io.Succeeds) : (database.commitTxn index io).1.LastWins := by
  unfold Database.commitTxn
  cases held : database.handles[index]? with
  | none => exact wins
  | some handle =>
      have finished := wins.finish index
      have closed := database.finish_closed index
      simp only [recorded]
      split_ifs with empty reader
      · refine finished.record (finished.settled.forget _) rfl rfl rfl ?_
        exact (overlay_empty empty).symm
      · rw [wins.writer] at reader
        exact absurd reader (by decide)
      · have distinct := commitEntries_distinct handle.txn.staged
        obtain ⟨succeeded, applied⟩ := finished.settled.persist sound distinct
        refine finished.record (applied.settled.forget _) applied.role
          (congrArg (· ++ [_]) applied.calls) succeeded ?_
        rw [← writesOf_commitEntries (wins.settled.keyed handle (List.mem_of_getElem? held))]
        exact applied.latest

theorem LastWins.step {next : Database ETag} (wins : database.LastWins) (call : DatabaseCall)
    (succeeds : call.Succeeds) (taken : database.step call = some next) : next.LastWins := by
  cases call with
  | beginTxn =>
      cases Option.some.inj taken
      exact wins.quiet wins.settled.beginTxn rfl rfl rfl rfl
  | txnRead index table key =>
      cases Option.some.inj taken
      exact wins
  | txnScan index table =>
      cases Option.some.inj taken
      exact wins
  | txnWrite index io table key value =>
      cases Option.some.inj taken
      cases index with
      | none => exact wins.autocommit succeeds table key (some value)
      | some index =>
          refine wins.quiet ?_ rfl rfl rfl rfl
          exact wins.settled.stage index table key (some value) _
            fun txn => stageWrite_cases txn _ value
  | txnDelete index io table key =>
      cases Option.some.inj taken
      cases index with
      | none => exact wins.autocommit succeeds table key none
      | some index =>
          refine wins.quiet ?_ rfl rfl rfl rfl
          exact wins.settled.stage index table key none _ fun txn => stageDelete_cases txn _
  | commitTxn index io =>
      simp only [Database.step] at taken
      split_ifs at taken
      cases Option.some.inj taken
      exact wins.commitTxn index succeeds
  | rollbackTxn index =>
      cases Option.some.inj taken
      exact wins.finish index

theorem LastWins.of_reaches (manifestEtag : Manifest → ETag) (leaseEtag : Lease → ETag)
    (token : Nat) : ∀ database, Reaches Database.step (fun _ call => call.Succeeds)
      (start manifestEtag leaseEtag token) database → database.LastWins :=
  Reaches.invariant LastWins (LastWins.started manifestEtag leaseEtag token)
    fun _ call _ wins succeeds taken => wins.step call succeeds taken

/-- Of two overlapping transactions that staged the same key at most one commits. -/
def AtMostOneCommits (calls : List CommitCall) : Prop :=
  ∀ (early late : Nat) (first second : CommitCall) (key : Bytes), early < late →
    calls[early]? = some first → calls[late]? = some second →
    first.handle ≠ none → second.handle ≠ none → first.handle ≠ second.handle →
    second.begun ≤ early → first.staged.get? key ≠ none → second.staged.get? key ≠ none →
    ¬ (first.result = .ok () ∧ second.result = .ok ())

/-- In every run of calls whose I/O succeeds every commit returns `Ok`, and
every row reads as the last transaction that committed it staged it. -/
theorem commitTxn_last_commit_wins (manifestEtag : Manifest → ETag) (leaseEtag : Lease → ETag)
    (token : Nat) (database : Database ETag)
    (reached : Reaches Database.step (fun _ call => call.Succeeds)
      (start manifestEtag leaseEtag token) database) :
    (∀ call ∈ database.calls, call.result = .ok ()) ∧
      ∀ key, database.host.engine.readAt key database.host.engine.currentSeq =
        lastStaged database.calls key := by
  have wins := LastWins.of_reaches manifestEtag leaseEtag token database reached
  exact ⟨wins.succeeded, congrFun wins.latest⟩

def fresh : Database (Option Manifest) := start some (fun _ => none) 1

def overlappingWrites : List DatabaseCall :=
  [.beginTxn, .beginTxn, .txnWrite (some 0) Io.sound "t" [1] [7],
    .txnWrite (some 1) Io.sound "t" [1] [8], .commitTxn 0 Io.sound, .commitTxn 1 Io.sound]

def overlapped : Option (Database (Option Manifest)) :=
  runChecked Database.step (fun _ call => decide call.Succeeds) fresh overlappingWrites

theorem overlappingWrites_ran : ∃ database first second,
    Reaches Database.step (fun _ call => call.Succeeds) fresh database ∧
      database.calls = [first, second] ∧
      (first.handle = some 0 ∧ first.staged.toList = [([116, 0, 1], some [7])]) ∧
      second.handle = some 1 ∧ second.begun = 0 ∧
        second.staged.toList = [([116, 0, 1], some [8])] := by
  have begun : overlapped.map (fun database => database.calls.map fun call =>
      (call.handle, call.begun)) = some [(some 0, 0), (some 1, 0)] := by
    decide +kernel
  have staged : overlapped.map (fun database => database.calls.map fun call =>
      call.staged.toList) = some [[([116, 0, 1], some [7])], [([116, 0, 1], some [8])]] := by
    decide +kernel
  obtain ⟨database, ran, recorded⟩ := Option.map_eq_some_iff.mp begun
  obtain ⟨first, rest, calls, firstExact, restExact⟩ := List.map_eq_cons_iff.mp recorded
  obtain ⟨second, nothing, rfl, secondExact, nothingExact⟩ := List.map_eq_cons_iff.mp restExact
  rw [List.map_eq_nil_iff.mp nothingExact] at calls
  rw [ran, Option.map_some, calls] at staged
  simp only [List.map_cons, List.map_nil, Option.some.injEq, List.cons.injEq, and_true] at staged
  obtain ⟨firstHandle, _⟩ := Prod.mk.inj firstExact
  obtain ⟨secondHandle, secondBegun⟩ := Prod.mk.inj secondExact
  exact ⟨database, first, second,
    runChecked_decided ran, calls,
    ⟨firstHandle, staged.1⟩, secondHandle, secondBegun, staged.2⟩

/-- Both commits went through, and the second one's row stands. -/
theorem commitTxn_second_write_wins : ∃ database,
    Reaches Database.step (fun _ call => call.Succeeds) fresh database ∧
      (∀ call ∈ database.calls, call.result = .ok ()) ∧
      database.host.engine.readAt [116, 0, 1] database.host.engine.currentSeq = some [8] := by
  obtain ⟨database, first, second, reached, calls, _, _, _, staged⟩ := overlappingWrites_ran
  have wins := commitTxn_last_commit_wins some (fun _ => none) 1 database reached
  refine ⟨database, reached, wins.1, ?_⟩
  have written : second.staged.get? [116, 0, 1] = some (some [8]) := by
    rw [OrdMap.get?_eq_some, staged]
    exact List.mem_singleton.mpr rfl
  rw [wins.2, calls]
  exact lastStaged_of_staged [first] second written

/-- The two transactions overlap and wrote the same row, and both returned `Ok`. -/
theorem commitTxn_loses_update :
    ¬ ∀ database, Reaches Database.step (fun _ call => call.Succeeds) fresh database →
      AtMostOneCommits database.calls := by
  intro claimed
  obtain ⟨database, first, second, reached, calls, ⟨firstHandle, firstStaged⟩, secondHandle,
    secondBegun, secondStaged⟩ := overlappingWrites_ran
  have wins := LastWins.of_reaches some (fun _ => none) 1 database reached
  have staged : ∀ (call : CommitCall) (value : Bytes),
      call.staged.toList = [([116, 0, 1], some value)] → call.staged.get? [116, 0, 1] ≠ none := by
    intro call value only absent
    rw [OrdMap.get?_eq_none, only] at absent
    exact absent _ List.mem_cons_self rfl
  have firstOk := wins.succeeded first (by rw [calls]; exact List.mem_cons_self)
  have secondOk := wins.succeeded second
    (by rw [calls]; exact List.mem_cons_of_mem _ List.mem_cons_self)
  refine claimed database reached 0 1 first second [116, 0, 1] Nat.zero_lt_one ?_ ?_ ?_ ?_ ?_ ?_
    (staged first _ firstStaged) (staged second _ secondStaged) ⟨firstOk, secondOk⟩
  · rw [calls, List.getElem?_cons_zero]
  · rw [calls, List.getElem?_cons_succ, List.getElem?_cons_zero]
  · rw [firstHandle]
    exact Option.some_ne_none 0
  · rw [secondHandle]
    exact Option.some_ne_none 1
  · rw [firstHandle, secondHandle]
    exact fun same => absurd (Option.some.inj same) Nat.zero_ne_one
  · exact secondBegun.le

end Database

end Pantheon.Keystone
