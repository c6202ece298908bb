import Mathlib
import Pantheon.Keystone.StoredRows
import Pantheon.Lib.SessionLog

/-!
# Writes that returned

A write path that returns `Ok` met no failure that matters, so it did what it does when
all I/O succeeds.  As long as every write and every commit returns `Ok`, each session
reads what it saw when it began and what it has written since.
-/

set_option autoImplicit false

namespace Pantheon.Keystone

open Pantheon.Lib

variable {ETag : Type}

/-! ## What a returned write met -/

def Io.mended (io : Io) : Io :=
  { io with
    append := none
    putFails := false
    flushFault := none
    mergedPutFails := false
    saveFails := false
    indexFails := none }

theorem Io.mended_succeeds (io : Io) : io.mended.Succeeds := ⟨rfl, rfl, rfl, rfl, rfl, rfl⟩

namespace LsmEngine

variable [DecidableEq ETag]

theorem persist_mended {engine : LsmEngine ETag} {store : ObjectStore ETag} {io : Io}
    {entries : List BatchEntry} (returned : (engine.persist store io entries).2.2 = .ok ()) :
    engine.persist store io entries = engine.persist store io.mended entries ∧
      io.append = none := by
  have appended : io.append = none := by
    cases append : io.append with
    | none => rfl
    | some written =>
        unfold persist at returned
        rw [append] at returned
        cases returned
  refine ⟨?_, appended⟩
  unfold persist at returned ⊢
  rw [appended] at returned
  simp only [appended, Io.mended]
  cases wrote : engine.writeBatch none entries with
  | mk written result =>
      rw [wrote] at returned
      rcases result with error | ⟨seq, _ | pending⟩
      · rfl
      · rfl
      dsimp only at returned ⊢
      have put : io.putFails = false := by
        by_contra fails
        rw [Bool.not_eq_false] at fails
        rw [fails] at returned
        cases returned
      rw [put] at returned ⊢
      simp only [finishFlush, Bool.false_eq_true, if_false] at returned ⊢
      generalize SSTable.build io.bloom pending.sstableId pending.entries = table
        at returned ⊢
      generalize store.putSst pending.sstableId table = store at returned ⊢
      have flushed : written.commitFlush store io.flushFault io.threshold pending table =
          written.commitFlush store none io.threshold pending table := by
        rcases ran : written.commitFlush store io.flushFault io.threshold pending table with
          ⟨flushed, shipped, error | compaction⟩
        · rw [ran] at returned
          cases returned
        · rw [← ran]
          exact commitFlush_mended (congrArg (fun outcome => outcome.2.2) ran)
      rw [← flushed]
      rcases ran : written.commitFlush store io.flushFault io.threshold pending table with
        ⟨flushed, shipped, error | _ | compaction⟩
      · rfl
      · rfl
      rw [ran] at returned
      dsimp only at returned ⊢
      have merged : io.mergedPutFails = false := by
        by_contra fails
        rw [Bool.not_eq_false] at fails
        rw [fails] at returned
        cases returned
      have saved : io.saveFails = false := by
        by_contra fails
        rw [Bool.not_eq_false] at fails
        rw [merged, fails] at returned
        simp only [finishCompact, commitCompact, Bool.false_eq_true, if_false, if_true] at returned
        cases returned
      rw [merged, saved]

end LsmEngine

/-! ## What sessions read -/

namespace Database

variable {database : Database ETag} {log : SessionLog (Bytes × Option Bytes)}

/-- The store has the committed writes, each open transaction reads what it saw when it
began, and its staged writes go over any rows as the ones it has made. -/
structure Logged (database : Database ETag) (log : SessionLog (Bytes × Option Bytes)) :
    Prop where
  settled : database.Settled
  latest : database.host.latest = lastWrite log.committed
  seen : ∀ index handle, database.handles[index]? = some handle → handle.txn.finished = false →
    ∀ key, database.host.engine.readAt key handle.txn.snapshotSeq = lastWrite (log.seen index) key
  staged : ∀ index handle, database.handles[index]? = some handle →
    handle.txn.finished = false → ∀ front, overlay handle.txn.staged.get? (lastWrite front) =
      lastWrite (front ++ log.staged index)

theorem Logged.started (manifestEtag : Manifest → ETag) (leaseEtag : Lease → ETag)
    (token : Nat) : (start manifestEtag leaseEtag token).Logged SessionLog.empty := by
  have wins := LastWins.started manifestEtag leaseEtag token
  refine ⟨wins.settled, wins.latest, ?_, ?_⟩
  · intro index handle found
    cases found
  · intro index handle found
    cases found

theorem Logged.beginTxn (logged : database.Logged log) :
    database.beginTxn.Logged (log.start database.handles.length) := by
  have handles : ∀ index handle, database.beginTxn.handles[index]? = some handle →
      index ≠ database.handles.length ∧ database.handles[index]? = some handle ∨
        index = database.handles.length ∧
          handle = ⟨⟨database.host.engine.currentSeq, false, OrdMap.empty⟩,
            database.calls.length⟩ := by
    intro index handle found
    rcases lt_trichotomy index database.handles.length with earlier | last | later
    · exact Or.inl ⟨earlier.ne, (List.getElem?_append_left earlier).symm.trans found⟩
    · subst last
      exact Or.inr ⟨rfl, (Option.some.inj (List.getElem?_concat_length.symm.trans found)).symm⟩
    · have inside := (List.getElem?_eq_some_iff.mp found).1
      simp only [Database.beginTxn, List.length_append, List.length_singleton] at inside
      omega
  refine ⟨logged.settled.beginTxn, logged.latest, ?_, ?_⟩
  · intro index handle found unfinished key
    rcases handles index handle found with ⟨other, held⟩ | ⟨rfl, rfl⟩
    · simp only [SessionLog.start, Function.update_of_ne other]
      exact logged.seen index handle held unfinished key
    · simp only [SessionLog.start, Function.update_self]
      exact congrFun logged.latest key
  · intro index handle found unfinished front
    rcases handles index handle found with ⟨other, held⟩ | ⟨rfl, rfl⟩
    · simp only [SessionLog.start, Function.update_of_ne other]
      exact logged.staged index handle held unfinished front
    · simp only [SessionLog.start, Function.update_self, List.append_nil]
      exact overlay_empty rfl

theorem overlay_insert (staged : OrdMap Bytes (Option Bytes)) (key : Bytes)
    (value : Option Bytes) (front writes : List (Bytes × Option Bytes))
    (covers : overlay staged.get? (lastWrite front) = lastWrite (front ++ writes)) :
    overlay (staged.insert key value).get? (lastWrite front) =
      lastWrite (front ++ (writes ++ [(key, value)])) := by
  funext other
  rw [← List.append_assoc, lastWrite_append_single]
  by_cases same : key = other
  · rw [if_pos same]
    exact overlay_some (by rw [OrdMap.get?_insert, if_pos same.symm]) _
  · rw [if_neg same, ← covers, overlay, overlay, OrdMap.get?_insert, if_neg (Ne.symm same)]

theorem Logged.stage (logged : database.Logged log) (index : Nat) (table : String)
    (key value : Bytes) :
    (database.restage index fun txn => txn.stageWrite (makeKey table key) value).Logged
      (log.add (some index) [(makeKey table key, some value)]) := by
  have settled := logged.settled.stage index table key (some value) _
    fun txn => stageWrite_cases txn _ value
  -- the handles behind the write, each with the one it was
  have handles : ∀ other handle,
      (database.restage index fun txn => txn.stageWrite (makeKey table key) value).handles[other]? =
        some handle → ∃ before, database.handles[other]? = some before ∧
          handle = if index = other then
            { before with txn := before.txn.stageWrite (makeKey table key) value } else before := by
    intro other handle found
    rw [restage, List.getElem?_modify] at found
    obtain ⟨before, held, rfl⟩ := Option.map_eq_some_iff.mp found
    refine ⟨before, held, ?_⟩
    split_ifs <;> rfl
  refine ⟨settled, logged.latest, ?_, ?_⟩
  · intro other handle found unfinished
    obtain ⟨before, held, rfl⟩ := handles other handle found
    have same : ∀ txn : Txn, (txn.stageWrite (makeKey table key) value).finished = txn.finished ∧
        (txn.stageWrite (makeKey table key) value).snapshotSeq = txn.snapshotSeq := by
      intro txn
      rcases stageWrite_cases txn (makeKey table key) value with same | same <;> rw [same] <;>
        exact ⟨rfl, rfl⟩
    split_ifs at unfinished ⊢
    · simp only [same] at unfinished ⊢
      exact logged.seen other before held unfinished
    · exact logged.seen other before held unfinished
  · intro other handle found unfinished front
    obtain ⟨before, held, rfl⟩ := handles other handle found
    by_cases here : index = other
    · subst here
      rw [if_pos rfl] at unfinished ⊢
      simp only [SessionLog.add, Function.update_self]
      unfold Txn.stageWrite at unfinished ⊢
      cases done : before.txn.finished with
      | true =>
          rw [done] at unfinished
          exact absurd (done.symm.trans unfinished) (by decide)
      | false =>
          rw [if_neg Bool.false_ne_true]
          exact overlay_insert _ _ _ _ _ (logged.staged index before held done front)
    · rw [if_neg here] at unfinished ⊢
      simp only [SessionLog.add, Function.update_of_ne (Ne.symm here)]
      exact logged.staged other before held unfinished front

theorem Logged.finish (logged : database.Logged log) (index : Nat) :
    (database.finish index).Logged log := by
  have ended := database.finish_closed index
  -- an open handle behind the end of another one is as it was
  have handles : ∀ (other : Nat) (handle : Handle),
      (database.finish index).handles[other]? = some handle → handle.txn.finished = false →
        database.handles[other]? = some handle := by
    intro other handle found unfinished
    rw [ended.handles, restage, List.getElem?_modify] at found
    obtain ⟨before, held, rfl⟩ := Option.map_eq_some_iff.mp found
    by_cases here : index = other
    · rw [if_pos here] at unfinished
      cases unfinished
    · rw [if_neg here]
      exact held
  refine ⟨logged.settled.finish index, ?_, ?_, ?_⟩
  · rw [← logged.latest]
    funext key
    rw [Host.latest, Host.latest, LsmEngine.readAt, LsmEngine.readAt, LsmEngine.currentSeq,
      LsmEngine.currentSeq, ended.view, ended.counted]
  · intro other handle found unfinished key
    rw [LsmEngine.readAt, ended.view]
    exact logged.seen other handle (handles other handle found unfinished) unfinished key
  · intro other handle found unfinished
    exact logged.staged other handle (handles other handle found unfinished) unfinished

theorem Logged.applied (logged : database.Logged log) {next : Database ETag}
    {writes : Bytes → Option (Option Bytes)} (applied : database.Applied writes next)
    {items : List (Bytes × Option Bytes)}
    (covers : overlay writes (lastWrite log.committed) = lastWrite (log.committed ++ items)) :
    next.Logged { log with committed := log.committed ++ items } := by
  refine ⟨applied.settled, ?_, ?_, ?_⟩
  · rw [applied.latest, logged.latest]
    exact covers
  · intro index handle found unfinished key
    rw [applied.handles] at found
    rw [applied.snapshots handle (List.mem_of_getElem? found) unfinished key]
    exact logged.seen index handle found unfinished key
  · intro index handle found unfinished front
    rw [applied.handles] at found
    exact logged.staged index handle found unfinished front

theorem Logged.forget (logged : database.Logged log) (calls : List CommitCall) :
    Logged { database with calls := calls } log :=
  ⟨logged.settled.forget calls, logged.latest, logged.seen, logged.staged⟩

theorem Logged.read (logged : database.Logged log) {session : Option Nat}
    (opened : ∀ index, session = some index →
      ∃ txn, database.txnAt index = some txn ∧ txn.finished = false)
    (counted : database.host.engine.write.nextCommitSeq ≤ u64Max + 1) (table : String)
    (key : Bytes) :
    txnRead database.host.engine.view (session.bind database.txnAt) table key =
      lastWrite (log.visible session) (makeKey table key) := by
  cases session with
  | none =>
      have latest := congrFun logged.latest (makeKey table key)
      rw [SessionLog.visible, ← latest]
      exact logged.settled.live.readAt_u64Max counted _
  | some index =>
      obtain ⟨txn, held, unfinished⟩ := opened index rfl
      obtain ⟨handle, found, rfl⟩ := Option.map_eq_some_iff.mp held
      have seen := logged.seen index handle found unfinished
      have staged := congrFun (logged.staged index handle found unfinished (log.seen index))
        (makeKey table key)
      rw [overlay, ← seen] at staged
      rw [SessionLog.visible, ← staged, Option.bind_some, held, txnRead, Option.bind_some,
        Txn.stagedRead]
      cases handle.txn.staged.get? (makeKey table key) <;> rfl

variable [DecidableEq ETag]

theorem Settled.persist_returned (settled : database.Settled) {io : Io}
    {entries : List BatchEntry} (distinct : DistinctKeys entries)
    (returned : (database.persist io entries).2 = .ok ()) :
    database.Applied (Host.writesOf entries) (database.persist io entries).1 := by
  rcases ran : database.host.engine.persist database.host.store io entries with
    ⟨engine, store, result⟩
  obtain ⟨next, outcome⟩ := database.persist_spec io entries ran
  rw [outcome] at returned
  cases result with
  | error error => cases returned
  | ok =>
      obtain ⟨mended, appended⟩ :=
        LsmEngine.persist_mended (congrArg (fun outcome => outcome.2.2) ran)
      rw [ran] at mended
      obtain ⟨same, _⟩ := database.persist_spec io.mended entries mended.symm
      rw [next, if_pos appended]
      have applied := (settled.persist io.mended_succeeds distinct).2
      rw [same, if_pos (show io.mended.append = none from rfl)] at applied
      exact applied

theorem Logged.txnWrite (logged : database.Logged log) {session : Option Nat} {io : Io}
    {table : String} {key value : Bytes}
    (returned : (database.txnWrite session io table key value).2 = .ok ()) :
    (database.txnWrite session io table key value).1.Logged
      (log.add session [(makeKey table key, some value)]) := by
  cases session with
  | some index => exact logged.stage index table key value
  | none =>
      simp only [Database.txnWrite, autocommit, recorded] at returned ⊢
      split_ifs at returned ⊢ with reader
      apply Logged.forget
      have distinct : DistinctKeys [⟨table, makeKey table key, some value⟩] :=
        List.nodup_singleton _
      apply logged.applied (logged.settled.persist_returned distinct returned)
      rw [writesOf_singleton]
      exact overlay_insert OrdMap.empty _ _ _ [] (by rw [List.append_nil]; exact overlay_empty rfl)

theorem Logged.commitTxn (logged : database.Logged log) {index : Nat} {txn : Txn}
    (held : database.txnAt index = some txn) (unfinished : txn.finished = false) {io : Io}
    (returned : (database.commitTxn index io).2 = .ok ()) :
    (database.commitTxn index io).1.Logged (log.commit index) := by
  obtain ⟨handle, found, rfl⟩ := Option.map_eq_some_iff.mp held
  have staged := logged.staged index handle found unfinished log.committed
  have ended := logged.finish index
  simp only [Database.commitTxn, found, recorded] at returned ⊢
  split_ifs at returned ⊢ with empty reader
  · apply Logged.forget
    rw [overlay_empty empty] at staged
    exact ⟨ended.settled, ended.latest.trans staged, ended.seen, ended.staged⟩
  · apply Logged.forget
    have distinct := commitEntries_distinct handle.txn.staged
    apply ended.applied (ended.settled.persist_returned distinct returned)
    rw [writesOf_commitEntries (logged.settled.keyed handle (List.mem_of_getElem? found))]
    exact staged

end Database

end Pantheon.Keystone
