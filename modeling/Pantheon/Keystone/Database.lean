import Mathlib
import Pantheon.Keystone.LiveReads
import Pantheon.Keystone.TornReads

/-!
# The write paths of `storage/database/mod.rs`

`commit_txn`, and outside a transaction `write` and `delete`, hand one batch to
the engine and then drive the flush and the compaction it may have begun to
their end before they return.  A call is one step here: no other call runs
between its phases.

The secondary indexes are not read by `txn_read` and `txn_scan`; of their
maintenance only the failure is kept.
-/

set_option autoImplicit false

namespace Pantheon.Keystone

open Pantheon.Lib

inductive NodeRole where
  | writer
  | reader
deriving DecidableEq

inductive DatabaseError where
  | readOnlyReplica
  | storage (error : StorageError)
  | index
deriving DecidableEq

def DatabaseError.message : DatabaseError → String
  | readOnlyReplica => "this node is a read-only replica; send writes to the writer node"
  | storage error => error.message
  | index => ""

/-- What one write path meets outside the engine: which I/O fails, the filters
of the tables it builds, and the compaction threshold. -/
structure Io where
  append : Option Nat
  bloom : Bloom
  putFails : Bool
  flushFault : Option LsmEngine.CommitFlushFault
  threshold : Nat
  mergedBloom : Bloom
  mergedPutFails : Bool
  saveFails : Bool
  deleteFails : Nat → Bool
  indexFails : Option Nat

structure Io.Succeeds (io : Io) : Prop where
  append : io.append = none
  put : io.putFails = false
  flush : io.flushFault = none
  mergedPut : io.mergedPutFails = false
  save : io.saveFails = false
  index : io.indexFails = none

instance Io.decidableSucceeds (io : Io) : Decidable io.Succeeds :=
  decidable_of_iff (io.append = none ∧ io.putFails = false ∧ io.flushFault = none ∧
      io.mergedPutFails = false ∧ io.saveFails = false ∧ io.indexFails = none)
    ⟨fun ⟨append, put, flush, mergedPut, save, index⟩ =>
        ⟨append, put, flush, mergedPut, save, index⟩,
      fun ⟨append, put, flush, mergedPut, save, index⟩ =>
        ⟨append, put, flush, mergedPut, save, index⟩⟩

def Io.sound : Io :=
  ⟨none, Bloom.accepting, false, none, defaultCompactionSstableThreshold, Bloom.accepting, false,
    false, fun _ => false, none⟩

/-- The batch, then the flush it began, then the compaction that began. -/
def LsmEngine.persist {ETag : Type} [DecidableEq ETag] (engine : LsmEngine ETag)
    (store : ObjectStore ETag) (io : Io) (entries : List BatchEntry) :
    LsmEngine ETag × ObjectStore ETag × Except StorageError Unit :=
  match engine.writeBatch io.append entries with
  | (engine, .error error) => (engine, store, .error error)
  | (engine, .ok (_, none)) => (engine, store, .ok ())
  | (engine, .ok (_, some pending)) =>
      match LsmEngine.finishFlush store io.bloom io.putFails pending with
      | (store, .error error) => (engine, store, .error error)
      | (store, .ok table) =>
          match engine.commitFlush store io.flushFault io.threshold pending table with
          | (engine, store, .error error) => (engine, store, .error error)
          | (engine, store, .ok none) => (engine, store, .ok ())
          | (engine, store, .ok (some compaction)) =>
              match LsmEngine.finishCompact store io.mergedBloom io.mergedPutFails compaction with
              | (store, .error error) => (engine, store, .error error)
              | (store, .ok merged) =>
                  engine.commitCompact store io.saveFails io.deleteFails compaction merged

/-- One open or finished transaction of a session.  `begun` is how many commits
had returned when it began. -/
structure Handle where
  txn : Txn
  begun : Nat

/-- A commit that returned, with what it was to write.  A write outside a
transaction is a commit of one row, by no handle. -/
structure CommitCall where
  handle : Option Nat
  begun : Nat
  staged : OrdMap Bytes (Option Bytes)
  result : Except DatabaseError Unit

/-- `calls` is a ghost record, oldest first. -/
structure Database (ETag : Type) where
  role : NodeRole
  host : Host ETag
  handles : List Handle
  calls : List CommitCall

inductive DatabaseCall where
  | beginTxn
  | txnRead (index : Option Nat) (table : String) (key : Bytes)
  | txnScan (index : Option Nat) (table : String)
  | txnWrite (index : Option Nat) (io : Io) (table : String) (key value : Bytes)
  | txnDelete (index : Option Nat) (io : Io) (table : String) (key : Bytes)
  | commitTxn (index : Nat) (io : Io)
  | rollbackTxn (index : Nat)

def DatabaseCall.Succeeds : DatabaseCall → Prop
  | .txnWrite _ io _ _ _ => io.Succeeds
  | .txnDelete _ io _ _ => io.Succeeds
  | .commitTxn _ io => io.Succeeds
  | _ => True

instance DatabaseCall.decidableSucceeds (call : DatabaseCall) : Decidable call.Succeeds := by
  induction call using DatabaseCall.casesOn <;> (dsimp only [DatabaseCall.Succeeds]; infer_instance)

namespace Database

variable {ETag : Type}

def start (manifestEtag : Manifest → ETag) (leaseEtag : Lease → ETag) (token : Nat) :
    Database ETag :=
  ⟨.writer, Host.start manifestEtag leaseEtag ⟨token, true⟩, [], []⟩

def beginTxn (database : Database ETag) : Database ETag :=
  let (engine, snapshotSeq) := database.host.engine.snapshotNow
  { database with
    host := { database.host with engine := engine }
    handles := database.handles ++
      [⟨⟨snapshotSeq, false, OrdMap.empty⟩, database.calls.length⟩] }

def txnAt (database : Database ETag) (index : Nat) : Option Txn :=
  database.handles[index]?.map Handle.txn

def restage (database : Database ETag) (index : Nat) (update : Txn → Txn) : Database ETag :=
  { database with
    handles := database.handles.modify index fun handle => { handle with txn := update handle.txn } }

def closed (txn : Txn) : Txn := ⟨txn.snapshotSeq, true, OrdMap.empty⟩

/-- Mark a transaction finished and release its snapshot, unless that was done
before. -/
def finish (database : Database ETag) (index : Nat) : Database ETag :=
  match database.txnAt index with
  | none => database
  | some txn =>
      let done := database.restage index closed
      if txn.finished then done
      else { done with
        host := { database.host with engine := database.host.engine.releaseSnapshot txn.snapshotSeq } }

def maintainIndexes (io : Io) (entries : List BatchEntry) : Except DatabaseError Unit :=
  match io.indexFails with
  | none => .ok ()
  | some row =>
      if row < (entries.filter fun entry => entry.value.isSome).length then .error .index else .ok ()

variable [DecidableEq ETag]

/-- A batch whose log append succeeded is published, whatever fails behind it. -/
def persist (database : Database ETag) (io : Io) (entries : List BatchEntry) :
    Database ETag × Except DatabaseError Unit :=
  let host := database.host
  let commit : Commit := ⟨host.engine.write.nextCommitSeq, entries⟩
  let (engine, store, result) := host.engine.persist host.store io entries
  let next :=
    { database with
      host := { host with
        engine := engine
        store := store
        history := if io.append = none then host.history ++ [commit] else host.history } }
  match result with
  | .error error => (next, .error (.storage error))
  | .ok () => (next, maintainIndexes io entries)

def recorded (outcome : Database ETag × Except DatabaseError Unit) (handle : Option Nat)
    (begun : Nat) (staged : OrdMap Bytes (Option Bytes)) :
    Database ETag × Except DatabaseError Unit :=
  ({ outcome.1 with calls := outcome.1.calls ++ [⟨handle, begun, staged, outcome.2⟩] }, outcome.2)

def autocommit (database : Database ETag) (io : Io) (table : String) (key : Bytes)
    (value : Option Bytes) : Database ETag × Except DatabaseError Unit :=
  let compositeKey := makeKey table key
  let outcome :=
    if database.role = .reader then (database, .error .readOnlyReplica)
    else database.persist io [⟨table, compositeKey, value⟩]
  recorded outcome none database.calls.length (OrdMap.empty.insert compositeKey value)

def commitTxn (database : Database ETag) (index : Nat) (io : Io) :
    Database ETag × Except DatabaseError Unit :=
  match database.handles[index]? with
  | none => (database, .ok ())
  | some handle =>
      let staged := handle.txn.staged
      let finished := database.finish index
      let outcome :=
        if staged.toList = [] then (finished, .ok ())
        else if database.role = .reader then (finished, .error .readOnlyReplica)
        else finished.persist io (commitEntries staged)
      recorded outcome (some index) handle.begun staged

def rollbackTxn (database : Database ETag) (index : Nat) : Database ETag := database.finish index

def txnWrite (database : Database ETag) (index : Option Nat) (io : Io) (table : String)
    (key value : Bytes) : Database ETag × Except DatabaseError Unit :=
  match index with
  | some index => (database.restage index fun txn => txn.stageWrite (makeKey table key) value, .ok ())
  | none => database.autocommit io table key (some value)

def txnDelete (database : Database ETag) (index : Option Nat) (io : Io) (table : String)
    (key : Bytes) : Database ETag × Except DatabaseError Unit :=
  match index with
  | some index => (database.restage index fun txn => txn.stageDelete (makeKey table key), .ok ())
  | none => database.autocommit io table key none

def step (database : Database ETag) : DatabaseCall → Option (Database ETag)
  | .beginTxn => some database.beginTxn
  | .txnRead _ _ _ => some database
  | .txnScan _ _ => some database
  | .txnWrite index io table key value => some (database.txnWrite index io table key value).1
  | .txnDelete index io table key => some (database.txnDelete index io table key).1
  | .commitTxn index io =>
      if index < database.handles.length then some (database.commitTxn index io).1 else none
  | .rollbackTxn index => some (database.rollbackTxn index)

end Database

end Pantheon.Keystone
