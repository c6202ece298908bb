import Mathlib
import Pantheon.Lib.Frames

/-!
# The Flux log: `storage/flux.rs`

A topic is a number of partitions, each a file of framed records of which the
newest are also held in memory, and the offsets that consumer groups have
committed.  Retention removes records from the front of the memory only.  A call
may fail after some bytes of its frame have reached the file.
-/

set_option autoImplicit false

namespace Pantheon.Keystone

open Pantheon.Lib

structure FluxRecord where
  offset : Nat
  key : Option Bytes
  value : Bytes
  timestampMs : Int
deriving DecidableEq

structure RetentionPolicy where
  retentionMs : Option Int
  retentionBytes : Option Nat
deriving DecidableEq

structure OffsetCommit where
  group : String
  partition : Nat
  offset : Nat
deriving DecidableEq

/-- The serialisation of the two kinds of log record. -/
structure FluxCodecs where
  record : Codec FluxRecord
  commit : Codec OffsetCommit

/-- A partition with the contents of its file. -/
@[ext]
structure Partition where
  file : Bytes
  records : List FluxRecord
  nextOffset : Nat
  totalBytes : Nat
  newestTs : Int
deriving DecidableEq

namespace Partition

def empty (file : Bytes) : Partition := ⟨file, [], 0, 0, -2 ^ 63⟩

def load (part : Partition) (record : FluxRecord) : Partition :=
  { part with
    records := part.records ++ [record]
    nextOffset := record.offset + 1
    totalBytes := part.totalBytes + record.value.length
    newestTs := max part.newestTs record.timestampMs }

/-- `Partition::open`; retention is not applied. -/
def openFile (codec : Codec FluxRecord) (file : Bytes) : Option Partition :=
  (readLog codec.deserialize file).map fun records => records.foldl load (empty file)

def evictOld (cutoff : Int) : List FluxRecord → Nat → List FluxRecord × Nat
  | [], total => ([], total)
  | front :: rest, total =>
      if front.timestampMs < cutoff then evictOld cutoff rest (total - front.value.length)
      else (front :: rest, total)

def evictLarge (maxBytes : Nat) : List FluxRecord → Nat → List FluxRecord × Nat
  | [], total => ([], total)
  | front :: rest, total =>
      if maxBytes < total then evictLarge maxBytes rest (total - front.value.length)
      else (front :: rest, total)

/-- By age against the newest timestamp, then by size, as a build without overflow checks
computes it. -/
def applyRetention (retention : RetentionPolicy) (part : Partition) : Partition :=
  let (records, total) := match retention.retentionMs with
    | some ms => evictOld (wrapSigned64 (part.newestTs - ms)) part.records part.totalBytes
    | none => (part.records, part.totalBytes)
  let (records, total) := match retention.retentionBytes with
    | some maxBytes => evictLarge maxBytes records total
    | none => (records, total)
  { part with records := records, totalBytes := total }

/-- The cut-off leaves `i64`, where a build with overflow checks panics. -/
def cutoffOverflows (retention : RetentionPolicy) (part : Partition) : Bool :=
  retention.retentionMs.any fun ms => decide (¬IsSigned64 (part.newestTs - ms))

def push (codec : Codec FluxRecord) (part : Partition) (record : FluxRecord) : Partition where
  file := part.file ++ frame (codec.serialize record)
  records := part.records ++ [record]
  nextOffset := part.nextOffset + 1
  totalBytes := part.totalBytes + record.value.length
  newestTs := max part.newestTs record.timestampMs

/-- `fault` is the number of bytes written before the write fails. -/
def append (codec : Codec FluxRecord) (retention : RetentionPolicy) (part : Partition)
    (fault : Option Nat) (key : Option Bytes) (value : Bytes) (timestampMs : Int) :
    Partition × Except String Nat :=
  let record : FluxRecord := ⟨part.nextOffset, key, value, timestampMs⟩
  match fault with
  | some written =>
      ({ part with file := part.file ++ (frame (codec.serialize record)).take written },
        .error "write failed")
  | none => ((part.push codec record).applyRetention retention, .ok part.nextOffset)

def poll (part : Partition) (fromOffset max : Nat) : List FluxRecord :=
  (part.records.filter fun record => decide (fromOffset ≤ record.offset)).take max

end Partition

structure FluxLog where
  metaFile : Bytes
  partitions : List Partition
  retention : RetentionPolicy
  offsetsFile : Bytes
  offsets : String × Nat → Option Nat
  rrCounter : Nat

inductive FluxAction where
  | publish (fault : Option Nat) (now : Int) (partition : Option Nat) (key : Option Bytes)
      (value : Bytes)
  | commit (fault : Option Nat) (group : String) (partition offset : Nat)
deriving DecidableEq

namespace FluxLog

def writeMeta (numPartitions : Nat) (retention : RetentionPolicy) : Bytes :=
  beBytes 4 numPartitions ++ signedBytes (retention.retentionMs.getD (-1)) ++
    signedBytes ((retention.retentionBytes.map Int.ofNat).getD (-1))

def readMeta (data : Bytes) : Option (Nat × RetentionPolicy) :=
  if data.length < 20 then none
  else
    let retentionMs := ofSignedBytes ((data.drop 4).take 8)
    let retentionBytes := ofSignedBytes ((data.drop 12).take 8)
    some (ofBe (data.take 4),
      ⟨if retentionMs < 0 then none else some retentionMs,
        if retentionBytes < 0 then none else some retentionBytes.toNat⟩)

def create (numPartitions : UInt32) (retention : RetentionPolicy) : Except String FluxLog :=
  if numPartitions = 0 then .error "a topic must have at least 1 partition"
  else .ok
    { metaFile := writeMeta numPartitions.toNat retention
      partitions := List.replicate numPartitions.toNat (Partition.empty [])
      retention := retention
      offsetsFile := []
      offsets := fun _ => none
      rrCounter := 0 }

def setOffset (offsets : String × Nat → Option Nat) (commit : OffsetCommit) :
    String × Nat → Option Nat :=
  Function.update offsets (commit.group, commit.partition) (some commit.offset)

def readOffsets (codec : Codec OffsetCommit) (file : Bytes) :
    Option (String × Nat → Option Nat) :=
  (readLog codec.deserialize file).map fun commits => commits.foldl setOffset fun _ => none

/-- A partition is opened and retention applied, in a build with overflow checks or in one
without. -/
def openPartition (checks : Bool) (codec : Codec FluxRecord) (retention : RetentionPolicy)
    (file : Bytes) : Option Partition := do
  let part ← Partition.openFile codec file
  if checks && part.cutoffOverflows retention then none else some (part.applyRetention retention)

/-- `FluxLog::open` on the files of a topic's directory. -/
def openDir (checks : Bool) (codecs : FluxCodecs) (metaFile : Bytes) (partitionFile : Nat → Bytes)
    (offsetsFile : Bytes) : Option FluxLog := do
  let (numPartitions, retention) ← readMeta metaFile
  let partitions ← (List.range numPartitions).mapM fun index =>
    openPartition checks codecs.record retention (partitionFile index)
  let offsets ← readOffsets codecs.commit offsetsFile
  some ⟨metaFile, partitions, retention, offsetsFile, offsets, 0⟩

section Calls

variable (codecs : FluxCodecs) (hash : Bytes → Nat)

/-- The partition a publish goes to, and the round-robin counter after it. -/
def target (log : FluxLog) (partition : Option Nat) (key : Option Bytes) :
    Except String (Nat × Nat) :=
  let count := log.partitions.length
  match partition, key with
  | some index, _ =>
      if index < count then .ok (index, log.rrCounter)
      else .error ("partition " ++ toString index ++ " out of range (topic has " ++
        toString count ++ " partition(s))")
  | none, some key => .ok (hash key % count, log.rrCounter)
  | none, none => .ok (log.rrCounter % count, (log.rrCounter + 1) % 2 ^ 32)

def publish (log : FluxLog) (fault : Option Nat) (now : Int) (partition : Option Nat)
    (key : Option Bytes) (value : Bytes) : FluxLog × Except String (Nat × Nat) :=
  match log.target hash partition key with
  | .error message => (log, .error message)
  | .ok (index, rrCounter) =>
      match log.partitions[index]? with
      | none => (log, .error "partition index out of bounds")
      | some part =>
          let (part, result) := part.append codecs.record log.retention fault key value now
          ({ log with partitions := log.partitions.set index part, rrCounter := rrCounter },
            result.map fun offset => (index, offset))

def poll (log : FluxLog) (group : String) (partition max : Nat) :
    Except String (List FluxRecord) :=
  match log.partitions[partition]? with
  | none => .error ("partition " ++ toString partition ++ " does not exist")
  | some part => .ok (part.poll ((log.offsets (group, partition)).getD 0) max)

def commit (log : FluxLog) (fault : Option Nat) (group : String) (partition offset : Nat) :
    FluxLog × Except String Unit :=
  if partition < log.partitions.length then
    let record : OffsetCommit := ⟨group, partition, offset⟩
    let written := frame (codecs.commit.serialize record)
    match fault with
    | some count =>
        ({ log with offsetsFile := log.offsetsFile ++ written.take count }, .error "write failed")
    | none =>
        ({ log with
            offsetsFile := log.offsetsFile ++ written
            offsets := setOffset log.offsets record }, .ok ())
  else (log, .error ("partition " ++ toString partition ++ " does not exist"))

def step (log : FluxLog) : FluxAction → FluxLog
  | .publish fault now partition key value => (log.publish codecs hash fault now partition key value).1
  | .commit fault group partition offset => (log.commit codecs fault group partition offset).1

def run (log : FluxLog) (actions : List FluxAction) : FluxLog := actions.foldl (step codecs hash) log

def publishes (log : FluxLog) : FluxAction → Option (Nat × FluxRecord)
  | .publish none now partition key value =>
      match log.target hash partition key with
      | .error _ => none
      | .ok (index, _) => log.partitions[index]?.map fun part =>
          (index, ⟨part.nextOffset, key, value, now⟩)
  | _ => none

def publishesTo (log : FluxLog) (index : Nat) (action : FluxAction) : List FluxRecord :=
  match log.publishes hash action with
  | some (target, record) => if target = index then [record] else []
  | none => []

def published (log : FluxLog) (index : Nat) : List FluxAction → List FluxRecord
  | [] => []
  | action :: actions =>
      log.publishesTo hash index action ++ (log.step codecs hash action).published index actions

end Calls

end FluxLog

def FluxAction.commits (group : String) (index : Nat) : FluxAction → Option Nat
  | .commit none committer partition offset =>
      if committer = group ∧ partition = index then some offset else none
  | _ => none

/-- The last offset a group has committed for a partition; zero before the first. -/
def committedOffset (group : String) (index : Nat) (actions : List FluxAction) : Nat :=
  ((actions.filterMap (FluxAction.commits group index)).getLast?).getD 0

end Pantheon.Keystone
