import Mathlib
import Pantheon.Lib.OrdMap
import Pantheon.Lib.Utf8
import Pantheon.Lib.Bincode
import Pantheon.Keystone.Compress

/-!
# The time index: `storage/ts_index.rs`

Entries are put into buckets of one width.  Every bucket but the newest is sealed:
its entries are sorted and compressed.  A bucket behind the retention cutoff keeps
only its rollup.  The file is a header and one frame for each insert; opening
replays the inserts without retention.  A float is its bits.
-/

set_option autoImplicit false

namespace Pantheon.Keystone

open Pantheon.Lib

structure TimeBucketPolicy where
  granularityMs : Int
  retentionMs : Option Int
deriving DecidableEq

structure TsEntry where
  rowKey : Bytes
  ts : Int
  value : UInt64
deriving DecidableEq

/-- The operations on `f64` that a rollup uses. -/
structure FloatOps where
  add : UInt64 → UInt64 → UInt64
  min : UInt64 → UInt64 → UInt64
  max : UInt64 → UInt64 → UInt64

structure Rollup where
  count : Nat
  sum : UInt64
  min : UInt64
  max : UInt64
deriving DecidableEq

namespace Rollup

def empty : Rollup := ⟨0, 0, 0x7FF0000000000000, 0xFFF0000000000000⟩

def add (ops : FloatOps) (rollup : Rollup) (value : UInt64) : Rollup where
  count := rollup.count + 1
  sum := ops.add rollup.sum value
  min := ops.min rollup.min value
  max := ops.max rollup.max value

end Rollup

structure CompressedSeries where
  tsDeltas : Bytes
  values : Bytes
  rowKeys : List Bytes
deriving DecidableEq

inductive BucketState where
  | opened (entries : List TsEntry)
  | sealed (series : CompressedSeries)
  | downsampled
deriving DecidableEq

structure Bucket where
  rollup : Rollup
  state : BucketState
deriving DecidableEq

def compressSeries (entries : List TsEntry) : CompressedSeries :=
  let sorted := entries.insertionSort fun left right => left.ts ≤ right.ts
  { tsDeltas := Compress.deltaDeltaEncode (sorted.map TsEntry.ts)
    values := Compress.gorillaEncode (sorted.map fun entry => entry.value.toNat)
    rowKeys := sorted.map TsEntry.rowKey }

def decompress (series : CompressedSeries) : List ((Int × Nat) × Bytes) :=
  ((Compress.deltaDeltaDecode series.tsDeltas).zip (Compress.gorillaDecode series.values)).zip
    series.rowKeys

namespace Bucket

def sealSeries (bucket : Bucket) : Bucket :=
  match bucket.state with
  | .opened entries => { bucket with state := .sealed (compressSeries entries) }
  | _ => bucket

def readings (bucket : Bucket) : List (Int × Bytes) :=
  match bucket.state with
  | .opened entries => entries.map fun entry => (entry.ts, entry.rowKey)
  | .sealed series => (decompress series).map fun entry => (entry.1.1, entry.2)
  | .downsampled => []

/-- A row that lands in a sealed or downsampled bucket opens it again. -/
def push (ops : FloatOps) (bucket : Bucket) (entry : TsEntry) : Bucket where
  rollup := bucket.rollup.add ops entry.value
  state :=
    match bucket.state with
    | .opened entries => .opened (entries ++ [entry])
    | _ => .opened [entry]

def empty : Bucket := ⟨Rollup.empty, .opened []⟩

end Bucket

def bucketStart (ts granularityMs : Int) : Int := wrapSigned64 (ts / granularityMs * granularityMs)

structure TimeIndex where
  file : Bytes
  policy : TimeBucketPolicy
  valueColumn : String
  buckets : OrdMap Int Bucket
  newestTs : Int

namespace TimeIndex

def header (policy : TimeBucketPolicy) (valueColumn : String) : Bytes :=
  signedBytes policy.granularityMs ++ signedBytes (policy.retentionMs.getD (-1)) ++
    beBytes 2 (utf8Bytes valueColumn).length ++ utf8Bytes valueColumn

def create (policy : TimeBucketPolicy) (valueColumn : String) : TimeIndex :=
  ⟨header policy valueColumn, policy, valueColumn, OrdMap.empty, -2 ^ 63⟩

def start (index : TimeIndex) (ts : Int) : Int := bucketStart ts index.policy.granularityMs

def sealNonNewestBuckets (index : TimeIndex) : TimeIndex :=
  let newestStart := index.start index.newestTs
  { index with
    buckets := index.buckets.mapValues fun start bucket =>
      if start = newestStart then bucket else bucket.sealSeries }

def applyRetention (index : TimeIndex) : TimeIndex :=
  match index.policy.retentionMs with
  | none => index
  | some retentionMs =>
      let cutoff := wrapSigned64 (index.newestTs - retentionMs)
      { index with
        buckets := index.buckets.mapValues fun start bucket =>
          if wrapSigned64 (start + index.policy.granularityMs) ≤ cutoff then
            { bucket with state := .downsampled }
          else bucket }

def place (ops : FloatOps) (index : TimeIndex) (entry : TsEntry) : TimeIndex :=
  let start := index.start entry.ts
  { index with
    newestTs := if index.newestTs < entry.ts then entry.ts else index.newestTs
    buckets := index.buckets.insert start
      (((index.buckets.get? start).getD Bucket.empty).push ops entry) }

def applyInsert (ops : FloatOps) (index : TimeIndex) (entry : TsEntry) (retention : Bool) :
    TimeIndex :=
  let sealed_ := (index.place ops entry).sealNonNewestBuckets
  if retention then sealed_.applyRetention else sealed_

def insert (codec : Codec TsEntry) (ops : FloatOps) (index : TimeIndex) (entry : TsEntry) :
    TimeIndex :=
  ({ index with file := index.file ++ frame (codec.serialize entry) } : TimeIndex).applyInsert ops
    entry true

def insertAll (codec : Codec TsEntry) (ops : FloatOps) (index : TimeIndex)
    (entries : List TsEntry) : TimeIndex :=
  entries.foldl (insert codec ops) index

/-- Opening an existing file; none where it cannot be read. -/
def openFile (codec : Codec TsEntry) (ops : FloatOps) (file : Bytes) : Option TimeIndex := do
  let (fixed, rest) ← splitExact 16 file
  let retention := ofSignedBytes (fixed.drop 8)
  let policy : TimeBucketPolicy :=
    ⟨ofSignedBytes (fixed.take 8), if retention < 0 then none else some retention⟩
  let (width, rest) ← splitExact 2 rest
  let (column, rest) ← splitExact (ofBe width) rest
  let valueColumn ← String.fromUTF8? ⟨column.toArray⟩
  let entries ← readLog codec.deserialize rest
  some (entries.foldl (fun index entry => index.applyInsert ops entry false)
    ⟨file, policy, valueColumn, OrdMap.empty, -2 ^ 63⟩)

/-- The buckets from the one of `t0` to the last that starts by `t1`. -/
def bucketsBetween (index : TimeIndex) (t0 t1 : Int) : List (Int × Bucket) :=
  (index.buckets.toList.filter fun bucket => decide (index.start t0 ≤ bucket.1)).takeWhile
    fun bucket => decide (bucket.1 ≤ t1)

def queryRange (index : TimeIndex) (t0 t1 : Int) : List Bytes :=
  (index.bucketsBetween t0 t1).flatMap fun bucket =>
    (bucket.2.readings.filter fun reading => decide (t0 ≤ reading.1 ∧ reading.1 ≤ t1)).map Prod.snd

def queryRollups (index : TimeIndex) (t0 t1 : Int) : List (Int × Rollup) :=
  (index.bucketsBetween t0 t1).map fun bucket => (bucket.1, bucket.2.rollup)

end TimeIndex

/-! ## One layout of an entry, and floats -/

open Bincode in
def bincodeEntry : Codec TsEntry where
  serialize entry := writeBytes entry.rowKey ++ (writeI64 entry.ts ++ writeU64 entry.value.toNat)
  deserialize data := do
    let (rowKey, data) ← readBytes data
    let (ts, data) ← readI64 data
    let (value, _) ← readU64 data
    some ⟨rowKey, ts, UInt64.ofNat value⟩
  Valid entry := entry.rowKey.length < 2 ^ 64 ∧ IsSigned64 entry.ts
  roundTrip := by
    intro entry valid
    obtain ⟨rowKey, ts⟩ := valid
    have last := readU64_writeU64 entry.value.toNat_lt []
    rw [List.append_nil] at last
    simp only [Option.bind_eq_bind, readBytes_writeBytes rowKey, readI64_writeI64 ts, last,
      Option.bind_some, UInt64.ofNat_toNat]

def zeroFloats : FloatOps where
  add sum _ := sum
  min _ value := value
  max _ value := value

end Pantheon.Keystone
