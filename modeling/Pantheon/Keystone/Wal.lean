import Mathlib
import Pantheon.Lib.Bytes
import Pantheon.Lib.Utf8

/-!
# The write-ahead log of `storage/wal.rs` and `storage/io_backend.rs`

The log file is a byte string; `append_batch` frames a whole batch as
`marker | commit_seq(8) | count(4) | record*` and `replay` reads it back,
dropping a batch the file ends inside.  The decoder works on the bytes from the
current position on, so `pos + n > buf.len()` is "fewer than `n` bytes left".

`WalIo` is the portable backend: it tracks the append position itself, writes
there whatever the file's length is, and an interrupted call may leave the
file and the tracked position apart.
-/

set_option autoImplicit false

namespace Pantheon.Keystone

open Pantheon.Lib

/-- The errors of the storage layer.  `io` is any failure the operating system
or the object store reports in its own words. -/
inductive StorageError where
  | io
  | fenced
  | manifestAfterFlush
  | manifestAfterCompaction
  | sstableNotFound (objectKey : String)
  | leaseHeld (holderId : String) (expiresAtMs fencingToken : Nat)
  | acquiringLease
  | renewingLease
deriving DecidableEq

def StorageError.message : StorageError → String
  | io => ""
  | fenced => "fenced off: this node no longer holds the write lease"
  | manifestAfterFlush => "updating manifest after flush — another writer may be active"
  | manifestAfterCompaction => "updating manifest after compaction — another writer may be active"
  | sstableNotFound objectKey => "sstable object " ++ objectKey ++ " not found"
  | leaseHeld holderId expiresAtMs fencingToken =>
      "lease held by \"" ++ holderId ++ "\" until " ++ toString expiresAtMs ++
        " (fencing token " ++ toString fencingToken ++ ")"
  | acquiringLease => "acquiring write lease"
  | renewingLease => "renewing write lease"

def batchMarker : UInt8 := 0xFF

structure WalEntry where
  table : String
  key : Bytes
  value : Bytes
  recordType : UInt8
deriving DecidableEq

structure WalRecord where
  seq : Nat
  table : String
  key : Bytes
  value : Bytes
  recordType : UInt8
deriving DecidableEq

/-- A batch as it is appended: its commit sequence and its entries. -/
structure WalBatch where
  commitSeq : Nat
  entries : List WalEntry
deriving DecidableEq

def WalEntry.record (entry : WalEntry) (seq : Nat) : WalRecord :=
  ⟨seq, entry.table, entry.key, entry.value, entry.recordType⟩

def WalBatch.records (batch : WalBatch) : List WalRecord :=
  batch.entries.map fun entry => entry.record batch.commitSeq

/-! ## Encoding -/

def encodeEntry (entry : WalEntry) : Bytes :=
  beBytes 4 (utf8Bytes entry.table).length ++ utf8Bytes entry.table ++
    beBytes 4 entry.key.length ++ entry.key ++
    beBytes 4 entry.value.length ++ entry.value ++ [entry.recordType]

def encodeBatch (batch : WalBatch) : Bytes :=
  [batchMarker] ++ beBytes 8 batch.commitSeq ++ beBytes 4 batch.entries.length ++
    batch.entries.flatMap encodeEntry

def encodeBatches (batches : List WalBatch) : Bytes := batches.flatMap encodeBatch

/-! ## Replay -/

def parseRecord (seq : Nat) (buf : Bytes) : Option (WalRecord × Bytes) := do
  let (tableLen, buf) ← splitExact 4 buf
  let (table, buf) ← splitExact (ofBe tableLen) buf
  let (keyLen, buf) ← splitExact 4 buf
  let (key, buf) ← splitExact (ofBe keyLen) buf
  let (valueLen, buf) ← splitExact 4 buf
  let (value, buf) ← splitExact (ofBe valueLen) buf
  let (recordType, buf) ← splitExact 1 buf
  some (⟨seq, fromUtf8Lossy table, key, value, recordType.getD 0 0⟩, buf)

def parseRecords (seq : Nat) : Nat → Bytes → Option (List WalRecord × Bytes)
  | 0, buf => some ([], buf)
  | count + 1, buf => do
      let (record, buf) ← parseRecord seq buf
      let (records, buf) ← parseRecords seq count buf
      some (record :: records, buf)

/-- The batch loop.  One unit of fuel is one iteration, which takes at least
the thirteen header bytes. -/
def replayLoop : Nat → Bytes → Nat → List WalRecord × Nat
  | 0, _, maxSeq => ([], maxSeq)
  | fuel + 1, buf, maxSeq =>
      if buf.length < 1 + 8 + 4 ∨ buf.head? ≠ some batchMarker then ([], maxSeq)
      else
        let commitSeq := ofBe ((buf.drop 1).take 8)
        let count := ofBe ((buf.drop 9).take 4)
        -- the watermark moves even when the batch turns out to be torn
        let maxSeq := max maxSeq commitSeq
        match parseRecords commitSeq count (buf.drop 13) with
        | none => ([], maxSeq)
        | some (records, buf) =>
            let (later, maxSeq) := replayLoop fuel buf maxSeq
            (records ++ later, maxSeq)

def replayFrom (buf : Bytes) (maxSeq : Nat) : List WalRecord × Nat :=
  replayLoop (buf.length + 1) buf maxSeq

/-! ## The log file -/

structure WalIo where
  file : Bytes
  offset : Nat
deriving DecidableEq

/-- Write `data` at `offset`; a gap before it reads as zeros. -/
def writeAt (file : Bytes) (offset : Nat) (data : Bytes) : Bytes :=
  file.take offset ++ List.replicate (offset - file.length) 0 ++ data ++
    file.drop (offset + data.length)

/-- `failure` is `some n` when the write or its fsync fails after `n` bytes
reached the file. -/
def WalIo.append (io : WalIo) (failure : Option Nat) (buf : Bytes) :
    WalIo × Except StorageError Unit :=
  match failure with
  | none => (⟨writeAt io.file io.offset buf, io.offset + buf.length⟩, .ok ())
  | some written => (⟨writeAt io.file io.offset (buf.take written), io.offset⟩, .error .io)

inductive TruncateFault where
  | setLen
  | sync
deriving DecidableEq

/-- A failed fsync leaves the file short and the tracked position where it was. -/
def WalIo.truncate (io : WalIo) (failure : Option TruncateFault) :
    WalIo × Except StorageError Unit :=
  match failure with
  | none => (⟨[], 0⟩, .ok ())
  | some .setLen => (io, .error .io)
  | some .sync => (⟨[], io.offset⟩, .error .io)

structure Wal where
  io : WalIo
  bytesWritten : Nat
deriving DecidableEq

namespace Wal

def openFile (file : Bytes) : Wal := ⟨⟨file, file.length⟩, file.length⟩

def appendBatch (wal : Wal) (failure : Option Nat) (batch : WalBatch) :
    Wal × Except StorageError (List WalRecord) :=
  let buf := encodeBatch batch
  match wal.io.append failure buf with
  | (io, .ok ()) => (⟨io, wal.bytesWritten + buf.length⟩, .ok batch.records)
  | (io, .error error) => (⟨io, wal.bytesWritten⟩, .error error)

def replay (wal : Wal) : List WalRecord × Nat := replayFrom wal.io.file 0

def readAllBytes (wal : Wal) : Bytes := wal.io.file

def truncate (wal : Wal) (failure : Option TruncateFault) : Wal × Except StorageError Unit :=
  match wal.io.truncate failure with
  | (io, .ok ()) => (⟨io, 0⟩, .ok ())
  | (io, .error error) => (⟨io, wal.bytesWritten⟩, .error error)

def appendBatches (wal : Wal) (batches : List WalBatch) : Wal :=
  batches.foldl (fun wal batch => (wal.appendBatch none batch).1) wal

end Wal

/-! ## Field widths -/

/-- Every length and the count fit their four-byte fields, the sequence its
eight-byte field. -/
structure WalEntry.Fits (entry : WalEntry) : Prop where
  table : (utf8Bytes entry.table).length < 2 ^ 32
  key : entry.key.length < 2 ^ 32
  value : entry.value.length < 2 ^ 32

structure WalBatch.Fits (batch : WalBatch) : Prop where
  seq : batch.commitSeq < 2 ^ 64
  count : batch.entries.length < 2 ^ 32
  entries : ∀ entry ∈ batch.entries, entry.Fits

instance (entry : WalEntry) : Decidable entry.Fits :=
  decidable_of_iff ((utf8Bytes entry.table).length < 2 ^ 32 ∧ entry.key.length < 2 ^ 32 ∧
      entry.value.length < 2 ^ 32)
    ⟨fun ⟨table, key, value⟩ => ⟨table, key, value⟩, fun fits => ⟨fits.table, fits.key, fits.value⟩⟩

instance (batch : WalBatch) : Decidable batch.Fits :=
  decidable_of_iff (batch.commitSeq < 2 ^ 64 ∧ batch.entries.length < 2 ^ 32 ∧
      ∀ entry ∈ batch.entries, entry.Fits)
    ⟨fun ⟨seq, count, entries⟩ => ⟨seq, count, entries⟩,
      fun fits => ⟨fits.seq, fits.count, fits.entries⟩⟩

theorem ofBe_beBytes_four (number : Nat) (fits : number < 2 ^ 32) :
    ofBe (beBytes 4 number) = number :=
  ofBe_beBytes_of_lt 4 number (by omega)

theorem ofBe_beBytes_eight (number : Nat) (fits : number < 2 ^ 64) :
    ofBe (beBytes 8 number) = number :=
  ofBe_beBytes_of_lt 8 number (by omega)

theorem parseRecord_encodeEntry (seq : Nat) (entry : WalEntry) (fits : entry.Fits) (rest : Bytes) :
    parseRecord seq (encodeEntry entry ++ rest) = some (entry.record seq, rest) := by
  unfold parseRecord encodeEntry
  simp only [List.append_assoc, splitExact_beBytes, Option.bind_eq_bind, Option.bind_some,
    ofBe_beBytes_four _ fits.table, ofBe_beBytes_four _ fits.key, ofBe_beBytes_four _ fits.value,
    splitExact_append]
  have lastByte : splitExact 1 (entry.recordType :: rest) = some ([entry.recordType], rest) :=
    splitExact_append [entry.recordType] rest
  simp [lastByte, fromUtf8Lossy_utf8Bytes, WalEntry.record]

theorem parseRecords_encode (seq : Nat) : ∀ (entries : List WalEntry) (rest : Bytes),
    (∀ entry ∈ entries, entry.Fits) →
    parseRecords seq entries.length (entries.flatMap encodeEntry ++ rest) =
      some (entries.map fun entry => entry.record seq, rest) := by
  intro entries
  induction entries with
  | nil => intro rest _; rfl
  | cons entry entries ih =>
      intro rest fits
      simp only [List.flatMap_cons, List.append_assoc, List.length_cons, parseRecords,
        parseRecord_encodeEntry seq entry (fits entry List.mem_cons_self), Option.bind_eq_bind,
        Option.bind_some, ih rest fun other member => fits other (List.mem_cons_of_mem _ member),
        List.map_cons]

/-! ## Parsing is local

A successful parse leaves a suffix, and giving it more bytes behind does not
change what it read. -/

theorem splitExact_extend (count : Nat) (buf front rest more : Bytes)
    (found : splitExact count buf = some (front, rest)) :
    splitExact count (buf ++ more) = some (front, rest ++ more) := by
  obtain ⟨rfl, rfl⟩ := splitExact_eq_some count buf front rest found
  rw [List.append_assoc]
  exact splitExact_append front (rest ++ more)

theorem parseRecord_extend (seq : Nat) (buf rest more : Bytes) (record : WalRecord)
    (found : parseRecord seq buf = some (record, rest)) :
    parseRecord seq (buf ++ more) = some (record, rest ++ more) := by
  unfold parseRecord at found ⊢
  simp only [Option.bind_eq_bind, Option.bind_eq_some_iff, Prod.exists, Option.some.injEq,
    Prod.mk.injEq] at found
  obtain ⟨tableLen, buf1, split1, table, buf2, split2, keyLen, buf3, split3, key, buf4, split4,
    valueLen, buf5, split5, value, buf6, split6, last, buf7, split7, recordExact, rfl⟩ := found
  simp only [splitExact_extend _ _ _ _ more split1, splitExact_extend _ _ _ _ more split2,
    splitExact_extend _ _ _ _ more split3, splitExact_extend _ _ _ _ more split4,
    splitExact_extend _ _ _ _ more split5, splitExact_extend _ _ _ _ more split6,
    splitExact_extend _ _ _ _ more split7, Option.bind_eq_bind, Option.bind_some, recordExact]

theorem parseRecord_seq (seq : Nat) (buf rest : Bytes) (record : WalRecord)
    (found : parseRecord seq buf = some (record, rest)) : record.seq = seq := by
  unfold parseRecord at found
  simp only [Option.bind_eq_bind, Option.bind_eq_some_iff, Prod.exists, Option.some.injEq,
    Prod.mk.injEq] at found
  obtain ⟨_, _, _, _, _, _, _, _, _, _, _, _, _, _, _, _, _, _, _, _, _, recordExact, _⟩ := found
  rw [← recordExact]

theorem parseRecords_seq (seq : Nat) : ∀ (count : Nat) (buf rest : Bytes)
    (records : List WalRecord), parseRecords seq count buf = some (records, rest) →
    ∀ record ∈ records, record.seq = seq := by
  intro count
  induction count with
  | zero =>
      intro buf rest records found record member
      obtain ⟨rfl, _⟩ := Prod.mk.inj (Option.some.inj found)
      exact absurd member List.not_mem_nil
  | succ count ih =>
      intro buf rest records found record member
      simp only [parseRecords, Option.bind_eq_bind, Option.bind_eq_some_iff, Prod.exists,
        Option.some.injEq, Prod.mk.injEq] at found
      obtain ⟨head, middle, first, tail, last, later, rfl, rfl⟩ := found
      rcases List.mem_cons.mp member with rfl | member
      · exact parseRecord_seq seq buf middle record first
      · exact ih middle last tail later record member

theorem parseRecords_extend (seq : Nat) : ∀ (count : Nat) (buf rest more : Bytes)
    (records : List WalRecord), parseRecords seq count buf = some (records, rest) →
    parseRecords seq count (buf ++ more) = some (records, rest ++ more) := by
  intro count
  induction count with
  | zero =>
      intro buf rest more records found
      obtain ⟨rfl, rfl⟩ := Prod.mk.inj (Option.some.inj found)
      rfl
  | succ count ih =>
      intro buf rest more records found
      simp only [parseRecords, Option.bind_eq_bind, Option.bind_eq_some_iff, Prod.exists,
        Option.some.injEq, Prod.mk.injEq] at found
      obtain ⟨record, middle, first, tail, last, later, rfl, rfl⟩ := found
      simp only [parseRecords, parseRecord_extend seq buf middle more record first,
        Option.bind_eq_bind, Option.bind_some, ih middle last more tail later]

theorem parseRecords_length (seq : Nat) : ∀ (count : Nat) (buf rest : Bytes)
    (records : List WalRecord), parseRecords seq count buf = some (records, rest) →
    rest.length ≤ buf.length := by
  intro count
  induction count with
  | zero =>
      intro buf rest records found
      obtain ⟨_, rfl⟩ := Prod.mk.inj (Option.some.inj found)
      exact le_rfl
  | succ count ih =>
      intro buf rest records found
      simp only [parseRecords, Option.bind_eq_bind, Option.bind_eq_some_iff, Prod.exists,
        Option.some.injEq, Prod.mk.injEq] at found
      obtain ⟨record, middle, first, tail, last, later, _, rfl⟩ := found
      refine (ih middle last tail later).trans ?_
      unfold parseRecord at first
      simp only [Option.bind_eq_bind, Option.bind_eq_some_iff, Prod.exists, Option.some.injEq,
        Prod.mk.injEq] at first
      obtain ⟨_, buf1, split1, _, buf2, split2, _, buf3, split3, _, buf4, split4, _, buf5, split5,
        _, buf6, split6, _, buf7, split7, _, rfl⟩ := first
      have shrink : ∀ count buf front rest, splitExact count buf = some (front, rest) →
          rest.length ≤ buf.length := by
        intro count buf front rest found
        rw [(splitExact_eq_some count buf front rest found).1]
        simp
      have := shrink _ _ _ _ split1
      have := shrink _ _ _ _ split2
      have := shrink _ _ _ _ split3
      have := shrink _ _ _ _ split4
      have := shrink _ _ _ _ split5
      have := shrink _ _ _ _ split6
      have := shrink _ _ _ _ split7
      omega

end Pantheon.Keystone
