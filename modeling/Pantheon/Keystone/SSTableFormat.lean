import Mathlib
import Pantheon.Lib.Buffers
import Pantheon.Keystone.MergeReads

/-!
# The file of a sorted table: `storage/sstable.rs`

`build_bytes` writes the data records, the index, the bloom filter and a footer
of three offsets; `decode` finds the sections through the footer.  A deletion
has an index entry but no data record.  The bloom filter comes from a crate and
is a parameter here, with its two laws.

A decoded file reads like `SSTable`, the table that the rest of the engine is
modelled over.
-/

set_option autoImplicit false

namespace Pantheon.Keystone

open Pantheon.Lib

/-- The operations of the bloom filter crate that the table format uses. -/
structure BloomCrate (Filter : Type) where
  newForFpRate : Nat → Filter
  set : Filter → Bytes → Filter
  check : Filter → Bytes → Bool
  bitmap : Filter → Bytes
  numberOfBits : Filter → UInt64
  numberOfHashFunctions : Filter → UInt32
  sipKeys : Filter → (UInt64 × UInt64) × (UInt64 × UInt64)
  fromExisting : Bytes → UInt64 → UInt32 → (UInt64 × UInt64) × (UInt64 × UInt64) → Filter

/-- A key that was set checks positive from then on, and a filter put together
from its own parts checks as it did. -/
structure BloomCrate.Lawful {Filter : Type} (crate : BloomCrate Filter) : Prop where
  set_check : ∀ filter key, crate.check (crate.set filter key) key = true
  set_keeps : ∀ filter key other, crate.check filter key = true →
    crate.check (crate.set filter other) key = true
  from_parts : ∀ filter key, crate.check (crate.fromExisting (crate.bitmap filter)
    (crate.numberOfBits filter) (crate.numberOfHashFunctions filter) (crate.sipKeys filter)) key =
      crate.check filter key

structure IndexEntry where
  key : Bytes
  seq : Nat
  tag : UInt8
  offset : Nat
  valueLen : Nat
deriving DecidableEq

/-- A decoded file: the index and the filter parsed, the data left in place. -/
structure SSTableFile (Filter : Type) where
  id : Nat
  index : List IndexEntry
  bloom : Filter
  data : Bytes

namespace SSTableFile

/-! ## Reading at an offset -/

def readU32 (buf : Bytes) (pos : Nat) : Except String Nat :=
  readBe buf pos 4 s!"truncated sstable buffer (want u32 at {pos})"

def readU64 (buf : Bytes) (pos : Nat) : Except String Nat :=
  readBe buf pos 8 s!"truncated sstable buffer (want u64 at {pos})"

def readValueAt (buf : Bytes) (entry : IndexEntry) : Except String Bytes := do
  let keyLen ← readU32 buf entry.offset
  let pos := entry.offset + (4 + keyLen)
  let valueLen ← readU32 buf pos
  readSlice buf (pos + 4) valueLen "truncated sstable data record"

/-! ## Writing -/

/-- The data record of an entry; a deletion has none. -/
def dataRecord (entry : Entry) : Bytes :=
  if entry.1.isDelete then []
  else beBytes 4 entry.1.userKey.length ++ (entry.1.userKey ++
    (beBytes 4 entry.2.length ++ entry.2))

/-- The index of entries whose data records start at `offset`. -/
def indexOf : Nat → List Entry → List IndexEntry
  | _, [] => []
  | offset, entry :: rest =>
      ⟨entry.1.userKey, entry.1.seq, entry.1.tag, offset,
        if entry.1.isDelete then 0 else entry.2.length % 2 ^ 32⟩ ::
          indexOf (offset + (dataRecord entry).length) rest

def indexBytes (entry : IndexEntry) : Bytes :=
  beBytes 4 entry.key.length ++ (entry.key ++ (beBytes 8 entry.seq ++ ([entry.tag] ++
    (beBytes 8 entry.offset ++ beBytes 4 entry.valueLen))))

variable {Filter : Type} (crate : BloomCrate Filter)

def bloomOf (entries : List Entry) : Filter :=
  entries.foldl (fun filter entry => crate.set filter entry.1.userKey)
    (crate.newForFpRate (max entries.length 1))

def sipBytes (keys : (UInt64 × UInt64) × (UInt64 × UInt64)) : Bytes :=
  beBytes 8 keys.1.1.toNat ++ (beBytes 8 keys.1.2.toNat ++
    (beBytes 8 keys.2.1.toNat ++ beBytes 8 keys.2.2.toNat))

def bloomBytes (filter : Filter) : Bytes :=
  beBytes 4 (crate.bitmap filter).length ++ (crate.bitmap filter ++
    (beBytes 8 (crate.numberOfBits filter).toNat ++
      (beBytes 4 (crate.numberOfHashFunctions filter).toNat ++ sipBytes (crate.sipKeys filter))))

/-- `data section | index section | bloom section | 24-byte footer`. -/
def buildBytes (entries : List Entry) : Bytes :=
  let data := entries.flatMap dataRecord
  let index := indexOf 0 entries
  let indexOffset := data.length
  let buf := data ++ (beBytes 4 index.length ++ index.flatMap indexBytes)
  let bloomOffset := buf.length
  let buf := buf ++ bloomBytes crate (bloomOf crate entries)
  buf ++ (beBytes 8 0 ++ (beBytes 8 indexOffset ++ beBytes 8 bloomOffset))

/-! ## Decoding -/

def readIndexEntry (buf : Bytes) (pos : Nat) : Except String (IndexEntry × Nat) := do
  let keyLen ← readU32 buf pos
  let key ← readSlice buf (pos + 4) keyLen "truncated sstable index entry"
  let pos := pos + 4 + keyLen
  let seq ← readU64 buf pos
  let tag ← match buf[pos + 8]? with
    | none => .error "truncated sstable index entry (tag)"
    | some tag => .ok tag
  let offset ← readU64 buf (pos + 9)
  let valueLen ← readU32 buf (pos + 17)
  return (⟨key, seq, tag, offset, valueLen⟩, pos + 21)

def readIndex (buf : Bytes) : Nat → Nat → Except String (List IndexEntry)
  | 0, _ => .ok []
  | count + 1, pos => do
      let (entry, pos) ← readIndexEntry buf pos
      let rest ← readIndex buf count pos
      return entry :: rest

def readBloom (buf : Bytes) (pos : Nat) : Except String Filter := do
  let bitsLen ← readU32 buf pos
  let bits ← readSlice buf (pos + 4) bitsLen "truncated sstable bloom bitmap"
  let pos := pos + 4 + bitsLen
  let numBits ← readU64 buf pos
  let numHashes ← readU32 buf (pos + 8)
  let first0 ← readU64 buf (pos + 12)
  let first1 ← readU64 buf (pos + 20)
  let second0 ← readU64 buf (pos + 28)
  let second1 ← readU64 buf (pos + 36)
  return crate.fromExisting bits (UInt64.ofNat numBits) (UInt32.ofNat numHashes)
    ((UInt64.ofNat first0, UInt64.ofNat first1), (UInt64.ofNat second0, UInt64.ofNat second1))

def decode (id : Nat) (buf : Bytes) : Except String (SSTableFile Filter) :=
  if buf.length < 24 then .error "sstable blob too small to contain a footer"
  else do
    let footerStart := buf.length - 24
    let indexOffset ← readU64 buf (footerStart + 8)
    let bloomOffset ← readU64 buf (footerStart + 16)
    let count ← readU32 buf indexOffset
    let index ← readIndex buf count (indexOffset + 4)
    let bloom ← readBloom crate buf bloomOffset
    return ⟨id, index, bloom, buf⟩

/-! ## Lookup -/

def beforeSeek (key : Bytes) (snapshotSeq : Nat) (entry : IndexEntry) : Bool :=
  if entry.key < key then true
  else if entry.key = key then decide (snapshotSeq < entry.seq)
  else false

def readAt (file : SSTableFile Filter) (key : Bytes) (snapshotSeq : Nat) :
    Except String (Option (Option Bytes)) :=
  if !crate.check file.bloom key then .ok none
  else
    match file.index[partitionPoint (beforeSeek key snapshotSeq) file.index]? with
    | none => .ok none
    | some entry =>
        if entry.key ≠ key then .ok none
        else if entry.tag = deleteTag then .ok (some none)
        else (readValueAt file.data entry).map fun value => some (some value)

def scanAllVersions (file : SSTableFile Filter) : Except String (List VersionRow) :=
  file.index.mapM fun entry =>
    if entry.tag = deleteTag then .ok ⟨entry.key, entry.seq, entry.tag, none⟩
    else (readValueAt file.data entry).map fun value => ⟨entry.key, entry.seq, entry.tag, some value⟩

/-! ## Index entries point at their data records -/

variable {buf : Bytes} {pos : Nat} {entry : Entry} {located : IndexEntry}

theorem readU32_ok {number : Nat} (holds : HoldsAt buf pos (beBytes 4 number))
    (fits : number < 2 ^ 32) : readU32 buf pos = .ok number :=
  readBe_ok holds (by simpa using fits) _

theorem readU64_ok {number : Nat} (holds : HoldsAt buf pos (beBytes 8 number))
    (fits : number < 2 ^ 64) : readU64 buf pos = .ok number :=
  readBe_ok holds (by simpa using fits) _

/-- The lengths and the sequence of an entry fit the fields they are written to. -/
structure EntryFits (entry : Entry) : Prop where
  key : entry.1.userKey.length < 2 ^ 32
  value : entry.2.length < 2 ^ 32
  seq : entry.1.seq < 2 ^ 64

/-- An index entry stands for an entry, whose data record it locates. -/
structure Points (buf : Bytes) (entry : Entry) (located : IndexEntry) : Prop where
  key : located.key = entry.1.userKey
  seq : located.seq = entry.1.seq
  tag : located.tag = entry.1.tag
  record : HoldsAt buf located.offset (dataRecord entry)

theorem indexOf_points (buf : Bytes) : ∀ (entries : List Entry) (offset : Nat),
    HoldsAt buf offset (entries.flatMap dataRecord) →
    List.Forall₂ (Points buf) entries (indexOf offset entries) := by
  intro entries
  induction entries with
  | nil => intro offset _; exact List.Forall₂.nil
  | cons entry rest ih =>
      intro offset holds
      rw [List.flatMap_cons] at holds
      exact List.Forall₂.cons ⟨rfl, rfl, rfl, holds.left⟩ (ih _ holds.right)

theorem readValueAt_points
    (points : Points buf entry located) (fits : EntryFits entry)
    (live : entry.1.isDelete = false) : readValueAt buf located = .ok entry.2 := by
  have record := points.record
  rw [dataRecord, live, if_neg Bool.false_ne_true] at record
  have keyLen := readU32_ok record.left fits.key
  have afterKey := record.right.right
  rw [beBytes_length, Nat.add_assoc] at afterKey
  have valueLen := readU32_ok afterKey.left fits.value
  have value := readSlice_ok afterKey.right "truncated sstable data record"
  rw [beBytes_length] at value
  unfold readValueAt
  simp only [keyLen, valueLen, value, bind, Except.bind]

/-! ## The index reads back -/

structure IndexFits (entry : IndexEntry) : Prop where
  key : entry.key.length < 2 ^ 32
  seq : entry.seq < 2 ^ 64
  offset : entry.offset < 2 ^ 64
  valueLen : entry.valueLen < 2 ^ 32

theorem indexOf_fits : ∀ (entries : List Entry) (offset : Nat),
    (∀ entry ∈ entries, EntryFits entry) →
    offset + (entries.flatMap dataRecord).length < 2 ^ 64 →
    ∀ located ∈ indexOf offset entries, IndexFits located := by
  intro entries
  induction entries with
  | nil => intro offset _ _ located member; exact absurd member List.not_mem_nil
  | cons entry rest ih =>
      intro offset each room located member
      rw [List.flatMap_cons, List.length_append] at room
      have own := each entry List.mem_cons_self
      rcases List.mem_cons.mp member with rfl | member
      · refine ⟨own.key, own.seq, by dsimp only; omega, ?_⟩
        dsimp only
        split_ifs
        · omega
        · exact Nat.mod_lt _ (by omega)
      · exact ih _ (fun other otherMember => each other (List.mem_cons_of_mem _ otherMember))
          (by omega) located member

theorem indexOf_length : ∀ (entries : List Entry) (offset : Nat),
    (indexOf offset entries).length = entries.length := by
  intro entries
  induction entries with
  | nil => intro offset; rfl
  | cons entry rest ih => intro offset; rw [indexOf, List.length_cons, List.length_cons, ih]

theorem readIndexEntry_ok {entry : IndexEntry} (fits : IndexFits entry)
    (holds : HoldsAt buf pos (indexBytes entry)) :
    readIndexEntry buf pos = .ok (entry, pos + (indexBytes entry).length) := by
  unfold indexBytes at holds
  have keyLen := readU32_ok holds.left fits.key
  have afterLen := holds.right
  rw [beBytes_length] at afterLen
  have key := readSlice_ok afterLen.left "truncated sstable index entry"
  have fields := afterLen.right
  have seq := readU64_ok fields.left fits.seq
  have afterSeq := fields.right
  rw [beBytes_length] at afterSeq
  have tag := afterSeq.left.byte
  have afterTag := afterSeq.right
  rw [List.length_singleton] at afterTag
  have offset := readU64_ok afterTag.left fits.offset
  have afterOffset := afterTag.right
  rw [beBytes_length] at afterOffset
  have valueLen := readU32_ok afterOffset fits.valueLen
  have length : (indexBytes entry).length = 4 + entry.key.length + 21 := by
    simp only [indexBytes, List.length_append, beBytes_length, List.length_singleton]
    omega
  unfold readIndexEntry
  simp only [Nat.add_assoc, bind, Except.bind, pure, Except.pure] at *
  simp only [keyLen, key, seq, tag, offset, valueLen, length]

theorem readIndex_ok : ∀ (index : List IndexEntry) (pos : Nat),
    (∀ entry ∈ index, IndexFits entry) → HoldsAt buf pos (index.flatMap indexBytes) →
    readIndex buf index.length pos = .ok index := by
  intro index
  induction index with
  | nil => intro pos _ _; rfl
  | cons entry rest ih =>
      intro pos each holds
      rw [List.flatMap_cons] at holds
      have first := readIndexEntry_ok (each entry List.mem_cons_self) holds.left
      have others := ih _ (fun other member => each other (List.mem_cons_of_mem _ member))
        holds.right
      rw [List.length_cons, readIndex]
      simp only [first, others, bind, Except.bind, pure, Except.pure]

theorem readBloom_ok {filter : Filter}
    (fits : (crate.bitmap filter).length < 2 ^ 32) (holds : HoldsAt buf pos (bloomBytes crate filter)) :
    readBloom crate buf pos = .ok (crate.fromExisting (crate.bitmap filter)
      (crate.numberOfBits filter) (crate.numberOfHashFunctions filter) (crate.sipKeys filter)) := by
  unfold bloomBytes sipBytes at holds
  have bitsLen := readU32_ok holds.left fits
  have afterLen := holds.right
  rw [beBytes_length] at afterLen
  have bits := readSlice_ok afterLen.left "truncated sstable bloom bitmap"
  have fields := afterLen.right
  have numBits := readU64_ok fields.left (crate.numberOfBits filter).toNat_lt
  have afterBits := fields.right
  rw [beBytes_length] at afterBits
  have numHashes := readU32_ok afterBits.left (crate.numberOfHashFunctions filter).toNat_lt
  have keys := afterBits.right
  rw [beBytes_length] at keys
  have first0 := readU64_ok keys.left (crate.sipKeys filter).1.1.toNat_lt
  have afterFirst0 := keys.right
  rw [beBytes_length] at afterFirst0
  have first1 := readU64_ok afterFirst0.left (crate.sipKeys filter).1.2.toNat_lt
  have afterFirst1 := afterFirst0.right
  rw [beBytes_length] at afterFirst1
  have second0 := readU64_ok afterFirst1.left (crate.sipKeys filter).2.1.toNat_lt
  have afterSecond0 := afterFirst1.right
  rw [beBytes_length] at afterSecond0
  have second1 := readU64_ok afterSecond0 (crate.sipKeys filter).2.2.toNat_lt
  unfold readBloom
  simp only [Nat.add_assoc, Nat.reduceAdd, bind, Except.bind, pure, Except.pure] at *
  simp only [bitsLen, bits, numBits, numHashes, first0, first1, second0, second1,
    UInt64.ofNat_toNat, UInt32.ofNat_toNat]

/-! ## The file reads back -/

/-- The fields of the format are wide enough: for each entry, for the number of
entries and the filter's bitmap, and for the offsets into the file. -/
structure FormatFits (entries : List Entry) : Prop where
  each : ∀ entry ∈ entries, EntryFits entry
  count : entries.length < 2 ^ 32
  bitmap : (crate.bitmap (bloomOf crate entries)).length < 2 ^ 32
  blob : (buildBytes crate entries).length < 2 ^ 64

/-- What `decode` makes of a written file. -/
def written (id : Nat) (entries : List Entry) : SSTableFile Filter :=
  let filter := bloomOf crate entries
  { id := id
    index := indexOf 0 entries
    bloom := crate.fromExisting (crate.bitmap filter) (crate.numberOfBits filter)
      (crate.numberOfHashFunctions filter) (crate.sipKeys filter)
    data := buildBytes crate entries }

theorem decode_buildBytes {entries : List Entry} (fits : FormatFits crate entries) (id : Nat) :
    decode crate id (buildBytes crate entries) = .ok (written crate id entries) := by
  set data := entries.flatMap dataRecord with dataExact
  set index := beBytes 4 (indexOf 0 entries).length ++ (indexOf 0 entries).flatMap indexBytes
    with indexExact
  set bloom := bloomBytes crate (bloomOf crate entries) with bloomExact
  set footer := beBytes 8 0 ++ (beBytes 8 data.length ++ beBytes 8 (data ++ index).length)
    with footerExact
  have built : buildBytes crate entries = data ++ index ++ bloom ++ footer := rfl
  have footerLength : footer.length = 24 := by simp [footerExact]
  have total : (buildBytes crate entries).length =
      (data ++ index ++ bloom).length + 24 := by
    rw [built, List.length_append, footerLength]
  have room := fits.blob
  rw [total] at room
  simp only [List.length_append] at room
  have atFooter : HoldsAt (buildBytes crate entries) (data ++ index ++ bloom).length footer :=
    ⟨_, [], by rw [built, List.append_nil], rfl⟩
  have atIndex : HoldsAt (buildBytes crate entries) data.length index :=
    ⟨data, bloom ++ footer, by rw [built]; simp, rfl⟩
  have atBloom : HoldsAt (buildBytes crate entries) (data ++ index).length bloom :=
    ⟨data ++ index, footer, built, rfl⟩
  have offsets := atFooter.right
  rw [beBytes_length] at offsets
  have indexOffset := readU64_ok offsets.left (by omega)
  have afterIndex := offsets.right
  rw [beBytes_length, Nat.add_assoc] at afterIndex
  have bloomOffset := readU64_ok afterIndex (by rw [List.length_append]; omega)
  have counted : (indexOf 0 entries).length < 2 ^ 32 := by
    rw [indexOf_length]
    exact fits.count
  have count := readU32_ok atIndex.left counted
  have atEntries := atIndex.right
  rw [beBytes_length] at atEntries
  have entriesRead := readIndex_ok (indexOf 0 entries) _
    (indexOf_fits entries 0 fits.each (by rw [← dataExact]; omega)) atEntries
  have bloomRead := readBloom_ok crate fits.bitmap atBloom
  have footerStart : (buildBytes crate entries).length - 24 = (data ++ index ++ bloom).length := by
    omega
  unfold decode
  rw [if_neg (by omega)]
  simp only [footerStart, indexOffset, bloomOffset, count, entriesRead, bloomRead, bind, Except.bind,
    pure, Except.pure]
  rfl

theorem written_points (id : Nat) (entries : List Entry) :
    List.Forall₂ (Points (written crate id entries).data) entries
      (written crate id entries).index := by
  have built : ∃ rest, buildBytes crate entries = entries.flatMap dataRecord ++ rest := by
    unfold buildBytes
    simp only [List.append_assoc]
    exact ⟨_, rfl⟩
  obtain ⟨rest, exact⟩ := built
  refine indexOf_points (buildBytes crate entries) entries 0 ⟨[], rest, ?_, rfl⟩
  rw [exact, List.nil_append]

/-! ## A decoded file reads like a table -/

variable {crate}

theorem check_set_fold (lawful : crate.Lawful) (key : Bytes) : ∀ (keys : List Bytes)
    (filter : Filter), (key ∈ keys ∨ crate.check filter key = true) →
    crate.check (keys.foldl crate.set filter) key = true := by
  intro keys
  induction keys with
  | nil => intro filter set; simpa using set
  | cons head rest ih =>
      intro filter set
      refine ih _ ?_
      rcases set with member | before
      · rcases List.mem_cons.mp member with rfl | later
        · exact Or.inr (lawful.set_check filter key)
        · exact Or.inl later
      · exact Or.inr (lawful.set_keeps filter key head before)

def bloomModel (lawful : crate.Lawful) : Bloom where
  ofKeys := fun keys key =>
    crate.check (keys.foldl crate.set (crate.newForFpRate (max keys.length 1))) key
  set_check := fun keys key member => check_set_fold lawful key keys _ (Or.inl member)

theorem written_bloom (lawful : crate.Lawful) (id : Nat) (run : SortedRun) (key : Bytes) :
    crate.check (written crate id run.entries).bloom key =
      (SSTable.build (bloomModel lawful) id run).bloom key := by
  have keys : (run.entries.map fun entry => entry.1.userKey).foldl crate.set
      (crate.newForFpRate (max (run.entries.map fun entry => entry.1.userKey).length 1)) =
        bloomOf crate run.entries := by
    rw [List.foldl_map, List.length_map]
    rfl
  refine (lawful.from_parts _ key).trans ?_
  change _ = crate.check _ key
  rw [keys]

theorem beforeSeek_points (key : Bytes) (snapshotSeq : Nat)
    (points : Points buf entry located) :
    SSTable.beforeSeek key snapshotSeq entry = beforeSeek key snapshotSeq located := by
  unfold SSTable.beforeSeek beforeSeek
  rw [points.key, points.seq]

theorem find?_forall₂ {Left Right : Type} {relation : Left → Right → Prop} {leftPick : Left → Bool}
    {rightPick : Right → Bool}
    (alike : ∀ left right, relation left right → leftPick left = rightPick right) :
    ∀ {lefts : List Left} {rights : List Right}, List.Forall₂ relation lefts rights →
      Option.Rel relation (lefts.find? leftPick) (rights.find? rightPick) := by
  intro lefts rights all
  induction all with
  | nil => exact Option.Rel.none
  | @cons left right lefts rights related _ ih =>
      cases picked : leftPick left with
      | true =>
          rw [List.find?_cons_of_pos picked,
            List.find?_cons_of_pos (alike left right related ▸ picked)]
          exact Option.Rel.some related
      | false =>
          rw [List.find?_cons_of_neg (by simp [picked]),
            List.find?_cons_of_neg (by simp [← alike left right related, picked])]
          exact ih

theorem isDelete_points
    (points : Points buf entry located) : located.tag = deleteTag ↔ entry.1.isDelete = true := by
  rw [points.tag, InternalKey.isDelete, beq_iff_eq]

theorem written_readAt (lawful : crate.Lawful) (id : Nat) (run : SortedRun)
    (each : ∀ entry ∈ run.entries, EntryFits entry) (key : Bytes) (snapshotSeq : Nat) :
    (written crate id run.entries).readAt crate key snapshotSeq =
      .ok ((SSTable.build (bloomModel lawful) id run).readAt key snapshotSeq) := by
  unfold readAt SSTable.readAt
  rw [written_bloom lawful]
  split_ifs with rejected
  · rfl
  · have stored : (SSTable.build (bloomModel lawful) id run).run.entries = run.entries := rfl
    simp only [getElem?_partitionPoint, stored]
    have hits := find?_forall₂ (fun entry located points =>
      congrArg not (beforeSeek_points key snapshotSeq points))
      (written_points crate id run.entries)
    cases entryHit : run.entries.find? fun entry => !SSTable.beforeSeek key snapshotSeq entry with
    | none =>
        rw [entryHit] at hits
        cases locatedHit : (written crate id run.entries).index.find? fun located =>
            !beforeSeek key snapshotSeq located with
        | none => rfl
        | some located => rw [locatedHit] at hits; exact absurd hits (by simp)
    | some entry =>
        rw [entryHit] at hits
        cases locatedHit : (written crate id run.entries).index.find? fun located =>
            !beforeSeek key snapshotSeq located with
        | none => rw [locatedHit] at hits; exact absurd hits (by simp)
        | some located =>
            rw [locatedHit] at hits
            have points : Points (written crate id run.entries).data entry located := by
              simpa using hits
            have fits := each entry (List.mem_of_find?_eq_some entryHit)
            dsimp only
            rw [points.key]
            by_cases other : entry.1.userKey ≠ key
            · rw [if_pos other, if_pos other]
            · rw [if_neg other, if_neg other]
              cases deleted : entry.1.isDelete with
              | true => rw [if_pos ((isDelete_points points).mpr deleted)]; rfl
              | false =>
                  have live : ¬ located.tag = deleteTag := by
                    rw [isDelete_points points, deleted]
                    exact Bool.false_ne_true
                  rw [if_neg live, readValueAt_points points fits deleted]
                  rfl

theorem scan_points : ∀ {entries : List Entry} {index : List IndexEntry},
    List.Forall₂ (Points buf) entries index → (∀ entry ∈ entries, EntryFits entry) →
    (index.mapM fun located =>
      if located.tag = deleteTag then
        (.ok ⟨located.key, located.seq, located.tag, none⟩ : Except String VersionRow)
      else (readValueAt buf located).map fun value =>
        ⟨located.key, located.seq, located.tag, some value⟩) = .ok (entries.map Entry.row) := by
  intro entries index all
  induction all with
  | nil => intro _; rfl
  | @cons entry located entries index points _ ih =>
      intro each
      have others := ih fun other member => each other (List.mem_cons_of_mem _ member)
      have own : (if located.tag = deleteTag then
          (.ok ⟨located.key, located.seq, located.tag, none⟩ : Except String VersionRow)
        else (readValueAt buf located).map fun value =>
          ⟨located.key, located.seq, located.tag, some value⟩) = .ok entry.row := by
        cases deleted : entry.1.isDelete with
        | true =>
            rw [if_pos ((isDelete_points points).mpr deleted), points.key, points.seq, points.tag]
            simp [Entry.row, Entry.value, deleted]
        | false =>
            have live : ¬ located.tag = deleteTag := by
              rw [isDelete_points points, deleted]
              exact Bool.false_ne_true
            rw [if_neg live, readValueAt_points points (each entry List.mem_cons_self) deleted,
              points.key, points.seq, points.tag]
            simp [Except.map, Entry.row, Entry.value, deleted]
      rw [List.mapM_cons, own, others]
      rfl

/-- A written table decodes, lists its entries and answers every lookup with
the first entry of the key that the snapshot sees. -/
theorem sstable_round_trip (lawful : crate.Lawful) (id : Nat) {entries : List Entry}
    (sorted : entries.Pairwise fun left right => left.1 < right.1)
    (fits : FormatFits crate entries) :
    ∃ file, decode crate id (buildBytes crate entries) = .ok file ∧
      file.scanAllVersions = .ok (entries.map Entry.row) ∧
      ∀ key snapshotSeq, file.readAt crate key snapshotSeq =
        .ok ((entries.find? fun entry =>
          decide (entry.1.userKey = key ∧ entry.1.seq ≤ snapshotSeq)).map Entry.value) := by
  refine ⟨_, decode_buildBytes crate fits id, ?_, ?_⟩
  · exact scan_points (written_points crate id entries) fits.each
  · intro key snapshotSeq
    let run : SortedRun := ⟨entries, sorted.imp fun less => le_of_lt less⟩
    have table := written_readAt lawful id run fits.each key snapshotSeq
    rw [SSTable.readAt_eq_find, keyEntries, List.find?_filter] at table
    simp only [decide_eq_true_eq] at table
    exact table

/-- One hash function over sixteen slots of a byte each, as a filter that the
format can carry. -/
def slotted : BloomCrate (Bytes × UInt64 × UInt32 × (UInt64 × UInt64) × (UInt64 × UInt64)) where
  newForFpRate := fun _ => (List.replicate 16 0, 16, 1, (3, 5), (7, 11))
  set := fun filter key => (filter.1.set (ofBe key % 16) 1, filter.2)
  check := fun filter key => decide (filter.1[ofBe key % 16]? ≠ some 0)
  bitmap := fun filter => filter.1
  numberOfBits := fun filter => filter.2.1
  numberOfHashFunctions := fun filter => filter.2.2.1
  sipKeys := fun filter => filter.2.2.2
  fromExisting := fun bitmap bits hashes keys => (bitmap, bits, hashes, keys)

theorem slotted_lawful : slotted.Lawful := by
  refine ⟨?_, ?_, fun _ _ => rfl⟩
  · intro filter key
    simp only [slotted, decide_eq_true_iff, List.getElem?_set]
    split_ifs <;> simp
  · intro filter key other set
    simp only [slotted, decide_eq_true_iff, List.getElem?_set] at set ⊢
    split_ifs <;> simp_all

def threeKeys : List Entry :=
  [(⟨[1], 9, putTag⟩, [7, 7]), (⟨[1], 4, putTag⟩, [8]), (⟨[1, 0], 5, deleteTag⟩, []),
    (⟨[2], 6, putTag⟩, [])]

theorem sstable_round_trip_three_keys :
    ∃ file, decode slotted 1 (buildBytes slotted threeKeys) = .ok file ∧
      file.scanAllVersions = .ok (threeKeys.map Entry.row) ∧
      file.readAt slotted [1] 8 = .ok (some (some [8])) ∧
      file.readAt slotted [1, 0] 8 = .ok (some none) ∧
      file.readAt slotted [2] 5 = .ok none := by
  have fits : FormatFits slotted threeKeys := by
    refine ⟨?_, by decide, by decide +kernel, by decide +kernel⟩
    have each : ∀ entry ∈ threeKeys, entry.1.userKey.length < 2 ^ 32 ∧
        entry.2.length < 2 ^ 32 ∧ entry.1.seq < 2 ^ 64 := by decide
    intro entry member
    obtain ⟨key, value, seq⟩ := each entry member
    exact ⟨key, value, seq⟩
  obtain ⟨file, decoded, rows, reads⟩ := sstable_round_trip slotted_lawful 1
    (by decide +kernel : threeKeys.Pairwise fun left right => left.1 < right.1) fits
  refine ⟨file, decoded, rows, ?_, ?_, ?_⟩
  · rw [reads]; decide +kernel
  · rw [reads]; decide +kernel
  · rw [reads]; decide +kernel

end SSTableFile

end Pantheon.Keystone
