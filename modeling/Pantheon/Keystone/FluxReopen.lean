import Mathlib
import Pantheon.Keystone.FluxRetention

/-!
# Reopening a Flux log

Reopening reads every record of a partition's file and applies retention once,
where the live log applied it after each append.  A torn record is skipped when
its length is torn and makes the whole topic unreadable when its body is.  With
overflow checks the cut-off of a partition without records panics.
-/

set_option autoImplicit false

namespace Pantheon.Keystone

open Pantheon.Lib

variable {all : Nat → List FluxRecord} {codec : Codec FluxRecord} {retention : RetentionPolicy}
  {last : FluxRecord} {log : FluxLog} {commits : List OffsetCommit} {Index Result : Type}
  {index : Nat} {earlier : List FluxRecord}

/-! ## Reading a file back -/

theorem foldl_load : ∀ (records : List FluxRecord) (part : Partition),
    (records.foldl Partition.load part).file = part.file ∧
      (records.foldl Partition.load part).records = part.records ++ records ∧
      (records.foldl Partition.load part).totalBytes = part.totalBytes + recordBytes records ∧
      (records.foldl Partition.load part).newestTs =
        records.foldl (fun newest record => max newest record.timestampMs) part.newestTs := by
  intro records
  induction records with
  | nil => intro part; simp [recordBytes]
  | cons record records ih =>
      intro part
      obtain ⟨file, all, bytes, newest⟩ := ih (part.load record)
      refine ⟨file, ?_, ?_, newest⟩
      · rw [List.foldl_cons, all, Partition.load, List.append_assoc, List.singleton_append]
      · rw [List.foldl_cons, bytes, Partition.load, recordBytes_cons]
        simp only
        omega

theorem foldl_load_nextOffset (file : Bytes) {all : List FluxRecord}
    (numbered : all.map FluxRecord.offset = List.range all.length) :
    (all.foldl Partition.load (Partition.empty file)).nextOffset = all.length := by
  cases all using List.reverseRecOn with
  | nil => rfl
  | append_singleton init last =>
      rw [List.map_append, List.length_append, List.length_singleton, List.range_succ] at numbered
      have offset := (List.append_inj numbered (by simp)).2
      rw [List.map_singleton, List.singleton_inj] at offset
      rw [List.foldl_append, List.length_append, List.length_singleton]
      simp [Partition.load, offset]

/-- With overflow checks and a time limit above zero a partition must have records. -/
def CutoffFits (checks : Bool) (retention : RetentionPolicy) (all : List FluxRecord) : Prop :=
  checks = true → (∀ ms ∈ retention.retentionMs, ms = 0) ∨ all ≠ []

instance (checks : Bool) (retention : RetentionPolicy) (all : List FluxRecord) :
    Decidable (CutoffFits checks retention all) :=
  inferInstanceAs (Decidable (_ → _ ∨ _))

theorem cutoffFits_iff
    (storable : retention.Storable) {all : List FluxRecord}
    (steady : SteadyRecords codec retention all) (checks : Bool) {part : Partition}
    (newest : part.newestTs = newestOf all) :
    CutoffFits checks retention all ↔ (checks && part.cutoffOverflows retention) = false := by
  have range := newestOf_range all steady.stamped
  unfold CutoffFits Partition.cutoffOverflows
  rw [newest]
  cases checks with
  | false => simp
  | true =>
      cases given : retention.retentionMs with
      | none => simp
      | some ms =>
          obtain ⟨lower, upper⟩ := storable.ms ms given
          rw [Option.any_some, Bool.true_and, decide_eq_false_iff_not, not_not, IsSigned64]
          simp only [Option.mem_def, Option.some.injEq, forall_eq', true_implies]
          constructor
          · rintro (rfl | some_)
            · have start : -2 ^ 63 ≤ newestOf all := newestOf_start all
              omega
            · have start := range.2 some_
              omega
          · intro fits
            by_cases nothing : all = []
            · subst nothing
              have start : newestOf [] = -2 ^ 63 := rfl
              left
              omega
            · exact Or.inr nothing

theorem openFile_settled
    {all : List FluxRecord} (steady : SteadyRecords codec retention all) (tail : Bytes)
    (short : tail.length < 4) :
    (Partition.openFile codec (codec.log all ++ tail)).map (Partition.applyRetention retention) =
      some { settled codec retention all with file := codec.log all ++ tail } := by
  have read := codec.readLog_log all steady.fits tail
  rw [readLog_short codec.deserialize short, Option.map_some, List.append_nil] at read
  obtain ⟨file, records, bytes, newest⟩ :=
    foldl_load all (Partition.empty (codec.log all ++ tail))
  have exact : (all.foldl Partition.load (Partition.empty (codec.log all ++ tail))).totalBytes =
      recordBytes (all.foldl Partition.load (Partition.empty (codec.log all ++ tail))).records := by
    rw [bytes, records]
    simp [Partition.empty]
  have whole : (all.foldl Partition.load (Partition.empty (codec.log all ++ tail))).records = all := by
    rw [records]
    rfl
  have kept : ((all.foldl Partition.load (Partition.empty (codec.log all ++ tail))).applyRetention
      retention).records = retained retention all := by
    rw [Partition.applyRetention_eq_trim retention _ exact (by rw [whole]; exact steady.ordered),
      whole, newest]
    rfl
  rw [Partition.openFile, read, Option.map_some, Option.map_some, Option.some.injEq]
  ext1
  · exact file
  · exact kept
  · exact foldl_load_nextOffset _ steady.numbered
  · rw [(Partition.applyRetention_suffix retention _ exact).2, kept]
    rfl
  · exact newest

theorem openPartition_settled
    (storable : retention.Storable) (checks : Bool) {all : List FluxRecord}
    (steady : SteadyRecords codec retention all) (tail : Bytes) (short : tail.length < 4) :
    FluxLog.openPartition checks codec retention (codec.log all ++ tail) =
      if CutoffFits checks retention all then
        some { settled codec retention all with file := codec.log all ++ tail }
      else none := by
  obtain ⟨part, read, trimmed⟩ := Option.map_eq_some_iff.mp (openFile_settled steady tail short)
  have newest : part.newestTs = newestOf all := congrArg Partition.newestTs trimmed
  have fits := cutoffFits_iff storable steady checks newest
  rw [FluxLog.openPartition, read, Option.bind_eq_bind, Option.bind_some]
  by_cases within : CutoffFits checks retention all
  · rw [if_pos within, fits.mp within, if_neg Bool.false_ne_true, trimmed]
  · rw [if_neg within, if_pos (Bool.not_eq_false _ ▸ fun kept => within (fits.mpr kept))]

theorem openFile_torn
    {all : List FluxRecord}
    (steady : SteadyRecords codec retention (all ++ [last])) {kept : Nat} (whole : 4 ≤ kept)
    (torn : kept < (frame (codec.serialize last)).length) :
    Partition.openFile codec
      (codec.log all ++ (frame (codec.serialize last)).take kept) = none := by
  have fits := (steady.fits last (by simp)).2
  have read := codec.readLog_log all (fun record member => steady.fits record (by simp [member]))
    ((frame (codec.serialize last)).take kept)
  rw [readLog_torn codec.deserialize fits whole torn, Option.map_none] at read
  rw [Partition.openFile, read, Option.map_none]

/-! ## Runs -/

namespace FluxLog

variable (codecs : FluxCodecs) (hash : Bytes → Nat)

/-- A call that succeeds, whose record can be read back, and that does not set the
clock back where it matters. -/
def Steady (log : FluxLog) : FluxAction → Prop
  | .publish fault now partition key value => fault = none ∧
      ∀ (index : Nat) (record : FluxRecord),
        log.publishes hash (.publish none now partition key value) = some (index, record) →
        codecs.record.Fits record ∧ 0 ≤ now ∧ now < 2 ^ 63 ∧
          (log.retention.OneLimit ∨
            ∀ part, log.partitions[index]? = some part → part.newestTs ≤ now)
  | .commit fault group partition offset => fault = none ∧
      codecs.commit.Fits ⟨group, partition, offset⟩

def SteadyRun : FluxLog → List FluxAction → Prop
  | _, [] => True
  | log, action :: actions =>
      log.Steady codecs hash action ∧ SteadyRun (log.step codecs hash action) actions

/-- The log is what its files determine. -/
structure Mirrors (log : FluxLog) (all : Nat → List FluxRecord) (commits : List OffsetCommit) :
    Prop where
  partitions : ∀ (index : Nat) (part : Partition), log.partitions[index]? = some part →
    part = settled codecs.record log.retention (all index) ∧
      SteadyRecords codecs.record log.retention (all index)
  fits : ∀ commit ∈ commits, codecs.commit.Fits commit
  offsetsFile : log.offsetsFile = codecs.commit.log commits
  offsets : log.offsets = commits.foldl setOffset fun _ => none
  metaFile : log.metaFile = writeMeta log.partitions.length log.retention
  storable : log.retention.Storable
  count : log.partitions.length < 2 ^ 32

theorem mirrors_create {numPartitions : UInt32}
    (created : create numPartitions retention = .ok log) (storable : retention.Storable) :
    log.Mirrors codecs (fun _ => []) [] := by
  unfold create at created
  split_ifs at created with zero
  cases created
  refine ⟨?_, by simp, rfl, rfl, by simp, storable, ?_⟩
  · intro index part found
    rw [List.eq_of_mem_replicate (List.mem_of_getElem? found)]
    exact ⟨rfl, by simp, by simp, rfl, Or.inr List.Pairwise.nil⟩
  · rw [List.length_replicate]
    exact numPartitions.toNat_lt

variable {codecs}

theorem inOrder_append {all : List FluxRecord} {record : FluxRecord} (ordered : InOrder all)
    (later : newestOf all ≤ record.timestampMs) : InOrder (all ++ [record]) := by
  have bounded : ∀ (records : List FluxRecord) (newest : Int), ∀ other ∈ records,
      other.timestampMs ≤
        records.foldl (fun newest record => max newest record.timestampMs) newest := by
    intro records
    induction records using List.reverseRecOn with
    | nil => simp
    | append_singleton records next ih =>
        intro newest other member
        rw [List.foldl_append, List.foldl_cons, List.foldl_nil]
        rcases List.mem_append.mp member with inside | last
        · exact (ih newest other inside).trans (le_max_left _ _)
        · rw [List.mem_singleton.mp last]
          exact le_max_right _ _
  refine List.pairwise_append.mpr ⟨ordered, List.pairwise_singleton _ _, ?_⟩
  intro earlier member other last
  rw [List.mem_singleton.mp last]
  exact (bounded all _ earlier member).trans later

variable (codecs)

theorem step_commit_frame (log : FluxLog) (fault : Option Nat) (group : String)
    (partition offset : Nat) :
    (log.step codecs hash (.commit fault group partition offset)).retention = log.retention ∧
      (log.step codecs hash (.commit fault group partition offset)).metaFile = log.metaFile := by
  dsimp only [step, commit]
  split_ifs
  · cases fault <;> exact ⟨rfl, rfl⟩
  · exact ⟨rfl, rfl⟩

theorem step_publish_frame (log : FluxLog) (fault : Option Nat) (now : Int)
    (partition : Option Nat) (key : Option Bytes) (value : Bytes) :
    (log.step codecs hash (.publish fault now partition key value)).retention = log.retention ∧
      (log.step codecs hash (.publish fault now partition key value)).metaFile = log.metaFile ∧
      (log.step codecs hash (.publish fault now partition key value)).offsetsFile =
        log.offsetsFile ∧
      (log.step codecs hash (.publish fault now partition key value)).offsets = log.offsets := by
  cases targeted : log.target hash partition key with
  | error message => simp only [step, publish, targeted, and_self]
  | ok pair =>
      obtain ⟨index, rrCounter⟩ := pair
      cases found : log.partitions[index]? <;>
        simp only [step, publish, targeted, found, and_self]

variable {codecs}

theorem Mirrors.publish
    (mirrors : log.Mirrors codecs all commits) {fault : Option Nat} {now : Int}
    {partition : Option Nat} {key : Option Bytes} {value : Bytes}
    (steady : log.Steady codecs hash (.publish fault now partition key value)) :
    (log.step codecs hash (.publish fault now partition key value)).Mirrors codecs
      (fun index => all index ++
        log.publishesTo hash index (.publish fault now partition key value)) commits := by
  obtain ⟨rfl, guard⟩ := steady
  obtain ⟨retention, metaFile, offsetsFile, offsets⟩ :=
    step_publish_frame codecs hash log none now partition key value
  have length := step_partitions_length codecs hash log (.publish none now partition key value)
  refine ⟨?_, mirrors.fits, offsetsFile.trans mirrors.offsetsFile, offsets.trans mirrors.offsets,
    by rw [metaFile, length, retention]; exact mirrors.metaFile, by rw [retention]; exact mirrors.storable,
    by rw [length]; exact mirrors.count⟩
  intro index part found
  rw [retention]
  rcases step_publish codecs hash log none now partition key value with
    ⟨same, nothing⟩ | ⟨target, before, targeted, changed, adds⟩
  · rw [same] at found
    simpa [publishesTo, nothing] using mirrors.partitions index part found
  · rw [if_pos rfl] at adds
    rw [changed, List.getElem?_set] at found
    by_cases here : target = index
    · subst here
      rw [if_pos rfl, if_pos (List.getElem?_eq_some_iff.mp targeted).1] at found
      cases found
      obtain ⟨beforeSettled, beforeSteady⟩ := mirrors.partitions target before targeted
      obtain ⟨fits, nowLower, nowUpper, clock⟩ := guard target _ adds
      have number : before.nextOffset = (all target).length := by rw [beforeSettled]; rfl
      have newest : before.newestTs = newestOf (all target) := by rw [beforeSettled]; rfl
      have steady : SteadyRecords codecs.record log.retention
          (all target ++ [⟨before.nextOffset, key, value, now⟩]) := by
        refine ⟨?_, ?_, ?_, ?_⟩
        · intro record member
          rcases List.mem_append.mp member with inside | last
          · exact beforeSteady.fits record inside
          · rw [List.mem_singleton.mp last]
            exact fits
        · intro record member
          rcases List.mem_append.mp member with inside | last
          · exact beforeSteady.stamped record inside
          · rw [List.mem_singleton.mp last]
            exact ⟨nowLower, nowUpper⟩
        · rw [List.map_append, beforeSteady.numbered, List.length_append, List.length_singleton,
            List.range_succ, List.map_singleton, number]
        · rcases beforeSteady.ordered with one | ordered
          · exact Or.inl one
          · refine clock.imp_right fun later => ?_
            have forward := later before targeted
            rw [newest] at forward
            exact inOrder_append ordered forward
      have added : log.publishesTo hash target (.publish none now partition key value) =
          [⟨before.nextOffset, key, value, now⟩] := by
        simp [publishesTo, adds]
      rw [added]
      refine ⟨?_, steady⟩
      rw [← settled_push mirrors.storable steady, ← beforeSettled]
      rfl
    · rw [if_neg here] at found
      simpa [publishesTo, adds, here] using mirrors.partitions index part found

def commitsOf (log : FluxLog) : FluxAction → List OffsetCommit
  | .commit none group partition offset =>
      if partition < log.partitions.length then [⟨group, partition, offset⟩] else []
  | _ => []

theorem Mirrors.commit
    (mirrors : log.Mirrors codecs all commits) {fault : Option Nat} {group : String}
    {partition offset : Nat}
    (steady : log.Steady codecs hash (.commit fault group partition offset)) :
    (log.step codecs hash (.commit fault group partition offset)).Mirrors codecs all
      (commits ++ log.commitsOf (.commit fault group partition offset)) := by
  obtain ⟨rfl, fits⟩ := steady
  have partitions := step_commit_partitions codecs hash log none group partition offset
  obtain ⟨retention, metaFile⟩ := step_commit_frame codecs hash log none group partition offset
  refine ⟨by rw [partitions, retention]; exact mirrors.partitions, ?_, ?_, ?_,
    by rw [metaFile, partitions, retention]; exact mirrors.metaFile,
    by rw [retention]; exact mirrors.storable, by rw [partitions]; exact mirrors.count⟩
  · intro commit member
    rcases List.mem_append.mp member with inside | last
    · exact mirrors.fits commit inside
    · simp only [commitsOf] at last
      split_ifs at last with exists_
      · rw [List.mem_singleton.mp last]
        exact fits
      · exact absurd last List.not_mem_nil
  · dsimp only [step, FluxLog.commit, commitsOf]
    split_ifs
    · rw [codecs.commit.log_append, codecs.commit.log_singleton, mirrors.offsetsFile]
    · rw [List.append_nil, mirrors.offsetsFile]
  · dsimp only [step, FluxLog.commit, commitsOf]
    split_ifs
    · rw [List.foldl_append, mirrors.offsets]
      rfl
    · rw [List.append_nil, mirrors.offsets]

theorem Mirrors.run : ∀ (actions : List FluxAction) (log : FluxLog) (all : Nat → List FluxRecord)
    (commits : List OffsetCommit), log.Mirrors codecs all commits →
    log.SteadyRun codecs hash actions →
    ∃ later, (log.run codecs hash actions).Mirrors codecs
      (fun index => all index ++ log.published codecs hash index actions) later := by
  intro actions
  induction actions with
  | nil =>
      intro log all commits mirrors _
      exact ⟨commits, by simpa [FluxLog.run, published] using mirrors⟩
  | cons action actions ih =>
      intro log all commits mirrors steady
      obtain ⟨here, rest⟩ := steady
      cases action with
      | publish fault now partition key value =>
          obtain ⟨later, final⟩ := ih _ _ _ (mirrors.publish hash here) rest
          exact ⟨later, by simpa [FluxLog.run, published, List.append_assoc] using final⟩
      | commit fault group partition offset =>
          obtain ⟨later, final⟩ := ih _ _ _ (mirrors.commit hash here) rest
          have none_ : ∀ index, log.publishesTo hash index (.commit fault group partition offset) =
              [] := fun index => rfl
          exact ⟨later, by simpa [FluxLog.run, published, none_] using final⟩

/-! ## Opening a directory -/

theorem readMeta_writeMeta {count : Nat} (small : count < 2 ^ 32)
    (storable : retention.Storable) :
    readMeta (writeMeta count retention) = some (count, retention) := by
  obtain ⟨ms, maxBytes⟩ := retention
  have msRange : IsSigned64 (ms.getD (-1)) := by
    cases ms with
    | none => decide
    | some ms =>
        obtain ⟨lower, upper⟩ := storable.ms ms rfl
        exact ⟨by simp only [Option.getD_some]; omega, upper⟩
  have bytesRange : IsSigned64 ((maxBytes.map Int.ofNat).getD (-1)) := by
    cases maxBytes with
    | none => decide
    | some maxBytes =>
        have upper := storable.bytes maxBytes rfl
        simp only [Option.map_some, Option.getD_some, IsSigned64, Int.ofNat_eq_natCast]
        omega
  have length : (writeMeta count ⟨ms, maxBytes⟩).length = 20 := by
    simp [writeMeta, signedBytes_length]
  have countRead : (writeMeta count ⟨ms, maxBytes⟩).take 4 = beBytes 4 count := by
    simp [writeMeta]
  have msRead : ((writeMeta count ⟨ms, maxBytes⟩).drop 4).take 8 = signedBytes (ms.getD (-1)) := by
    simp [writeMeta, signedBytes_length]
  have bytesRead : ((writeMeta count ⟨ms, maxBytes⟩).drop 12).take 8 =
      signedBytes ((maxBytes.map Int.ofNat).getD (-1)) := by
    have front : (beBytes 4 count).drop 12 = [] := List.drop_eq_nil_of_le (by simp)
    simp [writeMeta, List.drop_append, signedBytes_length, front]
  have notShort : ¬ 20 < 20 := by omega
  rw [readMeta, length, if_neg notShort, countRead, msRead, bytesRead,
    ofBe_beBytes_of_lt 4 count (by omega), ofSignedBytes_signedBytes msRange,
    ofSignedBytes_signedBytes bytesRange]
  have msExact : (if ms.getD (-1) < 0 then none else some (ms.getD (-1))) = ms := by
    cases ms with
    | none => rfl
    | some ms => exact if_neg (not_lt.mpr (storable.ms ms rfl).1)
  have bytesExact : (if (maxBytes.map Int.ofNat).getD (-1) < 0 then none
      else some ((maxBytes.map Int.ofNat).getD (-1)).toNat) = maxBytes := by
    cases maxBytes <;> rfl
  simp only [msExact, bytesExact]

theorem mapM_some {call : Index → Option Result} {result : Index → Result} :
    ∀ indices : List Index, (∀ index ∈ indices, call index = some (result index)) →
      indices.mapM call = some (indices.map result) := by
  intro indices
  induction indices with
  | nil => intro _; rfl
  | cons index indices ih =>
      intro calls
      rw [List.mapM_cons, calls index List.mem_cons_self,
        ih fun other member => calls other (List.mem_cons_of_mem _ member)]
      rfl

theorem mapM_congr_left {call other : Index → Option Result} :
    ∀ {indices : List Index}, (∀ index ∈ indices, call index = other index) →
      indices.mapM call = indices.mapM other := by
  intro indices
  induction indices with
  | nil => intro _; rfl
  | cons index indices ih =>
      intro same
      rw [List.mapM_cons, List.mapM_cons, same index List.mem_cons_self,
        ih fun other member => same other (List.mem_cons_of_mem _ member)]

theorem mapM_none (call : Index → Option Result) {index : Index}
    (fails : call index = none) : ∀ indices : List Index, index ∈ indices →
      indices.mapM call = none := by
  intro indices
  induction indices with
  | nil => intro member; exact absurd member List.not_mem_nil
  | cons first indices ih =>
      intro member
      rw [List.mapM_cons]
      rcases List.mem_cons.mp member with rfl | inside
      · rw [fails]
        rfl
      · rw [ih inside]
        cases call first <;> rfl

/-- The contents of `partition-<index>.log`. -/
def partitionFile (log : FluxLog) (index : Nat) : Bytes :=
  (log.partitions[index]?.map Partition.file).getD []

variable (codecs) in
def reopen (log : FluxLog) (checks : Bool) : Option FluxLog :=
  openDir checks codecs log.metaFile log.partitionFile log.offsetsFile

variable (codecs) in
/-- Reopening after the file of one partition has lost its last bytes. -/
def reopenTorn (log : FluxLog) (checks : Bool) (index lost : Nat) : Option FluxLog :=
  openDir checks codecs log.metaFile
    (Function.update log.partitionFile index
      ((log.partitionFile index).take ((log.partitionFile index).length - lost)))
    log.offsetsFile

theorem Mirrors.openDir
    (mirrors : log.Mirrors codecs all commits) (checks : Bool) (files : Nat → Bytes) :
    FluxLog.openDir checks codecs log.metaFile files log.offsetsFile =
      ((List.range log.partitions.length).mapM fun index =>
        openPartition checks codecs.record log.retention (files index)).map fun partitions =>
            ⟨log.metaFile, partitions, log.retention, log.offsetsFile, log.offsets, 0⟩ := by
  have offsets : readOffsets codecs.commit log.offsetsFile = some log.offsets := by
    have nothing : readLog codecs.commit.deserialize [] = some [] :=
      readLog_short codecs.commit.deserialize (by decide)
    have read := codecs.commit.readLog_log commits mirrors.fits []
    rw [List.append_nil, nothing, Option.map_some, List.append_nil] at read
    rw [readOffsets, mirrors.offsetsFile, read, Option.map_some, mirrors.offsets]
  have header : readMeta log.metaFile = some (log.partitions.length, log.retention) := by
    rw [mirrors.metaFile]
    exact readMeta_writeMeta mirrors.count mirrors.storable
  rw [FluxLog.openDir, header, offsets]
  simp only [Option.bind_eq_bind, Option.bind_some]
  cases (List.range log.partitions.length).mapM fun index =>
    openPartition checks codecs.record log.retention (files index) <;> rfl

theorem Mirrors.partitionFile
    (mirrors : log.Mirrors codecs all commits)
    (inside : index < log.partitions.length) :
    log.partitionFile index = codecs.record.log (all index) ∧
      SteadyRecords codecs.record log.retention (all index) := by
  have found := List.getElem?_eq_getElem inside
  obtain ⟨exact, steady⟩ := mirrors.partitions index _ found
  refine ⟨?_, steady⟩
  rw [FluxLog.partitionFile, found, Option.map_some, Option.getD_some, exact]
  rfl

theorem Mirrors.partitions_eq
    (mirrors : log.Mirrors codecs all commits) :
    log.partitions = (List.range log.partitions.length).map fun index =>
      settled codecs.record log.retention (all index) := by
  refine List.ext_getElem? fun index => ?_
  rw [List.getElem?_map]
  by_cases inside : index < log.partitions.length
  · rw [List.getElem?_range inside, Option.map_some, List.getElem?_eq_getElem inside,
      (mirrors.partitions index _ (List.getElem?_eq_getElem inside)).1]
  · rw [List.getElem?_eq_none (by omega), List.getElem?_eq_none (by simpa using inside),
      Option.map_none]

theorem mapM_openPartition (storable : retention.Storable)
    (codec : Codec FluxRecord) (checks : Bool) (all : Nat → List FluxRecord)
    (tails : Nat → Bytes) (count : Nat)
    (steady : ∀ index < count, SteadyRecords codec retention (all index))
    (short : ∀ index < count, (tails index).length < 4) :
    (List.range count).mapM (fun index =>
        openPartition checks codec retention (codec.log (all index) ++ tails index)) =
      if ∀ index < count, CutoffFits checks retention (all index) then
        some ((List.range count).map fun index =>
          { settled codec retention (all index) with file := codec.log (all index) ++ tails index })
      else none := by
  have opens : ∀ index < count,
      openPartition checks codec retention (codec.log (all index) ++ tails index) =
        if CutoffFits checks retention (all index) then
          some { settled codec retention (all index) with
            file := codec.log (all index) ++ tails index }
        else none := fun index inside =>
    openPartition_settled storable checks (steady index inside) _ (short index inside)
  by_cases fits : ∀ index < count, CutoffFits checks retention (all index)
  · rw [if_pos fits]
    apply mapM_some
    intro index member
    have inside := List.mem_range.mp member
    rw [opens index inside, if_pos (fits index inside)]
  · rw [if_neg fits]
    push Not at fits
    obtain ⟨index, inside, overflows⟩ := fits
    refine mapM_none (fun index =>
      openPartition checks codec retention (codec.log (all index) ++ tails index)) ?_ _
        (List.mem_range.mpr inside)
    rw [opens index inside, if_neg overflows]

theorem Mirrors.reopen_iff
    (mirrors : log.Mirrors codecs all commits) (checks : Bool) :
    log.reopen codecs checks = some { log with rrCounter := 0 } ↔
      ∀ index < log.partitions.length, CutoffFits checks log.retention (all index) := by
  have files : ∀ index ∈ List.range log.partitions.length,
      openPartition checks codecs.record log.retention (log.partitionFile index) =
        openPartition checks codecs.record log.retention (codecs.record.log (all index) ++ []) := by
    intro index member
    rw [(mirrors.partitionFile (List.mem_range.mp member)).1, List.append_nil]
  have opened := mapM_openPartition mirrors.storable codecs.record checks all
    (fun _ => []) log.partitions.length (fun index inside => (mirrors.partitionFile inside).2)
    fun _ _ => by decide
  have same : ((List.range log.partitions.length).map fun index =>
      ({ settled codecs.record log.retention (all index) with
        file := codecs.record.log (all index) ++ [] } : Partition)) = log.partitions := by
    conv_rhs => rw [mirrors.partitions_eq]
    refine List.map_congr_left fun index _ => ?_
    rw [List.append_nil]
    rfl
  rw [FluxLog.reopen, mirrors.openDir, mapM_congr_left files, opened, same]
  split_ifs with fits
  · exact iff_of_true rfl fits
  · exact iff_of_false (by nofun) fits

theorem torn_file
    (mirrors : log.Mirrors codecs all commits)
    (inside : index < log.partitions.length)
    (split : all index = earlier ++ [last]) {lost : Nat}
    (part : lost ≤ (frame (codecs.record.serialize last)).length) :
    (log.partitionFile index).take ((log.partitionFile index).length - lost) =
      codecs.record.log earlier ++ (frame (codecs.record.serialize last)).take
        ((frame (codecs.record.serialize last)).length - lost) := by
  rw [(mirrors.partitionFile inside).1, split, codecs.record.log_append,
    codecs.record.log_singleton, List.take_append, List.length_append]
  have front : (codecs.record.log earlier).take ((codecs.record.log earlier).length +
      (frame (codecs.record.serialize last)).length - lost) = codecs.record.log earlier :=
    List.take_of_length_le (by omega)
  have back : (codecs.record.log earlier).length +
      (frame (codecs.record.serialize last)).length - lost - (codecs.record.log earlier).length =
      (frame (codecs.record.serialize last)).length - lost := by omega
  rw [front, back]

/-- The reopened log is the log before the restart without the torn record. -/
def WithoutRecord (log : FluxLog) (index : Nat) (last : FluxRecord) (reopened : FluxLog) : Prop :=
  reopened.offsets = log.offsets ∧ reopened.partitions.length = log.partitions.length ∧
    ∀ (other : Nat) (part : Partition), log.partitions[other]? = some part →
      ∃ again, reopened.partitions[other]? = some again ∧
        again.records = (if other = index then
          part.records.filter fun record => decide (record.offset ≠ last.offset)
          else part.records) ∧
        again.nextOffset = if other = index then last.offset else part.nextOffset

/-- Retention had nothing to remove when the last record came. -/
def EvictsNothing (retention : RetentionPolicy) (earlier : List FluxRecord) (last : FluxRecord) :
    Prop :=
  retained retention earlier = [] ∨
    acceptable retention (newestOf (earlier ++ [last])) (retained retention earlier ++ [last]) = true

instance (retention : RetentionPolicy) (earlier : List FluxRecord) (last : FluxRecord) :
    Decidable (EvictsNothing retention earlier last) :=
  inferInstanceAs (Decidable (_ ∨ _))

theorem offset_ne_last
    (steady : SteadyRecords codec retention (earlier ++ [last])) :
    last.offset = earlier.length ∧ ∀ record ∈ earlier, record.offset ≠ last.offset := by
  have numbered := steady.numbered
  rw [List.map_append, List.length_append, List.length_singleton, List.range_succ] at numbered
  obtain ⟨front, back⟩ := List.append_inj numbered (by simp)
  rw [List.map_singleton, List.singleton_inj] at back
  refine ⟨back, fun record member => ?_⟩
  have bound := List.mem_range.mp (front ▸ List.mem_map_of_mem (f := FluxRecord.offset) member)
  omega

/-- The retained records without the last one are those retained before it came
exactly when it evicted none of them. -/
theorem retained_filter_iff
    (storable : retention.Storable)
    (steady : SteadyRecords codec retention (earlier ++ [last])) :
    retained retention earlier =
        (retained retention (earlier ++ [last])).filter
          (fun record => decide (record.offset ≠ last.offset)) ↔
      EvictsNothing retention earlier last := by
  have others : ∀ record ∈ retained retention earlier,
      decide (record.offset ≠ last.offset) = true := by
    intro record member
    have inside := (trim_suffix _ earlier).subset member
    exact decide_eq_true ((offset_ne_last steady).2 record inside)
  have dropsLast : [last].filter (fun record => decide (record.offset ≠ last.offset)) = [] := by
    simp
  rw [← retained_append storable steady]
  constructor
  · intro same
    cases before : retained retention earlier with
    | nil => exact Or.inl before
    | cons front rest =>
        refine Or.inr ?_
        rw [before]
        by_contra evicted
        rw [List.cons_append] at evicted
        rw [before, List.cons_append, trim, if_neg evicted] at same
        have shorter := ((trim_suffix (acceptable retention (newestOf (earlier ++ [last])))
          (rest ++ [last])).filter fun record => decide (record.offset ≠ last.offset)).length_le
        rw [List.filter_append, dropsLast, List.append_nil, ← same] at shorter
        have bound := shorter.trans (List.length_filter_le _ rest)
        rw [List.length_cons] at bound
        omega
  · intro nothing
    rcases nothing with empty | kept
    · rw [empty]
      have ends := (trim_suffix (acceptable retention (newestOf (earlier ++ [last])))
        ([] ++ [last])).filter fun record => decide (record.offset ≠ last.offset)
      rw [List.nil_append, dropsLast] at ends
      exact (List.suffix_nil.mp ends).symm
    · have whole : trim (acceptable retention (newestOf (earlier ++ [last])))
          (retained retention earlier ++ [last]) = retained retention earlier ++ [last] := by
        cases before : retained retention earlier ++ [last] with
        | nil => rfl
        | cons front rest =>
            rw [before] at kept
            rw [trim, if_pos kept]
      rw [whole, List.filter_append, dropsLast, List.append_nil, List.filter_eq_self.mpr others]

theorem SteadyRecords.front (steady : SteadyRecords codec retention (earlier ++ [last])) :
    SteadyRecords codec retention earlier := by
  have numbered := steady.numbered
  rw [List.map_append, List.length_append, List.length_singleton, List.range_succ] at numbered
  exact ⟨fun record member => steady.fits record (by simp [member]),
    fun record member => steady.stamped record (by simp [member]),
    (List.append_inj numbered (by simp)).1,
    steady.ordered.imp_right fun ordered => ordered.sublist (List.sublist_append_left _ _)⟩

theorem Mirrors.reopenTorn_iff
    (mirrors : log.Mirrors codecs all commits)
    (inside : index < log.partitions.length)
    (split : all index = earlier ++ [last]) {lost : Nat} (some_ : 0 < lost)
    (part : lost ≤ (frame (codecs.record.serialize last)).length) (checks : Bool) :
    (∃ reopened, log.reopenTorn codecs checks index lost = some reopened ∧
        log.WithoutRecord index last reopened) ↔
      (frame (codecs.record.serialize last)).length < lost + 4 ∧
        EvictsNothing log.retention earlier last ∧ ∀ other < log.partitions.length,
          CutoffFits checks log.retention (Function.update all index earlier other) := by
  have steady := (mirrors.partitionFile inside).2
  rw [split] at steady
  rw [reopenTorn, mirrors.openDir, torn_file mirrors inside split part]
  by_cases header : (frame (codecs.record.serialize last)).length < lost + 4
  · have short : ((frame (codecs.record.serialize last)).take
        ((frame (codecs.record.serialize last)).length - lost)).length < 4 := by
      rw [List.length_take]
      omega
    set tail := (frame (codecs.record.serialize last)).take
      ((frame (codecs.record.serialize last)).length - lost) with tailExact
    set cut := Function.update all index earlier with cutExact
    have files : ∀ other ∈ List.range log.partitions.length,
        openPartition checks codecs.record log.retention
            (Function.update log.partitionFile index (codecs.record.log earlier ++ tail) other) =
          openPartition checks codecs.record log.retention
            (codecs.record.log (cut other) ++ if other = index then tail else []) := by
      intro other member
      by_cases here : other = index
      · subst here
        rw [cutExact, Function.update_self, Function.update_self, if_pos rfl]
      · rw [cutExact, Function.update_of_ne here, Function.update_of_ne here, if_neg here,
          (mirrors.partitionFile (List.mem_range.mp member)).1, List.append_nil]
    have opened := mapM_openPartition mirrors.storable codecs.record checks cut
      (fun other => if other = index then tail else []) log.partitions.length
      (fun other otherInside => by
        by_cases here : other = index
        · subst here
          rw [cutExact, Function.update_self]
          exact SteadyRecords.front steady
        · rw [cutExact, Function.update_of_ne here]
          exact (mirrors.partitionFile otherInside).2)
      (fun other _ => by
        split_ifs
        · exact short
        · decide)
    rw [mapM_congr_left files, opened]
    have live := (mirrors.partitions index _ (List.getElem?_eq_getElem inside)).1
    rw [split] at live
    by_cases fits : ∀ other < log.partitions.length, CutoffFits checks log.retention (cut other)
    · rw [if_pos fits, Option.map_some]
      constructor
      · rintro ⟨reopened, opened, same⟩
        cases opened
        obtain ⟨again, found, records, _⟩ := same.2.2 index _ (List.getElem?_eq_getElem inside)
        rw [List.getElem?_map, List.getElem?_range inside, Option.map_some, cutExact,
          Function.update_self] at found
        cases found
        rw [if_pos rfl, if_pos rfl, live] at records
        have kept : retained log.retention earlier = _ := records
        exact ⟨header, (retained_filter_iff mirrors.storable steady).mp kept, fits⟩
      · rintro ⟨_, nothing, _⟩
        refine ⟨_, rfl, rfl, by simp, fun other otherPart found => ?_⟩
        have otherInside := (List.getElem?_eq_some_iff.mp found).1
        have exact := (mirrors.partitions other otherPart found).1
        refine ⟨_, by rw [List.getElem?_map, List.getElem?_range otherInside, Option.map_some], ?_⟩
        by_cases here : other = index
        · subst here
          rw [cutExact, Function.update_self, if_pos rfl, if_pos rfl, if_pos rfl, exact, split]
          exact ⟨(retained_filter_iff mirrors.storable steady).mpr nothing,
            (offset_ne_last steady).1.symm⟩
        · rw [cutExact, Function.update_of_ne here, if_neg here, if_neg here, if_neg here, exact]
          exact ⟨rfl, rfl⟩
    · rw [if_neg fits, Option.map_none]
      constructor
      · rintro ⟨reopened, opened, _⟩
        cases opened
      · rintro ⟨_, _, within⟩
        exact absurd within fits
  · have fails : openPartition checks codecs.record log.retention
        (Function.update log.partitionFile index
          (codecs.record.log earlier ++ (frame (codecs.record.serialize last)).take
            ((frame (codecs.record.serialize last)).length - lost)) index) = none := by
      rw [Function.update_self, openPartition, openFile_torn steady (by omega) (by omega)]
      rfl
    rw [mapM_none (fun other => openPartition checks codecs.record log.retention
      (Function.update log.partitionFile index
        (codecs.record.log earlier ++ (frame (codecs.record.serialize last)).take
          ((frame (codecs.record.serialize last)).length - lost)) other)) fails _
      (List.mem_range.mpr inside), Option.map_none]
    constructor
    · rintro ⟨reopened, opened, _⟩
      cases opened
    · rintro ⟨short, _⟩
      exact absurd short header

variable (codecs)

theorem run_retention : ∀ (actions : List FluxAction) (log : FluxLog),
    (log.run codecs hash actions).retention = log.retention := by
  intro actions
  induction actions with
  | nil => intro log; rfl
  | cons action actions ih =>
      intro log
      rw [FluxLog.run, List.foldl_cons, ← FluxLog.run, ih]
      cases action with
      | publish fault now partition key value =>
          exact (step_publish_frame codecs hash log fault now partition key value).1
      | commit fault group partition offset =>
          exact (step_commit_frame codecs hash log fault group partition offset).1

/-- A restart gives the same log back unless a cut-off overflows under overflow checks, and
after a torn write the same log without the torn record exactly when besides the tear is in
the length field and the torn record had evicted nothing. -/
theorem flux_reopens_iff (numPartitions : UInt32) (retention : RetentionPolicy) (log : FluxLog)
    (created : create numPartitions retention = .ok log) (storable : retention.Storable)
    (actions : List FluxAction) (steady : log.SteadyRun codecs hash actions) (checks : Bool) :
    let final := log.run codecs hash actions
    let published := fun index => log.published codecs hash index actions
    (final.reopen codecs checks = some { final with rrCounter := 0 } ↔
      ∀ index < final.partitions.length, CutoffFits checks retention (published index)) ∧
      ∀ (index : Nat) (earlier : List FluxRecord) (last : FluxRecord) (lost : Nat),
        index < final.partitions.length → published index = earlier ++ [last] → 0 < lost →
        lost ≤ (frame (codecs.record.serialize last)).length →
        ((∃ reopened, final.reopenTorn codecs checks index lost = some reopened ∧
            final.WithoutRecord index last reopened) ↔
          (frame (codecs.record.serialize last)).length < lost + 4 ∧
            EvictsNothing retention earlier last ∧ ∀ other < final.partitions.length,
              CutoffFits checks retention (Function.update published index earlier other)) := by
  obtain ⟨commits, mirrors⟩ :=
    Mirrors.run hash actions log _ [] (mirrors_create codecs created storable) steady
  simp only [List.nil_append] at mirrors
  have policy : (log.run codecs hash actions).retention = retention := by
    rw [run_retention]
    unfold create at created
    split_ifs at created
    cases created
    rfl
  refine ⟨(mirrors.reopen_iff checks).trans (by rw [policy]), fun index earlier last lost inside split some_ part => ?_⟩
  have torn := mirrors.reopenTorn_iff inside split some_ part checks
  rw [policy] at torn
  exact torn

end FluxLog

def oneRecord : List FluxAction := [.publish none 1 (some 0) none [7]]

def onePartition : FluxLog :=
  { metaFile := FluxLog.writeMeta 1 ⟨none, none⟩
    partitions := [Partition.empty []]
    retention := ⟨none, none⟩
    offsetsFile := []
    offsets := fun _ => none
    rrCounter := 0 }

theorem onePartition_created : FluxLog.create 1 ⟨none, none⟩ = .ok onePartition := rfl

theorem oneRecord_steady : onePartition.SteadyRun bincodeCodecs (fun _ => 0) oneRecord := by
  refine ⟨⟨rfl, ?_⟩, trivial⟩
  intro index record adds
  have expected : onePartition.publishes (fun _ => 0) (.publish none 1 (some 0) none [7]) =
      some (0, ⟨0, none, [7], 1⟩) := by decide +kernel
  rw [expected] at adds
  cases adds
  refine ⟨⟨⟨by decide, by simp, by decide, by decide⟩, by decide +kernel⟩, by decide, by decide,
    Or.inl (Or.inl rfl)⟩

theorem flux_reopens_without_torn_length :
    ∃ reopened, (onePartition.run bincodeCodecs (fun _ => 0) oneRecord).reopenTorn bincodeCodecs true 0 28 =
        some reopened ∧
      (onePartition.run bincodeCodecs (fun _ => 0) oneRecord).WithoutRecord 0 ⟨0, none, [7], 1⟩
        reopened := by
  have storable : (⟨none, none⟩ : RetentionPolicy).Storable := ⟨by simp, by simp⟩
  have split : onePartition.published bincodeCodecs (fun _ => 0) 0 oneRecord =
      [] ++ [⟨0, none, [7], 1⟩] := by decide +kernel
  have torn := (FluxLog.flux_reopens_iff bincodeCodecs (fun _ => 0) 1 ⟨none, none⟩ onePartition
    onePartition_created storable oneRecord oneRecord_steady true).2 0 [] ⟨0, none, [7], 1⟩ 28
    (by decide +kernel) split (by decide) (by decide +kernel)
  refine torn.mpr ⟨by decide +kernel, Or.inl rfl, fun _ _ _ => Or.inl ?_⟩
  intro ms given
  cases given

/-- One byte of the body is missing and the topic does not open. -/
theorem flux_torn_body_unreadable :
    FluxLog.create 1 ⟨none, none⟩ = .ok onePartition ∧
      onePartition.SteadyRun bincodeCodecs (fun _ => 0) oneRecord ∧
      onePartition.published bincodeCodecs (fun _ => 0) 0 oneRecord = [⟨0, none, [7], 1⟩] ∧
      ¬ ∃ reopened, (onePartition.run bincodeCodecs (fun _ => 0) oneRecord).reopenTorn
          bincodeCodecs false 0 1 = some reopened ∧
        (onePartition.run bincodeCodecs (fun _ => 0) oneRecord).WithoutRecord 0
          ⟨0, none, [7], 1⟩ reopened := by
  refine ⟨onePartition_created, oneRecord_steady, by decide +kernel, ?_⟩
  rintro ⟨reopened, opened, _⟩
  have unreadable : ((onePartition.run bincodeCodecs (fun _ => 0) oneRecord).reopenTorn
      bincodeCodecs false 0 1).isNone = true := by decide +kernel
  rw [opened] at unreadable
  cases unreadable

end Pantheon.Keystone
