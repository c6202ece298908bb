import Mathlib
import Pantheon.Lib.Bincode
import Pantheon.Keystone.Flux

/-!
# What a Flux partition retains

`Follows` relates a partition to all the records published to it: the records in
memory are the last of them, their offsets count up to `nextOffset`, and the byte
count is theirs.  Appending and retention keep it, so every run does.
-/

set_option autoImplicit false

namespace Pantheon.Keystone

open Pantheon.Lib

variable {part : Partition} {all : List FluxRecord}

def recordBytes (records : List FluxRecord) : Nat :=
  (records.map fun record => record.value.length).sum

theorem recordBytes_cons (record : FluxRecord) (records : List FluxRecord) :
    recordBytes (record :: records) = record.value.length + recordBytes records := by
  simp [recordBytes]

theorem recordBytes_append (left right : List FluxRecord) :
    recordBytes (left ++ right) = recordBytes left + recordBytes right := by
  simp [recordBytes]

namespace Partition

/-! ## Retention -/

theorem evictOld_suffix (cutoff : Int) : ∀ (records : List FluxRecord) (total : Nat),
    total = recordBytes records →
    (evictOld cutoff records total).1 <:+ records ∧
      (evictOld cutoff records total).2 = recordBytes (evictOld cutoff records total).1 := by
  intro records
  induction records with
  | nil => intro total exact; exact ⟨List.suffix_refl _, exact⟩
  | cons front rest ih =>
      intro total exact
      unfold evictOld
      split_ifs with old
      · rw [recordBytes_cons] at exact
        obtain ⟨suffix, bytes⟩ := ih (total - front.value.length) (by omega)
        exact ⟨suffix.trans (List.suffix_cons _ _), bytes⟩
      · exact ⟨List.suffix_refl _, exact⟩

theorem evictLarge_suffix (maxBytes : Nat) : ∀ (records : List FluxRecord) (total : Nat),
    total = recordBytes records →
    (evictLarge maxBytes records total).1 <:+ records ∧
      (evictLarge maxBytes records total).2 = recordBytes (evictLarge maxBytes records total).1 := by
  intro records
  induction records with
  | nil => intro total exact; exact ⟨List.suffix_refl _, exact⟩
  | cons front rest ih =>
      intro total exact
      unfold evictLarge
      split_ifs with large
      · rw [recordBytes_cons] at exact
        obtain ⟨suffix, bytes⟩ := ih (total - front.value.length) (by omega)
        exact ⟨suffix.trans (List.suffix_cons _ _), bytes⟩
      · exact ⟨List.suffix_refl _, exact⟩

@[simp] theorem applyRetention_nextOffset (retention : RetentionPolicy) (part : Partition) :
    (part.applyRetention retention).nextOffset = part.nextOffset := rfl

@[simp] theorem applyRetention_file (retention : RetentionPolicy) (part : Partition) :
    (part.applyRetention retention).file = part.file := rfl

@[simp] theorem applyRetention_newestTs (retention : RetentionPolicy) (part : Partition) :
    (part.applyRetention retention).newestTs = part.newestTs := rfl

theorem applyRetention_suffix (retention : RetentionPolicy) (part : Partition)
    (exact : part.totalBytes = recordBytes part.records) :
    (part.applyRetention retention).records <:+ part.records ∧
      (part.applyRetention retention).totalBytes =
        recordBytes (part.applyRetention retention).records := by
  obtain ⟨ms, maxBytes⟩ := retention
  have aged : ∀ cutoff, (evictOld cutoff part.records part.totalBytes).1 <:+ part.records ∧
      (evictOld cutoff part.records part.totalBytes).2 =
        recordBytes (evictOld cutoff part.records part.totalBytes).1 :=
    fun cutoff => evictOld_suffix cutoff part.records part.totalBytes exact
  cases ms with
  | none =>
      cases maxBytes with
      | none => exact ⟨List.suffix_refl _, exact⟩
      | some maxBytes => exact evictLarge_suffix maxBytes part.records part.totalBytes exact
  | some ms =>
      obtain ⟨suffix, bytes⟩ := aged (wrapSigned64 (part.newestTs - ms))
      cases maxBytes with
      | none => exact ⟨suffix, bytes⟩
      | some maxBytes =>
          obtain ⟨further, sized⟩ := evictLarge_suffix maxBytes _ _ bytes
          exact ⟨further.trans suffix, sized⟩

/-! ## One partition -/

/-- The partition holds the end of `all`, whose offsets count from zero. -/
structure Follows (part : Partition) (all : List FluxRecord) : Prop where
  suffix : part.records <:+ all
  offsets : all.map FluxRecord.offset = List.range all.length
  next : part.nextOffset = all.length
  bytes : part.totalBytes = recordBytes part.records

theorem follows_empty (file : Bytes) : (empty file).Follows [] :=
  ⟨List.suffix_refl _, rfl, rfl, rfl⟩

theorem Follows.withFile (follows : part.Follows all)
    (file : Bytes) : ({ part with file := file } : Partition).Follows all :=
  ⟨follows.suffix, follows.offsets, follows.next, follows.bytes⟩

theorem Follows.push (follows : part.Follows all)
    (codec : Codec FluxRecord) (record : FluxRecord) (numbered : record.offset = part.nextOffset) :
    (part.push codec record).Follows (all ++ [record]) := by
  obtain ⟨dropped, split⟩ := follows.suffix
  refine ⟨⟨dropped, ?_⟩, ?_, ?_, ?_⟩
  · rw [← split, Partition.push, List.append_assoc]
  · rw [List.map_append, follows.offsets, List.length_append, List.map_singleton, numbered,
      follows.next, List.length_singleton, List.range_succ]
  · rw [Partition.push, follows.next, List.length_append, List.length_singleton]
  · simp only [Partition.push, recordBytes_append, follows.bytes]
    simp [recordBytes]

theorem Follows.applyRetention
    (follows : part.Follows all) (retention : RetentionPolicy) :
    (part.applyRetention retention).Follows all := by
  obtain ⟨suffix, bytes⟩ := applyRetention_suffix retention part follows.bytes
  exact ⟨suffix.trans follows.suffix, follows.offsets, follows.next, bytes⟩

theorem Follows.length_le (follows : part.Follows all) :
    part.records.length ≤ part.nextOffset := by
  rw [follows.next]
  exact follows.suffix.length_le

theorem Follows.consecutive
    (follows : part.Follows all) :
    part.records.map FluxRecord.offset =
      List.range' (part.nextOffset - part.records.length) part.records.length := by
  obtain ⟨dropped, split⟩ := follows.suffix
  have total : all.length = dropped.length + part.records.length := by
    rw [← split, List.length_append]
  have numbered := follows.offsets
  rw [← split, List.map_append, List.length_append, List.range_eq_range',
    ← List.range'_append_1, Nat.zero_add] at numbered
  have parts := List.append_inj numbered (by simp)
  rw [parts.2, follows.next, total, Nat.add_sub_cancel_right]

end Partition

theorem filter_offset_eq_drop (start : Nat) : ∀ (records : List FluxRecord) (first : Nat),
    records.map FluxRecord.offset = List.range' first records.length →
    records.filter (fun record => decide (start ≤ record.offset)) =
      records.drop (start - first) := by
  intro records
  induction records with
  | nil => intro first _; simp
  | cons record records ih =>
      intro first numbered
      rw [List.map_cons, List.length_cons, List.range'_succ] at numbered
      obtain ⟨offset, rest⟩ := List.cons.inj numbered
      have tail := ih (first + 1) rest
      by_cases reached : start ≤ first
      · have here : start ≤ record.offset := by omega
        have whole : start - (first + 1) = 0 := by omega
        rw [List.filter_cons_of_pos (by simpa using here), tail, whole,
          Nat.sub_eq_zero_of_le reached, List.drop_zero, List.drop_zero]
      · have before : ¬ start ≤ record.offset := by omega
        have further : start - first = start - (first + 1) + 1 := by omega
        rw [List.filter_cons_of_neg (by simpa using before), tail, further, List.drop_succ_cons]

/-! ## Runs -/

namespace FluxLog

variable (codecs : FluxCodecs) (hash : Bytes → Nat)

def FollowsAll (log : FluxLog) (all : Nat → List FluxRecord) : Prop :=
  ∀ (index : Nat) (part : Partition), log.partitions[index]? = some part →
    part.Follows (all index)

theorem followsAll_create {numPartitions : UInt32} {retention : RetentionPolicy} {log : FluxLog}
    (created : create numPartitions retention = .ok log) : log.FollowsAll fun _ => [] := by
  unfold create at created
  split_ifs at created with zero
  cases created
  intro index part found
  have member := List.mem_of_getElem? found
  rw [List.eq_of_mem_replicate member]
  exact Partition.follows_empty []

theorem step_publish (log : FluxLog) (fault : Option Nat) (now : Int) (partition : Option Nat)
    (key : Option Bytes) (value : Bytes) :
    (log.step codecs hash (.publish fault now partition key value)).partitions = log.partitions ∧
        log.publishes hash (.publish fault now partition key value) = none ∨
      ∃ index part, log.partitions[index]? = some part ∧
        (log.step codecs hash (.publish fault now partition key value)).partitions =
          log.partitions.set index
            (part.append codecs.record log.retention fault key value now).1 ∧
        log.publishes hash (.publish fault now partition key value) =
          if fault = none then some (index, ⟨part.nextOffset, key, value, now⟩) else none := by
  cases targeted : log.target hash partition key with
  | error message =>
      refine Or.inl ⟨by simp only [step, publish, targeted], ?_⟩
      cases fault <;> simp only [publishes, targeted]
  | ok pair =>
      obtain ⟨index, rrCounter⟩ := pair
      cases found : log.partitions[index]? with
      | none =>
          refine Or.inl ⟨by simp only [step, publish, targeted, found], ?_⟩
          cases fault <;> simp [publishes, targeted, found]
      | some part =>
          refine Or.inr ⟨index, part, found, by simp only [step, publish, targeted, found], ?_⟩
          cases fault with
          | none => simp [publishes, targeted, found]
          | some written => rfl

theorem step_commit_partitions (log : FluxLog) (fault : Option Nat) (group : String)
    (partition offset : Nat) :
    (log.step codecs hash (.commit fault group partition offset)).partitions = log.partitions := by
  dsimp only [step, commit]
  split_ifs with inside
  · cases fault <;> rfl
  · rfl

theorem FollowsAll.step {log : FluxLog} {all : Nat → List FluxRecord} (follows : log.FollowsAll all)
    (action : FluxAction) :
    (log.step codecs hash action).FollowsAll fun index =>
      all index ++ log.publishesTo hash index action := by
  intro index part found
  cases action with
  | commit fault group partition offset =>
      rw [step_commit_partitions] at found
      simpa [publishesTo, publishes] using follows index part found
  | publish fault now partition key value =>
      rcases step_publish codecs hash log fault now partition key value with
        ⟨same, nothing⟩ | ⟨target, before, targeted, changed, adds⟩
      · rw [same] at found
        simpa [publishesTo, nothing] using follows index part found
      · rw [changed, List.getElem?_set] at found
        by_cases here : target = index
        · subst here
          rw [if_pos rfl, if_pos (List.getElem?_eq_some_iff.mp targeted).1] at found
          cases found
          have held := follows target before targeted
          cases fault with
          | some written => simpa [publishesTo, adds, Partition.append] using held.withFile _
          | none =>
              have pushed := held.push codecs.record ⟨before.nextOffset, key, value, now⟩ rfl
              simpa [publishesTo, adds, Partition.append] using
                pushed.applyRetention log.retention
        · rw [if_neg here] at found
          have same := follows index part found
          cases fault <;> simpa [publishesTo, adds, here] using same

theorem FollowsAll.run : ∀ (actions : List FluxAction) (log : FluxLog)
    (all : Nat → List FluxRecord), log.FollowsAll all →
    (log.run codecs hash actions).FollowsAll fun index =>
      all index ++ log.published codecs hash index actions := by
  intro actions
  induction actions with
  | nil => intro log all follows; simpa [FluxLog.run, published] using follows
  | cons action actions ih =>
      intro log all follows
      have next := ih _ _ (follows.step codecs hash action)
      simpa [FluxLog.run, published, List.append_assoc] using next

theorem step_partitions_length (log : FluxLog) (action : FluxAction) :
    (log.step codecs hash action).partitions.length = log.partitions.length := by
  cases action with
  | commit fault group partition offset => rw [step_commit_partitions]
  | publish fault now partition key value =>
      rcases step_publish codecs hash log fault now partition key value with
        ⟨same, _⟩ | ⟨target, before, _, changed, _⟩
      · rw [same]
      · rw [changed, List.length_set]

theorem step_offsets (log : FluxLog) (action : FluxAction) (group : String) (index : Nat)
    (inside : index < log.partitions.length) :
    (log.step codecs hash action).offsets (group, index) =
      (action.commits group index).or (log.offsets (group, index)) := by
  cases action with
  | publish fault now partition key value =>
      have kept : (log.step codecs hash (.publish fault now partition key value)).offsets =
          log.offsets := by
        cases targeted : log.target hash partition key with
        | error message => simp only [FluxLog.step, publish, targeted]
        | ok pair =>
            obtain ⟨index, rrCounter⟩ := pair
            cases found : log.partitions[index]? <;>
              simp only [FluxLog.step, publish, targeted, found]
      rw [kept]
      cases fault <;> rfl
  | commit fault committer partition offset =>
      cases fault with
      | some written =>
          dsimp only [FluxLog.step, commit]
          split_ifs <;> rfl
      | none =>
          dsimp only [FluxLog.step, commit, FluxAction.commits]
          by_cases same : committer = group ∧ partition = index
          · obtain ⟨rfl, rfl⟩ := same
            simp [inside, setOffset]
          · rw [if_neg same]
            split_ifs with exists_
            · have other : (group, index) ≠ (committer, partition) := by
                intro equal
                obtain ⟨rfl, rfl⟩ := Prod.mk.inj equal
                exact same ⟨rfl, rfl⟩
              simp [setOffset, Function.update_of_ne other]
            · rfl

theorem run_offsets (group : String) (index : Nat) : ∀ (actions : List FluxAction) (log : FluxLog),
    index < log.partitions.length →
    (log.run codecs hash actions).offsets (group, index) =
      ((actions.filterMap (FluxAction.commits group index)).getLast?).or
        (log.offsets (group, index)) := by
  intro actions
  induction actions with
  | nil => intro log _; rfl
  | cons action actions ih =>
      intro log inside
      have later := ih (log.step codecs hash action)
        (by rw [step_partitions_length]; exact inside)
      have here := step_offsets codecs hash log action group index inside
      rw [FluxLog.run, List.foldl_cons, ← FluxLog.run, later, here]
      cases committed : action.commits group index with
      | none => simp [committed]
      | some offset =>
          rw [List.filterMap_cons_some committed, List.getLast?_cons]
          cases (actions.filterMap (FluxAction.commits group index)).getLast? <;> rfl

theorem run_partitions_length (actions : List FluxAction) : ∀ log : FluxLog,
    (log.run codecs hash actions).partitions.length = log.partitions.length := by
  induction actions with
  | nil => intro log; rfl
  | cons action actions ih =>
      intro log
      rw [FluxLog.run, List.foldl_cons, ← FluxLog.run, ih, step_partitions_length]

/-- The retained window and every poll of it, after any run of a new topic. -/
theorem flux_log_semantics (numPartitions : UInt32) (retention : RetentionPolicy) (log : FluxLog)
    (created : create numPartitions retention = .ok log) (actions : List FluxAction) (index : Nat)
    (part : Partition) (found : (log.run codecs hash actions).partitions[index]? = some part) :
    part.records <:+ log.published codecs hash index actions ∧
      part.nextOffset = (log.published codecs hash index actions).length ∧
      part.records.length ≤ part.nextOffset ∧
      part.records.map FluxRecord.offset =
        List.range' (part.nextOffset - part.records.length) part.records.length ∧
      part.totalBytes = recordBytes part.records ∧
      ∀ (group : String) (max : Nat),
        (log.run codecs hash actions).poll group index max =
            .ok ((part.records.filter fun record =>
              decide (committedOffset group index actions ≤ record.offset)).take max) ∧
          (log.run codecs hash actions).poll group index max =
            .ok ((part.records.drop (committedOffset group index actions -
              (part.nextOffset - part.records.length))).take max) := by
  have follows := FollowsAll.run codecs hash actions log _ (followsAll_create created) index part found
  simp only [List.nil_append] at follows
  have inside : index < log.partitions.length := by
    rw [← run_partitions_length codecs hash actions log]
    exact (List.getElem?_eq_some_iff.mp found).1
  have nothing : ∀ group, log.offsets (group, index) = none := by
    unfold create at created
    split_ifs at created
    cases created
    exact fun _ => rfl
  refine ⟨follows.suffix, follows.next, follows.length_le, follows.consecutive, follows.bytes, ?_⟩
  intro group max
  have from_ : ((log.run codecs hash actions).offsets (group, index)).getD 0 =
      committedOffset group index actions := by
    rw [run_offsets codecs hash group index actions log inside, nothing group, Option.or_none]
    rfl
  have polled : (log.run codecs hash actions).poll group index max =
      .ok ((part.records.filter fun record =>
        decide (committedOffset group index actions ≤ record.offset)).take max) := by
    simp only [poll, found, from_, Partition.poll]
  refine ⟨polled, ?_⟩
  rw [polled, filter_offset_eq_drop _ part.records _ follows.consecutive]

end FluxLog

/-! ## The serialisation of the records -/

open Bincode in
def bincodeRecord : Codec FluxRecord where
  serialize record := writeU64 record.offset ++ (writeOption record.key ++
    (writeBytes record.value ++ writeI64 record.timestampMs))
  deserialize data := do
    let (offset, data) ← readU64 data
    let (key, data) ← readOption data
    let (value, data) ← readBytes data
    let (timestampMs, _) ← readI64 data
    some ⟨offset, key, value, timestampMs⟩
  Valid record := record.offset < 2 ^ 64 ∧ (∀ key ∈ record.key, key.length < 2 ^ 64) ∧
    record.value.length < 2 ^ 64 ∧ IsSigned64 record.timestampMs
  roundTrip := by
    intro record valid
    obtain ⟨offset, key, value, timestamp⟩ := valid
    have last := readI64_writeI64 timestamp []
    rw [List.append_nil] at last
    simp only [Option.bind_eq_bind, readU64_writeU64 offset, readOption_writeOption key,
      readBytes_writeBytes value, last, Option.bind_some]

open Bincode in
def bincodeCommit : Codec OffsetCommit where
  serialize commit := writeString commit.group ++ ((beBytes 4 commit.partition).reverse ++
    writeU64 commit.offset)
  deserialize data := do
    let (group, data) ← readString data
    let (partition, data) ← splitExact 4 data
    let (offset, _) ← readU64 data
    some ⟨group, ofBe partition.reverse, offset⟩
  Valid commit := (utf8Bytes commit.group).length < 2 ^ 64 ∧ commit.partition < 2 ^ 32 ∧
    commit.offset < 2 ^ 64
  roundTrip := by
    intro commit valid
    obtain ⟨group, partition, offset⟩ := valid
    have last := readU64_writeU64 offset []
    rw [List.append_nil] at last
    have middle := splitExact_append (beBytes 4 commit.partition).reverse (writeU64 commit.offset)
    rw [List.length_reverse, beBytes_length] at middle
    have exact := ofBe_beBytes_of_lt 4 commit.partition (by omega)
    simp only [Option.bind_eq_bind, readString_writeString group, middle, last, Option.bind_some,
      List.reverse_reverse, exact]

def bincodeCodecs : FluxCodecs := ⟨bincodeRecord, bincodeCommit⟩

def smallTopic : RetentionPolicy := ⟨none, some 10⟩

/-- Three records of six bytes to one partition, and a commit after the second. -/
def smallRun : List FluxAction :=
  [.publish none 5 (some 1) none [1, 1, 1, 1, 1, 1], .publish none 6 (some 1) none [2, 2, 2, 2, 2, 2],
    .commit none "readers" 1 2, .publish none 7 (some 1) none [3, 3, 3, 3, 3, 3]]

theorem flux_log_semantics_small_run :
    ∃ log part, FluxLog.create 2 smallTopic = .ok log ∧
      (log.run bincodeCodecs (fun _ => 0) smallRun).partitions[1]? = some part ∧
      (log.run bincodeCodecs (fun _ => 0) smallRun).poll "readers" 1 5 =
        .ok ((part.records.drop (2 - (part.nextOffset - part.records.length))).take 5) := by
  have built : ∃ log, FluxLog.create 2 smallTopic = .ok log ∧
      ((log.run bincodeCodecs (fun _ => 0) smallRun).partitions[1]?).isSome = true :=
    ⟨_, rfl, by decide +kernel⟩
  obtain ⟨log, created, some_⟩ := built
  obtain ⟨part, found⟩ := Option.isSome_iff_exists.mp some_
  have semantics := FluxLog.flux_log_semantics bincodeCodecs (fun _ => 0) 2 smallTopic log created
    smallRun 1 part found
  exact ⟨log, part, created, found, (semantics.2.2.2.2.2 "readers" 5).2⟩

end Pantheon.Keystone
