import Mathlib
import Pantheon.Keystone.TimeRange

/-!
# Opening a time index again

The file holds every insert, and opening replays them without retention.  The
answers are those from before exactly when no bucket had expired: the rows of an
expired bucket come back.
-/

set_option autoImplicit false

namespace Pantheon.Keystone

open Pantheon.Lib

def Expired (policy : TimeBucketPolicy) (newestTs start : Int) : Prop :=
  ∃ retentionMs ∈ policy.retentionMs,
    wrapSigned64 (start + policy.granularityMs) ≤ wrapSigned64 (newestTs - retentionMs)

instance (policy : TimeBucketPolicy) (newestTs start : Int) :
    Decidable (Expired policy newestTs start) :=
  inferInstanceAs (Decidable (∃ retentionMs ∈ policy.retentionMs, _ ≤ _))

/-- At no insert does a bucket lie behind the cutoff. -/
def NeverExpires (policy : TimeBucketPolicy) (inserts : List TsEntry) : Prop :=
  ∀ before after, inserts = before ++ after → ∀ entry ∈ before,
    ¬Expired policy (newestTsOf before) (bucketStart entry.ts policy.granularityMs)

namespace TimeIndex

/-! ## Indexes with the same buckets -/

/-- Two indexes hold the same buckets of one width. -/
structure Agrees (left right : TimeIndex) : Prop where
  buckets : left.buckets = right.buckets
  newest : left.newestTs = right.newestTs
  width : left.policy.granularityMs = right.policy.granularityMs

section Agreement

variable {left right : TimeIndex}

theorem Agrees.start_eq (agrees : Agrees left right) (ts : Int) : left.start ts = right.start ts := by
  rw [start, start, agrees.width]

theorem Agrees.place (agrees : Agrees left right) (ops : FloatOps) (entry : TsEntry) :
    Agrees (left.place ops entry) (right.place ops entry) := by
  refine ⟨?_, ?_, agrees.width⟩
  · simp only [TimeIndex.place, agrees.start_eq, agrees.buckets]
  · simp only [TimeIndex.place, agrees.newest]

theorem Agrees.seal_ (agrees : Agrees left right) :
    Agrees left.sealNonNewestBuckets right.sealNonNewestBuckets := by
  refine ⟨?_, agrees.newest, agrees.width⟩
  simp only [sealNonNewestBuckets, agrees.start_eq, agrees.buckets, agrees.newest]

theorem Agrees.bucketsBetween (agrees : Agrees left right) (t0 t1 : Int) :
    left.bucketsBetween t0 t1 = right.bucketsBetween t0 t1 := by
  simp only [TimeIndex.bucketsBetween, agrees.start_eq, agrees.buckets]

theorem Agrees.queryRange (agrees : Agrees left right) (t0 t1 : Int) :
    left.queryRange t0 t1 = right.queryRange t0 t1 := by
  simp only [TimeIndex.queryRange, agrees.bucketsBetween]

theorem Agrees.queryRollups (agrees : Agrees left right) (t0 t1 : Int) :
    left.queryRollups t0 t1 = right.queryRollups t0 t1 := by
  simp only [TimeIndex.queryRollups, agrees.bucketsBetween]

theorem Agrees.insert (codec : Codec TsEntry) (ops : FloatOps) (entry : TsEntry)
    (agrees : Agrees left right) (unlimited : right.policy.retentionMs = none) :
    Agrees (left.place ops entry).sealNonNewestBuckets (right.insert codec ops entry) := by
  obtain ⟨buckets, newest, width⟩ := (agrees.place ops entry).seal_
  rw [insert_eq codec ops entry unlimited]
  exact ⟨buckets, newest, width⟩

theorem insert_policy (codec : Codec TsEntry) (ops : FloatOps) (index : TimeIndex)
    (entry : TsEntry) : (index.insert codec ops entry).policy = index.policy := by
  rw [TimeIndex.insert, applyInsert, if_pos rfl, applyRetention]
  split <;> rfl

theorem Agrees.replay (codec : Codec TsEntry) (ops : FloatOps) : ∀ (entries : List TsEntry)
    (left right : TimeIndex), Agrees left right → right.policy.retentionMs = none →
    Agrees (entries.foldl (fun index entry => index.applyInsert ops entry false) left)
      (right.insertAll codec ops entries) := by
  intro entries
  induction entries with
  | nil => intro left right agrees _; exact agrees
  | cons entry entries ih =>
      intro left right agrees unlimited
      refine ih _ _ (agrees.insert codec ops entry unlimited) ?_
      rw [insert_policy, unlimited]

end Agreement

/-! ## Retention -/

theorem applyRetention_of_not_expired {index : TimeIndex}
    (fresh : ∀ start bucket, index.buckets.get? start = some bucket →
      ¬Expired index.policy index.newestTs start) :
    index.applyRetention = index := by
  rw [applyRetention]
  cases retention : index.policy.retentionMs with
  | none => rfl
  | some retentionMs =>
      have same := OrdMap.mapValues_eq_self (fun start bucket =>
        if wrapSigned64 (start + index.policy.granularityMs) ≤
            wrapSigned64 (index.newestTs - retentionMs) then
          { bucket with state := BucketState.downsampled }
        else bucket) index.buckets (by
          intro start bucket found
          refine if_neg fun expired => fresh start bucket found ⟨retentionMs, retention, expired⟩)
      simp only [same]

variable {granularityMs : Int} {entry : TsEntry}

theorem Agrees.unexpired {left right : TimeIndex} {inserts : List TsEntry}
    (agrees : Agrees left right) (tracks : Tracks granularityMs inserts right)
    (fresh : ∀ entry ∈ inserts,
      ¬Expired left.policy (newestTsOf inserts) (bucketStart entry.ts granularityMs)) :
    left.applyRetention = left := by
  refine applyRetention_of_not_expired fun start bucket found => ?_
  rw [agrees.buckets] at found
  obtain ⟨entry, member, starts⟩ := (tracks.present start).mp ⟨bucket, found⟩
  rw [agrees.newest, tracks.newest, ← starts]
  exact fresh entry member

theorem Agrees.live (codec : Codec TsEntry) (ops : FloatOps) (entry : TsEntry)
    {left right : TimeIndex} {inserts : List TsEntry}
    (agrees : Agrees left right) (unlimited : right.policy.retentionMs = none)
    (tracks : Tracks granularityMs inserts (right.insert codec ops entry))
    (fresh : ∀ other ∈ inserts,
      ¬Expired left.policy (newestTsOf inserts) (bucketStart other.ts granularityMs)) :
    Agrees (left.insert codec ops entry) (right.insert codec ops entry) := by
  have logged : Agrees { left with file := left.file ++ frame (codec.serialize entry) } right :=
    ⟨agrees.buckets, agrees.newest, agrees.width⟩
  have inserted := logged.insert codec ops entry unlimited
  rw [TimeIndex.insert, applyInsert, if_pos rfl, inserted.unexpired tracks fresh]
  exact inserted

section Live

variable (codec : Codec TsEntry) (ops : FloatOps) (policy : TimeBucketPolicy) (valueColumn : String)

theorem insertAll_policy (inserts : List TsEntry) :
    ((create policy valueColumn).insertAll codec ops inserts).policy = policy := by
  induction inserts using List.reverseRecOn with
  | nil => rfl
  | append_singleton inserts entry ih => rw [insertAll_snoc, insert_policy, ih]

theorem insertAll_file (inserts : List TsEntry) :
    ((create policy valueColumn).insertAll codec ops inserts).file =
      header policy valueColumn ++ codec.log inserts := by
  have insertFile : ∀ (index : TimeIndex) (entry : TsEntry),
      (index.insert codec ops entry).file = index.file ++ frame (codec.serialize entry) := by
    intro index entry
    rw [TimeIndex.insert, applyInsert, if_pos rfl, applyRetention]
    split <;> rfl
  induction inserts using List.reverseRecOn with
  | nil => exact (List.append_nil _).symm
  | append_singleton inserts entry ih =>
      rw [insertAll_snoc, insertFile, ih, codec.log_append, codec.log_singleton,
        List.append_assoc]

theorem create_agrees :
    Agrees (create policy valueColumn) (create ⟨policy.granularityMs, none⟩ valueColumn) where
  buckets := rfl
  newest := rfl
  width := rfl

theorem live_agrees : ∀ inserts : List TsEntry, NeverExpires policy inserts →
    Agrees ((create policy valueColumn).insertAll codec ops inserts)
      (keptAfter codec ops valueColumn policy.granularityMs inserts) := by
  intro inserts
  induction inserts using List.reverseRecOn with
  | nil =>
      intro _
      exact create_agrees policy valueColumn
  | append_singleton inserts entry ih =>
      intro fresh
      have before : NeverExpires policy inserts := by
        intro front back split
        exact fresh front (back ++ [entry]) (by rw [split, List.append_assoc])
      have tracks : Tracks policy.granularityMs inserts
          (keptAfter codec ops valueColumn policy.granularityMs inserts) :=
        tracks_keptAfter codec ops valueColumn inserts
      have later : Tracks policy.granularityMs (inserts ++ [entry])
          (keptAfter codec ops valueColumn policy.granularityMs (inserts ++ [entry])) :=
        tracks_keptAfter codec ops valueColumn (inserts ++ [entry])
      have unlimited : (keptAfter codec ops valueColumn policy.granularityMs
          inserts).policy.retentionMs = none := by rw [tracks.policy]
      have whole := fresh (inserts ++ [entry]) [] (List.append_nil _).symm
      have policies := insertAll_policy codec ops policy valueColumn inserts
      have agrees := ih before
      rw [keptAfter, insertAll_snoc] at later
      rw [insertAll_snoc, keptAfter, insertAll_snoc]
      exact agrees.live codec ops entry unlimited later (by rw [policies]; exact whole)

end Live

/-! ## The file -/

/-- The header and the rows of a file can be read back. -/
structure Storable (codec : Codec TsEntry) (policy : TimeBucketPolicy) (valueColumn : String)
    (inserts : List TsEntry) : Prop where
  column : (utf8Bytes valueColumn).length < 2 ^ 16
  rows : ∀ entry ∈ inserts, codec.Fits entry

theorem openFile_log (codec : Codec TsEntry) (ops : FloatOps) {policy : TimeBucketPolicy}
    {valueColumn : String} {inserts : List TsEntry} (width : IsSigned64 policy.granularityMs)
    (storable : Storable codec policy valueColumn inserts) :
    ∃ reopened, openFile codec ops (header policy valueColumn ++ codec.log inserts) =
        some reopened ∧
      Agrees reopened (keptAfter codec ops valueColumn policy.granularityMs inserts) := by
  obtain ⟨column, rows⟩ := storable
  let fixed := signedBytes policy.granularityMs ++ signedBytes (policy.retentionMs.getD (-1))
  let size := (utf8Bytes valueColumn).length
  have split : header policy valueColumn ++ codec.log inserts =
      fixed ++ (beBytes 2 size ++ (utf8Bytes valueColumn ++ codec.log inserts)) := by
    simp only [header, fixed, size, List.append_assoc]
  have fixedRead := splitExact_append fixed
    (beBytes 2 size ++ (utf8Bytes valueColumn ++ codec.log inserts))
  have fixedSize : fixed.length = 16 := by
    simp only [fixed, List.length_append, signedBytes_length]
  have granularityRead : ofSignedBytes (fixed.take 8) = policy.granularityMs := by
    rw [show fixed.take 8 = signedBytes policy.granularityMs from
      List.take_left' (signedBytes_length _)]
    exact ofSignedBytes_signedBytes width
  have sizeRead : ofBe (beBytes 2 size) = size :=
    ofBe_beBytes_of_lt 2 size (lt_of_lt_of_eq column (by norm_num))
  have columnRead := splitExact_append (utf8Bytes valueColumn) (codec.log inserts)
  have rowsRead := codec.readLog_log inserts rows []
  have nothing : readLog codec.deserialize [] = some [] := readLog_short _ (by decide)
  rw [List.append_nil, nothing, Option.map_some, List.append_nil] at rowsRead
  rw [fixedSize] at fixedRead
  have opened : openFile codec ops (header policy valueColumn ++ codec.log inserts) =
      some (inserts.foldl (fun index entry => index.applyInsert ops entry false)
        ⟨header policy valueColumn ++ codec.log inserts,
          ⟨policy.granularityMs,
            if ofSignedBytes (fixed.drop 8) < 0 then none
            else some (ofSignedBytes (fixed.drop 8))⟩,
          valueColumn, OrdMap.empty, -2 ^ 63⟩) := by
    rw [openFile]
    simp only [split, fixedRead, granularityRead, splitExact_beBytes, sizeRead, columnRead, size,
      fromUTF8_utf8Bytes, rowsRead, Option.bind_eq_bind, Option.bind_some]
  exact ⟨_, opened, Agrees.replay codec ops inserts _ _ ⟨rfl, rfl, rfl⟩ rfl⟩

/-! ## Expired buckets -/

/-- Sealed rows can be read back and no bound of the arithmetic is crossed. -/
structure Regular (policy : TimeBucketPolicy) (inserts : List TsEntry) : Prop where
  positive : 0 < policy.granularityMs
  few : inserts.length < 2 ^ 32
  times : ∀ entry ∈ inserts, IsSigned64 entry.ts
  starts : ∀ entry ∈ inserts,
    -2 ^ 63 ≤ entry.ts / policy.granularityMs * policy.granularityMs ∧
      entry.ts / policy.granularityMs * policy.granularityMs + policy.granularityMs < 2 ^ 63
  retention : ∀ retentionMs ∈ policy.retentionMs, 0 ≤ retentionMs ∧
    ∀ entry ∈ inserts, -2 ^ 63 ≤ entry.ts - retentionMs

theorem newestTsOf_mem : ∀ inserts : List TsEntry, inserts ≠ [] →
    (∀ entry ∈ inserts, IsSigned64 entry.ts) →
    ∃ entry ∈ inserts, entry.ts = newestTsOf inserts := by
  intro inserts
  induction inserts using List.reverseRecOn with
  | nil => intro nonempty; exact (nonempty rfl).elim
  | append_singleton inserts entry ih =>
      intro _ times
      rw [newestTsOf_snoc]
      split_ifs with newer
      · exact ⟨entry, by simp, rfl⟩
      · by_cases first : inserts = []
        · subst first
          refine ⟨entry, by simp, ?_⟩
          have lower := (times entry (by simp)).1
          have least : newestTsOf [] = -2 ^ 63 := rfl
          omega
        · obtain ⟨other, member, same⟩ := ih first fun other member =>
            times other (List.mem_append_left _ member)
          exact ⟨other, List.mem_append_left _ member, same⟩

section Regularity

variable {policy : TimeBucketPolicy} {inserts : List TsEntry}

theorem Regular.bucketStart_eq (regular : Regular policy inserts)
    (member : entry ∈ inserts) :
    bucketStart entry.ts policy.granularityMs =
      entry.ts / policy.granularityMs * policy.granularityMs := by
  obtain ⟨lower, upper⟩ := regular.starts entry member
  have positive := regular.positive
  exact wrapSigned64_of_isSigned64 ⟨lower, by omega⟩

theorem Regular.expired_later (regular : Regular policy inserts) {before after : List TsEntry}
    (split : inserts = before ++ after) (member : entry ∈ before)
    (expired : Expired policy (newestTsOf before) (bucketStart entry.ts policy.granularityMs)) :
    Expired policy (newestTsOf inserts) (bucketStart entry.ts policy.granularityMs) := by
  obtain ⟨retentionMs, given, behind⟩ := expired
  refine ⟨retentionMs, given, le_trans behind ?_⟩
  obtain ⟨nonneg, within⟩ := regular.retention retentionMs given
  have inside : ∀ other ∈ before, other ∈ inserts := fun other held =>
    split ▸ List.mem_append_left _ held
  have times := regular.times
  obtain ⟨newest, newestMember, newestTs⟩ := newestTsOf_mem before (List.ne_nil_of_mem member)
    fun other held => times other (inside other held)
  have later : newestTsOf before ≤ newestTsOf inserts := split ▸ newestTsOf_le_append before after
  have lower := within newest (inside newest newestMember)
  obtain ⟨_, upper⟩ := newestTsOf_signed inserts times
  rw [wrapSigned64_of_isSigned64 ⟨by omega, by omega⟩,
    wrapSigned64_of_isSigned64 ⟨by omega, by omega⟩]
  omega

end Regularity

def Stocked (granularityMs : Int) (inserts : List TsEntry) (index : TimeIndex) : Prop :=
  ∀ start bucket, index.buckets.get? start = some bucket →
    bucket.readings ≠ [] ∧ bucket.readings.length ≤ inserts.length ∧
      ∀ reading ∈ bucket.readings, IsSigned64 reading.1 ∧
        bucketStart reading.1 granularityMs = start

section Stock

variable (codec : Codec TsEntry) (ops : FloatOps) (valueColumn : String) {granularityMs : Int}

theorem Stocked.push {inserts : List TsEntry} {index : TimeIndex}
    (tracks : Tracks granularityMs inserts index) (stocked : Stocked granularityMs inserts index)
    (range : IsSigned64 entry.ts) :
    ((index.bucketFor entry).push ops entry).readings ≠ [] ∧
      ((index.bucketFor entry).push ops entry).readings.length ≤ (inserts ++ [entry]).length ∧
      ∀ reading ∈ ((index.bucketFor entry).push ops entry).readings, IsSigned64 reading.1 ∧
        bucketStart reading.1 granularityMs = bucketStart entry.ts granularityMs := by
  have total : (inserts ++ [entry]).length = inserts.length + 1 := List.length_append
  have before : (index.bucketFor entry).readings.length ≤ inserts.length ∧
      ∀ reading ∈ (index.bucketFor entry).readings, IsSigned64 reading.1 ∧
        bucketStart reading.1 granularityMs = bucketStart entry.ts granularityMs := by
    rw [bucketFor, tracks.start_eq]
    cases found : index.buckets.get? (bucketStart entry.ts granularityMs) with
    | none =>
        refine ⟨Nat.zero_le _, ?_⟩
        intro reading member
        exact absurd member List.not_mem_nil
    | some bucket => exact (stocked _ bucket found).2
  by_cases opened : (index.bucketFor entry).IsOpen
  · rw [Bucket.readings_push_of_isOpen ops opened, List.length_append, List.length_singleton]
    refine ⟨List.append_ne_nil_of_right_ne_nil _ (List.cons_ne_nil _ _), by omega, ?_⟩
    intro reading member
    rcases List.mem_append.mp member with old | new
    · exact before.2 reading old
    · cases List.mem_singleton.mp new
      exact ⟨range, rfl⟩
  · rw [Bucket.readings_push_of_not_isOpen ops opened, List.length_singleton]
    refine ⟨List.cons_ne_nil _ _, by omega, ?_⟩
    intro reading member
    cases List.mem_singleton.mp member
    exact ⟨range, rfl⟩

theorem stocked_keptAfter : ∀ inserts : List TsEntry, inserts.length < 2 ^ 32 →
    (∀ entry ∈ inserts, IsSigned64 entry.ts) →
    Stocked granularityMs inserts (keptAfter codec ops valueColumn granularityMs inserts) := by
  intro inserts
  induction inserts using List.reverseRecOn with
  | nil => intro _ _ start bucket found; cases found
  | append_singleton inserts entry ih =>
      intro few times start bucket found
      have total : (inserts ++ [entry]).length = inserts.length + 1 := List.length_append
      have tracks : Tracks granularityMs inserts
          (keptAfter codec ops valueColumn granularityMs inserts) :=
        tracks_keptAfter codec ops valueColumn inserts
      have stocked := ih (by omega) fun other member => times other (List.mem_append_left _ member)
      have pushed := stocked.push ops tracks (times entry (by simp))
      rw [keptAfter, insertAll_snoc] at found
      change ((keptAfter codec ops valueColumn granularityMs inserts).insert codec ops
        entry).buckets.get? start = some bucket at found
      rw [get?_insert codec ops entry (by rw [tracks.policy]), tracks.start_eq] at found
      obtain ⟨old, oldFound, rfl⟩ := Option.map_eq_some_iff.mp found
      have unsettled : old.readings ≠ [] ∧ old.readings.length ≤ (inserts ++ [entry]).length ∧
          ∀ reading ∈ old.readings, IsSigned64 reading.1 ∧
            bucketStart reading.1 granularityMs = start := by
        split_ifs at oldFound with same
        · cases Option.some.inj oldFound
          rw [same]
          exact pushed
        · obtain ⟨some_, most, own⟩ := stocked start old oldFound
          exact ⟨some_, by omega, own⟩
      obtain ⟨some_, most, own⟩ := unsettled
      have kept : (((keptAfter codec ops valueColumn granularityMs inserts).place ops
          entry).settled start old).readings.Perm old.readings :=
        settled_perm _ (fun _ => by omega) fun reading member => (own reading member).1
      refine ⟨?_, ?_, ?_⟩
      · intro none_
        rw [none_] at kept
        exact some_ kept.symm.eq_nil
      · rw [kept.length_eq]
        exact most
      · intro reading member
        exact own reading (kept.mem_iff.mp member)

end Stock

section Cut

theorem applyRetention_get? (index : TimeIndex) (start : Int) :
    index.applyRetention.buckets.get? start =
      (index.buckets.get? start).map fun bucket =>
        if Expired index.policy index.newestTs start then
          { bucket with state := .downsampled }
        else bucket := by
  rw [applyRetention]
  cases retention : index.policy.retentionMs with
  | none =>
      have never : ¬Expired index.policy index.newestTs start := by
        rintro ⟨retentionMs, given, _⟩
        rw [retention] at given
        cases given
      simp only [if_neg never, Option.map_id']
  | some retentionMs =>
      have expired : Expired index.policy index.newestTs start ↔
          wrapSigned64 (start + index.policy.granularityMs) ≤
            wrapSigned64 (index.newestTs - retentionMs) := by
        simp only [Expired, retention, Option.mem_some_iff, exists_eq_left']
      simp only [expired]
      rw [OrdMap.get?_mapValues]

theorem applyRetention_newestTs (index : TimeIndex) :
    index.applyRetention.newestTs = index.newestTs := by
  rw [applyRetention]
  split <;> rfl

variable (codec : Codec TsEntry) (ops : FloatOps) (policy : TimeBucketPolicy) (valueColumn : String)

theorem live_newestTs (inserts : List TsEntry) :
    ((create policy valueColumn).insertAll codec ops inserts).newestTs = newestTsOf inserts := by
  induction inserts using List.reverseRecOn with
  | nil => rfl
  | append_singleton inserts entry ih =>
      rw [insertAll_snoc, TimeIndex.insert, applyInsert, if_pos rfl, applyRetention_newestTs,
        newestTsOf_snoc, ← ih]
      rfl

theorem live_get? (inserts : List TsEntry) (entry : TsEntry) (start : Int) :
    ((create policy valueColumn).insertAll codec ops (inserts ++ [entry])).buckets.get? start =
      ((((create policy valueColumn).insertAll codec ops inserts).place ops
        entry).sealNonNewestBuckets.buckets.get? start).map fun bucket =>
          if Expired policy (newestTsOf (inserts ++ [entry])) start then
            { bucket with state := .downsampled }
          else bucket := by
  have newest := live_newestTs codec ops policy valueColumn (inserts ++ [entry])
  have policies := insertAll_policy codec ops policy valueColumn (inserts ++ [entry])
  rw [insertAll_snoc, TimeIndex.insert, applyInsert, if_pos rfl] at newest policies ⊢
  rw [applyRetention_newestTs] at newest
  have policyKept : ∀ index : TimeIndex, index.applyRetention.policy = index.policy := by
    intro index
    rw [applyRetention]
    split <;> rfl
  rw [policyKept] at policies
  rw [applyRetention_get?, newest, policies]
  rfl

theorem live_present : ∀ (inserts : List TsEntry) (start : Int) (bucket : Bucket),
    ((create policy valueColumn).insertAll codec ops inserts).buckets.get? start = some bucket →
    ∃ entry ∈ inserts, bucketStart entry.ts policy.granularityMs = start := by
  intro inserts
  induction inserts using List.reverseRecOn with
  | nil => intro start bucket found; cases found
  | append_singleton inserts entry ih =>
      intro start bucket found
      rw [live_get?, get?_seal_place] at found
      obtain ⟨settled, settledFound, _⟩ := Option.map_eq_some_iff.mp found
      obtain ⟨old, oldFound, _⟩ := Option.map_eq_some_iff.mp settledFound
      split_ifs at oldFound with same
      · refine ⟨entry, by simp, ?_⟩
        rw [same, TimeIndex.start, insertAll_policy]
      · obtain ⟨other, member, starts⟩ := ih start old oldFound
        exact ⟨other, List.mem_append_left _ member, starts⟩

theorem live_expired {inserts : List TsEntry} (nonempty : inserts ≠ []) {start : Int}
    {bucket : Bucket} (expired : Expired policy (newestTsOf inserts) start)
    (found : ((create policy valueColumn).insertAll codec ops inserts).buckets.get? start =
      some bucket) : bucket.readings = [] := by
  obtain ⟨before, last, rfl⟩ := (List.eq_nil_or_concat inserts).resolve_left nonempty
  rw [List.concat_eq_append] at expired found
  rw [live_get?] at found
  obtain ⟨settled, _, rfl⟩ := Option.map_eq_some_iff.mp found
  rw [if_pos expired]
  rfl

end Cut

/-! ## The answers after opening -/

/-- Opening the file of the index gives one that answers every query alike. -/
def ReopensAlike (codec : Codec TsEntry) (ops : FloatOps) (index : TimeIndex) : Prop :=
  ∃ reopened, openFile codec ops index.file = some reopened ∧
    ∀ t0 t1, IsSigned64 t0 → IsSigned64 t1 →
      reopened.queryRange t0 t1 = index.queryRange t0 t1 ∧
        reopened.queryRollups t0 t1 = index.queryRollups t0 t1

section Reopening

variable {policy : TimeBucketPolicy} {inserts : List TsEntry}

theorem Regular.start_le (regular : Regular policy inserts)
    (width : IsSigned64 policy.granularityMs) (member : entry ∈ inserts) {ts : Int}
    (range : IsSigned64 ts)
    (own : bucketStart ts policy.granularityMs = bucketStart entry.ts policy.granularityMs) :
    bucketStart entry.ts policy.granularityMs = ts / policy.granularityMs * policy.granularityMs := by
  have quotient := (bucketStart_eq_iff regular.positive width range
    (regular.times entry member)).mp own
  rw [regular.bucketStart_eq member, quotient]

theorem floor_unique (positive : 0 < granularityMs) {ts other : Int}
    (above : ts / granularityMs * granularityMs ≤ other / granularityMs * granularityMs)
    (below : other / granularityMs * granularityMs ≤ ts) :
    other / granularityMs * granularityMs = ts / granularityMs * granularityMs := by
  have lower := le_of_mul_le_mul_right above positive
  have upper := (Int.le_ediv_iff_mul_le positive).mpr below
  rw [le_antisymm upper lower]

theorem queryRange_expired (codec : Codec TsEntry) (ops : FloatOps) (valueColumn : String)
    (width : IsSigned64 policy.granularityMs) (regular : Regular policy inserts)
    (member : entry ∈ inserts)
    (expired : Expired policy (newestTsOf inserts) (bucketStart entry.ts policy.granularityMs)) :
    ∃ ts, IsSigned64 ts ∧
      (keptAfter codec ops valueColumn policy.granularityMs inserts).queryRange ts ts ≠
        ((create policy valueColumn).insertAll codec ops inserts).queryRange ts ts := by
  have tracks : Tracks policy.granularityMs inserts
      (keptAfter codec ops valueColumn policy.granularityMs inserts) :=
    tracks_keptAfter codec ops valueColumn inserts
  obtain ⟨bucket, found⟩ := (tracks.present _).mpr ⟨entry, member, rfl⟩
  obtain ⟨some_, _, own⟩ := stocked_keptAfter codec ops valueColumn inserts regular.few
    regular.times _ bucket found
  obtain ⟨reading, held⟩ := List.exists_mem_of_ne_nil _ some_
  obtain ⟨range, starts⟩ := own reading held
  refine ⟨reading.1, range, ?_⟩
  have start := regular.start_le width member range starts
  obtain ⟨floor, _⟩ := floor_bounds regular.positive reading.1
  have nothing : ((create policy valueColumn).insertAll codec ops inserts).queryRange reading.1
      reading.1 = [] := by
    rw [queryRange, bucketsBetween_eq, List.flatMap_eq_nil_iff]
    intro visited inside
    obtain ⟨stored, between⟩ := List.mem_filter.mp inside
    obtain ⟨above, below⟩ := of_decide_eq_true between
    have visitedFound := (OrdMap.get?_eq_some _ visited.1 visited.2).mpr stored
    obtain ⟨other, otherMember, otherStart⟩ := live_present codec ops policy valueColumn inserts
      visited.1 visited.2 visitedFound
    rw [TimeIndex.start, insertAll_policy, starts, start, ← otherStart,
      regular.bucketStart_eq otherMember] at above
    rw [← otherStart, regular.bucketStart_eq otherMember] at below
    have same := floor_unique regular.positive above below
    rw [← regular.bucketStart_eq otherMember, otherStart, ← start] at same
    rw [same] at visitedFound
    rw [live_expired codec ops policy valueColumn (List.ne_nil_of_mem member) expired visitedFound]
    rfl
  have something : reading.2 ∈ (keptAfter codec ops valueColumn policy.granularityMs
      inserts).queryRange reading.1 reading.1 := by
    rw [queryRange, bucketsBetween_eq, List.mem_flatMap]
    refine ⟨(_, bucket), List.mem_filter.mpr
      ⟨(OrdMap.get?_eq_some _ _ _).mp found, decide_eq_true ?_⟩, ?_⟩
    · rw [tracks.start_eq, starts]
      exact ⟨le_refl _, by rw [start]; exact floor⟩
    · refine List.mem_map.mpr ⟨reading, List.mem_filter.mpr ⟨held, ?_⟩, rfl⟩
      exact decide_eq_true ⟨le_refl _, le_refl _⟩
  intro same
  rw [same, nothing] at something
  cases something

/-- Where nothing ever expires the answers survive a restart; where no arithmetic overflows
they survive in no other case. -/
theorem time_index_replay (codec : Codec TsEntry) (ops : FloatOps) (policy : TimeBucketPolicy)
    (valueColumn : String) (inserts : List TsEntry) (width : IsSigned64 policy.granularityMs)
    (storable : Storable codec policy valueColumn inserts) :
    (NeverExpires policy inserts →
      ReopensAlike codec ops ((create policy valueColumn).insertAll codec ops inserts)) ∧
    (Regular policy inserts →
      (ReopensAlike codec ops ((create policy valueColumn).insertAll codec ops inserts) ↔
        NeverExpires policy inserts)) := by
  obtain ⟨reopened, opened, agrees⟩ := openFile_log codec ops width storable
  have file := insertAll_file codec ops policy valueColumn inserts
  have enough : NeverExpires policy inserts →
      ReopensAlike codec ops ((create policy valueColumn).insertAll codec ops inserts) := by
    intro fresh
    have live := live_agrees codec ops policy valueColumn inserts fresh
    refine ⟨reopened, by rw [file, opened], ?_⟩
    intro t0 t1 _ _
    rw [agrees.queryRange, agrees.queryRollups, live.queryRange, live.queryRollups]
    exact ⟨rfl, rfl⟩
  refine ⟨enough, fun regular => ⟨?_, enough⟩⟩
  rintro ⟨other, otherOpened, alike⟩ before after split entry member expired
  rw [file, opened] at otherOpened
  cases Option.some.inj otherOpened
  obtain ⟨ts, range, differs⟩ := queryRange_expired codec ops valueColumn width regular
    (split ▸ List.mem_append_left _ member) (regular.expired_later split member expired)
  refine differs ?_
  rw [← agrees.queryRange]
  exact (alike ts ts range range).1

end Reopening

def distantRows : List TsEntry := [⟨[1], 5, 0⟩, ⟨[2], 95, 0⟩]

theorem storable_distantRows (policy : TimeBucketPolicy) :
    Storable bincodeEntry policy "value" distantRows where
  column := by decide +kernel
  rows := by
    intro entry member
    rcases List.mem_cons.mp member with rfl | later
    · exact ⟨⟨by decide, by decide⟩, by decide +kernel⟩
    · cases List.mem_singleton.mp later
      exact ⟨⟨by decide, by decide⟩, by decide +kernel⟩

theorem expired_bucket_comes_back :
    ¬ReopensAlike bincodeEntry zeroFloats
      ((create ⟨10, some 20⟩ "value").insertAll bincodeEntry zeroFloats distantRows) := by
  rintro ⟨reopened, opened, alike⟩
  obtain ⟨found, foundOpened, agrees⟩ := @openFile_log bincodeEntry zeroFloats ⟨10, some 20⟩
    "value" distantRows (by decide) (storable_distantRows _)
  rw [insertAll_file, foundOpened] at opened
  cases Option.some.inj opened
  have answer := (alike 0 9 (by decide) (by decide)).1
  rw [agrees.queryRange] at answer
  revert answer
  decide +kernel

theorem distant_rows_survive :
    Regular ⟨10, some 1000⟩ distantRows ∧
      ReopensAlike bincodeEntry zeroFloats
        ((create ⟨10, some 1000⟩ "value").insertAll bincodeEntry zeroFloats distantRows) := by
  have regular : Regular ⟨10, some 1000⟩ distantRows := by
    refine ⟨by decide, by decide, by decide, by decide, ?_⟩
    intro retentionMs given
    cases Option.some.inj given
    decide
  have fresh : ∀ entry ∈ distantRows,
      ¬Expired ⟨10, some 1000⟩ (newestTsOf distantRows) (bucketStart entry.ts 10) := by
    decide
  have replays := time_index_replay bincodeEntry zeroFloats ⟨10, some 1000⟩ "value" distantRows
    (by decide) (storable_distantRows _)
  refine ⟨regular, (replays.2 regular).mpr ?_⟩
  intro before after split entry member expired
  exact fresh entry (split ▸ List.mem_append_left _ member)
    (regular.expired_later split member expired)

end TimeIndex

end Pantheon.Keystone
