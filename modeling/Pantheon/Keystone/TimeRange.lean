import Mathlib
import Pantheon.Keystone.TimeBuckets

/-!
# Ranges of the time index

With no retention a range query is complete when no row arrives late in a bucket
that exists already, no sealed bucket outgrows the count of its series, and no
bucket start leaves the 64-bit integers.  In every other run some range misses a row.
-/

set_option autoImplicit false

namespace Pantheon.Keystone

open Pantheon.Lib

namespace TimeIndex

/-! ## Runs -/

/-- The index after these inserts, as far as its shape goes. -/
structure Tracks (granularityMs : Int) (inserts : List TsEntry) (index : TimeIndex) : Prop where
  policy : index.policy = ⟨granularityMs, none⟩
  newest : index.newestTs = newestTsOf inserts
  present : ∀ start, (∃ bucket, index.buckets.get? start = some bucket) ↔
    ∃ entry ∈ inserts, bucketStart entry.ts granularityMs = start
  opened : ∀ start bucket, index.buckets.get? start = some bucket →
    (bucket.IsOpen ↔ start = bucketStart (newestTsOf inserts) granularityMs)

/-- Nothing of the inserts is lost or out of place. -/
structure Keeps (inserts : List TsEntry) (index : TimeIndex) : Prop where
  all : index.allReadings.Perm (inserts.map TsEntry.reading)
  located : ∀ start bucket, index.buckets.get? start = some bucket →
    ∀ reading ∈ bucket.readings, index.start reading.1 = start

section Runs

variable {granularityMs : Int} {inserts : List TsEntry} {index : TimeIndex}

theorem Tracks.start_eq (tracks : Tracks granularityMs inserts index) (ts : Int) :
    index.start ts = bucketStart ts granularityMs := by
  rw [start, tracks.policy]

theorem insert_eq (codec : Codec TsEntry) (ops : FloatOps) (entry : TsEntry)
    (unlimited : index.policy.retentionMs = none) :
    index.insert codec ops entry =
      { (index.place ops entry).sealNonNewestBuckets with
        file := index.file ++ frame (codec.serialize entry) } := by
  have kept : ∀ other : TimeIndex, other.policy.retentionMs = none →
      other.applyRetention = other := by
    intro other none_
    simp only [applyRetention, none_]
  rw [insert, applyInsert, if_pos rfl, kept]
  · rfl
  · exact unlimited

theorem get?_seal_place (ops : FloatOps) (entry : TsEntry) (start : Int) :
    (index.place ops entry).sealNonNewestBuckets.buckets.get? start =
      (if start = index.start entry.ts then some ((index.bucketFor entry).push ops entry)
        else index.buckets.get? start).map ((index.place ops entry).settled start) := by
  simp only [sealNonNewestBuckets]
  rw [OrdMap.get?_mapValues]
  refine congrArg (Option.map _) ?_
  rw [place, OrdMap.get?_insert]
  rfl

theorem get?_insert (codec : Codec TsEntry) (ops : FloatOps) (entry : TsEntry)
    (unlimited : index.policy.retentionMs = none) (start : Int) :
    (index.insert codec ops entry).buckets.get? start =
      (if start = index.start entry.ts then some ((index.bucketFor entry).push ops entry)
        else index.buckets.get? start).map ((index.place ops entry).settled start) := by
  rw [insert_eq codec ops entry unlimited]
  exact get?_seal_place ops entry start

theorem Tracks.newest_place (tracks : Tracks granularityMs inserts index) (ops : FloatOps)
    (entry : TsEntry) : (index.place ops entry).newestTs = newestTsOf (inserts ++ [entry]) := by
  rw [newestTsOf_snoc, place, tracks.newest]

theorem Tracks.settled_eq (tracks : Tracks granularityMs inserts index) (ops : FloatOps)
    (entry : TsEntry) (start : Int) (bucket : Bucket) :
    (index.place ops entry).settled start bucket =
      if start = bucketStart (newestTsOf (inserts ++ [entry])) granularityMs then bucket
      else bucket.sealSeries := by
  have policy : (index.place ops entry).policy = ⟨granularityMs, none⟩ := tracks.policy
  rw [settled, TimeIndex.start, tracks.newest_place, policy]

theorem Tracks.insert (codec : Codec TsEntry) (ops : FloatOps) (entry : TsEntry)
    (tracks : Tracks granularityMs inserts index) :
    Tracks granularityMs (inserts ++ [entry]) (index.insert codec ops entry) := by
  have unlimited : index.policy.retentionMs = none := by rw [tracks.policy]
  have lookup := get?_insert codec ops entry unlimited
  rw [tracks.start_eq] at lookup
  refine ⟨?_, ?_, ?_, ?_⟩
  · rw [insert_eq codec ops entry unlimited]
    exact tracks.policy
  · rw [insert_eq codec ops entry unlimited]
    exact tracks.newest_place ops entry
  · intro start
    have before := tracks.present start
    rw [lookup]
    split_ifs with same
    · simp only [Option.map_some, Option.some.injEq, exists_eq', true_iff]
      exact ⟨entry, by simp, same.symm⟩
    · simp only [Option.map_eq_some_iff, List.mem_append, List.mem_singleton]
      constructor
      · rintro ⟨_, old, found, _⟩
        obtain ⟨other, member, starts⟩ := before.mp ⟨old, found⟩
        exact ⟨other, Or.inl member, starts⟩
      · rintro ⟨other, member | rfl, starts⟩
        · obtain ⟨old, found⟩ := before.mpr ⟨other, member, starts⟩
          exact ⟨_, old, found, rfl⟩
        · exact (same starts.symm).elim
  · intro start bucket found
    rw [lookup] at found
    obtain ⟨old, oldFound, rfl⟩ := Option.map_eq_some_iff.mp found
    rw [tracks.settled_eq]
    by_cases newest : start = bucketStart (newestTsOf (inserts ++ [entry])) granularityMs
    · rw [if_pos newest, iff_true_right newest]
      split_ifs at oldFound with same
      · cases Option.some.inj oldFound
        exact Bucket.isOpen_push ..
      · refine (tracks.opened start old oldFound).mpr ?_
        -- The newest timestamp has not moved, or its bucket would be the one of the row.
        rw [newestTsOf_snoc] at newest
        split_ifs at newest with newer
        · exact (same newest).elim
        · exact newest
    · rw [if_neg newest, iff_false_right newest]
      exact Bucket.not_isOpen_sealSeries old

theorem Tracks.isOpen_bucketFor (tracks : Tracks granularityMs inserts index) (entry : TsEntry) :
    (index.bucketFor entry).IsOpen ↔
      ((∃ earlier ∈ inserts,
          bucketStart earlier.ts granularityMs = bucketStart entry.ts granularityMs) →
        bucketStart entry.ts granularityMs = bucketStart (newestTsOf inserts) granularityMs) := by
  have present := tracks.present (bucketStart entry.ts granularityMs)
  rw [bucketFor, tracks.start_eq]
  cases found : index.buckets.get? (bucketStart entry.ts granularityMs) with
  | none =>
      refine iff_of_true ⟨[], rfl⟩ fun earlier => ?_
      obtain ⟨bucket, other⟩ := present.mpr earlier
      rw [found] at other
      cases other
  | some bucket =>
      rw [Option.getD_some, tracks.opened _ bucket found]
      exact ⟨fun newest _ => newest, fun timely => timely (present.mp ⟨bucket, found⟩)⟩

theorem Keeps.count (keeps : Keeps inserts index) {start : Int} {bucket : Bucket}
    (found : index.buckets.get? start = some bucket) :
    bucket.readings.length =
      inserts.countP fun entry => decide (index.start entry.ts = start) := by
  have split : index.allReadings.Perm (bucket.readings ++
      (index.buckets.erase start).toList.flatMap fun other => other.2.readings) :=
    (index.buckets.perm_erase_of_get? found).flatMap_right _
  have here : bucket.readings.countP (fun reading => decide (index.start reading.1 = start)) =
      bucket.readings.length := by
    refine List.countP_eq_length.mpr fun reading member => ?_
    exact decide_eq_true (keeps.located start bucket found reading member)
  have elsewhere : ((index.buckets.erase start).toList.flatMap fun other =>
      other.2.readings).countP (fun reading => decide (index.start reading.1 = start)) = 0 := by
    refine List.countP_eq_zero.mpr fun reading member => ?_
    obtain ⟨other, inside, held⟩ := List.mem_flatMap.mp member
    obtain ⟨otherInside, apart⟩ := (OrdMap.mem_erase _ _ _).mp inside
    have place := keeps.located other.1 other.2 ((OrdMap.get?_eq_some _ _ _).mpr otherInside)
      reading held
    intro same
    exact apart (place.symm.trans (of_decide_eq_true same))
  have total := (split.symm.trans keeps.all).countP_eq
    fun reading => decide (index.start reading.1 = start)
  rw [List.countP_append, here, elsewhere, List.countP_map, Nat.add_zero] at total
  exact total

theorem Keeps.present (keeps : Keeps inserts index) {entry : TsEntry} (member : entry ∈ inserts) :
    ∃ bucket, index.buckets.get? (index.start entry.ts) = some bucket := by
  have inside : entry.reading ∈ index.allReadings :=
    keeps.all.mem_iff.mpr (List.mem_map_of_mem member)
  obtain ⟨bucket, stored, held⟩ := List.mem_flatMap.mp inside
  have found := (OrdMap.get?_eq_some index.buckets bucket.1 bucket.2).mpr stored
  have start := keeps.located bucket.1 bucket.2 found entry.reading held
  exact ⟨bucket.2, by rw [← found, ← start]; rfl⟩

theorem Keeps.place (ops : FloatOps) (entry : TsEntry) (keeps : Keeps inserts index)
    (opened : (index.bucketFor entry).IsOpen) :
    Keeps (inserts ++ [entry]) (index.place ops entry) := by
  refine ⟨?_, ?_⟩
  · refine (index.place_perm ops entry opened).trans ?_
    rw [List.map_append, List.map_singleton]
    exact keeps.all.append_right _
  · intro start bucket found reading member
    rw [TimeIndex.place, OrdMap.get?_insert] at found
    split_ifs at found with same
    · cases Option.some.inj found
      rw [show ((index.buckets.get? (index.start entry.ts)).getD Bucket.empty) =
        index.bucketFor entry from rfl, Bucket.readings_push_of_isOpen ops opened] at member
      rcases List.mem_append.mp member with old | new
      · rw [bucketFor] at old
        cases oldFound : index.buckets.get? (index.start entry.ts) with
        | none => rw [oldFound] at old; cases old
        | some bucket =>
            rw [oldFound] at old
            rw [same]
            exact keeps.located _ bucket oldFound reading old
      · cases List.mem_singleton.mp new
        exact same.symm
    · exact keeps.located start bucket found reading member

theorem Keeps.settle (keeps : Keeps inserts index) (times : ∀ entry ∈ inserts, IsSigned64 entry.ts)
    (small : ∀ start, start ≠ index.start index.newestTs →
      inserts.countP (fun entry => decide (index.start entry.ts = start)) < 2 ^ 32) :
    Keeps inserts index.sealNonNewestBuckets := by
  have counts : ∀ start bucket, index.buckets.get? start = some bucket →
      start ≠ index.start index.newestTs → bucket.readings.length < 2 ^ 32 := by
    intro start bucket found older
    rw [keeps.count found]
    exact small start older
  have readingTimes : ∀ reading ∈ index.allReadings, IsSigned64 reading.1 := by
    intro reading member
    obtain ⟨entry, inside, rfl⟩ := List.mem_map.mp (keeps.all.mem_iff.mp member)
    exact times entry inside
  refine ⟨(index.seal_perm counts readingTimes).trans keeps.all, ?_⟩
  intro start bucket found reading member
  rw [sealNonNewestBuckets, OrdMap.get?_mapValues] at found
  obtain ⟨old, oldFound, rfl⟩ := Option.map_eq_some_iff.mp found
  have oldTimes : ∀ reading ∈ old.readings, IsSigned64 reading.1 := fun reading member =>
    readingTimes reading (List.mem_flatMap.mpr
      ⟨(start, old), (OrdMap.get?_eq_some _ _ _).mp oldFound, member⟩)
  have same := index.settled_perm (counts start old oldFound) oldTimes
  exact keeps.located start old oldFound reading (same.mem_iff.mp member)

theorem insert_allReadings (codec : Codec TsEntry) (ops : FloatOps) (entry : TsEntry)
    (unlimited : index.policy.retentionMs = none) :
    (index.insert codec ops entry).allReadings =
      (index.place ops entry).sealNonNewestBuckets.allReadings := by
  rw [insert_eq codec ops entry unlimited]
  rfl

theorem insert_length_le (codec : Codec TsEntry) (ops : FloatOps) (entry : TsEntry)
    (unlimited : index.policy.retentionMs = none) :
    (index.insert codec ops entry).allReadings.length ≤ index.allReadings.length + 1 := by
  rw [insert_allReadings codec ops entry unlimited]
  exact le_trans (seal_length_le _) (index.place_length_le ops entry)

end Runs

end TimeIndex

/-! ## Runs that lose nothing -/

/-- A row that comes in a bucket with rows comes in the newest bucket. -/
def Timely (granularityMs : Int) (inserts : List TsEntry) : Prop :=
  ∀ before entry after, inserts = before ++ entry :: after →
    (∃ earlier ∈ before,
      bucketStart earlier.ts granularityMs = bucketStart entry.ts granularityMs) →
    bucketStart entry.ts granularityMs = bucketStart (newestTsOf before) granularityMs

/-- Every bucket but the newest has a count that fits the header of its series. -/
def Sealable (granularityMs : Int) (inserts : List TsEntry) : Prop :=
  ∀ start, start ≠ bucketStart (newestTsOf inserts) granularityMs →
    inserts.countP (fun entry => decide (bucketStart entry.ts granularityMs = start)) < 2 ^ 32

section Conditions

variable {granularityMs : Int} {inserts : List TsEntry} {entry : TsEntry}

theorem timely_snoc : Timely granularityMs (inserts ++ [entry]) ↔
    Timely granularityMs inserts ∧
      ((∃ earlier ∈ inserts,
          bucketStart earlier.ts granularityMs = bucketStart entry.ts granularityMs) →
        bucketStart entry.ts granularityMs = bucketStart (newestTsOf inserts) granularityMs) := by
  constructor
  · intro timely
    refine ⟨?_, timely inserts entry [] rfl⟩
    intro before other after split
    exact timely before other (after ++ [entry]) (by rw [split]; simp)
  · rintro ⟨timely, last⟩ before other after split
    rcases List.eq_nil_or_concat after with rfl | ⟨rest, final, rfl⟩
    · obtain ⟨rfl, same⟩ := List.append_inj' split rfl
      cases List.cons.inj same |>.1
      exact last
    · rw [List.concat_eq_append, ← List.cons_append, ← List.append_assoc] at split
      obtain ⟨rfl, _⟩ := List.append_inj' split rfl
      exact timely before other rest rfl

theorem timely_nil : Timely granularityMs [] := by
  intro before other after split
  simp at split

theorem sealable_of_snoc (positive : 0 < granularityMs) (width : IsSigned64 granularityMs)
    (times : ∀ other ∈ inserts ++ [entry], IsSigned64 other.ts)
    (sealable : Sealable granularityMs (inserts ++ [entry])) : Sealable granularityMs inserts := by
  intro start older
  by_cases newest : start = bucketStart (newestTsOf (inserts ++ [entry])) granularityMs
  · -- A bucket that becomes the newest only now has no rows yet.
    have absent : inserts.countP
        (fun other => decide (bucketStart other.ts granularityMs = start)) = 0 := by
      refine List.countP_eq_zero.mpr fun other member => ?_
      intro held
      have starts := of_decide_eq_true held
      refine older (starts ▸ ?_)
      have between := bucketStart_between positive width
        (times other (List.mem_append_left _ member)) (newestTsOf_signed _ times)
        (le_newestTsOf member) (newestTsOf_le_snoc inserts entry) (starts.trans newest)
      rw [between, starts, newest]
    omega
  · have total := sealable start newest
    rw [List.countP_append] at total
    omega

end Conditions

namespace TimeIndex

section Losses

variable {granularityMs : Int} {inserts : List TsEntry} {index : TimeIndex}
  (codec : Codec TsEntry) (ops : FloatOps) (entry : TsEntry)

theorem Keeps.insert (tracks : Tracks granularityMs inserts index) (keeps : Keeps inserts index)
    (times : ∀ other ∈ inserts ++ [entry], IsSigned64 other.ts)
    (opened : (index.bucketFor entry).IsOpen)
    (sealable : Sealable granularityMs (inserts ++ [entry])) :
    Keeps (inserts ++ [entry]) (index.insert codec ops entry) := by
  have unlimited : index.policy.retentionMs = none := by rw [tracks.policy]
  have starts : ∀ ts, (index.place ops entry).start ts = bucketStart ts granularityMs :=
    tracks.start_eq
  have settled := (keeps.place ops entry opened).settle times (by
    intro start older
    rw [starts, tracks.newest_place] at older
    simp only [starts]
    exact sealable start older)
  rw [insert_eq codec ops entry unlimited]
  exact ⟨settled.all, settled.located⟩

theorem Keeps.insert_loses (tracks : Tracks granularityMs inserts index)
    (keeps : Keeps inserts index)
    (bad : (index.bucketFor entry).IsOpen → ¬Sealable granularityMs (inserts ++ [entry])) :
    (index.insert codec ops entry).allReadings.length < (inserts ++ [entry]).length := by
  have unlimited : index.policy.retentionMs = none := by rw [tracks.policy]
  have total : index.allReadings.length = inserts.length := by
    rw [keeps.all.length_eq, List.length_map]
  rw [insert_allReadings codec ops entry unlimited, List.length_append, List.length_singleton]
  by_cases opened : (index.bucketFor entry).IsOpen
  · have placed := keeps.place ops entry opened
    have starts : ∀ ts, (index.place ops entry).start ts = bucketStart ts granularityMs :=
      tracks.start_eq
    obtain ⟨start, older, large⟩ : ∃ start,
        start ≠ bucketStart (newestTsOf (inserts ++ [entry])) granularityMs ∧
          2 ^ 32 ≤ (inserts ++ [entry]).countP
            (fun other => decide (bucketStart other.ts granularityMs = start)) := by
      simpa [Sealable] using bad opened
    obtain ⟨other, member, held⟩ := List.countP_pos_iff.mp (lt_of_lt_of_le (by decide) large)
    obtain ⟨bucket, found⟩ := placed.present member
    rw [starts, of_decide_eq_true held] at found
    have count := placed.count found
    simp only [starts] at count
    have less := (index.place ops entry).seal_length_lt found
      (by rw [starts, tracks.newest_place]; exact older) (by omega)
    have most := index.place_length_le ops entry
    omega
  · have late := mt (tracks.isOpen_bucketFor entry).mpr opened
    obtain ⟨⟨earlier, member, same⟩, _⟩ := Classical.not_imp.mp late
    obtain ⟨bucket, found⟩ := keeps.present member
    have count := keeps.count found
    have some_ : 0 < inserts.countP
        fun other => decide (index.start other.ts = index.start earlier.ts) :=
      List.countP_pos_iff.mpr ⟨earlier, member, by simp⟩
    have placed := index.place_length_of_closed ops entry opened
    rw [tracks.start_eq, same, ← tracks.start_eq] at found
    rw [bucketFor, found, Option.getD_some] at placed
    have less := (index.place ops entry).seal_length_le
    omega

end Losses

section Whole

variable (codec : Codec TsEntry) (ops : FloatOps) (valueColumn : String) {granularityMs : Int}

theorem insertAll_snoc (index : TimeIndex) (inserts : List TsEntry) (entry : TsEntry) :
    index.insertAll codec ops (inserts ++ [entry]) =
      (index.insertAll codec ops inserts).insert codec ops entry := by
  rw [insertAll, List.foldl_append]
  rfl

def keptAfter (granularityMs : Int) (inserts : List TsEntry) : TimeIndex :=
  (create ⟨granularityMs, none⟩ valueColumn).insertAll codec ops inserts

theorem tracks_keptAfter : ∀ inserts : List TsEntry,
    Tracks granularityMs inserts (keptAfter codec ops valueColumn granularityMs inserts) := by
  intro inserts
  induction inserts using List.reverseRecOn with
  | nil =>
      refine ⟨rfl, rfl, ?_, ?_⟩
      · intro start
        simp [keptAfter, insertAll, create, OrdMap.get?]
      · intro start bucket found
        cases found
  | append_singleton inserts entry ih =>
      rw [keptAfter, insertAll_snoc]
      exact ih.insert codec ops entry

theorem keeps_keptAfter (positive : 0 < granularityMs) (width : IsSigned64 granularityMs) :
    ∀ inserts : List TsEntry, (∀ entry ∈ inserts, IsSigned64 entry.ts) →
      Timely granularityMs inserts → Sealable granularityMs inserts →
      Keeps inserts (keptAfter codec ops valueColumn granularityMs inserts) := by
  intro inserts
  induction inserts using List.reverseRecOn with
  | nil =>
      intro _ _ _
      exact ⟨List.Perm.refl _, by intro start bucket found; cases found⟩
  | append_singleton inserts entry ih =>
      intro times timely sealable
      obtain ⟨before, last⟩ := timely_snoc.mp timely
      have tracks : Tracks granularityMs inserts
          (keptAfter codec ops valueColumn granularityMs inserts) :=
        tracks_keptAfter codec ops valueColumn inserts
      have keeps := ih (fun other member => times other (List.mem_append_left _ member)) before
        (sealable_of_snoc positive width times sealable)
      rw [keptAfter, insertAll_snoc]
      exact keeps.insert codec ops entry tracks times ((tracks.isOpen_bucketFor entry).mpr last)
        sealable

theorem length_keptAfter (positive : 0 < granularityMs) (width : IsSigned64 granularityMs) :
    ∀ inserts : List TsEntry, (∀ entry ∈ inserts, IsSigned64 entry.ts) →
      ¬(Timely granularityMs inserts ∧ Sealable granularityMs inserts) →
      (keptAfter codec ops valueColumn granularityMs inserts).allReadings.length <
        inserts.length := by
  intro inserts
  induction inserts using List.reverseRecOn with
  | nil =>
      intro _ bad
      refine (bad ⟨timely_nil, ?_⟩).elim
      intro start _
      simp
  | append_singleton inserts entry ih =>
      intro times bad
      have earlierTimes : ∀ other ∈ inserts, IsSigned64 other.ts := fun other member =>
        times other (List.mem_append_left _ member)
      have tracks : Tracks granularityMs inserts
          (keptAfter codec ops valueColumn granularityMs inserts) :=
        tracks_keptAfter codec ops valueColumn inserts
      rw [keptAfter, insertAll_snoc]
      by_cases good : Timely granularityMs inserts ∧ Sealable granularityMs inserts
      · refine Keeps.insert_loses codec ops entry tracks
          (keeps_keptAfter codec ops valueColumn positive width inserts earlierTimes good.1 good.2) ?_
        intro opened sealable
        exact bad ⟨timely_snoc.mpr ⟨good.1, (tracks.isOpen_bucketFor entry).mp opened⟩, sealable⟩
      · have fewer := ih earlierTimes good
        have most : ((keptAfter codec ops valueColumn granularityMs inserts).insert codec ops
            entry).allReadings.length ≤
              (keptAfter codec ops valueColumn granularityMs inserts).allReadings.length + 1 :=
          insert_length_le codec ops entry (by rw [tracks.policy])
        rw [List.length_append, List.length_singleton]
        exact lt_of_le_of_lt most (Nat.succ_lt_succ fewer)

end Whole

/-! ## Queries -/

theorem takeWhile_sorted {Value : Type} (bound : Int) : ∀ entries : List (Int × Value),
    entries.Pairwise (fun left right => left.1 < right.1) →
    entries.takeWhile (fun entry => decide (entry.1 ≤ bound)) =
      entries.filter fun entry => decide (entry.1 ≤ bound) := by
  intro entries
  induction entries with
  | nil => intro _; rfl
  | cons entry entries ih =>
      intro sorted
      obtain ⟨first, rest⟩ := List.pairwise_cons.mp sorted
      by_cases low : entry.1 ≤ bound
      · rw [List.takeWhile_cons_of_pos (by simpa using low), ih rest,
          List.filter_cons_of_pos (by simpa using low)]
      · rw [List.takeWhile_cons_of_neg (by simpa using low),
          List.filter_cons_of_neg (by simpa using low)]
        refine (List.filter_eq_nil_iff.mpr ?_).symm
        intro other member
        have above := first other member
        simp only [decide_eq_true_eq]
        omega

section Queries

variable {index : TimeIndex} {inserts : List TsEntry}

theorem bucketsBetween_eq (t0 t1 : Int) :
    index.bucketsBetween t0 t1 = index.buckets.toList.filter fun bucket =>
      decide (index.start t0 ≤ bucket.1 ∧ bucket.1 ≤ t1) := by
  rw [bucketsBetween, takeWhile_sorted t1 _ (index.buckets.sorted.filter _), List.filter_filter]
  refine List.filter_congr fun bucket _ => ?_
  rw [Bool.and_comm, Bool.decide_and]

def Visits (index : TimeIndex) (t0 t1 ts : Int) : Prop :=
  (index.start t0 ≤ index.start ts ∧ index.start ts ≤ t1) ∧ t0 ≤ ts ∧ ts ≤ t1

instance (index : TimeIndex) (t0 t1 ts : Int) : Decidable (index.Visits t0 t1 ts) :=
  inferInstanceAs (Decidable (_ ∧ _))

theorem filter_flatMap_eq {Item Value : Type} (keep : Item → Bool) (read other : Item → List Value) :
    ∀ items : List Item, (∀ item ∈ items, other item = if keep item then read item else []) →
      (items.filter keep).flatMap read = items.flatMap other := by
  intro items
  induction items with
  | nil => intro _; rfl
  | cons item items ih =>
      intro same
      have first := same item (List.mem_cons_self ..)
      have rest := ih fun later member => same later (List.mem_cons_of_mem _ member)
      cases kept : keep item with
      | true =>
          rw [kept, if_pos rfl] at first
          rw [List.filter_cons_of_pos kept, List.flatMap_cons, List.flatMap_cons, rest, first]
      | false =>
          rw [kept, if_neg (by decide)] at first
          rw [List.filter_cons_of_neg (by simp [kept]), List.flatMap_cons, rest, first,
            List.nil_append]

theorem queryRange_eq
    (located : ∀ start bucket, index.buckets.get? start = some bucket →
      ∀ reading ∈ bucket.readings, index.start reading.1 = start) (t0 t1 : Int) :
    index.queryRange t0 t1 =
      (index.allReadings.filter fun reading => decide (index.Visits t0 t1 reading.1)).map
        Prod.snd := by
  rw [queryRange, bucketsBetween_eq, allReadings, List.filter_flatMap, List.map_flatMap]
  refine filter_flatMap_eq _ _ _ _ fun bucket member => ?_
  have found := (OrdMap.get?_eq_some index.buckets bucket.1 bucket.2).mpr member
  split_ifs with visited
  · refine congrArg (List.map Prod.snd) (List.filter_congr fun reading inside => ?_)
    have visited := of_decide_eq_true visited
    rw [← located _ _ found reading inside] at visited
    exact decide_eq_decide.mpr ⟨fun visits => visits.2, fun range => ⟨visited, range⟩⟩
  · rw [List.map_eq_nil_iff, List.filter_eq_nil_iff]
    intro reading inside visits
    have visits := (of_decide_eq_true visits).1
    rw [located _ _ found reading inside] at visits
    exact visited (decide_eq_true visits)

theorem queryRange_length_le (t0 t1 : Int) :
    (index.queryRange t0 t1).length ≤ index.allReadings.length := by
  rw [queryRange, bucketsBetween_eq, filter_flatMap_eq _ _ _ _ fun bucket _ => rfl, allReadings,
    List.length_flatMap, List.length_flatMap]
  refine List.sum_le_sum fun bucket _ => ?_
  split_ifs
  · rw [List.length_map]
    exact List.length_filter_le _ _
  · exact Nat.zero_le _

theorem Keeps.queryRange (keeps : Keeps inserts index) (t0 t1 : Int) :
    (index.queryRange t0 t1).Perm
      ((inserts.filter fun entry => decide (index.Visits t0 t1 entry.ts)).map TsEntry.rowKey) := by
  rw [queryRange_eq keeps.located]
  refine ((keeps.all.filter _).map _).trans (List.Perm.of_eq ?_)
  rw [List.filter_map, List.map_map]
  rfl

theorem Keeps.visits_of_complete (keeps : Keeps inserts index) {t0 t1 : Int}
    (complete : (index.queryRange t0 t1).Perm
      ((inserts.filter fun entry => decide (t0 ≤ entry.ts ∧ entry.ts ≤ t1)).map TsEntry.rowKey))
    {entry : TsEntry} (member : entry ∈ inserts) (range : t0 ≤ entry.ts ∧ entry.ts ≤ t1) :
    index.Visits t0 t1 entry.ts := by
  have visitsRange : inserts.filter (fun entry => decide (index.Visits t0 t1 entry.ts)) =
      (inserts.filter fun entry => decide (t0 ≤ entry.ts ∧ entry.ts ≤ t1)).filter
        fun entry => decide (index.Visits t0 t1 entry.ts) := by
    rw [List.filter_filter]
    refine List.filter_congr fun other _ => ?_
    rw [← Bool.decide_and]
    exact decide_eq_decide.mpr ⟨fun visits => ⟨visits, visits.2⟩, fun both => both.1⟩
  have lengths := ((keeps.queryRange t0 t1).symm.trans complete).length_eq
  rw [List.length_map, List.length_map, visitsRange, List.length_filter_eq_length_iff] at lengths
  exact of_decide_eq_true (lengths entry (List.mem_filter.mpr ⟨member, decide_eq_true range⟩))

end Queries

end TimeIndex

/-- No bucket start of the inserts wraps around, and a query from the least timestamp,
whose own start may have wrapped around, still begins at or before each of them. -/
def InReach (granularityMs : Int) (inserts : List TsEntry) : Prop :=
  ∀ entry ∈ inserts, bucketStart (-2 ^ 63) granularityMs ≤ bucketStart entry.ts granularityMs ∧
    bucketStart entry.ts granularityMs ≤ entry.ts

theorem bucketStart_le_of_inReach {granularityMs : Int} (positive : 0 < granularityMs)
    (width : IsSigned64 granularityMs) {inserts : List TsEntry}
    (inReach : InReach granularityMs inserts) {entry : TsEntry} (member : entry ∈ inserts)
    (entryRange : IsSigned64 entry.ts) {t0 : Int} (range : IsSigned64 t0)
    (after : t0 ≤ entry.ts) :
    bucketStart t0 granularityMs ≤ bucketStart entry.ts granularityMs := by
  obtain ⟨least, whole⟩ := inReach entry member
  by_cases inside : bucketStart t0 granularityMs ≤ t0
  · rw [bucketStart_eq_floor positive width range inside,
      bucketStart_eq_floor positive width entryRange whole]
    exact mul_le_mul_of_nonneg_right (Int.ediv_le_ediv positive after) (le_of_lt positive)
  · rw [bucketStart_wrapped positive range (not_le.mp inside)]
    exact least

/-- Every range query is complete exactly when no row comes late in a bucket with rows,
no sealed bucket outgrows its count, and no bucket start is out of reach. -/
theorem queryRange_complete_iff (codec : Codec TsEntry) (ops : FloatOps) (valueColumn : String)
    (granularityMs : Int) (positive : 0 < granularityMs) (width : IsSigned64 granularityMs)
    (inserts : List TsEntry) (times : ∀ entry ∈ inserts, IsSigned64 entry.ts) :
    (∀ t0 t1, IsSigned64 t0 → IsSigned64 t1 →
      (((TimeIndex.create ⟨granularityMs, none⟩ valueColumn).insertAll codec ops
        inserts).queryRange t0 t1).Perm
        ((inserts.filter fun entry => decide (t0 ≤ entry.ts ∧ entry.ts ≤ t1)).map
          TsEntry.rowKey)) ↔
      Timely granularityMs inserts ∧ Sealable granularityMs inserts ∧
        InReach granularityMs inserts := by
  have tracks : TimeIndex.Tracks granularityMs inserts
      (TimeIndex.keptAfter codec ops valueColumn granularityMs inserts) :=
    TimeIndex.tracks_keptAfter codec ops valueColumn inserts
  have least : IsSigned64 (-2 ^ 63) := by decide
  have greatest : IsSigned64 (2 ^ 63 - 1) := by decide
  constructor
  · intro complete
    have everything : ∀ entry ∈ inserts, -2 ^ 63 ≤ entry.ts ∧ entry.ts ≤ 2 ^ 63 - 1 := by
      intro entry member
      obtain ⟨lower, upper⟩ := times entry member
      exact ⟨lower, by omega⟩
    have good : Timely granularityMs inserts ∧ Sealable granularityMs inserts := by
      by_contra bad
      have fewer := TimeIndex.length_keptAfter codec ops valueColumn positive width inserts times bad
      have most := @TimeIndex.queryRange_length_le
        (TimeIndex.keptAfter codec ops valueColumn granularityMs inserts) (-2 ^ 63) (2 ^ 63 - 1)
      have all := (complete _ _ least greatest).length_eq
      rw [List.length_map, List.filter_eq_self.mpr fun entry member =>
        decide_eq_true (everything entry member)] at all
      exact absurd (all ▸ most) (not_le.mpr fewer)
    have keeps := TimeIndex.keeps_keptAfter codec ops valueColumn positive width inserts times
      good.1 good.2
    refine ⟨good.1, good.2, ?_⟩
    intro entry member
    have whole := keeps.visits_of_complete (complete _ _ least greatest) member
      (everything entry member)
    have single := keeps.visits_of_complete
      (complete _ _ (times entry member) (times entry member)) member ⟨le_refl _, le_refl _⟩
    simp only [TimeIndex.Visits, tracks.start_eq] at whole single
    exact ⟨whole.1.1, single.1.2⟩
  · rintro ⟨timely, sealable, inReach⟩ t0 t1 range _
    have keeps := TimeIndex.keeps_keptAfter codec ops valueColumn positive width inserts times
      timely sealable
    refine (keeps.queryRange t0 t1).trans (List.Perm.of_eq ?_)
    refine congrArg (List.map TsEntry.rowKey) (List.filter_congr fun entry member => ?_)
    refine decide_eq_decide.mpr ⟨fun visits => visits.2, fun inside => ⟨?_, inside⟩⟩
    rw [tracks.start_eq, tracks.start_eq]
    exact ⟨bucketStart_le_of_inReach positive width inReach member (times entry member) range
      inside.1, le_trans (inReach entry member).2 inside.2⟩

/-- A row that comes after its bucket of ten milliseconds has been sealed. -/
def lateRow : List TsEntry := [⟨[1], 5, 0⟩, ⟨[2], 15, 0⟩, ⟨[3], 6, 0⟩]

theorem late_row_displaces_bucket :
    ¬∀ t0 t1, IsSigned64 t0 → IsSigned64 t1 →
      (((TimeIndex.create ⟨10, none⟩ "value").insertAll bincodeEntry zeroFloats
        lateRow).queryRange t0 t1).Perm
        ((lateRow.filter fun entry => decide (t0 ≤ entry.ts ∧ entry.ts ≤ t1)).map
          TsEntry.rowKey) := by
  intro complete
  have answer := (complete 0 9 (by decide) (by decide)).length_eq
  revert answer
  decide +kernel

/-- Two rows of a bucket, the second out of order, and two of the next. -/
def timelyRows : List TsEntry := [⟨[1], 15, 0⟩, ⟨[2], 5, 0⟩, ⟨[3], 16, 0⟩, ⟨[4], 20, 0⟩]

theorem queryRange_timely_rows :
    (((TimeIndex.create ⟨16, none⟩ "value").insertAll bincodeEntry zeroFloats
      timelyRows).queryRange 5 16).Perm
      ((timelyRows.filter fun entry => decide (5 ≤ entry.ts ∧ entry.ts ≤ 16)).map
        TsEntry.rowKey) := by
  have timely : Timely 16 ([] ++ [⟨[1], 15, 0⟩] ++ [⟨[2], 5, 0⟩] ++ [⟨[3], 16, 0⟩] ++
      [⟨[4], 20, 0⟩]) := by
    refine timely_snoc.mpr ⟨timely_snoc.mpr ⟨timely_snoc.mpr ⟨timely_snoc.mpr
      ⟨timely_nil, ?_⟩, ?_⟩, ?_⟩, ?_⟩
    · decide
    · decide
    · decide
    · decide
  have sealable : Sealable 16 timelyRows := by
    intro start _
    have most := List.countP_le_length (l := timelyRows)
      (p := fun entry => decide (bucketStart entry.ts 16 = start))
    have four : timelyRows.length = 4 := rfl
    omega
  exact (queryRange_complete_iff bincodeEntry zeroFloats "value" 16 (by decide) (by decide)
    timelyRows (by decide)).mpr ⟨timely, sealable, by unfold InReach; decide⟩ 5 16 (by decide)
    (by decide)

end Pantheon.Keystone
