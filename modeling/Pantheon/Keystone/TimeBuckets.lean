import Mathlib
import Pantheon.Keystone.TimeIndex

/-!
# Buckets of the time index

A bucket start names its bucket also where it wraps around.  Sealing keeps the
readings of a bucket as long as their number fits the header of the series; a row
put into a sealed bucket takes the place of the rows there.
-/

set_option autoImplicit false

namespace Pantheon.Keystone

open Pantheon.Lib

/-! ## Bucket starts -/

section Starts

variable {granularityMs : Int}

theorem floor_bounds (positive : 0 < granularityMs) (ts : Int) :
    ts / granularityMs * granularityMs ≤ ts ∧
      ts < ts / granularityMs * granularityMs + granularityMs := by
  have split := Int.mul_ediv_add_emod ts granularityMs
  have lower := Int.emod_nonneg ts (ne_of_gt positive)
  have upper := Int.emod_lt_of_pos ts positive
  have swap := mul_comm granularityMs (ts / granularityMs)
  constructor
  · omega
  · omega

theorem dvd_half (positive : 0 < granularityMs) (small : granularityMs < 2 ^ 63)
    (divides : granularityMs ∣ 2 ^ 64) : granularityMs ∣ 2 ^ 63 := by
  obtain ⟨width, rfl⟩ := Int.eq_ofNat_of_zero_le (le_of_lt positive)
  have divided : width ∣ 2 ^ 64 := by exact_mod_cast divides
  obtain ⟨power, bound, rfl⟩ := (Nat.dvd_prime_pow Nat.prime_two).mp divided
  have less : power < 63 := by
    have below : (2 : Nat) ^ power < 2 ^ 63 := by exact_mod_cast small
    exact (Nat.pow_lt_pow_iff_right (by omega)).mp below
  exact_mod_cast pow_dvd_pow 2 (le_of_lt less)

theorem floor_not_wrapped (positive : 0 < granularityMs) (small : granularityMs < 2 ^ 63)
    {left right : Int} (leftDivides : granularityMs ∣ left) (rightDivides : granularityMs ∣ right)
    (apart : left = right + 2 ^ 64) (low : right < -2 ^ 63)
    (near : -2 ^ 63 < right + granularityMs) : False := by
  have total : granularityMs ∣ 2 ^ 64 := by
    have difference := Int.dvd_sub leftDivides rightDivides
    rwa [apart, add_sub_cancel_left] at difference
  have half := dvd_half positive small total
  obtain ⟨quotient, shifted⟩ := Int.dvd_add rightDivides half
  have negative : granularityMs * quotient < 0 := by omega
  have above : -granularityMs < granularityMs * quotient := by omega
  have quotientNegative : quotient < 0 := by
    by_contra nonneg
    have := mul_nonneg (le_of_lt positive) (not_lt.mp nonneg)
    omega
  have bound : granularityMs * quotient ≤ granularityMs * (-1) :=
    mul_le_mul_of_nonneg_left (by omega) (le_of_lt positive)
  omega

theorem bucketStart_eq_iff (positive : 0 < granularityMs) (width : IsSigned64 granularityMs)
    {left right : Int} (leftRange : IsSigned64 left) (rightRange : IsSigned64 right) :
    bucketStart left granularityMs = bucketStart right granularityMs ↔
      left / granularityMs = right / granularityMs := by
  obtain ⟨_, small⟩ := width
  obtain ⟨leftLower, leftUpper⟩ := leftRange
  obtain ⟨rightLower, rightUpper⟩ := rightRange
  constructor
  · intro same
    obtain ⟨leftFloor, leftNext⟩ := floor_bounds positive left
    obtain ⟨rightFloor, rightNext⟩ := floor_bounds positive right
    have leftDivides : granularityMs ∣ left / granularityMs * granularityMs := Dvd.intro_left _ rfl
    have rightDivides : granularityMs ∣ right / granularityMs * granularityMs :=
      Dvd.intro_left _ rfl
    have congruent : left / granularityMs * granularityMs = right / granularityMs * granularityMs ∨
        left / granularityMs * granularityMs = right / granularityMs * granularityMs + 2 ^ 64 ∨
        right / granularityMs * granularityMs = left / granularityMs * granularityMs + 2 ^ 64 := by
      unfold bucketStart wrapSigned64 at same
      omega
    rcases congruent with same | above | below
    · exact mul_right_cancel₀ (ne_of_gt positive) same
    · exact (floor_not_wrapped positive small leftDivides rightDivides above
        (by omega) (by omega)).elim
    · exact (floor_not_wrapped positive small rightDivides leftDivides below
        (by omega) (by omega)).elim
  · intro same
    rw [bucketStart, bucketStart, same]

theorem bucketStart_between (positive : 0 < granularityMs) (width : IsSigned64 granularityMs)
    {low middle high : Int} (lowRange : IsSigned64 low) (highRange : IsSigned64 high)
    (above : low ≤ middle) (below : middle ≤ high)
    (same : bucketStart low granularityMs = bucketStart high granularityMs) :
    bucketStart middle granularityMs = bucketStart high granularityMs := by
  have quotients := (bucketStart_eq_iff positive width lowRange highRange).mp same
  have lower := Int.ediv_le_ediv positive above
  have upper := Int.ediv_le_ediv positive below
  have middleQuotient : middle / granularityMs = high / granularityMs := by omega
  rw [bucketStart, bucketStart, middleQuotient]

theorem bucketStart_eq_floor (positive : 0 < granularityMs) (width : IsSigned64 granularityMs)
    {ts : Int} (range : IsSigned64 ts) (start : bucketStart ts granularityMs ≤ ts) :
    bucketStart ts granularityMs = ts / granularityMs * granularityMs := by
  obtain ⟨floor, next⟩ := floor_bounds positive ts
  obtain ⟨_, small⟩ := width
  obtain ⟨lower, upper⟩ := range
  unfold bucketStart wrapSigned64 at *
  omega

theorem bucketStart_wrapped (positive : 0 < granularityMs) {ts : Int} (range : IsSigned64 ts)
    (start : ts < bucketStart ts granularityMs) :
    bucketStart ts granularityMs = bucketStart (-2 ^ 63) granularityMs := by
  obtain ⟨floor, next⟩ := floor_bounds positive ts
  obtain ⟨lower, upper⟩ := range
  have below : ts / granularityMs * granularityMs < -2 ^ 63 := by
    by_contra inside
    have whole : wrapSigned64 (ts / granularityMs * granularityMs) =
        ts / granularityMs * granularityMs := wrapSigned64_of_isSigned64 ⟨by omega, by omega⟩
    rw [bucketStart, whole] at start
    omega
  have quotient : -2 ^ 63 / granularityMs = ts / granularityMs := by
    have lower := Int.ediv_le_ediv positive lower
    have upper : ts / granularityMs ≤ -2 ^ 63 / granularityMs :=
      (Int.le_ediv_iff_mul_le positive).mpr (le_of_lt below)
    omega
  rw [bucketStart, bucketStart, quotient]

end Starts

/-! ## The newest timestamp -/

/-- The timestamp that the index calls the newest after these inserts. -/
def newestTsOf (inserts : List TsEntry) : Int :=
  inserts.foldl (fun newest entry => if newest < entry.ts then entry.ts else newest) (-2 ^ 63)

theorem newestTsOf_snoc (inserts : List TsEntry) (entry : TsEntry) :
    newestTsOf (inserts ++ [entry]) =
      if newestTsOf inserts < entry.ts then entry.ts else newestTsOf inserts := by
  rw [newestTsOf, List.foldl_append]
  rfl

theorem newestTsOf_le_snoc (inserts : List TsEntry) (entry : TsEntry) :
    newestTsOf inserts ≤ newestTsOf (inserts ++ [entry]) := by
  rw [newestTsOf_snoc]
  split_ifs with newer
  · exact le_of_lt newer
  · exact le_refl _

theorem newestTsOf_le_append (inserts : List TsEntry) : ∀ more : List TsEntry,
    newestTsOf inserts ≤ newestTsOf (inserts ++ more) := by
  intro more
  induction more using List.reverseRecOn with
  | nil => rw [List.append_nil]
  | append_singleton more entry ih =>
      rw [← List.append_assoc]
      exact le_trans ih (newestTsOf_le_snoc _ _)

theorem le_newestTsOf {inserts : List TsEntry} {entry : TsEntry} (member : entry ∈ inserts) :
    entry.ts ≤ newestTsOf inserts := by
  obtain ⟨before, after, rfl⟩ := List.append_of_mem member
  have here : entry.ts ≤ newestTsOf (before ++ [entry]) := by
    rw [newestTsOf_snoc]
    split_ifs with newer
    · exact le_refl _
    · exact not_lt.mp newer
  have later := newestTsOf_le_append (before ++ [entry]) after
  rw [List.append_assoc, List.singleton_append] at later
  exact le_trans here later

theorem newestTsOf_signed : ∀ inserts : List TsEntry, (∀ entry ∈ inserts, IsSigned64 entry.ts) →
    IsSigned64 (newestTsOf inserts) := by
  intro inserts
  induction inserts using List.reverseRecOn with
  | nil => intro _; exact ⟨by decide, by decide⟩
  | append_singleton inserts entry ih =>
      intro times
      rw [newestTsOf_snoc]
      split_ifs with newer
      · exact times entry (by simp)
      · exact ih fun other member => times other (List.mem_append_left _ member)

/-! ## What sealing keeps -/

namespace Compress

theorem gorillaLoop_length : ∀ (count : Nat) (bits : List Bool) (prev leading trailing : Nat),
    (gorillaLoop count bits prev leading trailing).length ≤ count := by
  intro count bits prev leading trailing
  fun_induction gorillaLoop count bits prev leading trailing with
  | case1 => exact le_refl _
  | case2 => exact Nat.zero_le _
  | case3 prev leading trailing count bits ih => exact Nat.succ_le_succ ih
  | case4 => exact Nat.zero_le _
  | case5 => exact Nat.succ_le_succ (by assumption)
  | case6 => exact Nat.succ_le_succ (by assumption)

theorem gorillaDecode_length (data : Bytes) : (gorillaDecode data).length < 2 ^ 32 := by
  have small : ofBe (data.take 4) < 2 ^ 32 := by
    have bound := ofBe_lt (data.take 4)
    have width : 256 ^ (data.take 4).length ≤ 256 ^ 4 :=
      Nat.pow_le_pow_right (by omega) (List.length_take_le 4 data)
    omega
  unfold gorillaDecode
  split_ifs
  · simp
  · generalize ofBe (data.take 4) = count at small
    cases count with
    | zero => simp
    | succ count =>
        have rest := gorillaLoop_length count (readBits 64 (bitsOf (data.drop 5))).2
          ((readBits 64 (bitsOf (data.drop 5))).1.getD 0) 65 0
        simp only [List.length_cons]
        omega

end Compress

def TsEntry.reading (entry : TsEntry) : Int × Bytes := (entry.ts, entry.rowKey)

theorem decompress_length_lt (series : CompressedSeries) :
    (decompress series).length < 2 ^ 32 := by
  have values := Compress.gorillaDecode_length series.values
  simp only [decompress, List.length_zip]
  omega

theorem decompress_compressSeries_length (entries : List TsEntry) :
    (decompress (compressSeries entries)).length ≤ entries.length := by
  simp only [decompress, compressSeries, List.length_zip, List.length_map,
    List.length_insertionSort]
  omega

theorem decompress_compressSeries {entries : List TsEntry} (count : entries.length < 2 ^ 32)
    (times : ∀ entry ∈ entries, IsSigned64 entry.ts) :
    ((decompress (compressSeries entries)).map fun entry => (entry.1.1, entry.2)).Perm
      (entries.map TsEntry.reading) := by
  have sorted := List.perm_insertionSort (fun left right : TsEntry => left.ts ≤ right.ts) entries
  have timesDecoded := @Compress.deltaDeltaDecode_deltaDeltaEncode
    ((entries.insertionSort fun left right => left.ts ≤ right.ts).map TsEntry.ts)
    (by rw [List.length_map, sorted.length_eq]; omega)
    (by
      intro ts member
      obtain ⟨entry, inside, rfl⟩ := List.mem_map.mp member
      exact times entry (sorted.mem_iff.mp inside))
  have valuesDecoded := @Compress.gorillaDecode_gorillaEncode
    ((entries.insertionSort fun left right => left.ts ≤ right.ts).map
      fun entry => entry.value.toNat)
    (by rw [List.length_map, sorted.length_eq]; exact count)
    (by
      intro value member
      obtain ⟨entry, _, rfl⟩ := List.mem_map.mp member
      exact entry.value.toNat_lt)
  rw [decompress, compressSeries]
  simp only [timesDecoded, valuesDecoded]
  refine List.Perm.trans (List.Perm.of_eq ?_) (sorted.map TsEntry.reading)
  rw [List.zip_map', List.zip_map', List.map_map]
  rfl

namespace Bucket

theorem readings_empty : empty.readings = [] := rfl

def IsOpen (bucket : Bucket) : Prop := ∃ entries, bucket.state = .opened entries

theorem readings_push_of_isOpen (ops : FloatOps) {bucket : Bucket} (opened : bucket.IsOpen)
    (entry : TsEntry) : (bucket.push ops entry).readings = bucket.readings ++ [entry.reading] := by
  obtain ⟨entries, state⟩ := opened
  simp only [readings, push, state, List.map_append, List.map_singleton]
  rfl

theorem readings_push_of_not_isOpen (ops : FloatOps) {bucket : Bucket} (closed : ¬bucket.IsOpen)
    (entry : TsEntry) : (bucket.push ops entry).readings = [entry.reading] := by
  cases state : bucket.state with
  | opened entries => exact (closed ⟨entries, state⟩).elim
  | sealed series => simp only [readings, push, state]; rfl
  | downsampled => simp only [readings, push, state]; rfl

theorem isOpen_push (ops : FloatOps) (bucket : Bucket) (entry : TsEntry) :
    (bucket.push ops entry).IsOpen := by
  cases state : bucket.state with
  | opened entries => exact ⟨entries ++ [entry], by simp only [push, state]⟩
  | sealed series => exact ⟨[entry], by simp only [push, state]⟩
  | downsampled => exact ⟨[entry], by simp only [push, state]⟩

theorem not_isOpen_sealSeries (bucket : Bucket) : ¬bucket.sealSeries.IsOpen := by
  rintro ⟨entries, state⟩
  cases old : bucket.state with
  | opened entries => simp [sealSeries, old] at state
  | sealed series => simp [sealSeries, old] at state
  | downsampled => simp [sealSeries, old] at state

theorem readings_length_of_not_isOpen {bucket : Bucket} (closed : ¬bucket.IsOpen) :
    bucket.readings.length < 2 ^ 32 := by
  cases state : bucket.state with
  | opened entries => exact (closed ⟨entries, state⟩).elim
  | sealed series =>
      simp only [readings, state, List.length_map]
      exact decompress_length_lt series
  | downsampled => simp [readings, state]

theorem readings_sealSeries_length (bucket : Bucket) :
    bucket.sealSeries.readings.length ≤ bucket.readings.length := by
  cases state : bucket.state with
  | opened entries =>
      simp only [readings, sealSeries, state, List.length_map]
      exact decompress_compressSeries_length entries
  | sealed series => simp [readings, sealSeries, state]
  | downsampled => simp [readings, sealSeries, state]

theorem readings_sealSeries_perm {bucket : Bucket} (count : bucket.readings.length < 2 ^ 32)
    (times : ∀ reading ∈ bucket.readings, IsSigned64 reading.1) :
    bucket.sealSeries.readings.Perm bucket.readings := by
  cases state : bucket.state with
  | opened entries =>
      simp only [readings, sealSeries, state, List.length_map, List.mem_map] at count times ⊢
      refine decompress_compressSeries count fun entry member => ?_
      exact times _ ⟨entry, member, rfl⟩
  | sealed series => simp [readings, sealSeries, state]
  | downsampled => simp [readings, sealSeries, state]

end Bucket

/-! ## One insert -/

namespace TimeIndex

def allReadings (index : TimeIndex) : List (Int × Bytes) :=
  index.buckets.toList.flatMap fun bucket => bucket.2.readings

def bucketFor (index : TimeIndex) (entry : TsEntry) : Bucket :=
  (index.buckets.get? (index.start entry.ts)).getD Bucket.empty

section Step

variable (index : TimeIndex) (ops : FloatOps) (entry : TsEntry)

theorem allReadings_split :
    index.allReadings.Perm ((index.bucketFor entry).readings ++
      (index.buckets.erase (index.start entry.ts)).toList.flatMap fun bucket =>
        bucket.2.readings) := by
  cases found : index.buckets.get? (index.start entry.ts) with
  | none =>
      rw [bucketFor, found, Option.getD_none, Bucket.readings_empty, List.nil_append, allReadings,
        index.buckets.erase_of_get?_none found]
  | some bucket =>
      rw [bucketFor, found, Option.getD_some]
      exact (index.buckets.perm_erase_of_get? found).flatMap_right _

theorem allReadings_place :
    (index.place ops entry).allReadings.Perm (((index.bucketFor entry).push ops entry).readings ++
      (index.buckets.erase (index.start entry.ts)).toList.flatMap fun bucket =>
        bucket.2.readings) :=
  (index.buckets.perm_insert _ _).flatMap_right _

theorem place_perm (opened : (index.bucketFor entry).IsOpen) :
    (index.place ops entry).allReadings.Perm (index.allReadings ++ [entry.reading]) := by
  refine (index.allReadings_place ops entry).trans ?_
  rw [Bucket.readings_push_of_isOpen ops opened, List.append_assoc]
  refine (List.Perm.append_left _ List.perm_append_comm).trans ?_
  rw [← List.append_assoc]
  exact (index.allReadings_split entry).symm.append_right _

theorem place_length_of_closed (closed : ¬(index.bucketFor entry).IsOpen) :
    (index.place ops entry).allReadings.length + (index.bucketFor entry).readings.length =
      index.allReadings.length + 1 := by
  rw [(index.allReadings_place ops entry).length_eq, (index.allReadings_split entry).length_eq,
    Bucket.readings_push_of_not_isOpen ops closed]
  simp only [List.length_append, List.length_singleton]
  omega

theorem place_length_le :
    (index.place ops entry).allReadings.length ≤ index.allReadings.length + 1 := by
  by_cases opened : (index.bucketFor entry).IsOpen
  · rw [(index.place_perm ops entry opened).length_eq, List.length_append, List.length_singleton]
  · have exact_ := index.place_length_of_closed ops entry opened
    omega

end Step

section Sealing

variable (index : TimeIndex)

/-- What one bucket becomes when the older buckets are sealed. -/
def settled (start : Int) (bucket : Bucket) : Bucket :=
  if start = index.start index.newestTs then bucket else bucket.sealSeries

theorem allReadings_seal :
    index.sealNonNewestBuckets.allReadings =
      index.buckets.toList.flatMap fun bucket => (index.settled bucket.1 bucket.2).readings :=
  List.flatMap_map ..

theorem settled_length (start : Int) (bucket : Bucket) :
    (index.settled start bucket).readings.length ≤ bucket.readings.length := by
  rw [settled]
  split_ifs
  · exact le_refl _
  · exact bucket.readings_sealSeries_length

theorem seal_length_le :
    index.sealNonNewestBuckets.allReadings.length ≤ index.allReadings.length := by
  rw [allReadings_seal, allReadings, List.length_flatMap, List.length_flatMap]
  exact List.sum_le_sum fun bucket _ => index.settled_length bucket.1 bucket.2

theorem seal_length_lt {start : Int} {bucket : Bucket}
    (found : index.buckets.get? start = some bucket) (older : start ≠ index.start index.newestTs)
    (large : 2 ^ 32 ≤ bucket.readings.length) :
    index.sealNonNewestBuckets.allReadings.length < index.allReadings.length := by
  rw [allReadings_seal, allReadings, List.length_flatMap, List.length_flatMap]
  refine List.sum_lt_sum _ _ (fun other _ => index.settled_length other.1 other.2) ?_
  refine ⟨(start, bucket), (OrdMap.get?_eq_some _ _ _).mp found, ?_⟩
  have short := Bucket.readings_length_of_not_isOpen bucket.not_isOpen_sealSeries
  simp only [settled, if_neg older]
  omega

theorem settled_perm {start : Int} {bucket : Bucket}
    (small : start ≠ index.start index.newestTs → bucket.readings.length < 2 ^ 32)
    (times : ∀ reading ∈ bucket.readings, IsSigned64 reading.1) :
    (index.settled start bucket).readings.Perm bucket.readings := by
  rw [settled]
  split_ifs with newest
  · exact List.Perm.refl _
  · exact Bucket.readings_sealSeries_perm (small newest) times

theorem seal_perm
    (small : ∀ start bucket, index.buckets.get? start = some bucket →
      start ≠ index.start index.newestTs → bucket.readings.length < 2 ^ 32)
    (times : ∀ reading ∈ index.allReadings, IsSigned64 reading.1) :
    index.sealNonNewestBuckets.allReadings.Perm index.allReadings := by
  rw [allReadings_seal]
  refine List.Perm.flatMap_left _ fun bucket member => ?_
  refine index.settled_perm (small _ _ ((OrdMap.get?_eq_some _ _ _).mpr member)) ?_
  intro reading inside
  exact times reading (List.mem_flatMap.mpr ⟨bucket, member, inside⟩)

end Sealing

end TimeIndex

end Pantheon.Keystone
