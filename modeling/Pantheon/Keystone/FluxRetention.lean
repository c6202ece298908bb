import Mathlib
import Pantheon.Keystone.FluxLog

/-!
# Retention as a trim: `storage/flux.rs`

Retention removes records from the front until what is left is acceptable.  Trimming after
every append is trimming once at the end, when no end of the records becomes acceptable again
by a later record.
-/

set_option autoImplicit false

namespace Pantheon.Keystone

open Pantheon.Lib

/-! ## Trimming a list from the front -/

section Trim

variable {Value : Type}

/-- The longest end of the list that is acceptable, the list being cut one by one. -/
def trim (acceptable : List Value → Bool) : List Value → List Value
  | [] => []
  | front :: rest => if acceptable (front :: rest) then front :: rest else trim acceptable rest

theorem trim_suffix (acceptable : List Value → Bool) : ∀ values : List Value,
    trim acceptable values <:+ values := by
  intro values
  induction values with
  | nil => exact List.suffix_refl _
  | cons front rest ih =>
      unfold trim
      split_ifs
      · exact List.suffix_refl _
      · exact ih.trans (List.suffix_cons _ _)

/-- Trimming after every append is trimming once, when an end that is acceptable
later was acceptable before. -/
theorem trim_append (before after : List Value → Bool) (value : Value) : ∀ values : List Value,
    (∀ front rest, front :: rest <:+ values → after (front :: rest ++ [value]) = true →
      before (front :: rest) = true) →
    trim after (trim before values ++ [value]) = trim after (values ++ [value]) := by
  intro values
  induction values with
  | nil => intro _; rfl
  | cons front rest ih =>
      intro earlier
      have tail := ih fun other others suffix =>
        earlier other others (suffix.trans (List.suffix_cons _ _))
      by_cases ok : before (front :: rest) = true
      · rw [trim, if_pos ok]
      · have later : after (front :: (rest ++ [value])) ≠ true := fun good =>
          ok (earlier front rest (List.suffix_refl _) good)
        rw [trim, if_neg ok, tail, List.cons_append, trim, if_neg later]

theorem trim_trim (first second : List Value → Bool) : ∀ values : List Value,
    (∀ front rest, front :: rest <:+ values → first (front :: rest) = true → rest ≠ [] →
      first rest = true) →
    trim second (trim first values) = trim (fun ends => first ends && second ends) values := by
  intro values
  induction values with
  | nil => intro _; rfl
  | cons front rest ih =>
      intro closed
      have tail := ih fun other others suffix =>
        closed other others (suffix.trans (List.suffix_cons _ _))
      by_cases ok : first (front :: rest) = true
      · have same : trim first rest = rest := by
          cases rest with
          | nil => rfl
          | cons next others =>
              have good := closed front (next :: others) (List.suffix_refl _) ok (by simp)
              rw [trim, if_pos good]
        rw [same] at tail
        rw [trim, if_pos ok, trim, trim, tail, ok, Bool.true_and]
      · rw [trim, if_neg ok, tail]
        conv_rhs => rw [trim]
        simp only [Bool.not_eq_true] at ok
        rw [ok, Bool.false_and, if_neg Bool.false_ne_true]

end Trim

/-! ## Retention as a trim -/

def newestOf (records : List FluxRecord) : Int :=
  records.foldl (fun newest record => max newest record.timestampMs) (-2 ^ 63)

def youngFront (cutoff : Int) (records : List FluxRecord) : Bool :=
  match records with
  | [] => true
  | front :: _ => decide (cutoff ≤ front.timestampMs)

/-- What retention accepts when the newest timestamp is this. -/
def acceptable (retention : RetentionPolicy) (newest : Int) (records : List FluxRecord) : Bool :=
  (retention.retentionMs.all fun ms => youngFront (wrapSigned64 (newest - ms)) records) &&
    retention.retentionBytes.all fun maxBytes => decide (recordBytes records ≤ maxBytes)

def RetentionPolicy.OneLimit (retention : RetentionPolicy) : Prop :=
  retention.retentionMs = none ∨ retention.retentionBytes = none

def InOrder (records : List FluxRecord) : Prop :=
  records.Pairwise fun earlier later => earlier.timestampMs ≤ later.timestampMs

theorem youngFront_shorter {cutoff : Int} {front : FluxRecord} {rest : List FluxRecord}
    (ordered : InOrder (front :: rest)) (young : youngFront cutoff (front :: rest) = true) :
    youngFront cutoff rest = true := by
  cases rest with
  | nil => rfl
  | cons next others =>
      have newer := List.rel_of_pairwise_cons ordered (List.mem_cons_self (a := next) (l := others))
      simp only [youngFront, decide_eq_true_eq] at young ⊢
      omega

namespace Partition

theorem evictOld_eq_trim (cutoff : Int) : ∀ (records : List FluxRecord) (total : Nat),
    (evictOld cutoff records total).1 = trim (youngFront cutoff) records := by
  intro records
  induction records with
  | nil => intro total; rfl
  | cons front rest ih =>
      intro total
      unfold evictOld trim
      by_cases old : front.timestampMs < cutoff
      · have aged : ¬ youngFront cutoff (front :: rest) = true := by
          simp only [youngFront, decide_eq_true_eq]
          omega
        rw [if_pos old, if_neg aged, ih]
      · have young : youngFront cutoff (front :: rest) = true := by
          simp only [youngFront, decide_eq_true_eq]
          omega
        rw [if_neg old, if_pos young]

theorem evictLarge_eq_trim (maxBytes : Nat) : ∀ (records : List FluxRecord) (total : Nat),
    total = recordBytes records →
    (evictLarge maxBytes records total).1 =
      trim (fun ends => decide (recordBytes ends ≤ maxBytes)) records := by
  intro records
  induction records with
  | nil => intro total _; rfl
  | cons front rest ih =>
      intro total exact
      unfold evictLarge trim
      by_cases large : maxBytes < total
      · have exceeds : ¬ decide (recordBytes (front :: rest) ≤ maxBytes) = true := by
          simp only [decide_eq_true_eq]
          omega
        rw [recordBytes_cons] at exact
        rw [if_pos large, if_neg exceeds, ih _ (by omega)]
      · have within : decide (recordBytes (front :: rest) ≤ maxBytes) = true := by
          simp only [decide_eq_true_eq]
          omega
        rw [if_neg large, if_pos within]

theorem applyRetention_eq_trim (retention : RetentionPolicy) (part : Partition)
    (exact : part.totalBytes = recordBytes part.records)
    (steady : retention.OneLimit ∨ InOrder part.records) :
    (part.applyRetention retention).records =
      trim (acceptable retention part.newestTs) part.records := by
  obtain ⟨ms, maxBytes⟩ := retention
  cases ms with
  | none =>
      cases maxBytes with
      | none =>
          have whole : trim (acceptable ⟨none, none⟩ part.newestTs) part.records = part.records := by
            cases part.records <;> rfl
          rw [whole]
          rfl
      | some maxBytes =>
          have same : acceptable ⟨none, some maxBytes⟩ part.newestTs =
              fun ends => decide (recordBytes ends ≤ maxBytes) := by
            funext ends
            simp [acceptable]
          rw [same]
          exact evictLarge_eq_trim maxBytes part.records part.totalBytes exact
  | some ms =>
      have aged := evictOld_eq_trim (wrapSigned64 (part.newestTs - ms)) part.records part.totalBytes
      cases maxBytes with
      | none =>
          have same : acceptable ⟨some ms, none⟩ part.newestTs =
              youngFront (wrapSigned64 (part.newestTs - ms)) := by
            funext ends
            simp [acceptable]
          rw [same, ← aged]
          rfl
      | some maxBytes =>
          have ordered : InOrder part.records := by
            rcases steady with one | ordered
            · rcases one with absent | absent <;> cases absent
            · exact ordered
          have same : acceptable ⟨some ms, some maxBytes⟩ part.newestTs =
              fun ends => youngFront (wrapSigned64 (part.newestTs - ms)) ends &&
                decide (recordBytes ends ≤ maxBytes) := by
            funext ends
            simp [acceptable]
          have sized := (evictOld_suffix (wrapSigned64 (part.newestTs - ms)) part.records
            part.totalBytes exact).2
          rw [same, ← trim_trim]
          · rw [← aged]
            exact evictLarge_eq_trim maxBytes _ _ sized
          · intro front rest suffix young _
            exact youngFront_shorter (ordered.sublist suffix.sublist) young

end Partition

/-! ## A partition as its file determines it -/

def retained (retention : RetentionPolicy) (all : List FluxRecord) : List FluxRecord :=
  trim (acceptable retention (newestOf all)) all

def settled (codec : Codec FluxRecord) (retention : RetentionPolicy) (all : List FluxRecord) :
    Partition where
  file := codec.log all
  records := retained retention all
  nextOffset := all.length
  totalBytes := recordBytes (retained retention all)
  newestTs := newestOf all

/-- The limits that the meta file can hold. -/
structure RetentionPolicy.Storable (retention : RetentionPolicy) : Prop where
  ms : ∀ ms ∈ retention.retentionMs, 0 ≤ ms ∧ ms < 2 ^ 63
  bytes : ∀ maxBytes ∈ retention.retentionBytes, maxBytes < 2 ^ 63

/-- Records that can be read back, under timestamps that go forward or a policy
that does not mind. -/
structure SteadyRecords (codec : Codec FluxRecord) (retention : RetentionPolicy)
    (all : List FluxRecord) : Prop where
  fits : ∀ record ∈ all, codec.Fits record
  stamped : ∀ record ∈ all, 0 ≤ record.timestampMs ∧ record.timestampMs < 2 ^ 63
  numbered : all.map FluxRecord.offset = List.range all.length
  ordered : retention.OneLimit ∨ InOrder all

theorem newestOf_append (all : List FluxRecord) (record : FluxRecord) :
    newestOf (all ++ [record]) = max (newestOf all) record.timestampMs := by
  simp [newestOf]

theorem newestOf_start : ∀ all : List FluxRecord, -2 ^ 63 ≤ newestOf all := by
  intro all
  induction all using List.reverseRecOn with
  | nil => decide
  | append_singleton all record ih =>
      rw [newestOf_append]
      exact ih.trans (le_max_left _ _)

theorem newestOf_range : ∀ all : List FluxRecord,
    (∀ record ∈ all, 0 ≤ record.timestampMs ∧ record.timestampMs < 2 ^ 63) →
    newestOf all < 2 ^ 63 ∧ (all ≠ [] → 0 ≤ newestOf all) := by
  intro all
  induction all using List.reverseRecOn with
  | nil => intro _; exact ⟨by decide, fun absurd_ => absurd rfl absurd_⟩
  | append_singleton all record ih =>
      intro stamped
      have here := stamped record (by simp)
      obtain ⟨upper, _⟩ := ih fun other member => stamped other (by simp [member])
      rw [newestOf_append]
      exact ⟨by omega, fun _ => by omega⟩

variable {retention : RetentionPolicy} {all : List FluxRecord} {record : FluxRecord}

/-- An end of the records that is acceptable once another record has come was
acceptable before. -/
theorem acceptable_earlier (storable : retention.Storable)
    {front : FluxRecord} {rest : List FluxRecord}
    (stamped : ∀ other ∈ all ++ [record], 0 ≤ other.timestampMs ∧ other.timestampMs < 2 ^ 63)
    (suffix : front :: rest <:+ all)
    (later : acceptable retention (newestOf (all ++ [record])) (front :: rest ++ [record]) = true) :
    acceptable retention (newestOf all) (front :: rest) = true := by
  have nonempty : all ≠ [] := by
    intro empty
    rw [empty] at suffix
    exact List.cons_ne_nil _ _ (List.suffix_nil.mp suffix)
  obtain ⟨upper, lower⟩ := newestOf_range all fun other member => stamped other (by simp [member])
  obtain ⟨nextUpper, _⟩ := newestOf_range (all ++ [record]) stamped
  have grows : newestOf all ≤ newestOf (all ++ [record]) := by
    rw [newestOf_append]
    exact le_max_left _ _
  have start := lower nonempty
  simp only [acceptable, Bool.and_eq_true, Option.all_eq_true] at later ⊢
  refine ⟨fun ms given => ?_, fun maxBytes given => ?_⟩
  · have young := later.1 ms given
    obtain ⟨msLower, msUpper⟩ := storable.ms ms given
    rw [wrapSigned64_of_isSigned64 ⟨by omega, by omega⟩] at young ⊢
    simp only [youngFront, List.cons_append, decide_eq_true_eq] at young ⊢
    omega
  · have small := later.2 maxBytes given
    rw [decide_eq_true_eq, recordBytes_append] at small
    rw [decide_eq_true_eq]
    omega

theorem retained_append {codec : Codec FluxRecord}
    (storable : retention.Storable)
    (steady : SteadyRecords codec retention (all ++ [record])) :
    trim (acceptable retention (newestOf (all ++ [record]))) (retained retention all ++ [record]) =
      retained retention (all ++ [record]) :=
  trim_append _ _ record all fun _ _ suffix later =>
    acceptable_earlier storable steady.stamped suffix later

theorem settled_push {codec : Codec FluxRecord}
    (storable : retention.Storable)
    (steady : SteadyRecords codec retention (all ++ [record])) :
    ((settled codec retention all).push codec record).applyRetention retention =
      settled codec retention (all ++ [record]) := by
  have exact : ((settled codec retention all).push codec record).totalBytes =
      recordBytes ((settled codec retention all).push codec record).records := by
    simp [settled, Partition.push, recordBytes]
  have ends : retained retention all ++ [record] <:+ all ++ [record] := by
    obtain ⟨dropped, split⟩ := trim_suffix (acceptable retention (newestOf all)) all
    refine ⟨dropped, ?_⟩
    rw [← List.append_assoc]
    exact congrArg (· ++ [record]) split
  have ordered : retention.OneLimit ∨
      InOrder ((settled codec retention all).push codec record).records :=
    steady.ordered.imp_right fun sorted => sorted.sublist ends.sublist
  have newest : ((settled codec retention all).push codec record).newestTs =
      newestOf (all ++ [record]) := (newestOf_append all record).symm
  have left : (((settled codec retention all).push codec record).applyRetention retention).records =
      retained retention (all ++ [record]) := by
    rw [Partition.applyRetention_eq_trim retention _ exact ordered, newest]
    exact retained_append storable steady
  ext1
  · simp [settled, Partition.push, codec.log_append, codec.log_singleton]
  · exact left
  · simp [settled, Partition.push]
  · rw [(Partition.applyRetention_suffix retention _ exact).2, left]
    rfl
  · exact newest

end Pantheon.Keystone
