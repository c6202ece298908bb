import Mathlib
import Pantheon.Keystone.Wal

/-!
# What replay recovers

Replay reads back whole batches and stops at a torn one.  Batches appended
after a reopen land behind whatever the file ended with, so they are read back
exactly when the cut fell on a batch boundary.
-/

set_option autoImplicit false

namespace Pantheon.Keystone

open Pantheon.Lib

/-! ## One iteration -/

theorem replayLoop_fuel : ∀ (fuel other : Nat) (buf : Bytes) (maxSeq : Nat),
    buf.length < fuel → buf.length < other →
    replayLoop fuel buf maxSeq = replayLoop other buf maxSeq := by
  intro fuel
  induction fuel with
  | zero => intro other buf maxSeq enough _; omega
  | succ fuel ih =>
      intro other buf maxSeq enough otherEnough
      cases other with
      | zero => omega
      | succ other =>
          unfold replayLoop
          split_ifs with stop
          · rfl
          · cases parsed : parseRecords (ofBe ((buf.drop 1).take 8)) (ofBe ((buf.drop 9).take 4))
                (buf.drop 13) with
            | none => simp only [parsed]
            | some pair =>
                obtain ⟨records, rest⟩ := pair
                have shorter := parseRecords_length _ _ _ _ _ parsed
                rw [List.length_drop] at shorter
                simp only [parsed]
                rw [ih other rest _ (by omega) (by omega)]

theorem replayFrom_header (seqField countField body : Bytes) (maxSeq : Nat)
    (seqWidth : seqField.length = 8) (countWidth : countField.length = 4) :
    replayFrom (batchMarker :: (seqField ++ (countField ++ body))) maxSeq =
      match parseRecords (ofBe seqField) (ofBe countField) body with
      | none => ([], max maxSeq (ofBe seqField))
      | some (records, rest) =>
          (records ++ (replayFrom rest (max maxSeq (ofBe seqField))).1,
            (replayFrom rest (max maxSeq (ofBe seqField))).2) := by
  have seqRead : ((batchMarker :: (seqField ++ (countField ++ body))).drop 1).take 8 = seqField := by
    simp [← seqWidth]
  have countRead :
      ((batchMarker :: (seqField ++ (countField ++ body))).drop 9).take 4 = countField := by
    have dropped : (batchMarker :: (seqField ++ (countField ++ body))).drop 9 =
        countField ++ body := by
      rw [List.drop_succ_cons, ← seqWidth, List.drop_left]
    rw [dropped, ← countWidth, List.take_left]
  have bodyRead : (batchMarker :: (seqField ++ (countField ++ body))).drop 13 = body := by
    rw [List.drop_succ_cons, ← List.append_assoc]
    have width : (seqField ++ countField).length = 12 := by simp [seqWidth, countWidth]
    rw [← width, List.drop_left]
  have started : ¬ ((batchMarker :: (seqField ++ (countField ++ body))).length < 1 + 8 + 4 ∨
      (batchMarker :: (seqField ++ (countField ++ body))).head? ≠ some batchMarker) := by
    simp only [List.length_cons, List.length_append, seqWidth, countWidth, List.head?_cons,
      ne_eq, not_true_eq_false, or_false]
    omega
  unfold replayFrom
  rw [replayLoop, if_neg started]
  simp only [seqRead, countRead, bodyRead]
  cases parsed : parseRecords (ofBe seqField) (ofBe countField) body with
  | none => rfl
  | some pair =>
      obtain ⟨records, rest⟩ := pair
      have shorter := parseRecords_length _ _ _ _ _ parsed
      simp only
      rw [replayLoop_fuel _ (rest.length + 1) rest _
        (by simp only [List.length_cons, List.length_append]; omega) (by omega)]

theorem replayFrom_stop (buf : Bytes) (maxSeq : Nat)
    (stop : buf.length < 1 + 8 + 4 ∨ buf.head? ≠ some batchMarker) :
    replayFrom buf maxSeq = ([], maxSeq) := by
  unfold replayFrom
  rw [replayLoop, if_pos stop]

@[simp] theorem replayFrom_nil (maxSeq : Nat) : replayFrom [] maxSeq = ([], maxSeq) :=
  replayFrom_stop [] maxSeq (Or.inl (by simp))

/-! ## Whole batches -/

theorem encodeBatch_append (batch : WalBatch) (rest : Bytes) :
    encodeBatch batch ++ rest = batchMarker :: (beBytes 8 batch.commitSeq ++
      (beBytes 4 batch.entries.length ++ (batch.entries.flatMap encodeEntry ++ rest))) := by
  simp [encodeBatch]

theorem replayFrom_encodeBatch (batch : WalBatch) (fits : batch.Fits) (rest : Bytes)
    (maxSeq : Nat) :
    replayFrom (encodeBatch batch ++ rest) maxSeq =
      (batch.records ++ (replayFrom rest (max maxSeq batch.commitSeq)).1,
        (replayFrom rest (max maxSeq batch.commitSeq)).2) := by
  rw [encodeBatch_append, replayFrom_header _ _ _ _ (beBytes_length _ _) (beBytes_length _ _),
    ofBe_beBytes_eight _ fits.seq, ofBe_beBytes_four _ fits.count,
    parseRecords_encode _ _ _ fits.entries]
  rfl

/-- The highest commit sequence among `batches`, from `start` on. -/
def highestSeq (start : Nat) (batches : List WalBatch) : Nat :=
  batches.foldl (fun highest batch => max highest batch.commitSeq) start

theorem le_highestSeq (batches : List WalBatch) : ∀ start,
    start ≤ highestSeq start batches ∧ ∀ batch ∈ batches, batch.commitSeq ≤ highestSeq start batches := by
  induction batches with
  | nil => intro start; simp [highestSeq]
  | cons head rest ih =>
      intro start
      obtain ⟨startLe, restLe⟩ := ih (max start head.commitSeq)
      refine ⟨(le_max_left _ _).trans startLe, ?_⟩
      intro batch member
      rcases List.mem_cons.mp member with rfl | member
      · exact (le_max_right _ _).trans startLe
      · exact restLe batch member

theorem replayFrom_encodeBatches : ∀ (batches : List WalBatch) (rest : Bytes) (maxSeq : Nat),
    (∀ batch ∈ batches, batch.Fits) →
    replayFrom (encodeBatches batches ++ rest) maxSeq =
      (batches.flatMap WalBatch.records ++ (replayFrom rest (highestSeq maxSeq batches)).1,
        (replayFrom rest (highestSeq maxSeq batches)).2) := by
  intro batches
  induction batches with
  | nil => intro rest maxSeq _; rfl
  | cons batch batches ih =>
      intro rest maxSeq fits
      rw [encodeBatches, List.flatMap_cons, List.append_assoc,
        replayFrom_encodeBatch batch (fits batch List.mem_cons_self), ← encodeBatches,
        ih rest _ fun other member => fits other (List.mem_cons_of_mem _ member)]
      simp [highestSeq]

/-! ## Torn batches -/

/-- `torn` is a proper, non-empty prefix of the encoding of `batch`. -/
def TornOf (batch : WalBatch) (torn : Bytes) : Prop :=
  torn ≠ [] ∧ ∃ missing, missing ≠ [] ∧ encodeBatch batch = torn ++ missing

variable {batch : WalBatch} {torn : Bytes}

theorem TornOf.header (isTorn : TornOf batch torn)
    (reached : 13 ≤ torn.length) :
    ∃ body missing, missing ≠ [] ∧
      torn = batchMarker :: (beBytes 8 batch.commitSeq ++ (beBytes 4 batch.entries.length ++ body)) ∧
      batch.entries.flatMap encodeEntry = body ++ missing := by
  obtain ⟨_, missing, missingNonempty, split⟩ := isTorn
  have head := encodeBatch_append batch []
  simp only [List.append_nil] at head
  refine ⟨torn.drop 13, missing, missingNonempty, ?_⟩
  have whole : ([batchMarker] ++ beBytes 8 batch.commitSeq ++ beBytes 4 batch.entries.length) ++
      batch.entries.flatMap encodeEntry = torn.take 13 ++ (torn.drop 13 ++ missing) := by
    rw [← List.append_assoc, List.take_append_drop, ← split]
    rfl
  have widths : ([batchMarker] ++ beBytes 8 batch.commitSeq ++
      beBytes 4 batch.entries.length).length = (torn.take 13).length := by
    simp [reached]
  obtain ⟨front, back⟩ := List.append_inj whole widths
  refine ⟨?_, back⟩
  conv_lhs => rw [← List.take_append_drop 13 torn, ← front]
  simp

/-- A torn batch is dropped whole; its sequence still counts when the tear
left the header complete. -/
theorem replayFrom_torn (batch : WalBatch) (fits : batch.Fits) (torn : Bytes)
    (isTorn : TornOf batch torn) (maxSeq : Nat) :
    replayFrom torn maxSeq =
      ([], if torn.length < 13 then maxSeq else max maxSeq batch.commitSeq) := by
  by_cases short : torn.length < 13
  · rw [if_pos short]
    exact replayFrom_stop torn maxSeq (Or.inl short)
  · rw [if_neg short]
    obtain ⟨body, missing, missingNonempty, tornEq, bodyEq⟩ := isTorn.header (le_of_not_gt short)
    rw [tornEq, replayFrom_header _ _ _ _ (beBytes_length _ _) (beBytes_length _ _),
      ofBe_beBytes_eight _ fits.seq, ofBe_beBytes_four _ fits.count]
    cases parsed : parseRecords batch.commitSeq batch.entries.length body with
    | none => rfl
    | some pair =>
        obtain ⟨records, rest⟩ := pair
        -- the complete bytes would leave the missing ones over, but they leave nothing
        have extended := parseRecords_extend _ _ _ _ missing _ parsed
        have complete := parseRecords_encode batch.commitSeq batch.entries [] fits.entries
        rw [List.append_nil, bodyEq, extended] at complete
        have leftOver : rest ++ missing = [] := (Prod.mk.inj (Option.some.inj complete)).2
        exact absurd (List.append_eq_nil_iff.mp leftOver).2 missingNonempty

/-! ## Cutting the file and appending behind the cut -/

/-- The batches that lie wholly within the first `length` bytes. -/
def wholeBatches : Nat → List WalBatch → List WalBatch
  | _, [] => []
  | length, batch :: rest =>
      if (encodeBatch batch).length ≤ length then
        batch :: wholeBatches (length - (encodeBatch batch).length) rest
      else []

/-- The first `length` bytes end where a batch ends, or the file does. -/
def CutOnBoundary (length : Nat) (batches : List WalBatch) : Prop :=
  (encodeBatches (wholeBatches length batches)).length =
    min length (encodeBatches batches).length

instance (length : Nat) (batches : List WalBatch) : Decidable (CutOnBoundary length batches) :=
  inferInstanceAs (Decidable (_ = _))

theorem mem_of_mem_wholeBatches (batch : WalBatch) : ∀ (batches : List WalBatch) (length : Nat),
    batch ∈ wholeBatches length batches → batch ∈ batches := by
  intro batches
  induction batches with
  | nil => intro length member; exact member
  | cons head rest ih =>
      intro length member
      unfold wholeBatches at member
      split_ifs at member
      · rcases List.mem_cons.mp member with rfl | member
        · exact List.mem_cons_self
        · exact List.mem_cons_of_mem _ (ih _ member)
      · exact absurd member List.not_mem_nil

theorem take_encodeBatches : ∀ (batches : List WalBatch) (length : Nat),
    ∃ torn, (encodeBatches batches).take length = encodeBatches (wholeBatches length batches) ++ torn ∧
      (torn = [] ∨ ∃ batch ∈ batches, TornOf batch torn) := by
  intro batches
  induction batches with
  | nil => intro length; exact ⟨[], by simp [encodeBatches, wholeBatches], Or.inl rfl⟩
  | cons batch rest ih =>
      intro length
      simp only [encodeBatches, List.flatMap_cons, wholeBatches]
      by_cases whole : (encodeBatch batch).length ≤ length
      · obtain ⟨torn, cut, tornCase⟩ := ih (length - (encodeBatch batch).length)
        refine ⟨torn, ?_, ?_⟩
        · rw [if_pos whole, List.take_append, List.take_of_length_le whole]
          simp only [List.flatMap_cons, List.append_assoc, encodeBatches] at cut ⊢
          rw [cut]
        · exact tornCase.imp id fun ⟨other, member, isTorn⟩ =>
            ⟨other, List.mem_cons_of_mem _ member, isTorn⟩
      · have short : length < (encodeBatch batch).length := lt_of_not_ge whole
        refine ⟨(encodeBatch batch).take length, ?_, ?_⟩
        · rw [if_neg whole, List.take_append_of_le_length (le_of_lt short)]
          rfl
        · by_cases empty : length = 0
          · exact Or.inl (by simp [empty])
          · refine Or.inr ⟨batch, List.mem_cons_self, ?_, (encodeBatch batch).drop length, ?_,
              (List.take_append_drop _ _).symm⟩
            · intro nothing
              have := congrArg List.length nothing
              simp only [List.length_take, List.length_nil] at this
              omega
            · intro nothing
              have := congrArg List.length nothing
              simp only [List.length_drop, List.length_nil] at this
              omega

theorem appendBatch_io (wal : Wal) (batch : WalBatch) (atEnd : wal.io.offset = wal.io.file.length) :
    (wal.appendBatch none batch).1.io =
      ⟨wal.io.file ++ encodeBatch batch, (wal.io.file ++ encodeBatch batch).length⟩ := by
  simp [Wal.appendBatch, WalIo.append, writeAt, atEnd]

theorem appendBatches_file (batches : List WalBatch) : ∀ wal : Wal,
    wal.io.offset = wal.io.file.length →
      (wal.appendBatches batches).io.file = wal.io.file ++ encodeBatches batches := by
  induction batches with
  | nil => intro wal _; simp [Wal.appendBatches, encodeBatches]
  | cons batch rest ih =>
      intro wal atEnd
      have extended := appendBatch_io wal batch atEnd
      rw [Wal.appendBatches, List.foldl_cons, ← Wal.appendBatches, ih _ (by rw [extended]), extended]
      simp [encodeBatches]

/-- Write `batches` to a new log, cut its file to `length` bytes, reopen it,
append `later` and replay. -/
def recoverAndContinue (batches : List WalBatch) (length : Nat) (later : List WalBatch) :
    List WalRecord :=
  let written := (Wal.openFile []).appendBatches batches
  let reopened := Wal.openFile (written.io.file.take length)
  (reopened.appendBatches later).replay.1

theorem recoverAndContinue_eq (batches : List WalBatch) (length : Nat) (later : List WalBatch) :
    recoverAndContinue batches length later =
      (replayFrom ((encodeBatches batches).take length ++ encodeBatches later) 0).1 := by
  simp only [recoverAndContinue, Wal.replay]
  rw [appendBatches_file later _ rfl, appendBatches_file batches _ rfl]
  simp [Wal.openFile]

/-- Behind a torn batch, the bytes up to a complete header are read as one
batch: nothing is recovered, or the first record carries the sequence read
there. -/
theorem replayFrom_header_seq (seqField countField body : Bytes) (maxSeq : Nat)
    (seqWidth : seqField.length = 8) (countWidth : countField.length = 4)
    (counted : 0 < ofBe countField) (record : WalRecord) (records : List WalRecord)
    (found : (replayFrom (batchMarker :: (seqField ++ (countField ++ body))) maxSeq).1 =
      record :: records) : record.seq = ofBe seqField := by
  rw [replayFrom_header _ _ _ _ seqWidth countWidth] at found
  obtain ⟨count, countEq⟩ := Nat.exists_eq_succ_of_ne_zero (Nat.pos_iff_ne_zero.mp counted)
  rw [countEq, parseRecords] at found
  cases first : parseRecord (ofBe seqField) body with
  | none => simp [first] at found
  | some pair =>
      obtain ⟨head, middle⟩ := pair
      have headSeq := parseRecord_seq _ _ _ _ first
      cases rest : parseRecords (ofBe seqField) count middle with
      | none => simp [first, rest] at found
      | some tail =>
          simp only [first, rest, Option.bind_eq_bind, Option.bind_some, List.cons_append,
            List.cons.injEq] at found
          rw [← found.1, headSeq]

theorem ofBe_pos_of_mem (bytes : Bytes) (byte : UInt8) (member : byte ∈ bytes) (nonzero : byte ≠ 0) :
    0 < ofBe bytes := by
  induction bytes using List.reverseRecOn with
  | nil => exact absurd member List.not_mem_nil
  | append_singleton front last ih =>
      rw [ofBe_append_single]
      rcases List.mem_append.mp member with member | member
      · have := ih member
        omega
      · have lastNonzero : last ≠ 0 := List.mem_singleton.mp member ▸ nonzero
        have : last.toNat ≠ 0 := fun zero => lastNonzero (UInt8.toNat_inj.mp zero)
        omega

theorem split_header (buf : Bytes) (long : 13 ≤ buf.length)
    (marked : buf.head? = some batchMarker) :
    buf = batchMarker :: ((buf.drop 1).take 8 ++ ((buf.drop 9).take 4 ++ buf.drop 13)) := by
  obtain ⟨rest, rfl⟩ : ∃ rest, buf = batchMarker :: rest := by
    cases buf with
    | nil => simp at marked
    | cons head rest => exact ⟨rest, by rw [Option.some.inj marked]⟩
  have second : rest.drop 12 = (rest.drop 8).drop 4 := by rw [List.drop_drop]
  simp only [List.drop_succ_cons, List.drop_zero, second, List.take_append_drop]

theorem take_drop_append (more : Bytes) {skip count : Nat}
    (within : skip + count ≤ torn.length) :
    ((torn ++ more).drop skip).take count = (torn.drop skip).take count := by
  rw [List.drop_append_of_le_length (by omega),
    List.take_append_of_le_length (by rw [List.length_drop]; omega)]

def probeBatch (seq : Nat) : WalBatch := ⟨seq, [⟨"", [], [], 0⟩]⟩

theorem probeBatch_fits (seq : Nat) (small : seq < 2 ^ 64) : (probeBatch seq).Fits := by
  refine ⟨small, by simp [probeBatch], ?_⟩
  intro entry member
  obtain rfl := List.mem_singleton.mp member
  exact ⟨by decide, by decide, by decide⟩

theorem TornOf.marked (isTorn : TornOf batch torn) (more : Bytes) :
    (torn ++ more).head? = some batchMarker := by
  obtain ⟨nonempty, missing, _, split⟩ := isTorn
  cases torn with
  | nil => exact absurd rfl nonempty
  | cons head rest =>
      rw [← List.append_nil (encodeBatch batch), encodeBatch_append] at split
      exact congrArg some (List.cons.inj split).1.symm

/-- Cut before the sequence field is complete, the zero bytes of a batch
written at sequence zero are read as an empty batch, and replay stops at the
byte behind them. -/
theorem torn_inside_sequence (isTorn : TornOf batch torn)
    (short : torn.length ≤ 8) (maxSeq : Nat) :
    (replayFrom (torn ++ encodeBatch (probeBatch 0)) maxSeq).1 = [] := by
  have present : 1 ≤ torn.length := List.length_pos_iff.mpr isTorn.1
  have probeLength : (encodeBatch (probeBatch 0)).length = 26 := by decide
  have countZero : ((torn ++ encodeBatch (probeBatch 0)).drop 9).take 4 = [0, 0, 0, 0] := by
    rw [List.drop_append, List.drop_eq_nil_of_le (by omega), List.nil_append]
    generalize torn.length = cut at short present
    interval_cases cut <;> decide
  have bodyStops :
      ((torn ++ encodeBatch (probeBatch 0)).drop 13).head? ≠ some batchMarker := by
    rw [List.drop_append, List.drop_eq_nil_of_le (by omega), List.nil_append]
    generalize torn.length = cut at short present
    interval_cases cut <;> decide
  have long : 13 ≤ (torn ++ encodeBatch (probeBatch 0)).length := by
    rw [List.length_append, probeLength]
    omega
  have seqWidth : (((torn ++ encodeBatch (probeBatch 0)).drop 1).take 8).length = 8 := by
    rw [List.length_take, List.length_drop]
    omega
  rw [split_header _ long (isTorn.marked _), countZero,
    replayFrom_header _ _ _ _ seqWidth rfl]
  have none : ofBe [0, 0, 0, 0] = 0 := by decide
  rw [none, parseRecords]
  simp only [List.nil_append]
  rw [replayFrom_stop _ _ (Or.inr bodyStops)]

/-- Cut behind the sequence field, the first record read there carries the
torn batch's sequence. -/
theorem torn_behind_sequence (fits : batch.Fits)
    (isTorn : TornOf batch torn) (long : 9 ≤ torn.length) (seq : Nat) (maxSeq : Nat)
    (record : WalRecord) (records : List WalRecord)
    (found : (replayFrom (torn ++ encodeBatch (probeBatch seq)) maxSeq).1 = record :: records) :
    record.seq = batch.commitSeq := by
  obtain ⟨nonempty, missing, missingNonempty, split⟩ := isTorn
  have whole := encodeBatch_append batch []
  rw [List.append_nil] at whole
  have probeHead : encodeBatch (probeBatch seq) = batchMarker :: (encodeBatch (probeBatch seq)).tail := by
    rw [← List.append_nil (encodeBatch (probeBatch seq)), encodeBatch_append]
    rfl
  have seqRead : ((torn ++ encodeBatch (probeBatch seq)).drop 1).take 8 =
      beBytes 8 batch.commitSeq := by
    rw [take_drop_append _ (by omega), ← take_drop_append missing (by omega), ← split, whole]
    have width := beBytes_length 8 batch.commitSeq
    simp only [List.drop_succ_cons, List.drop_zero]
    rw [List.take_append_of_le_length (by omega), List.take_of_length_le (by omega)]
  have counted : 0 < ofBe (((torn ++ encodeBatch (probeBatch seq)).drop 9).take 4) := by
    by_cases complete : 13 ≤ torn.length
    · obtain ⟨body, missing, missingNonempty, tornEq, bodyEq⟩ :=
        TornOf.header ⟨nonempty, missing, missingNonempty, split⟩ complete
      have someEntry : batch.entries ≠ [] := by
        intro none
        rw [none, List.flatMap_nil] at bodyEq
        exact missingNonempty (List.append_eq_nil_iff.mp bodyEq.symm).2
      have countRead : (torn.drop 9).take 4 = beBytes 4 batch.entries.length := by
        rw [tornEq, List.drop_succ_cons, List.drop_left' (beBytes_length 8 batch.commitSeq),
          List.take_append_of_le_length (by simp), List.take_of_length_le (by simp)]
      rw [take_drop_append _ (by omega), countRead, ofBe_beBytes_four _ fits.count]
      exact List.length_pos_iff.mpr someEntry
    · apply ofBe_pos_of_mem _ batchMarker _ (by decide)
      rw [List.drop_append_of_le_length (by omega), List.take_append, probeHead]
      apply List.mem_append_right
      obtain ⟨left, leftEq⟩ : ∃ left, 4 - (torn.drop 9).length = left + 1 := by
        refine ⟨4 - (torn.drop 9).length - 1, ?_⟩
        rw [List.length_drop]
        omega
      rw [leftEq, List.take_succ_cons]
      exact List.mem_cons_self
  have probeLength : 13 ≤ (encodeBatch (probeBatch seq)).length := by
    rw [← List.append_nil (encodeBatch (probeBatch seq)), encodeBatch_append]
    simp
    omega
  have longEnough : 13 ≤ (torn ++ encodeBatch (probeBatch seq)).length := by
    rw [List.length_append]
    omega
  have marked := TornOf.marked ⟨nonempty, missing, missingNonempty, split⟩
    (encodeBatch (probeBatch seq))
  rw [split_header _ longEnough marked] at found
  have seqWidth : (((torn ++ encodeBatch (probeBatch seq)).drop 1).take 8).length = 8 := by
    rw [seqRead, beBytes_length]
  have countWidth : (((torn ++ encodeBatch (probeBatch seq)).drop 9).take 4).length = 4 := by
    rw [List.length_take, List.length_drop]
    omega
  rw [replayFrom_header_seq _ _ _ maxSeq seqWidth countWidth counted record records found, seqRead,
    ofBe_beBytes_eight _ fits.seq]

theorem torn_hides_later (batch : WalBatch) (fits : batch.Fits) (torn : Bytes)
    (isTorn : TornOf batch torn) :
    ∃ later, WalBatch.Fits later ∧
      ∀ maxSeq, (replayFrom (torn ++ encodeBatch later) maxSeq).1 ≠ later.records := by
  rcases Nat.lt_or_ge 8 torn.length with long | short
  · obtain ⟨seq, small, differs⟩ : ∃ seq, seq < 2 ^ 64 ∧ seq ≠ batch.commitSeq := by
      by_cases zero : batch.commitSeq = 0
      · exact ⟨1, by norm_num, by omega⟩
      · exact ⟨0, by norm_num, fun same => zero same.symm⟩
    refine ⟨probeBatch seq, probeBatch_fits seq small, ?_⟩
    intro maxSeq found
    exact differs (torn_behind_sequence fits isTorn (by omega) seq maxSeq _ [] found)
  · refine ⟨probeBatch 0, probeBatch_fits 0 (by norm_num), ?_⟩
    intro maxSeq found
    rw [torn_inside_sequence isTorn short maxSeq] at found
    exact absurd found (by simp [probeBatch, WalBatch.records])

/-- Cutting a log anywhere, reopening it, appending and replaying gives back
the whole batches of the cut file and then everything appended, for every list
appended, exactly when the cut fell on a batch boundary. -/
theorem wal_continues_iff_cutOnBoundary (batches : List WalBatch) (length : Nat)
    (fits : ∀ batch ∈ batches, batch.Fits) :
    (∀ later : List WalBatch, (∀ batch ∈ later, batch.Fits) →
      recoverAndContinue batches length later =
        (wholeBatches length batches).flatMap WalBatch.records ++
          later.flatMap WalBatch.records) ↔
    CutOnBoundary length batches := by
  have wholeFits : ∀ batch ∈ wholeBatches length batches, batch.Fits := fun batch member =>
    fits batch (mem_of_mem_wholeBatches batch batches length member)
  obtain ⟨torn, cut, tornCase⟩ := take_encodeBatches batches length
  have recovered : ∀ later, recoverAndContinue batches length later =
      (wholeBatches length batches).flatMap WalBatch.records ++
        (replayFrom (torn ++ encodeBatches later)
          (highestSeq 0 (wholeBatches length batches))).1 := by
    intro later
    rw [recoverAndContinue_eq, cut, List.append_assoc,
      replayFrom_encodeBatches _ _ _ wholeFits]
  have boundary : CutOnBoundary length batches ↔ torn = [] := by
    have lengths := congrArg List.length cut
    rw [List.length_take, List.length_append] at lengths
    rw [CutOnBoundary, ← List.length_eq_zero_iff]
    omega
  rw [boundary]
  constructor
  · intro exact
    rcases tornCase with nothing | ⟨batch, member, isTorn⟩
    · exact nothing
    · obtain ⟨later, laterFits, hidden⟩ := torn_hides_later batch (fits batch member) torn isTorn
      have promised := exact [later] (by simpa using laterFits)
      rw [recovered] at promised
      have same := List.append_cancel_left promised
      simp only [encodeBatches, List.flatMap_cons, List.flatMap_nil, List.append_nil] at same
      exact absurd same (hidden _)
  · rintro rfl later laterFits
    rw [recovered, List.nil_append, ← List.append_nil (encodeBatches later),
      replayFrom_encodeBatches _ _ _ laterFits]
    simp

/-- A log of two batches cut where the first ends. -/
theorem wal_continues_cut_after_first :
    CutOnBoundary 28 [⟨1, [⟨"t", [1], [], 2⟩]⟩, ⟨2, [⟨"t", [1], [7], 0⟩]⟩] ∧
      ∀ later : List WalBatch, (∀ batch ∈ later, batch.Fits) →
        recoverAndContinue [⟨1, [⟨"t", [1], [], 2⟩]⟩, ⟨2, [⟨"t", [1], [7], 0⟩]⟩] 28 later =
          [⟨1, "t", [1], [], 2⟩] ++ later.flatMap WalBatch.records := by
  have boundary : CutOnBoundary 28 [⟨1, [⟨"t", [1], [], 2⟩]⟩, ⟨2, [⟨"t", [1], [7], 0⟩]⟩] := by
    decide
  refine ⟨boundary, (wal_continues_iff_cutOnBoundary _ 28 ?_).mpr boundary⟩
  intro batch member
  simp only [List.mem_cons, List.not_mem_nil, or_false] at member
  rcases member with rfl | rfl <;>
    exact ⟨by decide, by decide, by
      intro entry entryMember
      obtain rfl := List.mem_singleton.mp entryMember
      exact ⟨by decide, by decide, by decide⟩⟩

/-- One batch cut inside its record: a batch written after the reopen is not
replayed. -/
theorem wal_torn_tail_loses_later_batch :
    recoverAndContinue [⟨1, [⟨"t", [1], [7], 0⟩]⟩] 20 [⟨2, [⟨"t", [2], [8], 0⟩]⟩] ≠
      (wholeBatches 20 [⟨1, [⟨"t", [1], [7], 0⟩]⟩]).flatMap WalBatch.records ++
        [⟨2, "t", [2], [8], 0⟩] := by
  decide

/-! ## Replaying a cut log -/

/-- Write `batches` to a new log, cut its file to `length` bytes and replay. -/
def cutAndReplay (batches : List WalBatch) (length : Nat) : List WalRecord × Nat :=
  (Wal.openFile (((Wal.openFile []).appendBatches batches).io.file.take length)).replay

theorem cutAndReplay_eq (batches : List WalBatch) (length : Nat) :
    cutAndReplay batches length = replayFrom ((encodeBatches batches).take length) 0 := by
  have written := appendBatches_file batches (Wal.openFile []) rfl
  rw [cutAndReplay, written]
  rfl

/-- Whatever byte the file is cut at, replay gives back the records of the
whole batches, in order, and a sequence no lower than any of theirs. -/
theorem cut_log_replays_whole_batches (batches : List WalBatch) (length : Nat)
    (fits : ∀ batch ∈ batches, batch.Fits) :
    (cutAndReplay batches length).1 =
        (wholeBatches length batches).flatMap WalBatch.records ∧
      ∀ batch ∈ wholeBatches length batches,
        batch.commitSeq ≤ (cutAndReplay batches length).2 := by
  have wholeFits : ∀ batch ∈ wholeBatches length batches, batch.Fits := by
    intro batch member
    exact fits batch (mem_of_mem_wholeBatches batch batches length member)
  obtain ⟨torn, cut, tornCase⟩ := take_encodeBatches batches length
  have replayed : cutAndReplay batches length =
      ((wholeBatches length batches).flatMap WalBatch.records ++
          (replayFrom torn (highestSeq 0 (wholeBatches length batches))).1,
        (replayFrom torn (highestSeq 0 (wholeBatches length batches))).2) := by
    rw [cutAndReplay_eq, cut, replayFrom_encodeBatches _ _ _ wholeFits]
  have highest := (le_highestSeq (wholeBatches length batches) 0).2
  rw [replayed]
  rcases tornCase with nothing | ⟨batch, member, isTorn⟩
  · subst nothing
    refine ⟨by simp, ?_⟩
    intro batch member
    simpa using highest batch member
  · rw [replayFrom_torn batch (fits batch member) torn isTorn]
    refine ⟨by simp, ?_⟩
    intro other otherMember
    have bound := highest other otherMember
    simp only
    split_ifs
    · exact bound
    · exact bound.trans (le_max_left _ _)

/-- Two batches, the second cut inside its record. -/
theorem cut_log_replays_first_of_two :
    (∀ batch ∈ [(⟨1, [⟨"t", [1], [], 2⟩]⟩ : WalBatch), ⟨2, [⟨"t", [1], [7], 0⟩]⟩], batch.Fits) ∧
      (cutAndReplay [⟨1, [⟨"t", [1], [], 2⟩]⟩, ⟨2, [⟨"t", [1], [7], 0⟩]⟩] 45).1 =
        [⟨1, "t", [1], [], 2⟩] := by
  have fits : ∀ batch ∈ [(⟨1, [⟨"t", [1], [], 2⟩]⟩ : WalBatch), ⟨2, [⟨"t", [1], [7], 0⟩]⟩],
      batch.Fits := by decide
  exact ⟨fits, (cut_log_replays_whole_batches _ 45 fits).1⟩

/-- A table name whose length wraps to zero in its four-byte field is read
back as the empty name. -/
theorem parseRecord_wrapped_table (seq : Nat) (entry : WalEntry) (rest : Bytes)
    (record : WalRecord) (after : Bytes)
    (wraps : (utf8Bytes entry.table).length % 2 ^ 32 = 0)
    (found : parseRecord seq (encodeEntry entry ++ rest) = some (record, after)) :
    record.table = "" := by
  have field : ofBe (beBytes 4 (utf8Bytes entry.table).length) = 0 := by
    rw [ofBe_beBytes]
    exact wraps
  have noName (buf : Bytes) : splitExact 0 buf = some ([], buf) := splitExact_append [] buf
  unfold parseRecord encodeEntry at found
  simp only [List.append_assoc, splitExact_beBytes, Option.bind_eq_bind, Option.bind_some, field,
    noName, Option.bind_eq_some_iff, Prod.exists, Option.some.injEq, Prod.mk.injEq] at found
  obtain ⟨_, _, _, _, _, _, _, _, _, _, _, _, _, _, _, recordExact, _⟩ := found
  rw [← recordExact]
  rfl

theorem replay_loses_wrapped_table (seq : Nat) (entry : WalEntry) (small : seq < 2 ^ 64)
    (wraps : (utf8Bytes entry.table).length % 2 ^ 32 = 0) (named : entry.table ≠ "") :
    (cutAndReplay [⟨seq, [entry]⟩] (encodeBatches [⟨seq, [entry]⟩]).length).1 ≠
      [entry.record seq] := by
  have encoded : encodeBatches [⟨seq, [entry]⟩] =
      batchMarker :: (beBytes 8 seq ++ (beBytes 4 1 ++ (encodeEntry entry ++ []))) := by
    have whole := encodeBatch_append ⟨seq, [entry]⟩ []
    simpa [encodeBatches] using whole
  rw [cutAndReplay_eq, List.take_length, encoded,
    replayFrom_header _ _ _ _ (beBytes_length _ _) (beBytes_length _ _),
    ofBe_beBytes_eight _ small, ofBe_beBytes_four _ (by norm_num), parseRecords]
  cases parsed : parseRecord seq (encodeEntry entry ++ []) with
  | none => simp
  | some pair =>
      obtain ⟨record, after⟩ := pair
      have unnamed := parseRecord_wrapped_table seq entry [] record after wraps parsed
      simp only [parseRecords, Option.bind_eq_bind, Option.bind_some, List.cons_append]
      intro same
      have first := (List.cons.inj same).1
      rw [first] at unnamed
      exact named unnamed

theorem replicate_table_length (count : Nat) :
    (utf8Bytes (String.ofList (List.replicate count 'a'))).length = count := by
  rw [utf8Bytes_ofList]
  induction count with
  | zero => rfl
  | succ count ih =>
      rw [List.replicate_succ, List.flatMap_cons, List.length_append, ih]
      have one : (String.utf8EncodeChar 'a').length = 1 := by decide
      omega

/-- A batch of one record for a table whose name is `width` bytes long. -/
def longNamedBatch (width : Nat) : WalBatch :=
  ⟨1, [⟨String.ofList (List.replicate width 'a'), [], [], 0⟩]⟩

theorem longNamedBatch_is_lost (width : Nat) (wraps : width % 2 ^ 32 = 0) (nonzero : width ≠ 0) :
    (∀ entry ∈ (longNamedBatch width).entries,
        entry.key.length < 2 ^ 32 ∧ entry.value.length < 2 ^ 32) ∧
      (longNamedBatch width).entries.length < 2 ^ 32 ∧
      (longNamedBatch width).commitSeq < 2 ^ 64 ∧
      (cutAndReplay [longNamedBatch width] (encodeBatches [longNamedBatch width]).length).1 ≠
        (longNamedBatch width).records := by
  have length := replicate_table_length width
  refine ⟨?_, by simp [longNamedBatch], by simp [longNamedBatch], ?_⟩
  · intro entry member
    obtain rfl := List.mem_singleton.mp member
    exact ⟨by norm_num, by norm_num⟩
  · apply replay_loses_wrapped_table
    · norm_num
    · rw [length, wraps]
    · intro empty
      have none := congrArg (fun text => (utf8Bytes text).length) empty
      simp only [length] at none
      exact nonzero none

/-- The key, the value and the count fit their fields and the file is not cut
at all, yet the record is not read back. -/
theorem long_table_name_is_lost :
    (∀ entry ∈ (longNamedBatch (2 ^ 32)).entries,
        entry.key.length < 2 ^ 32 ∧ entry.value.length < 2 ^ 32) ∧
      (longNamedBatch (2 ^ 32)).entries.length < 2 ^ 32 ∧
      (longNamedBatch (2 ^ 32)).commitSeq < 2 ^ 64 ∧
      (cutAndReplay [longNamedBatch (2 ^ 32)]
          (encodeBatches [longNamedBatch (2 ^ 32)]).length).1 ≠
        (longNamedBatch (2 ^ 32)).records := by
  apply longNamedBatch_is_lost
  · exact Nat.mod_self _
  · exact Nat.pos_iff_ne_zero.mp (Nat.two_pow_pos 32)

end Pantheon.Keystone
