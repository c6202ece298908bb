import Mathlib
import Pantheon.Lib.Base64
import Pantheon.Lib.BitMasks
import Pantheon.Lib.Frames

/-!
# Status lists: `pkg/vc/status.go`

An index is an `int`: a division by eight goes towards zero, and the bit is taken of the
unsigned value.  The checker has no bound below zero and reads at most 16 MiB of the list.
-/

set_option autoImplicit false

namespace Pantheon.Identity.Vc

open Pantheon.Lib

inductive Outcome (Result : Type) where
  | done (result : Result)
  | failed (message : String)
  | panic
deriving DecidableEq

/-- The compressor of the lists; what it compresses it reads back. -/
structure Gzip where
  compress : Bytes → Bytes
  decompress : Bytes → Option Bytes
  reads_back : ∀ bytes, decompress (compress bytes) = some bytes

structure StatusList where
  bits : Bytes
  size : Int
  sized : size = 8 * bits.length

def statusListMinSize : Int := 131072

/-- Nothing where `make` gets a length below zero. -/
def newStatusList (size : Int64) : Option StatusList :=
  let size := if size.toInt < statusListMinSize then statusListMinSize else size.toInt
  let byteLen := (wrapSigned64 (size + 7)).tdiv 8
  if byteLen < 0 then none
  else some ⟨List.replicate byteLen.toNat 0, 8 * byteLen.toNat, by rw [List.length_replicate]⟩

/-- `uint(index) % 8` -/
def bitIndex (index : Int) : Nat := (index % 2 ^ 64 % 8).toNat

def byteAt (bits : Bytes) (byteIdx : Int) : Outcome UInt8 :=
  if byteIdx < 0 then .panic
  else
    match bits[byteIdx.toNat]? with
    | some byte => .done byte
    | none => .panic

namespace StatusList

def checkIndex (list : StatusList) (index : Int) : Option String :=
  if index < 0 ∨ list.size ≤ index then
    some ("status list: index " ++ toString index ++ " out of range (size " ++
      toString list.size ++ ")")
  else none

def replaced (list : StatusList) (byteIdx : Nat) (byte : UInt8) : StatusList :=
  ⟨list.bits.set byteIdx byte, list.size, by rw [List.length_set, list.sized]⟩

def store (list : StatusList) (index : Int) (change : UInt8 → UInt8) : Outcome StatusList :=
  match list.checkIndex index with
  | some message => .failed message
  | none =>
      match byteAt list.bits (index.tdiv 8) with
      | .done byte => .done (list.replaced (index.tdiv 8).toNat (change byte))
      | .failed message => .failed message
      | .panic => .panic

def revoke (list : StatusList) (index : Int) : Outcome StatusList :=
  list.store index fun byte => byte ||| bitMask (bitIndex index)

def unrevoke (list : StatusList) (index : Int) : Outcome StatusList :=
  list.store index fun byte => byte &&& ~~~bitMask (bitIndex index)

def isRevoked (list : StatusList) (index : Int) : Outcome Bool :=
  match list.checkIndex index with
  | some message => .failed message
  | none =>
      match byteAt list.bits (index.tdiv 8) with
      | .done byte => .done (hasBit byte (bitIndex index))
      | .failed message => .failed message
      | .panic => .panic

def encodedList (gzip : Gzip) (list : StatusList) : Bytes := Base64.encode (gzip.compress list.bits)

end StatusList

def readLimit : Nat := 16 * 2 ^ 20

def parseEncodedList (gzip : Gzip) (encoded : Bytes) : Outcome Bytes :=
  match Base64.decode encoded with
  | none => .failed "status list: base64 decode"
  | some compressed =>
      match gzip.decompress compressed with
      | none => .failed "status list: gzip open"
      | some bits => .done (bits.take readLimit)

/-- The status is the index that a credential has in its list, if it has one. -/
def checkStatus (bits : Bytes) (status : Option Int) : Outcome Unit :=
  match status with
  | none => .done ()
  | some index =>
      if (bits.length : Int) ≤ index.tdiv 8 then
        .failed ("status list: index " ++ toString index ++ " out of range")
      else
        match byteAt bits (index.tdiv 8) with
        | .done byte =>
            if hasBit byte (bitIndex index) then .failed "credential is revoked" else .done ()
        | .failed message => .failed message
        | .panic => .panic

inductive Change where
  | revoke (index : Int)
  | unrevoke (index : Int)

def Change.run (list : StatusList) : Change → Outcome StatusList
  | .revoke index => list.revoke index
  | .unrevoke index => list.unrevoke index

def changed : List Change → StatusList → Outcome StatusList
  | [], list => .done list
  | change :: changes, list =>
      match change.run list with
      | .done next => changed changes next
      | .failed _ => changed changes list
      | .panic => .panic

/-- Whether an index is revoked after one more change, which fails outside of the list. -/
def revokedAfter (size index : Int) (held : Bool) : Change → Bool
  | .revoke other => if other = index ∧ 0 ≤ index ∧ index < size then true else held
  | .unrevoke other => if other = index ∧ 0 ≤ index ∧ index < size then false else held

/-- The last change of the index that did not fail was a revocation. -/
def revokedBy (size : Int) (changes : List Change) (index : Int) : Bool :=
  changes.foldl (revokedAfter size index) false

/-! ## Bits of a list -/

def bitAt (bits : Bytes) (position : Nat) : Bool :=
  match bits[position / 8]? with
  | some byte => hasBit byte (position % 8)
  | none => false

theorem tdiv_natCast (position : Nat) : (position : Int).tdiv 8 = (position / 8 : Nat) := rfl

theorem bitIndex_natCast (position : Nat) : bitIndex position = position % 8 := by
  unfold bitIndex
  omega

variable {bits : Bytes} {index : Int} {list : StatusList} {size : Int64}

theorem byteAt_natCast {byteIdx : Nat} (inside : byteIdx < bits.length) :
    byteAt bits byteIdx = .done (bits.get ⟨byteIdx, inside⟩) := by
  unfold byteAt
  rw [if_neg (by omega), Int.toNat_natCast, List.getElem?_eq_getElem inside]
  rfl

theorem bitAt_eq {position : Nat} (inside : position / 8 < bits.length) :
    bitAt bits position = hasBit (bits.get ⟨position / 8, inside⟩) (position % 8) := by
  rw [bitAt, List.getElem?_eq_getElem inside]
  rfl

theorem bitAt_set {byteIdx : Nat} (inside : byteIdx < bits.length) (byte : UInt8)
    (position : Nat) : bitAt (bits.set byteIdx byte) position =
      if byteIdx = position / 8 then hasBit byte (position % 8) else bitAt bits position := by
  unfold bitAt
  rw [List.getElem?_set]
  split_ifs with same
  · rfl
  · rfl

namespace StatusList

variable {list : StatusList} {position : Nat}

theorem inside_of_lt (below : (position : Int) < list.size) : position / 8 < list.bits.length := by
  have sized := list.sized
  omega

theorem checkIndex_inside (below : (position : Int) < list.size) :
    list.checkIndex position = none := by
  unfold checkIndex
  rw [if_neg (by omega)]

theorem checkIndex_outside (outside : index < 0 ∨ list.size ≤ index) :
    ∃ message, list.checkIndex index = some message := ⟨_, if_pos outside⟩

theorem store_inside (below : (position : Int) < list.size) (change : UInt8 → UInt8) :
    list.store position change = .done (list.replaced (position / 8)
      (change (list.bits.get ⟨position / 8, inside_of_lt below⟩))) := by
  unfold store
  rw [checkIndex_inside below, tdiv_natCast, byteAt_natCast (inside_of_lt below)]
  rfl

theorem store_outside (outside : index < 0 ∨ list.size ≤ index)
    (change : UInt8 → UInt8) : ∃ message, list.store index change = .failed message := by
  obtain ⟨message, refused⟩ := checkIndex_outside outside
  exact ⟨message, by rw [store, refused]⟩

theorem bitAt_replaced (below : (position : Int) < list.size) {change : UInt8 → UInt8}
    {effect : Bool → Bool → Bool} (keeps : ∀ held, effect held false = held)
    (bitwise : ∀ byte, ∀ other < 8, hasBit (change byte) other =
      effect (hasBit byte other) (decide (position % 8 = other))) (other : Nat) :
    bitAt (list.replaced (position / 8)
        (change (list.bits.get ⟨position / 8, inside_of_lt below⟩))).bits other =
      effect (bitAt list.bits other) (decide (position = other)) := by
  rw [replaced, bitAt_set (inside_of_lt below)]
  by_cases sameByte : position / 8 = other / 8
  · have inside : other / 8 < list.bits.length := sameByte ▸ inside_of_lt below
    have sameBit : decide (position % 8 = other % 8) = decide (position = other) :=
      decide_eq_decide.mpr (by omega)
    rw [if_pos sameByte, bitwise _ _ (Nat.mod_lt other (by decide)), bitAt_eq inside, sameBit]
    simp only [sameByte]
  · have apart : position ≠ other := fun same => sameByte (same ▸ rfl)
    rw [if_neg sameByte, decide_eq_false apart, keeps]

theorem bitAt_revoked (below : (position : Int) < list.size) :
    ∃ next, list.revoke position = .done next ∧ next.size = list.size ∧
      ∀ other, bitAt next.bits other = (bitAt list.bits other || decide (position = other)) := by
  refine ⟨_, store_inside below _, rfl, ?_⟩
  refine @bitAt_replaced list position below (fun byte => byte ||| bitMask (bitIndex position))
    (fun held here => held || here) Bool.or_false ?_
  intro byte other small
  rw [bitIndex_natCast, hasBit_or byte (Nat.mod_lt position (by decide)) small]

theorem bitAt_unrevoked (below : (position : Int) < list.size) :
    ∃ next, list.unrevoke position = .done next ∧ next.size = list.size ∧
      ∀ other, bitAt next.bits other = (bitAt list.bits other && !decide (position = other)) := by
  refine ⟨_, store_inside below _, rfl, ?_⟩
  refine @bitAt_replaced list position below (fun byte => byte &&& ~~~bitMask (bitIndex position))
    (fun held here => held && !here) Bool.and_true ?_
  intro byte other small
  rw [bitIndex_natCast, hasBit_andNot byte (Nat.mod_lt position (by decide)) small]

theorem isRevoked_inside (below : (position : Int) < list.size) :
    list.isRevoked position = .done (bitAt list.bits position) := by
  unfold isRevoked
  rw [checkIndex_inside below, tdiv_natCast, byteAt_natCast (inside_of_lt below),
    bitIndex_natCast, bitAt_eq (inside_of_lt below)]

theorem isRevoked_outside (outside : index < 0 ∨ list.size ≤ index) :
    ∃ message, list.isRevoked index = .failed message := by
  obtain ⟨message, refused⟩ := checkIndex_outside outside
  exact ⟨message, by rw [isRevoked, refused]⟩

end StatusList

/-! ## Runs of changes -/

/-- The run goes on with the next list, whose bits are those of the specification. -/
def StepsTo (list : StatusList) (change : Change) (next : StatusList) : Prop :=
  (∀ changes, changed (change :: changes) list = changed changes next) ∧
    next.size = list.size ∧ ∀ other : Nat, (other : Int) < list.size →
      bitAt next.bits other = revokedAfter list.size other (bitAt list.bits other) change

theorem stepsTo_refused {change : Change} {message : String}
    (refused : change.run list = .failed message)
    (keeps : ∀ other : Nat, (other : Int) < list.size → ∀ held,
      revokedAfter list.size other held change = held) : StepsTo list change list := by
  refine ⟨fun changes => ?_, rfl, fun other below => (keeps other below _).symm⟩
  rw [changed, refused]

theorem stepsTo_done {next : StatusList} {change : Change}
    (done : change.run list = .done next) (sameSize : next.size = list.size)
    (bits : ∀ other : Nat, (other : Int) < list.size →
      bitAt next.bits other = revokedAfter list.size other (bitAt list.bits other) change) :
    StepsTo list change next := by
  refine ⟨fun changes => ?_, sameSize, bits⟩
  rw [changed, done]

theorem change_steps (list : StatusList) (change : Change) : ∃ next, StepsTo list change next := by
  cases change with
  | revoke index =>
      by_cases outside : index < 0 ∨ list.size ≤ index
      · obtain ⟨message, refused⟩ := list.store_outside outside
          fun byte => byte ||| bitMask (bitIndex index)
        exact ⟨list, stepsTo_refused refused fun other below held => if_neg (by omega)⟩
      · obtain ⟨position, rfl⟩ := Int.eq_ofNat_of_zero_le (show 0 ≤ index by omega)
        obtain ⟨next, done, sameSize, bits⟩ :=
          list.bitAt_revoked (show (position : Int) < list.size by omega)
        refine ⟨next, stepsTo_done done sameSize fun other below => ?_⟩
        rw [bits other, revokedAfter]
        by_cases same : position = other
        · rw [if_pos (by omega), decide_eq_true same, Bool.or_true]
        · rw [if_neg (by omega), decide_eq_false same, Bool.or_false]
  | unrevoke index =>
      by_cases outside : index < 0 ∨ list.size ≤ index
      · obtain ⟨message, refused⟩ := list.store_outside outside
          fun byte => byte &&& ~~~bitMask (bitIndex index)
        exact ⟨list, stepsTo_refused refused fun other below held => if_neg (by omega)⟩
      · obtain ⟨position, rfl⟩ := Int.eq_ofNat_of_zero_le (show 0 ≤ index by omega)
        obtain ⟨next, done, sameSize, bits⟩ :=
          list.bitAt_unrevoked (show (position : Int) < list.size by omega)
        refine ⟨next, stepsTo_done done sameSize fun other below => ?_⟩
        rw [bits other, revokedAfter]
        by_cases same : position = other
        · rw [if_pos (by omega), decide_eq_true same, Bool.not_true, Bool.and_false]
        · rw [if_neg (by omega), decide_eq_false same, Bool.not_false, Bool.and_true]

theorem changed_bits (changes : List Change) : ∀ list : StatusList,
    ∃ final, changed changes list = .done final ∧ final.size = list.size ∧
      ∀ position : Nat, (position : Int) < list.size → bitAt final.bits position =
        changes.foldl (revokedAfter list.size position) (bitAt list.bits position) := by
  induction changes with
  | nil => exact fun list => ⟨list, rfl, rfl, fun _ _ => rfl⟩
  | cons change changes hyp =>
      intro list
      obtain ⟨next, goesOn, sameSize, bits⟩ := change_steps list change
      obtain ⟨final, run, finalSize, finalBits⟩ := hyp next
      refine ⟨final, (goesOn changes).trans run, finalSize.trans sameSize, ?_⟩
      intro position below
      rw [finalBits position (by omega), bits position below, sameSize, List.foldl_cons]

theorem bitAt_newStatusList
    (created : newStatusList size = some list) (position : Nat) :
    bitAt list.bits position = false := by
  unfold newStatusList at created
  simp only at created
  split_ifs at created with short negative negative
  all_goals
    obtain rfl := Option.some.inj created
    unfold bitAt
    rw [List.getElem?_replicate]
    split_ifs
    · exact hasBit_zero (Nat.mod_lt position (by decide))
    · rfl

theorem bits_of_run (created : newStatusList size = some list)
    (changes : List Change) : ∃ final, changed changes list = .done final ∧
      final.size = list.size ∧ ∀ position : Nat, (position : Int) < list.size →
        bitAt final.bits position = revokedBy list.size changes position := by
  obtain ⟨final, run, sameSize, bits⟩ := changed_bits changes list
  refine ⟨final, run, sameSize, fun position below => ?_⟩
  rw [bits position below, bitAt_newStatusList created, revokedBy]

/-! ## What the checker reads -/

theorem parse_encodedList (gzip : Gzip) (list : StatusList) :
    parseEncodedList gzip (list.encodedList gzip) = .done (list.bits.take readLimit) := by
  unfold parseEncodedList StatusList.encodedList
  rw [Base64.decode_encode]
  simp only [gzip.reads_back]

theorem byteAt_before {byteIdx : Int} (before : byteIdx < 0) :
    byteAt bits byteIdx = .panic := if_pos before

theorem checkStatus_natCast (bits : Bytes) (position : Nat) :
    checkStatus bits (some position) ≠ .panic ∧ (checkStatus bits (some position) = .done () ↔
      position / 8 < bits.length ∧ bitAt bits position = false) := by
  simp only [checkStatus, tdiv_natCast, bitIndex_natCast]
  by_cases inside : position / 8 < bits.length
  · rw [if_neg (by omega), byteAt_natCast inside, bitAt_eq inside]
    dsimp only
    generalize hasBit (bits.get ⟨position / 8, inside⟩) (position % 8) = held
    cases held <;> simp [inside]
  · rw [if_pos (by omega)]
    simp [inside]

theorem tdiv_before (before : index < 0) : index.tdiv 8 = -(-index / 8) := by
  have opposite := Int.neg_tdiv (-index) 8
  rw [neg_neg] at opposite
  rw [opposite, Int.tdiv_eq_ediv_of_nonneg (by omega)]

theorem checkStatus_before (filled : bits ≠ []) (before : index < 0) :
    (index ≤ -8 → checkStatus bits (some index) = .panic) ∧
      (-8 < index → checkStatus bits (some index) = checkStatus bits (some (index + 8))) := by
  have length := List.length_pos_iff.mpr filled
  refine ⟨fun far => ?_, fun near => ?_⟩
  · have down : index.tdiv 8 < 0 := by
      rw [tdiv_before before]
      omega
    simp only [checkStatus]
    rw [if_neg (by omega), byteAt_before down]
  · have zero : index.tdiv 8 = 0 := by
      rw [tdiv_before before]
      omega
    have zero' : (index + 8).tdiv 8 = 0 := by
      rw [Int.tdiv_eq_ediv_of_nonneg (by omega)]
      omega
    have sameBit : bitIndex index = bitIndex (index + 8) := by
      unfold bitIndex
      omega
    simp only [checkStatus]
    rw [zero, zero', sameBit, if_neg (by omega), if_neg (by omega)]

def LooksUp (gzip : Gzip) (list : StatusList) (changes : List Change) (index : Int) : Prop :=
  ∃ final bits, changed changes list = .done final ∧
    parseEncodedList gzip (final.encodedList gzip) = .done bits ∧
    final.isRevoked index ≠ .panic ∧ checkStatus bits (some index) ≠ .panic ∧
    (checkStatus bits (some index) = .done () ↔
      0 ≤ index ∧ index < list.size ∧ revokedBy list.size changes index = false) ∧
    (checkStatus bits (some index) = .done () ↔ final.isRevoked index = .done false)

/-- From zero on the index is read, is outside of the list or is revoked; below zero it is one
of the seven that the checker takes from the first byte, and the bit it takes is set. -/
def AnswersRightly (list : StatusList) (changes : List Change) (index : Int) : Prop :=
  (0 ≤ index ∧ (index < 8 * readLimit ∨ list.size ≤ index ∨
      revokedBy list.size changes index = true)) ∨
    (-8 < index ∧ index < 0 ∧ revokedBy list.size changes (index + 8) = true)

theorem rounded_least {total : Int} (far : 131079 ≤ total ∨ total ≤ -8)
    (kept : ¬total.tdiv 8 < 0) : (131072 : Int) ≤ 8 * ((total.tdiv 8).toNat : Int) := by
  rcases far with large | low
  · rw [Int.tdiv_eq_ediv_of_nonneg (by omega)]
    omega
  · rw [tdiv_before (by omega)] at kept
    omega

theorem newStatusList_size
    (created : newStatusList size = some list) : statusListMinSize ≤ list.size := by
  have least := size.le_toInt
  have most := size.toInt_lt
  unfold newStatusList at created
  simp only at created
  split_ifs at created with short negative negative
  all_goals obtain rfl := Option.some.inj created
  · exact rounded_least (by decide) negative
  · refine rounded_least ?_ negative
    unfold wrapSigned64
    unfold statusListMinSize at short
    omega

theorem bitAt_take {limit position : Nat} (inside : position / 8 < limit) :
    bitAt (bits.take limit) position = bitAt bits position := by
  unfold bitAt
  rw [List.getElem?_take_of_lt inside]

section Lookup

variable {gzip : Gzip} {list final : StatusList} {changes : List Change}

theorem looksUp_of_run (run : changed changes list = .done final) (index : Int) :
    LooksUp gzip list changes index ↔
      final.isRevoked index ≠ .panic ∧
        checkStatus (final.bits.take readLimit) (some index) ≠ .panic ∧
        (checkStatus (final.bits.take readLimit) (some index) = .done () ↔
          0 ≤ index ∧ index < list.size ∧ revokedBy list.size changes index = false) ∧
        (checkStatus (final.bits.take readLimit) (some index) = .done () ↔
          final.isRevoked index = .done false) := by
  constructor
  · rintro ⟨other, bits, sameRun, parsed, answers⟩
    obtain rfl := Outcome.done.inj (run.symm.trans sameRun)
    obtain rfl := Outcome.done.inj ((parse_encodedList gzip final).symm.trans parsed)
    exact answers
  · exact fun answers => ⟨final, _, run, parse_encodedList gzip final, answers⟩

theorem checkStatus_read (sameSize : final.size = list.size)
    (bits : ∀ position : Nat, (position : Int) < list.size →
      bitAt final.bits position = revokedBy list.size changes position) (position : Nat) :
    checkStatus (final.bits.take readLimit) (some position) ≠ .panic ∧
      (checkStatus (final.bits.take readLimit) (some position) = .done () ↔
        position < 8 * readLimit ∧ (position : Int) < list.size ∧
          revokedBy list.size changes position = false) := by
  obtain ⟨safe, answer⟩ := checkStatus_natCast (final.bits.take readLimit) position
  refine ⟨safe, answer.trans ?_⟩
  have sized := final.sized
  rw [List.length_take]
  constructor
  · rintro ⟨inside, clear⟩
    have below : (position : Int) < list.size := by omega
    rw [bitAt_take (by omega), bits position below] at clear
    exact ⟨by omega, below, clear⟩
  · rintro ⟨read, below, clear⟩
    refine ⟨by omega, ?_⟩
    rw [bitAt_take (by omega), bits position below, clear]

theorem looksUp_from_zero (run : changed changes list = .done final)
    (sameSize : final.size = list.size)
    (bits : ∀ position : Nat, (position : Int) < list.size →
      bitAt final.bits position = revokedBy list.size changes position) (position : Nat) :
    LooksUp gzip list changes position ↔ position < 8 * readLimit ∨ list.size ≤ position ∨
      revokedBy list.size changes position = true := by
  obtain ⟨safe, answer⟩ := checkStatus_read sameSize bits position
  rw [looksUp_of_run run, answer]
  by_cases below : (position : Int) < list.size
  · rw [StatusList.isRevoked_inside (sameSize ▸ below), bits position below]
    cases revokedBy list.size changes position <;> simp [safe, below]
  · have outside : list.size ≤ position := by omega
    obtain ⟨message, refused⟩ : ∃ message, final.isRevoked position = .failed message :=
      StatusList.isRevoked_outside (Or.inr (sameSize ▸ outside))
    rw [refused]
    simp [safe, below, outside]

theorem looksUp_before (run : changed changes list = .done final)
    (sameSize : final.size = list.size)
    (bits : ∀ position : Nat, (position : Int) < list.size →
      bitAt final.bits position = revokedBy list.size changes position)
    (filled : 8 ≤ list.size) (before : index < 0) :
    LooksUp gzip list changes index ↔
      -8 < index ∧ revokedBy list.size changes (index + 8) = true := by
  obtain ⟨message, refused⟩ : ∃ message, final.isRevoked index = .failed message :=
    StatusList.isRevoked_outside (Or.inl before)
  have sized := final.sized
  have some_byte : final.bits.take readLimit ≠ [] := by
    intro empty
    have none_taken := congrArg List.length empty
    rw [List.length_take, List.length_nil] at none_taken
    unfold readLimit at none_taken
    omega
  obtain ⟨farPanics, nearReads⟩ := checkStatus_before some_byte before
  rw [looksUp_of_run run, refused]
  by_cases near : -8 < index
  · obtain ⟨position, there⟩ := Int.eq_ofNat_of_zero_le (show 0 ≤ index + 8 by omega)
    obtain ⟨safe, answer⟩ := checkStatus_read sameSize bits position
    have read : position < 8 * readLimit := by
      unfold readLimit
      omega
    have below : (position : Int) < list.size := by omega
    rw [nearReads near, there, answer]
    have notFrom : ¬0 ≤ index := by omega
    cases revokedBy list.size changes position <;> simp [safe, near, notFrom, read, below]
  · rw [farPanics (by omega)]
    simp [near]

end Lookup

/-- Lookups are right at exactly the indices the condition names. -/
theorem status_lookup_iff (gzip : Gzip) (size : Int64) (list : StatusList)
    (created : newStatusList size = some list) (changes : List Change) (index : Int) :
    LooksUp gzip list changes index ↔ AnswersRightly list changes index := by
  obtain ⟨final, run, sameSize, bits⟩ := bits_of_run created changes
  have least := newStatusList_size created
  unfold AnswersRightly
  by_cases before : index < 0
  · rw [looksUp_before run sameSize bits (le_trans (by decide) least) before]
    have notFrom : ¬0 ≤ index := by omega
    simp [before, notFrom]
  · obtain ⟨position, rfl⟩ := Int.eq_ofNat_of_zero_le (show 0 ≤ index by omega)
    rw [looksUp_from_zero run sameSize bits]
    have from_zero : (0 : Int) ≤ position := Int.natCast_nonneg position
    simp only [from_zero, before, true_and, false_and, and_false, or_false]
    norm_cast

def plainGzip : Gzip := ⟨id, some, fun _ => rfl⟩

def leastList : StatusList :=
  ⟨List.replicate 16384 0, 131072, by rw [List.length_replicate]; rfl⟩

theorem newStatusList_zero : newStatusList 0 = some leastList := rfl

/-- An index that is revoked is looked up as revoked. -/
theorem status_lookup_of_least :
    newStatusList 0 = some leastList ∧
      (LooksUp plainGzip leastList [.revoke 3] 3 ↔ AnswersRightly leastList [.revoke 3] 3) :=
  ⟨newStatusList_zero,
    status_lookup_iff plainGzip 0 leastList newStatusList_zero [.revoke 3] 3⟩

/-- The index `-8` reads the byte before the list. -/
theorem index_below_zero_panics :
    newStatusList 0 = some leastList ∧ ¬LooksUp plainGzip leastList [] (-8) := by
  refine ⟨newStatusList_zero, ?_⟩
  obtain ⟨final, run, sameSize, bits⟩ := bits_of_run newStatusList_zero []
  rw [looksUp_before run sameSize bits (by decide) (by decide)]
  exact fun answered => absurd answered.1 (by decide)

end Pantheon.Identity.Vc
