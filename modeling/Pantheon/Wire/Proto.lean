import Mathlib
import Pantheon.Lib.Bytes
import Pantheon.Lib.Utf8
import Pantheon.Keystone.Compress

/-!
# Protocol buffers of the Flux service: `wire/grpc/proto.rs`

A message is a sequence of tagged values.  A decoder takes the fields it knows in whatever order
they come and skips the others.
-/

set_option autoImplicit false

namespace Pantheon.Wire.Proto

open Pantheon.Lib

inductive WireType where
  | varint
  | len
  | fixed64
  | fixed32
  | startGroup
  | endGroup
deriving DecidableEq

/-- An error of `anyhow`, or a panic on the overflow of a position. -/
inductive Fault where
  | error (text : String)
  | panic
deriving DecidableEq

def WireType.fromU64 : Nat → Except Fault WireType
  | 0 => .ok .varint
  | 1 => .ok .fixed64
  | 2 => .ok .len
  | 3 => .ok .startGroup
  | 4 => .ok .endGroup
  | 5 => .ok .fixed32
  | other => .error (.error s!"unsupported protobuf wire type {other}")

/-! ## Writing -/

def writeVarint (v : Nat) : Bytes :=
  if v / 128 = 0 then [UInt8.ofNat (v % 128)]
  else UInt8.ofNat (v % 128 + 128) :: writeVarint (v / 128)
termination_by v
decreasing_by omega

def writeTag (field wire : Nat) : Bytes := writeVarint (field * 8 + wire)

def writeVarintField (field v : Nat) : Bytes :=
  if v = 0 then [] else writeTag field 0 ++ writeVarint v

def writeLenField (field : Nat) (bytes : Bytes) : Bytes :=
  if bytes = [] then [] else writeTag field 2 ++ (writeVarint bytes.length ++ bytes)

/-! ## The reader -/

/-- What is left of the buffer behind the position. -/
structure Reader where
  pos : Nat
  rest : Bytes
deriving DecidableEq

namespace Reader

def new (buf : Bytes) : Reader := ⟨0, buf⟩

def advance (reader : Reader) (count : Nat) : Reader :=
  ⟨reader.pos + count, reader.rest.drop count⟩

def readVarintFrom (shift result pos : Nat) : Bytes → Except Fault (Nat × Reader)
  | [] => .error (.error "protobuf: truncated varint")
  | byte :: rest =>
      if 64 ≤ shift then .error (.error "protobuf: varint too long")
      else
        let result := result ||| byte.toNat % 128 * 2 ^ shift % 2 ^ 64
        if byte.toNat < 128 then .ok (result, ⟨pos + 1, rest⟩)
        else readVarintFrom (shift + 7) result (pos + 1) rest

def readVarint (reader : Reader) : Except Fault (Nat × Reader) :=
  readVarintFrom 0 0 reader.pos reader.rest

def readLenSlice (reader : Reader) : Except Fault (Bytes × Reader) := do
  let (len, reader) ← reader.readVarint
  if 2 ^ 64 ≤ reader.pos + len then .error .panic
  else if len ≤ reader.rest.length then .ok (reader.rest.take len, reader.advance len)
  else .error (.error "protobuf: length-delimited field exceeds buffer")

def nextTag (reader : Reader) : Except Fault (Option (Nat × WireType × Reader)) := do
  if reader.rest = [] then .ok none
  else
    let (key, reader) ← reader.readVarint
    let wire ← WireType.fromU64 (key % 8)
    .ok (some (key / 8 % 2 ^ 32, wire, reader))

def skip (reader : Reader) : WireType → Except Fault Reader
  | .varint => do
      let (_, reader) ← reader.readVarint
      .ok reader
  | .len => do
      let (_, reader) ← reader.readLenSlice
      .ok reader
  | .fixed64 =>
      if 8 ≤ reader.rest.length then .ok (reader.advance 8)
      else .error (.error "protobuf: truncated fixed64")
  | .fixed32 =>
      if 4 ≤ reader.rest.length then .ok (reader.advance 4)
      else .error (.error "protobuf: truncated fixed32")
  | .startGroup => .error (.error "protobuf: groups are not supported")
  | .endGroup => .error (.error "protobuf: groups are not supported")

end Reader

/-! ## Messages -/

/-- The arms of the match of a decoder: what it does with a field it knows. -/
structure Arms (Message : Type) where
  varint : Nat → Option (Nat → Message → Message)
  len : Nat → Option (Bytes → Message → Message)

variable {Message : Type}

def takeField (arms : Arms Message) (field : Nat) (wire : WireType) (msg : Message)
    (reader : Reader) : Except Fault (Message × Reader) :=
  let skipped : Except Fault (Message × Reader) := do
    let reader ← reader.skip wire
    .ok (msg, reader)
  match wire with
  | .varint =>
      match arms.varint field with
      | some set => do
          let (value, reader) ← reader.readVarint
          .ok (set value msg, reader)
      | none => skipped
  | .len =>
      match arms.len field with
      | some set => do
          let (bytes, reader) ← reader.readLenSlice
          .ok (set bytes msg, reader)
      | none => skipped
  | _ => skipped

def decodeLoop (arms : Arms Message) : Nat → Message → Reader → Except Fault Message
  | 0, msg, _ => .ok msg
  | fuel + 1, msg, reader => do
      match ← reader.nextTag with
      | none => .ok msg
      | some (field, wire, reader) =>
          let (msg, reader) ← takeField arms field wire msg reader
          decodeLoop arms fuel msg reader

def decodeWith (arms : Arms Message) (default : Message) (buf : Bytes) : Except Fault Message :=
  decodeLoop arms (buf.length + 1) default (Reader.new buf)

structure SubscribeRequest where
  topic : String
deriving DecidableEq

def SubscribeRequest.arms : Arms SubscribeRequest where
  varint := fun _ => none
  len := fun
    | 1 => some fun bytes _ => ⟨fromUtf8Lossy bytes⟩
    | _ => none

def SubscribeRequest.decode : Bytes → Except Fault SubscribeRequest :=
  decodeWith SubscribeRequest.arms ⟨""⟩

structure PublishRequest where
  topic : String
  key : Bytes
  value : Bytes
  hasPartition : Bool
  partition : Nat
deriving DecidableEq

def PublishRequest.arms : Arms PublishRequest where
  varint := fun
    | 4 => some fun value msg => { msg with hasPartition := decide (value ≠ 0) }
    | 5 => some fun value msg => { msg with partition := value % 2 ^ 32 }
    | _ => none
  len := fun
    | 1 => some fun bytes msg => { msg with topic := fromUtf8Lossy bytes }
    | 2 => some fun bytes msg => { msg with key := bytes }
    | 3 => some fun bytes msg => { msg with value := bytes }
    | _ => none

def PublishRequest.decode : Bytes → Except Fault PublishRequest :=
  decodeWith PublishRequest.arms ⟨"", [], [], false, 0⟩

structure PollRequest where
  topic : String
  partition : Nat
  group : String
  max : Nat
deriving DecidableEq

def PollRequest.arms : Arms PollRequest where
  varint := fun
    | 2 => some fun value msg => { msg with partition := value % 2 ^ 32 }
    | 4 => some fun value msg => { msg with max := value % 2 ^ 32 }
    | _ => none
  len := fun
    | 1 => some fun bytes msg => { msg with topic := fromUtf8Lossy bytes }
    | 3 => some fun bytes msg => { msg with group := fromUtf8Lossy bytes }
    | _ => none

def PollRequest.decode : Bytes → Except Fault PollRequest :=
  decodeWith PollRequest.arms ⟨"", 0, "", 0⟩

structure CreateTopicRequest where
  name : String
deriving DecidableEq

def CreateTopicRequest.arms : Arms CreateTopicRequest where
  varint := fun _ => none
  len := fun
    | 1 => some fun bytes _ => ⟨fromUtf8Lossy bytes⟩
    | _ => none

def CreateTopicRequest.decode : Bytes → Except Fault CreateTopicRequest :=
  decodeWith CreateTopicRequest.arms ⟨""⟩

structure Record where
  offset : Nat
  key : Bytes
  value : Bytes
  timestampMs : Int
  topic : String
deriving DecidableEq

/-- `as u64` of an `i64`. -/
def asU64 (value : Int) : Nat := (value % 2 ^ 64).toNat

def Record.encode (record : Record) : Bytes :=
  writeVarintField 1 record.offset ++ writeLenField 2 record.key ++
    writeLenField 3 record.value ++ writeVarintField 4 (asU64 record.timestampMs) ++
    writeLenField 5 (utf8Bytes record.topic)

structure PublishResponse where
  partition : Nat
  offset : Nat
deriving DecidableEq

def PublishResponse.encode (response : PublishResponse) : Bytes :=
  writeVarintField 1 response.partition ++ writeVarintField 2 response.offset

structure PollResponse where
  records : List Record
deriving DecidableEq

def PollResponse.encode (response : PollResponse) : Bytes :=
  response.records.flatMap fun record => writeLenField 1 record.encode

/-- `CreateTopicResponse` has no fields. -/
def createTopicResponse : Bytes := []

/-! ## Fields on the wire -/

/-- A field as any proto3 writer may put it: a value it knows nothing about is still tagged with
its wire type. -/
inductive WireField where
  | varint (field value : Nat)
  | len (field : Nat) (bytes : Bytes)
  | fixed64 (field : Nat) (bytes : Bytes)
  | fixed32 (field : Nat) (bytes : Bytes)
deriving DecidableEq

namespace WireField

def bytes : WireField → Bytes
  | .varint field value => writeTag field 0 ++ writeVarint value
  | .len field bytes => writeTag field 2 ++ (writeVarint bytes.length ++ bytes)
  | .fixed64 field bytes => writeTag field 1 ++ bytes
  | .fixed32 field bytes => writeTag field 5 ++ bytes

/-- Field numbers of 32 bits, numbers of 64, and words of their own length. -/
def Fits : WireField → Prop
  | .varint field value => field < 2 ^ 32 ∧ value < 2 ^ 64
  | .len field _ => field < 2 ^ 32
  | .fixed64 field bytes => field < 2 ^ 32 ∧ bytes.length = 8
  | .fixed32 field bytes => field < 2 ^ 32 ∧ bytes.length = 4

def apply (arms : Arms Message) (msg : Message) : WireField → Message
  | .varint field value => ((arms.varint field).map fun set => set value msg).getD msg
  | .len field bytes => ((arms.len field).map fun set => set bytes msg).getD msg
  | _ => msg

end WireField

/-! ## Reading back -/

namespace Reader

theorem readVarintFrom_writeVarint (rest : Bytes) : ∀ (value shift result pos : Nat), shift < 64 →
    value * 2 ^ shift < 2 ^ 64 →
    readVarintFrom shift result pos (writeVarint value ++ rest) =
      .ok (result ||| value * 2 ^ shift, ⟨pos + (writeVarint value).length, rest⟩) := by
  intro value
  induction value using Nat.strongRecOn with
  | ind value ih =>
      intro shift result pos within small
      have lowSmall : value % 128 * 2 ^ shift < 2 ^ 64 :=
        lt_of_le_of_lt (Nat.mul_le_mul_right _ (Nat.mod_le _ _)) small
      rw [writeVarint]
      by_cases last : value / 128 = 0
      · have single : value % 128 = value := Nat.mod_eq_of_lt (by omega)
        have low : (UInt8.ofNat (value % 128)).toNat = value := by
          rw [UInt8.toNat_ofNat']
          omega
        rw [if_pos last, List.singleton_append, readVarintFrom, if_neg (Nat.not_le.mpr within), low,
          if_pos (show value < 128 by omega), single, Nat.mod_eq_of_lt small]
        rfl
      · have byte : (UInt8.ofNat (value % 128 + 128)).toNat = value % 128 + 128 := by
          rw [UInt8.toNat_ofNat']
          omega
        have digit : (value % 128 + 128) % 128 = value % 128 := by omega
        have highSmall : value / 128 * 2 ^ (shift + 7) < 2 ^ 64 := by
          refine lt_of_le_of_lt ?_ small
          rw [pow_add, ← mul_assoc, mul_comm _ (2 ^ 7), ← mul_assoc]
          exact Nat.mul_le_mul_right _ (by omega)
        have further : shift + 7 < 64 := by
          by_contra beyond
          have power : 2 ^ 64 ≤ 2 ^ (shift + 7) := Nat.pow_le_pow_right (by decide) (by omega)
          have factor := Nat.mul_le_mul_right (2 ^ (shift + 7)) (Nat.pos_of_ne_zero last)
          omega
        rw [if_neg last, List.cons_append, readVarintFrom, if_neg (Nat.not_le.mpr within), byte,
          if_neg (by omega), digit, Nat.mod_eq_of_lt lowSmall,
          ih (value / 128) (by omega) _ _ _ further highSmall, Nat.or_assoc,
          Keystone.Compress.or_varint, List.length_cons]
        congr 3
        omega

theorem readVarint_writeVarint {value : Nat} (small : value < 2 ^ 64) (pos : Nat) (rest : Bytes) :
    (Reader.mk pos (writeVarint value ++ rest)).readVarint =
      .ok (value, ⟨pos + (writeVarint value).length, rest⟩) := by
  have read := readVarintFrom_writeVarint rest value 0 0 pos (by decide) (by omega)
  rw [pow_zero, Nat.mul_one, Nat.zero_or] at read
  exact read

theorem readLenSlice_written {bytes : Bytes} {pos : Nat} (rest : Bytes)
    (short : pos + (writeVarint bytes.length).length + bytes.length < 2 ^ 64) :
    (Reader.mk pos (writeVarint bytes.length ++ (bytes ++ rest))).readLenSlice =
      .ok (bytes, ⟨pos + (writeVarint bytes.length).length + bytes.length, rest⟩) := by
  rw [readLenSlice, readVarint_writeVarint (by omega)]
  change (if _ then _ else if _ then _ else _) = _
  rw [if_neg (Nat.not_le.mpr short), if_pos (by simp), advance, List.take_left, List.drop_left]

theorem nextTag_writeTag {field wire : Nat} {kind : WireType} (small : field < 2 ^ 32)
    (three : wire < 8) (known : WireType.fromU64 wire = .ok kind) (pos : Nat) (rest : Bytes) :
    (Reader.mk pos (writeTag field wire ++ rest)).nextTag =
      .ok (some (field, kind, ⟨pos + (writeTag field wire).length, rest⟩)) := by
  have some_ : writeTag field wire ++ rest ≠ [] := by
    rw [writeTag, writeVarint]
    split_ifs
    · exact List.cons_ne_nil _ _
    · exact List.cons_ne_nil _ _
  rw [nextTag, if_neg some_, writeTag, readVarint_writeVarint (by omega)]
  have low : (field * 8 + wire) % 8 = wire := by omega
  have high : (field * 8 + wire) / 8 % 2 ^ 32 = field := by omega
  change (WireType.fromU64 ((field * 8 + wire) % 8) >>= _) = _
  rw [low, known, high]
  rfl

end Reader

namespace WireField

open Reader

theorem decodeLoop_bytes (arms : Arms Message) (fuel : Nat) (msg : Message) {field : WireField}
    (fits : field.Fits) {pos : Nat} (rest : Bytes) (short : pos + field.bytes.length < 2 ^ 64) :
    decodeLoop arms (fuel + 1) msg ⟨pos, field.bytes ++ rest⟩ =
      decodeLoop arms fuel (field.apply arms msg) ⟨pos + field.bytes.length, rest⟩ := by
  cases field with
  | varint field value =>
      obtain ⟨small, word⟩ := fits
      have read := readVarint_writeVarint word (pos + (writeTag field 0).length) rest
      rw [bytes, List.append_assoc, decodeLoop, nextTag_writeTag small (by decide) rfl]
      simp only [takeField, apply, bind, Except.bind]
      cases arms.varint field with
      | none => simp only [skip, bind, Except.bind, read, List.length_append, Nat.add_assoc,
          Option.map_none, Option.getD_none]
      | some set => simp only [read, List.length_append, Nat.add_assoc, Option.map_some,
          Option.getD_some]
  | len field data =>
      rw [bytes] at short
      simp only [List.length_append] at short
      have read := readLenSlice_written rest
        (show pos + (writeTag field 2).length + (writeVarint data.length).length + data.length <
          2 ^ 64 by omega)
      rw [bytes, List.append_assoc, List.append_assoc, decodeLoop,
        nextTag_writeTag fits (by decide) rfl]
      simp only [takeField, apply, bind, Except.bind]
      cases arms.len field with
      | none => simp only [skip, bind, Except.bind, read, List.length_append, Nat.add_assoc,
          Option.map_none, Option.getD_none]
      | some set => simp only [read, List.length_append, Nat.add_assoc, Option.map_some,
          Option.getD_some]
  | fixed64 field data =>
      obtain ⟨small, eight⟩ := fits
      rw [bytes, List.append_assoc, decodeLoop, nextTag_writeTag small (by decide) rfl]
      simp only [takeField, apply, bind, Except.bind, skip]
      rw [if_pos (by rw [List.length_append]; omega)]
      simp only [advance, List.drop_left' eight, List.length_append, eight, Nat.add_assoc]
  | fixed32 field data =>
      obtain ⟨small, four⟩ := fits
      rw [bytes, List.append_assoc, decodeLoop, nextTag_writeTag small (by decide) rfl]
      simp only [takeField, apply, bind, Except.bind, skip]
      rw [if_pos (by rw [List.length_append]; omega)]
      simp only [advance, List.drop_left' four, List.length_append, four, Nat.add_assoc]

theorem decodeLoop_fields (arms : Arms Message) (fields : List WireField) :
    ∀ {fuel pos : Nat} {msg : Message}, fields.length < fuel → (∀ field ∈ fields, field.Fits) →
      pos + (fields.flatMap bytes).length < 2 ^ 64 →
      decodeLoop arms fuel msg ⟨pos, fields.flatMap bytes⟩ =
        .ok (fields.foldl (apply arms) msg) := by
  induction fields with
  | nil =>
      intro fuel pos msg enough _ _
      obtain ⟨fuel, rfl⟩ := Nat.exists_eq_succ_of_ne_zero (Nat.ne_of_gt enough)
      rfl
  | cons field fields ih =>
      intro fuel pos msg enough fits short
      obtain ⟨fuel, rfl⟩ := Nat.exists_eq_succ_of_ne_zero (Nat.ne_of_gt (Nat.zero_lt_of_lt enough))
      rw [List.flatMap_cons, List.length_append] at short
      rw [List.flatMap_cons,
        decodeLoop_bytes arms fuel msg (fits field List.mem_cons_self) _ (by omega),
        List.foldl_cons]
      exact ih (Nat.lt_of_succ_lt_succ enough)
        (fun other member => fits other (List.mem_cons_of_mem _ member)) (by omega)

theorem bytes_ne_nil (field : WireField) : field.bytes ≠ [] := by
  have tagged (number wire : Nat) : writeTag number wire ≠ [] := by
    rw [writeTag, writeVarint]
    split_ifs
    · exact List.cons_ne_nil _ _
    · exact List.cons_ne_nil _ _
  cases field <;> exact fun nil => tagged _ _ (List.append_eq_nil_iff.mp nil).1

theorem length_le_flatMap_bytes (fields : List WireField) :
    fields.length ≤ (fields.flatMap bytes).length := by
  induction fields with
  | nil => exact Nat.zero_le _
  | cons field fields ih =>
      have some_ := List.length_pos_iff.mpr (bytes_ne_nil field)
      rw [List.flatMap_cons, List.length_append, List.length_cons]
      omega

end WireField

/-- A part of the message that each field either sets or leaves as it is. -/
def Reads {View : Type} (arms : Arms Message) (view : Message → View)
    (reading : WireField → Option View) : Prop :=
  ∀ field msg, view (field.apply arms msg) = (reading field).getD (view msg)

theorem Reads.foldl {View : Type} {arms : Arms Message} {view : Message → View}
    {reading : WireField → Option View} (reads : Reads arms view reading)
    (fields : List WireField) : ∀ msg, view (fields.foldl (WireField.apply arms) msg) =
      ((fields.filterMap reading).getLast?).getD (view msg) := by
  induction fields with
  | nil => exact fun _ => rfl
  | cons field fields ih =>
      intro msg
      rw [List.foldl_cons, ih, reads]
      cases value : reading field with
      | none => rw [List.filterMap_cons_none value, Option.getD_none]
      | some value =>
          rw [List.filterMap_cons_some ‹_›, List.getLast?_cons]
          cases (fields.filterMap reading).getLast? <;> rfl

/-- Whatever fields a writer puts, in whatever order and however often, a decoder returns the
message in which each field it knows has the last value put for it. -/
theorem decodeWith_fields (arms : Arms Message) (default : Message) {fields : List WireField}
    (fits : ∀ field ∈ fields, field.Fits)
    (short : (fields.flatMap WireField.bytes).length < 2 ^ 64) :
    ∃ msg, decodeWith arms default (fields.flatMap WireField.bytes) = .ok msg ∧
      msg = fields.foldl (WireField.apply arms) default ∧
      ∀ (View : Type) (view : Message → View) reading, Reads arms view reading →
        view msg = ((fields.filterMap reading).getLast?).getD (view default) :=
  ⟨_, WireField.decodeLoop_fields arms fields
    (Nat.lt_succ_of_le (WireField.length_le_flatMap_bytes fields)) fits (by omega), rfl,
    fun _ _ _ reads => reads.foldl fields default⟩

/-- The partition that a writer puts for a published record. -/
def partitionPut : WireField → Option Nat
  | .varint 5 value => some (value % 2 ^ 32)
  | _ => none

theorem partition_reads : Reads PublishRequest.arms PublishRequest.partition partitionPut := by
  intro field msg
  cases field with
  | varint field value =>
      unfold WireField.apply PublishRequest.arms partitionPut
      dsimp only
      split <;> simp_all
  | len field data =>
      unfold WireField.apply PublishRequest.arms partitionPut
      dsimp only
      split <;> rfl
  | fixed64 field data => rfl
  | fixed32 field data => rfl

theorem decodeWith_fields_publish :
    ∃ msg, PublishRequest.decode
        ([.varint 5 3, .len 1 [0x74], .fixed32 9 [1, 2, 3, 4], .varint 5 7].flatMap
          WireField.bytes) = .ok msg ∧ msg = ⟨"t", [], [], false, 7⟩ ∧ msg.partition = 7 := by
  obtain ⟨msg, read, folded, last⟩ := decodeWith_fields PublishRequest.arms ⟨"", [], [], false, 0⟩
    (show ∀ field ∈ [WireField.varint 5 3, .len 1 [0x74], .fixed32 9 [1, 2, 3, 4], .varint 5 7],
      field.Fits by simp [WireField.Fits])
    (by simp [WireField.bytes, writeTag, writeVarint])
  exact ⟨msg, read, folded.trans (by decide +kernel), last _ _ _ partition_reads⟩

end Pantheon.Wire.Proto
