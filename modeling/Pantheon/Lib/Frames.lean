import Mathlib
import Pantheon.Lib.Bytes

/-!
# Logs of length-prefixed records

A frame is a payload behind its length in four big-endian bytes.  A reader takes
frames until fewer than four bytes are left and ignores those; a frame whose
payload ends early is an error.
-/

set_option autoImplicit false

namespace Pantheon.Lib

/-! ## 64-bit integers -/

def wrapSigned64 (value : Int) : Int := (value + 2 ^ 63) % 2 ^ 64 - 2 ^ 63

def IsSigned64 (value : Int) : Prop := -2 ^ 63 ≤ value ∧ value < 2 ^ 63

instance (value : Int) : Decidable (IsSigned64 value) :=
  inferInstanceAs (Decidable (_ ∧ _))

theorem wrapSigned64_of_isSigned64 {value : Int} (range : IsSigned64 value) :
    wrapSigned64 value = value := by
  obtain ⟨lower, upper⟩ := range
  unfold wrapSigned64
  omega

theorem isSigned64_wrapSigned64 (value : Int) : IsSigned64 (wrapSigned64 value) := by
  unfold IsSigned64 wrapSigned64
  omega

/-- `i64::to_be_bytes`. -/
def signedBytes (value : Int) : Bytes := beBytes 8 (value % 2 ^ 64).toNat

/-- `i64::from_be_bytes`. -/
def ofSignedBytes (bytes : Bytes) : Int := signed 8 (ofBe bytes)

theorem signedBytes_length (value : Int) : (signedBytes value).length = 8 := beBytes_length 8 _

theorem ofSignedBytes_signedBytes {value : Int} (range : IsSigned64 value) :
    ofSignedBytes (signedBytes value) = value := by
  obtain ⟨lower, upper⟩ := range
  have small : (value % 2 ^ 64).toNat < 256 ^ 8 := by omega
  rw [ofSignedBytes, signedBytes, ofBe_beBytes_of_lt 8 _ small, signed]
  split_ifs with positive
  · omega
  · omega

/-! ## Frames -/

def frame (payload : Bytes) : Bytes := beBytes 4 payload.length ++ payload

section Reading

variable {Value : Type} (decode : Bytes → Option Value)

def readFrames : Nat → Bytes → Option (List Value)
  | 0, _ => some []
  | fuel + 1, data =>
      match splitExact 4 data with
      | none => some []
      | some (header, body) =>
          match splitExact (ofBe header) body with
          | none => none
          | some (payload, rest) => do
              let value ← decode payload
              let values ← readFrames fuel rest
              some (value :: values)

/-- Every frame of the log, or none when one is broken. -/
def readLog (data : Bytes) : Option (List Value) := readFrames decode (data.length + 1) data

theorem readFrames_fuel : ∀ (fuel other : Nat) (data : Bytes), data.length < fuel →
    data.length < other → readFrames decode fuel data = readFrames decode other data := by
  intro fuel
  induction fuel with
  | zero => intro other data enough _; omega
  | succ fuel ih =>
      intro other data enough otherEnough
      cases other with
      | zero => omega
      | succ other =>
          simp only [readFrames]
          cases headerRead : splitExact 4 data with
          | none => rfl
          | some pair =>
              obtain ⟨header, body⟩ := pair
              obtain ⟨split, headerWidth⟩ := splitExact_eq_some 4 data header body headerRead
              have total : data.length = header.length + body.length := by
                rw [split, List.length_append]
              simp only
              cases bodyRead : splitExact (ofBe header) body with
              | none => rfl
              | some pair =>
                  obtain ⟨payload, rest⟩ := pair
                  obtain ⟨bodySplit, _⟩ := splitExact_eq_some _ body payload rest bodyRead
                  have bodyTotal : body.length = payload.length + rest.length := by
                    rw [bodySplit, List.length_append]
                  simp only
                  rw [ih other rest (by omega) (by omega)]

theorem readLog_short {data : Bytes} (short : data.length < 4) : readLog decode data = some [] := by
  have nothing : splitExact 4 data = none := (splitExact_eq_none 4 data).mpr short
  simp [readLog, readFrames, nothing]

theorem readLog_frame {payload : Bytes} (fits : payload.length < 2 ^ 32) (rest : Bytes) :
    readLog decode (frame payload ++ rest) =
      (decode payload).bind fun value => (readLog decode rest).map (value :: ·) := by
  have lengthRead : ofBe (beBytes 4 payload.length) = payload.length :=
    ofBe_beBytes_of_lt 4 _ (by omega)
  have enough : rest.length < (frame payload ++ rest).length := by
    simp only [frame, List.length_append, beBytes_length]
    omega
  rw [readLog, readFrames, frame, List.append_assoc, splitExact_beBytes]
  simp only [lengthRead, splitExact_append]
  cases decode payload with
  | none => rfl
  | some value =>
      simp only [Option.bind_some, Option.bind_eq_bind]
      rw [frame, List.append_assoc] at enough
      rw [readFrames_fuel decode _ (rest.length + 1) rest enough (Nat.lt_succ_self _), readLog]
      cases readFrames decode (rest.length + 1) rest <;> rfl

/-- A frame with its length but not all of its payload cannot be read. -/
theorem readLog_torn {payload : Bytes} (fits : payload.length < 2 ^ 32) {kept : Nat}
    (whole : 4 ≤ kept) (torn : kept < (frame payload).length) :
    readLog decode ((frame payload).take kept) = none := by
  have lengthRead : ofBe (beBytes 4 payload.length) = payload.length :=
    ofBe_beBytes_of_lt 4 _ (by omega)
  have cut : (frame payload).take kept =
      beBytes 4 payload.length ++ payload.take (kept - 4) := by
    rw [frame, List.take_append, beBytes_length, List.take_of_length_le]
    rw [beBytes_length]
    exact whole
  have missing : splitExact payload.length (payload.take (kept - 4)) = none := by
    rw [splitExact_eq_none, List.length_take]
    simp only [frame, List.length_append, beBytes_length] at torn
    omega
  rw [cut, readLog, readFrames, splitExact_beBytes]
  simp only [lengthRead, missing]

end Reading

/-! ## Codecs -/

/-- A serialisation that can be undone on the values it is meant for. -/
structure Codec (Value : Type) where
  serialize : Value → Bytes
  deserialize : Bytes → Option Value
  Valid : Value → Prop
  roundTrip : ∀ value, Valid value → deserialize (serialize value) = some value

namespace Codec

variable {Value : Type} (codec : Codec Value)

def Fits (value : Value) : Prop :=
  codec.Valid value ∧ (codec.serialize value).length < 2 ^ 32

def log (values : List Value) : Bytes := values.flatMap fun value => frame (codec.serialize value)

@[simp] theorem log_nil : codec.log [] = [] := rfl

theorem log_append (left right : List Value) :
    codec.log (left ++ right) = codec.log left ++ codec.log right := by
  simp [log]

theorem log_singleton (value : Value) : codec.log [value] = frame (codec.serialize value) := by
  simp [log]

theorem readLog_log : ∀ (values : List Value), (∀ value ∈ values, codec.Fits value) →
    ∀ rest : Bytes, readLog codec.deserialize (codec.log values ++ rest) =
      (readLog codec.deserialize rest).map (values ++ ·) := by
  intro values
  induction values with
  | nil => intro _ rest; simp
  | cons value values ih =>
      intro fits rest
      obtain ⟨valid, small⟩ := fits value (List.mem_cons_self ..)
      have others := ih (fun other member => fits other (List.mem_cons_of_mem _ member)) rest
      have split : codec.log (value :: values) ++ rest =
          frame (codec.serialize value) ++ (codec.log values ++ rest) := by
        simp [log]
      rw [split, readLog_frame codec.deserialize small, codec.roundTrip value valid, others]
      cases readLog codec.deserialize rest <;> rfl

end Codec

end Pantheon.Lib
