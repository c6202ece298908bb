import Mathlib
import Pantheon.Lib.Frames

/-!
# Compressed series: `storage/compress.rs`

Timestamps are stored as zigzag varints of their second differences, values as
the bits in which each differs from the one before.  Both decoders undo their
encoder: the differences because unchecked 64-bit arithmetic is a ring, the values
as long as their number fits the four bytes of the header.  A bit writer is
modelled with its pending byte, a bit reader by the bits it has not read yet.
-/

set_option autoImplicit false

namespace Pantheon.Keystone.Compress

open Pantheon.Lib

/-! ## Bits -/

/-- The `count` low bits of a number, most significant first. -/
def natBits : Nat → Nat → List Bool
  | 0, _ => []
  | count + 1, value => natBits count (value / 2) ++ [decide (value % 2 = 1)]

def ofBits (bits : List Bool) : Nat := bits.foldl (fun value bit => value * 2 + bit.toNat) 0

structure BitWriter where
  buf : Bytes
  cur : Nat
  nbits : Nat
deriving DecidableEq

namespace BitWriter

def new : BitWriter := ⟨[], 0, 0⟩

def writeBit (writer : BitWriter) (bit : Bool) : BitWriter :=
  let cur := (writer.cur * 2 + bit.toNat) % 256
  if writer.nbits + 1 = 8 then ⟨writer.buf ++ [UInt8.ofNat cur], 0, 0⟩
  else ⟨writer.buf, cur, writer.nbits + 1⟩

/-- The last byte is padded with zero bits. -/
def finish (writer : BitWriter) : Bytes × Nat :=
  if 0 < writer.nbits then
    (writer.buf ++ [UInt8.ofNat (writer.cur * 2 ^ (8 - writer.nbits) % 256)], writer.nbits)
  else (writer.buf, 0)

end BitWriter

def bitsOf (data : Bytes) : List Bool := data.flatMap fun byte => natBits 8 byte.toNat

/-- `read_bits`; where too few bits are left, the reader is at its end. -/
def readBits (count : Nat) (bits : List Bool) : Option Nat × List Bool :=
  if bits.length < count then (none, []) else (some (ofBits (bits.take count)), bits.drop count)

theorem natBits_length (count : Nat) : ∀ value : Nat, (natBits count value).length = count := by
  induction count with
  | zero => intro value; rfl
  | succ count ih => intro value; simp [natBits, ih]

theorem ofBits_natBits (count : Nat) : ∀ value : Nat,
    ofBits (natBits count value) = value % 2 ^ count := by
  induction count with
  | zero => intro value; simp [natBits, ofBits, Nat.mod_one]
  | succ count ih =>
      intro value
      have step : ofBits (natBits (count + 1) value) =
          ofBits (natBits count (value / 2)) * 2 + value % 2 := by
        simp only [natBits, ofBits, List.foldl_append, List.foldl_cons, List.foldl_nil]
        rcases Nat.mod_two_eq_zero_or_one value with even | odd
        · simp [even]
        · simp [odd]
      rw [step, ih, pow_succ, Nat.mul_comm (2 ^ count) 2, Nat.mod_mul]
      ring

theorem readBits_natBits (count value : Nat) (rest : List Bool) :
    readBits count (natBits count value ++ rest) = (some (value % 2 ^ count), rest) := by
  have length := natBits_length count value
  have enough : ¬ (natBits count value ++ rest).length < count := by
    rw [List.length_append, length]
    omega
  have taken : (natBits count value ++ rest).take count = natBits count value := by
    rw [List.take_append_of_le_length (by omega), List.take_of_length_le (by omega)]
  have dropped : (natBits count value ++ rest).drop count = rest := by
    rw [List.drop_append_of_le_length (by omega), List.drop_of_length_le (by omega),
      List.nil_append]
  rw [readBits, if_neg enough, taken, dropped, ofBits_natBits]

theorem natBits_shift (count value : Nat) : ∀ shift : Nat,
    natBits (count + shift) (value * 2 ^ shift) =
      natBits count value ++ List.replicate shift false := by
  intro shift
  induction shift with
  | zero => simp
  | succ shift ih =>
      have half : value * 2 ^ (shift + 1) / 2 = value * 2 ^ shift := by
        rw [pow_succ, ← Nat.mul_assoc, Nat.mul_div_cancel _ (by omega)]
      have even : value * 2 ^ (shift + 1) % 2 = 0 := by
        rw [pow_succ, ← Nat.mul_assoc, Nat.mul_mod_left]
      rw [← Nat.add_assoc, natBits, half, ih, even, List.replicate_succ', List.append_assoc]
      rfl

theorem bitsOf_append (left right : Bytes) : bitsOf (left ++ right) = bitsOf left ++ bitsOf right := by
  simp [bitsOf]

variable {value : Nat} {values : List Int}

theorem bitsOf_singleton (byte : value < 256) :
    bitsOf [UInt8.ofNat value] = natBits 8 value := by
  have exact : (UInt8.ofNat value).toNat = value := by
    rw [UInt8.toNat_ofNat']
    omega
  simp [bitsOf, exact]

namespace BitWriter

/-- Fewer than eight bits are pending, and nothing but them. -/
structure Pending (writer : BitWriter) : Prop where
  few : writer.nbits < 8
  small : writer.cur < 2 ^ writer.nbits

def toBits (writer : BitWriter) : List Bool :=
  bitsOf writer.buf ++ natBits writer.nbits writer.cur

theorem writeBit_toBits {writer : BitWriter} (pending : writer.Pending) (bit : Bool) :
    (writer.writeBit bit).Pending ∧ (writer.writeBit bit).toBits = writer.toBits ++ [bit] := by
  obtain ⟨few, small⟩ := pending
  have bound : writer.cur < 2 ^ 7 :=
    small.trans_le (Nat.pow_le_pow_right (by omega) (by omega))
  have bitBound : bit.toNat ≤ 1 := Bool.toNat_le bit
  have byte : writer.cur * 2 + bit.toNat < 256 := by omega
  have bits : ∀ count, natBits (count + 1) (writer.cur * 2 + bit.toNat) =
      natBits count writer.cur ++ [bit] := by
    intro count
    have half : (writer.cur * 2 + bit.toNat) / 2 = writer.cur := by omega
    have low : decide ((writer.cur * 2 + bit.toNat) % 2 = 1) = bit := by
      cases bit <;> simp [Nat.add_mod]
    rw [natBits, half, low]
  have exact : (writer.cur * 2 + bit.toNat) % 256 = writer.cur * 2 + bit.toNat :=
    Nat.mod_eq_of_lt byte
  simp only [writeBit, exact]
  split_ifs with full
  · have seven : writer.nbits = 7 := by omega
    have eight : natBits 8 (writer.cur * 2 + bit.toNat) = natBits 7 writer.cur ++ [bit] := bits 7
    have nothing : natBits 0 0 = [] := rfl
    refine ⟨⟨(by decide : 0 < 8), (by decide : 0 < 2 ^ 0)⟩, ?_⟩
    simp only [toBits, bitsOf_append, bitsOf_singleton byte, eight, seven, nothing,
      List.append_nil, List.append_assoc]
  · refine ⟨⟨by simp only; omega, ?_⟩, ?_⟩
    · simp only [pow_succ]
      omega
    · simp only [toBits, bits, List.append_assoc]

theorem write_toBits : ∀ (bits : List Bool) (writer : BitWriter), writer.Pending →
    (bits.foldl writeBit writer).Pending ∧
      (bits.foldl writeBit writer).toBits = writer.toBits ++ bits := by
  intro bits
  induction bits with
  | nil => intro writer pending; exact ⟨pending, by simp⟩
  | cons bit bits ih =>
      intro writer pending
      obtain ⟨next, written⟩ := writeBit_toBits pending bit
      obtain ⟨final, rest⟩ := ih _ next
      exact ⟨final, by rw [List.foldl_cons, rest, written, List.append_assoc, List.singleton_append]⟩

theorem bitsOf_finish {writer : BitWriter} (pending : writer.Pending) :
    ∃ padding, bitsOf writer.finish.1 = writer.toBits ++ padding := by
  obtain ⟨few, small⟩ := pending
  unfold finish
  split_ifs with partial_
  · have byte : writer.cur * 2 ^ (8 - writer.nbits) < 256 := by
      have shifted := Nat.mul_lt_mul_of_pos_right small
        (Nat.two_pow_pos (8 - writer.nbits))
      rw [← pow_add] at shifted
      have width : writer.nbits + (8 - writer.nbits) = 8 := by omega
      rw [width] at shifted
      exact shifted
    refine ⟨List.replicate (8 - writer.nbits) false, ?_⟩
    have shift := natBits_shift writer.nbits writer.cur (8 - writer.nbits)
    have width : writer.nbits + (8 - writer.nbits) = 8 := by omega
    rw [width] at shift
    simp only [Nat.mod_eq_of_lt byte, bitsOf_append, bitsOf_singleton byte, shift, toBits,
      List.append_assoc]
  · have none_ : writer.nbits = 0 := by omega
    exact ⟨[], by simp [toBits, none_, natBits]⟩

end BitWriter

/-! ## Values: XOR against the one before -/

def leadingZeros (value : Nat) : Nat := 63 - Nat.log2 value

def trailingZeros (value : Nat) : Nat :=
  ((List.range 64).find? fun index => value.testBit index).getD 64

/-- The bits of the values behind the first.  A leading count of 65 stands for no
window yet. -/
def gorillaBits : Nat → Nat → Nat → List Nat → List Bool
  | _, _, _, [] => []
  | prev, prevLeading, prevTrailing, value :: values =>
      let xor := value ^^^ prev
      if xor = 0 then false :: gorillaBits value prevLeading prevTrailing values
      else
        let leading := leadingZeros xor
        let trailing := trailingZeros xor
        if prevLeading ≠ 65 ∧ prevLeading ≤ leading ∧ prevTrailing ≤ trailing then
          true :: false :: (natBits (64 - prevLeading - prevTrailing) (xor / 2 ^ prevTrailing) ++
            gorillaBits value prevLeading prevTrailing values)
        else
          let meaningful := 64 - leading - trailing
          true :: true :: (natBits 6 leading ++ (natBits 6 meaningful ++
            (natBits meaningful (xor / 2 ^ trailing) ++ gorillaBits value leading trailing values)))

def gorillaEncode : List Nat → Bytes
  | [] => []
  | first :: rest =>
      let bits := natBits 64 first ++ gorillaBits first 65 0 rest
      let (bytes, validLastBits) := (bits.foldl BitWriter.writeBit BitWriter.new).finish
      beBytes 4 (first :: rest).length ++ [UInt8.ofNat validLastBits] ++ bytes

def gorillaXor (bits : List Bool) (prev leading trailing : Nat) : Nat × List Bool :=
  let (read, bits) := readBits (64 - leading - trailing) bits
  (prev ^^^ (read.getD 0 * 2 ^ trailing % 2 ^ 64), bits)

def gorillaLoop : Nat → List Bool → Nat → Nat → Nat → List Nat
  | 0, _, _, _, _ => []
  | _ + 1, [], _, _, _ => []
  | count + 1, false :: bits, prev, leading, trailing =>
      prev :: gorillaLoop count bits prev leading trailing
  | _ + 1, [true], _, _, _ => []
  | count + 1, true :: false :: bits, prev, leading, trailing =>
      let (value, bits) := gorillaXor bits prev leading trailing
      value :: gorillaLoop count bits value leading trailing
  | count + 1, true :: true :: bits, prev, _, _ =>
      let (leading, bits) := readBits 6 bits
      let (raw, bits) := readBits 6 bits
      let leading := leading.getD 0
      let meaningful := if raw.getD 0 = 0 then 64 else raw.getD 0
      let trailing := 64 - leading - meaningful
      let (value, bits) := gorillaXor bits prev leading trailing
      value :: gorillaLoop count bits value leading trailing

def gorillaDecode (data : Bytes) : List Nat :=
  if data.length < 5 then []
  else
    match ofBe (data.take 4) with
    | 0 => []
    | count + 1 =>
        let (first, bits) := readBits 64 (bitsOf (data.drop 5))
        first.getD 0 :: gorillaLoop count bits (first.getD 0) 65 0

theorem lt_leadingZeros (small : value < 2 ^ 64) (nonzero : value ≠ 0) :
    leadingZeros value < 64 ∧ value < 2 ^ (64 - leadingZeros value) := by
  have bound : Nat.log2 value < 64 := (Nat.log2_lt nonzero).mpr small
  have exact : 64 - leadingZeros value = Nat.log2 value + 1 := by
    unfold leadingZeros
    omega
  refine ⟨by unfold leadingZeros; omega, ?_⟩
  rw [exact]
  exact Nat.lt_log2_self

theorem trailingZeros_spec (small : value < 2 ^ 64) (nonzero : value ≠ 0) :
    leadingZeros value + trailingZeros value < 64 ∧ 2 ^ trailingZeros value ∣ value := by
  have bound : Nat.log2 value < 64 := (Nat.log2_lt nonzero).mpr small
  have top : value.testBit (Nat.log2 value) = true := Nat.testBit_log2 nonzero
  cases found : (List.range 64).find? fun index => value.testBit index with
  | none =>
      have absent := List.find?_eq_none.mp found (Nat.log2 value) (List.mem_range.mpr bound)
      exact absurd top absent
  | some index =>
      have exact : trailingZeros value = index := by rw [trailingZeros, found, Option.getD_some]
      obtain ⟨_, before, after, split, zeros⟩ := List.find?_eq_some_iff_append.mp found
      have position : before.length = index := by
        have here := congrArg (fun list => list[before.length]?) split
        have inside : before.length < 64 := by
          have total := congrArg List.length split
          simp only [List.length_range, List.length_append, List.length_cons] at total
          omega
        simp only [List.getElem?_range inside, List.getElem?_append_right (le_refl _), Nat.sub_self,
          List.getElem?_cons_zero, Option.some.injEq] at here
        exact here
      have below : ∀ lower < index, value.testBit lower = false := by
        intro lower smaller
        have inside : lower < before.length := by omega
        have listed : before[lower]? = some lower := by
          have here := congrArg (fun list => list[lower]?) split
          simp only [List.getElem?_append_left inside,
            List.getElem?_range (show lower < 64 by
              have total := congrArg List.length split
              simp only [List.length_range, List.length_append, List.length_cons] at total
              omega)] at here
          exact here.symm
        have unset := zeros lower (List.mem_of_getElem? listed)
        simpa using unset
      have least : index ≤ Nat.log2 value := by
        by_contra above
        have unset := below (Nat.log2 value) (by omega)
        rw [top] at unset
        cases unset
      rw [exact]
      refine ⟨by unfold leadingZeros; omega, Nat.dvd_of_mod_eq_zero ?_⟩
      apply Nat.eq_of_testBit_eq
      intro bit
      rw [Nat.testBit_mod_two_pow, Nat.zero_testBit]
      by_cases lower : bit < index
      · rw [below bit lower, Bool.and_false]
      · rw [decide_eq_false lower, Bool.false_and]

theorem gorillaXor_window {prev leading trailing : Nat} (small : value < 2 ^ 64)
    (prevSmall : prev < 2 ^ 64) (fits : value ^^^ prev < 2 ^ (64 - leading))
    (divides : 2 ^ trailing ∣ value ^^^ prev) (window : leading + trailing < 64)
    (rest : List Bool) :
    gorillaXor (natBits (64 - leading - trailing) ((value ^^^ prev) / 2 ^ trailing) ++ rest) prev
        leading trailing = (value, rest) := by
  have width : 2 ^ (64 - leading) = 2 ^ (64 - leading - trailing) * 2 ^ trailing := by
    rw [← pow_add]
    congr 1
    omega
  have inside : (value ^^^ prev) / 2 ^ trailing < 2 ^ (64 - leading - trailing) := by
    rw [Nat.div_lt_iff_lt_mul (Nat.two_pow_pos trailing), ← width]
    exact fits
  have whole : (value ^^^ prev) / 2 ^ trailing * 2 ^ trailing = value ^^^ prev :=
    Nat.div_mul_cancel divides
  have xorSmall : value ^^^ prev < 2 ^ 64 := Nat.xor_lt_two_pow small prevSmall
  simp only [gorillaXor, readBits_natBits, Nat.mod_eq_of_lt inside, Option.getD_some, whole,
    Nat.mod_eq_of_lt xorSmall]
  rw [Nat.xor_comm value prev, Nat.xor_xor_cancel_left]

def Window (leading trailing : Nat) : Prop := leading = 65 ∨ leading + trailing < 64

theorem gorillaLoop_gorillaBits : ∀ (values : List Nat) (prev leading trailing : Nat)
    (padding : List Bool), prev < 2 ^ 64 → (∀ value ∈ values, value < 2 ^ 64) →
    Window leading trailing →
    gorillaLoop values.length (gorillaBits prev leading trailing values ++ padding) prev leading
      trailing = values := by
  intro values
  induction values with
  | nil => intros; rfl
  | cons value values ih =>
      intro prev leading trailing padding prevSmall allSmall window
      have small := allSmall value List.mem_cons_self
      have others := fun other member => allSmall other (List.mem_cons_of_mem _ member)
      by_cases same : value ^^^ prev = 0
      · have equal : prev = value := (Nat.xor_eq_zero_iff.mp same).symm
        have rest := ih value leading trailing padding small others window
        simp only [gorillaBits, same, if_true, List.cons_append, List.length_cons, gorillaLoop]
        rw [equal, rest]
      · have xorSmall : value ^^^ prev < 2 ^ 64 := Nat.xor_lt_two_pow small prevSmall
        obtain ⟨leadingSmall, fits⟩ := lt_leadingZeros xorSmall same
        obtain ⟨newWindow, divides⟩ := trailingZeros_spec xorSmall same
        by_cases reuse : leading ≠ 65 ∧ leading ≤ leadingZeros (value ^^^ prev) ∧
            trailing ≤ trailingZeros (value ^^^ prev)
        · obtain ⟨present, lower, upper⟩ := reuse
          have inside : leading + trailing < 64 := window.resolve_left present
          have wider : value ^^^ prev < 2 ^ (64 - leading) :=
            fits.trans_le (Nat.pow_le_pow_right (by omega) (by omega))
          have coarser : 2 ^ trailing ∣ value ^^^ prev := (pow_dvd_pow 2 upper).trans divides
          have rest := ih value leading trailing padding small others window
          have read := gorillaXor_window small prevSmall wider coarser inside
            (gorillaBits value leading trailing values ++ padding)
          simp only [gorillaBits, same, if_false, if_pos (And.intro present (And.intro lower upper)),
            List.cons_append, List.append_assoc, List.length_cons, gorillaLoop, read, rest]
        · have rest := ih value (leadingZeros (value ^^^ prev)) (trailingZeros (value ^^^ prev))
            padding small others (Or.inr newWindow)
          have read := gorillaXor_window small prevSmall fits divides newWindow
            (gorillaBits value (leadingZeros (value ^^^ prev)) (trailingZeros (value ^^^ prev)) values
              ++ padding)
          have leadingRead : leadingZeros (value ^^^ prev) % 2 ^ 6 =
              leadingZeros (value ^^^ prev) := Nat.mod_eq_of_lt (by omega)
          -- A window of all 64 bits is written as zero.
          have widthRead : (if (64 - leadingZeros (value ^^^ prev) -
                trailingZeros (value ^^^ prev)) % 2 ^ 6 = 0 then 64
              else (64 - leadingZeros (value ^^^ prev) - trailingZeros (value ^^^ prev)) % 2 ^ 6) =
              64 - leadingZeros (value ^^^ prev) - trailingZeros (value ^^^ prev) := by
            split_ifs <;> omega
          have trailingRead : 64 - leadingZeros (value ^^^ prev) -
              (64 - leadingZeros (value ^^^ prev) - trailingZeros (value ^^^ prev)) =
              trailingZeros (value ^^^ prev) := by omega
          simp only [gorillaBits, same, if_false, if_neg reuse, List.cons_append, List.append_assoc,
            List.length_cons, gorillaLoop, readBits_natBits, Option.getD_some, leadingRead, widthRead,
            trailingRead, read, rest]

theorem gorillaDecode_header {count : Nat} (fits : count + 1 < 2 ^ 32) (valid : UInt8)
    (bytes : Bytes) :
    gorillaDecode (beBytes 4 (count + 1) ++ [valid] ++ bytes) =
      ((readBits 64 (bitsOf bytes)).1.getD 0) ::
        gorillaLoop count (readBits 64 (bitsOf bytes)).2 ((readBits 64 (bitsOf bytes)).1.getD 0)
          65 0 := by
  have front : (beBytes 4 (count + 1) ++ [valid]).length = 5 := by simp
  have long : ¬ (beBytes 4 (count + 1) ++ [valid] ++ bytes).length < 5 := by
    rw [List.length_append, front]
    omega
  have header : (beBytes 4 (count + 1) ++ [valid] ++ bytes).take 4 = beBytes 4 (count + 1) := by
    rw [List.append_assoc, List.take_append_of_le_length (by simp), List.take_of_length_le (by simp)]
  have body : (beBytes 4 (count + 1) ++ [valid] ++ bytes).drop 5 = bytes := by
    rw [← front, List.drop_left]
  rw [gorillaDecode, if_neg long, header, body, ofBe_beBytes_of_lt 4 _ (by omega)]

theorem gorillaDecode_gorillaEncode {values : List Nat} (count : values.length < 2 ^ 32)
    (small : ∀ value ∈ values, value < 2 ^ 64) : gorillaDecode (gorillaEncode values) = values := by
  cases values with
  | nil => rfl
  | cons first rest =>
      have firstSmall := small first List.mem_cons_self
      obtain ⟨pending, written⟩ := BitWriter.write_toBits
        (natBits 64 first ++ gorillaBits first 65 0 rest) BitWriter.new ⟨by decide, by decide⟩
      obtain ⟨padding, bits⟩ := BitWriter.bitsOf_finish pending
      have loop := gorillaLoop_gorillaBits rest first 65 0 padding firstSmall
        (fun value member => small value (List.mem_cons_of_mem _ member)) (Or.inl rfl)
      have fresh : BitWriter.new.toBits = [] := rfl
      rw [written, fresh, List.nil_append, List.append_assoc] at bits
      rw [List.length_cons] at count
      rw [gorillaEncode, List.length_cons, gorillaDecode_header count, bits, readBits_natBits]
      simp only [Option.getD_some, Nat.mod_eq_of_lt firstSmall, loop]

/-- Bit patterns of any doubles survive: NaNs, infinities and both zeros. -/
theorem gorilla_round_trip (values : List UInt64) (count : values.length < 2 ^ 32) :
    gorillaDecode (gorillaEncode (values.map UInt64.toNat)) = values.map UInt64.toNat := by
  refine gorillaDecode_gorillaEncode (by rwa [List.length_map]) ?_
  intro value member
  obtain ⟨pattern, _, rfl⟩ := List.mem_map.mp member
  exact pattern.toNat_lt

theorem gorilla_round_trip_special :
    gorillaDecode (gorillaEncode ([0x7FF8000000000001, 0x8000000000000000, 0, 0x7FF0000000000000,
      0xFFF0000000000000, 0x7FFFFFFFFFFFFFFF, 1, 1].map UInt64.toNat)) =
      [0x7FF8000000000001, 0x8000000000000000, 0, 0x7FF0000000000000,
        0xFFF0000000000000, 0x7FFFFFFFFFFFFFFF, 1, 1].map UInt64.toNat :=
  gorilla_round_trip _ (by decide)

/-! ## Timestamps: second differences -/

def zigzagEncode (value : Int) : Nat :=
  if 0 ≤ value then (2 * value).toNat else (-2 * value - 1).toNat

def zigzagDecode (value : Nat) : Int :=
  if value % 2 = 0 then (value / 2 : Nat) else -((value / 2 : Nat) : Int) - 1

def varintBytes : Nat → Nat → Bytes
  | 0, _ => []
  | fuel + 1, value =>
      if value / 128 = 0 then [UInt8.ofNat (value % 128)]
      else UInt8.ofNat (value % 128 + 128) :: varintBytes fuel (value / 128)

def writeVarint (value : Nat) : Bytes := varintBytes 10 value

def readVarintFrom : Nat → Nat → Bytes → Option (Nat × Bytes)
  | _, _, [] => none
  | shift, result, byte :: rest =>
      let result := result ||| byte.toNat % 128 * 2 ^ (shift % 64) % 2 ^ 64
      if byte.toNat < 128 then some (result, rest) else readVarintFrom (shift + 7) result rest

def readVarint (data : Bytes) : Option (Nat × Bytes) := readVarintFrom 0 0 data

def secondDifferences : Int → Int → List Int → Bytes
  | _, _, [] => []
  | prev, prevDelta, value :: values =>
      let delta := wrapSigned64 (value - prev)
      writeVarint (zigzagEncode (wrapSigned64 (delta - prevDelta))) ++
        secondDifferences value delta values

def deltaDeltaEncode : List Int → Bytes
  | [] => writeVarint 0
  | [first] => writeVarint 1 ++ writeVarint (zigzagEncode first)
  | first :: second :: rest =>
      let delta := wrapSigned64 (second - first)
      writeVarint (first :: second :: rest).length ++ (writeVarint (zigzagEncode first) ++
        (writeVarint (zigzagEncode delta) ++ secondDifferences second delta rest))

def deltaDeltaLoop : Nat → Bytes → Int → Int → List Int
  | 0, _, _, _ => []
  | count + 1, data, prev, prevDelta =>
      match readVarint data with
      | none => []
      | some (raw, data) =>
          let delta := wrapSigned64 (prevDelta + zigzagDecode raw)
          let value := wrapSigned64 (prev + delta)
          value :: deltaDeltaLoop count data value delta

/-- The first difference is read as a second difference from zero. -/
def deltaDeltaDecode (data : Bytes) : List Int :=
  match readVarint data with
  | none => []
  | some (0, _) => []
  | some (count + 1, data) =>
      match readVarint data with
      | none => []
      | some (raw, data) =>
          zigzagDecode raw :: deltaDeltaLoop count data (zigzagDecode raw) 0

theorem zigzagEncode_shifts {value : Int} (range : IsSigned64 value) :
    zigzagEncode value =
      (BitVec.ofInt 64 value <<< 1 ^^^ (BitVec.ofInt 64 value).sshiftRight 63).toNat := by
  obtain ⟨lower, upper⟩ := range
  have word : ((BitVec.ofInt 64 value).toNat : Int) = value % 2 ^ 64 := by
    rw [BitVec.toNat_ofInt]
    omega
  have shifted : (BitVec.ofInt 64 value <<< 1).toNat = (BitVec.ofInt 64 value).toNat * 2 % 2 ^ 64 := by
    rw [BitVec.toNat_shiftLeft, Nat.shiftLeft_eq]
  unfold zigzagEncode
  by_cases negative : 0 ≤ value
  · have high : (BitVec.ofInt 64 value).msb = false := by
      rw [BitVec.msb_eq_false_iff_two_mul_lt]
      omega
    have sign : (BitVec.ofInt 64 value).sshiftRight 63 = 0#64 := by
      rw [BitVec.sshiftRight_eq_of_msb_false high]
      apply BitVec.eq_of_toNat_eq
      rw [BitVec.toNat_ushiftRight, Nat.shiftRight_eq_div_pow]
      simp only [BitVec.toNat_ofNat]
      omega
    rw [sign, BitVec.xor_zero, shifted, if_pos negative]
    omega
  · have high : (BitVec.ofInt 64 value).msb = true := by
      rw [BitVec.msb_eq_true_iff_two_mul_ge]
      omega
    have sign : (BitVec.ofInt 64 value).sshiftRight 63 = BitVec.allOnes 64 := by
      rw [BitVec.sshiftRight_eq_of_msb_true high]
      apply BitVec.eq_of_toNat_eq
      rw [BitVec.toNat_not, BitVec.toNat_ushiftRight, Nat.shiftRight_eq_div_pow, BitVec.toNat_not,
        BitVec.toNat_allOnes]
      omega
    rw [sign, BitVec.xor_allOnes, BitVec.toNat_not, shifted, if_neg negative]
    omega

theorem zigzagDecode_shifts (small : value < 2 ^ 64) :
    zigzagDecode value =
      (BitVec.ofNat 64 value >>> 1 ^^^ -(BitVec.ofNat 64 value &&& 1#64)).toInt := by
  have half : (BitVec.ofNat 64 value >>> 1).toNat = value / 2 := by
    rw [BitVec.toNat_ushiftRight, Nat.shiftRight_eq_div_pow, BitVec.toNat_ofNat]
    omega
  have low : (BitVec.ofNat 64 value &&& 1#64).toNat = value % 2 := by
    rw [BitVec.toNat_and, BitVec.toNat_ofNat, Nat.mod_eq_of_lt small]
    exact Nat.and_one_is_mod value
  unfold zigzagDecode
  rcases Nat.mod_two_eq_zero_or_one value with even | odd
  · have mask : -(BitVec.ofNat 64 value &&& 1#64) = 0#64 := by
      apply BitVec.eq_of_toNat_eq
      rw [BitVec.toNat_neg, low, even]
      rfl
    rw [mask, BitVec.xor_zero, if_pos even, BitVec.toInt_eq_toNat_cond, half]
    split_ifs <;> omega
  · have mask : -(BitVec.ofNat 64 value &&& 1#64) = BitVec.allOnes 64 := by
      apply BitVec.eq_of_toNat_eq
      rw [BitVec.toNat_neg, low, odd, BitVec.toNat_allOnes]
    rw [mask, BitVec.xor_allOnes, if_neg (by omega), BitVec.toInt_eq_toNat_cond, BitVec.toNat_not,
      half]
    split_ifs <;> omega

theorem zigzagDecode_zigzagEncode (value : Int) : zigzagDecode (zigzagEncode value) = value := by
  unfold zigzagDecode zigzagEncode
  split_ifs <;> omega

theorem zigzagEncode_lt {value : Int} (range : IsSigned64 value) : zigzagEncode value < 2 ^ 64 := by
  obtain ⟨lower, upper⟩ := range
  unfold zigzagEncode
  split_ifs <;> omega

theorem or_varint (value shift : Nat) :
    value % 128 * 2 ^ shift ||| value / 128 * 2 ^ (shift + 7) = value * 2 ^ shift := by
  have low : value % 128 < 2 ^ 7 := Nat.mod_lt _ (by decide)
  have digits := Nat.shiftLeft_add_eq_or_of_lt low (value / 128)
  rw [Nat.shiftLeft_eq] at digits
  have whole : value / 128 * 2 ^ 7 + value % 128 = value := by omega
  calc value % 128 * 2 ^ shift ||| value / 128 * 2 ^ (shift + 7)
      = (value % 128) <<< shift ||| (value / 128 * 2 ^ 7) <<< shift := by
        rw [Nat.shiftLeft_eq, Nat.shiftLeft_eq, pow_add, mul_assoc, mul_comm (2 ^ shift) (2 ^ 7)]
    _ = (value / 128 * 2 ^ 7 ||| value % 128) <<< shift := by
        rw [← Nat.shiftLeft_or_distrib, Nat.or_comm]
    _ = value * 2 ^ shift := by rw [← digits, whole, Nat.shiftLeft_eq]

theorem readVarintFrom_varintBytes : ∀ (fuel value shift result : Nat) (rest : Bytes),
    value < 128 ^ fuel → 0 < fuel → shift < 64 → value * 2 ^ shift < 2 ^ 64 →
    readVarintFrom shift result (varintBytes fuel value ++ rest) =
      some (result ||| value * 2 ^ shift, rest) := by
  intro fuel
  induction fuel with
  | zero => intro value shift result rest _ positive; omega
  | succ fuel ih =>
      intro value shift result rest short _ within small
      have masked : shift % 64 = shift := Nat.mod_eq_of_lt within
      have lowSmall : value % 128 * 2 ^ shift < 2 ^ 64 :=
        lt_of_le_of_lt (Nat.mul_le_mul_right _ (Nat.mod_le _ _)) small
      unfold varintBytes
      by_cases last : value / 128 = 0
      · have low : (UInt8.ofNat (value % 128)).toNat = value := by
          rw [UInt8.toNat_ofNat']
          omega
        have single : value < 128 := by omega
        rw [if_pos last, List.singleton_append, readVarintFrom, low, if_pos single, masked]
        rw [Nat.mod_eq_of_lt single, Nat.mod_eq_of_lt small]
      · have byte : (UInt8.ofNat (value % 128 + 128)).toNat = value % 128 + 128 := by
          rw [UInt8.toNat_ofNat']
          omega
        have digit : (value % 128 + 128) % 128 = value % 128 := by omega
        have shorter : value / 128 < 128 ^ fuel := by
          rw [pow_succ] at short
          exact Nat.div_lt_of_lt_mul (by rw [Nat.mul_comm]; exact short)
        have more : 0 < fuel := by
          rcases Nat.eq_zero_or_pos fuel with none_ | positive
          · rw [none_, pow_zero] at shorter
            omega
          · exact positive
        have highSmall : value / 128 * 2 ^ (shift + 7) < 2 ^ 64 := by
          refine lt_of_le_of_lt ?_ small
          rw [pow_add, ← mul_assoc, mul_comm _ (2 ^ 7), ← mul_assoc]
          refine Nat.mul_le_mul_right _ ?_
          omega
        have further : shift + 7 < 64 := by
          by_contra beyond
          have power : 2 ^ 64 ≤ 2 ^ (shift + 7) := Nat.pow_le_pow_right (by decide) (by omega)
          have factor := Nat.mul_le_mul_right (2 ^ (shift + 7)) (Nat.pos_of_ne_zero last)
          omega
        have continues : ¬ value % 128 + 128 < 128 := by omega
        have rest_ := ih (value / 128) (shift + 7) (result ||| value % 128 * 2 ^ shift) rest shorter
          more further highSmall
        rw [if_neg last, List.cons_append, readVarintFrom, byte, if_neg continues, masked, digit,
          Nat.mod_eq_of_lt lowSmall, rest_, Nat.or_assoc, or_varint]

theorem readVarint_writeVarint (small : value < 2 ^ 64) (rest : Bytes) :
    readVarint (writeVarint value ++ rest) = some (value, rest) := by
  have read := readVarintFrom_varintBytes 10 value 0 0 rest (by omega) (by decide) (by decide)
    (by omega)
  rw [pow_zero, Nat.mul_one, Nat.zero_or] at read
  exact read

theorem readVarint_zigzag {value : Int} (range : IsSigned64 value) (rest : Bytes) :
    readVarint (writeVarint (zigzagEncode value) ++ rest) = some (zigzagEncode value, rest) :=
  readVarint_writeVarint (zigzagEncode_lt range) rest

theorem wrapSigned64_add_sub (left right : Int) :
    wrapSigned64 (left + wrapSigned64 (right - left)) = wrapSigned64 right := by
  unfold wrapSigned64
  omega

theorem deltaDeltaLoop_secondDifferences : ∀ (values : List Int) (prev prevDelta : Int),
    (∀ value ∈ values, IsSigned64 value) →
    deltaDeltaLoop values.length (secondDifferences prev prevDelta values) prev prevDelta =
      values := by
  intro values
  induction values with
  | nil => intros; rfl
  | cons value values ih =>
      intro prev prevDelta ranges
      have here := ranges value List.mem_cons_self
      have others := ih value (wrapSigned64 (value - prev))
        fun other member => ranges other (List.mem_cons_of_mem _ member)
      have read := readVarint_zigzag
        (isSigned64_wrapSigned64 (wrapSigned64 (value - prev) - prevDelta))
        (secondDifferences value (wrapSigned64 (value - prev)) values)
      have delta : wrapSigned64 (prevDelta + wrapSigned64 (wrapSigned64 (value - prev) - prevDelta)) =
          wrapSigned64 (value - prev) := by
        rw [wrapSigned64_add_sub, wrapSigned64_of_isSigned64 (isSigned64_wrapSigned64 _)]
      have exact : wrapSigned64 (prev + wrapSigned64 (value - prev)) = value := by
        rw [wrapSigned64_add_sub, wrapSigned64_of_isSigned64 here]
      simp only [List.length_cons, secondDifferences, deltaDeltaLoop, read,
        zigzagDecode_zigzagEncode, delta, exact, others]

theorem deltaDeltaDecode_deltaDeltaEncode (count : values.length < 2 ^ 64)
    (ranges : ∀ value ∈ values, IsSigned64 value) :
    deltaDeltaDecode (deltaDeltaEncode values) = values := by
  match values, count, ranges with
  | [], _, _ => rfl
  | [first], _, ranges =>
      have counted := readVarint_writeVarint (show 1 < 2 ^ 64 by decide)
        (writeVarint (zigzagEncode first))
      have read := readVarint_zigzag (ranges first (by simp)) []
      rw [List.append_nil] at read
      simp only [deltaDeltaEncode, deltaDeltaDecode, counted, read, zigzagDecode_zigzagEncode,
        deltaDeltaLoop]
  | first :: second :: rest, count, ranges =>
      have firstRange := ranges first (by simp)
      have secondRange := ranges second (by simp)
      have counted := readVarint_writeVarint count (writeVarint (zigzagEncode first) ++
        (writeVarint (zigzagEncode (wrapSigned64 (second - first))) ++
          secondDifferences second (wrapSigned64 (second - first)) rest))
      have firstRead := readVarint_zigzag firstRange
        (writeVarint (zigzagEncode (wrapSigned64 (second - first))) ++
          secondDifferences second (wrapSigned64 (second - first)) rest)
      have deltaRead := readVarint_zigzag (isSigned64_wrapSigned64 (second - first))
        (secondDifferences second (wrapSigned64 (second - first)) rest)
      have loop := deltaDeltaLoop_secondDifferences rest second (wrapSigned64 (second - first))
        fun value member => ranges value (by simp [member])
      have delta : wrapSigned64 (0 + wrapSigned64 (second - first)) = wrapSigned64 (second - first) := by
        rw [zero_add, wrapSigned64_of_isSigned64 (isSigned64_wrapSigned64 _)]
      have exact : wrapSigned64 (first + wrapSigned64 (second - first)) = second := by
        rw [wrapSigned64_add_sub, wrapSigned64_of_isSigned64 secondRange]
      simp only [List.length_cons] at counted
      simp only [deltaDeltaEncode, deltaDeltaDecode, List.length_cons, counted, firstRead,
        zigzagDecode_zigzagEncode, deltaDeltaLoop, deltaRead, delta, exact, loop]

/-! ### Differences in builds that check for overflow -/

def checkedSub (left right : Int) : Option Int :=
  if IsSigned64 (left - right) then some (left - right) else none

def checkedAdd (left right : Int) : Option Int :=
  if IsSigned64 (left + right) then some (left + right) else none

def checkedSecondDifferences : Int → Int → List Int → Option Bytes
  | _, _, [] => some []
  | prev, prevDelta, value :: values => do
      let delta ← checkedSub value prev
      let second ← checkedSub delta prevDelta
      let rest ← checkedSecondDifferences value delta values
      some (writeVarint (zigzagEncode second) ++ rest)

/-- `delta_delta_encode` where an overflow panics, which is `none`. -/
def checkedDeltaDeltaEncode : List Int → Option Bytes
  | [] => some (writeVarint 0)
  | [first] => some (writeVarint 1 ++ writeVarint (zigzagEncode first))
  | first :: second :: rest => do
      let delta ← checkedSub second first
      let seconds ← checkedSecondDifferences second delta rest
      some (writeVarint (first :: second :: rest).length ++ (writeVarint (zigzagEncode first) ++
        (writeVarint (zigzagEncode delta) ++ seconds)))

def checkedDeltaDeltaLoop : Nat → Bytes → Int → Int → Option (List Int)
  | 0, _, _, _ => some []
  | count + 1, data, prev, prevDelta =>
      match readVarint data with
      | none => some []
      | some (raw, data) => do
          let delta ← checkedAdd prevDelta (zigzagDecode raw)
          let value ← checkedAdd prev delta
          let values ← checkedDeltaDeltaLoop count data value delta
          some (value :: values)

/-- `delta_delta_decode` where an overflow panics, which is `none`. -/
def checkedDeltaDeltaDecode (data : Bytes) : Option (List Int) :=
  match readVarint data with
  | none => some []
  | some (0, _) => some []
  | some (count + 1, data) =>
      match readVarint data with
      | none => some []
      | some (raw, data) => do
          let values ← checkedDeltaDeltaLoop count data (zigzagDecode raw) 0
          some (zigzagDecode raw :: values)

def differences (values : List Int) : List Int :=
  List.zipWith (fun prev value => value - prev) values values.tail

/-- The first and the second differences are 64-bit integers. -/
def DifferencesFit (values : List Int) : Prop :=
  (∀ delta ∈ differences values, IsSigned64 delta) ∧
    ∀ second ∈ differences (differences values), IsSigned64 second

instance (values : List Int) : Decidable (DifferencesFit values) :=
  inferInstanceAs (Decidable (_ ∧ _))

theorem differences_cons (first second : Int) (rest : List Int) :
    differences (first :: second :: rest) = (second - first) :: differences (second :: rest) := rfl

theorem checkedSecondDifferences_eq : ∀ (values : List Int) (prev prevDelta : Int),
    checkedSecondDifferences prev prevDelta values =
      if (∀ delta ∈ differences (prev :: values), IsSigned64 delta) ∧
          ∀ second ∈ differences (prevDelta :: differences (prev :: values)), IsSigned64 second
      then some (secondDifferences prev prevDelta values) else none := by
  intro values
  induction values with
  | nil => intro prev prevDelta; simp [checkedSecondDifferences, secondDifferences, differences]
  | cons value values ih =>
      intro prev prevDelta
      have step := ih value (value - prev)
      by_cases first : IsSigned64 (value - prev)
      · by_cases second : IsSigned64 (value - prev - prevDelta)
        · rw [checkedSecondDifferences, checkedSub, if_pos first]
          simp only [Option.bind_eq_bind, Option.bind_some, checkedSub, step,
            differences_cons, List.forall_mem_cons, first, second, true_and, secondDifferences,
            wrapSigned64_of_isSigned64 first, wrapSigned64_of_isSigned64 second]
          split_ifs <;> rfl
        · rw [checkedSecondDifferences, checkedSub, if_pos first]
          simp only [Option.bind_eq_bind, Option.bind_some, checkedSub,
            Option.bind_none, differences_cons, List.forall_mem_cons, second, false_and, and_false,
            if_false]
      · rw [checkedSecondDifferences, checkedSub, if_neg first]
        simp only [Option.bind_eq_bind, Option.bind_none, differences_cons, List.forall_mem_cons,
          first, false_and, if_false]

theorem checkedDeltaDeltaEncode_eq (values : List Int) :
    checkedDeltaDeltaEncode values =
      if DifferencesFit values then some (deltaDeltaEncode values) else none := by
  match values with
  | [] => rfl
  | [first] => rfl
  | first :: second :: rest =>
      have loop := checkedSecondDifferences_eq rest second (second - first)
      by_cases fits : IsSigned64 (second - first)
      · rw [checkedDeltaDeltaEncode, checkedSub, if_pos fits]
        simp only [Option.bind_eq_bind, Option.bind_some, loop, DifferencesFit, differences_cons,
          List.forall_mem_cons, fits, true_and, deltaDeltaEncode, wrapSigned64_of_isSigned64 fits]
        split_ifs <;> rfl
      · rw [checkedDeltaDeltaEncode, checkedSub, if_neg fits]
        simp only [Option.bind_eq_bind, Option.bind_none, DifferencesFit, differences_cons,
          List.forall_mem_cons, fits, false_and, if_false]

theorem checkedDeltaDeltaLoop_secondDifferences : ∀ (values : List Int) (prev prevDelta : Int),
    (∀ value ∈ values, IsSigned64 value) →
    (∀ delta ∈ differences (prev :: values), IsSigned64 delta) →
    (∀ second ∈ differences (prevDelta :: differences (prev :: values)), IsSigned64 second) →
    checkedDeltaDeltaLoop values.length (secondDifferences prev prevDelta values) prev prevDelta =
      some values := by
  intro values
  induction values with
  | nil => intros; rfl
  | cons value values ih =>
      intro prev prevDelta ranges firsts seconds
      simp only [differences_cons, List.forall_mem_cons] at firsts seconds ranges
      have others := ih value (value - prev) ranges.2 firsts.2 seconds.2
      have read := readVarint_zigzag seconds.1 (secondDifferences value (value - prev) values)
      have delta : prevDelta + (value - prev - prevDelta) = value - prev := by omega
      have whole : prev + (value - prev) = value := by omega
      simp only [List.length_cons, secondDifferences, wrapSigned64_of_isSigned64 firsts.1,
        wrapSigned64_of_isSigned64 seconds.1, checkedDeltaDeltaLoop, read, zigzagDecode_zigzagEncode,
        checkedAdd, delta, if_pos firsts.1, whole, if_pos ranges.1, others, Option.bind_eq_bind,
        Option.bind_some]

theorem checkedDeltaDeltaDecode_deltaDeltaEncode
    (count : values.length < 2 ^ 64) (ranges : ∀ value ∈ values, IsSigned64 value)
    (fits : DifferencesFit values) :
    checkedDeltaDeltaDecode (deltaDeltaEncode values) = some values := by
  match values, count, ranges, fits with
  | [], _, _, _ => rfl
  | [first], _, ranges, _ =>
      have counted := readVarint_writeVarint (show 1 < 2 ^ 64 by decide)
        (writeVarint (zigzagEncode first))
      have read := readVarint_zigzag (ranges first (by simp)) []
      rw [List.append_nil] at read
      simp only [deltaDeltaEncode, checkedDeltaDeltaDecode, counted, read,
        zigzagDecode_zigzagEncode, checkedDeltaDeltaLoop, Option.bind_eq_bind, Option.bind_some]
  | first :: second :: rest, count, ranges, fits =>
      obtain ⟨firsts, seconds⟩ := fits
      simp only [differences_cons, List.forall_mem_cons] at firsts ranges
      rw [differences_cons] at seconds
      have loop := checkedDeltaDeltaLoop_secondDifferences rest second (second - first)
        ranges.2.2 firsts.2 seconds
      have counted := readVarint_writeVarint count (writeVarint (zigzagEncode first) ++
        (writeVarint (zigzagEncode (second - first)) ++
          secondDifferences second (second - first) rest))
      have firstRead := readVarint_zigzag ranges.1 (writeVarint (zigzagEncode (second - first)) ++
        secondDifferences second (second - first) rest)
      have deltaRead := readVarint_zigzag firsts.1 (secondDifferences second (second - first) rest)
      have whole : first + (second - first) = second := by omega
      simp only [List.length_cons] at counted
      simp only [deltaDeltaEncode, checkedDeltaDeltaDecode, List.length_cons, counted, firstRead,
        wrapSigned64_of_isSigned64 firsts.1, zigzagDecode_zigzagEncode, checkedDeltaDeltaLoop,
        deltaRead, checkedAdd, zero_add, if_pos firsts.1, whole, if_pos ranges.2.1, loop,
        Option.bind_eq_bind, Option.bind_some]

/-- Wrapping arithmetic gives every list back; checked arithmetic exactly those whose
differences are 64-bit integers, with the same bytes. -/
theorem delta_delta_round_trip (count : values.length < 2 ^ 64)
    (ranges : ∀ value ∈ values, IsSigned64 value) :
    deltaDeltaDecode (deltaDeltaEncode values) = values ∧
      checkedDeltaDeltaEncode values =
        (if DifferencesFit values then some (deltaDeltaEncode values) else none) ∧
      (DifferencesFit values →
        checkedDeltaDeltaDecode (deltaDeltaEncode values) = some values) := by
  refine ⟨deltaDeltaDecode_deltaDeltaEncode count ranges, checkedDeltaDeltaEncode_eq values, ?_⟩
  intro fits
  exact checkedDeltaDeltaDecode_deltaDeltaEncode count ranges fits

theorem delta_delta_round_trip_extremes :
    deltaDeltaDecode (deltaDeltaEncode [-2 ^ 63, 2 ^ 63 - 1, 0, -2 ^ 63]) =
        [-2 ^ 63, 2 ^ 63 - 1, 0, -2 ^ 63] ∧
      checkedDeltaDeltaEncode [-2 ^ 63, 2 ^ 63 - 1, 0, -2 ^ 63] = none ∧
      checkedDeltaDeltaDecode (deltaDeltaEncode [1000, 1010, 1020, 1031]) =
        some [1000, 1010, 1020, 1031] := by
  have extremes := delta_delta_round_trip (show [-2 ^ 63, 2 ^ 63 - 1, 0, -2 ^ 63].length < 2 ^ 64 by
    decide) (by decide)
  have clock := delta_delta_round_trip (show [1000, 1010, 1020, 1031].length < 2 ^ 64 by decide)
    (by decide)
  refine ⟨extremes.1, ?_, clock.2.2 (by decide)⟩
  rw [extremes.2.1, if_neg (by decide)]

/-- The difference of the two ends of the range does not fit. -/
theorem delta_delta_overflow :
    ¬ ∀ values : List Int, values.length < 2 ^ 64 → (∀ value ∈ values, IsSigned64 value) →
      deltaDeltaDecode (deltaDeltaEncode values) = values ∧
        (checkedDeltaDeltaEncode values).isSome = true := by
  intro every
  have encoded := (every [-2 ^ 63, 2 ^ 63 - 1] (by decide) (by decide)).2
  rw [checkedDeltaDeltaEncode_eq, if_neg (by decide)] at encoded
  cases encoded

end Pantheon.Keystone.Compress
