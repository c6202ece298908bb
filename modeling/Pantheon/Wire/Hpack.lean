import Mathlib
import Pantheon.Lib.Bytes
import Pantheon.Lib.Utf8
import Pantheon.Wire.HpackTables

/-!
# Header compression: `wire/grpc/hpack.rs`

The decoder keeps the dynamic table of its connection, newest entry first,
and goes on from whatever an earlier block left, whether that block was
decoded or failed half-way.  The encoder has no state.
-/

set_option autoImplicit false

namespace Pantheon.Wire.Hpack

open Pantheon.Lib

/-- The errors of the decoder.  `notUtf8` is the standard library's own. -/
inductive HpackError where
  | codeTooLong
  | endOfString
  | leftover
  | padding
  | truncatedContinuation
  | overflow
  | truncatedString
  | indexZero
  | indexOutOfRange (index : Nat)
  | truncatedName
  | truncatedValue
  | notUtf8
deriving DecidableEq

def HpackError.message : HpackError → String
  | codeTooLong => "hpack huffman: code longer than 30 bits"
  | endOfString => "hpack huffman: EOS symbol encountered"
  | leftover => "hpack huffman: leftover exceeds one octet"
  | padding => "hpack huffman: invalid non-ones padding at end of string"
  | truncatedContinuation => "hpack integer: truncated continuation"
  | overflow => "hpack integer: overflow"
  | truncatedString => "hpack string: truncated literal"
  | indexZero => "hpack: index 0 is not valid"
  | indexOutOfRange index => "hpack: dynamic index " ++ toString index ++ " out of range"
  | truncatedName => "hpack: truncated literal name"
  | truncatedValue => "hpack: truncated literal value"
  | notUtf8 => "invalid utf-8 sequence"

/-! ## Huffman strings -/

def matchSymbol (cur bits : Nat) : Option Nat :=
  huffman.findIdx? fun code => code.2 = bits ∧ code.1 = cur

/-- The bytes written so far and the bits of the code that is being read. -/
structure HuffmanState where
  out : Bytes
  cur : Nat
  curBits : Nat
deriving DecidableEq

def huffmanBit (state : HuffmanState) (bit : Nat) : Except HpackError HuffmanState :=
  let cur := 2 * state.cur + bit
  let curBits := state.curBits + 1
  if 30 < curBits then .error .codeTooLong
  else
    match matchSymbol cur curBits with
    | none => .ok ⟨state.out, cur, curBits⟩
    | some sym =>
        if sym = 256 then .error .endOfString
        else .ok ⟨state.out ++ [UInt8.ofNat sym], 0, 0⟩

def huffmanByte (state : HuffmanState) (byte : UInt8) : Except HpackError HuffmanState :=
  [7, 6, 5, 4, 3, 2, 1, 0].foldlM
    (fun state place => huffmanBit state ((byte.toNat >>> place) % 2)) state

def huffmanDecode (input : Bytes) : Except HpackError Bytes := do
  let state ← input.foldlM huffmanByte ⟨[], 0, 0⟩
  if 0 < state.curBits then
    if 8 ≤ state.curBits then .error .leftover
    else if state.cur ≠ 2 ^ state.curBits - 1 then .error .padding
    else .ok state.out
  else .ok state.out

/-! ## Integers and strings -/

/-- The continuation bytes of an integer; `shift` is the place of the next
seven bits. -/
def decodeContinuation : Bytes → Nat → Nat → Except HpackError (Nat × Bytes)
  | [], _, _ => .error .truncatedContinuation
  | byte :: rest, value, shift =>
      if ¬ shift < 63 then .error .overflow
      else
        let value := value + (byte.toNat % 128) <<< shift
        if 2 ^ 64 ≤ value then .error .overflow
        else if byte &&& 0x80 = 0 then .ok (value, rest)
        else decodeContinuation rest value (shift + 7)

def decodeInteger (first : UInt8) (width : Nat) (rest : Bytes) : Except HpackError (Nat × Bytes) :=
  let mask := 2 ^ width - 1
  let low := first.toNat &&& mask
  if low < mask then .ok (low, rest)
  else decodeContinuation rest mask 0

def encodeContinuation (value : Nat) : Bytes :=
  if 128 ≤ value then
    (UInt8.ofNat (value % 128) ||| 0x80) :: encodeContinuation (value / 128)
  else [UInt8.ofNat value]

/-- The prefix is the low `width` bits of the first byte, `flags` its others. -/
def encodeInteger (value width : Nat) (flags : UInt8) : Bytes :=
  let largest := 2 ^ width - 1
  if value < largest then [flags ||| UInt8.ofNat value]
  else (flags ||| UInt8.ofNat largest) :: encodeContinuation (value - largest)

def decodeString (first : UInt8) (rest : Bytes) : Except HpackError (Bytes × Bytes) := do
  let (length, rest) ← decodeInteger first 7 rest
  if rest.length < length then .error .truncatedString
  else
    let raw := rest.take length
    let rest := rest.drop length
    if first &&& 0x80 ≠ 0 then
      let decoded ← huffmanDecode raw
      .ok (decoded, rest)
    else .ok (raw, rest)

def encodeString (text : String) : Bytes :=
  encodeInteger (utf8Bytes text).length 7 0x00 ++ utf8Bytes text

def fromUtf8 (bytes : Bytes) : Except HpackError String :=
  match String.fromUTF8? ⟨bytes.toArray⟩ with
  | some text => .ok text
  | none => .error .notUtf8

/-! ## The decoder -/

structure Decoder where
  /-- Newest entry first. -/
  dynamic : List Header
  dynamicSize : Nat
  maxDynamicSize : Nat
deriving DecidableEq

namespace Decoder

def new : Decoder := ⟨[], 0, 4096⟩

def entrySize (entry : Header) : Nat :=
  (utf8Bytes entry.1).length + (utf8Bytes entry.2).length + 32

/-- Drop the oldest entries until `size` more fits, or nothing is left. -/
def evict (size : Nat) : Nat → Decoder → Decoder
  | 0, decoder => decoder
  | fuel + 1, decoder =>
      if decoder.maxDynamicSize < decoder.dynamicSize + size then
        match decoder.dynamic.getLast? with
        | none => decoder
        | some oldest =>
            evict size fuel ⟨decoder.dynamic.dropLast, decoder.dynamicSize - entrySize oldest,
              decoder.maxDynamicSize⟩
      else decoder

def insertDynamic (decoder : Decoder) (entry : Header) : Decoder :=
  let size := entrySize entry
  let decoder := evict size decoder.dynamic.length decoder
  if size ≤ decoder.maxDynamicSize then
    ⟨entry :: decoder.dynamic, decoder.dynamicSize + size, decoder.maxDynamicSize⟩
  else decoder

def setMaxSize (decoder : Decoder) (newMax : Nat) : Decoder :=
  evict 0 decoder.dynamic.length { decoder with maxDynamicSize := newMax }

def resolveIndex (decoder : Decoder) (index : Nat) : Except HpackError Header :=
  if index = 0 then .error .indexZero
  else if index ≤ staticTable.length then .ok (staticTable.getD (index - 1) ("", ""))
  else
    match decoder.dynamic[index - staticTable.length - 1]? with
    | some entry => .ok entry
    | none => .error (.indexOutOfRange index)

def resolveName (decoder : Decoder) (index : Nat) : Except HpackError String := do
  let entry ← decoder.resolveIndex index
  .ok entry.1

def decodeName (decoder : Decoder) (nameIndex : Nat) (block : Bytes) :
    Except HpackError (String × Bytes) :=
  if nameIndex = 0 then
    match block with
    | [] => .error .truncatedName
    | first :: block => do
        let (bytes, block) ← decodeString first block
        let name ← fromUtf8 bytes
        .ok (name, block)
  else do
    let name ← decoder.resolveName nameIndex
    .ok (name, block)

def decodeValue : Bytes → Except HpackError (String × Bytes)
  | [] => .error .truncatedValue
  | first :: block => do
      let (bytes, block) ← decodeString first block
      let value ← fromUtf8 bytes
      .ok (value, block)

def decodeLiteral (decoder : Decoder) (first : UInt8) (width : Nat) (block : Bytes) :
    Except HpackError (Header × Bytes) := do
  let (nameIndex, block) ← decodeInteger first width block
  let (name, block) ← decoder.decodeName nameIndex block
  let (value, block) ← decodeValue block
  .ok ((name, value), block)

/-- One representation: the table after it, the header it stands for, if any,
and the bytes behind it.  One that fails leaves the table as it was. -/
def decodeField (decoder : Decoder) (first : UInt8) (block : Bytes) :
    Except HpackError (Decoder × Option Header × Bytes) :=
  if first &&& 0x80 ≠ 0 then do
    let (index, block) ← decodeInteger first 7 block
    let entry ← decoder.resolveIndex index
    .ok (decoder, some entry, block)
  else if first &&& 0x40 ≠ 0 then do
    let (entry, block) ← decoder.decodeLiteral first 6 block
    .ok (decoder.insertDynamic entry, some entry, block)
  else if first &&& 0x20 ≠ 0 then do
    let (newMax, block) ← decodeInteger first 5 block
    .ok (decoder.setMaxSize newMax, none, block)
  else do
    let (entry, block) ← decoder.decodeLiteral first 4 block
    .ok (decoder, some entry, block)

/-- One unit of fuel is one representation, which takes at least one byte. -/
def decodeLoop : Nat → Decoder → Bytes → List Header → Decoder × Except HpackError (List Header)
  | 0, decoder, _, headers => (decoder, .ok headers)
  | _ + 1, decoder, [], headers => (decoder, .ok headers)
  | fuel + 1, decoder, first :: block, headers =>
      match decoder.decodeField first block with
      | .error error => (decoder, .error error)
      | .ok (decoder, found, block) => decodeLoop fuel decoder block (headers ++ found.toList)

def decode (decoder : Decoder) (block : Bytes) : Decoder × Except HpackError (List Header) :=
  decodeLoop block.length decoder block []

def afterBlocks (decoder : Decoder) (blocks : List Bytes) : Decoder :=
  blocks.foldl (fun decoder block => (decoder.decode block).1) decoder

end Decoder

/-! ## The encoder -/

def staticFullMatch (name value : String) : Option Nat :=
  (staticTable.findIdx? fun entry => entry.1 = name ∧ entry.2 = value).map (· + 1)

def staticNameMatch (name : String) : Option Nat :=
  (staticTable.findIdx? fun entry => entry.1 = name).map (· + 1)

def encodeHeader (header : Header) : Bytes :=
  match staticFullMatch header.1 header.2 with
  | some index => encodeInteger index 7 0x80
  | none =>
      match staticNameMatch header.1 with
      | some index => encodeInteger index 4 0x00 ++ encodeString header.2
      | none => [0x00] ++ encodeString header.1 ++ encodeString header.2

def encode (headers : List Header) : Bytes := headers.flatMap encodeHeader

/-! ## Integers read back -/

theorem continued_byte : ∀ low < 128,
    (UInt8.ofNat low ||| 0x80).toNat % 128 = low ∧ (UInt8.ofNat low ||| 0x80) &&& 0x80 ≠ 0 := by
  decide

theorem last_byte : ∀ low < 128,
    (UInt8.ofNat low).toNat % 128 = low ∧ UInt8.ofNat low &&& 0x80 = 0 := by
  decide

theorem decodeContinuation_encodeContinuation (value : Nat) : ∀ (base shift : Nat) (rest : Bytes),
    shift < 63 → base + value * 2 ^ shift < 2 ^ 63 →
    decodeContinuation (encodeContinuation value ++ rest) base shift =
      .ok (base + value * 2 ^ shift, rest) := by
  induction value using Nat.strong_induction_on with
  | h value ih =>
      intro base shift rest inRange small
      have shifted : (value % 128) <<< shift = value % 128 * 2 ^ shift := Nat.shiftLeft_eq _ _
      have sum : base + value % 128 * 2 ^ shift + value / 128 * 2 ^ (shift + 7) =
          base + value * 2 ^ shift := by
        have split : value = 128 * (value / 128) + value % 128 := (Nat.div_add_mod value 128).symm
        conv_rhs => rw [split]
        ring
      by_cases more : 128 ≤ value
      · obtain ⟨low, continued⟩ := continued_byte (value % 128) (Nat.mod_lt _ (by norm_num))
        have nextShift : shift + 7 < 63 := by
          have scaled : 2 ^ (shift + 7) ≤ value * 2 ^ shift := by
            rw [pow_add, mul_comm]
            exact Nat.mul_le_mul_right _ more
          exact (Nat.pow_lt_pow_iff_right (by norm_num)).mp (by omega : 2 ^ (shift + 7) < 2 ^ 63)
        have bounded : ¬ 2 ^ 64 ≤ base + value % 128 * 2 ^ shift := by omega
        rw [encodeContinuation, if_pos more, List.cons_append, decodeContinuation,
          if_neg (not_not.mpr inRange)]
        simp only [low, shifted]
        rw [if_neg bounded, if_neg continued,
          ih (value / 128) (Nat.div_lt_self (by omega) (by norm_num)) _ _ _ nextShift
            (by rw [sum]; exact small), sum]
      · obtain ⟨low, last⟩ := last_byte value (by omega)
        have whole : value <<< shift = value * 2 ^ shift := Nat.shiftLeft_eq _ _
        have bounded : ¬ 2 ^ 64 ≤ base + value * 2 ^ shift := by omega
        rw [encodeContinuation, if_neg more, List.singleton_append, decodeContinuation,
          if_neg (not_not.mpr inRange)]
        simp only [low, whole]
        rw [if_neg bounded, if_pos last]

theorem flagged_prefix (flags : UInt8) (width low : Nat) (narrow : width ≤ 8)
    (clear : flags.toNat % 2 ^ width = 0) (fits : low ≤ 2 ^ width - 1) :
    (flags ||| UInt8.ofNat low).toNat &&& (2 ^ width - 1) = low := by
  have positive : 0 < 2 ^ width := Nat.two_pow_pos width
  have wide : 2 ^ width ≤ 2 ^ 8 := Nat.pow_le_pow_right (by norm_num) narrow
  have lowByte : (UInt8.ofNat low).toNat = low := by
    rw [UInt8.toNat_ofNat']
    exact Nat.mod_eq_of_lt (by omega)
  rw [UInt8.toNat_or, lowByte, Nat.and_or_distrib_right, Nat.and_two_pow_sub_one_eq_mod, clear,
    Nat.and_two_pow_sub_one_eq_mod, Nat.mod_eq_of_lt (by omega), Nat.zero_or]

/-- An integer is read back from its bytes, whose first one carries the
flags. -/
theorem decodeInteger_encodeInteger (value width : Nat) (flags : UInt8) (rest : Bytes)
    (narrow : width ≤ 8) (clear : flags.toNat % 2 ^ width = 0) (small : value < 2 ^ 63) :
    ∃ low tail, low ≤ 2 ^ width - 1 ∧
      encodeInteger value width flags ++ rest = (flags ||| UInt8.ofNat low) :: tail ∧
      decodeInteger (flags ||| UInt8.ofNat low) width tail = .ok (value, rest) := by
  by_cases short : value < 2 ^ width - 1
  · refine ⟨value, rest, by omega, ?_, ?_⟩
    · simp only [encodeInteger, if_pos short, List.singleton_append]
    · have low := flagged_prefix flags width value narrow clear (by omega)
      simp only [decodeInteger, low, if_pos short]
  · refine ⟨2 ^ width - 1, encodeContinuation (value - (2 ^ width - 1)) ++ rest, le_rfl, ?_, ?_⟩
    · simp only [encodeInteger, if_neg short, List.cons_append]
    · have low := flagged_prefix flags width (2 ^ width - 1) narrow clear le_rfl
      have total : 2 ^ width - 1 + (value - (2 ^ width - 1)) * 2 ^ 0 = value := by omega
      simp only [decodeInteger, low, lt_irrefl, if_false]
      rw [decodeContinuation_encodeContinuation _ _ _ _ (by norm_num) (by omega), total]

/-! ## Strings read back -/

theorem decodeString_encodeString (text : String) (rest : Bytes)
    (short : (utf8Bytes text).length < 2 ^ 32) :
    ∃ first tail, encodeString text ++ rest = first :: tail ∧
      decodeString first tail = .ok (utf8Bytes text, rest) := by
  obtain ⟨low, tail, inRange, encoded, decoded⟩ := decodeInteger_encodeInteger
    (utf8Bytes text).length 7 0x00 (utf8Bytes text ++ rest) (by norm_num) (by decide) (by omega)
  have plain : ∀ low ≤ 127, (0x00 ||| UInt8.ofNat low) &&& 0x80 = 0 := by decide
  have notHuffman := plain low inRange
  refine ⟨0x00 ||| UInt8.ofNat low, tail, ?_, ?_⟩
  · rw [encodeString, List.append_assoc, encoded]
  · have enough : ¬ (utf8Bytes text ++ rest).length < (utf8Bytes text).length := by simp
    simp only [decodeString, decoded, bind, Except.bind, if_neg enough, notHuffman, ne_eq,
      not_true_eq_false, if_false, List.take_left, List.drop_left]

theorem fromUtf8_utf8Bytes (text : String) : fromUtf8 (utf8Bytes text) = .ok text := by
  simp only [fromUtf8, fromUTF8_utf8Bytes]

theorem decodeValue_encodeString (text : String) (rest : Bytes)
    (short : (utf8Bytes text).length < 2 ^ 32) :
    Decoder.decodeValue (encodeString text ++ rest) = .ok (text, rest) := by
  obtain ⟨first, tail, encoded, decoded⟩ := decodeString_encodeString text rest short
  simp only [encoded, Decoder.decodeValue, decoded, bind, Except.bind, fromUtf8_utf8Bytes]

theorem decodeName_encodeString (decoder : Decoder) (text : String) (rest : Bytes)
    (short : (utf8Bytes text).length < 2 ^ 32) :
    decoder.decodeName 0 (encodeString text ++ rest) = .ok (text, rest) := by
  obtain ⟨first, tail, encoded, decoded⟩ := decodeString_encodeString text rest short
  simp only [encoded, Decoder.decodeName, if_true, decoded, bind, Except.bind,
    fromUtf8_utf8Bytes]

/-! ## Headers read back -/

/-- A header whose name and value are written as they are. -/
structure Short (header : Header) : Prop where
  name : (utf8Bytes header.1).length < 2 ^ 32
  value : (utf8Bytes header.2).length < 2 ^ 32

theorem staticFullMatch_resolves (decoder : Decoder) (name value : String) (index : Nat)
    (found : staticFullMatch name value = some index) :
    index ≤ 61 ∧ decoder.resolveIndex index = .ok (name, value) := by
  obtain ⟨place, located, rfl⟩ := Option.map_eq_some_iff.mp found
  obtain ⟨inRange, matched, _⟩ := List.findIdx?_eq_some_iff_getElem.mp located
  have bound := staticTable_length
  have entry := of_decide_eq_true matched
  refine ⟨by omega, ?_⟩
  rw [Decoder.resolveIndex, if_neg (by omega), if_pos (by omega), Nat.add_sub_cancel,
    List.getD_eq_getElem _ _ inRange]
  exact congrArg Except.ok (Prod.ext entry.1 entry.2)

theorem staticNameMatch_resolves (decoder : Decoder) (name : String) (index : Nat)
    (found : staticNameMatch name = some index) :
    index ≠ 0 ∧ index ≤ 61 ∧ decoder.resolveName index = .ok name := by
  obtain ⟨place, located, rfl⟩ := Option.map_eq_some_iff.mp found
  obtain ⟨inRange, matched, _⟩ := List.findIdx?_eq_some_iff_getElem.mp located
  have bound := staticTable_length
  have entry := of_decide_eq_true matched
  refine ⟨by omega, by omega, ?_⟩
  rw [Decoder.resolveName, Decoder.resolveIndex, if_neg (by omega), if_pos (by omega),
    Nat.add_sub_cancel, List.getD_eq_getElem _ _ inRange]
  exact congrArg Except.ok entry

theorem indexed_flag : ∀ low ≤ 127, (0x80 ||| UInt8.ofNat low) &&& 0x80 ≠ 0 := by decide

theorem literal_flags : ∀ low ≤ 15, (0x00 ||| UInt8.ofNat low) &&& 0x80 = 0 ∧
    (0x00 ||| UInt8.ofNat low) &&& 0x40 = 0 ∧ (0x00 ||| UInt8.ofNat low) &&& 0x20 = 0 := by
  decide

/-- Each of the three forms is read back as the header it was written for, and
the table stays. -/
theorem decodeField_encodeHeader (decoder : Decoder) (header : Header) (short : Short header)
    (rest : Bytes) :
    ∃ first tail, encodeHeader header ++ rest = first :: tail ∧
      decoder.decodeField first tail = .ok (decoder, some header, rest) := by
  obtain ⟨name, value⟩ := header
  cases full : staticFullMatch name value with
  | some index =>
      obtain ⟨inRange, resolved⟩ := staticFullMatch_resolves decoder name value index full
      obtain ⟨low, tail, fits, encoded, decoded⟩ := decodeInteger_encodeInteger index 7 0x80 rest
        (by norm_num) (by decide) (by omega)
      refine ⟨0x80 ||| UInt8.ofNat low, tail, ?_, ?_⟩
      · simp only [encodeHeader, full, encoded]
      · rw [Decoder.decodeField, if_pos (indexed_flag low fits)]
        simp only [decoded, bind, Except.bind, resolved]
  | none =>
      cases named : staticNameMatch name with
      | some index =>
          obtain ⟨nonzero, inRange, resolved⟩ := staticNameMatch_resolves decoder name index named
          obtain ⟨low, tail, fits, encoded, decoded⟩ := decodeInteger_encodeInteger index 4 0x00
            (encodeString value ++ rest) (by norm_num) (by decide) (by omega)
          obtain ⟨notIndexed, notAdded, notUpdate⟩ := literal_flags low fits
          refine ⟨0x00 ||| UInt8.ofNat low, tail, ?_, ?_⟩
          · simp only [encodeHeader, full, named, List.append_assoc, encoded]
          · have literal : decoder.decodeLiteral (0x00 ||| UInt8.ofNat low) 4 tail =
                .ok ((name, value), rest) := by
              simp only [Decoder.decodeLiteral, decoded, bind, Except.bind, Decoder.decodeName,
                if_neg nonzero, resolved, decodeValue_encodeString value rest short.value]
            rw [Decoder.decodeField, if_neg (not_not.mpr notIndexed),
              if_neg (not_not.mpr notAdded), if_neg (not_not.mpr notUpdate)]
            simp only [literal, bind, Except.bind]
      | none =>
          refine ⟨0x00, encodeString name ++ (encodeString value ++ rest), ?_, ?_⟩
          · simp only [encodeHeader, full, named, List.append_assoc, List.cons_append,
              List.nil_append]
          · have index : decodeInteger 0x00 4 (encodeString name ++ (encodeString value ++ rest)) =
                .ok (0, encodeString name ++ (encodeString value ++ rest)) := rfl
            have literal : decoder.decodeLiteral 0x00 4
                (encodeString name ++ (encodeString value ++ rest)) = .ok ((name, value), rest) := by
              simp only [Decoder.decodeLiteral, index, bind, Except.bind,
                decodeName_encodeString decoder name _ short.name,
                decodeValue_encodeString value rest short.value]
            rw [Decoder.decodeField, if_neg (by decide), if_neg (by decide), if_neg (by decide)]
            simp only [literal, bind, Except.bind]

theorem decodeLoop_encode (decoder : Decoder) (headers : List Header)
    (short : ∀ header ∈ headers, Short header) : ∀ (fuel : Nat) (rest : Bytes)
    (found : List Header),
    decoder.decodeLoop (fuel + headers.length) (encode headers ++ rest) found =
      decoder.decodeLoop fuel rest (found ++ headers) := by
  induction headers with
  | nil => intro fuel rest found; simp [encode]
  | cons header headers ih =>
      intro fuel rest found
      obtain ⟨first, tail, encoded, decoded⟩ := decodeField_encodeHeader decoder header
        (short header List.mem_cons_self) (encode headers ++ rest)
      have split : encode (header :: headers) ++ rest = first :: tail := by
        rw [encode, List.flatMap_cons, List.append_assoc, ← encode, encoded]
      rw [split, List.length_cons, ← Nat.add_assoc, Decoder.decodeLoop]
      simp only [decoded, Option.toList_some]
      rw [ih (fun other member => short other (List.mem_cons_of_mem _ member))]
      simp only [List.append_assoc, List.singleton_append]

theorem length_le_encode (headers : List Header) (short : ∀ header ∈ headers, Short header) :
    headers.length ≤ (encode headers).length := by
  induction headers with
  | nil => exact Nat.zero_le _
  | cons header headers ih =>
      have later := ih fun other member => short other (List.mem_cons_of_mem _ member)
      obtain ⟨first, tail, encoded, _⟩ := decodeField_encodeHeader Decoder.new header
        (short header List.mem_cons_self) []
      have written := congrArg List.length encoded
      simp only [List.append_nil, List.length_cons] at written
      simp only [encode, List.flatMap_cons, List.length_append, List.length_cons] at later ⊢
      omega

theorem encode_append (headers later : List Header) :
    encode (headers ++ later) = encode headers ++ encode later :=
  List.flatMap_append

theorem decode_encode (decoder : Decoder) (headers : List Header)
    (short : ∀ header ∈ headers, Short header) :
    decoder.decode (encode headers) = (decoder, .ok headers) := by
  obtain ⟨spare, enough⟩ := Nat.exists_eq_add_of_le' (length_le_encode headers short)
  have run := decodeLoop_encode decoder headers short spare [] []
  rw [Decoder.decode, enough]
  rw [List.append_nil, List.nil_append] at run
  rw [run]
  cases spare <;> rfl

/-! ## The loop ends by itself

Whatever a representation reads, it leaves no more bytes than it was given, so
a block never takes more rounds than it has bytes. -/

theorem bind_eq_ok {α β : Type} (action : Except HpackError α) (next : α → Except HpackError β)
    (result : β) :
    (action >>= next) = .ok result ↔ ∃ value, action = .ok value ∧ next value = .ok result := by
  cases action with
  | error error => simp [bind, Except.bind]
  | ok value => simp [bind, Except.bind]

theorem decodeContinuation_shrinks (block : Bytes) : ∀ (value shift result : Nat) (rest : Bytes),
    decodeContinuation block value shift = .ok (result, rest) → rest.length ≤ block.length := by
  induction block with
  | nil => intro value shift result rest run; exact absurd run (by simp [decodeContinuation])
  | cons byte block ih =>
      intro value shift result rest run
      rw [decodeContinuation] at run
      dsimp only at run
      split_ifs at run
      · cases Except.ok.inj run
        exact Nat.le_succ _
      · exact (ih _ _ _ _ run).trans (Nat.le_succ _)

theorem decodeInteger_shrinks (first : UInt8) (width : Nat) (block rest : Bytes) (result : Nat)
    (run : decodeInteger first width block = .ok (result, rest)) :
    rest.length ≤ block.length := by
  unfold decodeInteger at run
  dsimp only at run
  split_ifs at run
  · cases Except.ok.inj run
    exact le_rfl
  · exact decodeContinuation_shrinks block _ _ _ _ run

theorem decodeString_shrinks (first : UInt8) (block rest bytes : Bytes)
    (run : decodeString first block = .ok (bytes, rest)) : rest.length ≤ block.length := by
  obtain ⟨⟨length, middle⟩, integer, run⟩ := (bind_eq_ok _ _ _).mp run
  have shorter := decodeInteger_shrinks _ _ _ _ _ integer
  dsimp only at run
  split_ifs at run
  · obtain ⟨decoded, _, run⟩ := (bind_eq_ok _ _ _).mp run
    cases Except.ok.inj run
    rw [List.length_drop]
    omega
  · cases Except.ok.inj run
    rw [List.length_drop]
    omega

namespace Decoder

theorem decodeName_shrinks (decoder : Decoder) (nameIndex : Nat) (block rest : Bytes)
    (name : String) (run : decoder.decodeName nameIndex block = .ok (name, rest)) :
    rest.length ≤ block.length := by
  unfold decodeName at run
  split_ifs at run
  · cases block with
    | nil => exact absurd run (by simp)
    | cons first block =>
        obtain ⟨⟨bytes, middle⟩, string, run⟩ := (bind_eq_ok _ _ _).mp run
        obtain ⟨text, _, run⟩ := (bind_eq_ok _ _ _).mp run
        cases Except.ok.inj run
        exact (decodeString_shrinks _ _ _ _ string).trans (Nat.le_succ _)
  · obtain ⟨resolved, _, run⟩ := (bind_eq_ok _ _ _).mp run
    cases Except.ok.inj run
    exact le_rfl

theorem decodeValue_shrinks (block rest : Bytes) (value : String)
    (run : decodeValue block = .ok (value, rest)) : rest.length ≤ block.length := by
  cases block with
  | nil => exact absurd run (by simp [decodeValue])
  | cons first block =>
      obtain ⟨⟨bytes, middle⟩, string, run⟩ := (bind_eq_ok _ _ _).mp run
      obtain ⟨text, _, run⟩ := (bind_eq_ok _ _ _).mp run
      cases Except.ok.inj run
      exact (decodeString_shrinks _ _ _ _ string).trans (Nat.le_succ _)

theorem decodeLiteral_shrinks (decoder : Decoder) (first : UInt8) (width : Nat)
    (block rest : Bytes) (entry : Header)
    (run : decoder.decodeLiteral first width block = .ok (entry, rest)) :
    rest.length ≤ block.length := by
  obtain ⟨⟨index, afterIndex⟩, integer, run⟩ := (bind_eq_ok _ _ _).mp run
  obtain ⟨⟨name, afterName⟩, named, run⟩ := (bind_eq_ok _ _ _).mp run
  obtain ⟨⟨value, afterValue⟩, valued, run⟩ := (bind_eq_ok _ _ _).mp run
  cases Except.ok.inj run
  have indexShrinks := decodeInteger_shrinks _ _ _ _ _ integer
  have nameShrinks := decodeName_shrinks _ _ _ _ _ named
  have valueShrinks := decodeValue_shrinks _ _ _ valued
  omega

/-- What a representation that is decoded can do to the table, and that it
leaves a part of the block. -/
theorem decodeField_cases (decoder after : Decoder) (first : UInt8) (block rest : Bytes)
    (found : Option Header) (run : decoder.decodeField first block = .ok (after, found, rest)) :
    rest.length ≤ block.length ∧
      (after = decoder ∨ (∃ entry, after = decoder.insertDynamic entry) ∨
        ∃ newMax, after = decoder.setMaxSize newMax) := by
  unfold decodeField at run
  split_ifs at run
  · obtain ⟨⟨index, middle⟩, integer, run⟩ := (bind_eq_ok _ _ _).mp run
    obtain ⟨entry, _, run⟩ := (bind_eq_ok _ _ _).mp run
    cases Except.ok.inj run
    exact ⟨decodeInteger_shrinks _ _ _ _ _ integer, Or.inl rfl⟩
  · obtain ⟨⟨entry, middle⟩, literal, run⟩ := (bind_eq_ok _ _ _).mp run
    cases Except.ok.inj run
    exact ⟨decodeLiteral_shrinks _ _ _ _ _ _ literal, Or.inr (Or.inl ⟨entry, rfl⟩)⟩
  · obtain ⟨⟨newMax, middle⟩, integer, run⟩ := (bind_eq_ok _ _ _).mp run
    cases Except.ok.inj run
    exact ⟨decodeInteger_shrinks _ _ _ _ _ integer, Or.inr (Or.inr ⟨newMax, rfl⟩)⟩
  · obtain ⟨⟨entry, middle⟩, literal, run⟩ := (bind_eq_ok _ _ _).mp run
    cases Except.ok.inj run
    exact ⟨decodeLiteral_shrinks _ _ _ _ _ _ literal, Or.inl rfl⟩

end Decoder

/-! ## The size of the table -/

namespace Decoder

/-- The recorded size is that of the entries, and within the maximum. -/
structure Accounted (decoder : Decoder) : Prop where
  exact : decoder.dynamicSize = (decoder.dynamic.map entrySize).sum
  bounded : decoder.dynamicSize ≤ decoder.maxDynamicSize

theorem evict_accounts (size : Nat) : ∀ (fuel : Nat) (decoder : Decoder),
    decoder.dynamic.length ≤ fuel →
    decoder.dynamicSize = (decoder.dynamic.map entrySize).sum →
    let evicted := evict size fuel decoder
    evicted.dynamicSize = (evicted.dynamic.map entrySize).sum ∧
      evicted.maxDynamicSize = decoder.maxDynamicSize ∧
      (evicted.dynamicSize + size ≤ evicted.maxDynamicSize ∨ evicted.dynamicSize = 0) := by
  intro fuel
  induction fuel with
  | zero =>
      intro decoder enough exact
      have empty : decoder.dynamic = [] := List.length_eq_zero_iff.mp (Nat.le_zero.mp enough)
      refine ⟨exact, rfl, Or.inr ?_⟩
      simp only [evict, exact, empty, List.map_nil, List.sum_nil]
  | succ fuel ih =>
      intro decoder enough exact
      by_cases tooLarge : decoder.maxDynamicSize < decoder.dynamicSize + size
      · rcases List.eq_nil_or_concat decoder.dynamic with empty | ⟨kept, oldest, split⟩
        · simp only [evict, if_pos tooLarge, empty, List.getLast?_nil]
          refine ⟨by rw [exact, empty], trivial, Or.inr ?_⟩
          simp only [exact, empty, List.map_nil, List.sum_nil]
        · rw [List.concat_eq_append] at split
          have shorter : kept.length ≤ fuel := by
            rw [split, List.length_append, List.length_singleton] at enough
            omega
          simp only [evict, if_pos tooLarge, split, List.getLast?_append_of_ne_nil, ne_eq,
            List.cons_ne_self, not_false_eq_true, List.getLast?_singleton, List.dropLast_concat]
          apply ih
          · exact shorter
          · simp only [exact, split, List.map_append, List.sum_append, List.map_cons, List.map_nil,
              List.sum_cons, List.sum_nil]
            omega
      · simp only [evict, if_neg tooLarge]
        exact ⟨exact, trivial, Or.inl (by omega)⟩

theorem insertDynamic_accounted (decoder : Decoder) (entry : Header)
    (accounted : decoder.Accounted) : (decoder.insertDynamic entry).Accounted := by
  obtain ⟨exact, kept, room⟩ :=
    evict_accounts (entrySize entry) decoder.dynamic.length decoder le_rfl accounted.exact
  unfold insertDynamic
  simp only
  split_ifs with fits
  · refine ⟨?_, ?_⟩
    · simp only [List.map_cons, List.sum_cons, exact, Nat.add_comm]
    · simp only
      omega
  · refine ⟨exact, ?_⟩
    omega

theorem setMaxSize_accounted (decoder : Decoder) (newMax : Nat)
    (accounted : decoder.Accounted) : (decoder.setMaxSize newMax).Accounted := by
  obtain ⟨exact, kept, room⟩ := evict_accounts 0 decoder.dynamic.length
    { decoder with maxDynamicSize := newMax } le_rfl accounted.exact
  exact ⟨exact, by simp only [setMaxSize] at room ⊢; omega⟩

theorem decodeLoop_accounted : ∀ (fuel : Nat) (decoder : Decoder) (block : Bytes)
    (headers : List Header), decoder.Accounted →
    (decoder.decodeLoop fuel block headers).1.Accounted := by
  intro fuel
  induction fuel with
  | zero => intro decoder block headers accounted; exact accounted
  | succ fuel ih =>
      intro decoder block headers accounted
      cases block with
      | nil => exact accounted
      | cons first block =>
          rw [decodeLoop]
          cases run : decoder.decodeField first block with
          | error error => exact accounted
          | ok outcome =>
              obtain ⟨after, found, rest⟩ := outcome
              apply ih
              rcases (decodeField_cases decoder after first block rest found run).2 with
                rfl | ⟨entry, rfl⟩ | ⟨newMax, rfl⟩
              · exact accounted
              · exact insertDynamic_accounted decoder entry accounted
              · exact setMaxSize_accounted decoder newMax accounted

theorem afterBlocks_accounted (blocks : List Bytes) : ∀ decoder : Decoder,
    decoder.Accounted → (decoder.afterBlocks blocks).Accounted := by
  induction blocks with
  | nil => intro decoder accounted; exact accounted
  | cons block blocks ih =>
      intro decoder accounted
      exact ih _ (decodeLoop_accounted _ decoder block [] accounted)

theorem new_accounted : new.Accounted := ⟨rfl, by decide⟩

end Decoder

/-- Whatever blocks came before, an encoded header list is read back and
leaves the decoder as it was, alone or in front of another encoded list; and
after any blocks the recorded size of the table is the size of its entries and
within its maximum. -/
theorem encoded_headers_read_back (blocks : List Bytes) :
    ((Decoder.new.afterBlocks blocks).dynamicSize =
        ((Decoder.new.afterBlocks blocks).dynamic.map Decoder.entrySize).sum ∧
      (Decoder.new.afterBlocks blocks).dynamicSize ≤
        (Decoder.new.afterBlocks blocks).maxDynamicSize) ∧
    ∀ headers later : List Header, (∀ header ∈ headers ++ later, Short header) →
      (Decoder.new.afterBlocks blocks).decode (encode headers) =
          (Decoder.new.afterBlocks blocks, .ok headers) ∧
        (Decoder.new.afterBlocks blocks).decode (encode headers ++ encode later) =
          (Decoder.new.afterBlocks blocks, .ok (headers ++ later)) := by
  have accounted := Decoder.afterBlocks_accounted blocks Decoder.new Decoder.new_accounted
  refine ⟨⟨accounted.exact, accounted.bounded⟩, ?_⟩
  intro headers later short
  refine ⟨decode_encode _ headers ?_, ?_⟩
  · intro header member
    exact short header (List.mem_append_left _ member)
  · rw [← encode_append]
    exact decode_encode _ (headers ++ later) short

/-- One header of each form, in front of another list, read by a decoder whose
only block so far added an entry and then failed. -/
theorem three_forms_read_back :
    (Decoder.new.afterBlocks [[0x40, 0x01, 0x61, 0x01, 0x62, 0x80]]).decode
        (encode [(":status", "200"), ("content-type", "application/grpc"), ("grpc-status", "0")] ++
          encode [(":path", "/x")]) =
      (Decoder.new.afterBlocks [[0x40, 0x01, 0x61, 0x01, 0x62, 0x80]],
        .ok [(":status", "200"), ("content-type", "application/grpc"), ("grpc-status", "0"),
          (":path", "/x")]) := by
  have short : ∀ header ∈ [(":status", "200"), ("content-type", "application/grpc"),
      ("grpc-status", "0")] ++ [(":path", "/x")], Short header := by
    intro header member
    simp only [List.cons_append, List.nil_append, List.mem_cons, List.not_mem_nil, or_false]
      at member
    rcases member with rfl | rfl | rfl | rfl <;> exact ⟨by decide, by decide⟩
  exact ((encoded_headers_read_back [[0x40, 0x01, 0x61, 0x01, 0x62, 0x80]]).2 _ _ short).2

end Pantheon.Wire.Hpack
