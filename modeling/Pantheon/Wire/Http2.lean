import Mathlib
import Pantheon.Lib.Bytes

/-!
# Frames of HTTP/2: `wire/grpc/http2.rs`

A frame is a header of nine bytes and a payload as long as the header says.
-/

set_option autoImplicit false

namespace Pantheon.Wire.Http2

open Pantheon.Lib

def frameData : UInt8 := 0x0
def frameHeaders : UInt8 := 0x1
def frameRstStream : UInt8 := 0x3
def frameSettings : UInt8 := 0x4
def framePing : UInt8 := 0x6
def frameGoaway : UInt8 := 0x7
def frameWindowUpdate : UInt8 := 0x8
def frameContinuation : UInt8 := 0x9

def flagEndStream : UInt8 := 0x1
def flagAck : UInt8 := 0x1
def flagEndHeaders : UInt8 := 0x4
def flagPadded : UInt8 := 0x8
def flagPriority : UInt8 := 0x20

def settingsInitialWindowSize : Nat := 0x4

structure Frame where
  frameType : UInt8
  flags : UInt8
  streamId : UInt32
  payload : Bytes
deriving DecidableEq

/-- The reserved top bit of the stream is masked off wherever a frame is read or written. -/
def Frame.masked (frame : Frame) : Frame :=
  { frame with streamId := frame.streamId &&& 0x7fffffff }

def Frame.flag (frame : Frame) (flag : UInt8) : Bool := decide (frame.flags &&& flag ≠ 0)

/-- All that the peer sends until it closes: a header that is cut off is an end, a payload that is
cut off is not. -/
def readFrame (data : Bytes) : Except String (Option (Frame × Bytes)) :=
  match splitExact 9 data with
  | none => .ok none
  | some (header, rest) =>
      let len := ofBe (header.take 3)
      if 16 * 1024 * 1024 < len then .error s!"http2: frame too large ({len})"
      else
        match splitExact len rest with
        | none => .error "early eof"
        | some (payload, rest) =>
            let streamId := UInt32.ofNat (ofBe (header.drop 5)) &&& 0x7fffffff
            .ok (some (⟨header.getD 3 0, header.getD 4 0, streamId, payload⟩, rest))

def writeFrame (frame : Frame) : Except String Bytes :=
  if 0xffffff < frame.payload.length then
    .error "http2: frame payload exceeds 24-bit length"
  else
    .ok (beBytes 3 frame.payload.length ++ (frame.frameType :: frame.flags ::
      (beBytes 4 (frame.streamId &&& 0x7fffffff).toNat ++ frame.payload)))

def encodeSettings (entries : List (Nat × Nat)) : Bytes :=
  entries.flatMap fun (id, val) => beBytes 2 id ++ beBytes 4 val

def parseEntries : Nat → Bytes → List (Nat × Nat)
  | 0, _ => []
  | count + 1, payload =>
      (ofBe (payload.take 2), ofBe ((payload.drop 2).take 4)) ::
        parseEntries count (payload.drop 6)

def parseSettings (payload : Bytes) : Except String (List (Nat × Nat)) :=
  if payload.length % 6 = 0 then .ok (parseEntries (payload.length / 6) payload)
  else .error "http2: SETTINGS payload not a multiple of 6"

/-- The padding that a flag announces, behind `skip` more bytes. -/
def stripPadding (name : String) (padLen : Nat) (data : Bytes) : Except String Bytes :=
  if padLen ≤ data.length then .ok (data.take (data.length - padLen))
  else .error s!"http2: {name} padding exceeds payload"

def headersBlockFragment (frame : Frame) : Except String Bytes := do
  let (padLen, data) ←
    if frame.flag flagPadded then
      match frame.payload with
      | [] => .error "http2: padded HEADERS missing pad length"
      | padLen :: data => .ok (padLen.toNat, data)
    else .ok (0, frame.payload)
  let data ←
    if frame.flag flagPriority then
      if 5 ≤ data.length then .ok (data.drop 5)
      else .error "http2: HEADERS priority field truncated"
    else .ok data
  stripPadding "HEADERS" padLen data

def dataPayload (frame : Frame) : Except String Bytes :=
  if frame.flag flagPadded then
    match frame.payload with
    | [] => .error "http2: padded DATA missing pad length"
    | padLen :: data => stripPadding "DATA" padLen.toNat data
  else .ok frame.payload

/-! ## Reading back -/

theorem readFrame_writeFrame {frame : Frame} {bytes : Bytes}
    (written : writeFrame frame = .ok bytes) (rest : Bytes) :
    readFrame (bytes ++ rest) = .ok (some (frame.masked, rest)) := by
  unfold writeFrame at written
  split_ifs at written with large
  cases written
  obtain ⟨frameType, flags, streamId, payload⟩ := frame
  dsimp only [Frame.masked] at large ⊢
  have three := beBytes_length 3 payload.length
  generalize masking : streamId &&& 0x7fffffff = masked
  generalize header : beBytes 3 payload.length ++
    (frameType :: flags :: beBytes 4 masked.toNat) = first
  have nine : first.length = 9 := by
    rw [← header]
    simp
  have split : beBytes 3 payload.length ++
      (frameType :: flags :: (beBytes 4 masked.toNat ++ payload)) ++ rest =
        first ++ (payload ++ rest) := by
    rw [← header]
    simp
  have counted : ofBe (first.take 3) = payload.length := by
    rw [← header, List.take_left' three, ofBe_beBytes_of_lt _ _ (by omega)]
  have behind : first.drop 5 = beBytes 4 masked.toNat := by
    rw [← header, show 5 = (beBytes 3 payload.length).length + 2 by rw [three],
      List.drop_length_add_append]
    rfl
  have stream : ofBe (beBytes 4 masked.toNat) = masked.toNat :=
    ofBe_beBytes_of_lt _ _ masked.toNat_lt
  have twice : masked &&& 0x7fffffff = masked := by
    rw [← masking, UInt32.and_assoc, UInt32.and_self]
  have typed : first.getD 3 0 = frameType ∧ first.getD 4 0 = flags := by
    rw [← header, List.getD_append_right _ _ _ _ (by omega),
      List.getD_append_right _ _ _ _ (by omega), three]
    exact ⟨rfl, rfl⟩
  have taken := splitExact_append first (payload ++ rest)
  rw [nine] at taken
  rw [split, readFrame, taken]
  dsimp only
  rw [counted, if_neg (by omega), splitExact_append, typed.1, typed.2, behind, stream]
  dsimp only
  rw [UInt32.ofNat_toNat, twice]

/-- Every turn of the loop in `serve` reads a frame. -/
def readFrames : Nat → Bytes → Except String (List Frame)
  | 0, _ => .ok []
  | fuel + 1, data => do
      match ← readFrame data with
      | none => .ok []
      | some (frame, rest) =>
          let frames ← readFrames fuel rest
          .ok (frame :: frames)

/-- A stream of frames is read back frame by frame, their streams without the reserved bit; fewer
bytes than a header at its end are the end of it. -/
theorem readFrames_written (frames : List Frame) : ∀ {fuel : Nat} {pieces : List Bytes}
    {rest : Bytes}, frames.length < fuel → frames.mapM writeFrame = .ok pieces → rest.length < 9 →
    readFrames fuel (pieces.flatten ++ rest) = .ok (frames.map Frame.masked) := by
  induction frames with
  | nil =>
      intro fuel pieces rest enough written short
      obtain ⟨fuel, rfl⟩ := Nat.exists_eq_succ_of_ne_zero (Nat.ne_of_gt enough)
      rw [List.mapM_nil] at written
      cases written
      have ended : splitExact 9 rest = none := (splitExact_eq_none _ _).mpr short
      rw [List.flatten_nil, List.nil_append, readFrames, readFrame, ended]
      rfl
  | cons frame frames ih =>
      intro fuel pieces rest enough written short
      obtain ⟨fuel, rfl⟩ := Nat.exists_eq_succ_of_ne_zero (Nat.ne_of_gt (Nat.zero_lt_of_lt enough))
      rw [List.mapM_cons] at written
      cases first : writeFrame frame with
      | error text =>
          rw [first] at written
          cases written
      | ok piece =>
          cases others : frames.mapM writeFrame with
          | error text =>
              rw [first, others] at written
              cases written
          | ok more =>
              rw [first, others] at written
              cases written
              rw [List.flatten_cons, List.append_assoc, readFrames, readFrame_writeFrame first]
              change (readFrames fuel (more.flatten ++ rest) >>= _) = _
              rw [ih (Nat.lt_of_succ_lt_succ enough) others short]
              rfl

/-- A ping, and settings on a stream with the reserved bit. -/
theorem readFrames_written_ping :
    readFrames 3 ([[0, 0, 1, 6, 0, 0, 0, 0, 0, 42], [0, 0, 0, 4, 1, 0, 0, 0, 1]].flatten ++ [7]) =
      .ok [⟨framePing, 0, 0, [42]⟩, ⟨frameSettings, flagAck, 1, []⟩] := by
  have written : [(⟨framePing, 0, 0, [42]⟩ : Frame), ⟨frameSettings, flagAck, 0x80000001, []⟩].mapM
      writeFrame = .ok [[0, 0, 1, 6, 0, 0, 0, 0, 0, 42], [0, 0, 0, 4, 1, 0, 0, 0, 1]] := by
    decide +kernel
  exact readFrames_written _ (by decide) written (by decide)

end Pantheon.Wire.Http2
