import Mathlib
import Pantheon.Lib.Bytes

/-!
# Pieces of a buffer at an offset

A file whose sections are found through stored offsets is read at positions of
the whole buffer.  `HoldsAt buffer offset piece` says that the buffer has the
piece there; writers establish it, bounds-checked reads consume it.
-/

set_option autoImplicit false

namespace Pantheon.Lib

def HoldsAt (buffer : Bytes) (offset : Nat) (piece : Bytes) : Prop :=
  ∃ front rest, buffer = front ++ piece ++ rest ∧ front.length = offset

namespace HoldsAt

variable {buffer piece other : Bytes} {offset : Nat}

theorem left (holds : HoldsAt buffer offset (piece ++ other)) : HoldsAt buffer offset piece := by
  obtain ⟨front, rest, exact, length⟩ := holds
  exact ⟨front, other ++ rest, by rw [exact]; simp, length⟩

theorem right (holds : HoldsAt buffer offset (piece ++ other)) :
    HoldsAt buffer (offset + piece.length) other := by
  obtain ⟨front, rest, exact, length⟩ := holds
  exact ⟨front ++ piece, rest, by rw [exact]; simp, by rw [List.length_append, length]⟩

theorem fits (holds : HoldsAt buffer offset piece) : offset + piece.length ≤ buffer.length := by
  obtain ⟨front, rest, rfl, rfl⟩ := holds
  simp

theorem slice (holds : HoldsAt buffer offset piece) :
    (buffer.drop offset).take piece.length = piece := by
  obtain ⟨front, rest, rfl, rfl⟩ := holds
  rw [List.append_assoc, List.drop_left, List.take_left]

theorem byte {value : UInt8} (holds : HoldsAt buffer offset [value]) :
    buffer[offset]? = some value := by
  obtain ⟨front, rest, rfl, rfl⟩ := holds
  simp

end HoldsAt

/-- The bytes `offset .. offset + length`, or the error when the buffer ends
before that. -/
def readSlice {Error : Type} (buffer : Bytes) (offset length : Nat) (truncated : Error) :
    Except Error Bytes :=
  if buffer.length < offset + length then .error truncated
  else .ok ((buffer.drop offset).take length)

theorem readSlice_ok {Error : Type} {buffer piece : Bytes} {offset : Nat}
    (holds : HoldsAt buffer offset piece) (truncated : Error) :
    readSlice buffer offset piece.length truncated = .ok piece := by
  have fits := holds.fits
  unfold readSlice
  rw [if_neg (by omega), holds.slice]

/-- A big-endian word of `width` bytes. -/
def readBe {Error : Type} (buffer : Bytes) (offset width : Nat) (truncated : Error) :
    Except Error Nat :=
  (readSlice buffer offset width truncated).map ofBe

theorem readBe_ok {Error : Type} {buffer : Bytes} {offset width number : Nat}
    (holds : HoldsAt buffer offset (beBytes width number)) (fits : number < 256 ^ width)
    (truncated : Error) : readBe buffer offset width truncated = .ok number := by
  have read := readSlice_ok holds truncated
  rw [beBytes_length] at read
  rw [readBe, read, Except.map, ofBe_beBytes_of_lt width number fits]

end Pantheon.Lib
