import Mathlib
import Pantheon.Lib.Bytes

/-!
# AES key wrap: `aesKeyWrap` and `aesKeyUnwrap` of `pkg/didcomm/didcomm.go`

Wrapping goes six times over the blocks of the key, each turn mixing one block
with the running value and the number of the turn.  Unwrapping takes the turns
back in the opposite order.
-/

set_option autoImplicit false

namespace Pantheon.Identity

open Pantheon.Lib

/-- The block cipher: under every key a permutation of the blocks of sixteen
bytes. -/
structure Aes where
  encrypt : Bytes → Bytes → Bytes
  decrypt : Bytes → Bytes → Bytes
  length_encrypt : ∀ key block, block.length = 16 → (encrypt key block).length = 16
  decrypt_encrypt : ∀ key block, block.length = 16 → decrypt key (encrypt key block) = block

inductive KeyWrapError where
  | plaintextLength
  | ciphertextLength
  | keySize (size : Nat)
  | integrity
deriving DecidableEq

def KeyWrapError.message : KeyWrapError → String
  | plaintextLength => "aes-kw: plaintext must be ≥16 bytes and a multiple of 8"
  | ciphertextLength => "aes-kw: ciphertext must be ≥24 bytes and a multiple of 8"
  | keySize size => "crypto/aes: invalid key size " ++ toString size
  | integrity => "aes-kw: integrity check failed — wrong key or corrupted ciphertext"

def aesKWDefaultIV : Bytes := List.replicate 8 0xA6

/-- The running value `A` and the blocks `R`. -/
structure WrapState where
  a : Bytes
  r : Bytes
deriving DecidableEq

/-- The block at place `i` of `bytes`. -/
def blockAt (i : Nat) (bytes : Bytes) : Bytes := (bytes.drop (i * 8)).take 8

def setBlock (i : Nat) (block bytes : Bytes) : Bytes :=
  bytes.take (i * 8) ++ block ++ bytes.drop ((i + 1) * 8)

/-- Exclusive or with the number of the turn, a `uint64`. -/
def xorTurn (n : Nat) (turn : Nat × Nat) (half : Bytes) : Bytes :=
  beBytes 8 (ofBe half ^^^ (n * turn.1 + turn.2 + 1) % 2 ^ 64)

def wrapTurn (aes : Aes) (kek : Bytes) (n : Nat) (state : WrapState) (turn : Nat × Nat) :
    WrapState :=
  let buf := aes.encrypt kek (state.a ++ blockAt turn.2 state.r)
  ⟨xorTurn n turn (buf.take 8), setBlock turn.2 (buf.drop 8) state.r⟩

def unwrapTurn (aes : Aes) (kek : Bytes) (n : Nat) (state : WrapState) (turn : Nat × Nat) :
    WrapState :=
  let buf := aes.decrypt kek (xorTurn n turn state.a ++ blockAt turn.2 state.r)
  ⟨buf.take 8, setBlock turn.2 (buf.drop 8) state.r⟩

/-- The turns `(j, i)` in the order in which they are made. -/
def wrapTurns (n : Nat) : List (Nat × Nat) :=
  (List.range 6).flatMap fun j => (List.range n).map fun i => (j, i)

def unwrapTurns (n : Nat) : List (Nat × Nat) :=
  (List.range 6).reverse.flatMap fun j => (List.range n).reverse.map fun i => (j, i)

def validKeySize (key : Bytes) : Bool :=
  decide (key.length = 16 ∨ key.length = 24 ∨ key.length = 32)

def aesKeyWrap (aes : Aes) (kek plaintext : Bytes) : Except KeyWrapError Bytes :=
  if plaintext.length < 16 ∨ plaintext.length % 8 ≠ 0 then .error .plaintextLength
  else if ¬ validKeySize kek then .error (.keySize kek.length)
  else
    let n := plaintext.length / 8
    let state := (wrapTurns n).foldl (wrapTurn aes kek n) ⟨aesKWDefaultIV, plaintext⟩
    .ok (state.a ++ state.r)

def aesKeyUnwrap (aes : Aes) (kek ciphertext : Bytes) : Except KeyWrapError Bytes :=
  if ciphertext.length < 24 ∨ ciphertext.length % 8 ≠ 0 then .error .ciphertextLength
  else if ¬ validKeySize kek then .error (.keySize kek.length)
  else
    let n := ciphertext.length / 8 - 1
    let state := (unwrapTurns n).foldl (unwrapTurn aes kek n)
      ⟨ciphertext.take 8, ciphertext.drop 8⟩
    if state.a ≠ aesKWDefaultIV then .error .integrity
    else .ok state.r

/-! ## Turns that are taken back -/

section Rounds

variable {State Turn : Type} (invariant : State → Prop) (step undo : State → Turn → State)

theorem foldl_invariant (turns : List Turn)
    (keeps : ∀ state, ∀ turn ∈ turns, invariant state → invariant (step state turn)) :
    ∀ state, invariant state → invariant (turns.foldl step state) := by
  induction turns with
  | nil => intro state holds; exact holds
  | cons turn turns ih =>
      intro state holds
      apply ih
      · intro other later member
        exact keeps other later (List.mem_cons_of_mem _ member)
      · exact keeps state turn List.mem_cons_self holds

theorem foldl_taken_back (turns : List Turn)
    (keeps : ∀ state, ∀ turn ∈ turns, invariant state → invariant (step state turn))
    (undoes : ∀ state, ∀ turn ∈ turns, invariant state → undo (step state turn) turn = state) :
    ∀ state, invariant state → turns.reverse.foldl undo (turns.foldl step state) = state := by
  induction turns with
  | nil => intro state _; rfl
  | cons turn turns ih =>
      intro state holds
      have kept := keeps state turn List.mem_cons_self holds
      have back := ih (fun other later member => keeps other later (List.mem_cons_of_mem _ member))
        (fun other later member => undoes other later (List.mem_cons_of_mem _ member)) _ kept
      rw [List.foldl_cons, List.reverse_cons, List.foldl_append, back]
      exact undoes state turn List.mem_cons_self holds

end Rounds

theorem unwrapTurns_eq (n : Nat) : unwrapTurns n = (wrapTurns n).reverse := by
  simp only [unwrapTurns, wrapTurns, List.reverse_flatMap, List.map_reverse]
  rfl

/-! ## One turn -/

/-- The running value is one block and there are `n` blocks. -/
structure WrapState.Blocks (n : Nat) (state : WrapState) : Prop where
  a : state.a.length = 8
  r : state.r.length = 8 * n

theorem blockAt_length (n i : Nat) (bytes : Bytes) (length : bytes.length = 8 * n) (inRange : i < n) :
    (blockAt i bytes).length = 8 := by
  rw [blockAt, List.length_take, List.length_drop]
  omega

theorem blockAt_setBlock (n i : Nat) (block bytes : Bytes) (length : bytes.length = 8 * n)
    (inRange : i < n) (width : block.length = 8) : blockAt i (setBlock i block bytes) = block := by
  have front : (bytes.take (i * 8)).length = i * 8 := by
    rw [List.length_take]
    omega
  rw [blockAt, setBlock, List.append_assoc, List.drop_left' front, List.take_left' width]

theorem setBlock_setBlock (n i : Nat) (block other bytes : Bytes) (length : bytes.length = 8 * n)
    (inRange : i < n) (width : block.length = 8) :
    setBlock i other (setBlock i block bytes) = setBlock i other bytes := by
  have front : (bytes.take (i * 8)).length = i * 8 := by
    rw [List.length_take]
    omega
  have both : (bytes.take (i * 8) ++ block).length = (i + 1) * 8 := by
    rw [List.length_append]
    omega
  have same : (setBlock i block bytes).take (i * 8) = bytes.take (i * 8) := by
    rw [setBlock, List.append_assoc, List.take_left' front]
  have behind : (setBlock i block bytes).drop ((i + 1) * 8) = bytes.drop ((i + 1) * 8) := by
    rw [setBlock, List.drop_left' both]
  rw [setBlock, same, behind, setBlock]

theorem setBlock_blockAt (i : Nat) (bytes : Bytes) : setBlock i (blockAt i bytes) bytes = bytes := by
  have behind : bytes.drop ((i + 1) * 8) = (bytes.drop (i * 8)).drop 8 := by
    rw [List.drop_drop]
    congr 1
    omega
  rw [setBlock, blockAt, behind, List.append_assoc, List.take_append_drop, List.take_append_drop]

theorem setBlock_length (n i : Nat) (block bytes : Bytes) (length : bytes.length = 8 * n)
    (inRange : i < n) (width : block.length = 8) : (setBlock i block bytes).length = 8 * n := by
  rw [setBlock, List.length_append, List.length_append, List.length_take, List.length_drop]
  omega

theorem ofBe_eight_lt (half : Bytes) (width : half.length = 8) : ofBe half < 2 ^ 64 := by
  have bound := ofBe_lt half
  rw [width] at bound
  exact bound

theorem beBytes_ofBe (bytes : Bytes) : beBytes bytes.length (ofBe bytes) = bytes := by
  induction bytes using List.reverseRecOn with
  | nil => rfl
  | append_singleton bytes byte ih =>
      have small : byte.toNat < 256 := byte.toNat_lt
      have high : (ofBe bytes * 256 + byte.toNat) / 256 = ofBe bytes := by omega
      have low : (ofBe bytes * 256 + byte.toNat) % 256 = byte.toNat := by omega
      rw [List.length_append, List.length_singleton, beBytes, ofBe_append_single, high, low, ih,
        UInt8.ofNat_toNat]

theorem xorTurn_xorTurn (n : Nat) (turn : Nat × Nat) (half : Bytes) (width : half.length = 8) :
    xorTurn n turn (xorTurn n turn half) = half := by
  have small := Nat.xor_lt_two_pow (ofBe_eight_lt half width)
    (Nat.mod_lt (n * turn.1 + turn.2 + 1) (Nat.two_pow_pos 64))
  have read : ofBe (beBytes 8 (ofBe half ^^^ (n * turn.1 + turn.2 + 1) % 2 ^ 64)) =
      ofBe half ^^^ (n * turn.1 + turn.2 + 1) % 2 ^ 64 :=
    ofBe_beBytes_of_lt 8 _ small
  rw [xorTurn, xorTurn, read, Nat.xor_xor_cancel_right]
  rw [← width]
  exact beBytes_ofBe half

theorem xorTurn_length (n : Nat) (turn : Nat × Nat) (half : Bytes) :
    (xorTurn n turn half).length = 8 :=
  beBytes_length 8 _

theorem wrapTurn_blocks (aes : Aes) (kek : Bytes) (n : Nat) (state : WrapState)
    (turn : Nat × Nat) (inRange : turn.2 < n) (blocks : state.Blocks n) :
    (wrapTurn aes kek n state turn).Blocks n := by
  have width : (state.a ++ blockAt turn.2 state.r).length = 16 := by
    rw [List.length_append, blocks.a, blockAt_length n turn.2 state.r blocks.r inRange]
  have encrypted := aes.length_encrypt kek _ width
  refine ⟨xorTurn_length n turn _, ?_⟩
  apply setBlock_length n turn.2 _ _ blocks.r inRange
  rw [List.length_drop, encrypted]

theorem unwrapTurn_wrapTurn (aes : Aes) (kek : Bytes) (n : Nat) (state : WrapState)
    (turn : Nat × Nat) (inRange : turn.2 < n) (blocks : state.Blocks n) :
    unwrapTurn aes kek n (wrapTurn aes kek n state turn) turn = state := by
  have width : (state.a ++ blockAt turn.2 state.r).length = 16 := by
    rw [List.length_append, blocks.a, blockAt_length n turn.2 state.r blocks.r inRange]
  have encrypted := aes.length_encrypt kek _ width
  have upper : ((aes.encrypt kek (state.a ++ blockAt turn.2 state.r)).take 8).length = 8 := by
    rw [List.length_take, encrypted]
    rfl
  have lower : ((aes.encrypt kek (state.a ++ blockAt turn.2 state.r)).drop 8).length = 8 := by
    rw [List.length_drop, encrypted]
  have buffer : aes.decrypt kek (xorTurn n turn (wrapTurn aes kek n state turn).a ++
      blockAt turn.2 (wrapTurn aes kek n state turn).r) = state.a ++ blockAt turn.2 state.r := by
    simp only [wrapTurn]
    rw [xorTurn_xorTurn n turn _ upper,
      blockAt_setBlock n turn.2 _ state.r blocks.r inRange lower, List.take_append_drop]
    exact aes.decrypt_encrypt kek _ width
  simp only [unwrapTurn, buffer]
  simp only [wrapTurn]
  rw [List.take_left' blocks.a, List.drop_left' blocks.a,
    setBlock_setBlock n turn.2 _ _ state.r blocks.r inRange lower, setBlock_blockAt]

theorem mem_wrapTurns (n : Nat) (turn : Nat × Nat) (member : turn ∈ wrapTurns n) : turn.2 < n := by
  obtain ⟨j, _, inner⟩ := List.mem_flatMap.mp member
  obtain ⟨i, inRange, rfl⟩ := List.mem_map.mp inner
  exact List.mem_range.mp inRange

/-! ## The whole key -/

section Wrapped

variable (aes : Aes) (kek plaintext : Bytes)

def wrappedState : WrapState :=
  (wrapTurns (plaintext.length / 8)).foldl (wrapTurn aes kek (plaintext.length / 8))
    ⟨aesKWDefaultIV, plaintext⟩

theorem start_blocks (whole : plaintext.length % 8 = 0) :
    WrapState.Blocks (plaintext.length / 8) ⟨aesKWDefaultIV, plaintext⟩ :=
  ⟨rfl, by dsimp only; omega⟩

theorem wrappedState_blocks (whole : plaintext.length % 8 = 0) :
    (wrappedState aes kek plaintext).Blocks (plaintext.length / 8) := by
  apply foldl_invariant
  · intro state turn member blocks
    exact wrapTurn_blocks aes kek _ state turn (mem_wrapTurns _ turn member) blocks
  · exact start_blocks plaintext whole

theorem wrappedState_taken_back (whole : plaintext.length % 8 = 0) :
    (unwrapTurns (plaintext.length / 8)).foldl (unwrapTurn aes kek (plaintext.length / 8))
      (wrappedState aes kek plaintext) = ⟨aesKWDefaultIV, plaintext⟩ := by
  rw [unwrapTurns_eq]
  apply foldl_taken_back (WrapState.Blocks (plaintext.length / 8))
  · intro state turn member blocks
    exact wrapTurn_blocks aes kek _ state turn (mem_wrapTurns _ turn member) blocks
  · intro state turn member blocks
    exact unwrapTurn_wrapTurn aes kek _ state turn (mem_wrapTurns _ turn member) blocks
  · exact start_blocks plaintext whole

/-- A key of whole blocks, at least two of them, is wrapped under a key of a
valid size, and what comes out is unwrapped to it. -/
theorem aesKeyUnwrap_aesKeyWrap (size : validKeySize kek) (long : 16 ≤ plaintext.length)
    (whole : plaintext.length % 8 = 0) :
    ∃ wrapped, aesKeyWrap aes kek plaintext = .ok wrapped ∧
      aesKeyUnwrap aes kek wrapped = .ok plaintext := by
  have blocks := wrappedState_blocks aes kek plaintext whole
  have back := wrappedState_taken_back aes kek plaintext whole
  have width : ((wrappedState aes kek plaintext).a ++ (wrappedState aes kek plaintext).r).length =
      plaintext.length + 8 := by
    rw [List.length_append, blocks.a, blocks.r]
    omega
  have turns : ((wrappedState aes kek plaintext).a ++
      (wrappedState aes kek plaintext).r).length / 8 - 1 = plaintext.length / 8 := by
    rw [width]
    omega
  refine ⟨(wrappedState aes kek plaintext).a ++ (wrappedState aes kek plaintext).r, ?_, ?_⟩
  · rw [aesKeyWrap, if_neg (by omega), if_neg (not_not.mpr size)]
    rfl
  · rw [aesKeyUnwrap, if_neg (by rw [width]; omega), if_neg (not_not.mpr size)]
    simp only [turns, List.take_left' blocks.a, List.drop_left' blocks.a, back]
    rw [if_neg (by simp)]

end Wrapped

theorem aesKeyUnwrap_of_aesKeyWrap (aes : Aes) (kek plaintext wrapped : Bytes)
    (run : aesKeyWrap aes kek plaintext = .ok wrapped) :
    aesKeyUnwrap aes kek wrapped = .ok plaintext := by
  have checked := run
  unfold aesKeyWrap at checked
  split_ifs at checked with short size
  rw [not_or, not_lt, not_not] at short
  obtain ⟨other, wraps, unwraps⟩ :=
    aesKeyUnwrap_aesKeyWrap aes kek plaintext size short.1 short.2
  rw [run] at wraps
  cases Except.ok.inj wraps
  exact unwraps

end Pantheon.Identity
