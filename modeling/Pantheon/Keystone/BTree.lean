import Mathlib
import Pantheon.Keystone.Wal

/-!
# The on-disk B-tree of `storage/btree.rs`

The index file is a byte string: an eight-byte root pointer, then nodes at the
offsets their parents name.  Every call opens the file anew, so the stream
position starts at zero; `write_node` writes wherever the last read or write
left it.

Recursion follows offsets found in the file.  `depth` bounds the number of
levels below the root that a call may descend.
-/

set_option autoImplicit false

namespace Pantheon.Keystone

open Pantheon.Lib

/-- `ORDER`, the keys at which a node is split. -/
def btreeOrder : Nat := 64

inductive BTreeNode where
  | internal (keys : List Bytes) (children : List Nat)
  | leaf (keys values : List Bytes)
deriving DecidableEq

/-- A short read, an index past the end of a vector, or a recursion that does
not come back. -/
inductive BTreeError where
  | io
  | outOfBounds
  | tooDeep
deriving DecidableEq

/-! ## Node format -/

def encodeBlob (blob : Bytes) : Bytes := beBytes 4 blob.length ++ blob

def encodeNode : BTreeNode → Bytes
  | .leaf keys values =>
      [0] ++ beBytes 4 keys.length ++ keys.flatMap encodeBlob ++ values.flatMap encodeBlob
  | .internal keys children =>
      [1] ++ beBytes 4 keys.length ++ keys.flatMap encodeBlob ++ children.flatMap (beBytes 8)

def parseBlob (buf : Bytes) : Option (Bytes × Bytes) := do
  let (len, buf) ← splitExact 4 buf
  splitExact (ofBe len) buf

def parseBlobs : Nat → Bytes → Option (List Bytes × Bytes)
  | 0, buf => some ([], buf)
  | count + 1, buf => do
      let (blob, buf) ← parseBlob buf
      let (blobs, buf) ← parseBlobs count buf
      some (blob :: blobs, buf)

def parseOffsets : Nat → Bytes → Option (List Nat × Bytes)
  | 0, buf => some ([], buf)
  | count + 1, buf => do
      let (offset, buf) ← splitExact 8 buf
      let (offsets, buf) ← parseOffsets count buf
      some (ofBe offset :: offsets, buf)

def parseNode (buf : Bytes) : Option (BTreeNode × Bytes) := do
  let (tag, buf) ← splitExact 1 buf
  let (count, buf) ← splitExact 4 buf
  if tag = [0] then
    let (keys, buf) ← parseBlobs (ofBe count) buf
    let (values, buf) ← parseBlobs (ofBe count) buf
    some (.leaf keys values, buf)
  else
    let (keys, buf) ← parseBlobs (ofBe count) buf
    let (children, buf) ← parseOffsets (ofBe count + 1) buf
    some (.internal keys children, buf)

def readNode (file : Bytes) (offset : Nat) : Option (BTreeNode × Nat) :=
  (parseNode (file.drop offset)).map fun (node, rest) =>
    (node, offset + ((file.drop offset).length - rest.length))

def writeNodeAt (file : Bytes) (offset : Nat) (node : BTreeNode) : Bytes × Nat :=
  (writeAt file offset (encodeNode node), offset + (encodeNode node).length)

/-! ## Descent -/

/-- `binary_search_by` on sorted keys: where the key is, or where it belongs. -/
def binarySearch (keys : List Bytes) (key : Bytes) : Except Nat Nat :=
  let pos := (keys.takeWhile fun other => decide (other < key)).length
  if keys[pos]? = some key then .ok pos else .error pos

def childIndex (keys : List Bytes) (key : Bytes) : Nat :=
  match binarySearch keys key with
  | .ok pos => pos + 1
  | .error pos => pos

def entryIndex (keys : List Bytes) (key : Bytes) : Nat :=
  match binarySearch keys key with
  | .ok pos => pos
  | .error pos => pos

abbrev Promotion := Bytes × Nat × Nat

/-- What an insertion leaves: a split to record above, the file, the position. -/
abbrev Inserted := Option Promotion × Bytes × Nat

def placeEntry (keys values : List Bytes) (key value : Bytes) : List Bytes × List Bytes :=
  let pos := entryIndex keys key
  if keys[pos]? = some key then (keys, values.set pos value)
  else (keys.insertIdx pos key, values.insertIdx pos value)

/-- The leaf case.  On a split the key at `mid` is promoted and its entry goes
to neither half. -/
def insertIntoLeaf (file : Bytes) (offset pos : Nat) (keys values : List Bytes)
    (key value : Bytes) : Inserted :=
  let (keys, values) := placeEntry keys values key value
  if btreeOrder ≤ keys.length then
    let mid := keys.length / 2
    let (file, after) := writeNodeAt file pos (.leaf (keys.drop (mid + 1)) (values.drop (mid + 1)))
    let (file, last) := writeNodeAt file after (.leaf (keys.take mid) (values.take mid))
    (some (keys.getD mid [], after, pos), file, last)
  else
    let (file, last) := writeNodeAt file offset (.leaf keys values)
    (none, file, last)

/-- A child was split: record it, and split this node in turn when it is full. -/
def insertPromotion (file : Bytes) (offset pos : Nat) (keys : List Bytes) (children : List Nat)
    (promotion : Promotion) : Inserted :=
  let (promoted, left, right) := promotion
  let index := entryIndex keys promoted
  let keys := keys.insertIdx index promoted
  let children := (children.set index left).insertIdx (index + 1) right
  if btreeOrder ≤ keys.length then
    let mid := keys.length / 2
    let (file, _) := writeNodeAt file pos
      (.internal (keys.drop (mid + 1)) (children.drop (mid + 1)))
    let (file, last) := writeNodeAt file offset (.internal (keys.take mid) (children.take mid))
    (some (keys.getD mid [], offset, pos), file, last)
  else
    let (file, last) := writeNodeAt file offset (.internal keys children)
    (none, file, last)

def insertIntoNode (key value : Bytes) : Nat → Bytes → Nat → Except BTreeError Inserted
  | depth, file, offset =>
      match readNode file offset with
      | none => .error .io
      | some (.leaf keys values, pos) => .ok (insertIntoLeaf file offset pos keys values key value)
      | some (.internal keys children, _) =>
          match depth with
          | 0 => .error .tooDeep
          | depth + 1 =>
              match children[childIndex keys key]? with
              | none => .error .outOfBounds
              | some child =>
                  match insertIntoNode key value depth file child with
                  | .error error => .error error
                  | .ok (none, file, pos) => .ok (none, file, pos)
                  | .ok (some promotion, file, pos) =>
                      .ok (insertPromotion file offset pos keys children promotion)

def searchInNode (file key : Bytes) : Nat → Nat → Except BTreeError (Option Bytes)
  | depth, offset =>
      match readNode file offset with
      | none => .error .io
      | some (.leaf keys values, _) =>
          match binarySearch keys key with
          | .error _ => .ok none
          | .ok pos =>
              match values[pos]? with
              | none => .error .outOfBounds
              | some value => .ok (some value)
      | some (.internal keys children, _) =>
          match depth with
          | 0 => .error .tooDeep
          | depth + 1 =>
              match children[childIndex keys key]? with
              | none => .error .outOfBounds
              | some child => searchInNode file key depth child

def scanNode (file : Bytes) : Nat → Nat → Except BTreeError (List (Bytes × Bytes))
  | depth, offset =>
      match readNode file offset with
      | none => .error .io
      | some (.leaf keys values, _) => .ok (keys.zip values)
      | some (.internal _ children, _) =>
          match depth with
          | 0 => .error .tooDeep
          | depth + 1 => (children.mapM (scanNode file depth)).map List.flatten

/-! ## The tree -/

structure BTree where
  file : Bytes
  root : Option Nat
deriving DecidableEq

namespace BTree

/-- A tree opened on a path that does not exist. -/
def fresh : BTree := ⟨[], none⟩

def writeRoot (file : Bytes) (offset : Nat) : Bytes := writeAt file 0 (beBytes 8 offset)

def insert (depth : Nat) (tree : BTree) (key value : Bytes) : Except BTreeError BTree :=
  match tree.root with
  | none =>
      let file := writeAt tree.file 0 (beBytes 8 0)
      let (file, _) := writeNodeAt file 8 (.leaf [key] [value])
      .ok ⟨writeRoot file 8, some 8⟩
  | some root =>
      match insertIntoNode key value depth tree.file root with
      | .error error => .error error
      | .ok (none, file, _) => .ok ⟨file, some root⟩
      | .ok (some (promoted, left, right), file, pos) =>
          let (file, _) := writeNodeAt file pos (.internal [promoted] [left, right])
          .ok ⟨writeRoot file pos, some pos⟩

def search (depth : Nat) (tree : BTree) (key : Bytes) : Except BTreeError (Option Bytes) :=
  match tree.root with
  | none => .ok none
  | some root => searchInNode tree.file key depth root

def scan (depth : Nat) (tree : BTree) : Except BTreeError (List (Bytes × Bytes)) :=
  match tree.root with
  | none => .ok []
  | some root => scanNode tree.file depth root

def insertAll (depth : Nat) (tree : BTree) : List (Bytes × Bytes) → Except BTreeError BTree
  | [] => .ok tree
  | (key, value) :: rest =>
      match tree.insert depth key value with
      | .error error => .error error
      | .ok tree => tree.insertAll depth rest

end BTree

end Pantheon.Keystone
