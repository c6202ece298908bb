import Mathlib
import Pantheon.Lib.OrdMap
import Pantheon.Keystone.BTree

/-!
# What the B-tree remembers

Below sixty-four distinct keys the tree is one leaf at offset 8, rewritten in
place, and it is the map of the insertions.  The insertion of the sixty-fourth
splits the leaf and drops the promoted entry, so no longer sequence is safe.
-/

set_option autoImplicit false

namespace Pantheon.Keystone

open Pantheon.Lib

variable {file key value : Bytes} {offset depth pos : Nat} {node : BTreeNode}
  {keys values : List Bytes} {tree : BTree} {map : OrdMap Bytes Bytes}

/-! ## Reading back what was written -/

/-- Every length fits its four-byte field, every offset its eight-byte field. -/
def BTreeNode.Fits : BTreeNode → Prop
  | .leaf keys values => keys.length < 2 ^ 32 ∧ keys.length = values.length ∧
      (∀ key ∈ keys, key.length < 2 ^ 32) ∧ ∀ value ∈ values, value.length < 2 ^ 32
  | .internal keys children => keys.length < 2 ^ 32 ∧ children.length = keys.length + 1 ∧
      (∀ key ∈ keys, key.length < 2 ^ 32) ∧ ∀ child ∈ children, child < 2 ^ 64

theorem parseBlob_encodeBlob (blob rest : Bytes) (fits : blob.length < 2 ^ 32) :
    parseBlob (encodeBlob blob ++ rest) = some (blob, rest) := by
  unfold parseBlob encodeBlob
  simp only [List.append_assoc, splitExact_beBytes, Option.bind_eq_bind, Option.bind_some,
    ofBe_beBytes_four _ fits, splitExact_append]

theorem parseBlobs_encode : ∀ (blobs : List Bytes) (rest : Bytes),
    (∀ blob ∈ blobs, blob.length < 2 ^ 32) →
    parseBlobs blobs.length (blobs.flatMap encodeBlob ++ rest) = some (blobs, rest) := by
  intro blobs
  induction blobs with
  | nil => intro rest _; rfl
  | cons blob blobs ih =>
      intro rest fits
      simp only [List.flatMap_cons, List.append_assoc, List.length_cons, parseBlobs,
        parseBlob_encodeBlob blob _ (fits blob List.mem_cons_self), Option.bind_eq_bind,
        Option.bind_some, ih rest fun other member => fits other (List.mem_cons_of_mem _ member)]

theorem parseOffsets_encode : ∀ (offsets : List Nat) (rest : Bytes),
    (∀ offset ∈ offsets, offset < 2 ^ 64) →
    parseOffsets offsets.length (offsets.flatMap (beBytes 8) ++ rest) = some (offsets, rest) := by
  intro offsets
  induction offsets with
  | nil => intro rest _; rfl
  | cons offset offsets ih =>
      intro rest fits
      simp only [List.flatMap_cons, List.append_assoc, List.length_cons, parseOffsets,
        splitExact_beBytes, ofBe_beBytes_eight offset (fits offset List.mem_cons_self),
        Option.bind_eq_bind, Option.bind_some,
        ih rest fun other member => fits other (List.mem_cons_of_mem _ member)]

theorem parseNode_encodeNode (node : BTreeNode) (rest : Bytes) (fits : node.Fits) :
    parseNode (encodeNode node ++ rest) = some (node, rest) := by
  cases node with
  | leaf keys values =>
      obtain ⟨count, sameLength, keysFit, valuesFit⟩ := fits
      have tag : ∀ buf : Bytes, splitExact 1 (0 :: buf) = some ([0], buf) :=
        fun buf => splitExact_append [0] buf
      unfold parseNode encodeNode
      simp only [List.append_assoc, List.cons_append, List.nil_append, tag,
        Option.bind_eq_bind,
        Option.bind_some, splitExact_beBytes, if_true, ofBe_beBytes_four _ count]
      rw [parseBlobs_encode keys _ keysFit]
      simp only [Option.bind_some]
      rw [sameLength, parseBlobs_encode values _ valuesFit]
      rfl
  | internal keys children =>
      obtain ⟨count, sameLength, keysFit, childrenFit⟩ := fits
      have tag : ∀ buf : Bytes, splitExact 1 (1 :: buf) = some ([1], buf) :=
        fun buf => splitExact_append [1] buf
      have isInternal : ([1] : Bytes) ≠ [0] := by decide
      unfold parseNode encodeNode
      simp only [List.append_assoc, List.cons_append, List.nil_append, tag,
        Option.bind_eq_bind,
        Option.bind_some, splitExact_beBytes, ofBe_beBytes_four _ count]
      rw [if_neg isInternal, parseBlobs_encode keys _ keysFit]
      simp only [Option.bind_some]
      rw [← sameLength, parseOffsets_encode children _ childrenFit]
      rfl

/-- The node stands in the file at the offset, whatever comes behind it. -/
def StoredAt (file : Bytes) (offset : Nat) (node : BTreeNode) : Prop :=
  ∃ front rest, file = front ++ encodeNode node ++ rest ∧ front.length = offset

theorem readNode_of_storedAt
    (stored : StoredAt file offset node) (fits : node.Fits) :
    readNode file offset = some (node, offset + (encodeNode node).length) := by
  obtain ⟨front, rest, rfl, rfl⟩ := stored
  have dropped : (front ++ encodeNode node ++ rest).drop front.length = encodeNode node ++ rest := by
    rw [List.append_assoc, List.drop_left]
  unfold readNode
  rw [dropped, parseNode_encodeNode node rest fits]
  simp

theorem storedAt_length
    (stored : StoredAt file offset node) : offset + (encodeNode node).length ≤ file.length := by
  obtain ⟨front, rest, rfl, rfl⟩ := stored
  simp only [List.length_append]
  omega

theorem storedAt_writeNodeAt (file : Bytes) (offset : Nat) (node : BTreeNode)
    (inside : offset ≤ file.length) : StoredAt (writeNodeAt file offset node).1 offset node := by
  refine ⟨file.take offset, file.drop (offset + (encodeNode node).length), ?_, ?_⟩
  · have noGap : offset - file.length = 0 := by omega
    simp [writeNodeAt, writeAt, noGap]
  · simp only [List.length_take]
    omega

theorem storedAt_writeAt_behind
    (stored : StoredAt file offset node) (at' : Nat) (data : Bytes)
    (behind : offset + (encodeNode node).length ≤ at') :
    StoredAt (writeAt file at' data) offset node := by
  obtain ⟨front, rest, rfl, rfl⟩ := stored
  refine ⟨front, rest.take (at' - (front.length + (encodeNode node).length)) ++
    (List.replicate (at' - (front ++ encodeNode node ++ rest).length) 0 ++ data ++
      (front ++ encodeNode node ++ rest).drop (at' + data.length)), ?_, rfl⟩
  have taken : (front ++ encodeNode node ++ rest).take at' =
      front ++ encodeNode node ++ rest.take (at' - (front.length + (encodeNode node).length)) := by
    rw [List.take_append, List.take_of_length_le (by simpa using behind)]
    simp
  unfold writeAt
  rw [taken]
  simp only [List.append_assoc]

theorem storedAt_writeAt_before
    (stored : StoredAt file offset node) (data : Bytes) (before : data.length ≤ offset) :
    StoredAt (writeAt file 0 data) offset node := by
  obtain ⟨front, rest, rfl, rfl⟩ := stored
  refine ⟨data ++ front.drop data.length, rest, ?_, ?_⟩
  · simp only [writeAt, List.take_zero, Nat.zero_sub, List.replicate_zero, List.nil_append,
      Nat.zero_add, List.append_assoc, List.append_cancel_left_eq]
    rw [List.drop_append_of_le_length before]
  · simp only [List.length_append, List.length_drop]
    omega


/-! ## One leaf is an ordered map -/

def BTreeNode.ofEntries (entries : List (Bytes × Bytes)) : BTreeNode :=
  .leaf (entries.map Prod.fst) (entries.map Prod.snd)

theorem binarySearch_cons_below (head : Bytes) (keys : List Bytes) (key : Bytes)
    (below : head < key) : binarySearch (head :: keys) key =
      match binarySearch keys key with
      | .ok pos => .ok (pos + 1)
      | .error pos => .error (pos + 1) := by
  unfold binarySearch
  simp only [List.takeWhile_cons, below, decide_true, if_true, List.length_cons,
    List.getElem?_cons_succ]
  split_ifs <;> rfl

theorem binarySearch_cons_same (keys : List Bytes) (key : Bytes) :
    binarySearch (key :: keys) key = .ok 0 := by
  simp [binarySearch]

theorem binarySearch_cons_above (head : Bytes) (keys : List Bytes) (key : Bytes)
    (above : key < head) : binarySearch (head :: keys) key = .error 0 := by
  have notBelow : ¬ head < key := not_lt_of_gt above
  simp [binarySearch, notBelow, ne_of_gt above]

theorem placeEntry_cons_below (head other : Bytes) (keys values : List Bytes) (key value : Bytes)
    (below : head < key) : placeEntry (head :: keys) (other :: values) key value =
      (head :: (placeEntry keys values key value).1,
        other :: (placeEntry keys values key value).2) := by
  unfold placeEntry entryIndex
  rw [binarySearch_cons_below head keys key below]
  cases binarySearch keys key with
  | ok pos =>
      simp only [List.getElem?_cons_succ]
      split_ifs <;> simp
  | error pos =>
      simp only [List.getElem?_cons_succ]
      split_ifs <;> simp

theorem placeEntry_insertList (key value : Bytes) : ∀ entries : List (Bytes × Bytes),
    placeEntry (entries.map Prod.fst) (entries.map Prod.snd) key value =
      ((OrdMap.insertList key value entries).map Prod.fst,
        (OrdMap.insertList key value entries).map Prod.snd) := by
  intro entries
  induction entries with
  | nil => rfl
  | cons head rest ih =>
      rcases lt_trichotomy head.1 key with below | same | above
      · have notAbove : ¬ key < head.1 := not_lt_of_gt below
        simp only [List.map_cons, placeEntry_cons_below _ _ _ _ _ _ below, ih, OrdMap.insertList,
          notAbove, ne_of_gt below, if_false]
      · simp [placeEntry, entryIndex, same, binarySearch_cons_same, OrdMap.insertList]
      · simp [placeEntry, entryIndex, binarySearch_cons_above _ _ _ above, OrdMap.insertList,
          above, ne_of_gt above]

def lookupLeaf (keys values : List Bytes) (key : Bytes) : Except BTreeError (Option Bytes) :=
  match binarySearch keys key with
  | .error _ => .ok none
  | .ok pos =>
      match values[pos]? with
      | none => .error .outOfBounds
      | some value => .ok (some value)

theorem searchInNode_leaf
    (found : readNode file offset = some (.leaf keys values, pos)) :
    searchInNode file key depth offset = lookupLeaf keys values key := by
  unfold searchInNode
  rw [found]
  rfl

theorem insertIntoNode_leaf
    (found : readNode file offset = some (.leaf keys values, pos)) :
    insertIntoNode key value depth file offset =
      .ok (insertIntoLeaf file offset pos keys values key value) := by
  unfold insertIntoNode
  rw [found]

theorem lookupLeaf_sorted (key : Bytes) : ∀ entries : List (Bytes × Bytes),
    entries.Pairwise (fun left right => left.1 < right.1) →
    lookupLeaf (entries.map Prod.fst) (entries.map Prod.snd) key =
      .ok ((entries.find? fun entry => decide (entry.1 = key)).map Prod.snd) := by
  intro entries
  induction entries with
  | nil => intro _; rfl
  | cons head rest ih =>
      intro sorted
      obtain ⟨headBelow, restSorted⟩ := List.pairwise_cons.mp sorted
      rcases lt_trichotomy head.1 key with below | same | above
      · have step : lookupLeaf (head.1 :: rest.map Prod.fst) (head.2 :: rest.map Prod.snd) key =
            lookupLeaf (rest.map Prod.fst) (rest.map Prod.snd) key := by
          unfold lookupLeaf
          rw [binarySearch_cons_below _ _ _ below]
          cases binarySearch (rest.map Prod.fst) key <;> rfl
        simp only [List.map_cons, step, ih restSorted, List.find?_cons, ne_of_lt below,
          decide_false]
      · simp [lookupLeaf, same, binarySearch_cons_same]
      · have absent : rest.find? (fun entry => decide (entry.1 = key)) = none := by
          rw [List.find?_eq_none]
          intro entry member
          simpa using ne_of_gt (above.trans (headBelow entry member))
        simp [lookupLeaf, binarySearch_cons_above _ _ _ above, ne_of_gt above, absent]

/-! ## The map of the insertions -/

/-- The last value inserted under a key. -/
def lastValue (inserts : List (Bytes × Bytes)) (key : Bytes) : Option Bytes :=
  (inserts.reverse.find? fun entry => decide (entry.1 = key)).map Prod.snd

def contents (inserts : List (Bytes × Bytes)) : OrdMap Bytes Bytes :=
  inserts.foldl (fun map entry => map.insert entry.1 entry.2) OrdMap.empty

theorem contents_append (inserts : List (Bytes × Bytes)) (entry : Bytes × Bytes) :
    contents (inserts ++ [entry]) = (contents inserts).insert entry.1 entry.2 := by
  simp [contents]

theorem lastValue_append (inserts : List (Bytes × Bytes)) (entry : Bytes × Bytes) (key : Bytes) :
    lastValue (inserts ++ [entry]) key =
      if key = entry.1 then some entry.2 else lastValue inserts key := by
  by_cases same : entry.1 = key
  · simp [lastValue, same]
  · simp [lastValue, same, Ne.symm same]

theorem get?_contents (inserts : List (Bytes × Bytes)) (key : Bytes) :
    (contents inserts).get? key = lastValue inserts key := by
  induction inserts using List.reverseRecOn with
  | nil => rfl
  | append_singleton inserts entry ih =>
      rw [contents_append, OrdMap.get?_insert, lastValue_append, ih]
      split_ifs <;> rfl

theorem mem_contents (inserts : List (Bytes × Bytes)) :
    ∀ entry ∈ (contents inserts).toList, entry ∈ inserts := by
  induction inserts using List.reverseRecOn with
  | nil => intro entry member; exact absurd member List.not_mem_nil
  | append_singleton inserts entry ih =>
      intro other member
      rw [contents_append] at member
      rcases (OrdMap.mem_insert _ _ _ _).mp member with rfl | ⟨held, _⟩
      · simp
      · exact List.mem_append_left _ (ih other held)

def distinctKeys (inserts : List (Bytes × Bytes)) : Nat := (inserts.map Prod.fst).toFinset.card

theorem contents_length (inserts : List (Bytes × Bytes)) :
    (contents inserts).toList.length = distinctKeys inserts := by
  have nodup : ((contents inserts).toList.map Prod.fst).Nodup :=
    List.pairwise_map.mpr ((contents inserts).sorted.imp fun less => ne_of_lt less)
  have sameKeys : ((contents inserts).toList.map Prod.fst).toFinset =
      (inserts.map Prod.fst).toFinset := by
    ext key
    simp only [List.mem_toFinset]
    constructor
    · intro member
      obtain ⟨entry, held, rfl⟩ := List.mem_map.mp member
      exact List.mem_map.mpr ⟨entry, mem_contents inserts entry held, rfl⟩
    · intro member
      cases found : (contents inserts).get? key with
      | some value =>
          exact List.mem_map.mpr ⟨(key, value), (OrdMap.get?_eq_some _ _ _).mp found, rfl⟩
      | none =>
          rw [get?_contents, lastValue, Option.map_eq_none_iff, List.find?_eq_none] at found
          obtain ⟨entry, listed, rfl⟩ := List.mem_map.mp member
          exact absurd (by simp) (found entry (List.mem_reverse.mpr listed))
  rw [distinctKeys, ← sameKeys, List.toFinset_card_of_nodup nodup, List.length_map]

/-! ## A tree of one leaf -/

def SizesFit (inserts : List (Bytes × Bytes)) : Prop :=
  ∀ entry ∈ inserts, entry.1.length < 2 ^ 32 ∧ entry.2.length < 2 ^ 32

theorem ofEntries_fits (entries : List (Bytes × Bytes)) (count : entries.length < 2 ^ 32)
    (sizes : SizesFit entries) : (BTreeNode.ofEntries entries).Fits := by
  refine ⟨by simpa using count, by simp, ?_, ?_⟩
  · intro key member
    obtain ⟨entry, listed, rfl⟩ := List.mem_map.mp member
    exact (sizes entry listed).1
  · intro value member
    obtain ⟨entry, listed, rfl⟩ := List.mem_map.mp member
    exact (sizes entry listed).2

theorem sizesFit_contents (inserts : List (Bytes × Bytes)) (sizes : SizesFit inserts) :
    SizesFit (contents inserts).toList :=
  fun entry member => sizes entry (mem_contents inserts entry member)

/-- The whole tree is the leaf of these entries, at offset 8. -/
structure OneLeaf (tree : BTree) (entries : List (Bytes × Bytes)) : Prop where
  root : tree.root = some 8
  stored : StoredAt tree.file 8 (BTreeNode.ofEntries entries)

theorem oneLeaf_first (depth : Nat) (key value : Bytes) :
    ∃ tree, BTree.fresh.insert depth key value = .ok tree ∧ OneLeaf tree [(key, value)] := by
  refine ⟨_, rfl, rfl, ?_⟩
  refine storedAt_writeAt_before (storedAt_writeNodeAt _ 8 _ ?_) _ ?_
  · simp [BTree.fresh, writeAt]
  · simp

theorem OneLeaf.readNode {entries : List (Bytes × Bytes)}
    (leaf : OneLeaf tree entries) (count : entries.length < 2 ^ 32) (sizes : SizesFit entries) :
    readNode tree.file 8 = some (BTreeNode.ofEntries entries,
      8 + (encodeNode (BTreeNode.ofEntries entries)).length) :=
  readNode_of_storedAt leaf.stored (ofEntries_fits entries count sizes)

theorem OneLeaf.search (leaf : OneLeaf tree map.toList)
    (count : map.toList.length < 2 ^ 32) (sizes : SizesFit map.toList) (depth : Nat)
    (key : Bytes) : tree.search depth key = .ok (map.get? key) := by
  have looked : lookupLeaf (map.toList.map Prod.fst) (map.toList.map Prod.snd) key =
      .ok (map.get? key) := by
    rw [lookupLeaf_sorted key map.toList map.sorted, OrdMap.get?]
    congr!
  rw [BTree.search, leaf.root]
  exact (searchInNode_leaf (leaf.readNode count sizes)).trans looked

theorem OneLeaf.scan (leaf : OneLeaf tree map.toList)
    (count : map.toList.length < 2 ^ 32) (sizes : SizesFit map.toList) (depth : Nat) :
    tree.scan depth = .ok map.toList := by
  have found := leaf.readNode count sizes
  rw [BTree.scan, leaf.root]
  have zipped : (map.toList.map Prod.fst).zip (map.toList.map Prod.snd) = map.toList := by
    rw [List.zip_map']
    simp
  unfold scanNode
  simp only [found, BTreeNode.ofEntries]
  rw [zipped]

theorem OneLeaf.insert (leaf : OneLeaf tree map.toList)
    (count : map.toList.length < 2 ^ 32) (sizes : SizesFit map.toList) (depth : Nat)
    (key value : Bytes) (room : (map.insert key value).toList.length < btreeOrder) :
    ∃ next, tree.insert depth key value = .ok next ∧
      OneLeaf next (map.insert key value).toList := by
  have found := leaf.readNode count sizes
  have bound := storedAt_length leaf.stored
  refine ⟨⟨(writeNodeAt tree.file 8 (BTreeNode.ofEntries (map.insert key value).toList)).1,
    some 8⟩, ?_, rfl, storedAt_writeNodeAt _ _ _ (by omega)⟩
  have placed : insertIntoLeaf tree.file 8 (8 + (encodeNode (BTreeNode.ofEntries map.toList)).length)
      (map.toList.map Prod.fst) (map.toList.map Prod.snd) key value =
      (none, writeNodeAt tree.file 8 (BTreeNode.ofEntries (map.insert key value).toList)) := by
    unfold insertIntoLeaf
    rw [placeEntry_insertList]
    have notFull : ¬ btreeOrder ≤
        ((OrdMap.insertList key value map.toList).map Prod.fst).length := by
      rw [List.length_map]
      exact not_le_of_gt room
    simp only []
    rw [if_neg notFull]
    rfl
  have descended : insertIntoNode key value depth tree.file 8 =
      .ok (none, writeNodeAt tree.file 8 (BTreeNode.ofEntries (map.insert key value).toList)) :=
    (insertIntoNode_leaf found).trans (congrArg Except.ok placed)
  rw [BTree.insert, leaf.root]
  simp only [descended]

theorem distinctKeys_append_le (inserts : List (Bytes × Bytes)) (entry : Bytes × Bytes) :
    distinctKeys inserts ≤ distinctKeys (inserts ++ [entry]) := by
  unfold distinctKeys
  refine Finset.card_le_card ?_
  intro key member
  simp only [List.map_append, List.mem_toFinset, List.mem_append] at member ⊢
  exact Or.inl member

theorem distinctKeys_append_succ (inserts : List (Bytes × Bytes)) (entry : Bytes × Bytes) :
    distinctKeys (inserts ++ [entry]) ≤ distinctKeys inserts + 1 := by
  unfold distinctKeys
  rw [List.map_append, List.toFinset_append]
  refine (Finset.card_union_le _ _).trans ?_
  simp

theorem BTree.insertAll_append (depth : Nat) (entry : Bytes × Bytes) :
    ∀ (inserts : List (Bytes × Bytes)) (start tree : BTree),
      start.insertAll depth inserts = .ok tree →
      start.insertAll depth (inserts ++ [entry]) = tree.insert depth entry.1 entry.2 := by
  intro inserts
  induction inserts with
  | nil =>
      intro start tree ran
      cases Except.ok.inj ran
      simp only [List.nil_append, BTree.insertAll]
      cases start.insert depth entry.1 entry.2 <;> rfl
  | cons head rest ih =>
      intro start tree ran
      simp only [List.cons_append, BTree.insertAll] at ran ⊢
      cases first : start.insert depth head.1 head.2 with
      | error error => rw [first] at ran; exact absurd ran (by simp)
      | ok middle =>
          rw [first] at ran
          exact ih middle tree ran

theorem insertAll_oneLeaf (depth : Nat) (inserts : List (Bytes × Bytes))
    (few : distinctKeys inserts < btreeOrder) (sizes : SizesFit inserts) :
    ∃ tree, BTree.fresh.insertAll depth inserts = .ok tree ∧
      ((inserts = [] ∧ tree = BTree.fresh) ∨ OneLeaf tree (contents inserts).toList) := by
  induction inserts using List.reverseRecOn with
  | nil => exact ⟨BTree.fresh, rfl, Or.inl ⟨rfl, rfl⟩⟩
  | append_singleton inserts entry ih =>
      have before : SizesFit inserts := fun other member => sizes other (List.mem_append_left _ member)
      have fewer := distinctKeys_append_le inserts entry
      obtain ⟨tree, ran, empty | leaf⟩ := ih (by omega) before
      · obtain ⟨rfl, rfl⟩ := empty
        obtain ⟨next, inserted, leaf⟩ := oneLeaf_first depth entry.1 entry.2
        refine ⟨next, ?_, Or.inr leaf⟩
        rw [BTree.insertAll_append depth entry [] _ _ ran, inserted]
      · have count : (contents inserts).toList.length < 2 ^ 32 := by
          rw [contents_length]
          have : btreeOrder < 2 ^ 32 := by decide
          omega
        have room : ((contents inserts).insert entry.1 entry.2).toList.length < btreeOrder := by
          rw [← contents_append, contents_length]
          exact few
        obtain ⟨next, inserted, leaf'⟩ := leaf.insert count (sizesFit_contents inserts before) depth
          entry.1 entry.2 room
        refine ⟨next, ?_, Or.inr ?_⟩
        · rw [BTree.insertAll_append depth entry inserts _ _ ran, inserted]
        · rw [contents_append]
          exact leaf'

/-! ## The map property -/

/-- After the insertions, `search` answers with the last value of every key and
`scan` lists exactly these pairs in increasing key order. -/
def ActsAsMap (depth : Nat) (inserts : List (Bytes × Bytes)) : Prop :=
  ∃ tree, BTree.fresh.insertAll depth inserts = .ok tree ∧
    (∀ key, tree.search depth key = .ok (lastValue inserts key)) ∧
    ∃ pairs, tree.scan depth = .ok pairs ∧
      pairs.Pairwise (fun left right => left.1 < right.1) ∧
      ∀ key value, (key, value) ∈ pairs ↔ lastValue inserts key = some value

theorem actsAsMap_of_few (depth : Nat) (inserts : List (Bytes × Bytes))
    (few : distinctKeys inserts < btreeOrder) (sizes : SizesFit inserts) :
    ActsAsMap depth inserts := by
  obtain ⟨tree, ran, ⟨rfl, rfl⟩ | leaf⟩ := insertAll_oneLeaf depth inserts few sizes
  · exact ⟨_, ran, fun key => rfl, [], rfl, List.Pairwise.nil, fun key value => by
      simp [lastValue]⟩
  · have count : (contents inserts).toList.length < 2 ^ 32 := by
      rw [contents_length]
      have : btreeOrder < 2 ^ 32 := by decide
      omega
    have fits := sizesFit_contents inserts sizes
    refine ⟨tree, ran, ?_, _, leaf.scan count fits depth, (contents inserts).sorted, ?_⟩
    · intro key
      rw [leaf.search count fits depth key, get?_contents]
    · intro key value
      rw [← OrdMap.get?_eq_some, get?_contents]

/-! ## Sizes that do not fit -/

theorem parseBlobs_sizes : ∀ (count : Nat) (buf rest : Bytes) (blobs : List Bytes),
    parseBlobs count buf = some (blobs, rest) → ∀ blob ∈ blobs, blob.length < 2 ^ 32 := by
  intro count
  induction count with
  | zero =>
      intro buf rest blobs parsed blob member
      obtain ⟨rfl, _⟩ := Prod.mk.inj (Option.some.inj parsed)
      exact absurd member List.not_mem_nil
  | succ count ih =>
      intro buf rest blobs parsed blob member
      simp only [parseBlobs, parseBlob, Option.bind_eq_bind, Option.bind_eq_some_iff, Prod.exists,
        Option.some.injEq, Prod.mk.injEq] at parsed
      obtain ⟨first, middle, ⟨len, after, lenSplit, blobSplit⟩, later, last, others, rfl, rfl⟩ :=
        parsed
      rcases List.mem_cons.mp member with rfl | member
      · have lenSize := (splitExact_eq_some _ _ _ _ lenSplit).2
        have blobSize := (splitExact_eq_some _ _ _ _ blobSplit).2
        have bound := ofBe_lt len
        rw [lenSize] at bound
        omega
      · exact ih middle last later others blob member

theorem readNode_leaf_sizes
    (found : readNode file offset = some (.leaf keys values, pos)) :
    (∀ key ∈ keys, key.length < 2 ^ 32) ∧ ∀ value ∈ values, value.length < 2 ^ 32 := by
  obtain ⟨⟨node, rest⟩, parsed, result⟩ := Option.map_eq_some_iff.mp found
  obtain ⟨rfl, _⟩ := Prod.mk.inj result
  unfold parseNode at parsed
  simp only [Option.bind_eq_bind, Option.bind_eq_some_iff, Prod.exists] at parsed
  obtain ⟨tag, buf1, split1, count, buf2, split2, parsed⟩ := parsed
  split_ifs at parsed
  · simp only [Option.bind_eq_some_iff, Prod.exists, Option.some.injEq, Prod.mk.injEq,
      BTreeNode.leaf.injEq] at parsed
    obtain ⟨readKeys, buf3, keysParsed, readValues, buf4, valuesParsed, ⟨rfl, rfl⟩, _⟩ := parsed
    exact ⟨parseBlobs_sizes _ _ _ _ keysParsed, parseBlobs_sizes _ _ _ _ valuesParsed⟩
  · simp only [Option.bind_eq_some_iff, Option.some.injEq, Prod.mk.injEq, reduceCtorEq,
      false_and, and_false, exists_false] at parsed

theorem binarySearch_ok
    (found : binarySearch keys key = .ok pos) : keys[pos]? = some key := by
  simp only [binarySearch] at found
  split_ifs at found with hit
  cases Except.ok.inj found
  exact hit

theorem lookupLeaf_found
    (found : lookupLeaf keys values key = .ok (some value)) : key ∈ keys ∧ value ∈ values := by
  unfold lookupLeaf at found
  cases hit : binarySearch keys key with
  | error pos => simp [hit] at found
  | ok pos =>
      cases held : values[pos]? with
      | none => simp [hit, held] at found
      | some other =>
          simp only [hit, held, Except.ok.injEq, Option.some.injEq] at found
          exact ⟨List.mem_of_getElem? (binarySearch_ok hit), found ▸ List.mem_of_getElem? held⟩

theorem searchInNode_internal
    {children : List Nat} (found : readNode file offset = some (.internal keys children, pos))
    (depth : Nat) : searchInNode file key depth offset =
      match depth with
      | 0 => .error .tooDeep
      | depth + 1 =>
          match children[childIndex keys key]? with
          | none => .error .outOfBounds
          | some child => searchInNode file key depth child := by
  rw [searchInNode.eq_def]
  cases depth with
  | zero => simp only [found]
  | succ depth => cases child : children[childIndex keys key]? <;> simp only [found, child]

theorem searchInNode_found
    (found : searchInNode file key depth offset = .ok (some value)) :
    (∃ keys values pos, readNode file offset = some (.leaf keys values, pos) ∧
      lookupLeaf keys values key = .ok (some value)) ∨
    ∃ lower child, depth = lower + 1 ∧ searchInNode file key lower child = .ok (some value) := by
  cases node : readNode file offset with
  | none =>
      rw [searchInNode.eq_def] at found
      simp [node] at found
  | some read =>
      obtain ⟨⟨keys, children⟩ | ⟨keys, values⟩, pos⟩ := read
      · rw [searchInNode_internal node] at found
        cases depth with
        | zero => exact absurd found (by simp)
        | succ lower =>
            simp only [] at found
            split at found
            · exact absurd found (by simp)
            · exact Or.inr ⟨lower, _, rfl, found⟩
      · rw [searchInNode_leaf node] at found
        exact Or.inl ⟨keys, values, pos, rfl, found⟩

theorem searchInNode_sizes (file key value : Bytes) : ∀ depth offset,
    searchInNode file key depth offset = .ok (some value) →
    key.length < 2 ^ 32 ∧ value.length < 2 ^ 32 := by
  intro depth
  induction depth with
  | zero =>
      intro offset found
      rcases searchInNode_found found with ⟨keys, values, pos, node, here⟩ | ⟨lower, _, absurd', _⟩
      · obtain ⟨keyHeld, valueHeld⟩ := lookupLeaf_found here
        obtain ⟨keysFit, valuesFit⟩ := readNode_leaf_sizes node
        exact ⟨keysFit key keyHeld, valuesFit value valueHeld⟩
      · exact absurd absurd' (Nat.succ_ne_zero lower).symm
  | succ depth ih =>
      intro offset found
      rcases searchInNode_found found with ⟨keys, values, pos, node, here⟩ | ⟨lower, child, same, below⟩
      · obtain ⟨keyHeld, valueHeld⟩ := lookupLeaf_found here
        obtain ⟨keysFit, valuesFit⟩ := readNode_leaf_sizes node
        exact ⟨keysFit key keyHeld, valuesFit value valueHeld⟩
      · cases Nat.succ.inj same
        exact ih child below

theorem BTree.search_sizes (depth : Nat) (tree : BTree) (key value : Bytes)
    (found : tree.search depth key = .ok (some value)) :
    key.length < 2 ^ 32 ∧ value.length < 2 ^ 32 := by
  unfold BTree.search at found
  split at found
  · exact absurd found (by simp)
  · exact searchInNode_sizes _ _ _ _ _ found

/-! ## The split -/

theorem flatMap_encodeBlob_length (blobs : List Bytes) (fit : ∀ blob ∈ blobs, blob.length < 2 ^ 32) :
    (blobs.flatMap encodeBlob).length ≤ blobs.length * (2 ^ 32 + 4) := by
  induction blobs with
  | nil => simp
  | cons blob blobs ih =>
      have rest := ih fun other member => fit other (List.mem_cons_of_mem _ member)
      have first := fit blob List.mem_cons_self
      simp only [List.flatMap_cons, List.length_append, encodeBlob, beBytes_length,
        List.length_cons]
      omega

theorem encodeNode_ofEntries_length (entries : List (Bytes × Bytes)) (sizes : SizesFit entries) :
    (encodeNode (BTreeNode.ofEntries entries)).length ≤ 5 + entries.length * (2 ^ 33 + 8) := by
  have keys := flatMap_encodeBlob_length (entries.map Prod.fst) (by
    intro key member
    obtain ⟨entry, listed, rfl⟩ := List.mem_map.mp member
    exact (sizes entry listed).1)
  have values := flatMap_encodeBlob_length (entries.map Prod.snd) (by
    intro value member
    obtain ⟨entry, listed, rfl⟩ := List.mem_map.mp member
    exact (sizes entry listed).2)
  simp only [List.length_map] at keys values
  simp only [encodeNode, BTreeNode.ofEntries, List.length_append, List.length_singleton,
    beBytes_length]
  omega

/-- The file after the leaf of `old` was split into the halves of `entries`. -/
def splitFile (file : Bytes) (old entries : List (Bytes × Bytes)) : Bytes × Nat × Nat :=
  let mid := entries.length / 2
  let pos := 8 + (encodeNode (BTreeNode.ofEntries old)).length
  let (file, after) := writeNodeAt file pos (BTreeNode.ofEntries (entries.drop (mid + 1)))
  let (file, last) := writeNodeAt file after (BTreeNode.ofEntries (entries.take mid))
  (file, after, last)

theorem insertIntoLeaf_split (file : Bytes) (map : OrdMap Bytes Bytes) (key value : Bytes)
    (full : (map.insert key value).toList.length = btreeOrder) :
    let entries := (map.insert key value).toList
    let pos := 8 + (encodeNode (BTreeNode.ofEntries map.toList)).length
    insertIntoLeaf file 8 pos (map.toList.map Prod.fst) (map.toList.map Prod.snd) key value =
      (some ((entries.map Prod.fst).getD (entries.length / 2) [],
        (splitFile file map.toList entries).2.1, pos),
        (splitFile file map.toList entries).1, (splitFile file map.toList entries).2.2) := by
  intro entries pos
  unfold insertIntoLeaf
  rw [placeEntry_insertList]
  have filled : btreeOrder ≤ ((OrdMap.insertList key value map.toList).map Prod.fst).length := by
    rw [List.length_map]
    exact le_of_eq full.symm
  simp only []
  rw [if_pos filled]
  simp only [splitFile, BTreeNode.ofEntries, List.map_drop, List.map_take, List.length_map,
    entries, OrdMap.insert, pos]

theorem splitFile_stored {old : List (Bytes × Bytes)} (leaf : OneLeaf tree old)
    (entries : List (Bytes × Bytes)) (promoted : Bytes) :
    let pos := 8 + (encodeNode (BTreeNode.ofEntries old)).length
    let (file, after, last) := splitFile tree.file old entries
    let root := BTreeNode.internal [promoted] [after, pos]
    let final := BTree.writeRoot (writeNodeAt file last root).1 last
    StoredAt final pos (BTreeNode.ofEntries (entries.drop (entries.length / 2 + 1))) ∧
      StoredAt final last root := by
  intro pos
  have inside : pos ≤ tree.file.length := storedAt_length leaf.stored
  simp only [splitFile]
  set right := BTreeNode.ofEntries (entries.drop (entries.length / 2 + 1))
  set left := BTreeNode.ofEntries (entries.take (entries.length / 2))
  have rightStored := storedAt_writeNodeAt tree.file pos right inside
  have leftInside := storedAt_length rightStored
  have leftStored := storedAt_writeNodeAt (writeNodeAt tree.file pos right).1
    (writeNodeAt tree.file pos right).2 left leftInside
  have rootInside := storedAt_length leftStored
  refine ⟨?_, ?_⟩
  · refine storedAt_writeAt_before (storedAt_writeAt_behind (storedAt_writeAt_behind rightStored
      _ _ (le_refl _)) _ _ ?_) _ ?_
    · exact Nat.le_add_right _ _
    · simp only [beBytes_length]
      omega
  · refine storedAt_writeAt_before (storedAt_writeNodeAt _ _ _ rootInside) _ ?_
    simp only [beBytes_length, writeNodeAt]
    omega

/-- Below a root whose only key is `promoted`, a search for it goes right, where
everything is greater. -/
theorem searchInNode_dropped {last left right rootEnd rightEnd : Nat}
    (promoted : Bytes) (entries : List (Bytes × Bytes))
    (sorted : entries.Pairwise fun left right => left.1 < right.1)
    (above : ∀ entry ∈ entries, promoted < entry.1)
    (rootRead : readNode file last = some (.internal [promoted] [left, right], rootEnd))
    (rightRead : readNode file right = some (BTreeNode.ofEntries entries, rightEnd)) :
    ∀ depth held, searchInNode file promoted depth last ≠ .ok (some held) := by
  intro depth held
  rw [searchInNode_internal rootRead]
  cases depth with
  | zero => simp
  | succ depth =>
      have goesRight : childIndex [promoted] promoted = 1 := by
        simp [childIndex, binarySearch_cons_same]
      have absent : entries.find? (fun entry => decide (entry.1 = promoted)) = none := by
        rw [List.find?_eq_none]
        intro entry member
        simpa using ne_of_gt (above entry member)
      simp only [goesRight, List.getElem?_cons_succ, List.getElem?_cons_zero]
      rw [searchInNode_leaf rightRead, lookupLeaf_sorted _ _ sorted, absent]
      simp

/-- The entry that fills the leaf: the middle one is promoted, and a search for
it ends in the right half, which does not have it. -/
theorem OneLeaf.split (leaf : OneLeaf tree map.toList)
    (sizes : SizesFit map.toList) (depth : Nat) (key value : Bytes)
    (few : map.toList.length < btreeOrder)
    (full : (map.insert key value).toList.length = btreeOrder)
    (fits : SizesFit (map.insert key value).toList) :
    ∃ next, tree.insert depth key value = .ok next ∧
      ∃ entry ∈ (map.insert key value).toList, ∀ held,
        next.search depth entry.1 ≠ .ok (some held) := by
  have order : btreeOrder = 64 := rfl
  generalize entriesEq : (map.insert key value).toList = entries at full fits ⊢
  have sorted : entries.Pairwise fun left right => left.1 < right.1 := by
    rw [← entriesEq]
    exact (map.insert key value).sorted
  have middle : 32 < entries.length := by omega
  have halved : entries.length / 2 = 32 := by omega
  have listed : entries[32] ∈ entries := List.getElem_mem _
  have promoted : (entries.map Prod.fst).getD (entries.length / 2) [] = entries[32].1 := by
    rw [halved, List.getD_eq_getElem?_getD, List.getElem?_map, List.getElem?_eq_getElem middle]
    rfl
  have found := leaf.readNode (by omega) sizes
  have descended : insertIntoNode key value depth tree.file 8 = .ok
      (some (entries[32].1, (splitFile tree.file map.toList entries).2.1,
        8 + (encodeNode (BTreeNode.ofEntries map.toList)).length),
        (splitFile tree.file map.toList entries).1, (splitFile tree.file map.toList entries).2.2) := by
    have split := insertIntoLeaf_split tree.file map key value
      (by rw [entriesEq]; exact full)
    simp only [entriesEq, promoted] at split
    exact (insertIntoNode_leaf found).trans (congrArg Except.ok split)
  have stored := splitFile_stored leaf entries entries[32].1
  have rightSizes : SizesFit (entries.drop (entries.length / 2 + 1)) :=
    fun entry member => fits entry (List.mem_of_mem_drop member)
  have rightCount : (entries.drop (entries.length / 2 + 1)).length < 2 ^ 32 := by
    rw [List.length_drop]
    omega
  have oldLength := encodeNode_ofEntries_length map.toList sizes
  have rightLength := encodeNode_ofEntries_length _ rightSizes
  have rightBound : (entries.drop (entries.length / 2 + 1)).length ≤ 64 := by
    rw [List.length_drop]
    omega
  have afterEq : (splitFile tree.file map.toList entries).2.1 =
      8 + (encodeNode (BTreeNode.ofEntries map.toList)).length +
        (encodeNode (BTreeNode.ofEntries (entries.drop (entries.length / 2 + 1)))).length := rfl
  generalize splitFile tree.file map.toList entries = written at descended stored afterEq
  obtain ⟨file, after, last⟩ := written
  simp only [] at descended stored afterEq
  have rootFits : (BTreeNode.internal [entries[32].1]
      [after, 8 + (encodeNode (BTreeNode.ofEntries map.toList)).length]).Fits := by
    refine ⟨by simp, by simp, ?_, ?_⟩
    · intro other member
      rw [List.mem_singleton.mp member]
      exact (fits _ listed).1
    · intro child member
      simp only [List.mem_cons, List.not_mem_nil, or_false] at member
      rcases member with rfl | rfl
      · omega
      · omega
  refine ⟨⟨BTree.writeRoot (writeNodeAt file last (.internal [entries[32].1]
    [after, 8 + (encodeNode (BTreeNode.ofEntries map.toList)).length])).1 last, some last⟩, ?_,
    entries[32], listed, ?_⟩
  · rw [BTree.insert, leaf.root]
    simp only [descended]
  · refine searchInNode_dropped _ _ (sorted.sublist (List.drop_sublist _ _)) ?_
      (readNode_of_storedAt stored.2 rootFits)
      (readNode_of_storedAt stored.1 (ofEntries_fits _ rightCount rightSizes)) depth
    intro entry member
    have split := sorted
    rw [← List.take_append_drop 32 entries, List.drop_eq_getElem_cons middle] at split
    rw [halved] at member
    exact (List.pairwise_cons.mp (List.pairwise_append.mp split).2.1).1 entry member

/-! ## Exactly which sequences are safe -/

theorem not_actsAsMap_of_order (depth : Nat) (inserts : List (Bytes × Bytes))
    (entry : Bytes × Bytes) (few : distinctKeys inserts < btreeOrder)
    (sizes : SizesFit (inserts ++ [entry]))
    (full : btreeOrder ≤ distinctKeys (inserts ++ [entry])) :
    ¬ ActsAsMap depth (inserts ++ [entry]) := by
  rintro ⟨tree, ran, searches, _⟩
  have before : SizesFit inserts := fun other member => sizes other (List.mem_append_left _ member)
  have one := distinctKeys_append_succ inserts entry
  obtain ⟨earlier, ranBefore, ⟨rfl, _⟩ | leaf⟩ := insertAll_oneLeaf depth inserts few before
  · have order : btreeOrder = 64 := rfl
    have none : distinctKeys ([] : List (Bytes × Bytes)) = 0 := rfl
    omega
  rw [BTree.insertAll_append depth entry inserts _ _ ranBefore] at ran
  have counted := contents_length inserts
  have countedFull : ((contents inserts).insert entry.1 entry.2).toList.length = btreeOrder := by
    rw [← contents_append, contents_length]
    omega
  have fits : SizesFit ((contents inserts).insert entry.1 entry.2).toList := by
    rw [← contents_append]
    exact sizesFit_contents _ sizes
  obtain ⟨next, inserted, lost, member, missing⟩ := leaf.split (sizesFit_contents inserts before)
    depth entry.1 entry.2 (by omega) countedFull fits
  cases Except.ok.inj (inserted.symm.trans ran)
  refine missing lost.2 ((searches lost.1).trans ?_)
  rw [← get?_contents, contents_append]
  exact congrArg Except.ok ((OrdMap.get?_eq_some _ _ _).mpr member)

/-- The tree is the map of a sequence of insertions, and of each part of it from
the start, exactly when fewer than sixty-four distinct keys are inserted and
every key and value is shorter than 4 GiB. -/
theorem btree_map_iff (depth : Nat) (inserts : List (Bytes × Bytes)) :
    (∀ front, front <+: inserts → ActsAsMap depth front) ↔
      (distinctKeys inserts < btreeOrder ∧ SizesFit inserts) := by
  constructor
  · intro acts
    induction inserts using List.reverseRecOn with
    | nil => exact ⟨by decide, fun entry member => absurd member List.not_mem_nil⟩
    | append_singleton inserts entry ih =>
        obtain ⟨few, before⟩ := ih fun front isFront => acts front
          (isFront.trans (List.prefix_append inserts [entry]))
        have whole := acts (inserts ++ [entry]) (List.prefix_refl _)
        have sizes : SizesFit (inserts ++ [entry]) := by
          intro other member
          rcases List.mem_append.mp member with earlier | last
          · exact before other earlier
          · obtain ⟨tree, _, searches, _⟩ := whole
            rw [List.mem_singleton.mp last]
            refine BTree.search_sizes depth tree entry.1 entry.2 ?_
            rw [searches entry.1, lastValue_append, if_pos rfl]
        refine ⟨?_, sizes⟩
        by_contra full
        exact not_actsAsMap_of_order depth inserts entry few sizes (le_of_not_gt full) whole
  · rintro ⟨few, sizes⟩ front isFront
    refine actsAsMap_of_few depth front ?_ fun entry member => sizes entry (isFront.subset member)
    refine lt_of_le_of_lt (Finset.card_le_card ?_) few
    intro key member
    simp only [List.mem_toFinset] at member ⊢
    exact List.map_subset Prod.fst isFront.subset member

def sixtyFourKeys : List (Bytes × Bytes) :=
  (List.range 64).map fun number => ([UInt8.ofNat number], [])

theorem sixtyFourKeys_not_map : ¬ ∃ depth, ActsAsMap depth sixtyFourKeys := by
  rintro ⟨depth, acts⟩
  have split : sixtyFourKeys =
      (List.range 63).map (fun number => ([UInt8.ofNat number], [])) ++ [([63], [])] := by
    decide +kernel
  rw [split] at acts
  refine not_actsAsMap_of_order depth _ _ ?_ ?_ ?_ acts
  · decide +kernel
  · intro entry member
    rcases List.mem_append.mp member with numbered | last
    · obtain ⟨number, _, rfl⟩ := List.mem_map.mp numbered
      simp
    · rw [List.mem_singleton.mp last]
      simp
  · decide +kernel

end Pantheon.Keystone
