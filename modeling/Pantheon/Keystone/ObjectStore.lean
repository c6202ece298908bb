import Mathlib
import Pantheon.Keystone.Wal
import Pantheon.Keystone.SSTable

/-!
# Shared durable state: `storage/objectstore.rs`, `manifest.rs`, `lease.rs`

The object store as the storage layer uses it: sorted tables under `sst/`,
sealed log segments under `wal/`, and the two objects that are replaced by
compare-and-swap, `manifest.bin` and `_lease/{keyspace}`.  Table and segment
keys are functions of a numeric id alone, so the id stands for the key.

An ETag is a hash of an object's content; the store carries the hash.
-/

set_option autoImplicit false

namespace Pantheon.Keystone

open Pantheon.Lib

structure Manifest where
  sstableIds : List Nat
  walSegmentSeq : Nat
  writerFencingToken : Nat
  maxCommitSeq : Nat
deriving DecidableEq

def Manifest.default : Manifest := ⟨[], 0, 0, 0⟩

structure Lease where
  holderId : String
  fencingToken : Nat
  expiresAtMs : Nat
deriving DecidableEq

/-- The cheap view of the lease that a flush consults. -/
structure LeaseHandle where
  token : Nat
  valid : Bool
deriving DecidableEq

def LeaseHandle.default : LeaseHandle := ⟨0, false⟩

/-- A conditional put: the expected ETag must be that of the current content,
`none` meaning that there is no object yet. -/
def putIfMatch {α ETag : Type} [DecidableEq ETag] (etag : α → ETag) (current : Option α)
    (data : α) (expected : Option ETag) : Except (Option ETag) (Option α × ETag) :=
  if expected = current.map etag then .ok (some data, etag data) else .error (current.map etag)

theorem putIfMatch_eq_ok {α ETag : Type} [DecidableEq ETag] (etag : α → ETag) (current : Option α)
    (data : α) (expected : Option ETag) (result : Option α × ETag) :
    putIfMatch etag current data expected = .ok result ↔
      expected = current.map etag ∧ result = (some data, etag data) := by
  unfold putIfMatch
  split_ifs with matched
  · simp [matched, eq_comm]
  · simp [matched]

structure ObjectStore (ETag : Type) where
  sst : Nat → Option SSTable
  walSegment : Nat → Option Bytes
  manifest : Option Manifest
  lease : Option Lease
  manifestEtag : Manifest → ETag
  leaseEtag : Lease → ETag

namespace ObjectStore

variable {ETag : Type}

def putSst (store : ObjectStore ETag) (id : Nat) (table : SSTable) : ObjectStore ETag :=
  { store with sst := Function.update store.sst id (some table) }

def deleteSst (store : ObjectStore ETag) (id : Nat) : ObjectStore ETag :=
  { store with sst := Function.update store.sst id none }

def putWalSegment (store : ObjectStore ETag) (id : Nat) (bytes : Bytes) : ObjectStore ETag :=
  { store with walSegment := Function.update store.walSegment id (some bytes) }

def loadManifest (store : ObjectStore ETag) : Option (Manifest × ETag) :=
  store.manifest.map fun manifest => (manifest, store.manifestEtag manifest)

theorem loadManifest_getD (store : ObjectStore ETag) :
    (store.loadManifest.map Prod.fst).getD Manifest.default =
      store.manifest.getD Manifest.default := by
  cases stored : store.manifest <;> simp [loadManifest, stored]

def saveManifestCas [DecidableEq ETag] (store : ObjectStore ETag) (manifest : Manifest)
    (expected : Option ETag) : Except (Option ETag) (ObjectStore ETag × ETag) :=
  match putIfMatch store.manifestEtag store.manifest manifest expected with
  | .ok (stored, etag) => .ok ({ store with manifest := stored }, etag)
  | .error current => .error current

theorem saveManifestCas_eq_ok [DecidableEq ETag] (store : ObjectStore ETag) (manifest : Manifest)
    (expected : Option ETag) (result : ObjectStore ETag × ETag) :
    store.saveManifestCas manifest expected = .ok result ↔
      expected = store.manifest.map store.manifestEtag ∧
        result = ({ store with manifest := some manifest }, store.manifestEtag manifest) := by
  unfold saveManifestCas putIfMatch
  split_ifs with matched
  · simp [matched, eq_comm]
  · simp [matched]

theorem saveManifestCas_error [DecidableEq ETag] (store : ObjectStore ETag) (manifest : Manifest)
    (expected current : Option ETag)
    (failed : store.saveManifestCas manifest expected = .error current) :
    expected ≠ store.manifest.map store.manifestEtag := by
  intro matched
  rw [(store.saveManifestCas_eq_ok manifest expected _).mpr ⟨matched, rfl⟩] at failed
  exact absurd failed (by simp)

/-- Fetch a table; the id of the decoded table is the one it was asked for. -/
def openSst (store : ObjectStore ETag) (id : Nat) : Option SSTable :=
  (store.sst id).map fun table => { table with id := id }

theorem openSst_id {store : ObjectStore ETag} {id : Nat} {table : SSTable}
    (opened : store.openSst id = some table) : table.id = id := by
  obtain ⟨stored, _, tableExact⟩ := Option.map_eq_some_iff.mp opened
  rw [← tableExact]

theorem loaded_ids_sublist (store : ObjectStore ETag) (unreadable : Nat → Bool) :
    ∀ ids : List Nat, ((ids.filterMap fun id =>
      if unreadable id then none else store.openSst id).map SSTable.id).Sublist ids := by
  intro ids
  induction ids with
  | nil => exact List.Sublist.slnil
  | cons id ids ih =>
      rw [List.filterMap_cons]
      split
      · exact ih.cons id
      · rename_i table found
        split_ifs at found
        rw [List.map_cons, openSst_id found]
        exact ih.cons_cons id

def empty (manifestEtag : Manifest → ETag) (leaseEtag : Lease → ETag) : ObjectStore ETag :=
  ⟨fun _ => none, fun _ => none, none, none, manifestEtag, leaseEtag⟩

end ObjectStore

end Pantheon.Keystone
