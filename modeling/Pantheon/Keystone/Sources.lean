import Mathlib
import Pantheon.Keystone.Host
import Pantheon.Keystone.Compaction

/-!
# The sources of a read

`read_at` probes the memtable, the immutable memtable and the tables from the
last to the first, and stops at the first source with any visible version.
When each source shadows the later ones, that is a lookup in their union.
-/

set_option autoImplicit false

namespace Pantheon.Keystone

open Pantheon.Lib

namespace EngineView

def memVersions (view : EngineView) : Set (Version Bytes Bytes) := view.memtable.versions

def frozenVersions (view : EngineView) : Set (Version Bytes Bytes) :=
  {version | ∃ frozen, view.immutable = some frozen ∧ version ∈ frozen.versions}

/-- In the order `readAt` probes them. -/
def sources (view : EngineView) : List (Set (Version Bytes Bytes)) :=
  view.memVersions :: view.frozenVersions :: view.sstables.reverse.map SSTable.versions

def looks (view : EngineView) : List (Bytes → Nat → Option (Option Bytes)) :=
  view.memtable.getAt ::
    (fun key snapshotSeq => view.immutable.bind fun frozen => frozen.getAt key snapshotSeq) ::
    view.sstables.reverse.map SSTable.readAt

def versions (view : EngineView) : Set (Version Bytes Bytes) :=
  view.memVersions ∪ view.frozenVersions ∪ tableVersions view.sstables

theorem frozenVersions_none {view : EngineView} (free : view.immutable = none) :
    view.frozenVersions = ∅ := by
  ext version
  simp [frozenVersions, free]

theorem frozenVersions_some {view : EngineView} {frozen : MemTable}
    (occupied : view.immutable = some frozen) : view.frozenVersions = frozen.versions := by
  ext version
  simp [frozenVersions, occupied]

theorem union_sources (view : EngineView) : union view.sources = view.versions := by
  rw [sources, union_cons, union_cons, List.map_reverse, union_reverse, versions, Set.union_assoc]
  congr 2
  ext version
  simp [union, tableVersions]

theorem sources_resolve (view : EngineView) : List.Forall₂ Resolves view.sources view.looks := by
  refine List.Forall₂.cons view.memtable.getAt_resolves (List.Forall₂.cons ?_ ?_)
  · cases occupied : view.immutable with
    | none =>
        rw [frozenVersions_none occupied]
        refine ⟨fun key cutoff result found => by simp at found, ?_⟩
        intro key cutoff _ version member
        exact absurd member (Set.notMem_empty _)
    | some frozen =>
        rw [frozenVersions_some occupied]
        exact frozen.getAt_resolves
  · refine List.forall₂_map_left_iff.mpr (List.forall₂_map_right_iff.mpr ?_)
    exact List.forall₂_same.mpr fun table _ => table.readAt_resolves

theorem readAt_eq_firstHit (view : EngineView) (key : Bytes) (snapshotSeq : Nat) :
    view.readAt key snapshotSeq = (firstHit view.looks key snapshotSeq).join := by
  unfold readAt firstHit looks
  simp only [List.findSome?_cons, List.findSome?_map]
  cases view.memtable.getAt key snapshotSeq with
  | some value => rfl
  | none =>
      cases view.immutable.bind fun frozen => frozen.getAt key snapshotSeq with
      | some value => rfl
      | none => rfl

/-- Sources in probe order: each newer on every key than the later ones. -/
structure Ordered (view : EngineView) : Prop where
  frozenOlder : Older view.frozenVersions view.memVersions
  tablesOlderMem : Older (tableVersions view.sstables) view.memVersions
  tablesOlderFrozen : Older (tableVersions view.sstables) view.frozenVersions
  tablesOrdered : view.sstables.Pairwise fun earlier later =>
    KeyOlder earlier.versions later.versions

theorem older_of_mem {tables : List SSTable} {upper : Set (Version Bytes Bytes)}
    (ordered : Older (tableVersions tables) upper) {table : SSTable} (member : table ∈ tables) :
    Older table.versions upper :=
  ordered.mono (fun _ held => ⟨table, member, held⟩) (Set.Subset.refl _)

theorem Ordered.keyOlder {view : EngineView} (ordered : view.Ordered) :
    view.sources.Pairwise fun above below => KeyOlder below above := by
  refine List.pairwise_cons.mpr ⟨?_, List.pairwise_cons.mpr ⟨?_, ?_⟩⟩
  · intro source member
    rcases List.mem_cons.mp member with rfl | member
    · exact ordered.frozenOlder.keyOlder
    · obtain ⟨table, tableMember, rfl⟩ := List.mem_map.mp member
      exact (older_of_mem ordered.tablesOlderMem (List.mem_reverse.mp tableMember)).keyOlder
  · intro source member
    obtain ⟨table, tableMember, rfl⟩ := List.mem_map.mp member
    exact (older_of_mem ordered.tablesOlderFrozen (List.mem_reverse.mp tableMember)).keyOlder
  · rw [List.pairwise_map, List.pairwise_reverse]
    exact ordered.tablesOrdered

theorem readAt_resolves (view : EngineView) (shadowed : view.sources.Pairwise Shadows) :
    Resolves view.versions (firstHit view.looks) := by
  have resolves := firstHit_resolves view.sources view.looks view.sources_resolve shadowed
  rwa [union_sources] at resolves

theorem Ordered.shadows {view : EngineView} (ordered : view.Ordered) :
    view.sources.Pairwise Shadows :=
  ordered.keyOlder.imp fun older => older.shadows

end EngineView

theorem keyOlder_of_sorted {tables : List SSTable}
    (sorted : tables.Pairwise fun left right => left.id ≤ right.id)
    (nodup : (tables.map SSTable.id).Nodup)
    (idOrdered : ∀ lower ∈ tables, ∀ upper ∈ tables, lower.id < upper.id →
      KeyOlder lower.versions upper.versions) :
    tables.Pairwise fun earlier later => KeyOlder earlier.versions later.versions := by
  refine (sorted.and (List.pairwise_map.mp nodup)).imp_of_mem ?_
  rintro lower upper lowerMember upperMember ⟨ordered, differs⟩
  exact idOrdered lower lowerMember upper upperMember (lt_of_le_of_ne ordered differs)

/-! ## Conditions on tables, checked on their entries -/

def SSTable.SharesNoKey (left right : SSTable) : Prop :=
  ∀ one ∈ left.run.entries, ∀ other ∈ right.run.entries, one.1.userKey ≠ other.1.userKey

instance (left right : SSTable) : Decidable (left.SharesNoKey right) :=
  inferInstanceAs (Decidable (∀ one ∈ left.run.entries, ∀ other ∈ right.run.entries,
    one.1.userKey ≠ other.1.userKey))

theorem SSTable.SharesNoKey.keysApart {left right : SSTable} (apart : left.SharesNoKey right) :
    KeysApart left.versions right.versions := by
  rintro _ ⟨one, oneMember, rfl⟩ _ ⟨other, otherMember, rfl⟩
  exact apart one oneMember other otherMember

/-- No captured version of the key lies strictly between the sequence of the
read and the watermark of the compaction. -/
def PendingCompaction.GapFree (pending : PendingCompaction) (key : Bytes) (seq : Nat) : Prop :=
  ∀ table ∈ pending.sstables, ∀ entry ∈ table.run.entries, entry.1.userKey = key →
    entry.1.seq ≤ seq ∨ pending.watermark ≤ entry.1.seq

instance (pending : PendingCompaction) (key : Bytes) (seq : Nat) :
    Decidable (pending.GapFree key seq) :=
  inferInstanceAs (Decidable (∀ table ∈ pending.sstables, ∀ entry ∈ table.run.entries,
    entry.1.userKey = key → entry.1.seq ≤ seq ∨ pending.watermark ≤ entry.1.seq))

theorem PendingCompaction.GapFree.noGap {pending : PendingCompaction} {key : Bytes} {seq : Nat}
    (gapFree : pending.GapFree key seq) :
    NoGap (tableVersions pending.sstables) pending.watermark key seq := by
  rintro _ ⟨table, tableMember, entry, entryMember, rfl⟩ sameKey
  exact gapFree table tableMember entry entryMember sameKey

/-! ## Inserting a batch -/

theorem entry_version_of_batch (entry : BatchEntry) (seq : Nat) :
    Entry.version (⟨entry.key, seq, entry.tag⟩, entry.value.getD []) = entry.version seq := by
  cases value : entry.value with
  | none => simp [Entry.version, Entry.value, BatchEntry.version, BatchEntry.tag, value,
      InternalKey.isDelete]
  | some bytes => simp [Entry.version, Entry.value, BatchEntry.version, BatchEntry.tag, value,
      InternalKey.isDelete, putTag, deleteTag]

/-- No key twice in a batch: what the staging map of a transaction and the
single-row writes hand to `write_batch`. -/
def DistinctKeys (entries : List BatchEntry) : Prop :=
  (entries.map BatchEntry.key).Nodup

instance (entries : List BatchEntry) : Decidable (DistinctKeys entries) := by
  unfold DistinctKeys
  infer_instance

theorem mem_insertBatch_sub (seq : Nat) (version : Version Bytes Bytes) :
    ∀ (entries : List BatchEntry) (table : MemTable),
      version ∈ (LsmEngine.insertBatch table seq entries).versions →
        version ∈ table.versions ∨ version ∈ (⟨seq, entries⟩ : Commit).versions := by
  intro entries
  induction entries with
  | nil => intro table member; exact Or.inl member
  | cons entry entries ih =>
      intro table member
      rcases ih _ member with ⟨held, heldMember, rfl⟩ | ⟨later, laterMember, rfl⟩
      · rcases (MemTable.mem_insert _ _ _ _ _ _).mp heldMember with rfl | ⟨heldMember, _⟩
        · exact Or.inr ⟨entry, List.mem_cons_self, (entry_version_of_batch entry seq).symm⟩
        · exact Or.inl ⟨held, heldMember, rfl⟩
      · exact Or.inr ⟨later, List.mem_cons_of_mem _ laterMember, rfl⟩

theorem versions_insertBatch (seq : Nat) : ∀ (entries : List BatchEntry) (table : MemTable),
    DistinctKeys entries →
    (∀ held ∈ table.toEntries.entries, held.1.seq = seq →
      ∀ entry ∈ entries, held.1.userKey ≠ entry.key) →
    (LsmEngine.insertBatch table seq entries).versions =
      table.versions ∪ (⟨seq, entries⟩ : Commit).versions := by
  intro entries
  induction entries with
  | nil =>
      intro table _ _
      ext version
      simp [LsmEngine.insertBatch, Commit.versions]
  | cons entry entries ih =>
      intro table distinct fresh
      obtain ⟨headDistinct, restDistinct⟩ := List.nodup_cons.mp distinct
      have inserted : (table.insert entry.key seq (entry.value.getD []) entry.tag).versions =
          table.versions ∪ {entry.version seq} := by
        rw [MemTable.versions_insert, entry_version_of_batch]
        intro held member same
        exact fresh held member (by rw [same]) entry List.mem_cons_self (by rw [same])
      have restFresh : ∀ held ∈ (table.insert entry.key seq (entry.value.getD [])
          entry.tag).toEntries.entries, held.1.seq = seq →
          ∀ later ∈ entries, held.1.userKey ≠ later.key := by
        intro held member sameSeq later laterMember sameKey
        rcases (MemTable.mem_insert _ _ _ _ _ _).mp member with rfl | ⟨member, _⟩
        · exact headDistinct (List.mem_map.mpr ⟨later, laterMember, sameKey.symm⟩)
        · exact fresh held member sameSeq later (List.mem_cons_of_mem _ laterMember) sameKey
      change (LsmEngine.insertBatch (table.insert entry.key seq (entry.value.getD []) entry.tag)
        seq entries).versions = _
      rw [ih _ restDistinct restFresh, inserted]
      ext version
      simp only [Commit.versions, Set.mem_union, Set.mem_singleton_iff, Set.mem_ofPred_eq,
        List.mem_cons, exists_eq_or_imp]
      rw [or_assoc, @eq_comm _ version]

theorem committed_append (front back : List Commit) :
    committed (front ++ back) = committed front ∪ committed back := by
  ext version
  simp [committed, or_and_right, exists_or]

theorem committed_singleton (commit : Commit) : committed [commit] = commit.versions := by
  ext version
  simp [committed]

def listedVersions (history : List Commit) : List (Version Bytes Bytes) :=
  history.flatMap fun commit => commit.entries.map fun entry => entry.version commit.seq

theorem mem_listedVersions (history : List Commit) (version : Version Bytes Bytes) :
    version ∈ listedVersions history ↔ version ∈ committed history := by
  simp [listedVersions, committed, Commit.versions]

theorem newest_of_listed {history : List Commit} {key : Bytes} {cutoff : Nat}
    {version : Version Bytes Bytes}
    (checked : version ∈ listedVersions history ∧ version.key = key ∧ version.seq ≤ cutoff ∧
      ∀ other ∈ listedVersions history, other.key = key → other.seq ≤ cutoff →
        other.seq ≤ version.seq) : Newest (committed history) key cutoff version := by
  obtain ⟨member, keyExact, visible, newest⟩ := checked
  refine ⟨(mem_listedVersions history version).mp member, keyExact, visible, ?_⟩
  intro other otherMember
  exact newest other ((mem_listedVersions history other).mpr otherMember)

theorem commit_seq_of_mem {commit : Commit} {version : Version Bytes Bytes}
    (member : version ∈ commit.versions) : version.seq = commit.seq := by
  obtain ⟨entry, _, rfl⟩ := member
  rfl

theorem commit_deterministic {commit : Commit} (distinct : DistinctKeys commit.entries) :
    Deterministic commit.versions := by
  rintro _ ⟨left, leftMember, rfl⟩ _ ⟨right, rightMember, rfl⟩ sameKey _
  rw [List.inj_on_of_nodup_map distinct leftMember rightMember sameKey]

theorem deterministic_extend {history : Set (Version Bytes Bytes)} {commit : Commit}
    (det : Deterministic history) (bounded : ∀ version ∈ history, version.seq < commit.seq)
    (distinct : DistinctKeys commit.entries) : Deterministic (history ∪ commit.versions) := by
  rintro left (leftMember | leftMember) right (rightMember | rightMember) sameKey sameSeq
  · exact det left leftMember right rightMember sameKey sameSeq
  · have := bounded left leftMember
    have := commit_seq_of_mem rightMember
    omega
  · have := bounded right rightMember
    have := commit_seq_of_mem leftMember
    omega
  · exact commit_deterministic distinct left leftMember right rightMember sameKey sameSeq

namespace Host

variable {ETag : Type}

def commits (host : Host ETag) : Set (Version Bytes Bytes) := committed host.history

theorem applied_commits (host : Host ETag) (entries : List BatchEntry) :
    (host.applied entries).commits = host.commits ∪
      (⟨host.engine.write.nextCommitSeq, entries⟩ : Commit).versions := by
  rw [commits, commits, applied, committed_append, committed_singleton]

end Host

end Pantheon.Keystone
