import Mathlib
import Pantheon.Keystone.Host
import Pantheon.Keystone.Compaction

/-!
# Table ids, built tables and the manifest

What holds in every run of a host, whatever fails: the manifest is the one the
engine last saw and lists the tables of the view, each of which is in the
store; a table id is handed out once, so the id of a task is neither in the
view nor among the tables another compaction captured; a built table is what
its task describes.
-/

set_option autoImplicit false

namespace Pantheon.Keystone

open Pantheon.Lib

namespace Host

variable {ETag : Type}

variable {host next : Host ETag} {task : CompactTask} {table : SSTable} {index : Nat}
  {pending : PendingCompaction} {segments : Nat → Option Bytes} {fault : Option TruncateFault}
  {objects : Nat → Option SSTable} {unreadable : Nat → Bool}

def tables (host : Host ETag) : List SSTable := host.engine.view.sstables

/-- Ids in use: the tables of the view and those captured by a compaction. -/
def heldIds (host : Host ETag) : List Nat :=
  host.tables.map SSTable.id ++
    host.compactions.flatMap fun task => task.pending.sstables.map SSTable.id

/-- Ids handed out to tasks that have not committed. -/
def reservedIds (host : Host ETag) : List Nat :=
  (host.flushes.map fun task => task.pending.sstableId) ++
    host.compactions.map fun task => task.pending.newId

def listedIds (host : Host ETag) : List Nat :=
  (host.store.manifest.getD Manifest.default).sstableIds

structure Wired (host : Host ETag) : Prop where
  inSync : host.InSync
  heldBelow : ∀ id ∈ host.heldIds, id < host.engine.write.sstableId
  reservedBelow : ∀ id ∈ host.reservedIds, id < host.engine.write.sstableId
  tablesNodup : (host.tables.map SSTable.id).Nodup
  reservedNodup : host.reservedIds.Nodup
  apart : ∀ id ∈ host.reservedIds, id ∉ host.heldIds
  capturedSame : ∀ task ∈ host.compactions, ∀ captured ∈ task.pending.sstables,
    ∀ table ∈ host.tables, captured.id = table.id → captured = table
  builtFlush : ∀ task ∈ host.flushes, ∀ table, task.built = some table →
    table.id = task.pending.sstableId ∧ table.run = task.pending.entries ∧
      host.store.sst task.pending.sstableId = some table
  builtCompaction : ∀ task ∈ host.compactions, ∀ table, task.built = some table →
    table.id = task.pending.newId ∧
      table.run = LsmEngine.mergeEntries task.pending.watermark
        (task.pending.sstables.flatMap SSTable.scanAllVersions) ∧
      host.store.sst task.pending.newId = some table
  listed : host.listedIds.Perm (host.tables.map SSTable.id)
  objects : ∀ table ∈ host.tables, host.store.sst table.id = some table

theorem Wired.congr (wired : host.Wired)
    (sameTables : next.tables = host.tables)
    (sameCounter : next.engine.write.sstableId = host.engine.write.sstableId)
    (sameEtag : next.engine.write.manifestEtag = host.engine.write.manifestEtag)
    (sameStore : ∃ segments, next.store = { host.store with walSegment := segments })
    (sameFlushes : next.flushes = host.flushes)
    (sameCompactions : next.compactions = host.compactions) : next.Wired := by
  obtain ⟨segments, sameStore⟩ := sameStore
  refine ⟨?_, ?_, ?_, ?_, ?_, ?_, ?_, ?_, ?_, ?_, ?_⟩
  · rw [InSync, sameEtag, sameStore]; exact wired.inSync
  · rw [heldIds, sameTables, sameCompactions, sameCounter]; exact wired.heldBelow
  · rw [reservedIds, sameFlushes, sameCompactions, sameCounter]; exact wired.reservedBelow
  · rw [sameTables]; exact wired.tablesNodup
  · rw [reservedIds, sameFlushes, sameCompactions]; exact wired.reservedNodup
  · rw [reservedIds, heldIds, sameTables, sameFlushes, sameCompactions]; exact wired.apart
  · rw [sameTables, sameCompactions]; exact wired.capturedSame
  · rw [sameFlushes, sameStore]; exact wired.builtFlush
  · rw [sameCompactions, sameStore]; exact wired.builtCompaction
  · rw [listedIds, sameTables, sameStore]; exact wired.listed
  · rw [sameTables, sameStore]; exact wired.objects

theorem reservedIds_flush {task : FlushTask} (member : task ∈ host.flushes) :
    task.pending.sstableId ∈ host.reservedIds :=
  List.mem_append_left _ (List.mem_map.mpr ⟨task, member, rfl⟩)

theorem reservedIds_compaction
    (member : task ∈ host.compactions) : task.pending.newId ∈ host.reservedIds :=
  List.mem_append_right _ (List.mem_map.mpr ⟨task, member, rfl⟩)

theorem heldIds_table (member : table ∈ host.tables) :
    table.id ∈ host.heldIds :=
  List.mem_append_left _ (List.mem_map.mpr ⟨table, member, rfl⟩)

theorem heldIds_captured (member : task ∈ host.compactions)
    (captured : table ∈ task.pending.sstables) : table.id ∈ host.heldIds :=
  List.mem_append_right _ (List.mem_flatMap.mpr
    ⟨task, member, List.mem_map.mpr ⟨table, captured, rfl⟩⟩)

theorem Wired.table_unique (wired : host.Wired) {left right : SSTable}
    (leftMember : left ∈ host.tables) (rightMember : right ∈ host.tables)
    (sameId : left.id = right.id) : left = right :=
  List.inj_on_of_nodup_map wired.tablesNodup leftMember rightMember sameId

/-! ## Effects -/

theorem Wired.reserve (wired : host.Wired)
    (sameTables : next.tables = host.tables)
    (sameEtag : next.engine.write.manifestEtag = host.engine.write.manifestEtag)
    (sameStore : next.store = host.store)
    (counter : next.engine.write.sstableId = host.engine.write.sstableId + 1)
    (reserved : next.reservedIds.Perm (host.engine.write.sstableId :: host.reservedIds))
    (held : ∀ id ∈ next.heldIds, id ∈ host.heldIds)
    (flushes : ∀ task ∈ next.flushes, task ∈ host.flushes ∨ task.built = none)
    (compactions : ∀ task ∈ next.compactions, task ∈ host.compactions ∨
      task.built = none ∧ task.pending.sstables = host.tables) :
    next.Wired := by
  have splitReserved : ∀ id ∈ next.reservedIds, id = host.engine.write.sstableId ∨
      id ∈ host.reservedIds := by
    intro id member
    simpa using reserved.mem_iff.mp member
  refine ⟨?_, ?_, ?_, ?_, ?_, ?_, ?_, ?_, ?_, ?_, ?_⟩
  · rw [InSync, sameEtag, sameStore]; exact wired.inSync
  · intro id member
    rw [counter]
    exact (wired.heldBelow id (held id member)).trans (Nat.lt_succ_self _)
  · intro id member
    rw [counter]
    rcases splitReserved id member with rfl | member
    · exact Nat.lt_succ_self _
    · exact (wired.reservedBelow id member).trans (Nat.lt_succ_self _)
  · rw [sameTables]; exact wired.tablesNodup
  · refine reserved.nodup_iff.mpr (List.nodup_cons.mpr ⟨?_, wired.reservedNodup⟩)
    intro member
    exact absurd (wired.reservedBelow _ member) (lt_irrefl _)
  · intro id member inUse
    rcases splitReserved id member with rfl | member
    · exact absurd (wired.heldBelow _ (held _ inUse)) (lt_irrefl _)
    · exact wired.apart id member (held id inUse)
  · intro task member captured capturedMember table tableMember
    rw [sameTables] at tableMember
    rcases compactions task member with member | ⟨_, whole⟩
    · exact wired.capturedSame task member captured capturedMember table tableMember
    · exact wired.table_unique (whole ▸ capturedMember) tableMember
  · intro task member table built
    rcases flushes task member with member | unbuilt
    · rw [sameStore]; exact wired.builtFlush task member table built
    · rw [unbuilt] at built; exact absurd built (by simp)
  · intro task member table built
    rcases compactions task member with member | ⟨unbuilt, _⟩
    · rw [sameStore]; exact wired.builtCompaction task member table built
    · rw [unbuilt] at built; exact absurd built (by simp)
  · rw [listedIds, sameTables, sameStore]; exact wired.listed
  · rw [sameTables, sameStore]; exact wired.objects

theorem reservedIds_frozen (some_ : host.engine.view.memtable.toEntries.entries ≠ []) :
    host.frozen.reservedIds.Perm (host.engine.write.sstableId :: host.reservedIds) := by
  simp only [reservedIds, Host.frozen, some_, if_false, List.map_append, List.map_cons,
    List.map_nil, List.append_assoc]
  exact List.perm_middle

theorem reservedIds_captured (many : ¬host.engine.view.sstables.length < 2) :
    host.captured.reservedIds.Perm (host.engine.write.sstableId :: host.reservedIds) := by
  simp only [reservedIds, Host.captured, many, if_false, List.map_append, List.map_cons,
    List.map_nil, ← List.append_assoc]
  exact List.perm_append_singleton _ _

theorem heldIds_of_captured (many : ¬host.engine.view.sstables.length < 2) :
    ∀ id ∈ host.captured.heldIds, id ∈ host.heldIds := by
  intro id member
  simp only [heldIds, tables, Host.captured, many, if_false, List.flatMap_append,
    List.flatMap_cons, List.flatMap_nil, List.append_nil, List.mem_append] at member ⊢
  rcases member with member | member | member
  · exact Or.inl member
  · exact Or.inr member
  · exact Or.inl member

theorem Wired.frozen (wired : host.Wired) : host.frozen.Wired := by
  by_cases nothing : host.engine.view.memtable.toEntries.entries = []
  · refine wired.congr rfl ?_ rfl ⟨_, rfl⟩ ?_ rfl
    · simp [Host.frozen, nothing]
    · simp [Host.frozen, nothing]
  · refine wired.reserve rfl rfl rfl ?_ (reservedIds_frozen nothing) (fun id member => member) ?_
      fun task member => Or.inl member
    · simp [Host.frozen, nothing]
    · intro task member
      exact (mem_frozen_flushes member).imp id fun exact => by rw [exact]

theorem Wired.captured (wired : host.Wired) : host.captured.Wired := by
  by_cases few : host.engine.view.sstables.length < 2
  · refine wired.congr rfl ?_ rfl ⟨_, rfl⟩ rfl ?_
    · simp [Host.captured, few]
    · simp [Host.captured, few]
  · refine wired.reserve rfl rfl rfl ?_ (reservedIds_captured few) (heldIds_of_captured few)
      (fun task member => Or.inl member) ?_
    · simp [Host.captured, few]
    · intro task member
      rcases mem_captured_compactions member with member | ⟨rfl, _⟩
      · exact Or.inl member
      · exact Or.inr ⟨rfl, rfl⟩

theorem Wired.drop (wired : host.Wired) (flushes : List FlushTask)
    (compactions : List CompactTask) (segments : Nat → Option Bytes)
    (fewerFlushes : flushes.Sublist host.flushes)
    (fewerCompactions : compactions.Sublist host.compactions) :
    Wired { host with
      store := { host.store with walSegment := segments }
      flushes := flushes
      compactions := compactions } := by
  have reserved : List.Sublist
      ((flushes.map fun task => task.pending.sstableId) ++
        compactions.map fun task => task.pending.newId) host.reservedIds :=
    (fewerFlushes.map _).append (fewerCompactions.map _)
  have held : List.Sublist (host.tables.map SSTable.id ++
      compactions.flatMap fun task => task.pending.sstables.map SSTable.id) host.heldIds :=
    (List.Sublist.refl _).append (fewerCompactions.flatMap _)
  refine ⟨wired.inSync, ?_, ?_, wired.tablesNodup, wired.reservedNodup.sublist reserved, ?_, ?_, ?_,
    ?_, wired.listed, wired.objects⟩
  · intro id member
    exact wired.heldBelow id (held.subset member)
  · intro id member
    exact wired.reservedBelow id (reserved.subset member)
  · intro id member inUse
    exact wired.apart id (reserved.subset member) (held.subset inUse)
  · intro task member
    exact wired.capturedSame task (fewerCompactions.subset member)
  · intro task member
    exact wired.builtFlush task (fewerFlushes.subset member)
  · intro task member
    exact wired.builtCompaction task (fewerCompactions.subset member)

theorem set_map_of_getElem? {α β : Type} (project : α → β) (tasks : List α) (index : Nat)
    (old new : α) (found : tasks[index]? = some old) (same : project new = project old) :
    (tasks.set index new).map project = tasks.map project := by
  have mapped : (tasks.map project)[index]? = some (project new) := by
    rw [List.getElem?_map, found, same]
    rfl
  obtain ⟨bound, here⟩ := List.getElem?_eq_some_iff.mp mapped
  rw [List.map_set, ← here, List.set_getElem_self]

theorem mem_set_of_getElem? {α β : Type} (project : α → β) {tasks : List α} {index : Nat}
    {old new : α} (found : tasks[index]? = some old) (same : project old = project new) :
    ∀ task ∈ tasks.set index new, ∃ before ∈ tasks, project before = project task := by
  intro task member
  rcases List.mem_or_eq_of_mem_set member with member | rfl
  · exact ⟨task, member, rfl⟩
  · exact ⟨old, List.mem_of_getElem? found, same⟩

theorem Wired.put (wired : host.Wired) (id : Nat) (table : SSTable)
    (reservedId : id ∈ host.reservedIds) (store : next.store = host.store.putSst id table)
    (sameEngine : next.engine = host.engine) (reserved : next.reservedIds = host.reservedIds)
    (held : next.heldIds = host.heldIds)
    (captured : ∀ task ∈ next.compactions, ∃ before ∈ host.compactions,
      before.pending = task.pending)
    (flushes : ∀ task ∈ next.flushes, ∀ built, task.built = some built →
      task ∈ host.flushes ∧ task.pending.sstableId ≠ id ∨
        built = table ∧ task.pending.sstableId = id ∧ table.id = id ∧
          table.run = task.pending.entries)
    (compactions : ∀ task ∈ next.compactions, ∀ built, task.built = some built →
      task ∈ host.compactions ∧ task.pending.newId ≠ id ∨
        built = table ∧ task.pending.newId = id ∧ table.id = id ∧
          table.run = LsmEngine.mergeEntries task.pending.watermark
            (task.pending.sstables.flatMap SSTable.scanAllVersions)) : next.Wired := by
  have sstAt : ∀ other, other ≠ id → next.store.sst other = host.store.sst other := by
    intro other differs
    rw [store]
    exact Function.update_of_ne differs _ _
  have sstHere : next.store.sst id = some table := by
    rw [store]
    exact Function.update_self _ _ _
  have sameTables : next.tables = host.tables := by rw [tables, tables, sameEngine]
  refine ⟨?_, ?_, ?_, ?_, ?_, ?_, ?_, ?_, ?_, ?_, ?_⟩
  · rw [InSync, sameEngine, store]; exact wired.inSync
  · rw [held, sameEngine]; exact wired.heldBelow
  · rw [reserved, sameEngine]; exact wired.reservedBelow
  · rw [sameTables]; exact wired.tablesNodup
  · rw [reserved]; exact wired.reservedNodup
  · rw [reserved, held]; exact wired.apart
  · intro task member
    obtain ⟨before, beforeMember, samePending⟩ := captured task member
    rw [← samePending, sameTables]
    exact wired.capturedSame before beforeMember
  · intro task member built isBuilt
    rcases flushes task member built isBuilt with ⟨member, differs⟩ | ⟨rfl, own, idExact, runExact⟩
    · rw [sstAt _ differs]; exact wired.builtFlush task member built isBuilt
    · exact ⟨idExact.trans own.symm, runExact, own ▸ sstHere⟩
  · intro task member built isBuilt
    rcases compactions task member built isBuilt with
      ⟨member, differs⟩ | ⟨rfl, own, idExact, runExact⟩
    · rw [sstAt _ differs]; exact wired.builtCompaction task member built isBuilt
    · exact ⟨idExact.trans own.symm, runExact, own ▸ sstHere⟩
  · rw [listedIds, sameTables, store]; exact wired.listed
  · intro stored member
    rw [sameTables] at member
    have differs : stored.id ≠ id := fun same =>
      wired.apart id reservedId (same ▸ heldIds_table member)
    rw [sstAt _ differs]
    exact wired.objects stored member

theorem Wired.flush_unique (wired : host.Wired) {left right : FlushTask}
    (leftMember : left ∈ host.flushes) (rightMember : right ∈ host.flushes)
    (sameId : left.pending.sstableId = right.pending.sstableId) : left = right :=
  List.inj_on_of_nodup_map (List.nodup_append.mp wired.reservedNodup).1 leftMember rightMember sameId

theorem Wired.compaction_unique (wired : host.Wired) {left right : CompactTask}
    (leftMember : left ∈ host.compactions) (rightMember : right ∈ host.compactions)
    (sameId : left.pending.newId = right.pending.newId) : left = right :=
  List.inj_on_of_nodup_map (List.nodup_append.mp wired.reservedNodup).2.1 leftMember rightMember
    sameId

theorem Wired.flush_ne_compaction (wired : host.Wired) {flush : FlushTask}
    {compaction : CompactTask} (flushMember : flush ∈ host.flushes)
    (compactionMember : compaction ∈ host.compactions) :
    flush.pending.sstableId ≠ compaction.pending.newId :=
  (List.nodup_append.mp wired.reservedNodup).2.2 _ (List.mem_map.mpr ⟨flush, flushMember, rfl⟩) _
    (List.mem_map.mpr ⟨compaction, compactionMember, rfl⟩)

theorem Wired.flushBuilt (wired : host.Wired) {bloom : Bloom}
    {pending : PendingFlush} (found : host.flushes[index]? = some ⟨pending, none⟩) :
    Wired { host with
      store := host.store.putSst pending.sstableId
        (SSTable.build bloom pending.sstableId pending.entries)
      flushes := host.flushes.set index
        ⟨pending, some (SSTable.build bloom pending.sstableId pending.entries)⟩ } := by
  have own := List.mem_of_getElem? found
  have sameIds := set_map_of_getElem? (fun task : FlushTask => task.pending.sstableId) host.flushes
    index _ ⟨pending, some (SSTable.build bloom pending.sstableId pending.entries)⟩ found rfl
  refine wired.put pending.sstableId _ (reservedIds_flush own) rfl rfl ?_ rfl
    (fun task member => ⟨task, member, rfl⟩) ?_ ?_
  · simp only [reservedIds, sameIds]
  · intro task member built isBuilt
    rcases List.mem_or_eq_of_mem_set member with member | rfl
    · refine Or.inl ⟨member, fun sameId => ?_⟩
      rw [wired.flush_unique member own sameId] at isBuilt
      exact absurd isBuilt (by simp)
    · exact Or.inr ⟨(Option.some.inj isBuilt).symm, rfl, rfl, rfl⟩
  · intro task member built isBuilt
    exact Or.inl ⟨member, (wired.flush_ne_compaction own member).symm⟩

theorem Wired.compactionBuilt (wired : host.Wired) {bloom : Bloom}
    (found : host.compactions[index]? = some ⟨pending, none⟩)
    (tableExact : table = SSTable.build bloom pending.newId (LsmEngine.mergeEntries
      pending.watermark (pending.sstables.flatMap SSTable.scanAllVersions))) :
    Wired { host with
      store := host.store.putSst pending.newId table
      compactions := host.compactions.set index ⟨pending, some table⟩ } := by
  have own := List.mem_of_getElem? found
  have sameIds := set_map_of_getElem? (fun task : CompactTask => task.pending.newId)
    host.compactions index _ ⟨pending, some table⟩ found rfl
  have sameCaptured := set_map_of_getElem?
    (fun task : CompactTask => task.pending.sstables.map SSTable.id)
    host.compactions index _ ⟨pending, some table⟩ found rfl
  refine wired.put pending.newId table (reservedIds_compaction own) rfl rfl ?_ ?_ ?_ ?_ ?_
  · simp only [reservedIds, sameIds]
  · simp only [heldIds, List.flatMap_def, sameCaptured, tables]
  · exact mem_set_of_getElem? CompactTask.pending found rfl
  · intro task member built isBuilt
    exact Or.inl ⟨member, wired.flush_ne_compaction member own⟩
  · intro task member built isBuilt
    rcases List.mem_or_eq_of_mem_set member with member | rfl
    · refine Or.inl ⟨member, fun sameId => ?_⟩
      rw [wired.compaction_unique member own sameId] at isBuilt
      exact absurd isBuilt (by simp)
    · exact Or.inr ⟨(Option.some.inj isBuilt).symm, rfl, by rw [tableExact]; rfl,
        by rw [tableExact]; rfl⟩

theorem eraseIdx_perm {α : Type} {tasks : List α} {task : α}
    (found : tasks[index]? = some task) : tasks.Perm (task :: tasks.eraseIdx index) := by
  obtain ⟨bound, rfl⟩ := List.getElem?_eq_some_iff.mp found
  exact (List.getElem_cons_eraseIdx_perm bound).symm

theorem flush_released (nodup : host.reservedIds.Nodup)
    {task : FlushTask} (found : host.flushes[index]? = some task) :
    ∀ id, id ∈ ((host.flushes.eraseIdx index).map fun task => task.pending.sstableId) ++
        host.compactions.map (fun task => task.pending.newId) →
      id ∈ host.reservedIds ∧ id ≠ task.pending.sstableId := by
  have perm : host.reservedIds.Perm (task.pending.sstableId ::
      (((host.flushes.eraseIdx index).map fun task => task.pending.sstableId) ++
        host.compactions.map fun task => task.pending.newId)) :=
    ((eraseIdx_perm found).map _).append_right _
  intro id member
  refine ⟨perm.mem_iff.mpr (List.mem_cons_of_mem _ member), fun same => ?_⟩
  exact (List.nodup_cons.mp (perm.nodup_iff.mp nodup)).1 (same ▸ member)

theorem compaction_released (nodup : host.reservedIds.Nodup)
    (found : host.compactions[index]? = some task) :
    ∀ id, id ∈ (host.flushes.map fun task => task.pending.sstableId) ++
        (host.compactions.eraseIdx index).map (fun task => task.pending.newId) →
      id ∈ host.reservedIds ∧ id ≠ task.pending.newId := by
  have perm : host.reservedIds.Perm (task.pending.newId ::
      ((host.flushes.map fun task => task.pending.sstableId) ++
        (host.compactions.eraseIdx index).map fun task => task.pending.newId)) :=
    (((eraseIdx_perm found).map _).append_left _).trans List.perm_middle
  intro id member
  refine ⟨perm.mem_iff.mpr (List.mem_cons_of_mem _ member), fun same => ?_⟩
  exact (List.nodup_cons.mp (perm.nodup_iff.mp nodup)).1 (same ▸ member)

theorem Wired.flushed (wired : host.Wired)
    {pending : PendingFlush}
    (found : host.flushes[index]? = some ⟨pending, some table⟩) :
    (host.flushed index segments fault pending table).Wired := by
  have own := List.mem_of_getElem? found
  have released := flush_released wired.reservedNodup found
  obtain ⟨idExact, _, stored⟩ := wired.builtFlush _ own table rfl
  have fresh : pending.sstableId ∉ host.heldIds := wired.apart _ (reservedIds_flush own)
  have splitHeld : ∀ id ∈ (host.flushed index segments fault pending table).heldIds,
      id ∈ host.heldIds ∨ id = pending.sstableId := by
    intro id member
    simp only [heldIds, tables, Host.flushed, List.map_append, List.map_cons, List.map_nil,
      List.mem_append, List.mem_singleton] at member ⊢
    rcases member with (member | same) | member
    · exact Or.inl (Or.inl member)
    · exact Or.inr (same.trans idExact)
    · exact Or.inl (Or.inr member)
  refine ⟨rfl, ?_, ?_, ?_, ?_, ?_, ?_, ?_, wired.builtCompaction, ?_, ?_⟩
  · intro id member
    rcases splitHeld id member with member | rfl
    · exact wired.heldBelow id member
    · exact wired.reservedBelow _ (reservedIds_flush own)
  · intro id member
    exact wired.reservedBelow id (released id member).1
  · simp only [tables, Host.flushed, List.map_append, List.map_cons, List.map_nil, idExact]
    refine List.nodup_append.mpr ⟨wired.tablesNodup, List.nodup_singleton _, ?_⟩
    intro left leftMember right rightMember same
    rw [List.mem_singleton.mp rightMember] at same
    exact fresh (same ▸ List.mem_append_left _ leftMember)
  · exact wired.reservedNodup.sublist (((List.eraseIdx_sublist _ _).map _).append (List.Sublist.refl _))
  · intro id member inUse
    rcases splitHeld id inUse with inUse | same
    · exact wired.apart id (released id member).1 inUse
    · exact (released id member).2 same
  · intro task taskMember captured capturedMember live member sameId
    have held := heldIds_captured (show task ∈ host.compactions from taskMember) capturedMember
    rcases List.mem_append.mp member with member | member
    · exact wired.capturedSame task taskMember captured capturedMember live member sameId
    · rw [sameId, List.mem_singleton.mp member, idExact] at held
      exact absurd held fresh
  · intro task member
    exact wired.builtFlush task ((List.eraseIdx_sublist _ _).subset member)
  · simp only [listedIds, tables, Host.flushed, flushManifest, Option.getD_some, List.map_append,
      List.map_cons, List.map_nil, idExact]
    exact List.Perm.refl _
  · intro live member
    simp only [tables, Host.flushed, List.mem_append, List.mem_singleton] at member
    rcases member with member | rfl
    · exact wired.objects live member
    · rw [idExact]; exact stored

theorem mem_survivors :
    table ∈ host.survivors pending ↔
      table ∈ host.tables ∧ table.id ∉ pending.sstables.map SSTable.id := by
  simp [survivors, tables]

theorem Wired.compacted (wired : host.Wired)
    (found : host.compactions[index]? = some ⟨pending, some table⟩)
    (kept : ∀ id, id ∉ pending.sstables.map SSTable.id → objects id = host.store.sst id) :
    (host.compacted index objects pending table).Wired := by
  have own := List.mem_of_getElem? found
  have released := compaction_released wired.reservedNodup found
  obtain ⟨idExact, _, stored⟩ := wired.builtCompaction _ own table rfl
  have fresh : pending.newId ∉ host.heldIds := wired.apart _ (reservedIds_compaction own)
  -- a task's id is not among the captured ones, so its object survives the deletions
  have keptReserved : ∀ id ∈ host.reservedIds, objects id = host.store.sst id := by
    intro id member
    refine kept id fun consumed => wired.apart id member ?_
    exact List.mem_append_right _ (List.mem_flatMap.mpr ⟨_, own, consumed⟩)
  have splitHeld : ∀ id ∈ (host.compacted index objects pending table).heldIds,
      id ∈ host.heldIds ∨ id = pending.newId := by
    intro id member
    simp only [heldIds, tables, Host.compacted, List.map_append, List.map_cons, List.map_nil,
      List.mem_append, List.mem_singleton] at member
    rcases member with (member | same) | member
    · obtain ⟨live, liveMember, rfl⟩ := List.mem_map.mp member
      exact Or.inl (heldIds_table (mem_survivors.mp liveMember).1)
    · exact Or.inr (same.trans idExact)
    · exact Or.inl (List.mem_append_right _
        (((List.eraseIdx_sublist _ _).flatMap _).subset member))
  refine ⟨rfl, ?_, ?_, ?_, ?_, ?_, ?_, ?_, ?_, List.Perm.refl _, ?_⟩
  · intro id member
    rcases splitHeld id member with member | rfl
    · exact wired.heldBelow id member
    · exact wired.reservedBelow _ (reservedIds_compaction own)
  · intro id member
    exact wired.reservedBelow id (released id member).1
  · simp only [tables, Host.compacted, List.map_append, List.map_cons, List.map_nil, idExact]
    refine List.nodup_append.mpr ⟨wired.tablesNodup.sublist ((List.filter_sublist).map _),
      List.nodup_singleton _, ?_⟩
    intro left leftMember right rightMember same
    rw [List.mem_singleton.mp rightMember] at same
    obtain ⟨live, liveMember, rfl⟩ := List.mem_map.mp leftMember
    exact fresh (same ▸ heldIds_table (mem_survivors.mp liveMember).1)
  · exact wired.reservedNodup.sublist ((List.Sublist.refl _).append ((List.eraseIdx_sublist _ _).map _))
  · intro id member inUse
    rcases splitHeld id inUse with inUse | same
    · exact wired.apart id (released id member).1 inUse
    · exact (released id member).2 same
  · intro task taskMember captured capturedMember live member sameId
    have before : task ∈ host.compactions := (List.eraseIdx_sublist _ _).subset taskMember
    have held := heldIds_captured before capturedMember
    rcases List.mem_append.mp member with member | member
    · exact wired.capturedSame task before captured capturedMember live
        (mem_survivors.mp member).1 sameId
    · rw [sameId, List.mem_singleton.mp member, idExact] at held
      exact absurd held fresh
  · intro task member built isBuilt
    obtain ⟨taskId, taskRun, taskStored⟩ := wired.builtFlush task member built isBuilt
    exact ⟨taskId, taskRun, (keptReserved _ (reservedIds_flush member)).trans taskStored⟩
  · intro task member built isBuilt
    have before := (List.eraseIdx_sublist _ _).subset member
    obtain ⟨taskId, taskRun, taskStored⟩ := wired.builtCompaction task before built isBuilt
    exact ⟨taskId, taskRun, (keptReserved _ (reservedIds_compaction before)).trans taskStored⟩
  · intro live member
    simp only [tables, Host.compacted, List.mem_append, List.mem_singleton] at member
    rcases member with member | rfl
    · obtain ⟨liveMember, survives⟩ := mem_survivors.mp member
      exact (kept _ survives).trans (wired.objects live liveMember)
    · rw [idExact]
      exact (keptReserved _ (reservedIds_compaction own)).trans stored

/-! ## Captured tables -/

def Present (host : Host ETag) (pending : PendingCompaction) : Prop :=
  ∀ table ∈ pending.sstables, table ∈ host.tables

def AllListed (host : Host ETag) (pending : PendingCompaction) : Prop :=
  ∀ table ∈ pending.sstables, table.id ∈ host.tables.map SSTable.id

instance (host : Host ETag) (pending : PendingCompaction) : Decidable (host.AllListed pending) :=
  inferInstanceAs (Decidable (∀ table ∈ pending.sstables, table.id ∈ host.tables.map SSTable.id))

theorem Wired.present_of_allListed (wired : host.Wired)
    (member : task ∈ host.compactions) (allListed : host.AllListed task.pending) :
    host.Present task.pending := by
  intro captured capturedMember
  obtain ⟨table, tableMember, sameId⟩ := List.mem_map.mp (allListed captured capturedMember)
  rw [wired.capturedSame task member captured capturedMember table tableMember sameId.symm]
  exact tableMember

/-- While its tables are all present, whatever else is in the view is newer
than all of them. -/
def Behind (host : Host ETag) (pending : PendingCompaction) : Prop :=
  host.Present pending → ∀ table ∈ host.tables, table ∈ pending.sstables ∨
    Older (tableVersions pending.sstables) table.versions

theorem Present.of_flushed (wired : host.Wired)
    {pending : PendingFlush}
    (found : host.flushes[index]? = some ⟨pending, some table⟩)
    (member : task ∈ host.compactions)
    (present : (host.flushed index segments fault pending table).Present task.pending) :
    host.Present task.pending := by
  have own := List.mem_of_getElem? found
  intro captured capturedMember
  rcases List.mem_append.mp (present captured capturedMember) with inView | inView
  · exact inView
  · have idExact := (wired.builtFlush _ own table rfl).1
    rw [List.mem_singleton.mp inView] at capturedMember
    have held := heldIds_captured member capturedMember
    rw [idExact] at held
    exact absurd held (wired.apart _ (reservedIds_flush own))

theorem Present.of_compacted (wired : host.Wired)
    (found : host.compactions[index]? = some ⟨pending, some table⟩)
    (member : task ∈ host.compactions)
    (present : (host.compacted index objects pending table).Present task.pending) :
    ∀ captured ∈ task.pending.sstables, captured ∈ host.survivors pending := by
  have own := List.mem_of_getElem? found
  intro captured capturedMember
  rcases List.mem_append.mp (present captured capturedMember) with inView | inView
  · exact inView
  · have idExact := (wired.builtCompaction _ own table rfl).1
    rw [List.mem_singleton.mp inView] at capturedMember
    have held := heldIds_captured member capturedMember
    rw [idExact] at held
    exact absurd held (wired.apart _ (reservedIds_compaction own))

theorem Behind.flushed (wired : host.Wired)
    {pending : PendingFlush}
    (found : host.flushes[index]? = some ⟨pending, some table⟩)
    (member : task ∈ host.compactions) (behind : host.Behind task.pending)
    (newer : Older (tableVersions task.pending.sstables) table.versions) :
    (host.flushed index segments fault pending table).Behind task.pending := by
  intro present candidate candidateMember
  rcases List.mem_append.mp candidateMember with candidateMember | candidateMember
  · exact behind (present.of_flushed wired found member) candidate candidateMember
  · rw [List.mem_singleton.mp candidateMember]
    exact Or.inr newer

theorem Behind.compacted (wired : host.Wired)
    (found : host.compactions[index]? = some ⟨pending, some table⟩) (present : host.Present pending)
    (merged : table.versions ⊆ tableVersions pending.sstables)
    (member : task ∈ host.compactions) (behind : host.Behind task.pending) :
    (host.compacted index objects pending table).Behind task.pending := by
  intro stillPresent candidate candidateMember
  have survives := stillPresent.of_compacted wired found member
  have before := behind fun captured capturedMember =>
    (mem_survivors.mp (survives captured capturedMember)).1
  rcases List.mem_append.mp candidateMember with candidateMember | candidateMember
  · exact before candidate (mem_survivors.mp candidateMember).1
  · rw [List.mem_singleton.mp candidateMember]
    refine Or.inr fun early earlyMember late lateMember => ?_
    obtain ⟨consumed, consumedMember, held⟩ := merged lateMember
    rcases before consumed (present consumed consumedMember) with shared | newer
    · -- consumed by this compaction, it cannot be a survivor
      exact absurd (List.mem_map.mpr ⟨consumed, consumedMember, rfl⟩)
        (mem_survivors.mp (survives consumed shared)).2
    · exact newer early earlyMember late held

theorem Wired.tables_split (wired : host.Wired)
    (present : host.Present pending) : tableVersions host.tables =
      tableVersions (host.survivors pending) ∪ tableVersions pending.sstables := by
  ext version
  constructor
  · rintro ⟨table, member, held⟩
    by_cases consumed : table.id ∈ pending.sstables.map SSTable.id
    · obtain ⟨captured, capturedMember, sameId⟩ := List.mem_map.mp consumed
      rw [← wired.table_unique (present captured capturedMember) member sameId] at held
      exact Or.inr ⟨captured, capturedMember, held⟩
    · exact Or.inl ⟨table, mem_survivors.mpr ⟨member, consumed⟩, held⟩
  · rintro (⟨table, member, held⟩ | ⟨table, member, held⟩)
    · exact ⟨table, (mem_survivors.mp member).1, held⟩
    · exact ⟨table, present table member, held⟩

theorem Behind.survivors_newer
    (behind : host.Behind pending) (present : host.Present pending) :
    Older (tableVersions pending.sstables) (tableVersions (host.survivors pending)) := by
  rintro early earlyMember late ⟨table, member, held⟩
  obtain ⟨inView, survives⟩ := mem_survivors.mp member
  rcases behind present table inView with captured | newer
  · exact absurd (List.mem_map.mpr ⟨table, captured, rfl⟩) survives
  · exact newer early earlyMember late held

theorem Wired.thinned (wired : host.Wired)
    (member : task ∈ host.compactions) (built : task.built = some table)
    {history : Set (Version Bytes Bytes)} (det : Deterministic history)
    (subset : tableVersions task.pending.sstables ⊆ history) :
    Thinned task.pending.watermark (tableVersions task.pending.sstables) table.versions := by
  obtain ⟨_, runExact, _⟩ := wired.builtCompaction task member table built
  rw [SSTable.versions, runExact]
  refine LsmEngine.mergeEntries_thinned _ _ ?_
  intro left leftMember right rightMember
  exact det left (subset leftMember) right (subset rightMember)

/-! ## Reopening -/

def AllReadable (host : Host ETag) (unreadable : Nat → Bool) : Prop :=
  ∀ id ∈ host.listedIds, unreadable id = false

theorem Wired.loaded_perm (wired : host.Wired)
    (readable : host.AllReadable unreadable) :
    (host.listedIds.filterMap fun id =>
      if unreadable id then none else host.store.openSst id).Perm host.tables := by
  have loads : ∀ table ∈ host.tables,
      (if unreadable table.id then none else host.store.openSst table.id) = some table := by
    intro table member
    have listed := wired.listed.mem_iff.mpr (List.mem_map.mpr ⟨table, member, rfl⟩)
    simp [readable _ listed, ObjectStore.openSst, wired.objects table member]
  refine (wired.listed.filterMap _).trans ?_
  rw [List.filterMap_map]
  refine List.Perm.of_eq ?_
  conv_rhs => rw [← List.filterMap_some (l := host.tables)]
  exact List.filterMap_congr loads

theorem Wired.reopened_tables (wired : host.Wired)
    (readable : host.AllReadable unreadable) :
    (LsmEngine.openEngine host.walFile host.store host.engine.lease
      unreadable).view.sstables.Perm host.tables :=
  (List.perm_insertionSort _ _).trans (by
    have loaded := wired.loaded_perm readable
    simp only [listedIds, ObjectStore.loadManifest, Option.map_map] at loaded ⊢
    have sameManifest : Option.map (Prod.fst ∘ fun manifest : Manifest =>
        (manifest, host.store.manifestEtag manifest)) host.store.manifest = host.store.manifest := by
      cases host.store.manifest <;> rfl
    rw [sameManifest]
    exact loaded)

theorem openEngine_counter (file : Bytes) (store : ObjectStore ETag) (lease : LeaseHandle)
    (unreadable : Nat → Bool) : ∀ id ∈ (store.manifest.getD Manifest.default).sstableIds,
    id < (LsmEngine.openEngine file store lease unreadable).write.sstableId := by
  intro id member
  simp only [LsmEngine.openEngine, ObjectStore.loadManifest_getD]
  cases highest : (store.manifest.getD Manifest.default).sstableIds.max? with
  | none => rw [List.max?_eq_none_iff.mp highest] at member; exact absurd member List.not_mem_nil
  | some top =>
      have bound := (List.max?_eq_some_iff.mp highest).2 id member
      simp only [Option.map_some, Option.getD_some]
      omega

theorem Wired.reopened (wired : host.Wired)
    (readable : host.AllReadable unreadable) :
    Wired { host with
      engine := LsmEngine.openEngine host.walFile host.store host.engine.lease unreadable
      flushes := []
      compactions := []
      reads := [] } := by
  have perm := wired.reopened_tables readable
  have idsPerm := perm.map SSTable.id
  refine ⟨?_, ?_, ?_, ?_, List.nodup_nil, ?_, ?_, ?_, ?_, ?_, ?_⟩
  · simp [InSync, LsmEngine.openEngine, ObjectStore.loadManifest]
    rfl
  · intro id member
    simp only [heldIds, List.flatMap_nil, List.append_nil] at member
    refine openEngine_counter _ _ _ _ id ?_
    exact wired.listed.mem_iff.mpr (idsPerm.mem_iff.mp member)
  · exact List.forall_mem_nil _
  · exact idsPerm.nodup_iff.mpr wired.tablesNodup
  · exact List.forall_mem_nil _
  · exact List.forall_mem_nil _
  · exact List.forall_mem_nil _
  · exact List.forall_mem_nil _
  · exact wired.listed.trans idsPerm.symm
  · intro table member
    exact wired.objects table (perm.mem_iff.mp member)

theorem Wired.started (manifestEtag : Manifest → ETag) (leaseEtag : Lease → ETag)
    (lease : LeaseHandle) : (start manifestEtag leaseEtag lease).Wired := by
  refine ⟨rfl, ?_, ?_, List.nodup_nil, List.nodup_nil, ?_, ?_, ?_, ?_, List.Perm.refl _, ?_⟩
  · exact List.forall_mem_nil _
  · exact List.forall_mem_nil _
  · exact List.forall_mem_nil _
  · exact List.forall_mem_nil _
  · exact List.forall_mem_nil _
  · exact List.forall_mem_nil _
  · exact List.forall_mem_nil _

theorem Wired.applied (wired : host.Wired) (entries : List BatchEntry) :
    (host.applied entries).Wired :=
  wired.congr rfl rfl rfl ⟨_, rfl⟩ rfl rfl

theorem step_releaseSnapshot [DecidableEq ETag] {seq : Nat}
    (taken : host.step (.releaseSnapshot seq) = some next) :
    ∃ snapshots, next = { host with engine := { host.engine with
      write := { host.engine.write with openSnapshots := snapshots } } } := by
  rw [← Option.some.inj taken, LsmEngine.releaseSnapshot]
  cases host.engine.write.openSnapshots.get? seq with
  | none => exact ⟨host.engine.write.openSnapshots, rfl⟩
  | some count => exact ⟨_, rfl⟩

/-- Every step keeps the wiring, as long as a reopened engine loads every
table. -/
theorem Wired.step [DecidableEq ETag] (wired : host.Wired) (action : Action)
    (readable : ∀ unreadable, action = .reopen unreadable → host.AllReadable unreadable)
    (taken : host.step action = some next) : next.Wired := by
  cases action with
  | write failure entries =>
      cases failure with
      | none =>
          rcases step_write taken with ⟨rfl, _⟩ | ⟨rfl, _⟩ | ⟨_, rfl⟩
          · exact wired.applied entries
          · exact (wired.applied entries).frozen
          · exact wired.congr rfl rfl rfl ⟨_, rfl⟩ rfl rfl
      | some written =>
          rw [step_write_failed taken]
          exact wired.congr rfl rfl rfl ⟨_, rfl⟩ rfl rfl
  | snapshotNow =>
      rw [← Option.some.inj taken]
      exact wired.congr rfl rfl rfl ⟨_, rfl⟩ rfl rfl
  | releaseSnapshot seq =>
      obtain ⟨snapshots, rfl⟩ := step_releaseSnapshot taken
      exact wired.congr rfl rfl rfl ⟨_, rfl⟩ rfl rfl
  | beginFlush =>
      rcases step_beginFlush taken with rfl | rfl
      · exact wired
      · exact wired.frozen
  | finishFlush index bloom putFails =>
      obtain ⟨pending, found, ⟨rfl, _⟩ | rfl⟩ := step_finishFlush taken
      · exact wired.drop _ _ _ (List.eraseIdx_sublist _ _) (List.Sublist.refl _)
      · exact wired.flushBuilt found
  | commitFlush index fault threshold =>
      obtain ⟨pending, table, segments, found, ⟨rfl, _⟩ | ⟨_, done, rfl, rfl | rfl, _⟩⟩ :=
        step_commitFlush taken
      · exact wired.drop _ _ _ (List.eraseIdx_sublist _ _) (List.Sublist.refl _)
      · exact wired.flushed found
      · exact (wired.flushed found).captured
  | beginCompact =>
      rcases step_beginCompact taken with rfl | rfl
      · exact wired
      · exact wired.captured
  | finishCompact index bloom putFails =>
      obtain ⟨pending, found, ⟨rfl, _⟩ | ⟨table, tableExact, rfl⟩⟩ := step_finishCompact taken
      · exact wired.drop _ _ _ (List.Sublist.refl _) (List.eraseIdx_sublist _ _)
      · exact wired.compactionBuilt found tableExact
  | commitCompact index saveFails deleteFails =>
      obtain ⟨pending, table, found, ⟨rfl, _⟩ | ⟨_, objects, rfl, kept⟩⟩ := step_commitCompact taken
      · exact wired.drop _ _ _ (List.Sublist.refl _) (List.eraseIdx_sublist _ _)
      · exact wired.compacted found kept
  | startRead key | endRead index | setLease lease =>
      rw [← Option.some.inj taken]
      exact wired.congr rfl rfl rfl ⟨_, rfl⟩ rfl rfl
  | reopen unreadable =>
      rw [← Option.some.inj taken]
      exact wired.reopened (readable unreadable rfl)

end Host

end Pantheon.Keystone
