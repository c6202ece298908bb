import Mathlib
import Pantheon.Keystone.Skipping

/-!
# Tables that one open could not load

`LsmEngine::open` skips a listed table that fails to load, while `commit_flush`
and `commit_compact` write a manifest of the tables in memory.  The first
commit of such a process therefore drops the skipped tables from the manifest
for good.  What they held survives only where a newer version of each of their
rows is held elsewhere.
-/

set_option autoImplicit false

namespace Pantheon.Keystone

open Pantheon.Lib

namespace Host

variable {ETag : Type} {host next : Host ETag} {recorded : Set (Version Bytes Bytes)}
  {front : Bytes} {log : List Commit} {key : Bytes}

variable {index : Nat} {segments : Nat → Option Bytes} {pending : PendingFlush} {table : SSTable}
  {objects : Nat → Option SSTable}

/-! ## Commits -/

theorem listedTables_of_view (wired : host.ownView.Wired)
    (listed : host.store.listedIds = host.tables.map SSTable.id) :
    host.store.listedTables = host.tables := by
  rw [ObjectStore.listedTables, listed, List.filterMap_map]
  conv_rhs => rw [← List.filterMap_some (l := host.tables)]
  refine List.filterMap_congr fun table member => ?_
  have stored : host.store.sst table.id = some table := wired.objects table member
  simp [ObjectStore.openSst, stored]

theorem mem_heldRows_version {row : Entry} (member : row ∈ host.heldRows) :
    row.version ∈ host.everything front := by
  rcases List.mem_append.mp member with member | member
  · rcases List.mem_append.mp member with member | member
    · exact Or.inl (Or.inl (Or.inl (Or.inl ⟨row, member, rfl⟩)))
    · obtain ⟨task, taskMember, held⟩ := List.mem_flatMap.mp member
      exact Or.inl (Or.inl (Or.inl (Or.inr ⟨task, taskMember, row, held, rfl⟩)))
  · obtain ⟨table, tableMember, held⟩ := List.mem_flatMap.mp member
    exact Or.inl (Or.inl (Or.inr (Or.inl ⟨table, tableMember, row, held, rfl⟩)))

theorem Spared.retains_view (spared : host.Spared recorded front key)
    (skipping : host.Skipping recorded front log) (untouched : host.Untouched key)
    (superseded : host.Superseded) {cutoff : Nat}
    (above : ∀ version ∈ recorded, version.seq ≤ cutoff) :
    Retains (loggedVersions front ∪ tableVersions host.tables) recorded key cutoff := by
  set skipped := host.store.listedTables.filter fun table =>
    decide (table.id ∉ host.tables.map SSTable.id) with skippedExact
  have split : tableVersions host.store.listedTables =
      tableVersions host.tables ∪ tableVersions skipped := by
    ext version
    constructor
    · rintro ⟨table, member, held⟩
      by_cases inView : table.id ∈ host.tables.map SSTable.id
      · obtain ⟨live, liveMember, sameId⟩ := List.mem_map.mp inView
        have stored := ((mem_listedTables skipping.intact table).mp member).2
        have liveStored := skipping.wired.objects live liveMember
        rw [sameId] at liveStored
        rw [Option.some.inj (stored.symm.trans liveStored)] at held
        exact Or.inl ⟨live, liveMember, held⟩
      · exact Or.inr ⟨table, List.mem_filter.mpr ⟨member, decide_eq_true inView⟩, held⟩
    · rintro (⟨table, member, held⟩ | ⟨table, member, held⟩)
      · exact ⟨table, skipping.view_listed member, held⟩
      · exact ⟨table, (List.mem_filter.mp member).1, held⟩
  have retained := spared.retains cutoff above
  rw [split, ← Set.union_assoc] at retained
  refine retained.without ?_
  rintro version ⟨table, member, row, rowMember, rfl⟩ sameKey
  obtain ⟨listed, notInView⟩ := List.mem_filter.mp member
  obtain ⟨newer, held, newerKey, newerSeq⟩ :=
    superseded table listed (of_decide_eq_true notInView) row rowMember
  have newerRecorded := skipping.held_recorded untouched (mem_heldRows_version held)
    (newerKey.trans sameKey)
  exact ⟨newer.version, newerRecorded, newerKey.trans sameKey, above _ newerRecorded, newerSeq⟩

theorem Skipping.committed (skipping : host.Skipping recorded front log) {left : Bytes}
    {rest : List Commit} (wired : next.ownView.Wired) (inSync : next.InSync)
    (valid : next.engine.lease.valid = true) (aligned : next.Aligned)
    (file : next.walFile = left ++ logBytes rest) (unbroken : Unbroken left)
    (restLogged : ∀ commit ∈ rest, commit ∈ log) (sameHistory : next.history = host.history)
    (sameNext : next.engine.write.nextCommitSeq = host.engine.write.nextCommitSeq)
    (listed : next.store.listedIds = next.tables.map SSTable.id)
    (recordedMax : next.manifestMaxSeq = host.engine.write.nextCommitSeq - 1)
    (subset : next.engine.view.memVersions ∪ next.inFlightVersions ∪ next.published ∪
      loggedVersions left ⊆ host.everything front)
    (tasks : (next.compactions.map CompactTask.pending).Sublist
      (host.compactions.map CompactTask.pending))
    (present : ∀ task ∈ next.compactions, next.Present task.pending → host.Present task.pending) :
    next.Skipping recorded left rest := by
  have sameCommits : next.commits = host.commits := by rw [commits, commits, sameHistory]
  refine ⟨wired, inSync, valid, aligned, file, unbroken,
    fun commit member => skipping.fits commit (restLogged commit member), ?_, ?_, ?_, ?_, ?_, ?_,
    ?_, ?_, ?_, ?_, ?_, ?_⟩
  · intro commit member
    rw [sameHistory]
    exact skipping.logged commit (restLogged commit member)
  · rw [listed]; exact wired.tablesNodup
  · intro id member
    rw [listed] at member
    obtain ⟨table, tableMember, rfl⟩ := List.mem_map.mp member
    exact ⟨table, wired.objects table tableMember, rfl⟩
  · intro id reserved member
    rw [listed] at member
    exact wired.apart id reserved (List.mem_append_left _ member)
  · intro id member
    rw [listed] at member
    exact wired.heldBelow id (List.mem_append_left _ member)
  · intro table member
    rw [listed]
    exact List.mem_map.mpr ⟨table, member, rfl⟩
  · rw [sameCommits]; exact skipping.det
  · rw [sameCommits, sameNext]; exact skipping.bounded
  · intro version member
    rw [recordedMax]
    exact (Nat.le_sub_one_of_lt (skipping.bounded version (Or.inl member))).trans (le_max_left _ _)
  · rw [sameCommits]
    refine Set.Subset.trans ?_ skipping.subset
    rintro version ((held | held) | held)
    · exact subset (Or.inl held)
    · rw [listedTables_of_view wired listed] at held
      exact subset (Or.inl (Or.inr (Or.inl held)))
    · exact subset (Or.inr held)
  · intro task member
    obtain ⟨before, beforeMember, samePending⟩ := List.mem_map.mp
      (tasks.subset (List.mem_map.mpr ⟨task, member, rfl⟩))
    rw [← samePending]
    exact skipping.captives before beforeMember
  · refine (skipping.overlap.sublist tasks).imp_of_mem ?_
    intro early late earlyMember lateMember overlap earlyPresent latePresent
    obtain ⟨earlyTask, earlyTaskMember, rfl⟩ := List.mem_map.mp earlyMember
    obtain ⟨lateTask, lateTaskMember, rfl⟩ := List.mem_map.mp lateMember
    exact overlap (present earlyTask earlyTaskMember earlyPresent)
      (present lateTask lateTaskMember latePresent)

theorem flushed_listed {fault : Option TruncateFault}
    (idExact : table.id = pending.sstableId) :
    (host.flushed index segments fault pending table).store.listedIds =
      (host.flushed index segments fault pending table).tables.map SSTable.id := by
  simp only [ObjectStore.listedIds, Host.flushed, flushManifest, Option.getD_some, tables,
    List.map_append, List.map_cons, List.map_nil, idExact]

theorem Skipping.flushed (skipping : host.Skipping recorded front log)
    (found : host.flushes[index]? = some ⟨pending, some table⟩) :
    (host.flushed index segments none pending table).Skipping recorded [] [] := by
  have own := List.mem_of_getElem? found
  obtain ⟨idExact, runExact, _⟩ := skipping.wired.builtFlush _ own table rfl
  refine skipping.committed (skipping.wired.flushed found).ownView rfl skipping.valid rfl rfl
    Unbroken.nil (fun commit member => absurd member List.not_mem_nil) rfl rfl
    (flushed_listed idExact) rfl ?_ (List.Sublist.refl _) ?_
  · rintro version (((held | ⟨task, member, held⟩) | (⟨live, member, held⟩ | held)) | held)
    · exact Or.inl (Or.inl (Or.inl (Or.inl held)))
    · exact Or.inl (Or.inl (Or.inl (Or.inr
        ⟨task, (List.eraseIdx_sublist _ _).subset member, held⟩)))
    · rcases List.mem_append.mp member with member | member
      · exact Or.inl (Or.inl (Or.inr (Or.inl ⟨live, member, held⟩)))
      · rw [List.mem_singleton.mp member, SSTable.versions, runExact] at held
        exact Or.inl (Or.inl (Or.inl (Or.inr ⟨_, own, held⟩)))
    · exact Or.inl (Or.inl (Or.inr (Or.inr held)))
    · rw [loggedVersions_nil] at held
      exact absurd held (Set.notMem_empty _)
  · intro task member present
    have before := Present.of_flushed skipping.wired found member present
    exact before

/-- The oldest flush in flight holds what the log held of the key, and nothing
else in memory does. -/
theorem Located.oldest (located : host.Located front key)
    {built : Option SSTable} (found : host.flushes[0]? = some ⟨pending, built⟩) :
    slice pending.entries.versions key = slice (loggedVersions front) key ∧
      slice host.engine.view.memVersions key = ∅ ∧
      ∀ task ∈ host.flushes.eraseIdx 0, slice task.pending.entries.versions key = ∅ := by
  obtain ⟨tail, flushesExact⟩ : ∃ tail, host.flushes = ⟨pending, built⟩ :: tail := by
    cases flushes : host.flushes with
    | nil => rw [flushes] at found; exact absurd found (by simp)
    | cons head tail => rw [flushes] at found; exact ⟨tail, by rw [Option.some.inj found]⟩
  have runsExact : host.pendingRuns =
      pending.entries :: tail.map fun task => task.pending.entries := by
    rw [pendingRuns, flushesExact, List.map_cons]
  have inTail : ∀ task ∈ host.flushes.eraseIdx 0,
      task.pending.entries ∈ tail.map fun task => task.pending.entries := by
    intro task member
    rw [flushesExact, List.eraseIdx_cons_zero] at member
    exact List.mem_map.mpr ⟨task, member, rfl⟩
  rcases located with ⟨idle, _⟩ | ⟨memClear, first, rest, runs, inFirst, restClear⟩ |
    ⟨nothing, memClear, runsClear⟩
  · rw [runsExact] at idle
    exact absurd idle (by simp)
  · rw [runsExact] at runs
    obtain ⟨rfl, rfl⟩ := List.cons.inj runs
    exact ⟨inFirst, memClear, fun task member => restClear _ (inTail task member)⟩
  · rw [runsExact] at runsClear
    refine ⟨?_, memClear, fun task member => ?_⟩
    · rw [nothing]
      exact runsClear _ List.mem_cons_self
    · exact runsClear _ (List.mem_cons_of_mem _ (inTail task member))

theorem Spared.flushed (spared : host.Spared recorded front key)
    (skipping : host.Skipping recorded front log) (untouched : host.Untouched key)
    (found : host.flushes[0]? = some ⟨pending, some table⟩) (inOrder : host.CommitsInOrder 0)
    (superseded : host.Superseded) :
    (host.flushed 0 segments none pending table).Spared recorded [] key := by
  simp only [CommitsInOrder, found] at inOrder
  have own := List.mem_of_getElem? found
  obtain ⟨idExact, runExact, _⟩ := skipping.wired.builtFlush _ own table rfl
  obtain ⟨inFirst, memClear, restClear⟩ := spared.located.oldest found
  have tableSlice : slice table.versions key = slice (loggedVersions front) key := by
    rw [SSTable.versions, runExact]
    exact inFirst
  have nothing : slice (loggedVersions []) key = ∅ := by
    rw [loggedVersions_nil]
    ext version
    simp [slice]
  have tablesExact : (host.flushed 0 segments none pending table).store.listedTables =
      host.tables ++ [table] :=
    listedTables_of_view (skipping.wired.flushed found).ownView (flushed_listed idExact)
  refine ⟨?_, ?_, ?_, ?_, ?_, ?_⟩
  · intro cutoff above
    rw [tablesExact]
    refine (spared.retains_view skipping untouched superseded above).of_slice ?_
    rw [tableVersions_append, tableVersions_singleton, slice_union, slice_union, slice_union,
      tableSlice, nothing, Set.empty_union, Set.union_comm]
  · rw [tablesExact]
    intro lower lowerMember upper upperMember below
    rcases List.mem_append.mp lowerMember with lowerMember | lowerMember
    · rcases List.mem_append.mp upperMember with upperMember | upperMember
      · exact spared.aged lower (skipping.view_listed lowerMember) upper
          (skipping.view_listed upperMember) below
      · rw [List.mem_singleton.mp upperMember, tableSlice]
        exact spared.frontShadows lower (skipping.view_listed lowerMember)
    · rw [List.mem_singleton.mp lowerMember] at below ⊢
      rcases List.mem_append.mp upperMember with upperMember | upperMember
      · exact (inOrder upper upperMember (idExact ▸ below)).keysApart.symm.keyOlder.slice_shadows key
      · rw [List.mem_singleton.mp upperMember] at below
        exact absurd below (lt_irrefl _)
  · intro live _
    rw [nothing]
    exact Shadows.empty_left _
  · intro task _
    rw [nothing]
    exact Shadows.empty_left _
  · intro task member present live liveMember
    rcases List.mem_append.mp liveMember with liveMember | liveMember
    · have before := Present.of_flushed skipping.wired found member present
      exact spared.behind task member before live liveMember
    · rw [List.mem_singleton.mp liveMember, tableSlice]
      exact Or.inr (spared.captured task member)
  · refine Or.inr (Or.inr ⟨nothing, memClear, ?_⟩)
    intro run member
    obtain ⟨task, taskMember, rfl⟩ := List.mem_map.mp member
    exact restClear task taskMember

theorem Skipping.compacted (skipping : host.Skipping recorded front log)
    {pending : PendingCompaction}
    (found : host.compactions[index]? = some ⟨pending, some table⟩)
    (kept : ∀ id, id ∉ pending.sstables.map SSTable.id → objects id = host.store.sst id) :
    (host.compacted index objects pending table).Skipping recorded front log := by
  have own := List.mem_of_getElem? found
  obtain ⟨_, runExact, _⟩ := skipping.wired.builtCompaction _ own table rfl
  have merged : table.versions ⊆ tableVersions pending.sstables := by
    rw [SSTable.versions, runExact]
    exact LsmEngine.mergeEntries_sub _ _
  refine skipping.committed (skipping.wired.compacted found kept).ownView rfl skipping.valid
    skipping.aligned skipping.file skipping.unbroken (fun commit member => member) rfl rfl rfl rfl ?_
    ((List.eraseIdx_sublist _ _).map _) ?_
  · rintro version ((held | (⟨live, member, held⟩ | ⟨task, member, held⟩)) | held)
    · exact Or.inl (Or.inl (Or.inl held))
    · rcases List.mem_append.mp member with member | member
      · exact Or.inl (Or.inl (Or.inr (Or.inl ⟨live, (mem_survivors.mp member).1, held⟩)))
      · rw [List.mem_singleton.mp member] at held
        exact Or.inl (Or.inl (Or.inr (captured_published own (merged held))))
    · exact Or.inl (Or.inl (Or.inr (captured_published
        ((List.eraseIdx_sublist _ _).subset member) held)))
    · exact Or.inr held
  · intro task member present captured capturedMember
    exact (mem_survivors.mp (Present.of_compacted skipping.wired found
      ((List.eraseIdx_sublist _ _).subset member) present captured capturedMember)).1

/-- Two compactions that are both present share a table, so only one of them
can still commit with all of its tables listed. -/
theorem Skipping.consumed (skipping : host.Skipping recorded front log)
    {pending : PendingCompaction}
    (found : host.compactions[index]? = some ⟨pending, some table⟩)
    (present : host.Present pending) {task : CompactTask}
    (member : task ∈ host.compactions.eraseIdx index) :
    ¬ (host.compacted index objects pending table).Present task.pending := by
  intro stillPresent
  have before : task ∈ host.compactions := (List.eraseIdx_sublist _ _).subset member
  have survives := Present.of_compacted skipping.wired found before stillPresent
  have taskPresent : host.Present task.pending := fun captured capturedMember =>
    (mem_survivors.mp (survives captured capturedMember)).1
  have symmetric : ∀ left right : PendingCompaction,
      (host.Present left → host.Present right → ∃ table ∈ left.sstables, table ∈ right.sstables) →
      host.Present right → host.Present left →
        ∃ table ∈ right.sstables, table ∈ left.sstables := by
    intro left right overlap rightPresent leftPresent
    obtain ⟨shared, inLeft, inRight⟩ := overlap leftPresent rightPresent
    exact ⟨shared, inRight, inLeft⟩
  have reordered := ((eraseIdx_perm found).map CompactTask.pending).pairwise skipping.overlap
    fun {left right} => symmetric left right
  obtain ⟨shared, inOwn, inTask⟩ := (List.pairwise_cons.mp reordered).1 task.pending
    (List.mem_map.mpr ⟨task, member, rfl⟩) present taskPresent
  exact (mem_survivors.mp (survives shared inTask)).2 (List.mem_map.mpr ⟨shared, inOwn, rfl⟩)

theorem Spared.compacted (spared : host.Spared recorded front key)
    (skipping : host.Skipping recorded front log) (untouched : host.Untouched key)
    {pending : PendingCompaction}
    (found : host.compactions[index]? = some ⟨pending, some table⟩)
    (kept : ∀ id, id ∉ pending.sstables.map SSTable.id → objects id = host.store.sst id)
    (keeps : host.KeepsIdOrder index) (superseded : host.Superseded) :
    (host.compacted index objects pending table).Spared recorded front key := by
  simp only [KeepsIdOrder, found] at keeps
  obtain ⟨allListed, apart⟩ := keeps
  have own := List.mem_of_getElem? found
  obtain ⟨idExact, _, _⟩ := skipping.wired.builtCompaction _ own table rfl
  have present : host.Present pending := skipping.wired.present_of_allListed own allListed
  have thinned := skipping.wired.thinned own rfl skipping.det fun version held =>
    skipping.subset (Or.inl (Or.inl (Or.inr (captured_published own held))))
  have merged : table.versions ⊆ tableVersions pending.sstables := thinned.subset
  have tablesExact : (host.compacted index objects pending table).store.listedTables =
      host.survivors pending ++ [table] :=
    listedTables_of_view (skipping.wired.compacted found kept).ownView rfl
  have survivorListed : ∀ survivor ∈ host.survivors pending,
      survivor ∈ host.store.listedTables := fun survivor member =>
    skipping.view_listed (mem_survivors.mp member).1
  have survivorNewer : ∀ survivor ∈ host.survivors pending, Shadows (slice survivor.versions key)
      (slice (tableVersions pending.sstables) key) := by
    intro survivor member
    obtain ⟨inView, survives⟩ := mem_survivors.mp member
    rcases spared.behind _ own present survivor inView with captured | newer
    · exact absurd (List.mem_map.mpr ⟨survivor, captured, rfl⟩) survives
    · exact newer
  refine ⟨?_, ?_, ?_, ?_, ?_, spared.located⟩
  · intro cutoff above
    have retained := spared.retains_view skipping untouched superseded above
    rw [show tableVersions host.tables = _ from skipping.wired.tables_split present,
      ← Set.union_assoc] at retained
    have recordedHere : slice (loggedVersions front ∪ tableVersions (host.survivors pending) ∪
        tableVersions pending.sstables) key ⊆ recorded := by
      rintro version ⟨(held | ⟨survivor, member, held⟩) | held, sameKey⟩
      · exact skipping.held_recorded untouched (Or.inr held) sameKey
      · exact skipping.held_recorded untouched
          (Or.inl (Or.inr ⟨survivor, survivorListed survivor member, held⟩)) sameKey
      · exact skipping.held_recorded untouched
          (Or.inl (Or.inl (Or.inr (captured_published own held)))) sameKey
    rw [tablesExact, tableVersions_append, tableVersions_singleton, ← Set.union_assoc]
    refine retained.replace_slice recordedHere ?_ thinned ?_ ?_
    · exact fun left leftMember right rightMember =>
        skipping.det left (Or.inl leftMember) right (Or.inl rightMember)
    · refine NoGap.of_visible fun version held => above version (recordedHere ?_)
      exact ⟨Or.inr held.1, held.2⟩
    · rw [slice_union]
      refine (spared.captured _ own).union_left ?_
      rintro upper ⟨⟨survivor, member, held⟩, sameKey⟩ lower lowerMember lowerKey newer
      have shadowed := survivorNewer survivor member upper ⟨held, sameKey⟩ lower lowerMember
        lowerKey newer
      exact ⟨⟨survivor, member, shadowed.1⟩, shadowed.2⟩
  · rw [tablesExact]
    intro lower lowerMember upper upperMember below
    rcases List.mem_append.mp lowerMember with lowerMember | lowerMember
    · rcases List.mem_append.mp upperMember with upperMember | upperMember
      · exact spared.aged lower (survivorListed lower lowerMember) upper
          (survivorListed upper upperMember) below
      · rw [List.mem_singleton.mp upperMember] at below ⊢
        exact (apart lower lowerMember (idExact ▸ below)).keysApart.keyOlder.slice_shadows key
    · rw [List.mem_singleton.mp lowerMember] at below ⊢
      rcases List.mem_append.mp upperMember with upperMember | upperMember
      · exact (survivorNewer upper upperMember).mono_right (slice_mono merged key)
      · rw [List.mem_singleton.mp upperMember] at below
        exact absurd below (lt_irrefl _)
  · rw [tablesExact]
    intro live member
    rcases List.mem_append.mp member with member | member
    · exact spared.frontShadows live (survivorListed live member)
    · rw [List.mem_singleton.mp member]
      exact (spared.captured _ own).mono_right (slice_mono merged key)
  · intro task member
    exact spared.captured task ((List.eraseIdx_sublist _ _).subset member)
  · intro task member stillPresent
    exact absurd stillPresent (skipping.consumed found present member)

/-! ## The open that skips tables -/

section Opened

variable {file : Bytes} {store : ObjectStore ETag} {lease : LeaseHandle} {unreadable : Nat → Bool}

theorem opened_tables (file : Bytes) (store : ObjectStore ETag) (lease : LeaseHandle)
    (unreadable : Nat → Bool) : (opened file store lease unreadable).tables.Perm
      (store.listedIds.filterMap fun id => if unreadable id then none else store.openSst id) := by
  simp only [tables, opened, LsmEngine.openEngine, ObjectStore.loadManifest_getD, ObjectStore.listedIds]
  exact List.perm_insertionSort (fun left right : SSTable => left.id ≤ right.id) _

theorem opened_listed
    (member : table ∈ (opened file store lease unreadable).tables) :
    table ∈ store.listedTables := by
  obtain ⟨id, listed, loaded⟩ :=
    List.mem_filterMap.mp ((opened_tables file store lease unreadable).mem_iff.mp member)
  split_ifs at loaded
  exact List.mem_filterMap.mpr ⟨id, listed, loaded⟩

theorem opened_wired (recordedStore : Recorded file store) :
    (opened file store lease unreadable).ownView.Wired := by
  have stored : ∀ table ∈ (opened file store lease unreadable).tables,
      table.id ∈ store.listedIds ∧ store.sst table.id = some table := fun table member =>
    (mem_listedTables recordedStore.intact table).mp (opened_listed member)
  refine ⟨rfl, ?_, ?_, ?_, List.nodup_nil, ?_, ?_, ?_, ?_, List.Perm.refl _, ?_⟩
  · intro id member
    rcases List.mem_append.mp member with member | member
    · obtain ⟨table, tableMember, rfl⟩ := List.mem_map.mp member
      exact openEngine_counter file store lease unreadable _ (stored table tableMember).1
    · exact absurd member List.not_mem_nil
  · exact List.forall_mem_nil _
  · have perm := (opened_tables file store lease unreadable).map SSTable.id
    exact perm.nodup_iff.mpr
      (recordedStore.nodup.sublist (store.loaded_ids_sublist unreadable store.listedIds))
  · exact List.forall_mem_nil _
  · exact List.forall_mem_nil _
  · exact List.forall_mem_nil _
  · exact List.forall_mem_nil _
  · intro table member
    exact (stored table member).2

theorem opened_skipping (recordedStore : Recorded file store) (valid : lease.valid = true) :
    (opened file store lease unreadable).Skipping (recordedVersions file store) file [] := by
  have noCommits : (opened file store lease unreadable).commits = ∅ := by
    ext version
    simp [commits, opened, committed]
  have visible : ∀ version ∈ recordedVersions file store, version.seq ≤
      max (opened file store lease unreadable).manifestMaxSeq (replayFrom file 0).2 := by
    rintro version (held | held)
    · exact (loggedVersions_bounded file version held).trans (le_max_right _ _)
    · exact (recordedStore.bounded version held).trans (le_max_left _ _)
  refine ⟨opened_wired recordedStore, ?_, valid, rfl, ?_, recordedStore.whole, ?_, ?_,
    recordedStore.nodup, recordedStore.intact, ?_, openEngine_counter file store lease unreadable,
    ?_, ?_, ?_, visible, ?_, ?_, List.Pairwise.nil⟩
  · simp only [InSync, opened, LsmEngine.openEngine, ObjectStore.loadManifest, Option.map_map]
    rfl
  · exact (List.append_nil file).symm
  · exact List.forall_mem_nil _
  · exact List.forall_mem_nil _
  · exact List.forall_mem_nil _
  · intro table member
    exact ((mem_listedTables recordedStore.intact table).mp (opened_listed member)).1
  · rw [noCommits, Set.union_empty]
    exact recordedStore.det
  · rw [noCommits, Set.union_empty]
    intro version member
    refine Nat.lt_succ_of_le ((visible version member).trans ?_)
    simp only [manifestMaxSeq, opened, LsmEngine.openEngine, Wal.replay, Wal.openFile,
      ObjectStore.loadManifest_getD]
    exact max_le (le_max_right _ _) ((le_max_left _ _).trans (le_max_left _ _))
  · rw [noCommits, Set.union_empty]
    rintro version ((((held | ⟨task, member, _⟩) | (⟨table, member, held⟩ | ⟨task, member, _⟩)) |
      held) | held)
    · exact Or.inl held
    · exact absurd member List.not_mem_nil
    · exact Or.inr ⟨table, opened_listed member, held⟩
    · exact absurd member List.not_mem_nil
    · exact Or.inr held
    · exact Or.inl held
  · exact List.forall_mem_nil _

theorem opened_spared (recordedStore : Recorded file store) (key : Bytes) :
    (opened file store lease unreadable).Spared (recordedVersions file store) file key := by
  refine ⟨?_, ?_, ?_, ?_, ?_, Or.inl ⟨rfl, rfl⟩⟩
  · intro cutoff _ version newest
    exact Or.inl newest.mem
  · intro lower lowerMember upper upperMember below
    exact (recordedStore.aged lower lowerMember upper upperMember below).slice_shadows key
  · intro table member
    refine (recordedStore.logShadows.slice key).mono_right (slice_mono ?_ key)
    exact fun version held => ⟨table, member, held⟩
  · exact List.forall_mem_nil _
  · exact List.forall_mem_nil _

end Opened

/-! ## Runs -/

theorem step_history [DecidableEq ETag] {action : Action} (taken : host.step action = some next) :
    ∀ commit ∈ host.history, commit ∈ next.history := by
  intro commit member
  cases action with
  | write failure entries =>
      cases failure with
      | none =>
          rcases step_write taken with ⟨rfl, _⟩ | ⟨rfl, _⟩ | ⟨_, rfl⟩
          · exact List.mem_append_left _ member
          · exact List.mem_append_left _ member
          · exact member
      | some written => rw [step_write_failed taken]; exact member
  | beginFlush => rcases step_beginFlush taken with rfl | rfl <;> exact member
  | finishFlush index bloom putFails =>
      obtain ⟨pending, found, ⟨rfl, _⟩ | rfl⟩ := step_finishFlush taken <;> exact member
  | commitFlush index fault threshold =>
      obtain ⟨pending, table, segments, found, ⟨rfl, _⟩ | ⟨_, done, rfl, rfl | rfl, _⟩⟩ :=
        step_commitFlush taken <;> exact member
  | beginCompact => rcases step_beginCompact taken with rfl | rfl <;> exact member
  | finishCompact index bloom putFails =>
      obtain ⟨pending, found, ⟨rfl, _⟩ | ⟨table, _, rfl⟩⟩ := step_finishCompact taken <;> exact member
  | commitCompact index saveFails deleteFails =>
      obtain ⟨pending, table, found, ⟨rfl, _⟩ | ⟨_, objects, rfl, _⟩⟩ := step_commitCompact taken <;>
        exact member
  | snapshotNow => rw [← Option.some.inj taken]; exact member
  | releaseSnapshot seq => rw [← Option.some.inj taken]; exact member
  | startRead key => rw [← Option.some.inj taken]; exact member
  | endRead index => rw [← Option.some.inj taken]; exact member
  | setLease lease => rw [← Option.some.inj taken]; exact member
  | reopen unreadable => rw [← Option.some.inj taken]; exact member

theorem Untouched.before [DecidableEq ETag] {action : Action}
    (taken : host.step action = some next) (untouched : next.Untouched key) :
    host.Untouched key :=
  fun commit member => untouched commit (step_history taken commit member)

theorem Skipping.put_listed (skipping : host.Skipping recorded front log) {id : Nat}
    (reserved : id ∈ host.reservedIds) (table : SSTable) :
    ∀ listed ∈ host.store.listedIds,
      (host.store.putSst id table).sst listed = host.store.sst listed := by
  intro listed member
  refine Function.update_of_ne ?_ _ _
  rintro rfl
  exact skipping.unreserved listed reserved member

/-- The process, and every key it has not written. -/
def SparesUntouched (host : Host ETag) (recorded : Set (Version Bytes Bytes)) : Prop :=
  ∃ front log, host.Skipping recorded front log ∧
    ∀ key, host.Untouched key → host.Spared recorded front key

theorem SparesUntouched.retask (spares : host.SparesUntouched recorded)
    (wired : next.ownView.Wired) (same : host.Retasked next) : next.SparesUntouched recorded := by
  obtain ⟨front, log, skipping, spared⟩ := spares
  refine ⟨front, log, skipping.retask wired same, fun key untouched => ?_⟩
  obtain ⟨snapshots, sameEngine⟩ := same.engine
  rw [Untouched, same.history] at untouched
  exact (spared key untouched).retask (by rw [sameEngine])
    (ObjectStore.listedTables_congr same.manifest same.objects) same.flushes same.compactions

theorem SparesUntouched.step [DecidableEq ETag] (spares : host.SparesUntouched recorded)
    (action : Action) (succeeds : action.Succeeds) (keeps : host.KeepsRecorded action)
    (taken : host.step action = some next) : next.SparesUntouched recorded := by
  have whole := spares
  obtain ⟨front, log, skipping, spared⟩ := spares
  have before : ∀ key, next.Untouched key → host.Untouched key := fun key => Untouched.before taken
  cases action with
  | write failure entries =>
      obtain rfl : failure = none := succeeds
      obtain ⟨distinct, fits⟩ := keeps
      have applied : ∀ key, (host.applied entries).Untouched key →
          (host.applied entries).Spared recorded front key := by
        intro key untouched
        refine (spared key fun commit member => untouched commit (List.mem_append_left _ member)).applied ?_
        exact untouched _ (List.mem_append_right _ (List.mem_singleton.mpr rfl))
      rcases step_write taken with ⟨rfl, _⟩ | ⟨rfl, _⟩ | ⟨invalid, _⟩
      · exact ⟨front, _, skipping.applied distinct fits, applied⟩
      · exact ⟨front, _, (skipping.applied distinct fits).frozen,
          fun key untouched => (applied key untouched).frozen⟩
      · rw [skipping.valid] at invalid
        exact absurd invalid (by simp)
  | snapshotNow =>
      rw [← Option.some.inj taken]
      exact whole.retask (skipping.wired.congr rfl rfl rfl ⟨_, rfl⟩ rfl rfl)
        ⟨⟨_, rfl⟩, rfl, rfl, rfl, fun _ _ => rfl, rfl, rfl⟩
  | releaseSnapshot seq =>
      obtain ⟨snapshots, rfl⟩ := step_releaseSnapshot taken
      exact whole.retask (skipping.wired.congr rfl rfl rfl ⟨_, rfl⟩ rfl rfl)
        ⟨⟨_, rfl⟩, rfl, rfl, rfl, fun _ _ => rfl, rfl, rfl⟩
  | beginFlush =>
      rcases step_beginFlush taken with rfl | rfl
      · exact whole
      · exact ⟨front, log, skipping.frozen, fun key untouched => (spared key untouched).frozen⟩
  | finishFlush index bloom putFails =>
      obtain ⟨pending, found, ⟨_, fails⟩ | rfl⟩ := step_finishFlush taken
      · exact absurd (succeeds.symm.trans fails) (by simp)
      · exact whole.retask (skipping.wired.flushBuilt found).ownView ⟨⟨_, rfl⟩, rfl, rfl, rfl,
          skipping.put_listed (reservedIds_flush (List.mem_of_getElem? found)) _,
          set_map_of_getElem? FlushTask.pending _ _ _ _ found rfl, rfl⟩
  | commitFlush index fault threshold =>
      obtain rfl : fault = none := succeeds
      obtain ⟨rfl, inOrder, superseded⟩ := keeps
      obtain ⟨pending, table, segments, found, ⟨_, fails⟩ | ⟨_, done, doneExact, ended, _⟩⟩ :=
        step_commitFlush taken
      · rcases fails with fails | stale
        · exact absurd rfl fails
        · exact absurd skipping.inSync stale
      · have doneSkipping : done.Skipping recorded [] [] := doneExact ▸ skipping.flushed found
        have doneSpared : ∀ key, host.Untouched key → done.Spared recorded [] key := by
          intro key untouched
          rw [doneExact]
          exact (spared key untouched).flushed skipping untouched found inOrder superseded
        rcases ended with rfl | rfl
        · exact ⟨[], [], doneSkipping, fun key untouched => doneSpared key (before key untouched)⟩
        · exact ⟨[], [], doneSkipping.captured, fun key untouched =>
            (doneSpared key (before key untouched)).capturedNow doneSkipping⟩
  | beginCompact =>
      rcases step_beginCompact taken with rfl | rfl
      · exact whole
      · exact ⟨front, log, skipping.captured, fun key untouched =>
          (spared key untouched).capturedNow skipping⟩
  | finishCompact index bloom putFails =>
      obtain ⟨pending, found, ⟨_, fails⟩ | ⟨table, tableExact, rfl⟩⟩ := step_finishCompact taken
      · exact absurd (succeeds.symm.trans fails) (by simp)
      · exact whole.retask (skipping.wired.compactionBuilt found tableExact).ownView
          ⟨⟨_, rfl⟩, rfl, rfl, rfl,
            skipping.put_listed (reservedIds_compaction (List.mem_of_getElem? found)) _, rfl,
            set_map_of_getElem? CompactTask.pending _ _ _ _ found rfl⟩
  | commitCompact index saveFails deleteFails =>
      obtain ⟨keepsOrder, superseded⟩ := keeps
      obtain ⟨pending, table, found, ⟨_, fails⟩ | ⟨_, objects, rfl, kept⟩⟩ := step_commitCompact taken
      · rcases fails with fails | stale
        · exact absurd (succeeds.symm.trans fails) (by simp)
        · exact absurd skipping.inSync stale
      · exact ⟨front, log, skipping.compacted found kept, fun key untouched =>
          (spared key (before key untouched)).compacted skipping (before key untouched) found kept
            keepsOrder superseded⟩
  | startRead key => exact absurd succeeds (by simp [Action.Succeeds])
  | endRead index => exact absurd succeeds (by simp [Action.Succeeds])
  | setLease lease => exact absurd succeeds (by simp [Action.Succeeds])
  | reopen unreadable => exact absurd succeeds (by simp [Action.Succeeds])

theorem LogCovered.recordedStore (covered : host.LogCovered log) :
    Recorded host.walFile host.store := by
  have durable := covered.durable
  have logged : loggedVersions host.walFile = committed log := by
    have replayed := replay_logBytes log durable.fits []
    rw [List.append_nil, replayFrom_nil, List.append_nil] at replayed
    rw [loggedVersions, durable.file, replayed]
    exact versions_replayed log
      (fun commit member => durable.distinct commit (durable.suffix.subset member))
      (durable.increasing.sublist durable.suffix.sublist)
  have perm : host.store.listedTables.Perm host.tables := by
    have readable : host.AllReadable fun _ => false := fun id _ => rfl
    have loaded := durable.wired.loaded_perm readable
    simp only [Bool.false_eq_true, if_false] at loaded
    exact loaded
  have tablesExact : tableVersions host.store.listedTables = tableVersions host.tables :=
    Set.Subset.antisymm (tableVersions_mono fun table member => perm.mem_iff.mp member)
      (tableVersions_mono fun table member => perm.mem_iff.mpr member)
  refine ⟨?_, ?_, ?_, ?_, ?_, ?_, ?_⟩
  · rw [durable.file]
    refine unbroken_encodeBatches _ fun batch member => ?_
    obtain ⟨commit, commitMember, rfl⟩ := List.mem_map.mp member
    exact durable.fits commit commitMember
  · exact durable.wired.listed.nodup_iff.mpr durable.wired.tablesNodup
  · intro id member
    obtain ⟨table, tableMember, rfl⟩ := List.mem_map.mp (durable.wired.listed.mem_iff.mp member)
    exact ⟨table, durable.wired.objects table tableMember, rfl⟩
  · rw [recordedVersions, logged, tablesExact]
    exact fun left leftMember right rightMember =>
      durable.det left (durable.keptSubset leftMember) right (durable.keptSubset rightMember)
  · intro lower lowerMember upper upperMember
    exact durable.idOrdered lower (perm.mem_iff.mp lowerMember) upper (perm.mem_iff.mp upperMember)
  · rw [logged, tablesExact]
    exact durable.log_shadows durable.tablesSubset
  · rw [tablesExact]
    intro version held
    obtain ⟨commit, member, committed⟩ := durable.tablesSubset held
    rcases durable.recorded commit member with inLog | recorded
    · -- a version still in the log is newer than every table
      exact absurd (covered.tablesOlder version held version ⟨commit, inLog, committed⟩) (lt_irrefl _)
    · rw [commit_seq_of_mem committed]
      exact recorded

end Host

variable {ETag : Type} [DecidableEq ETag]

/-- A process that opened without some tables, and commits only while every row
of theirs is superseded by what it holds, leaves every key it does not write as
it was recorded. -/
theorem skipped_tables_read_again (file : Bytes) (store : ObjectStore ETag)
    (recordedStore : Recorded file store) (token : Nat) (unreadable : Nat → Bool)
    (host : Host ETag)
    (reached : Reaches Host.step (fun host action => action.Succeeds ∧ host.KeepsRecorded action)
      (Host.opened file store ⟨token, true⟩ unreadable) host) :
    ∀ key, host.Untouched key →
      Answers (recordedVersions file store) key (host.reopened fun _ => false).currentSeq
        ((host.reopened fun _ => false).readAt key (host.reopened fun _ => false).currentSeq) := by
  obtain ⟨front, log, skipping, spared⟩ :=
    Reaches.invariant (fun host => host.SparesUntouched (recordedVersions file store))
      ⟨file, [], Host.opened_skipping recordedStore rfl,
        fun key _ => Host.opened_spared recordedStore key⟩
      (fun host action next spares ⟨succeeds, keeps⟩ taken =>
        spares.step action succeeds keeps taken) host reached
  intro key untouched
  exact (spared key untouched).reopened_answers skipping untouched recordedStore.det

def overwrittenRun : List Action :=
  [.write none [⟨"t", [1], some [7]⟩], .beginFlush, .finishFlush 0 Bloom.accepting false,
    .commitFlush 0 none 4, .write none [⟨"t", [1], some [8]⟩], .beginFlush,
    .finishFlush 0 Bloom.accepting false, .commitFlush 0 none 4]

def laterFlushRun : List Action :=
  [.write none [⟨"t", [2], some [9]⟩], .beginFlush, .finishFlush 0 Bloom.accepting false,
    .commitFlush 0 none 4]

/-- The table with the older value is skipped and dropped. -/
theorem skipped_table_overwritten :
    ∃ before host, runChecked Host.step
        (fun host action => decide (action.Succeeds ∧ host.Covering action)) Host.fresh
        overwrittenRun = some before ∧
      runChecked Host.step
        (fun host action => decide (action.Succeeds ∧ host.KeepsRecorded action))
        (Host.opened before.walFile before.store ⟨1, true⟩ fun id => id == 1)
        laterFlushRun = some host ∧
      host.store.listedIds = [2, 3] ∧
      Answers (recordedVersions before.walFile before.store) [1]
        (host.reopened fun _ => false).currentSeq
        ((host.reopened fun _ => false).readAt [1] (host.reopened fun _ => false).currentSeq) := by
  have facts : ((runChecked Host.step
      (fun host action => decide (action.Succeeds ∧ host.Covering action)) Host.fresh
      overwrittenRun).bind fun before => (runChecked Host.step
        (fun host action => decide (action.Succeeds ∧ host.KeepsRecorded action))
        (Host.opened before.walFile before.store ⟨1, true⟩ fun id => id == 1)
        laterFlushRun).map fun host => (host.store.listedIds, host.history)) =
      some ([2, 3], [⟨3, [⟨"t", [2], some [9]⟩]⟩]) := by
    decide +kernel
  obtain ⟨before, ranBefore, facts⟩ := Option.bind_eq_some_iff.mp facts
  obtain ⟨host, ran, exact⟩ := Option.map_eq_some_iff.mp facts
  simp only [Prod.mk.injEq] at exact
  obtain ⟨listed, history⟩ := exact
  obtain ⟨log, covered⟩ := Host.LogCovered.reached (runChecked_decided ranBefore)
  have reached := runChecked_decided ran
  have untouched : host.Untouched [1] := by
    rw [Host.Untouched, history]
    decide
  exact ⟨before, host, ranBefore, ran, listed,
    skipped_tables_read_again before.walFile before.store covered.recordedStore 1 (fun id => id == 1) host
      reached [1] untouched⟩

def singleTableRun : List Action :=
  [.write none [⟨"t", [1], some [7]⟩], .beginFlush, .finishFlush 0 Bloom.accepting false,
    .commitFlush 0 none 4]

/-- The first flush of the process drops the skipped table, and the key it held
is gone when every object loads again. -/
theorem skipped_table_forgotten :
    ¬ ∀ (file : Bytes) (store : ObjectStore (Option Manifest)), Recorded file store →
      ∀ (token : Nat) (unreadable : Nat → Bool) (host : Host (Option Manifest)),
        Reaches Host.step (fun _ action => action.Succeeds)
          (Host.opened file store ⟨token, true⟩ unreadable) host →
        ∀ key, host.Untouched key →
          Answers (recordedVersions file store) key (host.reopened fun _ => false).currentSeq
            ((host.reopened fun _ => false).readAt key
              (host.reopened fun _ => false).currentSeq) := by
  intro claimed
  have stored : (runChecked Host.step
      (fun host action => decide (action.Succeeds ∧ host.Covering action)) Host.fresh
      singleTableRun).map (fun before => (before.walFile,
        before.store.listedTables.flatMap fun table => table.run.entries.map Entry.version)) =
      some ([], [⟨[1], 1, some [7]⟩]) := by
    decide +kernel
  obtain ⟨before, ranBefore, exact⟩ := Option.map_eq_some_iff.mp stored
  obtain ⟨file, listed⟩ := Prod.mk.inj exact
  have facts : ((runChecked Host.step
      (fun host action => decide (action.Succeeds ∧ host.Covering action)) Host.fresh
      singleTableRun).bind fun before => (runChecked Host.step
        (fun _ action => decide action.Succeeds)
        (Host.opened before.walFile before.store ⟨1, true⟩ fun id => id == 1)
        laterFlushRun).map fun host => (host.history, (host.reopened fun _ => false).currentSeq,
          (host.reopened fun _ => false).readAt [1] 2)) =
      some ([⟨2, [⟨"t", [2], some [9]⟩]⟩], 2, none) := by
    decide +kernel
  rw [ranBefore, Option.bind_some] at facts
  obtain ⟨host, ran, exact⟩ := Option.map_eq_some_iff.mp facts
  simp only [Prod.mk.injEq] at exact
  obtain ⟨history, current, read⟩ := exact
  obtain ⟨log, covered⟩ := Host.LogCovered.reached (runChecked_decided ranBefore)
  have reached := runChecked_decided ran
  have untouched : host.Untouched [1] := by
    rw [Host.Untouched, history]
    decide
  have newest : Newest (recordedVersions before.walFile before.store) [1] 2 ⟨[1], 1, some [7]⟩ := by
    rw [recordedVersions, file, loggedVersions_nil, Set.empty_union, tableVersions_eq_listed, listed]
    refine ⟨List.mem_singleton.mpr rfl, rfl, by decide, ?_⟩
    intro other member _ _
    rw [List.mem_singleton.mp member]
  have answered := claimed before.walFile before.store covered.recordedStore 1 (fun id => id == 1)
    host reached [1] untouched
  rw [current] at answered
  have found := answered.1 _ newest
  rw [read] at found
  exact absurd found (by decide)

end Pantheon.Keystone
