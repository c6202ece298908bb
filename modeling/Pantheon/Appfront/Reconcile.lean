import Mathlib

/-!
# Keyed list reconciliation: `tpt-appfront-core/src/reconcile.rs`

The nodes in front of the cursor are the new keys that have been handled, and those from the
cursor on are the survivors that have not been consumed, in the old order.
-/

set_option autoImplicit false

namespace Pantheon.Appfront

section Reconcile

variable {K : Type} [DecidableEq K]

inductive ListEdit (K : Type) where
  | keep (key : K)
  | move (key : K)
  | insert (key : K)
deriving DecidableEq

structure KeyedDiff (K : Type) where
  edits : List (ListEdit K)
  removed : List K

/-- A value of the index map; `usize::MAX` is no index of a slice. -/
inductive Place where
  | index (position : Nat)
  | consumed
deriving DecidableEq

structure Progress (K : Type) where
  survivorIdx : K → Option Place
  frontIdx : Nat
  edits : List (ListEdit K)

def oldInNew (old new : List K) (key : K) : Bool := decide (key ∈ old ∧ key ∈ new)

def enumerated (survivors : List K) : K → Option Place :=
  survivors.zipIdx.foldl
    (fun map entry => Function.update map entry.1 (some (.index entry.2))) fun _ => none

def skipConsumed (survivorIdx : K → Option Place) : List K → Nat → Nat
  | [], frontIdx => frontIdx
  | key :: rest, frontIdx =>
      if survivorIdx key ≠ some (.index frontIdx) then skipConsumed survivorIdx rest (frontIdx + 1)
      else frontIdx

def reconcileNext (old new survivors : List K) (progress : Progress K) (key : K) : Progress K :=
  if !oldInNew old new key then { progress with edits := progress.edits ++ [.insert key] }
  else
    let frontIdx := skipConsumed progress.survivorIdx (survivors.drop progress.frontIdx)
      progress.frontIdx
    if survivors[frontIdx]? = some key then
      ⟨Function.update progress.survivorIdx key none, frontIdx + 1, progress.edits ++ [.keep key]⟩
    else
      ⟨Function.update progress.survivorIdx key (some .consumed), frontIdx,
        progress.edits ++ [.move key]⟩

def reconcileKeys (old new : List K) : KeyedDiff K :=
  let removed := old.filter fun key => !decide (key ∈ new)
  let survivors := old.filter (oldInNew old new)
  let progress := new.foldl (reconcileNext old new survivors) ⟨enumerated survivors, 0, []⟩
  ⟨progress.edits, removed⟩

/-! ## The list in place -/

def applyEdit (nodes : List K) (cursor : Nat) : ListEdit K → List K
  | .keep _ => nodes
  | .move key => (nodes.erase key).insertIdx cursor key
  | .insert key => nodes.insertIdx cursor key

/-- The node to keep is at the cursor; the node to move is behind it. -/
def Fits (nodes : List K) (cursor : Nat) : ListEdit K → Prop
  | .keep key => nodes[cursor]? = some key
  | .move key => ∃ place, cursor < place ∧ nodes[place]? = some key
  | .insert _ => True

def Drives : List K → Nat → List (ListEdit K) → List K → Prop
  | nodes, _, [], final => nodes = final
  | nodes, cursor, edit :: edits, final =>
      Fits nodes cursor edit ∧ Drives (applyEdit nodes cursor edit) (cursor + 1) edits final

theorem Drives.append {final : List K} {edits : List (ListEdit K)} {edit : ListEdit K} :
    ∀ {nodes middle : List K} {cursor : Nat}, Drives nodes cursor edits middle →
      Fits middle (cursor + edits.length) edit →
      applyEdit middle (cursor + edits.length) edit = final →
      Drives nodes cursor (edits ++ [edit]) final := by
  induction edits with
  | nil =>
      rintro nodes middle cursor rfl fits applied
      exact ⟨fits, applied⟩
  | cons first edits hyp =>
      rintro nodes middle cursor ⟨firstFits, drives⟩ fits applied
      rw [List.length_cons, ← Nat.add_assoc, Nat.add_right_comm] at fits applied
      exact ⟨firstFits, hyp drives fits applied⟩

/-! ## The loop -/

/-- What the loop knows of the survivors when the keys `handled` are done. -/
structure Consistent (survivors handled : List K) (progress : Progress K) : Prop where
  indexed : ∀ position key, survivors[position]? = some key →
    (progress.survivorIdx key = some (.index position) ↔ key ∉ handled)
  bounded : progress.frontIdx ≤ survivors.length
  front : ∀ key ∈ survivors.take progress.frontIdx, key ∈ handled

theorem enumerated_append (survivors : List K) (key : K) :
    enumerated (survivors ++ [key]) =
      Function.update (enumerated survivors) key (some (.index survivors.length)) := by
  unfold enumerated
  rw [List.zipIdx_append, List.foldl_append]
  simp

theorem enumerated_getElem {survivors : List K} (distinct : survivors.Nodup) {position : Nat}
    {key : K} (there : survivors[position]? = some key) :
    enumerated survivors key = some (.index position) := by
  induction survivors using List.reverseRecOn with
  | nil => cases there
  | append_singleton survivors last hyp =>
      obtain ⟨before, _, apart⟩ := List.nodup_append.mp distinct
      rw [enumerated_append]
      by_cases inside : position < survivors.length
      · rw [List.getElem?_append_left inside] at there
        have other : key ≠ last := by
          rintro rfl
          exact apart key (List.mem_of_getElem? there) key (List.mem_singleton.mpr rfl) rfl
        rw [Function.update_of_ne other]
        exact hyp before there
      · rw [List.getElem?_append_right (by omega)] at there
        obtain ⟨zero, same⟩ := List.getElem?_eq_some_iff.mp there
        rw [List.length_singleton] at zero
        have last_place : position = survivors.length := by omega
        subst last_place
        have same : last = key := by simpa using there
        rw [same, Function.update_self]

omit [DecidableEq K] in
theorem skipConsumed_spec {survivorIdx : K → Option Place} {handled : List K} :
    ∀ {rest : List K} {frontIdx : Nat},
      (∀ position key, rest[position]? = some key →
        (survivorIdx key = some (.index (frontIdx + position)) ↔ key ∉ handled)) →
      ∃ passed left, rest = passed ++ left ∧ (∀ key ∈ passed, key ∈ handled) ∧
        skipConsumed survivorIdx rest frontIdx = frontIdx + passed.length ∧
        ∀ key, left.head? = some key → key ∉ handled := by
  intro rest
  induction rest with
  | nil => exact fun _ => ⟨[], [], rfl, by simp, rfl, by simp⟩
  | cons first rest hyp =>
      intro frontIdx indexed
      have here := indexed 0 first rfl
      unfold skipConsumed
      split_ifs with consumed
      · obtain ⟨passed, left, split, done, skipped, head⟩ :=
          @hyp (frontIdx + 1) fun position key there => by
            have later := indexed (position + 1) key there
            rwa [Nat.add_comm position 1, ← Nat.add_assoc] at later
        refine ⟨first :: passed, left, by rw [split, List.cons_append], ?_, ?_, head⟩
        · refine List.forall_mem_cons.mpr ⟨?_, done⟩
          exact not_not.mp fun fresh => consumed (here.mpr fresh)
        · rw [skipped, List.length_cons]
          omega
      · refine ⟨[], first :: rest, rfl, by simp, rfl, fun key head => ?_⟩
        obtain rfl := Option.some.inj head
        exact here.mp (not_not.mp consumed)

/-- The survivors that are still in their old order, from the cursor on. -/
def unconsumed (survivors handled : List K) : List K :=
  survivors.filter fun key => decide (key ∉ handled)

theorem unconsumed_append {survivors : List K} (distinct : survivors.Nodup) (handled : List K)
    (key : K) :
    unconsumed survivors (handled ++ [key]) = (unconsumed survivors handled).erase key := by
  unfold unconsumed
  rw [(distinct.filter _).erase_eq_filter, List.filter_filter]
  refine List.filter_congr fun other _ => ?_
  by_cases same : other = key <;> simp [same]

omit [DecidableEq K] in
theorem insertIdx_append (front back : List K) (key : K) :
    (front ++ back).insertIdx front.length key = front ++ key :: back := by
  induction front with
  | nil => rfl
  | cons first front hyp =>
      rw [List.cons_append, List.length_cons, List.insertIdx_succ_cons, hyp, List.cons_append]

omit [DecidableEq K] in
/-- The front pointer after its walk: what is in front of it is handled, and the survivor there
is the first that is not. -/
theorem front_spec {survivors handled : List K} {progress : Progress K}
    (consistent : Consistent survivors handled progress) :
    ∃ passed tail, survivors = passed ++ tail ∧ (∀ key ∈ passed, key ∈ handled) ∧
      skipConsumed progress.survivorIdx (survivors.drop progress.frontIdx) progress.frontIdx =
        passed.length ∧
      (∀ key, tail.head? = some key → key ∉ handled) := by
  obtain ⟨indexed, bounded, front⟩ := consistent
  obtain ⟨passed, tail, split, done, skipped, head⟩ :=
    @skipConsumed_spec K progress.survivorIdx handled (survivors.drop progress.frontIdx)
      progress.frontIdx fun position key there =>
        indexed _ key (by rwa [List.getElem?_drop] at there)
  refine ⟨survivors.take progress.frontIdx ++ passed, tail, ?_, ?_, ?_, head⟩
  · rw [List.append_assoc, ← split, List.take_append_drop]
  · intro key listed
    rcases List.mem_append.mp listed with before | later
    · exact front key before
    · exact done key later
  · rw [skipped, List.length_append, List.length_take, Nat.min_eq_left bounded]

theorem indexed_update {survivors handled : List K} {survivorIdx : K → Option Place}
    (indexed : ∀ position key, survivors[position]? = some key →
      (survivorIdx key = some (.index position) ↔ key ∉ handled)) {key : K} {place : Option Place}
    (gone : ∀ position, place ≠ some (.index position)) :
    ∀ position other, survivors[position]? = some other →
      (Function.update survivorIdx key place other = some (.index position) ↔
        other ∉ handled ++ [key]) := by
  intro position other there
  by_cases same : other = key
  · subst same
    rw [Function.update_self]
    simp [gone position]
  · rw [Function.update_of_ne same, indexed position other there]
    simp [same]

theorem consistent_after {survivors handled passed tail : List K} {progress : Progress K}
    (consistent : Consistent survivors handled progress) {key : K} {place : Option Place}
    (gone : ∀ position, place ≠ some (.index position)) (split : survivors = passed ++ tail)
    (done : ∀ other ∈ passed, other ∈ handled ++ [key]) (edits : List (ListEdit K)) :
    Consistent survivors (handled ++ [key])
      ⟨Function.update progress.survivorIdx key place, passed.length, edits⟩ where
  indexed := indexed_update consistent.indexed gone
  bounded := by
    rw [split, List.length_append]
    exact Nat.le_add_right _ _
  front := by
    rw [split, List.take_left]
    exact done

omit [DecidableEq K] in
theorem fits_keep (handled rest : List K) (key : K) :
    Fits (handled ++ key :: rest) handled.length (.keep key) := by
  rw [Fits, List.getElem?_append_right (Nat.le_refl _), Nat.sub_self]
  rfl

omit [DecidableEq K] in
theorem fits_move {rest : List K} {key : K} (waits : key ∈ rest) (handled : List K) (first : K) :
    Fits (handled ++ first :: rest) handled.length (.move key) := by
  obtain ⟨position, there⟩ := List.mem_iff_getElem?.mp waits
  refine ⟨handled.length + (position + 1), by omega, ?_⟩
  rw [List.getElem?_append_right (by omega), Nat.add_sub_cancel_left, List.getElem?_cons_succ]
  exact there

theorem applyEdit_move {handled : List K} {key : K} (fresh : key ∉ handled) (rest : List K) :
    applyEdit (handled ++ rest) handled.length (.move key) = handled ++ key :: rest.erase key := by
  rw [applyEdit, List.erase_append_right _ fresh, insertIdx_append]

structure LoopInv (survivors handled : List K) (progress : Progress K) : Prop where
  consistent : Consistent survivors handled progress
  drives : Drives survivors 0 progress.edits (handled ++ unconsumed survivors handled)
  length : progress.edits.length = handled.length

theorem loopInv_initial {survivors : List K} (distinct : survivors.Nodup) :
    LoopInv survivors [] ⟨enumerated survivors, 0, []⟩ where
  consistent :=
    ⟨fun _ key there => by simp [enumerated_getElem distinct there], Nat.zero_le _, by simp⟩
  drives := by simp [Drives, unconsumed]
  length := rfl

theorem loopInv_next {old new handled : List K} {progress : Progress K} {key : K}
    (distinct : (old.filter (oldInNew old new)).Nodup) (listed : key ∈ new) (fresh : key ∉ handled)
    (inv : LoopInv (old.filter (oldInNew old new)) handled progress) :
    LoopInv (old.filter (oldInNew old new)) (handled ++ [key])
      (reconcileNext old new (old.filter (oldInNew old new)) progress key) := by
  obtain ⟨consistent, drives, length⟩ := inv
  have survives : key ∈ old.filter (oldInNew old new) ↔ oldInNew old new key = true := by
    simp [oldInNew]
  generalize old.filter (oldInNew old new) = survivors at *
  have next : ∀ edit,
      Fits (handled ++ unconsumed survivors handled) handled.length edit →
      applyEdit (handled ++ unconsumed survivors handled) handled.length edit =
        handled ++ [key] ++ unconsumed survivors (handled ++ [key]) →
      Drives survivors 0 (progress.edits ++ [edit])
        (handled ++ [key] ++ unconsumed survivors (handled ++ [key])) := by
    intro edit fits applied
    rw [← length, ← Nat.zero_add progress.edits.length] at fits applied
    exact drives.append fits applied
  have longer : ∀ edit, (progress.edits ++ [edit]).length = (handled ++ [key]).length := by
    intro edit
    rw [List.length_append, List.length_append, length]
    rfl
  unfold reconcileNext
  cases kept : oldInNew old new key with
  | false =>
      have out : key ∉ survivors := fun inside => by simp [survives.mp inside] at kept
      refine ⟨⟨fun position other there => ?_, consistent.bounded, fun other front => ?_⟩,
        next (.insert key) trivial ?_, longer _⟩
      · have apart : other ≠ key := fun same => out (same ▸ List.mem_of_getElem? there)
        rw [List.mem_append, List.mem_singleton, or_iff_left apart]
        exact consistent.indexed position other there
      · exact List.mem_append_left _ (consistent.front other front)
      · have absent : key ∉ unconsumed survivors handled :=
          fun inside => out (List.mem_filter.mp inside).1
        rw [unconsumed_append distinct, List.erase_of_not_mem absent, applyEdit, insertIdx_append,
          List.append_assoc]
        rfl
  | true =>
      have inside := survives.mpr kept
      obtain ⟨passed, tail, split, done, skipped, head⟩ := front_spec consistent
      have left : unconsumed survivors handled = unconsumed tail handled := by
        unfold unconsumed
        rw [split, List.filter_append, List.filter_eq_nil_iff.mpr (by simpa using done),
          List.nil_append]
      have there : survivors[passed.length]? = tail.head? := by
        rw [split, List.getElem?_append_right (Nat.le_refl _), Nat.sub_self, List.head?_eq_getElem?]
      simp only [Bool.not_true, Bool.false_eq_true, if_false, skipped, there]
      have waits : key ∈ unconsumed tail handled := by
        rw [← left]
        exact List.mem_filter.mpr ⟨inside, decide_eq_true fresh⟩
      cases tail with
      | nil => exact absurd waits List.not_mem_nil
      | cons first rest =>
          have firstFresh := head first rfl
          have ofTail : unconsumed (first :: rest) handled = first :: unconsumed rest handled :=
            List.filter_cons_of_pos (by simpa using firstFresh)
          rw [left, ofTail] at next
          rw [ofTail] at waits
          split_ifs with here
          · obtain rfl : first = key := Option.some.inj here
            refine ⟨?_, next (.keep first) (fits_keep _ _ _) ?_, longer _⟩
            · rw [← List.length_singleton (a := first), ← List.length_append]
              refine consistent_after consistent (by nofun) (by rw [split, List.append_cons]) ?_ _
              intro other passedOver
              rcases List.mem_append.mp passedOver with before | now
              · exact List.mem_append_left _ (done other before)
              · exact List.mem_append_right _ now
            · rw [unconsumed_append distinct, left, ofTail, List.erase_cons_head, applyEdit,
                List.append_cons]
          · have later : key ∈ unconsumed rest handled :=
              (List.mem_cons.mp waits).resolve_left fun same => here (by rw [same]; rfl)
            refine ⟨?_, next (.move key) (fits_move later _ _) ?_, longer _⟩
            · exact consistent_after consistent (by nofun) split
                (fun other before => List.mem_append_left _ (done other before)) _
            · rw [unconsumed_append distinct, left, ofTail, applyEdit_move fresh, List.append_assoc]
              rfl

theorem loopInv_foldl {old new : List K} (distinct : (old.filter (oldInNew old new)).Nodup) :
    ∀ {todo handled : List K} {progress : Progress K}, (∀ key ∈ todo, key ∈ new) →
      (handled ++ todo).Nodup → LoopInv (old.filter (oldInNew old new)) handled progress →
      LoopInv (old.filter (oldInNew old new)) (handled ++ todo)
        (todo.foldl (reconcileNext old new (old.filter (oldInNew old new))) progress) := by
  intro todo
  induction todo with
  | nil =>
      intro handled progress _ _ inv
      rw [List.append_nil]
      exact inv
  | cons key todo hyp =>
      intro handled progress listed apart inv
      obtain ⟨here, later⟩ := List.forall_mem_cons.mp listed
      have fresh : key ∉ handled := fun inside =>
        (List.nodup_append.mp apart).2.2 key inside key List.mem_cons_self rfl
      rw [List.append_cons] at apart ⊢
      exact hyp later apart (loopInv_next distinct here fresh inv)

/-- The edits turn the list without the removed keys into the new one, each at its place. -/
theorem reconcile_drives (old new : List K) (distinctOld : old.Nodup) (distinctNew : new.Nodup) :
    Drives (old.filter fun key => decide (key ∉ (reconcileKeys old new).removed)) 0
        (reconcileKeys old new).edits new ∧
      (reconcileKeys old new).removed = old.filter fun key => decide (key ∉ new) := by
  have distinct : (old.filter (oldInNew old new)).Nodup := distinctOld.filter _
  have removed : (reconcileKeys old new).removed = old.filter fun key => decide (key ∉ new) := by
    unfold reconcileKeys
    refine List.filter_congr fun key _ => ?_
    simp
  refine ⟨?_, removed⟩
  have start : (old.filter fun key => decide (key ∉ (reconcileKeys old new).removed)) =
      old.filter (oldInNew old new) := by
    rw [removed]
    refine List.filter_congr fun key listed => ?_
    simp [oldInNew, listed]
  have final := (@loopInv_foldl K _ old new distinct new [] _ (fun _ listed => listed) distinctNew
    (loopInv_initial distinct)).drives
  have all_done : unconsumed (old.filter (oldInNew old new)) new = [] := by
    refine List.filter_eq_nil_iff.mpr fun key survives => ?_
    have both := of_decide_eq_true (List.mem_filter.mp survives).2
    simp [both.2]
  rw [List.nil_append, all_done, List.append_nil] at final
  rw [start]
  exact final

/-- One key goes, one is new, and two are moved in front of the others. -/
theorem reconcile_drives_reordered :
    Drives ([1, 2, 3, 4].filter fun key => decide (key ∉ (reconcileKeys [1, 2, 3, 4]
        [4, 3, 5, 1]).removed)) 0 (reconcileKeys [1, 2, 3, 4] [4, 3, 5, 1]).edits [4, 3, 5, 1] ∧
      (reconcileKeys [1, 2, 3, 4] [4, 3, 5, 1]).removed =
        [1, 2, 3, 4].filter fun key => decide (key ∉ [4, 3, 5, 1]) :=
  reconcile_drives [1, 2, 3, 4] [4, 3, 5, 1] (by decide) (by decide)

end Reconcile

end Pantheon.Appfront
