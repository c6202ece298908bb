import Mathlib

/-!
# Time travel of a store: `tpt-appfront-core/src/store.rs`

The current state is in the signal and, with time travel, at the cursor of the history.  A
timeline has the states before the current one, newest first, and those that were undone.
-/

set_option autoImplicit false

namespace Pantheon.Appfront

section TimeTravel

variable {S : Type}

/-- The cursor is inside of what is kept. -/
structure HistoryBuf (S : Type) where
  past : List S
  cursor : Nat
  limit : Nat
  inside : cursor < past.length

/-- `saved` is what the backend has been given, oldest first. -/
structure Backend (S : Type) where
  load : Option S
  saved : List S

structure Store (S : Type) where
  state : S
  history : Option (HistoryBuf S)
  persistence : Option (Backend S)

namespace Store

def new (initial : S) : Store S := ⟨initial, none, none⟩

def withTimeTravel (store : Store S) (limit : Nat) : Store S :=
  { store with history := some ⟨[store.state], 0, max limit 1, Nat.one_pos⟩ }

def withPersistence (store : Store S) (backend : Backend S) : Store S :=
  { store with
    state := backend.load.getD store.state
    persistence := some backend }

def notify (store : Store S) : Store S :=
  { store with persistence := store.persistence.map fun backend =>
      { backend with saved := backend.saved ++ [store.state] } }

end Store

/-- What is behind the cursor goes, and the oldest state where the limit is passed. -/
def HistoryBuf.recorded (history : HistoryBuf S) (next : S) : List S :=
  let past := history.past.take (history.cursor + 1) ++ [next]
  if past.length > history.limit then past.tail else past

theorem HistoryBuf.recorded_pos (history : HistoryBuf S) (next : S) :
    0 < (history.recorded next).length := by
  have inside := history.inside
  have two : (history.past.take (history.cursor + 1) ++ [next]).length = history.cursor + 2 := by
    rw [List.length_append, List.length_take, Nat.min_eq_left inside, List.length_singleton]
  unfold HistoryBuf.recorded
  dsimp only
  split_ifs with full
  · rw [List.length_tail, two]
    omega
  · omega

def HistoryBuf.record (history : HistoryBuf S) (next : S) : HistoryBuf S :=
  ⟨history.recorded next, (history.recorded next).length - 1, history.limit,
    Nat.sub_one_lt_of_lt (history.recorded_pos next)⟩

namespace Store

def commit (store : Store S) (next : S) : Store S :=
  { store with history := store.history.map (HistoryBuf.record · next), state := next }.notify

def canUndo (store : Store S) : Bool :=
  match store.history with
  | some history => decide (history.cursor > 0)
  | none => false

def canRedo (store : Store S) : Bool :=
  match store.history with
  | some history => decide (history.cursor + 1 < history.past.length)
  | none => false

def undo (store : Store S) : Store S :=
  match store.history with
  | none => store
  | some ⟨past, cursor, limit, inside⟩ =>
      if 0 < cursor then
        have before : cursor - 1 < past.length := by omega
        { store with
          history := some ⟨past, cursor - 1, limit, before⟩
          state := past.get ⟨cursor - 1, before⟩ }.notify
      else store

def redo (store : Store S) : Store S :=
  match store.history with
  | none => store
  | some ⟨past, cursor, limit, _⟩ =>
      if after : cursor + 1 < past.length then
        { store with
          history := some ⟨past, cursor + 1, limit, after⟩
          state := past.get ⟨cursor + 1, after⟩ }.notify
      else store

end Store

inductive StoreCall (S : Type) where
  | set (next : S)
  | update (change : S → S)
  | undo
  | redo

def StoreCall.run (store : Store S) : StoreCall S → Store S
  | .set next => store.commit next
  | .update change => store.commit (change store.state)
  | .undo => store.undo
  | .redo => store.redo

inductive BuildOrder where
  | timeTravelFirst
  | persistenceFirst

def buildStore (order : BuildOrder) (initial : S) (limit : Nat) (backend : Backend S) : Store S :=
  match order with
  | .timeTravelFirst => ((Store.new initial).withTimeTravel limit).withPersistence backend
  | .persistenceFirst => ((Store.new initial).withPersistence backend).withTimeTravel limit

/-! ## Timelines -/

structure Timeline (S : Type) where
  past : List S
  present : S
  future : List S

namespace Timeline

def start (present : S) : Timeline S := ⟨[], present, []⟩

/-- At most `kept` states stay behind the new one, and nothing in front of it. -/
def set (kept : Nat) (timeline : Timeline S) (next : S) : Timeline S :=
  ⟨(timeline.present :: timeline.past).take kept, next, []⟩

def undo (timeline : Timeline S) : Timeline S :=
  match timeline.past with
  | [] => timeline
  | previous :: past => ⟨past, previous, timeline.present :: timeline.future⟩

def redo (timeline : Timeline S) : Timeline S :=
  match timeline.future with
  | [] => timeline
  | next :: future => ⟨timeline.present :: timeline.past, next, future⟩

def run (kept : Nat) (timeline : Timeline S) : StoreCall S → Timeline S
  | .set next => timeline.set kept next
  | .update change => timeline.set kept (change timeline.present)
  | .undo => timeline.undo
  | .redo => timeline.redo

end Timeline

/-- The store shows the timeline: its history is the timeline from the oldest state on. -/
structure Shows (limit : Nat) (store : Store S) (timeline : Timeline S) : Prop where
  state : store.state = timeline.present
  history : ∃ inside, store.history = some
    ⟨timeline.past.reverse ++ timeline.present :: timeline.future, timeline.past.length, limit,
      inside⟩
  bounded : timeline.past.length + timeline.future.length < limit

variable {limit : Nat} {store : Store S} {timeline : Timeline S}

theorem reverse_take_pred (states : List S) :
    (states.take (states.length - 1)).reverse = states.reverse.tail := by
  rw [← List.dropLast_eq_take, List.tail_reverse]

theorem take_cursor (past : List S) (present : S) (future : List S) :
    (past.reverse ++ present :: future).take (past.length + 1) = (present :: past).reverse := by
  rw [List.append_cons, ← List.reverse_cons]
  exact List.take_left' (by rw [List.length_reverse, List.length_cons])

theorem exists_history {history : HistoryBuf S} {past : List S} {cursor : Nat}
    (samePast : history.past = past) (sameCursor : history.cursor = cursor)
    (sameLimit : history.limit = limit) :
    ∃ inside, some history = some ⟨past, cursor, limit, inside⟩ := by
  subst samePast sameCursor sameLimit
  exact ⟨history.inside, rfl⟩

theorem recorded_eq {past future : List S} {present : S} {inside}
    (bounded : past.length + future.length < limit) (next : S) :
    HistoryBuf.recorded ⟨past.reverse ++ present :: future, past.length, limit, inside⟩ next =
      ((present :: past).take (limit - 1)).reverse ++ [next] := by
  unfold HistoryBuf.recorded
  dsimp only
  rw [take_cursor]
  have length : ((present :: past).reverse ++ [next]).length = past.length + 2 := by
    rw [List.length_append, List.length_reverse, List.length_cons, List.length_singleton]
  split_ifs with full
  · have kept : limit - 1 = (present :: past).length - 1 := by
      rw [List.length_cons]
      omega
    have some_past : (present :: past).reverse ≠ [] := by
      simp
    rw [kept, reverse_take_pred, List.tail_append_of_ne_nil some_past]
  · rw [List.take_of_length_le]
    rw [List.length_cons]
    omega

theorem shows_commit (shows : Shows limit store timeline) (next : S) :
    Shows limit (store.commit next) (timeline.set (limit - 1) next) := by
  obtain ⟨state, ⟨inside, history⟩, bounded⟩ := shows
  have recorded := @recorded_eq S limit _ _ timeline.present inside bounded next
  refine ⟨rfl, ?_, ?_⟩
  · unfold Store.commit Store.notify Timeline.set
    dsimp only
    rw [history]
    refine exists_history recorded ?_ rfl
    have cursor := congrArg (fun past => past.length - 1) recorded
    refine cursor.trans ?_
    rw [List.length_append, List.length_reverse]
    rfl
  · unfold Timeline.set
    rw [List.length_take, List.length_nil]
    omega

theorem shows_undo (shows : Shows limit store timeline) :
    Shows limit store.undo timeline.undo := by
  obtain ⟨state, ⟨inside, history⟩, bounded⟩ := shows
  obtain ⟨past, present, future⟩ := timeline
  unfold Store.undo
  rw [history]
  cases past with
  | nil => exact ⟨state, ⟨inside, history⟩, bounded⟩
  | cons previous past =>
      dsimp only
      rw [if_pos (List.length_pos_iff.mpr (List.cons_ne_nil previous past))]
      have list : (previous :: past).reverse ++ present :: future =
          past.reverse ++ previous :: present :: future := by
        rw [List.reverse_cons, List.append_assoc]
        rfl
      refine ⟨?_, exists_history list rfl rfl, ?_⟩
      · unfold Store.notify Timeline.undo
        simp
      · unfold Timeline.undo
        simp only [List.length_cons] at bounded ⊢
        omega

theorem shows_redo (shows : Shows limit store timeline) :
    Shows limit store.redo timeline.redo := by
  obtain ⟨state, ⟨inside, history⟩, bounded⟩ := shows
  obtain ⟨past, present, future⟩ := timeline
  unfold Store.redo
  rw [history]
  cases future with
  | nil =>
      dsimp only
      rw [dif_neg (by simp)]
      exact ⟨state, ⟨inside, history⟩, bounded⟩
  | cons next future =>
      dsimp only
      rw [dif_pos (by simp)]
      have list : past.reverse ++ present :: next :: future =
          (present :: past).reverse ++ next :: future := by
        rw [List.reverse_cons, List.append_assoc]
        rfl
      refine ⟨?_, exists_history list rfl rfl, ?_⟩
      · unfold Store.notify Timeline.redo
        simp
      · unfold Timeline.redo
        simp only [List.length_cons] at bounded ⊢
        omega

theorem shows_run (shows : Shows limit store timeline) (call : StoreCall S) :
    Shows limit (call.run store) (timeline.run (limit - 1) call) := by
  cases call with
  | set next => exact shows_commit shows next
  | update change =>
      unfold StoreCall.run Timeline.run
      rw [shows.state]
      exact shows_commit shows _
  | undo => exact shows_undo shows
  | redo => exact shows_redo shows

theorem shows_foldl (calls : List (StoreCall S)) : ∀ {store : Store S} {timeline : Timeline S},
    Shows limit store timeline →
      Shows limit (calls.foldl StoreCall.run store)
        (calls.foldl (Timeline.run (limit - 1)) timeline) := by
  induction calls with
  | nil => exact fun shows => shows
  | cons call calls hyp => exact fun shows => hyp (shows_run shows call)

theorem shows_canUndo (shows : Shows limit store timeline) :
    store.canUndo = !timeline.past.isEmpty := by
  obtain ⟨past, present, future⟩ := timeline
  obtain ⟨state, ⟨inside, history⟩, bounded⟩ := shows
  unfold Store.canUndo
  rw [history]
  cases past <;> simp

theorem shows_canRedo (shows : Shows limit store timeline) :
    store.canRedo = !timeline.future.isEmpty := by
  obtain ⟨past, present, future⟩ := timeline
  obtain ⟨state, ⟨inside, history⟩, bounded⟩ := shows
  unfold Store.canRedo
  rw [history]
  cases future <;> simp

/-- What is wanted of the store in every state that calls lead to. -/
structure TimeTravels (limit : Nat) (start : Store S) (calls : List (StoreCall S)) : Prop where
  current : ∃ history, (calls.foldl StoreCall.run start).history = some history ∧
    history.past[history.cursor]? = some (calls.foldl StoreCall.run start).state
  restores : (calls.foldl StoreCall.run start).canUndo = true →
    (calls.foldl StoreCall.run start).undo.redo.state = (calls.foldl StoreCall.run start).state
  state : (calls.foldl StoreCall.run start).state =
    (calls.foldl (Timeline.run (max limit 1 - 1)) (Timeline.start start.state)).present
  canUndo : (calls.foldl StoreCall.run start).canUndo =
    !(calls.foldl (Timeline.run (max limit 1 - 1)) (Timeline.start start.state)).past.isEmpty
  canRedo : (calls.foldl StoreCall.run start).canRedo =
    !(calls.foldl (Timeline.run (max limit 1 - 1)) (Timeline.start start.state)).future.isEmpty

theorem timeTravels_of_shows {start : Store S}
    (shows : Shows (max limit 1) start (Timeline.start start.state)) (calls : List (StoreCall S)) :
    TimeTravels limit start calls := by
  have after := shows_foldl calls shows
  have state := after.state
  have back := (shows_redo (shows_undo after)).state
  refine ⟨?_, fun possible => ?_, state, shows_canUndo after, shows_canRedo after⟩
  · obtain ⟨inside, history⟩ := after.history
    refine ⟨_, history, ?_⟩
    rw [state]
    simp
  · rw [shows_canUndo after] at possible
    rw [back, state]
    generalize calls.foldl (Timeline.run (max limit 1 - 1)) (Timeline.start start.state) = timeline
      at possible
    obtain ⟨past, present, future⟩ := timeline
    cases past with
    | nil => cases possible
    | cons previous past => rfl

/-- Time travel keeps the state that was there before the backend was read. -/
def KeepsInitial (order : BuildOrder) (initial : S) (backend : Backend S) : Prop :=
  match order with
  | .timeTravelFirst => ∀ restored, backend.load = some restored → restored = initial
  | .persistenceFirst => True

theorem store_time_travel_iff (order : BuildOrder) (initial : S) (limit : Nat)
    (backend : Backend S) :
    (∀ calls, TimeTravels limit (buildStore order initial limit backend) calls) ↔
      KeepsInitial order initial backend := by
  have positive : 0 < max limit 1 := Nat.lt_of_lt_of_le Nat.one_pos (Nat.le_max_right _ _)
  cases order with
  | persistenceFirst =>
      refine ⟨fun _ => trivial, fun _ => timeTravels_of_shows ⟨rfl, ⟨Nat.one_pos, rfl⟩, positive⟩⟩
  | timeTravelFirst =>
      constructor
      · intro travels restored loaded
        obtain ⟨history, same, current⟩ := (travels []).current
        obtain rfl := Option.some.inj same
        have state : (buildStore .timeTravelFirst initial limit backend).state = restored := by
          simp [buildStore, Store.withPersistence, loaded]
        exact (Option.some.inj (current.trans (congrArg some state))).symm
      · intro keeps
        have state : (buildStore .timeTravelFirst initial limit backend).state = initial := by
          cases loaded : backend.load with
          | none =>
              simp [buildStore, Store.withPersistence, loaded, Store.withTimeTravel, Store.new]
          | some restored =>
              simp [buildStore, Store.withPersistence, loaded, keeps restored loaded]
        refine timeTravels_of_shows ⟨rfl, ⟨Nat.one_pos, ?_⟩, positive⟩
        rw [state]
        rfl

/-- The first undo behind a call of `set` goes to a state that the store never showed. -/
theorem hydrated_state_is_lost :
    ¬∀ calls, TimeTravels 10 (buildStore .timeTravelFirst 0 10 ⟨some 7, []⟩) calls := by
  intro travels
  exact absurd (travels [.set 8, .undo]).state (by decide)

end TimeTravel

end Pantheon.Appfront
