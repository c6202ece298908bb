import Mathlib
import Pantheon.Appfront.Cleanups

/-!
# Runs of programs with effects

Each call keeps what the runtime has of the closures, as long as a closure is given only while
the slot holds the effect that is running and the handle of that effect is there.
-/

set_option autoImplicit false

namespace Pantheon.Appfront

open Pantheon.Lib

structure Kept (state : Runtime) : Prop where
  known : Known state
  shape : Shape state
  accounted : Accounted (fun _ => False) state

section Calls

variable {state next : Runtime} {effect : Nat}

variable {rest : List Cleanup} {after : After}

theorem mem_teardowns :
    ⟨effect, rest, after⟩ ∈ state.teardowns ↔ .teardown effect rest after ∈ state.frames := by
  unfold Runtime.teardowns
  rw [List.mem_filterMap]
  constructor
  · rintro ⟨frame, listed, same⟩
    cases frame with
    | teardown other held follows =>
        obtain ⟨rfl, rfl, rfl⟩ := Teardown.mk.inj (Option.some.inj same)
        exact listed
    | code => cases same
    | body other => cases same
    | batching => cases same
    | flushing batch => cases same
  · exact fun listed => ⟨_, listed, rfl⟩

theorem Kept.subscriptions (kept : Kept state)
    (node : ∀ other, ∃ deps, next.node other = { state.node other with deps := deps })
    (known : Known next) (frames : next.frames = state.frames)
    (stack : next.effectStack = state.effectStack)
    (slot : next.currentCleanup = state.currentCleanup)
    (depth : next.batchDepth = state.batchDepth)
    (registered : next.registered = state.registered) (ran : next.ran = state.ran)
    (panicked : next.panicked = state.panicked) : Kept next where
  known := known
  shape := by
    obtain ⟨ofFrames, distinct, ofSlot, ofDepth, well⟩ := kept.shape
    refine ⟨?_, ?_, ?_, ?_, ?_⟩
    · rw [stack, frames, ofFrames]
    · rw [stack]
      exact distinct
    · rw [slot, stack]
      exact ofSlot
    · rw [depth, frames, ofDepth]
    · rw [frames]
      exact well
  accounted := by
    have teardowns : next.teardowns = state.teardowns := by
      unfold Runtime.teardowns
      rw [frames]
    refine kept.accounted.frame ?_ ?_ ?_ teardowns (fun other listed => Or.inl (stack ▸ listed))
      registered ran panicked
    all_goals
      intro other
      obtain ⟨deps, same⟩ := node other
      rw [same]

theorem Kept.running_created (kept : Kept state) (running : effect ∈ state.effectStack) :
    effect < state.created := by
  rw [kept.shape.stack, List.mem_filterMap] at running
  obtain ⟨frame, listed, same⟩ := running
  refine kept.known.frames frame listed effect ?_
  cases frame with
  | body other =>
      obtain rfl := Option.some.inj same
      exact beq_self_eq_true other
  | code => cases same
  | batching => cases same
  | teardown other rest after => cases same
  | flushing rest => cases same

theorem update_deps (state : Runtime) (effect : Nat) (changed : List Nat) (other : Nat) :
    ∃ deps, Function.update state.node effect { state.node effect with deps := changed } other =
      { state.node other with deps := deps } := by
  by_cases same : other = effect
  · subst same
    exact ⟨changed, Function.update_self _ _ _⟩
  · exact ⟨(state.node other).deps, Function.update_of_ne same _ _⟩

theorem mem_update {lists : Nat → List Nat} {place other : Nat} {changed : List Nat}
    (listed : effect ∈ Function.update lists place changed other) :
    effect ∈ changed ∨ effect ∈ lists other := by
  by_cases same : other = place
  · subst same
    rw [Function.update_self] at listed
    exact Or.inl listed
  · rw [Function.update_of_ne same] at listed
    exact Or.inr listed

theorem fresh_update (known : Known state) (created : effect < state.created)
    {changed : EffectNode} (other : Nat) (later : state.created ≤ other) :
    Function.update state.node effect changed other = freshNode := by
  rw [Function.update_of_ne (by omega)]
  exact known.fresh other later

theorem kept_track (kept : Kept state) (signal : Nat) : Kept (state.track signal) := by
  unfold Runtime.track
  cases top : state.effectStack.head? with
  | none => exact kept
  | some running =>
      dsimp only
      split_ifs with subscribed
      · exact kept
      · have created := kept.running_created (List.mem_of_head? top)
        refine kept.subscriptions (update_deps state running _) ?_ rfl rfl rfl rfl rfl rfl rfl
        refine ⟨kept.known.frames, kept.known.pending, ?_, fresh_update kept.known created⟩
        intro other effect listed
        rcases mem_update listed with changed | before
        · rcases List.mem_append.mp changed with before | now
          · exact kept.known.subscribers signal effect before
          · exact List.mem_singleton.mp now ▸ created
        · exact kept.known.subscribers other effect before

theorem kept_unsubscribe (kept : Kept state) (created : effect < state.created) :
    Kept (state.unsubscribe effect) := by
  refine kept.subscriptions (update_deps state effect []) ?_ rfl rfl rfl rfl rfl rfl rfl
  refine ⟨kept.known.frames, kept.known.pending, ?_, fresh_update kept.known created⟩
  intro signal other listed
  unfold Runtime.unsubscribe at listed
  simp only at listed
  split_ifs at listed with read
  · exact kept.known.subscribers signal other (List.mem_filter.mp listed).1
  · exact kept.known.subscribers signal other listed

theorem mem_enqueued {effects : List Nat} : ∀ {pending : List Nat} {other : Nat},
    other ∈ effects.foldl (fun pending effect =>
      if effect ∈ pending then pending else pending ++ [effect]) pending →
    other ∈ pending ∨ other ∈ effects := by
  induction effects with
  | nil => exact fun listed => Or.inl listed
  | cons effect effects hyp =>
      intro pending other listed
      rw [List.foldl_cons] at listed
      rcases hyp listed with before | later
      · split_ifs at before with present
        · exact Or.inl before
        · rcases List.mem_append.mp before with was | now
          · exact Or.inl was
          · exact Or.inr (List.mem_cons.mpr (Or.inl (List.mem_singleton.mp now)))
      · exact Or.inr (List.mem_cons_of_mem _ later)

theorem no_flushing_of_depth (shape : Shape state) (flat : state.batchDepth = 0) :
    ∀ frame ∈ state.frames, isFlushing frame = false := by
  rw [shape.depth, List.countP_eq_zero] at flat
  intro frame listed
  have uncounted := flat frame listed
  cases frame with
  | flushing rest => exact absurd rfl uncounted
  | code => rfl
  | body other => rfl
  | batching => rfl
  | teardown other rest after => rfl

theorem kept_flush (kept : Kept state) (calm : ∀ frame ∈ state.frames, isFlushing frame = false) :
    Kept state.flush := by
  unfold Runtime.flush
  dsimp only
  have emptied : Kept { state with pending := [] } := by
    refine kept.subscriptions (fun other => ⟨_, rfl⟩) ?_ rfl rfl rfl rfl rfl rfl rfl
    exact ⟨kept.known.frames, fun _ listed => absurd listed List.not_mem_nil,
      kept.known.subscribers, kept.known.fresh⟩
  split_ifs with idle
  · exact emptied
  · refine ⟨⟨?_, emptied.known.pending, kept.known.subscribers, kept.known.fresh⟩,
      ⟨?_, kept.shape.distinct, kept.shape.slot, ?_, ?_⟩, ?_⟩
    · refine List.forall_mem_cons.mpr ⟨fun other held => ?_, kept.known.frames⟩
      exact kept.known.pending other (List.mem_filter.mp (List.contains_iff_mem.mp held)).1
    · exact kept.shape.stack
    · rw [List.countP_cons_of_pos rfl, ← kept.shape.depth]
    · exact ⟨fun frame listed => ⟨calm frame listed,
        kept.shape.well.no_rerun calm frame listed⟩, kept.shape.well⟩
    · exact kept.accounted.unmoved rfl rfl rfl rfl rfl rfl

theorem kept_write (kept : Kept state) (signal : Nat) : Kept (state.write signal) := by
  unfold Runtime.write
  dsimp only
  have enqueued : Kept (Runtime.enqueue
      { state with
        subscribers := Function.update state.subscribers signal
          ((state.subscribers signal).filter state.alive) }
      ((state.subscribers signal).filter state.alive)) := by
    refine kept.subscriptions (fun other => ⟨_, rfl⟩) ?_ rfl rfl rfl rfl rfl rfl rfl
    refine ⟨kept.known.frames, ?_, ?_, kept.known.fresh⟩
    · intro other listed
      rcases mem_enqueued listed with before | now
      · exact kept.known.pending other before
      · exact kept.known.subscribers signal other (List.mem_filter.mp now).1
    · intro other effect listed
      rcases mem_update listed with changed | before
      · exact kept.known.subscribers signal effect (List.mem_filter.mp changed).1
      · exact kept.known.subscribers other effect before
  split_ifs with flat
  · exact kept_flush enqueued (no_flushing_of_depth enqueued.shape flat)
  · exact enqueued

theorem kept_startBody (known : Known state) (shape : Shape state)
    (accounted : Accounted (fun other => other = effect) state) (created : effect < state.created)
    (no_rerun : ∀ frame ∈ state.frames, isRerunOf effect frame = false)
    (ready : effect ∈ state.effectStack ∨ (state.node effect).cleanups = []) :
    Kept (state.startBody effect) := by
  unfold Runtime.startBody
  split_ifs with running
  · exact ⟨⟨known.frames, known.pending, known.subscribers, known.fresh⟩,
      ⟨shape.stack, shape.distinct, shape.slot, shape.depth, shape.well⟩, accounted.panic⟩
  · refine ⟨⟨?_, known.pending, known.subscribers, fresh_update known created⟩,
      ⟨?_, List.nodup_cons.mpr ⟨running, shape.distinct⟩, ?_, shape.depth,
        ⟨no_rerun, shape.well⟩⟩, ?_⟩
    · refine List.forall_mem_cons.mpr ⟨fun other held => ?_, known.frames⟩
      exact (beq_iff_eq.mp held) ▸ created
    · exact congrArg (List.cons effect) shape.stack
    · exact fun other slot => by rw [← Option.some.inj slot]; rfl
    · refine accounted.start (ready.resolve_left running) (fun rest there => ?_) rfl rfl rfl rfl rfl
        rfl
      have marked := no_rerun _ (mem_teardowns.mp there)
      rw [isRerunOf, beq_self_eq_true] at marked
      cases marked

theorem Known.below {frame : Frame} {below : List Frame} (known : Known state)
    (top : state.frames = frame :: below) : Known { state with frames := below } :=
  ⟨fun other listed => known.frames other (top ▸ List.mem_cons_of_mem _ listed), known.pending,
    known.subscribers, known.fresh⟩

theorem Shape.below {below : List Frame}
    (shape : Shape state) (top : state.frames = .teardown effect rest after :: below) :
    Shape { state with frames := below } := by
  obtain ⟨stack, distinct, slot, depth, well⟩ := shape
  rw [top] at stack depth well
  exact ⟨stack, distinct, slot, depth, well.tail⟩

theorem teardowns_top {frame : Frame} {below : List Frame} (top : state.frames = frame :: below) :
    state.teardowns = (frame :: below).filterMap teardownOf := congrArg _ top

theorem accounted_below {below : List Frame}
    (accounted : Accounted (fun _ => False) state)
    (top : state.frames = .teardown effect [] after :: below) :
    Accounted (fun other => after = .body ∧ other = effect) { state with frames := below } :=
  accounted.pop (teardowns_top top) rfl rfl rfl rfl rfl rfl

theorem kept_advance (kept : Kept state) : Kept state.advance := by
  obtain ⟨known, shape, accounted⟩ := kept
  unfold Runtime.advance
  split
  · rename_i effect cleanup rest after below top
    obtain ⟨stack, distinct, slot, depth, well⟩ := shape
    have frames := known.frames
    rw [top] at frames stack depth well
    obtain ⟨ofTop, ofBelow⟩ := List.forall_mem_cons.mp frames
    refine ⟨⟨?_, known.pending, known.subscribers, known.fresh⟩,
      ⟨stack, distinct, slot, depth, ?_⟩, ?_⟩
    · refine List.forall_mem_cons.mpr ⟨fun _ held => (by cases held), ?_⟩
      exact List.forall_mem_cons.mpr ⟨ofTop, ofBelow⟩
    · cases after with
      | nothing => exact well
      | body => exact well
    · exact accounted.runNext (teardowns_top top) rfl rfl rfl rfl rfl rfl
  · rename_i effect below top
    refine ⟨known.below top, shape.below top, ?_⟩
    exact (accounted_below accounted top).imp fun _ starts => absurd starts.1 (by decide)
  · rename_i effect below top
    have well := shape.well
    rw [top] at well
    obtain ⟨⟨batch, under, rfl⟩, calm, _⟩ := well
    refine kept_startBody (known.below top) (shape.below top) ?_ ?_ ?_ ?_
    · exact (accounted_below accounted top).imp fun _ starts => starts.2
    · exact known.frames (.teardown effect [] .body) (top ▸ List.mem_cons_self) effect
        (beq_self_eq_true effect)
    · exact List.forall_mem_cons.mpr ⟨rfl, fun frame listed =>
        isRerunOf_of_isRerun (calm frame listed).2 effect⟩
    · exact (accounted.rerun effect [] (mem_teardowns.mpr (top ▸ List.mem_cons_self))).1
  · exact ⟨known, shape, accounted⟩

theorem kept_take (kept : Kept state) (created : effect < state.created) {batch : List Nat}
    {under : List Frame} (top : state.frames = .flushing batch :: under) :
    Kept (state.take effect .body) := by
  obtain ⟨known, shape, accounted⟩ := kept
  refine ⟨⟨?_, known.pending, known.subscribers, fresh_update known created⟩,
    ⟨shape.stack, shape.distinct, shape.slot, shape.depth, ⟨⟨batch, under, top⟩, shape.well⟩⟩, ?_⟩
  · refine List.forall_mem_cons.mpr ⟨fun other held => ?_, known.frames⟩
    exact (beq_iff_eq.mp held) ▸ created
  · have own : (state.take effect .body).node effect = { state.node effect with cleanups := [] } :=
      Function.update_self _ _ _
    refine accounted.take effect .body (fun other apart => Function.update_of_ne apart _ _) ?_ ?_ ?_
      (fun none_follows => by cases none_follows) rfl rfl rfl rfl rfl
    · rw [own]
    · rw [own]
    · rw [own]
      exact id

theorem kept_runEffect (kept : Kept state) (created : effect < state.created) {batch : List Nat}
    {under : List Frame} (top : state.frames = .flushing batch :: under) :
    Kept (state.runEffect effect) :=
  kept_advance (kept_take (kept_unsubscribe kept created) created top)

theorem kept_dropHandle (kept : Kept state) (created : effect < state.created) :
    Kept (state.dropHandle effect) := by
  obtain ⟨known, shape, accounted⟩ := kept
  refine kept_advance ⟨⟨?_, known.pending, known.subscribers, ?_⟩,
    ⟨shape.stack, shape.distinct, shape.slot, shape.depth, shape.well⟩, ?_⟩
  · refine List.forall_mem_cons.mpr ⟨fun other held => ?_, known.frames⟩
    exact (beq_iff_eq.mp held) ▸ created
  · intro other (later : state.created ≤ other)
    refine (Function.update_of_ne (by omega) _ _).trans ?_
    exact fresh_update known created other later
  · have own : ((state.setNode effect { state.node effect with handle := .dropped }).take effect
        .nothing).node effect = { state.node effect with cleanups := [], handle := .dropped } := by
      simp only [Runtime.take, Runtime.setNode, Function.update_self]
    refine accounted.take effect .nothing (fun other apart => ?_) ?_ ?_ ?_ ?_ ?_ rfl rfl rfl rfl
    · exact (Function.update_of_ne apart _ _).trans (Function.update_of_ne apart _ _)
    · rw [own]
    · rw [own]
    · rw [own]
      exact fun _ => rfl
    · rw [own]
      exact fun _ => rfl
    · simp only [Runtime.take, Runtime.setNode, Function.update_self, Runtime.teardowns]
      rfl

theorem advance_take (empty : (state.node effect).cleanups = []) :
    (state.take effect .body).advance = state.startBody effect := by
  have same : Function.update state.node effect { state.node effect with cleanups := [] } =
      state.node := by
    rw [← empty]
    exact Function.update_eq_self effect state.node
  unfold Runtime.take Runtime.setNode
  rw [same, empty]
  rfl

theorem kept_createEffect (kept : Kept state) : Kept state.createEffect := by
  have old := kept.known
  have counted : Kept { state with created := state.created + 1 } := by
    refine kept.subscriptions (fun other => ⟨_, rfl⟩) ?_ rfl rfl rfl rfl rfl rfl rfl
    exact ⟨fun frame listed other held => Nat.lt_succ_of_lt (old.frames frame listed other held),
      fun other listed => Nat.lt_succ_of_lt (old.pending other listed),
      fun signal other listed => Nat.lt_succ_of_lt (old.subscribers signal other listed),
      fun other later => old.fresh other (Nat.le_of_succ_le later)⟩
  obtain ⟨known, shape, accounted⟩ := kept_unsubscribe counted (Nat.lt_succ_self state.created)
  have fresh := old.fresh state.created (Nat.le_refl _)
  have empty : (({ state with created := state.created + 1 }.unsubscribe
      state.created).node state.created).cleanups = [] := by
    simp only [Runtime.unsubscribe, Runtime.setNode, Function.update_self, fresh, freshNode]
  unfold Runtime.createEffect Runtime.runEffect
  rw [advance_take empty]
  refine kept_startBody known shape (accounted.imp fun _ starts => starts.elim)
    (Nat.lt_succ_self state.created) (fun frame listed => ?_) (Or.inr empty)
  cases rerun : isRerunOf state.created frame with
  | false => rfl
  | true =>
      cases frame with
      | teardown other rest after =>
          cases after with
          | nothing => cases rerun
          | body => exact absurd (old.frames _ listed state.created rerun) (Nat.lt_irrefl _)
      | code => cases rerun
      | body other => cases rerun
      | batching => cases rerun
      | flushing rest => cases rerun

/-- Where an effect is running, the slot is not empty and the handle of the effect is there. -/
def mayGive (state : Runtime) : Bool :=
  match state.effectStack.head? with
  | none => true
  | some running =>
      state.currentCleanup.isSome && decide ((state.node running).handle ≠ .dropped)

theorem alive_of_handle {state : Runtime} (live : (state.node effect).handle ≠ .dropped) :
    state.alive effect = true := by
  simp only [Runtime.alive, ne_eq, live, not_false_eq_true, decide_true, Bool.true_or]

theorem kept_onCleanup (kept : Kept state) (given : mayGive state = true) :
    Kept state.onCleanup := by
  unfold mayGive at given
  unfold Runtime.onCleanup
  cases top : state.effectStack.head? with
  | none => exact kept
  | some running =>
      rw [top] at given
      obtain ⟨filled, live⟩ := Bool.and_eq_true_iff.mp given
      have live := of_decide_eq_true live
      obtain ⟨effect, slot⟩ := Option.isSome_iff_exists.mp filled
      obtain rfl := Option.some.inj ((kept.shape.slot effect slot).symm.trans top)
      have there := List.mem_of_head? top
      have created := kept.running_created there
      dsimp only
      rw [slot]
      dsimp only
      obtain ⟨known, shape, accounted⟩ := kept
      have own := shape.slot
      rw [slot] at own
      split_ifs with alive
      · exact ⟨⟨known.frames, known.pending, known.subscribers, fresh_update known created⟩,
          ⟨shape.stack, shape.distinct, own, shape.depth, shape.well⟩,
          accounted.give there live rfl rfl rfl rfl rfl rfl⟩
      · exact (alive (alive_of_handle live)).elim

theorem Shape.pop_body {below : List Frame} (shape : Shape state)
    (top : state.frames = .body effect :: below) :
    state.effectStack = effect :: below.filterMap bodyOf ∧ effect ∉ below.filterMap bodyOf ∧
      state.batchDepth = below.countP counted ∧
      (∀ frame ∈ below, isRerunOf effect frame = false) ∧ WellStacked below := by
  obtain ⟨stack, distinct, slot, depth, well⟩ := shape
  rw [top] at stack depth well
  have stack : state.effectStack = effect :: below.filterMap bodyOf := stack
  rw [stack] at distinct
  exact ⟨stack, (List.nodup_cons.mp distinct).1, depth, well⟩

theorem kept_finish_body (kept : Kept state) {below : List Frame}
    (top : state.frames = .body effect :: below) (handle : Handle)
    (same : handle = .dropped ↔ (state.node effect).handle = .dropped) :
    Kept { state.setNode effect { state.node effect with handle := handle } with
      currentCleanup := none
      effectStack := state.effectStack.tail
      frames := below } := by
  obtain ⟨known, shape, accounted⟩ := kept
  obtain ⟨stack, out, depth, no_rerun, well⟩ := shape.pop_body top
  have created := known.frames (.body effect) (top ▸ List.mem_cons_self) effect
    (beq_self_eq_true effect)
  have distinct := shape.distinct
  have teardowns : state.teardowns = below.filterMap teardownOf := teardowns_top top
  have field {Value : Type} (field : EffectNode → Value)
      (equal : field { state.node effect with handle := handle } = field (state.node effect))
      (other : Nat) : field (Function.update state.node effect
        { state.node effect with handle := handle } other) = field (state.node other) := by
    by_cases here : other = effect
    · rw [here, Function.update_self, equal]
    · rw [Function.update_of_ne here]
  refine ⟨⟨fun frame listed => known.frames frame (top ▸ List.mem_cons_of_mem _ listed),
      known.pending, known.subscribers, fresh_update known created⟩,
    ⟨?_, distinct.tail, fun _ slot => (by cases slot), depth, well⟩, ?_⟩
  · rw [stack, List.tail_cons]
  · refine accounted.frame (field EffectNode.cleanups rfl) (field EffectNode.runs rfl)
      (fun other => ?_) ?_ (fun other listed => ?_) rfl rfl rfl
    · by_cases here : other = effect
      · subst here
        simp only [Runtime.setNode, Function.update_self, same]
      · simp only [Runtime.setNode, Function.update_of_ne here]
    · rw [teardowns]
      rfl
    · rw [stack] at listed ⊢
      rcases List.mem_cons.mp listed with here | under
      · subst here
        refine Or.inr fun rest there => ?_
        rw [teardowns, List.mem_filterMap] at there
        obtain ⟨frame, inside, shown⟩ := there
        cases frame with
        | teardown own held after =>
            obtain ⟨rfl, rfl, rfl⟩ := Teardown.mk.inj (Option.some.inj shown)
            have marked := no_rerun _ inside
            rw [isRerunOf, beq_self_eq_true] at marked
            cases marked
        | code => cases shown
        | body own => cases shown
        | batching => cases shown
        | flushing batch => cases shown
      · exact Or.inl under

theorem kept_finish (kept : Kept state) (done : state.finish = some next) : Kept next := by
  unfold Runtime.finish at done
  split at done
  · rename_i effect rest after below top
    obtain rfl := Option.some.inj done
    obtain ⟨known, shape, accounted⟩ := kept
    obtain ⟨stack, distinct, slot, depth, well⟩ := shape
    rw [top] at stack depth well
    refine kept_advance ⟨known.below top, ⟨stack, distinct, slot, depth, well⟩, ?_⟩
    exact accounted.unmoved (teardowns_top top).symm rfl rfl rfl rfl rfl
  · rename_i effect below top
    obtain rfl := Option.some.inj done
    refine kept_finish_body kept top _ ?_
    split_ifs with first
    · rw [first]
      decide
    · exact Iff.rfl
  · rename_i below top
    obtain rfl := Option.some.inj done
    obtain ⟨known, shape, accounted⟩ := kept
    obtain ⟨stack, distinct, slot, depth, well⟩ := shape
    rw [top] at stack depth well
    rw [List.countP_cons_of_pos rfl] at depth
    have popped : Kept { state with batchDepth := state.batchDepth - 1, frames := below } := by
      refine ⟨⟨(known.below top).frames, known.pending, known.subscribers, known.fresh⟩,
        ⟨stack, distinct, slot, ?_, well⟩, ?_⟩
      · rw [depth]
        rfl
      · exact accounted.unmoved (teardowns_top top).symm rfl rfl rfl rfl rfl
    dsimp only
    split_ifs with flat
    · exact kept_flush popped (no_flushing_of_depth popped.shape flat)
    · exact popped
  · cases done

theorem kept_proceed (kept : Kept state) (done : state.proceed = some next) : Kept next := by
  unfold Runtime.proceed at done
  split at done
  · rename_i effect rest below top
    obtain rfl := Option.some.inj done
    obtain ⟨known, shape, accounted⟩ := kept
    have frames := known.frames
    obtain ⟨stack, distinct, slot, depth, well⟩ := shape
    rw [top] at frames stack depth well
    have batch := List.forall_mem_cons.mp frames
    have created : effect < state.created :=
      batch.1 effect (List.contains_iff_mem.mpr List.mem_cons_self)
    refine kept_runEffect ⟨⟨?_, known.pending, known.subscribers, known.fresh⟩,
      ⟨stack, distinct, slot, depth, well⟩, ?_⟩ created rfl
    · refine List.forall_mem_cons.mpr ⟨fun other held => ?_, batch.2⟩
      exact batch.1 other (List.contains_iff_mem.mpr
        (List.mem_cons_of_mem _ (List.contains_iff_mem.mp held)))
    · exact accounted.unmoved (teardowns_top top).symm rfl rfl rfl rfl rfl
  · rename_i below top
    obtain rfl := Option.some.inj done
    obtain ⟨known, shape, accounted⟩ := kept
    obtain ⟨stack, distinct, slot, depth, well⟩ := shape
    rw [top] at stack depth well
    rw [List.countP_cons_of_pos rfl] at depth
    refine kept_flush ⟨⟨(known.below top).frames, known.pending, known.subscribers, known.fresh⟩,
      ⟨stack, distinct, slot, ?_, well.2⟩, ?_⟩ (fun frame listed => (well.1 frame listed).1)
    · rw [depth]
      rfl
    · exact accounted.unmoved (teardowns_top top).symm rfl rfl rfl rfl rfl
  · cases done

end Calls

/-! ## Runs -/

def allowed (state : Runtime) : Call → Bool
  | .onCleanup => mayGive state
  | _ => true

theorem kept_initial : Kept initial where
  known := by
    refine ⟨fun frame listed other held => ?_, fun _ listed => absurd listed List.not_mem_nil,
      fun _ _ listed => absurd listed List.not_mem_nil, fun _ _ => rfl⟩
    rw [List.mem_singleton.mp listed] at held
    cases held
  shape := ⟨rfl, List.nodup_nil, nofun, rfl, trivial⟩
  accounted :=
    ⟨fun _ => List.Perm.refl _, rfl, fun _ _ listed => absurd listed List.not_mem_nil,
      fun _ _ listed => absurd listed List.not_mem_nil,
      fun _ _ listed => absurd listed List.not_mem_nil,
      fun _ _ listed => absurd listed List.not_mem_nil, fun _ _ => rfl,
      fun _ _ listed => absurd listed List.not_mem_nil⟩

theorem kept_step {state next : Runtime} {call : Call} (kept : Kept state)
    (guard : allowed state call = true) (taken : step state call = some next) : Kept next := by
  cases call with
  | onCleanup =>
      simp only [step] at taken
      split_ifs at taken
      obtain rfl := Option.some.inj taken
      exact kept_onCleanup kept guard
  | read signal =>
      simp only [step] at taken
      split_ifs at taken
      obtain rfl := Option.some.inj taken
      exact kept_track kept signal
  | write signal =>
      simp only [step] at taken
      split_ifs at taken
      obtain rfl := Option.some.inj taken
      exact kept_write kept signal
  | createEffect =>
      simp only [step] at taken
      split_ifs at taken
      obtain rfl := Option.some.inj taken
      exact kept_createEffect kept
  | batch =>
      simp only [step] at taken
      split_ifs at taken
      obtain rfl := Option.some.inj taken
      obtain ⟨known, shape, accounted⟩ := kept
      refine ⟨⟨?_, known.pending, known.subscribers, known.fresh⟩,
        ⟨shape.stack, shape.distinct, shape.slot, ?_, shape.well⟩, ?_⟩
      · exact List.forall_mem_cons.mpr ⟨fun _ held => (by cases held), known.frames⟩
      · rw [List.countP_cons_of_pos rfl, ← shape.depth]
      · exact accounted.unmoved rfl rfl rfl rfl rfl rfl
  | dropHandle effect =>
      simp only [step] at taken
      split_ifs at taken with there
      obtain rfl := Option.some.inj taken
      refine kept_dropHandle kept (Nat.lt_of_not_le fun later => ?_)
      have held := of_decide_eq_true (Bool.and_eq_true_iff.mp there).2
      rw [kept.known.fresh effect later] at held
      cases held
  | finish =>
      simp only [step] at taken
      split_ifs at taken
      exact kept_finish kept taken
  | proceed =>
      simp only [step] at taken
      split_ifs at taken
      exact kept_proceed kept taken

/-- Every closure is run once, in time, as long as none is given behind a run that ended inside
of the run of its effect, or behind the end of its effect's handle. -/
theorem cleanups_run_once (state : Runtime)
    (reached : Reaches step (fun state call => allowed state call = true) initial state) :
    CleanedUp state :=
  (Reaches.invariant Kept kept_initial (fun _ _ _ => kept_step) state reached).accounted.cleanedUp

/-- An effect gives a closure in its first run, and its handle goes. -/
theorem dropped_effect_is_cleaned_up : ∃ state,
    runChecked step allowed initial [.createEffect, .onCleanup, .finish, .dropHandle 0] =
      some state ∧ CleanedUp state := by
  have ends : (runChecked step allowed initial
      [.createEffect, .onCleanup, .finish, .dropHandle 0]).isSome = true := rfl
  obtain ⟨state, run⟩ := Option.isSome_iff_exists.mp ends
  exact ⟨state, run, cleanups_run_once state
    (runChecked_reaches allowed (fun _ _ guard => guard) _ _ _ run)⟩

/-- An effect creates another one and gives a closure behind its first run. -/
theorem closure_behind_nested_effect_is_lost : ∃ state,
    Reaches step (fun _ _ => True) initial state ∧ ¬CleanedUp state := by
  have run : ∃ state, runChecked step (fun _ _ => true) initial
      [.createEffect, .createEffect, .finish, .onCleanup] = some state ∧ ¬CleanedUp state :=
    ⟨_, rfl, fun cleaned => absurd (cleaned.once 0).length_eq (by decide)⟩
  obtain ⟨state, run, lost⟩ := run
  exact ⟨state, runChecked_reaches _ (fun _ _ _ => trivial) _ _ _ run, lost⟩

end Pantheon.Appfront
