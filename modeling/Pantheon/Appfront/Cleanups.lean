import Mathlib
import Pantheon.Appfront.Effects

/-!
# Cleanups of effects

A closure belongs to the effect that was running when it was given.  It waits in the list of
that effect, or in a frame that takes the list apart, until it is run.
-/

set_option autoImplicit false

namespace Pantheon.Appfront

open Pantheon.Lib

/-! ## The frames -/

def bodyOf : Frame → Option Nat
  | .body effect => some effect
  | _ => none

def isFlushing : Frame → Bool
  | .flushing _ => true
  | _ => false

def counted : Frame → Bool
  | .flushing _ => true
  | .batching => true
  | _ => false

def isRerun : Frame → Bool
  | .teardown _ _ .body => true
  | _ => false

def isRerunOf (effect : Nat) : Frame → Bool
  | .teardown other _ .body => other == effect
  | _ => false

/-- A batch is run on nothing that runs a batch, and the cleanups in front of a next run belong
to the batch below them. -/
def WellStacked : List Frame → Prop
  | [] => True
  | .flushing _ :: below =>
      (∀ frame ∈ below, isFlushing frame = false ∧ isRerun frame = false) ∧ WellStacked below
  | .teardown _ _ .body :: below =>
      (∃ rest under, below = .flushing rest :: under) ∧ WellStacked below
  | .body effect :: below => (∀ frame ∈ below, isRerunOf effect frame = false) ∧ WellStacked below
  | _ :: below => WellStacked below

theorem WellStacked.tail {frame : Frame} {below : List Frame}
    (well : WellStacked (frame :: below)) :
    WellStacked below := by
  cases frame with
  | code => exact well
  | body effect => exact well.2
  | batching => exact well
  | teardown effect rest after =>
      cases after with
      | nothing => exact well
      | body => exact well.2
  | flushing rest => exact well.2

theorem WellStacked.no_rerun : ∀ {frames : List Frame}, WellStacked frames →
    (∀ frame ∈ frames, isFlushing frame = false) → ∀ frame ∈ frames, isRerun frame = false := by
  intro frames
  induction frames with
  | nil => exact fun _ _ frame listed => absurd listed List.not_mem_nil
  | cons first below hyp =>
      intro well none_flushes
      obtain ⟨head, later⟩ := List.forall_mem_cons.mp none_flushes
      refine List.forall_mem_cons.mpr ⟨?_, hyp well.tail later⟩
      cases rerun : isRerun first with
      | false => rfl
      | true =>
          cases first with
          | teardown effect rest after =>
              cases after with
              | nothing => cases rerun
              | body =>
                  obtain ⟨⟨batch, under, rfl⟩, _⟩ := well
                  exact absurd (later _ List.mem_cons_self) (by simp [isFlushing])
          | code => cases rerun
          | body effect => cases rerun
          | batching => cases rerun
          | flushing rest => cases rerun

theorem isRerunOf_of_isRerun {frame : Frame} (noRerun : isRerun frame = false) (effect : Nat) :
    isRerunOf effect frame = false := by
  cases frame with
  | teardown other rest after =>
      cases after with
      | nothing => rfl
      | body => cases noRerun
  | code => rfl
  | body other => rfl
  | batching => rfl
  | flushing rest => rfl

/-- The effects that the runtime knows have been created. -/
structure Known (state : Runtime) : Prop where
  frames : ∀ frame ∈ state.frames, ∀ effect, Runtime.holds effect frame = true →
    effect < state.created
  pending : ∀ effect ∈ state.pending, effect < state.created
  subscribers : ∀ signal, ∀ effect ∈ state.subscribers signal, effect < state.created
  fresh : ∀ effect, state.created ≤ effect → state.node effect = freshNode

structure Shape (state : Runtime) : Prop where
  stack : state.effectStack = state.frames.filterMap bodyOf
  distinct : state.effectStack.Nodup
  slot : ∀ effect, state.currentCleanup = some effect → state.effectStack.head? = some effect
  depth : state.batchDepth = state.frames.countP counted
  well : WellStacked state.frames

/-! ## The closures -/

structure Teardown where
  effect : Nat
  rest : List Cleanup
  after : After

def teardownOf : Frame → Option Teardown
  | .teardown effect rest after => some ⟨effect, rest, after⟩
  | _ => none

def ofEffect (log : List (Nat × Cleanup)) (effect : Nat) : List Cleanup :=
  (log.filter fun entry => entry.1 = effect).map Prod.snd

def restOf (effect : Nat) (teardown : Teardown) : List Cleanup :=
  if teardown.effect = effect then teardown.rest else []

namespace Runtime

def teardowns (state : Runtime) : List Teardown := state.frames.filterMap teardownOf

/-- The closures of the effect that have not been run. -/
def waiting (state : Runtime) (effect : Nat) : List Cleanup :=
  (state.node effect).cleanups ++ state.teardowns.flatMap (restOf effect)

end Runtime

/-- Every closure that was given while the effect was running waits for that effect or has been
run, once: before the next run of the effect, or with its handle. -/
structure CleanedUp (state : Runtime) : Prop where
  once : ∀ effect, (ofEffect state.ran effect ++ state.waiting effect).Perm
    (ofEffect state.registered effect)
  distinct : ∀ effect, (ofEffect state.registered effect).Nodup
  beforeNext : ∀ effect, ∀ cleanup ∈ ofEffect state.registered effect,
    cleanup.run < (state.node effect).runs → cleanup ∈ ofEffect state.ran effect ∨
      ∃ rest, ⟨effect, rest, .nothing⟩ ∈ state.teardowns ∧ cleanup ∈ rest
  notBefore : ∀ effect, ∀ cleanup ∈ ofEffect state.ran effect,
    cleanup.run < (state.node effect).runs ∨ (state.node effect).handle = .dropped ∨
      (∃ rest, ⟨effect, rest, .body⟩ ∈ state.teardowns) ∨ state.panicked = true
  atDrop : ∀ effect, (state.node effect).handle = .dropped →
    (∀ rest after, ⟨effect, rest, after⟩ ∉ state.teardowns) →
      ∀ cleanup ∈ ofEffect state.registered effect, cleanup ∈ ofEffect state.ran effect

/-- What the runtime keeps of the closures, with effects whose next run is about to start. -/
structure Accounted (starting : Nat → Prop) (state : Runtime) : Prop where
  once : ∀ effect, (ofEffect state.ran effect ++ state.waiting effect).Perm
    (ofEffect state.registered effect)
  numbered : state.registered.map (fun entry => entry.2.number) =
    List.range state.registered.length
  bounded : ∀ effect, ∀ cleanup ∈ ofEffect state.registered effect,
    cleanup.run ≤ (state.node effect).runs
  current : ∀ effect, ∀ cleanup ∈ (state.node effect).cleanups,
    cleanup.run = (state.node effect).runs
  rerun : ∀ effect rest, ⟨effect, rest, .body⟩ ∈ state.teardowns →
    (effect ∈ state.effectStack ∨ (state.node effect).cleanups = []) ∧
      ∀ cleanup ∈ rest, cleanup.run = (state.node effect).runs
  dropping : ∀ effect rest, ⟨effect, rest, .nothing⟩ ∈ state.teardowns →
    (state.node effect).handle = .dropped
  dropped : ∀ effect, (state.node effect).handle = .dropped → (state.node effect).cleanups = []
  notBefore : ∀ effect, ∀ cleanup ∈ ofEffect state.ran effect,
    cleanup.run < (state.node effect).runs ∨ (state.node effect).handle = .dropped ∨
      (∃ rest, ⟨effect, rest, .body⟩ ∈ state.teardowns) ∨ state.panicked = true ∨ starting effect

theorem nodup_registered {registered : List (Nat × Cleanup)}
    (numbered : registered.map (fun entry => entry.2.number) = List.range registered.length)
    (effect : Nat) : (ofEffect registered effect).Nodup := by
  have numbers : ((ofEffect registered effect).map Cleanup.number).Nodup := by
    unfold ofEffect
    rw [List.map_map]
    refine List.Nodup.sublist (List.filter_sublist.map _) ?_
    exact numbered ▸ List.nodup_range
  exact numbers.of_map _

theorem Accounted.cleanedUp {state : Runtime} (kept : Accounted (fun _ => False) state) :
    CleanedUp state where
  once := kept.once
  distinct := nodup_registered kept.numbered
  beforeNext := by
    intro effect cleanup given earlier
    rcases List.mem_append.mp ((kept.once effect).mem_iff.mpr given) with ran | waits
    · exact Or.inl ran
    · rcases List.mem_append.mp waits with listed | held
      · exact absurd (kept.current effect cleanup listed) (by omega)
      · obtain ⟨⟨other, rest, after⟩, there, held⟩ := List.mem_flatMap.mp held
        unfold restOf at held
        split_ifs at held with same
        · obtain rfl : other = effect := same
          cases after with
          | nothing => exact Or.inr ⟨rest, there, held⟩
          | body => exact absurd ((kept.rerun other rest there).2 cleanup held) (by omega)
        · exact absurd held List.not_mem_nil
  notBefore := by
    intro effect cleanup ran
    rcases kept.notBefore effect cleanup ran with earlier | gone | rerun | panicked | starting
    · exact Or.inl earlier
    · exact Or.inr (Or.inl gone)
    · exact Or.inr (Or.inr (Or.inl rerun))
    · exact Or.inr (Or.inr (Or.inr panicked))
    · exact starting.elim
  atDrop := by
    intro effect gone no_teardown cleanup given
    rcases List.mem_append.mp ((kept.once effect).mem_iff.mpr given) with ran | waits
    · exact ran
    · rcases List.mem_append.mp waits with listed | held
      · rw [kept.dropped effect gone] at listed
        exact absurd listed List.not_mem_nil
      · obtain ⟨⟨other, rest, after⟩, there, held⟩ := List.mem_flatMap.mp held
        unfold restOf at held
        split_ifs at held with same
        · obtain rfl : other = effect := same
          exact absurd there (no_teardown rest after)
        · exact absurd held List.not_mem_nil

/-! ## What the calls do to the closures -/

section Steps

variable {starting : Nat → Prop} {state next : Runtime} {effect : Nat}

theorem waiting_eq (cleanups : (next.node effect).cleanups = (state.node effect).cleanups)
    (teardowns : next.teardowns = state.teardowns) :
    next.waiting effect = state.waiting effect := by
  rw [Runtime.waiting, cleanups, teardowns, Runtime.waiting]

theorem Accounted.frame (kept : Accounted starting state)
    (cleanups : ∀ other, (next.node other).cleanups = (state.node other).cleanups)
    (runs : ∀ other, (next.node other).runs = (state.node other).runs)
    (handles : ∀ other, (next.node other).handle = .dropped ↔ (state.node other).handle = .dropped)
    (teardowns : next.teardowns = state.teardowns)
    (stack : ∀ other ∈ state.effectStack, other ∈ next.effectStack ∨
      ∀ rest, ⟨other, rest, .body⟩ ∉ state.teardowns)
    (registered : next.registered = state.registered) (ran : next.ran = state.ran)
    (panicked : next.panicked = state.panicked) : Accounted starting next where
  once := by
    intro other
    rw [ran, registered, waiting_eq (cleanups other) teardowns]
    exact kept.once other
  numbered := by
    rw [registered]
    exact kept.numbered
  bounded := by
    intro other
    rw [registered, runs]
    exact kept.bounded other
  current := by
    intro other
    rw [cleanups, runs]
    exact kept.current other
  rerun := by
    intro other rest there
    rw [teardowns] at there
    rw [cleanups, runs]
    obtain ⟨running, tagged⟩ := kept.rerun other rest there
    refine ⟨running.imp_left fun listed => ?_, tagged⟩
    exact (stack other listed).resolve_right fun none_there => none_there rest there
  dropping := by
    intro other rest there
    rw [teardowns] at there
    exact (handles other).mpr (kept.dropping other rest there)
  dropped := by
    intro other gone
    rw [cleanups]
    exact kept.dropped other ((handles other).mp gone)
  notBefore := by
    intro other
    rw [ran, runs, handles, teardowns, panicked]
    exact kept.notBefore other

theorem Accounted.unmoved (kept : Accounted starting state)
    (teardowns : next.teardowns = state.teardowns) (node : next.node = state.node)
    (stack : next.effectStack = state.effectStack)
    (registered : next.registered = state.registered) (ran : next.ran = state.ran)
    (panicked : next.panicked = state.panicked) : Accounted starting next :=
  kept.frame (fun _ => by rw [node]) (fun _ => by rw [node]) (fun _ => by rw [node]) teardowns
    (fun _ listed => Or.inl (stack ▸ listed)) registered ran panicked

theorem Accounted.imp {starting' : Nat → Prop} (kept : Accounted starting state)
    (weaker : ∀ other, starting other → starting' other) : Accounted starting' state where
  once := kept.once
  numbered := kept.numbered
  bounded := kept.bounded
  current := kept.current
  rerun := kept.rerun
  dropping := kept.dropping
  dropped := kept.dropped
  notBefore := by
    intro other cleanup had
    rcases kept.notBefore other cleanup had with earlier | gone | rerun | stopped | starts
    · exact Or.inl earlier
    · exact Or.inr (Or.inl gone)
    · exact Or.inr (Or.inr (Or.inl rerun))
    · exact Or.inr (Or.inr (Or.inr (Or.inl stopped)))
    · exact Or.inr (Or.inr (Or.inr (Or.inr (weaker other starts))))

theorem Accounted.take (kept : Accounted (fun _ => False) state) (effect : Nat) (after : After)
    (others : ∀ other, other ≠ effect → next.node other = state.node other)
    (emptied : (next.node effect).cleanups = [])
    (runs : (next.node effect).runs = (state.node effect).runs)
    (gone : (state.node effect).handle = .dropped → (next.node effect).handle = .dropped)
    (goes : after = .nothing → (next.node effect).handle = .dropped)
    (teardowns : next.teardowns =
      ⟨effect, (state.node effect).cleanups, after⟩ :: state.teardowns)
    (stack : next.effectStack = state.effectStack)
    (registered : next.registered = state.registered) (ran : next.ran = state.ran)
    (panicked : next.panicked = state.panicked) : Accounted (fun _ => False) next where
  once := by
    intro other
    rw [ran, registered, Runtime.waiting, teardowns, List.flatMap_cons]
    by_cases same : other = effect
    · subst same
      rw [emptied, restOf, if_pos rfl, List.nil_append]
      exact kept.once other
    · rw [others other same, restOf, if_neg (Ne.symm same), List.nil_append]
      exact kept.once other
  numbered := by
    rw [registered]
    exact kept.numbered
  bounded := by
    intro other
    rw [registered]
    by_cases same : other = effect
    · rw [same, runs]
      exact kept.bounded effect
    · rw [others other same]
      exact kept.bounded other
  current := by
    intro other
    by_cases same : other = effect
    · rw [same, emptied]
      exact fun _ listed => absurd listed List.not_mem_nil
    · rw [others other same]
      exact kept.current other
  rerun := by
    intro other rest there
    rw [teardowns] at there
    rw [stack]
    rcases List.mem_cons.mp there with same | before
    · obtain ⟨rfl, rfl, rfl⟩ := Teardown.mk.inj same
      rw [runs]
      exact ⟨Or.inr emptied, kept.current other⟩
    · obtain ⟨running, tagged⟩ := kept.rerun other rest before
      by_cases same : other = effect
      · subst same
        rw [runs]
        exact ⟨Or.inr emptied, tagged⟩
      · rw [others other same]
        exact ⟨running, tagged⟩
  dropping := by
    intro other rest there
    rw [teardowns] at there
    rcases List.mem_cons.mp there with same | before
    · obtain ⟨rfl, rfl, rfl⟩ := Teardown.mk.inj same
      exact goes rfl
    · by_cases same : other = effect
      · subst same
        exact gone (kept.dropping other rest before)
      · rw [others other same]
        exact kept.dropping other rest before
  dropped := by
    intro other
    by_cases same : other = effect
    · rw [same]
      exact fun _ => emptied
    · rw [others other same]
      exact kept.dropped other
  notBefore := by
    intro other cleanup had
    rw [ran] at had
    rw [panicked, teardowns]
    have more : ∀ rest, ⟨other, rest, .body⟩ ∈ state.teardowns →
        ⟨other, rest, .body⟩ ∈ ⟨effect, (state.node effect).cleanups, after⟩ :: state.teardowns :=
      fun rest there => List.mem_cons_of_mem _ there
    rcases kept.notBefore other cleanup had with earlier | was | ⟨rest, there⟩ | rest
    · by_cases same : other = effect
      · subst same
        exact Or.inl (by omega)
      · rw [others other same]
        exact Or.inl earlier
    · by_cases same : other = effect
      · subst same
        exact Or.inr (Or.inl (gone was))
      · rw [others other same]
        exact Or.inr (Or.inl was)
    · exact Or.inr (Or.inr (Or.inl ⟨rest, more rest there⟩))
    · exact Or.inr (Or.inr (Or.inr rest))

theorem ofEffect_append (log : List (Nat × Cleanup)) (entry : Nat × Cleanup) (other : Nat) :
    ofEffect (log ++ [entry]) other =
      ofEffect log other ++ if entry.1 = other then [entry.2] else [] := by
  unfold ofEffect
  rw [List.filter_append, List.map_append]
  by_cases same : entry.1 = other
  · simp [same]
  · simp [same]

theorem Accounted.runNext (kept : Accounted (fun _ => False) state) {cleanup : Cleanup}
    {rest : List Cleanup} {after : After} {below : List Teardown}
    (top : state.teardowns = ⟨effect, cleanup :: rest, after⟩ :: below)
    (node : next.node = state.node) (stack : next.effectStack = state.effectStack)
    (teardowns : next.teardowns = ⟨effect, rest, after⟩ :: below)
    (registered : next.registered = state.registered)
    (ran : next.ran = state.ran ++ [(effect, cleanup)])
    (panicked : next.panicked = state.panicked) : Accounted (fun _ => False) next where
  once := by
    intro other
    have before := kept.once other
    rw [Runtime.waiting, top, List.flatMap_cons] at before
    rw [ran, registered, Runtime.waiting, node, teardowns, ofEffect_append, List.flatMap_cons]
    refine List.Perm.trans ?_ before
    by_cases same : effect = other
    · subst same
      simp only [restOf, if_pos, List.append_assoc]
      refine List.Perm.append_left _ ?_
      simp only [List.cons_append, List.nil_append]
      exact List.perm_middle.symm
    · simp only [restOf, if_neg same, List.append_nil, List.nil_append]
      exact List.Perm.refl _
  numbered := by
    rw [registered]
    exact kept.numbered
  bounded := by
    intro other
    rw [registered, node]
    exact kept.bounded other
  current := by
    intro other
    rw [node]
    exact kept.current other
  rerun := by
    intro other left there
    rw [teardowns] at there
    rw [stack, node]
    rcases List.mem_cons.mp there with same | before
    · obtain ⟨rfl, rfl, rfl⟩ := Teardown.mk.inj same
      obtain ⟨running, tagged⟩ := kept.rerun other (cleanup :: left) (top ▸ List.mem_cons_self)
      exact ⟨running, fun held listed => tagged held (List.mem_cons_of_mem _ listed)⟩
    · exact kept.rerun other left (top ▸ List.mem_cons_of_mem _ before)
  dropping := by
    intro other left there
    rw [teardowns] at there
    rw [node]
    rcases List.mem_cons.mp there with same | before
    · obtain ⟨rfl, rfl, rfl⟩ := Teardown.mk.inj same
      exact kept.dropping other (cleanup :: left) (top ▸ List.mem_cons_self)
    · exact kept.dropping other left (top ▸ List.mem_cons_of_mem _ before)
  dropped := by
    intro other
    rw [node]
    exact kept.dropped other
  notBefore := by
    intro other held had
    rw [node, panicked, teardowns]
    rw [ran, ofEffect_append] at had
    rcases List.mem_append.mp had with was | now
    · rcases kept.notBefore other held was with earlier | gone | ⟨left, there⟩ | others
      · exact Or.inl earlier
      · exact Or.inr (Or.inl gone)
      · rw [top] at there
        rcases List.mem_cons.mp there with same | before
        · obtain ⟨rfl, rfl, rfl⟩ := Teardown.mk.inj same
          exact Or.inr (Or.inr (Or.inl ⟨rest, List.mem_cons_self⟩))
        · exact Or.inr (Or.inr (Or.inl ⟨left, List.mem_cons_of_mem _ before⟩))
      · exact Or.inr (Or.inr (Or.inr others))
    · split_ifs at now with same
      · obtain rfl : effect = other := same
        cases after with
        | nothing =>
            exact Or.inr (Or.inl (kept.dropping effect (cleanup :: rest)
              (top ▸ List.mem_cons_self)))
        | body => exact Or.inr (Or.inr (Or.inl ⟨rest, List.mem_cons_self⟩))
      · exact absurd now List.not_mem_nil

theorem Accounted.pop (kept : Accounted (fun _ => False) state) {after : After}
    {below : List Teardown} (top : state.teardowns = ⟨effect, [], after⟩ :: below)
    (node : next.node = state.node) (stack : next.effectStack = state.effectStack)
    (teardowns : next.teardowns = below) (registered : next.registered = state.registered)
    (ran : next.ran = state.ran) (panicked : next.panicked = state.panicked) :
    Accounted (fun other => after = .body ∧ other = effect) next where
  once := by
    intro other
    have before := kept.once other
    rw [Runtime.waiting, top, List.flatMap_cons] at before
    have empty : restOf other ⟨effect, [], after⟩ = [] := by
      unfold restOf
      split_ifs <;> rfl
    rw [empty, List.nil_append] at before
    rw [ran, registered, Runtime.waiting, node, teardowns]
    exact before
  numbered := by
    rw [registered]
    exact kept.numbered
  bounded := by
    intro other
    rw [registered, node]
    exact kept.bounded other
  current := by
    intro other
    rw [node]
    exact kept.current other
  rerun := by
    intro other rest there
    rw [teardowns] at there
    rw [stack, node]
    exact kept.rerun other rest (top ▸ List.mem_cons_of_mem _ there)
  dropping := by
    intro other rest there
    rw [teardowns] at there
    rw [node]
    exact kept.dropping other rest (top ▸ List.mem_cons_of_mem _ there)
  dropped := by
    intro other
    rw [node]
    exact kept.dropped other
  notBefore := by
    intro other cleanup had
    rw [ran] at had
    rw [node, panicked, teardowns]
    rcases kept.notBefore other cleanup had with
      earlier | gone | ⟨rest, there⟩ | stopped | none_more
    · exact Or.inl earlier
    · exact Or.inr (Or.inl gone)
    · rw [top] at there
      rcases List.mem_cons.mp there with same | before
      · obtain ⟨rfl, rfl, rfl⟩ := Teardown.mk.inj same
        exact Or.inr (Or.inr (Or.inr (Or.inr ⟨rfl, rfl⟩)))
      · exact Or.inr (Or.inr (Or.inl ⟨rest, before⟩))
    · exact Or.inr (Or.inr (Or.inr (Or.inl stopped)))
    · exact none_more.elim

theorem Accounted.ran_bounded (kept : Accounted starting state) {other : Nat} {cleanup : Cleanup}
    (had : cleanup ∈ ofEffect state.ran other) : cleanup.run ≤ (state.node other).runs :=
  kept.bounded other cleanup ((kept.once other).mem_iff.mp (List.mem_append_left _ had))

theorem Accounted.start (kept : Accounted (fun other => other = effect) state)
    (emptied : (state.node effect).cleanups = [])
    (no_rerun : ∀ rest, ⟨effect, rest, .body⟩ ∉ state.teardowns)
    (node : next.node = Function.update state.node effect
      { state.node effect with runs := (state.node effect).runs + 1 })
    (stack : next.effectStack = effect :: state.effectStack)
    (teardowns : next.teardowns = state.teardowns)
    (registered : next.registered = state.registered) (ran : next.ran = state.ran)
    (panicked : next.panicked = state.panicked) : Accounted (fun _ => False) next := by
  have cleanups : ∀ other, (next.node other).cleanups = (state.node other).cleanups := by
    intro other
    rw [node]
    by_cases same : other = effect
    · subst same
      rw [Function.update_self]
    · rw [Function.update_of_ne same]
  have handle : ∀ other, (next.node other).handle = (state.node other).handle := by
    intro other
    rw [node]
    by_cases same : other = effect
    · subst same
      rw [Function.update_self]
    · rw [Function.update_of_ne same]
  have runs : ∀ other, other ≠ effect → (next.node other).runs = (state.node other).runs := by
    intro other apart
    rw [node, Function.update_of_ne apart]
  have ownRuns : (next.node effect).runs = (state.node effect).runs + 1 := by
    rw [node, Function.update_self]
  exact {
    once := by
      intro other
      rw [ran, registered, waiting_eq (cleanups other) teardowns]
      exact kept.once other
    numbered := by
      rw [registered]
      exact kept.numbered
    bounded := by
      intro other cleanup given
      rw [registered] at given
      have before := kept.bounded other cleanup given
      by_cases same : other = effect
      · subst same
        omega
      · rw [runs other same]
        exact before
    current := by
      intro other cleanup listed
      rw [cleanups] at listed
      by_cases same : other = effect
      · subst same
        rw [emptied] at listed
        exact absurd listed List.not_mem_nil
      · rw [runs other same]
        exact kept.current other cleanup listed
    rerun := by
      intro other rest there
      rw [teardowns] at there
      by_cases same : other = effect
      · subst same
        exact absurd there (no_rerun rest)
      · rw [runs other same, cleanups, stack]
        obtain ⟨running, tagged⟩ := kept.rerun other rest there
        exact ⟨running.imp_left (List.mem_cons_of_mem _), tagged⟩
    dropping := by
      intro other rest there
      rw [teardowns] at there
      rw [handle]
      exact kept.dropping other rest there
    dropped := by
      intro other
      rw [handle, cleanups]
      exact kept.dropped other
    notBefore := by
      intro other cleanup had
      rw [ran] at had
      rw [handle, teardowns, panicked]
      by_cases same : other = effect
      · subst same
        have before := kept.ran_bounded had
        exact Or.inl (by omega)
      · rw [runs other same]
        rcases kept.notBefore other cleanup had with earlier | gone | rerun | stopped | starts
        · exact Or.inl earlier
        · exact Or.inr (Or.inl gone)
        · exact Or.inr (Or.inr (Or.inl rerun))
        · exact Or.inr (Or.inr (Or.inr (Or.inl stopped)))
        · exact absurd starts same }

theorem Accounted.panic (kept : Accounted starting state) :
    Accounted (fun _ => False) { state with panicked := true } where
  once := kept.once
  numbered := kept.numbered
  bounded := kept.bounded
  current := kept.current
  rerun := kept.rerun
  dropping := kept.dropping
  dropped := kept.dropped
  notBefore := fun _ _ _ => Or.inr (Or.inr (Or.inr (Or.inl rfl)))

theorem Accounted.give (kept : Accounted (fun _ => False) state)
    (running : effect ∈ state.effectStack) (live : (state.node effect).handle ≠ .dropped)
    (node : next.node = Function.update state.node effect { state.node effect with
      cleanups := (state.node effect).cleanups ++
        [⟨state.registered.length, (state.node effect).runs⟩] })
    (stack : next.effectStack = state.effectStack) (teardowns : next.teardowns = state.teardowns)
    (registered : next.registered = state.registered ++
      [(effect, ⟨state.registered.length, (state.node effect).runs⟩)])
    (ran : next.ran = state.ran) (panicked : next.panicked = state.panicked) :
    Accounted (fun _ => False) next := by
  have others : ∀ other, other ≠ effect → next.node other = state.node other := by
    intro other apart
    rw [node, Function.update_of_ne apart]
  have own : next.node effect = { state.node effect with
      cleanups := (state.node effect).cleanups ++
        [⟨state.registered.length, (state.node effect).runs⟩] } := by
    rw [node, Function.update_self]
  have runs : ∀ other, (next.node other).runs = (state.node other).runs := by
    intro other
    by_cases same : other = effect
    · subst same
      rw [own]
    · rw [others other same]
  have handle : ∀ other, (next.node other).handle = (state.node other).handle := by
    intro other
    by_cases same : other = effect
    · subst same
      rw [own]
    · rw [others other same]
  exact {
    once := by
      intro other
      rw [ran, registered, ofEffect_append, Runtime.waiting, teardowns]
      by_cases same : effect = other
      · subst same
        rw [if_pos rfl, own, List.append_assoc, ← List.append_assoc (ofEffect state.ran effect)]
        have before := kept.once effect
        rw [Runtime.waiting, ← List.append_assoc] at before
        refine List.Perm.trans ?_ (before.append_right _)
        rw [List.append_assoc, List.append_assoc, List.append_assoc]
        exact List.Perm.append_left _ (List.Perm.append_left _ List.perm_append_comm)
      · rw [if_neg same, List.append_nil, others other (Ne.symm same)]
        exact kept.once other
    numbered := by
      rw [registered, List.map_append, kept.numbered, List.length_append]
      exact List.range_succ.symm
    bounded := by
      intro other cleanup given
      rw [registered, ofEffect_append] at given
      rw [runs]
      rcases List.mem_append.mp given with before | now
      · exact kept.bounded other cleanup before
      · split_ifs at now with same
        · obtain rfl : effect = other := same
          rw [List.mem_singleton.mp now]
        · exact absurd now List.not_mem_nil
    current := by
      intro other cleanup listed
      rw [runs]
      by_cases same : other = effect
      · subst same
        rw [own] at listed
        rcases List.mem_append.mp listed with before | now
        · exact kept.current other cleanup before
        · rw [List.mem_singleton.mp now]
      · rw [others other same] at listed
        exact kept.current other cleanup listed
    rerun := by
      intro other rest there
      rw [teardowns] at there
      rw [runs, stack]
      obtain ⟨before, tagged⟩ := kept.rerun other rest there
      by_cases same : other = effect
      · subst same
        exact ⟨Or.inl running, tagged⟩
      · rw [others other same]
        exact ⟨before, tagged⟩
    dropping := by
      intro other rest there
      rw [teardowns] at there
      rw [handle]
      exact kept.dropping other rest there
    dropped := by
      intro other gone
      rw [handle] at gone
      by_cases same : other = effect
      · subst same
        exact absurd gone live
      · rw [others other same]
        exact kept.dropped other gone
    notBefore := by
      intro other
      rw [ran, runs, handle, teardowns, panicked]
      exact kept.notBefore other }

end Steps

end Pantheon.Appfront
