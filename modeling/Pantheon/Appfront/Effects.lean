import Mathlib
import Pantheon.Lib.Runs

/-!
# Effects: `tpt-appfront-core/src/signal.rs`

The closures of a program may do anything at any time, so a run is a sequence of the calls they
make, and the frames are what is still to be done behind each of them.  Every rank is zero
without memos, so a batch keeps the order in which its effects were enqueued.
-/

set_option autoImplicit false

namespace Pantheon.Appfront

/-- A closure given to `on_cleanup`, with the run of its effect that gave it. -/
structure Cleanup where
  number : Nat
  run : Nat
deriving DecidableEq

inductive Handle where
  | creating
  | held
  | dropped
deriving DecidableEq

structure EffectNode where
  deps : List Nat
  cleanups : List Cleanup
  runs : Nat
  handle : Handle

/-- What follows the cleanups of an effect: its handle is gone, or its next run. -/
inductive After where
  | nothing
  | body
deriving DecidableEq

inductive Frame where
  | code
  | body (effect : Nat)
  | batching
  | teardown (effect : Nat) (rest : List Cleanup) (after : After)
  | flushing (rest : List Nat)
deriving DecidableEq

/-- `registered` and `ran` are what has happened: each closure beside the effect that was
running when it was given, and beside the effect whose list it was taken from. -/
structure Runtime where
  node : Nat → EffectNode
  created : Nat
  subscribers : Nat → List Nat
  effectStack : List Nat
  currentCleanup : Option Nat
  batchDepth : Nat
  pending : List Nat
  frames : List Frame
  panicked : Bool
  registered : List (Nat × Cleanup)
  ran : List (Nat × Cleanup)

def freshNode : EffectNode := ⟨[], [], 0, .creating⟩

def initial : Runtime :=
  ⟨fun _ => freshNode, 0, fun _ => [], [], none, 0, [], [.code], false, [], []⟩

namespace Runtime

def setNode (state : Runtime) (effect : Nat) (node : EffectNode) : Runtime :=
  { state with node := Function.update state.node effect node }

def holds (effect : Nat) : Frame → Bool
  | .body other => other == effect
  | .teardown other _ _ => other == effect
  | .flushing rest => rest.contains effect
  | _ => false

def alive (state : Runtime) (effect : Nat) : Bool :=
  decide ((state.node effect).handle ≠ .dropped) || decide (effect ∈ state.effectStack) ||
    state.frames.any (holds effect)

def startBody (state : Runtime) (effect : Nat) : Runtime :=
  if effect ∈ state.effectStack then { state with panicked := true }
  else
    { state.setNode effect
        { state.node effect with runs := (state.node effect).runs + 1 } with
      effectStack := effect :: state.effectStack
      currentCleanup := some effect
      frames := .body effect :: state.frames }

/-- The next cleanup of the frame on top, or what follows the last of them. -/
def advance (state : Runtime) : Runtime :=
  match state.frames with
  | .teardown effect (cleanup :: rest) after :: below =>
      { state with
        frames := .code :: .teardown effect rest after :: below
        ran := state.ran ++ [(effect, cleanup)] }
  | .teardown _ [] .nothing :: below => { state with frames := below }
  | .teardown effect [] .body :: below => { state with frames := below }.startBody effect
  | _ => state

/-- `std::mem::take` on the cleanups of an effect -/
def take (state : Runtime) (effect : Nat) (after : After) : Runtime :=
  { state.setNode effect { state.node effect with cleanups := [] } with
    frames := .teardown effect (state.node effect).cleanups after :: state.frames }

def unsubscribe (state : Runtime) (effect : Nat) : Runtime :=
  { state.setNode effect { state.node effect with deps := [] } with
    subscribers := fun signal =>
      if signal ∈ (state.node effect).deps then
        (state.subscribers signal).filter fun other => other ≠ effect
      else state.subscribers signal }

def runEffect (state : Runtime) (effect : Nat) : Runtime :=
  ((state.unsubscribe effect).take effect .body).advance

def createEffect (state : Runtime) : Runtime :=
  { state with created := state.created + 1 }.runEffect state.created

/-- One turn of the loop in `flush`. -/
def flush (state : Runtime) : Runtime :=
  let batch := state.pending.filter state.alive
  let state := { state with pending := [] }
  if batch = [] then state
  else
    { state with
      batchDepth := state.batchDepth + 1
      frames := .flushing batch :: state.frames }

def enqueue (state : Runtime) (effects : List Nat) : Runtime :=
  { state with
    pending := effects.foldl
      (fun pending effect => if effect ∈ pending then pending else pending ++ [effect])
      state.pending }

/-- `set`, whose value no effect of the runtime looks at. -/
def write (state : Runtime) (signal : Nat) : Runtime :=
  let effects := (state.subscribers signal).filter state.alive
  let state := { state with subscribers := Function.update state.subscribers signal effects }
  let state := state.enqueue effects
  if state.batchDepth = 0 then state.flush else state

def track (state : Runtime) (signal : Nat) : Runtime :=
  match state.effectStack.head? with
  | none => state
  | some effect =>
      if effect ∈ state.subscribers signal then state
      else
        { state.setNode effect
            { state.node effect with deps := (state.node effect).deps ++ [signal] } with
          subscribers :=
            Function.update state.subscribers signal (state.subscribers signal ++ [effect]) }

/-- The closure goes to the effect in the slot; it was given by the one on the stack. -/
def onCleanup (state : Runtime) : Runtime :=
  match state.effectStack.head? with
  | none => state
  | some running =>
      let cleanup : Cleanup := ⟨state.registered.length, (state.node running).runs⟩
      let state := { state with registered := state.registered ++ [(running, cleanup)] }
      match state.currentCleanup with
      | none => state
      | some effect =>
          if state.alive effect then
            state.setNode effect
              { state.node effect with cleanups := (state.node effect).cleanups ++ [cleanup] }
          else state

def dropHandle (state : Runtime) (effect : Nat) : Runtime :=
  ((state.setNode effect { state.node effect with handle := .dropped }).take effect
    .nothing).advance

/-- The closure on top returns; the handle of an effect is there behind its first run. -/
def finish (state : Runtime) : Option Runtime :=
  match state.frames with
  | .code :: .teardown effect rest after :: below =>
      some { state with frames := .teardown effect rest after :: below }.advance
  | .body effect :: below =>
      let node := state.node effect
      let handle := if node.handle = .creating then .held else node.handle
      some { state.setNode effect { node with handle := handle } with
        currentCleanup := none
        effectStack := state.effectStack.tail
        frames := below }
  | .batching :: below =>
      let state := { state with batchDepth := state.batchDepth - 1, frames := below }
      some (if state.batchDepth = 0 then state.flush else state)
  | _ => none

/-- The next effect of the batch, or the next turn of the loop behind its last one. -/
def proceed (state : Runtime) : Option Runtime :=
  match state.frames with
  | .flushing (effect :: rest) :: below =>
      some ({ state with frames := .flushing rest :: below }.runEffect effect)
  | .flushing [] :: below =>
      some { state with batchDepth := state.batchDepth - 1, frames := below }.flush
  | _ => none

def inProgram (state : Runtime) : Bool :=
  match state.frames with
  | .code :: _ => true
  | .body _ :: _ => true
  | .batching :: _ => true
  | _ => false

def inFlush (state : Runtime) : Bool :=
  match state.frames with
  | .flushing _ :: _ => true
  | _ => false

end Runtime

inductive Call where
  | onCleanup
  | read (signal : Nat)
  | write (signal : Nat)
  | createEffect
  | batch
  | dropHandle (effect : Nat)
  | finish
  | proceed

/-- A handle may also go while a batch is run, with the effect that owned it. -/
def step (state : Runtime) : Call → Option Runtime
  | .onCleanup => if !state.panicked && state.inProgram then some state.onCleanup else none
  | .read signal => if !state.panicked && state.inProgram then some (state.track signal) else none
  | .write signal => if !state.panicked && state.inProgram then some (state.write signal) else none
  | .createEffect => if !state.panicked && state.inProgram then some state.createEffect else none
  | .batch =>
      if !state.panicked && state.inProgram then
        some { state with
          batchDepth := state.batchDepth + 1
          frames := .batching :: state.frames }
      else none
  | .dropHandle effect =>
      if !state.panicked && (state.inProgram || state.inFlush) &&
          decide ((state.node effect).handle = .held) then
        some (state.dropHandle effect)
      else none
  | .finish => if state.panicked then none else state.finish
  | .proceed => if state.panicked then none else state.proceed

end Pantheon.Appfront
