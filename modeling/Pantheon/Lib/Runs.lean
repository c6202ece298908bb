import Mathlib

/-!
# Guarded runs of a partial step function

`step state action` is `none` where the action is not enabled.  `allowed`
restricts which steps a run may take; `Reaches` is the set of states such runs
lead to, and an invariant that one allowed step keeps holds in all of them.
-/

set_option autoImplicit false

namespace Pantheon.Lib

section Runs

variable {State Action : Type} (step : State → Action → Option State)
  (allowed : State → Action → Prop)

inductive Reaches (start : State) : State → Prop where
  | refl : Reaches start start
  | step {state next : State} (action : Action) (before : Reaches start state)
      (guard : allowed state action) (taken : step state action = some next) : Reaches start next

variable {step allowed}

theorem Reaches.invariant {start : State} (invariant : State → Prop) (initial : invariant start)
    (preserved : ∀ state action next, invariant state → allowed state action →
      step state action = some next → invariant next) :
    ∀ state, Reaches step allowed start state → invariant state := by
  intro state reached
  induction reached with
  | refl => exact initial
  | step action _ guard taken ih => exact preserved _ action _ ih guard taken

theorem Reaches.trans {start middle final : State} (first : Reaches step allowed start middle)
    (second : Reaches step allowed middle final) : Reaches step allowed start final := by
  induction second with
  | refl => exact first
  | step action _ guard taken ih => exact Reaches.step action ih guard taken

variable (step)

/-- Take the listed actions in order, checking each against a decidable guard. -/
def runChecked (guard : State → Action → Bool) : State → List Action → Option State
  | state, [] => some state
  | state, action :: rest =>
      if guard state action then (step state action).bind fun next => runChecked guard next rest
      else none

variable {step}

theorem runChecked_reaches (guard : State → Action → Bool)
    (sound : ∀ state action, guard state action = true → allowed state action) :
    ∀ (actions : List Action) (start final : State),
      runChecked step guard start actions = some final → Reaches step allowed start final := by
  intro actions
  induction actions with
  | nil =>
      intro start final run
      cases Option.some.inj run
      exact Reaches.refl
  | cons action rest ih =>
      intro start final run
      simp only [runChecked] at run
      split_ifs at run with checked
      obtain ⟨next, taken, run⟩ := Option.bind_eq_some_iff.mp run
      exact (Reaches.step action Reaches.refl (sound start action checked) taken).trans
        (ih next final run)

theorem runChecked_decided [∀ state action, Decidable (allowed state action)]
    {actions : List Action} {start final : State}
    (run : runChecked step (fun state action => decide (allowed state action)) start actions =
      some final) : Reaches step allowed start final :=
  runChecked_reaches _ (fun _ _ checked => of_decide_eq_true checked) actions start final run

theorem runChecked_unguarded {actions : List Action} {start final : State}
    (run : runChecked step (fun _ _ => true) start actions = some final) :
    Reaches step (fun _ _ => True) start final :=
  runChecked_reaches _ (fun _ _ _ => trivial) actions start final run

end Runs

end Pantheon.Lib
