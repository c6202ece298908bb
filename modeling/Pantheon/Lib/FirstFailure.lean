import Mathlib
import Pantheon.Lib.OrdMap

/-!
# Steps up to the first failure

A list of steps is taken one after another until one of them fails.  What failed at some
place has run the steps in front of it.
-/

set_option autoImplicit false

namespace Pantheon.Lib

section Steps

variable {State Error : Type}

def runSteps : List (State → State × Except Error Unit) → State → State × Except Error Unit
  | [], state => (state, .ok ())
  | step :: steps, state =>
      match step state with
      | (state, .error error) => (state, .error error)
      | (state, .ok ()) => runSteps steps state

variable {steps : List (State → State × Except Error Unit)} {start current final : State}
  {error : Error}

theorem runSteps_cons_ok {step : State → State × Except Error Unit}
    (ran : step start = (current, .ok ())) :
    runSteps (step :: steps) start = runSteps steps current := by
  rw [runSteps, ran]

/-- A run that goes through has a state behind its first step. -/
theorem runSteps_cons_eq_ok {step : State → State × Except Error Unit}
    (ran : runSteps (step :: steps) start = (final, .ok ())) :
    ∃ next, step start = (next, .ok ()) ∧ runSteps steps next = (final, .ok ()) := by
  rw [runSteps] at ran
  cases stepped : step start with
  | mk next result =>
      rw [stepped] at ran
      cases result with
      | error error => cases ran
      | ok => exact ⟨next, rfl, ran⟩

/-- The step at `number` fails in the state that the steps in front of it lead to. -/
structure FailsAt (steps : List (State → State × Except Error Unit)) (start : State)
    (number : Nat) (current final : State) (error : Error) : Prop where
  front : runSteps (steps.take number) start = (current, .ok ())
  failed : ∃ step, steps[number]? = some step ∧ step current = (final, .error error)

theorem FailsAt.outcome : ∀ {steps : List (State → State × Except Error Unit)} {start : State}
    {number : Nat}, FailsAt steps start number current final error →
      runSteps steps start = (final, .error error) := by
  intro steps
  induction steps with
  | nil =>
      rintro start number ⟨_, step, there, _⟩
      cases there
  | cons step steps ih =>
      rintro start number ⟨front, other, there, failed⟩
      cases number with
      | zero =>
          cases front
          cases there
          rw [runSteps, failed]
      | succ number =>
          rw [List.take_succ_cons] at front
          obtain ⟨next, stepped, rest⟩ := runSteps_cons_eq_ok front
          rw [runSteps_cons_ok stepped]
          exact ih ⟨rest, other, there, failed⟩

theorem exists_failsAt : ∀ {steps : List (State → State × Except Error Unit)} {start : State},
    runSteps steps start = (final, .error error) →
      ∃ number current, FailsAt steps start number current final error := by
  intro steps
  induction steps with
  | nil =>
      intro start ran
      cases ran
  | cons step steps ih =>
      intro start ran
      cases stepped : step start with
      | mk next result =>
          cases result with
          | error failure =>
              rw [runSteps, stepped] at ran
              cases ran
              exact ⟨0, start, rfl, step, rfl, stepped⟩
          | ok =>
              rw [runSteps_cons_ok stepped] at ran
              obtain ⟨number, current, front, failed⟩ := ih ran
              refine ⟨number + 1, current, ?_, failed⟩
              rw [List.take_succ_cons, runSteps_cons_ok stepped]
              exact front

end Steps

/-! ## Writes that are staged one after another -/

namespace OrdMap

variable {K V : Type} [LinearOrder K]

def insertAll (map : OrdMap K V) (writes : List (K × V)) : OrdMap K V :=
  writes.foldl (fun map write => map.insert write.1 write.2) map

@[simp] theorem insertAll_nil (map : OrdMap K V) : map.insertAll [] = map := rfl

theorem insertAll_append (map : OrdMap K V) (front back : List (K × V)) :
    map.insertAll (front ++ back) = (map.insertAll front).insertAll back :=
  List.foldl_append

/-- The writes go over what was there. -/
theorem get?_insertAll (map : OrdMap K V) (writes : List (K × V)) (key : K) :
    (map.insertAll writes).get? key =
      ((empty.insertAll writes).get? key).or (map.get? key) := by
  induction writes using List.reverseRecOn with
  | nil => rfl
  | append_singleton writes write ih =>
      have single : ∀ map : OrdMap K V, map.insertAll [write] = map.insert write.1 write.2 :=
        fun map => rfl
      rw [insertAll_append, insertAll_append, single, single, get?_insert, get?_insert, ih]
      by_cases same : key = write.1
      · rw [if_pos same, if_pos same, Option.some_or]
      · rw [if_neg same, if_neg same]

theorem mem_of_get?_insertAll {writes : List (K × V)} {key : K} {value : V}
    (written : (empty.insertAll writes).get? key = some value) : (key, value) ∈ writes := by
  induction writes using List.reverseRecOn with
  | nil => cases written
  | append_singleton writes write ih =>
      have single : (empty.insertAll (writes ++ [write])).get? key =
          if key = write.1 then some write.2 else (empty.insertAll writes).get? key := by
        rw [insertAll_append]
        exact get?_insert _ _ _ _
      rw [single] at written
      split_ifs at written with same
      · cases written
        exact List.mem_append_right _ (List.mem_singleton.mpr (Prod.ext same rfl))
      · exact List.mem_append_left _ (ih written)

theorem ext_get? {left right : OrdMap K V} (same : ∀ key, left.get? key = right.get? key) :
    left = right := by
  have lists : left.toList = right.toList := by
    apply sorted_ext left.sorted right.sorted
    intro entry
    rw [← get?_eq_some left entry.1 entry.2, ← get?_eq_some right entry.1 entry.2, same]
  cases left
  cases right
  cases lists
  rfl

/-- Writes change nothing exactly when the last one to each key is there already. -/
theorem insertAll_eq_self_iff (map : OrdMap K V) (writes : List (K × V)) :
    map.insertAll writes = map ↔
      ∀ key value, (empty.insertAll writes).get? key = some value → map.get? key = some value := by
  constructor
  · intro same key value written
    rw [← same, get?_insertAll, written, Option.some_or]
  · intro there
    apply ext_get?
    intro key
    rw [get?_insertAll]
    cases written : (empty.insertAll writes).get? key with
    | none => exact Option.none_or
    | some value => rw [Option.some_or, there key value written]

end OrdMap

end Pantheon.Lib
