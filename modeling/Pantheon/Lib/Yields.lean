import Mathlib

/-!
# What an answer satisfies

A computation that may end without an answer yields a property when each answer it
gives has it, and is included in another when that gives each of its answers too.
The rules follow the way the computation is put together.
-/

set_option autoImplicit false

namespace Pantheon.Lib

variable {α β : Type}

def Yields (good : α → Prop) (run : Option α) : Prop := ∀ answer, run = some answer → good answer

namespace Yields

variable {good : α → Prop} {better : β → Prop}

theorem none : Yields good none := by
  intro answer run
  cases run

theorem some {answer : α} (holds : good answer) : Yields good (some answer) := by
  intro other run
  exact Option.some.inj run ▸ holds

theorem bind {run : Option α} {next : α → Option β} (first : Yields good run)
    (second : ∀ {answer}, good answer → Yields better (next answer)) :
    Yields better (run.bind next) := by
  intro answer whole
  obtain ⟨middle, found, rest⟩ := Option.bind_eq_some_iff.mp whole
  exact second (first middle found) answer rest

/-- Nothing is asked of the first answer. -/
theorem after {run : Option α} {next : α → Option β}
    (second : ∀ {answer}, Yields better (next answer)) : Yields better (run.bind next) :=
  bind (fun _ _ => trivial) fun (_ : True) => second

theorem map {run : Option α} {change : α → β} (first : Yields good run)
    (kept : ∀ {answer}, good answer → better (change answer)) : Yields better (run.map change) := by
  intro answer whole
  obtain ⟨middle, found, rfl⟩ := Option.map_eq_some_iff.mp whole
  exact kept (first middle found)

theorem mapped {run : Option α} {change : α → β} (holds : ∀ {answer}, better (change answer)) :
    Yields better (run.map change) := map (fun _ _ => trivial) fun (_ : True) => holds

end Yields

/-! ## Computations included in another -/

/-- What the one computes, the other computes as well. -/
def Included (run other : Option α) : Prop := Yields (fun answer => other = some answer) run

namespace Included

theorem refl (run : Option α) : Included run run := fun _ found => found

theorem bind {run other : Option α} {next next' : α → Option β} (first : Included run other)
    (second : ∀ answer, Included (next answer) (next' answer)) :
    Included (run.bind next) (other.bind next') := by
  refine Yields.bind first fun {answer} found => ?_
  rw [found]
  exact second answer

theorem map {run other : Option α} {change : α → β} (first : Included run other) :
    Included (run.map change) (other.map change) := by
  refine Yields.map first fun {answer} found => ?_
  rw [found, Option.map_some]

end Included

end Pantheon.Lib
