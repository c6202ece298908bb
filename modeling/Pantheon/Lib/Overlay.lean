import Mathlib

/-!
# Rows under a layer of writes

A layer says of each key nothing, a new value, or a deletion.
-/

set_option autoImplicit false

namespace Pantheon.Lib

variable {K V : Type}

def overlay (writes : K → Option (Option V)) (rows : K → Option V) : K → Option V :=
  fun key => (writes key).getD (rows key)

theorem overlay_none {writes : K → Option (Option V)} {key : K} (unwritten : writes key = none)
    (rows : K → Option V) : overlay writes rows key = rows key := by
  rw [overlay, unwritten, Option.getD_none]

theorem overlay_some {writes : K → Option (Option V)} {key : K} {value : Option V}
    (written : writes key = some value) (rows : K → Option V) :
    overlay writes rows key = value := by
  rw [overlay, written, Option.getD_some]

section LastWrite

variable [DecidableEq K]

def lastWrite (writes : List (K × Option V)) (key : K) : Option V :=
  writes.foldl (fun held write => if write.1 = key then write.2 else held) none

@[simp] theorem lastWrite_nil (key : K) : lastWrite ([] : List (K × Option V)) key = none := rfl

theorem lastWrite_append_single (writes : List (K × Option V)) (write : K × Option V) (key : K) :
    lastWrite (writes ++ [write]) key = if write.1 = key then write.2 else lastWrite writes key :=
  List.foldl_concat _ _ _ _

theorem mem_of_lastWrite {writes : List (K × Option V)} {key : K} {value : V}
    (held : lastWrite writes key = some value) : (key, some value) ∈ writes := by
  induction writes using List.reverseRecOn with
  | nil => cases held
  | append_singleton writes write ih =>
      rw [lastWrite_append_single] at held
      apply List.mem_append.mpr
      split_ifs at held with same
      · rw [← same, ← held]
        exact Or.inr List.mem_cons_self
      · exact Or.inl (ih held)

end LastWrite

end Pantheon.Lib
