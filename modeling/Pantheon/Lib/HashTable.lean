import Mathlib

/-!
# Hash tables from keys to the items that have them

`entry(key).or_default().push(item)` as a list of buckets.  Probing a table that
was built from a list gives the items of that key in the order of the list, so a
hash join is a filter; and which side it iterates over only permutes the pairs.
-/

set_option autoImplicit false

namespace Pantheon.Lib

namespace HashTable

variable {K A : Type} [DecidableEq K]

def push (key : K) (item : A) : List (K × List A) → List (K × List A)
  | [] => [(key, [item])]
  | bucket :: table =>
      if bucket.1 = key then (bucket.1, bucket.2 ++ [item]) :: table
      else bucket :: push key item table

def build (keyOf : A → Option K) (items : List A) : List (K × List A) :=
  items.foldl
    (fun table item =>
      match keyOf item with
      | some key => push key item table
      | none => table)
    []

def probe (table : List (K × List A)) (key : K) : Option (List A) :=
  (table.find? fun bucket => decide (bucket.1 = key)).map Prod.snd

theorem probe_push (key : K) (item : A) (other : K) : ∀ table : List (K × List A),
    (probe (push key item table) other).getD [] =
      (probe table other).getD [] ++ if other = key then [item] else [] := by
  intro table
  induction table with
  | nil =>
      by_cases same : other = key
      · simp [push, probe, same]
      · simp [push, probe, same, Ne.symm same]
  | cons bucket table ih =>
      unfold push
      by_cases here : bucket.1 = key
      · rw [if_pos here]
        by_cases same : other = key
        · simp [probe, here, same]
        · have elsewhere : ¬ bucket.1 = other := fun equal => same (equal.symm.trans here)
          simp [probe, elsewhere, same]
      · rw [if_neg here]
        by_cases found : bucket.1 = other
        · have different : ¬ other = key := fun equal => here (found.trans equal)
          simp [probe, found, different]
        · have skips : ∀ rest : List (K × List A),
              probe (bucket :: rest) other = probe rest other := by
            intro rest
            simp [probe, found]
          rw [skips, skips, ih]

theorem probe_foldl (keyOf : A → Option K) (key : K) : ∀ (items : List A)
    (table : List (K × List A)),
    (probe (items.foldl
      (fun table item =>
        match keyOf item with
        | some key => push key item table
        | none => table) table) key).getD [] =
      (probe table key).getD [] ++ items.filter fun item => decide (keyOf item = some key) := by
  intro items
  induction items with
  | nil => intro table; simp
  | cons item items ih =>
      intro table
      rw [List.foldl_cons, ih]
      cases keyed : keyOf item with
      | none => simp [keyed]
      | some itemKey =>
          simp only
          rw [probe_push]
          by_cases same : key = itemKey
          · simp [keyed, same]
          · simp [keyed, same, Ne.symm same]

/-- What a probe finds in a table built from a list. -/
theorem probe_build (keyOf : A → Option K) (items : List A) (key : K) :
    (probe (build keyOf items) key).getD [] =
      items.filter fun item => decide (keyOf item = some key) := by
  rw [build, probe_foldl]
  rfl

end HashTable

section Pairs

variable {A B C : Type}

/-- The combinations of the pairs that match, one left item after the other. -/
def joinLeft (matched : A → B → Bool) (combine : A → B → C) (left : List A) (right : List B) :
    List C :=
  left.flatMap fun item => (right.filter (matched item)).map (combine item)

def joinRight (matched : A → B → Bool) (combine : A → B → C) (left : List A) (right : List B) :
    List C :=
  right.flatMap fun item =>
    (left.filter fun other => matched other item).map fun other => combine other item

theorem flatMap_ite (hit : B → Bool) (result : B → C) (items : List B) :
    items.flatMap (fun item => if hit item then [result item] else []) =
      (items.filter hit).map result := by
  induction items with
  | nil => rfl
  | cons item items ih =>
      rw [List.flatMap_cons, ih]
      by_cases kept : hit item = true
      · simp [kept]
      · simp [kept]

theorem joinRight_perm (matched : A → B → Bool) (combine : A → B → C) (left : List A)
    (right : List B) :
    (joinRight matched combine left right).Perm (joinLeft matched combine left right) := by
  induction left with
  | nil => simp [joinRight, joinLeft]
  | cons head rest ih =>
      have split : joinRight matched combine (head :: rest) right =
          right.flatMap fun item => (if matched head item then [combine head item] else []) ++
            (rest.filter fun other => matched other item).map fun other => combine other item := by
        refine congrArg right.flatMap (funext fun item => ?_)
        by_cases hit : matched head item = true
        · simp [hit]
        · simp [hit]
      rw [split]
      refine (List.flatMap_append_perm right _ _).symm.trans ?_
      rw [flatMap_ite]
      exact List.Perm.append_left _ ih

theorem joinLeft_congr {matched matched' : A → B → Bool} {combine : A → B → C} {left : List A}
    {right : List B}
    (same : ∀ item ∈ left, ∀ other ∈ right, matched item other = matched' item other) :
    joinLeft matched combine left right = joinLeft matched' combine left right := by
  refine List.flatMap_congr fun item member => ?_
  rw [List.filter_congr fun other otherMember => same item member other otherMember]

end Pairs

end Pantheon.Lib
