import Mathlib

/-!
# Breadth-first search

A search keeps the vertices it is done with and a queue of those it has found, each with a
number of hops.  `Search` says what the two lists hold between two turns; taking the first
vertex of the queue keeps it, and it makes the numbers distances.  `Linked` says the same of
back pointers, which then lead to the start.
-/

set_option autoImplicit false

namespace Pantheon.Lib

section Distances

variable {V : Type} (next : V → V → Prop) (start : V)

inductive Hops : Nat → V → Prop where
  | here : Hops 0 start
  | step {count : Nat} {one other : V} (before : Hops count one) (edge : next one other) :
      Hops (count + 1) other

structure IsDistance (vertex : V) (count : Nat) : Prop where
  hops : Hops next start count vertex
  least : ∀ other, Hops next start other vertex → count ≤ other

/-- A sequence of adjacent vertices between two ends, as short as any. -/
structure ShortestPath (last : V) (path : List V) : Prop where
  first : path.head? = some start
  final : path.getLast? = some last
  adjacent : path.IsChain next
  shortest : IsDistance next start last (path.length - 1)

variable {next start}

theorem Hops.reaches {count : Nat} {vertex : V} (hops : Hops next start count vertex) :
    Relation.ReflTransGen next start vertex := by
  induction hops with
  | here => exact Relation.ReflTransGen.refl
  | step _ edge ih => exact ih.tail edge

theorem exists_hops_iff {vertex : V} :
    (∃ count, Hops next start count vertex) ↔ Relation.ReflTransGen next start vertex := by
  constructor
  · rintro ⟨count, hops⟩
    exact hops.reaches
  · intro reached
    induction reached with
    | refl => exact ⟨0, Hops.here⟩
    | tail _ edge ih =>
        obtain ⟨count, hops⟩ := ih
        exact ⟨count + 1, hops.step edge⟩

end Distances

section Fresh

variable {V : Type} [DecidableEq V]

/-- The names that have not been seen, each once, in their order. -/
def fresh (seen : Finset V) : List V → List V
  | [] => []
  | name :: rest => if name ∈ seen then fresh seen rest else name :: fresh (insert name seen) rest

theorem mem_fresh (names : List V) (vertex : V) : ∀ seen : Finset V,
    vertex ∈ fresh seen names ↔ vertex ∈ names ∧ vertex ∉ seen := by
  induction names with
  | nil => intro seen; simp [fresh]
  | cons name rest ih =>
      intro seen
      rw [fresh]
      split_ifs with known
      · rw [ih, List.mem_cons]
        constructor
        · rintro ⟨later, unseen⟩
          exact ⟨Or.inr later, unseen⟩
        · rintro ⟨rfl | later, unseen⟩
          · exact absurd known unseen
          · exact ⟨later, unseen⟩
      · rw [List.mem_cons, ih, List.mem_cons, Finset.mem_insert]
        by_cases same : vertex = name
        · subst same
          simp [known]
        · simp [same]

theorem nodup_fresh (names : List V) : ∀ seen : Finset V, (fresh seen names).Nodup := by
  induction names with
  | nil => intro seen; exact List.nodup_nil
  | cons name rest ih =>
      intro seen
      rw [fresh]
      split_ifs with known
      · exact ih seen
      · refine List.nodup_cons.mpr ⟨fun again => ?_, ih _⟩
        exact ((mem_fresh _ _ _).mp again).2 (Finset.mem_insert_self _ _)

end Fresh

section Search

variable {V : Type}

/-- Between two turns: `out` holds the vertices that have been taken, those at an `expanded`
depth with all their successors found, and the depths of the queue differ by one at most. -/
structure Search (next : V → V → Prop) (start : V) (expanded : Nat → Prop)
    (out queue : List (V × Nat)) : Prop where
  distinct : ((out ++ queue).map Prod.fst).Nodup
  rising : ((out ++ queue).map Prod.snd).Pairwise (· ≤ ·)
  near : ∀ one ∈ queue, ∀ other ∈ out ++ queue, other.2 ≤ one.2 + 1
  hops : ∀ entry ∈ out ++ queue, Hops next start entry.2 entry.1
  within : ∀ vertex count, (vertex, count + 1) ∈ out ++ queue → expanded count
  started : (start, 0) ∈ out ++ queue
  closed : ∀ entry ∈ out, expanded entry.2 → ∀ other, next entry.1 other →
    ∃ count ≤ entry.2 + 1, (other, count) ∈ out ++ queue

variable {next : V → V → Prop} {start : V} {expanded : Nat → Prop} {out queue : List (V × Nat)}

theorem search_start : Search next start expanded [] [(start, 0)] where
  distinct := List.nodup_singleton _
  rising := List.pairwise_singleton _ _
  near := by
    intro one inside other listed
    rw [List.mem_singleton.mp listed]
    exact Nat.zero_le _
  hops := by
    intro entry inside
    rw [List.mem_singleton.mp inside]
    exact Hops.here
  within := by
    intro vertex count inside
    have same := congrArg Prod.snd (List.mem_singleton.mp inside)
    exact absurd same (Nat.succ_ne_zero count)
  started := List.mem_singleton_self _
  closed := fun _ inside => absurd inside List.not_mem_nil

section Step

variable {vertex : V} {depth : Nat} {rest : List (V × Nat)} {found : List V}

theorem found_after :
    (out ++ [(vertex, depth)]) ++ (rest ++ found.map fun one => (one, depth + 1)) =
    (out ++ (vertex, depth) :: rest) ++ found.map fun one => (one, depth + 1) := by
  simp only [List.append_assoc, List.cons_append, List.nil_append]

/-- The first vertex of the queue is taken: what it adds is one hop further and new, and it adds
whatever was still missing. -/
theorem Search.step (search : Search next start expanded out ((vertex, depth) :: rest))
    (once : found.Nodup)
    (added : ∀ one ∈ found, expanded depth ∧ next vertex one ∧
      one ∉ (out ++ (vertex, depth) :: rest).map Prod.fst)
    (complete : expanded depth → ∀ one, next vertex one →
      one ∈ found ∨ one ∈ (out ++ (vertex, depth) :: rest).map Prod.fst) :
    Search next start expanded (out ++ [(vertex, depth)])
      (rest ++ found.map fun one => (one, depth + 1)) := by
  have head : (vertex, depth) ∈ (vertex, depth) :: rest := List.mem_cons_self
  have listed : (vertex, depth) ∈ out ++ (vertex, depth) :: rest := List.mem_append_right _ head
  have low (entry : V × Nat) (before : entry ∈ out ++ (vertex, depth) :: rest) :
      entry.2 ≤ depth + 1 := search.near _ head entry before
  -- the depths behind the first are at least its own
  have high (entry : V × Nat) (behind : entry ∈ rest) : depth ≤ entry.2 := by
    have rising := search.rising
    rw [List.map_append, List.map_cons, List.pairwise_append] at rising
    exact List.rel_of_pairwise_cons rising.2.1 (List.mem_map_of_mem behind)
  have new (entry : V × Nat) (inside : entry ∈ found.map fun one => (one, depth + 1)) :
      entry.1 ∈ found ∧ entry.2 = depth + 1 := by
    obtain ⟨one, chosen, rfl⟩ := List.mem_map.mp inside
    exact ⟨chosen, rfl⟩
  have keep (entry : V × Nat) (before : entry ∈ out ++ (vertex, depth) :: rest) :
      entry ∈ (out ++ (vertex, depth) :: rest) ++ found.map fun one => (one, depth + 1) :=
    List.mem_append_left _ before
  constructor
  · rw [found_after, List.map_append, List.map_map]
    refine List.nodup_append.mpr ⟨search.distinct, ?_, ?_⟩
    · exact (List.map_id found).symm ▸ once
    · intro one before other inside same
      obtain ⟨_, chosen, rfl⟩ := List.mem_map.mp inside
      rw [same] at before
      exact (added _ chosen).2.2 before
  · rw [found_after, List.map_append, List.pairwise_append]
    refine ⟨search.rising, ?_, ?_⟩
    · rw [List.map_map]
      exact List.pairwise_map.mpr (List.pairwise_of_forall fun _ _ => le_rfl)
    · intro one before other inside
      obtain ⟨entry, earlier, rfl⟩ := List.mem_map.mp before
      obtain ⟨last, chosen, rfl⟩ := List.mem_map.mp inside
      rw [(new last chosen).2]
      exact low entry earlier
  · intro one waiting other inside
    rw [found_after] at inside
    have least : depth ≤ one.2 := by
      rcases List.mem_append.mp waiting with behind | last
      · exact high one behind
      · exact (new one last).2 ▸ Nat.le_succ depth
    have most : other.2 ≤ depth + 1 := by
      rcases List.mem_append.mp inside with before | last
      · exact low other before
      · exact (new other last).2.le
    exact most.trans (Nat.succ_le_succ least)
  · intro entry inside
    rw [found_after] at inside
    rcases List.mem_append.mp inside with before | last
    · exact search.hops entry before
    · obtain ⟨last, number⟩ := new entry last
      rw [number]
      exact (search.hops _ listed).step (added _ last).2.1
  · intro one count inside
    rw [found_after] at inside
    rcases List.mem_append.mp inside with before | last
    · exact search.within one count before
    · obtain ⟨last, number⟩ := new _ last
      rw [Nat.succ.inj number]
      exact (added _ last).1
  · rw [found_after]
    exact keep _ search.started
  · intro entry inside opened other edge
    rw [found_after]
    rcases List.mem_append.mp inside with before | last
    · obtain ⟨count, bound, inside⟩ := search.closed entry before opened other edge
      exact ⟨count, bound, keep _ inside⟩
    · rw [List.mem_singleton.mp last] at opened edge ⊢
      rcases complete opened other edge with new | before
      · exact ⟨depth + 1, le_rfl, List.mem_append_right _ (List.mem_map.mpr ⟨other, new, rfl⟩)⟩
      · obtain ⟨⟨_, count⟩, earlier, rfl⟩ := List.mem_map.mp before
        exact ⟨count, low _ earlier, keep _ earlier⟩

/-- A vertex that is not expanded is only moved. -/
theorem Search.pass (search : Search next start expanded out ((vertex, depth) :: rest))
    (shut : ¬expanded depth) : Search next start expanded (out ++ [(vertex, depth)]) rest := by
  have moved := @Search.step V next start expanded out vertex depth rest [] search
    List.nodup_nil (fun _ inside => absurd inside List.not_mem_nil)
    (fun opened => absurd opened shut)
  rwa [List.map_nil, List.append_nil] at moved

end Step

/-- Up to the lowest depth of the queue every vertex has been found. -/
theorem Search.found (search : Search next start expanded out queue) (floor : Nat)
    (above : ∀ entry ∈ queue, floor ≤ entry.2) {count : Nat} {vertex : V}
    (hops : Hops next start count vertex) (small : count ≤ floor)
    (opened : ∀ depth < count, expanded depth) :
    ∃ depth ≤ count, (vertex, depth) ∈ out ++ queue := by
  induction hops with
  | here => exact ⟨0, le_rfl, search.started⟩
  | @step count one other _ edge ih =>
      obtain ⟨depth, bound, inside⟩ := ih (Nat.le_of_succ_le small)
        (fun depth below => opened depth (Nat.lt_succ_of_lt below))
      have taken : (one, depth) ∈ out := by
        refine (List.mem_append.mp inside).resolve_right fun waiting => ?_
        have high := above _ waiting
        dsimp only at high
        omega
      obtain ⟨number, least, inside⟩ := search.closed _ taken
        (opened depth (Nat.lt_succ_of_le bound)) other edge
      dsimp only at least
      exact ⟨number, by omega, inside⟩

theorem Search.unique (search : Search next start expanded out queue) {vertex : V}
    {one other : Nat} (first : (vertex, one) ∈ out ++ queue)
    (second : (vertex, other) ∈ out ++ queue) : one = other :=
  congrArg Prod.snd (List.inj_on_of_nodup_map search.distinct first second rfl)

/-- The depth of a vertex is its distance as soon as it has been found. -/
theorem Search.distance (search : Search next start expanded out queue)
    (down : ∀ one other, one ≤ other → expanded other → expanded one) {vertex : V} {depth : Nat}
    (inside : (vertex, depth) ∈ out ++ queue) : IsDistance next start vertex depth := by
  refine ⟨search.hops _ inside, fun count hops => ?_⟩
  by_contra fewer
  have opened (one : Nat) (below : one < count) : expanded one := by
    obtain ⟨last, rfl⟩ : ∃ last, depth = last + 1 := ⟨depth - 1, by omega⟩
    exact down one last (by omega) (search.within _ _ inside)
  obtain ⟨number, least, again⟩ := search.found count (fun entry waiting => by
    have near := search.near entry waiting _ inside
    dsimp only at near
    omega) hops le_rfl opened
  have same := search.unique inside again
  omega

/-- A search finds no more than the start and the vertices that edges lead to. -/
theorem Search.length_le [DecidableEq V] (search : Search next start expanded out queue)
    (targets : Finset V) (bounded : ∀ one other, next one other → other ∈ targets) :
    (out ++ queue).length ≤ targets.card + 1 := by
  have within : ((out ++ queue).map Prod.fst).toFinset ⊆ insert start targets := by
    intro vertex listed
    obtain ⟨⟨_, count⟩, inside, rfl⟩ := List.mem_map.mp (List.mem_toFinset.mp listed)
    cases search.hops _ inside with
    | here => exact Finset.mem_insert_self _ _
    | step _ edge => exact Finset.mem_insert_of_mem (bounded _ _ edge)
  have fewer := Finset.card_le_card within
  rw [List.toFinset_card_of_nodup search.distinct, List.length_map] at fewer
  exact fewer.trans (Finset.card_insert_le _ _)

/-- Once the queue is empty the list holds every vertex at its distance, as far as depths are
expanded. -/
theorem Search.finished (search : Search next start expanded out [])
    (down : ∀ one other, one ≤ other → expanded other → expanded one) (vertex : V) (depth : Nat) :
    (vertex, depth) ∈ out ↔
      IsDistance next start vertex depth ∧ ∀ one < depth, expanded one := by
  have all : out ++ [] = out := List.append_nil out
  constructor
  · intro inside
    rw [← all] at inside
    refine ⟨search.distance down inside, fun one below => ?_⟩
    obtain ⟨last, rfl⟩ : ∃ last, depth = last + 1 := ⟨depth - 1, by omega⟩
    exact down one last (by omega) (search.within _ _ inside)
  · rintro ⟨distance, opened⟩
    obtain ⟨number, least, inside⟩ := search.found depth
      (fun _ waiting => absurd waiting List.not_mem_nil) distance.hops le_rfl opened
    have same : number = depth :=
      Nat.le_antisymm least (distance.least _ (search.hops _ inside))
    rwa [same, all] at inside

end Search

section BackPointers

variable {V : Type}

def follow (previous : V → Option V) : Nat → V → List V → Option (List V)
  | 0, _, _ => none
  | fuel + 1, current, path =>
      match previous current with
      | some before => follow previous fuel before (path ++ [before])
      | none => some path

/-- Every vertex that has been found, the start apart, points to one found a hop earlier. -/
structure Linked (next : V → V → Prop) (start : V) (previous : V → Option V)
    (found : List (V × Nat)) : Prop where
  first : previous start = none
  back : ∀ vertex count, (vertex, count + 1) ∈ found →
    ∃ one, previous vertex = some one ∧ next one vertex ∧ (one, count) ∈ found

variable {next : V → V → Prop} {start : V} {previous : V → Option V} {found : List (V × Nat)}

theorem linked_start : Linked next start (fun _ => none) [(start, 0)] where
  first := rfl
  back := by
    intro vertex count inside
    have same := congrArg Prod.snd (List.mem_singleton.mp inside)
    exact absurd same (Nat.succ_ne_zero count)

/-- The pointers go through all smaller depths, so a depth is less than the number of vertices. -/
theorem Linked.depth_lt (linked : Linked next start previous found) {vertex : V} {count : Nat}
    (inside : (vertex, count) ∈ found) : count < found.length := by
  have all : ∀ (depth : Nat) (one : V), (one, depth) ∈ found → ∀ less ≤ depth,
      less ∈ found.map Prod.snd := by
    intro depth
    induction depth with
    | zero =>
        intro one listed less below
        rw [Nat.le_zero.mp below]
        exact List.mem_map_of_mem (f := Prod.snd) listed
    | succ depth ih =>
        intro one listed less below
        rcases Nat.lt_or_eq_of_le below with smaller | same
        · obtain ⟨before, _, _, there⟩ := linked.back one depth listed
          exact ih before there less (Nat.le_of_lt_succ smaller)
        · rw [same]
          exact List.mem_map_of_mem (f := Prod.snd) listed
  have covered : Finset.range (count + 1) ⊆ (found.map Prod.snd).toFinset := by
    intro less below
    exact List.mem_toFinset.mpr
      (all count vertex inside less (Nat.le_of_lt_succ (Finset.mem_range.mp below)))
  have fewer := (Finset.card_le_card covered).trans (List.toFinset_card_le _)
  rwa [Finset.card_range, List.length_map] at fewer

variable [DecidableEq V]

def pointAll (previous : V → Option V) (names : List V) (target : V) (vertex : V) : Option V :=
  if vertex ∈ names then some target else previous vertex

theorem Linked.step (linked : Linked next start previous found) {vertex : V} {depth : Nat}
    (inside : (vertex, depth) ∈ found) (started : (start, 0) ∈ found) {names : List V}
    (added : ∀ one ∈ names, next vertex one ∧ one ∉ found.map Prod.fst) :
    Linked next start (pointAll previous names vertex)
      (found ++ names.map fun one => (one, depth + 1)) := by
  have old (entry : V × Nat) (before : entry ∈ found) :
      pointAll previous names vertex entry.1 = previous entry.1 :=
    if_neg fun new => (added _ new).2 (List.mem_map_of_mem before)
  constructor
  · exact (old _ started).trans linked.first
  · intro one count listed
    rcases List.mem_append.mp listed with before | new
    · obtain ⟨earlier, points, edge, there⟩ := linked.back one count before
      exact ⟨earlier, (old _ before).trans points, edge, List.mem_append_left _ there⟩
    · obtain ⟨_, chosen, same⟩ := List.mem_map.mp new
      obtain ⟨rfl, number⟩ := Prod.mk.inj same
      refine ⟨vertex, if_pos chosen, (added _ chosen).1, List.mem_append_left _ ?_⟩
      rwa [← Nat.succ.inj number]

omit [DecidableEq V] in
/-- The pointers lead back to the start in as many hops as the vertex is away. -/
theorem Linked.follow (linked : Linked next start previous found)
    (only : ∀ vertex, (vertex, 0) ∈ found → vertex = start) :
    ∀ (count fuel : Nat) (vertex : V) (path : List V), (vertex, count) ∈ found → count < fuel →
      ∃ trail, Lib.follow previous fuel vertex path = some (path ++ trail) ∧
        trail.length = count ∧ (vertex :: trail).IsChain (fun one other => next other one) ∧
        (vertex :: trail).getLast? = some start := by
  intro count
  induction count with
  | zero =>
      intro fuel vertex path inside enough
      obtain ⟨fuel, rfl⟩ : ∃ less, fuel = less + 1 := ⟨fuel - 1, by omega⟩
      obtain rfl := only vertex inside
      refine ⟨[], ?_, rfl, List.isChain_singleton _, rfl⟩
      rw [Lib.follow, linked.first, List.append_nil]
  | succ count ih =>
      intro fuel vertex path inside enough
      obtain ⟨fuel, rfl⟩ : ∃ less, fuel = less + 1 := ⟨fuel - 1, by omega⟩
      obtain ⟨one, points, edge, before⟩ := linked.back vertex count inside
      obtain ⟨trail, followed, length, chain, last⟩ :=
        ih fuel one (path ++ [one]) before (by omega)
      refine ⟨one :: trail, ?_, congrArg Nat.succ length, ?_, ?_⟩
      · rw [Lib.follow, points]
        dsimp only
        rw [followed, List.append_assoc]
        rfl
      · exact List.isChain_cons_cons.mpr ⟨edge, chain⟩
      · rw [List.getLast?_cons_cons]
        exact last

end BackPointers

end Pantheon.Lib
