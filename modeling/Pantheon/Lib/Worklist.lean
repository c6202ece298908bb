import Mathlib

/-!
# Reachability by a work list

A graph is a list of edges.  The walk takes a vertex off a stack, records its
direct successors that have not been seen and puts these on the stack; it ends
with exactly the vertices that one edge or more lead to.  Also here: which edge
may join a graph without closing a cycle.
-/

set_option autoImplicit false

namespace Pantheon.Lib

section Walk

variable {V : Type} [DecidableEq V]

def direct (edges : List (V × V)) (vertex : V) : List V :=
  (edges.filter fun edge => decide (edge.1 = vertex)).map Prod.snd

/-- The recorded vertices, and those among them that are still to be visited. -/
def discover (state : List V × List V) (vertex : V) : List V × List V :=
  if vertex ∈ state.1 then state else (state.1 ++ [vertex], vertex :: state.2)

def unseen (edges : List (V × V)) (result : List V) : Finset V :=
  (edges.map Prod.snd).toFinset \ result.toFinset

theorem mem_direct {edges : List (V × V)} {one other : V} :
    other ∈ direct edges one ↔ (one, other) ∈ edges := by
  unfold direct
  constructor
  · intro member
    obtain ⟨edge, inside, rfl⟩ := List.mem_map.mp member
    obtain ⟨inside, same⟩ := List.mem_filter.mp inside
    rwa [← of_decide_eq_true same]
  · intro member
    exact List.mem_map.mpr ⟨(one, other), List.mem_filter.mpr ⟨member, decide_eq_true rfl⟩, rfl⟩

theorem discover_measure (edges : List (V × V)) (vertices : List V)
    (targets : ∀ vertex ∈ vertices, vertex ∈ edges.map Prod.snd) :
    ∀ state : List V × List V,
      2 * (unseen edges (vertices.foldl discover state).1).card +
          (vertices.foldl discover state).2.length ≤
        2 * (unseen edges state.1).card + state.2.length := by
  induction vertices with
  | nil => intro state; exact le_rfl
  | cons vertex rest ih =>
      intro state
      apply (ih (fun other member => targets other (List.mem_cons_of_mem _ member)) _).trans
      unfold discover
      split_ifs with seen
      · exact le_rfl
      · have target := targets vertex List.mem_cons_self
        have member : vertex ∈ unseen edges state.1 := by
          simp only [unseen, Finset.mem_sdiff, List.mem_toFinset]
          exact ⟨target, seen⟩
        have fewer : unseen edges (state.1 ++ [vertex]) = (unseen edges state.1).erase vertex := by
          ext other
          simp only [unseen, Finset.mem_sdiff, List.mem_toFinset, Finset.mem_erase,
            List.mem_append, List.mem_singleton]
          tauto
        have some := Finset.card_pos.mpr ⟨vertex, member⟩
        rw [fewer, Finset.card_erase_of_mem member, List.length_cons]
        omega

def walk (edges : List (V × V)) (result frontier : List V) : List V :=
  match frontier with
  | [] => result
  | current :: rest =>
      let state := (direct edges current).foldl discover (result, rest)
      walk edges state.1 state.2
termination_by 2 * (unseen edges result).card + frontier.length
decreasing_by
  have smaller := discover_measure edges (direct edges current)
    (fun vertex member => List.mem_map.mpr ⟨(current, vertex), mem_direct.mp member, rfl⟩)
    (result, rest)
  rw [List.length_cons]
  exact Nat.lt_succ_of_le smaller

theorem mem_discover_result (vertices : List V) (vertex : V) : ∀ state : List V × List V,
    vertex ∈ (vertices.foldl discover state).1 ↔ vertex ∈ state.1 ∨ vertex ∈ vertices := by
  induction vertices with
  | nil => intro state; simp
  | cons first rest ih =>
      intro state
      rw [List.foldl_cons, ih, List.mem_cons]
      unfold discover
      split_ifs with seen
      · constructor
        · tauto
        · rintro (member | rfl | member)
          · exact Or.inl member
          · exact Or.inl seen
          · exact Or.inr member
      · simp only [List.mem_append, List.mem_singleton]
        tauto

theorem mem_discover_frontier (vertices : List V) (vertex : V) : ∀ state : List V × List V,
    vertex ∈ (vertices.foldl discover state).2 ↔
      vertex ∈ state.2 ∨ vertex ∈ vertices ∧ vertex ∉ state.1 := by
  induction vertices with
  | nil => intro state; simp
  | cons first rest ih =>
      intro state
      rw [List.foldl_cons, ih, List.mem_cons]
      unfold discover
      split_ifs with seen
      · constructor
        · tauto
        · rintro (member | ⟨rfl | member, fresh⟩)
          · exact Or.inl member
          · exact absurd seen fresh
          · exact Or.inr ⟨member, fresh⟩
      · simp only [List.mem_append, List.mem_cons]
        by_cases same : vertex = first
        · subst same
          tauto
        · tauto

theorem nodup_discover (vertices : List V) : ∀ state : List V × List V, state.1.Nodup →
    (vertices.foldl discover state).1.Nodup := by
  induction vertices with
  | nil => intro state nodup; exact nodup
  | cons first rest ih =>
      intro state nodup
      apply ih
      unfold discover
      split_ifs with seen
      · exact nodup
      · apply List.nodup_append.mpr
        refine ⟨nodup, List.nodup_singleton _, ?_⟩
        intro vertex member other last same
        exact seen (List.mem_singleton.mp last ▸ same ▸ member)

/-- What the walk has found from `start`: every vertex that is not on the stack has been
visited. -/
structure Explored (edges : List (V × V)) (start : V) (result frontier : List V) : Prop where
  nodup : result.Nodup
  sound : ∀ vertex ∈ result, Relation.TransGen (fun one other => (one, other) ∈ edges) start vertex
  known : ∀ vertex ∈ frontier, vertex = start ∨ vertex ∈ result
  visited : ∀ vertex, vertex = start ∨ vertex ∈ result → vertex ∉ frontier →
    ∀ next ∈ direct edges vertex, next ∈ result

variable {edges : List (V × V)} {start : V}

theorem explored_start : Explored edges start [] [start] := by
  constructor
  · exact List.nodup_nil
  · intro vertex member
    cases member
  · intro vertex member
    exact Or.inl (List.mem_singleton.mp member)
  · intro vertex known unvisited
    rcases known with rfl | member
    · exact absurd (List.mem_singleton_self _) unvisited
    · cases member

theorem Explored.visit {result rest : List V} {current : V}
    (explored : Explored edges start result (current :: rest)) :
    Explored edges start ((direct edges current).foldl discover (result, rest)).1
      ((direct edges current).foldl discover (result, rest)).2 := by
  constructor
  · exact nodup_discover _ _ explored.nodup
  · intro vertex member
    rcases (mem_discover_result _ _ _).mp member with member | member
    · exact explored.sound vertex member
    · have edge := mem_direct.mp member
      rcases explored.known current List.mem_cons_self with rfl | found
      · exact Relation.TransGen.single edge
      · exact (explored.sound current found).tail edge
  · intro vertex member
    rw [mem_discover_result]
    rcases (mem_discover_frontier _ _ _).mp member with member | ⟨member, _⟩
    · exact (explored.known vertex (List.mem_cons_of_mem _ member)).imp_right Or.inl
    · exact Or.inr (Or.inr member)
  · intro vertex known unvisited next member
    rw [mem_discover_frontier, not_or] at unvisited
    rw [mem_discover_result]
    by_cases same : vertex = current
    · exact Or.inr (same ▸ member)
    · have before : vertex = start ∨ vertex ∈ result := by
        rcases known with start_ | found
        · exact Or.inl start_
        · rcases (mem_discover_result _ _ _).mp found with found | found
          · exact Or.inr found
          · exact Or.inr (by_contra fun fresh => unvisited.2 ⟨found, fresh⟩)
      refine Or.inl (explored.visited vertex before ?_ next member)
      intro waiting
      rcases List.mem_cons.mp waiting with here | later
      · exact same here
      · exact unvisited.1 later

theorem Explored.walk {result frontier : List V}
    (explored : Explored edges start result frontier) :
    Explored edges start (walk edges result frontier) [] := by
  induction result, frontier using walk.induct edges with
  | case1 result => rwa [Lib.walk]
  | case2 result current rest state ih =>
      rw [Lib.walk]
      exact ih explored.visit

/-- The walk finds exactly the vertices that one edge or more lead to. -/
theorem mem_walk (edges : List (V × V)) (start vertex : V) :
    vertex ∈ walk edges [] [start] ↔
      Relation.TransGen (fun one other => (one, other) ∈ edges) start vertex := by
  have explored : Explored edges start (walk edges [] [start]) [] := explored_start.walk
  refine ⟨explored.sound vertex, fun path => ?_⟩
  induction path with
  | single edge =>
      exact explored.visited start (Or.inl rfl) List.not_mem_nil _ (mem_direct.mpr edge)
  | tail _ edge found =>
      exact explored.visited _ (Or.inr found) List.not_mem_nil _ (mem_direct.mpr edge)

theorem nodup_walk (edges : List (V × V)) (start : V) : (walk edges [] [start]).Nodup :=
  (explored_start.walk).nodup

end Walk

section Acyclic

variable {V : Type} {before after : V → V → Prop} {source target : V}

def Acyclic (edge : V → V → Prop) : Prop := ∀ vertex, ¬Relation.TransGen edge vertex vertex

theorem Acyclic.mono (acyclic : Acyclic before)
    (fewer : ∀ one other, after one other → before one other) : Acyclic after :=
  fun vertex path => acyclic vertex (Relation.TransGen.mono fewer vertex vertex path)

/-- A path over one more edge takes it or does not need it. -/
theorem transGen_with_edge
    (added : ∀ one other, after one other → before one other ∨ one = source ∧ other = target)
    {one other : V} (path : Relation.TransGen after one other) :
    Relation.TransGen before one other ∨
      Relation.ReflTransGen before one source ∧ Relation.ReflTransGen before target other := by
  induction path with
  | single edge =>
      rcases added _ _ edge with edge | ⟨rfl, rfl⟩
      · exact Or.inl (Relation.TransGen.single edge)
      · exact Or.inr ⟨Relation.ReflTransGen.refl, Relation.ReflTransGen.refl⟩
  | tail _ edge ih =>
      rcases added _ _ edge with edge | ⟨rfl, rfl⟩
      · rcases ih with path | ⟨front, back⟩
        · exact Or.inl (path.tail edge)
        · exact Or.inr ⟨front, back.tail edge⟩
      · rcases ih with path | ⟨front, _⟩
        · exact Or.inr ⟨path.to_reflTransGen, Relation.ReflTransGen.refl⟩
        · exact Or.inr ⟨front, Relation.ReflTransGen.refl⟩

/-- An edge closes no cycle unless there is a path back. -/
theorem Acyclic.with_edge (acyclic : Acyclic before)
    (added : ∀ one other, after one other → before one other ∨ one = source ∧ other = target)
    (apart : source ≠ target) (noReturn : ¬Relation.TransGen before target source) :
    Acyclic after := by
  intro vertex cycle
  rcases transGen_with_edge added cycle with path | ⟨front, back⟩
  · exact acyclic vertex path
  · rcases Relation.reflTransGen_iff_eq_or_transGen.mp (back.trans front) with same | path
    · exact apart same
    · exact noReturn path

end Acyclic

end Pantheon.Lib
