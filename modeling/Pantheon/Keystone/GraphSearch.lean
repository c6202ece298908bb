import Mathlib
import Pantheon.Keystone.Graph
import Pantheon.Lib.BreadthFirst

/-!
# Breadth-first search of a graph: `graph/algorithms.rs`

`bfs_traverse` lists the vertices within a number of hops with their distances, and
`shortest_path` follows back pointers from the end.  Both are runs of one search, whose rules
are in `Lib.BreadthFirst`.
-/

set_option autoImplicit false

namespace Pantheon.Keystone.Graph

open Pantheon.Lib

/-! ## `bfs_traverse` -/

def enqueue (depth : Nat) (state : Finset Nat × List (Nat × Nat)) (n : Nat) :
    Finset Nat × List (Nat × Nat) :=
  if n ∈ state.1 then state else (insert n state.1, state.2 ++ [(n, depth + 1)])

def bfsLoop (graph : AdjacencyGraph) (maxDepth : Nat) (dir : Direction) :
    Nat → Finset Nat → List (Nat × Nat) → List (Nat × Nat) → Option (List (Nat × Nat))
  | 0, _, _, _ => none
  | _ + 1, _, [], out => some out
  | fuel + 1, visited, (v, depth) :: queue, out =>
      let out := out ++ [(v, depth)]
      if maxDepth ≤ depth then bfsLoop graph maxDepth dir fuel visited queue out
      else
        let (visited, queue) := (graph.neighbors v dir).foldl
          (fun state neighbor => enqueue depth state neighbor.1) (visited, queue)
        bfsLoop graph maxDepth dir fuel visited queue out

/-- A vertex is queued once, so the fuel is never used up. -/
def bfsTraverse (graph : AdjacencyGraph) (start maxDepth : Nat) (dir : Direction) :
    Option (List (Nat × Nat)) :=
  bfsLoop graph maxDepth dir (graph.vertexCount + 2) {start} [(start, 0)] []

/-! ## `shortest_path` -/

structure PathState where
  visited : Finset Nat
  prev : Nat → Option Nat
  queue : List Nat

/-- The loop over the neighbours of `v`; an error is the early return at the end vertex, with
the pointers as they are then. -/
def scan (last v : Nat) : List (Nat × Option String) → PathState →
    Except (Nat → Option Nat) PathState
  | [], state => .ok state
  | (n, _) :: rest, state =>
      if n ∈ state.visited then scan last v rest state
      else
        let visited := insert n state.visited
        let prev := Function.update state.prev n (some v)
        if n = last then .error prev
        else scan last v rest ⟨visited, prev, state.queue ++ [n]⟩

def pathLoop (graph : AdjacencyGraph) (last : Nat) (dir : Direction) :
    Nat → PathState → Option (Option (List Nat))
  | 0, _ => none
  | fuel + 1, state =>
      match state.queue with
      | [] => some none
      | v :: queue =>
          match scan last v (graph.neighbors v dir) { state with queue := queue } with
          | .ok state => pathLoop graph last dir fuel state
          | .error prev =>
              (follow prev (graph.vertexCount + 1) last [last]).map fun path => some path.reverse

def shortestPath (graph : AdjacencyGraph) (start last : Nat) (dir : Direction) :
    Option (Option (List Nat)) :=
  if start = last then some (some [start])
  else pathLoop graph last dir (graph.vertexCount + 2) ⟨{start}, fun _ => none, [start]⟩

/-! ## One turn -/

theorem foldl_enqueue (depth : Nat) (names : List Nat) :
    ∀ (visited : Finset Nat) (queue : List (Nat × Nat)),
      names.foldl (enqueue depth) (visited, queue) =
        (visited ∪ names.toFinset,
          queue ++ (fresh visited names).map fun one => (one, depth + 1)) := by
  induction names with
  | nil => intro visited queue; simp [fresh]
  | cons name rest ih =>
      intro visited queue
      rw [List.foldl_cons, enqueue, fresh, List.toFinset_cons, Finset.union_insert]
      split_ifs with known
      · rw [ih, Finset.insert_eq_of_mem (Finset.mem_union_left _ known)]
      · rw [ih, Finset.insert_union, List.map_cons, List.append_assoc]
        rfl

theorem scan_spec (last v : Nat) (neighbors : List (Nat × Option String)) :
    ∀ state : PathState,
      (last ∉ fresh state.visited (neighbors.map Prod.fst) ∧
        scan last v neighbors state = .ok ⟨state.visited ∪ (neighbors.map Prod.fst).toFinset,
          pointAll state.prev (fresh state.visited (neighbors.map Prod.fst)) v,
          state.queue ++ fresh state.visited (neighbors.map Prod.fst)⟩) ∨
      ∃ part, last ∈ part ∧
        (∀ one ∈ part, one ∈ fresh state.visited (neighbors.map Prod.fst)) ∧
        scan last v neighbors state = .error (pointAll state.prev part v) := by
  induction neighbors with
  | nil =>
      intro state
      left
      refine ⟨List.not_mem_nil, ?_⟩
      have same : pointAll state.prev [] v = state.prev := by
        funext one
        exact if_neg List.not_mem_nil
      rw [scan, List.map_nil, fresh, same, List.toFinset_nil, Finset.union_empty,
        List.append_nil]
  | cons neighbor rest ih =>
      intro state
      obtain ⟨n, relType⟩ := neighbor
      rw [scan, List.map_cons, fresh, List.toFinset_cons, Finset.union_insert]
      have update (names : List Nat) :
          pointAll (Function.update state.prev n (some v)) names v =
            pointAll state.prev (n :: names) v := by
        funext one
        by_cases same : one = n
        · subst same
          simp [pointAll]
        · simp [pointAll, same]
      split_ifs with known found
      · rw [Finset.insert_eq_of_mem (Finset.mem_union_left _ known)]
        exact ih state
      · right
        refine ⟨[n], found ▸ List.mem_singleton_self _, fun one only => ?_, ?_⟩
        · rw [List.mem_singleton.mp only]
          exact List.mem_cons_self
        · rw [← update []]
          rfl
      · rcases ih ⟨insert n state.visited, Function.update state.prev n (some v),
          state.queue ++ [n]⟩ with ⟨absent, scanned⟩ | ⟨part, inside, fewer, scanned⟩
        · left
          refine ⟨fun listed => ?_, ?_⟩
          · rcases List.mem_cons.mp listed with same | later
            · exact found same.symm
            · exact absent later
          · rw [scanned, update, Finset.insert_union, List.append_assoc]
            rfl
        · right
          refine ⟨n :: part, List.mem_cons_of_mem _ inside, fun one listed => ?_, ?_⟩
          · rcases List.mem_cons.mp listed with rfl | later
            · exact List.mem_cons_self
            · exact List.mem_cons_of_mem _ (fewer one later)
          · rw [scanned, update]

section Turn

variable {calls : List EdgeCall} (small : (build calls).vertexCount < 2 ^ 32) {dir : Direction}
  {known : List (Nat × Nat)} {visited : Finset Nat}
  (seen : ∀ one, one ∈ visited ↔ one ∈ known.map Prod.fst) (v depth : Nat)

include small seen

theorem mem_fresh_neighbors (one : Nat) :
    one ∈ fresh visited (((build calls).neighbors v dir).map Prod.fst) ↔
      Joined calls dir v one ∧ one ∉ known.map Prod.fst := by
  rw [mem_fresh, mem_neighbors_iff small, seen]

theorem joined_fresh_or_known (one : Nat) (joined : Joined calls dir v one) :
    one ∈ fresh visited (((build calls).neighbors v dir).map Prod.fst) ∨
      one ∈ known.map Prod.fst := by
  by_cases before : one ∈ known.map Prod.fst
  · exact Or.inr before
  · exact Or.inl ((mem_fresh_neighbors small seen v one).mpr ⟨joined, before⟩)

omit small in
theorem seen_after (names : List Nat) (one : Nat) : one ∈ visited ∪ names.toFinset ↔
    one ∈ (known ++ (fresh visited names).map fun one => (one, depth + 1)).map Prod.fst := by
  have new : ((fresh visited names).map fun one => (one, depth + 1)).map Prod.fst =
      fresh visited names := by
    rw [List.map_map]
    exact List.map_id _
  rw [List.map_append, new, List.mem_append, mem_fresh, ← seen, Finset.mem_union,
    List.mem_toFinset]
  tauto

end Turn

/-! ## Whole runs -/

section Runs

variable {calls : List EdgeCall} (small : (build calls).vertexCount < 2 ^ 32) {dir : Direction}
  {start : Nat}

include small

theorem search_length_le {expanded : Nat → Prop} {out queue : List (Nat × Nat)}
    (search : Search (Joined calls dir) start expanded out queue) :
    (out ++ queue).length ≤ (build calls).vertexCount + 1 := by
  have bound := search.length_le (Finset.range (build calls).vertexCount)
    (fun one other joined => Finset.mem_range.mpr (joined_lt small joined).2)
  rwa [Finset.card_range] at bound

theorem bfsLoop_search (maxDepth fuel : Nat) :
    ∀ (visited : Finset Nat) (queue out : List (Nat × Nat)),
      Search (Joined calls dir) start (fun depth => depth < maxDepth) out queue →
      (∀ one, one ∈ visited ↔ one ∈ (out ++ queue).map Prod.fst) →
      (build calls).vertexCount + 1 < out.length + fuel →
      ∃ final, bfsLoop (build calls) maxDepth dir fuel visited queue out = some final ∧
        Search (Joined calls dir) start (fun depth => depth < maxDepth) final [] := by
  induction fuel with
  | zero =>
      intro visited queue out search _ enough
      have bound := search_length_le small search
      rw [List.length_append] at bound
      omega
  | succ fuel ih =>
      intro visited queue out search seen enough
      cases queue with
      | nil => exact ⟨out, rfl, search⟩
      | cons entry queue =>
          obtain ⟨v, depth⟩ := entry
          rw [bfsLoop]
          have longer : (build calls).vertexCount + 1 < (out ++ [(v, depth)]).length + fuel := by
            rw [List.length_append, List.length_singleton]
            omega
          dsimp only
          split_ifs with deep
          · refine ih visited queue _ (search.pass (Nat.not_lt.mpr deep)) (fun one => ?_) longer
            rw [seen, List.append_assoc]
            rfl
          · rw [← List.foldl_map (f := Prod.fst) (g := enqueue depth), foldl_enqueue]
            refine ih _ _ _ (search.step (nodup_fresh _ _) (fun one new => ?_) (fun _ one joined =>
              joined_fresh_or_known small seen v one joined)) (fun one => ?_) longer
            · exact ⟨Nat.not_le.mp deep, (mem_fresh_neighbors small seen v one).mp new⟩
            · rw [found_after]
              exact seen_after seen depth _ one

omit small in
theorem follow_found {found : List (Nat × Nat)} {prev : Nat → Option Nat} {last depth fuel : Nat}
    (linked : Linked (Joined calls dir) start prev found)
    (only : ∀ vertex, (vertex, 0) ∈ found → vertex = start) (inside : (last, depth) ∈ found)
    (distance : IsDistance (Joined calls dir) start last depth) (bound : depth < fuel) :
    ∃ path, (follow prev fuel last [last]).map (fun path => some path.reverse) =
      some (some path) ∧ ShortestPath (Joined calls dir) start last path := by
  obtain ⟨trail, followed, length, chain, first⟩ := linked.follow only depth fuel last [last]
    inside bound
  refine ⟨(last :: trail).reverse, ?_, ?_, ?_, ?_, ?_⟩
  · rw [followed]
    rfl
  · rw [List.head?_reverse]
    exact first
  · rw [List.getLast?_reverse]
    rfl
  · exact List.isChain_reverse.mpr chain
  · rwa [List.length_reverse, List.length_cons, length, Nat.add_sub_cancel]

/-- Between two turns the end vertex has not been found; the depths are those of the search. -/
structure PathSearch (calls : List EdgeCall) (dir : Direction) (start last : Nat)
    (state : PathState) (out queue : List (Nat × Nat)) : Prop where
  search : Search (Joined calls dir) start (fun _ => True) out queue
  linked : Linked (Joined calls dir) start state.prev (out ++ queue)
  seen : ∀ one, one ∈ state.visited ↔ one ∈ (out ++ queue).map Prod.fst
  waiting : state.queue = queue.map Prod.fst
  missing : last ∉ (out ++ queue).map Prod.fst

def PathAnswer (calls : List EdgeCall) (dir : Direction) (start last : Nat) :
    Option (List Nat) → Prop
  | none => ¬Relation.ReflTransGen (Joined calls dir) start last
  | some path => ShortestPath (Joined calls dir) start last path

theorem pathLoop_answer {last : Nat} (fuel : Nat) :
    ∀ (state : PathState) (out queue : List (Nat × Nat)),
      PathSearch calls dir start last state out queue →
      (build calls).vertexCount + 1 < out.length + fuel →
      ∃ answer, pathLoop (build calls) last dir fuel state = some answer ∧
        PathAnswer calls dir start last answer := by
  induction fuel with
  | zero =>
      intro state out queue invariant enough
      have bound := search_length_le small invariant.search
      rw [List.length_append] at bound
      omega
  | succ fuel ih =>
      intro state out queue invariant enough
      rw [pathLoop]
      cases queue with
      | nil =>
          rw [invariant.waiting]
          refine ⟨none, rfl, fun reached => ?_⟩
          obtain ⟨count, hops⟩ := exists_hops_iff.mpr reached
          obtain ⟨depth, _, inside⟩ := invariant.search.found count
            (fun _ waiting => absurd waiting List.not_mem_nil) hops le_rfl (fun _ _ => trivial)
          exact invariant.missing (List.mem_map_of_mem inside)
      | cons entry queue =>
          obtain ⟨v, depth⟩ := entry
          rw [invariant.waiting, List.map_cons]
          dsimp only
          have chosen := @mem_fresh_neighbors calls small dir _ _ invariant.seen v
          have after := invariant.search.step
            (nodup_fresh (((build calls).neighbors v dir).map Prod.fst) state.visited)
            (fun one new => ⟨trivial, (chosen one).mp new⟩)
            (fun _ one joined => joined_fresh_or_known small invariant.seen v one joined)
          have listed : (v, depth) ∈ out ++ (v, depth) :: queue :=
            List.mem_append_right _ List.mem_cons_self
          rcases scan_spec last v ((build calls).neighbors v dir)
            { state with queue := queue.map Prod.fst } with
            ⟨absent, scanned⟩ | ⟨part, found, fewer, scanned⟩
          · rw [scanned]
            dsimp only
            refine ih _ (out ++ [(v, depth)]) _ ⟨after, ?_, fun one => ?_, ?_, ?_⟩ ?_
            · rw [found_after]
              exact invariant.linked.step listed invariant.search.started
                (fun one new => (chosen one).mp new)
            · rw [found_after]
              exact seen_after invariant.seen depth _ one
            · rw [List.map_append, List.map_map]
              exact congrArg _ (List.map_id _).symm
            · rw [found_after, List.map_append, List.map_map, List.mem_append]
              rintro (before | new)
              · exact invariant.missing before
              · exact absent ((List.map_id (fresh state.visited _)) ▸ new)
            · rw [List.length_append, List.length_singleton]
              omega
          · rw [scanned]
            dsimp only
            have linked := invariant.linked.step listed invariant.search.started
              (fun one inside => (chosen one).mp (fewer one inside))
            have inside : (last, depth + 1) ∈ part.map fun one => (one, depth + 1) :=
              List.mem_map.mpr ⟨last, found, rfl⟩
            have new : (last, depth + 1) ∈ (fresh state.visited
                (((build calls).neighbors v dir).map Prod.fst)).map fun one => (one, depth + 1) :=
              List.mem_map.mpr ⟨last, fewer last found, rfl⟩
            have distance := after.distance (fun _ _ _ _ => trivial)
              (List.mem_append_right _ (List.mem_append_right _ new))
            -- the end vertex is one more than those that bound the depth of `v`
            have size := search_length_le small after
            have more := List.length_pos_of_mem new
            have deep := invariant.linked.depth_lt listed
            rw [found_after, List.length_append] at size
            obtain ⟨path, followed, shortest⟩ := @follow_found _ _ _ _ _ _ _
              ((build calls).vertexCount + 1) linked (fun vertex first => by
                rcases List.mem_append.mp first with before | added
                · have hops := invariant.search.hops _ before
                  cases hops
                  rfl
                · obtain ⟨_, _, same⟩ := List.mem_map.mp added
                  exact absurd (congrArg Prod.snd same) (Nat.succ_ne_zero depth))
              (List.mem_append_right _ inside) distance (by omega)
            exact ⟨some path, followed, shortest⟩

theorem bfsTraverse_exact (start maxDepth : Nat) (dir : Direction) :
    ∃ out, bfsTraverse (build calls) start maxDepth dir = some out ∧
      (out.map Prod.fst).Nodup ∧ (out.map Prod.snd).Pairwise (· ≤ ·) ∧
      ∀ vertex depth, (vertex, depth) ∈ out ↔
        depth ≤ maxDepth ∧ IsDistance (Joined calls dir) start vertex depth := by
  obtain ⟨out, ran, search⟩ := bfsLoop_search small maxDepth ((build calls).vertexCount + 2)
    {start} [(start, 0)] [] search_start (fun one => by simp) (by simp)
  refine ⟨out, ran, ?_, ?_, fun vertex depth => ?_⟩
  · exact List.append_nil out ▸ search.distinct
  · exact List.append_nil out ▸ search.rising
  · rw [search.finished (fun _ _ => Nat.lt_of_le_of_lt), and_comm]
    refine and_congr_left fun _ => ⟨fun opened => ?_, fun bound one below => by omega⟩
    by_contra deep
    exact Nat.lt_irrefl _ (opened maxDepth (Nat.not_le.mp deep))

theorem shortestPath_exact (start last : Nat) (dir : Direction) :
    ∃ answer, shortestPath (build calls) start last dir = some answer ∧
      PathAnswer calls dir start last answer := by
  rw [shortestPath]
  split_ifs with same
  · subst same
    refine ⟨some [start], rfl, rfl, rfl, List.isChain_singleton _, Hops.here, fun _ _ => ?_⟩
    exact Nat.zero_le _
  · refine pathLoop_answer small _ _ [] [(start, 0)]
      ⟨search_start, linked_start, fun one => by simp, rfl, fun listed => ?_⟩ (by simp)
    exact same (List.mem_singleton.mp listed).symm

end Runs

/-- Both searches are exact, for any start, depth bound and direction. -/
theorem search_exact (calls : List EdgeCall) (small : (build calls).vertexCount < 2 ^ 32)
    (start : Nat) (dir : Direction) : Interned calls ∧
    (∀ maxDepth, ∃ out, bfsTraverse (build calls) start maxDepth dir = some out ∧
      (out.map Prod.fst).Nodup ∧ (out.map Prod.snd).Pairwise (· ≤ ·) ∧
      ∀ vertex depth, (vertex, depth) ∈ out ↔
        depth ≤ maxDepth ∧ IsDistance (Joined calls dir) start vertex depth) ∧
    ∀ last, ∃ answer, shortestPath (build calls) start last dir = some answer ∧
      (answer = none ↔ ¬Relation.ReflTransGen (Joined calls dir) start last) ∧
      ∀ path, answer = some path → ShortestPath (Joined calls dir) start last path := by
  refine ⟨interned_build small, fun maxDepth => bfsTraverse_exact small start maxDepth dir,
    fun last => ?_⟩
  obtain ⟨answer, ran, right⟩ := shortestPath_exact small start last dir
  refine ⟨answer, ran, ?_, ?_⟩
  · cases answer with
    | none => exact ⟨fun _ => right, fun _ => rfl⟩
    | some path =>
        refine ⟨fun absent => (by cases absent), fun apart => ?_⟩
        exact absurd right.shortest.hops.reaches apart
  · rintro path rfl
    exact right

def ring : List EdgeCall :=
  [⟨[1], [2], none⟩, ⟨[2], [3], none⟩, ⟨[3], [1], none⟩, ⟨[1], [1], none⟩, ⟨[1], [2], none⟩]

theorem search_exact_ring :
    bfsTraverse (build ring) 0 1 .out = some [(0, 0), (1, 1)] ∧
      shortestPath (build ring) 0 2 .out = some (some [0, 1, 2]) ∧
      IsDistance (Joined ring .out) 0 2 2 := by
  have holds := search_exact ring (by decide) 0 .out
  refine ⟨by decide, by decide, ?_⟩
  obtain ⟨answer, ran, _, right⟩ := holds.2.2 2
  have found : shortestPath (build ring) 0 2 .out = some (some [0, 1, 2]) := by decide
  rw [found] at ran
  exact (right _ (Option.some.inj ran).symm).shortest

end Pantheon.Keystone.Graph
