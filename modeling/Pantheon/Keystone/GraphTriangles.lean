import Mathlib
import Pantheon.Keystone.Graph

/-!
# Counting triangles: `graph/algorithms.rs`

`triangle_count` looks for the common neighbours of every edge, in the smaller of the two
neighbour sets.  It finds a triangle once, with its vertices in rising order, whatever the order
in which the sets are gone through.
-/

set_option autoImplicit false

namespace Pantheon.Keystone.Graph

/-- The order in which the neighbour set of each vertex is gone through. -/
structure Enumeration where
  list : Nat → Finset Nat → List Nat
  nodup : ∀ vertex set, (list vertex set).Nodup
  mem : ∀ vertex set one, one ∈ list vertex set ↔ one ∈ set

def neighborSet (graph : AdjacencyGraph) (v : Nat) : Finset Nat :=
  (((graph.neighbors v .both).map Prod.fst).filter (· ≠ v)).toFinset

def neighborSets (graph : AdjacencyGraph) : List (Finset Nat) :=
  graph.vertexIds.map (neighborSet graph)

/-- No result stands for an index that is out of range or a counter that overflows. -/
def bump (counts : List Nat) (vertex : Nat) : Option (List Nat) := do
  let count ← counts[vertex]?
  if count + 1 < 2 ^ 64 then some (counts.set vertex (count + 1)) else none

def countTriangle (state : List Nat × Nat) (triple : Nat × Nat × Nat) :
    Option (List Nat × Nat) := do
  let counts ← bump state.1 triple.1
  let counts ← bump counts triple.2.1
  let counts ← bump counts triple.2.2
  if state.2 + 1 < 2 ^ 64 then some (counts, state.2 + 1) else none

def triangleCount (order : Enumeration) (graph : AdjacencyGraph) : Option (List Nat × Nat) :=
  let n := graph.vertexCount
  let sets := neighborSets graph
  (List.range (n % 2 ^ 32)).foldlM (fun state v => do
    let nv ← sets[v]?
    (order.list v nv).foldlM (fun state u => do
      if u ≤ v then some state
      else
        let nu ← sets[u]?
        let (smaller, larger) :=
          if nv.card < nu.card then (order.list v nv, nu) else (order.list u nu, nv)
        smaller.foldlM (fun state w =>
          if u < w ∧ w ∈ larger then countTriangle state (v, u, w) else some state) state) state)
    (List.replicate n 0, 0)

/-! ## The triples the loops find -/

theorem foldlM_flatMap {State Outer Inner : Type} {pieces : Outer → List Inner}
    {step : State → Inner → Option State} {whole : State → Outer → Option State}
    (list : List Outer)
    (each : ∀ one ∈ list, ∀ state, whole state one = (pieces one).foldlM step state) :
    ∀ state, list.foldlM whole state = (list.flatMap pieces).foldlM step state := by
  induction list with
  | nil => intro state; rfl
  | cons first rest ih =>
      intro state
      rw [List.foldlM_cons, List.flatMap_cons, List.foldlM_append, each first List.mem_cons_self]
      refine congrArg (fun more => (pieces first).foldlM step state >>= more)
        (funext fun next => ?_)
      exact ih (fun one later => each one (List.mem_cons_of_mem _ later)) next

theorem nodup_flatMap_of_key {Outer Inner : Type} {pieces : Outer → List Inner}
    (key : Inner → Outer) (list : List Outer) (once : list.Nodup)
    (keyed : ∀ one, ∀ inner ∈ pieces one, key inner = one)
    (each : ∀ one ∈ list, (pieces one).Nodup) : (list.flatMap pieces).Nodup := by
  refine List.nodup_flatMap.mpr ⟨each, once.imp fun {first second} apart => ?_⟩
  intro inner here there
  exact apart ((keyed first inner here).symm.trans (keyed second inner there))

section Found

variable (order : Enumeration) (graph : AdjacencyGraph)

def sides (v u : Nat) : List Nat × Finset Nat :=
  let nv := neighborSet graph v
  let nu := neighborSet graph u
  if nv.card < nu.card then (order.list v nv, nu) else (order.list u nu, nv)

def closing (v u : Nat) : List (Nat × Nat × Nat) :=
  (sides order graph v u).1.flatMap fun w =>
    if u < w ∧ w ∈ (sides order graph v u).2 then [(v, u, w)] else []

def foundFrom (v : Nat) : List (Nat × Nat × Nat) :=
  (order.list v (neighborSet graph v)).flatMap fun u =>
    if u ≤ v then [] else closing order graph v u

def foundTriples : List (Nat × Nat × Nat) :=
  (List.range graph.vertexCount).flatMap (foundFrom order graph)

theorem nodup_sides (v u : Nat) : (sides order graph v u).1.Nodup := by
  unfold sides
  dsimp only
  split_ifs with smaller
  · exact order.nodup _ _
  · exact order.nodup _ _

theorem mem_sides (v u w : Nat) :
    w ∈ (sides order graph v u).1 ∧ w ∈ (sides order graph v u).2 ↔
      w ∈ neighborSet graph v ∧ w ∈ neighborSet graph u := by
  unfold sides
  dsimp only
  split_ifs with smaller
  · rw [order.mem]
  · rw [order.mem, and_comm]

theorem mem_closing (v u : Nat) (triple : Nat × Nat × Nat) :
    triple ∈ closing order graph v u ↔ triple.1 = v ∧ triple.2.1 = u ∧ u < triple.2.2 ∧
      triple.2.2 ∈ neighborSet graph v ∧ triple.2.2 ∈ neighborSet graph u := by
  obtain ⟨one, other, w⟩ := triple
  rw [closing, List.mem_flatMap, ← mem_sides order]
  constructor
  · rintro ⟨third, there, here⟩
    split_ifs at here with inside
    · cases List.mem_singleton.mp here
      exact ⟨rfl, rfl, inside.1, there, inside.2⟩
    · cases here
  · rintro ⟨rfl, rfl, above, there, also⟩
    exact ⟨w, there, by rw [if_pos ⟨above, also⟩]; exact List.mem_singleton_self _⟩

theorem mem_foundTriples (v u w : Nat) : (v, u, w) ∈ foundTriples order graph ↔
    v < graph.vertexCount ∧ v < u ∧ u < w ∧ u ∈ neighborSet graph v ∧
      w ∈ neighborSet graph v ∧ w ∈ neighborSet graph u := by
  have step (first second : Nat) : (v, u, w) ∈
      (if second ≤ first then [] else closing order graph first second) ↔
        first < second ∧ v = first ∧ u = second ∧ second < w ∧ w ∈ neighborSet graph first ∧
          w ∈ neighborSet graph second := by
    split_ifs with below
    · simp [Nat.not_lt.mpr below]
    · rw [mem_closing]
      simp [Nat.not_le.mp below]
  simp only [foundTriples, foundFrom, List.mem_flatMap, List.mem_range, order.mem, step]
  constructor
  · rintro ⟨_, vertex, _, second, rising, rfl, rfl, above, third, closed⟩
    exact ⟨vertex, rising, above, second, third, closed⟩
  · rintro ⟨vertex, rising, above, second, third, closed⟩
    exact ⟨v, vertex, u, second, rising, rfl, rfl, above, third, closed⟩

theorem nodup_foundTriples : (foundTriples order graph).Nodup := by
  refine nodup_flatMap_of_key (fun triple => triple.1) _ List.nodup_range (fun v triple here => ?_)
    fun v _ => nodup_flatMap_of_key (fun triple => triple.2.1) _ (order.nodup _ _)
      (fun u triple here => ?_) fun u _ => ?_
  · obtain ⟨u, _, here⟩ := List.mem_flatMap.mp here
    split_ifs at here with below
    · cases here
    · exact ((mem_closing order graph v u triple).mp here).1
  · split_ifs at here with below
    · cases here
    · exact ((mem_closing order graph v u triple).mp here).2.1
  · split_ifs with below
    · exact List.nodup_nil
    · refine nodup_flatMap_of_key (fun triple => triple.2.2) _ (nodup_sides order graph v u)
        (fun w triple here => ?_) fun w _ => ?_
      · split_ifs at here with inside
        · rw [List.mem_singleton.mp here]
        · cases here
      · split_ifs with inside
        · exact List.nodup_singleton _
        · exact List.nodup_nil

theorem triangleCount_eq (small : graph.vertexCount < 2 ^ 32)
    (bounded : ∀ v, ∀ u ∈ neighborSet graph v, u < graph.vertexCount) :
    triangleCount order graph =
    (foundTriples order graph).foldlM countTriangle (List.replicate graph.vertexCount 0, 0) := by
  have ids : graph.vertexIds = List.range graph.vertexCount :=
    congrArg List.range (Nat.mod_eq_of_lt small)
  have sets (v : Nat) (vertex : v < graph.vertexCount) :
      (neighborSets graph)[v]? = some (neighborSet graph v) := by
    rw [neighborSets, ids, List.getElem?_map, List.getElem?_range vertex]
    rfl
  rw [triangleCount, Nat.mod_eq_of_lt small]
  refine foldlM_flatMap _ (fun v listed state => ?_) _
  rw [sets v (List.mem_range.mp listed), Option.bind_eq_bind, Option.bind_some]
  refine foldlM_flatMap _ (fun u listed state => ?_) _
  have neighbor := bounded v u ((order.mem _ _ _).mp listed)
  split_ifs with below
  · rfl
  · rw [sets u neighbor, Option.bind_some]
    refine foldlM_flatMap (sides order graph v u).1 (fun w _ state => ?_) _
    change (if u < w ∧ w ∈ (sides order graph v u).2 then _ else _) =
      (if u < w ∧ w ∈ (sides order graph v u).2 then _ else _ : List (Nat × Nat × Nat)).foldlM _ _
    split_ifs with inside
    · exact (bind_pure _).symm
    · rfl

end Found

/-! ## Counters -/

section Counters

/-- The counters of a graph of `size` vertices. -/
def tally (size : Nat) (count : Nat → Nat) : List Nat := (List.range size).map count

variable {size : Nat}

theorem getElem?_tally (count : Nat → Nat) (vertex : Nat) :
    (tally size count)[vertex]? = if vertex < size then some (count vertex) else none := by
  rw [tally, List.getElem?_map]
  split_ifs with place
  · rw [List.getElem?_range place]
    rfl
  · rw [List.getElem?_eq_none (by rw [List.length_range]; omega)]
    rfl

theorem bump_tally {count : Nat → Nat} {vertex : Nat} (place : vertex < size)
    (room : count vertex + 1 < 2 ^ 64) : bump (tally size count) vertex =
      some (tally size fun one => count one + if one = vertex then 1 else 0) := by
  rw [bump, getElem?_tally, if_pos place, Option.bind_eq_bind, Option.bind_some, if_pos room]
  refine congrArg some (List.ext_getElem? fun one => ?_)
  rw [List.getElem?_set, getElem?_tally, getElem?_tally, tally, List.length_map,
    List.length_range]
  by_cases same : vertex = one
  · subst same
    rw [if_pos rfl, if_pos rfl]
  · rw [if_neg same, if_neg (Ne.symm same), Nat.add_zero]

def corners (triple : Nat × Nat × Nat) : Finset Nat := {triple.1, triple.2.1, triple.2.2}

def Rising (size : Nat) (triple : Nat × Nat × Nat) : Prop :=
  triple.1 < triple.2.1 ∧ triple.2.1 < triple.2.2 ∧ triple.2.2 < size

def countsOf (found : List (Nat × Nat × Nat)) (vertex : Nat) : Nat :=
  found.countP fun triple => vertex ∈ corners triple

theorem countTriangle_tally {found : List (Nat × Nat × Nat)} {triple : Nat × Nat × Nat}
    (rising : Rising size triple) (room : found.length + 1 < 2 ^ 64) :
    countTriangle (tally size (countsOf found), found.length) triple =
      some (tally size (countsOf (found ++ [triple])), (found ++ [triple]).length) := by
  obtain ⟨v, u, w⟩ := triple
  obtain ⟨first, second, last⟩ := rising
  dsimp only at first second last
  have bounded (one : Nat) : countsOf found one + 1 < 2 ^ 64 :=
    Nat.lt_of_le_of_lt (Nat.succ_le_succ List.countP_le_length) room
  rw [countTriangle]
  dsimp only
  rw [bump_tally (by omega) (bounded v), Option.bind_eq_bind, Option.bind_some,
    bump_tally (by omega) (by simpa [first.ne'] using bounded u), Option.bind_some,
    bump_tally last (by simpa [second.ne', (first.trans second).ne'] using bounded w),
    Option.bind_some, if_pos room, List.length_append,
    List.length_singleton]
  have same : (fun one => countsOf found one + (if one = v then 1 else 0) +
      (if one = u then 1 else 0) + if one = w then 1 else 0) = countsOf (found ++ [(v, u, w)]) := by
    funext one
    rw [countsOf, countsOf, List.countP_append, List.countP_singleton, corners]
    by_cases atFirst : one = v
    · subst atFirst
      simp [first.ne, (first.trans second).ne]
    · by_cases atSecond : one = u
      · subst atSecond
        simp [first.ne', second.ne]
      · simp [atFirst, atSecond]
  rw [same]

theorem foldlM_countTriangle (found : List (Nat × Nat × Nat))
    (rising : ∀ triple ∈ found, Rising size triple) (room : found.length < 2 ^ 64) :
    found.foldlM countTriangle (List.replicate size 0, 0) =
      some (tally size (countsOf found), found.length) := by
  induction found using List.reverseRecOn with
  | nil =>
      have empty : tally size (countsOf []) = List.replicate size 0 := by
        refine List.eq_replicate_iff.mpr ⟨?_, fun count listed => ?_⟩
        · rw [tally, List.length_map, List.length_range]
        · obtain ⟨_, _, rfl⟩ := List.mem_map.mp listed
          rfl
      rw [empty]
      rfl
  | append_singleton found triple ih =>
      rw [List.length_append, List.length_singleton] at room
      rw [List.foldlM_append, ih (fun one listed => rising one (List.mem_append_left _ listed))
        (by omega), Option.bind_eq_bind, Option.bind_some, List.foldlM_cons,
        countTriangle_tally (rising triple (List.mem_append_right _ (List.mem_singleton_self _)))
          room]
      rfl

end Counters

/-! ## Triangles -/

def triangles (calls : List EdgeCall) : Set (Finset Nat) :=
  {set | set.card = 3 ∧ (set : Set Nat).Pairwise (Joined calls .both)}

theorem card_corners {size : Nat} {triple : Nat × Nat × Nat} (rising : Rising size triple) :
    (corners triple).card = 3 :=
  Finset.card_eq_three.mpr ⟨_, _, _, rising.1.ne, (rising.1.trans rising.2.1).ne, rising.2.1.ne,
    rfl⟩

theorem corners_inj {size : Nat} {one other : Nat × Nat × Nat} (first : Rising size one)
    (second : Rising size other) (same : corners one = corners other) : one = other := by
  obtain ⟨v, u, w⟩ := one
  obtain ⟨v', u', w'⟩ := other
  obtain ⟨low, high, _⟩ := first
  obtain ⟨low', high', _⟩ := second
  dsimp only at low high low' high'
  have member (vertex : Nat) : (vertex = v ∨ vertex = u ∨ vertex = w) ↔
      (vertex = v' ∨ vertex = u' ∨ vertex = w') := by
    have iff := Finset.ext_iff.mp same vertex
    simpa only [corners, Finset.mem_insert, Finset.mem_singleton] using iff
  have atV := (member v).mp (Or.inl rfl)
  have atU := (member u).mp (Or.inr (Or.inl rfl))
  have atW := (member w).mp (Or.inr (Or.inr rfl))
  have atV' := (member v').mpr (Or.inl rfl)
  have smallest : v = v' := by omega
  have largest : w = w' := by omega
  have middle : u = u' := by omega
  rw [smallest, middle, largest]

theorem exists_corners {set : Finset Nat} (three : set.card = 3) :
    ∃ v u w, v < u ∧ u < w ∧ set = corners (v, u, w) := by
  obtain ⟨one, other, third, apart, apartThird, apartOther, rfl⟩ := Finset.card_eq_three.mp three
  have swap (first second last : Nat) : ({first, second, last} : Finset Nat) =
      {second, first, last} := Finset.insert_comm _ _ _
  have swapLast (first second last : Nat) : ({first, second, last} : Finset Nat) =
      {first, last, second} := congrArg (insert first) (Finset.pair_comm _ _)
  rcases Nat.lt_or_gt_of_ne apart with below | above
  · rcases Nat.lt_or_gt_of_ne apartOther with after | before
    · exact ⟨one, other, third, below, after, rfl⟩
    · rcases Nat.lt_or_gt_of_ne apartThird with inner | outer
      · exact ⟨one, third, other, inner, before, swapLast _ _ _⟩
      · exact ⟨third, one, other, outer, below, (swapLast _ _ _).trans (swap _ _ _)⟩
  · rcases Nat.lt_or_gt_of_ne apartThird with after | before
    · exact ⟨other, one, third, above, after, swap _ _ _⟩
    · rcases Nat.lt_or_gt_of_ne apartOther with inner | outer
      · exact ⟨other, third, one, inner, before, (swap _ _ _).trans (swapLast _ _ _)⟩
      · exact ⟨third, other, one, outer, above, ((swapLast _ _ _).trans (swap _ _ _)).trans
          (swapLast _ _ _)⟩

theorem mem_corners {v u w vertex : Nat} :
    vertex ∈ corners (v, u, w) ↔ vertex = v ∨ vertex = u ∨ vertex = w := by
  rw [corners, Finset.mem_insert, Finset.mem_insert, Finset.mem_singleton]

section Exact

variable (order : Enumeration) {calls : List EdgeCall}
  (small : (build calls).vertexCount < 2 ^ 32)
include small

theorem mem_neighborSet (v u : Nat) :
    u ∈ neighborSet (build calls) v ↔ Joined calls .both v u ∧ u ≠ v := by
  rw [neighborSet, List.mem_toFinset, List.mem_filter, mem_neighbors_iff small, decide_eq_true_iff]

theorem mem_foundTriples_iff (triple : Nat × Nat × Nat) :
    triple ∈ foundTriples order (build calls) ↔
      Rising (build calls).vertexCount triple ∧ corners triple ∈ triangles calls := by
  obtain ⟨v, u, w⟩ := triple
  rw [mem_foundTriples, mem_neighborSet small, mem_neighborSet small, mem_neighborSet small]
  constructor
  · rintro ⟨_, low, high, ⟨side, _⟩, ⟨long, _⟩, ⟨other, _⟩⟩
    have rising : Rising (build calls).vertexCount (v, u, w) :=
      ⟨low, high, (joined_lt small long).2⟩
    refine ⟨rising, card_corners rising, fun one first another second apart => ?_⟩
    rcases mem_corners.mp (Finset.mem_coe.mp first) with rfl | rfl | rfl
    · rcases mem_corners.mp (Finset.mem_coe.mp second) with rfl | rfl | rfl
      · exact absurd rfl apart
      · exact side
      · exact long
    · rcases mem_corners.mp (Finset.mem_coe.mp second) with rfl | rfl | rfl
      · exact joined_both_symm side
      · exact absurd rfl apart
      · exact other
    · rcases mem_corners.mp (Finset.mem_coe.mp second) with rfl | rfl | rfl
      · exact joined_both_symm long
      · exact joined_both_symm other
      · exact absurd rfl apart
  · rintro ⟨⟨low, high, bound⟩, _, joined⟩
    dsimp only at low high bound
    have first := Finset.mem_coe.mpr (mem_corners (v := v) (u := u) (w := w).mpr (Or.inl rfl))
    have second := Finset.mem_coe.mpr
      (mem_corners (v := v) (u := u) (w := w).mpr (Or.inr (Or.inl rfl)))
    have third := Finset.mem_coe.mpr
      (mem_corners (v := v) (u := u) (w := w).mpr (Or.inr (Or.inr rfl)))
    exact ⟨(low.trans high).trans bound, low, high, ⟨joined first second low.ne, low.ne'⟩,
      ⟨joined first third (low.trans high).ne, (low.trans high).ne'⟩,
      ⟨joined second third high.ne, high.ne'⟩⟩

/-- A triangle is found once: the triples that satisfy a condition on their vertices are as many
as the triangles that do. -/
theorem ncard_triangles (chosen : Finset Nat → Prop) [DecidablePred chosen] :
    {set | set ∈ triangles calls ∧ chosen set}.ncard =
      (foundTriples order (build calls)).countP fun triple => chosen (corners triple) := by
  have member := mem_foundTriples_iff order small
  let kept := (foundTriples order (build calls)).filter fun triple => chosen (corners triple)
  have once : (kept.map corners).Nodup := by
    refine List.Nodup.map_on (fun one first other second same => ?_)
      ((nodup_foundTriples order (build calls)).filter _)
    exact corners_inj ((member one).mp (List.mem_of_mem_filter first)).1
      ((member other).mp (List.mem_of_mem_filter second)).1 same
  have all : {set | set ∈ triangles calls ∧ chosen set} =
      ((kept.map corners).toFinset : Set _) := by
    ext set
    rw [Finset.mem_coe, List.mem_toFinset, List.mem_map]
    constructor
    · rintro ⟨triangle, right⟩
      obtain ⟨v, u, w, low, high, rfl⟩ := exists_corners triangle.1
      have long : Joined calls .both v w := by
        refine triangle.2 ?_ ?_ (low.trans high).ne
        · exact Finset.mem_coe.mpr (mem_corners.mpr (Or.inl rfl))
        · exact Finset.mem_coe.mpr (mem_corners.mpr (Or.inr (Or.inr rfl)))
      refine ⟨(v, u, w), List.mem_filter.mpr ⟨(member _).mpr ⟨⟨low, high, ?_⟩, triangle⟩, ?_⟩, rfl⟩
      · exact (joined_lt small long).2
      · exact decide_eq_true right
    · rintro ⟨triple, listed, rfl⟩
      obtain ⟨found, right⟩ := List.mem_filter.mp listed
      exact ⟨((member triple).mp found).2, of_decide_eq_true right⟩
  rw [all, Set.ncard_coe_finset, List.toFinset_card_of_nodup once, List.length_map,
    List.countP_eq_length_filter]

end Exact

/-- The total is the number of triangles, and the counter of a vertex is the number of those it
belongs to. -/
theorem triangleCount_exact (order : Enumeration) (calls : List EdgeCall)
    (small : (build calls).vertexCount < 2 ^ 32) (few : (triangles calls).ncard < 2 ^ 64) :
    Interned calls ∧ triangleCount order (build calls) =
      some ((List.range (build calls).vertexCount).map
          (fun vertex => {set | set ∈ triangles calls ∧ vertex ∈ set}.ncard),
        (triangles calls).ncard) := by
  have total : (triangles calls).ncard = (foundTriples order (build calls)).length := by
    have every := ncard_triangles order small (fun _ => True)
    simpa using every
  refine ⟨interned_build small, ?_⟩
  rw [triangleCount_eq order (build calls) small
      (fun v u neighbor => (joined_lt small ((mem_neighborSet small v u).mp neighbor).1).2),
    foldlM_countTriangle _ (fun triple found => ((mem_foundTriples_iff order small triple).mp
      found).1) (total ▸ few), total]
  refine congrArg (fun counts => some (counts, _)) (List.map_congr_left fun vertex _ => ?_)
  exact (ncard_triangles order small (fun set => vertex ∈ set)).symm

def risingOrder : Enumeration where
  list := fun _ set => (List.range (set.sup id + 1)).filter (· ∈ set)
  nodup := fun _ _ => List.nodup_range.filter _
  mem := fun _ set one => by
    rw [List.mem_filter, List.mem_range, decide_eq_true_iff, Nat.lt_succ_iff]
    exact and_iff_right_of_imp (Finset.le_sup (f := id))

/-- Two triangles with a side in common, one side doubled, one in both directions, and a loop. -/
def kite : List EdgeCall :=
  [⟨[1], [2], none⟩, ⟨[2], [3], none⟩, ⟨[3], [1], none⟩, ⟨[1], [1], none⟩, ⟨[1], [2], none⟩,
    ⟨[2], [1], none⟩, ⟨[4], [2], none⟩, ⟨[3], [4], none⟩]

theorem triangleCount_exact_kite :
    triangleCount risingOrder (build kite) = some ([1, 2, 2, 1], 2) ∧
      (triangles kite).ncard = 2 := by
  have small : (build kite).vertexCount < 2 ^ 32 := by decide
  have every : {set | set ∈ triangles kite ∧ True}.ncard = 2 :=
    (ncard_triangles risingOrder small fun _ => True).trans (by decide)
  have two : (triangles kite).ncard = 2 := by simpa only [and_true, Set.ofPred_mem_eq] using every
  have counted := (triangleCount_exact risingOrder kite small (by rw [two]; decide)).2
  have found : triangleCount risingOrder (build kite) = some ([1, 2, 2, 1], 2) := by decide
  rw [found, Option.some.injEq, Prod.mk.injEq] at counted
  exact ⟨found, counted.2.symm⟩

end Pantheon.Keystone.Graph
