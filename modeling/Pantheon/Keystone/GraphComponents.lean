import Mathlib
import Pantheon.Keystone.Graph
import Pantheon.Lib.BreadthFirst

/-!
# Connected components: `graph/algorithms.rs`

`connected_components` floods the graph from every vertex that has no number yet, so that the
numbers tell apart exactly the vertices that no chain of edges joins.
-/

set_option autoImplicit false

namespace Pantheon.Keystone.Graph

open Pantheon.Lib

def unmarked : Nat := 2 ^ 32 - 1

def spread (number : Nat) (state : List Nat × List Nat) (n : Nat) :
    Option (List Nat × List Nat) := do
  let mark ← state.1[n]?
  if mark = unmarked then some (state.1.set n number, state.2 ++ [n]) else some state

def fillLoop (graph : AdjacencyGraph) (number : Nat) :
    Nat → List Nat → List Nat → Option (List Nat)
  | 0, _, _ => none
  | _ + 1, component, [] => some component
  | fuel + 1, component, v :: queue => do
      let (component, queue) ← (graph.neighbors v .both).foldlM
        (fun state neighbor => spread number state neighbor.1) (component, queue)
      fillLoop graph number fuel component queue

def floodFrom (graph : AdjacencyGraph) (state : List Nat × Nat) (start : Nat) :
    Option (List Nat × Nat) := do
  let mark ← state.1[start]?
  if mark ≠ unmarked then some state
  else
    let component ← fillLoop graph state.2 (graph.vertexCount + 2) (state.1.set start state.2)
      [start]
    some (component, (state.2 + 1) % 2 ^ 32)

def connectedComponents (graph : AdjacencyGraph) : Option (List Nat) :=
  (graph.vertexIds.foldlM (floodFrom graph)
    (List.replicate graph.vertexCount unmarked, 0)).map Prod.fst

/-! ## One flood -/

theorem spread_eq {number n mark : Nat} {component queue : List Nat}
    (there : component[n]? = some mark) : spread number (component, queue) n =
      if mark = unmarked then some (component.set n number, queue ++ [n])
      else some (component, queue) := by
  rw [spread, there]
  rfl

theorem foldlM_spread {number : Nat} (proper : number ≠ unmarked) (names : List Nat) :
    ∀ (component queue : List Nat), (∀ one ∈ names, one < component.length) →
      ∃ painted new,
        names.foldlM (spread number) (component, queue) = some (painted, queue ++ new) ∧
        new.Nodup ∧ (∀ one, one ∈ new ↔ one ∈ names ∧ component[one]? = some unmarked) ∧
        painted.length = component.length ∧
        ∀ one, painted[one]? = if one ∈ new then some number else component[one]? := by
  induction names with
  | nil =>
      intro component queue _
      refine ⟨component, [], ?_, List.nodup_nil, fun one => by simp, rfl, fun one => ?_⟩
      · rw [List.append_nil]
        rfl
      · rw [if_neg List.not_mem_nil]
  | cons name rest ih =>
      intro component queue inside
      have place : name < component.length := inside name List.mem_cons_self
      have others : ∀ one ∈ rest, one < component.length :=
        fun one later => inside one (List.mem_cons_of_mem _ later)
      have mark : component[name]? = some component[name] := List.getElem?_eq_getElem place
      rw [List.foldlM_cons, spread_eq mark]
      split_ifs with unset
      · rw [Option.bind_eq_bind, Option.bind_some]
        obtain ⟨painted, new, ran, once, chosen, length, colours⟩ :=
          ih (component.set name number) (queue ++ [name])
            (fun one later => by rw [List.length_set]; exact others one later)
        have setOther (one : Nat) (apart : one ≠ name) :
            (component.set name number)[one]? = component[one]? :=
          List.getElem?_set_ne apart.symm
        have setSelf : (component.set name number)[name]? = some number :=
          List.getElem?_set_self place
        refine ⟨painted, name :: new, ?_, ?_, fun one => ?_, ?_, fun one => ?_⟩
        · rw [List.append_assoc] at ran
          exact ran
        · refine List.nodup_cons.mpr ⟨fun again => ?_, once⟩
          have marked := ((chosen name).mp again).2
          rw [setSelf] at marked
          exact proper (Option.some.inj marked)
        · rw [List.mem_cons, List.mem_cons, chosen]
          by_cases same : one = name
          · subst same
            rw [mark, unset]
            simp
          · rw [setOther one same]
            simp [same]
        · rw [length, List.length_set]
        · rw [colours one]
          by_cases same : one = name
          · subst same
            rw [setSelf, if_pos List.mem_cons_self, ite_self]
          · rw [setOther one same]
            simp [same]
      · rw [Option.bind_eq_bind, Option.bind_some]
        obtain ⟨painted, new, ran, once, chosen, length, colours⟩ := ih component queue others
        refine ⟨painted, new, ran, once, fun one => ?_, length, colours⟩
        rw [chosen, List.mem_cons]
        by_cases same : one = name
        · subst same
          rw [mark, Option.some.injEq]
          tauto
        · simp [same]

/-- During a flood the vertices it has found have its number and the others their old one. -/
structure Painted (number : Nat) (before component : List Nat) (found : List (Nat × Nat)) :
    Prop where
  length : component.length = before.length
  fresh : ∀ one ∈ found.map Prod.fst, before[one]? = some unmarked
  colours : ∀ one, component[one]? =
    if one ∈ found.map Prod.fst then some number else before[one]?

section Flood

variable {calls : List EdgeCall} (small : (build calls).vertexCount < 2 ^ 32) {start : Nat}
  {number : Nat} (proper : number ≠ unmarked) {before : List Nat}
  (whole : before.length = (build calls).vertexCount)
  (apart : ∀ one other, Joined calls .both one other → before[one]? = some unmarked →
    before[other]? = some unmarked)

include small proper whole apart

theorem fillLoop_search (fuel : Nat) :
    ∀ (component : List Nat) (out queue : List (Nat × Nat)),
      Search (Joined calls .both) start (fun _ => True) out queue →
      Painted number before component (out ++ queue) →
      (build calls).vertexCount + 1 < out.length + fuel →
      ∃ final painted, fillLoop (build calls) number fuel component (queue.map Prod.fst) =
          some painted ∧ Search (Joined calls .both) start (fun _ => True) final [] ∧
        Painted number before painted final := by
  induction fuel with
  | zero =>
      intro component out queue search _ enough
      have bound := search.length_le (Finset.range (build calls).vertexCount)
        (fun one other joined => Finset.mem_range.mpr (joined_lt small joined).2)
      rw [Finset.card_range, List.length_append] at bound
      omega
  | succ fuel ih =>
      intro component out queue search painted enough
      cases queue with
      | nil => exact ⟨out, component, rfl, search, List.append_nil out ▸ painted⟩
      | cons entry queue =>
          obtain ⟨v, depth⟩ := entry
          have neighbor (one : Nat) := mem_neighbors_iff small v one .both
          obtain ⟨next, new, ran, once, chosen, length, colours⟩ := foldlM_spread proper
            (((build calls).neighbors v .both).map Prod.fst) component (queue.map Prod.fst)
            (fun one listed => by
              rw [painted.length, whole]
              exact (joined_lt small ((neighbor one).mp listed)).2)
          have vertex : v ∈ (out ++ (v, depth) :: queue).map Prod.fst :=
            List.mem_map_of_mem (f := Prod.fst)
              (List.mem_append_right out (List.mem_cons_self (a := (v, depth)) (l := queue)))
          have untouched (one : Nat) (joined : Joined calls .both v one) :
              before[one]? = some unmarked :=
            apart v one joined (painted.fresh v vertex)
          have chosen (one : Nat) : one ∈ new ↔ Joined calls .both v one ∧
              one ∉ (out ++ (v, depth) :: queue).map Prod.fst := by
            rw [chosen, neighbor, painted.colours]
            refine and_congr_right fun joined => ?_
            split_ifs with known
            · exact ⟨fun same => absurd (Option.some.inj same) proper,
                fun absent => absurd known absent⟩
            · exact ⟨fun _ => known, fun _ => untouched one joined⟩
          have after := search.step once
            (fun one inside => ⟨trivial, (chosen one).mp inside⟩)
            (fun _ one joined => by
              by_cases known : one ∈ (out ++ (v, depth) :: queue).map Prod.fst
              · exact Or.inr known
              · exact Or.inl ((chosen one).mpr ⟨joined, known⟩))
          have names : (new.map fun one => (one, depth + 1)).map Prod.fst = new := by
            rw [List.map_map]
            exact List.map_id _
          rw [List.foldlM_map] at ran
          rw [List.map_cons, fillLoop, ran, Option.bind_eq_bind, Option.bind_some]
          dsimp only
          rw [← names, ← List.map_append]
          refine ih next (out ++ [(v, depth)]) _ after ⟨length.trans painted.length, ?_, ?_⟩ ?_
          · rw [found_after, List.map_append, names]
            intro one listed
            rcases List.mem_append.mp listed with known | added
            · exact painted.fresh one known
            · exact untouched one ((chosen one).mp added).1
          · rw [found_after, List.map_append, names]
            intro one
            rw [colours, painted.colours]
            by_cases added : one ∈ new
            · rw [if_pos added, if_pos (List.mem_append_right _ added)]
            · rw [if_neg added]
              exact if_congr (List.mem_append.trans (or_iff_left added)).symm rfl rfl
          · rw [List.length_append, List.length_singleton]
            omega

end Flood

/-! ## All floods -/

/-- After the vertices below `next` have been tried: those with a number form whole components,
told apart by the numbers below `count`, all of which are in use. -/
structure Numbering (calls : List EdgeCall) (next : Nat) (component : List Nat) (count : Nat) :
    Prop where
  length : component.length = (build calls).vertexCount
  few : count ≤ next
  tried : ∀ one < next, component[one]? ≠ some unmarked
  below : ∀ one number : Nat, component[one]? = some number → number = unmarked ∨ number < count
  used : ∀ number < count, ∃ one : Nat, component[one]? = some number
  apart : ∀ one other, Joined calls .both one other → component[one]? = some unmarked →
    component[other]? = some unmarked
  same : ∀ one other number : Nat, number ≠ unmarked → component[one]? = some number →
    (component[other]? = some number ↔ Relation.ReflTransGen (Joined calls .both) one other)

section Floods

variable {calls : List EdgeCall}

theorem numbering_start (small : (build calls).vertexCount < 2 ^ 32) :
    Numbering calls 0 (List.replicate (build calls).vertexCount unmarked) 0 := by
  have only (one number : Nat) (there :
      (List.replicate (build calls).vertexCount unmarked)[one]? = some number) :
      number = unmarked :=
    List.eq_of_mem_replicate (List.mem_of_getElem? there)
  refine ⟨List.length_replicate, le_rfl, fun _ less => absurd less (Nat.not_lt_zero _),
    fun one number there => Or.inl (only one number there),
    fun _ less => absurd less (Nat.not_lt_zero _), fun one other joined _ => ?_,
    fun one _ number proper there => absurd (only one number there) proper⟩
  exact List.getElem?_replicate_of_lt (joined_lt small joined).2

theorem reaches_symm {one other : Nat}
    (reached : Relation.ReflTransGen (Joined calls .both) one other) :
    Relation.ReflTransGen (Joined calls .both) other one := by
  induction reached with
  | refl => exact Relation.ReflTransGen.refl
  | tail _ joined ih => exact Relation.ReflTransGen.head (joined_both_symm joined) ih

/-- A flood that has found the vertices reached from an unmarked one gives them a number of
their own. -/
theorem Numbering.flood {start count : Nat} {before after : List Nat} {found : List (Nat × Nat)}
    (numbering : Numbering calls start before count) (proper : count < unmarked)
    (painted : Painted count before after found)
    (members : ∀ one, one ∈ found.map Prod.fst ↔
      Relation.ReflTransGen (Joined calls .both) start one) :
    Numbering calls (start + 1) after (count + 1) := by
  have inside (one : Nat) (listed : one ∈ found.map Prod.fst) : after[one]? = some count :=
    (painted.colours one).trans (if_pos listed)
  have outside (one : Nat) (absent : one ∉ found.map Prod.fst) : after[one]? = before[one]? :=
    (painted.colours one).trans (if_neg absent)
  -- numbers that are in use are neither the new one nor the mark
  have older {one number : Nat} (set : number ≠ unmarked) (there : before[one]? = some number) :
      number < count :=
    (numbering.below one number there).resolve_left set
  refine ⟨painted.length.trans numbering.length, Nat.succ_le_succ numbering.few,
    fun one less => ?_, fun one number there => ?_, fun number less => ?_,
    fun one other joined unset => ?_, fun one other number set there => ?_⟩
  · by_cases listed : one ∈ found.map Prod.fst
    · rw [inside one listed]
      exact fun same => absurd (Option.some.inj same) proper.ne
    · rw [outside one listed]
      refine numbering.tried one (Nat.lt_of_le_of_ne (Nat.le_of_lt_succ less) ?_)
      rintro rfl
      exact listed ((members _).mpr Relation.ReflTransGen.refl)
  · by_cases listed : one ∈ found.map Prod.fst
    · rw [inside one listed] at there
      exact Or.inr (Option.some.inj there ▸ Nat.lt_succ_self count)
    · rw [outside one listed] at there
      exact (numbering.below one number there).imp_right Nat.lt_succ_of_lt
  · rcases Nat.lt_or_eq_of_le (Nat.le_of_lt_succ less) with old | rfl
    · obtain ⟨one, there⟩ := numbering.used number old
      refine ⟨one, (outside one fun listed => ?_).trans there⟩
      rw [painted.fresh one listed] at there
      exact absurd (Option.some.inj there) (old.trans proper).ne'
    · exact ⟨start, inside start ((members start).mpr Relation.ReflTransGen.refl)⟩
  · have absent : one ∉ found.map Prod.fst := by
      intro listed
      rw [inside one listed] at unset
      exact absurd (Option.some.inj unset) proper.ne
    rw [outside one absent] at unset
    rw [outside other fun listed => absent ((members one).mpr
      (((members other).mp listed).tail (joined_both_symm joined)))]
    exact numbering.apart one other joined unset
  · by_cases listed : one ∈ found.map Prod.fst
    · rw [inside one listed] at there
      obtain rfl := Option.some.inj there
      have reached := (members one).mp listed
      by_cases also : other ∈ found.map Prod.fst
      · rw [inside other also]
        exact ⟨fun _ => (reaches_symm reached).trans ((members other).mp also), fun _ => rfl⟩
      · rw [outside other also]
        refine ⟨fun again => absurd (older set again) (Nat.lt_irrefl _), fun chain => ?_⟩
        exact absurd ((members other).mpr (reached.trans chain)) also
    · rw [outside one listed] at there
      rw [← numbering.same one other number set there]
      by_cases also : other ∈ found.map Prod.fst
      · rw [inside other also, painted.fresh other also]
        refine ⟨fun again => ?_, fun again => absurd (Option.some.inj again).symm set⟩
        exact absurd (Option.some.inj again) (older set there).ne'
      · rw [outside other also]

variable (small : (build calls).vertexCount < 2 ^ 32 - 1)
include small

theorem floodFrom_numbering {next count : Nat} {component : List Nat}
    (numbering : Numbering calls next component count) (vertex : next < (build calls).vertexCount) :
    ∃ after number, floodFrom (build calls) (component, count) next = some (after, number) ∧
      Numbering calls (next + 1) after number := by
  have place : next < component.length := numbering.length.symm ▸ vertex
  have mark : component[next]? = some component[next] := List.getElem?_eq_getElem place
  have few := numbering.few
  have proper : count < unmarked := by
    unfold unmarked
    omega
  rw [floodFrom, mark, Option.bind_eq_bind, Option.bind_some]
  split_ifs with set
  · refine ⟨component, count, rfl, numbering.length, few.trans (Nat.le_succ _), fun one less => ?_,
      numbering.below, numbering.used, numbering.apart, numbering.same⟩
    rcases Nat.lt_or_eq_of_le (Nat.le_of_lt_succ less) with old | rfl
    · exact numbering.tried one old
    · rw [mark]
      exact fun same => set (Option.some.inj same)
  · have unset : component[next]? = some unmarked := by
      rw [mark, not_not.mp set]
    have first : Painted count component (component.set next count) ([] ++ [(next, 0)]) := by
      refine ⟨List.length_set, fun one listed => ?_, fun one => ?_⟩
      · rw [List.mem_singleton.mp listed]
        exact unset
      · change _ = if one ∈ [next] then _ else _
        by_cases same : one = next
        · rw [same, if_pos (List.mem_singleton_self _)]
          exact List.getElem?_set_self place
        · rw [if_neg fun listed => same (List.mem_singleton.mp listed)]
          exact List.getElem?_set_ne (Ne.symm same)
    obtain ⟨final, after, ran, search, painted⟩ := fillLoop_search (Nat.lt_of_lt_pred small)
      proper.ne numbering.length numbering.apart ((build calls).vertexCount + 2) _ []
      [(next, 0)] search_start first (by simp)
    refine ⟨after, count + 1, ?_, numbering.flood proper painted fun one => ?_⟩
    · rw [List.map_singleton] at ran
      rw [ran, Option.bind_eq_bind, Option.bind_some, Nat.mod_eq_of_lt (by
        unfold unmarked at proper
        omega)]
    · constructor
      · intro listed
        obtain ⟨entry, inside, rfl⟩ := List.mem_map.mp listed
        exact (search.hops entry (List.mem_append_left _ inside)).reaches
      · intro reached
        obtain ⟨depth, hops⟩ := exists_hops_iff.mpr reached
        obtain ⟨number, _, inside⟩ := search.found depth
          (fun _ waiting => absurd waiting List.not_mem_nil) hops le_rfl (fun _ _ => trivial)
        rw [List.append_nil] at inside
        exact List.mem_map_of_mem (f := Prod.fst) inside

theorem floods_numbering (tried : Nat) (bound : tried ≤ (build calls).vertexCount) :
    ∃ component count, (List.range tried).foldlM (floodFrom (build calls))
        (List.replicate (build calls).vertexCount unmarked, 0) = some (component, count) ∧
      Numbering calls tried component count := by
  induction tried with
  | zero => exact ⟨_, 0, rfl, numbering_start (Nat.lt_of_lt_pred small)⟩
  | succ tried ih =>
      obtain ⟨component, count, ran, numbering⟩ := ih (Nat.le_of_succ_le bound)
      obtain ⟨after, number, flooded, numbering⟩ := floodFrom_numbering small numbering bound
      refine ⟨after, number, ?_, numbering⟩
      rw [List.range_succ, List.foldlM_append, ran, Option.bind_eq_bind, Option.bind_some,
        List.foldlM_cons, flooded]
      rfl

end Floods

/-- Every vertex has a number, two vertices the same exactly when a chain of edges joins them,
and the numbers are those below the number of components. -/
theorem connectedComponents_exact (calls : List EdgeCall)
    (small : (build calls).vertexCount < 2 ^ 32 - 1) : Interned calls ∧
    ∃ component count, connectedComponents (build calls) = some component ∧
      component.length = (build calls).vertexCount ∧
      (∀ number, number ∈ component ↔ number < count) ∧
      ∀ (one other : Nat) (first : one < component.length) (second : other < component.length),
        component[one] = component[other] ↔
          Relation.ReflTransGen (Joined calls .both) one other := by
  obtain ⟨component, count, ran, numbering⟩ := floods_numbering small _ le_rfl
  have set (one : Nat) (first : one < component.length) : component[one] ≠ unmarked := by
    have tried := numbering.tried one (numbering.length ▸ first)
    rw [List.getElem?_eq_getElem first] at tried
    exact fun same => tried (congrArg some same)
  refine ⟨interned_build (by omega), component, count, ?_, numbering.length,
    fun number => ⟨fun listed => ?_, fun less => ?_⟩, fun one other first second => ?_⟩
  · rw [connectedComponents, AdjacencyGraph.vertexIds, Nat.mod_eq_of_lt (by
      have same : (build calls).keys.length = (build calls).vertexCount := rfl
      omega)]
    exact congrArg (Option.map Prod.fst) ran
  · obtain ⟨one, first, rfl⟩ := List.getElem_of_mem listed
    exact (numbering.below one _ (List.getElem?_eq_getElem first)).resolve_left (set one first)
  · obtain ⟨one, there⟩ := numbering.used number less
    exact List.mem_of_getElem? there
  · rw [← numbering.same one other _ (set one first) (List.getElem?_eq_getElem first),
      List.getElem?_eq_getElem second, Option.some.injEq, eq_comm]

def twoPairs : List EdgeCall := [⟨[1], [2], none⟩, ⟨[3], [4], none⟩, ⟨[2], [2], none⟩]

theorem connectedComponents_exact_twoPairs :
    connectedComponents (build twoPairs) = some [0, 0, 1, 1] ∧
      ¬Relation.ReflTransGen (Joined twoPairs .both) 0 2 := by
  obtain ⟨_, component, _, ran, _, _, same⟩ := connectedComponents_exact twoPairs (by decide)
  have found : connectedComponents (build twoPairs) = some [0, 0, 1, 1] := by decide
  rw [found] at ran
  obtain rfl := Option.some.inj ran
  refine ⟨found, fun chain => ?_⟩
  exact absurd ((same 0 2 (by decide) (by decide)).mpr chain) (by decide)

end Pantheon.Keystone.Graph
