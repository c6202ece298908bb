import Mathlib
import Pantheon.Lib.Bytes

/-!
# Adjacency lists: `graph/mod.rs`

A vertex is a key with a number of 32 bits.  As long as the numbers do not run out, the lists
of a graph say exactly which edges were added, in both directions.
-/

set_option autoImplicit false

namespace Pantheon.Keystone.Graph

open Pantheon.Lib

inductive Direction where
  | out
  | in
  | both
deriving DecidableEq

structure Edge where
  toId : Nat
  relType : Option String

structure AdjacencyGraph where
  keyToId : Bytes → Option Nat
  keys : List Bytes
  outAdj : List (List Edge)
  inAdj : List (List Edge)

namespace AdjacencyGraph

def new : AdjacencyGraph := ⟨fun _ => none, [], [], []⟩

def intern (graph : AdjacencyGraph) (key : Bytes) : AdjacencyGraph × Nat :=
  match graph.keyToId key with
  | some id => (graph, id)
  | none =>
      let id := graph.keys.length % 2 ^ 32
      (⟨Function.update graph.keyToId key (some id), graph.keys ++ [key], graph.outAdj ++ [[]],
        graph.inAdj ++ [[]]⟩, id)

def idOf (graph : AdjacencyGraph) (key : Bytes) : Option Nat := graph.keyToId key

def vertexCount (graph : AdjacencyGraph) : Nat := graph.keys.length

def vertexIds (graph : AdjacencyGraph) : List Nat := List.range (graph.keys.length % 2 ^ 32)

def addEdge (graph : AdjacencyGraph) (source target : Bytes) (relType : Option String) :
    AdjacencyGraph :=
  let (graph, fromId) := graph.intern source
  let (graph, toId) := graph.intern target
  { graph with
    outAdj := graph.outAdj.modify fromId (· ++ [⟨toId, relType⟩])
    inAdj := graph.inAdj.modify toId (· ++ [⟨fromId, relType⟩]) }

def outEdges (graph : AdjacencyGraph) (id : Nat) : List Edge := graph.outAdj[id]?.getD []

def inEdges (graph : AdjacencyGraph) (id : Nat) : List Edge := graph.inAdj[id]?.getD []

def neighbors (graph : AdjacencyGraph) (id : Nat) (dir : Direction) :
    List (Nat × Option String) :=
  match dir with
  | .out => (graph.outEdges id).map fun edge => (edge.toId, edge.relType)
  | .in => (graph.inEdges id).map fun edge => (edge.toId, edge.relType)
  | .both => (graph.outEdges id).map (fun edge => (edge.toId, edge.relType)) ++
      (graph.inEdges id).map (fun edge => (edge.toId, edge.relType))

end AdjacencyGraph

/-- The arguments of a call of `add_edge`. -/
structure EdgeCall where
  source : Bytes
  target : Bytes
  relType : Option String

def build (calls : List EdgeCall) : AdjacencyGraph :=
  calls.foldl (fun graph call => graph.addEdge call.source call.target call.relType)
    AdjacencyGraph.new

/-- Some call added an edge between the two vertices, in the given direction. -/
def Joined (calls : List EdgeCall) (dir : Direction) (one other : Nat) : Prop :=
  match dir with
  | .out => ∃ call ∈ calls, (build calls).idOf call.source = some one ∧
      (build calls).idOf call.target = some other
  | .in => ∃ call ∈ calls, (build calls).idOf call.source = some other ∧
      (build calls).idOf call.target = some one
  | .both => ∃ call ∈ calls, ((build calls).idOf call.source = some one ∧
        (build calls).idOf call.target = some other) ∨
      ((build calls).idOf call.source = some other ∧ (build calls).idOf call.target = some one)

/-! ## Numbers of vertices -/

/-- The numbers of the keys are their places. -/
structure Numbered (graph : AdjacencyGraph) : Prop where
  ids : ∀ key id, graph.keyToId key = some id ↔ graph.keys[id]? = some key
  outLength : graph.outAdj.length = graph.keys.length
  inLength : graph.inAdj.length = graph.keys.length

section Intern

variable {graph : AdjacencyGraph} {key : Bytes}

theorem Numbered.id_lt (numbered : Numbered graph) {id : Nat}
    (known : graph.keyToId key = some id) : id < graph.keys.length :=
  (List.getElem?_eq_some_iff.mp ((numbered.ids key id).mp known)).1

/-- What interning a key does: the key has the number, the others keep theirs, and the lists
grow at their ends only. -/
theorem intern_spec (numbered : Numbered graph)
    (small : (graph.intern key).1.keys.length < 2 ^ 32) :
    Numbered (graph.intern key).1 ∧
      (graph.intern key).1.keyToId key = some (graph.intern key).2 ∧
      (∀ other id, graph.keyToId other = some id → (graph.intern key).1.keyToId other = some id) ∧
      (∀ id, (graph.intern key).1.outEdges id = graph.outEdges id) ∧
      (∀ id, (graph.intern key).1.inEdges id = graph.inEdges id) ∧
      graph.keys.length ≤ (graph.intern key).1.keys.length := by
  unfold AdjacencyGraph.intern at small ⊢
  cases known : graph.keyToId key with
  | some id => exact ⟨numbered, known, fun _ _ same => same, fun _ => rfl, fun _ => rfl, le_rfl⟩
  | none =>
      rw [known] at small
      simp only [List.length_append, List.length_singleton] at small
      have number : graph.keys.length % 2 ^ 32 = graph.keys.length :=
        Nat.mod_eq_of_lt (by omega)
      simp only [number]
      have absent : key ∉ graph.keys := by
        intro listed
        obtain ⟨id, there⟩ := List.mem_iff_getElem?.mp listed
        rw [(numbered.ids key id).mpr there] at known
        cases known
      have edges (lists : List (List Edge)) (id : Nat) :
          (lists ++ [[]])[id]?.getD [] = lists[id]?.getD [] := by
        rcases Nat.lt_trichotomy id lists.length with inside | last | outside
        · rw [List.getElem?_append_left inside]
        · rw [last, List.getElem?_append_right le_rfl, Nat.sub_self,
            List.getElem?_eq_none (Nat.le_refl lists.length)]
          rfl
        · rw [List.getElem?_eq_none (by simp; omega), List.getElem?_eq_none (by omega)]
      refine ⟨⟨fun other id => ?_, ?_, ?_⟩, Function.update_self _ _ _, fun other id same => ?_,
        edges graph.outAdj, edges graph.inAdj, by simp⟩
      · dsimp only
        by_cases same : other = key
        · subst same
          rw [Function.update_self]
          constructor
          · intro number
            rw [← Option.some.inj number, List.getElem?_append_right le_rfl, Nat.sub_self]
            rfl
          · intro there
            by_cases inside : id < graph.keys.length
            · rw [List.getElem?_append_left inside] at there
              exact absurd (List.mem_of_getElem? there) absent
            · have bound := (List.getElem?_eq_some_iff.mp there).1
              rw [List.length_append, List.length_singleton] at bound
              have last : id = graph.keys.length := by omega
              rw [last]
        · rw [Function.update_of_ne same, numbered.ids other id]
          by_cases inside : id < graph.keys.length
          · rw [List.getElem?_append_left inside]
          · rw [List.getElem?_eq_none (by omega), List.getElem?_append_right (by omega)]
            constructor
            · intro there
              cases there
            · intro there
              have only := List.mem_singleton.mp (List.mem_of_getElem? there)
              exact absurd only same
      · simp [numbered.outLength]
      · simp [numbered.inLength]
      · have apart : other ≠ key := by
          rintro rfl
          rw [known] at same
          cases same
        exact (Function.update_of_ne apart _ _).trans same

theorem length_le_intern : graph.keys.length ≤ (graph.intern key).1.keys.length := by
  unfold AdjacencyGraph.intern
  cases graph.keyToId key with
  | some id => exact le_rfl
  | none => simp

theorem getD_modify (lists : List (List Edge)) {place : Nat} (inside : place < lists.length)
    (edge : Edge) (id : Nat) : (lists.modify place (· ++ [edge]))[id]?.getD [] =
      lists[id]?.getD [] ++ if place = id then [edge] else [] := by
  rw [List.getElem?_modify]
  split_ifs with same
  · rw [← same, List.getElem?_eq_getElem inside]
    rfl
  · rw [List.append_nil]
    cases lists[id]? <;> rfl

end Intern

/-! ## What the lists say -/

/-- The lists have an edge where a call added one. -/
structure Recorded (calls : List EdgeCall) (graph : AdjacencyGraph) : Prop where
  numbered : Numbered graph
  known : ∀ call ∈ calls, ∃ one other, graph.keyToId call.source = some one ∧
    graph.keyToId call.target = some other
  outgoing : ∀ one other, other ∈ (graph.outEdges one).map Edge.toId ↔
    ∃ call ∈ calls, graph.keyToId call.source = some one ∧
      graph.keyToId call.target = some other
  incoming : ∀ one other, one ∈ (graph.inEdges other).map Edge.toId ↔
    ∃ call ∈ calls, graph.keyToId call.source = some one ∧
      graph.keyToId call.target = some other

theorem recorded_new : Recorded [] AdjacencyGraph.new where
  numbered := ⟨fun _ _ => by simp [AdjacencyGraph.new], rfl, rfl⟩
  known := fun _ listed => absurd listed List.not_mem_nil
  outgoing := fun _ _ => by simp [AdjacencyGraph.outEdges, AdjacencyGraph.new]
  incoming := fun _ _ => by simp [AdjacencyGraph.inEdges, AdjacencyGraph.new]

theorem vertexCount_addEdge (graph : AdjacencyGraph) (source target : Bytes)
    (relType : Option String) : (graph.addEdge source target relType).vertexCount =
      ((graph.intern source).1.intern target).1.keys.length := rfl

theorem calls_of_extension {calls : List EdgeCall} {graph next : AdjacencyGraph}
    (recorded : Recorded calls graph)
    (keeps : ∀ key id, graph.keyToId key = some id → next.keyToId key = some id) (one other : Nat) :
    (∃ call ∈ calls, next.keyToId call.source = some one ∧ next.keyToId call.target = some other) ↔
      ∃ call ∈ calls, graph.keyToId call.source = some one ∧
        graph.keyToId call.target = some other := by
  constructor
  · rintro ⟨call, listed, source, target⟩
    obtain ⟨first, second, sourceId, targetId⟩ := recorded.known call listed
    rw [keeps _ _ sourceId] at source
    rw [keeps _ _ targetId] at target
    exact ⟨call, listed, sourceId.trans source, targetId.trans target⟩
  · rintro ⟨call, listed, source, target⟩
    exact ⟨call, listed, keeps _ _ source, keeps _ _ target⟩

theorem recorded_addEdge {calls : List EdgeCall} {graph : AdjacencyGraph} (call : EdgeCall)
    (recorded : Recorded calls graph)
    (small : (graph.addEdge call.source call.target call.relType).vertexCount < 2 ^ 32) :
    Recorded (calls ++ [call]) (graph.addEdge call.source call.target call.relType) := by
  rw [vertexCount_addEdge] at small
  have smallFirst : (graph.intern call.source).1.keys.length < 2 ^ 32 :=
    Nat.lt_of_le_of_lt length_le_intern small
  obtain ⟨numberedOne, ofSource, keepsOne, outOne, inOne, _⟩ :=
    intern_spec recorded.numbered smallFirst
  obtain ⟨numbered, ofTarget, keepsTwo, outTwo, inTwo, _⟩ := intern_spec numberedOne small
  have sourceKnown := keepsTwo _ _ ofSource
  have keeps := fun key id known => keepsTwo key id (keepsOne key id known)
  set middle := ((graph.intern call.source).1.intern call.target).1
  set source := (graph.intern call.source).2
  set target := ((graph.intern call.source).1.intern call.target).2
  have sourceInside : source < middle.outAdj.length := by
    rw [numbered.outLength]
    exact numbered.id_lt sourceKnown
  have targetInside : target < middle.inAdj.length := by
    rw [numbered.inLength]
    exact numbered.id_lt ofTarget
  -- the new call speaks of its own two numbers only
  have ofCall (one other : Nat) : (middle.keyToId call.source = some one ∧
      middle.keyToId call.target = some other) ↔ source = one ∧ target = other := by
    rw [sourceKnown, ofTarget, Option.some.injEq, Option.some.injEq]
  have split (one other : Nat) :
      (∃ each ∈ calls ++ [call], middle.keyToId each.source = some one ∧
        middle.keyToId each.target = some other) ↔
      (∃ each ∈ calls, graph.keyToId each.source = some one ∧
        graph.keyToId each.target = some other) ∨ (source = one ∧ target = other) := by
    rw [← calls_of_extension recorded keeps, ← ofCall]
    simp only [List.mem_append, List.mem_singleton, or_and_right, exists_or, exists_eq_left]
  have outSame (id : Nat) : middle.outEdges id = graph.outEdges id :=
    (outTwo id).trans (outOne id)
  have inSame (id : Nat) : middle.inEdges id = graph.inEdges id :=
    (inTwo id).trans (inOne id)
  refine ⟨⟨numbered.ids, ?_, ?_⟩, fun each listed => ?_, fun one other => ?_, fun one other => ?_⟩
  · exact (List.length_modify _ _ _).trans numbered.outLength
  · exact (List.length_modify _ _ _).trans numbered.inLength
  · rcases List.mem_append.mp listed with earlier | last
    · obtain ⟨one, other, first, second⟩ := recorded.known each earlier
      exact ⟨one, other, keeps _ _ first, keeps _ _ second⟩
    · rw [List.mem_singleton.mp last]
      exact ⟨source, target, sourceKnown, ofTarget⟩
  · refine Iff.trans ?_ (split one other).symm
    rw [← recorded.outgoing one other, ← outSame one]
    change other ∈ List.map Edge.toId
      ((middle.outAdj.modify source (· ++ [⟨target, call.relType⟩]))[one]?.getD []) ↔ _
    rw [getD_modify _ sourceInside, List.map_append, List.mem_append]
    refine or_congr Iff.rfl ?_
    split_ifs with same
    · simp [same, eq_comm]
    · simp [same]
  · refine Iff.trans ?_ (split one other).symm
    rw [← recorded.incoming one other, ← inSame other]
    change one ∈ List.map Edge.toId
      ((middle.inAdj.modify target (· ++ [⟨source, call.relType⟩]))[other]?.getD []) ↔ _
    rw [getD_modify _ targetInside, List.map_append, List.mem_append]
    refine or_congr Iff.rfl ?_
    split_ifs with same
    · simp [same, eq_comm]
    · simp [same]

theorem vertexCount_le_addEdge (graph : AdjacencyGraph) (source target : Bytes)
    (relType : Option String) :
    graph.vertexCount ≤ (graph.addEdge source target relType).vertexCount :=
  Nat.le_trans length_le_intern length_le_intern

theorem build_append (calls : List EdgeCall) (call : EdgeCall) : build (calls ++ [call]) =
    (build calls).addEdge call.source call.target call.relType := by
  rw [build, List.foldl_append]
  rfl

theorem recorded_build (calls : List EdgeCall) (small : (build calls).vertexCount < 2 ^ 32) :
    Recorded calls (build calls) := by
  induction calls using List.reverseRecOn with
  | nil => exact recorded_new
  | append_singleton calls call ih =>
      rw [build_append] at small ⊢
      exact recorded_addEdge call
        (ih (Nat.lt_of_le_of_lt (vertexCount_le_addEdge _ _ _ _) small)) small

/-- Both ends of every call have a number, and no number stands for two keys. -/
structure Interned (calls : List EdgeCall) : Prop where
  known : ∀ call ∈ calls, ∃ one other, (build calls).idOf call.source = some one ∧
    (build calls).idOf call.target = some other
  apart : ∀ key other id, (build calls).idOf key = some id →
    (build calls).idOf other = some id → key = other

section Neighbors

variable {calls : List EdgeCall} (small : (build calls).vertexCount < 2 ^ 32)
include small

theorem interned_build : Interned calls where
  known := (recorded_build calls small).known
  apart key other id first second := by
    have ids := (recorded_build calls small).numbered.ids
    exact Option.some.inj (((ids key id).mp first).symm.trans ((ids other id).mp second))

theorem mem_neighbors_iff (one other : Nat) (dir : Direction) :
    other ∈ ((build calls).neighbors one dir).map Prod.fst ↔ Joined calls dir one other := by
  have recorded := recorded_build calls small
  have outgoing := recorded.outgoing one other
  have incoming := recorded.incoming other one
  cases dir with
  | out =>
      rw [AdjacencyGraph.neighbors, List.map_map]
      exact outgoing
  | «in» =>
      rw [AdjacencyGraph.neighbors, List.map_map]
      exact incoming
  | both =>
      rw [AdjacencyGraph.neighbors, List.map_append, List.mem_append, List.map_map, List.map_map]
      refine (or_congr outgoing incoming).trans ?_
      rw [Joined, ← exists_or]
      simp only [AdjacencyGraph.idOf, and_or_left]

theorem joined_lt {dir : Direction} {one other : Nat} (joined : Joined calls dir one other) :
    one < (build calls).vertexCount ∧ other < (build calls).vertexCount := by
  have numbered := (recorded_build calls small).numbered
  cases dir with
  | out =>
      obtain ⟨_, _, source, target⟩ := joined
      exact ⟨numbered.id_lt source, numbered.id_lt target⟩
  | «in» =>
      obtain ⟨_, _, source, target⟩ := joined
      exact ⟨numbered.id_lt target, numbered.id_lt source⟩
  | both =>
      obtain ⟨_, _, ⟨source, target⟩ | ⟨source, target⟩⟩ := joined
      · exact ⟨numbered.id_lt source, numbered.id_lt target⟩
      · exact ⟨numbered.id_lt target, numbered.id_lt source⟩

end Neighbors

theorem joined_both_symm {calls : List EdgeCall} {one other : Nat}
    (joined : Joined calls .both one other) : Joined calls .both other one := by
  obtain ⟨call, listed, ends⟩ := joined
  exact ⟨call, listed, ends.symm⟩

end Pantheon.Keystone.Graph
