import Mathlib
import Pantheon.Lib.OrdMap
import Pantheon.Lib.Hex
import Pantheon.Lib.Worklist

/-!
# Role memberships: `wire/role_members.rs`

A row of the catalog table says that one role is a direct member of another; it
is stored under both names, separated by a NUL byte.
-/

set_option autoImplicit false

namespace Pantheon.Wire

open Pantheon.Lib

theorem mem_foldl_erase {Row : Type} (keys : List Bytes) (entry : Bytes × Row) :
    ∀ rows : OrdMap Bytes Row,
      entry ∈ (keys.foldl OrdMap.erase rows).toList ↔ entry ∈ rows.toList ∧ entry.1 ∉ keys := by
  induction keys with
  | nil => intro rows; simp
  | cons key rest ih =>
      intro rows
      rw [List.foldl_cons, ih, OrdMap.mem_erase, List.mem_cons, not_or, and_assoc]

theorem separated_inj {left right leftRest rightRest : List Char} (leftFree : '\x00' ∉ left)
    (rightFree : '\x00' ∉ right)
    (same : left ++ '\x00' :: leftRest = right ++ '\x00' :: rightRest) :
    left = right ∧ leftRest = rightRest := by
  induction left generalizing right with
  | nil =>
      cases right with
      | nil => exact ⟨rfl, (List.cons.inj same).2⟩
      | cons head right =>
          exact absurd (List.mem_cons.mpr (Or.inl (List.cons.inj same).1)) rightFree
  | cons head left ih =>
      cases right with
      | nil => exact absurd (List.mem_cons.mpr (Or.inl (List.cons.inj same).1.symm)) leftFree
      | cons other right =>
          obtain ⟨heads, tails⟩ := List.cons.inj same
          obtain ⟨lefts, rests⟩ := ih (fun member => leftFree (List.mem_cons_of_mem _ member))
            (fun member => rightFree (List.mem_cons_of_mem _ member)) tails
          exact ⟨by rw [heads, lefts], rests⟩

structure MemberRow where
  member : String
  group : String
deriving DecidableEq

abbrev RoleMembers := OrdMap Bytes MemberRow

namespace RoleMembers

def rowKey (member group : String) : Bytes := utf8Bytes (member ++ "\x00" ++ group)

def edges (rows : RoleMembers) : List (String × String) :=
  rows.toList.map fun entry => (entry.2.member, entry.2.group)

def directMemberships (rows : RoleMembers) (role : String) : List String :=
  direct rows.edges role

/-- The walk over `directMemberships`. -/
def allMemberships (rows : RoleMembers) (role : String) : List String :=
  walk rows.edges [] [role]

def grantMembership (rows : RoleMembers) (member group : String) : Except String RoleMembers :=
  if member = group then
    .error ("role \"" ++ member ++ "\" cannot be a member of itself")
  else if (rows.allMemberships member).contains group ||
      (rows.allMemberships group).contains member then
    .error ("granting \"" ++ member ++ "\" membership in \"" ++ group ++
      "\" would create a role-membership cycle")
  else .ok (rows.insert (rowKey member group) ⟨member, group⟩)

def revokeMembership (rows : RoleMembers) (member group : String) : RoleMembers :=
  rows.erase (rowKey member group)

def revokeAll (rows : RoleMembers) (role : String) : RoleMembers :=
  let doomed := (rows.toList.filter fun entry =>
    decide (entry.2.member = role ∨ entry.2.group = role)).map Prod.fst
  doomed.foldl OrdMap.erase rows

inductive Call where
  | grant (member group : String)
  | revoke (member group : String)
  | revokeAll (role : String)
deriving DecidableEq

def step (rows : RoleMembers) : Call → RoleMembers
  | .grant member group =>
      match rows.grantMembership member group with
      | .ok rows => rows
      | .error _ => rows
  | .revoke member group => rows.revokeMembership member group
  | .revokeAll role => rows.revokeAll role

def run (rows : RoleMembers) (calls : List Call) : RoleMembers := calls.foldl step rows

/-- A C string of the wire holds no NUL, so neither does a name in a statement. -/
def Call.NulFree : Call → Prop
  | .grant member group => '\x00' ∉ member.toList ∧ '\x00' ∉ group.toList
  | .revoke member group => '\x00' ∉ member.toList ∧ '\x00' ∉ group.toList
  | .revokeAll role => '\x00' ∉ role.toList

/-- What a call means for the graph, whatever is stored: a grant adds its edge
unless both ends are one role or a path joins them already. -/
def after (graph : String → String → Prop) : Call → String → String → Prop
  | .grant member group => fun one other => graph one other ∨
      one = member ∧ other = group ∧ member ≠ group ∧
        ¬Relation.TransGen graph member group ∧ ¬Relation.TransGen graph group member
  | .revoke member group => fun one other => graph one other ∧ ¬(one = member ∧ other = group)
  | .revokeAll role => fun one other => graph one other ∧ one ≠ role ∧ other ≠ role

/-- The memberships that a history of calls leaves, read off the calls alone. -/
def granted (calls : List Call) : String → String → Prop :=
  calls.foldl after fun _ _ => False

def Edge (rows : RoleMembers) (member group : String) : Prop := (member, group) ∈ rows.edges

/-! ## The graph -/

variable {rows : RoleMembers} {member group one other : String}

theorem edge_iff :
    rows.Edge member group ↔ ∃ key, (key, ⟨member, group⟩) ∈ rows.toList := by
  unfold Edge edges
  constructor
  · intro present
    obtain ⟨entry, inside, same⟩ := List.mem_map.mp present
    obtain ⟨rfl, rfl⟩ := Prod.mk.inj same
    exact ⟨entry.1, inside⟩
  · rintro ⟨key, inside⟩
    exact List.mem_map.mpr ⟨_, inside, rfl⟩

theorem mem_allMemberships (rows : RoleMembers) (role group : String) :
    group ∈ rows.allMemberships role ↔ Relation.TransGen rows.Edge role group :=
  mem_walk rows.edges role group

theorem edge_insert {key : Bytes} {row : MemberRow}
    (edge : Edge (rows.insert key row) one other) :
    rows.Edge one other ∨ one = row.member ∧ other = row.group := by
  obtain ⟨otherKey, inside⟩ := edge_iff.mp edge
  rcases (OrdMap.mem_insert _ _ _ _).mp inside with same | ⟨inside, _⟩
  · obtain ⟨_, rfl⟩ := Prod.mk.inj same
    exact Or.inr ⟨rfl, rfl⟩
  · exact Or.inl (edge_iff.mpr ⟨otherKey, inside⟩)

theorem edge_erase {key : Bytes}
    (edge : Edge (rows.erase key) one other) : rows.Edge one other := by
  obtain ⟨otherKey, inside⟩ := edge_iff.mp edge
  exact edge_iff.mpr ⟨otherKey, ((OrdMap.mem_erase _ _ _).mp inside).1⟩

theorem mem_revokeAll (rows : RoleMembers) (role : String) (entry : Bytes × MemberRow) :
    entry ∈ (rows.revokeAll role).toList ↔
      entry ∈ rows.toList ∧ entry.2.member ≠ role ∧ entry.2.group ≠ role := by
  unfold revokeAll
  rw [mem_foldl_erase]
  refine and_congr_right fun inside => ?_
  rw [← not_or]
  refine not_congr ⟨fun doomed => ?_, fun touches => ?_⟩
  · obtain ⟨other, member, same⟩ := List.mem_map.mp doomed
    obtain ⟨otherInside, touches⟩ := List.mem_filter.mp member
    rw [← rows.key_unique other entry otherInside inside same]
    exact of_decide_eq_true touches
  · exact List.mem_map.mpr ⟨entry, List.mem_filter.mpr ⟨inside, decide_eq_true touches⟩, rfl⟩

theorem edge_revokeAll (rows : RoleMembers) (role one other : String) :
    Edge (rows.revokeAll role) one other ↔ rows.Edge one other ∧ one ≠ role ∧ other ≠ role := by
  rw [edge_iff, edge_iff]
  simp only [mem_revokeAll]
  exact exists_and_right

theorem grantMembership_ok {next : RoleMembers}
    (granted : rows.grantMembership member group = .ok next) :
    next = rows.insert (rowKey member group) ⟨member, group⟩ ∧ member ≠ group ∧
      ¬Relation.TransGen rows.Edge group member := by
  unfold grantMembership at granted
  split_ifs at granted with self cycle
  cases granted
  refine ⟨rfl, self, fun path => cycle ?_⟩
  rw [Bool.or_eq_true, List.contains_iff_mem, List.contains_iff_mem]
  exact Or.inr ((mem_allMemberships rows group member).mpr path)

theorem acyclic_grantMembership {next : RoleMembers} (acyclic : Acyclic rows.Edge)
    (granted : rows.grantMembership member group = .ok next) :
    Acyclic next.Edge := by
  obtain ⟨rfl, apart, noReturn⟩ := grantMembership_ok granted
  exact acyclic.with_edge (fun _ _ => edge_insert) apart noReturn

theorem acyclic_step (acyclic : Acyclic rows.Edge) (call : Call) :
    Acyclic (rows.step call).Edge := by
  cases call with
  | grant member group =>
      cases granted : rows.grantMembership member group with
      | error message =>
          simp only [step, granted]
          exact acyclic
      | ok next =>
          simp only [step, granted]
          exact acyclic_grantMembership acyclic granted
  | revoke member group => exact acyclic.mono fun _ _ => edge_erase
  | revokeAll role => exact acyclic.mono fun _ _ edge => ((edge_revokeAll _ _ _ _).mp edge).1

theorem acyclic_run (calls : List Call) : ∀ rows : RoleMembers, Acyclic rows.Edge →
    Acyclic (rows.run calls).Edge := by
  induction calls with
  | nil => intro rows acyclic; exact acyclic
  | cons call rest ih => intro rows acyclic; exact ih _ (acyclic_step acyclic call)

/-! ## The graph of the calls -/

def Keyed (rows : RoleMembers) : Prop :=
  ∀ entry ∈ rows.toList, '\x00' ∉ entry.2.member.toList ∧
    entry.1 = rowKey entry.2.member entry.2.group

theorem rowKey_inj (free : '\x00' ∉ member.toList)
    (otherFree : '\x00' ∉ one.toList) (same : rowKey member group = rowKey one other) :
    member = one ∧ group = other := by
  have chars := congrArg String.toList (utf8Bytes_injective same)
  have nul : "\x00".toList = ['\x00'] := rfl
  simp only [String.toList_append, nul, List.append_assoc, List.singleton_append] at chars
  obtain ⟨members, groups⟩ := separated_inj free otherFree chars
  exact ⟨String.toList_injective members, String.toList_injective groups⟩

section Stored

variable {rows : RoleMembers} {member group : String}

theorem Keyed.edge_iff_row (keyed : rows.Keyed) :
    rows.Edge one other ↔ (rowKey one other, ⟨one, other⟩) ∈ rows.toList := by
  rw [edge_iff]
  constructor
  · rintro ⟨key, inside⟩
    obtain ⟨-, same⟩ := keyed _ inside
    rwa [← same]
  · exact fun inside => ⟨_, inside⟩

theorem Keyed.insert (keyed : rows.Keyed) (free : '\x00' ∉ member.toList) :
    Keyed (rows.insert (rowKey member group) ⟨member, group⟩) := by
  intro entry inside
  rcases (OrdMap.mem_insert _ _ _ _).mp inside with rfl | ⟨inside, _⟩
  · exact ⟨free, rfl⟩
  · exact keyed entry inside

theorem Keyed.edge_insert_iff (keyed : rows.Keyed) (free : '\x00' ∉ member.toList) :
    Edge (rows.insert (rowKey member group) ⟨member, group⟩) one other ↔
      rows.Edge one other ∨ one = member ∧ other = group := by
  constructor
  · exact edge_insert
  · intro edge
    by_cases same : one = member ∧ other = group
    · obtain ⟨rfl, rfl⟩ := same
      exact edge_iff.mpr ⟨_, (OrdMap.mem_insert _ _ _ _).mpr (Or.inl rfl)⟩
    · have inside := keyed.edge_iff_row.mp (edge.resolve_right same)
      have apart : rowKey one other ≠ rowKey member group :=
        fun keys => same (rowKey_inj (keyed _ inside).1 free keys)
      exact edge_iff.mpr ⟨_, (OrdMap.mem_insert _ _ _ _).mpr (Or.inr ⟨inside, apart⟩)⟩

theorem Keyed.erase (keyed : rows.Keyed) (key : Bytes) : Keyed (rows.erase key) :=
  fun entry inside => keyed entry ((OrdMap.mem_erase _ _ _).mp inside).1

theorem Keyed.edge_revoke_iff (keyed : rows.Keyed) (free : '\x00' ∉ member.toList) :
    Edge (rows.revokeMembership member group) one other ↔
      rows.Edge one other ∧ ¬(one = member ∧ other = group) := by
  have left : Keyed (rows.revokeMembership member group) := keyed.erase _
  rw [left.edge_iff_row, keyed.edge_iff_row]
  refine (OrdMap.mem_erase _ _ _).trans (and_congr_right fun inside => not_congr ⟨?_, ?_⟩)
  · exact rowKey_inj (keyed _ inside).1 free
  · rintro ⟨rfl, rfl⟩
    rfl

theorem Keyed.revokeAll (keyed : rows.Keyed) (role : String) : Keyed (rows.revokeAll role) :=
  fun entry inside => keyed entry ((mem_revokeAll rows role entry).mp inside).1

theorem grantMembership_error_iff :
    (∃ message, rows.grantMembership member group = .error message) ↔
      member = group ∨ Relation.TransGen rows.Edge member group ∨
        Relation.TransGen rows.Edge group member := by
  rw [← mem_allMemberships, ← mem_allMemberships, ← List.contains_iff_mem,
    ← List.contains_iff_mem, ← Bool.or_eq_true]
  unfold grantMembership
  split_ifs with self cycle
  · exact ⟨fun _ => Or.inl self, fun _ => ⟨_, rfl⟩⟩
  · exact ⟨fun _ => Or.inr cycle, fun _ => ⟨_, rfl⟩⟩
  · refine ⟨?_, fun refused => absurd refused (not_or.mpr ⟨self, cycle⟩)⟩
    rintro ⟨message, impossible⟩
    cases impossible

theorem Keyed.step (keyed : rows.Keyed) {call : Call} (free : call.NulFree) :
    Keyed (rows.step call) := by
  cases call with
  | grant member group =>
      cases answer : rows.grantMembership member group with
      | error message =>
          simp only [RoleMembers.step, answer]
          exact keyed
      | ok next =>
          obtain ⟨rfl, -, -⟩ := grantMembership_ok answer
          simp only [RoleMembers.step, answer]
          exact keyed.insert free.1
  | revoke member group => exact keyed.erase _
  | revokeAll role => exact keyed.revokeAll role

theorem Keyed.edge_step (keyed : rows.Keyed) {call : Call} (free : call.NulFree) :
    Edge (rows.step call) = after rows.Edge call := by
  funext one other
  apply propext
  cases call with
  | grant member group =>
      have refusal := @grantMembership_error_iff rows member group
      cases answer : rows.grantMembership member group with
      | error message =>
          have refused := refusal.mp ⟨message, answer⟩
          simp only [RoleMembers.step, answer, after]
          refine ⟨Or.inl, ?_⟩
          rintro (edge | ⟨_, _, apart, noPath, noReturn⟩)
          · exact edge
          · rcases refused with self | path | back
            · exact absurd self apart
            · exact absurd path noPath
            · exact absurd back noReturn
      | ok next =>
          have allowed : ¬∃ message, rows.grantMembership member group = .error message := by
            rw [answer]
            rintro ⟨message, impossible⟩
            cases impossible
          rw [refusal, not_or, not_or] at allowed
          obtain ⟨rfl, -, -⟩ := grantMembership_ok answer
          simp only [RoleMembers.step, answer, after]
          rw [keyed.edge_insert_iff free.1]
          exact or_congr_right ⟨fun ⟨one, other⟩ => ⟨one, other, allowed⟩,
            fun ⟨one, other, _⟩ => ⟨one, other⟩⟩
  | revoke member group => exact keyed.edge_revoke_iff free.1
  | revokeAll role => exact edge_revokeAll rows role one other

theorem Keyed.edge_run (keyed : rows.Keyed) (calls : List Call)
    (free : ∀ call ∈ calls, call.NulFree) :
    Edge (rows.run calls) = calls.foldl after rows.Edge := by
  induction calls generalizing rows with
  | nil => rfl
  | cons call rest ih =>
      have first := free call List.mem_cons_self
      have later := ih (keyed.step first) fun next member =>
        free next (List.mem_cons_of_mem _ member)
      rw [keyed.edge_step first] at later
      exact later

end Stored

theorem edge_empty : Edge OrdMap.empty = fun _ _ => False := by
  funext one other
  apply propext
  rw [edge_iff]
  exact ⟨fun ⟨_, inside⟩ => (List.not_mem_nil inside).elim, False.elim⟩

/-- After any calls the graph has no cycle and the walk over it is exact; where
the names hold no NUL it is the graph that the calls mean. -/
theorem memberships_acyclic_exact (calls : List Call) :
    (Acyclic (Edge (run OrdMap.empty calls)) ∧ ∀ role,
      (allMemberships (run OrdMap.empty calls) role).Nodup ∧
      ∀ group, group ∈ allMemberships (run OrdMap.empty calls) role ↔
        Relation.TransGen (Edge (run OrdMap.empty calls)) role group) ∧
    ((∀ call ∈ calls, call.NulFree) → Edge (run OrdMap.empty calls) = granted calls) := by
  refine ⟨⟨acyclic_run calls _ fun role cycle => ?_, fun role => ?_⟩, fun free => ?_⟩
  · obtain ⟨_, _, edge⟩ := Relation.TransGen.tail'_iff.mp cycle
    rw [edge_empty] at edge
    exact edge
  · exact ⟨nodup_walk _ _, mem_allMemberships _ role⟩
  · have keyed : Keyed OrdMap.empty := fun _ inside => (List.not_mem_nil inside).elim
    rw [keyed.edge_run calls free, edge_empty]
    rfl

/-- The edge that would close a cycle is refused, and a revoked one is gone. -/
theorem memberships_acyclic_exact_cycle :
    let calls : List Call := [.grant "a" "b", .grant "b" "c", .grant "c" "a", .revoke "a" "b"]
    Edge (run OrdMap.empty calls) = granted calls ∧
      allMemberships (run OrdMap.empty calls) "b" = ["c"] := by
  refine ⟨(memberships_acyclic_exact _).2 ?_, by decide +kernel⟩
  simp only [List.forall_mem_cons, List.not_mem_nil, false_implies, implies_true, Call.NulFree]
  decide

end RoleMembers

end Pantheon.Wire
