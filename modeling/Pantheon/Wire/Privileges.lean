import Mathlib
import Pantheon.Lib.Runs
import Pantheon.Wire.RoleMembers

/-!
# Roles and privileges: `wire/roles.rs`, `wire/privileges.rs`, `executor/rbac.rs`

Roles, memberships and privileges live in three catalog tables.  A privilege row
is stored under its four names, separated by NUL bytes.  Beside the catalog runs
what the statements have granted: since a role was last created, a privilege
that was granted to it and not revoked.
-/

set_option autoImplicit false

namespace Pantheon.Wire

open Pantheon.Lib

structure RoleAttributes where
  superuser : Bool
  canLogin : Bool
deriving DecidableEq

inductive PrivilegeRepr where
  | select
  | insert
  | update
  | delete
  | create
  | drop
  | usage
  | all
deriving DecidableEq

namespace PrivilegeRepr

def asStr : PrivilegeRepr → String
  | select => "select"
  | insert => "insert"
  | update => "update"
  | delete => "delete"
  | create => "create"
  | drop => "drop"
  | usage => "usage"
  | all => "all"

theorem asStr_injective : Function.Injective asStr := by
  intro left right same
  revert same
  cases left <;> cases right <;> decide

theorem nul_notMem_asStr (privilege : PrivilegeRepr) : '\x00' ∉ privilege.asStr.toList := by
  cases privilege <;> decide

end PrivilegeRepr

inductive GrantObject where
  | table (name : String)
  | database
deriving DecidableEq

namespace GrantObject

def kind : GrantObject → String
  | table _ => "TABLE"
  | database => "DATABASE"

def name : GrantObject → String
  | table name => name
  | database => ""

theorem ext_cells {left right : GrantObject} (kinds : left.kind = right.kind)
    (names : left.name = right.name) : left = right := by
  have apart : "TABLE" ≠ "DATABASE" := by decide
  cases left with
  | table left =>
      cases right with
      | table right => exact congrArg table names
      | database => exact absurd kinds apart
  | database =>
      cases right with
      | table right => exact absurd kinds apart.symm
      | database => rfl

theorem nul_notMem_kind (object : GrantObject) : '\x00' ∉ object.kind.toList := by
  have table : '\x00' ∉ "TABLE".toList := by decide
  have database : '\x00' ∉ "DATABASE".toList := by decide
  cases object with
  | table name => exact table
  | database => exact database

end GrantObject

structure PrivilegeRow where
  grantee : String
  privilege : String
  objectType : String
  objectName : String
deriving DecidableEq

abbrev PrivilegeStore := OrdMap Bytes PrivilegeRow

namespace PrivilegeStore

def rowKey (grantee privilege objectType objectName : String) : Bytes :=
  utf8Bytes (grantee ++ "\x00" ++ privilege ++ "\x00" ++ objectType ++ "\x00" ++ objectName)

def keyOf (grantee : String) (privilege : PrivilegeRepr) (object : GrantObject) : Bytes :=
  rowKey grantee privilege.asStr object.kind object.name

def rowOf (grantee : String) (privilege : PrivilegeRepr) (object : GrantObject) : PrivilegeRow :=
  ⟨grantee, privilege.asStr, object.kind, object.name⟩

def grant (rows : PrivilegeStore) (grantee : String) (privilege : PrivilegeRepr)
    (object : GrantObject) : PrivilegeStore :=
  rows.insert (keyOf grantee privilege object) (rowOf grantee privilege object)

/-- Revoking `ALL` revokes every privilege on the object. -/
def revoke (rows : PrivilegeStore) (grantee : String) (privilege : PrivilegeRepr)
    (object : GrantObject) : PrivilegeStore :=
  if privilege = .all then
    let doomed := (rows.toList.filter fun entry =>
      decide (entry.2.grantee = grantee ∧ entry.2.objectType = object.kind ∧
        entry.2.objectName = object.name)).map Prod.fst
    doomed.foldl OrdMap.erase rows
  else rows.erase (keyOf grantee privilege object)

def hasPrivilege (rows : PrivilegeStore) (members : RoleMembers) (role : String)
    (privilege : PrivilegeRepr) (object : GrantObject) : Bool :=
  (role :: members.allMemberships role).any fun candidate =>
    rows.toList.any fun entry =>
      decide (entry.2.grantee = candidate ∧ entry.2.objectType = object.kind ∧
        entry.2.objectName = object.name ∧
        (entry.2.privilege = PrivilegeRepr.all.asStr ∨ entry.2.privilege = privilege.asStr))

end PrivilegeStore

/-- The three tables. -/
structure RoleCatalog where
  roles : OrdMap Bytes RoleAttributes
  members : RoleMembers
  privileges : PrivilegeStore

namespace RoleCatalog

def new : RoleCatalog := ⟨OrdMap.empty, OrdMap.empty, OrdMap.empty⟩

def findRole (catalog : RoleCatalog) (name : String) : Option RoleAttributes :=
  catalog.roles.get? (utf8Bytes name)

def upsertWithAttrs (catalog : RoleCatalog) (name : String) (superuser canLogin : Bool) :
    RoleCatalog :=
  { catalog with roles := catalog.roles.insert (utf8Bytes name) ⟨superuser, canLogin⟩ }

def grantMemberships (catalog : RoleCatalog) :
    List (String × String) → Except String Unit × RoleCatalog
  | [] => (.ok (), catalog)
  | (member, group) :: rest =>
      match catalog.members.grantMembership member group with
      | .error message => (.error message, catalog)
      | .ok members => grantMemberships { catalog with members := members } rest

def createRole (catalog : RoleCatalog) (name : String) (superuser canLogin : Bool)
    (inRole : List String) : Except String Unit × RoleCatalog :=
  match catalog.findRole name with
  | some _ => (.error ("role \"" ++ name ++ "\" already exists"), catalog)
  | none =>
      (catalog.upsertWithAttrs name superuser canLogin).grantMemberships
        (inRole.map fun group => (name, group))

def dropRole (catalog : RoleCatalog) (name : String) (ifExists : Bool) :
    Except String Unit × RoleCatalog :=
  match catalog.findRole name with
  | none =>
      if ifExists then (.ok (), catalog)
      else (.error ("role \"" ++ name ++ "\" does not exist"), catalog)
  | some _ =>
      (.ok (), { catalog with
        roles := catalog.roles.erase (utf8Bytes name)
        members := catalog.members.revokeAll name })

/-- `GRANT role, .. TO grantee, ..` -/
def grantRoles (catalog : RoleCatalog) (roles grantees : List String) :
    Except String Unit × RoleCatalog :=
  catalog.grantMemberships
    (roles.flatMap fun role => grantees.map fun grantee => (grantee, role))

def revokeRoles (catalog : RoleCatalog) (roles grantees : List String) : RoleCatalog :=
  (roles.flatMap fun role => grantees.map fun grantee => (grantee, role)).foldl
    (fun catalog edge =>
      { catalog with members := catalog.members.revokeMembership edge.1 edge.2 })
    catalog

end RoleCatalog

/-- `GRANT privilege, .. ON object TO grantee, ..`, and `REVOKE`. -/
structure PrivilegeStmt where
  privileges : List PrivilegeRepr
  object : GrantObject
  grantees : List String
deriving DecidableEq

namespace PrivilegeStmt

def targets (stmt : PrivilegeStmt) : List (String × PrivilegeRepr) :=
  stmt.privileges.flatMap fun privilege => stmt.grantees.map fun grantee => (grantee, privilege)

end PrivilegeStmt

inductive RoleCall where
  | createRole (name : String) (superuser canLogin : Bool) (inRole : List String)
  | dropRole (name : String) (ifExists : Bool)
  | grantRoles (roles grantees : List String)
  | revokeRoles (roles grantees : List String)
  | grant (stmt : PrivilegeStmt)
  | revoke (stmt : PrivilegeStmt)
deriving DecidableEq

namespace RoleCatalog

def grant (catalog : RoleCatalog) (stmt : PrivilegeStmt) : RoleCatalog :=
  { catalog with
    privileges := stmt.targets.foldl
      (fun rows target => rows.grant target.1 target.2 stmt.object) catalog.privileges }

def revoke (catalog : RoleCatalog) (stmt : PrivilegeStmt) : RoleCatalog :=
  { catalog with
    privileges := stmt.targets.foldl
      (fun rows target => rows.revoke target.1 target.2 stmt.object) catalog.privileges }

def step (catalog : RoleCatalog) : RoleCall → Except String Unit × RoleCatalog
  | .createRole name superuser canLogin inRole =>
      catalog.createRole name superuser canLogin inRole
  | .dropRole name ifExists => catalog.dropRole name ifExists
  | .grantRoles roles grantees => catalog.grantRoles roles grantees
  | .revokeRoles roles grantees => (.ok (), catalog.revokeRoles roles grantees)
  | .grant stmt => (.ok (), catalog.grant stmt)
  | .revoke stmt => (.ok (), catalog.revoke stmt)

end RoleCatalog

/-! ## What has been granted -/

/-- The privileges that were granted since the holder was last created, and not revoked. -/
abbrev Grants := String → PrivilegeRepr → GrantObject → Prop

namespace Grants

/-- `ALL` stands for every privilege. -/
def Concerns (target : String × PrivilegeRepr) (object : GrantObject) (role : String)
    (privilege : PrivilegeRepr) (other : GrantObject) : Prop :=
  role = target.1 ∧ other = object ∧ (target.2 = .all ∨ target.2 = privilege)

def grant (live : Grants) (object : GrantObject) (target : String × PrivilegeRepr) : Grants :=
  fun role privilege other =>
    live role privilege other ∨ Concerns target object role privilege other

def revoke (live : Grants) (object : GrantObject) (target : String × PrivilegeRepr) : Grants :=
  fun role privilege other =>
    live role privilege other ∧ ¬Concerns target object role privilege other

def forget (live : Grants) (name : String) : Grants :=
  fun role privilege object => live role privilege object ∧ role ≠ name

/-- A role that does not exist is created even if a membership is then refused. -/
def step (live : Grants) (catalog : RoleCatalog) : RoleCall → Grants
  | .createRole name _ _ _ =>
      match catalog.findRole name with
      | some _ => live
      | none => live.forget name
  | .grant stmt => stmt.targets.foldl (fun live target => live.grant stmt.object target) live
  | .revoke stmt => stmt.targets.foldl (fun live target => live.revoke stmt.object target) live
  | .dropRole _ _ => live
  | .grantRoles _ _ => live
  | .revokeRoles _ _ => live

end Grants

structure RoleHistory where
  catalog : RoleCatalog
  live : Grants

namespace RoleHistory

def new : RoleHistory := ⟨RoleCatalog.new, fun _ _ _ => False⟩

def step (history : RoleHistory) (call : RoleCall) : Option RoleHistory :=
  some ⟨(history.catalog.step call).2, history.live.step history.catalog call⟩

end RoleHistory

/-! ## The rows -/

namespace PrivilegeStore

def Stored (rows : PrivilegeStore) (role : String) (privilege : PrivilegeRepr)
    (object : GrantObject) : Prop :=
  ∃ key, (key, rowOf role privilege object) ∈ rows.toList

def NulFree (name : String) : Prop := '\x00' ∉ name.toList

def Keyed (rows : PrivilegeStore) : Prop :=
  ∀ entry ∈ rows.toList, ∃ role privilege object, NulFree role ∧
    entry = (keyOf role privilege object, rowOf role privilege object)

variable {role grantee : String} {privilege : PrivilegeRepr} {object : GrantObject}

theorem keyOf_inj {other : String} {otherPrivilege : PrivilegeRepr}
    {otherObject : GrantObject} (free : NulFree role) (otherFree : NulFree other)
    (same : keyOf role privilege object = keyOf other otherPrivilege otherObject) :
    role = other ∧ privilege = otherPrivilege ∧ object = otherObject := by
  have chars := congrArg String.toList (utf8Bytes_injective same)
  have nul : "\x00".toList = ['\x00'] := rfl
  simp only [String.toList_append, nul, List.append_assoc, List.singleton_append] at chars
  obtain ⟨roles, chars⟩ := separated_inj free otherFree chars
  obtain ⟨privileges, chars⟩ := separated_inj privilege.nul_notMem_asStr
    otherPrivilege.nul_notMem_asStr chars
  obtain ⟨kinds, names⟩ := separated_inj object.nul_notMem_kind otherObject.nul_notMem_kind chars
  exact ⟨String.toList_injective roles,
    PrivilegeRepr.asStr_injective (String.toList_injective privileges),
    GrantObject.ext_cells (String.toList_injective kinds) (String.toList_injective names)⟩

theorem rowOf_inj {other : String} {otherPrivilege : PrivilegeRepr}
    {otherObject : GrantObject}
    (same : rowOf role privilege object = rowOf other otherPrivilege otherObject) :
    role = other ∧ privilege = otherPrivilege ∧ object = otherObject := by
  obtain ⟨roles, privileges, kinds, names⟩ := PrivilegeRow.mk.inj same
  exact ⟨roles, PrivilegeRepr.asStr_injective privileges, GrantObject.ext_cells kinds names⟩

variable {rows : PrivilegeStore}

theorem Keyed.key_eq (keyed : Keyed rows) {key : Bytes}
    (inside : (key, rowOf role privilege object) ∈ rows.toList) :
    NulFree role ∧ key = keyOf role privilege object := by
  obtain ⟨other, otherPrivilege, otherObject, free, same⟩ := keyed _ inside
  obtain ⟨keys, sameRow⟩ := Prod.mk.inj same
  obtain ⟨rfl, rfl, rfl⟩ := rowOf_inj sameRow
  exact ⟨free, keys⟩

theorem Keyed.grant (keyed : Keyed rows) (free : NulFree grantee)
    (privilege : PrivilegeRepr) (object : GrantObject) :
    Keyed (rows.grant grantee privilege object) := by
  intro entry inside
  rcases (OrdMap.mem_insert _ _ _ _).mp inside with rfl | ⟨inside, _⟩
  · exact ⟨grantee, privilege, object, free, rfl⟩
  · exact keyed entry inside

theorem stored_grant (keyed : Keyed rows) (free : NulFree grantee)
    (privilege : PrivilegeRepr) (object : GrantObject) (role : String) (other : PrivilegeRepr)
    (otherObject : GrantObject) :
    Stored (rows.grant grantee privilege object) role other otherObject ↔
      Stored rows role other otherObject ∨
        role = grantee ∧ otherObject = object ∧ other = privilege := by
  unfold Stored PrivilegeStore.grant
  simp only [OrdMap.mem_insert]
  constructor
  · rintro ⟨key, same | ⟨inside, _⟩⟩
    · obtain ⟨roles, privileges, objects⟩ := rowOf_inj (Prod.mk.inj same).2
      exact Or.inr ⟨roles, objects, privileges⟩
    · exact Or.inl ⟨key, inside⟩
  · rintro (⟨key, inside⟩ | ⟨rfl, rfl, rfl⟩)
    · by_cases same : key = keyOf grantee privilege object
      · -- a row under the key of the new one is the new one
        obtain ⟨roleFree, keyExact⟩ := keyed.key_eq inside
        obtain ⟨rfl, rfl, rfl⟩ := keyOf_inj roleFree free (keyExact.symm.trans same)
        exact ⟨_, Or.inl rfl⟩
      · exact ⟨key, Or.inr ⟨inside, same⟩⟩
    · exact ⟨_, Or.inl rfl⟩

theorem mem_revoke_all (grantee : String) (object : GrantObject) (entry : Bytes × PrivilegeRow) :
    entry ∈ (rows.revoke grantee .all object).toList ↔
      entry ∈ rows.toList ∧ ¬(entry.2.grantee = grantee ∧ entry.2.objectType = object.kind ∧
        entry.2.objectName = object.name) := by
  unfold revoke
  rw [if_pos rfl, mem_foldl_erase]
  refine and_congr_right fun inside => not_congr ⟨fun doomed => ?_, fun concerned => ?_⟩
  · obtain ⟨other, member, same⟩ := List.mem_map.mp doomed
    obtain ⟨otherInside, concerned⟩ := List.mem_filter.mp member
    rw [← rows.key_unique other entry otherInside inside same]
    exact of_decide_eq_true concerned
  · exact List.mem_map.mpr ⟨entry, List.mem_filter.mpr ⟨inside, decide_eq_true concerned⟩, rfl⟩

theorem mem_revoke_of_mem
    {entry : Bytes × PrivilegeRow}
    (inside : entry ∈ (rows.revoke grantee privilege object).toList) : entry ∈ rows.toList := by
  by_cases all : privilege = .all
  · subst all
    exact ((mem_revoke_all grantee object entry).mp inside).1
  · unfold revoke at inside
    rw [if_neg all] at inside
    exact ((OrdMap.mem_erase _ _ _).mp inside).1

theorem Keyed.revoke (keyed : Keyed rows) (grantee : String) (privilege : PrivilegeRepr)
    (object : GrantObject) : Keyed (rows.revoke grantee privilege object) :=
  fun entry inside => keyed entry (mem_revoke_of_mem inside)

theorem stored_revoke (keyed : Keyed rows) (free : NulFree grantee)
    (privilege : PrivilegeRepr) (object : GrantObject) (role : String) (other : PrivilegeRepr)
    (otherObject : GrantObject) :
    Stored (rows.revoke grantee privilege object) role other otherObject ↔
      Stored rows role other otherObject ∧
        ¬(role = grantee ∧ otherObject = object ∧ (privilege = .all ∨ privilege = other)) := by
  unfold Stored
  by_cases all : privilege = .all
  · subst all
    simp only [mem_revoke_all, true_or, and_true]
    rw [exists_and_right]
    refine and_congr_right fun _ => not_congr ⟨?_, ?_⟩
    · rintro ⟨roles, kinds, names⟩
      exact ⟨roles, GrantObject.ext_cells kinds names⟩
    · rintro ⟨rfl, rfl⟩
      exact ⟨rfl, rfl, rfl⟩
  · have erased : rows.revoke grantee privilege object =
        rows.erase (keyOf grantee privilege object) := if_neg all
    simp only [erased, OrdMap.mem_erase, all, false_or]
    constructor
    · rintro ⟨key, inside, apart⟩
      refine ⟨⟨key, inside⟩, ?_⟩
      rintro ⟨rfl, rfl, rfl⟩
      exact apart (keyed.key_eq inside).2
    · rintro ⟨⟨key, inside⟩, apart⟩
      refine ⟨key, inside, fun same => apart ?_⟩
      obtain ⟨roleFree, keyExact⟩ := keyed.key_eq inside
      obtain ⟨rfl, rfl, rfl⟩ := keyOf_inj roleFree free (keyExact.symm.trans same)
      exact ⟨rfl, rfl, rfl⟩

theorem hasPrivilege_iff (rows : PrivilegeStore) (members : RoleMembers) (role : String)
    (privilege : PrivilegeRepr) (object : GrantObject) :
    rows.hasPrivilege members role privilege object = true ↔
      ∃ holder, (holder = role ∨ Relation.TransGen members.Edge role holder) ∧
        (Stored rows holder .all object ∨ Stored rows holder privilege object) := by
  unfold hasPrivilege
  simp only [List.any_eq_true, List.mem_cons, RoleMembers.mem_allMemberships, decide_eq_true_eq]
  refine exists_congr fun holder => and_congr_right fun _ => ?_
  constructor
  · rintro ⟨⟨key, row⟩, inside, rfl, kind, name, privileges⟩
    obtain ⟨grantee, text, objectType, objectName⟩ := row
    dsimp only at kind name privileges
    subst kind name
    rcases privileges with rfl | rfl
    · exact Or.inl ⟨key, inside⟩
    · exact Or.inr ⟨key, inside⟩
  · rintro (⟨key, inside⟩ | ⟨key, inside⟩)
    · exact ⟨_, inside, rfl, rfl, rfl, Or.inl rfl⟩
    · exact ⟨_, inside, rfl, rfl, rfl, Or.inr rfl⟩

end PrivilegeStore

namespace PrivilegeStore

/-- Where a single privilege is revoked, no grant of `ALL` stands. -/
def Revocable (object : GrantObject) :
    PrivilegeStore → List (String × PrivilegeRepr) → Prop
  | _, [] => True
  | rows, target :: rest =>
      (target.2 = .all ∨ rows.get? (keyOf target.1 .all object) = none) ∧
        Revocable object (rows.revoke target.1 target.2 object) rest

/-- The rows say what has been granted. -/
structure Tracks (rows : PrivilegeStore) (live : Grants) : Prop where
  keyed : Keyed rows
  live_iff : ∀ role privilege object, live role privilege object ↔
    Stored rows role .all object ∨ Stored rows role privilege object

variable {rows : PrivilegeStore} {live : Grants}

theorem Tracks.grant (tracks : Tracks rows live) (object : GrantObject)
    {target : String × PrivilegeRepr} (free : NulFree target.1) :
    Tracks (rows.grant target.1 target.2 object) (live.grant object target) := by
  refine ⟨tracks.keyed.grant free _ _, fun role privilege other => ?_⟩
  unfold Grants.grant Grants.Concerns
  rw [tracks.live_iff, stored_grant tracks.keyed free, stored_grant tracks.keyed free]
  have swap : PrivilegeRepr.all = target.2 ↔ target.2 = .all := eq_comm
  have swapPrivilege : privilege = target.2 ↔ target.2 = privilege := eq_comm
  tauto

theorem Tracks.revoke (tracks : Tracks rows live) (object : GrantObject)
    {target : String × PrivilegeRepr} (free : NulFree target.1)
    (revocable : target.2 = .all ∨ rows.get? (keyOf target.1 .all object) = none) :
    Tracks (rows.revoke target.1 target.2 object) (live.revoke object target) := by
  refine ⟨tracks.keyed.revoke _ _ _, fun role privilege other => ?_⟩
  unfold Grants.revoke Grants.Concerns
  rw [tracks.live_iff, stored_revoke tracks.keyed free, stored_revoke tracks.keyed free]
  rcases revocable with all | none
  · simp only [all, true_or, and_true]
    tauto
  · -- no row of `ALL` is left to stand for the revoked privilege
    have absent : ∀ role other, role = target.1 → other = object → ¬Stored rows role .all other := by
      rintro role other rfl rfl ⟨key, inside⟩
      have keyExact := (tracks.keyed.key_eq inside).2
      exact (OrdMap.get?_eq_none _ _).mp none _ inside keyExact
    have gone := absent role other
    tauto

theorem Tracks.grantAll (object : GrantObject) (targets : List (String × PrivilegeRepr)) :
    ∀ {rows : PrivilegeStore} {live : Grants}, Tracks rows live →
      (∀ target ∈ targets, NulFree target.1) →
      Tracks (targets.foldl (fun rows target => rows.grant target.1 target.2 object) rows)
        (targets.foldl (fun live target => live.grant object target) live) := by
  induction targets with
  | nil => intro rows live tracks _; exact tracks
  | cons target rest ih =>
      intro rows live tracks free
      exact ih (tracks.grant object (free target List.mem_cons_self))
        fun other member => free other (List.mem_cons_of_mem _ member)

theorem Tracks.revokeAll (object : GrantObject) (targets : List (String × PrivilegeRepr)) :
    ∀ {rows : PrivilegeStore} {live : Grants}, Tracks rows live →
      (∀ target ∈ targets, NulFree target.1) → Revocable object rows targets →
      Tracks (targets.foldl (fun rows target => rows.revoke target.1 target.2 object) rows)
        (targets.foldl (fun live target => live.revoke object target) live) := by
  induction targets with
  | nil => intro rows live tracks _ _; exact tracks
  | cons target rest ih =>
      intro rows live tracks free revocable
      exact ih (tracks.revoke object (free target List.mem_cons_self) revocable.1)
        (fun other member => free other (List.mem_cons_of_mem _ member)) revocable.2

theorem Tracks.forget (tracks : Tracks rows live) {name : String}
    (unnamed : ∀ entry ∈ rows.toList, entry.2.grantee ≠ name) : Tracks rows (live.forget name) := by
  refine ⟨tracks.keyed, fun role privilege object => ?_⟩
  unfold Grants.forget
  rw [tracks.live_iff]
  refine and_iff_left_of_imp ?_
  rintro (⟨key, inside⟩ | ⟨key, inside⟩)
  · exact unnamed _ inside
  · exact unnamed _ inside

end PrivilegeStore

namespace RoleCatalog

theorem privileges_grantMemberships (edges : List (String × String)) : ∀ catalog : RoleCatalog,
    (catalog.grantMemberships edges).2.privileges = catalog.privileges := by
  induction edges with
  | nil => intro catalog; rfl
  | cons edge rest ih =>
      intro catalog
      unfold grantMemberships
      cases catalog.members.grantMembership edge.1 edge.2 with
      | error message => rfl
      | ok members => exact ih _

theorem privileges_revokeRoles (catalog : RoleCatalog) (roles grantees : List String) :
    (catalog.revokeRoles roles grantees).privileges = catalog.privileges := by
  unfold revokeRoles
  generalize (roles.flatMap fun role => grantees.map fun grantee => (grantee, role)) = edges
  induction edges generalizing catalog with
  | nil => rfl
  | cons edge rest ih => exact ih _

theorem privileges_dropRole (catalog : RoleCatalog) (name : String) (ifExists : Bool) :
    (catalog.dropRole name ifExists).2.privileges = catalog.privileges := by
  unfold dropRole
  cases catalog.findRole name with
  | none => cases ifExists <;> rfl
  | some attributes => rfl

end RoleCatalog

namespace RoleHistory

/-- A role is created while no privilege row bears its name, grantees are named without
NUL, and where a single privilege is revoked no grant of `ALL` stands. -/
def Clean (history : RoleHistory) : RoleCall → Prop
  | .createRole name _ _ _ => history.catalog.findRole name = none →
      ∀ entry ∈ history.catalog.privileges.toList, entry.2.grantee ≠ name
  | .grant stmt => ∀ target ∈ stmt.targets, PrivilegeStore.NulFree target.1
  | .revoke stmt => (∀ target ∈ stmt.targets, PrivilegeStore.NulFree target.1) ∧
      PrivilegeStore.Revocable stmt.object history.catalog.privileges stmt.targets
  | .dropRole _ _ => True
  | .grantRoles _ _ => True
  | .revokeRoles _ _ => True

theorem tracks_step {history next : RoleHistory} {call : RoleCall}
    (tracks : history.catalog.privileges.Tracks history.live) (clean : history.Clean call)
    (taken : history.step call = some next) : next.catalog.privileges.Tracks next.live := by
  cases Option.some.inj taken
  cases call with
  | createRole name superuser canLogin inRole =>
      simp only [RoleCatalog.step, RoleCatalog.createRole, Grants.step]
      cases found : history.catalog.findRole name with
      | some attributes => exact tracks
      | none =>
          dsimp only
          rw [RoleCatalog.privileges_grantMemberships]
          exact tracks.forget (clean found)
  | dropRole name ifExists =>
      simp only [RoleCatalog.step, Grants.step, RoleCatalog.privileges_dropRole]
      exact tracks
  | grantRoles roles grantees =>
      simp only [RoleCatalog.step, RoleCatalog.grantRoles, Grants.step,
        RoleCatalog.privileges_grantMemberships]
      exact tracks
  | revokeRoles roles grantees =>
      simp only [RoleCatalog.step, Grants.step, RoleCatalog.privileges_revokeRoles]
      exact tracks
  | grant stmt => exact tracks.grantAll stmt.object stmt.targets clean
  | revoke stmt => exact tracks.revokeAll stmt.object stmt.targets clean.1 clean.2

/-- In a run of clean steps a role holds exactly the live grants of its own and of the
roles it is a member of. -/
theorem privileges_follow_grants (history : RoleHistory)
    (reached : Lib.Reaches step Clean new history) (role : String) (privilege : PrivilegeRepr)
    (object : GrantObject) :
    history.catalog.privileges.hasPrivilege history.catalog.members role privilege object = true ↔
      ∃ holder, (holder = role ∨
          Relation.TransGen history.catalog.members.Edge role holder) ∧
        history.live holder privilege object := by
  have start : new.catalog.privileges.Tracks new.live := by
    constructor
    · intro entry inside
      cases inside
    · intro role privilege object
      refine ⟨False.elim, ?_⟩
      rintro (⟨_, inside⟩ | ⟨_, inside⟩)
      · cases inside
      · cases inside
  have tracks : history.catalog.privileges.Tracks history.live := by
    apply Lib.Reaches.invariant (fun history => history.catalog.privileges.Tracks history.live)
      start ?_ history reached
    intro before call next tracks clean taken
    exact tracks_step tracks clean taken
  rw [PrivilegeStore.hasPrivilege_iff]
  simp only [tracks.live_iff]

/-! ## A role created again -/

def selectOnT : PrivilegeStmt := ⟨[.select], .table "t", ["reader"]⟩

def createReader : RoleCall := .createRole "reader" false false []

def dropAndCreateAgain : List RoleCall :=
  [createReader, .grant selectOnT, .dropRole "reader" false, createReader]

theorem recreated_role_keeps_privileges :
    ¬∀ history, Lib.Reaches step (fun _ _ => True) new history → ∀ role privilege object,
      (history.catalog.privileges.hasPrivilege history.catalog.members role privilege object = true ↔
        ∃ holder, (holder = role ∨
            Relation.TransGen history.catalog.members.Edge role holder) ∧
          history.live holder privilege object) := by
  intro follows
  have exact_ := follows _ (Lib.runChecked_reaches (fun _ _ => true) (fun _ _ _ => trivial)
    dropAndCreateAgain new _ rfl) "reader" .select (.table "t")
  rw [PrivilegeStore.hasPrivilege_iff] at exact_
  obtain ⟨holder, related, live⟩ := exact_.mp
    ⟨"reader", Or.inl rfl, Or.inr ⟨_, List.mem_cons_self⟩⟩
  rcases related with rfl | path
  · exact live.2 rfl
  · obtain ⟨_, edge, _⟩ := Relation.TransGen.head'_iff.mp path
    obtain ⟨_, inside⟩ := RoleMembers.edge_iff.mp edge
    cases inside

def createTeam : RoleCall := .createRole "team" false false []

def addReader : RoleCall := .grantRoles ["team"] ["reader"]

def selectForTeam : PrivilegeStmt := ⟨[.select], .table "t", ["team"]⟩

theorem member_holds_granted_select :
    ∃ history, Lib.runChecked step (fun _ _ => true) new
        [createTeam, createReader, addReader, .grant selectForTeam] = some history ∧
      (history.catalog.privileges.hasPrivilege history.catalog.members "reader" .select
          (.table "t") = true ↔
        ∃ holder, (holder = "reader" ∨
            Relation.TransGen history.catalog.members.Edge "reader" holder) ∧
          history.live holder .select (.table "t")) := by
  refine ⟨_, rfl, privileges_follow_grants _ ?_ "reader" .select (.table "t")⟩
  apply Lib.Reaches.step (.grant selectForTeam)
  · apply Lib.Reaches.step addReader
    · apply Lib.Reaches.step createReader
      · apply Lib.Reaches.step createTeam Lib.Reaches.refl
        · intro _ entry inside
          cases inside
        · rfl
      · intro _ entry inside
        cases inside
      · rfl
    · trivial
    · rfl
  · intro target member
    have only : selectForTeam.targets = [("team", .select)] := rfl
    rw [only, List.mem_singleton] at member
    rw [member]
    unfold PrivilegeStore.NulFree
    decide
  · rfl

end RoleHistory

end Pantheon.Wire
