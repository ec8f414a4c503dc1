import Himitsu.Library.JsString

/-!
# Roles and permissions

Model of the permission matrix of `packages/authz/src/index.ts`: `effectiveRole`, `authorize` and
`requirePermission`.

Principal result: `authorize_mono` — a permission that a role has is kept by every higher role.
-/

set_option autoImplicit false

namespace Himitsu.Authz

open JsString

inductive Role where
  | owner
  | admin
  | member
  | readOnly
  deriving DecidableEq, Repr

/-- `ProjectOverrideRole`. -/
inductive ProjectOverrideRole where
  | admin
  | member
  | readOnly
  deriving DecidableEq, Repr

def ProjectOverrideRole.role : ProjectOverrideRole → Role
  | .admin => .admin
  | .member => .member
  | .readOnly => .readOnly

inductive Permission where
  | orgSettingsRead
  | orgSettingsUpdate
  | orgSettingsDelete
  | orgMembersRead
  | orgMembersInvite
  | orgMembersManage
  | projectCreate
  | projectRead
  | projectUpdate
  | projectArchive
  | projectDelete
  | environmentCreate
  | environmentRead
  | environmentUpdate
  | environmentDelete
  | secretRead
  | secretWrite
  | secretDelete
  | apiKeyRead
  | apiKeyCreate
  | apiKeyRevoke
  | auditRead
  | auditExport
  deriving DecidableEq, Repr

/-- `permissionMatrix[role].includes(permission)`. -/
def permissionMatrix : Role → Permission → Bool
  | .owner, _ => true
  | .admin, permission => permission ≠ .orgSettingsDelete
  | .member, permission =>
    permission ∈ [.orgSettingsRead, .orgMembersRead, .projectCreate, .projectRead, .projectUpdate,
      .environmentCreate, .environmentRead, .environmentUpdate, .secretRead, .secretWrite,
      .secretDelete]
  | .readOnly, permission =>
    permission ∈ [.orgSettingsRead, .orgMembersRead, .projectRead, .environmentRead, .secretRead]

def roleRank : Role → Nat
  | .readOnly => 0
  | .member => 1
  | .admin => 2
  | .owner => 3

def projectScopedPermissions : List Permission :=
  [.projectRead, .projectUpdate, .projectArchive, .projectDelete, .environmentCreate,
    .environmentRead, .environmentUpdate, .environmentDelete, .secretRead, .secretWrite,
    .secretDelete, .apiKeyRead, .apiKeyCreate, .apiKeyRevoke]

def protectedWritePermissions : List Permission :=
  [.environmentCreate, .environmentUpdate, .environmentDelete, .secretWrite, .secretDelete]

structure AuthorizationContext where
  orgRole : Role
  projectRole : Option ProjectOverrideRole
  protectedEnvironment : Bool
  deriving DecidableEq, Repr

inductive Reason where
  | allowed
  | role
  | protectedEnvironment
  deriving DecidableEq, Repr

structure AuthorizationDecision where
  allowed : Bool
  permission : Permission
  effectiveRole : Role
  reason : Reason
  deriving DecidableEq, Repr

def effectiveRole (orgRole : Role) : Option ProjectOverrideRole → Role
  | none => orgRole
  | some projectRole =>
    if roleRank projectRole.role < roleRank orgRole then projectRole.role else orgRole

/-- The role that decides a permission. -/
def AuthorizationContext.roleFor (context : AuthorizationContext) (permission : Permission) :
    Role :=
  if permission ∈ projectScopedPermissions then effectiveRole context.orgRole context.projectRole
  else context.orgRole

def authorize (context : AuthorizationContext) (permission : Permission) :
    AuthorizationDecision :=
  let role := context.roleFor permission
  if !permissionMatrix role permission then ⟨false, permission, role, .role⟩
  else if context.protectedEnvironment ∧ permission ∈ protectedWritePermissions ∧
      role ≠ .owner ∧ role ≠ .admin then ⟨false, permission, role, .protectedEnvironment⟩
  else ⟨true, permission, role, .allowed⟩

/-- The decision that `AuthorizationError` carries. -/
def requirePermission (context : AuthorizationContext) (permission : Permission) :
    Except AuthorizationDecision Unit :=
  let decision := authorize context permission
  if decision.allowed then .ok () else .error decision

theorem requirePermission_ok_iff {context : AuthorizationContext} {permission : Permission} :
    requirePermission context permission = .ok () ↔
      (authorize context permission).allowed = true := by
  unfold requirePermission
  by_cases h : (authorize context permission).allowed = true
  · simp [h]
  · simp [h]

/-- The matrix grows with the rank. -/
theorem permissionMatrix_mono {role role' : Role} (h : roleRank role ≤ roleRank role')
    {permission : Permission} (hp : permissionMatrix role permission = true) :
    permissionMatrix role' permission = true := by
  revert h hp
  cases role <;> cases role' <;> cases permission <;> decide

theorem authorize_allowed_iff {context : AuthorizationContext} {permission : Permission} :
    (authorize context permission).allowed = true ↔
      permissionMatrix (context.roleFor permission) permission = true ∧
        (context.protectedEnvironment = true → permission ∈ protectedWritePermissions →
          roleRank .admin ≤ roleRank (context.roleFor permission)) := by
  have hrank : ∀ role : Role, roleRank .admin ≤ roleRank role ↔ (role ≠ .owner → role = .admin) := by
    intro role
    cases role <;> decide
  simp only [authorize, hrank]
  by_cases hmatrix : permissionMatrix (context.roleFor permission) permission = true
  · by_cases hprotected : context.protectedEnvironment = true ∧
        permission ∈ protectedWritePermissions ∧ context.roleFor permission ≠ .owner ∧
        context.roleFor permission ≠ .admin
    · simp [hmatrix, hprotected]
    · rw [if_neg (by simp [hmatrix]), if_neg hprotected]
      simp only [true_iff]
      refine ⟨hmatrix, fun hp hwrite howner => ?_⟩
      by_contra hadmin
      exact hprotected ⟨hp, hwrite, howner, hadmin⟩
  · simp [hmatrix]

/-- **A permission is kept by every higher role**, in the organization and for the project. -/
theorem authorize_mono {context context' : AuthorizationContext} {permission : Permission}
    (hrole : roleRank (context.roleFor permission) ≤ roleRank (context'.roleFor permission))
    (hprotected : context'.protectedEnvironment = true → context.protectedEnvironment = true)
    (h : (authorize context permission).allowed = true) :
    (authorize context' permission).allowed = true := by
  rw [authorize_allowed_iff] at h ⊢
  exact ⟨permissionMatrix_mono hrole h.1, fun hp hwrite => (h.2 (hprotected hp) hwrite).trans hrole⟩

end Himitsu.Authz
