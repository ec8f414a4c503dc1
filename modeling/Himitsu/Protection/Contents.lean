import Himitsu.Services.Emitted

/-!
# What belongs to an environment

* `Contents`, `contentsOf` — the row of an environment with its secrets, versions, values and tags.
* `Untouched` — the contents of one environment are what they were, in the middle of a transaction.
* `Spares` — the writes that leave them.
* `effectiveRoleOf`, `RoleBelowAdmin` — the role that decides the permissions of a user.

Principal results: `Spares.untouched` — such writes leave the contents; `ensures_denied` — a user
below admin is refused where a permission needs more.
-/

set_option autoImplicit false

namespace Himitsu.Protection

open JsString Crypto Database Services Transactions Authz

variable {wrapper : KeyWrapper}

/-- `projectDeletedAt` decides with the row whether the environment is active. -/
structure Contents where
  environment : List Database.Environment
  projectDeletedAt : List (Option Timestamp)
  secrets : List Secret
  versions : List SecretVersion
  tags : List (SecretTag × Option Tag)

def secretIds (db : Db wrapper) (environmentId : Uuid) : List Uuid :=
  (db.secrets.filter (·.environmentId = environmentId)).map (·.id)

def contentsOf (db : Db wrapper) (environment : Database.Environment) : Contents :=
  let ids := secretIds db environment.id
  { environment := db.environmentRows environment.id
    projectDeletedAt := (db.projectRows environment.projectId).map (·.deletedAt)
    secrets := db.secrets.filter (·.environmentId = environment.id)
    versions := db.secretVersions.filter fun row => ids.contains row.secretId
    tags := (db.secretTags.filter fun row => ids.contains row.secretId).map fun row =>
      (row, db.tags.find? (·.id = row.tagId)) }

/-- What decrypts in one store of data keys decrypts to the same in the other. -/
def KeepsValues (aead : Aead) (before after : DataKeyStore wrapper) : Prop :=
  ∀ encrypted context plaintext, Crypto.decrypt aead before encrypted context = .ok plaintext →
    Crypto.decrypt aead after encrypted context = .ok plaintext

theorem KeepsValues.refl (aead : Aead) (store : DataKeyStore wrapper) :
    KeepsValues aead store store :=
  fun _ _ _ h => h

theorem KeepsValues.trans {aead : Aead} {a b c : DataKeyStore wrapper}
    (h : KeepsValues aead a b) (h' : KeepsValues aead b c) : KeepsValues aead a c :=
  fun encrypted context plaintext hok => h' _ _ _ (h encrypted context plaintext hok)

/-- More data keys leave the values that can be read. -/
theorem KeepsValues.of_extends {aead : Aead} {before after : DataKeyStore wrapper}
    (hkeys : before.Extends after) : KeepsValues aead before after := by
  intro encrypted context plaintext h
  unfold Crypto.decrypt at h ⊢
  split at h
  · cases h
  rename_i hmeta
  rw [if_neg hmeta]
  cases hkey : before.keyOf context.orgId encrypted.keyVersion with
  | none =>
    rw [hkey] at h
    cases h
  | some key =>
    rw [hkey] at h
    rw [hkeys _ _ _ hkey]
    exact h

theorem KeepsValues.activate (aead : Aead) (store : DataKeyStore wrapper) (orgId : JsString)
    (dataKey : DataKey) (nonce : Nonce) :
    KeepsValues aead store (store.activate orgId dataKey nonce) :=
  .of_extends fun _ _ _ hkey => store.keyOf_activate hkey _ _ _

/-! ## Writes that leave an environment -/

section

variable (aead : Aead) (before : Db wrapper) (environment : Database.Environment)

/-- What stays of `before` while other environments are written. -/
structure Untouched (db : Db wrapper) : Prop where
  contents : contentsOf db environment = contentsOf before environment
  memberships : db.memberships = before.memberships
  overrides : db.projectRoleOverrides = before.projectRoleOverrides
  owned : ∀ row ∈ db.secrets, row.id ∈ secretIds before environment.id →
    row.environmentId = environment.id
  values : KeepsValues aead before.keys db.keys

/-- The writes to rows that do not belong to the environment. -/
def Spares : Write → Prop
  | .insertSecret _ | .insertEnvironment _ | .insertProject _ => False
  | .updateSecret id _ | .deleteSecretTags id => id ∉ secretIds before environment.id
  | .insertSecretVersion row => row.secretId ∉ secretIds before environment.id
  | .insertSecretTag row => row.secretId ∉ secretIds before environment.id
  | .updateEnvironment id _ => id ≠ environment.id
  | .updateProject id set => id = environment.projectId → set.deletedAt = none
  | _ => True

variable {aead before environment} {db : Db wrapper}

theorem Untouched.secrets_eq (h : Untouched aead before environment db) :
    db.secrets.filter (·.environmentId = environment.id) =
      before.secrets.filter (·.environmentId = environment.id) :=
  congrArg Contents.secrets h.contents

theorem Untouched.secretIds_eq (h : Untouched aead before environment db) :
    secretIds db environment.id = secretIds before environment.id :=
  congrArg (List.map fun row : Secret => row.id) h.secrets_eq

theorem Untouched.mem_ids (h : Untouched aead before environment db) {row : Secret}
    (hrow : row ∈ db.secrets) :
    row.id ∈ secretIds before environment.id ↔ row.environmentId = environment.id := by
  refine ⟨h.owned row hrow, fun henvironment => ?_⟩
  rw [← h.secretIds_eq]
  exact List.mem_map_of_mem (List.mem_filter.mpr ⟨hrow, decide_eq_true henvironment⟩)

theorem contents_updateSecret (h : Untouched aead before environment db) {id : Uuid}
    (hid : id ∉ secretIds before environment.id) (set : SecretSet) :
    contentsOf (apply (.updateSecret id set) db) environment = contentsOf db environment := by
  have hother : ∀ row ∈ db.secrets, row.id = id → row.environmentId ≠ environment.id := by
    rintro row hrow rfl henvironment
    exact hid ((h.mem_ids hrow).mpr henvironment)
  have hsecrets : (apply (.updateSecret id set) db).secrets.filter
      (·.environmentId = environment.id) = db.secrets.filter (·.environmentId = environment.id) :=
    filter_updateWhere_of_not fun row hrow hrowId => by
      have hne := hother row hrow (of_decide_eq_true hrowId)
      exact ⟨decide_eq_false hne, decide_eq_false hne⟩
  have henvironment : (apply (.updateSecret id set) db).environmentRows environment.id =
      db.environmentRows environment.id := by
    rw [environmentRows_updateSecret]
    conv_rhs => rw [← List.map_id (db.environmentRows environment.id)]
    refine List.map_congr_left fun row hrow => bumpEnvironment_of_not_mem fun secret hsecret => ?_
    obtain ⟨hmem, hmatch⟩ := List.mem_filter.mp hsecret
    simp only [Bool.and_eq_true, decide_eq_true_eq] at hmatch
    have hrowId : row.id = environment.id := of_decide_eq_true (List.mem_filter.mp hrow).2
    rw [hrowId]
    exact hother secret hmem hmatch.1
  simp only [contentsOf, secretIds, hsecrets, henvironment]
  rfl

/-- **A write to other rows leaves the environment.** -/
theorem Spares.untouched {w : Write} (hw : Spares before environment w)
    (h : Untouched aead before environment db) :
    Untouched aead before environment (apply w db) := by
  have hids := h.secretIds_eq
  cases w with
  | insertSecret | insertEnvironment | insertProject => exact hw.elim
  | updateSecret id set =>
    refine ⟨(contents_updateSecret h hw set).trans h.contents, h.memberships, h.overrides,
      fun row hrow hmem => ?_, h.values⟩
    obtain ⟨old, hold, ⟨-, rfl⟩ | ⟨-, rfl⟩⟩ := mem_updateWhere.mp hrow
    · exact h.owned old hold hmem
    · exact h.owned _ hold hmem
  | insertSecretVersion row =>
    have hnot : row.secretId ∉ secretIds db environment.id := hids ▸ hw
    refine ⟨Eq.trans ?_ h.contents, h.memberships, h.overrides, h.owned, h.values⟩
    simp only [contentsOf, apply, List.filter_append]
    rw [show secretIds { db with secretVersions := db.secretVersions ++ [row] } environment.id =
      secretIds db environment.id from rfl, List.filter_cons_of_neg (by simp [hnot])]
    simp only [List.filter_nil, List.append_nil]
    rfl
  | deleteSecretTags id =>
    refine ⟨Eq.trans ?_ h.contents, h.memberships, h.overrides, h.owned, h.values⟩
    have hfilter : (db.secretTags.filter (·.secretId ≠ id)).filter (fun row =>
        (secretIds db environment.id).contains row.secretId) =
        db.secretTags.filter fun row => (secretIds db environment.id).contains row.secretId := by
      rw [List.filter_filter]
      refine List.filter_congr fun row _ => ?_
      by_cases hrow : row.secretId = id
      · have hnot : id ∉ secretIds db environment.id := hids ▸ hw
        simp [hrow, hnot]
      · simp [hrow]
    simp only [contentsOf, apply]
    rw [show secretIds { db with secretTags := db.secretTags.filter (·.secretId ≠ id) }
      environment.id = secretIds db environment.id from rfl, hfilter]
    rfl
  | insertSecretTag row =>
    have hnot : row.secretId ∉ secretIds db environment.id := hids ▸ hw
    refine ⟨Eq.trans ?_ h.contents, h.memberships, h.overrides, h.owned, h.values⟩
    simp only [contentsOf, apply, List.filter_append]
    rw [show secretIds { db with secretTags := db.secretTags ++ [row] } environment.id =
      secretIds db environment.id from rfl, List.filter_cons_of_neg (by simp [hnot])]
    simp only [List.filter_nil, List.append_nil]
    rfl
  | activateKey dataKey nonce =>
    exact ⟨h.contents, h.memberships, h.overrides, h.owned,
      h.values.trans (KeepsValues.activate aead db.keys _ dataKey nonce)⟩
  | updateEnvironment id set =>
    refine ⟨Eq.trans ?_ h.contents, h.memberships, h.overrides, h.owned, h.values⟩
    have hrows := environmentRows_updateEnvironment id set db environment.id
    rw [if_neg (Ne.symm hw)] at hrows
    simp only [contentsOf, hrows]
    rfl
  | updateProject id set =>
    refine ⟨Eq.trans ?_ h.contents, h.memberships, h.overrides, h.owned, h.values⟩
    have hrows := projectRows_updateProject id set db environment.projectId
    have hdeleted : ((apply (.updateProject id set) db).projectRows environment.projectId).map
        (·.deletedAt) = (db.projectRows environment.projectId).map (·.deletedAt) := by
      rw [hrows]
      split
      · rename_i heq
        rw [List.map_map]
        refine List.map_congr_left fun row _ => ?_
        simp [ProjectSet.on, hw heq.symm]
      · rfl
    simp only [contentsOf, hdeleted]
    rfl
  | insertAuditEvent | noteDecryption | deleteProjectTags | insertProjectTag =>
    exact ⟨h.contents, h.memberships, h.overrides, h.owned, h.values⟩

theorem Emits.untouched {α : Type} {p : TransactionM wrapper α}
    (h : Emits (Spares before environment) p) :
    Preserves apply (Untouched aead before environment) p :=
  h.preserves fun _ _ hw hs => hw.untouched hs

end

/-! ## Roles -/

/-- The effective role of a user in a project or, without one, in the organization. -/
def effectiveRoleOf (db : Db wrapper) (userId : Uuid) (projectId : Option Uuid) : Option Role :=
  (db.memberships.find? fun m => m.userId = userId && m.active).map fun membership =>
    effectiveRole membership.role (projectId.bind fun projectId =>
      (db.projectRoleOverrides.find? fun o => o.projectId = projectId && o.userId = userId).map
        (·.role))

/-- The effective role of a user is below admin. -/
def RoleBelowAdmin (db : Db wrapper) (userId : Uuid) (projectId : Option Uuid) : Bool :=
  (effectiveRoleOf db userId projectId).all fun role => roleRank role < roleRank .admin

/-- A permission in a project that no role below admin has. -/
structure NeedsAdmin (protectedEnvironment : Bool) (permission : Permission) : Prop where
  ofProject : permission ∈ projectScopedPermissions
  needs : (protectedEnvironment = true ∧ permission ∈ protectedWritePermissions) ∨
    permissionMatrix .member permission = false

theorem NeedsAdmin.refused {context : AuthorizationContext} {permission : Permission}
    (h : NeedsAdmin context.protectedEnvironment permission)
    (hrole : roleRank (effectiveRole context.orgRole context.projectRole) < roleRank .admin) :
    (authorize context permission).allowed = false := by
  have hfor : context.roleFor permission = effectiveRole context.orgRole context.projectRole := by
    rw [AuthorizationContext.roleFor, if_pos h.ofProject]
  rw [Bool.eq_false_iff, Ne, authorize_allowed_iff, hfor]
  rintro ⟨hmatrix, hprotected⟩
  rcases h.needs with ⟨hflag, hwrite⟩ | hmember
  · exact absurd (hprotected hflag hwrite) (by omega)
  · have hle : roleRank (effectiveRole context.orgRole context.projectRole) ≤ roleRank .member := by
      show _ ≤ 1
      exact Nat.le_of_lt_succ hrole
    rw [permissionMatrix_mono hle hmatrix] at hmember
    cases hmember

/-- **A user below admin is refused.** -/
theorem ensures_denied {aead : Aead} {before db : Db wrapper} {environment : Database.Environment}
    {userId projectId : Uuid} (h : Untouched aead before environment db)
    (hrole : RoleBelowAdmin before userId (some projectId) = true) {isProtected : Bool}
    {permission : Permission} (hneeds : NeedsAdmin isProtected permission)
    {Q : Unit → Db wrapper → Prop} :
    Ensures apply (authorizeUser userId (some projectId) isProtected permission) db Q := by
  unfold authorizeUser resolve
  rw [ensures_bind, ensures_bind, ensures_select, h.memberships]
  cases hfind : before.memberships.find? fun m => m.userId = userId && m.active with
  | none => exact ensures_fail
  | some membership =>
    dsimp only
    rw [ensures_bind, ensures_select, h.overrides, Prog.pure_eq, ensures_done_ok, ensures_attempt]
    intro _ hok
    have hbelow := hrole
    simp only [RoleBelowAdmin, effectiveRoleOf, hfind, Option.map_some, Option.all_some,
      Option.bind_some, decide_eq_true_eq] at hbelow
    rw [requirePermission_ok_iff, hneeds.refused hbelow] at hok
    cases hok

end Himitsu.Protection
