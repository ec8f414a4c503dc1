import Himitsu.Audit.Events
import Himitsu.Authz.Permissions
import Himitsu.Crypto.Envelope
import Himitsu.Library.Interleaving

/-!
# The tables of an organization

Model of the tables of `packages/database/migrations` that the services read and write, as the
row-level security of one organization shows them, with the trigger of
`0013_runtime_config_version.sql`.

* `Db` — the rows of one organization. `timestamptz` columns are microseconds, and
  `config_version` is a number without the bound of `bigint`.
* `Write` — the changes that the statements of the services make to the tables; an update of a
  secret fires `bump_environment_config_version`.
* `Lock`, `part` — what a lock protects: a row with the rows that belong to it, an entry of a
  unique constraint, and the data keys under the advisory lock.
* `store` — the tables as a store for interleaved transactions.
-/

set_option autoImplicit false

namespace Himitsu.Database

open JsString Crypto

/-! ## Rows -/

/-- A `timestamptz`, in microseconds. -/
abbrev Timestamp := Int

structure Membership where
  userId : Uuid
  role : Authz.Role
  active : Bool

structure ProjectRoleOverride where
  projectId : Uuid
  userId : Uuid
  role : Authz.ProjectOverrideRole

/-- `defaultEnvironments` of the settings, if it is an array: its strings. -/
structure Project where
  id : Uuid
  name : JsString
  slug : JsString
  description : Option JsString
  defaultEnvironments : Option (List JsString)
  archivedAt : Option Timestamp
  deletedAt : Option Timestamp
  purgeAfter : Option Timestamp

structure Environment where
  id : Uuid
  projectId : Uuid
  name : JsString
  slug : JsString
  displayOrder : Nat
  isProtected : Bool
  deletedAt : Option Timestamp
  purgeAfter : Option Timestamp
  deletedByProjectAt : Option Timestamp
  configVersion : Nat

/-- The columns of the unique constraint of `environments`. -/
def Environment.slot (row : Environment) : Uuid × JsString := (row.projectId, row.slug)

structure Secret where
  id : Uuid
  projectId : Uuid
  environmentId : Uuid
  key : JsString
  notes : Option JsString
  currentVersion : Nat
  createdAt : Timestamp
  updatedAt : Timestamp
  deletedAt : Option Timestamp
  deletedByProjectAt : Option Timestamp
  deletedByEnvironmentAt : Option Timestamp

/-- The columns of the unique constraint of `secrets`, beside the project of the environment. -/
def Secret.slot (row : Secret) : Uuid × JsString := (row.environmentId, row.key)

structure SecretVersion where
  projectId : Uuid
  environmentId : Uuid
  secretId : Uuid
  version : Nat
  valueCiphertext : Bytes
  nonce : Bytes
  authTag : Bytes
  encryptionKeyVersion : Nat
  authorUserId : Option Uuid
  changeNote : Option JsString
  createdAt : Timestamp

structure Tag where
  id : Uuid
  name : JsString
  color : JsString

structure SecretTag where
  secretId : Uuid
  tagId : Uuid

structure ProjectTag where
  projectId : Uuid
  tagId : Uuid

structure AuditEvent where
  actorType : Audit.ActorType
  actorUserId : Option Uuid
  actorApiKeyId : Option Uuid
  action : JsString
  resourceType : JsString
  resourceId : Option JsString
  projectId : Option Uuid
  environmentId : Option Uuid
  ip : Option JsString
  userAgent : Option JsString
  metadata : Json
  occurredAt : Timestamp

/-- A stored value that a service decrypted. -/
structure Decryption where
  secretId : Uuid
  environmentId : Uuid
  deriving DecidableEq, Repr

/-- `decryptions` is no table: it is the record of what the services decrypted. -/
structure Db (wrapper : KeyWrapper) where
  orgId : Uuid
  keys : DataKeyStore wrapper
  memberships : List Membership
  projectRoleOverrides : List ProjectRoleOverride
  projects : List Project
  environments : List Environment
  secrets : List Secret
  secretVersions : List SecretVersion
  tags : List Tag
  secretTags : List SecretTag
  projectTags : List ProjectTag
  auditEvents : List AuditEvent
  decryptions : List Decryption

/-! ## Writes -/

/-- The `SET` list of an update of `secrets`; a column that it does not name is `none`. -/
structure SecretSet where
  currentVersion : Option Nat := none
  notes : Option (Option JsString) := none
  deletedAt : Option (Option Timestamp) := none
  deletedByProjectAt : Option (Option Timestamp) := none
  deletedByEnvironmentAt : Option (Option Timestamp) := none
  updatedAt : Timestamp

def SecretSet.on (set : SecretSet) (row : Secret) : Secret :=
  { row with
    currentVersion := set.currentVersion.getD row.currentVersion
    notes := set.notes.getD row.notes
    deletedAt := set.deletedAt.getD row.deletedAt
    deletedByProjectAt := set.deletedByProjectAt.getD row.deletedByProjectAt
    deletedByEnvironmentAt := set.deletedByEnvironmentAt.getD row.deletedByEnvironmentAt
    updatedAt := set.updatedAt }

/-- The condition under which `bump_environment_config_version` goes on. -/
def SecretSet.bumps (set : SecretSet) (row : Secret) : Bool :=
  (set.on row).currentVersion ≠ row.currentVersion || (set.on row).deletedAt ≠ row.deletedAt

structure EnvironmentSet where
  name : Option JsString := none
  slug : Option JsString := none
  displayOrder : Option Nat := none
  isProtected : Option Bool := none
  deletedAt : Option (Option Timestamp) := none
  purgeAfter : Option (Option Timestamp) := none
  deletedByProjectAt : Option (Option Timestamp) := none

def EnvironmentSet.on (set : EnvironmentSet) (row : Environment) : Environment :=
  { row with
    name := set.name.getD row.name
    slug := set.slug.getD row.slug
    displayOrder := set.displayOrder.getD row.displayOrder
    isProtected := set.isProtected.getD row.isProtected
    deletedAt := set.deletedAt.getD row.deletedAt
    purgeAfter := set.purgeAfter.getD row.purgeAfter
    deletedByProjectAt := set.deletedByProjectAt.getD row.deletedByProjectAt }

structure ProjectSet where
  name : Option JsString := none
  slug : Option JsString := none
  description : Option (Option JsString) := none
  defaultEnvironments : Option (Option (List JsString)) := none
  archivedAt : Option (Option Timestamp) := none
  deletedAt : Option (Option Timestamp) := none
  purgeAfter : Option (Option Timestamp) := none

def ProjectSet.on (set : ProjectSet) (row : Project) : Project :=
  { row with
    name := set.name.getD row.name
    slug := set.slug.getD row.slug
    description := set.description.getD row.description
    defaultEnvironments := set.defaultEnvironments.getD row.defaultEnvironments
    archivedAt := set.archivedAt.getD row.archivedAt
    deletedAt := set.deletedAt.getD row.deletedAt
    purgeAfter := set.purgeAfter.getD row.purgeAfter }

inductive Write where
  | insertSecret (row : Secret)
  | updateSecret (id : Uuid) (set : SecretSet)
  | insertSecretVersion (row : SecretVersion)
  | deleteSecretTags (secretId : Uuid)
  | insertSecretTag (row : SecretTag)
  | activateKey (dataKey : DataKey) (nonce : Nonce)
  | insertAuditEvent (row : AuditEvent)
  | noteDecryption (row : Decryption)
  | insertEnvironment (row : Environment)
  | updateEnvironment (id : Uuid) (set : EnvironmentSet)
  | insertProject (row : Project)
  | updateProject (id : Uuid) (set : ProjectSet)
  | deleteProjectTags (projectId : Uuid)
  | insertProjectTag (row : ProjectTag)

section

variable {α : Type}

/-- `UPDATE … WHERE`. -/
def updateWhere (p : α → Bool) (f : α → α) (rows : List α) : List α :=
  rows.map fun row => if p row then f row else row

/-- An update of rows that a filter leaves out. -/
theorem filter_updateWhere_of_not {p q : α → Bool} {f : α → α} {rows : List α}
    (h : ∀ row ∈ rows, p row = true → q row = false ∧ q (f row) = false) :
    (updateWhere p f rows).filter q = rows.filter q := by
  induction rows with
  | nil => rfl
  | cons row rows ih =>
    have hrest := ih fun row' hrow' => h row' (List.mem_cons_of_mem _ hrow')
    rw [updateWhere, List.map_cons]
    by_cases hp : p row = true
    · obtain ⟨hold, hnew⟩ := h row List.mem_cons_self hp
      rw [if_pos hp, List.filter_cons_of_neg (by simp [hnew]),
        List.filter_cons_of_neg (by simp [hold])]
      exact hrest
    · rw [if_neg hp, List.filter_cons, List.filter_cons]
      simp only [updateWhere] at hrest
      rw [hrest]

/-- An update that keeps `key` changes the rows of a key in place. -/
theorem filter_updateWhere {κ : Type} [DecidableEq κ] (key : α → κ) {p : α → Bool} {f : α → α}
    (hkey : ∀ row, p row = true → key (f row) = key row) (k : κ) (rows : List α) :
    (updateWhere p f rows).filter (key · = k) = updateWhere p f (rows.filter (key · = k)) := by
  induction rows with
  | nil => rfl
  | cons row rows ih =>
    have hrow : key (if p row then f row else row) = key row := by
      split
      · rename_i hp
        exact hkey row hp
      · rfl
    rw [updateWhere, List.map_cons]
    by_cases hk : key row = k
    · rw [List.filter_cons_of_pos (by simpa [hrow] using hk),
        List.filter_cons_of_pos (by simpa using hk)]
      exact congrArg _ ih
    · rw [List.filter_cons_of_neg (by simpa [hrow] using hk),
        List.filter_cons_of_neg (by simpa using hk)]
      exact ih

theorem find_of_mem {κ : Type} [DecidableEq κ] {key : α → κ} {rows : List α}
    (hnodup : (rows.map key).Nodup) {row : α} (h : row ∈ rows) :
    rows.find? (key · = key row) = some row := by
  induction rows with
  | nil => cases h
  | cons other rows ih =>
    rw [List.map_cons, List.nodup_cons] at hnodup
    rcases List.mem_cons.mp h with rfl | h
    · exact List.find?_cons_of_pos (by simp)
    · have hne : key other ≠ key row := fun heq => hnodup.1 (heq ▸ List.mem_map_of_mem h)
      rw [List.find?_cons_of_neg (by simpa using hne)]
      exact ih hnodup.2 h

theorem mem_of_find {κ : Type} [DecidableEq κ] {key : α → κ} {rows : List α} {k : κ} {row : α}
    (h : rows.find? (key · = k) = some row) : row ∈ rows ∧ key row = k :=
  ⟨List.mem_of_find?_eq_some h, by simpa using List.find?_some h⟩

theorem mem_updateWhere {p : α → Bool} {f : α → α} {rows : List α} {row : α} :
    row ∈ updateWhere p f rows ↔
      ∃ old ∈ rows, (p old = true ∧ row = f old) ∨ (p old = false ∧ row = old) := by
  rw [updateWhere, List.mem_map]
  refine exists_congr fun old => and_congr_right fun _ => ?_
  cases p old <;> simp [eq_comm]

theorem map_updateWhere {κ : Type} {key : α → κ} {p : α → Bool} {f : α → α}
    (hkey : ∀ row, key (f row) = key row) (rows : List α) :
    (updateWhere p f rows).map key = rows.map key := by
  rw [updateWhere, List.map_map]
  refine List.map_congr_left fun row _ => ?_
  simp only [Function.comp]
  split
  · exact hkey row
  · rfl

/-- A new row has no entry but its own. -/
theorem any_filter_singleton {κ : Type} [DecidableEq κ] (entry : α → κ) {row : α} {k : κ}
    (hne : entry row ≠ k) (p : α → Bool) : ([row].filter p).any (entry · = k) = false := by
  rw [List.any_eq_false]
  intro other hother
  rw [List.mem_singleton.mp (List.mem_filter.mp hother).1]
  simpa using hne

/-- A deletion of the rows of another key. -/
theorem filter_key_of_ne {κ : Type} [DecidableEq κ] (key : α → κ) {k deleted : κ}
    (hne : k ≠ deleted) (rows : List α) :
    (rows.filter (key · ≠ deleted)).filter (key · = k) = rows.filter (key · = k) := by
  rw [List.filter_filter]
  refine List.filter_congr fun row _ => ?_
  by_cases hrow : key row = k
  · simp [hrow, hne]
  · simp [hrow]

/-- An update of the rows of one id. -/
theorem filter_updateWhere_id {κ : Type} [DecidableEq κ] (key : α → κ) {f : α → α}
    (hkey : ∀ row, key (f row) = key row) (id other : κ) (rows : List α) :
    (updateWhere (key · = id) f rows).filter (key · = other) =
      if other = id then (rows.filter (key · = other)).map f
      else rows.filter (key · = other) := by
  split
  · rename_i h
    rw [filter_updateWhere key fun row _ => hkey row]
    refine List.map_congr_left fun row hrow => ?_
    rw [if_pos (by simpa [h] using (List.mem_filter.mp hrow).2)]
  · rename_i h
    refine filter_updateWhere_of_not fun row _ hrow => ?_
    have hne : key row ≠ other := fun heq => h (heq.symm.trans (by simpa using hrow))
    exact ⟨decide_eq_false hne, decide_eq_false (by rwa [hkey])⟩

end

variable {wrapper : KeyWrapper}

/-- The rows for which an update fires the trigger's `UPDATE environments`. -/
def bumped (db : Db wrapper) (id : Uuid) (set : SecretSet) : List Secret :=
  db.secrets.filter fun row => row.id = id && set.bumps row

/-- `UPDATE environments SET config_version = config_version + 1 WHERE …` for each of the rows. -/
def bumpEnvironment (rows : List Secret) (environment : Environment) : Environment :=
  { environment with
    configVersion := environment.configVersion + rows.countP fun row =>
      row.projectId = environment.projectId && row.environmentId = environment.id }

def apply : Write → Db wrapper → Db wrapper
  | .insertSecret row, db => { db with secrets := db.secrets ++ [row] }
  | .updateSecret id set, db =>
    { db with
      secrets := updateWhere (·.id = id) set.on db.secrets
      environments := db.environments.map (bumpEnvironment (bumped db id set)) }
  | .insertSecretVersion row, db => { db with secretVersions := db.secretVersions ++ [row] }
  | .deleteSecretTags secretId, db =>
    { db with secretTags := db.secretTags.filter (·.secretId ≠ secretId) }
  | .insertSecretTag row, db => { db with secretTags := db.secretTags ++ [row] }
  | .activateKey dataKey nonce, db =>
    { db with keys := db.keys.activate db.orgId.text dataKey nonce }
  | .insertAuditEvent row, db => { db with auditEvents := db.auditEvents ++ [row] }
  | .noteDecryption row, db => { db with decryptions := db.decryptions ++ [row] }
  | .insertEnvironment row, db => { db with environments := db.environments ++ [row] }
  | .updateEnvironment id set, db =>
    { db with environments := updateWhere (·.id = id) set.on db.environments }
  | .insertProject row, db => { db with projects := db.projects ++ [row] }
  | .updateProject id set, db =>
    { db with projects := updateWhere (·.id = id) set.on db.projects }
  | .deleteProjectTags projectId, db =>
    { db with projectTags := db.projectTags.filter (·.projectId ≠ projectId) }
  | .insertProjectTag row, db => { db with projectTags := db.projectTags ++ [row] }

/-! ## Locks and parts -/

inductive Lock where
  | secret (id : Uuid)
  | slot (slot : Uuid × JsString)
  | environment (id : Uuid)
  | environmentSlot (slot : Uuid × JsString)
  | project (id : Uuid)
  | projectSlot (slug : JsString)
  | keys
  deriving DecidableEq

/-- What a lock protects; of a unique constraint on a column that changes it is the rows that have
the entry. -/
inductive Contents (wrapper : KeyWrapper) where
  | secret (rows : List Secret) (versions : List SecretVersion) (tags : List SecretTag)
  | slot (ids : List Uuid)
  | environment (rows : List Environment)
  | project (rows : List Project) (tags : List ProjectTag)
  | entry (holds : Uuid → Bool)
  | keys (orgId : Uuid) (store : DataKeyStore wrapper)

def Db.secretRows (db : Db wrapper) (id : Uuid) : List Secret := db.secrets.filter (·.id = id)

def Db.versionsOf (db : Db wrapper) (id : Uuid) : List SecretVersion :=
  db.secretVersions.filter (·.secretId = id)

def Db.tagsOf (db : Db wrapper) (id : Uuid) : List SecretTag :=
  db.secretTags.filter (·.secretId = id)

def Db.slotIds (db : Db wrapper) (slot : Uuid × JsString) : List Uuid :=
  (db.secrets.filter (·.slot = slot)).map (·.id)

def Db.environmentRows (db : Db wrapper) (id : Uuid) : List Environment :=
  db.environments.filter (·.id = id)

def Db.projectRows (db : Db wrapper) (id : Uuid) : List Project := db.projects.filter (·.id = id)

def Db.projectTagsOf (db : Db wrapper) (id : Uuid) : List ProjectTag :=
  db.projectTags.filter (·.projectId = id)

def Db.hasEnvironmentSlot (db : Db wrapper) (slot : Uuid × JsString) (id : Uuid) : Bool :=
  (db.environmentRows id).any (·.slot = slot)

def Db.hasProjectSlug (db : Db wrapper) (slug : JsString) (id : Uuid) : Bool :=
  (db.projectRows id).any (·.slug = slug)

def part : Lock → Db wrapper → Contents wrapper
  | .secret id, db => .secret (db.secretRows id) (db.versionsOf id) (db.tagsOf id)
  | .slot slot, db => .slot (db.slotIds slot)
  | .environment id, db => .environment (db.environmentRows id)
  | .environmentSlot slot, db => .entry (db.hasEnvironmentSlot slot)
  | .project id, db => .project (db.projectRows id) (db.projectTagsOf id)
  | .projectSlot slug, db => .entry (db.hasProjectSlug slug)
  | .keys, db => .keys db.orgId db.keys

/-- The entries that an update of an environment leaves and takes. -/
def movedSlots (db : Db wrapper) (id : Uuid) (set : EnvironmentSet) : List Lock :=
  ((db.environmentRows id).filter fun row => (set.on row).slot ≠ row.slot).flatMap fun row =>
    [.environmentSlot row.slot, .environmentSlot (set.on row).slot]

/-- The entries that an update of a project leaves and takes. -/
def movedSlugs (db : Db wrapper) (id : Uuid) (set : ProjectSet) : List Lock :=
  ((db.projectRows id).filter fun row => (set.on row).slug ≠ row.slug).flatMap fun row =>
    [.projectSlot row.slug, .projectSlot (set.on row).slug]

def touches : Write → Db wrapper → List Lock
  | .insertSecret row, _ => [.secret row.id, .slot row.slot]
  | .updateSecret id set, db =>
    .secret id :: (bumped db id set).map fun row => .environment row.environmentId
  | .insertSecretVersion row, _ => [.secret row.secretId]
  | .deleteSecretTags secretId, _ => [.secret secretId]
  | .insertSecretTag row, _ => [.secret row.secretId]
  | .activateKey _ _, _ => [.keys]
  | .insertAuditEvent _, _ => []
  | .noteDecryption _, _ => []
  | .insertEnvironment row, _ => [.environment row.id, .environmentSlot row.slot]
  | .updateEnvironment id set, db => .environment id :: movedSlots db id set
  | .insertProject row, _ => [.project row.id, .projectSlot row.slug]
  | .updateProject id set, db => .project id :: movedSlugs db id set
  | .deleteProjectTags projectId, _ => [.project projectId]
  | .insertProjectTag row, _ => [.project row.projectId]

@[simp] theorem SecretSet.on_id (set : SecretSet) (row : Secret) : (set.on row).id = row.id := rfl

@[simp] theorem SecretSet.on_slot (set : SecretSet) (row : Secret) :
    (set.on row).slot = row.slot := rfl

@[simp] theorem bumpEnvironment_id (rows : List Secret) (environment : Environment) :
    (bumpEnvironment rows environment).id = environment.id := rfl

theorem bumpEnvironment_of_not_mem {rows : List Secret} {environment : Environment}
    (h : ∀ row ∈ rows, row.environmentId ≠ environment.id) :
    bumpEnvironment rows environment = environment := by
  have hcount : rows.countP (fun row =>
      row.projectId = environment.projectId && row.environmentId = environment.id) = 0 := by
    rw [List.countP_eq_zero]
    intro row hrow
    simp [h row hrow]
  rw [bumpEnvironment, hcount, Nat.add_zero]

theorem slotIds_updateSecret (id : Uuid) (set : SecretSet) (db : Db wrapper)
    (slot : Uuid × JsString) :
    (apply (.updateSecret id set) db).slotIds slot = db.slotIds slot := by
  simp only [Db.slotIds, apply]
  rw [filter_updateWhere Secret.slot (fun _ _ => set.on_slot _), updateWhere, List.map_map]
  refine List.map_congr_left fun row _ => ?_
  simp only [Function.comp]
  split <;> rfl

theorem secretRows_updateSecret (id : Uuid) (set : SecretSet) (db : Db wrapper) (other : Uuid) :
    (apply (.updateSecret id set) db).secretRows other =
      if other = id then (db.secretRows other).map set.on else db.secretRows other :=
  filter_updateWhere_id Secret.id set.on_id id other db.secrets

theorem environmentRows_updateEnvironment (id : Uuid) (set : EnvironmentSet) (db : Db wrapper)
    (other : Uuid) : (apply (.updateEnvironment id set) db).environmentRows other =
      if other = id then (db.environmentRows other).map set.on else db.environmentRows other :=
  filter_updateWhere_id Environment.id (f := set.on) (fun _ => rfl) id other db.environments

theorem projectRows_updateProject (id : Uuid) (set : ProjectSet) (db : Db wrapper)
    (other : Uuid) : (apply (.updateProject id set) db).projectRows other =
      if other = id then (db.projectRows other).map set.on else db.projectRows other :=
  filter_updateWhere_id Project.id (f := set.on) (fun _ => rfl) id other db.projects

theorem environmentRows_updateSecret (id : Uuid) (set : SecretSet) (db : Db wrapper)
    (other : Uuid) : (apply (.updateSecret id set) db).environmentRows other =
      (db.environmentRows other).map (bumpEnvironment (bumped db id set)) := by
  simp only [Db.environmentRows, apply]
  rw [List.filter_map]
  rfl

theorem hasEnvironmentSlot_updateSecret (id : Uuid) (set : SecretSet) (db : Db wrapper)
    (slot : Uuid × JsString) :
    (apply (.updateSecret id set) db).hasEnvironmentSlot slot = db.hasEnvironmentSlot slot := by
  funext other
  rw [Db.hasEnvironmentSlot, environmentRows_updateSecret, List.any_map]
  rfl

/-- An update of the rows of one id leaves an entry that none of them leaves or takes. -/
theorem any_map_eq {α β : Type} [DecidableEq β] {entry : α → β} {f : α → α} {rows : List α} {k : β}
    (h : ∀ row ∈ rows, entry (f row) ≠ entry row → entry row ≠ k ∧ entry (f row) ≠ k) :
    (rows.map f).any (entry · = k) = rows.any (entry · = k) := by
  induction rows with
  | nil => rfl
  | cons row rows ih =>
    rw [List.map_cons, List.any_cons, List.any_cons,
      ih fun other hother => h other (List.mem_cons_of_mem _ hother)]
    congr 1
    by_cases hmoved : entry (f row) = entry row
    · rw [hmoved]
    · have hne := h row (List.mem_cons_self ..) hmoved
      simp [hne.1, hne.2]

theorem hasEnvironmentSlot_updateEnvironment {id : Uuid} {set : EnvironmentSet} {db : Db wrapper}
    {slot : Uuid × JsString} (h : .environmentSlot slot ∉ movedSlots db id set) :
    (apply (.updateEnvironment id set) db).hasEnvironmentSlot slot = db.hasEnvironmentSlot slot := by
  funext other
  rw [Db.hasEnvironmentSlot, environmentRows_updateEnvironment]
  split
  · rename_i heq
    subst heq
    refine any_map_eq fun row hrow hmoved => ?_
    have hmem : row ∈ (db.environmentRows other).filter fun row => (set.on row).slot ≠ row.slot := by
      simpa [hrow] using hmoved
    refine ⟨?_, ?_⟩ <;> rintro rfl <;>
      exact h (List.mem_flatMap.mpr ⟨row, hmem, by simp⟩)
  · rfl

theorem hasProjectSlug_updateProject {id : Uuid} {set : ProjectSet} {db : Db wrapper}
    {slug : JsString} (h : .projectSlot slug ∉ movedSlugs db id set) :
    (apply (.updateProject id set) db).hasProjectSlug slug = db.hasProjectSlug slug := by
  funext other
  rw [Db.hasProjectSlug, projectRows_updateProject]
  split
  · rename_i heq
    subst heq
    refine any_map_eq fun row hrow hmoved => ?_
    have hmem : row ∈ (db.projectRows other).filter fun row => (set.on row).slug ≠ row.slug := by
      simpa [hrow] using hmoved
    refine ⟨?_, ?_⟩ <;> rintro rfl <;>
      exact h (List.mem_flatMap.mpr ⟨row, hmem, by simp⟩)
  · rfl

theorem bumped_eq (db : Db wrapper) (id : Uuid) (set : SecretSet) :
    bumped db id set = (db.secretRows id).filter set.bumps := by
  simp only [bumped, Db.secretRows, List.filter_filter]
  refine List.filter_congr fun row _ => ?_
  exact Bool.and_comm _ _

/-! ## The store -/

/-- A write leaves the parts it does not touch as they are. -/
theorem part_apply_of_not_touched (w : Write) (db : Db wrapper) (l : Lock)
    (h : l ∉ touches w db) : part l (apply w db) = part l db := by
  cases w with
  | insertSecret row =>
    simp only [touches, List.mem_cons, List.not_mem_nil, or_false, not_or] at h
    cases l with
    | secret id =>
      have hne : row.id ≠ id := fun heq => h.1 (heq ▸ rfl)
      simp [part, apply, Db.secretRows, Db.versionsOf, Db.tagsOf, List.filter_append, hne]
    | slot slot =>
      have hne : row.slot ≠ slot := fun heq => h.2 (heq ▸ rfl)
      simp [part, apply, Db.slotIds, List.filter_append, hne]
    | environment | environmentSlot | project | projectSlot | keys => rfl
  | updateSecret id set =>
    simp only [touches, List.mem_cons, not_or] at h
    cases l with
    | secret other =>
      have hne : other ≠ id := fun heq => h.1 (heq ▸ rfl)
      simp only [part]
      rw [secretRows_updateSecret, if_neg hne]
      rfl
    | slot slot =>
      simp only [part]
      rw [slotIds_updateSecret]
    | environment other =>
      simp only [part]
      rw [environmentRows_updateSecret]
      congr 1
      conv_rhs => rw [← List.map_id (db.environmentRows other)]
      refine List.map_congr_left fun environment henv => ?_
      refine bumpEnvironment_of_not_mem fun row hrow heq => h.2 ?_
      have hid : environment.id = other := by simpa using (List.mem_filter.mp henv).2
      exact List.mem_map.mpr ⟨row, hrow, by rw [heq, hid]⟩
    | environmentSlot slot =>
      simp only [part]
      rw [hasEnvironmentSlot_updateSecret]
    | project | projectSlot | keys => rfl
  | insertSecretVersion row =>
    simp only [touches, List.mem_singleton] at h
    cases l with
    | secret id =>
      have hne : row.secretId ≠ id := fun heq => h (heq ▸ rfl)
      simp [part, apply, Db.secretRows, Db.versionsOf, Db.tagsOf, List.filter_append, hne]
    | slot | environment | environmentSlot | project | projectSlot | keys => rfl
  | deleteSecretTags secretId =>
    simp only [touches, List.mem_singleton] at h
    cases l with
    | secret id =>
      have hne : id ≠ secretId := fun heq => h (heq ▸ rfl)
      simp only [part, apply, Db.tagsOf, Db.secretRows, Db.versionsOf, Contents.secret.injEq,
        true_and]
      exact filter_key_of_ne SecretTag.secretId hne db.secretTags
    | slot | environment | environmentSlot | project | projectSlot | keys => rfl
  | insertSecretTag row =>
    simp only [touches, List.mem_singleton] at h
    cases l with
    | secret id =>
      have hne : row.secretId ≠ id := fun heq => h (heq ▸ rfl)
      simp [part, apply, Db.secretRows, Db.versionsOf, Db.tagsOf, List.filter_append, hne]
    | slot | environment | environmentSlot | project | projectSlot | keys => rfl
  | activateKey dataKey nonce =>
    cases l with
    | keys => exact absurd (List.mem_singleton_self _) h
    | secret | slot | environment | environmentSlot | project | projectSlot => rfl
  | insertAuditEvent row => cases l <;> rfl
  | noteDecryption row => cases l <;> rfl
  | insertEnvironment row =>
    simp only [touches, List.mem_cons, List.not_mem_nil, or_false, not_or] at h
    cases l with
    | environment id =>
      have hne : row.id ≠ id := fun heq => h.1 (heq ▸ rfl)
      simp [part, apply, Db.environmentRows, List.filter_append, hne]
    | environmentSlot slot =>
      have hne : row.slot ≠ slot := fun heq => h.2 (heq ▸ rfl)
      simp only [part, Contents.entry.injEq]
      funext other
      simp only [Db.hasEnvironmentSlot, Db.environmentRows, apply, List.filter_append,
        List.any_append, any_filter_singleton Environment.slot hne, Bool.or_false]
    | secret | slot | project | projectSlot | keys => rfl
  | updateEnvironment id set =>
    simp only [touches, List.mem_cons, not_or] at h
    cases l with
    | environment other =>
      have hne : other ≠ id := fun heq => h.1 (heq ▸ rfl)
      simp only [part]
      rw [environmentRows_updateEnvironment, if_neg hne]
    | environmentSlot slot =>
      simp only [part]
      rw [hasEnvironmentSlot_updateEnvironment h.2]
    | secret | slot | project | projectSlot | keys => rfl
  | insertProject row =>
    simp only [touches, List.mem_cons, List.not_mem_nil, or_false, not_or] at h
    cases l with
    | project id =>
      have hne : row.id ≠ id := fun heq => h.1 (heq ▸ rfl)
      simp [part, apply, Db.projectRows, Db.projectTagsOf, List.filter_append, hne]
    | projectSlot slug =>
      have hne : row.slug ≠ slug := fun heq => h.2 (heq ▸ rfl)
      simp only [part, Contents.entry.injEq]
      funext other
      simp only [Db.hasProjectSlug, Db.projectRows, apply, List.filter_append,
        List.any_append, any_filter_singleton Project.slug hne, Bool.or_false]
    | secret | slot | environment | environmentSlot | keys => rfl
  | updateProject id set =>
    simp only [touches, List.mem_cons, not_or] at h
    cases l with
    | project other =>
      have hne : other ≠ id := fun heq => h.1 (heq ▸ rfl)
      simp only [part]
      rw [projectRows_updateProject, if_neg hne]
      rfl
    | projectSlot slug =>
      simp only [part]
      rw [hasProjectSlug_updateProject h.2]
    | secret | slot | environment | environmentSlot | keys => rfl
  | deleteProjectTags projectId =>
    simp only [touches, List.mem_singleton] at h
    cases l with
    | project id =>
      have hne : id ≠ projectId := fun heq => h (heq ▸ rfl)
      simp only [part, apply, Db.projectTagsOf, Db.projectRows, Contents.project.injEq, true_and]
      exact filter_key_of_ne ProjectTag.projectId hne db.projectTags
    | secret | slot | environment | environmentSlot | projectSlot | keys => rfl
  | insertProjectTag row =>
    simp only [touches, List.mem_singleton] at h
    cases l with
    | project id =>
      have hne : row.projectId ≠ id := fun heq => h (heq ▸ rfl)
      simp [part, apply, Db.projectRows, Db.projectTagsOf, List.filter_append, hne]
    | secret | slot | environment | environmentSlot | projectSlot | keys => rfl

/-- A write depends only on the parts it touches. -/
theorem part_apply_congr (w : Write) (db db' : Db wrapper)
    (h : ∀ l ∈ touches w db, part l db' = part l db) :
    touches w db' = touches w db ∧
      ∀ l ∈ touches w db, part l (apply w db') = part l (apply w db) := by
  cases w with
  | insertSecret row =>
    refine ⟨rfl, fun l hl => ?_⟩
    have hpart := h l hl
    simp only [touches, List.mem_cons, List.not_mem_nil, or_false] at hl
    rcases hl with rfl | rfl
    · simp only [part, Contents.secret.injEq] at hpart ⊢
      simp only [apply, Db.secretRows, Db.versionsOf, Db.tagsOf, List.filter_append] at hpart ⊢
      simp only [hpart, and_self]
    · simp only [part, Contents.slot.injEq] at hpart ⊢
      simp only [apply, Db.slotIds, List.filter_append, List.map_append] at hpart ⊢
      simp only [hpart]
  | updateSecret id set =>
    have hsecret := h (.secret id) (List.mem_cons_self ..)
    simp only [part, Contents.secret.injEq] at hsecret
    have hbumped : bumped db' id set = bumped db id set := by
      rw [bumped_eq, bumped_eq, hsecret.1]
    refine ⟨by simp only [touches, hbumped], fun l hl => ?_⟩
    have hpart := h l hl
    rcases List.mem_cons.mp hl with rfl | hl
    · simp only [part, Contents.secret.injEq]
      rw [secretRows_updateSecret, secretRows_updateSecret, hsecret.1]
      exact ⟨rfl, hsecret.2⟩
    · obtain ⟨row, -, rfl⟩ := List.mem_map.mp hl
      simp only [part, Contents.environment.injEq] at hpart ⊢
      rw [environmentRows_updateSecret, environmentRows_updateSecret, hbumped, hpart]
  | insertSecretVersion row =>
    refine ⟨rfl, fun l hl => ?_⟩
    have hpart := h l hl
    rw [List.mem_singleton.mp hl] at hpart ⊢
    simp only [part, Contents.secret.injEq] at hpart ⊢
    simp only [apply, Db.secretRows, Db.versionsOf, Db.tagsOf, List.filter_append] at hpart ⊢
    simp only [hpart, and_self]
  | deleteSecretTags secretId =>
    refine ⟨rfl, fun l hl => ?_⟩
    have hpart := h l hl
    rw [List.mem_singleton.mp hl] at hpart ⊢
    simp only [part, Contents.secret.injEq] at hpart ⊢
    refine ⟨hpart.1, hpart.2.1, ?_⟩
    simp [apply, Db.tagsOf, List.filter_filter]
  | insertSecretTag row =>
    refine ⟨rfl, fun l hl => ?_⟩
    have hpart := h l hl
    rw [List.mem_singleton.mp hl] at hpart ⊢
    simp only [part, Contents.secret.injEq] at hpart ⊢
    simp only [apply, Db.secretRows, Db.versionsOf, Db.tagsOf, List.filter_append] at hpart ⊢
    simp only [hpart, and_self]
  | activateKey dataKey nonce =>
    refine ⟨rfl, fun l hl => ?_⟩
    have hpart := h l hl
    rw [List.mem_singleton.mp hl] at hpart ⊢
    simp only [part, Contents.keys.injEq] at hpart ⊢
    simp only [apply, hpart, and_self]
  | insertAuditEvent row => exact ⟨rfl, fun l hl => absurd hl List.not_mem_nil⟩
  | noteDecryption row => exact ⟨rfl, fun l hl => absurd hl List.not_mem_nil⟩
  | insertEnvironment row =>
    refine ⟨rfl, fun l hl => ?_⟩
    have hpart := h l hl
    simp only [touches, List.mem_cons, List.not_mem_nil, or_false] at hl
    rcases hl with rfl | rfl
    · simp only [part, Contents.environment.injEq] at hpart ⊢
      simp only [apply, Db.environmentRows, List.filter_append] at hpart ⊢
      simp only [hpart]
    · simp only [part, Contents.entry.injEq] at hpart ⊢
      funext other
      have hother := congrFun hpart other
      simp only [apply, Db.hasEnvironmentSlot, Db.environmentRows, List.filter_append,
        List.any_append] at hother ⊢
      rw [hother]
  | updateEnvironment id set =>
    have hrows := h (.environment id) (List.mem_cons_self ..)
    simp only [part, Contents.environment.injEq] at hrows
    refine ⟨by simp only [touches, movedSlots, hrows], fun l hl => ?_⟩
    have hpart := h l hl
    rcases List.mem_cons.mp hl with rfl | hl
    · simp only [part, Contents.environment.injEq]
      rw [environmentRows_updateEnvironment, environmentRows_updateEnvironment, hrows]
    · obtain ⟨row, -, hl⟩ := List.mem_flatMap.mp hl
      obtain ⟨slot, rfl⟩ : ∃ slot, l = .environmentSlot slot := by
        simp only [List.mem_cons, List.not_mem_nil, or_false] at hl
        rcases hl with rfl | rfl <;> exact ⟨_, rfl⟩
      simp only [part, Contents.entry.injEq] at hpart ⊢
      funext other
      have hother := congrFun hpart other
      simp only [Db.hasEnvironmentSlot] at hother ⊢
      rw [environmentRows_updateEnvironment, environmentRows_updateEnvironment]
      split
      · rename_i heq
        rw [heq, hrows]
      · exact hother
  | insertProject row =>
    refine ⟨rfl, fun l hl => ?_⟩
    have hpart := h l hl
    simp only [touches, List.mem_cons, List.not_mem_nil, or_false] at hl
    rcases hl with rfl | rfl
    · simp only [part, Contents.project.injEq] at hpart ⊢
      simp only [apply, Db.projectRows, Db.projectTagsOf, List.filter_append] at hpart ⊢
      simp only [hpart, and_self]
    · simp only [part, Contents.entry.injEq] at hpart ⊢
      funext other
      have hother := congrFun hpart other
      simp only [apply, Db.hasProjectSlug, Db.projectRows, List.filter_append,
        List.any_append] at hother ⊢
      rw [hother]
  | updateProject id set =>
    have hrows := h (.project id) (List.mem_cons_self ..)
    simp only [part, Contents.project.injEq] at hrows
    refine ⟨by simp only [touches, movedSlugs, hrows.1], fun l hl => ?_⟩
    have hpart := h l hl
    rcases List.mem_cons.mp hl with rfl | hl
    · simp only [part, Contents.project.injEq]
      rw [projectRows_updateProject, projectRows_updateProject, hrows.1]
      exact ⟨rfl, hrows.2⟩
    · obtain ⟨row, -, hl⟩ := List.mem_flatMap.mp hl
      obtain ⟨slug, rfl⟩ : ∃ slug, l = .projectSlot slug := by
        simp only [List.mem_cons, List.not_mem_nil, or_false] at hl
        rcases hl with rfl | rfl <;> exact ⟨_, rfl⟩
      simp only [part, Contents.entry.injEq] at hpart ⊢
      funext other
      have hother := congrFun hpart other
      simp only [Db.hasProjectSlug] at hother ⊢
      rw [projectRows_updateProject, projectRows_updateProject]
      split
      · rename_i heq
        rw [heq, hrows.1]
      · exact hother
  | deleteProjectTags projectId =>
    refine ⟨rfl, fun l hl => ?_⟩
    have hpart := h l hl
    rw [List.mem_singleton.mp hl] at hpart ⊢
    simp only [part, Contents.project.injEq] at hpart ⊢
    refine ⟨hpart.1, ?_⟩
    simp [apply, Db.projectTagsOf, List.filter_filter]
  | insertProjectTag row =>
    refine ⟨rfl, fun l hl => ?_⟩
    have hpart := h l hl
    rw [List.mem_singleton.mp hl] at hpart ⊢
    simp only [part, Contents.project.injEq] at hpart ⊢
    simp only [apply, Db.projectRows, Db.projectTagsOf, List.filter_append] at hpart ⊢
    simp only [hpart, and_self]

def store : Interleaving.Store (Db wrapper) Lock Write (Contents wrapper) where
  apply := apply
  part := part
  touches := touches
  frame := part_apply_of_not_touched
  congr := part_apply_congr

end Himitsu.Database
