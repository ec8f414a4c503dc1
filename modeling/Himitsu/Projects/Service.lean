import Himitsu.Environments.Service

/-!
# The project service

Model of `ProjectService` of `packages/projects/src/index.ts`, a statement of the source for a
statement of the model, with the trigger of `0008_environments.sql` that creates the environments
of a new project.
-/

set_option autoImplicit false

namespace Himitsu.Projects

open JsString Crypto Database Services Transactions Secrets

structure ProjectEnvironmentSummary where
  id : Uuid
  name : JsString
  slug : JsString
  isProtected : Bool

structure Project where
  id : Uuid
  orgId : Uuid
  name : JsString
  slug : JsString
  description : Option JsString
  defaultEnvironments : List JsString
  tags : List Tag
  environments : List ProjectEnvironmentSummary
  archivedAt : Option Int
  deletedAt : Option Int
  purgeAfter : Option Int

def Project.tagIds (project : Project) : List Uuid := project.tags.map (·.id)

def invalidInput (message : String) : ProjectError := ⟨.invalidInput, ofAscii message⟩

def notFound (message : String) : ServiceError := .project ⟨.notFound, ofAscii message⟩

/-! ## Checks -/

def normalizeProjectSlug (slug : JsString) : Except ProjectError JsString :=
  match normalizeSlug slug with
  | some normalized => .ok normalized
  | none => .error (invalidInput "Project slug must use lowercase words separated by hyphens")

def projectName (name : JsString) : Except ProjectError JsString :=
  let normalized := trim name
  if normalized.length < 1 ∨ normalized.length > 120 then
    .error (invalidInput "Project name must be between 1 and 120 characters")
  else .ok normalized

def projectDescription (description : Option JsString) :
    Except ProjectError (Option JsString) :=
  match description with
  | none => .ok none
  | some description =>
    let normalized := trim description
    if normalized = [] then .ok none
    else if normalized.length > 4000 then
      .error (invalidInput "Project description is too long")
    else .ok (some normalized)

def DEFAULT_ENVIRONMENTS : List JsString :=
  [ofAscii "development", ofAscii "staging", ofAscii "production"]

def validateDefaultEnvironments (values : Option (List JsString)) :
    Except ProjectError (List JsString) := do
  let environments := values.getD DEFAULT_ENVIRONMENTS
  if environments.length < 1 ∨ environments.length > 20 then
    .error (invalidInput "Projects require between 1 and 20 default environments")
  else
    let normalized ← environments.mapM normalizeProjectSlug
    if normalized.dedup.length ≠ normalized.length then
      .error (invalidInput "Default environment slugs must be unique")
    else .ok normalized

/-! ## The trigger -/

/-- `initcap` of a text of lower-case letters, digits and blanks; `start` is whether a word starts
here. -/
def initcap (start : Bool) : JsString → JsString
  | [] => []
  | c :: rest => (if start && isLower c then c - 0x20 else c) :: initcap (!isSlugUnit c) rest

/-- `initcap(replace(value, '-', ' '))`. -/
def defaultName (slug : JsString) : JsString :=
  initcap true (slug.map fun c => if c = 0x2D then 0x20 else c)

/-- The rows that `create_default_project_environments` inserts. -/
def createDefaultProjectEnvironments (project : Database.Project) (uuid : Nat → Uuid) :
    List Database.Environment :=
  let slugs := match project.defaultEnvironments with
    | none | some [] => DEFAULT_ENVIRONMENTS
    | some slugs => slugs
  slugs.mapIdx fun n slug =>
    { id := uuid n
      projectId := project.id
      name := defaultName slug
      slug := slug
      displayOrder := n
      isProtected := slug = ofAscii "production" || slug = ofAscii "prod"
      deletedAt := none
      purgeAfter := none
      deletedByProjectAt := none
      configVersion := 0 }

/-- Whether one of the new rows has the id or the slot of another row. -/
def conflicts (rows : List Database.Environment) : List Database.Environment → Bool
  | [] => false
  | row :: more =>
    ((rows ++ more).any fun other => other.id = row.id || other.slot = row.slot) ||
      conflicts rows more

/-- Rows without conflicts have new ids. -/
theorem not_conflicts {rows new : List Database.Environment}
    (h : conflicts rows new = false) :
    (∀ row ∈ new, ∀ other ∈ rows, other.id ≠ row.id) ∧ (new.map (·.id)).Nodup := by
  induction new with
  | nil => exact ⟨fun _ hrow => (List.not_mem_nil hrow).elim, List.nodup_nil⟩
  | cons row more ih =>
    rw [conflicts, Bool.or_eq_false_iff, List.any_eq_false] at h
    obtain ⟨hrows, hnodup⟩ := ih h.2
    have hne : ∀ other ∈ rows ++ more, other.id ≠ row.id := by
      intro other hother heq
      exact h.1 other hother (by simp [heq])
    constructor
    · intro new hnew other hother
      rcases List.mem_cons.mp hnew with rfl | hnew
      · exact hne other (List.mem_append_left _ hother)
      · exact hrows new hnew other hother
    · rw [List.map_cons, List.nodup_cons]
      refine ⟨fun hmem => ?_, hnodup⟩
      obtain ⟨other, hother, heq⟩ := List.mem_map.mp hmem
      exact hne other (List.mem_append_right _ hother) heq

/-! ## Lookups -/

variable {wrapper : KeyWrapper} (platform : Platform)

def tagsOf (db : Db wrapper) (projectId : Uuid) : List Tag :=
  orderBy platform.tagBefore ((db.projectTags.filter (·.projectId = projectId)).filterMap
    fun row => db.tags.find? (·.id = row.tagId))

/-- A row of `projectSelect`, before `fromRow` reads its settings. -/
def selectProject (db : Db wrapper) (row : Database.Project) : Project where
  id := row.id
  orgId := db.orgId
  name := row.name
  slug := row.slug
  description := row.description
  defaultEnvironments := row.defaultEnvironments.getD DEFAULT_ENVIRONMENTS
  tags := tagsOf platform db row.id
  environments := (orderBy Environments.displayBefore (Environments.activeRows db row.id)).map
    fun environment => ⟨environment.id, environment.name, environment.slug, environment.isProtected⟩
  archivedAt := row.archivedAt.map toDate
  deletedAt := row.deletedAt.map toDate
  purgeAfter := row.purgeAfter.map toDate

def fromRow (row : Project) : Except ProjectError Project := do
  let defaultEnvironments ← validateDefaultEnvironments (some row.defaultEnvironments)
  .ok { row with defaultEnvironments := defaultEnvironments }

/-- `getBySlug`, `getById` and `#getById` after their query. -/
def readRow (userId : Uuid) (p : Database.Project → Bool) : TransactionM wrapper Project := do
  let row ← Prog.select fun db : Db wrapper =>
    (db.projects.find? p).map (selectProject platform db)
  match row with
  | none => raise (notFound "Project not found")
  | some row => do
    authorizeUser userId (some row.id) false .projectRead
    attempt .project (fromRow row)

def getById (userId projectId : Uuid) (includeDeleted : Bool) : TransactionM wrapper Project :=
  readRow platform userId fun row =>
    row.id = projectId && (includeDeleted || row.deletedAt.isNone)

def getBySlug (userId : Uuid) (slug : JsString) (includeDeleted : Bool) :
    TransactionM wrapper Project := do
  let slug ← attempt .project (normalizeProjectSlug slug)
  readRow platform userId fun row =>
    row.slug = slug && (includeDeleted || row.deletedAt.isNone)

/-- `ORDER BY lower(p.name), p.id`. -/
def nameBefore (left right : Database.Project) : Bool :=
  if platform.lower left.name = platform.lower right.name then left.id.value ≤ right.id.value
  else platform.collate (platform.lower left.name) (platform.lower right.name)

def list (userId : Uuid) : TransactionM wrapper (List Project) := do
  authorizeUser userId none false .projectRead
  let rows ← Prog.select fun db : Db wrapper =>
    (orderBy (nameBefore platform) (db.projects.filter (·.deletedAt.isNone))).map
      (selectProject platform db)
  attempt .project (rows.mapM fromRow)

/-! ## Tags -/

/-- `#replaceTags`. -/
def replaceTags (projectId : Uuid) (tagIds : List Uuid) : TransactionM wrapper Unit := do
  let uniqueTagIds := tagIds.reverse.dedup.reverse
  if uniqueTagIds.length > 50 then
    raise (.project (invalidInput "A project can have at most 50 tags"))
  else
    let found ← Prog.select fun db : Db wrapper =>
      db.tags.countP fun tag => uniqueTagIds.contains tag.id
    if uniqueTagIds.length ≠ 0 ∧ found ≠ uniqueTagIds.length then
      raise (.project ⟨.tagNotFound,
        ofAscii "One or more project tags do not exist in this organization"⟩)
    else
      .execute (fun _ => []) (fun _ => [.deleteProjectTags projectId]) fun _ => .ok ()
      .execute (fun _ => [])
        (fun _ => uniqueTagIds.map fun tagId => .insertProjectTag ⟨projectId, tagId⟩)
        fun _ => .ok ()

/-! ## Creation and changes -/

structure CreateInput where
  name : JsString
  slug : JsString
  description : Option JsString
  defaultEnvironments : Option (List JsString)
  tagIds : List Uuid

/-- What the `catch` of `create` and `update` makes of a unique violation. -/
def slugExists : ServiceError → ServiceError
  | .sql .uniqueViolation => .project
      ⟨.slugExists, ofAscii "Project slug is already in use in this organization"⟩
  | error => error

/-- The event of an action on a project. -/
def projectEvent (orgId userId : Uuid) (action : Audit.AuditAction) (projectId : Uuid) :
    Audit.AuditEventInput where
  orgId := orgId
  actor := .user userId
  action := action
  resourceType := ofAscii "project"
  resourceId := some projectId.text
  projectId := some projectId

/-- The `INSERT` of `create`, with the trigger. -/
def insertRow (draws : Draws) (row : Database.Project) : TransactionM wrapper Unit :=
  let environments := createDefaultProjectEnvironments row fun n => draws.uuid (n + 1)
  .execute (fun _ => []) (fun _ => .insertProject row :: environments.map .insertEnvironment)
    fun db =>
      if (db.projects.any fun other => other.id = row.id || other.slug = row.slug) ||
          conflicts db.environments environments then
        .error (.sql .uniqueViolation)
      else .ok ()

def create (draws : Draws) (userId : Uuid) (input : CreateInput) :
    TransactionM wrapper Project := do
  authorizeUser userId none false .projectCreate
  let defaultEnvironments ← attempt .project (validateDefaultEnvironments input.defaultEnvironments)
  Prog.mapError slugExists do
    let name ← attempt .project (projectName input.name)
    let slug ← attempt .project (normalizeProjectSlug input.slug)
    let description ← attempt .project (projectDescription input.description)
    let name ← attempt .sql (storedText name)
    let description ← attempt .sql (storedOptional description)
    let projectId := draws.uuid 0
    insertRow draws
      { id := projectId
        name := name
        slug := slug
        description := description
        defaultEnvironments := some defaultEnvironments
        archivedAt := none
        deletedAt := none
        purgeAfter := none }
    replaceTags projectId input.tagIds
    let project ← getById platform userId projectId true
    Audit.recordInTransaction draws.now
      { projectEvent project.orgId userId .projectCreated projectId with
        after := some [(ofAscii "name", .string project.name),
          (ofAscii "slug", .string project.slug),
          (ofAscii "defaultEnvironments", .array (project.defaultEnvironments.map .string)),
          (ofAscii "tagIds", .array (project.tagIds.map fun id => .string id.text))] }
    pure project

structure UpdateInput where
  name : Option JsString
  slug : Option JsString
  description : Option (Option JsString)
  defaultEnvironments : Option (List JsString)
  tagIds : Option (List Uuid)

/-- The `UPDATE` of `update`. -/
def updateRow (projectId : Uuid) (set : ProjectSet) : TransactionM wrapper Unit :=
  let p := fun row : Database.Project => row.id = projectId && row.deletedAt.isNone
  .execute (fun _ => []) (fun db => (db.projects.filter p).map fun row => .updateProject row.id set)
    fun db =>
      match db.projects.find? p with
      | none => .ok ()
      | some row =>
        if db.projects.any fun other => other.id ≠ row.id && other.slug = (set.on row).slug then
          .error (.sql .uniqueViolation)
        else .ok ()

/-- The properties that `update` records of a project. -/
def projectMetadata (project : Project) : Audit.Metadata :=
  [(ofAscii "name", .string project.name), (ofAscii "slug", .string project.slug)]

def update (draws : Draws) (userId projectId : Uuid) (input : UpdateInput) :
    TransactionM wrapper Project := do
  let before ← getById platform userId projectId false
  authorizeUser userId (some projectId) false .projectUpdate
  let name ← checkedOr .project before.name projectName input.name
  let slug ← checkedOr .project before.slug normalizeProjectSlug input.slug
  let description ← checkedOr .project before.description projectDescription input.description
  let defaultEnvironments ← checkedOr .project before.defaultEnvironments
    (fun values => validateDefaultEnvironments (some values)) input.defaultEnvironments
  Prog.mapError slugExists do
    let name ← attempt .sql (storedText name)
    let description ← attempt .sql (storedOptional description)
    updateRow projectId
      { name := some name, slug := some slug, description := some description,
        defaultEnvironments := some (some defaultEnvironments) }
    doIf input.tagIds.isSome (replaceTags projectId (input.tagIds.getD []))
    let after ← getById platform userId projectId false
    Audit.recordInTransaction draws.now
      { projectEvent before.orgId userId .projectUpdated projectId with
        before := some (projectMetadata before)
        after := some (projectMetadata after) }
    pure after

def setArchived (draws : Draws) (userId projectId : Uuid) (archived : Bool) :
    TransactionM wrapper Project := do
  let _ ← getById platform userId projectId false
  authorizeUser userId (some projectId) false .projectArchive
  updateProjects (fun row => row.id = projectId && row.deletedAt.isNone)
    { archivedAt := some (if archived then some draws.now else none) }
  let project ← getById platform userId projectId false
  Audit.recordInTransaction draws.now
    { projectEvent project.orgId userId .projectArchived projectId with
      after := some [(ofAscii "archived", .bool archived)] }
  pure project

/-! ## Deletion and restoration -/

def delete (options : RecoveryOptions) (draws : Draws) (userId projectId : Uuid) :
    TransactionM wrapper Project := do
  let _ ← getById platform userId projectId false
  authorizeUser userId (some projectId) false .projectDelete
  let purgeAfter := draws.clock + options.recoveryMs
  let deletedAt ← attempt .sql (storedDate draws.clock)
  let purgeAt ← attempt .sql (storedDate purgeAfter)
  updateProjects (fun row => row.id = projectId && row.deletedAt.isNone)
    { deletedAt := some (some deletedAt), purgeAfter := some (some purgeAt) }
  updateEnvironments (fun row => row.projectId = projectId && row.deletedAt.isNone)
    { deletedAt := some (some deletedAt), deletedByProjectAt := some (some deletedAt) }
  updateSecrets (fun row => row.projectId = projectId && row.deletedAt.isNone)
    { deletedAt := some (some deletedAt), deletedByProjectAt := some (some deletedAt),
      updatedAt := draws.now }
  let project ← getById platform userId projectId true
  Audit.recordInTransaction draws.now
    { projectEvent project.orgId userId .projectDeleted projectId with
      after := some [(ofAscii "recoveryEndsAt", .string (IsoDate.toISOString purgeAfter))] }
  pure project

def restore (draws : Draws) (userId projectId : Uuid) : TransactionM wrapper Project := do
  let project ← getById platform userId projectId true
  authorizeUser userId (some projectId) false .projectDelete
  match project.deletedAt, project.purgeAfter with
  | some deletedAt, some purgeAfter =>
    if purgeAfter ≤ draws.clock then
      raise (.project ⟨.recoveryExpired, ofAscii "Project recovery window has expired"⟩)
    else
      updateProjects (·.id = projectId) { deletedAt := some none, purgeAfter := some none }
      let deletedAt ← attempt .sql (storedDate deletedAt)
      updateEnvironments
        (fun row => row.projectId = projectId && row.deletedByProjectAt = some deletedAt)
        { deletedAt := some none, deletedByProjectAt := some none }
      updateSecrets
        (fun row => row.projectId = projectId && row.deletedByProjectAt = some deletedAt)
        { deletedAt := some none, deletedByProjectAt := some none, updatedAt := draws.now }
      let restored ← getById platform userId projectId false
      Audit.recordInTransaction draws.now
        (projectEvent project.orgId userId .projectRestored projectId)
      pure restored
  | _, _ => raise (notFound "Deleted project not found")

end Himitsu.Projects
