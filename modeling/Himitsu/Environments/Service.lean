import Himitsu.Audit.Record
import Himitsu.Services.Slug

/-!
# The environment service

Model of `EnvironmentService` of `packages/environments/src/index.ts`, a statement of the source
for a statement of the model.

The foreign key of `environments` is not checked: a project row is never removed.
-/

set_option autoImplicit false

namespace Himitsu.Environments

open JsString Crypto Database Services Transactions

def MAX_ENVIRONMENTS : Nat := 50

structure Environment where
  id : Uuid
  orgId : Uuid
  projectId : Uuid
  name : JsString
  slug : JsString
  displayOrder : Nat
  isProtected : Bool
  deletedAt : Option Int
  purgeAfter : Option Int
  deriving DecidableEq, Repr

def invalidInput (message : JsString) : EnvironmentError := ⟨.invalidInput, message⟩

def notFound (message : String) : ServiceError := .environment ⟨.notFound, ofAscii message⟩

def normalizeEnvironmentSlug (slug : JsString) : Except EnvironmentError JsString :=
  match normalizeSlug slug with
  | some normalized => .ok normalized
  | none => .error (invalidInput
      (ofAscii "Environment slug must use lowercase words separated by hyphens"))

def validateEnvironmentName (name : JsString) : Except EnvironmentError JsString :=
  let normalized := trim name
  if normalized.length < 1 ∨ normalized.length > 80 then
    .error (invalidInput (ofAscii "Environment name must be between 1 and 80 characters"))
  else .ok normalized

def fromRow (orgId : Uuid) (row : Database.Environment) : Environment where
  id := row.id
  orgId := orgId
  projectId := row.projectId
  name := row.name
  slug := row.slug
  displayOrder := row.displayOrder
  isProtected := row.isProtected
  deletedAt := row.deletedAt.map toDate
  purgeAfter := row.purgeAfter.map toDate

/-- `ORDER BY display_order, id`. -/
def displayBefore (left right : Database.Environment) : Bool :=
  left.displayOrder < right.displayOrder ||
    (left.displayOrder = right.displayOrder && left.id.value ≤ right.id.value)

def isActiveIn (projectId : Uuid) (row : Database.Environment) : Bool :=
  row.projectId = projectId && row.deletedAt.isNone

variable {wrapper : KeyWrapper}

/-- The active environments of a project. -/
def activeRows (db : Db wrapper) (projectId : Uuid) : List Database.Environment :=
  db.environments.filter (isActiveIn projectId)

/-- What the `catch` of `create` and `update` makes of a unique violation. -/
def slugExists : ServiceError → ServiceError
  | .sql .uniqueViolation => .environment
      ⟨.slugExists, ofAscii "Environment slug is already in use in this project"⟩
  | error => error

/-- The event of an action on an environment. -/
def environmentEvent (orgId userId : Uuid) (action : Audit.AuditAction)
    (projectId environmentId : Uuid) : Audit.AuditEventInput where
  orgId := orgId
  actor := .user userId
  action := action
  resourceType := ofAscii "environment"
  resourceId := some environmentId.text
  projectId := some projectId
  environmentId := some environmentId

/-- The properties that `create` and `update` record of an environment. -/
def environmentMetadata (environment : Environment) : Audit.Metadata :=
  [(ofAscii "name", .string environment.name), (ofAscii "slug", .string environment.slug),
    (ofAscii "protected", .bool environment.isProtected)]

/-! ## Lookups -/

/-- `#requireActiveProject`. -/
def requireActiveProject (projectId : Uuid) : TransactionM wrapper Unit := do
  let found ← Prog.select fun db : Db wrapper =>
    db.projects.any fun project => project.id = projectId && project.deletedAt.isNone
  if found then pure () else raise (notFound "Project not found")

/-- `get` and `#get`. -/
def get (userId environmentId : Uuid) (includeDeleted : Bool) :
    TransactionM wrapper Environment := do
  let row ← Prog.select fun db : Db wrapper =>
    (db.environments.find? fun row =>
      row.id = environmentId && (includeDeleted || row.deletedAt.isNone)).map (fromRow db.orgId)
  match row with
  | none => raise (notFound "Environment not found")
  | some environment => do
    authorizeUser userId (some environment.projectId) false .environmentRead
    pure environment

def list (userId projectId : Uuid) : TransactionM wrapper (List Environment) := do
  requireActiveProject projectId
  authorizeUser userId (some projectId) false .environmentRead
  Prog.select fun db : Db wrapper =>
    (orderBy displayBefore (activeRows db projectId)).map (fromRow db.orgId)

/-! ## Creation -/

structure CreateInput where
  name : JsString
  slug : JsString
  isProtected : Option Bool

/-- `COALESCE(max(display_order) + 1, 0)`. -/
def nextDisplayOrder (rows : List Database.Environment) : Nat :=
  rows.foldr (fun row order => max (row.displayOrder + 1) order) 0

/-- The row that `create` inserts. -/
def newRow (db : Db wrapper) (id projectId : Uuid) (name slug : JsString) (isProtected : Bool) :
    Database.Environment where
  id := id
  projectId := projectId
  name := name
  slug := slug
  displayOrder := nextDisplayOrder (activeRows db projectId)
  isProtected := isProtected
  deletedAt := none
  purgeAfter := none
  deletedByProjectAt := none
  configVersion := 0

/-- The `INSERT` of `create`. -/
def insertRow (id projectId : Uuid) (name slug : JsString) (isProtected : Bool) :
    TransactionM wrapper Environment :=
  .execute (fun _ => [])
    (fun db => [.insertEnvironment (newRow db id projectId name slug isProtected)])
    fun db =>
      let row := newRow db id projectId name slug isProtected
      if db.environments.any fun other => other.id = row.id || other.slot = row.slot then
        .error (.sql .uniqueViolation)
      else if row.displayOrder > MAX_INTEGER then .error (.sql .numericValueOutOfRange)
      else .ok (fromRow db.orgId row)

def create (draws : Draws) (userId projectId : Uuid) (input : CreateInput) :
    TransactionM wrapper Environment := do
  requireActiveProject projectId
  let isProtected := input.isProtected.getD false
  authorizeUser userId (some projectId) isProtected .environmentCreate
  let count ← Prog.select fun db : Db wrapper => (activeRows db projectId).length
  if count ≥ MAX_ENVIRONMENTS then
    raise (.environment (invalidInput (ofAscii "A project can have at most " ++
      ofNat MAX_ENVIRONMENTS ++ ofAscii " environments")))
  else
    Prog.mapError slugExists do
      let name ← attempt .environment (validateEnvironmentName input.name)
      let slug ← attempt .environment (normalizeEnvironmentSlug input.slug)
      let name ← attempt .sql (storedText name)
      let environment ← insertRow (draws.uuid 0) projectId name slug isProtected
      Audit.recordInTransaction draws.now
        { environmentEvent environment.orgId userId .environmentCreated projectId environment.id with
          after := some (environmentMetadata environment) }
      pure environment

/-! ## Changes -/

structure UpdateInput where
  name : Option JsString
  slug : Option JsString
  isProtected : Option Bool

/-- The `UPDATE … RETURNING` of `update`. -/
def updateRow (environmentId : Uuid) (set : EnvironmentSet) :
    TransactionM wrapper (Option Environment) :=
  let p := fun row : Database.Environment => row.id = environmentId && row.deletedAt.isNone
  .execute (fun _ => [])
    (fun db => (db.environments.filter p).map fun row => .updateEnvironment row.id set)
    fun db =>
      match db.environments.find? p with
      | none => .ok none
      | some row =>
        if db.environments.any fun other =>
            other.id ≠ row.id && other.slot = (set.on row).slot then
          .error (.sql .uniqueViolation)
        else .ok (some (fromRow db.orgId (set.on row)))

def update (draws : Draws) (userId environmentId : Uuid) (input : UpdateInput) :
    TransactionM wrapper Environment := do
  let before ← get userId environmentId false
  let protectedWrite := before.isProtected || input.isProtected = some true
  authorizeUser userId (some before.projectId) protectedWrite .environmentUpdate
  let name ← checkedOr .environment before.name validateEnvironmentName input.name
  let slug ← checkedOr .environment before.slug normalizeEnvironmentSlug input.slug
  let isProtected := input.isProtected.getD before.isProtected
  Prog.mapError slugExists do
    let name ← attempt .sql (storedText name)
    let row ← updateRow environmentId
      { name := some name, slug := some slug, isProtected := some isProtected }
    match row with
    | none => raise (notFound "Environment not found")
    | some after => do
      Audit.recordInTransaction draws.now
        { environmentEvent before.orgId userId .environmentUpdated before.projectId
            environmentId with
          before := some (environmentMetadata before)
          after := some (environmentMetadata after) }
      pure after

def orderMismatch (message : String) : ServiceError :=
  .environment ⟨.orderMismatch, ofAscii message⟩

/-- The `UPDATE` of `reorder`. -/
def updateOrder (projectId : Uuid) (environmentIds : List Uuid) : TransactionM wrapper Unit :=
  .execute (fun _ => [])
    (fun db => ((activeRows db projectId).filter fun row => environmentIds.contains row.id).map
      fun row => .updateEnvironment row.id
        { displayOrder := some (environmentIds.idxOf row.id) })
    fun _ => .ok ()

def reorder (draws : Draws) (userId projectId : Uuid) (environmentIds : List Uuid) :
    TransactionM wrapper (List Environment) := do
  requireActiveProject projectId
  authorizeUser userId (some projectId) false .environmentUpdate
  if environmentIds.dedup.length ≠ environmentIds.length then
    raise (orderMismatch "Environment order contains duplicate ids")
  else
    let current ← Prog.select fun db : Db wrapper => (db.orgId, activeRows db projectId)
    if current.2.length ≠ environmentIds.length ||
        current.2.any fun row => !environmentIds.contains row.id then
      raise (orderMismatch "Environment order must contain every active environment exactly once")
    else
      doIf (current.2.any (·.isProtected))
        (authorizeUser userId (some projectId) true .environmentUpdate)
      updateOrder projectId environmentIds
      Audit.recordInTransaction draws.now
        { orgId := current.1
          actor := .user userId
          action := .environmentReordered
          resourceType := ofAscii "project"
          resourceId := some projectId.text
          projectId := some projectId
          after := some [(ofAscii "environmentIds",
            .array (environmentIds.map fun id => .string id.text))] }
      list userId projectId

/-! ## Deletion and restoration -/

/-- The two counts that `delete` reads. -/
def activeCounts (projectId environmentId : Uuid) : TransactionM wrapper (Nat × Nat) :=
  Prog.select fun db => ((activeRows db projectId).length,
    db.secrets.countP fun row => row.environmentId = environmentId && row.deletedAt.isNone)

def delete (options : RecoveryOptions) (draws : Draws) (userId environmentId : Uuid)
    (confirmSecrets : Bool) : TransactionM wrapper Environment := do
  let environment ← get userId environmentId false
  authorizeUser userId (some environment.projectId) environment.isProtected .environmentDelete
  let active ← activeCounts environment.projectId environmentId
  if active.1 ≤ 1 then
    raise (.environment ⟨.lastEnvironment,
      ofAscii "A project must retain at least one active environment"⟩)
  else if active.2 > 0 ∧ !confirmSecrets then
    raise (.environment ⟨.secretsRequireConfirmation,
      ofAscii "Confirm deletion because this environment contains active secrets"⟩)
  else
    let purgeAfter := draws.clock + options.recoveryMs
    let deletedAt ← attempt .sql (storedDate draws.clock)
    let purgeAt ← attempt .sql (storedDate purgeAfter)
    updateEnvironments (fun row => row.id = environmentId && row.deletedAt.isNone)
      { deletedAt := some (some deletedAt), purgeAfter := some (some purgeAt) }
    updateSecrets (fun row => row.environmentId = environmentId && row.deletedAt.isNone)
      { deletedAt := some (some deletedAt), deletedByEnvironmentAt := some (some deletedAt),
        updatedAt := draws.now }
    Audit.recordInTransaction draws.now
      { environmentEvent environment.orgId userId .environmentDeleted environment.projectId
          environmentId with
        after := some [(ofAscii "recoveryEndsAt", .string (IsoDate.toISOString purgeAfter)),
          (ofAscii "deletedSecretCount", .number (ofNat active.2))] }
    pure { environment with deletedAt := some draws.clock, purgeAfter := some purgeAfter }

/-- The time of the deletion, if the environment is deleted and can still be recovered. -/
def recoverableSince (environment : Environment) (clock : Int) : Option Int :=
  match environment.deletedAt, environment.purgeAfter with
  | some deletedAt, some purgeAfter => if purgeAfter ≤ clock then none else some deletedAt
  | _, _ => none

def restore (draws : Draws) (userId environmentId : Uuid) : TransactionM wrapper Environment := do
  let environment ← get userId environmentId true
  match recoverableSince environment draws.clock with
  | none => raise (.environment ⟨.recoveryExpired,
      ofAscii "Environment recovery window has expired"⟩)
  | some deletedAt =>
    -- a row that is not there has `undefined`, which is not `null`
    let byProject ← Prog.select fun db : Db wrapper =>
      (db.environments.find? (·.id = environmentId)).map (·.deletedByProjectAt)
    if byProject ≠ some none then
      raise (notFound "Environment must be restored with its project")
    else
      requireActiveProject environment.projectId
      authorizeUser userId (some environment.projectId) environment.isProtected .environmentDelete
      let deletedAt ← attempt .sql (storedDate deletedAt)
      updateEnvironments (fun row => row.id = environmentId && row.deletedAt = some deletedAt &&
          row.deletedByProjectAt.isNone)
        { deletedAt := some none, purgeAfter := some none }
      updateSecrets (fun row => row.environmentId = environmentId &&
          row.deletedByEnvironmentAt = some deletedAt && row.deletedByProjectAt.isNone)
        { deletedAt := some none, deletedByEnvironmentAt := some none, updatedAt := draws.now }
      Audit.recordInTransaction draws.now
        (environmentEvent environment.orgId userId .environmentRestored environment.projectId
          environmentId)
      get userId environmentId false

end Himitsu.Environments
