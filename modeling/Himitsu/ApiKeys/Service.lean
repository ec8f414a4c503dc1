import Himitsu.Audit.Record

/-!
# The API key service

Model of `list` and `create` of `ApiKeyService` of `packages/api-keys/src/index.ts`, with the
constraints of `api_keys` in `0001_core.sql` and `0010_api_keys.sql`.

No other service writes the table of API keys: a transaction that runs alone is given its rows, and
`create` returns the row that it inserts.
-/

set_option autoImplicit false

namespace Himitsu.ApiKeys

open JsString Crypto Database Services Transactions

inductive ApiKeyAccess where
  | readOnly
  | readWrite
  deriving DecidableEq, Repr

def ApiKeyAccess.text : ApiKeyAccess → JsString
  | .readOnly => ofAscii "read_only"
  | .readWrite => ofAscii "read_write"

inductive ApiKeyErrorCode where
  | invalidInput
  | notFound
  | invalidToken
  deriving DecidableEq, Repr

structure ApiKeyError where
  code : ApiKeyErrorCode
  message : JsString
  deriving DecidableEq, Repr

/-- What the calls of the service throw. -/
inductive Failure where
  | apiKey (error : ApiKeyError)
  | service (error : ServiceError)
  deriving DecidableEq, Repr

structure ApiKeyRow where
  id : Uuid
  projectId : Option Uuid
  environmentId : Option Uuid
  name : JsString
  tokenPrefix : JsString
  access : ApiKeyAccess
  createdAt : Timestamp
  expiresAt : Option Timestamp
  revokedAt : Option Timestamp

structure ApiKey where
  id : Uuid
  projectId : Option Uuid
  environmentId : Option Uuid
  name : JsString
  tokenPrefix : JsString
  access : ApiKeyAccess
  createdAt : Int
  expiresAt : Option Int
  revokedAt : Option Int

structure CreatedApiKey where
  apiKey : ApiKey
  token : JsString

def fromRow (row : ApiKeyRow) : ApiKey where
  id := row.id
  projectId := row.projectId
  environmentId := row.environmentId
  name := row.name
  tokenPrefix := row.tokenPrefix
  access := row.access
  createdAt := toDate row.createdAt
  expiresAt := row.expiresAt.map toDate
  revokedAt := row.revokedAt.map toDate

/-! ## Checks -/

def invalidInput (message : String) : ApiKeyError := ⟨.invalidInput, ofAscii message⟩

def apiKeyName (name : JsString) : Except ApiKeyError JsString :=
  let normalized := trim name
  if normalized.length < 1 ∨ normalized.length > 120 then
    .error (invalidInput "API key name must be between 1 and 120 characters")
  else .ok normalized

def expiry (value : Option Int) (now : Int) : Except ApiKeyError (Option Int) :=
  match value with
  | none => .ok none
  | some value =>
    if !IsoDate.isTimeValue value || value ≤ now then
      .error (invalidInput "API key expiry must be in the future")
    else .ok (some value)

variable {wrapper : KeyWrapper}

/-- The query of `#validateScope`. -/
def hasScope (db : Db wrapper) (projectId : Uuid) (environmentId : Option Uuid) : Bool :=
  (db.projects.any fun project => project.id = projectId && project.deletedAt.isNone) &&
    environmentId.all fun environmentId => db.environments.any fun environment =>
      environment.projectId = projectId && environment.id = environmentId &&
        environment.deletedAt.isNone

/-- `#validateScope`. -/
def validateScope (db : Db wrapper) (projectId environmentId : Option Uuid) :
    Except ApiKeyError Unit :=
  if projectId.all fun projectId => hasScope db projectId environmentId then .ok ()
  else .error ⟨.notFound, ofAscii "API key scope not found"⟩

/-! ## Calls -/

/-- A transaction of the other services, which runs alone. -/
def inTransaction {α : Type} (p : TransactionM wrapper α) (db : Db wrapper) :
    Except Failure (α × Db wrapper) :=
  (run apply p db).mapError .service

/-- `ORDER BY created_at DESC, id`. -/
def newestFirst (left right : ApiKeyRow) : Bool :=
  if left.createdAt = right.createdAt then left.id.value ≤ right.id.value
  else right.createdAt ≤ left.createdAt

def list (userId : Uuid) (rows : List ApiKeyRow) (db : Db wrapper) :
    Except Failure (List ApiKey) := do
  let _ ← inTransaction (authorizeUser userId none false .apiKeyRead) db
  .ok ((orderBy newestFirst rows).map fromRow)

structure CreateInput where
  name : JsString
  access : ApiKeyAccess
  projectId : Option Uuid
  environmentId : Option Uuid
  expiresAt : Option Int

/-- What `randomBytes` gives: the digits of the prefix and the secret part of the token. -/
structure TokenDraws where
  identifier : JsString
  secret : JsString

def TokenDraws.tokenPrefix (token : TokenDraws) : JsString := ofAscii "himi_" ++ token.identifier

def TokenDraws.token (token : TokenDraws) : JsString := token.tokenPrefix ++ 0x5F :: token.secret

/-- The `INSERT` of `create`. -/
def insertRow (rows : List ApiKeyRow) (now : Timestamp) (row : ApiKeyRow) :
    Except ServiceError ApiKeyRow :=
  if rows.any fun other => other.id = row.id || other.tokenPrefix = row.tokenPrefix then
    .error (.sql .uniqueViolation)
  else if row.expiresAt.any (· ≤ now) then .error (.other (ofAscii "check_violation"))
  else .ok row

/-- The event of `create`. -/
def createdEvent (orgId userId : Uuid) (apiKey : ApiKey) : Audit.AuditEventInput where
  orgId := orgId
  actor := .user userId
  action := .apiKeyCreated
  resourceType := ofAscii "api_key"
  resourceId := some apiKey.id.text
  projectId := apiKey.projectId
  environmentId := apiKey.environmentId
  after := some [(ofAscii "access", .string apiKey.access.text),
    (ofAscii "scope", .string (match apiKey.environmentId, apiKey.projectId with
      | some _, _ => ofAscii "environment"
      | none, some _ => ofAscii "project"
      | none, none => ofAscii "organization")),
    (ofAscii "expiresAt", match apiKey.expiresAt with
      | some expiresAt => .string (IsoDate.toISOString expiresAt)
      | none => .null)]

def create (draws : Draws) (token : TokenDraws) (userId : Uuid) (input : CreateInput)
    (rows : List ApiKeyRow) (db : Db wrapper) :
    Except Failure (CreatedApiKey × ApiKeyRow × Db wrapper) :=
  if input.environmentId.isSome && input.projectId.isNone then
    .error (.apiKey (invalidInput "Environment-scoped API keys require a project"))
  else do
    let _ ← inTransaction (authorizeUser userId input.projectId false .apiKeyCreate) db
    let _ ← (validateScope db input.projectId input.environmentId).mapError .apiKey
    let expiresAt ← (expiry input.expiresAt draws.clock).mapError .apiKey
    let name ← (apiKeyName input.name).mapError .apiKey
    let name ← (storedText name).mapError fun state => .service (.sql state)
    let row ← (insertRow rows draws.now
      { id := draws.uuid 0
        projectId := input.projectId
        environmentId := input.environmentId
        name := name
        tokenPrefix := token.tokenPrefix
        access := input.access
        createdAt := draws.now
        expiresAt := expiresAt.map fromDate
        revokedAt := none }).mapError .service
    let (_, db) ← inTransaction
      (Audit.recordInTransaction draws.now (createdEvent db.orgId userId (fromRow row))) db
    .ok (⟨fromRow row, token.token⟩, row, db)

end Himitsu.ApiKeys
