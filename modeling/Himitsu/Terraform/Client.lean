import Himitsu.Api.Schemas
import Himitsu.ApiKeys.Service
import Himitsu.Library.Rfc3339
import Himitsu.Projects.Service
import Himitsu.Secrets.Service

/-!
# The client of the Terraform provider

Model of `integrations/client/types.go` and `integrations/client/resources.go` for projects, secrets
and API keys, over the routes of `apps/api/src/index.ts` that they call.

* `ProjectBody`, `SecretBody`, `ApiKeyBody` — the members of the JSON texts that the client sends: a
  pointer that is nil and a list that is empty are left out (`omitempty`).
* `Server` — the tables behind the routes. A request runs alone; authentication, scope and rate
  limits, which only reject, are left out, and so are failures of the transport.
-/

set_option autoImplicit false

namespace Himitsu.Terraform

open JsString Crypto Database Services Transactions Api

/-! ## Server -/

structure Server (wrapper : KeyWrapper) where
  db : Db wrapper
  apiKeys : List ApiKeys.ApiKeyRow

/-- The installation and the user of the API token. -/
structure Account where
  platform : Platform
  userId : Uuid

/-- What `mapError` is given: a request that its schema refuses, or the error of a service. -/
inductive ApiFailure where
  | invalidRequest
  | apiKey (error : ApiKeys.ApiKeyError)
  | service (error : ServiceError)
  deriving DecidableEq, Repr

def serviceStatus : ServiceError → Nat
  | .authorization _ => 403
  | .audit _ => 400
  | .secret error =>
    match error.code with
    | .notFound | .versionNotFound => 404
    | .keyExists | .versionConflict => 409
    | _ => 400
  | .environment error =>
    match error.code with
    | .notFound => 404
    | .slugExists => 409
    | _ => 400
  | .project error =>
    match error.code with
    | .notFound => 404
    | .slugExists => 409
    | _ => 400
  | .sql .uniqueViolation => 409
  | .crypto _ | .sql _ | .other _ => 500

/-- The status of `mapError`. -/
def ApiFailure.statusCode : ApiFailure → Nat
  | .invalidRequest => 400
  | .apiKey error =>
    match error.code with
    | .notFound => 404
    | .invalidToken => 401
    | .invalidInput => 400
  | .service error => serviceStatus error

variable {wrapper : KeyWrapper} {α : Type}

/-- A transaction of a route. -/
def Server.transact (server : Server wrapper) (p : TransactionM wrapper α) :
    Except ApiFailure α × Server wrapper :=
  let result := Transactions.transact apply p server.db
  (result.1.mapError .service, { server with db := result.2 })

/-- A transaction with the input that the schema made of a request, if it accepts it. -/
def Server.accept {β : Type} (server : Server wrapper) (input : Option β)
    (p : β → TransactionM wrapper α) : Except ApiFailure α × Server wrapper :=
  match input with
  | none => (.error .invalidRequest, server)
  | some input => server.transact (p input)

/-! ## Errors of the client -/

inductive ClientError where
  | missingId (label : String)
  | undecodable
  | api (failure : ApiFailure)
  deriving DecidableEq, Repr

def ClientError.isNotFound : ClientError → Bool
  | .api failure => failure.statusCode = 404
  | _ => false

def ClientError.isConflict : ClientError → Bool
  | .api failure => failure.statusCode = 409
  | _ => false

/-- `requireID`, then the request. -/
def requireID (label : String) (value : JsString)
    (request : Server wrapper → Except ApiFailure α × Server wrapper) (server : Server wrapper) :
    Except ClientError α × Server wrapper :=
  if trim value = [] then (.error (.missingId label), server)
  else
    let response := request server
    (response.1.mapError .api, response.2)

/-- `omitempty` for a list. -/
def omitEmpty : List α → Option (List α)
  | [] => none
  | items => some items

/-! ## Projects -/

/-- The body of a request on a project; `null` is `some none`. -/
structure ProjectBody where
  name : Option JsString
  slug : Option JsString
  description : Option (Option JsString)
  defaultEnvironments : Option (List JsString)
  tagIds : Option (List JsString)

/-- The schema of the body, apart from the members that it requires. -/
def ProjectBody.isValid (body : ProjectBody) : Bool :=
  body.name.all (hasLength 1 120) && body.slug.all (hasLength 1 80) &&
    body.description.all (·.all (hasLength 0 4000)) &&
    body.defaultEnvironments.all (fun names => 1 ≤ names.length && names.length ≤ 20) &&
    body.tagIds.all (·.length ≤ 50)

/-- The ids of a body, if it has any. -/
def tagIdsOf : Option (List JsString) → Option (Option (List Uuid))
  | none => some none
  | some texts => (parseTagIds texts).map some

def ProjectBody.createInput (body : ProjectBody) : Option Projects.CreateInput := do
  let name ← body.name
  let slug ← body.slug
  let tagIds ← tagIdsOf body.tagIds
  if body.isValid then
    some ⟨name, slug, body.description.getD none, body.defaultEnvironments, tagIds.getD []⟩
  else none

def ProjectBody.updateInput (body : ProjectBody) : Option Projects.UpdateInput := do
  let tagIds ← tagIdsOf body.tagIds
  if body.isValid then
    some ⟨body.name, body.slug, body.description, body.defaultEnvironments, tagIds⟩
  else none

structure CreateProjectInput where
  name : JsString
  slug : JsString
  description : Option JsString
  defaultEnvironments : List JsString
  tagIds : List JsString

def CreateProjectInput.body (input : CreateProjectInput) : ProjectBody where
  name := some input.name
  slug := some input.slug
  description := input.description.map some
  defaultEnvironments := omitEmpty input.defaultEnvironments
  tagIds := omitEmpty input.tagIds

structure UpdateProjectInput where
  name : Option JsString
  slug : Option JsString
  description : Option JsString
  defaultEnvironments : List JsString
  tagIds : List JsString

def UpdateProjectInput.body (input : UpdateProjectInput) : ProjectBody where
  name := input.name
  slug := input.slug
  description := input.description.map some
  defaultEnvironments := omitEmpty input.defaultEnvironments
  tagIds := omitEmpty input.tagIds

/-- The members of a project that the provider reads. -/
structure Project where
  id : JsString
  orgId : JsString
  name : JsString
  slug : JsString
  description : Option JsString
  tagIds : List JsString
  deletedAt : Option Int

def Project.ofData (project : Projects.Project) : Project where
  id := project.id.text
  orgId := project.orgId.text
  name := project.name
  slug := project.slug
  description := project.description
  tagIds := project.tagIds.map (·.text)
  deletedAt := project.deletedAt

variable (account : Account)

/-- `POST /api/v1/projects`. -/
def createProject (draws : Draws) (input : CreateProjectInput) (server : Server wrapper) :
    Except ClientError Project × Server wrapper :=
  let response := server.accept input.body.createInput
    (Projects.create account.platform draws account.userId)
  ((response.1.mapError .api).map .ofData, response.2)

/-- `GET /api/v1/projects/:projectId`. -/
def getProject (projectId : JsString) (server : Server wrapper) :
    Except ClientError Project × Server wrapper :=
  let response := requireID "project id" projectId (fun server : Server wrapper =>
    server.accept (parseUuid projectId) fun id =>
      Projects.getById account.platform account.userId id false) server
  (response.1.map .ofData, response.2)

/-- `PATCH /api/v1/projects/:projectId`. -/
def updateProject (draws : Draws) (projectId : JsString) (input : UpdateProjectInput)
    (server : Server wrapper) : Except ClientError Project × Server wrapper :=
  let request := do
    let id ← parseUuid projectId
    let update ← input.body.updateInput
    some (id, update)
  let response := requireID "project id" projectId (fun server : Server wrapper =>
    server.accept request fun (id, update) =>
      Projects.update account.platform draws account.userId id update) server
  (response.1.map .ofData, response.2)

/-! ## Secrets -/

/-- The body of a request on a secret. -/
structure SecretBody where
  key : Option JsString
  value : Option JsString
  notes : Option (Option JsString)
  changeNote : Option (Option JsString)
  allowNonConformingKey : Option Bool
  tagIds : Option (List JsString)

/-- The schema of the body, apart from the members that it requires. -/
def SecretBody.isValid (body : SecretBody) : Bool :=
  body.key.all (hasLength 1 255) && body.notes.all (·.all (hasLength 0 4000)) &&
    body.changeNote.all (·.all (hasLength 0 1000)) &&
    body.tagIds.all fun ids => ids.length ≤ 50 && decide ids.Nodup

def SecretBody.createInput (body : SecretBody) : Option Secrets.SetSecretInput := do
  let key ← body.key
  let value ← body.value
  let tagIds ← tagIdsOf body.tagIds
  if body.isValid then
    some
      { key := key, value := value, notes := body.notes, changeNote := body.changeNote.getD none,
        allowNonConformingKey := body.allowNonConformingKey.getD false, tagIds := tagIds }
  else none

def SecretBody.updateInput (body : SecretBody) (expectedVersion : Option Nat) :
    Option Secrets.UpdateSecretInput := do
  let tagIds ← tagIdsOf body.tagIds
  if body.isValid then
    some ⟨body.value, body.notes, body.changeNote.getD none, expectedVersion, tagIds⟩
  else none

structure CreateSecretInput where
  key : JsString
  value : JsString
  notes : Option JsString
  changeNote : Option JsString
  allowNonConformingKey : Option Bool
  tagIds : List JsString

def CreateSecretInput.body (input : CreateSecretInput) : SecretBody where
  key := some input.key
  value := some input.value
  notes := input.notes.map some
  changeNote := input.changeNote.map some
  allowNonConformingKey := input.allowNonConformingKey
  tagIds := omitEmpty input.tagIds

structure UpdateSecretInput where
  value : JsString
  notes : Option JsString
  changeNote : Option JsString
  tagIds : List JsString

def UpdateSecretInput.body (input : UpdateSecretInput) : SecretBody where
  key := none
  value := some input.value
  notes := input.notes.map some
  changeNote := input.changeNote.map some
  allowNonConformingKey := none
  tagIds := omitEmpty input.tagIds

/-- The members of a secret that the provider reads. -/
structure Secret where
  id : JsString
  projectId : JsString
  environmentId : JsString
  key : JsString
  notes : Option JsString
  currentVersion : Nat
  tagIds : List JsString

structure SecretWithValue where
  secret : Secret
  value : JsString

def Secret.ofData (secret : Secrets.SecretMetadata) : Secret where
  id := secret.id.text
  projectId := secret.projectId.text
  environmentId := secret.environmentId.text
  key := secret.key
  notes := secret.notes
  currentVersion := secret.currentVersion
  tagIds := secret.tagIds.map (·.text)

def SecretWithValue.ofData (secret : Secrets.SecretWithValue) : SecretWithValue :=
  ⟨.ofData secret.metadata, secret.value⟩

/-- `POST /api/v1/projects/:projectId/environments/:environmentId/secrets`. -/
def createSecret (draws : Draws) (projectId environmentId : JsString) (input : CreateSecretInput)
    (server : Server wrapper) : Except ClientError Secret × Server wrapper :=
  let request := do
    let projectId ← parseUuid projectId
    let environmentId ← parseUuid environmentId
    let secret ← input.body.createInput
    some (projectId, environmentId, secret)
  let post := fun server : Server wrapper => server.accept request
    fun (projectId, environmentId, secret) => Secrets.create account.platform draws 0
      account.userId projectId environmentId secret false true
  if trim projectId = [] then (.error (.missingId "project id"), server)
  else
    let response := requireID "environment id" environmentId post server
    (response.1.map .ofData, response.2)

/-- `GET /api/v1/secrets/:secretId`. -/
def getSecret (draws : Draws) (secretId : JsString) (server : Server wrapper) :
    Except ClientError SecretWithValue × Server wrapper :=
  let response := requireID "secret id" secretId (fun server : Server wrapper =>
    server.accept (parseUuid secretId) fun id =>
      Secrets.get account.platform draws account.userId id) server
  (response.1.map .ofData, response.2)

/-- `PATCH /api/v1/secrets/:secretId`, with `If-Match` for a positive version. -/
def updateSecret (draws : Draws) (secretId : JsString) (input : UpdateSecretInput)
    (expectedVersion : Nat) (server : Server wrapper) :
    Except ClientError Secret × Server wrapper :=
  let expected := if expectedVersion > 0 then some expectedVersion else none
  let request := do
    let id ← parseUuid secretId
    let update ← input.body.updateInput expected
    some (id, update)
  let response := requireID "secret id" secretId (fun server : Server wrapper =>
    server.accept request fun (id, update) =>
      Secrets.update account.platform draws account.userId id update) server
  (response.1.map .ofData, response.2)

/-! ## API keys -/

/-- The body of `POST /api/v1/api-keys`; the expiry is the time value of its text. -/
structure ApiKeyBody where
  name : JsString
  access : ApiKeys.ApiKeyAccess
  projectId : Option JsString
  environmentId : Option JsString
  expiresAt : Option Int

/-- `nullableUuid` with `coerceTypes`, which makes an empty text `null`. -/
def nullableUuid : Option JsString → Option (Option Uuid)
  | none | some [] => some none
  | some text => (parseUuid text).map some

def ApiKeyBody.createInput (body : ApiKeyBody) : Option ApiKeys.CreateInput := do
  let projectId ← nullableUuid body.projectId
  let environmentId ← nullableUuid body.environmentId
  if hasLength 1 120 body.name then
    some ⟨body.name, body.access, projectId, environmentId, body.expiresAt⟩
  else none

structure CreateAPIKeyInput where
  name : JsString
  access : ApiKeys.ApiKeyAccess
  projectId : Option JsString
  environmentId : Option JsString
  expiresAt : Option Rfc3339.Time

/-- The members of an API key that the provider reads; a time is a second. -/
structure APIKey where
  id : JsString
  projectId : Option JsString
  environmentId : Option JsString
  name : JsString
  tokenPrefix : JsString
  access : ApiKeys.ApiKeyAccess
  createdAt : Int
  expiresAt : Option Int
  revokedAt : Option Int

structure CreatedAPIKey where
  apiKey : APIKey
  token : JsString

/-- A `time.Time` of the text of a time value: the seconds, if the year has four digits. -/
def decodeTime (date : Int) : Except ClientError Int :=
  if Rfc3339.hasFourDigitYear (date / 1000) then .ok (date / 1000) else .error .undecodable

def decodeOptionalTime : Option Int → Except ClientError (Option Int)
  | none => .ok none
  | some date => (decodeTime date).map some

def APIKey.ofData (key : ApiKeys.ApiKey) : Except ClientError APIKey := do
  let createdAt ← decodeTime key.createdAt
  let expiresAt ← decodeOptionalTime key.expiresAt
  let revokedAt ← decodeOptionalTime key.revokedAt
  .ok
    { id := key.id.text
      projectId := key.projectId.map (·.text)
      environmentId := key.environmentId.map (·.text)
      name := key.name
      tokenPrefix := key.tokenPrefix
      access := key.access
      createdAt := createdAt
      expiresAt := expiresAt
      revokedAt := revokedAt }

def ofApiKeys : ApiKeys.Failure → ClientError
  | .apiKey error => .api (.apiKey error)
  | .service error => .api (.service error)

/-- `POST /api/v1/api-keys`; a time that `MarshalJSON` has no text for is never sent. -/
def createAPIKey (draws : Draws) (token : ApiKeys.TokenDraws) (input : CreateAPIKeyInput)
    (server : Server wrapper) : Except ClientError CreatedAPIKey × Server wrapper :=
  if input.environmentId.isSome && input.projectId.isNone then (.error (.missingId "project id"), server)
  else if !input.expiresAt.all Rfc3339.Time.marshals then (.error .undecodable, server)
  else
    let body : ApiKeyBody := ⟨input.name, input.access, input.projectId, input.environmentId,
      input.expiresAt.map Rfc3339.Time.millis⟩
    match body.createInput with
    | none => (.error (.api .invalidRequest), server)
    | some create =>
      match ApiKeys.create draws token account.userId create server.apiKeys server.db with
      | .error error => (.error (ofApiKeys error), server)
      | .ok (created, row, db) =>
        ((APIKey.ofData created.apiKey).map fun apiKey => ⟨apiKey, created.token⟩,
          ⟨db, server.apiKeys ++ [row]⟩)

/-- `GET /api/v1/api-keys`, page after page. -/
def listAPIKeys (server : Server wrapper) : Except ClientError (List APIKey) := do
  let keys ← (ApiKeys.list account.userId server.apiKeys server.db).mapError ofApiKeys
  keys.mapM APIKey.ofData

/-- `GetAPIKey`, which looks for the key in the list. -/
def getAPIKey (apiKeyId : JsString) (server : Server wrapper) : Except ClientError APIKey :=
  if trim apiKeyId = [] then .error (.missingId "api key id")
  else do
    let keys ← listAPIKeys account server
    match keys.find? (·.id = apiKeyId) with
    | some key => .ok key
    | none => .error (.api (.apiKey ⟨.notFound, ofAscii "api key not found"⟩))

end Himitsu.Terraform
