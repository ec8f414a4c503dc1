import Himitsu.Terraform.Client

/-!
# The resources of the Terraform provider

Model of `project_resource.go`, `secret_resource.go`, `api_key_resource.go` and `helpers.go` of
`integrations/terraform-provider/internal/provider`.

* `ProjectConfig`, `SecretConfig`, `ApiKeyConfig` — the attributes that a configuration sets, and
  their `plan`: Terraform keeps a computed attribute of the prior state under `UseStateForUnknown`
  and leaves the others unknown.
* `ProjectModel.create`, … — the methods of the resources.
-/

set_option autoImplicit false

namespace Himitsu.Terraform

open JsString Crypto Services

/-- A value of the framework. -/
inductive Value (α : Type) where
  | null
  | unknown
  | known (value : α)
  deriving DecidableEq, Repr

namespace Value

variable {α : Type}

def isNull : Value α → Bool
  | .null => true
  | _ => false

/-- An attribute of a configuration, which leaves nothing unknown when it is applied. -/
def ofConfig : Option α → Value α
  | none => .null
  | some value => .known value

/-- `ValueString`, `ValueBool` and `ValueInt64`: the zero value unless the value is known. -/
def getD (zero : α) : Value α → α
  | .known value => value
  | _ => zero

/-- `if !value.IsNull() { input = Ptr(value.ValueString()) }`. -/
def pointer (zero : α) (value : Value α) : Option α :=
  if value.isNull then none else some (value.getD zero)

/-- A known value of the prior state. -/
def useStateForUnknown : Option (Value α) → Value α
  | some (.known value) => .known value
  | _ => .unknown

end Value

def optionalString : Option JsString → Value JsString
  | none => .null
  | some value => .known value

/-- `stringsFromList` and `stringsFromSet` with a target that is nil. -/
def stringsFrom : Value (List JsString) → List JsString
  | .known values => values
  | _ => []

def setFromStrings (values : List JsString) (prior : Value (List JsString)) :
    Value (List JsString) :=
  if values.length = 0 then
    match prior with
    | .null | .unknown => .null
    | .known _ => .known []
  else .known values

structure Diagnostic where
  path : Option String := none
  summary : String
  error : Option ClientError := none
  deriving DecidableEq, Repr

variable {wrapper : KeyWrapper} (account : Account)

/-! ## Projects -/

structure ProjectConfig where
  name : JsString
  slug : JsString
  description : Option JsString
  defaultEnvironments : Option (List JsString)
  tagIds : Option (List JsString)

structure ProjectModel where
  id : Value JsString
  orgId : Value JsString
  name : Value JsString
  slug : Value JsString
  description : Value JsString
  defaultEnvironments : Value (List JsString)
  tagIds : Value (List JsString)
  deriving DecidableEq, Repr

def ProjectConfig.plan (config : ProjectConfig) (prior : Option ProjectModel) :
    ProjectModel where
  id := .useStateForUnknown (prior.map (·.id))
  orgId := .useStateForUnknown (prior.map (·.orgId))
  name := .known config.name
  slug := .known config.slug
  description := .ofConfig config.description
  defaultEnvironments := .ofConfig config.defaultEnvironments
  tagIds := .ofConfig config.tagIds

def applyProject (project : Project) (model : ProjectModel) : ProjectModel where
  id := .known project.id
  orgId := .known project.orgId
  name := .known project.name
  slug := .known project.slug
  description := optionalString project.description
  defaultEnvironments := match model.defaultEnvironments with
    | .unknown => .null
    | other => other
  tagIds := setFromStrings project.tagIds model.tagIds

namespace ProjectModel

def create (draws : Draws) (plan : ProjectModel) (server : Server wrapper) :
    Except Diagnostic ProjectModel × Server wrapper :=
  let input : CreateProjectInput :=
    { name := plan.name.getD []
      slug := plan.slug.getD []
      description := plan.description.pointer []
      defaultEnvironments := stringsFrom plan.defaultEnvironments
      tagIds := stringsFrom plan.tagIds }
  match createProject account draws input server with
  | (.error error, server) =>
    (.error { summary := "Unable to create project", error := some error }, server)
  | (.ok project, server) => (.ok (applyProject project plan), server)

/-- `none` removes the resource from the state. -/
def read (state : ProjectModel) (server : Server wrapper) :
    Except Diagnostic (Option ProjectModel) × Server wrapper :=
  match getProject account (state.id.getD []) server with
  | (.error error, server) =>
    if error.isNotFound then (.ok none, server)
    else (.error { summary := "Unable to read project", error := some error }, server)
  | (.ok project, server) =>
    if project.deletedAt.isSome then (.ok none, server)
    else (.ok (some (applyProject project state)), server)

def update (draws : Draws) (plan state : ProjectModel) (server : Server wrapper) :
    Except Diagnostic ProjectModel × Server wrapper :=
  let input : UpdateProjectInput :=
    { name := some (plan.name.getD [])
      slug := some (plan.slug.getD [])
      -- The source takes nil for "an explicit null"; the client leaves it out.
      description := if plan.description.isNull then none else some (plan.description.getD [])
      defaultEnvironments := stringsFrom plan.defaultEnvironments
      tagIds := stringsFrom plan.tagIds }
  match updateProject account draws (state.id.getD []) input server with
  | (.error error, server) =>
    (.error { summary := "Unable to update project", error := some error }, server)
  | (.ok project, server) => (.ok (applyProject project plan), server)

end ProjectModel

/-! ## Secrets -/

structure SecretConfig where
  projectId : JsString
  environmentId : JsString
  key : JsString
  value : JsString
  notes : Option JsString
  changeNote : Option JsString
  allowNonConformingKey : Option Bool
  tagIds : Option (List JsString)

structure SecretModel where
  id : Value JsString
  projectId : Value JsString
  environmentId : Value JsString
  key : Value JsString
  value : Value JsString
  notes : Value JsString
  changeNote : Value JsString
  allowNonConformingKey : Value Bool
  tagIds : Value (List JsString)
  currentVersion : Value Nat
  deriving DecidableEq, Repr

def SecretConfig.plan (config : SecretConfig) (prior : Option SecretModel) : SecretModel where
  id := .useStateForUnknown (prior.map (·.id))
  projectId := .known config.projectId
  environmentId := .known config.environmentId
  key := .known config.key
  value := .known config.value
  notes := .ofConfig config.notes
  changeNote := .ofConfig config.changeNote
  allowNonConformingKey := .known (config.allowNonConformingKey.getD false)
  tagIds := .ofConfig config.tagIds
  currentVersion := .unknown

def applySecretMetadata (secret : Secret) (model : SecretModel) : SecretModel where
  id := .known secret.id
  projectId := .known secret.projectId
  environmentId := .known secret.environmentId
  key := .known secret.key
  value := model.value
  notes := optionalString secret.notes
  changeNote := match model.changeNote with
    | .unknown => .null
    | other => other
  allowNonConformingKey := match model.allowNonConformingKey with
    | .known allow => .known allow
    | _ => .known false
  tagIds := setFromStrings secret.tagIds model.tagIds
  currentVersion := .known secret.currentVersion

namespace SecretModel

def create (draws : Draws) (plan : SecretModel) (server : Server wrapper) :
    Except Diagnostic SecretModel × Server wrapper :=
  let input : CreateSecretInput :=
    { key := plan.key.getD []
      value := plan.value.getD []
      notes := plan.notes.pointer []
      changeNote := plan.changeNote.pointer []
      allowNonConformingKey := some (plan.allowNonConformingKey.getD false)
      tagIds := stringsFrom plan.tagIds }
  match createSecret account draws (plan.projectId.getD []) (plan.environmentId.getD []) input
      server with
  | (.error error, server) =>
    (.error { summary := "Unable to create secret", error := some error }, server)
  | (.ok secret, server) => (.ok (applySecretMetadata secret plan), server)

/-- `none` removes the resource from the state. -/
def read (draws : Draws) (state : SecretModel) (server : Server wrapper) :
    Except Diagnostic (Option SecretModel) × Server wrapper :=
  match getSecret account draws (state.id.getD []) server with
  | (.error error, server) =>
    if error.isNotFound then (.ok none, server)
    else (.error { summary := "Unable to read secret", error := some error }, server)
  | (.ok secret, server) =>
    (.ok (some (applySecretMetadata secret.secret { state with value := .known secret.value })),
      server)

def update (draws : Draws) (plan state : SecretModel) (server : Server wrapper) :
    Except Diagnostic SecretModel × Server wrapper :=
  let input : UpdateSecretInput :=
    { value := plan.value.getD []
      notes := plan.notes.pointer []
      changeNote := plan.changeNote.pointer []
      tagIds := stringsFrom plan.tagIds }
  match updateSecret account draws (state.id.getD []) input (state.currentVersion.getD 0) server with
  | (.error error, server) =>
    if error.isConflict then
      (.error { summary := "Secret changed outside Terraform", error := some error }, server)
    else (.error { summary := "Unable to update secret", error := some error }, server)
  | (.ok secret, server) => (.ok (applySecretMetadata secret plan), server)

end SecretModel

/-! ## API keys -/

structure ApiKeyConfig where
  name : JsString
  access : ApiKeys.ApiKeyAccess
  projectId : Option JsString
  environmentId : Option JsString
  expiresAt : Option JsString

structure ApiKeyModel where
  id : Value JsString
  name : Value JsString
  access : Value ApiKeys.ApiKeyAccess
  projectId : Value JsString
  environmentId : Value JsString
  expiresAt : Value JsString
  tokenPrefix : Value JsString
  token : Value JsString
  createdAt : Value JsString
  deriving DecidableEq, Repr

/-- Every change replaces the key, so that no state comes before a plan. -/
def ApiKeyConfig.plan (config : ApiKeyConfig) : ApiKeyModel where
  id := .unknown
  name := .known config.name
  access := .known config.access
  projectId := .ofConfig config.projectId
  environmentId := .ofConfig config.environmentId
  expiresAt := .ofConfig config.expiresAt
  tokenPrefix := .unknown
  token := .unknown
  createdAt := .unknown

def applyAPIKeyScope (key : APIKey) (model : ApiKeyModel) : ApiKeyModel :=
  { model with
    projectId := optionalString key.projectId
    environmentId := optionalString key.environmentId
    expiresAt := optionalString (key.expiresAt.map Rfc3339.format) }

/-- `time.Parse` of an expiry that is not null. -/
def parseExpiry (expiresAt : Value JsString) : Except Diagnostic (Option Rfc3339.Time) :=
  if expiresAt.isNull then .ok none
  else
    match Rfc3339.read (expiresAt.getD []) with
    | some time => .ok (some time)
    | none => .error { path := some "expires_at", summary := "Invalid expiry timestamp" }

namespace ApiKeyModel

def create (draws : Draws) (token : ApiKeys.TokenDraws) (plan : ApiKeyModel)
    (server : Server wrapper) : Except Diagnostic ApiKeyModel × Server wrapper :=
  if !plan.environmentId.isNull && plan.projectId.isNull then
    (.error { path := some "environment_id",
              summary := "environment_id requires project_id" }, server)
  else
    match parseExpiry plan.expiresAt with
    | .error diagnostic => (.error diagnostic, server)
    | .ok expiresAt =>
      let input : CreateAPIKeyInput :=
        { name := plan.name.getD []
          access := plan.access.getD .readOnly
          projectId := plan.projectId.pointer []
          environmentId := plan.environmentId.pointer []
          expiresAt := expiresAt }
      match createAPIKey account draws token input server with
      | (.error error, server) =>
        (.error { summary := "Unable to create API key", error := some error }, server)
      | (.ok created, server) =>
        (.ok (applyAPIKeyScope created.apiKey
          { plan with
            id := .known created.apiKey.id
            tokenPrefix := .known created.apiKey.tokenPrefix
            token := .known created.token
            createdAt := .known (Rfc3339.format created.apiKey.createdAt) }), server)

/-- `none` removes the resource from the state. -/
def read (state : ApiKeyModel) (server : Server wrapper) :
    Except Diagnostic (Option ApiKeyModel) :=
  match getAPIKey account (state.id.getD []) server with
  | .error error =>
    if error.isNotFound then .ok none
    else .error { summary := "Unable to read API key", error := some error }
  | .ok key =>
    if key.revokedAt.isSome then .ok none
    else
      .ok (some (applyAPIKeyScope key
        { state with
          name := .known key.name
          access := .known key.access
          tokenPrefix := .known key.tokenPrefix
          createdAt := .known (Rfc3339.format key.createdAt) }))

end ApiKeyModel

end Himitsu.Terraform
