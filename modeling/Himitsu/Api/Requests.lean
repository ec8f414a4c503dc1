import Himitsu.Api.Routes
import Himitsu.Api.RuntimeConfig
import Himitsu.ApiKeys.Lifecycle
import Himitsu.Library.Guarantees
import Himitsu.Secrets.ImportPreview

/-!
# Requests of the API

Model of `withTenant`, `enforceApiKeyScope`, `enforceRoutePermission` and the handlers of the
project, environment and secret routes of `apps/api/src/index.ts`, but for the consistency report of
a project: `getProjectConsistency` opens the secrets of all environments and keeps what it finds in a
table of its own, and neither the scope of a key to an environment nor its read-only access is in its
way.

* `ApiRequest` — a request to one of the other routes, as its schema lets it through: what its path
  names and what is done with it.
* `Route.permission` — `apiRoutePermissions`.
* `withTenant` — the transaction of a request: the membership, the scope of the API key, the
  permission of the route, and the handler.
-/

set_option autoImplicit false

namespace Himitsu.Api

open Authz in
/-- `apiRoutePermissions`. -/
def Route.permission : Route → Option Permission
  | .getOrganization => some .orgSettingsRead
  | .updateOrganization => some .orgSettingsUpdate
  | .listMembers => some .orgMembersRead
  | .updateMember => some .orgMembersManage
  | .removeMember => some .orgMembersManage
  | .listInvitations => some .orgMembersRead
  | .inviteMember => some .orgMembersInvite
  | .revokeInvitation => some .orgMembersInvite
  | .listProjects => some .projectRead
  | .createProject => some .projectCreate
  | .getProject => some .projectRead
  | .updateProject => some .projectUpdate
  | .deleteProject => some .projectDelete
  | .getProjectConsistency => some .secretRead
  | .listAuditEvents => some .auditRead
  | .exportAuditEvents => some .auditExport
  | .getAuditSettings => some .auditRead
  | .updateAuditSettings => some .orgSettingsUpdate
  | .listEnvironments => some .environmentRead
  | .createEnvironment => some .environmentCreate
  | .reorderEnvironments => some .environmentUpdate
  | .getEnvironment => some .environmentRead
  | .updateEnvironment => some .environmentUpdate
  | .deleteEnvironment => some .environmentDelete
  | .listSecrets => some .secretRead
  | .createSecret => some .secretWrite
  | .bulkSetSecrets => some .secretWrite
  | .bulkGetSecrets => some .secretRead
  | .fetchRuntimeSecrets => some .secretRead
  | .exportSecrets => some .secretRead
  | .previewSecretPromotion => some .secretWrite
  | .promoteSecrets => some .secretWrite
  | .getSecret => some .secretRead
  | .updateSecret => some .secretWrite
  | .deleteSecret => some .secretDelete
  | .listSecretVersions => some .secretRead
  | .compareSecretVersions => some .secretRead
  | .rollbackSecretVersion => some .secretWrite
  | .previewDotenvImport => some .secretWrite
  | .commitDotenvImport => some .secretWrite
  | .previewJsonImport => some .secretWrite
  | .commitJsonImport => some .secretWrite
  | .listTags => some .orgSettingsRead
  | .createTag => some .orgSettingsUpdate
  | .updateTag => some .orgSettingsUpdate
  | .mergeTag => some .orgSettingsUpdate
  | .deleteTag => some .orgSettingsUpdate
  | .listApiKeys => some .apiKeyRead
  | .createApiKey => some .apiKeyCreate
  | .revokeApiKey => some .apiKeyRevoke
  | _ => none

end Himitsu.Api

namespace Himitsu.Api.Requests

open JsString Crypto Database Services Transactions Secrets Dotenv JsonImport ApiKeys

/-! ## Requests -/

/-- `/api/v1/projects/:projectId/…`, without `/consistency`. -/
inductive ProjectOperation where
  | get
  | update (input : Projects.UpdateInput)
  | delete
  | listEnvironments
  | createEnvironment (input : Environments.CreateInput)
  | reorderEnvironments (environmentIds : List Uuid)

/-- `/api/v1/projects/:projectId/environments/:environmentId/…` -/
inductive EnvironmentOperation where
  | get
  | update (input : Environments.UpdateInput)
  | delete (confirmSecrets : Option Bool)
  | listSecrets (filters : ListFilters)
  | createSecret (input : SetSecretInput)
  | bulkSetSecrets (inputs : List SetSecretInput)
  | fetchRuntimeSecrets (ifNoneMatch : Option JsString)
  | bulkGetSecrets (keys : Option (List JsString))
  | exportSecrets (format : SecretExportFormat) (nested : Option Bool)
      (delimiter : Option JsString)
  | previewImport (source : ImportSource)
  | commitImport (source : ImportSource) (strategy : SecretImportStrategy)
      (selectedKeys : Option (List JsString))
  | previewSecretPromotion (sourceEnvironmentId : Uuid) (keys : Option (List JsString))
  | promoteSecrets (sourceEnvironmentId : Uuid) (keys : Option (List JsString))

/-- `/api/v1/secrets/:secretId/…` -/
inductive SecretOperation where
  | get
  | update (input : UpdateSecretInput)
  | delete
  | listVersions
  | compareVersions (fromVersion toVersion : Nat) (reveal : Option Bool)
  | rollback (version : Nat) (input : RollbackInput)

/-- A request to a project, environment or secret route other than `getProjectConsistency`. -/
inductive ApiRequest where
  | listProjects
  | createProject (input : Projects.CreateInput)
  | project (projectId : Uuid) (operation : ProjectOperation)
  | environment (projectId environmentId : Uuid) (operation : EnvironmentOperation)
  | secret (secretId : Uuid) (operation : SecretOperation)

def ProjectOperation.route : ProjectOperation → Route
  | .get => .getProject
  | .update _ => .updateProject
  | .delete => .deleteProject
  | .listEnvironments => .listEnvironments
  | .createEnvironment _ => .createEnvironment
  | .reorderEnvironments _ => .reorderEnvironments

def EnvironmentOperation.route : EnvironmentOperation → Route
  | .get => .getEnvironment
  | .update _ => .updateEnvironment
  | .delete _ => .deleteEnvironment
  | .listSecrets _ => .listSecrets
  | .createSecret _ => .createSecret
  | .bulkSetSecrets _ => .bulkSetSecrets
  | .fetchRuntimeSecrets _ => .fetchRuntimeSecrets
  | .bulkGetSecrets _ => .bulkGetSecrets
  | .exportSecrets .. => .exportSecrets
  | .previewImport (.dotenv _) => .previewDotenvImport
  | .previewImport (.json _ _) => .previewJsonImport
  | .commitImport (.dotenv _) _ _ => .commitDotenvImport
  | .commitImport (.json _ _) _ _ => .commitJsonImport
  | .previewSecretPromotion .. => .previewSecretPromotion
  | .promoteSecrets .. => .promoteSecrets

def SecretOperation.route : SecretOperation → Route
  | .get => .getSecret
  | .update _ => .updateSecret
  | .delete => .deleteSecret
  | .listVersions => .listSecretVersions
  | .compareVersions .. => .compareSecretVersions
  | .rollback .. => .rollbackSecretVersion

/-- `routeOperationId`. -/
def ApiRequest.route : ApiRequest → Route
  | .listProjects => .listProjects
  | .createProject _ => .createProject
  | .project _ operation => operation.route
  | .environment _ _ operation => operation.route
  | .secret _ operation => operation.route

def ApiRequest.projectId : ApiRequest → Option Uuid
  | .project projectId _ => some projectId
  | .environment projectId _ _ => some projectId
  | _ => none

def ApiRequest.environmentId : ApiRequest → Option Uuid
  | .environment _ environmentId _ => some environmentId
  | _ => none

def ApiRequest.secretId : ApiRequest → Option Uuid
  | .secret secretId _ => some secretId
  | _ => none

/-- `sourceEnvironmentId` of the body of a promotion. -/
def ApiRequest.promotionSource : ApiRequest → Option Uuid
  | .environment _ _ (.previewSecretPromotion source _) => some source
  | .environment _ _ (.promoteSecrets source _) => some source
  | _ => none

/-- Whether the method of the route is `GET`, for which the server answers `HEAD` as well. -/
def isGet : Route → Bool
  | .healthLive | .healthReady | .metrics | .getOpenApi | .getSession
  | .listProjects | .getProject | .getProjectConsistency
  | .getOrganization | .listMembers | .listInvitations
  | .listAuditEvents | .exportAuditEvents | .getAuditSettings
  | .listEnvironments | .getEnvironment
  | .listSecrets | .fetchRuntimeSecrets | .exportSecrets
  | .getSecret | .listSecretVersions | .compareSecretVersions
  | .listTags | .listApiKeys => true
  | _ => false

/-- Of the paths only that of `bulkGetSecrets` ends in `/secrets/bulk-get`. -/
def isReadOperation (route : Route) : Bool := isGet route || route = .bulkGetSecrets

def isUnsafeMethod (route : Route) : Bool := !isGet route

/-! ## Errors -/

inductive ErrorDetails where
  | none
  | dotenvConflicts (issues : List DotenvIssue)
  | jsonConflicts (issues : List JsonImportIssue)
  deriving DecidableEq, Repr

structure ApiError where
  statusCode : Nat
  code : JsString
  message : JsString
  details : ErrorDetails
  deriving DecidableEq, Repr

/-- What the transaction of a request throws; `membershipRequired` is the error of `withOrg`. -/
inductive RequestError where
  | api (error : ApiError)
  | membershipRequired
  | service (error : ServiceError)
  deriving DecidableEq, Repr

abbrev RequestM (wrapper : KeyWrapper) := Prog (Db wrapper) Lock Write RequestError

variable {wrapper : KeyWrapper}

/-- A step of a service. -/
def serve {α : Type} (p : TransactionM wrapper α) : RequestM wrapper α := p.liftError .service

def scopeForbidden (message : String) : ApiError :=
  ⟨403, ofAscii "API_SCOPE_FORBIDDEN", ofAscii message, .none⟩

def forbid {α : Type} (message : String) : RequestM wrapper α :=
  .fail (.api (scopeForbidden message))

/-! ## The scope of an API key -/

/-- `apiKey` is there when the request came with an API key, whose creator the user is. -/
structure ApiRequestContext where
  userId : Uuid
  apiKey : Option ApiKeyPrincipal

/-- The actor that the runtime and the export routes hand to the audit log. -/
def ApiRequestContext.auditActor (context : ApiRequestContext) : Audit.AuditActor :=
  context.apiKey.elim (.user context.userId) fun principal => .apiKey principal.apiKeyId

/-- The end of `enforceApiKeyScope`: its lookup of the secret, or its checks of the other paths. -/
def enforceTarget (projectId : Uuid) (environmentId : Option Uuid) (request : ApiRequest) :
    RequestM wrapper Unit :=
  match request with
  | .secret secretId _ => do
    let scope ← Prog.select fun db : Db wrapper =>
      db.secrets.find? fun row => row.id = secretId && row.deletedAt.isNone
    if scope.any fun row => row.projectId ≠ projectId ||
        environmentId.any (row.environmentId ≠ ·) then
      forbid "API key scope does not include this secret"
    else pure ()
  | .listProjects => pure ()
  | request =>
    if request.projectId.isNone then
      forbid "API key scope does not include this resource"
    else if environmentId.isSome && request.environmentId.isNone && isUnsafeMethod request.route then
      forbid "Environment-scoped API keys cannot modify project-wide resources"
    else pure ()

/-- The checks of a key that has a project. The paths of tags, API keys and the audit log are none
of those modelled here. -/
def enforceProjectScope (projectId : Uuid) (environmentId : Option Uuid) (request : ApiRequest) :
    RequestM wrapper Unit :=
  if request.projectId.any (· ≠ projectId) then
    forbid "API key project scope does not match this request"
  else if environmentId.any fun id => request.environmentId.any (· ≠ id) then
    forbid "API key environment scope does not match this request"
  else if environmentId.any fun id => request.promotionSource.any (· ≠ id) then
    forbid "API key environment scope does not include the promotion source"
  else enforceTarget projectId environmentId request

def enforceApiKeyScope (principal : Option ApiKeyPrincipal) (request : ApiRequest) :
    RequestM wrapper Unit :=
  match principal with
  | none => pure ()
  | some principal =>
    if principal.access = .readOnly && !isReadOperation request.route then
      forbid "API key does not permit writes"
    else
      match principal.projectId with
      | none => pure ()
      | some projectId => enforceProjectScope projectId principal.environmentId request

/-! ## The permission of a route -/

/-- The project of what the path names, and whether its environment is protected. -/
def authorizationTarget (request : ApiRequest) : RequestM wrapper (Option Uuid × Bool) :=
  match request with
  | .secret secretId _ => do
    let found ← Prog.select fun db : Db wrapper =>
      (db.secrets.filter fun row => row.id = secretId && row.deletedAt.isNone).findSome? fun row =>
        (db.environments.find? fun environment =>
          environment.id = row.environmentId && environment.deletedAt.isNone).map fun environment =>
            (row.projectId, environment.isProtected)
    pure (found.map Prod.fst, (found.map Prod.snd).getD false)
  | .environment projectId environmentId _ => do
    let found ← Prog.select fun db : Db wrapper =>
      db.environments.find? fun row => row.id = environmentId && row.deletedAt.isNone
    pure (some ((found.map (·.projectId)).getD projectId), (found.map (·.isProtected)).getD false)
  | request => pure (request.projectId, false)

def enforceRoutePermission (userId : Uuid) (request : ApiRequest) : RequestM wrapper Unit :=
  match request.route.permission with
  | none => .fail (.api ⟨500, ofAscii "AUTHORIZATION_POLICY_MISSING",
      ofAscii "Route authorization policy is missing", .none⟩)
  | some permission => do
    let target ← authorizationTarget request
    serve (authorizeUser userId target.1 target.2 permission)

/-! ## Handlers -/

/-- What a handler returns; the routes that list it send a page of it. -/
inductive Response where
  | answer (answer : Answer)
  | values (entries : List (JsString × JsString))
  | dotenvPreview (preview : DotenvPreview)
  | jsonPreview (preview : JsonImportPreview)

/-- The services of an installation, and the texts of numbers and of syntax errors that the engine
writes. -/
structure Installation where
  config : Config
  numberText : JsString → JsString
  syntaxMessage : JsString → JsString

variable (installation : Installation)

def answered (p : TransactionM wrapper Answer) : RequestM wrapper Response := do
  let answer ← serve p
  pure (.answer answer)

/-- The handler of `listProjects`, before it looks for the search terms and the tag. -/
def visibleProjects (context : ApiRequestContext) : RequestM wrapper Response := do
  let all ← serve (Projects.list installation.config.platform context.userId)
  pure (.answer (.projects (all.filter fun project =>
    (context.apiKey.bind (·.projectId)).all (project.id = ·))))

def environmentNotFound : RequestError :=
  .service (.environment ⟨.notFound, ofAscii "Environment not found"⟩)

def ProjectOperation.handler (context : ApiRequestContext) (draws : Draws) (projectId : Uuid) :
    ProjectOperation → RequestM wrapper Response
  | .get => answered ((ProjectCall.getById projectId false).program installation.config
      context.userId draws)
  | .update input => answered ((ProjectCall.update projectId input).program installation.config
      context.userId draws)
  | .delete => answered ((ProjectCall.delete projectId).program installation.config
      context.userId draws)
  | .listEnvironments => do
    let all ← serve (Environments.list context.userId projectId)
    pure (.answer (.environments (all.filter fun environment =>
      (context.apiKey.bind (·.environmentId)).all (environment.id = ·))))
  | .createEnvironment input => answered ((EnvironmentCall.create projectId input).program
      installation.config context.userId draws)
  | .reorderEnvironments environmentIds => answered
      ((EnvironmentCall.reorder projectId environmentIds).program installation.config
        context.userId draws)

/-- The environment of the path, which the project of the path must have. -/
def existingEnvironment (userId projectId environmentId : Uuid) :
    RequestM wrapper Environments.Environment := do
  let environment ← serve (Environments.get userId environmentId false)
  if environment.projectId ≠ projectId then .fail environmentNotFound else pure environment

def importFailed (code message : String) (details : ErrorDetails) : RequestError :=
  .api ⟨400, ofAscii code, ofAscii message, details⟩

/-- The entries of a source, or the error of a commit route. -/
def importEntries : ImportSource → Except RequestError (List (JsString × JsString))
  | .dotenv content =>
    let parsed := parseDotenv content
    if parsed.issues.isEmpty then .ok (parsed.entries.map fun entry => (entry.key, entry.value))
    else .error (importFailed "DOTENV_PARSE_ERROR" "Resolve dotenv conflicts before importing"
      (.dotenvConflicts parsed.issues))
  | .json content delimiter =>
    let parsed := parseJsonSecrets installation.numberText installation.syntaxMessage content
      delimiter
    if parsed.issues.isEmpty then .ok (parsed.entries.map fun entry => (entry.key, entry.value))
    else .error (importFailed "JSON_IMPORT_ERROR" "Resolve JSON conflicts before importing"
      (.jsonConflicts parsed.issues))

def importPreview (existingKeys : List JsString) : ImportSource → Response
  | .dotenv content => .dotenvPreview (buildDotenvPreview (parseDotenv content) existingKeys)
  | .json content delimiter => .jsonPreview (buildJsonImportPreview
      (parseJsonSecrets installation.numberText installation.syntaxMessage content delimiter)
      existingKeys)

/-- The handler of `bulkGetSecrets`: the secrets of the listing, one after another. -/
def bulkGetValues (userId : Uuid) (draws : Draws) (projectId environmentId : Uuid)
    (keys : Option (List JsString)) : RequestM wrapper Response := do
  let metadata ← serve (Secrets.list installation.config.platform userId projectId environmentId
    ⟨none, none⟩)
  let selected := metadata.filter fun secret => keys.all (·.contains secret.key)
  let values ← Prog.forEach
    (fun _ secret => serve (Secrets.get installation.config.platform draws userId secret.id)) 0
    selected
  pure (.values (Json.fromEntries (values.map fun secret => (secret.metadata.key, secret.value))))

def EnvironmentOperation.handler (context : ApiRequestContext) (draws : Draws)
    (projectId environmentId : Uuid) : EnvironmentOperation → RequestM wrapper Response
  | .get => do
    let environment ← existingEnvironment context.userId projectId environmentId
    pure (.answer (.environment environment))
  | .update input => do
    let existing ← existingEnvironment context.userId projectId environmentId
    answered ((EnvironmentCall.update existing.id input).program installation.config
      context.userId draws)
  | .delete confirmSecrets => do
    let existing ← existingEnvironment context.userId projectId environmentId
    answered ((EnvironmentCall.delete existing.id (confirmSecrets.getD false)).program
      installation.config context.userId draws)
  | .listSecrets filters => answered ((SecretCall.list projectId environmentId filters).program
      installation.config context.userId draws)
  | .createSecret input => answered ((SecretCall.create projectId environmentId input).program
      installation.config context.userId draws)
  | .bulkSetSecrets inputs => answered ((SecretCall.bulkSet projectId environmentId inputs).program
      installation.config context.userId draws)
  | .fetchRuntimeSecrets ifNoneMatch => answered
      ((SecretCall.runtimeConfig projectId environmentId (parseRuntimeEtags ifNoneMatch)
        context.auditActor).program installation.config context.userId draws)
  | .bulkGetSecrets keys => bulkGetValues installation context.userId draws projectId environmentId
      keys
  | .exportSecrets format nested delimiter => answered
      ((SecretCall.exportConfig projectId environmentId format
        ⟨nested.getD false, some (delimiter.getD (ofAscii "__"))⟩ context.auditActor).program
        installation.config context.userId draws)
  | .previewImport source => do
    let existing ← serve (Secrets.list installation.config.platform context.userId projectId
      environmentId ⟨none, none⟩)
    pure (importPreview installation (existing.map (·.key)) source)
  | .commitImport source strategy selectedKeys => do
    let entries ← Prog.ofExcept (importEntries installation source)
    answered ((SecretCall.importBatch projectId environmentId (entries.map importInput) strategy
      (selectedKeys.getD []) source.format).program installation.config context.userId draws)
  | .previewSecretPromotion sourceEnvironmentId keys => answered
      ((SecretCall.previewPromotion projectId sourceEnvironmentId environmentId keys).program
        installation.config context.userId draws)
  | .promoteSecrets sourceEnvironmentId keys => answered
      ((SecretCall.promote projectId sourceEnvironmentId environmentId keys).program
        installation.config context.userId draws)

/-- The call of a handler that a secret names. -/
def SecretOperation.call (secretId : Uuid) : SecretOperation → SecretCall
  | .get => .get secretId
  | .update input => .update secretId input
  | .delete => .delete secretId
  | .listVersions => .listVersions secretId
  | .compareVersions fromVersion toVersion reveal =>
    .compareVersions secretId fromVersion toVersion (reveal.getD false)
  | .rollback version input => .rollback secretId version input

def ApiRequest.handler (context : ApiRequestContext) (draws : Draws) :
    ApiRequest → RequestM wrapper Response
  | .listProjects => visibleProjects installation context
  | .createProject input =>
    answered ((ProjectCall.create input).program installation.config context.userId draws)
  | .project projectId operation => operation.handler installation context draws projectId
  | .environment projectId environmentId operation =>
    operation.handler installation context draws projectId environmentId
  | .secret secretId operation =>
    answered ((operation.call secretId).program installation.config context.userId draws)

/-! ## Transactions -/

/-- A request that was authenticated, with the draws of its transaction. -/
structure ApiCall where
  context : ApiRequestContext
  draws : Draws
  request : ApiRequest

/-- The check of `withOrg`. -/
def requireMembership (userId : Uuid) : RequestM wrapper Unit := do
  let active ← Prog.select fun db : Db wrapper =>
    db.memberships.any fun membership => membership.userId = userId && membership.active
  if active then pure () else .fail .membershipRequired

def withTenant (call : ApiCall) : RequestM wrapper Response := do
  requireMembership call.context.userId
  enforceApiKeyScope call.context.apiKey call.request
  enforceRoutePermission call.context.userId call.request
  call.request.handler installation call.context call.draws

end Himitsu.Api.Requests
