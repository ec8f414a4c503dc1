import Himitsu.Crypto.KeyCacheSafety
import Himitsu.Projects.Service
import Himitsu.Secrets.Service

/-!
# The calls of an organization

* `Call`, `Answer` — the calls of the project, environment and secret services, and what they
  return.
* `program` — the transaction of a call.
* `Event`, `after` — a call that runs alone, or a change by one of the other services.
-/

set_option autoImplicit false

namespace Himitsu.Services

open JsString Crypto Database Transactions

inductive ProjectCall where
  | create (input : Projects.CreateInput)
  | getBySlug (slug : JsString) (includeDeleted : Bool)
  | getById (projectId : Uuid) (includeDeleted : Bool)
  | list
  | update (projectId : Uuid) (input : Projects.UpdateInput)
  | setArchived (projectId : Uuid) (archived : Bool)
  | delete (projectId : Uuid)
  | restore (projectId : Uuid)

inductive EnvironmentCall where
  | list (projectId : Uuid)
  | get (environmentId : Uuid) (includeDeleted : Bool)
  | create (projectId : Uuid) (input : Environments.CreateInput)
  | update (environmentId : Uuid) (input : Environments.UpdateInput)
  | reorder (projectId : Uuid) (environmentIds : List Uuid)
  | delete (environmentId : Uuid) (confirmSecrets : Bool)
  | restore (environmentId : Uuid)

open Secrets in
inductive SecretCall where
  | list (projectId environmentId : Uuid) (filters : ListFilters)
  | get (secretId : Uuid)
  | runtimeConfig (projectId environmentId : Uuid) (knownVersions : KnownVersions)
      (auditActor : Audit.AuditActor)
  | exportConfig (projectId environmentId : Uuid) (format : SecretExportFormat)
      (options : ExportOptions) (auditActor : Audit.AuditActor)
  | listVersions (secretId : Uuid)
  | compareVersions (secretId : Uuid) (fromVersion toVersion : Nat) (reveal : Bool)
  | rollback (secretId : Uuid) (targetVersion : Nat) (input : RollbackInput)
  | create (projectId environmentId : Uuid) (input : SetSecretInput)
  | update (secretId : Uuid) (input : UpdateSecretInput)
  | bulkSet (projectId environmentId : Uuid) (inputs : List SetSecretInput)
  | importBatch (projectId environmentId : Uuid) (inputs : List SetSecretInput)
      (strategy : SecretImportStrategy) (selectedKeys : List JsString)
      (format : SecretImportFormat)
  | previewPromotion (projectId sourceEnvironmentId targetEnvironmentId : Uuid)
      (keys : Option (List JsString))
  | promote (projectId sourceEnvironmentId targetEnvironmentId : Uuid)
      (keys : Option (List JsString))
  | delete (secretId : Uuid)

inductive Action where
  | project (call : ProjectCall)
  | environment (call : EnvironmentCall)
  | secret (call : SecretCall)

/-- An action of a user, with the draws of its transaction. -/
structure Call where
  userId : Uuid
  draws : Draws
  action : Action

inductive Answer where
  | project (project : Projects.Project)
  | projects (projects : List Projects.Project)
  | environment (environment : Environments.Environment)
  | environments (environments : List Environments.Environment)
  | secret (secret : Secrets.SecretMetadata)
  | secrets (secrets : List Secrets.SecretMetadata)
  | value (secret : Secrets.SecretWithValue)
  | runtimeConfig (config : Secrets.RuntimeSecretConfig)
  | exported (result : Secrets.SecretExportResult)
  | versions (versions : List Secrets.SecretVersionMetadata)
  | comparison (comparison : Secrets.SecretVersionComparison)
  | imported (result : Secrets.SecretImportResult)
  | preview (preview : Secrets.SecretPromotionPreview)
  | promoted (result : Secrets.SecretPromotionResult)

/-- What the services of an installation are made with. -/
structure Config where
  platform : Platform
  projects : RecoveryOptions
  environments : RecoveryOptions

variable {wrapper : KeyWrapper}

/-- A transaction whose result is an answer. -/
def answering {α : Type} (wrap : α → Answer) (p : TransactionM wrapper α) :
    TransactionM wrapper Answer := do
  let result ← p
  pure (wrap result)

variable (config : Config)

def ProjectCall.program (userId : Uuid) (draws : Draws) :
    ProjectCall → TransactionM wrapper Answer
  | .create input => answering .project (Projects.create config.platform draws userId input)
  | .getBySlug slug includeDeleted =>
    answering .project (Projects.getBySlug config.platform userId slug includeDeleted)
  | .getById projectId includeDeleted =>
    answering .project (Projects.getById config.platform userId projectId includeDeleted)
  | .list => answering .projects (Projects.list config.platform userId)
  | .update projectId input =>
    answering .project (Projects.update config.platform draws userId projectId input)
  | .setArchived projectId archived =>
    answering .project (Projects.setArchived config.platform draws userId projectId archived)
  | .delete projectId =>
    answering .project (Projects.delete config.platform config.projects draws userId projectId)
  | .restore projectId =>
    answering .project (Projects.restore config.platform draws userId projectId)

def EnvironmentCall.program (userId : Uuid) (draws : Draws) :
    EnvironmentCall → TransactionM wrapper Answer
  | .list projectId => answering .environments (Environments.list userId projectId)
  | .get environmentId includeDeleted =>
    answering .environment (Environments.get userId environmentId includeDeleted)
  | .create projectId input =>
    answering .environment (Environments.create draws userId projectId input)
  | .update environmentId input =>
    answering .environment (Environments.update draws userId environmentId input)
  | .reorder projectId environmentIds =>
    answering .environments (Environments.reorder draws userId projectId environmentIds)
  | .delete environmentId confirmSecrets =>
    answering .environment
      (Environments.delete config.environments draws userId environmentId confirmSecrets)
  | .restore environmentId =>
    answering .environment (Environments.restore draws userId environmentId)

def SecretCall.program (userId : Uuid) (draws : Draws) :
    SecretCall → TransactionM wrapper Answer
  | .list projectId environmentId filters =>
    answering .secrets (Secrets.list config.platform userId projectId environmentId filters)
  | .get secretId => answering .value (Secrets.get config.platform draws userId secretId)
  | .runtimeConfig projectId environmentId knownVersions auditActor =>
    answering .runtimeConfig (Secrets.runtimeConfig config.platform draws userId projectId
      environmentId knownVersions auditActor)
  | .exportConfig projectId environmentId format options auditActor =>
    answering .exported (Secrets.exportConfig config.platform draws userId projectId
      environmentId format options auditActor)
  | .listVersions secretId =>
    answering .versions (Secrets.listVersions config.platform userId secretId)
  | .compareVersions secretId fromVersion toVersion reveal =>
    answering .comparison (Secrets.compareVersions config.platform draws userId secretId
      fromVersion toVersion reveal)
  | .rollback secretId targetVersion input =>
    answering .secret (Secrets.rollback config.platform draws userId secretId targetVersion input)
  | .create projectId environmentId input =>
    answering .secret (Secrets.create config.platform draws 0 userId projectId environmentId input
      false true)
  | .update secretId input =>
    answering .secret (Secrets.update config.platform draws userId secretId input)
  | .bulkSet projectId environmentId inputs =>
    answering .secrets (Secrets.bulkSet config.platform draws userId projectId environmentId
      inputs)
  | .importBatch projectId environmentId inputs strategy selectedKeys format =>
    answering .imported (Secrets.importBatch config.platform draws userId projectId environmentId
      inputs strategy selectedKeys format)
  | .previewPromotion projectId sourceEnvironmentId targetEnvironmentId keys =>
    answering .preview (Secrets.previewPromotion config.platform userId projectId
      sourceEnvironmentId targetEnvironmentId keys)
  | .promote projectId sourceEnvironmentId targetEnvironmentId keys =>
    answering .promoted (Secrets.promote config.platform draws userId projectId
      sourceEnvironmentId targetEnvironmentId keys)
  | .delete secretId => answering .secret (Secrets.delete config.platform draws userId secretId)

def program (call : Call) : TransactionM wrapper Answer :=
  match call.action with
  | .project action => action.program config call.userId call.draws
  | .environment action => action.program config call.userId call.draws
  | .secret action => action.program config call.userId call.draws

/-! ## Calls one after another -/

/-- The tables that the other services of the organization write as well: key rotation, members and
tags. -/
structure OtherTables (wrapper : KeyWrapper) where
  keys : DataKeyStore wrapper
  memberships : List Membership
  projectRoleOverrides : List ProjectRoleOverride
  tags : List Tag
  secretTags : List SecretTag
  projectTags : List ProjectTag

def OtherTables.on (tables : OtherTables wrapper) (db : Db wrapper) : Db wrapper :=
  { db with
    keys := tables.keys
    memberships := tables.memberships
    projectRoleOverrides := tables.projectRoleOverrides
    tags := tables.tags
    secretTags := tables.secretTags
    projectTags := tables.projectTags }

inductive Event (wrapper : KeyWrapper) where
  | call (call : Call)
  | others (tables : OtherTables wrapper)

/-- The answer of a call that runs alone, and the database after it. -/
def respond (db : Db wrapper) (call : Call) : Except ServiceError Answer × Db wrapper :=
  transact apply (program config call) db

def after (db : Db wrapper) : Event wrapper → Db wrapper
  | .call call => (respond config db call).2
  | .others tables => tables.on db

def afterAll (db : Db wrapper) (events : List (Event wrapper)) : Db wrapper :=
  events.foldl (after config) db

/-- An organization without projects. -/
def Db.IsEmpty (db : Db wrapper) : Prop :=
  db.projects = [] ∧ db.environments = [] ∧ db.secrets = []

/-- **A call that fails changes nothing.** -/
theorem respond_of_error {config : Config} {db : Db wrapper} {call : Call} {error : ServiceError}
    (h : (respond config db call).1 = .error error) : (respond config db call).2 = db :=
  transact_of_error apply h

/-- Whether a call that runs alone commits. -/
def commits (db : Db wrapper) (call : Call) : Bool := (respond config db call).1.isOk

theorem commits_iff {config : Config} {db : Db wrapper} {call : Call} :
    commits config db call = true ↔ ∃ answer, (respond config db call).1 = .ok answer := by
  unfold commits
  cases (respond config db call).1 <;> simp [Except.isOk, Except.toBool]

theorem not_commits_iff {config : Config} {db : Db wrapper} {call : Call} :
    commits config db call = false ↔ ∃ error, (respond config db call).1 = .error error := by
  unfold commits
  cases (respond config db call).1 <;> simp [Except.isOk, Except.toBool]

/-! ## An installation -/

/-- Texts in the order of their code units. -/
def examplePlatform : Platform where
  aead := plainAead
  collate left right := decide (left ≤ right)
  lower text := text.map lowerUnit
  ilike text pattern := (text.map lowerUnit).tails.any ((pattern.map lowerUnit).isPrefixOf ·)
  localeCompare left right := if left < right then -1 else if left = right then 0 else 1

def exampleConfig : Config :=
  ⟨examplePlatform, ⟨30, by decide, by decide⟩, ⟨30, by decide, by decide⟩⟩

def exampleUser : Uuid := ⟨1⟩

/-- The draws at a time; a call draws at most 100 ids. -/
def drawsAt (time : Nat) : Draws where
  now := fromDate time
  clock := time
  uuid n := ⟨BitVec.ofNat 128 (100 * time + n)⟩
  dataKey _ := repeatedKey 7
  wrapNonce _ := zeroNonce
  nonce _ := zeroNonce

def callAt (time : Nat) (action : Action) : Call := ⟨exampleUser, drawsAt time, action⟩

/-- An organization with one owner. -/
def newOrganization : Db exampleWrapper where
  orgId := ⟨0⟩
  keys := .empty
  memberships := [⟨exampleUser, .owner, true⟩]
  projectRoleOverrides := []
  projects := []
  environments := []
  secrets := []
  secretVersions := []
  tags := []
  secretTags := []
  projectTags := []
  auditEvents := []
  decryptions := []

/-- A project with the default environments. -/
def createApp (time : Nat) : Call :=
  callAt time (.project (.create ⟨ofAscii "App", ofAscii "app", none, none, []⟩))

end Himitsu.Services
