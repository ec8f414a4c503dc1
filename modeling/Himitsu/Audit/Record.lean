import Himitsu.Services.Transaction

/-!
# The audit log writer

Model of `validateMetadata`, `metadataFor`, `validateEvent` and `recordInTransaction` of
`packages/audit/src/index.ts`.

* `AuditAction`, `AuditEventInput` — what a service records.
* `validateMetadata`, `metadataFor` — what the metadata may hold.
* `recordInTransaction` — the insert of an event with the changes that it is about.
-/

set_option autoImplicit false

namespace Himitsu.Audit

open JsString Crypto Database Services Transactions

inductive AuditAction where
  | organizationCreated
  | organizationUpdated
  | organizationAuditRetentionUpdated
  | authSignup
  | authEmailVerified
  | authLoginSucceeded
  | authLoginFailed
  | authLogout
  | authPasswordResetRequested
  | authPasswordResetCompleted
  | apiKeyUsed
  | apiKeyCreated
  | apiKeyRevoked
  | projectCreated
  | projectUpdated
  | projectArchived
  | projectRestored
  | projectDeleted
  | environmentCreated
  | environmentUpdated
  | environmentReordered
  | environmentDeleted
  | environmentRestored
  | consistencyAcknowledged
  | consistencyIgnored
  | consistencyCleared
  | secretCreated
  | secretRead
  | secretUpdated
  | secretDeleted
  | secretExported
  | secretImported
  | secretPromoted
  | membershipInvited
  | membershipInvitationRevoked
  | membershipAccepted
  | membershipRemoved
  | membershipRoleChanged
  | membershipProjectRoleChanged
  deriving DecidableEq, Repr

def AuditAction.text : AuditAction → JsString
  | .organizationCreated => ofAscii "organization.created"
  | .organizationUpdated => ofAscii "organization.updated"
  | .organizationAuditRetentionUpdated => ofAscii "organization.audit_retention_updated"
  | .authSignup => ofAscii "auth.signup"
  | .authEmailVerified => ofAscii "auth.email_verified"
  | .authLoginSucceeded => ofAscii "auth.login_succeeded"
  | .authLoginFailed => ofAscii "auth.login_failed"
  | .authLogout => ofAscii "auth.logout"
  | .authPasswordResetRequested => ofAscii "auth.password_reset_requested"
  | .authPasswordResetCompleted => ofAscii "auth.password_reset_completed"
  | .apiKeyUsed => ofAscii "api_key.used"
  | .apiKeyCreated => ofAscii "api_key.created"
  | .apiKeyRevoked => ofAscii "api_key.revoked"
  | .projectCreated => ofAscii "project.created"
  | .projectUpdated => ofAscii "project.updated"
  | .projectArchived => ofAscii "project.archived"
  | .projectRestored => ofAscii "project.restored"
  | .projectDeleted => ofAscii "project.deleted"
  | .environmentCreated => ofAscii "environment.created"
  | .environmentUpdated => ofAscii "environment.updated"
  | .environmentReordered => ofAscii "environment.reordered"
  | .environmentDeleted => ofAscii "environment.deleted"
  | .environmentRestored => ofAscii "environment.restored"
  | .consistencyAcknowledged => ofAscii "consistency.acknowledged"
  | .consistencyIgnored => ofAscii "consistency.ignored"
  | .consistencyCleared => ofAscii "consistency.cleared"
  | .secretCreated => ofAscii "secret.created"
  | .secretRead => ofAscii "secret.read"
  | .secretUpdated => ofAscii "secret.updated"
  | .secretDeleted => ofAscii "secret.deleted"
  | .secretExported => ofAscii "secret.exported"
  | .secretImported => ofAscii "secret.imported"
  | .secretPromoted => ofAscii "secret.promoted"
  | .membershipInvited => ofAscii "membership.invited"
  | .membershipInvitationRevoked => ofAscii "membership.invitation_revoked"
  | .membershipAccepted => ofAscii "membership.accepted"
  | .membershipRemoved => ofAscii "membership.removed"
  | .membershipRoleChanged => ofAscii "membership.role_changed"
  | .membershipProjectRoleChanged => ofAscii "membership.project_role_changed"

inductive AuditActor where
  | user (id : Uuid)
  | apiKey (id : Uuid)
  | system
  deriving DecidableEq, Repr

/-- The properties of an object of type `Record<string, SafeMetadataValue>`. -/
abbrev Metadata := List (JsString × Json)

structure AuditEventInput where
  orgId : Uuid
  actor : AuditActor
  action : AuditAction
  resourceType : JsString
  resourceId : Option JsString
  projectId : Option Uuid := none
  environmentId : Option Uuid := none
  ip : Option JsString := none
  userAgent : Option JsString := none
  before : Option Metadata := none
  after : Option Metadata := none
  details : Option Metadata := none

/-! ## Metadata -/

def forbiddenWords : List JsString :=
  [ofAscii "secret", ofAscii "value", ofAscii "password", ofAscii "passphrase", ofAscii "token",
    ofAscii "credential", ofAscii "authorization", ofAscii "cookie", ofAscii "ciphertext",
    ofAscii "nonce", ofAscii "auth_tag"]

def asciiLower (c : UInt16) : UInt16 := if 0x41 ≤ c ∧ c ≤ 0x5A then c + 0x20 else c

/-- One of the words, followed by the end or an underscore. -/
def forbiddenAt (key : JsString) : Bool :=
  forbiddenWords.any fun word =>
    word.isPrefixOf key && ((key.drop word.length).head?.getD 0x5F == 0x5F)

/-- What follows each underscore. -/
def afterUnderscores : JsString → List JsString
  | [] => []
  | c :: rest => if c = 0x5F then rest :: afterUnderscores rest else afterUnderscores rest

/-- `forbiddenKey`. -/
def forbiddenKey (key : JsString) : Bool :=
  let lower := key.map asciiLower
  (lower :: afterUnderscores lower).any forbiddenAt

def unsafeMetadata (message : JsString) : AuditError := ⟨.unsafeMetadata, message⟩

def tooDeep (path : JsString) : AuditError :=
  unsafeMetadata (ofAscii "Audit metadata is too deep at " ++ path)

mutual

/-- The numbers of a `Json` are finite. -/
def validateMetadata (path : JsString) (depth : Nat) : Json → Except AuditError Unit
  | .array items =>
    if depth > 8 then .error (tooDeep path)
    else if items.length > 100 then
      .error (unsafeMetadata (ofAscii "Audit array is too large at " ++ path))
    else validateItems path depth 0 items
  | .object properties =>
    if depth > 8 then .error (tooDeep path)
    else if properties.length > 100 then
      .error (unsafeMetadata (ofAscii "Audit object is too large at " ++ path))
    else validateProperties path depth properties
  | _ => if depth > 8 then .error (tooDeep path) else .ok ()

def validateItems (path : JsString) (depth index : Nat) : List Json → Except AuditError Unit
  | [] => .ok ()
  | item :: items => do
    validateMetadata (path ++ 0x5B :: ofNat index ++ [0x5D]) (depth + 1) item
    validateItems path depth (index + 1) items

def validateProperties (path : JsString) (depth : Nat) : Metadata → Except AuditError Unit
  | [] => .ok ()
  | (key, child) :: properties =>
    if forbiddenKey key then
      .error (unsafeMetadata (ofAscii "Forbidden audit metadata field at " ++ path ++ 0x2E :: key))
    else do
      validateMetadata (path ++ 0x2E :: key) (depth + 1) child
      validateProperties path depth properties

end

/-- One turn of the loop of `metadataFor`. -/
def addMetadata (metadata : Metadata) (key : JsString) :
    Option Metadata → Except AuditError Metadata
  | none => .ok metadata
  | some value => do
    validateMetadata key 0 (.object value)
    .ok (Json.setProperty metadata key (.object value))

def metadataFor (event : AuditEventInput) : Except AuditError Json := do
  let metadata ← addMetadata [] (ofAscii "before") event.before
  let metadata ← addMetadata metadata (ofAscii "after") event.after
  let metadata ← addMetadata metadata (ofAscii "details") event.details
  if (Utf8.encode (Json.stringify (.object metadata))).length > 64 * 1024 then
    .error (unsafeMetadata (ofAscii "Audit metadata exceeds 64 KiB"))
  else .ok (.object metadata)

/-! ## Recording -/

/-- The ids of an actor are `uuid`s, which are not empty. -/
def validateEvent (event : AuditEventInput) : Except AuditError Unit :=
  if event.orgId.text = [] ∨ event.action.text = [] ∨ event.resourceType = [] then
    .error ⟨.invalidEvent, ofAscii "Audit event identity fields are required"⟩
  else if (ofAscii "secret.").isPrefixOf event.action.text ∧ event.resourceId = none then
    .error ⟨.invalidEvent, ofAscii "Secret audit events require a resource id"⟩
  else .ok ()

/-- The row that `#insert` inserts. -/
def eventRow (event : AuditEventInput) (metadata : Json) (now : Timestamp) :
    Database.AuditEvent where
  actorType := match event.actor with
    | .user _ => .user
    | .apiKey _ => .apiKey
    | .system => .system
  actorUserId := match event.actor with
    | .user id => some id
    | _ => none
  actorApiKeyId := match event.actor with
    | .apiKey id => some id
    | _ => none
  action := event.action.text
  resourceType := event.resourceType
  resourceId := event.resourceId
  projectId := event.projectId
  environmentId := event.environmentId
  ip := event.ip
  userAgent := event.userAgent
  metadata := metadata
  occurredAt := now

variable {wrapper : KeyWrapper}

def recordInTransaction (now : Timestamp) (event : AuditEventInput) :
    TransactionM wrapper Unit := do
  attempt .audit (validateEvent event)
  let metadata ← attempt .audit (metadataFor event)
  .execute (fun _ => []) (fun _ => [.insertAuditEvent (eventRow event metadata now)])
    fun _ => .ok ()

end Himitsu.Audit
