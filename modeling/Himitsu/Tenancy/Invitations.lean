import Himitsu.Tenancy.Store
import Himitsu.Audit.Record
import Himitsu.Auth.Service

/-!
# Invitations

Model of `TenantDatabase.createInvitation` and `acceptInvitation` and of `TenancyService.inviteMember`
of `packages/tenancy/src/index.ts`, and of the invitation routes of `apps/api/src/index.ts`.

* `TenancyM` — the statements of a membership request.
* `withOrg`, `withTenant` — a transaction of a member, and one that needs a permission.
* `inviteRoute`, `acceptInvitation`, `revokeRoute` — the requests.

`inviteMember` runs in a transaction of its own while that of its route is open; the latter only
reads, so its statements stand before those of the former.
-/

set_option autoImplicit false

namespace Himitsu.Tenancy

open JsString Crypto Database Transactions Authz

/-! ## Errors -/

inductive TenancyErrorCode where
  | invalidInput
  | slugExists
  | invitationExists
  | invitationInvalid
  | invitationEmailMismatch
  | alreadyMember
  | membershipRequired
  | inviteForbidden
  deriving DecidableEq, Repr

inductive RequestError where
  | tenancy (code : TenancyErrorCode) (message : JsString)
  | api (statusCode : Nat) (code message : JsString)
  | authorization (decision : AuthorizationDecision)
  | audit (error : Audit.AuditError)
  | sql (state : Services.SqlState)
  | checkViolation
  deriving DecidableEq, Repr

abbrev TenancyM := Prog Db Lock Write RequestError

/-- What is not part of the repository: the primitives of the services and `lower` of the
database. -/
structure Platform where
  primitives : Auth.Primitives
  lower : JsString → JsString

def INVITATION_TTL_MS : Int := 7 * 24 * 60 * 60 * 1000

def require (holds : Bool) (error : RequestError) : TenancyM Unit :=
  if holds then pure () else .fail error

def expect {α : Type} (value : Option α) (error : RequestError) : TenancyM α :=
  .ofExcept (value.elim (.error error) .ok)

def attempt {α ε : Type} (wrap : ε → RequestError) (result : Except ε α) : TenancyM α :=
  .ofExcept (result.mapError wrap)

/-! ## Reading -/

def Db.activeMembership (db : Db) (orgId userId : Uuid) : Option Membership :=
  db.memberships.find? fun row => row.key = (orgId, userId) && row.status = .active

/-- The address of a user, as `users.email_normalized` has it, is that of an active member. -/
def Db.hasMember (db : Db) (orgId : Uuid) (email : JsString) : Bool :=
  db.memberships.any fun row => row.orgId = orgId && row.status = .active &&
    db.users.any fun user => user.id = row.userId && user.emailNormalized = email

def Db.organizationName (db : Db) (orgId : Uuid) : Option JsString :=
  (db.organizations.find? fun row => row.id = orgId && row.deletedAt.isNone).map (·.name)

/-- The invitation of a token, while it can be accepted. -/
def Db.acceptable (db : Db) (now : Timestamp) (tokenHash : Bytes) :
    Option OrganizationInvitation :=
  db.invitations.find? fun row =>
    row.tokenHash = tokenHash && row.isOpen && decide (now < row.expiresAt)

/-- `resolve_invitation_org`. -/
def Db.resolveInvitationOrg (db : Db) (now : Timestamp) (tokenHash : Bytes) : Option Uuid :=
  (db.acceptable now tokenHash).map (·.orgId)

/-! ## Transactions -/

variable {α : Type}

def withOrg (orgId userId : Uuid) (work : TenancyM α) : TenancyM α := do
  let membership ← Prog.select fun db : Db => db.activeMembership orgId userId
  require membership.isSome
    (.tenancy .membershipRequired (ofAscii "Active organization membership is required"))
  work

/-- `AuthorizationContextResolver.resolve` for a resource of the organization. -/
def resolve (orgId userId : Uuid) : TenancyM AuthorizationContext := do
  let membership ← Prog.select fun db : Db => db.activeMembership orgId userId
  let membership ← expect membership (.authorization ⟨false, .orgSettingsRead, .readOnly, .role⟩)
  pure ⟨membership.role, none, false⟩

/-- The organization and the user of a session. -/
structure ApiRequestContext where
  orgId : Uuid
  userId : Uuid
  deriving DecidableEq, Repr

/-- The transaction of a route with this permission in `apiRoutePermissions`. -/
def withTenant (context : ApiRequestContext) (permission : Permission) (work : TenancyM α) :
    TenancyM α :=
  withOrg context.orgId context.userId (do
    let authorization ← resolve context.orgId context.userId
    attempt .authorization (requirePermission authorization permission)
    work)

def recordInTransaction (now : Timestamp) (event : Audit.AuditEventInput) : TenancyM Unit := do
  attempt .audit (Audit.validateEvent event)
  let metadata ← attempt .audit (Audit.metadataFor event)
  .execute (fun _ => [])
    (fun _ => [.insertAuditEvent event.orgId (Audit.eventRow event metadata now)]) fun _ => .ok ()

/-- `btrim`. -/
def btrim (text : JsString) : JsString := (text.dropWhile (· = 0x20)).rdropWhile (· = 0x20)

def roleText : Role → JsString
  | .owner => ofAscii "owner"
  | .admin => ofAscii "admin"
  | .member => ofAscii "member"
  | .readOnly => ofAscii "read_only"

/-! ## Inviting -/

def normalizeEmail (platform : Platform) (email : JsString) : Except RequestError JsString :=
  let normalized := platform.primitives.toLowerCase (trim email)
  if normalized.length < 3 ∨ normalized.length > 320 ∨ !Auth.isEmail normalized then
    .error (.tenancy .invalidInput (ofAscii "A valid invitation email is required"))
  else .ok normalized

/-- The clocks and the randomness of an invitation: `now` is that of its transaction and `clock`
the time value that the service reads. -/
structure InvitationDraws where
  now : Timestamp
  clock : Int
  invitationId : Uuid
  token : JsString

/-- The row that `createInvitation` inserts. -/
def invitationRow (platform : Platform) (draws : InvitationDraws) (orgId inviterUserId : Uuid)
    (email : JsString) (role : InvitationalRole) : OrganizationInvitation where
  id := draws.invitationId
  orgId := orgId
  email := email
  emailNormalized := platform.lower (btrim email)
  role := role
  tokenHash := platform.primitives.digest draws.token
  invitedByUserId := inviterUserId
  createdAt := draws.now
  expiresAt := 1000 * (draws.clock + INVITATION_TTL_MS)
  acceptedAt := none
  acceptedByUserId := none
  revokedAt := none

/-- The open invitations of an address that have expired. -/
def Db.expired (db : Db) (now : Timestamp) (slot : Uuid × JsString) :
    List OrganizationInvitation :=
  db.invitations.filter fun row => row.openSlot = some slot && decide (row.expiresAt ≤ now)

/-- `INSERT INTO organization_invitations`: the primary key, the digest, the index on open
invitations and the check on the expiry. -/
def insertInvitation (row : OrganizationInvitation) : TenancyM Unit :=
  .execute (fun _ => []) (fun _ => [.insertInvitation row]) fun db =>
    if db.invitationRows row.id ≠ [] ∨ db.tokenIds row.tokenHash ≠ [] ∨
        db.pendingIds row.slot ≠ [] then .error (.sql .uniqueViolation)
    else if row.expiresAt ≤ row.createdAt then .error .checkViolation
    else .ok ()

/-- The `catch` of `createInvitation`. -/
def asInvitationExists : RequestError → RequestError
  | .sql .uniqueViolation =>
    .tenancy .invitationExists (ofAscii "A pending invitation already exists for this email")
  | error => error

def invitedEvent (row : OrganizationInvitation) : Audit.AuditEventInput where
  orgId := row.orgId
  actor := .user row.invitedByUserId
  action := .membershipInvited
  resourceType := ofAscii "organization_invitation"
  resourceId := some row.id.text
  after := some [(ofAscii "email", .string row.email),
    (ofAscii "role", .string (roleText row.role.role))]

/-- The statements in the `try` of `createInvitation`. -/
def replaceInvitation (now : Timestamp) (email : JsString) (row : OrganizationInvitation) :
    TenancyM Unit := do
  .execute (fun _ => [])
    (fun db => (db.expired now (row.orgId, email)).map fun old =>
      .closeInvitation old.id (.revoked now)) fun _ => .ok ()
  insertInvitation row
  recordInTransaction now (invitedEvent row)

/-- `createInvitation`: the name of the organization. A parameter is encoded for the database. -/
def createInvitation (platform : Platform) (draws : InvitationDraws) (orgId inviterUserId : Uuid)
    (email : JsString) (role : InvitationalRole) : TenancyM JsString :=
  withOrg orgId inviterUserId (do
    let inviter ← Prog.select fun db : Db => db.activeMembership orgId inviterUserId
    let inviterRole := (inviter.map (·.role)).getD .member
    require (inviterRole = .owner || inviterRole = .admin)
      (.tenancy .inviteForbidden
        (ofAscii "Owner or admin membership is required to invite members"))
    let organization ← Prog.select fun db : Db => db.organizationName orgId
    let email ← attempt .sql (Services.storedText email)
    let existingMember ← Prog.select fun db : Db => db.hasMember orgId email
    require (!existingMember)
      (.tenancy .alreadyMember (ofAscii "This user is already an organization member"))
    (replaceInvitation draws.now email
      (invitationRow platform draws orgId inviterUserId email role)).mapError asInvitationExists
    pure (organization.getD (ofAscii "Organization")))

/-- `TenancyService.inviteMember`, up to the delivery. -/
def inviteMember (platform : Platform) (draws : InvitationDraws) (orgId inviterUserId : Uuid)
    (email : JsString) (role : InvitationalRole) : TenancyM JsString := do
  let email ← Prog.ofExcept (normalizeEmail platform email)
  createInvitation platform draws orgId inviterUserId email role

/-- `POST /api/v1/invitations`. -/
def inviteRoute (platform : Platform) (context : ApiRequestContext) (draws : InvitationDraws)
    (email : JsString) (role : InvitationalRole) : TenancyM JsString :=
  withTenant context .orgMembersInvite
    (inviteMember platform draws context.orgId context.userId email role)

/-! ## Revoking -/

/-- The row that a revocation finds. -/
def Db.revocable (db : Db) (orgId invitationId : Uuid) : List OrganizationInvitation :=
  db.invitations.filter fun row => row.orgId = orgId && row.id = invitationId && row.isOpen

def revokedEvent (context : ApiRequestContext) (row : OrganizationInvitation) :
    Audit.AuditEventInput where
  orgId := context.orgId
  actor := .user context.userId
  action := .membershipInvitationRevoked
  resourceType := ofAscii "organization_invitation"
  resourceId := some row.id.text
  before := some [(ofAscii "email", .string row.email),
    (ofAscii "role", .string (roleText row.role.role))]

/-- `DELETE /api/v1/invitations/:invitationId`. -/
def revokeRoute (context : ApiRequestContext) (now : Timestamp) (invitationId : Uuid) :
    TenancyM OrganizationInvitation :=
  withTenant context .orgMembersInvite (do
    let row ← Prog.execute (fun _ => [])
      (fun db : Db => (db.revocable context.orgId invitationId).map fun row =>
        .closeInvitation row.id (.revoked now))
      fun db => match (db.revocable context.orgId invitationId).head? with
        | some row => .ok row
        | none =>
          .error (.api 404 (ofAscii "NOT_FOUND") (ofAscii "Pending invitation not found"))
    recordInTransaction now (revokedEvent context row)
    pure ((Closing.revoked now).on row))

/-! ## Accepting -/

/-- The user of a session, and its address. -/
structure SignedIn where
  userId : Uuid
  email : JsString

def invitationInvalid : RequestError :=
  .tenancy .invitationInvalid (ofAscii "Invitation is invalid or expired")

/-- The membership that an acceptance creates. -/
def membershipOf (row : OrganizationInvitation) (orgId userId : Uuid) (now : Timestamp) :
    Membership where
  orgId := orgId
  userId := userId
  role := row.role.role
  status := .active
  invitedByUserId := some row.invitedByUserId
  createdAt := now
  updatedAt := now

/-- `INSERT INTO memberships`. -/
def insertMembership (row : Membership) : TenancyM Unit :=
  .execute (fun _ => []) (fun _ => [.insertMembership row]) fun db =>
    if db.membershipRows row.key ≠ [] then .error (.sql .uniqueViolation) else .ok ()

def acceptedEvent (orgId userId : Uuid) (role : InvitationalRole) : Audit.AuditEventInput where
  orgId := orgId
  actor := .user userId
  action := .membershipAccepted
  resourceType := ofAscii "membership"
  resourceId := some userId.text
  after := some [(ofAscii "role", .string (roleText role.role))]

/-- The invitation that the transaction of an acceptance locks. -/
def Db.lockable (db : Db) (orgId : Uuid) (now : Timestamp) (tokenHash : Bytes) :
    Option OrganizationInvitation :=
  db.invitations.find? fun row =>
    row.orgId = orgId && row.tokenHash = tokenHash && row.isOpen && decide (now < row.expiresAt)

/-- `acceptInvitation`: the organization. `resolvedAt` is the time of the first query and `now` that
of the transaction. -/
def acceptInvitation (platform : Platform) (user : SignedIn) (token : JsString)
    (resolvedAt now : Timestamp) : TenancyM Uuid := do
  let tokenHash := platform.primitives.digest token
  let resolved ← Prog.select fun db : Db => db.resolveInvitationOrg resolvedAt tokenHash
  let orgId ← expect resolved invitationInvalid
  let invitation ← Prog.selectForUpdate
    (fun db : Db => ((db.lockable orgId now tokenHash).map fun row => .invitation row.id).toList)
    fun db => db.lockable orgId now tokenHash
  let record ← expect invitation invitationInvalid
  let email ← Prog.ofExcept (normalizeEmail platform user.email)
  require (record.emailNormalized = email)
    (.tenancy .invitationEmailMismatch (ofAscii "Invitation belongs to another email address"))
  insertMembership (membershipOf record orgId user.userId now)
  .execute (fun _ => []) (fun _ => [.closeInvitation record.id (.accepted now user.userId)])
    fun _ => .ok ()
  recordInTransaction now (acceptedEvent orgId user.userId record.role)
  pure orgId

end Himitsu.Tenancy
