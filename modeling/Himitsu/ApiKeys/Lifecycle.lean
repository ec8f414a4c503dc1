import Himitsu.ApiKeys.Tables
import Himitsu.Library.Except
import Himitsu.Lifecycle.Rows
import Himitsu.Secrets.Traces

/-!
# The life of an API key

Model of `tokenPrefix` and of `list`, `create`, `revoke` and `authenticate` of `ApiKeyService` of
`packages/api-keys/src/index.ts`, and of `consume_api_key` and `resolve_api_key_identity` of
`0012_api_auth.sql`, as transactions that other transactions interleave.

* `ApiKeyService.authenticate` — a refusal of a key that is known commits, with its event.
* `does_create`, `does_revoke`, `does_authenticate` — what the calls find, write and answer.

Principal results: `run_create` — alone, `create` is the call that is given the rows of the table.
-/

set_option autoImplicit false

namespace Himitsu.ApiKeys

open JsString Crypto Database Services Transactions

variable {wrapper : KeyWrapper}

/-! ## Tokens -/

def invalidToken : ApiKeyError := ⟨.invalidToken, ofAscii "API token is invalid"⟩

/-- `[0-9a-f]`. -/
def isLowerHex (c : UInt16) : Bool := (0x30 ≤ c && c ≤ 0x39) || (0x61 ≤ c && c ≤ 0x66)

/-- `[A-Za-z0-9_-]`. -/
def isSecretUnit (c : UInt16) : Bool :=
  (0x41 ≤ c && c ≤ 0x5A) || (0x61 ≤ c && c ≤ 0x7A) || (0x30 ≤ c && c ≤ 0x39) || c == 0x5F || c == 0x2D

/-- `^(himi_[0-9a-f]{16})_[A-Za-z0-9_-]{43}$`, of which the group is the result. -/
def tokenPrefix (token : JsString) : Except ApiKeyError JsString :=
  let start := token.take 21
  let secret := token.drop 22
  if start.take 5 = ofAscii "himi_" ∧ start.length = 21 ∧ (start.drop 5).all isLowerHex ∧
      token[21]? = some 0x5F ∧ secret.length = 43 ∧ secret.all isSecretUnit then
    .ok start
  else .error invalidToken

/-! ## Transactions -/

abbrev KeyM (wrapper : KeyWrapper) := Prog (Tables wrapper) TableLock TableWrite Failure

/-- A step on the other tables. -/
def tenant {α : Type} (p : TransactionM wrapper α) : KeyM wrapper α :=
  (p.liftError .service).within Tables.db .tenant .tenant

def refuse {α : Type} (error : ApiKeyError) : KeyM wrapper α := .fail (.apiKey error)

def check {α : Type} (result : Except ApiKeyError α) : KeyM wrapper α :=
  .ofExcept (result.mapError .apiKey)

def notFound (message : String) : ApiKeyError := ⟨.notFound, ofAscii message⟩

/-- The constraints that an inserted row has to satisfy. -/
def checkRow (tables : Tables wrapper) (now : Timestamp) (row : StoredKey) :
    Except Failure Unit :=
  if tables.apiKeys.any fun other => other.id = row.id || other.tokenPrefix = row.tokenPrefix ||
      other.tokenHash = row.tokenHash then
    .error (.service (.sql .uniqueViolation))
  else if row.expiresAt.any (· ≤ now) || row.tokenHash.length ≠ 32 then
    .error (.service (.other (ofAscii "check_violation")))
  else .ok ()

/-- What the transaction of `authenticate` is given: its time, that of its first statement, and the
client. -/
structure Attempt where
  now : Timestamp
  statementTime : Timestamp
  ip : Option JsString
  userAgent : Option JsString

structure ApiKeyPrincipal where
  apiKeyId : Uuid
  orgId : Uuid
  userId : Uuid
  projectId : Option Uuid
  environmentId : Option Uuid
  access : ApiKeyAccess
  tokenPrefix : JsString
  usedAt : Int
  deriving DecidableEq

/-! ### Statements of `consume_api_key` -/

/-- The conditions on the columns of the key. -/
def StoredKey.accepts (row : StoredKey) (text : JsString) (hash : Bytes) (time : Timestamp) :
    Bool :=
  row.tokenPrefix = text && row.tokenHash = hash && hash.length = 32 && row.revokedAt.isNone &&
    row.expiresAt.all (time < ·)

/-- The conditions on the organization, the creator, the project and the environment. -/
def Tables.admits (tables : Tables wrapper) (row : StoredKey) : Bool :=
  tables.organizationDeletedAt.isNone &&
    (row.createdByUserId.any fun userId => tables.db.memberships.any fun membership =>
      membership.userId = userId && membership.active) &&
    (row.projectId.all fun projectId => tables.db.projects.any fun project =>
      project.id = projectId && project.deletedAt.isNone) &&
    row.environmentId.all fun environmentId => tables.db.environments.any fun environment =>
      row.projectId = some environment.projectId && environment.id = environmentId &&
        environment.deletedAt.isNone

def Tables.consumable (tables : Tables wrapper) (text : JsString) (hash : Bytes)
    (time : Timestamp) : List StoredKey :=
  tables.apiKeys.filter fun row => row.accepts text hash time && tables.admits row

/-- A row of the result of `consume_api_key`, in which `created_by_user_id` is no null. -/
structure ConsumedApiKeyRow where
  orgId : Uuid
  row : StoredKey
  createdByUserId : Uuid

def Tables.consumed (tables : Tables wrapper) (text : JsString) (hash : Bytes)
    (time : Timestamp) : Option ConsumedApiKeyRow :=
  (tables.consumable text hash time).findSome? fun row => row.createdByUserId.map fun userId =>
    ⟨tables.db.orgId, (KeyChange.used time).on row, userId⟩

def consumeApiKey (text : JsString) (hash : Bytes) (time : Timestamp) :
    KeyM wrapper (Option ConsumedApiKeyRow) :=
  .execute (fun _ => [])
    (fun tables => (tables.consumable text hash time).map fun row => .updateKey row.id (.used time))
    fun tables => .ok (tables.consumed text hash time)

structure ApiKeyIdentityRow where
  id : Uuid
  orgId : Uuid
  projectId : Option Uuid
  environmentId : Option Uuid

def resolveApiKeyIdentity (text : JsString) : KeyM wrapper (Option ApiKeyIdentityRow) :=
  Prog.select fun tables => (tables.apiKeys.find? (·.tokenPrefix = text)).map fun row =>
    ⟨row.id, tables.db.orgId, row.projectId, row.environmentId⟩

/-! ### Events -/

def loginFailedEvent (identity : ApiKeyIdentityRow) (request : Attempt) :
    Audit.AuditEventInput where
  orgId := identity.orgId
  actor := .apiKey identity.id
  action := .authLoginFailed
  resourceType := ofAscii "api_key"
  resourceId := some identity.id.text
  projectId := identity.projectId
  environmentId := identity.environmentId
  ip := request.ip
  userAgent := request.userAgent
  details := some [(ofAscii "method", .string (ofAscii "bearer")),
    (ofAscii "reason", .string (ofAscii "invalid_or_inactive"))]

def usedEvent (consumed : ConsumedApiKeyRow) (request : Attempt) : Audit.AuditEventInput where
  orgId := consumed.orgId
  actor := .apiKey consumed.row.id
  action := .apiKeyUsed
  resourceType := ofAscii "api_key"
  resourceId := some consumed.row.id.text
  projectId := consumed.row.projectId
  environmentId := consumed.row.environmentId
  ip := request.ip
  userAgent := request.userAgent
  details := some [(ofAscii "access", .string consumed.row.access.text)]

def revokedEvent (orgId userId : Uuid) (row : StoredKey) : Audit.AuditEventInput where
  orgId := orgId
  actor := .user userId
  action := .apiKeyRevoked
  resourceType := ofAscii "api_key"
  resourceId := some row.id.text
  projectId := row.projectId
  environmentId := row.environmentId
  before := some [(ofAscii "access", .string row.access.text), (ofAscii "revoked", .bool false)]
  after := some [(ofAscii "access", .string row.access.text), (ofAscii "revoked", .bool true)]

def ConsumedApiKeyRow.principal (consumed : ConsumedApiKeyRow) (time : Timestamp) :
    ApiKeyPrincipal where
  apiKeyId := consumed.row.id
  orgId := consumed.orgId
  userId := consumed.createdByUserId
  projectId := consumed.row.projectId
  environmentId := consumed.row.environmentId
  access := consumed.row.access
  tokenPrefix := consumed.row.tokenPrefix
  usedAt := toDate (consumed.row.lastUsedAt.getD time)

/-! ### Calls -/

namespace ApiKeyService

def list (userId : Uuid) : KeyM wrapper (List ApiKey) := do
  tenant (authorizeUser userId none false .apiKeyRead)
  let rows ← Prog.select fun tables : Tables wrapper =>
    orderBy newestFirst (tables.apiKeys.map (·.toApiKeyRow))
  pure (rows.map fromRow)

variable (digest : JsString → Bytes)

/-- The row that `create` inserts. -/
def newRow (draws : Draws) (token : TokenDraws) (userId : Uuid) (input : CreateInput)
    (name : JsString) (expiresAt : Option Int) : StoredKey where
  id := draws.uuid 0
  projectId := input.projectId
  environmentId := input.environmentId
  name := name
  tokenPrefix := token.tokenPrefix
  access := input.access
  createdAt := draws.now
  expiresAt := expiresAt.map fromDate
  revokedAt := none
  tokenHash := digest token.token
  createdByUserId := some userId
  lastUsedAt := none

/-- The `INSERT` of `create` and its event. -/
def insertKey (now : Timestamp) (userId : Uuid) (row : StoredKey) (token : JsString) :
    KeyM wrapper CreatedApiKey := do
  let orgId ← Prog.execute (fun _ => []) (fun _ => [.insertKey row])
    fun tables : Tables wrapper => (checkRow tables now row).map fun _ => tables.db.orgId
  tenant (Audit.recordInTransaction now (createdEvent orgId userId (fromRow row.toApiKeyRow)))
  pure ⟨fromRow row.toApiKeyRow, token⟩

def create (draws : Draws) (token : TokenDraws) (userId : Uuid) (input : CreateInput) :
    KeyM wrapper CreatedApiKey :=
  if input.environmentId.isSome && input.projectId.isNone then
    refuse (invalidInput "Environment-scoped API keys require a project")
  else do
    tenant (authorizeUser userId input.projectId false .apiKeyCreate)
    let scope ← Prog.select fun tables : Tables wrapper =>
      validateScope tables.db input.projectId input.environmentId
    check scope
    let expiresAt ← check (expiry input.expiresAt draws.clock)
    let name ← check (apiKeyName input.name)
    let name ← .ofExcept ((storedText name).mapError fun state => .service (.sql state))
    insertKey draws.now userId (newRow digest draws token userId input name expiresAt) token.token

def revoke (draws : Draws) (userId apiKeyId : Uuid) : KeyM wrapper ApiKey := do
  let existing ← Prog.selectForUpdate
    (fun tables : Tables wrapper => (tables.keyRows apiKeyId).map fun row => .key row.id)
    fun tables => (tables.keyRows apiKeyId).head?
  match existing with
  | none => refuse (notFound "API key not found")
  | some row => do
    tenant (authorizeUser userId row.projectId false .apiKeyRevoke)
    if row.revokedAt.isSome then pure (fromRow row.toApiKeyRow)
    else do
      let updated ← Prog.execute (fun _ => [])
        (fun _ => [.updateKey apiKeyId (.revoked draws.now)])
        fun tables : Tables wrapper => .ok ((tables.keyRows apiKeyId).head?.map fun row =>
          (tables.db.orgId, (KeyChange.revoked draws.now).on row))
      match updated with
      | none => refuse (notFound "API key not found")
      | some (orgId, revoked) => do
        tenant (Audit.recordInTransaction draws.now (revokedEvent orgId userId row))
        pure (fromRow revoked.toApiKeyRow)

/-- The transaction after `BEGIN`. A refusal is thrown; it is an answer where it is thrown after
`COMMIT`. -/
def consume (text : JsString) (hash : Bytes) (request : Attempt) :
    KeyM wrapper (Except ApiKeyError ApiKeyPrincipal) := do
  let consumed ← consumeApiKey text hash request.statementTime
  match consumed with
  | some row => do
    tenant (Audit.recordInTransaction request.now (usedEvent row request))
    pure (.ok (row.principal request.statementTime))
  | none => do
    let identity ← resolveApiKeyIdentity text
    match identity with
    | some identity => do
      tenant (Audit.recordInTransaction request.now (loginFailedEvent identity request))
      pure (.error invalidToken)
    | none => refuse invalidToken

def authenticate (token : JsString) (request : Attempt) :
    KeyM wrapper (Except ApiKeyError ApiKeyPrincipal) := do
  let text ← check (tokenPrefix token)
  (consume text (digest token) request).mapError fun _ => .apiKey invalidToken

end ApiKeyService

/-! ## Calls alone -/

/-- A step on the other tables, alone. -/
theorem run_tenant {α : Type} (p : TransactionM wrapper α) (tables : Tables wrapper) :
    run apply (tenant p) tables =
      (inTransaction p tables.db).map fun r => (r.1, { tables with db := r.2 }) := by
  have hview (w : Write) (tables : Tables wrapper) :
      (apply (.tenant w) tables).db = Database.apply w tables.db := rfl
  have hwithin := run_within TableLock.tenant
    (fun tables : Tables wrapper => (tables.organizationDeletedAt, tables.apiKeys)) hview
    (fun _ _ => rfl) (p.liftError Failure.service) tables
  rw [run_liftError] at hwithin
  change (run apply (tenant p) tables).map _ = (inTransaction p tables.db).map _ at hwithin
  cases hleft : run apply (tenant p) tables with
  | error e =>
    cases hright : inTransaction p tables.db with
    | error e' =>
      rw [hleft, hright] at hwithin
      cases hwithin
      rfl
    | ok r =>
      rw [hleft, hright] at hwithin
      cases hwithin
  | ok r =>
    cases hright : inTransaction p tables.db with
    | error e =>
      rw [hleft, hright] at hwithin
      cases hwithin
    | ok r' =>
      rw [hleft, hright] at hwithin
      obtain ⟨a, db, deletedAt, keys⟩ := r
      cases hwithin
      rfl

theorem run_tenant_pure {α β : Type} (p : TransactionM wrapper α) (b : β) (tables : Tables wrapper) :
    run apply ((tenant p).bind fun _ => pure b) tables =
      (inTransaction p tables.db).map fun r => (b, { tables with db := r.2 }) := by
  change run apply (tenant p >>= fun _ => pure b) tables = _
  rw [run_bind, run_tenant]
  cases inTransaction p tables.db <;> rfl

theorem inTransaction_authorizeUser {userId : Uuid} {projectId : Option Uuid} {isProtected : Bool}
    {permission : Authz.Permission} {db : Db wrapper} {r : Unit × Db wrapper}
    (h : inTransaction (authorizeUser userId projectId isProtected permission) db = .ok r) :
    r.2 = db := by
  unfold inTransaction at h
  cases hrun : run Database.apply (authorizeUser userId projectId isProtected permission) db with
  | error e =>
    rw [hrun] at h
    cases h
  | ok r' =>
    rw [hrun] at h
    cases h
    exact Lifecycle.readOnly_authorizeUser userId projectId isProtected permission db _ _ hrun

theorem any_eq_of_forall {α : Type} {p q : α → Bool} {as : List α} (h : ∀ a ∈ as, p a = q a) :
    as.any p = as.any q := by
  rw [Bool.eq_iff_iff, List.any_eq_true, List.any_eq_true]
  exact exists_congr fun a => and_congr_right fun ha => by rw [h a ha]

/-- The table is checked as the call that is given its rows checks them. -/
theorem checkRow_eq {tables : Tables wrapper} {now : Timestamp} {row : StoredKey}
    (hfresh : ∀ other ∈ tables.apiKeys, other.tokenHash ≠ row.tokenHash)
    (hlength : row.tokenHash.length = 32) :
    (checkRow tables now row).map (fun _ => row.toApiKeyRow) =
      (insertRow (tables.apiKeys.map (·.toApiKeyRow)) now row.toApiKeyRow).mapError .service := by
  have hany : (tables.apiKeys.any fun other => other.id = row.id ||
      other.tokenPrefix = row.tokenPrefix || other.tokenHash = row.tokenHash) =
      (tables.apiKeys.map (·.toApiKeyRow)).any fun other => other.id = row.id ||
        other.tokenPrefix = row.tokenPrefix := by
    rw [List.any_map]
    refine any_eq_of_forall fun other hother => ?_
    simp [hfresh other hother]
  unfold checkRow insertRow
  rw [hany, hlength]
  split
  · rfl
  · by_cases hexpired : row.expiresAt.any (· ≤ now) = true
    · simp [hexpired, Except.map, Except.mapError]
    · simp [hexpired, Except.map, Except.mapError]

theorem run_insertKey {tables : Tables wrapper} (now : Timestamp) (userId : Uuid) (token : JsString)
    (row : StoredKey) (hfresh : ∀ other ∈ tables.apiKeys, other.tokenHash ≠ row.tokenHash)
    (hlength : row.tokenHash.length = 32) :
    (run apply (ApiKeyService.insertKey now userId row token) tables).map
        (fun r => (r.1, r.2.apiKeys.map (·.toApiKeyRow), r.2.db)) =
      ((insertRow (tables.apiKeys.map (·.toApiKeyRow)) now row.toApiKeyRow).mapError
        Failure.service).bind fun row =>
          (inTransaction (Audit.recordInTransaction now (createdEvent tables.db.orgId userId
            (fromRow row))) tables.db).map fun r =>
              (⟨fromRow row, token⟩, tables.apiKeys.map (·.toApiKeyRow) ++ [row], r.2) := by
  rw [← checkRow_eq hfresh hlength]
  unfold ApiKeyService.insertKey
  rw [run_execute_bind]
  cases checkRow tables now row with
  | error e => rfl
  | ok u =>
    have hdb : (apply (.insertKey row) tables).db = tables.db := rfl
    simp only [Except.map, Except.bind, bind]
    rw [applyAll_cons, applyAll_nil, run_tenant_pure, hdb]
    cases inTransaction (Audit.recordInTransaction now
        (createdEvent tables.db.orgId userId (fromRow row.toApiKeyRow))) tables.db with
    | error e => rfl
    | ok r => simp [apply, Except.map]

/-- **Alone, a creation is the call that is given the rows of the table**, where its digest is new
and has its length. -/
theorem run_create {digest : JsString → Bytes} {draws : Draws} {token : TokenDraws} {userId : Uuid}
    {input : CreateInput} {tables : Tables wrapper}
    (hfresh : ∀ other ∈ tables.apiKeys, other.tokenHash ≠ digest token.token)
    (hlength : (digest token.token).length = 32) :
    (run apply (ApiKeyService.create digest draws token userId input) tables).map (fun r =>
        (r.1, r.2.apiKeys.map (·.toApiKeyRow), r.2.db)) =
      (create draws token userId input (tables.apiKeys.map (·.toApiKeyRow)) tables.db).map fun r =>
        (r.1, tables.apiKeys.map (·.toApiKeyRow) ++ [r.2.1], r.2.2) := by
  unfold ApiKeyService.create create
  split
  · rfl
  rw [run_bind, run_tenant]
  cases hauthorize : inTransaction (authorizeUser userId input.projectId false .apiKeyCreate)
      tables.db with
  | error e => rfl
  | ok r =>
    have hsame := inTransaction_authorizeUser hauthorize
    obtain ⟨u, db⟩ := r
    obtain rfl : db = tables.db := hsame
    change (run apply (check (validateScope tables.db input.projectId input.environmentId) >>= _)
      tables).map _ = ((validateScope tables.db input.projectId input.environmentId).mapError
        Failure.apiKey >>= _).map _
    unfold check
    rw [run_ofExcept_bind]
    cases (validateScope tables.db input.projectId input.environmentId).mapError Failure.apiKey with
    | error e => rfl
    | ok _ =>
      change (run apply (Prog.ofExcept _ >>= _) tables).map _ = (_ >>= _ : Except _ _).map _
      rw [run_ofExcept_bind]
      cases (expiry input.expiresAt draws.clock).mapError Failure.apiKey with
      | error e => rfl
      | ok expiresAt =>
        change (run apply (Prog.ofExcept _ >>= _) tables).map _ = (_ >>= _ : Except _ _).map _
        rw [run_ofExcept_bind]
        cases (apiKeyName input.name).mapError Failure.apiKey with
        | error e => rfl
        | ok name =>
          change (run apply (Prog.ofExcept _ >>= _) tables).map _ =
            ((storedText name).mapError (fun state => Failure.service (.sql state)) >>= _).map _
          rw [run_ofExcept_bind]
          cases (storedText name).mapError fun state => Failure.service (.sql state) with
          | error e => rfl
          | ok name =>
            have hinsert := run_insertKey draws.now userId token.token
              (ApiKeyService.newRow digest draws token userId input name expiresAt) hfresh hlength
            simp only [ApiKeyService.newRow, Except.map, Except.mapError, Except.bind, bind]
              at hinsert ⊢
            refine hinsert.trans ?_
            cases insertRow (tables.apiKeys.map (·.toApiKeyRow)) draws.now
                ⟨draws.uuid 0, input.projectId, input.environmentId, name, token.tokenPrefix,
                  input.access, draws.now, expiresAt.map fromDate, none⟩ with
            | error e => rfl
            | ok row =>
              simp only
              cases inTransaction (Audit.recordInTransaction draws.now
                (createdEvent tables.db.orgId userId (fromRow row))) tables.db <;> rfl

/-! ## What the calls do -/

abbrev KeyStatement (wrapper : KeyWrapper) := Statement (Tables wrapper) TableLock TableWrite

section

variable {stmts : List (KeyStatement wrapper)} {ws : List TableWrite}

theorem does_check {α : Type} {result : Except ApiKeyError α} {a : α} :
    Does (check result : KeyM wrapper α) stmts ws a ↔ stmts = [] ∧ ws = [] ∧ result = .ok a := by
  rw [check, does_ofExcept]
  cases result <;> simp [Except.mapError]

theorem does_tenant {α : Type} {p : TransactionM wrapper α} {a : α}
    (h : Does (tenant p) stmts ws a) :
    ∃ inner written, Does p inner written a ∧ ws = written.map .tenant := by
  obtain ⟨inner, written, hdoes, -, hws⟩ := does_within h
  exact ⟨inner, written, does_liftError.mp hdoes, hws⟩

theorem does_tenant_authorizeUser {userId : Uuid} {projectId : Option Uuid} {isProtected : Bool}
    {permission : Authz.Permission} {u : Unit}
    (h : Does (tenant (authorizeUser userId projectId isProtected permission) : KeyM wrapper Unit)
      stmts ws u) : ws = [] := by
  obtain ⟨_, written, hdoes, rfl⟩ := does_tenant h
  rw [Secrets.does_authorizeUser hdoes, List.map_nil]

/-- The event of a record. -/
theorem does_tenant_record {now : Timestamp} {event : Audit.AuditEventInput} {u : Unit}
    (h : Does (tenant (Audit.recordInTransaction now event) : KeyM wrapper Unit) stmts ws u) :
    ∃ metadata, ws = [.tenant (.insertAuditEvent (Audit.eventRow event metadata now))] := by
  obtain ⟨_, written, hdoes, rfl⟩ := does_tenant h
  obtain ⟨metadata, -, rfl⟩ := Secrets.does_record hdoes
  exact ⟨metadata, rfl⟩

theorem expiry_eq {value expiresAt : Option Int} {now : Int} (h : expiry value now = .ok expiresAt) :
    expiresAt = value := by
  unfold expiry at h
  split at h
  · exact (Except.ok.inj h).symm
  · split at h
    · cases h
    · exact (Except.ok.inj h).symm

theorem orgId_of_checked {tables : Tables wrapper} {now : Timestamp} {row : StoredKey} {orgId : Uuid}
    (h : (checkRow tables now row).map (fun _ => tables.db.orgId) = .ok orgId) :
    checkRow tables now row = .ok () ∧ orgId = tables.db.orgId := by
  cases hchecked : checkRow tables now row with
  | error e =>
    rw [hchecked] at h
    cases h
  | ok u =>
    rw [hchecked] at h
    exact ⟨rfl, (Except.ok.inj h).symm⟩

/-- A creation writes its row, after it has checked it, and one event. -/
theorem does_create {digest : JsString → Bytes} {draws : Draws} {token : TokenDraws} {userId : Uuid}
    {input : CreateInput} {created : CreatedApiKey}
    (h : Does (ApiKeyService.create digest draws token userId input : KeyM wrapper CreatedApiKey)
      stmts ws created) :
    ∃ name before x after metadata,
      let row := ApiKeyService.newRow digest draws token userId input name input.expiresAt
      stmts = before ++ x :: after ∧ before.flatMap (·.writes) = [] ∧ x.writes = [.insertKey row] ∧
        checkRow x.view draws.now row = .ok () ∧
        ws = [.insertKey row, .tenant (.insertAuditEvent (Audit.eventRow
          (createdEvent x.view.db.orgId userId (fromRow row.toApiKeyRow)) metadata draws.now))] ∧
        created = ⟨fromRow row.toApiKeyRow, token.token⟩ := by
  unfold ApiKeyService.create at h
  obtain ⟨-, h₁⟩ | ⟨-, h₁⟩ := does_ite.mp h
  · exact absurd h₁ does_fail
  obtain ⟨_, stmts₁, _, _, _, hauthorize, h₂, rfl, rfl⟩ := does_bind.mp h₁
  obtain rfl := does_tenant_authorizeUser hauthorize
  obtain ⟨_, _, _, _, _, hscope, h₃, rfl, rfl⟩ := does_bind.mp h₂
  obtain ⟨tables, rfl, rfl, rfl⟩ := does_select.mp hscope
  obtain ⟨_, _, _, _, _, hchecked, h₄, rfl, rfl⟩ := does_bind.mp h₃
  obtain ⟨rfl, rfl, -⟩ := does_check.mp hchecked
  obtain ⟨expiresAt, _, _, _, _, hexpiry, h₅, rfl, rfl⟩ := does_bind.mp h₄
  obtain ⟨rfl, rfl, hexpires⟩ := does_check.mp hexpiry
  obtain rfl := expiry_eq hexpires
  obtain ⟨_, _, _, _, _, hname, h₆, rfl, rfl⟩ := does_bind.mp h₅
  obtain ⟨rfl, rfl, -⟩ := does_check.mp hname
  obtain ⟨name, _, _, _, _, hstored, h₇, rfl, rfl⟩ := does_bind.mp h₆
  obtain ⟨rfl, rfl, -⟩ := does_ofExcept.mp hstored
  unfold ApiKeyService.insertKey at h₇
  obtain ⟨orgId, _, _, _, _, hinsert, h₈, rfl, rfl⟩ := does_bind.mp h₇
  obtain ⟨view, rfl, rfl, hrow⟩ := does_execute.mp hinsert
  obtain ⟨_, recorded, _, _, _, hrecord, h₉, rfl, rfl⟩ := does_bind.mp h₈
  obtain ⟨rfl, rfl, rfl⟩ := does_ok.mp h₉
  obtain ⟨hchecked, rfl⟩ := orgId_of_checked hrow
  obtain ⟨metadata, rfl⟩ := does_tenant_record hrecord
  have hnone : stmts₁.flatMap (·.writes) = [] := hauthorize.writes.symm
  refine ⟨name, stmts₁ ++ [⟨tables, [], []⟩], ⟨view, [], [.insertKey _]⟩, recorded, metadata, ?_,
    ?_, rfl, hchecked, rfl, rfl⟩
  · simp only [List.nil_append, List.append_nil, List.append_assoc, List.singleton_append]
  · rw [List.flatMap_append, hnone]
    rfl

/-- A revocation finds a row and locks it; it writes unless the row is revoked already. -/
theorem does_revoke {draws : Draws} {userId apiKeyId : Uuid} {revoked : ApiKey}
    (h : Does (ApiKeyService.revoke draws userId apiKeyId : KeyM wrapper ApiKey) stmts ws revoked) :
    ∃ x after row, stmts = x :: after ∧ row ∈ x.view.keyRows apiKeyId ∧
      TableLock.key apiKeyId ∈ x.locks ∧
      ((row.revokedAt.isSome ∧ ws = [] ∧ revoked = fromRow row.toApiKeyRow) ∨
        (row.revokedAt = none ∧ ∃ orgId metadata other, other.id = apiKeyId ∧
          ws = [.updateKey apiKeyId (.revoked draws.now), .tenant (.insertAuditEvent
            (Audit.eventRow (revokedEvent orgId userId row) metadata draws.now))] ∧
          revoked = fromRow ((KeyChange.revoked draws.now).on other).toApiKeyRow)) := by
  unfold ApiKeyService.revoke at h
  obtain ⟨existing, _, _, rest, _, hselect, h₁, rfl, rfl⟩ := does_bind.mp h
  obtain ⟨view, rfl, rfl, rfl⟩ := does_selectForUpdate.mp hselect
  cases hrow : (view.keyRows apiKeyId).head? with
  | none =>
    rw [hrow] at h₁
    exact absurd h₁ does_fail
  | some row =>
    rw [hrow] at h₁
    have hmem := List.mem_of_head? hrow
    refine ⟨⟨view, _, _⟩, rest, row, rfl, hmem, ?_, ?_⟩
    · exact List.mem_map.mpr ⟨row, hmem, congrArg TableLock.key (mem_keyRows.mp hmem).2⟩
    · obtain ⟨_, _, _, _, _, hauthorize, h₂, rfl, rfl⟩ := does_bind.mp h₁
      obtain rfl := does_tenant_authorizeUser hauthorize
      obtain ⟨hrevoked, h₃⟩ | ⟨hrevoked, h₃⟩ := does_ite.mp h₂
      · obtain ⟨rfl, rfl, rfl⟩ := does_ok.mp h₃
        exact .inl ⟨hrevoked, rfl, rfl⟩
      · obtain ⟨updated, _, _, _, _, hupdate, h₄, rfl, rfl⟩ := does_bind.mp h₃
        obtain ⟨view', rfl, rfl, hupdated⟩ := does_execute.mp hupdate
        obtain rfl := Except.ok.inj hupdated
        cases hother : (view'.keyRows apiKeyId).head? with
        | none =>
          rw [hother] at h₄
          exact absurd h₄ does_fail
        | some other =>
          rw [hother] at h₄
          obtain ⟨_, _, _, _, _, hrecord, h₅, rfl, rfl⟩ := does_bind.mp h₄
          obtain ⟨rfl, rfl, rfl⟩ := does_ok.mp h₅
          obtain ⟨metadata, rfl⟩ := does_tenant_record hrecord
          refine .inr ⟨by simpa using hrevoked, view'.db.orgId, metadata, other, ?_, rfl, rfl⟩
          exact (mem_keyRows.mp (List.mem_of_head? hother)).2

/-! ### Authentications -/

theorem mem_consumable {tables : Tables wrapper} {text : JsString} {hash : Bytes}
    {time : Timestamp} {row : StoredKey} : row ∈ tables.consumable text hash time ↔
      row ∈ tables.apiKeys ∧ row.accepts text hash time = true ∧ tables.admits row = true := by
  simp [Tables.consumable]

theorem consumed_eq_some {tables : Tables wrapper} {text : JsString} {hash : Bytes}
    {time : Timestamp} {consumed : ConsumedApiKeyRow}
    (h : tables.consumed text hash time = some consumed) :
    ∃ row ∈ tables.consumable text hash time, row.createdByUserId = some consumed.createdByUserId ∧
      consumed = ⟨tables.db.orgId, (KeyChange.used time).on row, consumed.createdByUserId⟩ := by
  obtain ⟨row, hrow, hmap⟩ := List.exists_of_findSome?_eq_some h
  obtain ⟨userId, hcreator, rfl⟩ := Option.map_eq_some_iff.mp hmap
  exact ⟨row, hrow, hcreator, rfl⟩

/-- A key that is admitted has a creator. -/
theorem consumable_eq_nil {tables : Tables wrapper} {text : JsString} {hash : Bytes}
    {time : Timestamp} (h : tables.consumed text hash time = none) :
    tables.consumable text hash time = [] := by
  rw [List.eq_nil_iff_forall_not_mem]
  intro row hrow
  have hnone := List.findSome?_eq_none_iff.mp h row hrow
  rw [Option.map_eq_none_iff] at hnone
  have hadmits := (mem_consumable.mp hrow).2.2
  simp [Tables.admits, hnone] at hadmits

/-- The writes of `consume_api_key`. -/
def usesOf (rows : List StoredKey) (time : Timestamp) : List TableWrite :=
  rows.map fun row => .updateKey row.id (.used time)

/-- **An authentication is one statement on the keys** and an event: that of a use with a principal,
that of a failed login without one. -/
theorem does_authenticate {digest : JsString → Bytes} {token : JsString} {request : Attempt}
    {result : Except ApiKeyError ApiKeyPrincipal}
    (h : Does (ApiKeyService.authenticate digest token request : KeyM wrapper _) stmts ws result) :
    ∃ text x after metadata, tokenPrefix token = .ok text ∧ stmts = x :: after ∧
      x.writes = usesOf (x.view.consumable text (digest token) request.statementTime)
        request.statementTime ∧
      ((∃ consumed, x.view.consumed text (digest token) request.statementTime = some consumed ∧
          result = .ok (consumed.principal request.statementTime) ∧
          ws = x.writes ++ [.tenant (.insertAuditEvent
            (Audit.eventRow (usedEvent consumed request) metadata request.now))]) ∨
        (x.view.consumable text (digest token) request.statementTime = [] ∧
          result = .error invalidToken ∧ ∃ identity : ApiKeyIdentityRow,
          ws = [.tenant (.insertAuditEvent
            (Audit.eventRow (loginFailedEvent identity request) metadata request.now))])) := by
  unfold ApiKeyService.authenticate at h
  obtain ⟨text, _, _, _, _, hinitial, h₁, rfl, rfl⟩ := does_bind.mp h
  obtain ⟨rfl, rfl, htext⟩ := does_check.mp hinitial
  rw [does_mapError] at h₁
  unfold ApiKeyService.consume at h₁
  obtain ⟨found, _, _, rest, _, hconsume, h₂, rfl, rfl⟩ := does_bind.mp h₁
  obtain ⟨view, rfl, rfl, hfound⟩ := does_execute.mp hconsume
  obtain rfl := Except.ok.inj hfound
  cases hconsumed : view.consumed text (digest token) request.statementTime with
  | some consumed =>
    rw [hconsumed] at h₂
    obtain ⟨_, _, _, _, _, hrecord, h₃, rfl, rfl⟩ := does_bind.mp h₂
    obtain ⟨rfl, rfl, rfl⟩ := does_ok.mp h₃
    obtain ⟨metadata, rfl⟩ := does_tenant_record hrecord
    exact ⟨text, _, _, metadata, htext, rfl, rfl, .inl ⟨consumed, hconsumed, rfl, rfl⟩⟩
  | none =>
    rw [hconsumed] at h₂
    have hnil := consumable_eq_nil hconsumed
    obtain ⟨identity, _, _, _, _, hresolve, h₄, rfl, rfl⟩ := does_bind.mp h₂
    obtain ⟨_, rfl, rfl, -⟩ := does_select.mp hresolve
    cases identity with
    | none => exact absurd h₄ does_fail
    | some identity =>
      obtain ⟨_, _, _, _, _, hrecord, h₅, rfl, rfl⟩ := does_bind.mp h₄
      obtain ⟨rfl, rfl, rfl⟩ := does_ok.mp h₅
      obtain ⟨metadata, rfl⟩ := does_tenant_record hrecord
      refine ⟨text, _, _, metadata, htext, rfl, rfl, .inr ⟨hnil, rfl, identity, ?_⟩⟩
      rw [hnil]
      rfl

theorem does_list {userId : Uuid} {keys : List ApiKey}
    (h : Does (ApiKeyService.list userId : KeyM wrapper (List ApiKey)) stmts ws keys) : ws = [] := by
  unfold ApiKeyService.list at h
  obtain ⟨_, _, _, _, _, hauthorize, h₁, rfl, rfl⟩ := does_bind.mp h
  obtain rfl := does_tenant_authorizeUser hauthorize
  obtain ⟨_, _, _, _, _, hselect, h₂, rfl, rfl⟩ := does_bind.mp h₁
  obtain ⟨_, rfl, rfl, rfl⟩ := does_select.mp hselect
  obtain ⟨rfl, rfl, rfl⟩ := does_ok.mp h₂
  rfl

end

end Himitsu.ApiKeys
