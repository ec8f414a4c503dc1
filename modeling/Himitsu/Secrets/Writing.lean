import Himitsu.Secrets.Rows

/-!
# Writes of the secret service

Model of `#create`, `#writeMetadata`, `#writeVersion` and `#replaceTags` of `SecretService` of
`packages/secrets/src/index.ts`, with the constraints of the tables they write: the primary key
and the key of `secrets`, the versions of `secret_versions` and the range of `integer`.
-/

set_option autoImplicit false

namespace Himitsu.Secrets

open JsString Crypto Database Services Transactions

structure SetSecretInput where
  key : JsString
  value : JsString
  notes : Option (Option JsString) := none
  changeNote : Option JsString := none
  allowNonConformingKey : Bool := false
  tagIds : Option (List Uuid) := none

/-- The argument of `#writeVersion`; what the source leaves out is `none`. -/
structure VersionInput where
  value : JsString
  notes : Option (Option JsString) := none
  changeNote : Option JsString := none
  tagIds : Option (List Uuid) := none

/-- The action of `#writeVersion`. -/
inductive VersionAction where
  | created
  | updated
  deriving DecidableEq, Repr

def VersionAction.auditAction : VersionAction → Audit.AuditAction
  | .created => .secretCreated
  | .updated => .secretUpdated

variable {wrapper : KeyWrapper} (platform : Platform)

/-- The event of an action on a secret. -/
def secretEvent (orgId userId : Uuid) (action : Audit.AuditAction) (secret : Secret) :
    Audit.AuditEventInput where
  orgId := orgId
  actor := .user userId
  action := action
  resourceType := ofAscii "secret"
  resourceId := some secret.id.text
  projectId := some secret.projectId
  environmentId := some secret.environmentId

/-- The properties that the events record of a secret. -/
def secretProperties (secret : Secret) : Audit.Metadata :=
  [(ofAscii "key", .string secret.key), (ofAscii "version", .number (ofNat secret.currentVersion)),
    (ofAscii "notesPresent", .bool secret.notes.isSome)]

/-! ## Tags -/

/-- `#replaceTags`. -/
def replaceTags (secretId : Uuid) (tagIds : List Uuid) : TransactionM wrapper Unit := do
  let uniqueTagIds := tagIds.reverse.dedup.reverse
  if uniqueTagIds.length > 50 then
    raise (invalidInput (ofAscii "A secret can have at most 50 tags"))
  else
    let found ← Prog.select fun db : Db wrapper =>
      db.tags.countP fun tag => uniqueTagIds.contains tag.id
    if uniqueTagIds.length > 0 ∧ found ≠ uniqueTagIds.length then
      raise (secretError .tagNotFound
        (ofAscii "One or more secret tags do not exist in this organization"))
    else
      .execute (fun _ => []) (fun _ => [.deleteSecretTags secretId]) fun _ => .ok ()
      .execute (fun _ => [])
        (fun _ => uniqueTagIds.map fun tagId => .insertSecretTag ⟨secretId, tagId⟩)
        fun _ => .ok ()

/-! ## Values -/

/-- The `INSERT` into `secret_versions`. -/
def insertVersion (row : SecretVersion) : TransactionM wrapper Unit :=
  .execute (fun _ => []) (fun _ => [.insertSecretVersion row]) fun db =>
    if row.version > MAX_INTEGER then .error (.sql .numericValueOutOfRange)
    else if db.secretVersions.any fun other =>
        other.secretId = row.secretId && other.version = row.version then
      .error (.sql .uniqueViolation)
    else .ok ()

/-- An `UPDATE secrets SET … WHERE id = … AND deleted_at IS NULL RETURNING …`. -/
def updateSecretRow (secretId : Uuid) (set : SecretSet) :
    TransactionM wrapper (Option Secret) :=
  let p := fun row : Secret => row.id = secretId && row.deletedAt.isNone
  .execute (fun _ => []) (fun db => (db.secrets.filter p).map fun row => .updateSecret row.id set)
    fun db => .ok ((db.secrets.find? p).map set.on)

/-- The version that `#writeVersion` inserts. -/
def newVersion (before : Secret) (userId : Uuid) (changeNote : Option JsString) (now : Timestamp)
    (encrypted : EncryptedSecretValue) : SecretVersion where
  projectId := before.projectId
  environmentId := before.environmentId
  secretId := before.id
  version := before.currentVersion + 1
  valueCiphertext := encrypted.ciphertext
  nonce := encrypted.nonce
  authTag := encrypted.authTag
  encryptionKeyVersion := encrypted.keyVersion
  authorUserId := some userId
  changeNote := changeNote
  createdAt := now

/-- The event of `#writeVersion`. -/
def versionEvent (orgId userId : Uuid) (action : VersionAction) (before after : Secret) :
    Audit.AuditEventInput :=
  { secretEvent orgId userId action.auditAction after with
    before := match action with
      | .created => none
      | .updated => some (secretProperties before)
    after := some (secretProperties after) }

/-- `#writeVersion`; `n` numbers the draws of the call. -/
def writeVersion (draws : Draws) (n : Nat) (userId : Uuid) (before : SecretRow)
    (input : VersionInput) (action : VersionAction) (recordAudit : Bool) :
    TransactionM wrapper SecretMetadata := do
  let plaintext ← attempt .secret (validateSecretValue input.value)
  let notes ← checkedOr .secret before.secret.notes validateNotes input.notes
  let changeNote ← attempt .secret (validateChangeNote input.changeNote)
  let nextVersion := before.secret.currentVersion + 1
  let encrypted ← encrypt platform draws n plaintext
    (contextOf before.orgId before.secret nextVersion)
  let changeNote ← attempt .sql (storedOptional changeNote)
  insertVersion (newVersion before.secret userId changeNote draws.now encrypted)
  let notes ← attempt .sql (storedOptional notes)
  let updated ← updateSecretRow before.secret.id
    { currentVersion := some nextVersion, notes := some notes, updatedAt := draws.now }
  match updated with
  | none => raise (notFound "Secret not found")
  | some row => do
    doIf input.tagIds.isSome (replaceTags row.id (input.tagIds.getD []))
    doIf recordAudit (Audit.recordInTransaction draws.now
      (versionEvent before.orgId userId action before.secret row))
    let after ← metadataRow platform row.id false
    pure (metadataFromRow after)

structure MetadataInput where
  notes : Option (Option JsString)
  tagIds : Option (List Uuid)

/-- `#writeMetadata`. -/
def writeMetadata (draws : Draws) (userId : Uuid) (before : SecretRow) (input : MetadataInput) :
    TransactionM wrapper SecretMetadata := do
  let notes ← checkedOr .secret before.secret.notes validateNotes input.notes
  let notes ← attempt .sql (storedOptional notes)
  let updated ← updateSecretRow before.secret.id
    { notes := some notes, updatedAt := draws.now }
  match updated with
  | none => raise (notFound "Secret not found")
  | some row => do
    doIf input.tagIds.isSome (replaceTags row.id (input.tagIds.getD []))
    Audit.recordInTransaction draws.now
      { secretEvent before.orgId userId .secretUpdated row with
        before := some (secretProperties before.secret)
        after := some (secretProperties row ++ [(ofAscii "valueChanged", .bool false)]) }
    let after ← metadataRow platform row.id false
    pure (metadataFromRow after)

/-! ## Creation -/

/-- The deleted row that `#create` recovers: one that was not deleted with its environment or its
project. -/
def isRecoverable (projectId environmentId : Uuid) (key : JsString) (row : Secret) : Bool :=
  row.projectId = projectId && row.environmentId = environmentId && row.key = key &&
    row.deletedAt.isSome && row.deletedByProjectAt.isNone && row.deletedByEnvironmentAt.isNone

/-- The lookup of `#create`. -/
def recoverableRow (projectId environmentId : Uuid) (key : JsString) :
    TransactionM wrapper (Option SecretRow) :=
  let p := isRecoverable projectId environmentId key
  Prog.selectForUpdate (fun db => (db.secrets.filter p).map fun row => .secret row.id)
    fun db => (db.secrets.find? p).map (selectSecret platform db)

/-- The row that `#create` inserts. -/
def newSecret (id projectId environmentId : Uuid) (key : JsString) (notes : Option JsString)
    (now : Timestamp) : Secret where
  id := id
  projectId := projectId
  environmentId := environmentId
  key := key
  notes := notes
  currentVersion := 0
  createdAt := now
  updatedAt := now
  deletedAt := none
  deletedByProjectAt := none
  deletedByEnvironmentAt := none

/-- The `INSERT` of `#create`. -/
def insertSecret (row : Secret) : TransactionM wrapper SecretRow :=
  .execute (fun _ => []) (fun _ => [.insertSecret row]) fun db =>
    if db.secrets.any fun other => other.id = row.id || other.slot = row.slot then
      .error (.sql .uniqueViolation)
    else .ok ⟨db.orgId, row, []⟩

/-- What the `catch` of `#create` makes of a unique violation. -/
def keyExists : ServiceError → ServiceError
  | .sql .uniqueViolation =>
    secretError .keyExists (ofAscii "Secret key already exists in this environment")
  | error => error

/-- `#create`; `n` numbers the draws of the call. -/
def create (draws : Draws) (n : Nat) (userId projectId environmentId : Uuid)
    (input : SetSecretInput) (authorized recordAudit : Bool) :
    TransactionM wrapper SecretMetadata := do
  let row ← environment projectId environmentId
  doIf (!authorized) (authorizeUser userId (some projectId) row.isProtected .secretWrite)
  let key ← attempt .secret (validateSecretKey input.key input.allowNonConformingKey)
  let notes ← attempt .secret (validateNotes (input.notes.getD none))
  let changeNote ← attempt .secret (validateChangeNote input.changeNote)
  let version : VersionInput :=
    { value := input.value, notes := some notes, changeNote := changeNote,
      tagIds := some (input.tagIds.getD []) }
  let storedKey ← attempt .sql (storedText key)
  let recoverable ← recoverableRow platform projectId environmentId storedKey
  match recoverable with
  | some recoverable => do
    updateSecrets (·.id = recoverable.secret.id)
      { deletedAt := some none, updatedAt := draws.now }
    writeVersion platform draws n userId recoverable version .created recordAudit
  | none =>
    Prog.mapError keyExists do
      let notes ← attempt .sql (storedOptional notes)
      let row ← insertSecret
        (newSecret (draws.uuid n) projectId environmentId storedKey notes draws.now)
      writeVersion platform draws n userId row version .created recordAudit

end Himitsu.Secrets
