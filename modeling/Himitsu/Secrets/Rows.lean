import Himitsu.Audit.Record

/-!
# Rows of the secret service

Model of the lookups and of the use of the cipher in `SecretService` of
`packages/secrets/src/index.ts`: `#metadataRow`, `#valueRow`, `#versionValueRow`, `#environment`,
`#encryption` and the contexts under which values are sealed.

A service is made for one call, with a cache that no entry outlives; so `encrypt` and `decrypt`
load the data key each time.
-/

set_option autoImplicit false

namespace Himitsu.Secrets

open JsString Crypto Database Services Transactions

structure SecretMetadata where
  id : Uuid
  orgId : Uuid
  projectId : Uuid
  environmentId : Uuid
  key : JsString
  notes : Option JsString
  tags : List Tag
  currentVersion : Nat
  createdAt : Int
  updatedAt : Int

def SecretMetadata.tagIds (metadata : SecretMetadata) : List Uuid := metadata.tags.map (·.id)

/-- `SecretRow`: a row of `secretSelect`. -/
structure SecretRow where
  orgId : Uuid
  secret : Secret
  tags : List Tag

/-- `SecretVersionValueRow`; in a `SecretValueRow` the version is the current one. -/
structure SecretValueRow extends SecretRow where
  recordVersion : Nat
  encrypted : EncryptedSecretValue

def metadataFromRow (row : SecretRow) : SecretMetadata where
  id := row.secret.id
  orgId := row.orgId
  projectId := row.secret.projectId
  environmentId := row.secret.environmentId
  key := row.secret.key
  notes := row.secret.notes
  tags := row.tags
  currentVersion := row.secret.currentVersion
  createdAt := toDate row.secret.createdAt
  updatedAt := toDate row.secret.updatedAt

/-- The context of a version of a secret. -/
def contextOf (orgId : Uuid) (secret : Secret) (recordVersion : Nat) :
    SecretEncryptionContext where
  orgId := orgId.text
  projectId := secret.projectId.text
  environmentId := secret.environmentId.text
  secretId := secret.id.text
  recordVersion := recordVersion

def secretError (code : SecretErrorCode) (message : JsString) : ServiceError :=
  .secret ⟨code, message⟩

def notFound (message : String) : ServiceError := secretError .notFound (ofAscii message)

def invalidInput (message : JsString) : ServiceError := secretError .invalidInput message

/-! ## Queries -/

variable {wrapper : KeyWrapper} (platform : Platform)

/-- `ORDER BY s.key, s.id`. -/
def keyBefore (left right : Secret) : Bool :=
  if left.key = right.key then left.id.value ≤ right.id.value
  else platform.collate left.key right.key

def tagsOf (db : Db wrapper) (secretId : Uuid) : List Tag :=
  orderBy platform.tagBefore ((db.tagsOf secretId).filterMap fun row =>
    db.tags.find? (·.id = row.tagId))

/-- A row of `secretSelect`. -/
def selectSecret (db : Db wrapper) (secret : Secret) : SecretRow :=
  ⟨db.orgId, secret, tagsOf platform db secret.id⟩

/-- The columns of a version that `decrypt` needs. -/
def encryptedOf (version : SecretVersion) : EncryptedSecretValue where
  algorithm := ALGORITHM
  keyVersion := version.encryptionKeyVersion
  ciphertext := version.valueCiphertext
  nonce := version.nonce
  authTag := version.authTag

/-- The join of a secret with one of its versions. -/
def selectValue (db : Db wrapper) (secret : Secret) (version : Nat) : Option SecretValueRow :=
  (db.secretVersions.find? fun row => row.secretId = secret.id && row.version = version).map
    fun row => ⟨selectSecret platform db secret, row.version, encryptedOf row⟩

/-- The active secrets of an environment, in the order of their keys. -/
def activeSecrets (db : Db wrapper) (projectId environmentId : Uuid) : List Secret :=
  orderBy (keyBefore platform) (db.secrets.filter fun row =>
    row.projectId = projectId && row.environmentId = environmentId && row.deletedAt.isNone)

/-- The active secrets of an environment with their current values. -/
def activeValues (db : Db wrapper) (projectId environmentId : Uuid) : List SecretValueRow :=
  (activeSecrets platform db projectId environmentId).filterMap fun row =>
    selectValue platform db row row.currentVersion

/-- `#metadataRow`. -/
def metadataRow (secretId : Uuid) (lock : Bool) : TransactionM wrapper SecretRow := do
  let p := fun row : Secret => row.id = secretId && row.deletedAt.isNone
  let row ← Prog.selectForUpdate
    (fun db : Db wrapper => if lock then (db.secrets.filter p).map fun row => .secret row.id else [])
    fun db => (db.secrets.find? p).map (selectSecret platform db)
  match row with
  | none => raise (notFound "Secret not found")
  | some row => pure row

/-- `#valueRow`. -/
def valueRow (secretId : Uuid) : TransactionM wrapper SecretValueRow := do
  let row ← Prog.select fun db : Db wrapper =>
    (db.secrets.find? fun row => row.id = secretId && row.deletedAt.isNone).bind
      fun row => selectValue platform db row row.currentVersion
  match row with
  | none => raise (notFound "Secret not found")
  | some row => pure row

/-- `#versionValueRow`. -/
def versionValueRow (secretId : Uuid) (version : Nat) : TransactionM wrapper SecretValueRow := do
  let row ← Prog.select fun db : Db wrapper =>
    (db.secrets.find? fun row => row.id = secretId && row.deletedAt.isNone).bind
      fun row => selectValue platform db row version
  match row with
  | none => raise (secretError .versionNotFound (ofAscii "Secret version not found"))
  | some row => pure row

/-- `#environment`. -/
def environment (projectId environmentId : Uuid) :
    TransactionM wrapper Database.Environment := do
  let row ← Prog.select fun db : Db wrapper => activeEnvironment db projectId environmentId
  match row with
  | none => raise (notFound "Environment not found")
  | some row => pure row

/-! ## The cipher -/

/-- The part of `#activate` after the lookup of an active key; the advisory lock keeps its
statements together. -/
def activateKey (dataKey : DataKey) (wrapNonce : Nonce) : TransactionM wrapper DataKeyRecord :=
  .execute (fun _ => []) (fun _ => [.activateKey dataKey wrapNonce])
    fun db => .ok (db.keys.newRecord db.orgId.text dataKey wrapNonce)

/-- `ensureActive` of the store of a transaction. -/
def ensureActive (orgId : JsString) (dataKey : DataKey) (wrapNonce : Nonce) :
    TransactionM wrapper DataKeyRecord := do
  Prog.selectForUpdate (fun _ => [.keys]) fun _ => ()
  let active ← Prog.select fun db : Db wrapper => db.keys.getActive orgId
  match active with
  | some record => pure record
  | none => activateKey dataKey wrapNonce

/-- `encrypt` of a service whose store is the transaction; `n` numbers the draws of the call. -/
def encrypt (draws : Draws) (n : Nat) (plaintext : Bytes) (context : SecretEncryptionContext) :
    TransactionM wrapper EncryptedSecretValue := do
  let _ ← attempt .crypto (secretAad context)
  let record ← ensureActive context.orgId (draws.dataKey n) (draws.wrapNonce n)
  match record.key wrapper with
  | none => raise (.crypto ⟨.decryptionFailed, ofAscii "Unable to decrypt key material"⟩)
  | some key =>
    pure (sealValue platform.aead record.version key.bytes (draws.nonce n) context plaintext)

/-- `decrypt` of the version of a row under the context of `recordVersion`. -/
def decrypt (row : SecretValueRow) (recordVersion : Nat) : TransactionM wrapper Bytes :=
  .execute (fun _ => [])
    (fun _ => [.noteDecryption ⟨row.secret.id, row.secret.environmentId⟩])
    fun db => (Crypto.decrypt platform.aead db.keys row.encrypted
      (contextOf row.orgId row.secret recordVersion)).mapError .crypto

/-- The values of rows, each under the context of its current version. -/
def decryptAll (rows : List SecretValueRow) :
    TransactionM wrapper (List (JsString × JsString)) :=
  Prog.forEach (fun _ row => do
    let plaintext ← decrypt platform row row.secret.currentVersion
    pure (row.secret.key, Utf8.decode plaintext)) 0 rows

end Himitsu.Secrets
