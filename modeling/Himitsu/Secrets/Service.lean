import Himitsu.Library.JsonTree
import Himitsu.Secrets.Writing

/-!
# The secret service

Model of the operations of `SecretService` of `packages/secrets/src/index.ts`, a statement of the
source for a statement of the model.
-/

set_option autoImplicit false

namespace Himitsu.Secrets

open JsString Crypto Database Services Transactions

variable {wrapper : KeyWrapper} (platform : Platform)

/-- `requirePermission` for an environment that was looked up before. -/
def authorizeIn (userId projectId : Uuid) (environment : Database.Environment)
    (permission : Authz.Permission) : TransactionM wrapper Unit :=
  authorizeUser userId (some projectId) environment.isProtected permission

/-- The event of an action on the secrets of an environment. -/
def environmentEvent (orgId : Uuid) (actor : Audit.AuditActor) (action : Audit.AuditAction)
    (projectId environmentId : Uuid) (details : Audit.Metadata) : Audit.AuditEventInput where
  orgId := orgId
  actor := actor
  action := action
  resourceType := ofAscii "environment"
  resourceId := some environmentId.text
  projectId := some projectId
  environmentId := some environmentId
  details := some details

/-- `transaction.orgId`, which never changes. -/
def orgIdOf : TransactionM wrapper Uuid := Prog.select fun db => db.orgId

/-! ## Reading -/

structure ListFilters where
  search : Option JsString
  tagId : Option Uuid

/-- The condition of `list` on the search text. -/
def matchesSearch (db : Db wrapper) (search : JsString) (row : Secret) : Bool :=
  platform.ilike row.key search || platform.ilike (row.notes.getD []) search ||
    (tagsOf platform db row.id).any fun tag => platform.ilike tag.name search

def list (userId projectId environmentId : Uuid) (filters : ListFilters) :
    TransactionM wrapper (List SecretMetadata) := do
  let scope ← environment projectId environmentId
  authorizeIn userId projectId scope .secretRead
  let search := (filters.search.map trim).filter (· ≠ [])
  let search ← attempt .sql (storedOptional search)
  let rows ← Prog.select fun db : Db wrapper =>
    ((activeSecrets platform db projectId environmentId).filter fun row =>
      search.all (matchesSearch platform db · row) &&
        filters.tagId.all fun tagId => (db.tagsOf row.id).any (·.tagId = tagId)).map
      (selectSecret platform db)
  pure (rows.map metadataFromRow)

structure SecretWithValue where
  metadata : SecretMetadata
  value : JsString

def get (draws : Draws) (userId secretId : Uuid) : TransactionM wrapper SecretWithValue := do
  let row ← valueRow platform secretId
  let scope ← environment row.secret.projectId row.secret.environmentId
  authorizeIn userId row.secret.projectId scope .secretRead
  let plaintext ← decrypt platform row row.secret.currentVersion
  Audit.recordInTransaction draws.now
    { secretEvent row.orgId userId .secretRead row.secret with
      details := some [(ofAscii "key", .string row.secret.key),
        (ofAscii "version", .number (ofNat row.secret.currentVersion))] }
  pure ⟨metadataFromRow row.toSecretRow, Utf8.decode plaintext⟩

/-- `readonly number[] | "*"`. -/
inductive KnownVersions where
  | any
  | list (versions : List Nat)

def KnownVersions.contains : KnownVersions → Nat → Bool
  | .any, _ => true
  | .list versions, version => versions.contains version

/-- `secrets` is there unless the configuration is not modified. -/
structure RuntimeSecretConfig where
  configVersion : Nat
  secrets : Option (List (JsString × JsString))

def RuntimeSecretConfig.notModified (config : RuntimeSecretConfig) : Bool := config.secrets.isNone

def runtimeConfig (draws : Draws) (userId projectId environmentId : Uuid)
    (knownVersions : KnownVersions) (auditActor : Audit.AuditActor) :
    TransactionM wrapper RuntimeSecretConfig := do
  let scope ← environment projectId environmentId
  authorizeIn userId projectId scope .secretRead
  if scope.configVersion > MAX_SAFE_INTEGER then
    raise (.other (ofAscii "Environment config version is outside the supported range"))
  else if knownVersions.contains scope.configVersion then
    pure ⟨scope.configVersion, none⟩
  else
    let rows ← Prog.select fun db : Db wrapper => activeValues platform db projectId environmentId
    let entries ← decryptAll platform rows
    let orgId ← orgIdOf
    Audit.recordInTransaction draws.now
      (environmentEvent orgId auditActor .secretRead projectId environmentId
        [(ofAscii "count", .number (ofNat entries.length)),
          (ofAscii "configVersion", .number (ofNat scope.configVersion))])
    pure ⟨scope.configVersion, some (Json.fromEntries entries)⟩

structure SecretExportResult where
  format : SecretExportFormat
  filename : JsString
  mimeType : JsString
  content : JsString
  secretCount : Nat
  nested : Bool

def SecretExportFormat.text : SecretExportFormat → JsString
  | .dotenv => ofAscii "dotenv"
  | .json => ofAscii "json"
  | .shell => ofAscii "shell"

def SecretExportFormat.extension : SecretExportFormat → JsString
  | .dotenv => ofAscii "env"
  | .shell => ofAscii "sh"
  | .json => ofAscii "json"

def SecretExportFormat.mimeType : SecretExportFormat → JsString
  | .json => ofAscii "application/json"
  | _ => ofAscii "text/plain; charset=utf-8"

/-- `Object.fromEntries(entries)`. -/
def recordOf (entries : List (JsString × JsString)) : SecretRecord :=
  ⟨Json.fromEntries entries, Json.fromEntries_nodup entries⟩

/-- The environment with the slug of its project. -/
def exportScope (projectId environmentId : Uuid) :
    TransactionM wrapper (Database.Environment × JsString) := do
  let scope ← Prog.select fun db : Db wrapper => do
    let environment ← activeEnvironment db projectId environmentId
    let project ← db.projects.find? (·.id = projectId)
    pure (environment, project.slug)
  match scope with
  | none => raise (notFound "Environment not found")
  | some scope => pure scope

def exportConfig (draws : Draws) (userId projectId environmentId : Uuid)
    (format : SecretExportFormat) (options : ExportOptions) (auditActor : Audit.AuditActor) :
    TransactionM wrapper SecretExportResult := do
  let (scope, slug) ← exportScope projectId environmentId
  authorizeIn userId projectId scope .secretRead
  let rows ← Prog.select fun db : Db wrapper => activeValues platform db projectId environmentId
  let entries ← decryptAll platform rows
  let nested := format = .json && options.nested
  let content ← attempt .secret
    (serializeSecretExport platform.localeCompare (recordOf entries) format options)
  let orgId ← orgIdOf
  Audit.recordInTransaction draws.now
    (environmentEvent orgId auditActor .secretExported projectId environmentId
      [(ofAscii "format", .string format.text), (ofAscii "nested", .bool nested),
        (ofAscii "count", .number (ofNat entries.length))])
  pure
    { format := format
      filename := slug ++ 0x2D :: scope.slug ++ 0x2E :: format.extension
      mimeType := format.mimeType
      content := content
      secretCount := entries.length
      nested := nested }

/-! ## Versions -/

structure SecretVersionMetadata where
  version : Nat
  authorUserId : Option Uuid
  changeNote : Option JsString
  encryptionKeyVersion : Nat
  createdAt : Int
  current : Bool

def versionMetadata (current : Nat) (row : SecretVersion) : SecretVersionMetadata where
  version := row.version
  authorUserId := row.authorUserId
  changeNote := row.changeNote
  encryptionKeyVersion := row.encryptionKeyVersion
  createdAt := toDate row.createdAt
  current := row.version = current

def listVersions (userId secretId : Uuid) :
    TransactionM wrapper (List SecretVersionMetadata) := do
  let row ← metadataRow platform secretId false
  let scope ← environment row.secret.projectId row.secret.environmentId
  authorizeIn userId row.secret.projectId scope .secretRead
  let versions ← Prog.select fun db : Db wrapper =>
    orderBy (fun left right => right.version ≤ left.version) (db.versionsOf secretId)
  pure (versions.map (versionMetadata row.secret.currentVersion))

structure SecretVersionComparison where
  fromVersion : Nat
  toVersion : Nat
  changed : Bool
  values : Option (JsString × JsString)

def SecretVersionComparison.masked (comparison : SecretVersionComparison) : Bool :=
  comparison.values.isNone

def versionNotFound : ServiceError :=
  secretError .versionNotFound (ofAscii "Secret version not found")

/-- The second plaintext of a comparison, which may be the first one. -/
def comparedPlaintext (same : Bool) (fromPlaintext : Bytes) (newer : SecretValueRow) :
    TransactionM wrapper Bytes :=
  if same then pure fromPlaintext else decrypt platform newer newer.recordVersion

/-- A version number of the caller that is no positive integer is `0` here. -/
def compareVersions (draws : Draws) (userId secretId : Uuid) (fromVersion toVersion : Nat)
    (reveal : Bool) : TransactionM wrapper SecretVersionComparison := do
  if fromVersion < 1 ∨ toVersion < 1 then
    raise (invalidInput (ofAscii "Version numbers must be positive integers"))
  else
    let row ← metadataRow platform secretId false
    let scope ← environment row.secret.projectId row.secret.environmentId
    authorizeIn userId row.secret.projectId scope .secretRead
    if fromVersion > MAX_INTEGER ∨ toVersion > MAX_INTEGER then
      raise (.sql .numericValueOutOfRange)
    else
      let rows ← Prog.select fun db : Db wrapper =>
        let found := db.secrets.find? fun row => row.id = secretId && row.deletedAt.isNone
        (found.bind (selectValue platform db · fromVersion),
          found.bind (selectValue platform db · toVersion))
      match rows with
      | (some older, some newer) => do
        let fromPlaintext ← decrypt platform older older.recordVersion
        let toPlaintext ← comparedPlaintext platform (fromVersion = toVersion) fromPlaintext newer
        let changed := decide (fromPlaintext ≠ toPlaintext)
        Audit.recordInTransaction draws.now
          { secretEvent row.orgId userId .secretRead row.secret with
            details := some [(ofAscii "operation", .string (ofAscii "version_compare")),
              (ofAscii "fromVersion", .number (ofNat fromVersion)),
              (ofAscii "toVersion", .number (ofNat toVersion)),
              (ofAscii "revealed", .bool reveal), (ofAscii "changed", .bool changed)] }
        pure
          { fromVersion := fromVersion
            toVersion := toVersion
            changed := changed
            values := if reveal then some (Utf8.decode fromPlaintext, Utf8.decode toPlaintext)
              else none }
      | _ => raise versionNotFound

/-- The conflict of a write that expected another version. -/
def versionConflict (current expected : Nat) (purpose : String) : ServiceError :=
  secretError .versionConflict (ofAscii "Secret is at version " ++ ofNat current ++
    ofAscii "; refresh before " ++ ofAscii purpose ++ ofAscii " version " ++ ofNat expected)

structure RollbackInput where
  expectedVersion : Option Nat
  changeNote : Option JsString

def rollback (draws : Draws) (userId secretId : Uuid) (targetVersion : Nat)
    (input : RollbackInput) : TransactionM wrapper SecretMetadata := do
  if targetVersion < 1 then
    raise (invalidInput (ofAscii "Rollback version must be a positive integer"))
  else
    let before ← metadataRow platform secretId true
    let scope ← environment before.secret.projectId before.secret.environmentId
    authorizeIn userId before.secret.projectId scope .secretWrite
    if input.expectedVersion.any (· ≠ before.secret.currentVersion) then
      raise (versionConflict before.secret.currentVersion (input.expectedVersion.getD 0)
        "rolling back")
    else if targetVersion ≥ before.secret.currentVersion then
      raise (invalidInput (ofAscii "Rollback target must be an earlier version"))
    else
      let target ← versionValueRow platform secretId targetVersion
      let plaintext ← decrypt platform target target.recordVersion
      let changeNote := input.changeNote.getD
        (ofAscii "Rollback to version " ++ ofNat targetVersion)
      writeVersion platform draws 0 userId before
        { value := Utf8.decode plaintext, changeNote := some changeNote } .updated true

/-! ## Single writes -/

structure UpdateSecretInput where
  value : Option JsString
  notes : Option (Option JsString)
  changeNote : Option JsString
  expectedVersion : Option Nat
  tagIds : Option (List Uuid)

def update (draws : Draws) (userId secretId : Uuid) (input : UpdateSecretInput) :
    TransactionM wrapper SecretMetadata := do
  let before ← metadataRow platform secretId true
  let scope ← environment before.secret.projectId before.secret.environmentId
  authorizeIn userId before.secret.projectId scope .secretWrite
  if input.expectedVersion.any (· ≠ before.secret.currentVersion) then
    raise (versionConflict before.secret.currentVersion (input.expectedVersion.getD 0) "replacing")
  else
    match input.value with
    | none =>
      if input.changeNote.any (· ≠ []) then
        raise (invalidInput (ofAscii "A change note only applies to a replacement value"))
      else writeMetadata platform draws userId before ⟨input.notes, input.tagIds⟩
    | some value =>
      writeVersion platform draws 0 userId before
        { value := value, notes := input.notes, changeNote := input.changeNote,
          tagIds := input.tagIds } .updated true

def delete (draws : Draws) (userId secretId : Uuid) : TransactionM wrapper SecretMetadata := do
  let row ← metadataRow platform secretId true
  let scope ← environment row.secret.projectId row.secret.environmentId
  authorizeIn userId row.secret.projectId scope .secretDelete
  updateSecrets (fun other => other.id = secretId && other.deletedAt.isNone)
    { deletedAt := some (some draws.now), updatedAt := draws.now }
  Audit.recordInTransaction draws.now
    { secretEvent row.orgId userId .secretDeleted row.secret with
      before := some [(ofAscii "key", .string row.secret.key),
        (ofAscii "version", .number (ofNat row.secret.currentVersion))] }
  pure (metadataFromRow row)

/-! ## Batches -/

/-- The keys of a batch after `validateSecretKey`. -/
def normalizedKeys (inputs : List SetSecretInput) : Except SecretError (List JsString) :=
  inputs.mapM fun input => validateSecretKey input.key input.allowNonConformingKey

def SetSecretInput.versionInput (input : SetSecretInput) : VersionInput where
  value := input.value
  notes := input.notes
  changeNote := input.changeNote
  tagIds := input.tagIds

/-- The active row of a key in an environment, locked. -/
def activeRow (projectId environmentId : Uuid) (key : JsString) :
    TransactionM wrapper (Option SecretRow) :=
  let p := fun row : Secret => row.projectId = projectId && row.environmentId = environmentId &&
    row.key = key && row.deletedAt.isNone
  Prog.selectForUpdate (fun db => (db.secrets.filter p).map fun row => .secret row.id)
    fun db => (db.secrets.find? p).map (selectSecret platform db)

/-- A turn of the loop of `bulkSet`. -/
def setOne (draws : Draws) (userId projectId environmentId : Uuid) (n : Nat)
    (item : SetSecretInput × JsString) : TransactionM wrapper SecretMetadata := do
  let storedKey ← attempt .sql (storedText item.2)
  let existing ← activeRow platform projectId environmentId storedKey
  match existing with
  | none =>
    create platform draws n userId projectId environmentId { item.1 with key := item.2 } true true
  | some row => writeVersion platform draws n userId row item.1.versionInput .updated true

def bulkSet (draws : Draws) (userId projectId environmentId : Uuid)
    (inputs : List SetSecretInput) : TransactionM wrapper (List SecretMetadata) := do
  if inputs.length < 1 ∨ inputs.length > MAX_BULK_ITEMS then
    raise (invalidInput (ofAscii "Bulk writes require between 1 and " ++ ofNat MAX_BULK_ITEMS ++
      ofAscii " secrets"))
  else
    let keys ← attempt .secret (normalizedKeys inputs)
    if keys.dedup.length ≠ keys.length then
      raise (invalidInput (ofAscii "Bulk writes cannot contain duplicate keys"))
    else
      let scope ← environment projectId environmentId
      authorizeIn userId projectId scope .secretWrite
      Prog.forEach (setOne platform draws userId projectId environmentId) 0 (inputs.zip keys)

inductive SecretImportStrategy where
  | skip
  | overwrite
  | merge
  deriving DecidableEq, Repr

def SecretImportStrategy.text : SecretImportStrategy → JsString
  | .skip => ofAscii "skip"
  | .overwrite => ofAscii "overwrite"
  | .merge => ofAscii "merge"

inductive SecretImportFormat where
  | dotenv
  | json
  deriving DecidableEq, Repr

def SecretImportFormat.text : SecretImportFormat → JsString
  | .dotenv => ofAscii "dotenv"
  | .json => ofAscii "json"

/-- What a turn of the loop of `importBatch` did. -/
inductive ImportOutcome where
  | skipped
  | created (secret : SecretMetadata)
  | updated (secret : SecretMetadata)

def ImportOutcome.secret : ImportOutcome → Option SecretMetadata
  | .skipped => none
  | .created secret | .updated secret => some secret

def ImportOutcome.isCreated : ImportOutcome → Bool
  | .created _ => true
  | _ => false

def ImportOutcome.isUpdated : ImportOutcome → Bool
  | .updated _ => true
  | _ => false

structure ImportSummary where
  requested : Nat
  created : Nat
  updated : Nat
  skipped : Nat
  deriving DecidableEq, Repr

structure SecretImportResult where
  secrets : List SecretMetadata
  summary : ImportSummary

/-- `included` of the loop of `importBatch`. -/
def isIncluded (strategy : SecretImportStrategy) (selected : List JsString) (exists' : Bool)
    (key : JsString) : Bool :=
  match strategy with
  | .overwrite => true
  | .skip => !exists'
  | .merge => selected.contains key

/-- A turn of the loop of `importBatch`. -/
def importOne (draws : Draws) (userId projectId environmentId : Uuid)
    (strategy : SecretImportStrategy) (selected : List JsString) (format : SecretImportFormat)
    (existing : List SecretRow) (n : Nat) (item : SetSecretInput × JsString) :
    TransactionM wrapper ImportOutcome := do
  let row := existing.find? fun row => row.secret.key = item.2
  let changeNote := item.1.changeNote.getD (format.text ++ ofAscii " import")
  if !isIncluded strategy selected row.isSome item.2 then pure .skipped
  else
    match row with
    | none => do
      let secret ← create platform draws n userId projectId environmentId
        { item.1 with key := item.2, changeNote := some changeNote } true false
      pure (.created secret)
    | some row => do
      let secret ← writeVersion platform draws n userId row
        { item.1.versionInput with changeNote := some changeNote } .updated false
      pure (.updated secret)

/-- The lookup of `importBatch`: the active rows of the keys, locked. -/
def existingRows (projectId environmentId : Uuid) (keys : List JsString) :
    TransactionM wrapper (List SecretRow) :=
  Prog.selectForUpdate
    (fun db => ((activeSecrets platform db projectId environmentId).filter fun row =>
      keys.contains row.key).map fun row => .secret row.id)
    fun db => ((activeSecrets platform db projectId environmentId).filter fun row =>
      keys.contains row.key).map (selectSecret platform db)

def importBatch (draws : Draws) (userId projectId environmentId : Uuid)
    (inputs : List SetSecretInput) (strategy : SecretImportStrategy)
    (selectedKeys : List JsString) (format : SecretImportFormat) :
    TransactionM wrapper SecretImportResult := do
  if inputs.length < 1 ∨ inputs.length > MAX_BULK_ITEMS then
    raise (invalidInput (ofAscii "Imports require between 1 and " ++ ofNat MAX_BULK_ITEMS ++
      ofAscii " secrets"))
  else
    let keys ← attempt .secret (normalizedKeys inputs)
    if keys.dedup.length ≠ keys.length then
      raise (invalidInput (ofAscii "Imports cannot contain duplicate keys"))
    else if strategy = .merge ∧
        (selectedKeys = [] ∨ selectedKeys.any fun key => !keys.contains key) then
      raise (invalidInput (ofAscii "Merge imports require selected keys from the preview"))
    else
      let scope ← environment projectId environmentId
      authorizeIn userId projectId scope .secretWrite
      let storedKeys ← attempt .sql (keys.mapM storedText)
      let existing ← existingRows platform projectId environmentId storedKeys
      let outcomes ← Prog.forEach
        (importOne platform draws userId projectId environmentId strategy selectedKeys format
          existing) 0 (inputs.zip keys)
      let secrets := outcomes.filterMap ImportOutcome.secret
      let summary : ImportSummary :=
        { requested := inputs.length
          created := outcomes.countP ImportOutcome.isCreated
          updated := outcomes.countP ImportOutcome.isUpdated
          skipped := outcomes.countP fun outcome => outcome.secret.isNone }
      let orgId ← orgIdOf
      Audit.recordInTransaction draws.now
        (environmentEvent orgId (.user userId) .secretImported projectId environmentId
          [(ofAscii "format", .string format.text), (ofAscii "strategy", .string strategy.text),
            (ofAscii "requested", .number (ofNat summary.requested)),
            (ofAscii "created", .number (ofNat summary.created)),
            (ofAscii "updated", .number (ofNat summary.updated)),
            (ofAscii "skipped", .number (ofNat summary.skipped)),
            (ofAscii "keys", .array (secrets.map fun secret => .string secret.key))])
      pure ⟨secrets, summary⟩

/-! ## Promotion -/

/-- `targetVersion` is there exactly when the action is an overwrite. -/
structure SecretPromotionPreviewItem where
  key : JsString
  changed : Bool
  sourceVersion : Nat
  targetVersion : Option Nat
  deriving DecidableEq, Repr

def SecretPromotionPreviewItem.isCreate (item : SecretPromotionPreviewItem) : Bool :=
  item.targetVersion.isNone

structure SecretPromotionPreview where
  sourceEnvironmentId : Uuid
  targetEnvironmentId : Uuid
  items : List SecretPromotionPreviewItem
  deriving DecidableEq, Repr

/-- The summary of a preview. -/
def SecretPromotionPreview.summary (preview : SecretPromotionPreview) : Nat × Nat × Nat :=
  (preview.items.length, preview.items.countP (·.isCreate),
    preview.items.countP fun item => !item.isCreate)

structure SecretPromotionResult where
  preview : SecretPromotionPreview
  secrets : List SecretMetadata

/-- The argument checks of `#authorizePromotion`. -/
def promotionKeys (sourceEnvironmentId targetEnvironmentId : Uuid)
    (keys : Option (List JsString)) : Except SecretError (Option (List JsString)) :=
  if sourceEnvironmentId = targetEnvironmentId then
    .error ⟨.invalidInput, ofAscii "Source and target environments must be different"⟩
  else
    match keys with
    | none => .ok none
    | some keys => do
      let normalized ← keys.mapM fun key => validateSecretKey key true
      if normalized.length < 1 ∨ normalized.dedup.length ≠ normalized.length then
        .error ⟨.invalidInput, ofAscii "Selected promotion keys must be non-empty and unique"⟩
      else .ok (some normalized)

/-- `#authorizePromotion`. -/
def authorizePromotion (userId projectId sourceEnvironmentId targetEnvironmentId : Uuid)
    (keys : Option (List JsString)) : TransactionM wrapper (Option (List JsString)) := do
  let normalized ← attempt .secret (promotionKeys sourceEnvironmentId targetEnvironmentId keys)
  let source ← environment projectId sourceEnvironmentId
  let target ← environment projectId targetEnvironmentId
  authorizeIn userId projectId source .secretRead
  authorizeIn userId projectId target .secretWrite
  pure normalized

/-- The rows of one environment that the query of a promotion selects. -/
def promotionRows (db : Db wrapper) (projectId environmentId : Uuid)
    (keys : Option (List JsString)) : List SecretValueRow :=
  (activeValues platform db projectId environmentId).filter fun row =>
    keys.all (·.contains row.secret.key)

/-- The keys of a promotion as a parameter. -/
def storedKeys : Option (List JsString) → Except SqlState (Option (List JsString))
  | none => .ok none
  | some keys => (keys.mapM storedText).map some

/-- The query of a promotion: the rows of the source and of the target. -/
def selectPromotion (projectId sourceEnvironmentId targetEnvironmentId : Uuid)
    (keys : Option (List JsString)) (lock : Bool) :
    TransactionM wrapper (List SecretValueRow × List SecretValueRow) := do
  let keys ← attempt .sql (storedKeys keys)
  let rows := fun db : Db wrapper =>
    (promotionRows platform db projectId sourceEnvironmentId keys,
      promotionRows platform db projectId targetEnvironmentId keys)
  Prog.selectForUpdate
    (fun db => if lock then ((rows db).1 ++ (rows db).2).map fun row => .secret row.secret.id
      else []) rows

/-- `#valuesDiffer`. -/
def valuesDiffer (source target : SecretValueRow) : TransactionM wrapper Bool := do
  let sourcePlaintext ← decrypt platform source source.secret.currentVersion
  let targetPlaintext ← decrypt platform target target.secret.currentVersion
  pure (decide (sourcePlaintext ≠ targetPlaintext))

/-- The target of a source row. -/
def targetOf (targets : List SecretValueRow) (source : SecretValueRow) : Option SecretValueRow :=
  targets.find? fun row => row.secret.key = source.secret.key

/-- A turn of the loop of `#promotionPreview`. -/
def previewItem (targets : List SecretValueRow) (source : SecretValueRow) :
    TransactionM wrapper SecretPromotionPreviewItem := do
  match targetOf targets source with
  | none => pure ⟨source.secret.key, true, source.secret.currentVersion, none⟩
  | some target => do
    let changed ← valuesDiffer platform source target
    pure ⟨source.secret.key, changed, source.secret.currentVersion,
      some target.secret.currentVersion⟩

/-- The selected keys that no source row has. -/
def missingKeys (sources : List SecretValueRow) (selectedKeys : Option (List JsString)) :
    List JsString :=
  (selectedKeys.getD []).filter fun key => !sources.any (·.secret.key = key)

/-- `#promotionPreview`. -/
def promotionPreview (rows : List SecretValueRow × List SecretValueRow)
    (sourceEnvironmentId targetEnvironmentId : Uuid) (selectedKeys : Option (List JsString)) :
    TransactionM wrapper SecretPromotionPreview := do
  let missing := missingKeys rows.1 selectedKeys
  if missing.length > 0 then
    raise (secretError .notFound (ofAscii "Source secrets not found: " ++
      (ofAscii ", ").intercalate missing))
  else
    let items ← Prog.forEach (fun _ source => previewItem platform rows.2 source) 0 rows.1
    pure ⟨sourceEnvironmentId, targetEnvironmentId, items⟩

def previewPromotion (userId projectId sourceEnvironmentId targetEnvironmentId : Uuid)
    (keys : Option (List JsString)) : TransactionM wrapper SecretPromotionPreview := do
  let normalized ← authorizePromotion userId projectId sourceEnvironmentId targetEnvironmentId keys
  let rows ← selectPromotion platform projectId sourceEnvironmentId targetEnvironmentId normalized
    false
  promotionPreview platform rows sourceEnvironmentId targetEnvironmentId normalized

/-- A turn of the loop of `promote`. -/
def promoteOne (draws : Draws) (userId projectId sourceEnvironmentId targetEnvironmentId : Uuid)
    (targets : List SecretValueRow) (n : Nat) (source : SecretValueRow) :
    TransactionM wrapper SecretMetadata := do
  let plaintext ← decrypt platform source source.secret.currentVersion
  let value := Utf8.decode plaintext
  let changeNote := ofAscii "Promoted from environment " ++ sourceEnvironmentId.text
  match targetOf targets source with
  | none =>
    create platform draws n userId projectId targetEnvironmentId
      { key := source.secret.key, value := value, notes := some source.secret.notes,
        changeNote := some changeNote, allowNonConformingKey := true } true false
  | some target =>
    writeVersion platform draws n userId target.toSecretRow
      { value := value, notes := some source.secret.notes, changeNote := some changeNote } .updated
      false

def promote (draws : Draws) (userId projectId sourceEnvironmentId targetEnvironmentId : Uuid)
    (keys : Option (List JsString)) : TransactionM wrapper SecretPromotionResult := do
  let normalized ← authorizePromotion userId projectId sourceEnvironmentId targetEnvironmentId keys
  let rows ← selectPromotion platform projectId sourceEnvironmentId targetEnvironmentId normalized
    true
  let preview ← promotionPreview platform rows sourceEnvironmentId targetEnvironmentId normalized
  let promoted ← Prog.forEach
    (promoteOne platform draws userId projectId sourceEnvironmentId targetEnvironmentId rows.2) 0
    rows.1
  let orgId ← orgIdOf
  Audit.recordInTransaction draws.now
    (environmentEvent orgId (.user userId) .secretPromoted projectId targetEnvironmentId
      [(ofAscii "sourceEnvironmentId", .string sourceEnvironmentId.text),
        (ofAscii "targetEnvironmentId", .string targetEnvironmentId.text),
        (ofAscii "created", .number (ofNat preview.summary.2.1)),
        (ofAscii "overwritten", .number (ofNat preview.summary.2.2)),
        (ofAscii "keys", .array (preview.items.map fun item => .string item.key))])
  pure ⟨preview, promoted⟩

end Himitsu.Secrets
