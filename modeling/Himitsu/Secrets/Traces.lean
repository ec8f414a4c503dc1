import Himitsu.Library.Traces
import Himitsu.Services.Emitted

/-!
# What the secret service does

For the programs of the secret service, what a way through them reads and writes.

* `does_environment`, `does_metadataRow`, `does_valueRow` — the rows that the lookups find.
* `does_record` — the event that is written.
* `does_writeVersion` — the new version, the update of its secret and the event.
* `does_create` — a recovered or a new row, and its next version.
-/

set_option autoImplicit false

namespace Himitsu.Secrets

open JsString Crypto Database Services Transactions

abbrev DbStatement (wrapper : KeyWrapper) := Statement (Db wrapper) Lock Write

abbrev Commit (wrapper : KeyWrapper) :=
  Interleaving.Entry (Db wrapper) Lock Write Call Answer

variable {wrapper : KeyWrapper} {platform : Platform} {stmts : List (DbStatement wrapper)}
  {ws : List Write}

/-! ## Steps -/

theorem does_attempt {α ε : Type} {wrap : ε → ServiceError} {result : Except ε α} {a : α} :
    Does (attempt wrap result : TransactionM wrapper α) stmts ws a ↔
      stmts = [] ∧ ws = [] ∧ result = .ok a := by
  rw [attempt, does_ofExcept]
  cases result <;> simp [Except.mapError]

theorem does_checkedOr {α β ε : Type} {wrap : ε → ServiceError} {current : β}
    {check : α → Except ε β} {input : Option α} {b : β}
    (h : Does (checkedOr wrap current check input : TransactionM wrapper β) stmts ws b) :
    stmts = [] ∧ ws = [] := by
  cases input with
  | none =>
    obtain ⟨hstmts, hws, -⟩ := does_ok.mp h
    exact ⟨hstmts, hws⟩
  | some input =>
    obtain ⟨hstmts, hws, -⟩ := does_attempt.mp h
    exact ⟨hstmts, hws⟩

theorem does_doIf {condition : Bool} {p : TransactionM wrapper Unit} {u : Unit} :
    Does (doIf condition p) stmts ws u ↔
      (condition = true ∧ Does p stmts ws u) ∨ (condition = false ∧ stmts = [] ∧ ws = []) := by
  cases condition <;> simp [doIf]

theorem does_authorizeUser {userId : Uuid} {projectId : Option Uuid} {isProtected : Bool}
    {permission : Authz.Permission} {u : Unit}
    (h : Does (authorizeUser userId projectId isProtected permission : TransactionM wrapper Unit)
      stmts ws u) : ws = [] := by
  have hws := (emits_authorizeUser (P := fun _ => False) _ _ _ _).does h
  exact List.eq_nil_iff_forall_not_mem.mpr hws

theorem does_authorizeIn {userId projectId : Uuid} {environment : Database.Environment}
    {permission : Authz.Permission} {u : Unit}
    (h : Does (authorizeIn userId projectId environment permission : TransactionM wrapper Unit)
      stmts ws u) : ws = [] :=
  does_authorizeUser h

/-- The event of a record. -/
theorem does_record {now : Timestamp} {event : Audit.AuditEventInput} {u : Unit}
    (h : Does (Audit.recordInTransaction now event : TransactionM wrapper Unit) stmts ws u) :
    ∃ metadata, Audit.metadataFor event = .ok metadata ∧
      ws = [.insertAuditEvent (Audit.eventRow event metadata now)] := by
  unfold Audit.recordInTransaction at h
  obtain ⟨_, _, _, _, _, hvalid, hnext, rfl, rfl⟩ := does_bind.mp h
  obtain ⟨rfl, rfl, -⟩ := does_attempt.mp hvalid
  obtain ⟨metadata, _, _, _, _, hmetadata, hinsert, rfl, rfl⟩ := does_bind.mp hnext
  obtain ⟨rfl, rfl, hok⟩ := does_attempt.mp hmetadata
  obtain ⟨_, rfl, rfl, -⟩ := does_execute.mp hinsert
  exact ⟨metadata, hok, rfl⟩

/-! ## Lookups -/

theorem does_environment {projectId environmentId : Uuid} {row : Database.Environment} :
    Does (environment projectId environmentId : TransactionM wrapper _) stmts ws row ↔
      ∃ db, stmts = [⟨db, [], []⟩] ∧ ws = [] ∧ activeEnvironment db projectId environmentId = some row := by
  unfold environment
  rw [does_bind]
  constructor
  · rintro ⟨_, _, _, _, _, hselect, hmatch, rfl, rfl⟩
    obtain ⟨db, rfl, rfl, rfl⟩ := does_select.mp hselect
    cases hrow : activeEnvironment db projectId environmentId with
    | none =>
      rw [hrow] at hmatch
      exact absurd hmatch does_fail
    | some found =>
      rw [hrow] at hmatch
      obtain ⟨rfl, rfl, rfl⟩ := does_ok.mp hmatch
      exact ⟨db, rfl, rfl, hrow⟩
  · rintro ⟨db, rfl, rfl, hrow⟩
    refine ⟨some row, [⟨db, [], []⟩], [], [], [], does_select.mpr ⟨db, rfl, rfl, hrow.symm⟩, ?_, rfl, rfl⟩
    exact does_ok.mpr ⟨rfl, rfl, rfl⟩

/-- The active row of an id. -/
def isActiveId (secretId : Uuid) (row : Secret) : Bool := row.id = secretId && row.deletedAt.isNone

theorem id_of_isActiveId {secretId : Uuid} {rows : List Secret} {secret : Secret}
    (h : rows.find? (isActiveId secretId) = some secret) :
    secret ∈ rows ∧ secret.id = secretId ∧ secret.deletedAt = none := by
  have hsome := List.find?_some h
  simp only [isActiveId, Bool.and_eq_true, decide_eq_true_eq, Option.isNone_iff_eq_none] at hsome
  exact ⟨List.mem_of_find?_eq_some h, hsome⟩

theorem does_metadataRow {secretId : Uuid} {lock : Bool} {row : SecretRow}
    (h : Does (metadataRow platform secretId lock : TransactionM wrapper _) stmts ws row) :
    ∃ db locks secret, stmts = [⟨db, locks, []⟩] ∧ ws = [] ∧
      (lock = true → .secret secretId ∈ locks) ∧
      db.secrets.find? (isActiveId secretId) = some secret ∧
      row = selectSecret platform db secret := by
  unfold metadataRow at h
  obtain ⟨_, _, _, _, _, hselect, hmatch, rfl, rfl⟩ := does_bind.mp h
  obtain ⟨db, rfl, rfl, rfl⟩ := does_selectForUpdate.mp hselect
  split at hmatch
  · exact absurd hmatch does_fail
  · rename_i found hrow
    obtain ⟨rfl, rfl, rfl⟩ := does_ok.mp hmatch
    obtain ⟨secret, hfind, rfl⟩ := Option.map_eq_some_iff.mp hrow
    refine ⟨db, _, secret, rfl, rfl, fun hlock => ?_, hfind, rfl⟩
    rw [if_pos hlock]
    obtain ⟨hmem, hid, hactive⟩ := id_of_isActiveId hfind
    exact List.mem_map.mpr ⟨secret, List.mem_filter.mpr ⟨hmem, by simp [hid, hactive]⟩, by rw [hid]⟩

/-- The row of a value is the one of its secret. -/
theorem selectValue_secret {db : Db wrapper} {secret : Secret} {version : Nat}
    {row : SecretValueRow} (h : selectValue platform db secret version = some row) :
    row.secret = secret ∧ row.orgId = db.orgId ∧ row.recordVersion = version ∧
      ∃ stored ∈ db.secretVersions, stored.secretId = secret.id ∧ stored.version = version ∧
        row.encrypted = encryptedOf stored := by
  obtain ⟨stored, hfind, rfl⟩ := Option.map_eq_some_iff.mp h
  have hsome := List.find?_some hfind
  simp only [Bool.and_eq_true, decide_eq_true_eq] at hsome
  exact ⟨rfl, rfl, hsome.2, stored, List.mem_of_find?_eq_some hfind, hsome.1, hsome.2, rfl⟩

theorem does_valueRow {secretId : Uuid} {row : SecretValueRow}
    (h : Does (valueRow platform secretId : TransactionM wrapper _) stmts ws row) :
    ∃ db secret, stmts = [⟨db, [], []⟩] ∧ ws = [] ∧ db.secrets.find? (isActiveId secretId) = some secret ∧
      selectValue platform db secret secret.currentVersion = some row := by
  unfold valueRow at h
  obtain ⟨_, _, _, _, _, hselect, hmatch, rfl, rfl⟩ := does_bind.mp h
  obtain ⟨db, rfl, rfl, rfl⟩ := does_select.mp hselect
  split at hmatch
  · exact absurd hmatch does_fail
  · rename_i found hrow
    obtain ⟨rfl, rfl, rfl⟩ := does_ok.mp hmatch
    obtain ⟨secret, hfind, hrow⟩ := Option.bind_eq_some_iff.mp hrow
    exact ⟨db, secret, rfl, rfl, hfind, hrow⟩

theorem does_versionValueRow {secretId : Uuid} {version : Nat} {row : SecretValueRow}
    (h : Does (versionValueRow platform secretId version : TransactionM wrapper _) stmts ws row) :
    ∃ db secret, stmts = [⟨db, [], []⟩] ∧ ws = [] ∧ db.secrets.find? (isActiveId secretId) = some secret ∧
      selectValue platform db secret version = some row := by
  unfold versionValueRow at h
  obtain ⟨_, _, _, _, _, hselect, hmatch, rfl, rfl⟩ := does_bind.mp h
  obtain ⟨db, rfl, rfl, rfl⟩ := does_select.mp hselect
  split at hmatch
  · exact absurd hmatch does_fail
  · rename_i found hrow
    obtain ⟨rfl, rfl, rfl⟩ := does_ok.mp hmatch
    obtain ⟨secret, hfind, hrow⟩ := Option.bind_eq_some_iff.mp hrow
    exact ⟨db, secret, rfl, rfl, hfind, hrow⟩

theorem does_decrypt {row : SecretValueRow} {recordVersion : Nat} {plaintext : Bytes} :
    Does (decrypt platform row recordVersion : TransactionM wrapper _) stmts ws plaintext ↔
      ∃ db, stmts = [⟨db, [],
        [.noteDecryption ⟨row.secret.id, row.secret.environmentId⟩]⟩] ∧
        ws = [.noteDecryption ⟨row.secret.id, row.secret.environmentId⟩] ∧
        Crypto.decrypt platform.aead db.keys row.encrypted
          (contextOf row.orgId row.secret recordVersion) = .ok plaintext := by
  unfold decrypt
  rw [does_execute]
  refine exists_congr fun db => and_congr_right fun _ => and_congr_right fun _ => ?_
  cases Crypto.decrypt platform.aead db.keys row.encrypted
    (contextOf row.orgId row.secret recordVersion) <;> simp [Except.mapError]

/-! ## Versions -/

/-- The activation of a data key. -/
def IsKeyWrite (w : Write) : Prop := ∃ dataKey nonce, w = .activateKey dataKey nonce

/-- A write that follows the insertion of a version. -/
def FollowsVersion (version : SecretVersion) : Write → Prop
  | .updateSecret id set =>
    id = version.secretId ∧ set.currentVersion = some version.version ∧ set.deletedAt = none
  | .deleteSecretTags id => id = version.secretId
  | .insertSecretTag row => row.secretId = version.secretId
  | .insertAuditEvent _ => True
  | _ => False

/-- An event about a secret. -/
def NamesSecret (event : AuditEvent) (secretId : Uuid) : Prop :=
  event.resourceType = ofAscii "secret" ∧ event.resourceId = some secretId.text

/-- The writes of a new version of a secret. -/
structure WritesVersion (before : Secret) (recordAudit : Bool) (ws : List Write) : Prop where
  split : ∃ keyWrites version rest, ws = keyWrites ++ .insertSecretVersion version :: rest ∧
    (∀ w ∈ keyWrites, IsKeyWrite w) ∧ version.secretId = before.id ∧
    version.environmentId = before.environmentId ∧ version.version = before.currentVersion + 1 ∧
    ∀ w ∈ rest, FollowsVersion version w
  updates : ∃ set, .updateSecret before.id set ∈ ws ∧
    set.currentVersion = some (before.currentVersion + 1)
  audit : recordAudit = true → ∃ event, .insertAuditEvent event ∈ ws ∧ NamesSecret event before.id

theorem does_updateSecretRow {secretId : Uuid} {set : SecretSet} {updated : Option Secret}
    (h : Does (updateSecretRow secretId set : TransactionM wrapper _) stmts ws updated) :
    ∃ db, stmts = [⟨db, [], ws⟩] ∧
      ws = (db.secrets.filter (isActiveId secretId)).map (fun row => .updateSecret row.id set) ∧
      updated = (db.secrets.find? (isActiveId secretId)).map set.on := by
  obtain ⟨db, rfl, rfl, hrow⟩ := does_execute.mp h
  cases hrow
  exact ⟨db, rfl, rfl, rfl⟩

theorem does_writeVersion {draws : Draws} {n : Nat} {userId : Uuid} {before : SecretRow}
    {input : VersionInput} {action : VersionAction} {recordAudit : Bool}
    {metadata : SecretMetadata}
    (h : Does (writeVersion platform draws n userId before input action recordAudit :
      TransactionM wrapper _) stmts ws metadata) :
    WritesVersion before.secret recordAudit ws := by
  unfold writeVersion at h
  obtain ⟨plaintext, _, _, _, _, hvalue, h₁, rfl, rfl⟩ := does_bind.mp h
  obtain ⟨rfl, rfl, -⟩ := does_attempt.mp hvalue
  obtain ⟨notes, _, _, _, _, hnotes, h₂, rfl, rfl⟩ := does_bind.mp h₁
  obtain ⟨rfl, rfl⟩ := does_checkedOr hnotes
  obtain ⟨changeNote, _, _, _, _, hnote, h₃, rfl, rfl⟩ := does_bind.mp h₂
  obtain ⟨rfl, rfl, -⟩ := does_attempt.mp hnote
  obtain ⟨encrypted, _, keyWrites, _, _, hencrypt, h₄, rfl, rfl⟩ := does_bind.mp h₃
  have hkeys : ∀ w ∈ keyWrites, IsKeyWrite w :=
    (emits_encrypt platform (fun dataKey nonce => ⟨dataKey, nonce, rfl⟩) _ _ _ _).does hencrypt
  obtain ⟨storedNote, _, _, _, _, hstored, h₅, rfl, rfl⟩ := does_bind.mp h₄
  obtain ⟨rfl, rfl, -⟩ := does_attempt.mp hstored
  obtain ⟨_, _, _, _, _, hinsert, h₆, rfl, rfl⟩ := does_bind.mp h₅
  obtain ⟨_, rfl, rfl, -⟩ := does_execute.mp hinsert
  obtain ⟨storedNotes, _, _, _, _, hstoredNotes, h₇, rfl, rfl⟩ := does_bind.mp h₆
  obtain ⟨rfl, rfl, -⟩ := does_attempt.mp hstoredNotes
  obtain ⟨updated, _, updates, _, _, hupdate, h₈, rfl, rfl⟩ := does_bind.mp h₇
  obtain ⟨db, rfl, hupdates, hrow⟩ := does_updateSecretRow hupdate
  cases hupdated : updated with
  | none =>
    rw [hupdated] at h₈
    exact absurd h₈ does_fail
  | some row =>
    rw [hupdated] at h₈ hrow
    obtain ⟨found, hfind, hfound⟩ := Option.map_eq_some_iff.mp hrow.symm
    have hid : row.id = before.secret.id := by
      rw [← hfound, SecretSet.on_id]
      exact (id_of_isActiveId hfind).2.1
    obtain ⟨_, _, tagWrites, _, _, htags, h₉, rfl, rfl⟩ := does_bind.mp h₈
    obtain ⟨_, _, auditWrites, _, _, haudit, h₁₀, rfl, rfl⟩ := does_bind.mp h₉
    obtain ⟨_, _, _, _, _, hafter, hpure, rfl, rfl⟩ := does_bind.mp h₁₀
    obtain ⟨_, _, _, rfl, rfl, -, -, -⟩ := does_metadataRow hafter
    obtain ⟨rfl, rfl, -⟩ := does_ok.mp hpure
    have hwritten : ∃ set, .updateSecret before.secret.id set ∈ updates ∧
        set.currentVersion = some (before.secret.currentVersion + 1) := by
      rw [hupdates]
      have hmem := List.mem_filter.mpr ⟨List.mem_of_find?_eq_some hfind, List.find?_some hfind⟩
      have hwrite := List.mem_map_of_mem (f := fun row : Secret => Write.updateSecret row.id
        { currentVersion := some (before.secret.currentVersion + 1), notes := some storedNotes,
          updatedAt := draws.now }) hmem
      rw [(id_of_isActiveId hfind).2.1] at hwrite
      exact ⟨_, hwrite, rfl⟩
    obtain ⟨set, hwritten, hset⟩ := hwritten
    refine ⟨⟨keyWrites, newVersion before.secret userId storedNote draws.now encrypted,
      updates ++ (tagWrites ++ auditWrites), by simp, hkeys, rfl, rfl, rfl, fun w hw => ?_⟩,
      ⟨set, by simp [hwritten], hset⟩, fun hrecord => ?_⟩
    · simp only [List.mem_append] at hw
      rcases hw with hw | hw | hw
      · rw [hupdates] at hw
        obtain ⟨other, hother, rfl⟩ := List.mem_map.mp hw
        have hactive := (List.mem_filter.mp hother).2
        simp only [isActiveId, Bool.and_eq_true, decide_eq_true_eq] at hactive
        exact ⟨hactive.1, rfl, rfl⟩
      · refine (emits_doIf (emits_replaceTags ?_ (fun tagId => ?_) _)).does htags w hw
        · exact hid
        · exact hid
      · exact (emits_doIf (emits_record (fun _ => trivial) _ _)).does haudit w hw
    · rcases does_doIf.mp haudit with ⟨-, haudit⟩ | ⟨hfalse, -, -⟩
      · obtain ⟨value, -, rfl⟩ := does_record haudit
        refine ⟨Audit.eventRow (versionEvent before.orgId userId action before.secret row) value
          draws.now, by simp, ?_⟩
        rw [← hid]
        exact ⟨rfl, rfl⟩
      · rw [hrecord] at hfalse
        cases hfalse

/-! ## Creation -/

/-- What comes before the first version after a creation: a deleted row is recovered, or there is a
new row. -/
def PreparesRow (before : Secret) (ws : List Write) : Prop :=
  ws = [.insertSecret before] ∨
    ∀ w ∈ ws, ∃ now, w = .updateSecret before.id { deletedAt := some none, updatedAt := now }

/-- The writes of a creation. -/
structure CreatesSecret (projectId environmentId : Uuid) (recordAudit : Bool)
    (ws : List Write) : Prop where
  split : ∃ before preparation rest, ws = preparation ++ rest ∧ PreparesRow before preparation ∧
    before.projectId = projectId ∧ before.environmentId = environmentId ∧
    WritesVersion before recordAudit rest

theorem does_recoverableRow {projectId environmentId : Uuid} {key : JsString}
    {row : Option SecretRow}
    (h : Does (recoverableRow platform projectId environmentId key : TransactionM wrapper _) stmts
      ws row) :
    ∃ db, stmts = [⟨db, (db.secrets.filter (isRecoverable projectId environmentId key)).map
        fun row => .secret row.id, []⟩] ∧ ws = [] ∧
      row = (db.secrets.find? (isRecoverable projectId environmentId key)).map
        (selectSecret platform db) :=
  does_selectForUpdate.mp h

theorem isRecoverable_place {projectId environmentId : Uuid} {key : JsString} {row : Secret}
    (h : isRecoverable projectId environmentId key row = true) :
    row.projectId = projectId ∧ row.environmentId = environmentId ∧ row.key = key := by
  simp only [isRecoverable, Bool.and_eq_true, decide_eq_true_eq] at h
  exact ⟨h.1.1.1.1.1, h.1.1.1.1.2, h.1.1.1.2⟩

theorem does_insertSecret {row : Secret} {inserted : SecretRow}
    (h : Does (insertSecret row : TransactionM wrapper _) stmts ws inserted) :
    ws = [.insertSecret row] ∧ inserted.secret = row := by
  obtain ⟨db, rfl, rfl, hrow⟩ := does_execute.mp h
  split at hrow
  · cases hrow
  · cases hrow
    exact ⟨rfl, rfl⟩

theorem does_create {draws : Draws} {n : Nat} {userId projectId environmentId : Uuid}
    {input : SetSecretInput} {authorized recordAudit : Bool} {metadata : SecretMetadata}
    (h : Does (create platform draws n userId projectId environmentId input authorized recordAudit :
      TransactionM wrapper _) stmts ws metadata) :
    CreatesSecret projectId environmentId recordAudit ws := by
  unfold create at h
  obtain ⟨scope, _, _, _, _, hscope, h₁, rfl, rfl⟩ := does_bind.mp h
  obtain ⟨_, rfl, rfl, -⟩ := does_environment.mp hscope
  obtain ⟨_, _, checks, _, _, hauthorize, h₂, rfl, rfl⟩ := does_bind.mp h₁
  have hchecks : checks = [] := by
    rcases does_doIf.mp hauthorize with ⟨-, hauthorize⟩ | ⟨-, -, hnil⟩
    · exact does_authorizeUser hauthorize
    · exact hnil
  subst hchecks
  obtain ⟨key, _, _, _, _, hkey, h₃, rfl, rfl⟩ := does_bind.mp h₂
  obtain ⟨rfl, rfl, -⟩ := does_attempt.mp hkey
  obtain ⟨notes, _, _, _, _, hnotes, h₄, rfl, rfl⟩ := does_bind.mp h₃
  obtain ⟨rfl, rfl, -⟩ := does_attempt.mp hnotes
  obtain ⟨changeNote, _, _, _, _, hnote, h₅, rfl, rfl⟩ := does_bind.mp h₄
  obtain ⟨rfl, rfl, -⟩ := does_attempt.mp hnote
  obtain ⟨storedKey, _, _, _, _, hstored, h₆, rfl, rfl⟩ := does_bind.mp h₅
  obtain ⟨rfl, rfl, -⟩ := does_attempt.mp hstored
  obtain ⟨recoverable, _, _, _, _, hrecoverable, h₇, rfl, rfl⟩ := does_bind.mp h₆
  obtain ⟨db, rfl, rfl, hfound⟩ := does_recoverableRow hrecoverable
  cases recoverable with
  | some row =>
    obtain ⟨found, hfind, rfl⟩ := Option.map_eq_some_iff.mp hfound.symm
    obtain ⟨hproject, henvironment, -⟩ := isRecoverable_place (List.find?_some hfind)
    obtain ⟨_, _, recovery, _, rest, hupdate, hversion, rfl, rfl⟩ := does_bind.mp h₇
    obtain ⟨other, rfl, rfl, -⟩ := does_execute.mp hupdate
    refine ⟨found, _, rest, rfl, .inr fun w hw => ?_, hproject, henvironment,
      does_writeVersion hversion⟩
    obtain ⟨recovered, hrecovered, rfl⟩ := List.mem_map.mp hw
    have hid := (List.mem_filter.mp hrecovered).2
    rw [decide_eq_true_eq] at hid
    exact ⟨draws.now, by rw [hid]; rfl⟩
  | none =>
    obtain ⟨notes, _, _, _, _, hnotes, h₈, rfl, rfl⟩ := does_bind.mp (does_mapError.mp h₇)
    obtain ⟨rfl, rfl, -⟩ := does_attempt.mp hnotes
    obtain ⟨row, _, _, _, rest, hinsert, hversion, rfl, rfl⟩ := does_bind.mp h₈
    obtain ⟨rfl, hrow⟩ := does_insertSecret hinsert
    refine ⟨row.secret, _, rest, rfl, .inl (by rw [hrow]), ?_, ?_, does_writeVersion hversion⟩
    · rw [hrow]
      rfl
    · rw [hrow]
      rfl

end Himitsu.Secrets
