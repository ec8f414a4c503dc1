import Himitsu.Services.Calls

/-!
# What the services write

For each service program the writes it emits, as a condition `P` that they satisfy; `P` is for the
callers to choose.

* `VersionWrites`, `emits_writeVersion` — the writes of a new version of a secret.
* `emits_read` — the calls that only read secrets.
* `emits_environmentAction`, `emits_projectAction` — the calls on environments and projects.
-/

set_option autoImplicit false

namespace Himitsu.Services

open JsString Crypto Database Transactions

variable {wrapper : KeyWrapper} {P : Write → Prop}

theorem emits_authorizeUser (userId : Uuid) (projectId : Option Uuid) (protectedEnvironment : Bool)
    (permission : Authz.Permission) :
    Emits P (authorizeUser userId projectId protectedEnvironment
      permission : TransactionM wrapper _) := by
  unfold authorizeUser resolve
  refine Emits.bind (Emits.bind (emits_select _) fun membership => ?_) fun context => emits_ofExcept _
  cases membership with
  | none => exact emits_fail _
  | some membership =>
    cases projectId with
    | none => exact emits_ok _
    | some projectId => exact Emits.bind (emits_select _) fun _ => emits_ok _

theorem emits_requireActiveProject (projectId : Uuid) :
    Emits P (Environments.requireActiveProject projectId : TransactionM wrapper _) :=
  Emits.bind (emits_select _) fun _ => Emits.ite (emits_ok _) (emits_fail _)

theorem emits_getEnvironment (userId environmentId : Uuid) (includeDeleted : Bool) :
    Emits P (Environments.get userId environmentId includeDeleted : TransactionM wrapper _) := by
  refine Emits.bind (emits_select _) fun row => ?_
  cases row with
  | none => exact emits_fail _
  | some environment => exact Emits.bind (emits_authorizeUser _ _ _ _) fun _ => emits_ok _

theorem emits_listEnvironments (userId projectId : Uuid) :
    Emits P (Environments.list userId projectId : TransactionM wrapper _) :=
  Emits.bind (emits_requireActiveProject _) fun _ =>
    Emits.bind (emits_authorizeUser _ _ _ _) fun _ => emits_select _

theorem emits_record (hP : ∀ row, P (.insertAuditEvent row)) (now : Timestamp)
    (event : Audit.AuditEventInput) :
    Emits P (Audit.recordInTransaction now event : TransactionM wrapper _) :=
  Emits.bind (emits_ofExcept _) fun _ => Emits.bind (emits_ofExcept _) fun _ =>
    emits_execute fun _ w hw => by rw [List.mem_singleton.mp hw]; exact hP _

theorem emits_map {α : Type} {rows : List α} {write : α → Write} (h : ∀ row ∈ rows, P (write row)) :
    ∀ w ∈ rows.map write, P w := by
  intro w hw
  obtain ⟨row, hrow, rfl⟩ := List.mem_map.mp hw
  exact h row hrow

theorem emits_checkedOr {α β ε : Type} (wrap : ε → ServiceError) (current : β)
    (check : α → Except ε β) (input : Option α) :
    Emits P (checkedOr wrap current check input : TransactionM wrapper _) := by
  cases input with
  | none => exact emits_ok _
  | some input => exact emits_ofExcept _

theorem emits_doIf {condition : Bool} {p : TransactionM wrapper Unit} (h : Emits P p) :
    Emits P (doIf condition p) :=
  Emits.ite h (emits_ok _)

theorem emits_answering {α : Type} {wrap : α → Answer} {p : TransactionM wrapper α}
    (h : Emits P p) : Emits P (answering wrap p) :=
  h.bind fun _ => emits_ok _

theorem emits_updateEnvironments {p : Database.Environment → Bool} {set : EnvironmentSet}
    (h : ∀ row, p row = true → P (.updateEnvironment row.id set)) :
    Emits P (updateEnvironments p set : TransactionM wrapper _) :=
  emits_execute fun _ => emits_map fun row hrow => h row (List.mem_filter.mp hrow).2

theorem emits_updateProjects {p : Database.Project → Bool} {set : ProjectSet}
    (h : ∀ row, p row = true → P (.updateProject row.id set)) :
    Emits P (updateProjects p set : TransactionM wrapper _) :=
  emits_execute fun _ => emits_map fun row hrow => h row (List.mem_filter.mp hrow).2

/-! ## Secrets -/

section

variable (platform : Platform)

theorem emits_metadataRow (secretId : Uuid) (lock : Bool) :
    Emits P (Secrets.metadataRow platform secretId lock : TransactionM wrapper _) := by
  refine Emits.bind (emits_selectForUpdate _ _)
    fun row => ?_
  cases row with
  | none => exact emits_fail _
  | some row => exact emits_ok _

theorem emits_encrypt (hkey : ∀ dataKey nonce, P (.activateKey dataKey nonce)) (draws : Draws)
    (n : Nat) (plaintext : Bytes) (context : SecretEncryptionContext) :
    Emits P (Secrets.encrypt platform draws n plaintext context : TransactionM wrapper _) := by
  refine Emits.bind (emits_ofExcept _) fun _ => Emits.bind ?_ fun record => ?_
  · refine Emits.bind (emits_selectForUpdate _ _)
      fun _ => Emits.bind (emits_select _) fun active => ?_
    cases active with
    | some record => exact emits_ok _
    | none => exact emits_execute fun _ w hw => by rw [List.mem_singleton.mp hw]; exact hkey _ _
  · split
    · exact emits_fail _
    · exact emits_ok _

/-- The writes of a new version of the secret `id` satisfy `P`. -/
structure VersionWrites (P : Write → Prop) (id : Uuid) : Prop where
  key : ∀ dataKey nonce, P (.activateKey dataKey nonce)
  version : ∀ row : SecretVersion, row.secretId = id → P (.insertSecretVersion row)
  row : ∀ set, P (.updateSecret id set)
  untag : P (.deleteSecretTags id)
  tag : ∀ tagId, P (.insertSecretTag ⟨id, tagId⟩)
  audit : ∀ row, P (.insertAuditEvent row)

theorem emits_replaceTags {id : Uuid} (huntag : P (.deleteSecretTags id))
    (htag : ∀ tagId, P (.insertSecretTag ⟨id, tagId⟩)) (tagIds : List Uuid) :
    Emits P (Secrets.replaceTags id tagIds : TransactionM wrapper _) :=
  Emits.ite (emits_fail _) (Emits.bind (emits_select _) fun _ => Emits.ite (emits_fail _)
    (Emits.bind (emits_execute fun _ w hw => by rw [List.mem_singleton.mp hw]; exact huntag)
      fun _ => emits_execute fun _ => emits_map fun _ _ => htag _))

theorem emits_updateSecretRow {id : Uuid} {set : SecretSet} (h : P (.updateSecret id set)) :
    Emits P (Secrets.updateSecretRow id set : TransactionM wrapper _) := by
  refine emits_execute fun _ => emits_map fun row hrow => ?_
  have hid := (List.mem_filter.mp hrow).2
  simp only [Bool.and_eq_true, decide_eq_true_eq] at hid
  rw [hid.1]
  exact h

/-- The row that an update returns is the one that it names. -/
theorem returns_updateSecretRow (id : Uuid) (set : SecretSet) :
    Returns (fun row : Option Secret => ∀ found, row = some found → found.id = id)
      (Secrets.updateSecretRow id set : TransactionM wrapper _) := by
  refine returns_execute fun db row hrow found hfound => ?_
  cases hrow
  obtain ⟨old, hold, rfl⟩ := Option.map_eq_some_iff.mp hfound
  have hid := List.find?_some hold
  simp only [Bool.and_eq_true, decide_eq_true_eq] at hid
  exact hid.1

theorem emits_writeVersion {before : Secrets.SecretRow} (h : VersionWrites P before.secret.id)
    (draws : Draws) (n : Nat) (userId : Uuid) (input : Secrets.VersionInput)
    (action : Secrets.VersionAction) (recordAudit : Bool) :
    Emits P (Secrets.writeVersion platform draws n userId before input action recordAudit :
      TransactionM wrapper _) := by
  unfold Secrets.writeVersion
  refine Emits.bind (emits_ofExcept _) fun plaintext =>
    Emits.bind (emits_checkedOr _ _ _ _) fun notes => Emits.bind (emits_ofExcept _)
      fun changeNote => Emits.bind (emits_encrypt platform h.key _ _ _ _) fun encrypted =>
        Emits.bind (emits_ofExcept _) fun changeNote => Emits.bind
          (emits_execute fun _ w hw => by rw [List.mem_singleton.mp hw]; exact h.version _ rfl)
          fun _ => Emits.bind (emits_ofExcept _) fun notes =>
            Emits.bind_of (emits_updateSecretRow (h.row _)) (returns_updateSecretRow _ _)
              fun updated hupdated => ?_
  cases updated with
  | none => exact emits_fail _
  | some row =>
    rw [← hupdated row rfl] at h
    exact Emits.bind (emits_doIf (emits_replaceTags h.untag h.tag _)) fun _ =>
      Emits.bind (emits_doIf (emits_record h.audit _ _)) fun _ =>
        Emits.bind (emits_metadataRow _ _ _) fun _ => emits_ok _

/-- The writes of an update that leaves the value of the secret `id` satisfy `P`. -/
structure MetadataWrites (P : Write → Prop) (id : Uuid) : Prop where
  row : ∀ set, set.currentVersion = none → set.deletedAt = none → P (.updateSecret id set)
  untag : P (.deleteSecretTags id)
  tag : ∀ tagId, P (.insertSecretTag ⟨id, tagId⟩)
  audit : ∀ row, P (.insertAuditEvent row)

theorem VersionWrites.metadata {id : Uuid} (h : VersionWrites P id) : MetadataWrites P id :=
  ⟨fun set _ _ => h.row set, h.untag, h.tag, h.audit⟩

theorem emits_writeMetadata {before : Secrets.SecretRow} (h : MetadataWrites P before.secret.id)
    (draws : Draws) (userId : Uuid) (input : Secrets.MetadataInput) :
    Emits P (Secrets.writeMetadata platform draws userId before input :
      TransactionM wrapper _) := by
  unfold Secrets.writeMetadata
  refine Emits.bind (emits_checkedOr _ _ _ _) fun notes => Emits.bind (emits_ofExcept _)
    fun notes => Emits.bind_of (emits_updateSecretRow (h.row _ rfl rfl))
      (returns_updateSecretRow _ _) fun updated hupdated => ?_
  cases updated with
  | none => exact emits_fail _
  | some row =>
    rw [← hupdated row rfl] at h
    exact Emits.bind (emits_doIf (emits_replaceTags h.untag h.tag _)) fun _ =>
      Emits.bind (emits_record h.audit _ _) fun _ =>
        Emits.bind (emits_metadataRow _ _ _) fun _ => emits_ok _

end

/-! ## Reading secrets -/

/-- The writes of a read satisfy `P`. -/
structure ReadWrites (P : Write → Prop) : Prop where
  decryption : ∀ row, P (.noteDecryption row)
  audit : ∀ row, P (.insertAuditEvent row)

section

variable (platform : Platform)

theorem emits_secretEnvironment (projectId environmentId : Uuid) :
    Emits P (Secrets.environment projectId environmentId : TransactionM wrapper _) := by
  refine Emits.bind (emits_select _) fun row => ?_
  cases row with
  | none => exact emits_fail _
  | some row => exact emits_ok _

theorem emits_valueRow (secretId : Uuid) :
    Emits P (Secrets.valueRow platform secretId : TransactionM wrapper _) := by
  refine Emits.bind (emits_select _) fun row => ?_
  cases row with
  | none => exact emits_fail _
  | some row => exact emits_ok _

theorem emits_versionValueRow (secretId : Uuid) (version : Nat) :
    Emits P (Secrets.versionValueRow platform secretId version : TransactionM wrapper _) := by
  refine Emits.bind (emits_select _) fun row => ?_
  cases row with
  | none => exact emits_fail _
  | some row => exact emits_ok _

theorem emits_authorizePromotion (userId projectId source target : Uuid)
    (keys : Option (List JsString)) :
    Emits P (Secrets.authorizePromotion userId projectId source target keys :
      TransactionM wrapper _) :=
  Emits.bind (emits_ofExcept _) fun _ => Emits.bind (emits_secretEnvironment _ _) fun _ =>
    Emits.bind (emits_secretEnvironment _ _) fun _ => Emits.bind (emits_authorizeUser _ _ _ _)
      fun _ => Emits.bind (emits_authorizeUser _ _ _ _) fun _ => emits_ok _

theorem emits_selectPromotion (projectId source target : Uuid) (keys : Option (List JsString))
    (lock : Bool) :
    Emits P (Secrets.selectPromotion platform projectId source target keys lock :
      TransactionM wrapper _) :=
  Emits.bind (emits_ofExcept _) fun _ => emits_selectForUpdate _ _

variable (h : ReadWrites P)
include h

theorem emits_decrypt (row : Secrets.SecretValueRow) (recordVersion : Nat) :
    Emits P (Secrets.decrypt platform row recordVersion : TransactionM wrapper _) :=
  emits_execute fun _ w hw => by rw [List.mem_singleton.mp hw]; exact h.decryption _

theorem emits_decryptAll (rows : List Secrets.SecretValueRow) :
    Emits P (Secrets.decryptAll platform rows : TransactionM wrapper _) :=
  Emits.forEach (fun _ _ => Emits.bind (emits_decrypt platform h _ _) fun _ => emits_ok _) 0 rows

theorem emits_getSecret (draws : Draws) (userId secretId : Uuid) :
    Emits P (Secrets.get platform draws userId secretId : TransactionM wrapper _) :=
  Emits.bind (emits_valueRow _ _) fun _ => Emits.bind (emits_secretEnvironment _ _) fun _ =>
    Emits.bind (emits_authorizeUser _ _ _ _) fun _ => Emits.bind (emits_decrypt platform h _ _)
      fun _ => Emits.bind (emits_record h.audit _ _) fun _ => emits_ok _

theorem emits_previewItem (targets : List Secrets.SecretValueRow)
    (source : Secrets.SecretValueRow) :
    Emits P (Secrets.previewItem platform targets source : TransactionM wrapper _) := by
  unfold Secrets.previewItem
  cases Secrets.targetOf targets source with
  | none => exact emits_ok _
  | some target =>
    exact Emits.bind (Emits.bind (emits_decrypt platform h _ _) fun _ =>
      Emits.bind (emits_decrypt platform h _ _) fun _ => emits_ok _) fun _ => emits_ok _

theorem emits_promotionPreview
    (rows : List Secrets.SecretValueRow × List Secrets.SecretValueRow) (source target : Uuid)
    (selectedKeys : Option (List JsString)) :
    Emits P (Secrets.promotionPreview platform rows source target selectedKeys :
      TransactionM wrapper _) :=
  Emits.ite (emits_fail _) (Emits.bind (Emits.forEach
    (fun _ _ => emits_previewItem platform h _ _) 0 _) fun _ => emits_ok _)

/-- The calls on secrets that read only. -/
def isRead : SecretCall → Bool
  | .list .. | .get .. | .runtimeConfig .. | .exportConfig .. | .listVersions ..
  | .compareVersions .. | .previewPromotion .. => true
  | _ => false

theorem emits_read (config : Config) (userId : Uuid) (draws : Draws) {call : SecretCall}
    (hread : isRead call = true) :
    Emits P (call.program config userId draws : TransactionM wrapper Answer) := by
  cases call with
  | list =>
    exact emits_answering (Emits.bind (emits_secretEnvironment _ _) fun _ =>
      Emits.bind (emits_authorizeUser _ _ _ _) fun _ => Emits.bind (emits_ofExcept _) fun _ =>
        Emits.bind (emits_select _) fun _ => emits_ok _)
  | get => exact emits_answering (emits_getSecret _ h _ _ _)
  | runtimeConfig =>
    refine emits_answering (Emits.bind (emits_secretEnvironment _ _) fun _ =>
      Emits.bind (emits_authorizeUser _ _ _ _) fun _ => Emits.ite (emits_fail _)
        (Emits.ite (emits_ok _) ?_))
    exact Emits.bind (emits_select _) fun _ => Emits.bind (emits_decryptAll _ h _) fun _ =>
      Emits.bind (emits_select _) fun _ => Emits.bind (emits_record h.audit _ _) fun _ =>
        emits_ok _
  | exportConfig =>
    refine emits_answering (Emits.bind (Emits.bind (emits_select _) fun scope => ?_) fun scope =>
      Emits.bind (emits_authorizeUser _ _ _ _) fun _ => ?_)
    · cases scope with
      | none => exact emits_fail _
      | some scope => exact emits_ok _
    · exact Emits.bind (emits_select _) fun _ => Emits.bind (emits_decryptAll _ h _) fun _ =>
        Emits.bind (emits_ofExcept _) fun _ => Emits.bind (emits_select _) fun _ =>
          Emits.bind (emits_record h.audit _ _) fun _ => emits_ok _
  | listVersions =>
    exact emits_answering (Emits.bind (emits_metadataRow _ _ _) fun _ =>
      Emits.bind (emits_secretEnvironment _ _) fun _ => Emits.bind (emits_authorizeUser _ _ _ _)
        fun _ => Emits.bind (emits_select _) fun _ => emits_ok _)
  | compareVersions =>
    refine emits_answering (Emits.ite (emits_fail _) (Emits.bind (emits_metadataRow _ _ _)
      fun _ => Emits.bind (emits_secretEnvironment _ _) fun _ =>
        Emits.bind (emits_authorizeUser _ _ _ _) fun _ => Emits.ite (emits_fail _)
          (Emits.bind (emits_select _) fun rows => ?_)))
    split
    · exact Emits.bind (emits_decrypt _ h _ _) fun _ => Emits.bind
        (Emits.ite (emits_ok _) (emits_decrypt _ h _ _)) fun _ =>
          Emits.bind (emits_record h.audit _ _) fun _ => emits_ok _
    · exact emits_fail _
  | previewPromotion =>
    refine emits_answering (Emits.bind (emits_authorizePromotion _ _ _ _ _) fun _ => Emits.bind
      (emits_selectPromotion _ _ _ _ _ _) fun rows => emits_promotionPreview _ h _ _ _ _)
  | rollback | create | update | bulkSet | importBatch | promote | delete => cases hread

end

/-! ## Calls on environments and projects -/

theorem emits_updateSecrets {p : Secret → Bool} {set : SecretSet}
    (h : ∀ row, p row = true → P (.updateSecret row.id set)) :
    Emits P (updateSecrets p set : TransactionM wrapper _) :=
  emits_execute fun _ => emits_map fun row hrow => h row (List.mem_filter.mp hrow).2

/-- The writes of a call on environments satisfy `P`. -/
structure EnvironmentWrites (P : Write → Prop) : Prop where
  environment : ∀ id set, P (.updateEnvironment id set)
  secret : ∀ id set, set.currentVersion = none → P (.updateSecret id set)
  audit : ∀ row, P (.insertAuditEvent row)

theorem emits_environmentAction (h : EnvironmentWrites P) (config : Config) (userId : Uuid)
    (draws : Draws) {call : EnvironmentCall}
    (hcreate : ∀ projectId input, call = .create projectId input →
      ∀ row, P (.insertEnvironment row)) :
    Emits P (call.program config userId draws : TransactionM wrapper Answer) := by
  cases call with
  | list => exact emits_answering (emits_listEnvironments _ _)
  | get => exact emits_answering (emits_getEnvironment _ _ _)
  | create projectId input =>
    refine emits_answering (Emits.bind (emits_requireActiveProject _) fun _ =>
      Emits.bind (emits_authorizeUser _ _ _ _) fun _ => Emits.bind (emits_select _) fun _ =>
        Emits.ite (emits_fail _) (Emits.mapError ?_ _))
    exact Emits.bind (emits_ofExcept _) fun _ => Emits.bind (emits_ofExcept _) fun _ =>
      Emits.bind (emits_ofExcept _) fun _ => Emits.bind
        (emits_execute fun _ w hw => by rw [List.mem_singleton.mp hw]; exact hcreate _ _ rfl _)
        fun _ => Emits.bind (emits_record h.audit _ _) fun _ => emits_ok _
  | update environmentId input =>
    refine emits_answering (Emits.bind (emits_getEnvironment _ _ _) fun _ =>
      Emits.bind (emits_authorizeUser _ _ _ _) fun _ => Emits.bind (emits_checkedOr _ _ _ _)
        fun _ => Emits.bind (emits_checkedOr _ _ _ _) fun _ => Emits.mapError ?_ _)
    refine Emits.bind (emits_ofExcept _) fun _ => Emits.bind
      (emits_execute fun _ => emits_map fun _ _ => h.environment _ _) fun row => ?_
    cases row with
    | none => exact emits_fail _
    | some after => exact Emits.bind (emits_record h.audit _ _) fun _ => emits_ok _
  | reorder projectId environmentIds =>
    refine emits_answering (Emits.bind (emits_requireActiveProject _) fun _ =>
      Emits.bind (emits_authorizeUser _ _ _ _) fun _ => Emits.ite (emits_fail _)
        (Emits.bind (emits_select _) fun _ => Emits.ite (emits_fail _) ?_))
    exact Emits.bind (emits_doIf (emits_authorizeUser _ _ _ _)) fun _ =>
      Emits.bind (emits_execute fun _ => emits_map fun _ _ => h.environment _ _) fun _ =>
        Emits.bind (emits_record h.audit _ _) fun _ => emits_listEnvironments _ _
  | delete environmentId confirmSecrets =>
    refine emits_answering (Emits.bind (emits_getEnvironment _ _ _) fun _ =>
      Emits.bind (emits_authorizeUser _ _ _ _) fun _ => Emits.bind (emits_select _) fun _ =>
        Emits.ite (emits_fail _) (Emits.ite (emits_fail _) ?_))
    exact Emits.bind (emits_ofExcept _) fun _ => Emits.bind (emits_ofExcept _) fun _ =>
      Emits.bind (emits_updateEnvironments fun _ _ => h.environment _ _) fun _ =>
        Emits.bind (emits_updateSecrets fun _ _ => h.secret _ _ rfl) fun _ =>
          Emits.bind (emits_record h.audit _ _) fun _ => emits_ok _
  | restore environmentId =>
    refine emits_answering (Emits.bind (emits_getEnvironment _ _ _) fun environment => ?_)
    split
    · exact emits_fail _
    · exact Emits.bind (emits_select _) fun _ => Emits.ite (emits_fail _)
        (Emits.bind (emits_requireActiveProject _) fun _ =>
          Emits.bind (emits_authorizeUser _ _ _ _) fun _ => Emits.bind (emits_ofExcept _) fun _ =>
            Emits.bind (emits_updateEnvironments fun _ _ => h.environment _ _) fun _ =>
              Emits.bind (emits_updateSecrets fun _ _ => h.secret _ _ rfl) fun _ =>
                Emits.bind (emits_record h.audit _ _) fun _ => emits_getEnvironment _ _ _)

/-- The writes of a call on projects satisfy `P`. -/
structure ProjectWrites (P : Write → Prop) : Prop extends EnvironmentWrites P where
  project : ∀ id set, P (.updateProject id set)
  untag : ∀ id, P (.deleteProjectTags id)
  tag : ∀ row, P (.insertProjectTag row)

section

variable (platform : Platform)

theorem emits_getProject (userId projectId : Uuid) (includeDeleted : Bool) :
    Emits P (Projects.getById platform userId projectId includeDeleted :
      TransactionM wrapper _) := by
  refine Emits.bind (emits_select _) fun row => ?_
  cases row with
  | none => exact emits_fail _
  | some row => exact Emits.bind (emits_authorizeUser _ _ _ _) fun _ => emits_ofExcept _

theorem emits_replaceProjectTags (h : ProjectWrites P) (projectId : Uuid) (tagIds : List Uuid) :
    Emits P (Projects.replaceTags projectId tagIds : TransactionM wrapper _) :=
  Emits.ite (emits_fail _) (Emits.bind (emits_select _) fun _ => Emits.ite (emits_fail _)
    (Emits.bind (emits_execute fun _ w hw => by rw [List.mem_singleton.mp hw]; exact h.untag _)
      fun _ => emits_execute fun _ => emits_map fun _ _ => h.tag _))

theorem emits_insertProjectRow (hproject : ∀ row, P (.insertProject row))
    (henvironment : ∀ row, P (.insertEnvironment row)) (draws : Draws) (row : Database.Project) :
    Emits P (Projects.insertRow draws row : TransactionM wrapper _) := by
  refine emits_execute fun _ w hw => ?_
  rcases List.mem_cons.mp hw with rfl | hw
  · exact hproject _
  · exact emits_map (fun _ _ => henvironment _) w hw

end

theorem emits_projectAction (h : ProjectWrites P) (config : Config) (userId : Uuid) (draws : Draws)
    {call : ProjectCall}
    (hcreate : ∀ input, call = .create input →
      (∀ row, P (.insertProject row)) ∧ ∀ row, P (.insertEnvironment row)) :
    Emits P (call.program config userId draws : TransactionM wrapper Answer) := by
  cases call with
  | create input =>
    obtain ⟨hproject, henvironment⟩ := hcreate _ rfl
    refine emits_answering (Emits.bind (emits_authorizeUser _ _ _ _) fun _ =>
      Emits.bind (emits_ofExcept _) fun _ => Emits.mapError ?_ _)
    refine Emits.bind (emits_ofExcept _) fun _ => Emits.bind (emits_ofExcept _) fun _ =>
      Emits.bind (emits_ofExcept _) fun _ => Emits.bind (emits_ofExcept _) fun _ =>
        Emits.bind (emits_ofExcept _) fun _ =>
          Emits.bind (emits_insertProjectRow hproject henvironment _ _) fun _ =>
            Emits.bind (emits_replaceProjectTags h _ _) fun _ =>
              Emits.bind (emits_getProject _ _ _ _) fun _ =>
                Emits.bind (emits_record h.audit _ _) fun _ => emits_ok _
  | getBySlug slug includeDeleted =>
    refine emits_answering (Emits.bind (emits_ofExcept _) fun _ =>
      Emits.bind (emits_select _) fun row => ?_)
    cases row with
    | none => exact emits_fail _
    | some row => exact Emits.bind (emits_authorizeUser _ _ _ _) fun _ => emits_ofExcept _
  | getById => exact emits_answering (emits_getProject _ _ _ _)
  | list =>
    exact emits_answering (Emits.bind (emits_authorizeUser _ _ _ _) fun _ =>
      Emits.bind (emits_select _) fun _ => emits_ofExcept _)
  | update projectId input =>
    refine emits_answering (Emits.bind (emits_getProject _ _ _ _) fun _ =>
      Emits.bind (emits_authorizeUser _ _ _ _) fun _ => Emits.bind (emits_checkedOr _ _ _ _)
        fun _ => Emits.bind (emits_checkedOr _ _ _ _) fun _ =>
          Emits.bind (emits_checkedOr _ _ _ _) fun _ => Emits.bind (emits_checkedOr _ _ _ _)
            fun _ => Emits.mapError ?_ _)
    exact Emits.bind (emits_ofExcept _) fun _ => Emits.bind (emits_ofExcept _) fun _ =>
      Emits.bind (emits_execute fun _ => emits_map fun _ _ => h.project _ _) fun _ =>
        Emits.bind (emits_doIf (emits_replaceProjectTags h _ _)) fun _ =>
          Emits.bind (emits_getProject _ _ _ _) fun _ =>
            Emits.bind (emits_record h.audit _ _) fun _ => emits_ok _
  | setArchived projectId archived =>
    exact emits_answering (Emits.bind (emits_getProject _ _ _ _) fun _ =>
      Emits.bind (emits_authorizeUser _ _ _ _) fun _ =>
        Emits.bind (emits_updateProjects fun _ _ => h.project _ _) fun _ =>
          Emits.bind (emits_getProject _ _ _ _) fun _ =>
            Emits.bind (emits_record h.audit _ _) fun _ => emits_ok _)
  | delete projectId =>
    exact emits_answering (Emits.bind (emits_getProject _ _ _ _) fun _ =>
      Emits.bind (emits_authorizeUser _ _ _ _) fun _ => Emits.bind (emits_ofExcept _) fun _ =>
        Emits.bind (emits_ofExcept _) fun _ =>
          Emits.bind (emits_updateProjects fun _ _ => h.project _ _) fun _ =>
            Emits.bind (emits_updateEnvironments fun _ _ => h.environment _ _) fun _ =>
              Emits.bind (emits_updateSecrets fun _ _ => h.secret _ _ rfl) fun _ =>
                Emits.bind (emits_getProject _ _ _ _) fun _ =>
                  Emits.bind (emits_record h.audit _ _) fun _ => emits_ok _)
  | restore projectId =>
    refine emits_answering (Emits.bind (emits_getProject _ _ _ _) fun project =>
      Emits.bind (emits_authorizeUser _ _ _ _) fun _ => ?_)
    split
    · exact Emits.ite (emits_fail _)
        (Emits.bind (emits_updateProjects fun _ _ => h.project _ _) fun _ =>
          Emits.bind (emits_ofExcept _) fun _ =>
            Emits.bind (emits_updateEnvironments fun _ _ => h.environment _ _) fun _ =>
              Emits.bind (emits_updateSecrets fun _ _ => h.secret _ _ rfl) fun _ =>
                Emits.bind (emits_getProject _ _ _ _) fun _ =>
                  Emits.bind (emits_record h.audit _ _) fun _ => emits_ok _)
    · exact emits_fail _

end Himitsu.Services
