import Himitsu.Lifecycle.ProjectCalls

/-!
# The secret calls and the deletion marks

Principal results: `Secrets.create_performs`, `Secrets.delete_performs` — what a creation and a
deletion do to the marks; `secretCall_performs` — a secret call changes the marks of secrets only.
-/

set_option autoImplicit false

namespace Himitsu.Lifecycle

open JsString Crypto Database Services Transactions SoftDelete

variable {wrapper : KeyWrapper} {α β : Type}

/-- The actions on secrets. -/
def OnSecrets : SoftDelete.Action Id → Prop
  | .insert (.secret _) _ | .delete (.secret _) | .restore (.secret _) => True
  | _ => False

/-! ## Runs of changes -/

/-- From sound marks, the transaction is a run of allowed changes. -/
def Performs (allowed : SoftDelete.Action Id → Prop) (p : TransactionM wrapper α) : Prop :=
  ∀ db, Sound (marks db) → Ensures apply p db fun _ db' => Changes allowed (marks db) (marks db')

section

variable {allowed : SoftDelete.Action Id → Prop}

theorem Quiet.performs {p : TransactionM wrapper α} (h : Quiet p) : Performs allowed p :=
  fun _ _ => h.changes

theorem ReadOnly.performs {p : TransactionM wrapper α} (h : ReadOnly p) : Performs allowed p :=
  h.quiet.performs

theorem Performs.bind {p : TransactionM wrapper α} {f : α → TransactionM wrapper β}
    (hp : Performs allowed p) (hf : ∀ a, Performs allowed (f a)) : Performs allowed (p >>= f) := by
  intro db hsound
  rw [ensures_bind]
  refine (hp db hsound).mono fun a db' hchanges => ?_
  exact (hf a db' (hchanges.refines hsound).2).mono fun _ _ hmore => hchanges.trans hmore

theorem Performs.ite {c : Prop} [Decidable c] {p q : TransactionM wrapper α}
    (hp : Performs allowed p) (hq : Performs allowed q) : Performs allowed (if c then p else q) := by
  split
  · exact hp
  · exact hq

theorem performs_fail (error : ServiceError) :
    Performs allowed (raise error : TransactionM wrapper α) :=
  (readOnly_raise error).performs

theorem Performs.forEach {f : Nat → β → TransactionM wrapper α} (hf : ∀ n b, Performs allowed (f n b))
    (n : Nat) (bs : List β) : Performs allowed (Prog.forEach f n bs) := by
  intro db hsound
  refine (ensures_forEach (fun s => Sound (marks s) ∧ Changes allowed (marks db) (marks s))
    (fun n b _ s hs => ?_) ⟨hsound, .refl⟩).mono fun _ _ => And.right
  refine (hf n b s hs.1).mono fun _ s' hchanges => ?_
  exact ⟨(hchanges.refines hs.1).2, hs.2.trans hchanges⟩

theorem Performs.answering {wrap : α → Answer} {p : TransactionM wrapper α}
    (h : Performs allowed p) : Performs allowed (answering wrap p) :=
  fun db hsound => ensures_answering (h db hsound)

end

variable {db : Db wrapper} {platform : Platform}

/-! ## Lookups -/

/-- A row of an environment that the services show as active. -/
structure ActiveIn (db : Db wrapper) (projectId environmentId : Uuid) : Prop where
  environment : ⟨environmentId, projectId, none, none⟩ ∈ (marks db).environments
  project : ⟨projectId, none⟩ ∈ (marks db).projects

theorem ensures_secretEnvironment (h : Consistent (marks db)) {projectId environmentId : Uuid}
    {Q : Database.Environment → Db wrapper → Prop}
    (hQ : ∀ row, ActiveIn db projectId environmentId → Q row db) :
    Ensures apply (Secrets.environment projectId environmentId) db Q := by
  unfold Secrets.environment
  rw [ensures_bind, ensures_select]
  cases hfind : activeEnvironment db projectId environmentId with
  | none => exact ensures_fail
  | some row =>
    have hmatch := List.find?_some hfind
    simp only [Bool.and_eq_true, decide_eq_true_eq, Option.isNone_iff_eq_none,
      List.any_eq_true] at hmatch
    obtain ⟨⟨⟨rfl, rfl⟩, hactive⟩, project, hproject, hid, hprojectActive⟩ := hmatch
    refine ensures_done_ok.mpr (hQ row ⟨?_, ?_⟩)
    · exact environmentMark_mem h (List.mem_of_find?_eq_some hfind) hactive
    · rw [← hid]
      exact activeProject_mem hproject hprojectActive

theorem ensures_metadataRow {secretId : Uuid} {lock : Bool}
    {Q : Secrets.SecretRow → Db wrapper → Prop}
    (hQ : ∀ row ∈ db.secrets, row.id = secretId → row.deletedAt = none →
      Q (Secrets.selectSecret platform db row) db) :
    Ensures apply (Secrets.metadataRow platform secretId lock) db Q := by
  unfold Secrets.metadataRow
  rw [ensures_bind, ensures_selectForUpdate]
  cases hfind : db.secrets.find? fun row => row.id = secretId && row.deletedAt.isNone with
  | none => exact ensures_fail
  | some row =>
    have hmatch := List.find?_some hfind
    simp only [Bool.and_eq_true, decide_eq_true_eq, Option.isNone_iff_eq_none] at hmatch
    exact ensures_done_ok.mpr (hQ row (List.mem_of_find?_eq_some hfind) hmatch.1 hmatch.2)

namespace Secrets

/-! ## Creation -/

/-- The `UPDATE` with which `#create` recovers a row. -/
theorem ensures_recover (h : Consistent (marks db)) {id : Uuid} {now : Timestamp}
    {Q : Db wrapper → Prop} (hQ : ∀ db', marks db' = (marks db).recoverSecret id → Q db') :
    Ensures apply (updateSecrets (·.id = id) { deletedAt := some none, updatedAt := now }) db
      fun _ db' => Q db' := by
  refine ensures_updateSecrets (nodup_of_consistent h).2.2 fun raise' => hQ _ ?_
  simp only [marks, Marks.recoverSecret, map_raiseVersions]
  congr 1
  refine map_updateWhere_comm (fun row => ?_) (fun row => ?_) _ <;> rfl

theorem ensures_insertSecret {row : Secret} (hrow : row.deletedAt = none)
    (hproject : row.deletedByProjectAt = none) (henvironment : row.deletedByEnvironmentAt = none)
    {Q : Secrets.SecretRow → Db wrapper → Prop}
    (hQ : ∀ result db', (marks db).secretOf row.id = none →
      marks db' = { marks db with
        secrets := (marks db).secrets ++ [⟨row.id, row.projectId, row.environmentId, none, none,
          none⟩] } → Q result db') :
    Ensures apply (Secrets.insertSecret row) db Q := by
  rw [Secrets.insertSecret, ensures_execute]
  intro result hresult
  split at hresult
  · cases hresult
  rename_i hnew
  rw [Bool.not_eq_true, List.any_eq_false] at hnew
  refine hQ result _ (List.find?_eq_none.mpr fun mark hmark heq => ?_) ?_
  · obtain ⟨other, hother, rfl⟩ := List.mem_map.mp hmark
    exact hnew other hother (by simp [show other.id = row.id from of_decide_eq_true heq])
  · simp [marks, apply, secretMark, hrow, hproject, henvironment]

theorem isRecoverable_mark {projectId environmentId : Uuid} {key : JsString} {row : Secret}
    (h : Secrets.isRecoverable projectId environmentId key row = true) :
    ∃ time, secretMark row = ⟨row.id, projectId, environmentId, some time, none, none⟩ := by
  simp only [Secrets.isRecoverable, Bool.and_eq_true, decide_eq_true_eq, Option.isSome_iff_exists,
    Option.isNone_iff_eq_none] at h
  obtain ⟨⟨⟨⟨⟨hproject, henvironment⟩, -⟩, time, htime⟩, hbyProject⟩, hbyEnvironment⟩ := h
  exact ⟨time, by rw [secretMark, hproject, henvironment, htime, hbyProject, hbyEnvironment]⟩

/-- A creation inserts a row, or recovers one that was deleted alone. -/
theorem create_performs {draws : Draws} {n : Nat} {userId projectId environmentId : Uuid}
    {input : Secrets.SetSecretInput} {authorized recordAudit : Bool} :
    Performs OnSecrets
      (Secrets.create platform draws n userId projectId environmentId input authorized recordAudit :
        TransactionM wrapper _) := by
  intro db hsound
  have h := hsound.consistent
  unfold Secrets.create
  rw [ensures_bind]
  refine ensures_secretEnvironment h fun row hactive => ?_
  rw [ensures_bind]
  refine ReadOnly.ensures_of (Keeps.ite (readOnly_authorizeUser _ _ _ _) (keeps_ok _)) fun _ => ?_
  rw [ensures_bind]
  refine (readOnly_attempt _ _).ensures_of fun key => ?_
  rw [ensures_bind]
  refine (readOnly_attempt _ _).ensures_of fun notes => ?_
  rw [ensures_bind]
  refine (readOnly_attempt _ _).ensures_of fun changeNote => ?_
  rw [ensures_bind]
  refine (readOnly_attempt _ _).ensures_of fun storedKey => ?_
  rw [ensures_bind, Secrets.recoverableRow, ensures_selectForUpdate]
  cases hfind : db.secrets.find? (Secrets.isRecoverable projectId environmentId storedKey) with
  | some recoverable =>
    have hmem := mem_secrets (List.mem_of_find?_eq_some hfind)
    obtain ⟨time, hmark⟩ := isRecoverable_mark (List.find?_some hfind)
    rw [hmark] at hmem
    show Ensures apply (updateSecrets _ _ >>= _) db _
    rw [ensures_bind]
    refine ensures_recover h fun db' hmarks => ?_
    refine (quiet_writeVersion _ _ _ _ _ _ _ _).ensures fun _ db'' hkept => ?_
    rw [hkept, hmarks]
    exact (Change.recoverSecret (marks db) recoverable.id projectId environmentId time hmem
      hactive.environment hactive.project).changes trivial
  | none =>
    show Ensures apply (Prog.mapError _ _) db _
    rw [ensures_mapError, ensures_bind]
    refine (readOnly_attempt _ _).ensures_of fun notes => ?_
    rw [ensures_bind]
    refine ensures_insertSecret rfl rfl rfl fun row db' hfresh hmarks => ?_
    refine (quiet_writeVersion _ _ _ _ _ _ _ _).ensures fun _ db'' hkept => ?_
    rw [hkept, hmarks]
    exact (Change.createSecret (marks db) _ projectId environmentId hfresh hactive.environment
      hactive.project).changes trivial

/-! ## Deletion -/

/-- The `UPDATE` of `delete`. -/
theorem ensures_deleteRow (h : Consistent (marks db)) {id : Uuid} {time now : Timestamp}
    {Q : Db wrapper → Prop} (hQ : ∀ db', marks db' = (marks db).deleteSecret id time → Q db') :
    Ensures apply (updateSecrets (fun row => row.id = id && row.deletedAt.isNone)
      { deletedAt := some (some time), updatedAt := now }) db fun _ db' => Q db' := by
  refine ensures_updateSecrets (nodup_of_consistent h).2.2 fun raise' => hQ _ ?_
  simp only [marks, Marks.deleteSecret, map_raiseVersions]
  congr 1
  refine map_updateWhere_comm (fun row => ?_) (fun row => ?_) _ <;> rfl

theorem delete_performs {draws : Draws} {userId secretId : Uuid} :
    Performs OnSecrets
      (Secrets.delete platform draws userId secretId : TransactionM wrapper _) := by
  intro db hsound
  have h := hsound.consistent
  unfold Secrets.delete
  rw [ensures_bind]
  refine ensures_metadataRow fun row hrow hid hactive => ?_
  subst hid
  rw [ensures_bind]
  refine (readOnly_environment _ _).ensures_of fun scope => ?_
  rw [ensures_bind]
  refine (readOnly_authorizeUser _ _ _ _).ensures_of fun _ => ?_
  rw [ensures_bind]
  refine ensures_deleteRow h fun db' hmarks => ?_
  rw [ensures_bind]
  refine (quiet_record _ _).ensures fun _ db'' hkept => ensures_done_ok.mpr ?_
  rw [hkept, hmarks]
  have hmark := mem_secrets hrow
  obtain ⟨hbyProject, hbyEnvironment⟩ := h.secret_active hmark hactive
  rw [secretMark, hactive, show row.deletedByProjectAt = none from hbyProject,
    show row.deletedByEnvironmentAt = none from hbyEnvironment] at hmark
  exact (Change.deleteSecret (marks db) row.id _ _ draws.now hmark).changes trivial

end Secrets

/-! ## Batches -/

section

variable {draws : Draws} {userId projectId environmentId : Uuid}

theorem readOnly_activeRow (key : JsString) : ReadOnly
    (Secrets.activeRow platform projectId environmentId key : TransactionM wrapper _) :=
  keeps_selectForUpdate _ _

theorem performs_setOne (n : Nat) (item : Secrets.SetSecretInput × JsString) :
    Performs OnSecrets
      (Secrets.setOne platform draws userId projectId environmentId n item :
        TransactionM wrapper _) := by
  refine Performs.bind (readOnly_attempt _ _).performs fun storedKey =>
    Performs.bind (readOnly_activeRow _).performs fun existing => ?_
  cases existing with
  | none => exact Secrets.create_performs
  | some row => exact (quiet_writeVersion _ _ _ _ _ _ _ _).performs

theorem performs_bulkSet {inputs : List Secrets.SetSecretInput} :
    Performs OnSecrets
      (Secrets.bulkSet platform draws userId projectId environmentId inputs :
        TransactionM wrapper _) := by
  refine Performs.ite (performs_fail _) (Performs.bind (readOnly_attempt _ _).performs fun keys =>
    Performs.ite (performs_fail _) ?_)
  exact Performs.bind (readOnly_environment _ _).performs fun scope =>
    Performs.bind (readOnly_authorizeUser _ _ _ _).performs fun _ =>
      Performs.forEach performs_setOne 0 _

theorem performs_importOne {strategy : Secrets.SecretImportStrategy} {selected : List JsString}
    {format : Secrets.SecretImportFormat} {existing : List Secrets.SecretRow} (n : Nat)
    (item : Secrets.SetSecretInput × JsString) :
    Performs OnSecrets (Secrets.importOne platform draws userId projectId
      environmentId strategy selected format existing n item : TransactionM wrapper _) := by
  unfold Secrets.importOne
  refine Performs.ite (ReadOnly.performs (keeps_ok _)) ?_
  cases existing.find? fun row => row.secret.key = item.2 with
  | none =>
    exact Performs.bind Secrets.create_performs fun _ => ReadOnly.performs (keeps_ok _)
  | some row =>
    exact Performs.bind (quiet_writeVersion _ _ _ _ _ _ _ _).performs fun _ =>
      ReadOnly.performs (keeps_ok _)

theorem performs_importBatch {inputs : List Secrets.SetSecretInput}
    {strategy : Secrets.SecretImportStrategy} {selectedKeys : List JsString}
    {format : Secrets.SecretImportFormat} :
    Performs OnSecrets (Secrets.importBatch platform draws userId
      projectId environmentId inputs strategy selectedKeys format : TransactionM wrapper _) := by
  refine Performs.ite (performs_fail _) (Performs.bind (readOnly_attempt _ _).performs fun keys =>
    Performs.ite (performs_fail _) (Performs.ite (performs_fail _) ?_))
  refine Performs.bind (readOnly_environment _ _).performs fun scope =>
    Performs.bind (readOnly_authorizeUser _ _ _ _).performs fun _ =>
      Performs.bind (readOnly_attempt _ _).performs fun storedKeys =>
        Performs.bind (ReadOnly.performs (keeps_selectForUpdate _ _)) fun existing =>
          Performs.bind (Performs.forEach performs_importOne 0 _) fun outcomes => ?_
  exact Performs.bind (ReadOnly.performs (keeps_select _)) fun orgId =>
    Performs.bind (quiet_record _ _).performs fun _ => ReadOnly.performs (keeps_ok _)

/-! ## Promotion -/

theorem quiet_previewItem (targets : List Secrets.SecretValueRow)
    (source : Secrets.SecretValueRow) :
    Quiet (Secrets.previewItem platform targets source : TransactionM wrapper _) := by
  unfold Secrets.previewItem
  cases Secrets.targetOf targets source with
  | none => exact keeps_ok _
  | some target =>
    exact Keeps.bind (Keeps.bind (quiet_decrypt _ _ _) fun _ => Keeps.bind (quiet_decrypt _ _ _)
      fun _ => keeps_ok _) fun _ => keeps_ok _

theorem quiet_promotionPreview (rows : List Secrets.SecretValueRow × List Secrets.SecretValueRow)
    (source target : Uuid) (selectedKeys : Option (List JsString)) :
    Quiet
      (Secrets.promotionPreview platform rows source target selectedKeys :
        TransactionM wrapper _) :=
  Keeps.ite (keeps_fail _) (Keeps.bind (Keeps.forEach (fun _ _ => quiet_previewItem _ _) 0 _)
    fun _ => keeps_ok _)

theorem quiet_previewPromotion {source target : Uuid} {keys : Option (List JsString)} :
    Quiet
      (Secrets.previewPromotion platform userId projectId source target keys :
        TransactionM wrapper _) :=
  Keeps.bind (readOnly_authorizePromotion _ _ _ _ _).quiet fun _ =>
    Keeps.bind (readOnly_selectPromotion _ _ _ _ _ _).quiet fun _ =>
      quiet_promotionPreview _ _ _ _

theorem performs_promoteOne {source target : Uuid} {targets : List Secrets.SecretValueRow} (n : Nat)
    (row : Secrets.SecretValueRow) :
    Performs OnSecrets
      (Secrets.promoteOne platform draws userId projectId source target targets n row :
        TransactionM wrapper _) := by
  refine Performs.bind (quiet_decrypt _ _ _).performs fun plaintext => ?_
  dsimp only
  cases Secrets.targetOf targets row with
  | none => exact Secrets.create_performs
  | some target => exact (quiet_writeVersion _ _ _ _ _ _ _ _).performs

theorem performs_promote {source target : Uuid} {keys : Option (List JsString)} :
    Performs OnSecrets
      (Secrets.promote platform draws userId projectId source target keys :
        TransactionM wrapper _) := by
  refine Performs.bind (readOnly_authorizePromotion _ _ _ _ _).performs fun normalized =>
    Performs.bind (readOnly_selectPromotion _ _ _ _ _ _).performs fun rows =>
      Performs.bind (quiet_promotionPreview _ _ _ _).performs fun preview =>
        Performs.bind (Performs.forEach performs_promoteOne 0 _) fun promoted => ?_
  exact Performs.bind (ReadOnly.performs (keeps_select _)) fun orgId =>
    Performs.bind (quiet_record _ _).performs fun _ => ReadOnly.performs (keeps_ok _)

end

/-! ## Reads and single writes -/

section

variable {draws : Draws} {userId secretId : Uuid}

theorem quiet_getSecret : Quiet (Secrets.get platform draws userId secretId :
  TransactionM wrapper _) :=
  Keeps.bind (readOnly_valueRow _ _).quiet fun _ => Keeps.bind (readOnly_environment _ _).quiet
    fun _ => Keeps.bind (readOnly_authorizeUser _ _ _ _).quiet fun _ =>
      Keeps.bind (quiet_decrypt _ _ _) fun _ => Keeps.bind (quiet_record _ _) fun _ => keeps_ok _

theorem quiet_runtimeConfig {projectId environmentId : Uuid}
    {knownVersions : Secrets.KnownVersions} {auditActor : Audit.AuditActor} :
    Quiet (Secrets.runtimeConfig platform draws userId projectId environmentId
      knownVersions auditActor : TransactionM wrapper _) := by
  refine Keeps.bind (readOnly_environment _ _).quiet fun scope =>
    Keeps.bind (readOnly_authorizeUser _ _ _ _).quiet fun _ =>
      Keeps.ite (keeps_fail _) (Keeps.ite (keeps_ok _) ?_)
  exact Keeps.bind (keeps_select _) fun _ => Keeps.bind (quiet_decryptAll _ _) fun _ =>
    Keeps.bind (keeps_select _) fun _ => Keeps.bind (quiet_record _ _) fun _ => keeps_ok _

theorem quiet_exportConfig {projectId environmentId : Uuid}
    {format : Secrets.SecretExportFormat} {options : Secrets.ExportOptions}
    {auditActor : Audit.AuditActor} :
    Quiet (Secrets.exportConfig platform draws userId projectId environmentId
      format options auditActor : TransactionM wrapper _) := by
  refine Keeps.bind (readOnly_exportScope _ _).quiet fun scope =>
    Keeps.bind (readOnly_authorizeUser _ _ _ _).quiet fun _ => ?_
  exact Keeps.bind (keeps_select _) fun _ => Keeps.bind (quiet_decryptAll _ _) fun _ =>
    Keeps.bind (keeps_ofExcept _) fun _ => Keeps.bind (keeps_select _) fun _ =>
      Keeps.bind (quiet_record _ _) fun _ => keeps_ok _

theorem quiet_compareVersions {fromVersion toVersion : Nat} {reveal : Bool} :
    Quiet (Secrets.compareVersions platform draws userId secretId fromVersion
      toVersion reveal : TransactionM wrapper _) := by
  refine Keeps.ite (keeps_fail _) (Keeps.bind (readOnly_metadataRow _ _ _).quiet fun row =>
    Keeps.bind (readOnly_environment _ _).quiet fun scope =>
      Keeps.bind (readOnly_authorizeUser _ _ _ _).quiet fun _ => Keeps.ite (keeps_fail _)
        (Keeps.bind (keeps_select _) fun rows => ?_))
  split
  · exact Keeps.bind (quiet_decrypt _ _ _) fun _ =>
      Keeps.bind (Keeps.ite (keeps_ok _) (quiet_decrypt _ _ _)) fun _ =>
        Keeps.bind (quiet_record _ _) fun _ => keeps_ok _
  · exact keeps_fail _

theorem quiet_rollback {targetVersion : Nat} {input : Secrets.RollbackInput} :
    Quiet
      (Secrets.rollback platform draws userId secretId targetVersion input :
        TransactionM wrapper _) := by
  refine Keeps.ite (keeps_fail _) (Keeps.bind (readOnly_metadataRow _ _ _).quiet fun before =>
    Keeps.bind (readOnly_environment _ _).quiet fun scope =>
      Keeps.bind (readOnly_authorizeUser _ _ _ _).quiet fun _ => Keeps.ite (keeps_fail _)
        (Keeps.ite (keeps_fail _) ?_))
  exact Keeps.bind (readOnly_versionValueRow _ _ _).quiet fun _ =>
    Keeps.bind (quiet_decrypt _ _ _) fun _ => quiet_writeVersion _ _ _ _ _ _ _ _

theorem quiet_updateSecret {input : Secrets.UpdateSecretInput} :
    Quiet (Secrets.update platform draws userId secretId input : TransactionM wrapper _) := by
  refine Keeps.bind (readOnly_metadataRow _ _ _).quiet fun before =>
    Keeps.bind (readOnly_environment _ _).quiet fun scope =>
      Keeps.bind (readOnly_authorizeUser _ _ _ _).quiet fun _ => Keeps.ite (keeps_fail _) ?_
  cases input.value with
  | none => exact Keeps.ite (keeps_fail _) (quiet_writeMetadata _ _ _ _ _)
  | some value => exact quiet_writeVersion _ _ _ _ _ _ _ _

end

/-! ## Calls -/

/-- **The changes of a secret call.** -/
theorem secretCall_performs {config : Config} {userId : Uuid} {draws : Draws} {call : SecretCall} :
    Performs OnSecrets (call.program config userId draws : TransactionM wrapper _) := by
  cases call with
  | list => exact (readOnly_listSecrets _ _ _ _ _).performs.answering
  | get => exact quiet_getSecret.performs.answering
  | runtimeConfig => exact quiet_runtimeConfig.performs.answering
  | exportConfig => exact quiet_exportConfig.performs.answering
  | listVersions => exact (readOnly_listVersions _ _ _).performs.answering
  | compareVersions => exact quiet_compareVersions.performs.answering
  | rollback => exact quiet_rollback.performs.answering
  | create => exact Secrets.create_performs.answering
  | update => exact quiet_updateSecret.performs.answering
  | bulkSet => exact performs_bulkSet.answering
  | importBatch => exact performs_importBatch.answering
  | previewPromotion => exact quiet_previewPromotion.performs.answering
  | promote => exact performs_promote.answering
  | delete => exact Secrets.delete_performs.answering

end Himitsu.Lifecycle
