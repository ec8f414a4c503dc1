import Himitsu.Lifecycle.History
import Himitsu.Protection.Contents

/-!
# Secret calls and a protected environment

What the secret calls of a user below admin leave of a protected environment.

* `Setting` — a protected environment in the tables.
* `Leaves` — a transaction that leaves the environment.
* `leaves_guarded` — what follows the check of a write to an environment is about another one.

Principal result: `leaves_secretCall` — every secret call of such a user leaves the environment.
-/

set_option autoImplicit false

namespace Himitsu.Protection

open JsString Crypto Database Services Transactions Authz Lifecycle

variable {wrapper : KeyWrapper} {α : Type}

/-- A protected environment in tables whose ids are distinct. -/
structure Setting (before : Db wrapper) (environment : Database.Environment) : Prop where
  mem : environment ∈ before.environments
  isProtected : environment.isProtected = true
  unique : ∀ row ∈ before.environments, row.id = environment.id → row = environment
  project : ∃ row ∈ before.projects, row.id = environment.projectId
  secrets : ∀ row ∈ before.secrets, row.environmentId = environment.id →
    row.projectId = environment.projectId

theorem setting_of_sound {db : Db wrapper} (h : SoftDelete.WellFormed (forest (marks db)))
    (hc : Consistent (marks db)) {environment : Database.Environment}
    (hmem : environment ∈ db.environments) (hprotected : environment.isProtected = true) :
    Setting db environment where
  mem := hmem
  isProtected := hprotected
  unique row hrow hid := List.inj_on_of_nodup_map (nodup_of_consistent hc).2.1 hrow hmem hid
  project := by
    obtain ⟨hstatus, hanc⟩ := hc.status_environment (mem_environments hmem)
    have hparent := (h.closed _ (SoftDelete.ne_none_of_eq hstatus) (.project environment.projectId)
      (by rw [hanc]; exact List.mem_singleton_self _)).1
    obtain ⟨mark, hmark⟩ := Option.ne_none_iff_exists'.mp hparent
    obtain ⟨found, hfind, -⟩ := Option.map_eq_some_iff.mp hmark
    obtain ⟨hfound, hid⟩ := mem_of_find hfind
    obtain ⟨row, hrow, rfl⟩ := List.mem_map.mp hfound
    exact ⟨row, hrow, hid⟩
  secrets row hrow hid :=
    hc.project_of_environment h (mem_secrets hrow) (mem_environments hmem) hid

variable {aead : Aead} {before db : Db wrapper} {environment : Database.Environment}

/-! ## What the tables show -/

theorem Untouched.mem_environment (h : Untouched aead before environment db)
    (hs : Setting before environment) : environment ∈ db.environments := by
  have hrows : db.environmentRows environment.id = before.environmentRows environment.id :=
    congrArg Contents.environment h.contents
  have hmem : environment ∈ before.environmentRows environment.id :=
    List.mem_filter.mpr ⟨hs.mem, decide_eq_true rfl⟩
  rw [← hrows] at hmem
  exact (List.mem_filter.mp hmem).1

theorem Untouched.row_eq (h : Untouched aead before environment db)
    (hs : Setting before environment) {row : Database.Environment} (hrow : row ∈ db.environments)
    (hid : row.id = environment.id) : row = environment := by
  have hrows : db.environmentRows environment.id = before.environmentRows environment.id :=
    congrArg Contents.environment h.contents
  have hmem : row ∈ db.environmentRows environment.id :=
    List.mem_filter.mpr ⟨hrow, decide_eq_true hid⟩
  rw [hrows] at hmem
  exact hs.unique row (List.mem_filter.mp hmem).1 hid

theorem Untouched.project (h : Untouched aead before environment db)
    (hs : Setting before environment) {row : Secret} (hrow : row ∈ db.secrets)
    (hid : row.environmentId = environment.id) : row.projectId = environment.projectId := by
  have hmem : row ∈ db.secrets.filter (·.environmentId = environment.id) :=
    List.mem_filter.mpr ⟨hrow, decide_eq_true hid⟩
  rw [h.secrets_eq] at hmem
  exact hs.secrets row (List.mem_filter.mp hmem).1 hid

theorem Untouched.not_mem_ids (h : Untouched aead before environment db) {row : Secret}
    (hrow : row ∈ db.secrets) (hne : row.environmentId ≠ environment.id) :
    row.id ∉ secretIds before environment.id :=
  fun hmem => hne ((h.mem_ids hrow).mp hmem)

theorem Untouched.self (before : Db wrapper) (environment : Database.Environment)
    (hids : (before.secrets.map (·.id)).Nodup) : Untouched aead before environment before where
  contents := rfl
  memberships := rfl
  overrides := rfl
  owned row hrow hmem := by
    obtain ⟨other, hother, hid⟩ := List.mem_map.mp hmem
    obtain ⟨hother, henvironment⟩ := List.mem_filter.mp hother
    rw [← List.inj_on_of_nodup_map hids hother hrow hid]
    exact of_decide_eq_true henvironment
  values := .refl aead before.keys

/-- The transaction keeps what belongs to the environment. -/
abbrev Leaves (aead : Aead) (before : Db wrapper) (environment : Database.Environment)
    (p : TransactionM wrapper α) : Prop :=
  Preserves apply (Untouched aead before environment) p

theorem leaves_of_readOnly {p : TransactionM wrapper α} (h : ReadOnly p) :
    Leaves aead before environment p :=
  .of_keeps h

theorem leaves_attempt {ε : Type} (wrap : ε → ServiceError) (result : Except ε α) :
    Leaves aead before environment (attempt wrap result) :=
  .of_keeps (readOnly_attempt _ _)

/-! ## The check of a write -/

theorem needsAdmin_secretWrite : NeedsAdmin true .secretWrite := ⟨by decide, .inl (by decide)⟩

theorem needsAdmin_secretDelete : NeedsAdmin true .secretDelete := ⟨by decide, .inl (by decide)⟩

theorem needsAdmin_environmentUpdate : NeedsAdmin true .environmentUpdate :=
  ⟨by decide, .inl (by decide)⟩

theorem needsAdmin_environmentDelete (isProtected : Bool) :
    NeedsAdmin isProtected .environmentDelete := ⟨by decide, .inr (by decide)⟩

theorem needsAdmin_projectDelete (isProtected : Bool) : NeedsAdmin isProtected .projectDelete :=
  ⟨by decide, .inr (by decide)⟩

/-- What `#environment` finds. -/
theorem ensures_scope (h : Untouched aead before environment db)
    (hs : Setting before environment) {projectId environmentId : Uuid}
    {Q : Database.Environment → Db wrapper → Prop}
    (hQ : ∀ scope, (environmentId = environment.id →
      scope.isProtected = true ∧ projectId = environment.projectId) → Q scope db) :
    Ensures apply (Secrets.environment projectId environmentId) db Q := by
  unfold Secrets.environment
  rw [ensures_bind, ensures_select]
  cases hfind : activeEnvironment db projectId environmentId with
  | none => exact ensures_fail
  | some scope =>
    refine ensures_done_ok.mpr (hQ scope fun henvironment => ?_)
    have hmatch := List.find?_some hfind
    simp only [Bool.and_eq_true, decide_eq_true_eq] at hmatch
    obtain ⟨⟨⟨hid, hproject⟩, -⟩, -⟩ := hmatch
    have heq := h.row_eq hs (List.mem_of_find?_eq_some hfind) (hid.trans henvironment)
    rw [heq] at hproject ⊢
    exact ⟨hs.isProtected, hproject.symm⟩

section

variable (hs : Setting before environment) {userId : Uuid}
  (hrole : RoleBelowAdmin before userId (some environment.projectId) = true)
include hs hrole

/-- **What follows the check of a write is about another environment.** -/
theorem leaves_guarded {projectId environmentId : Uuid} {permission : Permission}
    (hneeds : NeedsAdmin true permission) {f : TransactionM wrapper α}
    (hf : environmentId ≠ environment.id → Leaves aead before environment f) :
    Leaves aead before environment (Secrets.environment projectId environmentId >>= fun scope =>
      Secrets.authorizeIn userId projectId scope permission >>= fun _ => f) := by
  intro db h
  rw [ensures_bind]
  refine ensures_scope h hs fun scope hscope => ?_
  rw [ensures_bind]
  by_cases hid : environmentId = environment.id
  · obtain ⟨hprotected, rfl⟩ := hscope hid
    unfold Secrets.authorizeIn
    rw [hprotected]
    exact ensures_denied h hrole hneeds
  · exact (readOnly_authorizeUser _ _ _ _).ensures_of fun _ => hf hid db h

end

/-! ## Writes to other secrets -/

theorem versionWrites_spares {id : Uuid} (hid : id ∉ secretIds before environment.id) :
    VersionWrites (Spares before environment) id where
  key _ _ := trivial
  version _ hrow := by
    show _ ∉ _
    rwa [hrow]
  row _ := hid
  untag := hid
  tag _ := hid
  audit _ := trivial

theorem readWrites_spares : ReadWrites (Spares before environment) :=
  ⟨fun _ => trivial, fun _ => trivial⟩

section

variable {platform : Platform} {draws : Draws} {n : Nat} {userId : Uuid}

theorem leaves_writeVersion {row : Secrets.SecretRow}
    (hid : row.secret.id ∉ secretIds before environment.id) {input : Secrets.VersionInput}
    {action : Secrets.VersionAction} {recordAudit : Bool} :
    Leaves aead before environment
      (Secrets.writeVersion platform draws n userId row input action recordAudit) :=
  Emits.untouched (emits_writeVersion platform (versionWrites_spares hid) _ _ _ _ _ _)

theorem leaves_record {now : Timestamp} {event : Audit.AuditEventInput} :
    Leaves aead before environment (Audit.recordInTransaction now event) :=
  Emits.untouched (emits_record (fun _ => trivial) _ _)

theorem leaves_decrypt {row : Secrets.SecretValueRow} {version : Nat} :
    Leaves aead before environment (Secrets.decrypt platform row version) :=
  Emits.untouched (emits_decrypt platform readWrites_spares _ _)

/-- An update of the secrets that a condition selects, which are not in the environment. -/
theorem leaves_updateSecrets {p : Secret → Bool} {set : SecretSet}
    (hp : ∀ db, Untouched aead before environment db → ∀ row ∈ db.secrets, p row = true →
      row.environmentId ≠ environment.id) :
    Leaves aead before environment (updateSecrets p set) := by
  refine preserves_execute (P := Spares before environment) (fun db h => ?_)
    fun _ _ hw hinv => hw.untouched hinv
  refine emits_map fun row hrow => ?_
  obtain ⟨hmem, hprow⟩ := List.mem_filter.mp hrow
  exact h.not_mem_ids hmem (hp db h row hmem hprow)

/-- An insertion into another environment. -/
theorem ensures_insertSecret (h : Untouched aead before environment db) {row : Secret}
    (hne : row.environmentId ≠ environment.id) :
    Ensures apply (Secrets.insertSecret row) db fun result db' =>
      Untouched aead before environment db' ∧
        result.secret.id ∉ secretIds before environment.id := by
  rw [Secrets.insertSecret, ensures_execute]
  intro result hresult
  split at hresult
  · cases hresult
  rename_i hnew
  cases hresult
  rw [Bool.not_eq_true, List.any_eq_false] at hnew
  have hfresh : row.id ∉ secretIds before environment.id := by
    rw [← h.secretIds_eq]
    intro hmem
    obtain ⟨other, hother, hid⟩ := List.mem_map.mp hmem
    exact hnew other (List.mem_filter.mp hother).1 (by simp [hid])
  refine ⟨⟨Eq.trans ?_ h.contents, h.memberships, h.overrides, fun other hother hmem => ?_,
    h.values⟩, hfresh⟩
  · have hsecrets : (db.secrets ++ [row]).filter (·.environmentId = environment.id) =
        db.secrets.filter (·.environmentId = environment.id) := by
      rw [List.filter_append, List.filter_cons_of_neg (by simpa using hne), List.filter_nil,
        List.append_nil]
    simp only [applyAll_cons, applyAll_nil, contentsOf, secretIds, apply, hsecrets]
    rfl
  · rcases List.mem_append.mp hother with hother | hother
    · exact h.owned other hother hmem
    · rw [List.mem_singleton.mp hother] at hmem
      exact absurd hmem hfresh

theorem leaves_create (hs : Setting before environment)
    (hrole : RoleBelowAdmin before userId (some environment.projectId) = true)
    {projectId environmentId : Uuid}
    {input : Secrets.SetSecretInput} {authorized recordAudit : Bool}
    (hauthorized : authorized = true → environmentId ≠ environment.id) :
    Leaves aead before environment (Secrets.create platform draws n userId projectId environmentId
      input authorized recordAudit) := by
  intro db h
  unfold Secrets.create
  rw [ensures_bind]
  refine ensures_scope h hs fun scope hscope => ?_
  rw [ensures_bind]
  by_cases hne : environmentId = environment.id
  · have hnot : authorized = false := by
      rw [Bool.eq_false_iff]
      exact fun htrue => hauthorized htrue hne
    obtain ⟨hprotected, rfl⟩ := hscope hne
    rw [hnot, hprotected]
    show Ensures apply (authorizeUser userId (some environment.projectId) true .secretWrite) db _
    exact ensures_denied h hrole needsAdmin_secretWrite
  refine ReadOnly.ensures_of (Keeps.ite (readOnly_authorizeUser _ _ _ _) (keeps_ok _)) fun _ => ?_
  refine Preserves.bind (leaves_attempt _ _) (fun key => ?_) db h
  refine Preserves.bind (leaves_attempt _ _) fun notes => ?_
  refine Preserves.bind (leaves_attempt _ _) fun changeNote => ?_
  refine Preserves.bind (leaves_attempt _ _) fun storedKey => ?_
  refine Preserves.bind_of (R := fun recoverable => ∀ row, recoverable = some row →
      row.secret.id ∉ secretIds before environment.id) (fun db h => ?_) fun recoverable hknown => ?_
  · rw [Secrets.recoverableRow, ensures_selectForUpdate]
    refine ⟨h, fun row hrow => ?_⟩
    obtain ⟨secret, hfind, rfl⟩ := Option.map_eq_some_iff.mp hrow
    have hmatch := List.find?_some hfind
    simp only [Secrets.isRecoverable, Bool.and_eq_true, decide_eq_true_eq] at hmatch
    have henvironment : secret.environmentId ≠ environment.id := by rwa [hmatch.1.1.1.1.2]
    exact h.not_mem_ids (List.mem_of_find?_eq_some hfind) henvironment
  · cases recoverable with
    | some row =>
      have hid := hknown row rfl
      refine Preserves.bind (leaves_updateSecrets fun db h other hother hmatch henvironment => ?_)
        fun _ => leaves_writeVersion hid
      rw [← of_decide_eq_true hmatch] at hid
      exact hid ((h.mem_ids hother).mpr henvironment)
    | none =>
      refine Preserves.mapError (Preserves.bind (leaves_attempt _ _) fun notes => ?_) _
      exact Preserves.bind_of (fun db h => ensures_insertSecret h hne) fun row hid =>
        leaves_writeVersion hid

/-! ## Batches -/

variable (hs : Setting before environment)
  (hrole : RoleBelowAdmin before userId (some environment.projectId) = true)
include hs hrole

theorem leaves_setOne {projectId environmentId : Uuid} (hne : environmentId ≠ environment.id)
    (n : Nat) (item : Secrets.SetSecretInput × JsString) :
    Leaves aead before environment
      (Secrets.setOne platform draws userId projectId environmentId n item) := by
  refine Preserves.bind (leaves_attempt _ _) fun storedKey => Preserves.bind_of
    (R := fun existing => ∀ row, existing = some row →
      row.secret.id ∉ secretIds before environment.id) (fun db h => ?_) fun existing hknown => ?_
  · rw [Secrets.activeRow, ensures_selectForUpdate]
    refine ⟨h, fun row hrow => ?_⟩
    obtain ⟨secret, hfind, rfl⟩ := Option.map_eq_some_iff.mp hrow
    have hmatch := List.find?_some hfind
    simp only [Bool.and_eq_true, decide_eq_true_eq] at hmatch
    have henvironment : secret.environmentId ≠ environment.id := by rwa [hmatch.1.1.2]
    exact h.not_mem_ids (List.mem_of_find?_eq_some hfind) henvironment
  · cases existing with
    | none => exact leaves_create hs hrole fun _ => hne
    | some row => exact leaves_writeVersion (hknown row rfl)

theorem leaves_bulkSet {projectId environmentId : Uuid} {inputs : List Secrets.SetSecretInput} :
    Leaves aead before environment
      (Secrets.bulkSet platform draws userId projectId environmentId inputs) :=
  Preserves.ite (preserves_fail _) (Preserves.bind (leaves_attempt _ _) fun _ =>
    Preserves.ite (preserves_fail _) (leaves_guarded hs hrole needsAdmin_secretWrite fun hne =>
      Preserves.forEach (fun n _ _ => leaves_setOne hs hrole hne n _) 0))

theorem leaves_importOne {projectId environmentId : Uuid} (hne : environmentId ≠ environment.id)
    {strategy : Secrets.SecretImportStrategy} {selected : List JsString}
    {format : Secrets.SecretImportFormat} {existing : List Secrets.SecretRow}
    (hexisting : ∀ row ∈ existing, row.secret.id ∉ secretIds before environment.id) (n : Nat)
    (item : Secrets.SetSecretInput × JsString) :
    Leaves aead before environment (Secrets.importOne platform draws userId projectId environmentId
      strategy selected format existing n item) := by
  unfold Secrets.importOne
  refine Preserves.ite (preserves_ok _) ?_
  cases hfind : existing.find? fun row => row.secret.key = item.2 with
  | none => exact Preserves.bind (leaves_create hs hrole fun _ => hne) fun _ => preserves_ok _
  | some row =>
    exact Preserves.bind (leaves_writeVersion (hexisting row (List.mem_of_find?_eq_some hfind)))
      fun _ => preserves_ok _

theorem leaves_importBatch {projectId environmentId : Uuid} {inputs : List Secrets.SetSecretInput}
    {strategy : Secrets.SecretImportStrategy} {selectedKeys : List JsString}
    {format : Secrets.SecretImportFormat} :
    Leaves aead before environment (Secrets.importBatch platform draws userId projectId
      environmentId inputs strategy selectedKeys format) := by
  refine Preserves.ite (preserves_fail _) (Preserves.bind (leaves_attempt _ _) fun keys =>
    Preserves.ite (preserves_fail _) (Preserves.ite (preserves_fail _)
      (leaves_guarded hs hrole needsAdmin_secretWrite fun hne => ?_)))
  refine Preserves.bind (leaves_attempt _ _) fun storedKeys => Preserves.bind_of
    (R := fun existing => ∀ row ∈ existing, row.secret.id ∉ secretIds before environment.id)
    (fun db h => ?_) fun existing hknown => ?_
  · rw [Secrets.existingRows, ensures_selectForUpdate]
    refine ⟨h, fun row hrow => ?_⟩
    obtain ⟨secret, hsecret, rfl⟩ := List.mem_map.mp hrow
    have hmatch := (List.mem_filter.mp hsecret).1
    rw [Secrets.activeSecrets, mem_orderBy, List.mem_filter] at hmatch
    simp only [Bool.and_eq_true, decide_eq_true_eq] at hmatch
    have henvironment : secret.environmentId ≠ environment.id := by rwa [hmatch.2.1.2]
    exact h.not_mem_ids hmatch.1 henvironment
  · exact Preserves.bind (Preserves.forEach (fun n _ _ => leaves_importOne hs hrole hne hknown n _)
      0) fun outcomes => Preserves.bind (leaves_of_readOnly (keeps_select _)) fun _ =>
        Preserves.bind leaves_record fun _ => preserves_ok _

/-! ## Promotion -/

theorem leaves_promoteOne {projectId source target : Uuid} (hne : target ≠ environment.id)
    {targets : List Secrets.SecretValueRow}
    (htargets : ∀ row ∈ targets, row.secret.id ∉ secretIds before environment.id) (n : Nat)
    (row : Secrets.SecretValueRow) :
    Leaves aead before environment
      (Secrets.promoteOne platform draws userId projectId source target targets n row) := by
  refine Preserves.bind leaves_decrypt fun plaintext => ?_
  dsimp only
  cases hfind : Secrets.targetOf targets row with
  | none => exact leaves_create hs hrole fun _ => hne
  | some found => exact leaves_writeVersion (htargets found (List.mem_of_find?_eq_some hfind))

omit hs hrole in
/-- The rows that a promotion selects are in its environments. -/
theorem mem_promotionRows {projectId environmentId : Uuid} {keys : Option (List JsString)}
    {row : Secrets.SecretValueRow}
    (h : row ∈ Secrets.promotionRows platform db projectId environmentId keys) :
    row.secret ∈ db.secrets ∧ row.secret.environmentId = environmentId := by
  obtain ⟨hvalue, -⟩ := List.mem_filter.mp h
  obtain ⟨secret, hsecret, hselect⟩ := List.mem_filterMap.mp hvalue
  obtain ⟨version, -, rfl⟩ := Option.map_eq_some_iff.mp hselect
  rw [Secrets.activeSecrets, mem_orderBy, List.mem_filter] at hsecret
  simp only [Bool.and_eq_true, decide_eq_true_eq] at hsecret
  exact ⟨hsecret.1, hsecret.2.1.2⟩

theorem leaves_promote {projectId source target : Uuid} {keys : Option (List JsString)} :
    Leaves aead before environment
      (Secrets.promote platform draws userId projectId source target keys) := by
  refine Preserves.bind_of (R := fun _ => target ≠ environment.id) (fun db h => ?_)
    fun normalized hne => ?_
  · unfold Secrets.authorizePromotion
    rw [ensures_bind]
    refine (readOnly_attempt _ _).ensures_of fun normalized => ?_
    rw [ensures_bind]
    refine (readOnly_environment _ _).ensures_of fun sourceScope => ?_
    rw [ensures_bind]
    refine ensures_scope h hs fun targetScope hscope => ?_
    rw [ensures_bind]
    refine (readOnly_authorizeUser _ _ _ _).ensures_of fun _ => ?_
    rw [ensures_bind]
    by_cases hid : target = environment.id
    · obtain ⟨hprotected, rfl⟩ := hscope hid
      unfold Secrets.authorizeIn
      rw [hprotected]
      exact ensures_denied h hrole needsAdmin_secretWrite
    · exact (readOnly_authorizeUser _ _ _ _).ensures_of fun _ => ensures_done_ok.mpr ⟨h, hid⟩
  · refine Preserves.bind_of (R := fun rows => ∀ row ∈ rows.2,
      row.secret.id ∉ secretIds before environment.id) (fun db h => ?_) fun rows hknown => ?_
    · unfold Secrets.selectPromotion
      rw [ensures_bind]
      refine (readOnly_attempt _ _).ensures_of fun keys => ?_
      rw [ensures_selectForUpdate]
      refine ⟨h, fun row hrow => ?_⟩
      obtain ⟨hmem, henvironment⟩ := mem_promotionRows hrow
      exact h.not_mem_ids hmem (by rwa [henvironment])
    · exact Preserves.bind (Emits.untouched (emits_promotionPreview _ readWrites_spares _ _ _ _))
        fun preview => Preserves.bind
          (Preserves.forEach (fun n _ _ => leaves_promoteOne hs hrole hne hknown n _) 0)
          fun promoted => Preserves.bind (leaves_of_readOnly (keeps_select _)) fun _ =>
            Preserves.bind leaves_record fun _ => preserves_ok _

/-! ## Single writes -/

omit hs hrole in
/-- The row that `#metadataRow` finds is in the environment or has another id. -/
theorem ensures_knownRow (h : Untouched aead before environment db) {secretId : Uuid}
    {lock : Bool} :
    Ensures apply (Secrets.metadataRow platform secretId lock) db fun row db' =>
      Untouched aead before environment db' ∧ row.secret.id = secretId ∧
        (row.secret.environmentId ≠ environment.id →
          row.secret.id ∉ secretIds before environment.id) :=
  ensures_metadataRow fun _ hrow hid _ => ⟨h, hid, h.not_mem_ids hrow⟩

theorem leaves_rollback {secretId : Uuid} {targetVersion : Nat} {input : Secrets.RollbackInput} :
    Leaves aead before environment
      (Secrets.rollback platform draws userId secretId targetVersion input) := by
  refine Preserves.ite (preserves_fail _) (Preserves.bind_of
    (fun db h => ensures_knownRow h) fun row hrow => leaves_guarded hs hrole
      needsAdmin_secretWrite fun hne => Preserves.ite (preserves_fail _)
        (Preserves.ite (preserves_fail _) ?_))
  exact Preserves.bind (leaves_of_readOnly (readOnly_versionValueRow _ _ _)) fun _ =>
    Preserves.bind leaves_decrypt fun _ => leaves_writeVersion (hrow.2 hne)

theorem leaves_update {secretId : Uuid} {input : Secrets.UpdateSecretInput} :
    Leaves aead before environment (Secrets.update platform draws userId secretId input) := by
  refine Preserves.bind_of (fun db h => ensures_knownRow h) fun row hrow =>
    leaves_guarded hs hrole needsAdmin_secretWrite fun hne => Preserves.ite (preserves_fail _) ?_
  cases input.value with
  | none =>
    exact Preserves.ite (preserves_fail _) (Emits.untouched
      (emits_writeMetadata platform (versionWrites_spares (hrow.2 hne)).metadata _ _ _))
  | some value => exact leaves_writeVersion (hrow.2 hne)

theorem leaves_delete {secretId : Uuid} :
    Leaves aead before environment (Secrets.delete platform draws userId secretId) := by
  refine Preserves.bind_of (fun db h => ensures_knownRow h) fun row hrow =>
    leaves_guarded hs hrole needsAdmin_secretDelete fun hne => Preserves.bind
      (leaves_updateSecrets fun db h other hother hmatch henvironment => ?_) fun _ =>
        Preserves.bind leaves_record fun _ => preserves_ok _
  simp only [Bool.and_eq_true, decide_eq_true_eq] at hmatch
  have hid := hrow.2 hne
  rw [hrow.1, ← hmatch.1] at hid
  exact hid ((h.mem_ids hother).mpr henvironment)

/-- **A secret call of a user below admin leaves the environment.** -/
theorem leaves_secretCall {config : Config} {call : SecretCall} :
    Leaves aead before environment
      (call.program config userId draws : TransactionM wrapper Answer) := by
  by_cases hread : isRead call = true
  · exact Emits.untouched (emits_read readWrites_spares config userId draws hread)
  cases call with
  | list | get | runtimeConfig | exportConfig | listVersions | compareVersions
  | previewPromotion => exact absurd rfl hread
  | rollback => exact Preserves.bind (leaves_rollback hs hrole) fun _ => preserves_ok _
  | create =>
    exact Preserves.bind (leaves_create hs hrole fun h => by cases h) fun _ => preserves_ok _
  | update => exact Preserves.bind (leaves_update hs hrole) fun _ => preserves_ok _
  | bulkSet => exact Preserves.bind (leaves_bulkSet hs hrole) fun _ => preserves_ok _
  | importBatch => exact Preserves.bind (leaves_importBatch hs hrole) fun _ => preserves_ok _
  | promote => exact Preserves.bind (leaves_promote hs hrole) fun _ => preserves_ok _
  | delete => exact Preserves.bind (leaves_delete hs hrole) fun _ => preserves_ok _

end

end Himitsu.Protection
