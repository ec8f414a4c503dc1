import Himitsu.Lifecycle.Refinement
import Himitsu.Services.Calls
import Himitsu.Services.Updates

/-!
# Deletion marks in the database

* `marks` — the deletion columns of the tables.
* `ReadOnly`, `Quiet` — transactions that leave the database, and that leave the marks, as they
  are.

Principal results: the lookups of the services are read-only, and the writes of values, tags and
events are quiet.
-/

set_option autoImplicit false

namespace Himitsu.Lifecycle

open JsString Crypto Database Services Transactions

def projectMark (row : Database.Project) : ProjectMark := ⟨row.id, row.deletedAt⟩

def environmentMark (row : Database.Environment) : EnvironmentMark :=
  ⟨row.id, row.projectId, row.deletedAt, row.deletedByProjectAt⟩

def secretMark (row : Secret) : SecretMark :=
  ⟨row.id, row.projectId, row.environmentId, row.deletedAt, row.deletedByProjectAt,
    row.deletedByEnvironmentAt⟩

variable {wrapper : KeyWrapper}

def marks (db : Db wrapper) : Marks where
  projects := db.projects.map projectMark
  environments := db.environments.map environmentMark
  secrets := db.secrets.map secretMark

theorem mem_projects {db : Db wrapper} {row : Database.Project} (h : row ∈ db.projects) :
    projectMark row ∈ (marks db).projects :=
  List.mem_map_of_mem h

theorem mem_environments {db : Db wrapper} {row : Database.Environment}
    (h : row ∈ db.environments) : environmentMark row ∈ (marks db).environments :=
  List.mem_map_of_mem h

theorem mem_secrets {db : Db wrapper} {row : Secret} (h : row ∈ db.secrets) :
    secretMark row ∈ (marks db).secrets :=
  List.mem_map_of_mem h

/-- Ids are distinct in the tables when they are in the marks. -/
theorem nodup_of_consistent {db : Db wrapper} (h : Consistent (marks db)) :
    (db.projects.map (·.id)).Nodup ∧ (db.environments.map (·.id)).Nodup ∧
      (db.secrets.map (·.id)).Nodup := by
  have hprojects := h.projectIds
  have henvironments := h.environmentIds
  have hsecrets := h.secretIds
  simp only [marks, List.map_map, Function.comp_def] at hprojects henvironments hsecrets
  exact ⟨hprojects, henvironments, hsecrets⟩

/-- The marks of updated rows are the updated marks. -/
theorem map_updateWhere_comm {α β : Type} {mark : α → β} {p : α → Bool} {f : α → α}
    {p' : β → Bool} {f' : β → β} (hp : ∀ row, p row = p' (mark row))
    (hf : ∀ row, mark (f row) = f' (mark row)) (rows : List α) :
    (updateWhere p f rows).map mark = updateWhere p' f' (rows.map mark) := by
  rw [updateWhere, updateWhere, List.map_map, List.map_map]
  refine List.map_congr_left fun row _ => ?_
  simp only [Function.comp, hp row]
  split
  · exact hf row
  · rfl

theorem map_updateWhere_same {α β : Type} {mark : α → β} {p : α → Bool} {f : α → α}
    (hf : ∀ row, mark (f row) = mark row) (rows : List α) :
    (updateWhere p f rows).map mark = rows.map mark :=
  map_updateWhere hf rows

@[simp] theorem map_raiseVersions (raise' : Database.Environment → Nat)
    (rows : List Database.Environment) :
    (raiseVersions raise' rows).map environmentMark = rows.map environmentMark := by
  rw [raiseVersions, List.map_map]
  rfl

/-! ## Read-only transactions -/

abbrev ReadOnly {α : Type} (p : TransactionM wrapper α) : Prop :=
  Keeps Database.apply (id : Db wrapper → Db wrapper) p

abbrev Quiet {α : Type} (p : TransactionM wrapper α) : Prop := Keeps Database.apply marks p

theorem readOnly_authorizeUser (userId : Uuid) (projectId : Option Uuid)
    (protectedEnvironment : Bool) (permission : Authz.Permission) :
    ReadOnly (authorizeUser userId projectId protectedEnvironment permission :
      TransactionM wrapper _) := by
  unfold authorizeUser resolve
  refine Keeps.bind (Keeps.bind (keeps_select _) fun membership => ?_) fun context =>
    keeps_ofExcept _
  cases membership with
  | none => exact keeps_fail _
  | some membership =>
    cases projectId with
    | none => exact keeps_ok _
    | some projectId => exact Keeps.bind (keeps_select _) fun _ => keeps_ok _

theorem readOnly_raise {α : Type} (error : ServiceError) :
    ReadOnly (raise error : TransactionM wrapper α) :=
  keeps_fail error

theorem readOnly_attempt {α ε : Type} (wrap : ε → ServiceError) (result : Except ε α) :
    ReadOnly (attempt wrap result : TransactionM wrapper α) :=
  keeps_ofExcept _

theorem readOnly_requireActiveProject (projectId : Uuid) :
    ReadOnly (Environments.requireActiveProject projectId : TransactionM wrapper _) :=
  Keeps.bind (keeps_select _) fun _ => Keeps.ite (keeps_ok _) (keeps_fail _)

theorem readOnly_getEnvironment (userId environmentId : Uuid) (includeDeleted : Bool) :
    ReadOnly (Environments.get userId environmentId includeDeleted : TransactionM wrapper _) := by
  refine Keeps.bind (keeps_select _) fun row => ?_
  cases row with
  | none => exact keeps_fail _
  | some environment =>
    exact Keeps.bind (readOnly_authorizeUser _ _ _ _) fun _ => keeps_ok _

theorem readOnly_listEnvironments (userId projectId : Uuid) :
    ReadOnly (Environments.list userId projectId : TransactionM wrapper _) :=
  Keeps.bind (readOnly_requireActiveProject _) fun _ =>
    Keeps.bind (readOnly_authorizeUser _ _ _ _) fun _ => keeps_select _

section

variable (platform : Platform)

theorem readOnly_readRow (userId : Uuid) (p : Database.Project → Bool) :
    ReadOnly (Projects.readRow platform userId p : TransactionM wrapper _) := by
  refine Keeps.bind (keeps_select _) fun row => ?_
  cases row with
  | none => exact keeps_fail _
  | some row => exact Keeps.bind (readOnly_authorizeUser _ _ _ _) fun _ => keeps_ofExcept _

theorem readOnly_getBySlug (userId : Uuid) (slug : JsString) (includeDeleted : Bool) :
    ReadOnly (Projects.getBySlug platform userId slug includeDeleted : TransactionM wrapper _) :=
  Keeps.bind (keeps_ofExcept _) fun _ => readOnly_readRow _ _ _

theorem readOnly_listProjects (userId : Uuid) :
    ReadOnly (Projects.list platform userId : TransactionM wrapper _) :=
  Keeps.bind (readOnly_authorizeUser _ _ _ _) fun _ =>
    Keeps.bind (keeps_select _) fun _ => keeps_ofExcept _

theorem readOnly_metadataRow (secretId : Uuid) (lock : Bool) :
    ReadOnly (Secrets.metadataRow platform secretId lock : TransactionM wrapper _) := by
  refine Keeps.bind (keeps_selectForUpdate _ _) fun row => ?_
  cases row with
  | none => exact keeps_fail _
  | some row => exact keeps_ok _

theorem readOnly_valueRow (secretId : Uuid) :
    ReadOnly (Secrets.valueRow platform secretId : TransactionM wrapper _) := by
  refine Keeps.bind (keeps_select _) fun row => ?_
  cases row with
  | none => exact keeps_fail _
  | some row => exact keeps_ok _

theorem readOnly_versionValueRow (secretId : Uuid) (version : Nat) :
    ReadOnly (Secrets.versionValueRow platform secretId version : TransactionM wrapper _) := by
  refine Keeps.bind (keeps_select _) fun row => ?_
  cases row with
  | none => exact keeps_fail _
  | some row => exact keeps_ok _

theorem readOnly_environment (projectId environmentId : Uuid) :
    ReadOnly (Secrets.environment projectId environmentId : TransactionM wrapper _) := by
  refine Keeps.bind (keeps_select _) fun row => ?_
  cases row with
  | none => exact keeps_fail _
  | some row => exact keeps_ok _

theorem readOnly_exportScope (projectId environmentId : Uuid) :
    ReadOnly (Secrets.exportScope projectId environmentId : TransactionM wrapper _) := by
  refine Keeps.bind (keeps_select _) fun scope => ?_
  cases scope with
  | none => exact keeps_fail _
  | some scope => exact keeps_ok _

theorem readOnly_listSecrets (userId projectId environmentId : Uuid)
    (filters : Secrets.ListFilters) :
    ReadOnly (Secrets.list platform userId projectId environmentId filters :
      TransactionM wrapper _) :=
  Keeps.bind (readOnly_environment _ _) fun _ => Keeps.bind (readOnly_authorizeUser _ _ _ _)
    fun _ => Keeps.bind (keeps_ofExcept _) fun _ => Keeps.bind (keeps_select _) fun _ => keeps_ok _

theorem readOnly_listVersions (userId secretId : Uuid) :
    ReadOnly (Secrets.listVersions platform userId secretId : TransactionM wrapper _) :=
  Keeps.bind (readOnly_metadataRow _ _ _) fun _ => Keeps.bind (readOnly_environment _ _) fun _ =>
    Keeps.bind (readOnly_authorizeUser _ _ _ _) fun _ => Keeps.bind (keeps_select _) fun _ =>
      keeps_ok _

theorem readOnly_authorizePromotion (userId projectId source target : Uuid)
    (keys : Option (List JsString)) :
    ReadOnly (Secrets.authorizePromotion userId projectId source target keys :
      TransactionM wrapper _) :=
  Keeps.bind (keeps_ofExcept _) fun _ => Keeps.bind (readOnly_environment _ _) fun _ =>
    Keeps.bind (readOnly_environment _ _) fun _ => Keeps.bind (readOnly_authorizeUser _ _ _ _)
      fun _ => Keeps.bind (readOnly_authorizeUser _ _ _ _) fun _ => keeps_ok _

theorem readOnly_selectPromotion (projectId source target : Uuid)
    (keys : Option (List JsString)) (lock : Bool) :
    ReadOnly (Secrets.selectPromotion platform projectId source target keys
      lock : TransactionM wrapper _) :=
  Keeps.bind (keeps_ofExcept _) fun _ => keeps_selectForUpdate _ _

/-! ## Quiet transactions -/

/-- A write that names no deletion column and inserts no project, environment or secret. -/
def isQuiet : Write → Bool
  | .insertSecret _ | .insertEnvironment _ | .insertProject _ => false
  | .updateSecret _ set => set.deletedAt.isNone && set.deletedByProjectAt.isNone &&
      set.deletedByEnvironmentAt.isNone
  | .updateEnvironment _ set => set.deletedAt.isNone && set.deletedByProjectAt.isNone
  | .updateProject _ set => set.deletedAt.isNone
  | _ => true

theorem marks_apply {w : Write} (h : isQuiet w = true) (db : Db wrapper) :
    marks (apply w db) = marks db := by
  cases w with
  | insertSecret | insertEnvironment | insertProject => cases h
  | updateSecret id set =>
    simp only [isQuiet, Bool.and_eq_true, Option.isNone_iff_eq_none] at h
    have hsecrets : (updateWhere (·.id = id) set.on db.secrets).map secretMark =
        db.secrets.map secretMark :=
      map_updateWhere_same (fun row => by simp [secretMark, SecretSet.on, h]) _
    have henvironments : (db.environments.map (bumpEnvironment (bumped db id set))).map
        environmentMark = db.environments.map environmentMark := by
      rw [List.map_map]
      rfl
    simp only [marks, apply, hsecrets, henvironments]
  | updateEnvironment id set =>
    simp only [isQuiet, Bool.and_eq_true, Option.isNone_iff_eq_none] at h
    have henvironments : (updateWhere (·.id = id) set.on db.environments).map environmentMark =
        db.environments.map environmentMark :=
      map_updateWhere_same (fun row => by simp [environmentMark, EnvironmentSet.on, h]) _
    simp only [marks, apply, henvironments]
  | updateProject id set =>
    simp only [isQuiet, Option.isNone_iff_eq_none] at h
    have hprojects : (updateWhere (·.id = id) set.on db.projects).map projectMark =
        db.projects.map projectMark :=
      map_updateWhere_same (fun row => by simp [projectMark, ProjectSet.on, h]) _
    simp only [marks, apply, hprojects]
  | insertSecretVersion | deleteSecretTags | insertSecretTag | activateKey | insertAuditEvent |
    noteDecryption | deleteProjectTags | insertProjectTag => rfl

theorem marks_applyAll {ws : List Write} (h : ∀ w ∈ ws, isQuiet w = true) (db : Db wrapper) :
    marks (applyAll apply ws db) = marks db := by
  induction ws generalizing db with
  | nil => rfl
  | cons w ws ih =>
    rw [applyAll_cons, ih fun w hw => h w (List.mem_cons_of_mem _ hw),
      marks_apply (h w (List.mem_cons_self ..))]

theorem quiet_execute {α : Type} {locks : Db wrapper → List Lock}
    {writes : Db wrapper → List Write} {result : Db wrapper → Except ServiceError α}
    (h : ∀ db, ∀ w ∈ writes db, isQuiet w = true) : Quiet (Prog.execute locks writes result) :=
  keeps_execute fun db => marks_applyAll (h db) db

theorem ReadOnly.quiet {α : Type} {p : TransactionM wrapper α} (h : ReadOnly p) : Quiet p :=
  h.of_id

theorem quiet_record (now : Timestamp) (event : Audit.AuditEventInput) :
    Quiet (Audit.recordInTransaction now event : TransactionM wrapper _) :=
  Keeps.bind (keeps_ofExcept _) fun _ => Keeps.bind (keeps_ofExcept _) fun _ =>
    quiet_execute fun _ w hw => by rw [List.mem_singleton.mp hw]; rfl

theorem quiet_decrypt (row : Secrets.SecretValueRow) (recordVersion : Nat) :
    Quiet (Secrets.decrypt platform row recordVersion : TransactionM wrapper _) :=
  quiet_execute fun _ w hw => by rw [List.mem_singleton.mp hw]; rfl

theorem quiet_decryptAll (rows : List Secrets.SecretValueRow) :
    Quiet (Secrets.decryptAll platform rows : TransactionM wrapper _) :=
  Keeps.forEach (fun _ _ => Keeps.bind (quiet_decrypt _ _ _) fun _ => keeps_ok _) 0 rows

theorem quiet_encrypt (draws : Draws) (n : Nat) (plaintext : Bytes)
    (context : SecretEncryptionContext) :
    Quiet (Secrets.encrypt platform draws n plaintext context : TransactionM wrapper _) := by
  refine Keeps.bind (keeps_ofExcept _) fun _ => Keeps.bind ?_ fun record => ?_
  · refine Keeps.bind (keeps_selectForUpdate _ _) fun _ => Keeps.bind (keeps_select _)
      fun active => ?_
    cases active with
    | some record => exact keeps_ok _
    | none => exact quiet_execute fun _ w hw => by rw [List.mem_singleton.mp hw]; rfl
  · split
    · exact keeps_fail _
    · exact keeps_ok _

theorem quiet_insertVersion (row : SecretVersion) :
    Quiet (Secrets.insertVersion row : TransactionM wrapper _) :=
  quiet_execute fun _ w hw => by rw [List.mem_singleton.mp hw]; rfl

/-- An update of the rows that a condition selects. -/
theorem quiet_map {α : Type} {rows : List α} {write : α → Write}
    (h : ∀ row, isQuiet (write row) = true) : ∀ w ∈ rows.map write, isQuiet w = true := by
  intro w hw
  obtain ⟨row, -, rfl⟩ := List.mem_map.mp hw
  exact h row

theorem quiet_updateSecretRow (secretId : Uuid) {set : SecretSet}
    (h : ∀ id, isQuiet (.updateSecret id set) = true) :
    Quiet (Secrets.updateSecretRow secretId set : TransactionM wrapper _) :=
  quiet_execute fun _ => quiet_map fun row => h row.id

theorem quiet_replaceTags (secretId : Uuid) (tagIds : List Uuid) :
    Quiet (Secrets.replaceTags secretId tagIds : TransactionM wrapper _) :=
  Keeps.ite (keeps_fail _) (Keeps.bind (keeps_select _) fun _ => Keeps.ite (keeps_fail _)
    (Keeps.bind (quiet_execute fun _ w hw => by rw [List.mem_singleton.mp hw]; rfl) fun _ =>
      quiet_execute fun _ => quiet_map fun _ => rfl))

theorem readOnly_checkedOr {α β ε : Type} (wrap : ε → ServiceError) (current : β)
    (check : α → Except ε β) (input : Option α) :
    ReadOnly (checkedOr wrap current check input : TransactionM wrapper _) := by
  cases input with
  | none => exact keeps_ok _
  | some input => exact keeps_ofExcept _

theorem quiet_doIf {condition : Bool} {p : TransactionM wrapper Unit} (h : Quiet p) :
    Quiet (doIf condition p) :=
  Keeps.ite h (keeps_ok _)

theorem quiet_writeVersion (draws : Draws) (n : Nat) (userId : Uuid) (before : Secrets.SecretRow)
    (input : Secrets.VersionInput) (action : Secrets.VersionAction) (recordAudit : Bool) :
    Quiet (Secrets.writeVersion platform draws n userId before input action
      recordAudit : TransactionM wrapper _) := by
  refine Keeps.bind (keeps_ofExcept _) fun plaintext =>
    Keeps.bind (readOnly_checkedOr _ _ _ _).quiet fun notes =>
      Keeps.bind (keeps_ofExcept _) fun changeNote => Keeps.bind (quiet_encrypt _ _ _ _ _)
        fun encrypted => Keeps.bind (keeps_ofExcept _) fun changeNote =>
          Keeps.bind (quiet_insertVersion _) fun _ => Keeps.bind (keeps_ofExcept _) fun notes =>
            Keeps.bind (quiet_updateSecretRow _ fun _ => rfl) fun updated => ?_
  cases updated with
  | none => exact keeps_fail _
  | some row =>
    exact Keeps.bind (quiet_doIf (quiet_replaceTags _ _)) fun _ =>
      Keeps.bind (quiet_doIf (quiet_record _ _)) fun _ =>
        Keeps.bind (readOnly_metadataRow _ _ _).quiet fun _ => keeps_ok _

theorem quiet_writeMetadata (draws : Draws) (userId : Uuid) (before : Secrets.SecretRow)
    (input : Secrets.MetadataInput) :
    Quiet (Secrets.writeMetadata platform draws userId before input : TransactionM wrapper _) := by
  refine Keeps.bind (readOnly_checkedOr _ _ _ _).quiet fun notes =>
    Keeps.bind (keeps_ofExcept _) fun notes =>
      Keeps.bind (quiet_updateSecretRow _ fun _ => rfl) fun updated => ?_
  cases updated with
  | none => exact keeps_fail _
  | some row =>
    exact Keeps.bind (quiet_doIf (quiet_replaceTags _ _)) fun _ =>
      Keeps.bind (quiet_record _ _) fun _ =>
        Keeps.bind (readOnly_metadataRow _ _ _).quiet fun _ => keeps_ok _

end

/-! ## Calls -/

/-- What a call may do that restores no project or environment other than `restored`. -/
def Permits (restored : Option Id) : SoftDelete.Action Id → Prop
  | .restore (.secret _) => True
  | .restore x => restored = some x
  | _ => True

theorem Quiet.changes {α : Type} {p : TransactionM wrapper α} (h : Quiet p) {db : Db wrapper}
    {allowed : SoftDelete.Action Id → Prop} :
    Ensures apply p db fun _ db' => Changes allowed (marks db) (marks db') := by
  refine (h db).mono fun _ db' hmarks => ?_
  rw [hmarks]
  exact Relation.ReflTransGen.refl

theorem ensures_answering {α : Type} {wrap : α → Answer} {p : TransactionM wrapper α}
    {db : Db wrapper} {Q : Db wrapper → Prop} (h : Ensures apply p db fun _ db' => Q db') :
    Ensures apply (answering wrap p) db fun _ db' => Q db' := by
  unfold answering
  rw [ensures_bind]
  exact h.mono fun _ _ hQ => ensures_done_ok.mpr hQ

end Himitsu.Lifecycle
