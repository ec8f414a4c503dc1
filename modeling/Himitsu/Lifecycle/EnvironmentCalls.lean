import Himitsu.Lifecycle.Rows

/-!
# The environment calls and the deletion marks

Principal results: `create_spec`, `delete_spec`, `restore_spec` — what a call that returns found in
the tables and did to the marks; `environmentCall_changes` — every call is a run of changes, and
only the restoration of an environment stands for one on the tree.
-/

set_option autoImplicit false

namespace Himitsu.Lifecycle

open JsString Crypto Database Services Transactions SoftDelete

variable {wrapper : KeyWrapper} {db : Db wrapper}

/-- The rule for a read-only step. -/
theorem ReadOnly.ensures_of {α : Type} {p : TransactionM wrapper α} (h : ReadOnly p)
    {Q : α → Db wrapper → Prop} (hQ : ∀ a, Q a db) : Ensures apply p db Q := by
  refine Keeps.ensures h fun a db' heq => ?_
  rw [show db' = db from heq]
  exact hQ a

/-! ## Lookups -/

theorem ensures_requireActiveProject {projectId : Uuid} {Q : Unit → Db wrapper → Prop}
    (hQ : (∃ row ∈ db.projects, row.id = projectId ∧ row.deletedAt = none) → Q () db) :
    Ensures apply (Environments.requireActiveProject projectId) db Q := by
  unfold Environments.requireActiveProject
  rw [ensures_bind, ensures_select]
  split
  · rename_i hfound
    obtain ⟨row, hrow, hmatch⟩ := List.any_eq_true.mp hfound
    simp only [Bool.and_eq_true, decide_eq_true_eq, Option.isNone_iff_eq_none] at hmatch
    exact ensures_done_ok.mpr (hQ ⟨row, hrow, hmatch⟩)
  · exact ensures_fail

theorem ensures_getEnvironment {userId environmentId : Uuid} {includeDeleted : Bool}
    {Q : Environments.Environment → Db wrapper → Prop}
    (hQ : ∀ row ∈ db.environments, row.id = environmentId →
      (includeDeleted = false → row.deletedAt = none) → Q (Environments.fromRow db.orgId row) db) :
    Ensures apply (Environments.get userId environmentId includeDeleted) db Q := by
  unfold Environments.get
  rw [ensures_bind, ensures_select]
  cases hfind : db.environments.find? fun row =>
      row.id = environmentId && (includeDeleted || row.deletedAt.isNone) with
  | none => exact ensures_fail
  | some row =>
    have hmatch := List.find?_some hfind
    simp only [Bool.and_eq_true, decide_eq_true_eq, Bool.or_eq_true,
      Option.isNone_iff_eq_none] at hmatch
    show Ensures apply (authorizeUser _ _ _ _ >>= _) db Q
    rw [ensures_bind]
    refine (readOnly_authorizeUser _ _ _ _).ensures_of fun _ => ensures_done_ok.mpr ?_
    refine hQ row (List.mem_of_find?_eq_some hfind) hmatch.1 fun hdeleted => ?_
    exact hmatch.2.resolve_left (by simp [hdeleted])

theorem activeProject_mem {row : Database.Project} (hrow : row ∈ db.projects)
    (hactive : row.deletedAt = none) : ⟨row.id, none⟩ ∈ (marks db).projects := by
  have hmem := mem_projects hrow
  rwa [projectMark, hactive] at hmem

theorem environmentMark_mem (h : Consistent (marks db)) {row : Database.Environment}
    (hrow : row ∈ db.environments) (hactive : row.deletedAt = none) :
    ⟨row.id, row.projectId, none, none⟩ ∈ (marks db).environments := by
  have hmem := mem_environments hrow
  have hby := h.environment_active hmem hactive
  rw [environmentMark, hactive, show row.deletedByProjectAt = none from hby] at hmem
  exact hmem

/-! ## Creation -/

theorem environmentOf_eq_none {id : Uuid}
    (hfresh : ∀ row ∈ db.environments, row.id ≠ id) : (marks db).environmentOf id = none := by
  refine List.find?_eq_none.mpr fun mark hmark => ?_
  obtain ⟨row, hrow, rfl⟩ := List.mem_map.mp hmark
  exact fun heq => hfresh row hrow (of_decide_eq_true heq)

theorem ensures_insertRow {id projectId : Uuid} {name slug : JsString} {isProtected : Bool} :
    Ensures apply (Environments.insertRow id projectId name slug isProtected) db fun _ db' =>
      (marks db).environmentOf id = none ∧
        marks db' = { marks db with
          environments := (marks db).environments ++ [⟨id, projectId, none, none⟩] } := by
  rw [Environments.insertRow, ensures_execute]
  intro environment hresult
  dsimp only at hresult
  split at hresult
  · cases hresult
  · rename_i hnew
    rw [Bool.not_eq_true, List.any_eq_false] at hnew
    refine ⟨environmentOf_eq_none fun row hrow heq => hnew row hrow ?_, ?_⟩
    · simp [Environments.newRow, heq]
    · simp [marks, apply, Environments.newRow, environmentMark]

theorem create_spec {draws : Draws} {userId projectId : Uuid} {input : Environments.CreateInput} :
    Ensures apply (Environments.create draws userId projectId input) db fun _ db' =>
      (Environments.activeRows db projectId).length < Environments.MAX_ENVIRONMENTS ∧
        Change (.insert (.environment (draws.uuid 0)) [.project projectId]) (marks db)
          (marks db') := by
  unfold Environments.create
  rw [ensures_bind]
  refine ensures_requireActiveProject fun hproject => ?_
  obtain ⟨project, hmem, rfl, hactive⟩ := hproject
  rw [ensures_bind]
  refine (readOnly_authorizeUser _ _ _ _).ensures_of fun _ => ?_
  rw [ensures_bind, ensures_select]
  split
  · exact ensures_fail
  · rename_i hcount
    rw [ensures_mapError, ensures_bind]
    refine (readOnly_attempt _ _).ensures_of fun name => ?_
    rw [ensures_bind]
    refine (readOnly_attempt _ _).ensures_of fun slug => ?_
    rw [ensures_bind]
    refine (readOnly_attempt _ _).ensures_of fun name => ?_
    rw [ensures_bind]
    refine ensures_insertRow.mono fun environment db' hinserted => ?_
    rw [ensures_bind]
    refine (quiet_record _ _).ensures fun _ db'' hmarks => ensures_done_ok.mpr ⟨by omega, ?_⟩
    rw [hmarks, hinserted.2]
    exact Change.createEnvironment (marks db) _ project.id hinserted.1
      (activeProject_mem hmem hactive)

/-! ## Deletion -/

theorem storedDate_ok {date : Int} {time : Timestamp} (h : storedDate date = .ok time) :
    time = fromDate date := by
  unfold storedDate at h
  split at h
  · cases h
    rfl
  · cases h

theorem ensures_storedDate {date : Int} {Q : Timestamp → Db wrapper → Prop}
    (hQ : Q (fromDate date) db) :
    Ensures apply (attempt .sql (storedDate date)) db Q := by
  refine ensures_attempt.mpr fun time htime => ?_
  rw [storedDate_ok htime]
  exact hQ

/-- The `UPDATE` statements of `delete`. -/
theorem ensures_deleteRows {α : Type} (h : Consistent (marks db)) {id : Uuid}
    {time purge now : Timestamp} {rest : Unit → TransactionM wrapper α}
    {Q : α → Db wrapper → Prop}
    (hrest : ∀ db', marks db' = (marks db).deleteEnvironment id time →
      Ensures apply (rest ()) db' Q) :
    Ensures apply (updateEnvironments (fun row => row.id = id && row.deletedAt.isNone)
        { deletedAt := some (some time), purgeAfter := some (some purge) } >>= fun _ =>
      updateSecrets (fun row => row.environmentId = id && row.deletedAt.isNone)
        { deletedAt := some (some time), deletedByEnvironmentAt := some (some time),
          updatedAt := now } >>= rest) db Q := by
  obtain ⟨-, henvironments, hsecrets⟩ := nodup_of_consistent h
  rw [ensures_bind, ensures_updateEnvironments henvironments, ensures_bind]
  refine ensures_updateSecrets (by exact hsecrets) fun raise' => hrest _ ?_
  simp only [marks, Marks.deleteEnvironment, map_raiseVersions]
  congr 1
  · refine map_updateWhere_comm (fun row => ?_) (fun row => ?_) _ <;> rfl
  · refine map_updateWhere_comm (fun row => ?_) (fun row => ?_) _ <;> rfl

theorem delete_spec {options : RecoveryOptions} {draws : Draws} {userId environmentId : Uuid}
    {confirmSecrets : Bool} (h : Consistent (marks db)) :
    Ensures apply (Environments.delete options draws userId environmentId confirmSecrets) db
      fun _ db' => ∃ row ∈ db.environments, row.id = environmentId ∧ row.deletedAt = none ∧
        1 < (Environments.activeRows db row.projectId).length ∧
        Change (.delete (.environment environmentId)) (marks db) (marks db') := by
  unfold Environments.delete
  rw [ensures_bind]
  refine ensures_getEnvironment fun row hrow hid hactive => ?_
  subst hid
  rw [ensures_bind]
  refine (readOnly_authorizeUser _ _ _ _).ensures_of fun _ => ?_
  rw [ensures_bind, Environments.activeCounts, ensures_select]
  split
  · exact ensures_fail
  rename_i hcount
  split
  · exact ensures_fail
  rw [ensures_bind]
  refine ensures_storedDate ?_
  rw [ensures_bind]
  refine ensures_storedDate ?_
  refine ensures_deleteRows h fun db' hmarks => ?_
  rw [ensures_bind]
  refine (quiet_record _ _).ensures fun _ db'' hkept => ensures_done_ok.mpr ?_
  refine ⟨row, hrow, rfl, hactive rfl, Nat.lt_of_not_le hcount, ?_⟩
  rw [hkept, hmarks]
  exact Change.deleteEnvironment (marks db) row.id row.projectId _
    (congrArg fromDate (toDate_fromDate _)) (environmentMark_mem h hrow (hactive rfl))

/-! ## Restoration -/

/-- The `UPDATE` statements of `restore`. -/
theorem ensures_restoreRows {α : Type} (h : Consistent (marks db)) {id : Uuid}
    {time now : Timestamp} {rest : Unit → TransactionM wrapper α} {Q : α → Db wrapper → Prop}
    (hrest : ∀ db', marks db' = (marks db).restoreEnvironment id time →
      Ensures apply (rest ()) db' Q) :
    Ensures apply (updateEnvironments (fun row => row.id = id && row.deletedAt = some time &&
          row.deletedByProjectAt.isNone) { deletedAt := some none, purgeAfter := some none } >>=
        fun _ => updateSecrets (fun row => row.environmentId = id &&
            row.deletedByEnvironmentAt = some time && row.deletedByProjectAt.isNone)
          { deletedAt := some none, deletedByEnvironmentAt := some none, updatedAt := now } >>=
            rest) db Q := by
  obtain ⟨-, henvironments, hsecrets⟩ := nodup_of_consistent h
  rw [ensures_bind, ensures_updateEnvironments henvironments, ensures_bind]
  refine ensures_updateSecrets (by exact hsecrets) fun raise' => hrest _ ?_
  simp only [marks, Marks.restoreEnvironment, map_raiseVersions]
  congr 1
  · refine map_updateWhere_comm (fun row => ?_) (fun row => ?_) _ <;> rfl
  · refine map_updateWhere_comm (fun row => ?_) (fun row => ?_) _ <;> rfl

theorem recoverableSince_eq {row : Database.Environment} {clock since : Int}
    (h : Environments.recoverableSince (Environments.fromRow db.orgId row) clock = some since) :
    ∃ time, row.deletedAt = some time ∧ since = toDate time := by
  unfold Environments.recoverableSince Environments.fromRow at h
  cases hdeleted : row.deletedAt with
  | none => simp [hdeleted] at h
  | some time =>
    cases hpurge : row.purgeAfter with
    | none => simp [hdeleted, hpurge] at h
    | some purge =>
      simp only [hdeleted, hpurge, Option.map_some, ite_eq_iff, reduceCtorEq, and_false,
        Option.some.injEq, false_or] at h
      exact ⟨time, rfl, h.2.symm⟩

theorem restore_spec {draws : Draws} {userId environmentId : Uuid} (h : Consistent (marks db)) :
    Ensures apply (Environments.restore draws userId environmentId) db
      fun _ db' => ∃ row ∈ db.environments, row.id = environmentId ∧ row.deletedAt ≠ none ∧
        row.deletedByProjectAt = none ∧ ⟨row.projectId, none⟩ ∈ (marks db).projects ∧
        Change (.restore (.environment environmentId)) (marks db) (marks db') := by
  unfold Environments.restore
  rw [ensures_bind]
  refine ensures_getEnvironment fun row hrow hid _ => ?_
  subst hid
  split
  · exact ensures_fail
  rename_i since hsince
  obtain ⟨time, htime, rfl⟩ := recoverableSince_eq hsince
  rw [ensures_bind, ensures_select]
  have hfind : db.environments.find? (·.id = row.id) = some row :=
    find_of_mem (nodup_of_consistent h).2.1 hrow
  rw [hfind]
  split
  · exact ensures_fail
  rename_i hby
  have hby : row.deletedByProjectAt = none := by simpa using hby
  rw [ensures_bind]
  refine ensures_requireActiveProject fun hproject => ?_
  obtain ⟨project, hmem, hprojectId, hactive⟩ := hproject
  rw [ensures_bind]
  refine (readOnly_authorizeUser _ _ _ _).ensures_of fun _ => ?_
  rw [ensures_bind]
  refine ensures_storedDate ?_
  have hmark := mem_environments hrow
  rw [h.environmentTime _ hmark time htime]
  refine ensures_restoreRows h fun db' hmarks => ?_
  rw [ensures_bind]
  refine (quiet_record _ _).ensures fun _ db'' hkept => ?_
  refine (readOnly_getEnvironment _ _ _).quiet.ensures fun _ last hread => ?_
  have hactive : ⟨row.projectId, none⟩ ∈ (marks db).projects := by
    rw [show row.projectId = project.id from hprojectId.symm]
    exact activeProject_mem hmem hactive
  refine ⟨row, hrow, rfl, by simp [htime], hby, hactive, ?_⟩
  rw [hread, hkept, hmarks]
  rw [environmentMark, htime, hby] at hmark
  exact Change.restoreEnvironment (marks db) row.id row.projectId time hmark hactive

/-! ## Changes -/

theorem quiet_update {draws : Draws} {userId environmentId : Uuid}
    {input : Environments.UpdateInput} :
    Quiet (Environments.update draws userId environmentId input : TransactionM wrapper _) := by
  refine Keeps.bind (readOnly_getEnvironment _ _ _).quiet fun before =>
    Keeps.bind (readOnly_authorizeUser _ _ _ _).quiet fun _ =>
      Keeps.bind (readOnly_checkedOr _ _ _ _).quiet fun name =>
        Keeps.bind (readOnly_checkedOr _ _ _ _).quiet fun slug => Keeps.mapError ?_ _
  refine Keeps.bind (keeps_ofExcept _) fun name =>
    Keeps.bind (quiet_execute fun _ => quiet_map fun _ => rfl) fun row => ?_
  cases row with
  | none => exact keeps_fail _
  | some after => exact Keeps.bind (quiet_record _ _) fun _ => keeps_ok _

theorem quiet_reorder {draws : Draws} {userId projectId : Uuid} {environmentIds : List Uuid} :
    Quiet (Environments.reorder draws userId projectId environmentIds :
      TransactionM wrapper _) := by
  refine Keeps.bind (readOnly_requireActiveProject _).quiet fun _ =>
    Keeps.bind (readOnly_authorizeUser _ _ _ _).quiet fun _ => Keeps.ite (keeps_fail _) ?_
  refine Keeps.bind (keeps_select _) fun current => Keeps.ite (keeps_fail _) ?_
  refine Keeps.bind (quiet_doIf (readOnly_authorizeUser _ _ _ _).quiet) fun _ =>
    Keeps.bind (quiet_execute fun _ => quiet_map fun _ => rfl) fun _ =>
      Keeps.bind (quiet_record _ _) fun _ => (readOnly_listEnvironments _ _).quiet

/-! ## Calls -/

/-- The environment that a call restores. -/
def restoredEnvironment : EnvironmentCall → Option Id
  | .restore environmentId => some (.environment environmentId)
  | _ => none

/-- **The changes of an environment call.** -/
theorem environmentCall_changes {config : Config} {userId : Uuid} {draws : Draws}
    {call : EnvironmentCall} (h : Consistent (marks db)) :
    Ensures apply (call.program config userId draws) db fun _ db' =>
      Changes (Permits (restoredEnvironment call)) (marks db) (marks db') := by
  cases call with
  | list projectId => exact ensures_answering (readOnly_listEnvironments _ _).quiet.changes
  | get environmentId includeDeleted =>
    exact ensures_answering (readOnly_getEnvironment _ _ _).quiet.changes
  | create projectId input =>
    refine ensures_answering (create_spec.mono fun _ db' hspec => ?_)
    exact hspec.2.changes trivial
  | update environmentId input => exact ensures_answering quiet_update.changes
  | reorder projectId environmentIds => exact ensures_answering quiet_reorder.changes
  | delete environmentId confirmSecrets =>
    refine ensures_answering ((delete_spec h).mono fun _ db' hspec => ?_)
    obtain ⟨row, -, -, -, -, hchange⟩ := hspec
    exact hchange.changes trivial
  | restore environmentId =>
    refine ensures_answering ((restore_spec h).mono fun _ db' hspec => ?_)
    obtain ⟨row, -, -, -, -, -, hchange⟩ := hspec
    exact hchange.changes rfl

end Himitsu.Lifecycle
