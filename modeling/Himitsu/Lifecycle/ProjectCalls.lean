import Himitsu.Library.Except
import Himitsu.Lifecycle.EnvironmentCalls

/-!
# The project calls and the deletion marks

Principal results: `Projects.create_spec`, `Projects.delete_spec`, `Projects.restore_spec` — what a
call that returns found in the tables and did to the marks; `projectCall_changes` — every call is a
run of changes, and only the restoration of a project stands for one on the tree.
-/

set_option autoImplicit false

namespace Himitsu.Lifecycle

open JsString Crypto Database Services Transactions SoftDelete

variable {wrapper : KeyWrapper} {db : Db wrapper} {platform : Platform}

/-! ## Lookups -/

theorem fromRow_deletion {row project : Projects.Project} (h : Projects.fromRow row = .ok project) :
    project.deletedAt = row.deletedAt ∧ project.purgeAfter = row.purgeAfter := by
  unfold Projects.fromRow at h
  cases hchecked : Projects.validateDefaultEnvironments (some row.defaultEnvironments) with
  | error e =>
    rw [hchecked] at h
    cases h
  | ok checked =>
    rw [hchecked] at h
    cases h
    exact ⟨rfl, rfl⟩

theorem ensures_getProject {userId projectId : Uuid} {includeDeleted : Bool}
    {Q : Projects.Project → Db wrapper → Prop}
    (hQ : ∀ row ∈ db.projects, row.id = projectId → (includeDeleted = false → row.deletedAt = none) →
      ∀ project : Projects.Project, project.deletedAt = row.deletedAt.map toDate →
        project.purgeAfter = row.purgeAfter.map toDate → Q project db) :
    Ensures apply (Projects.getById platform userId projectId includeDeleted) db Q := by
  unfold Projects.getById Projects.readRow
  rw [ensures_bind, ensures_select]
  cases hfind : db.projects.find? fun row =>
      row.id = projectId && (includeDeleted || row.deletedAt.isNone) with
  | none => exact ensures_fail
  | some row =>
    have hmatch := List.find?_some hfind
    simp only [Bool.and_eq_true, decide_eq_true_eq, Bool.or_eq_true,
      Option.isNone_iff_eq_none] at hmatch
    show Ensures apply (authorizeUser _ _ _ _ >>= _) db Q
    rw [ensures_bind]
    refine (readOnly_authorizeUser _ _ _ _).ensures_of fun _ => ?_
    refine ensures_attempt.mpr fun project hproject => ?_
    obtain ⟨hdeleted, hpurge⟩ := fromRow_deletion hproject
    refine hQ row (List.mem_of_find?_eq_some hfind) hmatch.1 (fun hfalse => ?_) _ hdeleted hpurge
    exact hmatch.2.resolve_left (by simp [hfalse])

theorem readOnly_getProject (userId projectId : Uuid) (includeDeleted : Bool) :
    ReadOnly (Projects.getById platform userId projectId includeDeleted : TransactionM wrapper _) :=
  readOnly_readRow _ _ _

/-! ## Creation -/

/-- Environments inserted into an active project. -/
theorem changes_insertEnvironments {allowed : SoftDelete.Action Id → Prop}
    (hallowed : ∀ id ancestors, allowed (.insert id ancestors)) {projectId : Uuid} {ids : List Uuid}
    (hnodup : ids.Nodup) {m : Marks} (hproject : ⟨projectId, none⟩ ∈ m.projects)
    (hfresh : ∀ id ∈ ids, m.environmentOf id = none) :
    Changes allowed m
      { m with environments := m.environments ++ ids.map fun id => ⟨id, projectId, none, none⟩ } := by
  induction ids generalizing m with
  | nil =>
    rw [List.map_nil, List.append_nil]
    exact Relation.ReflTransGen.refl
  | cons id ids ih =>
    rw [List.nodup_cons] at hnodup
    have hchange := Change.createEnvironment m id projectId (hfresh id (List.mem_cons_self ..))
      hproject
    refine (hchange.changes (hallowed _ _)).trans ?_
    have hrest := ih hnodup.2 (m := { m with
      environments := m.environments ++ [⟨id, projectId, none, none⟩] }) hproject fun other hother => ?_
    · simp only [List.append_assoc, List.singleton_append] at hrest
      exact hrest
    · have hne : id ≠ other := fun heq => hnodup.1 (heq ▸ hother)
      have hold := hfresh other (List.mem_cons_of_mem _ hother)
      simp only [Marks.environmentOf] at hold ⊢
      rw [List.find?_append, hold]
      simp [hne]

/-- The marks of the environments that the trigger creates. -/
theorem marks_defaultEnvironments (row : Database.Project) (uuid : Nat → Uuid) :
    (Projects.createDefaultProjectEnvironments row uuid).map environmentMark =
      ((Projects.createDefaultProjectEnvironments row uuid).map (·.id)).map fun id =>
        ⟨id, row.id, none, none⟩ := by
  unfold Projects.createDefaultProjectEnvironments
  rw [List.map_map]
  refine List.map_congr_left fun environment henvironment => ?_
  obtain ⟨n, hn, rfl⟩ := List.mem_mapIdx.mp henvironment
  rfl

/-- The environments of a new project, as `createDefaultProjectEnvironments` names them. -/
def defaultIds (draws : Draws) (row : Database.Project) : List Uuid :=
  (Projects.createDefaultProjectEnvironments row fun n => draws.uuid (n + 1)).map (·.id)

/-- The marks with a new project and its environments. -/
def withProject (m : Marks) (id : Uuid) (environmentIds : List Uuid) : Marks :=
  { m with
    projects := m.projects ++ [⟨id, none⟩]
    environments := m.environments ++ environmentIds.map fun environmentId =>
      ⟨environmentId, id, none, none⟩ }

theorem ensures_insertProject {draws : Draws} {row : Database.Project}
    (hactive : row.deletedAt = none) :
    Ensures apply (Projects.insertRow draws row) db fun _ db' =>
      marks db' = withProject (marks db) row.id (defaultIds draws row) ∧
        Changes (Permits none) (marks db) (marks db') := by
  rw [Projects.insertRow, ensures_execute]
  intro _ hresult
  split at hresult
  · cases hresult
  rename_i hnew
  rw [Bool.not_eq_true, Bool.or_eq_false_iff, List.any_eq_false] at hnew
  obtain ⟨hproject, henvironments⟩ := hnew
  obtain ⟨hfresh, hnodup⟩ := Projects.not_conflicts henvironments
  have hprojectOf : (marks db).projectOf row.id = none := by
    refine List.find?_eq_none.mpr fun mark hmark heq => ?_
    obtain ⟨other, hother, rfl⟩ := List.mem_map.mp hmark
    exact hproject other hother (by simp [show other.id = row.id from of_decide_eq_true heq])
  have hmarks : marks (applyAll apply (.insertProject row ::
      (Projects.createDefaultProjectEnvironments row fun n => draws.uuid (n + 1)).map
        .insertEnvironment) db) = withProject (marks db) row.id (defaultIds draws row) := by
    rw [applyAll_cons, applyAll_insertEnvironment]
    simp only [marks, apply, List.map_append, marks_defaultEnvironments, withProject, defaultIds,
      List.map_cons, List.map_nil, projectMark, hactive]
  refine ⟨hmarks, ?_⟩
  rw [hmarks]
  refine ((Change.createProject (marks db) row.id hprojectOf).changes trivial).trans ?_
  refine changes_insertEnvironments (fun _ _ => trivial) hnodup
    (List.mem_append_right _ (List.mem_singleton_self _)) fun id hid => ?_
  obtain ⟨environment, hmem, rfl⟩ := List.mem_map.mp hid
  exact environmentOf_eq_none fun other hother => hfresh environment hmem other hother

theorem quiet_replaceProjectTags (projectId : Uuid) (tagIds : List Uuid) :
    Quiet (Projects.replaceTags projectId tagIds : TransactionM wrapper _) :=
  Keeps.ite (keeps_fail _) (Keeps.bind (keeps_select _) fun _ => Keeps.ite (keeps_fail _)
    (Keeps.bind (quiet_execute fun _ w hw => by rw [List.mem_singleton.mp hw]; rfl) fun _ =>
      quiet_execute fun _ => quiet_map fun _ => rfl))

theorem validateDefaultEnvironments_length {values : Option (List JsString)} {slugs : List JsString}
    (h : Projects.validateDefaultEnvironments values = .ok slugs) :
    1 ≤ slugs.length ∧ slugs.length ≤ 20 := by
  unfold Projects.validateDefaultEnvironments at h
  dsimp only at h
  split at h
  · cases h
  rename_i hbounds
  obtain ⟨normalized, hnormalized, h⟩ := Except.bind_eq_ok_iff.mp h
  have hlength := (Except.mapM_eq_ok_iff.mp hnormalized).length_eq
  split at h
  · cases h
  · cases h
    omega

theorem defaultIds_length {draws : Draws} {row : Database.Project} {slugs : List JsString}
    (h : row.defaultEnvironments = some slugs) (hslugs : 1 ≤ slugs.length) :
    (defaultIds draws row).length = slugs.length := by
  unfold defaultIds Projects.createDefaultProjectEnvironments
  rw [List.length_map, List.length_mapIdx, h]
  cases slugs with
  | nil => simp at hslugs
  | cons slug slugs => rfl

namespace Projects

theorem create_spec {draws : Draws} {userId : Uuid} {input : Projects.CreateInput} :
    Ensures apply (Projects.create platform draws userId input) db fun _ db' =>
      (∃ ids : List Uuid, 1 ≤ ids.length ∧ ids.length ≤ 20 ∧
        marks db' = withProject (marks db) (draws.uuid 0) ids) ∧
      Changes (Permits none) (marks db) (marks db') := by
  unfold Projects.create
  rw [ensures_bind]
  refine (readOnly_authorizeUser _ _ _ _).ensures_of fun _ => ?_
  rw [ensures_bind, ensures_attempt]
  intro defaultEnvironments hdefault
  have hlength := validateDefaultEnvironments_length hdefault
  rw [ensures_mapError, ensures_bind]
  refine (readOnly_attempt _ _).ensures_of fun name => ?_
  rw [ensures_bind]
  refine (readOnly_attempt _ _).ensures_of fun slug => ?_
  rw [ensures_bind]
  refine (readOnly_attempt _ _).ensures_of fun description => ?_
  rw [ensures_bind]
  refine (readOnly_attempt _ _).ensures_of fun name => ?_
  rw [ensures_bind]
  refine (readOnly_attempt _ _).ensures_of fun description => ?_
  rw [ensures_bind]
  refine (ensures_insertProject rfl).mono fun _ db' hinserted => ?_
  have hids : (defaultIds draws ⟨draws.uuid 0, name, slug, description, some defaultEnvironments,
    none, none, none⟩).length = _ := defaultIds_length rfl hlength.1
  rw [ensures_bind]
  refine (quiet_replaceProjectTags _ _).ensures fun _ db'' htags => ?_
  rw [ensures_bind]
  refine (readOnly_getProject _ _ _).ensures_of fun project => ?_
  rw [ensures_bind]
  refine (quiet_record _ _).ensures fun _ last hrecorded => ensures_done_ok.mpr ?_
  rw [hrecorded, htags]
  exact ⟨⟨_, by omega, by omega, hinserted.1⟩, hinserted.2⟩

/-! ## Deletion -/

/-- The `UPDATE` statements of `delete`. -/
theorem ensures_deleteRows {α : Type} (h : Consistent (marks db)) {id : Uuid}
    {time purge now : Timestamp} {rest : Unit → TransactionM wrapper α}
    {Q : α → Db wrapper → Prop}
    (hrest : ∀ db', marks db' = (marks db).deleteProject id time → Ensures apply (rest ()) db' Q) :
    Ensures apply (updateProjects (fun row => row.id = id && row.deletedAt.isNone)
        { deletedAt := some (some time), purgeAfter := some (some purge) } >>= fun _ =>
      updateEnvironments (fun row => row.projectId = id && row.deletedAt.isNone)
        { deletedAt := some (some time), deletedByProjectAt := some (some time) } >>= fun _ =>
      updateSecrets (fun row => row.projectId = id && row.deletedAt.isNone)
        { deletedAt := some (some time), deletedByProjectAt := some (some time),
          updatedAt := now } >>= rest) db Q := by
  obtain ⟨hprojects, henvironments, hsecrets⟩ := nodup_of_consistent h
  rw [ensures_bind, ensures_updateProjects hprojects, ensures_bind,
    ensures_updateEnvironments (by exact henvironments), ensures_bind]
  refine ensures_updateSecrets (by exact hsecrets) fun raise' => hrest _ ?_
  simp only [marks, Marks.deleteProject, map_raiseVersions]
  congr 1
  · refine map_updateWhere_comm (fun row => ?_) (fun row => ?_) _ <;> rfl
  · refine map_updateWhere_comm (fun row => ?_) (fun row => ?_) _ <;> rfl
  · refine map_updateWhere_comm (fun row => ?_) (fun row => ?_) _ <;> rfl

theorem delete_spec {options : RecoveryOptions} {draws : Draws} {userId projectId : Uuid}
    (h : Consistent (marks db)) :
    Ensures apply (Projects.delete platform options draws userId projectId) db fun _ db' =>
      Change (.delete (.project projectId)) (marks db) (marks db') := by
  unfold Projects.delete
  rw [ensures_bind]
  refine ensures_getProject fun row hrow hid hactive _ _ _ => ?_
  subst hid
  rw [ensures_bind]
  refine (readOnly_authorizeUser _ _ _ _).ensures_of fun _ => ?_
  rw [ensures_bind]
  refine ensures_storedDate ?_
  rw [ensures_bind]
  refine ensures_storedDate ?_
  refine ensures_deleteRows h fun db' hmarks => ?_
  rw [ensures_bind]
  refine (readOnly_getProject _ _ _).ensures_of fun project => ?_
  rw [ensures_bind]
  refine (quiet_record _ _).ensures fun _ db'' hkept => ensures_done_ok.mpr ?_
  rw [hkept, hmarks]
  exact Change.deleteProject (marks db) row.id _ (congrArg fromDate (toDate_fromDate _))
    (activeProject_mem hrow (hactive rfl))

/-! ## Restoration -/

/-- The `UPDATE` statements of `restore`. -/
theorem ensures_restoreRows {α : Type} (h : Consistent (marks db)) {id : Uuid} {date : Int}
    {now : Timestamp} {rest : Unit → TransactionM wrapper α} {Q : α → Db wrapper → Prop}
    (hrest : ∀ db', marks db' = (marks db).restoreProject id (fromDate date) →
      Ensures apply (rest ()) db' Q) :
    Ensures apply (updateProjects (·.id = id) { deletedAt := some none, purgeAfter := some none } >>=
      fun _ => attempt .sql (storedDate date) >>= fun time =>
        updateEnvironments (fun row => row.projectId = id && row.deletedByProjectAt = some time)
          { deletedAt := some none, deletedByProjectAt := some none } >>= fun _ =>
        updateSecrets (fun row => row.projectId = id && row.deletedByProjectAt = some time)
          { deletedAt := some none, deletedByProjectAt := some none, updatedAt := now } >>=
            rest) db Q := by
  obtain ⟨hprojects, henvironments, hsecrets⟩ := nodup_of_consistent h
  rw [ensures_bind, ensures_updateProjects hprojects, ensures_bind]
  refine ensures_storedDate ?_
  rw [ensures_bind, ensures_updateEnvironments (by exact henvironments), ensures_bind]
  refine ensures_updateSecrets (by exact hsecrets) fun raise' => hrest _ ?_
  simp only [marks, Marks.restoreProject, map_raiseVersions]
  congr 1
  · refine map_updateWhere_comm (fun row => ?_) (fun row => ?_) _ <;> rfl
  · refine map_updateWhere_comm (fun row => ?_) (fun row => ?_) _ <;> rfl
  · refine map_updateWhere_comm (fun row => ?_) (fun row => ?_) _ <;> rfl

theorem restore_spec {draws : Draws} {userId projectId : Uuid} (h : Consistent (marks db)) :
    Ensures apply (Projects.restore platform draws userId projectId) db fun _ db' =>
      Change (.restore (.project projectId)) (marks db) (marks db') := by
  unfold Projects.restore
  rw [ensures_bind]
  refine ensures_getProject fun row hrow hid _ project hdeleted _ => ?_
  subst hid
  rw [ensures_bind]
  refine (readOnly_authorizeUser _ _ _ _).ensures_of fun _ => ?_
  split
  · rename_i date _ hdate _
    rw [hdeleted] at hdate
    obtain ⟨time, htime, rfl⟩ := Option.map_eq_some_iff.mp hdate
    have hmark : ⟨row.id, some time⟩ ∈ (marks db).projects := by
      rw [← htime]
      exact mem_projects hrow
    split
    · exact ensures_fail
    refine ensures_restoreRows h fun db' hmarks => ?_
    rw [ensures_bind]
    refine (readOnly_getProject _ _ _).ensures_of fun restored => ?_
    rw [ensures_bind]
    refine (quiet_record _ _).ensures fun _ db'' hkept => ensures_done_ok.mpr ?_
    rw [hkept, hmarks, h.projectTime _ hmark time rfl]
    exact Change.restoreProject (marks db) row.id time hmark
  · exact ensures_fail

end Projects

/-! ## Changes -/

theorem quiet_updateProject {draws : Draws} {userId projectId : Uuid}
    {input : Projects.UpdateInput} :
    Quiet (Projects.update platform draws userId projectId input : TransactionM wrapper _) := by
  refine Keeps.bind (readOnly_getProject _ _ _).quiet fun before =>
    Keeps.bind (readOnly_authorizeUser _ _ _ _).quiet fun _ =>
      Keeps.bind (readOnly_checkedOr _ _ _ _).quiet fun name =>
        Keeps.bind (readOnly_checkedOr _ _ _ _).quiet fun slug =>
          Keeps.bind (readOnly_checkedOr _ _ _ _).quiet fun description =>
            Keeps.bind (readOnly_checkedOr _ _ _ _).quiet fun defaultEnvironments =>
              Keeps.mapError ?_ _
  exact Keeps.bind (keeps_ofExcept _) fun name => Keeps.bind (keeps_ofExcept _) fun description =>
    Keeps.bind (quiet_execute fun _ => quiet_map fun _ => rfl) fun _ =>
      Keeps.bind (quiet_doIf (quiet_replaceProjectTags _ _)) fun _ =>
        Keeps.bind (readOnly_getProject _ _ _).quiet fun after =>
          Keeps.bind (quiet_record _ _) fun _ => keeps_ok _

theorem quiet_setArchived {draws : Draws} {userId projectId : Uuid} {archived : Bool} :
    Quiet (Projects.setArchived platform draws userId projectId archived :
      TransactionM wrapper _) :=
  Keeps.bind (readOnly_getProject _ _ _).quiet fun _ =>
    Keeps.bind (readOnly_authorizeUser _ _ _ _).quiet fun _ =>
      Keeps.bind (quiet_execute fun _ => quiet_map fun _ => rfl) fun _ =>
        Keeps.bind (readOnly_getProject _ _ _).quiet fun _ =>
          Keeps.bind (quiet_record _ _) fun _ => keeps_ok _

/-! ## Calls -/

/-- The project that a call restores. -/
def restoredProject : ProjectCall → Option Id
  | .restore projectId => some (.project projectId)
  | _ => none

/-- **The changes of a project call.** -/
theorem projectCall_changes {config : Config} {userId : Uuid} {draws : Draws}
    {call : ProjectCall} (h : Consistent (marks db)) :
    Ensures apply (call.program config userId draws) db fun _ db' =>
      Changes (Permits (restoredProject call)) (marks db) (marks db') := by
  cases call with
  | create input => exact ensures_answering (Projects.create_spec.mono fun _ _ => And.right)
  | getBySlug slug includeDeleted =>
    exact ensures_answering (readOnly_getBySlug _ _ _ _).quiet.changes
  | getById projectId includeDeleted =>
    exact ensures_answering (readOnly_getProject _ _ _).quiet.changes
  | list => exact ensures_answering (readOnly_listProjects _ _).quiet.changes
  | update projectId input => exact ensures_answering quiet_updateProject.changes
  | setArchived projectId archived => exact ensures_answering quiet_setArchived.changes
  | delete projectId =>
    refine ensures_answering ((Projects.delete_spec h).mono fun _ db' hchange => ?_)
    exact hchange.changes trivial
  | restore projectId =>
    refine ensures_answering ((Projects.restore_spec h).mono fun _ db' hchange => ?_)
    exact hchange.changes rfl

end Himitsu.Lifecycle
