import Himitsu.Api.Tags
import Himitsu.Protection.SecretCalls

/-!
# Protected environments

* `leaves_environmentCall`, `leaves_projectCall` — one call of a user below admin.
* `Request`, `Request.BelowAdmin` — a call or a tag request, by a user whose effective role is below
  admin.

Principal result: `protected_unchanged` — a sequence of requests by users below admin leaves every
protected environment as it is.
-/

set_option autoImplicit false

namespace Himitsu.Protection

open JsString Crypto Database Services Transactions Authz Lifecycle Api

variable {wrapper : KeyWrapper} {α : Type} {aead : Aead} {before db : Db wrapper}
  {environment : Database.Environment}

/-! ## Environment calls -/

section

variable {draws : Draws} {userId : Uuid}

theorem leaves_get {environmentId : Uuid} {includeDeleted : Bool} :
    Leaves aead before environment (Environments.get userId environmentId includeDeleted) :=
  leaves_of_readOnly (readOnly_getEnvironment _ _ _)

/-- An update of the environments that a condition selects, which are other ones. -/
theorem leaves_updateEnvironments {p : Database.Environment → Bool} {set : EnvironmentSet}
    (hp : ∀ db, Untouched aead before environment db → ∀ row ∈ db.environments, p row = true →
      row.id ≠ environment.id) :
    Leaves aead before environment (updateEnvironments p set) := by
  refine preserves_execute (P := Spares before environment) (fun db h => ?_)
    fun _ _ hw hinv => hw.untouched hinv
  refine emits_map fun row hrow => ?_
  obtain ⟨hmem, hprow⟩ := List.mem_filter.mp hrow
  exact hp db h row hmem hprow

variable (hs : Setting before environment)
  (hrole : RoleBelowAdmin before userId (some environment.projectId) = true)
include hs

omit hs in
/-- An insertion of rows with new ids. -/
theorem untouched_insertEnvironments (h : Untouched aead before environment db)
    {rows : List Database.Environment}
    (hfresh : ∀ row ∈ rows, row.id ≠ environment.id) :
    Untouched aead before environment
      { db with environments := db.environments ++ rows } := by
  refine ⟨Eq.trans ?_ h.contents, h.memberships, h.overrides, h.owned, h.values⟩
  have hrows : (db.environments ++ rows).filter (·.id = environment.id) =
      db.environments.filter (·.id = environment.id) := by
    have hnone : rows.filter (·.id = environment.id) = [] := by
      rw [List.filter_eq_nil_iff]
      exact fun row hrow => by simpa using hfresh row hrow
    rw [List.filter_append, hnone, List.append_nil]
  simp only [contentsOf, Db.environmentRows, hrows]
  rfl

theorem leaves_createEnvironment {projectId : Uuid} {input : Environments.CreateInput} :
    Leaves aead before environment (Environments.create draws userId projectId input) := by
  refine Preserves.bind (leaves_of_readOnly (readOnly_requireActiveProject _)) fun _ =>
    Preserves.bind (leaves_of_readOnly (readOnly_authorizeUser _ _ _ _)) fun _ =>
      Preserves.bind (leaves_of_readOnly (keeps_select _)) fun count =>
        Preserves.ite (preserves_fail _) (Preserves.mapError ?_ _)
  refine Preserves.bind (leaves_attempt _ _) fun name => Preserves.bind (leaves_attempt _ _)
    fun slug => Preserves.bind (leaves_attempt _ _) fun name => Preserves.bind (fun db h => ?_)
      fun row => Preserves.bind leaves_record fun _ => preserves_ok _
  rw [Environments.insertRow, ensures_execute]
  intro result hresult
  dsimp only at hresult
  split at hresult
  · cases hresult
  rename_i hnew
  rw [Bool.not_eq_true, List.any_eq_false] at hnew
  refine untouched_insertEnvironments h fun row hrow hid => ?_
  rw [List.mem_singleton.mp hrow] at hid
  exact hnew environment (h.mem_environment hs) (by rw [← hid]; simp)

/-- What `get` finds is the protected row or another one. -/
theorem ensures_knownEnvironment (h : Untouched aead before environment db) {environmentId : Uuid}
    {includeDeleted : Bool} :
    Ensures apply (Environments.get userId environmentId includeDeleted) db fun found db' =>
      Untouched aead before environment db' ∧ (environmentId = environment.id →
        found.isProtected = true ∧ found.projectId = environment.projectId) := by
  refine ensures_getEnvironment fun row hrow hid _ => ⟨h, fun heq => ?_⟩
  rw [h.row_eq hs hrow (hid.trans heq)]
  exact ⟨hs.isProtected, rfl⟩

include hrole

omit hs in
/-- **A write to the environment is refused.** -/
theorem leaves_or_denied (environmentId : Uuid) {projectId : Uuid} {isProtected : Bool}
    {permission : Permission}
    (hknown : environmentId = environment.id → projectId = environment.projectId ∧
      NeedsAdmin isProtected permission) {f : TransactionM wrapper α}
    (hf : environmentId ≠ environment.id → Leaves aead before environment f) :
    Leaves aead before environment
      (authorizeUser userId (some projectId) isProtected permission >>= fun _ => f) := by
  intro db h
  rw [ensures_bind]
  by_cases hid : environmentId = environment.id
  · obtain ⟨rfl, hneeds⟩ := hknown hid
    exact ensures_denied h hrole hneeds
  · exact (readOnly_authorizeUser _ _ _ _).ensures_of fun _ => hf hid db h

theorem leaves_updateEnvironment {environmentId : Uuid} {input : Environments.UpdateInput} :
    Leaves aead before environment (Environments.update draws userId environmentId input) := by
  refine Preserves.bind_of (fun db h => ensures_knownEnvironment hs h) fun found hknown =>
    leaves_or_denied hrole environmentId (fun hid => ?_) fun hne => ?_
  · obtain ⟨hprotected, hproject⟩ := hknown hid
    rw [hprotected, Bool.true_or]
    exact ⟨hproject, needsAdmin_environmentUpdate⟩
  refine Preserves.bind (leaves_of_readOnly (readOnly_checkedOr _ _ _ _)) fun name =>
    Preserves.bind (leaves_of_readOnly (readOnly_checkedOr _ _ _ _)) fun slug =>
      Preserves.mapError (Preserves.bind (leaves_attempt _ _) fun name => Preserves.bind ?_
        fun row => ?_) _
  · refine Emits.untouched (emits_execute fun _ => emits_map fun row hrow => ?_)
    have hmatch := (List.mem_filter.mp hrow).2
    simp only [Bool.and_eq_true, decide_eq_true_eq] at hmatch
    show row.id ≠ environment.id
    rwa [hmatch.1]
  · cases row with
    | none => exact preserves_fail _
    | some after => exact Preserves.bind leaves_record fun _ => preserves_ok _

theorem leaves_reorder {projectId : Uuid} {environmentIds : List Uuid} :
    Leaves aead before environment
      (Environments.reorder draws userId projectId environmentIds) := by
  refine Preserves.bind (leaves_of_readOnly (readOnly_requireActiveProject _)) fun _ =>
    Preserves.bind (leaves_of_readOnly (readOnly_authorizeUser _ _ _ _)) fun _ =>
      Preserves.ite (preserves_fail _) (Preserves.bind_of
        (R := fun current => Environments.isActiveIn projectId environment = true →
          environment ∈ current.2) (fun db h => ?_) fun current hcurrent =>
            Preserves.ite (preserves_fail _) ?_)
  · rw [ensures_select]
    exact ⟨h, fun hactive => List.mem_filter.mpr ⟨h.mem_environment hs, hactive⟩⟩
  have hrest : Environments.isActiveIn projectId environment ≠ true →
      Leaves aead before environment (Environments.updateOrder projectId environmentIds) := by
    intro hinactive
    refine preserves_execute (P := Spares before environment) (fun db h => ?_)
      fun _ _ hw hinv => hw.untouched hinv
    refine emits_map fun row hrow hid => hinactive ?_
    obtain ⟨hmem, hactive⟩ := List.mem_filter.mp (List.mem_filter.mp hrow).1
    rwa [← h.row_eq hs hmem hid]
  by_cases hactive : Environments.isActiveIn projectId environment = true
  · have hany : current.2.any (·.isProtected) = true :=
      List.any_eq_true.mpr ⟨environment, hcurrent hactive, hs.isProtected⟩
    have hproject : environment.projectId = projectId := by
      simp only [Environments.isActiveIn, Bool.and_eq_true, decide_eq_true_eq] at hactive
      exact hactive.1
    intro db h
    rw [ensures_bind, hany]
    show Ensures apply (authorizeUser userId (some projectId) true .environmentUpdate) db _
    rw [← hproject]
    exact ensures_denied h hrole needsAdmin_environmentUpdate
  · exact Preserves.bind (Preserves.ite (leaves_of_readOnly (readOnly_authorizeUser _ _ _ _))
      (preserves_ok _)) fun _ => Preserves.bind (hrest hactive) fun _ =>
        Preserves.bind leaves_record fun _ => leaves_of_readOnly (readOnly_listEnvironments _ _)

theorem leaves_deleteEnvironment {options : RecoveryOptions} {environmentId : Uuid}
    {confirmSecrets : Bool} :
    Leaves aead before environment
      (Environments.delete options draws userId environmentId confirmSecrets) := by
  refine Preserves.bind_of (fun db h => ensures_knownEnvironment hs h) fun found hknown =>
    leaves_or_denied hrole environmentId
      (fun hid => ⟨(hknown hid).2, needsAdmin_environmentDelete _⟩) fun hne => ?_
  refine Preserves.bind (leaves_of_readOnly (keeps_select _)) fun active => Preserves.ite
    (preserves_fail _) (Preserves.ite (preserves_fail _) (Preserves.bind (leaves_attempt _ _)
      fun deletedAt => Preserves.bind (leaves_attempt _ _) fun purgeAt => ?_))
  refine Preserves.bind (leaves_updateEnvironments fun db h row _ hmatch => ?_) fun _ =>
    Preserves.bind (leaves_updateSecrets fun db h row _ hmatch => ?_) fun _ =>
      Preserves.bind leaves_record fun _ => preserves_ok _
  · simp only [Bool.and_eq_true, decide_eq_true_eq] at hmatch
    rwa [hmatch.1]
  · simp only [Bool.and_eq_true, decide_eq_true_eq] at hmatch
    rwa [hmatch.1]

theorem leaves_restoreEnvironment {environmentId : Uuid} :
    Leaves aead before environment (Environments.restore draws userId environmentId) := by
  refine Preserves.bind_of (fun db h => ensures_knownEnvironment hs h) fun found hknown => ?_
  cases Environments.recoverableSince found draws.clock with
  | none => exact preserves_fail _
  | some deletedAt =>
    refine Preserves.bind (leaves_of_readOnly (keeps_select _)) fun byProject => Preserves.ite
      (preserves_fail _) (Preserves.bind (leaves_of_readOnly (readOnly_requireActiveProject _))
        fun _ => leaves_or_denied hrole environmentId
          (fun hid => ⟨(hknown hid).2, needsAdmin_environmentDelete _⟩) fun hne => ?_)
    refine Preserves.bind (leaves_attempt _ _) fun deletedAt => Preserves.bind
      (leaves_updateEnvironments fun db h row _ hmatch => ?_) fun _ => Preserves.bind
        (leaves_updateSecrets fun db h row _ hmatch => ?_) fun _ =>
          Preserves.bind leaves_record fun _ => leaves_get
    · simp only [Bool.and_eq_true, decide_eq_true_eq] at hmatch
      rwa [hmatch.1.1]
    · simp only [Bool.and_eq_true, decide_eq_true_eq] at hmatch
      rwa [hmatch.1.1]

/-- **An environment call of a user below admin leaves the environment.** -/
theorem leaves_environmentCall {config : Config} {call : EnvironmentCall} :
    Leaves aead before environment
      (call.program config userId draws : TransactionM wrapper Answer) := by
  cases call with
  | list =>
    exact Preserves.bind (leaves_of_readOnly (readOnly_listEnvironments _ _)) fun _ => preserves_ok _
  | get => exact Preserves.bind leaves_get fun _ => preserves_ok _
  | create => exact Preserves.bind (leaves_createEnvironment hs) fun _ => preserves_ok _
  | update => exact Preserves.bind (leaves_updateEnvironment hs hrole) fun _ => preserves_ok _
  | reorder => exact Preserves.bind (leaves_reorder hs hrole) fun _ => preserves_ok _
  | delete => exact Preserves.bind (leaves_deleteEnvironment hs hrole) fun _ => preserves_ok _
  | restore => exact Preserves.bind (leaves_restoreEnvironment hs hrole) fun _ => preserves_ok _

end

/-! ## Project calls -/

section

variable {platform : Platform} {draws : Draws} {userId : Uuid}

theorem leaves_getProject {projectId : Uuid} {includeDeleted : Bool} :
    Leaves aead before environment (Projects.getById platform userId projectId includeDeleted) :=
  leaves_of_readOnly (readOnly_getProject _ _ _)

theorem leaves_replaceProjectTags {projectId : Uuid} {tagIds : List Uuid} :
    Leaves aead before environment (Projects.replaceTags projectId tagIds) :=
  Preserves.ite (preserves_fail _) (Preserves.bind (leaves_of_readOnly (keeps_select _)) fun _ =>
    Preserves.ite (preserves_fail _) (Emits.untouched (Emits.bind
      (emits_execute fun _ w hw => by rw [List.mem_singleton.mp hw]; trivial) fun _ =>
        emits_execute fun _ => emits_map fun _ _ => trivial)))

theorem leaves_updateProjects {p : Database.Project → Bool} {set : ProjectSet}
    (hp : ∀ row, p row = true → row.id = environment.projectId → set.deletedAt = none) :
    Leaves aead before environment (updateProjects p set) :=
  Emits.untouched (emits_updateProjects hp)

variable (hs : Setting before environment)
include hs

theorem leaves_insertProject {row : Database.Project} :
    Leaves aead before environment (Projects.insertRow draws row) := by
  intro db h
  rw [Projects.insertRow, ensures_execute]
  intro result hresult
  split at hresult
  · cases hresult
  rename_i hnew
  rw [Bool.or_eq_true, not_or, Bool.not_eq_true, Bool.not_eq_true, List.any_eq_false] at hnew
  obtain ⟨project, hproject, hid⟩ := hs.project
  have hrows : (db.projectRows environment.projectId).map (·.deletedAt) =
      (before.projectRows environment.projectId).map (·.deletedAt) :=
    congrArg Contents.projectDeletedAt h.contents
  have hne : row.id ≠ environment.projectId := by
    intro heq
    have hmem : project ∈ before.projectRows environment.projectId :=
      List.mem_filter.mpr ⟨hproject, decide_eq_true hid⟩
    have hdeleted := List.mem_map_of_mem (f := (·.deletedAt)) hmem
    rw [← hrows] at hdeleted
    obtain ⟨found, hfound, -⟩ := List.mem_map.mp hdeleted
    obtain ⟨hfound, hfoundId⟩ := List.mem_filter.mp hfound
    exact hnew.1 found hfound (by simp [of_decide_eq_true hfoundId, heq])
  rw [applyAll_cons, applyAll_insertEnvironment]
  have hprojects : Untouched aead before environment (apply (.insertProject row) db) := by
    refine ⟨Eq.trans ?_ h.contents, h.memberships, h.overrides, h.owned, h.values⟩
    have hfilter : (db.projects ++ [row]).filter (·.id = environment.projectId) =
        db.projects.filter (·.id = environment.projectId) := by
      rw [List.filter_append, List.filter_cons_of_neg (by simpa using hne), List.filter_nil,
        List.append_nil]
    simp only [contentsOf, Db.projectRows, apply, hfilter]
    rfl
  exact untouched_insertEnvironments hprojects fun other hother heq =>
    (Projects.not_conflicts hnew.2).1 other hother _ (h.mem_environment hs) heq.symm

theorem leaves_createProject {input : Projects.CreateInput} :
    Leaves aead before environment (Projects.create platform draws userId input) := by
  refine Preserves.bind (leaves_of_readOnly (readOnly_authorizeUser _ _ _ _)) fun _ =>
    Preserves.bind (leaves_attempt _ _) fun defaults => Preserves.mapError (Preserves.bind
      (leaves_attempt _ _) fun name => Preserves.bind (leaves_attempt _ _) fun slug =>
        Preserves.bind (leaves_attempt _ _) fun description => Preserves.bind (leaves_attempt _ _)
          fun name => Preserves.bind (leaves_attempt _ _) fun description => ?_) _
  exact Preserves.bind (leaves_insertProject hs) fun _ => Preserves.bind leaves_replaceProjectTags
    fun _ => Preserves.bind leaves_getProject fun _ => Preserves.bind leaves_record fun _ =>
      preserves_ok _

omit hs in
theorem leaves_updateProject {projectId : Uuid} {input : Projects.UpdateInput} :
    Leaves aead before environment (Projects.update platform draws userId projectId input) := by
  refine Preserves.bind leaves_getProject fun found => Preserves.bind
    (leaves_of_readOnly (readOnly_authorizeUser _ _ _ _)) fun _ => Preserves.bind
      (leaves_of_readOnly (readOnly_checkedOr _ _ _ _)) fun name => Preserves.bind
        (leaves_of_readOnly (readOnly_checkedOr _ _ _ _)) fun slug => Preserves.bind
          (leaves_of_readOnly (readOnly_checkedOr _ _ _ _)) fun description => Preserves.bind
            (leaves_of_readOnly (readOnly_checkedOr _ _ _ _)) fun defaults =>
              Preserves.mapError (Preserves.bind (leaves_attempt _ _) fun name => Preserves.bind
                (leaves_attempt _ _) fun description => ?_) _
  refine Preserves.bind (Emits.untouched (emits_execute fun _ => emits_map fun _ _ _ => rfl))
    fun _ => Preserves.bind (Preserves.ite leaves_replaceProjectTags (preserves_ok _)) fun _ => ?_
  exact Preserves.bind leaves_getProject fun _ => Preserves.bind leaves_record fun _ =>
    preserves_ok _

omit hs in
theorem leaves_setArchived {projectId : Uuid} {archived : Bool} :
    Leaves aead before environment
      (Projects.setArchived platform draws userId projectId archived) :=
  Preserves.bind leaves_getProject fun _ => Preserves.bind
    (leaves_of_readOnly (readOnly_authorizeUser _ _ _ _)) fun _ => Preserves.bind
      (leaves_updateProjects fun _ _ _ => rfl) fun _ => Preserves.bind leaves_getProject fun _ =>
        Preserves.bind leaves_record fun _ => preserves_ok _

/-- The rows of another project. -/
theorem leaves_cascade {projectId : Uuid} (hne : projectId ≠ environment.projectId)
    {p : Database.Environment → Bool} {q : Secret → Bool} {set : EnvironmentSet}
    {setSecrets : SecretSet} {f : TransactionM wrapper α}
    (hp : ∀ row, p row = true → row.projectId = projectId)
    (hq : ∀ row, q row = true → row.projectId = projectId)
    (hf : Leaves aead before environment f) :
    Leaves aead before environment (updateEnvironments p set >>= fun _ =>
      updateSecrets q setSecrets >>= fun _ => f) := by
  refine Preserves.bind (leaves_updateEnvironments fun db h row hrow hmatch hid => ?_) fun _ =>
    Preserves.bind (leaves_updateSecrets fun db h row hrow hmatch hid => ?_) fun _ => hf
  · rw [h.row_eq hs hrow hid] at hmatch
    exact hne (hp environment hmatch).symm
  · exact hne ((hq row hmatch).symm.trans (h.project hs hrow hid))

variable (hrole : RoleBelowAdmin before userId (some environment.projectId) = true)
include hrole

omit hs in
/-- **A deletion or restoration of the project is refused.** -/
theorem leaves_project_or_denied {projectId : Uuid} {f : TransactionM wrapper α}
    (hf : projectId ≠ environment.projectId → Leaves aead before environment f) :
    Leaves aead before environment
      (authorizeUser userId (some projectId) false .projectDelete >>= fun _ => f) := by
  intro db h
  rw [ensures_bind]
  by_cases hid : projectId = environment.projectId
  · rw [hid]
    exact ensures_denied h hrole (needsAdmin_projectDelete false)
  · exact (readOnly_authorizeUser _ _ _ _).ensures_of fun _ => hf hid db h

theorem leaves_deleteProject {options : RecoveryOptions} {projectId : Uuid} :
    Leaves aead before environment
      (Projects.delete platform options draws userId projectId) := by
  refine Preserves.bind leaves_getProject fun _ => leaves_project_or_denied hrole fun hne =>
    Preserves.bind (leaves_attempt _ _) fun deletedAt => Preserves.bind (leaves_attempt _ _)
      fun purgeAt => Preserves.bind (leaves_updateProjects fun row hmatch hid => ?_) fun _ =>
        leaves_cascade hs hne (fun row hmatch => ?_) (fun row hmatch => ?_)
          (Preserves.bind leaves_getProject fun _ => Preserves.bind leaves_record fun _ =>
            preserves_ok _)
  · simp only [Bool.and_eq_true, decide_eq_true_eq] at hmatch
    exact absurd (hmatch.1.symm.trans hid) hne
  · simp only [Bool.and_eq_true, decide_eq_true_eq] at hmatch
    exact hmatch.1
  · simp only [Bool.and_eq_true, decide_eq_true_eq] at hmatch
    exact hmatch.1

theorem leaves_restoreProject {projectId : Uuid} :
    Leaves aead before environment (Projects.restore platform draws userId projectId) := by
  refine Preserves.bind leaves_getProject fun found => leaves_project_or_denied hrole fun hne => ?_
  split
  · refine Preserves.ite (preserves_fail _) (Preserves.bind
      (leaves_updateProjects fun row hmatch hid => ?_) fun _ => Preserves.bind (leaves_attempt _ _)
        fun deletedAt => leaves_cascade hs hne (fun row hmatch => ?_) (fun row hmatch => ?_)
          (Preserves.bind leaves_getProject fun _ => Preserves.bind leaves_record fun _ =>
            preserves_ok _))
    · exact absurd ((of_decide_eq_true hmatch).symm.trans hid) hne
    · simp only [Bool.and_eq_true, decide_eq_true_eq] at hmatch
      exact hmatch.1
    · simp only [Bool.and_eq_true, decide_eq_true_eq] at hmatch
      exact hmatch.1
  · exact preserves_fail _

/-- **A project call of a user below admin leaves the environment.** -/
theorem leaves_projectCall {config : Config} {call : ProjectCall} :
    Leaves aead before environment
      (call.program config userId draws : TransactionM wrapper Answer) := by
  cases call with
  | create => exact Preserves.bind (leaves_createProject hs) fun _ => preserves_ok _
  | getBySlug =>
    exact Preserves.bind (leaves_of_readOnly (readOnly_getBySlug _ _ _ _)) fun _ => preserves_ok _
  | getById => exact Preserves.bind leaves_getProject fun _ => preserves_ok _
  | list =>
    exact Preserves.bind (leaves_of_readOnly (readOnly_listProjects _ _)) fun _ => preserves_ok _
  | update => exact Preserves.bind leaves_updateProject fun _ => preserves_ok _
  | setArchived => exact Preserves.bind leaves_setArchived fun _ => preserves_ok _
  | delete => exact Preserves.bind (leaves_deleteProject hs hrole) fun _ => preserves_ok _
  | restore => exact Preserves.bind (leaves_restoreProject hs hrole) fun _ => preserves_ok _

end

/-! ## Sequences of requests -/

/-- A call of the services, or a request to a tag route. -/
inductive Request where
  | call (call : Call)
  | tag (userId : Uuid) (call : TagCall)

def afterRequest (config : Config) (db : Db wrapper) : Request → Db wrapper
  | .call call => (respond config db call).2
  | .tag userId call => (call.respond db userId).2

def afterRequests (config : Config) (db : Db wrapper) (requests : List Request) : Db wrapper :=
  requests.foldl (afterRequest config) db

/-- The effective role that a request is decided by is below admin; tags belong to no project. -/
def Request.BelowAdmin (db : Db wrapper) (projectId : Uuid) : Request → Bool
  | .call made => RoleBelowAdmin db made.userId (some projectId)
  | .tag userId _ => RoleBelowAdmin db userId none

/-- Each request of a sequence is below admin when it is made. -/
def EachBelowAdmin (config : Config) (projectId : Uuid) : Db wrapper → List Request → Prop
  | _, [] => True
  | db, request :: requests => request.BelowAdmin db projectId = true ∧
      EachBelowAdmin config projectId (afterRequest config db request) requests

theorem leaves_program (hs : Setting before environment) {call : Call}
    (hrole : RoleBelowAdmin before call.userId (some environment.projectId) = true)
    (config : Config) :
    Leaves aead before environment (program config call : TransactionM wrapper Answer) := by
  unfold program
  cases call.action with
  | project action => exact leaves_projectCall hs hrole
  | environment action => exact leaves_environmentCall hs hrole
  | secret action => exact leaves_secretCall hs hrole

/-- **The tag routes refuse a user below admin.** -/
theorem authorizeTags_denied {userId : Uuid} (hrole : RoleBelowAdmin db userId none = true) :
    ∃ error, authorizeTags db userId = .error error := by
  have hdenied : Ensures apply (authorizeUser userId none false .orgSettingsUpdate) db
      fun _ _ => False := by
    unfold authorizeUser resolve
    rw [ensures_bind, ensures_bind, ensures_select]
    cases hfind : db.memberships.find? fun m => m.userId = userId && m.active with
    | none => exact ensures_fail
    | some membership =>
      dsimp only
      rw [Prog.pure_eq, ensures_done_ok, ensures_attempt]
      intro _ hok
      simp only [RoleBelowAdmin, effectiveRoleOf, hfind, Option.map_some, Option.all_some,
        Option.bind_none, effectiveRole, decide_eq_true_eq] at hrole
      rw [requirePermission_ok_iff, authorize_allowed_iff] at hok
      obtain ⟨hmatrix, -⟩ := hok
      revert hrole hmatrix
      cases membership.role <;> decide
  unfold authorizeTags
  cases hresult : (transact apply (authorizeUser userId none false .orgSettingsUpdate) db).1 with
  | error error => exact ⟨_, rfl⟩
  | ok value => exact (transact_of_ensures hdenied hresult).elim

theorem untouched_request (hs : Setting before environment) (config : Config) {request : Request}
    (h : Untouched aead before environment db)
    (hrole : request.BelowAdmin db environment.projectId = true) :
    Untouched aead before environment (afterRequest config db request) := by
  cases request with
  | call call =>
    have hbefore : RoleBelowAdmin before call.userId (some environment.projectId) = true := by
      have hsame := hrole
      simp only [Request.BelowAdmin, RoleBelowAdmin, effectiveRoleOf, h.memberships,
        h.overrides] at hsame
      exact hsame
    show Untouched aead before environment (respond config db call).2
    cases hresult : (respond config db call).1 with
    | error error => rwa [respond_of_error hresult]
    | ok answer => exact transact_of_ensures (leaves_program hs hbefore config db h) hresult
  | tag userId call =>
    obtain ⟨error, herror⟩ := authorizeTags_denied hrole
    show Untouched aead before environment (call.respond db userId).2
    unfold TagCall.respond
    rw [herror]
    exact h

theorem untouched_requests (hs : Setting before environment) (config : Config)
    {requests : List Request} (h : Untouched aead before environment db)
    (hbelow : EachBelowAdmin config environment.projectId db requests) :
    Untouched aead before environment (afterRequests config db requests) := by
  induction requests generalizing db with
  | nil => exact h
  | cons request requests ih => exact ih (untouched_request hs config h hbelow.1) hbelow.2

/-- **Requests of users below admin leave every protected environment as it is**: its row, the
deletion of its project, its secrets, their versions and tags, and every value that can be read. -/
theorem protected_unchanged {config : Config} {db : Db wrapper} (hempty : Db.IsEmpty db)
    (events : List (Event wrapper)) (requests : List Request) :
    let reached := afterAll config db events
    ∀ environment ∈ reached.environments, environment.isProtected = true →
      EachBelowAdmin config environment.projectId reached requests →
        contentsOf (afterRequests config reached requests) environment =
            contentsOf reached environment ∧
          KeepsValues config.platform.aead reached.keys
            (afterRequests config reached requests).keys := by
  intro reached environment hmem hprotected hbelow
  have hsound : Sound (marks (afterAll config db events)) :=
    sound_afterAll (sound_of_isEmpty hempty) events
  have hs := setting_of_sound hsound.wellFormed hsound.consistent hmem hprotected
  have hself : Untouched config.platform.aead reached environment reached :=
    Untouched.self reached environment (nodup_of_consistent hsound.consistent).2.2
  have hafter := untouched_requests hs config hself hbelow
  exact ⟨hafter.contents, hafter.values⟩

/-- An organization with a project and a member. -/
def withMember : List (Event exampleWrapper) :=
  [.call (createApp 1), .others
    { keys := .empty
      memberships := [⟨exampleUser, .owner, true⟩, ⟨⟨2⟩, .member, true⟩]
      projectRoleOverrides := []
      tags := []
      secretTags := []
      projectTags := [] }]

/-- The member writes a secret, tries to delete the protected environment, and to create a tag. -/
def memberRequests : List Request :=
  [.call ⟨⟨2⟩, drawsAt 2, .secret (.create ⟨100⟩ ⟨101⟩
      ⟨ofAscii "TOKEN", ofAscii "value", none, none, false, none⟩)⟩,
    .call ⟨⟨2⟩, drawsAt 3, .environment (.delete ⟨103⟩ true)⟩,
    .tag ⟨2⟩ (.create ⟨400⟩ (ofAscii "team") (ofAscii "#ffffff"))]

theorem protected_unchanged_member :
    let reached := afterAll exampleConfig newOrganization withMember
    ∀ environment ∈ reached.environments, environment.isProtected = true →
      contentsOf (afterRequests exampleConfig reached memberRequests) environment =
          contentsOf reached environment ∧
        KeepsValues plainAead reached.keys
          (afterRequests exampleConfig reached memberRequests).keys := by
  intro reached environment hmem hprotected
  refine protected_unchanged ⟨rfl, rfl, rfl⟩ withMember memberRequests environment hmem hprotected ?_
  have hproject : environment.projectId = ⟨100⟩ := by
    have hall : ∀ row ∈ reached.environments, row.projectId = ⟨100⟩ := by decide +kernel
    exact hall environment hmem
  rw [hproject]
  exact ⟨by decide +kernel, by decide +kernel, by decide +kernel, trivial⟩

end Himitsu.Protection
