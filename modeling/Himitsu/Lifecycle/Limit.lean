import Himitsu.Lifecycle.History

/-!
# The limit of environments

`create` refuses an environment beyond `MAX_ENVIRONMENTS`, and the route of `reorder` relies on it;
`restore` does not look at the number.

* `Marks.occupied` — the environments of a project that are active, or were when the project was
  deleted. A deletion or restoration of the project leaves the number as it is.
* `KeepsLimit` — an event restores no environment into a project that is full.
* `withinLimit_iff` — the limit holds throughout a run exactly when every event keeps it.
-/

set_option autoImplicit false

namespace Himitsu.Api

open Database

/-- The bounds of `environmentIds` in the body of `reorderEnvironments`. -/
def acceptsOrder (environmentIds : List Uuid) : Bool :=
  1 ≤ environmentIds.length && environmentIds.length ≤ 50

end Himitsu.Api

namespace Himitsu.Lifecycle

open JsString Crypto Database Services Transactions SoftDelete Environments

variable {wrapper : KeyWrapper} {config : Config} {db : Db wrapper} {m m' : Marks}

/-! ## Counting -/

/-- An update of one row changes a count by that row. -/
theorem countP_updateWhere_one {α : Type} {key : α → Uuid} {rows : List α}
    (hnodup : (rows.map key).Nodup) {row : α} (hrow : row ∈ rows) {p q : α → Bool} {f : α → α}
    (hp : p row = true) (hkey : ∀ other, p other = true → key other = key row) :
    (updateWhere p f rows).countP q + (if q row then 1 else 0) =
      rows.countP q + (if q (f row) then 1 else 0) := by
  obtain ⟨before, after, rfl⟩ := List.append_of_mem hrow
  have hsame : ∀ part : List α, (∀ other ∈ part, key other ≠ key row) →
      updateWhere p f part = part := by
    intro part hpart
    conv_rhs => rw [← List.map_id part]
    refine List.map_congr_left fun other hother => if_neg fun hother' => ?_
    exact hpart other hother (hkey other hother')
  rw [List.map_append, List.map_cons, List.nodup_append] at hnodup
  obtain ⟨-, hafter, hdisjoint⟩ := hnodup
  have hbefore : updateWhere p f before = before := hsame before fun other hother =>
    hdisjoint _ (List.mem_map_of_mem hother) _ (List.mem_cons_self ..)
  have hrest : updateWhere p f after = after := hsame after fun other hother heq =>
    (List.nodup_cons.mp hafter).1 (heq ▸ List.mem_map_of_mem hother)
  have hsplit : updateWhere p f (before ++ row :: after) = before ++ f row :: after := by
    rw [updateWhere, List.map_append, List.map_cons, if_pos hp]
    exact congrArg₂ (fun xs ys => xs ++ f row :: ys) hbefore hrest
  rw [hsplit, List.countP_append, List.countP_append, List.countP_cons, List.countP_cons]
  omega

/-- An update that does not change what is counted. -/
theorem countP_updateWhere_same {α : Type} {p q : α → Bool} {f : α → α}
    (hq : ∀ row, p row = true → q (f row) = q row) (rows : List α) :
    (updateWhere p f rows).countP q = rows.countP q := by
  rw [updateWhere, List.countP_map]
  refine List.countP_congr fun row _ => ?_
  simp only [Function.comp]
  split
  · rw [hq row ‹_›]
  · rfl

/-! ## Occupied places -/

def EnvironmentMark.occupies (projectId : Uuid) (row : EnvironmentMark) : Bool :=
  row.projectId = projectId && (row.deletedAt.isNone || row.deletedByProjectAt.isSome)

/-- The environments of a project that a restoration of the project would leave active. -/
def Marks.occupied (m : Marks) (projectId : Uuid) : Nat :=
  m.environments.countP (·.occupies projectId)

theorem occupied_deleteProject (m : Marks) (id : Uuid) (time : Timestamp) (projectId : Uuid) :
    (m.deleteProject id time).occupied projectId = m.occupied projectId := by
  refine countP_updateWhere_same (fun row hrow => ?_) _
  simp only [Bool.and_eq_true, Option.isNone_iff_eq_none] at hrow
  simp [EnvironmentMark.occupies, hrow.2]

theorem occupied_restoreProject (m : Marks) (id : Uuid) (time : Timestamp) (projectId : Uuid) :
    (m.restoreProject id time).occupied projectId = m.occupied projectId := by
  refine countP_updateWhere_same (fun row hrow => ?_) _
  simp only [Bool.and_eq_true, decide_eq_true_eq] at hrow
  simp [EnvironmentMark.occupies, hrow.2]

theorem occupied_deleteEnvironment (h : Consistent m) {id owner : Uuid} {time : Timestamp}
    (hrow : ⟨id, owner, none, none⟩ ∈ m.environments) (projectId : Uuid) :
    (m.deleteEnvironment id time).occupied projectId + (if owner = projectId then 1 else 0) =
      m.occupied projectId := by
  have hcount := countP_updateWhere_one (q := (·.occupies projectId))
    (p := fun row => row.id = id && row.deletedAt.isNone)
    (f := fun row => { row with deletedAt := some time }) h.environmentIds hrow (by simp)
    (fun other hother => by simp only [Bool.and_eq_true, decide_eq_true_eq] at hother; exact hother.1)
  simpa [Marks.occupied, Marks.deleteEnvironment, EnvironmentMark.occupies] using hcount

theorem occupied_restoreEnvironment (h : Consistent m) {id owner : Uuid} {time : Timestamp}
    (hrow : ⟨id, owner, some time, none⟩ ∈ m.environments) (projectId : Uuid) :
    (m.restoreEnvironment id time).occupied projectId =
      m.occupied projectId + (if owner = projectId then 1 else 0) := by
  have hcount := countP_updateWhere_one (q := (·.occupies projectId))
    (p := fun row => row.id = id && row.deletedAt = some time && row.deletedByProjectAt.isNone)
    (f := fun row => { row with deletedAt := none }) h.environmentIds hrow (by simp)
    (fun other hother => by simp only [Bool.and_eq_true, decide_eq_true_eq] at hother; exact hother.1.1)
  simpa [Marks.occupied, Marks.restoreEnvironment, EnvironmentMark.occupies] using hcount

theorem occupied_append (m : Marks) (id owner projectId : Uuid) :
    Marks.occupied { m with environments := m.environments ++ [⟨id, owner, none, none⟩] }
      projectId = m.occupied projectId + (if owner = projectId then 1 else 0) := by
  simp [Marks.occupied, EnvironmentMark.occupies, List.countP_append, List.countP_cons]

theorem occupied_withProject (m : Marks) (id : Uuid) (environmentIds : List Uuid)
    (projectId : Uuid) : (withProject m id environmentIds).occupied projectId =
      m.occupied projectId + (if id = projectId then environmentIds.length else 0) := by
  simp only [Marks.occupied, withProject, List.countP_append, List.countP_map]
  by_cases hid : id = projectId <;> simp [Function.comp_def, EnvironmentMark.occupies, hid]

/-- In an active project, the occupied places are the active environments. -/
theorem activeRows_length (h : Consistent (marks db)) {projectId : Uuid}
    (hproject : ⟨projectId, none⟩ ∈ (marks db).projects) :
    (activeRows db projectId).length = (marks db).occupied projectId := by
  rw [activeRows, ← List.countP_eq_length_filter]
  show _ = (db.environments.map environmentMark).countP _
  rw [List.countP_map]
  refine List.countP_congr fun row hrow => ?_
  by_cases hid : row.projectId = projectId
  · cases hby : row.deletedByProjectAt with
    | none => simp [isActiveIn, EnvironmentMark.occupies, environmentMark, hby]
    | some t =>
      obtain ⟨-, hmem⟩ := h.environmentByProject _ (mem_environments hrow) t hby
      have heq := h.project_unique hmem hproject hid
      cases congrArg ProjectMark.deletedAt heq
  · simp [isActiveIn, EnvironmentMark.occupies, environmentMark, hid]

/-! ## Bounds -/

/-- Every project, deleted or not, has places for its environments. -/
def Bounded (m : Marks) : Prop :=
  ∀ id ∈ m.projects.map (·.id), 1 ≤ m.occupied id ∧ m.occupied id ≤ MAX_ENVIRONMENTS

theorem Bounded.of_eq (h : Bounded m) (hids : m'.projects.map (·.id) = m.projects.map (·.id))
    (hoccupied : ∀ id, m'.occupied id = m.occupied id) : Bounded m' := by
  intro id hid
  rw [hoccupied]
  exact h id (hids ▸ hid)

theorem Sound.project_exists (h : Sound m) {row : EnvironmentMark} (hrow : row ∈ m.environments) :
    row.projectId ∈ m.projects.map (·.id) := by
  obtain ⟨hstatus, hanc⟩ := h.consistent.status_environment hrow
  have hparent := (h.wellFormed.closed _ (ne_none_of_eq hstatus) (.project row.projectId)
    (by rw [hanc]; exact List.mem_singleton_self _)).1
  obtain ⟨status, hparent⟩ := Option.ne_none_iff_exists'.mp hparent
  obtain ⟨project, hfind, -⟩ := Option.map_eq_some_iff.mp hparent
  obtain ⟨hmem, hid⟩ := mem_of_find hfind
  exact List.mem_map.mpr ⟨project, hmem, hid⟩

theorem Bounded.withProject (hb : Bounded m) (h : Sound m) {id : Uuid} {environmentIds : List Uuid}
    (hfresh : id ∉ m.projects.map (·.id)) (hlow : 1 ≤ environmentIds.length)
    (hhigh : environmentIds.length ≤ 20) : Bounded (withProject m id environmentIds) := by
  have hempty : m.occupied id = 0 := List.countP_eq_zero.mpr fun row hrow => by
    have hne : row.projectId ≠ id := fun heq => hfresh (heq ▸ h.project_exists hrow)
    simp [EnvironmentMark.occupies, hne]
  intro projectId hmem
  rw [occupied_withProject]
  by_cases hid : id = projectId
  · rw [if_pos hid, ← hid, hempty, MAX_ENVIRONMENTS]
    omega
  · rw [if_neg hid]
    refine hb projectId ?_
    simpa [Lifecycle.withProject, Ne.symm hid] using hmem

theorem Bounded.deleteProject (hb : Bounded m) {id : Uuid}
    (hchange : Change (.delete (.project id)) m m') : Bounded m' := by
  cases hchange with
  | deleteProject _ _ time htime hproject =>
    refine hb.of_eq ?_ (occupied_deleteProject _ _ _)
    refine map_updateWhere (fun row => ?_) _
    rfl

theorem Bounded.restoreProject (hb : Bounded m) {id : Uuid}
    (hchange : Change (.restore (.project id)) m m') : Bounded m' := by
  cases hchange with
  | restoreProject _ _ time hproject =>
    refine hb.of_eq ?_ (occupied_restoreProject _ _ _)
    refine map_updateWhere (fun row => ?_) _
    rfl

theorem project_of_insertion {id owner : Uuid}
    (hchange : Change (.insert (.environment id) [.project owner]) m m') :
    ⟨owner, none⟩ ∈ m.projects := by
  cases hchange with
  | createEnvironment _ _ _ hfresh hproject => exact hproject

theorem Bounded.createEnvironment (hb : Bounded m) {id owner : Uuid}
    (hchange : Change (.insert (.environment id) [.project owner]) m m')
    (hroom : m.occupied owner < MAX_ENVIRONMENTS) : Bounded m' := by
  cases hchange with
  | createEnvironment _ _ _ hfresh hproject =>
    intro projectId hmem
    rw [occupied_append]
    have hold := hb projectId hmem
    by_cases hid : owner = projectId
    · rw [if_pos hid, ← hid]
      omega
    · rw [if_neg hid]
      exact hold

theorem Bounded.deleteEnvironment (hb : Bounded m) (h : Consistent m) {id : Uuid}
    (hchange : Change (.delete (.environment id)) m m')
    (hmore : ∀ row ∈ m.environments, row.id = id → 1 < m.occupied row.projectId) : Bounded m' := by
  cases hchange with
  | deleteEnvironment _ _ owner time htime hrow =>
    intro projectId hmem
    have hcount : (m.deleteEnvironment id time).occupied projectId + _ = _ :=
      occupied_deleteEnvironment h hrow projectId
    have hold := hb projectId hmem
    have hlast : 1 < m.occupied owner := hmore _ hrow rfl
    by_cases hid : owner = projectId
    · rw [if_pos hid] at hcount
      rw [hid] at hlast
      omega
    · rw [if_neg hid] at hcount
      omega

theorem occupied_of_restoration (h : Consistent m) {id : Uuid}
    (hchange : Change (.restore (.environment id)) m m') {row : EnvironmentMark}
    (hrow : row ∈ m.environments) (hid : row.id = id) (projectId : Uuid) :
    m'.projects = m.projects ∧ ⟨row.projectId, none⟩ ∈ m.projects ∧ m'.occupied projectId =
      m.occupied projectId + (if row.projectId = projectId then 1 else 0) := by
  cases hchange with
  | restoreEnvironment _ _ owner time hmem hproject =>
    rw [h.environment_unique hrow hmem hid]
    exact ⟨rfl, hproject, occupied_restoreEnvironment h hmem projectId⟩

theorem onSecrets_frame (h : Changes OnSecrets m m') :
    m'.projects = m.projects ∧ m'.environments = m.environments := by
  induction h with
  | refl => exact ⟨rfl, rfl⟩
  | tail _ hstep ih =>
    obtain ⟨a, ha, hchange⟩ := hstep
    cases hchange with
    | createSecret | deleteSecret | recoverSecret => exact ih
    | createProject | createEnvironment | deleteProject | restoreProject | deleteEnvironment |
      restoreEnvironment => exact ha.elim

/-! ## Calls -/

/-- The event restores no environment into a project that is full. -/
def KeepsLimit (config : Config) (db : Db wrapper) : Event wrapper → Prop
  | .call call =>
    match call.action with
    | .environment (.restore environmentId) => commits config db call = true →
        ∀ row ∈ db.environments, row.id = environmentId →
          (activeRows db row.projectId).length < MAX_ENVIRONMENTS
    | _ => True
  | .others _ => True

theorem Quiet.ensures_marks {α : Type} {p : TransactionM wrapper α} (hp : Quiet p)
    {P : Marks → Prop} (hP : P (marks db)) : Ensures apply p db fun _ db' => P (marks db') :=
  hp.ensures fun _ _ hmarks => hmarks ▸ hP

theorem bounded_projectCall (h : Sound (marks db)) (hb : Bounded (marks db)) {userId : Uuid}
    {draws : Draws} {call : ProjectCall} :
    Ensures apply (call.program config userId draws) db fun _ db' => Bounded (marks db') := by
  cases call with
  | create input =>
    refine ensures_answering (Projects.create_spec.mono fun _ db' hspec => ?_)
    obtain ⟨⟨ids, hlow, hhigh, hmarks⟩, hchanges⟩ := hspec
    have hnodup := (hchanges.refines h).2.consistent.projectIds
    rw [hmarks] at hnodup ⊢
    refine hb.withProject h (fun hmem => ?_) hlow hhigh
    rw [Lifecycle.withProject, List.map_append, List.nodup_append] at hnodup
    exact hnodup.2.2 _ hmem _ (List.mem_cons_self ..) rfl
  | getBySlug => exact ensures_answering ((readOnly_getBySlug _ _ _ _).quiet.ensures_marks hb)
  | getById => exact ensures_answering ((readOnly_getProject _ _ _).quiet.ensures_marks hb)
  | list => exact ensures_answering ((readOnly_listProjects _ _).quiet.ensures_marks hb)
  | update => exact ensures_answering (quiet_updateProject.ensures_marks hb)
  | setArchived => exact ensures_answering (quiet_setArchived.ensures_marks hb)
  | delete projectId =>
    exact ensures_answering ((Projects.delete_spec h.consistent).mono fun _ _ => hb.deleteProject)
  | restore projectId =>
    exact ensures_answering ((Projects.restore_spec h.consistent).mono fun _ _ => hb.restoreProject)

theorem bounded_environmentCall (h : Sound (marks db)) (hb : Bounded (marks db)) {userId : Uuid}
    {draws : Draws} {call : EnvironmentCall} (hrestore : ∀ id, call = .restore id →
      ∀ row ∈ db.environments, row.id = id →
        (activeRows db row.projectId).length < MAX_ENVIRONMENTS) :
    Ensures apply (call.program config userId draws) db fun _ db' => Bounded (marks db') := by
  cases call with
  | list => exact ensures_answering ((readOnly_listEnvironments _ _).quiet.ensures_marks hb)
  | get => exact ensures_answering ((readOnly_getEnvironment _ _ _).quiet.ensures_marks hb)
  | create projectId input =>
    refine ensures_answering (create_spec.mono fun _ db' hspec => ?_)
    rw [activeRows_length h.consistent (project_of_insertion hspec.2)] at hspec
    exact hb.createEnvironment hspec.2 hspec.1
  | update => exact ensures_answering (quiet_update.ensures_marks hb)
  | reorder => exact ensures_answering (quiet_reorder.ensures_marks hb)
  | delete environmentId confirmSecrets =>
    refine ensures_answering ((delete_spec h.consistent).mono fun _ db' hspec => ?_)
    obtain ⟨row, hrow, rfl, hactive, hmore, hchange⟩ := hspec
    have hmark := mem_environments hrow
    have hproject : ⟨row.projectId, none⟩ ∈ (marks db).projects :=
      h.project_of_environment hmark hactive
    rw [activeRows_length h.consistent hproject] at hmore
    refine hb.deleteEnvironment h.consistent hchange fun other hother hid => ?_
    rw [h.consistent.environment_unique hother hmark hid]
    exact hmore
  | restore environmentId =>
    refine ensures_answering ((restore_spec h.consistent).mono fun _ db' hspec => ?_)
    obtain ⟨row, hrow, rfl, -, -, hproject, hchange⟩ := hspec
    have hroom := hrestore _ rfl row hrow rfl
    rw [activeRows_length h.consistent hproject] at hroom
    intro projectId hmem
    obtain ⟨hprojects, -, hcount⟩ := occupied_of_restoration h.consistent hchange
      (mem_environments hrow) rfl projectId
    rw [hprojects] at hmem
    have hold := hb projectId hmem
    rw [hcount]
    by_cases hid : row.projectId = projectId
    · rw [hid] at hroom
      rw [if_pos (by exact hid)]
      omega
    · rw [if_neg (by exact hid)]
      exact hold

/-- An event that keeps the limit keeps the bounds. -/
theorem bounded_after (h : Sound (marks db)) (hb : Bounded (marks db)) {event : Event wrapper}
    (hkeeps : KeepsLimit config db event) : Bounded (marks (after config db event)) := by
  cases event with
  | others tables => exact hb
  | call call =>
    show Bounded (marks (respond config db call).2)
    by_cases hcommits : commits config db call = true
    · obtain ⟨answer, hok⟩ := commits_iff.mp hcommits
      refine transact_of_ensures (Q := fun _ db' => Bounded (marks db')) ?_ hok
      unfold program
      unfold KeepsLimit at hkeeps
      split
      · exact bounded_projectCall h hb
      · rename_i action haction
        refine bounded_environmentCall h hb fun id hid => ?_
        subst hid
        simp only [haction] at hkeeps
        exact hkeeps hcommits
      · refine (secretCall_performs db h).mono fun _ db' hchanges => ?_
        obtain ⟨hprojects, henvironments⟩ := onSecrets_frame hchanges
        exact hb.of_eq (by rw [hprojects]) fun id => by rw [Marks.occupied, henvironments]; rfl
    · obtain ⟨error, herror⟩ := not_commits_iff.mp (Bool.eq_false_iff.mpr hcommits)
      rw [respond_of_error herror]
      exact hb

/-! ## Runs -/

/-- No active project has more environments than `create` allows, and the route of `reorder` accepts
every order of all of them. -/
def WithinLimit (db : Db wrapper) : Prop :=
  ∀ project ∈ db.projects, project.deletedAt = none →
    (activeRows db project.id).length ≤ MAX_ENVIRONMENTS ∧
      ∀ order : List Uuid, order.Perm ((activeRows db project.id).map (·.id)) →
        Api.acceptsOrder order = true

theorem withinLimit_of_bounded (h : Consistent (marks db)) (hb : Bounded (marks db)) :
    WithinLimit db := by
  intro project hproject hactive
  have hbounds := hb project.id (List.mem_map_of_mem (mem_projects hproject))
  rw [← activeRows_length h (activeProject_mem hproject hactive)] at hbounds
  refine ⟨hbounds.2, fun order horder => ?_⟩
  have hlength := horder.length_eq
  rw [List.length_map] at hlength
  rw [MAX_ENVIRONMENTS] at hbounds
  simp only [Api.acceptsOrder, Bool.and_eq_true, decide_eq_true_eq]
  omega

/-- A restoration into a full project takes it over the limit. -/
theorem not_withinLimit_of_restoration (h : Sound (marks db)) {call : Call} {environmentId : Uuid}
    (hcall : call.action = .environment (.restore environmentId))
    (hcommits : commits config db call = true) {row : Database.Environment}
    (hrow : row ∈ db.environments) (hid : row.id = environmentId)
    (hfull : MAX_ENVIRONMENTS ≤ (activeRows db row.projectId).length) :
    ¬ WithinLimit (respond config db call).2 := by
  have hrestores : restored call.action = some (.environment environmentId) := by
    rw [hcall]
    rfl
  have hchange := restoration_change h.consistent hrestores hcommits
  obtain ⟨-, -, hsound⟩ := hchange.refines h
  obtain ⟨hprojects, hproject, hcount⟩ := occupied_of_restoration h.consistent hchange
    (mem_environments hrow) hid row.projectId
  have hproject : ⟨row.projectId, none⟩ ∈ (marks db).projects := hproject
  rw [← activeRows_length h.consistent hproject, if_pos (by rfl)] at hcount
  rw [← hprojects] at hproject
  rw [← activeRows_length hsound.consistent hproject] at hcount
  intro hwithin
  obtain ⟨project, hmem, heq⟩ := List.mem_map.mp hproject
  injection heq with hprojectId hactive
  have hbound := (hwithin project hmem hactive).1
  rw [hprojectId] at hbound
  omega

theorem withinLimit_of_guarded (h : Sound (marks db)) (hb : Bounded (marks db))
    {events : List (Event wrapper)}
    (hguarded : Runs.Guarded (step config) (KeepsLimit config) db events) (n : Nat) :
    WithinLimit (afterAll config db (events.take n)) := by
  induction events generalizing db n with
  | nil =>
    rw [List.take_nil]
    exact withinLimit_of_bounded h.consistent hb
  | cons event events ih =>
    cases n with
    | zero => exact withinLimit_of_bounded h.consistent hb
    | succ n =>
      exact ih (sound_after h event) (bounded_after h hb hguarded.1) (hguarded.2 _ rfl) n

theorem guarded_of_withinLimit (h : Sound (marks db)) {events : List (Event wrapper)}
    (hwithin : ∀ n, WithinLimit (afterAll config db (events.take n))) :
    Runs.Guarded (step config) (KeepsLimit config) db events := by
  induction events generalizing db with
  | nil => trivial
  | cons event events ih =>
    constructor
    · cases event with
      | others tables => trivial
      | call call =>
        unfold KeepsLimit
        dsimp only
        split
        · rename_i environmentId hcall
          intro hcommits row hrow hid
          by_contra hfull
          exact not_withinLimit_of_restoration h hcall hcommits hrow hid (Nat.le_of_not_lt hfull)
            (hwithin 1)
        · trivial
    · intro db' hdb'
      cases hdb'
      exact ih (sound_after h event) fun n => hwithin (n + 1)

/-- **The limit holds throughout a run exactly when no restoration goes into a full project.** -/
theorem withinLimit_iff {start : Db wrapper} (hempty : Db.IsEmpty start)
    (events : List (Event wrapper)) :
    (∀ n, WithinLimit (afterAll config start (events.take n))) ↔
      Runs.Guarded (step config) (KeepsLimit config) start events := by
  have hsound := sound_of_isEmpty hempty
  refine ⟨guarded_of_withinLimit hsound, withinLimit_of_guarded hsound fun id hid => ?_⟩
  rw [marks, hempty.1] at hid
  cases hid

/-! ## A full project -/

def createNumbered (time : Nat) : Call :=
  callAt time (.environment (.create ⟨100⟩
    ⟨ofAscii "Numbered", ofAscii "numbered-" ++ ofNat time, none⟩))

/-- Three environments of a new project and 47 more; one is deleted, another one takes its place,
and the first is restored. -/
def overfull : List (Event exampleWrapper) :=
  [.call (createApp 1)] ++ (List.range 47).map (fun n => .call (createNumbered (n + 2))) ++
    [.call (callAt 50 (.environment (.delete ⟨101⟩ false))), .call (createNumbered 51),
      .call (callAt 52 (.environment (.restore ⟨101⟩)))]

theorem overfull_not_withinLimit :
    ¬ WithinLimit (afterAll exampleConfig newOrganization overfull) := by
  have hover : ∃ project ∈ (afterAll exampleConfig newOrganization overfull).projects,
      project.deletedAt = none ∧ (activeRows (afterAll exampleConfig newOrganization overfull)
        project.id).length = 51 := by decide +kernel
  intro hwithin
  obtain ⟨project, hmem, hactive, hlength⟩ := hover
  have hbound := (hwithin project hmem hactive).1
  rw [hlength] at hbound
  exact absurd hbound (by decide)

/-- A restoration into a project with room. -/
def deletedAndBack : List (Event exampleWrapper) :=
  [.call (createApp 1), .call (callAt 2 (.environment (.delete ⟨101⟩ false))),
    .call (callAt 3 (.environment (.restore ⟨101⟩)))]

theorem withinLimit_iff_app :
    environmentActive (afterAll exampleConfig newOrganization (deletedAndBack.take 2)) ⟨101⟩ =
        some false ∧
      environmentActive (afterAll exampleConfig newOrganization deletedAndBack) ⟨101⟩ = some true ∧
      ((∀ n, WithinLimit (afterAll exampleConfig newOrganization (deletedAndBack.take n))) ↔
        Runs.Guarded (step exampleConfig) (KeepsLimit exampleConfig) newOrganization
          deletedAndBack) :=
  ⟨by decide +kernel, by decide +kernel, withinLimit_iff ⟨rfl, rfl, rfl⟩ _⟩

end Himitsu.Lifecycle
