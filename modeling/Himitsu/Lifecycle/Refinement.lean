import Himitsu.Lifecycle.Marks

/-!
# The deletion columns stand for soft deletion

Principal result: `Change.refines` — a change of consistent columns is an enabled action on the
tree, and leaves the columns consistent.
-/

set_option autoImplicit false

namespace Himitsu.Lifecycle

open Database Services SoftDelete

variable {m m' : Marks}

/-! ## Lookups -/

theorem Consistent.projectOf (h : Consistent m) {row : ProjectMark} (hrow : row ∈ m.projects) :
    m.projectOf row.id = some row :=
  find_of_mem h.projectIds hrow

theorem Consistent.environmentOf (h : Consistent m) {row : EnvironmentMark}
    (hrow : row ∈ m.environments) : m.environmentOf row.id = some row :=
  find_of_mem h.environmentIds hrow

theorem Consistent.secretOf (h : Consistent m) {row : SecretMark} (hrow : row ∈ m.secrets) :
    m.secretOf row.id = some row :=
  find_of_mem h.secretIds hrow

theorem Consistent.project_unique (h : Consistent m) {row row' : ProjectMark}
    (hrow : row ∈ m.projects) (hrow' : row' ∈ m.projects) (hid : row.id = row'.id) : row = row' :=
  List.inj_on_of_nodup_map h.projectIds hrow hrow' hid

theorem Consistent.environment_unique (h : Consistent m) {row row' : EnvironmentMark}
    (hrow : row ∈ m.environments) (hrow' : row' ∈ m.environments) (hid : row.id = row'.id) :
    row = row' :=
  List.inj_on_of_nodup_map h.environmentIds hrow hrow' hid

theorem Consistent.secret_unique (h : Consistent m) {row row' : SecretMark}
    (hrow : row ∈ m.secrets) (hrow' : row' ∈ m.secrets) (hid : row.id = row'.id) : row = row' :=
  List.inj_on_of_nodup_map h.secretIds hrow hrow' hid

/-- An active row carries no mark of a cascade. -/
theorem Consistent.environment_active (h : Consistent m) {row : EnvironmentMark}
    (hrow : row ∈ m.environments) (hactive : row.deletedAt = none) :
    row.deletedByProjectAt = none := by
  cases hby : row.deletedByProjectAt with
  | none => rfl
  | some t =>
    have hat := (h.environmentByProject row hrow t hby).1
    rw [hactive] at hat
    cases hat

theorem Consistent.secret_active (h : Consistent m) {row : SecretMark} (hrow : row ∈ m.secrets)
    (hactive : row.deletedAt = none) :
    row.deletedByProjectAt = none ∧ row.deletedByEnvironmentAt = none := by
  constructor
  · cases hby : row.deletedByProjectAt with
    | none => rfl
    | some t =>
      have hat := (h.secretByProject row hrow t hby).1
      rw [hactive] at hat
      cases hat
  · cases hby : row.deletedByEnvironmentAt with
    | none => rfl
    | some t =>
      have hat := (h.secretByEnvironment row hrow t hby).1
      rw [hactive] at hat
      cases hat

/-! ## The tree after an update of the rows -/

theorem find_map {α κ : Type} [DecidableEq κ] {key : α → κ} {f : α → α}
    (hkey : ∀ row, key (f row) = key row) (rows : List α) (k : κ) :
    (rows.map f).find? (key · = k) = (rows.find? (key · = k)).map f := by
  rw [List.find?_map]
  congr 2
  funext row
  simp only [Function.comp, hkey]

/-- Rows that change in their deletion columns only. -/
structure Updates (m m' : Marks) (f : ProjectMark → ProjectMark)
    (g : EnvironmentMark → EnvironmentMark) (h : SecretMark → SecretMark) : Prop where
  projects : m'.projects = m.projects.map f
  environments : m'.environments = m.environments.map g
  secrets : m'.secrets = m.secrets.map h
  project : ∀ row, (f row).id = row.id
  environment : ∀ row, (g row).id = row.id ∧ (g row).projectId = row.projectId
  secret : ∀ row, (h row).id = row.id ∧ (h row).projectId = row.projectId ∧
    (h row).environmentId = row.environmentId

section

variable {f : ProjectMark → ProjectMark} {g : EnvironmentMark → EnvironmentMark}
  {h : SecretMark → SecretMark}

theorem Updates.projectOf (hup : Updates m m' f g h) (id : Uuid) :
    m'.projectOf id = (m.projectOf id).map f := by
  rw [Marks.projectOf, hup.projects, find_map hup.project]
  rfl

theorem Updates.environmentOf (hup : Updates m m' f g h) (id : Uuid) :
    m'.environmentOf id = (m.environmentOf id).map g := by
  rw [Marks.environmentOf, hup.environments, find_map fun row => (hup.environment row).1]
  rfl

theorem Updates.secretOf (hup : Updates m m' f g h) (id : Uuid) :
    m'.secretOf id = (m.secretOf id).map h := by
  rw [Marks.secretOf, hup.secrets, find_map fun row => (hup.secret row).1]
  rfl

theorem Updates.ids (hup : Updates m m' f g h) :
    m'.projects.map (·.id) = m.projects.map (·.id) ∧
      m'.environments.map (·.id) = m.environments.map (·.id) ∧
      m'.secrets.map (·.id) = m.secrets.map (·.id) := by
  rw [hup.projects, hup.environments, hup.secrets, List.map_map, List.map_map, List.map_map]
  exact ⟨List.map_congr_left fun row _ => hup.project row,
    List.map_congr_left fun row _ => (hup.environment row).1,
    List.map_congr_left fun row _ => (hup.secret row).1⟩

/-- An update of the rows is an action on the tree if it is one on each row. -/
theorem Updates.forest_eq (hup : Updates m m' f g h) {F : Forest Id}
    (hancestors : F.ancestors = (forest m).ancestors)
    (hproject : ∀ row ∈ m.projects, (forest m).status (.project row.id) = some row.status →
      F.status (.project row.id) = some (f row).status)
    (henvironment : ∀ row ∈ m.environments,
      (forest m).status (.environment row.id) = some row.status →
      (forest m).ancestors (.environment row.id) = row.ancestors →
      F.status (.environment row.id) = some (g row).status)
    (hsecret : ∀ row ∈ m.secrets, (forest m).status (.secret row.id) = some row.status →
      (forest m).ancestors (.secret row.id) = row.ancestors →
      F.status (.secret row.id) = some (h row).status)
    (hnone : ∀ id, (forest m).status id = none → F.status id = none) : forest m' = F := by
  refine Forest.ext ?_ ?_
  · rw [hancestors]
    funext id
    cases id with
    | project id => rfl
    | environment id =>
      simp only [forest, hup.environmentOf]
      cases m.environmentOf id with
      | none => rfl
      | some row => simp [EnvironmentMark.ancestors, (hup.environment row).2]
    | secret id =>
      simp only [forest, hup.secretOf]
      cases m.secretOf id with
      | none => rfl
      | some row => simp [SecretMark.ancestors, (hup.secret row).2]
  · funext id
    cases id with
    | project id =>
      simp only [forest, hup.projectOf]
      cases hfind : m.projectOf id with
      | none => exact (hnone (.project id) (by simp [forest, hfind])).symm
      | some row =>
        obtain ⟨hmem, rfl⟩ := mem_of_find hfind
        exact (hproject row hmem (by simp [forest, hfind])).symm
    | environment id =>
      simp only [forest, hup.environmentOf]
      cases hfind : m.environmentOf id with
      | none => exact (hnone (.environment id) (by simp [forest, hfind])).symm
      | some row =>
        obtain ⟨hmem, rfl⟩ := mem_of_find hfind
        exact (henvironment row hmem (by simp [forest, hfind]) (by simp [forest, hfind])).symm
    | secret id =>
      simp only [forest, hup.secretOf]
      cases hfind : m.secretOf id with
      | none => exact (hnone (.secret id) (by simp [forest, hfind])).symm
      | some row =>
        obtain ⟨hmem, rfl⟩ := mem_of_find hfind
        exact (hsecret row hmem (by simp [forest, hfind]) (by simp [forest, hfind])).symm

end

theorem delete_none {F : Forest Id} {x id : Id} (h : F.status id = none) :
    (F.delete x).status id = none := by
  simp [Forest.delete, h]

theorem restore_none {F : Forest Id} {x id : Id} (hx : F.status x ≠ none)
    (h : F.status id = none) : (F.restore x).status id = none := by
  have hne : id ≠ x := by
    rintro rfl
    exact hx h
  simp [Forest.restore, h, hne]

theorem delete_of_active {F : Forest Id} {x id : Id} (h : F.status id = some .active) :
    (F.delete x).status id = some (if id = x then .deleted
      else if x ∈ F.ancestors id then .hidden x else .active) := by
  simp only [Forest.delete, h, if_true]
  split
  · rfl
  · split <;> rfl

@[simp] theorem ProjectMark.status_eq_active {row : ProjectMark} :
    row.status = .active ↔ row.deletedAt = none := by
  cases hat : row.deletedAt <;> simp [ProjectMark.status, hat]

@[simp] theorem EnvironmentMark.status_eq_active {row : EnvironmentMark} :
    row.status = .active ↔ row.deletedAt = none := by
  cases hat : row.deletedAt <;> cases hby : row.deletedByProjectAt <;>
    simp [EnvironmentMark.status, hat, hby]

@[simp] theorem SecretMark.status_eq_active {row : SecretMark} :
    row.status = .active ↔ row.deletedAt = none := by
  cases hat : row.deletedAt <;> cases hby : row.deletedByProjectAt <;>
    cases hby' : row.deletedByEnvironmentAt <;> simp [SecretMark.status, hat, hby, hby']

theorem ProjectMark.status_ne_hidden (row : ProjectMark) (x : Id) : row.status ≠ .hidden x := by
  unfold ProjectMark.status
  split <;> simp

theorem EnvironmentMark.status_ne_hidden {row : EnvironmentMark} {x : Id}
    (hx : x ≠ .project row.projectId) : row.status ≠ .hidden x := by
  unfold EnvironmentMark.status
  split
  · simp
  · split <;> simp [Ne.symm hx]

theorem SecretMark.status_ne_hidden {row : SecretMark} {x : Id}
    (hx : x ≠ .project row.projectId) (hx' : x ≠ .environment row.environmentId) :
    row.status ≠ .hidden x := by
  unfold SecretMark.status
  split
  · simp
  · split
    · simp [Ne.symm hx]
    · split <;> simp [Ne.symm hx']

/-! ## Projects -/

theorem updates_deleteProject (m : Marks) (id : Uuid) (time : Timestamp) :
    Updates m (m.deleteProject id time) (fun row => if row.id = id && row.deletedAt.isNone then
        { row with deletedAt := some time } else row)
      (fun row => if row.projectId = id && row.deletedAt.isNone then
        { row with deletedAt := some time, deletedByProjectAt := some time } else row)
      (fun row => if row.projectId = id && row.deletedAt.isNone then
        { row with deletedAt := some time, deletedByProjectAt := some time } else row) where
  projects := rfl
  environments := rfl
  secrets := rfl
  project row := by split <;> rfl
  environment row := by split <;> exact ⟨rfl, rfl⟩
  secret row := by split <;> exact ⟨rfl, rfl, rfl⟩

theorem forest_deleteProject (m : Marks) (id : Uuid) (time : Timestamp) :
    forest (m.deleteProject id time) = (forest m).delete (.project id) := by
  refine (updates_deleteProject m id time).forest_eq rfl (fun row _ hstatus => ?_)
    (fun row _ hstatus hanc => ?_) (fun row _ hstatus hanc => ?_) fun id' h => delete_none h
  · by_cases hactive : row.deletedAt = none
    · rw [delete_of_active (by simpa [hstatus] using hactive)]
      by_cases hid : row.id = id <;> simp [ProjectMark.status, forest, hactive, hid]
    · rw [delete_of_not_active (by simpa [hstatus] using hactive), hstatus]
      simp [hactive]
  · by_cases hactive : row.deletedAt = none
    · rw [delete_of_active (by simpa [hstatus] using hactive), hanc]
      by_cases hid : row.projectId = id <;>
        simp [EnvironmentMark.status, EnvironmentMark.ancestors, hactive, hid, eq_comm (a := id)]
    · rw [delete_of_not_active (by simpa [hstatus] using hactive), hstatus]
      simp [hactive]
  · by_cases hactive : row.deletedAt = none
    · rw [delete_of_active (by simpa [hstatus] using hactive), hanc]
      by_cases hid : row.projectId = id <;>
        simp [SecretMark.status, SecretMark.ancestors, hactive, hid, eq_comm (a := id)]
    · rw [delete_of_not_active (by simpa [hstatus] using hactive), hstatus]
      simp [hactive]

theorem Consistent.environment_byProject_iff (h : Consistent m) {id : Uuid} {time : Timestamp}
    (hproject : ⟨id, some time⟩ ∈ m.projects) {row : EnvironmentMark} (hrow : row ∈ m.environments) :
    row.status = .hidden (.project id) ↔
      row.projectId = id ∧ row.deletedByProjectAt = some time := by
  cases hby : row.deletedByProjectAt with
  | none => cases hat : row.deletedAt <;> simp [EnvironmentMark.status, hat, hby]
  | some t =>
    obtain ⟨hat, hmem⟩ := h.environmentByProject row hrow t hby
    simp only [EnvironmentMark.status, hat, hby, Option.isNone_some, Option.isSome_some,
      Bool.false_eq_true, if_false, if_true, Status.hidden.injEq, Id.project.injEq,
      Option.some.injEq]
    refine ⟨fun hid => ⟨hid, ?_⟩, And.left⟩
    have heq := h.project_unique hmem hproject hid
    exact Option.some.inj (congrArg ProjectMark.deletedAt heq)

theorem Consistent.secret_byProject_iff (h : Consistent m) {id : Uuid} {time : Timestamp}
    (hproject : ⟨id, some time⟩ ∈ m.projects) {row : SecretMark} (hrow : row ∈ m.secrets) :
    row.status = .hidden (.project id) ↔
      row.projectId = id ∧ row.deletedByProjectAt = some time := by
  cases hby : row.deletedByProjectAt with
  | none =>
    cases hat : row.deletedAt <;> cases hby' : row.deletedByEnvironmentAt <;>
      simp [SecretMark.status, hat, hby, hby']
  | some t =>
    obtain ⟨hat, -, hmem⟩ := h.secretByProject row hrow t hby
    simp only [SecretMark.status, hat, hby, Option.isNone_some, Option.isSome_some,
      Bool.false_eq_true, if_false, if_true, Status.hidden.injEq, Id.project.injEq,
      Option.some.injEq]
    refine ⟨fun hid => ⟨hid, ?_⟩, And.left⟩
    have heq := h.project_unique hmem hproject hid
    exact Option.some.inj (congrArg ProjectMark.deletedAt heq)

theorem Consistent.secret_byEnvironment_iff (h : Consistent m) {id projectId : Uuid}
    {time : Timestamp} (henvironment : ⟨id, projectId, some time, none⟩ ∈ m.environments)
    {row : SecretMark} (hrow : row ∈ m.secrets) :
    row.status = .hidden (.environment id) ↔ row.environmentId = id ∧
      row.deletedByEnvironmentAt = some time ∧ row.deletedByProjectAt = none := by
  cases hby : row.deletedByEnvironmentAt with
  | none =>
    cases hat : row.deletedAt <;> cases hby' : row.deletedByProjectAt <;>
      simp [SecretMark.status, hat, hby, hby']
  | some t =>
    obtain ⟨hat, hby', hmem⟩ := h.secretByEnvironment row hrow t hby
    simp only [SecretMark.status, hat, hby, hby', Option.isNone_some, Option.isSome_some,
      Option.isSome_none, Bool.false_eq_true, if_false, if_true, Status.hidden.injEq,
      Id.environment.injEq, Option.some.injEq, and_true]
    refine ⟨fun hid => ⟨hid, ?_⟩, And.left⟩
    have heq := h.environment_unique hmem henvironment hid
    exact Option.some.inj (congrArg EnvironmentMark.deletedAt heq)

theorem updates_restoreProject (m : Marks) (id : Uuid) (time : Timestamp) :
    Updates m (m.restoreProject id time)
      (fun row => if row.id = id then { row with deletedAt := none } else row)
      (fun row => if row.projectId = id && row.deletedByProjectAt = some time then
        { row with deletedAt := none, deletedByProjectAt := none } else row)
      (fun row => if row.projectId = id && row.deletedByProjectAt = some time then
        { row with deletedAt := none, deletedByProjectAt := none } else row) where
  projects := by simp [Marks.restoreProject, updateWhere]
  environments := rfl
  secrets := rfl
  project row := by split <;> rfl
  environment row := by split <;> exact ⟨rfl, rfl⟩
  secret row := by split <;> exact ⟨rfl, rfl, rfl⟩

theorem forest_restoreProject (h : Consistent m) {id : Uuid} {time : Timestamp}
    (hproject : ⟨id, some time⟩ ∈ m.projects) :
    forest (m.restoreProject id time) = (forest m).restore (.project id) := by
  have hexists : (forest m).status (.project id) ≠ none := by
    simp [forest, h.projectOf hproject]
  refine (updates_restoreProject m id time).forest_eq rfl (fun row hrow hstatus => ?_)
    (fun row hrow hstatus _ => ?_) (fun row hrow hstatus _ => ?_)
    fun id' hnone => restore_none hexists hnone
  · by_cases hid : row.id = id
    · simp [Forest.restore, ProjectMark.status, hid]
    · simp [Forest.restore, hstatus, hid, row.status_ne_hidden]
  · have hiff := h.environment_byProject_iff hproject hrow
    by_cases hmatch : row.projectId = id ∧ row.deletedByProjectAt = some time
    · simp [Forest.restore, hstatus, hmatch, EnvironmentMark.status]
    · have hne : row.status ≠ .hidden (.project id) := fun heq => hmatch (hiff.mp heq)
      rw [if_neg (by simpa using hmatch)]
      simp [Forest.restore, hstatus, hne]
  · have hiff := h.secret_byProject_iff hproject hrow
    by_cases hmatch : row.projectId = id ∧ row.deletedByProjectAt = some time
    · simp [Forest.restore, hstatus, hmatch, SecretMark.status]
    · have hne : row.status ≠ .hidden (.project id) := fun heq => hmatch (hiff.mp heq)
      rw [if_neg (by simpa using hmatch)]
      simp [Forest.restore, hstatus, hne]

/-! ## Environments -/

theorem updates_deleteEnvironment (m : Marks) (id : Uuid) (time : Timestamp) :
    Updates m (m.deleteEnvironment id time) (fun row => row)
      (fun row => if row.id = id && row.deletedAt.isNone then
        { row with deletedAt := some time } else row)
      (fun row => if row.environmentId = id && row.deletedAt.isNone then
        { row with deletedAt := some time, deletedByEnvironmentAt := some time } else row) where
  projects := (List.map_id _).symm
  environments := rfl
  secrets := rfl
  project _ := rfl
  environment row := by split <;> exact ⟨rfl, rfl⟩
  secret row := by split <;> exact ⟨rfl, rfl, rfl⟩

theorem forest_deleteEnvironment (h : Consistent m) (id : Uuid) (time : Timestamp) :
    forest (m.deleteEnvironment id time) = (forest m).delete (.environment id) := by
  refine (updates_deleteEnvironment m id time).forest_eq rfl (fun row _ hstatus => ?_)
    (fun row hrow hstatus hanc => ?_) (fun row hrow hstatus hanc => ?_) fun id' h => delete_none h
  · by_cases hactive : row.deletedAt = none
    · rw [delete_of_active (by simpa [hstatus] using hactive)]
      simp [ProjectMark.status, forest, hactive]
    · rw [delete_of_not_active (by simpa [hstatus] using hactive), hstatus]
  · by_cases hactive : row.deletedAt = none
    · rw [delete_of_active (by simpa [hstatus] using hactive), hanc]
      have hby := h.environment_active hrow hactive
      by_cases hid : row.id = id <;>
        simp [EnvironmentMark.status, EnvironmentMark.ancestors, hactive, hid, hby]
    · rw [delete_of_not_active (by simpa [hstatus] using hactive), hstatus]
      simp [hactive]
  · by_cases hactive : row.deletedAt = none
    · rw [delete_of_active (by simpa [hstatus] using hactive), hanc]
      have hby := (h.secret_active hrow hactive).1
      by_cases hid : row.environmentId = id <;>
        simp [SecretMark.status, SecretMark.ancestors, hactive, hid, hby, eq_comm (a := id)]
    · rw [delete_of_not_active (by simpa [hstatus] using hactive), hstatus]
      simp [hactive]

theorem updates_restoreEnvironment (m : Marks) (id : Uuid) (time : Timestamp) :
    Updates m (m.restoreEnvironment id time) (fun row => row)
      (fun row => if row.id = id && row.deletedAt = some time && row.deletedByProjectAt.isNone then
        { row with deletedAt := none } else row)
      (fun row => if row.environmentId = id && row.deletedByEnvironmentAt = some time &&
          row.deletedByProjectAt.isNone then
        { row with deletedAt := none, deletedByEnvironmentAt := none } else row) where
  projects := (List.map_id _).symm
  environments := rfl
  secrets := rfl
  project _ := rfl
  environment row := by split <;> exact ⟨rfl, rfl⟩
  secret row := by split <;> exact ⟨rfl, rfl, rfl⟩

theorem forest_restoreEnvironment (h : Consistent m) {id projectId : Uuid} {time : Timestamp}
    (henvironment : ⟨id, projectId, some time, none⟩ ∈ m.environments) :
    forest (m.restoreEnvironment id time) = (forest m).restore (.environment id) := by
  have hexists : (forest m).status (.environment id) ≠ none := by
    simp [forest, h.environmentOf henvironment]
  refine (updates_restoreEnvironment m id time).forest_eq rfl (fun row hrow hstatus => ?_)
    (fun row hrow hstatus _ => ?_) (fun row hrow hstatus _ => ?_)
    fun id' hnone => restore_none hexists hnone
  · simp [Forest.restore, hstatus, row.status_ne_hidden]
  · by_cases hid : row.id = id
    · have heq := h.environment_unique hrow henvironment hid
      simp [Forest.restore, EnvironmentMark.status, heq]
    · have hhidden : row.status ≠ .hidden (.environment id) :=
        EnvironmentMark.status_ne_hidden (by simp)
      simp [Forest.restore, hstatus, hid, hhidden]
  · have hiff := h.secret_byEnvironment_iff henvironment hrow
    by_cases hmatch : row.environmentId = id ∧ row.deletedByEnvironmentAt = some time ∧
        row.deletedByProjectAt = none
    · simp [Forest.restore, hstatus, hmatch, SecretMark.status]
    · have hne : row.status ≠ .hidden (.environment id) := fun heq => hmatch (hiff.mp heq)
      rw [if_neg (by simpa [and_assoc] using hmatch)]
      simp [Forest.restore, hstatus, hne]

/-! ## Secrets -/

theorem updates_deleteSecret (m : Marks) (id : Uuid) (time : Timestamp) :
    Updates m (m.deleteSecret id time) (fun row => row) (fun row => row)
      (fun row => if row.id = id && row.deletedAt.isNone then
        { row with deletedAt := some time } else row) where
  projects := (List.map_id _).symm
  environments := (List.map_id _).symm
  secrets := rfl
  project _ := rfl
  environment _ := ⟨rfl, rfl⟩
  secret row := by split <;> exact ⟨rfl, rfl, rfl⟩

theorem forest_deleteSecret (h : Consistent m) (id : Uuid) (time : Timestamp) :
    forest (m.deleteSecret id time) = (forest m).delete (.secret id) := by
  refine (updates_deleteSecret m id time).forest_eq rfl (fun row _ hstatus => ?_)
    (fun row _ hstatus hanc => ?_) (fun row hrow hstatus hanc => ?_) fun id' h => delete_none h
  · by_cases hactive : row.deletedAt = none
    · rw [delete_of_active (by simpa [hstatus] using hactive)]
      simp [ProjectMark.status, forest, hactive]
    · rw [delete_of_not_active (by simpa [hstatus] using hactive), hstatus]
  · by_cases hactive : row.deletedAt = none
    · rw [delete_of_active (by simpa [hstatus] using hactive), hanc]
      simp [EnvironmentMark.status, EnvironmentMark.ancestors, hactive]
    · rw [delete_of_not_active (by simpa [hstatus] using hactive), hstatus]
  · by_cases hactive : row.deletedAt = none
    · rw [delete_of_active (by simpa [hstatus] using hactive), hanc]
      have hby := h.secret_active hrow hactive
      by_cases hid : row.id = id <;>
        simp [SecretMark.status, SecretMark.ancestors, hactive, hid, hby]
    · rw [delete_of_not_active (by simpa [hstatus] using hactive), hstatus]
      simp [hactive]

theorem updates_recoverSecret (m : Marks) (id : Uuid) :
    Updates m (m.recoverSecret id) (fun row => row) (fun row => row)
      (fun row => if row.id = id then { row with deletedAt := none } else row) where
  projects := (List.map_id _).symm
  environments := (List.map_id _).symm
  secrets := by simp [Marks.recoverSecret, updateWhere]
  project _ := rfl
  environment _ := ⟨rfl, rfl⟩
  secret row := by split <;> exact ⟨rfl, rfl, rfl⟩

theorem forest_recoverSecret (h : Consistent m) {row : SecretMark} (hrow : row ∈ m.secrets) :
    forest (m.recoverSecret row.id) = (forest m).restore (.secret row.id) := by
  have hexists : (forest m).status (.secret row.id) ≠ none := by
    simp [forest, h.secretOf hrow]
  refine (updates_recoverSecret m row.id).forest_eq rfl (fun other _ hstatus => ?_)
    (fun other _ hstatus _ => ?_) (fun other _ hstatus _ => ?_)
    fun id' hnone => restore_none hexists hnone
  · simp [Forest.restore, hstatus, other.status_ne_hidden]
  · have hhidden : other.status ≠ .hidden (.secret row.id) :=
      EnvironmentMark.status_ne_hidden (by simp)
    simp [Forest.restore, hstatus, hhidden]
  · by_cases hid : other.id = row.id
    · simp [Forest.restore, SecretMark.status, hid]
    · have hhidden : other.status ≠ .hidden (.secret row.id) :=
        SecretMark.status_ne_hidden (by simp) (by simp)
      simp [Forest.restore, hstatus, hid, hhidden]

/-! ## New rows -/

theorem find_append {α κ : Type} [DecidableEq κ] (key : α → κ) {rows : List α} (row : α)
    (hfresh : rows.find? (key · = key row) = none) (k : κ) :
    (rows ++ [row]).find? (key · = k) =
      if k = key row then some row else rows.find? (key · = k) := by
  rw [List.find?_append]
  by_cases hk : k = key row
  · rw [hk, hfresh, if_pos rfl]
    simp
  · rw [if_neg hk, List.find?_singleton, if_neg (by simpa [eq_comm] using hk), Option.or_none]

theorem forest_createProject {id : Uuid} (hfresh : m.projectOf id = none) :
    forest { m with projects := m.projects ++ [⟨id, none⟩] } =
      (forest m).insert (.project id) [] := by
  have hfind := find_append ProjectMark.id ⟨id, none⟩ hfresh
  refine Forest.ext ?_ ?_ <;> funext x <;> cases x with
  | project id' =>
    by_cases hid : id' = id <;>
      simp [forest, Forest.insert, Marks.projectOf, hfind, hid, ProjectMark.status]
  | environment id' => simp [forest, Forest.insert, Marks.environmentOf]
  | secret id' => simp [forest, Forest.insert, Marks.secretOf]

theorem forest_createEnvironment {id : Uuid} (projectId : Uuid)
    (hfresh : m.environmentOf id = none) :
    forest { m with environments := m.environments ++ [⟨id, projectId, none, none⟩] } =
      (forest m).insert (.environment id) [.project projectId] := by
  have hfind := find_append EnvironmentMark.id ⟨id, projectId, none, none⟩ hfresh
  refine Forest.ext ?_ ?_ <;> funext x <;> cases x with
  | project id' => simp [forest, Forest.insert, Marks.projectOf]
  | environment id' =>
    by_cases hid : id' = id <;>
      simp [forest, Forest.insert, Marks.environmentOf, hfind, hid, EnvironmentMark.status,
        EnvironmentMark.ancestors]
  | secret id' => simp [forest, Forest.insert, Marks.secretOf]

theorem forest_createSecret {id : Uuid} (projectId environmentId : Uuid)
    (hfresh : m.secretOf id = none) :
    forest { m with
        secrets := m.secrets ++ [⟨id, projectId, environmentId, none, none, none⟩] } =
      (forest m).insert (.secret id) [.environment environmentId, .project projectId] := by
  have hfind := find_append SecretMark.id ⟨id, projectId, environmentId, none, none, none⟩ hfresh
  refine Forest.ext ?_ ?_ <;> funext x <;> cases x with
  | project id' => simp [forest, Forest.insert, Marks.projectOf]
  | environment id' => simp [forest, Forest.insert, Marks.environmentOf]
  | secret id' =>
    by_cases hid : id' = id <;>
      simp [forest, Forest.insert, Marks.secretOf, hfind, hid, SecretMark.status,
        SecretMark.ancestors]

/-! ## Consistency -/

theorem nodup_append {α : Type} {key : α → Uuid} {rows : List α} {row : α}
    (h : (rows.map key).Nodup) (hfresh : rows.find? (key · = key row) = none) :
    ((rows ++ [row]).map key).Nodup := by
  rw [List.map_append, List.map_singleton]
  refine h.append (List.nodup_singleton _) fun k hk hk' => ?_
  obtain ⟨other, hother, rfl⟩ := List.mem_map.mp hk
  rw [List.find?_eq_none] at hfresh
  exact hfresh other hother (by simpa using hk')

theorem Consistent.createProject (h : Consistent m) {id : Uuid} (hfresh : m.projectOf id = none) :
    Consistent { m with projects := m.projects ++ [⟨id, none⟩] } where
  projectIds := nodup_append h.projectIds hfresh
  environmentIds := h.environmentIds
  secretIds := h.secretIds
  projectTime row hrow t ht := by
    rcases List.mem_append.mp hrow with hrow | hrow
    · exact h.projectTime row hrow t ht
    · rw [List.mem_singleton.mp hrow] at ht
      cases ht
  environmentTime := h.environmentTime
  environmentByProject row hrow t ht :=
    (h.environmentByProject row hrow t ht).imp_right (List.mem_append_left _)
  secretByProject row hrow t ht :=
    (h.secretByProject row hrow t ht).imp_right (And.imp_right (List.mem_append_left _))
  secretByEnvironment := h.secretByEnvironment

theorem Consistent.createEnvironment (h : Consistent m) {id : Uuid} (projectId : Uuid)
    (hfresh : m.environmentOf id = none) :
    Consistent { m with environments := m.environments ++ [⟨id, projectId, none, none⟩] } where
  projectIds := h.projectIds
  environmentIds := nodup_append h.environmentIds hfresh
  secretIds := h.secretIds
  projectTime := h.projectTime
  environmentTime row hrow t ht := by
    rcases List.mem_append.mp hrow with hrow | hrow
    · exact h.environmentTime row hrow t ht
    · rw [List.mem_singleton.mp hrow] at ht
      cases ht
  environmentByProject row hrow t ht := by
    rcases List.mem_append.mp hrow with hrow | hrow
    · exact h.environmentByProject row hrow t ht
    · rw [List.mem_singleton.mp hrow] at ht
      cases ht
  secretByProject := h.secretByProject
  secretByEnvironment row hrow t ht :=
    (h.secretByEnvironment row hrow t ht).imp_right (And.imp_right (List.mem_append_left _))

theorem Consistent.createSecret (h : Consistent m) {id : Uuid} (projectId environmentId : Uuid)
    (hfresh : m.secretOf id = none) :
    Consistent { m with
      secrets := m.secrets ++ [⟨id, projectId, environmentId, none, none, none⟩] } where
  projectIds := h.projectIds
  environmentIds := h.environmentIds
  secretIds := nodup_append h.secretIds hfresh
  projectTime := h.projectTime
  environmentTime := h.environmentTime
  environmentByProject := h.environmentByProject
  secretByProject row hrow t ht := by
    rcases List.mem_append.mp hrow with hrow | hrow
    · exact h.secretByProject row hrow t ht
    · rw [List.mem_singleton.mp hrow] at ht
      cases ht
  secretByEnvironment row hrow t ht := by
    rcases List.mem_append.mp hrow with hrow | hrow
    · exact h.secretByEnvironment row hrow t ht
    · rw [List.mem_singleton.mp hrow] at ht
      cases ht

/-- A row that an update leaves is still there. -/
theorem mem_of_not {α : Type} {p : α → Bool} {f : α → α} {rows : List α} {row : α}
    (h : row ∈ rows) (hp : p row = false) : row ∈ updateWhere p f rows :=
  mem_updateWhere.mpr ⟨row, h, .inr ⟨hp, rfl⟩⟩

theorem mem_of_match {α : Type} {p : α → Bool} {f : α → α} {rows : List α} {row : α}
    (h : row ∈ rows) (hp : p row = true) : f row ∈ updateWhere p f rows :=
  mem_updateWhere.mpr ⟨row, h, .inl ⟨hp, rfl⟩⟩

theorem Consistent.deleteProject (h : Consistent m) {id : Uuid} {time : Timestamp}
    (htime : fromDate (toDate time) = time) (hproject : ⟨id, none⟩ ∈ m.projects) :
    Consistent (m.deleteProject id time) where
  projectIds := by
    rw [(updates_deleteProject m id time).ids.1]
    exact h.projectIds
  environmentIds := by
    rw [(updates_deleteProject m id time).ids.2.1]
    exact h.environmentIds
  secretIds := by
    rw [(updates_deleteProject m id time).ids.2.2]
    exact h.secretIds
  projectTime row hrow t ht := by
    obtain ⟨old, hold, ⟨-, rfl⟩ | ⟨-, rfl⟩⟩ := mem_updateWhere.mp hrow
    · cases ht
      exact htime
    · exact h.projectTime row hold t ht
  environmentTime row hrow t ht := by
    obtain ⟨old, hold, ⟨-, rfl⟩ | ⟨-, rfl⟩⟩ := mem_updateWhere.mp hrow
    · cases ht
      exact htime
    · exact h.environmentTime row hold t ht
  environmentByProject row hrow t ht := by
    obtain ⟨old, hold, ⟨hmatch, rfl⟩ | ⟨-, rfl⟩⟩ := mem_updateWhere.mp hrow
    · cases ht
      have hid : old.projectId = id := by simpa using (Bool.and_eq_true_iff.mp hmatch).1
      refine ⟨rfl, ?_⟩
      show (⟨old.projectId, some time⟩ : ProjectMark) ∈ _
      rw [hid]
      exact mem_of_match hproject (by simp)
    · obtain ⟨hat, hmem⟩ := h.environmentByProject row hold t ht
      exact ⟨hat, mem_of_not hmem (by simp)⟩
  secretByProject row hrow t ht := by
    obtain ⟨old, hold, ⟨hmatch, rfl⟩ | ⟨-, rfl⟩⟩ := mem_updateWhere.mp hrow
    · cases ht
      simp only [Bool.and_eq_true, decide_eq_true_eq, Option.isNone_iff_eq_none] at hmatch
      refine ⟨rfl, (h.secret_active hold hmatch.2).2, ?_⟩
      show (⟨old.projectId, some time⟩ : ProjectMark) ∈ _
      rw [hmatch.1]
      exact mem_of_match hproject (by simp)
    · obtain ⟨hat, hby, hmem⟩ := h.secretByProject row hold t ht
      exact ⟨hat, hby, mem_of_not hmem (by simp)⟩
  secretByEnvironment row hrow t ht := by
    obtain ⟨old, hold, ⟨hmatch, rfl⟩ | ⟨-, rfl⟩⟩ := mem_updateWhere.mp hrow
    · simp only [Bool.and_eq_true, decide_eq_true_eq, Option.isNone_iff_eq_none] at hmatch
      have hnone := (h.secret_active hold hmatch.2).2
      rw [show old.deletedByEnvironmentAt = some t from ht] at hnone
      cases hnone
    · obtain ⟨hat, hby, hmem⟩ := h.secretByEnvironment row hold t ht
      exact ⟨hat, hby, mem_of_not hmem (by simp)⟩

theorem Consistent.restoreProject (h : Consistent m) {id : Uuid} {time : Timestamp}
    (hproject : ⟨id, some time⟩ ∈ m.projects) : Consistent (m.restoreProject id time) := by
  -- the rows that keep a mark belong to another project
  have hother : ∀ {projectId : Uuid} {t : Timestamp}, ⟨projectId, some t⟩ ∈ m.projects →
      ¬(projectId = id ∧ t = time) →
      (⟨projectId, some t⟩ : ProjectMark) ∈ (m.restoreProject id time).projects := by
    intro projectId t hmem hne
    refine mem_of_not hmem ?_
    simp only [decide_eq_false_iff_not]
    rintro rfl
    have heq := congrArg ProjectMark.deletedAt (h.project_unique hmem hproject rfl)
    exact hne ⟨rfl, Option.some.inj heq⟩
  refine
    { projectIds := ?_
      environmentIds := ?_
      secretIds := ?_
      projectTime := fun row hrow t ht => ?_
      environmentTime := fun row hrow t ht => ?_
      environmentByProject := fun row hrow t ht => ?_
      secretByProject := fun row hrow t ht => ?_
      secretByEnvironment := fun row hrow t ht => ?_ }
  · rw [(updates_restoreProject m id time).ids.1]
    exact h.projectIds
  · rw [(updates_restoreProject m id time).ids.2.1]
    exact h.environmentIds
  · rw [(updates_restoreProject m id time).ids.2.2]
    exact h.secretIds
  · obtain ⟨old, hold, ⟨-, rfl⟩ | ⟨-, rfl⟩⟩ := mem_updateWhere.mp hrow
    · cases ht
    · exact h.projectTime row hold t ht
  · obtain ⟨old, hold, ⟨-, rfl⟩ | ⟨-, rfl⟩⟩ := mem_updateWhere.mp hrow
    · cases ht
    · exact h.environmentTime row hold t ht
  · obtain ⟨old, hold, ⟨-, rfl⟩ | ⟨hmatch, rfl⟩⟩ := mem_updateWhere.mp hrow
    · cases ht
    · obtain ⟨hat, hmem⟩ := h.environmentByProject row hold t ht
      exact ⟨hat, hother hmem fun heq => by simp [heq, ht] at hmatch⟩
  · obtain ⟨old, hold, ⟨-, rfl⟩ | ⟨hmatch, rfl⟩⟩ := mem_updateWhere.mp hrow
    · cases ht
    · obtain ⟨hat, hby, hmem⟩ := h.secretByProject row hold t ht
      exact ⟨hat, hby, hother hmem fun heq => by simp [heq, ht] at hmatch⟩
  · obtain ⟨old, hold, ⟨hmatch, rfl⟩ | ⟨hmatch, rfl⟩⟩ := mem_updateWhere.mp hrow
    · simp only [Bool.and_eq_true, decide_eq_true_eq] at hmatch
      have hnone := (h.secretByProject old hold time hmatch.2).2.1
      rw [show old.deletedByEnvironmentAt = some t from ht] at hnone
      cases hnone
    · obtain ⟨hat, hby, hmem⟩ := h.secretByEnvironment row hold t ht
      exact ⟨hat, hby, mem_of_not hmem (by simp)⟩

theorem Consistent.deleteEnvironment (h : Consistent m) {id projectId : Uuid} {time : Timestamp}
    (htime : fromDate (toDate time) = time)
    (henvironment : ⟨id, projectId, none, none⟩ ∈ m.environments)
    (hin : ∀ row ∈ m.secrets, row.environmentId = id → row.projectId = projectId) :
    Consistent (m.deleteEnvironment id time) where
  projectIds := h.projectIds
  environmentIds := by
    rw [(updates_deleteEnvironment m id time).ids.2.1]
    exact h.environmentIds
  secretIds := by
    rw [(updates_deleteEnvironment m id time).ids.2.2]
    exact h.secretIds
  projectTime := h.projectTime
  environmentTime row hrow t ht := by
    obtain ⟨old, hold, ⟨-, rfl⟩ | ⟨-, rfl⟩⟩ := mem_updateWhere.mp hrow
    · cases ht
      exact htime
    · exact h.environmentTime row hold t ht
  environmentByProject row hrow t ht := by
    obtain ⟨old, hold, ⟨hmatch, rfl⟩ | ⟨-, rfl⟩⟩ := mem_updateWhere.mp hrow
    · simp only [Bool.and_eq_true, decide_eq_true_eq, Option.isNone_iff_eq_none] at hmatch
      have hnone := h.environment_active hold hmatch.2
      rw [show old.deletedByProjectAt = some t from ht] at hnone
      cases hnone
    · exact h.environmentByProject row hold t ht
  secretByProject row hrow t ht := by
    obtain ⟨old, hold, ⟨hmatch, rfl⟩ | ⟨-, rfl⟩⟩ := mem_updateWhere.mp hrow
    · simp only [Bool.and_eq_true, decide_eq_true_eq, Option.isNone_iff_eq_none] at hmatch
      have hnone := (h.secret_active hold hmatch.2).1
      rw [show old.deletedByProjectAt = some t from ht] at hnone
      cases hnone
    · exact h.secretByProject row hold t ht
  secretByEnvironment row hrow t ht := by
    obtain ⟨old, hold, ⟨hmatch, rfl⟩ | ⟨-, rfl⟩⟩ := mem_updateWhere.mp hrow
    · cases ht
      simp only [Bool.and_eq_true, decide_eq_true_eq, Option.isNone_iff_eq_none] at hmatch
      refine ⟨rfl, (h.secret_active hold hmatch.2).1, ?_⟩
      show (⟨old.environmentId, old.projectId, some time, none⟩ : EnvironmentMark) ∈ _
      rw [hin old hold hmatch.1, hmatch.1]
      exact mem_of_match henvironment (by simp)
    · obtain ⟨hat, hby, hmem⟩ := h.secretByEnvironment row hold t ht
      exact ⟨hat, hby, mem_of_not hmem (by simp)⟩

theorem Consistent.restoreEnvironment (h : Consistent m) (id : Uuid) (time : Timestamp) :
    Consistent (m.restoreEnvironment id time) where
  projectIds := h.projectIds
  environmentIds := by
    rw [(updates_restoreEnvironment m id time).ids.2.1]
    exact h.environmentIds
  secretIds := by
    rw [(updates_restoreEnvironment m id time).ids.2.2]
    exact h.secretIds
  projectTime := h.projectTime
  environmentTime row hrow t ht := by
    obtain ⟨old, hold, ⟨-, rfl⟩ | ⟨-, rfl⟩⟩ := mem_updateWhere.mp hrow
    · cases ht
    · exact h.environmentTime row hold t ht
  environmentByProject row hrow t ht := by
    obtain ⟨old, hold, ⟨hmatch, rfl⟩ | ⟨-, rfl⟩⟩ := mem_updateWhere.mp hrow
    · simp only [Bool.and_eq_true, Option.isNone_iff_eq_none] at hmatch
      rw [show old.deletedByProjectAt = some t from ht] at hmatch
      cases hmatch.2
    · exact h.environmentByProject row hold t ht
  secretByProject row hrow t ht := by
    obtain ⟨old, hold, ⟨hmatch, rfl⟩ | ⟨-, rfl⟩⟩ := mem_updateWhere.mp hrow
    · simp only [Bool.and_eq_true, Option.isNone_iff_eq_none] at hmatch
      rw [show old.deletedByProjectAt = some t from ht] at hmatch
      cases hmatch.2
    · exact h.secretByProject row hold t ht
  secretByEnvironment row hrow t ht := by
    obtain ⟨old, hold, ⟨-, rfl⟩ | ⟨hmatch, rfl⟩⟩ := mem_updateWhere.mp hrow
    · cases ht
    · obtain ⟨hat, hby, hmem⟩ := h.secretByEnvironment row hold t ht
      refine ⟨hat, hby, mem_of_not hmem ?_⟩
      simp only [Option.isNone_none, Bool.and_true, Bool.and_eq_false_iff,
        decide_eq_false_iff_not]
      by_contra hboth
      rw [not_or, not_not, not_not, Option.some.injEq] at hboth
      simp [hboth.1, ht, hboth.2, hby] at hmatch

theorem Consistent.updateSecret (h : Consistent m) (at' : Option Timestamp)
    (p : SecretMark → Bool)
    (hp : ∀ row ∈ m.secrets, p row = true →
      row.deletedByProjectAt = none ∧ row.deletedByEnvironmentAt = none) :
    Consistent { m with
      secrets := updateWhere p (fun row => { row with deletedAt := at' }) m.secrets } where
  projectIds := h.projectIds
  environmentIds := h.environmentIds
  secretIds := by
    show ((updateWhere p _ m.secrets).map SecretMark.id).Nodup
    rw [map_updateWhere (f := fun row : SecretMark => { row with deletedAt := at' }) fun _ => rfl]
    exact h.secretIds
  projectTime := h.projectTime
  environmentTime := h.environmentTime
  environmentByProject := h.environmentByProject
  secretByProject row hrow t ht := by
    obtain ⟨old, hold, ⟨hmatch, rfl⟩ | ⟨-, rfl⟩⟩ := mem_updateWhere.mp hrow
    · have hnone := (hp old hold hmatch).1
      rw [show old.deletedByProjectAt = some t from ht] at hnone
      cases hnone
    · exact h.secretByProject row hold t ht
  secretByEnvironment row hrow t ht := by
    obtain ⟨old, hold, ⟨hmatch, rfl⟩ | ⟨-, rfl⟩⟩ := mem_updateWhere.mp hrow
    · have hnone := (hp old hold hmatch).2
      rw [show old.deletedByEnvironmentAt = some t from ht] at hnone
      cases hnone
    · exact h.secretByEnvironment row hold t ht

/-! ## Changes -/

theorem Consistent.status_project (h : Consistent m) {row : ProjectMark} (hrow : row ∈ m.projects) :
    (forest m).status (.project row.id) = some row.status := by
  simp [forest, h.projectOf hrow]

theorem Consistent.status_environment (h : Consistent m) {row : EnvironmentMark}
    (hrow : row ∈ m.environments) :
    (forest m).status (.environment row.id) = some row.status ∧
      (forest m).ancestors (.environment row.id) = row.ancestors := by
  simp [forest, h.environmentOf hrow]

theorem Consistent.status_secret (h : Consistent m) {row : SecretMark} (hrow : row ∈ m.secrets) :
    (forest m).status (.secret row.id) = some row.status ∧
      (forest m).ancestors (.secret row.id) = row.ancestors := by
  simp [forest, h.secretOf hrow]

/-- A secret lies in the project of its environment. -/
theorem Consistent.project_of_environment (h : Consistent m) (hwf : WellFormed (forest m))
    {secret : SecretMark} {environment : EnvironmentMark} (hsecret : secret ∈ m.secrets)
    (henvironment : environment ∈ m.environments)
    (hid : secret.environmentId = environment.id) :
    secret.projectId = environment.projectId := by
  obtain ⟨hstatus, hanc⟩ := h.status_secret hsecret
  have hmem : Id.environment environment.id ∈ (forest m).ancestors (.secret secret.id) := by
    rw [hanc, ← hid]
    exact List.mem_cons_self ..
  have hclosed := (hwf.closed _ (ne_none_of_eq hstatus) _ hmem).2 (.project environment.projectId)
    (by rw [(h.status_environment henvironment).2]; exact List.mem_singleton_self _)
  rw [hanc] at hclosed
  simpa [SecretMark.ancestors, eq_comm] using hclosed

theorem Change.enabled (h : Consistent m) {a : Action Id} (hchange : Change a m m') :
    a.Enabled (forest m) := by
  cases hchange with
  | createProject _ id hfresh =>
    refine ⟨by simp [forest, hfresh], ?_, ?_⟩
    · intro a ha
      cases ha
    · intro a ha
      cases ha
  | createEnvironment _ id projectId hfresh hproject =>
    refine ⟨by simp [forest, hfresh], ?_, ?_⟩
    · intro a ha
      rw [List.mem_singleton.mp ha]
      refine ⟨h.status_project hproject, ?_⟩
      intro b hb
      cases hb
    · intro a ha b hb
      rw [List.mem_singleton.mp ha, List.mem_singleton.mp hb]
      exact .inl rfl
  | createSecret _ id projectId environmentId hfresh henvironment hproject =>
    have henv := h.status_environment henvironment
    refine ⟨by simp [forest, hfresh], ?_, ?_⟩
    · intro a ha
      simp only [List.mem_cons, List.not_mem_nil, or_false] at ha
      rcases ha with rfl | rfl
      · refine ⟨henv.1, fun b hb => ?_⟩
        rw [henv.2] at hb
        exact List.mem_cons_of_mem _ hb
      · refine ⟨h.status_project hproject, ?_⟩
        intro b hb
        cases hb
    · intro a ha b hb
      simp only [List.mem_cons, List.not_mem_nil, or_false] at ha hb
      rcases ha with rfl | rfl <;> rcases hb with rfl | rfl
      · exact .inl rfl
      · exact .inr (.inr (by rw [henv.2]; exact List.mem_singleton_self _))
      · exact .inr (.inl (by rw [henv.2]; exact List.mem_singleton_self _))
      · exact .inl rfl
  | deleteProject _ id time htime hproject => exact h.status_project hproject
  | restoreProject _ id time hproject =>
    refine ⟨h.status_project hproject, ?_⟩
    intro a ha
    cases ha
  | deleteEnvironment _ id projectId time htime henvironment =>
    exact (h.status_environment henvironment).1
  | restoreEnvironment _ id projectId time henvironment hproject =>
    obtain ⟨hstatus, hanc⟩ := h.status_environment henvironment
    refine ⟨hstatus, fun a ha => ?_⟩
    rw [hanc] at ha
    rw [List.mem_singleton.mp ha]
    exact h.status_project hproject
  | deleteSecret _ id projectId environmentId time hsecret => exact (h.status_secret hsecret).1
  | recoverSecret _ id projectId environmentId time hsecret henvironment hproject =>
    obtain ⟨hstatus, hanc⟩ := h.status_secret hsecret
    refine ⟨hstatus, fun a ha => ?_⟩
    rw [hanc] at ha
    simp only [SecretMark.ancestors, List.mem_cons, List.not_mem_nil, or_false] at ha
    rcases ha with rfl | rfl
    · exact (h.status_environment henvironment).1
    · exact h.status_project hproject

theorem Change.forest_eq (h : Consistent m) {a : Action Id} (hchange : Change a m m') :
    forest m' = a.apply (forest m) := by
  cases hchange with
  | createProject _ id hfresh => exact forest_createProject hfresh
  | createEnvironment _ id projectId hfresh => exact forest_createEnvironment projectId hfresh
  | createSecret _ id projectId environmentId hfresh =>
    exact forest_createSecret projectId environmentId hfresh
  | deleteProject _ id time => exact forest_deleteProject m id time
  | restoreProject _ id time hproject => exact forest_restoreProject h hproject
  | deleteEnvironment _ id projectId time => exact forest_deleteEnvironment h id time
  | restoreEnvironment _ id projectId time henvironment =>
    exact forest_restoreEnvironment h henvironment
  | deleteSecret _ id projectId environmentId time => exact forest_deleteSecret h id time
  | recoverSecret _ id projectId environmentId time hsecret =>
    exact forest_recoverSecret h hsecret

theorem Change.consistent (h : Consistent m) (hwf : WellFormed (forest m)) {a : Action Id}
    (hchange : Change a m m') : Consistent m' := by
  cases hchange with
  | createProject _ id hfresh => exact h.createProject hfresh
  | createEnvironment _ id projectId hfresh => exact h.createEnvironment projectId hfresh
  | createSecret _ id projectId environmentId hfresh =>
    exact h.createSecret projectId environmentId hfresh
  | deleteProject _ id time htime hproject => exact h.deleteProject htime hproject
  | restoreProject _ id time hproject => exact h.restoreProject hproject
  | deleteEnvironment _ id projectId time htime henvironment =>
    exact h.deleteEnvironment htime henvironment fun row hrow hid =>
      h.project_of_environment hwf hrow henvironment hid
  | restoreEnvironment _ id projectId time => exact h.restoreEnvironment id time
  | deleteSecret _ id projectId environmentId time =>
    refine h.updateSecret (some time) _ fun row hrow hmatch => ?_
    simp only [Bool.and_eq_true, Option.isNone_iff_eq_none] at hmatch
    exact h.secret_active hrow hmatch.2
  | recoverSecret _ id projectId environmentId time hsecret =>
    refine h.updateSecret none _ fun row hrow hmatch => ?_
    rw [h.secret_unique hrow hsecret (by simpa using hmatch)]
    exact ⟨rfl, rfl⟩

/-- What holds of the columns of every organization. -/
structure Sound (m : Marks) : Prop where
  consistent : Consistent m
  wellFormed : WellFormed (forest m)

theorem Sound.environment_of_secret (h : Sound m) {row : SecretMark} (hrow : row ∈ m.secrets)
    (hactive : row.deletedAt = none) :
    ⟨row.environmentId, row.projectId, none, none⟩ ∈ m.environments := by
  obtain ⟨hstatus, hanc⟩ := h.consistent.status_secret hrow
  rw [SecretMark.status_eq_active.mpr hactive] at hstatus
  have hparent := h.wellFormed.active _ hstatus (.environment row.environmentId)
    (by rw [hanc]; exact List.mem_cons_self ..)
  obtain ⟨environment, hfind, henvironment⟩ := Option.map_eq_some_iff.mp hparent
  obtain ⟨hmem, hid⟩ := mem_of_find hfind
  have hdeleted := EnvironmentMark.status_eq_active.mp henvironment
  have hproject := h.consistent.project_of_environment h.wellFormed hrow hmem hid.symm
  have hby := h.consistent.environment_active hmem hdeleted
  obtain ⟨id, projectId, deletedAt, deletedByProjectAt⟩ := environment
  subst hid hproject hdeleted hby
  exact hmem

theorem Sound.project_of_environment (h : Sound m) {row : EnvironmentMark}
    (hrow : row ∈ m.environments) (hactive : row.deletedAt = none) :
    ⟨row.projectId, none⟩ ∈ m.projects := by
  obtain ⟨hstatus, hanc⟩ := h.consistent.status_environment hrow
  rw [EnvironmentMark.status_eq_active.mpr hactive] at hstatus
  have hparent := h.wellFormed.active _ hstatus (.project row.projectId)
    (by rw [hanc]; exact List.mem_singleton_self _)
  obtain ⟨project, hfind, hproject⟩ := Option.map_eq_some_iff.mp hparent
  obtain ⟨hmem, hid⟩ := mem_of_find hfind
  rw [← hid, ← ProjectMark.status_eq_active.mp hproject]
  exact hmem

/-- **A change of the columns is its action on the tree, and keeps the columns sound.** -/
theorem Change.refines (h : Sound m) {a : Action Id} (hchange : Change a m m') :
    a.Enabled (forest m) ∧ forest m' = a.apply (forest m) ∧ Sound m' := by
  have henabled := hchange.enabled h.consistent
  have hforest := hchange.forest_eq h.consistent
  refine ⟨henabled, hforest, hchange.consistent h.consistent h.wellFormed, ?_⟩
  rw [hforest]
  exact h.wellFormed.apply henabled

/-! ## Runs -/

/-- Changes that stand for allowed actions. -/
def Changes (allowed : Action Id → Prop) : Marks → Marks → Prop :=
  Relation.ReflTransGen fun m m' => ∃ a, allowed a ∧ Change a m m'

theorem Change.changes {allowed : Action Id → Prop} {a : Action Id} (hchange : Change a m m')
    (ha : allowed a) : Changes allowed m m' :=
  Relation.ReflTransGen.single ⟨a, ha, hchange⟩

theorem Changes.mono {allowed allowed' : Action Id → Prop} (h : ∀ a, allowed a → allowed' a)
    (hchanges : Changes allowed m m') : Changes allowed' m m' := by
  refine Relation.ReflTransGen.mono (fun m m' hstep => ?_) _ _ hchanges
  obtain ⟨a, ha, hchange⟩ := hstep
  exact ⟨a, h a ha, hchange⟩

theorem Changes.refines {allowed : Action Id → Prop} (h : Sound m)
    (hchanges : Changes allowed m m') : Moves allowed (forest m) (forest m') ∧ Sound m' := by
  induction hchanges with
  | refl => exact ⟨.refl, h⟩
  | tail _ hstep ih =>
    obtain ⟨a, ha, hchange⟩ := hstep
    obtain ⟨hmoves, hsound⟩ := ih
    obtain ⟨henabled, hforest, hsound'⟩ := hchange.refines hsound
    exact ⟨hmoves.tail ⟨a, ha, henabled, hforest⟩, hsound'⟩

theorem sound_empty : Sound ⟨[], [], []⟩ where
  consistent :=
    { projectIds := List.nodup_nil
      environmentIds := List.nodup_nil
      secretIds := List.nodup_nil
      projectTime := by simp
      environmentTime := by simp
      environmentByProject := by simp
      secretByProject := by simp
      secretByEnvironment := by simp }
  wellFormed := by
    have hnone : ∀ id, (forest ⟨[], [], []⟩).status id = none := by
      intro id
      cases id <;> rfl
    refine ⟨fun n hn => absurd (hnone n) hn, fun n hn => absurd (hnone n) hn,
      fun n hn => absurd (hnone n) hn, fun n hn => ?_, fun n x hn => ?_⟩
    · rw [hnone n] at hn
      cases hn
    · rw [hnone n] at hn
      cases hn

end Himitsu.Lifecycle
