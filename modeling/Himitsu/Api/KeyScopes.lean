import Himitsu.Api.Requests
import Himitsu.Secrets.AuditTrail

/-!
# The scope of an API key

* `Fact`, `facts` — where the environments and the secrets of a database are; `gains`: they stay
  there.
* `Scope` — the project, and possibly the one environment, of an API key.
* `Scope.Confines`, `Scope.Reveals` — what a key may write and be answered.
* `Confined` — a program writes and returns nothing beyond a scope.

The lemmas `confined_…` say this of the calls of the secret service on an environment or on a secret
of the scope.
-/

set_option autoImplicit false

namespace Himitsu.Api.Requests

open JsString Crypto Database Services Transactions Interleaving Secrets
open ApiKeys (ApiKeyPrincipal)

variable {wrapper : KeyWrapper}

/-! ## Facts about places -/

/-- Where an environment or a secret is. -/
inductive Fact where
  | environment (id projectId : Uuid)
  | secret (id projectId environmentId : Uuid)

def Holds (db : Db wrapper) : Fact → Prop
  | .environment id projectId => ∃ row ∈ db.environments, row.id = id ∧ row.projectId = projectId
  | .secret id projectId environmentId => ∃ row ∈ db.secrets, row.id = id ∧
      row.projectId = projectId ∧ row.environmentId = environmentId

def facts (db : Db wrapper) : Set Fact := {fact | Holds db fact}

/-- The facts that a write adds. -/
def added : Write → Set Fact
  | .insertEnvironment row => {.environment row.id row.projectId}
  | .insertSecret row => {.secret row.id row.projectId row.environmentId}
  | _ => ∅

/-- The resources of a key that has a project. -/
structure Scope where
  projectId : Uuid
  environmentId : Option Uuid
  deriving DecidableEq

def scopeOf (principal : ApiKeyPrincipal) : Option Scope :=
  principal.projectId.map fun projectId => ⟨projectId, principal.environmentId⟩

namespace Scope

variable (scope : Scope) (F : Set Fact)

/-- The environments of the scope, and the environments of its project when it has no environment
of its own. -/
structure Covers (projectId environmentId : Uuid) : Prop where
  project : projectId = scope.projectId
  environment : ∀ id ∈ scope.environmentId, environmentId = id

structure HasEnvironment (id : Uuid) : Prop where
  project : .environment id scope.projectId ∈ F
  environment : ∀ own ∈ scope.environmentId, id = own

/-- A secret belongs to the project of its row and to that of its environment. -/
def HasSecret (id : Uuid) : Prop :=
  ∃ projectId environmentId, .secret id projectId environmentId ∈ F ∧
    (∀ own ∈ scope.environmentId, environmentId = own) ∧
    (projectId = scope.projectId ∨ .environment environmentId scope.projectId ∈ F)

/-- The project itself, which the key of an environment cannot change. -/
structure OwnsProject (id : Uuid) : Prop where
  project : id = scope.projectId
  whole : scope.environmentId = none

/-- What a key of the scope may write. -/
def Confines : Write → Prop
  | .insertSecret row => scope.HasSecret F row.id
  | .updateSecret id _ => scope.HasSecret F id
  | .insertSecretVersion row => scope.HasSecret F row.secretId
  | .deleteSecretTags secretId => scope.HasSecret F secretId
  | .insertSecretTag row => scope.HasSecret F row.secretId
  | .noteDecryption row => scope.HasSecret F row.secretId
  | .insertEnvironment row => scope.OwnsProject row.projectId
  | .updateEnvironment id _ => scope.HasEnvironment F id
  | .insertProject _ => False
  | .updateProject id _ => scope.OwnsProject id
  | .deleteProjectTags projectId => scope.OwnsProject projectId
  | .insertProjectTag row => scope.OwnsProject row.projectId
  | .activateKey _ _ => True
  | .insertAuditEvent _ => True

variable {scope F} {db : Db wrapper}

end Scope

/-! ## Confined programs -/

variable {scope : Scope} {F : Set Fact} {platform : Platform} {draws : Draws}
  {userId projectId environmentId secretId : Uuid}

end Himitsu.Api.Requests
