import Himitsu.Library.AssocList
import Himitsu.Library.GoText

/-!
# The HimitsuSecret resource

The custom resource of the Kubernetes operator, the Kubernetes Secrets it reads and writes, and
the text of the Secret it renders.

* `HimitsuSecret` — `spec` and `status` of the resource.
* `Secret` — a Kubernetes Secret.
* `render` — the data of the target Secret for the secrets of an environment.
* `versionStampOf` — the config version noted on a target.
-/

set_option autoImplicit false

namespace Himitsu.Operator

open GoText

/-! ## The resource -/

structure SecretKeySelector where
  name : String
  key : String

/-- `unset` is the empty string; the API server lets no `unknown` text through. -/
inductive TemplateFormat where
  | unset
  | keyValue
  | dotenv
  | json
  | unknown (text : String)
  deriving DecidableEq

inductive CreationPolicy where
  | unset
  | owner
  | merge
  deriving DecidableEq

structure TemplateSpec where
  format : TemplateFormat
  key : String
  labels : List (String × String)
  annotations : List (String × String)

structure TargetSpec where
  name : String
  type : String
  creationPolicy : CreationPolicy
  template : Option TemplateSpec

/-- `refreshInterval` in nanoseconds. -/
structure HimitsuSecretSpec where
  apiURL : String
  projectID : String
  environmentID : String
  authSecretRef : SecretKeySelector
  target : TargetSpec
  refreshInterval : Int

inductive Reason where
  | synced
  | authFailure
  | fetchFailure
  | writeFailure
  | invalidSpec
  | targetConflict
  deriving DecidableEq, Repr

/-- A condition of the type `Ready`, the only type in a status. -/
structure Condition where
  status : Bool
  reason : Reason
  message : String
  observedGeneration : Nat
  lastTransitionTime : Nat

structure HimitsuSecretStatus where
  condition : Option Condition
  configVersion : Int64
  secretCount : Nat
  lastSyncTime : Option Nat
  observedGeneration : Nat

structure HimitsuSecret where
  name : String
  namespace_ : String
  uid : String
  generation : Nat
  spec : HimitsuSecretSpec
  status : HimitsuSecretStatus

def HimitsuSecretStatus.empty : HimitsuSecretStatus := ⟨none, 0, 0, none, 0⟩

/-- An empty policy means `Owner`. -/
def TargetSpec.isOwner (target : TargetSpec) : Bool := target.creationPolicy != .merge

/-! ## Kubernetes Secrets -/

structure OwnerReference where
  group : String
  kind : String
  name : String
  uid : String
  deriving DecidableEq

def HimitsuSecret.reference (resource : HimitsuSecret) : OwnerReference :=
  ⟨"himitsu.io", "HimitsuSecret", resource.name, resource.uid⟩

/-- `controller` is the reference to the controller. -/
structure Secret where
  annotations : List (String × String)
  labels : List (String × String)
  type : String
  data : List (String × ByteArray)
  controller : Option OwnerReference

def managedKeysAnnotation : String := "himitsu.io/managed-keys"
def ownerAnnotation : String := "himitsu.io/owned-by"
def configVersionAnnotation : String := "himitsu.io/config-version"
def projectIDAnnotation : String := "himitsu.io/project-id"
def environmentIDAnnotation : String := "himitsu.io/environment-id"
def ManagedByLabel : String := "app.kubernetes.io/managed-by"
def ManagedByValue : String := "himitsu-operator"

def versionStampOf (secret : Option Secret) : Int64 :=
  match secret with
  | none => 0
  | some secret =>
    (parseInt ((secret.annotations.lookup configVersionAnnotation).getD "")).getD 0

/-! ## Rendering -/

def validSecretDataKey (key : String) : Bool :=
  key != "" && key != "." && key != ".." &&
    key.toList.all fun r =>
      ('a' ≤ r && r ≤ 'z') || ('A' ≤ r && r ≤ 'Z') || ('0' ≤ r && r ≤ '9') ||
        r == '-' || r == '_' || r == '.'

section

variable (printable : Char → Bool)

def renderDotenv (secrets : List (String × String)) : String :=
  String.join <| (sortStrings (secrets.map Prod.fst)).map fun key =>
    key ++ "=" ++ quote printable ((secrets.lookup key).getD "") ++ "\n"

/-- One entry of a `KeyValue` rendering. -/
def renderEntry (entry : String × String) : Except String (String × ByteArray) :=
  if validSecretDataKey entry.1 then .ok (entry.1, entry.2.toUTF8)
  else .error ("secret key " ++ quote printable entry.1 ++
    " is not a valid Kubernetes Secret data key; use the Dotenv or Json template format for " ++
    "keys of this shape")

def render (spec : HimitsuSecretSpec) (secrets : List (String × String)) :
    Except String (List (String × ByteArray)) :=
  let templateKey := (spec.target.template.map (·.key)).getD ""
  match (spec.target.template.map (·.format)).getD .unset with
  | .unset | .keyValue => secrets.mapM (renderEntry printable)
  | .dotenv =>
    .ok [(if templateKey = "" then ".env" else templateKey,
      (renderDotenv printable secrets).toUTF8)]
  | .json =>
    .ok [(if templateKey = "" then "config.json" else templateKey, (marshalMap secrets).toUTF8)]
  | .unknown text => .error ("unknown template format " ++ quote printable text)

end

end Himitsu.Operator
