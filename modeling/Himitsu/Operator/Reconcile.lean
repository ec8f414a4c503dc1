import Himitsu.Library.Except
import Himitsu.Operator.HimitsuSecret

/-!
# Reconcile

One pass of the operator over one `HimitsuSecret`, with every call it makes to Kubernetes and to
the API able to fail.

* `Libraries` — what the controller takes from libraries, with what their documentation says.
* `Cluster` — the resource, the Secrets of its namespace, and the environments that the API
  serves, each with the versions it has had.
* `Faults` — how the calls of one pass end; a write can also take effect and report an error.
* `runtimeConfig` — the client's conditional fetch against the API.
* `writeTarget`, `succeed`, `fail`, `reconcile` — the controller.
* `reconcile_cases` — what one pass can do.
-/

set_option autoImplicit false

namespace Himitsu.Operator

open GoText AssocList

/-! ## Libraries -/

/-- The two references name one object. -/
def OwnerReference.SameObject (a b : OwnerReference) : Prop :=
  a.group = b.group ∧ a.kind = b.kind ∧ a.name = b.name

instance (a b : OwnerReference) : Decidable (a.SameObject b) :=
  inferInstanceAs (Decidable (_ ∧ _ ∧ _))

/-- What the controller takes from libraries: the table of `strconv.IsPrint`, and the controller
reference that `controllerutil.SetControllerReference` leaves. It sets the owner's unless another
object is the controller. -/
structure Libraries where
  printable : Char → Bool
  setControllerReference : OwnerReference → Option OwnerReference → Except String OwnerReference
  sets : ∀ owner existing, (∀ reference ∈ existing, reference.SameObject owner) →
    setControllerReference owner existing = .ok owner
  refuses : ∀ owner reference, ¬ reference.SameObject owner →
    ∃ message, setControllerReference owner (some reference) = .error message

/-- A reference that is set is the owner's. -/
theorem Libraries.eq_owner {libraries : Libraries} {owner reference : OwnerReference}
    {existing : Option OwnerReference}
    (h : libraries.setControllerReference owner existing = .ok reference) : reference = owner := by
  have hsets : (∀ other ∈ existing, other.SameObject owner) → reference = owner := fun hsame =>
    Except.ok.inj (h.symm.trans (libraries.sets owner existing hsame))
  cases existing with
  | none => exact hsets fun _ hother => nomatch hother
  | some other =>
    by_cases hsame : other.SameObject owner
    · exact hsets fun _ hother => Option.some.inj hother ▸ hsame
    · obtain ⟨message, hmessage⟩ := libraries.refuses owner other hsame
      rw [h] at hmessage
      cases hmessage

/-- The controller of a Secret is replaced by one of the same name, and by no other. -/
def exampleReference (owner : OwnerReference) :
    Option OwnerReference → Except String OwnerReference
  | none => .ok owner
  | some reference =>
    if reference.SameObject owner then .ok owner
    else .error "already owned by another controller"

def exampleLibraries : Libraries where
  printable _ := false
  setControllerReference := exampleReference
  sets owner existing hsame := by
    cases existing with
    | none => rfl
    | some reference => exact if_pos (hsame reference rfl)
  refuses _ _ hother := ⟨_, if_neg hother⟩

/-! ## The cluster -/

/-- An environment as the API names it. -/
structure Source where
  apiURL : String
  projectID : String
  environmentID : String
  deriving DecidableEq

def HimitsuSecretSpec.source (spec : HimitsuSecretSpec) : Source :=
  ⟨spec.apiURL, spec.projectID, spec.environmentID⟩

/-- A config version of an environment and the secrets it stands for. -/
structure Release where
  version : Int64
  secrets : List (String × String)

/-- The newest release of an environment comes first; one without releases does not exist. -/
structure Cluster where
  resource : HimitsuSecret
  secrets : List (String × Secret)
  releases : Source → List Release

/-- Where a call fails: with which message, and for a fetch whether it says 401 or 403. -/
structure ApiError where
  isAuth : Bool
  message : String

/-- How a write ends; after `lost` it has taken effect, and the caller sees an error. -/
inductive WriteReply where
  | ok
  | conflict
  | notFound
  | rejected (message : String)
  | lost (message : String)

structure Faults where
  now : Nat
  getResource : Option String
  readAuthSecret : Option String
  readTarget : Option String
  fetch : Option ApiError
  writeTarget : WriteReply
  updateStatus : WriteReply

inductive Result where
  | requeueAfter (nanoseconds : Int)
  | requeue
  | done
  | error (message : String)

/-- The cluster after a pass, its result, and the status that it stored. -/
structure Pass where
  cluster : Cluster
  result : Result
  recorded : Option HimitsuSecretStatus

/-! ## Reading -/

section

variable (libraries : Libraries)

def resolveToken (faults : Faults) (c : Cluster) : Except String String :=
  let ref := c.resource.spec.authSecretRef
  let key := if ref.key = "" then "token" else ref.key
  let name := c.resource.namespace_ ++ "/" ++ ref.name
  match faults.readAuthSecret, c.secrets.lookup ref.name with
  | some message, _ => .error ("reading auth secret " ++ name ++ ": " ++ message)
  | none, none => .error ("auth secret " ++ name ++ " not found")
  | none, some secret =>
    match secret.data.lookup key with
    | none => .error ("auth secret " ++ name ++ " has no key " ++ quote libraries.printable key)
    | some raw =>
      let token := trimSpace ((String.fromUTF8? raw).getD "")
      if token = "" then
        .error ("auth secret " ++ name ++ " key " ++ quote libraries.printable key ++ " is empty")
      else .ok token

def loadTarget (faults : Faults) (c : Cluster) : Except String (Option Secret) :=
  match faults.readTarget with
  | some message =>
    .error ("reading target secret " ++ c.resource.namespace_ ++ "/" ++
      c.resource.spec.target.name ++ ": " ++ message)
  | none => .ok (c.secrets.lookup c.resource.spec.target.name)

/-- `none` where the target may be written. -/
def checkOwnership (resource : HimitsuSecret) (existing : Secret) : Option String :=
  let owner := (existing.annotations.lookup ownerAnnotation).getD ""
  if owner = "" ∨ owner = resource.name then none
  else some ("secret " ++ resource.namespace_ ++ "/" ++ resource.spec.target.name ++
    " is already managed by HimitsuSecret " ++ quote libraries.printable owner)

/-- The version that the fetch names, 0 for a full fetch. -/
def knownVersion (resource : HimitsuSecret) (existing : Option Secret) : Int64 :=
  if existing.isSome ∧ resource.status.configVersion > 0 ∧
      resource.status.observedGeneration = resource.generation ∧
      versionStampOf existing = resource.status.configVersion then
    resource.status.configVersion
  else 0

inductive RuntimeConfig where
  | notModified (configVersion : Int64)
  | modified (configVersion : Int64) (secrets : List (String × String))

def requireID (label value : String) : Except ApiError Unit :=
  if trimSpace value = "" then .error ⟨false, "himitsu: " ++ label ++ " is required"⟩
  else .ok ()

/-- `Client.RuntimeConfig`; the API answers 304 exactly where its version is the one named. -/
def runtimeConfig (faults : Faults) (c : Cluster) (known : Int64) :
    Except ApiError RuntimeConfig := do
  requireID "project id" c.resource.spec.projectID
  requireID "environment id" c.resource.spec.environmentID
  match faults.fetch, c.releases c.resource.spec.source with
  | some error, _ => .error error
  | none, [] => .error ⟨false, "Environment not found"⟩
  | none, release :: _ =>
    if known > 0 ∧ release.version = known then .ok (.notModified release.version)
    else .ok (.modified release.version release.secrets)

/-! ## Writing -/

def previouslyManaged (annotations : List (String × String)) : List String :=
  let raw := (annotations.lookup managedKeysAnnotation).getD ""
  if raw = "" then [] else raw.splitOn ","

/-- The annotations that the controller sets before it writes the data. -/
def targetAnnotations (resource : HimitsuSecret) (configVersion : Int64)
    (annotations : List (String × String)) : List (String × String) :=
  let templated := setAll annotations ((resource.spec.target.template.map (·.annotations)).getD [])
  let owned := set templated ownerAnnotation resource.name
  let stamped := set owned configVersionAnnotation (formatInt configVersion)
  set (set stamped projectIDAnnotation resource.spec.projectID)
    environmentIDAnnotation resource.spec.environmentID

/-- Foreign keys stay; of the keys written before, those that are gone upstream go. -/
def mergeData (annotations : List (String × String)) (data rendered : List (String × ByteArray)) :
    List (String × ByteArray) :=
  let stale := (previouslyManaged annotations).filter fun key => (rendered.lookup key).isNone
  setAll (stale.foldl erase data) rendered

/-- The Secret that `writeTarget` sends. -/
def prepareTarget (resource : HimitsuSecret) (existing : Option Secret)
    (rendered : List (String × ByteArray)) (configVersion : Int64) : Except String Secret :=
  let target := resource.spec.target
  let secret := existing.getD ⟨[], [], "", [], none⟩
  let prepared := targetAnnotations resource configVersion secret.annotations
  let annotations := set prepared managedKeysAnnotation
    (",".intercalate (sortStrings (rendered.map Prod.fst)))
  let labels := set (setAll secret.labels ((target.template.map (·.labels)).getD []))
    ManagedByLabel ManagedByValue
  let type := if target.type ≠ "" then target.type
    else if secret.type = "" then "Opaque" else secret.type
  if target.isOwner then
    match libraries.setControllerReference resource.reference secret.controller with
    | .ok reference => .ok ⟨annotations, labels, type, rendered, some reference⟩
    | .error message => .error ("preparing secret " ++ resource.namespace_ ++ "/" ++ target.name ++
      ": setting controller reference: " ++ message)
  else .ok ⟨annotations, labels, type, mergeData prepared secret.data rendered,
    secret.controller⟩

/-- How the write of the target ended for the caller. -/
inductive WriteError where
  | conflict
  | failed (message : String)

def writeAction (resource : HimitsuSecret) (existing : Option Secret) : String :=
  (if existing.isSome then "updating" else "creating") ++ " secret " ++
    resource.namespace_ ++ "/" ++ resource.spec.target.name ++ ": "

/-- `Update` of an existing Secret, `Create` of a new one; a Secret that appeared in between is a
conflict too. -/
def writeTarget (faults : Faults) (c : Cluster) (existing : Option Secret)
    (rendered : List (String × ByteArray)) (configVersion : Int64) :
    Cluster × Option WriteError :=
  let action := writeAction c.resource existing
  match prepareTarget libraries c.resource existing rendered configVersion with
  | .error message => (c, some (.failed message))
  | .ok secret =>
    let written := { c with secrets := set c.secrets c.resource.spec.target.name secret }
    match faults.writeTarget with
    | .ok => (written, none)
    | .conflict => (c, some .conflict)
    | .notFound => (c, some (.failed (action ++ "not found")))
    | .rejected message => (c, some (.failed (action ++ message)))
    | .lost message => (written, some (.failed (action ++ message)))

/-! ## Status -/

/-- The transition time stays where the status stays. -/
def setCondition (resource : HimitsuSecret) (now : Nat) (status : Bool) (reason : Reason)
    (message : String) : Condition :=
  let since := match resource.status.condition with
    | some existing => if existing.status = status then existing.lastTransitionTime else now
    | none => now
  ⟨status, reason, message, resource.generation, since⟩

def errorRequeue : Int := 30 * 1000000000

def defaultRefresh : Int := 60 * 1000000000

def refreshInterval (resource : HimitsuSecret) : Int :=
  if resource.spec.refreshInterval < 0 then defaultRefresh else resource.spec.refreshInterval

def Cluster.withStatus (c : Cluster) (status : HimitsuSecretStatus) : Cluster :=
  { c with resource := { c.resource with status := status } }

/-- `Status().Update` and the result of the pass. -/
def updateStatus (faults : Faults) (c : Cluster) (status : HimitsuSecretStatus)
    (requeueAfter : Int) : Pass :=
  match faults.updateStatus with
  | .ok => ⟨c.withStatus status, .requeueAfter requeueAfter, some status⟩
  | .conflict => ⟨c, .error "conflict", none⟩
  | .notFound => ⟨c, .done, none⟩
  | .rejected message => ⟨c, .error message, none⟩
  | .lost message => ⟨c.withStatus status, .error message, some status⟩

def succeededStatus (resource : HimitsuSecret) (now : Nat) (configVersion : Int64)
    (secretCount : Nat) : HimitsuSecretStatus :=
  { configVersion := configVersion
    secretCount := secretCount
    lastSyncTime := some now
    observedGeneration := resource.generation
    condition := some <| setCondition resource now true .synced
      ("Synced " ++ toString secretCount ++ " keys at config version " ++
        formatInt configVersion) }

def failedStatus (resource : HimitsuSecret) (now : Nat) (reason : Reason) (message : String) :
    HimitsuSecretStatus :=
  { resource.status with
    condition := some (setCondition resource now false reason message)
    observedGeneration := resource.generation }

def succeed (faults : Faults) (c : Cluster) (configVersion : Int64) (secretCount : Nat) : Pass :=
  updateStatus faults c (succeededStatus c.resource faults.now configVersion secretCount)
    (refreshInterval c.resource)

def fail (faults : Faults) (c : Cluster) (reason : Reason) (message : String) : Pass :=
  updateStatus faults c (failedStatus c.resource faults.now reason message) errorRequeue

/-! ## The pass -/

/-- `ClientFactory`: it rejects a URL or a token that is malformed. -/
abbrev ClientFactory := String → String → Except String Unit

/-- The pass from the fetch on. -/
def fetchAndWrite (faults : Faults) (c : Cluster) (existing : Option Secret) : Pass :=
  match runtimeConfig faults c (knownVersion c.resource existing) with
  | .error error =>
    fail faults c (if error.isAuth then .authFailure else .fetchFailure) error.message
  | .ok (.notModified configVersion) =>
    succeed faults c configVersion c.resource.status.secretCount
  | .ok (.modified configVersion secrets) =>
    match render libraries.printable c.resource.spec secrets with
    | .error message => fail faults c .invalidSpec message
    | .ok rendered =>
      match writeTarget libraries faults c existing rendered configVersion with
      | (written, none) => succeed faults written configVersion secrets.length
      | (written, some .conflict) => ⟨written, .requeue, none⟩
      | (written, some (.failed message)) => fail faults written .writeFailure message

variable (factory : ClientFactory)

def reconcile (faults : Faults) (c : Cluster) : Pass :=
  match faults.getResource with
  | some message => ⟨c, .error message, none⟩
  | none =>
    match resolveToken libraries faults c with
    | .error message => fail faults c .authFailure message
    | .ok token =>
      match factory c.resource.spec.apiURL token with
      | .error message => fail faults c .invalidSpec message
      | .ok () =>
        match loadTarget faults c with
        | .error message => fail faults c .writeFailure message
        | .ok existing =>
          match existing.bind (checkOwnership libraries c.resource) with
          | some conflict => fail faults c .targetConflict conflict
          | none => fetchAndWrite libraries faults c existing

end

/-! ## What a pass can do -/

section

variable {libraries : Libraries} {factory : ClientFactory}

/-- The target holds the newest release, as the current spec renders it. -/
def WroteTarget (libraries : Libraries) (c d : Cluster) (release : Release) : Prop :=
  ∃ existing rendered secret, (∃ older, c.releases c.resource.spec.source = release :: older) ∧
    render libraries.printable c.resource.spec release.secrets = .ok rendered ∧
    prepareTarget libraries c.resource existing rendered release.version = .ok secret ∧
    d = { c with secrets := set c.secrets c.resource.spec.target.name secret }

/-- A pass leaves the target or writes it, and stores no status, a failed one or a synced one. -/
inductive PassCase (libraries : Libraries) (c : Cluster) (p : Pass) : Prop where
  | unrecorded (hp : p.recorded = none)
      (hd : p.cluster = c ∨ ∃ release, WroteTarget libraries c p.cluster release)
  | failed (d : Cluster) (now : Nat) (reason : Reason) (message : String)
      (hp : p.recorded = some (failedStatus c.resource now reason message))
      (hd : d = c ∨ ∃ release, WroteTarget libraries c d release)
      (hc : p.cluster = d.withStatus (failedStatus c.resource now reason message))
  | notModified (release : Release) (older : List Release) (now count : Nat)
      (hp : p.recorded = some (succeededStatus c.resource now release.version count))
      (hreleases : c.releases c.resource.spec.source = release :: older)
      (hknown : knownVersion c.resource (c.secrets.lookup c.resource.spec.target.name) =
        release.version)
      (hpos : 0 < release.version)
      (hc : p.cluster = c.withStatus (succeededStatus c.resource now release.version count))
  | synced (d : Cluster) (release : Release) (now count : Nat)
      (hp : p.recorded = some (succeededStatus c.resource now release.version count))
      (hd : WroteTarget libraries c d release)
      (hc : p.cluster = d.withStatus (succeededStatus c.resource now release.version count))

theorem WroteTarget.resource {c d : Cluster} {release : Release}
    (h : WroteTarget libraries c d release) : d.resource = c.resource := by
  obtain ⟨existing, rendered, secret, -, -, -, rfl⟩ := h
  rfl

theorem updateStatus_cases (faults : Faults) (d : Cluster) (status : HimitsuSecretStatus)
    (requeueAfter : Int) :
    ((updateStatus faults d status requeueAfter).recorded = none ∧
      (updateStatus faults d status requeueAfter).cluster = d) ∨
    ((updateStatus faults d status requeueAfter).recorded = some status ∧
      (updateStatus faults d status requeueAfter).cluster = d.withStatus status) := by
  unfold updateStatus
  cases faults.updateStatus with
  | ok => exact .inr ⟨rfl, rfl⟩
  | conflict => exact .inl ⟨rfl, rfl⟩
  | notFound => exact .inl ⟨rfl, rfl⟩
  | rejected message => exact .inl ⟨rfl, rfl⟩
  | lost message => exact .inr ⟨rfl, rfl⟩

theorem fail_case {c d : Cluster} (faults : Faults) (reason : Reason) (message : String)
    (hd : d = c ∨ ∃ release, WroteTarget libraries c d release) :
    PassCase libraries c (fail faults d reason message) := by
  have hresource : d.resource = c.resource := by
    obtain rfl | ⟨release, hwrote⟩ := hd
    · rfl
    · exact hwrote.resource
  unfold fail
  rw [hresource]
  obtain ⟨hp, hc⟩ | ⟨hp, hc⟩ := updateStatus_cases faults d
    (failedStatus c.resource faults.now reason message) errorRequeue
  · exact .unrecorded hp (by rw [hc]; exact hd)
  · exact .failed d faults.now reason message hp hd hc

theorem synced_case {c d : Cluster} {release : Release} (faults : Faults) (count : Nat)
    (hd : WroteTarget libraries c d release) :
    PassCase libraries c (succeed faults d release.version count) := by
  unfold succeed
  rw [hd.resource]
  obtain ⟨hp, hc⟩ | ⟨hp, hc⟩ := updateStatus_cases faults d
    (succeededStatus c.resource faults.now release.version count) (refreshInterval c.resource)
  · exact .unrecorded hp (.inr ⟨release, by rw [hc]; exact hd⟩)
  · exact .synced d release faults.now count hp hd hc

theorem writeTarget_cases {c d : Cluster} {existing : Option Secret} {error : Option WriteError}
    {rendered : List (String × ByteArray)} {release : Release} {older : List Release}
    (faults : Faults) (hreleases : c.releases c.resource.spec.source = release :: older)
    (hrender : render libraries.printable c.resource.spec release.secrets = .ok rendered)
    (h : writeTarget libraries faults c existing rendered release.version = (d, error)) :
    WroteTarget libraries c d release ∨ d = c ∧ error.isSome := by
  unfold writeTarget at h
  split at h
  · cases h
    exact .inr ⟨rfl, rfl⟩
  · rename_i secret hsecret
    have hwrote : WroteTarget libraries c
        { c with secrets := set c.secrets c.resource.spec.target.name secret } release :=
      ⟨existing, rendered, secret, ⟨older, hreleases⟩, hrender, hsecret, rfl⟩
    split at h <;> cases h
    · exact .inl hwrote
    · exact .inr ⟨rfl, rfl⟩
    · exact .inr ⟨rfl, rfl⟩
    · exact .inr ⟨rfl, rfl⟩
    · exact .inl hwrote

theorem runtimeConfig_cases {faults : Faults} {c : Cluster} {known : Int64}
    {config : RuntimeConfig} (h : runtimeConfig faults c known = .ok config) :
    ∃ release older, c.releases c.resource.spec.source = release :: older ∧
      ((config = .notModified release.version ∧ known = release.version ∧ 0 < known) ∨
        config = .modified release.version release.secrets) := by
  unfold runtimeConfig at h
  obtain ⟨-, -, h⟩ := Except.bind_eq_ok_iff.mp h
  obtain ⟨-, -, h⟩ := Except.bind_eq_ok_iff.mp h
  split at h
  · cases h
  · cases h
  · rename_i release older hfetch hreleases
    refine ⟨release, older, hreleases, ?_⟩
    split at h
    · rename_i hknown
      cases h
      exact .inl ⟨rfl, hknown.2.symm, hknown.1⟩
    · cases h
      exact .inr rfl

theorem fetchAndWrite_case (faults : Faults) (c : Cluster) :
    PassCase libraries c
      (fetchAndWrite libraries faults c (c.secrets.lookup c.resource.spec.target.name)) := by
  unfold fetchAndWrite
  split
  · exact fail_case faults _ _ (.inl rfl)
  · rename_i version hconfig
    obtain ⟨release, older, hreleases, ⟨hversion, hknown, hpos⟩ | hversion⟩ :=
      runtimeConfig_cases hconfig
    · cases hversion
      unfold succeed
      obtain ⟨hp, hc⟩ | ⟨hp, hc⟩ := updateStatus_cases faults c
        (succeededStatus c.resource faults.now release.version c.resource.status.secretCount)
        (refreshInterval c.resource)
      · exact .unrecorded hp (.inl hc)
      · exact .notModified release older _ _ hp hreleases hknown (hknown ▸ hpos) hc
    · cases hversion
  · rename_i version secrets hconfig
    obtain ⟨release, older, hreleases, ⟨hversion, -, -⟩ | hversion⟩ := runtimeConfig_cases hconfig
    · cases hversion
    · cases hversion
      split
      · exact fail_case faults _ _ (.inl rfl)
      · rename_i rendered hrender
        split
        · rename_i written hwrite
          obtain hwrote | ⟨-, herror⟩ := writeTarget_cases faults hreleases hrender hwrite
          · exact synced_case faults _ hwrote
          · cases herror
        · rename_i written hwrite
          refine .unrecorded rfl ?_
          obtain hwrote | ⟨rfl, -⟩ := writeTarget_cases faults hreleases hrender hwrite
          · exact .inr ⟨release, hwrote⟩
          · exact .inl rfl
        · rename_i written message hwrite
          refine fail_case faults _ _ ?_
          obtain hwrote | ⟨rfl, -⟩ := writeTarget_cases faults hreleases hrender hwrite
          · exact .inr ⟨release, hwrote⟩
          · exact .inl rfl

variable (libraries factory) in
/-- **What one pass can do.** -/
theorem reconcile_cases (faults : Faults) (c : Cluster) :
    PassCase libraries c (reconcile libraries factory faults c) := by
  unfold reconcile
  split
  · exact .unrecorded rfl (.inl rfl)
  · split
    · exact fail_case faults _ _ (.inl rfl)
    · split
      · exact fail_case faults _ _ (.inl rfl)
      · split
        · exact fail_case faults _ _ (.inl rfl)
        · rename_i existing htarget
          split
          · exact fail_case faults _ _ (.inl rfl)
          · have hexisting : existing = c.secrets.lookup c.resource.spec.target.name := by
              unfold loadTarget at htarget
              split at htarget
              · cases htarget
              · exact (Except.ok.inj htarget).symm
            rw [hexisting]
            exact fetchAndWrite_case faults c

end

end Himitsu.Operator
