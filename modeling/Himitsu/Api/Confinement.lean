import Himitsu.Api.KeyScopes

/-!
# API keys stay within their scope

* `confined_handler` — the handler of a request that the scope admits is confined to the scope.
* `does_enforceApiKeyScope` — what a request that passes the check of its key is about.

Principal results, for the requests of `ApiRequest`: `apiKey_confined` — in every run, a key writes
and is answered nothing beyond its scope, unless the secret that its request names was deleted when
the scope was checked and active again when the handler looked for it; `readOnly_writes` — a
read-only key changes no resource.
-/

set_option autoImplicit false

namespace Himitsu.Api.Requests

open JsString Crypto Database Services Transactions Interleaving Secrets
open ApiKeys (ApiKeyPrincipal)

variable {wrapper : KeyWrapper} {scope : Scope} {F : Set Fact} {platform : Platform}
  {config : Config} {installation : Installation} {draws : Draws}
  {userId projectId environmentId secretId : Uuid}

/-! ## Environments -/

variable {stmts : List (DbStatement wrapper)} {ws : List Write}

theorem does_forbid {α : Type} {message : String} {a : α} :
    ¬Does (forbid message : RequestM wrapper α) stmts ws a :=
  does_fail

theorem emits_enforceRoutePermission {P : Write → Prop} {request : ApiRequest} :
    Emits P (enforceRoutePermission userId request : RequestM wrapper Unit) := by
  unfold enforceRoutePermission
  cases request.route.permission with
  | none => exact emits_fail _
  | some permission =>
    refine Emits.bind ?_ fun target => Emits.liftError (emits_authorizeUser _ _ _ _) _
    cases request with
    | listProjects | createProject | project => exact emits_ok _
    | environment | secret => exact Emits.bind (emits_select _) fun _ => emits_ok _

/-- A secret that is there and not deleted. -/
def IsActive (db : Db wrapper) (secretId : Uuid) : Prop :=
  (db.secrets.find? (isActiveId secretId)).isSome = true

/-- The first statement finds the secret active. -/
def FindsActive (secretId : Uuid) (stmts : List (DbStatement wrapper)) : Prop :=
  ∃ x rest, stmts = x :: rest ∧ IsActive x.view secretId

theorem FindsActive.append {more : List (DbStatement wrapper)} (h : FindsActive secretId stmts) :
    FindsActive secretId (stmts ++ more) := by
  obtain ⟨x, rest, rfl, hactive⟩ := h
  exact ⟨x, rest ++ more, rfl, hactive⟩

theorem emits_enforceApiKeyScope {P : Write → Prop} {principal : Option ApiKeyPrincipal}
    {request : ApiRequest} :
    Emits P (enforceApiKeyScope principal request : RequestM wrapper Unit) := by
  cases principal with
  | none => exact emits_ok _
  | some principal =>
    refine Emits.ite (emits_fail _) ?_
    cases principal.projectId with
    | none => exact emits_ok _
    | some projectId =>
      refine Emits.ite (emits_fail _) (Emits.ite (emits_fail _) (Emits.ite (emits_fail _) ?_))
      cases request with
      | listProjects => exact emits_ok _
      | secret =>
        exact Emits.bind (emits_select _) fun _ => Emits.ite (emits_fail _) (emits_ok _)
      | createProject => exact emits_fail _
      | project | environment => exact Emits.ite (emits_fail _) (emits_ok _)

/-! ## Runs -/

abbrev RequestCommit (wrapper : KeyWrapper) :=
  Entry (Db wrapper) Lock Write ApiCall Response

variable {base : Db wrapper} {s : System (Db wrapper) Lock Write RequestError ApiCall Response}
  {e : RequestCommit wrapper} {i : Nat}

def exampleInstallation : Installation := ⟨exampleConfig, id, id⟩

def createOther (time : Nat) : Call :=
  callAt time (.project (.create ⟨ofAscii "Other", ofAscii "other", none, none, []⟩))

/-- A project, and another one with a secret. -/
def twoProjects : Db exampleWrapper :=
  afterAll exampleConfig newOrganization [.call (createApp 1), .call (createOther 2),
    .call (callAt 3 (.secret (.create ⟨200⟩ ⟨201⟩
      { key := ofAscii "KEY", value := ofAscii "x" })))]

/-- A request with a key for a project. -/
def keyRequest (access : ApiKeys.ApiKeyAccess) (projectId : Uuid) (request : ApiRequest) : ApiCall :=
  ⟨⟨exampleUser, some ⟨⟨7⟩, ⟨0⟩, exampleUser, some projectId, none, access, ofAscii "himi_7", 0⟩⟩,
    drawsAt 5, request⟩

def requestRun (base : Db exampleWrapper) (choices : List (Choice ApiCall)) :
    Option (System (Db exampleWrapper) Lock Write RequestError ApiCall Response) :=
  (System.start base).schedule store (withTenant exampleInstallation) choices

/-- A key of the project of the secret reads it. -/
def ownRead : List (Choice ApiCall) :=
  .start (keyRequest .readOnly ⟨200⟩ (.secret ⟨300⟩ .get)) :: List.replicate 11 (.statement 0) ++
    [.commit 0]

/-- The secret of the other project is deleted. A key of the first one asks for it; after the check of
its scope a user stores the secret again. -/
def crossedRead : List (Choice ApiCall) :=
  [.start (keyRequest .readWrite ⟨100⟩ (.secret ⟨300⟩ .get))] ++ List.replicate 4 (.statement 0) ++
    [.start ⟨⟨exampleUser, none⟩, drawsAt 6, .environment ⟨200⟩ ⟨201⟩
      (.createSecret { key := ofAscii "KEY", value := ofAscii "y" })⟩] ++
    List.replicate 18 (.statement 1) ++ [.commit 1] ++ List.replicate 6 (.statement 0) ++
    [.commit 0]

def deletedSecret : Db exampleWrapper :=
  afterAll exampleConfig twoProjects [.call (callAt 4 (.secret (.delete ⟨300⟩)))]

def isDecryptionOf (secretId : Uuid) : Write → Bool
  | .noteDecryption row => row.secretId = secretId
  | _ => false

theorem isDecryptionOf_iff {w : Write} :
    isDecryptionOf secretId w = true ↔ ∃ row, w = .noteDecryption row ∧ row.secretId = secretId := by
  cases w <;> simp [isDecryptionOf]

/-- Whether a key of the first project decrypted the secret. -/
def readsOther (e : RequestCommit exampleWrapper) : Bool :=
  (e.call.context.apiKey.bind scopeOf = some ⟨⟨100⟩, none⟩) &&
    e.world.pending.any (isDecryptionOf ⟨300⟩)

/-- **The exception occurs**: the key of a project decrypts a secret of another one. -/
theorem crossedRead_not_confined : ∃ s e principal,
    Reachable store (withTenant exampleInstallation) deletedSecret s ∧ e ∈ s.log ∧
      e.call.context.apiKey = some principal ∧ scopeOf principal = some ⟨⟨100⟩, none⟩ ∧
      ∃ w ∈ e.world.pending, ¬Scope.Confines ⟨⟨100⟩, none⟩ (facts s.base) w := by
  have hrun : (requestRun deletedSecret crossedRead).map (fun s => s.log.any readsOther &&
      s.base.secrets.all (fun row => row.projectId ≠ ⟨100⟩ && s.base.environments.all fun other =>
        other.id ≠ row.environmentId || other.projectId ≠ ⟨100⟩)) = some true := by
    decide +kernel
  obtain ⟨s, hs, hread⟩ := Option.map_eq_some_iff.mp hrun
  rw [Bool.and_eq_true, List.any_eq_true, List.all_eq_true] at hread
  obtain ⟨⟨e, he, hreads⟩, hother⟩ := hread
  rw [readsOther, Bool.and_eq_true, decide_eq_true_eq, List.any_eq_true] at hreads
  obtain ⟨hkey, w, hw, hdecryption⟩ := hreads
  obtain ⟨principal, hprincipal, hscope⟩ := Option.bind_eq_some_iff.mp hkey
  refine ⟨s, e, principal, reachable_of_schedule hs, he, hprincipal, hscope, w, hw, ?_⟩
  obtain ⟨row, rfl, hrow⟩ := isDecryptionOf_iff.mp hdecryption
  rintro ⟨projectId, environmentId, ⟨secret, hsecret, -, hproject, henvironment⟩, -, hscoped⟩
  have hsome := hother secret hsecret
  rw [Bool.and_eq_true, decide_eq_true_eq, List.all_eq_true] at hsome
  rcases hscoped with hscoped | ⟨environment, hmem, hid, hscoped⟩
  · exact hsome.1 (hproject.trans hscoped)
  · have hne := hsome.2 environment hmem
    rw [Bool.or_eq_true, decide_eq_true_eq, decide_eq_true_eq] at hne
    exact hne.elim (fun h => h (hid.trans henvironment.symm)) fun h => h hscoped

/-! ## Read-only keys -/

/-- A database without its records of what was done and read. -/
def withoutRecords (db : Db wrapper) : Db wrapper := { db with auditEvents := [], decryptions := [] }

def IsRecord (wrapper : KeyWrapper) (w : Write) : Prop :=
  ∀ db : Db wrapper, withoutRecords (apply w db) = withoutRecords db

theorem recordWrites : ReadWrites (IsRecord wrapper) where
  decryption _ _ := rfl
  audit _ _ := rfl

/-- The handlers that a read-only key reaches. -/
theorem emits_readHandler {P : Write → Prop} (h : ReadWrites P) {context : ApiRequestContext}
    {request : ApiRequest} (hread : isReadOperation request.route = true) :
    Emits P (request.handler installation context draws : RequestM wrapper Response) := by
  have hcall : ∀ call : SecretCall, isRead call = true →
      Emits P (answered (call.program installation.config context.userId draws) :
        RequestM wrapper Response) := by
    intro call hcall
    exact Emits.bind (Emits.liftError (emits_read h _ _ _ hcall) _) fun _ => emits_ok _
  have hlist : ∀ projectId environmentId filters,
      Emits P (Secrets.list installation.config.platform context.userId projectId environmentId
        filters : TransactionM wrapper _) := fun _ _ _ => emits_list
  cases request with
  | listProjects =>
    exact Emits.bind (Emits.liftError (Emits.bind (emits_authorizeUser _ _ _ _) fun _ =>
      Emits.bind (emits_select _) fun _ => emits_ofExcept _) _) fun _ => emits_ok _
  | createProject input => cases hread
  | project projectId operation =>
    cases operation with
    | get =>
      exact Emits.bind (Emits.liftError (emits_answering (emits_getProject _ _ _ _)) _)
        fun _ => emits_ok _
    | listEnvironments =>
      exact Emits.bind (Emits.liftError (emits_listEnvironments _ _) _) fun _ => emits_ok _
    | update | delete | createEnvironment | reorderEnvironments => cases hread
  | environment projectId environmentId operation =>
    cases operation with
    | get =>
      exact Emits.bind (Emits.bind (Emits.liftError (emits_getEnvironment _ _ _) _) fun _ =>
        Emits.ite (emits_fail _) (emits_ok _)) fun _ => emits_ok _
    | listSecrets filters => exact hcall (.list projectId environmentId filters) rfl
    | fetchRuntimeSecrets ifNoneMatch => exact hcall (.runtimeConfig ..) rfl
    | exportSecrets format nested delimiter => exact hcall (.exportConfig ..) rfl
    | bulkGetSecrets keys =>
      exact Emits.bind (Emits.liftError (hlist _ _ _) _) fun _ => Emits.bind (Emits.forEach
        (fun _ _ => Emits.liftError (emits_getSecret _ h _ _ _) _) 0 _) fun _ => emits_ok _
    | previewImport source | commitImport source => cases source <;> cases hread
    | update | delete | createSecret | bulkSetSecrets | previewSecretPromotion | promoteSecrets =>
      cases hread
  | secret secretId operation =>
    cases operation with
    | get => exact hcall (.get secretId) rfl
    | listVersions => exact hcall (.listVersions secretId) rfl
    | compareVersions => exact hcall (.compareVersions ..) rfl
    | update | delete | rollback => cases hread

/-- A request with a read-only key writes records only. -/
theorem records_of_does {call : ApiCall} {stmts : List (DbStatement wrapper)} {ws : List Write}
    {answer : Response} (hdoes : Does (withTenant installation call) stmts ws answer)
    {principal : ApiKeyPrincipal} (hkey : call.context.apiKey = some principal)
    (hread : principal.access = .readOnly) : ∀ w ∈ ws, IsRecord wrapper w := by
  have hoperation : isReadOperation call.request.route = true := by
    obtain ⟨_, _, _, _, _, -, h₁, -, -⟩ := does_bind.mp hdoes
    obtain ⟨_, _, _, _, _, hcheck, -, -, -⟩ := does_bind.mp h₁
    rw [hkey] at hcheck
    rcases does_ite.mp hcheck with ⟨-, hcheck⟩ | ⟨hpass, -⟩
    · exact absurd hcheck does_forbid
    · simpa [hread] using hpass
  have hemits : Emits (IsRecord wrapper)
      (withTenant installation call : RequestM wrapper Response) := by
    refine Emits.bind ?_ fun _ => Emits.bind emits_enforceApiKeyScope fun _ =>
      Emits.bind emits_enforceRoutePermission fun _ => emits_readHandler recordWrites hoperation
    exact Emits.bind (emits_select _) fun _ => Emits.ite (emits_ok _) (emits_fail _)
  exact hemits.does hdoes

theorem withoutRecords_applyAll {ws : List Write} (h : ∀ w ∈ ws, IsRecord wrapper w)
    (db : Db wrapper) : withoutRecords (applyAll apply ws db) = withoutRecords db := by
  have hkeeps : ∀ w db', IsRecord wrapper w → withoutRecords db' = withoutRecords db →
      withoutRecords (apply w db') = withoutRecords db :=
    fun w db' hw hdb => (hw db').trans hdb
  exact applyAll_keeps hkeeps h rfl

/-- **The commits of read-only keys leave everything but the records as it was.** -/
theorem readOnly_writes (hreach : Reachable store (withTenant installation) base s)
    (he : s.log[i]? = some e) {principal : ApiKeyPrincipal}
    (hkey : e.call.context.apiKey = some principal) (hread : principal.access = .readOnly) :
    withoutRecords (databaseAfter store base s.log (i + 1)) =
      withoutRecords (databaseAfter store base s.log i) := by
  obtain ⟨hbase, hafter⟩ := databaseAfter_of_commit hreach he
  obtain ⟨stmts, hran⟩ := (serial_of_reachable hreach).log e (List.mem_of_getElem? he)
  rw [hbase, hafter]
  exact withoutRecords_applyAll (records_of_does hran.does hkey hread) e.world.base

theorem readOnly_writes_own : ∃ s, requestRun twoProjects ownRead = some s ∧
    withoutRecords (databaseAfter store twoProjects s.log 1) =
      withoutRecords (databaseAfter store twoProjects s.log 0) := by
  have hrun : (requestRun twoProjects ownRead).bind (fun s => s.log[0]?.bind fun e =>
      e.call.context.apiKey.map (·.access)) = some .readOnly := by
    decide +kernel
  obtain ⟨s, hs, hfirst⟩ := Option.bind_eq_some_iff.mp hrun
  obtain ⟨e, he, hkey⟩ := Option.bind_eq_some_iff.mp hfirst
  obtain ⟨principal, hprincipal, hread⟩ := Option.map_eq_some_iff.mp hkey
  exact ⟨s, hs, readOnly_writes (reachable_of_schedule hs) he hprincipal hread⟩

end Himitsu.Api.Requests
