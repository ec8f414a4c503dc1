import Himitsu.Api.Requests

/-!
# Requests with API keys

The transactions of an installation, with those of the routes of API keys: model of
`registerApiKeyRoutes`, of what `enforceApiKeyScope` and `enforceRoutePermission` do on these routes,
and of the end of `authenticateRequest`, of `apps/api/src/index.ts`.

* `KeyRequest` — a request to a route of API keys.
* `Others` — the transactions that have no statement on keys.
* `Call`, `program` — all transactions of an organization.
-/

set_option autoImplicit false

namespace Himitsu.Api.KeyRequests

open JsString Crypto Database Services Transactions ApiKeys Requests

/-! ## Routes -/

inductive KeyRequest where
  | list
  | create (input : CreateInput) (token : TokenDraws)
  | revoke (apiKeyId : Uuid)

def KeyRequest.route : KeyRequest → Route
  | .list => .listApiKeys
  | .create .. => .createApiKey
  | .revoke _ => .revokeApiKey

variable {wrapper : KeyWrapper}

/-- `enforceApiKeyScope` on the paths under `/api/v1/api-keys`. -/
def enforceApiKeyScope (principal : Option ApiKeyPrincipal) (request : KeyRequest) :
    RequestM wrapper Unit :=
  match principal with
  | none => pure ()
  | some principal =>
    if principal.access = .readOnly && !isReadOperation request.route then
      forbid "API key does not permit writes"
    else if principal.projectId.isSome then
      forbid "API key scope does not include organization resources"
    else pure ()

/-- The project of the body of `createApiKey`, and whether its environment is protected. -/
def authorizationTarget (request : KeyRequest) : RequestM wrapper (Option Uuid × Bool) :=
  match request with
  | .create input _ =>
    match input.environmentId with
    | none => pure (input.projectId, false)
    | some environmentId => do
      let found ← Prog.select fun db : Db wrapper =>
        db.environments.find? fun row => row.id = environmentId && row.deletedAt.isNone
      pure ((found.map (·.projectId)).or input.projectId, (found.map (·.isProtected)).getD false)
  | _ => pure (none, false)

def enforceRoutePermission (userId : Uuid) (request : KeyRequest) : RequestM wrapper Unit :=
  match request.route.permission with
  | none => .fail (.api ⟨500, ofAscii "AUTHORIZATION_POLICY_MISSING",
      ofAscii "Route authorization policy is missing", .none⟩)
  | some permission => do
    let target ← authorizationTarget request
    serve (authorizeUser userId target.1 target.2 permission)

/-- What the transactions throw. -/
inductive KeyError where
  | request (error : RequestError)
  | service (failure : Failure)

inductive KeyResponse where
  | response (response : Response)
  | listed (keys : List ApiKey)
  | created (key : CreatedApiKey)
  | revoked (key : ApiKey)
  | authenticated (result : Except ApiKeyError ApiKeyPrincipal)
  | other

abbrev KeyRequestM (wrapper : KeyWrapper) := Prog (Tables wrapper) TableLock TableWrite KeyError

/-- A step of a request on the other tables. -/
def onTenant {α : Type} (p : RequestM wrapper α) : KeyRequestM wrapper α :=
  (p.liftError .request).within Tables.db .tenant .tenant

/-- A step of the service of API keys. -/
def onKeys {α : Type} (p : KeyM wrapper α) : KeyRequestM wrapper α := p.liftError .service

def KeyRequest.handler (digest : JsString → Bytes) (userId : Uuid) (draws : Draws) :
    KeyRequest → KeyRequestM wrapper KeyResponse
  | .list => do
    let all ← onKeys (ApiKeyService.list userId)
    pure (.listed all)
  | .create input token => do
    let created ← onKeys (ApiKeyService.create digest draws token userId input)
    pure (.created created)
  | .revoke apiKeyId => do
    let revoked ← onKeys (ApiKeyService.revoke draws userId apiKeyId)
    pure (.revoked revoked)

/-- `withTenant` on the routes of API keys. -/
def withTenantKeys (digest : JsString → Bytes) (context : ApiRequestContext) (draws : Draws)
    (request : KeyRequest) : KeyRequestM wrapper KeyResponse := do
  onTenant (requireMembership context.userId)
  onTenant (enforceApiKeyScope context.apiKey request)
  onTenant (enforceRoutePermission context.userId request)
  request.handler digest context.userId draws

/-- The context that `authenticateRequest` makes of a principal. -/
def contextOf (principal : ApiKeyPrincipal) : ApiRequestContext :=
  ⟨principal.userId, some principal⟩

/-! ## All transactions -/

/-- The transactions of the other routes and of the operators: no other service has a statement on
`api_keys`. -/
structure Others (wrapper : KeyWrapper) (χ : Type) where
  program : χ → KeyRequestM wrapper Unit
  quiet : ∀ call, Emits (fun w => w.onKeys = false) (program call)

inductive Call (χ : Type) where
  | request (call : ApiCall)
  | keys (context : ApiRequestContext) (draws : Draws) (request : KeyRequest)
  | authenticate (token : JsString) (request : Attempt)
  | other (call : χ)

variable {χ : Type} (installation : Installation) (digest : JsString → Bytes)
  (others : Others wrapper χ)

def program : Call χ → KeyRequestM wrapper KeyResponse
  | .request call => do
    let response ← onTenant (Requests.withTenant installation call)
    pure (.response response)
  | .keys context draws request => withTenantKeys digest context draws request
  | .authenticate token request => do
    let result ← onKeys (ApiKeyService.authenticate digest token request)
    pure (.authenticated result)
  | .other call => do
    others.program call
    pure .other

/-! ## What the transactions do -/

abbrev KeyCommit (wrapper : KeyWrapper) (χ : Type) :=
  Interleaving.Entry (Tables wrapper) TableLock TableWrite (Call χ) KeyResponse

section

variable {installation : Installation} {digest : JsString → Bytes} {others : Others wrapper χ}
  {stmts : List (KeyStatement wrapper)} {ws : List TableWrite} {answer : KeyResponse}

theorem does_onTenant {α : Type} {p : RequestM wrapper α} {a : α}
    (h : Does (onTenant p) stmts ws a) :
    ∃ inner written, Does p inner written a ∧
      List.Forall₂ (Shows Tables.db .tenant .tenant) stmts inner ∧ ws = written.map .tenant := by
  obtain ⟨inner, written, hdoes, hshows, hws⟩ := does_within h
  exact ⟨inner, written, does_liftError.mp hdoes, hshows, hws⟩

theorem does_onKeys {α : Type} {p : KeyM wrapper α} {a : α} :
    Does (onKeys p) stmts ws a ↔ Does p stmts ws a := does_liftError

/-- A program and a constructor of its result. -/
theorem does_map {σ κ ω ε α β : Type} {p : Prog σ κ ω ε α} {f : α → β}
    {stmts : List (Statement σ κ ω)} {ws : List ω} {b : β}
    (h : Does (p >>= fun a => pure (f a)) stmts ws b) : ∃ a, Does p stmts ws a ∧ b = f a := by
  obtain ⟨a, stmts₁, ws₁, _, _, hdoes, hpure, rfl, rfl⟩ := does_bind.mp h
  obtain ⟨rfl, rfl, rfl⟩ := does_ok.mp hpure
  rw [List.append_nil, List.append_nil]
  exact ⟨a, hdoes, rfl⟩

end

end Himitsu.Api.KeyRequests
