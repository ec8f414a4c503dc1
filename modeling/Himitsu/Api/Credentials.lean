import Himitsu.Api.KeyRequests
import Himitsu.ApiKeys.Ledger
import Himitsu.Library.SerialViews

/-!
# Credentials

API keys under requests whose transactions overlap in any way.

* `does_withTenantKeys` — a key that is read-only or has a project creates and revokes none.
* `eventOf` — the event that a call and its answer show.
* `Effect`, `effect_of_ran` — what a commit does to the keys.
* `wellFormed_of_reachable` — every commit keeps the constraints of the table.

Principal result: `authenticates_of_commit` — what there is of a key whose token was authenticated.
-/

set_option autoImplicit false

namespace Himitsu.Api.KeyRequests

open JsString Crypto Database Services Transactions Interleaving ApiKeys Requests

variable {wrapper : KeyWrapper} {χ : Type} {installation : Installation}
  {digest : JsString → Bytes} {others : Others wrapper χ} {stmts : List (KeyStatement wrapper)}
  {ws : List TableWrite} {answer : KeyResponse}

/-! ## Requests for keys -/

/-- The request came with a session, or with a key of the whole organization. -/
def Unscoped (context : ApiRequestContext) : Prop :=
  ∀ principal, context.apiKey = some principal →
    principal.access = .readWrite ∧ principal.projectId = none

theorem does_onTenant_writes {α : Type} {p : RequestM wrapper α} {a : α}
    (hp : Emits (fun _ => False) p) (h : Does (onTenant p) stmts ws a) : ws = [] := by
  obtain ⟨_, written, hdoes, -, rfl⟩ := does_onTenant h
  rw [List.eq_nil_iff_forall_not_mem.mpr (hp.does hdoes), List.map_nil]

theorem emits_requireMembership {P : Write → Prop} (userId : Uuid) :
    Emits P (requireMembership userId : RequestM wrapper Unit) :=
  Emits.bind (emits_select _) fun _ => Emits.ite (emits_ok _) (emits_fail _)

theorem emits_authorizationTarget {P : Write → Prop} (request : KeyRequest) :
    Emits P (authorizationTarget request : RequestM wrapper _) := by
  cases request with
  | create input token =>
    simp only [authorizationTarget]
    split
    · exact emits_ok _
    · exact Emits.bind (emits_select _) fun _ => emits_ok _
  | list | revoke => exact emits_ok _

theorem emits_enforceRoutePermission {P : Write → Prop} (userId : Uuid) (request : KeyRequest) :
    Emits P (enforceRoutePermission userId request : RequestM wrapper _) := by
  unfold enforceRoutePermission
  cases request.route.permission with
  | none => exact emits_fail _
  | some permission =>
    exact Emits.bind (emits_authorizationTarget request) fun _ =>
      (emits_authorizeUser _ _ _ _).liftError _

theorem unscoped_of_does {context : ApiRequestContext} {request : KeyRequest}
    {inner : List (Statement (Db wrapper) Lock Write)} {written : List Write} {u : Unit}
    (hwrites : isReadOperation request.route = false)
    (h : Does (enforceApiKeyScope context.apiKey request : RequestM wrapper Unit) inner written u) :
    Unscoped context := by
  intro principal hprincipal
  rw [hprincipal] at h
  unfold enforceApiKeyScope at h
  obtain ⟨-, h₁⟩ | ⟨haccess, h₁⟩ := does_ite.mp h
  · exact absurd h₁ does_fail
  obtain ⟨-, h₂⟩ | ⟨hproject, h₂⟩ := does_ite.mp h₁
  · exact absurd h₂ does_fail
  refine ⟨?_, by simpa using hproject⟩
  cases hkind : principal.access with
  | readWrite => rfl
  | readOnly => simp [hkind, hwrites] at haccess

theorem emits_enforceKeyScope {P : Write → Prop} (principal : Option ApiKeyPrincipal)
    (request : KeyRequest) :
    Emits P (enforceApiKeyScope principal request : RequestM wrapper Unit) := by
  cases principal with
  | none => exact emits_ok _
  | some principal =>
    exact Emits.ite (emits_fail _) (Emits.ite (emits_fail _) (emits_ok _))

/-- **Only sessions and unscoped keys create and revoke keys**; the checks before the handler only
read. -/
theorem does_withTenantKeys {context : ApiRequestContext} {draws : Draws} {request : KeyRequest}
    (h : Does (withTenantKeys digest context draws request : KeyRequestM wrapper _) stmts ws answer) :
    (isReadOperation request.route = false → Unscoped context) ∧
      ∃ checks rest, stmts = checks ++ rest ∧ checks.flatMap (·.writes) = [] ∧
        Does (request.handler digest context.userId draws : KeyRequestM wrapper _) rest ws answer := by
  unfold withTenantKeys at h
  obtain ⟨_, s₁, w₁, _, _, hmember, h₁, rfl, rfl⟩ := does_bind.mp h
  obtain ⟨_, s₂, w₂, _, _, hscope, h₂, rfl, rfl⟩ := does_bind.mp h₁
  obtain ⟨_, s₃, w₃, s₄, w₄, hpermit, h₃, rfl, rfl⟩ := does_bind.mp h₂
  obtain rfl := does_onTenant_writes (emits_requireMembership _) hmember
  obtain rfl := does_onTenant_writes (emits_enforceKeyScope _ _) hscope
  obtain rfl := does_onTenant_writes (emits_enforceRoutePermission _ _) hpermit
  refine ⟨fun hwrites => ?_, s₁ ++ s₂ ++ s₃, s₄, by simp, ?_, h₃⟩
  · obtain ⟨_, _, hdoes, -⟩ := does_onTenant hscope
    exact unscoped_of_does hwrites hdoes
  · rw [List.flatMap_append, List.flatMap_append, ← hmember.writes, ← hscope.writes,
      ← hpermit.writes]
    rfl

/-! ## Commits -/

variable {e : KeyCommit wrapper χ}

def eventOf (digest : JsString → Bytes) : Call χ → KeyResponse → List KeyEvent
  | .keys context draws (.create input token), .created key =>
    [.issued (ApiKeyService.newRow digest draws token context.userId input key.apiKey.name
      input.expiresAt)]
  | .keys _ draws (.revoke apiKeyId), .revoked _ => [.revoked apiKeyId draws.now]
  | .authenticate _ request, .authenticated (.ok principal) =>
    [.used principal.apiKeyId request.statementTime]
  | _, _ => []

/-- A creation: the row is new in the table that it is added to. -/
structure Creates (digest : JsString → Bytes) (context : ApiRequestContext) (draws : Draws)
    (input : CreateInput) (token : TokenDraws) (row : StoredKey) (e : KeyCommit wrapper χ) :
    Prop where
  unscoped : Unscoped context
  made : ∃ name, row = ApiKeyService.newRow digest draws token context.userId input name
    input.expiresAt
  id : e.world.base.keyRows row.id = []
  tokenPrefix : e.world.base.prefixIds row.tokenPrefix = []
  tokenHash : e.world.base.hashIds row.tokenHash = []
  writes : ∃ orgId metadata, e.world.pending = [.insertKey row, .tenant (.insertAuditEvent
    (Audit.eventRow (createdEvent orgId context.userId (fromRow row.toApiKeyRow)) metadata
      draws.now))]
  answer : e.answer = .created ⟨fromRow row.toApiKeyRow, token.token⟩

/-- A revocation: the first one of the key writes its time. -/
structure Revokes (context : ApiRequestContext) (draws : Draws) (apiKeyId : Uuid) (row : StoredKey)
    (e : KeyCommit wrapper χ) : Prop where
  unscoped : Unscoped context
  mem : row ∈ e.world.base.apiKeys
  id : row.id = apiKeyId
  writes : (row.revokedAt.isSome ∧ e.world.pending = []) ∨
    (row.revokedAt = none ∧ ∃ orgId metadata, e.world.pending =
      [.updateKey apiKeyId (.revoked draws.now), .tenant (.insertAuditEvent
        (Audit.eventRow (revokedEvent orgId context.userId row) metadata draws.now))])
  answer : ∃ key, e.answer = .revoked key

/-- A row that is checked has no entry in the table, nor as long as its entries are held. -/
theorem free_of_checked {base view : Tables wrapper} {now : Timestamp} {row : StoredKey}
    (hchecked : checkRow view now row = .ok ())
    (hparts : ∀ l ∈ ApiKeys.touches (.insertKey row) view,
      ApiKeys.part l base = ApiKeys.part l view) :
    base.keyRows row.id = [] ∧ base.prefixIds row.tokenPrefix = [] ∧
      base.hashIds row.tokenHash = [] := by
  have hfree : ∀ other ∈ view.apiKeys, other.id ≠ row.id ∧ other.tokenPrefix ≠ row.tokenPrefix ∧
      other.tokenHash ≠ row.tokenHash := by
    unfold checkRow at hchecked
    split at hchecked
    · cases hchecked
    · rename_i hany
      intro other hother
      simpa [not_or, and_assoc] using fun heq => hany (List.any_eq_true.mpr ⟨other, hother, heq⟩)
  have hkey := TableContents.key.inj (hparts (.key row.id) (by simp [ApiKeys.touches]))
  have hinitial := TableContents.entry.inj
    (hparts (.tokenPrefix row.tokenPrefix) (by simp [ApiKeys.touches]))
  have hhash := TableContents.entry.inj
    (hparts (.tokenHash row.tokenHash) (by simp [ApiKeys.touches]))
  refine ⟨?_, ?_, ?_⟩
  · rw [hkey, Tables.keyRows, List.filter_eq_nil_iff]
    exact fun other hother => by simpa using (hfree other hother).1
  · rw [hinitial, Tables.prefixIds, List.map_eq_nil_iff, List.filter_eq_nil_iff]
    exact fun other hother => by simpa using (hfree other hother).2.1
  · rw [hhash, Tables.hashIds, List.map_eq_nil_iff, List.filter_eq_nil_iff]
    exact fun other hother => by simpa using (hfree other hother).2.2

theorem creates_of_ran (hran : Ran ApiKeys.store (program installation digest others) e stmts)
    {context : ApiRequestContext} {draws : Draws} {input : CreateInput} {token : TokenDraws}
    (hcall : e.call = .keys context draws (.create input token)) :
    ∃ row, Creates digest context draws input token row e := by
  have hdoes := hran.does
  rw [hcall] at hdoes
  obtain ⟨hunscoped, checks, rest, hstmts, hnone, hhandler⟩ := does_withTenantKeys hdoes
  obtain ⟨created, hcreate, hanswer⟩ := does_map hhandler
  obtain ⟨name, before, x, after, metadata, hsplit, hreads, hx, hchecked, hws, rfl⟩ :=
    does_create (does_onKeys.mp hcreate)
  have hbefore : stmts = (checks ++ before) ++ x :: after := by
    rw [hstmts, hsplit, List.append_assoc]
  have hquiet : (checks ++ before).flatMap (·.writes) = [] := by
    rw [List.flatMap_append, hnone, hreads, List.append_nil]
  obtain ⟨hid, hinitial, hhash⟩ := free_of_checked hchecked fun l hl => by
    refine hran.part_eq hbefore hquiet ?_
    rw [takes, hx]
    exact List.mem_append_right _ (List.mem_append_left _ hl)
  exact ⟨_, hunscoped rfl, ⟨name, rfl⟩, hid, hinitial, hhash, ⟨_, metadata, hws⟩, hanswer⟩

theorem revokes_of_ran (hran : Ran ApiKeys.store (program installation digest others) e stmts)
    {context : ApiRequestContext} {draws : Draws} {apiKeyId : Uuid}
    (hcall : e.call = .keys context draws (.revoke apiKeyId)) :
    ∃ row, Revokes context draws apiKeyId row e := by
  have hdoes := hran.does
  rw [hcall] at hdoes
  obtain ⟨hunscoped, checks, rest, hstmts, hnone, hhandler⟩ := does_withTenantKeys hdoes
  obtain ⟨revoked, hrevoke, hanswer⟩ := does_map hhandler
  obtain ⟨x, after, row, hsplit, hrow, hlock, hwrites⟩ := does_revoke (does_onKeys.mp hrevoke)
  have hbefore : stmts = checks ++ x :: after := by rw [hstmts, hsplit]
  have hpart := hran.part_eq hbefore hnone (List.mem_append_left _ hlock)
  rw [← TableContents.key.inj hpart] at hrow
  obtain ⟨hmem, hid⟩ := mem_keyRows.mp hrow
  refine ⟨row, hunscoped rfl, hmem, hid, ?_, revoked, hanswer⟩
  obtain ⟨hrevoked, hws, -⟩ | ⟨hrevoked, orgId, metadata, -, -, hws, -⟩ := hwrites
  · exact .inl ⟨hrevoked, hws⟩
  · exact .inr ⟨hrevoked, orgId, metadata, hws⟩

/-- What a commit does to the keys, and the event of its answer. -/
inductive Effect (digest : JsString → Bytes) (e : KeyCommit wrapper χ) : Prop where
  | quiet (hws : ∀ w ∈ e.world.pending, w.onKeys = false)
      (hevent : eventOf digest e.call e.answer = [])
  | creates {context : ApiRequestContext} {draws : Draws} {input : CreateInput} {token : TokenDraws}
      {row : StoredKey} (hcall : e.call = .keys context draws (.create input token))
      (hcreates : Creates digest context draws input token row e)
  | revokes {context : ApiRequestContext} {draws : Draws} {apiKeyId : Uuid} {row : StoredKey}
      (hcall : e.call = .keys context draws (.revoke apiKeyId))
      (hrevokes : Revokes context draws apiKeyId row e)
  | uses {token : JsString} {request : Attempt} {principal : ApiKeyPrincipal}
      {rows : List StoredKey} {event : AuditEvent} (hcall : e.call = .authenticate token request)
      (hanswer : e.answer = .authenticated (.ok principal))
      (hws : e.world.pending =
        usesOf rows request.statementTime ++ [.tenant (.insertAuditEvent event)])

theorem effect_of_ran (hran : Ran ApiKeys.store (program installation digest others) e stmts) :
    Effect digest e := by
  have hdoes := hran.does
  cases hcall : e.call with
  | request call =>
    rw [hcall] at hdoes
    obtain ⟨response, hresponse, hanswer⟩ := does_map hdoes
    obtain ⟨_, written, -, -, hws⟩ := does_onTenant hresponse
    refine .quiet (fun w hw => ?_) (by rw [hcall, hanswer]; rfl)
    rw [hws] at hw
    obtain ⟨write, -, rfl⟩ := List.mem_map.mp hw
    rfl
  | other call =>
    rw [hcall] at hdoes
    obtain ⟨_, hother, hanswer⟩ := does_map hdoes
    exact .quiet ((others.quiet call).does hother) (by rw [hcall, hanswer]; rfl)
  | authenticate token request =>
    rw [hcall] at hdoes
    obtain ⟨result, hresult, hanswer⟩ := does_map hdoes
    obtain ⟨text, x, after, metadata, -, -, hx, hwrites⟩ :=
      does_authenticate (does_onKeys.mp hresult)
    obtain ⟨consumed, -, rfl, hws⟩ | ⟨-, rfl, identity, hws⟩ := hwrites
    · rw [hx] at hws
      exact .uses hcall hanswer hws
    · refine .quiet (fun w hw => ?_) (by rw [hcall, hanswer]; rfl)
      rw [hws] at hw
      rw [List.mem_singleton.mp hw]
      rfl
  | keys context draws request =>
    cases request with
    | list =>
      rw [hcall] at hdoes
      obtain ⟨-, checks, rest, -, -, hhandler⟩ := does_withTenantKeys hdoes
      obtain ⟨keys, hlist, hanswer⟩ := does_map hhandler
      refine .quiet (fun w hw => ?_) (by rw [hcall, hanswer]; rfl)
      rw [does_list (does_onKeys.mp hlist)] at hw
      cases hw
    | create input token =>
      obtain ⟨row, hcreates⟩ := creates_of_ran hran hcall
      exact .creates hcall hcreates
    | revoke apiKeyId =>
      obtain ⟨row, hrevokes⟩ := revokes_of_ran hran hcall
      exact .revokes hcall hrevokes

/-! ## What every commit keeps -/

/-- Writes on the other tables after one on the keys. -/
theorem apiKeys_event (w : TableWrite) (row : AuditEvent) (tables : Tables wrapper) :
    (ApiKeys.store.applyAll [w, .tenant (.insertAuditEvent row)] tables).apiKeys =
      (ApiKeys.apply w tables).apiKeys := rfl

theorem wellFormed_quiet {tables : Tables wrapper} (hwf : tables.WellFormed)
    (h : ∀ w ∈ ws, w.onKeys = false) : (ApiKeys.store.applyAll ws tables).WellFormed :=
  hwf.of_eq (apiKeys_applyAll h tables)

theorem wellFormed_uses (rows : List StoredKey) (time : Timestamp) {tables : Tables wrapper}
    (hwf : tables.WellFormed) : (ApiKeys.store.applyAll (usesOf rows time) tables).WellFormed := by
  induction rows generalizing tables with
  | nil => exact hwf
  | cons row rows ih => exact ih (hwf.update row.id (.used time))

/-- **Every commit keeps the constraints.** -/
theorem wellFormed_of_ran (hran : Ran ApiKeys.store (program installation digest others) e stmts)
    (hwf : e.world.base.WellFormed) :
    (ApiKeys.store.applyAll e.world.pending e.world.base).WellFormed := by
  cases effect_of_ran hran with
  | quiet hws => exact wellFormed_quiet hwf hws
  | creates hcall hcreates =>
    obtain ⟨orgId, metadata, hws⟩ := hcreates.writes
    rw [hws]
    exact (hwf.insert hcreates.id hcreates.tokenPrefix hcreates.tokenHash).of_eq (apiKeys_event ..)
  | @revokes _ draws apiKeyId row hcall hrevokes =>
    obtain ⟨-, hws⟩ | ⟨-, orgId, metadata, hws⟩ := hrevokes.writes
    · rw [hws]
      exact hwf
    · rw [hws]
      exact (hwf.update apiKeyId (.revoked draws.now)).of_eq (apiKeys_event ..)
  | uses hcall hanswer hws =>
    rw [hws, Store.applyAll_append]
    refine wellFormed_quiet (wellFormed_uses _ _ hwf) fun w hw => ?_
    rw [List.mem_singleton.mp hw]
    rfl

/-! ## Runs -/

section

variable {base : Tables wrapper}
  {s : System (Tables wrapper) TableLock TableWrite KeyError (Call χ) KeyResponse} {i j n : Nat}

/-- The tables of a run satisfy the constraints. -/
theorem wellFormed_of_reachable (hbase : base.WellFormed)
    (hreach : Reachable ApiKeys.store (program installation digest others) base s) (n : Nat) :
    (databaseAfter ApiKeys.store base s.log n).WellFormed := by
  let contract : Contract (Tables wrapper) := ⟨Tables.WellFormed, fun _ _ => True, fun _ => trivial,
    fun _ _ => trivial⟩
  exact (contract_of_commits contract hreach hbase
    (fun _ _ hran hwf => ⟨wellFormed_of_ran hran hwf, trivial⟩) n).1

/-! ### Authentications -/

/-- The key of a token that was authenticated: it was neither revoked nor expired at the commit, and
what it depends on was there when the statement ran. -/
structure Authenticates (digest : JsString → Bytes) (base : Tables wrapper)
    (log : List (KeyCommit wrapper χ)) (i : Nat) (e : KeyCommit wrapper χ) (token : JsString)
    (request : Attempt) (principal : ApiKeyPrincipal) (row : StoredKey) : Prop where
  mem : row ∈ (databaseAfter ApiKeys.store base log i).apiKeys
  tokenPrefix : ApiKeys.tokenPrefix token = .ok row.tokenPrefix
  tokenHash : row.tokenHash = digest token
  unrevoked : row.revokedAt = none
  unexpired : ∀ expiresAt, row.expiresAt = some expiresAt → request.statementTime < expiresAt
  admitted : ∃ n, e.since ≤ n ∧ n ≤ i ∧ (databaseAfter ApiKeys.store base log n).admits row = true
  creator : row.createdByUserId = some principal.userId
  principal : ∃ orgId, principal = ConsumedApiKeyRow.principal
    ⟨orgId, (KeyChange.used request.statementTime).on row, principal.userId⟩ request.statementTime
  writes : ∃ event, e.world.pending =
    [.updateKey row.id (.used request.statementTime), .tenant (.insertAuditEvent event)] ∧
      event.actorApiKeyId = some row.id ∧ event.action = Audit.AuditAction.apiKeyUsed.text

/-- At most one key has the prefix of a token. -/
theorem consumable_eq_singleton {tables : Tables wrapper} (hwf : tables.WellFormed)
    {text : JsString} {hash : Bytes} {time : Timestamp} {row : StoredKey}
    (h : row ∈ tables.consumable text hash time) : tables.consumable text hash time = [row] := by
  have hnodup : ((tables.consumable text hash time).map (·.tokenPrefix)).Nodup :=
    hwf.prefixes.sublist (List.filter_sublist.map _)
  have hinitial : ∀ other ∈ tables.consumable text hash time, other.tokenPrefix = text := by
    intro other hother
    have haccepts := (mem_consumable.mp hother).2.1
    simp only [StoredKey.accepts, Bool.and_eq_true, decide_eq_true_eq] at haccepts
    exact haccepts.1.1.1.1
  revert h hnodup hinitial
  cases tables.consumable text hash time with
  | nil =>
    intro h _ _
    cases h
  | cons first rest =>
    intro h hnodup hinitial
    cases rest with
    | nil => rw [List.mem_singleton.mp h]
    | cons second rest =>
      have hsame : first.tokenPrefix = second.tokenPrefix := by
        rw [hinitial first (by simp), hinitial second (by simp)]
      simp [hsame] at hnodup

/-- **An authentication is that of a key.** -/
theorem authenticates_of_commit (hbase : base.WellFormed)
    (hreach : Reachable ApiKeys.store (program installation digest others) base s)
    (he : s.log[i]? = some e) {token : JsString} {request : Attempt} {principal : ApiKeyPrincipal}
    (hcall : e.call = .authenticate token request)
    (hanswer : e.answer = .authenticated (.ok principal)) :
    ∃ row, Authenticates digest base s.log i e token request principal row := by
  obtain ⟨stmts, hran⟩ := (serial_of_reachable hreach).log e (List.mem_of_getElem? he)
  have hdoes := hran.does
  rw [hcall] at hdoes
  obtain ⟨result, hresult, hsame⟩ := does_map hdoes
  obtain rfl : result = .ok principal := by
    rw [hanswer] at hsame
    exact (KeyResponse.authenticated.inj hsame).symm
  obtain ⟨text, x, after, metadata, htext, hstmts, hx, hwrites⟩ :=
    does_authenticate (does_onKeys.mp hresult)
  obtain ⟨consumed, hconsumed, hprincipal, hws⟩ | ⟨-, herror, -⟩ := hwrites
  swap
  · cases herror
  have hfirst : stmts = [] ++ x :: after := hstmts
  obtain ⟨n, hsince, hle, hview⟩ := hran.view_eq hreach he hfirst rfl
  obtain ⟨row, hrow, hcreator, hconsumedRow⟩ := consumed_eq_some hconsumed
  obtain ⟨hmem, haccepts, hadmits⟩ := mem_consumable.mp hrow
  have hone := consumable_eq_singleton (hview ▸ wellFormed_of_reachable hbase hreach n) hrow
  rw [hone] at hx
  have htaken : TableLock.key row.id ∈ takes ApiKeys.store x := by
    rw [takes, hx]
    exact List.mem_append_right _ (by simp [usesOf, Store.touchesAll, ApiKeys.store, ApiKeys.touches])
  have hpart := hran.part_eq hfirst rfl htaken
  have hbaseRow : row ∈ e.world.base.apiKeys := by
    have hheld : row ∈ x.view.keyRows row.id := mem_keyRows.mpr ⟨hmem, rfl⟩
    rw [← TableContents.key.inj hpart] at hheld
    exact (mem_keyRows.mp hheld).1
  simp only [StoredKey.accepts, Bool.and_eq_true, decide_eq_true_eq, Option.isNone_iff_eq_none,
    Option.all_eq_true] at haccepts
  obtain ⟨⟨⟨⟨hinitial, hhash⟩, -⟩, hunrevoked⟩, hunexpired⟩ := haccepts
  obtain rfl := Except.ok.inj hprincipal
  have huser : (consumed.principal request.statementTime).userId = consumed.createdByUserId := rfl
  refine ⟨row, (databaseAfter_of_commit hreach he).1 ▸ hbaseRow, hinitial ▸ htext, hhash, hunrevoked,
    hunexpired, ⟨n, hsince, hle, hview ▸ hadmits⟩, huser ▸ hcreator, ⟨x.view.db.orgId, ?_⟩,
    Audit.eventRow (usedEvent consumed request) metadata request.now, ?_, ?_, rfl⟩
  · rw [huser, ← hconsumedRow]
  · rw [hws, hx]
    rfl
  · rw [hconsumedRow]
    rfl

end

end Himitsu.Api.KeyRequests
