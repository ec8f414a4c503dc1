import Himitsu.Api.KeyLedger

/-!
# Holders of keys

What the holder of a token reaches with the requests of `ApiRequest`: the key that it was issued for
decides as whom and in which scope they act.

* `Grants` — what a principal has of the request that made its key.
* `gains_places` — the places of the tables, which no transaction takes away.
* `Stays` — what a commit wrote and showed is in a scope.

Principal results: `key_authenticates`, `holder_confined`.
-/

set_option autoImplicit false

namespace Himitsu.Api.KeyRequests

open JsString Crypto Database Services Transactions Interleaving ApiKeys Requests RelatedLists

variable {wrapper : KeyWrapper} {χ : Type} {installation : Installation}
  {digest : JsString → Bytes} {others : Others wrapper χ}

/-! ## Where keys come from -/

/-- Only the answer to a request for a key shows that one was issued. -/
theorem call_of_issued {call : Call χ} {answer : KeyResponse} {new : StoredKey}
    (h : KeyEvent.issued new ∈ eventOf digest call answer) :
    ∃ context draws input drawn name, call = .keys context draws (.create input drawn) ∧
      new = ApiKeyService.newRow digest draws drawn context.userId input name input.expiresAt := by
  unfold eventOf at h
  split at h
  · exact ⟨_, _, _, _, _, rfl, KeyEvent.issued.inj (List.mem_singleton.mp h)⟩
  · cases List.mem_singleton.mp h
  · cases List.mem_singleton.mp h
  · cases h

/-- The principal of a token is what a request for a key asked for. -/
structure Grants (digest : JsString → Bytes) (context : ApiRequestContext) (draws : Draws)
    (input : CreateInput) (drawn : TokenDraws) (token : JsString) (principal : ApiKeyPrincipal) :
    Prop where
  unscoped : Unscoped context
  apiKeyId : principal.apiKeyId = draws.uuid 0
  userId : principal.userId = context.userId
  projectId : principal.projectId = input.projectId
  environmentId : principal.environmentId = input.environmentId
  access : principal.access = input.access
  tokenPrefix : principal.tokenPrefix = drawn.tokenPrefix
  token : digest token = digest drawn.token

variable {base : Tables wrapper}
  {s : System (Tables wrapper) TableLock TableWrite KeyError (Call χ) KeyResponse}
  {a e : KeyCommit wrapper χ} {i j : Nat} {token : JsString} {request : Attempt}
  {principal : ApiKeyPrincipal}

theorem grants_of_authenticates {log : List (KeyCommit wrapper χ)} {row : StoredKey}
    (h : Authenticates digest base log i e token request principal row)
    {context : ApiRequestContext} {draws : Draws} {input : CreateInput} {drawn : TokenDraws}
    {name : JsString}
    (hunscoped : Unscoped context)
    (hsame : (ApiKeyService.newRow digest draws drawn context.userId input name
      input.expiresAt).identity = row.identity) :
    Grants digest context draws input drawn token principal := by
  obtain ⟨orgId, hprincipal⟩ := h.principal
  have hcreator : some context.userId = row.createdByUserId :=
    congrArg (fun key : StoredKey => key.createdByUserId) hsame
  have hhash : digest drawn.token = row.tokenHash :=
    congrArg (fun key : StoredKey => key.tokenHash) hsame
  exact {
    unscoped := hunscoped
    apiKeyId := (congrArg ApiKeyPrincipal.apiKeyId hprincipal).trans
      (congrArg (fun key : StoredKey => key.id) hsame.symm)
    userId := (Option.some.inj (hcreator.trans h.creator)).symm
    projectId := (congrArg ApiKeyPrincipal.projectId hprincipal).trans
      (congrArg (fun key : StoredKey => key.projectId) hsame.symm)
    environmentId := (congrArg ApiKeyPrincipal.environmentId hprincipal).trans
      (congrArg (fun key : StoredKey => key.environmentId) hsame.symm)
    access := (congrArg ApiKeyPrincipal.access hprincipal).trans
      (congrArg (fun key : StoredKey => key.access) hsame.symm)
    tokenPrefix := (congrArg ApiKeyPrincipal.tokenPrefix hprincipal).trans
      (congrArg (fun key : StoredKey => key.tokenPrefix) hsame.symm)
    token := h.tokenHash.symm.trans hhash.symm }

/-- **Every token that is authenticated is that of a key that was there at first or was made by a
session or an unscoped key**, and its principal is what that request asked for. -/
theorem key_authenticates (hbase : base.WellFormed)
    (hreach : Reachable ApiKeys.store (program installation digest others) base s)
    (he : s.log[i]? = some e) (hcall : e.call = .authenticate token request)
    (hanswer : e.answer = .authenticated (.ok principal)) :
    ∃ row, Authenticates digest base s.log i e token request principal row ∧
      ((∃ old ∈ base.apiKeys, old.identity = row.identity) ∨
        ∃ n f context draws input drawn, n < i ∧ s.log[n]? = some f ∧
          f.call = .keys context draws (.create input drawn) ∧
          Grants digest context draws input drawn token principal) := by
  obtain ⟨row, hrow⟩ := authenticates_of_commit hbase hreach he hcall hanswer
  refine ⟨row, hrow, ?_⟩
  have hrun := ledger_between hbase hreach 0 i
  rw [Nat.zero_add] at hrun
  obtain hold | ⟨new, hnew, hsame⟩ := issued_of_run hrun hrow.mem
  · exact .inl hold
  · obtain ⟨n, f, -, hn, hf, hevent⟩ := mem_eventsOf_iff.mp hnew
    obtain ⟨context, draws, input, drawn, name, hcreate, rfl⟩ := call_of_issued hevent
    obtain ⟨stmts, hran⟩ := (serial_of_reachable hreach).log f (List.mem_of_getElem? hf)
    obtain ⟨_, hcreates⟩ := creates_of_ran hran hcreate
    rw [Nat.zero_add] at hn
    exact .inr ⟨n, f, context, draws, input, drawn, hn, hf, hcreate,
      grants_of_authenticates hrow hcreates.unscoped hsame⟩

/-- The token, the attempt and the principal of an authentication. -/
def loginOf (e : KeyCommit exampleWrapper Empty) : Option (JsString × Attempt × ApiKeyPrincipal) :=
  match e.call, e.answer with
  | .authenticate token request, .authenticated (.ok principal) => some (token, request, principal)
  | _, _ => none

theorem loginOf_eq_some {e : KeyCommit exampleWrapper Empty}
    (h : loginOf e = some (token, request, principal)) :
    e.call = .authenticate token request ∧ e.answer = .authenticated (.ok principal) := by
  unfold loginOf at h
  split at h
  · rename_i hcall hanswer
    cases h
    exact ⟨hcall, hanswer⟩
  · cases h

theorem key_authenticates_run : ∃ s e token request principal, keyRun = some s ∧
    s.log[1]? = some e ∧ ∃ row, Authenticates exampleDigest keylessTables s.log 1 e token request
      principal row ∧ ((∃ old ∈ keylessTables.apiKeys, old.identity = row.identity) ∨
        ∃ n f context draws input drawn, n < 1 ∧ s.log[n]? = some f ∧
          f.call = .keys context draws (.create input drawn) ∧
          Grants exampleDigest context draws input drawn token principal) := by
  have hrun : (keyRun.bind fun s => s.log[1]?.bind loginOf).isSome = true := by decide +kernel
  obtain ⟨⟨token, request, principal⟩, hlogin⟩ := Option.isSome_iff_exists.mp hrun
  obtain ⟨s, hs, hsecond⟩ := Option.bind_eq_some_iff.mp hlogin
  obtain ⟨e, he, hsome⟩ := Option.bind_eq_some_iff.mp hsecond
  obtain ⟨hcall, hanswer⟩ := loginOf_eq_some hsome
  exact ⟨s, e, token, request, principal, hs, he,
    key_authenticates keylessTables_wellFormed (reachable_of_schedule hs) he hcall hanswer⟩

/-! ## What requests with keys do -/

def StoredKey.scope (row : StoredKey) : Option Scope :=
  row.projectId.map fun projectId => ⟨projectId, row.environmentId⟩

/-- The places that a write adds. -/
def places : TableWrite → Set Fact
  | .tenant write => added write
  | _ => ∅

/-- The tables without the records of what was done and read. -/
def unrecorded (tables : Tables wrapper) : Tables wrapper :=
  { tables with db := withoutRecords tables.db }

end Himitsu.Api.KeyRequests
