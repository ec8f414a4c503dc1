import Himitsu.Library.Pool
import Himitsu.Api.Routes

/-!
# How requests use the connection pool

Every request is a program over the pool: the order in which its handler connects and releases,
with a branch wherever the source branches on data or a statement can fail.

* `query`, `transaction`, `withOrg` — `pool.query`, and `connect` with `release` in a `finally`.
* `authenticateRequest` — the `onRequest` hook.
* `withTenant` — a tenant handler: `withOrg` around its work.
* `inviteMember` — the one handler that opens a second transaction inside its own.
* `handle` — the program of each route.

Principal results: `nesting_handle` — every other route holds one connection at most;
`deadlockFree_iff` — the pool never deadlocks exactly when fewer invitations are in flight than
it has connections.
-/

set_option autoImplicit false

namespace Himitsu.Api

open Pool

/-! ## Connections -/

/-- `await client.query(…)`, any number of times, on a connection already held. -/
def statement : Program := .either .skip .throw

/-- `await pool.connect()` and the code up to `release()`; connecting itself can fail. -/
def connect (work : Program) : Program := .either (.withResource work) .throw

/-- `await pool.query(…)`. -/
def query : Program := connect statement

/-- `connect`, `BEGIN`, the work, `COMMIT`, and on an error `ROLLBACK`. -/
def transaction (work : Program) : Program :=
  connect (.attempt (.seq statement (.seq work statement)) (.seq statement .throw))

/-- A check that can throw. -/
def check : Program := .either .skip .throw

/-- `#withOrgContext`: the settings and the membership check come before the work. -/
def withOrg (work : Program) : Program := transaction (.seq statement (.seq check work))

/-! ## Services -/

/-- `ApiKeyService.authenticate`. -/
def apiKeysAuthenticate : Program :=
  .seq check (connect (.attempt (.seq statement check) (.seq statement .throw)))

/-- `AuthService.authenticate`. -/
def authAuthenticate : Program := .seq query (.seq check query)

/-- `AuthService.login`. -/
def authLogin : Program := .seq check (.seq query (.seq check query))

/-- `AuthService.signup`. -/
def authSignup : Program := .seq check (transaction statement)

/-- `#consumeUserToken`. -/
def consumeUserToken : Program := transaction (.seq statement (.seq check statement))

/-- `AuthService.logout`. -/
def authLogout : Program := .seq authAuthenticate (.seq check query)

/-- `resendEmailVerification` and `requestPasswordReset`. -/
def requestToken : Program := .seq check (.seq query (.either .skip (.seq query check)))

/-- `listOrganizationOptions`. -/
def listOrganizationOptions : Program := transaction statement

/-- `switchActiveOrganization`. -/
def switchActiveOrganization : Program :=
  withOrg (.seq statement (.seq check (.seq statement check)))

/-- `TenantDatabase.createOrganization`. -/
def createOrganization : Program := .seq check (transaction statement)

/-- `TenantDatabase.acceptInvitation`. -/
def acceptInvitation : Program := .seq query (.seq check (withOrg statement))

/-- `TenantDatabase.createInvitation`. -/
def createInvitation : Program := withOrg statement

/-- `TenancyService.inviteMember`: the invitation, then its delivery. -/
def inviteMember : Program := .seq check (.seq createInvitation check)

/-! ## Handlers -/

/-- `authenticateRequest`: a failed session is recorded in the audit log of its organization. -/
def authenticateRequest : Program :=
  .seq check <| .either apiKeysAuthenticate <|
    .attempt (.seq authAuthenticate check) <|
      .seq (.either .skip (.seq query (.either .skip (.attempt (withOrg statement) .skip)))) .throw

/-- `withTenant`: the scope and the permission are checked in the transaction of the work. -/
def withTenant (work : Program) : Program := .seq check (withOrg (.seq statement (.seq check work)))

/-- `sessionFromRequest`. -/
def sessionFromRequest : Program := .seq check (.seq authAuthenticate check)

/-- The handlers of `login` and `cli/login`. -/
def loginHandler : Program :=
  .seq authLogin <| .seq authAuthenticate <| .seq listOrganizationOptions <|
    .either .skip (.seq check switchActiveOrganization)

/-- A handler that changes the session and answers with its organizations. -/
def sessionHandler (change : Program) : Program :=
  .seq sessionFromRequest (.seq change listOrganizationOptions)

/-- The handler of a route. -/
def handler : Route → Program
  | .healthLive | .metrics | .getOpenApi => .skip
  | .healthReady => .attempt query .skip
  | .cliLogin | .login => loginHandler
  | .signup => authSignup
  | .verifyEmail => consumeUserToken
  | .confirmPasswordReset => .seq check consumeUserToken
  | .resendVerification | .requestPasswordReset => requestToken
  | .logout => .either .skip (.attempt authLogout check)
  | .getSession => sessionHandler .skip
  | .switchOrganization => sessionHandler switchActiveOrganization
  | .createOrganization => sessionHandler (.seq createOrganization switchActiveOrganization)
  | .acceptInvitation => sessionHandler (.seq acceptInvitation switchActiveOrganization)
  | .inviteMember => withTenant inviteMember
  | _ => withTenant statement

/-- A request: the `onRequest` hook, the validation of the request, and the handler. -/
def handle (route : Route) : Program :=
  match route.authentication with
  | .none => handler route
  | .byHandler => .seq check (handler route)
  | .byHook => .seq check (.seq authenticateRequest (.seq check (handler route)))

/-- **Only an invitation holds two connections.** -/
theorem nesting_handle (route : Route) :
    (handle route).nesting ≤ if route = .inviteMember then 2 else 1 := by
  cases route <;> decide

/-! ## Requests in flight -/

/-- `max` of the pool, from `DATABASE_POOL_SIZE`. -/
structure PoolSize where
  max : Nat
  pos : 1 ≤ max

abbrev Requests := State Route

/-- A request arrives, or one in flight takes a step. -/
def requestStep (size : PoolSize) : Requests → Event Route → Option Requests :=
  step handle size.max

/-- The invitations that have neither answered nor failed. -/
def invitesInFlight (s : Requests) : Nat :=
  s.countP fun m => decide (m.kind = .inviteMember) && !m.client.finished

/-- An invitation arrives only while fewer than `limit` are in flight. -/
def InvitesBelow (limit : Nat) (s : Requests) : Event Route → Prop
  | .arrive kind => kind = .inviteMember → invitesInFlight s < limit
  | .advance _ _ => True

/-- No run with at most `limit` invitations in flight reaches a deadlock. -/
def DeadlockFree (size : PoolSize) (limit : Nat) : Prop :=
  ∀ events s, Runs.Guarded (requestStep size) (InvitesBelow limit) [] events →
    Runs.run (requestStep size) [] events = some s → ¬ Deadlocked size.max s

/-- The requests in flight beyond their first connection are the invitations. -/
theorem demand_le_invitesInFlight (s : Requests) : demand handle s ≤ invitesInFlight s := by
  induction s with
  | nil => exact Nat.le_refl 0
  | cons m s ih =>
    have hm := nesting_handle m.kind
    simp only [demand, invitesInFlight, List.map_cons, List.sum_cons, List.countP_cons] at ih ⊢
    cases m.client.finished with
    | true =>
      rw [if_pos rfl]
      omega
    | false =>
      rw [if_neg Bool.false_ne_true]
      by_cases hkind : m.kind = .inviteMember
      · rw [if_pos hkind] at hm
        rw [decide_eq_true hkind]
        simp only [Bool.not_false, Bool.and_self, if_true]
        omega
      · rw [if_neg hkind] at hm
        omega

theorem finished_advance {choice : Bool} {c d : Client} (h : c.advance choice = some d) :
    c.finished = false := by
  obtain ⟨control, stack⟩ := c
  cases control with
  | run p => rfl
  | returned | thrown =>
    cases stack with
    | nil => cases h
    | cons frame rest => rfl

/-- Advancing a request adds no invitation. -/
theorem invitesInFlight_set {s : Requests} {i : Nat} {m : Member Route} {d : Client}
    (hm : s[i]? = some m) (hfin : m.client.finished = false) :
    invitesInFlight (s.set i ⟨m.kind, d⟩) ≤ invitesInFlight s := by
  induction s generalizing i with
  | nil => cases hm
  | cons first s ih =>
    cases i with
    | zero =>
      cases hm
      simp only [invitesInFlight, List.set_cons_zero, List.countP_cons, hfin, Bool.not_false,
        Bool.and_true]
      cases d.finished
      · simp
      · simp
    | succ i =>
      have ih := ih hm
      simp only [invitesInFlight, List.set_cons_succ, List.countP_cons] at ih ⊢
      omega

theorem invitesInFlight_step {size : PoolSize} {limit : Nat} {s s' : Requests} {e : Event Route}
    (hs : invitesInFlight s ≤ limit) (hguard : InvitesBelow limit s e)
    (h : requestStep size s e = some s') : invitesInFlight s' ≤ limit := by
  obtain ⟨kind, rfl, rfl⟩ | ⟨i, choice, m, d, rfl, hm, hd, rfl, -⟩ := step_cases h
  · by_cases hkind : kind = .inviteMember
    · have hlt := hguard hkind
      simp only [invitesInFlight, List.countP_append, List.countP_singleton] at hlt ⊢
      split <;> omega
    · simp only [invitesInFlight, List.countP_append, List.countP_singleton, hkind, decide_false,
        Bool.false_and, Bool.false_eq_true, if_false]
      exact hs
  · exact Nat.le_trans (invitesInFlight_set hm (finished_advance hd)) hs

/-! ## A burst of invitations -/

/-- The choices of an invitation with a bearer token, none of which fails. -/
def inviteChoices : List Bool := List.replicate 64 true

/-- After these it holds its first connection and waits for the second one. -/
theorem follow_inviteChoices :
    ∃ c, (Client.start (handle .inviteMember)).follow inviteChoices = some c ∧
      c.waiting = true ∧ held c.stack = 1 :=
  ⟨_, rfl, rfl, rfl⟩

theorem guarded_advances {size : PoolSize} {limit : Nat} {i : Nat} (choices : List Bool)
    (s : Requests) :
    Runs.Guarded (requestStep size) (InvitesBelow limit) s (choices.map (.advance i)) := by
  induction choices generalizing s with
  | nil => trivial
  | cons choice choices ih => exact ⟨trivial, fun s' _ => ih s'⟩

/-- A burst of at most `limit` invitations keeps to the limit. -/
theorem guarded_flood {size : PoolSize} {limit : Nat} {c : Client}
    (hpath : (Client.start (handle .inviteMember)).follow inviteChoices = some c)
    (hheld : held c.stack = 1) :
    ∀ n, n ≤ size.max → n ≤ limit →
      Runs.Guarded (requestStep size) (InvitesBelow limit) [] (flood .inviteMember inviteChoices n)
  | 0, _, _ => trivial
  | n + 1, hsize, hlimit => by
    refine Runs.guarded_append (guarded_flood hpath hheld n (by omega) (by omega)) fun t ht => ?_
    refine ⟨fun _ => ?_, fun s' _ => guarded_advances _ s'⟩
    have hrun := flood_run handle size.max hpath hheld n (by omega)
    have hflood : t = List.replicate n ⟨.inviteMember, c⟩ := Option.some.inj (ht.symm.trans hrun)
    calc invitesInFlight t ≤ t.length := List.countP_le_length
      _ = n := by rw [hflood, List.length_replicate]
      _ < limit := hlimit

/-- As many invitations as connections wait for each other. -/
theorem not_deadlockFree {size : PoolSize} {limit : Nat} (hlimit : size.max ≤ limit) :
    ¬ DeadlockFree size limit := by
  intro hfree
  obtain ⟨c, hpath, hwait, hheld⟩ := follow_inviteChoices
  exact hfree _ _ (guarded_flood hpath hheld size.max (Nat.le_refl _) hlimit)
    (flood_run handle size.max hpath hheld size.max (Nat.le_refl _)) (deadlocked_replicate _ hwait hheld)

/-- **The pool never deadlocks exactly when it has more connections than there are invitations
in flight.** -/
theorem deadlockFree_iff (size : PoolSize) (limit : Nat) :
    DeadlockFree size limit ↔ limit < size.max := by
  constructor
  · intro hfree
    by_contra hlimit
    exact not_deadlockFree (Nat.le_of_not_lt hlimit) hfree
  · intro hlimit events s hguard hrun hdead
    have hnone : invitesInFlight [] ≤ limit := Nat.zero_le limit
    have hkeep : ∀ s e s', invitesInFlight s ≤ limit → InvitesBelow limit s e →
        requestStep size s e = some s' → invitesInFlight s' ≤ limit :=
      fun _ _ _ => invitesInFlight_step
    have hinvites : invitesInFlight s ≤ limit := Runs.run_invariant hkeep hnone hguard hrun
    have hsize : size.max ≤ demand handle s := size_le_demand hrun hdead
    have hdemand := demand_le_invitesInFlight s
    omega

/-- With one connection, one invitation waits for the connection it holds itself. -/
theorem invitation_deadlocks :
    ¬ ∀ (size : PoolSize) (events : List (Event Route)) (s : Requests),
      Runs.run (requestStep size) [] events = some s → ¬ Deadlocked size.max s := by
  intro hnever
  obtain ⟨c, hpath, hwait, hheld⟩ := follow_inviteChoices
  exact hnever ⟨1, Nat.le_refl 1⟩ _ _ (flood_run handle 1 hpath hheld 1 (Nat.le_refl 1))
    (deadlocked_replicate _ hwait hheld)

end Himitsu.Api
