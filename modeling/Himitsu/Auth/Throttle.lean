import Himitsu.Auth.Eviction
import Himitsu.Auth.Limiter

/-!
# The login throttle of an account

Concurrent logins on one `AuthService`, and the failures that it counts for an identity.

* `live` — the bucket of an identity that has not expired; `failuresAt` — its failures.
* `Attempt`, `windowOf` — how the logins of an identity ended, and the throttle window that the last
  of them lies in.
* `Watched` — the service, the last clock reading of the limiter, and the attempts.
* `Room` — the guard of a run: an admitted login fits beside those that are not decided yet.

Principal results: `login_throttle` — in a guarded run no window has more than `maxFailures` failed
verifications; `login_race` — six logins at once all fail in one window of five.
-/

set_option autoImplicit false

namespace Himitsu.Auth

open JsString Crypto Database

/-! ## The limiter -/

namespace LoginAttemptLimiter

/-- The bucket of an identity, until it expires. -/
def live (limiter : LoginAttemptLimiter) (now : Int) (identity : JsString) :
    Option LoginAttemptBucket :=
  (limiter.buckets.lookup identity).filter fun bucket => decide (now < bucket.resetAt)

/-- The failures that count against an identity. -/
def failuresAt (limiter : LoginAttemptLimiter) (now : Int) (identity : JsString) : Nat :=
  ((limiter.live now identity).map (·.failures)).getD 0

/-- Each identity has one bucket. -/
def Distinct (limiter : LoginAttemptLimiter) : Prop := (limiter.buckets.map (·.1)).Nodup

variable {limiter limiter' : LoginAttemptLimiter} {now t : Int} {identity : JsString}

/-- The live buckets of a limiter, from the map that it holds. -/
theorem live_of_holds {buckets : Buckets} (h : Holds limiter limiter' now buckets) (ht : now ≤ t)
    (identity : JsString) : limiter'.live t identity = buckets.openAt t identity :=
  h.shows.live t identity ht

/-- An identity that is not blocked has fewer failures than the maximum. -/
theorem failuresAt_lt_of_not_blocked {identities : List JsString} (hd : limiter.Distinct)
    (hmax : 0 < limiter.maxFailures) (h : (limiter.isBlocked now identities).2 = false)
    (hmem : identity ∈ identities) : limiter.failuresAt now identity < limiter.maxFailures := by
  rw [((Holds.self hd).isBlocked identities).1] at h
  have hfew : (limiter.live now identity).any
      (fun bucket => decide (limiter.maxFailures ≤ bucket.failures)) ≠ true :=
    List.any_eq_false.mp h identity hmem
  unfold failuresAt
  cases hlive : limiter.live now identity with
  | none => exact hmax
  | some bucket =>
    rw [hlive, Option.any_some] at hfew
    exact Nat.lt_of_not_le (mt decide_eq_true hfew)

end LoginAttemptLimiter

/-! ## Attempts and windows -/

/-- How a login of an identity ended: `rejected` with or without a verification of the password. -/
inductive Attempt where
  | rejected (verified : Bool) (time : Int)
  | succeeded

/-- A throttle window and the verifications that have failed in it. -/
structure Window where
  openedAt : Int
  failed : Nat

/-- A rejected login opens a window where none is open; a successful one closes it. -/
def nextWindow (windowMs : Nat) : Option Window → Attempt → Option Window
  | _, .succeeded => none
  | window, .rejected verified time =>
    let current := (window.filter fun w => decide (time < w.openedAt + windowMs)).getD ⟨time, 0⟩
    some { current with failed := current.failed + if verified then 1 else 0 }

/-- The window of the last attempt. -/
def windowOf (windowMs : Nat) (log : List Attempt) : Option Window :=
  log.foldl (nextWindow windowMs) none

theorem windowOf_append (windowMs : Nat) (log : List Attempt) (attempt : Attempt) :
    windowOf windowMs (log ++ [attempt]) = nextWindow windowMs (windowOf windowMs log) attempt := by
  rw [windowOf, List.foldl_append]
  rfl

/-! ## Logins -/

section

variable (primitives : Primitives)

/-- The identities that a login in flight counts for. -/
def Call.identities : Call → List JsString
  | .loginSelect _ identities _ _ => identities
  | .loginVerify _ _ identities _ _ _ => identities
  | _ => []

@[simp] theorem Call.identities_finished (result : Except AuthError Reply) :
    (Call.finished result).identities = [] := rfl

@[simp] theorem Call.identities_failed : Call.failed.identities = [] := rfl

inductive Verdict where
  | undecided
  | rejected (verified : Bool)
  | succeeded

/-- What a call finds out when it resumes. -/
def Call.verdict (tables : Tables) : Call → Verdict
  | .loginSelect normalized _ _ _ =>
    match tables.selectUser normalized with
    | none => .rejected false
    | some user => if user.passwordHash.getD [] = [] then .rejected false else .undecided
  | .loginVerify _ passwordHash _ password _ _ =>
    if primitives.verify passwordHash password then .succeeded else .rejected true
  | _ => .undecided

/-- What a resumed call does to the limiter. -/
inductive Resumed (s : System) (i : Nat) (input : Input) (call : Call) (s' : System) : Prop
  | undecided (next : Call) (hverdict : call.verdict primitives s.tables = .undecided)
      (hlimiter : s'.limiter = s.limiter) (hcalls : s'.calls = s.calls.set i next)
      (hnext : next.identities = call.identities)
  | rejected (verified : Bool) (error : AuthError)
      (hverdict : call.verdict primitives s.tables = .rejected verified)
      (hlimiter : s'.limiter =
        (s.limiter.recordFailure input.nowMs input.nextMs call.identities).1)
      (hcalls : s'.calls = s.calls.set i (.finished (.error error)))
  | succeeded (next : Call) (hverdict : call.verdict primitives s.tables = .succeeded)
      (hlimiter : s'.limiter = s.limiter.clear call.identities)
      (hcalls : s'.calls = s.calls.set i next) (hnext : next.identities = [])

variable {primitives}

theorem resumeCall_cases {s s' : System} {i : Nat} {input : Input} {call : Call}
    (h : resumeCall primitives s i input call = some s') :
    Resumed primitives s i input call s' := by
  cases call with
  | loginSelect normalized identities password context =>
    simp only [resumeCall] at h
    split at h
    · rename_i hnone
      cases h
      exact .rejected false _ (by simp [Call.verdict, hnone]) rfl rfl
    · rename_i user huser
      split at h
      · rename_i hempty
        cases h
        exact .rejected false _ (by simp [Call.verdict, huser, hempty]) rfl rfl
      · rename_i hhash
        cases h
        exact .undecided _ (by simp [Call.verdict, huser, hhash]) rfl rfl rfl
  | loginVerify user passwordHash identities password context seen =>
    simp only [resumeCall] at h
    split at h
    · rename_i hverify
      split at h <;> cases h <;> exact .succeeded _ (by simp [Call.verdict, hverify]) rfl rfl rfl
    · rename_i hverify
      cases h
      exact .rejected true _ (by simp [Call.verdict, hverify]) rfl rfl
  | loginInsert | requestInsert =>
    simp only [resumeCall] at h
    split at h <;> cases h <;> exact .undecided _ rfl rfl rfl rfl
  | requestSelect | authenticateSelect =>
    simp only [resumeCall] at h
    split at h <;> cases h <;> exact .undecided _ rfl rfl rfl rfl
  | resetHash =>
    cases h
    exact .undecided _ rfl rfl rfl rfl
  | resetSelect resetToken newPassword passwordHash =>
    simp only [resumeCall] at h
    split at h
    · cases h
      exact .undecided _ rfl rfl rfl rfl
    · split at h
      · cases h
      · cases h
        exact .undecided _ rfl rfl rfl rfl
  | resetting stage reset startedAt revoked =>
    cases stage with
    | updateUser =>
      simp only [resumeCall] at h
      split at h
      · cases h
      · cases h
        exact .undecided _ rfl rfl rfl rfl
    | revokeSessions | consumeToken | commit =>
      cases h
      exact .undecided _ rfl rfl rfl rfl
  | authenticateTouch session email =>
    simp only [resumeCall] at h
    split at h
    · cases h
    · cases h
      exact .undecided _ rfl rfl rfl rfl
  | finished | failed => cases h

end

/-! ## Runs -/

/-- The service, the last reading of the limiter's clock, and the attempts of an identity. -/
structure Watched where
  system : System
  clock : Int
  log : List Attempt

def System.inFlight (s : System) (identity : JsString) : Nat :=
  s.calls.countP fun call => call.identities.contains identity

section

variable (primitives : Primitives) (identity : JsString)

/-- The identities of a login that the limiter admits. -/
def admitted (s : System) : Event → List JsString
  | .begin nowMs (.login email _ context) =>
    match normalizeEmail primitives email with
    | .error _ => []
    | .ok normalized =>
      if (s.limiter.isBlocked nowMs (loginIdentities primitives normalized context)).2 then []
      else loginIdentities primitives normalized context
  | _ => []

/-- What the limiter's clock shows in a step. -/
def readings (s : System) : Event → List Int
  | .begin nowMs (.login _ _ _) => [nowMs]
  | .resume i input =>
    match (s.calls[i]?).map (Call.verdict primitives s.tables) with
    | some (.rejected _) => [input.nowMs, input.nextMs]
    | _ => []
  | _ => []

def attempts (s : System) : Event → List Attempt
  | .resume i input =>
    match s.calls[i]? with
    | none => []
    | some call =>
      if !call.identities.contains identity then []
      else match call.verdict primitives s.tables with
        | .undecided => []
        | .rejected verified => [.rejected verified input.nowMs]
        | .succeeded => [.succeeded]
  | _ => []

def watch (w : Watched) (e : Event) : Option Watched :=
  (step primitives w.system e).map fun s =>
    ⟨s, (readings primitives w.system e).getLastD w.clock,
      w.log ++ attempts primitives identity w.system e⟩

/-- The limiter's clock does not go back. -/
def Forward (w : Watched) (e : Event) : Prop :=
  (w.clock :: readings primitives w.system e).Pairwise (· ≤ ·)

/-- A login that is admitted fits beside the failures and the logins that are in flight. -/
def Room (w : Watched) (e : Event) : Prop :=
  ∀ nowMs request, e = .begin nowMs request → identity ∈ admitted primitives w.system e →
    w.system.limiter.failuresAt nowMs identity + w.system.inFlight identity <
      w.system.limiter.maxFailures

instance (w : Watched) (e : Event) : Decidable (Forward primitives w e) :=
  inferInstanceAs (Decidable (List.Pairwise _ _))

instance (w : Watched) : ∀ e, Decidable (Room primitives identity w e)
  | .begin nowMs request =>
    decidable_of_iff
      ((admitted primitives w.system (.begin nowMs request)).contains identity = true →
        w.system.limiter.failuresAt nowMs identity + w.system.inFlight identity <
          w.system.limiter.maxFailures)
      ⟨fun h _ _ heq hmem => by cases heq; exact h (List.contains_iff_mem.mpr hmem),
        fun h hmem => h nowMs request rfl (List.contains_iff_mem.mp hmem)⟩
  | .resume _ _ | .fail _ => isTrue fun _ _ heq => by cases heq

end

/-- A service that has just been created, on any tables. -/
def Watched.start (tables : Tables) (maxFailures windowMs : Nat) (clock : Int) : Watched where
  system := ⟨tables, ⟨maxFailures, windowMs, [], 0⟩, [], [], []⟩
  clock := clock
  log := []

/-! ## The invariant -/

/-- A bucket and the window that it is about. -/
structure Counts (windowMs : Nat) (bucket : LoginAttemptBucket) (window : Window) : Prop where
  resetAt : bucket.resetAt = window.openedAt + windowMs
  failed : window.failed ≤ bucket.failures

/-- The window of the last attempt, until it ends. -/
def openWindow (windowMs : Nat) (log : List Attempt) (now : Int) : Option Window :=
  (windowOf windowMs log).filter fun window => decide (now < window.openedAt + windowMs)

structure Throttled (identity : JsString) (maxFailures windowMs : Nat) (w : Watched) : Prop where
  max : w.system.limiter.maxFailures = maxFailures
  window : w.system.limiter.windowMs = windowMs
  distinct : w.system.limiter.Distinct
  nodup : ∀ call ∈ w.system.calls, call.identities.Nodup
  budget : w.system.limiter.failuresAt w.clock identity + w.system.inFlight identity ≤ maxFailures
  counts : ∀ t, w.clock ≤ t → Option.Rel (Counts windowMs) (w.system.limiter.live t identity)
    (openWindow windowMs w.log t)
  bound : ∀ window, windowOf windowMs w.log = some window → window.failed ≤ maxFailures

theorem Throttled.start (identity : JsString) (tables : Tables) (maxFailures windowMs : Nat)
    (clock : Int) :
    Throttled identity maxFailures windowMs (.start tables maxFailures windowMs clock) where
  max := rfl
  window := rfl
  distinct := List.nodup_nil
  nodup := fun _ h => (List.not_mem_nil h).elim
  budget := Nat.zero_le _
  counts := fun _ _ => .none
  bound := fun _ h => by cases h

/-! ## Steps -/

section

variable {primitives : Primitives} {identity : JsString} {maxFailures windowMs : Nat}

theorem inFlight_set {s s' : System} {i : Nat} {call next : Call} (hcall : s.calls[i]? = some call)
    (hcalls : s'.calls = s.calls.set i next) (identity : JsString) :
    s'.inFlight identity + (if identity ∈ call.identities then 1 else 0) =
      s.inFlight identity + if identity ∈ next.identities then 1 else 0 := by
  obtain ⟨hlt, rfl⟩ := List.getElem?_eq_some_iff.mp hcall
  have hpos : identity ∈ (s.calls[i]).identities → 0 < s.inFlight identity := fun hmem =>
    List.countP_pos_iff.mpr ⟨s.calls[i], List.getElem_mem hlt, by simpa using hmem⟩
  unfold System.inFlight at hpos ⊢
  rw [hcalls, List.countP_set hlt]
  simp only [List.contains_iff_mem] at hpos ⊢
  by_cases hmem : identity ∈ (s.calls[i]).identities
  · have := hpos hmem
    simp only [hmem, if_true]
    omega
  · simp only [hmem, if_false]
    omega

theorem inFlight_append {s s' : System} {call : Call} (hcalls : s'.calls = s.calls ++ [call])
    (identity : JsString) :
    s'.inFlight identity = s.inFlight identity + if identity ∈ call.identities then 1 else 0 := by
  unfold System.inFlight
  rw [hcalls, List.countP_append, List.countP_singleton]
  simp only [List.contains_iff_mem]

theorem loginIdentities_nodup (primitives : Primitives) (normalized : JsString)
    (context : ClientContext) : (loginIdentities primitives normalized context).Nodup := by
  unfold loginIdentities
  cases context.ip with
  | none => exact List.nodup_singleton _
  | some ip => simp [ofAscii]

/-- The part of a call before its first `await`. -/
theorem beginCall_cases (primitives : Primitives) (s : System) (nowMs clock : Int)
    (request : Request) :
    (s.limiter.Distinct → Holds s.limiter (beginCall primitives s nowMs request).limiter
        ((readings primitives s (.begin nowMs request)).getLastD clock) s.limiter.held) ∧
      ∃ call, (beginCall primitives s nowMs request).calls = s.calls ++ [call] ∧
        call.identities = admitted primitives s (.begin nowMs request) := by
  cases request with
  | login email password context =>
    simp only [beginCall, admitted]
    cases normalizeEmail primitives email with
    | error e => exact ⟨.self, _, rfl, rfl⟩
    | ok normalized =>
      refine ⟨fun hd => ((Holds.self hd).isBlocked _).2, _, rfl, ?_⟩
      show Call.identities (if _ then _ else _) = if _ then _ else _
      split <;> rfl
  | requestPasswordReset email =>
    simp only [beginCall, admitted]
    split <;> exact ⟨.self, _, rfl, rfl⟩
  | resetPassword resetToken newPassword =>
    simp only [beginCall, admitted]
    split <;> exact ⟨.self, _, rfl, rfl⟩
  | authenticate sessionToken => exact ⟨.self, _, rfl, rfl⟩

/-- Only a login is admitted, at the time that the limiter reads. -/
theorem clock_of_admitted {s : System} {nowMs clock : Int} {request : Request}
    (h : identity ∈ admitted primitives s (.begin nowMs request)) :
    (readings primitives s (.begin nowMs request)).getLastD clock = nowMs := by
  cases request with
  | login email password context => rfl
  | requestPasswordReset | resetPassword | authenticate => cases h

theorem clock_le {w : Watched} {e : Event} (h : Forward primitives w e) :
    w.clock ≤ (readings primitives w.system e).getLastD w.clock := by
  unfold Forward at h
  rw [List.pairwise_cons] at h
  cases hlast : (readings primitives w.system e).getLast? with
  | none =>
    rw [List.getLast?_eq_none_iff.mp hlast]
    exact le_rfl
  | some last =>
    rw [List.getLastD_eq_getLast?, hlast]
    exact h.1 last (List.mem_of_getLast? hlast)

theorem admitted_nodup (s : System) (e : Event) : (admitted primitives s e).Nodup := by
  cases e with
  | begin nowMs request =>
    cases request with
    | login email password context =>
      simp only [admitted]
      split
      · exact List.nodup_nil
      · split
        · exact List.nodup_nil
        · exact loginIdentities_nodup primitives _ context
    | requestPasswordReset | resetPassword | authenticate => exact List.nodup_nil
  | resume | fail => exact List.nodup_nil

theorem failuresAt_anti {now t : Int} (h : now ≤ t) (limiter : LoginAttemptLimiter)
    (identity : JsString) :
    limiter.failuresAt t identity ≤ limiter.failuresAt now identity := by
  unfold LoginAttemptLimiter.failuresAt LoginAttemptLimiter.live
  cases limiter.buckets.lookup identity with
  | none => exact le_rfl
  | some bucket =>
    by_cases hlive : t < bucket.resetAt
    · have hnow : now < bucket.resetAt := by omega
      simp [Option.filter_some, hlive, hnow]
    · simp [Option.filter_some, hlive]

/-- A step in which no login of the identity ends: its bucket stays as it is. -/
theorem Throttled.quiet {w w' : Watched} {buckets : Buckets}
    (h : Throttled identity maxFailures windowMs w)
    (hlog : w'.log = w.log) (hclock : w.clock ≤ w'.clock)
    (hheld : Holds w.system.limiter w'.system.limiter w'.clock buckets)
    (hbucket : buckets identity = w.system.limiter.held identity)
    (hnodup : ∀ call ∈ w'.system.calls, call.identities.Nodup)
    (hbudget : w.system.limiter.failuresAt w'.clock identity + w'.system.inFlight identity ≤
      maxFailures) : Throttled identity maxFailures windowMs w' := by
  have hlive : ∀ t, w'.clock ≤ t →
      w'.system.limiter.live t identity = w.system.limiter.live t identity := by
    intro t ht
    rw [LoginAttemptLimiter.live_of_holds hheld ht, Buckets.openAt, hbucket]
    rfl
  refine ⟨hheld.maxFailures.trans h.max, hheld.windowMs.trans h.window, hheld.shows.distinct,
    hnodup, ?_, fun t ht => ?_, ?_⟩
  · rw [LoginAttemptLimiter.failuresAt, hlive w'.clock le_rfl]
    exact hbudget
  · rw [hlive t ht, hlog]
    exact h.counts t (hclock.trans ht)
  · rw [hlog]
    exact h.bound

theorem nodup_set {calls : List Call} {i : Nat} {next : Call}
    (h : ∀ call ∈ calls, call.identities.Nodup) (hnext : next.identities.Nodup) :
    ∀ call ∈ calls.set i next, call.identities.Nodup := by
  intro call hcall
  obtain hold | rfl := List.mem_or_eq_of_mem_set hcall
  · exact h call hold
  · exact hnext

/-- The bucket and the window after one more rejected login. -/
theorem counts_bumped {w : Watched} (h : Throttled identity maxFailures windowMs w) {now : Int}
    (hnow : w.clock ≤ now) (verified : Bool) :
    ∃ window, windowOf windowMs (w.log ++ [.rejected verified now]) = some window ∧
      Counts windowMs (w.system.limiter.held.bumped windowMs now identity) window := by
  rw [windowOf_append]
  refine ⟨_, rfl, ?_⟩
  have hrel := h.counts now hnow
  unfold openWindow at hrel
  rw [Buckets.bumped, ← LoginAttemptLimiter.live_of_holds (Holds.self h.distinct) le_rfl]
  generalize (windowOf windowMs w.log).filter
    (fun window => decide (now < window.openedAt + windowMs)) = window at hrel
  generalize w.system.limiter.live now identity = bucket at hrel
  cases hrel with
  | none =>
    refine ⟨rfl, ?_⟩
    cases verified <;> simp
  | some hcounts =>
    refine ⟨hcounts.resetAt, ?_⟩
    have := hcounts.failed
    cases verified <;> simp <;> omega

theorem bumped_failures (limiter : LoginAttemptLimiter) (now : Int) :
    (limiter.held.bumped windowMs now identity).failures = limiter.failuresAt now identity + 1 := by
  have hopen : limiter.held.openAt now identity = limiter.live now identity := rfl
  rw [Buckets.bumped, LoginAttemptLimiter.failuresAt, hopen]
  cases limiter.live now identity <;> rfl

/-- A login of the identity is rejected. -/
theorem Throttled.rejected {w w' : Watched} {buckets : Buckets}
    (h : Throttled identity maxFailures windowMs w) {now : Int} {verified : Bool}
    (hlog : w'.log = w.log ++ [.rejected verified now]) (hnow : w.clock ≤ now)
    (hheld : Holds w.system.limiter w'.system.limiter w'.clock buckets)
    (hbucket : buckets identity = some (w.system.limiter.held.bumped windowMs now identity))
    (hnodup : ∀ call ∈ w'.system.calls, call.identities.Nodup)
    (hflight : w'.system.inFlight identity + 1 = w.system.inFlight identity) :
    Throttled identity maxFailures windowMs w' := by
  obtain ⟨window, hwindow, hcounts⟩ := counts_bumped h hnow verified
  have hlive : ∀ t, w'.clock ≤ t → w'.system.limiter.live t identity =
      (some (w.system.limiter.held.bumped windowMs now identity)).filter
        fun bucket => decide (t < bucket.resetAt) := by
    intro t ht
    rw [LoginAttemptLimiter.live_of_holds hheld ht, Buckets.openAt, hbucket]
  have hbudget : (w.system.limiter.held.bumped windowMs now identity).failures +
      w'.system.inFlight identity ≤ maxFailures := by
    have hanti := failuresAt_anti hnow w.system.limiter identity
    have hbefore := h.budget
    rw [bumped_failures]
    omega
  refine ⟨hheld.maxFailures.trans h.max, hheld.windowMs.trans h.window, hheld.shows.distinct,
    hnodup, ?_, fun t ht => ?_, fun other hother => ?_⟩
  · rw [LoginAttemptLimiter.failuresAt, hlive w'.clock le_rfl, Option.filter_some]
    split
    · exact hbudget
    · simp only [Option.map_none, Option.getD_none]
      omega
  · rw [hlive t ht, openWindow, hlog, hwindow, Option.filter_some, Option.filter_some,
      hcounts.resetAt]
    split
    · exact .some hcounts
    · exact .none
  · rw [hlog, hwindow] at hother
    obtain rfl := Option.some.inj hother
    have := hcounts.failed
    omega

/-- A login of the identity succeeds. -/
theorem Throttled.succeeded {w w' : Watched} {buckets : Buckets}
    (h : Throttled identity maxFailures windowMs w) (hlog : w'.log = w.log ++ [.succeeded])
    (hheld : Holds w.system.limiter w'.system.limiter w'.clock buckets)
    (hbucket : buckets identity = none)
    (hnodup : ∀ call ∈ w'.system.calls, call.identities.Nodup)
    (hflight : w'.system.inFlight identity + 1 = w.system.inFlight identity) :
    Throttled identity maxFailures windowMs w' := by
  have hlive : ∀ t, w'.clock ≤ t → w'.system.limiter.live t identity = none := by
    intro t ht
    rw [LoginAttemptLimiter.live_of_holds hheld ht, Buckets.openAt, hbucket, Option.filter_none]
  have hwindow : windowOf windowMs w'.log = none := by
    rw [hlog, windowOf_append]
    rfl
  refine ⟨hheld.maxFailures.trans h.max, hheld.windowMs.trans h.window, hheld.shows.distinct,
    hnodup, ?_, fun t ht => ?_, fun other hother => ?_⟩
  · have := h.budget
    rw [LoginAttemptLimiter.failuresAt, hlive w'.clock le_rfl]
    simp only [Option.map_none, Option.getD_none]
    omega
  · rw [hlive t ht, openWindow, hwindow]
    exact .none
  · rw [hwindow] at hother
    cases hother

theorem Throttled.begins {w : Watched} {nowMs : Int} {request : Request}
    (h : Throttled identity maxFailures windowMs w)
    (hforward : Forward primitives w (.begin nowMs request))
    (hroom : Room primitives identity w (.begin nowMs request)) :
    Throttled identity maxFailures windowMs ⟨beginCall primitives w.system nowMs request,
      (readings primitives w.system (.begin nowMs request)).getLastD w.clock, w.log ++ []⟩ := by
  obtain ⟨hheld, call, hcalls, hidentities⟩ := beginCall_cases primitives w.system nowMs
    w.clock request
  have hle := clock_le hforward
  have hflight := inFlight_append hcalls identity
  refine h.quiet (List.append_nil _) hle (hheld h.distinct) rfl (fun other hother => ?_) ?_
  · rw [hcalls] at hother
    obtain hold | hnew := List.mem_append.mp hother
    · exact h.nodup other hold
    · rw [List.mem_singleton.mp hnew, hidentities]
      exact admitted_nodup w.system _
  · show w.system.limiter.failuresAt
      ((readings primitives w.system (.begin nowMs request)).getLastD w.clock) identity + _ ≤ _
    rw [hflight, hidentities]
    by_cases hmem : identity ∈ admitted primitives w.system (.begin nowMs request)
    · have hfits := hroom nowMs request rfl hmem
      rw [h.max] at hfits
      rw [if_pos hmem, clock_of_admitted hmem]
      omega
    · have hanti := failuresAt_anti hle w.system.limiter identity
      have hbudget := h.budget
      rw [if_neg hmem]
      omega

theorem Throttled.resumes {w : Watched} {i : Nat} {input : Input} {call : Call} {s' : System}
    (h : Throttled identity maxFailures windowMs w)
    (hforward : Forward primitives w (.resume i input)) (hcall : w.system.calls[i]? = some call)
    (hs' : resumeCall primitives w.system i input call = some s') :
    Throttled identity maxFailures windowMs ⟨s',
      (readings primitives w.system (.resume i input)).getLastD w.clock,
      w.log ++ attempts primitives identity w.system (.resume i input)⟩ := by
  have hidentities : call.identities.Nodup := h.nodup call (List.mem_of_getElem? hcall)
  cases resumeCall_cases hs' with
  | undecided next hverdict hlimiter hcalls hnext =>
    have hflight := inFlight_set hcall hcalls identity
    have hbudget := h.budget
    rw [hnext] at hflight
    have hreadings : readings primitives w.system (.resume i input) = [] := by
      simp only [readings, hcall, Option.map_some, hverdict]
    have hattempts : attempts primitives identity w.system (.resume i input) = [] := by
      simp only [attempts, hcall, hverdict, ite_self]
    rw [hreadings, hattempts]
    have hheld : Holds w.system.limiter s'.limiter w.clock w.system.limiter.held := by
      rw [hlimiter]
      exact .self h.distinct
    refine h.quiet (List.append_nil _) le_rfl hheld rfl ?_ ?_
    · rw [hcalls]
      exact nodup_set h.nodup (hnext ▸ hidentities)
    · show w.system.limiter.failuresAt w.clock identity + s'.inFlight identity ≤ maxFailures
      omega
  | rejected verified error hverdict hlimiter hcalls =>
    have hflight := inFlight_set hcall hcalls identity
    have hnodup : ∀ call ∈ s'.calls, call.identities.Nodup := by
      rw [hcalls]
      exact nodup_set h.nodup List.nodup_nil
    have hreadings : readings primitives w.system (.resume i input) =
        [input.nowMs, input.nextMs] := by
      simp only [readings, hcall, Option.map_some, hverdict]
    have hle := clock_le hforward
    unfold Forward at hforward
    rw [hreadings] at hforward hle ⊢
    simp only [List.pairwise_cons, List.mem_cons, forall_eq_or_imp] at hforward
    have hheld := ((Holds.self h.distinct).recordFailure hforward.2.1.1 call.identities).2
    rw [← hlimiter] at hheld
    by_cases hmem : identity ∈ call.identities
    · have hattempts : attempts primitives identity w.system (.resume i input) =
          [.rejected verified input.nowMs] := by
        simp [attempts, hcall, hverdict, hmem]
      rw [hattempts]
      refine h.rejected rfl hforward.1.1 hheld ?_ hnodup ?_
      · rw [Buckets.failAll_of_mem hidentities hmem, h.window]
      · simpa [hmem] using hflight
    · have hattempts : attempts primitives identity w.system (.resume i input) = [] := by
        simp [attempts, hcall, hmem]
      rw [hattempts]
      refine h.quiet (List.append_nil _) hle hheld (Buckets.failAll_of_not_mem hmem) hnodup ?_
      have hanti := failuresAt_anti hle w.system.limiter identity
      have hbudget := h.budget
      simp only [hmem, if_false, Call.identities_finished, List.not_mem_nil] at hflight
      show w.system.limiter.failuresAt input.nextMs identity + s'.inFlight identity ≤ maxFailures
      rw [List.getLastD_cons, List.getLastD_cons, List.getLastD_nil] at hanti
      omega
  | succeeded next hverdict hlimiter hcalls hnext =>
    have hflight := inFlight_set hcall hcalls identity
    rw [hnext] at hflight
    have hnodup : ∀ call ∈ s'.calls, call.identities.Nodup := by
      rw [hcalls]
      exact nodup_set h.nodup (hnext ▸ List.nodup_nil)
    have hreadings : readings primitives w.system (.resume i input) = [] := by
      simp only [readings, hcall, Option.map_some, hverdict]
    have hheld : Holds w.system.limiter s'.limiter w.clock
        (w.system.limiter.held.clear call.identities) :=
      hlimiter ▸ (Holds.self h.distinct).clear call.identities
    rw [hreadings]
    by_cases hmem : identity ∈ call.identities
    · have hattempts : attempts primitives identity w.system (.resume i input) =
          [.succeeded] := by
        simp [attempts, hcall, hverdict, hmem]
      rw [hattempts]
      refine h.succeeded rfl hheld (Buckets.clear_of_mem hmem) hnodup ?_
      simpa [hmem] using hflight
    · have hattempts : attempts primitives identity w.system (.resume i input) = [] := by
        simp [attempts, hcall, hmem]
      have hbudget := h.budget
      rw [hattempts]
      refine h.quiet (List.append_nil _) le_rfl hheld (Buckets.clear_of_not_mem hmem) hnodup ?_
      simp only [hmem, if_false, List.not_mem_nil] at hflight
      show w.system.limiter.failuresAt w.clock identity + s'.inFlight identity ≤ maxFailures
      omega

/-- A step of a run that has room for each login that it admits. -/
theorem Throttled.step {w w' : Watched} {e : Event}
    (h : Throttled identity maxFailures windowMs w) (hforward : Forward primitives w e)
    (hroom : Room primitives identity w e) (hstep : watch primitives identity w e = some w') :
    Throttled identity maxFailures windowMs w' := by
  obtain ⟨s', hs', rfl⟩ := Option.map_eq_some_iff.mp hstep
  cases e with
  | begin nowMs request =>
    cases hs'
    exact h.begins hforward hroom
  | resume i input =>
    obtain ⟨call, hcall, hresume⟩ := Option.bind_eq_some_iff.mp hs'
    exact h.resumes hforward hcall hresume
  | fail i =>
    obtain ⟨call, hcall, rfl⟩ := Option.map_eq_some_iff.mp hs'
    have hflight : (w.system.setCall i .failed).inFlight identity + _ = _ :=
      inFlight_set hcall rfl identity
    have hbudget := h.budget
    refine h.quiet (List.append_nil _) le_rfl (.self h.distinct) rfl
      (nodup_set h.nodup List.nodup_nil) ?_
    simp only [Call.identities_failed, List.not_mem_nil, if_false] at hflight
    show w.system.limiter.failuresAt w.clock identity +
      (w.system.setCall i .failed).inFlight identity ≤ maxFailures
    omega

end

/-! ## The throttle -/

/-- A login that none of the identity overlaps has room. -/
theorem room_of_alone {primitives : Primitives} {identity : JsString} {maxFailures windowMs : Nat}
    {w : Watched} {e : Event} (h : Throttled identity maxFailures windowMs w)
    (hmax : 0 < maxFailures) (halone : w.system.inFlight identity = 0) :
    Room primitives identity w e := by
  rintro nowMs request rfl hmem
  rw [halone]
  cases request with
  | login email password context =>
    simp only [admitted] at hmem
    split at hmem
    · cases hmem
    · split at hmem
      · cases hmem
      · rename_i hfree
        exact LoginAttemptLimiter.failuresAt_lt_of_not_blocked h.distinct (h.max ▸ hmax)
          (by simpa using hfree) hmem
  | requestPasswordReset | resetPassword | authenticate => cases hmem

/-- The identity of the account of an address. -/
def accountIdentity (primitives : Primitives) (normalized : JsString) : JsString :=
  ofAscii "account:" ++ hexText (primitives.digest normalized)

/-- **At most `maxFailures` verifications of an account fail in a window**, where each login that is
admitted has room. -/
theorem login_throttle (primitives : Primitives) (tables : Tables) {maxFailures windowMs : Nat}
    {clock : Int} {normalized : JsString} {events : List Event} {w : Watched}
    (hrun : Runs.run (watch primitives (accountIdentity primitives normalized))
      (.start tables maxFailures windowMs clock) events = some w)
    (hguard : Runs.Guarded (watch primitives (accountIdentity primitives normalized))
      (fun w e => Forward primitives w e ∧
        Room primitives (accountIdentity primitives normalized) w e)
      (.start tables maxFailures windowMs clock) events) :
    ∀ window, windowOf windowMs w.log = some window → window.failed ≤ maxFailures := by
  have hinv : Throttled (accountIdentity primitives normalized) maxFailures windowMs w :=
    Runs.run_invariant (fun _ _ _ h hg hs => h.step hg.1 hg.2 hs) (Throttled.start ..) hguard hrun
  exact hinv.bound

/-! ## Guesses after and over each other -/

def exampleGuess : Event :=
  .begin 0 (.login (ofAscii "a@b.c") (ofAscii "a wrong password") ⟨none, none⟩)

/-- A guess is admitted, reads the account and is verified. -/
def guessAfterGuess : List Event :=
  [exampleGuess, .resume 0 (exampleInput "" 0), .resume 0 (exampleInput "" 0),
    exampleGuess, .resume 1 (exampleInput "" 0), .resume 1 (exampleInput "" 0)]

/-- Six guesses are admitted before any of them is verified. -/
def guessesAtOnce : List Event :=
  List.replicate 6 exampleGuess ++
    (List.range 6).flatMap fun i => [.resume i (exampleInput "" 0), .resume i (exampleInput "" 0)]

def exampleStart : Watched := .start ⟨[exampleUser], [], []⟩ 5 900000 0

def exampleWatch : Watched → Event → Option Watched :=
  watch examplePrimitives (accountIdentity examplePrimitives (ofAscii "a@b.c"))

theorem login_throttle_guesses :
    ∃ w, Runs.run exampleWatch exampleStart guessAfterGuess = some w ∧
      (windowOf 900000 w.log).map (·.failed) = some 2 ∧
      ∀ window, windowOf 900000 w.log = some window → window.failed ≤ 5 := by
  have hlast : (Runs.run exampleWatch exampleStart guessAfterGuess).map
      (fun w => (windowOf 900000 w.log).map (·.failed)) = some (some 2) := by decide +kernel
  obtain ⟨w, hrun, hfailed⟩ := Option.map_eq_some_iff.mp hlast
  exact ⟨w, hrun, hfailed, login_throttle examplePrimitives ⟨[exampleUser], [], []⟩ hrun
    (by decide +kernel)⟩

/-- **Concurrent guesses pass the limit.** -/
theorem login_race :
    ∃ w, Runs.run exampleWatch exampleStart guessesAtOnce = some w ∧
      Runs.Guarded exampleWatch (Forward examplePrimitives) exampleStart guessesAtOnce ∧
      ¬ ∀ window, windowOf 900000 w.log = some window → window.failed ≤ 5 := by
  have hlast : (Runs.run exampleWatch exampleStart guessesAtOnce).map
      (fun w => (windowOf 900000 w.log).map (·.failed)) = some (some 6) := by decide +kernel
  obtain ⟨w, hrun, hfailed⟩ := Option.map_eq_some_iff.mp hlast
  obtain ⟨window, hwindow, hsix⟩ := Option.map_eq_some_iff.mp hfailed
  refine ⟨w, hrun, by decide +kernel, fun hall => ?_⟩
  have := hall window hwindow
  omega

end Himitsu.Auth
