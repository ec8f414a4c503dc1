import Himitsu.Auth.Service
import Himitsu.Library.ExpiringMap

/-!
# The buckets of the login attempt limiter

What the methods of `LoginAttemptLimiter` do to its buckets, beside a map that never forgets one.

* `Buckets.blocks`, `Buckets.failAll`, `Buckets.clear` — a check, failures and a clear on such a
  map.
* `Holds` — a limiter with given options whose live buckets are those of the map.

Principal results: `Holds.isBlocked`, `Holds.recordFailure`, `Holds.clear` — each method keeps
`Holds`, and finds what the map says.
-/

set_option autoImplicit false

namespace Himitsu.Auth

open JsString

/-! ## A map that forgets nothing -/

abbrev Buckets := JsString → Option LoginAttemptBucket

namespace Buckets

variable (buckets : Buckets) (windowMs : Nat) (now : Int)

/-- The bucket of an identity, until it expires. -/
def openAt (identity : JsString) : Option LoginAttemptBucket :=
  (buckets identity).filter fun bucket => decide (now < bucket.resetAt)

/-- Whether one of several identities is blocked. -/
def blocks (maxFailures : Nat) (identities : List JsString) : Bool :=
  identities.any fun identity =>
    (buckets.openAt now identity).any fun bucket => decide (maxFailures ≤ bucket.failures)

/-- The bucket of an identity after one more failure. -/
def bumped (identity : JsString) : LoginAttemptBucket :=
  let bucket := (buckets.openAt now identity).getD ⟨0, now + windowMs⟩
  { bucket with failures := bucket.failures + 1 }

def fail (identity : JsString) : Buckets :=
  Function.update buckets identity (some (buckets.bumped windowMs now identity))

def failAll (identities : List JsString) : Buckets :=
  identities.foldl (fun buckets identity => buckets.fail windowMs now identity) buckets

def clear (identities : List JsString) : Buckets := fun identity =>
  if identities.contains identity then none else buckets identity

variable {buckets windowMs now}

theorem clear_eq (identities : List JsString) :
    buckets.clear identities = fun identity =>
      if identity ∈ identities then none else buckets identity := by
  funext identity
  simp only [clear, List.contains_iff_mem]

theorem clear_of_mem {identities : List JsString} {identity : JsString}
    (h : identity ∈ identities) : buckets.clear identities identity = none := by
  rw [clear_eq]
  exact if_pos h

theorem clear_of_not_mem {identities : List JsString} {identity : JsString}
    (h : identity ∉ identities) : buckets.clear identities identity = buckets identity := by
  rw [clear_eq]
  exact if_neg h

theorem failAll_of_not_mem {identities : List JsString} {identity : JsString}
    (h : identity ∉ identities) :
    buckets.failAll windowMs now identities identity = buckets identity := by
  induction identities generalizing buckets with
  | nil => rfl
  | cons first identities ih =>
    rw [List.mem_cons, not_or] at h
    exact (ih h.2).trans (Function.update_of_ne h.1 _ _)

/-- An identity that is named once has one more failure. -/
theorem failAll_of_mem {identities : List JsString} (hnodup : identities.Nodup)
    {identity : JsString} (h : identity ∈ identities) :
    buckets.failAll windowMs now identities identity =
      some (buckets.bumped windowMs now identity) := by
  induction identities generalizing buckets with
  | nil => cases h
  | cons first identities ih =>
    obtain ⟨hfirst, hrest⟩ := List.nodup_cons.mp hnodup
    rw [failAll, List.foldl_cons, ← failAll]
    by_cases heq : identity = first
    · rw [heq, failAll_of_not_mem hfirst, fail, Function.update_self]
    · rw [ih hrest ((List.mem_cons.mp h).resolve_left heq), bumped, bumped, openAt, fail,
        Function.update_of_ne heq]
      rfl

end Buckets

/-! ## Limiters -/

/-- The limiter has the options of `created`, and its live buckets are those of the map. -/
structure Holds (created limiter : LoginAttemptLimiter) (now : Int) (buckets : Buckets) : Prop where
  maxFailures : limiter.maxFailures = created.maxFailures
  windowMs : limiter.windowMs = created.windowMs
  shows : ExpiringMap.Shows LoginAttemptBucket.resetAt now limiter.buckets buckets

variable {created limiter : LoginAttemptLimiter} {now next : Int} {buckets : Buckets}

/-- The map of a limiter's own buckets. -/
def LoginAttemptLimiter.held (limiter : LoginAttemptLimiter) : Buckets := fun identity =>
  limiter.buckets.lookup identity

theorem Holds.self (h : (limiter.buckets.map (·.1)).Nodup) :
    Holds limiter limiter now limiter.held :=
  ⟨rfl, rfl, ExpiringMap.shows_lookup h⟩

theorem Holds.later (h : Holds created limiter now buckets) (hnext : now ≤ next) :
    Holds created limiter next buckets :=
  ⟨h.maxFailures, h.windowMs, h.shows.later hnext⟩

/-- The live bucket of an identity. -/
theorem Holds.live (h : Holds created limiter now buckets) (identity : JsString) :
    ((limiter.buckets.lookup identity).filter fun bucket => decide (now < bucket.resetAt)) =
      buckets.openAt now identity :=
  h.shows.found identity

/-- A check finds what the map says, and forgets at most what has expired. -/
theorem Holds.isBlocked (h : Holds created limiter now buckets) (identities : List JsString) :
    (limiter.isBlocked now identities).2 = buckets.blocks now created.maxFailures identities ∧
      Holds created (limiter.isBlocked now identities).1 now buckets := by
  induction identities generalizing limiter with
  | nil => exact ⟨rfl, h⟩
  | cons identity identities ih =>
    have hlive := h.live identity
    rw [Buckets.blocks, List.any_cons, ← Buckets.blocks]
    unfold LoginAttemptLimiter.isBlocked
    split
    · rename_i hnone
      rw [hnone, Option.filter_none] at hlive
      rw [← hlive]
      exact ih h
    · rename_i bucket hbucket
      rw [hbucket] at hlive
      split
      · rename_i hexpired
        rw [Option.filter_some_eq_none.mpr (by simpa using hexpired)] at hlive
        rw [← hlive]
        exact ih ⟨h.maxFailures, h.windowMs, h.shows.forget hbucket hexpired⟩
      · rename_i hopen
        rw [Option.filter_some_eq_some.mpr (by simpa using hopen)] at hlive
        rw [← hlive, Option.any_some, ← h.maxFailures]
        split
        · rename_i hmany
          have hblocked : decide (limiter.maxFailures ≤ bucket.failures) = true :=
            decide_eq_true hmany
          rw [hblocked]
          exact ⟨rfl, h⟩
        · rename_i hfew
          have hfree : decide (limiter.maxFailures ≤ bucket.failures) = false :=
            decide_eq_false hfew
          rw [hfree, Bool.false_or, h.maxFailures]
          exact ih h

theorem Holds.addFailure (h : Holds created limiter now buckets) (identity : JsString) :
    Holds created (limiter.addFailure now identity) now
      (buckets.fail created.windowMs now identity) := by
  have hlive := h.live identity
  have hbuckets : (limiter.addFailure now identity).buckets =
      AssocList.set limiter.buckets identity (buckets.bumped created.windowMs now identity) := by
    unfold LoginAttemptLimiter.addFailure Buckets.bumped
    rw [← h.windowMs]
    cases hfound : limiter.buckets.lookup identity with
    | none =>
      rw [hfound, Option.filter_none] at hlive
      rw [← hlive]
      rfl
    | some bucket =>
      rw [hfound] at hlive
      by_cases hexpired : bucket.resetAt ≤ now
      · rw [Option.filter_some_eq_none.mpr (by simpa using hexpired)] at hlive
        rw [← hlive]
        simp [hexpired]
      · rw [Option.filter_some_eq_some.mpr (by simpa using hexpired)] at hlive
        rw [← hlive]
        simp [hexpired]
  refine ⟨h.maxFailures, h.windowMs, ?_⟩
  rw [hbuckets]
  exact h.shows.set identity _

theorem Holds.addFailures (h : Holds created limiter now buckets) (identities : List JsString) :
    Holds created (identities.foldl (LoginAttemptLimiter.addFailure now) limiter) now
      (buckets.failAll created.windowMs now identities) := by
  induction identities generalizing limiter buckets with
  | nil => exact h
  | cons first identities ih => exact ih (h.addFailure first)

/-- **Failures** count in the map, and what is swept has expired. -/
theorem Holds.recordFailure (h : Holds created limiter now buckets) (hnext : now ≤ next)
    (identities : List JsString) :
    (limiter.recordFailure now next identities).2 =
        (buckets.failAll created.windowMs now identities).blocks next created.maxFailures
          identities ∧
      Holds created (limiter.recordFailure now next identities).1 next
        (buckets.failAll created.windowMs now identities) := by
  have hadded := h.addFailures identities
  unfold LoginAttemptLimiter.recordFailure
  dsimp only
  split
  · have hswept : Holds created
        { identities.foldl (LoginAttemptLimiter.addFailure now) limiter with
          buckets := (identities.foldl (LoginAttemptLimiter.addFailure now) limiter).buckets.filter
            fun entry => !(entry.2.resetAt ≤ now)
          operations := 0 } now (buckets.failAll created.windowMs now identities) :=
      ⟨hadded.maxFailures, hadded.windowMs, hadded.shows.sweep⟩
    exact (hswept.later hnext).isBlocked identities
  · have hcounted : Holds created
        { identities.foldl (LoginAttemptLimiter.addFailure now) limiter with
          operations := (identities.foldl (LoginAttemptLimiter.addFailure now) limiter).operations +
            identities.length } now (buckets.failAll created.windowMs now identities) :=
      ⟨hadded.maxFailures, hadded.windowMs, hadded.shows⟩
    exact (hcounted.later hnext).isBlocked identities

theorem Holds.clear (h : Holds created limiter now buckets) (identities : List JsString) :
    Holds created (limiter.clear identities) now (buckets.clear identities) :=
  ⟨h.maxFailures, h.windowMs, Buckets.clear_eq identities ▸ h.shows.eraseAll identities⟩

end Himitsu.Auth
