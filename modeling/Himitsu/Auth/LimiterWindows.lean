import Himitsu.Auth.Limiter
import Himitsu.Library.Except
import Himitsu.Library.FixedWindow

/-!
# The windows of the login attempt limiter

Runs of `LoginAttemptLimiter` of `packages/auth/src/index.ts` by itself, with any identities.

* `create` — the options and their checks.
* `recordUnswept` — `recordFailure` without its sweep.
* `LimiterCall`, `answers` — the calls of the three methods, and what they return.
* `Ledger.buckets` — the buckets of a ledger that never forgets one.

Principal results: `answers_recordFailure` — a limiter that sweeps answers like one that does not;
`recorded_le` — in no window of an identity more failures are let through than the maximum, whether
a failure counts that is recorded while nothing is blocked or one that leaves nothing blocked.
-/

set_option autoImplicit false

namespace Himitsu.Auth

open JsString Crypto

/-! ## The limiter -/

def positiveInteger (value : Int) (name : JsString) : Except JsString Nat :=
  if value.natAbs ≤ MAX_SAFE_INTEGER ∧ 0 < value then .ok value.toNat
  else .error (name ++ ofAscii " must be a positive integer")

theorem positiveInteger_pos {value : Int} {name : JsString} {n : Nat}
    (h : positiveInteger value name = .ok n) : 0 < n := by
  unfold positiveInteger at h
  split at h
  · rename_i hvalue
    cases h
    omega
  · cases h

structure LoginAttemptLimiterOptions where
  maxFailures : Option Int
  windowMs : Option Int

namespace LoginAttemptLimiter

def create (options : LoginAttemptLimiterOptions) : Except JsString LoginAttemptLimiter := do
  let maxFailures ←
    positiveInteger (options.maxFailures.getD 5) (ofAscii "Maximum login failures")
  let windowMs ←
    positiveInteger (options.windowMs.getD (15 * 60 * 1000)) (ofAscii "Login failure window")
  .ok ⟨maxFailures, windowMs, [], 0⟩

/-- A limiter that `create` has returned. -/
structure IsNew (limiter : LoginAttemptLimiter) : Prop where
  maxFailures : 0 < limiter.maxFailures
  windowMs : 0 < limiter.windowMs
  empty : limiter.buckets = []

theorem isNew_of_create {options : LoginAttemptLimiterOptions} {limiter : LoginAttemptLimiter}
    (h : create options = .ok limiter) : limiter.IsNew := by
  obtain ⟨maxFailures, hmax, h⟩ := Except.bind_eq_ok_iff.mp h
  obtain ⟨windowMs, hwindow, h⟩ := Except.bind_eq_ok_iff.mp h
  cases h
  exact ⟨positiveInteger_pos hmax, positiveInteger_pos hwindow, rfl⟩

/-- `recordFailure` without its sweep. -/
def recordUnswept (now next : Int) (limiter : LoginAttemptLimiter) (identities : List JsString) :
    LoginAttemptLimiter × Bool :=
  isBlocked next (identities.foldl (addFailure now) limiter) identities

end LoginAttemptLimiter

/-! ## Runs -/

/-- A call of the limiter, with its readings of the clock. -/
inductive LimiterCall where
  | isBlocked (identities : List JsString) (now : Int)
  | recordFailure (identities : List JsString) (now next : Int)
  | clear (identities : List JsString)

def LimiterCall.readings : LimiterCall → List Int
  | .isBlocked _ now => [now]
  | .recordFailure _ now next => [now, next]
  | .clear _ => []

/-- What a call returned; `admitted` is whether a check just before it let it through. -/
structure LimiterAnswer where
  call : LimiterCall
  admitted : Bool
  blocked : Bool

/-- Either `recordFailure` or `recordUnswept`. -/
abbrev RecordMethod :=
  Int → Int → LoginAttemptLimiter → List JsString → LoginAttemptLimiter × Bool

/-- One call; `clear` returns nothing. -/
def answer (record : RecordMethod) (limiter : LoginAttemptLimiter) :
    LimiterCall → LoginAttemptLimiter × LimiterAnswer
  | .isBlocked identities now =>
    let checked := limiter.isBlocked now identities
    (checked.1, ⟨.isBlocked identities now, !checked.2, checked.2⟩)
  | .recordFailure identities now next =>
    let recorded := record now next limiter identities
    (recorded.1,
      ⟨.recordFailure identities now next, !(limiter.isBlocked now identities).2, recorded.2⟩)
  | .clear identities => (limiter.clear identities, ⟨.clear identities, true, false⟩)

def answers (record : RecordMethod) (limiter : LoginAttemptLimiter) :
    List LimiterCall → List LimiterAnswer
  | [] => []
  | call :: rest =>
    let next := answer record limiter call
    next.2 :: answers record next.1 rest

/-- The clock does not go back, from one reading to the next. -/
def ForwardReadings (calls : List LimiterCall) : Prop :=
  (calls.flatMap LimiterCall.readings).Pairwise (· ≤ ·)

/-! ## What counts for an identity -/

/-- Failures and clears change the bucket of an identity. -/
def LimiterAnswer.counts (identity : JsString) (answer : LimiterAnswer) : Bool :=
  match answer.call with
  | .isBlocked _ _ => false
  | .recordFailure identities _ _ => identities.contains identity
  | .clear identities => identities.contains identity

/-- An identity that a failure names twice counts twice; a clear closes the window. -/
def identityMeter (windowMs : Nat) (identity : JsString) : FixedWindow.Meter LimiterAnswer where
  windowMs := windowMs
  time answer :=
    match answer.call with
    | .isBlocked _ now => now
    | .recordFailure _ now _ => now
    | .clear _ => 0
  closes answer :=
    match answer.call with
    | .clear _ => true
    | _ => false
  weight answer :=
    match answer.call with
    | .isBlocked _ _ => 0
    | .recordFailure identities _ _ => identities.count identity
    | .clear identities => identities.count identity

/-! ## The ledger -/

abbrev Ledger := JsString → Option FixedWindow.Bucket

def ofBucket (bucket : FixedWindow.Bucket) : LoginAttemptBucket := ⟨bucket.count, bucket.resetAt⟩

/-- Whether one of several identities is blocked. -/
def Ledger.blocks (ledger : Ledger) (maxFailures : Nat) (now : Int) (identities : List JsString) :
    Bool :=
  identities.any fun identity =>
    ((ledger identity).filter fun bucket => decide (now < bucket.resetAt)).any fun bucket =>
      decide (maxFailures ≤ bucket.count)

/-- The ledger after a call; it does not matter how the call was answered. -/
def Ledger.enter (windowMs : Nat) (ledger : Ledger) (answer : LimiterAnswer) : Ledger :=
  FixedWindow.enter (identityMeter windowMs) LimiterAnswer.counts ledger answer

/-- How a call is answered according to the ledger. -/
def Ledger.answer (limiter : LoginAttemptLimiter) (ledger : Ledger) (call : LimiterCall) :
    LimiterAnswer :=
  match call with
  | .isBlocked identities now =>
    let blocked := ledger.blocks limiter.maxFailures now identities
    ⟨call, !blocked, blocked⟩
  | .recordFailure identities now next =>
    let entered := ledger.enter limiter.windowMs ⟨call, true, true⟩
    ⟨call, !ledger.blocks limiter.maxFailures now identities,
      entered.blocks limiter.maxFailures next identities⟩
  | .clear _ => ⟨call, true, false⟩

def Ledger.answers (limiter : LoginAttemptLimiter) (ledger : Ledger) :
    List LimiterCall → List LimiterAnswer
  | [] => []
  | call :: rest =>
    ledger.answer limiter call ::
      (ledger.enter limiter.windowMs (ledger.answer limiter call)).answers limiter rest

/-! ## The limiter keeps the ledger -/

/-- The buckets of a ledger. -/
def Ledger.buckets (ledger : Ledger) : Buckets := fun identity => (ledger identity).map ofBucket

variable {limiter limiter' : LoginAttemptLimiter} {ledger : Ledger} {windowMs : Nat}
  {now next : Int} {identities : List JsString}

theorem Ledger.openAt_buckets (ledger : Ledger) (now : Int) (identity : JsString) :
    ledger.buckets.openAt now identity =
      ((ledger identity).filter fun bucket => decide (now < bucket.resetAt)).map ofBucket := by
  rw [Buckets.openAt, Ledger.buckets]
  cases ledger identity with
  | none => rfl
  | some bucket =>
    rw [Option.map_some, Option.filter_some, Option.filter_some, apply_ite (Option.map ofBucket)]
    rfl

theorem Ledger.blocks_buckets (ledger : Ledger) (maxFailures : Nat) (now : Int)
    (identities : List JsString) :
    ledger.buckets.blocks now maxFailures identities =
      ledger.blocks maxFailures now identities := by
  unfold Buckets.blocks Ledger.blocks
  congr 1
  funext identity
  rw [Ledger.openAt_buckets, Option.any_map]
  rfl

/-- What a failure leaves of the bucket of an identity. -/
def failed (windowMs : Nat) (ledger : Ledger) (now : Int) (identity : JsString) (failures : Nat) :
    FixedWindow.Bucket :=
  let bucket := FixedWindow.found (identityMeter windowMs identity) (ledger identity) now
  { bucket with count := bucket.count + failures }

theorem Ledger.fail_buckets (windowMs : Nat) (ledger : Ledger) (now : Int) (identity : JsString) :
    ledger.buckets.fail windowMs now identity =
      Ledger.buckets
        (Function.update ledger identity (some (failed windowMs ledger now identity 1))) := by
  have hbumped : ledger.buckets.bumped windowMs now identity =
      ofBucket (failed windowMs ledger now identity 1) := by
    unfold Buckets.bumped failed FixedWindow.found
    rw [Ledger.openAt_buckets]
    cases (ledger identity).filter fun bucket => decide (now < bucket.resetAt) <;> rfl
  funext other
  rw [Buckets.fail, hbumped, Ledger.buckets]
  by_cases hother : other = identity
  · rw [hother, Function.update_self, Function.update_self, Option.map_some]
  · rw [Function.update_of_ne hother, Function.update_of_ne hother, Ledger.buckets]

theorem failed_failed (hwindow : 0 < windowMs) (identity : JsString) (failures : Nat) :
    failed windowMs
        (Function.update ledger identity (some (failed windowMs ledger now identity 1)))
        now identity failures =
      failed windowMs ledger now identity (failures + 1) := by
  have hopen := FixedWindow.lt_resetAt_found (m := identityMeter windowMs identity) hwindow
    (ledger identity) now
  rw [failed, Function.update_self, FixedWindow.found_of_lt]
  · simp only [failed, FixedWindow.Bucket.mk.injEq, and_true]
    omega
  · exact hopen

/-- The ledger after the failures of several identities. -/
def Ledger.fail (windowMs : Nat) (ledger : Ledger) (now : Int) (identities : List JsString) :
    Ledger := fun identity =>
  if identities.contains identity then
    some (failed windowMs ledger now identity (identities.count identity))
  else ledger identity

theorem Ledger.fail_cons (hwindow : 0 < windowMs) (first : JsString) (identities : List JsString) :
    ledger.fail windowMs now (first :: identities) =
      Ledger.fail windowMs
        (Function.update ledger first (some (failed windowMs ledger now first 1))) now
        identities := by
  funext identity
  rw [Ledger.fail, Ledger.fail]
  by_cases heq : identity = first
  · subst heq
    rw [if_pos (by simp), List.count_cons_self, failed_failed hwindow, Function.update_self]
    split
    · rfl
    · rename_i hnot
      rw [List.count_eq_zero_of_not_mem (by simpa using hnot)]
  · have hsame : failed windowMs (Function.update ledger first
          (some (failed windowMs ledger now first 1))) now identity (identities.count identity) =
        failed windowMs ledger now identity (identities.count identity) := by
      rw [failed, Function.update_of_ne heq]
      rfl
    rw [hsame, Function.update_of_ne heq, List.count_cons_of_ne (Ne.symm heq)]
    simp only [List.contains_cons, beq_eq_false_iff_ne.mpr heq, Bool.false_or]

/-- The failures of several identities, however often each is named. -/
theorem Ledger.failAll_buckets (hwindow : 0 < windowMs) (ledger : Ledger) (now : Int)
    (identities : List JsString) :
    ledger.buckets.failAll windowMs now identities =
      (ledger.fail windowMs now identities).buckets := by
  induction identities generalizing ledger with
  | nil => rfl
  | cons first identities ih =>
    rw [Ledger.fail_cons hwindow, ← ih, ← Ledger.fail_buckets]
    rfl

/-- A method that answers failures as the buckets say, and keeps them. -/
def Follows (record : RecordMethod) : Prop :=
  ∀ {created limiter now next buckets} identities, now ≤ next → Holds created limiter now buckets →
    (record now next limiter identities).2 =
        (buckets.failAll created.windowMs now identities).blocks next created.maxFailures
          identities ∧
      Holds created (record now next limiter identities).1 next
        (buckets.failAll created.windowMs now identities)

theorem follows_recordUnswept : Follows LoginAttemptLimiter.recordUnswept :=
  fun identities hnext h => ((h.addFailures identities).later hnext).isBlocked identities

theorem follows_recordFailure : Follows LoginAttemptLimiter.recordFailure :=
  fun identities hnext h => h.recordFailure hnext identities

/-! ## Every run -/

theorem enter_recordFailure (windowMs : Nat) (ledger : Ledger) (answer : LimiterAnswer)
    (h : answer.call = .recordFailure identities now next) :
    ledger.enter windowMs answer = ledger.fail windowMs now identities := by
  funext identity
  rw [Ledger.enter, FixedWindow.enter, Ledger.fail]
  simp only [LimiterAnswer.counts, h]
  split
  · rw [FixedWindow.next_of_not_closes (by simp [identityMeter, h])]
    simp only [failed, identityMeter, h]
  · rfl

theorem enter_clear (windowMs : Nat) (ledger : Ledger) (answer : LimiterAnswer)
    (h : answer.call = .clear identities) :
    ledger.enter windowMs answer = fun identity =>
      if identity ∈ identities then none else ledger identity := by
  funext identity
  rw [Ledger.enter, FixedWindow.enter]
  simp only [LimiterAnswer.counts, h, List.contains_iff_mem]
  split
  · exact FixedWindow.next_of_closes (by simp [identityMeter, h])
  · rfl

theorem Ledger.clear_buckets (ledger : Ledger) (identities : List JsString) :
    ledger.buckets.clear identities =
      Ledger.buckets fun identity => if identity ∈ identities then none else ledger identity := by
  rw [Buckets.clear_eq]
  funext identity
  exact (apply_ite (Option.map ofBucket) (identity ∈ identities) none (ledger identity)).symm

/-- The last reading of the clock. -/
def LimiterCall.lastReading (start : Int) (call : LimiterCall) : Int :=
  (call.readings.getLast?).getD start

theorem answer_spec {record : RecordMethod} (h : Follows record) (hwindow : 0 < limiter.windowMs)
    {start : Int} {call : LimiterCall} (hforward : (start :: call.readings).Pairwise (· ≤ ·))
    (hholds : Holds limiter limiter' start ledger.buckets) :
    (answer record limiter' call).2 = ledger.answer limiter call ∧
      Holds limiter (answer record limiter' call).1 (call.lastReading start)
        (ledger.enter limiter.windowMs (ledger.answer limiter call)).buckets := by
  cases call with
  | isBlocked identities now =>
    have hnow : start ≤ now := List.rel_of_pairwise_cons hforward (List.mem_cons_self ..)
    obtain ⟨hblocked, hheld⟩ := (hholds.later hnow).isBlocked identities
    rw [Ledger.blocks_buckets] at hblocked
    refine ⟨?_, hheld⟩
    rw [answer, Ledger.answer, hblocked]
  | recordFailure identities now next =>
    obtain ⟨hstart, hnext⟩ := List.pairwise_cons.mp hforward
    have hholds := hholds.later (hstart now (List.mem_cons_self ..))
    have hnext : now ≤ next := List.rel_of_pairwise_cons hnext (List.mem_cons_self ..)
    obtain ⟨hrecorded, hheld⟩ := h identities hnext hholds
    have hchecked := (hholds.isBlocked identities).1
    rw [Ledger.failAll_buckets hwindow] at hrecorded hheld
    rw [Ledger.blocks_buckets] at hrecorded hchecked
    rw [enter_recordFailure _ _ _ rfl]
    refine ⟨?_, hheld⟩
    rw [answer, Ledger.answer, hrecorded, hchecked, enter_recordFailure _ _ _ rfl]
  | clear identities =>
    rw [enter_clear _ _ _ rfl, ← Ledger.clear_buckets]
    exact ⟨rfl, hholds.clear identities⟩

theorem pairwise_readings {start : Int} {call : LimiterCall} {rest : List Int}
    (h : (start :: (call.readings ++ rest)).Pairwise (· ≤ ·)) :
    (start :: call.readings).Pairwise (· ≤ ·) ∧
      (call.lastReading start :: rest).Pairwise (· ≤ ·) := by
  rw [← List.cons_append, List.pairwise_append] at h
  obtain ⟨hcall, hrest, hbefore⟩ := h
  refine ⟨hcall, List.pairwise_cons.mpr ⟨hbefore _ ?_, hrest⟩⟩
  cases call <;> simp [LimiterCall.lastReading, LimiterCall.readings]

theorem answers_eq_ledger {record : RecordMethod} (h : Follows record)
    (hwindow : 0 < limiter.windowMs) {start : Int} {calls : List LimiterCall}
    (hforward : (start :: calls.flatMap LimiterCall.readings).Pairwise (· ≤ ·))
    (hholds : Holds limiter limiter' start ledger.buckets) :
    answers record limiter' calls = ledger.answers limiter calls := by
  induction calls generalizing start limiter' ledger with
  | nil => rfl
  | cons call rest ih =>
    rw [List.flatMap_cons] at hforward
    obtain ⟨hcall, hrest⟩ := pairwise_readings hforward
    obtain ⟨hanswer, hheld⟩ := answer_spec h hwindow hcall hholds
    rw [answers, Ledger.answers, hanswer, ih hrest hheld]

theorem ForwardReadings.exists_start {calls : List LimiterCall} (h : ForwardReadings calls) :
    ∃ start, (start :: calls.flatMap LimiterCall.readings).Pairwise (· ≤ ·) := by
  unfold ForwardReadings at h
  generalize calls.flatMap LimiterCall.readings = readings at h
  cases readings with
  | nil => exact ⟨0, List.pairwise_singleton ..⟩
  | cons first rest =>
    refine ⟨first, List.pairwise_cons.mpr ⟨fun reading hreading => ?_, h⟩⟩
    obtain rfl | hreading := List.mem_cons.mp hreading
    · exact le_rfl
    · exact List.rel_of_pairwise_cons h hreading

/-- A new limiter answers as an empty ledger says. -/
theorem answers_eq_of_isNew {record : RecordMethod} (h : Follows record) (hnew : limiter.IsNew)
    {calls : List LimiterCall} (hforward : ForwardReadings calls) :
    answers record limiter calls = Ledger.answers limiter (fun _ => none) calls := by
  obtain ⟨start, hstart⟩ := hforward.exists_start
  refine answers_eq_ledger h hnew.windowMs hstart ⟨rfl, rfl, ?_⟩
  rw [hnew.empty]
  exact ExpiringMap.shows_nil

/-- **A sweep changes no answer.** -/
theorem answers_recordFailure (hnew : limiter.IsNew) {calls : List LimiterCall}
    (hforward : ForwardReadings calls) :
    answers LoginAttemptLimiter.recordFailure limiter calls =
      answers LoginAttemptLimiter.recordUnswept limiter calls :=
  (answers_eq_of_isNew follows_recordFailure hnew hforward).trans
    (answers_eq_of_isNew follows_recordUnswept hnew hforward).symm

/-! ## Windows -/

theorem Ledger.map_call_answers (limiter : LoginAttemptLimiter) (ledger : Ledger)
    (calls : List LimiterCall) : (ledger.answers limiter calls).map LimiterAnswer.call = calls := by
  induction calls generalizing ledger with
  | nil => rfl
  | cons call rest ih =>
    rw [Ledger.answers, List.map_cons, ih]
    cases call <;> rfl

theorem eq_answer_of_mem {calls : List LimiterCall} {entry : LimiterAnswer}
    {before : JsString → Option FixedWindow.Bucket}
    (h : (entry, before) ∈ FixedWindow.ledgers (identityMeter limiter.windowMs)
      LimiterAnswer.counts ledger (ledger.answers limiter calls)) :
    entry = Ledger.answer limiter before entry.call := by
  induction calls generalizing ledger with
  | nil => exact absurd h List.not_mem_nil
  | cons call rest ih =>
    rw [Ledger.answers, FixedWindow.ledgers] at h
    obtain h | h := List.mem_cons.mp h
    · cases h
      cases call <;> rfl
    · exact ih h

/-- An identity that is not blocked has few failures, or its bucket has expired. -/
theorem Ledger.lt_of_not_blocks {maxFailures : Nat} {identity : JsString}
    {bucket : FixedWindow.Bucket} (h : ledger.blocks maxFailures now identities = false)
    (hmem : identity ∈ identities) (hbucket : ledger identity = some bucket) :
    bucket.count < maxFailures ∨ bucket.resetAt ≤ now := by
  have hfew := List.any_eq_false.mp h identity hmem
  rw [hbucket, Option.filter_some] at hfew
  by_cases hopen : now < bucket.resetAt
  · rw [if_pos (decide_eq_true hopen), Option.any_some, decide_eq_true_eq, not_le] at hfew
    exact .inl hfew
  · exact .inr (not_lt.mp hopen)

theorem Ledger.found_lt_of_not_blocks {maxFailures windowMs : Nat} {identity : JsString}
    (hmax : 0 < maxFailures) (h : ledger.blocks maxFailures now identities = false)
    (hmem : identity ∈ identities) :
    (FixedWindow.found (identityMeter windowMs identity) (ledger identity) now).count <
      maxFailures := by
  cases hbucket : ledger identity with
  | none => exact hmax
  | some bucket =>
    by_cases hopen : now < bucket.resetAt
    · rw [FixedWindow.found_of_lt hopen]
      exact (Ledger.lt_of_not_blocks h hmem hbucket).resolve_right (not_le.mpr hopen)
    · rw [FixedWindow.found_of_le (not_lt.mp hopen)]
      exact hmax

/-- What counts for an identity without closing its window is a failure. -/
theorem exists_recordFailure {windowMs : Nat} {identity : JsString} {entry : LimiterAnswer}
    (hcounts : entry.counts identity = true)
    (hcloses : (identityMeter windowMs identity).closes entry = false) :
    ∃ identities now next, entry.call = .recordFailure identities now next ∧
      identity ∈ identities := by
  unfold LimiterAnswer.counts at hcounts
  cases hcall : entry.call with
  | isBlocked identities now =>
    rw [hcall] at hcounts
    cases hcounts
  | recordFailure identities now next =>
    rw [hcall] at hcounts
    exact ⟨identities, now, next, rfl, List.contains_iff_mem.mp hcounts⟩
  | clear identities =>
    simp only [identityMeter, hcall] at hcloses
    cases hcloses

/-- When a failure has been answered. -/
def LimiterAnswer.ends (entry : LimiterAnswer) : Int :=
  match entry.call with
  | .recordFailure _ _ next => next
  | _ => 0

theorem pairwise_ends (windowMs : Nat) (identity : JsString) (log : List LimiterAnswer)
    (h : ForwardReadings (log.map LimiterAnswer.call)) :
    (log.filter (LimiterAnswer.counts identity)).Pairwise fun a b =>
      (identityMeter windowMs identity).closes a = false →
      (identityMeter windowMs identity).closes b = false →
        a.ends ≤ (identityMeter windowMs identity).time b := by
  obtain ⟨-, hbetween⟩ := List.pairwise_flatMap.mp h
  rw [List.pairwise_map] at hbetween
  refine (hbetween.sublist List.filter_sublist).imp_of_mem fun ha hb hreadings hopen hopen' => ?_
  obtain ⟨_, _, next, ha, -⟩ := exists_recordFailure (List.mem_filter.mp ha).2 hopen
  obtain ⟨_, now, _, hb, -⟩ := exists_recordFailure (List.mem_filter.mp hb).2 hopen'
  rw [ha, hb] at hreadings
  simp only [LimiterAnswer.ends, identityMeter, ha, hb]
  exact hreadings next (by simp [LimiterCall.readings]) now (by simp [LimiterCall.readings])

/-- How a failure is answered that finds a bucket. -/
theorem failure_spec {calls : List LimiterCall} {identity : JsString}
    {p : LimiterAnswer × FixedWindow.Bucket} (hmax : 0 < limiter.maxFailures)
    (hp : p ∈ FixedWindow.counted (identityMeter limiter.windowMs identity) none
      ((Ledger.answers limiter (fun _ => none) calls).filter (LimiterAnswer.counts identity)))
    (hcloses : (identityMeter limiter.windowMs identity).closes p.1 = false) :
    (p.1.admitted = true → p.2.count < limiter.maxFailures) ∧
      (p.1.blocked = false →
        p.2.count + (identityMeter limiter.windowMs identity).weight p.1 < limiter.maxFailures ∨
          p.2.resetAt ≤ p.1.ends) := by
  obtain ⟨hcounts, before, hbefore, hfound⟩ := FixedWindow.exists_ledger_of_mem_counted
    (identityMeter limiter.windowMs) (fun _ => none) hp
  obtain ⟨identities, now, next, hcall, hmem⟩ := exists_recordFailure hcounts hcloses
  have hentry := eq_answer_of_mem hbefore
  rw [hcall] at hentry
  have htime : (identityMeter limiter.windowMs identity).time p.1 = now := by
    simp only [identityMeter, hcall]
  have hweight : (identityMeter limiter.windowMs identity).weight p.1 =
      identities.count identity := by
    simp only [identityMeter, hcall]
  rw [htime] at hfound
  refine ⟨fun hadmitted => ?_, fun hblocked => ?_⟩
  · rw [hentry] at hadmitted
    rw [hfound]
    exact Ledger.found_lt_of_not_blocks hmax
      (by simpa only [Ledger.answer, Bool.not_eq_true'] using hadmitted) hmem
  · have hends : p.1.ends = next := by
      simp only [LimiterAnswer.ends, hcall]
    rw [hentry] at hblocked
    simp only [Ledger.answer] at hblocked
    rw [enter_recordFailure _ _ _ rfl] at hblocked
    have hbucket : Ledger.fail limiter.windowMs before now identities identity =
        some (failed limiter.windowMs before now identity (identities.count identity)) :=
      if_pos (List.contains_iff_mem.mpr hmem)
    have hfew := Ledger.lt_of_not_blocks hblocked hmem hbucket
    rw [hends, hweight, hfound]
    exact hfew

theorem weight_pos {windowMs : Nat} {identity : JsString} {entry : LimiterAnswer}
    (h : entry.counts identity = true) : 0 < (identityMeter windowMs identity).weight entry := by
  unfold LimiterAnswer.counts at h
  cases hcall : entry.call with
  | isBlocked identities now =>
    rw [hcall] at h
    cases h
  | recordFailure identities now next =>
    rw [hcall] at h
    simp only [identityMeter, hcall]
    exact List.count_pos_iff.mpr (List.contains_iff_mem.mp h)
  | clear identities =>
    rw [hcall] at h
    simp only [identityMeter, hcall]
    exact List.count_pos_iff.mpr (List.contains_iff_mem.mp h)

/-- **In no window of an identity more failures are let through than the maximum.** -/
theorem recorded_le (hnew : limiter.IsNew) {calls : List LimiterCall}
    (hforward : ForwardReadings calls) (identity : JsString) :
    ∀ window ∈ FixedWindow.windows (identityMeter limiter.windowMs identity)
        ((answers LoginAttemptLimiter.recordFailure limiter calls).filter
          (LimiterAnswer.counts identity)),
      (window.filter fun entry => entry.admitted).length ≤ limiter.maxFailures ∧
        (window.filter fun entry => !entry.blocked).length ≤ limiter.maxFailures := by
  rw [answers_eq_of_isNew follows_recordFailure hnew hforward]
  have hweight : ∀ entry ∈ (Ledger.answers limiter (fun _ => none) calls).filter
      (LimiterAnswer.counts identity),
      0 < (identityMeter limiter.windowMs identity).weight entry :=
    fun entry hentry => weight_pos (List.mem_filter.mp hentry).2
  have horder := pairwise_ends limiter.windowMs identity
    (Ledger.answers limiter (fun _ => none) calls) (by rwa [Ledger.map_call_answers])
  intro window hwindow
  constructor
  · exact FixedWindow.length_filter_le hnew.windowMs hweight
      (fun p hp hcloses => (failure_spec hnew.maxFailures hp hcloses).1) window hwindow
  · refine FixedWindow.length_filter_le_of_ends hnew.windowMs hweight hnew.maxFailures horder
      (fun p hp hcloses hblocked => ?_) window hwindow
    exact (failure_spec hnew.maxFailures hp hcloses).2 (by simpa using hblocked)

end Himitsu.Auth
