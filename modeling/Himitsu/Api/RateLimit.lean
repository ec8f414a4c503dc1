import Himitsu.Auth.LimiterWindows

/-!
# The rate limiter of the API

Model of `InMemoryRateLimiter` of `apps/api/src/index.ts`. Its `positiveInteger` is that of
`packages/auth`; a number that is no integer is rejected like one that is not positive.

* `charge` — the part of `consume` before the sweep: a call counts in the bucket of its key.
* `consume` — every 1000 calls the buckets of all keys go that have expired.
* `answers` — the calls of a run with the decisions on them.
* `ledgerAnswers` — the answers of a limiter that keeps a ledger, which never forgets a bucket.

Principal results: `answers_consume` — a limiter that sweeps answers like one that does not;
`answers_allowed_le` — no window of a key has more allowed calls than the limit; `limiters_unswept`
— both for this limiter and the one of the logins.
-/

set_option autoImplicit false

namespace Himitsu.Api

open JsString

open Auth (positiveInteger positiveInteger_pos)

/-! ## The limiter -/

structure RateLimitDecision where
  allowed : Bool
  limit : Nat
  remaining : Nat
  resetAfterSeconds : Int
  deriving DecidableEq, Repr

/-- `RateLimitBucket`: a `count`, and the time `resetAt`. -/
abbrev RateLimitBucket := FixedWindow.Bucket

inductive RateLimitKind where
  | ip
  | apiKey
  deriving DecidableEq, Repr

def RateLimitKind.text : RateLimitKind → JsString
  | .ip => ofAscii "ip"
  | .apiKey => ofAscii "api_key"

structure ApiRateLimitOptions where
  windowMs : Option Int
  perIp : Option Int
  perApiKey : Option Int

structure InMemoryRateLimiter where
  windowMs : Nat
  perIp : Nat
  perApiKey : Nat
  buckets : List (JsString × RateLimitBucket)
  operations : Nat

namespace InMemoryRateLimiter

def create (options : ApiRateLimitOptions) : Except JsString InMemoryRateLimiter := do
  let windowMs ← positiveInteger (options.windowMs.getD 60000) (ofAscii "Rate-limit window")
  let perIp ← positiveInteger (options.perIp.getD 300) (ofAscii "Per-IP rate limit")
  let perApiKey ← positiveInteger (options.perApiKey.getD 120) (ofAscii "Per-key rate limit")
  .ok ⟨windowMs, perIp, perApiKey, [], 0⟩

def limitOf (limiter : InMemoryRateLimiter) : RateLimitKind → Nat
  | .ip => limiter.perIp
  | .apiKey => limiter.perApiKey

/-- A limiter that `create` has returned. -/
structure IsNew (limiter : InMemoryRateLimiter) : Prop where
  windowMs : 0 < limiter.windowMs
  empty : limiter.buckets = []

theorem isNew_of_create {options : ApiRateLimitOptions} {limiter : InMemoryRateLimiter}
    (h : create options = .ok limiter) : limiter.IsNew := by
  obtain ⟨windowMs, hwindow, h⟩ := Except.bind_eq_ok_iff.mp h
  obtain ⟨perIp, -, h⟩ := Except.bind_eq_ok_iff.mp h
  obtain ⟨perApiKey, -, h⟩ := Except.bind_eq_ok_iff.mp h
  cases h
  exact ⟨positiveInteger_pos hwindow, rfl⟩

/-- `` `${kind}:${identity}` ``. -/
def bucketKey (kind : RateLimitKind) (identity : JsString) : JsString :=
  kind.text ++ ofAscii ":" ++ identity

/-- The decision on a call that has been counted in a bucket. -/
def decisionOf (limit : Nat) (bucket : RateLimitBucket) (now : Int) : RateLimitDecision where
  allowed := bucket.count ≤ limit
  limit := limit
  remaining := limit - bucket.count
  -- `Math.ceil((bucket.resetAt - now) / 1000)`
  resetAfterSeconds := max 1 ((bucket.resetAt - now + 999) / 1000)

/-- `consume` without its sweep. -/
def charge (now : Int) (limiter : InMemoryRateLimiter) (kind : RateLimitKind)
    (identity : JsString) : InMemoryRateLimiter × RateLimitDecision :=
  let key := bucketKey kind identity
  let fresh : RateLimitBucket := ⟨0, now + limiter.windowMs⟩
  let found := match limiter.buckets.lookup key with
    | none => fresh
    | some current => if current.resetAt ≤ now then fresh else current
  let bucket : RateLimitBucket := { found with count := found.count + 1 }
  ({ limiter with
      buckets := AssocList.set limiter.buckets key bucket
      operations := limiter.operations + 1 },
    decisionOf (limiter.limitOf kind) bucket now)

/-- Every 1000 calls the expired buckets go. -/
def sweep (now : Int) (limiter : InMemoryRateLimiter) : InMemoryRateLimiter :=
  if limiter.operations % 1000 = 0 then
    { limiter with buckets := limiter.buckets.filter fun entry => !(entry.2.resetAt ≤ now) }
  else limiter

def consume (now : Int) (limiter : InMemoryRateLimiter) (kind : RateLimitKind)
    (identity : JsString) : InMemoryRateLimiter × RateLimitDecision :=
  let charged := charge now limiter kind identity
  (sweep now charged.1, charged.2)

end InMemoryRateLimiter

/-! ## Runs -/

/-- A call of `consume`, at a reading of the clock. -/
structure RateCall where
  kind : RateLimitKind
  identity : JsString
  now : Int

structure RateAnswer where
  call : RateCall
  decision : RateLimitDecision

/-- Either `consume` or `charge`. -/
abbrev RateMethod :=
  Int → InMemoryRateLimiter → RateLimitKind → JsString → InMemoryRateLimiter × RateLimitDecision

def answers (method : RateMethod) (limiter : InMemoryRateLimiter) : List RateCall → List RateAnswer
  | [] => []
  | call :: rest =>
    let next := method call.now limiter call.kind call.identity
    ⟨call, next.2⟩ :: answers method next.1 rest

/-- The clock does not go back. -/
def Forward (calls : List RateCall) : Prop := calls.Pairwise fun a b => a.now ≤ b.now

/-- The answers to the calls for one identity. -/
def answersFor (kind : RateLimitKind) (identity : JsString) (log : List RateAnswer) :
    List RateAnswer :=
  log.filter fun answer => answer.call.kind = kind ∧ answer.call.identity = identity

/-- Each call counts once, and none closes a window. -/
def meter (windowMs : Nat) : FixedWindow.Meter RateAnswer where
  windowMs := windowMs
  time answer := answer.call.now
  closes _ := false
  weight _ := 1

/-! ## The ledger -/

/-- The key of a call. -/
def RateCall.key (call : RateCall) : JsString :=
  InMemoryRateLimiter.bucketKey call.kind call.identity

theorem head?_bucketKey (kind : RateLimitKind) (identity : JsString) :
    (InMemoryRateLimiter.bucketKey kind identity).head? = kind.text.head? := by
  cases kind <;> rfl

theorem bucketKey_inj {kind kind' : RateLimitKind} {identity identity' : JsString} :
    InMemoryRateLimiter.bucketKey kind identity = InMemoryRateLimiter.bucketKey kind' identity' ↔
      kind = kind' ∧ identity = identity' := by
  refine ⟨fun h => ?_, fun ⟨hkind, hidentity⟩ => by rw [hkind, hidentity]⟩
  have hhead : kind.text.head? = kind'.text.head? := by
    rw [← head?_bucketKey kind identity, h, head?_bucketKey]
  have hkind : kind = kind' := by
    revert hhead
    cases kind <;> cases kind' <;> decide
  subst hkind
  exact ⟨rfl, List.append_cancel_left h⟩

def touches (key : JsString) (answer : RateAnswer) : Bool := answer.call.key = key

theorem answersFor_eq (kind : RateLimitKind) (identity : JsString) (log : List RateAnswer) :
    answersFor kind identity log =
      log.filter (touches (InMemoryRateLimiter.bucketKey kind identity)) := by
  refine List.filter_congr fun answer _ => ?_
  rw [touches, RateCall.key]
  exact decide_eq_decide.mpr bucketKey_inj.symm

/-- The ledger after a call; it does not matter how the call was answered. -/
def enter (windowMs : Nat) (ledger : JsString → Option RateLimitBucket) (answer : RateAnswer) :
    JsString → Option RateLimitBucket :=
  FixedWindow.enter (fun _ => meter windowMs) touches ledger answer

/-- The bucket of a call after it has been counted. -/
def bucketOf (windowMs : Nat) (ledger : JsString → Option RateLimitBucket) (call : RateCall) :
    RateLimitBucket :=
  let bucket := FixedWindow.found (meter windowMs) (ledger call.key) call.now
  { bucket with count := bucket.count + 1 }

/-- How a call is answered according to the ledger. -/
def ledgerAnswer (limiter : InMemoryRateLimiter) (ledger : JsString → Option RateLimitBucket)
    (call : RateCall) : RateAnswer where
  call := call
  decision := InMemoryRateLimiter.decisionOf (limiter.limitOf call.kind)
    (bucketOf limiter.windowMs ledger call) call.now

/-- The answers of a limiter that keeps a ledger. -/
def ledgerAnswers (limiter : InMemoryRateLimiter) (ledger : JsString → Option RateLimitBucket) :
    List RateCall → List RateAnswer
  | [] => []
  | call :: rest =>
    let answer := ledgerAnswer limiter ledger call
    answer :: ledgerAnswers limiter (enter limiter.windowMs ledger answer) rest

theorem enter_eq (windowMs : Nat) (ledger : JsString → Option RateLimitBucket)
    (answer : RateAnswer) :
    enter windowMs ledger answer = Function.update ledger answer.call.key
      (some (bucketOf windowMs ledger answer.call)) := by
  funext key
  rw [enter, FixedWindow.enter, touches]
  by_cases hkey : key = answer.call.key
  · rw [hkey, Function.update_self, if_pos (decide_eq_true rfl)]
    rfl
  · rw [Function.update_of_ne hkey, if_neg (by simpa using Ne.symm hkey)]

/-! ## The limiter keeps the ledger -/

/-- The options of a limiter do not change. -/
structure SameOptions (limiter limiter' : InMemoryRateLimiter) : Prop where
  windowMs : limiter'.windowMs = limiter.windowMs
  perIp : limiter'.perIp = limiter.perIp
  perApiKey : limiter'.perApiKey = limiter.perApiKey

variable {limiter limiter' : InMemoryRateLimiter} {ledger : JsString → Option RateLimitBucket}

theorem SameOptions.refl : SameOptions limiter limiter := ⟨rfl, rfl, rfl⟩

theorem SameOptions.trans {limiter'' : InMemoryRateLimiter} (h : SameOptions limiter limiter')
    (h' : SameOptions limiter' limiter'') : SameOptions limiter limiter'' :=
  ⟨h'.windowMs.trans h.windowMs, h'.perIp.trans h.perIp, h'.perApiKey.trans h.perApiKey⟩

theorem SameOptions.limitOf (h : SameOptions limiter limiter') (kind : RateLimitKind) :
    limiter'.limitOf kind = limiter.limitOf kind := by
  cases kind
  · exact h.perIp
  · exact h.perApiKey

/-- A limiter whose buckets are those of a ledger, as far as they are live. -/
abbrev Keeps (now : Int) (limiter : InMemoryRateLimiter)
    (ledger : JsString → Option RateLimitBucket) : Prop :=
  ExpiringMap.Shows FixedWindow.Bucket.resetAt now limiter.buckets ledger

/-- A method that answers as the ledger says, and keeps it. -/
structure Follows (method : RateMethod) : Prop where
  options : ∀ (call : RateCall) limiter,
    SameOptions limiter (method call.now limiter call.kind call.identity).1
  decision : ∀ (call : RateCall) {limiter ledger}, Keeps call.now limiter ledger →
    (method call.now limiter call.kind call.identity).2 =
      (ledgerAnswer limiter ledger call).decision
  keeps : ∀ (call : RateCall) {limiter ledger}, Keeps call.now limiter ledger →
    Keeps call.now (method call.now limiter call.kind call.identity).1
      (enter limiter.windowMs ledger (ledgerAnswer limiter ledger call))

/-- The bucket that a call finds in the map. -/
theorem found_of_keeps {call : RateCall} (h : Keeps call.now limiter ledger) :
    (match limiter.buckets.lookup call.key with
      | none => ⟨0, call.now + limiter.windowMs⟩
      | some current =>
        if current.resetAt ≤ call.now then ⟨0, call.now + limiter.windowMs⟩ else current) =
      FixedWindow.found (meter limiter.windowMs) (ledger call.key) call.now := by
  rw [FixedWindow.found, ← h.found]
  cases limiter.buckets.lookup call.key with
  | none => rfl
  | some current =>
    dsimp only
    by_cases hexpired : current.resetAt ≤ call.now
    · rw [if_pos hexpired, Option.filter_some, if_neg (by simpa using hexpired)]
      rfl
    · rw [if_neg hexpired, Option.filter_some, if_pos (by simpa using hexpired)]
      rfl

theorem follows_charge : Follows InMemoryRateLimiter.charge where
  options _ _ := ⟨rfl, rfl, rfl⟩
  decision call limiter ledger h := by
    have hfound := found_of_keeps h
    rw [RateCall.key] at hfound
    rw [InMemoryRateLimiter.charge, hfound]
    rfl
  keeps call limiter ledger h := by
    have hfound := found_of_keeps h
    rw [RateCall.key] at hfound
    rw [InMemoryRateLimiter.charge, hfound, enter_eq]
    exact h.set _ _

/-- A sweep forgets what has expired. -/
theorem Keeps.sweep {now : Int} (h : Keeps now limiter ledger) :
    Keeps now (limiter.sweep now) ledger := by
  unfold InMemoryRateLimiter.sweep
  split
  · exact ExpiringMap.Shows.sweep h
  · exact h

theorem sameOptions_sweep (now : Int) : SameOptions limiter (limiter.sweep now) := by
  unfold InMemoryRateLimiter.sweep
  split
  · exact ⟨rfl, rfl, rfl⟩
  · exact .refl

theorem follows_consume : Follows InMemoryRateLimiter.consume where
  options call limiter := (follows_charge.options call limiter).trans (sameOptions_sweep _)
  decision call _ _ h := follows_charge.decision call h
  keeps call _ _ h := Keeps.sweep (follows_charge.keeps call h)

/-! ## Every run -/

theorem answers_eq_ledgerAnswers {method : RateMethod} (h : Follows method) {start : Int}
    {calls : List RateCall} (hforward : Forward calls) (hstart : ∀ call ∈ calls, start ≤ call.now)
    (hoptions : SameOptions limiter limiter') (hkeeps : Keeps start limiter' ledger) :
    answers method limiter' calls = ledgerAnswers limiter ledger calls := by
  induction calls generalizing start limiter' ledger with
  | nil => rfl
  | cons call rest ih =>
    obtain ⟨hlater, hforward⟩ := List.pairwise_cons.mp hforward
    have hnow := hkeeps.later (hstart call (List.mem_cons_self ..))
    have hanswer : ledgerAnswer limiter' ledger call = ledgerAnswer limiter ledger call := by
      rw [ledgerAnswer, ledgerAnswer, hoptions.limitOf, hoptions.windowMs]
    have hnext := h.keeps call hnow
    rw [hanswer, hoptions.windowMs] at hnext
    rw [answers, ledgerAnswers, h.decision call hnow, hanswer,
      ih hforward hlater (hoptions.trans (h.options call limiter')) hnext]
    rfl

theorem Forward.exists_start {calls : List RateCall} (h : Forward calls) :
    ∃ start, ∀ call ∈ calls, start ≤ call.now := by
  cases calls with
  | nil => exact ⟨0, fun call hcall => absurd hcall List.not_mem_nil⟩
  | cons first rest =>
    refine ⟨first.now, fun call hcall => ?_⟩
    obtain rfl | hcall := List.mem_cons.mp hcall
    · exact le_rfl
    · exact List.rel_of_pairwise_cons h hcall

/-- A new limiter answers as an empty ledger says. -/
theorem answers_eq_of_isNew {method : RateMethod} (h : Follows method) (hnew : limiter.IsNew)
    {calls : List RateCall} (hforward : Forward calls) :
    answers method limiter calls = ledgerAnswers limiter (fun _ => none) calls := by
  obtain ⟨start, hstart⟩ := hforward.exists_start
  refine answers_eq_ledgerAnswers h hforward hstart .refl ?_
  rw [Keeps, hnew.empty]
  exact ExpiringMap.shows_nil

/-- **A sweep changes no answer.** -/
theorem answers_consume (hnew : limiter.IsNew) {calls : List RateCall}
    (hforward : Forward calls) :
    answers InMemoryRateLimiter.consume limiter calls =
      answers InMemoryRateLimiter.charge limiter calls :=
  (answers_eq_of_isNew follows_consume hnew hforward).trans
    (answers_eq_of_isNew follows_charge hnew hforward).symm

theorem eq_ledgerAnswer_of_mem {calls : List RateCall} {answer : RateAnswer}
    {before : JsString → Option RateLimitBucket}
    (h : (answer, before) ∈ FixedWindow.ledgers (fun _ => meter limiter.windowMs) touches ledger
      (ledgerAnswers limiter ledger calls)) :
    answer = ledgerAnswer limiter before answer.call := by
  induction calls generalizing ledger with
  | nil => exact absurd h List.not_mem_nil
  | cons call rest ih =>
    rw [ledgerAnswers, FixedWindow.ledgers] at h
    obtain h | h := List.mem_cons.mp h
    · cases h
      rfl
    · exact ih h

/-- **No window of an identity has more allowed calls than the limit.** -/
theorem answers_allowed_le (hnew : limiter.IsNew) {calls : List RateCall}
    (hforward : Forward calls) (kind : RateLimitKind) (identity : JsString) :
    ∀ window ∈ FixedWindow.windows (meter limiter.windowMs)
        (answersFor kind identity (answers InMemoryRateLimiter.consume limiter calls)),
      (window.filter fun answer => answer.decision.allowed).length ≤ limiter.limitOf kind := by
  rw [answers_eq_of_isNew follows_consume hnew hforward, answersFor_eq]
  refine FixedWindow.length_filter_le hnew.windowMs (fun _ _ => Nat.one_pos)
    fun p hp _ hallowed => ?_
  obtain ⟨htouches, before, hbefore, hfound⟩ := FixedWindow.exists_ledger_of_mem_counted
    (fun _ => meter limiter.windowMs) (fun _ => none) hp
  obtain ⟨rfl, -⟩ := bucketKey_inj.mp (of_decide_eq_true htouches)
  rw [eq_ledgerAnswer_of_mem hbefore] at hallowed
  rw [hfound, ← of_decide_eq_true htouches]
  exact of_decide_eq_true hallowed

/-! ## Both limiters -/

/-- **No run tells a limiter that sweeps from one that does not**, and no window of a key has more
calls let through than the limit. -/
theorem limiters_unswept {options : ApiRateLimitOptions} {limiter : InMemoryRateLimiter}
    (hcreate : InMemoryRateLimiter.create options = .ok limiter) {calls : List RateCall}
    (hforward : Forward calls) {loginOptions : Auth.LoginAttemptLimiterOptions}
    {loginLimiter : Auth.LoginAttemptLimiter}
    (hlogin : Auth.LoginAttemptLimiter.create loginOptions = .ok loginLimiter)
    {loginCalls : List Auth.LimiterCall} (hreadings : Auth.ForwardReadings loginCalls) :
    answers InMemoryRateLimiter.consume limiter calls =
        answers InMemoryRateLimiter.charge limiter calls ∧
      (∀ kind identity, ∀ window ∈ FixedWindow.windows (meter limiter.windowMs)
          (answersFor kind identity (answers InMemoryRateLimiter.consume limiter calls)),
        (window.filter fun answer => answer.decision.allowed).length ≤ limiter.limitOf kind) ∧
      Auth.answers Auth.LoginAttemptLimiter.recordFailure loginLimiter loginCalls =
        Auth.answers Auth.LoginAttemptLimiter.recordUnswept loginLimiter loginCalls ∧
      ∀ identity, ∀ window ∈ FixedWindow.windows
          (Auth.identityMeter loginLimiter.windowMs identity)
          ((Auth.answers Auth.LoginAttemptLimiter.recordFailure loginLimiter loginCalls).filter
            (Auth.LimiterAnswer.counts identity)),
        (window.filter fun entry => entry.admitted).length ≤ loginLimiter.maxFailures ∧
          (window.filter fun entry => !entry.blocked).length ≤ loginLimiter.maxFailures := by
  have hnew := InMemoryRateLimiter.isNew_of_create hcreate
  have hloginNew := Auth.LoginAttemptLimiter.isNew_of_create hlogin
  exact ⟨answers_consume hnew hforward, answers_allowed_le hnew hforward,
    Auth.answers_recordFailure hloginNew hreadings, Auth.recorded_le hloginNew hreadings⟩

/-! ## Runs with a sweep -/

/-- The limiter after a run. -/
def after (method : RateMethod) (limiter : InMemoryRateLimiter) (calls : List RateCall) :
    InMemoryRateLimiter :=
  calls.foldl (fun limiter call => (method call.now limiter call.kind call.identity).1) limiter

/-- The limiter of the logins after a run. -/
def loginAfter (record : Auth.RecordMethod) (limiter : Auth.LoginAttemptLimiter)
    (calls : List Auth.LimiterCall) : Auth.LoginAttemptLimiter :=
  calls.foldl (fun limiter call => (Auth.answer record limiter call).1) limiter

/-- A call again and again in one window, up to the next sweep. -/
theorem after_replicate {method : RateMethod}
    (hmethod : ∀ now limiter kind identity, (limiter.operations + 1) % 1000 ≠ 0 →
      method now limiter kind identity = InMemoryRateLimiter.charge now limiter kind identity)
    (call : RateCall) {bucket : RateLimitBucket} (hopen : call.now < bucket.resetAt)
    {operations n : Nat} (hfew : operations + n < 1000) (limiter : InMemoryRateLimiter) :
    after method { limiter with buckets := [(call.key, bucket)], operations := operations }
        (List.replicate n call) =
      { limiter with
        buckets := [(call.key, { bucket with count := bucket.count + n })]
        operations := operations + n } := by
  induction n generalizing bucket operations with
  | zero => rfl
  | succ n ih =>
    have hcharged : (InMemoryRateLimiter.charge call.now
        { limiter with buckets := [(call.key, bucket)], operations := operations } call.kind
        call.identity).1 =
      { limiter with
        buckets := [(call.key, { bucket with count := bucket.count + 1 })]
        operations := operations + 1 } := by
      simp [InMemoryRateLimiter.charge, RateCall.key, AssocList.set, not_le.mpr hopen]
    rw [after, List.replicate_succ, List.foldl_cons, hmethod _ _ _ _ (by dsimp only; omega),
      hcharged, ← after,
      @ih { bucket with count := bucket.count + 1 } hopen (operations + 1) (by omega)]
    simp only [Nat.add_assoc, Nat.add_comm 1]

/-- The failures of one identity, again and again in one window. -/
theorem addFailures_replicate (identity : JsString) {now : Int} {bucket : Auth.LoginAttemptBucket}
    (hopen : now < bucket.resetAt) (n : Nat) (limiter : Auth.LoginAttemptLimiter) :
    (List.replicate n identity).foldl (Auth.LoginAttemptLimiter.addFailure now)
        { limiter with buckets := [(identity, bucket)] } =
      { limiter with
        buckets := [(identity, { bucket with failures := bucket.failures + n })] } := by
  induction n generalizing bucket with
  | zero => rfl
  | succ n ih =>
    have hadded : Auth.LoginAttemptLimiter.addFailure now
        { limiter with buckets := [(identity, bucket)] } identity =
      { limiter with
        buckets := [(identity, { bucket with failures := bucket.failures + 1 })] } := by
      simp [Auth.LoginAttemptLimiter.addFailure, AssocList.set, not_le.mpr hopen]
    rw [List.replicate_succ, List.foldl_cons, hadded,
      @ih { bucket with failures := bucket.failures + 1 } hopen]
    simp only [Nat.add_assoc, Nat.add_comm 1]

/-- The thousandth call comes when the window of the others is over. -/
def exampleCalls : List RateCall :=
  ⟨.ip, ofAscii "a", 0⟩ :: (List.replicate 998 ⟨.ip, ofAscii "a", 0⟩ ++ [⟨.ip, ofAscii "b", 10⟩])

def exampleLimiter : InMemoryRateLimiter := ⟨10, 1, 1, [], 0⟩

theorem after_exampleCalls {method : RateMethod}
    (hmethod : ∀ now limiter kind identity, (limiter.operations + 1) % 1000 ≠ 0 →
      method now limiter kind identity = InMemoryRateLimiter.charge now limiter kind identity) :
    after method exampleLimiter exampleCalls =
      (method 10 ⟨10, 1, 1, [(ofAscii "ip:a", ⟨999, 10⟩)], 999⟩ .ip (ofAscii "b")).1 := by
  have hfirst : (method 0 exampleLimiter .ip (ofAscii "a")).1 =
      ⟨10, 1, 1, [(ofAscii "ip:a", ⟨1, 10⟩)], 1⟩ := by
    rw [hmethod _ _ _ _ (by decide)]
    rfl
  have hopen : (0 : Int) < 10 := by decide
  have hrest := @after_replicate method hmethod ⟨.ip, ofAscii "a", 0⟩ ⟨1, 10⟩ hopen 1 998
    (by decide) exampleLimiter
  rw [after, exampleCalls, List.foldl_cons, hfirst, List.foldl_append, ← after]
  exact congrArg (fun limiter => (method 10 limiter .ip (ofAscii "b")).1) hrest

/-- A failure of several identities, a check, and a failure when the window of the first is over. -/
def failuresApart (identities : List JsString) : List Auth.LimiterCall :=
  [.recordFailure identities 0 0, .isBlocked [ofAscii "a"] 1, .recordFailure [ofAscii "b"] 10 10]

/-- The thousandth failure is the one that comes later. -/
def exampleLoginCalls : List Auth.LimiterCall :=
  failuresApart (List.replicate 999 (ofAscii "a"))

def exampleLoginLimiter : Auth.LoginAttemptLimiter := ⟨1, 10, [], 0⟩

theorem loginAfter_failuresApart {record : Auth.RecordMethod} {identities : List JsString}
    {limiter : Auth.LoginAttemptLimiter}
    (h : (record 0 0 exampleLoginLimiter identities).1 = limiter) :
    loginAfter record exampleLoginLimiter (failuresApart identities) =
      (record 10 10 (limiter.isBlocked 1 [ofAscii "a"]).1 [ofAscii "b"]).1 := by
  rw [← h]
  rfl

theorem addFailures_example (n : Nat) :
    (List.replicate (n + 1) (ofAscii "a")).foldl (Auth.LoginAttemptLimiter.addFailure 0)
        exampleLoginLimiter = ⟨1, 10, [(ofAscii "a", ⟨1 + n, 10⟩)], 0⟩ := by
  have hfirst : Auth.LoginAttemptLimiter.addFailure 0 exampleLoginLimiter (ofAscii "a") =
      ⟨1, 10, [(ofAscii "a", ⟨1, 10⟩)], 0⟩ := rfl
  have hopen : (0 : Int) < 10 := by decide
  rw [List.replicate_succ, List.foldl_cons, hfirst]
  exact @addFailures_replicate (ofAscii "a") 0 ⟨1, 10⟩ hopen n exampleLoginLimiter

theorem recordFailure_example {n : Nat} (hfew : n + 1 < 1000) :
    (Auth.LoginAttemptLimiter.recordFailure 0 0 exampleLoginLimiter
        (List.replicate (n + 1) (ofAscii "a"))).1 =
      ⟨1, 10, [(ofAscii "a", ⟨1 + n, 10⟩)], n + 1⟩ := by
  unfold Auth.LoginAttemptLimiter.recordFailure
  rw [addFailures_example, List.length_replicate]
  dsimp only
  rw [if_neg (by omega), List.replicate_succ]
  simp [Auth.LoginAttemptLimiter.isBlocked]

theorem recordUnswept_example (n : Nat) :
    (Auth.LoginAttemptLimiter.recordUnswept 0 0 exampleLoginLimiter
        (List.replicate (n + 1) (ofAscii "a"))).1 =
      ⟨1, 10, [(ofAscii "a", ⟨1 + n, 10⟩)], 0⟩ := by
  rw [Auth.LoginAttemptLimiter.recordUnswept, addFailures_example, List.replicate_succ]
  simp [Auth.LoginAttemptLimiter.isBlocked]

/-- The sweeps leave what is live of the buckets, and no answer differs. -/
theorem limiters_unswept_example :
    ((after InMemoryRateLimiter.consume exampleLimiter exampleCalls).buckets =
          [(ofAscii "ip:b", ⟨1, 20⟩)] ∧
        (after InMemoryRateLimiter.charge exampleLimiter exampleCalls).buckets =
          [(ofAscii "ip:a", ⟨999, 10⟩), (ofAscii "ip:b", ⟨1, 20⟩)]) ∧
      answers InMemoryRateLimiter.consume exampleLimiter exampleCalls =
        answers InMemoryRateLimiter.charge exampleLimiter exampleCalls ∧
      ((loginAfter Auth.LoginAttemptLimiter.recordFailure exampleLoginLimiter
            exampleLoginCalls).buckets = [(ofAscii "b", ⟨1, 20⟩)] ∧
        (loginAfter Auth.LoginAttemptLimiter.recordUnswept exampleLoginLimiter
            exampleLoginCalls).buckets =
          [(ofAscii "a", ⟨999, 10⟩), (ofAscii "b", ⟨1, 20⟩)]) ∧
      Auth.answers Auth.LoginAttemptLimiter.recordFailure exampleLoginLimiter exampleLoginCalls =
        Auth.answers Auth.LoginAttemptLimiter.recordUnswept exampleLoginLimiter
          exampleLoginCalls := by
  have hcreate : InMemoryRateLimiter.create ⟨some 10, some 1, some 1⟩ = .ok exampleLimiter := rfl
  have hforward : Forward exampleCalls := by
    have hfirst : ∀ call ∈ exampleCalls, 0 ≤ call.now := by
      intro call hcall
      obtain rfl | hcall := List.mem_cons.mp hcall
      · exact le_rfl
      · obtain hcall | hcall := List.mem_append.mp hcall
        · rw [List.eq_of_mem_replicate hcall]
        · rw [List.mem_singleton.mp hcall]
          decide
    refine List.pairwise_cons.mpr ⟨fun call hcall => hfirst call (List.mem_cons_of_mem _ hcall),
      List.pairwise_append.mpr ⟨List.pairwise_replicate.mpr (.inr le_rfl),
        List.pairwise_singleton .., fun a ha b hb => ?_⟩⟩
    rw [List.eq_of_mem_replicate ha, List.mem_singleton.mp hb]
    decide
  have hlogin : Auth.LoginAttemptLimiter.create ⟨some 1, some 10⟩ = .ok exampleLoginLimiter := rfl
  have hreadings : Auth.ForwardReadings exampleLoginCalls := by
    unfold Auth.ForwardReadings
    decide
  have hrun := limiters_unswept hcreate hforward hlogin hreadings
  refine ⟨⟨?_, ?_⟩, hrun.1, ⟨?_, ?_⟩, hrun.2.2.1⟩
  · rw [after_exampleCalls fun _ _ _ _ h => by simp [InMemoryRateLimiter.consume,
      InMemoryRateLimiter.sweep, InMemoryRateLimiter.charge, h]]
    decide +kernel
  · rw [after_exampleCalls fun _ _ _ _ _ => rfl]
    decide +kernel
  · have hfew : 998 + 1 < 1000 := by decide
    rw [exampleLoginCalls, loginAfter_failuresApart (recordFailure_example hfew)]
    rfl
  · rw [exampleLoginCalls, loginAfter_failuresApart (recordUnswept_example 998)]
    rfl

end Himitsu.Api
