import Himitsu.Services.Calls

/-!
# Retries of the Go client

Model of `Client.do` and `Client.handle` of `integrations/client/client.go`, against a server that
carries out a request or does not, over a network that loses requests and answers.

* `Served` — what the server does with the request: its answer, its state, and whether it has
  committed.
* `Plan` — what happens to one attempt.
* `Tried` — an attempt that was made: whether the server committed and what the client saw.
* `patchSecret` — the server on a `PATCH` of a secret.

Principal results: `commits_le` — a call commits once more only after an attempt that committed and
whose answer was lost or asks for a retry; `updateSecret_twice` — such a call commits twice.
-/

set_option autoImplicit false

namespace Himitsu.Client

open JsString

/-! ## Requests and answers -/

inductive Method where
  | get
  | post
  | patch
  | delete
  deriving DecidableEq, Repr

def Method.text : Method → String
  | .get => "GET"
  | .post => "POST"
  | .patch => "PATCH"
  | .delete => "DELETE"

/-- `expectsData` where `out` is set and `expectsMeta` where `meta` is. -/
structure Request where
  method : Method
  path : String
  expectsData : Bool
  expectsMeta : Bool
  okStatus : List Nat

/-- The body is no envelope, or an envelope with the text of its data. -/
inductive Body where
  | malformed (cause : String)
  | envelope (data : String)

structure Response where
  statusCode : Nat
  body : Body
  /-- What `decodeError` makes of the body. -/
  message : JsString

/-- A transport error without its cause. -/
inductive ClientError where
  | context
  | transport (message : String)
  | decoding (message : String)
  | api (statusCode : Nat) (message : JsString)
  | exhausted (message : String) (last : ClientError)

def isRetryable (statusCode : Nat) : Bool := statusCode == 429 || statusCode ≥ 500

inductive Handled (β : Type) where
  | final (result : Except ClientError (Option β))
  | retry (error : ClientError)

section

variable {σ β : Type} (unmarshal : String → Except String β)

/-- The data of a successful answer. -/
def decodeData (req : Request) : Body → Except ClientError (Option β)
  | .malformed cause =>
    .error (.decoding ("himitsu: decoding " ++ req.method.text ++ " " ++ req.path ++
      " response: " ++ cause))
  | .envelope data =>
    if !req.expectsData then .ok none
    else if data = "" then
      .error (.decoding ("himitsu: " ++ req.method.text ++ " " ++ req.path ++
        " returned no data field"))
    else match unmarshal data with
      | .error cause =>
        .error (.decoding ("himitsu: decoding " ++ req.method.text ++ " " ++ req.path ++
          " data: " ++ cause))
      | .ok value => .ok (some value)

def handle (req : Request) (response : Response) : Handled β :=
  if req.okStatus.contains response.statusCode then .final (.ok none)
  else if 200 ≤ response.statusCode ∧ response.statusCode < 300 then
    if !req.expectsData && !req.expectsMeta then .final (.ok none)
    else .final (decodeData unmarshal req response.body)
  else if isRetryable response.statusCode then
    .retry (.api response.statusCode response.message)
  else .final (.error (.api response.statusCode response.message))

/-! ## Attempts -/

structure Served (σ : Type) where
  response : Response
  after : σ
  committed : Bool

/-- `replaced` is an answer that is not the handler's, after the handler has run. -/
inductive Delivery where
  | requestLost
  | responseLost
  | delivered
  | replaced (response : Response)

/-- `interrupted` and `cancelled` tell whether the context is done when the client wakes up and when
a transport failure is noticed; `others` is what other clients do before the attempt. -/
structure Plan (σ : Type) where
  interrupted : Bool
  others : σ → σ
  delivery : Delivery
  cancelled : Bool

structure Tried where
  committed : Bool
  seen : Option Response

/-- The state of the server and what the client saw of an attempt. -/
def tryOnce (serve : σ → Served σ) (s : σ) : Delivery → σ × Tried
  | .requestLost => (s, ⟨false, none⟩)
  | .responseLost => ((serve s).after, ⟨(serve s).committed, none⟩)
  | .delivered => ((serve s).after, ⟨(serve s).committed, some (serve s).response⟩)
  | .replaced response => ((serve s).after, ⟨(serve s).committed, some response⟩)

structure Call (σ β : Type) where
  state : σ
  result : Except ClientError (Option β)
  tried : List Tried

def Call.after (tried : Tried) (call : Call σ β) : Call σ β :=
  { call with tried := tried :: call.tried }

variable (req : Request) (serve : Nat → σ → Served σ) (plan : Nat → Plan σ) (maxAttempts : Nat)

/-- The loop from an attempt on. -/
def doFrom (attempt : Nat) : Nat → Option ClientError → σ → Call σ β
  | 0, lastErr, s =>
    ⟨s, .error (.exhausted ("after " ++ toString maxAttempts ++ " attempts")
      (lastErr.getD (.transport "himitsu: request failed"))), []⟩
  | remaining + 1, _, s =>
    if attempt > 1 ∧ (plan attempt).interrupted then ⟨s, .error .context, []⟩
    else
      let (s', tried) := tryOnce (serve attempt) ((plan attempt).others s) (plan attempt).delivery
      match tried.seen with
      | none =>
        if (plan attempt).cancelled then ⟨s', .error .context, [tried]⟩
        else (doFrom (attempt + 1) remaining (some (.transport ("himitsu: " ++ req.method.text ++
          " " ++ req.path))) s').after tried
      | some response =>
        match handle unmarshal req response with
        | .final result => ⟨s', result, [tried]⟩
        | .retry error => (doFrom (attempt + 1) remaining (some error) s').after tried

/-- `Client.do`. -/
def doRequest (s : σ) : Call σ β :=
  doFrom unmarshal req serve plan maxAttempts 1 maxAttempts none s

/-! ## What a call commits -/

/-- No answer arrived, or one that asks for a retry. -/
def Tried.unclear (tried : Tried) : Bool :=
  tried.seen.all fun response => isRetryable response.statusCode

def Call.commits (call : Call σ β) : Nat := call.tried.countP (·.committed)

/-- The attempts that committed without the client being told. -/
def Call.unseenCommits (call : Call σ β) : Nat :=
  call.tried.countP fun tried => tried.committed && tried.unclear

variable {unmarshal} {req} in
theorem retry_isRetryable {response : Response} {error : ClientError}
    (h : handle unmarshal req response = .retry error) : isRetryable response.statusCode = true := by
  unfold handle at h
  split at h
  · cases h
  split at h
  · split at h <;> cases h
  split at h
  · assumption
  · cases h

variable {unmarshal req serve plan maxAttempts}

@[simp] theorem Call.commits_after (tried : Tried) (call : Call σ β) :
    (call.after tried).commits = call.commits + if tried.committed then 1 else 0 := by
  simp [Call.commits, Call.after, List.countP_cons]

@[simp] theorem Call.unseenCommits_after (tried : Tried) (call : Call σ β) :
    (call.after tried).unseenCommits =
      call.unseenCommits + if tried.committed && tried.unclear then 1 else 0 := by
  simp [Call.unseenCommits, Call.after, List.countP_cons]

@[simp] theorem Call.commits_none (s : σ) (result : Except ClientError (Option β)) :
    (⟨s, result, []⟩ : Call σ β).commits = 0 := rfl

@[simp] theorem Call.unseenCommits_none (s : σ) (result : Except ClientError (Option β)) :
    (⟨s, result, []⟩ : Call σ β).unseenCommits = 0 := rfl

theorem Call.commits_single (s : σ) (result : Except ClientError (Option β)) (tried : Tried) :
    (⟨s, result, [tried]⟩ : Call σ β).commits ≤ 1 := by
  unfold Call.commits
  exact (List.countP_le_length).trans (by simp)

/-- The calls that a loop with this many attempts left can make. -/
structure Bounded (remaining : Nat) (call : Call σ β) : Prop where
  attempts : call.commits ≤ remaining
  unseen : call.commits ≤ 1 + call.unseenCommits

theorem Bounded.none (remaining : Nat) (s : σ) (result : Except ClientError (Option β)) :
    Bounded remaining (⟨s, result, []⟩ : Call σ β) := by
  constructor <;> simp

theorem Bounded.single (remaining : Nat) (s : σ) (result : Except ClientError (Option β))
    (tried : Tried) : Bounded (remaining + 1) (⟨s, result, [tried]⟩ : Call σ β) := by
  have hone := Call.commits_single s result tried
  constructor <;> omega

/-- The loop goes on only after an attempt whose outcome the client does not know. -/
theorem Bounded.after {remaining : Nat} {call : Call σ β} {tried : Tried}
    (hunclear : tried.unclear = true) (h : Bounded remaining call) :
    Bounded (remaining + 1) (call.after tried) := by
  obtain ⟨hattempts, hunseen⟩ := h
  constructor
  · rw [Call.commits_after]
    split <;> omega
  · rw [Call.commits_after, Call.unseenCommits_after, hunclear, Bool.and_true]
    split <;> omega

theorem doFrom_bounded (attempt remaining : Nat) (lastErr : Option ClientError) (s : σ) :
    Bounded remaining
      (doFrom unmarshal req serve plan maxAttempts attempt remaining lastErr s) := by
  induction remaining generalizing attempt lastErr s with
  | zero => exact .none 0 s _
  | succ remaining ih =>
    unfold doFrom
    split
    · exact .none _ s _
    generalize tryOnce (serve attempt) ((plan attempt).others s) (plan attempt).delivery = outcome
    obtain ⟨s', tried⟩ := outcome
    dsimp only
    split
    · rename_i hseen
      split
      · exact .single remaining s' _ tried
      · exact (ih ..).after (by simp [Tried.unclear, hseen])
    · rename_i response hseen
      split
      · exact .single remaining s' _ tried
      · rename_i error hretry
        exact (ih ..).after (by simp [Tried.unclear, hseen, retry_isRetryable hretry])

end

section

variable {σ β : Type}

/-- **A call commits at most once, and once more for each attempt that committed without the client
being told.** -/
theorem commits_le (unmarshal : String → Except String β) (req : Request)
    (serve : Nat → σ → Served σ) (plan : Nat → Plan σ) (maxAttempts : Nat) (s : σ) :
    let call := doRequest unmarshal req serve plan maxAttempts s
    call.commits ≤ maxAttempts ∧ call.commits ≤ 1 + call.unseenCommits :=
  have h := doFrom_bounded 1 maxAttempts none s
  ⟨h.attempts, h.unseen⟩

end

/-! ## `UpdateSecret` -/

open Services Crypto Database

/-- `mapError`, for the errors of the services. -/
def mapError : ServiceError → Nat × JsString
  | .authorization _ => (403, ofAscii "Permission denied")
  | .secret error => (secretStatus error.code, error.message)
  | .environment error => (environmentStatus error.code, error.message)
  | .project error => (projectStatus error.code, error.message)
  | .audit error => (400, error.message)
  | .sql .uniqueViolation => (409, ofAscii "Resource already exists")
  | .crypto _ | .sql _ | .other _ => (500, ofAscii "An unexpected error occurred")
where
  secretStatus : Secrets.SecretErrorCode → Nat
    | .notFound | .versionNotFound => 404
    | .keyExists | .versionConflict => 409
    | _ => 400
  environmentStatus : EnvironmentErrorCode → Nat
    | .notFound => 404
    | .slugExists => 409
    | _ => 400
  projectStatus : ProjectErrorCode → Nat
    | .notFound => 404
    | .slugExists => 409
    | _ => 400

/-- `UpdateSecret`. -/
def updateSecret (secretId : String) : Request where
  method := .patch
  path := "/api/v1/secrets/" ++ secretId
  expectsData := true
  expectsMeta := false
  okStatus := []

/-- `PATCH /api/v1/secrets/:secretId`. -/
def patchSecret {wrapper : KeyWrapper} (config : Config) (json : Answer → String)
    (userId secretId : Uuid) (input : Secrets.UpdateSecretInput) (draws : Nat → Draws)
    (attempt : Nat) (db : Db wrapper) : Served (Db wrapper) :=
  let responded := respond config db ⟨userId, draws attempt, .secret (.update secretId input)⟩
  match responded.1 with
  | .ok answer => ⟨⟨200, .envelope (json answer), []⟩, responded.2, true⟩
  | .error error => ⟨⟨(mapError error).1, .envelope "", (mapError error).2⟩, responded.2, false⟩

/-- An installation with a secret. -/
def oneSecret : Db exampleWrapper :=
  afterAll exampleConfig newOrganization [.call (createApp 1),
    .call (callAt 2 (.secret (.create ⟨100⟩ ⟨101⟩
      ⟨ofAscii "TOKEN", ofAscii "one", none, none, false, none⟩)))]

/-- The first answer is lost. -/
def losesFirst {σ : Type} (attempt : Nat) : Plan σ :=
  ⟨false, id, if attempt = 1 then .responseLost else .delivered, false⟩

/-- A call that sets the value of that secret. -/
def updateOnce : Call (Db exampleWrapper) String :=
  doRequest .ok (updateSecret "00000000-0000-0000-0000-0000000000c8")
    (patchSecret exampleConfig (fun _ => "\x7b\x7d") exampleUser ⟨200⟩
      ⟨some (ofAscii "two"), none, none, none, none⟩ fun attempt => drawsAt (2 + attempt))
    losesFirst 4 oneSecret

/-- **A call without an expected version can make two versions.** -/
theorem updateSecret_twice :
    oneSecret.secrets.map (fun secret => (secret.id, secret.currentVersion)) = [(⟨200⟩, 1)] ∧
      updateOnce.commits = 2 ∧ updateOnce.result.isOk = true ∧
      updateOnce.state.secrets.map (fun secret => (secret.id, secret.currentVersion)) =
        [(⟨200⟩, 3)] := by
  decide +kernel

end Himitsu.Client
