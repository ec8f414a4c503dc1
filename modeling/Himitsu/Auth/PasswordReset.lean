import Himitsu.Auth.Service
import Himitsu.Library.Runs

/-!
# Logins and password resets over each other

Any number of calls of `login`, `requestPasswordReset`, `resetPassword` and `authenticate` of
`packages/auth/src/index.ts` on one database, each resumed at its own moments.

* `Call` — where a call waits: before a statement, or for Argon2.  A reset holds the row lock of its
  token from the `SELECT … FOR UPDATE` on, of its account from the first `UPDATE` on and of the
  sessions it revokes, until it commits.
* `System` — the tables, the calls, and what has happened: the resets that committed and the
  logins that created a session.
* `step` — a call begins, resumes at its next statement, or fails; a statement on a locked row has
  no step.
-/

set_option autoImplicit false

namespace Himitsu.Auth

open JsString Crypto Database

/-! ## What has happened -/

/-- A reset that committed. -/
structure Reset where
  userId : Uuid
  tokenId : Uuid
  resetToken : JsString
  newPassword : JsString
  passwordHash : JsString

/-- A login that created a session: the hash that its password was verified against, and how many
resets of the account had committed when it read the hash. -/
structure Login where
  sessionId : Uuid
  userId : Uuid
  password : JsString
  passwordHash : JsString
  seen : Nat

/-! ## Calls -/

/-- The next statement of a reset whose token is locked. -/
inductive ResetStage where
  | updateUser
  | revokeSessions
  | consumeToken
  | commit
  deriving DecidableEq, Repr

inductive Reply where
  | credentials (sessionToken csrfToken : JsString) (expiresAt : Timestamp) (userId : Uuid)
      (email : JsString)
  | authenticated (session : Session) (email : JsString)
  | nothing

inductive Call where
  | loginSelect (normalized : JsString) (identities : List JsString) (password : JsString)
      (context : ClientContext)
  | loginVerify (user : User) (passwordHash : JsString) (identities : List JsString)
      (password : JsString) (context : ClientContext) (seen : Nat)
  | loginInsert (user : User) (passwordHash password : JsString) (context : ClientContext)
      (sessionToken csrfToken : JsString) (expiresAt : Timestamp) (seen : Nat)
  | requestSelect (normalized : JsString)
  | requestInsert (user : User) (resetToken : JsString) (expiresAt : Timestamp)
  | resetHash (resetToken newPassword : JsString)
  | resetSelect (resetToken newPassword passwordHash : JsString)
  | resetting (stage : ResetStage) (reset : Reset) (startedAt : Timestamp) (revoked : List Uuid)
  | authenticateSelect (sessionToken : JsString)
  | authenticateTouch (session : Session) (email : JsString)
  | finished (result : Except AuthError Reply)
  | failed

inductive Request where
  | login (email password : JsString) (context : ClientContext)
  | requestPasswordReset (email : JsString)
  | resetPassword (resetToken newPassword : JsString)
  | authenticate (sessionToken : JsString)

structure System where
  tables : Tables
  limiter : LoginAttemptLimiter
  calls : List Call
  resets : List Reset
  logins : List Login

/-- What a resumed call reads from its surroundings: `now()` of the statement's transaction, two
readings of the service's clock, random tokens and a salt, and the identifier of a new row. -/
structure Input where
  databaseNow : Timestamp
  nowMs : Int
  nextMs : Int
  tokens : JsString × JsString
  salt : Bytes
  id : Uuid

namespace System

def resetsOf (s : System) (userId : Uuid) : List Reset := s.resets.filter (·.userId = userId)

def setCall (s : System) (i : Nat) (call : Call) : System := { s with calls := s.calls.set i call }

/-! ## Row locks -/

/-- Some reset holds the token. -/
def tokenLocked (s : System) (id : Uuid) : Bool :=
  s.calls.any fun
    | .resetting _ reset _ _ => reset.tokenId == id
    | _ => false

def userLocked (s : System) (id : Uuid) : Bool :=
  s.calls.any fun
    | .resetting stage reset _ _ => stage != .updateUser && reset.userId == id
    | _ => false

def sessionLocked (s : System) (id : Uuid) : Bool :=
  s.calls.any fun
    | .resetting _ _ _ revoked => revoked.contains id
    | _ => false

end System

/-! ## One call -/

section

variable (primitives : Primitives)

/-- The part of a call before its first `await`. -/
def beginCall (s : System) (nowMs : Int) : Request → System
  | .login email password context =>
    match normalizeEmail primitives email with
    | .error e => { s with calls := s.calls ++ [.finished (.error e)] }
    | .ok normalized =>
      let identities := loginIdentities primitives normalized context
      let checked := s.limiter.isBlocked nowMs identities
      let call := if checked.2 then .finished (.error ⟨.rateLimited,
          ofAscii "Too many login attempts; try again later"⟩)
        else .loginSelect normalized identities password context
      { s with limiter := checked.1, calls := s.calls ++ [call] }
  | .requestPasswordReset email =>
    match normalizeEmail primitives email with
    | .error e => { s with calls := s.calls ++ [.finished (.error e)] }
    | .ok normalized => { s with calls := s.calls ++ [.requestSelect normalized] }
  | .resetPassword resetToken newPassword =>
    match validatePassword newPassword with
    | .error e => { s with calls := s.calls ++ [.finished (.error e)] }
    | .ok () => { s with calls := s.calls ++ [.resetHash resetToken newPassword] }
  | .authenticate sessionToken =>
    { s with calls := s.calls ++ [.authenticateSelect sessionToken] }

/-- A login that does not know the password. -/
def rejectLogin (s : System) (i : Nat) (input : Input) (identities : List JsString) : System :=
  let recorded := s.limiter.recordFailure input.nowMs input.nextMs identities
  let error : AuthError := if recorded.2 then
      ⟨.rateLimited, ofAscii "Too many login attempts; try again later"⟩
    else ⟨.invalidCredentials, ofAscii "Invalid email or password"⟩
  { s with limiter := recorded.1, calls := s.calls.set i (.finished (.error error)) }

/-- The row of a new session. -/
def newSession (input : Input) (userId : Uuid) (sessionToken csrfToken : JsString)
    (context : ClientContext) (expiresAt : Timestamp) : Session where
  id := input.id
  userId := userId
  tokenHash := primitives.digest sessionToken
  csrfHash := primitives.digest csrfToken
  ip := context.ip
  userAgent := context.userAgent
  createdAt := input.databaseNow
  lastSeenAt := input.databaseNow
  expiresAt := expiresAt
  revokedAt := none
  activeOrgId := none

/-- A call from one `await` to the next; `none` where its statement waits for a row lock. -/
def resumeCall (s : System) (i : Nat) (input : Input) : Call → Option System
  | .loginSelect normalized identities password context =>
    match s.tables.selectUser normalized with
    | none => some (rejectLogin s i input identities)
    | some user =>
      let passwordHash := user.passwordHash.getD []
      if passwordHash = [] then some (rejectLogin s i input identities)
      else some (s.setCall i (.loginVerify user passwordHash identities password context
        (s.resetsOf user.id).length))
  | .loginVerify user passwordHash identities password context seen =>
    if primitives.verify passwordHash password then
      let cleared := { s with limiter := s.limiter.clear identities }
      if user.emailVerifiedAt.isNone then
        some (cleared.setCall i (.finished (.error ⟨.emailNotVerified,
          ofAscii "Email verification is required"⟩)))
      else some (cleared.setCall i (.loginInsert user passwordHash password context input.tokens.1
        input.tokens.2 (later input.nowMs SESSION_TTL_MS) seen))
    else some (rejectLogin s i input identities)
  | .loginInsert user passwordHash password context sessionToken csrfToken expiresAt seen =>
    match s.tables.insertSession
        (newSession primitives input user.id sessionToken csrfToken context expiresAt) with
    | none => some (s.setCall i .failed)
    | some tables =>
      some { s.setCall i (.finished (.ok
          (.credentials sessionToken csrfToken expiresAt user.id user.email))) with
        tables := tables
        logins := s.logins ++ [⟨input.id, user.id, password, passwordHash, seen⟩] }
  | .requestSelect normalized =>
    match s.tables.selectUser normalized with
    | none => some (s.setCall i (.finished (.ok .nothing)))
    | some user =>
      some (s.setCall i (.requestInsert user input.tokens.1 (later input.nowMs TOKEN_TTL_MS)))
  | .requestInsert user resetToken expiresAt =>
    match s.tables.insertToken ⟨input.id, user.id, primitives.digest resetToken, expiresAt, none,
        input.databaseNow⟩ with
    | none => some (s.setCall i .failed)
    | some tables => some { s.setCall i (.finished (.ok .nothing)) with tables := tables }
  | .resetHash resetToken newPassword =>
    some (s.setCall i (.resetSelect resetToken newPassword
      (primitives.hash input.salt newPassword)))
  | .resetSelect resetToken newPassword passwordHash =>
    match s.tables.selectToken input.databaseNow (primitives.digest resetToken) with
    | none =>
      some (s.setCall i (.finished (.error ⟨.invalidToken, ofAscii "Token is invalid or expired"⟩)))
    | some record =>
      if s.tokenLocked record.id then none
      else some (s.setCall i (.resetting .updateUser
        ⟨record.userId, record.id, resetToken, newPassword, passwordHash⟩ input.databaseNow []))
  | .resetting .updateUser reset startedAt revoked =>
    if s.userLocked reset.userId then none
    else some (s.setCall i (.resetting .revokeSessions reset startedAt revoked))
  | .resetting .revokeSessions reset startedAt _ =>
    some (s.setCall i (.resetting .consumeToken reset startedAt
      (s.tables.openSessions reset.userId)))
  | .resetting .consumeToken reset startedAt revoked =>
    some (s.setCall i (.resetting .commit reset startedAt revoked))
  | .resetting .commit reset startedAt revoked =>
    some { s.setCall i (.finished (.ok .nothing)) with
      tables := s.tables.applyReset startedAt reset.userId reset.tokenId reset.passwordHash revoked
      resets := s.resets ++ [reset] }
  | .authenticateSelect sessionToken =>
    match s.tables.selectSession input.databaseNow (primitives.digest sessionToken) with
    | none => some (s.setCall i (.finished (.error ⟨.invalidSession,
        ofAscii "Session is invalid or expired"⟩)))
    | some (session, email) => some (s.setCall i (.authenticateTouch session email))
  | .authenticateTouch session email =>
    if s.sessionLocked session.id then none
    else some { s.setCall i (.finished (.ok (.authenticated session email))) with
      tables := s.tables.touchSession input.databaseNow session.id }
  | .finished _ => none
  | .failed => none

/-! ## Runs -/

inductive Event where
  | begin (nowMs : Int) (request : Request)
  | resume (call : Nat) (input : Input)
  /-- A statement or Argon2 fails; a transaction is rolled back. -/
  | fail (call : Nat)

def step (s : System) : Event → Option System
  | .begin nowMs request => some (beginCall primitives s nowMs request)
  | .resume i input => (s.calls[i]?).bind (resumeCall primitives s i input)
  | .fail i => (s.calls[i]?).map fun _ => s.setCall i .failed

end

/-- Accounts, and nothing that has happened. -/
def System.initial (users : List User) (maxFailures windowMs : Nat) : System where
  tables := ⟨users, [], []⟩
  limiter := ⟨maxFailures, windowMs, [], 0⟩
  calls := []
  resets := []
  logins := []

end Himitsu.Auth
