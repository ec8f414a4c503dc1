import Himitsu.Database.Schema
import Himitsu.Library.AssocList

/-!
# Accounts, sessions and login attempts

Model of the parts of `packages/auth/src/index.ts` that its calls are made of: argument checks, the
login attempt limiter, and the statements on `users`, `sessions` and `password_reset_tokens` of
`0001_core.sql` and `0004_auth.sql`.

* `Primitives` — SHA-256, Argon2 and `toLowerCase`, which are not part of the repository.
* `LoginAttemptLimiter` — failures of an identity within a window.
* `Tables` — the rows, and `selectUser`, `insertSession`, `selectSession`, … — the statements.
-/

set_option autoImplicit false

namespace Himitsu.Auth

open JsString Crypto Database

/-! ## Errors and primitives -/

inductive AuthErrorCode where
  | invalidInput
  | invalidCredentials
  | emailNotVerified
  | invalidToken
  | invalidSession
  | rateLimited
  deriving DecidableEq, Repr

structure AuthError where
  code : AuthErrorCode
  message : JsString
  deriving DecidableEq, Repr

structure Primitives where
  toLowerCase : JsString → JsString
  /-- SHA-256 of the UTF-8 encoding. -/
  digest : JsString → Bytes
  /-- `argon2.hash` with a salt. -/
  hash : Bytes → JsString → JsString
  /-- `argon2.verify`; a hash that is malformed does not verify. -/
  verify : JsString → JsString → Bool

def TOKEN_TTL_MS : Int := 30 * 60 * 1000

def SESSION_TTL_MS : Int := 7 * 24 * 60 * 60 * 1000

/-- The moment some milliseconds after a clock reading, in microseconds. -/
def later (nowMs ttlMs : Int) : Timestamp := 1000 * (nowMs + ttlMs)

/-- `Buffer.toString("hex")`. -/
def hexText (bytes : Bytes) : JsString := bytes.flatMap fun b => hexDigits b.toNat 2

/-! ## Argument checks -/

/-- `/^[^@\s]+@[^@\s]+\.[^@\s]+$/`: a full stop inside the part after the only `@`. -/
def isEmail (text : JsString) : Bool :=
  !text.any isWhitespace &&
    match text.idxOf? 0x40 with
    | none => false
    | some at_ =>
      let domain := text.drop (at_ + 1)
      at_ != 0 && !domain.contains 0x40 && ((domain.drop 1).dropLast).contains 0x2E

def normalizeEmail (primitives : Primitives) (email : JsString) : Except AuthError JsString :=
  let normalized := primitives.toLowerCase (trim email)
  if normalized.length < 3 ∨ normalized.length > 320 ∨ !isEmail normalized then
    .error ⟨.invalidInput, ofAscii "A valid email address is required"⟩
  else .ok normalized

def validatePassword (password : JsString) : Except AuthError Unit :=
  if password.length < 12 ∨ password.length > 1024 then
    .error ⟨.invalidInput, ofAscii "Password must be between 12 and 1024 characters"⟩
  else .ok ()

/-! ## The login attempt limiter -/

structure LoginAttemptBucket where
  failures : Nat
  resetAt : Int

structure LoginAttemptLimiter where
  maxFailures : Nat
  windowMs : Nat
  buckets : List (JsString × LoginAttemptBucket)
  operations : Nat

namespace LoginAttemptLimiter

/-- `identities.some(…)`, which forgets the expired buckets that it passes. -/
def isBlocked (now : Int) (limiter : LoginAttemptLimiter) :
    List JsString → LoginAttemptLimiter × Bool
  | [] => (limiter, false)
  | identity :: identities =>
    match limiter.buckets.lookup identity with
    | none => isBlocked now limiter identities
    | some bucket =>
      if bucket.resetAt ≤ now then
        isBlocked now { limiter with buckets := AssocList.erase limiter.buckets identity } identities
      else if bucket.failures ≥ limiter.maxFailures then (limiter, true)
      else isBlocked now limiter identities

def addFailure (now : Int) (limiter : LoginAttemptLimiter) (identity : JsString) :
    LoginAttemptLimiter :=
  let fresh : LoginAttemptBucket := ⟨0, now + limiter.windowMs⟩
  let bucket := match limiter.buckets.lookup identity with
    | none => fresh
    | some existing => if existing.resetAt ≤ now then fresh else existing
  { limiter with
    buckets := AssocList.set limiter.buckets identity { bucket with failures := bucket.failures + 1 } }

/-- Every 1000 failures the expired buckets go; the clock is read a second time at the end. -/
def recordFailure (now next : Int) (limiter : LoginAttemptLimiter) (identities : List JsString) :
    LoginAttemptLimiter × Bool :=
  let added := identities.foldl (addFailure now) limiter
  let operations := added.operations + identities.length
  let swept := if operations ≥ 1000 then
      { added with
        buckets := added.buckets.filter fun entry => !(entry.2.resetAt ≤ now)
        operations := 0 }
    else { added with operations := operations }
  isBlocked next swept identities

def clear (limiter : LoginAttemptLimiter) (identities : List JsString) : LoginAttemptLimiter :=
  { limiter with buckets := identities.foldl AssocList.erase limiter.buckets }

end LoginAttemptLimiter

structure ClientContext where
  ip : Option JsString
  userAgent : Option JsString

def loginIdentities (primitives : Primitives) (normalized : JsString) (context : ClientContext) :
    List JsString :=
  (ofAscii "account:" ++ hexText (primitives.digest normalized)) ::
    (context.ip.map fun ip => ofAscii "ip:" ++ ip).toList

/-! ## Tables -/

structure User where
  id : Uuid
  email : JsString
  emailNormalized : JsString
  passwordHash : Option JsString
  emailVerifiedAt : Option Timestamp
  disabledAt : Option Timestamp

structure Session where
  id : Uuid
  userId : Uuid
  tokenHash : Bytes
  csrfHash : Bytes
  ip : Option JsString
  userAgent : Option JsString
  createdAt : Timestamp
  lastSeenAt : Timestamp
  expiresAt : Timestamp
  revokedAt : Option Timestamp
  activeOrgId : Option Uuid

structure PasswordResetToken where
  id : Uuid
  userId : Uuid
  tokenHash : Bytes
  expiresAt : Timestamp
  consumedAt : Option Timestamp
  createdAt : Timestamp

structure Tables where
  users : List User
  sessions : List Session
  tokens : List PasswordResetToken

namespace Tables

/-- The account of an address. -/
def selectUser (tables : Tables) (normalized : JsString) : Option User :=
  tables.users.find? fun row => row.emailNormalized == normalized && row.disabledAt.isNone

/-- The primary key, the unique digest and the check on the expiry. -/
def insertSession (tables : Tables) (row : Session) : Option Tables :=
  if row.id ∈ tables.sessions.map (·.id) ∨ row.tokenHash ∈ tables.sessions.map (·.tokenHash) ∨
      row.expiresAt ≤ row.createdAt then none
  else some { tables with sessions := tables.sessions ++ [row] }

def insertToken (tables : Tables) (row : PasswordResetToken) : Option Tables :=
  if row.id ∈ tables.tokens.map (·.id) ∨ row.tokenHash ∈ tables.tokens.map (·.tokenHash) ∨
      row.expiresAt ≤ row.createdAt then none
  else some { tables with tokens := tables.tokens ++ [row] }

/-- The query of `authenticate`: the session, and the address of its account. -/
def selectSession (tables : Tables) (now : Timestamp) (tokenHash : Bytes) :
    Option (Session × JsString) := do
  let session ← tables.sessions.find? fun row =>
    row.tokenHash == tokenHash && row.revokedAt.isNone && decide (now < row.expiresAt) &&
      tables.users.any fun user => user.id == row.userId && user.disabledAt.isNone
  let user ← tables.users.find? fun user => user.id == session.userId && user.disabledAt.isNone
  some (session, user.email)

def touchSession (tables : Tables) (now : Timestamp) (id : Uuid) : Tables :=
  { tables with sessions := tables.sessions.map fun row =>
      if row.id = id then { row with lastSeenAt := now } else row }

/-- The token that `#consumeUserToken` locks. -/
def selectToken (tables : Tables) (now : Timestamp) (tokenHash : Bytes) :
    Option PasswordResetToken :=
  tables.tokens.find? fun row =>
    row.tokenHash == tokenHash && row.consumedAt.isNone && decide (now < row.expiresAt)

/-- The sessions that a reset revokes. -/
def openSessions (tables : Tables) (userId : Uuid) : List Uuid :=
  (tables.sessions.filter fun row => row.userId == userId && row.revokedAt.isNone).map (·.id)

/-- The three updates of a reset, as its commit makes them visible. -/
def applyReset (tables : Tables) (now : Timestamp) (userId tokenId : Uuid) (passwordHash : JsString)
    (revoked : List Uuid) : Tables where
  users := tables.users.map fun row =>
    if row.id = userId then { row with passwordHash := some passwordHash } else row
  sessions := tables.sessions.map fun row =>
    if row.id ∈ revoked then { row with revokedAt := some now } else row
  tokens := tables.tokens.map fun row =>
    if row.id = tokenId then { row with consumedAt := some now } else row

end Tables

end Himitsu.Auth
