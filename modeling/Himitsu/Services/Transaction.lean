import Himitsu.Database.Schema
import Himitsu.Library.IsoDate
import Himitsu.Secrets.Export

/-!
# Transactions of the services

What the services of `packages/*/src/index.ts` share: a transaction of one organization, the
errors it throws, and the lookups in which several services agree.

* `TransactionM` — the statements that a service runs on its `TenantTransaction`.
* `Platform` — what the database and the JavaScript engine decide outside of this code.
* `Draws` — the clock and the randomness of one call; a call that needs several draws numbers them.
* `updateEnvironments`, `updateSecrets`, `updateProjects` — `UPDATE` statements on many rows.
* `resolve` — `AuthorizationContextResolver.resolve`.
-/

set_option autoImplicit false

namespace Himitsu.Services

open JsString Crypto Database Transactions

/-! ## Errors -/

inductive EnvironmentErrorCode where
  | invalidInput
  | slugExists
  | notFound
  | lastEnvironment
  | secretsRequireConfirmation
  | orderMismatch
  | recoveryExpired
  deriving DecidableEq, Repr

structure EnvironmentError where
  code : EnvironmentErrorCode
  message : JsString
  deriving DecidableEq, Repr

inductive ProjectErrorCode where
  | invalidInput
  | slugExists
  | notFound
  | tagNotFound
  | recoveryExpired
  deriving DecidableEq, Repr

structure ProjectError where
  code : ProjectErrorCode
  message : JsString
  deriving DecidableEq, Repr

/-- The errors that the database raises for the statements of the services. -/
inductive SqlState where
  | uniqueViolation
  | foreignKeyViolation
  | numericValueOutOfRange
  | datetimeOutOfRange
  | characterNotInRepertoire
  deriving DecidableEq, Repr

inductive ServiceError where
  | authorization (decision : Authz.AuthorizationDecision)
  | audit (error : Audit.AuditError)
  | crypto (error : CryptoError)
  | secret (error : Secrets.SecretError)
  | environment (error : EnvironmentError)
  | project (error : ProjectError)
  | sql (state : SqlState)
  | other (message : JsString)
  deriving DecidableEq, Repr

/-! ## Transactions -/

abbrev TransactionM (wrapper : KeyWrapper) :=
  Prog (Db wrapper) Lock Write ServiceError

/-- What the database and the engine decide: the cipher, `<=` on text, `lower` and `ILIKE` in the
collation of the database, and `localeCompare`. -/
structure Platform where
  aead : Aead
  collate : JsString → JsString → Bool
  lower : JsString → JsString
  ilike : JsString → JsString → Bool
  localeCompare : Secrets.LocaleCompare

/-- `ORDER BY lower(t.name), t.id`. -/
def Platform.tagBefore (platform : Platform) (left right : Tag) : Bool :=
  if platform.lower left.name = platform.lower right.name then left.id.value ≤ right.id.value
  else platform.collate (platform.lower left.name) (platform.lower right.name)

/-- `now` is the time of the transaction in the database and `clock` the time value of the `Date`
of the service. -/
structure Draws where
  now : Timestamp
  clock : Int
  uuid : Nat → Uuid
  dataKey : Nat → DataKey
  wrapNonce : Nat → Nonce
  nonce : Nat → Nonce

def MAX_INTEGER : Nat := 2147483647

/-- A string as a `text` parameter: the driver encodes it, and the database refuses a null
character. -/
def storedText (text : JsString) : Except SqlState JsString :=
  if text.contains 0 then .error .characterNotInRepertoire else .ok (toWellFormed text)

def storedOptional : Option JsString → Except SqlState (Option JsString)
  | none => .ok none
  | some text => (storedText text).map some

/-- A `timestamptz` as the driver hands it over. -/
def toDate (time : Timestamp) : Int := time / 1000

def fromDate (date : Int) : Timestamp := date * 1000

/-- The first millisecond of `timestamptz`. -/
def MIN_TIMESTAMP : Int := -210866803200000

/-- A `Date` as a `timestamptz` parameter. -/
def storedDate (date : Int) : Except SqlState Timestamp :=
  if IsoDate.isTimeValue date && MIN_TIMESTAMP ≤ date then .ok (fromDate date)
  else .error .datetimeOutOfRange

@[simp] theorem toDate_fromDate (date : Int) : toDate (fromDate date) = date :=
  Int.mul_ediv_cancel date (by decide)

/-- The window in which a service restores what it deleted. -/
structure RecoveryOptions where
  recoveryDays : Nat
  positive : 1 ≤ recoveryDays
  bounded : recoveryDays ≤ 365

def RecoveryOptions.recoveryMs (options : RecoveryOptions) : Int :=
  options.recoveryDays * 24 * 60 * 60 * 1000

/-- `ORDER BY`: the rows in the order of a comparison. -/
def orderBy {α : Type} (le : α → α → Bool) (rows : List α) : List α :=
  rows.insertionSort fun a b => le a b = true

theorem orderBy_perm {α : Type} (le : α → α → Bool) (rows : List α) :
    (orderBy le rows).Perm rows :=
  List.perm_insertionSort _ _

@[simp] theorem mem_orderBy {α : Type} {le : α → α → Bool} {rows : List α} {a : α} :
    a ∈ orderBy le rows ↔ a ∈ rows :=
  (orderBy_perm le rows).mem_iff

variable {wrapper : KeyWrapper}

def raise {α : Type} (error : ServiceError) : TransactionM wrapper α := .fail error

/-- A step of the service itself. -/
def attempt {α ε : Type} (wrap : ε → ServiceError) (result : Except ε α) :
    TransactionM wrapper α :=
  .ofExcept (result.mapError wrap)

theorem ensures_attempt {α ε : Type} {wrap : ε → ServiceError} {result : Except ε α}
    {db : Db wrapper} {Q : α → Db wrapper → Prop} :
    Ensures apply (attempt wrap result) db Q ↔ ∀ a, result = .ok a → Q a db := by
  rw [attempt, ensures_ofExcept]
  cases result <;> simp [Except.mapError]

/-- The current value where the input leaves it out, else the checked one. -/
def checkedOr {α β ε : Type} (wrap : ε → ServiceError) (current : β) (check : α → Except ε β) :
    Option α → TransactionM wrapper β
  | none => pure current
  | some input => attempt wrap (check input)

/-- A step that is taken only under a condition. -/
def doIf (condition : Bool) (p : TransactionM wrapper Unit) : TransactionM wrapper Unit :=
  if condition then p else pure ()

/-- The environment, if it and its project are not deleted: the join that the services share. -/
def activeEnvironment (db : Db wrapper) (projectId environmentId : Uuid) : Option Environment :=
  db.environments.find? fun environment =>
    environment.id = environmentId && environment.projectId = projectId &&
      environment.deletedAt.isNone &&
      db.projects.any fun project => project.id = projectId && project.deletedAt.isNone

/-! ## Updates -/

/-- `UPDATE environments SET … WHERE …`. -/
def updateEnvironments (p : Environment → Bool) (set : EnvironmentSet) :
    TransactionM wrapper Unit :=
  .execute (fun _ => [])
    (fun db => (db.environments.filter p).map fun row => .updateEnvironment row.id set)
    fun _ => .ok ()

/-- `UPDATE secrets SET … WHERE …`. -/
def updateSecrets (p : Secret → Bool) (set : SecretSet) : TransactionM wrapper Unit :=
  .execute (fun _ => [])
    (fun db => (db.secrets.filter p).map fun row => .updateSecret row.id set)
    fun _ => .ok ()

/-- `UPDATE projects SET … WHERE …`. -/
def updateProjects (p : Project → Bool) (set : ProjectSet) : TransactionM wrapper Unit :=
  .execute (fun _ => [])
    (fun db => (db.projects.filter p).map fun row => .updateProject row.id set)
    fun _ => .ok ()

/-! ## Authorization -/

/-- The decision thrown when the user has no active membership. -/
def noMembership : Authz.AuthorizationDecision := ⟨false, .orgSettingsRead, .readOnly, .role⟩

def resolve (userId : Uuid) (projectId : Option Uuid) (protectedEnvironment : Bool) :
    TransactionM wrapper Authz.AuthorizationContext := do
  let membership ← Prog.select fun db : Db wrapper =>
    db.memberships.find? fun m => m.userId = userId && m.active
  match membership with
  | none => raise (.authorization noMembership)
  | some membership =>
    match projectId with
    | none => pure ⟨membership.role, none, protectedEnvironment⟩
    | some projectId =>
      let override ← Prog.select fun db : Db wrapper =>
        db.projectRoleOverrides.find? fun o => o.projectId = projectId && o.userId = userId
      pure ⟨membership.role, override.map (·.role), protectedEnvironment⟩

/-- `requirePermission(await resolver.resolve(…), permission)`. -/
def authorizeUser (userId : Uuid) (projectId : Option Uuid) (protectedEnvironment : Bool)
    (permission : Authz.Permission) : TransactionM wrapper Unit := do
  let context ← resolve userId projectId protectedEnvironment
  attempt .authorization (Authz.requirePermission context permission)

end Himitsu.Services
