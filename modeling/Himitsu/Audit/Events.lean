import Himitsu.Database.Uuid
import Himitsu.Library.Base64Url
import Himitsu.Library.IsoDate
import Himitsu.Library.JsonParse
import Himitsu.Library.Utf8

/-!
# The audit log reader

Model of `TransactionalAuditLog.list`, its `#query`, and the cursor of
`packages/audit/src/index.ts` over the tables of `0001_core.sql`.

* `AuditTables` — the stored events with the two tables the query joins; timestamps are
  microseconds.
* `encodeCursor`, `decodeCursor` — the cursor carries the event's `Date`, that is its
  timestamp in milliseconds.
* `bindFilters` — the parameters of the query as the database reads them: a `uuid` is compared by
  its value, not by its text.
* `query` — argument checks, the parameters, the `WHERE` clauses, the order, `LIMIT limit + 1`.
* `followPages` — a client that starts without a cursor and follows `nextCursor`.

Principal result: `decodeCursor_encodeCursor` — a cursor decodes to the millisecond time and
the id of the event it was made from.
-/

set_option autoImplicit false

namespace Himitsu.Audit

open JsString Database

/-! ## Tables -/

inductive ActorType where
  | user
  | apiKey
  | system
  deriving DecidableEq, Repr

def ActorType.text : ActorType → JsString
  | .user => ofAscii "user"
  | .apiKey => ofAscii "api_key"
  | .system => ofAscii "system"

/-- A row of `audit_events`; `occurredAt` in microseconds. -/
structure AuditEventRow where
  id : Nat
  orgId : Uuid
  actorType : ActorType
  actorUserId : Option Uuid
  actorApiKeyId : Option Uuid
  action : JsString
  resourceType : JsString
  resourceId : Option JsString
  projectId : Option Uuid
  environmentId : Option Uuid
  ip : Option JsString
  userAgent : Option JsString
  metadata : Json
  occurredAt : Int

structure UserRow where
  id : Uuid
  email : JsString

structure ApiKeyRow where
  id : Uuid
  orgId : Uuid
  name : JsString
  keyPrefix : JsString

/-- The range of `bigint`. -/
def MAX_BIGINT : Nat := 2 ^ 63 - 1

/-- The earliest `timestamptz`, in microseconds. -/
def MIN_TIMESTAMP : Int := -210866803200000000

/-- `audit_events` with the joined tables: `bigint` identities, and timestamps of the database
that a `Date` can hold. -/
structure AuditTables where
  events : List AuditEventRow
  users : List UserRow
  apiKeys : List ApiKeyRow
  ids_nodup : (events.map (·.id)).Nodup
  id_range : ∀ event ∈ events, event.id ≠ 0 ∧ event.id ≤ MAX_BIGINT
  time_range : ∀ event ∈ events, MIN_TIMESTAMP ≤ event.occurredAt ∧
    IsoDate.isTimeValue (event.occurredAt / 1000) = true

/-- What the database and the engine decide outside of this code. -/
structure Engine where
  /-- `text ILIKE pattern` under the database's collation. -/
  ilike : JsString → JsString → Bool
  /-- `Date.parse` of a text that is not in the format of `toISOString`. -/
  parseOtherDate : JsString → Option Int
  /-- `String(Number(literal))`. -/
  numberText : JsString → JsString

/-! ## Views and cursors -/

inductive AuditErrorCode where
  | unsafeMetadata
  | invalidEvent
  deriving DecidableEq, Repr

structure AuditError where
  code : AuditErrorCode
  message : JsString
  deriving DecidableEq, Repr

/-- What `#query` throws: an error of this code, or one that the database raises for a
parameter. -/
inductive QueryError where
  | audit (error : AuditError)
  | characterNotInRepertoire
  | invalidTextRepresentation
  | numericValueOutOfRange
  | datetimeFieldOverflow
  deriving DecidableEq, Repr

structure ActorView where
  type : ActorType
  id : Option JsString
  label : JsString

/-- `occurredAt` is the driver's `Date`, in milliseconds. -/
structure AuditEventView where
  id : JsString
  actor : ActorView
  action : JsString
  resourceType : JsString
  resourceId : Option JsString
  projectId : Option JsString
  environmentId : Option JsString
  ip : Option JsString
  userAgent : Option JsString
  metadata : Json
  occurredAt : Int

/-- A `timestamptz` as the driver hands it over: truncated to milliseconds. -/
def driverDate (timestamp : Int) : Int := timestamp / 1000

/-- A `Date` as the driver binds it to a `timestamptz` parameter. -/
def timestamptz (date : Int) : Int := date * 1000

def AuditTables.userOf (tables : AuditTables) (event : AuditEventRow) : Option UserRow :=
  event.actorUserId.bind fun id => tables.users.find? (·.id = id)

def AuditTables.apiKeyOf (tables : AuditTables) (event : AuditEventRow) : Option ApiKeyRow :=
  event.actorApiKeyId.bind fun id =>
    tables.apiKeys.find? fun key => key.id = id ∧ key.orgId = event.orgId

/-- `COALESCE("user".email, api_key.name, 'System')`. -/
def AuditTables.actorLabel (tables : AuditTables) (event : AuditEventRow) : JsString :=
  (((tables.userOf event).map (·.email)).or ((tables.apiKeyOf event).map (·.name))).getD
    (ofAscii "System")

/-- The selected columns of a row through `eventFromRow`. -/
def eventFromRow (tables : AuditTables) (row : AuditEventRow) : AuditEventView where
  id := ofNat row.id
  actor := ⟨row.actorType, (row.actorUserId.or row.actorApiKeyId).map (·.text),
    tables.actorLabel row⟩
  action := row.action
  resourceType := row.resourceType
  resourceId := row.resourceId
  projectId := row.projectId.map (·.text)
  environmentId := row.environmentId.map (·.text)
  ip := row.ip
  userAgent := row.userAgent
  metadata := row.metadata
  occurredAt := driverDate row.occurredAt

def encodeCursor (event : AuditEventView) : JsString :=
  Base64Url.encode (Utf8.encode (Json.stringify (.object
    [(ofAscii "occurredAt", .string (IsoDate.toISOString event.occurredAt)),
      (ofAscii "id", .string event.id)])))

structure Cursor where
  occurredAt : Int
  id : Nat
  deriving DecidableEq, Repr

/-- `/^[1-9][0-9]*$/`. -/
def isIdText : JsString → Bool
  | [] => false
  | c :: rest => 0x31 ≤ c && c ≤ 0x39 && rest.all fun d => 0x30 ≤ d && d ≤ 0x39

def invalidCursor : AuditError := ⟨.invalidEvent, ofAscii "Audit cursor is invalid"⟩

/-- `new Date(text).getTime()`, `none` for an invalid date. -/
def Engine.parseDate (engine : Engine) (text : JsString) : Option Int :=
  (IsoDate.readISOString text).or (engine.parseOtherDate text)

/-- A property of a parsed JSON value; anything but an object has none. -/
def jsonProperty (value : Json) (name : JsString) : Option Json :=
  match value with
  | .object properties => Json.getProperty properties name
  | _ => none

def decodeCursor (engine : Engine) (cursor : JsString) : Except AuditError Cursor :=
  match Json.parse engine.numberText (Utf8.decode (Base64Url.decode cursor)) with
  | none => .error invalidCursor
  | some parsed =>
    match jsonProperty parsed (ofAscii "occurredAt"), jsonProperty parsed (ofAscii "id") with
    | some (.string occurredAt), some (.string id) =>
      match engine.parseDate occurredAt with
      | some date => if isIdText id then .ok ⟨date, decimalValue id⟩ else .error invalidCursor
      | none => .error invalidCursor
    | _, _ => .error invalidCursor

/-! ## The query -/

/-- Dates are milliseconds; an invalid `Date` is `some none`. -/
structure AuditEventFilters where
  actor : Option JsString
  action : Option JsString
  projectId : Option JsString
  environmentId : Option JsString
  fromDate : Option (Option Int)
  toDate : Option (Option Int)
  resource : Option JsString
  cursor : Option JsString
  limit : Option Int

/-- The argument checks of `#query`, which give the page limit. -/
def checkFilters (filters : AuditEventFilters) (maximumLimit : Nat) : Except AuditError Nat :=
  let limit := filters.limit.getD 50
  if limit < 1 ∨ (maximumLimit : Int) < limit then
    .error ⟨.invalidEvent, ofAscii "Audit page limit must be between 1 and " ++ ofNat maximumLimit⟩
  else if filters.fromDate = some none then
    .error ⟨.invalidEvent, ofAscii "Audit from date is invalid"⟩
  else if filters.toDate = some none then
    .error ⟨.invalidEvent, ofAscii "Audit to date is invalid"⟩
  else
    match filters.fromDate, filters.toDate with
    | some (some fromDate), some (some toDate) =>
      if toDate < fromDate then
        .error ⟨.invalidEvent, ofAscii "Audit from date must not follow to date"⟩
      else .ok limit.toNat
    | _, _ => .ok limit.toNat

/-! ### Parameters -/

/-- A text as the server receives it: in UTF-8 and without U+0000. -/
def bindText (text : JsString) : Except QueryError JsString :=
  if 0 ∈ text then .error .characterNotInRepertoire
  else .ok (Utf8.decode (Utf8.encode text))

def bindUuid (text : JsString) : Except QueryError Uuid := do
  let text ← bindText text
  match uuidIn text with
  | some id => .ok id
  | none => .error .invalidTextRepresentation

/-- A `Date` as a `timestamptz`. -/
def bindDate (date : Int) : Except QueryError Int :=
  if timestamptz date < MIN_TIMESTAMP then .error .datetimeFieldOverflow
  else .ok (timestamptz date)

/-- `%${text.trim()}%`. -/
def bindPattern (text : JsString) : Except QueryError JsString :=
  bindText (0x25 :: trim text ++ [0x25])

/-- The parameters of the clauses other than the cursor's; `none` where there is no clause. -/
structure Parameters where
  actor : Option JsString
  action : Option JsString
  projectId : Option Uuid
  environmentId : Option Uuid
  fromTime : Option Int
  toTime : Option Int
  resource : Option JsString

/-- The values that the filters bind, in the order of the parameters. -/
def bindFilters (filters : AuditEventFilters) : Except QueryError Parameters := do
  let actor ← (filters.actor.filter fun actor => trim actor ≠ []).mapM bindPattern
  let action ← (filters.action.filter fun action => action ≠ []).mapM bindText
  let projectId ← filters.projectId.mapM bindUuid
  let environmentId ← filters.environmentId.mapM bindUuid
  let fromTime ← filters.fromDate.join.mapM bindDate
  let toTime ← filters.toDate.join.mapM bindDate
  let resource ← (filters.resource.filter fun resource => trim resource ≠ []).mapM bindPattern
  .ok ⟨actor, action, projectId, environmentId, fromTime, toTime, resource⟩

/-- `$n::timestamptz` and `$m::bigint` for the values of a cursor. -/
def bindCursor (cursor : Cursor) : Except QueryError (Int × Nat) := do
  let occurredAt ← bindDate cursor.occurredAt
  if MAX_BIGINT < cursor.id then .error .numericValueOutOfRange else .ok (occurredAt, cursor.id)

/-! ### Clauses -/

def actorClause (engine : Engine) (tables : AuditTables) (parameter : JsString)
    (event : AuditEventRow) : Bool :=
  engine.ilike event.actorType.text parameter ||
    event.actorUserId.any (engine.ilike ·.text parameter) ||
    event.actorApiKeyId.any (engine.ilike ·.text parameter) ||
    (tables.userOf event).any (fun user => engine.ilike user.email parameter) ||
    (tables.apiKeyOf event).any (fun key => engine.ilike key.name parameter) ||
    (tables.apiKeyOf event).any (fun key => engine.ilike key.keyPrefix parameter)

def resourceClause (engine : Engine) (parameter : JsString) (event : AuditEventRow) : Bool :=
  engine.ilike event.resourceType parameter ||
    engine.ilike (event.resourceId.getD []) parameter

/-- The `WHERE` clauses other than the cursor's. -/
def filterClauses (engine : Engine) (tables : AuditTables) (orgId : Uuid)
    (parameters : Parameters) (event : AuditEventRow) : Bool :=
  event.orgId == orgId &&
    parameters.actor.all (actorClause engine tables · event) &&
    parameters.action.all (fun action => event.action == action) &&
    parameters.projectId.all (fun id => event.projectId == some id) &&
    parameters.environmentId.all (fun id => event.environmentId == some id) &&
    parameters.fromTime.all (fun time => time ≤ event.occurredAt) &&
    parameters.toTime.all (fun time => event.occurredAt ≤ time) &&
    parameters.resource.all (resourceClause engine · event)

/-- `(event.occurred_at, event.id) < (occurredAt, id)`. -/
def precedes (event : AuditEventRow) (occurredAt : Int) (id : Nat) : Bool :=
  event.occurredAt < occurredAt || (event.occurredAt == occurredAt && event.id < id)

/-- `ORDER BY event.occurred_at DESC, event.id DESC`. -/
def orderEvents (events : List AuditEventRow) : List AuditEventRow :=
  events.insertionSort fun a b => precedes a b.occurredAt b.id = false

structure AuditEventPage where
  events : List AuditEventView
  nextCursor : Option JsString

/-- What `#query` does with the selected rows, one more than the limit where there are more. -/
def pageOf (tables : AuditTables) (limit : Nat) (rows : List AuditEventRow) : AuditEventPage :=
  let hasMore := decide (limit < rows.length)
  let events := (if hasMore then rows.take limit else rows).map (eventFromRow tables)
  ⟨events, if hasMore then events.getLast?.map encodeCursor else none⟩

/-- `#query`; the cursor is decoded before the database reads a parameter. -/
def query (engine : Engine) (tables : AuditTables) (orgId : Uuid)
    (filters : AuditEventFilters) (maximumLimit : Nat) : Except QueryError AuditEventPage := do
  let limit ← (checkFilters filters maximumLimit).mapError .audit
  let cursor ← filters.cursor.mapM fun text => (decodeCursor engine text).mapError .audit
  let parameters ← bindFilters filters
  let position ← cursor.mapM bindCursor
  let matching := tables.events.filter (filterClauses engine tables orgId parameters)
  let selected := matching.filter fun event =>
    position.all fun position => precedes event position.1 position.2
  .ok (pageOf tables limit ((orderEvents selected).take (limit + 1)))

/-- `list`, for a page of at most 100 events. -/
def list (engine : Engine) (tables : AuditTables) (orgId : Uuid)
    (filters : AuditEventFilters) : Except QueryError AuditEventPage :=
  query engine tables orgId filters 100

/-- A client following `nextCursor` until it is absent; `none` when the fuel does not suffice. -/
def followPages (engine : Engine) (tables : AuditTables) (orgId : Uuid)
    (filters : AuditEventFilters) :
    Nat → Option JsString → Except QueryError (Option (List AuditEventView))
  | 0, _ => .ok none
  | fuel + 1, cursor => do
    let page ← list engine tables orgId { filters with cursor := cursor }
    match page.nextCursor with
    | none => .ok (some page.events)
    | some next => do
      let rest ← followPages engine tables orgId filters fuel (some next)
      .ok (rest.map (page.events ++ ·))

/-! ## A cursor decodes to what it was made from -/

theorem stringify_pair (k₁ v₁ k₂ v₂ : JsString) :
    Json.stringify (.object [(k₁, .string v₁), (k₂, .string v₂)]) =
      0x7B :: (jsonQuote k₁ ++ 0x3A :: (jsonQuote v₁ ++ 0x2C ::
        (jsonQuote k₂ ++ 0x3A :: (jsonQuote v₂ ++ [0x7D])))) := by
  simp [Json.stringify, Json.serialize, Json.serializeProperties, Json.wrap, List.intercalate,
    List.intersperse]

theorem parse_pair (numberText : JsString → JsString) (k₁ v₁ k₂ v₂ : JsString) :
    Json.parse numberText (Json.stringify (.object [(k₁, .string v₁), (k₂, .string v₂)])) =
      some (.object (Json.setProperty (Json.setProperty [] k₁ (.string v₁)) k₂ (.string v₂))) := by
  rw [stringify_pair]
  generalize hinner : jsonQuote k₁ ++ 0x3A :: (jsonQuote v₁ ++ 0x2C ::
    (jsonQuote k₂ ++ 0x3A :: (jsonQuote v₂ ++ [0x7D]))) = inner
  obtain ⟨fuel, hfuel⟩ : ∃ fuel, (0x7B :: inner).length + 1 = fuel + 4 := by
    refine ⟨inner.length - 2, ?_⟩
    have hlen : 2 ≤ inner.length := by
      rw [← hinner]
      simp [jsonQuote]
      omega
    rw [List.length_cons]
    omega
  have hmembers : Json.parseMembers numberText (fuel + 3) [] inner =
      some (.object (Json.setProperty (Json.setProperty [] k₁ (.string v₁)) k₂ (.string v₂)),
        []) := by
    rw [← hinner, Json.parseMembers_member _ _ _ _ _ (Json.parseValue_jsonQuote _ _ _ _)]
    show Json.parseMembers numberText (fuel + 2) _ _ = _
    rw [Json.parseMembers_member _ _ _ _ _ (Json.parseValue_jsonQuote _ _ _ _)]
    rfl
  have hvalue : Json.parseValue numberText (fuel + 4) (0x7B :: inner) =
      Json.parseMembers numberText (fuel + 3) [] inner := by
    rw [← hinner, Json.jsonQuote_append]
    rfl
  rw [Json.parse, hfuel, hvalue, hmembers]
  rfl

theorem isIdText_ofNat {n : Nat} (h : n ≠ 0) : isIdText (ofNat n) = true := by
  obtain ⟨c, rest, hn, hc, hc', hrest⟩ := ofNat_eq h
  rw [hn]
  simp only [isIdText, Bool.and_eq_true, decide_eq_true_eq, List.all_eq_true]
  exact ⟨⟨hc, hc'⟩, hrest⟩

theorem cursorText_wellFormed (k₁ v₁ k₂ v₂ : JsString) :
    isWellFormed (Json.stringify (.object [(k₁, .string v₁), (k₂, .string v₂)])) = true := by
  have hascii : ∀ c : UInt16, c ≤ 0x7F → ∀ t, isWellFormed (c :: t) = isWellFormed t :=
    fun c hc t => isWellFormed_cons (isSurrogate_ascii hc) t
  rw [stringify_pair, hascii _ (by decide), isWellFormed_jsonQuote, hascii _ (by decide),
    isWellFormed_jsonQuote, hascii _ (by decide), isWellFormed_jsonQuote, hascii _ (by decide),
    isWellFormed_jsonQuote]
  rfl

/-- **A cursor decodes to the millisecond time and the id of its event.** -/
theorem decodeCursor_encodeCursor (engine : Engine) (tables : AuditTables)
    {event : AuditEventRow} (h : event ∈ tables.events) :
    decodeCursor engine (encodeCursor (eventFromRow tables event)) =
      .ok ⟨driverDate event.occurredAt, event.id⟩ := by
  have hdate : engine.parseDate (IsoDate.toISOString (driverDate event.occurredAt)) =
      some (driverDate event.occurredAt) := by
    rw [Engine.parseDate, driverDate, IsoDate.readISOString_toISOString (tables.time_range event h).2]
    rfl
  have hproperties : ∀ occurredAt id : Json,
      Json.setProperty (Json.setProperty [] (ofAscii "occurredAt") occurredAt) (ofAscii "id") id =
        [(ofAscii "occurredAt", occurredAt), (ofAscii "id", id)] := fun _ _ => rfl
  unfold decodeCursor encodeCursor
  rw [Base64Url.decode_encode, Utf8.decode_encode (cursorText_wellFormed _ _ _ _), parse_pair,
    hproperties]
  have hoccurredAt : ∀ occurredAt id : Json, jsonProperty
      (.object [(ofAscii "occurredAt", occurredAt), (ofAscii "id", id)])
        (ofAscii "occurredAt") = some occurredAt := fun _ _ => rfl
  have hid : ∀ occurredAt id : Json, jsonProperty
      (.object [(ofAscii "occurredAt", occurredAt), (ofAscii "id", id)])
        (ofAscii "id") = some id := fun _ _ => rfl
  simp only [hoccurredAt, hid, eventFromRow, hdate, isIdText_ofNat (tables.id_range event h).1,
    if_true, decimalValue_ofNat]

theorem bindCursor_driverDate (tables : AuditTables) {event : AuditEventRow}
    (h : event ∈ tables.events) :
    bindCursor ⟨driverDate event.occurredAt, event.id⟩ =
      .ok (timestamptz (driverDate event.occurredAt), event.id) := by
  have htime := (tables.time_range event h).1
  have hid := (tables.id_range event h).2
  have hfloor : ¬ timestamptz (driverDate event.occurredAt) < MIN_TIMESTAMP := by
    unfold timestamptz driverDate MIN_TIMESTAMP at *
    omega
  rw [bindCursor, bindDate, if_neg hfloor]
  exact if_neg (Nat.not_lt.mpr hid)

end Himitsu.Audit
