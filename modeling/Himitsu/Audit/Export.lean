import Himitsu.Audit.Events
import Himitsu.Library.Csv
import Himitsu.Library.Except

/-!
# The export of the audit log

Model of `TransactionalAuditLog.export` and `csvCell` of `packages/audit/src/index.ts`.

* `csvCell`, `csvContent` — the table of a list of events.
* `exportEvents` — the newest events that match, in one of the two formats.
* `parse_csvContent` — the records that a reader of comma-separated values finds in the table.

Principal result: `csv_structure` — whatever the fields of the events hold, the reader finds the
header and one record for each event, field by field, and no formula.
-/

set_option autoImplicit false

namespace Himitsu.Audit

open JsString Database

/-! ## Cells -/

/-- `/^[=+\-@]/`. -/
def startsFormula (text : JsString) : Bool :=
  text.head?.any fun c => c = 0x3D || c = 0x2B || c = 0x2D || c = 0x40

/-- The text of a cell: an apostrophe goes before a formula. -/
def guardFormula (text : JsString) : JsString :=
  if startsFormula text then 0x27 :: text else text

/-- `text.replaceAll('"', '""')`. -/
def doubleQuotes (text : JsString) : JsString :=
  text.flatMap fun c => if c = 0x22 then [c, c] else [c]

def csvCell (value : Option JsString) : JsString :=
  0x22 :: doubleQuotes (guardFormula (value.getD [])) ++ [0x22]

def columns : List JsString :=
  [ofAscii "id", ofAscii "occurred_at", ofAscii "actor_type", ofAscii "actor_id",
    ofAscii "actor_label", ofAscii "action", ofAscii "resource_type", ofAscii "resource_id",
    ofAscii "project_id", ofAscii "environment_id", ofAscii "ip", ofAscii "user_agent",
    ofAscii "metadata"]

/-- The fields of an event in the order of the columns. -/
def eventFields (event : AuditEventView) : List (Option JsString) :=
  [some event.id, some (IsoDate.toISOString event.occurredAt), some event.actor.type.text,
    event.actor.id, some event.actor.label, some event.action, some event.resourceType,
    event.resourceId, event.projectId, event.environmentId, event.ip, event.userAgent,
    some (Json.stringify event.metadata)]

def csvContent (events : List AuditEventView) : JsString :=
  [0x0D, 0x0A].intercalate ((columns.map some :: events.map eventFields).map fun row =>
    [0x2C].intercalate (row.map csvCell)) ++ [0x0D, 0x0A]

/-! ## The export -/

inductive ExportFormat where
  | csv
  | json
  deriving DecidableEq, Repr

structure AuditExport where
  format : ExportFormat
  filename : JsString
  mimeType : JsString
  content : JsString
  eventCount : Nat
  truncated : Bool

def optionalString (value : Option JsString) : Json := (value.map Json.string).getD .null

/-- An event as `JSON.stringify` finds it. -/
def eventJson (event : AuditEventView) : Json :=
  .object
    [(ofAscii "id", .string event.id),
      (ofAscii "actor", .object [(ofAscii "type", .string event.actor.type.text),
        (ofAscii "id", optionalString event.actor.id),
        (ofAscii "label", .string event.actor.label)]),
      (ofAscii "action", .string event.action),
      (ofAscii "resource", .object [(ofAscii "type", .string event.resourceType),
        (ofAscii "id", optionalString event.resourceId)]),
      (ofAscii "projectId", optionalString event.projectId),
      (ofAscii "environmentId", optionalString event.environmentId),
      (ofAscii "ip", optionalString event.ip),
      (ofAscii "userAgent", optionalString event.userAgent),
      (ofAscii "metadata", event.metadata),
      (ofAscii "occurredAt", .string (IsoDate.toISOString event.occurredAt))]

def EXPORT_LIMIT : Nat := 10000

/-- The file of a page of events. -/
def exportOf (format : ExportFormat) (page : AuditEventPage) (now : Int) : AuditExport :=
  let name := ofAscii "himitsu-audit-" ++ (IsoDate.toISOString now).take 10
  match format with
  | .json =>
    { format := format
      filename := name ++ ofAscii ".json"
      mimeType := ofAscii "application/json"
      content := Json.stringifyIndented (.array (page.events.map eventJson))
      eventCount := page.events.length
      truncated := page.nextCursor.isSome }
  | .csv =>
    { format := format
      filename := name ++ ofAscii ".csv"
      mimeType := ofAscii "text/csv; charset=utf-8"
      content := csvContent page.events
      eventCount := page.events.length
      truncated := page.nextCursor.isSome }

/-- `export`, at the time `now` of the process. -/
def exportEvents (engine : Engine) (tables : AuditTables) (orgId : Uuid)
    (format : ExportFormat) (filters : AuditEventFilters) (now : Int) :
    Except QueryError AuditExport := do
  let page ← query engine tables orgId { filters with limit := some EXPORT_LIMIT } EXPORT_LIMIT
  .ok (exportOf format page now)

/-! ## Reading the table -/

/-- The format of RFC 4180, in UTF-16 units. -/
def rfc4180 : Csv.Dialect UInt16 where
  quote := 0x22
  comma := 0x2C
  cr := 0x0D
  lf := 0x0A
  comma_ne_quote := by decide
  cr_ne_quote := by decide
  cr_ne_comma := by decide

/-- The record of an event. -/
def recordOf (event : AuditEventView) : List JsString :=
  (eventFields event).map fun field => guardFormula (field.getD [])

/-- No name of a column is taken for a formula. -/
theorem guardFormula_columns : columns.map guardFormula = columns := by decide

theorem csvContent_eq (events : List AuditEventView) :
    csvContent events = Csv.encode rfc4180 (columns :: events.map recordOf) := by
  have hheader : (columns.map some).map csvCell = columns.map (Csv.quoteCell rfc4180) := by
    conv_rhs => rw [← guardFormula_columns]
    rw [List.map_map, List.map_map]
    rfl
  have hrows : (events.map eventFields).map (fun row => [0x2C].intercalate (row.map csvCell)) =
      (events.map recordOf).map (Csv.encodeRow rfc4180) := by
    rw [List.map_map, List.map_map]
    refine List.map_congr_left fun event _ => ?_
    simp only [Function.comp, Csv.encodeRow, recordOf, List.map_map]
    rfl
  rw [csvContent, Csv.encode, List.map_cons, List.map_cons, hheader, hrows]
  rfl

/-- **What a reader finds in the table.** -/
theorem parse_csvContent (events : List AuditEventView) :
    Csv.parse rfc4180 (csvContent events) = some (columns :: events.map recordOf) := by
  rw [csvContent_eq]
  refine Csv.parse_encode (List.cons_ne_nil _ _) fun row hrow => ?_
  rcases List.mem_cons.mp hrow with rfl | hrow
  · exact List.cons_ne_nil _ _
  · obtain ⟨event, -, rfl⟩ := List.mem_map.mp hrow
    exact List.cons_ne_nil _ _

/-! ## What the records say -/

/-- A cell holds the text of a field, behind at most an apostrophe. -/
def Shows (field : Option JsString) (cell : JsString) : Prop :=
  cell = field.getD [] ∨ cell = 0x27 :: field.getD []

theorem shows_guardFormula (field : Option JsString) :
    Shows field (guardFormula (field.getD [])) := by
  unfold guardFormula
  split
  · exact .inr rfl
  · exact .inl rfl

/-- A guarded text is no formula. -/
theorem startsFormula_guardFormula (text : JsString) :
    startsFormula (guardFormula text) = false := by
  unfold guardFormula
  split
  · rfl
  · rename_i htext
    exact Bool.eq_false_iff.mpr htext

/-- The cell of a record in a column shows a field. -/
def Under (record : List JsString) (column : String) (field : Option JsString) : Prop :=
  ∃ cell, (columns.zip record).lookup (ofAscii column) = some cell ∧ Shows field cell

/-- A record of an event: a cell for each column, with what the event says there. -/
structure IsRecordOf (event : AuditEventView) (record : List JsString) : Prop where
  length : record.length = columns.length
  id : Under record "id" (some event.id)
  occurred_at : Under record "occurred_at" (some (IsoDate.toISOString event.occurredAt))
  actor_type : Under record "actor_type" (some event.actor.type.text)
  actor_id : Under record "actor_id" event.actor.id
  actor_label : Under record "actor_label" (some event.actor.label)
  action : Under record "action" (some event.action)
  resource_type : Under record "resource_type" (some event.resourceType)
  resource_id : Under record "resource_id" event.resourceId
  project_id : Under record "project_id" event.projectId
  environment_id : Under record "environment_id" event.environmentId
  ip : Under record "ip" event.ip
  user_agent : Under record "user_agent" event.userAgent
  metadata : Under record "metadata" (some (Json.stringify event.metadata))

theorem isRecordOf_recordOf (event : AuditEventView) : IsRecordOf event (recordOf event) where
  length := rfl
  id := ⟨_, rfl, shows_guardFormula _⟩
  occurred_at := ⟨_, rfl, shows_guardFormula _⟩
  actor_type := ⟨_, rfl, shows_guardFormula _⟩
  actor_id := ⟨_, rfl, shows_guardFormula _⟩
  actor_label := ⟨_, rfl, shows_guardFormula _⟩
  action := ⟨_, rfl, shows_guardFormula _⟩
  resource_type := ⟨_, rfl, shows_guardFormula _⟩
  resource_id := ⟨_, rfl, shows_guardFormula _⟩
  project_id := ⟨_, rfl, shows_guardFormula _⟩
  environment_id := ⟨_, rfl, shows_guardFormula _⟩
  ip := ⟨_, rfl, shows_guardFormula _⟩
  user_agent := ⟨_, rfl, shows_guardFormula _⟩
  metadata := ⟨_, rfl, shows_guardFormula _⟩

/-- **The table has the header and one record for each event, in order, and no formula.** -/
theorem csv_structure (events : List AuditEventView) :
    ∃ records, Csv.parse rfc4180 (csvContent events) = some (columns :: records) ∧
      List.Forall₂ IsRecordOf events records ∧
      ∀ record ∈ columns :: records, ∀ cell ∈ record, startsFormula cell = false := by
  refine ⟨events.map recordOf, parse_csvContent events, ?_, fun record hrecord cell hcell => ?_⟩
  · exact List.forall₂_map_right_iff.mpr
      (List.forall₂_same.mpr fun event _ => isRecordOf_recordOf event)
  · rcases List.mem_cons.mp hrecord with rfl | hrecord
    · rw [← guardFormula_columns] at hcell
      obtain ⟨name, -, rfl⟩ := List.mem_map.mp hcell
      exact startsFormula_guardFormula name
    · obtain ⟨event, -, rfl⟩ := List.mem_map.mp hrecord
      obtain ⟨field, -, rfl⟩ := List.mem_map.mp hcell
      exact startsFormula_guardFormula _

/-- An event whose fields would break a table that is not quoted. -/
def hostileEvent : AuditEventView where
  id := ofAscii "7"
  actor := ⟨.user, some (ofAscii "00000000-0000-0000-0000-000000000001"), ofAscii "a\",\"b"⟩
  action := ofAscii "secret.read"
  resourceType := ofAscii "secret"
  resourceId := none
  projectId := none
  environmentId := none
  ip := none
  userAgent := some (ofAscii "=1+\"1\",\n@")
  metadata := .object []
  occurredAt := 0

/-- What a reader finds for its formula is no formula. -/
theorem csv_structure_hostile :
    ∃ record, Csv.parse rfc4180 (csvContent [hostileEvent]) = some [columns, record] ∧
      IsRecordOf hostileEvent record ∧
      (columns.zip record).lookup (ofAscii "user_agent") =
        some (ofAscii "'=1+\"1\",\n@") := by
  obtain ⟨records, hparse, hrecords, hformula⟩ := csv_structure [hostileEvent]
  cases hrecords with
  | cons hrecord hrest =>
    cases hrest with
    | nil =>
      refine ⟨_, hparse, hrecord, ?_⟩
      obtain ⟨cell, hcell, rfl | rfl⟩ := hrecord.user_agent
      · obtain ⟨before, after, heq, -⟩ := List.lookup_eq_some_iff.mp hcell
        have hmem := (List.of_mem_zip (heq ▸ List.mem_append_right before List.mem_cons_self)).2
        exact absurd (hformula _ (by simp) _ hmem) (by decide)
      · exact hcell

/-- An export counts the records of its table. -/
theorem exportEvents_count {engine : Engine} {tables : AuditTables} {orgId : Uuid}
    {filters : AuditEventFilters} {now : Int} {result : AuditExport}
    (h : exportEvents engine tables orgId .csv filters now = .ok result) :
    ∃ records, Csv.parse rfc4180 result.content = some (columns :: records) ∧
      records.length = result.eventCount := by
  unfold exportEvents at h
  obtain ⟨page, -, h⟩ := Except.bind_eq_ok_iff.mp h
  cases h
  exact ⟨_, parse_csvContent _, List.length_map _⟩

end Himitsu.Audit
