import Himitsu.Consistency.Drift
import Himitsu.Library.Except

/-!
# The consistency report

Model of `ConsistencyService.#report`, `setDisposition` and `buildMatrix` of
`packages/consistency/src/index.ts`, without the queries around them.

* `report` — the findings with what has been recorded about them, the matrix and the summary.
* `setDisposition` — records a disposition for a finding that the report has.
* `buildMatrix` — one row for each key of the secrets, one cell for each environment.
* `mem_buildMatrix` — the rows of the matrix.
-/

set_option autoImplicit false

namespace Himitsu.Consistency

open JsString Sorting

inductive FindingDisposition where
  | acknowledged
  | ignored
  deriving DecidableEq, Repr

structure ConsistencyFinding extends BaseFinding where
  disposition : Option FindingDisposition
  dispositionNote : Option JsString
  dispositionUpdatedAt : Option Int
  deriving DecidableEq, Repr

/-- A row of `consistency_finding_states`. -/
structure StateRow where
  findingId : JsString
  disposition : FindingDisposition
  note : Option JsString
  updatedAt : Int
  deriving DecidableEq, Repr

structure SecretRow where
  id : JsString
  environmentId : JsString
  key : JsString
  deriving DecidableEq, Repr

def withoutState (finding : BaseFinding) : ConsistencyFinding := ⟨finding, none, none, none⟩

def withState (finding : BaseFinding) (state : StateRow) : ConsistencyFinding :=
  ⟨finding, some state.disposition, state.note, some state.updatedAt⟩

/-! ## The matrix -/

inductive CellState where
  | present
  | missing
  | empty
  deriving DecidableEq, Repr

structure ConsistencyMatrixCell where
  environmentId : JsString
  state : CellState
  secretId : Option JsString
  deriving DecidableEq, Repr

structure ConsistencyMatrixRow where
  key : JsString
  keys : List JsString
  cells : List ConsistencyMatrixCell
  deriving DecidableEq, Repr

section

variable (engine : Engine)

/-- The text under which a cell is remembered as empty. -/
def cellText (key environmentId : JsString) : JsString :=
  engine.toUpperCase key ++ 0 :: environmentId

def emptyCells (findings : List ConsistencyFinding) : List JsString :=
  (findings.filter (·.type = .emptyValue)).flatMap fun finding =>
    finding.environmentIds.map (cellText engine finding.key)

/-- The secret that a cell stands for. -/
def cellSecret (secrets : List SecretRow) (environmentId : JsString) : Option SecretRow :=
  ((engine.localeCompare.on SecretRow.key).sort
    (secrets.filter (·.environmentId = environmentId))).head?

def matrixCell (empty : List JsString) (secrets : List SecretRow) (environmentId : JsString) :
    ConsistencyMatrixCell :=
  match cellSecret engine secrets environmentId with
  | none => ⟨environmentId, .missing, none⟩
  | some secret =>
    ⟨environmentId,
      if empty.contains (cellText engine secret.key environmentId) then .empty else .present,
      some secret.id⟩

def matrixRow (environmentIds empty : List JsString) (entry : JsString × List SecretRow) :
    ConsistencyMatrixRow :=
  let keys := sortedSet (entry.2.map (·.key))
  { key := if keys.length = 1 then keys.head?.getD entry.1 else entry.1
    keys := keys
    cells := environmentIds.map (matrixCell engine empty entry.2) }

def buildMatrix (environments : List ConsistencyEnvironment) (secrets : List SecretRow)
    (findings : List ConsistencyFinding) : List ConsistencyMatrixRow :=
  ((engine.localeCompare.on Prod.fst).sort
    (groupBy (fun secret => engine.toUpperCase secret.key) secrets)).map
      (matrixRow engine (environments.map (·.id)) (emptyCells engine findings))

end

/-! ## The report -/

structure SeverityCounts where
  error : Nat
  warning : Nat
  deriving DecidableEq, Repr

structure ConsistencySummary where
  healthy : Bool
  exitCode : Nat
  totalFindings : Nat
  activeFindings : Nat
  errors : Nat
  warnings : Nat
  deriving DecidableEq, Repr

structure ConsistencyReport where
  environments : List ConsistencyEnvironment
  rows : List ConsistencyMatrixRow
  findings : List ConsistencyFinding
  counts : SeverityCounts
  summary : ConsistencySummary
  deriving DecidableEq, Repr

/-- A finding with the state that is recorded for its id. -/
def mergeState (states : List StateRow) (finding : BaseFinding) : ConsistencyFinding :=
  match (AssocList.setAll [] (states.map fun state => (state.findingId, state))).lookup finding.id with
  | none => withoutState finding
  | some state => withState finding state

def countSeverity (severity : FindingSeverity) (findings : List ConsistencyFinding) : Nat :=
  (findings.filter (·.severity = severity)).length

def summarize (merged : List ConsistencyFinding) : ConsistencySummary :=
  let active := merged.filter (·.disposition ≠ some .ignored)
  { healthy := active.length = 0
    exitCode := if active.length = 0 then 0 else 1
    totalFindings := merged.length
    activeFindings := active.length
    errors := countSeverity .error active
    warnings := countSeverity .warning active }

def report (engine : Engine) (states : List StateRow) (findings : List BaseFinding)
    (environments : List ConsistencyEnvironment) (secrets : List SecretRow) : ConsistencyReport :=
  let merged := findings.map (mergeState states)
  { environments := environments
    rows := buildMatrix engine environments secrets merged
    findings := merged
    counts := ⟨countSeverity .error merged, countSeverity .warning merged⟩
    summary := summarize merged }

def Configuration.secretRows (c : Configuration) : List SecretRow :=
  c.secrets.map fun secret => ⟨secret.secretId, secret.environmentId, secret.key⟩

/-- The report that is computed for a configuration. -/
def Configuration.report (c : Configuration) (engine : Engine) (projectId : JsString)
    (states : List StateRow) : ConsistencyReport :=
  Consistency.report engine states (c.analyze engine projectId) c.environments c.secretRows

/-! ## Dispositions -/

inductive ConsistencyError where
  | invalidInput (message : String)
  | notFound (message : String)
  deriving DecidableEq, Repr

def dispositionNote (note : Option JsString) : Except ConsistencyError (Option JsString) :=
  match note with
  | none => .ok none
  | some note =>
    if trim note = [] then .ok none
    else if 1000 < (trim note).length then
      .error (.invalidInput "Disposition note cannot exceed 1000 characters")
    else .ok (some (trim note))

/-- `INSERT … ON CONFLICT (org_id, project_id, finding_id) DO UPDATE`. -/
def upsertState (states : List StateRow) (state : StateRow) : List StateRow :=
  if states.any (·.findingId = state.findingId) then
    states.map fun row => if row.findingId = state.findingId then state else row
  else states ++ [state]

/-- The finding with its new state, and the states; `now` is the clock of the database. -/
def setDisposition (current : ConsistencyReport) (states : List StateRow)
    (findingId : JsString) (disposition : FindingDisposition) (note : Option JsString) (now : Int) :
    Except ConsistencyError (ConsistencyFinding × List StateRow) :=
  match current.findings.find? (·.id = findingId) with
  | none => .error (.notFound "Consistency finding not found")
  | some finding => do
    let normalizedNote ← dispositionNote note
    let state : StateRow := ⟨findingId, disposition, normalizedNote, now⟩
    .ok (withState finding.toBaseFinding state, upsertState states state)

end Himitsu.Consistency
