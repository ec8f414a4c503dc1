import Himitsu.Action.Client

/-!
# A run of the GitHub Action

Model of `integrations/github-action/src/run.ts`.

* `Inputs`, `readInputs` — the inputs that are read before anything else is done.
* `selectSecrets` — the secrets that `include` and `exclude` keep. They are assigned to the
  properties of an ordinary object, where a text assigned to `__proto__` is lost.
* `exportSelected`, `writeExportFile` — the two ways in which a run ends.
* `Host` — what the engine and the runner provide.

Principal results: `selectSecrets_eq`; `exportSelected_eq` — a run that writes no document masks the
selected values, and is then two loops of writes with nothing but log lines between them.
-/

set_option autoImplicit false

namespace Himitsu.Action

open JsString

inductive ExportTarget where
  | env
  | file
  | outputs
  | none
  deriving DecidableEq, Repr

structure Host where
  toLowerCase : JsString → JsString
  /-- `resolve` of `node:path`. -/
  resolve : JsString → JsString
  draws : Draws

/-! ## Inputs -/

def parseExportTarget (value : JsString) : Except JsString ExportTarget :=
  if value = ofAscii "env" then .ok .env
  else if value = ofAscii "file" then .ok .file
  else if value = ofAscii "outputs" then .ok .outputs
  else if value = ofAscii "none" then .ok .none
  else .error (ofAscii "export-to must be one of env, file, outputs, none, got " ++ jsonQuote value)

def parseFormat (value : JsString) : Except JsString ExportFormat :=
  if value = ofAscii "dotenv" then .ok .dotenv
  else if value = ofAscii "json" then .ok .json
  else if value = ofAscii "shell" then .ok .shell
  else .error (ofAscii "format must be one of dotenv, json, shell, got " ++ jsonQuote value)

/-- `ENV_NAME`: `/^[A-Za-z_][A-Za-z0-9_]*$/`. -/
def isEnvName (name : JsString) : Bool := Secrets.isIdentifier name

/-- A text that may stand before the name of a variable. -/
abbrev KeyPrefix : Type := { text : JsString // text = [] ∨ isEnvName text = true }

def checkPrefix (text : JsString) : Except JsString KeyPrefix :=
  if h : text = [] ∨ isEnvName text = true then .ok ⟨text, h⟩
  else .error (ofAscii "prefix must be a valid environment variable prefix, got " ++ jsonQuote text)

/-- Empty `included` keeps every key. -/
structure Filters where
  included : List JsString
  excluded : List JsString
  deriving DecidableEq

structure Inputs where
  apiUrl : JsString
  token : JsString
  projectId : JsString
  environmentId : JsString
  exportTo : ExportTarget
  shouldMask : Bool
  keyPrefix : KeyPrefix
  filters : Filters
  deriving DecidableEq

def readInputs (host : Host) (env : Environment) : Except JsString Inputs := do
  let apiUrl ← required env "api-url"
  let token ← required env "token"
  let projectId ← required env "project"
  let environmentId ← required env "environment"
  let exportTo ← parseExportTarget (← withDefault env "export-to" "env")
  let shouldMask ← booleanInput host.toLowerCase env "mask" true
  let text ← optional env "prefix"
  let included ← listInput env "include"
  let excluded ← listInput env "exclude"
  let keyPrefix ← checkPrefix text
  .ok ⟨apiUrl, token, projectId, environmentId, exportTo, shouldMask, keyPrefix,
    ⟨included, excluded⟩⟩

/-- The inputs that only a run with `export-to: file` reads. -/
structure FileTarget where
  format : ExportFormat
  path : JsString
  deriving DecidableEq, Repr

def readFileTarget (env : Environment) : Except JsString FileTarget := do
  let format ← parseFormat (← withDefault env "format" "dotenv")
  let path ← required env "file"
  .ok ⟨format, path⟩

/-! ## The selected secrets -/

def Filters.keeps (filters : Filters) (key : JsString) : Bool :=
  (filters.included.isEmpty || filters.included.contains key) && !filters.excluded.contains key

def PROTO : JsString := ofAscii "__proto__"

/-- `selected[key] = value` for a key that is not a property yet. -/
def assign (selected : List Pair) (entry : Pair) : List Pair :=
  if entry.1 = PROTO then selected else selected ++ [entry]

def selectSecrets (filters : Filters) (secrets : Secrets.SecretRecord) : List Pair :=
  secrets.entries.foldl (fun selected entry =>
    if filters.keeps entry.1 then assign selected entry else selected) []

/-- `Object.keys(selected).sort()`. -/
def sortedKeys (selected : List Pair) : List JsString :=
  (selected.map (·.1)).insertionSort (· ≤ ·)

def valueOf (selected : List Pair) (key : JsString) : JsString := (selected.lookup key).getD []

/-- The name and the value written for each key. -/
def namedPairs (keyPrefix : KeyPrefix) (selected : List Pair) : List Pair :=
  (sortedKeys selected).map fun key => (keyPrefix.val ++ key, valueOf selected key)

/-! ## Exports -/

section

variable (host : Host) (env : Environment)

def writeAll (fileVariable : JsString) (pairs : List Pair) : Step Unit :=
  Script.forEach (writeKeyValue env host.draws fileVariable) pairs

/-- The pairs whose names can be variables, and the names of the others. -/
def exportable (pairs : List Pair) : List Pair := pairs.filter fun pair => isEnvName pair.1

def rejectedNames (pairs : List Pair) : List JsString :=
  (pairs.filter fun pair => !isEnvName pair.1).map (·.1)

def joinWith (separator : String) (texts : List JsString) : JsString :=
  (ofAscii separator).intercalate texts

def warnRejected (names : List JsString) : Step Unit :=
  if names = [] then pure ()
  else warning (ofAscii "Skipped " ++ ofNat names.length ++
    ofAscii " secret(s) whose key is not a valid environment variable name: " ++
    joinWith ", " names)

def exportedToEnv (count : Nat) : JsString :=
  ofAscii "Exported " ++ ofNat count ++ ofAscii " secret(s) to the environment."

def exportEnv (pairs : List Pair) : Step Unit := do
  Script.forEach (fun pair =>
    if isEnvName pair.1 then exportVariable env host.draws pair.1 pair.2 else pure ()) pairs
  warnRejected (rejectedNames pairs)
  info (exportedToEnv (pairs.length - (rejectedNames pairs).length))

def exportedAsOutputs (count : Nat) : JsString :=
  ofAscii "Exported " ++ ofNat count ++ ofAscii " secret(s) as step outputs."

def outputsWarning : JsString :=
  ofAscii ("Secrets written to step outputs are stored in the workflow run. Prefer " ++
    "export-to: env unless a downstream step needs them as outputs.")

def exportOutputs (pairs : List Pair) : Step Unit := do
  Script.forEach (fun pair => setOutput env host.draws pair.1 pair.2) pairs
  warning outputsWarning
  info (exportedAsOutputs pairs.length)

def fetchedOnly (count : Nat) : JsString :=
  ofAscii "Fetched " ++ ofNat count ++
    ofAscii " secret(s); export-to is \"none\" so nothing was written."

def exportNone (pairs : List Pair) : Step Unit := info (fetchedOnly pairs.length)

def exportTo (target : ExportTarget) (pairs : List Pair) : Step Unit :=
  match target with
  | .env => exportEnv host env pairs
  | .outputs => exportOutputs host env pairs
  | .none => exportNone pairs
  | .file => pure ()

def secretCount : JsString := ofAscii "secret-count"

/-- The outputs of a run that wrote no file. -/
def summary (configVersion : Nat) (keys : List JsString) : List Pair :=
  [(secretCount, ofNat keys.length), (ofAscii "config-version", ofNat configVersion),
    (ofAscii "keys", joinWith "," keys)]

def maskAll (shouldMask : Bool) (values : List JsString) : Step Unit :=
  if shouldMask then Script.forEach mask values else pure ()

/-- What a run does with the selected secrets. -/
def exportSelected (inputs : Inputs) (configVersion : Nat) (selected : List Pair) :
    Step Unit := do
  maskAll inputs.shouldMask (selected.map (·.2))
  exportTo host env inputs.exportTo (namedPairs inputs.keyPrefix selected)
  writeAll host env GITHUB_OUTPUT (summary configVersion (sortedKeys selected))

def exportSecrets (inputs : Inputs) (config : RuntimeConfig) : Step Unit :=
  exportSelected host env inputs config.configVersion (selectSecrets inputs.filters config.secrets)

/-! ## The export file -/

/-- The lines of a document that are masked, without surrounding white space. -/
def maskedLines (content : JsString) : List JsString := (content.splitOn 0x0A).map trim

def formatName : ExportFormat → JsString
  | .dotenv => ofAscii "dotenv"
  | .json => ofAscii "json"
  | .shell => ofAscii "shell"

def fileSummary (target : FileTarget) (count : Nat) : List Pair :=
  [(secretCount, ofNat count), (ofAscii "file", target.path)]

def writeDocument (inputs : Inputs) (target : FileTarget) (exported : ExportResult) :
    Step Unit := do
  maskAll inputs.shouldMask (maskedLines exported.content)
  Script.emit (.write (host.resolve target.path) exported.content)
  info (ofAscii "Wrote " ++ ofNat exported.secretCount ++ ofAscii " secret(s) to " ++ target.path ++
    ofAscii " as " ++ formatName target.format ++ ofAscii " (mode 0600).")
  warning (target.path ++ ofAscii (" contains plaintext secrets. Delete it before uploading " ++
    "artifacts or caching this workspace."))
  writeAll host env GITHUB_OUTPUT (fileSummary target exported.secretCount)

def writeExportFile (api : Api) (inputs : Inputs) : Step Unit := do
  let target ← Script.ofExcept (readFileTarget env)
  let exported ← Script.ofExcept
    (json (api.exports inputs.projectId inputs.environmentId target.format))
  writeDocument host env inputs target exported

/-! ## The run -/

def finish (api : Api) (inputs : Inputs) : Step Unit :=
  match inputs.exportTo with
  | .file => writeExportFile host env api inputs
  | _ => do
    let config ← Script.ofExcept (json (api.runtimeConfig inputs.projectId inputs.environmentId))
    exportSecrets host env inputs config

def run (api : Api) : Step Unit := do
  let inputs ← Script.ofExcept (readInputs host env)
  maskAll inputs.shouldMask [inputs.token]
  let _ ← Script.ofExcept (connect api inputs.apiUrl inputs.token)
  finish host env api inputs

end

/-! ## Selection -/

/-- Whether a secret is among those to export. -/
def Filters.selects (filters : Filters) (entry : Pair) : Bool :=
  filters.keeps entry.1 && entry.1 ≠ PROTO

theorem foldl_assign (filters : Filters) (entries selected : List Pair) :
    entries.foldl (fun selected entry =>
      if filters.keeps entry.1 then assign selected entry else selected) selected =
      selected ++ entries.filter filters.selects := by
  induction entries generalizing selected with
  | nil => simp
  | cons entry entries ih =>
    rw [List.foldl_cons, ih, List.filter_cons]
    by_cases hkeeps : filters.keeps entry.1 = true
    · by_cases hproto : entry.1 = PROTO
      · simp [Filters.selects, assign, hproto]
      · simp [Filters.selects, assign, hkeeps, hproto]
    · simp [Filters.selects, hkeeps]

/-- **The selected secrets are those the filters keep, but for `__proto__`.** -/
theorem selectSecrets_eq (filters : Filters) (secrets : Secrets.SecretRecord) :
    selectSecrets filters secrets = secrets.entries.filter filters.selects := by
  rw [selectSecrets, foldl_assign, List.nil_append]

/-! ## What a run does -/

/-- The beginning of a mask command. -/
def MASK : JsString := ofAscii "::add-mask::"

/-- The runner has set up a file for variables and another for outputs. -/
structure CommandFiles (env : Environment) where
  envFile : JsString
  outputFile : JsString
  env_set : env GITHUB_ENV = some envFile
  output_set : env GITHUB_OUTPUT = some outputFile
  env_ne : envFile ≠ []
  output_ne : outputFile ≠ []
  distinct : envFile ≠ outputFile

/-- The file that the secrets of a run are appended to. -/
def CommandFiles.destination {env : Environment} (files : CommandFiles env) :
    ExportTarget → JsString
  | .env => files.envFile
  | _ => files.outputFile

/-- The secrets that are appended to it. -/
def exportedPairs (target : ExportTarget) (pairs : List Pair) : List Pair :=
  match target with
  | .env => exportable pairs
  | .outputs => pairs
  | _ => []

section

variable (host : Host) {env : Environment} (files : CommandFiles env)

theorem exportEnv_eq (env : Environment) (pairs : List Pair) :
    exportEnv host env pairs = (do
      writeAll host env GITHUB_ENV (exportable pairs)
      warnRejected (rejectedNames pairs)
      info (exportedToEnv (pairs.length - (rejectedNames pairs).length))) := by
  unfold exportEnv writeAll exportable
  rw [← Script.forEach_filter]
  rfl

theorem logs_warnRejected (names : List JsString) :
    ∃ lines, Logs (warnRejected names) lines ∧ ∀ line ∈ lines, ¬MASK <+: line := by
  unfold warnRejected
  split
  · exact ⟨[], logs_pure, by simp⟩
  · refine ⟨_, logs_warning _, ?_⟩
    rw [List.forall_mem_singleton, ← List.isPrefixOf_iff_prefix]
    exact Bool.false_ne_true

theorem logs_maskAll (shouldMask : Bool) (values : List JsString) :
    Logs (maskAll shouldMask values)
      (if shouldMask then (values.filter fun value => !isBlank value).map maskLine else []) := by
  cases shouldMask with
  | false => exact logs_pure
  | true => exact logs_masks values

/-- The loop of an export, and the lines logged after it. -/
theorem exportTo_eq (target : ExportTarget) (pairs : List Pair) :
    ∃ quiet lines, Logs quiet lines ∧ (∀ line ∈ lines, ¬MASK <+: line) ∧
      exportTo host env target pairs = (do
        Script.forEach (Script.guarded (refusal host.draws) fun i pair =>
          .append (files.destination target) (recordOf host.draws i pair))
          (exportedPairs target pairs)
        quiet) := by
  cases target with
  | env =>
    obtain ⟨lines, hlines, hmask⟩ := logs_warnRejected (rejectedNames pairs)
    refine ⟨_, _, hlines.bind (logs_info (exportedToEnv
      (pairs.length - (rejectedNames pairs).length))), ?_, ?_⟩
    · rw [List.forall_mem_append]
      refine ⟨hmask, ?_⟩
      rw [List.forall_mem_singleton, ← List.isPrefixOf_iff_prefix]
      exact Bool.false_ne_true
    · show exportEnv host env pairs = _
      rw [exportEnv_eq, writeAll, writeKeyValue_of_set files.env_set files.env_ne]
      rfl
  | outputs =>
    refine ⟨_, _, (logs_warning outputsWarning).bind
      (logs_info (exportedAsOutputs pairs.length)), ?_, ?_⟩
    · rw [List.forall_mem_append, List.forall_mem_singleton, List.forall_mem_singleton,
        ← List.isPrefixOf_iff_prefix, ← List.isPrefixOf_iff_prefix]
      exact ⟨Bool.false_ne_true, Bool.false_ne_true⟩
    · show exportOutputs host env pairs = _
      have hset : (fun pair : Pair => setOutput env host.draws pair.1 pair.2) =
          writeKeyValue env host.draws GITHUB_OUTPUT := rfl
      rw [exportOutputs, hset, writeKeyValue_of_set files.output_set files.output_ne]
      rfl
  | none =>
    refine ⟨_, _, logs_info (fetchedOnly pairs.length), ?_, rfl⟩
    rw [List.forall_mem_singleton, ← List.isPrefixOf_iff_prefix]
    exact Bool.false_ne_true
  | file => exact ⟨_, _, logs_pure, by simp, rfl⟩

/-- **What a run does that writes no document**: masks, and then the two loops of writes. -/
theorem exportSelected_eq (inputs : Inputs) (configVersion : Nat) (selected : List Pair) :
    ∃ quiet lines, Logs quiet lines ∧ (∀ line ∈ lines, ¬MASK <+: line) ∧
      exportSelected host env inputs configVersion selected = (do
        maskAll inputs.shouldMask (selected.map (·.2))
        Script.loops (refusal host.draws)
          (fun i pair => .append (files.destination inputs.exportTo) (recordOf host.draws i pair))
          (fun i pair => .append files.outputFile (recordOf host.draws i pair))
          (exportedPairs inputs.exportTo (namedPairs inputs.keyPrefix selected))
          (summary configVersion (sortedKeys selected)) quiet) := by
  obtain ⟨quiet, lines, hlogs, hmask, heq⟩ := exportTo_eq host files inputs.exportTo
    (namedPairs inputs.keyPrefix selected)
  refine ⟨quiet, lines, hlogs, hmask, ?_⟩
  unfold exportSelected writeAll Script.loops
  rw [heq, writeKeyValue_of_set files.output_set files.output_ne]
  simp only [Script.bind_assoc]

/-- A run whose inputs are read, up to the request. -/
theorem run_eq {api : Api} {inputs : Inputs} (hinputs : readInputs host env = .ok inputs)
    (hconnect : connect api inputs.apiUrl inputs.token = .ok ()) :
    run host env api = (do
      maskAll inputs.shouldMask [inputs.token]
      finish host env api inputs) := by
  unfold run
  rw [hinputs, Script.ofExcept_ok, Script.pure_bind, hconnect, Script.ofExcept_ok]
  rfl

theorem finish_runtime {api : Api} {inputs : Inputs} {config : RuntimeConfig}
    (hfile : inputs.exportTo ≠ .file)
    (hconfig : json (api.runtimeConfig inputs.projectId inputs.environmentId) = .ok config) :
    finish host env api inputs = exportSecrets host env inputs config := by
  unfold finish
  rw [hconfig, Script.ofExcept_ok, Script.pure_bind]
  split
  · rename_i h
    exact absurd h hfile
  · rfl

end

/-! ## A step -/

/-- A step with a token, and further variables. -/
def exampleEnv (others : List (String × String)) : Environment := fun name =>
  ([("INPUT_API-URL", "https://himitsu.example"),
    ("INPUT_TOKEN", "himi_0123456789abcdef_AAAAAAAAAAAAAAAAAAAAAAAAAAAAAAAAAAAAAAAAAAA"),
    ("INPUT_PROJECT", "p1"), ("INPUT_ENVIRONMENT", "e1"), ("GITHUB_ENV", "/tmp/github_env"),
    ("GITHUB_OUTPUT", "/tmp/github_output")] ++ others).findSome? fun item =>
      if ofAscii item.1 = name then some (ofAscii item.2) else none

def exampleFiles (others : List (String × String)) : CommandFiles (exampleEnv others) :=
  ⟨ofAscii "/tmp/github_env", ofAscii "/tmp/github_output", rfl, rfl, by decide, by decide,
    by decide⟩

def exampleHost : Host := ⟨id, id, fun i => Vector.replicate 16 i.toUInt8⟩

def exampleInputs (target : ExportTarget) : Inputs :=
  ⟨ofAscii "https://himitsu.example",
    ofAscii "himi_0123456789abcdef_AAAAAAAAAAAAAAAAAAAAAAAAAAAAAAAAAAAAAAAAAAA", ofAscii "p1",
    ofAscii "e1", target, true, ⟨[], .inl rfl⟩, ⟨[], []⟩⟩

/-- An API that answers at once. -/
def exampleApi (config : RuntimeConfig) (exported : ExportResult) : Api :=
  ⟨fun _ => .ok (ofAscii "https:"), fun _ _ _ => .ok (some config), fun _ _ _ _ => .ok (some exported)⟩

end Himitsu.Action
