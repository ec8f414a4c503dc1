import Himitsu.Imports.DotenvLines
import Himitsu.Imports.Json
import Himitsu.Secrets.ImportOverlay

/-!
# The import routes

Model of `buildJsonImportPreview` of `packages/imports/src/index.ts` and of what the import routes of
`apps/api/src/index.ts` make of a source.

* `ImportSource` — a dotenv or a JSON text.
* `parse`, `preview` — what the commit and the preview route read from it.
* `importInput` — an entry as the commit routes hand it to `importBatch`.

Principal result: `import_preview` — an import creates and updates as many secrets as the preview
reports additions and updates among the entries that the strategy takes.
-/

set_option autoImplicit false

namespace Himitsu.JsonImport

open JsString Dotenv

structure JsonImportPreviewEntry where
  key : JsString
  path : JsString
  operation : Operation
  deriving DecidableEq, Repr

structure JsonImportPreview where
  entries : List JsonImportPreviewEntry
  conflicts : List JsonImportIssue
  adds : Nat
  updates : Nat
  conflictCount : Nat
  deriving DecidableEq, Repr

def buildJsonImportPreview (parsed : JsonImportParseResult) (existingKeys : List JsString) :
    JsonImportPreview :=
  let entries := parsed.entries.map fun entry =>
    (⟨entry.key, entry.path, if existingKeys.contains entry.key then .update else .add⟩ :
      JsonImportPreviewEntry)
  let adds := (entries.filter (·.operation = .add)).length
  ⟨entries, parsed.issues, adds, entries.length - adds, parsed.issues.length⟩

end Himitsu.JsonImport

namespace Himitsu.Secrets

open JsString Crypto Database Services Transactions Interleaving Dotenv JsonImport

/-! ## Sources -/

/-- What the import routes are sent. -/
inductive ImportSource where
  | dotenv (content : JsString)
  | json (content delimiter : JsString)

def ImportSource.format : ImportSource → SecretImportFormat
  | .dotenv _ => .dotenv
  | .json _ _ => .json

section

-- The texts of numbers and of syntax errors are the engine's.
variable (numberText syntaxMessage : JsString → JsString)

/-- The entries of a source in which the parser finds no issue; otherwise the commit routes fail. -/
def ImportSource.parse : ImportSource → Option (List (JsString × JsString))
  | .dotenv content =>
    let parsed := parseDotenv content
    if parsed.issues.isEmpty then some (parsed.entries.map fun entry => (entry.key, entry.value))
    else none
  | .json content delimiter =>
    let parsed := parseJsonSecrets numberText syntaxMessage content delimiter
    if parsed.issues.isEmpty then some (parsed.entries.map fun entry => (entry.key, entry.value))
    else none

/-- The keys and the operations that the preview routes report. -/
def ImportSource.preview (existingKeys : List JsString) :
    ImportSource → List (JsString × Operation)
  | .dotenv content =>
    (buildDotenvPreview (parseDotenv content) existingKeys).entries.map fun entry =>
      (entry.key, entry.operation)
  | .json content delimiter =>
    (buildJsonImportPreview (parseJsonSecrets numberText syntaxMessage content delimiter)
      existingKeys).entries.map fun entry => (entry.key, entry.operation)

/-- The line of a preview for an entry. -/
def previewLine (existingKeys : List JsString) (entry : JsString × JsString) :
    JsString × Operation :=
  (entry.1, if existingKeys.contains entry.1 then .update else .add)

variable {numberText syntaxMessage}

theorem preview_of_parse {source : ImportSource} {entries : List (JsString × JsString)}
    (h : source.parse numberText syntaxMessage = some entries) (existingKeys : List JsString) :
    source.preview numberText syntaxMessage existingKeys =
      entries.map (previewLine existingKeys) := by
  cases source with
  | dotenv content =>
    simp only [ImportSource.parse] at h
    split at h
    · rw [← Option.some.inj h]
      simp [ImportSource.preview, buildDotenvPreview, previewLine, Function.comp_def]
    · cases h
  | json content delimiter =>
    simp only [ImportSource.parse] at h
    split at h
    · rw [← Option.some.inj h]
      simp [ImportSource.preview, buildJsonImportPreview, previewLine, Function.comp_def]
    · cases h

/-- The keys of a source are what they are without the white space around them. -/
theorem trim_of_parse {source : ImportSource} {entries : List (JsString × JsString)}
    (h : source.parse numberText syntaxMessage = some entries) :
    ∀ entry ∈ entries, trim entry.1 = entry.1 := by
  cases source with
  | dotenv content =>
    simp only [ImportSource.parse] at h
    split at h
    · rw [← Option.some.inj h]
      intro entry hentry
      obtain ⟨parsed, hparsed, rfl⟩ := List.mem_map.mp hentry
      have hpattern := (parseDotenv_wellFormed content).2 parsed hparsed
      exact trim_of_forall fun c hc => (keyPattern_units hpattern c hc).notWhitespace
    · cases h
  | json content delimiter =>
    simp only [ImportSource.parse] at h
    split at h
    · rw [← Option.some.inj h]
      intro entry hentry
      obtain ⟨parsed, hparsed, rfl⟩ := List.mem_map.mp hentry
      obtain ⟨-, -, hclean⟩ :=
        parseJsonSecrets_wellFormed numberText syntaxMessage content delimiter
      refine trim_of_forall fun c hc => ?_
      have hunit := hclean parsed hparsed c hc
      simp only [isForbidden, Bool.or_eq_false_iff] at hunit
      exact hunit.1.1.1
    · cases h

end

/-- An entry as the commit routes hand it to `importBatch`. -/
def importInput (entry : JsString × JsString) : SetSecretInput :=
  { key := entry.1, value := entry.2, allowNonConformingKey := !conventionalKey entry.1 }

/-! ## The listing of a preview -/

variable {wrapper : KeyWrapper} {platform : Platform} {db db' : Db wrapper}
  {userId projectId environmentId : Uuid}

/-- A listing without filters has the keys of the active secrets. -/
theorem serially_list : Serially store Eq (list platform userId projectId environmentId ⟨none, none⟩ :
    TransactionM wrapper _) [] db fun rows _ _ =>
      rows.map (·.key) = activeKeys platform db projectId environmentId := by
  refine serially_scope fun scope held _ => serially_bind (serially_attempt fun search hsearch => ?_)
  obtain rfl := Except.ok.inj hsearch
  refine serially_bind (serially_select fun view hview _ => serially_ok ?_)
  subst hview
  simp [activeKeys, metadataFromRow, selectSecret, Function.comp_def]

/-- Whether the strategy takes a line of a preview. -/
def taken (strategy : SecretImportStrategy) (selected existingKeys : List JsString)
    (line : JsString × Operation) : Bool :=
  Takes selected (existingKeys.contains line.1) line.1 strategy

/-- What a preview leads to expect of an import. -/
def previewSummary (strategy : SecretImportStrategy) (selected existingKeys : List JsString)
    (lines : List (JsString × Operation)) : ImportSummary where
  requested := lines.length
  created := lines.countP fun line =>
    taken strategy selected existingKeys line && decide (line.2 = .add)
  updated := lines.countP fun line =>
    taken strategy selected existingKeys line && decide (line.2 = .update)
  skipped := lines.countP fun line => !taken strategy selected existingKeys line

section

variable {strategy : SecretImportStrategy} {selected keys : List JsString}
  {values : Place → Option JsString}

/-- The line of an entry decides what the import does with it. -/
theorem line_of_agrees {entry : JsString × JsString} (htrim : trim entry.1 = entry.1)
    (h : Agrees strategy selected values keys projectId environmentId (importInput entry)) :
    chosen strategy selected values projectId environmentId (importInput entry) =
        taken strategy selected keys (previewLine keys entry) ∧
      (taken strategy selected keys (previewLine keys entry) = true →
        ((values (inputPlace projectId environmentId (importInput entry))).isSome =
          decide ((previewLine keys entry).2 = .update))) := by
  have hincluded := h.included
  have hpresent := h.present
  rw [importInput, htrim, ← importInput] at hincluded hpresent
  have htaken : taken strategy selected keys (previewLine keys entry) =
      chosen strategy selected values projectId environmentId (importInput entry) := hincluded
  refine ⟨htaken.symm, fun htake => ?_⟩
  rw [← hpresent (htaken.symm.trans htake), previewLine]
  split <;> simp_all

/-- What an import creates, updates and skips is counted in the lines of its preview. -/
theorem importSummary_preview {entries : List (JsString × JsString)}
    (htrim : ∀ entry ∈ entries, trim entry.1 = entry.1)
    (hagrees : ∀ input ∈ entries.map importInput,
      Agrees strategy selected values keys projectId environmentId input) :
    importSummary strategy selected values projectId environmentId (entries.map importInput) =
      previewSummary strategy selected keys (entries.map (previewLine keys)) := by
  have hlines := fun entry hentry => line_of_agrees (htrim entry hentry)
    (hagrees (importInput entry) (List.mem_map_of_mem hentry))
  refine (ImportSummary.mk.injEq ..).mpr ⟨by simp, ?_, ?_, ?_⟩
  all_goals
    rw [List.countP_map, List.countP_map]
    refine List.countP_congr fun entry hentry => ?_
    obtain ⟨hchosen, hpresent⟩ := hlines entry hentry
    simp only [Function.comp_apply, hchosen]
  · cases htaken : taken strategy selected keys (previewLine keys entry) with
    | false => simp
    | true =>
      rw [hpresent htaken]
      cases (previewLine keys entry).2 <;> simp
  · cases htaken : taken strategy selected keys (previewLine keys entry) with
    | false => simp
    | true => rw [hpresent htaken]

end

/-! ## A preview and its commit -/

section

variable {config : Config} {base : Db wrapper}
  {s : System (Db wrapper) Lock Write ServiceError Call Answer}

/-- **A preview tells what its commit does.** In every run, the import of a source creates the
additions and updates the updates that its strategy takes of a preview of the source, made from any
listing that answers in the state which the import finds. -/
theorem import_preview (hempty : base.secrets = [] ∧ base.secretVersions = [])
    (hreach : Reachable store (program config) base s) {i : Nat} {e : Commit wrapper}
    (he : s.log[i]? = some e) {numberText syntaxMessage : JsString → JsString}
    {source : ImportSource} {entries : List (JsString × JsString)}
    (hparse : source.parse numberText syntaxMessage = some entries)
    {projectId environmentId : Uuid} {strategy : SecretImportStrategy} {selected : List JsString}
    (haction : e.call.action = .secret (.importBatch projectId environmentId
      (entries.map importInput) strategy selected source.format))
    {viewer : Uuid} {draws : Draws} {rows : List SecretMetadata}
    (hlist : (respond config (databaseAfter store base s.log i)
      ⟨viewer, draws, .secret (.list projectId environmentId ⟨none, none⟩)⟩).1 =
        .ok (.secrets rows)) :
    let keys := rows.map fun row => row.key
    ∃ result, e.answer = .imported result ∧ result.summary =
      previewSummary strategy selected keys (source.preview numberText syntaxMessage keys) := by
  intro keys
  obtain ⟨vault, result, -, hanswer, himports⟩ := imports_of_commit hempty hreach he haction
  have hcall : Serially store Eq (program config
      ⟨viewer, draws, .secret (.list projectId environmentId ⟨none, none⟩)⟩) []
      (databaseAfter store base s.log i) fun answer _ _ => ∀ rows, answer = .secrets rows →
        rows.map (fun row => row.key) = activeKeys config.platform
          (databaseAfter store base s.log i) projectId environmentId :=
    serially_answering (serially_list.mono fun rows _ _ hrows rows' heq => by
      rw [← Answer.secrets.inj heq, hrows])
  obtain ⟨-, hkeys⟩ := serially_of_transact (fun _ => rfl) hcall
    ((transact_ok_iff _).mp (Prod.ext hlist rfl))
  refine ⟨result, hanswer, ?_⟩
  rw [himports.summary, preview_of_parse hparse, show keys = _ from hkeys rows rfl]
  exact importSummary_preview (trim_of_parse hparse) himports.agrees

end

deriving instance DecidableEq for SetSecretInput

/-- The dotenv text of the import in `importCalls`. -/
def importSource : ImportSource := .dotenv (ofAscii "KEY=y\nNEW=z")

def importedOf (e : Commit exampleWrapper) : Option (Uuid × Uuid × List SetSecretInput) :=
  match e.call.action with
  | .secret (.importBatch projectId environmentId inputs .skip [] .dotenv) =>
    some (projectId, environmentId, inputs)
  | _ => none

def listedKeys : Except ServiceError Answer → Option (List JsString)
  | .ok (.secrets rows) => some (rows.map fun row => row.key)
  | _ => none

def listApp : Call := callAt 4 (.secret (.list ⟨100⟩ ⟨101⟩ ⟨none, none⟩))

theorem importSource_parse : importSource.parse id id =
    some [(ofAscii "KEY", ofAscii "y"), (ofAscii "NEW", ofAscii "z")] := by
  decide +kernel

theorem importRun_inputs : importRun.map (fun s => (s.log[2]?).bind importedOf) =
    some (some (⟨100⟩, ⟨101⟩, [(ofAscii "KEY", ofAscii "y"), (ofAscii "NEW", ofAscii "z")].map
      importInput)) := by
  decide +kernel

theorem importRun_listed : importRun.map (fun s => listedKeys (respond exampleConfig
    (databaseAfter store newOrganization s.log 2) listApp).1) = some (some [ofAscii "KEY"]) := by
  decide +kernel

theorem import_preview_dotenv : ∃ s e result, importRun = some s ∧ s.log[2]? = some e ∧
    e.answer = .imported result ∧ result.summary = previewSummary .skip [] [ofAscii "KEY"]
      (importSource.preview id id [ofAscii "KEY"]) := by
  obtain ⟨s, hs, hlog⟩ := Option.map_eq_some_iff.mp importRun_inputs
  obtain ⟨e, he, hinputs⟩ := Option.bind_eq_some_iff.mp hlog
  have hlisted := importRun_listed
  rw [hs] at hlisted
  have hkeys : listedKeys (respond exampleConfig (databaseAfter store newOrganization s.log 2)
    listApp).1 = some [ofAscii "KEY"] := Option.some.inj hlisted
  unfold listedKeys at hkeys
  unfold importedOf at hinputs
  split at hkeys
  · rename_i rows hlist
    have hkeys : rows.map (fun row => row.key) = [ofAscii "KEY"] := Option.some.inj hkeys
    split at hinputs
    · rename_i projectId environmentId inputs haction
      obtain ⟨rfl, hrest⟩ := Prod.mk.inj (Option.some.inj hinputs)
      obtain ⟨rfl, rfl⟩ := Prod.mk.inj hrest
      obtain ⟨result, hanswer, hsummary⟩ := import_preview ⟨rfl, rfl⟩ (reachable_of_schedule hs) he
        importSource_parse haction hlist
      exact ⟨s, e, result, hs, he, hanswer, hkeys ▸ hsummary⟩
    · cases hinputs
  · cases hkeys

end Himitsu.Secrets
