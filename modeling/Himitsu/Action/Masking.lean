import Himitsu.Action.Intended

/-!
# Masks before writes

* `registered` — the value that the runner masks from a line of the log on.
* `contents`, `registeredFirst` — what a run writes to files, and the masks registered before its
  first write.
* `Fetched` — what the API answered: the secrets, or a document that renders them.
* `MasksFirst` — every value that is not blank and is contained in something written is registered
  before the first write.
* `Fetched.Exposes`, `Fetched.Covers` — the conditions on the inputs: a text is in what there is to
  write; and it is the value of a secret to export or, in a document, alone on a line.

Principal result: `masksFirst_iff`.
-/

set_option autoImplicit false

namespace Himitsu.Action

open JsString

/-! ## The runner's log -/

/-- The runner reads `%25`, `%0D` and `%0A` in the data of a command. -/
def unescapeData : JsString → JsString
  | 0x25 :: 0x32 :: 0x35 :: rest => 0x25 :: unescapeData rest
  | 0x25 :: 0x30 :: 0x44 :: rest => 0x0D :: unescapeData rest
  | 0x25 :: 0x30 :: 0x41 :: rest => 0x0A :: unescapeData rest
  | c :: rest => c :: unescapeData rest
  | [] => []

def registered : Effect → Option JsString
  | .log line =>
    if MASK.isPrefixOf line then some (unescapeData (line.drop MASK.length)) else none
  | _ => none

def content : Effect → Option JsString
  | .log _ => none
  | .append _ text => some text
  | .write _ text => some text

/-- What is written to files, in order. -/
def contents (effects : List Effect) : List JsString := effects.filterMap content

/-- The masks registered before the first write. -/
def registeredFirst (effects : List Effect) : List JsString :=
  (effects.takeWhile fun effect => (content effect).isNone).filterMap registered

def MasksFirst (values : List JsString) (effects : List Effect) : Prop :=
  ∀ value ∈ values, isBlank value = false → (∃ text ∈ contents effects, value <:+: text) →
    value ∈ registeredFirst effects

/-! ## Escaping -/

theorem replaceUnit_append (c : UInt16) (text s t : JsString) :
    replaceUnit c text (s ++ t) = replaceUnit c text s ++ replaceUnit c text t :=
  List.flatMap_append

/-- What `escapeData` writes for one unit. -/
def escapeUnit (c : UInt16) : JsString :=
  if c = 0x25 then ofAscii "%25"
  else if c = 0x0D then ofAscii "%0D"
  else if c = 0x0A then ofAscii "%0A"
  else [c]

theorem escapeData_cons (c : UInt16) (value : JsString) :
    escapeData (c :: value) = escapeUnit c ++ escapeData value := by
  have hone : ∀ d, escapeData [d] = escapeUnit d := by
    intro d
    unfold escapeUnit
    split_ifs with hpercent hreturn hfeed
    · rw [hpercent]
      rfl
    · rw [hreturn]
      rfl
    · rw [hfeed]
      rfl
    · simp [escapeData, replaceUnit, hpercent, hreturn, hfeed]
  rw [← hone, ← List.singleton_append, escapeData, replaceUnit_append, replaceUnit_append,
    replaceUnit_append]
  rfl

/-- **The runner reads what was escaped.** -/
theorem unescapeData_escapeData (value : JsString) : unescapeData (escapeData value) = value := by
  induction value with
  | nil => rfl
  | cons c value ih =>
    rw [escapeData_cons, escapeUnit]
    split_ifs with hpercent hreturn hfeed
    · rw [hpercent, ← ih]
      simp [ofAscii, unescapeData, ih]
    · rw [hreturn, ← ih]
      simp [ofAscii, unescapeData, ih]
    · rw [hfeed, ← ih]
      simp [ofAscii, unescapeData, ih]
    · rw [List.singleton_append, unescapeData]
      · rw [ih]
      all_goals simp [hpercent]

theorem registered_maskLine (value : JsString) :
    registered (.log (maskLine value)) = some value := by
  have hline : maskLine value = MASK ++ escapeData value := rfl
  have hmask : MASK.isPrefixOf (MASK ++ escapeData value) = true :=
    List.isPrefixOf_iff_prefix.mpr (List.prefix_append _ _)
  rw [registered, hline, if_pos hmask, List.drop_left, unescapeData_escapeData]

theorem registered_maskLines (values : List JsString) :
    ((values.map maskLine).map Effect.log).filterMap registered = values := by
  induction values with
  | nil => rfl
  | cons value values ih =>
    rw [List.map_cons, List.map_cons, List.filterMap_cons_some (registered_maskLine value), ih]

theorem registered_other {lines : List JsString} (h : ∀ line ∈ lines, ¬MASK <+: line) :
    (lines.map Effect.log).filterMap registered = [] := by
  rw [List.filterMap_eq_nil_iff]
  intro effect heffect
  obtain ⟨line, hline, rfl⟩ := List.mem_map.mp heffect
  rw [registered, if_neg]
  rw [List.isPrefixOf_iff_prefix]
  exact h line hline

/-! ## Traces -/

theorem contents_append (effects others : List Effect) :
    contents (effects ++ others) = contents effects ++ contents others :=
  List.filterMap_append

theorem contents_log (lines : List JsString) : contents (lines.map .log) = [] := by
  rw [contents, List.filterMap_eq_nil_iff]
  intro effect heffect
  obtain ⟨line, -, rfl⟩ := List.mem_map.mp heffect
  rfl

/-- The texts of the records of some pairs. -/
def texts (draws : Draws) (items : List (Pair × Nat)) : List JsString :=
  items.map fun item => recordOf draws item.2 item.1

theorem contents_records (draws : Draws) (path : JsString) (items : List (Pair × Nat)) :
    contents (items.map fun item => .append path (recordOf draws item.2 item.1)) =
      texts draws items := by
  induction items with
  | nil => rfl
  | cons item items ih =>
    show recordOf draws item.2 item.1 :: contents _ = _
    rw [ih]
    rfl

/-- Masks are registered in the order of the log. -/
theorem registeredFirst_log (lines : List JsString) (effects : List Effect) :
    registeredFirst (lines.map .log ++ effects) =
      (lines.map .log).filterMap registered ++ registeredFirst effects := by
  unfold registeredFirst
  rw [List.takeWhile_append_of_pos, List.filterMap_append]
  intro effect heffect
  obtain ⟨line, -, rfl⟩ := List.mem_map.mp heffect
  rfl

/-- Nothing is registered before a write that comes at once. -/
theorem registeredFirst_records (draws : Draws) (path : JsString) (items : List (Pair × Nat))
    {effects : List Effect} (h : registeredFirst effects = []) :
    registeredFirst ((items.map fun item => .append path (recordOf draws item.2 item.1)) ++
      effects) = [] := by
  cases items with
  | nil => exact h
  | cons item items => rfl

/-! ## What a run masks and writes -/

def secretFormat : ExportFormat → Secrets.SecretExportFormat
  | .dotenv => .dotenv
  | .json => .json
  | .shell => .shell

/-- The options of an export request that names only a format. -/
def exportDefaults : Secrets.ExportOptions := ⟨false, some (ofAscii "__")⟩

/-- What a run fetched. A document is rendered by the export endpoint from the secrets. -/
inductive Fetched (localeCompare : Secrets.LocaleCompare) (api : Api) (env : Environment)
    (inputs : Inputs) (secrets : Secrets.SecretRecord) : Type where
  | runtime (configVersion : Nat) (mode : inputs.exportTo ≠ .file)
      (answer : json (api.runtimeConfig inputs.projectId inputs.environmentId) =
        .ok ⟨configVersion, secrets⟩)
  | document (target : FileTarget) (text : JsString) (mode : inputs.exportTo = .file)
      (reads : readFileTarget env = .ok target)
      (renders : Secrets.serializeSecretExport localeCompare secrets (secretFormat target.format)
        exportDefaults = .ok text)
      (answer : json (api.exports inputs.projectId inputs.environmentId target.format) =
        .ok ⟨text, secrets.entries.length⟩)

section

variable {localeCompare : Secrets.LocaleCompare} {api : Api} {env : Environment} {inputs : Inputs}
  {secrets : Secrets.SecretRecord}

/-- The values that a run masks beside its token. -/
def Fetched.masked : Fetched localeCompare api env inputs secrets → List JsString
  | .runtime .. => (selectSecrets inputs.filters secrets).map (·.2)
  | .document _ text .. => maskedLines text

/-- The names and values for the command files. -/
def Fetched.pairs : Fetched localeCompare api env inputs secrets → List Pair
  | .runtime configVersion .. =>
    intendedVariables inputs (assigned inputs secrets) ++
      intendedOutputs inputs configVersion (assigned inputs secrets)
  | .document target .. =>
    [(ofAscii "secret-count", ofNat secrets.entries.length), (ofAscii "file", target.path)]

def Fetched.documents : Fetched localeCompare api env inputs secrets → List JsString
  | .runtime .. => []
  | .document _ text .. => [text]

/-- The texts for the files: a document, and the records of the pairs up to one that is refused. -/
def Fetched.written (fetched : Fetched localeCompare api env inputs secrets) (draws : Draws) :
    List JsString :=
  fetched.documents ++ texts draws (Script.accepted (refusal draws) 0 fetched.pairs)

def nonBlank (values : List JsString) : List JsString := values.filter fun value => !isBlank value

variable (host : Host)

/-- **What a run writes, and what is masked before**: the writes come after all masks. -/
theorem finish_trace (files : CommandFiles env) (hmask : inputs.shouldMask = true)
    (fetched : Fetched localeCompare api env inputs secrets) :
    contents (finish host env api inputs 0).effects = fetched.written host.draws ∧
      registeredFirst (finish host env api inputs 0).effects = nonBlank fetched.masked := by
  cases fetched with
  | runtime configVersion mode answer =>
    have hpairs := exportedPairs_eq inputs configVersion (assigned_nodup inputs secrets)
    rw [← selectSecrets_eq_assigned] at hpairs
    obtain ⟨quiet, lines, hlogs, hlines, heq⟩ := exportSelected_eq host files inputs
      configVersion (selectSecrets inputs.filters secrets)
    have hmasks := logs_maskAll inputs.shouldMask
      ((selectSecrets inputs.filters secrets).map (·.2)) 0
    rw [if_pos hmask] at hmasks
    rw [finish_runtime host mode answer, exportSecrets, heq, Script.bind_of_ok hmasks]
    obtain ⟨middle, rest, hmiddle, haccepted, heffects⟩ := Script.loops_effects_eq
      (refusal host.draws)
      (fun i pair => Effect.append (files.destination inputs.exportTo) (recordOf host.draws i pair))
      (fun i pair => Effect.append files.outputFile (recordOf host.draws i pair))
      (exportedPairs inputs.exportTo
        (namedPairs inputs.keyPrefix (selectSecrets inputs.filters secrets)))
      (summary configVersion (sortedKeys (selectSecrets inputs.filters secrets))) hlogs 0
    have hlast := registeredFirst_records host.draws files.outputFile rest
      (show registeredFirst [] = [] from rfl)
    rw [List.append_nil] at hlast
    have hquiet : ∃ others : List JsString, middle = others.map .log ∧
        ∀ line ∈ others, ¬MASK <+: line := by
      rcases hmiddle with rfl | rfl
      · exact ⟨[], rfl, by simp⟩
      · exact ⟨lines, rfl, hlines⟩
    obtain ⟨others, rfl, hothers⟩ := hquiet
    simp only [heffects]
    constructor
    · simp only [contents_append, contents_log, contents_records, List.nil_append]
      rw [Fetched.written, Fetched.pairs, ← selectSecrets_eq_assigned, ← hpairs, haccepted, texts,
        texts, texts, List.map_append]
      rfl
    · have hwrites := registeredFirst_records host.draws (files.destination inputs.exportTo)
        (Script.accepted (refusal host.draws) 0 (exportedPairs inputs.exportTo
          (namedPairs inputs.keyPrefix (selectSecrets inputs.filters secrets))))
        (show registeredFirst (others.map .log ++ rest.map fun item =>
          .append files.outputFile (recordOf host.draws item.2 item.1)) = [] by
            rw [registeredFirst_log, registered_other hothers, hlast, List.nil_append])
      rw [registeredFirst_log, registered_maskLines, hwrites, List.append_nil]
      rfl
  | document target text mode reads renders answer =>
    have hmasks := logs_maskAll inputs.shouldMask (maskedLines text) 0
    rw [if_pos hmask] at hmasks
    have hfinish : finish host env api inputs =
        writeDocument host env inputs target ⟨text, secrets.entries.length⟩ := by
      unfold finish writeExportFile
      rw [mode, reads, Script.ofExcept_ok, Script.pure_bind, answer, Script.ofExcept_ok,
        Script.pure_bind]
    have hwrites := Script.forEach_guarded_effects (refusal host.draws)
      (fun i pair => Effect.append files.outputFile (recordOf host.draws i pair))
      (fileSummary target secrets.entries.length) 0
    rw [hfinish, writeDocument, Script.bind_of_ok hmasks, Script.bind_of_ok (Script.emit_apply _ _),
      Script.bind_of_ok (logs_info _ _), Script.bind_of_ok (logs_warning _ _), writeAll,
      writeKeyValue_of_set files.output_set files.output_ne]
    simp only [hwrites]
    constructor
    · simp only [contents_append, contents_log, contents_records, List.nil_append]
      rfl
    · rw [registeredFirst_log, registered_maskLines]
      exact List.append_nil _

/-- A mask that is not blank is registered, in any place of the log. -/
theorem mem_nonBlank {value : JsString} {values : List JsString} (h : isBlank value = false) :
    value ∈ nonBlank values ↔ value ∈ values := by
  simp [nonBlank, h]

/-! ## What is written and what is masked, on the inputs -/

/-- A pair that is written: its delimiter is in neither part, and its name is one line. -/
def Clean (draws : Draws) (i : Nat) (pair : Pair) : Prop :=
  ¬delimiterOf (draws i) <:+: pair.1 ∧ ¬delimiterOf (draws i) <:+: pair.2 ∧
    0x0A ∉ pair.1 ∧ 0x0D ∉ pair.1

/-- A text is in the document, or in the record of a pair that is clean like all pairs before it. -/
def Fetched.Exposes (fetched : Fetched localeCompare api env inputs secrets) (draws : Draws)
    (value : JsString) : Prop :=
  (∃ text ∈ fetched.documents, value <:+: text) ∨
    ∃ before item after, fetched.pairs.zipIdx = before ++ item :: after ∧
      (∀ other ∈ before ++ [item], Clean draws other.2 other.1) ∧
      value <:+: CommandFile.recordText item.1.1 (delimiterOf (draws item.2)) item.1.2

/-- A line of the text is the value, but for white space around it. -/
def HasLine (text value : JsString) : Prop :=
  ∃ lines : List JsString, text = [0x0A].intercalate lines ∧ lines ≠ [] ∧
    (∀ line ∈ lines, 0x0A ∉ line) ∧ ∃ line ∈ lines, trim line = value

/-- The value is that of a secret that an object takes and the filters let through, or is alone on a
line of the document. -/
def Fetched.Covers : Fetched localeCompare api env inputs secrets → JsString → Prop
  | .runtime .., value => ∃ secret ∈ secrets.entries, secret.2 = value ∧
    inputs.filters.Allows secret.1 ∧ secret.1 ≠ PROTO
  | .document _ text .., value => HasLine text value

theorem not_mem_of_mem_splitOn {c : UInt16} {text line : JsString} (h : line ∈ text.splitOn c) :
    c ∉ line := by
  induction text generalizing line with
  | nil =>
    rw [List.splitOn_nil, List.mem_singleton] at h
    rw [h]
    exact List.not_mem_nil
  | cons d text ih =>
    rw [List.splitOn_cons_eq_if_modifyHead] at h
    split at h
    · rcases List.mem_cons.mp h with rfl | h
      · exact List.not_mem_nil
      · exact ih h
    · rename_i hne
      cases hsplit : text.splitOn c with
      | nil => exact absurd hsplit (List.splitOn_ne_nil _ _)
      | cons first rest =>
        rw [hsplit, List.modifyHead_cons] at h
        rw [hsplit] at ih
        rcases List.mem_cons.mp h with rfl | h
        · rw [List.mem_cons, not_or]
          exact ⟨fun heq => hne (beq_iff_eq.mpr heq.symm), ih List.mem_cons_self⟩
        · exact ih (List.mem_cons_of_mem _ h)

theorem mem_maskedLines_iff {text value : JsString} :
    value ∈ maskedLines text ↔ HasLine text value := by
  rw [maskedLines, List.mem_map]
  constructor
  · intro h
    exact ⟨text.splitOn 0x0A, (List.intercalate_splitOn _).symm, List.splitOn_ne_nil _ _,
      fun line => not_mem_of_mem_splitOn, h⟩
  · rintro ⟨lines, rfl, hne, hlines, h⟩
    rwa [List.splitOn_intercalate _ hlines hne]

theorem Fetched.mem_masked_iff (fetched : Fetched localeCompare api env inputs secrets)
    {value : JsString} : value ∈ fetched.masked ↔ fetched.Covers value := by
  cases fetched with
  | runtime =>
    simp only [masked, Covers, selectSecrets_eq_assigned, assigned, kept, List.filter_filter,
      List.mem_map, List.mem_filter, Bool.and_eq_true, decide_eq_true_eq]
    constructor
    · rintro ⟨secret, ⟨hsecret, hproto, hallowed⟩, hvalue⟩
      exact ⟨secret, hsecret, hvalue, hallowed, hproto⟩
    · rintro ⟨secret, hsecret, hvalue, hallowed, hproto⟩
      exact ⟨secret, ⟨hsecret, hproto, hallowed⟩, hvalue⟩
  | document => exact mem_maskedLines_iff

theorem Fetched.written_iff (fetched : Fetched localeCompare api env inputs secrets)
    {draws : Draws} {value : JsString} :
    (∃ text ∈ fetched.written draws, value <:+: text) ↔ fetched.Exposes draws value := by
  simp only [written, List.mem_append, or_and_right, exists_or]
  unfold Exposes
  refine or_congr_right ⟨?_, ?_⟩
  · rintro ⟨text, htext, hvalue⟩
    obtain ⟨item, hitem, rfl⟩ := List.mem_map.mp htext
    obtain ⟨before, after, heq, hall⟩ := Script.mem_accepted_iff.mp hitem
    exact ⟨before, item, after, heq,
      fun other hother => refusal_eq_none_iff.mp (hall other hother), hvalue⟩
  · rintro ⟨before, item, after, heq, hall, hvalue⟩
    refine ⟨_, List.mem_map_of_mem (Script.mem_accepted_iff.mpr ⟨before, after, heq, ?_⟩), hvalue⟩
    exact fun other hother => refusal_eq_none_iff.mpr (hall other hother)

/-- **The values in what a run writes are masked before**, but for blank ones, on exactly these
inputs. -/
theorem masksFirst_iff (files : CommandFiles env) (hinputs : readInputs host env = .ok inputs)
    (hmask : inputs.shouldMask = true)
    (hconnect : connect api inputs.apiUrl inputs.token = .ok ())
    (fetched : Fetched localeCompare api env inputs secrets) :
    MasksFirst (secrets.entries.map (·.2)) (run host env api 0).effects ↔
      ∀ value ∈ secrets.entries.map (·.2), isBlank value = false →
        fetched.Exposes host.draws value → value = inputs.token ∨ fetched.Covers value := by
  obtain ⟨hcontents, hregistered⟩ := finish_trace host files hmask fetched
  have htoken := logs_maskAll inputs.shouldMask [inputs.token] 0
  rw [if_pos hmask] at htoken
  have heffects : (run host env api 0).effects =
      ((nonBlank [inputs.token]).map maskLine).map .log ++
        (finish host env api inputs 0).effects := by
    rw [run_eq host hinputs hconnect, Script.bind_of_ok htoken]
    rfl
  unfold MasksFirst
  rw [heffects, contents_append, contents_log, List.nil_append, hcontents, registeredFirst_log,
    registered_maskLines, hregistered]
  refine forall₃_congr fun value _ hblank => ?_
  rw [fetched.written_iff, List.mem_append, mem_nonBlank hblank, mem_nonBlank hblank,
    List.mem_singleton, fetched.mem_masked_iff]

end

/-! ## Examples -/

/-- A value of two lines. -/
def twoLines : Secrets.SecretRecord := ⟨[(ofAscii "API_KEY", ofAscii "100%\nsecret")], by decide⟩

def fetchedTwoLines :
    Fetched (fun _ _ => 0) (exampleApi ⟨3, twoLines⟩ ⟨[], 0⟩) (exampleEnv []) (exampleInputs .env)
      twoLines :=
  .runtime 3 (by decide) rfl

theorem masksFirst_twoLines :
    MasksFirst [ofAscii "100%\nsecret"]
      (run exampleHost (exampleEnv []) (exampleApi ⟨3, twoLines⟩ ⟨[], 0⟩) 0).effects :=
  (masksFirst_iff exampleHost (exampleFiles []) (by decide +kernel) rfl (by decide +kernel)
    fetchedTwoLines).mpr fun value hvalue _ _ => by
      rw [List.mem_singleton.mp hvalue]
      exact .inr ⟨_, List.mem_singleton_self _, rfl, by decide +kernel, by decide⟩

def oneSecret : Secrets.SecretRecord := ⟨[(ofAscii "A", ofAscii "secret")], by decide⟩

/-- The step that writes a document. -/
def fileEnv : Environment := exampleEnv [("INPUT_EXPORT-TO", "file"), ("INPUT_FILE", ".env")]

/-- In a dotenv document a value is only a part of its line, and the line is what is masked. -/
theorem document_not_masksFirst :
    readInputs exampleHost fileEnv = .ok (exampleInputs .file) ∧
      Secrets.serializeSecretExport (fun _ _ => 0) oneSecret .dotenv exportDefaults =
        .ok (ofAscii "A=\"secret\"\n") ∧
      ¬MasksFirst [ofAscii "secret"]
        (run exampleHost fileEnv
          (exampleApi ⟨3, oneSecret⟩ ⟨ofAscii "A=\"secret\"\n", 1⟩) 0).effects := by
  refine ⟨by decide +kernel, by decide +kernel, fun h => ?_⟩
  exact absurd (h (ofAscii "secret") (by simp) (by decide) (by decide +kernel))
    (by decide +kernel)

end Himitsu.Action
