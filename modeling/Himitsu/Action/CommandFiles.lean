import Himitsu.Action.Intended
import Himitsu.Secrets.ShellExport

/-!
# What the runner reads from the command files

* `appended` — the text that the effects of a run append to a file.
* `RoundTrips` — the run completes, and the runner reads from each file exactly the names and values
  intended for it, each name once.
* `Unambiguous` — the condition on the inputs: no kept key is `__proto__`; as outputs, no prefixed
  key has a `<<` or a `<` at its end or is an output of the action itself; and no delimiter that is
  drawn occurs in the name and value it is for.

Principal result: `roundTrips_iff`.
-/

set_option autoImplicit false

namespace Himitsu.Action

open JsString CommandFile

/-! ## Texts of files -/

def appendedBy (path : JsString) : Effect → JsString
  | .append file content => if file = path then content else []
  | _ => []

def appended (path : JsString) (effects : List Effect) : JsString :=
  effects.flatMap (appendedBy path)

theorem appended_append (path : JsString) (effects others : List Effect) :
    appended path (effects ++ others) = appended path effects ++ appended path others :=
  List.flatMap_append

theorem appended_log (path : JsString) (lines : List JsString) :
    appended path (lines.map .log) = [] := by
  induction lines with
  | nil => rfl
  | cons line lines ih => exact ih

/-- Pairs with the numbers of the random values drawn for them. -/
abbrev Numbered := List (Pair × Nat)

def entriesOf (draws : Draws) (items : Numbered) : List Entry :=
  items.map fun item => (item.1.1, delimiterOf (draws item.2), item.1.2)

theorem appended_records (draws : Draws) (path file : JsString) (items : Numbered) :
    appended path (items.map fun item => .append file (recordOf draws item.2 item.1)) =
      if file = path then recordsText (entriesOf draws items) else [] := by
  induction items with
  | nil => split <;> rfl
  | cons item items ih =>
    show appendedBy path (.append file _) ++ appended path _ = _
    rw [ih, appendedBy]
    split <;> rfl

/-- **Pairs that are not refused and have plain names are read back.** -/
theorem parse_entriesOf {draws : Draws} {pairs : List Pair} {n : Nat}
    (hrefusal : ∀ item ∈ pairs.zipIdx n, refusal draws item.2 item.1 = none)
    (hname : ∀ pair ∈ pairs, pair.1 ≠ [] ∧ IsPlain pair.1) :
    parse (recordsText (entriesOf draws (pairs.zipIdx n))) = some pairs := by
  rw [parse_records]
  · have hpairs : (entriesOf draws (pairs.zipIdx n)).map (fun entry => (entry.1, entry.2.2)) =
        (pairs.zipIdx n).map (·.1) := by
      rw [entriesOf, List.map_map]
      rfl
    rw [hpairs, List.zipIdx_map_fst]
  · intro entry hentry
    obtain ⟨item, hitem, rfl⟩ := List.mem_map.mp hentry
    obtain ⟨-, hvalue, hline, -⟩ := refusal_eq_none_iff.mp (hrefusal item hitem)
    obtain ⟨hne, hplain⟩ := hname item.1 (List.fst_mem_of_mem_zipIdx hitem)
    exact ⟨hne, hline, hplain, delimiterOf_ne_nil _, delimiterOf_line _, hvalue⟩

/-! ## Reading back -/

/-- The runner reads from the two files what they are for. -/
structure RoundTrips (host : Host) {env : Environment} (files : CommandFiles env) (api : Api)
    (inputs : Inputs) (config : RuntimeConfig) : Prop where
  completes : (run host env api 0).result = .ok ()
  env_file : parse (appended files.envFile (run host env api 0).effects) =
    some (intendedVariables inputs (kept inputs config.secrets))
  output_file : parse (appended files.outputFile (run host env api 0).effects) =
    some (intendedOutputs inputs config.configVersion (kept inputs config.secrets))
  env_once : ((intendedVariables inputs (kept inputs config.secrets)).map (·.1)).Nodup
  output_once :
    ((intendedOutputs inputs config.configVersion (kept inputs config.secrets)).map (·.1)).Nodup

/-- The names of `ownOutputs`. -/
def ownNames : List JsString := [secretCount, ofAscii "config-version", ofAscii "keys"]

structure Unambiguous (host : Host) (inputs : Inputs) (config : RuntimeConfig) : Prop where
  no_proto : ∀ entry ∈ kept inputs config.secrets, entry.1 ≠ PROTO
  plain : inputs.exportTo = .outputs →
    ∀ entry ∈ kept inputs config.secrets, IsPlain (inputs.keyPrefix.val ++ entry.1)
  other : inputs.exportTo = .outputs →
    ∀ entry ∈ kept inputs config.secrets, inputs.keyPrefix.val ++ entry.1 ∉ ownNames
  clear : ∀ item ∈ (intendedVariables inputs (kept inputs config.secrets) ++
      intendedOutputs inputs config.configVersion (kept inputs config.secrets)).zipIdx 0,
    ¬delimiterOf (host.draws item.2) <:+: item.1.1 ∧
      ¬delimiterOf (host.draws item.2) <:+: item.1.2

/-! ## Names -/

theorem noBreak_of_isIdentifierPart {c : UInt16} (h : Secrets.isIdentifierPart c = true) :
    noBreak c = true ∧ c ≠ 0x3C := by
  have hne : ∀ d, Secrets.isIdentifierPart d = false → c ≠ d := by
    rintro d hd rfl
    rw [h] at hd
    cases hd
  rw [noBreak, Bool.and_eq_true, bne_iff_ne, bne_iff_ne]
  exact ⟨⟨hne _ (by decide), hne _ (by decide)⟩, hne _ (by decide)⟩

/-- A name without the character of a separator is plain. -/
theorem isPlain_of_not_mem {name : JsString} (h : 0x3C ∉ name) : IsPlain name := by
  intro hinfix
  have hcount := hinfix.sublist.count_le 0x3C
  rw [List.count_append, List.count_eq_zero_of_not_mem h] at hcount
  revert hcount
  decide

/-- What a pair's name must be for the pair to be read back, but for a plain name. -/
def IsLine (name : JsString) : Prop := name ≠ [] ∧ ∀ c ∈ name, noBreak c = true

theorem IsLine.not_mem {name : JsString} (h : IsLine name) : 0x0A ∉ name ∧ 0x0D ∉ name :=
  ⟨fun hc => absurd (h.2 _ hc) (by decide), fun hc => absurd (h.2 _ hc) (by decide)⟩

theorem isEnvName_line {name : JsString} (h : isEnvName name = true) :
    IsLine name ∧ IsPlain name := by
  have hunits := Secrets.isIdentifier_units h
  refine ⟨⟨?_, fun c hc => (noBreak_of_isIdentifierPart (hunits c hc)).1⟩,
    isPlain_of_not_mem fun hc => (noBreak_of_isIdentifierPart (hunits _ hc)).2 rfl⟩
  rintro rfl
  cases h

/-- The keys that the API stores. -/
def IsStoredKey (key : JsString) : Prop := Secrets.validateSecretKey key true = .ok key

theorem IsStoredKey.line {key : JsString} (h : IsStoredKey key) : IsLine key := by
  unfold IsStoredKey Secrets.validateSecretKey at h
  simp only [Bool.not_true, Bool.false_and, Bool.false_eq_true, if_false] at h
  split at h
  · cases h
  · rename_i hvalid
    rw [Except.ok.inj h] at hvalid
    simp only [not_or, Bool.not_eq_true, List.any_eq_false] at hvalid
    obtain ⟨hlength, -, hunits⟩ := hvalid
    refine ⟨by rintro rfl; exact hlength (by decide), fun c hc => noBreak_of_le ?_⟩
    have hforbidden := hunits c hc
    unfold Secrets.forbiddenInKey at hforbidden
    grind

theorem prefixed_line (keyPrefix : KeyPrefix) {key : JsString} (h : IsLine key) :
    IsLine (keyPrefix.val ++ key) := by
  refine ⟨by simp [h.1], List.forall_mem_append.mpr ⟨?_, h.2⟩⟩
  rcases keyPrefix.property with hempty | hname
  · simp [hempty]
  · exact (isEnvName_line hname).1.2

theorem ownOutputs_names (configVersion : Nat) (secrets : List Pair) :
    (ownOutputs configVersion secrets).map (·.1) = ownNames := rfl

theorem ownNames_line : ∀ name ∈ ownNames, IsLine name ∧ IsPlain name := by
  have hunits : ∀ name ∈ ownNames,
      name ≠ [] ∧ name.all noBreak = true ∧ name.contains 0x3C = false := by decide
  intro name hname
  obtain ⟨hne, hbreak, hplain⟩ := hunits name hname
  exact ⟨⟨hne, List.all_eq_true.mp hbreak⟩, isPlain_of_not_mem (by simpa using hplain)⟩

theorem ownNames_nodup : ownNames.Nodup := by decide

theorem mem_named {keyPrefix : KeyPrefix} {secrets : List Pair} {pair : Pair} :
    pair ∈ named keyPrefix secrets ↔
      ∃ secret ∈ secrets, (keyPrefix.val ++ secret.1, secret.2) = pair := by
  simp only [named, List.mem_map, (byKey_perm secrets).mem_iff]

/-- Distinct keys give distinct names. -/
theorem named_nodup (keyPrefix : KeyPrefix) {secrets : List Pair}
    (h : (secrets.map (·.1)).Nodup) : ((named keyPrefix secrets).map (·.1)).Nodup := by
  have hnames : (named keyPrefix secrets).map (·.1) =
      ((byKey secrets).map (·.1)).map (keyPrefix.val ++ ·) := by
    rw [named, List.map_map, List.map_map]
    rfl
  rw [hnames]
  refine List.Nodup.map (List.append_right_injective _) ?_
  rw [((byKey_perm secrets).map _).nodup_iff]
  exact h

/-- The names that a run writes are lines. -/
theorem names_line (inputs : Inputs) (configVersion : Nat) {secrets : List Pair}
    (h : ∀ secret ∈ secrets, IsLine secret.1) :
    ∀ pair ∈ intendedVariables inputs secrets ++ intendedOutputs inputs configVersion secrets,
      IsLine pair.1 := by
  have hnamed : ∀ pair ∈ named inputs.keyPrefix secrets, IsLine pair.1 := by
    intro pair hpair
    obtain ⟨secret, hsecret, rfl⟩ := mem_named.mp hpair
    exact prefixed_line inputs.keyPrefix (h secret hsecret)
  have hown : ∀ pair ∈ ownOutputs configVersion secrets, IsLine pair.1 :=
    fun pair hpair => (ownNames_line pair.1 (List.mem_map_of_mem hpair)).1
  unfold intendedVariables intendedOutputs
  intro pair hpair
  simp only [List.mem_append] at hpair
  rcases hpair with hpair | hpair | hpair
  · split at hpair
    · exact hnamed pair (List.mem_of_mem_filter hpair)
    · cases hpair
  · split at hpair
    · exact hnamed pair hpair
    · cases hpair
  · exact hown pair hpair

theorem intendedVariables_plain {inputs : Inputs} {secrets : List Pair} :
    ∀ pair ∈ intendedVariables inputs secrets, IsPlain pair.1 := by
  intro pair hpair
  unfold intendedVariables at hpair
  split at hpair
  · exact (isEnvName_line (List.mem_filter.mp hpair).2).2
  · cases hpair

/-! ## What a run appends -/

section

variable (host : Host) {env : Environment} {api : Api} {inputs : Inputs} {config : RuntimeConfig}

/-- The pairs that a run writes are not refused. -/
def Unrefused (inputs : Inputs) (configVersion : Nat) (secrets : List Pair) : Prop :=
  ∀ item ∈ (intendedVariables inputs secrets ++
      intendedOutputs inputs configVersion secrets).zipIdx 0,
    refusal host.draws item.2 item.1 = none

/-- **A run completes when no pair is refused.** -/
theorem run_result (files : CommandFiles env) (hinputs : readInputs host env = .ok inputs)
    (hconnect : connect api inputs.apiUrl inputs.token = .ok ())
    (hfile : inputs.exportTo ≠ .file)
    (hconfig : json (api.runtimeConfig inputs.projectId inputs.environmentId) = .ok config) :
    (run host env api 0).result = .ok () ↔
      Unrefused host inputs config.configVersion
        (selectSecrets inputs.filters config.secrets) := by
  obtain ⟨quiet, lines, hlogs, -, heq⟩ := exportSelected_eq host files inputs
    config.configVersion (selectSecrets inputs.filters config.secrets)
  rw [run_eq host hinputs hconnect, Script.bind_of_ok (logs_maskAll _ _ 0),
    finish_runtime host hfile hconfig, exportSecrets, heq,
    Script.bind_of_ok (logs_maskAll _ _ 0)]
  simp only
  rw [Script.loops_result _ _ _ _ _ hlogs,
    selectSecrets_eq_assigned, exportedPairs_eq inputs _ (assigned_nodup inputs config.secrets)]
  rfl

/-- **What a completed run has appended** to either file. -/
theorem run_appended (files : CommandFiles env) (hinputs : readInputs host env = .ok inputs)
    (hconnect : connect api inputs.apiUrl inputs.token = .ok ())
    (hfile : inputs.exportTo ≠ .file)
    (hconfig : json (api.runtimeConfig inputs.projectId inputs.environmentId) = .ok config)
    {selected : List Pair} (hselected : selectSecrets inputs.filters config.secrets = selected)
    (hunrefused : Unrefused host inputs config.configVersion selected) :
    appended files.envFile (run host env api 0).effects =
        recordsText (entriesOf host.draws ((intendedVariables inputs selected).zipIdx 0)) ∧
      appended files.outputFile (run host env api 0).effects =
        recordsText (entriesOf host.draws ((intendedOutputs inputs config.configVersion
          selected).zipIdx (intendedVariables inputs selected).length)) := by
  have hnodup := assigned_nodup inputs config.secrets
  rw [← selectSecrets_eq_assigned, hselected] at hnodup
  obtain ⟨quiet, lines, hlogs, -, heq⟩ := exportSelected_eq host files inputs
    config.configVersion selected
  rw [Unrefused, ← exportedPairs_eq inputs _ hnodup] at hunrefused
  rw [run_eq host hinputs hconnect, Script.bind_of_ok (logs_maskAll _ _ 0),
    finish_runtime host hfile hconfig, exportSecrets, hselected, heq,
    Script.bind_of_ok (logs_maskAll _ _ 0)]
  simp only
  rw [Script.loops_effects _ _ _ _ _ hlogs hunrefused, namedPairs_eq inputs.keyPrefix hnodup,
    summary_eq]
  simp only [appended_append, appended_log, appended_records, List.nil_append]
  unfold intendedVariables intendedOutputs exportedPairs CommandFiles.destination
  cases hmode : inputs.exportTo with
  | env => simp [files.distinct, files.distinct.symm, exportable]
  | outputs =>
    simp [files.distinct.symm, List.zipIdx_append, entriesOf, recordsText]
  | none => simp [files.distinct.symm, entriesOf, recordsText]
  | file => exact absurd hmode hfile

/-! ## The condition -/

theorem selectSecrets_eq_kept_iff {secrets : Secrets.SecretRecord} :
    (selectSecrets inputs.filters secrets).length = (kept inputs secrets).length ↔
      ∀ entry ∈ kept inputs secrets, entry.1 ≠ PROTO := by
  rw [selectSecrets_eq_assigned, assigned, List.length_filter_eq_length_iff]
  simp

theorem selectSecrets_eq_kept {secrets : Secrets.SecretRecord}
    (h : ∀ entry ∈ kept inputs secrets, entry.1 ≠ PROTO) :
    selectSecrets inputs.filters secrets = kept inputs secrets := by
  rw [selectSecrets_eq_assigned, assigned, List.filter_eq_self]
  simpa using h

/-- Two lists of outputs that are equal count the same secrets. -/
theorem length_of_intendedOutputs_eq {configVersion : Nat} {secrets others : List Pair}
    (h : intendedOutputs inputs configVersion secrets =
      intendedOutputs inputs configVersion others) : secrets.length = others.length := by
  have hown := (List.append_inj' h rfl).2
  exact ofNat_injective (congrArg Prod.snd (List.cons.inj hown).1)

theorem intendedVariables_nodup {secrets : List Pair} (h : (secrets.map (·.1)).Nodup) :
    ((intendedVariables inputs secrets).map (·.1)).Nodup := by
  unfold intendedVariables
  split
  · exact (named_nodup inputs.keyPrefix h).sublist (List.filter_sublist.map _)
  · exact List.nodup_nil

theorem intendedOutputs_nodup_iff (configVersion : Nat) {secrets : List Pair}
    (h : (secrets.map (·.1)).Nodup) :
    ((intendedOutputs inputs configVersion secrets).map (·.1)).Nodup ↔
      (inputs.exportTo = .outputs →
        ∀ secret ∈ secrets, inputs.keyPrefix.val ++ secret.1 ∉ ownNames) := by
  rw [intendedOutputs, List.map_append, ownOutputs_names]
  split
  · rename_i hmode
    simp only [List.nodup_append', named_nodup inputs.keyPrefix h, ownNames_nodup, true_and,
      hmode, true_implies, List.disjoint_left, List.forall_mem_map]
    constructor
    · exact fun hnames secret hsecret => hnames _ (mem_named.mpr ⟨secret, hsecret, rfl⟩)
    · intro hnames pair hpair
      obtain ⟨secret, hsecret, rfl⟩ := mem_named.mp hpair
      exact hnames secret hsecret
  · rename_i hmode
    simp [ownNames_nodup, hmode]

/-- Every name that the runner reads as an output is plain. -/
theorem intendedOutputs_plain_iff (configVersion : Nat) (secrets : List Pair) :
    (∀ pair ∈ intendedOutputs inputs configVersion secrets, IsPlain pair.1) ↔
      (inputs.exportTo = .outputs →
        ∀ secret ∈ secrets, IsPlain (inputs.keyPrefix.val ++ secret.1)) := by
  have hown : ∀ pair ∈ ownOutputs configVersion secrets, IsPlain pair.1 :=
    fun pair hpair => (ownNames_line pair.1 (List.mem_map_of_mem hpair)).2
  rw [intendedOutputs, List.forall_mem_append, and_iff_left hown]
  split
  · rename_i hmode
    simp only [hmode, true_implies]
    constructor
    · exact fun hplain secret hsecret => hplain _ (mem_named.mpr ⟨secret, hsecret, rfl⟩)
    · intro hplain pair hpair
      obtain ⟨secret, hsecret, rfl⟩ := mem_named.mp hpair
      exact hplain secret hsecret
  · rename_i hmode
    simp [hmode]

/-- **The runner reads the kept secrets and the action's own outputs**, whatever the values are and
whatever delimiters are drawn, on exactly these inputs. -/
theorem roundTrips_iff (files : CommandFiles env) (hinputs : readInputs host env = .ok inputs)
    (hconnect : connect api inputs.apiUrl inputs.token = .ok ())
    (hfile : inputs.exportTo ≠ .file)
    (hconfig : json (api.runtimeConfig inputs.projectId inputs.environmentId) = .ok config)
    (hkeys : ∀ entry ∈ config.secrets.entries, IsStoredKey entry.1) :
    RoundTrips host files api inputs config ↔ Unambiguous host inputs config := by
  have hline : ∀ entry ∈ kept inputs config.secrets, IsLine entry.1 :=
    fun entry hentry => (hkeys entry (kept_sublist.subset hentry)).line
  have hnodup := kept_nodup inputs config.secrets
  have hresult := run_result host files hinputs hconnect hfile hconfig
  constructor
  · intro h
    have hunrefused := hresult.mp h.completes
    have hsub : ∀ entry ∈ selectSecrets inputs.filters config.secrets,
        entry ∈ kept inputs config.secrets := by
      rw [selectSecrets_eq_assigned]
      exact fun entry hentry => List.mem_of_mem_filter hentry
    have hplain := (intendedOutputs_plain_iff _ _).mp (parse_plain h.output_file)
    -- What the run wrote is read back, so it is what the runner was to read.
    have houtput := h.output_file
    rw [(run_appended host files hinputs hconnect hfile hconfig rfl hunrefused).2,
      parse_entriesOf] at houtput
    · have hproto := selectSecrets_eq_kept_iff.mp
        (length_of_intendedOutputs_eq (Option.some.inj houtput))
      rw [selectSecrets_eq_kept hproto] at hunrefused
      refine ⟨hproto, hplain, (intendedOutputs_nodup_iff _ hnodup).mp h.output_once, ?_⟩
      intro item hitem
      obtain ⟨hname, hvalue, -⟩ := refusal_eq_none_iff.mp (hunrefused item hitem)
      exact ⟨hname, hvalue⟩
    · intro item hitem
      refine hunrefused item ?_
      rw [List.zipIdx_append, Nat.zero_add]
      exact List.mem_append_right _ hitem
    · intro pair hpair
      refine ⟨(names_line inputs config.configVersion
        (fun entry hentry => hline entry (hsub entry hentry)) pair
        (List.mem_append_right _ hpair)).1, ?_⟩
      exact (intendedOutputs_plain_iff _ _).mpr
        (fun hmode entry hentry => hplain hmode entry (hsub entry hentry)) pair hpair
  · intro h
    have hall := selectSecrets_eq_kept h.no_proto
    have hnames := names_line inputs config.configVersion hline
    have hunrefused : Unrefused host inputs config.configVersion (kept inputs config.secrets) := by
      intro item hitem
      have hclear := h.clear item hitem
      have hbreak := (hnames item.1 (List.fst_mem_of_mem_zipIdx hitem)).not_mem
      exact refusal_eq_none_iff.mpr ⟨hclear.1, hclear.2, hbreak.1, hbreak.2⟩
    have happended := run_appended host files hinputs hconnect hfile hconfig hall hunrefused
    rw [hall] at hresult
    rw [Unrefused, List.zipIdx_append, List.forall_mem_append, Nat.zero_add] at hunrefused
    refine ⟨hresult.mpr ?_, ?_, ?_, intendedVariables_nodup hnodup,
      (intendedOutputs_nodup_iff _ hnodup).mpr h.other⟩
    · rw [Unrefused, List.zipIdx_append, List.forall_mem_append, Nat.zero_add]
      exact hunrefused
    · rw [happended.1]
      exact parse_entriesOf hunrefused.1 fun pair hpair =>
        ⟨(hnames pair (List.mem_append_left _ hpair)).1, intendedVariables_plain pair hpair⟩
    · rw [happended.2]
      exact parse_entriesOf hunrefused.2 fun pair hpair =>
        ⟨(hnames pair (List.mem_append_right _ hpair)).1,
          (intendedOutputs_plain_iff _ _).mpr h.plain pair hpair⟩

end

/-! ## Examples -/

/-- A value that looks like the end of its own record. -/
def mimickingConfig : RuntimeConfig :=
  ⟨3, ⟨[(ofAscii "NORMAL", ofAscii "safe\nghadelimiter_00\nINJECTED=pwned")], by decide⟩⟩

theorem roundTrips_mimicking :
    RoundTrips exampleHost (exampleFiles []) (exampleApi mimickingConfig ⟨[], 0⟩)
      (exampleInputs .env) mimickingConfig :=
  (roundTrips_iff exampleHost (exampleFiles []) (by decide +kernel) (by decide +kernel)
    (by decide) rfl (by unfold IsStoredKey; decide +kernel)).mpr
    ⟨by decide +kernel, fun h => absurd h (by decide), fun h => absurd h (by decide),
      by decide +kernel⟩

/-- A key with a separator in it. -/
def separatorConfig : RuntimeConfig :=
  ⟨3, ⟨[(ofAscii "A<<B", ofAscii "secret")], by decide⟩⟩

/-- As an output, a key with a separator is read as the name before the separator. -/
theorem separator_not_roundTrips :
    IsStoredKey (ofAscii "A<<B") ∧
      readInputs exampleHost (exampleEnv [("INPUT_EXPORT-TO", "outputs")]) =
        .ok (exampleInputs .outputs) ∧
      ¬RoundTrips exampleHost (exampleFiles [("INPUT_EXPORT-TO", "outputs")])
        (exampleApi separatorConfig ⟨[], 0⟩) (exampleInputs .outputs) separatorConfig := by
  refine ⟨by unfold IsStoredKey; decide +kernel, by decide +kernel, fun h => ?_⟩
  exact absurd h.output_file (by decide +kernel)

end Himitsu.Action
