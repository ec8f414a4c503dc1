import Himitsu.Consistency.Report

/-!
# What the identity of a finding says

An id covers the type, the key, the spellings and the affected environments of a finding, but not
the environments where its key is missing.

* `Shape` — what a finding of a configuration looks like; `shape_of_mem`.
* `SameHolders` — two configurations in which a key has the same spellings and environments.
* `DeterminesContent` — findings with one id in two configurations say the same.

Principal results: `findingId_determines_iff` — that holds exactly where the environments are the
same or no missing key looks alike in both; `recorded_was_reported` — then a disposition speaks
only of what was reported when it was recorded.
-/

set_option autoImplicit false

namespace Himitsu.Consistency

open JsString Sorting

variable {engine : Engine} {projectId : JsString}

theorem mem_valueFindings {secret : ConsistencySecretValue} {finding : BaseFinding} :
    finding ∈ valueFindings engine projectId secret ↔
      (trim secret.value = [] ∧ finding = baseFinding engine projectId .emptyValue .error secret.key
        [secret.key] [secret.environmentId] []) ∨
      (trim secret.value ≠ [] ∧ isPlaceholder (trim secret.value) = true ∧
        finding = baseFinding engine projectId .placeholderValue .warning secret.key [secret.key]
          [secret.environmentId] []) := by
  unfold valueFindings
  split
  · rename_i hblank
    rw [List.length_eq_zero_iff] at hblank
    simp [hblank]
  · rename_i hvalue
    rw [List.length_eq_zero_iff] at hvalue
    split <;> simp_all

theorem mem_findingsOf {c : Configuration} {normalized : JsString} {finding : BaseFinding} :
    finding ∈ c.findingsOf engine normalized projectId ↔
      (c.missing engine normalized ≠ [] ∧
        finding = baseFinding engine projectId .missingKey .error normalized
          (c.spellings engine normalized) (c.present engine normalized)
          (c.missing engine normalized)) ∨
      (1 < (c.spellings engine normalized).length ∧
        finding = baseFinding engine projectId .caseDuplicate .error normalized
          (c.spellings engine normalized) (c.present engine normalized) []) ∨
      ∃ key, c.Spelled engine normalized key ∧ isConventionalKey key = false ∧
        finding = baseFinding engine projectId .namingViolation .warning key [key]
          (((c.group engine normalized).filter (·.key = key)).map (·.environmentId)) [] := by
  have hnil : (c.missing engine normalized).length ≠ 0 ↔ c.missing engine normalized ≠ [] :=
    not_congr List.length_eq_zero_iff
  unfold Configuration.findingsOf keyFindings
  rw [List.mem_append, List.mem_append, List.mem_ite_nil_right, List.mem_ite_nil_right,
    List.mem_singleton, List.mem_singleton, List.mem_map, or_assoc]
  refine or_congr (and_congr_left fun _ => hnil) (or_congr Iff.rfl (exists_congr fun key => ?_))
  rw [List.mem_filter, Bool.not_eq_true', ← and_assoc]
  exact and_congr (and_congr_left fun _ => (c.listing_spellings engine normalized).mem key) eq_comm

/-- Types of findings about a whole group. -/
def FindingType.ofGroup : FindingType → Bool
  | .missingKey | .caseDuplicate => true
  | _ => false

structure Shape (engine : Engine) (projectId : JsString) (c : Configuration)
    (finding : BaseFinding) : Prop where
  id_eq : finding.id = findingId engine projectId finding.type (engine.toUpperCase finding.key)
    finding.environmentIds finding.keys
  sorted_keys : finding.keys.Pairwise (· ≤ ·)
  sorted_ids : finding.environmentIds.Pairwise (· ≤ ·)
  group_keys : finding.type.ofGroup = true →
    (∃ key, key ∈ finding.keys) ∧ ∀ key ∈ finding.keys, engine.toUpperCase key = finding.key
  single_key : finding.type.ofGroup = false → finding.keys = [finding.key]
  not_missing : finding.type ≠ .missingKey → finding.missingEnvironmentIds = []
  missing_key : finding.type = .missingKey →
    finding = baseFinding engine projectId .missingKey .error finding.key
      (c.spellings engine finding.key) (c.present engine finding.key) (c.missing engine finding.key)

theorem shape_baseFinding {c : Configuration} {type : FindingType} {severity : FindingSeverity}
    {key : JsString} {keys environmentIds missing : List JsString}
    (hgroup : type.ofGroup = true →
      (∃ k, k ∈ keys) ∧ ∀ k ∈ keys, engine.toUpperCase k = key)
    (hsingle : type.ofGroup = false → keys = [key]) (hmissing : type ≠ .missingKey → missing = [])
    (hkey : type = .missingKey → baseFinding engine projectId type severity key keys environmentIds
      missing = baseFinding engine projectId .missingKey .error key (c.spellings engine key)
        (c.present engine key) (c.missing engine key)) :
    Shape engine projectId c
      (baseFinding engine projectId type severity key keys environmentIds missing) where
  id_eq := by simp only [baseFinding, findingId, findingIdContents, insertionSort_idem]
  sorted_keys := List.pairwise_insertionSort _ _
  sorted_ids := List.pairwise_insertionSort _ _
  group_keys h := by
    simp only [baseFinding, List.mem_insertionSort]
    exact hgroup h
  single_key h := by
    simp only [baseFinding, hsingle h]
    rfl
  not_missing h := by
    simp only [baseFinding, hmissing h]
    rfl
  missing_key := hkey

theorem shape_of_mem {c : Configuration} {finding : BaseFinding}
    (h : finding ∈ c.analyze engine projectId) : Shape engine projectId c finding := by
  have hgroup : ∀ {normalized : JsString}, (∃ key, c.Spelled engine normalized key) →
      (∃ k, k ∈ c.spellings engine normalized) ∧
        ∀ k ∈ c.spellings engine normalized, engine.toUpperCase k = normalized := by
    rintro normalized ⟨key, hspelled⟩
    have hlisting := c.listing_spellings engine normalized
    refine ⟨⟨key, (hlisting.mem key).mpr hspelled⟩, fun k hk => ?_⟩
    obtain ⟨-, -, -, hnormalized⟩ := (hlisting.mem k).mp hk
    exact hnormalized
  obtain ⟨normalized, hspelled, hfinding⟩ | ⟨secret, -, hfinding⟩ := c.mem_analyze.mp h
  · obtain ⟨-, rfl⟩ | ⟨-, rfl⟩ | ⟨key, -, -, rfl⟩ := mem_findingsOf.mp hfinding
    · exact shape_baseFinding (fun _ => hgroup hspelled) (by simp [FindingType.ofGroup])
        (fun hne => absurd rfl hne) fun _ => rfl
    · exact shape_baseFinding (fun _ => hgroup hspelled) (by simp [FindingType.ofGroup])
        (fun _ => rfl) (by simp)
    · exact shape_baseFinding (by simp [FindingType.ofGroup]) (fun _ => rfl) (fun _ => rfl) (by simp)
  · obtain ⟨-, rfl⟩ | ⟨-, -, rfl⟩ := mem_valueFindings.mp hfinding
    · exact shape_baseFinding (by simp [FindingType.ofGroup]) (fun _ => rfl) (fun _ => rfl) (by simp)
    · exact shape_baseFinding (by simp [FindingType.ofGroup]) (fun _ => rfl) (fun _ => rfl) (by simp)

/-- The lists of the finding of a missing key. -/
theorem missing_key_lists {c : Configuration} {finding : BaseFinding}
    (h : finding = baseFinding engine projectId .missingKey .error finding.key
      (c.spellings engine finding.key) (c.present engine finding.key)
      (c.missing engine finding.key)) :
    Listing finding.keys (c.Spelled engine finding.key) ∧
      Listing finding.environmentIds (c.Holds engine finding.key) ∧
      Listing finding.missingEnvironmentIds fun id =>
        c.Listed id ∧ ¬ c.Holds engine finding.key id := by
  have hspellings := c.listing_spellings engine finding.key
  have hpresent := c.listing_present engine finding.key
  have hmissing := c.listing_missing engine finding.key
  refine ⟨?_, ?_, ?_⟩
  · rw [show finding.keys = _ from congrArg BaseFinding.keys h]
    exact listing_insertionSort hspellings.nodup hspellings.mem
  · rw [show finding.environmentIds = _ from congrArg BaseFinding.environmentIds h]
    exact listing_insertionSort hpresent.nodup hpresent.mem
  · rw [show finding.missingEnvironmentIds = _ from congrArg BaseFinding.missingEnvironmentIds h]
    exact listing_insertionSort hmissing.nodup hmissing.mem

/-- Equal ids: equal types, keys and affected environments. -/
theorem Shape.of_id (hsha256 : Function.Injective engine.sha256) {c c' : Configuration}
    {finding other : BaseFinding} (h : Shape engine projectId c finding)
    (hother : Shape engine projectId c' other) (hid : finding.id = other.id) :
    finding.type = other.type ∧ finding.key = other.key ∧ finding.keys = other.keys ∧
      finding.environmentIds = other.environmentIds := by
  rw [h.id_eq, hother.id_eq] at hid
  obtain ⟨htype, -, hids, hkeys⟩ := findingId_inj hsha256 hid
  rw [h.sorted_ids.insertionSort_eq, hother.sorted_ids.insertionSort_eq] at hids
  rw [h.sorted_keys.insertionSort_eq, hother.sorted_keys.insertionSort_eq] at hkeys
  refine ⟨htype, ?_, hkeys, hids⟩
  cases hgroup : finding.type.ofGroup with
  | true =>
    obtain ⟨⟨key, hkey⟩, hupper⟩ := h.group_keys hgroup
    rw [htype] at hgroup
    rw [← hupper key hkey, (hother.group_keys hgroup).2 key (hkeys ▸ hkey)]
  | false =>
    have hsingle := h.single_key hgroup
    rw [htype] at hgroup
    rw [hkeys, hother.single_key hgroup] at hsingle
    exact (List.cons.inj hsingle).1.symm

/-! ## Two configurations -/

/-- The findings with one id in two configurations have the same content. -/
def DeterminesContent (engine : Engine) (projectId : JsString) (c c' : Configuration) : Prop :=
  ∀ finding ∈ c.analyze engine projectId, ∀ other ∈ c'.analyze engine projectId,
    finding.id = other.id →
      finding.type = other.type ∧ finding.key = other.key ∧
        finding.environmentIds = other.environmentIds ∧
        finding.missingEnvironmentIds = other.missingEnvironmentIds

structure SameHolders (engine : Engine) (c c' : Configuration) (normalized : JsString) : Prop where
  spelled : ∀ key, c.Spelled engine normalized key ↔ c'.Spelled engine normalized key
  holds : ∀ id, c.Holds engine normalized id ↔ c'.Holds engine normalized id

/-- The key is in some environment of the configuration and missing in another. -/
def Configuration.Misses (c : Configuration) (engine : Engine) (normalized : JsString) : Prop :=
  (∃ key, c.Spelled engine normalized key) ∧
    ∃ id, c.Listed id ∧ ¬ c.Holds engine normalized id

theorem missing_ne_nil {c : Configuration} {normalized : JsString} :
    c.missing engine normalized ≠ [] ↔
      ∃ id, c.Listed id ∧ ¬ c.Holds engine normalized id := by
  rw [← exists_congr (c.listing_missing engine normalized).mem]
  exact ⟨List.exists_mem_of_ne_nil _, fun ⟨_, h⟩ => List.ne_nil_of_mem h⟩

theorem Configuration.Holds.listed {c : Configuration} {normalized id : JsString}
    (h : c.Holds engine normalized id) : c.Listed id := by
  obtain ⟨secret, ⟨-, hlisted⟩, rfl, -⟩ := h
  exact hlisted

/-- A key that is missing somewhere is reported. -/
theorem mem_of_misses {c : Configuration} {normalized : JsString} (h : c.Misses engine normalized) :
    baseFinding engine projectId .missingKey .error normalized (c.spellings engine normalized)
      (c.present engine normalized) (c.missing engine normalized) ∈
        c.analyze engine projectId :=
  c.mem_analyze.mpr (.inl ⟨normalized, h.1, mem_findingsOf.mpr (.inl ⟨missing_ne_nil.mpr h.2, rfl⟩)⟩)

theorem misses_of_mem {c : Configuration} {finding : BaseFinding}
    (h : finding ∈ c.analyze engine projectId) (htype : finding.type = .missingKey) :
    c.Misses engine finding.key := by
  obtain ⟨normalized, hspelled, hfinding⟩ | ⟨secret, -, hfinding⟩ := c.mem_analyze.mp h
  · obtain ⟨hmissing, rfl⟩ | ⟨-, rfl⟩ | ⟨key, -, -, rfl⟩ := mem_findingsOf.mp hfinding
    · exact ⟨hspelled, missing_ne_nil.mp hmissing⟩
    · cases htype
    · cases htype
  · obtain ⟨-, rfl⟩ | ⟨-, -, rfl⟩ := mem_valueFindings.mp hfinding <;> cases htype

/-- **The id of a finding determines its content exactly where the two configurations have the same
environments, or no key that is missing in both has the same spellings and environments in
both.** -/
theorem findingId_determines_iff (engine : Engine) (projectId : JsString) (c c' : Configuration)
    (hsha256 : Function.Injective engine.sha256) :
    DeterminesContent engine projectId c c' ↔
      (∀ id, c.Listed id ↔ c'.Listed id) ∨
      ∀ normalized, c.Misses engine normalized → c'.Misses engine normalized →
        ¬ SameHolders engine c c' normalized := by
  constructor
  · intro hdetermines
    by_contra hcondition
    rw [not_or] at hcondition
    obtain ⟨hlisted, hkeys⟩ := hcondition
    push Not at hkeys
    obtain ⟨normalized, hmisses, hmisses', hsame⟩ := hkeys
    have hspellings := (c.listing_spellings engine normalized).eq
      ((c'.listing_spellings engine normalized).congr fun key => (hsame.spelled key).symm)
    have hpresent := (c.listing_present engine normalized).eq
      ((c'.listing_present engine normalized).congr fun id => (hsame.holds id).symm)
    have hid : (baseFinding engine projectId .missingKey .error normalized
          (c.spellings engine normalized) (c.present engine normalized)
          (c.missing engine normalized)).id =
        (baseFinding engine projectId .missingKey .error normalized
          (c'.spellings engine normalized) (c'.present engine normalized)
          (c'.missing engine normalized)).id := by
      simp only [baseFinding, hspellings, hpresent]
    obtain ⟨-, -, -, hmissing⟩ := hdetermines _ (mem_of_misses hmisses) _ (mem_of_misses hmisses') hid
    have hlisting := c.listing_missing engine normalized
    have hlisting' := c'.listing_missing engine normalized
    simp only [baseFinding, hlisting.sorted.insertionSort_eq, hlisting'.sorted.insertionSort_eq]
      at hmissing
    refine hlisted fun id => ?_
    have hmem := hlisting.mem id
    have hmem' := hlisting'.mem id
    rw [hmissing, hmem', hsame.holds] at hmem
    by_cases hholds : c'.Holds engine normalized id
    · exact ⟨fun _ => hholds.listed, fun _ => ((hsame.holds id).mpr hholds).listed⟩
    · exact ⟨fun h => (hmem.mpr ⟨h, hholds⟩).1, fun h => (hmem.mp ⟨h, hholds⟩).1⟩
  · intro hcondition finding hfinding other hother hid
    have hshape := shape_of_mem hfinding
    have hshape' := shape_of_mem hother
    obtain ⟨htype, hkey, hkeys, hids⟩ := hshape.of_id hsha256 hshape' hid
    refine ⟨htype, hkey, hids, ?_⟩
    by_cases hmissing : finding.type = .missingKey
    · have hmissing' := htype ▸ hmissing
      have hmisses := misses_of_mem hfinding hmissing
      have hmisses' := misses_of_mem hother hmissing'
      have hlists := missing_key_lists (hshape.missing_key hmissing)
      have hlists' := missing_key_lists (hshape'.missing_key hmissing')
      rw [← hkey] at hmisses' hlists'
      obtain ⟨hspelled, hholds, hmissingIds⟩ := hlists
      obtain ⟨hspelled', hholds', hmissingIds'⟩ := hlists'
      have hsame : SameHolders engine c c' finding.key := by
        refine ⟨fun key => ?_, fun id => ?_⟩
        · rw [← hspelled.mem, ← hspelled'.mem, hkeys]
        · rw [← hholds.mem, ← hholds'.mem, hids]
      obtain hlisted | hdifferent := hcondition
      · refine hmissingIds.eq (hmissingIds'.congr fun id => ?_)
        rw [hlisted, hsame.holds]
      · exact absurd hsame (hdifferent finding.key hmisses hmisses')
    · rw [hshape.not_missing hmissing, hshape'.not_missing (htype ▸ hmissing)]

/-- A key that staging lacks. -/
def withoutProduction : Configuration where
  environments := [environmentOf "dev", environmentOf "staging"]
  secrets := [secretOf "dev" "API_KEY" "x"]

/-- The key that staging lacked is set there, and a new environment lacks it. -/
def stagingFilled : Configuration where
  environments := [environmentOf "dev", environmentOf "staging", environmentOf "production"]
  secrets := [secretOf "dev" "API_KEY" "x", secretOf "staging" "API_KEY" "y"]

theorem findingId_determines_iff_stagingFilled :
    Function.Injective (asciiEngine .ofLE).sha256 ∧
      (withoutProduction.analyze (asciiEngine .ofLE) (ofAscii "p")).map (·.type) = [.missingKey] ∧
      (stagingFilled.analyze (asciiEngine .ofLE) (ofAscii "p")).map (·.type) = [.missingKey] ∧
      DeterminesContent (asciiEngine .ofLE) (ofAscii "p") withoutProduction stagingFilled := by
  refine ⟨asciiEngine_injective _, by decide +kernel, by decide +kernel,
    (findingId_determines_iff _ _ _ _ (asciiEngine_injective _)).mpr (.inr ?_)⟩
  rintro normalized ⟨⟨key, spelled, hspelled, rfl, rfl⟩, -⟩ - hsame
  obtain rfl : spelled = secretOf "dev" "API_KEY" "x" := List.mem_singleton.mp hspelled.1
  obtain ⟨secret, hactive, henvironment, -⟩ := (hsame.holds (ofAscii "staging")).mpr
    ⟨secretOf "staging" "API_KEY" "y", ⟨by simp [stagingFilled], environmentOf "staging",
      by simp [stagingFilled], rfl⟩, rfl, rfl⟩
  obtain rfl : secret = secretOf "dev" "API_KEY" "x" := List.mem_singleton.mp hactive.1
  exact absurd henvironment (by decide)

/-- A new environment lacks it too. -/
def withProduction : Configuration :=
  { withoutProduction with
    environments := [environmentOf "dev", environmentOf "staging", environmentOf "production"] }

/-- The finding about staging is ignored before production is there. -/
def ignoredStates : List StateRow :=
  (withoutProduction.analyze (asciiEngine .ofLE) (ofAscii "p")).map fun finding =>
    ⟨finding.id, .ignored, none, 0⟩

/-- One id for two contents: what is ignored about one environment hides another. -/
theorem ignored_finding_hides_production :
    ¬ DeterminesContent (asciiEngine .ofLE) (ofAscii "p") withoutProduction withProduction ∧
      (withProduction.report (asciiEngine .ofLE) (ofAscii "p") ignoredStates).summary.exitCode = 0 ∧
      (withProduction.analyze (asciiEngine .ofLE) (ofAscii "p")).map (·.missingEnvironmentIds) =
        [[ofAscii "production", ofAscii "staging"]] ∧
      (withoutProduction.analyze (asciiEngine .ofLE) (ofAscii "p")).map (·.missingEnvironmentIds) =
        [[ofAscii "staging"]] := by
  have hbefore : (withoutProduction.analyze (asciiEngine .ofLE) (ofAscii "p")).map
      (·.missingEnvironmentIds) = [[ofAscii "staging"]] := by
    decide +kernel
  have hafter : (withProduction.analyze (asciiEngine .ofLE) (ofAscii "p")).map
      (·.missingEnvironmentIds) = [[ofAscii "production", ofAscii "staging"]] := by
    decide +kernel
  refine ⟨fun hdetermines => ?_, by decide +kernel, hafter, hbefore⟩
  have hids : (withoutProduction.analyze (asciiEngine .ofLE) (ofAscii "p")).map (·.id) =
      (withProduction.analyze (asciiEngine .ofLE) (ofAscii "p")).map (·.id) := by
    decide +kernel
  obtain ⟨finding, hfinding⟩ := List.map_eq_singleton_iff.mp hbefore
  obtain ⟨other, hother⟩ := List.map_eq_singleton_iff.mp hafter
  rw [hfinding.1, hother.1] at hids
  have hcontent := hdetermines finding (by simp [hfinding.1]) other (by simp [hother.1])
    (List.cons.inj hids).1
  rw [hfinding.2, hother.2] at hcontent
  exact absurd hcontent.2.2.2 (by decide)

/-! ## Dispositions -/

/-- The last state of an id counts. -/
theorem lookup_states (states : List StateRow) (id : JsString) :
    (AssocList.setAll [] (states.map fun state => (state.findingId, state))).lookup id =
      (states.filter (·.findingId = id)).getLast? := by
  induction states using List.reverseRecOn with
  | nil => rfl
  | append_singleton states state ih =>
    unfold AssocList.setAll at ih ⊢
    rw [List.map_append, List.foldl_append, List.map_cons, List.map_nil, List.foldl_cons,
      List.foldl_nil, AssocList.lookup_set, ih, List.filter_append]
    by_cases hid : id = state.findingId
    · simp [hid]
    · simp [hid, Ne.symm hid]

theorem filter_upsertState {states : List StateRow} {state : StateRow} {id : JsString}
    (h : id ≠ state.findingId) :
    (upsertState states state).filter (·.findingId = id) =
      states.filter (·.findingId = id) := by
  have hmap : ∀ rows : List StateRow,
      (rows.map fun row => if row.findingId = state.findingId then state else row).filter
        (·.findingId = id) = rows.filter (·.findingId = id) := by
    intro rows
    induction rows with
    | nil => rfl
    | cons row rows ih =>
      rw [List.map_cons, List.filter_cons, List.filter_cons, ih]
      by_cases hrow : row.findingId = state.findingId
      · simp [hrow, Ne.symm h]
      · simp [hrow]
  unfold upsertState
  split
  · exact hmap states
  · simp [Ne.symm h]

theorem mergeState_id (states : List StateRow) (finding : BaseFinding) :
    (mergeState states finding).id = finding.id := by
  unfold mergeState
  split <;> rfl

/-- Recording a disposition changes no other finding. -/
theorem mergeState_upsertState {states : List StateRow} {state : StateRow} {finding : BaseFinding}
    (h : finding.id ≠ state.findingId) :
    mergeState (upsertState states state) finding = mergeState states finding := by
  unfold mergeState
  rw [lookup_states, lookup_states, filter_upsertState h]

/-- **Where ids determine content, a disposition speaks of what was reported**: a finding of a later
configuration that it marks was reported with the same content when it was recorded. -/
theorem recorded_was_reported {c c' : Configuration} {states states' : List StateRow}
    {id : JsString} {disposition : FindingDisposition} {note : Option JsString} {now : Int}
    {recorded : ConsistencyFinding} {finding : BaseFinding}
    (hdetermines : DeterminesContent engine projectId c c')
    (hset : setDisposition (c.report engine projectId states) states id disposition note now =
      .ok (recorded, states'))
    (hfinding : finding ∈ c'.analyze engine projectId)
    (hmarked : mergeState states' finding ≠ mergeState states finding) :
    ∃ reported ∈ c.analyze engine projectId, reported.id = id ∧ reported.type = finding.type ∧
      reported.key = finding.key ∧ reported.environmentIds = finding.environmentIds ∧
      reported.missingEnvironmentIds = finding.missingEnvironmentIds := by
  unfold setDisposition at hset
  cases hfind : (c.report engine projectId states).findings.find? (·.id = id) with
  | none =>
    rw [hfind] at hset
    cases hset
  | some merged =>
    rw [hfind] at hset
    obtain ⟨normalizedNote, -, hok⟩ := Except.bind_eq_ok_iff.mp hset
    obtain ⟨-, rfl⟩ := Prod.mk.inj (Except.ok.inj hok)
    have hid : finding.id = id := by
      by_contra hne
      exact hmarked (mergeState_upsertState hne)
    obtain ⟨reported, hreported, rfl⟩ := List.mem_map.mp (List.mem_of_find?_eq_some hfind)
    have hfound := List.find?_some hfind
    rw [decide_eq_true_eq, mergeState_id] at hfound
    exact ⟨reported, hreported, hfound,
      hdetermines reported hreported finding hfinding (hfound.trans hid.symm)⟩

end Himitsu.Consistency
