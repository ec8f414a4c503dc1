import Himitsu.Secrets.Overlay

/-!
# Imports are overlays

* `Takes` — what the strategies of an import take; `chosen` — the inputs that one takes.
* `importEntries` — what these write: a value for each place.
* `serially_importOverlay` — an import lays these over the values that its commit finds.

Principal result: `import_overlay` — so it is for every commit of an import in every run, its summary
counts the inputs that it created, updated and skipped, and nothing else is touched.
-/

set_option autoImplicit false

namespace Himitsu.Secrets

open JsString Crypto Database Services Transactions Interleaving Overlay RelatedLists

variable {wrapper : KeyWrapper}

/-! ## The reference -/

/-- The place of an input, as the tables keep its key. -/
def inputPlace (projectId environmentId : Uuid) (input : SetSecretInput) : Place :=
  (projectId, environmentId, toWellFormed (trim input.key))

/-- What a strategy takes: `skip` the keys that are not there, `overwrite` every key, and `merge`
the selected ones, there or not. -/
def Takes (selected : List JsString) (present : Bool) (key : JsString) :
    SecretImportStrategy → Prop
  | .skip => present = false
  | .overwrite => True
  | .merge => key ∈ selected

instance (selected : List JsString) (present : Bool) (key : JsString) :
    ∀ strategy, Decidable (Takes selected present key strategy)
  | .skip => inferInstanceAs (Decidable (present = false))
  | .overwrite => isTrue trivial
  | .merge => inferInstanceAs (Decidable (key ∈ selected))

theorem isIncluded_eq (strategy : SecretImportStrategy) (selected : List JsString)
    (present : Bool) (key : JsString) :
    isIncluded strategy selected present key = decide (Takes selected present key strategy) := by
  cases strategy with
  | skip => cases present <;> rfl
  | overwrite => rfl
  | merge => exact List.contains_eq_mem key selected

/-- A key that is not taken where it is absent is not taken where it is present. -/
theorem not_takes_of_absent {strategy : SecretImportStrategy} {selected : List JsString}
    {key : JsString} (h : decide (Takes selected false key strategy) = false) (present : Bool) :
    decide (Takes selected present key strategy) = false := by
  cases strategy with
  | overwrite => cases h
  | skip => cases h
  | merge => exact h

/-- Whether a strategy takes an input. -/
def chosen (strategy : SecretImportStrategy) (selected : List JsString)
    (values : Place → Option JsString) (projectId environmentId : Uuid) (input : SetSecretInput) :
    Bool :=
  Takes selected (values (inputPlace projectId environmentId input)).isSome (trim input.key) strategy

/-- The values of the inputs that a strategy takes, at their places. -/
def importEntries (strategy : SecretImportStrategy) (selected : List JsString)
    (values : Place → Option JsString) (projectId environmentId : Uuid)
    (inputs : List SetSecretInput) : List (Place × JsString) :=
  (inputs.filter (chosen strategy selected values projectId environmentId)).map fun input =>
    (inputPlace projectId environmentId input, toWellFormed input.value)

theorem importEntries_concat {strategy : SecretImportStrategy} {selected : List JsString}
    {values : Place → Option JsString} {projectId environmentId : Uuid} {input : SetSecretInput}
    {taken : Bool} (htaken : chosen strategy selected values projectId environmentId input = taken)
    (before : List SetSecretInput) :
    importEntries strategy selected values projectId environmentId (before ++ [input]) =
      importEntries strategy selected values projectId environmentId before ++
        if taken then [(inputPlace projectId environmentId input, toWellFormed input.value)]
        else [] := by
  rw [importEntries, List.filter_append, List.map_append, importEntries]
  cases taken <;> simp [htaken]

/-- What an import counts. -/
def importSummary (strategy : SecretImportStrategy) (selected : List JsString)
    (values : Place → Option JsString) (projectId environmentId : Uuid)
    (inputs : List SetSecretInput) : ImportSummary :=
  let taken := chosen strategy selected values projectId environmentId
  let present := fun input => (values (inputPlace projectId environmentId input)).isSome
  { requested := inputs.length
    created := inputs.countP fun input => taken input && !present input
    updated := inputs.countP fun input => taken input && present input
    skipped := inputs.countP fun input => !taken input }

/-! ## A turn of the loop -/

/-- A listing of the keys decides of an input as the values do. -/
structure Agrees (strategy : SecretImportStrategy) (selected : List JsString)
    (values : Place → Option JsString) (keys : List JsString) (projectId environmentId : Uuid)
    (input : SetSecretInput) : Prop where
  included : decide (Takes selected (keys.contains (trim input.key)) (trim input.key) strategy) =
    chosen strategy selected values projectId environmentId input
  present : chosen strategy selected values projectId environmentId input = true →
    keys.contains (trim input.key) = (values (inputPlace projectId environmentId input)).isSome

/-- What a turn of the loop tells of an input. -/
structure Reports (strategy : SecretImportStrategy) (selected : List JsString)
    (values : Place → Option JsString) (keys : List JsString) (projectId environmentId : Uuid)
    (input : SetSecretInput) (outcome : ImportOutcome) : Prop where
  agrees : Agrees strategy selected values keys projectId environmentId input
  created : outcome.isCreated =
    (chosen strategy selected values projectId environmentId input &&
      !(values (inputPlace projectId environmentId input)).isSome)
  updated : outcome.isUpdated =
    (chosen strategy selected values projectId environmentId input &&
      (values (inputPlace projectId environmentId input)).isSome)
  skipped : outcome.secret.isNone =
    !chosen strategy selected values projectId environmentId input

section

variable {platform : Platform} {rely : Db wrapper → Db wrapper → Prop} {held : List Lock}
  {draws : Draws} {userId : Uuid} {n : Nat} {db db₀ : Db wrapper} {vault vault₀ : Vault}
  {projectId environmentId : Uuid} {strategy : SecretImportStrategy} {selected : List JsString}
  {format : SecretImportFormat}

/-- The rows that an import finds are active at the commit too. -/
theorem serially_existingActive (hrely : ∀ view db, rely view db → Sees view db)
    {keys : List JsString} :
    Serially store rely (existingRows platform projectId environmentId keys :
      TransactionM wrapper _) held db fun existing held' db' => (∀ l ∈ held, l ∈ held') ∧ db' = db ∧
        ∀ row ∈ existing, row.orgId = db.orgId ∧ row.secret ∈ db.secrets ∧
          row.secret.projectId = projectId ∧ row.secret.environmentId = environmentId ∧
            row.secret.deletedAt = none := by
  refine serially_selectForUpdate fun view hview hparts =>
    ⟨fun l hl => List.mem_append_left _ hl, rfl, fun row hrow => ?_⟩
  obtain ⟨secret, hsecret, rfl⟩ := List.mem_map.mp hrow
  obtain ⟨hmem, hproject, henvironment, hactive⟩ :=
    mem_activeSecrets.mp (List.mem_filter.mp hsecret).1
  exact ⟨(hrely _ _ hview).2, mem_of_locked hmem (hparts _ (List.mem_append_right _
    (List.mem_map.mpr ⟨secret, hsecret, rfl⟩))), hproject, henvironment, hactive⟩

/-- The keys of the active secrets of an environment. -/
def activeKeys (platform : Platform) (db : Db wrapper) (projectId environmentId : Uuid) :
    List JsString :=
  (activeSecrets platform db projectId environmentId).map fun row => row.key

/-- A key that an environment has is at the place of an input with this key, with a value. -/
theorem isSome_of_activeKey (h : Implements platform.aead db vault) (hversioned : Versioned db)
    {input : SetSecretInput}
    (hkey : trim input.key ∈ activeKeys platform db projectId environmentId) :
    (valuesOf db vault (inputPlace projectId environmentId input)).isSome = true := by
  obtain ⟨row, hrow, hrowKey⟩ := List.mem_map.mp hkey
  obtain ⟨hmem, hproject, henvironment, hactive⟩ := mem_activeSecrets.mp hrow
  have hplace : placeOf row = inputPlace projectId environmentId input := by
    rw [placeOf, inputPlace, ← hrowKey, hproject, henvironment,
      toWellFormed_of_isWellFormed (h.keys _ hmem).1]
  obtain ⟨-, value, -, -, -, hvalue, -⟩ := h.lastValue platform hversioned hmem
  rw [(valuesOf_eq_some h).mpr ⟨row, hmem, hplace, hactive, hvalue⟩]
  rfl

/-- A row that an import has found is at the place of the input whose key it has. -/
theorem place_of_existing (h₀ : Implements platform.aead db₀ vault₀)
    {existing : List SecretRow} (hexisting : ∀ row ∈ existing, row.orgId = db₀.orgId ∧
      row.secret ∈ db₀.secrets ∧ row.secret.projectId = projectId ∧
        row.secret.environmentId = environmentId ∧ row.secret.deletedAt = none)
    {input : SetSecretInput} {key : JsString}
    (hkey : validateSecretKey input.key input.allowNonConformingKey = .ok key) {row : SecretRow}
    (hfound : existing.find? (fun row => row.secret.key = key) = some row) :
    placeOf row.secret = inputPlace projectId environmentId input ∧
      key ∈ activeKeys platform db₀ projectId environmentId := by
  obtain ⟨-, hmem, hproject, henvironment, hactive⟩ :=
    hexisting row (List.mem_of_find?_eq_some hfound)
  have hrowKey : row.secret.key = key := by simpa using List.find?_some hfound
  refine ⟨?_, List.mem_map.mpr ⟨row.secret, mem_activeSecrets.mpr ⟨hmem, hproject, henvironment,
    hactive⟩, hrowKey⟩⟩
  rw [placeOf, inputPlace, ← eq_trim_of_validate hkey, ← hrowKey, hproject, henvironment,
    toWellFormed_of_isWellFormed (h₀.keys _ hmem).1]

theorem serially_importTurn (hrely : ∀ view db, rely view db → Sees view db)
    (h₀ : Implements platform.aead db₀ vault₀) (hversioned : Versioned db₀)
    {existing : List SecretRow} (hexisting : ∀ row ∈ existing, row.orgId = db₀.orgId ∧
      row.secret ∈ db₀.secrets ∧ row.secret.projectId = projectId ∧
        row.secret.environmentId = environmentId ∧ row.secret.deletedAt = none)
    {before : List SetSecretInput} {item : SetSecretInput × JsString}
    (hkey : validateSecretKey item.1.key item.1.allowNonConformingKey = .ok item.2)
    (h : LaidOver platform.aead db₀ vault₀ (importEntries strategy selected (valuesOf db₀ vault₀)
      projectId environmentId before) db vault) :
    Serially store rely (importOne platform draws userId projectId environmentId strategy selected
      format existing n item : TransactionM wrapper _) held db fun outcome _ db' =>
        (∃ vault', LaidOver platform.aead db₀ vault₀ (importEntries strategy selected
          (valuesOf db₀ vault₀) projectId environmentId (before ++ [item.1])) db' vault') ∧
          Reports strategy selected (valuesOf db₀ vault₀)
            (activeKeys platform db₀ projectId environmentId) projectId environmentId item.1
            outcome := by
  have htrim := eq_trim_of_validate hkey
  unfold importOne
  dsimp only
  cases hfound : existing.find? fun row => row.secret.key = item.2 with
  | none =>
    rw [Option.isSome_none, isIncluded_eq]
    refine serially_ite (fun hskip => serially_ok ?_) fun htake => ?_
    · rw [Bool.not_eq_true', htrim] at hskip
      have htaken : chosen strategy selected (valuesOf db₀ vault₀) projectId environmentId item.1 =
          false := not_takes_of_absent hskip _
      have hagrees : Agrees strategy selected (valuesOf db₀ vault₀)
          (activeKeys platform db₀ projectId environmentId) projectId environmentId item.1 :=
        ⟨(not_takes_of_absent hskip _).trans htaken.symm,
          fun htake => absurd (htaken.symm.trans htake) Bool.false_ne_true⟩
      rw [importEntries_concat htaken]
      refine ⟨⟨vault, ?_⟩, ⟨hagrees, ?_, ?_, ?_⟩⟩
      · rwa [if_neg Bool.false_ne_true, List.append_nil]
      all_goals rw [htaken]; rfl
    · rw [Bool.not_eq_true', Bool.not_eq_false] at htake
      refine serially_bind ((serially_create hrely h.implements).mono fun metadata _ db' h' =>
        serially_ok ?_)
      obtain ⟨-, key, hkeyOf, hcreated⟩ := h'
      have hplace : (projectId, environmentId, key) = inputPlace projectId environmentId item.1 := by
        rw [inputPlace, eq_of_isKeyOf (isKeyOf_normalized hkey hkeyOf)]
      obtain ⟨habsent, hputs⟩ := hcreated.puts h.implements
      rw [hplace] at habsent hputs
      have hnone : (valuesOf db₀ vault₀ (inputPlace projectId environmentId item.1)).isSome =
          false := by
        by_contra hsome
        rw [Bool.not_eq_false] at hsome
        have hstill := isSome_overlay hsome (importEntries strategy selected (valuesOf db₀ vault₀)
          projectId environmentId before)
        rw [← h.values, habsent] at hstill
        cases hstill
      have htaken : chosen strategy selected (valuesOf db₀ vault₀) projectId environmentId item.1 =
          true := by
        rwa [chosen, hnone, ← htrim]
      have hunlisted : (activeKeys platform db₀ projectId environmentId).contains
          (trim item.1.key) = false := by
        rw [← Bool.not_eq_true, List.contains_iff_mem]
        intro hlisted
        have hsome := isSome_of_activeKey h₀ hversioned hlisted
        rw [hnone] at hsome
        cases hsome
      rw [importEntries_concat htaken]
      refine ⟨⟨_, h.put hputs⟩, ⟨⟨?_, fun _ => hunlisted.trans hnone.symm⟩, ?_, ?_, ?_⟩⟩
      all_goals rw [htaken]
      · rw [hunlisted, ← htrim, htake]
      · rw [hnone]; rfl
      · rw [hnone]; rfl
      · rfl
  | some row =>
    obtain ⟨hplace, hlisted⟩ := place_of_existing h₀ hexisting hkey hfound
    rw [htrim] at hlisted
    have hsome := isSome_of_activeKey h₀ hversioned hlisted
    rw [← List.contains_iff_mem] at hlisted
    obtain ⟨horg, hmem, -⟩ := hexisting row (List.mem_of_find?_eq_some hfound)
    have htaken : isIncluded strategy selected true item.2 =
        chosen strategy selected (valuesOf db₀ vault₀) projectId environmentId item.1 := by
      rw [isIncluded_eq, chosen, hsome, htrim]
    have hagrees : Agrees strategy selected (valuesOf db₀ vault₀)
        (activeKeys platform db₀ projectId environmentId) projectId environmentId item.1 :=
      ⟨by rw [hlisted, ← htaken, isIncluded_eq, htrim], fun _ => hlisted.trans hsome.symm⟩
    rw [Option.isSome_some, htaken]
    refine serially_ite (fun hskip => serially_ok ?_) fun htake => ?_
    · rw [Bool.not_eq_true'] at hskip
      rw [importEntries_concat hskip]
      refine ⟨⟨vault, ?_⟩, ⟨hagrees, ?_, ?_, ?_⟩⟩
      · rwa [if_neg Bool.false_ne_true, List.append_nil]
      all_goals rw [hskip]; rfl
    · rw [Bool.not_eq_true', Bool.not_eq_false] at htake
      refine serially_bind ((serially_writeVersion hrely h.implements (horg.trans h.grows.orgId.symm)
        (h.grows.known _ (known_of_mem hmem))).mono fun metadata _ db' h' => serially_ok ?_)
      have hputs := h'.2.puts h.implements
      rw [hplace] at hputs
      rw [importEntries_concat htake]
      refine ⟨⟨_, h.put hputs⟩, ⟨hagrees, ?_, ?_, ?_⟩⟩
      all_goals rw [htake]
      · rw [hsome]; rfl
      · rw [hsome]; rfl
      · rfl

/-! ## The whole import -/

/-- An import lays its entries over the values, and counts them. -/
structure Imports (platform : Platform) (projectId environmentId : Uuid) (inputs : List SetSecretInput)
    (strategy : SecretImportStrategy) (selected : List JsString) (db : Db wrapper) (vault : Vault)
    (counted : ImportSummary) (db' : Db wrapper) : Prop where
  laidOver : ∃ vault', LaidOver platform.aead db vault (importEntries strategy selected (valuesOf db vault)
    projectId environmentId inputs) db' vault'
  agrees : ∀ input ∈ inputs, Agrees strategy selected (valuesOf db vault)
    (activeKeys platform db projectId environmentId) projectId environmentId input
  summary : counted =
    importSummary strategy selected (valuesOf db vault) projectId environmentId inputs

theorem serially_importOverlay (hrely : ∀ view db, rely view db → Sees view db)
    {inputs : List SetSecretInput} (h : Implements platform.aead db vault)
    (hversioned : Versioned db) :
    Serially store rely (importBatch platform draws userId projectId environmentId inputs strategy
      selected format : TransactionM wrapper _) held db fun result _ db' =>
        Imports platform projectId environmentId inputs strategy selected db vault result.summary
          db' := by
  refine serially_ite (fun _ => serially_fail) fun _ =>
    serially_bind (serially_attempt fun keys hkeys => ?_)
  refine serially_ite (fun _ => serially_fail) fun _ => serially_ite (fun _ => serially_fail)
    fun _ => serially_scope fun scope held₁ _ => serially_bind (serially_attempt fun storedKeys _ => ?_)
  refine serially_bind ((serially_existingActive hrely).mono fun existing held₂ db₂ h₂ => ?_)
  obtain ⟨-, rfl, hexisting⟩ := h₂
  have hkeys := normalizedKeys_ok hkeys
  have hitems : ∀ item ∈ inputs.zip keys,
      validateSecretKey item.1.key item.1.allowNonConformingKey = .ok item.2 :=
    fun item hitem => List.forall₂_zip hkeys hitem
  refine serially_bind ((serially_forEach (I := fun before outcomes _ db' =>
    (∃ vault', LaidOver platform.aead db₂ vault (importEntries strategy selected
      (valuesOf db₂ vault) projectId environmentId (before.map Prod.fst)) db' vault') ∧
        List.Forall₂ (Reports strategy selected (valuesOf db₂ vault)
          (activeKeys platform db₂ projectId environmentId) projectId environmentId)
          (before.map Prod.fst) outcomes)
    (fun n before item after outcomes held' db' hall hI => ?_)
    ⟨⟨vault, .start h⟩, .nil⟩).mono fun outcomes held₃ db₃ hI => ?_)
  · obtain ⟨⟨vault', hlaid⟩, hreports⟩ := hI
    refine (serially_importTurn hrely h hversioned hexisting (hitems item (by simp [hall]))
      hlaid).mono fun outcome _ db'' hturn => ?_
    rw [List.map_append, List.map_singleton]
    exact ⟨hturn.1, List.rel_append hreports (.cons hturn.2 .nil)⟩
  · obtain ⟨⟨vault', hlaid⟩, hreports⟩ := hI
    rw [List.map_fst_zip hkeys.length_eq.le] at hlaid hreports
    refine serially_bind ((serially_read (emits_select _)).mono fun orgId held₄ db₄ h₄ => ?_)
    obtain ⟨-, rfl⟩ := h₄
    refine serially_bind ((serially_noting (emits_record (fun _ _ => rfl) _ _)).mono
      fun _ held₅ db₅ h₅ => serially_ok ?_)
    obtain ⟨-, hbare, htags⟩ := h₅
    refine ⟨⟨vault', hlaid.of_bare hbare htags⟩,
      forall_of_forall₂ hreports fun _ _ hreport => hreport.agrees, ?_⟩
    refine (ImportSummary.mk.injEq ..).mpr ⟨rfl, ?_, ?_, ?_⟩
    · exact countP_of_forall₂ hreports fun _ _ hreport => hreport.created
    · exact countP_of_forall₂ hreports fun _ _ hreport => hreport.updated
    · exact countP_of_forall₂ hreports fun _ _ hreport => hreport.skipped

end

/-! ## Commits of imports -/

/-- The tables after an import are those before it with its entries over the values. -/
structure ImportCommit (platform : Platform) (projectId environmentId : Uuid)
    (inputs : List SetSecretInput) (strategy : SecretImportStrategy) (selected : List JsString)
    (counted : ImportSummary) (db db' : Db wrapper) : Prop where
  values : openedAt platform db' = overlay (openedAt platform db)
    (importEntries strategy selected (openedAt platform db) projectId environmentId inputs)
  elsewhere : SameElsewhere ((importEntries strategy selected (openedAt platform db) projectId
    environmentId inputs).map Prod.fst) db db'
  agrees : ∀ input ∈ inputs, Agrees strategy selected (openedAt platform db)
    (activeKeys platform db projectId environmentId) projectId environmentId input
  summary : counted =
    importSummary strategy selected (openedAt platform db) projectId environmentId inputs
  total : counted.created + counted.updated + counted.skipped = counted.requested

theorem countP_total {α : Type} (p q : α → Bool) (as : List α) :
    as.countP (fun a => p a && !q a) + as.countP (fun a => p a && q a) +
      as.countP (fun a => !p a) = as.length := by
  induction as with
  | nil => rfl
  | cons a as ih =>
    simp only [List.countP_cons, List.length_cons]
    cases p a <;> cases q a <;> simp <;> omega

/-- An input is created, updated or skipped. -/
theorem importSummary_total (strategy : SecretImportStrategy) (selected : List JsString)
    (values : Place → Option JsString) (projectId environmentId : Uuid)
    (inputs : List SetSecretInput) :
    let summary := importSummary strategy selected values projectId environmentId inputs
    summary.created + summary.updated + summary.skipped = summary.requested :=
  countP_total ..

section

variable {config : Config} {base : Db wrapper}
  {s : System (Db wrapper) Lock Write ServiceError Call Answer}

/-- The commit of an import, over the versions that the tables then hold. -/
theorem imports_of_commit (hempty : base.secrets = [] ∧ base.secretVersions = [])
    (hreach : Reachable store (program config) base s) {i : Nat} {e : Commit wrapper}
    (he : s.log[i]? = some e) {projectId environmentId : Uuid} {inputs : List SetSecretInput}
    {strategy : SecretImportStrategy} {selected : List JsString} {format : SecretImportFormat}
    (haction : e.call.action =
      .secret (.importBatch projectId environmentId inputs strategy selected format)) :
    ∃ vault result, Implements config.platform.aead (databaseAfter store base s.log i) vault ∧
      e.answer = .imported result ∧ Imports config.platform projectId environmentId inputs strategy
        selected (databaseAfter store base s.log i) vault result.summary
          (databaseAfter store base s.log (i + 1)) := by
  obtain ⟨vault, h⟩ := exists_implements hreach hempty i
  have hcall : Serially store Sees (program config e.call) [] (databaseAfter store base s.log i)
      fun answer _ db' => ∃ result, answer = .imported result ∧ Imports config.platform
        projectId environmentId inputs strategy selected (databaseAfter store base s.log i) vault
          result.summary db' := by
    simp only [program, haction]
    exact serially_answering ((serially_importOverlay (fun _ _ hview => hview) h
      (history_of_commits hreach hempty.1 i).1).mono fun result _ db' himports =>
        ⟨result, rfl, himports⟩)
  obtain ⟨-, result, hanswer, himports⟩ := serially_of_commit hreach hempty.1 he hcall
  exact ⟨vault, result, h, hanswer, himports⟩

/-- **Imports are overlays.** In every run, the commit of an import lays the inputs that its strategy
takes over the decrypted values of the environment, counts what it did, and leaves all else. -/
theorem import_overlay (hempty : base.secrets = [] ∧ base.secretVersions = [])
    (hreach : Reachable store (program config) base s) {i : Nat} {e : Commit wrapper}
    (he : s.log[i]? = some e) {projectId environmentId : Uuid} {inputs : List SetSecretInput}
    {strategy : SecretImportStrategy} {selected : List JsString} {format : SecretImportFormat}
    (haction : e.call.action =
      .secret (.importBatch projectId environmentId inputs strategy selected format)) :
    ∃ result, e.answer = .imported result ∧ ImportCommit config.platform projectId environmentId
      inputs strategy selected result.summary (databaseAfter store base s.log i)
        (databaseAfter store base s.log (i + 1)) := by
  obtain ⟨vault, result, h, hanswer, himports⟩ := imports_of_commit hempty hreach he haction
  obtain ⟨⟨vault', hlaid⟩, hagrees, hsummary⟩ := himports
  have hversioned := fun n => (history_of_commits hreach hempty.1 n).1
  have hbefore := openedAt_eq h (hversioned i)
  have hafter := openedAt_eq hlaid.implements (hversioned (i + 1))
  refine ⟨result, hanswer, ?_⟩
  rw [← hbefore] at hlaid hagrees hsummary
  refine ⟨?_, hlaid.elsewhere, hagrees, hsummary, ?_⟩
  · rw [hafter, hlaid.values, hbefore]
  · rw [hsummary]
    exact importSummary_total ..

end

/-! ## An import that skips -/

/-- A secret is stored, and an import that keeps what is there brings it again with a new one. Each
call is there with the number of its statements. -/
def importCalls : List (Call × Nat) :=
  [(createApp 1, 9),
    (callAt 2 (.secret (.create ⟨100⟩ ⟨101⟩
      { key := ofAscii "KEY", value := ofAscii "x" })), 15),
    (callAt 3 (.secret (.importBatch ⟨100⟩ ⟨101⟩
      [{ key := ofAscii "KEY", value := ofAscii "y" },
        { key := ofAscii "NEW", value := ofAscii "z" }] .skip [] .dotenv)), 17)]

def importRun : Option (System (Db exampleWrapper) Lock Write ServiceError Call Answer) :=
  (System.start newOrganization).schedule store (program exampleConfig)
    (importCalls.flatMap fun call =>
      .start call.1 :: List.replicate call.2 (.statement 0) ++ [.commit 0])

/-- The keys of an import that keeps what is there, and what it counted. -/
structure ImportEntry where
  projectId : Uuid
  environmentId : Uuid
  keys : List JsString
  summary : ImportSummary
  deriving DecidableEq

def skippingOf (e : Commit exampleWrapper) : Option ImportEntry :=
  match e.call.action, e.answer with
  | .secret (.importBatch projectId environmentId inputs .skip [] .dotenv), .imported result =>
    some ⟨projectId, environmentId, inputs.map fun input => input.key, result.summary⟩
  | _, _ => none

theorem importRun_counts : importRun.map (fun s => (s.log[2]?).bind skippingOf) =
    some (some ⟨⟨100⟩, ⟨101⟩, [ofAscii "KEY", ofAscii "NEW"], ⟨2, 1, 0, 1⟩⟩) := by
  decide +kernel

theorem import_overlay_skip : ∃ s e inputs result, importRun = some s ∧ s.log[2]? = some e ∧
    inputs.map (fun input : SetSecretInput => input.key) = [ofAscii "KEY", ofAscii "NEW"] ∧
      e.answer = .imported result ∧ ImportCommit examplePlatform ⟨100⟩ ⟨101⟩ inputs .skip []
        result.summary (databaseAfter store newOrganization s.log 2)
          (databaseAfter store newOrganization s.log 3) := by
  obtain ⟨s, hs, hlog⟩ := Option.map_eq_some_iff.mp importRun_counts
  obtain ⟨e, he, hentry⟩ := Option.bind_eq_some_iff.mp hlog
  unfold skippingOf at hentry
  split at hentry
  · rename_i projectId environmentId inputs result haction hanswer
    obtain ⟨rfl, rfl, hkeys, -⟩ := ImportEntry.mk.inj (Option.some.inj hentry)
    obtain ⟨result, hresult, hcommit⟩ :=
      import_overlay ⟨rfl, rfl⟩ (reachable_of_schedule hs) he haction
    exact ⟨s, e, inputs, result, hs, he, hkeys, hresult, hcommit⟩
  · cases hentry

end Himitsu.Secrets
