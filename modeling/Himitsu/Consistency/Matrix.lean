import Himitsu.Consistency.Identity

/-!
# Matrix and findings

The matrix and the findings are two passes over the same secrets.

* `Agrees` — each cell says what the findings say of its key and its secret.
* `mem_rows`, `mem_emptyCells` — the rows of the matrix, and what makes a cell empty.
* `missing_cell_iff`, `empty_cell_iff` — one cell, in terms of the configuration.

Principal result: `matrix_agrees_iff` — the two agree exactly where every key has a secret in a
listed environment and no cell hides the blank variant of a key behind another one.
-/

set_option autoImplicit false

namespace Himitsu.Consistency

open JsString Sorting

variable {engine : Engine} {projectId : JsString}

def ConsistencySecretValue.row (secret : ConsistencySecretValue) : SecretRow :=
  ⟨secret.secretId, secret.environmentId, secret.key⟩

/-- A finding reports the secret as blank. -/
def ReportedEmpty (findings : List ConsistencyFinding) (secret : ConsistencySecretValue) : Prop :=
  ∃ finding ∈ findings, finding.type = .emptyValue ∧ finding.key = secret.key ∧
    finding.environmentIds = [secret.environmentId]

/-- A finding reports a key of the row as missing in the environment. -/
def ReportedMissing (engine : Engine) (findings : List ConsistencyFinding)
    (row : ConsistencyMatrixRow) (environmentId : JsString) : Prop :=
  ∃ finding ∈ findings, finding.type = .missingKey ∧
    (∃ key ∈ row.keys, finding.key = engine.toUpperCase key) ∧
    environmentId ∈ finding.missingEnvironmentIds

/-- Matrix and findings of one report say the same. -/
def Agrees (engine : Engine) (projectId : JsString) (c : Configuration) (states : List StateRow) :
    Prop :=
  ∀ row ∈ (c.report engine projectId states).rows, ∀ cell ∈ row.cells,
    (cell.state = .missing ↔
      ReportedMissing engine (c.report engine projectId states).findings row cell.environmentId) ∧
    (cell.state = .empty ↔ ∃ secret ∈ c.secrets, cell.secretId = some secret.secretId ∧
      ReportedEmpty (c.report engine projectId states).findings secret)

/-! ## The findings of a report -/

theorem mem_findings {c : Configuration} {states : List StateRow} {finding : ConsistencyFinding} :
    finding ∈ (c.report engine projectId states).findings ↔
      ∃ base ∈ c.analyze engine projectId, mergeState states base = finding :=
  List.mem_map

theorem mergeState_toBaseFinding (states : List StateRow) (finding : BaseFinding) :
    (mergeState states finding).toBaseFinding = finding := by
  unfold mergeState
  split <;> rfl

theorem mem_analyze_emptyValue {c : Configuration} {finding : BaseFinding} :
    finding ∈ c.analyze engine projectId ∧ finding.type = .emptyValue ↔
      ∃ secret, c.Active secret ∧ trim secret.value = [] ∧
        finding = baseFinding engine projectId .emptyValue .error secret.key [secret.key]
          [secret.environmentId] [] := by
  constructor
  · rintro ⟨hmem, htype⟩
    obtain ⟨normalized, -, hfinding⟩ | ⟨secret, hactive, hfinding⟩ := c.mem_analyze.mp hmem
    · obtain ⟨-, rfl⟩ | ⟨-, rfl⟩ | ⟨key, -, -, rfl⟩ := mem_findingsOf.mp hfinding <;> cases htype
    · obtain ⟨hblank, rfl⟩ | ⟨-, -, rfl⟩ := mem_valueFindings.mp hfinding
      · exact ⟨secret, hactive, hblank, rfl⟩
      · cases htype
  · rintro ⟨secret, hactive, hblank, rfl⟩
    exact ⟨c.mem_analyze.mpr (.inr ⟨secret, hactive, mem_valueFindings.mpr (.inl ⟨hblank, rfl⟩)⟩),
      rfl⟩

theorem reportedEmpty_iff {c : Configuration} {states : List StateRow}
    {secret : ConsistencySecretValue} :
    ReportedEmpty (c.report engine projectId states).findings secret ↔
      ∃ blank, c.Active blank ∧ trim blank.value = [] ∧ blank.key = secret.key ∧
        blank.environmentId = secret.environmentId := by
  constructor
  · rintro ⟨finding, hfinding, htype, hkey, hids⟩
    obtain ⟨base, hbase, rfl⟩ := mem_findings.mp hfinding
    rw [mergeState_toBaseFinding] at htype hkey hids
    obtain ⟨blank, hactive, hblank, rfl⟩ := mem_analyze_emptyValue.mp ⟨hbase, htype⟩
    exact ⟨blank, hactive, hblank, hkey, (List.cons.inj hids).1⟩
  · rintro ⟨blank, hactive, hblank, hkey, hid⟩
    obtain ⟨hmem, htype⟩ := mem_analyze_emptyValue.mpr ⟨blank, hactive, hblank, rfl⟩
    refine ⟨mergeState states _, mem_findings.mpr ⟨_, hmem, rfl⟩, ?_⟩
    rw [mergeState_toBaseFinding]
    exact ⟨htype, hkey, by rw [← hid]; rfl⟩

theorem mem_emptyCells {c : Configuration} {states : List StateRow} {text : JsString} :
    text ∈ emptyCells engine (c.report engine projectId states).findings ↔
      ∃ blank, c.Active blank ∧ trim blank.value = [] ∧
        text = cellText engine blank.key blank.environmentId := by
  unfold emptyCells
  rw [List.mem_flatMap]
  constructor
  · rintro ⟨finding, hfinding, htext⟩
    obtain ⟨hfinding, htype⟩ := List.mem_filter.mp hfinding
    rw [decide_eq_true_eq] at htype
    obtain ⟨base, hbase, rfl⟩ := mem_findings.mp hfinding
    rw [mergeState_toBaseFinding] at htype htext
    obtain ⟨blank, hactive, hblank, rfl⟩ := mem_analyze_emptyValue.mp ⟨hbase, htype⟩
    exact ⟨blank, hactive, hblank, List.mem_singleton.mp htext⟩
  · rintro ⟨blank, hactive, hblank, rfl⟩
    obtain ⟨hmem, htype⟩ := mem_analyze_emptyValue.mpr ⟨blank, hactive, hblank, rfl⟩
    refine ⟨mergeState states _, List.mem_filter.mpr ⟨mem_findings.mpr ⟨_, hmem, rfl⟩, ?_⟩, ?_⟩
    · rw [mergeState_toBaseFinding, decide_eq_true_eq]
      exact htype
    · rw [mergeState_toBaseFinding]
      exact List.mem_singleton_self _

theorem reportedMissing_iff {c : Configuration} {states : List StateRow}
    {row : ConsistencyMatrixRow} {environmentId : JsString} :
    ReportedMissing engine (c.report engine projectId states).findings row environmentId ↔
      ∃ key ∈ row.keys, (∃ id, c.Holds engine (engine.toUpperCase key) id) ∧
        c.Listed environmentId ∧ ¬ c.Holds engine (engine.toUpperCase key) environmentId := by
  constructor
  · rintro ⟨finding, hfinding, htype, ⟨key, hkey, hupper⟩, hmissing⟩
    obtain ⟨base, hbase, rfl⟩ := mem_findings.mp hfinding
    rw [mergeState_toBaseFinding] at htype hupper hmissing
    have hmisses := misses_of_mem hbase htype
    obtain ⟨-, -, hlisting⟩ := missing_key_lists ((shape_of_mem hbase).missing_key htype)
    rw [hupper] at hmisses hlisting
    obtain ⟨spelling, hspelled⟩ := hmisses.1
    exact ⟨key, hkey, c.holds_of_spelled engine _ hspelled, (hlisting.mem _).mp hmissing⟩
  · rintro ⟨key, hkey, ⟨id, secret, hactive, -, hnormalized⟩, hmissing⟩
    have hmem := @mem_of_misses engine projectId c _
      ⟨⟨secret.key, secret, hactive, rfl, hnormalized⟩, environmentId, hmissing⟩
    refine ⟨mergeState states _, mem_findings.mpr ⟨_, hmem, rfl⟩, ?_⟩
    rw [mergeState_toBaseFinding]
    refine ⟨rfl, ⟨key, hkey, rfl⟩, ?_⟩
    have hlisting := c.listing_missing engine (engine.toUpperCase key)
    exact (List.mem_insertionSort _).mpr ((hlisting.mem _).mpr hmissing)

/-! ## The rows -/

/-- The rows of the secrets of one key. -/
def Configuration.rowsOf (c : Configuration) (engine : Engine) (normalized : JsString) :
    List SecretRow :=
  c.secretRows.filter (engine.toUpperCase ·.key = normalized)

theorem mem_rowsOf {c : Configuration} {normalized : JsString} {row : SecretRow} :
    row ∈ c.rowsOf engine normalized ↔
      ∃ secret ∈ c.secrets, engine.toUpperCase secret.key = normalized ∧ secret.row = row := by
  unfold Configuration.rowsOf Configuration.secretRows
  rw [List.mem_filter, List.mem_map, decide_eq_true_eq]
  constructor
  · rintro ⟨⟨secret, hsecret, rfl⟩, hnormalized⟩
    exact ⟨secret, hsecret, hnormalized, rfl⟩
  · rintro ⟨secret, hsecret, hnormalized, rfl⟩
    exact ⟨⟨secret, hsecret, rfl⟩, hnormalized⟩

theorem mem_rows {c : Configuration} {states : List StateRow} {row : ConsistencyMatrixRow} :
    row ∈ (c.report engine projectId states).rows ↔
      ∃ secret ∈ c.secrets, row = matrixRow engine (c.environments.map (·.id))
        (emptyCells engine (c.report engine projectId states).findings)
        (engine.toUpperCase secret.key, c.rowsOf engine (engine.toUpperCase secret.key)) := by
  have hrows : (c.report engine projectId states).rows =
      buildMatrix engine c.environments c.secretRows (c.report engine projectId states).findings :=
    rfl
  rw [hrows, buildMatrix, List.mem_map]
  constructor
  · rintro ⟨⟨normalized, rows⟩, hentry, rfl⟩
    obtain ⟨rfl, hne⟩ := mem_groupBy.mp (Comparator.mem_sort.mp hentry)
    obtain ⟨row, hrow⟩ := List.exists_mem_of_ne_nil _ hne
    obtain ⟨secret, hsecret, rfl, -⟩ := mem_rowsOf.mp hrow
    exact ⟨secret, hsecret, rfl⟩
  · rintro ⟨secret, hsecret, rfl⟩
    refine ⟨_, Comparator.mem_sort.mpr (mem_groupBy.mpr ⟨rfl, ?_⟩), rfl⟩
    exact List.ne_nil_of_mem (mem_rowsOf.mpr ⟨secret, hsecret, rfl, rfl⟩)

theorem mem_keys_matrixRow {c : Configuration} {environmentIds empty : List JsString}
    {normalized key : JsString} :
    key ∈ (matrixRow engine environmentIds empty (normalized, c.rowsOf engine normalized)).keys ↔
      ∃ secret ∈ c.secrets, engine.toUpperCase secret.key = normalized ∧ secret.key = key := by
  unfold matrixRow
  rw [(Configuration.listing_sortedSet _).mem, List.mem_map]
  constructor
  · rintro ⟨row, hrow, rfl⟩
    obtain ⟨secret, hsecret, hnormalized, rfl⟩ := mem_rowsOf.mp hrow
    exact ⟨secret, hsecret, hnormalized, rfl⟩
  · rintro ⟨secret, hsecret, hnormalized, rfl⟩
    exact ⟨secret.row, mem_rowsOf.mpr ⟨secret, hsecret, hnormalized, rfl⟩, rfl⟩

/-! ## The cells -/

/-- The secret is first, by the collation, among the spellings of its key in its environment. -/
def ComesFirst (engine : Engine) (c : Configuration) (secret : ConsistencySecretValue) : Prop :=
  (engine.localeCompare.on SecretRow.key).First secret.row
    ((c.rowsOf engine (engine.toUpperCase secret.key)).filter
      (·.environmentId = secret.environmentId))

/-- A blank secret has the cell text of this one, but none has its key and environment. -/
def HidesBlank (engine : Engine) (c : Configuration) (secret : ConsistencySecretValue) : Prop :=
  (∃ blank, c.Active blank ∧ trim blank.value = [] ∧
    cellText engine secret.key secret.environmentId =
      cellText engine blank.key blank.environmentId) ∧
  ¬ ∃ blank, c.Active blank ∧ trim blank.value = [] ∧ blank.key = secret.key ∧
    blank.environmentId = secret.environmentId

theorem cellSecret_eq_none {c : Configuration} {normalized id : JsString} (h : c.Listed id) :
    cellSecret engine (c.rowsOf engine normalized) id = none ↔ ¬ c.Holds engine normalized id := by
  unfold cellSecret
  rw [List.head?_eq_none_iff, ← List.length_eq_zero_iff, (Comparator.sort_perm _ _).length_eq,
    List.length_eq_zero_iff, List.filter_eq_nil_iff]
  constructor
  · rintro hnone ⟨secret, ⟨hsecret, -⟩, rfl, hnormalized⟩
    exact hnone secret.row (mem_rowsOf.mpr ⟨secret, hsecret, hnormalized, rfl⟩) (decide_eq_true rfl)
  · intro hholds row hrow hid
    obtain ⟨secret, hsecret, hnormalized, rfl⟩ := mem_rowsOf.mp hrow
    obtain rfl := of_decide_eq_true hid
    exact hholds ⟨secret, ⟨hsecret, h⟩, rfl, hnormalized⟩

/-- The secret of a cell comes first. -/
theorem cellSecret_eq_some {c : Configuration} {normalized id : JsString} {row : SecretRow}
    (h : cellSecret engine (c.rowsOf engine normalized) id = some row) :
    ∃ secret ∈ c.secrets, secret.row = row ∧ engine.toUpperCase secret.key = normalized ∧
      secret.environmentId = id ∧ ComesFirst engine c secret := by
  have hmem := List.mem_of_head? h
  rw [Comparator.mem_sort, List.mem_filter, decide_eq_true_eq] at hmem
  obtain ⟨secret, hsecret, rfl, rfl⟩ := mem_rowsOf.mp hmem.1
  obtain rfl := hmem.2
  exact ⟨secret, hsecret, rfl, rfl, rfl, Comparator.head?_sort.mp h⟩

theorem cellSecret_of_comesFirst {c : Configuration} {secret : ConsistencySecretValue}
    (h : ComesFirst engine c secret) :
    cellSecret engine (c.rowsOf engine (engine.toUpperCase secret.key)) secret.environmentId =
      some secret.row :=
  Comparator.head?_sort.mpr h

theorem matrixCell_missing {empty : List JsString} {secrets : List SecretRow} {id : JsString} :
    (matrixCell engine empty secrets id).state = .missing ↔ cellSecret engine secrets id = none := by
  unfold matrixCell
  cases cellSecret engine secrets id with
  | none => simp
  | some secret =>
    simp only [reduceCtorEq, iff_false]
    split <;> simp

theorem matrixCell_environmentId (empty : List JsString) (secrets : List SecretRow)
    (id : JsString) : (matrixCell engine empty secrets id).environmentId = id := by
  unfold matrixCell
  split <;> rfl

/-- A cell agrees on "missing" where some listed environment has the key. -/
theorem missing_cell_iff {c : Configuration} {states : List StateRow} {empty : List JsString}
    {normalized id : JsString} (hrow : ∃ secret ∈ c.secrets,
      engine.toUpperCase secret.key = normalized) (hid : c.Listed id) :
    ((matrixCell engine empty (c.rowsOf engine normalized) id).state = .missing ↔
      ReportedMissing engine (c.report engine projectId states).findings
        (matrixRow engine (c.environments.map (·.id)) empty
          (normalized, c.rowsOf engine normalized)) id) ↔
      ∃ id, c.Holds engine normalized id := by
  have hreported : ReportedMissing engine (c.report engine projectId states).findings
      (matrixRow engine (c.environments.map (·.id)) empty
        (normalized, c.rowsOf engine normalized)) id ↔
      (∃ id, c.Holds engine normalized id) ∧ ¬ c.Holds engine normalized id := by
    rw [reportedMissing_iff]
    constructor
    · rintro ⟨key, hkey, hholds, -, hmissing⟩
      obtain ⟨secret, -, hnormalized, rfl⟩ := mem_keys_matrixRow.mp hkey
      rw [hnormalized] at hholds hmissing
      exact ⟨hholds, hmissing⟩
    · rintro ⟨hholds, hmissing⟩
      obtain ⟨secret, hsecret, rfl⟩ := hrow
      exact ⟨secret.key, mem_keys_matrixRow.mpr ⟨secret, hsecret, rfl, rfl⟩, hholds, hid, hmissing⟩
  rw [matrixCell_missing, cellSecret_eq_none hid, hreported]
  constructor
  · intro h
    by_cases hholds : c.Holds engine normalized id
    · exact ⟨id, hholds⟩
    · exact (h.mp hholds).1
  · intro h
    exact ⟨fun hmissing => ⟨h, hmissing⟩, fun hmissing => hmissing.2⟩

/-- A cell agrees on "empty" where its secret does not stand for another one that is blank. -/
theorem empty_cell_iff {c : Configuration} {states : List StateRow}
    (hids : (c.secrets.map (·.secretId)).Nodup) {secret : ConsistencySecretValue}
    (hsecret : secret ∈ c.secrets) {secrets : List SecretRow} {id : JsString}
    (hcell : cellSecret engine secrets id = some secret.row) (hid : secret.environmentId = id) :
    ((matrixCell engine (emptyCells engine (c.report engine projectId states).findings) secrets
        id).state = .empty ↔
      ∃ named ∈ c.secrets, (matrixCell engine
          (emptyCells engine (c.report engine projectId states).findings) secrets id).secretId =
        some named.secretId ∧
        ReportedEmpty (c.report engine projectId states).findings named) ↔
      ¬ HidesBlank engine c secret := by
  subst hid
  have hstate : (matrixCell engine (emptyCells engine (c.report engine projectId states).findings)
      secrets secret.environmentId).state = .empty ↔ ∃ blank, c.Active blank ∧
        trim blank.value = [] ∧ cellText engine secret.key secret.environmentId =
          cellText engine blank.key blank.environmentId := by
    rw [← @mem_emptyCells engine projectId c states, ← List.contains_iff_mem]
    simp only [matrixCell, hcell]
    show (if _ then CellState.empty else CellState.present) = _ ↔ _
    split <;> simp_all [ConsistencySecretValue.row]
  have hnamed : (∃ named ∈ c.secrets, (matrixCell engine
      (emptyCells engine (c.report engine projectId states).findings) secrets
        secret.environmentId).secretId = some named.secretId ∧
      ReportedEmpty (c.report engine projectId states).findings named) ↔
      ∃ blank, c.Active blank ∧ trim blank.value = [] ∧ blank.key = secret.key ∧
        blank.environmentId = secret.environmentId := by
    simp only [matrixCell, hcell]
    rw [← @reportedEmpty_iff engine projectId c states]
    constructor
    · rintro ⟨named, hmem, heq, hreported⟩
      rw [← List.inj_on_of_nodup_map hids hsecret hmem (Option.some.inj heq)] at hreported
      exact hreported
    · exact fun hreported => ⟨secret, hsecret, rfl, hreported⟩
  rw [hstate, hnamed]
  unfold HidesBlank
  rw [not_and, not_not]
  constructor
  · exact Iff.mp
  · refine fun h => ⟨h, ?_⟩
    rintro ⟨blank, hactive, hblank, hkey, hid⟩
    exact ⟨blank, hactive, hblank, by rw [hkey, hid]⟩

/-! ## The whole matrix -/

/-- **Matrix and findings agree exactly where** every key of the secrets is in a listed environment
(or there is no environment) and no secret that a cell stands for hides a blank one. -/
theorem matrix_agrees_iff (engine : Engine) (projectId : JsString) (c : Configuration)
    (states : List StateRow) (hids : (c.secrets.map (·.secretId)).Nodup) :
    Agrees engine projectId c states ↔
      (c.environments = [] ∨
        ∀ secret ∈ c.secrets, ∃ id, c.Holds engine (engine.toUpperCase secret.key) id) ∧
      ∀ secret, c.Active secret → ComesFirst engine c secret → ¬ HidesBlank engine c secret := by
  constructor
  · intro hagrees
    refine ⟨?_, fun secret hactive hfirst => ?_⟩
    · by_cases hnil : c.environments = []
      · exact .inl hnil
      · obtain ⟨environment, henvironment⟩ := List.exists_mem_of_ne_nil _ hnil
        refine .inr fun secret hsecret => ?_
        have hcell := (hagrees _ (mem_rows.mpr ⟨secret, hsecret, rfl⟩) _
          (List.mem_map_of_mem (List.mem_map_of_mem henvironment))).1
        rw [matrixCell_environmentId] at hcell
        exact (missing_cell_iff ⟨secret, hsecret, rfl⟩ ⟨environment, henvironment, rfl⟩).mp hcell
    · obtain ⟨environment, henvironment, hid⟩ := hactive.2
      have hcell := (hagrees _ (mem_rows.mpr ⟨secret, hactive.1, rfl⟩) _
        (List.mem_map_of_mem (List.mem_map_of_mem henvironment))).2
      rw [hid] at hcell
      exact (empty_cell_iff hids hactive.1 (cellSecret_of_comesFirst hfirst) rfl).mp hcell
  · rintro ⟨hholds, hhides⟩ row hrow cell hcell
    obtain ⟨secret, hsecret, rfl⟩ := mem_rows.mp hrow
    obtain ⟨id, hid, rfl⟩ := List.mem_map.mp hcell
    obtain ⟨environment, henvironment, rfl⟩ := List.mem_map.mp hid
    have hlisted : c.Listed environment.id := ⟨environment, henvironment, rfl⟩
    constructor
    · rw [matrixCell_environmentId]
      refine (missing_cell_iff ⟨secret, hsecret, rfl⟩ hlisted).mpr ?_
      obtain hnil | hholds := hholds
      · rw [hnil] at henvironment
        cases henvironment
      · exact hholds secret hsecret
    · cases hfirst : cellSecret engine (c.rowsOf engine (engine.toUpperCase secret.key))
          environment.id with
      | none => simp [matrixCell, hfirst]
      | some first =>
        obtain ⟨named, hnamed, rfl, -, hid, hcomes⟩ := cellSecret_eq_some hfirst
        exact (empty_cell_iff hids hnamed hfirst hid).mpr
          (hhides named ⟨hnamed, hid ▸ hlisted⟩ hcomes)

theorem matrix_agrees_iff_twoBlanks :
    (twoBlanks.secrets.map (·.secretId)).Nodup ∧
      (Agrees (asciiEngine .ofLE) (ofAscii "p") twoBlanks [] ↔
        (twoBlanks.environments = [] ∨ ∀ secret ∈ twoBlanks.secrets, ∃ id, twoBlanks.Holds
          (asciiEngine .ofLE) ((asciiEngine .ofLE).toUpperCase secret.key) id) ∧
        ∀ secret, twoBlanks.Active secret → ComesFirst (asciiEngine .ofLE) twoBlanks secret →
          ¬ HidesBlank (asciiEngine .ofLE) twoBlanks secret) := by
  have hids : (twoBlanks.secrets.map (·.secretId)).Nodup := by
    decide +kernel
  exact ⟨hids, matrix_agrees_iff (asciiEngine .ofLE) (ofAscii "p") twoBlanks [] hids⟩

/-- The letters of a text with their cases exchanged. -/
def swapCase (text : JsString) : JsString :=
  text.map fun c => if isUpper c then c + 0x20 else if 0x61 ≤ c ∧ c ≤ 0x7A then c - 0x20 else c

/-- `localeCompare` on identifiers: by the letters, and of two spellings the one in small letters
first. -/
def smallFirst (codeUnits : Comparator JsString) : Comparator JsString :=
  (codeUnits.on (asciiEngine codeUnits).toUpperCase).thenBy (codeUnits.on swapCase)

/-- Two spellings of one key in one environment; the one that comes first has a value. -/
def twoSpellings : Configuration where
  environments := [environmentOf "dev"]
  secrets := [secretOf "dev" "DB_URL" "", secretOf "dev" "db_url" "postgres"]

/-- The cell names the secret that has a value, and calls it empty. -/
theorem blank_variant_empties_cell :
    (smallFirst .ofLE).compare (ofAscii "db_url") (ofAscii "DB_URL") = -1 ∧
      ¬ Agrees (asciiEngine (smallFirst .ofLE)) (ofAscii "p") twoSpellings [] ∧
      (twoSpellings.report (asciiEngine (smallFirst .ofLE)) (ofAscii "p") []).rows.map (·.cells) =
        [[⟨ofAscii "dev", .empty, some (ofAscii "devdb_url")⟩]] := by
  have hrows : (twoSpellings.report (asciiEngine (smallFirst .ofLE)) (ofAscii "p") []).rows.map
      (·.cells) = [[⟨ofAscii "dev", .empty, some (ofAscii "devdb_url")⟩]] := by
    decide +kernel
  refine ⟨by decide +kernel, fun hagrees => ?_, hrows⟩
  obtain ⟨row, hrow, hcells⟩ := List.map_eq_singleton_iff.mp hrows
  have hcell := (hagrees row (by simp [hrow]) ⟨ofAscii "dev", .empty, some (ofAscii "devdb_url")⟩
    (by simp [hcells])).2
  obtain ⟨named, hnamed, hid, hreported⟩ := hcell.mp rfl
  rw [reportedEmpty_iff] at hreported
  obtain ⟨blank, hactive, hblank, hkey, -⟩ := hreported
  have hblanks : ∀ secret ∈ twoSpellings.secrets, trim secret.value = [] →
      secret.key = ofAscii "DB_URL" := by
    decide +kernel
  have hnames : ∀ secret ∈ twoSpellings.secrets,
      some (ofAscii "devdb_url") = some secret.secretId → secret.key = ofAscii "db_url" := by
    decide +kernel
  have hsame := (hblanks blank hactive.1 hblank).symm.trans (hkey.trans (hnames named hnamed hid))
  exact absurd hsame (by decide)

end Himitsu.Consistency
