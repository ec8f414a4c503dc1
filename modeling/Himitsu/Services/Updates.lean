import Himitsu.Services.Transaction

/-!
# Writes of many rows

An `UPDATE` writes its rows one by one; on a table whose ids are distinct it changes exactly the
rows of its condition.

* `applyAll_insertEnvironment`, … — the tables after rows were inserted one by one.
* `ensures_updateEnvironments`, `ensures_updateProjects`, `ensures_updateSecrets` — the tables after
  the statements; an update of secrets raises the configuration versions as well.
-/

set_option autoImplicit false

namespace Himitsu.Services

open Crypto Database Transactions

section

variable {α κ : Type} [DecidableEq κ] {key : α → κ} {f : α → α}

/-- Updates of distinct ids one after another. -/
theorem foldl_updateWhere (hkey : ∀ row, key (f row) = key row) {ids : List κ} (hids : ids.Nodup)
    (rows : List α) :
    ids.foldl (fun rows id => updateWhere (key · = id) f rows) rows =
      updateWhere (fun row => ids.contains (key row)) f rows := by
  induction ids generalizing rows with
  | nil => simp [updateWhere]
  | cons id ids ih =>
    rw [List.nodup_cons] at hids
    rw [List.foldl_cons, ih hids.2, updateWhere, updateWhere, updateWhere, List.map_map]
    refine List.map_congr_left fun row _ => ?_
    simp only [Function.comp, List.contains_cons]
    by_cases hid : key row = id
    · simp [hid, hkey, hids.1]
    · simp [hid]

theorem foldl_updateWhere_filter (hkey : ∀ row, key (f row) = key row) {rows : List α}
    (hrows : (rows.map key).Nodup) (p : α → Bool) :
    ((rows.filter p).map key).foldl (fun rows id => updateWhere (key · = id) f rows) rows =
      updateWhere p f rows := by
  rw [foldl_updateWhere hkey (hrows.sublist (List.filter_sublist.map key)), updateWhere,
    updateWhere]
  refine List.map_congr_left fun row hrow => ?_
  have hiff : ((rows.filter p).map key).contains (key row) = p row := by
    rw [Bool.eq_iff_iff, List.contains_iff_mem, List.mem_map]
    constructor
    · rintro ⟨other, hother, heq⟩
      rw [List.mem_filter] at hother
      rw [← List.inj_on_of_nodup_map hrows hother.1 hrow heq]
      exact hother.2
    · exact fun hp => ⟨row, List.mem_filter.mpr ⟨hrow, hp⟩, rfl⟩
  rw [hiff]

end

variable {wrapper : KeyWrapper} {db : Db wrapper}

/-! ## Inserted rows -/

theorem applyAll_insertEnvironment (rows : List Environment) (db : Db wrapper) :
    applyAll apply (rows.map .insertEnvironment) db =
      { db with environments := db.environments ++ rows } := by
  induction rows generalizing db with
  | nil => simp
  | cons row rows ih =>
    rw [List.map_cons, applyAll_cons, ih, apply]
    simp only [List.append_assoc, List.singleton_append]

theorem applyAll_insertProjectTag (rows : List ProjectTag) (db : Db wrapper) :
    applyAll apply (rows.map .insertProjectTag) db =
      { db with projectTags := db.projectTags ++ rows } := by
  induction rows generalizing db with
  | nil => simp
  | cons row rows ih =>
    rw [List.map_cons, applyAll_cons, ih, apply]
    simp only [List.append_assoc, List.singleton_append]

/-! ## Updated rows -/

theorem applyAll_updateEnvironment (set : EnvironmentSet) (ids : List Uuid) (db : Db wrapper) :
    applyAll apply (ids.map fun id => .updateEnvironment id set) db =
      { db with
        environments := ids.foldl (fun rows id => updateWhere (·.id = id) set.on rows)
          db.environments } := by
  induction ids generalizing db with
  | nil => rfl
  | cons id ids ih => rw [List.map_cons, applyAll_cons, ih, List.foldl_cons, apply]

theorem applyAll_updateProject (set : ProjectSet) (ids : List Uuid) (db : Db wrapper) :
    applyAll apply (ids.map fun id => .updateProject id set) db =
      { db with
        projects := ids.foldl (fun rows id => updateWhere (·.id = id) set.on rows)
          db.projects } := by
  induction ids generalizing db with
  | nil => rfl
  | cons id ids ih => rw [List.map_cons, applyAll_cons, ih, List.foldl_cons, apply]

/-- Environments with other configuration versions. -/
def raiseVersions (raise' : Environment → Nat) (rows : List Environment) : List Environment :=
  rows.map fun row => { row with configVersion := row.configVersion + raise' row }

theorem applyAll_updateSecret (set : SecretSet) (ids : List Uuid) (db : Db wrapper) :
    ∃ raise', applyAll apply (ids.map fun id => .updateSecret id set) db =
      { db with
        secrets := ids.foldl (fun rows id => updateWhere (·.id = id) set.on rows) db.secrets
        environments := raiseVersions raise' db.environments } := by
  induction ids generalizing db with
  | nil => exact ⟨fun _ => 0, by simp [raiseVersions]⟩
  | cons id ids ih =>
    obtain ⟨more, hmore⟩ := ih (apply (.updateSecret id set) db)
    refine ⟨fun row => (bumpEnvironment (bumped db id set) row).configVersion - row.configVersion +
      more (bumpEnvironment (bumped db id set) row), ?_⟩
    rw [List.map_cons, applyAll_cons, hmore]
    simp only [apply, raiseVersions, List.map_map, List.foldl_cons]
    congr 1
    refine List.map_congr_left fun row _ => ?_
    simp [Function.comp, bumpEnvironment, Nat.add_assoc]

theorem ensures_updateEnvironments (hids : (db.environments.map (·.id)).Nodup)
    {p : Environment → Bool} {set : EnvironmentSet} {Q : Unit → Db wrapper → Prop} :
    Ensures apply (updateEnvironments p set) db Q ↔
      Q () { db with environments := updateWhere p set.on db.environments } := by
  have hfold := foldl_updateWhere_filter (f := set.on) (fun _ => rfl) hids p
  have hall := applyAll_updateEnvironment set ((db.environments.filter p).map (·.id)) db
  simp only [hfold, List.map_map, Function.comp_def] at hall
  rw [updateEnvironments, ensures_execute]
  exact ⟨fun h => hall ▸ h () rfl, fun h _ _ => hall ▸ h⟩

theorem ensures_updateProjects (hids : (db.projects.map (·.id)).Nodup)
    {p : Project → Bool} {set : ProjectSet} {Q : Unit → Db wrapper → Prop} :
    Ensures apply (updateProjects p set) db Q ↔
      Q () { db with projects := updateWhere p set.on db.projects } := by
  have hfold := foldl_updateWhere_filter (f := set.on) (fun _ => rfl) hids p
  have hall := applyAll_updateProject set ((db.projects.filter p).map (·.id)) db
  simp only [hfold, List.map_map, Function.comp_def] at hall
  rw [updateProjects, ensures_execute]
  exact ⟨fun h => hall ▸ h () rfl, fun h _ _ => hall ▸ h⟩

theorem ensures_updateSecrets (hids : (db.secrets.map (·.id)).Nodup) {p : Secret → Bool}
    {set : SecretSet} {Q : Unit → Db wrapper → Prop}
    (h : ∀ raise', Q () { db with
      secrets := updateWhere p set.on db.secrets
      environments := raiseVersions raise' db.environments }) :
    Ensures apply (updateSecrets p set) db Q := by
  have hfold := foldl_updateWhere_filter (f := set.on) (fun _ => rfl) hids p
  obtain ⟨raise', hall⟩ := applyAll_updateSecret set ((db.secrets.filter p).map (·.id)) db
  simp only [hfold, List.map_map, Function.comp_def] at hall
  rw [updateSecrets, ensures_execute]
  intro _ _
  exact hall ▸ h raise'

end Himitsu.Services
