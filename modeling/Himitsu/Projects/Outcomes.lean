import Himitsu.Library.Except
import Himitsu.Projects.Service
import Himitsu.Services.Outcomes

/-!
# What the project service stores

* `Reads` — an active row, and the project that a user who may read it is shown.
* `Wrote` — what a creation or a change stored in the row that it returns.

Principal results: `Reads.run_getById` — a lookup by the id shows the project;
`ensures_create`, `ensures_update` — what a call that returns stored, which can be read at once.
-/

set_option autoImplicit false

namespace Himitsu.Projects

open JsString Crypto Database Services Transactions

variable {wrapper : KeyWrapper} {platform : Platform} {userId : Uuid} {db : Db wrapper}

/-! ## Checks -/

theorem attempt_ok_iff {α ε : Type} {wrap : ε → ServiceError} {result : Except ε α} {a : α}
    {db' : Db wrapper} :
    run apply (attempt wrap result : TransactionM wrapper α) db = .ok (a, db') ↔
      result = .ok a ∧ db' = db := by
  unfold attempt Prog.ofExcept
  cases result with
  | error e => simp [Except.mapError]
  | ok value => simp [Except.mapError, eq_comm]

theorem projectName_eq {name checked : JsString} (h : projectName name = .ok checked) :
    checked = trim name := by
  unfold projectName at h
  simp only at h
  split at h
  · cases h
  · cases h
    rfl

theorem normalizeProjectSlug_iff {slug normalized : JsString} :
    normalizeProjectSlug slug = .ok normalized ↔ normalizeSlug slug = some normalized := by
  unfold normalizeProjectSlug
  cases normalizeSlug slug <;> simp

theorem projectDescription_eq {description checked : Option JsString}
    (h : projectDescription description = .ok checked) :
    checked.map toWellFormed = storedForm description := by
  unfold projectDescription at h
  cases description with
  | none =>
    cases h
    rfl
  | some description =>
    simp only at h
    simp only [storedForm, Option.bind_some]
    split at h
    · rename_i hnil
      cases h
      rw [if_pos hnil]
      rfl
    · rename_i hnil
      split at h
      · cases h
      · cases h
        rw [if_neg hnil]
        rfl

/-- The default environments that a check accepts. -/
theorem validateDefaultEnvironments_eq {values : Option (List JsString)} {names : List JsString}
    (h : validateDefaultEnvironments values = .ok names) :
    names ≠ [] ∧ List.Forall₂ (fun value name => normalizeSlug value = some name)
      (values.getD DEFAULT_ENVIRONMENTS) names := by
  unfold validateDefaultEnvironments at h
  simp only at h
  split at h
  · cases h
  · rename_i hlength
    obtain ⟨normalized, hmap, h⟩ := Except.bind_eq_ok_iff.mp h
    split at h
    · cases h
    cases h
    have hforall := (Except.mapM_eq_ok_iff.mp hmap).imp fun _ _ =>
      normalizeProjectSlug_iff.mp
    refine ⟨?_, hforall⟩
    rintro rfl
    have hlen := hforall.length_eq
    rw [List.length_nil] at hlen
    omega

theorem fromRow_eq {row project : Project} (h : fromRow row = .ok project) :
    ∃ names, names ≠ [] ∧ project = { row with defaultEnvironments := names } := by
  obtain ⟨names, hnames, h⟩ := Except.bind_eq_ok_iff.mp h
  cases h
  exact ⟨names, (validateDefaultEnvironments_eq hnames).1, rfl⟩

/-! ## Lookups -/

theorem ensures_readRow {p : Database.Project → Bool} {Q : Project → Db wrapper → Prop}
    (h : ∀ row project, db.projects.find? p = some row →
      allowed db userId (some row.id) false .projectRead = true →
      fromRow (selectProject platform db row) = .ok project → Q project db) :
    Ensures apply (readRow platform userId p) db Q := by
  unfold readRow
  rw [ensures_bind, ensures_select]
  cases hfind : db.projects.find? p with
  | none => exact ensures_fail
  | some row =>
    show Ensures apply (authorizeUser _ _ _ _ >>= _) db Q
    rw [ensures_bind]
    exact ensures_authorizeUser fun hallowed =>
      ensures_attempt.mpr fun project hproject => h row project hfind hallowed hproject

/-- An active row, and the project that is read from it. -/
structure Reads (platform : Platform) (userId : Uuid) (db : Db wrapper) (row : Database.Project)
    (project : Project) : Prop where
  found : (db.projects.find? fun other => other.id = row.id && other.deletedAt.isNone) = some row
  allowed : allowed db userId (some row.id) false .projectRead = true
  shown : fromRow (selectProject platform db row) = .ok project

/-- **A lookup by the id shows the project.** -/
theorem Reads.run_getById {row : Database.Project} {project : Project}
    (h : Reads platform userId db row project) :
    run apply (getById platform userId row.id false) db = .ok (project, db) := by
  unfold getById readRow
  simp only [Prog.select, Prog.stmt_bind, run_stmt, Prog.done_ok_bind, applyAll_nil,
    Bool.false_or, h.found, Option.map_some, selectProject, run_bind,
    run_authorizeUser_of_allowed h.allowed]
  exact attempt_ok_iff.mpr ⟨h.shown, rfl⟩

theorem Reads.recorded {row : Database.Project} {project : Project}
    (h : Reads platform userId db row project) (events : List AuditEvent) :
    Reads platform userId { db with auditEvents := events } row project where
  found := h.found
  allowed := (allowed_congr rfl rfl userId (some row.id) false .projectRead).trans h.allowed
  shown := h.shown

theorem Reads.active {row : Database.Project} {project : Project}
    (h : Reads platform userId db row project) : row.deletedAt = none := by
  have hmatch := List.find?_some h.found
  simp only [Bool.and_eq_true, Option.isNone_iff_eq_none] at hmatch
  exact hmatch.2

theorem ensures_getById {projectId : Uuid} {Q : Project → Db wrapper → Prop}
    (h : ∀ row project, Reads platform userId db row project → row.id = projectId →
      Q project db) :
    Ensures apply (getById platform userId projectId false) db Q := by
  refine ensures_readRow fun row project hfind hallowed hshown => ?_
  have hmatch := List.find?_some hfind
  simp only [Bool.false_or, Bool.and_eq_true, decide_eq_true_eq] at hmatch
  obtain ⟨rfl, -⟩ := hmatch
  exact h row project ⟨by simpa using hfind, hallowed, hshown⟩ rfl

/-! ## Tags -/

/-- The ids of the tags that a project is given. -/
def uniqueTagIds (tagIds : List Uuid) : List Uuid := tagIds.reverse.dedup.reverse

theorem mem_uniqueTagIds {tagIds : List Uuid} {id : Uuid} :
    id ∈ uniqueTagIds tagIds ↔ id ∈ tagIds := by
  rw [uniqueTagIds, List.mem_reverse, List.mem_dedup, List.mem_reverse]

/-- The database after `replaceTags`. -/
def withTags (db : Db wrapper) (projectId : Uuid) (tagIds : List Uuid) : Db wrapper :=
  { db with
    projectTags := db.projectTags.filter (·.projectId ≠ projectId) ++
      (uniqueTagIds tagIds).map fun tagId => ⟨projectId, tagId⟩ }

theorem ensures_replaceTags (htags : (db.tags.map (·.id)).Nodup) {projectId : Uuid} {tagIds : List Uuid}
    {Q : Unit → Db wrapper → Prop}
    (h : uniqueTagIds tagIds ⊆ db.tags.map (·.id) → Q () (withTags db projectId tagIds)) :
    Ensures apply (replaceTags projectId tagIds) db Q := by
  unfold replaceTags
  change Ensures apply (if (uniqueTagIds tagIds).length > 50 then _ else _) db Q
  split
  · exact ensures_fail
  rw [ensures_bind, ensures_select]
  split
  · exact ensures_fail
  rename_i hcount
  rw [ensures_bind, ensures_execute]
  intro _ _
  rw [ensures_execute]
  intro _ _
  have hwrites : applyAll apply ((uniqueTagIds tagIds).map fun tagId =>
      Write.insertProjectTag ⟨projectId, tagId⟩) (apply (.deleteProjectTags projectId) db) =
      withTags db projectId tagIds := by
    have hall := applyAll_insertProjectTag
      ((uniqueTagIds tagIds).map fun tagId => ⟨projectId, tagId⟩)
      (apply (.deleteProjectTags projectId) db)
    rw [List.map_map] at hall
    exact hall
  refine Eq.mpr (congrArg (Q ()) hwrites) (h ?_)
  by_cases hnone : (uniqueTagIds tagIds).length = 0
  · rw [List.length_eq_zero_iff.mp hnone]
    exact List.nil_subset _
  · exact subset_of_countP htags (not_not.mp fun hne => hcount ⟨hnone, hne⟩)

theorem tagIds_withTags {projectId : Uuid} {tagIds : List Uuid}
    (hfound : uniqueTagIds tagIds ⊆ db.tags.map (·.id)) {id : Uuid} :
    id ∈ (tagsOf platform (withTags db projectId tagIds) projectId).map (·.id) ↔ id ∈ tagIds := by
  have hrows : (withTags db projectId tagIds).projectTags.filter (·.projectId = projectId) =
      (uniqueTagIds tagIds).map fun tagId => ⟨projectId, tagId⟩ := by
    rw [withTags, List.filter_append, List.filter_filter]
    simp
  have htags : ((withTags db projectId tagIds).projectTags.filter
      (·.projectId = projectId)).filterMap (fun row => db.tags.find? (·.id = row.tagId)) =
      (uniqueTagIds tagIds).filterMap fun tagId => db.tags.find? (·.id = tagId) := by
    rw [hrows, List.filterMap_map]
    rfl
  show id ∈ (orderBy platform.tagBefore (List.filterMap
    (fun row : ProjectTag => db.tags.find? (·.id = row.tagId)) _)).map (·.id) ↔ _
  rw [htags, ((orderBy_perm platform.tagBefore _).map _).mem_iff, map_filterMap_find hfound,
    mem_uniqueTagIds]

/-! ## What a call stores -/

/-- What a call stored of its input, and what it shows; the rest is what was shown before. -/
structure Wrote (input : UpdateInput) (oldDescription : Option JsString) (oldTagIds : List Uuid)
    (row : Database.Project) (project : Project) : Prop where
  name : ∀ name, input.name = some name → row.name = toWellFormed (trim name)
  slug : ∀ slug, input.slug = some slug → normalizeSlug slug = some row.slug
  description : row.description = match input.description with
    | none => oldDescription.map toWellFormed
    | some description => storedForm description
  defaultEnvironments : ∃ names, row.defaultEnvironments = some names ∧ names ≠ [] ∧
    ∀ values, input.defaultEnvironments = some values →
      List.Forall₂ (fun value name => normalizeSlug value = some name) values names
  tags : ∀ id, id ∈ project.tagIds ↔ id ∈ input.tagIds.getD oldTagIds

/-- A creation changes an empty project. -/
def CreateInput.changes (input : CreateInput) : UpdateInput :=
  ⟨some input.name, some input.slug, some input.description, input.defaultEnvironments,
    some input.tagIds⟩

theorem tagIds_of_shown {row : Database.Project} {project : Project}
    (h : fromRow (selectProject platform db row) = .ok project) :
    project.tagIds = (tagsOf platform db row.id).map (·.id) := by
  obtain ⟨names, -, rfl⟩ := fromRow_eq h
  rfl

theorem ensures_insertRow {draws : Draws} {row : Database.Project} {Q : Unit → Db wrapper → Prop}
    (h : (∀ other ∈ db.projects, other.id ≠ row.id) → Q ()
      { db with
        projects := db.projects ++ [row]
        environments := db.environments ++
          createDefaultProjectEnvironments row fun n => draws.uuid (n + 1) }) :
    Ensures apply (insertRow draws row) db Q := by
  unfold insertRow
  rw [ensures_execute]
  intro _ hresult
  rw [applyAll_cons, applyAll_insertEnvironment]
  refine h fun other hother heq => ?_
  rw [if_pos] at hresult
  · cases hresult
  · rw [Bool.or_eq_true, List.any_eq_true]
    exact .inl ⟨other, hother, by simp [heq]⟩

/-- The row of a new id is found. -/
theorem find_inserted {rows : List Database.Project} {row : Database.Project}
    (hnew : ∀ other ∈ rows, other.id ≠ row.id) (q : Database.Project → Bool) (hq : q row = true) :
    ((rows ++ [row]).find? fun other => other.id = row.id && q other) = some row := by
  have hrest : (rows.find? fun other => other.id = row.id && q other) = none := by
    rw [List.find?_eq_none]
    intro other hother
    simp [hnew other hother]
  rw [List.find?_append, hrest]
  simp [hq]

theorem ensures_create (htags : (db.tags.map (·.id)).Nodup) {draws : Draws} {input : CreateInput} :
    Ensures apply (create platform draws userId input) db fun project db' =>
      ∃ row, Reads platform userId db' row project ∧ Wrote input.changes none [] row project := by
  unfold create
  rw [ensures_bind]
  refine ensures_authorizeUser fun _ => ?_
  rw [ensures_bind, ensures_attempt]
  intro defaultEnvironments hdefaults
  rw [ensures_mapError, ensures_bind, ensures_attempt]
  intro name hname
  rw [ensures_bind, ensures_attempt]
  intro slug hslug
  rw [ensures_bind, ensures_attempt]
  intro description hdescription
  rw [ensures_bind, ensures_attempt]
  intro storedName hstoredName
  rw [ensures_bind, ensures_attempt]
  intro storedDescription hstoredDescription
  rw [ensures_bind]
  refine ensures_insertRow fun hnew => ?_
  rw [ensures_bind]
  refine ensures_replaceTags ?_ fun hfound => ?_
  · exact htags
  rw [ensures_bind]
  refine ensures_readRow fun row project hrow hallowed hshown => ?_
  rw [ensures_bind]
  refine ensures_record fun event => ensures_done_ok.mpr ?_
  obtain rfl : _ = row := Option.some.inj ((find_inserted hnew (fun row =>
    true || row.deletedAt.isNone) rfl).symm.trans hrow)
  have hreads : Reads platform userId _ _ project :=
    ⟨find_inserted hnew (fun row => row.deletedAt.isNone) rfl, hallowed, hshown⟩
  refine ⟨_, hreads.recorded _, ?_⟩
  obtain ⟨hne, hforall⟩ := validateDefaultEnvironments_eq hdefaults
  constructor
  · intro name hinput
    obtain rfl := Option.some.inj hinput
    rw [storedText_eq hstoredName, projectName_eq hname]
  · intro slug hinput
    obtain rfl := Option.some.inj hinput
    exact normalizeProjectSlug_iff.mp hslug
  · rw [storedOptional_eq hstoredDescription]
    exact projectDescription_eq hdescription
  · refine ⟨defaultEnvironments, rfl, hne, ?_⟩
    rintro values (hvalues : input.defaultEnvironments = some values)
    rwa [hvalues] at hforall
  · intro id
    rw [tagIds_of_shown hshown]
    exact tagIds_withTags hfound

/-- An update of the active row of an id. -/
theorem find_updated {rows : List Database.Project} {id : Uuid} {set : ProjectSet}
    (hset : set.deletedAt = none) {row : Database.Project}
    (hrow : (rows.find? fun other => other.id = id && other.deletedAt.isNone) = some row) :
    ((updateWhere (fun other => other.id = id && other.deletedAt.isNone) set.on rows).find?
      fun other => other.id = id && other.deletedAt.isNone) = some (set.on row) := by
  have hkeeps : ∀ other, (set.on other).deletedAt = other.deletedAt := by
    intro other
    rw [ProjectSet.on, hset]
    rfl
  have hcomp : ((fun other : Database.Project => decide (other.id = id) && other.deletedAt.isNone) ∘
      fun other => if decide (other.id = id) && other.deletedAt.isNone then set.on other
        else other) = fun other => decide (other.id = id) && other.deletedAt.isNone := by
    funext other
    simp only [Function.comp]
    split
    · rw [hkeeps]
      rfl
    · rfl
  rw [updateWhere, List.find?_map, hcomp, hrow, Option.map_some, if_pos (List.find?_some hrow)]

theorem ensures_updateRow (hkeys : PrimaryKeys db) {projectId : Uuid} {set : ProjectSet}
    {Q : Unit → Db wrapper → Prop}
    (h : Q () { db with
      projects := updateWhere (fun row => row.id = projectId && row.deletedAt.isNone) set.on
        db.projects }) :
    Ensures apply (updateRow projectId set) db Q := by
  unfold updateRow
  rw [ensures_execute]
  intro _ _
  have hupdated := (@ensures_updateProjects _ _ hkeys.projects
    (fun row => row.id = projectId && row.deletedAt.isNone) set _).mpr h
  rw [updateProjects, ensures_execute] at hupdated
  exact hupdated () rfl

/-- The tags after the step of `update` that replaces them. -/
theorem ensures_replaceTagsOf (htags : (db.tags.map (·.id)).Nodup) {row : Database.Project}
    {old : List Uuid} (hold : (tagsOf platform db row.id).map (·.id) = old)
    {input : Option (List Uuid)} :
    Ensures apply (doIf input.isSome (replaceTags row.id (input.getD []))) db fun _ db' =>
      db'.projects = db.projects ∧ ∀ id,
        id ∈ (tagsOf platform db' row.id).map (·.id) ↔ id ∈ input.getD old := by
  refine ensures_doIf (fun hskip => ?_) fun hstep => ?_
  · rw [Option.isSome_eq_false_iff, Option.isNone_iff_eq_none] at hskip
    rw [hskip, hold]
    exact ⟨rfl, fun id => Iff.rfl⟩
  · obtain ⟨tagIds, htagIds⟩ := Option.isSome_iff_exists.mp hstep
    rw [htagIds]
    exact ensures_replaceTags htags fun hfound => ⟨rfl, fun id => tagIds_withTags hfound⟩

theorem ensures_update (hkeys : PrimaryKeys db) {draws : Draws} {input : UpdateInput}
    {old : Database.Project} {before : Project} (hbefore : Reads platform userId db old before) :
    Ensures apply (update platform draws userId old.id input) db fun project db' =>
      ∃ row, row.id = old.id ∧ Reads platform userId db' row project ∧
        Wrote input before.description before.tagIds row project := by
  unfold update
  rw [ensures_bind]
  refine ensures_getById fun row shown hreads hid => ?_
  obtain rfl : old = row := by
    have hfound := hreads.found
    rw [hid, hbefore.found] at hfound
    exact Option.some.inj hfound
  obtain rfl : before = shown := Except.ok.inj (hbefore.shown.symm.trans hreads.shown)
  obtain ⟨oldNames, hnames, hshown⟩ := fromRow_eq hbefore.shown
  rw [ensures_bind]
  refine ensures_authorizeUser fun _ => ?_
  rw [ensures_bind]
  refine ensures_checkedOr fun name hname => ?_
  rw [ensures_bind]
  refine ensures_checkedOr fun slug hslug => ?_
  rw [ensures_bind]
  refine ensures_checkedOr fun description hdescription => ?_
  rw [ensures_bind]
  refine ensures_checkedOr fun defaultEnvironments hdefaults => ?_
  rw [ensures_mapError, ensures_bind, ensures_attempt]
  intro storedName hstoredName
  rw [ensures_bind, ensures_attempt]
  intro storedDescription hstoredDescription
  rw [ensures_bind]
  refine ensures_updateRow hkeys ?_
  rw [ensures_bind]
  refine Ensures.mono (@ensures_replaceTagsOf _ platform _ ?_ _ _ rfl _) ?_
  · exact hkeys.tags
  rintro _ db' ⟨hprojects, htags⟩
  rw [ensures_bind]
  refine ensures_getById fun row project hreads hid => ?_
  rw [ensures_bind]
  refine ensures_record fun event => ensures_done_ok.mpr ?_
  have hfound := hreads.found
  rw [hid, hprojects, find_updated rfl hbefore.found] at hfound
  have hrow := Option.some.inj hfound
  subst hrow
  refine ⟨_, hid, hreads.recorded _, ?_⟩
  constructor
  · intro given hinput
    rw [hinput] at hname
    rw [← projectName_eq hname]
    exact storedText_eq hstoredName
  · intro given hinput
    rw [hinput] at hslug
    exact normalizeProjectSlug_iff.mp hslug
  · show storedDescription = _
    rw [storedOptional_eq hstoredDescription]
    cases hinput : input.description with
    | none =>
      rw [hinput] at hdescription
      rw [hdescription]
    | some given =>
      rw [hinput] at hdescription
      exact projectDescription_eq hdescription
  · refine ⟨defaultEnvironments, rfl, ?_, ?_⟩
    · cases hinput : input.defaultEnvironments with
      | none =>
        rw [hinput] at hdefaults
        rw [hdefaults, hshown]
        exact hnames
      | some values =>
        rw [hinput] at hdefaults
        exact (validateDefaultEnvironments_eq hdefaults).1
    · intro values hinput
      rw [hinput] at hdefaults
      exact (validateDefaultEnvironments_eq hdefaults).2
  · intro id
    rw [tagIds_of_shown hreads.shown, tagIds_of_shown hbefore.shown]
    exact htags id

end Himitsu.Projects
