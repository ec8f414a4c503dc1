import Himitsu.Lifecycle.History
import Himitsu.Secrets.ConfigVersion
import Himitsu.Services.Emitted

/-!
# The last environment

`delete` counts the active environments in one statement and deletes in another one, and locks no
row that it counts.

* `HasEnvironments` — every active project has an active environment.
* `Undisturbed` — between a deletion's count and its commit no other deletion in its project
  commits.
* `does_delete`, `counted_of_delete` — a deletion reads the environment, and later counts those of
  its project.
* `keepsOne_of_undisturbed` — what it counted is there at its commit.
* `hasEnvironments_of_undisturbed` — in every run of environment calls whose transactions overlap in
  any way, but leave each deletion undisturbed, projects keep an environment.
-/

set_option autoImplicit false

namespace Himitsu.Lifecycle

open JsString Crypto Database Services Transactions Interleaving Environments

variable {wrapper : KeyWrapper} {config : Config} {db : Db wrapper}

structure EnvironmentRequest where
  userId : Uuid
  draws : Draws
  call : EnvironmentCall

def environmentProgram (config : Config) (request : EnvironmentRequest) :
    TransactionM wrapper Answer :=
  request.call.program config request.userId request.draws

/-- Every active project has an active environment. -/
def HasEnvironments (db : Db wrapper) : Prop :=
  ∀ project ∈ db.projects, project.deletedAt = none →
    ∃ row ∈ db.environments, row.projectId = project.id ∧ row.deletedAt = none

/-! ## What the calls write -/

/-- The writes that delete no environment and leave the projects as they are. -/
def Retains : Write → Prop
  | .insertProject _ | .updateProject _ _ => False
  | .updateEnvironment _ set => ∀ time, set.deletedAt ≠ some (some time)
  | _ => True

/-- The writes of the deletion of one environment. -/
def DeletesOnly (environmentId : Uuid) : Write → Prop
  | .insertProject _ | .updateProject _ _ | .insertEnvironment _ => False
  | .updateEnvironment id set => id = environmentId ∧ ∃ time, set.deletedAt = some (some time)
  | _ => True

def WrittenBy : EnvironmentCall → Write → Prop
  | .delete environmentId _ => DeletesOnly environmentId
  | _ => Retains

theorem emits_environmentCall (request : EnvironmentRequest) :
    Emits (WrittenBy request.call) (environmentProgram config request :
      TransactionM wrapper _) := by
  unfold environmentProgram
  cases request.call with
  | list => exact Emits.bind (emits_listEnvironments _ _) fun _ => emits_ok _
  | get => exact Emits.bind (emits_getEnvironment _ _ _) fun _ => emits_ok _
  | create projectId input =>
    refine Emits.bind (Emits.bind (emits_requireActiveProject _) fun _ =>
      Emits.bind (emits_authorizeUser _ _ _ _) fun _ => Emits.bind (emits_select _) fun _ =>
        Emits.ite (emits_fail _) (Emits.mapError ?_ _)) fun _ => emits_ok _
    exact Emits.bind (emits_ofExcept _) fun _ => Emits.bind (emits_ofExcept _) fun _ =>
      Emits.bind (emits_ofExcept _) fun _ => Emits.bind
        (emits_execute fun _ w hw => by rw [List.mem_singleton.mp hw]; trivial) fun _ =>
          Emits.bind (emits_record (fun _ => trivial) _ _) fun _ => emits_ok _
  | update environmentId input =>
    refine Emits.bind (Emits.bind (emits_getEnvironment _ _ _) fun _ =>
      Emits.bind (emits_authorizeUser _ _ _ _) fun _ => Emits.bind (emits_checkedOr _ _ _ _)
        fun _ => Emits.bind (emits_checkedOr _ _ _ _) fun _ => Emits.mapError ?_ _)
      fun _ => emits_ok _
    refine Emits.bind (emits_ofExcept _) fun _ => Emits.bind
      (emits_execute fun _ => emits_map fun row _ time => ?_) fun row => ?_
    · nofun
    · cases row with
      | none => exact emits_fail _
      | some after =>
        exact Emits.bind (emits_record (fun _ => trivial) _ _) fun _ => emits_ok _
  | reorder projectId environmentIds =>
    refine Emits.bind (Emits.bind (emits_requireActiveProject _) fun _ =>
      Emits.bind (emits_authorizeUser _ _ _ _) fun _ => Emits.ite (emits_fail _)
        (Emits.bind (emits_select _) fun _ => Emits.ite (emits_fail _) ?_)) fun _ => emits_ok _
    refine Emits.bind (Emits.ite (emits_authorizeUser _ _ _ _) (emits_ok _)) fun _ =>
      Emits.bind (emits_execute fun _ => emits_map fun row _ time => ?_) fun _ =>
        Emits.bind (emits_record (fun _ => trivial) _ _) fun _ => emits_listEnvironments _ _
    nofun
  | delete environmentId confirmSecrets =>
    refine Emits.bind (Emits.bind (emits_getEnvironment _ _ _) fun _ =>
      Emits.bind (emits_authorizeUser _ _ _ _) fun _ => Emits.bind (emits_select _) fun _ =>
        Emits.ite (emits_fail _) (Emits.ite (emits_fail _) ?_)) fun _ => emits_ok _
    refine Emits.bind (emits_ofExcept _) fun _ => Emits.bind (emits_ofExcept _) fun _ =>
      Emits.bind (emits_execute fun _ => emits_map fun row hrow => ?_) fun _ =>
        Emits.bind (emits_execute fun _ => emits_map fun _ _ => trivial) fun _ =>
          Emits.bind (emits_record (fun _ => trivial) _ _) fun _ => emits_ok _
    have hid := (List.mem_filter.mp hrow).2
    simp only [Bool.and_eq_true, decide_eq_true_eq] at hid
    exact ⟨hid.1, _, rfl⟩
  | restore environmentId =>
    refine Emits.bind (Emits.bind (emits_getEnvironment _ _ _) fun environment => ?_)
      fun _ => emits_ok _
    split
    · exact emits_fail _
    refine Emits.bind (emits_select _) fun _ => Emits.ite (emits_fail _) ?_
    refine Emits.bind (emits_requireActiveProject _) fun _ =>
      Emits.bind (emits_authorizeUser _ _ _ _) fun _ => Emits.bind (emits_ofExcept _) fun _ =>
        Emits.bind (emits_execute fun _ => emits_map fun row _ time => ?_) fun _ =>
          Emits.bind (emits_execute fun _ => emits_map fun _ _ => trivial) fun _ =>
            Emits.bind (emits_record (fun _ => trivial) _ _) fun _ => emits_getEnvironment _ _ _
    nofun

/-! ## What the writes do -/

/-- A write that does not delete the environment `id`. -/
def Leaves (id : Uuid) : Write → Prop
  | .updateEnvironment other set => other = id → ∀ time, set.deletedAt ≠ some (some time)
  | _ => True

theorem Retains.leaves {w : Write} (h : Retains w) (id : Uuid) : Leaves id w := by
  cases w with
  | updateEnvironment other set => exact fun _ => h
  | _ => trivial

theorem DeletesOnly.leaves {w : Write} {environmentId id : Uuid} (h : DeletesOnly environmentId w)
    (hne : id ≠ environmentId) : Leaves id w := by
  cases w with
  | updateEnvironment other set => exact fun heq => absurd (heq.symm.trans h.1) hne
  | _ => trivial

theorem projects_apply {call : EnvironmentCall} {w : Write} (h : WrittenBy call w)
    (db : Db wrapper) : (apply w db).projects = db.projects := by
  cases w with
  | insertProject | updateProject => cases call <;> exact h.elim
  | _ => rfl

/-- The environment is there and active. -/
def HasActive (db : Db wrapper) (id projectId : Uuid) : Prop :=
  ∃ row ∈ db.environments, row.id = id ∧ row.projectId = projectId ∧ row.deletedAt = none

theorem HasActive.after {id projectId : Uuid} {w : Write} (h : HasActive db id projectId)
    (hw : Leaves id w) : HasActive (apply w db) id projectId := by
  obtain ⟨row, hrow, hid, hproject, hactive⟩ := h
  cases w with
  | updateEnvironment other set =>
    by_cases hother : row.id = other
    · refine ⟨set.on row, ?_, hid, hproject, ?_⟩
      · exact List.mem_map.mpr ⟨row, hrow, if_pos (by simpa using hother)⟩
      · have hset := hw (hother.symm.trans hid)
        cases hdeleted : set.deletedAt with
        | none => simp [EnvironmentSet.on, hdeleted, hactive]
        | some deletedAt =>
          cases deletedAt with
          | none => simp [EnvironmentSet.on, hdeleted]
          | some time => exact absurd hdeleted (hset time)
    · exact ⟨row, List.mem_map.mpr ⟨row, hrow, if_neg (by simpa using hother)⟩, hid, hproject,
        hactive⟩
  | updateSecret secretId set =>
    exact ⟨_, List.mem_map_of_mem hrow, hid, hproject, hactive⟩
  | insertEnvironment other => exact ⟨row, List.mem_append_left _ hrow, hid, hproject, hactive⟩
  | _ => exact ⟨row, hrow, hid, hproject, hactive⟩

theorem HasActive.afterAll {id projectId : Uuid} {ws : List Write} (h : HasActive db id projectId)
    (hws : ∀ w ∈ ws, Leaves id w) : HasActive (applyAll apply ws db) id projectId := by
  induction ws generalizing db with
  | nil => exact h
  | cons w ws ih =>
    exact ih (h.after (hws w (List.mem_cons_self ..))) fun w hw => hws w (List.mem_cons_of_mem _ hw)

theorem projects_applyAll {call : EnvironmentCall} {ws : List Write}
    (hws : ∀ w ∈ ws, WrittenBy call w) (db : Db wrapper) :
    (applyAll apply ws db).projects = db.projects := by
  induction ws generalizing db with
  | nil => rfl
  | cons w ws ih =>
    rw [applyAll_cons, ih fun w hw => hws w (List.mem_cons_of_mem _ hw),
      projects_apply (hws w (List.mem_cons_self ..))]

/-! ## Commits -/

abbrev EnvironmentCommit (wrapper : KeyWrapper) :=
  Entry (Db wrapper) Lock Write EnvironmentRequest Answer

/-- If the commit is that of a deletion that took effect, an active project of the deleted
environment has another active one in the committed database. -/
def KeepsOne (e : EnvironmentCommit wrapper) : Prop :=
  ∀ environmentId confirmSecrets, e.call.call = .delete environmentId confirmSecrets →
    (∃ set, .updateEnvironment environmentId set ∈ e.world.pending) →
      ∀ project ∈ e.world.base.projects, project.deletedAt = none →
        HasActive e.world.base environmentId project.id →
          ∃ other, other ≠ environmentId ∧ HasActive e.world.base other project.id

theorem hasEnvironments_commit {e : EnvironmentCommit wrapper}
    (hpending : ∀ w ∈ e.world.pending, WrittenBy e.call.call w)
    (h : HasEnvironments e.world.base) (hkeeps : KeepsOne e) :
    HasEnvironments (e.world.view store) := by
  intro project hproject hactive
  have hprojects := projects_applyAll hpending e.world.base
  have hproject : project ∈ e.world.base.projects := hprojects ▸ hproject
  obtain ⟨row, hrow, hid, hdeleted⟩ := h project hproject hactive
  have hbefore : HasActive e.world.base row.id project.id := ⟨row, hrow, rfl, hid, hdeleted⟩
  suffices hafter : ∃ id, HasActive (e.world.view store) id project.id by
    obtain ⟨id, row, hrow, -, hid, hdeleted⟩ := hafter
    exact ⟨row, hrow, hid, hdeleted⟩
  cases hcall : e.call.call with
  | delete environmentId confirmSecrets =>
    rw [hcall] at hpending
    by_cases heffect : row.id = environmentId ∧
        ∃ set, Write.updateEnvironment environmentId set ∈ e.world.pending
    · obtain ⟨rfl, hset⟩ := heffect
      obtain ⟨other, hne, hother⟩ := hkeeps _ _ hcall hset project hproject hactive hbefore
      exact ⟨other, hother.afterAll fun w hw => (hpending w hw).leaves hne⟩
    · refine ⟨row.id, hbefore.afterAll fun w hw => ?_⟩
      by_cases hne : row.id = environmentId
      · cases w with
        | updateEnvironment other set =>
          obtain ⟨rfl, -⟩ := hpending _ hw
          exact absurd ⟨hne, set, hw⟩ heffect
        | _ => trivial
      · exact (hpending w hw).leaves hne
  | list | get | create | update | reorder | restore =>
    rw [hcall] at hpending
    exact ⟨row.id, hbefore.afterAll fun w hw => (hpending w hw).leaves _⟩

/-! ## What a deletion has counted -/

/-- The statement in which a deletion counts the environments of its project, after those before
it. -/
def countStatement : Nat := 5

theorem does_authorizeUser {userId projectId : Uuid} {protectedEnvironment : Bool}
    {permission : Authz.Permission} {stmts : List (Statement (Db wrapper) Lock Write)}
    {ws : List Write}
    (h : Does (authorizeUser userId (some projectId) protectedEnvironment permission :
      TransactionM wrapper _) stmts ws ()) :
    stmts.length = 2 ∧ ∀ x ∈ stmts, x.writes = [] := by
  obtain ⟨context, s₁, w₁, s₂, w₂, hresolve, hcheck, rfl, rfl⟩ := does_bind.mp h
  obtain ⟨rfl, -, -⟩ := does_ofExcept.mp hcheck
  obtain ⟨membership, s₃, w₃, s₄, w₄, hselect, hrest, rfl, rfl⟩ := does_bind.mp hresolve
  obtain ⟨db, rfl, -, rfl⟩ := does_select.mp hselect
  split at hrest
  · exact absurd hrest does_fail
  · obtain ⟨override, s₅, w₅, s₆, w₆, hoverride, hdone, rfl, rfl⟩ := does_bind.mp hrest
    obtain ⟨db', rfl, -, rfl⟩ := does_select.mp hoverride
    obtain ⟨rfl, -, -⟩ := does_ok.mp hdone
    simp

/-- **A deletion** finds the environment, and counts more than one active environment of its
project. -/
theorem does_delete {options : RecoveryOptions} {draws : Draws} {userId environmentId : Uuid}
    {confirmSecrets : Bool} {stmts : List (Statement (Db wrapper) Lock Write)} {ws : List Write}
    {deleted : Environments.Environment}
    (h : Does (Environments.delete options draws userId environmentId confirmSecrets :
      TransactionM wrapper _) stmts ws deleted) :
    ∃ first reads counting rest row, stmts = (first :: reads) ++ counting :: rest ∧
      (first :: reads).length = countStatement ∧ (∀ x ∈ first :: reads, x.writes = []) ∧
      row ∈ first.view.environments ∧ row.id = environmentId ∧
      1 < (activeRows counting.view row.projectId).length := by
  obtain ⟨environment, s₁, w₁, s₂, w₂, hget, hrest, rfl, rfl⟩ := does_bind.mp h
  obtain ⟨found, s₃, w₃, s₄, w₄, hselect, hfound, rfl, rfl⟩ := does_bind.mp hget
  obtain ⟨db, rfl, -, rfl⟩ := does_select.mp hselect
  split at hfound
  · exact absurd hfound does_fail
  rename_i read hread
  obtain ⟨row, hrow, rfl⟩ := Option.map_eq_some_iff.mp hread
  obtain ⟨_, s₅, w₅, s₆, w₆, hauthorized, hdone, rfl, rfl⟩ := does_bind.mp hfound
  obtain ⟨rfl, -, rfl⟩ := does_ok.mp hdone
  obtain ⟨_, s₇, w₇, s₈, w₈, hpermitted, hcounts, rfl, rfl⟩ := does_bind.mp hrest
  obtain ⟨active, s₉, w₉, s₁₀, w₁₀, hcount, hguard, rfl, rfl⟩ := does_bind.mp hcounts
  obtain ⟨counted, rfl, -, rfl⟩ := does_select.mp hcount
  have hmany : 1 < (activeRows counted row.projectId).length := by
    rcases does_ite.mp hguard with ⟨-, hraise⟩ | ⟨hnot, -⟩
    · exact absurd hraise does_fail
    · exact Nat.lt_of_not_le hnot
  obtain ⟨hlen, hquiet⟩ := does_authorizeUser hauthorized
  obtain ⟨hlen', hquiet'⟩ := does_authorizeUser hpermitted
  refine ⟨⟨db, [], []⟩, s₅ ++ s₇, ⟨counted, [], []⟩, s₁₀, row, by simp, ?_, ?_,
    List.mem_of_find?_eq_some hrow, ?_, hmany⟩
  · rw [List.length_cons, List.length_append, hlen, hlen']
    rfl
  · exact List.forall_mem_cons.mpr ⟨rfl, List.forall_mem_append.mpr ⟨hquiet, hquiet'⟩⟩
  · have hid := List.find?_some hrow
    simp only [Bool.and_eq_true, decide_eq_true_eq] at hid
    exact hid.1

/-! ## Undisturbed deletions -/

/-- The environment is one of the project, active or not. -/
def Belongs (db : Db wrapper) (id projectId : Uuid) : Prop :=
  ∃ row ∈ db.environments, row.id = id ∧ row.projectId = projectId

/-- The commit is that of a deletion of another active environment in the project of this one. -/
def DeletesAnother (environmentId : Uuid) (f : EnvironmentCommit wrapper) : Prop :=
  ∃ other confirmSecrets projectId, f.call.call = .delete other confirmSecrets ∧
    other ≠ environmentId ∧ HasActive f.world.base other projectId ∧
    Belongs f.world.base environmentId projectId

/-- Between a deletion's count and its commit no other deletion in its project commits: it counted
what was there after `n` commits of the run. -/
def Undisturbed (base : Db wrapper) (log : List (EnvironmentCommit wrapper)) : Prop :=
  ∀ i e environmentId confirmSecrets, log[i]? = some e →
    e.call.call = .delete environmentId confirmSecrets →
    ∃ n ≤ i, e.world.moments[countStatement]? = some (databaseAfter store base log n) ∧
      ∀ j f, n ≤ j → j < i → log[j]? = some f → ¬ DeletesAnother environmentId f

/-- Ids stay distinct, and environments in their projects. -/
def placed (wrapper : KeyWrapper) : Contract (Db wrapper) where
  inv db := (environmentIds db).Nodup
  rely db db' := ∀ id projectId, Belongs db id projectId → Belongs db' id projectId
  refl _ := fun _ _ h => h
  trans h h' := fun id projectId hbelongs => h' id projectId (h id projectId hbelongs)

/-- Of two environments with distinct ids, one has another id than a given one. -/
theorem exists_other {rows : List Database.Environment} (hids : (rows.map (·.id)).Nodup)
    (hlen : 1 < rows.length) (id : Uuid) : ∃ row ∈ rows, row.id ≠ id := by
  match rows with
  | first :: second :: rest =>
    by_cases hfirst : first.id = id
    · refine ⟨second, by simp, fun hsecond => ?_⟩
      simp [hfirst, hsecond] at hids
    · exact ⟨first, by simp, hfirst⟩

section

variable {base : Db wrapper}
  {s : System (Db wrapper) Lock Write ServiceError EnvironmentRequest Answer}
  (hreach : Reachable store (environmentProgram config) base s)
  (hids : (environmentIds base).Nodup)

include hreach hids

theorem placed_databaseAfter (n : Nat) :
    (environmentIds (databaseAfter store base s.log n)).Nodup ∧
      ∀ m, m ≤ n → ∀ id projectId, Belongs (databaseAfter store base s.log m) id projectId →
        Belongs (databaseAfter store base s.log n) id projectId := by
  refine contract_of_commits (placed wrapper) hreach hids (fun e stmts hran hinv => ⟨?_, ?_⟩) n
  · have hfresh : ∀ request, AtEach InsertsFresh
        (environmentProgram config request : TransactionM wrapper Answer) :=
      fun request => insertsFresh_of_call config ⟨request.userId, request.draws,
        .environment request.call⟩
    exact environmentIds_nodup hfresh hran hinv
  · rintro id projectId ⟨row, hrow, hid, hproject⟩
    obtain ⟨row', hrow', hfollows, -⟩ := Secrets.applyAll_environment e.world.pending hrow
    exact ⟨row', hrow', hfollows.id.trans hid, hfollows.projectId.trans hproject⟩

/-- An active environment beside `environmentId` stays active while no other deletion in the project
commits. -/
theorem hasActive_of_undisturbed {environmentId other projectId : Uuid} {n i : Nat}
    (hi : i ≤ s.log.length) (hne : other ≠ environmentId)
    (hactive : HasActive (databaseAfter store base s.log n) other projectId)
    (hbelongs : Belongs (databaseAfter store base s.log n) environmentId projectId)
    (hundisturbed : ∀ j f, n ≤ j → j < i → s.log[j]? = some f → ¬ DeletesAnother environmentId f) :
    ∀ j, n ≤ j → j ≤ i → HasActive (databaseAfter store base s.log j) other projectId := by
  intro j hnj
  induction j, hnj using Nat.le_induction with
  | base => exact fun _ => hactive
  | succ j hnj ih =>
    intro hji
    have hf : s.log[j]? = some s.log[j] := List.getElem?_eq_getElem (by omega)
    obtain ⟨hbefore, hafter⟩ := databaseAfter_of_commit hreach hf
    have hthere := ih (by omega)
    have hbelongsNow := (placed_databaseAfter hreach hids j).2 n hnj _ _ hbelongs
    rw [hbefore] at hthere hbelongsNow
    rw [hafter]
    have hemitted := (emitted_of_reachable emits_environmentCall hreach).entries _
      (List.mem_of_getElem? hf)
    have hquiet := hundisturbed j _ hnj (by omega) hf
    generalize s.log[j] = f at hthere hbelongsNow hemitted hquiet ⊢
    refine hthere.afterAll fun w hw => ?_
    have hwritten := hemitted w hw
    cases hcall : f.call.call with
    | delete deleted confirmSecrets =>
      rw [hcall] at hwritten
      refine DeletesOnly.leaves hwritten ?_
      rintro rfl
      exact hquiet ⟨other, confirmSecrets, projectId, hcall, hne, hthere, hbelongsNow⟩
    | list | get | create | update | reorder | restore =>
      rw [hcall] at hwritten
      exact Retains.leaves hwritten _

omit hids in
/-- **The reads of a deletion**, by the numbers of the commits before them: it finds the environment,
and later counts more than one active environment of its project. -/
theorem counted_of_delete {i : Nat} {e : EnvironmentCommit wrapper} (he : s.log[i]? = some e)
    {environmentId : Uuid} {confirmSecrets : Bool}
    (hcall : e.call.call = .delete environmentId confirmSecrets) :
    ∃ t₀ t₁ projectId, t₀ ≤ t₁ ∧ t₁ ≤ i ∧
      Belongs (databaseAfter store base s.log t₀) environmentId projectId ∧
      e.world.moments[countStatement]? = some (databaseAfter store base s.log t₁) ∧
      1 < (activeRows (databaseAfter store base s.log t₁) projectId).length := by
  obtain ⟨hlt, hget⟩ := List.getElem?_eq_some_iff.mp he
  have hsplit : s.log = s.log.take i ++ e :: s.log.drop (i + 1) := by
    rw [← hget, ← List.drop_eq_getElem_cons hlt, List.take_append_drop]
  obtain ⟨stmts, hran⟩ := (serial_of_reachable hreach).log e (List.mem_of_getElem? he)
  obtain ⟨times, htimed, hlast⟩ := timed_of_reachable hreach hsplit
  rw [List.length_take_of_le hlt.le] at hlast
  have hdoes := hran.does
  rw [environmentProgram, hcall] at hdoes
  obtain ⟨deleted, _, _, _, _, hdelete, hanswer, hstmts, -⟩ := does_bind.mp hdoes
  obtain ⟨rfl, -, -⟩ := does_ok.mp hanswer
  rw [List.append_nil] at hstmts
  obtain ⟨first, reads, counting, rest, row, rfl, hlength, hquiet, hrow, hid, hmany⟩ :=
    does_delete hdelete
  have hnone : (first :: reads).flatMap (·.writes) = [] := List.flatMap_eq_nil_iff.mpr hquiet
  -- No statement before the count has written, so both see a database of the run.
  obtain ⟨m₀, hm₀, hfirst⟩ := hran.found [] first (reads ++ counting :: rest) (by rw [hstmts]; rfl)
  obtain ⟨m₁, hm₁, hcounting⟩ := hran.found (first :: reads) counting rest hstmts
  rw [hnone, Store.applyAll_nil] at hcounting
  rw [List.flatMap_nil, Store.applyAll_nil] at hfirst
  rw [hlength] at hm₁
  rw [htimed.found, List.getElem?_map, Option.map_eq_some_iff] at hm₀ hm₁
  obtain ⟨t₀, ht₀, rfl⟩ := hm₀
  obtain ⟨t₁, ht₁, rfl⟩ := hm₁
  have horder : t₀ ≤ t₁ := by
    obtain ⟨h₀, hget₀⟩ := List.getElem?_eq_some_iff.mp ht₀
    obtain ⟨h₁, hget₁⟩ := List.getElem?_eq_some_iff.mp ht₁
    rw [← hget₀, ← hget₁]
    exact List.pairwise_iff_getElem.mp htimed.order _ _ h₀ h₁ (Nat.succ_pos 4)
  refine ⟨t₀, t₁, row.projectId, horder, hlast t₁ (List.mem_of_getElem? ht₁),
    ⟨row, hfirst ▸ hrow, hid, rfl⟩, ?_, hcounting ▸ hmany⟩
  rw [htimed.found, List.getElem?_map, ht₁, Option.map_some]

/-- **What an undisturbed deletion has counted is there at its commit.** -/
theorem keepsOne_of_undisturbed (hundisturbed : Undisturbed base s.log) {i : Nat}
    {e : EnvironmentCommit wrapper} (he : s.log[i]? = some e) : KeepsOne e := by
  intro environmentId confirmSecrets hcall _ project _ _ hdeleted
  have hlt := (List.getElem?_eq_some_iff.mp he).1
  obtain ⟨t₀, t₁, projectId, horder, hlast, hread, hcounted, hmany⟩ :=
    counted_of_delete hreach he hcall
  obtain ⟨n, hn, hmoment, hfree⟩ := hundisturbed i e environmentId confirmSecrets he hcall
  rw [hcounted, Option.some.injEq] at hmoment
  -- From the later of the two numbers on, the count is that of the run.
  obtain ⟨m, hnm, htm, hmi, hsame⟩ : ∃ m, n ≤ m ∧ t₁ ≤ m ∧ m ≤ i ∧
      databaseAfter store base s.log t₁ = databaseAfter store base s.log m := by
    rcases Nat.le_total n t₁ with hle | hle
    · exact ⟨t₁, hle, Nat.le_refl _, hlast, rfl⟩
    · exact ⟨n, Nat.le_refl _, hle, hn, hmoment⟩
  obtain ⟨hnodup, hkeeps⟩ := placed_databaseAfter hreach hids m
  have hbelongs : Belongs (databaseAfter store base s.log m) environmentId projectId :=
    hkeeps t₀ (horder.trans htm) _ _ hread
  rw [hsame] at hmany
  obtain ⟨other, hother, hne⟩ := exists_other (hnodup.sublist (List.filter_sublist.map _)) hmany
    environmentId
  obtain ⟨hmem, hin⟩ := List.mem_filter.mp hother
  simp only [isActiveIn, Bool.and_eq_true, decide_eq_true_eq, Option.isNone_iff_eq_none] at hin
  have hthere := hasActive_of_undisturbed hreach hids hlt.le hne ⟨other, hmem, rfl, hin.1, hin.2⟩
    hbelongs (fun j f hj hji => hfree j f (hnm.trans hj) hji) i hmi (Nat.le_refl _)
  -- The environment that was counted with it is the one that is deleted.
  obtain ⟨hbase, -⟩ := databaseAfter_of_commit hreach he
  obtain ⟨hnodupNow, hkeepsNow⟩ := placed_databaseAfter hreach hids i
  obtain ⟨old, hold, holdId, holdProject⟩ := hkeepsNow m hmi _ _ hbelongs
  rw [hbase] at hthere hold hnodupNow
  obtain ⟨now, hnow, hnowId, hnowProject, -⟩ := hdeleted
  obtain rfl := List.inj_on_of_nodup_map hnodupNow hold hnow (holdId.trans hnowId.symm)
  rw [← holdProject, hnowProject] at hthere
  exact ⟨other.id, hne, hthere⟩

theorem hasEnvironments_databaseAfter (hbase : HasEnvironments base)
    (hundisturbed : Undisturbed base s.log) (n : Nat) :
    HasEnvironments (databaseAfter store base s.log n) := by
  induction n with
  | zero => exact hbase
  | succ n ih =>
    cases he : s.log[n]? with
    | none =>
      have hlen := List.getElem?_eq_none_iff.mp he
      rw [databaseAfter, List.take_of_length_le (Nat.le_succ_of_le hlen)]
      rwa [databaseAfter, List.take_of_length_le hlen] at ih
    | some e =>
      obtain ⟨hbefore, hafter⟩ := databaseAfter_of_commit hreach he
      rw [hafter]
      exact hasEnvironments_commit
        ((emitted_of_reachable emits_environmentCall hreach).entries e (List.mem_of_getElem? he))
        (hbefore ▸ ih) (keepsOne_of_undisturbed hreach hids hundisturbed he)

end

/-- **Projects keep an environment in every committed state of a run** in which no other deletion in
the project commits between a deletion's count and its commit. -/
theorem hasEnvironments_of_undisturbed {base : Db wrapper} (hbase : HasEnvironments base)
    (hids : (environmentIds base).Nodup)
    {s : System (Db wrapper) Lock Write ServiceError EnvironmentRequest Answer}
    (hreach : Reachable store (environmentProgram config) base s)
    (hundisturbed : Undisturbed base s.log) :
    HasEnvironments s.base ∧ ∀ e ∈ s.log, HasEnvironments (e.world.view store) := by
  have hall := hasEnvironments_databaseAfter hreach hids hbase hundisturbed
  refine ⟨databaseAfter_length hreach ▸ hall s.log.length, fun e he => ?_⟩
  obtain ⟨i, hi⟩ := List.mem_iff_getElem?.mp he
  exact (databaseAfter_of_commit hreach hi).2 ▸ hall (i + 1)

/-! ## One deletion after the other -/

def isDeletion : EnvironmentCall → Bool
  | .delete _ _ => true
  | _ => false

/-- Every deletion begins after the commits of the deletions before it. -/
def InTurn (log : List (EnvironmentCommit wrapper)) : Prop :=
  ∀ item ∈ log.zipIdx, isDeletion item.1.call.call = true →
    countStatement < item.1.world.moments.length ∧
      ∀ before ∈ log.zipIdx, isDeletion before.1.call.call = true → before.2 < item.2 →
        before.2 < item.1.since

instance (log : List (EnvironmentCommit wrapper)) : Decidable (InTurn log) :=
  inferInstanceAs (Decidable (∀ item ∈ log.zipIdx, _))

theorem undisturbed_of_inTurn {base : Db wrapper}
    {s : System (Db wrapper) Lock Write ServiceError EnvironmentRequest Answer}
    (hreach : Reachable store (environmentProgram config) base s) (h : InTurn s.log) :
    Undisturbed base s.log := by
  intro i e environmentId confirmSecrets he hcall
  obtain ⟨hlong, hturn⟩ := h (e, i) (List.mem_zipIdx_iff_getElem?.mpr he) (by rw [hcall]; rfl)
  obtain ⟨hlt, hget⟩ := List.getElem?_eq_some_iff.mp he
  have hsplit : s.log = s.log.take i ++ e :: s.log.drop (i + 1) := by
    rw [← hget, ← List.drop_eq_getElem_cons hlt, List.take_append_drop]
  obtain ⟨times, htimed, hlast⟩ := timed_of_reachable hreach hsplit
  rw [List.length_take_of_le hlt.le] at hlast
  have hcounted : countStatement < times.length := by
    rw [htimed.found, List.length_map] at hlong
    exact hlong
  have hmem := List.getElem_mem hcounted
  refine ⟨times[countStatement], hlast _ hmem, ?_, fun j f hj hji hf => ?_⟩
  · rw [htimed.found, List.getElem?_map, List.getElem?_eq_getElem hcounted]
    rfl
  · rintro ⟨other, confirm, projectId, hdeletion, -⟩
    have hbefore := hturn (f, j) (List.mem_zipIdx_iff_getElem?.mpr hf) (by rw [hdeletion]; rfl) hji
    exact absurd (hbefore.trans_le ((htimed.bounds _ hmem).1.trans hj)) (Nat.lt_irrefl j)

/-! ## Two deletions at once -/

/-- A project of two environments. -/
def twoEnvironments : Db exampleWrapper :=
  afterAll exampleConfig newOrganization
    [.call (createApp 1), .call (callAt 2 (.environment (.delete ⟨101⟩ false)))]

theorem twoEnvironments_hasEnvironments : HasEnvironments twoEnvironments := by
  unfold HasEnvironments
  decide +kernel

def deletionAt (time : Nat) (environmentId : Uuid) : EnvironmentRequest :=
  ⟨exampleUser, drawsAt time, .delete environmentId false⟩

def creation : EnvironmentRequest :=
  ⟨exampleUser, drawsAt 4, .create ⟨100⟩ ⟨ofAscii "QA", ofAscii "qa", none⟩⟩

/-- Statements of the transaction at one place. -/
def statements (place count : Nat) : List (Choice EnvironmentRequest) :=
  List.replicate count (.statement place)

def lastState (choices : List (Choice EnvironmentRequest)) :
    Option (System (Db exampleWrapper) Lock Write ServiceError EnvironmentRequest Answer) :=
  (System.start twoEnvironments).schedule store (environmentProgram exampleConfig) choices

/-- The first deletion overlaps the creation of an environment, and the second one begins after
both. -/
def deletionsInTurn : List (Choice EnvironmentRequest) :=
  [.start (deletionAt 3 ⟨102⟩), .start creation] ++ statements 1 3 ++ statements 0 9 ++
    statements 1 3 ++ [.commit 0] ++ [.commit 0] ++ [.start (deletionAt 5 ⟨103⟩)] ++
    statements 0 9 ++ [.commit 0]

theorem hasEnvironments_of_undisturbed_inTurn : ∃ s, lastState deletionsInTurn = some s ∧
    s.log.length = 3 ∧ HasEnvironments s.base ∧
      ∀ e ∈ s.log, HasEnvironments (e.world.view store) := by
  have hlast : (lastState deletionsInTurn).map (fun s =>
      s.log.length == 3 && decide (InTurn s.log)) = some true := by decide +kernel
  obtain ⟨s, hs, hcheck⟩ := Option.map_eq_some_iff.mp hlast
  rw [Bool.and_eq_true, beq_iff_eq, decide_eq_true_eq] at hcheck
  have hreach := reachable_of_schedule hs
  exact ⟨s, hs, hcheck.1, hasEnvironments_of_undisturbed twoEnvironments_hasEnvironments
    (by decide +kernel) hreach (undisturbed_of_inTurn hreach hcheck.2)⟩

/-- Both deletions count two environments before either deletes its own. -/
def crossedDeletions : List (Choice EnvironmentRequest) :=
  [.start (deletionAt 3 ⟨102⟩), .start (deletionAt 3 ⟨103⟩)] ++ statements 0 6 ++ statements 1 6 ++
    statements 0 3 ++ [.commit 0] ++ statements 0 3 ++ [.commit 0]

theorem crossedDeletions_not_hasEnvironments :
    HasEnvironments twoEnvironments ∧
      ∃ s, Reachable store (environmentProgram exampleConfig) twoEnvironments s ∧
        ¬ HasEnvironments s.base := by
  have hlast : (lastState crossedDeletions).map (fun s =>
      s.base.projects.any (·.deletedAt.isNone) && s.base.environments.all (·.deletedAt.isSome)) =
        some true := by decide +kernel
  obtain ⟨s, hs, hnone⟩ := Option.map_eq_some_iff.mp hlast
  refine ⟨twoEnvironments_hasEnvironments, s, reachable_of_schedule hs, fun h => ?_⟩
  rw [Bool.and_eq_true, List.any_eq_true, List.all_eq_true] at hnone
  obtain ⟨⟨project, hproject, hactive⟩, hall⟩ := hnone
  obtain ⟨row, hrow, -, hdeleted⟩ := h project hproject (Option.isNone_iff_eq_none.mp hactive)
  have hsome := hall row hrow
  rw [hdeleted] at hsome
  cases hsome

end Himitsu.Lifecycle
