import Himitsu.Library.Runs
import Himitsu.Lifecycle.SecretCalls

/-!
# Calls one after another and the deletion marks

* `call_performs` — a call is a run of changes of the marks, and restores only what it names.
* `sound_afterAll` — the marks of every organization are sound.
* `active_in_active` — what is active lies in what is active.
* `restoration_undoes_deletion` — a restoration brings back what its deletion took, and nothing
  else.
-/

set_option autoImplicit false

namespace Himitsu.Lifecycle

open JsString Crypto Database Services Transactions SoftDelete

variable {wrapper : KeyWrapper} {config : Config} {db : Db wrapper}

/-- The project or environment that a call restores. -/
def restored : Services.Action → Option Id
  | .project call => restoredProject call
  | .environment call => restoredEnvironment call
  | .secret _ => none

/-- The project or environment that a call deletes. -/
def deleted : Services.Action → Option Id
  | .project (.delete projectId) => some (.project projectId)
  | .environment (.delete environmentId _) => some (.environment environmentId)
  | _ => none

theorem call_performs (config : Config) (call : Call) :
    Performs (Permits (restored call.action)) (program config call : TransactionM wrapper Answer) := by
  intro db hsound
  unfold program
  cases call.action with
  | project call => exact projectCall_changes hsound.consistent
  | environment call => exact environmentCall_changes hsound.consistent
  | secret call =>
    refine (secretCall_performs db hsound).mono fun _ db' hchanges => hchanges.mono fun a ha => ?_
    unfold OnSecrets at ha
    split at ha <;> trivial

/-! ## Every organization is sound -/

theorem sound_of_isEmpty (h : Db.IsEmpty db) : Sound (marks db) := by
  rw [marks, h.1, h.2.1, h.2.2]
  exact sound_empty

theorem respond_changes (h : Sound (marks db)) (call : Call) :
    Changes (Permits (restored call.action)) (marks db) (marks (respond config db call).2) := by
  cases hresult : (respond config db call).1 with
  | error error =>
    rw [respond_of_error hresult]
    exact .refl
  | ok answer => exact transact_of_ensures (call_performs config call db h) hresult

theorem sound_after (h : Sound (marks db)) (event : Event wrapper) :
    Sound (marks (after config db event)) := by
  cases event with
  | call call => exact ((respond_changes h call).refines h).2
  | others tables => exact h

theorem sound_afterAll (h : Sound (marks db)) (events : List (Event wrapper)) :
    Sound (marks (afterAll config db events)) := by
  induction events generalizing db with
  | nil => exact h
  | cons event events ih => exact ih (sound_after h event)

/-- **What is active lies in what is active.** -/
theorem active_in_active (hempty : Db.IsEmpty db) (events : List (Event wrapper)) :
    let reached := afterAll config db events
    (∀ secret ∈ reached.secrets, secret.deletedAt = none →
      ∃ environment ∈ reached.environments, environment.id = secret.environmentId ∧
        environment.projectId = secret.projectId ∧ environment.deletedAt = none) ∧
    (∀ environment ∈ reached.environments, environment.deletedAt = none →
      ∃ project ∈ reached.projects, project.id = environment.projectId ∧
        project.deletedAt = none) := by
  intro reached
  have hsound : Sound (marks reached) := sound_afterAll (sound_of_isEmpty hempty) events
  constructor
  · intro secret hsecret hactive
    have hmark := hsound.environment_of_secret (mem_secrets hsecret) hactive
    obtain ⟨environment, hmem, heq⟩ := List.mem_map.mp hmark
    injection heq with hid hproject hdeleted hby
    exact ⟨environment, hmem, hid, hproject, hdeleted⟩
  · intro environment henvironment hactive
    have hmark := hsound.project_of_environment (mem_environments henvironment) hactive
    obtain ⟨project, hmem, heq⟩ := List.mem_map.mp hmark
    injection heq with hid hdeleted
    exact ⟨project, hmem, hid, hdeleted⟩

def createKey (time : Nat) (environmentId : Uuid) : Call :=
  callAt time (.secret (.create ⟨100⟩ environmentId { key := ofAscii "KEY", value := ofAscii "v" }))

/-- The environment of the first of two secrets is deleted. -/
theorem active_in_active_app :
    let reached := afterAll exampleConfig newOrganization
      [.call (createApp 1), .call (createKey 2 ⟨101⟩), .call (createKey 3 ⟨102⟩),
        .call (callAt 4 (.environment (.delete ⟨101⟩ true)))]
    reached.secrets.map (fun row => (row.id, row.deletedAt.isNone)) =
      [(⟨200⟩, false), (⟨300⟩, true)] ∧
    reached.environments.map (fun row => (row.id, row.deletedAt.isNone)) =
      [(⟨101⟩, false), (⟨102⟩, true), (⟨103⟩, true)] ∧
    (∀ secret ∈ reached.secrets, secret.deletedAt = none →
      ∃ environment ∈ reached.environments, environment.id = secret.environmentId ∧
        environment.projectId = secret.projectId ∧ environment.deletedAt = none) ∧
    (∀ environment ∈ reached.environments, environment.deletedAt = none →
      ∃ project ∈ reached.projects, project.id = environment.projectId ∧
        project.deletedAt = none) :=
  ⟨by decide +kernel, by decide +kernel, active_in_active ⟨rfl, rfl, rfl⟩ _⟩

/-! ## Deletion and restoration -/

theorem deletion_change (h : Consistent (marks db)) {call : Call} {x : Id}
    (hdeletes : deleted call.action = some x) (hcommits : commits config db call = true) :
    Change (.delete x) (marks db) (marks (respond config db call).2) := by
  obtain ⟨answer, hok⟩ := commits_iff.mp hcommits
  refine transact_of_ensures (Q := fun _ db' => Change (.delete x) (marks db) (marks db')) ?_ hok
  unfold program
  revert hdeletes
  cases call.action with
  | project call =>
    cases call with
    | delete projectId =>
      intro hdeletes
      cases hdeletes
      exact ensures_answering (Projects.delete_spec h)
    | create | getBySlug | getById | list | update | setArchived | restore => nofun
  | environment call =>
    cases call with
    | delete environmentId confirmSecrets =>
      intro hdeletes
      cases hdeletes
      refine ensures_answering ((delete_spec h).mono fun _ db' hspec => ?_)
      obtain ⟨row, -, -, -, -, hchange⟩ := hspec
      exact hchange
    | list | get | create | update | reorder | restore => nofun
  | secret call => nofun

theorem restoration_change (h : Consistent (marks db)) {call : Call} {x : Id}
    (hrestores : restored call.action = some x) (hcommits : commits config db call = true) :
    Change (.restore x) (marks db) (marks (respond config db call).2) := by
  obtain ⟨answer, hok⟩ := commits_iff.mp hcommits
  refine transact_of_ensures (Q := fun _ db' => Change (.restore x) (marks db) (marks db')) ?_ hok
  unfold program
  revert hrestores
  cases call.action with
  | project call =>
    cases call with
    | restore projectId =>
      intro hrestores
      cases hrestores
      exact ensures_answering (Projects.restore_spec h)
    | create | getBySlug | getById | list | update | setArchived | delete => nofun
  | environment call =>
    cases call with
    | restore environmentId =>
      intro hrestores
      cases hrestores
      refine ensures_answering ((restore_spec h).mono fun _ db' hspec => ?_)
      obtain ⟨row, -, -, -, -, -, hchange⟩ := hspec
      exact hchange
    | list | get | create | update | reorder | delete => nofun
  | secret call => nofun

/-- The event does not bring `x` back: a call that would restore it fails. -/
def Spares (config : Config) (x : Id) (db : Db wrapper) : Event wrapper → Prop
  | .call call => restored call.action = some x → commits config db call = false
  | .others _ => True

def step (config : Config) (db : Db wrapper) (event : Event wrapper) : Option (Db wrapper) :=
  some (after config db event)

theorem permits_ne {restored : Option Id} {x : Id} (hne : restored ≠ some x)
    (hx : ∀ id, x ≠ .secret id) {a : SoftDelete.Action Id} (ha : Permits restored a) :
    a ≠ .restore x := by
  rintro rfl
  cases x with
  | project id => exact hne ha
  | environment id => exact hne ha
  | secret id => exact hx id rfl

/-- Nothing in an event that spares `x` restores it. -/
theorem after_moves (h : Sound (marks db)) {x : Id} (hx : ∀ id, x ≠ .secret id)
    {event : Event wrapper} (hspares : Spares config x db event) :
    Moves (· ≠ .restore x) (forest (marks db)) (forest (marks (after config db event))) := by
  cases event with
  | others tables => exact .refl
  | call call =>
    by_cases hrestores : restored call.action = some x
    · obtain ⟨error, herror⟩ := not_commits_iff.mp (hspares hrestores)
      show Moves _ _ (forest (marks (respond config db call).2))
      rw [respond_of_error herror]
      exact .refl
    · exact ((respond_changes h call).refines h).1.mono fun a => permits_ne hrestores hx

theorem afterAll_moves (h : Sound (marks db)) {x : Id} (hx : ∀ id, x ≠ .secret id)
    {events : List (Event wrapper)}
    (hspares : Runs.Guarded (step config) (Spares config x) db events) :
    Moves (· ≠ .restore x) (forest (marks db)) (forest (marks (afterAll config db events))) := by
  induction events generalizing db with
  | nil => exact .refl
  | cons event events ih =>
    exact (after_moves h hx hspares.1).trans (ih (sound_after h event) (hspares.2 _ rfl))

/-- Whether an environment is active, if it exists. -/
def environmentActive (db : Db wrapper) (id : Uuid) : Option Bool :=
  (db.environments.find? (·.id = id)).map (·.deletedAt.isNone)

/-- Whether a secret is active, if it exists. -/
def secretActive (db : Db wrapper) (id : Uuid) : Option Bool :=
  (db.secrets.find? (·.id = id)).map (·.deletedAt.isNone)

theorem environmentActive_eq (db : Db wrapper) (id : Uuid) :
    environmentActive db id =
      ((forest (marks db)).status (.environment id)).map fun status => decide (status = .active) := by
  have hfind : (marks db).environmentOf id =
      (db.environments.find? (·.id = id)).map environmentMark := List.find?_map ..
  have hstatus : (forest (marks db)).status (.environment id) =
      ((marks db).environmentOf id).map EnvironmentMark.status := rfl
  rw [environmentActive, hstatus, hfind]
  cases db.environments.find? (·.id = id) with
  | none => rfl
  | some row => cases hdeleted : row.deletedAt <;> simp [environmentMark, hdeleted]

theorem secretActive_eq (db : Db wrapper) (id : Uuid) :
    secretActive db id =
      ((forest (marks db)).status (.secret id)).map fun status => decide (status = .active) := by
  have hfind : (marks db).secretOf id = (db.secrets.find? (·.id = id)).map secretMark :=
    List.find?_map ..
  have hstatus : (forest (marks db)).status (.secret id) =
      ((marks db).secretOf id).map SecretMark.status := rfl
  rw [secretActive, hstatus, hfind]
  cases db.secrets.find? (·.id = id) with
  | none => rfl
  | some row => cases hdeleted : row.deletedAt <;> simp [secretMark, hdeleted]

theorem deleted_ne_secret {action : Services.Action} {x : Id} (h : deleted action = some x) :
    ∀ id, x ≠ .secret id := by
  rintro id rfl
  unfold deleted at h
  split at h <;> cases h

/-- The environments and secrets in a deleted node are, after its restoration, as they were. -/
theorem status_of_restoration {found taken later back : Marks} (h : Sound found) {x : Id}
    (hdelete : Change (.delete x) found taken) (hlater : Sound later)
    (hmoves : Moves (· ≠ .restore x) (forest taken) (forest later))
    (hrestore : Change (.restore x) later back) {n : Id} (hn : (forest found).status n ≠ none)
    (hin : x ∈ (forest found).ancestors n) :
    (forest back).status n = (forest found).status n := by
  obtain ⟨henabled, hdeleted, -⟩ := hdelete.refines h
  obtain ⟨-, hrestored, -⟩ := hrestore.refines hlater
  rw [hdeleted] at hmoves
  rw [hrestored]
  exact restore_undoes_delete h.wellFormed henabled hmoves hn (.inr hin)

/-- **A restoration undoes its deletion exactly.** -/
theorem restoration_undoes_deletion {start : Db wrapper} (hempty : Db.IsEmpty start)
    (before between : List (Event wrapper)) {x : Id} {deletion restoration : Call}
    (hdeletes : deleted deletion.action = some x)
    (hrestores : restored restoration.action = some x) :
    let found := afterAll config start before
    let taken := (respond config found deletion).2
    let later := afterAll config taken between
    let back := (respond config later restoration).2
    commits config found deletion = true →
    Runs.Guarded (step config) (Spares config x) taken between →
    commits config later restoration = true →
    (∀ row ∈ found.environments, x = .project row.projectId →
      environmentActive back row.id = some row.deletedAt.isNone) ∧
    (∀ row ∈ found.secrets, x = .project row.projectId ∨ x = .environment row.environmentId →
      secretActive back row.id = some row.deletedAt.isNone) := by
  intro found taken later back hdeleted hspares hrestored
  have hfound : Sound (marks found) := sound_afterAll (sound_of_isEmpty hempty) before
  have hdelete := deletion_change hfound.consistent hdeletes hdeleted
  have htaken : Sound (marks taken) := (hdelete.refines hfound).2.2
  have hlater : Sound (marks later) := sound_afterAll htaken between
  have hmoves := afterAll_moves htaken (deleted_ne_secret hdeletes) hspares
  have hrestore := restoration_change hlater.consistent hrestores hrestored
  obtain ⟨-, henvironments, hsecrets⟩ := nodup_of_consistent hfound.consistent
  constructor
  · rintro row hrow rfl
    obtain ⟨hstatus, hanc⟩ := hfound.consistent.status_environment (mem_environments hrow)
    have hback := status_of_restoration hfound hdelete hlater hmoves hrestore
      (ne_none_of_eq hstatus) (by rw [hanc]; exact List.mem_singleton_self _)
    have hsame : environmentActive found row.id = some row.deletedAt.isNone := by
      rw [environmentActive, find_of_mem henvironments hrow, Option.map_some]
    rw [← hsame, environmentActive_eq, environmentActive_eq]
    exact congrArg _ hback
  · intro row hrow hin
    obtain ⟨hstatus, hanc⟩ := hfound.consistent.status_secret (mem_secrets hrow)
    have hback := status_of_restoration hfound hdelete hlater hmoves hrestore
      (ne_none_of_eq hstatus) (by rw [hanc]; rcases hin with rfl | rfl <;>
        simp [SecretMark.ancestors, secretMark])
    have hsame : secretActive found row.id = some row.deletedAt.isNone := by
      rw [secretActive, find_of_mem hsecrets hrow, Option.map_some]
    rw [← hsame, secretActive_eq, secretActive_eq]
    exact congrArg _ hback

/-- One of two secrets and an environment are deleted before their project, and the project is
restored. -/
theorem restoration_undoes_deletion_app :
    let found := afterAll exampleConfig newOrganization
      [.call (createApp 1), .call (createKey 2 ⟨101⟩), .call (createKey 3 ⟨102⟩),
        .call (callAt 4 (.secret (.delete ⟨300⟩))),
        .call (callAt 5 (.environment (.delete ⟨103⟩ false)))]
    let taken := (respond exampleConfig found (callAt 6 (.project (.delete ⟨100⟩)))).2
    let later := afterAll exampleConfig taken
      [.call (callAt 7 (.environment (.restore ⟨102⟩)))]
    let back := (respond exampleConfig later (callAt 8 (.project (.restore ⟨100⟩)))).2
    found.secrets.map (fun row => (row.id, row.deletedAt.isNone)) =
      [(⟨200⟩, true), (⟨300⟩, false)] ∧
    (secretActive taken ⟨200⟩, secretActive back ⟨200⟩, secretActive back ⟨300⟩) =
      (some false, some true, some false) ∧
    (∀ row ∈ found.environments, Id.project ⟨100⟩ = .project row.projectId →
      environmentActive back row.id = some row.deletedAt.isNone) ∧
    (∀ row ∈ found.secrets, Id.project ⟨100⟩ = .project row.projectId ∨
        Id.project ⟨100⟩ = .environment row.environmentId →
      secretActive back row.id = some row.deletedAt.isNone) := by
  refine ⟨by decide +kernel, by decide +kernel, ?_⟩
  refine restoration_undoes_deletion ⟨rfl, rfl, rfl⟩ _ _ rfl rfl ?_ ?_ ?_
  · decide +kernel
  · exact ⟨nofun, fun _ _ => trivial⟩
  · decide +kernel

end Himitsu.Lifecycle
