import Himitsu.Library.Commits
import Himitsu.Secrets.VersionWrites

/-!
# The ids of environments

* `InsertsFresh` — a statement inserts environments whose ids it finds unused.
* `insertsFresh_of_call` — so does every statement of every call.
* `environmentIds_nodup` — every commit keeps the ids of environments distinct: what a statement has
  found unused is locked until the commit.
-/

set_option autoImplicit false

namespace Himitsu.Services

open JsString Crypto Database Transactions Interleaving

variable {wrapper : KeyWrapper}

def insertedEnvironment : Write → Option Uuid
  | .insertEnvironment row => some row.id
  | _ => none

structure InsertsFresh (x : Statement (Db wrapper) Lock Write) : Prop where
  distinct : (x.writes.filterMap insertedEnvironment).Nodup
  unused : ∀ id ∈ x.writes.filterMap insertedEnvironment, x.view.environmentRows id = []

theorem insertsFresh_of_none {x : Statement (Db wrapper) Lock Write}
    (h : ∀ w ∈ x.writes, insertedEnvironment w = none) : InsertsFresh x := by
  have hnone : x.writes.filterMap insertedEnvironment = [] := List.filterMap_eq_nil_iff.mpr h
  refine ⟨?_, ?_⟩
  · rw [hnone]
    exact List.nodup_nil
  · rw [hnone]
    exact fun id hid => absurd hid List.not_mem_nil

theorem environmentRows_eq_nil {db : Db wrapper} {id : Uuid}
    (h : ∀ other ∈ db.environments, other.id ≠ id) : db.environmentRows id = [] := by
  rw [Db.environmentRows, List.filter_eq_nil_iff]
  intro other hother
  simpa using h other hother

/-! ## The calls -/

/-- A write that inserts no environment. -/
def InsertsNone (w : Write) : Prop := insertedEnvironment w = none

section

variable {α : Type}

theorem atEach_of_emits {p : TransactionM wrapper α} (h : Emits InsertsNone p) :
    AtEach InsertsFresh p :=
  fun stmts ws a hdoes x hx => insertsFresh_of_none (h.atEach stmts ws a hdoes x hx)

theorem environmentWrites_insertsNone : EnvironmentWrites InsertsNone where
  environment _ _ := rfl
  secret _ _ _ := rfl
  audit _ := rfl

theorem projectWrites_insertsNone : ProjectWrites InsertsNone where
  toEnvironmentWrites := environmentWrites_insertsNone
  project _ _ := rfl
  untag _ := rfl
  tag _ := rfl

theorem insertsFresh_insertEnvironment (id projectId : Uuid) (name slug : JsString)
    (isProtected : Bool) :
    AtEach InsertsFresh (Environments.insertRow id projectId name slug isProtected :
      TransactionM wrapper _) := by
  refine atEach_execute fun db environment hresult => ⟨List.nodup_singleton _, fun other hother => ?_⟩
  simp only at hresult
  split at hresult
  · cases hresult
  · rename_i hfree
    rw [List.mem_singleton.mp hother]
    refine environmentRows_eq_nil fun row hrow heq => hfree ?_
    exact List.any_eq_true.mpr ⟨row, hrow, by simp [heq, Environments.newRow]⟩

theorem insertsFresh_insertProject (draws : Draws) (row : Database.Project) :
    AtEach InsertsFresh (Projects.insertRow draws row : TransactionM wrapper _) := by
  refine atEach_execute fun db result hresult => ?_
  split at hresult
  · cases hresult
  · rename_i hfree
    rw [Bool.or_eq_true, not_or, Bool.not_eq_true, Bool.not_eq_true] at hfree
    obtain ⟨hunused, hdistinct⟩ := Projects.not_conflicts hfree.2
    generalize Projects.createDefaultProjectEnvironments row (fun n => draws.uuid (n + 1)) = rows
      at hunused hdistinct
    have hids : (Write.insertProject row :: rows.map .insertEnvironment).filterMap
        insertedEnvironment = rows.map (·.id) := by
      rw [List.filterMap_cons, List.filterMap_map]
      exact (List.filterMap_eq_map (f := fun row : Database.Environment => row.id)) ▸ rfl
    constructor
    · rw [hids]
      exact hdistinct
    · rw [hids]
      intro id hid
      obtain ⟨inserted, hinserted, rfl⟩ := List.mem_map.mp hid
      exact environmentRows_eq_nil (hunused inserted hinserted)

end

theorem insertsFresh_createEnvironment (draws : Draws) (userId projectId : Uuid)
    (input : Environments.CreateInput) :
    AtEach InsertsFresh (Environments.create draws userId projectId input :
      TransactionM wrapper _) := by
  refine AtEach.bind (atEach_of_emits (emits_requireActiveProject _)) fun _ =>
    AtEach.bind (atEach_of_emits (emits_authorizeUser _ _ _ _)) fun _ =>
      AtEach.bind (atEach_of_emits (emits_select _)) fun _ =>
        AtEach.ite (atEach_of_emits (emits_fail _)) (AtEach.mapError ?_)
  exact AtEach.bind (atEach_of_emits (emits_ofExcept _)) fun _ =>
    AtEach.bind (atEach_of_emits (emits_ofExcept _)) fun _ =>
      AtEach.bind (atEach_of_emits (emits_ofExcept _)) fun _ =>
        AtEach.bind (insertsFresh_insertEnvironment _ _ _ _ _) fun _ =>
          atEach_of_emits (Emits.bind (emits_record (fun _ => rfl) _ _) fun _ => emits_ok _)

theorem insertsFresh_createProject (platform : Platform) (draws : Draws) (userId : Uuid)
    (input : Projects.CreateInput) :
    AtEach InsertsFresh (Projects.create platform draws userId input :
      TransactionM wrapper _) := by
  refine AtEach.bind (atEach_of_emits (emits_authorizeUser _ _ _ _)) fun _ =>
    AtEach.bind (atEach_of_emits (emits_ofExcept _)) fun _ => AtEach.mapError ?_
  refine AtEach.bind (atEach_of_emits (emits_ofExcept _)) fun _ =>
    AtEach.bind (atEach_of_emits (emits_ofExcept _)) fun _ =>
      AtEach.bind (atEach_of_emits (emits_ofExcept _)) fun _ =>
        AtEach.bind (atEach_of_emits (emits_ofExcept _)) fun _ =>
          AtEach.bind (atEach_of_emits (emits_ofExcept _)) fun _ =>
            AtEach.bind (insertsFresh_insertProject _ _) fun _ => ?_
  exact atEach_of_emits (Emits.bind
    (emits_replaceProjectTags projectWrites_insertsNone _ _) fun _ =>
      Emits.bind (emits_getProject _ _ _ _) fun _ =>
        Emits.bind (emits_record (fun _ => rfl) _ _) fun _ => emits_ok _)

/-- **Every statement of every call inserts environments with new ids.** -/
theorem insertsFresh_of_call (config : Config) (call : Call) :
    AtEach InsertsFresh (program config call : TransactionM wrapper Answer) := by
  obtain ⟨userId, draws, action⟩ := call
  cases action with
  | project call =>
    by_cases hcreate : ∃ input, call = .create input
    · obtain ⟨input, rfl⟩ := hcreate
      exact AtEach.bind (insertsFresh_createProject _ _ _ _) fun _ =>
        atEach_of_emits (emits_ok _)
    · exact atEach_of_emits (emits_projectAction projectWrites_insertsNone config userId draws
        fun input hcall => absurd ⟨input, hcall⟩ hcreate)
  | environment call =>
    by_cases hcreate : ∃ projectId input, call = .create projectId input
    · obtain ⟨projectId, input, rfl⟩ := hcreate
      exact AtEach.bind (insertsFresh_createEnvironment _ _ _ _) fun _ =>
        atEach_of_emits (emits_ok _)
    · exact atEach_of_emits (emits_environmentAction environmentWrites_insertsNone config userId
        draws fun projectId input hcall => absurd ⟨projectId, input, hcall⟩ hcreate)
  | secret call =>
    intro stmts ws a hdoes x hx
    refine insertsFresh_of_none fun w hw => ?_
    have hwriting : Secrets.Writing ws := Secrets.writing_of_call call stmts ws a hdoes
    have hmem : w ∈ ws := by
      rw [hdoes.writes]
      exact List.mem_flatMap.mpr ⟨x, hx, hw⟩
    cases w with
    | insertEnvironment row => exact absurd hmem (hwriting.not_insertEnvironment row)
    | _ => rfl

/-! ## The commits -/

def environmentIds (db : Db wrapper) : List Uuid := db.environments.map (·.id)

theorem environmentIds_apply (w : Write) (db : Db wrapper) :
    environmentIds (apply w db) = environmentIds db ++ (insertedEnvironment w).toList := by
  cases w with
  | insertEnvironment row => exact List.map_append
  | updateSecret id set => exact List.map_map.trans (List.append_nil _).symm
  | updateEnvironment id set =>
    have hsame : environmentIds (apply (.updateEnvironment id set) db) = environmentIds db :=
      map_updateWhere (fun row => by rfl) db.environments
    rw [hsame]
    exact (List.append_nil _).symm
  | _ => exact (List.append_nil _).symm

theorem environmentIds_applyAll (ws : List Write) (db : Db wrapper) :
    environmentIds (store.applyAll ws db) =
      environmentIds db ++ ws.filterMap insertedEnvironment := by
  induction ws generalizing db with
  | nil => exact (List.append_nil _).symm
  | cons w ws ih =>
    rw [Store.applyAll_cons, ih]
    change environmentIds (apply w db) ++ _ = _
    rw [environmentIds_apply, List.append_assoc]
    cases hinserted : insertedEnvironment w with
    | none => rw [List.filterMap_cons_none hinserted, Option.toList_none, List.nil_append]
    | some id => rw [List.filterMap_cons_some hinserted, Option.toList_some, List.singleton_append]

/-- An inserted environment is locked. -/
theorem mem_touchesAll_of_inserted {ws : List Write} {db : Db wrapper} {id : Uuid}
    (h : id ∈ ws.filterMap insertedEnvironment) :
    .environment id ∈ store.touchesAll ws db := by
  induction ws generalizing db with
  | nil => cases h
  | cons w ws ih =>
    rw [Store.touchesAll, List.mem_append]
    obtain ⟨written, hwritten, hid⟩ := List.mem_filterMap.mp h
    rcases List.mem_cons.mp hwritten with rfl | hwritten
    · cases written with
      | insertEnvironment row =>
        cases hid
        exact .inl (List.mem_cons_self ..)
      | _ => cases hid
    · exact .inr (ih (List.mem_filterMap.mpr ⟨written, hwritten, hid⟩))

theorem not_mem_environmentIds {db : Db wrapper} {id : Uuid} (h : db.environmentRows id = []) :
    id ∉ environmentIds db := by
  intro hmem
  obtain ⟨row, hrow, heq⟩ := List.mem_map.mp hmem
  have hfound : row ∈ db.environmentRows id := List.mem_filter.mpr ⟨hrow, by simpa using heq⟩
  rw [h] at hfound
  cases hfound

/-- **A commit keeps the ids of environments distinct.** -/
theorem environmentIds_nodup {χ ρ : Type} {programs : χ → TransactionM wrapper ρ}
    (hprograms : ∀ call, AtEach InsertsFresh (programs call))
    {e : Entry (Db wrapper) Lock Write χ ρ} {stmts : List (Statement (Db wrapper) Lock Write)}
    (h : Ran store programs e stmts) (hbase : (environmentIds e.world.base).Nodup) :
    (environmentIds (e.world.view store)).Nodup := by
  have hfresh := hprograms e.call _ _ _ h.does
  have hbefore : ∀ before after, stmts = before ++ after →
      (environmentIds (store.applyAll (before.flatMap (·.writes)) e.world.base)).Nodup := by
    intro before
    induction before using List.reverseRecOn with
    | nil => exact fun _ _ => hbase
    | append_singleton before x ih =>
      intro after hsplit
      rw [List.append_assoc, List.singleton_append] at hsplit
      have hx : x ∈ stmts := hsplit ▸ List.mem_append_right _ (List.mem_cons_self ..)
      rw [List.flatMap_append, Store.applyAll_append, List.flatMap_singleton,
        environmentIds_applyAll]
      refine List.nodup_append.mpr ⟨ih _ hsplit, (hfresh x hx).distinct, ?_⟩
      rintro id hold _ hnew rfl
      -- the id was unused when the statement ran, and has been locked since
      have hpart := h.locked _ _ _ hsplit (.environment id)
        (List.mem_flatMap.mpr ⟨x, List.mem_append_right _ (List.mem_singleton_self x),
          List.mem_append_right _ (mem_touchesAll_of_inserted hnew)⟩)
      have hrows : (store.applyAll (before.flatMap (·.writes)) e.world.base).environmentRows id =
          x.view.environmentRows id := by
        change Contents.environment _ = Contents.environment _ at hpart
        exact Contents.environment.inj hpart
      rw [(hfresh x hx).unused id hnew] at hrows
      exact not_mem_environmentIds hrows hold
  have hall := hbefore stmts [] (List.append_nil _).symm
  rw [← h.does.writes] at hall
  exact hall

end Himitsu.Services
