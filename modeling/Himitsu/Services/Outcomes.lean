import Himitsu.Audit.Record
import Himitsu.Services.Updates

/-!
# What the common steps of the services do

* `allowed` — the decision of `authorizeUser`, which depends on the members only.
* `ensures_record`, `run_record` — a recorded event is the only change.
* `PrimaryKeys` — the ids of the rows of a table are distinct.
* `isStored`, `storedForm` — which texts are stored as they are, and how the others are stored.

Principal results: `allowed_read_of_write`, `allowed_list_of_create` — who may write a secret or
create a key may read it.
-/

set_option autoImplicit false

namespace Himitsu.Services

open JsString Crypto Database Transactions Authz

variable {wrapper : KeyWrapper} {db : Db wrapper}

/-! ## Arguments and conditions -/

/-- The current value, or what a check makes of the input. -/
def IsChecked {α β ε : Type} (current : β) (check : α → Except ε β) : Option α → β → Prop
  | none, value => value = current
  | some input, value => check input = .ok value

theorem ensures_checkedOr {α β ε : Type} {wrap : ε → ServiceError} {current : β}
    {check : α → Except ε β} {input : Option α} {Q : β → Db wrapper → Prop}
    (h : ∀ value, IsChecked current check input value → Q value db) :
    Ensures apply (checkedOr wrap current check input) db Q := by
  cases input with
  | none => exact ensures_done_ok.mpr (h current rfl)
  | some a => exact ensures_attempt.mpr h

theorem ensures_doIf {condition : Bool} {p : TransactionM wrapper Unit}
    {Q : Unit → Db wrapper → Prop} (hskip : condition = false → Q () db)
    (hstep : condition = true → Ensures apply p db Q) : Ensures apply (doIf condition p) db Q := by
  cases condition with
  | false => exact ensures_done_ok.mpr (hskip rfl)
  | true => exact hstep rfl

/-! ## Authorization -/

/-- Whether a user has a permission. -/
def allowed (db : Db wrapper) (userId : Uuid) (projectId : Option Uuid)
    (protectedEnvironment : Bool) (permission : Permission) : Bool :=
  (db.memberships.find? fun m => m.userId = userId && m.active).any fun membership =>
    (authorize ⟨membership.role, projectId.bind fun projectId =>
      (db.projectRoleOverrides.find? fun o => o.projectId = projectId && o.userId = userId).map
        (·.role), protectedEnvironment⟩ permission).allowed

theorem allowed_congr {db' : Db wrapper} (hmembers : db'.memberships = db.memberships)
    (hoverrides : db'.projectRoleOverrides = db.projectRoleOverrides) (userId : Uuid)
    (projectId : Option Uuid) (protectedEnvironment : Bool) (permission : Permission) :
    allowed db' userId projectId protectedEnvironment permission =
      allowed db userId projectId protectedEnvironment permission := by
  rw [allowed, allowed, hmembers, hoverrides]

/-- `authorizeUser` reads the members and decides. -/
theorem run_authorizeUser (userId : Uuid) (projectId : Option Uuid) (protectedEnvironment : Bool)
    (permission : Permission) :
    ∃ error : ServiceError,
      run apply (authorizeUser userId projectId protectedEnvironment permission) db =
        if allowed db userId projectId protectedEnvironment permission then .ok ((), db)
        else .error error := by
  unfold authorizeUser resolve allowed
  cases hmember : db.memberships.find? fun m => m.userId = userId && m.active with
  | none => exact ⟨.authorization noMembership, by simp [Prog.select, hmember, raise,
      Prog.fail]⟩
  | some membership =>
    have hdecide : ∀ context : AuthorizationContext, ∃ error : ServiceError,
        run apply (attempt .authorization (requirePermission context permission) :
          TransactionM wrapper Unit) db =
          if (authorize context permission).allowed then .ok ((), db) else .error error := by
      intro context
      refine ⟨.authorization (authorize context permission), ?_⟩
      unfold requirePermission attempt
      by_cases h : (authorize context permission).allowed = true
      · simp [h, Except.mapError, Prog.ofExcept]
      · simp [h, Except.mapError, Prog.ofExcept]
    cases projectId with
    | none =>
      obtain ⟨error, herror⟩ := hdecide ⟨membership.role, none, protectedEnvironment⟩
      refine ⟨error, ?_⟩
      simp [Prog.select, hmember, herror]
    | some projectId =>
      obtain ⟨error, herror⟩ := hdecide ⟨membership.role,
        (db.projectRoleOverrides.find? fun o => o.projectId = projectId && o.userId = userId).map
          (·.role), protectedEnvironment⟩
      refine ⟨error, ?_⟩
      simp [Prog.select, hmember, herror]

theorem run_authorizeUser_of_allowed {userId : Uuid} {projectId : Option Uuid}
    {protectedEnvironment : Bool} {permission : Permission}
    (h : allowed db userId projectId protectedEnvironment permission = true) :
    run apply (authorizeUser userId projectId protectedEnvironment permission) db =
      .ok ((), db) := by
  obtain ⟨error, hrun⟩ := @run_authorizeUser _ db userId projectId protectedEnvironment
    permission
  rw [hrun, if_pos h]

theorem ensures_authorizeUser {userId : Uuid} {projectId : Option Uuid}
    {protectedEnvironment : Bool} {permission : Permission} {Q : Unit → Db wrapper → Prop}
    (h : allowed db userId projectId protectedEnvironment permission = true → Q () db) :
    Ensures apply (authorizeUser userId projectId protectedEnvironment permission) db Q := by
  obtain ⟨error, hrun⟩ := @run_authorizeUser _ db userId projectId protectedEnvironment
    permission
  intro a db' hok
  rw [hrun] at hok
  split at hok
  · rename_i hallowed
    cases hok
    exact h hallowed
  · cases hok

theorem allowed_iff {userId : Uuid} {projectId : Option Uuid} {protectedEnvironment : Bool}
    {permission : Permission} :
    allowed db userId projectId protectedEnvironment permission = true ↔
      ∃ membership, (db.memberships.find? fun m => m.userId = userId && m.active) =
          some membership ∧
        (authorize ⟨membership.role, projectId.bind fun projectId =>
          (db.projectRoleOverrides.find? fun o => o.projectId = projectId &&
            o.userId = userId).map (·.role), protectedEnvironment⟩ permission).allowed = true := by
  unfold allowed
  cases db.memberships.find? fun m => m.userId = userId && m.active with
  | none => simp
  | some membership => simp

/-- Who may write a secret may read it. -/
theorem allowed_read_of_write {userId : Uuid} {projectId : Option Uuid}
    {protectedEnvironment : Bool}
    (h : allowed db userId projectId protectedEnvironment .secretWrite = true) :
    allowed db userId projectId protectedEnvironment .secretRead = true := by
  rw [allowed_iff] at h ⊢
  obtain ⟨membership, hmember, hallowed⟩ := h
  refine ⟨membership, hmember, ?_⟩
  rw [authorize_allowed_iff] at hallowed ⊢
  have hmatrix : ∀ role, permissionMatrix role .secretWrite = true →
      permissionMatrix role .secretRead = true := by
    intro role
    cases role <;> decide
  exact ⟨hmatrix _ hallowed.1, fun _ hwrite => absurd hwrite (by decide)⟩

/-- Who may create an API key, for a project or for the organization, may list all of them. -/
theorem allowed_list_of_create {userId : Uuid} {projectId : Option Uuid}
    (h : allowed db userId projectId false .apiKeyCreate = true) :
    allowed db userId none false .apiKeyRead = true := by
  rw [allowed_iff] at h ⊢
  obtain ⟨membership, hmember, hallowed⟩ := h
  refine ⟨membership, hmember, ?_⟩
  rw [authorize_allowed_iff] at hallowed ⊢
  have hmatrix : ∀ (role : Role) (override : Option ProjectOverrideRole),
      permissionMatrix (effectiveRole role override) .apiKeyCreate = true →
        permissionMatrix role .apiKeyRead = true := by
    intro role override
    cases role <;> rcases override with _ | override <;> try cases override
    all_goals decide
  exact ⟨hmatrix _ _ hallowed.1, fun hfalse => by cases hfalse⟩

/-! ## Events -/

theorem ensures_record {now : Timestamp} {event : Audit.AuditEventInput}
    {Q : Unit → Db wrapper → Prop}
    (h : ∀ row, Q () { db with auditEvents := db.auditEvents ++ [row] }) :
    Ensures apply (Audit.recordInTransaction now event) db Q := by
  unfold Audit.recordInTransaction
  rw [ensures_bind, ensures_attempt]
  intro _ _
  rw [ensures_bind, ensures_attempt]
  intro metadata _
  rw [ensures_execute]
  exact fun _ _ => h _

/-- An event that passes its checks is recorded. -/
theorem run_record {now : Timestamp} {event : Audit.AuditEventInput} {metadata : Json}
    (hevent : Audit.validateEvent event = .ok ()) (hmetadata : Audit.metadataFor event = .ok metadata) :
    ∃ row, run apply (Audit.recordInTransaction now event) db =
      .ok ((), { db with auditEvents := db.auditEvents ++ [row] }) := by
  refine ⟨Audit.eventRow event metadata now, ?_⟩
  unfold Audit.recordInTransaction attempt
  rw [hevent, hmetadata]
  rfl

/-! ## Tags -/

/-- The primary keys of the tables that the services look up by id. -/
structure PrimaryKeys (db : Db wrapper) : Prop where
  projects : (db.projects.map (·.id)).Nodup
  secrets : (db.secrets.map (·.id)).Nodup
  tags : (db.tags.map (·.id)).Nodup

/-- Ids that are counted in a table as often as there are ids are all there. -/
theorem subset_of_countP {α : Type} {key : α → Uuid} {rows : List α}
    (hrows : (rows.map key).Nodup) {ids : List Uuid}
    (hcount : rows.countP (fun row => ids.contains (key row)) = ids.length) :
    ids ⊆ rows.map key := by
  have hfiltered : ((rows.filter fun row => ids.contains (key row)).map key).Nodup :=
    hrows.sublist (List.filter_sublist.map key)
  have hsubset : ((rows.filter fun row => ids.contains (key row)).map key) ⊆ ids := by
    intro id hid
    obtain ⟨row, hrow, rfl⟩ := List.mem_map.mp hid
    exact List.contains_iff_mem.mp (List.mem_filter.mp hrow).2
  have hperm := (List.subperm_of_subset hfiltered hsubset).perm_of_length_le (by
    rw [List.length_map, ← List.countP_eq_length_filter, hcount])
  intro id hid
  obtain ⟨row, hrow, rfl⟩ := List.mem_map.mp (hperm.mem_iff.mpr hid)
  exact List.mem_map_of_mem (List.mem_of_mem_filter hrow)

/-- The tags of ids that are all in the table. -/
theorem map_filterMap_find {tags : List Tag} {ids : List Uuid} (h : ids ⊆ tags.map (·.id)) :
    (ids.filterMap fun id => tags.find? (·.id = id)).map (·.id) = ids := by
  induction ids with
  | nil => rfl
  | cons id ids ih =>
    rw [List.cons_subset] at h
    obtain ⟨tag, htag, rfl⟩ := List.mem_map.mp h.1
    cases hfind : tags.find? (·.id = tag.id) with
    | none => exact absurd (decide_eq_true rfl) (List.find?_eq_none.mp hfind tag htag)
    | some found =>
      have hid := List.find?_some hfind
      rw [List.filterMap_cons, hfind]
      simp only [List.map_cons, ih h.2, of_decide_eq_true hid]

/-! ## Texts -/

theorem trim_isPart (text : JsString) : trim text <:+: text :=
  (List.rdropWhile_prefix _ _).isInfix.trans (List.dropWhile_suffix _).isInfix

/-- Whether a text is stored as it is, as far as its white space and its surrogates go. -/
def isStored (text : JsString) : Bool := trim text = text && isWellFormed text

/-- What is stored of a text is the text only if it is stored as it is. -/
theorem stored_trim_iff {text : JsString} :
    toWellFormed (trim text) = text ↔ isStored text = true := by
  rw [isStored, Bool.and_eq_true, decide_eq_true_eq]
  constructor
  · intro h
    have hlength : (trim text).length = text.length := by
      rw [← toWellFormed_length (trim text), h]
    refine ⟨(trim_isPart text).eq_of_length hlength, ?_⟩
    rw [← h]
    exact isWellFormed_toWellFormed _
  · rintro ⟨htrim, hwell⟩
    rw [htrim, toWellFormed_of_isWellFormed hwell]

theorem storedText_eq {text stored : JsString} (h : storedText text = .ok stored) :
    stored = toWellFormed text := by
  unfold storedText at h
  split at h
  · cases h
  · cases h
    rfl

theorem storedOptional_eq {text stored : Option JsString} (h : storedOptional text = .ok stored) :
    stored = text.map toWellFormed := by
  cases text with
  | none =>
    cases h
    rfl
  | some text =>
    change (storedText text).map some = .ok stored at h
    cases hstored : storedText text with
    | error e =>
      rw [hstored] at h
      cases h
    | ok result =>
      rw [hstored] at h
      cases h
      rw [storedText_eq hstored]
      rfl

/-- Whether an optional text is stored as it is: an empty text is stored as none. -/
def isStoredOptional (text : Option JsString) : Bool :=
  text.all fun text => text ≠ [] && isStored text

/-- What is stored of an optional text, as far as it is not too long. -/
def storedForm (text : Option JsString) : Option JsString :=
  text.bind fun text => if trim text = [] then none else some (toWellFormed (trim text))

theorem storedForm_eq_iff {text : Option JsString} :
    storedForm text = text ↔ isStoredOptional text = true := by
  cases text with
  | none => simp [storedForm, isStoredOptional]
  | some text =>
    have htrim : trim text = [] → isStored text = true → text = [] := by
      intro hnil hstored
      rw [isStored, Bool.and_eq_true, decide_eq_true_eq, hnil] at hstored
      exact hstored.1.symm
    simp only [storedForm, isStoredOptional, Option.bind_some, Option.all_some, Bool.and_eq_true,
      decide_eq_true_eq]
    split
    · rename_i hnil
      constructor
      · intro h
        cases h
      · rintro ⟨hne, hstored⟩
        exact absurd (htrim hnil hstored) hne
    · rename_i hnil
      rw [Option.some.injEq, stored_trim_iff]
      refine ⟨fun h => ⟨?_, h⟩, fun h => h.2⟩
      rintro rfl
      exact hnil rfl

end Himitsu.Services
