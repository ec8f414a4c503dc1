import Himitsu.Library.Commits
import Himitsu.Secrets.Traces

/-!
# What the calls write to the versions

* `Writing` — the writes of a call on secrets: new versions and creations, between writes that leave
  the versions and insert no row that others refer to.
* `writing_of_call` — every call on secrets writes like that.
* `Numbered` — an update that sets the version of a secret comes after the insertion of that version,
  and every new secret is given a version.
* `numbered_of_call` — what every call of an organization writes is numbered.
-/

set_option autoImplicit false

namespace Himitsu.Secrets

open JsString Crypto Database Services Transactions

variable {wrapper : KeyWrapper} {platform : Platform}

/-! ## Writes of the secret service -/

/-- A write that leaves the versions, and inserts no environment and no project. -/
def IsPlain : Write → Prop
  | .insertSecret _ | .insertSecretVersion _ | .insertEnvironment _ | .insertProject _ => False
  | .updateSecret _ set => set.currentVersion = none
  | _ => True

inductive Writing : List Write → Prop
  | nil : Writing []
  | plain {w : Write} {ws : List Write} : IsPlain w → Writing ws → Writing (w :: ws)
  | version {before : Secret} {recordAudit : Bool} {vs ws : List Write} :
      WritesVersion before recordAudit vs → Writing ws → Writing (vs ++ ws)
  | creation {projectId environmentId : Uuid} {recordAudit : Bool} {vs ws : List Write} :
      CreatesSecret projectId environmentId recordAudit vs → Writing ws → Writing (vs ++ ws)

theorem Writing.append {ws ws' : List Write} (h : Writing ws) (h' : Writing ws') :
    Writing (ws ++ ws') := by
  induction h with
  | nil => exact h'
  | plain hw _ ih => exact .plain hw ih
  | version hvs _ ih =>
    rw [List.append_assoc]
    exact .version hvs ih
  | creation hvs _ ih =>
    rw [List.append_assoc]
    exact .creation hvs ih

theorem writing_of_plain {ws : List Write} (h : ∀ w ∈ ws, IsPlain w) : Writing ws := by
  induction ws with
  | nil => exact .nil
  | cons w ws ih =>
    exact .plain (h w (List.mem_cons_self ..)) (ih fun w hw => h w (List.mem_cons_of_mem _ hw))

/-- Every way through a program writes like that. -/
abbrev IsWriting {α : Type} (p : TransactionM wrapper α) : Prop := Traces (fun ws _ => Writing ws) p

section

variable {α β : Type}

theorem IsWriting.bind {p : TransactionM wrapper α} {f : α → TransactionM wrapper β}
    (hp : IsWriting p) (hf : ∀ a, IsWriting (f a)) : IsWriting (p >>= f) :=
  Traces.bind hp fun _ a hws => (hf a).mono fun _ _ hws' => hws.append hws'

theorem isWriting_of_emits {p : TransactionM wrapper α} (h : Emits IsPlain p) : IsWriting p :=
  h.traces.mono fun _ _ hws => writing_of_plain hws

theorem isWriting_pure (a : α) : IsWriting (pure a : TransactionM wrapper α) := traces_pure .nil

theorem isWriting_attempt {ε : Type} {wrap : ε → ServiceError} {result : Except ε α} :
    IsWriting (attempt wrap result : TransactionM wrapper α) :=
  isWriting_of_emits (emits_ofExcept _)

theorem isWriting_forEach {f : Nat → β → TransactionM wrapper α} {bs : List β}
    (h : ∀ n b, IsWriting (f n b)) (n : Nat) : IsWriting (Prog.forEach f n bs) :=
  Traces.forEach .nil (fun _ _ hws hws' => hws.append hws') (fun n b _ => h n b) n

end

theorem readWrites_isPlain : ReadWrites IsPlain := ⟨fun _ => trivial, fun _ => trivial⟩

theorem isWriting_writeVersion {draws : Draws} {n : Nat} {userId : Uuid} {before : SecretRow}
    {input : VersionInput} {action : VersionAction} {recordAudit : Bool} :
    IsWriting (writeVersion platform draws n userId before input action recordAudit :
      TransactionM wrapper _) := by
  intro stmts ws metadata h
  rw [← List.append_nil ws]
  exact .version (does_writeVersion h) .nil

theorem isWriting_create {draws : Draws} {n : Nat} {userId projectId environmentId : Uuid}
    {input : SetSecretInput} {authorized recordAudit : Bool} :
    IsWriting (create platform draws n userId projectId environmentId input authorized recordAudit :
      TransactionM wrapper _) := by
  intro stmts ws metadata h
  rw [← List.append_nil ws]
  exact .creation (does_create h) .nil

theorem isWriting_scope {α : Type} {projectId environmentId userId : Uuid}
    {permission : Authz.Permission} {f : Database.Environment → TransactionM wrapper α}
    (h : ∀ scope, IsWriting (f scope)) :
    IsWriting (environment projectId environmentId >>= fun scope =>
      authorizeIn userId projectId scope permission >>= fun _ => f scope) :=
  IsWriting.bind (isWriting_of_emits (emits_secretEnvironment _ _)) fun scope =>
    IsWriting.bind (isWriting_of_emits (emits_authorizeUser _ _ _ _)) fun _ => h scope

section

variable {draws : Draws} {userId : Uuid}

theorem isWriting_rollback {secretId : Uuid} {targetVersion : Nat} {input : RollbackInput} :
    IsWriting (rollback platform draws userId secretId targetVersion input :
      TransactionM wrapper _) := by
  refine Traces.ite (fun _ => traces_fail) fun _ => IsWriting.bind
    (isWriting_of_emits (emits_metadataRow _ _ _)) fun before => isWriting_scope fun scope => ?_
  refine Traces.ite (fun _ => traces_fail) fun _ => Traces.ite (fun _ => traces_fail) fun _ => ?_
  exact IsWriting.bind (isWriting_of_emits (emits_versionValueRow _ _ _)) fun _ =>
    IsWriting.bind (isWriting_of_emits (emits_decrypt _ readWrites_isPlain _ _)) fun _ =>
      isWriting_writeVersion

theorem isWriting_update {secretId : Uuid} {input : UpdateSecretInput} :
    IsWriting (update platform draws userId secretId input : TransactionM wrapper _) := by
  refine IsWriting.bind (isWriting_of_emits (emits_metadataRow _ _ _)) fun before =>
    isWriting_scope fun scope => Traces.ite (fun _ => traces_fail) fun _ => ?_
  cases input.value with
  | none =>
    exact Traces.ite (fun _ => traces_fail) fun _ => isWriting_of_emits
      (emits_writeMetadata _ ⟨fun _ hversion _ => hversion, trivial, fun _ => trivial,
        fun _ => trivial⟩ _ _ _)
  | some value => exact isWriting_writeVersion

theorem isWriting_delete {secretId : Uuid} :
    IsWriting (delete platform draws userId secretId : TransactionM wrapper _) :=
  IsWriting.bind (isWriting_of_emits (emits_metadataRow _ _ _)) fun _ =>
    isWriting_scope fun _ => isWriting_of_emits (Emits.bind (emits_updateSecrets fun _ _ => rfl)
      fun _ => Emits.bind (emits_record (fun _ => trivial) _ _) fun _ => emits_ok _)

theorem isWriting_bulkSet {projectId environmentId : Uuid} {inputs : List SetSecretInput} :
    IsWriting (bulkSet platform draws userId projectId environmentId inputs :
      TransactionM wrapper _) := by
  refine Traces.ite (fun _ => traces_fail) fun _ => IsWriting.bind isWriting_attempt fun keys =>
    Traces.ite (fun _ => traces_fail) fun _ => isWriting_scope fun scope =>
      isWriting_forEach (fun n item => ?_) 0
  refine IsWriting.bind isWriting_attempt fun key =>
    IsWriting.bind (isWriting_of_emits (emits_selectForUpdate _ _)) fun existing => ?_
  cases existing with
  | none => exact isWriting_create
  | some row => exact isWriting_writeVersion

theorem isWriting_importOne {projectId environmentId : Uuid} {strategy : SecretImportStrategy}
    {selected : List JsString} {format : SecretImportFormat} {existing : List SecretRow} {n : Nat}
    {item : SetSecretInput × JsString} :
    IsWriting (importOne platform draws userId projectId environmentId strategy selected format
      existing n item : TransactionM wrapper _) := by
  unfold importOne
  refine Traces.ite (fun _ => isWriting_pure _) fun _ => ?_
  cases existing.find? fun row => row.secret.key = item.2 with
  | none => exact IsWriting.bind isWriting_create fun _ => isWriting_pure _
  | some row => exact IsWriting.bind isWriting_writeVersion fun _ => isWriting_pure _

theorem isWriting_importBatch {projectId environmentId : Uuid} {inputs : List SetSecretInput}
    {strategy : SecretImportStrategy} {selectedKeys : List JsString}
    {format : SecretImportFormat} :
    IsWriting (importBatch platform draws userId projectId environmentId inputs strategy
      selectedKeys format : TransactionM wrapper _) := by
  refine Traces.ite (fun _ => traces_fail) fun _ => IsWriting.bind isWriting_attempt fun keys =>
    Traces.ite (fun _ => traces_fail) fun _ => Traces.ite (fun _ => traces_fail) fun _ =>
      isWriting_scope fun scope => ?_
  refine IsWriting.bind isWriting_attempt fun stored =>
    IsWriting.bind (isWriting_of_emits (emits_selectForUpdate _ _)) fun existing =>
      IsWriting.bind (isWriting_forEach (fun _ _ => isWriting_importOne) 0) fun outcomes => ?_
  exact isWriting_of_emits (Emits.bind (emits_select _) fun _ =>
    Emits.bind (emits_record (fun _ => trivial) _ _) fun _ => emits_ok _)

theorem isWriting_promoteOne {projectId source target : Uuid} {targets : List SecretValueRow}
    {n : Nat} {row : SecretValueRow} :
    IsWriting (promoteOne platform draws userId projectId source target targets n row :
      TransactionM wrapper _) := by
  unfold promoteOne
  refine IsWriting.bind (isWriting_of_emits (emits_decrypt _ readWrites_isPlain _ _))
    fun plaintext => ?_
  dsimp only
  cases targetOf targets row with
  | none => exact isWriting_create
  | some before => exact isWriting_writeVersion

theorem isWriting_promote {projectId source target : Uuid} {keys : Option (List JsString)} :
    IsWriting (promote platform draws userId projectId source target keys :
      TransactionM wrapper _) := by
  refine IsWriting.bind (isWriting_of_emits (emits_authorizePromotion _ _ _ _ _)) fun normalized =>
    IsWriting.bind (isWriting_of_emits (emits_selectPromotion _ _ _ _ _ _)) fun rows =>
      IsWriting.bind (isWriting_of_emits (emits_promotionPreview _ readWrites_isPlain _ _ _ _))
        fun preview => IsWriting.bind (isWriting_forEach (fun _ _ => isWriting_promoteOne) 0)
          fun promoted => ?_
  exact isWriting_of_emits (Emits.bind (emits_select _) fun _ =>
    Emits.bind (emits_record (fun _ => trivial) _ _) fun _ => emits_ok _)

end

theorem isWriting_answering {α : Type} {wrap : α → Answer} {p : TransactionM wrapper α}
    (h : IsWriting p) : IsWriting (answering wrap p) :=
  h.bind fun _ => isWriting_pure _

/-- **Every call on secrets writes versions and creations and nothing else of the kind.** -/
theorem writing_of_call {config : Config} {userId : Uuid} {draws : Draws} (call : SecretCall) :
    IsWriting (call.program config userId draws : TransactionM wrapper Answer) := by
  by_cases hread : isRead call = true
  · exact isWriting_of_emits (emits_read readWrites_isPlain config userId draws hread)
  · cases call with
    | rollback => exact isWriting_answering isWriting_rollback
    | create => exact isWriting_answering isWriting_create
    | update => exact isWriting_answering isWriting_update
    | bulkSet => exact isWriting_answering isWriting_bulkSet
    | importBatch => exact isWriting_answering isWriting_importBatch
    | promote => exact isWriting_answering isWriting_promote
    | delete => exact isWriting_answering isWriting_delete
    | list | get | runtimeConfig | exportConfig | listVersions | compareVersions
    | previewPromotion => exact absurd rfl hread

/-! ## Numbers -/

structure Numbered (ws : List Write) : Prop where
  update : ∀ earlier id set later version, ws = earlier ++ .updateSecret id set :: later →
    set.currentVersion = some version → 1 ≤ version ∧
      ∃ row, .insertSecretVersion row ∈ earlier ∧ row.secretId = id ∧ row.version = version
  creation : ∀ earlier row later, ws = earlier ++ .insertSecret row :: later →
    ∃ set, .updateSecret row.id set ∈ later ∧ set.currentVersion = some (row.currentVersion + 1)

/-- A write that neither inserts a secret nor sets a version. -/
def SetsNoVersion : Write → Prop
  | .insertSecret _ => False
  | .updateSecret _ set => set.currentVersion = none
  | _ => True

theorem IsPlain.setsNoVersion {w : Write} (h : IsPlain w) : SetsNoVersion w := by
  cases w with
  | insertSecret => exact h
  | updateSecret id set => exact h
  | _ => trivial

/-- A write in joined lists is in one of them. -/
theorem append_eq_append_cons {α : Type} {xs ys earlier later : List α} {x : α}
    (h : xs ++ ys = earlier ++ x :: later) :
    (∃ rest, xs = earlier ++ x :: rest ∧ later = rest ++ ys) ∨
      ∃ rest, earlier = xs ++ rest ∧ ys = rest ++ x :: later := by
  rcases List.append_eq_append_iff.mp h with ⟨rest, hearlier, hys⟩ | ⟨rest, hxs, hlater⟩
  · exact .inr ⟨rest, hearlier, hys⟩
  · cases rest with
    | nil =>
      rw [List.append_nil] at hxs
      exact .inr ⟨[], by rw [hxs, List.append_nil], hlater.symm⟩
    | cons y rest =>
      cases hlater
      exact .inl ⟨rest, hxs, rfl⟩

theorem numbered_of_plain {ws : List Write} (h : ∀ w ∈ ws, SetsNoVersion w) : Numbered ws := by
  refine ⟨fun earlier id set later version hsplit hset => ?_, fun earlier row later hsplit => ?_⟩
  · have hnone : set.currentVersion = none := h (.updateSecret id set) (by simp [hsplit])
    rw [hnone] at hset
    cases hset
  · exact (h (.insertSecret row) (by simp [hsplit])).elim

theorem Numbered.append {ws ws' : List Write} (h : Numbered ws) (h' : Numbered ws') :
    Numbered (ws ++ ws') := by
  refine ⟨fun earlier id set later version hsplit hset => ?_, fun earlier row later hsplit => ?_⟩
  · rcases append_eq_append_cons hsplit with ⟨rest, hws, -⟩ | ⟨rest, rfl, hws'⟩
    · exact h.update _ _ _ _ _ hws hset
    · obtain ⟨hpositive, row, hrow, hid⟩ := h'.update _ _ _ _ _ hws' hset
      exact ⟨hpositive, row, List.mem_append_right _ hrow, hid⟩
  · rcases append_eq_append_cons hsplit with ⟨rest, hws, rfl⟩ | ⟨rest, rfl, hws'⟩
    · obtain ⟨set, hmem, hset⟩ := h.creation _ _ _ hws
      exact ⟨set, List.mem_append_left _ hmem, hset⟩
    · exact h'.creation _ _ _ hws'

theorem WritesVersion.numbered {before : Secret} {recordAudit : Bool} {ws : List Write}
    (h : WritesVersion before recordAudit ws) : Numbered ws := by
  obtain ⟨keyWrites, version, rest, rfl, hkeys, hid, -, hversion, hrest⟩ := h.split
  refine (numbered_of_plain fun w hw => ?_).append ⟨fun earlier id set later number hsplit hset => ?_,
    fun earlier row later hsplit => ?_⟩
  · obtain ⟨_, _, rfl⟩ := hkeys w hw
    trivial
  · cases earlier with
    | nil => cases hsplit
    | cons first earlier =>
      obtain ⟨rfl, hrest'⟩ := List.cons.inj hsplit
      obtain ⟨rfl, hnumber, -⟩ := hrest (.updateSecret id set) (by simp [hrest'])
      rw [hnumber, Option.some.injEq] at hset
      exact ⟨by omega, version, List.mem_cons_self .., rfl, hset⟩
  · cases earlier with
    | nil => cases hsplit
    | cons first earlier =>
      obtain ⟨rfl, hrest'⟩ := List.cons.inj hsplit
      exact (hrest (.insertSecret row) (by simp [hrest'])).elim

theorem CreatesSecret.numbered {projectId environmentId : Uuid} {recordAudit : Bool}
    {ws : List Write} (h : CreatesSecret projectId environmentId recordAudit ws) : Numbered ws := by
  obtain ⟨before, preparation, rest, rfl, hprepares, -, -, hversion⟩ := h.split
  rcases hprepares with rfl | hprepares
  · refine ⟨fun earlier id set later version hsplit hset => ?_, fun earlier row later hsplit => ?_⟩
    · rcases append_eq_append_cons hsplit with ⟨rest', hnil, -⟩ | ⟨rest', rfl, hrest⟩
      · cases earlier with
        | nil => cases hnil
        | cons _ earlier => simp at hnil
      · obtain ⟨hpositive, row, hrow, hid⟩ := hversion.numbered.update _ _ _ _ _ hrest hset
        exact ⟨hpositive, row, List.mem_append_right _ hrow, hid⟩
    · rcases append_eq_append_cons hsplit with ⟨rest', hnil, rfl⟩ | ⟨rest', rfl, hrest⟩
      · cases earlier with
        | nil =>
          cases hnil
          exact hversion.updates
        | cons _ earlier => simp at hnil
      · exact hversion.numbered.creation _ _ _ hrest
  · refine (numbered_of_plain fun w hw => ?_).append hversion.numbered
    obtain ⟨_, rfl⟩ := hprepares w hw
    rfl

theorem WritesVersion.not_insertEnvironment {before : Secret} {recordAudit : Bool}
    {ws : List Write} (h : WritesVersion before recordAudit ws) (row : Database.Environment) :
    .insertEnvironment row ∉ ws := by
  obtain ⟨keyWrites, version, rest, rfl, hkeys, -, -, -, hrest⟩ := h.split
  intro hmem
  rcases List.mem_append.mp hmem with hmem | hmem
  · obtain ⟨_, _, hwrite⟩ := hkeys _ hmem
    cases hwrite
  · rcases List.mem_cons.mp hmem with hwrite | hmem
    · cases hwrite
    · exact hrest _ hmem

theorem Writing.numbered {ws : List Write} (h : Writing ws) : Numbered ws := by
  induction h with
  | nil => exact numbered_of_plain fun _ hw => absurd hw List.not_mem_nil
  | @plain w ws hw _ ih =>
    have hone : Numbered [w] := numbered_of_plain fun other hother => by
      rw [List.mem_singleton.mp hother]
      exact hw.setsNoVersion
    exact hone.append ih
  | version hvs _ ih => exact hvs.numbered.append ih
  | creation hvs _ ih => exact hvs.numbered.append ih

/-- **What a call writes is numbered.** -/
theorem numbered_of_call {config : Config} {call : Call} {stmts : List (DbStatement wrapper)}
    {ws : List Write} {answer : Answer}
    (h : Does (program config call : TransactionM wrapper Answer) stmts ws answer) :
    Numbered ws := by
  cases haction : call.action with
  | project action =>
    simp only [program, haction] at h
    have hemits : Emits SetsNoVersion
        (action.program config call.userId call.draws : TransactionM wrapper Answer) :=
      emits_projectAction ⟨⟨fun _ _ => trivial, fun _ _ hset => hset, fun _ => trivial⟩,
        fun _ _ => trivial, fun _ => trivial, fun _ => trivial⟩ _ _ _
        fun _ _ => ⟨fun _ => trivial, fun _ => trivial⟩
    exact numbered_of_plain (hemits.does h)
  | environment action =>
    simp only [program, haction] at h
    have hemits : Emits SetsNoVersion
        (action.program config call.userId call.draws : TransactionM wrapper Answer) :=
      emits_environmentAction ⟨fun _ _ => trivial, fun _ _ hset => hset, fun _ => trivial⟩ _ _ _
        fun _ _ _ _ => trivial
    exact numbered_of_plain (hemits.does h)
  | secret action =>
    simp only [program, haction] at h
    exact (writing_of_call action _ _ _ h).numbered

/-- A call on secrets inserts no environment. -/
theorem Writing.not_insertEnvironment {ws : List Write} (h : Writing ws)
    (row : Database.Environment) : .insertEnvironment row ∉ ws := by
  intro hmem
  induction h with
  | nil => cases hmem
  | plain hw _ ih =>
    rcases List.mem_cons.mp hmem with rfl | hmem
    · exact hw
    · exact ih hmem
  | version hvs _ ih =>
    rcases List.mem_append.mp hmem with hmem | hmem
    · exact hvs.not_insertEnvironment row hmem
    · exact ih hmem
  | creation hvs _ ih =>
    rcases List.mem_append.mp hmem with hmem | hmem
    · obtain ⟨before, preparation, rest, rfl, hprepares, -, -, hversion⟩ := hvs.split
      rcases List.mem_append.mp hmem with hmem | hmem
      · rcases hprepares with rfl | hprepares
        · simp at hmem
        · obtain ⟨_, hwrite⟩ := hprepares _ hmem
          cases hwrite
      · exact hversion.not_insertEnvironment row hmem
    · exact ih hmem

end Himitsu.Secrets
