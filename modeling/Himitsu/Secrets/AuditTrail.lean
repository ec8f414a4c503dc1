import Himitsu.Secrets.Traces

/-!
# The audit trail of secret access

* `IsAudited` — a committed transaction records an event for every stored value that it decrypts
  and for every secret whose value or status it changes; the event names the secret or its
  environment.
* `ByName`, `Within` — the two ways in which the operations do this: with an event for each secret,
  or with one for the environment.
* `accounts_of_call` — every operation but `previewPromotion` does one of them.

Principal result: `auditTrail_iff` — in a run every transaction is audited exactly when no
`previewPromotion` found a selected key in both of its environments: to compare the values it
decrypts them, and it records nothing.
-/

set_option autoImplicit false

namespace Himitsu.Secrets

open JsString Crypto Database Services Transactions Interleaving RelatedLists

variable {wrapper : KeyWrapper} {platform : Platform} {config : Config}

/-! ## Events and what they account for -/

/-- An event about an environment; the one of a promotion names the source in its details. -/
def NamesEnvironment (event : AuditEvent) (environmentId : Uuid) : Prop :=
  event.environmentId = some environmentId ∨
    ∃ details, Audit.jsonProperty event.metadata (ofAscii "details") = some (.object details) ∧
      Json.getProperty details (ofAscii "sourceEnvironmentId") = some (.string environmentId.text)

/-- The secret whose value or status a write changes. -/
def changedSecret : Write → Option Uuid
  | .insertSecret row => some row.id
  | .insertSecretVersion row => some row.secretId
  | .updateSecret id set =>
    if set.currentVersion.isSome || set.deletedAt.isSome then some id else none
  | _ => none

/-- The value and the status of a secret. -/
def secretState (db : Db wrapper) (id : Uuid) :
    List (Nat × Option Timestamp) × List SecretVersion :=
  ((db.secretRows id).map fun row => (row.currentVersion, row.deletedAt), db.versionsOf id)

theorem secretState_apply {w : Write} {id : Uuid} (h : changedSecret w ≠ some id)
    (db : Db wrapper) : secretState (apply w db) id = secretState db id := by
  cases w with
  | insertSecret row =>
    have hne : row.id ≠ id := fun heq => h (congrArg some heq)
    simp [secretState, apply, Db.secretRows, Db.versionsOf, List.filter_append, hne]
  | insertSecretVersion row =>
    have hne : row.secretId ≠ id := fun heq => h (congrArg some heq)
    simp [secretState, apply, Db.secretRows, Db.versionsOf, List.filter_append, hne]
  | updateSecret other set =>
    unfold secretState
    rw [secretRows_updateSecret]
    split
    · rename_i heq
      subst heq
      have hset : set.currentVersion = none ∧ set.deletedAt = none := by
        simpa [changedSecret] using h
      rw [List.map_map]
      congr 1
      refine List.map_congr_left fun row _ => ?_
      simp [SecretSet.on, hset.1, hset.2]
    · rfl
  | _ => rfl

theorem secretState_applyAll {ws : List Write} {id : Uuid}
    (h : ∀ w ∈ ws, changedSecret w ≠ some id) (db : Db wrapper) :
    secretState (Transactions.applyAll apply ws db) id = secretState db id := by
  induction ws generalizing db with
  | nil => rfl
  | cons w ws ih =>
    rw [applyAll_cons, ih fun w' hw' => h w' (List.mem_cons_of_mem _ hw'),
      secretState_apply (h w (List.mem_cons_self ..))]

/-- A committed transaction accounts for the stored values that it decrypts and for the secrets
whose value or status it changes; their environment is the one that their versions belong to. -/
structure IsAudited (e : Commit wrapper) : Prop where
  decryption : ∀ row, .noteDecryption row ∈ e.world.pending →
    ∃ event, .insertAuditEvent event ∈ e.world.pending ∧
      (NamesSecret event row.secretId ∨ NamesEnvironment event row.environmentId)
  change : ∀ id, secretState (e.world.view store) id ≠ secretState e.world.base id →
    ∃ event, .insertAuditEvent event ∈ e.world.pending ∧
      (NamesSecret event id ∨ ∃ version ∈ (e.world.view store).versionsOf id,
        NamesEnvironment event version.environmentId)

/-- There is an event for each secret. -/
structure ByName (ws : List Write) : Prop where
  decryption : ∀ row, .noteDecryption row ∈ ws →
    ∃ event, .insertAuditEvent event ∈ ws ∧ NamesSecret event row.secretId
  change : ∀ w ∈ ws, ∀ id, changedSecret w = some id →
    ∃ event, .insertAuditEvent event ∈ ws ∧ NamesSecret event id

/-- The secrets are those of some environments. -/
structure Within (P : Uuid → Prop) (ws : List Write) : Prop where
  decryption : ∀ row, .noteDecryption row ∈ ws → P row.environmentId
  version : ∀ row, .insertSecretVersion row ∈ ws → P row.environmentId
  change : ∀ w ∈ ws, ∀ id, changedSecret w = some id →
    ∃ row, .insertSecretVersion row ∈ ws ∧ row.secretId = id

/-- A write that neither decrypts a value nor changes a secret. -/
def IsOther (w : Write) : Prop := (∀ row, w ≠ .noteDecryption row) ∧ changedSecret w = none

theorem ByName.append {ws ws' : List Write} (h : ByName ws) (h' : ByName ws') :
    ByName (ws ++ ws') := by
  refine ⟨fun row hrow => ?_, fun w hw id hid => ?_⟩
  · rcases List.mem_append.mp hrow with hrow | hrow
    · obtain ⟨event, hevent, hnames⟩ := h.decryption row hrow
      exact ⟨event, List.mem_append_left _ hevent, hnames⟩
    · obtain ⟨event, hevent, hnames⟩ := h'.decryption row hrow
      exact ⟨event, List.mem_append_right _ hevent, hnames⟩
  · rcases List.mem_append.mp hw with hw | hw
    · obtain ⟨event, hevent, hnames⟩ := h.change w hw id hid
      exact ⟨event, List.mem_append_left _ hevent, hnames⟩
    · obtain ⟨event, hevent, hnames⟩ := h'.change w hw id hid
      exact ⟨event, List.mem_append_right _ hevent, hnames⟩

theorem byName_of_others {ws : List Write} (h : ∀ w ∈ ws, IsOther w) : ByName ws := by
  refine ⟨fun row hrow => absurd rfl ((h _ hrow).1 row), fun w hw id hid => ?_⟩
  rw [(h w hw).2] at hid
  cases hid

theorem Within.append {P : Uuid → Prop} {ws ws' : List Write} (h : Within P ws)
    (h' : Within P ws') : Within P (ws ++ ws') := by
  refine ⟨fun row hrow => ?_, fun row hrow => ?_, fun w hw id hid => ?_⟩
  · exact (List.mem_append.mp hrow).elim (h.decryption row) (h'.decryption row)
  · exact (List.mem_append.mp hrow).elim (h.version row) (h'.version row)
  · rcases List.mem_append.mp hw with hw | hw
    · obtain ⟨row, hrow, heq⟩ := h.change w hw id hid
      exact ⟨row, List.mem_append_left _ hrow, heq⟩
    · obtain ⟨row, hrow, heq⟩ := h'.change w hw id hid
      exact ⟨row, List.mem_append_right _ hrow, heq⟩

theorem within_of_others {P : Uuid → Prop} {ws : List Write} (h : ∀ w ∈ ws, IsOther w) :
    Within P ws := by
  refine ⟨fun row hrow => absurd rfl ((h _ hrow).1 row), fun row hrow => ?_, fun w hw id hid => ?_⟩
  · cases (h _ hrow).2
  · rw [(h w hw).2] at hid
    cases hid

theorem exists_change {e : Commit wrapper} {id : Uuid}
    (h : secretState (e.world.view store) id ≠ secretState e.world.base id) :
    ∃ w ∈ e.world.pending, changedSecret w = some id := by
  by_contra hnone
  simp only [not_exists, not_and] at hnone
  exact h (secretState_applyAll hnone _)

theorem ByName.isAudited {e : Commit wrapper} (h : ByName e.world.pending) : IsAudited e where
  decryption row hrow := by
    obtain ⟨event, hevent, hnames⟩ := h.decryption row hrow
    exact ⟨event, hevent, .inl hnames⟩
  change id hid := by
    obtain ⟨w, hw, hchanged⟩ := exists_change hid
    obtain ⟨event, hevent, hnames⟩ := h.change w hw id hchanged
    exact ⟨event, hevent, .inl hnames⟩

/-- A version that a transaction inserts is there at its end. -/
theorem mem_secretVersions_applyAll {row : SecretVersion} {ws : List Write} {db : Db wrapper}
    (h : .insertSecretVersion row ∈ ws ∨ row ∈ db.secretVersions) :
    row ∈ (Transactions.applyAll apply ws db).secretVersions := by
  induction ws generalizing db with
  | nil => exact h.resolve_left List.not_mem_nil
  | cons w ws ih =>
    refine ih ?_
    rcases h with h | h
    · rcases List.mem_cons.mp h with rfl | h
      · exact .inr (List.mem_append_right _ (List.mem_singleton_self _))
      · exact .inl h
    · refine .inr ?_
      cases w with
      | insertSecretVersion other => exact List.mem_append_left _ h
      | _ => exact h

theorem Within.isAudited {P : Uuid → Prop} {e : Commit wrapper} (h : Within P e.world.pending)
    {event : AuditEvent} (hevent : .insertAuditEvent event ∈ e.world.pending)
    (hnames : ∀ environmentId, P environmentId → NamesEnvironment event environmentId) :
    IsAudited e where
  decryption row hrow := ⟨event, hevent, .inr (hnames _ (h.decryption row hrow))⟩
  change id hid := by
    obtain ⟨w, hw, hchanged⟩ := exists_change hid
    obtain ⟨row, hrow, rfl⟩ := h.change w hw id hchanged
    refine ⟨event, hevent, .inr ⟨row, ?_, hnames _ (h.version row hrow)⟩⟩
    exact List.mem_filter.mpr ⟨mem_secretVersions_applyAll (.inl hrow), by simp⟩

/-! ## Writes of a version -/

theorem isOther_of_isKeyWrite {w : Write} (h : IsKeyWrite w) : IsOther w := by
  obtain ⟨dataKey, nonce, rfl⟩ := h
  exact ⟨nofun, rfl⟩

theorem changedSecret_follows {version : SecretVersion} {w : Write} {id : Uuid}
    (h : FollowsVersion version w) (hid : changedSecret w = some id) : id = version.secretId := by
  cases w with
  | updateSecret other set =>
    obtain ⟨rfl, hversion, -⟩ := h
    simp only [changedSecret, hversion, Option.isSome_some, Bool.true_or, if_true,
      Option.some.injEq] at hid
    exact hid.symm
  | insertSecret | insertSecretVersion => cases h
  | _ => cases hid

/-- What the writes of a version do. -/
theorem WritesVersion.spec {before : Secret} {recordAudit : Bool} {ws : List Write}
    (h : WritesVersion before recordAudit ws) :
    (∀ row, .noteDecryption row ∉ ws) ∧
      (∀ row, .insertSecretVersion row ∈ ws → row.environmentId = before.environmentId) ∧
      (∃ row, .insertSecretVersion row ∈ ws ∧ row.secretId = before.id) ∧
      ∀ w ∈ ws, ∀ id, changedSecret w = some id → id = before.id := by
  obtain ⟨keyWrites, version, rest, rfl, hkeys, hid, henvironment, -, hrest⟩ := h.split
  refine ⟨fun row hrow => ?_, fun row hrow => ?_, ⟨version, by simp, hid⟩, fun w hw id hw' => ?_⟩
  · rcases List.mem_append.mp hrow with hrow | hrow
    · exact absurd rfl ((isOther_of_isKeyWrite (hkeys _ hrow)).1 row)
    · rcases List.mem_cons.mp hrow with heq | hrow
      · cases heq
      · exact hrest _ hrow
  · rcases List.mem_append.mp hrow with hrow | hrow
    · cases (isOther_of_isKeyWrite (hkeys _ hrow)).2
    · rcases List.mem_cons.mp hrow with heq | hrow
      · cases heq
        exact henvironment
      · exact absurd (hrest _ hrow) not_false
  · rcases List.mem_append.mp hw with hw | hw
    · rw [(isOther_of_isKeyWrite (hkeys _ hw)).2] at hw'
      cases hw'
    · rcases List.mem_cons.mp hw with rfl | hw
      · cases hw'
        exact hid
      · exact (changedSecret_follows (hrest _ hw) hw').trans hid

theorem WritesVersion.byName {before : Secret} {ws : List Write}
    (h : WritesVersion before true ws) : ByName ws where
  decryption row hrow := absurd hrow (h.spec.1 row)
  change w hw id hid := by
    obtain ⟨event, hevent, hnames⟩ := h.audit rfl
    rw [h.spec.2.2.2 w hw id hid]
    exact ⟨event, hevent, hnames⟩

theorem WritesVersion.within {P : Uuid → Prop} {before : Secret} {recordAudit : Bool}
    {ws : List Write} (h : WritesVersion before recordAudit ws) (hP : P before.environmentId) :
    Within P ws where
  decryption row hrow := absurd hrow (h.spec.1 row)
  version row hrow := by
    rw [h.spec.2.1 row hrow]
    exact hP
  change w hw id hid := by
    rw [h.spec.2.2.2 w hw id hid]
    exact h.spec.2.2.1

theorem PreparesRow.changes {before : Secret} {ws : List Write} (h : PreparesRow before ws)
    {w : Write} (hw : w ∈ ws) :
    (∀ row, w ≠ .noteDecryption row) ∧ (∀ row, w ≠ .insertSecretVersion row) ∧
      changedSecret w = some before.id := by
  rcases h with rfl | h
  · rw [List.mem_singleton.mp hw]
    exact ⟨nofun, nofun, rfl⟩
  · obtain ⟨now, rfl⟩ := h w hw
    exact ⟨nofun, nofun, rfl⟩

theorem CreatesSecret.byName {projectId environmentId : Uuid} {ws : List Write}
    (h : CreatesSecret projectId environmentId true ws) : ByName ws := by
  obtain ⟨before, preparation, rest, rfl, hprepares, -, -, hversion⟩ := h.split
  obtain ⟨event, hevent, hnames⟩ := hversion.audit rfl
  refine ⟨fun row hrow => ?_, fun w hw id hid => ?_⟩
  · rcases List.mem_append.mp hrow with hrow | hrow
    · exact absurd rfl ((hprepares.changes hrow).1 row)
    · exact absurd hrow (hversion.spec.1 row)
  · refine ⟨event, List.mem_append_right _ hevent, ?_⟩
    rcases List.mem_append.mp hw with hw | hw
    · rw [(hprepares.changes hw).2.2] at hid
      cases hid
      exact hnames
    · rw [hversion.spec.2.2.2 w hw id hid]
      exact hnames

theorem CreatesSecret.within {projectId environmentId : Uuid} {recordAudit : Bool}
    {ws : List Write} (h : CreatesSecret projectId environmentId recordAudit ws)
    {P : Uuid → Prop} (hP : P environmentId) : Within P ws := by
  obtain ⟨before, preparation, rest, rfl, hprepares, -, rfl, hversion⟩ := h.split
  have hrest := hversion.within hP
  refine ⟨fun row hrow => ?_, fun row hrow => ?_, fun w hw id hid => ?_⟩
  · rcases List.mem_append.mp hrow with hrow | hrow
    · exact absurd rfl ((hprepares.changes hrow).1 row)
    · exact hrest.decryption row hrow
  · rcases List.mem_append.mp hrow with hrow | hrow
    · exact absurd rfl ((hprepares.changes hrow).2.1 row)
    · exact hrest.version row hrow
  · obtain ⟨row, hrow, heq⟩ := hversion.spec.2.2.1
    refine ⟨row, List.mem_append_right _ hrow, ?_⟩
    rcases List.mem_append.mp hw with hw | hw
    · rw [(hprepares.changes hw).2.2] at hid
      cases hid
      exact heq
    · rw [heq, hversion.spec.2.2.2 w hw id hid]

/-! ## Operations with an event for each secret -/

section

variable {stmts : List (DbStatement wrapper)} {ws : List Write} {draws : Draws} {userId : Uuid}

theorem does_answering {α : Type} {wrap : α → Answer} {p : TransactionM wrapper α}
    {answer : Answer} (h : Does (answering wrap p) stmts ws answer) : ∃ a, Does p stmts ws a := by
  obtain ⟨a, _, _, _, _, hp, hpure, rfl, rfl⟩ := does_bind.mp h
  obtain ⟨rfl, rfl, -⟩ := does_ok.mp hpure
  rw [List.append_nil, List.append_nil]
  exact ⟨a, hp⟩

/-- All that the writes read or change is one secret, and they have an event about it. -/
theorem byName_of_single {id : Uuid} {event : AuditEvent}
    (hevent : .insertAuditEvent event ∈ ws) (hnames : NamesSecret event id)
    (hdecryption : ∀ row, .noteDecryption row ∈ ws → row.secretId = id)
    (hchange : ∀ w ∈ ws, ∀ other, changedSecret w = some other → other = id) :
    ByName ws where
  decryption row hrow := ⟨event, hevent, by rw [hdecryption row hrow]; exact hnames⟩
  change w hw other hother := ⟨event, hevent, by rw [hchange w hw other hother]; exact hnames⟩

theorem byName_get {secretId : Uuid} {value : SecretWithValue}
    (h : Does (get platform draws userId secretId : TransactionM wrapper _) stmts ws value) :
    ByName ws := by
  unfold get at h
  obtain ⟨row, _, _, _, _, hrow, h₁, rfl, rfl⟩ := does_bind.mp h
  obtain ⟨_, _, rfl, rfl, -, -⟩ := does_valueRow hrow
  obtain ⟨scope, _, _, _, _, hscope, h₂, rfl, rfl⟩ := does_bind.mp h₁
  obtain ⟨_, rfl, rfl, -⟩ := does_environment.mp hscope
  obtain ⟨_, _, checks, _, _, hauthorize, h₃, rfl, rfl⟩ := does_bind.mp h₂
  obtain rfl := does_authorizeIn hauthorize
  obtain ⟨plaintext, _, _, _, _, hdecrypt, h₄, rfl, rfl⟩ := does_bind.mp h₃
  obtain ⟨_, rfl, rfl, -⟩ := does_decrypt.mp hdecrypt
  obtain ⟨_, _, _, _, _, hrecord, hpure, rfl, rfl⟩ := does_bind.mp h₄
  obtain ⟨value, -, rfl⟩ := does_record hrecord
  obtain ⟨rfl, rfl, -⟩ := does_ok.mp hpure
  simp only [List.nil_append, List.append_nil, List.cons_append]
  refine byName_of_single (List.mem_cons_of_mem _ (List.mem_singleton_self _)) ⟨rfl, rfl⟩
    (fun other hother => ?_) fun w hw id hid => ?_
  · simp only [List.mem_cons, Write.noteDecryption.injEq, List.not_mem_nil, or_false,
      reduceCtorEq] at hother
    rw [hother]
  · simp only [List.mem_cons, List.not_mem_nil, or_false] at hw
    rcases hw with rfl | rfl <;> cases hid

theorem byName_compareVersions {secretId : Uuid} {fromVersion toVersion : Nat} {reveal : Bool}
    {comparison : SecretVersionComparison}
    (h : Does (compareVersions platform draws userId secretId fromVersion toVersion reveal :
      TransactionM wrapper _) stmts ws comparison) : ByName ws := by
  unfold compareVersions at h
  rcases does_ite.mp h with ⟨-, h⟩ | ⟨-, h⟩
  · exact absurd h does_fail
  obtain ⟨row, _, _, _, _, hrow, h₁, rfl, rfl⟩ := does_bind.mp h
  obtain ⟨_, _, found, rfl, rfl, -, hfound, rfl⟩ := does_metadataRow hrow
  obtain ⟨-, hid, -⟩ := id_of_isActiveId hfound
  obtain ⟨scope, _, _, _, _, hscope, h₂, rfl, rfl⟩ := does_bind.mp h₁
  obtain ⟨_, rfl, rfl, -⟩ := does_environment.mp hscope
  obtain ⟨_, _, checks, _, _, hauthorize, h₃, rfl, rfl⟩ := does_bind.mp h₂
  obtain rfl := does_authorizeIn hauthorize
  rcases does_ite.mp h₃ with ⟨-, h₄⟩ | ⟨-, h₄⟩
  · exact absurd h₄ does_fail
  obtain ⟨rows, _, _, _, _, hrows, h₅, rfl, rfl⟩ := does_bind.mp h₄
  obtain ⟨db, rfl, rfl, rfl⟩ := does_select.mp hrows
  split at h₅
  · rename_i older newer hvalues
    rw [Prod.mk.injEq] at hvalues
    obtain ⟨found₁, hfind, holder⟩ := Option.bind_eq_some_iff.mp hvalues.1
    obtain ⟨found₂, hfind', hnewer⟩ := Option.bind_eq_some_iff.mp hvalues.2
    have holderId : older.secret.id = secretId := by
      rw [(selectValue_secret holder).1]
      exact (id_of_isActiveId hfind).2.1
    have hnewerId : newer.secret.id = secretId := by
      rw [(selectValue_secret hnewer).1]
      exact (id_of_isActiveId hfind').2.1
    obtain ⟨plaintext, _, _, _, _, hdecrypt, h₆, rfl, rfl⟩ := does_bind.mp h₅
    obtain ⟨_, rfl, rfl, -⟩ := does_decrypt.mp hdecrypt
    obtain ⟨compared, _, decryptions, _, _, hcompared, h₇, rfl, rfl⟩ := does_bind.mp h₆
    have hdecryptions : ∀ w ∈ decryptions,
        w = .noteDecryption ⟨newer.secret.id, newer.secret.environmentId⟩ := by
      rcases does_ite.mp hcompared with ⟨-, hsame⟩ | ⟨-, hother⟩
      · obtain ⟨-, rfl, -⟩ := does_ok.mp hsame
        exact fun w hw => absurd hw List.not_mem_nil
      · obtain ⟨_, -, rfl, -⟩ := does_decrypt.mp hother
        exact fun w hw => List.mem_singleton.mp hw
    obtain ⟨_, _, _, _, _, hrecord, hpure, rfl, rfl⟩ := does_bind.mp h₇
    obtain ⟨value, -, rfl⟩ := does_record hrecord
    obtain ⟨rfl, rfl, -⟩ := does_ok.mp hpure
    simp only [List.nil_append, List.append_nil, List.cons_append]
    refine byName_of_single (List.mem_cons_of_mem _ (List.mem_append_right _
      (List.mem_singleton_self _))) ⟨rfl, rfl⟩ (fun other hother => ?_) fun w hw other hother => ?_
    · show other.secretId = found.id
      simp only [List.mem_cons, Write.noteDecryption.injEq, List.mem_append, List.not_mem_nil,
        or_false, reduceCtorEq] at hother
      rcases hother with rfl | hother
      · exact holderId.trans hid.symm
      · cases hdecryptions _ hother
        exact hnewerId.trans hid.symm
    · simp only [List.mem_cons, List.mem_append, List.not_mem_nil, or_false] at hw
      rcases hw with rfl | hw | rfl
      · cases hother
      · rw [hdecryptions w hw] at hother
        cases hother
      · cases hother
  · exact absurd h₅ does_fail

theorem does_writeMetadata {before : SecretRow} {input : MetadataInput}
    {metadata : SecretMetadata}
    (h : Does (writeMetadata platform draws userId before input : TransactionM wrapper _) stmts ws
      metadata) : ∀ w ∈ ws, IsOther w := by
  refine (emits_writeMetadata platform ⟨fun set hversion hdeleted => ⟨nofun, ?_⟩, ⟨nofun, rfl⟩,
    fun _ => ⟨nofun, rfl⟩, fun _ => ⟨nofun, rfl⟩⟩ _ _ _).does h
  simp [changedSecret, hversion, hdeleted]

theorem byName_rollback {secretId : Uuid} {targetVersion : Nat} {input : RollbackInput}
    {metadata : SecretMetadata}
    (h : Does (rollback platform draws userId secretId targetVersion input :
      TransactionM wrapper _) stmts ws metadata) : ByName ws := by
  unfold rollback at h
  rcases does_ite.mp h with ⟨-, h⟩ | ⟨-, h⟩
  · exact absurd h does_fail
  obtain ⟨row, _, _, _, _, hrow, h₁, rfl, rfl⟩ := does_bind.mp h
  obtain ⟨_, _, found, rfl, rfl, -, hfound, rfl⟩ := does_metadataRow hrow
  obtain ⟨-, hid, -⟩ := id_of_isActiveId hfound
  obtain ⟨scope, _, _, _, _, hscope, h₂, rfl, rfl⟩ := does_bind.mp h₁
  obtain ⟨_, rfl, rfl, -⟩ := does_environment.mp hscope
  obtain ⟨_, _, checks, _, _, hauthorize, h₃, rfl, rfl⟩ := does_bind.mp h₂
  obtain rfl := does_authorizeIn hauthorize
  rcases does_ite.mp h₃ with ⟨-, h₄⟩ | ⟨-, h₄⟩
  · exact absurd h₄ does_fail
  rcases does_ite.mp h₄ with ⟨-, h₅⟩ | ⟨-, h₅⟩
  · exact absurd h₅ does_fail
  obtain ⟨target, _, _, _, _, htarget, h₆, rfl, rfl⟩ := does_bind.mp h₅
  obtain ⟨_, other, rfl, rfl, hother, hvalue⟩ := does_versionValueRow htarget
  have htargetId : target.secret.id = found.id := by
    rw [(selectValue_secret hvalue).1, hid]
    exact (id_of_isActiveId hother).2.1
  obtain ⟨plaintext, _, _, _, rest, hdecrypt, hversion, rfl, rfl⟩ := does_bind.mp h₆
  obtain ⟨_, rfl, rfl, -⟩ := does_decrypt.mp hdecrypt
  have hwrites := does_writeVersion hversion
  obtain ⟨event, hevent, hnames⟩ := hwrites.audit rfl
  simp only [List.nil_append, List.cons_append]
  refine byName_of_single (List.mem_cons_of_mem _ hevent) hnames (fun row hrow => ?_)
    fun w hw id hid => ?_
  · rcases List.mem_cons.mp hrow with heq | hrow
    · cases heq
      exact htargetId
    · exact absurd hrow (hwrites.spec.1 row)
  · rcases List.mem_cons.mp hw with rfl | hw
    · cases hid
    · exact hwrites.spec.2.2.2 w hw id hid

theorem byName_update {secretId : Uuid} {input : UpdateSecretInput} {metadata : SecretMetadata}
    (h : Does (update platform draws userId secretId input : TransactionM wrapper _) stmts ws
      metadata) : ByName ws := by
  unfold update at h
  obtain ⟨row, _, _, _, _, hrow, h₁, rfl, rfl⟩ := does_bind.mp h
  obtain ⟨_, _, found, rfl, rfl, -, hfound, rfl⟩ := does_metadataRow hrow
  obtain ⟨scope, _, _, _, _, hscope, h₂, rfl, rfl⟩ := does_bind.mp h₁
  obtain ⟨_, rfl, rfl, -⟩ := does_environment.mp hscope
  obtain ⟨_, _, checks, _, _, hauthorize, h₃, rfl, rfl⟩ := does_bind.mp h₂
  obtain rfl := does_authorizeIn hauthorize
  simp only [List.nil_append]
  rcases does_ite.mp h₃ with ⟨-, h₄⟩ | ⟨-, h₄⟩
  · exact absurd h₄ does_fail
  split at h₄
  · rcases does_ite.mp h₄ with ⟨-, h₅⟩ | ⟨-, h₅⟩
    · exact absurd h₅ does_fail
    · exact byName_of_others (does_writeMetadata h₅)
  · exact (does_writeVersion h₄).byName

theorem byName_delete {secretId : Uuid} {metadata : SecretMetadata}
    (h : Does (delete platform draws userId secretId : TransactionM wrapper _) stmts ws metadata) :
    ByName ws := by
  unfold delete at h
  obtain ⟨row, _, _, _, _, hrow, h₁, rfl, rfl⟩ := does_bind.mp h
  obtain ⟨_, _, found, rfl, rfl, -, hfound, rfl⟩ := does_metadataRow hrow
  obtain ⟨-, hid, -⟩ := id_of_isActiveId hfound
  obtain ⟨scope, _, _, _, _, hscope, h₂, rfl, rfl⟩ := does_bind.mp h₁
  obtain ⟨_, rfl, rfl, -⟩ := does_environment.mp hscope
  obtain ⟨_, _, checks, _, _, hauthorize, h₃, rfl, rfl⟩ := does_bind.mp h₂
  obtain rfl := does_authorizeIn hauthorize
  obtain ⟨_, _, updates, _, _, hupdate, h₄, rfl, rfl⟩ := does_bind.mp h₃
  obtain ⟨db, rfl, hupdates, -⟩ := does_execute.mp hupdate
  obtain ⟨_, _, _, _, _, hrecord, hpure, rfl, rfl⟩ := does_bind.mp h₄
  obtain ⟨value, -, rfl⟩ := does_record hrecord
  obtain ⟨rfl, rfl, -⟩ := does_ok.mp hpure
  have hdeletion : ∀ w ∈ updates, ∃ set, w = .updateSecret secretId set := by
    intro w hw
    rw [hupdates] at hw
    obtain ⟨other, hother, rfl⟩ := List.mem_map.mp hw
    have hactive := (List.mem_filter.mp hother).2
    simp only [Bool.and_eq_true, decide_eq_true_eq] at hactive
    exact ⟨_, by rw [hactive.1]⟩
  simp only [List.nil_append, List.append_nil]
  refine byName_of_single (List.mem_append_right _ (List.mem_singleton_self _)) ⟨rfl, rfl⟩
    (fun other hother => ?_) fun w hw other hother => ?_
  · rcases List.mem_append.mp hother with hother | hother
    · obtain ⟨set, heq⟩ := hdeletion _ hother
      cases heq
    · cases List.mem_singleton.mp hother
  · show other = found.id
    rcases List.mem_append.mp hw with hw | hw
    · obtain ⟨set, rfl⟩ := hdeletion w hw
      simp only [changedSecret, Option.ite_none_right_eq_some, Option.some.injEq] at hother
      rw [← hother.2, hid]
    · rw [List.mem_singleton.mp hw] at hother
      cases hother

theorem byName_setOne {projectId environmentId : Uuid} {n : Nat}
    {item : SetSecretInput × JsString} {metadata : SecretMetadata}
    (h : Does (setOne platform draws userId projectId environmentId n item :
      TransactionM wrapper _) stmts ws metadata) : ByName ws := by
  unfold setOne at h
  obtain ⟨key, _, _, _, _, hkey, h₁, rfl, rfl⟩ := does_bind.mp h
  obtain ⟨rfl, rfl, -⟩ := does_attempt.mp hkey
  obtain ⟨existing, _, _, _, _, hexisting, h₂, rfl, rfl⟩ := does_bind.mp h₁
  obtain ⟨_, rfl, rfl, -⟩ := does_selectForUpdate.mp hexisting
  simp only [List.nil_append]
  split at h₂
  · exact (does_create h₂).byName
  · exact (does_writeVersion h₂).byName

theorem byName_bulkSet {projectId environmentId : Uuid} {inputs : List SetSecretInput}
    {secrets : List SecretMetadata}
    (h : Does (bulkSet platform draws userId projectId environmentId inputs :
      TransactionM wrapper _) stmts ws secrets) : ByName ws := by
  unfold bulkSet at h
  rcases does_ite.mp h with ⟨-, h⟩ | ⟨-, h⟩
  · exact absurd h does_fail
  obtain ⟨keys, _, _, _, _, hkeys, h₁, rfl, rfl⟩ := does_bind.mp h
  obtain ⟨rfl, rfl, -⟩ := does_attempt.mp hkeys
  rcases does_ite.mp h₁ with ⟨-, h₂⟩ | ⟨-, h₂⟩
  · exact absurd h₂ does_fail
  obtain ⟨scope, _, _, _, _, hscope, h₃, rfl, rfl⟩ := does_bind.mp h₂
  obtain ⟨_, rfl, rfl, -⟩ := does_environment.mp hscope
  obtain ⟨_, _, checks, _, _, hauthorize, h₄, rfl, rfl⟩ := does_bind.mp h₃
  obtain rfl := does_authorizeIn hauthorize
  simp only [List.nil_append]
  exact Traces.forEach (byName_of_others fun _ hw => absurd hw List.not_mem_nil)
    (fun _ _ => ByName.append) (fun _ _ _ _ _ _ hdoes => byName_setOne hdoes) 0 _ _ _ h₄

/-! ## Operations with an event for the environment -/

theorem activeSecrets_place {db : Db wrapper} {projectId environmentId : Uuid} {row : Secret}
    (h : row ∈ activeSecrets platform db projectId environmentId) :
    row ∈ db.secrets ∧ row.environmentId = environmentId ∧ row.deletedAt = none := by
  rw [activeSecrets, mem_orderBy, List.mem_filter] at h
  simp only [Bool.and_eq_true, decide_eq_true_eq, Option.isNone_iff_eq_none] at h
  exact ⟨h.1, h.2.1.2, h.2.2⟩

theorem activeValues_place {db : Db wrapper} {projectId environmentId : Uuid}
    {row : SecretValueRow} (h : row ∈ activeValues platform db projectId environmentId) :
    row.secret.environmentId = environmentId := by
  obtain ⟨secret, hsecret, hvalue⟩ := List.mem_filterMap.mp h
  rw [(selectValue_secret hvalue).1]
  exact (activeSecrets_place hsecret).2.1

theorem within_decryptAll {rows : List SecretValueRow} {entries : List (JsString × JsString)}
    {P : Uuid → Prop} (hP : ∀ row ∈ rows, P row.secret.environmentId)
    (h : Does (decryptAll platform rows : TransactionM wrapper _) stmts ws entries) :
    Within P ws := by
  have hws : ∀ w ∈ ws, ∃ row, w = .noteDecryption row ∧ P row.environmentId := by
    intro w hw
    obtain ⟨row, hrow, _, _, _, _, hturn, hmem⟩ := (does_forEach h).1 w hw
    obtain ⟨_, _, _, _, _, hdecrypt, hpure, rfl, rfl⟩ := does_bind.mp hturn
    obtain ⟨_, rfl, rfl, -⟩ := does_decrypt.mp hdecrypt
    obtain ⟨rfl, rfl, -⟩ := does_ok.mp hpure
    exact ⟨_, List.mem_singleton.mp hmem, hP row hrow⟩
  refine ⟨fun row hrow => ?_, fun row hrow => ?_, fun w hw id hid => ?_⟩
  · obtain ⟨other, heq, hother⟩ := hws _ hrow
    cases heq
    exact hother
  · obtain ⟨other, heq, -⟩ := hws _ hrow
    cases heq
  · obtain ⟨other, rfl, -⟩ := hws w hw
    cases hid

/-- The secrets are those of environments that an event names. -/
def ByEnvironment (ws : List Write) : Prop :=
  ∃ (P : Uuid → Prop) (event : AuditEvent), Within P ws ∧ .insertAuditEvent event ∈ ws ∧
    ∀ environmentId, P environmentId → NamesEnvironment event environmentId

/-- What an event for an environment closes. -/
theorem byEnvironment_of_record {P : Uuid → Prop} (hws : Within P ws) {now : Timestamp}
    {event : Audit.AuditEventInput} {u : Unit} {stmts' : List (DbStatement wrapper)} {ws' : List Write}
    (h : Does (Audit.recordInTransaction now event : TransactionM wrapper Unit) stmts' ws' u)
    (hnames : ∀ metadata, Audit.metadataFor event = .ok metadata → ∀ environmentId,
      P environmentId → NamesEnvironment (Audit.eventRow event metadata now) environmentId) :
    ByEnvironment (ws ++ ws') := by
  obtain ⟨metadata, hmetadata, rfl⟩ := does_record h
  refine ⟨P, _, hws.append (within_of_others fun w hw => ?_),
    List.mem_append_right _ (List.mem_singleton_self _), hnames metadata hmetadata⟩
  rw [List.mem_singleton.mp hw]
  exact ⟨nofun, rfl⟩

/-- Every operation but `previewPromotion`. -/
def Accounts (ws : List Write) : Prop := ByName ws ∨ ByEnvironment ws

theorem Accounts.isAudited {e : Commit wrapper} (h : Accounts e.world.pending) : IsAudited e := by
  rcases h with h | ⟨P, event, hwithin, hevent, hnames⟩
  · exact h.isAudited
  · exact hwithin.isAudited hevent hnames

theorem accounts_nil : Accounts [] :=
  .inl (byName_of_others fun _ hw => absurd hw List.not_mem_nil)

theorem accounts_runtimeConfig {projectId environmentId : Uuid} {knownVersions : KnownVersions}
    {auditActor : Audit.AuditActor} {result : RuntimeSecretConfig}
    (h : Does (runtimeConfig platform draws userId projectId environmentId knownVersions
      auditActor : TransactionM wrapper _) stmts ws result) : Accounts ws := by
  unfold runtimeConfig at h
  obtain ⟨scope, _, _, _, _, hscope, h₁, rfl, rfl⟩ := does_bind.mp h
  obtain ⟨_, rfl, rfl, -⟩ := does_environment.mp hscope
  obtain ⟨_, _, checks, _, _, hauthorize, h₂, rfl, rfl⟩ := does_bind.mp h₁
  obtain rfl := does_authorizeIn hauthorize
  simp only [List.nil_append]
  rcases does_ite.mp h₂ with ⟨-, h₃⟩ | ⟨-, h₃⟩
  · exact absurd h₃ does_fail
  rcases does_ite.mp h₃ with ⟨-, h₄⟩ | ⟨-, h₄⟩
  · obtain ⟨-, rfl, -⟩ := does_ok.mp h₄
    exact accounts_nil
  obtain ⟨rows, _, _, _, _, hrows, h₅, rfl, rfl⟩ := does_bind.mp h₄
  obtain ⟨db, rfl, rfl, rfl⟩ := does_select.mp hrows
  obtain ⟨entries, _, decryptions, _, _, hdecryptions, h₆, rfl, rfl⟩ := does_bind.mp h₅
  obtain ⟨orgId, _, _, _, _, horg, h₇, rfl, rfl⟩ := does_bind.mp h₆
  obtain ⟨_, rfl, rfl, -⟩ := does_select.mp horg
  obtain ⟨_, _, _, _, _, hrecord, hpure, rfl, rfl⟩ := does_bind.mp h₇
  obtain ⟨rfl, rfl, -⟩ := does_ok.mp hpure
  simp only [List.nil_append, List.append_nil]
  have hwithin : Within (· = environmentId) decryptions :=
    within_decryptAll (fun _ => activeValues_place) hdecryptions
  exact .inr (byEnvironment_of_record hwithin hrecord
    fun _ _ id (hid : id = environmentId) => .inl (congrArg some hid.symm))

theorem accounts_exportConfig {projectId environmentId : Uuid} {format : SecretExportFormat}
    {options : ExportOptions} {auditActor : Audit.AuditActor} {result : SecretExportResult}
    (h : Does (exportConfig platform draws userId projectId environmentId format options
      auditActor : TransactionM wrapper _) stmts ws result) : Accounts ws := by
  unfold exportConfig at h
  obtain ⟨scope, _, lookups, _, _, hscope, h₁, rfl, rfl⟩ := does_bind.mp h
  have hlookups : lookups = [] := by
    unfold exportScope at hscope
    obtain ⟨found, _, _, _, _, hselect, hfound, rfl, rfl⟩ := does_bind.mp hscope
    obtain ⟨_, rfl, rfl, -⟩ := does_select.mp hselect
    cases found with
    | none => exact absurd hfound does_fail
    | some found => exact (does_ok.mp hfound).2.1
  subst hlookups
  obtain ⟨_, _, checks, _, _, hauthorize, h₂, rfl, rfl⟩ := does_bind.mp h₁
  obtain rfl := does_authorizeIn hauthorize
  obtain ⟨rows, _, _, _, _, hrows, h₃, rfl, rfl⟩ := does_bind.mp h₂
  obtain ⟨db, rfl, rfl, rfl⟩ := does_select.mp hrows
  obtain ⟨entries, _, decryptions, _, _, hdecryptions, h₄, rfl, rfl⟩ := does_bind.mp h₃
  obtain ⟨content, _, _, _, _, hcontent, h₅, rfl, rfl⟩ := does_bind.mp h₄
  obtain ⟨rfl, rfl, -⟩ := does_attempt.mp hcontent
  obtain ⟨orgId, _, _, _, _, horg, h₆, rfl, rfl⟩ := does_bind.mp h₅
  obtain ⟨_, rfl, rfl, -⟩ := does_select.mp horg
  obtain ⟨_, _, _, _, _, hrecord, hpure, rfl, rfl⟩ := does_bind.mp h₆
  obtain ⟨rfl, rfl, -⟩ := does_ok.mp hpure
  simp only [List.nil_append, List.append_nil]
  have hwithin : Within (· = environmentId) decryptions :=
    within_decryptAll (fun _ => activeValues_place) hdecryptions
  exact .inr (byEnvironment_of_record hwithin hrecord
    fun _ _ id (hid : id = environmentId) => .inl (congrArg some hid.symm))

theorem within_importOne {projectId environmentId : Uuid} {strategy : SecretImportStrategy}
    {selected : List JsString} {format : SecretImportFormat} {existing : List SecretRow} {n : Nat}
    {item : SetSecretInput × JsString} {outcome : ImportOutcome}
    (hexisting : ∀ row ∈ existing, row.secret.environmentId = environmentId)
    (h : Does (importOne platform draws userId projectId environmentId strategy selected format
      existing n item : TransactionM wrapper _) stmts ws outcome) :
    Within (· = environmentId) ws := by
  unfold importOne at h
  rcases does_ite.mp h with ⟨-, h⟩ | ⟨-, h⟩
  · obtain ⟨-, rfl, -⟩ := does_ok.mp h
    exact within_of_others fun _ hw => absurd hw List.not_mem_nil
  split at h
  · obtain ⟨secret, _, _, _, _, hcreate, hpure, rfl, rfl⟩ := does_bind.mp h
    obtain ⟨rfl, rfl, -⟩ := does_ok.mp hpure
    rw [List.append_nil]
    exact (does_create hcreate).within rfl
  · rename_i row hrow
    obtain ⟨secret, _, _, _, _, hversion, hpure, rfl, rfl⟩ := does_bind.mp h
    obtain ⟨rfl, rfl, -⟩ := does_ok.mp hpure
    rw [List.append_nil]
    exact (does_writeVersion hversion).within (hexisting row (List.mem_of_find?_eq_some hrow))

theorem accounts_importBatch {projectId environmentId : Uuid} {inputs : List SetSecretInput}
    {strategy : SecretImportStrategy} {selectedKeys : List JsString}
    {format : SecretImportFormat} {result : SecretImportResult}
    (h : Does (importBatch platform draws userId projectId environmentId inputs strategy
      selectedKeys format : TransactionM wrapper _) stmts ws result) : Accounts ws := by
  unfold importBatch at h
  rcases does_ite.mp h with ⟨-, h⟩ | ⟨-, h⟩
  · exact absurd h does_fail
  obtain ⟨keys, _, _, _, _, hkeys, h₁, rfl, rfl⟩ := does_bind.mp h
  obtain ⟨rfl, rfl, -⟩ := does_attempt.mp hkeys
  rcases does_ite.mp h₁ with ⟨-, h₂⟩ | ⟨-, h₂⟩
  · exact absurd h₂ does_fail
  rcases does_ite.mp h₂ with ⟨-, h₃⟩ | ⟨-, h₃⟩
  · exact absurd h₃ does_fail
  obtain ⟨scope, _, _, _, _, hscope, h₄, rfl, rfl⟩ := does_bind.mp h₃
  obtain ⟨_, rfl, rfl, -⟩ := does_environment.mp hscope
  obtain ⟨_, _, checks, _, _, hauthorize, h₅, rfl, rfl⟩ := does_bind.mp h₄
  obtain rfl := does_authorizeIn hauthorize
  obtain ⟨storedKeys, _, _, _, _, hstored, h₆, rfl, rfl⟩ := does_bind.mp h₅
  obtain ⟨rfl, rfl, -⟩ := does_attempt.mp hstored
  obtain ⟨existing, _, _, _, _, hexisting, h₇, rfl, rfl⟩ := does_bind.mp h₆
  obtain ⟨db, rfl, rfl, rfl⟩ := does_selectForUpdate.mp hexisting
  obtain ⟨outcomes, _, writes, _, _, hloop, h₈, rfl, rfl⟩ := does_bind.mp h₇
  obtain ⟨orgId, _, _, _, _, horg, h₉, rfl, rfl⟩ := does_bind.mp h₈
  obtain ⟨_, rfl, rfl, -⟩ := does_select.mp horg
  obtain ⟨_, _, _, _, _, hrecord, hpure, rfl, rfl⟩ := does_bind.mp h₉
  obtain ⟨rfl, rfl, -⟩ := does_ok.mp hpure
  simp only [List.nil_append, List.append_nil]
  have hplace : ∀ row ∈ ((activeSecrets platform db projectId environmentId).filter fun row =>
      storedKeys.contains row.key).map (selectSecret platform db),
      row.secret.environmentId = environmentId := by
    intro row hrow
    obtain ⟨secret, hsecret, rfl⟩ := List.mem_map.mp hrow
    exact (activeSecrets_place (List.mem_filter.mp hsecret).1).2.1
  have hwithin : Within (· = environmentId) writes :=
    Traces.forEach (within_of_others fun _ hw => absurd hw List.not_mem_nil)
      (fun _ _ => Within.append) (fun _ _ _ _ _ _ hdoes => within_importOne hplace hdoes) 0 _ _ _
      hloop
  exact .inr (byEnvironment_of_record hwithin hrecord
    fun _ _ id (hid : id = environmentId) => .inl (congrArg some hid.symm))

/-! ## Promotion -/

theorem promotionRows_place {db : Db wrapper} {projectId environmentId : Uuid}
    {keys : Option (List JsString)} {row : SecretValueRow}
    (h : row ∈ promotionRows platform db projectId environmentId keys) :
    row.secret.environmentId = environmentId :=
  activeValues_place (List.mem_filter.mp h).1

theorem within_decrypt {P : Uuid → Prop} {row : SecretValueRow} {recordVersion : Nat}
    {plaintext : Bytes} (hP : P row.secret.environmentId)
    (h : Does (decrypt platform row recordVersion : TransactionM wrapper _) stmts ws plaintext) :
    Within P ws := by
  obtain ⟨_, -, rfl, -⟩ := does_decrypt.mp h
  refine ⟨fun other hother => ?_, fun other hother => ?_, fun w hw id hid => ?_⟩
  · cases List.mem_singleton.mp hother
    exact hP
  · cases List.mem_singleton.mp hother
  · rw [List.mem_singleton.mp hw] at hid
    cases hid

/-- The writes of one item: the two decryptions of a comparison, if the target has the key. -/
theorem does_previewItem {targets : List SecretValueRow} {source : SecretValueRow}
    {item : SecretPromotionPreviewItem}
    (h : Does (previewItem platform targets source : TransactionM wrapper _) stmts ws item) :
    match targetOf targets source with
    | none => ws = []
    | some target => ws = [.noteDecryption ⟨source.secret.id, source.secret.environmentId⟩,
        .noteDecryption ⟨target.secret.id, target.secret.environmentId⟩] := by
  unfold previewItem at h
  cases htarget : targetOf targets source with
  | none =>
    rw [htarget] at h
    exact (does_ok.mp h).2.1
  | some target =>
    rw [htarget] at h
    obtain ⟨changed, _, _, _, _, hdiffer, hpure, rfl, rfl⟩ := does_bind.mp h
    obtain ⟨rfl, rfl, -⟩ := does_ok.mp hpure
    obtain ⟨plaintext, _, _, _, _, hsource, h₁, rfl, rfl⟩ := does_bind.mp hdiffer
    obtain ⟨_, rfl, rfl, -⟩ := does_decrypt.mp hsource
    obtain ⟨other, _, _, _, _, hother, hpure', rfl, rfl⟩ := does_bind.mp h₁
    obtain ⟨_, rfl, rfl, -⟩ := does_decrypt.mp hother
    obtain ⟨rfl, rfl, -⟩ := does_ok.mp hpure'
    rfl

theorem does_promotionPreview {rows : List SecretValueRow × List SecretValueRow}
    {source target : Uuid} {keys : Option (List JsString)} {preview : SecretPromotionPreview}
    (h : Does (promotionPreview platform rows source target keys : TransactionM wrapper _) stmts ws
      preview) :
    ∃ items, Does (Prog.forEach (fun _ source => previewItem platform rows.2 source) 0 rows.1 :
      TransactionM wrapper _) stmts ws items := by
  unfold promotionPreview at h
  rcases does_ite.mp h with ⟨-, h⟩ | ⟨-, h⟩
  · exact absurd h does_fail
  obtain ⟨items, _, _, _, _, hitems, hpure, rfl, rfl⟩ := does_bind.mp h
  obtain ⟨rfl, rfl, -⟩ := does_ok.mp hpure
  rw [List.append_nil, List.append_nil]
  exact ⟨items, hitems⟩

theorem within_promotionPreview {P : Uuid → Prop}
    {rows : List SecretValueRow × List SecretValueRow} {source target : Uuid}
    {keys : Option (List JsString)} {preview : SecretPromotionPreview}
    (hsources : ∀ row ∈ rows.1, P row.secret.environmentId)
    (htargets : ∀ row ∈ rows.2, P row.secret.environmentId)
    (h : Does (promotionPreview platform rows source target keys : TransactionM wrapper _) stmts ws
      preview) : Within P ws := by
  obtain ⟨items, hitems⟩ := does_promotionPreview h
  refine Traces.forEach (within_of_others fun _ hw => absurd hw List.not_mem_nil)
    (fun _ _ => Within.append) (fun _ row hrow _ ws' _ hdoes => ?_) 0 _ _ _ hitems
  have hitem := does_previewItem hdoes
  split at hitem
  · rw [hitem]
    exact within_of_others fun _ hw => absurd hw List.not_mem_nil
  · rename_i other hother
    rw [hitem]
    refine ⟨fun found hfound => ?_, fun found hfound => ?_, fun w hw id hid => ?_⟩
    · simp only [List.mem_cons, Write.noteDecryption.injEq, List.not_mem_nil, or_false] at hfound
      rcases hfound with rfl | rfl
      · exact hsources row hrow
      · exact htargets other (List.mem_of_find?_eq_some hother)
    · simp only [List.mem_cons, reduceCtorEq, List.not_mem_nil, or_false] at hfound
    · simp only [List.mem_cons, List.not_mem_nil, or_false] at hw
      rcases hw with rfl | rfl <;> cases hid

theorem within_promoteOne {P : Uuid → Prop} {projectId source target : Uuid}
    {targets : List SecretValueRow} {n : Nat} {row : SecretValueRow} {metadata : SecretMetadata}
    (hsource : P row.secret.environmentId) (htarget : P target)
    (htargets : ∀ row ∈ targets, P row.secret.environmentId)
    (h : Does (promoteOne platform draws userId projectId source target targets n row :
      TransactionM wrapper _) stmts ws metadata) : Within P ws := by
  unfold promoteOne at h
  obtain ⟨plaintext, _, _, _, _, hdecrypt, h₁, rfl, rfl⟩ := does_bind.mp h
  refine (within_decrypt hsource hdecrypt).append ?_
  split at h₁
  · exact (does_create h₁).within htarget
  · rename_i other hother
    exact (does_writeVersion h₁).within (htargets other (List.mem_of_find?_eq_some hother))

/-- The rows that `promote` and `previewPromotion` find. -/
theorem does_selectPromotion {projectId source target : Uuid} {keys : Option (List JsString)}
    {lock : Bool} {rows : List SecretValueRow × List SecretValueRow}
    (h : Does (selectPromotion platform projectId source target keys lock :
      TransactionM wrapper _) stmts ws rows) :
    ∃ db locks stored, stmts = [⟨db, locks, []⟩] ∧ ws = [] ∧ storedKeys keys = .ok stored ∧
      rows = (promotionRows platform db projectId source stored,
        promotionRows platform db projectId target stored) := by
  unfold selectPromotion at h
  obtain ⟨stored, _, _, _, _, hstored, hrows, rfl, rfl⟩ := does_bind.mp h
  obtain ⟨rfl, rfl, hok⟩ := does_attempt.mp hstored
  obtain ⟨db, rfl, rfl, rfl⟩ := does_selectForUpdate.mp hrows
  exact ⟨db, _, stored, rfl, rfl, hok, rfl⟩

/-- An event that has only details. -/
theorem metadataFor_details {event : Audit.AuditEventInput} {details : Audit.Metadata}
    {metadata : Json} (hbefore : event.before = none) (hafter : event.after = none)
    (hdetails : event.details = some details) (h : Audit.metadataFor event = .ok metadata) :
    Audit.jsonProperty metadata (ofAscii "details") = some (.object details) := by
  unfold Audit.metadataFor at h
  rw [hbefore, hafter, hdetails] at h
  simp only [Audit.addMetadata, bind, Except.bind] at h
  split at h
  · cases h
  · rename_i properties hproperties
    split at hproperties
    · cases hproperties
    · cases hproperties
      split at h
      · cases h
      · cases h
        rfl

/-- The two lookups of an authorization for a project. -/
theorem authorizeIn_length {projectId : Uuid} {environment : Database.Environment}
    {permission : Authz.Permission} {u : Unit}
    (h : Does (authorizeIn userId projectId environment permission : TransactionM wrapper Unit)
      stmts ws u) : stmts.length = 2 := by
  unfold authorizeIn authorizeUser resolve at h
  obtain ⟨context, _, _, _, _, hresolve, hrequire, rfl, rfl⟩ := does_bind.mp h
  obtain ⟨rfl, rfl, -⟩ := does_attempt.mp hrequire
  obtain ⟨membership, _, _, _, _, hselect, h₁, rfl, rfl⟩ := does_bind.mp hresolve
  obtain ⟨_, rfl, rfl, rfl⟩ := does_select.mp hselect
  split at h₁
  · exact absurd h₁ does_fail
  · obtain ⟨override, _, _, _, _, hoverride, hpure, rfl, rfl⟩ := does_bind.mp h₁
    obtain ⟨_, rfl, rfl, rfl⟩ := does_select.mp hoverride
    obtain ⟨rfl, rfl, -⟩ := does_ok.mp hpure
    rfl

theorem does_authorizePromotion {projectId source target : Uuid}
    {keys normalized : Option (List JsString)}
    (h : Does (authorizePromotion userId projectId source target keys : TransactionM wrapper _)
      stmts ws normalized) :
    ws = [] ∧ stmts.length = 6 ∧ promotionKeys source target keys = .ok normalized := by
  unfold authorizePromotion at h
  obtain ⟨checked, _, _, _, _, hkeys, h₁, rfl, rfl⟩ := does_bind.mp h
  obtain ⟨rfl, rfl, hok⟩ := does_attempt.mp hkeys
  obtain ⟨_, _, _, _, _, hsource, h₂, rfl, rfl⟩ := does_bind.mp h₁
  obtain ⟨_, rfl, rfl, -⟩ := does_environment.mp hsource
  obtain ⟨_, _, _, _, _, htarget, h₃, rfl, rfl⟩ := does_bind.mp h₂
  obtain ⟨_, rfl, rfl, -⟩ := does_environment.mp htarget
  obtain ⟨_, reads, _, _, _, hread, h₄, rfl, rfl⟩ := does_bind.mp h₃
  obtain rfl := does_authorizeIn hread
  obtain ⟨_, writes, _, _, _, hwrite, hpure, rfl, rfl⟩ := does_bind.mp h₄
  obtain rfl := does_authorizeIn hwrite
  obtain ⟨rfl, rfl, rfl⟩ := does_ok.mp hpure
  refine ⟨rfl, ?_, hok⟩
  simp [authorizeIn_length hread, authorizeIn_length hwrite]

theorem accounts_promote {projectId source target : Uuid} {keys : Option (List JsString)}
    {result : SecretPromotionResult}
    (h : Does (promote platform draws userId projectId source target keys :
      TransactionM wrapper _) stmts ws result) : Accounts ws := by
  unfold promote at h
  obtain ⟨normalized, _, _, _, _, hauthorize, h₁, rfl, rfl⟩ := does_bind.mp h
  obtain ⟨rfl, -, -⟩ := does_authorizePromotion hauthorize
  obtain ⟨rows, _, _, _, _, hrows, h₂, rfl, rfl⟩ := does_bind.mp h₁
  obtain ⟨db, locks, stored, rfl, rfl, -, rfl⟩ := does_selectPromotion hrows
  obtain ⟨preview, _, _, _, _, hpreview, h₃, rfl, rfl⟩ := does_bind.mp h₂
  obtain ⟨promoted, _, _, _, _, hloop, h₄, rfl, rfl⟩ := does_bind.mp h₃
  obtain ⟨orgId, _, _, _, _, horg, h₅, rfl, rfl⟩ := does_bind.mp h₄
  obtain ⟨_, rfl, rfl, -⟩ := does_select.mp horg
  obtain ⟨_, _, _, _, _, hrecord, hpure, rfl, rfl⟩ := does_bind.mp h₅
  obtain ⟨rfl, rfl, -⟩ := does_ok.mp hpure
  simp only [List.nil_append, List.append_nil, ← List.append_assoc]
  have hsources : ∀ row ∈ promotionRows platform db projectId source stored,
      row.secret.environmentId = source ∨ row.secret.environmentId = target :=
    fun row hrow => .inl (promotionRows_place hrow)
  have htargets : ∀ row ∈ promotionRows platform db projectId target stored,
      row.secret.environmentId = source ∨ row.secret.environmentId = target :=
    fun row hrow => .inr (promotionRows_place hrow)
  have hcompared := within_promotionPreview (P := fun id => id = source ∨ id = target) hsources
    htargets hpreview
  have hpromoted := Traces.forEach (within_of_others fun _ hw => absurd hw List.not_mem_nil)
    (fun _ _ => Within.append) (fun _ row hrow _ _ _ hdoes =>
      within_promoteOne (P := fun id => id = source ∨ id = target) (hsources row hrow) (.inr rfl)
        htargets hdoes) 0 _ _ _ hloop
  refine .inr (byEnvironment_of_record (hcompared.append hpromoted) hrecord
    fun metadata hmetadata environmentId hid => ?_)
  rcases hid with rfl | rfl
  · exact .inr ⟨_, metadataFor_details rfl rfl rfl hmetadata, rfl⟩
  · exact .inl rfl

/-! ## The audit trail of a run -/

theorem emits_list {P : Write → Prop} {projectId environmentId : Uuid} {filters : ListFilters} :
    Emits P (list platform userId projectId environmentId filters : TransactionM wrapper _) :=
  Emits.bind (emits_secretEnvironment _ _) fun _ => Emits.bind (emits_authorizeUser _ _ _ _)
    fun _ => Emits.bind (emits_ofExcept _) fun _ => Emits.bind (emits_select _) fun _ => emits_ok _

theorem emits_listVersions {P : Write → Prop} {secretId : Uuid} :
    Emits P (listVersions platform userId secretId : TransactionM wrapper _) :=
  Emits.bind (emits_metadataRow _ _ _) fun _ => Emits.bind (emits_secretEnvironment _ _)
    fun _ => Emits.bind (emits_authorizeUser _ _ _ _) fun _ => Emits.bind (emits_select _)
      fun _ => emits_ok _

/-- **Every operation but `previewPromotion` accounts for what it reads and changes.** -/
theorem accounts_of_call {call : SecretCall} {answer : Answer}
    (hcall : ∀ projectId source target keys,
      call ≠ .previewPromotion projectId source target keys)
    (h : Does (call.program config userId draws : TransactionM wrapper _) stmts ws answer) :
    Accounts ws := by
  cases call with
  | list =>
    obtain ⟨_, hdoes⟩ := does_answering h
    exact .inl (byName_of_others (emits_list.does hdoes))
  | get =>
    obtain ⟨_, hdoes⟩ := does_answering h
    exact .inl (byName_get hdoes)
  | runtimeConfig =>
    obtain ⟨_, hdoes⟩ := does_answering h
    exact accounts_runtimeConfig hdoes
  | exportConfig =>
    obtain ⟨_, hdoes⟩ := does_answering h
    exact accounts_exportConfig hdoes
  | listVersions =>
    obtain ⟨_, hdoes⟩ := does_answering h
    exact .inl (byName_of_others (emits_listVersions.does hdoes))
  | compareVersions =>
    obtain ⟨_, hdoes⟩ := does_answering h
    exact .inl (byName_compareVersions hdoes)
  | rollback =>
    obtain ⟨_, hdoes⟩ := does_answering h
    exact .inl (byName_rollback hdoes)
  | create =>
    obtain ⟨_, hdoes⟩ := does_answering h
    exact .inl (does_create hdoes).byName
  | update =>
    obtain ⟨_, hdoes⟩ := does_answering h
    exact .inl (byName_update hdoes)
  | bulkSet =>
    obtain ⟨_, hdoes⟩ := does_answering h
    exact .inl (byName_bulkSet hdoes)
  | importBatch =>
    obtain ⟨_, hdoes⟩ := does_answering h
    exact accounts_importBatch hdoes
  | previewPromotion projectId source target keys => exact absurd rfl (hcall _ _ _ _)
  | promote =>
    obtain ⟨_, hdoes⟩ := does_answering h
    exact accounts_promote hdoes
  | delete =>
    obtain ⟨_, hdoes⟩ := does_answering h
    exact .inl (byName_delete hdoes)

/-- A selected key is active in both environments of a promotion. -/
def SharesKey (platform : Platform) (db : Db wrapper) (projectId source target : Uuid)
    (keys : Option (List JsString)) : Prop :=
  ∃ normalized stored, promotionKeys source target keys = .ok normalized ∧
    storedKeys normalized = .ok stored ∧
    ∃ row ∈ promotionRows platform db projectId source stored,
      ∃ other ∈ promotionRows platform db projectId target stored,
        other.secret.key = row.secret.key

/-- The lookup of `previewPromotion` is its seventh statement; it writes only decryptions, and there
are some exactly when a key is shared. -/
theorem does_previewPromotion {projectId source target : Uuid} {keys : Option (List JsString)}
    {preview : SecretPromotionPreview}
    (h : Does (previewPromotion platform userId projectId source target keys :
      TransactionM wrapper _) stmts ws preview) :
    ∃ db locks, stmts[6]? = some ⟨db, locks, []⟩ ∧ (∀ w ∈ ws, ∃ row, w = .noteDecryption row) ∧
      (SharesKey platform db projectId source target keys ↔ ws ≠ []) := by
  unfold previewPromotion at h
  obtain ⟨normalized, six, _, _, _, hauthorize, h₁, rfl, rfl⟩ := does_bind.mp h
  obtain ⟨rfl, hsix, hnormalized⟩ := does_authorizePromotion hauthorize
  obtain ⟨rows, _, _, _, _, hrows, hpreview, rfl, rfl⟩ := does_bind.mp h₁
  obtain ⟨db, locks, stored, rfl, rfl, hstored, rfl⟩ := does_selectPromotion hrows
  obtain ⟨items, hitems⟩ := does_promotionPreview hpreview
  obtain ⟨hwrites, hturns⟩ := does_forEach hitems
  simp only [List.nil_append]
  refine ⟨db, locks, by simp [hsix], fun w hw => ?_, ?_⟩
  · obtain ⟨row, -, _, _, _, _, hturn, hmem⟩ := hwrites w hw
    have hitem := does_previewItem hturn
    split at hitem
    · rw [hitem] at hmem
      cases hmem
    · rw [hitem] at hmem
      simp only [List.mem_cons, List.not_mem_nil, or_false] at hmem
      rcases hmem with rfl | rfl <;> exact ⟨_, rfl⟩
  constructor
  · rintro ⟨normalized', stored', hnormalized', hstored', row, hrow, other, hother, hkey⟩ hnil
    rw [hnormalized] at hnormalized'
    cases hnormalized'
    rw [hstored] at hstored'
    cases hstored'
    obtain ⟨_, _, ws', _, hturn, hsub⟩ := hturns row hrow
    have hitem := does_previewItem hturn
    split at hitem
    · rename_i hnone
      have hne := List.find?_eq_none.mp hnone other hother
      simp [hkey] at hne
    · rw [hitem] at hsub
      have hmem := hsub _ (List.mem_cons_self ..)
      rw [hnil] at hmem
      cases hmem
  · intro hne
    obtain ⟨w, hw⟩ := List.exists_mem_of_ne_nil _ hne
    obtain ⟨row, hrow, _, _, _, _, hturn, hmem⟩ := hwrites w hw
    have hitem := does_previewItem hturn
    split at hitem
    · rw [hitem] at hmem
      cases hmem
    · rename_i other hother
      exact ⟨normalized, stored, hnormalized, hstored, row, hrow, other,
        List.mem_of_find?_eq_some hother, by simpa using List.find?_some hother⟩

/-- The commit of a `previewPromotion` that found a selected key in both environments. -/
def ComparesValues (config : Config) (e : Commit wrapper) : Prop :=
  ∃ projectId source target keys moment,
    e.call.action = .secret (.previewPromotion projectId source target keys) ∧
      e.world.moments[6]? = some moment ∧
      SharesKey config.platform moment projectId source target keys

/-- What a run of the services has committed accounts for its access to secrets, and what failed
left nothing. -/
structure AuditTrail (base : Db wrapper)
    (s : System (Db wrapper) Lock Write ServiceError Call Answer) : Prop where
  audited : ∀ e ∈ s.log, ∀ call, e.call.action = .secret call → IsAudited e
  committed : s.base = committed store base s.log

theorem isAudited_iff {e : Commit wrapper} {call : SecretCall}
    (hcall : e.call.action = .secret call) (hran : Ran store (program config) e stmts) :
    IsAudited e ↔ ¬ComparesValues config e := by
  have hdoes := hran.does
  have hprogram : program config e.call =
      (call.program config e.call.userId e.call.draws : TransactionM wrapper Answer) := by
    unfold program
    rw [hcall]
  rw [hprogram] at hdoes
  by_cases hpreview : ∃ projectId source target keys,
      call = .previewPromotion projectId source target keys
  · obtain ⟨projectId, source, target, keys, rfl⟩ := hpreview
    obtain ⟨_, hpreview⟩ := does_answering hdoes
    obtain ⟨db, locks, hdb, hwrites, hshares⟩ := does_previewPromotion hpreview
    obtain ⟨moment, hmoment, hfinds⟩ := getElem?_of_forall₂ hran.finds hdb
    have hrows : ∀ id keys, promotionRows config.platform db projectId id keys =
        promotionRows config.platform moment projectId id keys := by
      intro id keys
      refine hfinds.keeps (f := fun db => promotionRows config.platform db projectId id keys)
        fun w hw s => ?_
      obtain ⟨row, rfl⟩ := hwrites w hw
      rfl
    have hcompares : ComparesValues config e ↔ e.world.pending ≠ [] := by
      rw [← hshares, SharesKey]
      simp only [hrows]
      constructor
      · rintro ⟨_, _, _, _, _, hother, hsame, hkey⟩
        rw [hcall] at hother
        cases hother
        rw [hmoment] at hsame
        cases hsame
        exact hkey
      · exact fun hkey => ⟨_, _, _, _, moment, hcall, hmoment, hkey⟩
    rw [hcompares, not_not]
    constructor
    · intro haudited
      by_contra hne
      obtain ⟨w, hw⟩ := List.exists_mem_of_ne_nil _ hne
      obtain ⟨row, rfl⟩ := hwrites w hw
      obtain ⟨event, hevent, -⟩ := haudited.decryption row hw
      obtain ⟨_, heq⟩ := hwrites _ hevent
      cases heq
    · intro hnil
      refine Accounts.isAudited ?_
      rw [hnil]
      exact accounts_nil
  · refine iff_of_true (accounts_of_call (fun _ _ _ _ heq => hpreview ⟨_, _, _, _, heq⟩)
      hdoes).isAudited ?_
    rintro ⟨projectId, source, target, keys, _, hother, -⟩
    rw [hcall] at hother
    cases hother
    exact hpreview ⟨_, _, _, _, rfl⟩

/-- **Access to secrets is audited exactly in the runs whose previews compare no values.** -/
theorem auditTrail_iff {base : Db wrapper}
    {s : System (Db wrapper) Lock Write ServiceError Call Answer}
    (hreach : Reachable store (program config) base s) :
    AuditTrail base s ↔ ∀ e ∈ s.log, ¬ComparesValues config e := by
  have hserial := serial_of_reachable hreach
  constructor
  · rintro ⟨haudited, -⟩ e he hcompares
    obtain ⟨stmts, hran⟩ := hserial.log e he
    have hcall := hcompares
    obtain ⟨_, _, _, _, _, hcall, -⟩ := hcall
    exact (isAudited_iff hcall hran).mp (haudited e he _ hcall) hcompares
  · intro hcompares
    refine ⟨fun e he call hcall => ?_, (commits_of_reachable hreach).1⟩
    obtain ⟨stmts, hran⟩ := hserial.log e he
    exact (isAudited_iff hcall hran).mpr (hcompares e he)

end

/-! ## A preview of a shared key -/

def storeKey (time : Nat) (environmentId : Uuid) : Event exampleWrapper :=
  .call (callAt time (.secret (.create ⟨100⟩ environmentId
    { key := ofAscii "KEY", value := ofAscii "x" })))

/-- A project with the key in its first environment. -/
def oneCopy : Db exampleWrapper :=
  afterAll exampleConfig newOrganization [.call (createApp 1), storeKey 2 ⟨101⟩]

/-- The project with the key in its second environment as well. -/
def twoCopies : Db exampleWrapper := afterAll exampleConfig oneCopy [storeKey 3 ⟨102⟩]

/-- A preview of all keys of the first environment for the second. -/
def previewAll : Call := callAt 4 (.secret (.previewPromotion ⟨100⟩ ⟨101⟩ ⟨102⟩ none))

/-- The preview runs up to its commit. -/
def previewRun (base : Db exampleWrapper) (count : Nat) :
    Option (System (Db exampleWrapper) Lock Write ServiceError Call Answer) :=
  (System.start base).schedule store (program exampleConfig)
    (.start previewAll :: List.replicate count (.statement 0) ++ [.commit 0])

theorem auditTrail_iff_oneCopy : ∃ s, previewRun oneCopy 7 = some s ∧
    (AuditTrail oneCopy s ↔ ∀ e ∈ s.log, ¬ComparesValues exampleConfig e) := by
  obtain ⟨s, hs⟩ := Option.isSome_iff_exists.mp
    (show (previewRun oneCopy 7).isSome = true by decide +kernel)
  exact ⟨s, hs, auditTrail_iff (reachable_of_schedule hs)⟩

def isDecryption : Write → Bool
  | .noteDecryption _ => true
  | _ => false

def isAuditEvent : Write → Bool
  | .insertAuditEvent _ => true
  | _ => false

/-- A commit of a call on secrets that decrypts and records nothing. -/
def isUnrecorded (e : Commit exampleWrapper) : Bool :=
  (match e.call.action with
    | .secret _ => true
    | _ => false) && e.world.pending.any isDecryption && !e.world.pending.any isAuditEvent

theorem twoCopies_not_auditTrail :
    ∃ s, Reachable store (program exampleConfig) twoCopies s ∧ ¬AuditTrail twoCopies s := by
  have hrun : (previewRun twoCopies 9).map (·.log.any isUnrecorded) = some true := by
    decide +kernel
  obtain ⟨s, hs, hlog⟩ := Option.map_eq_some_iff.mp hrun
  refine ⟨s, reachable_of_schedule hs, fun h => ?_⟩
  obtain ⟨e, he, hunrecorded⟩ := List.any_eq_true.mp hlog
  simp only [isUnrecorded, Bool.and_eq_true, Bool.not_eq_true', List.any_eq_false] at hunrecorded
  obtain ⟨⟨hsecret, hdecrypts⟩, hrecords⟩ := hunrecorded
  cases hcall : e.call.action with
  | project | environment =>
    rw [hcall] at hsecret
    cases hsecret
  | secret call =>
    obtain ⟨w, hw, hdecryption⟩ := List.any_eq_true.mp hdecrypts
    cases w with
    | noteDecryption row =>
      obtain ⟨event, hevent, -⟩ := (h.audited e he call hcall).decryption row hw
      exact hrecords _ hevent rfl
    | _ => cases hdecryption

end Himitsu.Secrets
