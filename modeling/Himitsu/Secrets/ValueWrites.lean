import Himitsu.Library.Except
import Himitsu.Protection.Contents
import Himitsu.Secrets.Histories

/-!
# What the calls make of the histories

* `HasValue` — a row that was read with the value that its readers decrypt.
* `Appends` — some values, each appended to the history of its secret under the next number.
* `Effect` — what a call on secrets makes of the histories.

Principal result: `serially_call` — every call has its effect on the histories, and the tables
implement them after it.
-/

set_option autoImplicit false

namespace Himitsu.Secrets

open JsString Crypto Database Services Transactions Interleaving Protection RelatedLists

variable {wrapper : KeyWrapper} {aead : Aead} {db : Db wrapper} {vault : Vault}

/-! ## Values that are read -/

/-- The value of a row that was read, for those who decrypt it under the context of its version. -/
structure HasValue (aead : Aead) (db : Db wrapper) (row : SecretValueRow) (value : JsString) :
    Prop where
  wellFormed : isWellFormed value = true
  isSealed : Sealed aead db.keys row.encrypted (contextOf row.orgId row.secret row.recordVersion)
    (Utf8.encode value)

theorem HasValue.grows {db' : Db wrapper} {row : SecretValueRow} {value : JsString}
    (h : HasValue aead db row value) (hgrows : Grows db db') : HasValue aead db' row value :=
  ⟨h.wellFormed, Sealed.mono hgrows.keys h.isSealed⟩

theorem Sees.refl (db : Db wrapper) : Sees db db := ⟨.refl _, rfl⟩

theorem find_versionsOf (db : Db wrapper) (id : Uuid) (number : Nat) :
    db.secretVersions.find? (fun row => row.secretId = id && row.version = number) =
      (db.versionsOf id).find? fun row => row.version = number := by
  rw [Db.versionsOf, List.find?_filter]
  simp only [Bool.decide_and, decide_eq_true_eq]

/-- The join of a secret with one of its versions gives a value of its history. -/
theorem Implements.hasValue {platform : Platform} (h : Implements aead db vault)
    {view : Db wrapper} (hview : Sees view db) {row : Secret} (hrow : row ∈ db.secrets)
    (hversions : db.versionsOf row.id = view.versionsOf row.id) {number : Nat}
    {found : SecretValueRow} (hfound : selectValue platform view row number = some found) :
    found.secret = row ∧ found.orgId = db.orgId ∧ found.recordVersion = number ∧ 1 ≤ number ∧
      ∃ value, (vault row.id)[number - 1]? = some value ∧ HasValue aead db found value := by
  obtain ⟨stored, hstored, rfl⟩ := Option.map_eq_some_iff.mp hfound
  rw [find_versionsOf, ← hversions] at hstored
  have hversion := List.find?_some hstored
  obtain rfl := of_decide_eq_true hversion
  obtain ⟨i, hi⟩ := List.mem_iff_getElem?.mp (List.mem_of_find?_eq_some hstored)
  have hnumbers := congrArg (·[i]?) (h.numbers row hrow)
  rw [List.getElem?_map, hi, Option.map_some] at hnumbers
  obtain ⟨hlt, hnumber⟩ := List.getElem?_eq_some_iff.mp hnumbers.symm
  rw [List.getElem_range'] at hnumber
  obtain ⟨value, hvalue, hwellFormed, hsealed⟩ := getElem?_of_forall₂ (h.values row hrow) hi
  refine ⟨rfl, hview.2, rfl, by omega, value, ?_, hwellFormed, ?_⟩
  · rw [← hvalue]
    congr 1
    omega
  · dsimp only [selectSecret]
    rw [hview.2]
    exact hsealed

section

variable {platform : Platform} {rely : Db wrapper → Db wrapper → Prop} {held : List Lock}

theorem serially_decrypt (hrely : ∀ view db, rely view db → Sees view db) {row : SecretValueRow}
    {value : JsString} {number : Nat} (h : HasValue platform.aead db row value)
    (hnumber : number = row.recordVersion) :
    Serially store rely (decrypt platform row number : TransactionM wrapper _) held db
      fun plaintext held' db' => (∀ l ∈ held, l ∈ held') ∧ bare db' = bare db ∧
        Utf8.decode plaintext = value := by
  subst hnumber
  refine serially_execute fun view plaintext hview _ hresult =>
    ⟨fun l hl => List.mem_append_left _ hl, rfl, ?_⟩
  cases hdecrypt : Crypto.decrypt platform.aead view.keys row.encrypted
      (contextOf row.orgId row.secret row.recordVersion) with
  | error e =>
    rw [hdecrypt] at hresult
    cases hresult
  | ok found =>
    rw [hdecrypt] at hresult
    obtain rfl := Except.ok.inj hresult
    have hkeeps := KeepsValues.of_extends (hrely _ _ hview).1 _ _ _ hdecrypt
    rw [decrypt_of_sealed h.isSealed] at hkeeps
    rw [← Except.ok.inj hkeeps, Utf8.decode_encode h.wellFormed]

/-- The lookup of a writer locks the row, so it is that of the commit. -/
theorem serially_lockedRow (hrely : ∀ view db, rely view db → Sees view db) {id : Uuid} :
    Serially store rely (metadataRow platform id true : TransactionM wrapper _) held db
      fun found held' db' => (∀ l ∈ held, l ∈ held') ∧ db' = db ∧ .secret id ∈ held' ∧
        found.orgId = db.orgId ∧ found.secret ∈ db.secrets ∧ found.secret.id = id ∧
          found.secret.deletedAt = none := by
  unfold metadataRow
  refine serially_bind (serially_selectForUpdate fun view hview hparts => ?_)
  split
  · exact serially_fail
  · rename_i found hfound
    obtain ⟨secret, hfind, rfl⟩ := Option.map_eq_some_iff.mp hfound
    obtain ⟨hmem, hid, hactive⟩ : _ ∧ secret.id = id ∧ _ := id_of_isActiveId hfind
    have hlock : Lock.secret id ∈ held ++
        (view.secrets.filter (isActiveId id)).map fun row => .secret row.id := by
      refine List.mem_append_right _ (List.mem_map.mpr ⟨secret, ?_, by rw [hid]⟩)
      exact List.mem_filter.mpr ⟨hmem, List.find?_some hfind⟩
    obtain ⟨hsecrets, -, -⟩ := Contents.secret.inj (hparts (.secret id) hlock)
    have hrow : secret ∈ db.secretRows id := by
      rw [hsecrets]
      exact List.mem_filter.mpr ⟨hmem, decide_eq_true hid⟩
    exact serially_ok ⟨fun l hl => List.mem_append_left _ hl, rfl, hlock, (hrely _ _ hview).2,
      (List.mem_filter.mp hrow).1, hid, hactive⟩

theorem serially_versionValueRow (hrely : ∀ view db, rely view db → Sees view db)
    (h : Implements platform.aead db vault) {row : Secret} (hrow : row ∈ db.secrets)
    (hheld : .secret row.id ∈ held) {number : Nat} :
    Serially store rely (versionValueRow platform row.id number : TransactionM wrapper _) held db
      fun found held' db' => held' = held ∧ db' = db ∧ found.recordVersion = number ∧ 1 ≤ number ∧
        ∃ value, (vault row.id)[number - 1]? = some value ∧
          HasValue platform.aead db found value := by
  unfold versionValueRow
  refine serially_bind (serially_select fun view hview hparts => ?_)
  have hpart := hparts (.secret row.id) hheld
  have hfind : view.secrets.find? (fun other => other.id = row.id && other.deletedAt.isNone) =
      if row.deletedAt.isNone then some row else none := find_isActiveId (h.secretRows hrow) hpart
  rw [hfind]
  split
  · exact serially_fail
  · rename_i found hfound
    obtain ⟨secret, hsecret, hfound⟩ := Option.bind_eq_some_iff.mp hfound
    split at hsecret
    · obtain rfl := Option.some.inj hsecret
      obtain ⟨-, hversions, -⟩ := Contents.secret.inj hpart
      obtain ⟨-, -, hnumber, hpositive, hvalue⟩ :=
        h.hasValue (hrely _ _ hview) hrow hversions hfound
      exact serially_ok ⟨rfl, rfl, hnumber, hpositive, hvalue⟩
    · cases hsecret

end

/-! ## Effects -/

/-- New versions one after another, with their values: each has the next number of its secret. -/
inductive Appends : Vault → List (SecretMetadata × JsString) → Vault → Prop
  | nil (vault : Vault) : Appends vault [] vault
  | cons {vault vault' : Vault} {metadata : SecretMetadata} {value : JsString}
      {rest : List (SecretMetadata × JsString)}
      (hnumber : metadata.currentVersion = (vault metadata.id).length + 1)
      (hrest : Appends (vault.append metadata.id value) rest vault') :
      Appends vault ((metadata, value) :: rest) vault'

theorem Appends.concat {vault vault' : Vault} {writes : List (SecretMetadata × JsString)}
    (h : Appends vault writes vault') {metadata : SecretMetadata} (value : JsString)
    (hnumber : metadata.currentVersion = (vault' metadata.id).length + 1) :
    Appends vault (writes ++ [(metadata, value)]) (vault'.append metadata.id value) := by
  induction h with
  | nil => exact .cons hnumber (.nil _)
  | cons hfirst _ ih => exact .cons hfirst (ih hnumber)

/-- A new version of the key of an input in an environment, with its value. -/
structure Stores (project environment : Uuid) (input : SetSecretInput)
    (write : SecretMetadata × JsString) : Prop where
  projectId : write.1.projectId = project
  environmentId : write.1.environmentId = environment
  key : IsKeyOf input write.1.key
  value : write.2 = toWellFormed input.value

/-- A new version in an environment with the current value of the key in another one. -/
structure Copies (db : Db wrapper) (vault : Vault) (project source target : Uuid)
    (write : SecretMetadata × JsString) : Prop where
  projectId : write.1.projectId = project
  environmentId : write.1.environmentId = target
  original : ∃ row ∈ db.secrets, row.projectId = project ∧ row.environmentId = source ∧
    row.deletedAt = none ∧ row.key = write.1.key ∧ (vault row.id).getLast? = some write.2

/-- What a call that commits makes of the histories. -/
def Effect (db : Db wrapper) (vault vault' : Vault) (answer : Answer) : SecretCall → Prop
  | .create projectId environmentId input => ∃ write, answer = .secret write.1 ∧
      Stores projectId environmentId input write ∧ Appends vault [write] vault'
  | .update id input => (∀ expected ∈ input.expectedVersion, expected = (vault id).length) ∧
      (input.value = none → vault' = vault) ∧
      ∀ value ∈ input.value, ∃ metadata, answer = .secret metadata ∧ metadata.id = id ∧
        Appends vault [(metadata, toWellFormed value)] vault'
  | .rollback id target input => (∀ expected ∈ input.expectedVersion, expected = (vault id).length) ∧
      1 ≤ target ∧ ∃ metadata value, answer = .secret metadata ∧ metadata.id = id ∧
        (vault id)[target - 1]? = some value ∧ Appends vault [(metadata, value)] vault'
  | .bulkSet projectId environmentId inputs => ∃ writes, answer = .secrets (writes.map Prod.fst) ∧
      List.Forall₂ (Stores projectId environmentId) inputs writes ∧ Appends vault writes vault'
  | .importBatch projectId environmentId inputs _ _ _ => ∃ result writes chosen,
      answer = .imported result ∧ result.secrets = writes.map Prod.fst ∧ chosen.Sublist inputs ∧
        List.Forall₂ (Stores projectId environmentId) chosen writes ∧ Appends vault writes vault'
  | .promote projectId source target _ => ∃ result writes, answer = .promoted result ∧
      result.secrets = writes.map Prod.fst ∧
        (∀ write ∈ writes, Copies db vault projectId source target write) ∧
          Appends vault writes vault'
  | _ => vault' = vault

/-- The tables after a call implement the histories that it makes. -/
def Makes (aead : Aead) (db : Db wrapper) (vault : Vault) (call : SecretCall) (answer : Answer)
    (db' : Db wrapper) : Prop :=
  ∃ vault', Implements aead db' vault' ∧ Effect db vault vault' answer call

section

variable {before : Secret} {value : JsString} {metadata : SecretMetadata} {db' : Db wrapper}

theorem Wrote.appends (h : Wrote aead db vault before value metadata db') :
    metadata.currentVersion = (vault metadata.id).length + 1 ∧
      Implements aead db' (vault.append metadata.id value) := by
  rw [h.id, h.version, h.current]
  exact ⟨rfl, h.implements⟩

theorem Created.appends {projectId environmentId : Uuid} {key : JsString}
    (h : Created aead db vault projectId environmentId key value metadata db') :
    metadata.currentVersion = (vault metadata.id).length + 1 ∧
      Implements aead db' (vault.append metadata.id value) ∧ metadata.projectId = projectId ∧
        metadata.environmentId = environmentId ∧ metadata.key = key := by
  obtain ⟨before, db₁, hprepared, hwrote⟩ := h
  obtain ⟨hproject, henvironment, hkey⟩ := hprepared.place
  obtain ⟨hnumber, himplements⟩ := hwrote.appends
  exact ⟨hnumber, himplements, hwrote.projectId.trans hproject,
    hwrote.environmentId.trans henvironment, hwrote.key.trans hkey⟩

end

/-! ## Single writes -/

section

variable {platform : Platform} {rely : Db wrapper → Db wrapper → Prop} {held : List Lock}
  {draws : Draws} {userId : Uuid}

theorem serially_scope {α : Type} {projectId environmentId : Uuid} {permission : Authz.Permission}
    {f : Database.Environment → TransactionM wrapper α} {Q : α → List Lock → Db wrapper → Prop}
    (h : ∀ scope held', (∀ l ∈ held, l ∈ held') → Serially store rely (f scope) held' db Q) :
    Serially store rely (environment projectId environmentId >>= fun scope =>
      authorizeIn userId projectId scope permission >>= fun _ => f scope) held db Q := by
  refine serially_bind ((serially_read (emits_secretEnvironment _ _)).mono
    fun scope held₁ db₁ h₁ => ?_)
  obtain ⟨hheld₁, rfl⟩ := h₁
  refine serially_bind ((serially_read (emits_authorizeUser _ _ _ _)).mono
    fun _ held₂ db₂ h₂ => ?_)
  obtain ⟨hheld₂, rfl⟩ := h₂
  exact h scope held₂ fun l hl => hheld₂ l (hheld₁ l hl)

theorem serially_keeps {α : Type} {p : TransactionM wrapper α} (h : Implements aead db vault)
    (hp : Emits KeepsHistories p) : Serially store rely p held db fun _ _ db' =>
      Implements aead db' vault :=
  (serially_of_invariant hp (fun _ hw _ hdb => hdb.write hw) h).mono fun _ _ _ h => h.2

theorem metadataWrites_keepsHistories (id : Uuid) : MetadataWrites KeepsHistories id where
  row _ hset _ := hset
  untag := trivial
  tag _ := trivial
  audit _ := trivial

theorem readWrites_keepsHistories : ReadWrites KeepsHistories := ⟨fun _ => trivial, fun _ => trivial⟩

theorem expected_of_not_any {expected : Option Nat} {current : Nat}
    (h : ¬expected.any (· ≠ current) = true) : ∀ version ∈ expected, version = current := by
  intro version hversion
  rw [Option.mem_def.mp hversion, Option.any_some, decide_eq_true_eq] at h
  exact not_not.mp h

theorem serially_update (hrely : ∀ view db, rely view db → Sees view db) {id : Uuid}
    {input : UpdateSecretInput} (h : Implements platform.aead db vault) :
    Serially store rely (update platform draws userId id input : TransactionM wrapper _) held db
      fun metadata _ db' =>
        Makes platform.aead db vault (.update id input) (.secret metadata) db' := by
  refine serially_bind ((serially_lockedRow hrely).mono fun before held₁ db₁ h₁ => ?_)
  obtain ⟨-, rfl, -, horg, hmem, rfl, -⟩ := h₁
  refine serially_scope fun scope held₂ _ => serially_ite (fun _ => serially_fail) fun hexpected => ?_
  have hcurrent : ∀ expected ∈ input.expectedVersion,
      expected = (vault before.secret.id).length := by
    rw [← h.current _ hmem]
    exact expected_of_not_any hexpected
  cases hvalue : input.value with
  | none =>
    refine serially_ite (fun _ => serially_fail) fun _ => ?_
    refine (serially_keeps h (emits_writeMetadata _ (metadataWrites_keepsHistories _) _ _ _)).mono
      fun metadata _ db' h' => ⟨vault, h', hcurrent, fun _ => rfl, fun value hsome => ?_⟩
    rw [hvalue] at hsome
    cases hsome
  | some value =>
    refine (serially_writeVersion hrely h horg (known_of_mem hmem)).mono
      fun metadata _ db' h' => ?_
    obtain ⟨hnumber, himplements⟩ := h'.2.appends
    refine ⟨_, himplements, hcurrent, fun hnone => ?_, fun other hsome => ⟨metadata, rfl, h'.2.id, ?_⟩⟩
    · rw [hvalue] at hnone
      cases hnone
    · rw [hvalue] at hsome
      obtain rfl := Option.some.inj hsome
      exact .cons hnumber (.nil _)

theorem serially_rollback (hrely : ∀ view db, rely view db → Sees view db) {id : Uuid}
    {target : Nat} {input : RollbackInput} (h : Implements platform.aead db vault) :
    Serially store rely (rollback platform draws userId id target input : TransactionM wrapper _)
      held db fun metadata _ db' =>
        Makes platform.aead db vault (.rollback id target input) (.secret metadata) db' := by
  refine serially_ite (fun _ => serially_fail) fun hpositive => ?_
  refine serially_bind ((serially_lockedRow hrely).mono fun before held₁ db₁ h₁ => ?_)
  obtain ⟨-, rfl, hlock, horg, hmem, rfl, -⟩ := h₁
  refine serially_scope fun scope held₂ hheld₂ =>
    serially_ite (fun _ => serially_fail) fun hexpected =>
      serially_ite (fun _ => serially_fail) fun _ => ?_
  have hcurrent : ∀ expected ∈ input.expectedVersion,
      expected = (vault before.secret.id).length := by
    rw [← h.current _ hmem]
    exact expected_of_not_any hexpected
  refine serially_bind ((serially_versionValueRow hrely h hmem (hheld₂ _ hlock)).mono
    fun found held₃ db₃ h₃ => ?_)
  obtain ⟨rfl, rfl, hnumber, -, value, hvalue, hhas⟩ := h₃
  refine serially_bind ((serially_decrypt hrely hhas rfl).mono fun plaintext held₄ db₄ h₄ => ?_)
  obtain ⟨-, hbare, rfl⟩ := h₄
  have hgrows := grows_of_bare hbare
  refine (serially_writeVersion hrely (h.of_bare hbare) (horg.trans hgrows.orgId.symm)
    (hgrows.known _ (known_of_mem hmem))).mono fun metadata _ db' h' => ?_
  obtain ⟨hnext, himplements⟩ := h'.2.appends
  dsimp only at himplements
  rw [toWellFormed_of_isWellFormed hhas.wellFormed] at himplements
  exact ⟨_, himplements, hcurrent, by omega, metadata, _, rfl, h'.2.id, hvalue,
    .cons hnext (.nil _)⟩

end

/-! ## Batches -/

/-- What a batch has written so far. -/
def Progress (aead : Aead) (db : Db wrapper) (vault : Vault)
    (writes : List (SecretMetadata × JsString)) (db' : Db wrapper) : Prop :=
  Grows db db' ∧ ∃ vault', Implements aead db' vault' ∧ Appends vault writes vault'

section

variable {platform : Platform} {rely : Db wrapper → Db wrapper → Prop} {held : List Lock}
  {draws : Draws} {userId : Uuid} {n : Nat} {db₀ : Db wrapper}
  {writes : List (SecretMetadata × JsString)}

theorem Progress.start (h : Implements aead db vault) : Progress aead db vault [] db :=
  ⟨.refl db, vault, h, .nil vault⟩

theorem serially_nextVersion (hrely : ∀ view db, rely view db → Sees view db) {before : SecretRow}
    {input : VersionInput} {action : VersionAction} {recordAudit : Bool}
    (h : Progress platform.aead db₀ vault writes db) (horg : before.orgId = db.orgId)
    (hknown : Known db before.secret) :
    Serially store rely (writeVersion platform draws n userId before input action recordAudit :
      TransactionM wrapper _) held db fun metadata held' db' => (∀ l ∈ held, l ∈ held') ∧
        Progress platform.aead db₀ vault (writes ++ [(metadata, toWellFormed input.value)]) db' ∧
          metadata.id = before.secret.id ∧ metadata.projectId = before.secret.projectId ∧
            metadata.environmentId = before.secret.environmentId ∧
              metadata.key = before.secret.key := by
  obtain ⟨hgrows, vault', himplements, happends⟩ := h
  refine (serially_writeVersion hrely himplements horg hknown).mono fun metadata held' db' h' => ?_
  obtain ⟨hheld, hwrote⟩ := h'
  obtain ⟨hnumber, himplements'⟩ := hwrote.appends
  exact ⟨hheld, ⟨hgrows.trans (hwrote.grows himplements), _, himplements',
    happends.concat _ hnumber⟩, hwrote.id, hwrote.projectId, hwrote.environmentId, hwrote.key⟩

theorem serially_nextCreation (hrely : ∀ view db, rely view db → Sees view db)
    {projectId environmentId : Uuid} {input : SetSecretInput} {authorized recordAudit : Bool}
    (h : Progress platform.aead db₀ vault writes db) :
    Serially store rely (create platform draws n userId projectId environmentId input authorized
      recordAudit : TransactionM wrapper _) held db fun metadata held' db' =>
        (∀ l ∈ held, l ∈ held') ∧
          Progress platform.aead db₀ vault (writes ++ [(metadata, toWellFormed input.value)]) db' ∧
            Stores projectId environmentId input (metadata, toWellFormed input.value) := by
  obtain ⟨hgrows, vault', himplements, happends⟩ := h
  refine (serially_create hrely himplements).mono fun metadata held' db' h' => ?_
  obtain ⟨hheld, key, hkey, hcreated⟩ := h'
  obtain ⟨hnumber, himplements', hproject, henvironment, rfl⟩ := hcreated.appends
  exact ⟨hheld, ⟨hgrows.trans (hcreated.grows himplements), _, himplements',
    happends.concat _ hnumber⟩, hproject, henvironment, hkey, rfl⟩

theorem serially_createCall (hrely : ∀ view db, rely view db → Sees view db)
    {projectId environmentId : Uuid} {input : SetSecretInput}
    (h : Implements platform.aead db vault) :
    Serially store rely (create platform draws n userId projectId environmentId input false true :
      TransactionM wrapper _) held db fun metadata _ db' =>
        Makes platform.aead db vault (.create projectId environmentId input) (.secret metadata)
          db' := by
  refine (serially_nextCreation hrely (.start h)).mono fun metadata _ db' h' => ?_
  obtain ⟨-, ⟨-, vault', himplements, happends⟩, hstores⟩ := h'
  exact ⟨vault', himplements, _, rfl, hstores, happends⟩

/-- What the keys of a batch are made of. -/
theorem normalizedKeys_ok {inputs : List SetSecretInput} {keys : List JsString}
    (h : normalizedKeys inputs = .ok keys) : List.Forall₂ (fun input key =>
      validateSecretKey input.key input.allowNonConformingKey = .ok key) inputs keys :=
  Except.mapM_eq_ok_iff.mp h

/-- The key of an input is that of the input with the key normalized. -/
theorem isKeyOf_normalized {input : SetSecretInput} {normalized key : JsString}
    (h : validateSecretKey input.key input.allowNonConformingKey = .ok normalized)
    (hkey : IsKeyOf { input with key := normalized } key) : IsKeyOf input key := by
  obtain ⟨again, hagain, hstored⟩ := hkey
  have hsame : again = normalized := by
    obtain ⟨-, hunits⟩ := units_of_validateSecretKey h
    have htrim : trim normalized = normalized := trim_of_forall fun c hc => by
      have hunit := hunits c hc
      simp only [forbiddenInKey, Bool.or_eq_false_iff] at hunit
      exact hunit.1.1.1
    simp only [validateSecretKey] at hagain
    split at hagain
    · cases hagain
    · split at hagain
      · cases hagain
      · rw [← Except.ok.inj hagain, htrim]
  exact ⟨normalized, h, hsame ▸ hstored⟩

/-- A turn of `bulkSet`. -/
theorem serially_setOne (hrely : ∀ view db, rely view db → Sees view db)
    {projectId environmentId : Uuid} {item : SetSecretInput × JsString}
    (hkey : validateSecretKey item.1.key item.1.allowNonConformingKey = .ok item.2)
    (h : Progress platform.aead db₀ vault writes db) :
    Serially store rely (setOne platform draws userId projectId environmentId n item :
      TransactionM wrapper _) held db fun metadata _ db' =>
        Progress platform.aead db₀ vault (writes ++ [(metadata, toWellFormed item.1.value)]) db' ∧
          Stores projectId environmentId item.1 (metadata, toWellFormed item.1.value) := by
  refine serially_bind (serially_attempt fun key hstored => ?_)
  refine serially_bind ((serially_lookup hrely _).mono fun found held₁ db₁ h₁ => ?_)
  obtain ⟨-, rfl, hfound⟩ := h₁
  cases found with
  | none =>
    refine (serially_nextCreation hrely h).mono fun metadata _ db' h' => ⟨h'.2.1, ?_⟩
    obtain ⟨hproject, henvironment, hkeyOf, hvalue⟩ := h'.2.2
    exact ⟨hproject, henvironment, isKeyOf_normalized hkey hkeyOf, hvalue⟩
  | some row =>
    obtain ⟨horg, -, hmem, hplace⟩ := hfound row rfl
    simp only [Bool.and_eq_true, decide_eq_true_eq] at hplace
    obtain ⟨⟨⟨hproject, henvironment⟩, hrowKey⟩, -⟩ := hplace
    refine (serially_nextVersion hrely h horg (known_of_mem hmem)).mono fun metadata _ db' h' => ?_
    obtain ⟨-, hprogress, -, hproject', henvironment', hkey'⟩ := h'
    refine ⟨hprogress, hproject'.trans hproject, henvironment'.trans henvironment, ?_, rfl⟩
    rw [hkey', hrowKey]
    exact ⟨item.2, hkey, hstored⟩

theorem serially_bulkSet (hrely : ∀ view db, rely view db → Sees view db)
    {projectId environmentId : Uuid} {inputs : List SetSecretInput}
    (h : Implements platform.aead db vault) :
    Serially store rely (bulkSet platform draws userId projectId environmentId inputs :
      TransactionM wrapper _) held db fun metadatas _ db' =>
        Makes platform.aead db vault (.bulkSet projectId environmentId inputs) (.secrets metadatas)
          db' := by
  refine serially_ite (fun _ => serially_fail) fun _ =>
    serially_bind (serially_attempt fun keys hkeys => ?_)
  refine serially_ite (fun _ => serially_fail) fun _ => serially_scope fun scope held₁ _ => ?_
  have hkeys := normalizedKeys_ok hkeys
  have hitems : ∀ item ∈ inputs.zip keys,
      validateSecretKey item.1.key item.1.allowNonConformingKey = .ok item.2 :=
    fun item hitem => List.forall₂_zip hkeys hitem
  refine (serially_forEach (I := fun before metadatas _ db' => ∃ writes,
    metadatas = writes.map Prod.fst ∧
      List.Forall₂ (Stores projectId environmentId) (before.map Prod.fst) writes ∧
        Progress platform.aead db vault writes db')
    (fun n before item after metadatas held' db' hall hI => ?_) ⟨[], rfl, .nil, .start h⟩).mono
      fun metadatas _ db' hI => ?_
  · obtain ⟨writes, rfl, hstores, hprogress⟩ := hI
    refine (serially_setOne hrely (hitems item (by simp [hall])) hprogress).mono
      fun metadata _ db'' h' => ⟨_, ?_, ?_, h'.1⟩
    · rw [List.map_append, List.map_singleton]
    · rw [List.map_append, List.map_singleton]
      exact List.rel_append hstores (.cons h'.2 .nil)
  · obtain ⟨writes, rfl, hstores, -, vault', himplements, happends⟩ := hI
    rw [List.map_fst_zip hkeys.length_eq.le] at hstores
    exact ⟨vault', himplements, writes, rfl, hstores, happends⟩

/-- The rows that an import or a promotion locks are there at the commit too. -/
theorem mem_of_locked {view : Db wrapper} {row : Secret} (hmem : row ∈ view.secrets)
    (hpart : store.part (.secret row.id) db = store.part (.secret row.id) view) :
    row ∈ db.secrets := by
  obtain ⟨hsecrets, -, -⟩ := Contents.secret.inj hpart
  have hrow : row ∈ db.secretRows row.id := by
    rw [hsecrets]
    exact List.mem_filter.mpr ⟨hmem, decide_eq_true rfl⟩
  exact (List.mem_filter.mp hrow).1

theorem mem_activeSecrets {view : Db wrapper} {projectId environmentId : Uuid} {row : Secret} :
    row ∈ activeSecrets platform view projectId environmentId ↔ row ∈ view.secrets ∧
      row.projectId = projectId ∧ row.environmentId = environmentId ∧ row.deletedAt = none := by
  rw [activeSecrets, mem_orderBy, List.mem_filter, Bool.and_eq_true, Bool.and_eq_true,
    decide_eq_true_eq, decide_eq_true_eq, Option.isNone_iff_eq_none, and_assoc]

theorem serially_existingRows (hrely : ∀ view db, rely view db → Sees view db)
    {projectId environmentId : Uuid} {keys : List JsString} :
    Serially store rely (existingRows platform projectId environmentId keys :
      TransactionM wrapper _) held db fun existing held' db' => (∀ l ∈ held, l ∈ held') ∧ db' = db ∧
        ∀ row ∈ existing, row.orgId = db.orgId ∧ row.secret ∈ db.secrets ∧
          row.secret.projectId = projectId ∧ row.secret.environmentId = environmentId := by
  refine serially_selectForUpdate fun view hview hparts =>
    ⟨fun l hl => List.mem_append_left _ hl, rfl, fun row hrow => ?_⟩
  obtain ⟨secret, hsecret, rfl⟩ := List.mem_map.mp hrow
  obtain ⟨hmem, hproject, henvironment, -⟩ := mem_activeSecrets.mp (List.mem_filter.mp hsecret).1
  exact ⟨(hrely _ _ hview).2, mem_of_locked hmem (hparts _ (List.mem_append_right _
    (List.mem_map.mpr ⟨secret, hsecret, rfl⟩))), hproject, henvironment⟩

/-- What an import has written after some of its inputs. -/
def Imported (aead : Aead) (db : Db wrapper) (vault : Vault) (projectId environmentId : Uuid)
    (before : List (SetSecretInput × JsString)) (outcomes : List ImportOutcome)
    (db' : Db wrapper) : Prop :=
  ∃ writes chosen, outcomes.filterMap ImportOutcome.secret = writes.map Prod.fst ∧
    chosen.Sublist (before.map Prod.fst) ∧
      List.Forall₂ (Stores projectId environmentId) chosen writes ∧
        Progress aead db vault writes db'

theorem Imported.skip {projectId environmentId : Uuid}
    {before : List (SetSecretInput × JsString)} {outcomes : List ImportOutcome}
    {db' : Db wrapper} (h : Imported aead db vault projectId environmentId before outcomes db')
    (item : SetSecretInput × JsString) :
    Imported aead db vault projectId environmentId (before ++ [item]) (outcomes ++ [.skipped])
      db' := by
  obtain ⟨writes, chosen, houtcomes, hchosen, hrest⟩ := h
  refine ⟨writes, chosen, ?_, ?_, hrest⟩
  · rw [List.filterMap_append, houtcomes]
    exact List.append_nil _
  · rw [List.map_append]
    exact hchosen.trans (List.sublist_append_left _ _)

/-- A turn of `importBatch`. -/
theorem serially_importOne (hrely : ∀ view db, rely view db → Sees view db)
    {projectId environmentId : Uuid} {strategy : SecretImportStrategy} {selected : List JsString}
    {format : SecretImportFormat} {existing : List SecretRow}
    {before : List (SetSecretInput × JsString)} {outcomes : List ImportOutcome}
    {item : SetSecretInput × JsString}
    (hkey : validateSecretKey item.1.key item.1.allowNonConformingKey = .ok item.2)
    (hkeys : ∀ row ∈ db₀.secrets, IsKey row.key)
    (hexisting : ∀ row ∈ existing, row.orgId = db₀.orgId ∧ row.secret ∈ db₀.secrets ∧
      row.secret.projectId = projectId ∧ row.secret.environmentId = environmentId)
    (h : Imported platform.aead db₀ vault projectId environmentId before outcomes db) :
    Serially store rely (importOne platform draws userId projectId environmentId strategy selected
      format existing n item : TransactionM wrapper _) held db fun outcome _ db' =>
        Imported platform.aead db₀ vault projectId environmentId (before ++ [item])
          (outcomes ++ [outcome]) db' := by
  unfold importOne
  dsimp only
  refine serially_ite (fun _ => serially_ok (h.skip item)) fun _ => ?_
  obtain ⟨writes, chosen, houtcomes, hchosen, hstores, hprogress⟩ := h
  have hnext : ∀ (outcome : ImportOutcome) (metadata : SecretMetadata) (db' : Db wrapper),
      outcome.secret = some metadata →
      Progress platform.aead db₀ vault (writes ++ [(metadata, toWellFormed item.1.value)]) db' →
      Stores projectId environmentId item.1 (metadata, toWellFormed item.1.value) →
      Imported platform.aead db₀ vault projectId environmentId (before ++ [item])
        (outcomes ++ [outcome]) db' := by
    intro outcome metadata db' houtcome hprogress' hstore
    refine ⟨_, chosen ++ [item.1], ?_, ?_, List.rel_append hstores (.cons hstore .nil), hprogress'⟩
    · rw [List.filterMap_append, houtcomes, List.map_append, List.filterMap_cons_some houtcome]
      rfl
    · rw [List.map_append]
      exact hchosen.append (List.Sublist.refl _)
  cases hfound : existing.find? fun row => row.secret.key = item.2 with
  | none =>
    refine serially_bind ((serially_nextCreation hrely hprogress).mono fun metadata _ db' h' =>
      serially_ok (hnext _ metadata _ rfl h'.2.1 ?_))
    obtain ⟨hproject, henvironment, hkeyOf, hvalue⟩ := h'.2.2
    exact ⟨hproject, henvironment, isKeyOf_normalized hkey hkeyOf, hvalue⟩
  | some row =>
    have hrowKey := List.find?_some hfound
    obtain ⟨horg, hmem, hproject, henvironment⟩ := hexisting row (List.mem_of_find?_eq_some hfound)
    have hgrows := hprogress.1
    refine serially_bind ((serially_nextVersion hrely hprogress (horg.trans hgrows.orgId.symm)
      (hgrows.known _ (known_of_mem hmem))).mono fun metadata _ db' h' =>
        serially_ok (hnext _ metadata _ rfl h'.2.1 ?_))
    obtain ⟨-, -, -, hproject', henvironment', hkey'⟩ := h'
    refine ⟨hproject'.trans hproject, henvironment'.trans henvironment, ?_, rfl⟩
    rw [hkey']
    have hstored := (hkeys _ hmem).stored
    rw [of_decide_eq_true hrowKey] at hstored ⊢
    exact ⟨item.2, hkey, hstored⟩

theorem serially_importBatch (hrely : ∀ view db, rely view db → Sees view db)
    {projectId environmentId : Uuid} {inputs : List SetSecretInput}
    {strategy : SecretImportStrategy} {selectedKeys : List JsString}
    {format : SecretImportFormat} (h : Implements platform.aead db vault) :
    Serially store rely (importBatch platform draws userId projectId environmentId inputs strategy
      selectedKeys format : TransactionM wrapper _) held db fun result _ db' =>
        Makes platform.aead db vault (.importBatch projectId environmentId inputs strategy
          selectedKeys format) (.imported result) db' := by
  refine serially_ite (fun _ => serially_fail) fun _ =>
    serially_bind (serially_attempt fun keys hkeys => ?_)
  refine serially_ite (fun _ => serially_fail) fun _ => serially_ite (fun _ => serially_fail)
    fun _ => serially_scope fun scope held₁ _ => serially_bind (serially_attempt fun storedKeys _ => ?_)
  refine serially_bind ((serially_existingRows hrely).mono fun existing held₂ db₂ h₂ => ?_)
  obtain ⟨-, rfl, hexisting⟩ := h₂
  have hkeys := normalizedKeys_ok hkeys
  have hitems : ∀ item ∈ inputs.zip keys,
      validateSecretKey item.1.key item.1.allowNonConformingKey = .ok item.2 :=
    fun item hitem => List.forall₂_zip hkeys hitem
  refine serially_bind ((serially_forEach (I := fun before outcomes _ db' =>
      Imported platform.aead db₂ vault projectId environmentId before outcomes db')
    (fun n before item after outcomes held' db' hall hI => serially_importOne hrely
      (hitems item (by simp [hall])) h.keys hexisting hI)
    ⟨[], [], rfl, .slnil, .nil, .start h⟩).mono fun outcomes held₃ db₃ hI => ?_)
  obtain ⟨writes, chosen, houtcomes, hchosen, hstores, -, vault', himplements, happends⟩ := hI
  rw [List.map_fst_zip hkeys.length_eq.le] at hchosen
  refine serially_bind ((serially_read (emits_select _)).mono fun orgId held₄ db₄ h₄ => ?_)
  obtain ⟨-, rfl⟩ := h₄
  refine serially_bind ((serially_bare (emits_record (fun _ _ => rfl) _ _)).mono
    fun _ held₅ db₅ h₅ => serially_ok ?_)
  exact ⟨vault', himplements.of_bare h₅.2, _, writes, chosen, rfl, houtcomes, hchosen, hstores,
    happends⟩

/-! ## Promotion -/

theorem serially_authorizePromotion {projectId source target : Uuid}
    {keys : Option (List JsString)} :
    Serially store rely (authorizePromotion userId projectId source target keys :
      TransactionM wrapper _) held db fun _ held' db' => (∀ l ∈ held, l ∈ held') ∧ db' = db ∧
        source ≠ target := by
  refine serially_bind (serially_attempt fun normalized hnormalized => ?_)
  have hne : source ≠ target := by
    rintro rfl
    unfold promotionKeys at hnormalized
    rw [if_pos rfl] at hnormalized
    cases hnormalized
  refine serially_bind ((serially_read (emits_secretEnvironment _ _)).mono
    fun _ held₁ db₁ h₁ => ?_)
  obtain ⟨hheld₁, rfl⟩ := h₁
  refine serially_bind ((serially_read (emits_secretEnvironment _ _)).mono
    fun _ held₂ db₂ h₂ => ?_)
  obtain ⟨hheld₂, rfl⟩ := h₂
  refine serially_bind ((serially_read (emits_authorizeUser _ _ _ _)).mono
    fun _ held₃ db₃ h₃ => ?_)
  obtain ⟨hheld₃, rfl⟩ := h₃
  refine serially_bind ((serially_read (emits_authorizeUser _ _ _ _)).mono
    fun _ held₄ db₄ h₄ => serially_ok ?_)
  obtain ⟨hheld₄, rfl⟩ := h₄
  exact ⟨fun l hl => hheld₄ _ (hheld₃ _ (hheld₂ _ (hheld₁ _ hl))), rfl, hne⟩

/-- A row of a promotion, as the commit has it: the last value of an active secret. -/
structure IsCurrent (aead : Aead) (db : Db wrapper) (vault : Vault) (project environment : Uuid)
    (row : SecretValueRow) : Prop where
  mem : row.secret ∈ db.secrets
  orgId : row.orgId = db.orgId
  projectId : row.secret.projectId = project
  environmentId : row.secret.environmentId = environment
  active : row.secret.deletedAt = none
  version : row.secret.currentVersion = row.recordVersion
  value : ∃ value, (vault row.secret.id).getLast? = some value ∧ HasValue aead db row value

theorem serially_selectPromotion (hrely : ∀ view db, rely view db → Sees view db)
    {projectId source target : Uuid} {keys : Option (List JsString)}
    (h : Implements platform.aead db vault) :
    Serially store rely (selectPromotion platform projectId source target keys true :
      TransactionM wrapper _) held db fun rows _ db' => db' = db ∧
        (∀ row ∈ rows.1, IsCurrent platform.aead db vault projectId source row) ∧
          ∀ row ∈ rows.2, IsCurrent platform.aead db vault projectId target row := by
  refine serially_bind (serially_attempt fun stored _ => ?_)
  refine serially_selectForUpdate fun view hview hparts => ⟨rfl, ?_⟩
  have hcurrent : ∀ environmentId, ∀ row ∈ promotionRows platform view projectId environmentId
      stored, store.part (.secret row.secret.id) db = store.part (.secret row.secret.id) view →
      IsCurrent platform.aead db vault projectId environmentId row := by
    intro environmentId row hrow hpart
    obtain ⟨secret, hsecret, hfound⟩ := List.mem_filterMap.mp (List.mem_filter.mp hrow).1
    obtain ⟨hmem, hproject, henvironment, hactive⟩ := mem_activeSecrets.mp hsecret
    have hrowSecret := (selectValue_secret hfound).1
    rw [hrowSecret] at hpart
    have hmem' := mem_of_locked hmem hpart
    obtain ⟨-, hversions, -⟩ := Contents.secret.inj hpart
    obtain ⟨rfl, horg, hnumber, -, value, hvalue, hhas⟩ :=
      h.hasValue (hrely _ _ hview) hmem' hversions hfound
    refine ⟨hmem', horg, hproject, henvironment, hactive, hnumber.symm, value, ?_, hhas⟩
    rw [List.getLast?_eq_getElem?, ← hvalue, h.current _ hmem']
  have hlocked : ∀ row ∈ promotionRows platform view projectId source stored ++
      promotionRows platform view projectId target stored,
      store.part (.secret row.secret.id) db = store.part (.secret row.secret.id) view :=
    fun row hrow => hparts _ (List.mem_append_right _ (List.mem_map.mpr ⟨row, hrow, rfl⟩))
  exact ⟨fun row hrow => hcurrent _ row hrow (hlocked row (List.mem_append_left _ hrow)),
    fun row hrow => hcurrent _ row hrow (hlocked row (List.mem_append_right _ hrow))⟩

theorem Progress.of_bare {db' : Db wrapper} (h : Progress aead db₀ vault writes db)
    (hbare : bare db' = bare db) : Progress aead db₀ vault writes db' := by
  obtain ⟨hgrows, vault', himplements, happends⟩ := h
  exact ⟨hgrows.trans (grows_of_bare hbare), vault', himplements.of_bare hbare, happends⟩

/-- A turn of `promote`. -/
theorem serially_promoteOne (hrely : ∀ view db, rely view db → Sees view db)
    {projectId source target : Uuid} {targets : List SecretValueRow} {row : SecretValueRow}
    (hkeys : ∀ row ∈ db₀.secrets, IsKey row.key)
    (htargets : ∀ row ∈ targets, IsCurrent platform.aead db₀ vault projectId target row)
    (hrow : IsCurrent platform.aead db₀ vault projectId source row)
    (h : Progress platform.aead db₀ vault writes db) :
    Serially store rely (promoteOne platform draws userId projectId source target targets n row :
      TransactionM wrapper _) held db fun metadata _ db' => ∃ value,
        Progress platform.aead db₀ vault (writes ++ [(metadata, value)]) db' ∧
          Copies db₀ vault projectId source target (metadata, value) := by
  obtain ⟨value, hlast, hhas⟩ := hrow.value
  refine serially_bind ((serially_decrypt hrely (hhas.grows h.1) hrow.version).mono
    fun plaintext held₁ db₁ h₁ => ?_)
  obtain ⟨-, hbare, hdecoded⟩ := h₁
  have hprogress := h.of_bare hbare
  have hwritten : toWellFormed (Utf8.decode plaintext) = value := by
    rw [hdecoded, toWellFormed_of_isWellFormed hhas.wellFormed]
  have hcopies : ∀ metadata : SecretMetadata, metadata.projectId = projectId →
      metadata.environmentId = target → row.secret.key = metadata.key →
      Copies db₀ vault projectId source target (metadata, value) :=
    fun metadata hproject henvironment hkey => ⟨hproject, henvironment, row.secret, hrow.mem,
      hrow.projectId, hrow.environmentId, hrow.active, hkey, hlast⟩
  dsimp only
  cases hfound : targetOf targets row with
  | none =>
    refine (serially_nextCreation hrely hprogress).mono fun metadata _ db' h' => ?_
    obtain ⟨-, hprogress', hproject, henvironment, hkeyOf, -⟩ := h'
    rw [hwritten] at hprogress'
    refine ⟨value, hprogress', hcopies metadata hproject henvironment ?_⟩
    obtain ⟨normalized, hnormalized, hstored⟩ := hkeyOf
    have hkey := hkeys _ hrow.mem
    rw [hkey.2] at hnormalized
    obtain rfl := Except.ok.inj hnormalized
    rw [hkey.stored] at hstored
    exact Except.ok.inj hstored
  | some found =>
    have hsame := List.find?_some hfound
    have htarget := htargets found (List.mem_of_find?_eq_some hfound)
    have hgrows := hprogress.1
    refine (serially_nextVersion hrely hprogress (htarget.orgId.trans hgrows.orgId.symm)
      (hgrows.known _ (known_of_mem htarget.mem))).mono fun metadata _ db' h' => ?_
    obtain ⟨-, hprogress', -, hproject, henvironment, hkey⟩ := h'
    dsimp only at hprogress'
    rw [hwritten] at hprogress'
    exact ⟨value, hprogress', hcopies metadata (hproject.trans htarget.projectId)
      (henvironment.trans htarget.environmentId) (hkey.trans (of_decide_eq_true hsame)).symm⟩

theorem serially_promote (hrely : ∀ view db, rely view db → Sees view db)
    {projectId source target : Uuid} {keys : Option (List JsString)}
    (h : Implements platform.aead db vault) :
    Serially store rely (promote platform draws userId projectId source target keys :
      TransactionM wrapper _) held db fun result _ db' =>
        Makes platform.aead db vault (.promote projectId source target keys) (.promoted result)
          db' := by
  refine serially_bind (serially_authorizePromotion.mono fun normalized held₁ db₁ h₁ => ?_)
  obtain ⟨-, rfl, -⟩ := h₁
  refine serially_bind ((serially_selectPromotion hrely h).mono fun rows held₂ db₂ h₂ => ?_)
  obtain ⟨rfl, hsources, htargets⟩ := h₂
  refine serially_bind ((serially_bare (emits_promotionPreview _ ⟨fun _ _ => rfl, fun _ _ => rfl⟩
    _ _ _ _)).mono fun preview held₃ db₃ h₃ => ?_)
  refine serially_bind ((serially_forEach (I := fun before metadatas _ db' => ∃ writes,
      metadatas = writes.map Prod.fst ∧
        (∀ write ∈ writes, Copies db₂ vault projectId source target write) ∧
          Progress platform.aead db₂ vault writes db')
    (fun n before row after metadatas held' db' hall hI => ?_)
    ⟨[], rfl, fun _ hw => absurd hw List.not_mem_nil, (Progress.start h).of_bare h₃.2⟩).mono
      fun promoted held₄ db₄ hI => ?_)
  · obtain ⟨writes, rfl, hcopies, hprogress⟩ := hI
    refine (serially_promoteOne hrely h.keys htargets (hsources row (by simp [hall]))
      hprogress).mono fun metadata _ db'' h' => ?_
    obtain ⟨value, hprogress', hcopy⟩ := h'
    refine ⟨_, ?_, fun write hwrite => ?_, hprogress'⟩
    · rw [List.map_append, List.map_singleton]
    · rcases List.mem_append.mp hwrite with hwrite | hwrite
      · exact hcopies write hwrite
      · rw [List.mem_singleton.mp hwrite]
        exact hcopy
  · obtain ⟨writes, rfl, hcopies, -, vault', himplements, happends⟩ := hI
    refine serially_bind ((serially_read (emits_select _)).mono fun orgId held₅ db₅ h₅ => ?_)
    obtain ⟨-, rfl⟩ := h₅
    refine serially_bind ((serially_bare (emits_record (fun _ _ => rfl) _ _)).mono
      fun _ held₆ db₆ h₆ => serially_ok ?_)
    exact ⟨vault', himplements.of_bare h₆.2, _, writes, rfl, rfl, hcopies, happends⟩

/-! ## Calls -/

theorem serially_answering {α : Type} {wrap : α → Answer} {p : TransactionM wrapper α}
    {Q : Answer → Db wrapper → Prop}
    (h : Serially store rely p held db fun a _ db' => Q (wrap a) db') :
    Serially store rely (answering wrap p) held db fun answer _ db' => Q answer db' :=
  serially_bind (h.mono fun _ _ _ h => serially_ok h)

theorem emits_delete {id : Uuid} :
    Emits KeepsHistories (delete platform draws userId id : TransactionM wrapper _) :=
  Emits.bind (emits_metadataRow _ _ _) fun _ => Emits.bind (emits_secretEnvironment _ _) fun _ =>
    Emits.bind (emits_authorizeUser _ _ _ _) fun _ =>
      Emits.bind (emits_updateSecrets fun _ _ => rfl) fun _ =>
        Emits.bind (emits_record (fun _ => trivial) _ _) fun _ => emits_ok _

/-- **What a call on secrets makes of the histories**, as its commit sees it. -/
theorem serially_secretCall {config : Config} (hrely : ∀ view db, rely view db → Sees view db)
    (h : Implements config.platform.aead db vault) (call : SecretCall) :
    Serially store rely (call.program config userId draws : TransactionM wrapper Answer) held db
      fun answer _ db' => Makes config.platform.aead db vault call answer db' := by
  have hkeeps : Emits KeepsHistories (call.program config userId draws :
      TransactionM wrapper Answer) → (∀ answer, Effect db vault vault answer call) →
      Serially store rely (call.program config userId draws : TransactionM wrapper Answer) held db
        fun answer _ db' => Makes config.platform.aead db vault call answer db' :=
    fun hemits heffect => (serially_keeps h hemits).mono fun answer _ db' h' =>
      ⟨vault, h', heffect answer⟩
  cases call with
  | rollback => exact serially_answering (serially_rollback hrely h)
  | create => exact serially_answering (serially_createCall hrely h)
  | update => exact serially_answering (serially_update hrely h)
  | bulkSet => exact serially_answering (serially_bulkSet hrely h)
  | importBatch => exact serially_answering (serially_importBatch hrely h)
  | promote => exact serially_answering (serially_promote hrely h)
  | delete => exact hkeeps (emits_answering emits_delete) fun _ => rfl
  | list | get | runtimeConfig | exportConfig | listVersions | compareVersions
  | previewPromotion =>
    exact hkeeps (emits_read readWrites_keepsHistories config userId draws rfl) fun _ => rfl

/-- What an action makes of the histories: those on projects and environments leave them. -/
def ActionEffect (db : Db wrapper) (vault vault' : Vault) (answer : Answer) : Action → Prop
  | .secret call => Effect db vault vault' answer call
  | _ => vault' = vault

theorem serially_call {config : Config} (hrely : ∀ view db, rely view db → Sees view db)
    (h : Implements config.platform.aead db vault) (call : Call) :
    Serially store rely (program config call : TransactionM wrapper Answer) held db
      fun answer _ db' => ∃ vault', Implements config.platform.aead db' vault' ∧
        ActionEffect db vault vault' answer call.action := by
  cases haction : call.action with
  | project action =>
    simp only [program, haction]
    exact (serially_keeps h (emits_projectAction ⟨⟨fun _ _ => trivial, fun _ _ hset => hset,
      fun _ => trivial⟩, fun _ _ => trivial, fun _ => trivial, fun _ => trivial⟩ _ _ _
      fun _ _ => ⟨fun _ => trivial, fun _ => trivial⟩)).mono fun _ _ _ h' => ⟨vault, h', rfl⟩
  | environment action =>
    simp only [program, haction]
    exact (serially_keeps h (emits_environmentAction ⟨fun _ _ => trivial, fun _ _ hset => hset,
      fun _ => trivial⟩ _ _ _ fun _ _ _ _ => trivial)).mono fun _ _ _ h' => ⟨vault, h', rfl⟩
  | secret action =>
    simp only [program, haction]
    exact serially_secretCall hrely h action

end

end Himitsu.Secrets
