import Himitsu.Secrets.ConfigVersion

/-!
# What the reads of the secret service find

* `readPart` — what the reads leave of a database.
* `Opens`, `does_decryptAll` — the entries of an environment, each opened at some statement.
* `does_get`, `does_runtimeConfig`, `does_exportConfig`, `does_compareVersions` — the statements at
  which a call found what it answers.
-/

set_option autoImplicit false

namespace Himitsu.Secrets

open JsString Crypto Database Services Transactions Interleaving Protection

variable {wrapper : KeyWrapper} {platform : Platform}

/-- What is left of a database without the events and the record of decryptions. -/
def readPart (db : Db wrapper) : Db wrapper := { db with auditEvents := [], decryptions := [] }

/-- The writes of a call that reads. -/
def IsNote (w : Write) : Prop :=
  (∃ row, w = .noteDecryption row) ∨ ∃ row, w = .insertAuditEvent row

theorem readWrites_isNote : ReadWrites IsNote where
  decryption row := .inl ⟨row, rfl⟩
  audit row := .inr ⟨row, rfl⟩

theorem readPart_apply {w : Write} (h : IsNote w) (db : Db wrapper) :
    readPart (apply w db) = readPart db := by
  rcases h with ⟨row, rfl⟩ | ⟨row, rfl⟩ <;> rfl

theorem activeEnvironment_readPart (db : Db wrapper) (projectId environmentId : Uuid) :
    activeEnvironment (readPart db) projectId environmentId =
      activeEnvironment db projectId environmentId :=
  rfl

theorem place_of_activeEnvironment {db : Db wrapper} {projectId environmentId : Uuid}
    {row : Database.Environment} (h : activeEnvironment db projectId environmentId = some row) :
    row ∈ db.environments ∧ row.id = environmentId ∧ row.projectId = projectId := by
  have hsome := List.find?_some h
  simp only [Bool.and_eq_true, decide_eq_true_eq] at hsome
  exact ⟨List.mem_of_find?_eq_some h, hsome.1.1.1, hsome.1.1.2⟩

theorem sealedEntries_readPart (db : Db wrapper) (projectId environmentId : Uuid) :
    sealedEntries platform (readPart db) projectId environmentId =
      sealedEntries platform db projectId environmentId :=
  rfl

def openEntry (aead : Aead) (keys : DataKeyStore wrapper) (entry : SealedEntry) :
    Except CryptoError (JsString × JsString) :=
  (Crypto.decrypt aead keys entry.encrypted entry.context).map fun plaintext =>
    (entry.key, Utf8.decode plaintext)

theorem openEntry_ok {aead : Aead} {keys : DataKeyStore wrapper} {entry : SealedEntry}
    {opened : JsString × JsString} :
    openEntry aead keys entry = .ok opened ↔ ∃ plaintext,
      Crypto.decrypt aead keys entry.encrypted entry.context = .ok plaintext ∧
        opened = (entry.key, Utf8.decode plaintext) := by
  unfold openEntry
  cases Crypto.decrypt aead keys entry.encrypted entry.context <;> simp [Except.map, eq_comm]

theorem openEntry_keeps {aead : Aead} {keys keys' : DataKeyStore wrapper} {entry : SealedEntry}
    {opened : JsString × JsString} (h : KeepsValues aead keys keys')
    (hopen : openEntry aead keys entry = .ok opened) : openEntry aead keys' entry = .ok opened := by
  obtain ⟨plaintext, hdecrypt, hopened⟩ := openEntry_ok.mp hopen
  exact openEntry_ok.mpr ⟨plaintext, h _ _ _ hdecrypt, hopened⟩

/-- The entries that a call answers, each opened under the keys of some statement. -/
def Opens (platform : Platform) (stmts : List (DbStatement wrapper)) (sealed : List SealedEntry)
    (entries : List (JsString × JsString)) : Prop :=
  List.Forall₂ (fun entry opened => ∃ x ∈ stmts,
    openEntry platform.aead x.view.keys entry = .ok opened) sealed entries

theorem does_decryptAll {rows : List SecretValueRow} {stmts : List (DbStatement wrapper)}
    {ws : List Write} {entries : List (JsString × JsString)}
    (h : Does (decryptAll platform rows : TransactionM wrapper _) stmts ws entries) :
    Opens platform stmts (rows.map sealedOf) entries := by
  rw [Opens, List.forall₂_map_left_iff]
  refine (does_forEach_answers h).imp ?_
  rintro row opened ⟨m, turn, written, hturn, hsub⟩
  obtain ⟨plaintext, _, _, _, _, hdecrypt, hpure, rfl, rfl⟩ := does_bind.mp hturn
  obtain ⟨rfl, rfl, rfl⟩ := does_ok.mp hpure
  obtain ⟨db, rfl, rfl, hok⟩ := does_decrypt.mp hdecrypt
  refine ⟨_, hsub _ (List.mem_cons_self ..), ?_⟩
  rw [openEntry, sealedOf, hok]
  rfl

/-! ## Calls -/

/-- What a call finds at its first statement, and after it. -/
structure RuntimeFinding (platform : Platform) (projectId environmentId : Uuid)
    (known : KnownVersions) (config : RuntimeSecretConfig)
    (first : DbStatement wrapper) (rest : List (DbStatement wrapper)) : Prop where
  supported : config.configVersion ≤ MAX_SAFE_INTEGER
  version : ∃ row, activeEnvironment first.view projectId environmentId = some row ∧
    row.configVersion = config.configVersion
  known : config.secrets = none → known.contains config.configVersion = true
  secrets : ∀ secrets, config.secrets = some secrets → ∃ y ∈ rest, ∃ entries,
    secrets = Json.fromEntries entries ∧
      Opens platform rest (sealedEntries platform y.view projectId environmentId) entries

theorem does_runtimeConfig {draws : Draws} {userId projectId environmentId : Uuid}
    {known : KnownVersions} {auditActor : Audit.AuditActor} {stmts : List (DbStatement wrapper)}
    {ws : List Write} {config : RuntimeSecretConfig}
    (h : Does (runtimeConfig platform draws userId projectId environmentId known auditActor :
      TransactionM wrapper _) stmts ws config) :
    (∀ w ∈ ws, IsNote w) ∧ ∃ first rest, stmts = first :: rest ∧
      RuntimeFinding platform projectId environmentId known config first rest := by
  unfold runtimeConfig at h
  obtain ⟨scope, _, _, _, _, hscope, h₁, rfl, rfl⟩ := does_bind.mp h
  obtain ⟨found, rfl, rfl, hfound⟩ := does_environment.mp hscope
  obtain ⟨_, checked, _, _, _, hauthorize, h₂, rfl, rfl⟩ := does_bind.mp h₁
  obtain rfl := does_authorizeIn hauthorize
  rw [List.nil_append, List.nil_append, List.singleton_append]
  rcases does_ite.mp h₂ with ⟨-, h₃⟩ | ⟨hsupported, h₃⟩
  · exact absurd h₃ does_fail
  rcases does_ite.mp h₃ with ⟨hknown, h₄⟩ | ⟨-, h₄⟩
  · obtain ⟨rfl, rfl, rfl⟩ := does_ok.mp h₄
    refine ⟨fun w hw => absurd hw List.not_mem_nil, _, _, rfl, ?_⟩
    exact ⟨Nat.le_of_not_lt hsupported, ⟨scope, hfound, rfl⟩, fun _ => hknown, nofun⟩
  obtain ⟨rows, _, _, _, _, hrows, h₅, rfl, rfl⟩ := does_bind.mp h₄
  obtain ⟨db, rfl, rfl, rfl⟩ := does_select.mp hrows
  obtain ⟨entries, opening, decryptions, _, _, hopens, h₆, rfl, rfl⟩ := does_bind.mp h₅
  obtain ⟨orgId, _, _, _, _, horg, h₇, rfl, rfl⟩ := does_bind.mp h₆
  obtain ⟨_, rfl, rfl, -⟩ := does_select.mp horg
  obtain ⟨_, _, _, _, _, hrecord, hpure, rfl, rfl⟩ := does_bind.mp h₇
  obtain ⟨rfl, rfl, rfl⟩ := does_ok.mp hpure
  obtain ⟨metadata, -, rfl⟩ := does_record hrecord
  refine ⟨fun w hw => ?_, _, _, rfl, Nat.le_of_not_lt hsupported, ⟨scope, hfound, rfl⟩, nofun,
    fun secrets hsecrets => ?_⟩
  · simp only [List.nil_append, List.append_nil, List.mem_append, List.mem_singleton] at hw
    rcases hw with hw | rfl
    · exact (emits_decryptAll platform readWrites_isNote _).does hopens w hw
    · exact .inr ⟨_, rfl⟩
  · refine ⟨⟨db, [], []⟩, by simp, entries, (Option.some.inj hsecrets).symm, ?_⟩
    refine (does_decryptAll hopens).imp ?_
    rintro entry opened ⟨x, hx, hopen⟩
    exact ⟨x, by simp [hx], hopen⟩

section

variable {draws : Draws} {userId : Uuid} {stmts : List (DbStatement wrapper)} {ws : List Write}

theorem does_get {secretId : Uuid} {answer : SecretWithValue}
    (h : Does (get platform draws userId secretId : TransactionM wrapper _) stmts ws answer) :
    ∃ x ∈ stmts, ∃ y ∈ stmts, ∃ secret row plaintext,
      x.view.secrets.find? (isActiveId secretId) = some secret ∧
        selectValue platform x.view secret secret.currentVersion = some row ∧
          Crypto.decrypt platform.aead y.view.keys row.encrypted
            (contextOf row.orgId row.secret row.secret.currentVersion) = .ok plaintext ∧
          answer = ⟨metadataFromRow row.toSecretRow, Utf8.decode plaintext⟩ := by
  unfold get at h
  obtain ⟨row, _, _, _, _, hrow, h₁, rfl, rfl⟩ := does_bind.mp h
  obtain ⟨db, secret, rfl, rfl, hfind, hvalue⟩ := does_valueRow hrow
  obtain ⟨scope, _, _, _, _, -, h₂, rfl, rfl⟩ := does_bind.mp h₁
  obtain ⟨_, _, _, _, _, -, h₃, rfl, rfl⟩ := does_bind.mp h₂
  obtain ⟨plaintext, _, _, _, _, hdecrypt, h₄, rfl, rfl⟩ := does_bind.mp h₃
  obtain ⟨opened, rfl, rfl, hok⟩ := does_decrypt.mp hdecrypt
  obtain ⟨_, _, _, _, _, -, hpure, rfl, rfl⟩ := does_bind.mp h₄
  obtain ⟨rfl, rfl, rfl⟩ := does_ok.mp hpure
  refine ⟨⟨db, [], []⟩, by simp,
    ⟨opened, [], [.noteDecryption ⟨row.secret.id, row.secret.environmentId⟩]⟩, by simp, secret, row,
    plaintext, hfind, hvalue, hok, rfl⟩

theorem does_exportConfig {projectId environmentId : Uuid} {format : SecretExportFormat}
    {options : ExportOptions} {auditActor : Audit.AuditActor} {result : SecretExportResult}
    (h : Does (exportConfig platform draws userId projectId environmentId format options
      auditActor : TransactionM wrapper _) stmts ws result) :
    ∃ y ∈ stmts, ∃ entries,
      Opens platform stmts (sealedEntries platform y.view projectId environmentId) entries ∧
        serializeSecretExport platform.localeCompare (recordOf entries) format options =
          .ok result.content := by
  unfold exportConfig at h
  obtain ⟨scope, _, _, _, _, -, h₁, rfl, rfl⟩ := does_bind.mp h
  obtain ⟨_, _, _, _, _, -, h₂, rfl, rfl⟩ := does_bind.mp h₁
  obtain ⟨rows, _, _, _, _, hrows, h₃, rfl, rfl⟩ := does_bind.mp h₂
  obtain ⟨db, rfl, rfl, rfl⟩ := does_select.mp hrows
  obtain ⟨entries, _, _, _, _, hopens, h₄, rfl, rfl⟩ := does_bind.mp h₃
  obtain ⟨content, _, _, _, _, hcontent, h₅, rfl, rfl⟩ := does_bind.mp h₄
  obtain ⟨rfl, rfl, hok⟩ := does_attempt.mp hcontent
  obtain ⟨orgId, _, _, _, _, -, h₆, rfl, rfl⟩ := does_bind.mp h₅
  obtain ⟨_, _, _, _, _, -, hpure, rfl, rfl⟩ := does_bind.mp h₆
  obtain ⟨rfl, rfl, rfl⟩ := does_ok.mp hpure
  refine ⟨⟨db, [], []⟩, by simp, entries, (does_decryptAll hopens).imp ?_, hok⟩
  rintro entry opened ⟨x, hx, hopen⟩
  exact ⟨x, by simp [hx], hopen⟩

/-- A version that a statement found, with its plaintext as another statement decrypted it. -/
def OpensVersion (platform : Platform) (view : Db wrapper) (secret : Secret) (number : Nat)
    (keys : DataKeyStore wrapper) (plaintext : Bytes) : Prop :=
  ∃ row, selectValue platform view secret number = some row ∧
    Crypto.decrypt platform.aead keys row.encrypted
      (contextOf row.orgId row.secret row.recordVersion) = .ok plaintext

theorem does_compareVersions {secretId : Uuid} {fromVersion toVersion : Nat} {reveal : Bool}
    {comparison : SecretVersionComparison}
    (h : Does (compareVersions platform draws userId secretId fromVersion toVersion reveal :
      TransactionM wrapper _) stmts ws comparison) :
    ∃ x ∈ stmts, ∃ y ∈ stmts, ∃ z ∈ stmts, ∃ secret older newer,
      x.view.secrets.find? (isActiveId secretId) = some secret ∧
        OpensVersion platform x.view secret fromVersion y.view.keys older ∧
          OpensVersion platform x.view secret toVersion z.view.keys newer ∧
            comparison.changed = decide (older ≠ newer) ∧ comparison.values =
              if reveal then some (Utf8.decode older, Utf8.decode newer) else none := by
  unfold compareVersions at h
  rcases does_ite.mp h with ⟨-, h₀⟩ | ⟨-, h₀⟩
  · exact absurd h₀ does_fail
  obtain ⟨found, _, _, _, _, -, h₁, rfl, rfl⟩ := does_bind.mp h₀
  obtain ⟨scope, _, _, _, _, -, h₂, rfl, rfl⟩ := does_bind.mp h₁
  obtain ⟨_, _, _, _, _, -, h₃, rfl, rfl⟩ := does_bind.mp h₂
  rcases does_ite.mp h₃ with ⟨-, h₄⟩ | ⟨-, h₄⟩
  · exact absurd h₄ does_fail
  obtain ⟨rows, _, _, _, _, hrows, h₅, rfl, rfl⟩ := does_bind.mp h₄
  obtain ⟨db, rfl, rfl, rfl⟩ := does_select.mp hrows
  split at h₅
  · rename_i older newer heq
    obtain ⟨holder, hnewer⟩ := Prod.mk.inj heq
    obtain ⟨secret, hfind, holder⟩ := Option.bind_eq_some_iff.mp holder
    obtain ⟨secret', hfind', hnewer⟩ := Option.bind_eq_some_iff.mp hnewer
    obtain rfl := Option.some.inj (hfind.symm.trans hfind')
    obtain ⟨fromPlaintext, _, _, _, _, hfrom, h₆, rfl, rfl⟩ := does_bind.mp h₅
    obtain ⟨opened, rfl, rfl, hok⟩ := does_decrypt.mp hfrom
    obtain ⟨toPlaintext, _, _, _, _, hto, h₇, rfl, rfl⟩ := does_bind.mp h₆
    obtain ⟨_, _, _, _, _, -, hpure, rfl, rfl⟩ := does_bind.mp h₇
    obtain ⟨rfl, rfl, rfl⟩ := does_ok.mp hpure
    refine ⟨⟨db, [], []⟩, by simp, ⟨opened, [],
      [.noteDecryption ⟨older.secret.id, older.secret.environmentId⟩]⟩, by simp, ?_⟩
    unfold comparedPlaintext at hto
    rcases does_ite.mp hto with ⟨hsame, hto⟩ | ⟨-, hto⟩
    · obtain ⟨rfl, rfl, rfl⟩ := does_ok.mp hto
      rw [← of_decide_eq_true hsame] at hnewer ⊢
      exact ⟨⟨opened, [], [.noteDecryption ⟨older.secret.id, older.secret.environmentId⟩]⟩, by simp,
        secret, _, _, hfind, ⟨older, holder, hok⟩, ⟨older, holder, hok⟩, rfl, rfl⟩
    · obtain ⟨opened', rfl, rfl, hok'⟩ := does_decrypt.mp hto
      exact ⟨⟨opened', [], [.noteDecryption ⟨newer.secret.id, newer.secret.environmentId⟩]⟩,
        by simp, secret, _, _, hfind, ⟨older, holder, hok⟩, ⟨newer, hnewer, hok'⟩, rfl, rfl⟩
  · exact absurd h₅ does_fail

end

end Himitsu.Secrets
