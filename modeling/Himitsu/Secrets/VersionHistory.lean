import Himitsu.Secrets.Reads
import Himitsu.Secrets.ValueWrites

/-!
# The version history of secrets

For every run of the calls of an organization that begins without secrets.

* `implements_unique` — the tables determine the histories.
* `Recorded` — the tables of a committed database: the versions of each secret are those from one to
  the current one, and each decrypts under the context of its readers to the value that was written.
* `Answers` — what a call that reads answers, by the histories at some time from when it began to
  when it committed.

Principal result: `version_history` — the committed databases of every run record histories which
each commit changes by its effect alone, and which every reader reads.
-/

set_option autoImplicit false

namespace Himitsu.Secrets

open JsString Crypto Database Services Transactions Interleaving Protection RelatedLists

variable {wrapper : KeyWrapper} {aead : Aead} {db : Db wrapper} {vault : Vault}

/-! ## The tables and the histories -/

theorem eq_of_isSealed {row : Secret} {version : SecretVersion} {value value' : JsString}
    (h : IsSealed aead db row version value) (h' : IsSealed aead db row version value') :
    value = value' := by
  have hplaintext := decrypt_of_sealed h.2
  rw [decrypt_of_sealed h'.2] at hplaintext
  rw [← Utf8.decode_encode h.1, ← Utf8.decode_encode h'.1, Except.ok.inj hplaintext]

/-- **The tables determine the histories.** -/
theorem implements_unique {vault' : Vault} (h : Implements aead db vault)
    (h' : Implements aead db vault') : vault = vault' := by
  funext id
  by_cases hid : ∃ row ∈ db.secrets, row.id = id
  · obtain ⟨row, hrow, rfl⟩ := hid
    have hvalues := h.values row hrow
    have hvalues' := h'.values row hrow
    generalize db.versionsOf row.id = versions at hvalues hvalues'
    generalize vault row.id = values at hvalues ⊢
    generalize vault' row.id = values' at hvalues' ⊢
    induction hvalues generalizing values' with
    | nil =>
      cases hvalues'
      rfl
    | cons hvalue _ ih =>
      cases hvalues' with
      | cons hvalue' hrest => rw [eq_of_isSealed hvalue hvalue', ih _ hrest]
  · have habsent : ∀ row ∈ db.secrets, row.id ≠ id := fun row hrow heq => hid ⟨row, hrow, heq⟩
    rw [h.absent id habsent, h'.absent id habsent]

/-- A committed database and the histories of its secrets. -/
structure Recorded (aead : Aead) (db : Db wrapper) (vault : Vault) : Prop where
  current : ∀ row ∈ db.secrets, 1 ≤ row.currentVersion ∧
    row.currentVersion = (vault row.id).length
  numbers : ∀ row ∈ db.secrets,
    (db.versionsOf row.id).map (fun version => version.version) = List.range' 1 row.currentVersion
  owned : ∀ version ∈ db.secretVersions, ∃ row ∈ db.secrets, row.id = version.secretId
  absent : ∀ id, (∀ row ∈ db.secrets, row.id ≠ id) → vault id = []
  values : ∀ row ∈ db.secrets, List.Forall₂ (fun version value =>
    isWellFormed value = true ∧ Crypto.decrypt aead db.keys (encryptedOf version)
      (contextOf db.orgId row version.version) = .ok (Utf8.encode value))
    (db.versionsOf row.id) (vault row.id)

theorem Implements.positive (h : Implements aead db vault) (hversioned : Versioned db) {row : Secret}
    (hrow : row ∈ db.secrets) : 1 ≤ row.currentVersion := by
  obtain ⟨version, hversion, hid, hnumber⟩ := hversioned row hrow
  have hmem : version.version ∈ (db.versionsOf row.id).map fun version => version.version :=
    List.mem_map_of_mem (List.mem_filter.mpr ⟨hversion, decide_eq_true hid⟩)
  rw [h.numbers row hrow, List.mem_range'_1] at hmem
  omega

theorem Implements.recorded (h : Implements aead db vault) (hversioned : Versioned db) :
    Recorded aead db vault where
  current row hrow := ⟨h.positive hversioned hrow, h.current row hrow⟩
  numbers row hrow := by rw [h.numbers row hrow, h.current row hrow]
  owned := h.owned
  absent := h.absent
  values row hrow := (h.values row hrow).imp fun _ _ hsealed =>
    ⟨hsealed.1, decrypt_of_sealed hsealed.2⟩

/-! ## Reading a history -/

/-- A value that is found with one store of data keys and decrypted with another one. -/
theorem decode_of_sealed {keys other last : DataKeyStore wrapper}
    {encrypted : EncryptedSecretValue} {context : SecretEncryptionContext} {value : JsString}
    {plaintext : Bytes} (hvalue : isWellFormed value = true)
    (hsealed : Sealed aead keys encrypted context (Utf8.encode value))
    (hkeys : keys.Extends last) (hother : other.Extends last)
    (h : Crypto.decrypt aead other encrypted context = .ok plaintext) :
    Utf8.decode plaintext = value := by
  have hlast := KeepsValues.of_extends hother _ _ _ h
  rw [decrypt_of_sealed (Sealed.mono hkeys hsealed)] at hlast
  rw [← Except.ok.inj hlast, Utf8.decode_encode hvalue]

/-- The entries of an environment with the last values of its active secrets. -/
def Shows (platform : Platform) (db : Db wrapper) (vault : Vault) (projectId environmentId : Uuid)
    (entries : List (JsString × JsString)) : Prop :=
  List.Forall₂ (fun row entry => entry.1 = row.key ∧ (vault row.id).getLast? = some entry.2)
    (activeSecrets platform db projectId environmentId) entries

theorem Implements.lastValue (platform : Platform) (h : Implements aead db vault)
    (hversioned : Versioned db) {row : Secret} (hrow : row ∈ db.secrets) :
    ∃ found value, selectValue platform db row row.currentVersion = some found ∧
      found.secret = row ∧ found.recordVersion = row.currentVersion ∧
        (vault row.id).getLast? = some value ∧ HasValue aead db found value := by
  obtain ⟨version, hversion, hid, hnumber⟩ := hversioned row hrow
  have hsome : (selectValue platform db row row.currentVersion).isSome = true := by
    rw [selectValue, Option.isSome_map, List.find?_isSome]
    exact ⟨version, hversion, by simp [hid, hnumber]⟩
  obtain ⟨found, hfound⟩ := Option.isSome_iff_exists.mp hsome
  obtain ⟨hsecret, -, hrecord, -, value, hvalue, hhas⟩ :=
    h.hasValue (Sees.refl db) hrow rfl hfound
  refine ⟨found, value, hfound, hsecret, hrecord, ?_, hhas⟩
  rw [List.getLast?_eq_getElem?, ← hvalue, h.current row hrow]

/-- The sealed entries of an environment are those of its active secrets. -/
theorem forall₂_sealedEntries {platform : Platform} (h : Implements platform.aead db vault)
    (hversioned : Versioned db) (projectId environmentId : Uuid) :
    List.Forall₂ (fun row entry => entry.key = row.key ∧ ∃ value,
      (vault row.id).getLast? = some value ∧ isWellFormed value = true ∧
        Sealed platform.aead db.keys entry.encrypted entry.context (Utf8.encode value))
      (activeSecrets platform db projectId environmentId)
      (sealedEntries platform db projectId environmentId) := by
  rw [sealedEntries, activeValues]
  have hrows : ∀ row ∈ activeSecrets platform db projectId environmentId, row ∈ db.secrets :=
    fun row hrow => (mem_activeSecrets.mp hrow).1
  generalize activeSecrets platform db projectId environmentId = rows at hrows
  induction rows with
  | nil => exact .nil
  | cons row rows ih =>
    obtain ⟨found, value, hfound, hsecret, hrecord, hlast, hhas⟩ :=
      h.lastValue platform hversioned (hrows row (List.mem_cons_self ..))
    have hcons : (row :: rows).filterMap (fun row => selectValue platform db row row.currentVersion) =
        found :: rows.filterMap fun row => selectValue platform db row row.currentVersion :=
      List.filterMap_cons_some hfound
    rw [hcons, List.map_cons]
    refine .cons ⟨congrArg Secret.key hsecret, value, hlast, hhas.wellFormed, ?_⟩
      (ih fun other hother => hrows other (List.mem_cons_of_mem _ hother))
    have hsealed := hhas.isSealed
    rw [hrecord, ← hsecret] at hsealed
    exact hsealed

theorem shows_of_opens {platform : Platform} (h : Implements platform.aead db vault)
    (hversioned : Versioned db) {projectId environmentId : Uuid} {last : DataKeyStore wrapper}
    {stmts : List (DbStatement wrapper)} {entries : List (JsString × JsString)}
    (hkeys : db.keys.Extends last) (hstmts : ∀ x ∈ stmts, x.view.keys.Extends last)
    (hopens : Opens platform stmts (sealedEntries platform db projectId environmentId) entries) :
    Shows platform db vault projectId environmentId entries := by
  have hsealed := forall₂_sealedEntries h hversioned projectId environmentId
  rw [Opens] at hopens
  rw [Shows]
  generalize sealedEntries platform db projectId environmentId = sealed at hsealed hopens
  generalize activeSecrets platform db projectId environmentId = rows at hsealed ⊢
  induction hsealed generalizing entries with
  | nil =>
    cases hopens
    exact .nil
  | cons hrow _ ih =>
    cases hopens with
    | cons hopen hrest =>
      refine .cons ?_ (ih hrest)
      obtain ⟨hkey, value, hlast, hvalue, hsealed⟩ := hrow
      obtain ⟨x, hx, hopened⟩ := hopen
      obtain ⟨plaintext, hdecrypt, rfl⟩ := openEntry_ok.mp hopened
      exact ⟨hkey, by rw [hlast, decode_of_sealed hvalue hsealed hkeys (hstmts x hx) hdecrypt]⟩

/-! ## Runs -/

/-- What a commit leaves of the database before it. -/
structure HistoryRely (db db' : Db wrapper) : Prop where
  keys : db.keys.Extends db'.keys
  orgId : db'.orgId = db.orgId
  versions : db.secretVersions <+: db'.secretVersions

def historyContract (wrapper : KeyWrapper) : Contract (Db wrapper) where
  inv := Versioned
  rely := HistoryRely
  refl _ := ⟨.refl _, rfl, List.prefix_refl _⟩
  trans h h' := ⟨h.keys.trans h'.keys, h'.orgId.trans h.orgId, h.versions.trans h'.versions⟩

/-- A view of a transaction has no more data keys than its commit: a new one is taken by it. -/
theorem sees_of_moment {base m : Db wrapper} {ws : List Write} (h : HistoryRely m base)
    (hparts : ∀ l ∈ store.touchesAll ws base,
      store.part l (store.applyAll ws base) = store.part l (store.applyAll ws m)) :
    Sees (store.applyAll ws m) (store.applyAll ws base) := by
  refine ⟨?_, by rw [orgId_applyAll, orgId_applyAll, h.orgId]⟩
  by_cases hactivate : ∃ dataKey nonce, Write.activateKey dataKey nonce ∈ ws
  · obtain ⟨dataKey, nonce, hmem⟩ := hactivate
    have htouched : Lock.keys ∈ store.touchesAll ws base :=
      mem_touchesAll (fun _ => List.mem_singleton_self _) hmem base
    obtain ⟨-, hkeys⟩ := Contents.keys.inj (hparts .keys htouched)
    rw [hkeys]
    exact .refl _
  · have hkeys : ∀ db : Db wrapper, (store.applyAll ws db).keys = db.keys := by
      intro db
      let inv (db' : Db wrapper) : Prop := db'.keys = db.keys
      have hstart : inv db := rfl
      refine applyAll_keeps (P := fun w => ∀ dataKey nonce, w ≠ .activateKey dataKey nonce)
        (fun w s hw (hs : inv s) => ?_) (fun w hw => ?_) hstart
      · cases w with
        | activateKey dataKey nonce => exact absurd rfl (hw dataKey nonce)
        | _ => exact hs
      · rintro dataKey nonce rfl
        exact hactivate ⟨dataKey, nonce, hw⟩
    rw [hkeys, hkeys]
    exact h.keys

section

variable {config : Config} {base : Db wrapper}
  {s : System (Db wrapper) Lock Write ServiceError Call Answer}

theorem keeps_historyContract {e : Commit wrapper} {stmts : List (DbStatement wrapper)}
    (h : Ran store (program config) e stmts) (hinv : Versioned e.world.base) :
    Versioned (e.world.view store) ∧ HistoryRely e.world.base (e.world.view store) := by
  refine ⟨versioned_applyAll (numbered_of_call h.does) hinv, extends_applyAll _ _,
    orgId_applyAll _ _, ?_⟩
  rw [World.view, secretVersions_applyAll]
  exact List.prefix_append _ _

theorem history_of_commits (hreach : Reachable store (program config) base s)
    (hempty : base.secrets = []) (n : Nat) : Versioned (databaseAfter store base s.log n) ∧
      ∀ m, m ≤ n → HistoryRely (databaseAfter store base s.log m)
        (databaseAfter store base s.log n) := by
  refine contract_of_commits (historyContract wrapper) hreach (fun row hrow => ?_)
    (fun _ _ => keeps_historyContract) n
  rw [hempty] at hrow
  cases hrow

/-- **A commit changes the histories by its effect.** -/
theorem implements_of_commit (hreach : Reachable store (program config) base s)
    (hempty : base.secrets = []) {i : Nat} {e : Commit wrapper} (he : s.log[i]? = some e)
    {vault : Vault}
    (h : Implements config.platform.aead (databaseAfter store base s.log i) vault) :
    ∃ vault', Implements config.platform.aead (databaseAfter store base s.log (i + 1)) vault' ∧
      ActionEffect (databaseAfter store base s.log i) vault vault' e.answer e.call.action := by
  obtain ⟨hbefore, hafter⟩ := databaseAfter_of_commit hreach he
  obtain ⟨hlt, hget⟩ := List.getElem?_eq_some_iff.mp he
  have hsplit : s.log = s.log.take i ++ e :: s.log.drop (i + 1) := by
    rw [← hget, ← List.drop_eq_getElem_cons hlt, List.take_append_drop]
  obtain ⟨times, htimed, hlast⟩ := timed_of_reachable hreach hsplit
  rw [List.length_take_of_le hlt.le] at hlast
  obtain ⟨stmts, hran⟩ := (serial_of_reachable hreach).log e (List.mem_of_getElem? he)
  rw [hbefore] at h ⊢
  rw [hafter]
  obtain ⟨held, hresult⟩ := serially_of_ran hran (fun ws m hm hparts => sees_of_moment (by
    rw [htimed.found] at hm
    obtain ⟨n, hn, rfl⟩ := List.mem_map.mp hm
    rw [← hbefore]
    exact (history_of_commits hreach hempty i).2 n (hlast n hn)) hparts)
    (serially_call (fun _ _ h => h) h e.call)
  exact hresult

theorem exists_implements (hreach : Reachable store (program config) base s)
    (hempty : base.secrets = [] ∧ base.secretVersions = []) (n : Nat) :
    ∃ vault, Implements config.platform.aead (databaseAfter store base s.log n) vault := by
  induction n with
  | zero =>
    refine ⟨fun _ => [], ?_⟩
    change Implements _ base _
    obtain ⟨hsecrets, hversions⟩ := hempty
    have hnone : ∀ row ∈ base.secrets, False := by
      rw [hsecrets]
      exact fun _ => List.not_mem_nil
    refine ⟨?_, ?_, fun row hrow => (hnone row hrow).elim, fun version hversion => ?_,
      fun row hrow => (hnone row hrow).elim, fun row hrow => (hnone row hrow).elim,
      fun row hrow => (hnone row hrow).elim, fun _ _ => rfl⟩
    · rw [hsecrets]
      exact List.nodup_nil
    · rw [hsecrets]
      exact List.nodup_nil
    · rw [hversions] at hversion
      cases hversion
  | succ n ih =>
    obtain ⟨vault, h⟩ := ih
    cases he : s.log[n]? with
    | some e =>
      obtain ⟨vault', h', -⟩ := implements_of_commit hreach hempty.1 he h
      exact ⟨vault', h'⟩
    | none =>
      have hlen := List.getElem?_eq_none_iff.mp he
      refine ⟨vault, ?_⟩
      rw [databaseAfter, List.take_of_length_le (Nat.le_succ_of_le hlen)]
      rwa [databaseAfter, List.take_of_length_le hlen] at h

end

/-! ## Readers -/

/-- What a call that reads answers, where it found the histories of some time from when it began to
when it committed. -/
def Answers (platform : Platform) (databases : Nat → Db wrapper) (vaults : Nat → Vault)
    (since last : Nat) (answer : Answer) : Action → Prop
  | .secret (.get id) => ∃ n, since ≤ n ∧ n ≤ last ∧ ∃ metadata value,
      answer = .value ⟨metadata, value⟩ ∧ metadata.id = id ∧
        metadata.currentVersion = (vaults n id).length ∧ (vaults n id).getLast? = some value
  | .secret (.runtimeConfig projectId environmentId _ _) => ∃ found,
      answer = .runtimeConfig found ∧ ∀ secrets ∈ found.secrets, ∃ n, since ≤ n ∧ n ≤ last ∧
        ∃ entries, secrets = Json.fromEntries entries ∧
          Shows platform (databases n) (vaults n) projectId environmentId entries
  | .secret (.exportConfig projectId environmentId format options _) => ∃ n, since ≤ n ∧ n ≤ last ∧
      ∃ result entries, answer = .exported result ∧
        serializeSecretExport platform.localeCompare (recordOf entries) format options =
          .ok result.content ∧
        Shows platform (databases n) (vaults n) projectId environmentId entries
  | .secret (.compareVersions id fromVersion toVersion reveal) => ∃ n, since ≤ n ∧ n ≤ last ∧
      ∃ comparison older newer, answer = .comparison comparison ∧
        (vaults n id)[fromVersion - 1]? = some older ∧ (vaults n id)[toVersion - 1]? = some newer ∧
          comparison.changed = decide (older ≠ newer) ∧
            comparison.values = if reveal then some (older, newer) else none
  | _ => True

theorem opened_of_moment {platform : Platform} {m : Db wrapper}
    (h : Implements platform.aead m vault) {id : Uuid} {secret : Secret}
    (hfind : m.secrets.find? (isActiveId id) = some secret) {number : Nat}
    {keys last : DataKeyStore wrapper} {plaintext : Bytes} (hkeys : m.keys.Extends last)
    (hother : keys.Extends last) (hopens : OpensVersion platform m secret number keys plaintext) :
    secret.currentVersion = (vault id).length ∧
      (vault id)[number - 1]? = some (Utf8.decode plaintext) ∧
        Utf8.encode (Utf8.decode plaintext) = plaintext := by
  obtain ⟨hmem, rfl, -⟩ := id_of_isActiveId hfind
  obtain ⟨row, hrow, hdecrypt⟩ := hopens
  obtain ⟨-, -, -, -, value, hvalue, hhas⟩ := h.hasValue (Sees.refl m) hmem rfl hrow
  have hdecoded := decode_of_sealed hhas.wellFormed hhas.isSealed hkeys hother hdecrypt
  have hlast := KeepsValues.of_extends hother _ _ _ hdecrypt
  rw [decrypt_of_sealed (Sealed.mono hkeys hhas.isSealed)] at hlast
  rw [hdecoded]
  exact ⟨h.current _ hmem, hvalue, Except.ok.inj hlast⟩

section

variable {config : Config} {base : Db wrapper}
  {s : System (Db wrapper) Lock Write ServiceError Call Answer}

/-- The statements of a call that reads found databases of the run. -/
theorem moments_of_read (hreach : Reachable store (program config) base s) {i : Nat}
    {e : Commit wrapper} (he : s.log[i]? = some e) {call : SecretCall}
    (hcall : e.call.action = .secret call) (hread : isRead call = true) :
    ∃ stmts, Does (call.program config e.call.userId e.call.draws : TransactionM wrapper _) stmts
        e.world.pending e.answer ∧ ∀ x ∈ stmts, ∃ n, e.since ≤ n ∧ n ≤ i ∧
          readPart x.view = readPart (databaseAfter store base s.log n) := by
  obtain ⟨stmts, hdoes, hobserved⟩ := observed_of_reachable (f := readPart) hreach he
  simp only [program, hcall] at hdoes
  have hnotes := (emits_read readWrites_isNote config e.call.userId e.call.draws hread).does hdoes
  obtain ⟨times, htimes⟩ := hobserved fun w hw db => readPart_apply (hnotes w hw) db
  refine ⟨stmts, hdoes, fun x hx => ?_⟩
  obtain ⟨k, hk, rfl⟩ := List.mem_iff_getElem.mp hx
  obtain ⟨n, hn, hview⟩ := getElem?_of_forall₂ htimes.views (List.getElem?_eq_getElem hk)
  obtain ⟨hsince, hlast⟩ := htimes.bounds n (List.mem_of_getElem? hn)
  exact ⟨n, hsince, hlast, hview⟩

/-- **A reader answers the values that were written.** -/
theorem answers_of_commit (hreach : Reachable store (program config) base s)
    (hempty : base.secrets = []) {vaults : Nat → Vault}
    (h : ∀ n, Implements config.platform.aead (databaseAfter store base s.log n) (vaults n))
    {i : Nat} {e : Commit wrapper} (he : s.log[i]? = some e) :
    Answers config.platform (databaseAfter store base s.log) vaults e.since i e.answer
      e.call.action := by
  have hhistory := history_of_commits hreach hempty
  have hlast : ∀ n, n ≤ i → (databaseAfter store base s.log n).keys.Extends
      (databaseAfter store base s.log i).keys := fun n hn => ((hhistory i).2 n hn).keys
  have hviews : ∀ (x : DbStatement wrapper) (n : Nat), n ≤ i →
      readPart x.view = readPart (databaseAfter store base s.log n) →
      x.view.keys.Extends (databaseAfter store base s.log i).keys := by
    intro x n hn hview
    have hkeys : (readPart x.view).keys = (readPart (databaseAfter store base s.log n)).keys :=
      congrArg _ hview
    change x.view.keys = (databaseAfter store base s.log n).keys at hkeys
    exact hkeys ▸ hlast n hn
  cases haction : e.call.action with
  | project action => trivial
  | environment action => trivial
  | secret call =>
    cases call with
    | get id =>
      obtain ⟨stmts, hdoes, hmoments⟩ := moments_of_read hreach he haction rfl
      obtain ⟨answer, _, _, _, _, hget, hpure, rfl, -⟩ := does_bind.mp hdoes
      obtain ⟨rfl, -, hanswer⟩ := does_ok.mp hpure
      obtain ⟨x, hx, y, hy, secret, row, plaintext, hfind, hvalue, hdecrypt, rfl⟩ := does_get hget
      obtain ⟨n, hsince, hle, hview⟩ := hmoments x (List.mem_append_left _ hx)
      obtain ⟨m, -, hm, hother⟩ := hmoments y (List.mem_append_left _ hy)
      change (readPart x.view).secrets.find? _ = _ at hfind
      change selectValue _ (readPart x.view) _ _ = _ at hvalue
      rw [hview] at hfind hvalue
      obtain ⟨hsecret, -, hnumber, -⟩ := selectValue_secret hvalue
      rw [hsecret, ← hnumber, ← hsecret] at hdecrypt
      obtain ⟨hcurrent, hopened, -⟩ := opened_of_moment (h n) hfind (hlast n hle)
        (hviews y m hm hother) ⟨row, hvalue, hdecrypt⟩
      obtain ⟨-, hid, -⟩ := id_of_isActiveId hfind
      refine ⟨n, hsince, hle, _, _, hanswer, ?_, ?_, ?_⟩
      · rw [metadataFromRow, hsecret]
        exact hid
      · rw [metadataFromRow, hsecret]
        exact hcurrent
      · rw [List.getLast?_eq_getElem?, ← hcurrent]
        exact hopened
    | runtimeConfig projectId environmentId known auditActor =>
      obtain ⟨stmts, hdoes, hmoments⟩ := moments_of_read hreach he haction rfl
      obtain ⟨found, _, _, _, _, hruntime, hpure, rfl, -⟩ := does_bind.mp hdoes
      obtain ⟨rfl, -, hanswer⟩ := does_ok.mp hpure
      obtain ⟨-, first, rest, rfl, hfinding⟩ := does_runtimeConfig hruntime
      refine ⟨found, hanswer, fun secrets hsecrets => ?_⟩
      obtain ⟨y, hy, entries, rfl, hopens⟩ := hfinding.secrets secrets hsecrets
      obtain ⟨n, hsince, hle, hview⟩ := hmoments y (by simp [hy])
      rw [← sealedEntries_readPart, hview, sealedEntries_readPart] at hopens
      refine ⟨n, hsince, hle, entries, rfl, shows_of_opens (h n) (hhistory n).1 (hlast n hle)
        (fun x hx => ?_) hopens⟩
      obtain ⟨m, -, hm, hother⟩ := hmoments x (by simp [hx])
      exact hviews x m hm hother
    | exportConfig projectId environmentId format options auditActor =>
      obtain ⟨stmts, hdoes, hmoments⟩ := moments_of_read hreach he haction rfl
      obtain ⟨result, _, _, _, _, hexport, hpure, rfl, -⟩ := does_bind.mp hdoes
      obtain ⟨rfl, -, hanswer⟩ := does_ok.mp hpure
      obtain ⟨y, hy, entries, hopens, hcontent⟩ := does_exportConfig hexport
      obtain ⟨n, hsince, hle, hview⟩ := hmoments y (List.mem_append_left _ hy)
      rw [← sealedEntries_readPart, hview, sealedEntries_readPart] at hopens
      refine ⟨n, hsince, hle, result, entries, hanswer, hcontent, shows_of_opens (h n)
        (hhistory n).1 (hlast n hle) (fun x hx => ?_) hopens⟩
      obtain ⟨m, -, hm, hother⟩ := hmoments x (List.mem_append_left _ hx)
      exact hviews x m hm hother
    | compareVersions id fromVersion toVersion reveal =>
      obtain ⟨stmts, hdoes, hmoments⟩ := moments_of_read hreach he haction rfl
      obtain ⟨comparison, _, _, _, _, hcompare, hpure, rfl, -⟩ := does_bind.mp hdoes
      obtain ⟨rfl, -, hanswer⟩ := does_ok.mp hpure
      obtain ⟨x, hx, y, hy, z, hz, secret, older, newer, hfind, hfrom, hto, hchanged, hvalues⟩ :=
        does_compareVersions hcompare
      obtain ⟨n, hsince, hle, hview⟩ := hmoments x (List.mem_append_left _ hx)
      obtain ⟨m, -, hm, hother⟩ := hmoments y (List.mem_append_left _ hy)
      obtain ⟨k, -, hk, hthird⟩ := hmoments z (List.mem_append_left _ hz)
      change (readPart x.view).secrets.find? _ = _ at hfind
      change OpensVersion _ (readPart x.view) _ _ _ _ at hfrom hto
      rw [hview] at hfind hfrom hto
      obtain ⟨-, hopened, holder⟩ := opened_of_moment (h n) hfind (hlast n hle)
        (hviews y m hm hother) hfrom
      obtain ⟨-, hopened', hnewer⟩ := opened_of_moment (h n) hfind (hlast n hle)
        (hviews z k hk hthird) hto
      refine ⟨n, hsince, hle, comparison, _, _, hanswer, hopened, hopened', ?_, hvalues⟩
      rw [hchanged]
      refine decide_eq_decide.mpr (not_congr ⟨fun heq => by rw [heq], fun heq => ?_⟩)
      rw [← holder, ← hnewer, heq]
    | _ => trivial

/-- The histories after each commit of a run. -/
structure RunHistories (platform : Platform) (base : Db wrapper) (log : List (Commit wrapper))
    (vaults : Nat → Vault) : Prop where
  start : vaults 0 = fun _ => []
  recorded : ∀ n, Recorded platform.aead (databaseAfter store base log n) (vaults n)
  kept : ∀ m n, m ≤ n → (databaseAfter store base log m).secretVersions <+:
    (databaseAfter store base log n).secretVersions
  effects : ∀ (i : Nat) (e : Commit wrapper), log[i]? = some e →
    ActionEffect (databaseAfter store base log i) (vaults i) (vaults (i + 1)) e.answer
      e.call.action
  answers : ∀ (i : Nat) (e : Commit wrapper), log[i]? = some e →
    Answers platform (databaseAfter store base log) vaults e.since i e.answer e.call.action

/-- **The version history of secrets.** In every run, the versions of each secret are those from one
to the current one and stay, each decrypts in the context of its readers to the value that was
written, each commit appends the values that it writes under the next numbers and no others, and
each reader answers values that were written. -/
theorem version_history (hempty : base.secrets = [] ∧ base.secretVersions = [])
    (hreach : Reachable store (program config) base s) :
    ∃ vaults, RunHistories config.platform base s.log vaults := by
  have hexists : ∀ n, ∃ vault, Implements config.platform.aead
      (databaseAfter store base s.log n) vault := exists_implements hreach hempty
  choose vaults hvaults using hexists
  have hhistory := history_of_commits hreach hempty.1
  refine ⟨vaults, ?_, fun n => (hvaults n).recorded (hhistory n).1,
    fun m n hmn => ((hhistory n).2 m hmn).versions, fun i e he => ?_,
    fun i e he => answers_of_commit hreach hempty.1 hvaults he⟩
  · funext id
    refine (hvaults 0).absent id fun row hrow => ?_
    change row ∈ base.secrets at hrow
    rw [hempty.1] at hrow
    cases hrow
  · obtain ⟨vault', h', heffect⟩ := implements_of_commit hreach hempty.1 he (hvaults i)
    rwa [implements_unique h' (hvaults (i + 1))] at heffect

end

/-! ## A secret with a note -/

/-- A secret is stored and replaced, gets a note by an update that expects the current version, is
rolled back and read. Each call is there with the number of its statements. -/
def noteCalls : List (Call × Nat) :=
  [(createApp 1, 9),
    (callAt 2 (.secret (.create ⟨100⟩ ⟨101⟩
      { key := ofAscii "KEY", value := ofAscii "x" })), 15),
    (callAt 3 (.secret (.update ⟨200⟩ ⟨some (ofAscii "y"), none, none, some 1, none⟩)), 10),
    (callAt 4 (.secret (.update ⟨200⟩ ⟨none, some (some (ofAscii "n")), none, some 2, none⟩)), 7),
    (callAt 5 (.secret (.rollback ⟨200⟩ 1 ⟨some 2, none⟩)), 12),
    (callAt 6 (.secret (.get ⟨200⟩)), 6)]

/-- The calls one after another. -/
def noteRun : Option (System (Db exampleWrapper) Lock Write ServiceError Call Answer) :=
  (System.start newOrganization).schedule store (program exampleConfig)
    (noteCalls.flatMap fun call =>
      .start call.1 :: List.replicate call.2 (.statement 0) ++ [.commit 0])

/-- The secret and the expected version of an update, with the numbers of the versions after it. -/
structure UpdateEntry where
  id : Uuid
  expectedVersion : Option Nat
  versions : List (Uuid × Nat)
  deriving DecidableEq

def updateOf (e : Commit exampleWrapper) : Option UpdateEntry :=
  match e.call.action with
  | .secret (.update id input) => some ⟨id, input.expectedVersion,
      (e.world.view store).secretVersions.map fun row => (row.secretId, row.version)⟩
  | _ => none

theorem noteRun_update : noteRun.map (fun s => (s.log.length, (s.log[3]?).bind updateOf)) =
    some (6, some ⟨⟨200⟩, some 2, [(⟨200⟩, 1), (⟨200⟩, 2)]⟩) := by
  decide +kernel

theorem version_history_note : ∃ s, noteRun = some s ∧ s.log.length = 6 ∧
    ∃ vaults, RunHistories examplePlatform newOrganization s.log vaults := by
  obtain ⟨s, hs, hlog⟩ := Option.map_eq_some_iff.mp noteRun_update
  have hlength : s.log.length = 6 := congrArg Prod.fst hlog
  exact ⟨s, hs, hlength, version_history ⟨rfl, rfl⟩ (reachable_of_schedule hs)⟩

/-- Every update that carries a version creates the next one. -/
def UpdatesCreate (log : List (Commit wrapper)) : Prop :=
  ∀ e ∈ log, ∀ id input expected, e.call.action = .secret (.update id input) →
    input.expectedVersion = some expected →
      ∃ version ∈ (e.world.view store).secretVersions,
        version.secretId = id ∧ version.version = expected + 1

/-- An update of the notes alone commits under the version that it expects, and creates none. -/
theorem not_updatesCreate : ∃ s, Reachable store (program exampleConfig) newOrganization s ∧
    ¬UpdatesCreate s.log := by
  obtain ⟨s, hs, hlog⟩ := Option.map_eq_some_iff.mp noteRun_update
  obtain ⟨e, he, hentry⟩ := Option.bind_eq_some_iff.mp (congrArg Prod.snd hlog)
  refine ⟨s, reachable_of_schedule hs, fun h => ?_⟩
  unfold updateOf at hentry
  split at hentry
  · rename_i id input haction
    obtain ⟨rfl, hexpected, hversions⟩ := UpdateEntry.mk.inj (Option.some.inj hentry)
    obtain ⟨version, hversion, hid, hnumber⟩ :=
      h e (List.mem_of_getElem? he) _ input 2 haction hexpected
    have hmem : (version.secretId, version.version) ∈
        (e.world.view store).secretVersions.map fun row => (row.secretId, row.version) :=
      List.mem_map_of_mem hversion
    rw [hversions, hid, hnumber] at hmem
    exact absurd hmem (by decide)
  · cases hentry

end Himitsu.Secrets
