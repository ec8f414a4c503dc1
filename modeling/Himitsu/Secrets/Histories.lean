import Himitsu.Crypto.KeyCacheSafety
import Himitsu.Library.SerialViews
import Himitsu.Secrets.Traces

/-!
# The histories of secrets

A secret is, for its readers, the list of the values of its versions.

* `Vault` — such a list for each secret.
* `Implements` — the tables hold these lists: the versions of a secret are numbered from one up to
  the current one, and each is sealed in the context under which the readers open it.
* `serially_encrypt`, `serially_writeVersion`, `serially_create` — what the writes of the service
  make of the lists, as the commit sees it.

Principal results: `serially_writeVersion` — a new version appends its value to the list of its
secret, whose length is the version that the writer has read before; `serially_create` — so does a
creation, with a secret that it recovers or makes.
-/

set_option autoImplicit false

namespace Himitsu.Secrets

open JsString Crypto Database Services Transactions Interleaving

variable {wrapper : KeyWrapper}

/-! ## Vaults -/

/-- The values of the versions of each secret. -/
abbrev Vault := Uuid → List JsString

def Vault.append (vault : Vault) (id : Uuid) (value : JsString) : Vault :=
  Function.update vault id (vault id ++ [value])

/-- A version is sealed in the context of its secret. -/
def IsSealed (aead : Aead) (db : Db wrapper) (row : Secret) (version : SecretVersion)
    (value : JsString) : Prop :=
  isWellFormed value = true ∧ Sealed aead db.keys (encryptedOf version)
    (contextOf db.orgId row version.version) (Utf8.encode value)

/-- A key that is stored, and read, as it is. -/
def IsKey (key : JsString) : Prop := isWellFormed key = true ∧ validateSecretKey key true = .ok key

theorem isKey_of_stored {text normalized key : JsString} {allowNonConforming : Bool}
    (hnormalized : validateSecretKey text allowNonConforming = .ok normalized)
    (hkey : storedText normalized = .ok key) : IsKey key := by
  have hstored : key = toWellFormed normalized := by
    unfold storedText at hkey
    split at hkey
    · cases hkey
    · exact (Except.ok.inj hkey).symm
  obtain ⟨hlength, hunits⟩ := units_of_validateSecretKey hnormalized
  subst hstored
  refine ⟨isWellFormed_toWellFormed _, validateSecretKey_of_units ?_ fun c hc => ?_⟩
  · rwa [toWellFormed_length]
  · rcases mem_toWellFormed hc with hc | rfl
    · exact hunits c hc
    · decide

theorem IsKey.stored {key : JsString} (h : IsKey key) : storedText key = .ok key := by
  have hunits := (units_of_validateSecretKey h.2).2
  have hnull : key.contains 0 = false := by
    rw [List.contains_eq_any_beq, List.any_eq_false]
    intro c hc hnull
    rw [← beq_iff_eq.mp hnull] at hc
    exact absurd (hunits 0 hc) (by decide)
  rw [storedText, hnull, toWellFormed_of_isWellFormed h.1]
  rfl

structure Implements (aead : Aead) (db : Db wrapper) (vault : Vault) : Prop where
  ids : (db.secrets.map fun row => row.id).Nodup
  slots : (db.secrets.map fun row => row.slot).Nodup
  keys : ∀ row ∈ db.secrets, IsKey row.key
  owned : ∀ version ∈ db.secretVersions, ∃ row ∈ db.secrets, row.id = version.secretId
  current : ∀ row ∈ db.secrets, row.currentVersion = (vault row.id).length
  numbers : ∀ row ∈ db.secrets,
    (db.versionsOf row.id).map (fun version => version.version) =
      List.range' 1 (vault row.id).length
  values : ∀ row ∈ db.secrets,
    List.Forall₂ (IsSealed aead db row) (db.versionsOf row.id) (vault row.id)
  absent : ∀ id, (∀ row ∈ db.secrets, row.id ≠ id) → vault id = []

variable {aead : Aead} {db : Db wrapper} {vault : Vault}

theorem Implements.unique (h : Implements aead db vault) {row row' : Secret}
    (hrow : row ∈ db.secrets) (hrow' : row' ∈ db.secrets) (hid : row.id = row'.id) : row = row' :=
  List.inj_on_of_nodup_map h.ids hrow hrow' hid

theorem Implements.secretRows (h : Implements aead db vault) {row : Secret}
    (hrow : row ∈ db.secrets) : db.secretRows row.id = [row] := by
  have hnodup : db.secrets.Nodup := List.Nodup.of_map _ h.ids
  refine List.perm_singleton.mp ((List.perm_ext_iff_of_nodup (hnodup.filter _)
    (List.nodup_singleton _)).mpr fun other => ?_)
  rw [List.mem_filter, List.mem_singleton, decide_eq_true_eq]
  constructor
  · rintro ⟨hother, hid⟩
    exact h.unique hother hrow hid
  · rintro rfl
    exact ⟨hrow, rfl⟩

/-- The parts of a database on which the histories depend, and the places of the secrets. -/
def bare (db : Db wrapper) : Db wrapper :=
  { db with secretTags := [], auditEvents := [], decryptions := [] }

theorem implements_bare : Implements aead (bare db) vault ↔ Implements aead db vault :=
  ⟨fun h => ⟨h.ids, h.slots, h.keys, h.owned, h.current, h.numbers, h.values, h.absent⟩,
    fun h => ⟨h.ids, h.slots, h.keys, h.owned, h.current, h.numbers, h.values, h.absent⟩⟩

theorem Implements.of_bare {db' : Db wrapper} (h : Implements aead db vault)
    (hbare : bare db' = bare db) : Implements aead db' vault :=
  implements_bare.mp (hbare ▸ implements_bare.mpr h)

theorem Implements.withKeys (h : Implements aead db vault) {keys : DataKeyStore wrapper}
    (hkeys : db.keys.Extends keys) : Implements aead { db with keys := keys } vault where
  ids := h.ids
  slots := h.slots
  keys := h.keys
  owned := h.owned
  current := h.current
  numbers := h.numbers
  values row hrow :=
    (h.values row hrow).imp fun _ _ hsealed => ⟨hsealed.1, Sealed.mono hkeys hsealed.2⟩
  absent := h.absent

/-! ## New versions -/

/-- The tables after a new version: the keys may have grown before. -/
def withVersion (db : Db wrapper) (keys : DataKeyStore wrapper) (version : SecretVersion)
    (set : SecretSet) : Db wrapper :=
  apply (.updateSecret version.secretId set)
    (apply (.insertSecretVersion version) { db with keys := keys })

theorem Vault.append_self (vault : Vault) (id : Uuid) (value : JsString) :
    vault.append id value id = vault id ++ [value] :=
  Function.update_self ..

theorem Vault.append_of_ne (vault : Vault) {id other : Uuid} (h : other ≠ id)
    (value : JsString) : vault.append id value other = vault other :=
  Function.update_of_ne h ..

/-- The context of a version is that of its secret and number alone. -/
theorem contextOf_congr {row row' : Secret} (hid : row'.id = row.id)
    (hproject : row'.projectId = row.projectId)
    (henvironment : row'.environmentId = row.environmentId) (orgId : Uuid) (number : Nat) :
    contextOf orgId row' number = contextOf orgId row number := by
  simp only [contextOf, hid, hproject, henvironment]

theorem implements_withVersion (h : Implements aead db vault) {keys : DataKeyStore wrapper}
    (hkeys : db.keys.Extends keys) {row : Secret} (hrow : row ∈ db.secrets)
    {version : SecretVersion} {set : SecretSet} {value : JsString}
    (hid : version.secretId = row.id) (hnumber : version.version = (vault row.id).length + 1)
    (hset : set.currentVersion = some version.version) (hvalue : isWellFormed value = true)
    (hsealed : Sealed aead keys (encryptedOf version)
      (contextOf db.orgId row version.version) (Utf8.encode value)) :
    Implements aead (withVersion db keys version set) (vault.append row.id value) := by
  have hsecrets : (withVersion db keys version set).secrets =
      updateWhere (fun other => other.id = version.secretId) set.on db.secrets := rfl
  have hversions : ∀ id, (withVersion db keys version set).versionsOf id =
      db.versionsOf id ++ if row.id = id then [version] else [] := by
    intro id
    rw [Db.versionsOf]
    change (db.secretVersions ++ [version]).filter _ = _
    rw [List.filter_append, Db.versionsOf]
    congr 1
    by_cases heq : row.id = id
    · rw [if_pos heq, List.filter_cons_of_pos (by simp [hid, heq]), List.filter_nil]
    · rw [if_neg heq, List.filter_cons_of_neg (by simpa [hid] using heq), List.filter_nil]
  have hmem : ∀ other ∈ (withVersion db keys version set).secrets, ∃ old ∈ db.secrets,
      other.id = old.id ∧ other.projectId = old.projectId ∧
        other.environmentId = old.environmentId ∧ (old.id = row.id → other = set.on old) ∧
        (old.id ≠ row.id → other = old) := by
    intro other hother
    rw [hsecrets] at hother
    obtain ⟨old, hold, ⟨hold', rfl⟩ | ⟨hold', rfl⟩⟩ := mem_updateWhere.mp hother
    · have heq := of_decide_eq_true hold'
      exact ⟨old, hold, rfl, rfl, rfl, fun _ => rfl, fun hne => absurd (heq.trans hid) hne⟩
    · have hne := of_decide_eq_false hold'
      exact ⟨other, hold, rfl, rfl, rfl, fun heq => absurd (heq.trans hid.symm) hne, fun _ => rfl⟩
  refine ⟨?_, ?_, fun other hother => ?_, fun other hother => ?_, fun other hother => ?_,
    fun other hother => ?_, fun other hother => ?_, fun id hid' => ?_⟩
  · rw [hsecrets, map_updateWhere fun row => set.on_id row]
    exact h.ids
  · rw [hsecrets, map_updateWhere fun row => set.on_slot row]
    exact h.slots
  · obtain ⟨old, hold, -, -, -, hsame, hother'⟩ := hmem other hother
    by_cases hne : old.id = row.id
    · rw [hsame hne]
      exact h.keys old hold
    · rw [hother' hne]
      exact h.keys old hold
  · rw [hsecrets]
    have hold : ∃ old ∈ db.secrets, old.id = other.secretId := by
      rcases List.mem_append.mp hother with hother | hother
      · exact h.owned other hother
      · rw [List.mem_singleton.mp hother]
        exact ⟨row, hrow, hid.symm⟩
    obtain ⟨old, hold, heq⟩ := hold
    by_cases hne : old.id = version.secretId
    · exact ⟨set.on old, mem_updateWhere.mpr ⟨old, hold, .inl ⟨decide_eq_true hne, rfl⟩⟩, heq⟩
    · exact ⟨old, mem_updateWhere.mpr ⟨old, hold, .inr ⟨decide_eq_false hne, rfl⟩⟩, heq⟩
  · obtain ⟨old, hold, heq, -, -, hsame, hother⟩ := hmem other hother
    rw [heq]
    by_cases hne : old.id = row.id
    · rw [hsame hne, hne, Vault.append_self, List.length_append]
      simp only [SecretSet.on, hset, Option.getD_some, hnumber, List.length_singleton]
    · rw [hother hne, Vault.append_of_ne vault hne]
      exact h.current old hold
  · obtain ⟨old, hold, heq, -, -, -, -⟩ := hmem other hother
    rw [heq, hversions, List.map_append, h.numbers old hold]
    by_cases hne : old.id = row.id
    · rw [if_pos hne.symm, hne, Vault.append_self, List.length_append, List.length_singleton,
        List.range'_concat, List.map_singleton, hnumber]
      congr 2
      omega
    · rw [if_neg (Ne.symm hne), Vault.append_of_ne vault hne, List.map_nil, List.append_nil]
  · obtain ⟨old, hold, heq, hproject, henvironment, -, -⟩ := hmem other hother
    rw [heq, hversions]
    have hold' : List.Forall₂ (IsSealed aead (withVersion db keys version set) other)
        (db.versionsOf old.id) (vault old.id) :=
      (h.values old hold).imp fun version value hsealed => by
        rw [IsSealed, contextOf_congr heq hproject henvironment]
        exact ⟨hsealed.1, Sealed.mono hkeys hsealed.2⟩
    by_cases hne : old.id = row.id
    · rw [if_pos hne.symm]
      have hrowOld := h.unique hold hrow hne
      subst hrowOld
      rw [Vault.append_self]
      refine List.rel_append hold' (.cons ?_ .nil)
      rw [IsSealed, contextOf_congr heq hproject henvironment]
      exact ⟨hvalue, hsealed⟩
    · rw [if_neg (Ne.symm hne), Vault.append_of_ne vault hne, List.append_nil]
      exact hold'
  · have hne : id ≠ row.id := by
      rintro rfl
      refine hid' (set.on row) ?_ rfl
      rw [hsecrets]
      exact mem_updateWhere.mpr ⟨row, hrow, .inl ⟨decide_eq_true hid.symm, rfl⟩⟩
    rw [Vault.append_of_ne vault hne]
    refine h.absent id fun old hold heq => ?_
    refine hid' old ?_ heq
    rw [hsecrets]
    refine mem_updateWhere.mpr ⟨old, hold, .inr ⟨decide_eq_false fun hold' => hne ?_, rfl⟩⟩
    rw [← heq, hold', hid]

/-! ## Other writes -/

/-- A write that leaves the histories. -/
def KeepsHistories : Write → Prop
  | .insertSecret _ | .insertSecretVersion _ => False
  | .updateSecret _ set => set.currentVersion = none
  | _ => True

/-- An update of other columns leaves the place and the version of each secret. -/
theorem place_updateSecret {id : Uuid} {set : SecretSet} (hset : set.currentVersion = none)
    {row : Secret} (hrow : row ∈ (apply (.updateSecret id set) db).secrets) :
    ∃ old ∈ db.secrets, row.id = old.id ∧ row.projectId = old.projectId ∧
      row.environmentId = old.environmentId ∧ row.currentVersion = old.currentVersion ∧
        row.key = old.key := by
  obtain ⟨old, hold, ⟨-, rfl⟩ | ⟨-, rfl⟩⟩ := mem_updateWhere.mp hrow
  · exact ⟨old, hold, rfl, rfl, rfl, by simp only [SecretSet.on, hset, Option.getD_none], rfl⟩
  · exact ⟨row, hold, rfl, rfl, rfl, rfl, rfl⟩

theorem exists_updateSecret (id : Uuid) (set : SecretSet) {row : Secret} (hrow : row ∈ db.secrets) :
    ∃ row' ∈ (apply (.updateSecret id set) db).secrets, row'.id = row.id := by
  have hids : ((apply (.updateSecret id set) db).secrets.map fun row => row.id) =
      db.secrets.map fun row => row.id := map_updateWhere (fun row => set.on_id row) _
  have hmem : row.id ∈ (apply (.updateSecret id set) db).secrets.map fun row => row.id :=
    hids ▸ List.mem_map_of_mem hrow
  exact List.mem_map.mp hmem

theorem Implements.update (h : Implements aead db vault) {id : Uuid} {set : SecretSet}
    (hset : set.currentVersion = none) : Implements aead (apply (.updateSecret id set) db) vault where
  ids := by
    change ((updateWhere _ _ _).map _).Nodup
    rw [map_updateWhere fun row => set.on_id row]
    exact h.ids
  slots := by
    change ((updateWhere _ _ _).map _).Nodup
    rw [map_updateWhere fun row => set.on_slot row]
    exact h.slots
  keys row hrow := by
    obtain ⟨old, hold, -, -, -, -, hkey⟩ := place_updateSecret hset hrow
    rw [hkey]
    exact h.keys old hold
  owned version hversion := by
    obtain ⟨row, hrow, hid⟩ := h.owned version hversion
    obtain ⟨row', hrow', heq⟩ := exists_updateSecret id set hrow
    exact ⟨row', hrow', heq.trans hid⟩
  current row hrow := by
    obtain ⟨old, hold, hid, -, -, hversion, -⟩ := place_updateSecret hset hrow
    rw [hid, hversion]
    exact h.current old hold
  numbers row hrow := by
    obtain ⟨old, hold, hid, -⟩ := place_updateSecret hset hrow
    rw [hid]
    exact h.numbers old hold
  values row hrow := by
    obtain ⟨old, hold, hid, hproject, henvironment, -⟩ := place_updateSecret hset hrow
    rw [hid]
    refine (h.values old hold).imp fun version value hsealed => ⟨hsealed.1, ?_⟩
    rw [contextOf_congr hid hproject henvironment]
    exact hsealed.2
  absent other hother := by
    refine h.absent other fun row hrow heq => ?_
    obtain ⟨row', hrow', hid⟩ := exists_updateSecret id set hrow
    exact hother row' hrow' (hid.trans heq)

theorem Implements.write {w : Write} (h : Implements aead db vault) (hw : KeepsHistories w) :
    Implements aead (apply w db) vault := by
  cases w with
  | insertSecret | insertSecretVersion => exact hw.elim
  | updateSecret id set => exact h.update hw
  | activateKey dataKey nonce =>
    exact h.withKeys fun orgId version key hkey => db.keys.keyOf_activate hkey _ _ _
  | _ => exact ⟨h.ids, h.slots, h.keys, h.owned, h.current, h.numbers, h.values, h.absent⟩

/-- A new secret has no versions. -/
theorem Implements.insert (h : Implements aead db vault) {row : Secret}
    (hfresh : ∀ other ∈ db.secrets, other.id ≠ row.id ∧ other.slot ≠ row.slot)
    (hkey : IsKey row.key) (hversion : row.currentVersion = 0) :
    Implements aead (apply (.insertSecret row) db) vault := by
  have hnil : vault row.id = [] := h.absent row.id fun other hother => (hfresh other hother).1
  have hversions : db.versionsOf row.id = [] := by
    refine List.filter_eq_nil_iff.mpr fun version hmem hid => ?_
    obtain ⟨other, hother, howner⟩ := h.owned version hmem
    exact (hfresh other hother).1 (howner.trans (of_decide_eq_true hid))
  have hmem : ∀ other ∈ (apply (.insertSecret row) db).secrets,
      other ∈ db.secrets ∨ other = row := fun other hother =>
    (List.mem_append.mp hother).imp_right List.mem_singleton.mp
  refine ⟨?_, ?_, fun other hother => ?_, fun version hother => ?_, fun other hother => ?_,
    fun other hother => ?_, fun other hother => ?_, fun id hid => ?_⟩
  · rw [apply, List.map_append, List.nodup_append]
    refine ⟨h.ids, List.nodup_singleton _, fun id hid other hother heq => ?_⟩
    obtain ⟨old, hold, rfl⟩ := List.mem_map.mp hid
    exact (hfresh old hold).1 (heq.trans (List.mem_singleton.mp hother))
  · rw [apply, List.map_append, List.nodup_append]
    refine ⟨h.slots, List.nodup_singleton _, fun slot hslot other hother heq => ?_⟩
    obtain ⟨old, hold, rfl⟩ := List.mem_map.mp hslot
    exact (hfresh old hold).2 (heq.trans (List.mem_singleton.mp hother))
  · rcases hmem other hother with hold | rfl
    · exact h.keys other hold
    · exact hkey
  · obtain ⟨old, hold, hid⟩ := h.owned version hother
    exact ⟨old, List.mem_append_left _ hold, hid⟩
  · rcases hmem other hother with hold | rfl
    · exact h.current other hold
    · rw [hversion, hnil, List.length_nil]
  · rcases hmem other hother with hold | rfl
    · exact h.numbers other hold
    · rw [hnil]
      exact congrArg _ hversions
  · rcases hmem other hother with hold | rfl
    · exact h.values other hold
    · rw [hnil]
      change List.Forall₂ _ (db.versionsOf _) []
      rw [hversions]
      exact .nil
  · exact h.absent id fun other hother => hid other (List.mem_append_left _ hother)

/-! ## What the writes do -/

/-- A sealed value is what its columns give back. -/
theorem algorithm_of_sealed {keys : DataKeyStore wrapper} {encrypted : EncryptedSecretValue}
    {context : SecretEncryptionContext} {plaintext : Bytes}
    (h : Sealed aead keys encrypted context plaintext) : encrypted.algorithm = ALGORITHM := by
  obtain ⟨-, key, nonce, -, hsealed⟩ := h
  rw [hsealed]
  rfl

/-- A view has no data keys that the commit has not, and is of the same organization. -/
def Sees (view db : Db wrapper) : Prop := view.keys.Extends db.keys ∧ view.orgId = db.orgId

section

variable {platform : Platform} {rely : Db wrapper → Db wrapper → Prop} {held : List Lock}

theorem serially_attempt {α ε : Type} {wrap : ε → ServiceError} {result : Except ε α}
    {Q : α → List Lock → Db wrapper → Prop} (h : ∀ a, result = .ok a → Q a held db) :
    Serially store rely (attempt wrap result : TransactionM wrapper α) held db Q := by
  refine serially_ofExcept fun a ha => ?_
  cases result with
  | error e => cases ha
  | ok b =>
    obtain rfl := Except.ok.inj ha
    exact h b rfl

/-- `encrypt` seals a value under a data key that the store has from then on. -/
theorem serially_encrypt (hrely : ∀ view db, rely view db → Sees view db) {draws : Draws} {n : Nat}
    {plaintext : Bytes} {context : SecretEncryptionContext} (horg : context.orgId = db.orgId.text) :
    Serially store rely (encrypt platform draws n plaintext context : TransactionM wrapper _) held
      db fun encrypted held' db' => (∀ l ∈ held, l ∈ held') ∧ ∃ keys, db' = { db with keys := keys } ∧
        db.keys.Extends keys ∧ Sealed platform.aead keys encrypted context plaintext := by
  unfold encrypt
  refine serially_bind (serially_attempt fun aad haad => ?_)
  have hvalid : context.isValid = true := by
    unfold secretAad at haad
    by_contra hinvalid
    rw [if_neg hinvalid] at haad
    cases haad
  have hseal : ∀ (keys : DataKeyStore wrapper) (record : DataKeyRecord),
      record ∈ keys.records → record.orgId = context.orgId → ∀ key,
        record.key wrapper = some key → Sealed platform.aead keys
          (sealValue platform.aead record.version key.bytes (draws.nonce n) context plaintext)
          context plaintext := by
    intro keys record hmem hrecord key hkey
    refine ⟨hvalid, key, draws.nonce n, ?_, rfl⟩
    rw [← hrecord]
    exact (keys.keyOf_of_mem hmem).trans hkey
  unfold ensureActive
  refine serially_bind (serially_bind (serially_selectForUpdate fun _ _ _ => ?_))
  refine serially_bind (serially_select fun view hview _ => ?_)
  cases hactive : view.keys.getActive context.orgId with
  | some record =>
    refine serially_ok ?_
    split
    · exact serially_fail
    · rename_i key hkey
      obtain ⟨hmem, hrecord⟩ := view.keys.getActive_mem hactive
      exact serially_ok ⟨fun l hl => List.mem_append_left _ hl, db.keys, rfl, .refl _,
        Sealed.mono (hrely _ _ hview).1 (hseal view.keys record hmem hrecord key hkey)⟩
  | none =>
    refine serially_execute fun other record hother hparts hrecord => ?_
    obtain rfl := Except.ok.inj hrecord
    have hpart := hparts .keys (List.mem_append_right _ (by simp [takes, Store.touchesAll, store,
      touches]))
    obtain ⟨horgs, hkeys⟩ := Contents.keys.inj hpart
    rw [← horgs, ← hkeys]
    split
    · exact serially_fail
    · rename_i key hkey
      exact serially_ok ⟨fun l hl => List.mem_append_left _ (List.mem_append_left _ hl),
        db.keys.activate db.orgId.text (draws.dataKey n) (draws.wrapNonce n), rfl,
        fun orgId version key hkey => db.keys.keyOf_activate hkey _ _ _,
        hseal _ _ (db.keys.newRecord_mem_activate _ _ _) horg.symm key hkey⟩

/-- A row that a writer has read: it is still there, in the same place and at no earlier version. -/
structure IsLater (before row : Secret) : Prop where
  id : row.id = before.id
  projectId : row.projectId = before.projectId
  environmentId : row.environmentId = before.environmentId
  key : row.key = before.key
  currentVersion : before.currentVersion ≤ row.currentVersion

def Known (db : Db wrapper) (before : Secret) : Prop := ∃ row ∈ db.secrets, IsLater before row

/-- A new version of `before`: its number is the next one, and its value ends the history. -/
structure Wrote (aead : Aead) (db : Db wrapper) (vault : Vault) (before : Secret)
    (value : JsString) (metadata : SecretMetadata) (db' : Db wrapper) : Prop where
  active : ∃ row ∈ db.secrets, IsLater before row ∧ row.deletedAt = none
  current : (vault before.id).length = before.currentVersion
  id : metadata.id = before.id
  projectId : metadata.projectId = before.projectId
  environmentId : metadata.environmentId = before.environmentId
  key : metadata.key = before.key
  version : metadata.currentVersion = before.currentVersion + 1
  tables : ∃ keys version set, bare db' = bare (withVersion db keys version set) ∧
    db.keys.Extends keys ∧ version.secretId = before.id ∧
    set.currentVersion = some (before.currentVersion + 1) ∧ set.deletedAt = none
  tags : ∀ id, id ≠ before.id → db'.tagsOf id = db.tagsOf id
  implements : Implements aead db' (vault.append before.id value)

/-- The row of an id is the one of a part. -/
theorem filter_isActiveId {db view : Db wrapper} {id : Uuid} {row : Secret}
    (hrows : db.secretRows id = [row])
    (hpart : store.part (.secret id) db = store.part (.secret id) view) :
    view.secrets.filter (isActiveId id) = [row].filter fun row => row.deletedAt.isNone := by
  obtain ⟨hsecrets, -, -⟩ := Contents.secret.inj hpart
  rw [← hrows, hsecrets, Db.secretRows, List.filter_filter]
  refine List.filter_congr fun other _ => ?_
  rw [isActiveId, Bool.and_comm]

theorem find_isActiveId {db view : Db wrapper} {id : Uuid} {row : Secret}
    (hrows : db.secretRows id = [row])
    (hpart : store.part (.secret id) db = store.part (.secret id) view) :
    view.secrets.find? (isActiveId id) = if row.deletedAt.isNone then some row else none := by
  rw [← List.head?_filter, filter_isActiveId hrows hpart]
  by_cases hactive : row.deletedAt.isNone = true <;> simp [hactive]

/-- Tags, events and the record of decryptions leave the histories. -/
theorem serially_bare {α : Type} {p : TransactionM wrapper α}
    (h : Emits (fun w => ∀ db : Db wrapper, bare (apply w db) = bare db) p) :
    Serially store rely p held db fun _ held' db' =>
      (∀ l ∈ held, l ∈ held') ∧ bare db' = bare db :=
  serially_of_emits h fun _ hw db => hw db

/-- Events and the record of decryptions leave the tags too. -/
theorem serially_noting {α : Type} {p : TransactionM wrapper α}
    (h : Emits (fun w => ∀ db : Db wrapper, (bare (apply w db), (apply w db).secretTags) =
      (bare db, db.secretTags)) p) :
    Serially store rely p held db fun _ held' db' => (∀ l ∈ held, l ∈ held') ∧
      bare db' = bare db ∧ db'.secretTags = db.secretTags := by
  refine (serially_of_emits (f := fun db : Db wrapper => (bare db, db.secretTags)) h
    fun _ hw db => hw db).mono fun _ _ _ hafter => ⟨hafter.1, ?_⟩
  exact Prod.mk.inj hafter.2

/-- New tags of a secret leave those of the others. -/
theorem serially_replaceTags {id : Uuid} {b : Bool} {tagIds : List Uuid} :
    Serially store rely (doIf b (replaceTags id tagIds) : TransactionM wrapper _) held db
      fun _ held' db' => (∀ l ∈ held, l ∈ held') ∧ bare db' = bare db ∧
        ∀ other, other ≠ id → db'.tagsOf other = db.tagsOf other := by
  let leaves (w : Write) : Prop := ∀ s : Db wrapper, bare (apply w s) = bare s ∧
    ∀ other, other ≠ id → (apply w s).tagsOf other = s.tagsOf other
  have huntag : leaves (.deleteSecretTags id) := fun s => ⟨rfl, fun other hother =>
    filter_key_of_ne (fun row : SecretTag => row.secretId) hother _⟩
  have htag : ∀ tagId, leaves (.insertSecretTag ⟨id, tagId⟩) := fun tagId s =>
    ⟨rfl, fun other hother => by
      change (s.secretTags ++ [_]).filter _ = s.secretTags.filter _
      rw [List.filter_append, List.filter_cons_of_neg (by simpa using Ne.symm hother),
        List.filter_nil, List.append_nil]⟩
  exact serially_of_invariant (emits_doIf (emits_replaceTags huntag htag _))
    (fun w hw s hs => ⟨(hw s).1.trans hs.1, fun other hother =>
      ((hw s).2 other hother).trans (hs.2 other hother)⟩) ⟨rfl, fun _ _ => rfl⟩

theorem serially_checkedOr {α β ε : Type} {wrap : ε → ServiceError} {current : β}
    {check : α → Except ε β} {input : Option α} {Q : β → List Lock → Db wrapper → Prop}
    (h : ∀ b, Q b held db) :
    Serially store rely (checkedOr wrap current check input : TransactionM wrapper β) held db Q := by
  cases input with
  | none => exact serially_ok (h current)
  | some input => exact serially_ofExcept fun b _ => h b

theorem serially_metadataRow {id : Uuid} {row : Secret} (hrows : db.secretRows id = [row])
    (hheld : .secret id ∈ held) :
    Serially store rely (metadataRow platform id false : TransactionM wrapper _) held db
      fun found held' db' => held' = held ∧ db' = db ∧ found.secret = row := by
  unfold metadataRow
  refine serially_bind (serially_selectForUpdate fun view hview hparts => ?_)
  have hfind := find_isActiveId hrows (hparts _ (List.mem_append_left _ hheld))
  have hfound : view.secrets.find? (fun row => row.id = id && row.deletedAt.isNone) =
      if row.deletedAt.isNone then some row else none := hfind
  rw [hfound]
  split
  · exact serially_fail
  · rename_i found hmap
    obtain ⟨secret, hsecret, rfl⟩ := Option.map_eq_some_iff.mp hmap
    split at hsecret
    · cases hsecret
      exact serially_ok ⟨List.append_nil _, rfl, rfl⟩
    · cases hsecret

/-- The number of a new version is free only if it is the next one. -/
theorem serially_insertVersion {version : SecretVersion} {row : Secret}
    (h : Implements aead db vault) (hrow : row ∈ db.secrets) (hid : row.id = version.secretId)
    (hpositive : 1 ≤ version.version)
    (hle : version.version ≤ (vault version.secretId).length + 1) :
    Serially store rely (insertVersion version : TransactionM wrapper _) held db
      fun _ held' db' => (∀ l ∈ held, l ∈ held') ∧ .secret version.secretId ∈ held' ∧
        version.version = (vault version.secretId).length + 1 ∧
        db' = apply (.insertSecretVersion version) db := by
  refine serially_execute fun view _ hview hparts hinsert => ?_
  have htaken : Lock.secret version.secretId ∈ takes store
      ⟨view, [], [.insertSecretVersion version]⟩ := List.mem_cons_self ..
  refine ⟨fun l hl => List.mem_append_left _ hl, List.mem_append_right _ htaken, ?_, rfl⟩
  obtain ⟨-, hversions, -⟩ := Contents.secret.inj (hparts _ (List.mem_append_right _ htaken))
  have hnumbers := h.numbers row hrow
  rw [hid] at hnumbers
  by_contra hne
  have hin : version.version ∈ List.range' 1 (vault version.secretId).length := by
    rw [List.mem_range'_1]
    omega
  rw [← hnumbers] at hin
  obtain ⟨stored, hstored, hnumber⟩ := List.mem_map.mp hin
  have hmem : stored ∈ view.versionsOf version.secretId := hversions ▸ hstored
  obtain ⟨hmem, hsecret⟩ := List.mem_filter.mp hmem
  split at hinsert
  · cases hinsert
  · rw [if_pos (List.any_eq_true.mpr ⟨stored, hmem, by simp [of_decide_eq_true hsecret, hnumber]⟩)]
      at hinsert
    cases hinsert

theorem serially_updateSecretRow {id : Uuid} {set : SecretSet} {row : Secret}
    (hrows : db.secretRows id = [row]) (hheld : .secret id ∈ held) :
    Serially store rely (updateSecretRow id set : TransactionM wrapper _) held db
      fun updated held' db' => (∀ l ∈ held, l ∈ held') ∧ ∀ found, updated = some found →
        row.deletedAt = none ∧ found = set.on row ∧ db' = apply (.updateSecret id set) db := by
  refine serially_execute fun view updated _ hparts hupdated => ?_
  have hpart := hparts (.secret id) (List.mem_append_left _ hheld)
  have hfind : view.secrets.find? (fun row => row.id = id && row.deletedAt.isNone) =
      if row.deletedAt.isNone then some row else none := find_isActiveId hrows hpart
  have hfilter : view.secrets.filter (fun row => row.id = id && row.deletedAt.isNone) =
      [row].filter fun row => row.deletedAt.isNone := filter_isActiveId hrows hpart
  rw [hfind] at hupdated
  refine ⟨fun l hl => List.mem_append_left _ hl, fun found hfound => ?_⟩
  rw [hfound] at hupdated
  obtain ⟨old, hold, rfl⟩ := Option.map_eq_some_iff.mp (Except.ok.inj hupdated)
  split at hold
  · rename_i hactive
    cases hold
    have hid : row.id = id := by
      have hmem : row ∈ db.secretRows id := hrows ▸ List.mem_singleton_self row
      exact of_decide_eq_true (List.mem_filter.mp hmem).2
    refine ⟨Option.isNone_iff_eq_none.mp hactive, rfl, ?_⟩
    have hone : [row].filter (fun row => row.deletedAt.isNone) = [row] := by simp [hactive]
    rw [hfilter, hone, List.map_singleton, hid]
    rfl
  · cases hold

theorem secretRows_bare {db db' : Db wrapper} (h : bare db' = bare db) (id : Uuid) :
    db'.secretRows id = db.secretRows id := by
  change (bare db').secretRows id = (bare db).secretRows id
  rw [h]

theorem eq_encode_of_valid {value : JsString} {plaintext : Bytes}
    (h : validateSecretValue value = .ok plaintext) : plaintext = Utf8.encode value := by
  simp only [validateSecretValue] at h
  split at h
  · cases h
  · exact (Except.ok.inj h).symm

/-- **A new version appends its value**, if it commits: the version that the writer has read is
then still the current one. -/
theorem serially_writeVersion (hrely : ∀ view db, rely view db → Sees view db) {draws : Draws}
    {n : Nat} {userId : Uuid} {before : SecretRow} {input : VersionInput} {action : VersionAction}
    {recordAudit : Bool} (h : Implements platform.aead db vault) (horg : before.orgId = db.orgId)
    (hknown : Known db before.secret) :
    Serially store rely (writeVersion platform draws n userId before input action recordAudit :
      TransactionM wrapper _) held db fun metadata held' db' => (∀ l ∈ held, l ∈ held') ∧
        Wrote platform.aead db vault before.secret (toWellFormed input.value) metadata db' := by
  obtain ⟨row, hrow, hlater⟩ := hknown
  have hid : row.id = before.secret.id := hlater.id
  have hrows := h.secretRows hrow
  have hlength := h.current row hrow
  have hle := hlater.currentVersion
  rw [hid] at hrows hlength
  unfold writeVersion
  refine serially_bind (serially_attempt fun plaintext hplaintext => ?_)
  refine serially_bind (serially_checkedOr fun notes => ?_)
  refine serially_bind (serially_attempt fun changeNote _ => ?_)
  refine serially_bind ((serially_encrypt hrely ?_).mono fun encrypted held₁ db₁ h₁ => ?_)
  · rw [contextOf, horg]
  obtain ⟨hheld₁, keys, rfl, hkeys, hsealed⟩ := h₁
  refine serially_bind (serially_attempt fun storedNote _ => ?_)
  refine serially_bind ((serially_insertVersion (h.withKeys hkeys) hrow hlater.id
    (Nat.le_add_left _ _) (by dsimp only [newVersion]; omega)).mono fun _ held₂ db₂ h₂ => ?_)
  obtain ⟨hheld₂, htaken, hnumber, rfl⟩ := h₂
  refine serially_bind (serially_attempt fun storedNotes _ => ?_)
  have hrows' : (apply (.insertSecretVersion
      (newVersion before.secret userId storedNote draws.now encrypted))
      { db with keys := keys }).secretRows before.secret.id = [row] := hrows
  refine serially_bind ((serially_updateSecretRow hrows' htaken).mono
    fun updated held₃ db₃ h₃ => ?_)
  obtain ⟨hheld₃, hupdated⟩ := h₃
  cases updated with
  | none => exact serially_fail
  | some found =>
    obtain ⟨hactive, rfl, rfl⟩ := hupdated found rfl
    refine serially_bind (serially_replaceTags.mono fun _ held₄ db₄ h₄ => ?_)
    obtain ⟨hheld₄, hbare₄, htags₄⟩ := h₄
    refine serially_bind ((serially_noting (emits_doIf (emits_record (fun _ _ => rfl) _ _))).mono
      fun _ held₅ db₅ h₅ => ?_)
    obtain ⟨hheld₅, hbare₅, htags₅⟩ := h₅
    have hbare := hbare₅.trans hbare₄
    have hfinal : db₅.secretRows before.secret.id = [SecretSet.on
        { currentVersion := some (before.secret.currentVersion + 1), notes := some storedNotes,
          updatedAt := draws.now } row] := by
      rw [secretRows_bare hbare, secretRows_updateSecret, if_pos rfl]
      exact congrArg _ hrows
    rw [SecretSet.on_id, hid]
    refine serially_bind ((serially_metadataRow hfinal
      (hheld₅ _ (hheld₄ _ (hheld₃ _ htaken)))).mono fun after held₆ db₆ h₆ => serially_ok ?_)
    obtain ⟨rfl, rfl, hafter⟩ := h₆
    refine ⟨fun l hl => hheld₅ _ (hheld₄ _ (hheld₃ _ (hheld₂ _ (hheld₁ _ hl)))), ?_⟩
    have hnext := Nat.succ_inj.mp hnumber
    obtain rfl := eq_encode_of_valid hplaintext
    have hencrypted : encryptedOf (newVersion before.secret userId storedNote draws.now
        encrypted) = encrypted := by
      rw [encryptedOf, newVersion, ← algorithm_of_sealed hsealed]
    refine ⟨⟨row, hrow, hlater, hactive⟩, hnext.symm, ?_, ?_, ?_, ?_, ?_,
      ⟨keys, _, _, hbare, hkeys, rfl, rfl, rfl⟩, fun id hother => ?_, ?_⟩
    · rw [metadataFromRow, hafter]
      exact hid
    · rw [metadataFromRow, hafter]
      exact hlater.projectId
    · rw [metadataFromRow, hafter]
      exact hlater.environmentId
    · rw [metadataFromRow, hafter]
      exact hlater.key
    · rw [metadataFromRow, hafter]
      rfl
    · rw [Db.tagsOf, htags₅]
      exact htags₄ id (hid.symm ▸ hother)
    · rw [← hid]
      refine (implements_withVersion h hkeys hrow hlater.id.symm ?_ rfl (isWellFormed_toWellFormed _)
        ?_).of_bare hbare
      · rw [hid]
        exact hnumber
      · rw [Utf8.encode_toWellFormed, hencrypted, contextOf_congr hid hlater.projectId hlater.environmentId, ← horg]
        exact hsealed

/-! ## Creation -/

/-- What a program finds and writes leaves the organization, the data keys and the secrets known
before. -/
structure Grows (db db' : Db wrapper) : Prop where
  orgId : db'.orgId = db.orgId
  keys : db.keys.Extends db'.keys
  known : ∀ before, Known db before → Known db' before

theorem Grows.refl (db : Db wrapper) : Grows db db := ⟨rfl, .refl _, fun _ h => h⟩

theorem Grows.trans {db₁ db₂ db₃ : Db wrapper} (h : Grows db₁ db₂) (h' : Grows db₂ db₃) :
    Grows db₁ db₃ :=
  ⟨h'.orgId.trans h.orgId, h.keys.trans h'.keys,
    fun before hbefore => h'.known before (h.known before hbefore)⟩

theorem IsLater.refl (row : Secret) : IsLater row row := ⟨rfl, rfl, rfl, rfl, Nat.le_refl _⟩

theorem IsLater.trans {a b c : Secret} (h : IsLater a b) (h' : IsLater b c) : IsLater a c :=
  ⟨h'.id.trans h.id, h'.projectId.trans h.projectId, h'.environmentId.trans h.environmentId,
    h'.key.trans h.key, h.currentVersion.trans h'.currentVersion⟩

theorem known_of_mem {row : Secret} (h : row ∈ db.secrets) : Known db row := ⟨row, h, .refl row⟩

theorem grows_of_secrets {db' : Db wrapper} (horg : db'.orgId = db.orgId)
    (hkeys : db.keys.Extends db'.keys)
    (h : ∀ row ∈ db.secrets, ∃ row' ∈ db'.secrets, IsLater row row') : Grows db db' := by
  refine ⟨horg, hkeys, fun before ⟨row, hrow, hlater⟩ => ?_⟩
  obtain ⟨row', hrow', hnext⟩ := h row hrow
  exact ⟨row', hrow', hlater.trans hnext⟩

theorem grows_of_bare {db' : Db wrapper} (h : bare db' = bare db) : Grows db db' := by
  have hgrows : Grows (bare db) (bare db') := h ▸ .refl _
  exact ⟨hgrows.orgId, hgrows.keys, hgrows.known⟩

theorem grows_updateSecret {id : Uuid} {set : SecretSet}
    (hset : ∀ row ∈ db.secrets, row.id = id → row.currentVersion ≤ (set.on row).currentVersion) :
    Grows db (apply (.updateSecret id set) db) := by
  refine grows_of_secrets rfl (.refl _) fun row hrow => ?_
  by_cases hid : row.id = id
  · exact ⟨set.on row, mem_updateWhere.mpr ⟨row, hrow, .inl ⟨decide_eq_true hid, rfl⟩⟩,
      rfl, rfl, rfl, rfl, hset row hrow hid⟩
  · exact ⟨row, mem_updateWhere.mpr ⟨row, hrow, .inr ⟨decide_eq_false hid, rfl⟩⟩, .refl row⟩

theorem grows_insertSecret (row : Secret) : Grows db (apply (.insertSecret row) db) :=
  grows_of_secrets rfl (.refl _) fun row hrow => ⟨row, List.mem_append_left _ hrow, .refl row⟩

theorem Wrote.grows {before : Secret} {value : JsString} {metadata : SecretMetadata}
    {db' : Db wrapper} (hwrote : Wrote aead db vault before value metadata db')
    (h : Implements aead db vault) : Grows db db' := by
  obtain ⟨keys, version, set, hbare, hkeys, hid, hset, -⟩ := hwrote.tables
  have hupdate : Grows (apply (.insertSecretVersion version) { db with keys := keys })
      (withVersion db keys version set) := by
    refine grows_updateSecret fun row hrow heq => ?_
    have hcurrent := h.current row hrow
    rw [heq, hid, hwrote.current] at hcurrent
    simp only [SecretSet.on, hset, Option.getD_some]
    omega
  have hgrows : Grows db (withVersion db keys version set) :=
    ⟨hupdate.orgId, hkeys, hupdate.known⟩
  exact hgrows.trans (grows_of_bare hbare)

/-- The row that a creation gives its first version: a deleted one, or a new one. -/
inductive Prepared (projectId environmentId : Uuid) (key : JsString) (before : Secret)
    (db : Db wrapper) : Db wrapper → Prop
  | recovered (now : Timestamp) (hmem : before ∈ db.secrets)
      (hdeleted : isRecoverable projectId environmentId key before = true) :
      Prepared projectId environmentId key before db
        (apply (.updateSecret before.id { deletedAt := some none, updatedAt := now }) db)
  | inserted (id : Uuid) (notes : Option JsString) (now : Timestamp) (hkey : IsKey key)
      (hbefore : before = newSecret id projectId environmentId key notes now)
      (hfresh : ∀ row ∈ db.secrets, row.id ≠ before.id ∧ row.slot ≠ before.slot) :
      Prepared projectId environmentId key before db (apply (.insertSecret before) db)

section

variable {projectId environmentId : Uuid} {key : JsString} {before : Secret} {db₁ : Db wrapper}

theorem Prepared.grows (h : Prepared projectId environmentId key before db db₁) :
    Grows db db₁ := by
  cases h with
  | recovered now hmem hdeleted => exact grows_updateSecret fun _ _ _ => Nat.le_refl _
  | inserted id notes now hkey hbefore hfresh => exact grows_insertSecret before

theorem Prepared.implements (h : Prepared projectId environmentId key before db db₁)
    (himplements : Implements aead db vault) : Implements aead db₁ vault := by
  cases h with
  | recovered now hmem hdeleted => exact himplements.update rfl
  | inserted id notes now hkey hbefore hfresh =>
    subst hbefore
    exact himplements.insert hfresh hkey rfl

theorem Prepared.known (h : Prepared projectId environmentId key before db db₁) :
    Known db₁ before := by
  cases h with
  | recovered now hmem hdeleted =>
    exact (grows_updateSecret fun _ _ _ => Nat.le_refl _).known before (known_of_mem hmem)
  | inserted id notes now hkey hbefore hfresh =>
    exact known_of_mem (List.mem_append_right _ (List.mem_singleton_self _))

theorem Prepared.place (h : Prepared projectId environmentId key before db db₁) :
    before.projectId = projectId ∧ before.environmentId = environmentId ∧ before.key = key := by
  cases h with
  | recovered now hmem hdeleted =>
    simp only [isRecoverable, Bool.and_eq_true, decide_eq_true_eq] at hdeleted
    exact ⟨hdeleted.1.1.1.1.1, hdeleted.1.1.1.1.2, hdeleted.1.1.1.2⟩
  | inserted id notes now hkey hbefore hfresh =>
    rw [hbefore]
    exact ⟨rfl, rfl, rfl⟩

end

/-- The key of an input as it is stored. -/
def IsKeyOf (input : SetSecretInput) (key : JsString) : Prop :=
  ∃ normalized, validateSecretKey input.key input.allowNonConformingKey = .ok normalized ∧
    storedText normalized = .ok key

/-- A creation: a prepared row and its next version. -/
def Created (aead : Aead) (db : Db wrapper) (vault : Vault) (projectId environmentId : Uuid)
    (key value : JsString) (metadata : SecretMetadata) (db' : Db wrapper) : Prop :=
  ∃ before db₁, Prepared projectId environmentId key before db db₁ ∧
    Wrote aead db₁ vault before value metadata db'

theorem Created.grows {projectId environmentId : Uuid} {key value : JsString}
    {metadata : SecretMetadata} {db' : Db wrapper}
    (h : Created aead db vault projectId environmentId key value metadata db')
    (himplements : Implements aead db vault) : Grows db db' := by
  obtain ⟨before, db₁, hprepared, hwrote⟩ := h
  exact hprepared.grows.trans (hwrote.grows (hprepared.implements himplements))

/-- What reads leaves everything. -/
theorem serially_read {α : Type} {p : TransactionM wrapper α} (h : Emits (fun _ => False) p) :
    Serially store rely p held db fun _ held' db' => (∀ l ∈ held, l ∈ held') ∧ db' = db :=
  serially_of_emits h fun _ hw _ => hw.elim

/-- A lookup that locks what it finds: the row is found at the commit too. -/
theorem serially_lookup (hrely : ∀ view db, rely view db → Sees view db) (p : Secret → Bool) :
    Serially store rely (Prog.selectForUpdate
        (fun db : Db wrapper => (db.secrets.filter p).map fun row => .secret row.id)
        fun db => (db.secrets.find? p).map (selectSecret platform db) : TransactionM wrapper _)
      held db fun found held' db' => (∀ l ∈ held, l ∈ held') ∧ db' = db ∧
        ∀ row, found = some row → row.orgId = db.orgId ∧ .secret row.secret.id ∈ held' ∧
          row.secret ∈ db.secrets ∧ p row.secret = true := by
  refine serially_selectForUpdate fun view hview hparts => ⟨fun l hl => List.mem_append_left _ hl,
    rfl, fun row hrow => ?_⟩
  obtain ⟨secret, hfind, rfl⟩ := Option.map_eq_some_iff.mp hrow
  have hmem := List.mem_of_find?_eq_some hfind
  have hlock : Lock.secret secret.id ∈ held ++ (view.secrets.filter p).map
      fun row => .secret row.id :=
    List.mem_append_right _ (List.mem_map.mpr
      ⟨secret, List.mem_filter.mpr ⟨hmem, List.find?_some hfind⟩, rfl⟩)
  obtain ⟨hsecrets, -, -⟩ := Contents.secret.inj (hparts _ hlock)
  have hrows : secret ∈ db.secretRows secret.id := by
    rw [hsecrets]
    exact List.mem_filter.mpr ⟨hmem, decide_eq_true rfl⟩
  exact ⟨(hrely _ _ hview).2, hlock, (List.mem_filter.mp hrows).1, List.find?_some hfind⟩

/-- The statement that recovers a row. -/
theorem serially_recover {id : Uuid} {set : SecretSet} {row : Secret} (hheld : .secret id ∈ held)
    (hrows : db.secretRows id = [row]) :
    Serially store rely (updateSecrets (·.id = id) set : TransactionM wrapper _) held db
      fun _ held' db' => (∀ l ∈ held, l ∈ held') ∧ db' = apply (.updateSecret id set) db := by
  refine serially_execute fun view _ _ hparts _ => ⟨fun l hl => List.mem_append_left _ hl, ?_⟩
  obtain ⟨hsecrets, -, -⟩ := Contents.secret.inj (hparts _ (List.mem_append_left _ hheld))
  have hfilter : (view.secrets.filter fun row => row.id = id) = [row] := hsecrets.symm.trans hrows
  have hmem : row ∈ db.secretRows id := hrows ▸ List.mem_singleton_self row
  have hid : row.id = id := of_decide_eq_true (List.mem_filter.mp hmem).2
  rw [hfilter, List.map_singleton, hid]
  rfl

/-- The statement that inserts a row: its id and its key are new at the commit too. -/
theorem serially_insertSecret (hrely : ∀ view db, rely view db → Sees view db) {row : Secret} :
    Serially store rely (insertSecret row : TransactionM wrapper _) held db
      fun inserted held' db' => (∀ l ∈ held, l ∈ held') ∧ db' = apply (.insertSecret row) db ∧
        inserted.orgId = db.orgId ∧ inserted.secret = row ∧
          ∀ other ∈ db.secrets, other.id ≠ row.id ∧ other.slot ≠ row.slot := by
  refine serially_execute fun view inserted hview hparts hinsert =>
    ⟨fun l hl => List.mem_append_left _ hl, rfl, ?_⟩
  split at hinsert
  · cases hinsert
  · rename_i hfree
    obtain rfl := Except.ok.inj hinsert
    have hnone : ∀ other ∈ view.secrets, other.id ≠ row.id ∧ other.slot ≠ row.slot := by
      intro other hother
      by_contra hsame
      refine hfree (List.any_eq_true.mpr ⟨other, hother, ?_⟩)
      rw [Bool.or_eq_true, decide_eq_true_eq, decide_eq_true_eq]
      by_contra hneither
      exact hsame (not_or.mp hneither)
    obtain ⟨hsecrets, -, -⟩ := Contents.secret.inj (hparts (.secret row.id)
      (List.mem_append_right _ (List.mem_cons_self ..)))
    have hslots := Contents.slot.inj (hparts (.slot row.slot)
      (List.mem_append_right _ (List.mem_cons_of_mem _ (List.mem_cons_self ..))))
    refine ⟨(hrely _ _ hview).2, rfl, fun other hother => ⟨fun hid => ?_, fun hslot => ?_⟩⟩
    · have hmem : other ∈ view.secretRows row.id :=
        hsecrets ▸ List.mem_filter.mpr ⟨hother, decide_eq_true hid⟩
      exact (hnone other (List.mem_filter.mp hmem).1).1 hid
    · have hmem : other.id ∈ view.slotIds row.slot := by
        rw [← hslots]
        exact List.mem_map_of_mem (List.mem_filter.mpr ⟨hother, decide_eq_true hslot⟩)
      obtain ⟨taken, htaken, -⟩ := List.mem_map.mp hmem
      obtain ⟨htaken, heq⟩ := List.mem_filter.mp htaken
      exact (hnone taken htaken).2 (of_decide_eq_true heq)

/-- **A creation gives a recovered or a new secret its next version.** -/
theorem serially_create (hrely : ∀ view db, rely view db → Sees view db) {draws : Draws} {n : Nat}
    {userId projectId environmentId : Uuid} {input : SetSecretInput}
    {authorized recordAudit : Bool} (h : Implements platform.aead db vault) :
    Serially store rely (create platform draws n userId projectId environmentId input authorized
      recordAudit : TransactionM wrapper _) held db fun metadata held' db' =>
        (∀ l ∈ held, l ∈ held') ∧ ∃ key, IsKeyOf input key ∧
          Created platform.aead db vault projectId environmentId key (toWellFormed input.value)
            metadata db' := by
  unfold create
  refine serially_bind ((serially_read (emits_secretEnvironment _ _)).mono
    fun scope held₁ db₁ h₁ => ?_)
  obtain ⟨hheld₁, rfl⟩ := h₁
  refine serially_bind ((serially_read (emits_doIf (emits_authorizeUser _ _ _ _))).mono
    fun _ held₂ db₂ h₂ => ?_)
  obtain ⟨hheld₂, rfl⟩ := h₂
  refine serially_bind (serially_attempt fun normalized hnormalized => ?_)
  refine serially_bind (serially_attempt fun notes _ => ?_)
  refine serially_bind (serially_attempt fun changeNote _ => ?_)
  refine serially_bind (serially_attempt fun key hkey => ?_)
  have hstored : IsKeyOf input key := ⟨normalized, hnormalized, hkey⟩
  refine serially_bind ((serially_lookup hrely _).mono fun found held₃ db₃ h₃ => ?_)
  obtain ⟨hheld₃, rfl, hfound⟩ := h₃
  have hheld : ∀ l ∈ held, l ∈ held₃ := fun l hl => hheld₃ _ (hheld₂ _ (hheld₁ _ hl))
  cases found with
  | some before =>
    obtain ⟨horg, hlock, hmem, hdeleted⟩ := hfound before rfl
    refine serially_bind ((serially_recover hlock (h.secretRows hmem)).mono
      fun _ held₄ db₄ h₄ => ?_)
    obtain ⟨hheld₄, rfl⟩ := h₄
    have hprepared := Prepared.recovered draws.now hmem hdeleted
    refine (serially_writeVersion hrely (hprepared.implements h) horg hprepared.known).mono
      fun metadata held₅ db₅ h₅ => ?_
    exact ⟨fun l hl => h₅.1 _ (hheld₄ _ (hheld _ hl)), key, hstored, before.secret, _, hprepared,
      h₅.2⟩
  | none =>
    refine serially_mapError (serially_bind (serially_attempt fun storedNotes _ => ?_))
    refine serially_bind ((serially_insertSecret hrely).mono fun inserted held₄ db₄ h₄ => ?_)
    obtain ⟨hheld₄, rfl, horg, hsecret, hfresh⟩ := h₄
    have hprepared : Prepared projectId environmentId key inserted.secret db₃
        (apply (.insertSecret inserted.secret) db₃) :=
      .inserted (draws.uuid n) storedNotes draws.now (isKey_of_stored hnormalized hkey) hsecret
        (hsecret ▸ hfresh)
    rw [← hsecret]
    refine (serially_writeVersion hrely (hprepared.implements h) horg hprepared.known).mono
      fun metadata held₅ db₅ h₅ => ?_
    exact ⟨fun l hl => h₅.1 _ (hheld₄ _ (hheld _ hl)), key, hstored, inserted.secret, _, hprepared,
      h₅.2⟩

end

end Himitsu.Secrets
