import Himitsu.Library.Json
import Himitsu.Library.Utf8

/-!
# Envelope encryption

Model of `packages/crypto/src/index.ts`: additional data, key wrapping, the data-key store and
one sequential call of `encrypt` and `decrypt`.

* `Aead` — AES-256-GCM of the platform, as far as the code relies on it.
* `KeyWrapper`, `localMasterKey` — wrapping of data keys, and the wrapper of this package.
* `DataKeyStore` — the key records of the organizations; a version belongs to one record, and
  every wrapped key was made by the wrapper.
* `Sealed` — what `encrypt` gives: the value sealed under the data key of its version.

Principal results: `getActive_activate`, `keyOf_activate` — a new key becomes the active one and
no key of an older version changes; `decrypt_of_sealed` — a sealed value decrypts under its
context.
-/

set_option autoImplicit false

namespace Himitsu.Crypto

open JsString

abbrev Bytes := List UInt8

def ALGORITHM : JsString := ofAscii "aes-256-gcm"

def KEY_BYTES : Nat := 32

def NONCE_BYTES : Nat := 12

def TAG_BYTES : Nat := 16

inductive CryptoErrorCode where
  | invalidConfiguration
  | decryptionFailed
  | invalidContext
  deriving DecidableEq, Repr

structure CryptoError where
  code : CryptoErrorCode
  message : JsString
  deriving DecidableEq, Repr

/-- `createCipheriv` and `createDecipheriv` with a key, a nonce and additional data: sealing
gives a ciphertext and a tag, and opening what was sealed gives the plaintext. -/
structure Aead where
  sealBytes : Bytes → Bytes → Bytes → Bytes → Bytes × Bytes
  openBytes : Bytes → Bytes → Bytes → Bytes × Bytes → Option Bytes
  tag_length : ∀ key nonce aad plaintext,
    (sealBytes key nonce aad plaintext).2.length = TAG_BYTES
  open_seal : ∀ key nonce aad plaintext,
    openBytes key nonce aad (sealBytes key nonce aad plaintext) = some plaintext

/-- `randomBytes(KEY_BYTES)`. -/
structure DataKey where
  bytes : Bytes
  length_eq : bytes.length = KEY_BYTES

/-- `randomBytes(NONCE_BYTES)`. -/
structure Nonce where
  bytes : Bytes
  length_eq : bytes.length = NONCE_BYTES

/-! ## Additional data -/

structure SecretEncryptionContext where
  orgId : JsString
  projectId : JsString
  environmentId : JsString
  secretId : JsString
  recordVersion : Nat
  deriving DecidableEq, Repr

def dataKeyAad (orgId : JsString) (keyVersion : Nat) : Bytes :=
  Utf8.encode (Json.stringify (.array
    [.string (ofAscii "himitsu-dek"), .number (ofNat 1), .string orgId,
      .number (ofNat keyVersion)]))

/-- `Number.MAX_SAFE_INTEGER`. -/
def MAX_SAFE_INTEGER : Nat := 2 ^ 53 - 1

/-- The check of `secretAad`. -/
def SecretEncryptionContext.isValid (context : SecretEncryptionContext) : Bool :=
  !context.orgId.isEmpty && !context.projectId.isEmpty && !context.environmentId.isEmpty &&
    !context.secretId.isEmpty && decide (context.recordVersion ≤ MAX_SAFE_INTEGER) &&
    decide (1 ≤ context.recordVersion)

def invalidContext : CryptoError :=
  ⟨.invalidContext, ofAscii "Encryption context is incomplete or invalid"⟩

/-- The encoding of `secretAad` for a context that passes its check. -/
def contextBytes (context : SecretEncryptionContext) : Bytes :=
  Utf8.encode (Json.stringify (.array
    [.string (ofAscii "himitsu-secret"), .number (ofNat 1), .string context.orgId,
      .string context.projectId, .string context.environmentId, .string context.secretId,
      .number (ofNat context.recordVersion)]))

def secretAad (context : SecretEncryptionContext) : Except CryptoError Bytes :=
  if context.isValid then .ok (contextBytes context) else .error invalidContext

/-! ## Key wrapping -/

structure WrappedDataKey where
  kekId : JsString
  ciphertext : Bytes
  nonce : Bytes
  authTag : Bytes
  deriving DecidableEq, Repr

/-- A `KeyWrapper`; a wrapped key unwraps under the organization and version it was wrapped for.
`wrap` takes its randomness as an argument. -/
structure KeyWrapper where
  id : JsString
  wrap : JsString → Nat → DataKey → Nonce → WrappedDataKey
  unwrap : JsString → Nat → WrappedDataKey → Option DataKey
  unwrap_wrap : ∀ orgId keyVersion dataKey nonce,
    unwrap orgId keyVersion (wrap orgId keyVersion dataKey nonce) = some dataKey

/-- `LocalMasterKey.unwrap`. -/
def unwrapLocally (aead : Aead) (id : JsString) (masterKey : DataKey) (orgId : JsString)
    (keyVersion : Nat) (wrapped : WrappedDataKey) : Option DataKey :=
  if wrapped.kekId = id then
    match aead.openBytes masterKey.bytes wrapped.nonce (dataKeyAad orgId keyVersion)
        (wrapped.ciphertext, wrapped.authTag) with
    | some key => if h : key.length = KEY_BYTES then some ⟨key, h⟩ else none
    | none => none
  else none

/-- `LocalMasterKey`. -/
def localMasterKey (aead : Aead) (id : JsString) (masterKey : DataKey) : KeyWrapper where
  id := id
  wrap orgId keyVersion dataKey nonce :=
    let wrapped := aead.sealBytes masterKey.bytes nonce.bytes (dataKeyAad orgId keyVersion)
      dataKey.bytes
    ⟨id, wrapped.1, nonce.bytes, wrapped.2⟩
  unwrap := unwrapLocally aead id masterKey
  unwrap_wrap orgId keyVersion dataKey nonce := by
    simp only [unwrapLocally, if_true, aead.open_seal, dataKey.length_eq, dite_true]

/-! ## The data-key store -/

structure DataKeyRecord where
  orgId : JsString
  version : Nat
  active : Bool
  wrapped : WrappedDataKey
  deriving DecidableEq, Repr

/-- The organization and version of a record, which identify it. -/
def DataKeyRecord.ident (record : DataKeyRecord) : JsString × Nat := (record.orgId, record.version)

/-- The data key of a record. -/
def DataKeyRecord.key (record : DataKeyRecord) (wrapper : KeyWrapper) : Option DataKey :=
  wrapper.unwrap record.orgId record.version record.wrapped

structure DataKeyStore (wrapper : KeyWrapper) where
  records : List DataKeyRecord
  nodup : (records.map (·.ident)).Nodup
  unwraps : ∀ record ∈ records, (record.key wrapper).isSome = true

namespace DataKeyStore

variable {wrapper : KeyWrapper} (store : DataKeyStore wrapper)

def empty : DataKeyStore wrapper := ⟨[], by simp, by simp⟩

def getActive (orgId : JsString) : Option DataKeyRecord :=
  store.records.find? fun record => record.orgId = orgId ∧ record.active

def getVersion (orgId : JsString) (version : Nat) : Option DataKeyRecord :=
  store.records.find? fun record => record.orgId = orgId ∧ record.version = version

/-- `COALESCE(max(version), 0) + 1` of the organization. -/
def nextVersion (orgId : JsString) : Nat :=
  ((store.records.filter (·.orgId = orgId)).map (·.version)).foldr max 0 + 1

def retire (orgId : JsString) (record : DataKeyRecord) : DataKeyRecord :=
  if record.orgId = orgId then { record with active := false } else record

theorem lt_nextVersion {record : DataKeyRecord} {orgId : JsString} (h : record ∈ store.records)
    (horg : record.orgId = orgId) : record.version < store.nextVersion orgId := by
  have hle : ∀ (versions : List Nat) (v : Nat), v ∈ versions → v ≤ versions.foldr max 0 := by
    intro versions v hv
    induction versions with
    | nil => cases hv
    | cons w versions ih =>
      rcases List.mem_cons.mp hv with rfl | hv
      · exact le_max_left _ _
      · exact (ih hv).trans (le_max_right _ _)
  exact Nat.lt_succ_of_le (hle _ _ (List.mem_map_of_mem (by simpa using ⟨h, horg⟩)))

/-- The record that `#activate` inserts. -/
def newRecord (orgId : JsString) (dataKey : DataKey) (nonce : Nonce) : DataKeyRecord :=
  ⟨orgId, store.nextVersion orgId, true,
    wrapper.wrap orgId (store.nextVersion orgId) dataKey nonce⟩

theorem retire_ident (orgId : JsString) (record : DataKeyRecord) :
    (retire orgId record).ident = record.ident := by
  unfold retire
  split <;> rfl

theorem retire_key (orgId : JsString) (record : DataKeyRecord) :
    (retire orgId record).key wrapper = record.key wrapper := by
  unfold retire
  split <;> rfl

/-- `#activate`: the active key is retired, and a new one takes the next version. -/
def activate (orgId : JsString) (dataKey : DataKey) (nonce : Nonce) : DataKeyStore wrapper where
  records := store.records.map (retire orgId) ++ [store.newRecord orgId dataKey nonce]
  nodup := by
    rw [List.map_append, List.map_map, List.map_singleton]
    have hmap : store.records.map ((·.ident) ∘ retire orgId) = store.records.map (·.ident) :=
      List.map_congr_left fun record _ => retire_ident orgId record
    rw [hmap]
    refine store.nodup.append (List.nodup_singleton _) ?_
    intro ident hident hnew
    obtain ⟨record, hrecord, rfl⟩ := List.mem_map.mp hident
    have heq := Prod.mk.inj (List.mem_singleton.mp hnew)
    exact absurd heq.2 (Nat.ne_of_lt (store.lt_nextVersion hrecord heq.1))
  unwraps record h := by
    rcases List.mem_append.mp h with h | h
    · obtain ⟨old, hold, rfl⟩ := List.mem_map.mp h
      rw [retire_key]
      exact store.unwraps old hold
    · rw [List.mem_singleton.mp h, DataKeyRecord.key, newRecord, wrapper.unwrap_wrap]
      rfl

/-- `ensureActive`: the store after it, and the active record. -/
def ensureActive (orgId : JsString) (dataKey : DataKey) (nonce : Nonce) :
    DataKeyStore wrapper × DataKeyRecord :=
  match store.getActive orgId with
  | some record => (store, record)
  | none => (store.activate orgId dataKey nonce, store.newRecord orgId dataKey nonce)

/-- `rotate`: the store after it, and the new record. -/
def rotate (orgId : JsString) (dataKey : DataKey) (nonce : Nonce) :
    DataKeyStore wrapper × DataKeyRecord :=
  (store.activate orgId dataKey nonce, store.newRecord orgId dataKey nonce)

/-- The data key of a version. -/
def keyOf (orgId : JsString) (version : Nat) : Option DataKey :=
  (store.getVersion orgId version).bind (·.key wrapper)

theorem getVersion_of_mem {record : DataKeyRecord} (h : record ∈ store.records) :
    store.getVersion record.orgId record.version = some record := by
  unfold getVersion
  cases hfind : store.records.find? fun r =>
      decide (r.orgId = record.orgId ∧ r.version = record.version) with
  | none =>
    rw [List.find?_eq_none] at hfind
    exact absurd (hfind record h) (by simp)
  | some other =>
    have hmem := List.mem_of_find?_eq_some hfind
    have hsome := List.find?_some hfind
    simp only [decide_eq_true_eq] at hsome
    have hident : other.ident = record.ident := Prod.ext hsome.1 hsome.2
    rw [List.inj_on_of_nodup_map store.nodup hmem h hident]

theorem getVersion_mem {orgId : JsString} {version : Nat} {record : DataKeyRecord}
    (h : store.getVersion orgId version = some record) :
    record ∈ store.records ∧ record.orgId = orgId ∧ record.version = version := by
  have hsome := List.find?_some h
  simp only [decide_eq_true_eq] at hsome
  exact ⟨List.mem_of_find?_eq_some h, hsome⟩

theorem getActive_mem {orgId : JsString} {record : DataKeyRecord}
    (h : store.getActive orgId = some record) : record ∈ store.records ∧ record.orgId = orgId := by
  have hsome := List.find?_some h
  simp only [decide_eq_true_eq] at hsome
  exact ⟨List.mem_of_find?_eq_some h, hsome.1⟩

theorem keyOf_of_mem {record : DataKeyRecord} (h : record ∈ store.records) :
    store.keyOf record.orgId record.version = record.key wrapper := by
  rw [keyOf, store.getVersion_of_mem h]
  rfl

/-- **No key of an older version changes.** -/
theorem keyOf_activate {orgId : JsString} {version : Nat} {key : DataKey}
    (h : store.keyOf orgId version = some key) (org : JsString) (dataKey : DataKey)
    (nonce : Nonce) : (store.activate org dataKey nonce).keyOf orgId version = some key := by
  unfold keyOf at h
  rw [Option.bind_eq_some_iff] at h
  obtain ⟨record, hrecord, hkey⟩ := h
  obtain ⟨hmem, rfl, rfl⟩ := store.getVersion_mem hrecord
  have hident := retire_ident org record
  have hmem' : retire org record ∈ (store.activate org dataKey nonce).records :=
    List.mem_append_left _ (List.mem_map_of_mem hmem)
  have hkeyOf := (store.activate org dataKey nonce).keyOf_of_mem hmem'
  rw [retire_key, hkey] at hkeyOf
  rwa [(Prod.mk.inj hident).1, (Prod.mk.inj hident).2] at hkeyOf

/-- **The new record is in the store with the new key.** -/
theorem newRecord_mem_activate (orgId : JsString) (dataKey : DataKey) (nonce : Nonce) :
    store.newRecord orgId dataKey nonce ∈ (store.activate orgId dataKey nonce).records :=
  List.mem_append_right _ (List.mem_singleton_self _)

theorem ensureActive_spec (orgId : JsString) (dataKey : DataKey) (nonce : Nonce) :
    (store.ensureActive orgId dataKey nonce).2 ∈
        (store.ensureActive orgId dataKey nonce).1.records ∧
      (store.ensureActive orgId dataKey nonce).2.orgId = orgId := by
  unfold ensureActive
  split
  · rename_i record hactive
    exact store.getActive_mem hactive
  · exact ⟨store.newRecord_mem_activate orgId dataKey nonce, rfl⟩

theorem keyOf_ensureActive {orgId : JsString} {version : Nat} {key : DataKey}
    (h : store.keyOf orgId version = some key) (org : JsString) (dataKey : DataKey)
    (nonce : Nonce) : (store.ensureActive org dataKey nonce).1.keyOf orgId version = some key := by
  unfold ensureActive
  split
  · exact h
  · exact store.keyOf_activate h org dataKey nonce

end DataKeyStore

/-! ## Values -/

structure EncryptedSecretValue where
  algorithm : JsString
  keyVersion : Nat
  ciphertext : Bytes
  nonce : Bytes
  authTag : Bytes
  deriving DecidableEq, Repr

/-- The value that sealing under `key` gives. -/
def sealValue (aead : Aead) (keyVersion : Nat) (key : Bytes) (nonce : Nonce)
    (context : SecretEncryptionContext) (plaintext : Bytes) : EncryptedSecretValue :=
  let sealed := aead.sealBytes key nonce.bytes (contextBytes context) plaintext
  ⟨ALGORITHM, keyVersion, sealed.1, nonce.bytes, sealed.2⟩

/-- The check of `decrypt` on the stored metadata. -/
def EncryptedSecretValue.hasValidMetadata (encrypted : EncryptedSecretValue) : Bool :=
  encrypted.algorithm == ALGORITHM && encrypted.nonce.length == NONCE_BYTES &&
    encrypted.authTag.length == TAG_BYTES

def decryptionFailed : CryptoError :=
  ⟨.decryptionFailed, ofAscii "Unable to decrypt secret value"⟩

section

variable (aead : Aead) {wrapper : KeyWrapper} (store : DataKeyStore wrapper)

/-- One call of `encrypt` on a service with an empty cache: the store after it and the value. -/
def encrypt (dataKey : DataKey) (wrapNonce nonce : Nonce) (plaintext : Bytes)
    (context : SecretEncryptionContext) :
    Except CryptoError (DataKeyStore wrapper × EncryptedSecretValue) := do
  let _ ← secretAad context
  let (store', record) := store.ensureActive context.orgId dataKey wrapNonce
  match record.key wrapper with
  | none => .error ⟨.decryptionFailed, ofAscii "Unable to decrypt key material"⟩
  | some key => .ok (store', sealValue aead record.version key.bytes nonce context plaintext)

/-- One call of `decrypt` on a service with an empty cache. -/
def decrypt (encrypted : EncryptedSecretValue) (context : SecretEncryptionContext) :
    Except CryptoError Bytes :=
  if !encrypted.hasValidMetadata then .error decryptionFailed
  else
    match store.keyOf context.orgId encrypted.keyVersion with
    | none => .error decryptionFailed
    | some key => do
      let aad ← secretAad context
      match aead.openBytes key.bytes encrypted.nonce aad
          (encrypted.ciphertext, encrypted.authTag) with
      | none => .error decryptionFailed
      | some plaintext => .ok plaintext

/-- A genuine value: sealed under the data key of its version, in a context that is accepted. -/
def Sealed (encrypted : EncryptedSecretValue) (context : SecretEncryptionContext)
    (plaintext : Bytes) : Prop :=
  context.isValid = true ∧ ∃ key nonce,
    store.keyOf context.orgId encrypted.keyVersion = some key ∧
      encrypted = sealValue aead encrypted.keyVersion key.bytes nonce context plaintext

variable {aead store}

theorem Sealed.hasValidMetadata {encrypted : EncryptedSecretValue}
    {context : SecretEncryptionContext} {plaintext : Bytes}
    (h : Sealed aead store encrypted context plaintext) : encrypted.hasValidMetadata = true := by
  obtain ⟨-, key, nonce, -, hsealed⟩ := h
  rw [hsealed]
  simp [EncryptedSecretValue.hasValidMetadata, sealValue, nonce.length_eq, aead.tag_length]

/-- **A sealed value decrypts under its context.** -/
theorem decrypt_of_sealed {encrypted : EncryptedSecretValue} {context : SecretEncryptionContext}
    {plaintext : Bytes} (h : Sealed aead store encrypted context plaintext) :
    decrypt aead store encrypted context = .ok plaintext := by
  have hmeta := h.hasValidMetadata
  obtain ⟨hvalid, key, nonce, hkey, hsealed⟩ := h
  have hopen : aead.openBytes key.bytes encrypted.nonce (contextBytes context)
      (encrypted.ciphertext, encrypted.authTag) = some plaintext := by
    rw [hsealed]
    exact aead.open_seal _ _ _ _
  simp only [decrypt, hmeta, hkey, secretAad, hvalid, Bool.not_true, Bool.false_eq_true, if_false,
    if_true, bind, Except.bind, hopen]

end

end Himitsu.Crypto
