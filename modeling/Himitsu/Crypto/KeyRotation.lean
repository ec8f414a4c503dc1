import Himitsu.Crypto.KeyCacheSafety
import Himitsu.Crypto.KeyStores

/-!
# Key rotation

Any number of `EnvelopeEncryptionService`s that share one data-key store, each call completing
before the next one begins.

* `loadKey` — one undisturbed call of `#loadKey`.
* `encryptCall`, `decryptCall`, `rotateCall` — one call of a service on an implementation of the
  store.
* `step` — one call of one of the services; `issued` records every envelope.
* `Inv` — the store is numbered, every cache holds genuine keys, and every envelope is sealed
  under a key of the store.

Principal result: `rotation_safe` — over every run the versions are `1..n` with `n` active, no
stored key changes or becomes active again, and every envelope decrypts on every service.
-/

set_option autoImplicit false

namespace Himitsu.Crypto.Rotation

open JsString Runs

/-! ## Calls -/

/-- One service: its options, its key buffers and its cache. -/
structure Service where
  config : CacheConfig
  heap : List Bytes
  cache : Cache

def Service.fresh (config : CacheConfig) : Service := ⟨config, [], []⟩

/-- `#loadKey`: the service after it and the content of the buffer it returns. -/
def loadKey (wrapper : KeyWrapper) (service : Service) (record : DataKeyRecord) (now : ℚ) :
    Option (Service × Bytes) :=
  let load := startLoad service.heap service.cache record now
  match load.2.2 with
  | .haveKey _ buffer =>
    (load.1[buffer]?).map fun key => ({ service with heap := load.1, cache := load.2.1 }, key)
  | _ => do
    let key ← record.key wrapper
    let load := finishLoad service.config load.1 load.2.1 record now key
    some ({ service with heap := load.1, cache := load.2.1 }, key.bytes)

/-- `clearKeyCache`. -/
def Service.clearKeyCache (service : Service) : Service :=
  { service with heap := (service.cache.map (·.2.buffer)).foldl wipe service.heap, cache := [] }

section

variable {S : Type} (impl : StoreImpl S) (wrapper : KeyWrapper) (aead : Aead)

def encryptCall (store : S) (service : Service) (now : ℚ) (plaintext : Bytes)
    (context : SecretEncryptionContext) (dataKey : DataKey) (wrapNonce nonce : Nonce) :
    Option (S × Service × EncryptedSecretValue) :=
  if context.isValid then do
    let (store, record) ← impl.ensureActive store context.orgId
      (keyFactory wrapper context.orgId dataKey wrapNonce)
    let (service, key) ← loadKey wrapper service record now
    some (store, service, sealValue aead record.version key nonce context plaintext)
  else none

def decryptCall (store : S) (service : Service) (now : ℚ) (encrypted : EncryptedSecretValue)
    (context : SecretEncryptionContext) : Option (Service × Bytes) :=
  if encrypted.hasValidMetadata then do
    let record ← impl.getVersion store context.orgId encrypted.keyVersion
    let (service, key) ← loadKey wrapper service record now
    if context.isValid then do
      let plaintext ← aead.openBytes key encrypted.nonce (contextBytes context)
        (encrypted.ciphertext, encrypted.authTag)
      some (service, plaintext)
    else none
  else none

def rotateCall (store : S) (orgId : JsString) (dataKey : DataKey) (wrapNonce : Nonce) :
    Option (S × Nat) :=
  if orgId.isEmpty then none
  else (impl.rotate store orgId (keyFactory wrapper orgId dataKey wrapNonce)).map fun reply =>
    (reply.1, reply.2.version)

/-! ## Runs -/

structure Issued where
  context : SecretEncryptionContext
  plaintext : Bytes
  envelope : EncryptedSecretValue

structure System (S : Type) where
  store : S
  services : List Service
  issued : List Issued

def System.initial (configs : List CacheConfig) : System S :=
  ⟨impl.empty, configs.map .fresh, []⟩

inductive Operation where
  | encrypt (plaintext : Bytes) (context : SecretEncryptionContext) (dataKey : DataKey)
      (wrapNonce nonce : Nonce)
  | decrypt (encrypted : EncryptedSecretValue) (context : SecretEncryptionContext)
  | rotateDataKey (orgId : JsString) (dataKey : DataKey) (wrapNonce : Nonce)
  | clearKeyCache

/-- A call of the service with this index, and what the clock says. -/
structure Event where
  service : Nat
  now : ℚ
  operation : Operation

/-- The system after a call that completes successfully. -/
def step (s : System S) (e : Event) : Option (System S) := do
  let service ← s.services[e.service]?
  match e.operation with
  | .encrypt plaintext context dataKey wrapNonce nonce =>
    let (store, service, envelope) ← encryptCall impl wrapper aead s.store service e.now plaintext
      context dataKey wrapNonce nonce
    some ⟨store, s.services.set e.service service, s.issued ++ [⟨context, plaintext, envelope⟩]⟩
  | .decrypt encrypted context =>
    let (service, _) ← decryptCall impl wrapper aead s.store service e.now encrypted context
    some { s with services := s.services.set e.service service }
  | .rotateDataKey orgId dataKey wrapNonce =>
    let (store, _) ← rotateCall impl wrapper s.store orgId dataKey wrapNonce
    some { s with store := store }
  | .clearKeyCache => some { s with services := s.services.set e.service service.clearKeyCache }

/-- What a run never loses: `s` came before `t`. -/
structure Preserved (s t : System S) : Prop where
  records : ∀ orgId, ∀ record ∈ impl.recordsOf s.store orgId,
    ∃ record' ∈ impl.recordsOf t.store orgId, record'.version = record.version ∧
      record'.wrapped = record.wrapped ∧ (record.active = false → record'.active = false)
  issued : ∀ entry ∈ s.issued, entry ∈ t.issued

/-- Every envelope decrypts, on every service and at any time. -/
def AllDecrypt (s : System S) : Prop :=
  ∀ entry ∈ s.issued, ∀ service ∈ s.services, ∀ now,
    (decryptCall impl wrapper aead s.store service now entry.envelope entry.context).map (·.2) =
      some entry.plaintext

/-- Every run from an empty store keeps the keys and the envelopes. -/
def RotationSafe : Prop :=
  ∀ (configs : List CacheConfig) (earlier later : List Event) (s t : System S),
    run (step impl wrapper aead) (.initial impl configs) earlier = some s →
    run (step impl wrapper aead) s later = some t →
    (∀ orgId, Numbered (impl.recordsOf t.store orgId)) ∧ Preserved impl s t ∧
      AllDecrypt impl wrapper aead t

end

/-! ## The invariant -/

variable {S : Type} {impl : StoreImpl S} {wrapper : KeyWrapper} {aead : Aead}
  {rel : S → DataKeyStore wrapper → Prop}

structure Inv (rel : S → DataKeyStore wrapper → Prop) (aead : Aead) (s : System S)
    (store : DataKeyStore wrapper) : Prop where
  rel : rel s.store store
  numbered : ∀ orgId, Numbered (store.records.filter (·.orgId = orgId))
  caches : ∀ service ∈ s.services, CacheInv store service.heap service.cache
  issued : ∀ entry ∈ s.issued, Sealed aead store entry.envelope entry.context entry.plaintext

/-- The records of `old` are still there, and the retired ones are retired. -/
def Keeps (old new : DataKeyStore wrapper) : Prop :=
  ∀ record ∈ old.records, ∃ record' ∈ new.records, record'.orgId = record.orgId ∧
    record'.version = record.version ∧ record'.wrapped = record.wrapped ∧
      (record.active = false → record'.active = false)

theorem Keeps.refl (store : DataKeyStore wrapper) : Keeps store store :=
  fun record h => ⟨record, h, rfl, rfl, rfl, id⟩

theorem Keeps.trans {a b c : DataKeyStore wrapper} (h : Keeps a b) (h' : Keeps b c) :
    Keeps a c := by
  intro record hrecord
  obtain ⟨r, hr, horg, hversion, hwrapped, hactive⟩ := h record hrecord
  obtain ⟨r', hr', horg', hversion', hwrapped', hactive'⟩ := h' r hr
  exact ⟨r', hr', horg'.trans horg, hversion'.trans hversion, hwrapped'.trans hwrapped,
    fun h => hactive' (hactive h)⟩

theorem Keeps.activate (store : DataKeyStore wrapper) (orgId : JsString) (dataKey : DataKey)
    (nonce : Nonce) : Keeps store (store.activate orgId dataKey nonce) := by
  intro record hrecord
  refine ⟨DataKeyStore.retire orgId record,
    List.mem_append_left _ (List.mem_map_of_mem hrecord), ?_⟩
  unfold DataKeyStore.retire
  split
  · exact ⟨rfl, rfl, rfl, fun _ => rfl⟩
  · exact ⟨rfl, rfl, rfl, id⟩

theorem keeps_ensureActive (store : DataKeyStore wrapper) (orgId : JsString) (dataKey : DataKey)
    (nonce : Nonce) : Keeps store (store.ensureActive orgId dataKey nonce).1 := by
  unfold DataKeyStore.ensureActive
  split
  · exact .refl store
  · exact .activate store orgId dataKey nonce

theorem numbered_ensureActive {store : DataKeyStore wrapper}
    (h : ∀ orgId, Numbered (store.records.filter (·.orgId = orgId))) (orgId : JsString)
    (dataKey : DataKey) (nonce : Nonce) (other : JsString) :
    Numbered ((store.ensureActive orgId dataKey nonce).1.records.filter (·.orgId = other)) := by
  unfold DataKeyStore.ensureActive
  split
  · exact h other
  · exact numbered_activate h orgId dataKey nonce other

/-- `#loadKey` gives the key of its record, and keeps the cache genuine. -/
theorem loadKey_spec {store : DataKeyStore wrapper} {service : Service}
    (hcache : CacheInv store service.heap service.cache) {record : DataKeyRecord}
    (hrecord : record ∈ store.records) (now : ℚ) :
    ∃ service' key, loadKey wrapper service record now = some (service', key.bytes) ∧
      store.keyOf record.orgId record.version = some key ∧
      CacheInv store service'.heap service'.cache := by
  obtain ⟨key, hkey⟩ := Option.isSome_iff_exists.mp (store.unwraps record hrecord)
  have hkeyOf : store.keyOf record.orgId record.version = some key := by
    rw [store.keyOf_of_mem hrecord, hkey]
  have hfinish : ∀ heap cache, CacheInv store heap cache →
      CacheInv store (finishLoad service.config heap cache record now key).1
        (finishLoad service.config heap cache record now key).2.1 :=
    fun heap cache h => (h.evict service.config).set hkeyOf _
  unfold loadKey startLoad
  cases hget : service.cache.get (cacheKey record) with
  | none =>
    simp only [hkey]
    exact ⟨_, key, rfl, hkeyOf, hfinish _ _ hcache⟩
  | some entry =>
    obtain ⟨hmem, cached, hcached, hheap⟩ := hcache.get hget
    by_cases hfresh : entry.expiresAt > now
    · simp only [if_pos hfresh, hheap, Option.map_some]
      exact ⟨_, cached, rfl, hcached, hcache⟩
    · simp only [if_neg hfresh, hkey]
      exact ⟨_, key, rfl, hkeyOf, hfinish _ _ (hcache.wipe_delete hmem)⟩

theorem CacheInv.clearKeyCache {store : DataKeyStore wrapper} (service : Service) :
    CacheInv store service.clearKeyCache.heap service.clearKeyCache.cache :=
  .empty store _

/-- Replacing one service keeps the caches genuine. -/
theorem caches_set {store : DataKeyStore wrapper} {services : List Service}
    (h : ∀ service ∈ services, CacheInv store service.heap service.cache) {i : Nat}
    {service : Service} (hservice : CacheInv store service.heap service.cache) :
    ∀ other ∈ services.set i service, CacheInv store other.heap other.cache := by
  intro other hother
  rcases List.mem_or_eq_of_mem_set hother with hother | rfl
  · exact h other hother
  · exact hservice

theorem Inv.decrypts (himpl : Implements impl wrapper rel) {s : System S}
    {store : DataKeyStore wrapper} (h : Inv rel aead s store) {entry : Issued}
    (hentry : entry ∈ s.issued) {service : Service} (hservice : service ∈ s.services) (now : ℚ) :
    (decryptCall impl wrapper aead s.store service now entry.envelope entry.context).map (·.2) =
      some entry.plaintext := by
  have hsealed := h.issued entry hentry
  have hmeta := hsealed.hasValidMetadata
  obtain ⟨hvalid, key, nonce, hkey, henvelope⟩ := hsealed
  obtain ⟨record, hrecord, hunwrap⟩ := Option.bind_eq_some_iff.mp hkey
  obtain ⟨hmem, horg, hversion⟩ := store.getVersion_mem hrecord
  obtain ⟨service', key', hload, hkey', -⟩ := loadKey_spec (h.caches service hservice) hmem now
  rw [horg, hversion, hkey] at hkey'
  cases hkey'
  have hopen : aead.openBytes key.bytes entry.envelope.nonce (contextBytes entry.context)
      (entry.envelope.ciphertext, entry.envelope.authTag) = some entry.plaintext := by
    rw [henvelope]
    exact aead.open_seal _ _ _ _
  simp only [decryptCall, hmeta, if_true, himpl.getVersion h.rel, hrecord, Option.bind_eq_bind,
    Option.bind_some, hload, hvalid, hopen, Option.map_some]

/-- **One call** keeps the invariant, the stored keys and the issued envelopes. -/
theorem step_inv (himpl : Implements impl wrapper rel) {s s' : System S} {e : Event}
    {store : DataKeyStore wrapper} (h : Inv rel aead s store)
    (hstep : step impl wrapper aead s e = some s') :
    ∃ store', Inv rel aead s' store' ∧ Keeps store store' ∧
      ∀ entry ∈ s.issued, entry ∈ s'.issued := by
  obtain ⟨service, hservice, hstep⟩ := Option.bind_eq_some_iff.mp hstep
  have hcache := h.caches service (List.mem_of_getElem? hservice)
  cases hop : e.operation with
  | encrypt plaintext context dataKey wrapNonce nonce =>
    rw [hop] at hstep
    obtain ⟨⟨store₁, service₁, envelope⟩, hcall, hstep⟩ := Option.bind_eq_some_iff.mp hstep
    cases hstep
    unfold encryptCall at hcall
    split at hcall
    · rename_i hvalid
      obtain ⟨⟨store₂, record⟩, hensure, hcall⟩ := Option.bind_eq_some_iff.mp hcall
      obtain ⟨⟨service₂, bytes⟩, hload, hcall⟩ := Option.bind_eq_some_iff.mp hcall
      cases hcall
      obtain ⟨hrel, hrecord⟩ := himpl.ensureActive h.rel hensure
      obtain ⟨hmem, horg⟩ := store.ensureActive_spec context.orgId dataKey wrapNonce
      rw [← hrecord] at hmem horg
      have hextends : store.Extends (store.ensureActive context.orgId dataKey wrapNonce).1 :=
        fun _ _ _ hkey => store.keyOf_ensureActive hkey _ _ _
      obtain ⟨service', key, hload', hkey, hcache'⟩ :=
        loadKey_spec (hcache.mono hextends) hmem e.now
      rw [hload] at hload'
      cases hload'
      refine ⟨_, ⟨hrel, numbered_ensureActive h.numbered _ _ _,
        caches_set (fun other hother => (h.caches other hother).mono hextends) hcache', ?_⟩,
        keeps_ensureActive _ _ _ _, fun entry hentry => List.mem_append_left _ hentry⟩
      intro entry hentry
      rcases List.mem_append.mp hentry with hentry | hentry
      · exact (h.issued entry hentry).mono hextends
      · rw [List.mem_singleton.mp hentry]
        exact ⟨hvalid, key, nonce, horg ▸ hkey, rfl⟩
    · cases hcall
  | decrypt encrypted context =>
    rw [hop] at hstep
    obtain ⟨⟨service₁, plaintext⟩, hcall, hstep⟩ := Option.bind_eq_some_iff.mp hstep
    cases hstep
    unfold decryptCall at hcall
    split at hcall
    · obtain ⟨record, hrecord, hcall⟩ := Option.bind_eq_some_iff.mp hcall
      obtain ⟨⟨service₂, bytes⟩, hload, hcall⟩ := Option.bind_eq_some_iff.mp hcall
      rw [himpl.getVersion h.rel] at hrecord
      obtain ⟨service', key, hload', -, hcache'⟩ :=
        loadKey_spec hcache (store.getVersion_mem hrecord).1 e.now
      rw [hload] at hload'
      cases hload'
      dsimp only at hcall
      split at hcall
      · obtain ⟨_, -, hcall⟩ := Option.bind_eq_some_iff.mp hcall
        cases hcall
        exact ⟨store, ⟨h.rel, h.numbered, caches_set h.caches hcache', h.issued⟩, .refl store,
          fun _ => id⟩
      · cases hcall
    · cases hcall
  | rotateDataKey orgId dataKey wrapNonce =>
    rw [hop] at hstep
    obtain ⟨⟨store₁, version⟩, hcall, hstep⟩ := Option.bind_eq_some_iff.mp hstep
    cases hstep
    unfold rotateCall at hcall
    split at hcall
    · cases hcall
    · obtain ⟨⟨store₂, record⟩, hrotate, hcall⟩ := Option.map_eq_some_iff.mp hcall
      cases hcall
      have hextends : store.Extends (store.activate orgId dataKey wrapNonce) :=
        fun _ _ _ hkey => store.keyOf_activate hkey _ _ _
      exact ⟨_, ⟨(himpl.rotate h.rel hrotate).1, numbered_activate h.numbered _ _ _,
        fun other hother => (h.caches other hother).mono hextends,
        fun entry hentry => (h.issued entry hentry).mono hextends⟩, .activate _ _ _ _,
        fun _ => id⟩
  | clearKeyCache =>
    rw [hop] at hstep
    cases hstep
    exact ⟨store, ⟨h.rel, h.numbered, caches_set h.caches (CacheInv.clearKeyCache service),
      h.issued⟩, .refl store, fun _ => id⟩

/-- A run keeps them too. -/
theorem run_inv (himpl : Implements impl wrapper rel) :
    ∀ {events : List Event} {s t : System S} {store : DataKeyStore wrapper},
      Inv rel aead s store → run (step impl wrapper aead) s events = some t →
      ∃ store', Inv rel aead t store' ∧ Keeps store store' ∧ ∀ entry ∈ s.issued, entry ∈ t.issued
  | [], _, _, store, h, hrun => by
    cases hrun
    exact ⟨store, h, .refl store, fun _ => id⟩
  | e :: events, s, t, store, h, hrun => by
    obtain ⟨s', hstep, hrest⟩ := run_cons hrun
    obtain ⟨store₁, h₁, hkeeps, hissued⟩ := step_inv himpl h hstep
    obtain ⟨store₂, h₂, hkeeps', hissued'⟩ := run_inv himpl h₁ hrest
    exact ⟨store₂, h₂, hkeeps.trans hkeeps', fun entry hentry => hissued' entry (hissued entry hentry)⟩

theorem Inv.initial (himpl : Implements impl wrapper rel) (configs : List CacheConfig) :
    Inv rel aead (.initial impl configs) .empty where
  rel := himpl.empty
  numbered _ := ⟨rfl, rfl⟩
  caches service hservice := by
    obtain ⟨config, -, rfl⟩ := List.mem_map.mp hservice
    exact .empty _ _
  issued entry hentry := by cases hentry

theorem rotationSafe_of_implements (himpl : Implements impl wrapper rel) (aead : Aead) :
    RotationSafe impl wrapper aead := by
  intro configs earlier later s t hearlier hlater
  obtain ⟨store, h, -, -⟩ := run_inv himpl (Inv.initial himpl configs) hearlier
  obtain ⟨store', h', hkeeps, hissued⟩ := run_inv himpl h hlater
  refine ⟨fun orgId => ?_, ⟨fun orgId record hrecord => ?_, hissued⟩, ?_⟩
  · rw [himpl.recordsOf h'.rel]
    exact h'.numbered orgId
  · rw [himpl.recordsOf h.rel] at hrecord
    obtain ⟨hmem, horg⟩ := List.mem_filter.mp hrecord
    obtain ⟨record', hmem', horg', hrest⟩ := hkeeps record hmem
    refine ⟨record', ?_, hrest⟩
    rw [himpl.recordsOf h'.rel, List.mem_filter]
    exact ⟨hmem', by rw [horg']; exact horg⟩
  · exact fun entry hentry service hservice now => h'.decrypts himpl hentry hservice now

/-- **Ciphertexts survive key rotation**, on the database store and on the in-memory store. -/
theorem rotation_safe (wrapper : KeyWrapper) (aead : Aead) :
    RotationSafe keyTable wrapper aead ∧ RotationSafe keyMap wrapper aead :=
  ⟨rotationSafe_of_implements (keyTable_implements wrapper) aead,
    rotationSafe_of_implements (keyMap_implements wrapper) aead⟩

/-- Two values with a rotation between them, by one of two services. -/
def rotationRun : List Event :=
  [⟨0, 0, .encrypt [1] (exampleContext (ofAscii "a")) (repeatedKey 7) zeroNonce zeroNonce⟩,
    ⟨0, 1, .rotateDataKey (ofAscii "a") (repeatedKey 8) zeroNonce⟩,
    ⟨0, 2, .encrypt [2] (exampleContext (ofAscii "a")) (repeatedKey 6) zeroNonce zeroNonce⟩]

/-- The first of the two values, sealed under the first key. -/
def olderValue : EncryptedSecretValue :=
  sealValue plainAead 1 (repeatedKey 7).bytes zeroNonce (exampleContext (ofAscii "a")) [1]

/-- After the rotation the other service decrypts the older value. -/
theorem rotation_safe_rotated :
    ∃ s t, run (step keyTable exampleWrapper plainAead)
        (.initial keyTable [singleEntryCache, singleEntryCache]) rotationRun = some s ∧
      run (step keyTable exampleWrapper plainAead) s
        [⟨1, 3, .decrypt olderValue (exampleContext (ofAscii "a"))⟩] = some t ∧
      t.issued.map (·.envelope.keyVersion) = [1, 2] ∧
      AllDecrypt keyTable exampleWrapper plainAead t := by
  have hrun : ((run (step keyTable exampleWrapper plainAead)
      (.initial keyTable [singleEntryCache, singleEntryCache]) rotationRun).bind fun s =>
        run (step keyTable exampleWrapper plainAead) s
          [⟨1, 3, .decrypt olderValue (exampleContext (ofAscii "a"))⟩]).map
            (fun t => t.issued.map (·.envelope.keyVersion)) = some [1, 2] := by decide +kernel
  obtain ⟨t, hboth, hversions⟩ := Option.map_eq_some_iff.mp hrun
  obtain ⟨s, hs, ht⟩ := Option.bind_eq_some_iff.mp hboth
  exact ⟨s, t, hs, ht, hversions,
    ((rotation_safe exampleWrapper plainAead).1 _ _ _ s t hs ht).2.2⟩

end Himitsu.Crypto.Rotation
