import Himitsu.Crypto.KeyCache

/-!
# Safety of the data-key cache

* `KeyAt` — a buffer holds the data key of a version.
* `CacheInv` — every cached buffer holds the key of its entry, and no two entries share one.
* `CallInv` — what a suspended call relies on.
* `step_inv` — both are kept by a step that wipes no buffer a suspended call holds.

Principal results: `keyCache_safe` — in a run of such steps every encryption that resolves used
the data key of the version it records, and every genuine value decrypts; `evicted_not_safe` —
an eviction between two stretches of another call breaks this.
-/

set_option autoImplicit false

namespace Himitsu.Crypto

open JsString Runs

variable {aead : Aead} {wrapper : KeyWrapper} {config : CacheConfig}

/-! ## The store only grows -/

/-- Every data key of `old` is still there. -/
def DataKeyStore.Extends (old new : DataKeyStore wrapper) : Prop :=
  ∀ orgId version key, old.keyOf orgId version = some key → new.keyOf orgId version = some key

theorem DataKeyStore.Extends.refl (store : DataKeyStore wrapper) : store.Extends store :=
  fun _ _ _ h => h

theorem DataKeyStore.Extends.trans {a b c : DataKeyStore wrapper} (h : a.Extends b)
    (h' : b.Extends c) : a.Extends c :=
  fun orgId version key hkey => h' orgId version key (h orgId version key hkey)

theorem storeReply_extends (store : DataKeyStore wrapper) (kind : CallKind) (dataKey : DataKey)
    (nonce : Nonce) : store.Extends (storeReply store kind dataKey nonce).1 := by
  intro orgId version key hkey
  cases kind with
  | encrypt plaintext context => exact store.keyOf_ensureActive hkey _ _ _
  | decrypt encrypted context =>
    unfold storeReply
    dsimp only
    split <;> exact hkey
  | rotateDataKey org => exact store.keyOf_activate hkey _ _ _

theorem step_extends {s s' : State wrapper} {e : Event} (h : Step aead config s e s') :
    s.store.Extends s'.store := by
  cases h with
  | storeReplies dataKey nonce hi hphase => exact storeReply_extends _ _ _ _
  | otherServiceRotates orgId dataKey nonce =>
    exact fun _ _ _ hkey => s.store.keyOf_activate hkey _ _ _
  | _ => exact DataKeyStore.Extends.refl _

theorem Sealed.mono {old new : DataKeyStore wrapper} (h : old.Extends new)
    {encrypted : EncryptedSecretValue} {context : SecretEncryptionContext} {plaintext : Bytes}
    (hs : Sealed aead old encrypted context plaintext) :
    Sealed aead new encrypted context plaintext := by
  obtain ⟨hvalid, key, nonce, hkey, hsealed⟩ := hs
  exact ⟨hvalid, key, nonce, h _ _ _ hkey, hsealed⟩

/-! ## Buffers -/

/-- The buffer holds the data key of the version. -/
def KeyAt (store : DataKeyStore wrapper) (heap : List Bytes) (orgId : JsString) (version buffer : Nat) :
    Prop :=
  ∃ key, store.keyOf orgId version = some key ∧ heap[buffer]? = some key.bytes

theorem wipe_getElem {heap : List Bytes} {buffer other : Nat} (h : other ≠ buffer) :
    (wipe heap buffer)[other]? = heap[other]? :=
  List.getElem?_set_ne h.symm

theorem foldl_wipe_getElem {buffers : List Nat} {heap : List Bytes} {other : Nat}
    (h : other ∉ buffers) : (buffers.foldl wipe heap)[other]? = heap[other]? := by
  induction buffers generalizing heap with
  | nil => rfl
  | cons buffer buffers ih =>
    rw [List.mem_cons, not_or] at h
    rw [List.foldl_cons, ih h.2, wipe_getElem h.1]

theorem append_getElem {heap new : List Bytes} {buffer : Nat} {key : Bytes}
    (h : heap[buffer]? = some key) : (heap ++ new)[buffer]? = some key := by
  rw [List.getElem?_append_left (List.getElem?_eq_some_iff.mp h).1, h]

theorem evict_getElem {heap : List Bytes} {cache : Cache} {buffer : Nat}
    (h : buffer ∉ if config.maxCacheEntries ≤ cache.length then
      (cache.head?.map (·.2.buffer)).toList else []) :
    (evict config heap cache).1[buffer]? = heap[buffer]? := by
  unfold evict
  split
  · rename_i hfull
    rw [if_pos hfull] at h
    cases cache with
    | nil => rfl
    | cons e cache => exact wipe_getElem (by simpa using h)
  · rfl

/-- **Buffers that a step does not wipe keep their content.** -/
theorem step_heap {s s' : State wrapper} {e : Event} (h : Step aead config s e s') {buffer : Nat}
    {key : Bytes} (hkey : s.heap[buffer]? = some key) (hw : buffer ∉ wiped config s e) :
    s'.heap[buffer]? = some key := by
  cases h with
  | @resume i call record now hi hphase =>
    simp only [wiped, hi, Option.map_some, hphase] at hw
    simp only [State.setPhase, startLoad]
    split
    · rename_i entry hget
      rw [hget] at hw
      dsimp only at hw
      split
      · exact hkey
      · rename_i hexpired
        rw [if_neg hexpired, List.mem_singleton] at hw
        exact (wipe_getElem hw).trans hkey
    · exact hkey
  | unwrapReplies hi hphase hkey' =>
    simp only [State.setPhase, finishLoad]
    exact append_getElem ((evict_getElem hw).trans hkey)
  | clearKeyCache =>
    exact (foldl_wipe_getElem hw).trans hkey
  | _ => exact hkey

/-! ## The cache -/

theorem cacheKey_injective {r r' : DataKeyRecord} (h : cacheKey r = cacheKey r') :
    r.orgId = r'.orgId ∧ r.version = r'.version := by
  have hcolon : ∀ n, (0x3A : UInt16) ∉ ofNat n := by
    intro n hn
    exact absurd (ofNat_digits n _ hn).2 (by decide)
  obtain ⟨horg, hversion⟩ := append_cons_inj (hcolon _) (hcolon _) h
  exact ⟨horg, ofNat_injective hversion⟩

/-- The cache invariant: keys and buffers of the entries are distinct, and every buffer holds
the data key that its entry is for. -/
structure CacheInv (store : DataKeyStore wrapper) (heap : List Bytes) (cache : Cache) : Prop where
  keys : (cache.map (·.1)).Nodup
  buffers : (cache.map (·.2.buffer)).Nodup
  valid : ∀ e ∈ cache, ∃ record : DataKeyRecord, e.1 = cacheKey record ∧
    KeyAt store heap record.orgId record.version e.2.buffer

theorem CacheInv.empty (store : DataKeyStore wrapper) (heap : List Bytes) :
    CacheInv store heap [] :=
  ⟨by simp, by simp, by simp⟩

theorem CacheInv.mono {store store' : DataKeyStore wrapper} {heap : List Bytes} {cache : Cache}
    (h : CacheInv store heap cache) (hs : store.Extends store') : CacheInv store' heap cache where
  keys := h.keys
  buffers := h.buffers
  valid e he := by
    obtain ⟨record, hkey, key, hkeyOf, hheap⟩ := h.valid e he
    exact ⟨record, hkey, key, hs _ _ _ hkeyOf, hheap⟩

theorem CacheInv.get {store : DataKeyStore wrapper} {heap : List Bytes} {cache : Cache}
    (h : CacheInv store heap cache) {record : DataKeyRecord} {entry : CacheEntry}
    (hget : cache.get (cacheKey record) = some entry) :
    (cacheKey record, entry) ∈ cache ∧
      KeyAt store heap record.orgId record.version entry.buffer := by
  obtain ⟨l₁, l₂, hsplit, -⟩ := List.lookup_eq_some_iff.mp hget
  have hmem : (cacheKey record, entry) ∈ cache := by simp [hsplit]
  obtain ⟨record', hkey, hat⟩ := h.valid _ hmem
  obtain ⟨horg, hversion⟩ := cacheKey_injective hkey
  rw [horg, hversion]
  exact ⟨hmem, hat⟩

/-- Wiping and deleting one entry keeps the others. -/
theorem CacheInv.wipe_delete {store : DataKeyStore wrapper} {heap : List Bytes} {cache : Cache}
    (h : CacheInv store heap cache) {e : JsString × CacheEntry} (he : e ∈ cache) :
    CacheInv store (wipe heap e.2.buffer) (cache.delete e.1) where
  keys := h.keys.sublist (List.filter_sublist.map _)
  buffers := h.buffers.sublist (List.filter_sublist.map _)
  valid e' he' := by
    simp only [Cache.delete, List.mem_filter, decide_eq_true_eq] at he'
    obtain ⟨record, hkey, key, hkeyOf, hheap⟩ := h.valid e' he'.1
    refine ⟨record, hkey, key, hkeyOf, ?_⟩
    rw [wipe_getElem, hheap]
    intro hbuffer
    exact he'.2 (congrArg Prod.fst (List.inj_on_of_nodup_map h.buffers he'.1 he hbuffer))

variable (config) in
theorem CacheInv.evict {store : DataKeyStore wrapper} {heap : List Bytes} {cache : Cache}
    (h : CacheInv store heap cache) :
    CacheInv store (evict config heap cache).1 (evict config heap cache).2 := by
  unfold Crypto.evict
  split
  · cases cache with
    | nil => exact h
    | cons e cache => exact h.wipe_delete (e := e) (by simp)
  · exact h

theorem CacheInv.buffer_lt {store : DataKeyStore wrapper} {heap : List Bytes} {cache : Cache}
    (h : CacheInv store heap cache) {e : JsString × CacheEntry} (he : e ∈ cache) :
    e.2.buffer < heap.length := by
  obtain ⟨record, -, key, -, hheap⟩ := h.valid e he
  exact (List.getElem?_eq_some_iff.mp hheap).1

theorem Cache.mem_set {cache : Cache} {key : JsString} {entry : CacheEntry}
    {e : JsString × CacheEntry} (h : e ∈ cache.set key entry) : e = (key, entry) ∨ e ∈ cache := by
  unfold Cache.set at h
  split at h
  · obtain ⟨old, hold, rfl⟩ := List.mem_map.mp h
    split
    · exact .inl rfl
    · exact .inr hold
  · simpa [or_comm] using h

/-- A new buffer may take the place of an old one or stand in a new entry. -/
theorem CacheInv.set {store : DataKeyStore wrapper} {heap : List Bytes} {cache : Cache}
    (h : CacheInv store heap cache) {record : DataKeyRecord} {key : DataKey}
    (hkey : store.keyOf record.orgId record.version = some key) (expiresAt : ℚ) :
    CacheInv store (heap ++ [key.bytes])
      (cache.set (cacheKey record) ⟨heap.length, expiresAt⟩) where
  keys := by
    unfold Cache.set
    split
    · have hsame : ∀ e ∈ cache,
          (if e.1 = cacheKey record then (cacheKey record, ⟨heap.length, expiresAt⟩) else e :
            JsString × CacheEntry).1 = e.1 := by
        intro e _
        split
        · rename_i heq
          exact heq.symm
        · rfl
      rw [List.map_map, List.map_congr_left (g := (·.1)) hsame]
      exact h.keys
    · rename_i hnone
      rw [List.map_append]
      refine h.keys.append (List.nodup_singleton _) ?_
      intro k hk hnew
      obtain ⟨e, he, rfl⟩ := List.mem_map.mp hk
      rw [Option.not_isSome_iff_eq_none, List.lookup_eq_none_iff] at hnone
      simpa [List.mem_singleton.mp hnew] using hnone e he
  buffers := by
    unfold Cache.set
    split
    · rw [List.map_map]
      refine List.Nodup.map_on ?_ (List.Nodup.of_map _ h.keys)
      intro e he e' he' heq
      have hlt := h.buffer_lt he
      have hlt' := h.buffer_lt he'
      simp only [Function.comp_apply] at heq
      split at heq
      · rename_i hk
        split at heq
        · rename_i hk'
          exact List.inj_on_of_nodup_map h.keys he he' (hk.trans hk'.symm)
        · exact absurd heq (Nat.ne_of_gt hlt')
      · split at heq
        · exact absurd heq (Nat.ne_of_lt hlt)
        · exact List.inj_on_of_nodup_map h.buffers he he' heq
    · rw [List.map_append]
      refine h.buffers.append (List.nodup_singleton _) ?_
      intro b hb hnew
      obtain ⟨e, he, rfl⟩ := List.mem_map.mp hb
      exact absurd (List.mem_singleton.mp hnew) (Nat.ne_of_lt (h.buffer_lt he))
  valid e he := by
    rcases Cache.mem_set he with rfl | he
    · exact ⟨record, rfl, key, hkey, by simp⟩
    · obtain ⟨record', hk, key', hkeyOf, hheap⟩ := h.valid e he
      exact ⟨record', hk, key', hkeyOf, append_getElem hheap⟩

/-! ## The calls -/

/-- The first stretch of the call was accepted. -/
def Accepted : CallKind → Prop
  | .encrypt _ context => context.isValid = true
  | .decrypt encrypted _ => encrypted.hasValidMetadata = true
  | .rotateDataKey _ => True

/-- The record that a call works with: it unwraps to the key of its version, and it is the one
the call asked for. -/
structure RecordOk (store : DataKeyStore wrapper) (kind : CallKind) (record : DataKeyRecord) :
    Prop where
  accepted : Accepted kind
  key : ∃ key, record.key wrapper = some key ∧
    store.keyOf record.orgId record.version = some key
  org : ∀ plaintext context, kind = .encrypt plaintext context → record.orgId = context.orgId
  version : ∀ encrypted context, kind = .decrypt encrypted context →
    record.orgId = context.orgId ∧ record.version = encrypted.keyVersion

/-- The call invariant. -/
structure CallInv (aead : Aead) (store : DataKeyStore wrapper) (heap : List Bytes)
    (call : Call wrapper) : Prop where
  issued : call.issued.Extends store
  awaitStore : call.phase = .awaitStore → Accepted call.kind
  haveRecord : ∀ record, call.phase = .haveRecord record → RecordOk store call.kind record
  awaitUnwrap : ∀ record now, call.phase = .awaitUnwrap record now →
    RecordOk store call.kind record
  haveKey : ∀ record buffer, call.phase = .haveKey record buffer →
    RecordOk store call.kind record ∧ KeyAt store heap record.orgId record.version buffer
  safe : CallSafe aead store call

theorem RecordOk.mono {store store' : DataKeyStore wrapper} {kind : CallKind}
    {record : DataKeyRecord} (h : RecordOk store kind record) (hs : store.Extends store') :
    RecordOk store' kind record where
  accepted := h.accepted
  key := by
    obtain ⟨key, hkey, hkeyOf⟩ := h.key
    exact ⟨key, hkey, hs _ _ _ hkeyOf⟩
  org := h.org
  version := h.version

theorem CallSafe.mono {store store' : DataKeyStore wrapper} {call : Call wrapper}
    (h : CallSafe aead store call) (hs : store.Extends store') : CallSafe aead store' call := by
  unfold CallSafe at h ⊢
  split
  · rename_i plaintext context value hkind hphase
    rw [hkind, hphase] at h
    exact ⟨h.1.mono hs, decrypt_of_sealed (h.1.mono hs)⟩
  · rename_i encrypted context plaintext hkind hphase
    rwa [hkind, hphase] at h
  · rename_i encrypted context cause hkind hphase
    rwa [hkind, hphase] at h
  · trivial

/-- A call that does not run keeps its invariant when the buffer it holds is kept. -/
theorem CallInv.mono {store store' : DataKeyStore wrapper} {heap heap' : List Bytes}
    {call : Call wrapper} (h : CallInv aead store heap call) (hs : store.Extends store')
    (hheap : ∀ record buffer, call.phase = .haveKey record buffer →
      ∀ key, heap[buffer]? = some key → heap'[buffer]? = some key) :
    CallInv aead store' heap' call where
  issued := h.issued.trans hs
  awaitStore := h.awaitStore
  haveRecord record hphase := (h.haveRecord record hphase).mono hs
  awaitUnwrap record now hphase := (h.awaitUnwrap record now hphase).mono hs
  haveKey record buffer hphase := by
    obtain ⟨hrecord, key, hkeyOf, hkey⟩ := h.haveKey record buffer hphase
    exact ⟨hrecord.mono hs, key, hs _ _ _ hkeyOf, hheap record buffer hphase _ hkey⟩
  safe := h.safe.mono hs

section

variable {store : DataKeyStore wrapper} {heap : List Bytes} {kind : CallKind}
  {issued : DataKeyStore wrapper}

theorem CallInv.of_awaitStore (hi : issued.Extends store) (h : Accepted kind) :
    CallInv aead store heap ⟨kind, .awaitStore, issued⟩ :=
  ⟨hi, fun _ => h, nofun, nofun, nofun, by cases kind <;> trivial⟩

theorem CallInv.of_haveRecord (hi : issued.Extends store) {record : DataKeyRecord}
    (h : RecordOk store kind record) :
    CallInv aead store heap ⟨kind, .haveRecord record, issued⟩ :=
  ⟨hi, nofun, fun _ hp => Phase.haveRecord.inj hp ▸ h, nofun, nofun, by cases kind <;> trivial⟩

theorem CallInv.of_awaitUnwrap (hi : issued.Extends store) {record : DataKeyRecord} {now : ℚ}
    (h : RecordOk store kind record) :
    CallInv aead store heap ⟨kind, .awaitUnwrap record now, issued⟩ :=
  ⟨hi, nofun, nofun, fun _ _ hp => (Phase.awaitUnwrap.inj hp).1 ▸ h, nofun,
    by cases kind <;> trivial⟩

theorem CallInv.of_haveKey (hi : issued.Extends store) {record : DataKeyRecord} {buffer : Nat}
    (h : RecordOk store kind record)
    (hat : KeyAt store heap record.orgId record.version buffer) :
    CallInv aead store heap ⟨kind, .haveKey record buffer, issued⟩ := by
  refine ⟨hi, nofun, nofun, nofun, fun record' buffer' hp => ?_, by cases kind <;> trivial⟩
  obtain ⟨rfl, rfl⟩ := Phase.haveKey.inj hp
  exact ⟨h, hat⟩

theorem CallInv.of_resolved (hi : issued.Extends store) {outcome : Outcome}
    (h : CallSafe aead store ⟨kind, .resolved outcome, issued⟩) :
    CallInv aead store heap ⟨kind, .resolved outcome, issued⟩ :=
  ⟨hi, nofun, nofun, nofun, nofun, h⟩

theorem CallInv.of_rejected (hi : issued.Extends store) {cause : Cause}
    (h : CallSafe aead store ⟨kind, .rejected cause, issued⟩) :
    CallInv aead store heap ⟨kind, .rejected cause, issued⟩ :=
  ⟨hi, nofun, nofun, nofun, nofun, h⟩

/-- The first stretch. -/
theorem startCall_inv (store : DataKeyStore wrapper) (kind : CallKind) :
    CallInv aead store heap ⟨kind, startCall kind, store⟩ := by
  have hi := DataKeyStore.Extends.refl store
  cases kind with
  | encrypt plaintext context =>
    unfold startCall
    dsimp only
    split
    · rename_i hvalid
      exact .of_awaitStore hi hvalid
    · exact .of_rejected hi trivial
  | decrypt encrypted context =>
    unfold startCall
    dsimp only
    split
    · rename_i hmeta
      exact .of_awaitStore hi hmeta
    · rename_i hmeta
      exact .of_rejected hi fun original hs => absurd hs.hasValidMetadata hmeta
  | rotateDataKey orgId =>
    unfold startCall
    dsimp only
    split
    · exact .of_rejected hi trivial
    · exact .of_awaitStore hi trivial

theorem recordOk_of_mem {record : DataKeyRecord} (h : record ∈ store.records)
    (haccepted : Accepted kind)
    (horg : ∀ plaintext context, kind = .encrypt plaintext context → record.orgId = context.orgId)
    (hversion : ∀ encrypted context, kind = .decrypt encrypted context →
      record.orgId = context.orgId ∧ record.version = encrypted.keyVersion) :
    RecordOk store kind record := by
  obtain ⟨key, hkey⟩ := Option.isSome_iff_exists.mp (store.unwraps record h)
  exact ⟨haccepted, ⟨key, hkey, (store.keyOf_of_mem h).trans hkey⟩, horg, hversion⟩

/-- The reply of the store. -/
theorem storeReply_inv (hi : issued.Extends store) (haccepted : Accepted kind) (dataKey : DataKey)
    (nonce : Nonce) :
    CallInv aead (storeReply store kind dataKey nonce).1 heap
      ⟨kind, (storeReply store kind dataKey nonce).2, issued⟩ := by
  have hi' := hi.trans (storeReply_extends store kind dataKey nonce)
  cases kind with
  | encrypt plaintext context =>
    obtain ⟨hmem, horg⟩ := store.ensureActive_spec context.orgId dataKey nonce
    refine .of_haveRecord hi' (recordOk_of_mem hmem haccepted ?_ nofun)
    intro _ _ hkind
    obtain ⟨-, rfl⟩ := CallKind.encrypt.inj hkind
    exact horg
  | decrypt encrypted context =>
    unfold storeReply at hi' ⊢
    dsimp only at hi' ⊢
    split
    · rename_i record hget
      obtain ⟨hmem, hrecord⟩ := store.getVersion_mem hget
      refine .of_haveRecord hi (recordOk_of_mem hmem haccepted nofun ?_)
      intro _ _ hkind
      obtain ⟨rfl, rfl⟩ := CallKind.decrypt.inj hkind
      exact hrecord
    · rename_i hget
      refine .of_rejected hi fun original hs => ?_
      obtain ⟨-, key, -, hkey, -⟩ := hs.mono hi
      rw [DataKeyStore.keyOf, hget] at hkey
      cases hkey
  | rotateDataKey orgId => exact .of_resolved hi' trivial

variable (aead) in
/-- `#loadKey` up to its `await`. -/
theorem startLoad_inv {cache : Cache} (hcache : CacheInv store heap cache)
    (hi : issued.Extends store) {record : DataKeyRecord} (hrecord : RecordOk store kind record)
    (now : ℚ) :
    CacheInv store (startLoad heap cache record now).1 (startLoad heap cache record now).2.1 ∧
      CallInv aead store (startLoad heap cache record now).1
        ⟨kind, (startLoad heap cache record now).2.2, issued⟩ := by
  unfold startLoad
  split
  · rename_i entry hget
    obtain ⟨hmem, hat⟩ := hcache.get hget
    split
    · exact ⟨hcache, .of_haveKey hi hrecord hat⟩
    · exact ⟨hcache.wipe_delete hmem, .of_awaitUnwrap hi hrecord⟩
  · exact ⟨hcache, .of_awaitUnwrap hi hrecord⟩

variable (aead config) in
/-- `#loadKey` after its `await`. -/
theorem finishLoad_inv {cache : Cache} (hcache : CacheInv store heap cache)
    (hi : issued.Extends store) {record : DataKeyRecord} (hrecord : RecordOk store kind record)
    (now : ℚ) {key : DataKey} (hkey : record.key wrapper = some key) :
    CacheInv store (finishLoad config heap cache record now key).1
        (finishLoad config heap cache record now key).2.1 ∧
      CallInv aead store (finishLoad config heap cache record now key).1
        ⟨kind, (finishLoad config heap cache record now key).2.2, issued⟩ := by
  obtain ⟨key', hkey', hkeyOf⟩ := hrecord.key
  rw [hkey] at hkey'
  cases hkey'
  have hevict := hcache.evict config
  unfold finishLoad
  dsimp only
  exact ⟨hevict.set hkeyOf _, .of_haveKey hi hrecord ⟨key, hkeyOf, by simp⟩⟩

/-- The last stretch. -/
theorem useKey_inv (hi : issued.Extends store) {record : DataKeyRecord}
    (hrecord : RecordOk store kind record) {key : DataKey}
    (hkey : store.keyOf record.orgId record.version = some key) (nonce : Nonce) :
    CallInv aead store heap ⟨kind, useKey aead kind record key.bytes nonce, issued⟩ := by
  cases kind with
  | encrypt plaintext context =>
    have hsealed : Sealed aead store
        (sealValue aead record.version key.bytes nonce context plaintext) context plaintext := by
      refine ⟨hrecord.accepted, key, nonce, ?_, rfl⟩
      rw [← hrecord.org _ _ rfl]
      exact hkey
    exact .of_resolved hi ⟨hsealed, decrypt_of_sealed hsealed⟩
  | decrypt encrypted context =>
    have hopen : ∀ original, Sealed aead issued encrypted context original →
        context.isValid = true ∧ aead.openBytes key.bytes encrypted.nonce (contextBytes context)
          (encrypted.ciphertext, encrypted.authTag) = some original := by
      intro original hs
      obtain ⟨hvalid, key', nonce', hkey', hsealed⟩ := hs.mono hi
      obtain ⟨horg, hversion⟩ := hrecord.version _ _ rfl
      rw [← horg, ← hversion, hkey] at hkey'
      cases hkey'
      refine ⟨hvalid, ?_⟩
      rw [hsealed]
      exact aead.open_seal _ _ _ _
    unfold useKey
    dsimp only
    split
    · split
      · rename_i plaintext hplaintext
        refine .of_resolved hi fun original hs => ?_
        exact Option.some.inj (hplaintext.symm.trans (hopen original hs).2)
      · rename_i hnone
        refine .of_rejected hi fun original hs => ?_
        rw [(hopen original hs).2] at hnone
        cases hnone
    · rename_i hvalid
      exact .of_rejected hi fun original hs => absurd (hopen original hs).1 hvalid
  | rotateDataKey orgId => exact .of_resolved hi trivial

end

/-! ## The invariant -/

structure Inv (aead : Aead) (s : State wrapper) : Prop where
  cache : CacheInv s.store s.heap s.cache
  calls : ∀ call ∈ s.calls, CallInv aead s.store s.heap call

theorem Inv.initial (aead : Aead) (store : DataKeyStore wrapper) :
    Inv aead (State.initial store) :=
  ⟨CacheInv.empty store [], by simp [State.initial]⟩

/-- The cache after a step, and the call that ran. -/
theorem step_running {s s' : State wrapper} {e : Event} (hs : Inv aead s)
    (h : Step aead config s e s') :
    CacheInv s'.store s'.heap s'.cache ∧
      ∀ call ∈ s'.calls, call ∈ s.calls ∨ CallInv aead s'.store s'.heap call := by
  have hset : ∀ {i : Nat} {new : Call wrapper}, CallInv aead s'.store s'.heap new →
      ∀ call ∈ s.calls.set i new, call ∈ s.calls ∨ CallInv aead s'.store s'.heap call := by
    intro i new hnew call hcall
    rcases List.mem_or_eq_of_mem_set hcall with hcall | rfl
    · exact .inl hcall
    · exact .inr hnew
  cases h with
  | call kind =>
    refine ⟨hs.cache, fun call hcall => ?_⟩
    rcases List.mem_append.mp hcall with hcall | hcall
    · exact .inl hcall
    · rw [List.mem_singleton.mp hcall]
      exact .inr (startCall_inv s.store kind)
  | @storeReplies i call dataKey nonce hi hphase =>
    have hcall := hs.calls call (List.mem_of_getElem? hi)
    exact ⟨hs.cache.mono (storeReply_extends _ _ _ _),
      hset (storeReply_inv hcall.issued (hcall.awaitStore hphase) dataKey nonce)⟩
  | @storeFails i call hi hphase =>
    have hcall := hs.calls call (List.mem_of_getElem? hi)
    refine ⟨hs.cache, hset (.of_rejected hcall.issued ?_)⟩
    cases call.kind with
    | decrypt encrypted context => exact fun _ _ => .inl rfl
    | _ => trivial
  | @resume i call record now hi hphase =>
    have hcall := hs.calls call (List.mem_of_getElem? hi)
    obtain ⟨hcache, hnew⟩ :=
      startLoad_inv aead hs.cache hcall.issued (hcall.haveRecord record hphase) now
    exact ⟨hcache, hset hnew⟩
  | @unwrapReplies i call record now key hi hphase hkey =>
    have hcall := hs.calls call (List.mem_of_getElem? hi)
    obtain ⟨hcache, hnew⟩ := finishLoad_inv aead config hs.cache
      hcall.issued (hcall.awaitUnwrap record now hphase) now hkey
    exact ⟨hcache, hset hnew⟩
  | @unwrapFails i call record now hi hphase =>
    have hcall := hs.calls call (List.mem_of_getElem? hi)
    refine ⟨hs.cache, hset (.of_rejected hcall.issued ?_)⟩
    cases call.kind with
    | decrypt encrypted context => exact fun _ _ => .inr rfl
    | _ => trivial
  | @finish i call record buffer key nonce hi hphase hkey =>
    have hcall := hs.calls call (List.mem_of_getElem? hi)
    obtain ⟨hrecord, key', hkeyOf, hheap⟩ := hcall.haveKey record buffer hphase
    rw [hkey] at hheap
    cases hheap
    exact ⟨hs.cache, hset (useKey_inv hcall.issued hrecord hkeyOf nonce)⟩
  | clearKeyCache => exact ⟨CacheInv.empty _ _, fun call hcall => .inl hcall⟩
  | otherServiceRotates orgId dataKey nonce =>
    exact ⟨hs.cache.mono (fun _ _ _ hkey => s.store.keyOf_activate hkey _ _ _),
      fun call hcall => .inl hcall⟩

/-- **One step** that wipes no held buffer keeps the invariant. -/
theorem step_inv {s s' : State wrapper} {e : Event} (hs : Inv aead s)
    (hkeep : KeepsHeldBuffers config s e) (h : step aead config s e = some s') : Inv aead s' := by
  have hstep := step_cases h
  obtain ⟨hcache, hcalls⟩ := step_running hs hstep
  refine ⟨hcache, fun call hcall => ?_⟩
  rcases hcalls call hcall with hold | hnew
  · refine (hs.calls call hold).mono (step_extends hstep) ?_
    intro record buffer hphase key hkey
    exact step_heap hstep hkey fun hw => hkeep buffer hw ⟨call, hold, record, hphase⟩
  · exact hnew

/-- **Runs that wipe no held buffer are safe**: every encryption that resolves used the data key
of the version it records, and every genuine value decrypts to its plaintext. -/
theorem keyCache_safe (aead : Aead) (config : CacheConfig) (store : DataKeyStore wrapper)
    (events : List Event) {s : State wrapper}
    (hkeep : Guarded (step aead config) (KeepsHeldBuffers config) (.initial store) events)
    (hrun : run (step aead config) (.initial store) events = some s) : s.Safe aead := by
  have hinv : Inv aead s :=
    run_invariant (fun _ _ _ hs hk h => step_inv hs hk h) (Inv.initial aead store) hkeep hrun
  exact fun call hcall => (hinv.calls call hcall).safe

/-! ## An eviction between two stretches -/

/-- A ciphertext that shows what it is bound to. -/
def plainAead : Aead where
  sealBytes key nonce aad plaintext :=
    (key ++ nonce ++ aad ++ plaintext, List.replicate TAG_BYTES 0)
  openBytes key nonce aad sealed :=
    if (key ++ nonce ++ aad).isPrefixOf sealed.1 then
      some (sealed.1.drop (key ++ nonce ++ aad).length)
    else none
  tag_length _ _ _ _ := List.length_replicate
  open_seal key nonce aad plaintext := by simp

def repeatedKey (byte : UInt8) : DataKey := ⟨List.replicate KEY_BYTES byte, List.length_replicate⟩

def zeroNonce : Nonce := ⟨List.replicate NONCE_BYTES 0, List.length_replicate⟩

def exampleWrapper : KeyWrapper := localMasterKey plainAead (ofAscii "kek") (repeatedKey 9)

/-- A cache of one entry. -/
def singleEntryCache : CacheConfig := ⟨60000, 1, by norm_num, le_refl 1⟩

def exampleContext (orgId : JsString) : SecretEncryptionContext :=
  ⟨orgId, ofAscii "project", ofAscii "environment", ofAscii "secret", 1⟩

/-- Two encryptions of an organization over each other: both miss the cache, and the load of the
second evicts the key of the first, which has been used. -/
def overlappingSchedule : List Event :=
  [.call (.encrypt [1] (exampleContext (ofAscii "a"))),
    .call (.encrypt [2] (exampleContext (ofAscii "a"))),
    .storeReplies 1 (repeatedKey 7) zeroNonce, .storeReplies 0 (repeatedKey 8) zeroNonce,
    .resume 0 0, .resume 1 0, .unwrapReplies 0, .finish 0 zeroNonce, .unwrapReplies 1,
    .finish 1 zeroNonce, .clearKeyCache]

def Phase.holdsKey : Phase → Bool
  | .haveKey _ _ => true
  | _ => false

theorem keepsHeldBuffers_of_none {config : CacheConfig} {s : State wrapper} {e : Event}
    (h : s.calls.all (fun call => !call.phase.holdsKey) = true) : KeepsHeldBuffers config s e := by
  rintro buffer - ⟨call, hcall, record, hphase⟩
  have hnone := List.all_eq_true.mp h call hcall
  rw [hphase] at hnone
  cases hnone

theorem keepsHeldBuffers_of_unwiped {config : CacheConfig} {s : State wrapper} {e : Event}
    (h : wiped config s e = []) : KeepsHeldBuffers config s e := by
  intro buffer hbuffer
  rw [h] at hbuffer
  cases hbuffer

theorem keyCache_safe_overlapping :
    ∃ s : State exampleWrapper,
      run (step plainAead singleEntryCache) (.initial .empty) overlappingSchedule = some s ∧
        s.Safe plainAead := by
  refine ⟨_, rfl, keyCache_safe plainAead singleEntryCache .empty overlappingSchedule ?_ rfl⟩
  -- Two events wipe a buffer, the second load and the clearing, and then no call holds one.
  refine .cons (keepsHeldBuffers_of_unwiped rfl) rfl ?_
  refine .cons (keepsHeldBuffers_of_unwiped rfl) rfl ?_
  refine .cons (keepsHeldBuffers_of_unwiped rfl) rfl ?_
  refine .cons (keepsHeldBuffers_of_unwiped rfl) rfl ?_
  refine .cons (keepsHeldBuffers_of_unwiped rfl) rfl ?_
  refine .cons (keepsHeldBuffers_of_unwiped rfl) rfl ?_
  refine .cons (keepsHeldBuffers_of_unwiped rfl) rfl ?_
  refine .cons (keepsHeldBuffers_of_unwiped rfl) rfl ?_
  refine .cons (keepsHeldBuffers_of_none rfl) rfl ?_
  refine .cons (keepsHeldBuffers_of_unwiped rfl) rfl ?_
  exact .cons (keepsHeldBuffers_of_none rfl) rfl trivial

/-- Two organizations encrypt at once; the second load evicts the key that the first call has
been given and not used yet. -/
def evictionSchedule : List Event :=
  [.call (.encrypt [1] (exampleContext (ofAscii "a"))),
    .call (.encrypt [2] (exampleContext (ofAscii "b"))),
    .storeReplies 0 (repeatedKey 7) zeroNonce, .storeReplies 1 (repeatedKey 8) zeroNonce,
    .resume 0 0, .unwrapReplies 0, .resume 1 0, .unwrapReplies 1, .finish 0 zeroNonce]

theorem evicted_not_safe :
    ∃ s : State exampleWrapper,
      run (step plainAead singleEntryCache) (.initial .empty) evictionSchedule = some s ∧
        ¬ s.Safe plainAead := by
  refine ⟨_, rfl, fun h => ?_⟩
  obtain ⟨⟨-, key, nonce, hkey, hsealed⟩, -⟩ := h _ (List.mem_of_getElem? (i := 0) rfl)
  have hseven : key = repeatedKey 7 := Option.some.inj (hkey.symm.trans rfl)
  have hbytes := congrArg (·.ciphertext.head?) hsealed
  rw [hseven] at hbytes
  -- the call sealed under the wiped buffer
  have hhead : some (0 : UInt8) = some 7 := hbytes
  exact absurd (Option.some.inj hhead) (by decide)

end Himitsu.Crypto
