import Himitsu.Crypto.Envelope
import Himitsu.Library.Runs

/-!
# The data-key cache under concurrent calls

Model of one `EnvelopeEncryptionService` with any number of calls in flight.  A call runs
without interruption from one `await` to the next; `Event` is one such stretch.

* `State.heap` — the key buffers; the cache and the suspended calls refer to them by index, and
  `wipe` is `fill(0)`.
* `startLoad`, `finishLoad` — `#loadKey` before and after its `await`.
* `step` — one stretch of one call, a reply of the store or of the key wrapper, or
  `clearKeyCache`.
* `KeepsHeldBuffers` — the stretch zero-fills no buffer that a suspended call holds.

Principal result: `step_cases` — what one event can do.
-/

set_option autoImplicit false

namespace Himitsu.Crypto

open JsString

/-! ## Service and calls -/

/-- The options that the constructor accepts. -/
structure CacheConfig where
  cacheTtlMs : ℚ
  maxCacheEntries : Nat
  ttl_nonneg : 0 ≤ cacheTtlMs
  max_pos : 1 ≤ maxCacheEntries

structure CacheEntry where
  buffer : Nat
  expiresAt : ℚ

/-- `Map<string, CacheEntry>` in insertion order. -/
abbrev Cache := List (JsString × CacheEntry)

inductive CallKind where
  | encrypt (plaintext : Bytes) (context : SecretEncryptionContext)
  | decrypt (encrypted : EncryptedSecretValue) (context : SecretEncryptionContext)
  | rotateDataKey (orgId : JsString)

inductive Outcome where
  | encrypted (value : EncryptedSecretValue)
  | decrypted (plaintext : Bytes)
  | rotated (version : Nat)

/-- Why a call rejects. -/
inductive Cause where
  | invalidContext
  | invalidMetadata
  | unknownVersion
  | storeFailed
  | unwrapFailed
  | authenticationFailed
  deriving DecidableEq, Repr

/-- Where a call is suspended, with the variables it still needs. -/
inductive Phase where
  | awaitStore
  | haveRecord (record : DataKeyRecord)
  | awaitUnwrap (record : DataKeyRecord) (now : ℚ)
  | haveKey (record : DataKeyRecord) (buffer : Nat)
  | resolved (outcome : Outcome)
  | rejected (cause : Cause)

/-- `issued` is the store when the call was made; only statements about calls read it. -/
structure Call (wrapper : KeyWrapper) where
  kind : CallKind
  phase : Phase
  issued : DataKeyStore wrapper

structure State (wrapper : KeyWrapper) where
  store : DataKeyStore wrapper
  heap : List Bytes
  cache : Cache
  calls : List (Call wrapper)

def State.initial {wrapper : KeyWrapper} (store : DataKeyStore wrapper) : State wrapper :=
  ⟨store, [], [], []⟩

/-! ## The cache -/

def zeroKey : Bytes := List.replicate KEY_BYTES 0

/-- `${record.orgId}:${record.version}`. -/
def cacheKey (record : DataKeyRecord) : JsString := record.orgId ++ 0x3A :: ofNat record.version

/-- `buffer.fill(0)`. -/
def wipe (heap : List Bytes) (buffer : Nat) : List Bytes := heap.set buffer zeroKey

def Cache.get (cache : Cache) (key : JsString) : Option CacheEntry := cache.lookup key

def Cache.delete (cache : Cache) (key : JsString) : Cache := cache.filter (·.1 ≠ key)

def Cache.set (cache : Cache) (key : JsString) (entry : CacheEntry) : Cache :=
  if (cache.lookup key).isSome then cache.map fun e => if e.1 = key then (key, entry) else e
  else cache ++ [(key, entry)]

/-- `#loadKey` up to its `await`: the heap, the cache, and where the call is then suspended. -/
def startLoad (heap : List Bytes) (cache : Cache) (record : DataKeyRecord) (now : ℚ) :
    List Bytes × Cache × Phase :=
  match cache.get (cacheKey record) with
  | some entry =>
    if entry.expiresAt > now then (heap, cache, .haveKey record entry.buffer)
    else (wipe heap entry.buffer, cache.delete (cacheKey record), .awaitUnwrap record now)
  | none => (heap, cache, .awaitUnwrap record now)

/-- The eviction of `#loadKey`. -/
def evict (config : CacheConfig) (heap : List Bytes) (cache : Cache) : List Bytes × Cache :=
  if config.maxCacheEntries ≤ cache.length then
    match cache with
    | (oldestCacheKey, entry) :: _ => (wipe heap entry.buffer, cache.delete oldestCacheKey)
    | [] => (heap, cache)
  else (heap, cache)

/-- `#loadKey` after its `await`: the unwrapped key becomes the buffer with the next index. -/
def finishLoad (config : CacheConfig) (heap : List Bytes) (cache : Cache) (record : DataKeyRecord)
    (now : ℚ) (key : DataKey) : List Bytes × Cache × Phase :=
  let (heap, cache) := evict config heap cache
  (heap ++ [key.bytes],
    cache.set (cacheKey record) ⟨heap.length, now + config.cacheTtlMs⟩,
    .haveKey record heap.length)

/-! ## Stretches -/

/-- The first stretch of a call, up to the `await` on the store. -/
def startCall : CallKind → Phase
  | .encrypt _ context => if context.isValid then .awaitStore else .rejected .invalidContext
  | .decrypt encrypted _ =>
    if encrypted.hasValidMetadata then .awaitStore else .rejected .invalidMetadata
  | .rotateDataKey orgId => if orgId.isEmpty then .rejected .invalidContext else .awaitStore

/-- What the store does for a call; the randomness is that of the key factory. -/
def storeReply {wrapper : KeyWrapper} (store : DataKeyStore wrapper) (kind : CallKind)
    (dataKey : DataKey) (nonce : Nonce) : DataKeyStore wrapper × Phase :=
  match kind with
  | .encrypt _ context =>
    let reply := store.ensureActive context.orgId dataKey nonce
    (reply.1, .haveRecord reply.2)
  | .decrypt encrypted context =>
    match store.getVersion context.orgId encrypted.keyVersion with
    | some record => (store, .haveRecord record)
    | none => (store, .rejected .unknownVersion)
  | .rotateDataKey orgId =>
    let reply := store.rotate orgId dataKey nonce
    (reply.1, .resolved (.rotated reply.2.version))

/-- The last stretch of a call, with the content of its key buffer at that moment. -/
def useKey (aead : Aead) (kind : CallKind) (record : DataKeyRecord) (key : Bytes)
    (nonce : Nonce) : Phase :=
  match kind with
  | .encrypt plaintext context =>
    .resolved (.encrypted (sealValue aead record.version key nonce context plaintext))
  | .decrypt encrypted context =>
    if context.isValid then
      match aead.openBytes key encrypted.nonce (contextBytes context)
          (encrypted.ciphertext, encrypted.authTag) with
      | some plaintext => .resolved (.decrypted plaintext)
      | none => .rejected .authenticationFailed
    else .rejected .invalidContext
  | .rotateDataKey _ => .resolved (.rotated record.version)

inductive Event where
  | call (kind : CallKind)
  | storeReplies (i : Nat) (dataKey : DataKey) (nonce : Nonce)
  | storeFails (i : Nat)
  | resume (i : Nat) (now : ℚ)
  | unwrapReplies (i : Nat)
  | unwrapFails (i : Nat)
  | finish (i : Nat) (nonce : Nonce)
  | clearKeyCache
  | otherServiceRotates (orgId : JsString) (dataKey : DataKey) (nonce : Nonce)

section

variable (aead : Aead) {wrapper : KeyWrapper} (config : CacheConfig)

def State.setPhase (s : State wrapper) (i : Nat) (call : Call wrapper) (phase : Phase) :
    State wrapper :=
  { s with calls := s.calls.set i { call with phase := phase } }

/-- The state after an event, `none` where no call is suspended there. -/
def step (s : State wrapper) : Event → Option (State wrapper)
  | .call kind => some { s with calls := s.calls ++ [⟨kind, startCall kind, s.store⟩] }
  | .storeReplies i dataKey nonce => do
    let call ← s.calls[i]?
    match call.phase with
    | .awaitStore =>
      let reply := storeReply s.store call.kind dataKey nonce
      some (State.setPhase { s with store := reply.1 } i call reply.2)
    | _ => none
  | .storeFails i => do
    let call ← s.calls[i]?
    match call.phase with
    | .awaitStore => some (s.setPhase i call (.rejected .storeFailed))
    | _ => none
  | .resume i now => do
    let call ← s.calls[i]?
    match call.phase with
    | .haveRecord record =>
      let load := startLoad s.heap s.cache record now
      some (State.setPhase { s with heap := load.1, cache := load.2.1 } i call load.2.2)
    | _ => none
  | .unwrapReplies i => do
    let call ← s.calls[i]?
    match call.phase with
    | .awaitUnwrap record now =>
      let key ← record.key wrapper
      let load := finishLoad config s.heap s.cache record now key
      some (State.setPhase { s with heap := load.1, cache := load.2.1 } i call load.2.2)
    | _ => none
  | .unwrapFails i => do
    let call ← s.calls[i]?
    match call.phase with
    | .awaitUnwrap _ _ => some (s.setPhase i call (.rejected .unwrapFailed))
    | _ => none
  | .finish i nonce => do
    let call ← s.calls[i]?
    match call.phase with
    | .haveKey record buffer =>
      let key ← s.heap[buffer]?
      some (s.setPhase i call (useKey aead call.kind record key nonce))
    | _ => none
  | .clearKeyCache =>
    some { s with heap := (s.cache.map (·.2.buffer)).foldl wipe s.heap, cache := [] }
  | .otherServiceRotates orgId dataKey nonce =>
    some { s with store := (s.store.rotate orgId dataKey nonce).1 }

/-! ## Safety -/

/-- What is promised about a call. -/
def CallSafe (store : DataKeyStore wrapper) (call : Call wrapper) : Prop :=
  match call.kind, call.phase with
  | .encrypt plaintext context, .resolved (.encrypted value) =>
    Sealed aead store value context plaintext ∧ decrypt aead store value context = .ok plaintext
  | .decrypt encrypted context, .resolved (.decrypted plaintext) =>
    ∀ original, Sealed aead call.issued encrypted context original → plaintext = original
  | .decrypt encrypted context, .rejected cause =>
    ∀ original, Sealed aead call.issued encrypted context original →
      cause = .storeFailed ∨ cause = .unwrapFailed
  | _, _ => True

def State.Safe (s : State wrapper) : Prop := ∀ call ∈ s.calls, CallSafe aead s.store call

/-- A suspended call that `#loadKey` has given this buffer. -/
def Holds (s : State wrapper) (buffer : Nat) : Prop :=
  ∃ call ∈ s.calls, ∃ record, call.phase = .haveKey record buffer

/-- The buffers that an event zero-fills. -/
def wiped (s : State wrapper) : Event → List Nat
  | .resume i now =>
    match (s.calls[i]?).map Call.phase with
    | some (.haveRecord record) =>
      match s.cache.get (cacheKey record) with
      | some entry => if entry.expiresAt > now then [] else [entry.buffer]
      | none => []
    | _ => []
  | .unwrapReplies _ =>
    if config.maxCacheEntries ≤ s.cache.length then (s.cache.head?.map (·.2.buffer)).toList else []
  | .clearKeyCache => s.cache.map (·.2.buffer)
  | _ => []

/-- The event zero-fills no buffer that a suspended call holds. -/
def KeepsHeldBuffers (s : State wrapper) (e : Event) : Prop :=
  ∀ buffer ∈ wiped config s e, ¬ Holds s buffer

end

/-! ## What a step can do -/

section

variable {aead : Aead} {wrapper : KeyWrapper} {config : CacheConfig}

/-- The steps, one constructor for each kind of stretch. -/
inductive Step (aead : Aead) (config : CacheConfig) (s : State wrapper) :
    Event → State wrapper → Prop where
  | call (kind : CallKind) :
    Step aead config s (.call kind)
      { s with calls := s.calls ++ [⟨kind, startCall kind, s.store⟩] }
  | storeReplies {i : Nat} {call : Call wrapper} (dataKey : DataKey) (nonce : Nonce)
    (hi : s.calls[i]? = some call) (hphase : call.phase = .awaitStore) :
    Step aead config s (.storeReplies i dataKey nonce)
      (State.setPhase { s with store := (storeReply s.store call.kind dataKey nonce).1 } i call
        (storeReply s.store call.kind dataKey nonce).2)
  | storeFails {i : Nat} {call : Call wrapper} (hi : s.calls[i]? = some call)
    (hphase : call.phase = .awaitStore) :
    Step aead config s (.storeFails i) (s.setPhase i call (.rejected .storeFailed))
  | resume {i : Nat} {call : Call wrapper} {record : DataKeyRecord} (now : ℚ)
    (hi : s.calls[i]? = some call) (hphase : call.phase = .haveRecord record) :
    Step aead config s (.resume i now)
      (State.setPhase { s with
        heap := (startLoad s.heap s.cache record now).1
        cache := (startLoad s.heap s.cache record now).2.1 } i call
        (startLoad s.heap s.cache record now).2.2)
  | unwrapReplies {i : Nat} {call : Call wrapper} {record : DataKeyRecord} {now : ℚ}
    {key : DataKey} (hi : s.calls[i]? = some call) (hphase : call.phase = .awaitUnwrap record now)
    (hkey : record.key wrapper = some key) :
    Step aead config s (.unwrapReplies i)
      (State.setPhase { s with
        heap := (finishLoad config s.heap s.cache record now key).1
        cache := (finishLoad config s.heap s.cache record now key).2.1 } i call
        (finishLoad config s.heap s.cache record now key).2.2)
  | unwrapFails {i : Nat} {call : Call wrapper} {record : DataKeyRecord} {now : ℚ}
    (hi : s.calls[i]? = some call) (hphase : call.phase = .awaitUnwrap record now) :
    Step aead config s (.unwrapFails i) (s.setPhase i call (.rejected .unwrapFailed))
  | finish {i : Nat} {call : Call wrapper} {record : DataKeyRecord} {buffer : Nat} {key : Bytes}
    (nonce : Nonce) (hi : s.calls[i]? = some call) (hphase : call.phase = .haveKey record buffer)
    (hkey : s.heap[buffer]? = some key) :
    Step aead config s (.finish i nonce)
      (s.setPhase i call (useKey aead call.kind record key nonce))
  | clearKeyCache :
    Step aead config s .clearKeyCache
      { s with heap := (s.cache.map (·.2.buffer)).foldl wipe s.heap, cache := [] }
  | otherServiceRotates (orgId : JsString) (dataKey : DataKey) (nonce : Nonce) :
    Step aead config s (.otherServiceRotates orgId dataKey nonce)
      { s with store := (s.store.rotate orgId dataKey nonce).1 }

theorem step_cases {s s' : State wrapper} {e : Event} (h : step aead config s e = some s') :
    Step aead config s e s' := by
  cases e with
  | call kind => cases h; exact .call kind
  | storeReplies i dataKey nonce =>
    obtain ⟨call, hi, h⟩ := Option.bind_eq_some_iff.mp h
    split at h
    · rename_i hphase
      cases h
      exact .storeReplies dataKey nonce hi hphase
    · cases h
  | storeFails i =>
    obtain ⟨call, hi, h⟩ := Option.bind_eq_some_iff.mp h
    split at h
    · rename_i hphase
      cases h
      exact .storeFails hi hphase
    · cases h
  | resume i now =>
    obtain ⟨call, hi, h⟩ := Option.bind_eq_some_iff.mp h
    split at h
    · rename_i record hphase
      cases h
      exact .resume now hi hphase
    · cases h
  | unwrapReplies i =>
    obtain ⟨call, hi, h⟩ := Option.bind_eq_some_iff.mp h
    split at h
    · rename_i record now hphase
      obtain ⟨key, hkey, h⟩ := Option.bind_eq_some_iff.mp h
      cases h
      exact .unwrapReplies hi hphase hkey
    · cases h
  | unwrapFails i =>
    obtain ⟨call, hi, h⟩ := Option.bind_eq_some_iff.mp h
    split at h
    · rename_i record now hphase
      cases h
      exact .unwrapFails hi hphase
    · cases h
  | finish i nonce =>
    obtain ⟨call, hi, h⟩ := Option.bind_eq_some_iff.mp h
    split at h
    · rename_i record buffer hphase
      obtain ⟨key, hkey, h⟩ := Option.bind_eq_some_iff.mp h
      cases h
      exact .finish nonce hi hphase hkey
    · cases h
  | clearKeyCache => cases h; exact .clearKeyCache
  | otherServiceRotates orgId dataKey nonce =>
    cases h; exact .otherServiceRotates orgId dataKey nonce

end

end Himitsu.Crypto
