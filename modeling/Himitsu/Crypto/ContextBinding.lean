import Himitsu.Crypto.KeyRotation
import Himitsu.Library.JsonParse

/-!
# Context binding

What binds a value to its organization, project, environment, secret and version is the
additional data that `secretAad` gives; a wrapped data key is bound by `dataKeyAad`.

* `contextBytes_injective`, `dataKeyAad_injective`, `contextBytes_ne_dataKeyAad` — the two
  encodings are injective and have disjoint images.
* `Aead.Ideal` — a ciphertext opens only under the key, nonce and additional data of its sealing.
* `callStep` — one call of a service, whether it succeeds or fails.
* `ContextBound` — what follows for every value that the services have encrypted.

Principal result: `context_binding`.
-/

set_option autoImplicit false

namespace Himitsu.Crypto

open JsString Json Runs Rotation

/-! ## The encodings -/

/-- A quoted string at the front of a text ends at its closing quote. -/
theorem jsonQuote_append_inj {s t rest rest' : JsString}
    (h : jsonQuote s ++ rest = jsonQuote t ++ rest') : s = t ∧ rest = rest' := by
  rw [jsonQuote_append, jsonQuote_append] at h
  have hparse := congrArg parseString (List.cons.inj h).2
  rw [parseString_quoteUnits, parseString_quoteUnits] at hparse
  exact Prod.mk.inj (Option.some.inj hparse)

/-- The text that `contextBytes` encodes. -/
def contextText (context : SecretEncryptionContext) : JsString :=
  0x5B :: (jsonQuote (ofAscii "himitsu-secret") ++ 0x2C :: (ofNat 1 ++ 0x2C ::
    (jsonQuote context.orgId ++ 0x2C :: (jsonQuote context.projectId ++ 0x2C ::
      (jsonQuote context.environmentId ++ 0x2C :: (jsonQuote context.secretId ++ 0x2C ::
        (ofNat context.recordVersion ++ [0x5D])))))))

/-- The text that `dataKeyAad` encodes. -/
def dataKeyText (orgId : JsString) (keyVersion : Nat) : JsString :=
  0x5B :: (jsonQuote (ofAscii "himitsu-dek") ++ 0x2C :: (ofNat 1 ++ 0x2C ::
    (jsonQuote orgId ++ 0x2C :: (ofNat keyVersion ++ [0x5D]))))

theorem contextBytes_eq (context : SecretEncryptionContext) :
    contextBytes context = Utf8.encode (contextText context) := by
  simp [contextBytes, contextText, stringify, serialize, serializeItems, wrap]

theorem dataKeyAad_eq (orgId : JsString) (keyVersion : Nat) :
    dataKeyAad orgId keyVersion = Utf8.encode (dataKeyText orgId keyVersion) := by
  simp [dataKeyAad, dataKeyText, stringify, serialize, serializeItems, wrap]

theorem isWellFormed_ofNat (n : Nat) (rest : JsString) :
    isWellFormed (ofNat n ++ rest) = isWellFormed rest := by
  refine isWellFormed_append (fun d hd => isSurrogate_ascii ?_) rest
  exact UInt16.le_trans (ofNat_digits n d hd).2 (by decide)

theorem isWellFormed_ascii {c : UInt16} (h : c ≤ 0x7F) (rest : JsString) :
    isWellFormed (c :: rest) = isWellFormed rest :=
  isWellFormed_cons (isSurrogate_ascii h) rest

/-- The text is well formed even where an identifier is not: a lone surrogate is escaped. -/
theorem isWellFormed_contextText (context : SecretEncryptionContext) :
    isWellFormed (contextText context) = true := by
  have hcomma := isWellFormed_ascii (show (0x2C : UInt16) ≤ 0x7F by decide)
  unfold contextText
  rw [isWellFormed_ascii (by decide), isWellFormed_jsonQuote, hcomma, isWellFormed_ofNat, hcomma,
    isWellFormed_jsonQuote, hcomma, isWellFormed_jsonQuote, hcomma, isWellFormed_jsonQuote, hcomma,
    isWellFormed_jsonQuote, hcomma, isWellFormed_ofNat, isWellFormed_ascii (by decide)]
  rfl

theorem isWellFormed_dataKeyText (orgId : JsString) (keyVersion : Nat) :
    isWellFormed (dataKeyText orgId keyVersion) = true := by
  have hcomma := isWellFormed_ascii (show (0x2C : UInt16) ≤ 0x7F by decide)
  unfold dataKeyText
  rw [isWellFormed_ascii (by decide), isWellFormed_jsonQuote, hcomma, isWellFormed_ofNat, hcomma,
    isWellFormed_jsonQuote, hcomma, isWellFormed_ofNat, isWellFormed_ascii (by decide)]
  rfl

theorem encode_injOn {s t : JsString} (hs : isWellFormed s = true) (ht : isWellFormed t = true)
    (h : Utf8.encode s = Utf8.encode t) : s = t := by
  rw [← Utf8.decode_encode hs, h, Utf8.decode_encode ht]

/-- **The encoding of contexts is injective.** -/
theorem contextBytes_injective {c c' : SecretEncryptionContext}
    (h : contextBytes c = contextBytes c') : c = c' := by
  rw [contextBytes_eq, contextBytes_eq] at h
  have htext := encode_injOn (isWellFormed_contextText c) (isWellFormed_contextText c') h
  -- the fields peel off from the left
  have hversion := (List.cons.inj htext).2
  replace hversion := (List.cons.inj (jsonQuote_append_inj hversion).2).2
  replace hversion := (List.cons.inj (List.append_cancel_left hversion)).2
  obtain ⟨horg, hrest⟩ := jsonQuote_append_inj hversion
  obtain ⟨hproject, hrest⟩ := jsonQuote_append_inj (List.cons.inj hrest).2
  obtain ⟨henvironment, hrest⟩ := jsonQuote_append_inj (List.cons.inj hrest).2
  obtain ⟨hsecret, hrest⟩ := jsonQuote_append_inj (List.cons.inj hrest).2
  have hrecord := ofNat_injective (List.append_cancel_right (List.cons.inj hrest).2)
  cases c
  cases c'
  simp_all

/-- **The encoding of data keys is injective.** -/
theorem dataKeyAad_injective {orgId orgId' : JsString} {keyVersion keyVersion' : Nat}
    (h : dataKeyAad orgId keyVersion = dataKeyAad orgId' keyVersion') :
    orgId = orgId' ∧ keyVersion = keyVersion' := by
  rw [dataKeyAad_eq, dataKeyAad_eq] at h
  have htext := encode_injOn (isWellFormed_dataKeyText orgId keyVersion)
    (isWellFormed_dataKeyText orgId' keyVersion') h
  have hrest := (List.cons.inj (jsonQuote_append_inj (List.cons.inj htext).2).2).2
  replace hrest := (List.cons.inj (List.append_cancel_left hrest)).2
  obtain ⟨horg, hrest⟩ := jsonQuote_append_inj hrest
  exact ⟨horg, ofNat_injective (List.append_cancel_right (List.cons.inj hrest).2)⟩

/-- **No context has the encoding of a data key**: the tags differ. -/
theorem contextBytes_ne_dataKeyAad (context : SecretEncryptionContext) (orgId : JsString)
    (keyVersion : Nat) : contextBytes context ≠ dataKeyAad orgId keyVersion := by
  intro h
  rw [contextBytes_eq, dataKeyAad_eq] at h
  have htext := encode_injOn (isWellFormed_contextText context)
    (isWellFormed_dataKeyText orgId keyVersion) h
  have htag := (jsonQuote_append_inj (List.cons.inj htext).2).1
  exact absurd htag (by decide)

/-! ## An ideal cipher -/

/-- A ciphertext opens only under the key, the nonce and the additional data of its sealing. -/
def Aead.Ideal (aead : Aead) : Prop :=
  ∀ key nonce aad plaintext key' nonce' aad' opened,
    aead.openBytes key' nonce' aad' (aead.sealBytes key nonce aad plaintext) = some opened →
      key' = key ∧ nonce' = nonce ∧ aad' = aad

variable {aead : Aead}

/-- A sealed value opens in its own context only, whatever the keys. -/
theorem Aead.Ideal.context_eq (hideal : aead.Ideal) {keyVersion : Nat} {key key' : Bytes}
    {nonce : Nonce} {c c' : SecretEncryptionContext} {plaintext opened : Bytes}
    (h : aead.openBytes key' (sealValue aead keyVersion key nonce c plaintext).nonce
      (contextBytes c') ((sealValue aead keyVersion key nonce c plaintext).ciphertext,
        (sealValue aead keyVersion key nonce c plaintext).authTag) = some opened) : c' = c := by
  obtain ⟨-, -, haad⟩ := hideal _ _ _ _ _ _ _ _ h
  exact contextBytes_injective haad

/-- **No value unwraps as a data key.** -/
theorem Aead.Ideal.value_not_unwrapped (hideal : aead.Ideal) (id : JsString) (masterKey : DataKey)
    (orgId : JsString) (keyVersion : Nat) (kekId : JsString) (valueVersion : Nat) (key : Bytes)
    (nonce : Nonce) (context : SecretEncryptionContext) (plaintext : Bytes) :
    (localMasterKey aead id masterKey).unwrap orgId keyVersion
      ⟨kekId, (sealValue aead valueVersion key nonce context plaintext).ciphertext,
        (sealValue aead valueVersion key nonce context plaintext).nonce,
        (sealValue aead valueVersion key nonce context plaintext).authTag⟩ = none := by
  show unwrapLocally aead id masterKey orgId keyVersion _ = none
  unfold unwrapLocally
  split
  · split
    · rename_i opened hopen
      obtain ⟨-, -, haad⟩ := hideal _ _ _ _ _ _ _ _ hopen
      exact absurd haad.symm (contextBytes_ne_dataKeyAad context orgId keyVersion)
    · rfl
  · rfl

section

variable {S : Type} {impl : StoreImpl S} {wrapper : KeyWrapper}

/-- What a successful decryption has done. -/
theorem decryptCall_opens {store : S} {service : Service} {now : ℚ}
    {encrypted : EncryptedSecretValue} {context : SecretEncryptionContext} {r : Service × Bytes}
    (h : decryptCall impl wrapper aead store service now encrypted context = some r) :
    ∃ key, aead.openBytes key encrypted.nonce (contextBytes context)
      (encrypted.ciphertext, encrypted.authTag) = some r.2 := by
  unfold decryptCall at h
  split at h
  · obtain ⟨record, -, h⟩ := Option.bind_eq_some_iff.mp h
    obtain ⟨⟨service', key⟩, -, h⟩ := Option.bind_eq_some_iff.mp h
    dsimp only at h
    split at h
    · obtain ⟨opened, hopen, h⟩ := Option.bind_eq_some_iff.mp h
      cases h
      exact ⟨key, hopen⟩
    · cases h
  · cases h

/-- **No wrapped data key decrypts as a value.** -/
theorem Aead.Ideal.key_not_decrypted (hideal : aead.Ideal) (store : S) (service : Service)
    (now : ℚ) (id : JsString) (masterKey dataKey : DataKey) (orgId : JsString) (keyVersion : Nat)
    (nonce : Nonce) (algorithm : JsString) (valueVersion : Nat)
    (context : SecretEncryptionContext) :
    decryptCall impl wrapper aead store service now
      ⟨algorithm, valueVersion,
        ((localMasterKey aead id masterKey).wrap orgId keyVersion dataKey nonce).ciphertext,
        ((localMasterKey aead id masterKey).wrap orgId keyVersion dataKey nonce).nonce,
        ((localMasterKey aead id masterKey).wrap orgId keyVersion dataKey nonce).authTag⟩
      context = none := by
  rw [Option.eq_none_iff_forall_ne_some]
  intro r h
  obtain ⟨key, hopen⟩ := decryptCall_opens h
  obtain ⟨-, -, haad⟩ := hideal _ _ _ _ _ _ _ _ hopen
  exact contextBytes_ne_dataKeyAad context orgId keyVersion haad

/-! ## Calls, successful or not -/

variable (impl wrapper aead) in
/-- The service after a decryption: it has loaded the key even where the value does not open. -/
def afterDecrypt (store : S) (service : Service) (now : ℚ) (encrypted : EncryptedSecretValue)
    (context : SecretEncryptionContext) : Service :=
  if encrypted.hasValidMetadata then
    ((impl.getVersion store context.orgId encrypted.keyVersion).bind fun record =>
      loadKey wrapper service record now).elim service (·.1)
  else service

variable (impl wrapper aead) in
/-- The system after a failed call. -/
def afterFailure (s : System S) (e : Rotation.Event) (service : Service) : System S :=
  match e.operation with
  | .decrypt encrypted context =>
    { s with
      services := s.services.set e.service
        (afterDecrypt impl wrapper s.store service e.now encrypted context) }
  | _ => s

variable (impl wrapper aead) in
/-- The system after a call of a service. -/
def callStep (s : System S) (e : Rotation.Event) : System S :=
  (Rotation.step impl wrapper aead s e).getD
    ((s.services[e.service]?).elim s (afterFailure impl wrapper s e))

variable (impl wrapper aead) in
/-- Every value that was encrypted decrypts under its own context and under no other one, on
every service and at any time. -/
def DecryptsInContext (s : System S) : Prop :=
  ∀ entry ∈ s.issued, ∀ service ∈ s.services, ∀ now context,
    (decryptCall impl wrapper aead s.store service now entry.envelope context).isSome = true ↔
      context = entry.context

variable {rel : S → DataKeyStore wrapper → Prop}

theorem afterDecrypt_cache (himpl : Implements impl wrapper rel) {store : S}
    {genuine : DataKeyStore wrapper} (hrel : rel store genuine) {service : Service}
    (hcache : CacheInv genuine service.heap service.cache) (now : ℚ)
    (encrypted : EncryptedSecretValue) (context : SecretEncryptionContext) :
    CacheInv genuine (afterDecrypt impl wrapper store service now encrypted context).heap
      (afterDecrypt impl wrapper store service now encrypted context).cache := by
  unfold afterDecrypt
  split
  · cases hrecord : impl.getVersion store context.orgId encrypted.keyVersion with
    | none => exact hcache
    | some record =>
      rw [himpl.getVersion hrel] at hrecord
      obtain ⟨service', key, hload, -, hcache'⟩ :=
        loadKey_spec hcache (genuine.getVersion_mem hrecord).1 now
      rw [Option.bind_some, hload]
      exact hcache'
  · exact hcache

/-- **One call**, successful or not, keeps the invariant of the system. -/
theorem callStep_inv (himpl : Implements impl wrapper rel) {s : System S} {e : Rotation.Event}
    (h : ∃ store, Rotation.Inv rel aead s store) :
    ∃ store, Rotation.Inv rel aead (callStep aead impl wrapper s e) store := by
  obtain ⟨store, h⟩ := h
  unfold callStep
  cases hstep : Rotation.step impl wrapper aead s e with
  | some s' =>
    obtain ⟨store', h', -, -⟩ := Rotation.step_inv himpl h hstep
    exact ⟨store', h'⟩
  | none =>
    refine ⟨store, ?_⟩
    cases hservice : s.services[e.service]? with
    | none => exact h
    | some service =>
      show Rotation.Inv rel aead (afterFailure impl wrapper s e service) store
      unfold afterFailure
      cases e.operation with
      | decrypt encrypted context =>
        exact ⟨h.rel, h.numbered, caches_set h.caches (afterDecrypt_cache himpl h.rel
          (h.caches service (List.mem_of_getElem? hservice)) e.now encrypted context), h.issued⟩
      | encrypt | rotateDataKey | clearKeyCache => exact h

theorem calls_inv (himpl : Implements impl wrapper rel) (events : List Rotation.Event) :
    ∀ {s : System S}, (∃ store, Rotation.Inv rel aead s store) →
      ∃ store, Rotation.Inv rel aead (events.foldl (callStep aead impl wrapper) s) store := by
  induction events with
  | nil => exact fun h => h
  | cons e events ih => exact fun h => ih (callStep_inv himpl h)

theorem decryptsInContext_of_inv (himpl : Implements impl wrapper rel) (hideal : aead.Ideal)
    {s : System S} {store : DataKeyStore wrapper} (h : Rotation.Inv rel aead s store) :
    DecryptsInContext aead impl wrapper s := by
  intro entry hentry service hservice now context
  constructor
  · intro hsome
    obtain ⟨r, hr⟩ := Option.isSome_iff_exists.mp hsome
    obtain ⟨key, hopen⟩ := decryptCall_opens hr
    obtain ⟨-, key', nonce, -, hsealed⟩ := h.issued entry hentry
    rw [hsealed] at hopen
    exact hideal.context_eq hopen
  · rintro rfl
    have hdecrypts := h.decrypts himpl hentry hservice now
    rw [Option.map_eq_some_iff] at hdecrypts
    obtain ⟨r, hr, -⟩ := hdecrypts
    rw [hr]
    rfl

end

/-! ## Calls in flight -/

/-- A resolved encryption sealed its value in its context, under whatever key its buffer held; a
resolved decryption opened its value in its context. -/
def Call.Bound {wrapper : KeyWrapper} (aead : Aead) (call : Call wrapper) : Prop :=
  match call.kind, call.phase with
  | .encrypt plaintext context, .resolved (.encrypted value) =>
    ∃ keyVersion key nonce, value = sealValue aead keyVersion key nonce context plaintext
  | .decrypt encrypted context, .resolved (.decrypted plaintext) =>
    ∃ key, aead.openBytes key encrypted.nonce (contextBytes context)
      (encrypted.ciphertext, encrypted.authTag) = some plaintext
  | _, _ => True

section

variable {wrapper : KeyWrapper} {config : CacheConfig}

theorem bound_of_unresolved {kind : CallKind} {phase : Phase} {issued : DataKeyStore wrapper}
    (h : ∀ outcome, phase ≠ .resolved outcome) : Call.Bound aead ⟨kind, phase, issued⟩ := by
  unfold Call.Bound
  split
  · rename_i hphase
    exact absurd hphase (h _)
  · rename_i hphase
    exact absurd hphase (h _)
  · trivial

theorem bound_useKey (kind : CallKind) (record : DataKeyRecord) (key : Bytes) (nonce : Nonce)
    (issued : DataKeyStore wrapper) :
    Call.Bound aead ⟨kind, useKey aead kind record key nonce, issued⟩ := by
  cases kind with
  | encrypt plaintext context => exact ⟨_, _, _, rfl⟩
  | decrypt encrypted context =>
    by_cases hvalid : context.isValid = true
    · cases hopen : aead.openBytes key encrypted.nonce (contextBytes context)
        (encrypted.ciphertext, encrypted.authTag) with
      | none => simp [Call.Bound, useKey, hvalid, hopen]
      | some plaintext =>
        simp only [Call.Bound, useKey, hvalid, hopen, if_true]
        exact ⟨key, hopen⟩
    · simp [Call.Bound, useKey, hvalid]
  | rotateDataKey orgId => trivial

theorem bound_step {s s' : State wrapper} {e : Event} (h : ∀ call ∈ s.calls, call.Bound aead)
    (hstep : Step aead config s e s') : ∀ call ∈ s'.calls, call.Bound aead := by
  have hset : ∀ {i : Nat} {new : Call wrapper}, new.Bound aead →
      ∀ call ∈ s.calls.set i new, call.Bound aead := by
    intro i new hnew call hcall
    rcases List.mem_or_eq_of_mem_set hcall with hcall | rfl
    · exact h call hcall
    · exact hnew
  cases hstep with
  | call kind =>
    intro call hcall
    rcases List.mem_append.mp hcall with hcall | hcall
    · exact h call hcall
    · rw [List.mem_singleton.mp hcall]
      refine bound_of_unresolved fun outcome => ?_
      cases kind <;> · simp only [startCall]; split <;> simp
  | @storeReplies i call dataKey nonce hi hphase =>
    refine hset ?_
    cases hkind : call.kind with
    | encrypt plaintext context => exact bound_of_unresolved (by simp [storeReply])
    | decrypt encrypted context =>
      refine bound_of_unresolved fun outcome => ?_
      simp only [storeReply]
      split <;> simp
    | rotateDataKey orgId => simp [Call.Bound]
  | storeFails hi hphase => exact hset (bound_of_unresolved (by simp))
  | @resume i call record now hi hphase =>
    refine hset (bound_of_unresolved fun outcome => ?_)
    simp only [startLoad]
    split
    · split <;> simp
    · simp
  | unwrapReplies hi hphase hkey => exact hset (bound_of_unresolved (by simp [finishLoad]))
  | unwrapFails hi hphase => exact hset (bound_of_unresolved (by simp))
  | finish nonce hi hphase hkey => exact hset (bound_useKey _ _ _ _ _)
  | clearKeyCache => exact h
  | otherServiceRotates orgId dataKey nonce => exact h

end

/-! ## The result -/

/-- What binds values and data keys to their contexts. -/
structure ContextBound (aead : Aead) (wrapper : KeyWrapper) : Prop where
  context_injective : ∀ c c', contextBytes c = contextBytes c' → c = c'
  dataKey_injective : ∀ orgId keyVersion orgId' keyVersion',
    dataKeyAad orgId keyVersion = dataKeyAad orgId' keyVersion' →
      orgId = orgId' ∧ keyVersion = keyVersion'
  disjoint : ∀ c orgId keyVersion, contextBytes c ≠ dataKeyAad orgId keyVersion
  /-- After any calls of any services that share the database. -/
  table : ∀ (configs : List CacheConfig) (events : List Rotation.Event),
    DecryptsInContext aead keyTable wrapper
      (events.foldl (callStep aead keyTable wrapper) (.initial keyTable configs))
  /-- After any calls of any services that share an in-memory store. -/
  map : ∀ (configs : List CacheConfig) (events : List Rotation.Event),
    DecryptsInContext aead keyMap wrapper
      (events.foldl (callStep aead keyMap wrapper) (.initial keyMap configs))
  /-- Also between calls in flight, a value opens in no other context. -/
  inFlight : ∀ (config : CacheConfig) (store : DataKeyStore wrapper) (events : List Event)
    (s : State wrapper), run (step aead config) (.initial store) events = some s →
      ∀ sealing ∈ s.calls, ∀ opening ∈ s.calls, ∀ value plaintext c c' opened,
        sealing.kind = .encrypt plaintext c → sealing.phase = .resolved (.encrypted value) →
        opening.kind = .decrypt value c' → opening.phase = .resolved (.decrypted opened) → c' = c
  value_not_key : ∀ id masterKey orgId keyVersion kekId valueVersion key nonce context plaintext,
    (localMasterKey aead id masterKey).unwrap orgId keyVersion
      ⟨kekId, (sealValue aead valueVersion key nonce context plaintext).ciphertext,
        (sealValue aead valueVersion key nonce context plaintext).nonce,
        (sealValue aead valueVersion key nonce context plaintext).authTag⟩ = none
  key_not_value : ∀ {S : Type} (impl : StoreImpl S) (store : S) (service : Service) (now : ℚ) id
    masterKey dataKey orgId keyVersion nonce algorithm valueVersion context,
    decryptCall impl wrapper aead store service now
      ⟨algorithm, valueVersion,
        ((localMasterKey aead id masterKey).wrap orgId keyVersion dataKey nonce).ciphertext,
        ((localMasterKey aead id masterKey).wrap orgId keyVersion dataKey nonce).nonce,
        ((localMasterKey aead id masterKey).wrap orgId keyVersion dataKey nonce).authTag⟩
      context = none

/-- **Context binding.** -/
theorem context_binding (aead : Aead) (wrapper : KeyWrapper) (hideal : aead.Ideal) :
    ContextBound aead wrapper where
  context_injective _ _ := contextBytes_injective
  dataKey_injective _ _ _ _ := dataKeyAad_injective
  disjoint := contextBytes_ne_dataKeyAad
  table configs events := by
    have himpl := keyTable_implements wrapper
    obtain ⟨store, h⟩ := calls_inv himpl events ⟨_, Rotation.Inv.initial himpl configs⟩
    exact decryptsInContext_of_inv himpl hideal h
  map configs events := by
    have himpl := keyMap_implements wrapper
    obtain ⟨store, h⟩ := calls_inv himpl events ⟨_, Rotation.Inv.initial himpl configs⟩
    exact decryptsInContext_of_inv himpl hideal h
  inFlight config store events s hrun sealing hsealing opening hopening value plaintext c c' opened
      hkind hphase hkind' hphase' := by
    have hbound : ∀ call ∈ s.calls, call.Bound aead :=
      invariant_of_run (fun _ _ _ h hstep => bound_step h (step_cases hstep))
        (by simp [State.initial]) hrun
    have hvalue := hbound sealing hsealing
    have hopen := hbound opening hopening
    simp only [Call.Bound, hkind, hphase] at hvalue
    simp only [Call.Bound, hkind', hphase'] at hopen
    obtain ⟨keyVersion, key, nonce, rfl⟩ := hvalue
    obtain ⟨key', hopen⟩ := hopen
    exact hideal.context_eq hopen
  value_not_key := hideal.value_not_unwrapped
  key_not_value _ := hideal.key_not_decrypted

/-! ## A cipher that is ideal -/

/-- The length in ones, a zero, and the bytes. -/
def frame (bytes : Bytes) : Bytes := List.replicate bytes.length 1 ++ 0 :: bytes

theorem frame_append_inj : ∀ {xs ys rest rest' : Bytes},
    frame xs ++ rest = frame ys ++ rest' → xs = ys ∧ rest = rest' := by
  have hcount : ∀ {m n : Nat} {t t' : Bytes},
      List.replicate m 1 ++ 0 :: t = List.replicate n 1 ++ 0 :: t' → m = n ∧ t = t' := by
    intro m
    induction m with
    | zero =>
      intro n t t' h
      cases n with
      | zero => simpa using h
      | succ n => simp [List.replicate_succ] at h
    | succ m ih =>
      intro n t t' h
      cases n with
      | zero => simp [List.replicate_succ] at h
      | succ n =>
        simp only [List.replicate_succ, List.cons_append, List.cons.injEq, true_and] at h
        exact ⟨congrArg (· + 1) (ih h).1, (ih h).2⟩
  intro xs ys rest rest' h
  simp only [frame, List.append_assoc, List.cons_append] at h
  obtain ⟨hlength, hrest⟩ := hcount h
  exact List.append_inj hrest hlength

theorem zeroTag_length (_key _nonce _aad _plaintext : Bytes) :
    (List.replicate TAG_BYTES (0 : UInt8)).length = TAG_BYTES :=
  List.length_replicate

/-- A cipher whose ciphertexts show, in frames, what they are bound to. -/
def framedAead : Aead where
  sealBytes key nonce aad plaintext :=
    (frame key ++ (frame nonce ++ (frame aad ++ plaintext)), List.replicate TAG_BYTES 0)
  openBytes key nonce aad sealed :=
    if (frame key ++ (frame nonce ++ frame aad)).isPrefixOf sealed.1 then
      some (sealed.1.drop (frame key ++ (frame nonce ++ frame aad)).length)
    else none
  tag_length := zeroTag_length
  open_seal key nonce aad plaintext := by
    have hassoc : frame key ++ (frame nonce ++ (frame aad ++ plaintext)) =
        (frame key ++ (frame nonce ++ frame aad)) ++ plaintext := by
      simp only [List.append_assoc]
    simp only [hassoc, List.drop_left]
    rw [if_pos (by simp)]

theorem framedAead_ideal : framedAead.Ideal := by
  intro key nonce aad plaintext key' nonce' aad' opened h
  have hstart : (frame key' ++ (frame nonce' ++ frame aad')).isPrefixOf
      (frame key ++ (frame nonce ++ (frame aad ++ plaintext))) = true := by
    by_contra hne
    have hnone : framedAead.openBytes key' nonce' aad' (framedAead.sealBytes key nonce aad plaintext) =
        none := if_neg hne
    rw [hnone] at h
    cases h
  obtain ⟨rest, hrest⟩ := List.isPrefixOf_iff_prefix.mp hstart
  simp only [List.append_assoc] at hrest
  obtain ⟨hkey, hrest⟩ := frame_append_inj hrest
  obtain ⟨hnonce, hrest⟩ := frame_append_inj hrest
  exact ⟨hkey, hnonce, (frame_append_inj hrest).1⟩

def framedWrapper : KeyWrapper := localMasterKey framedAead (ofAscii "kek") (repeatedKey 9)

def framedValue : EncryptedSecretValue :=
  sealValue framedAead 1 (repeatedKey 7).bytes zeroNonce (exampleContext (ofAscii "a")) [1]

def otherContext : SecretEncryptionContext :=
  { exampleContext (ofAscii "a") with secretId := ofAscii "other" }

/-- A value is encrypted, the key rotated, and the value decrypted in its own context and in
another one. -/
def contextRun : List Rotation.Event :=
  [⟨0, 0, .encrypt [1] (exampleContext (ofAscii "a")) (repeatedKey 7) zeroNonce zeroNonce⟩,
    ⟨0, 1, .rotateDataKey (ofAscii "a") (repeatedKey 8) zeroNonce⟩,
    ⟨0, 2, .decrypt framedValue (exampleContext (ofAscii "a"))⟩,
    ⟨0, 3, .decrypt framedValue otherContext⟩]

def afterContextRun : System KeyTable :=
  contextRun.foldl (callStep framedAead keyTable framedWrapper)
    (.initial keyTable [singleEntryCache])

theorem context_binding_framed :
    ∃ entry service, afterContextRun.issued = [entry] ∧ afterContextRun.services = [service] ∧
      (decryptCall keyTable framedWrapper framedAead afterContextRun.store service 4
        entry.envelope (exampleContext (ofAscii "a"))).isSome = true ∧
      (decryptCall keyTable framedWrapper framedAead afterContextRun.store service 4
        entry.envelope otherContext).isSome = false := by
  have hbound := (context_binding framedAead framedWrapper framedAead_ideal).table
    [singleEntryCache] contextRun
  have hissued : afterContextRun.issued.map (·.context) = [exampleContext (ofAscii "a")] := by
    decide +kernel
  obtain ⟨entry, hentry, hcontext⟩ := List.map_eq_singleton_iff.mp hissued
  obtain ⟨service, hservice⟩ := List.length_eq_one_iff.mp
    (show afterContextRun.services.length = 1 by decide +kernel)
  have hopens := hbound entry (hentry ▸ List.mem_singleton_self _) service
    (hservice ▸ List.mem_singleton_self _) 4
  refine ⟨entry, service, hentry, hservice, (hopens _).mpr hcontext.symm, ?_⟩
  refine Bool.eq_false_iff.mpr fun hother => ?_
  have hsecret := congrArg (·.secretId) (((hopens _).mp hother).trans hcontext)
  exact absurd hsecret (by decide +kernel)

end Himitsu.Crypto
