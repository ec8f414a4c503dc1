import Himitsu.Crypto.Envelope
import Himitsu.Library.AssocList

/-!
# The data-key stores

Model of the implementations of `DataKeyStore` in `packages/crypto/src/index.ts`, one completed
call at a time.

* `KeyTable` — the rows of `org_encryption_keys` with the `#activate` that
  `PostgresDataKeyStore` and `PostgresTransactionDataKeyStore` share.
* `KeyMap` — `InMemoryDataKeyStore`.
* `Implements` — an implementation behaves as `DataKeyStore`.

Principal results: `keyTable_implements`, `keyMap_implements`; `numbered_activate` — the versions
of an organization stay `1..n`, of which the last one is active.
-/

set_option autoImplicit false

namespace Himitsu.Crypto

open JsString

/-! ## Implementations -/

abbrev WrappedKeyFactory := Nat → WrappedDataKey

/-- The interface `DataKeyStore`; an operation that throws is `none`. -/
structure StoreImpl (S : Type) where
  empty : S
  recordsOf : S → JsString → List DataKeyRecord
  getVersion : S → JsString → Nat → Option DataKeyRecord
  ensureActive : S → JsString → WrappedKeyFactory → Option (S × DataKeyRecord)
  rotate : S → JsString → WrappedKeyFactory → Option (S × DataKeyRecord)

/-- The largest `integer`. -/
def MAX_KEY_VERSION : Nat := 2147483647

/-- The rows of `org_encryption_keys`. -/
abbrev KeyTable := List DataKeyRecord

namespace KeyTable

def recordsOf (rows : KeyTable) (orgId : JsString) : List DataKeyRecord :=
  rows.filter (·.orgId = orgId)

def selectActive (rows : KeyTable) (orgId : JsString) : Option DataKeyRecord :=
  rows.find? fun row => row.orgId = orgId ∧ row.active

def getVersion (rows : KeyTable) (orgId : JsString) (version : Nat) : Option DataKeyRecord :=
  rows.find? fun row => row.orgId = orgId ∧ row.version = version

/-- `COALESCE(max(version), 0)::integer + 1`, unless it overflows. -/
def allocate (rows : KeyTable) (orgId : JsString) : Option Nat :=
  let version := ((rows.recordsOf orgId).map (·.version)).foldr max 0 + 1
  if version ≤ MAX_KEY_VERSION then some version else none

/-- `INSERT INTO org_encryption_keys` under its two unique indexes. -/
def insert (rows : KeyTable) (row : DataKeyRecord) : Option KeyTable :=
  if (rows.recordsOf row.orgId).any (·.version = row.version) ∨
      (row.active ∧ (rows.recordsOf row.orgId).any (·.active)) then none
  else some (rows ++ [row])

/-- `#activate`. -/
def activate (rows : KeyTable) (orgId : JsString) (factory : WrappedKeyFactory)
    (useExisting : Bool) : Option (KeyTable × DataKeyRecord) :=
  match if useExisting then rows.selectActive orgId else none with
  | some existing => some (rows, existing)
  | none => do
    let version ← rows.allocate orgId
    let row : DataKeyRecord := ⟨orgId, version, true, factory version⟩
    let rows ← KeyTable.insert (rows.map (DataKeyStore.retire orgId)) row
    some (rows, row)

end KeyTable

def keyTable : StoreImpl KeyTable where
  empty := []
  recordsOf := KeyTable.recordsOf
  getVersion := KeyTable.getVersion
  ensureActive rows orgId factory := rows.activate orgId factory true
  rotate rows orgId factory := rows.activate orgId factory false

/-- `Map<string, DataKeyRecord[]>`. -/
abbrev KeyMap := List (JsString × List DataKeyRecord)

namespace KeyMap

/-- `this.#records.get(orgId) ?? []`. -/
def recordsOf (map : KeyMap) (orgId : JsString) : List DataKeyRecord :=
  (map.lookup orgId).getD []

def getActive (map : KeyMap) (orgId : JsString) : Option DataKeyRecord :=
  (map.recordsOf orgId).find? (·.active)

def getVersion (map : KeyMap) (orgId : JsString) (version : Nat) : Option DataKeyRecord :=
  (map.recordsOf orgId).find? (·.version = version)

def activate (map : KeyMap) (orgId : JsString) (factory : WrappedKeyFactory) :
    KeyMap × DataKeyRecord :=
  let records := map.recordsOf orgId
  let version := (records.map (·.version)).foldr max 0 + 1
  let retired := records.map fun record =>
    if record.active then { record with active := false } else record
  let record : DataKeyRecord := ⟨orgId, version, true, factory version⟩
  (AssocList.set map orgId (retired ++ [record]), record)

def ensureActive (map : KeyMap) (orgId : JsString) (factory : WrappedKeyFactory) :
    KeyMap × DataKeyRecord :=
  match map.getActive orgId with
  | some existing => (map, existing)
  | none => map.activate orgId factory

end KeyMap

def keyMap : StoreImpl KeyMap where
  empty := []
  recordsOf := KeyMap.recordsOf
  getVersion := KeyMap.getVersion
  ensureActive map orgId factory := some (map.ensureActive orgId factory)
  rotate map orgId factory := some (map.activate orgId factory)

/-! ## Refinement -/

/-- The factory of `#generateWrappedKey`, with its randomness. -/
def keyFactory (wrapper : KeyWrapper) (orgId : JsString) (dataKey : DataKey) (nonce : Nonce) :
    WrappedKeyFactory :=
  fun version => wrapper.wrap orgId version dataKey nonce

/-- An implementation whose operations, where they succeed, are those of `DataKeyStore`. -/
structure Implements {S : Type} (impl : StoreImpl S) (wrapper : KeyWrapper)
    (rel : S → DataKeyStore wrapper → Prop) : Prop where
  empty : rel impl.empty .empty
  recordsOf : ∀ {s store}, rel s store → ∀ orgId,
    impl.recordsOf s orgId = store.records.filter (·.orgId = orgId)
  getVersion : ∀ {s store}, rel s store → ∀ orgId version,
    impl.getVersion s orgId version = store.getVersion orgId version
  ensureActive : ∀ {s store s' record orgId dataKey nonce}, rel s store →
    impl.ensureActive s orgId (keyFactory wrapper orgId dataKey nonce) = some (s', record) →
    rel s' (store.ensureActive orgId dataKey nonce).1 ∧
      record = (store.ensureActive orgId dataKey nonce).2
  rotate : ∀ {s store s' record orgId dataKey nonce}, rel s store →
    impl.rotate s orgId (keyFactory wrapper orgId dataKey nonce) = some (s', record) →
    rel s' (store.rotate orgId dataKey nonce).1 ∧ record = (store.rotate orgId dataKey nonce).2

theorem keyTable_activate {wrapper : KeyWrapper} {store : DataKeyStore wrapper} {rows : KeyTable}
    {record : DataKeyRecord} {orgId : JsString} {dataKey : DataKey} {nonce : Nonce}
    (useExisting : Bool) (hnone : (if useExisting then store.getActive orgId else none) = none)
    (h : KeyTable.activate store.records orgId (keyFactory wrapper orgId dataKey nonce) useExisting =
      some (rows, record)) :
    rows = (store.activate orgId dataKey nonce).records ∧
      record = store.newRecord orgId dataKey nonce := by
  unfold KeyTable.activate at h
  rw [show (if useExisting then KeyTable.selectActive store.records orgId else none) = none from
    hnone] at h
  obtain ⟨version, hversion, h⟩ := Option.bind_eq_some_iff.mp h
  obtain ⟨rows', hinsert, h⟩ := Option.bind_eq_some_iff.mp h
  unfold KeyTable.allocate at hversion
  dsimp only at hversion
  split at hversion
  · cases hversion
    unfold KeyTable.insert at hinsert
    split at hinsert
    · cases hinsert
    · cases hinsert
      cases h
      exact ⟨rfl, rfl⟩
  · cases hversion

theorem keyTable_implements (wrapper : KeyWrapper) :
    Implements keyTable wrapper fun rows store => rows = store.records where
  empty := rfl
  recordsOf h orgId := by rw [h]; rfl
  getVersion h orgId version := by rw [h]; rfl
  ensureActive {rows store rows' record orgId dataKey nonce} h hstep := by
    rw [h] at hstep
    cases hactive : store.getActive orgId with
    | some existing =>
      have hselect : KeyTable.selectActive store.records orgId = some existing := hactive
      simp only [keyTable, KeyTable.activate, if_true, hselect] at hstep
      cases hstep
      simp only [DataKeyStore.ensureActive, hactive, and_self]
    | none =>
      have hnew := keyTable_activate true hactive hstep
      simpa only [DataKeyStore.ensureActive, hactive] using hnew
  rotate {rows store rows' record orgId dataKey nonce} h hstep := by
    rw [h] at hstep
    exact keyTable_activate false rfl hstep

/-- The map holds the records of each organization. -/
def KeyMap.Holds {wrapper : KeyWrapper} (map : KeyMap) (store : DataKeyStore wrapper) : Prop :=
  ∀ orgId, map.recordsOf orgId = store.records.filter (·.orgId = orgId)

theorem KeyMap.recordsOf_activate (map : KeyMap) (orgId other : JsString)
    (factory : WrappedKeyFactory) :
    (map.activate orgId factory).1.recordsOf other =
      if other = orgId then
        (map.recordsOf orgId).map (fun record => { record with active := false }) ++
          [(map.activate orgId factory).2]
      else map.recordsOf other := by
  have hretire : ∀ record : DataKeyRecord,
      (if record.active then { record with active := false } else record) =
        { record with active := false } := by
    intro record
    split
    · rfl
    · rename_i h
      cases record
      simp only [Bool.not_eq_true] at h
      rw [h]
  unfold KeyMap.activate
  dsimp only
  simp only [hretire]
  split
  · rename_i h
    rw [h, KeyMap.recordsOf, AssocList.lookup_set_self]
    rfl
  · rename_i h
    rw [KeyMap.recordsOf, AssocList.lookup_set_of_ne h]
    rfl

variable {wrapper : KeyWrapper}

/-- The records of an organization after `activate`. -/
theorem DataKeyStore.filter_activate (store : DataKeyStore wrapper) (orgId other : JsString)
    (dataKey : DataKey) (nonce : Nonce) :
    (store.activate orgId dataKey nonce).records.filter (·.orgId = other) =
      if other = orgId then
        (store.records.filter (·.orgId = orgId)).map (fun record => { record with active := false }) ++
          [store.newRecord orgId dataKey nonce]
      else store.records.filter (·.orgId = other) := by
  have horg : ∀ record, (retire orgId record).orgId = record.orgId := fun record =>
    congrArg Prod.fst (retire_ident orgId record)
  simp only [activate, List.filter_append, List.filter_map]
  rw [show ((fun record : DataKeyRecord => decide (record.orgId = other)) ∘ retire orgId) =
    fun record => decide (record.orgId = other) from funext fun record => by simp [horg]]
  split
  · rename_i h
    rw [h]
    congr 1
    · refine List.map_congr_left fun record hrecord => ?_
      rw [retire, if_pos (by simpa using (List.mem_filter.mp hrecord).2)]
    · simp [newRecord]
  · rename_i h
    have hne : ¬ orgId = other := Ne.symm h
    rw [List.filter_cons_of_neg (by simp [newRecord, hne]), List.filter_nil, List.append_nil]
    conv_rhs => rw [← List.map_id (store.records.filter _)]
    refine List.map_congr_left fun record hrecord => ?_
    have hother : record.orgId = other := by simpa using (List.mem_filter.mp hrecord).2
    rw [retire, if_neg (by rw [hother]; exact h)]
    rfl

theorem KeyMap.Holds.activate {map : KeyMap} {store : DataKeyStore wrapper}
    (h : map.Holds store) (orgId : JsString) (dataKey : DataKey) (nonce : Nonce) :
    (map.activate orgId (keyFactory wrapper orgId dataKey nonce)).1.Holds
        (store.activate orgId dataKey nonce) ∧
      (map.activate orgId (keyFactory wrapper orgId dataKey nonce)).2 =
        store.newRecord orgId dataKey nonce := by
  have hnew : (map.activate orgId (keyFactory wrapper orgId dataKey nonce)).2 =
      store.newRecord orgId dataKey nonce := by
    simp only [KeyMap.activate, h orgId, keyFactory, DataKeyStore.newRecord,
      DataKeyStore.nextVersion]
  refine ⟨fun other => ?_, hnew⟩
  rw [KeyMap.recordsOf_activate, store.filter_activate, hnew, h orgId, h other]

theorem keyMap_implements (wrapper : KeyWrapper) :
    Implements keyMap wrapper KeyMap.Holds where
  empty _ := rfl
  recordsOf h orgId := h orgId
  getVersion {map store} h orgId version := by
    simp only [keyMap, KeyMap.getVersion, h orgId, List.find?_filter, DataKeyStore.getVersion,
      Bool.decide_and, Bool.decide_eq_true]
  ensureActive {map store map' record orgId dataKey nonce} h hstep := by
    have hactive : map.getActive orgId = store.getActive orgId := by
      simp only [KeyMap.getActive, h orgId, List.find?_filter, DataKeyStore.getActive,
        Bool.decide_and, Bool.decide_eq_true]
    simp only [keyMap, KeyMap.ensureActive, hactive] at hstep
    cases hget : store.getActive orgId with
    | some existing =>
      rw [hget] at hstep
      cases hstep
      simpa only [DataKeyStore.ensureActive, hget, and_true] using h
    | none =>
      rw [hget] at hstep
      have hnew := h.activate orgId dataKey nonce
      have hpair : map.activate orgId (keyFactory wrapper orgId dataKey nonce) = (map', record) :=
        Option.some.inj hstep
      rw [hpair] at hnew
      simpa only [DataKeyStore.ensureActive, hget] using hnew
  rotate {map store map' record orgId dataKey nonce} h hstep := by
    have hnew := h.activate orgId dataKey nonce
    rw [Option.some.inj hstep] at hnew
    exact hnew

/-! ## Versions -/

/-- The versions are `1..n` in order, and only the last one is active. -/
def Numbered (records : List DataKeyRecord) : Prop :=
  records.map (·.version) = List.range' 1 records.length ∧
    records.map (·.active) =
      List.replicate (records.length - 1) false ++ List.replicate (min 1 records.length) true

theorem foldr_max_range' (n : Nat) : (List.range' 1 n).foldr max 0 = n := by
  have hmax : ∀ xs : List Nat, ∀ m, (xs ++ [m]).foldr max 0 = max (xs.foldr max 0) m := by
    intro xs m
    induction xs with
    | nil => simp
    | cons x xs ih => rw [List.cons_append, List.foldr_cons, ih, List.foldr_cons, max_assoc]
  induction n with
  | zero => rfl
  | succ n ih =>
    rw [List.range'_concat, hmax, ih]
    omega

/-- **The versions stay `1..n`, and only the last one is active.** -/
theorem numbered_activate {store : DataKeyStore wrapper}
    (h : ∀ orgId, Numbered (store.records.filter (·.orgId = orgId))) (orgId : JsString)
    (dataKey : DataKey) (nonce : Nonce) (other : JsString) :
    Numbered ((store.activate orgId dataKey nonce).records.filter (·.orgId = other)) := by
  rw [store.filter_activate]
  split
  · obtain ⟨hversions, -⟩ := h orgId
    refine ⟨?_, ?_⟩
    · have hnext : store.nextVersion orgId =
          (store.records.filter (·.orgId = orgId)).length + 1 := by
        rw [DataKeyStore.nextVersion, hversions, foldr_max_range']
      rw [List.map_append, List.map_map, List.length_append, List.length_map]
      simp only [Function.comp_def]
      rw [hversions, List.map_singleton, List.length_singleton, List.range'_concat]
      simp only [DataKeyStore.newRecord, hnext, Nat.one_mul, Nat.add_comm 1]
    · rw [List.map_append, List.map_map, List.length_append, List.length_map]
      simp [Function.comp_def, DataKeyStore.newRecord]
  · exact h other

end Himitsu.Crypto
