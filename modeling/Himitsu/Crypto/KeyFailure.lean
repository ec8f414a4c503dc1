import Himitsu.Crypto.KeyStores
import Himitsu.Library.Transactions

/-!
# Key factories that reject

The factory of a new data key asks the provider of the master key, which may refuse.

* `Factory` — a factory that may reject; `KeyStores` has the calls whose factory does not.
* `KeyMap.tryActivate` — `#activate` of `InMemoryDataKeyStore`: it retires the active key in place
  before it waits for the factory.
* `activate` — `#activate` of the two stores on Postgres, statement by statement, inside any
  transaction of a caller.
* `Store` — the three implementations.

Principal result: `factory_rejection_iff` — a rejection leaves the store as it was, unless an
in-memory store rotates an active key.
-/

set_option autoImplicit false

namespace Himitsu.Crypto.Failure

open JsString Transactions

abbrev Factory := Nat → Option WrappedDataKey

inductive StoreError where
  | factoryRejected
  | other
  deriving DecidableEq, Repr

inductive Operation where
  | ensureActive
  | rotate
  deriving DecidableEq, Repr

/-! ## The store in memory -/

/-- The loop over the records, which are the array that the map holds. -/
def retireActive (map : KeyMap) (orgId : JsString) : KeyMap :=
  match map.lookup orgId with
  | none => map
  | some records =>
    AssocList.set map orgId (records.map fun record =>
      if record.active then { record with active := false } else record)

/-- `#activate` of `InMemoryDataKeyStore`. -/
def tryActivate (map : KeyMap) (orgId : JsString) (factory : Factory) :
    Except StoreError DataKeyRecord × KeyMap :=
  let version := ((map.recordsOf orgId).map (·.version)).foldr max 0 + 1
  let retired := retireActive map orgId
  match factory version with
  | none => (.error .factoryRejected, retired)
  | some wrapped =>
    let record : DataKeyRecord := ⟨orgId, version, true, wrapped⟩
    (.ok record, AssocList.set retired orgId (retired.recordsOf orgId ++ [record]))

def performInMemory (map : KeyMap) (operation : Operation) (orgId : JsString) (factory : Factory) :
    Except StoreError DataKeyRecord × KeyMap :=
  match operation, map.getActive orgId with
  | .ensureActive, some existing => (.ok existing, map)
  | _, _ => tryActivate map orgId factory

/-! ## The stores on Postgres -/

inductive KeyWrite where
  | retire (orgId : JsString)
  | insert (row : DataKeyRecord)

def KeyWrite.apply : KeyWrite → KeyTable → KeyTable
  | .retire orgId, rows => rows.map (DataKeyStore.retire orgId)
  | .insert row, rows => rows ++ [row]

section

variable {τ ω : Type}

/-- A transaction on the keys and on the other tables of its caller. -/
abbrev KeyTransaction (τ ω α : Type) := Prog (KeyTable × τ) Unit (KeyWrite ⊕ ω) StoreError α

def applyWrite (applyOther : ω → τ → τ) : KeyWrite ⊕ ω → KeyTable × τ → KeyTable × τ
  | .inl write, tables => (write.apply tables.1, tables.2)
  | .inr write, tables => (tables.1, applyOther write tables.2)

def orFail {α : Type} (error : StoreError) : Option α → Except StoreError α
  | none => .error error
  | some a => .ok a

/-- The `INSERT` under its two unique indexes. -/
def insertRow (row : DataKeyRecord) : KeyTransaction τ ω DataKeyRecord :=
  .execute (fun _ => []) (fun _ => [.inl (.insert row)])
    fun tables => (orFail .other (KeyTable.insert tables.1 row)).map fun _ => row

/-- `#activate` of `PostgresDataKeyStore` and of `PostgresTransactionDataKeyStore`. -/
def activate (orgId : JsString) (factory : Factory) (useExisting : Bool) :
    KeyTransaction τ ω DataKeyRecord := do
  Prog.selectForUpdate (fun _ => [()]) fun _ => ()
  let existing ← Prog.select fun tables : KeyTable × τ =>
    if useExisting then tables.1.selectActive orgId else none
  match existing with
  | some existing => pure existing
  | none => do
    let version ← .execute (fun _ => []) (fun _ => [])
      fun tables => orFail .other (KeyTable.allocate tables.1 orgId)
    let wrapped ← .ofExcept (orFail .factoryRejected (factory version))
    .execute (fun _ => []) (fun _ => [.inl (.retire orgId)]) fun _ => .ok ()
    insertRow ⟨orgId, version, true, wrapped⟩

def perform (operation : Operation) (orgId : JsString) (factory : Factory) :
    KeyTransaction τ ω DataKeyRecord :=
  activate orgId factory (operation = .ensureActive)

end

/-- With a factory that does not reject, the transaction is the `#activate` of `KeyTable`. -/
theorem run_activate {τ ω : Type} (applyOther : ω → τ → τ) (orgId : JsString)
    (factory : WrappedKeyFactory) (useExisting : Bool) (rows : KeyTable) (others : τ) :
    run (applyWrite applyOther) (activate orgId (fun version => some (factory version)) useExisting)
        (rows, others) =
      (orFail .other (KeyTable.activate rows orgId factory useExisting)).map fun result =>
        (result.2, (result.1, others)) := by
  unfold activate KeyTable.activate
  simp only [Prog.selectForUpdate, Prog.select, Prog.stmt_bind, Prog.done_ok_bind, run_stmt,
    applyAll_nil]
  cases (if useExisting then KeyTable.selectActive rows orgId else none) with
  | some existing => rfl
  | none =>
    simp only [Prog.execute, Prog.stmt_bind, run_stmt, applyAll_nil]
    cases KeyTable.allocate rows orgId with
    | none => rfl
    | some version =>
      simp only [orFail, Prog.ofExcept, Prog.done_ok_bind, run_stmt, insertRow, Prog.execute,
        applyAll_cons, applyAll_nil, applyWrite, KeyWrite.apply, Option.bind_eq_bind,
        Option.bind_some]
      cases hinsert : KeyTable.insert (rows.map (DataKeyStore.retire orgId))
          ⟨orgId, version, true, factory version⟩ with
      | none => rfl
      | some inserted =>
        have happended : inserted = rows.map (DataKeyStore.retire orgId) ++
            [⟨orgId, version, true, factory version⟩] := by
          unfold KeyTable.insert at hinsert
          split at hinsert
          · cases hinsert
          · exact (Option.some.inj hinsert).symm
        subst happended
        rfl

/-! ## The three implementations -/

/-- A store, with the tables of its database; a store that is bound to a transaction comes with
what the caller does before and after the call. -/
inductive Store (τ ω : Type) where
  | memory (map : KeyMap)
  | pool (rows : KeyTable)
  | bound (before : KeyTransaction τ ω Unit) (after : DataKeyRecord → KeyTransaction τ ω Unit)
      (tables : KeyTable × τ)

section

variable {τ ω : Type} (applyOther : ω → τ → τ)

/-- The transaction of a caller around one call. -/
def around (before : KeyTransaction τ ω Unit) (call : KeyTransaction τ ω DataKeyRecord)
    (after : DataKeyRecord → KeyTransaction τ ω Unit) : KeyTransaction τ ω DataKeyRecord := do
  before
  let record ← call
  after record
  pure record

/-- One call: what it returns, and the store after it. -/
def Store.perform (operation : Operation) (orgId : JsString) (factory : Factory) :
    Store τ ω → Except StoreError DataKeyRecord × Store τ ω
  | .memory map =>
    let result := performInMemory map operation orgId factory
    (result.1, .memory result.2)
  | .pool rows =>
    let call : KeyTransaction Unit Empty DataKeyRecord := Failure.perform operation orgId factory
    let result := transact (applyWrite fun _ other => other) call (rows, ())
    (result.1, .pool result.2.1)
  | .bound before after tables =>
    let result := transact (applyWrite applyOther)
      (around before (Failure.perform operation orgId factory) after) tables
    (result.1, .bound before after result.2)

/-- Whether a call retires an active key in memory. -/
def Store.retiresInMemory (operation : Operation) (orgId : JsString) : Store τ ω → Bool
  | .memory map => operation = .rotate && (map.getActive orgId).isSome
  | _ => false

end

/-! ## Rejections -/

theorem recordsOf_set (map : KeyMap) (orgId : JsString) (records : List DataKeyRecord) :
    KeyMap.recordsOf (AssocList.set map orgId records) orgId = records := by
  rw [KeyMap.recordsOf, AssocList.lookup_set_self, Option.getD_some]

/-- Without an active key there is nothing to retire. -/
theorem retireActive_of_none {map : KeyMap} {orgId : JsString}
    (h : map.getActive orgId = none) : retireActive map orgId = map := by
  unfold retireActive
  cases hrecords : map.lookup orgId with
  | none => rfl
  | some records =>
    unfold KeyMap.getActive KeyMap.recordsOf at h
    rw [hrecords, Option.getD_some, List.find?_eq_none] at h
    have hsame : records.map (fun record =>
        if record.active then { record with active := false } else record) = records := by
      conv_rhs => rw [← List.map_id records]
      refine List.map_congr_left fun record hrecord => ?_
      rw [if_neg (h record hrecord), id]
    simp only
    rw [hsame, AssocList.set_of_lookup hrecords]

/-- Afterwards no key is active. -/
theorem getActive_retireActive (map : KeyMap) (orgId : JsString) :
    (retireActive map orgId).getActive orgId = none := by
  unfold KeyMap.getActive
  rw [List.find?_eq_none]
  intro record hrecord
  unfold retireActive at hrecord
  split at hrecord
  · rename_i hnone
    rw [KeyMap.recordsOf, hnone] at hrecord
    cases hrecord
  · rw [recordsOf_set] at hrecord
    obtain ⟨old, -, rfl⟩ := List.mem_map.mp hrecord
    split
    · exact Bool.false_ne_true
    · assumption

theorem retireActive_iff {map : KeyMap} {orgId : JsString} :
    retireActive map orgId = map ↔ map.getActive orgId = none := by
  constructor
  · intro h
    rw [← h]
    exact getActive_retireActive map orgId
  · exact retireActive_of_none

theorem performInMemory_rejected {map : KeyMap} {operation : Operation} {orgId : JsString}
    {factory : Factory}
    (h : (performInMemory map operation orgId factory).1 = .error .factoryRejected) :
    (performInMemory map operation orgId factory).2 = retireActive map orgId ∧
      (operation = .ensureActive → map.getActive orgId = none) := by
  have htry : (tryActivate map orgId factory).1 = .error .factoryRejected →
      (tryActivate map orgId factory).2 = retireActive map orgId := by
    unfold tryActivate
    intro hfail
    cases hfactory : factory (((map.recordsOf orgId).map (·.version)).foldr max 0 + 1) with
    | none => simp only [hfactory]
    | some wrapped =>
      simp only [hfactory] at hfail
      cases hfail
  unfold performInMemory at h ⊢
  cases operation with
  | rotate => exact ⟨htry h, fun heq => by cases heq⟩
  | ensureActive =>
    cases hactive : map.getActive orgId with
    | some existing =>
      rw [hactive] at h
      cases h
    | none =>
      rw [hactive] at h
      exact ⟨htry h, fun _ => rfl⟩

/-- **A rejected factory leaves the store as it was, unless a store in memory rotates an active
key.** -/
theorem factory_rejection_iff {τ ω : Type} (applyOther : ω → τ → τ) (store : Store τ ω)
    (operation : Operation) (orgId : JsString) (factory : Factory)
    (h : (store.perform applyOther operation orgId factory).1 = .error .factoryRejected) :
    (store.perform applyOther operation orgId factory).2 = store ↔
      store.retiresInMemory operation orgId = false := by
  cases store with
  | memory map =>
    obtain ⟨hstate, hensure⟩ := performInMemory_rejected h
    simp only [Store.perform, Store.retiresInMemory, hstate, Store.memory.injEq, retireActive_iff]
    cases operation with
    | rotate => simp
    | ensureActive => simp [hensure rfl]
  | pool rows =>
    simp only [Store.retiresInMemory, iff_true]
    exact congrArg (fun tables : KeyTable × Unit => Store.pool tables.1) (transact_of_error _ h)
  | bound before after tables =>
    simp only [Store.retiresInMemory, iff_true]
    exact congrArg (Store.bound before after) (transact_of_error _ h)

def firstKey : DataKeyRecord := ⟨ofAscii "org", 1, true, ⟨ofAscii "kek", [], [], []⟩⟩

/-- The store in memory once the organization has its first key. -/
def afterFirstKey : Store Unit Empty := .memory [(ofAscii "org", [firstKey])]

def noOther (write : Empty) (_ : Unit) : Unit := write.elim

theorem factory_rejection_iff_pool :
    ((Store.pool [firstKey] : Store Unit Empty).perform noOther .rotate (ofAscii "org")
        fun _ => none).1 = .error .factoryRejected ∧
      (((Store.pool [firstKey] : Store Unit Empty).perform noOther .rotate (ofAscii "org")
        fun _ => none).2 = .pool [firstKey] ↔
      (Store.pool [firstKey] : Store Unit Empty).retiresInMemory .rotate (ofAscii "org") = false) :=
  ⟨rfl, factory_rejection_iff noOther (.pool [firstKey]) .rotate (ofAscii "org") (fun _ => none)
    rfl⟩

/-- A rotation whose factory rejects leaves the organization without an active key. -/
theorem rotation_loses_active_key :
    (afterFirstKey.perform noOther .rotate (ofAscii "org") fun _ => none).1 =
        .error .factoryRejected ∧
      (afterFirstKey.perform noOther .rotate (ofAscii "org") fun _ => none).2 ≠ afterFirstKey ∧
      KeyMap.getActive [(ofAscii "org", [firstKey])] (ofAscii "org") = some firstKey ∧
      (performInMemory [(ofAscii "org", [firstKey])] .rotate (ofAscii "org")
        fun _ => none).2.getActive (ofAscii "org") = none := by
  refine ⟨rfl, fun hsame => ?_, by decide, by decide⟩
  have hmap : retireActive [(ofAscii "org", [firstKey])] (ofAscii "org") =
      [(ofAscii "org", [firstKey])] := Store.memory.inj hsame
  exact absurd hmap (by decide)

end Himitsu.Crypto.Failure
