import Himitsu.ApiKeys.Service
import Himitsu.Library.Components

/-!
# The table of API keys

The table `api_keys` of `0001_core.sql` and `0010_api_keys.sql`, beside the other tables of its
organization.

* `StoredKey` — a row with its digest, its creator and its last use.
* `Tables` — the tables of an organization with its keys.
* `TableWrite` — the writes of the other services, those of membership requests, and those on keys.
* `store` — the tables with their locks.
* `Tables.WellFormed` — the unique constraints.
-/

set_option autoImplicit false

namespace Himitsu.ApiKeys

open JsString Crypto Database Transactions

/-! ## Rows -/

structure StoredKey extends ApiKeyRow where
  tokenHash : Bytes
  createdByUserId : Option Uuid
  lastUsedAt : Option Timestamp

/-- The columns that no statement changes. -/
def StoredKey.identity (row : StoredKey) : StoredKey :=
  { row with
    revokedAt := none
    lastUsedAt := none }

/-- `organizationDeletedAt` is the column of `organizations`. -/
structure Tables (wrapper : KeyWrapper) where
  db : Db wrapper
  organizationDeletedAt : Option Timestamp
  apiKeys : List StoredKey

/-! ## Writes -/

/-- `GREATEST(COALESCE(key.last_used_at, statement_timestamp()), statement_timestamp())`. -/
def StoredKey.lastUse (row : StoredKey) (time : Timestamp) : Timestamp :=
  max (row.lastUsedAt.getD time) time

/-- The `SET` lists on keys. -/
inductive KeyChange where
  | used (time : Timestamp)
  | revoked (time : Timestamp)
  deriving DecidableEq, Repr

def KeyChange.on (change : KeyChange) (row : StoredKey) : StoredKey :=
  match change with
  | .used time => { row with lastUsedAt := some (row.lastUse time) }
  | .revoked time => { row with revokedAt := some time }

inductive TableWrite where
  | tenant (write : Write)
  | insertMembership (row : Membership)
  | updateMembership (userId : Uuid) (role : Authz.Role)
  | deleteMembership (userId : Uuid)
  | insertKey (row : StoredKey)
  | updateKey (id : Uuid) (change : KeyChange)

/-- Whether a write is one on keys. -/
def TableWrite.onKeys : TableWrite → Bool
  | .insertKey _ | .updateKey _ _ => true
  | _ => false

variable {wrapper : KeyWrapper}

def Membership.withRole (role : Authz.Role) (row : Membership) : Membership :=
  { row with role := role }

def Tables.setMemberships (tables : Tables wrapper) (memberships : List Membership) :
    Tables wrapper :=
  { tables with db := { tables.db with memberships := memberships } }

def apply : TableWrite → Tables wrapper → Tables wrapper
  | .tenant write, tables => { tables with db := Database.apply write tables.db }
  | .insertMembership row, tables => tables.setMemberships (tables.db.memberships ++ [row])
  | .updateMembership userId role, tables =>
    tables.setMemberships
      (updateWhere (·.userId = userId) (Membership.withRole role) tables.db.memberships)
  | .deleteMembership userId, tables =>
    tables.setMemberships (tables.db.memberships.filter (·.userId ≠ userId))
  | .insertKey row, tables => { tables with apiKeys := tables.apiKeys ++ [row] }
  | .updateKey id change, tables =>
    { tables with apiKeys := updateWhere (·.id = id) change.on tables.apiKeys }

/-! ## Locks and parts -/

inductive TableLock where
  | tenant (lock : Lock)
  | membership (userId : Uuid)
  | key (id : Uuid)
  | tokenPrefix (text : JsString)
  | tokenHash (hash : Bytes)
  deriving DecidableEq

inductive TableContents (wrapper : KeyWrapper) where
  | tenant (contents : Contents wrapper)
  | membership (rows : List Membership)
  | key (rows : List StoredKey)
  | entry (ids : List Uuid)

def Tables.membershipRows (tables : Tables wrapper) (userId : Uuid) : List Membership :=
  tables.db.memberships.filter (·.userId = userId)

def Tables.keyRows (tables : Tables wrapper) (id : Uuid) : List StoredKey :=
  tables.apiKeys.filter (·.id = id)

def Tables.prefixIds (tables : Tables wrapper) (text : JsString) : List Uuid :=
  (tables.apiKeys.filter (·.tokenPrefix = text)).map (·.id)

def Tables.hashIds (tables : Tables wrapper) (hash : Bytes) : List Uuid :=
  (tables.apiKeys.filter (·.tokenHash = hash)).map (·.id)

def part : TableLock → Tables wrapper → TableContents wrapper
  | .tenant lock, tables => .tenant (Database.part lock tables.db)
  | .membership userId, tables => .membership (tables.membershipRows userId)
  | .key id, tables => .key (tables.keyRows id)
  | .tokenPrefix text, tables => .entry (tables.prefixIds text)
  | .tokenHash hash, tables => .entry (tables.hashIds hash)

def touches : TableWrite → Tables wrapper → List TableLock
  | .tenant write, tables => (Database.touches write tables.db).map .tenant
  | .insertMembership row, _ => [.membership row.userId]
  | .updateMembership userId _, _ => [.membership userId]
  | .deleteMembership userId, _ => [.membership userId]
  | .insertKey row, _ => [.key row.id, .tokenPrefix row.tokenPrefix, .tokenHash row.tokenHash]
  | .updateKey id _, _ => [.key id]

@[simp] theorem KeyChange.on_identity (change : KeyChange) (row : StoredKey) :
    (change.on row).identity = row.identity := by
  cases change <;> rfl

@[simp] theorem KeyChange.on_id (change : KeyChange) (row : StoredKey) :
    (change.on row).id = row.id := by
  cases change <;> rfl

@[simp] theorem KeyChange.on_tokenPrefix (change : KeyChange) (row : StoredKey) :
    (change.on row).tokenPrefix = row.tokenPrefix := by
  cases change <;> rfl

@[simp] theorem KeyChange.on_tokenHash (change : KeyChange) (row : StoredKey) :
    (change.on row).tokenHash = row.tokenHash := by
  cases change <;> rfl

/-! ## The store -/

/-- No write of the other services changes a membership. -/
theorem memberships_apply (write : Write) (db : Db wrapper) :
    (Database.apply write db).memberships = db.memberships := by
  cases write <;> rfl

theorem part_setMemberships (lock : Lock) (tables : Tables wrapper)
    (memberships : List Membership) :
    Database.part lock (tables.setMemberships memberships).db = Database.part lock tables.db := by
  cases lock <;> rfl

theorem touches_congr {write : Write} {tables tables' : Tables wrapper}
    (h : ∀ l ∈ (Database.touches write tables.db).map TableLock.tenant,
      part l tables' = part l tables) :
    ∀ lock ∈ Database.touches write tables.db,
      Database.part lock tables'.db = Database.part lock tables.db :=
  fun _ hlock => TableContents.tenant.inj (h _ (List.mem_map_of_mem hlock))

/-- A change of a key leaves what a column of the constraints shows. -/
theorem filter_update_map {κ : Type} [DecidableEq κ] (column : StoredKey → κ) {change : KeyChange}
    (hcolumn : ∀ row, column (change.on row) = column row) (id : Uuid) (k : κ)
    (rows : List StoredKey) :
    ((updateWhere (·.id = id) change.on rows).filter (column · = k)).map (·.id) =
      (rows.filter (column · = k)).map (·.id) := by
  rw [filter_updateWhere column fun row _ => hcolumn row]
  exact map_updateWhere change.on_id _

theorem keyRows_update (tables : Tables wrapper) (id other : Uuid) (change : KeyChange) :
    (apply (.updateKey id change) tables).keyRows other =
      if other = id then (tables.keyRows other).map change.on else tables.keyRows other :=
  filter_updateWhere_id (fun row : StoredKey => row.id) change.on_id id other tables.apiKeys

theorem membershipRows_update (tables : Tables wrapper) (userId other : Uuid) (role : Authz.Role) :
    (apply (.updateMembership userId role) tables).membershipRows other =
      if other = userId then (tables.membershipRows other).map (Membership.withRole role)
      else tables.membershipRows other :=
  filter_updateWhere_id (fun row : Membership => row.userId) (f := Membership.withRole role)
    (fun _ => rfl) userId other tables.db.memberships

/-- A write leaves the parts it does not touch as they are. -/
theorem part_apply_of_not_touched (w : TableWrite) (tables : Tables wrapper) (l : TableLock)
    (h : l ∉ touches w tables) : part l (apply w tables) = part l tables := by
  cases w with
  | tenant write =>
    cases l with
    | tenant lock =>
      have hlock : lock ∉ Database.touches write tables.db :=
        fun hmem => h (List.mem_map_of_mem hmem)
      exact congrArg TableContents.tenant
        (Database.part_apply_of_not_touched write tables.db lock hlock)
    | membership userId =>
      simp only [part, apply, Tables.membershipRows, memberships_apply]
    | key | tokenPrefix | tokenHash => rfl
  | insertMembership row =>
    cases l with
    | tenant lock => exact congrArg TableContents.tenant (part_setMemberships lock tables _)
    | membership userId =>
      have hne : row.userId ≠ userId := fun heq => h (by simp [touches, heq])
      simp [part, apply, Tables.membershipRows, Tables.setMemberships, List.filter_append, hne]
    | key | tokenPrefix | tokenHash => rfl
  | updateMembership userId role =>
    cases l with
    | tenant lock => exact congrArg TableContents.tenant (part_setMemberships lock tables _)
    | membership other =>
      have hne : other ≠ userId := fun heq => h (by simp [touches, heq])
      simp only [part, membershipRows_update, if_neg hne]
    | key | tokenPrefix | tokenHash => rfl
  | deleteMembership userId =>
    cases l with
    | tenant lock => exact congrArg TableContents.tenant (part_setMemberships lock tables _)
    | membership other =>
      have hne : other ≠ userId := fun heq => h (by simp [touches, heq])
      exact congrArg TableContents.membership
        (filter_key_of_ne (fun row : Membership => row.userId) hne tables.db.memberships)
    | key | tokenPrefix | tokenHash => rfl
  | insertKey row =>
    simp only [touches, List.mem_cons, List.not_mem_nil, or_false, not_or] at h
    cases l with
    | tenant | membership => rfl
    | key id =>
      have hne : row.id ≠ id := fun heq => h.1 (heq ▸ rfl)
      simp [part, apply, Tables.keyRows, List.filter_append, hne]
    | tokenPrefix text =>
      have hne : row.tokenPrefix ≠ text := fun heq => h.2.1 (heq ▸ rfl)
      simp [part, apply, Tables.prefixIds, List.filter_append, hne]
    | tokenHash hash =>
      have hne : row.tokenHash ≠ hash := fun heq => h.2.2 (heq ▸ rfl)
      simp [part, apply, Tables.hashIds, List.filter_append, hne]
  | updateKey id change =>
    cases l with
    | tenant | membership => rfl
    | key other =>
      have hne : other ≠ id := fun heq => h (by simp [touches, heq])
      simp only [part, keyRows_update, if_neg hne]
    | tokenPrefix text =>
      exact congrArg TableContents.entry
        (filter_update_map (fun row => row.tokenPrefix) change.on_tokenPrefix id text tables.apiKeys)
    | tokenHash hash =>
      exact congrArg TableContents.entry
        (filter_update_map (fun row => row.tokenHash) change.on_tokenHash id hash tables.apiKeys)

/-- A write depends only on the parts it touches. -/
theorem part_apply_congr (w : TableWrite) (tables tables' : Tables wrapper)
    (h : ∀ l ∈ touches w tables, part l tables' = part l tables) :
    touches w tables' = touches w tables ∧
      ∀ l ∈ touches w tables, part l (apply w tables') = part l (apply w tables) := by
  cases w with
  | tenant write =>
    obtain ⟨hsame, hparts⟩ := Database.part_apply_congr write tables.db tables'.db (touches_congr h)
    refine ⟨congrArg (List.map TableLock.tenant) hsame, fun l hl => ?_⟩
    obtain ⟨lock, hlock, rfl⟩ := List.mem_map.mp hl
    exact congrArg TableContents.tenant (hparts lock hlock)
  | insertMembership row =>
    refine ⟨rfl, fun l hl => ?_⟩
    have hpart := h l hl
    rw [List.mem_singleton.mp hl] at hpart ⊢
    simp only [part, TableContents.membership.injEq, Tables.membershipRows] at hpart
    simp only [part, apply, Tables.membershipRows, Tables.setMemberships, List.filter_append, hpart]
  | updateMembership userId role =>
    refine ⟨rfl, fun l hl => ?_⟩
    have hpart := h l hl
    rw [List.mem_singleton.mp hl] at hpart ⊢
    simp only [part, TableContents.membership.injEq] at hpart
    simp only [part, membershipRows_update, hpart]
  | deleteMembership userId =>
    refine ⟨rfl, fun l hl => ?_⟩
    rw [List.mem_singleton.mp hl]
    simp [part, apply, Tables.membershipRows, Tables.setMemberships, List.filter_filter]
  | insertKey row =>
    refine ⟨rfl, fun l hl => ?_⟩
    have hpart := h l hl
    cases l with
    | tenant | membership => exact hpart
    | key id =>
      simp only [part, TableContents.key.injEq, Tables.keyRows] at hpart
      simp only [part, apply, Tables.keyRows, List.filter_append, hpart]
    | tokenPrefix text =>
      simp only [part, TableContents.entry.injEq, Tables.prefixIds] at hpart
      simp only [part, apply, Tables.prefixIds, List.filter_append, List.map_append, hpart]
    | tokenHash hash =>
      simp only [part, TableContents.entry.injEq, Tables.hashIds] at hpart
      simp only [part, apply, Tables.hashIds, List.filter_append, List.map_append, hpart]
  | updateKey id change =>
    refine ⟨rfl, fun l hl => ?_⟩
    have hpart := h l hl
    rw [List.mem_singleton.mp hl] at hpart ⊢
    simp only [part, TableContents.key.injEq] at hpart
    simp only [part, keyRows_update, hpart]

def store : Interleaving.Store (Tables wrapper) TableLock TableWrite (TableContents wrapper) where
  apply := apply
  part := part
  touches := touches
  frame := part_apply_of_not_touched
  congr := part_apply_congr

/-! ## Constraints -/

/-- The primary key and the unique columns of `api_keys`. -/
structure Tables.WellFormed (tables : Tables wrapper) : Prop where
  ids : (tables.apiKeys.map (·.id)).Nodup
  prefixes : (tables.apiKeys.map (·.tokenPrefix)).Nodup
  hashes : (tables.apiKeys.map (·.tokenHash)).Nodup

theorem Tables.WellFormed.of_eq {tables tables' : Tables wrapper} (h : tables.WellFormed)
    (heq : tables'.apiKeys = tables.apiKeys) : tables'.WellFormed := by
  refine ⟨?_, ?_, ?_⟩ <;> rw [heq]
  · exact h.ids
  · exact h.prefixes
  · exact h.hashes

theorem Tables.WellFormed.update {tables : Tables wrapper} (h : tables.WellFormed) (id : Uuid)
    (change : KeyChange) : (apply (.updateKey id change) tables).WellFormed := by
  refine ⟨?_, ?_, ?_⟩ <;> simp only [apply]
  · rw [map_updateWhere change.on_id]
    exact h.ids
  · rw [map_updateWhere change.on_tokenPrefix]
    exact h.prefixes
  · rw [map_updateWhere change.on_tokenHash]
    exact h.hashes

/-- A column without the entry of a new row. -/
theorem nodup_concat {α κ : Type} [DecidableEq κ] (column : α → κ) {rows : List α} {row : α}
    (h : (rows.map column).Nodup) (hfree : rows.filter (column · = column row) = []) :
    ((rows ++ [row]).map column).Nodup := by
  rw [List.map_append, List.map_singleton]
  refine h.append (List.nodup_singleton _) fun k hold hnew => ?_
  obtain ⟨old, hmem, rfl⟩ := List.mem_map.mp hold
  exact List.filter_eq_nil_iff.mp hfree old hmem (by simpa using List.mem_singleton.mp hnew)

theorem Tables.WellFormed.insert {tables : Tables wrapper} (h : tables.WellFormed) {row : StoredKey}
    (hid : tables.keyRows row.id = []) (hinitial : tables.prefixIds row.tokenPrefix = [])
    (hhash : tables.hashIds row.tokenHash = []) :
    (apply (.insertKey row) tables).WellFormed where
  ids := nodup_concat (fun key : StoredKey => key.id) h.ids hid
  prefixes := nodup_concat (fun key : StoredKey => key.tokenPrefix) h.prefixes
    (List.map_eq_nil_iff.mp hinitial)
  hashes := nodup_concat (fun key : StoredKey => key.tokenHash) h.hashes
    (List.map_eq_nil_iff.mp hhash)

theorem Tables.WellFormed.row_eq {tables : Tables wrapper} (h : tables.WellFormed)
    {row other : StoredKey} (hrow : row ∈ tables.apiKeys) (hother : other ∈ tables.apiKeys)
    (hid : row.id = other.id) : row = other :=
  List.inj_on_of_nodup_map h.ids hrow hother hid

theorem mem_keyRows {tables : Tables wrapper} {id : Uuid} {row : StoredKey} :
    row ∈ tables.keyRows id ↔ row ∈ tables.apiKeys ∧ row.id = id := by
  simp [Tables.keyRows]

/-! ## Writes that are not on keys -/

/-- A write that is not one on keys leaves them. -/
theorem apiKeys_apply {w : TableWrite} (h : w.onKeys = false) (tables : Tables wrapper) :
    (apply w tables).apiKeys = tables.apiKeys := by
  cases w with
  | insertKey | updateKey => cases h
  | tenant | insertMembership | updateMembership | deleteMembership => rfl

theorem apiKeys_applyAll {ws : List TableWrite} (h : ∀ w ∈ ws, w.onKeys = false)
    (tables : Tables wrapper) : (applyAll apply ws tables).apiKeys = tables.apiKeys := by
  induction ws generalizing tables with
  | nil => rfl
  | cons w ws ih =>
    rw [applyAll_cons, ih (fun w' hw' => h w' (List.mem_cons_of_mem _ hw')),
      apiKeys_apply (h w (List.mem_cons_self ..))]

end Himitsu.ApiKeys
