import Himitsu.ApiKeys.Tables
import Himitsu.Library.Machines

/-!
# The ledger of API keys

What the table of keys is for: keys are issued, revoked once and for all, and used while they are
neither revoked nor expired.

* `KeyEvent`, `ledger` — the events, and the machine on the rows of the table.
* `Revoked` — the state of a key that no event changes.

Principal results: `revoked_of_run` — no event after a revocation uses the key or moves its time;
`issued_of_run` — where the keys come from.
-/

set_option autoImplicit false

namespace Himitsu.ApiKeys

open Crypto Database Interleaving

inductive KeyEvent where
  | issued (row : StoredKey)
  | revoked (id : Uuid) (time : Timestamp)
  | used (id : Uuid) (time : Timestamp)

/-- The first revocation stays. -/
def StoredKey.revoke (time : Timestamp) (row : StoredKey) : StoredKey :=
  { row with revokedAt := some (row.revokedAt.getD time) }

@[simp] theorem StoredKey.revoke_id (time : Timestamp) (row : StoredKey) :
    (row.revoke time).id = row.id := rfl

@[simp] theorem StoredKey.revoke_identity (time : Timestamp) (row : StoredKey) :
    (row.revoke time).identity = row.identity := rfl

/-- No entry of the row is one of another row. -/
def StoredKey.Fresh (row : StoredKey) (rows : List StoredKey) : Prop :=
  ∀ other ∈ rows, other.id ≠ row.id ∧ other.tokenPrefix ≠ row.tokenPrefix ∧
    other.tokenHash ≠ row.tokenHash

/-- At this time the key is neither revoked nor expired. -/
structure StoredKey.UsableAt (row : StoredKey) (time : Timestamp) : Prop where
  unrevoked : row.revokedAt = none
  unexpired : ∀ expiresAt, row.expiresAt = some expiresAt → time < expiresAt

def KeyEvent.Enabled : KeyEvent → List StoredKey → Prop
  | .issued row, rows => row.revokedAt = none ∧ row.lastUsedAt = none ∧ row.Fresh rows
  | .revoked id _, rows => ∃ row ∈ rows, row.id = id
  | .used id time, rows => ∃ row ∈ rows, row.id = id ∧ row.UsableAt time

def KeyEvent.after : KeyEvent → List StoredKey → List StoredKey
  | .issued row, rows => rows ++ [row]
  | .revoked id time, rows => updateWhere (·.id = id) (StoredKey.revoke time) rows
  | .used id time, rows => updateWhere (·.id = id) (KeyChange.used time).on rows

def ledger : Machine (List StoredKey) KeyEvent := ⟨KeyEvent.Enabled, KeyEvent.after⟩

/-! ## Events -/

def Unique (rows : List StoredKey) : Prop := (rows.map (·.id)).Nodup

theorem Unique.row_eq {rows : List StoredKey} (h : Unique rows) {row other : StoredKey}
    (hrow : row ∈ rows) (hother : other ∈ rows) (hid : row.id = other.id) : row = other :=
  List.inj_on_of_nodup_map h hrow hother hid

theorem Unique.after {rows : List StoredKey} (h : Unique rows) {event : KeyEvent}
    (henabled : event.Enabled rows) : Unique (event.after rows) := by
  cases event with
  | issued row =>
    obtain ⟨-, -, hfresh⟩ := henabled
    refine nodup_concat (fun key : StoredKey => key.id) h (List.filter_eq_nil_iff.mpr ?_)
    exact fun other hother => by simpa using (hfresh other hother).1
  | revoked id time =>
    rw [Unique, KeyEvent.after, map_updateWhere (StoredKey.revoke_id time)]
    exact h
  | used id time =>
    rw [Unique, KeyEvent.after, map_updateWhere (KeyChange.used time).on_id]
    exact h

/-- The key was revoked at this time. -/
structure Revoked (id : Uuid) (time : Timestamp) (rows : List StoredKey) : Prop where
  unique : Unique rows
  row : ∃ row ∈ rows, row.id = id ∧ row.revokedAt = some time

theorem Revoked.of_mem {id : Uuid} {time : Timestamp} {rows : List StoredKey}
    (h : Revoked id time rows) {row : StoredKey} (hrow : row ∈ rows) (hid : row.id = id) :
    row.revokedAt = some time := by
  obtain ⟨other, hother, hsame, hrevoked⟩ := h.row
  rwa [h.unique.row_eq hrow hother (hid.trans hsame.symm)]

theorem mem_updateWhere_of_mem {f : StoredKey → StoredKey} {id : Uuid} {rows : List StoredKey}
    {row : StoredKey} (h : row ∈ rows) :
    (if row.id = id then f row else row) ∈ updateWhere (·.id = id) f rows := by
  rw [updateWhere]
  exact List.mem_map.mpr ⟨row, h, by simp⟩

/-- **No event changes when a key was revoked**, and none uses it. -/
theorem Revoked.after {id : Uuid} {time : Timestamp} {event : KeyEvent} {rows : List StoredKey}
    (h : Revoked id time rows) (henabled : event.Enabled rows) :
    Revoked id time (event.after rows) ∧ ∀ other, event ≠ .used id other := by
  obtain ⟨row, hrow, hid, hrevoked⟩ := h.row
  cases event with
  | issued new =>
    exact ⟨⟨h.unique.after henabled, row, List.mem_append_left _ hrow, hid, hrevoked⟩, nofun⟩
  | revoked other time' =>
    refine ⟨⟨h.unique.after henabled, _, mem_updateWhere_of_mem hrow, ?_, ?_⟩, nofun⟩ <;> split
    · exact hid
    · exact hid
    · rw [StoredKey.revoke, hrevoked, Option.getD_some]
    · exact hrevoked
  | used other time' =>
    have hunique := h.unique.after henabled
    obtain ⟨usable, husable, hother, hnow⟩ := henabled
    refine ⟨⟨hunique, _, mem_updateWhere_of_mem hrow, ?_, ?_⟩, ?_⟩
    · split
      · exact hid
      · exact hid
    · split
      · exact hrevoked
      · exact hrevoked
    · intro last heq
      cases heq
      have hsome := h.of_mem husable hother
      rw [hnow.unrevoked] at hsome
      cases hsome

/-- A revocation leaves its key revoked. -/
theorem revoked_after {id : Uuid} {time : Timestamp} {rows : List StoredKey} (h : Unique rows)
    (henabled : (KeyEvent.revoked id time).Enabled rows) :
    ∃ first, Revoked id first ((KeyEvent.revoked id time).after rows) := by
  have hunique := h.after henabled
  obtain ⟨row, hrow, hid⟩ := henabled
  refine ⟨row.revokedAt.getD time, hunique, _, mem_updateWhere_of_mem hrow, ?_, ?_⟩
  · rw [if_pos hid]
    exact hid
  · rw [if_pos hid]
    rfl

theorem identity_of_updateWhere {p : StoredKey → Bool} {f : StoredKey → StoredKey}
    (hf : ∀ row, (f row).identity = row.identity) {rows : List StoredKey} {row : StoredKey}
    (h : row ∈ updateWhere p f rows) : ∃ old ∈ rows, old.identity = row.identity := by
  have hrow : row.identity ∈ (updateWhere p f rows).map (·.identity) := List.mem_map_of_mem h
  rw [map_updateWhere hf] at hrow
  obtain ⟨old, hold, hidentity⟩ := List.mem_map.mp hrow
  exact ⟨old, hold, hidentity⟩

/-- Only an issue adds a key. -/
theorem origin_of_after {event : KeyEvent} {rows : List StoredKey} {row : StoredKey}
    (h : row ∈ event.after rows) :
    (∃ old ∈ rows, old.identity = row.identity) ∨ event = .issued row := by
  cases event with
  | issued new =>
    rcases List.mem_append.mp h with h | h
    · exact .inl ⟨row, h, rfl⟩
    · rw [List.mem_singleton.mp h]
      exact .inr rfl
  | revoked id time => exact .inl (identity_of_updateWhere (StoredKey.revoke_identity time) h)
  | used id time => exact .inl (identity_of_updateWhere (KeyChange.used time).on_identity h)

/-! ## Runs -/

/-- **A key that was revoked stays so, and is not used.** -/
theorem revoked_of_run {rows rows' : List StoredKey} {events : List KeyEvent} {id : Uuid}
    {time : Timestamp} (h : ledger.Run rows events rows') (hrevoked : Revoked id time rows) :
    Revoked id time rows' ∧ ∀ event ∈ events, ∀ other, event ≠ .used id other :=
  h.keeps (fun _ _ hrevoked henabled => hrevoked.after henabled) hrevoked

/-- **Every key was there at first or was issued.** -/
theorem issued_of_run {rows rows' : List StoredKey} {events : List KeyEvent} {row : StoredKey}
    (h : ledger.Run rows events rows') (hrow : row ∈ rows') :
    (∃ old ∈ rows, old.identity = row.identity) ∨
      ∃ new, .issued new ∈ events ∧ new.identity = row.identity := by
  induction h generalizing row with
  | nil => exact .inl ⟨row, hrow, rfl⟩
  | concat event _ _ ih =>
    obtain ⟨old, hold, hidentity⟩ | rfl := origin_of_after hrow
    · rw [← hidentity]
      obtain hfirst | ⟨new, hnew, hsame⟩ := ih hold
      · exact .inl hfirst
      · exact .inr ⟨new, List.mem_append_left _ hnew, hsame⟩
    · exact .inr ⟨row, List.mem_append_right _ (List.mem_singleton_self _), rfl⟩

end Himitsu.ApiKeys
