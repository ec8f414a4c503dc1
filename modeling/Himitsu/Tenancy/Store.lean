import Himitsu.Database.Schema
import Himitsu.Authz.Permissions

/-!
# Members and invitations

The tables of `0001_core.sql` and `0005_tenancy.sql` that membership requests read and write, for
all organizations.

* `OrganizationInvitation.openSlot` — the entry of a row in the partial unique index on invitations
  that are neither accepted nor revoked.
* `apply`, `touches`, `part` — the writes, and the rows and index entries that they lock.
* `store` — the database with these locks.

No statement that locks a session is modelled, so `sessions` has no part.
-/

set_option autoImplicit false

namespace Himitsu.Tenancy

open JsString Crypto Database

/-! ## Rows -/

/-- `InvitationalRole`, which is a role without `owner` too. -/
abbrev InvitationalRole := Authz.ProjectOverrideRole

inductive MembershipStatus where
  | invited
  | active
  | suspended
  deriving DecidableEq, Repr

structure Organization where
  id : Uuid
  name : JsString
  deletedAt : Option Timestamp
  deriving DecidableEq, Repr

structure User where
  id : Uuid
  email : JsString
  emailNormalized : JsString
  deriving DecidableEq, Repr

structure Membership where
  orgId : Uuid
  userId : Uuid
  role : Authz.Role
  status : MembershipStatus
  invitedByUserId : Option Uuid
  createdAt : Timestamp
  updatedAt : Timestamp
  deriving DecidableEq, Repr

/-- The primary key. -/
def Membership.key (row : Membership) : Uuid × Uuid := (row.orgId, row.userId)

structure OrganizationInvitation where
  id : Uuid
  orgId : Uuid
  email : JsString
  emailNormalized : JsString
  role : InvitationalRole
  tokenHash : Bytes
  invitedByUserId : Uuid
  createdAt : Timestamp
  expiresAt : Timestamp
  acceptedAt : Option Timestamp
  acceptedByUserId : Option Uuid
  revokedAt : Option Timestamp
  deriving DecidableEq, Repr

/-- Neither accepted nor revoked. -/
def OrganizationInvitation.isOpen (row : OrganizationInvitation) : Bool :=
  row.acceptedAt.isNone && row.revokedAt.isNone

/-- The columns of `organization_invitations_pending_email_idx`. -/
def OrganizationInvitation.slot (row : OrganizationInvitation) : Uuid × JsString :=
  (row.orgId, row.emailNormalized)

def OrganizationInvitation.openSlot (row : OrganizationInvitation) : Option (Uuid × JsString) :=
  if row.isOpen then some row.slot else none

structure Session where
  id : Uuid
  userId : Uuid
  activeOrgId : Option Uuid
  deriving DecidableEq, Repr

structure Db where
  organizations : List Organization
  users : List User
  memberships : List Membership
  invitations : List OrganizationInvitation
  sessions : List Session
  auditEvents : List (Uuid × AuditEvent)

/-! ## Writes -/

/-- The `SET` lists on invitations. -/
inductive Closing where
  | revoked (time : Timestamp)
  | accepted (time : Timestamp) (userId : Uuid)
  deriving DecidableEq, Repr

def Closing.on (closing : Closing) (row : OrganizationInvitation) : OrganizationInvitation :=
  match closing with
  | .revoked time => { row with revokedAt := some time }
  | .accepted time userId =>
    { row with
      acceptedAt := some time
      acceptedByUserId := some userId }

inductive Write where
  | insertInvitation (row : OrganizationInvitation)
  | closeInvitation (id : Uuid) (closing : Closing)
  | insertMembership (row : Membership)
  | updateMembership (key : Uuid × Uuid) (role : Authz.Role) (time : Timestamp)
  | deleteMembership (key : Uuid × Uuid)
  | clearActiveOrganization (userId orgId : Uuid)
  | insertAuditEvent (orgId : Uuid) (row : AuditEvent)

/-- `UPDATE sessions SET active_org_id = NULL`, where it is the organization. -/
def Session.clear (userId orgId : Uuid) (row : Session) : Session :=
  if row.userId = userId ∧ row.activeOrgId = some orgId then { row with activeOrgId := none }
  else row

def Membership.withRole (role : Authz.Role) (time : Timestamp) (row : Membership) : Membership :=
  { row with
    role := role
    updatedAt := time }

def apply : Write → Db → Db
  | .insertInvitation row, db => { db with invitations := db.invitations ++ [row] }
  | .closeInvitation id closing, db =>
    { db with invitations := updateWhere (·.id = id) closing.on db.invitations }
  | .insertMembership row, db => { db with memberships := db.memberships ++ [row] }
  | .updateMembership key role time, db =>
    { db with memberships := updateWhere (·.key = key) (.withRole role time) db.memberships }
  | .deleteMembership key, db =>
    { db with memberships := db.memberships.filter (·.key ≠ key) }
  | .clearActiveOrganization userId orgId, db =>
    { db with sessions := db.sessions.map (.clear userId orgId) }
  | .insertAuditEvent orgId row, db => { db with auditEvents := db.auditEvents ++ [(orgId, row)] }

/-! ## Locks and parts -/

/-- A row, or an entry of a unique index. -/
inductive Lock where
  | invitation (id : Uuid)
  | pending (slot : Uuid × JsString)
  | tokenHash (hash : Bytes)
  | membership (key : Uuid × Uuid)
  deriving DecidableEq

inductive Contents where
  | invitation (rows : List OrganizationInvitation)
  | entry (ids : List Uuid)
  | membership (rows : List Membership)

def Db.invitationRows (db : Db) (id : Uuid) : List OrganizationInvitation :=
  db.invitations.filter (·.id = id)

def Db.pendingIds (db : Db) (slot : Uuid × JsString) : List Uuid :=
  (db.invitations.filter (·.openSlot = some slot)).map (·.id)

def Db.tokenIds (db : Db) (hash : Bytes) : List Uuid :=
  (db.invitations.filter (·.tokenHash = hash)).map (·.id)

def Db.membershipRows (db : Db) (key : Uuid × Uuid) : List Membership :=
  db.memberships.filter (·.key = key)

def part : Lock → Db → Contents
  | .invitation id, db => .invitation (db.invitationRows id)
  | .pending slot, db => .entry (db.pendingIds slot)
  | .tokenHash hash, db => .entry (db.tokenIds hash)
  | .membership key, db => .membership (db.membershipRows key)

def touches : Write → Db → List Lock
  | .insertInvitation row, _ =>
    [.invitation row.id, .tokenHash row.tokenHash] ++ row.openSlot.toList.map .pending
  | .closeInvitation id _, db =>
    .invitation id :: ((db.invitationRows id).filterMap (·.openSlot)).map .pending
  | .insertMembership row, _ => [.membership row.key]
  | .updateMembership key _ _, _ => [.membership key]
  | .deleteMembership key, _ => [.membership key]
  | .clearActiveOrganization _ _, _ => []
  | .insertAuditEvent _ _, _ => []

@[simp] theorem Closing.on_id (closing : Closing) (row : OrganizationInvitation) :
    (closing.on row).id = row.id := by
  cases closing <;> rfl

@[simp] theorem Closing.on_slot (closing : Closing) (row : OrganizationInvitation) :
    (closing.on row).slot = row.slot := by
  cases closing <;> rfl

@[simp] theorem Closing.on_tokenHash (closing : Closing) (row : OrganizationInvitation) :
    (closing.on row).tokenHash = row.tokenHash := by
  cases closing <;> rfl

@[simp] theorem Closing.on_isOpen (closing : Closing) (row : OrganizationInvitation) :
    (closing.on row).isOpen = false := by
  cases closing <;> simp [Closing.on, OrganizationInvitation.isOpen]

@[simp] theorem Closing.on_openSlot (closing : Closing) (row : OrganizationInvitation) :
    (closing.on row).openSlot = none := by
  simp [OrganizationInvitation.openSlot]

@[simp] theorem Membership.withRole_key (role : Authz.Role) (time : Timestamp) (row : Membership) :
    (row.withRole role time).key = row.key := rfl

theorem openSlot_eq_some {row : OrganizationInvitation} {slot : Uuid × JsString} :
    row.openSlot = some slot ↔ row.isOpen = true ∧ row.slot = slot := by
  unfold OrganizationInvitation.openSlot
  split <;> simp_all

/-! ## The store -/

/-- Rows that are appended under other keys do not show. -/
theorem filter_append_of_ne {α κ : Type} [DecidableEq κ] (key : α → κ) {row : α} {k : κ}
    (h : key row ≠ k) (rows : List α) :
    (rows ++ [row]).filter (key · = k) = rows.filter (key · = k) := by
  rw [List.filter_append, List.filter_cons_of_neg (by simpa using h), List.filter_nil,
    List.append_nil]

/-- A closed invitation leaves its entry. -/
theorem pendingIds_close (db : Db) (id : Uuid) (closing : Closing) (slot : Uuid × JsString) :
    (apply (.closeInvitation id closing) db).pendingIds slot =
      (db.pendingIds slot).filter (· ≠ id) := by
  simp only [apply, Db.pendingIds, updateWhere]
  induction db.invitations with
  | nil => rfl
  | cons row rows ih =>
    by_cases hid : row.id = id
    · by_cases hslot : row.openSlot = some slot
      · simpa [hid, hslot] using ih
      · simpa [hid, hslot] using ih
    · by_cases hslot : row.openSlot = some slot
      · simpa [hid, hslot] using ih
      · simpa [hid, hslot] using ih

theorem tokenIds_close (db : Db) (id : Uuid) (closing : Closing) (hash : Bytes) :
    (apply (.closeInvitation id closing) db).tokenIds hash = db.tokenIds hash := by
  simp only [apply, Db.tokenIds]
  rw [filter_updateWhere _ fun row _ => closing.on_tokenHash row]
  exact map_updateWhere closing.on_id _

theorem invitationRows_close (db : Db) (id : Uuid) (closing : Closing) (other : Uuid) :
    (apply (.closeInvitation id closing) db).invitationRows other =
      if other = id then (db.invitationRows other).map closing.on else db.invitationRows other :=
  filter_updateWhere_id OrganizationInvitation.id closing.on_id id other _

theorem membershipRows_update (db : Db) (key : Uuid × Uuid) (role : Authz.Role)
    (time : Timestamp) (other : Uuid × Uuid) :
    (apply (.updateMembership key role time) db).membershipRows other =
      if other = key then (db.membershipRows other).map (.withRole role time)
      else db.membershipRows other :=
  filter_updateWhere_id Membership.key (Membership.withRole_key role time) key other _

/-- A write leaves the parts it does not touch as they are. -/
theorem part_apply_of_not_touched (w : Write) (db : Db) (l : Lock) (h : l ∉ touches w db) :
    part l (apply w db) = part l db := by
  cases w with
  | insertInvitation row =>
    simp only [touches, List.mem_append, List.mem_cons, List.not_mem_nil, or_false, not_or] at h
    cases l with
    | invitation id =>
      have hne : row.id ≠ id := fun heq => h.1.1 (heq ▸ rfl)
      exact congrArg Contents.invitation (filter_append_of_ne OrganizationInvitation.id hne db.invitations)
    | pending slot =>
      have hne : row.openSlot ≠ some slot := fun heq => h.2 (by simp [heq])
      exact congrArg (fun rows => Contents.entry (rows.map (·.id)))
        (filter_append_of_ne OrganizationInvitation.openSlot hne db.invitations)
    | tokenHash hash =>
      have hne : row.tokenHash ≠ hash := fun heq => h.1.2 (heq ▸ rfl)
      exact congrArg (fun rows => Contents.entry (rows.map (·.id)))
        (filter_append_of_ne OrganizationInvitation.tokenHash hne db.invitations)
    | membership key => rfl
  | closeInvitation id closing =>
    simp only [touches, List.mem_cons, not_or] at h
    cases l with
    | invitation other =>
      have hne : other ≠ id := fun heq => h.1 (heq ▸ rfl)
      simp only [part, invitationRows_close, if_neg hne]
    | pending slot =>
      simp only [part, pendingIds_close, Contents.entry.injEq]
      rw [List.filter_eq_self]
      intro other hother
      obtain ⟨row, hrow, rfl⟩ := List.mem_map.mp hother
      obtain ⟨hmem, hslot⟩ := List.mem_filter.mp hrow
      have hne : row.id ≠ id := fun heq => h.2 (List.mem_map.mpr ⟨slot,
        List.mem_filterMap.mpr ⟨row, List.mem_filter.mpr ⟨hmem, by simpa using heq⟩,
          by simpa using hslot⟩, rfl⟩)
      simpa using hne
    | tokenHash hash => simp only [part, tokenIds_close]
    | membership key => rfl
  | insertMembership row =>
    cases l with
    | membership key =>
      have hne : row.key ≠ key := fun heq => h (by simp [touches, heq])
      exact congrArg Contents.membership (filter_append_of_ne Membership.key hne db.memberships)
    | invitation | pending | tokenHash => rfl
  | updateMembership key role time =>
    cases l with
    | membership other =>
      have hne : other ≠ key := fun heq => h (by simp [touches, heq])
      simp only [part, membershipRows_update, if_neg hne]
    | invitation | pending | tokenHash => rfl
  | deleteMembership key =>
    cases l with
    | membership other =>
      have hne : other ≠ key := fun heq => h (by simp [touches, heq])
      exact congrArg Contents.membership (filter_key_of_ne Membership.key hne db.memberships)
    | invitation | pending | tokenHash => rfl
  | clearActiveOrganization | insertAuditEvent => cases l <;> rfl

/-- A write depends only on the parts it touches. -/
theorem part_apply_congr (w : Write) (db db' : Db)
    (h : ∀ l ∈ touches w db, part l db' = part l db) :
    touches w db' = touches w db ∧
      ∀ l ∈ touches w db, part l (apply w db') = part l (apply w db) := by
  cases w with
  | insertInvitation row =>
    refine ⟨rfl, fun l hl => ?_⟩
    have hpart := h l hl
    cases l with
    | invitation id =>
      simp only [part, Contents.invitation.injEq, Db.invitationRows] at hpart
      simp only [part, apply, Db.invitationRows, List.filter_append, hpart]
    | pending slot =>
      simp only [part, Contents.entry.injEq, Db.pendingIds] at hpart
      simp only [part, apply, Db.pendingIds, List.filter_append, List.map_append, hpart]
    | tokenHash hash =>
      simp only [part, Contents.entry.injEq, Db.tokenIds] at hpart
      simp only [part, apply, Db.tokenIds, List.filter_append, List.map_append, hpart]
    | membership key => exact hpart
  | closeInvitation id closing =>
    have hrows := h (.invitation id) (List.mem_cons_self ..)
    simp only [part, Contents.invitation.injEq] at hrows
    refine ⟨by simp only [touches, hrows], fun l hl => ?_⟩
    have hpart := h l hl
    cases l with
    | invitation other =>
      simp only [part, Contents.invitation.injEq] at hpart
      simp only [part, invitationRows_close, hpart]
    | pending slot =>
      simp only [part, Contents.entry.injEq] at hpart
      simp only [part, pendingIds_close, hpart]
    | tokenHash hash =>
      simp only [part, tokenIds_close]
      exact hpart
    | membership key => exact hpart
  | insertMembership row =>
    refine ⟨rfl, fun l hl => ?_⟩
    have hpart := h l hl
    rw [List.mem_singleton.mp hl] at hpart ⊢
    simp only [part, Contents.membership.injEq, Db.membershipRows] at hpart
    simp only [part, apply, Db.membershipRows, List.filter_append, hpart]
  | updateMembership key role time =>
    refine ⟨rfl, fun l hl => ?_⟩
    have hpart := h l hl
    rw [List.mem_singleton.mp hl] at hpart ⊢
    simp only [part, Contents.membership.injEq] at hpart
    simp only [part, membershipRows_update, hpart]
  | deleteMembership key =>
    refine ⟨rfl, fun l hl => ?_⟩
    rw [List.mem_singleton.mp hl]
    simp [part, apply, Db.membershipRows, List.filter_filter]
  | clearActiveOrganization | insertAuditEvent => exact ⟨rfl, fun l hl => (List.not_mem_nil hl).elim⟩

def store : Interleaving.Store Db Lock Write Contents where
  apply := apply
  part := part
  touches := touches
  frame := part_apply_of_not_touched
  congr := part_apply_congr

end Himitsu.Tenancy
