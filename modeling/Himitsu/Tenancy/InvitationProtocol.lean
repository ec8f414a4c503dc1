import Himitsu.Tenancy.Invitations

/-!
# The invitation protocol

Invitations under requests whose transactions overlap in any way.

* `Db.WellFormed` — the primary key, the unique digest and the partial unique index.
* `Later` — rows keep their identity, and an invitation that is closed stays closed.
* `Creates`, `Revokes`, `Accepts` — what a request has found and written when it commits.
* `createInvitation_safe`, `revokeRoute_safe`, `acceptInvitation_safe` — the requests, by the locks
  that they hold.

Principal result: `invitation_protocol`.
-/

set_option autoImplicit false

namespace Himitsu.Tenancy

open JsString Crypto Database Transactions Interleaving Authz

/-! ## Constraints -/

structure Db.WellFormed (db : Db) : Prop where
  ids : (db.invitations.map (·.id)).Nodup
  tokens : (db.invitations.map (·.tokenHash)).Nodup
  pending : ∀ slot, (db.pendingIds slot).length ≤ 1

theorem Db.WellFormed.of_eq {db db' : Db} (h : db.WellFormed)
    (heq : db'.invitations = db.invitations) : db'.WellFormed := by
  refine ⟨by rw [heq]; exact h.ids, by rw [heq]; exact h.tokens, fun slot => ?_⟩
  unfold Db.pendingIds
  rw [heq]
  exact h.pending slot

theorem Db.WellFormed.close {db : Db} (h : db.WellFormed) (id : Uuid) (closing : Closing) :
    (apply (.closeInvitation id closing) db).WellFormed where
  ids := by
    simp only [apply]
    rw [map_updateWhere closing.on_id]
    exact h.ids
  tokens := by
    simp only [apply]
    rw [map_updateWhere closing.on_tokenHash]
    exact h.tokens
  pending slot := by
    rw [pendingIds_close]
    exact (List.length_filter_le _ _).trans (h.pending slot)

theorem Db.WellFormed.closeAll {db : Db} (h : db.WellFormed) (closing : Closing)
    (ids : List Uuid) :
    (applyAll apply (ids.map fun id => .closeInvitation id closing) db).WellFormed := by
  induction ids generalizing db with
  | nil => exact h
  | cons id ids ih => exact ih (h.close id closing)

theorem Db.WellFormed.insert {db : Db} (h : db.WellFormed) {row : OrganizationInvitation}
    (hid : db.invitationRows row.id = []) (htoken : db.tokenIds row.tokenHash = [])
    (hpending : db.pendingIds row.slot = []) :
    (apply (.insertInvitation row) db).WellFormed where
  ids := by
    simp only [apply, List.map_append, List.map_cons, List.map_nil]
    refine h.ids.append (List.nodup_singleton _) ?_
    intro id hold hnew
    obtain ⟨old, hmem, rfl⟩ := List.mem_map.mp hold
    exact List.filter_eq_nil_iff.mp hid old hmem (by simpa using List.mem_singleton.mp hnew)
  tokens := by
    simp only [apply, List.map_append, List.map_cons, List.map_nil]
    refine h.tokens.append (List.nodup_singleton _) ?_
    intro hash hold hnew
    obtain ⟨old, hmem, rfl⟩ := List.mem_map.mp hold
    rw [Db.tokenIds, List.map_eq_nil_iff, List.filter_eq_nil_iff] at htoken
    exact htoken old hmem (by simpa using List.mem_singleton.mp hnew)
  pending slot := by
    have hsplit : (apply (.insertInvitation row) db).pendingIds slot = db.pendingIds slot ++
        (([row].filter (·.openSlot = some slot)).map (·.id)) := by
      simp only [apply, Db.pendingIds, List.filter_append, List.map_append]
    rw [hsplit, List.length_append]
    by_cases hslot : row.openSlot = some slot
    · rw [← (openSlot_eq_some.mp hslot).2, hpending, List.length_map]
      simpa using List.length_filter_le _ [row]
    · rw [List.filter_cons_of_neg (by simpa using hslot)]
      simpa using h.pending slot

theorem Db.WellFormed.row_eq {db : Db} (h : db.WellFormed) {row other : OrganizationInvitation}
    (hrow : row ∈ db.invitations) (hother : other ∈ db.invitations) (hid : row.id = other.id) :
    row = other :=
  List.inj_on_of_nodup_map h.ids hrow hother hid

theorem Db.WellFormed.row_eq_of_token {db : Db} (h : db.WellFormed)
    {row other : OrganizationInvitation} (hrow : row ∈ db.invitations)
    (hother : other ∈ db.invitations) (htoken : row.tokenHash = other.tokenHash) : row = other :=
  List.inj_on_of_nodup_map h.tokens hrow hother htoken

/-! ## What happens to a row -/

/-- What a row may become. -/
structure Follows (row row' : OrganizationInvitation) : Prop where
  id : row'.id = row.id
  slot : row'.slot = row.slot
  token : row'.tokenHash = row.tokenHash
  open_ : row'.isOpen = true → row' = row

theorem Follows.refl (row : OrganizationInvitation) : Follows row row := ⟨rfl, rfl, rfl, fun _ => rfl⟩

theorem Follows.trans {a b c : OrganizationInvitation} (h : Follows a b) (h' : Follows b c) :
    Follows a c where
  id := h'.id.trans h.id
  slot := h'.slot.trans h.slot
  token := h'.token.trans h.token
  open_ hopen := by
    have hcb := h'.open_ hopen
    exact hcb.trans (h.open_ (hcb ▸ hopen))

theorem follows_on (closing : Closing) (row : OrganizationInvitation) :
    Follows row (closing.on row) :=
  ⟨closing.on_id row, closing.on_slot row, closing.on_tokenHash row, fun h => by simp at h⟩

/-- Rows are only added, and follow what they were. -/
def Later (db db' : Db) : Prop :=
  ∃ (f : OrganizationInvitation → OrganizationInvitation) (new : List OrganizationInvitation),
    db'.invitations = db.invitations.map f ++ new ∧ ∀ row, Follows row (f row)

theorem Later.refl (db : Db) : Later db db := ⟨id, [], by simp, Follows.refl⟩

theorem Later.trans {a b c : Db} (h : Later a b) (h' : Later b c) : Later a c := by
  obtain ⟨f, new, hb, hf⟩ := h
  obtain ⟨f', new', hc, hf'⟩ := h'
  refine ⟨f' ∘ f, new.map f' ++ new', ?_, fun row => (hf row).trans (hf' _)⟩
  rw [hc, hb, List.map_append, List.map_map, List.append_assoc]

theorem Later.of_eq {db db' : Db} (h : db'.invitations = db.invitations) : Later db db' :=
  ⟨id, [], by simp [h], Follows.refl⟩

theorem later_close (db : Db) (id : Uuid) (closing : Closing) :
    Later db (apply (.closeInvitation id closing) db) := by
  refine ⟨fun row => if decide (row.id = id) then closing.on row else row, [], ?_, fun row => ?_⟩
  · simp [apply, updateWhere]
  · show Follows row (if decide (row.id = id) then closing.on row else row)
    split
    · exact follows_on closing row
    · exact .refl row

theorem later_insert (db : Db) (row : OrganizationInvitation) :
    Later db (apply (.insertInvitation row) db) :=
  ⟨id, [row], by simp [apply], Follows.refl⟩

/-- Every write is followed by a later database. -/
theorem later_apply (w : Write) (db : Db) : Later db (apply w db) := by
  cases w with
  | insertInvitation row => exact later_insert db row
  | closeInvitation id closing => exact later_close db id closing
  | insertMembership | updateMembership | deleteMembership | clearActiveOrganization |
    insertAuditEvent => exact .of_eq rfl

theorem later_applyAll (ws : List Write) (db : Db) : Later db (applyAll apply ws db) := by
  induction ws generalizing db with
  | nil => exact .refl db
  | cons w ws ih => exact (later_apply w db).trans (ih _)

theorem Later.follows {db db' : Db} (h : Later db db') {row : OrganizationInvitation}
    (hrow : row ∈ db.invitations) : ∃ row' ∈ db'.invitations, Follows row row' := by
  obtain ⟨f, new, heq, hf⟩ := h
  exact ⟨f row, heq ▸ List.mem_append_left _ (List.mem_map_of_mem hrow), hf row⟩

/-- **A closed invitation stays closed.** -/
theorem Later.closed {db db' : Db} (h : Later db db') (hwf : db'.WellFormed)
    {row row' : OrganizationInvitation} (hrow : row ∈ db.invitations)
    (hrow' : row' ∈ db'.invitations) (hid : row'.id = row.id) (hclosed : row.isOpen = false) :
    row'.isOpen = false := by
  obtain ⟨next, hnext, hfollows⟩ := h.follows hrow
  have heq : row' = next := hwf.row_eq hrow' hnext (hid.trans hfollows.id.symm)
  by_contra hopen
  rw [Bool.not_eq_false, heq] at hopen
  have hsame := hfollows.open_ hopen
  rw [hsame, hclosed] at hopen
  cases hopen

/-- The contract of the requests. -/
def protocolContract : Contract Db where
  inv := Db.WellFormed
  rely := Later
  refl := Later.refl
  trans := Later.trans

/-! ## Parts under a lock -/

variable {w w' : World Db Lock Write} {platform : Platform}

theorem rows_of_moves (h : Moves store protocolContract w w') {id : Uuid}
    (hheld : .invitation id ∈ w.held) : w'.base.invitationRows id = w.base.invitationRows id :=
  Contents.invitation.inj (h.frozen _ hheld)

theorem memberships_of_moves (h : Moves store protocolContract w w') {key : Uuid × Uuid}
    (hheld : .membership key ∈ w.held) : w'.base.membershipRows key = w.base.membershipRows key :=
  Contents.membership.inj (h.frozen _ hheld)

theorem mem_of_rows {db db' : Db} {row : OrganizationInvitation}
    (h : db'.invitationRows row.id = db.invitationRows row.id) (hrow : row ∈ db.invitations) :
    row ∈ db'.invitations := by
  have hmem : row ∈ db.invitationRows row.id := List.mem_filter.mpr ⟨hrow, by simp⟩
  rw [← h] at hmem
  exact (List.mem_filter.mp hmem).1

/-! ## Rules of the requests -/

section

variable {α β : Type} {Q : β → World Db Lock Write → Prop}

theorem safe_require {holds : Bool} {error : RequestError} {f : Unit → TenancyM β}
    (h : holds = true → Safe store protocolContract (f ()) w Q) :
    Safe store protocolContract (require holds error >>= f) w Q := by
  unfold require
  split
  · rename_i hholds
    exact h hholds
  · exact Safe.fail

/-- A statement that only reads, before the first write. -/
theorem safe_read {read : Db → α} {f : α → TenancyM β} (hpending : w.pending = [])
    (h : ∀ a w', w'.base.WellFormed → w'.pending = [] →
      Safe store protocolContract (f a) w' Q) :
    Safe store protocolContract (Prog.select read >>= f) w Q := by
  refine Safe.stmt fun w₁ a hm _ => h a _ hm.inv ?_
  simp [hm.pending, hpending]

theorem safe_withOrg {orgId userId : Uuid} {work : TenancyM β} (hpending : w.pending = [])
    (h : ∀ w', w'.base.WellFormed → w'.pending = [] →
      Safe store protocolContract work w' Q) :
    Safe store protocolContract (withOrg orgId userId work) w Q :=
  safe_read hpending fun _ w' hinv hpending' => safe_require fun _ => h w' hinv hpending'

theorem safe_withTenant {context : ApiRequestContext} {permission : Permission}
    {work : TenancyM β} (hpending : w.pending = [])
    (h : ∀ w', w'.base.WellFormed → w'.pending = [] →
      Safe store protocolContract work w' Q) :
    Safe store protocolContract (withTenant context permission work) w Q := by
  refine safe_withOrg hpending fun w₁ hinv₁ hpending₁ => ?_
  refine Safe.bind hinv₁ (safe_read hpending₁ fun _ w₂ hinv₂ hpending₂ => ?_)
  refine Safe.ofExcept fun membership _ => Safe.ok fun w₃ hm₃ => ?_
  exact Safe.ofExcept fun _ _ => h w₃ hm₃.inv (hm₃.pending.trans hpending₂)

theorem safe_recordInTransaction {now : Timestamp} {event : Audit.AuditEventInput}
    {Q : Unit → World Db Lock Write → Prop}
    (h : ∀ w₁ row w₂, Moves store protocolContract w w₁ →
      Moves store protocolContract
        (w₁.after store (fun _ => []) fun _ => [.insertAuditEvent event.orgId row]) w₂ → Q () w₂) :
    Safe store protocolContract (recordInTransaction now event) w Q := by
  refine Safe.ofExcept fun _ _ => Safe.ofExcept fun metadata _ => ?_
  exact Safe.execute fun w₁ _ hm₁ _ w₂ hm₂ => h w₁ _ w₂ hm₁ hm₂

end

/-! ## Acceptances -/

@[simp] theorem membershipOf_key (row : OrganizationInvitation) (orgId userId : Uuid)
    (now : Timestamp) : (membershipOf row orgId userId now).key = (orgId, userId) := rfl

/-- What an acceptance has found and written when it commits. -/
structure Accepts (platform : Platform) (user : SignedIn) (token : JsString) (now : Timestamp)
    (row : OrganizationInvitation) (w : World Db Lock Write) : Prop where
  mem : row ∈ w.base.invitations
  token : row.tokenHash = platform.primitives.digest token
  isOpen : row.isOpen = true
  unexpired : now < row.expiresAt
  email : normalizeEmail platform user.email = .ok row.emailNormalized
  noMember : w.base.membershipRows (row.orgId, user.userId) = []
  writes : ∃ event, w.pending = [.insertMembership (membershipOf row row.orgId user.userId now),
    .closeInvitation row.id (.accepted now user.userId), .insertAuditEvent row.orgId event]

theorem acceptInvitation_safe (user : SignedIn) (token : JsString) (resolvedAt now : Timestamp)
    (hpending : w.pending = []) :
    Safe store protocolContract (acceptInvitation platform user token resolvedAt now) w
      fun orgId w' => ∃ row, Accepts platform user token now row w' ∧ orgId = row.orgId := by
  unfold acceptInvitation
  refine safe_read hpending fun _ w₁ _ hpending₁ => Safe.ofExcept fun orgId _ => ?_
  refine Safe.stmt fun w₂ invitation hm₂ hfind => Safe.ofExcept fun record hrecord => ?_
  -- the row is locked from here on
  have hpending₂ : w₂.pending = [] := hm₂.pending.trans hpending₁
  have hview₂ : w₂.view store = w₂.base := World.view_of_pending hpending₂
  obtain rfl : invitation = some record := by
    cases invitation with
    | none => cases hrecord
    | some row =>
      cases hrecord
      rfl
  have hlockable : w₂.base.lockable orgId now (platform.primitives.digest token) = some record := by
    rw [← hview₂]
    exact Except.ok.inj hfind
  have hmem := List.mem_of_find?_eq_some hlockable
  have hrow := List.find?_some hlockable
  simp only [Bool.and_eq_true, decide_eq_true_eq] at hrow
  obtain ⟨⟨⟨rfl, htoken⟩, hopen⟩, hunexpired⟩ := hrow
  refine Safe.ofExcept fun email hemail => safe_require fun hsame => ?_
  rw [decide_eq_true_eq] at hsame
  unfold insertMembership
  rw [membershipOf_key]
  refine Safe.stmt fun w₃ _ hm₃ hfree => Safe.stmt fun w₄ _ hm₄ _ => ?_
  refine Safe.bind hm₄.inv (safe_recordInTransaction fun w₅ event w₆ hm₅ hm => ?_)
  refine Safe.ok fun w₇ hm' => ?_
  have hm₆ := hm.trans hm'
  have hheld₃ : .invitation record.id ∈ w₃.held := by
    rw [hm₃.held, World.after_held, World.needs, hview₂, hlockable]
    simp
  have hpending₃ : w₃.pending = [] := by
    rw [hm₃.pending, World.after_pending, hpending₂]
    rfl
  have hview₃ : w₃.view store = w₃.base := World.view_of_pending hpending₃
  have hmember₃ : w₃.base.membershipRows (record.orgId, user.userId) = [] := by
    by_contra hne
    rw [hview₃, if_pos hne] at hfree
    cases hfree
  have hheld₄ : .invitation record.id ∈ w₄.held ∧
      .membership (record.orgId, user.userId) ∈ w₄.held := by
    rw [hm₄.held, World.after_held, World.needs]
    refine ⟨List.mem_append_left _ hheld₃, List.mem_append_right _ ?_⟩
    exact List.mem_append_right _ (List.mem_append_left _ (List.mem_singleton_self _))
  have hheld₅ : ∀ l ∈ w₄.held, l ∈ w₅.held := fun l hl => by
    rw [hm₅.held, World.after_held]
    exact List.mem_append_left _ hl
  have hheld₆ : ∀ l ∈ w₅.held,
      l ∈ (w₅.after store (fun _ => []) fun _ => [.insertAuditEvent record.orgId event]).held :=
    fun l hl => List.mem_append_left _ hl
  refine ⟨record, ⟨?_, htoken, hopen, hunexpired, hsame ▸ hemail, ?_, event, ?_⟩, rfl⟩
  · have hrows := rows_of_moves hm₆ (hheld₆ _ (hheld₅ _ hheld₄.1))
    rw [World.after_base, rows_of_moves hm₅ (List.mem_append_left _ hheld₄.1), World.after_base,
      rows_of_moves hm₄ (List.mem_append_left _ hheld₃), World.after_base,
      rows_of_moves hm₃ (hm₃.held ▸ hheld₃), World.after_base] at hrows
    exact mem_of_rows hrows hmem
  · rw [memberships_of_moves hm₆ (hheld₆ _ (hheld₅ _ hheld₄.2)), World.after_base,
      memberships_of_moves hm₅ (List.mem_append_left _ hheld₄.2), World.after_base,
      memberships_of_moves hm₄ (hm₄.held ▸ hheld₄.2), World.after_base, hmember₃]
  · rw [hm₆.pending, World.after_pending, hm₅.pending, World.after_pending, hm₄.pending,
      World.after_pending, hpending₃]
    rfl

/-! ## New invitations -/

section

variable (db : Db) (closing : Closing) (ids : List Uuid)

theorem pendingIds_closeAll (slot : Uuid × JsString) :
    (applyAll apply (ids.map fun id => .closeInvitation id closing) db).pendingIds slot =
      (db.pendingIds slot).filter (· ∉ ids) := by
  induction ids generalizing db with
  | nil => simp
  | cons id ids ih =>
    rw [List.map_cons, applyAll_cons, ih, pendingIds_close, List.filter_filter]
    refine List.filter_congr fun other _ => ?_
    simp [not_or, Bool.and_comm]

theorem tokenIds_closeAll (hash : Bytes) :
    (applyAll apply (ids.map fun id => .closeInvitation id closing) db).tokenIds hash =
      db.tokenIds hash := by
  induction ids generalizing db with
  | nil => rfl
  | cons id ids ih => rw [List.map_cons, applyAll_cons, ih, tokenIds_close]

theorem invitationRows_closeAll (other : Uuid) :
    (applyAll apply (ids.map fun id => .closeInvitation id closing) db).invitationRows other = [] ↔
      db.invitationRows other = [] := by
  induction ids generalizing db with
  | nil => rfl
  | cons id ids ih =>
    rw [List.map_cons, applyAll_cons, ih, invitationRows_close]
    split
    · rw [List.map_eq_nil_iff]
    · rfl

theorem mem_touchesAll_closeAll {id : Uuid} (h : id ∈ ids) :
    .invitation id ∈ store.touchesAll (ids.map fun id => .closeInvitation id closing) db := by
  induction ids generalizing db with
  | nil => cases h
  | cons other ids ih =>
    rw [List.map_cons, Store.touchesAll, List.mem_append]
    rcases List.mem_cons.mp h with rfl | h
    · exact .inl (List.mem_cons_self ..)
    · exact .inr (ih _ h)

end

/-- What an invitation has found and written when it commits; `closed` are the ones it revoked. -/
structure Creates (now : Timestamp) (row : OrganizationInvitation) (w : World Db Lock Write) :
    Prop where
  isOpen : row.isOpen = true
  unexpired : row.createdAt < row.expiresAt
  id : w.base.invitationRows row.id = []
  token : w.base.tokenIds row.tokenHash = []
  replaced : ∀ old ∈ w.base.invitations, old.openSlot = some row.slot →
    old.expiresAt ≤ now ∧ .closeInvitation old.id (.revoked now) ∈ w.pending
  writes : ∃ (closed : List Uuid) (event : AuditEvent),
    w.pending = closed.map (fun id => .closeInvitation id (.revoked now)) ++
      [.insertInvitation row, .insertAuditEvent row.orgId event] ∧
    ∀ id ∈ closed, ∃ old ∈ w.base.invitations, old.id = id ∧ old.isOpen = true ∧
      old.expiresAt ≤ now

theorem replaceInvitation_safe {now : Timestamp} {email : JsString}
    {row : OrganizationInvitation} (hopen : row.isOpen = true) (hpending : w.pending = []) :
    Safe store protocolContract (replaceInvitation now email row) w fun _ => Creates now row := by
  unfold replaceInvitation insertInvitation
  refine Safe.stmt fun w₁ _ hm₁ _ => Safe.stmt fun w₂ _ hm₂ hinserted => ?_
  refine safe_recordInTransaction fun w₃ event w₄ hm₃ hm₄ => ?_
  have hpending₁ : w₁.pending = [] := hm₁.pending.trans hpending
  have hview₁ : w₁.view store = w₁.base := World.view_of_pending hpending₁
  -- the rows that the first statement revokes stay locked
  set expired := w₁.base.expired now (row.orgId, email) with hexpired
  set closed := expired.map (·.id) with hclosed
  have hpending₂ : w₂.pending = closed.map fun id => .closeInvitation id (.revoked now) := by
    rw [hm₂.pending, World.after_pending, hpending₁, hview₁, hclosed, List.map_map]
    rfl
  have hview₂ : w₂.view store =
      applyAll apply (closed.map fun id => .closeInvitation id (.revoked now)) w₂.base := by
    rw [World.view, hpending₂]
    rfl
  have hheld₂ : ∀ id ∈ closed, .invitation id ∈ w₂.held := by
    intro id hid
    rw [hm₂.held, World.after_held, World.needs, hview₁, ← hexpired]
    have hmem := mem_touchesAll_closeAll w₁.base (.revoked now) closed hid
    rw [hclosed, List.map_map] at hmem
    exact List.mem_append_right _ (List.mem_append_right _ hmem)
  have hslot : row.openSlot = some row.slot := openSlot_eq_some.mpr ⟨hopen, rfl⟩
  rw [hview₂] at hinserted
  have hfree : w₂.base.invitationRows row.id = [] ∧ w₂.base.tokenIds row.tokenHash = [] ∧
      (w₂.base.pendingIds row.slot).filter (· ∉ closed) = [] := by
    rw [← invitationRows_closeAll w₂.base (.revoked now) closed,
      ← tokenIds_closeAll w₂.base (.revoked now) closed,
      ← pendingIds_closeAll w₂.base (.revoked now) closed]
    by_contra hne
    rw [if_pos (by tauto)] at hinserted
    cases hinserted
  obtain ⟨hid, htoken, hslots⟩ := hfree
  have hunexpired : row.createdAt < row.expiresAt := by
    by_contra hle
    split at hinserted
    · cases hinserted
    · rw [if_pos (not_lt.mp hle)] at hinserted
      cases hinserted
  -- what the insertion has checked stays as it is
  have hneeds : ∀ l ∈ [Lock.invitation row.id, .tokenHash row.tokenHash, .pending row.slot],
      l ∈ w₃.held := by
    intro l hl
    rw [hm₃.held, World.after_held, World.needs]
    refine List.mem_append_right _ (List.mem_append_right _ (List.mem_append_left _ ?_))
    simpa [store, touches, hslot] using hl
  have hkept : ∀ l ∈ w₂.held, l ∈ w₃.held := by
    intro l hl
    rw [hm₃.held, World.after_held]
    exact List.mem_append_left _ hl
  have hbase : ∀ l ∈ w₃.held, part l w₄.base = part l w₃.base := fun l hl =>
    hm₄.frozen l (List.mem_append_left _ hl)
  have hchecked : ∀ l ∈ [Lock.invitation row.id, .tokenHash row.tokenHash, .pending row.slot],
      part l w₄.base = part l w₂.base := by
    intro l hl
    have hl' := hneeds l hl
    rw [hbase l hl']
    exact hm₃.frozen l (hm₃.held ▸ hl')
  have hrevoked : ∀ id ∈ closed, w₄.base.invitationRows id = w₁.base.invitationRows id := by
    intro id hid
    have hheld := hheld₂ id hid
    have h₄ := Contents.invitation.inj (hbase _ (hkept _ hheld))
    rw [h₄, rows_of_moves hm₃ (List.mem_append_left _ hheld), World.after_base,
      rows_of_moves hm₂ (hm₂.held ▸ hheld), World.after_base]
  have hexpiredRow : ∀ id ∈ closed, ∃ old ∈ w₄.base.invitations, old.id = id ∧
      old.isOpen = true ∧ old.expiresAt ≤ now := by
    intro id hid
    obtain ⟨old, hold, rfl⟩ := List.mem_map.mp hid
    obtain ⟨hmem, hprops⟩ := List.mem_filter.mp hold
    simp only [Bool.and_eq_true, decide_eq_true_eq] at hprops
    exact ⟨old, mem_of_rows (hrevoked _ hid) hmem, rfl, (openSlot_eq_some.mp hprops.1).1, hprops.2⟩
  have hpending₄ : w₄.pending = closed.map (fun id => .closeInvitation id (.revoked now)) ++
      [.insertInvitation row, .insertAuditEvent row.orgId event] := by
    rw [hm₄.pending, World.after_pending, hm₃.pending, World.after_pending, hpending₂]
    simp [invitedEvent]
  refine ⟨hopen, hunexpired, ?_, ?_, fun old hold holdslot => ?_, closed, event, hpending₄,
    hexpiredRow⟩
  · exact (Contents.invitation.inj (hchecked (.invitation row.id) (by simp))).trans hid
  · exact (Contents.entry.inj (hchecked (.tokenHash row.tokenHash) (by simp))).trans htoken
  · have hids : w₄.base.pendingIds row.slot = w₂.base.pendingIds row.slot :=
      Contents.entry.inj (hchecked (.pending row.slot) (by simp))
    have hmem : old.id ∈ w₄.base.pendingIds row.slot :=
      List.mem_map_of_mem (List.mem_filter.mpr ⟨hold, by simpa using holdslot⟩)
    rw [hids] at hmem
    have hin : old.id ∈ closed := by
      have hnone := List.filter_eq_nil_iff.mp hslots old.id hmem
      simpa using hnone
    obtain ⟨other, hother, hsame, -, hexpires⟩ := hexpiredRow _ hin
    rw [hm₄.inv.row_eq hold hother hsame.symm]
    refine ⟨hexpires, ?_⟩
    rw [hpending₄, hsame]
    exact List.mem_append_left _ (List.mem_map_of_mem hin)

/-- The row that a request for an invitation creates. -/
def Invites (platform : Platform) (context : ApiRequestContext) (draws : InvitationDraws)
    (email : JsString) (role : InvitationalRole) (row : OrganizationInvitation) : Prop :=
  ∃ address stored, normalizeEmail platform email = .ok address ∧
    Services.storedText address = .ok stored ∧
    row = invitationRow platform draws context.orgId context.userId stored role

theorem ok_of_mapError {α ε ε' : Type} {wrap : ε → ε'} {result : Except ε α} {a : α}
    (h : result.mapError wrap = .ok a) : result = .ok a := by
  cases result with
  | error e => cases h
  | ok b => exact congrArg Except.ok (Except.ok.inj h)

theorem createInvitation_safe {draws : InvitationDraws} {orgId inviterUserId : Uuid}
    {email : JsString} {role : InvitationalRole} (hpending : w.pending = []) :
    Safe store protocolContract (createInvitation platform draws orgId inviterUserId email role) w
      fun _ w' => ∃ stored, Services.storedText email = .ok stored ∧
        Creates draws.now (invitationRow platform draws orgId inviterUserId stored role) w' := by
  unfold createInvitation
  refine safe_withOrg hpending fun w₁ _ hpending₁ => ?_
  refine safe_read hpending₁ fun inviter w₂ _ hpending₂ => safe_require fun _ => ?_
  refine safe_read hpending₂ fun organization w₃ _ hpending₃ => ?_
  refine Safe.ofExcept fun stored hstored => ?_
  refine safe_read hpending₃ fun existing w₄ _ hpending₄ => safe_require fun _ => ?_
  refine Safe.map (Safe.mapError ?_)
  refine (replaceInvitation_safe rfl hpending₄).mono fun _ w₅ hcreates => ?_
  exact ⟨stored, ok_of_mapError hstored, hcreates⟩

theorem inviteRoute_safe {context : ApiRequestContext} {draws : InvitationDraws}
    {email : JsString} {role : InvitationalRole} (hpending : w.pending = []) :
    Safe store protocolContract (inviteRoute platform context draws email role) w
      fun _ w' => ∃ row, Invites platform context draws email role row ∧
        Creates draws.now row w' := by
  refine safe_withTenant hpending fun w₁ _ hpending₁ => Safe.ofExcept fun address haddress => ?_
  refine (createInvitation_safe hpending₁).mono ?_
  rintro _ w₂ ⟨stored, hstored, hcreates⟩
  exact ⟨_, ⟨address, stored, haddress, hstored, rfl⟩, hcreates⟩

/-! ## Revocations -/

/-- What a revocation has found and written when it commits. -/
structure Revokes (context : ApiRequestContext) (now : Timestamp) (invitationId : Uuid)
    (w : World Db Lock Write) : Prop where
  found : ∃ row ∈ w.base.invitations, row.orgId = context.orgId ∧ row.id = invitationId ∧
    row.isOpen = true
  writes : ∃ event, w.pending =
    [.closeInvitation invitationId (.revoked now), .insertAuditEvent context.orgId event]

theorem revocable_eq {db : Db} (h : db.WellFormed) {orgId invitationId : Uuid}
    {row : OrganizationInvitation} (hrow : row ∈ db.revocable orgId invitationId) :
    db.revocable orgId invitationId = [row] := by
  have hids : ((db.revocable orgId invitationId).map (·.id)).Nodup :=
    h.ids.sublist (List.filter_sublist.map _)
  have hid : ∀ other ∈ db.revocable orgId invitationId, other.id = invitationId := by
    intro other hother
    have hprops := (List.mem_filter.mp hother).2
    simp only [Bool.and_eq_true, decide_eq_true_eq] at hprops
    exact hprops.1.2
  generalize db.revocable orgId invitationId = rows at *
  match rows, hrow, hids, hid with
  | [other], hrow, _, _ => rw [List.mem_singleton.mp hrow]
  | first :: second :: rest, _, hids, hid =>
    have hne := List.rel_of_pairwise_cons hids (List.mem_cons_self ..)
    exact absurd ((hid first (by simp)).trans (hid second (by simp)).symm) hne

theorem revokeRoute_safe {context : ApiRequestContext} {now : Timestamp} {invitationId : Uuid}
    (hpending : w.pending = []) :
    Safe store protocolContract (revokeRoute context now invitationId) w
      fun _ w' => Revokes context now invitationId w' := by
  refine safe_withTenant hpending fun w₁ _ hpending₁ => ?_
  refine Safe.stmt fun w₂ row hm₂ hrow => Safe.map ?_
  refine safe_recordInTransaction fun w₃ event w₄ hm₃ hm₄ => ?_
  have hpending₂ : w₂.pending = [] := hm₂.pending.trans hpending₁
  rw [World.view_of_pending hpending₂] at hrow
  have hmem : row ∈ w₂.base.revocable context.orgId invitationId := by
    cases hhead : (w₂.base.revocable context.orgId invitationId).head? with
    | none =>
      rw [hhead] at hrow
      cases hrow
    | some first =>
      rw [hhead] at hrow
      cases hrow
      exact List.mem_of_mem_head? hhead
  have hone := revocable_eq hm₂.inv hmem
  obtain ⟨hin, hprops⟩ := List.mem_filter.mp hmem
  simp only [Bool.and_eq_true, decide_eq_true_eq] at hprops
  obtain ⟨⟨horg, rfl⟩, hopen⟩ := hprops
  have hheld₃ : .invitation row.id ∈ w₃.held := by
    rw [hm₃.held, World.after_held, World.needs, World.view_of_pending hpending₂, hone]
    exact List.mem_append_right _ (List.mem_append_right _
      (List.mem_append_left _ (List.mem_cons_self ..)))
  refine ⟨⟨row, ?_, horg, rfl, hopen⟩, event, ?_⟩
  · have hrows := rows_of_moves hm₄ (List.mem_append_left _ hheld₃)
    rw [World.after_base, rows_of_moves hm₃ (hm₃.held ▸ hheld₃), World.after_base] at hrows
    exact mem_of_rows hrows hin
  · rw [hm₄.pending, World.after_pending, hm₃.pending, World.after_pending, hpending₂,
      World.view_of_pending hpending₂, hone]
    rfl

/-! ## Requests -/

inductive Request where
  | invite (context : ApiRequestContext) (draws : InvitationDraws) (email : JsString)
      (role : InvitationalRole)
  | revoke (context : ApiRequestContext) (now : Timestamp) (invitationId : Uuid)
  | accept (user : SignedIn) (token : JsString) (resolvedAt now : Timestamp)

inductive Answer where
  | invited (organizationName : JsString)
  | revoked (row : OrganizationInvitation)
  | accepted (orgId : Uuid)

def program (platform : Platform) : Request → TenancyM Answer
  | .invite context draws email role => do
    let name ← inviteRoute platform context draws email role
    pure (.invited name)
  | .revoke context now invitationId => do
    let row ← revokeRoute context now invitationId
    pure (.revoked row)
  | .accept user token resolvedAt now => do
    let orgId ← acceptInvitation platform user token resolvedAt now
    pure (.accepted orgId)

/-- What a request has found and written when it commits. -/
def Fact (platform : Platform) (request : Request) (answer : Answer) (w : World Db Lock Write) :
    Prop :=
  match request with
  | .invite context draws email role =>
    ∃ row, Invites platform context draws email role row ∧ Creates draws.now row w
  | .revoke context now invitationId => Revokes context now invitationId w
  | .accept user token _ now =>
    ∃ row, Accepts platform user token now row w ∧ answer = .accepted row.orgId

theorem program_safe (platform : Platform) (request : Request) {base : Db} :
    Safe store protocolContract (program platform request) ⟨base, [], [], []⟩
      (Fact platform request) := by
  cases request with
  | invite context draws email role => exact Safe.map (inviteRoute_safe rfl)
  | revoke context now invitationId => exact Safe.map (revokeRoute_safe rfl)
  | accept user token resolvedAt now =>
    refine Safe.map ((acceptInvitation_safe user token resolvedAt now rfl).mono ?_)
    rintro _ w ⟨row, haccepts, rfl⟩
    exact ⟨row, haccepts, rfl⟩

/-- **Every commit keeps the constraints.** -/
theorem wellFormed_of_fact {request : Request} {answer : Answer} (hinv : w.base.WellFormed)
    (h : Fact platform request answer w) : (w.view store).WellFormed := by
  cases request with
  | invite context draws email role =>
    obtain ⟨row, -, hcreates⟩ := h
    obtain ⟨closed, event, hpending, -⟩ := hcreates.writes
    rw [World.view, hpending, Store.applyAll_append]
    refine Db.WellFormed.of_eq (Db.WellFormed.insert (hinv.closeAll (.revoked draws.now) closed)
      ?_ ?_ ?_) rfl
    · rw [invitationRows_closeAll]
      exact hcreates.id
    · rw [tokenIds_closeAll]
      exact hcreates.token
    · rw [pendingIds_closeAll, List.filter_eq_nil_iff]
      intro id hid
      obtain ⟨old, hold, rfl⟩ := List.mem_map.mp hid
      obtain ⟨hmem, hslot⟩ := List.mem_filter.mp hold
      have hclosed := (hcreates.replaced old hmem (by simpa using hslot)).2
      rw [hpending] at hclosed
      simpa using hclosed
  | revoke context now invitationId =>
    obtain ⟨event, hpending⟩ := h.writes
    rw [World.view, hpending]
    exact (hinv.close invitationId (.revoked now)).of_eq rfl
  | accept user token resolvedAt now =>
    obtain ⟨row, haccepts, -⟩ := h
    obtain ⟨event, hpending⟩ := haccepts.writes
    rw [World.view, hpending]
    exact ((hinv.of_eq rfl).close row.id (.accepted now user.userId)).of_eq rfl

/-! ## Runs -/

abbrev ProtocolEntry := Entry Db Lock Write Request Answer

def CreatedBy (platform : Platform) (e : ProtocolEntry) (row : OrganizationInvitation) : Prop :=
  ∃ context draws email role, e.call = .invite context draws email role ∧
    Invites platform context draws email role row ∧ Creates draws.now row e.world

def AcceptedBy (platform : Platform) (e : ProtocolEntry) (row : OrganizationInvitation) : Prop :=
  ∃ user token resolvedAt now, e.call = .accept user token resolvedAt now ∧
    e.answer = .accepted row.orgId ∧ Accepts platform user token now row e.world ∧
    (e.world.view store).memberships =
      e.world.base.memberships ++ [membershipOf row row.orgId user.userId now] ∧
    (Closing.accepted now user.userId).on row ∈ (e.world.view store).invitations

/-- What the protocol promises of a run. -/
structure Protocol (platform : Platform) (base : Db)
    (s : System Db Lock Write RequestError Request Answer) : Prop where
  /-- At most one invitation of an address is open, at any time. -/
  wellFormed : s.base.WellFormed ∧
    ∀ e ∈ s.log, e.world.base.WellFormed ∧ (e.world.view store).WellFormed
  /-- A request that does not commit changes nothing. -/
  committed : s.base = committed store base s.log ∧
    ∀ earlier e later, s.log = earlier ++ e :: later → e.world.base = committed store base earlier
  invited : ∀ e ∈ s.log, ∀ context draws email role, e.call = .invite context draws email role →
    ∃ row, CreatedBy platform e row
  accepted : ∀ e ∈ s.log, ∀ user token resolvedAt now,
    e.call = .accept user token resolvedAt now → ∃ row, AcceptedBy platform e row
  members : ∀ e ∈ s.log,
    (∀ user token resolvedAt now, e.call ≠ .accept user token resolvedAt now) →
      (e.world.view store).memberships = e.world.base.memberships
  once : s.log.Pairwise fun e e' => ∀ user user' token resolvedAt resolvedAt' now now',
    e.call = .accept user token resolvedAt now → e'.call ≠ .accept user' token resolvedAt' now'
  /-- No invitation that was there before a newer one of the address is accepted after it. -/
  superseded : s.log.Pairwise fun e e' => ∀ row row', CreatedBy platform e row →
    AcceptedBy platform e' row' → row'.slot = row.slot →
      ∀ old ∈ e.world.base.invitations, old.id ≠ row'.id

theorem memberships_closeAll {db : Db} {closing : Closing} (ids : List Uuid) :
    (applyAll apply (ids.map fun id => .closeInvitation id closing) db).memberships =
      db.memberships := by
  induction ids generalizing db with
  | nil => rfl
  | cons id ids ih => exact ih

/-- A row with another id is as it was. -/
theorem mem_of_closeAll {db : Db} {closing : Closing} {ids : List Uuid}
    {row : OrganizationInvitation}
    (hrow : row ∈ (applyAll apply (ids.map fun id => .closeInvitation id closing) db).invitations)
    (hid : row.id ∉ ids) : row ∈ db.invitations := by
  induction ids generalizing db with
  | nil => exact hrow
  | cons id ids ih =>
    rw [List.mem_cons, not_or] at hid
    obtain ⟨old, hold, ⟨hsame, heq⟩ | ⟨-, heq⟩⟩ := mem_updateWhere.mp (ih hrow hid.2)
    · rw [heq, Closing.on_id] at hid
      exact absurd (by simpa using hsame) hid.1
    · exact heq ▸ hold

theorem isOpen_of_closeAll {db : Db} {closing : Closing} {ids : List Uuid}
    {row : OrganizationInvitation}
    (hrow : row ∈ (applyAll apply (ids.map fun id => .closeInvitation id closing) db).invitations)
    (hid : row.id ∈ ids) : row.isOpen = false := by
  induction ids generalizing db with
  | nil => cases hid
  | cons id ids ih =>
    by_cases hlater : row.id ∈ ids
    · exact ih hrow hlater
    · obtain rfl : row.id = id := (List.mem_cons.mp hid).resolve_right hlater
      have hin : row ∈ (apply (.closeInvitation row.id closing) db).invitations :=
        mem_of_closeAll hrow hlater
      obtain ⟨old, -, ⟨-, heq⟩ | ⟨hne, heq⟩⟩ := mem_updateWhere.mp hin
      · rw [heq, Closing.on_isOpen]
      · simp [heq] at hne

theorem acceptedBy_of_fact {e : ProtocolEntry} (h : Fact platform e.call e.answer e.world)
    {user : SignedIn} {token : JsString} {resolvedAt now : Timestamp}
    (hcall : e.call = .accept user token resolvedAt now) : ∃ row, AcceptedBy platform e row := by
  rw [hcall] at h
  obtain ⟨row, haccepts, hanswer⟩ := h
  refine ⟨row, user, token, resolvedAt, now, hcall, hanswer, haccepts, ?_⟩
  obtain ⟨event, hpending⟩ := haccepts.writes
  rw [World.view, hpending]
  exact ⟨rfl, mem_updateWhere.mpr ⟨row, haccepts.mem, .inl ⟨by simp, rfl⟩⟩⟩

/-- A later database has no open invitation where an earlier one has a closed one. -/
theorem false_of_closed {db db' : Db} (hlater : Later db db') (hwf : db'.WellFormed)
    {row row' : OrganizationInvitation} (hrow : row ∈ db.invitations)
    (hrow' : row' ∈ db'.invitations) (hid : row'.id = row.id) (hclosed : row.isOpen = false)
    (hopen : row'.isOpen = true) : False := by
  rw [hlater.closed hwf hrow hrow' hid hclosed] at hopen
  cases hopen

/-- The second acceptance of a token would find its invitation closed. -/
theorem accepted_once {e e' : ProtocolEntry} (hwf : e'.world.base.WellFormed)
    {row row' : OrganizationInvitation} (h : AcceptedBy platform e row)
    (h' : AcceptedBy platform e' row') {user user' : SignedIn} {token : JsString}
    {resolvedAt resolvedAt' now now' : Timestamp}
    (hcall : e.call = .accept user token resolvedAt now)
    (hcall' : e'.call = .accept user' token resolvedAt' now')
    (hlater : Later (e.world.view store) e'.world.base) : False := by
  obtain ⟨_, _, _, _, heq, -, haccepts, -, hclosed⟩ := h
  obtain ⟨_, _, _, _, heq', -, haccepts', -, -⟩ := h'
  rw [hcall] at heq
  rw [hcall'] at heq'
  cases heq
  cases heq'
  obtain ⟨next, hnext, hfollows⟩ := hlater.follows hclosed
  have htoken : row'.tokenHash = next.tokenHash := by
    rw [hfollows.token, Closing.on_tokenHash, haccepts.token, haccepts'.token]
  have hsame := hwf.row_eq_of_token haccepts'.mem hnext htoken
  exact false_of_closed hlater hwf hclosed haccepts'.mem (hsame ▸ hfollows.id)
    (Closing.on_isOpen _ _) haccepts'.isOpen

/-- An invitation closes the open ones of its address, so that none is accepted afterwards. -/
theorem superseded_of_created {e e' : ProtocolEntry}
    (hwf' : e'.world.base.WellFormed) {row row' old : OrganizationInvitation}
    (h : CreatedBy platform e row) (h' : AcceptedBy platform e' row')
    (hlater : Later (e.world.view store) e'.world.base) (hslot : row'.slot = row.slot)
    (hold : old ∈ e.world.base.invitations) (hid : old.id = row'.id) : False := by
  obtain ⟨_, draws, _, _, -, -, hcreates⟩ := h
  obtain ⟨_, _, _, _, -, -, haccepts, -, -⟩ := h'
  obtain ⟨closed, event, hpending, -⟩ := hcreates.writes
  -- the database between the closings and the insertion
  have hclosings := later_applyAll (closed.map fun id => .closeInvitation id (.revoked draws.now))
    e.world.base
  have hrest : Later (applyAll apply (closed.map fun id =>
      .closeInvitation id (.revoked draws.now)) e.world.base) e'.world.base := by
    refine Later.trans ?_ hlater
    rw [World.view, hpending, Store.applyAll_append]
    exact later_applyAll _ _
  obtain ⟨next, hnext, hfollows⟩ := hclosings.follows hold
  obtain ⟨last, hlast, hfollows'⟩ := hrest.follows hnext
  have hsame : row' = last := hwf'.row_eq haccepts.mem hlast
    (hid.symm.trans (hfollows.id.symm.trans hfollows'.id.symm))
  have hnextClosed : next.isOpen = false := by
    by_contra hopen
    rw [Bool.not_eq_false] at hopen
    have heq := hfollows.open_ hopen
    have holdslot : old.openSlot = some row.slot := by
      refine openSlot_eq_some.mpr ⟨heq ▸ hopen, ?_⟩
      rw [← hfollows.slot, ← hfollows'.slot, ← hsame, hslot]
    have hmem := (hcreates.replaced old hold holdslot).2
    rw [hpending] at hmem
    have hin : next.id ∈ closed := by
      rw [hfollows.id]
      simpa using hmem
    rw [isOpen_of_closeAll hnext hin] at hopen
    cases hopen
  exact false_of_closed hrest hwf' hnext haccepts.mem (hid.symm.trans hfollows.id.symm)
    hnextClosed haccepts.isOpen

/-- **The protocol holds in every run.** -/
theorem invitation_protocol (platform : Platform) {base : Db} (hbase : base.WellFormed)
    {s : System Db Lock Write RequestError Request Answer}
    (hreach : Reachable store (program platform) base s) : Protocol platform base s := by
  have hhistory : History store protocolContract (Fact platform) s :=
    history_of_reachable hbase hreach (fun request _ _ => program_safe platform request)
      fun request answer w hinv hfact =>
        ⟨wellFormed_of_fact hinv hfact, later_applyAll w.pending w.base⟩
  have hfact : ∀ e ∈ s.log, Fact platform e.call e.answer e.world := fun e he =>
    (hhistory.entries e he).fact
  have hinv : ∀ e ∈ s.log, e.world.base.WellFormed := fun e he => (hhistory.entries e he).inv
  refine ⟨⟨hhistory.inv, fun e he => ⟨hinv e he, wellFormed_of_fact (hinv e he) (hfact e he)⟩⟩,
    commits_of_reachable hreach, fun e he context draws email role hcall => ?_,
    fun e he user token resolvedAt now hcall => ?_, fun e he hother => ?_, ?_, ?_⟩
  · have h := hfact e he
    rw [hcall] at h
    obtain ⟨row, hinvites, hcreates⟩ := h
    exact ⟨row, context, draws, email, role, hcall, hinvites, hcreates⟩
  · exact acceptedBy_of_fact (hfact e he) hcall
  · have h := hfact e he
    cases hcall : e.call with
    | invite context draws email role =>
      rw [hcall] at h
      obtain ⟨row, -, hcreates⟩ := h
      obtain ⟨closed, event, hpending, -⟩ := hcreates.writes
      rw [World.view, hpending, Store.applyAll_append]
      exact memberships_closeAll closed
    | revoke context now invitationId =>
      rw [hcall] at h
      obtain ⟨event, hpending⟩ := h.writes
      rw [World.view, hpending]
      rfl
    | accept user token resolvedAt now => exact absurd hcall (hother user token resolvedAt now)
  · refine hhistory.order.imp_of_mem fun {e e'} he he' horder => ?_
    intro user user' token resolvedAt resolvedAt' now now' hcall hcall'
    obtain ⟨row, hrow⟩ := acceptedBy_of_fact (hfact e he) hcall
    obtain ⟨row', hrow'⟩ := acceptedBy_of_fact (hfact e' he') hcall'
    exact accepted_once (hinv e' he') hrow hrow' hcall hcall' horder
  · refine hhistory.order.imp_of_mem fun {e e'} he he' horder => ?_
    intro row row' hcreated haccepted hslot old hold hid
    exact superseded_of_created (hinv e' he') hcreated haccepted horder hslot hold hid

/-! ## An invitation and its acceptance -/

/-- Primitives that are easy to compute: a digest shows its text. -/
def examplePlatform : Platform where
  primitives :=
    { toLowerCase := fun text => text.map Audit.asciiLower
      digest := Utf8.encode
      hash := fun _ password => password
      verify := fun passwordHash password => passwordHash == password }
  lower := fun text => text.map Audit.asciiLower

/-- An organization of one owner, and a user that is no member. -/
def exampleTenants : Db where
  organizations := [⟨⟨1⟩, ofAscii "Alpha", none⟩]
  users := [⟨⟨2⟩, ofAscii "owner@alpha.dev", ofAscii "owner@alpha.dev"⟩,
    ⟨⟨3⟩, ofAscii "b@alpha.dev", ofAscii "b@alpha.dev"⟩]
  memberships := [⟨⟨1⟩, ⟨2⟩, .owner, .active, none, 0, 0⟩]
  invitations := []
  sessions := []
  auditEvents := []

theorem exampleTenants_wellFormed : exampleTenants.WellFormed :=
  ⟨List.nodup_nil, List.nodup_nil, fun _ => Nat.zero_le 1⟩

def exampleInvite : Request :=
  .invite ⟨⟨1⟩, ⟨2⟩⟩ ⟨1000, 1, ⟨4⟩, ofAscii "token"⟩ (ofAscii " B@Alpha.dev ") .member

def exampleAccept : Request := .accept ⟨⟨3⟩, ofAscii "b@alpha.dev"⟩ (ofAscii "token") 2000 3000

def invitedAndAccepted : List (Choice Request) :=
  [.start exampleInvite, .start exampleAccept] ++ List.replicate 9 (.statement 0) ++ [.commit 0] ++
    List.replicate 5 (.statement 0) ++ [.commit 0]

theorem invitation_protocol_accepted :
    ∃ s, (System.start exampleTenants).schedule store (program examplePlatform)
        invitedAndAccepted = some s ∧
      s.log.length = 2 ∧ Protocol examplePlatform exampleTenants s := by
  have hlast : ((System.start exampleTenants).schedule store (program examplePlatform)
      invitedAndAccepted).map (·.log.length) = some 2 := by decide +kernel
  obtain ⟨s, hs, hlength⟩ := Option.map_eq_some_iff.mp hlast
  exact ⟨s, hs, hlength, invitation_protocol examplePlatform exampleTenants_wellFormed
    (reachable_of_schedule hs)⟩

end Himitsu.Tenancy
