import Himitsu.Tenancy.InvitationProtocol

/-!
# Changing members

Model of `validateMemberChange` and of the member routes of `apps/api/src/index.ts`, and of what
sequences of membership requests do to the roles of an organization.

* `updateMemberRoute`, `removeMemberRoute` — the routes.
* `HoldsAdmin` — a user holds the role `admin` or `owner`.
* `step_inv` — one request by a member that is no owner.

Principal results: `admins_never_gain` — nobody becomes an administrator in a run in which no
administrator invites one; `invitedAdmin_gains` — an administrator can invite one.
-/

set_option autoImplicit false

namespace Himitsu.Tenancy

open JsString Crypto Database Transactions Authz

/-! ## Routes -/

structure MemberRow where
  membership : Membership
  email : JsString

/-- `memberSelect` for an active member. -/
def Db.activeMember (db : Db) (orgId memberId : Uuid) : Option MemberRow := do
  let membership ← db.activeMembership orgId memberId
  let user ← db.users.find? (·.id = memberId)
  some ⟨membership, user.email⟩

def ownerProtected : RequestError :=
  .api 400 (ofAscii "OWNER_PROTECTED")
    (ofAscii "The organization owner cannot be changed or removed")

def memberNotFound : RequestError := .api 404 (ofAscii "NOT_FOUND") (ofAscii "Member not found")

def validateMemberChange (actorRole : Role) (target : MemberRow) (desiredRole : Option Role) :
    Except RequestError Unit :=
  if target.membership.role = .owner then .error ownerProtected
  else if actorRole = .admin ∧ (target.membership.role = .admin ∨ desiredRole = some .admin ∨
      desiredRole = some .owner) then
    .error (.api 403 (ofAscii "FORBIDDEN")
      (ofAscii "Administrators cannot manage other administrators or owners"))
  else if desiredRole = some .owner then
    .error (.api 400 (ofAscii "OWNER_TRANSFER_REQUIRED")
      (ofAscii "Owner transfer requires a dedicated ownership workflow"))
  else .ok ()

def roleChangedEvent (context : ApiRequestContext) (target : MemberRow) (role : Role) :
    Audit.AuditEventInput where
  orgId := context.orgId
  actor := .user context.userId
  action := .membershipRoleChanged
  resourceType := ofAscii "membership"
  resourceId := some target.membership.userId.text
  before := some [(ofAscii "role", .string (roleText target.membership.role))]
  after := some [(ofAscii "role", .string (roleText role))]

/-- The target of a change, which is locked, and the check of the change. -/
def checkedTarget (context : ApiRequestContext) (memberId : Uuid) (desiredRole : Option Role) :
    TenancyM MemberRow := do
  let actor ← Prog.select fun db : Db => db.activeMembership context.orgId context.userId
  let target ← Prog.selectForUpdate
    (fun db : Db => ((db.activeMember context.orgId memberId).map fun row =>
      .membership row.membership.key).toList)
    fun db => db.activeMember context.orgId memberId
  let target ← expect target memberNotFound
  Prog.ofExcept (validateMemberChange ((actor.map (·.role)).getD .readOnly) target desiredRole)
  pure target

/-- `PATCH /api/v1/members/:memberId`. -/
def updateMemberRoute (context : ApiRequestContext) (now : Timestamp) (memberId : Uuid)
    (role : InvitationalRole) : TenancyM MemberRow :=
  withTenant context .orgMembersManage (do
    let target ← checkedTarget context memberId (some role.role)
    .execute (fun _ => [])
      (fun _ => [.updateMembership (context.orgId, memberId) role.role now]) fun _ => .ok ()
    let row ← Prog.select fun db : Db => db.activeMember context.orgId memberId
    let row ← expect row memberNotFound
    recordInTransaction now (roleChangedEvent context target row.membership.role)
    pure row)

def memberRemovedEvent (context : ApiRequestContext) (memberId : Uuid) (target : MemberRow) :
    Audit.AuditEventInput where
  orgId := context.orgId
  actor := .user context.userId
  action := .membershipRemoved
  resourceType := ofAscii "membership"
  resourceId := some memberId.text
  before := some [(ofAscii "role", .string (roleText target.membership.role))]

/-- `DELETE /api/v1/members/:memberId`. -/
def removeMemberRoute (context : ApiRequestContext) (now : Timestamp) (memberId : Uuid) :
    TenancyM MemberRow :=
  withTenant context .orgMembersManage (do
    require (memberId ≠ context.userId)
      (.api 400 (ofAscii "SELF_REMOVAL_FORBIDDEN")
        (ofAscii "Use the leave-organization workflow to remove your own membership"))
    let target ← checkedTarget context memberId none
    .execute (fun _ => []) (fun _ => [.clearActiveOrganization memberId context.orgId])
      fun _ => .ok ()
    .execute (fun _ => []) (fun _ => [.deleteMembership (context.orgId, memberId)])
      fun _ => .ok ()
    recordInTransaction now (memberRemovedEvent context memberId target)
    pure target)

/-! ## Requests in turn -/

inductive MemberRequest where
  | invitation (request : Request)
  | updateMember (context : ApiRequestContext) (now : Timestamp) (memberId : Uuid)
      (role : InvitationalRole)
  | removeMember (context : ApiRequestContext) (now : Timestamp) (memberId : Uuid)

def memberProgram (platform : Platform) : MemberRequest → TenancyM Unit
  | .invitation request => do
    let _ ← program platform request
    pure ()
  | .updateMember context now memberId role => do
    let _ ← updateMemberRoute context now memberId role
    pure ()
  | .removeMember context now memberId => do
    let _ ← removeMemberRoute context now memberId
    pure ()

/-- The database after a request, which changes nothing where it fails. -/
def afterRequest (platform : Platform) (db : Db) (request : MemberRequest) : Db :=
  (transact apply (memberProgram platform request) db).2

def afterRequests (platform : Platform) (db : Db) (requests : List MemberRequest) : Db :=
  requests.foldl (afterRequest platform) db

/-- The member that makes a request; an invitee is none. -/
def MemberRequest.context : MemberRequest → Option ApiRequestContext
  | .invitation (.invite context _ _ _) => some context
  | .invitation (.revoke context _ _) => some context
  | .invitation (.accept _ _ _ _) => none
  | .updateMember context _ _ _ => some context
  | .removeMember context _ _ => some context

def Db.hasRole (db : Db) (orgId userId : Uuid) (role : Role) : Prop :=
  ∃ row ∈ db.memberships, row.key = (orgId, userId) ∧ row.role = role

def HoldsAdmin (db : Db) (orgId userId : Uuid) : Prop :=
  db.hasRole orgId userId .admin ∨ db.hasRole orgId userId .owner

/-- No open invitation of the organization makes an administrator after a moment. -/
def NoPendingAdmin (orgId : Uuid) (since : Timestamp) (db : Db) : Prop :=
  ∀ row ∈ db.invitations, row.orgId = orgId → row.isOpen = true → row.role = .admin →
    row.expiresAt ≤ since

/-- No owner of the organization acts. -/
def BelowOwner (orgId : Uuid) (db : Db) (request : MemberRequest) : Prop :=
  ∀ context, request.context = some context → context.orgId = orgId →
    ¬ db.hasRole orgId context.userId .owner

/-- An acceptance comes after a moment. -/
def NotBefore (since : Timestamp) (request : MemberRequest) : Prop :=
  ∀ user token resolvedAt now, request = .invitation (.accept user token resolvedAt now) →
    since ≤ now

/-- An administrator of the organization invites an address, of no member, as an administrator. -/
def InvitesAdmin (platform : Platform) (orgId : Uuid) (db : Db) (request : MemberRequest) : Prop :=
  ∃ context draws email normalized stored,
    request = .invitation (.invite context draws email .admin) ∧
    context.orgId = orgId ∧ db.hasRole orgId context.userId .admin ∧
    normalizeEmail platform email = .ok normalized ∧
    Services.storedText normalized = .ok stored ∧ db.hasMember orgId stored = false

/-! ## Writes that make no administrator -/

/-- The write makes nobody an administrator of the organization, now or by an invitation. -/
def Harmless (orgId : Uuid) : Write → Prop
  | .insertInvitation row => row.orgId = orgId → row.role ≠ .admin
  | .insertMembership row => row.orgId = orgId → row.role ≠ .admin ∧ row.role ≠ .owner
  | .updateMembership key role _ => key.1 = orgId → role ≠ .admin ∧ role ≠ .owner
  | _ => True

/-- No administrator has been gained since `db₀`, and none is about to be. -/
structure Kept (orgId : Uuid) (since : Timestamp) (db₀ db : Db) : Prop where
  pending : NoPendingAdmin orgId since db
  admins : ∀ userId, HoldsAdmin db orgId userId → HoldsAdmin db₀ orgId userId

variable {orgId : Uuid} {since : Timestamp} {db₀ db : Db}

/-- Each row that holds the role now held it before. -/
theorem Kept.of_rows (h : Kept orgId since db₀ db) {db' : Db}
    (hpending : NoPendingAdmin orgId since db')
    (hrows : ∀ row ∈ db'.memberships, row.orgId = orgId → row.role = .admin ∨ row.role = .owner →
      ∃ old ∈ db.memberships, old.key = row.key ∧ old.role = row.role) :
    Kept orgId since db₀ db' := by
  refine ⟨hpending, fun userId hholds => h.admins userId ?_⟩
  obtain ⟨row, hrow, hkey, hrole⟩ | ⟨row, hrow, hkey, hrole⟩ := hholds
  · obtain ⟨old, hold, hkey', hrole'⟩ := hrows row hrow (congrArg Prod.fst hkey) (.inl hrole)
    exact .inl ⟨old, hold, hkey'.trans hkey, hrole'.trans hrole⟩
  · obtain ⟨old, hold, hkey', hrole'⟩ := hrows row hrow (congrArg Prod.fst hkey) (.inr hrole)
    exact .inr ⟨old, hold, hkey'.trans hkey, hrole'.trans hrole⟩

theorem noPendingAdmin_close (h : NoPendingAdmin orgId since db) (id : Uuid) (closing : Closing) :
    NoPendingAdmin orgId since (apply (.closeInvitation id closing) db) := by
  intro row hrow horg hopen hrole
  obtain ⟨old, hold, ⟨-, heq⟩ | ⟨-, heq⟩⟩ := mem_updateWhere.mp hrow
  · rw [heq, Closing.on_isOpen] at hopen
    cases hopen
  · exact h row (heq ▸ hold) horg hopen hrole

theorem Kept.apply (h : Kept orgId since db₀ db) {w : Write} (hw : Harmless orgId w) :
    Kept orgId since db₀ (apply w db) := by
  cases w with
  | insertInvitation row =>
    refine h.of_rows (fun new hnew horg hopen hrole => ?_) fun row hrow _ _ => ⟨row, hrow, rfl, rfl⟩
    obtain hold | hadded := List.mem_append.mp hnew
    · exact h.pending new hold horg hopen hrole
    · rw [List.mem_singleton.mp hadded] at horg hrole
      exact absurd hrole (hw horg)
  | closeInvitation id closing =>
    exact h.of_rows (noPendingAdmin_close h.pending id closing) fun row hrow _ _ =>
      ⟨row, hrow, rfl, rfl⟩
  | insertMembership row =>
    refine h.of_rows h.pending fun new hnew horg hrole => ?_
    obtain hold | hadded := List.mem_append.mp hnew
    · exact ⟨new, hold, rfl, rfl⟩
    · rw [List.mem_singleton.mp hadded] at horg hrole
      obtain ⟨hadmin, howner⟩ := hw horg
      exact absurd hrole (not_or.mpr ⟨hadmin, howner⟩)
  | updateMembership key role time =>
    refine h.of_rows h.pending fun new hnew horg hrole => ?_
    obtain ⟨old, hold, ⟨hkey, heq⟩ | ⟨-, heq⟩⟩ := mem_updateWhere.mp hnew
    · have hnewKey : new.key = key := by
        rw [heq]
        simpa using hkey
      obtain ⟨hadmin, howner⟩ := hw (by rw [← hnewKey]; exact horg)
      have hnewRole : new.role = role := by rw [heq, Membership.withRole]
      rw [hnewRole] at hrole
      exact absurd hrole (not_or.mpr ⟨hadmin, howner⟩)
    · exact ⟨new, heq ▸ hold, rfl, rfl⟩
  | deleteMembership key =>
    exact h.of_rows h.pending fun row hrow _ _ => ⟨row, (List.mem_filter.mp hrow).1, rfl, rfl⟩
  | clearActiveOrganization | insertAuditEvent =>
    exact h.of_rows h.pending fun row hrow _ _ => ⟨row, hrow, rfl, rfl⟩

theorem ensures_of_emits {α : Type} {p : TenancyM α} (hp : Emits (Harmless orgId) p)
    (h : Kept orgId since db₀ db) :
    Ensures apply p db fun _ db' => Kept orgId since db₀ db' :=
  hp.ensures (fun _ _ hw hs => hs.apply hw) h

/-! ## Rules of the requests -/

section

variable {α β : Type} {Q : α → Db → Prop} {P : Write → Prop}

theorem ensures_require {holds : Bool} {error : RequestError} {f : Unit → TenancyM α}
    (h : holds = true → Ensures apply (f ()) db Q) :
    Ensures apply (require holds error >>= f) db Q := by
  unfold require
  split
  · rename_i hholds
    exact h hholds
  · exact ensures_done_error

theorem ensures_withOrg {orgId userId : Uuid} {work : TenancyM α} (h : Ensures apply work db Q) :
    Ensures apply (withOrg orgId userId work) db Q := by
  unfold withOrg
  rw [ensures_bind, ensures_select]
  exact ensures_require fun _ => h

theorem ensures_expect {value : Option β} {error : RequestError} {f : β → TenancyM α}
    (h : ∀ b, value = some b → Ensures apply (f b) db Q) :
    Ensures apply (expect value error >>= f) db Q := by
  cases value with
  | none => exact ensures_done_error
  | some b => exact h b rfl

theorem emits_require {holds : Bool} {error : RequestError} : Emits P (require holds error) :=
  (emits_ok ()).ite (emits_fail error)

theorem emits_withOrg {orgId userId : Uuid} {work : TenancyM α} (h : Emits P work) :
    Emits P (withOrg orgId userId work) :=
  (emits_select _).bind fun _ => emits_require.bind fun _ => h

theorem emits_withTenant {context : ApiRequestContext} {permission : Permission}
    {work : TenancyM α} (h : Emits P work) : Emits P (withTenant context permission work) :=
  emits_withOrg (((emits_select _).bind fun _ => (emits_ofExcept _).bind fun _ => emits_ok _).bind
    fun _ => (emits_ofExcept _).bind fun _ => h)

theorem emits_recordInTransaction {now : Timestamp} {event : Audit.AuditEventInput} :
    Emits (Harmless orgId) (recordInTransaction now event) :=
  (emits_ofExcept _).bind fun _ => (emits_ofExcept _).bind fun _ =>
    emits_execute fun _ w hw => by
      rw [List.mem_singleton.mp hw]
      trivial

end

theorem hasRole_of_activeMembership {userId : Uuid} {membership : Membership}
    (h : db.activeMembership orgId userId = some membership) :
    db.hasRole orgId userId membership.role := by
  have hrow := List.find?_some h
  rw [Bool.and_eq_true, decide_eq_true_eq] at hrow
  exact ⟨membership, List.mem_of_find?_eq_some h, hrow.1, rfl⟩

/-- A request that is permitted is made by a member with a role that permits it. -/
theorem ensures_withTenant {α : Type} {context : ApiRequestContext} {permission : Permission}
    {work : TenancyM α} {Q : α → Db → Prop}
    (h : ∀ membership, db.activeMembership context.orgId context.userId = some membership →
      permissionMatrix membership.role permission = true → Ensures apply work db Q) :
    Ensures apply (withTenant context permission work) db Q := by
  unfold withTenant resolve
  refine ensures_withOrg ?_
  rw [ensures_bind, ensures_bind, ensures_select]
  cases hmember : db.activeMembership context.orgId context.userId with
  | none => exact ensures_done_error
  | some membership =>
    refine ensures_done_ok.mpr ?_
    rw [attempt, ensures_bind, ensures_ofExcept]
    intro _ hpermitted
    have hallowed := requirePermission_ok_iff.mp (ok_of_mapError hpermitted)
    have hmatrix := (authorize_allowed_iff.mp hallowed).1
    have hrole : AuthorizationContext.roleFor ⟨membership.role, none, false⟩ permission =
        membership.role := by
      unfold AuthorizationContext.roleFor
      split <;> rfl
    rw [hrole] at hmatrix
    exact h membership hmember hmatrix

theorem not_permitted {role : Role} {permission : Permission} (hadmin : role ≠ .admin)
    (howner : role ≠ .owner)
    (hpermission : permission = .orgMembersInvite ∨ permission = .orgMembersManage) :
    permissionMatrix role permission ≠ true := by
  obtain rfl | rfl := hpermission <;> cases role <;> simp_all [permissionMatrix]

theorem role_ne {role : InvitationalRole} (h : role ≠ .admin) :
    role.role ≠ .admin ∧ role.role ≠ .owner := by
  cases role <;> simp_all [ProjectOverrideRole.role]

/-! ## One request -/

variable {platform : Platform}

theorem inviteRoute_emits {context : ApiRequestContext} {draws : InvitationDraws}
    {email : JsString} {role : InvitationalRole} (h : context.orgId = orgId → role ≠ .admin) :
    Emits (Harmless orgId) (inviteRoute platform context draws email role) := by
  have hreplace : ∀ email, Emits (Harmless orgId) (replaceInvitation draws.now email
      (invitationRow platform draws context.orgId context.userId email role)) := by
    intro email
    refine (emits_execute fun _ w hw => ?_).bind fun _ =>
      (emits_execute fun _ w hw => ?_).bind fun _ => emits_recordInTransaction
    · obtain ⟨old, -, rfl⟩ := List.mem_map.mp hw
      trivial
    · rw [List.mem_singleton.mp hw]
      exact h
  refine emits_withTenant ((emits_ofExcept _).bind fun _ => emits_withOrg ?_)
  refine (emits_select _).bind fun _ => emits_require.bind fun _ => (emits_select _).bind fun _ => ?_
  refine (emits_ofExcept _).bind fun email => (emits_select _).bind fun _ => emits_require.bind
    fun _ => ?_
  exact ((hreplace email).mapError _).bind fun _ => emits_ok _

/-- A member of the organization that is no owner makes requests with these permissions only as an
administrator. -/
theorem hasRole_admin_of_permitted {request : MemberRequest} {context : ApiRequestContext}
    {membership : Membership} {permission : Permission} (hbelow : BelowOwner orgId db request)
    (hcontext : request.context = some context) (horg : context.orgId = orgId)
    (hmember : db.activeMembership context.orgId context.userId = some membership)
    (hpermitted : permissionMatrix membership.role permission = true)
    (hpermission : permission = .orgMembersInvite ∨ permission = .orgMembersManage) :
    db.hasRole orgId context.userId .admin ∧ membership.role = .admin := by
  have hrole := hasRole_of_activeMembership hmember
  rw [horg] at hrole
  have howner : membership.role ≠ .owner := fun heq =>
    hbelow context hcontext horg (heq ▸ hrole)
  have hadmin : membership.role = .admin := by
    by_contra hne
    exact not_permitted hne howner hpermission hpermitted
  exact ⟨hadmin ▸ hrole, hadmin⟩

theorem inviteRoute_kept {context : ApiRequestContext} {draws : InvitationDraws} {email : JsString}
    {role : InvitationalRole} (hinv : Kept orgId since db₀ db)
    (hbelow : BelowOwner orgId db (.invitation (.invite context draws email role)))
    (hinvites : ¬ InvitesAdmin platform orgId db (.invitation (.invite context draws email role))) :
    Ensures apply (inviteRoute platform context draws email role) db
      fun _ db' => Kept orgId since db₀ db' := by
  by_cases hharmless : context.orgId = orgId → role ≠ .admin
  · exact ensures_of_emits (inviteRoute_emits hharmless) hinv
  · rw [Classical.not_imp, not_not] at hharmless
    obtain ⟨horg, rfl⟩ := hharmless
    refine ensures_withTenant fun membership hmember hpermitted => ?_
    have hadmin := hasRole_admin_of_permitted hbelow rfl horg hmember hpermitted (.inl rfl)
    unfold inviteMember createInvitation
    rw [ensures_bind, ensures_ofExcept]
    intro normalized hnormalized
    refine ensures_withOrg ?_
    rw [ensures_bind, ensures_select]
    refine ensures_require fun _ => ?_
    rw [ensures_bind, ensures_select, ensures_bind, attempt, ensures_ofExcept]
    intro stored hstored
    rw [ensures_bind, ensures_select]
    refine ensures_require fun hfree => ?_
    exact absurd ⟨context, draws, email, normalized, stored, rfl, horg, hadmin.1, hnormalized,
      ok_of_mapError hstored, by simpa [horg] using hfree⟩ hinvites

theorem revokeRoute_emits {context : ApiRequestContext} {now : Timestamp} {invitationId : Uuid} :
    Emits (Harmless orgId) (revokeRoute context now invitationId) := by
  refine emits_withTenant ((emits_execute fun _ w hw => ?_).bind fun _ =>
    emits_recordInTransaction.bind fun _ => emits_ok _)
  obtain ⟨row, -, rfl⟩ := List.mem_map.mp hw
  trivial

theorem acceptInvitation_kept {user : SignedIn} {token : JsString} {resolvedAt now : Timestamp}
    (hinv : Kept orgId since db₀ db) (hnow : since ≤ now) :
    Ensures apply (acceptInvitation platform user token resolvedAt now) db
      fun _ db' => Kept orgId since db₀ db' := by
  unfold acceptInvitation
  rw [ensures_bind, ensures_select]
  refine ensures_expect fun invitationOrg _ => ?_
  rw [ensures_bind, ensures_selectForUpdate]
  refine ensures_expect fun record hrecord => ?_
  have hmem := List.mem_of_find?_eq_some hrecord
  have hrow := List.find?_some hrecord
  simp only [Bool.and_eq_true, decide_eq_true_eq] at hrow
  obtain ⟨⟨⟨horg, -⟩, hopen⟩, hunexpired⟩ := hrow
  -- an invitation that has not expired is none of an administrator
  have hrole : record.orgId = orgId → record.role ≠ .admin := fun hsame hadmin =>
    absurd (hinv.pending record hmem hsame hopen hadmin) (by unfold Timestamp at *; omega)
  refine ensures_of_emits ?_ hinv
  refine (emits_ofExcept _).bind fun _ => emits_require.bind fun _ => ?_
  refine (emits_execute fun _ w hw => ?_).bind fun _ => ?_
  · rw [List.mem_singleton.mp hw]
    exact fun hsame => role_ne (hrole (horg.trans hsame))
  · refine (emits_execute fun _ w hw => ?_).bind fun _ =>
      emits_recordInTransaction.bind fun _ => emits_ok _
    rw [List.mem_singleton.mp hw]
    trivial

theorem ensures_checkedTarget {α : Type} {context : ApiRequestContext} {memberId : Uuid}
    {desiredRole : Option Role} {f : MemberRow → TenancyM α} {Q : α → Db → Prop}
    (h : ∀ membership target, db.activeMembership context.orgId context.userId = some membership →
      validateMemberChange membership.role target desiredRole = .ok () →
      Ensures apply (f target) db Q)
    (hmember : (db.activeMembership context.orgId context.userId).isSome = true) :
    Ensures apply (checkedTarget context memberId desiredRole >>= f) db Q := by
  obtain ⟨membership, hmembership⟩ := Option.isSome_iff_exists.mp hmember
  unfold checkedTarget
  rw [ensures_bind, ensures_bind, ensures_select, ensures_bind, ensures_selectForUpdate]
  refine ensures_expect fun target _ => ?_
  rw [ensures_bind, ensures_ofExcept, hmembership]
  exact fun _ hvalid => ensures_done_ok.mpr (h membership target hmembership hvalid)

theorem updateMemberRoute_kept {context : ApiRequestContext} {now : Timestamp} {memberId : Uuid}
    {role : InvitationalRole} (hinv : Kept orgId since db₀ db)
    (hbelow : BelowOwner orgId db (.updateMember context now memberId role)) :
    Ensures apply (updateMemberRoute context now memberId role) db
      fun _ db' => Kept orgId since db₀ db' := by
  refine ensures_withTenant fun membership hmember hpermitted => ?_
  refine ensures_checkedTarget (fun actor target hactor hvalid => ?_)
    (Option.isSome_of_eq_some hmember)
  have hrole : context.orgId = orgId → role ≠ .admin := by
    rintro horg rfl
    have hadmin := (hasRole_admin_of_permitted hbelow rfl horg hmember hpermitted (.inr rfl)).2
    rw [hmember] at hactor
    obtain rfl := Option.some.inj hactor
    unfold validateMemberChange at hvalid
    split at hvalid
    · cases hvalid
    · rw [if_pos ⟨hadmin, .inr (.inl rfl)⟩] at hvalid
      cases hvalid
  refine ensures_of_emits ?_ hinv
  refine (emits_execute fun _ w hw => ?_).bind fun _ => (emits_select _).bind fun _ =>
    (emits_ofExcept _).bind fun _ => emits_recordInTransaction.bind fun _ => emits_ok _
  rw [List.mem_singleton.mp hw]
  exact fun hsame => role_ne (hrole hsame)

theorem removeMemberRoute_emits {context : ApiRequestContext} {now : Timestamp} {memberId : Uuid} :
    Emits (Harmless orgId) (removeMemberRoute context now memberId) := by
  have htarget : Emits (Harmless orgId) (checkedTarget context memberId none) :=
    (emits_select _).bind fun _ => Emits.bind
      (.stmt (fun _ _ hw => (List.not_mem_nil hw).elim) fun _ => emits_ok _) fun _ =>
        (emits_ofExcept _).bind fun _ => (emits_ofExcept _).bind fun _ => emits_ok _
  refine emits_withTenant (emits_require.bind fun _ => htarget.bind fun _ => ?_)
  refine (emits_execute fun _ w hw => ?_).bind fun _ => (emits_execute fun _ w hw => ?_).bind
    fun _ => emits_recordInTransaction.bind fun _ => emits_ok _
  · rw [List.mem_singleton.mp hw]
    trivial
  · rw [List.mem_singleton.mp hw]
    trivial

theorem memberProgram_kept (request : MemberRequest) (hinv : Kept orgId since db₀ db)
    (hbelow : BelowOwner orgId db request) (hnow : NotBefore since request)
    (hinvites : ¬ InvitesAdmin platform orgId db request) :
    Ensures apply (memberProgram platform request) db fun _ db' => Kept orgId since db₀ db' := by
  cases request with
  | invitation request =>
    show Ensures apply (program platform request >>= fun _ => pure ()) db _
    rw [ensures_bind]
    cases request with
    | invite context draws email role =>
      show Ensures apply (inviteRoute platform context draws email role >>= _) db _
      rw [ensures_bind]
      exact (inviteRoute_kept hinv hbelow hinvites).mono fun _ _ h => by simpa using h
    | revoke context now invitationId =>
      show Ensures apply (revokeRoute context now invitationId >>= _) db _
      rw [ensures_bind]
      exact (ensures_of_emits revokeRoute_emits hinv).mono fun _ _ h => by simpa using h
    | accept user token resolvedAt now =>
      show Ensures apply (acceptInvitation platform user token resolvedAt now >>= _) db _
      rw [ensures_bind]
      exact (acceptInvitation_kept hinv (hnow user token resolvedAt now rfl)).mono
        fun _ _ h => by simpa using h
  | updateMember context now memberId role =>
    show Ensures apply (updateMemberRoute context now memberId role >>= _) db _
    rw [ensures_bind]
    exact (updateMemberRoute_kept hinv hbelow).mono fun _ _ h => by simpa using h
  | removeMember context now memberId =>
    show Ensures apply (removeMemberRoute context now memberId >>= _) db _
    rw [ensures_bind]
    exact (ensures_of_emits removeMemberRoute_emits hinv).mono fun _ _ h => by simpa using h

/-- One request by a member that is no owner, and that is no administrator who invites one. -/
theorem step_inv {request : MemberRequest} (hinv : Kept orgId since db₀ db)
    (hbelow : BelowOwner orgId db request) (hnow : NotBefore since request)
    (hinvites : ¬ InvitesAdmin platform orgId db request) :
    Kept orgId since db₀ (afterRequest platform db request) := by
  have hensures : Ensures apply (memberProgram platform request) db _ :=
    memberProgram_kept request hinv hbelow hnow hinvites
  unfold afterRequest
  cases hresult : (transact apply (memberProgram platform request) db).1 with
  | error e =>
    rw [transact_of_error apply hresult]
    exact hinv
  | ok _ => exact transact_of_ensures hensures hresult

/-! ## Runs -/

/-- Each request of a run, in the state in which it is made. -/
def EachRequest (platform : Platform) (db : Db) (requests : List MemberRequest)
    (holds : Db → MemberRequest → Prop) : Prop :=
  ∀ earlier request later, requests = earlier ++ request :: later →
    holds (afterRequests platform db earlier) request

theorem eachRequest_cons {request : MemberRequest} {requests : List MemberRequest}
    {holds : Db → MemberRequest → Prop} :
    EachRequest platform db (request :: requests) holds ↔
      holds db request ∧ EachRequest platform (afterRequest platform db request) requests holds := by
  constructor
  · intro h
    refine ⟨h [] request requests rfl, fun earlier next later heq => ?_⟩
    exact h (request :: earlier) next later (by rw [heq]; rfl)
  · rintro ⟨hfirst, hrest⟩ earlier next later heq
    cases earlier with
    | nil =>
      cases heq
      exact hfirst
    | cons first earlier =>
      cases heq
      exact hrest earlier next later rfl

theorem eachRequest_append {earlier later : List MemberRequest}
    {holds : Db → MemberRequest → Prop} :
    EachRequest platform db (earlier ++ later) holds ↔ EachRequest platform db earlier holds ∧
      EachRequest platform (afterRequests platform db earlier) later holds := by
  induction earlier generalizing db with
  | nil =>
    have hnone : EachRequest platform db [] holds := fun before _ _ heq => by
      simp at heq
    exact (and_iff_right hnone).symm
  | cons request earlier ih =>
    rw [List.cons_append, eachRequest_cons, eachRequest_cons, ih, and_assoc]
    rfl

theorem afterRequests_inv {requests : List MemberRequest} (hinv : Kept orgId since db₀ db)
    (hsteps : EachRequest platform db requests fun db' request => BelowOwner orgId db' request ∧
      NotBefore since request ∧ ¬ InvitesAdmin platform orgId db' request) :
    Kept orgId since db₀ (afterRequests platform db requests) := by
  induction requests generalizing db with
  | nil => exact hinv
  | cons request requests ih =>
    obtain ⟨⟨hbelow, hnow, hinvites⟩, hrest⟩ := eachRequest_cons.mp hsteps
    exact ih (step_inv hinv hbelow hnow hinvites) hrest

/-- **Nobody becomes an administrator while no administrator invites one.** -/
theorem admins_never_gain {platform : Platform} {orgId : Uuid} {since : Timestamp} {db : Db}
    {requests : List MemberRequest} (hpending : NoPendingAdmin orgId since db)
    (hsteps : EachRequest platform db requests fun db' request => BelowOwner orgId db' request ∧
      NotBefore since request ∧ ¬ InvitesAdmin platform orgId db' request)
    {earlier later : List MemberRequest} (hsplit : requests = earlier ++ later) (userId : Uuid)
    (hholds : HoldsAdmin (afterRequests platform db requests) orgId userId) :
    HoldsAdmin (afterRequests platform db earlier) orgId userId := by
  subst hsplit
  obtain ⟨hearlier, hlater⟩ := eachRequest_append.mp hsteps
  have hfirst : Kept orgId since db (afterRequests platform db earlier) :=
    afterRequests_inv ⟨hpending, fun _ h => h⟩ hearlier
  have hlast : Kept orgId since (afterRequests platform db earlier)
      (afterRequests platform (afterRequests platform db earlier) later) :=
    afterRequests_inv ⟨hfirst.pending, fun _ h => h⟩ hlater
  rw [afterRequests, List.foldl_append] at hholds
  exact hlast.admins userId hholds

/-! ## An administrator that invites another -/

instance (db : Db) (orgId userId : Uuid) (role : Role) : Decidable (db.hasRole orgId userId role) :=
  inferInstanceAs (Decidable (∃ row ∈ db.memberships, row.key = (orgId, userId) ∧ row.role = role))

/-- `exampleTenants` with an administrator. -/
def exampleAdmins : Db :=
  { exampleTenants with
    memberships := exampleTenants.memberships ++ [⟨⟨1⟩, ⟨5⟩, .admin, .active, some ⟨2⟩, 0, 0⟩] }

def exampleContext : ApiRequestContext := ⟨⟨1⟩, ⟨5⟩⟩

def invitesAs (role : InvitationalRole) : List MemberRequest :=
  [.invitation (.invite exampleContext ⟨1000, 1, ⟨4⟩, ofAscii "token"⟩ (ofAscii "b@alpha.dev") role),
    .invitation (.accept ⟨⟨3⟩, ofAscii "b@alpha.dev"⟩ (ofAscii "token") 2000 3000)]

theorem exampleAdmins_noPending : NoPendingAdmin ⟨1⟩ 0 exampleAdmins :=
  fun _ hrow => (List.not_mem_nil hrow).elim

theorem belowOwner_of_context {request : MemberRequest}
    (hcontext : request.context = some exampleContext)
    (hrole : ¬ db.hasRole ⟨1⟩ ⟨5⟩ .owner) : BelowOwner ⟨1⟩ db request := by
  intro context heq _
  rw [hcontext] at heq
  obtain rfl := Option.some.inj heq
  exact hrole

theorem invitesAs_belowOwner (role : InvitationalRole) :
    EachRequest examplePlatform exampleAdmins (invitesAs role) fun db' request =>
      BelowOwner ⟨1⟩ db' request ∧ NotBefore 0 request := by
  refine eachRequest_cons.mpr ⟨⟨belowOwner_of_context rfl (by decide), ?_⟩,
    eachRequest_cons.mpr ⟨⟨?_, ?_⟩, fun earlier _ _ heq => ?_⟩⟩
  · intro _ _ _ _ heq
    cases heq
  · intro _ heq
    cases heq
  · intro _ _ _ _ heq
    cases heq
    decide
  · simp at heq

theorem admins_never_gain_member :
    ¬ HoldsAdmin (afterRequests examplePlatform exampleAdmins (invitesAs .member)) ⟨1⟩ ⟨3⟩ := by
  intro hholds
  have hsplit : invitesAs .member = [] ++ invitesAs .member := rfl
  have hbefore := admins_never_gain exampleAdmins_noPending ?_ hsplit ⟨3⟩ hholds
  · revert hbefore
    unfold HoldsAdmin
    decide
  · intro earlier request later heq
    obtain ⟨hbelow, hnow⟩ := invitesAs_belowOwner .member earlier request later heq
    refine ⟨hbelow, hnow, ?_⟩
    rintro ⟨context, draws, email, _, _, rfl, -⟩
    have hmem : MemberRequest.invitation (.invite context draws email .admin) ∈
        invitesAs .member := heq ▸ List.mem_append_right _ (List.mem_cons_self ..)
    simp [invitesAs] at hmem

/-- **An administrator can make another.** -/
theorem invitedAdmin_gains :
    NoPendingAdmin ⟨1⟩ 0 exampleAdmins ∧
      (EachRequest examplePlatform exampleAdmins (invitesAs .admin) fun db' request =>
        BelowOwner ⟨1⟩ db' request ∧ NotBefore 0 request) ∧
      ¬ HoldsAdmin exampleAdmins ⟨1⟩ ⟨3⟩ ∧
      HoldsAdmin (afterRequests examplePlatform exampleAdmins (invitesAs .admin)) ⟨1⟩ ⟨3⟩ := by
  refine ⟨exampleAdmins_noPending, invitesAs_belowOwner .admin, ?_, ?_⟩
  · unfold HoldsAdmin
    decide
  · exact .inl (by decide +kernel)

end Himitsu.Tenancy
