import Himitsu.Auth.PasswordReset

/-!
# What a password reset evicts

* `Evicts` — whatever session `authenticate` accepts was created by a login that verified the
  password of the last reset of its account.
* `NoStraddle` — the guard of a run, on its schedule: no login inserts its session after a reset of
  the account that it has not seen, or between a reset's update of the sessions and its end.
* `Inv` — what holds in every run: the stored hash is that of the last reset, a login has the hash
  it says, and no token is used twice.
* `Current`, `Covered` — what holds in guarded runs: a session that is not revoked has seen every
  reset, and a reset that has updated the sessions revokes every open one of its account.

Principal result: `resetPassword_evicts`.
-/

set_option autoImplicit false

namespace Himitsu.Auth

open JsString Crypto Database

section

variable (primitives : Primitives)

/-! ## The claim -/

/-- The login that created a session verified the password of this reset. -/
def VerifiedPassword (s : System) (session : Session) (reset : Reset) : Prop :=
  ∃ login ∈ s.logins, login.sessionId = session.id ∧ login.passwordHash = reset.passwordHash ∧
    (∃ salt, login.passwordHash = primitives.hash salt reset.newPassword) ∧
    primitives.verify login.passwordHash login.password = true

/-- A session that `authenticate` accepts was created by a login that verified the password of each
reset of the account that has committed, or of a later one. -/
def Evicts (s : System) : Prop :=
  ∀ sessionToken now session email,
    s.tables.selectSession now (primitives.digest sessionToken) = some (session, email) →
      ∀ i < (s.resetsOf session.userId).length, ∃ j reset, i ≤ j ∧
        (s.resetsOf session.userId)[j]? = some reset ∧ VerifiedPassword primitives s session reset

/-- No reset token has taken effect twice. -/
def SingleUse (s : System) : Prop := (s.resets.map (·.resetToken)).Nodup

/-- The update of the sessions is behind. -/
def ResetStage.afterSessions : ResetStage → Bool
  | .updateUser | .revokeSessions => false
  | .consumeToken | .commit => true

/-- A reset of the account has updated the sessions and has not ended. -/
def System.sessionsUpdated (s : System) (userId : Uuid) : Bool :=
  s.calls.any fun
    | .resetting stage reset _ _ => stage.afterSessions && reset.userId == userId
    | _ => false

/-- The guard: a login inserts its session while no reset of the account is between its update of
the sessions and its end, and none has committed since the login read the hash. -/
def NoStraddle (s : System) : Event → Prop
  | .resume i _ =>
    match s.calls[i]? with
    | some (.loginInsert user _ _ _ _ _ _ seen) =>
      seen = (s.resetsOf user.id).length ∧ s.sessionsUpdated user.id = false
    | _ => True
  | _ => True

/-! ## The invariant -/

/-- The hash that was read after `seen` resets of the account. -/
structure ReadHash (s : System) (userId : Uuid) (seen : Nat) (passwordHash : JsString) : Prop where
  le : seen ≤ (s.resetsOf userId).length
  eq : ∀ k reset, seen = k + 1 → (s.resetsOf userId)[k]? = some reset →
    passwordHash = reset.passwordHash

/-- A reset that holds its token. -/
structure HoldsToken (s : System) (reset : Reset) : Prop where
  salt : ∃ salt, reset.passwordHash = primitives.hash salt reset.newPassword
  token : ∃ row ∈ s.tables.tokens, row.id = reset.tokenId ∧ row.consumedAt = none ∧
    row.tokenHash = primitives.digest reset.resetToken

def CallInv (s : System) : Call → Prop
  | .loginVerify user passwordHash _ _ _ seen => ReadHash s user.id seen passwordHash
  | .loginInsert user passwordHash password _ _ _ _ seen =>
    ReadHash s user.id seen passwordHash ∧ primitives.verify passwordHash password = true
  | .resetSelect _ newPassword passwordHash =>
    ∃ salt, passwordHash = primitives.hash salt newPassword
  | .resetting _ reset _ _ => HoldsToken primitives s reset
  | _ => True

/-- The reset of a call that holds its token. -/
def Call.reset? : Call → Option Reset
  | .resetting _ reset _ _ => some reset
  | _ => none

def Resetting (s : System) (i : Nat) (reset : Reset) : Prop :=
  (s.calls[i]?).bind Call.reset? = some reset

structure Inv (s : System) : Prop where
  hashes : ∀ row ∈ s.tables.users, ∀ reset, (s.resetsOf row.id).getLast? = some reset →
    row.passwordHash = some reset.passwordHash
  calls : ∀ call ∈ s.calls, CallInv primitives s call
  apart : ∀ i j reset reset', Resetting s i reset → Resetting s j reset' → i ≠ j →
    reset.tokenId ≠ reset'.tokenId
  tokenIds : (s.tables.tokens.map (·.id)).Nodup
  tokenHashes : (s.tables.tokens.map (·.tokenHash)).Nodup
  resets : ∀ reset ∈ s.resets, (∃ salt, reset.passwordHash = primitives.hash salt reset.newPassword) ∧
    ∃ row ∈ s.tables.tokens, row.id = reset.tokenId ∧ row.consumedAt.isSome = true ∧
      row.tokenHash = primitives.digest reset.resetToken
  once : SingleUse s

/-- A session that is not revoked was created by a login that has seen every reset. -/
def Current (s : System) : Prop :=
  ∀ session ∈ s.tables.sessions, session.revokedAt = none → ∃ login ∈ s.logins,
    login.sessionId = session.id ∧ login.seen = (s.resetsOf session.userId).length ∧
    ReadHash s session.userId login.seen login.passwordHash ∧
    primitives.verify login.passwordHash login.password = true

/-- Once it has updated the sessions, a reset revokes every open session of its account. -/
def Covers (s : System) : Call → Prop
  | .resetting stage reset _ revoked => stage.afterSessions = true →
    ∀ session ∈ s.tables.sessions, session.userId = reset.userId → session.revokedAt = none →
      session.id ∈ revoked
  | _ => True

def Covered (s : System) : Prop := ∀ call ∈ s.calls, Covers s call

variable {primitives}

theorem Inv.initial (users : List User) (maxFailures windowMs : Nat) :
    Inv primitives (.initial users maxFailures windowMs) where
  hashes := fun _ _ _ h => nomatch h
  calls := fun _ h => nomatch h
  apart := fun _ _ _ _ h => nomatch h
  tokenIds := List.nodup_nil
  tokenHashes := List.nodup_nil
  resets := fun _ h => nomatch h
  once := List.nodup_nil

/-! ## Steps that reset nothing -/

/-- A step that leaves accounts, resets and tokens, or adds a token. -/
structure Frame (s t : System) : Prop where
  users : t.tables.users = s.tables.users
  resets : t.resets = s.resets
  tokens : ∀ row ∈ s.tables.tokens, row ∈ t.tables.tokens
  tokenIds : (s.tables.tokens.map (·.id)).Nodup → (t.tables.tokens.map (·.id)).Nodup
  tokenHashes : (s.tables.tokens.map (·.tokenHash)).Nodup →
    (t.tables.tokens.map (·.tokenHash)).Nodup

theorem Frame.of_tokens {s t : System} (users : t.tables.users = s.tables.users)
    (resets : t.resets = s.resets) (tokens : t.tables.tokens = s.tables.tokens) : Frame s t where
  users := users
  resets := resets
  tokens row hrow := by rw [tokens]; exact hrow
  tokenIds h := by rw [tokens]; exact h
  tokenHashes h := by rw [tokens]; exact h

theorem Frame.resetsOf {s t : System} (h : Frame s t) (userId : Uuid) :
    t.resetsOf userId = s.resetsOf userId := by
  rw [System.resetsOf, System.resetsOf, h.resets]

theorem Frame.readHash {s t : System} (h : Frame s t) {userId : Uuid} {seen : Nat}
    {passwordHash : JsString} (hread : ReadHash s userId seen passwordHash) :
    ReadHash t userId seen passwordHash := by
  have hsame := h.resetsOf userId
  exact ⟨by rw [hsame]; exact hread.le, by rw [hsame]; exact hread.eq⟩

theorem Frame.holdsToken {s t : System} (h : Frame s t) {reset : Reset}
    (hholds : HoldsToken primitives s reset) : HoldsToken primitives t reset := by
  obtain ⟨row, hrow, hrest⟩ := hholds.token
  exact ⟨hholds.salt, row, h.tokens row hrow, hrest⟩

theorem Frame.callInv {s t : System} (h : Frame s t) {call : Call}
    (hcall : CallInv primitives s call) : CallInv primitives t call := by
  cases call with
  | loginVerify user passwordHash identities password context seen => exact h.readHash hcall
  | loginInsert user passwordHash password context sessionToken csrfToken expiresAt seen =>
    exact ⟨h.readHash hcall.1, hcall.2⟩
  | resetting stage reset startedAt revoked => exact h.holdsToken hcall
  | _ => exact hcall

/-- A token that a call holds is not held by another one. -/
def KeepsToken (s : System) (i : Nat) (call : Call) : Prop :=
  ∀ reset, call.reset? = some reset → ∀ j reset', Resetting s j reset' → i ≠ j →
    reset.tokenId ≠ reset'.tokenId

theorem resetting_set {s : System} {i : Nat} {call : Call} {j : Nat} {reset : Reset}
    {calls : List Call} (hcalls : calls = s.calls.set i call)
    (h : (calls[j]?).bind Call.reset? = some reset) :
    i = j ∧ call.reset? = some reset ∨ i ≠ j ∧ Resetting s j reset := by
  rw [hcalls, List.getElem?_set] at h
  by_cases hij : i = j
  · refine .inl ⟨hij, ?_⟩
    rw [if_pos hij] at h
    split at h
    · exact h
    · cases h
  · rw [if_neg hij] at h
    exact .inr ⟨hij, h⟩

/-- Tokens stay apart when one call moves on. -/
theorem apart_set {s t : System} (hs : ∀ i j reset reset', Resetting s i reset →
      Resetting s j reset' → i ≠ j → reset.tokenId ≠ reset'.tokenId)
    {i : Nat} {call : Call} (hcalls : t.calls = s.calls.set i call) (hkeeps : KeepsToken s i call) :
    ∀ a b reset reset', Resetting t a reset → Resetting t b reset' → a ≠ b →
      reset.tokenId ≠ reset'.tokenId := by
  intro a b reset reset' ha hb hab
  rcases resetting_set hcalls ha with ⟨rfl, hcall⟩ | ⟨hia, ha⟩
  · rcases resetting_set hcalls hb with ⟨rfl, -⟩ | ⟨-, hb⟩
    · exact absurd rfl hab
    · exact hkeeps reset hcall b reset' hb hab
  · rcases resetting_set hcalls hb with ⟨rfl, hcall⟩ | ⟨-, hb⟩
    · exact (hkeeps reset' hcall a reset ha hia).symm
    · exact hs a b reset reset' ha hb hab

/-- **Nothing is reset**: the invariant follows from that of the calls. -/
theorem Inv.frame {s t : System} (hs : Inv primitives s) (h : Frame s t)
    (hcalls : ∀ call ∈ t.calls, CallInv primitives s call)
    (hapart : ∀ i j reset reset', Resetting t i reset → Resetting t j reset' → i ≠ j →
      reset.tokenId ≠ reset'.tokenId) : Inv primitives t where
  hashes row hrow reset hlast := by
    rw [h.users] at hrow
    rw [h.resetsOf] at hlast
    exact hs.hashes row hrow reset hlast
  calls call hcall := h.callInv (hcalls call hcall)
  apart := hapart
  tokenIds := h.tokenIds hs.tokenIds
  tokenHashes := h.tokenHashes hs.tokenHashes
  resets reset hreset := by
    rw [h.resets] at hreset
    obtain ⟨hsalt, row, hrow, hrest⟩ := hs.resets reset hreset
    exact ⟨hsalt, row, h.tokens row hrow, hrest⟩
  once := by
    rw [SingleUse, h.resets]
    exact hs.once

/-- **One call moves on** and nothing is reset. -/
theorem Inv.move {s t : System} (hs : Inv primitives s) (h : Frame s t) {i : Nat} {call : Call}
    (hcalls : t.calls = s.calls.set i call) (hcall : CallInv primitives s call)
    (hkeeps : KeepsToken s i call) : Inv primitives t := by
  refine hs.frame h (fun other hother => ?_) (apart_set hs.apart hcalls hkeeps)
  rw [hcalls] at hother
  rcases List.mem_or_eq_of_mem_set hother with hother | rfl
  · exact hs.calls other hother
  · exact hcall

/-- **A call begins.** -/
theorem Inv.begin {s t : System} (hs : Inv primitives s) (h : Frame s t) {call : Call}
    (hcalls : t.calls = s.calls ++ [call]) (hcall : CallInv primitives s call)
    (hreset : call.reset? = none) : Inv primitives t := by
  have hold : ∀ i reset, Resetting t i reset → Resetting s i reset := by
    intro i reset hi
    rw [Resetting, hcalls, List.getElem?_append] at hi
    split at hi
    · exact hi
    · rw [List.getElem?_singleton] at hi
      split at hi
      · rw [Option.bind_some, hreset] at hi
        cases hi
      · cases hi
  refine hs.frame h (fun other hother => ?_) fun i j reset reset' hi hj =>
    hs.apart i j reset reset' (hold i reset hi) (hold j reset' hj)
  rw [hcalls] at hother
  rcases List.mem_append.mp hother with hother | hother
  · exact hs.calls other hother
  · rw [List.mem_singleton.mp hother]
    exact hcall

/-! ## What a step can do -/

/-- The sessions are those before, up to when they were seen. -/
def SessionsKept (s t : System) : Prop :=
  t.logins = s.logins ∧ ∀ session ∈ t.tables.sessions, ∃ old ∈ s.tables.sessions,
    old.id = session.id ∧ old.userId = session.userId ∧ old.revokedAt = session.revokedAt

/-- A call begins or moves on, a login inserts its session, or a reset commits. -/
inductive StepCase (primitives : Primitives) (s t : System) (e : Event) : Prop where
  | began (call : Call) (hframe : Frame s t) (hkept : SessionsKept s t)
      (hcalls : t.calls = s.calls ++ [call]) (hcall : CallInv primitives s call)
      (hreset : call.reset? = none)
  | moved (i : Nat) (call : Call) (hframe : Frame s t) (hkept : SessionsKept s t)
      (hcalls : t.calls = s.calls.set i call) (hcall : CallInv primitives s call)
      (hkeeps : KeepsToken s i call) (hcovers : Covered s → Covers s call)
  | inserted (i : Nat) (input : Input) (user : User) (passwordHash password : JsString)
      (context : ClientContext) (sessionToken csrfToken : JsString) (expiresAt : Timestamp)
      (seen : Nat) (result : Except AuthError Reply) (he : e = .resume i input)
      (hcall : s.calls[i]? = some (.loginInsert user passwordHash password context sessionToken
        csrfToken expiresAt seen))
      (hframe : Frame s t) (hcalls : t.calls = s.calls.set i (.finished result))
      (hsessions : t.tables.sessions = s.tables.sessions ++
        [newSession primitives input user.id sessionToken csrfToken context expiresAt])
      (hlogins : t.logins = s.logins ++ [⟨input.id, user.id, password, passwordHash, seen⟩])
  | committed (i : Nat) (input : Input) (reset : Reset) (startedAt : Timestamp)
      (revoked : List Uuid) (he : e = .resume i input)
      (hcall : s.calls[i]? = some (.resetting .commit reset startedAt revoked))
      (ht : t = { s.setCall i (.finished (.ok .nothing)) with
        tables := s.tables.applyReset startedAt reset.userId reset.tokenId reset.passwordHash revoked
        resets := s.resets ++ [reset] })

theorem SessionsKept.of_eq {s t : System} (hlogins : t.logins = s.logins)
    (hsessions : t.tables.sessions = s.tables.sessions) : SessionsKept s t := by
  refine ⟨hlogins, fun session hsession => ⟨session, ?_, rfl, rfl, rfl⟩⟩
  rw [← hsessions]
  exact hsession

theorem covers_of_reset? (s : System) {call : Call} (h : call.reset? = none) : Covers s call := by
  cases call with
  | resetting stage reset startedAt revoked => cases h
  | _ => trivial

/-- A call moves on and leaves the tables. -/
theorem moved_quietly {s t : System} {e : Event} {i : Nat} {call : Call}
    (htables : t.tables = s.tables) (hresets : t.resets = s.resets) (hlogins : t.logins = s.logins)
    (hcalls : t.calls = s.calls.set i call) (hcall : CallInv primitives s call)
    (hreset : call.reset? = none) : StepCase primitives s t e := by
  refine .moved i call (.of_tokens (by rw [htables]) hresets (by rw [htables]))
    (.of_eq hlogins (by rw [htables])) hcalls hcall (fun reset h => ?_)
    fun _ => covers_of_reset? s hreset
  rw [hreset] at h
  cases h

theorem rejectLogin_case {s : System} (e : Event) (i : Nat) (input : Input)
    (identities : List JsString) : StepCase primitives s (rejectLogin s i input identities) e :=
  moved_quietly rfl rfl rfl rfl trivial rfl

/-- The hash that a login reads is that of the last reset. -/
theorem Inv.readHash {s : System} (hs : Inv primitives s) {normalized : JsString} {user : User}
    (h : s.tables.selectUser normalized = some user) :
    ReadHash s user.id (s.resetsOf user.id).length (user.passwordHash.getD []) := by
  refine ⟨Nat.le_refl _, fun k reset hk hreset => ?_⟩
  have hlast : (s.resetsOf user.id).getLast? = some reset := by
    rw [List.getLast?_eq_getElem?, hk, Nat.add_sub_cancel]
    exact hreset
  rw [hs.hashes user (List.mem_of_find?_eq_some h) reset hlast]
  rfl

theorem insertSession_eq {tables tables' : Tables} {row : Session}
    (h : tables.insertSession row = some tables') :
    tables' = { tables with sessions := tables.sessions ++ [row] } := by
  unfold Tables.insertSession at h
  split at h
  · cases h
  · exact (Option.some.inj h).symm

theorem insertToken_eq {tables tables' : Tables} {row : PasswordResetToken}
    (h : tables.insertToken row = some tables') :
    tables' = { tables with tokens := tables.tokens ++ [row] } ∧
      row.id ∉ tables.tokens.map (·.id) ∧ row.tokenHash ∉ tables.tokens.map (·.tokenHash) := by
  unfold Tables.insertToken at h
  split at h
  · cases h
  · rename_i hconstraints
    rw [not_or, not_or] at hconstraints
    exact ⟨(Option.some.inj h).symm, hconstraints.1, hconstraints.2.1⟩

theorem nodup_append_singleton {α : Type} {xs : List α} {x : α} (h : xs.Nodup) (hx : x ∉ xs) :
    (xs ++ [x]).Nodup := by
  refine List.nodup_append.mpr ⟨h, List.nodup_singleton x, fun a ha b hb => ?_⟩
  rw [List.mem_singleton.mp hb]
  rintro rfl
  exact hx ha

/-- The token that a reset selects is not consumed, and no other reset holds it. -/
theorem selectToken_spec {s : System} {now : Timestamp} {tokenHash : Bytes}
    {record : PasswordResetToken} (h : s.tables.selectToken now tokenHash = some record) :
    record ∈ s.tables.tokens ∧ record.consumedAt = none ∧ record.tokenHash = tokenHash := by
  have hmatch := List.find?_some h
  simp only [Bool.and_eq_true, beq_iff_eq, Option.isNone_iff_eq_none] at hmatch
  exact ⟨List.mem_of_find?_eq_some h, hmatch.1.2, hmatch.1.1⟩

theorem not_tokenLocked {s : System} {id : Uuid} (h : s.tokenLocked id = false) {j : Nat}
    {reset : Reset} (hj : Resetting s j reset) : reset.tokenId ≠ id := by
  obtain ⟨call, hcall, hreset⟩ := Option.bind_eq_some_iff.mp hj
  have hnone := List.any_eq_false.mp h call (List.mem_of_getElem? hcall)
  cases call with
  | resetting stage other startedAt revoked =>
    cases hreset
    simpa using hnone
  | _ => cases hreset

/-- A reset goes on with the token it holds. -/
theorem stage_case {s : System} (hs : Inv primitives s) (e : Event) {i : Nat}
    {stage stage' : ResetStage} {reset : Reset} {startedAt : Timestamp} {revoked revoked' : List Uuid}
    (hcall : s.calls[i]? = some (.resetting stage reset startedAt revoked))
    (hcovers : Covered s → Covers s (.resetting stage' reset startedAt revoked')) :
    StepCase primitives s (s.setCall i (.resetting stage' reset startedAt revoked')) e := by
  have hholds : HoldsToken primitives s reset := hs.calls _ (List.mem_of_getElem? hcall)
  refine .moved i _ (.of_tokens rfl rfl rfl) (.of_eq rfl rfl) rfl hholds ?_ hcovers
  intro other hother j reset' hj hij
  obtain rfl : reset = other := Option.some.inj hother
  refine hs.apart i j reset reset' ?_ hj hij
  rw [Resetting, hcall]
  rfl

theorem touchSession_kept (s : System) (now : Timestamp) (id : Uuid) {t : System}
    (hlogins : t.logins = s.logins) (htables : t.tables = s.tables.touchSession now id) :
    SessionsKept s t := by
  refine ⟨hlogins, fun session hsession => ?_⟩
  rw [htables] at hsession
  obtain ⟨old, hold, rfl⟩ := List.mem_map.mp hsession
  refine ⟨old, hold, ?_⟩
  split <;> exact ⟨rfl, rfl, rfl⟩

theorem mem_openSessions {tables : Tables} {userId : Uuid} {session : Session}
    (h : session ∈ tables.sessions) (huser : session.userId = userId)
    (hopen : session.revokedAt = none) : session.id ∈ tables.openSessions userId :=
  List.mem_map_of_mem (List.mem_filter.mpr ⟨h, by simp [huser, hopen]⟩)

/-- **What a resumed call can do.** -/
theorem resumeCall_case {s t : System} (hs : Inv primitives s) {i : Nat} {input : Input}
    {call : Call} (hcall : s.calls[i]? = some call)
    (h : resumeCall primitives s i input call = some t) :
    StepCase primitives s t (.resume i input) := by
  have hinv : CallInv primitives s call := hs.calls call (List.mem_of_getElem? hcall)
  cases call with
  | loginSelect normalized identities password context =>
    rw [resumeCall] at h
    split at h
    · cases h
      exact rejectLogin_case _ i input identities
    · rename_i user huser
      dsimp only at h
      split at h
      · cases h
        exact rejectLogin_case _ i input identities
      · cases h
        exact moved_quietly rfl rfl rfl rfl (hs.readHash huser) rfl
  | loginVerify user passwordHash identities password context seen =>
    rw [resumeCall] at h
    split at h
    · rename_i hverify
      dsimp only at h
      split at h
      · cases h
        exact moved_quietly rfl rfl rfl rfl trivial rfl
      · cases h
        exact moved_quietly rfl rfl rfl rfl ⟨hinv, hverify⟩ rfl
    · cases h
      exact rejectLogin_case _ i input identities
  | loginInsert user passwordHash password context sessionToken csrfToken expiresAt seen =>
    rw [resumeCall] at h
    split at h
    · cases h
      exact moved_quietly rfl rfl rfl rfl trivial rfl
    · rename_i tables hinsert
      cases h
      rw [insertSession_eq hinsert]
      exact .inserted i input user passwordHash password context sessionToken csrfToken expiresAt
        seen _ rfl hcall (.of_tokens rfl rfl rfl) rfl rfl rfl
  | requestSelect normalized =>
    rw [resumeCall] at h
    split at h
    · cases h
      exact moved_quietly rfl rfl rfl rfl trivial rfl
    · cases h
      exact moved_quietly rfl rfl rfl rfl trivial rfl
  | requestInsert user resetToken expiresAt =>
    rw [resumeCall] at h
    split at h
    · cases h
      exact moved_quietly rfl rfl rfl rfl trivial rfl
    · rename_i tables hinsert
      cases h
      obtain ⟨rfl, hid, hhash⟩ := insertToken_eq hinsert
      refine .moved i _ ⟨rfl, rfl, fun row hrow => List.mem_append_left _ hrow, fun hids => ?_,
        fun hhashes => ?_⟩ (.of_eq rfl rfl) rfl trivial (fun _ h => nomatch h) fun _ => trivial
      · show ((s.tables.tokens ++ [_]).map PasswordResetToken.id).Nodup
        rw [List.map_append]
        exact nodup_append_singleton hids hid
      · show ((s.tables.tokens ++ [_]).map PasswordResetToken.tokenHash).Nodup
        rw [List.map_append]
        exact nodup_append_singleton hhashes hhash
  | resetHash resetToken newPassword =>
    cases h
    exact moved_quietly rfl rfl rfl rfl ⟨input.salt, rfl⟩ rfl
  | resetSelect resetToken newPassword passwordHash =>
    rw [resumeCall] at h
    split at h
    · cases h
      exact moved_quietly rfl rfl rfl rfl trivial rfl
    · rename_i record hrecord
      split at h
      · cases h
      · rename_i hlocked
        cases h
        obtain ⟨hmem, hconsumed, hhash⟩ := selectToken_spec hrecord
        refine .moved i _ (.of_tokens rfl rfl rfl) (.of_eq rfl rfl) rfl
          ⟨hinv, record, hmem, rfl, hconsumed, hhash⟩ ?_ fun _ hstage => nomatch hstage
        intro reset hreset j reset' hj hij
        cases hreset
        exact (not_tokenLocked (Bool.not_eq_true _ ▸ hlocked) hj).symm
  | resetting stage reset startedAt revoked =>
    cases stage with
    | updateUser =>
      rw [resumeCall] at h
      split at h
      · cases h
      · cases h
        exact stage_case hs _ hcall fun _ hstage => nomatch hstage
    | revokeSessions =>
      cases h
      exact stage_case hs _ hcall fun _ _ session hsession huser hopen =>
        mem_openSessions hsession huser hopen
    | consumeToken =>
      cases h
      exact stage_case hs _ hcall fun hcovered _ =>
        hcovered _ (List.mem_of_getElem? hcall) rfl
    | commit =>
      cases h
      exact .committed i input reset startedAt revoked rfl hcall rfl
  | authenticateSelect sessionToken =>
    rw [resumeCall] at h
    split at h
    · cases h
      exact moved_quietly rfl rfl rfl rfl trivial rfl
    · cases h
      exact moved_quietly rfl rfl rfl rfl trivial rfl
  | authenticateTouch session email =>
    rw [resumeCall] at h
    split at h
    · cases h
    · cases h
      exact .moved i _ (.of_tokens rfl rfl rfl) (touchSession_kept s _ _ rfl rfl) rfl trivial
        (fun _ h => nomatch h) fun _ => trivial
  | finished result => cases h
  | failed => cases h

theorem beginCall_case (s : System) (nowMs : Int) (request : Request) :
    StepCase primitives s (beginCall primitives s nowMs request) (.begin nowMs request) := by
  have hbegan : ∀ (call : Call) (limiter : LoginAttemptLimiter), CallInv primitives s call →
      call.reset? = none → StepCase primitives s
        { s with limiter := limiter, calls := s.calls ++ [call] } (.begin nowMs request) :=
    fun call limiter hcall hreset =>
      .began call (.of_tokens rfl rfl rfl) (.of_eq rfl rfl) rfl hcall hreset
  cases request with
  | login email password context =>
    rw [beginCall]
    split
    · exact hbegan _ _ trivial rfl
    · dsimp only
      split
      · exact hbegan _ _ trivial rfl
      · exact hbegan _ _ trivial rfl
  | requestPasswordReset email =>
    rw [beginCall]
    split
    · exact hbegan _ _ trivial rfl
    · exact hbegan _ _ trivial rfl
  | resetPassword resetToken newPassword =>
    rw [beginCall]
    split
    · exact hbegan _ _ trivial rfl
    · exact hbegan _ _ trivial rfl
  | authenticate sessionToken => exact hbegan _ _ trivial rfl

theorem step_case {s t : System} (hs : Inv primitives s) {e : Event}
    (h : step primitives s e = some t) : StepCase primitives s t e := by
  cases e with
  | begin nowMs request =>
    cases h
    exact beginCall_case s nowMs request
  | resume i input =>
    obtain ⟨call, hcall, hresume⟩ := Option.bind_eq_some_iff.mp h
    exact resumeCall_case hs hcall hresume
  | fail i =>
    obtain ⟨call, -, rfl⟩ := Option.map_eq_some_iff.mp h
    exact moved_quietly rfl rfl rfl rfl trivial rfl

/-! ## A commit -/

section Commit

variable {s : System} {i : Nat} {reset : Reset} {startedAt : Timestamp} {revoked : List Uuid}

/-- The system after a commit. -/
def committed (s : System) (i : Nat) (reset : Reset) (startedAt : Timestamp)
    (revoked : List Uuid) : System :=
  { s.setCall i (.finished (.ok .nothing)) with
    tables := s.tables.applyReset startedAt reset.userId reset.tokenId reset.passwordHash revoked
    resets := s.resets ++ [reset] }

theorem resetsOf_committed (userId : Uuid) :
    (committed s i reset startedAt revoked).resetsOf userId =
      s.resetsOf userId ++ if reset.userId = userId then [reset] else [] := by
  rw [System.resetsOf, committed, List.filter_append, List.filter_singleton]
  by_cases h : reset.userId = userId
  · rw [if_pos h, decide_eq_true h]
    rfl
  · rw [if_neg h, decide_eq_false h]
    rfl

theorem readHash_committed {userId : Uuid} {seen : Nat} {passwordHash : JsString}
    (h : ReadHash s userId seen passwordHash) :
    ReadHash (committed s i reset startedAt revoked) userId seen passwordHash := by
  have hle := h.le
  refine ⟨?_, fun k other hseen hother => h.eq k other hseen ?_⟩
  · rw [resetsOf_committed, List.length_append]
    omega
  · rwa [resetsOf_committed, List.getElem?_append_left (by omega)] at hother

/-- A token row that is not the one consumed. -/
theorem token_committed {row : PasswordResetToken} (h : row ∈ s.tables.tokens)
    (hne : row.id ≠ reset.tokenId) :
    row ∈ (committed s i reset startedAt revoked).tables.tokens :=
  List.mem_map.mpr ⟨row, h, if_neg hne⟩

theorem map_tokens_committed {α : Type} (f : PasswordResetToken → α)
    (hf : ∀ row consumedAt, f { row with consumedAt := consumedAt } = f row) :
    (committed s i reset startedAt revoked).tables.tokens.map f = s.tables.tokens.map f := by
  rw [committed, Tables.applyReset, List.map_map]
  refine List.map_congr_left fun row _ => ?_
  simp only [Function.comp]
  split
  · exact hf row _
  · rfl

/-- The token of a reset that holds it has not been used. -/
theorem Inv.unused (hs : Inv primitives s) (hholds : HoldsToken primitives s reset) :
    reset.resetToken ∉ s.resets.map (·.resetToken) := by
  intro hmem
  obtain ⟨other, hother, hsame⟩ := List.mem_map.mp hmem
  obtain ⟨-, used, hused, -, hconsumed, husedHash⟩ := hs.resets other hother
  obtain ⟨row, hrow, -, hopen, hrowHash⟩ := hholds.token
  rw [hsame, ← hrowHash] at husedHash
  have hrows : used = row := List.inj_on_of_nodup_map hs.tokenHashes hused hrow husedHash
  rw [hrows, hopen] at hconsumed
  cases hconsumed

/-- **A commit** keeps the invariant. -/
theorem Inv.commit (hs : Inv primitives s)
    (hcall : s.calls[i]? = some (.resetting .commit reset startedAt revoked)) :
    Inv primitives (committed s i reset startedAt revoked) := by
  have hholds : HoldsToken primitives s reset := hs.calls _ (List.mem_of_getElem? hcall)
  have hresetting : Resetting s i reset := by
    rw [Resetting, hcall]
    rfl
  have hcalls : (committed s i reset startedAt revoked).calls =
      s.calls.set i (.finished (.ok .nothing)) := rfl
  have hkeeps : KeepsToken s i (.finished (.ok .nothing)) := fun _ h => nomatch h
  refine ⟨?hashes, ?calls, apart_set hs.apart hcalls hkeeps, ?ids, ?tokenHashes, ?resets, ?once⟩
  case hashes =>
    intro row hrow last hlast
    obtain ⟨old, hold, rfl⟩ := List.mem_map.mp hrow
    by_cases huser : old.id = reset.userId
    · rw [if_pos huser] at hlast ⊢
      rw [resetsOf_committed, if_pos huser.symm, List.getLast?_append] at hlast
      cases hlast
      rfl
    · rw [if_neg huser] at hlast ⊢
      rw [resetsOf_committed, if_neg (Ne.symm huser), List.append_nil] at hlast
      exact hs.hashes old hold last hlast
  case calls =>
    intro call hmem
    obtain ⟨j, hj⟩ := List.mem_iff_getElem?.mp hmem
    rw [hcalls, List.getElem?_set] at hj
    by_cases hij : i = j
    · rw [if_pos hij] at hj
      split at hj
      · cases hj
        trivial
      · cases hj
    rw [if_neg hij] at hj
    have hinv := hs.calls call (List.mem_of_getElem? hj)
    cases call with
    | loginVerify user passwordHash identities password context seen =>
      exact readHash_committed hinv
    | loginInsert user passwordHash password context sessionToken csrfToken expiresAt seen =>
      exact ⟨readHash_committed hinv.1, hinv.2⟩
    | resetting stage other otherStartedAt otherRevoked =>
      obtain ⟨hsalt, row, hrow, hid, hrest⟩ := hinv
      have hother : Resetting s j other := by
        rw [Resetting, hj]
        rfl
      refine ⟨hsalt, row, token_committed hrow ?_, hid, hrest⟩
      rw [hid]
      exact (hs.apart i j reset other hresetting hother hij).symm
    | _ => exact hinv
  case ids =>
    rw [map_tokens_committed _ fun _ _ => rfl]
    exact hs.tokenIds
  case tokenHashes =>
    rw [map_tokens_committed _ fun _ _ => rfl]
    exact hs.tokenHashes
  case resets =>
    intro other hother
    rcases List.mem_append.mp hother with hother | hother
    · obtain ⟨hsalt, row, hrow, hid, hconsumed, hhash⟩ := hs.resets other hother
      refine ⟨hsalt, ?_⟩
      by_cases hne : row.id = reset.tokenId
      · exact ⟨_, List.mem_map.mpr ⟨row, hrow, if_pos hne⟩, hid, rfl, hhash⟩
      · exact ⟨row, token_committed hrow hne, hid, hconsumed, hhash⟩
    · obtain rfl := List.mem_singleton.mp hother
      obtain ⟨row, hrow, hid, -, hhash⟩ := hholds.token
      exact ⟨hholds.salt, _, List.mem_map.mpr ⟨row, hrow, if_pos hid⟩, hid, rfl, hhash⟩
  case once =>
    show ((s.resets ++ [reset]).map Reset.resetToken).Nodup
    rw [List.map_append]
    exact nodup_append_singleton hs.once (hs.unused hholds)

end Commit

/-! ## Runs -/

/-- **A step** keeps the invariant. -/
theorem Inv.step {s t : System} (hs : Inv primitives s) {e : Event}
    (h : Auth.step primitives s e = some t) : Inv primitives t := by
  cases step_case hs h with
  | began call hframe hkept hcalls hcall hreset => exact hs.begin hframe hcalls hcall hreset
  | moved i call hframe hkept hcalls hcall hkeeps hcovers =>
    exact hs.move hframe hcalls hcall hkeeps
  | inserted i input user passwordHash password context sessionToken csrfToken expiresAt seen result
      he hcall hframe hcalls hsessions hlogins =>
    exact hs.move hframe hcalls trivial fun _ h => nomatch h
  | committed i input reset startedAt revoked he hcall ht =>
    rw [ht]
    exact hs.commit hcall

theorem Current.kept {s t : System} (hs : Current primitives s) (hframe : Frame s t)
    (hkept : SessionsKept s t) : Current primitives t := by
  intro session hsession hopen
  obtain ⟨old, hold, hid, huser, hrevoked⟩ := hkept.2 session hsession
  obtain ⟨login, hlogin, hloginId, hseen, hread, hverify⟩ := hs old hold (hrevoked.trans hopen)
  rw [huser] at hseen hread
  refine ⟨login, ?_, hloginId.trans hid, ?_, hframe.readHash hread, hverify⟩
  · rw [hkept.1]
    exact hlogin
  · rw [hframe.resetsOf]
    exact hseen

/-- A commit leaves open what was open and is not revoked. -/
theorem open_committed {s : System} {i : Nat} {reset : Reset} {startedAt : Timestamp}
    {revoked : List Uuid} {session : Session}
    (h : session ∈ (committed s i reset startedAt revoked).tables.sessions)
    (hopen : session.revokedAt = none) : session ∈ s.tables.sessions ∧ session.id ∉ revoked := by
  obtain ⟨old, hold, rfl⟩ := List.mem_map.mp h
  by_cases hrevoked : old.id ∈ revoked
  · rw [if_pos hrevoked] at hopen
    cases hopen
  · rw [if_neg hrevoked]
    exact ⟨hold, hrevoked⟩

/-- What a reset covers it covers where the open sessions are among those before. -/
theorem Covers.of_subset {s t : System} {call : Call} (hs : Covers s call)
    (h : ∀ session ∈ t.tables.sessions, session.revokedAt = none → ∃ old ∈ s.tables.sessions,
      old.id = session.id ∧ old.userId = session.userId ∧ old.revokedAt = none) :
    Covers t call := by
  cases call with
  | resetting stage reset startedAt revoked =>
    intro hstage session hsession huser hopen
    obtain ⟨old, hold, hid, holdUser, holdOpen⟩ := h session hsession hopen
    rw [← hid]
    exact hs hstage old hold (holdUser.trans huser) holdOpen
  | _ => trivial

theorem SessionsKept.covers {s t : System} (hkept : SessionsKept s t) {call : Call}
    (hs : Covers s call) : Covers t call :=
  hs.of_subset fun session hsession hopen => by
    obtain ⟨old, hold, hid, huser, hrevoked⟩ := hkept.2 session hsession
    exact ⟨old, hold, hid, huser, hrevoked.trans hopen⟩

/-- A call that has not updated the sessions of an account covers a new session of it. -/
theorem Covers.insert {s t : System} {call : Call} {session : Session}
    (hsessions : t.tables.sessions = s.tables.sessions ++ [session])
    (hupdated : s.sessionsUpdated session.userId = false) (hmem : call ∈ s.calls)
    (hs : Covers s call) : Covers t call := by
  cases call with
  | resetting stage reset startedAt revoked =>
    intro hstage other hother huser hopen
    rw [hsessions] at hother
    rcases List.mem_append.mp hother with hold | hnew
    · exact hs hstage other hold huser hopen
    · rw [List.mem_singleton.mp hnew] at huser
      have hnone := List.any_eq_false.mp hupdated _ hmem
      simp [hstage, huser] at hnone
  | _ => trivial

/-- **A guarded step** keeps the open sessions covered. -/
theorem Covered.step {s t : System} (hinv : Inv primitives s) (hs : Covered s) {e : Event}
    (hguard : NoStraddle s e) (h : Auth.step primitives s e = some t) : Covered t := by
  cases step_case hinv h with
  | began call hframe hkept hcalls hcall hreset =>
    intro other hother
    rw [hcalls] at hother
    rcases List.mem_append.mp hother with hold | hnew
    · exact hkept.covers (hs other hold)
    · rw [List.mem_singleton.mp hnew]
      exact covers_of_reset? t hreset
  | moved i call hframe hkept hcalls hcall hkeeps hcovers =>
    intro other hother
    rw [hcalls] at hother
    rcases List.mem_or_eq_of_mem_set hother with hold | rfl
    · exact hkept.covers (hs other hold)
    · exact hkept.covers (hcovers hs)
  | inserted i input user passwordHash password context sessionToken csrfToken expiresAt seen result
      he hcall hframe hcalls hsessions hlogins =>
    rw [he, NoStraddle, hcall] at hguard
    intro other hother
    rw [hcalls] at hother
    rcases List.mem_or_eq_of_mem_set hother with hold | rfl
    · exact (hs other hold).insert hsessions hguard.2 hold
    · trivial
  | committed i input reset startedAt revoked he hcall ht =>
    have hcommitted : t = committed s i reset startedAt revoked := ht
    rw [hcommitted]
    intro other hother
    rcases List.mem_or_eq_of_mem_set hother with hold | rfl
    · refine (hs other hold).of_subset fun session hsession hopen => ?_
      exact ⟨session, (open_committed hsession hopen).1, rfl, rfl, hopen⟩
    · trivial

/-- **A guarded step** keeps the sessions current. -/
theorem Current.step {s t : System} (hinv : Inv primitives s) (hcovered : Covered s)
    (hs : Current primitives s) {e : Event} (hguard : NoStraddle s e)
    (h : Auth.step primitives s e = some t) : Current primitives t := by
  cases step_case hinv h with
  | began call hframe hkept hcalls hcall hreset => exact hs.kept hframe hkept
  | moved i call hframe hkept hcalls hcall hkeeps hcovers => exact hs.kept hframe hkept
  | inserted i input user passwordHash password context sessionToken csrfToken expiresAt seen result
      he hcall hframe hcalls hsessions hlogins =>
    rw [he, NoStraddle, hcall] at hguard
    obtain ⟨hread, hverify⟩ : ReadHash s user.id seen passwordHash ∧
        primitives.verify passwordHash password = true := hinv.calls _ (List.mem_of_getElem? hcall)
    intro session hsession hopen
    rw [hsessions] at hsession
    rw [hframe.resetsOf, hlogins]
    rcases List.mem_append.mp hsession with hold | hnew
    · obtain ⟨login, hlogin, hid, hseen, hreadOld, hverifyOld⟩ := hs session hold hopen
      exact ⟨login, List.mem_append_left _ hlogin, hid, hseen, hframe.readHash hreadOld, hverifyOld⟩
    · rw [List.mem_singleton.mp hnew]
      exact ⟨_, List.mem_append_right _ (List.mem_singleton_self _), rfl, hguard.1,
        hframe.readHash hread, hverify⟩
  | committed i input reset startedAt revoked he hcall ht =>
    have hcommitted : t = committed s i reset startedAt revoked := ht
    rw [hcommitted]
    intro session hsession hopen
    obtain ⟨hold, hrevoked⟩ := open_committed hsession hopen
    -- The reset covers its account, so what is still open belongs to another one.
    have huser : reset.userId ≠ session.userId := fun heq =>
      hrevoked (hcovered _ (List.mem_of_getElem? hcall) rfl session hold heq.symm hopen)
    obtain ⟨login, hlogin, hid, hseen, hread, hverify⟩ := hs session hold hopen
    refine ⟨login, hlogin, hid, ?_, readHash_committed hread, hverify⟩
    rw [resetsOf_committed, if_neg huser, List.append_nil]
    exact hseen

theorem evicts_of_current {s : System} (hinv : Inv primitives s) (hs : Current primitives s) :
    Evicts primitives s := by
  intro sessionToken now session email hselect i hi
  obtain ⟨found, hfind, hrest⟩ := Option.bind_eq_some_iff.mp hselect
  obtain ⟨user, -, hpair⟩ := Option.bind_eq_some_iff.mp hrest
  obtain ⟨rfl, -⟩ := Prod.mk.inj (Option.some.inj hpair)
  have hmatch := List.find?_some hfind
  simp only [Bool.and_eq_true, Option.isNone_iff_eq_none] at hmatch
  obtain ⟨login, hlogin, hid, hseen, hread, hverify⟩ :=
    hs found (List.mem_of_find?_eq_some hfind) hmatch.1.1.2
  -- The last reset of the account is the one whose hash the login has read.
  obtain ⟨last, hlast⟩ : ∃ last, (s.resetsOf found.userId)[(s.resetsOf found.userId).length - 1]? =
      some last := ⟨_, List.getElem?_eq_getElem (by omega)⟩
  have hhash := hread.eq _ last (by omega) hlast
  obtain ⟨⟨salt, hsalt⟩, -⟩ := hinv.resets last
    (List.mem_of_mem_filter (List.mem_of_getElem? hlast))
  exact ⟨_, last, by omega, hlast, login, hlogin, hid, hhash, ⟨salt, hhash.trans hsalt⟩, hverify⟩

/-- **What a reset evicts.**  In every run no reset token takes effect twice; and in a run in which no
login inserts its session over a reset, a session that `authenticate` accepts was
created by a login that verified the password of every reset of the account that has committed, or
of a later one. -/
theorem resetPassword_evicts {users : List User} {maxFailures windowMs : Nat} {events : List Event}
    {s : System}
    (hrun : Runs.run (Auth.step primitives) (.initial users maxFailures windowMs) events = some s) :
    SingleUse s ∧
      (Runs.Guarded (Auth.step primitives) NoStraddle (.initial users maxFailures windowMs) events →
        Evicts primitives s) := by
  have hstep : ∀ s e t, Inv primitives s → Auth.step primitives s e = some t → Inv primitives t :=
    fun _ _ _ hs h => hs.step h
  have hinv : Inv primitives s := Runs.invariant_of_run hstep (.initial ..) hrun
  refine ⟨hinv.once, fun hguard => evicts_of_current hinv ?_⟩
  have hguarded : ∀ s e t, Inv primitives s ∧ Covered s ∧ Current primitives s → NoStraddle s e →
      Auth.step primitives s e = some t → Inv primitives t ∧ Covered t ∧ Current primitives t :=
    fun _ _ _ hs hguard h =>
      ⟨hs.1.step h, hs.2.1.step hs.1 hguard h, hs.2.2.step hs.1 hs.2.1 hguard h⟩
  have hstart : Current primitives (.initial users maxFailures windowMs) :=
    fun _ hsession => nomatch hsession
  have hnone : Covered (.initial users maxFailures windowMs) := fun _ hcall => nomatch hcall
  exact (Runs.run_invariant hguarded ⟨.initial .., hnone, hstart⟩ hguard hrun).2.2

end

/-! ## A login over a reset -/

/-- Primitives that are easy to compute: a hash is the password itself. -/
def examplePrimitives : Primitives where
  toLowerCase := id
  digest := fun text => text.map UInt16.toUInt8
  hash := fun _ password => password
  verify := fun passwordHash password => passwordHash == password

def exampleUser : User :=
  ⟨⟨1⟩, ofAscii "a@b.c", ofAscii "a@b.c", some (ofAscii "old password"), some 0, none⟩

/-- An input with its own tokens and its own identifier. -/
def exampleInput (name : String) (id : BitVec 128) : Input :=
  ⟨0, 0, 0, (ofAscii name, ofAscii name), [], ⟨id⟩⟩

def exampleLogin : List Event :=
  [.begin 0 (.login (ofAscii "a@b.c") (ofAscii "old password") ⟨none, none⟩),
    .resume 0 (exampleInput "" 0), .resume 0 (exampleInput "session" 0)]

def exampleReset : List Event :=
  [.begin 0 (.requestPasswordReset (ofAscii "a@b.c")), .resume 1 (exampleInput "reset" 0),
    .resume 1 (exampleInput "" 2),
    .begin 0 (.resetPassword (ofAscii "reset") (ofAscii "new password")),
    .resume 2 (exampleInput "" 0), .resume 2 (exampleInput "" 0), .resume 2 (exampleInput "" 0),
    .resume 2 (exampleInput "" 0), .resume 2 (exampleInput "" 0), .resume 2 (exampleInput "" 0)]

/-- The login verifies the old password, the reset runs from its begin to its commit, and the login
inserts its session. -/
def loginOverReset : List Event := exampleLogin ++ exampleReset ++ [.resume 0 (exampleInput "" 3)]

theorem loginOverReset_not_evicts :
    ¬ ∀ (primitives : Primitives) (users : List User) (maxFailures windowMs : Nat)
      (events : List Event) (s : System),
      Runs.run (Auth.step primitives) (.initial users maxFailures windowMs) events = some s →
        Evicts primitives s := by
  intro h
  obtain ⟨s, hrun⟩ : ∃ s, Runs.run (Auth.step examplePrimitives) (.initial [exampleUser] 5 900000)
    loginOverReset = some s := ⟨_, rfl⟩
  have hevicts := h _ _ _ _ _ s hrun
  cases hrun
  obtain ⟨j, reset, -, hreset, login, hlogin, -, hhash, -⟩ :=
    hevicts (ofAscii "session") 0 _ _ rfl 0 (by decide)
  obtain rfl := List.mem_singleton.mp hlogin
  have hnew : some (ofAscii "new password") = some reset.passwordHash := by
    cases j with
    | zero => exact congrArg (Option.map Reset.passwordHash) hreset
    | succ j => cases hreset
  exact absurd (hhash.trans (Option.some.inj hnew).symm) (by decide)

/-- A reset after a login that has finished. -/
def resetAfterLogin : List Event := exampleLogin ++ [.resume 0 (exampleInput "" 3)] ++ exampleReset

theorem resetAfterLogin_guarded : Runs.Guarded (Auth.step examplePrimitives) NoStraddle
    (.initial [exampleUser] 5 900000) resetAfterLogin := by
  -- Only the insert of the session has something to check.
  refine .cons trivial rfl (.cons trivial rfl (.cons trivial rfl (.cons ?insert rfl ?_)))
  case insert => exact ⟨rfl, rfl⟩
  refine .cons trivial rfl (.cons trivial rfl (.cons trivial rfl (.cons trivial rfl ?_)))
  refine .cons trivial rfl (.cons trivial rfl (.cons trivial rfl (.cons trivial rfl ?_)))
  exact .cons trivial rfl (.cons trivial rfl trivial)

/-- The reset evicts the session of the login before it. -/
theorem resetPassword_evicts_session :
    ∃ s, Runs.run (Auth.step examplePrimitives) (.initial [exampleUser] 5 900000)
        resetAfterLogin = some s ∧ s.resets.length = 1 ∧ s.tables.sessions.length = 1 ∧
      Evicts examplePrimitives s :=
  ⟨_, rfl, rfl, rfl, (resetPassword_evicts rfl).2 resetAfterLogin_guarded⟩

end Himitsu.Auth
