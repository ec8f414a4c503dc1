import Himitsu.Api.Confinement
import Himitsu.Api.Credentials

/-!
# The ledger of a run

The table of keys of a run is that of the ledger with the events that the answers of the commits
show, in the order of the commits.

* `run_of_commit` — a commit makes the events that its answer shows.

Principal results: `keys_refine_ledger`, `revocation_final`.
-/

set_option autoImplicit false

namespace Himitsu.Api.KeyRequests

open JsString Crypto Database Services Transactions Interleaving ApiKeys Requests

variable {wrapper : KeyWrapper} {χ : Type} {installation : Installation}
  {digest : JsString → Bytes} {others : Others wrapper χ}

/-! ## Commits -/

theorem updateWhere_congr {p : StoredKey → Bool} {f g : StoredKey → StoredKey}
    {rows : List StoredKey} (h : ∀ row ∈ rows, p row = true → f row = g row) :
    updateWhere p f rows = updateWhere p g rows := by
  rw [updateWhere, updateWhere]
  refine List.map_congr_left fun row hrow => ?_
  cases hp : p row with
  | true => simpa [hp] using h row hrow hp
  | false => simp

theorem updateWhere_same {p : StoredKey → Bool} {rows : List StoredKey}
    {f : StoredKey → StoredKey} (h : ∀ row ∈ rows, p row = true → f row = row) :
    updateWhere p f rows = rows := by
  rw [updateWhere_congr (g := id) h, updateWhere]
  simp

variable {base : Tables wrapper}
  {s : System (Tables wrapper) TableLock TableWrite KeyError (Call χ) KeyResponse}
  {e : KeyCommit wrapper χ} {i j : Nat}

theorem fresh_of_creates {context : ApiRequestContext} {draws : Draws} {input : CreateInput}
    {token : TokenDraws} {row : StoredKey} (h : Creates digest context draws input token row e) :
    row.Fresh e.world.base.apiKeys := by
  intro other hother
  have hid := List.filter_eq_nil_iff.mp h.id other hother
  have hinitial := List.filter_eq_nil_iff.mp (List.map_eq_nil_iff.mp h.tokenPrefix) other hother
  have hhash := List.filter_eq_nil_iff.mp (List.map_eq_nil_iff.mp h.tokenHash) other hother
  exact ⟨by simpa using hid, by simpa using hinitial, by simpa using hhash⟩

/-- The table that a revocation leaves. -/
theorem apiKeys_of_revokes {context : ApiRequestContext} {draws : Draws} {apiKeyId : Uuid}
    {row : StoredKey} (h : Revokes context draws apiKeyId row e) (hwf : e.world.base.WellFormed) :
    (ApiKeys.store.applyAll e.world.pending e.world.base).apiKeys =
      (KeyEvent.revoked apiKeyId draws.now).after e.world.base.apiKeys := by
  have hrow : ∀ other ∈ e.world.base.apiKeys, decide (other.id = apiKeyId) = true → other = row :=
    fun other hother hid =>
      hwf.row_eq hother h.mem ((of_decide_eq_true hid).trans h.id.symm)
  obtain ⟨hrevoked, hws⟩ | ⟨hrevoked, orgId, metadata, hws⟩ := h.writes
  · obtain ⟨time, htime⟩ := Option.isSome_iff_exists.mp hrevoked
    rw [hws, KeyEvent.after, updateWhere_same]
    · rfl
    · intro other hother hid
      obtain rfl := hrow other hother hid
      rw [StoredKey.revoke, htime, Option.getD_some, ← htime]
  · rw [hws, apiKeys_event, KeyEvent.after]
    refine updateWhere_congr fun other hother hid => ?_
    obtain rfl := hrow other hother hid
    rw [StoredKey.revoke, hrevoked]
    rfl

/-- **A commit makes the events that its answer shows.** -/
theorem run_of_commit (hbase : base.WellFormed)
    (hreach : Reachable ApiKeys.store (program installation digest others) base s)
    (he : s.log[i]? = some e) :
    ledger.Run (databaseAfter ApiKeys.store base s.log i).apiKeys (eventOf digest e.call e.answer)
      (databaseAfter ApiKeys.store base s.log (i + 1)).apiKeys := by
  obtain ⟨hbefore, hafter⟩ := databaseAfter_of_commit hreach he
  obtain ⟨stmts, hran⟩ := (serial_of_reachable hreach).log e (List.mem_of_getElem? he)
  have hwf : e.world.base.WellFormed := hbefore ▸ wellFormed_of_reachable hbase hreach i
  rw [hbefore, hafter]
  cases effect_of_ran hran with
  | quiet hws hevent =>
    have hsame : (e.world.view ApiKeys.store).apiKeys = e.world.base.apiKeys :=
      apiKeys_applyAll hws e.world.base
    rw [hevent, hsame]
    exact .nil _
  | @creates _ _ _ _ row hcall hcreates =>
    obtain ⟨orgId, metadata, hws⟩ := hcreates.writes
    obtain ⟨name, hmade⟩ := hcreates.made
    have hname : (fromRow row.toApiKeyRow).name = name := by
      rw [hmade]
      rfl
    have hnew : row.revokedAt = none ∧ row.lastUsedAt = none := by
      rw [hmade]
      exact ⟨rfl, rfl⟩
    rw [hcall, hcreates.answer, eventOf, hname, ← hmade, World.view, hws, apiKeys_event]
    exact .one ⟨hnew.1, hnew.2, fresh_of_creates hcreates⟩
  | revokes hcall hrevokes =>
    obtain ⟨key, hanswer⟩ := hrevokes.answer
    rw [hcall, hanswer, eventOf, World.view, apiKeys_of_revokes hrevokes hwf]
    exact .one ⟨_, hrevokes.mem, hrevokes.id⟩
  | uses hcall hanswer hws =>
    obtain ⟨row, hrow⟩ := authenticates_of_commit hbase hreach he hcall hanswer
    obtain ⟨event, hwrites, -⟩ := hrow.writes
    obtain ⟨orgId, hprincipal⟩ := hrow.principal
    have hid := congrArg ApiKeyPrincipal.apiKeyId hprincipal
    rw [hcall, hanswer, eventOf, hid, World.view, hwrites, apiKeys_event]
    exact .one ⟨row, hbefore ▸ hrow.mem, rfl, hrow.unrevoked, hrow.unexpired⟩

/-! ## Runs -/

theorem ledger_between (hbase : base.WellFormed)
    (hreach : Reachable ApiKeys.store (program installation digest others) base s) (m k : Nat) :
    ledger.Run (databaseAfter ApiKeys.store base s.log m).apiKeys
      (eventsOf (eventOf digest) ((s.log.drop m).take k))
      (databaseAfter ApiKeys.store base s.log (m + k)).apiKeys :=
  run_of_commits (fun _ _ he => run_of_commit hbase hreach he) m k

/-- **The keys of a run are those of the ledger**: however transactions overlap, what becomes of the
table is what the answers show, one commit after another. -/
theorem keys_refine_ledger (hbase : base.WellFormed)
    (hreach : Reachable ApiKeys.store (program installation digest others) base s) (n : Nat) :
    ledger.Run base.apiKeys (eventsOf (eventOf digest) (s.log.take n))
      (databaseAfter ApiKeys.store base s.log n).apiKeys := by
  have hrun := ledger_between hbase hreach 0 n
  rwa [List.drop_zero, Nat.zero_add] at hrun

/-! ### A key that is made, used and revoked -/

def noOthers : Others exampleWrapper Empty := ⟨nofun, nofun⟩

def exampleToken : TokenDraws := ⟨ofAscii "0123456789abcdef", List.replicate 43 0x41⟩

def exampleDigest (token : JsString) : Bytes :=
  if token = exampleToken.token then
    [23, 121, 78, 117, 154, 209, 1, 8, 176, 153, 44, 119, 31, 209, 71, 109, 27, 199, 231, 138, 239,
      102, 169, 111, 215, 196, 37, 176, 186, 178, 152, 146]
  else []

def keylessTables : Tables exampleWrapper := ⟨twoProjects, none, []⟩

theorem keylessTables_wellFormed : keylessTables.WellFormed := ⟨.nil, .nil, .nil⟩

def createKey : Call Empty :=
  .keys ⟨exampleUser, none⟩ (drawsAt 5)
    (.create ⟨ofAscii "ci", .readOnly, some ⟨200⟩, none, none⟩ exampleToken)

def authenticateAt (time : Nat) : Call Empty :=
  .authenticate exampleToken.token ⟨fromDate time, fromDate time, none, none⟩

/-- What the token of the key gives. -/
def examplePrincipal : ApiKeyPrincipal :=
  ⟨⟨500⟩, twoProjects.orgId, exampleUser, some ⟨200⟩, none, .readOnly, exampleToken.tokenPrefix, 6⟩

def readWithKey : Call Empty :=
  .request ⟨contextOf examplePrincipal, drawsAt 7, .secret ⟨300⟩ .get⟩

def revokeKey : Call Empty := .keys ⟨exampleUser, none⟩ (drawsAt 8) (.revoke ⟨500⟩)

/-- A transaction with this number of statements, alone. -/
def alone (call : Call Empty) (statements : Nat) : List (Choice (Call Empty)) :=
  .start call :: List.replicate statements (.statement 0) ++ [.commit 0]

def keyRun : Option (System (Tables exampleWrapper) TableLock TableWrite KeyError (Call Empty)
    KeyResponse) :=
  (System.start keylessTables).schedule ApiKeys.store
    (program exampleInstallation exampleDigest noOthers)
    (alone createKey 8 ++ alone (authenticateAt 6) 2 ++ alone readWithKey 11 ++
      alone revokeKey 7 ++ alone (authenticateAt 9) 3)

theorem keys_refine_ledger_run : ∃ s, keyRun = some s ∧ s.log.length = 5 ∧
    ledger.Run keylessTables.apiKeys (eventsOf (eventOf exampleDigest) (s.log.take 5))
      (databaseAfter ApiKeys.store keylessTables s.log 5).apiKeys := by
  have hrun : keyRun.map (·.log.length) = some 5 := by decide +kernel
  obtain ⟨s, hs, hlength⟩ := Option.map_eq_some_iff.mp hrun
  exact ⟨s, hs, hlength,
    keys_refine_ledger keylessTables_wellFormed (reachable_of_schedule hs) 5⟩

/-- **Revocations are final**: from its commit on, the key has one time of revocation, and no token
of it is authenticated, whenever the transaction began. -/
theorem revocation_final (hbase : base.WellFormed)
    (hreach : Reachable ApiKeys.store (program installation digest others) base s)
    {context : ApiRequestContext} {draws : Draws} {apiKeyId : Uuid} (he : s.log[i]? = some e)
    (hcall : e.call = .keys context draws (.revoke apiKeyId)) :
    ∃ time, ∀ n, i < n →
      (∃ row ∈ (databaseAfter ApiKeys.store base s.log n).apiKeys,
        row.id = apiKeyId ∧ row.revokedAt = some time) ∧
      ∀ f token request principal, s.log[n]? = some f → f.call = .authenticate token request →
        f.answer = .authenticated (.ok principal) → principal.apiKeyId ≠ apiKeyId := by
  obtain ⟨stmts, hran⟩ := (serial_of_reachable hreach).log e (List.mem_of_getElem? he)
  obtain ⟨row, hrevokes⟩ := revokes_of_ran hran hcall
  obtain ⟨hbefore, hafter⟩ := databaseAfter_of_commit hreach he
  have hwf : e.world.base.WellFormed := hbefore ▸ wellFormed_of_reachable hbase hreach i
  have henabled : (KeyEvent.revoked apiKeyId draws.now).Enabled e.world.base.apiKeys :=
    ⟨row, hrevokes.mem, hrevokes.id⟩
  obtain ⟨time, hrevoked⟩ := revoked_after hwf.ids henabled
  rw [← apiKeys_of_revokes hrevokes hwf] at hrevoked
  change Revoked apiKeyId time (e.world.view ApiKeys.store).apiKeys at hrevoked
  rw [← hafter] at hrevoked
  refine ⟨time, fun n hn => ?_⟩
  obtain ⟨k, rfl⟩ := Nat.exists_eq_add_of_le hn
  refine ⟨(revoked_of_run (ledger_between hbase hreach (i + 1) k) hrevoked).1.row, ?_⟩
  rintro f token request principal hf hauthenticate hanswer rfl
  have hevent : KeyEvent.used principal.apiKeyId request.statementTime ∈
      eventOf digest f.call f.answer := by
    rw [hauthenticate, hanswer]
    exact List.mem_singleton_self _
  have hlast : i + 1 + k < i + 1 + (k + 1) := Nat.lt_succ_self (i + 1 + k)
  have hamong := mem_eventsOf_iff.mpr ⟨_, f, Nat.le_add_right _ _, hlast, hf, hevent⟩
  exact (revoked_of_run (ledger_between hbase hreach (i + 1) (k + 1)) hrevoked).2 _ hamong _ rfl

def revokedId : Call Empty → Option Uuid
  | .keys _ _ (.revoke apiKeyId) => some apiKeyId
  | _ => none

theorem revokedId_eq_some {call : Call Empty} {apiKeyId : Uuid}
    (h : revokedId call = some apiKeyId) :
    ∃ context draws, call = .keys context draws (.revoke apiKeyId) := by
  unfold revokedId at h
  split at h
  · cases h
    exact ⟨_, _, rfl⟩
  · cases h

theorem revocation_final_run : ∃ s, keyRun = some s ∧ ∃ time, ∀ n, 3 < n →
    (∃ row ∈ (databaseAfter ApiKeys.store keylessTables s.log n).apiKeys,
      row.id = ⟨500⟩ ∧ row.revokedAt = some time) ∧
    ∀ f token request principal, s.log[n]? = some f → f.call = .authenticate token request →
      f.answer = .authenticated (.ok principal) → principal.apiKeyId ≠ ⟨500⟩ := by
  have hrun : keyRun.bind (fun s => s.log[3]?.bind fun e => revokedId e.call) = some ⟨500⟩ := by
    decide +kernel
  obtain ⟨s, hs, hfourth⟩ := Option.bind_eq_some_iff.mp hrun
  obtain ⟨e, he, hrevoked⟩ := Option.bind_eq_some_iff.mp hfourth
  obtain ⟨context, draws, hcall⟩ := revokedId_eq_some hrevoked
  exact ⟨s, hs,
    revocation_final keylessTables_wellFormed (reachable_of_schedule hs) he hcall⟩

end Himitsu.Api.KeyRequests
