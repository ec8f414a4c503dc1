import Himitsu.Library.Except
import Himitsu.Library.JsonParse
import Himitsu.Secrets.Reads

/-!
# The runtime configuration and its entity tags

Model of `runtimeEtag` and `parseRuntimeEtags` of `apps/api/src/index.ts`, with what a client may
conclude from an answer without secrets.

* `parse_runtimeEtag` — the tag of a configuration is read back as its version alone.
* `currentSecrets` — the keys and values of an environment.

Principal result: `notModified_current` — in every run, a configuration that is answered as not
modified, for the version that came with some secrets before, still has exactly these.
-/

set_option autoImplicit false

namespace Himitsu.Api

open JsString Crypto Database Services Transactions Interleaving Secrets Protection

/-! ## Entity tags -/

def ETAG_START : JsString := ofAscii "\"himi-config-"

def runtimeEtag (configVersion : Nat) : JsString := ETAG_START ++ ofNat configVersion ++ [0x22]

/-- The group of `/^(?:W\/)?"himi-config-(\d+)"$/`. -/
def etagDigits (tag : JsString) : Option JsString :=
  let strong := if (ofAscii "W/").isPrefixOf tag then tag.drop 2 else tag
  if ETAG_START.isPrefixOf strong then
    let rest := strong.drop ETAG_START.length
    let digits := rest.takeWhile Json.isDigit
    if digits ≠ [] ∧ rest.drop digits.length = [0x22] then some digits else none
  else none

/-- The version of a tag. `Number` rounds digits of a larger value to no safe integer. -/
def etagVersion (tag : JsString) : Option Nat :=
  ((etagDigits tag).map decimalValue).filter (· ≤ MAX_SAFE_INTEGER)

def parseRuntimeEtags (header : Option JsString) : KnownVersions :=
  match header with
  | none => .list []
  | some header =>
    let tags := (header.splitOn 0x2C).map trim
    if tags.contains (ofAscii "*") then .any else .list (tags.filterMap etagVersion)

/-- A visible unit that neither ends a tag of a list nor stands for all tags. -/
def isTagUnit (c : UInt16) : Bool := 0x21 ≤ c && c ≤ 0x7E && c != 0x2C && c != 0x2A

theorem isTagUnit_digit {c : UInt16} (h : 0x30 ≤ c ∧ c ≤ 0x39) : isTagUnit c = true := by
  simp only [isTagUnit, Bool.and_eq_true, decide_eq_true_eq, bne_iff_ne]
  refine ⟨⟨⟨UInt16.le_trans (by decide) h.1, UInt16.le_trans h.2 (by decide)⟩, ?_⟩, ?_⟩
  · rintro rfl
    exact absurd h.1 (by decide)
  · rintro rfl
    exact absurd h.1 (by decide)

theorem runtimeEtag_units {configVersion : Nat} {c : UInt16}
    (h : c ∈ runtimeEtag configVersion) : isTagUnit c = true := by
  have hstart : ETAG_START.all isTagUnit = true := by decide
  rcases List.mem_append.mp h with h | h
  · rcases List.mem_append.mp h with h | h
    · exact List.all_eq_true.mp hstart c h
    · exact isTagUnit_digit (ofNat_digits configVersion c h)
  · rw [List.mem_singleton.mp h]
    decide

theorem ofNat_ne_nil (n : Nat) : ofNat n ≠ [] := by
  by_cases h : n = 0
  · rw [h]
    exact List.cons_ne_nil _ _
  · obtain ⟨c, rest, heq, -⟩ := ofNat_eq h
    rw [heq]
    exact List.cons_ne_nil _ _

theorem etagVersion_runtimeEtag {configVersion : Nat} (h : configVersion ≤ MAX_SAFE_INTEGER) :
    etagVersion (runtimeEtag configVersion) = some configVersion := by
  have hstrong : (ofAscii "W/").isPrefixOf (runtimeEtag configVersion) = false := rfl
  have hstart : ETAG_START.isPrefixOf (runtimeEtag configVersion) = true := by
    rw [List.isPrefixOf_iff_prefix, runtimeEtag, List.append_assoc]
    exact List.prefix_append ..
  have hrest : (runtimeEtag configVersion).drop ETAG_START.length =
      ofNat configVersion ++ [0x22] := by
    rw [runtimeEtag, List.append_assoc, List.drop_left]
  have hdigits : ∀ c ∈ ofNat configVersion, Json.isDigit c = true := fun c hc => by
    obtain ⟨hlow, hhigh⟩ := ofNat_digits configVersion c hc
    rw [Json.isDigit, decide_eq_true hlow, decide_eq_true hhigh]
    rfl
  have htake : (ofNat configVersion ++ [0x22]).takeWhile Json.isDigit =
      ofNat configVersion := by
    rw [List.takeWhile_append_of_pos hdigits]
    exact List.append_nil _
  have hfound : etagDigits (runtimeEtag configVersion) = some (ofNat configVersion) := by
    unfold etagDigits
    rw [hstrong, if_neg Bool.false_ne_true, if_pos hstart]
    dsimp only
    rw [hrest, htake, List.drop_left]
    exact if_pos ⟨ofNat_ne_nil configVersion, rfl⟩
  rw [etagVersion, hfound, Option.map_some, decimalValue_ofNat, Option.filter_some,
    if_pos (decide_eq_true h)]

/-- **The tag of a configuration is read back as its version alone.** -/
theorem parse_runtimeEtag {configVersion : Nat} (h : configVersion ≤ MAX_SAFE_INTEGER) :
    parseRuntimeEtags (some (runtimeEtag configVersion)) = .list [configVersion] := by
  have hsplit : (runtimeEtag configVersion).splitOn 0x2C = [runtimeEtag configVersion] :=
    List.splitOn_eq_singleton fun hmem => absurd (runtimeEtag_units hmem) (by decide)
  have htrim : trim (runtimeEtag configVersion) = runtimeEtag configVersion :=
    trim_of_forall fun c hc => by
      have hunit := runtimeEtag_units hc
      simp only [isTagUnit, Bool.and_eq_true, decide_eq_true_eq] at hunit
      exact isWhitespace_ascii hunit.1.1
  have hany : [runtimeEtag configVersion].contains (ofAscii "*") = false := rfl
  unfold parseRuntimeEtags
  dsimp only
  rw [hsplit, List.map_singleton, htrim, hany, if_neg Bool.false_ne_true,
    List.filterMap_cons_some (etagVersion_runtimeEtag h), List.filterMap_nil]

/-! ## The secrets of an environment -/

variable {wrapper : KeyWrapper} {platform : Platform}

/-- The keys and values of the active secrets of an environment. -/
def currentSecrets (platform : Platform) (db : Db wrapper) (projectId environmentId : Uuid) :
    Except CryptoError (List (JsString × JsString)) :=
  ((sealedEntries platform db projectId environmentId).mapM
    (openEntry platform.aead db.keys)).map Json.fromEntries

/-! ## Runs -/

/-- A call that answered with a configuration. -/
structure Answered (e : Commit wrapper) (projectId environmentId : Uuid)
    (known : KnownVersions) (config : RuntimeSecretConfig) : Prop where
  call : ∃ auditActor,
    e.call.action = .secret (.runtimeConfig projectId environmentId known auditActor)
  answer : e.answer = .runtimeConfig config

section

variable {config : Config} {base : Db wrapper}
  {s : System (Db wrapper) Lock Write ServiceError Call Answer}
  {projectId environmentId : Uuid}

/-- The statements of a call found databases of the run. -/
theorem finding_of_answered (hreach : Reachable store (program config) base s) {i : Nat}
    {e : Commit wrapper} {known : KnownVersions}
    {found : RuntimeSecretConfig} (he : s.log[i]? = some e)
    (h : Answered e projectId environmentId known found) :
    ∃ first rest times,
      RuntimeFinding config.platform projectId environmentId known found first rest ∧
      Observed store readPart base s.log e i (first :: rest) times := by
  obtain ⟨stmts, hdoes, hobserved⟩ := observed_of_reachable (f := readPart) hreach he
  obtain ⟨auditActor, hcall⟩ := h.call
  simp only [program, hcall, SecretCall.program, h.answer] at hdoes
  obtain ⟨_, _, _, _, _, hconfig, hpure, rfl, hpending⟩ := does_bind.mp hdoes
  obtain ⟨rfl, rfl, heq⟩ := does_ok.mp hpure
  cases heq
  obtain ⟨hnotes, first, rest, rfl, hfinding⟩ := does_runtimeConfig hconfig
  rw [List.append_nil] at hpending hobserved
  obtain ⟨times, htimes⟩ := hobserved fun w hw db =>
    readPart_apply (hnotes w (hpending ▸ hw)) db
  exact ⟨first, rest, times, hfinding, htimes⟩

/-- While the configuration version of an environment stays, so do its sealed entries. -/
theorem sealedEntries_of_rely {db₁ db₂ db₃ : Db wrapper} {row row' : Database.Environment}
    (hrely₁₂ : ConfigRely config.platform db₁ db₂) (hrely₂₃ : ConfigRely config.platform db₂ db₃)
    (hinv : ConfigInvariant db₃) (hrow : row ∈ db₁.environments) (hrow' : row' ∈ db₃.environments)
    (hid : row'.id = row.id) (hsame : row'.configVersion = row.configVersion) :
    sealedEntries config.platform db₃ row.projectId row.id =
      sealedEntries config.platform db₂ row.projectId row.id := by
  obtain ⟨middle, hmiddle, hfollows, -⟩ := hrely₁₂.environments row hrow
  obtain ⟨last, hlast, hfollows', hsealed⟩ := hrely₂₃.environments middle hmiddle
  have hunique : last = row' := by
    refine List.inj_on_of_nodup_map hinv.distinct hlast hrow' ?_
    rw [hfollows'.id, hfollows.id, hid]
  subst hunique
  have hmiddle : middle.configVersion = row.configVersion :=
    Nat.le_antisymm (hsame ▸ hfollows'.configVersion) hfollows.configVersion
  have hentries := hsealed (hsame.trans hmiddle.symm)
  rw [hfollows.projectId, hfollows.id] at hentries
  exact hentries

theorem configInvariant_of_isEmpty (h : Db.IsEmpty base) : ConfigInvariant base where
  distinct := by
    rw [environmentIds, h.2.1]
    exact List.nodup_nil
  versioned row hrow := by
    rw [h.2.2] at hrow
    cases hrow

/-- **A configuration that is not modified is current.** A call that began after another one had
answered with some secrets, and that answers as not modified for the same version (as it must where
it knows the entity tag of the other answer), found exactly these secrets. -/
theorem notModified_current (hempty : Db.IsEmpty base)
    (hreach : Reachable store (program config) base s) {i j : Nat}
    {e e' : Commit wrapper} (he : s.log[i]? = some e)
    (he' : s.log[j]? = some e') (hlater : i < e'.since) {known known' : KnownVersions}
    {found found' : RuntimeSecretConfig} (h : Answered e projectId environmentId known found)
    (h' : Answered e' projectId environmentId known' found')
    {secrets : List (JsString × JsString)} (hsecrets : found.secrets = some secrets)
    (hnot : found'.notModified = true)
    (hversion : found'.configVersion = found.configVersion ∨
      known' = parseRuntimeEtags (some (runtimeEtag found.configVersion))) :
    parseRuntimeEtags (some (runtimeEtag found.configVersion)) = .list [found.configVersion] ∧
      ∃ moment, e'.world.moments.head? = some moment ∧
        currentSecrets config.platform moment projectId environmentId = .ok secrets := by
  obtain ⟨first, rest, times, hfinding, hobserved⟩ := finding_of_answered hreach he h
  obtain ⟨first', rest', times', hfinding', hobserved'⟩ := finding_of_answered hreach he' h'
  have hetag := parse_runtimeEtag hfinding.supported
  refine ⟨hetag, ?_⟩
  have hsame : found'.configVersion = found.configVersion := by
    rcases hversion with hversion | hknown
    · exact hversion
    · have hcontains := hfinding'.known (Option.isNone_iff_eq_none.mp hnot)
      rw [hknown, hetag] at hcontains
      simpa [KnownVersions.contains] using hcontains
  obtain ⟨n, -, hview, -, hbefore, hrest⟩ := hobserved.after_first
  obtain ⟨k, hmoment, hview', hsince, -⟩ := hobserved'.after_first
  refine ⟨_, hmoment, ?_⟩
  have hcontract := fun m => contract_of_commits (configContract config.platform wrapper) hreach
    (configInvariant_of_isEmpty hempty) (fun _ _ => keeps_configContract config.platform) m
  -- the moments of the first call come before the first moment of the second one
  have hle : ∀ m, m ≤ i → m ≤ k := fun m hm => (hm.trans_lt (hlater.trans_le hsince)).le
  obtain ⟨row, hrow, hrowVersion⟩ := hfinding.version
  obtain ⟨row', hrow', hrowVersion'⟩ := hfinding'.version
  rw [← activeEnvironment_readPart, hview, activeEnvironment_readPart] at hrow
  rw [← activeEnvironment_readPart, hview', activeEnvironment_readPart] at hrow'
  obtain ⟨hmem, hid, hproject⟩ := place_of_activeEnvironment hrow
  obtain ⟨hmem', hid', -⟩ := place_of_activeEnvironment hrow'
  obtain ⟨y, hy, entries, rfl, hopens⟩ := hfinding.secrets secrets hsecrets
  obtain ⟨m, hy, hnm, hm⟩ := hrest y hy
  have hsealed := sealedEntries_of_rely ((hcontract m).2 n hnm) ((hcontract k).2 m (hle m hm))
    (hcontract k).1 hmem hmem' (hid'.trans hid.symm)
    (hrowVersion'.trans (hsame.trans hrowVersion.symm))
  rw [hid, hproject] at hsealed
  rw [← sealedEntries_readPart, hy, sealedEntries_readPart, ← hsealed] at hopens
  have hall : (sealedEntries config.platform (databaseAfter store base s.log k) projectId
      environmentId).mapM (openEntry config.platform.aead
        (databaseAfter store base s.log k).keys) = .ok entries := by
    rw [Except.mapM_eq_ok_iff]
    refine hopens.imp ?_
    rintro entry opened ⟨x, hx, hopen⟩
    obtain ⟨l, hkeys, -, hl⟩ := hrest x hx
    have hkeys : (readPart x.view).keys = (readPart (databaseAfter store base s.log l)).keys :=
      congrArg _ hkeys
    change x.view.keys = (databaseAfter store base s.log l).keys at hkeys
    rw [hkeys] at hopen
    exact openEntry_keeps ((hcontract k).2 l (hle l hl)).values hopen
  rw [currentSecrets, hall]
  rfl

end

/-! ## An application that polls -/

def appSecrets (value : String) : List (JsString × JsString) := [(ofAscii "KEY", ofAscii value)]

def readAt (time : Nat) (known : List Nat) : Call :=
  callAt time (.secret (.runtimeConfig ⟨100⟩ ⟨101⟩ (.list known) (.user exampleUser)))

/-- A secret is stored and read, and read again by a client that knows the version; then the value
is replaced, and read by a client that knows the versions before and after. Each call is there with
the number of its statements. -/
def pollCalls : List (Call × Nat) :=
  [(createApp 1, 9),
    (callAt 2 (.secret (.create ⟨100⟩ ⟨101⟩
      { key := ofAscii "KEY", value := ofAscii "x" })), 15),
    (readAt 3 [], 7),
    (readAt 4 [1], 3),
    (callAt 5 (.secret (.update ⟨200⟩ ⟨some (ofAscii "y"), none, none, none, none⟩)), 10),
    (readAt 6 [1, 2], 3)]

/-- The calls one after another. -/
def pollRun : Option (System (Db exampleWrapper) Lock Write ServiceError Call Answer) :=
  (System.start newOrganization).schedule store (program exampleConfig)
    (pollCalls.flatMap fun call =>
      .start call.1 :: List.replicate call.2 (.statement 0) ++ [.commit 0])

/-- What a call read: its place, the known versions and the answer. -/
structure ReadEntry where
  projectId : Uuid
  environmentId : Uuid
  known : List Nat
  configVersion : Nat
  secrets : Option (List (JsString × JsString))
  deriving DecidableEq

def readOf (e : Commit exampleWrapper) : Option ReadEntry :=
  match e.call.action, e.answer with
  | .secret (.runtimeConfig projectId environmentId (.list known) _), .runtimeConfig found =>
    some ⟨projectId, environmentId, known, found.configVersion, found.secrets⟩
  | _, _ => none

theorem answered_of_readOf {e : Commit exampleWrapper} {entry : ReadEntry}
    (h : readOf e = some entry) :
    Answered e entry.projectId entry.environmentId (.list entry.known)
      ⟨entry.configVersion, entry.secrets⟩ := by
  unfold readOf at h
  split at h
  · rename_i auditActor found hcall hanswer
    cases h
    exact ⟨⟨auditActor, hcall⟩, hanswer⟩
  · cases h

/-- An entry of the log: what was read, when the call began and what it found. -/
structure PollEntry where
  read : Option ReadEntry
  since : Nat
  current : Option (Option (List (JsString × JsString)))
  deriving DecidableEq

def entryOf (e : Commit exampleWrapper) : PollEntry where
  read := readOf e
  since := e.since
  current := e.world.moments.head?.map fun db =>
    (currentSecrets examplePlatform db ⟨100⟩ ⟨101⟩).toOption

theorem pollRun_entries :
    pollRun.map (fun s => [2, 3, 5].map fun i => (s.log[i]?).map entryOf) =
      some [some ⟨some ⟨⟨100⟩, ⟨101⟩, [], 1, some (appSecrets "x")⟩, 2, some (some (appSecrets "x"))⟩,
        some ⟨some ⟨⟨100⟩, ⟨101⟩, [1], 1, none⟩, 3, some (some (appSecrets "x"))⟩,
        some ⟨some ⟨⟨100⟩, ⟨101⟩, [1, 2], 2, none⟩, 5, some (some (appSecrets "y"))⟩] := by
  decide +kernel

theorem notModified_current_poll : ∃ s, pollRun = some s ∧ ∃ e moment,
    s.log[3]? = some e ∧ e.world.moments.head? = some moment ∧
      currentSecrets examplePlatform moment ⟨100⟩ ⟨101⟩ = .ok (appSecrets "x") := by
  obtain ⟨s, hs, hlog⟩ := Option.map_eq_some_iff.mp pollRun_entries
  simp only [List.map_cons, List.map_nil, List.cons.injEq, and_true] at hlog
  obtain ⟨e, he, hentry⟩ := Option.map_eq_some_iff.mp hlog.1
  obtain ⟨e', he', hentry'⟩ := Option.map_eq_some_iff.mp hlog.2.1
  simp only [entryOf, PollEntry.mk.injEq] at hentry hentry'
  have hlater : 2 < e'.since := hentry'.2.1 ▸ (by decide)
  have hread := answered_of_readOf hentry.1
  have hread' := answered_of_readOf hentry'.1
  obtain ⟨-, moment, hmoment, hcurrent⟩ := notModified_current ⟨rfl, rfl, rfl⟩
    (reachable_of_schedule hs) he he' hlater hread hread' rfl rfl (.inl rfl)
  exact ⟨s, hs, e', moment, he', hmoment, hcurrent⟩

/-- An answer as not modified to a client that knows the version of some secrets means that these
secrets are current. -/
def KnownIsCurrent (platform : Platform)
    (s : System (Db wrapper) Lock Write ServiceError Call Answer) : Prop :=
  ∀ (i j : Nat) (e e' : Commit wrapper) (projectId environmentId : Uuid)
    (known known' : KnownVersions) (found found' : RuntimeSecretConfig)
    (secrets : List (JsString × JsString)), s.log[i]? = some e → s.log[j]? = some e' →
    i < e'.since → Answered e projectId environmentId known found →
    Answered e' projectId environmentId known' found' → found.secrets = some secrets →
    known'.contains found.configVersion = true → found'.notModified = true →
    ∃ moment, e'.world.moments.head? = some moment ∧
      currentSecrets platform moment projectId environmentId = .ok secrets

/-- A client that knows the versions before and after a change is told that nothing is modified. -/
theorem not_knownIsCurrent : ∃ s, Reachable store (program exampleConfig) newOrganization s ∧
    ¬KnownIsCurrent examplePlatform s := by
  obtain ⟨s, hs, hlog⟩ := Option.map_eq_some_iff.mp pollRun_entries
  simp only [List.map_cons, List.map_nil, List.cons.injEq, and_true] at hlog
  obtain ⟨e, he, hentry⟩ := Option.map_eq_some_iff.mp hlog.1
  obtain ⟨e', he', hentry'⟩ := Option.map_eq_some_iff.mp hlog.2.2
  simp only [entryOf, PollEntry.mk.injEq] at hentry hentry'
  have hread := answered_of_readOf hentry.1
  have hread' := answered_of_readOf hentry'.1
  obtain ⟨-, hsince, hmoment⟩ := hentry'
  refine ⟨s, reachable_of_schedule hs, fun h => ?_⟩
  have hlater : 2 < e'.since := hsince ▸ (by decide)
  obtain ⟨moment, hfirst, hcurrent⟩ := h 2 5 e e' _ _ _ _ _ _ (appSecrets "x") he he' hlater
    hread hread' rfl rfl rfl
  rw [hfirst, Option.map_some, hcurrent] at hmoment
  exact absurd hmoment (by decide)

end Himitsu.Api
