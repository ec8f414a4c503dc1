import Himitsu.Library.Overlay
import Himitsu.Secrets.VersionHistory

/-!
# Values laid over an environment

* `valuesOf` — the value of each place, which is a project, an environment and a key.
* `SameElsewhere` — what writes at some places leave.
* `Puts` — a write that gives a place a value and leaves the others.

Principal results: `Wrote.puts`, `Created.puts` — a new version and a creation put their value at
the place of the secret; `serially_of_commit` — a condition on a call that its commit meets.
-/

set_option autoImplicit false

namespace Himitsu.Secrets

open JsString Crypto Database Services Transactions Interleaving Overlay RelatedLists

variable {wrapper : KeyWrapper} {aead : Aead} {db : Db wrapper} {vault : Vault}

/-! ## Places -/

/-- A project, an environment and a key. -/
abbrev Place := Uuid × Uuid × JsString

def placeOf (row : Secret) : Place := (row.projectId, row.environmentId, row.key)

/-- The last values of the active secrets. -/
def valuesOf (db : Db wrapper) (vault : Vault) (place : Place) : Option JsString :=
  (db.secrets.find? fun row => placeOf row = place && row.deletedAt.isNone).bind
    fun row => (vault row.id).getLast?

theorem Implements.unique_place (h : Implements aead db vault) {row row' : Secret}
    (hrow : row ∈ db.secrets) (hrow' : row' ∈ db.secrets) (hplace : placeOf row = placeOf row') :
    row = row' := by
  refine List.inj_on_of_nodup_map h.slots hrow hrow' ?_
  exact congrArg (fun place : Place => place.2) hplace

theorem valuesOf_eq_some (h : Implements aead db vault) {place : Place} {value : JsString} :
    valuesOf db vault place = some value ↔ ∃ row ∈ db.secrets, placeOf row = place ∧
      row.deletedAt = none ∧ (vault row.id).getLast? = some value := by
  rw [valuesOf, Option.bind_eq_some_iff]
  constructor
  · rintro ⟨row, hfind, hvalue⟩
    have hsome := List.find?_some hfind
    rw [Bool.and_eq_true, decide_eq_true_eq, Option.isNone_iff_eq_none] at hsome
    exact ⟨row, List.mem_of_find?_eq_some hfind, hsome.1, hsome.2, hvalue⟩
  · rintro ⟨row, hrow, hplace, hactive, hvalue⟩
    have hfound : (db.secrets.find? fun row =>
        placeOf row = place && row.deletedAt.isNone).isSome = true :=
      List.find?_isSome.mpr ⟨row, hrow, by simp [hplace, hactive]⟩
    obtain ⟨found, hfind⟩ := Option.isSome_iff_exists.mp hfound
    have hsome := List.find?_some hfind
    rw [Bool.and_eq_true, decide_eq_true_eq] at hsome
    have hsame := h.unique_place (List.mem_of_find?_eq_some hfind) hrow (hsome.1.trans hplace.symm)
    exact ⟨found, hfind, hsame ▸ hvalue⟩

/-- A place has no value where no active secret is. -/
theorem valuesOf_eq_none {place : Place}
    (h : ∀ row ∈ db.secrets, placeOf row = place → row.deletedAt ≠ none) :
    valuesOf db vault place = none := by
  rw [valuesOf, List.find?_eq_none.mpr fun row hrow => ?_, Option.bind_none]
  rw [Bool.and_eq_true, decide_eq_true_eq, Option.isNone_iff_eq_none, not_and]
  exact h row hrow

/-! ## Decrypted values -/

/-- The value of a place as its readers decrypt it. -/
def openedAt (platform : Platform) (db : Db wrapper) (place : Place) : Option JsString :=
  ((sealedEntries platform db place.1 place.2.1).find? fun entry => entry.key = place.2.2).bind
    fun entry => (openEntry platform.aead db.keys entry).toOption.map Prod.snd

theorem openedAt_eq {platform : Platform} (h : Implements platform.aead db vault)
    (hversioned : Versioned db) : openedAt platform db = valuesOf db vault := by
  funext place
  obtain ⟨projectId, environmentId, key⟩ := place
  have hentries := forall₂_sealedEntries h hversioned projectId environmentId
  rcases find_of_forall₂ (p := fun row => row.key = key) (q := fun entry => entry.key = key) hentries
    fun row entry hrow => by rw [hrow.1] with ⟨hrows, hnone⟩ | ⟨row, entry, hrow, hentry, hsame⟩
  · rw [openedAt, hnone, Option.bind_none, valuesOf_eq_none fun row hrow hplace hactive => ?_]
    obtain ⟨hproject, henvironment, hkey⟩ : row.projectId = projectId ∧
        row.environmentId = environmentId ∧ row.key = key := by
      simpa only [placeOf, Prod.mk.injEq] using hplace
    have hmem : row ∈ activeSecrets platform db projectId environmentId :=
      mem_activeSecrets.mpr ⟨hrow, hproject, henvironment, hactive⟩
    exact absurd (decide_eq_true hkey) (List.find?_eq_none.mp hrows row hmem)
  · obtain ⟨hmem, hproject, henvironment, hactive⟩ :=
      mem_activeSecrets.mp (List.mem_of_find?_eq_some hrow)
    have hkey : row.key = key := by simpa using List.find?_some hrow
    obtain ⟨-, value, hlast, hvalue, hsealed⟩ := hsame
    have hopened : openEntry platform.aead db.keys entry = .ok (entry.key, value) :=
      openEntry_ok.mpr ⟨_, decrypt_of_sealed hsealed, by rw [Utf8.decode_encode hvalue]⟩
    rw [openedAt, hentry, Option.bind_some, hopened]
    refine ((valuesOf_eq_some h).mpr ⟨row, hmem, ?_, hactive, hlast⟩).symm
    rw [placeOf, hproject, henvironment, hkey]

/-! ## What is left elsewhere -/

/-- Whether one of the places is in an environment. -/
def covers (places : List Place) (row : Database.Environment) : Bool :=
  places.any fun place => place.1 = row.projectId && place.2.1 = row.id

/-- An environment of one of the places, without its version. -/
def withoutConfigVersion (places : List Place) (row : Database.Environment) :
    Database.Environment :=
  if covers places row then { row with configVersion := 0 } else row

/-- The tables that no call on secrets writes. -/
def otherTables (db : Db wrapper) :=
  (db.orgId, db.memberships, db.projectRoleOverrides, db.projects, db.tags, db.projectTags)

/-- The tables are the same but for the secrets at some places, and the versions that are there
stay. Audit events, data keys and records of decryptions are left open. -/
structure SameElsewhere (places : List Place) (db db' : Db wrapper) : Prop where
  secrets : ∀ row, placeOf row ∉ places → (row ∈ db'.secrets ↔ row ∈ db.secrets)
  kept : db.secretVersions <+: db'.secretVersions
  versions : ∀ row ∈ db.secrets, placeOf row ∉ places →
    db'.versionsOf row.id = db.versionsOf row.id
  secretTags : ∀ row ∈ db.secrets, placeOf row ∉ places → db'.tagsOf row.id = db.tagsOf row.id
  environments : db'.environments.map (withoutConfigVersion places) =
    db.environments.map (withoutConfigVersion places)
  others : otherTables db' = otherTables db

theorem SameElsewhere.refl (places : List Place) (db : Db wrapper) : SameElsewhere places db db :=
  ⟨fun _ _ => .rfl, List.prefix_rfl, fun _ _ _ => rfl, fun _ _ _ => rfl, rfl, rfl⟩

theorem SameElsewhere.trans {places : List Place} {db₁ db₂ db₃ : Db wrapper}
    (h : SameElsewhere places db₁ db₂) (h' : SameElsewhere places db₂ db₃) :
    SameElsewhere places db₁ db₃ where
  secrets row hrow := (h'.secrets row hrow).trans (h.secrets row hrow)
  kept := h.kept.trans h'.kept
  versions row hmem hrow :=
    (h'.versions row ((h.secrets row hrow).mpr hmem) hrow).trans (h.versions row hmem hrow)
  secretTags row hmem hrow :=
    (h'.secretTags row ((h.secrets row hrow).mpr hmem) hrow).trans (h.secretTags row hmem hrow)
  environments := h'.environments.trans h.environments
  others := h'.others.trans h.others

theorem withoutConfigVersion_of_subset {places places' : List Place} (h : places ⊆ places')
    (row : Database.Environment) : withoutConfigVersion places' (withoutConfigVersion places row) =
      withoutConfigVersion places' row := by
  by_cases hcovers : covers places row = true
  · obtain ⟨place, hmem, hplace⟩ := List.any_eq_true.mp hcovers
    have hcovers' : covers places' row = true := List.any_eq_true.mpr ⟨place, h hmem, hplace⟩
    have hcovers₀ : covers places' { row with configVersion := 0 } = true := hcovers'
    rw [withoutConfigVersion, withoutConfigVersion, withoutConfigVersion, if_pos hcovers,
      if_pos hcovers', if_pos hcovers₀]
  · rw [withoutConfigVersion.eq_def places, if_neg hcovers]

theorem SameElsewhere.mono {places places' : List Place} {db db' : Db wrapper}
    (h : SameElsewhere places db db') (hsubset : places ⊆ places') :
    SameElsewhere places' db db' where
  secrets row hrow := h.secrets row fun hmem => hrow (hsubset hmem)
  kept := h.kept
  versions row hmem hrow := h.versions row hmem fun hmem => hrow (hsubset hmem)
  secretTags row hmem hrow := h.secretTags row hmem fun hmem => hrow (hsubset hmem)
  environments := by
    have hmap := congrArg (List.map (withoutConfigVersion places')) h.environments
    rw [List.map_map, List.map_map] at hmap
    refine Eq.trans (Eq.symm ?_) (hmap.trans ?_) <;>
      exact List.map_congr_left fun row _ => withoutConfigVersion_of_subset hsubset row
  others := h.others

/-- The trigger changes the environments of the places alone. -/
theorem environments_bump {places : List Place} {rows : List Secret}
    (h : ∀ row ∈ rows, placeOf row ∈ places) (environments : List Database.Environment) :
    (environments.map (bumpEnvironment rows)).map (withoutConfigVersion places) =
      environments.map (withoutConfigVersion places) := by
  rw [List.map_map]
  refine List.map_congr_left fun environment _ => ?_
  by_cases hcovers : covers places environment = true
  · have hcovers' : covers places (bumpEnvironment rows environment) = true := hcovers
    rw [Function.comp_apply, withoutConfigVersion, withoutConfigVersion, if_pos hcovers,
      if_pos hcovers']
    rfl
  · have hnone : bumpEnvironment rows environment = environment := by
      rw [bumpEnvironment, List.countP_eq_zero.mpr fun row hrow hplace => hcovers ?_]
      · rfl
      · exact List.any_eq_true.mpr ⟨placeOf row, h row hrow, hplace⟩
    rw [Function.comp_apply, hnone]

theorem elsewhere_updateSecret (h : Implements aead db vault) {row : Secret}
    (hrow : row ∈ db.secrets) (set : SecretSet) :
    SameElsewhere [placeOf row] db (apply (.updateSecret row.id set) db) where
  secrets other hother := by
    have hne : ∀ old ∈ db.secrets, old.id = row.id → placeOf old = placeOf row :=
      fun old hold hid => congrArg placeOf (h.unique hold hrow hid)
    constructor
    · intro hmem
      obtain ⟨old, hold, ⟨hid, rfl⟩ | ⟨-, rfl⟩⟩ := mem_updateWhere.mp hmem
      · exact absurd (List.mem_singleton.mpr (hne old hold (of_decide_eq_true hid))) hother
      · exact hold
    · intro hmem
      refine mem_updateWhere.mpr ⟨other, hmem, .inr ⟨decide_eq_false fun hid => ?_, rfl⟩⟩
      exact hother (List.mem_singleton.mpr (hne other hmem hid))
  kept := List.prefix_rfl
  versions _ _ _ := rfl
  secretTags _ _ _ := rfl
  environments := by
    refine environments_bump (fun other hother => ?_) _
    obtain ⟨hmem, hid⟩ := List.mem_filter.mp hother
    rw [Bool.and_eq_true, decide_eq_true_eq] at hid
    exact List.mem_singleton.mpr (congrArg placeOf (h.unique hmem hrow hid.1))
  others := rfl

theorem elsewhere_insertSecret (row : Secret) :
    SameElsewhere [placeOf row] db (apply (.insertSecret row) db) where
  secrets other hother := by
    rw [apply, List.mem_append, List.mem_singleton]
    refine ⟨fun hmem => hmem.elim id ?_, .inl⟩
    rintro rfl
    exact absurd (List.mem_singleton_self _) hother
  kept := List.prefix_rfl
  versions _ _ _ := rfl
  secretTags _ _ _ := rfl
  environments := rfl
  others := rfl

theorem elsewhere_insertVersion (h : Implements aead db vault) {row : Secret}
    (hrow : row ∈ db.secrets) {version : SecretVersion} (hid : version.secretId = row.id)
    (keys : DataKeyStore wrapper) :
    SameElsewhere [placeOf row] db
      (apply (.insertSecretVersion version) { db with keys := keys }) where
  secrets _ _ := .rfl
  kept := List.prefix_append _ _
  versions other hmem hother := by
    have hne : version.secretId ≠ other.id := fun heq =>
      hother (List.mem_singleton.mpr (congrArg placeOf (h.unique hmem hrow (heq.symm.trans hid))))
    change (db.secretVersions ++ [version]).filter _ = db.secretVersions.filter _
    rw [List.filter_append, List.filter_cons_of_neg (by simpa using hne), List.filter_nil,
      List.append_nil]
  secretTags _ _ _ := rfl
  environments := rfl
  others := rfl

/-- What a database shares with another one but for the tags, the events and the record of
decryptions. -/
theorem SameElsewhere.of_bare {places : List Place} {db db₁ db' : Db wrapper}
    (h : SameElsewhere places db db₁) (hbare : bare db' = bare db₁)
    (htags : ∀ row ∈ db.secrets, placeOf row ∉ places → db'.tagsOf row.id = db₁.tagsOf row.id) :
    SameElsewhere places db db' := by
  have hsecrets : db'.secrets = db₁.secrets := congrArg (fun db => db.secrets) hbare
  have hversions : db'.secretVersions = db₁.secretVersions :=
    congrArg (fun db => db.secretVersions) hbare
  have henvironments : db'.environments = db₁.environments :=
    congrArg (fun db => db.environments) hbare
  have hothers : otherTables (bare db') = otherTables (bare db₁) := congrArg otherTables hbare
  refine ⟨fun row hrow => ?_, ?_, fun row hmem hrow => ?_, fun row hmem hrow => ?_, ?_, ?_⟩
  · rw [hsecrets]
    exact h.secrets row hrow
  · rw [hversions]
    exact h.kept
  · rw [← h.versions row hmem hrow, Db.versionsOf, hversions]
    rfl
  · exact (htags row hmem hrow).trans (h.secretTags row hmem hrow)
  · rw [henvironments]
    exact h.environments
  · exact hothers.trans h.others

/-! ## Puts -/

/-- A write that gives a place a value. -/
structure Puts (aead : Aead) (db : Db wrapper) (vault : Vault) (place : Place) (value : JsString)
    (db' : Db wrapper) (vault' : Vault) : Prop where
  implements : Implements aead db' vault'
  grows : Grows db db'
  values : valuesOf db' vault' = Function.update (valuesOf db vault) place (some value)
  elsewhere : SameElsewhere [place] db db'

/-- The values after a write are those before it, but for its place. -/
theorem puts_of_elsewhere {place : Place} {value : JsString} {db' : Db wrapper} {vault' : Vault}
    (h : Implements aead db vault) (h' : Implements aead db' vault') (hgrows : Grows db db')
    (helsewhere : SameElsewhere [place] db db')
    (hput : ∃ row ∈ db'.secrets, placeOf row = place ∧ row.deletedAt = none ∧
      (vault' row.id).getLast? = some value)
    (hvault : ∀ row ∈ db.secrets, placeOf row ≠ place → vault' row.id = vault row.id) :
    Puts aead db vault place value db' vault' := by
  refine ⟨h', hgrows, funext fun other => ?_, helsewhere⟩
  by_cases hother : other = place
  · rw [hother, Function.update_self]
    exact (valuesOf_eq_some h').mpr hput
  · rw [Function.update_of_ne hother]
    have hrows : ∀ row, placeOf row = other → (row ∈ db'.secrets ↔ row ∈ db.secrets) :=
      fun row hplace => helsewhere.secrets row (by simpa [hplace] using hother)
    refine Option.ext fun found => (valuesOf_eq_some h').trans (Iff.trans ?_
      (valuesOf_eq_some h).symm)
    refine exists_congr fun row => ?_
    constructor
    · rintro ⟨hmem, hplace, hactive, hvalue⟩
      have hmem' := (hrows row hplace).mp hmem
      rw [hvault row hmem' (hplace ▸ hother)] at hvalue
      exact ⟨hmem', hplace, hactive, hvalue⟩
    · rintro ⟨hmem, hplace, hactive, hvalue⟩
      rw [← hvault row hmem (hplace ▸ hother)] at hvalue
      exact ⟨(hrows row hplace).mpr hmem, hplace, hactive, hvalue⟩

section

variable {before : Secret} {value : JsString} {metadata : SecretMetadata} {db' : Db wrapper}

theorem IsLater.place {row : Secret} (h : IsLater before row) : placeOf row = placeOf before := by
  rw [placeOf, placeOf, h.projectId, h.environmentId, h.key]

theorem Wrote.elsewhere (hwrote : Wrote aead db vault before value metadata db')
    (h : Implements aead db vault) : SameElsewhere [placeOf before] db db' := by
  obtain ⟨row, hrow, hlater, -⟩ := hwrote.active
  obtain ⟨keys, version, set, hbare, hkeys, hid, hset, -⟩ := hwrote.tables
  have hid' : version.secretId = row.id := hid.trans hlater.id.symm
  have hinserted := elsewhere_insertVersion h hrow hid' keys
  have hupdated := elsewhere_updateSecret (h.withKeys hkeys) hrow set
  rw [← hlater.place]
  refine SameElsewhere.of_bare (hinserted.trans ?_) hbare fun other hmem hother => ?_
  · rw [withVersion, hid']
    exact ⟨hupdated.secrets, List.prefix_rfl, fun _ _ _ => rfl, fun _ _ _ => rfl, hupdated.environments, rfl⟩
  · refine hwrote.tags other.id fun heq => hother (List.mem_singleton.mpr ?_)
    exact congrArg placeOf (h.unique hmem hrow (heq.trans hlater.id.symm))

/-- The row of a new version is active, and its last value is the new one. -/
theorem Wrote.exists_row (hwrote : Wrote aead db vault before value metadata db') :
    ∃ row ∈ db'.secrets, placeOf row = placeOf before ∧ row.deletedAt = none ∧
      (vault.append before.id value row.id).getLast? = some value := by
  obtain ⟨row, hrow, hlater, hactive⟩ := hwrote.active
  obtain ⟨keys, version, set, hbare, -, hid, -, hdeleted⟩ := hwrote.tables
  have hsecrets : db'.secrets = updateWhere (fun other => other.id = version.secretId) set.on
      db.secrets := congrArg (fun db => db.secrets) hbare
  refine ⟨set.on row, ?_, hlater.place, ?_, ?_⟩
  · rw [hsecrets]
    exact mem_updateWhere.mpr ⟨row, hrow, .inl ⟨decide_eq_true (hlater.id.trans hid.symm), rfl⟩⟩
  · rw [SecretSet.on, hdeleted]
    exact hactive
  · rw [SecretSet.on_id, hlater.id, Vault.append_self, List.getLast?_concat]

theorem Wrote.puts (hwrote : Wrote aead db vault before value metadata db')
    (h : Implements aead db vault) :
    Puts aead db vault (placeOf before) value db' (vault.append before.id value) := by
  refine puts_of_elsewhere h hwrote.implements (hwrote.grows h) (hwrote.elsewhere h)
    hwrote.exists_row fun row hrow hplace => ?_
  obtain ⟨found, hfound, hlater, -⟩ := hwrote.active
  refine vault.append_of_ne (fun heq => hplace ?_) value
  rw [← hlater.place, h.unique hrow hfound (heq.trans hlater.id.symm)]

variable {projectId environmentId : Uuid} {key : JsString} {db₁ : Db wrapper}

theorem Prepared.placeOf (h : Prepared projectId environmentId key before db db₁) :
    placeOf before = (projectId, environmentId, key) := by
  obtain ⟨rfl, rfl, rfl⟩ := h.place
  rfl

theorem Prepared.elsewhere (h : Prepared projectId environmentId key before db db₁)
    (himplements : Implements aead db vault) :
    SameElsewhere [(projectId, environmentId, key)] db db₁ := by
  rw [← h.placeOf]
  cases h with
  | recovered now hmem hdeleted => exact elsewhere_updateSecret himplements hmem _
  | inserted id notes now hkey hbefore hfresh => exact elsewhere_insertSecret before

/-- Before a creation its place has no value. -/
theorem Prepared.absent (h : Prepared projectId environmentId key before db db₁)
    (himplements : Implements aead db vault) :
    valuesOf db vault (projectId, environmentId, key) = none := by
  rw [← h.placeOf]
  refine valuesOf_eq_none fun row hrow hplace => ?_
  cases h with
  | recovered now hmem hdeleted =>
    rw [himplements.unique_place hrow hmem hplace]
    intro hactive
    simp [isRecoverable, hactive] at hdeleted
  | inserted id notes now hkey hbefore hfresh =>
    exact absurd (congrArg (fun place : Place => place.2) hplace) (hfresh row hrow).2

theorem Created.puts (h : Created aead db vault projectId environmentId key value metadata db')
    (himplements : Implements aead db vault) :
    valuesOf db vault (projectId, environmentId, key) = none ∧
      Puts aead db vault (projectId, environmentId, key) value db'
        (vault.append metadata.id value) := by
  obtain ⟨before, db₁, hprepared, hwrote⟩ := h
  have himplements₁ := hprepared.implements himplements
  have hputs := hwrote.puts himplements₁
  have helsewhere := hprepared.elsewhere himplements
  rw [hprepared.placeOf] at hputs
  refine ⟨hprepared.absent himplements, ?_⟩
  rw [hwrote.id]
  refine puts_of_elsewhere himplements hputs.implements (hprepared.grows.trans hputs.grows)
    (helsewhere.trans hputs.elsewhere) ?_ fun row hrow hplace => ?_
  · rw [← hprepared.placeOf]
    exact hwrote.exists_row
  · obtain ⟨found, hfound, hlater, -⟩ := hwrote.active
    refine vault.append_of_ne (fun heq => hplace ?_) value
    have hrow₁ := (helsewhere.secrets row (by simpa using hplace)).mpr hrow
    rw [himplements₁.unique hrow₁ hfound (heq.trans hlater.id.symm), hlater.place,
      hprepared.placeOf]

end

/-! ## Keys -/

/-- The key of an input is kept as its trimmed text in well-formed units. -/
theorem eq_of_isKeyOf {input : SetSecretInput} {key : JsString} (h : IsKeyOf input key) :
    key = toWellFormed (trim input.key) := by
  obtain ⟨normalized, hnormalized, hstored⟩ := h
  have hkey : key = toWellFormed normalized := by
    unfold storedText at hstored
    split at hstored
    · cases hstored
    · exact (Except.ok.inj hstored).symm
  simp only [validateSecretKey] at hnormalized
  split at hnormalized
  · cases hnormalized
  · split at hnormalized
    · cases hnormalized
    · rw [hkey, ← Except.ok.inj hnormalized]

theorem eq_trim_of_validate {text normalized : JsString} {allowNonConforming : Bool}
    (h : validateSecretKey text allowNonConforming = .ok normalized) : normalized = trim text := by
  simp only [validateSecretKey] at h
  split at h
  · cases h
  · split at h
    · cases h
    · exact (Except.ok.inj h).symm

/-! ## Several puts -/

/-- The tables after values have been put at places, one after another. -/
structure LaidOver (aead : Aead) (db : Db wrapper) (vault : Vault)
    (entries : List (Place × JsString)) (db' : Db wrapper) (vault' : Vault) : Prop where
  implements : Implements aead db' vault'
  grows : Grows db db'
  values : valuesOf db' vault' = overlay (valuesOf db vault) entries
  elsewhere : SameElsewhere (entries.map Prod.fst) db db'

theorem LaidOver.start (h : Implements aead db vault) : LaidOver aead db vault [] db vault :=
  ⟨h, .refl db, rfl, .refl _ db⟩

theorem LaidOver.put {entries : List (Place × JsString)} {db₁ db' : Db wrapper}
    {vault₁ vault' : Vault} {place : Place} {value : JsString}
    (h : LaidOver aead db vault entries db₁ vault₁)
    (hputs : Puts aead db₁ vault₁ place value db' vault') :
    LaidOver aead db vault (entries ++ [(place, value)]) db' vault' where
  implements := hputs.implements
  grows := h.grows.trans hputs.grows
  values := by rw [hputs.values, h.values, overlay_concat]
  elsewhere := by
    rw [List.map_append, List.map_singleton]
    exact (h.elsewhere.mono (List.subset_append_left _ _)).trans
      (hputs.elsewhere.mono (List.subset_append_right _ _))

/-- What leaves all but the tags, the events and the record of decryptions leaves the values. -/
theorem LaidOver.of_bare {entries : List (Place × JsString)} {db₁ db' : Db wrapper}
    {vault₁ : Vault} (h : LaidOver aead db vault entries db₁ vault₁) (hbare : bare db' = bare db₁)
    (htags : db'.secretTags = db₁.secretTags) : LaidOver aead db vault entries db' vault₁ where
  implements := h.implements.of_bare hbare
  grows := h.grows.trans (grows_of_bare hbare)
  values := by
    have hsecrets : db'.secrets = db₁.secrets := congrArg (fun db => db.secrets) hbare
    rw [← h.values]
    funext place
    rw [valuesOf, valuesOf, hsecrets]
  elsewhere := h.elsewhere.of_bare hbare fun row _ _ => by rw [Db.tagsOf, Db.tagsOf, htags]

/-! ## Commits -/

/-- A condition that a call meets, however the others run beside it, is met by its commit. -/
theorem serially_of_commit {config : Config} {base : Db wrapper}
    {s : System (Db wrapper) Lock Write ServiceError Call Answer}
    (hreach : Reachable store (program config) base s) (hempty : base.secrets = []) {i : Nat}
    {e : Commit wrapper} (he : s.log[i]? = some e) {Q : Answer → List Lock → Db wrapper → Prop}
    (h : Serially store Sees (program config e.call) [] (databaseAfter store base s.log i) Q) :
    ∃ held, Q e.answer held (databaseAfter store base s.log (i + 1)) := by
  obtain ⟨hbefore, hafter⟩ := databaseAfter_of_commit hreach he
  obtain ⟨hlt, hget⟩ := List.getElem?_eq_some_iff.mp he
  have hsplit : s.log = s.log.take i ++ e :: s.log.drop (i + 1) := by
    rw [← hget, ← List.drop_eq_getElem_cons hlt, List.take_append_drop]
  obtain ⟨times, htimed, hlast⟩ := timed_of_reachable hreach hsplit
  rw [List.length_take_of_le hlt.le] at hlast
  obtain ⟨stmts, hran⟩ := (serial_of_reachable hreach).log e (List.mem_of_getElem? he)
  rw [hbefore] at h
  rw [hafter]
  refine serially_of_ran hran (fun ws m hm hparts => sees_of_moment ?_ hparts) h
  rw [htimed.found] at hm
  obtain ⟨n, hn, rfl⟩ := List.mem_map.mp hm
  rw [← hbefore]
  exact (history_of_commits hreach hempty i).2 n (hlast n hn)

end Himitsu.Secrets
