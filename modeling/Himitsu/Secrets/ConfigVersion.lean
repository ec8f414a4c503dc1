import Himitsu.Protection.Contents
import Himitsu.Services.EnvironmentIds

/-!
# What the configuration version of an environment stands for

* `Core`, `coresOf` — what decides which values of an environment are read: the ids, keys, versions
  and deletions of its secrets.
* `applyAll_environment` — writes that leave the configuration version leave these, but for secrets
  that they insert.
* `Versioned` — every secret has a stored version of its number.
* `sealedEntries` — the keys, ciphertexts and contexts of an environment.
* `configContract` — from a commit to the later ones, the configuration version does not fall, and
  while it stays the sealed entries stay and can be read.

Principal result: `keeps_configContract` — every commit keeps the contract.
-/

set_option autoImplicit false

namespace Himitsu.Secrets

open JsString Crypto Database Services Transactions Interleaving Protection

variable {wrapper : KeyWrapper}

/-! ## Cores -/

structure Core where
  id : Uuid
  key : JsString
  currentVersion : Nat
  deletedAt : Option Timestamp

def coreOf (row : Secret) : Core := ⟨row.id, row.key, row.currentVersion, row.deletedAt⟩

def isIn (projectId environmentId : Uuid) (row : Secret) : Bool :=
  row.projectId = projectId && row.environmentId = environmentId

def coresOf (db : Db wrapper) (projectId environmentId : Uuid) : List Core :=
  (db.secrets.filter (isIn projectId environmentId)).map coreOf

def insertedCore (projectId environmentId : Uuid) : Write → Option Core
  | .insertSecret row => if isIn projectId environmentId row then some (coreOf row) else none
  | _ => none

theorem insertedCore_insertSecret (projectId environmentId : Uuid) (row : Secret) :
    insertedCore projectId environmentId (.insertSecret row) =
      if isIn projectId environmentId row then some (coreOf row) else none :=
  rfl

theorem map_filter_updateWhere {α β : Type} {p q : α → Bool} {f : α → α} {g : α → β}
    {rows : List α} (h : ∀ row ∈ rows, p row = true →
      q (f row) = q row ∧ (q row = true → g (f row) = g row)) :
    ((updateWhere p f rows).filter q).map g = (rows.filter q).map g := by
  induction rows with
  | nil => rfl
  | cons row rows ih =>
    have hrest := ih fun other hother => h other (List.mem_cons_of_mem _ hother)
    rw [updateWhere] at hrest ⊢
    rw [List.map_cons]
    have hrow : q (if p row then f row else row) = q row ∧
        (q row = true → g (if p row then f row else row) = g row) := by
      split
      · exact h row (List.mem_cons_self ..) ‹_›
      · exact ⟨rfl, fun _ => rfl⟩
    by_cases hq : q row = true
    · rw [List.filter_cons_of_pos (hrow.1.trans hq), List.filter_cons_of_pos hq, List.map_cons,
        List.map_cons, hrest, hrow.2 hq]
    · rw [List.filter_cons_of_neg (by rwa [hrow.1]), List.filter_cons_of_neg hq, hrest]

/-- The same environment, no earlier. -/
structure Follows (row row' : Database.Environment) : Prop where
  id : row'.id = row.id
  projectId : row'.projectId = row.projectId
  configVersion : row.configVersion ≤ row'.configVersion

theorem Follows.refl (row : Database.Environment) : Follows row row := ⟨rfl, rfl, Nat.le_refl _⟩

theorem Follows.trans {row row' row'' : Database.Environment} (h : Follows row row')
    (h' : Follows row' row'') : Follows row row'' :=
  ⟨h'.id.trans h.id, h'.projectId.trans h.projectId, h.configVersion.trans h'.configVersion⟩

/-- What a write leaves of an environment whose configuration version it leaves. -/
theorem apply_environment (w : Write) {db : Db wrapper} {row : Database.Environment}
    (hrow : row ∈ db.environments) :
    ∃ row' ∈ (apply w db).environments, Follows row row' ∧
      (row'.configVersion = row.configVersion →
        coresOf (apply w db) row.projectId row.id = coresOf db row.projectId row.id ++
          (insertedCore row.projectId row.id w).toList) := by
  cases w with
  | insertSecret inserted =>
    refine ⟨row, hrow, .refl row, fun _ => ?_⟩
    rw [coresOf, coresOf, apply, List.filter_append, List.map_append, insertedCore_insertSecret]
    congr 1
    split
    · rename_i hin
      rw [List.filter_cons_of_pos hin]
      rfl
    · rename_i hin
      rw [List.filter_cons_of_neg hin]
      rfl
  | updateSecret id set =>
    refine ⟨bumpEnvironment (bumped db id set) row, List.mem_map_of_mem hrow,
      ⟨rfl, rfl, Nat.le_add_right _ _⟩, fun hsame => ?_⟩
    have hnone := List.countP_eq_zero.mp (Nat.add_eq_left.mp hsame)
    refine Eq.trans ?_ (List.append_nil _).symm
    refine map_filter_updateWhere fun secret hsecret hid => ⟨rfl, fun hin => ?_⟩
    have hleft : set.bumps secret = false := by
      by_contra hbumps
      have hbumped : secret ∈ bumped db id set :=
        List.mem_filter.mpr ⟨hsecret, by simp [of_decide_eq_true hid, hbumps]⟩
      exact hnone secret hbumped hin
    simp only [SecretSet.bumps, ne_eq, decide_not, Bool.or_eq_false_iff, Bool.not_eq_false',
      decide_eq_true_eq] at hleft
    simp only [coreOf, hleft.1, hleft.2]
    rfl
  | updateEnvironment id set =>
    refine ⟨if row.id = id then set.on row else row, ?_, ?_, fun _ => (List.append_nil _).symm⟩
    · exact List.mem_map.mpr ⟨row, hrow, by simp⟩
    · split
      · exact ⟨rfl, rfl, Nat.le_refl _⟩
      · exact .refl row
  | insertEnvironment inserted =>
    exact ⟨row, List.mem_append_left _ hrow, .refl row, fun _ => (List.append_nil _).symm⟩
  | _ => exact ⟨row, hrow, .refl row, fun _ => (List.append_nil _).symm⟩

/-- The same for a list of writes, and before each of them. -/
theorem applyAll_environment (ws : List Write) {db : Db wrapper} {row : Database.Environment}
    (hrow : row ∈ db.environments) :
    ∃ row' ∈ (store.applyAll ws db).environments, Follows row row' ∧
      (row'.configVersion = row.configVersion → ∀ before after, ws = before ++ after →
        coresOf (store.applyAll before db) row.projectId row.id =
          coresOf db row.projectId row.id ++
            before.filterMap (insertedCore row.projectId row.id)) := by
  induction ws generalizing db row with
  | nil =>
    refine ⟨row, hrow, .refl row, fun _ before after hsplit => ?_⟩
    obtain ⟨rfl, -⟩ := List.append_eq_nil_iff.mp hsplit.symm
    exact (List.append_nil _).symm
  | cons w ws ih =>
    obtain ⟨next, hnext, hstep, hcores⟩ := apply_environment w hrow
    obtain ⟨row', hrow', hfollows, hrest⟩ := ih hnext
    refine ⟨row', hrow', hstep.trans hfollows, fun hsame before after hsplit => ?_⟩
    have hstepped : next.configVersion = row.configVersion :=
      Nat.le_antisymm (hsame ▸ hfollows.configVersion) hstep.configVersion
    cases before with
    | nil => exact (List.append_nil _).symm
    | cons first before =>
      obtain ⟨rfl, htail⟩ := List.cons.inj hsplit
      have hcoresRest := hrest (hsame.trans hstepped.symm) before after htail
      rw [hstep.id, hstep.projectId] at hcoresRest
      rw [Store.applyAll_cons]
      refine hcoresRest.trans ?_
      rw [hcores hstepped, List.append_assoc]
      cases hinserted : insertedCore row.projectId row.id w with
      | none => rw [List.filterMap_cons_none hinserted, Option.toList_none, List.nil_append]
      | some core =>
        rw [List.filterMap_cons_some hinserted, Option.toList_some, List.singleton_append]

theorem applyAll_append_singleton (ws : List Write) (w : Write) (db : Db wrapper) :
    store.applyAll (ws ++ [w]) db = apply w (store.applyAll ws db) := by
  rw [Store.applyAll_append]
  rfl

/-- A new secret gets its first version by an update, which the environment would have noticed. -/
theorem insertedCore_none {ws : List Write} {db : Db wrapper} {projectId environmentId : Uuid}
    (hnumbered : Numbered ws)
    (hcores : ∀ before after, ws = before ++ after →
      coresOf (store.applyAll before db) projectId environmentId =
        coresOf db projectId environmentId ++
          before.filterMap (insertedCore projectId environmentId)) :
    ws.filterMap (insertedCore projectId environmentId) = [] := by
  refine List.filterMap_eq_nil_iff.mpr fun w hw => ?_
  cases w with
  | insertSecret row =>
    rw [insertedCore_insertSecret]
    split
    · rename_i hin
      exfalso
      obtain ⟨earlier, later, rfl⟩ := List.append_of_mem hw
      obtain ⟨set, hset, hversion⟩ := hnumbered.creation _ _ _ rfl
      obtain ⟨between, rest, rfl⟩ := List.append_of_mem hset
      have hafter := hcores (earlier ++ .insertSecret row :: between ++ [.updateSecret row.id set])
        rest (by simp)
      have hmem : coreOf row ∈ coresOf (store.applyAll
          (earlier ++ .insertSecret row :: between ++ [.updateSecret row.id set]) db)
          projectId environmentId := by
        rw [hafter]
        refine List.mem_append_right _ (List.mem_filterMap.mpr ⟨.insertSecret row, by simp, ?_⟩)
        exact if_pos hin
      rw [applyAll_append_singleton] at hmem
      obtain ⟨updated, hupdated, hcore⟩ := List.mem_map.mp hmem
      obtain ⟨old, -, ⟨-, rfl⟩ | ⟨hother, rfl⟩⟩ :=
        mem_updateWhere.mp (List.mem_filter.mp hupdated).1
      · have hnumber := congrArg Core.currentVersion hcore
        simp only [coreOf, SecretSet.on, hversion, Option.getD_some] at hnumber
        omega
      · exact of_decide_eq_false hother (congrArg Core.id hcore)
    · rfl
  | _ => rfl

/-! ## Stored versions -/

def insertedVersion : Write → Option SecretVersion
  | .insertSecretVersion row => some row
  | _ => none

theorem secretVersions_apply (w : Write) (db : Db wrapper) :
    (apply w db).secretVersions = db.secretVersions ++ (insertedVersion w).toList := by
  cases w with
  | insertSecretVersion row => rfl
  | _ => exact (List.append_nil _).symm

theorem secretVersions_applyAll (ws : List Write) (db : Db wrapper) :
    (store.applyAll ws db).secretVersions = db.secretVersions ++ ws.filterMap insertedVersion := by
  induction ws generalizing db with
  | nil => exact (List.append_nil _).symm
  | cons w ws ih =>
    rw [Store.applyAll_cons, ih]
    change (apply w db).secretVersions ++ _ = _
    rw [secretVersions_apply, List.append_assoc]
    cases hinserted : insertedVersion w with
    | none => rw [List.filterMap_cons_none hinserted, Option.toList_none, List.nil_append]
    | some row => rw [List.filterMap_cons_some hinserted, Option.toList_some, List.singleton_append]

def HasVersion (db : Db wrapper) (id : Uuid) (version : Nat) : Prop :=
  ∃ row ∈ db.secretVersions, row.secretId = id ∧ row.version = version

def Versioned (db : Db wrapper) : Prop := ∀ row ∈ db.secrets, HasVersion db row.id row.currentVersion

theorem HasVersion.apply {db : Db wrapper} {id : Uuid} {version : Nat}
    (h : HasVersion db id version) (w : Write) : HasVersion (apply w db) id version := by
  obtain ⟨row, hrow, hid⟩ := h
  refine ⟨row, ?_, hid⟩
  rw [secretVersions_apply]
  exact List.mem_append_left _ hrow

/-- A secret has its version, or some later write gives it one. -/
def Provided (db : Db wrapper) (later : List Write) (row : Secret) : Prop :=
  HasVersion db row.id row.currentVersion ∨
    ∃ set, .updateSecret row.id set ∈ later ∧ set.currentVersion.isSome

def updatedSecret : Write → Option Uuid
  | .updateSecret id _ => some id
  | _ => none

/-- A write that does not update a secret provides what it leaves. -/
theorem Provided.apply {db : Db wrapper} {w : Write} {later : List Write} {row : Secret}
    (h : Provided db (w :: later) row) (hw : updatedSecret w ≠ some row.id) :
    Provided (Database.apply w db) later row := by
  rcases h with h | ⟨set, hset, hsome⟩
  · exact .inl (h.apply w)
  · rcases List.mem_cons.mp hset with rfl | hset
    · exact absurd rfl hw
    · exact .inr ⟨set, hset, hsome⟩

theorem provided_of_numbered {ws : List Write} {db : Db wrapper} (hnumbered : Numbered ws)
    (h : Versioned db) (before after : List Write) (hsplit : ws = before ++ after) :
    ∀ row ∈ (store.applyAll before db).secrets, Provided (store.applyAll before db) after row := by
  induction before using List.reverseRecOn generalizing after with
  | nil => exact fun row hrow => .inl (h row hrow)
  | append_singleton before w ih =>
    rw [List.append_assoc, List.singleton_append] at hsplit
    have hbefore := ih (w :: after) hsplit
    rw [applyAll_append_singleton]
    generalize hdb : store.applyAll before db = found at hbefore
    intro row hrow
    cases w with
    | insertSecret inserted =>
      rcases List.mem_append.mp hrow with hrow | hrow
      · exact (hbefore row hrow).apply (Option.some_ne_none _).symm
      · rw [List.mem_singleton.mp hrow]
        obtain ⟨set, hset, hversion⟩ := hnumbered.creation _ _ _ hsplit
        exact .inr ⟨set, hset, by rw [hversion]; rfl⟩
    | updateSecret id set =>
      obtain ⟨old, hold, ⟨hid, rfl⟩ | ⟨hother, rfl⟩⟩ := mem_updateWhere.mp hrow
      · have hid := of_decide_eq_true hid
        cases hversion : set.currentVersion with
        | some version =>
          obtain ⟨-, stored, hstored, hsecret, hnumber⟩ :=
            hnumbered.update _ _ _ _ _ hsplit hversion
          refine .inl ⟨stored, ?_, ?_, ?_⟩
          · rw [secretVersions_apply, ← hdb, secretVersions_applyAll]
            exact List.mem_append_left _ (List.mem_append_right _
              (List.mem_filterMap.mpr ⟨_, hstored, rfl⟩))
          · rw [SecretSet.on_id, hid, hsecret]
          · simp only [SecretSet.on, hversion, Option.getD_some, hnumber]
        | none =>
          have hsame : (set.on old).currentVersion = old.currentVersion := by
            simp only [SecretSet.on, hversion, Option.getD_none]
          rcases hbefore old hold with hstored | ⟨set', hset', hsome⟩
          · refine .inl ?_
            rw [SecretSet.on_id, hsame]
            exact hstored.apply _
          · rcases List.mem_cons.mp hset' with heq | hset'
            · cases heq
              rw [hversion] at hsome
              cases hsome
            · exact .inr ⟨set', hset', hsome⟩
      · exact (hbefore row hold).apply fun heq =>
          of_decide_eq_false hother (Option.some.inj heq).symm
    | _ => exact (hbefore row hrow).apply (Option.some_ne_none _).symm

theorem versioned_applyAll {ws : List Write} {db : Db wrapper} (hnumbered : Numbered ws)
    (h : Versioned db) : Versioned (store.applyAll ws db) := by
  intro row hrow
  rcases provided_of_numbered hnumbered h ws [] (List.append_nil _).symm row hrow with
    hstored | ⟨set, hset, -⟩
  · exact hstored
  · cases hset

/-! ## Sealed entries -/

/-- An entry of a configuration before its value is decrypted. -/
structure SealedEntry where
  key : JsString
  encrypted : EncryptedSecretValue
  context : SecretEncryptionContext

def sealedOf (row : SecretValueRow) : SealedEntry :=
  ⟨row.secret.key, row.encrypted, contextOf row.orgId row.secret row.secret.currentVersion⟩

variable (platform : Platform)

def sealedEntries (db : Db wrapper) (projectId environmentId : Uuid) : List SealedEntry :=
  (activeValues platform db projectId environmentId).map sealedOf

def coreBefore (left right : Core) : Bool :=
  if left.key = right.key then left.id.value ≤ right.id.value
  else platform.collate left.key right.key

def findVersion (versions : List SecretVersion) (core : Core) : Option SecretVersion :=
  versions.find? fun row => row.secretId = core.id && row.version = core.currentVersion

def sealCore (orgId projectId environmentId : Uuid) (versions : List SecretVersion)
    (core : Core) : Option SealedEntry :=
  (findVersion versions core).map fun row =>
    ⟨core.key, encryptedOf row, ⟨orgId.text, projectId.text, environmentId.text, core.id.text,
      core.currentVersion⟩⟩

def activeCores (db : Db wrapper) (projectId environmentId : Uuid) : List Core :=
  orderBy (coreBefore platform)
    ((coresOf db projectId environmentId).filter fun core => core.deletedAt.isNone)

theorem map_orderBy {α β : Type} {le : α → α → Bool} {le' : β → β → Bool} {f : α → β}
    (h : ∀ a b, le a b = le' (f a) (f b)) (rows : List α) :
    (orderBy le rows).map f = orderBy le' (rows.map f) :=
  List.map_insertionSort _ _ f rows fun a _ b _ => by rw [h]

theorem map_coreOf_activeSecrets (db : Db wrapper) (projectId environmentId : Uuid) :
    (activeSecrets platform db projectId environmentId).map coreOf =
      activeCores platform db projectId environmentId := by
  have hbefore : ∀ left right, keyBefore platform left right =
      coreBefore platform (coreOf left) (coreOf right) := fun _ _ => rfl
  rw [activeSecrets, activeCores, map_orderBy hbefore, coresOf, List.filter_map,
    List.filter_filter]
  congr 2
  refine List.filter_congr fun row _ => ?_
  rw [Bool.and_comm]
  rfl

/-- **The cores of an environment decide its sealed entries.** -/
theorem sealedEntries_eq (db : Db wrapper) (projectId environmentId : Uuid) :
    sealedEntries platform db projectId environmentId =
      (activeCores platform db projectId environmentId).filterMap
        (sealCore db.orgId projectId environmentId db.secretVersions) := by
  rw [sealedEntries, activeValues, List.map_filterMap, ← map_coreOf_activeSecrets,
    List.filterMap_map]
  refine List.filterMap_congr fun row hrow => ?_
  have hin := (List.mem_filter.mp (mem_orderBy.mp hrow)).2
  simp only [Bool.and_eq_true, decide_eq_true_eq] at hin
  rw [selectValue, Option.map_map, Function.comp, sealCore, findVersion, ← hin.1.1, ← hin.1.2]
  rfl

variable {platform}

/-- The entries stay while the cores do: new versions are no current ones. -/
theorem sealedEntries_congr {db db' : Db wrapper} {projectId environmentId : Uuid}
    {versions : List SecretVersion} (horg : db'.orgId = db.orgId)
    (hversions : db'.secretVersions = db.secretVersions ++ versions) (h : Versioned db)
    (hcores : coresOf db' projectId environmentId = coresOf db projectId environmentId) :
    sealedEntries platform db' projectId environmentId =
      sealedEntries platform db projectId environmentId := by
  rw [sealedEntries_eq, sealedEntries_eq, activeCores, activeCores, hcores, horg, hversions]
  refine List.filterMap_congr fun core hcore => ?_
  have hmem := (List.mem_filter.mp (mem_orderBy.mp hcore)).1
  obtain ⟨row, hrow, rfl⟩ := List.mem_map.mp hmem
  obtain ⟨stored, hstored, hid, hnumber⟩ := h row (List.mem_filter.mp hrow).1
  have hfound : (findVersion db.secretVersions (coreOf row)).isSome = true :=
    List.find?_isSome.mpr ⟨stored, hstored, by simp [coreOf, hid, hnumber]⟩
  obtain ⟨found, hfound⟩ := Option.isSome_iff_exists.mp hfound
  have hlater : findVersion (db.secretVersions ++ versions) (coreOf row) = some found := by
    rw [findVersion, List.find?_append]
    exact (congrArg (Option.or · _) hfound).trans Option.some_or
  rw [sealCore, sealCore, hfound, hlater]

/-! ## The commits -/

theorem orgId_apply (w : Write) (db : Db wrapper) : (apply w db).orgId = db.orgId := by
  cases w <;> rfl

theorem extends_apply (w : Write) (db : Db wrapper) : db.keys.Extends (apply w db).keys := by
  cases w with
  | activateKey dataKey nonce => exact fun _ _ _ hkey => db.keys.keyOf_activate hkey _ _ _
  | _ => exact .refl _

theorem orgId_applyAll (ws : List Write) (db : Db wrapper) :
    (store.applyAll ws db).orgId = db.orgId := by
  induction ws generalizing db with
  | nil => rfl
  | cons w ws ih =>
    rw [Store.applyAll_cons, ih]
    exact orgId_apply w db

theorem extends_applyAll (ws : List Write) (db : Db wrapper) :
    db.keys.Extends (store.applyAll ws db).keys := by
  induction ws generalizing db with
  | nil => exact .refl _
  | cons w ws ih =>
    rw [Store.applyAll_cons]
    exact (extends_apply w db).trans (ih _)

/-- What holds of every committed database. -/
structure ConfigInvariant (db : Db wrapper) : Prop where
  distinct : (environmentIds db).Nodup
  versioned : Versioned db

variable (platform)

/-- What holds of a committed database and a later one. -/
structure ConfigRely (db db' : Db wrapper) : Prop where
  values : KeepsValues platform.aead db.keys db'.keys
  environments : ∀ row ∈ db.environments, ∃ row' ∈ db'.environments, Follows row row' ∧
    (row'.configVersion = row.configVersion →
      sealedEntries platform db' row.projectId row.id =
        sealedEntries platform db row.projectId row.id)

def configContract (wrapper : KeyWrapper) : Contract (Db wrapper) where
  inv := ConfigInvariant
  rely := ConfigRely platform
  refl db := ⟨KeepsValues.refl platform.aead db.keys, fun row hrow => ⟨row, hrow, .refl row, fun _ => rfl⟩⟩
  trans := by
    refine fun {db₁ db₂ db₃} h h' => ⟨h.values.trans h'.values, fun row hrow => ?_⟩
    obtain ⟨row', hrow', hfollows, hsealed⟩ := h.environments row hrow
    obtain ⟨row'', hrow'', hfollows', hsealed'⟩ := h'.environments row' hrow'
    refine ⟨row'', hrow'', hfollows.trans hfollows', fun hsame => ?_⟩
    have hmiddle : row'.configVersion = row.configVersion :=
      Nat.le_antisymm (hsame ▸ hfollows'.configVersion) hfollows.configVersion
    have hentries := hsealed' (hsame.trans hmiddle.symm)
    rw [hfollows.projectId, hfollows.id] at hentries
    exact hentries.trans (hsealed hmiddle)

/-- **Every commit keeps the contract.** -/
theorem keeps_configContract {config : Config} {e : Commit wrapper}
    {stmts : List (DbStatement wrapper)} (h : Ran store (program config) e stmts)
    (hinv : ConfigInvariant e.world.base) :
    ConfigInvariant (e.world.view store) ∧ ConfigRely platform e.world.base (e.world.view store) := by
  have hnumbered := numbered_of_call h.does
  refine ⟨⟨environmentIds_nodup (insertsFresh_of_call config) h hinv.distinct,
      versioned_applyAll hnumbered hinv.versioned⟩,
    .of_extends (extends_applyAll _ _), fun row hrow => ?_⟩
  obtain ⟨row', hrow', hfollows, hcores⟩ := applyAll_environment e.world.pending hrow
  refine ⟨row', hrow', hfollows, fun hsame => ?_⟩
  have hnone := insertedCore_none hnumbered (hcores hsame)
  have hall := hcores hsame e.world.pending [] (List.append_nil _).symm
  rw [hnone, List.append_nil] at hall
  exact sealedEntries_congr (orgId_applyAll ..) (secretVersions_applyAll ..) hinv.versioned hall

end Himitsu.Secrets
