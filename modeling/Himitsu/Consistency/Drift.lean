import Himitsu.Consistency.Analysis
import Himitsu.Library.RelatedLists

/-!
# Exactly the drift

What the analysis reports, said in terms of which environment holds which key.

* `Configuration` — the environments and the secret values of a project.
* `Drift` — something to report; `Occurs` says when it is there, `Describes` how a finding says it.
* `driftsOf` — the drifts of a configuration, in step with the findings of the loops.

Principal result: `analyzeConsistency_exact` — the findings are one for each drift that occurs,
whatever the order of environments and secrets; their order is that of the report where the
collation tells ids apart.
-/

set_option autoImplicit false

namespace Himitsu.Consistency

open JsString Sorting RelatedLists

structure Configuration where
  environments : List ConsistencyEnvironment
  secrets : List ConsistencySecretValue
  deriving DecidableEq, Repr

namespace Configuration

def Listed (c : Configuration) (environmentId : JsString) : Prop :=
  ∃ environment ∈ c.environments, environment.id = environmentId

def Active (c : Configuration) (secret : ConsistencySecretValue) : Prop :=
  secret ∈ c.secrets ∧ c.Listed secret.environmentId

/-- The environment has the key under some spelling. -/
def Holds (c : Configuration) (engine : Engine) (normalized environmentId : JsString) : Prop :=
  ∃ secret, c.Active secret ∧ secret.environmentId = environmentId ∧
    engine.toUpperCase secret.key = normalized

def Spelled (c : Configuration) (engine : Engine) (normalized key : JsString) : Prop :=
  ∃ secret, c.Active secret ∧ secret.key = key ∧ engine.toUpperCase key = normalized

def Uses (c : Configuration) (key environmentId : JsString) : Prop :=
  ∃ secret, c.Active secret ∧ secret.environmentId = environmentId ∧ secret.key = key

/-- No two secrets share both environment and key. -/
def Distinct (c : Configuration) : Prop :=
  (c.secrets.map fun secret => (secret.environmentId, secret.key)).Nodup

/-- The same environments and secrets, in another order. -/
structure Reordered (c c' : Configuration) : Prop where
  environments : c.environments.Perm c'.environments
  secrets : c.secrets.Perm c'.secrets

variable (c : Configuration)

def analyze (engine : Engine) (projectId : JsString) : List BaseFinding :=
  analyzeConsistency engine projectId c.environments c.secrets

def environmentIds : List JsString := sortedSet (c.environments.map (·.id))

def active : List ConsistencySecretValue := activeSecrets c.environments c.secrets

def group (engine : Engine) (normalized : JsString) : List ConsistencySecretValue :=
  c.active.filter (engine.toUpperCase ·.key = normalized)

/-! ## The lists of the loops -/

theorem listing_sortedSet (texts : List JsString) : Listing (sortedSet texts) (· ∈ texts) :=
  listing_insertionSort (nodup_eraseDups texts) fun _ => List.mem_eraseDups

theorem listing_environmentIds : Listing c.environmentIds c.Listed :=
  (listing_sortedSet _).congr fun _ => List.mem_map

@[simp] theorem mem_active {secret : ConsistencySecretValue} :
    secret ∈ c.active ↔ c.Active secret := by
  unfold active activeSecrets
  rw [List.mem_filter, List.contains_iff_mem]
  exact and_congr_right fun _ => c.listing_environmentIds.mem _

@[simp] theorem mem_group {engine : Engine} {normalized : JsString}
    {secret : ConsistencySecretValue} :
    secret ∈ c.group engine normalized ↔
      c.Active secret ∧ engine.toUpperCase secret.key = normalized := by
  simp [group]

variable (engine : Engine) (normalized : JsString)

def spellings : List JsString := sortedSet ((c.group engine normalized).map (·.key))

def present : List JsString := sortedSet ((c.group engine normalized).map (·.environmentId))

/-- The environments without the key. -/
def missing : List JsString :=
  c.environmentIds.filter (!(c.present engine normalized).contains ·)

theorem listing_spellings :
    Listing (c.spellings engine normalized) (c.Spelled engine normalized) := by
  refine (listing_sortedSet _).congr fun key => ?_
  rw [List.mem_map]
  constructor
  · rintro ⟨secret, hsecret, rfl⟩
    obtain ⟨hactive, hnormalized⟩ := c.mem_group.mp hsecret
    exact ⟨secret, hactive, rfl, hnormalized⟩
  · rintro ⟨secret, hactive, rfl, hnormalized⟩
    exact ⟨secret, c.mem_group.mpr ⟨hactive, hnormalized⟩, rfl⟩

theorem listing_present :
    Listing (c.present engine normalized) (c.Holds engine normalized) := by
  refine (listing_sortedSet _).congr fun environmentId => ?_
  rw [List.mem_map]
  constructor
  · rintro ⟨secret, hsecret, rfl⟩
    obtain ⟨hactive, hnormalized⟩ := c.mem_group.mp hsecret
    exact ⟨secret, hactive, rfl, hnormalized⟩
  · rintro ⟨secret, hactive, rfl, hnormalized⟩
    exact ⟨secret, c.mem_group.mpr ⟨hactive, hnormalized⟩, rfl⟩

theorem listing_missing :
    Listing (c.missing engine normalized) fun environmentId =>
      c.Listed environmentId ∧ ¬ c.Holds engine normalized environmentId := by
  refine (c.listing_environmentIds.filter _).congr fun environmentId => and_congr_right fun _ => ?_
  rw [Bool.not_eq_true', ← Bool.not_eq_true, List.contains_iff_mem,
    (c.listing_present engine normalized).mem]

theorem group_ne_nil : c.group engine normalized ≠ [] ↔ ∃ key, c.Spelled engine normalized key := by
  constructor
  · intro hne
    obtain ⟨secret, hsecret⟩ := List.exists_mem_of_ne_nil _ hne
    obtain ⟨hactive, hnormalized⟩ := c.mem_group.mp hsecret
    exact ⟨secret.key, secret, hactive, rfl, hnormalized⟩
  · rintro ⟨key, secret, hactive, rfl, hnormalized⟩ hnil
    have hmem := c.mem_group.mpr ⟨hactive, hnormalized⟩
    rw [hnil] at hmem
    cases hmem

theorem holds_of_spelled {key : JsString} (h : c.Spelled engine normalized key) :
    ∃ environmentId, c.Holds engine normalized environmentId := by
  obtain ⟨secret, hactive, rfl, hnormalized⟩ := h
  exact ⟨secret.environmentId, secret, hactive, rfl, hnormalized⟩

theorem listing_affected (h : c.Distinct) {normalized key : JsString}
    (hkey : engine.toUpperCase key = normalized) :
    (((c.group engine normalized).filter (·.key = key)).map (·.environmentId)).Nodup ∧
      ∀ environmentId,
        environmentId ∈ ((c.group engine normalized).filter (·.key = key)).map (·.environmentId) ↔
          c.Uses key environmentId := by
  constructor
  · have hsub : ((c.group engine normalized).filter (·.key = key)).Sublist c.secrets :=
      (List.filter_sublist.trans List.filter_sublist).trans List.filter_sublist
    have hpairs := h.sublist (hsub.map _)
    rw [List.nodup_map_iff_inj_on ((List.Nodup.of_map _ h).sublist hsub)] at hpairs ⊢
    intro secret hsecret other hother heq
    refine hpairs secret hsecret other hother (Prod.ext heq ?_)
    have hs := (List.mem_filter.mp hsecret).2
    have ho := (List.mem_filter.mp hother).2
    simp only [decide_eq_true_eq] at hs ho
    rw [hs, ho]
  · intro environmentId
    simp only [List.mem_map, List.mem_filter, mem_group, decide_eq_true_eq]
    constructor
    · rintro ⟨secret, ⟨⟨hactive, -⟩, rfl⟩, rfl⟩
      exact ⟨secret, hactive, rfl, rfl⟩
    · rintro ⟨secret, hactive, rfl, rfl⟩
      exact ⟨secret, ⟨⟨hactive, hkey⟩, rfl⟩, rfl⟩

/-! ## What is reported -/

/-- The findings of one group. -/
def findingsOf (projectId : JsString) : List BaseFinding :=
  keyFindings engine projectId c.environmentIds normalized (c.group engine normalized)

theorem mem_groupBy_active {engine : Engine} {normalized : JsString}
    {secrets : List ConsistencySecretValue} :
    (normalized, secrets) ∈ groupBy (fun secret => engine.toUpperCase secret.key) c.active ↔
      secrets = c.group engine normalized ∧ ∃ key, c.Spelled engine normalized key := by
  rw [mem_groupBy, ← group_ne_nil]
  constructor
  · rintro ⟨rfl, hne⟩
    exact ⟨rfl, hne⟩
  · rintro ⟨rfl, hne⟩
    exact ⟨rfl, hne⟩

/-- A finding comes from a group or from a secret. -/
theorem mem_analyze {engine : Engine} {projectId : JsString} {finding : BaseFinding} :
    finding ∈ c.analyze engine projectId ↔
      (∃ normalized, (∃ key, c.Spelled engine normalized key) ∧
        finding ∈ c.findingsOf engine normalized projectId) ∨
      ∃ secret, c.Active secret ∧ finding ∈ valueFindings engine projectId secret := by
  unfold analyze analyzeConsistency
  rw [Comparator.mem_sort, List.mem_append, List.mem_flatMap, List.mem_flatMap]
  refine or_congr ⟨?_, ?_⟩ (exists_congr fun secret => and_congr_left fun _ => c.mem_active)
  · rintro ⟨⟨normalized, secrets⟩, hentry, hfinding⟩
    obtain ⟨rfl, hspelled⟩ := c.mem_groupBy_active.mp (Comparator.mem_sort.mp hentry)
    exact ⟨normalized, hspelled, hfinding⟩
  · rintro ⟨normalized, hspelled, hfinding⟩
    exact ⟨(normalized, c.group engine normalized),
      Comparator.mem_sort.mpr (c.mem_groupBy_active.mpr ⟨rfl, hspelled⟩), hfinding⟩

end Configuration

/-! ## Drift -/

inductive Drift where
  | missingKey (normalized : JsString)
  | caseDuplicate (normalized : JsString)
  | namingViolation (key : JsString)
  | emptyValue (secret : ConsistencySecretValue)
  | placeholderValue (secret : ConsistencySecretValue)
  deriving DecidableEq, Repr

def Drift.Occurs (engine : Engine) (c : Configuration) : Drift → Prop
  | .missingKey normalized =>
    (∃ id, c.Holds engine normalized id) ∧ ∃ id, c.Listed id ∧ ¬ c.Holds engine normalized id
  | .caseDuplicate normalized =>
    ∃ key other, key ≠ other ∧ c.Spelled engine normalized key ∧ c.Spelled engine normalized other
  | .namingViolation key => (∃ id, c.Uses key id) ∧ isConventionalKey key = false
  | .emptyValue secret => c.Active secret ∧ trim secret.value = []
  | .placeholderValue secret =>
    c.Active secret ∧ trim secret.value ≠ [] ∧ isPlaceholder (trim secret.value) = true

/-- A finding with the given fields, its lists being those of what satisfies the predicates. -/
structure Reports (engine : Engine) (projectId : JsString) (type : FindingType)
    (severity : FindingSeverity) (key : JsString) (keys affected missing : JsString → Prop)
    (finding : BaseFinding) : Prop where
  type_eq : finding.type = type
  severity_eq : finding.severity = severity
  key_eq : finding.key = key
  keys : Listing finding.keys keys
  affected : Listing finding.environmentIds affected
  missing : Listing finding.missingEnvironmentIds missing
  id_eq : finding.id =
    findingId engine projectId type (engine.toUpperCase key) finding.environmentIds finding.keys

def Drift.Describes (engine : Engine) (projectId : JsString) (c : Configuration) :
    Drift → BaseFinding → Prop
  | .missingKey normalized =>
    Reports engine projectId .missingKey .error normalized (c.Spelled engine normalized)
      (c.Holds engine normalized) fun id => c.Listed id ∧ ¬ c.Holds engine normalized id
  | .caseDuplicate normalized =>
    Reports engine projectId .caseDuplicate .error normalized (c.Spelled engine normalized)
      (c.Holds engine normalized) fun _ => False
  | .namingViolation key =>
    Reports engine projectId .namingViolation .warning key (· = key) (c.Uses key) fun _ => False
  | .emptyValue secret =>
    Reports engine projectId .emptyValue .error secret.key (· = secret.key)
      (· = secret.environmentId) fun _ => False
  | .placeholderValue secret =>
    Reports engine projectId .placeholderValue .warning secret.key (· = secret.key)
      (· = secret.environmentId) fun _ => False

section

variable {engine : Engine} {projectId : JsString}

theorem Reports.eq {type : FindingType} {severity : FindingSeverity} {key : JsString}
    {keys affected missing : JsString → Prop} {finding other : BaseFinding}
    (h : Reports engine projectId type severity key keys affected missing finding)
    (hother : Reports engine projectId type severity key keys affected missing other) :
    finding = other := by
  have hkeys := h.keys.eq hother.keys
  have haffected := h.affected.eq hother.affected
  have hmissing := h.missing.eq hother.missing
  have hid := h.id_eq.trans ((by rw [hkeys, haffected] :
    findingId engine projectId type (engine.toUpperCase key) finding.environmentIds finding.keys =
      findingId engine projectId type (engine.toUpperCase key) other.environmentIds other.keys).trans
    hother.id_eq.symm)
  have htype := h.type_eq.trans hother.type_eq.symm
  have hseverity := h.severity_eq.trans hother.severity_eq.symm
  have hkey := h.key_eq.trans hother.key_eq.symm
  cases finding
  cases other
  simp only at hkeys haffected hmissing hid htype hseverity hkey
  simp only [hkeys, haffected, hmissing, hid, htype, hseverity, hkey]

theorem insertionSort_idem (texts : List JsString) :
    (texts.insertionSort (· ≤ ·)).insertionSort (· ≤ ·) = texts.insertionSort (· ≤ ·) :=
  (List.pairwise_insertionSort _ _).insertionSort_eq

theorem reports_baseFinding {type : FindingType} {severity : FindingSeverity} {key : JsString}
    {keys environmentIds missingIds : List JsString} {spelled affected missing : JsString → Prop}
    (hkeys : keys.Nodup ∧ ∀ k, k ∈ keys ↔ spelled k)
    (hids : environmentIds.Nodup ∧ ∀ id, id ∈ environmentIds ↔ affected id)
    (hmissing : missingIds.Nodup ∧ ∀ id, id ∈ missingIds ↔ missing id) :
    Reports engine projectId type severity key spelled affected missing
      (baseFinding engine projectId type severity key keys environmentIds missingIds) where
  type_eq := rfl
  severity_eq := rfl
  key_eq := rfl
  keys := listing_insertionSort hkeys.1 hkeys.2
  affected := listing_insertionSort hids.1 hids.2
  missing := listing_insertionSort hmissing.1 hmissing.2
  id_eq := by
    simp only [baseFinding, findingId, findingIdContents, insertionSort_idem]

theorem singleton_spec (text : JsString) : [text].Nodup ∧ ∀ t, t ∈ [text] ↔ t = text :=
  ⟨List.nodup_singleton _, fun _ => List.mem_singleton⟩

theorem nil_spec : ([] : List JsString).Nodup ∧ ∀ t, t ∈ ([] : List JsString) ↔ False :=
  ⟨List.nodup_nil, fun _ => by simp⟩

/-! ## The drifts, in step with the findings -/

def Configuration.keyDrifts (c : Configuration) (engine : Engine) (normalized : JsString) :
    List Drift :=
  (if (c.missing engine normalized).length ≠ 0 then [.missingKey normalized] else []) ++
  (if 1 < (c.spellings engine normalized).length then [.caseDuplicate normalized] else []) ++
  ((c.spellings engine normalized).filter (!isConventionalKey ·)).map .namingViolation

def valueDrifts (secret : ConsistencySecretValue) : List Drift :=
  if (trim secret.value).length = 0 then [.emptyValue secret]
  else if isPlaceholder (trim secret.value) then [.placeholderValue secret]
  else []

def Configuration.groups (c : Configuration) (engine : Engine) :
    List (JsString × List ConsistencySecretValue) :=
  (engine.localeCompare.on Prod.fst).sort
    (groupBy (fun secret => engine.toUpperCase secret.key) c.active)

def Configuration.drifts (c : Configuration) (engine : Engine) : List Drift :=
  ((c.groups engine).flatMap fun entry => c.keyDrifts engine entry.1) ++
    c.active.flatMap valueDrifts

theorem keyDrifts_describe (c : Configuration) (h : c.Distinct) (normalized : JsString) :
    List.Forall₂ (Drift.Describes engine projectId c) (c.keyDrifts engine normalized)
      (c.findingsOf engine normalized projectId) := by
  have hspellings := c.listing_spellings engine normalized
  have hpresent := c.listing_present engine normalized
  have hmissing := c.listing_missing engine normalized
  refine List.rel_append (List.rel_append (forall₂_ite ?_) (forall₂_ite ?_)) ?_
  · exact reports_baseFinding ⟨hspellings.nodup, hspellings.mem⟩ ⟨hpresent.nodup, hpresent.mem⟩
      ⟨hmissing.nodup, hmissing.mem⟩
  · exact reports_baseFinding ⟨hspellings.nodup, hspellings.mem⟩ ⟨hpresent.nodup, hpresent.mem⟩
      nil_spec
  · rw [List.forall₂_map_left_iff, List.forall₂_map_right_iff]
    refine List.forall₂_same.mpr fun key hkey => ?_
    obtain ⟨secret, -, -, hnormalized⟩ := (hspellings.mem key).mp (List.mem_filter.mp hkey).1
    exact reports_baseFinding (singleton_spec key) (c.listing_affected engine h hnormalized) nil_spec

theorem valueDrifts_describe (c : Configuration) (secret : ConsistencySecretValue) :
    List.Forall₂ (Drift.Describes engine projectId c) (valueDrifts secret)
      (valueFindings engine projectId secret) := by
  unfold valueDrifts valueFindings
  split
  · exact .cons (reports_baseFinding (singleton_spec _) (singleton_spec _) nil_spec) .nil
  · split
    · exact .cons (reports_baseFinding (singleton_spec _) (singleton_spec _) nil_spec) .nil
    · exact .nil

theorem mem_groups {c : Configuration} {entry : JsString × List ConsistencySecretValue} :
    entry ∈ c.groups engine ↔
      entry.2 = c.group engine entry.1 ∧ ∃ key, c.Spelled engine entry.1 key := by
  unfold Configuration.groups
  rw [Comparator.mem_sort]
  exact c.mem_groupBy_active

/-- The findings before they are sorted. -/
theorem drifts_describe (c : Configuration) (h : c.Distinct) :
    ∃ findings, List.Forall₂ (Drift.Describes engine projectId c) (c.drifts engine) findings ∧
      c.analyze engine projectId = (reportOrder engine).sort findings := by
  refine ⟨_, ?_, rfl⟩
  refine List.rel_append (forall₂_flatMap fun entry hentry => ?_)
    (forall₂_flatMap fun secret _ => valueDrifts_describe c secret)
  rw [(mem_groups.mp hentry).1]
  exact keyDrifts_describe c h entry.1

theorem one_lt_length_iff {texts : List JsString} (h : texts.Nodup) :
    1 < texts.length ↔ ∃ text other, text ≠ other ∧ text ∈ texts ∧ other ∈ texts := by
  constructor
  · intro hlength
    match texts, h, hlength with
    | text :: other :: rest, h, _ =>
      refine ⟨text, other, fun heq => ?_, by simp, by simp⟩
      rw [heq] at h
      exact (List.nodup_cons.mp h).1 (List.mem_cons_self ..)
  · rintro ⟨text, other, hne, htext, hother⟩
    match texts with
    | [only] =>
      rw [List.mem_singleton.mp htext, List.mem_singleton.mp hother] at hne
      exact absurd rfl hne
    | _ :: _ :: rest => simp

theorem mem_keyDrifts {c : Configuration} {normalized : JsString} {drift : Drift} :
    drift ∈ c.keyDrifts engine normalized ↔
      (drift = .missingKey normalized ∧
        ∃ id, c.Listed id ∧ ¬ c.Holds engine normalized id) ∨
      (drift = .caseDuplicate normalized ∧ ∃ key other, key ≠ other ∧
        c.Spelled engine normalized key ∧ c.Spelled engine normalized other) ∨
      ∃ key, drift = .namingViolation key ∧ c.Spelled engine normalized key ∧
        isConventionalKey key = false := by
  have hspellings := c.listing_spellings engine normalized
  have hmissing : (c.missing engine normalized).length ≠ 0 ↔
      ∃ id, c.Listed id ∧ ¬ c.Holds engine normalized id := by
    rw [← exists_congr (c.listing_missing engine normalized).mem, Ne, List.length_eq_zero_iff]
    exact ⟨List.exists_mem_of_ne_nil _, fun ⟨_, h⟩ => List.ne_nil_of_mem h⟩
  have hlength := one_lt_length_iff hspellings.nodup
  simp only [hspellings.mem] at hlength
  unfold Configuration.keyDrifts
  simp only [List.mem_append, List.mem_ite_nil_right, List.mem_singleton, hmissing, hlength,
    List.mem_map, List.mem_filter, hspellings.mem, Bool.not_eq_true', or_assoc]
  refine or_congr and_comm (or_congr and_comm (exists_congr fun key => ?_))
  constructor
  · rintro ⟨h, rfl⟩
    exact ⟨rfl, h⟩
  · rintro ⟨rfl, h⟩
    exact ⟨h, rfl⟩

theorem mem_valueDrifts {secret : ConsistencySecretValue} {drift : Drift} :
    drift ∈ valueDrifts secret ↔
      (drift = .emptyValue secret ∧ trim secret.value = []) ∨
      (drift = .placeholderValue secret ∧ trim secret.value ≠ [] ∧
        isPlaceholder (trim secret.value) = true) := by
  unfold valueDrifts
  split
  · rename_i h
    rw [List.length_eq_zero_iff] at h
    simp [h]
  · rename_i h
    rw [List.length_eq_zero_iff] at h
    split <;> simp_all

/-- **The drifts of the loops are those that occur.** -/
theorem mem_drifts {c : Configuration} {drift : Drift} :
    drift ∈ c.drifts engine ↔ drift.Occurs engine c := by
  have hgroups : drift ∈ (c.groups engine).flatMap (fun entry => c.keyDrifts engine entry.1) ↔
      ∃ normalized, (∃ key, c.Spelled engine normalized key) ∧
        drift ∈ c.keyDrifts engine normalized := by
    rw [List.mem_flatMap]
    constructor
    · rintro ⟨entry, hentry, hdrift⟩
      exact ⟨entry.1, (mem_groups.mp hentry).2, hdrift⟩
    · rintro ⟨normalized, hspelled, hdrift⟩
      exact ⟨(normalized, c.group engine normalized), mem_groups.mpr ⟨rfl, hspelled⟩, hdrift⟩
  unfold Configuration.drifts
  rw [List.mem_append, hgroups, List.mem_flatMap]
  simp only [Configuration.mem_active, mem_keyDrifts, mem_valueDrifts]
  cases drift with
  | missingKey normalized =>
    simp only [Drift.missingKey.injEq, reduceCtorEq, false_and, or_false, and_false,
      exists_false, Drift.Occurs]
    constructor
    · rintro ⟨_, ⟨key, hspelled⟩, rfl, hmissing⟩
      exact ⟨c.holds_of_spelled engine _ hspelled, hmissing⟩
    · rintro ⟨⟨id, secret, hactive, -, hnormalized⟩, hmissing⟩
      exact ⟨normalized, ⟨secret.key, secret, hactive, rfl, hnormalized⟩, rfl, hmissing⟩
  | caseDuplicate normalized =>
    simp only [Drift.caseDuplicate.injEq, reduceCtorEq, false_and, false_or, or_false, and_false,
      exists_false, Drift.Occurs]
    constructor
    · rintro ⟨_, -, rfl, hduplicate⟩
      exact hduplicate
    · rintro ⟨key, other, hne, hkey, hother⟩
      exact ⟨normalized, ⟨key, hkey⟩, rfl, key, other, hne, hkey, hother⟩
  | namingViolation key =>
    simp only [Drift.namingViolation.injEq, reduceCtorEq, false_and, false_or, or_false, and_false,
      exists_false, Drift.Occurs]
    constructor
    · rintro ⟨normalized, -, _, rfl, ⟨secret, hactive, rfl, -⟩, hkey⟩
      exact ⟨⟨secret.environmentId, secret, hactive, rfl, rfl⟩, hkey⟩
    · rintro ⟨⟨id, secret, hactive, -, rfl⟩, hkey⟩
      exact ⟨engine.toUpperCase secret.key, ⟨secret.key, secret, hactive, rfl, rfl⟩, secret.key, rfl,
        ⟨secret, hactive, rfl, rfl⟩, hkey⟩
  | emptyValue secret =>
    simp only [Drift.emptyValue.injEq, reduceCtorEq, false_and, or_false, and_false,
      exists_false, false_or, Drift.Occurs]
    constructor
    · rintro ⟨_, hactive, rfl, hblank⟩
      exact ⟨hactive, hblank⟩
    · rintro ⟨hactive, hblank⟩
      exact ⟨secret, hactive, rfl, hblank⟩
  | placeholderValue secret =>
    simp only [Drift.placeholderValue.injEq, reduceCtorEq, false_and, or_false, and_false,
      exists_false, false_or, Drift.Occurs]
    constructor
    · rintro ⟨_, hactive, rfl, hvalue⟩
      exact ⟨hactive, hvalue⟩
    · rintro ⟨hactive, hvalue⟩
      exact ⟨secret, hactive, rfl, hvalue⟩

theorem nodup_keyDrifts (c : Configuration) (normalized : JsString) :
    (c.keyDrifts engine normalized).Nodup := by
  unfold Configuration.keyDrifts
  rw [List.nodup_append, List.nodup_append]
  refine ⟨⟨by split <;> simp, by split <;> simp, ?_⟩, ?_, ?_⟩
  · intro drift hdrift other hother
    rw [List.mem_ite_nil_right, List.mem_singleton] at hdrift hother
    rw [hdrift.2, hother.2]
    exact Drift.noConfusion
  · exact ((c.listing_spellings engine normalized).nodup.filter _).map fun _ _ h =>
      Drift.namingViolation.inj h
  · intro drift hdrift other hother heq
    obtain ⟨key, -, rfl⟩ := List.mem_map.mp hother
    simp only [List.mem_append, List.mem_ite_nil_right, List.mem_singleton] at hdrift
    obtain ⟨-, h⟩ | ⟨-, h⟩ := hdrift <;> cases h.symm.trans heq

/-- The key of a group that a drift belongs to. -/
theorem keyDrifts_disjoint {c : Configuration} {normalized other : JsString} {drift : Drift}
    (h : drift ∈ c.keyDrifts engine normalized) (hother : drift ∈ c.keyDrifts engine other) :
    normalized = other := by
  rw [mem_keyDrifts] at h hother
  obtain ⟨rfl, -⟩ | ⟨rfl, -⟩ | ⟨key, rfl, ⟨_, -, rfl, hkey⟩, -⟩ := h
  · obtain ⟨h, -⟩ | ⟨h, -⟩ | ⟨_, h, -⟩ := hother <;> cases h
    rfl
  · obtain ⟨h, -⟩ | ⟨h, -⟩ | ⟨_, h, -⟩ := hother <;> cases h
    rfl
  · obtain ⟨h, -⟩ | ⟨h, -⟩ | ⟨_, h, ⟨_, -, -, hother⟩, -⟩ := hother <;> cases h
    exact hkey.symm.trans hother

theorem nodup_drifts {c : Configuration} (h : c.Distinct) : (c.drifts engine).Nodup := by
  have hkeys : ((c.groups engine).map (·.1)).Nodup :=
    (((engine.localeCompare.on Prod.fst).sort_perm _).map _).nodup_iff.mpr (nodup_keys_groupBy _ _)
  have hactive : c.active.Nodup := (List.Nodup.of_map _ h).sublist List.filter_sublist
  unfold Configuration.drifts
  rw [List.nodup_append, List.nodup_flatMap, List.nodup_flatMap]
  refine ⟨⟨fun entry _ => nodup_keyDrifts c entry.1, ?_⟩, ⟨fun secret _ => ?_, ?_⟩, ?_⟩
  · rw [List.Nodup, List.pairwise_map] at hkeys
    exact hkeys.imp fun hne drift hdrift hother => hne (keyDrifts_disjoint hdrift hother)
  · unfold valueDrifts
    split
    · simp
    · split <;> simp
  · refine hactive.imp fun hne drift hdrift hother => hne ?_
    rw [mem_valueDrifts] at hdrift hother
    obtain ⟨rfl, -⟩ | ⟨rfl, -⟩ := hdrift <;> obtain ⟨h, -⟩ | ⟨h, -⟩ := hother <;> cases h <;> rfl
  · intro drift hdrift other hother heq
    obtain ⟨entry, -, hdrift⟩ := List.mem_flatMap.mp hdrift
    obtain ⟨secret, -, hother⟩ := List.mem_flatMap.mp hother
    rw [mem_keyDrifts] at hdrift
    rw [mem_valueDrifts, ← heq] at hother
    obtain ⟨rfl, -⟩ | ⟨rfl, -⟩ | ⟨_, rfl, -⟩ := hdrift <;>
      obtain ⟨h, -⟩ | ⟨h, -⟩ := hother <;> cases h

/-! ## One finding for each drift -/

/-- What two findings with one id have in common. -/
theorem Reports.of_id (hsha256 : Function.Injective engine.sha256) {type type' : FindingType}
    {severity severity' : FindingSeverity} {key key' : JsString}
    {keys affected missing keys' affected' missing' : JsString → Prop} {finding other : BaseFinding}
    (h : Reports engine projectId type severity key keys affected missing finding)
    (hother : Reports engine projectId type' severity' key' keys' affected' missing' other)
    (hid : finding.id = other.id) :
    type = type' ∧ (∀ k, keys k ↔ keys' k) ∧ ∀ id, affected id ↔ affected' id := by
  rw [h.id_eq, hother.id_eq] at hid
  obtain ⟨htype, -, hids, hkeys⟩ := findingId_inj hsha256 hid
  rw [h.affected.sorted.insertionSort_eq, hother.affected.sorted.insertionSort_eq] at hids
  rw [h.keys.sorted.insertionSort_eq, hother.keys.sorted.insertionSort_eq] at hkeys
  refine ⟨htype, fun k => ?_, fun id => ?_⟩
  · rw [← h.keys.mem, ← hother.keys.mem, hkeys]
  · rw [← h.affected.mem, ← hother.affected.mem, hids]

/-- The upper case of a group is that of each of its spellings. -/
theorem normalized_eq {c : Configuration} {normalized other key : JsString}
    (h : c.Spelled engine normalized key)
    (hkeys : ∀ k, c.Spelled engine normalized k ↔ c.Spelled engine other k) :
    normalized = other := by
  obtain ⟨-, -, -, hother⟩ := (hkeys key).mp h
  obtain ⟨-, -, -, hnormalized⟩ := h
  exact hnormalized.symm.trans hother

theorem Configuration.Distinct.eq {c : Configuration} (h : c.Distinct)
    {secret other : ConsistencySecretValue} (hsecret : c.Active secret) (hother : c.Active other)
    (hid : secret.environmentId = other.environmentId) (hkey : secret.key = other.key) :
    secret = other :=
  List.inj_on_of_nodup_map h hsecret.1 hother.1 (Prod.ext hid hkey)

/-- The id of a finding determines the drift. -/
theorem drift_of_id (hsha256 : Function.Injective engine.sha256) {c : Configuration}
    (hdistinct : c.Distinct) {drift other : Drift} {finding finding' : BaseFinding}
    (hoccurs : drift.Occurs engine c) (hoccurs' : other.Occurs engine c)
    (h : drift.Describes engine projectId c finding)
    (h' : other.Describes engine projectId c finding') (hid : finding.id = finding'.id) :
    drift = other := by
  have htype : ∀ {a b : FindingType}, a ≠ b → a = b → drift = other := fun hne heq =>
    absurd heq hne
  cases drift <;> cases other <;> obtain ⟨heq, hkeys, hids⟩ := Reports.of_id hsha256 h h' hid
  case missingKey.missingKey =>
    obtain ⟨⟨id, secret, hactive, -, hnormalized⟩, -⟩ := hoccurs
    rw [normalized_eq ⟨secret, hactive, rfl, hnormalized⟩ hkeys]
  case caseDuplicate.caseDuplicate =>
    obtain ⟨key, -, -, hspelled, -⟩ := hoccurs
    rw [normalized_eq hspelled hkeys]
  case namingViolation.namingViolation => rw [(hkeys _).mp rfl]
  case emptyValue.emptyValue =>
    rw [hdistinct.eq hoccurs.1 hoccurs'.1 ((hids _).mp rfl) ((hkeys _).mp rfl)]
  case placeholderValue.placeholderValue =>
    rw [hdistinct.eq hoccurs.1 hoccurs'.1 ((hids _).mp rfl) ((hkeys _).mp rfl)]
  all_goals exact htype (by decide) heq

theorem describes_rightUnique (c : Configuration) :
    Relator.RightUnique (Drift.Describes engine projectId c) := by
  intro drift finding other h hother
  cases drift <;> exact Reports.eq h hother

/-! ## The order of the input -/

theorem Configuration.Reordered.listed {c c' : Configuration} (h : c.Reordered c')
    (id : JsString) : c.Listed id ↔ c'.Listed id :=
  exists_congr fun _ => and_congr_left fun _ => h.environments.mem_iff

theorem Configuration.Reordered.active_iff {c c' : Configuration} (h : c.Reordered c')
    (secret : ConsistencySecretValue) : c.Active secret ↔ c'.Active secret :=
  and_congr h.secrets.mem_iff (h.listed _)

theorem Configuration.Reordered.distinct {c c' : Configuration} (h : c.Reordered c')
    (hdistinct : c.Distinct) : c'.Distinct :=
  (h.secrets.map _).nodup_iff.mp hdistinct

/-- Every notion of a drift looks at which environments are listed and which secrets are active. -/
theorem Configuration.Reordered.predicates {c c' : Configuration} (h : c.Reordered c')
    (engine : Engine) :
    c.Listed = c'.Listed ∧ c.Active = c'.Active ∧ c.Holds engine = c'.Holds engine ∧
      c.Spelled engine = c'.Spelled engine ∧ c.Uses = c'.Uses := by
  have hlisted : c.Listed = c'.Listed := funext fun id => propext (h.listed id)
  have hactive : c.Active = c'.Active := funext fun secret => propext (h.active_iff secret)
  refine ⟨hlisted, hactive, ?_, ?_, ?_⟩
  · unfold Configuration.Holds
    rw [hactive]
  · unfold Configuration.Spelled
    rw [hactive]
  · unfold Configuration.Uses
    rw [hactive]

theorem Configuration.Reordered.occurs_iff {c c' : Configuration} (h : c.Reordered c')
    (drift : Drift) : drift.Occurs engine c ↔ drift.Occurs engine c' := by
  obtain ⟨hlisted, hactive, hholds, hspelled, huses⟩ := h.predicates engine
  cases drift <;> simp only [Drift.Occurs, hlisted, hactive, hholds, hspelled, huses]

theorem Configuration.Reordered.describes_eq {c c' : Configuration} (h : c.Reordered c') :
    Drift.Describes engine projectId c = Drift.Describes engine projectId c' := by
  obtain ⟨hlisted, -, hholds, hspelled, huses⟩ := h.predicates engine
  funext drift
  cases drift <;> simp only [Drift.Describes, hlisted, hholds, hspelled, huses]

/-- The collation tells different digests apart. -/
def TellsApart (engine : Engine) : Prop :=
  ∀ x y, engine.localeCompare.compare (engine.sha256 x) (engine.sha256 y) = 0 →
    engine.sha256 x = engine.sha256 y

theorem Drift.Describes.digest {c : Configuration} {drift : Drift} {finding : BaseFinding}
    (h : drift.Describes engine projectId c finding) : ∃ x, finding.id = engine.sha256 x := by
  cases drift <;> exact ⟨_, h.id_eq⟩

theorem nodup_ids (hsha256 : Function.Injective engine.sha256) {c : Configuration}
    (h : c.Distinct) {findings : List BaseFinding}
    (hfindings : List.Forall₂ (Drift.Describes engine projectId c) (c.drifts engine) findings) :
    (findings.map (·.id)).Nodup :=
  nodup_map_of_forall₂ hfindings (nodup_drifts h) fun _ hdrift _ hother _ _ hx hy hid =>
    drift_of_id hsha256 h (mem_drifts.mp hdrift) (mem_drifts.mp hother) hx hy hid

theorem reordered_findings {c c' : Configuration} (h : c.Distinct) (hreordered : c.Reordered c')
    {findings findings' : List BaseFinding}
    (hfindings : List.Forall₂ (Drift.Describes engine projectId c) (c.drifts engine) findings)
    (hfindings' : List.Forall₂ (Drift.Describes engine projectId c') (c'.drifts engine) findings') :
    findings'.Perm findings := by
  have hdrifts : (c'.drifts engine).Perm (c.drifts engine) :=
    (List.perm_ext_iff_of_nodup (nodup_drifts (hreordered.distinct h)) (nodup_drifts h)).mpr
      fun drift => (mem_drifts.trans (hreordered.occurs_iff drift).symm).trans mem_drifts.symm
  obtain ⟨between, hbetween, hperm⟩ := List.perm_comp_forall₂ hdrifts hfindings
  rw [hreordered.describes_eq] at hbetween
  rw [(describes_rightUnique c').forall₂ hfindings' hbetween]
  exact hperm

/-- **The analysis reports each drift that occurs once, and nothing else**; a reordering of the
input changes at most the order of the findings, and not even that where the collation tells ids
apart. -/
theorem analyzeConsistency_exact (engine : Engine) (projectId : JsString) (c : Configuration)
    (hsha256 : Function.Injective engine.sha256) (hdistinct : c.Distinct) :
    (∃ drifts : List Drift, drifts.Nodup ∧ (∀ drift, drift ∈ drifts ↔ drift.Occurs engine c) ∧
      List.Forall₂ (Drift.Describes engine projectId c) drifts (c.analyze engine projectId)) ∧
    ((c.analyze engine projectId).map (·.id)).Nodup ∧
    ∀ c', c.Reordered c' →
      (c'.analyze engine projectId).Perm (c.analyze engine projectId) ∧
      (TellsApart engine → c'.analyze engine projectId = c.analyze engine projectId) := by
  obtain ⟨findings, hfindings, hanalyze⟩ := @drifts_describe engine projectId c hdistinct
  have hsorted := (reportOrder engine).sort_perm findings
  have hids := nodup_ids hsha256 hdistinct hfindings
  rw [hanalyze]
  refine ⟨?_, (hsorted.map _).nodup_iff.mpr hids, fun c' hreordered => ?_⟩
  · obtain ⟨drifts, hdescribe, hperm⟩ := List.perm_comp_forall₂ hsorted (List.Forall₂.flip hfindings)
    exact ⟨drifts, hperm.nodup_iff.mpr (nodup_drifts hdistinct),
      fun drift => hperm.mem_iff.trans mem_drifts, List.Forall₂.flip hdescribe⟩
  · obtain ⟨findings', hfindings', hanalyze'⟩ :=
      @drifts_describe engine projectId c' (hreordered.distinct hdistinct)
    have hperm := reordered_findings hdistinct hreordered hfindings hfindings'
    rw [hanalyze']
    refine ⟨(Comparator.sort_perm _ _).trans (hperm.trans hsorted.symm), fun htells => ?_⟩
    refine (Comparator.sort_eq_of_perm _ hperm.symm fun a ha b hb hzero => ?_).symm
    obtain ⟨_, -, hdigest⟩ := exists_of_forall₂ hfindings ha
    obtain ⟨_, -, hdigest'⟩ := exists_of_forall₂ hfindings hb
    obtain ⟨x, hx⟩ := hdigest.digest
    obtain ⟨y, hy⟩ := hdigest'.digest
    have hcompare : engine.localeCompare.compare a.id b.id = 0 :=
      (Comparator.thenBy_eq_zero.mp (Comparator.thenBy_eq_zero.mp
        (Comparator.thenBy_eq_zero.mp hzero).2).2).2
    rw [hx, hy] at hcompare
    exact List.inj_on_of_nodup_map hids ha hb (hx.trans ((htells x y hcompare).trans hy.symm))

end

/-! ## On concrete configurations -/

/-- An engine for texts in ASCII; as its digest a text stands for itself. -/
def asciiEngine (localeCompare : Comparator JsString) : Engine where
  toUpperCase text := text.map fun c => if 0x61 ≤ c ∧ c ≤ 0x7A then c - 0x20 else c
  localeCompare := localeCompare
  sha256 bytes := bytes.map (·.toUInt16)

theorem asciiEngine_injective (localeCompare : Comparator JsString) :
    Function.Injective (asciiEngine localeCompare).sha256 :=
  List.map_injective_iff.mpr fun a b h => by
    have hnat := congrArg UInt16.toNat h
    rw [UInt8.toNat_toUInt16, UInt8.toNat_toUInt16] at hnat
    exact UInt8.toNat_inj.mp hnat

/-- A collation that ties all texts. -/
def tyingCollation : Comparator JsString := ⟨fun _ _ => 0, by simp, by simp⟩

def environmentOf (id : String) : ConsistencyEnvironment := ⟨ofAscii id, ofAscii id⟩

def secretOf (environmentId key value : String) : ConsistencySecretValue :=
  ⟨ofAscii (environmentId ++ key), ofAscii environmentId, ofAscii key, ofAscii value⟩

/-- Two blank secrets in one environment. -/
def twoBlanks : Configuration where
  environments := [environmentOf "dev"]
  secrets := [secretOf "dev" "A" "", secretOf "dev" "B" ""]

theorem analyzeConsistency_exact_twoBlanks :
    Function.Injective (asciiEngine .ofLE).sha256 ∧ twoBlanks.Distinct ∧
    (∃ drifts : List Drift, drifts.Nodup ∧
      (∀ drift, drift ∈ drifts ↔ drift.Occurs (asciiEngine .ofLE) twoBlanks) ∧
      List.Forall₂ (Drift.Describes (asciiEngine .ofLE) (ofAscii "p") twoBlanks) drifts
        (twoBlanks.analyze (asciiEngine .ofLE) (ofAscii "p"))) ∧
    ((twoBlanks.analyze (asciiEngine .ofLE) (ofAscii "p")).map (·.id)).Nodup ∧
    ∀ c', twoBlanks.Reordered c' →
      (c'.analyze (asciiEngine .ofLE) (ofAscii "p")).Perm
        (twoBlanks.analyze (asciiEngine .ofLE) (ofAscii "p")) ∧
      (TellsApart (asciiEngine .ofLE) → c'.analyze (asciiEngine .ofLE) (ofAscii "p") =
        twoBlanks.analyze (asciiEngine .ofLE) (ofAscii "p")) := by
  have hdistinct : twoBlanks.Distinct := by
    unfold Configuration.Distinct
    decide +kernel
  exact ⟨asciiEngine_injective _, hdistinct,
    analyzeConsistency_exact (asciiEngine .ofLE) (ofAscii "p") twoBlanks
      (asciiEngine_injective _) hdistinct⟩

/-- A collation that does not tell ids apart leaves two findings in the order of the input. -/
theorem order_of_input_shows :
    ∃ c', Function.Injective (asciiEngine tyingCollation).sha256 ∧ twoBlanks.Distinct ∧
      twoBlanks.Reordered c' ∧ c'.analyze (asciiEngine tyingCollation) (ofAscii "p") ≠
        twoBlanks.analyze (asciiEngine tyingCollation) (ofAscii "p") := by
  refine ⟨{ twoBlanks with secrets := twoBlanks.secrets.reverse }, asciiEngine_injective _, ?_,
    ⟨.refl _, (List.reverse_perm _).symm⟩, ?_⟩
  · unfold Configuration.Distinct
    decide +kernel
  · decide +kernel

end Himitsu.Consistency
