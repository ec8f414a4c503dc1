import Himitsu.Library.Runs
import Himitsu.Operator.Reconcile

/-!
# The operator over whole runs

Runs of one `HimitsuSecret`: its spec changes, environments get new versions, other parties edit
Secrets that are not its target, and the operator reconciles with any calls failing.

* `step` — one such event.
* `InSync` — a pass that reports `Synced` under the `Owner` policy leaves the target with the
  current spec's rendering of the version it reports.
* `FailsUnrendered` — a pass that stores a failure for a spec it has not rendered, while the
  recorded version equals the stamp of the Secret that the spec names.  The failure claims the
  new generation as observed, so the next fetch names the recorded version, and a 304 is then
  taken for this spec.
* `SyncInv` — a recorded version that the next fetch may name is out of date or rendered.

Principal result: `synced_inSync` — in a run without such a pass every pass is in sync.
-/

set_option autoImplicit false

namespace Himitsu.Operator

open GoText AssocList

section

variable (libraries : Libraries) (factory : ClientFactory)

/-! ## Runs -/

def Cluster.source (c : Cluster) : Source := c.resource.spec.source

def Cluster.target (c : Cluster) : Option Secret := c.secrets.lookup c.resource.spec.target.name

inductive Event where
  | changeSpec (spec : HimitsuSecretSpec)
  | publish (source : Source) (release : Release)
  | editSecret (name : String) (secret : Option Secret)
  | reconcile (faults : Faults)

/-- A version is newer than those before it. -/
def isNewer (release : Release) : List Release → Bool
  | [] => 0 ≤ release.version
  | newest :: _ => newest.version < release.version

/-- The Secrets after one is replaced or deleted. -/
def editedSecrets (secrets : List (String × Secret)) (name : String) :
    Option Secret → List (String × Secret)
  | some secret => set secrets name secret
  | none => erase secrets name

/-- A change of the spec is a new generation; nobody else edits the target. -/
def step (c : Cluster) : Event → Option Cluster
  | .changeSpec spec =>
    some { c with resource := { c.resource with
      spec := spec, generation := c.resource.generation + 1 } }
  | .publish source release =>
    if isNewer release (c.releases source) then
      some { c with releases := fun s => if s = source then release :: c.releases s
        else c.releases s }
    else none
  | .editSecret name secret =>
    if name = c.resource.spec.target.name then none
    else some { c with secrets := editedSecrets c.secrets name secret }
  | .reconcile faults => some (reconcile libraries factory faults c).cluster

/-- A resource that no pass has seen, in any cluster. -/
structure Initial (c : Cluster) : Prop where
  status : c.resource.status = .empty
  generation : 1 ≤ c.resource.generation
  releases : ∀ source, (c.releases source).Pairwise (·.version > ·.version)

/-! ## What is claimed of a pass -/

/-- The target holds what the current spec makes of a version of its environment. -/
def Rendered (c : Cluster) (version : Int64) : Prop :=
  ∃ secret release, c.target = some secret ∧ release ∈ c.releases c.source ∧
    release.version = version ∧
    render libraries.printable c.resource.spec release.secrets = .ok secret.data

/-- The pass has set the condition `Ready`, with the reason `Synced`, for the generation that the
resource has. -/
def SetsSynced (p : Pass) : Prop :=
  ∃ status condition, p.recorded = some status ∧ status.condition = some condition ∧
    condition.status = true ∧ condition.reason = .synced ∧
    condition.observedGeneration = p.cluster.resource.generation

/-- What `Synced` promises under the `Owner` policy. -/
def InSync (p : Pass) : Prop :=
  SetsSynced p → p.cluster.resource.spec.target.isOwner = true →
    Rendered libraries p.cluster p.cluster.resource.status.configVersion

/-- The environment has moved past a version. -/
def Outdated (c : Cluster) (version : Int64) : Prop :=
  ∃ release ∈ c.releases c.source, version < release.version

/-- The recorded version looks like the one on the target. -/
def MatchesStamp (c : Cluster) : Prop :=
  c.resource.spec.target.isOwner = true ∧ 0 < c.resource.status.configVersion ∧
    c.target.isSome = true ∧ versionStampOf c.target = c.resource.status.configVersion

/-- A pass stores a failure and leaves the target as it is, the status is that of an older
generation, the version it records is the one on the target, and that version is neither out of
date nor the rendering of the current spec. -/
def FailsUnrendered (faults : Faults) (c : Cluster) : Prop :=
  (∃ status ∈ (reconcile libraries factory faults c).recorded,
    ∃ condition ∈ status.condition, condition.status = false) ∧
  (reconcile libraries factory faults c).cluster.target = c.target ∧
  c.resource.status.observedGeneration ≠ c.resource.generation ∧
  MatchesStamp c ∧
  ¬ Outdated c c.resource.status.configVersion ∧
  ¬ Rendered libraries c c.resource.status.configVersion

/-- The guard of a run. -/
def NoUnrenderedFailure (c : Cluster) : Event → Prop
  | .reconcile faults => ¬ FailsUnrendered libraries factory faults c
  | _ => True

/-! ## The invariant -/

/-- A version that the next fetch may name is out of date or rendered. -/
structure SyncInv (c : Cluster) : Prop where
  releases : ∀ source, (c.releases source).Pairwise (·.version > ·.version)
  observed : c.resource.status.observedGeneration ≤ c.resource.generation
  known : c.resource.status.observedGeneration = c.resource.generation → MatchesStamp c →
    Outdated c c.resource.status.configVersion ∨
      Rendered libraries c c.resource.status.configVersion

variable {libraries factory}

theorem Initial.syncInv {c : Cluster} (h : Initial c) : SyncInv libraries c where
  releases := h.releases
  observed := by
    rw [h.status]
    exact Nat.zero_le _
  known := by
    rintro - ⟨-, hpos, -⟩
    rw [h.status] at hpos
    exact absurd hpos (by decide)

theorem configVersion_ne_owner : configVersionAnnotation ≠ ownerAnnotation := by decide

theorem configVersion_ne_projectID : configVersionAnnotation ≠ projectIDAnnotation := by decide

theorem configVersion_ne_environmentID : configVersionAnnotation ≠ environmentIDAnnotation := by
  decide

theorem configVersion_ne_managedKeys : configVersionAnnotation ≠ managedKeysAnnotation := by
  decide

/-- A written target carries the version it was written for, whatever the template annotates. -/
theorem targetAnnotations_configVersion (resource : HimitsuSecret) (version : Int64)
    (annotations : List (String × String)) (managed : String) :
    (set (targetAnnotations resource version annotations) managedKeysAnnotation managed).lookup
      configVersionAnnotation = some (formatInt version) := by
  rw [lookup_set_of_ne configVersion_ne_managedKeys, targetAnnotations,
    lookup_set_of_ne configVersion_ne_environmentID, lookup_set_of_ne configVersion_ne_projectID,
    lookup_set_self]

theorem versionStampOf_prepareTarget {resource : HimitsuSecret} {existing : Option Secret}
    {rendered : List (String × ByteArray)} {version : Int64} {secret : Secret}
    (h : prepareTarget libraries resource existing rendered version = .ok secret) :
    versionStampOf (some secret) = version := by
  have hannotations : ∃ annotations, secret.annotations = set
      (targetAnnotations resource version annotations) managedKeysAnnotation
      (",".intercalate (sortStrings (rendered.map Prod.fst))) := by
    unfold prepareTarget at h
    dsimp only at h
    split at h
    · split at h
      · cases h
        exact ⟨_, rfl⟩
      · cases h
    · cases h
      exact ⟨_, rfl⟩
  obtain ⟨annotations, hannotations⟩ := hannotations
  simp only [versionStampOf, hannotations, targetAnnotations_configVersion, Option.getD_some,
    parseInt_formatInt]

theorem prepareTarget_data {resource : HimitsuSecret} {existing : Option Secret}
    {rendered : List (String × ByteArray)} {version : Int64} {secret : Secret}
    (h : prepareTarget libraries resource existing rendered version = .ok secret)
    (howner : resource.spec.target.isOwner = true) : secret.data = rendered := by
  unfold prepareTarget at h
  dsimp only at h
  rw [if_pos howner] at h
  split at h
  · cases h
    rfl
  · cases h

/-- A written target is stamped and, under `Owner`, rendered. -/
theorem WroteTarget.spec {c d : Cluster} {release : Release}
    (h : WroteTarget libraries c d release) :
    versionStampOf d.target = release.version ∧ d.source = c.source ∧ d.releases = c.releases ∧
      (d.resource.spec.target.isOwner = true → Rendered libraries d release.version) := by
  obtain ⟨existing, rendered, secret, ⟨older, hreleases⟩, hrender, hprepare, rfl⟩ := h
  have htarget : Cluster.target
      { c with secrets := set c.secrets c.resource.spec.target.name secret } = some secret :=
    lookup_set_self _ _ _
  refine ⟨?_, rfl, rfl, fun howner => ⟨secret, release, htarget, ?_, rfl, ?_⟩⟩
  · rw [htarget]
    exact versionStampOf_prepareTarget hprepare
  · show release ∈ c.releases c.source
    rw [show c.releases c.source = release :: older from hreleases]
    exact List.mem_cons_self
  · rw [prepareTarget_data hprepare howner]
    exact hrender

/-- Whatever status comes after a write, a version that matches the stamp is rendered. -/
theorem WroteTarget.known {c d : Cluster} {release : Release}
    (h : WroteTarget libraries c d release) {status : HimitsuSecretStatus}
    (hmatch : MatchesStamp (d.withStatus status)) :
    Rendered libraries (d.withStatus status) status.configVersion := by
  obtain ⟨hstamp, -, -, hrendered⟩ := h.spec
  obtain ⟨howner, -, -, hversion⟩ := hmatch
  have heq : release.version = status.configVersion := hstamp.symm.trans hversion
  rw [← heq]
  exact hrendered howner

/-- A fetch names a version only for the generation that the status is of. -/
theorem knownVersion_pos {resource : HimitsuSecret} {existing : Option Secret} {version : Int64}
    (h : knownVersion resource existing = version) (hpos : 0 < version) :
    resource.status.configVersion = version ∧ existing.isSome = true ∧
      resource.status.observedGeneration = resource.generation ∧
      versionStampOf existing = resource.status.configVersion := by
  unfold knownVersion at h
  split at h
  · rename_i hcond
    exact ⟨h, hcond.1, hcond.2.2⟩
  · rw [← h] at hpos
    exact absurd hpos (by decide)

/-- The newest release of an environment is not outdated. -/
theorem not_outdated {c : Cluster} {release : Release} {older : List Release}
    (hsorted : (c.releases c.source).Pairwise (·.version > ·.version))
    (hreleases : c.releases c.source = release :: older) : ¬ Outdated c release.version := by
  rintro ⟨newer, hmem, hlt⟩
  rw [hreleases] at hsorted hmem
  obtain rfl | hmem := List.mem_cons.mp hmem
  · exact Int64.lt_irrefl hlt
  · exact Int64.lt_asymm hlt ((List.pairwise_cons.mp hsorted).1 newer hmem)

/-- The invariant after a write, with a status of this generation or an older one. -/
theorem WroteTarget.syncInv {c d : Cluster} {release : Release}
    (h : WroteTarget libraries c d release) (hc : SyncInv libraries c)
    (status : HimitsuSecretStatus) (hobserved : status.observedGeneration ≤ c.resource.generation) :
    SyncInv libraries (d.withStatus status) := by
  obtain ⟨-, -, hreleases, -⟩ := h.spec
  refine ⟨fun source => ?_, ?_, fun _ hmatch => .inr (h.known hmatch)⟩
  · show (d.releases source).Pairwise (·.version > ·.version)
    rw [hreleases]
    exact hc.releases source
  · show status.observedGeneration ≤ d.resource.generation
    rw [h.resource]
    exact hobserved

theorem syncInv_reconcile {c : Cluster} {faults : Faults} (hc : SyncInv libraries c)
    (hguard : ¬ FailsUnrendered libraries factory faults c) :
    SyncInv libraries (reconcile libraries factory faults c).cluster := by
  cases reconcile_cases libraries factory faults c with
  | unrecorded hp hd =>
    obtain hd | ⟨release, hwrote⟩ := hd
    · rw [hd]
      exact hc
    · refine hwrote.syncInv hc (reconcile libraries factory faults c).cluster.resource.status ?_
      rw [hwrote.resource]
      exact hc.observed
  | failed d now reason message hp hd hcluster =>
    rw [hcluster]
    obtain rfl | ⟨release, hwrote⟩ := hd
    · refine ⟨hc.releases, Nat.le_refl _, fun _ hmatch => ?_⟩
      by_cases hobserved : d.resource.status.observedGeneration = d.resource.generation
      · exact hc.known hobserved hmatch
      · by_contra hneither
        obtain ⟨hout, hren⟩ := not_or.mp hneither
        exact hguard ⟨⟨_, hp, _, rfl, rfl⟩, by rw [hcluster]; rfl, hobserved, hmatch, hout, hren⟩
    · exact hwrote.syncInv hc _ (Nat.le_refl _)
  | notModified release older now count hp hreleases hknown hpos hcluster =>
    rw [hcluster]
    obtain ⟨hversion, hsome, hobserved, hstamp⟩ := knownVersion_pos hknown hpos
    refine ⟨hc.releases, Nat.le_refl _, fun _ hmatch => ?_⟩
    have hmatch' : MatchesStamp c :=
      ⟨hmatch.1, by rw [hversion]; exact hpos, hsome, hstamp⟩
    have hknown' := hc.known hobserved hmatch'
    rw [hversion] at hknown'
    exact hknown'
  | synced d release now count hp hd hcluster =>
    rw [hcluster]
    exact hd.syncInv hc _ (Nat.le_refl _)

/-- Versions stay in order. -/
theorem pairwise_publish {releases : Source → List Release} {source : Source} {release : Release}
    (h : ∀ s, (releases s).Pairwise (·.version > ·.version))
    (hnewer : isNewer release (releases source) = true) (s : Source) :
    (if s = source then release :: releases s else releases s).Pairwise
      (·.version > ·.version) := by
  split
  · rename_i hs
    refine List.pairwise_cons.mpr ⟨fun r hr => ?_, h s⟩
    subst hs
    have hsorted := h s
    cases hreleases : releases s with
    | nil =>
      rw [hreleases] at hr
      cases hr
    | cons newest older =>
      rw [hreleases] at hr hnewer hsorted
      have hlt : newest.version < release.version := of_decide_eq_true hnewer
      obtain rfl | hr := List.mem_cons.mp hr
      · exact hlt
      · exact Int64.lt_trans ((List.pairwise_cons.mp hsorted).1 r hr) hlt
  · exact h s

theorem mem_publish {releases : Source → List Release} {s source : Source} {r release : Release}
    (h : r ∈ releases s) : r ∈ if s = source then release :: releases s else releases s := by
  split
  · exact List.mem_cons_of_mem _ h
  · exact h

theorem syncInv_publish {c : Cluster} {source : Source} {release : Release}
    (hc : SyncInv libraries c) (hnewer : isNewer release (c.releases source) = true) :
    SyncInv libraries { c with releases := fun s =>
      if s = source then release :: c.releases s else c.releases s } := by
  refine ⟨pairwise_publish hc.releases hnewer, hc.observed, fun hobserved hmatch => ?_⟩
  obtain ⟨newer, hmem, hlt⟩ | ⟨secret, r, htarget, hmem, hversion, hrender⟩ :=
    hc.known hobserved hmatch
  · exact .inl ⟨newer, mem_publish hmem, hlt⟩
  · exact .inr ⟨secret, r, htarget, mem_publish hmem, hversion, hrender⟩

/-- An edit of another Secret. -/
theorem target_editedSecrets {c : Cluster} {name : String}
    (hname : ¬ name = c.resource.spec.target.name) (secret : Option Secret) :
    (editedSecrets c.secrets name secret).lookup c.resource.spec.target.name = c.target := by
  cases secret with
  | none => exact lookup_erase_of_ne (Ne.symm hname) _
  | some secret => exact lookup_set_of_ne (Ne.symm hname) _ _

/-- An edit of another Secret leaves the target. -/
theorem syncInv_editSecret {c : Cluster} {secrets : List (String × Secret)}
    (hc : SyncInv libraries c)
    (htarget : secrets.lookup c.resource.spec.target.name = c.target) :
    SyncInv libraries { c with secrets := secrets } := by
  refine ⟨hc.releases, hc.observed, fun hobserved hmatch => ?_⟩
  have hsame : Cluster.target { c with secrets := secrets } = c.target := htarget
  unfold MatchesStamp at hmatch
  rw [hsame] at hmatch
  obtain hout | ⟨secret, r, hsecret, hrest⟩ := hc.known hobserved hmatch
  · exact .inl hout
  · exact .inr ⟨secret, r, hsame.trans hsecret, hrest⟩

theorem syncInv_step {c c' : Cluster} {e : Event} (hc : SyncInv libraries c)
    (hguard : NoUnrenderedFailure libraries factory c e)
    (h : step libraries factory c e = some c') : SyncInv libraries c' := by
  cases e with
  | changeSpec spec =>
    cases h
    refine ⟨hc.releases, Nat.le_succ_of_le hc.observed, fun hobserved => ?_⟩
    have hle : c.resource.status.observedGeneration ≤ c.resource.generation := hc.observed
    have heq : c.resource.status.observedGeneration = c.resource.generation + 1 := hobserved
    omega
  | publish source release =>
    rw [step] at h
    split at h
    · rename_i hnewer
      cases h
      exact syncInv_publish hc hnewer
    · cases h
  | editSecret name secret =>
    rw [step] at h
    split at h
    · cases h
    · rename_i hname
      cases h
      exact syncInv_editSecret hc (target_editedSecrets hname secret)
  | reconcile faults =>
    cases h
    exact syncInv_reconcile hc hguard

theorem inSync_of_syncInv {c : Cluster} {faults : Faults} (hc : SyncInv libraries c) :
    InSync libraries (reconcile libraries factory faults c) := by
  rintro ⟨status, condition, hstatus, hcondition, hready, -, -⟩ howner
  cases reconcile_cases libraries factory faults c with
  | unrecorded hp hd =>
    rw [hp] at hstatus
    cases hstatus
  | failed d now reason message hp hd hcluster =>
    rw [hp] at hstatus
    cases hstatus
    cases hcondition
    cases hready
  | notModified release older now count hp hreleases hknown hpos hcluster =>
    rw [hcluster] at howner ⊢
    obtain ⟨hversion, hsome, hobserved, hstamp⟩ := knownVersion_pos hknown hpos
    have hmatch : MatchesStamp c := ⟨howner, by rw [hversion]; exact hpos, hsome, hstamp⟩
    have hknown' := hc.known hobserved hmatch
    rw [hversion] at hknown'
    exact hknown'.resolve_left (not_outdated (hc.releases _) hreleases)
  | synced d release now count hp hd hcluster =>
    rw [hcluster] at howner ⊢
    obtain ⟨-, -, -, hrendered⟩ := hd.spec
    exact hrendered howner

/-- **`Synced` means in sync.**  In every run without a failure stored for an unrendered spec,
each pass that reports `Synced` under `Owner` leaves the target with the current spec's rendering
of the version it reports. -/
theorem synced_inSync {events : List Event} {c₀ c : Cluster} (faults : Faults) (h₀ : Initial c₀)
    (hguard : Runs.Guarded (step libraries factory) (NoUnrenderedFailure libraries factory)
      c₀ events)
    (hrun : Runs.run (step libraries factory) c₀ events = some c) :
    InSync libraries (reconcile libraries factory faults c) := by
  have hkeep : ∀ c e c', SyncInv libraries c → NoUnrenderedFailure libraries factory c e →
      step libraries factory c e = some c' → SyncInv libraries c' :=
    fun _ _ _ => syncInv_step
  exact inSync_of_syncInv (Runs.run_invariant hkeep h₀.syncInv hguard hrun)

end

/-! ## An old version taken for a new spec -/

/-- No call fails. -/
def noFaults : Faults := ⟨0, none, none, none, none, .ok, .ok⟩

def exampleSpec (environmentID : String) : HimitsuSecretSpec :=
  ⟨"https://himitsu.example.com", "project", environmentID, ⟨"auth", "token"⟩,
    ⟨"app", "", .owner, none⟩, 60000000000⟩

/-- Two environments at the same version with different secrets. -/
def exampleCluster : Cluster where
  resource := ⟨"app-config", "apps", "uid", 1, exampleSpec "staging", .empty⟩
  secrets := [("auth", ⟨[], [], "Opaque", [("token", "himi".toUTF8)], none⟩)]
  releases := fun source =>
    if source.environmentID = "staging" then [⟨5, [("A", "1")]⟩] else [⟨5, [("B", "2")]⟩]

theorem exampleCluster_initial : Initial exampleCluster where
  status := rfl
  generation := Nat.le_refl 1
  releases := fun source => by
    show (if source.environmentID = "staging" then _ else _ : List Release).Pairwise _
    split <;> exact List.pairwise_singleton _ _

def exampleFactory : ClientFactory := fun _ _ => .ok ()

/-- The API does not answer. -/
def fetchFault : Faults := { noFaults with fetch := some ⟨false, "connection refused"⟩ }

/-- The spec moves to the other environment, and the first pass after that fails. -/
def moveThenFail : List Event :=
  [.reconcile noFaults, .changeSpec (exampleSpec "production"), .reconcile fetchFault]

/-- The next pass reports `Synced` over the secrets of the old environment. -/
theorem moveThenFail_not_inSync :
    ¬ ∀ (libraries : Libraries) (factory : ClientFactory) (c₀ c : Cluster)
      (events : List Event) (faults : Faults), Initial c₀ →
      Runs.run (step libraries factory) c₀ events = some c →
        InSync libraries (reconcile libraries factory faults c) := by
  intro hsync
  obtain ⟨c, hrun⟩ : ∃ c, Runs.run (step exampleLibraries exampleFactory) exampleCluster
    moveThenFail = some c := ⟨_, rfl⟩
  have hpass := hsync _ _ _ c _ noFaults exampleCluster_initial hrun
  cases hrun
  obtain ⟨secret, release, htarget, hmem, -, hrender⟩ :=
    hpass ⟨_, _, rfl, rfl, rfl, rfl, rfl⟩ rfl
  obtain rfl : release = ⟨5, [("B", "2")]⟩ := List.mem_singleton.mp hmem
  have hA : (some secret).map (·.data.map Prod.fst) = some ["A"] := htarget ▸ rfl
  have hB : ["B"] = secret.data.map Prod.fst :=
    congrArg (List.map Prod.fst) (Except.ok.inj hrender)
  rw [Option.map_some, ← hB] at hA
  exact absurd hA (by decide)

theorem firstPass_guarded : Runs.Guarded (step exampleLibraries exampleFactory)
    (NoUnrenderedFailure exampleLibraries exampleFactory) exampleCluster [.reconcile noFaults] := by
  refine ⟨?_, fun _ _ => trivial⟩
  rintro ⟨-, -, -, ⟨-, hpos, -⟩, -⟩
  exact absurd hpos (by decide)

/-- Two passes without faults. -/
theorem synced_inSync_secondPass :
    SetsSynced (reconcile exampleLibraries exampleFactory noFaults
      (reconcile exampleLibraries exampleFactory noFaults exampleCluster).cluster) ∧
    InSync exampleLibraries (reconcile exampleLibraries exampleFactory noFaults
      (reconcile exampleLibraries exampleFactory noFaults exampleCluster).cluster) :=
  ⟨⟨_, _, rfl, rfl, rfl, rfl, rfl⟩,
    synced_inSync noFaults exampleCluster_initial firstPass_guarded rfl⟩

end Himitsu.Operator
