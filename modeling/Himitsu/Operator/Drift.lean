import Himitsu.Operator.Sync

/-!
# Outside edits of the target

Runs of one `HimitsuSecret` with an unchanged spec under the `Owner` policy, while other parties
edit the data of its target and leave the annotations and labels of the target as they are.

* `Watched` — a cluster and the data that the operator wrote last.
* `Drift` — one event: a new version, an edit of the target's data or of another Secret, a pass.
* `TargetRendered` — the target holds what the spec makes of a version of its environment.
* `TrustsEdit` — the data is not what the operator wrote, while the stamp, the recorded version
  and the newest version of the environment are one.
* `WrittenInv` — what was written last is the rendering of the version on the stamp.

Principal result: `synced_rendered_iff` — a pass that reports `Synced` leaves the rendering of the
version it reports exactly where it does not trust an edit: a 304 is taken for the data, and the
stamp says nothing about the data.
-/

set_option autoImplicit false

namespace Himitsu.Operator

open GoText AssocList

/-! ## Runs with edits -/

/-- Two data maps with the same entries. -/
def SameData (a b : List (String × ByteArray)) : Prop := ∀ key, a.lookup key = b.lookup key

/-- `written` is the data of the last pass that wrote the target. -/
structure Watched where
  cluster : Cluster
  written : Option (List (String × ByteArray))

def Cluster.withData (c : Cluster) (secret : Secret) (data : List (String × ByteArray)) :
    Cluster :=
  { c with secrets := set c.secrets c.resource.spec.target.name { secret with data := data } }

section

variable (libraries : Libraries) (factory : ClientFactory)

/-- The pass leaves the target as a write of the newest release does. -/
def Writes (c : Cluster) (p : Pass) : Prop :=
  ∃ d release status, WroteTarget libraries c d release ∧ p.cluster = d.withStatus status

inductive Drift (w : Watched) : Watched → Prop where
  | publish (source : Source) (release : Release) {c : Cluster}
      (h : step libraries factory w.cluster (.publish source release) = some c) :
      Drift w ⟨c, w.written⟩
  | editOther (name : String) (secret : Option Secret) {c : Cluster}
      (h : step libraries factory w.cluster (.editSecret name secret) = some c) :
      Drift w ⟨c, w.written⟩
  | editData (data : List (String × ByteArray)) {secret : Secret}
      (h : w.cluster.target = some secret) : Drift w ⟨w.cluster.withData secret data, w.written⟩
  | wrote (faults : Faults)
      (h : Writes libraries w.cluster (reconcile libraries factory faults w.cluster)) :
      Drift w ⟨(reconcile libraries factory faults w.cluster).cluster,
        (reconcile libraries factory faults w.cluster).cluster.target.map (·.data)⟩
  | kept (faults : Faults)
      (h : ¬ Writes libraries w.cluster (reconcile libraries factory faults w.cluster)) :
      Drift w ⟨(reconcile libraries factory faults w.cluster).cluster, w.written⟩

/-- What a resource under `Owner` reaches. -/
inductive Drifted : Watched → Prop where
  | initial {c : Cluster} (h : Initial c) (howner : c.resource.spec.target.isOwner = true) :
      Drifted ⟨c, none⟩
  | step {w w' : Watched} (hw : Drifted w) (h : Drift libraries factory w w') : Drifted w'

/-! ## What is claimed of a pass -/

/-- The target's data is the rendering of a version of the environment. -/
def TargetRendered (c : Cluster) (version : Int64) : Prop :=
  ∃ secret release rendered, c.target = some secret ∧ release ∈ c.releases c.source ∧
    release.version = version ∧
    render libraries.printable c.resource.spec release.secrets = .ok rendered ∧
    SameData secret.data rendered

/-- The target's data is not what the operator wrote last, and nothing that the next pass compares
shows it. -/
structure TrustsEdit (w : Watched) : Prop where
  edited : ∃ secret data, w.cluster.target = some secret ∧ w.written = some data ∧
    ¬ SameData secret.data data
  recorded : 0 < w.cluster.resource.status.configVersion
  observed : w.cluster.resource.status.observedGeneration = w.cluster.resource.generation
  stamp : versionStampOf w.cluster.target = w.cluster.resource.status.configVersion
  newest : ((w.cluster.releases w.cluster.source).head?).map (·.version) =
    some w.cluster.resource.status.configVersion

/-! ## The invariant -/

/-- What was written last is the rendering of the version on the target's stamp. -/
structure WrittenInv (w : Watched) : Prop where
  owner : w.cluster.resource.spec.target.isOwner = true
  releases : ∀ source, (w.cluster.releases source).Pairwise (·.version > ·.version)
  written : ∀ data, w.written = some data → ∃ secret release, w.cluster.target = some secret ∧
    release ∈ w.cluster.releases w.cluster.source ∧
    versionStampOf (some secret) = release.version ∧
    render libraries.printable w.cluster.resource.spec release.secrets = .ok data
  recorded : 0 < w.cluster.resource.status.configVersion → w.written.isSome = true

variable {libraries factory}

/-- The recorded version after a pass that does not write is the one before. -/
theorem configVersion_of_not_writes {c : Cluster} {faults : Faults}
    (h : ¬ Writes libraries c (reconcile libraries factory faults c)) :
    ∃ status, (reconcile libraries factory faults c).cluster = c.withStatus status ∧
      status.configVersion = c.resource.status.configVersion := by
  cases reconcile_cases libraries factory faults c with
  | unrecorded hp hd =>
    obtain hd | ⟨release, hwrote⟩ := hd
    · exact ⟨c.resource.status, hd, rfl⟩
    · exact absurd ⟨_, release, _, hwrote, rfl⟩ h
  | failed d now reason message hp hd hcluster =>
    obtain rfl | ⟨release, hwrote⟩ := hd
    · exact ⟨_, hcluster, rfl⟩
    · exact absurd ⟨d, release, _, hwrote, hcluster⟩ h
  | notModified release older now count hp hreleases hknown hpos hcluster =>
    exact ⟨_, hcluster, (knownVersion_pos hknown hpos).1.symm⟩
  | synced d release now count hp hd hcluster =>
    exact absurd ⟨d, release, _, hd, hcluster⟩ h

theorem writtenInv_publish {w : Watched} {source : Source} {release : Release} {c : Cluster}
    (hw : WrittenInv libraries w)
    (h : step libraries factory w.cluster (.publish source release) = some c) :
    WrittenInv libraries ⟨c, w.written⟩ := by
  rw [step] at h
  split at h
  · rename_i hnewer
    cases h
    refine ⟨hw.owner, pairwise_publish hw.releases hnewer, fun data hdata => ?_, hw.recorded⟩
    obtain ⟨secret, r, htarget, hmem, hrest⟩ := hw.written data hdata
    exact ⟨secret, r, htarget, mem_publish hmem, hrest⟩
  · cases h

theorem writtenInv_editOther {w : Watched} {name : String} {secret : Option Secret} {c : Cluster}
    (hw : WrittenInv libraries w)
    (h : step libraries factory w.cluster (.editSecret name secret) = some c) :
    WrittenInv libraries ⟨c, w.written⟩ := by
  rw [step] at h
  split at h
  · cases h
  · rename_i hname
    cases h
    refine ⟨hw.owner, hw.releases, fun data hdata => ?_, hw.recorded⟩
    obtain ⟨target, r, htarget, hrest⟩ := hw.written data hdata
    exact ⟨target, r, (target_editedSecrets hname secret).trans htarget, hrest⟩

/-- The stamp stays where the annotations stay. -/
theorem writtenInv_editData {w : Watched} {secret : Secret} {data : List (String × ByteArray)}
    (hw : WrittenInv libraries w) (h : w.cluster.target = some secret) :
    WrittenInv libraries ⟨w.cluster.withData secret data, w.written⟩ := by
  refine ⟨hw.owner, hw.releases, fun written hwritten => ?_, hw.recorded⟩
  obtain ⟨target, r, htarget, hmem, hstamp, hrender⟩ := hw.written written hwritten
  obtain rfl : target = secret := Option.some.inj (htarget.symm.trans h)
  exact ⟨{ target with data := data }, r, lookup_set_self _ _ _, hmem, hstamp, hrender⟩

theorem writtenInv_wrote {w : Watched} {p : Pass} (hw : WrittenInv libraries w)
    (h : Writes libraries w.cluster p) :
    WrittenInv libraries ⟨p.cluster, p.cluster.target.map (·.data)⟩ := by
  obtain ⟨d, release, status, hwrote, hcluster⟩ := h
  obtain ⟨hstamp, -, hreleases, hrendered⟩ := hwrote.spec
  have howner : d.resource.spec.target.isOwner = true := by
    rw [hwrote.resource]
    exact hw.owner
  obtain ⟨secret, r, htarget, hmem, hversion, hrender⟩ := hrendered howner
  have htarget' : (d.withStatus status).target = some secret := htarget
  rw [hcluster, htarget']
  refine ⟨howner, fun source => ?_, fun data hdata => ?_, fun _ => rfl⟩
  · show (d.releases source).Pairwise (·.version > ·.version)
    rw [hreleases]
    exact hw.releases source
  · cases hdata
    refine ⟨secret, r, htarget', hmem, ?_, hrender⟩
    rw [hversion, ← hstamp, htarget]

theorem writtenInv_kept {w : Watched} {faults : Faults} (hw : WrittenInv libraries w)
    (h : ¬ Writes libraries w.cluster (reconcile libraries factory faults w.cluster)) :
    WrittenInv libraries ⟨(reconcile libraries factory faults w.cluster).cluster, w.written⟩ := by
  obtain ⟨status, hcluster, hversion⟩ := configVersion_of_not_writes h
  rw [hcluster]
  refine ⟨hw.owner, hw.releases, hw.written, fun hpos => hw.recorded ?_⟩
  rw [← hversion]
  exact hpos

theorem Drifted.inv {w : Watched} (h : Drifted libraries factory w) : WrittenInv libraries w := by
  induction h with
  | initial h howner =>
    refine ⟨howner, h.releases, fun data hdata => (nomatch hdata), fun hpos => ?_⟩
    rw [h.status] at hpos
    exact absurd hpos (by decide)
  | step hw h ih =>
    cases h with
    | publish source release h => exact writtenInv_publish ih h
    | editOther name secret h => exact writtenInv_editOther ih h
    | editData data h => exact writtenInv_editData ih h
    | wrote faults h => exact writtenInv_wrote ih h
    | kept faults h => exact writtenInv_kept ih h

/-! ## One pass -/

/-- A fetch that names the newest version leaves the target. -/
theorem target_of_known {c : Cluster} {faults : Faults} {release : Release}
    {older : List Release} (hreleases : c.releases c.source = release :: older)
    (hpos : 0 < release.version) (hknown : knownVersion c.resource c.target = release.version) :
    (reconcile libraries factory faults c).cluster.target = c.target := by
  have hstatus : ∀ status requeueAfter,
      (updateStatus faults c status requeueAfter).cluster.target = c.target := by
    intro status requeueAfter
    obtain ⟨-, hc⟩ | ⟨-, hc⟩ := updateStatus_cases faults c status requeueAfter
    · rw [hc]
    · rw [hc]
      rfl
  have hfetch : (fetchAndWrite libraries faults c c.target).cluster.target = c.target := by
    unfold fetchAndWrite
    split
    · exact hstatus _ _
    · exact hstatus _ _
    · rename_i version secrets hconfig
      rw [hknown] at hconfig
      unfold runtimeConfig at hconfig
      obtain ⟨-, -, hconfig⟩ := Except.bind_eq_ok_iff.mp hconfig
      obtain ⟨-, -, hconfig⟩ := Except.bind_eq_ok_iff.mp hconfig
      split at hconfig
      · cases hconfig
      · cases hconfig
      · rename_i newest older' hfetch hnewest
        have hsame : newest = release :=
          (List.cons.inj (hnewest.symm.trans hreleases)).1
        rw [if_pos ⟨hpos, by rw [hsame]⟩] at hconfig
        cases hconfig
  unfold reconcile
  split
  · rfl
  · split
    · exact hstatus _ _
    · split
      · exact hstatus _ _
      · split
        · exact hstatus _ _
        · rename_i existing htarget
          split
          · exact hstatus _ _
          · have hexisting : existing = c.target := by
              unfold loadTarget at htarget
              split at htarget
              · cases htarget
              · exact (Except.ok.inj htarget).symm
            rw [hexisting]
            exact hfetch

/-- A pass that reports `Synced` reports the newest version: the target already carried it, or the
pass has written it. -/
theorem setsSynced_cases {c : Cluster} {faults : Faults}
    (howner : c.resource.spec.target.isOwner = true)
    (h : SetsSynced (reconcile libraries factory faults c)) :
    ∃ release older, c.releases c.source = release :: older ∧
      (reconcile libraries factory faults c).cluster.resource.status.configVersion =
        release.version ∧
      (reconcile libraries factory faults c).cluster.resource.spec = c.resource.spec ∧
      (reconcile libraries factory faults c).cluster.releases = c.releases ∧
      (knownVersion c.resource c.target = release.version ∧ 0 < release.version ∧
          (reconcile libraries factory faults c).cluster.target = c.target ∨
        Rendered libraries (reconcile libraries factory faults c).cluster release.version) := by
  obtain ⟨status, condition, hstatus, hcondition, hready, -, -⟩ := h
  cases reconcile_cases libraries factory faults c with
  | unrecorded hp hd =>
    rw [hp] at hstatus
    cases hstatus
  | failed d now reason message hp hd hcluster =>
    rw [hp] at hstatus
    cases hstatus
    cases hcondition
    cases hready
  | notModified release older now count hp hreleases hknown hpos hcluster =>
    rw [hcluster]
    exact ⟨release, older, hreleases, rfl, rfl, rfl, .inl ⟨hknown, hpos, rfl⟩⟩
  | synced d release now count hp hd hcluster =>
    have hresource := hd.resource
    obtain ⟨-, -, hreleases, hrendered⟩ := hd.spec
    have hrendered := hrendered (by rw [hresource]; exact howner)
    obtain ⟨existing, rendered, secret, ⟨older, hnewest⟩, -⟩ := hd
    rw [hcluster]
    refine ⟨release, older, hnewest, rfl, ?_, hreleases, .inr hrendered⟩
    show d.resource.spec = c.resource.spec
    rw [hresource]

/-- Versions of an environment are distinct. -/
theorem release_unique {releases : List Release}
    (h : releases.Pairwise (·.version > ·.version)) {a b : Release} (ha : a ∈ releases)
    (hb : b ∈ releases) (hversion : a.version = b.version) : a = b := by
  have hnodup : (releases.map Release.version).Nodup := by
    refine List.pairwise_map.mpr (h.imp ?_)
    intro a b hlt heq
    rw [heq] at hlt
    exact Int64.lt_irrefl hlt
  exact List.inj_on_of_nodup_map hnodup ha hb hversion

/-- **A pass is in sync exactly where it does not trust an edit.**  In every run under `Owner`, with
any versions published, any edits of the target's data and any calls failing, a pass that reports
`Synced` leaves the rendering of the version it reports, unless it begins while the data is not
what the operator wrote last and the stamp, the recorded version and the newest version of the
environment are equal. -/
theorem synced_rendered_iff {w : Watched} (hw : Drifted libraries factory w) (faults : Faults)
    (hsynced : SetsSynced (reconcile libraries factory faults w.cluster)) :
    TargetRendered libraries (reconcile libraries factory faults w.cluster).cluster
        (reconcile libraries factory faults w.cluster).cluster.resource.status.configVersion ↔
      ¬ TrustsEdit w := by
  have hinv := hw.inv
  obtain ⟨release, older, hreleases, hreport, hspec, hsame, hcase⟩ :=
    setsSynced_cases hinv.owner hsynced
  have hsource : (reconcile libraries factory faults w.cluster).cluster.source =
      w.cluster.source := congrArg HimitsuSecretSpec.source hspec
  rw [hreport]
  constructor
  · rintro ⟨secret, r, rendered, htarget, hmem, hversion, hrender, hdata⟩ htrust
    obtain ⟨edited, data, hedited, hwritten, hdiffers⟩ := htrust.edited
    have hnewest : release.version = w.cluster.resource.status.configVersion := by
      have hhead := htrust.newest
      rw [hreleases] at hhead
      exact Option.some.inj hhead
    have hpos : 0 < release.version := by
      rw [hnewest]
      exact htrust.recorded
    have hknown : knownVersion w.cluster.resource w.cluster.target = release.version := by
      rw [hnewest, knownVersion, if_pos]
      exact ⟨by rw [hedited]; rfl, htrust.recorded, htrust.observed, htrust.stamp⟩
    rw [target_of_known hreleases hpos hknown, hedited] at htarget
    obtain rfl : edited = secret := Option.some.inj htarget
    -- The release on the stamp is the one that the pass reports.
    obtain ⟨target, stamped, htarget', hstamped, hstamp, hwrote⟩ := hinv.written data hwritten
    obtain rfl : edited = target := Option.some.inj (hedited.symm.trans htarget')
    rw [hsame, hsource] at hmem
    have hunique : stamped = r := by
      refine release_unique (hinv.releases _) hstamped hmem ?_
      rw [← hstamp, hversion, hnewest, ← htrust.stamp, hedited]
    rw [hspec, ← hunique, hwrote] at hrender
    cases hrender
    exact hdiffers hdata
  · intro htrust
    obtain ⟨hknown, hpos, htarget⟩ | ⟨secret, r, htarget, hmem, hversion, hrender⟩ := hcase
    · obtain ⟨hrecorded, -, hobserved, hstamp⟩ := knownVersion_pos hknown hpos
      have hwritten := hinv.recorded (by rw [hrecorded]; exact hpos)
      obtain ⟨data, hdata⟩ := Option.isSome_iff_exists.mp hwritten
      obtain ⟨secret, stamped, hsecret, hstamped, hstamp', hwrote⟩ := hinv.written data hdata
      refine ⟨secret, stamped, data, htarget.trans hsecret, ?_, ?_, ?_, ?_⟩
      · rw [hsame, hsource]
        exact hstamped
      · rw [← hstamp', ← hsecret, hstamp, hrecorded]
      · rw [hspec]
        exact hwrote
      · by_contra hdiffers
        refine htrust ⟨⟨secret, data, hsecret, hdata, hdiffers⟩, ?_, hobserved, hstamp, ?_⟩
        · rw [hrecorded]
          exact hpos
        · rw [hreleases, hrecorded]
          rfl
    · exact ⟨secret, r, secret.data, htarget, hmem, hversion, hrender, fun _ => rfl⟩

end

/-! ## An edit that stays -/

theorem firstPass_writes :
    Writes exampleLibraries exampleCluster
      (reconcile exampleLibraries exampleFactory noFaults exampleCluster) :=
  ⟨_, ⟨5, [("A", "1")]⟩, _, ⟨none, _, _, ⟨[], rfl⟩, rfl, rfl, rfl⟩, rfl⟩

/-- The first pass writes the target, somebody changes `A`, and the environment gets a new version:
the next pass puts the target right. -/
theorem synced_rendered_iff_published :
    ∃ w edited written, Drifted exampleLibraries exampleFactory w ∧
      w.cluster.target = some edited ∧ w.written = some written ∧ ¬ SameData edited.data written ∧
      SetsSynced (reconcile exampleLibraries exampleFactory noFaults w.cluster) ∧
      TargetRendered exampleLibraries
        (reconcile exampleLibraries exampleFactory noFaults w.cluster).cluster
        (reconcile exampleLibraries exampleFactory noFaults
          w.cluster).cluster.resource.status.configVersion := by
  have hfirst : Drifted exampleLibraries exampleFactory _ :=
    .step (.initial exampleCluster_initial rfl) (.wrote noFaults firstPass_writes)
  have hedited := hfirst.step (.editData [("A", "edited".toUTF8)] rfl)
  have hpublished := hedited.step
    (.publish (exampleSpec "staging").source ⟨6, [("A", "2")]⟩ rfl)
  refine ⟨_, _, _, hpublished, rfl, rfl, fun hsame => ?_, ⟨_, _, rfl, rfl, rfl, rfl, rfl⟩,
    (synced_rendered_iff hpublished noFaults ⟨_, _, rfl, rfl, rfl, rfl, rfl⟩).mpr ?_⟩
  · exact absurd (Option.some.inj (hsame "A")) (by decide)
  · rintro ⟨-, -, -, -, hnewest⟩
    exact absurd (Option.some.inj hnewest) (by decide)

/-- The first pass writes the target, then somebody changes `A` to `edited`: the next pass reports
`Synced` over the edit. -/
theorem edit_not_rendered :
    ¬ ∀ (libraries : Libraries) (factory : ClientFactory) (w : Watched) (faults : Faults),
      Drifted libraries factory w → SetsSynced (reconcile libraries factory faults w.cluster) →
        TargetRendered libraries (reconcile libraries factory faults w.cluster).cluster
          (reconcile libraries factory faults w.cluster).cluster.resource.status.configVersion := by
  intro hsync
  have hfirst : Drifted exampleLibraries exampleFactory _ :=
    .step (.initial exampleCluster_initial rfl) (.wrote noFaults firstPass_writes)
  have hedited := hfirst.step (.editData [("A", "edited".toUTF8)] rfl)
  obtain ⟨secret, release, rendered, htarget, hmem, -, hrender, hdata⟩ :=
    hsync _ _ _ noFaults hedited ⟨_, _, rfl, rfl, rfl, rfl, rfl⟩
  obtain rfl : release = ⟨5, [("A", "1")]⟩ := List.mem_singleton.mp hmem
  have hedit : (some secret).map (·.data) = some [("A", "edited".toUTF8)] := htarget ▸ rfl
  have hsecret : secret.data = [("A", "edited".toUTF8)] := Option.some.inj hedit
  have hrendered : [("A", "1".toUTF8)] = rendered := Except.ok.inj hrender
  have hA := hdata "A"
  rw [hsecret, ← hrendered] at hA
  exact absurd (Option.some.inj hA) (by decide)

end Himitsu.Operator
