import Himitsu.Library.Runs
import Himitsu.Operator.Sync

/-!
# Changes of the creation policy

Histories of one `HimitsuSecret`: changes of its spec, passes, and other parties that edit and delete
Secrets of the namespace but do not make the resource their owner.

* `storedTarget` — the Secret that a pass stores, if it stores one; `reconcile_secrets`.
* `History` — a cluster, with the Secrets that passes under `Owner` have stored.
* `historyStep` — one event; a Secret counts as stored under `Owner` until somebody else deletes it or
  takes the reference from it.
* `LeavesNoReference` — what is claimed of a pass under `Merge`.
* `OwnedInv` — the Secrets with a reference to the resource are those stored under `Owner`.

Principal result: `merge_reference_iff` — the passes of a history under `Merge` leave no reference to
the resource exactly where none of them stores a Secret that was stored under `Owner` before.
-/

set_option autoImplicit false

namespace Himitsu.Operator

open GoText AssocList

section

variable (libraries : Libraries) (factory : ClientFactory)

/-! ## What a pass stores -/

/-- The write of the target takes effect. -/
def WriteReply.stores : WriteReply → Bool
  | .ok | .lost _ => true
  | .conflict | .notFound | .rejected _ => false

/-- The Secret that is sent once the target has been read. -/
def fetchedTarget (faults : Faults) (c : Cluster) (existing : Option Secret) : Option Secret :=
  match runtimeConfig faults c (knownVersion c.resource existing) with
  | .error _ | .ok (.notModified _) => none
  | .ok (.modified configVersion secrets) =>
    match render libraries.printable c.resource.spec secrets with
    | .error _ => none
    | .ok rendered => (prepareTarget libraries c.resource existing rendered configVersion).toOption

def sentTarget (faults : Faults) (c : Cluster) : Option Secret :=
  match faults.getResource, resolveToken libraries faults c with
  | some _, _ | none, .error _ => none
  | none, .ok token =>
    match factory c.resource.spec.apiURL token, loadTarget faults c with
    | .error _, _ | .ok (), .error _ => none
    | .ok (), .ok existing =>
      match existing.bind (checkOwnership libraries c.resource) with
      | some _ => none
      | none => fetchedTarget libraries faults c existing

def storedTarget (faults : Faults) (c : Cluster) : Option Secret :=
  if faults.writeTarget.stores then sentTarget libraries factory faults c else none

/-! ## Histories -/

def references (uid : String) (secret : Option Secret) : Bool :=
  (secret.bind (·.controller)).map (·.uid) == some uid

/-- `owned` names the Secrets that were stored under `Owner`. -/
structure History where
  cluster : Cluster
  owned : List String

def History.secret (h : History) (name : String) : Option Secret := h.cluster.secrets.lookup name

def History.target (h : History) : String := h.cluster.resource.spec.target.name

def historyStep (h : History) : Event → Option History
  | .editSecret name secret =>
    let uid := h.cluster.resource.uid
    if references uid secret then
      if references uid (h.secret name) then
        some { h with cluster := { h.cluster with
          secrets := editedSecrets h.cluster.secrets name secret } }
      else none
    else
      some { cluster := { h.cluster with secrets := editedSecrets h.cluster.secrets name secret }
             owned := h.owned.filter (· != name) }
  | .reconcile faults =>
    let stored := storedTarget libraries factory faults h.cluster
    some { cluster := (reconcile libraries factory faults h.cluster).cluster
           owned := if stored.isSome && h.cluster.resource.spec.target.isOwner then
             h.target :: h.owned else h.owned }
  | e => (step libraries factory h.cluster e).map fun c => { h with cluster := c }

/-- A pass under `Merge` that stores the target. -/
def StoresMerged (h : History) : Event → Bool
  | .reconcile faults =>
    (storedTarget libraries factory faults h.cluster).isSome &&
      !h.cluster.resource.spec.target.isOwner
  | _ => false

/-- Such a pass leaves no reference to the resource on the target. -/
def LeavesNoReference (h : History) (e : Event) : Prop :=
  StoresMerged libraries factory h e = true → ∀ h', historyStep libraries factory h e = some h' →
    references h'.cluster.resource.uid (h'.secret h'.target) = false

/-- No pass has stored the target under `Owner`. -/
def NotOwnedBefore (h : History) (e : Event) : Prop :=
  StoresMerged libraries factory h e = true → h.target ∉ h.owned

/-- The Secrets with a reference are those that were stored under `Owner`. -/
def OwnedInv (h : History) : Prop :=
  ∀ name, references h.cluster.resource.uid (h.secret name) = true ↔ name ∈ h.owned

end

/-! ## The Secrets after a pass -/

section

variable {libraries : Libraries} {factory : ClientFactory}

/-- A pass leaves the spec and the uid of its resource. -/
structure SameResource (c d : Cluster) : Prop where
  spec : d.resource.spec = c.resource.spec
  uid : d.resource.uid = c.resource.uid

theorem updateStatus_cluster (faults : Faults) (d : Cluster) (status : HimitsuSecretStatus)
    (requeueAfter : Int) :
    (updateStatus faults d status requeueAfter).cluster.secrets = d.secrets ∧
      SameResource d (updateStatus faults d status requeueAfter).cluster := by
  unfold updateStatus
  split <;> exact ⟨rfl, rfl, rfl⟩

/-- The cluster after the target is stored, or not. -/
def Cluster.storing (c : Cluster) : Option Secret → List (String × Secret)
  | none => c.secrets
  | some secret => set c.secrets c.resource.spec.target.name secret

/-- The cluster that a write leaves. -/
theorem writeTarget_secrets (faults : Faults) (c : Cluster) (existing : Option Secret)
    (rendered : List (String × ByteArray)) (configVersion : Int64) :
    (writeTarget libraries faults c existing rendered configVersion).1.secrets =
        c.storing (if faults.writeTarget.stores then
          (prepareTarget libraries c.resource existing rendered configVersion).toOption else none) ∧
      SameResource c (writeTarget libraries faults c existing rendered configVersion).1 := by
  unfold writeTarget
  cases prepareTarget libraries c.resource existing rendered configVersion with
  | error message =>
    refine ⟨?_, rfl, rfl⟩
    simp only [Except.toOption, ite_self]
    rfl
  | ok secret => cases faults.writeTarget <;> exact ⟨rfl, rfl, rfl⟩

theorem SameResource.trans {c d e : Cluster} (h : SameResource c d) (h' : SameResource d e) :
    SameResource c e :=
  ⟨h'.spec.trans h.spec, h'.uid.trans h.uid⟩

/-- A pass that ends with its status. -/
theorem updateStatus_after {c d : Cluster} {stored : Option Secret} (faults : Faults)
    (hd : d.secrets = c.storing stored ∧ SameResource c d) (status : HimitsuSecretStatus)
    (requeueAfter : Int) :
    (updateStatus faults d status requeueAfter).cluster.secrets = c.storing stored ∧
      SameResource c (updateStatus faults d status requeueAfter).cluster := by
  obtain ⟨hsecrets, hsame⟩ := updateStatus_cluster faults d status requeueAfter
  exact ⟨hsecrets.trans hd.1, hd.2.trans hsame⟩

theorem storing_none (c : Cluster) : c.secrets = c.storing none ∧ SameResource c c :=
  ⟨rfl, rfl, rfl⟩

theorem fetchAndWrite_secrets (faults : Faults) (c : Cluster) (existing : Option Secret) :
    (fetchAndWrite libraries faults c existing).cluster.secrets =
        c.storing (if faults.writeTarget.stores then fetchedTarget libraries faults c existing
          else none) ∧
      SameResource c (fetchAndWrite libraries faults c existing).cluster := by
  unfold fetchAndWrite fetchedTarget
  cases runtimeConfig faults c (knownVersion c.resource existing) with
  | error error =>
    simp only [ite_self]
    exact updateStatus_after faults (storing_none c) _ _
  | ok config =>
    cases config with
    | notModified configVersion =>
      simp only [ite_self]
      exact updateStatus_after faults (storing_none c) _ _
    | modified configVersion secrets =>
      simp only
      cases render libraries.printable c.resource.spec secrets with
      | error message =>
        simp only [ite_self]
        exact updateStatus_after faults (storing_none c) _ _
      | ok rendered =>
        have hwrite :=
          @writeTarget_secrets libraries faults c existing rendered configVersion
        simp only
        generalize writeTarget libraries faults c existing rendered configVersion = result at hwrite
        obtain ⟨written, error⟩ := result
        cases error with
        | none => exact updateStatus_after faults hwrite _ _
        | some error =>
          cases error with
          | conflict => exact hwrite
          | failed message => exact updateStatus_after faults hwrite _ _

/-- **The Secrets after a pass.** -/
theorem reconcile_secrets (faults : Faults) (c : Cluster) :
    (reconcile libraries factory faults c).cluster.secrets =
        c.storing (storedTarget libraries factory faults c) ∧
      SameResource c (reconcile libraries factory faults c).cluster := by
  unfold reconcile storedTarget sentTarget
  cases faults.getResource with
  | some message =>
    simp only [ite_self]
    exact storing_none c
  | none =>
    cases resolveToken libraries faults c with
    | error message =>
      simp only [ite_self]
      exact updateStatus_after faults (storing_none c) _ _
    | ok token =>
      simp only
      cases factory c.resource.spec.apiURL token with
      | error message =>
        simp only [ite_self]
        exact updateStatus_after faults (storing_none c) _ _
      | ok _ =>
        cases loadTarget faults c with
        | error message =>
          simp only [ite_self]
          exact updateStatus_after faults (storing_none c) _ _
        | ok existing =>
          simp only
          cases existing.bind (checkOwnership libraries c.resource) with
          | some conflict =>
            simp only [ite_self]
            exact updateStatus_after faults (storing_none c) _ _
          | none => exact fetchAndWrite_secrets faults c existing

/-- The reference on the Secret that a pass stores. -/
theorem storedTarget_controller {faults : Faults} {c : Cluster} {secret : Secret}
    (h : storedTarget libraries factory faults c = some secret) :
    secret.controller = if c.resource.spec.target.isOwner then some c.resource.reference
      else c.target.bind (·.controller) := by
  have hprepare : ∀ {existing : Option Secret} {rendered : List (String × ByteArray)}
      {configVersion : Int64},
      prepareTarget libraries c.resource existing rendered configVersion = .ok secret →
      secret.controller = if c.resource.spec.target.isOwner then some c.resource.reference
        else existing.bind (·.controller) := by
    intro existing rendered configVersion hprepared
    unfold prepareTarget at hprepared
    simp only at hprepared
    split at hprepared
    · rename_i howner
      rw [if_pos howner]
      split at hprepared
      · rename_i hset
        cases hprepared
        exact congrArg some (Libraries.eq_owner hset)
      · cases hprepared
    · rename_i howner
      rw [if_neg howner]
      cases hprepared
      cases existing <;> rfl
  unfold storedTarget sentTarget at h
  split at h
  · split at h
    · cases h
    · cases h
    · split at h
      · cases h
      · cases h
      · rename_i existing _ hload
        split at h
        · cases h
        · have hexisting : existing = c.target := by
            unfold loadTarget at hload
            split at hload
            · cases hload
            · exact (Except.ok.inj hload).symm
          subst hexisting
          unfold fetchedTarget at h
          split at h
          · cases h
          · cases h
          · split at h
            · cases h
            · rename_i rendered _
              cases hsent : prepareTarget libraries c.resource c.target rendered _ with
              | error message =>
                rw [hsent] at h
                cases h
              | ok sent =>
                rw [hsent] at h
                obtain rfl : sent = secret := Option.some.inj h
                exact hprepare hsent
  · cases h

/-! ## The invariant -/

theorem lookup_editedSecrets (secrets : List (String × Secret)) (name other : String)
    (secret : Option Secret) :
    (editedSecrets secrets name secret).lookup other =
      if other = name then secret else secrets.lookup other := by
  cases secret with
  | none =>
    by_cases hname : other = name
    · rw [if_pos hname, hname]
      exact lookup_erase_self _ _
    · rw [if_neg hname]
      exact lookup_erase_of_ne hname _
  | some secret => exact lookup_set secrets name other secret

theorem lookup_storing (c : Cluster) (stored : Option Secret) (name : String) :
    (c.storing stored).lookup name =
      if name = c.resource.spec.target.name ∧ stored.isSome = true then stored
      else c.secrets.lookup name := by
  cases stored with
  | none => simp [Cluster.storing]
  | some secret => simp [Cluster.storing, lookup_set]

theorem references_iff {uid : String} {secret : Option Secret} :
    references uid secret = true ↔ (secret.bind (·.controller)).map (·.uid) = some uid := by
  unfold references
  exact beq_iff_eq

/-- What a stored Secret refers to. -/
theorem references_stored {faults : Faults} {h : History} {secret : Secret}
    (hstored : storedTarget libraries factory faults h.cluster = some secret) :
    references h.cluster.resource.uid (some secret) =
      (h.cluster.resource.spec.target.isOwner ||
        references h.cluster.resource.uid (h.secret h.target)) := by
  unfold references
  rw [Option.bind_some, storedTarget_controller hstored]
  by_cases howner : h.cluster.resource.spec.target.isOwner = true
  · rw [if_pos howner, howner]
    simp [HimitsuSecret.reference]
  · rw [if_neg howner, Bool.eq_false_iff.mpr howner, Bool.false_or]
    rfl

theorem ownedInv_reconcile {h : History} {faults : Faults} (hinv : OwnedInv h) :
    OwnedInv
      { cluster := (reconcile libraries factory faults h.cluster).cluster
        owned := if (storedTarget libraries factory faults h.cluster).isSome &&
            h.cluster.resource.spec.target.isOwner then h.target :: h.owned else h.owned } := by
  intro name
  obtain ⟨hsecrets, -, huid⟩ := @reconcile_secrets libraries factory faults h.cluster
  show references (reconcile libraries factory faults h.cluster).cluster.resource.uid
    ((reconcile libraries factory faults h.cluster).cluster.secrets.lookup name) = true ↔ _
  rw [huid, hsecrets, lookup_storing]
  have hbefore := hinv name
  unfold History.secret at hbefore
  cases hstored : storedTarget libraries factory faults h.cluster with
  | none => simpa using hbefore
  | some secret =>
    simp only [Option.isSome_some, and_true, Bool.true_and]
    by_cases hname : name = h.cluster.resource.spec.target.name
    · rw [if_pos hname, references_stored hstored, Bool.or_eq_true, hinv h.target,
        show name = h.target from hname]
      split
      · rename_i howner
        simp [howner]
      · rename_i howner
        simp [howner]
    · rw [if_neg hname, hbefore]
      split
      · have hother : name ≠ h.target := hname
        simp [hother]
      · exact Iff.rfl

theorem ownedInv_editSecret {h h' : History} {name : String} {secret : Option Secret}
    (hinv : OwnedInv h)
    (hstep : historyStep libraries factory h (.editSecret name secret) = some h') :
    OwnedInv h' := by
  simp only [historyStep] at hstep
  split at hstep
  · rename_i hrefers
    split at hstep
    · rename_i hbefore
      cases hstep
      intro other
      show references _ ((editedSecrets _ _ _).lookup other) = true ↔ _
      rw [lookup_editedSecrets]
      split
      · rename_i hother
        rw [hother, hrefers]
        exact ⟨fun _ => (hinv name).mp hbefore, fun _ => rfl⟩
      · exact hinv other
    · cases hstep
  · rename_i hrefers
    cases hstep
    intro other
    show references _ ((editedSecrets _ _ _).lookup other) = true ↔ _
    rw [lookup_editedSecrets, List.mem_filter]
    split
    · rename_i hother
      simp [hother, hrefers]
    · rename_i hother
      rw [show references h.cluster.resource.uid (h.cluster.secrets.lookup other) = true ↔
        other ∈ h.owned from hinv other]
      simp [hother]

/-- **Every event keeps the invariant.** -/
theorem ownedInv_step {h h' : History} {e : Event} (hinv : OwnedInv h)
    (hstep : historyStep libraries factory h e = some h') : OwnedInv h' := by
  cases e with
  | changeSpec spec =>
    cases hstep
    exact hinv
  | publish source release =>
    simp only [historyStep, step] at hstep
    split at hstep
    · cases hstep
      exact hinv
    · cases hstep
  | editSecret name secret => exact ownedInv_editSecret hinv hstep
  | reconcile faults =>
    cases hstep
    exact ownedInv_reconcile hinv

/-- A pass under `Merge` keeps the reference that it finds. -/
theorem leavesNoReference_iff {h : History} (hinv : OwnedInv h) (e : Event) :
    LeavesNoReference libraries factory h e ↔ NotOwnedBefore libraries factory h e := by
  unfold LeavesNoReference NotOwnedBefore
  refine forall_congr' fun hmerged => ?_
  cases e with
  | changeSpec | publish | editSecret => cases hmerged
  | reconcile faults =>
    unfold StoresMerged at hmerged
    rw [Bool.and_eq_true, Bool.not_eq_true'] at hmerged
    obtain ⟨hsome, howner⟩ := hmerged
    obtain ⟨secret, hstored⟩ := Option.isSome_iff_exists.mp hsome
    obtain ⟨hsecrets, hspec, huid⟩ := @reconcile_secrets libraries factory faults h.cluster
    have hafter : references
        (reconcile libraries factory faults h.cluster).cluster.resource.uid
        ((reconcile libraries factory faults h.cluster).cluster.secrets.lookup
          (reconcile libraries factory faults h.cluster).cluster.resource.spec.target.name) =
        references h.cluster.resource.uid (h.secret h.target) := by
      rw [huid, hsecrets, hspec, lookup_storing, hstored,
        if_pos ⟨rfl, rfl⟩, references_stored hstored, howner, Bool.false_or]
    constructor
    · intro hleaves
      have hnone := hleaves _ rfl
      rw [← hinv h.target, ← hafter]
      exact Bool.eq_false_iff.mp hnone
    · intro hfree h' hstep
      cases hstep
      rw [← hinv h.target, ← hafter] at hfree
      exact Bool.eq_false_iff.mpr hfree

end

/-! ## Histories -/

/-- Nothing in the namespace refers to the resource. -/
def Unreferenced (c : Cluster) : Prop :=
  ∀ name, references c.resource.uid (c.secrets.lookup name) = false

/-- **The passes of a history under `Merge` leave no reference to the resource exactly where none of
them stores a Secret that was stored under `Owner`.** -/
theorem merge_reference_iff (libraries : Libraries) (factory : ClientFactory) (c : Cluster)
    (events : List Event) (h : Unreferenced c) :
    Runs.Guarded (historyStep libraries factory) (LeavesNoReference libraries factory) ⟨c, []⟩
        events ↔
      Runs.Guarded (historyStep libraries factory) (NotOwnedBefore libraries factory) ⟨c, []⟩
        events := by
  refine Runs.guarded_congr (fun _ _ _ => ownedInv_step)
    (fun _ e hinv => leavesNoReference_iff hinv e) fun name => ?_
  show references c.resource.uid (c.secrets.lookup name) = true ↔ name ∈ []
  simp [h name]

/-! ## From Owner to Merge -/

/-- The spec of the example under `Merge`. -/
def mergeSpec : HimitsuSecretSpec :=
  { exampleSpec "staging" with target := ⟨"app", "", .merge, none⟩ }

/-- What is stored under `Owner` gets a foreign key once the policy is `Merge`. -/
def ownerThenMerge : List Event :=
  [.reconcile noFaults, .changeSpec mergeSpec,
    .editSecret "app" (some ⟨[( ownerAnnotation, "app-config")], [], "Opaque",
      [("FOREIGN", "keep-me".toUTF8)],
      some exampleCluster.resource.reference⟩),
    .reconcile noFaults]

/-- What the garbage collector leaves of the Secrets once the resource is deleted. -/
def collected (c : Cluster) : List (String × Secret) :=
  c.secrets.filter fun entry => !references c.resource.uid (some entry.2)

theorem exampleCluster_unreferenced : Unreferenced exampleCluster := by
  intro name
  unfold exampleCluster
  simp only [List.lookup_cons, List.lookup_nil]
  split <;> rfl

theorem merge_reference_iff_example :
    Unreferenced exampleCluster ∧
      (Runs.Guarded (historyStep exampleLibraries exampleFactory)
          (LeavesNoReference exampleLibraries exampleFactory)
          ⟨exampleCluster, []⟩ [.changeSpec mergeSpec, .reconcile noFaults] ↔
        Runs.Guarded (historyStep exampleLibraries exampleFactory)
          (NotOwnedBefore exampleLibraries exampleFactory)
          ⟨exampleCluster, []⟩ [.changeSpec mergeSpec, .reconcile noFaults]) :=
  ⟨exampleCluster_unreferenced, merge_reference_iff exampleLibraries exampleFactory exampleCluster _
    exampleCluster_unreferenced⟩

/-- **A Secret with a foreign key goes with the resource.** -/
theorem merge_keeps_reference :
    Unreferenced exampleCluster ∧
      ¬ Runs.Guarded (historyStep exampleLibraries exampleFactory)
        (LeavesNoReference exampleLibraries exampleFactory) ⟨exampleCluster, []⟩ ownerThenMerge ∧
      ∃ h, Runs.run (historyStep exampleLibraries exampleFactory) ⟨exampleCluster, []⟩ ownerThenMerge =
          some h ∧
        (h.secret "app").map (·.data.map Prod.fst) = some ["FOREIGN", "A"] ∧
        (collected h.cluster).map Prod.fst = ["auth"] := by
  refine ⟨exampleCluster_unreferenced, fun hguard => ?_, _, rfl, rfl, rfl⟩
  have hlast := (((hguard.2 _ rfl).2 _ rfl).2 _ rfl).1
  exact absurd (hlast rfl _ rfl) (by decide)

end Himitsu.Operator
