import Himitsu.Library.Runs
import Himitsu.Operator.Reconcile

/-!
# Several resources and their targets

The reconciles of any number of HimitsuSecret resources of a namespace over each other, and other
parties that edit and delete Secrets.

* `Stored` — a Secret with its `resourceVersion`, which every write renews.
* `Stage` — where a reconcile waits for Kubernetes or the API, with what it has read.
* `serverWrite` — an update is accepted for the version that was read, a creation where there is no
  Secret.
* `OwnershipInv` — what a reconcile has read is unmarked or its own, and it is what the namespace
  holds as long as the version is the same.

Principal result: `ownership_exclusive` — no reconcile of another resource changes a marked Secret.
-/

set_option autoImplicit false

namespace Himitsu.Operator

open GoText AssocList

/-! ## The namespace -/

structure Stored where
  secret : Secret
  version : Nat

/-- A reconcile has read its resource, perhaps from a cache. -/
inductive Stage where
  | started (resource : HimitsuSecret)
  | loaded (resource : HimitsuSecret) (existing : Option Stored)
  | rendered (resource : HimitsuSecret) (existing : Option Stored)
      (rendered : List (String × ByteArray)) (configVersion : Int64)
  | written (resource : HimitsuSecret)
  | finished (resource : HimitsuSecret)

def Stage.resource : Stage → HimitsuSecret
  | .started resource => resource
  | .loaded resource _ => resource
  | .rendered resource _ _ _ => resource
  | .written resource => resource
  | .finished resource => resource

/-- `version` is the newest `resourceVersion`. -/
structure Namespace where
  secrets : List (String × Stored)
  version : Nat
  passes : List Stage

namespace Namespace

def setPass (s : Namespace) (i : Nat) (stage : Stage) : Namespace :=
  { s with passes := s.passes.set i stage }

/-- A Secret is stored under a new version. -/
def store (s : Namespace) (name : String) (secret : Secret) : Namespace :=
  { s with
    secrets := set s.secrets name ⟨secret, s.version + 1⟩
    version := s.version + 1 }

/-- What the API server does with an update of the Secret that was read, or with a creation. -/
def serverWrite (s : Namespace) (name : String) (existing : Option Stored) (secret : Secret) :
    Option Namespace :=
  match existing, s.secrets.lookup name with
  | none, none => some (s.store name secret)
  | some read, some current =>
    if read.version = current.version then some (s.store name secret) else none
  | none, some _ | some _, none => none

end Namespace

/-! ## Steps -/

section

variable (libraries : Libraries)

/-- `loadTarget` and `checkOwnership`. -/
def loadStage (s : Namespace) (resource : HimitsuSecret) : Stage :=
  let existing := s.secrets.lookup resource.spec.target.name
  match existing.bind fun stored => checkOwnership libraries resource stored.secret with
  | some _ => .finished resource
  | none => .loaded resource existing

/-- From the answer of the API to the rendering. -/
def fetchStage (resource : HimitsuSecret) (existing : Option Stored) : RuntimeConfig → Stage
  | .notModified _ => .written resource
  | .modified configVersion secrets =>
    match render libraries.printable resource.spec secrets with
    | .error _ => .finished resource
    | .ok rendered => .rendered resource existing rendered configVersion

/-- `writeTarget`; the server's answer can be lost, and it may refuse a write for other reasons. -/
def writeStage (s : Namespace) (i : Nat) (resource : HimitsuSecret) (existing : Option Stored)
    (rendered : List (String × ByteArray)) (configVersion : Int64) (reply : WriteReply) :
    Namespace :=
  match prepareTarget libraries resource (existing.map (·.secret)) rendered configVersion with
  | .error _ => s.setPass i (.finished resource)
  | .ok secret =>
    match reply, s.serverWrite resource.spec.target.name existing secret with
    | .ok, some stored => stored.setPass i (.written resource)
    | .lost _, some stored => stored.setPass i (.finished resource)
    | _, _ => s.setPass i (.finished resource)

inductive NamespaceEvent where
  | begin (resource : HimitsuSecret)
  | load (pass : Nat)
  | fetch (pass : Nat) (config : RuntimeConfig)
  | write (pass : Nat) (reply : WriteReply)
  /-- A call fails, or the status is written. -/
  | finish (pass : Nat)
  /-- Another party. -/
  | edit (name : String) (secret : Secret)
  | delete (name : String)

def namespaceStep (s : Namespace) : NamespaceEvent → Option Namespace
  | .begin resource => some { s with passes := s.passes ++ [.started resource] }
  | .load i =>
    match s.passes[i]? with
    | some (.started resource) => some (s.setPass i (loadStage libraries s resource))
    | _ => none
  | .fetch i config =>
    match s.passes[i]? with
    | some (.loaded resource existing) =>
      some (s.setPass i (fetchStage libraries resource existing config))
    | _ => none
  | .write i reply =>
    match s.passes[i]? with
    | some (.rendered resource existing rendered configVersion) =>
      some (writeStage libraries s i resource existing rendered configVersion reply)
    | _ => none
  | .finish i => (s.passes[i]?).map fun stage => s.setPass i (.finished stage.resource)
  | .edit name secret => some (s.store name secret)
  | .delete name => some { s with secrets := erase s.secrets name }

end

/-- The pass that takes the step. -/
def NamespaceEvent.pass : NamespaceEvent → Option Nat
  | .load i => some i
  | .fetch i _ => some i
  | .write i _ => some i
  | .finish i => some i
  | .begin _ | .edit _ _ | .delete _ => none

/-- A step of a reconcile of this resource. -/
def IsStepOf (s : Namespace) (e : NamespaceEvent) (owner : String) : Prop :=
  ∃ i stage, e.pass = some i ∧ s.passes[i]? = some stage ∧ stage.resource.name = owner

/-- Any Secrets, and no reconcile. -/
structure Fresh (s : Namespace) : Prop where
  passes : s.passes = []
  versions : ∀ name stored, s.secrets.lookup name = some stored → stored.version ≤ s.version

/-! ## What is claimed -/

/-- The Secret carries the ownership mark of a resource. -/
def MarkedBy (s : Namespace) (name owner : String) : Prop :=
  ∃ stored, s.secrets.lookup name = some stored ∧
    stored.secret.annotations.lookup ownerAnnotation = some owner

/-- No other party deletes a Secret or edits its annotations. -/
def LeavesAnnotations (name : String) (s : Namespace) : NamespaceEvent → Prop
  | .edit edited secret => edited = name → ∀ stored, s.secrets.lookup name = some stored →
    secret.annotations = stored.secret.annotations
  | .delete deleted => deleted ≠ name
  | _ => True

/-! ## The invariant -/

/-- What a reconcile knows of the Secret that it has read. -/
structure ReadInv (s : Namespace) (resource : HimitsuSecret) (read : Stored) : Prop where
  version : read.version ≤ s.version
  owner : (read.secret.annotations.lookup ownerAnnotation).getD "" = "" ∨
    (read.secret.annotations.lookup ownerAnnotation).getD "" = resource.name
  current : ∀ stored, s.secrets.lookup resource.spec.target.name = some stored →
    stored.version = read.version → stored = read

def StageInv (s : Namespace) : Stage → Prop
  | .loaded resource existing => ∀ read, existing = some read → ReadInv s resource read
  | .rendered resource existing _ _ => ∀ read, existing = some read → ReadInv s resource read
  | _ => True

structure OwnershipInv (s : Namespace) : Prop where
  versions : ∀ name stored, s.secrets.lookup name = some stored → stored.version ≤ s.version
  passes : ∀ stage ∈ s.passes, StageInv s stage

theorem Fresh.inv {s : Namespace} (h : Fresh s) : OwnershipInv s where
  versions := h.versions
  passes stage hstage := by
    rw [h.passes] at hstage
    cases hstage

/-- A Secret is only changed under a new version, or deleted. -/
structure Moves (s t : Namespace) : Prop where
  le : s.version ≤ t.version
  versions : ∀ name stored, t.secrets.lookup name = some stored → stored.version ≤ t.version
  same : ∀ name stored, t.secrets.lookup name = some stored → stored.version ≤ s.version →
    s.secrets.lookup name = some stored

theorem ReadInv.moves {s t : Namespace} {resource : HimitsuSecret} {read : Stored}
    (h : ReadInv s resource read) (hmoves : Moves s t) : ReadInv t resource read where
  version := h.version.trans hmoves.le
  owner := h.owner
  current stored hstored hversion :=
    h.current stored (hmoves.same _ stored hstored (hversion.trans_le h.version)) hversion

theorem StageInv.moves {s t : Namespace} {stage : Stage} (h : StageInv s stage)
    (hmoves : Moves s t) : StageInv t stage := by
  cases stage with
  | loaded | rendered => exact fun read hread => (h read hread).moves hmoves
  | started | written | finished => trivial

theorem OwnershipInv.moves_same {s t : Namespace} (h : OwnershipInv s)
    (hsecrets : t.secrets = s.secrets) (hversion : t.version = s.version) : Moves s t where
  le := hversion.ge
  versions := by
    rw [hsecrets, hversion]
    exact h.versions
  same name stored hstored _ := hsecrets ▸ hstored

theorem OwnershipInv.moves_store {s : Namespace} (h : OwnershipInv s) (name : String)
    (secret : Secret) : Moves s (s.store name secret) where
  le := Nat.le_succ _
  versions other stored hstored := by
    simp only [Namespace.store, lookup_set] at hstored ⊢
    split at hstored
    · cases hstored
      exact le_rfl
    · exact (h.versions other stored hstored).trans (Nat.le_succ _)
  same other stored hstored hold := by
    simp only [Namespace.store, lookup_set] at hstored
    split at hstored
    · cases hstored
      exact absurd hold (Nat.not_succ_le_self _)
    · exact hstored

theorem lookup_erase_some {entries : List (String × Stored)} {name other : String}
    {stored : Stored} (h : (erase entries name).lookup other = some stored) :
    entries.lookup other = some stored := by
  by_cases heq : other = name
  · rw [heq, lookup_erase_self] at h
    cases h
  · rwa [lookup_erase_of_ne heq] at h

/-- The other stages after a step of one reconcile. -/
theorem OwnershipInv.setPass {s t : Namespace} (h : OwnershipInv s) (hmoves : Moves s t)
    (hpasses : t.passes = s.passes) {i : Nat} {stage : Stage} (hstage : StageInv t stage) :
    OwnershipInv (t.setPass i stage) where
  versions := hmoves.versions
  passes other hother := by
    have hsame : Moves t (t.setPass i stage) := ⟨le_rfl, hmoves.versions, fun _ _ hl _ => hl⟩
    unfold Namespace.setPass at hother
    obtain hold | rfl := List.mem_or_eq_of_mem_set hother
    · rw [hpasses] at hold
      exact ((h.passes other hold).moves hmoves).moves hsame
    · exact hstage.moves hsame

section

variable {libraries : Libraries}

theorem loadStage_inv {s : Namespace} (h : OwnershipInv s) (resource : HimitsuSecret) :
    StageInv s (loadStage libraries s resource) := by
  unfold loadStage
  dsimp only
  split
  · trivial
  · rename_i howned
    rintro read hread
    rw [hread, Option.bind_some] at howned
    refine ⟨h.versions _ read hread, ?_, fun stored hstored _ => ?_⟩
    · unfold checkOwnership at howned
      dsimp only at howned
      split at howned
      · assumption
      · cases howned
    · rw [hread] at hstored
      exact (Option.some.inj hstored).symm

theorem fetchStage_inv {s : Namespace} {resource : HimitsuSecret} {existing : Option Stored}
    (h : StageInv s (.loaded resource existing)) (config : RuntimeConfig) :
    StageInv s (fetchStage libraries resource existing config) := by
  cases config with
  | notModified => trivial
  | modified configVersion secrets =>
    simp only [fetchStage]
    split
    · trivial
    · exact h

/-- What an accepted write has found. -/
theorem serverWrite_cases {s t : Namespace} {name : String} {existing : Option Stored}
    {secret : Secret} (h : s.serverWrite name existing secret = some t) :
    t = s.store name secret ∧
      ((existing = none ∧ s.secrets.lookup name = none) ∨ ∃ read current,
        existing = some read ∧ s.secrets.lookup name = some current ∧
          current.version = read.version) := by
  unfold Namespace.serverWrite at h
  split at h
  · rename_i hnone
    cases h
    exact ⟨rfl, .inl ⟨rfl, hnone⟩⟩
  · rename_i read current hcurrent
    split at h
    · rename_i hversion
      cases h
      exact ⟨rfl, .inr ⟨read, current, rfl, hcurrent, hversion.symm⟩⟩
    · cases h
  · cases h
  · cases h

/-- A write leaves the Secrets or is accepted. -/
theorem writeStage_cases (s : Namespace) (i : Nat) (resource : HimitsuSecret)
    (existing : Option Stored) (rendered : List (String × ByteArray)) (configVersion : Int64)
    (reply : WriteReply) :
    writeStage libraries s i resource existing rendered configVersion reply =
        s.setPass i (.finished resource) ∨
      ∃ secret stage,
        prepareTarget libraries resource (existing.map (·.secret)) rendered configVersion =
          .ok secret ∧ StageInv (s.store resource.spec.target.name secret) stage ∧
        s.serverWrite resource.spec.target.name existing secret =
          some (s.store resource.spec.target.name secret) ∧
        writeStage libraries s i resource existing rendered configVersion reply =
          (s.store resource.spec.target.name secret).setPass i stage := by
  unfold writeStage
  split
  · exact .inl rfl
  · rename_i secret hprepare
    cases hserver : s.serverWrite resource.spec.target.name existing secret with
    | none =>
      refine .inl ?_
      cases reply <;> rfl
    | some stored =>
      obtain ⟨rfl, -⟩ := serverWrite_cases hserver
      cases reply with
      | ok => exact .inr ⟨secret, .written resource, hprepare, trivial, hserver, rfl⟩
      | lost message => exact .inr ⟨secret, .finished resource, hprepare, trivial, hserver, rfl⟩
      | conflict | notFound | rejected => exact .inl rfl

/-- **Every step keeps the invariant.** -/
theorem OwnershipInv.step {s t : Namespace} {e : NamespaceEvent} (h : OwnershipInv s)
    (hstep : namespaceStep libraries s e = some t) : OwnershipInv t := by
  have hself : Moves s s := h.moves_same rfl rfl
  cases e with
  | begin resource =>
    cases hstep
    have hmoves : Moves s { s with passes := s.passes ++ [.started resource] } :=
      h.moves_same rfl rfl
    refine ⟨h.versions, fun stage hstage => ?_⟩
    obtain hold | hnew := List.mem_append.mp hstage
    · exact (h.passes stage hold).moves hmoves
    · rw [List.mem_singleton.mp hnew]
      trivial
  | load i =>
    simp only [namespaceStep] at hstep
    split at hstep
    · cases hstep
      exact h.setPass hself rfl (loadStage_inv h _)
    · cases hstep
  | fetch i config =>
    simp only [namespaceStep] at hstep
    split at hstep
    · rename_i resource existing hpass
      cases hstep
      exact h.setPass hself rfl (fetchStage_inv (h.passes _ (List.mem_of_getElem? hpass)) config)
    · cases hstep
  | write i reply =>
    simp only [namespaceStep] at hstep
    split at hstep
    · rename_i resource existing rendered configVersion hpass
      cases hstep
      obtain heq | ⟨secret, stage, -, hstage, -, heq⟩ :=
        @writeStage_cases libraries s i resource existing rendered configVersion reply
      · rw [heq]
        exact h.setPass hself rfl trivial
      · rw [heq]
        exact h.setPass (h.moves_store _ secret) rfl hstage
    · cases hstep
  | finish i =>
    obtain ⟨stage, -, rfl⟩ := Option.map_eq_some_iff.mp hstep
    exact h.setPass hself rfl trivial
  | edit name secret =>
    cases hstep
    have hmoves := h.moves_store name secret
    exact ⟨hmoves.versions, fun stage hstage => (h.passes stage hstage).moves hmoves⟩
  | delete name =>
    cases hstep
    have hmoves : Moves s { s with secrets := erase s.secrets name } :=
      ⟨le_rfl, fun other stored hl => h.versions other stored (lookup_erase_some hl),
        fun other stored hl _ => lookup_erase_some hl⟩
    exact ⟨hmoves.versions, fun stage hstage => (h.passes stage hstage).moves hmoves⟩

/-! ## Marked Secrets -/

/-- A written target carries the mark of its resource, whatever the template annotates. -/
theorem prepareTarget_owner {resource : HimitsuSecret} {existing : Option Secret}
    {rendered : List (String × ByteArray)} {version : Int64} {secret : Secret}
    (h : prepareTarget libraries resource existing rendered version = .ok secret) :
    secret.annotations.lookup ownerAnnotation = some resource.name := by
  have hmanaged : ownerAnnotation ≠ managedKeysAnnotation := by decide
  have hversion : ownerAnnotation ≠ configVersionAnnotation := by decide
  have hproject : ownerAnnotation ≠ projectIDAnnotation := by decide
  have henvironment : ownerAnnotation ≠ environmentIDAnnotation := by decide
  have hannotations : ∀ annotations managed, (set (targetAnnotations resource version annotations)
      managedKeysAnnotation managed).lookup ownerAnnotation = some resource.name := by
    intro annotations managed
    rw [lookup_set_of_ne hmanaged, targetAnnotations, lookup_set_of_ne henvironment,
      lookup_set_of_ne hproject, lookup_set_of_ne hversion, lookup_set_self]
  unfold prepareTarget at h
  dsimp only at h
  split at h
  · split at h
    · cases h
      exact hannotations _ _
    · cases h
  · cases h
    exact hannotations _ _

/-- A write of a marked Secret is accepted only from the resource of the mark. -/
theorem owner_of_serverWrite {s t : Namespace} {owner : String} {resource : HimitsuSecret}
    {existing : Option Stored} {secret : Secret} (howner : owner ≠ "")
    (hmarked : MarkedBy s resource.spec.target.name owner)
    (hread : ∀ read, existing = some read → ReadInv s resource read)
    (h : s.serverWrite resource.spec.target.name existing secret = some t) :
    resource.name = owner := by
  obtain ⟨marked, hlookup, hmark⟩ := hmarked
  obtain ⟨-, ⟨-, hnone⟩ | ⟨read, current, rfl, hcurrent, hversion⟩⟩ := serverWrite_cases h
  · rw [hlookup] at hnone
    cases hnone
  · have hinv := hread read rfl
    obtain rfl := hinv.current current hcurrent hversion
    obtain rfl : marked = current := Option.some.inj (hlookup.symm.trans hcurrent)
    have hread := hinv.owner
    rw [hmark, Option.getD_some] at hread
    obtain hempty | hname := hread
    · exact absurd hempty howner
    · exact hname.symm

/-- A write changes at most its target, and a marked target only if the mark is its own. -/
theorem write_cases {s : Namespace} (h : OwnershipInv s) {i : Nat} {resource : HimitsuSecret}
    {existing : Option Stored} {rendered : List (String × ByteArray)} {configVersion : Int64}
    (hpass : s.passes[i]? = some (.rendered resource existing rendered configVersion))
    {name owner : String} (howner : owner ≠ "") (hmarked : MarkedBy s name owner)
    (reply : WriteReply) :
    (writeStage libraries s i resource existing rendered configVersion reply).secrets.lookup name =
        s.secrets.lookup name ∨
      resource.name = owner ∧
        MarkedBy (writeStage libraries s i resource existing rendered configVersion reply) name
          owner := by
  obtain heq | ⟨secret, stage, hprepare, -, hserver, heq⟩ :=
    @writeStage_cases libraries s i resource existing rendered configVersion reply
  · rw [heq]
    exact .inl rfl
  · rw [heq]
    by_cases hname : name = resource.spec.target.name
    · subst hname
      have hsame := owner_of_serverWrite howner hmarked
        (h.passes _ (List.mem_of_getElem? hpass)) hserver
      refine .inr ⟨hsame, ⟨secret, s.version + 1⟩, lookup_set_self _ _ _, ?_⟩
      rw [prepareTarget_owner hprepare, hsame]
    · exact .inl (lookup_set_of_ne hname _ _)

/-- **A step of another resource leaves a marked Secret as it is.** -/
theorem step_other {s t : Namespace} {e : NamespaceEvent} (h : OwnershipInv s)
    {name owner other : String} (howner : owner ≠ "") (hmarked : MarkedBy s name owner)
    (hactor : IsStepOf s e other) (hne : other ≠ owner)
    (hstep : namespaceStep libraries s e = some t) :
    t.secrets.lookup name = s.secrets.lookup name := by
  obtain ⟨j, stage, hpass, hstage, rfl⟩ := hactor
  cases e with
  | begin | edit | delete => cases hpass
  | load i =>
    simp only [namespaceStep] at hstep
    split at hstep <;> cases hstep
    rfl
  | fetch i config =>
    simp only [namespaceStep] at hstep
    split at hstep <;> cases hstep
    rfl
  | write i reply =>
    obtain rfl := Option.some.inj hpass
    simp only [namespaceStep] at hstep
    split at hstep
    · rename_i resource existing rendered configVersion hrendered
      cases hstep
      obtain rfl := Option.some.inj (hstage.symm.trans hrendered)
      exact (write_cases h hrendered howner hmarked reply).resolve_right fun hown => hne hown.1
    · cases hstep
  | finish i =>
    obtain ⟨_, -, rfl⟩ := Option.map_eq_some_iff.mp hstep
    rfl

theorem MarkedBy.of_lookup {s t : Namespace} {name owner : String} (h : MarkedBy s name owner)
    (hlookup : t.secrets.lookup name = s.secrets.lookup name) : MarkedBy t name owner := by
  unfold MarkedBy
  rw [hlookup]
  exact h

/-- A mark stays while no other party touches it. -/
theorem marked_step {s t : Namespace} {e : NamespaceEvent} (h : OwnershipInv s)
    {name owner : String} (howner : owner ≠ "") (hmarked : MarkedBy s name owner)
    (hleaves : LeavesAnnotations name s e) (hstep : namespaceStep libraries s e = some t) :
    MarkedBy t name owner := by
  cases e with
  | begin resource =>
    cases hstep
    exact hmarked.of_lookup rfl
  | load i =>
    simp only [namespaceStep] at hstep
    split at hstep <;> cases hstep
    exact hmarked.of_lookup rfl
  | fetch i config =>
    simp only [namespaceStep] at hstep
    split at hstep <;> cases hstep
    exact hmarked.of_lookup rfl
  | write i reply =>
    simp only [namespaceStep] at hstep
    split at hstep
    · rename_i resource existing rendered configVersion hrendered
      cases hstep
      obtain hlookup | ⟨-, hmarked'⟩ := write_cases h hrendered howner hmarked reply
      · exact hmarked.of_lookup hlookup
      · exact hmarked'
    · cases hstep
  | finish i =>
    obtain ⟨_, -, rfl⟩ := Option.map_eq_some_iff.mp hstep
    exact hmarked.of_lookup rfl
  | edit edited secret =>
    cases hstep
    by_cases hname : edited = name
    · subst hname
      obtain ⟨stored, hlookup, hmark⟩ := hmarked
      refine ⟨⟨secret, s.version + 1⟩, lookup_set_self _ _ _, ?_⟩
      rw [hleaves rfl stored hlookup]
      exact hmark
    · exact hmarked.of_lookup (lookup_set_of_ne (Ne.symm hname) _ _)
  | delete deleted =>
    cases hstep
    exact hmarked.of_lookup (lookup_erase_of_ne (Ne.symm hleaves) _)

/-- **Once a Secret carries the mark of a resource, no other resource changes it.** -/
theorem ownership_exclusive {s₀ s t : Namespace} {before after : List NamespaceEvent}
    (hfresh : Fresh s₀) (hbefore : Runs.run (namespaceStep libraries) s₀ before = some s)
    {name owner : String} (howner : owner ≠ "") (hmarked : MarkedBy s name owner)
    (hafter : Runs.run (namespaceStep libraries) s after = some t)
    (hleaves : Runs.Guarded (namespaceStep libraries) (LeavesAnnotations name) s after) :
    MarkedBy t name owner ∧ ∀ e t' other, namespaceStep libraries t e = some t' →
      IsStepOf t e other → other ≠ owner → t'.secrets.lookup name = t.secrets.lookup name := by
  have hinv : OwnershipInv s :=
    Runs.invariant_of_run (fun _ _ _ h hstep => h.step hstep) hfresh.inv hbefore
  have hsteps : ∀ u e u', OwnershipInv u ∧ MarkedBy u name owner → LeavesAnnotations name u e →
      namespaceStep libraries u e = some u' → OwnershipInv u' ∧ MarkedBy u' name owner :=
    fun u e u' hu hguard hstep =>
      ⟨hu.1.step hstep, marked_step hu.1 howner hu.2 hguard hstep⟩
  have hboth := Runs.run_invariant hsteps ⟨hinv, hmarked⟩ hleaves hafter
  exact ⟨hboth.2, fun e t' other hstep hactor hne =>
    step_other hboth.1 howner hboth.2 hactor hne hstep⟩

end

/-! ## Two resources with one target -/

/-- Resources that differ in their names and in their policies. -/
def rival (name : String) (policy : CreationPolicy) : HimitsuSecret where
  name := name
  namespace_ := "default"
  uid := name
  generation := 1
  spec :=
    { apiURL := "https://himitsu.example"
      projectID := "p"
      environmentID := "e"
      authSecretRef := ⟨"credentials", "token"⟩
      target := ⟨"app-secrets", "", policy, none⟩
      refreshInterval := 0 }
  status := .empty

/-- Both find no Secret, and the first creates it. -/
def rivalsLoad : List NamespaceEvent :=
  [.begin (rival "a" .owner), .begin (rival "b" .merge), .load 0, .load 1,
    .fetch 0 (.modified 1 [("KEY", "v")]), .write 0 .ok]

theorem ownership_exclusive_rivals :
    ∃ s t, Runs.run (namespaceStep exampleLibraries) ⟨[], 0, []⟩ rivalsLoad = some s ∧
      Runs.run (namespaceStep exampleLibraries) s [.fetch 1 (.modified 2 [("KEY", "w")])] = some t ∧
      MarkedBy t "app-secrets" "a" ∧ ∃ t', namespaceStep exampleLibraries t (.write 1 .ok) = some t' ∧
        t'.secrets.lookup "app-secrets" = t.secrets.lookup "app-secrets" := by
  obtain ⟨s, hs⟩ : ∃ s, Runs.run (namespaceStep exampleLibraries) ⟨[], 0, []⟩ rivalsLoad = some s :=
    ⟨_, rfl⟩
  have hmarked : MarkedBy s "app-secrets" "a" := by
    cases hs
    exact ⟨_, rfl, rfl⟩
  obtain ⟨t, ht⟩ : ∃ t, Runs.run (namespaceStep exampleLibraries) s
      [.fetch 1 (.modified 2 [("KEY", "w")])] = some t := by
    cases hs
    exact ⟨_, rfl⟩
  obtain ⟨t', ht'⟩ : ∃ t', namespaceStep exampleLibraries t (.write 1 .ok) = some t' := by
    cases hs
    cases ht
    exact ⟨_, rfl⟩
  have hactor : IsStepOf t (.write 1 .ok) "b" := by
    cases hs
    cases ht
    exact ⟨1, _, rfl, rfl, rfl⟩
  have hfresh : Fresh ⟨[], 0, []⟩ := ⟨rfl, fun _ _ h => by cases h⟩
  have hall := ownership_exclusive hfresh hs (by decide) hmarked ht ⟨trivial, fun _ _ => trivial⟩
  exact ⟨s, t, hs, ht, hall.1, t', ht', hall.2 _ t' "b" ht' hactor (by decide)⟩

end Himitsu.Operator
