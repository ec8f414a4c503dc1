import Himitsu.Operator.Reconcile

/-!
# Writes under the Merge policy

Sequences of successful writes of one target Secret under the `Merge` policy, each with its own spec
and its own rendering.

* `MergeWrite` — a write whose data keys the API server accepts.
* `Merged` — what the data of the target should be: what was rendered last, and the entries from
  before the writes whose keys no write has rendered.
* `Agrees` — the template of a write names in `himitsu.io/managed-keys` what the last write noted.
* `Tracks` — the annotation of the target names the keys that were rendered last.

Principal results: `merge_policy_iff` — the target is as it should be after every write exactly where
each template agrees; `template_deletes_foreign` — one that does not deletes a foreign key.
-/

set_option autoImplicit false

namespace Himitsu.Operator

open GoText AssocList

/-! ## Writes -/

/-- A write with distinct keys that are valid in a Kubernetes Secret. -/
structure MergeWrite where
  resource : HimitsuSecret
  rendered : List (String × ByteArray)
  configVersion : Int64
  merge : resource.spec.target.isOwner = false
  distinct : (rendered.map (·.1)).Nodup
  valid : ∀ key ∈ rendered.map (·.1), validSecretDataKey key = true

namespace MergeWrite

variable (w : MergeWrite)

/-- The Secret that the write sends, which the API server stores. -/
def send (libraries : Libraries) (existing : Secret) : Except String Secret :=
  prepareTarget libraries w.resource (some existing) w.rendered w.configVersion

def templateAnnotations : List (String × String) :=
  (w.resource.spec.target.template.map (·.annotations)).getD []

/-- The keys that the write takes for its own: those that the template annotates, or else those that
the Secret does. -/
def marked (existing : Secret) : List String :=
  previouslyManaged (setAll existing.annotations w.templateAnnotations)

/-- Of the keys that the target has and that are not rendered now, the template marks those that the
target does. -/
def Agrees (existing : Secret) : Prop :=
  ∀ key, (existing.data.lookup key).isSome = true → w.rendered.lookup key = none →
    (key ∈ w.marked existing ↔ key ∈ previouslyManaged existing.annotations)

end MergeWrite

/-- The Secret after several writes. -/
def sendAll (libraries : Libraries) (secret : Secret) (writes : List MergeWrite) :
    Except String Secret :=
  writes.foldlM (fun existing w => w.send libraries existing) secret

/-! ## What the target should hold -/

/-- The value that the last write rendered for a key. -/
def lastRendered (writes : List MergeWrite) (key : String) : Option ByteArray :=
  writes.getLast?.bind fun w => w.rendered.lookup key

def everRendered (writes : List MergeWrite) (key : String) : Bool :=
  writes.any fun w => (w.rendered.lookup key).isSome

def Merged (initial : List (String × ByteArray)) (writes : List MergeWrite)
    (data : List (String × ByteArray)) : Prop :=
  ∀ key, data.lookup key = (lastRendered writes key).or
    (if everRendered writes key then none else initial.lookup key)

/-- The annotation names the keys that were rendered last. -/
def Tracks (writes : List MergeWrite) (secret : Secret) : Prop :=
  ∀ key, key ∈ previouslyManaged secret.annotations ↔ (lastRendered writes key).isSome = true

/-- The annotations of the operator. -/
def operatorAnnotations : List String :=
  [ managedKeysAnnotation, ownerAnnotation, configVersionAnnotation, projectIDAnnotation,
    environmentIDAnnotation]

/-- A Secret that no write has annotated. -/
def Unmanaged (secret : Secret) : Prop :=
  ∀ name ∈ operatorAnnotations, secret.annotations.lookup name = none

/-! ## One write -/

theorem comma_not_mem_of_valid {key : String} (h : validSecretDataKey key = true) :
    ',' ∉ key.toList ∧ key ≠ "" := by
  unfold validSecretDataKey at h
  simp only [Bool.and_eq_true, bne_iff_ne, List.all_eq_true] at h
  obtain ⟨⟨⟨hne, -⟩, -⟩, hchars⟩ := h
  exact ⟨fun hmem => absurd (hchars ',' hmem) (by decide), hne⟩

/-- What a write notes is read back by the next one. -/
theorem previouslyManaged_note {annotations : List (String × String)} {keys : List String}
    (h : annotations.lookup managedKeysAnnotation = some (",".intercalate keys))
    (hvalid : ∀ key ∈ keys, validSecretDataKey key = true) :
    previouslyManaged annotations = keys := by
  unfold previouslyManaged
  rw [h, Option.getD_some]
  cases keys with
  | nil => rfl
  | cons key keys =>
    have hsplit := splitOn_intercalate (List.cons_ne_nil key keys) fun text htext =>
      (comma_not_mem_of_valid (hvalid text htext)).1
    have hne : ",".intercalate (key :: keys) ≠ "" := by
      intro heq
      have hempty : "".splitOn "," = [""] := by simp [splitOn_comma]
      rw [heq, hempty] at hsplit
      have hkey : key = "" := (List.cons.inj hsplit).1.symm
      exact (comma_not_mem_of_valid (hvalid key (List.mem_cons_self ..))).2 hkey
    rw [if_neg hne, hsplit]

theorem mem_sortStrings {texts : List String} {text : String} :
    text ∈ sortStrings texts ↔ text ∈ texts :=
  List.mem_insertionSort (· ≤ ·)

variable {libraries : Libraries} {w : MergeWrite} {existing next : Secret}

/-- The Secret that a write sends. -/
theorem send_spec (h : w.send libraries existing = .ok next) :
    next.annotations.lookup managedKeysAnnotation =
        some (",".intercalate (sortStrings (w.rendered.map Prod.fst))) ∧
      next.data = mergeData (targetAnnotations w.resource w.configVersion existing.annotations)
        existing.data w.rendered := by
  unfold MergeWrite.send prepareTarget at h
  simp only [w.merge, Bool.false_eq_true, if_false, Option.getD_some] at h
  cases h
  exact ⟨lookup_set_self _ _ _, rfl⟩

/-- What `writeTarget` leaves where it succeeds. -/
theorem send_of_writeTarget {faults : Faults} {c d : Cluster} (hresource : c.resource = w.resource)
    (h : writeTarget libraries faults c (some existing) w.rendered w.configVersion = (d, none)) :
    ∃ sent, w.send libraries existing = .ok sent ∧
      d.secrets.lookup c.resource.spec.target.name = some sent := by
  unfold writeTarget at h
  rw [hresource] at h ⊢
  cases hsend : prepareTarget libraries w.resource (some existing) w.rendered w.configVersion with
  | error message =>
    rw [hsend] at h
    cases h
  | ok sent =>
    rw [hsend] at h
    refine ⟨sent, hsend, ?_⟩
    cases hreply : faults.writeTarget <;> simp only [hreply] at h <;> cases h
    exact lookup_set_self _ _ _

theorem previouslyManaged_send (h : w.send libraries existing = .ok next) (key : String) :
    key ∈ previouslyManaged next.annotations ↔ key ∈ w.rendered.map (·.1) := by
  rw [previouslyManaged_note (send_spec h).1 fun key hkey => w.valid key (mem_sortStrings.mp hkey),
    mem_sortStrings]

/-- The other annotations of the controller leave the note. -/
theorem previouslyManaged_targetAnnotations (w : MergeWrite) (existing : Secret) :
    previouslyManaged (targetAnnotations w.resource w.configVersion existing.annotations) =
      w.marked existing := by
  have howner : managedKeysAnnotation ≠ ownerAnnotation := by decide
  have hversion : managedKeysAnnotation ≠ configVersionAnnotation := by decide
  have hproject : managedKeysAnnotation ≠ projectIDAnnotation := by decide
  have henvironment : managedKeysAnnotation ≠ environmentIDAnnotation := by decide
  unfold MergeWrite.marked previouslyManaged targetAnnotations
  rw [lookup_set_of_ne henvironment, lookup_set_of_ne hproject, lookup_set_of_ne hversion,
    lookup_set_of_ne howner]
  rfl

/-- The data after a write. -/
theorem lookup_send (h : w.send libraries existing = .ok next) (key : String) :
    next.data.lookup key = (w.rendered.lookup key).or
      (if key ∈ w.marked existing then none else existing.data.lookup key) := by
  rw [(send_spec h).2, mergeData, lookup_setAll, lookup_setAll_nil w.distinct, lookup_eraseAll,
    previouslyManaged_targetAnnotations]
  cases hrendered : w.rendered.lookup key with
  | some value => rfl
  | none => simp [List.mem_filter, hrendered]

/-! ## Several writes -/

section

variable {initial : List (String × ByteArray)} {writes : List MergeWrite}

theorem lastRendered_append (key : String) :
    lastRendered (writes ++ [w]) key = w.rendered.lookup key := by
  simp [lastRendered]

theorem everRendered_append (key : String) :
    everRendered (writes ++ [w]) key =
      (everRendered writes key || (w.rendered.lookup key).isSome) := by
  simp [everRendered]

theorem lastRendered_none {key : String} (h : everRendered writes key = false) :
    lastRendered writes key = none := by
  cases hlast : lastRendered writes key with
  | none => rfl
  | some value =>
    obtain ⟨w, hw, hvalue⟩ := Option.bind_eq_some_iff.mp hlast
    have hnone := List.any_eq_false.mp h w (List.mem_of_getLast? hw)
    rw [hvalue] at hnone
    exact absurd rfl hnone

theorem tracks_send (h : w.send libraries existing = .ok next) : Tracks (writes ++ [w]) next := by
  intro key
  rw [previouslyManaged_send h, lastRendered_append, mem_keys_iff]

/-- **One write is right exactly where its template agrees.** -/
theorem merged_send_iff (h : w.send libraries existing = .ok next) (htracks : Tracks writes existing)
    (hmerged : Merged initial writes existing.data) :
    Merged initial (writes ++ [w]) next.data ↔ w.Agrees existing := by
  refine forall_congr' fun key => ?_
  rw [lookup_send h, lastRendered_append, everRendered_append, htracks key]
  cases hnow : w.rendered.lookup key with
  | some value => simp
  | none =>
    rw [hmerged key]
    cases hbefore : everRendered writes key with
    | true =>
      cases hlast : lastRendered writes key <;> by_cases hmarked : key ∈ w.marked existing <;>
        simp [hmarked]
    | false =>
      rw [lastRendered_none hbefore]
      cases hold : initial.lookup key <;> by_cases hmarked : key ∈ w.marked existing <;>
        simp [hmarked]

theorem sendAll_append {secret final : Secret} :
    sendAll libraries secret (writes ++ [w]) = .ok final ↔
      ∃ mid, sendAll libraries secret writes = .ok mid ∧ w.send libraries mid = .ok final := by
  unfold sendAll
  rw [List.foldlM_append]
  cases List.foldlM (fun existing w => MergeWrite.send w libraries existing) secret writes with
  | error message =>
    constructor
    · intro h
      cases h
    · rintro ⟨_, h, -⟩
      cases h
  | ok mid =>
    have hlast : List.foldlM (fun existing w => MergeWrite.send w libraries existing) mid [w] =
        w.send libraries mid := bind_pure _
    show List.foldlM (fun existing w => MergeWrite.send w libraries existing) mid [w] = .ok final ↔ _
    rw [hlast]
    simp

/-- The target is as it should be after each of the writes. -/
def AlwaysMerged (libraries : Libraries) (secret : Secret) (writes : List MergeWrite) : Prop :=
  ∀ earlier mid, earlier <+: writes → sendAll libraries secret earlier = .ok mid →
    Merged secret.data earlier mid.data

/-- Each template agrees with the target that its write finds. -/
def AlwaysAgrees (libraries : Libraries) (secret : Secret) (writes : List MergeWrite) : Prop :=
  ∀ earlier w mid, earlier ++ [w] <+: writes → sendAll libraries secret earlier = .ok mid →
    w.Agrees mid

theorem merged_nil (secret : Secret) : Merged secret.data [] secret.data := by
  intro key
  simp [lastRendered, everRendered]

theorem tracks_nil {secret : Secret} (h : Unmanaged secret) : Tracks [] secret := by
  intro key
  have hnone := h managedKeysAnnotation (List.mem_cons_self ..)
  simp [previouslyManaged, hnone, lastRendered]

theorem tracks_sendAll {secret final : Secret} (hclean : Unmanaged secret)
    (h : sendAll libraries secret writes = .ok final) : Tracks writes final := by
  induction writes using List.reverseRecOn with
  | nil =>
    cases h
    exact tracks_nil hclean
  | append_singleton writes w _ =>
    obtain ⟨mid, -, hsend⟩ := sendAll_append.mp h
    exact tracks_send hsend

theorem alwaysMerged_append {secret final : Secret}
    (h : sendAll libraries secret (writes ++ [w]) = .ok final) :
    AlwaysMerged libraries secret (writes ++ [w]) ↔
      AlwaysMerged libraries secret writes ∧ Merged secret.data (writes ++ [w]) final.data := by
  constructor
  · intro hall
    refine ⟨fun earlier mid hstart => ?_, hall _ _ (List.prefix_refl _) h⟩
    exact hall earlier mid (hstart.trans (List.prefix_append ..))
  · rintro ⟨hbefore, hlast⟩ earlier mid hstart hmid
    obtain rfl | hstart := List.prefix_concat_iff.mp hstart
    · rw [h] at hmid
      cases hmid
      exact hlast
    · exact hbefore earlier mid hstart hmid

theorem alwaysAgrees_append {secret last : Secret} (h : sendAll libraries secret writes = .ok last) :
    AlwaysAgrees libraries secret (writes ++ [w]) ↔
      AlwaysAgrees libraries secret writes ∧ w.Agrees last := by
  constructor
  · intro hall
    refine ⟨fun earlier other mid hstart => ?_, hall _ _ _ (List.prefix_refl _) h⟩
    exact hall earlier other mid (hstart.trans (List.prefix_append ..))
  · rintro ⟨hbefore, hlast⟩ earlier other mid hstart hmid
    obtain heq | hstart := List.prefix_concat_iff.mp hstart
    · obtain ⟨rfl, hother⟩ := List.append_inj' heq rfl
      obtain rfl : other = w := List.singleton_inj.mp hother
      rw [h] at hmid
      cases hmid
      exact hlast
    · exact hbefore earlier other mid hstart hmid

end

/-- **The Merge policy keeps foreign keys and cleans up its own exactly where each template
agrees.** -/
theorem merge_policy_iff {secret final : Secret} {writes : List MergeWrite}
    (hclean : Unmanaged secret) (hrun : sendAll libraries secret writes = .ok final) :
    AlwaysMerged libraries secret writes ↔ AlwaysAgrees libraries secret writes := by
  induction writes using List.reverseRecOn generalizing final with
  | nil =>
    constructor
    · rintro - earlier w mid hstart
      simp at hstart
    · rintro - earlier mid hstart hmid
      rw [List.prefix_nil] at hstart
      subst hstart
      cases hmid
      exact merged_nil secret
  | append_singleton writes w ih =>
    obtain ⟨last, hlast, hsend⟩ := sendAll_append.mp hrun
    rw [alwaysMerged_append hrun, alwaysAgrees_append hlast, ih hlast]
    refine and_congr_right fun hagrees => ?_
    have hmerged := (ih hlast).mpr hagrees writes last (List.prefix_refl _) hlast
    exact merged_send_iff hsend (tracks_sendAll hclean hlast) hmerged

/-- A template that leaves the annotation alone agrees with any target. -/
theorem agrees_of_plain {w : MergeWrite}
    (h : managedKeysAnnotation ∉ w.templateAnnotations.map (·.1)) (existing : Secret) :
    w.Agrees existing := by
  have hnone : (setAll [] w.templateAnnotations).lookup managedKeysAnnotation = none := by
    rw [← Option.not_isSome_iff_eq_none, ← mem_keys_iff]
    exact fun hmem => h (mem_keys_setAll hmem)
  intro key _ _
  unfold MergeWrite.marked previouslyManaged
  rw [lookup_setAll, hnone, Option.none_or]

/-! ## A template with the operator's own annotation -/

/-- A resource whose template has these annotations. -/
def mergeResource (annotations : List (String × String)) : HimitsuSecret where
  name := "app"
  namespace_ := "default"
  uid := "1"
  generation := 1
  spec :=
    { apiURL := "https://himitsu.example"
      projectID := "p"
      environmentID := "e"
      authSecretRef := ⟨"credentials", "token"⟩
      target := ⟨"app-secrets", "", .merge, some ⟨.keyValue, "", [], annotations⟩⟩
      refreshInterval := 0 }
  status := .empty

/-- A write of one key. -/
def mergeWrite (annotations : List (String × String)) : MergeWrite where
  resource := mergeResource annotations
  rendered := [("MANAGED", "v1".toUTF8)]
  configVersion := 1
  merge := rfl
  distinct := List.nodup_singleton _
  valid key hkey := by
    rw [List.mem_singleton.mp hkey]
    decide

def foreignSecret : Secret := ⟨[], [], "Opaque", [("FOREIGN", "keep-me".toUTF8)], none⟩

theorem foreignSecret_unmanaged : Unmanaged foreignSecret := fun _ _ => rfl

/-- **A template that sets the annotation deletes a foreign key.** -/
theorem template_deletes_foreign :
    Unmanaged foreignSecret ∧ ∃ final,
      sendAll exampleLibraries foreignSecret
        [mergeWrite [( managedKeysAnnotation, "FOREIGN")]] = .ok final ∧
      ¬ Merged foreignSecret.data [mergeWrite [( managedKeysAnnotation, "FOREIGN")]] final.data := by
  obtain ⟨final, hsend⟩ : ∃ final,
    (mergeWrite [( managedKeysAnnotation, "FOREIGN")]).send exampleLibraries foreignSecret =
      .ok final := ⟨_, rfl⟩
  have hrun : sendAll exampleLibraries foreignSecret
      ([] ++ [mergeWrite [( managedKeysAnnotation, "FOREIGN")]]) = .ok final :=
    sendAll_append.mpr ⟨foreignSecret, rfl, hsend⟩
  refine ⟨foreignSecret_unmanaged, final, hrun, fun hmerged => ?_⟩
  have hnote : [( managedKeysAnnotation, "FOREIGN")].lookup managedKeysAnnotation =
      some (",".intercalate ["FOREIGN"]) := rfl
  have hmarked : (mergeWrite [( managedKeysAnnotation, "FOREIGN")]).marked foreignSecret =
      ["FOREIGN"] := previouslyManaged_note hnote (by decide)
  have hagrees := (merged_send_iff hsend (tracks_nil foreignSecret_unmanaged)
    (merged_nil foreignSecret)).mp hmerged "FOREIGN" rfl rfl
  rw [hmarked] at hagrees
  exact absurd (hagrees.mp (List.mem_singleton_self _)) (by decide)

/-- A write that no longer renders the key of `mergeWrite`. -/
def laterWrite : MergeWrite where
  resource := mergeResource []
  rendered := [("OTHER", "v2".toUTF8)]
  configVersion := 2
  merge := rfl
  distinct := List.nodup_singleton _
  valid key hkey := by
    rw [List.mem_singleton.mp hkey]
    decide

/-- The key that was dropped goes, and the foreign one stays. -/
theorem merge_policy_dropped :
    ∃ final, sendAll exampleLibraries foreignSecret [mergeWrite [("team", "a")], laterWrite] =
        .ok final ∧
      AlwaysMerged exampleLibraries foreignSecret [mergeWrite [("team", "a")], laterWrite] ∧
      final.data.lookup "MANAGED" = none ∧
      final.data.lookup "FOREIGN" = some "keep-me".toUTF8 := by
  obtain ⟨final, hrun⟩ : ∃ final,
    sendAll exampleLibraries foreignSecret [mergeWrite [("team", "a")], laterWrite] =
      .ok final := ⟨_, rfl⟩
  have hmerged : AlwaysMerged exampleLibraries foreignSecret
      [mergeWrite [("team", "a")], laterWrite] := by
    refine (merge_policy_iff foreignSecret_unmanaged hrun).mpr fun earlier w mid hstart _ => ?_
    have hmem : w ∈ [mergeWrite [("team", "a")], laterWrite] :=
      hstart.subset (List.mem_append_right _ (List.mem_singleton_self _))
    refine agrees_of_plain ?_ mid
    simp only [List.mem_cons, List.not_mem_nil, or_false] at hmem
    obtain rfl | rfl := hmem
    · decide
    · decide
  have hlast := hmerged _ final (List.prefix_refl _) hrun
  exact ⟨final, hrun, hmerged, (hlast "MANAGED").trans rfl, (hlast "FOREIGN").trans rfl⟩

end Himitsu.Operator
