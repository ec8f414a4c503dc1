import Mathlib.Data.List.Forall2

/-!
# Lists whose members correspond

What `List.Forall₂` says of single members, counts and searches, and how it is built from parts.
-/

set_option autoImplicit false

namespace RelatedLists

variable {α β γ : Type} {R : α → β → Prop} {as : List α} {bs : List β}

/-! ## Members -/

theorem getElem?_of_forall₂ (h : List.Forall₂ R as bs) {i : Nat} {a : α} (ha : as[i]? = some a) :
    ∃ b, bs[i]? = some b ∧ R a b := by
  induction h generalizing i with
  | nil => simp at ha
  | cons hab _ ih =>
    cases i with
    | zero =>
      simp only [List.getElem?_cons_zero, Option.some.injEq] at ha
      exact ⟨_, List.getElem?_cons_zero, ha ▸ hab⟩
    | succ i =>
      rw [List.getElem?_cons_succ] at ha ⊢
      exact ih ha

/-- A member of the second list stands for one of the first. -/
theorem split_of_forall₂ {before after : List β} {b : β}
    (h : List.Forall₂ R as (before ++ b :: after)) :
    ∃ first a rest, as = first ++ a :: rest ∧ List.Forall₂ R first before ∧ R a b := by
  have hfirst := List.forall₂_take_append as before (b :: after) h
  have hrest := List.forall₂_drop_append as before (b :: after) h
  obtain ⟨a, rest, hab, -, hdrop⟩ := List.forall₂_cons_right_iff.mp hrest
  exact ⟨_, a, rest, by rw [← hdrop, List.take_append_drop], hfirst, hab⟩

theorem exists_of_forall₂ (h : List.Forall₂ R as bs) {b : β} (hb : b ∈ bs) : ∃ a ∈ as, R a b := by
  obtain ⟨before, after, rfl⟩ := List.append_of_mem hb
  obtain ⟨first, a, rest, rfl, -, hab⟩ := split_of_forall₂ h
  exact ⟨a, by simp, hab⟩

theorem forall_of_forall₂ {p : α → Prop} (h : List.Forall₂ R as bs) (hp : ∀ a b, R a b → p a) :
    ∀ a ∈ as, p a := by
  intro a ha
  obtain ⟨b, -, hab⟩ := exists_of_forall₂ (List.Forall₂.flip h) ha
  exact hp a b hab

/-! ## Counts and searches -/

theorem countP_of_forall₂ {p : α → Bool} {q : β → Bool} (h : List.Forall₂ R as bs)
    (hpq : ∀ a b, R a b → q b = p a) : bs.countP q = as.countP p := by
  induction h with
  | nil => rfl
  | cons hab _ ih => rw [List.countP_cons, List.countP_cons, ih, hpq _ _ hab]

theorem find_of_forall₂ {p : α → Bool} {q : β → Bool} (h : List.Forall₂ R as bs)
    (hpq : ∀ a b, R a b → p a = q b) :
    (as.find? p = none ∧ bs.find? q = none) ∨
      ∃ a b, as.find? p = some a ∧ bs.find? q = some b ∧ R a b := by
  induction h with
  | nil => exact .inl ⟨rfl, rfl⟩
  | @cons a b as bs hab _ ih =>
    have hsame := hpq a b hab
    by_cases hp : p a = true
    · exact .inr ⟨a, b, List.find?_cons_of_pos hp, List.find?_cons_of_pos (hsame ▸ hp), hab⟩
    · have hq : ¬q b = true := hsame ▸ hp
      rwa [List.find?_cons_of_neg hp, List.find?_cons_of_neg hq]

/-- A projection of the second list that tells the members of the first apart. -/
theorem nodup_map_of_forall₂ {f : β → γ} (h : List.Forall₂ R as bs) (hnodup : as.Nodup)
    (hinj : ∀ a ∈ as, ∀ a' ∈ as, ∀ b b', R a b → R a' b' → f b = f b' → a = a') :
    (bs.map f).Nodup := by
  induction h with
  | nil => exact List.nodup_nil
  | @cons a b as bs hab htail ih =>
    rw [List.nodup_cons] at hnodup
    rw [List.map_cons, List.nodup_cons]
    refine ⟨fun hmem => ?_, ih hnodup.2 fun a ha b hb =>
      hinj a (List.mem_cons_of_mem _ ha) b (List.mem_cons_of_mem _ hb)⟩
    obtain ⟨b', hb', heq⟩ := List.mem_map.mp hmem
    obtain ⟨a', ha', hab'⟩ := exists_of_forall₂ htail hb'
    rw [hinj a List.mem_cons_self a' (List.mem_cons_of_mem _ ha') b b' hab hab' heq.symm] at hnodup
    exact hnodup.1 ha'

/-! ## Building -/

theorem forall₂_ite {p : Prop} [Decidable p] {a : α} {b : β} (h : R a b) :
    List.Forall₂ R (if p then [a] else []) (if p then [b] else []) := by
  split
  · exact .cons h .nil
  · exact .nil

theorem forall₂_flatMap {f : γ → List α} {g : γ → List β} {cs : List γ}
    (h : ∀ c ∈ cs, List.Forall₂ R (f c) (g c)) :
    List.Forall₂ R (cs.flatMap f) (cs.flatMap g) := by
  induction cs with
  | nil => exact .nil
  | cons c cs ih =>
    rw [List.flatMap_cons, List.flatMap_cons]
    exact List.rel_append (h c List.mem_cons_self)
      (ih fun c' hc' => h c' (List.mem_cons_of_mem _ hc'))

end RelatedLists
