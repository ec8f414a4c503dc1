import Himitsu.Library.AssocList

/-!
# Maps whose entries expire

A map in insertion order whose values say when they expire. What has expired is as good as gone, so
that a map may forget it at any time.

* `live` — the value of a key, until it expires.
* `Shows` — from some time on, a map holds what a map that forgets nothing holds.
* `Shows.set`, `Shows.erase`, `Shows.eraseAll` — the changes of both.
* `Shows.forget`, `Shows.sweep` — the map forgets an entry that has expired, or all of them.
-/

set_option autoImplicit false

namespace ExpiringMap

variable {κ β : Type} [DecidableEq κ] [BEq κ] [LawfulBEq κ]

section

variable (expiry : β → Int)

def live (entries : List (κ × β)) (now : Int) (key : κ) : Option β :=
  (entries.lookup key).filter fun value => decide (now < expiry value)

/-- Each key has one entry, and the live ones are those of `f`. -/
structure Shows (now : Int) (entries : List (κ × β)) (f : κ → Option β) : Prop where
  distinct : (entries.map (·.1)).Nodup
  live : ∀ t key, now ≤ t →
    live expiry entries t key = (f key).filter fun value => decide (t < expiry value)

end

variable {expiry : β → Int} {now : Int} {entries : List (κ × β)} {f : κ → Option β}

omit [DecidableEq κ] [LawfulBEq κ] in
theorem shows_nil : Shows expiry now ([] : List (κ × β)) fun _ => none :=
  ⟨List.nodup_nil, fun _ _ _ => rfl⟩

omit [DecidableEq κ] [LawfulBEq κ] in
theorem shows_lookup (h : (entries.map (·.1)).Nodup) :
    Shows expiry now entries fun key => entries.lookup key :=
  ⟨h, fun _ _ _ => rfl⟩

omit [DecidableEq κ] [LawfulBEq κ] in
theorem Shows.later (h : Shows expiry now entries f) {next : Int} (hnext : now ≤ next) :
    Shows expiry next entries f :=
  ⟨h.distinct, fun t key ht => h.live t key (hnext.trans ht)⟩

theorem Shows.set (h : Shows expiry now entries f) (key : κ) (value : β) :
    Shows expiry now (AssocList.set entries key value) (Function.update f key (some value)) := by
  refine ⟨AssocList.nodup_set h.distinct _ _, fun t other ht => ?_⟩
  rw [ExpiringMap.live, AssocList.lookup_set]
  by_cases hother : other = key
  · rw [if_pos hother, hother, Function.update_self]
  · rw [if_neg hother, Function.update_of_ne hother]
    exact h.live t other ht

theorem Shows.eraseAll (h : Shows expiry now entries f) (keys : List κ) :
    Shows expiry now (keys.foldl AssocList.erase entries)
      fun key => if key ∈ keys then none else f key := by
  refine ⟨?_, fun t key ht => ?_⟩
  · have hdistinct := h.distinct
    clear h
    induction keys generalizing entries with
    | nil => exact hdistinct
    | cons first keys ih => exact ih (AssocList.nodup_filter hdistinct _)
  · rw [ExpiringMap.live, AssocList.lookup_eraseAll]
    split
    · rfl
    · exact h.live t key ht

/-- An entry that has expired may go. -/
theorem Shows.forget (h : Shows expiry now entries f) {key : κ} {value : β}
    (hvalue : entries.lookup key = some value) (hexpired : expiry value ≤ now) :
    Shows expiry now (AssocList.erase entries key) f := by
  refine ⟨AssocList.nodup_filter h.distinct _, fun t other ht => ?_⟩
  rw [← h.live t other ht, ExpiringMap.live, ExpiringMap.live]
  by_cases hother : other = key
  · have hgone : decide (t < expiry value) = false := by
      rw [decide_eq_false_iff_not]
      omega
    rw [hother, AssocList.lookup_erase_self, hvalue]
    exact (Option.filter_some_neg (p := fun value => decide (t < expiry value)) hgone).symm
  · rw [AssocList.lookup_erase_of_ne hother]

/-- All entries that have expired may go. -/
theorem Shows.sweep (h : Shows expiry now entries f) :
    Shows expiry now (entries.filter fun entry => !(expiry entry.2 ≤ now)) f := by
  refine ⟨AssocList.nodup_filter h.distinct _, fun t key ht => ?_⟩
  rw [← h.live t key ht, ExpiringMap.live, ExpiringMap.live,
    AssocList.lookup_filter h.distinct fun value => !decide (expiry value ≤ now),
    Option.filter_filter]
  congr 1
  funext value
  by_cases hlive : t < expiry value
  · have hkept : ¬ expiry value ≤ now := by omega
    simp only [hlive, hkept, decide_true, decide_false, Bool.not_false, Bool.and_true]
  · simp only [hlive, decide_false, Bool.and_false]

omit [DecidableEq κ] [LawfulBEq κ] in
/-- What a look at the map finds. -/
theorem Shows.found (h : Shows expiry now entries f) (key : κ) :
    ((entries.lookup key).filter fun value => decide (now < expiry value)) =
      (f key).filter fun value => decide (now < expiry value) :=
  h.live now key le_rfl

end ExpiringMap
