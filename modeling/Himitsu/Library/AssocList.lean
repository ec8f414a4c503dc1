import Mathlib

/-!
# Finite maps in insertion order

A map is a list of its entries; `List.lookup` reads it.

* `set` — replaces the entry of a key, or adds one at the end.
* `setAll` — `set` for each of several entries.
* `erase` — removes the entry of a key.
* `lookup_set`, `lookup_setAll`, `lookup_eraseAll` — what a changed map holds.
* `lookup_filter` — a filter on the values of a map whose keys are distinct.
-/

set_option autoImplicit false

namespace AssocList

variable {κ α : Type} [DecidableEq κ]

def set (entries : List (κ × α)) (key : κ) (value : α) : List (κ × α) :=
  match entries with
  | [] => [(key, value)]
  | e :: rest => if e.1 = key then (key, value) :: rest else e :: set rest key value

def erase (entries : List (κ × α)) (key : κ) : List (κ × α) := entries.filter (·.1 ≠ key)

/-- `set` for each of the given entries. -/
def setAll (entries added : List (κ × α)) : List (κ × α) :=
  added.foldl (fun map e => set map e.1 e.2) entries

variable [BEq κ] [LawfulBEq κ]

@[simp] theorem lookup_set_self (entries : List (κ × α)) (key : κ) (value : α) :
    (set entries key value).lookup key = some value := by
  induction entries with
  | nil => simp [set]
  | cons e rest ih =>
    unfold set
    split
    · simp [List.lookup]
    · rename_i h
      rw [List.lookup_cons, beq_eq_false_iff_ne.mpr (Ne.symm h)]
      exact ih

theorem lookup_set_of_ne {key other : κ} (h : other ≠ key) (entries : List (κ × α)) (value : α) :
    (set entries key value).lookup other = entries.lookup other := by
  induction entries with
  | nil => simp [set, List.lookup, beq_eq_false_iff_ne.mpr h]
  | cons e rest ih =>
    unfold set
    split
    · rename_i he
      rw [List.lookup_cons, List.lookup_cons, he, beq_eq_false_iff_ne.mpr h]
    · rw [List.lookup_cons, List.lookup_cons, ih]

/-- Setting a key to the value that it has. -/
theorem set_of_lookup {entries : List (κ × α)} {key : κ} {value : α}
    (h : entries.lookup key = some value) : set entries key value = entries := by
  induction entries with
  | nil => cases h
  | cons e rest ih =>
    unfold set
    split
    · rename_i he
      rw [List.lookup_cons, he, beq_self_eq_true] at h
      obtain rfl := Option.some.inj h
      rw [← he]
    · rename_i he
      rw [List.lookup_cons, beq_eq_false_iff_ne.mpr (Ne.symm he)] at h
      rw [ih h]

theorem lookup_erase_of_ne {key other : κ} (h : other ≠ key) (entries : List (κ × α)) :
    (erase entries key).lookup other = entries.lookup other := by
  induction entries with
  | nil => rfl
  | cons e rest ih =>
    unfold erase at ih ⊢
    by_cases he : e.1 = key
    · rw [List.filter_cons_of_neg (by simp [he]), ih, List.lookup_cons, he,
        beq_eq_false_iff_ne.mpr h]
    · rw [List.filter_cons_of_pos (by simp [he]), List.lookup_cons, List.lookup_cons, ih]

@[simp] theorem lookup_erase_self (entries : List (κ × α)) (key : κ) :
    (erase entries key).lookup key = none := by
  rw [List.lookup_eq_none_iff]
  intro e he
  have hne := (List.mem_filter.mp he).2
  exact bne_iff_ne.mpr (Ne.symm (by simpa using hne))

theorem lookup_filter {entries : List (κ × α)} (h : (entries.map (·.1)).Nodup) (p : α → Bool)
    (key : κ) : (entries.filter fun e => p e.2).lookup key = (entries.lookup key).filter p := by
  induction entries with
  | nil => rfl
  | cons e rest ih =>
    obtain ⟨k, a⟩ := e
    rw [List.map_cons, List.nodup_cons] at h
    have hrest := ih h.2
    by_cases hp : p a = true
    · rw [List.filter_cons_of_pos (by simpa using hp), List.lookup_cons, List.lookup_cons]
      cases key == k with
      | true => exact (Option.filter_some_pos hp).symm
      | false => exact hrest
    · rw [List.filter_cons_of_neg (by simpa using hp), hrest, List.lookup_cons]
      by_cases hkey : key = k
      · have hnone : rest.lookup key = none := List.lookup_eq_none_iff.mpr fun other hother =>
          bne_iff_ne.mpr fun heq => h.1 (List.mem_map.mpr ⟨other, hother, by rw [← heq, hkey]⟩)
        rw [hnone, hkey, beq_self_eq_true]
        exact (Option.filter_some_eq_none.mpr hp).symm
      · rw [beq_eq_false_iff_ne.mpr hkey]

theorem lookup_set (entries : List (κ × α)) (key other : κ) (value : α) :
    (set entries key value).lookup other =
      if other = key then some value else entries.lookup other := by
  by_cases h : other = key
  · rw [if_pos h, h, lookup_set_self]
  · rw [if_neg h, lookup_set_of_ne h]

theorem lookup_eraseAll (keys : List κ) (entries : List (κ × α)) (key : κ) :
    (keys.foldl erase entries).lookup key =
      if key ∈ keys then none else entries.lookup key := by
  induction keys generalizing entries with
  | nil => rfl
  | cons first keys ih =>
    rw [List.foldl_cons, ih]
    by_cases heq : key = first
    · rw [heq, lookup_erase_self]
      simp
    · rw [lookup_erase_of_ne heq]
      simp [heq]

omit [DecidableEq κ] in
/-- In a map whose keys are distinct every entry is found. -/
theorem lookup_of_mem {entries : List (κ × α)} (h : (entries.map (·.1)).Nodup) {entry : κ × α}
    (hentry : entry ∈ entries) : entries.lookup entry.1 = some entry.2 := by
  obtain ⟨before, after, rfl⟩ := List.append_of_mem hentry
  rw [List.map_append, List.map_cons, List.nodup_append] at h
  refine List.lookup_eq_some_iff.mpr ⟨before, after, rfl, fun other hother => bne_iff_ne.mpr ?_⟩
  exact fun heq => h.2.2 other.1 (List.mem_map_of_mem hother) entry.1 List.mem_cons_self heq.symm

/-- Added entries come first. -/
theorem lookup_setAll (entries added : List (κ × α)) (key : κ) :
    (setAll entries added).lookup key =
      ((setAll [] added).lookup key).or (entries.lookup key) := by
  unfold setAll
  induction added using List.reverseRecOn with
  | nil => rfl
  | append_singleton added e ih =>
    rw [List.foldl_append, List.foldl_append]
    simp only [List.foldl_cons, List.foldl_nil, lookup_set, ih]
    split <;> rfl

/-- The entries of a map whose keys are distinct. -/
theorem lookup_setAll_nil {added : List (κ × α)} (h : (added.map (·.1)).Nodup) (key : κ) :
    (setAll [] added).lookup key = added.lookup key := by
  induction added with
  | nil => rfl
  | cons e rest ih =>
    obtain ⟨k, a⟩ := e
    rw [List.map_cons, List.nodup_cons] at h
    have hcons : setAll [] ((k, a) :: rest) = setAll [(k, a)] rest := rfl
    rw [hcons, lookup_setAll, ih h.2, List.lookup_cons, List.lookup_cons]
    by_cases hkey : key = k
    · have hnone : rest.lookup key = none := List.lookup_eq_none_iff.mpr fun other hother =>
        bne_iff_ne.mpr fun heq => h.1 (List.mem_map.mpr ⟨other, hother, by rw [← heq, hkey]⟩)
      rw [hnone, hkey, beq_self_eq_true]
      rfl
    · rw [beq_eq_false_iff_ne.mpr hkey]
      exact Option.or_none

theorem mem_keys_iff {entries : List (κ × α)} {key : κ} :
    key ∈ entries.map (·.1) ↔ (entries.lookup key).isSome = true := by
  induction entries with
  | nil => simp
  | cons e rest ih =>
    rw [List.map_cons, List.mem_cons, ih, List.lookup_cons]
    by_cases hkey : key = e.1
    · rw [hkey, beq_self_eq_true]
      simp
    · rw [beq_eq_false_iff_ne.mpr hkey]
      simp [hkey]

omit [BEq κ] [LawfulBEq κ] in
theorem mem_keys_set {entries : List (κ × α)} {key other : κ} {value : α}
    (h : other ∈ (set entries key value).map (·.1)) : other = key ∨ other ∈ entries.map (·.1) := by
  induction entries with
  | nil => exact .inl (by simpa [set] using h)
  | cons e rest ih =>
    unfold set at h
    split at h
    · rename_i he
      rw [List.map_cons, List.mem_cons] at h
      exact h.imp id (List.mem_cons_of_mem _)
    · rw [List.map_cons, List.mem_cons] at h
      obtain rfl | h := h
      · exact .inr (List.mem_cons_self ..)
      · exact (ih h).imp id (List.mem_cons_of_mem _)

omit [BEq κ] [LawfulBEq κ] in
theorem mem_keys_setAll {added : List (κ × α)} {key : κ}
    (h : key ∈ (setAll [] added).map (·.1)) : key ∈ added.map (·.1) := by
  induction added using List.reverseRecOn with
  | nil => exact h
  | append_singleton added e ih =>
    unfold setAll at h ih
    rw [List.foldl_append] at h
    rw [List.map_append]
    obtain rfl | hold := mem_keys_set h
    · exact List.mem_append_right _ (List.mem_singleton_self _)
    · exact List.mem_append_left _ (ih hold)

omit [BEq κ] [LawfulBEq κ] in
theorem nodup_set {entries : List (κ × α)} (h : (entries.map (·.1)).Nodup) (key : κ) (value : α) :
    ((set entries key value).map (·.1)).Nodup := by
  induction entries with
  | nil => exact List.nodup_singleton _
  | cons e rest ih =>
    rw [List.map_cons, List.nodup_cons] at h
    unfold set
    split
    · rename_i he
      rw [List.map_cons, List.nodup_cons, ← he]
      exact h
    · rename_i he
      rw [List.map_cons, List.nodup_cons]
      refine ⟨fun hmem => ?_, ih h.2⟩
      obtain heq | hold := mem_keys_set hmem
      · exact he heq
      · exact h.1 hold

omit [DecidableEq κ] [BEq κ] [LawfulBEq κ] in
theorem nodup_filter {entries : List (κ × α)} (h : (entries.map (·.1)).Nodup)
    (p : κ × α → Bool) : ((entries.filter p).map (·.1)).Nodup :=
  h.sublist (List.filter_sublist.map _)

end AssocList
