import Himitsu.Library.Except
import Himitsu.Library.JsonTree
import Himitsu.Secrets.Export

/-!
# Nested JSON

`serializeSecretExport` in nested form walks the segments of each key through one object.

* `intercalate_splitKey` — joining the segments of a key gives the key.
* `Comparable` — one path is a prefix of the other.
* `insertPath_free`, `insertPath_comparable` — a path is added to an object exactly where no leaf of
  the object is comparable with it.
* `insertEntries` — the loop over the entries.

Principal result: `nestedObject_ok_iff` — the loop succeeds exactly where no key has an empty
segment and no two paths are comparable, and the leaves of the result are then the entries.
-/

set_option autoImplicit false

namespace Himitsu.Secrets

open JsString Json

/-! ## Splitting a key -/

theorem splitFrom_ne_nil (delimiter : JsString) (skip : Nat) (text : JsString) :
    splitFrom delimiter skip text ≠ [] := by
  induction text generalizing skip with
  | nil => simp [splitFrom]
  | cons c rest ih =>
    unfold splitFrom
    split
    · exact ih _
    · split
      · exact List.cons_ne_nil _ _
      · intro h
        rw [List.modifyHead_eq_nil_iff] at h
        exact ih 0 h

theorem intercalate_modifyHead (delimiter : JsString) (c : UInt16) {parts : List JsString}
    (h : parts ≠ []) :
    delimiter.intercalate (parts.modifyHead (c :: ·)) = c :: delimiter.intercalate parts := by
  cases parts with
  | nil => exact absurd rfl h
  | cons part parts =>
    cases parts with
    | nil => simp
    | cons next parts => simp [List.intercalate_cons_cons]

/-- What is left after the units that a delimiter still takes. -/
theorem intercalate_splitFrom {delimiter : JsString} (hne : delimiter ≠ []) (skip : Nat)
    (text : JsString) :
    delimiter.intercalate (splitFrom delimiter skip text) = text.drop skip := by
  induction text generalizing skip with
  | nil => simp [splitFrom]
  | cons c rest ih =>
    unfold splitFrom
    split
    · rename_i skip
      rw [ih, List.drop_succ_cons]
    · split
      · rename_i hpre
        obtain ⟨after, hafter⟩ := List.isPrefixOf_iff_prefix.mp hpre
        obtain ⟨d, delimiter', rfl⟩ := List.exists_cons_of_ne_nil hne
        obtain ⟨rfl, hrest⟩ := List.cons.inj hafter
        rw [List.intercalate_cons_of_ne_nil (splitFrom_ne_nil _ _ _), ih, ← hrest]
        simp
      · rw [intercalate_modifyHead delimiter c (splitFrom_ne_nil _ _ _), ih]
        rfl

/-- **Joining undoes splitting.** -/
theorem intercalate_splitKey {delimiter : JsString} (hne : delimiter ≠ []) (key : JsString) :
    delimiter.intercalate (splitKey delimiter key) = key :=
  intercalate_splitFrom hne 0 key

theorem splitKey_injective {delimiter : JsString} (hne : delimiter ≠ []) {a b : JsString}
    (h : splitKey delimiter a = splitKey delimiter b) : a = b := by
  rw [← intercalate_splitKey hne a, h, intercalate_splitKey hne b]

theorem mem_intercalate (separator : JsString) {parts : List JsString} {part : JsString}
    {c : UInt16} (hpart : part ∈ parts) (hc : c ∈ part) : c ∈ separator.intercalate parts := by
  induction parts with
  | nil => cases hpart
  | cons first parts ih =>
    by_cases hrest : parts = []
    · rw [hrest, List.mem_singleton] at hpart
      rw [hrest, List.intercalate_singleton, ← hpart]
      exact hc
    · rw [List.intercalate_cons_of_ne_nil hrest]
      rcases List.mem_cons.mp hpart with rfl | hpart
      · exact List.mem_append_left _ (List.mem_append_left _ hc)
      · exact List.mem_append_right _ (ih hpart)

/-- The segments of a key consist of units of the key. -/
theorem mem_key_of_mem_segment {delimiter : JsString} (hne : delimiter ≠ []) {key segment : JsString}
    (h : segment ∈ splitKey delimiter key) {c : UInt16} (hc : c ∈ segment) : c ∈ key := by
  rw [← intercalate_splitKey hne key]
  exact mem_intercalate delimiter h hc

/-! ## One path -/

/-- One path is a prefix of the other. -/
def Comparable (a b : List JsString) : Prop := a <+: b ∨ b <+: a

theorem Comparable.symm {a b : List JsString} (h : Comparable a b) : Comparable b a := h.elim .inr .inl

theorem comparable_cons {segment : JsString} {a b : List JsString} :
    Comparable (segment :: a) (segment :: b) ↔ Comparable a b := by
  simp [Comparable, List.cons_prefix_cons]

theorem not_comparable_cons {s t : JsString} (h : s ≠ t) (a b : List JsString) :
    ¬ Comparable (s :: a) (t :: b) := by
  rintro (hpre | hpre)
  · exact h (List.cons_prefix_cons.mp hpre).1
  · exact h (List.cons_prefix_cons.mp hpre).1.symm

/-- The free path is added. -/
def Inserted (root cursor : List (JsString × Json)) (path : List JsString) (value : JsString) :
    Prop :=
  Forest root ∧ root ≠ [] ∧ (propertyLeaves root).Perm ((path, value) :: propertyLeaves cursor)

/-- **A free path is added.** -/
theorem insertPath_free (key value : JsString) {path : List JsString} (hpath : path ≠ [])
    {cursor : List (JsString × Json)} (h : Forest cursor)
    (hfree : ∀ leaf ∈ propertyLeaves cursor, ¬ Comparable leaf.1 path) :
    ∃ root, insertPath key value path cursor = .ok root ∧ Inserted root cursor path value := by
  induction path generalizing cursor with
  | nil => exact absurd rfl hpath
  | cons segment path ih =>
    cases path with
    | nil =>
      have hnew : segment ∉ cursor.map (·.1) := by
        intro hmem
        obtain ⟨⟨_, child⟩, hproperty, rfl⟩ := List.mem_map.mp hmem
        obtain ⟨leaf, hleaf⟩ := (h.trees _ hproperty).exists_leaf
        exact hfree _ (mem_propertyLeaves hproperty hleaf)
          (.inr (List.cons_prefix_cons.mpr ⟨rfl, List.nil_prefix⟩))
      obtain ⟨hforest, hleaves⟩ := h.addProperty hnew (.string value)
      refine ⟨_, ?_, hforest, setProperty_ne_nil _ _ _, hleaves⟩
      rw [insertPath, if_neg (hasOwn_iff.not.mpr hnew)]
    | cons next path =>
      rw [insertPath]
      cases hget : getProperty cursor segment with
      | none =>
        obtain ⟨child, hok, hforest, hne, hleaves⟩ := ih (List.cons_ne_nil _ _) Forest.nil
          (fun leaf hleaf => nomatch hleaf)
        obtain ⟨hforest', hleaves'⟩ := h.addProperty (getProperty_eq_none hget)
          (.object child hforest.enumerated hne hforest.trees)
        refine ⟨_, ?_, hforest', setProperty_ne_nil _ _ _, hleaves'.trans ?_⟩
        · rw [hok]
          rfl
        · exact (hleaves.map _).append_right _
      | some old =>
        have hmem := getProperty_eq_some hget
        cases h.trees _ hmem with
        | string text =>
          exact absurd (.inl (List.cons_prefix_cons.mpr ⟨rfl, List.nil_prefix⟩))
            (hfree _ (mem_propertyLeaves hmem (List.mem_singleton_self ([], text))))
        | object existing henum hne htrees =>
          obtain ⟨child, hok, hforest, hne', hleaves⟩ := ih (List.cons_ne_nil _ _)
            ⟨henum, htrees⟩ fun leaf hleaf hcomparable =>
              hfree _ (mem_propertyLeaves hmem hleaf) (comparable_cons.mpr hcomparable)
          obtain ⟨hforest', hleaves'⟩ := h.replaceProperty [(next :: path, value)] hmem
            (.object child hforest.enumerated hne' hforest.trees) hleaves
          refine ⟨_, ?_, hforest', setProperty_ne_nil _ _ _, hleaves'⟩
          show (insertPath key value (next :: path) existing).bind _ = _
          rw [hok]
          rfl

/-- A path that a leaf blocks. -/
theorem insertPath_comparable (key value : JsString) {path : List JsString} (hpath : path ≠ [])
    {cursor : List (JsString × Json)} (h : Forest cursor) {leaf : List JsString × JsString}
    (hleaf : leaf ∈ propertyLeaves cursor) (hcomparable : Comparable leaf.1 path) :
    ∃ e, insertPath key value path cursor = .error e := by
  induction path generalizing cursor leaf with
  | nil => exact absurd rfl hpath
  | cons segment path ih =>
    obtain ⟨s, child, inner, hmem, hinner, rfl⟩ := mem_propertyLeaves_iff.mp hleaf
    obtain rfl : s = segment := by
      by_contra hne
      exact not_comparable_cons hne _ _ hcomparable
    have hinnerPath : Comparable inner.1 path := comparable_cons.mp hcomparable
    cases path with
    | nil =>
      refine ⟨pathConflict key, ?_⟩
      rw [insertPath, if_pos (hasOwn_iff.mpr (List.mem_map_of_mem (f := Prod.fst) hmem))]
    | cons next path =>
      rw [insertPath, getProperty_of_mem h.enumerated.nodup hmem]
      cases h.trees _ hmem with
      | string text => exact ⟨pathConflict key, rfl⟩
      | object existing henum hne htrees =>
        obtain ⟨e, he⟩ := ih (List.cons_ne_nil _ _) ⟨henum, htrees⟩ hinner hinnerPath
        refine ⟨e, ?_⟩
        show (insertPath key value (next :: path) existing).bind _ = _
        rw [he]
        rfl

/-! ## All entries -/

/-- The path of an entry. -/
def pathOf (delimiter : JsString) (entry : JsString × JsString) : List JsString :=
  splitKey delimiter entry.1

/-- Nothing blocks the path of an entry. -/
def FreePath (delimiter : JsString) (root : List (JsString × Json)) (entry : JsString × JsString) :
    Prop :=
  [] ∉ pathOf delimiter entry ∧
    ∀ leaf ∈ propertyLeaves root, ¬ Comparable leaf.1 (pathOf delimiter entry)

theorem any_isEmpty_iff {path : List JsString} : path.any List.isEmpty = true ↔ [] ∈ path := by
  simp

theorem insertEntry_free {delimiter : JsString} {root : List (JsString × Json)} (h : Forest root)
    {entry : JsString × JsString} (hfree : FreePath delimiter root entry) :
    ∃ root', insertEntry delimiter root entry = .ok root' ∧
      Inserted root' root (pathOf delimiter entry) entry.2 := by
  obtain ⟨root', hok, hinserted⟩ := insertPath_free entry.1 entry.2
    (splitFrom_ne_nil delimiter 0 entry.1) h hfree.2
  have hsegments : ¬ (splitKey delimiter entry.1).any List.isEmpty = true :=
    any_isEmpty_iff.not.mpr hfree.1
  refine ⟨root', ?_, hinserted⟩
  rw [insertEntry, if_neg hsegments]
  exact hok

theorem insertEntry_blocked {delimiter : JsString} {root : List (JsString × Json)} (h : Forest root)
    {entry : JsString × JsString} (hblocked : ¬ FreePath delimiter root entry) :
    ∃ e, insertEntry delimiter root entry = .error e := by
  rw [insertEntry]
  by_cases hempty : (splitKey delimiter entry.1).any List.isEmpty = true
  · exact ⟨_, if_pos hempty⟩
  · rw [if_neg hempty]
    have hleaf : ∃ leaf ∈ propertyLeaves root, Comparable leaf.1 (pathOf delimiter entry) := by
      by_contra hnone
      push Not at hnone
      exact hblocked ⟨any_isEmpty_iff.not.mp hempty, hnone⟩
    obtain ⟨leaf, hmem, hcomparable⟩ := hleaf
    exact insertPath_comparable entry.1 entry.2 (splitFrom_ne_nil delimiter 0 entry.1) h hmem
      hcomparable

/-- The paths of the entries can stand in one object. -/
structure Nestable (delimiter : JsString) (root : List (JsString × Json))
    (entries : List (JsString × JsString)) : Prop where
  free : ∀ entry ∈ entries, FreePath delimiter root entry
  apart : entries.Pairwise fun a b => ¬ Comparable (pathOf delimiter a) (pathOf delimiter b)

theorem nestable_cons {delimiter : JsString} {root root' : List (JsString × Json)}
    {entry : JsString × JsString} {entries : List (JsString × JsString)}
    (hfree : FreePath delimiter root entry)
    (h : Inserted root' root (pathOf delimiter entry) entry.2) :
    Nestable delimiter root (entry :: entries) ↔ Nestable delimiter root' entries := by
  have hleaves : ∀ leaf, leaf ∈ propertyLeaves root' ↔
      leaf = (pathOf delimiter entry, entry.2) ∨ leaf ∈ propertyLeaves root := by
    intro leaf
    rw [h.2.2.mem_iff, List.mem_cons]
  constructor
  · intro hnestable
    have hapart := List.pairwise_cons.mp hnestable.apart
    refine ⟨fun other hother => ?_, hapart.2⟩
    have hroot := hnestable.free other (List.mem_cons_of_mem _ hother)
    refine ⟨hroot.1, fun leaf hleaf => ?_⟩
    rcases (hleaves leaf).mp hleaf with rfl | hleaf
    · exact hapart.1 other hother
    · exact hroot.2 leaf hleaf
  · intro hnestable
    refine ⟨fun other hother => ?_, List.pairwise_cons.mpr ⟨fun other hother => ?_,
      hnestable.apart⟩⟩
    · rcases List.mem_cons.mp hother with rfl | hother
      · exact hfree
      · have hroot := hnestable.free other hother
        exact ⟨hroot.1, fun leaf hleaf => hroot.2 leaf ((hleaves leaf).mpr (.inr hleaf))⟩
    · exact (hnestable.free other hother).2 _ ((hleaves _).mpr (.inl rfl))

/-- **The loop over the entries.** -/
theorem insertEntries (delimiter : JsString) (entries : List (JsString × JsString))
    {root : List (JsString × Json)} (h : Forest root) :
    (Nestable delimiter root entries → ∃ root',
      entries.foldlM (insertEntry delimiter) root = .ok root' ∧ Forest root' ∧
      (propertyLeaves root').Perm
        ((entries.map fun entry => (pathOf delimiter entry, entry.2)) ++ propertyLeaves root)) ∧
    (¬ Nestable delimiter root entries →
      ∃ e, entries.foldlM (insertEntry delimiter) root = .error e) := by
  induction entries generalizing root with
  | nil =>
    refine ⟨fun _ => ⟨root, rfl, h, .refl _⟩, fun hnot => absurd ?_ hnot⟩
    exact ⟨fun _ h => (nomatch h), .nil⟩
  | cons entry entries ih =>
    rw [List.foldlM_cons]
    by_cases hfree : FreePath delimiter root entry
    · obtain ⟨root', hok, hinserted⟩ := insertEntry_free h hfree
      obtain ⟨hsucceeds, hfails⟩ := ih hinserted.1
      rw [nestable_cons hfree hinserted, hok]
      refine ⟨fun hnestable => ?_, hfails⟩
      obtain ⟨final, hfinal, hforest, hleaves⟩ := hsucceeds hnestable
      refine ⟨final, hfinal, hforest, hleaves.trans ?_⟩
      rw [List.map_cons, List.cons_append]
      exact (hinserted.2.2.append_left _).trans List.perm_middle
    · obtain ⟨e, he⟩ := insertEntry_blocked h hfree
      refine ⟨fun hnestable => absurd (hnestable.free entry List.mem_cons_self) hfree, fun _ => ?_⟩
      rw [he]
      exact ⟨e, rfl⟩

/-! ## The whole record -/

/-- One segment list is a prefix of another one. -/
def ProperPrefix (a b : List JsString) : Prop := a <+: b ∧ a ≠ b

/-- No key has an empty segment, and no key's segments are a proper prefix of another's. -/
def ConflictFree (delimiter : JsString) (entries : List (JsString × JsString)) : Prop :=
  (∀ entry ∈ entries, [] ∉ splitKey delimiter entry.1) ∧
    ∀ a ∈ entries, ∀ b ∈ entries, ¬ ProperPrefix (splitKey delimiter a.1) (splitKey delimiter b.1)

theorem nestable_iff {delimiter : JsString} (hne : delimiter ≠ [])
    {entries : List (JsString × JsString)} (hnodup : (entries.map (·.1)).Nodup) :
    Nestable delimiter [] entries ↔ ConflictFree delimiter entries := by
  constructor
  · intro h
    refine ⟨fun entry hentry => (h.free entry hentry).1, fun a ha b hb hpre => ?_⟩
    have hsymm : Std.Symm fun a b : JsString × JsString =>
        ¬ Comparable (pathOf delimiter a) (pathOf delimiter b) :=
      ⟨fun a b hab hba => hab hba.symm⟩
    have hdiffer : a ≠ b := by
      rintro rfl
      exact hpre.2 rfl
    exact h.apart.forall ha hb hdiffer (.inl hpre.1)
  · rintro ⟨hsegments, hpre⟩
    refine ⟨fun entry hentry => ⟨hsegments entry hentry, fun leaf hleaf => (nomatch hleaf)⟩, ?_⟩
    refine (List.Nodup.of_map _ hnodup).pairwise_of_forall_ne fun a ha b hb hab hcomparable => ?_
    have hdiffer : splitKey delimiter a.1 ≠ splitKey delimiter b.1 := fun heq =>
      hab (List.inj_on_of_nodup_map hnodup ha hb (splitKey_injective hne heq))
    rcases hcomparable with hab' | hba'
    · exact hpre a ha b hb ⟨hab', hdiffer⟩
    · exact hpre b hb a ha ⟨hba', hdiffer.symm⟩

theorem ConflictFree.perm {delimiter : JsString} {xs ys : List (JsString × JsString)}
    (h : xs.Perm ys) : ConflictFree delimiter xs ↔ ConflictFree delimiter ys := by
  simp only [ConflictFree, h.mem_iff]

end Himitsu.Secrets
