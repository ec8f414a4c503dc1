import Himitsu.Imports.Json
import Himitsu.Secrets.NestedJson

/-!
# The JSON round trip

`parseJsonSecrets` applied to the JSON output of `serializeSecretExport`, nested or flat.

* `ImportsBack` — no issue, and exactly the entries of the record.
* `Importable` — a record within the limits of the importer, with keys that `validateSecretKey`
  gives back as they are.
* `importsBack_of_leaves` — an object whose leaves are the entries, each under a path that joins to
  its key, is read back.

Principal result: `json_export_import` — when the nested form exists, and that both forms are read
back.
-/

set_option autoImplicit false

namespace Himitsu.Secrets

open JsString Json JsonImport

/-! ## The export -/

/-- The delimiter of an export, `__` by default. -/
def ExportOptions.separator (options : ExportOptions) : JsString :=
  options.delimiter.getD (ofAscii "__")

theorem nestedObject_cases (delimiter : JsString) {entries : List (JsString × JsString)}
    (hnodup : (entries.map (·.1)).Nodup) :
    (1 ≤ delimiter.length ∧ delimiter.length ≤ 10) ∧ ConflictFree delimiter entries ∧
        (∃ root, nestedObject delimiter entries = .ok (.object root) ∧ Forest root ∧
          (propertyLeaves root).Perm
            (entries.map fun entry => (pathOf delimiter entry, entry.2))) ∨
      ¬ ((1 ≤ delimiter.length ∧ delimiter.length ≤ 10) ∧ ConflictFree delimiter entries) ∧
        ∃ e, nestedObject delimiter entries = .error e := by
  unfold nestedObject
  by_cases hlength : delimiter.length < 1 ∨ delimiter.length > 10
  · rw [if_pos hlength]
    exact .inr ⟨fun h => by omega, _, rfl⟩
  · have hne : delimiter ≠ [] := by
      rintro rfl
      simp at hlength
    obtain ⟨hsucceeds, hfails⟩ := insertEntries delimiter entries Forest.nil
    rw [if_neg hlength]
    by_cases hnestable : Nestable delimiter [] entries
    · obtain ⟨root, hok, hforest, hleaves⟩ := hsucceeds hnestable
      refine .inl ⟨by omega, (nestable_iff hne hnodup).mp hnestable, root, ?_, hforest, ?_⟩
      · rw [hok]
        rfl
      · simpa [propertyLeaves] using hleaves
    · obtain ⟨e, he⟩ := hfails hnestable
      refine .inr ⟨fun h => hnestable ((nestable_iff hne hnodup).mpr h.2), e, ?_⟩
      rw [he]
      rfl

/-- The flat object has one leaf for each entry. -/
theorem fromEntries_forest {entries : List (JsString × JsString)}
    (hnodup : (entries.map (·.1)).Nodup) :
    Forest (fromEntries (entries.map fun entry => (entry.1, Json.string entry.2))) ∧
      (propertyLeaves (fromEntries (entries.map fun entry => (entry.1, Json.string entry.2)))).Perm
        (entries.map fun entry => ([entry.1], entry.2)) := by
  induction entries using List.reverseRecOn with
  | nil => exact ⟨.nil, .refl _⟩
  | append_singleton entries entry ih =>
    rw [List.map_append, List.nodup_append] at hnodup
    obtain ⟨hforest, hleaves⟩ := ih hnodup.1
    have hkeys : ∀ (root : List (JsString × Json)),
        (propertyLeaves root).Perm (entries.map fun entry => ([entry.1], entry.2)) →
        Forest root → entry.1 ∉ root.map (·.1) := by
      intro root hperm hroot hmem
      obtain ⟨property, hproperty, hkey⟩ := List.mem_map.mp hmem
      obtain ⟨leaf, hleaf⟩ := (hroot.trees property hproperty).exists_leaf
      have hin := hperm.mem_iff.mp (mem_propertyLeaves hproperty hleaf)
      obtain ⟨other, hother, heq⟩ := List.mem_map.mp hin
      have hsame : other.1 = property.1 := (List.cons.inj (Prod.mk.inj heq).1).1
      exact hnodup.2.2 other.1 (List.mem_map_of_mem hother) entry.1 (by simp) (hsame.trans hkey)
    rw [List.map_append, fromEntries, List.foldl_append]
    obtain ⟨hforest', hleaves'⟩ := hforest.addProperty (hkeys _ hleaves hforest) (.string entry.2)
    refine ⟨hforest', hleaves'.trans ?_⟩
    rw [List.map_append]
    exact (hleaves.append_left _).trans List.perm_append_comm

/-! ## The import -/

/-- The importer reports nothing, and its entries are exactly the record. -/
def ImportsBack (numberText syntaxMessage : JsString → JsString) (secrets : SecretRecord)
    (delimiter output : JsString) : Prop :=
  let parsed := parseJsonSecrets numberText syntaxMessage output delimiter
  parsed.issues = [] ∧
    (parsed.entries.map fun entry => (entry.key, entry.value)).Perm secrets.entries

/-- What the importer asks of a record and a delimiter. -/
structure Importable (secrets : SecretRecord) (delimiter : JsString) : Prop where
  accepted : isAcceptedDelimiter delimiter = true
  size : secrets.entries.length ≤ 100
  keys : ∀ entry ∈ secrets.entries, ∃ allowNonConforming,
    validateSecretKey entry.1 allowNonConforming = .ok entry.1
  depth : ∀ entry ∈ secrets.entries, (splitKey delimiter entry.1).length ≤ 20

theorem validateSecretKey_units {key : JsString} {allowNonConforming : Bool}
    (h : validateSecretKey key allowNonConforming = .ok key) :
    key ≠ [] ∧ ∀ c ∈ key, isForbidden c = false := by
  obtain ⟨hlength, hunits⟩ := units_of_validateSecretKey h
  exact ⟨List.ne_nil_of_length_pos hlength.1, hunits⟩

theorem isInvalidSegment_of_units {segment : JsString} (hne : segment ≠ [])
    (h : ∀ c ∈ segment, isForbidden c = false) : isInvalidSegment segment = false := by
  simp only [isInvalidSegment, Bool.or_eq_false_iff, List.isEmpty_eq_false_iff, List.any_eq_false,
    Bool.not_eq_true]
  exact ⟨hne, h⟩

theorem importsBack_of_leaves (numberText syntaxMessage : JsString → JsString)
    {secrets : SecretRecord} {delimiter : JsString} (himportable : Importable secrets delimiter)
    {root : List (JsString × Json)} (hforest : Forest root)
    {path : JsString × JsString → List JsString}
    (hleaves : (propertyLeaves root).Perm
      (secrets.entries.map fun entry => (path entry, entry.2)))
    (hjoin : ∀ entry ∈ secrets.entries, delimiter.intercalate (path entry) = entry.1)
    (hclean : ∀ entry ∈ secrets.entries, (path entry).length ≤ 20 ∧
      ∀ segment ∈ path entry, isInvalidSegment segment = false) :
    ImportsBack numberText syntaxMessage secrets delimiter
      (stringifyIndented (.object root) ++ [0x0A]) := by
  have hafter : ∀ c ∈ ([0x0A] : JsString), isJsonSpace c = true := by simp [isJsonSpace]
  have hparse := parse_forest numberText hforest hafter
  have hflat : (flattened delimiter [] (propertyLeaves root)).Perm secrets.entries := by
    refine (hleaves.map _).trans (.of_eq ?_)
    rw [List.map_map]
    refine (List.map_congr_left fun entry hentry => ?_).trans (List.map_id _)
    exact Prod.ext (hjoin entry hentry) rfl
  obtain ⟨hissues, hentries⟩ := parseJsonSecrets_forest numberText syntaxMessage
    himportable.accepted hparse hforest
    (fun leaf hleaf => by
      obtain ⟨entry, hentry, rfl⟩ := List.mem_map.mp (hleaves.mem_iff.mp hleaf)
      rw [Nat.zero_add]
      exact hclean entry hentry)
    ((hflat.map _).nodup_iff.mpr secrets.nodup)
    (by
      rw [hleaves.length_eq, List.length_map]
      exact himportable.size)
  exact ⟨hissues, hentries ▸ hflat⟩

theorem nested_importsBack (numberText syntaxMessage : JsString → JsString)
    {secrets : SecretRecord} {delimiter : JsString} (himportable : Importable secrets delimiter)
    (hfree : ConflictFree delimiter secrets.entries) {root : List (JsString × Json)}
    (hforest : Forest root)
    (hleaves : (propertyLeaves root).Perm
      (secrets.entries.map fun entry => (pathOf delimiter entry, entry.2))) :
    ImportsBack numberText syntaxMessage secrets delimiter
      (stringifyIndented (.object root) ++ [0x0A]) := by
  have hne : delimiter ≠ [] := by
    rintro rfl
    exact absurd himportable.accepted (by decide)
  refine importsBack_of_leaves numberText syntaxMessage himportable hforest hleaves
    (fun entry _ => intercalate_splitKey hne entry.1) fun entry hentry => ?_
  obtain ⟨allowNonConforming, hkey⟩ := himportable.keys entry hentry
  refine ⟨himportable.depth entry hentry, fun segment hsegment => isInvalidSegment_of_units ?_ ?_⟩
  · rintro rfl
    exact hfree.1 entry hentry hsegment
  · exact fun c hc => (validateSecretKey_units hkey).2 c (mem_key_of_mem_segment hne hsegment hc)

theorem flat_importsBack (numberText syntaxMessage : JsString → JsString)
    {secrets : SecretRecord} {delimiter : JsString} (himportable : Importable secrets delimiter)
    {root : List (JsString × Json)} (hforest : Forest root)
    (hleaves : (propertyLeaves root).Perm
      (secrets.entries.map fun entry => ([entry.1], entry.2))) :
    ImportsBack numberText syntaxMessage secrets delimiter
      (stringifyIndented (.object root) ++ [0x0A]) := by
  refine importsBack_of_leaves numberText syntaxMessage himportable hforest hleaves
    (fun entry _ => List.intercalate_singleton) fun entry hentry => ⟨by simp, fun segment hs => ?_⟩
  obtain ⟨allowNonConforming, hkey⟩ := himportable.keys entry hentry
  obtain ⟨hne, hunits⟩ := validateSecretKey_units hkey
  rw [List.mem_singleton.mp hs]
  exact isInvalidSegment_of_units hne hunits

/-- **The JSON export and its import.**  The nested form of a record exists exactly where the
delimiter has 1 to 10 units, no key has an empty segment and no key's segments are a proper prefix
of another's; and whatever form is written of an importable record is read back. -/
theorem json_export_import (localeCompare : LocaleCompare)
    (numberText syntaxMessage : JsString → JsString) (secrets : SecretRecord)
    (options : ExportOptions) :
    ((∃ output, serializeSecretExport localeCompare secrets .json ⟨true, options.delimiter⟩ =
        .ok output) ↔
      (1 ≤ options.separator.length ∧ options.separator.length ≤ 10) ∧
        ConflictFree options.separator secrets.entries) ∧
    ∀ output, Importable secrets options.separator →
      serializeSecretExport localeCompare secrets .json options = .ok output →
        ImportsBack numberText syntaxMessage secrets options.separator output := by
  have hperm := sortedEntries_perm localeCompare secrets
  have hsorted := sortedEntries_nodup localeCompare secrets
  have hnested := nestedObject_cases options.separator hsorted
  rw [ConflictFree.perm hperm] at hnested
  have hexport : serializeSecretExport localeCompare secrets .json ⟨true, options.delimiter⟩ =
      (nestedObject options.separator (sortedEntries localeCompare secrets)).bind fun object =>
        .ok (stringifyIndented object ++ [0x0A]) := rfl
  constructor
  · rw [hexport]
    rcases hnested with ⟨hlength, hfree, root, hok, -⟩ | ⟨hnot, e, he⟩
    · rw [hok]
      exact ⟨fun _ => ⟨hlength, hfree⟩, fun _ => ⟨_, rfl⟩⟩
    · rw [he]
      exact ⟨fun ⟨_, h⟩ => (nomatch h), fun h => absurd h hnot⟩
  · intro output himportable hok
    obtain ⟨nested, delimiter⟩ := options
    cases nested with
    | true =>
      rw [show serializeSecretExport localeCompare secrets .json ⟨true, delimiter⟩ = _ from
        hexport] at hok
      rcases hnested with ⟨-, hfree, root, hroot, hforest, hleaves⟩ | ⟨-, e, he⟩
      · rw [hroot] at hok
        cases hok
        exact nested_importsBack numberText syntaxMessage himportable hfree hforest
          (hleaves.trans (hperm.map _))
      · rw [he] at hok
        cases hok
    | false =>
      obtain ⟨hforest, hleaves⟩ := fromEntries_forest hsorted
      cases hok
      exact flat_importsBack numberText syntaxMessage himportable hforest
        (hleaves.trans (hperm.map _))

/-! ## A record and its two limits -/

def plainCompare : LocaleCompare := fun _ _ => 0

def plainText : JsString → JsString := id

def emptyRecord : SecretRecord := ⟨[], List.nodup_nil⟩

/-- One key with a leading blank, which `validateSecretKey` takes off. -/
def blankRecord : SecretRecord := ⟨[(ofAscii " A", ofAscii "1")], by simp⟩

def nestedRecord : SecretRecord :=
  ⟨[(ofAscii "A__B", ofAscii "1"), (ofAscii "A__C", ofAscii "2")], by decide⟩

/-- Two keys below one object, nested and read back. -/
theorem json_export_import_nested :
    ∃ output, serializeSecretExport plainCompare nestedRecord .json ⟨true, none⟩ = .ok output ∧
      ImportsBack plainText plainText nestedRecord (ofAscii "__") output :=
  ⟨_, rfl, (json_export_import plainCompare plainText plainText nestedRecord ⟨true, none⟩).2 _
    ⟨by decide, by decide, by
      intro entry hentry
      simp only [nestedRecord, List.mem_cons, List.not_mem_nil, or_false] at hentry
      rcases hentry with rfl | rfl
      · exact ⟨true, rfl⟩
      · exact ⟨true, rfl⟩, by
      intro entry hentry
      simp only [nestedRecord, List.mem_cons, List.not_mem_nil, or_false] at hentry
      rcases hentry with rfl | rfl <;> decide⟩ rfl⟩

/-- A delimiter of 11 units is refused, and a key that `validateSecretKey` trims is not read
back. -/
theorem longDelimiter_not_exported :
    (¬ ∀ (localeCompare : LocaleCompare) (secrets : SecretRecord) (delimiter : JsString),
      (∃ output, serializeSecretExport localeCompare secrets .json ⟨true, some delimiter⟩ =
        .ok output) ↔ ConflictFree delimiter secrets.entries) ∧
    ¬ ∀ (localeCompare : LocaleCompare) (numberText syntaxMessage : JsString → JsString)
      (secrets : SecretRecord) (delimiter output : JsString),
      isAcceptedDelimiter delimiter = true → secrets.entries.length ≤ 100 →
      (∀ entry ∈ secrets.entries, ∃ allowNonConforming normalized,
        validateSecretKey entry.1 allowNonConforming = .ok normalized) →
      (∀ entry ∈ secrets.entries, (splitKey delimiter entry.1).length ≤ 20) →
      serializeSecretExport localeCompare secrets .json ⟨false, some delimiter⟩ = .ok output →
        ImportsBack numberText syntaxMessage secrets delimiter output := by
  constructor
  · intro h
    obtain ⟨output, houtput⟩ :=
      (h plainCompare emptyRecord (List.replicate 11 0x5F)).mpr ⟨by simp [emptyRecord], by
        simp [emptyRecord]⟩
    cases houtput
  · intro h
    have hback := h plainCompare plainText plainText blankRecord (ofAscii "__") _ (by decide)
      (by decide)
      (by
        intro entry hentry
        obtain rfl := List.mem_singleton.mp hentry
        exact ⟨true, ofAscii "A", rfl⟩)
      (by
        intro entry hentry
        obtain rfl := List.mem_singleton.mp hentry
        decide) rfl
    exact absurd hback.1 (by decide)

end Himitsu.Secrets
