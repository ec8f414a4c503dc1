import Himitsu.Library.JsonParse

/-!
# Objects of strings and objects

* `Enumerated` — properties with distinct keys in enumeration order: array indices ascending,
  then the other keys.
* `Forest` — the properties of an object whose leaves are strings and whose inner objects are not
  empty.
* `leaves` — the strings of a value, each with the path that leads to it.

Principal result: `parse_forest` — `JSON.parse` reads back what `JSON.stringify(value, null, 2)`
writes for such an object.
-/

set_option autoImplicit false

namespace Json

open JsString

/-! ## Enumeration order -/

section Properties

variable {α : Type}

/-- Properties as an ordinary object enumerates them. -/
structure Enumerated (properties : List (JsString × α)) : Prop where
  nodup : (properties.map (·.1)).Nodup
  ordered : properties.Pairwise fun a b => precedes b.1 a.1 = false

theorem Enumerated.nil : Enumerated ([] : List (JsString × α)) := ⟨List.nodup_nil, .nil⟩

theorem precedes_cases {key other : JsString} (h : precedes key other = true) :
    ∃ i, arrayIndex key = some i ∧ ∀ j, arrayIndex other = some j → i < j := by
  unfold precedes at h
  cases hkey : arrayIndex key with
  | none => simp [hkey] at h
  | some i =>
    refine ⟨i, rfl, fun j hj => ?_⟩
    simpa [hkey, hj] using h

/-- What comes before a key that another key precedes does not precede the other key. -/
theorem not_precedes_of_precedes {key property later : JsString} (h : precedes key property = true)
    (hlater : precedes later property = false) : precedes later key = false := by
  obtain ⟨i, hkey, hi⟩ := precedes_cases h
  by_contra hnot
  rw [Bool.not_eq_false] at hnot
  obtain ⟨l, hl, hlt⟩ := precedes_cases hnot
  have hli := hlt i hkey
  unfold precedes at hlater
  cases hproperty : arrayIndex property with
  | none => simp [hl, hproperty] at hlater
  | some j =>
    have hij := hi j hproperty
    simp only [hl, hproperty, decide_eq_false_iff_not] at hlater
    omega

theorem hasOwn_iff {properties : List (JsString × α)} {key : JsString} :
    hasOwn properties key = true ↔ key ∈ properties.map (·.1) := by
  simp [hasOwn]

theorem addProperty_perm (key : JsString) (value : α) (properties : List (JsString × α)) :
    (addProperty key value properties).Perm ((key, value) :: properties) := by
  induction properties with
  | nil => exact .refl _
  | cons property rest ih =>
    unfold addProperty
    split
    · exact .refl _
    · exact (ih.cons property).trans (.swap ..)

theorem pairwise_addProperty {key : JsString} (value : α) {properties : List (JsString × α)}
    (h : properties.Pairwise fun a b => precedes b.1 a.1 = false) :
    (addProperty key value properties).Pairwise fun a b => precedes b.1 a.1 = false := by
  induction properties with
  | nil => exact List.pairwise_singleton _ _
  | cons property rest ih =>
    rw [List.pairwise_cons] at h
    unfold addProperty
    split
    · rename_i hprecedes
      refine List.pairwise_cons.mpr ⟨fun later hlater => ?_, List.pairwise_cons.mpr h⟩
      rcases List.mem_cons.mp hlater with rfl | hlater
      · by_contra hnot
        rw [Bool.not_eq_false] at hnot
        obtain ⟨i, hi, hlt⟩ := precedes_cases hprecedes
        obtain ⟨j, hj, hlt'⟩ := precedes_cases hnot
        have := hlt j hj
        have := hlt' i hi
        omega
      · exact not_precedes_of_precedes hprecedes (h.1 later hlater)
    · rename_i hprecedes
      refine List.pairwise_cons.mpr ⟨fun later hlater => ?_, ih h.2⟩
      rcases List.mem_cons.mp ((addProperty_perm key value rest).mem_iff.mp hlater) with
        rfl | hlater
      · exact Bool.not_eq_true _ ▸ hprecedes
      · exact h.1 later hlater

/-- A new key. -/
theorem setProperty_new {properties : List (JsString × α)} {key : JsString} (value : α)
    (h : key ∉ properties.map (·.1)) :
    setProperty properties key value = addProperty key value properties := by
  rw [setProperty, if_neg (hasOwn_iff.not.mpr h)]

/-- A key that is there keeps its place. -/
theorem setProperty_split {before after : List (JsString × α)} {key : JsString} {old : α}
    (value : α) (h : ((before ++ (key, old) :: after).map (·.1)).Nodup) :
    setProperty (before ++ (key, old) :: after) key value = before ++ (key, value) :: after := by
  rw [List.map_append, List.map_cons, List.nodup_append, List.nodup_cons] at h
  obtain ⟨-, ⟨hafter, -⟩, hbefore⟩ := h
  have hkeep : ∀ properties : List (JsString × α), key ∉ properties.map (·.1) →
      (properties.map fun property => if property.1 = key then (key, value) else property) =
        properties := by
    intro properties hnot
    refine (List.map_congr_left fun property hproperty => ?_).trans (List.map_id _)
    exact if_neg fun heq => hnot (List.mem_map.mpr ⟨property, hproperty, heq⟩)
  rw [setProperty, if_pos (hasOwn_iff.mpr (by simp)), List.map_append, List.map_cons, if_pos rfl,
    hkeep after hafter, hkeep before]
  exact fun hmem => hbefore key hmem key List.mem_cons_self rfl

theorem addProperty_perm_keys {key : JsString} {value : α} {properties : List (JsString × α)}
    (hnew : key ∉ properties.map (·.1)) (h : (properties.map (·.1)).Nodup) :
    ((addProperty key value properties).map (·.1)).Nodup :=
  ((addProperty_perm key value properties).map _).nodup_iff.mpr (List.nodup_cons.mpr ⟨hnew, h⟩)

theorem Enumerated.addProperty {key : JsString} (value : α) {properties : List (JsString × α)}
    (h : Enumerated properties) (hnew : key ∉ properties.map (·.1)) :
    Enumerated (addProperty key value properties) :=
  ⟨addProperty_perm_keys hnew h.nodup, pairwise_addProperty value h.ordered⟩

theorem setProperty_keys_nodup {key : JsString} (value : α) {properties : List (JsString × α)}
    (h : (properties.map (·.1)).Nodup) :
    ((setProperty properties key value).map (·.1)).Nodup := by
  unfold setProperty
  split
  · have hkeys : (properties.map fun property =>
        if property.1 = key then (key, value) else property).map (·.1) =
        properties.map (·.1) := by
      rw [List.map_map]
      refine List.map_congr_left fun property _ => ?_
      simp only [Function.comp]
      split
      · rename_i heq
        exact heq.symm
      · rfl
    rw [hkeys]
    exact h
  · rename_i hnew
    refine addProperty_perm_keys (fun hmem => hnew ?_) h
    obtain ⟨property, hproperty, heq⟩ := List.mem_map.mp hmem
    exact List.any_eq_true.mpr ⟨property, hproperty, by simpa using heq⟩

/-- The keys of an object are distinct. -/
theorem fromEntries_nodup (entries : List (JsString × α)) :
    ((fromEntries entries).map (·.1)).Nodup := by
  have hfold : ∀ (entries properties : List (JsString × α)), (properties.map (·.1)).Nodup →
      ((entries.foldl (fun properties entry => setProperty properties entry.1 entry.2)
        properties).map (·.1)).Nodup := by
    intro entries
    induction entries with
    | nil => exact fun properties h => h
    | cons entry entries ih => exact fun properties h => ih _ (setProperty_keys_nodup entry.2 h)
  exact hfold entries [] List.nodup_nil

/-- Replacing a value keeps the order. -/
theorem Enumerated.replace {before after : List (JsString × α)} {key : JsString} {old : α}
    (value : α) (h : Enumerated (before ++ (key, old) :: after)) :
    Enumerated (before ++ (key, value) :: after) := by
  refine ⟨by simpa using h.nodup, ?_⟩
  have hordered := h.ordered
  rw [List.pairwise_append, List.pairwise_cons] at hordered ⊢
  refine ⟨hordered.1, hordered.2.1, fun a ha b hb => ?_⟩
  rcases List.mem_cons.mp hb with rfl | hb
  · exact hordered.2.2 a ha (key, old) List.mem_cons_self
  · exact hordered.2.2 a ha b (List.mem_cons_of_mem _ hb)

/-- Assigning the properties of an enumeration one after the other appends each. -/
theorem Enumerated.setProperty_append {properties : List (JsString × α)} {key : JsString}
    {value : α} {rest : List (JsString × α)}
    (h : Enumerated (properties ++ (key, value) :: rest)) :
    setProperty properties key value = properties ++ [(key, value)] := by
  have hnodup := h.nodup
  have hordered := h.ordered
  rw [List.map_append, List.map_cons, List.nodup_append] at hnodup
  rw [List.pairwise_append] at hordered
  have hlast : ∀ property ∈ properties, precedes key property.1 = false := fun property hp =>
    hordered.2.2 property hp (key, value) List.mem_cons_self
  rw [setProperty_new value fun hmem => hnodup.2.2 key hmem key List.mem_cons_self rfl]
  clear h hnodup hordered
  induction properties with
  | nil => rfl
  | cons property properties ih =>
    rw [Json.addProperty, if_neg (by simp [hlast property List.mem_cons_self]),
      ih fun p hp => hlast p (List.mem_cons_of_mem _ hp), List.cons_append]

end Properties

/-! ## Trees of strings -/

/-- A string, or an object that has properties and holds trees. -/
inductive Tree : Json → Prop where
  | string (value : JsString) : Tree (.string value)
  | object (properties : List (JsString × Json)) (henum : Enumerated properties)
      (hne : properties ≠ []) (h : ∀ property ∈ properties, Tree property.2) :
      Tree (.object properties)

/-- The properties of an object of trees. -/
structure Forest (properties : List (JsString × Json)) : Prop where
  enumerated : Enumerated properties
  trees : ∀ property ∈ properties, Tree property.2

theorem Forest.nil : Forest [] := ⟨.nil, by simp⟩

mutual

/-- The strings of a value, with their paths. -/
def leaves : Json → List (List JsString × JsString)
  | .string value => [([], value)]
  | .object properties => propertyLeaves properties
  | _ => []

def propertyLeaves : List (JsString × Json) → List (List JsString × JsString)
  | [] => []
  | (segment, child) :: properties =>
    (leaves child).map (fun leaf => (segment :: leaf.1, leaf.2)) ++ propertyLeaves properties

end

theorem propertyLeaves_append (xs ys : List (JsString × Json)) :
    propertyLeaves (xs ++ ys) = propertyLeaves xs ++ propertyLeaves ys := by
  induction xs with
  | nil => rfl
  | cons x xs ih =>
    rw [List.cons_append, propertyLeaves, propertyLeaves, ih, List.append_assoc]

theorem propertyLeaves_perm {xs ys : List (JsString × Json)} (h : xs.Perm ys) :
    (propertyLeaves xs).Perm (propertyLeaves ys) := by
  induction h with
  | nil => exact .refl _
  | cons x _ ih => exact ih.append_left _
  | swap x y l =>
    rw [propertyLeaves, propertyLeaves, propertyLeaves, propertyLeaves, ← List.append_assoc,
      ← List.append_assoc]
    exact List.perm_append_comm.append_right _
  | trans _ _ ih₁ ih₂ => exact ih₁.trans ih₂

theorem mem_propertyLeaves {properties : List (JsString × Json)} {segment : JsString}
    {child : Json} (hmem : (segment, child) ∈ properties) {leaf : List JsString × JsString}
    (h : leaf ∈ leaves child) : (segment :: leaf.1, leaf.2) ∈ propertyLeaves properties := by
  obtain ⟨before, after, rfl⟩ := List.append_of_mem hmem
  rw [propertyLeaves_append, propertyLeaves]
  exact List.mem_append_right _ (List.mem_append_left _ (List.mem_map_of_mem h))

theorem mem_propertyLeaves_iff {properties : List (JsString × Json)}
    {leaf : List JsString × JsString} :
    leaf ∈ propertyLeaves properties ↔
      ∃ segment child inner, (segment, child) ∈ properties ∧ inner ∈ leaves child ∧
        leaf = (segment :: inner.1, inner.2) := by
  constructor
  · intro h
    induction properties with
    | nil => simp [propertyLeaves] at h
    | cons property properties ih =>
      rw [propertyLeaves] at h
      rcases List.mem_append.mp h with h | h
      · obtain ⟨inner, hinner, rfl⟩ := List.mem_map.mp h
        exact ⟨property.1, property.2, inner, List.mem_cons_self, hinner, rfl⟩
      · obtain ⟨segment, child, inner, hmem, hrest⟩ := ih h
        exact ⟨segment, child, inner, List.mem_cons_of_mem _ hmem, hrest⟩
  · rintro ⟨segment, child, inner, hmem, hinner, rfl⟩
    exact mem_propertyLeaves hmem hinner

/-- Every tree has a leaf. -/
theorem Tree.exists_leaf {value : Json} (h : Tree value) : ∃ leaf, leaf ∈ leaves value := by
  induction h with
  | string value => exact ⟨([], value), List.mem_singleton_self _⟩
  | object properties henum hne h ih =>
    obtain ⟨property, hproperty⟩ := List.exists_mem_of_ne_nil _ hne
    obtain ⟨leaf, hleaf⟩ := ih property hproperty
    exact ⟨_, mem_propertyLeaves hproperty hleaf⟩

/-! ## Assignments -/

theorem getProperty_eq_some {properties : List (JsString × Json)} {key : JsString} {value : Json}
    (h : getProperty properties key = some value) : (key, value) ∈ properties := by
  obtain ⟨property, hfind, rfl⟩ := Option.map_eq_some_iff.mp h
  have hkey := List.find?_some hfind
  rw [beq_iff_eq] at hkey
  rw [← hkey]
  exact List.mem_of_find?_eq_some hfind

theorem getProperty_eq_none {properties : List (JsString × Json)} {key : JsString}
    (h : getProperty properties key = none) : key ∉ properties.map (·.1) := by
  rw [getProperty, Option.map_eq_none_iff, List.find?_eq_none] at h
  intro hmem
  obtain ⟨property, hproperty, rfl⟩ := List.mem_map.mp hmem
  exact h property hproperty (by simp)

theorem getProperty_of_mem {properties : List (JsString × Json)} {key : JsString} {value : Json}
    (hnodup : (properties.map (·.1)).Nodup) (h : (key, value) ∈ properties) :
    getProperty properties key = some value := by
  cases hget : getProperty properties key with
  | none => exact absurd (List.mem_map_of_mem (f := Prod.fst) h) (getProperty_eq_none hget)
  | some other =>
    have hsame := List.inj_on_of_nodup_map hnodup (getProperty_eq_some hget) h rfl
    rw [(Prod.mk.inj hsame).2]

/-- A new property of an object. -/
theorem Forest.addProperty {cursor : List (JsString × Json)} (h : Forest cursor)
    {segment : JsString} (hnew : segment ∉ cursor.map (·.1)) {child : Json} (hchild : Tree child) :
    Forest (setProperty cursor segment child) ∧
      (propertyLeaves (setProperty cursor segment child)).Perm
        (child.leaves.map (fun leaf => (segment :: leaf.1, leaf.2)) ++ propertyLeaves cursor) := by
  rw [setProperty_new child hnew]
  have hperm := addProperty_perm segment child cursor
  refine ⟨⟨h.enumerated.addProperty child hnew, fun property hp => ?_⟩, propertyLeaves_perm hperm⟩
  rcases List.mem_cons.mp (hperm.mem_iff.mp hp) with rfl | hp
  · exact hchild
  · exact h.trees property hp

/-- A new value of a property that is there. -/
theorem Forest.replaceProperty {cursor : List (JsString × Json)} (h : Forest cursor)
    (added : List (List JsString × JsString)) {segment : JsString} {old : Json}
    (hmem : (segment, old) ∈ cursor) {child : Json} (hchild : Tree child)
    (hleaves : child.leaves.Perm (added ++ old.leaves)) :
    Forest (setProperty cursor segment child) ∧
      (propertyLeaves (setProperty cursor segment child)).Perm
        (added.map (fun leaf => (segment :: leaf.1, leaf.2)) ++ propertyLeaves cursor) := by
  obtain ⟨before, after, rfl⟩ := List.append_of_mem hmem
  rw [setProperty_split child h.enumerated.nodup]
  refine ⟨⟨h.enumerated.replace child, fun property hp => ?_⟩, ?_⟩
  · rcases List.mem_append.mp hp with hp | hp
    · exact h.trees property (List.mem_append_left _ hp)
    · rcases List.mem_cons.mp hp with rfl | hp
      · exact hchild
      · exact h.trees property (List.mem_append_right _ (List.mem_cons_of_mem _ hp))
  · rw [propertyLeaves_append, propertyLeaves_append, propertyLeaves, propertyLeaves]
    have hmap := hleaves.map fun leaf : List JsString × JsString => (segment :: leaf.1, leaf.2)
    rw [List.map_append] at hmap
    refine ((hmap.append_right _).append_left _).trans ?_
    rw [List.append_assoc]
    exact List.perm_append_comm_assoc _ _ _

theorem setProperty_ne_nil (cursor : List (JsString × Json)) (segment : JsString) (child : Json) :
    setProperty cursor segment child ≠ [] := by
  unfold setProperty
  split
  · rename_i h
    intro hnil
    rw [List.map_eq_nil_iff.mp hnil] at h
    simp [hasOwn] at h
  · intro hnil
    have hlength := (addProperty_perm segment child cursor).length_eq
    rw [hnil] at hlength
    simp at hlength

/-! ## Reading a tree -/

theorem skipSpace_append {spaces : JsString} (h : ∀ c ∈ spaces, isJsonSpace c = true)
    (text : JsString) : skipSpace (spaces ++ text) = skipSpace text := by
  induction spaces with
  | nil => rfl
  | cons c spaces ih =>
    rw [skipSpace, List.cons_append, List.dropWhile_cons_of_pos (h c List.mem_cons_self)]
    exact ih fun d hd => h d (List.mem_cons_of_mem _ hd)

theorem parseValue_append (numberText : JsString → JsString) (fuel : Nat) {spaces : JsString}
    (h : ∀ c ∈ spaces, isJsonSpace c = true) (text : JsString) :
    parseValue numberText fuel (spaces ++ text) = parseValue numberText fuel text := by
  cases fuel with
  | zero => rfl
  | succ fuel => rw [parseValue, parseValue, skipSpace_append h]

theorem parseMembers_append (numberText : JsString → JsString) (fuel : Nat)
    (properties : List (JsString × Json)) {spaces : JsString}
    (h : ∀ c ∈ spaces, isJsonSpace c = true) (text : JsString) :
    parseMembers numberText fuel properties (spaces ++ text) =
      parseMembers numberText fuel properties text := by
  cases fuel with
  | zero => rfl
  | succ fuel => rw [parseMembers, parseMembers, skipSpace_append h]

/-- The white space of a printed object: before each member and before the closing brace. -/
theorem wrap_members (opening closing : UInt16) {gap indent : JsString} {members : List JsString}
    (hgap : ∀ c ∈ gap, isJsonSpace c = true) (hindent : ∀ c ∈ indent, isJsonSpace c = true)
    (hne : members ≠ []) :
    ∃ before after : JsString, (∀ c ∈ before, isJsonSpace c = true) ∧
      (∀ c ∈ after, isJsonSpace c = true) ∧
      wrap opening closing gap indent members =
        opening :: (before ++ (0x2C :: before).intercalate members ++ after ++ [closing]) := by
  unfold wrap
  rw [if_neg hne]
  split
  · exact ⟨[], [], by simp, by simp, by simp⟩
  · refine ⟨0x0A :: (indent ++ gap), 0x0A :: indent, ?_, ?_, by simp⟩
    · intro c hc
      rcases List.mem_cons.mp hc with rfl | hc
      · rfl
      rcases List.mem_append.mp hc with hc | hc
      · exact hindent c hc
      · exact hgap c hc
    · intro c hc
      rcases List.mem_cons.mp hc with rfl | hc
      · rfl
      · exact hindent c hc

/-- Reading a value back, with its text as fuel. -/
def ReadsBack (numberText : JsString → JsString) (gap indent : JsString) (value : Json) : Prop :=
  ∀ fuel rest, (serialize gap indent value).length ≤ fuel →
    parseValue numberText fuel (serialize gap indent value ++ rest) = some (value, rest)

theorem parseMembers_forest (numberText : JsString → JsString) {gap indent before after : JsString}
    (hbefore : ∀ c ∈ before, isJsonSpace c = true) (hafter : ∀ c ∈ after, isJsonSpace c = true)
    (rest : JsString) {properties : List (JsString × Json)} (hne : properties ≠ [])
    (h : ∀ property ∈ properties, ReadsBack numberText gap indent property.2) :
    ∀ (read : List (JsString × Json)) (fuel : Nat), Enumerated (read ++ properties) →
      ((0x2C :: before).intercalate (serializeProperties gap indent properties)).length ≤ fuel →
      parseMembers numberText fuel read
        ((0x2C :: before).intercalate (serializeProperties gap indent properties) ++
          (after ++ 0x7D :: rest)) = some (.object (read ++ properties), rest) := by
  have hspace : ∀ c ∈ (if gap = [] then [] else [0x20] : JsString), isJsonSpace c = true := by
    intro c hc
    split at hc
    · cases hc
    · rw [List.mem_singleton.mp hc]
      rfl
  induction properties with
  | nil => exact absurd rfl hne
  | cons property properties ih =>
    intro read fuel henum hfuel
    obtain ⟨key, value⟩ := property
    have hset : setProperty read key value = read ++ [(key, value)] := henum.setProperty_append
    have hvalue : ReadsBack numberText gap indent value := h (key, value) List.mem_cons_self
    cases properties with
    | nil =>
      rw [serializeProperties, serializeProperties, List.intercalate_singleton] at hfuel ⊢
      cases fuel with
      | zero => simp [jsonQuote] at hfuel
      | succ fuel =>
        simp only [List.length_append, List.length_cons] at hfuel
        have hread : parseValue numberText fuel
            ((if gap = [] then [] else [0x20]) ++ serialize gap indent value ++
              (after ++ 0x7D :: rest)) = some (value, after ++ 0x7D :: rest) := by
          rw [List.append_assoc, parseValue_append _ _ hspace]
          exact hvalue fuel _ (by omega)
        have hclose : skipSpace (after ++ 0x7D :: rest) = 0x7D :: rest :=
          skipSpace_append hafter _
        have hmember := parseMembers_member numberText fuel read key _ hread
        simp only [hclose, hset] at hmember
        simpa only [List.append_assoc, List.cons_append] using hmember
    | cons next properties =>
      have hrest : serializeProperties gap indent (next :: properties) ≠ [] := by
        simp [serializeProperties]
      rw [serializeProperties, List.intercalate_cons_of_ne_nil hrest] at hfuel ⊢
      cases fuel with
      | zero => simp at hfuel
      | succ fuel =>
        simp only [List.length_append, List.length_cons] at hfuel
        have htail := ih (List.cons_ne_nil _ _)
          (fun property hp => h property (List.mem_cons_of_mem _ hp)) (read ++ [(key, value)]) fuel
          (by simpa using henum) (by omega)
        have hread : ∀ text, parseValue numberText fuel
            ((if gap = [] then [] else [0x20]) ++ serialize gap indent value ++ text) =
              some (value, text) := by
          intro text
          rw [List.append_assoc, parseValue_append _ _ hspace]
          exact hvalue fuel _ (by omega)
        have hmember := parseMembers_member numberText fuel read key _ (hread (0x2C :: (before ++
          ((0x2C :: before).intercalate (serializeProperties gap indent (next :: properties)) ++
            (after ++ 0x7D :: rest)))))
        have hcomma : ∀ text, skipSpace (0x2C :: text) = 0x2C :: text := fun _ => rfl
        simp only [hcomma, hset] at hmember
        rw [parseMembers_append _ _ _ hbefore, htail] at hmember
        simpa only [List.append_assoc, List.cons_append, List.nil_append] using hmember

theorem parseValue_brace (numberText : JsString → JsString) (fuel : Nat) {text members : JsString}
    (h : skipSpace text = 0x22 :: members) :
    parseValue numberText (fuel + 1) (0x7B :: text) =
      parseMembers numberText fuel [] (0x22 :: members) := by
  have hbrace : skipSpace (0x7B :: text) = 0x7B :: text := rfl
  rw [parseValue, hbrace]
  simp only [h]
  rfl

/-- The text of the members begins with the quote of the first key. -/
theorem members_cons (separator gap indent : JsString) {properties : List (JsString × Json)}
    (hne : properties ≠ []) (rest : JsString) :
    ∃ members, separator.intercalate (serializeProperties gap indent properties) ++ rest =
      0x22 :: members := by
  cases properties with
  | nil => exact absurd rfl hne
  | cons property properties =>
    obtain ⟨key, value⟩ := property
    cases properties with
    | nil => simp [serializeProperties, jsonQuote]
    | cons next properties =>
      rw [serializeProperties, List.intercalate_cons_of_ne_nil (by simp [serializeProperties])]
      simp [jsonQuote]

theorem object_readsBack {numberText : JsString → JsString} {gap indent : JsString}
    (hgap : ∀ c ∈ gap, isJsonSpace c = true) (hindent : ∀ c ∈ indent, isJsonSpace c = true)
    {properties : List (JsString × Json)} (henum : Enumerated properties)
    (h : ∀ property ∈ properties, ReadsBack numberText gap (indent ++ gap) property.2) :
    ReadsBack numberText gap indent (.object properties) := by
  intro fuel rest hfuel
  by_cases hne : properties = []
  · rw [hne, serialize, serializeProperties, wrap, if_pos rfl] at hfuel ⊢
    cases fuel with
    | zero => simp at hfuel
    | succ fuel => rfl
  · have hmembersNe : serializeProperties gap (indent ++ gap) properties ≠ [] := by
      cases properties with
      | nil => exact absurd rfl hne
      | cons property properties => simp [serializeProperties]
    obtain ⟨before, after, hbefore, hafter, hwrap⟩ :=
      wrap_members 0x7B 0x7D hgap hindent hmembersNe
    rw [serialize, hwrap] at hfuel ⊢
    simp only [List.length_cons, List.length_append] at hfuel
    cases fuel with
    | zero => simp at hfuel
    | succ fuel =>
      obtain ⟨members, hmembers⟩ := members_cons (0x2C :: before) gap (indent ++ gap) hne
        (after ++ 0x7D :: rest)
      have hread := parseMembers_forest numberText hbefore hafter rest hne h [] fuel
        henum (by omega)
      rw [hmembers] at hread
      simp only [List.cons_append, List.append_assoc, List.nil_append]
      have hskip : skipSpace (before ++ ((0x2C :: before).intercalate
          (serializeProperties gap (indent ++ gap) properties) ++ (after ++ 0x7D :: rest))) =
            0x22 :: members := by
        rw [skipSpace_append hbefore, hmembers]
        rfl
      rw [parseValue_brace numberText fuel hskip]
      exact hread

/-- **A tree is read back.** -/
theorem Tree.readsBack {value : Json} (h : Tree value) (numberText : JsString → JsString)
    {gap : JsString} (hgap : ∀ c ∈ gap, isJsonSpace c = true) :
    ∀ indent, (∀ c ∈ indent, isJsonSpace c = true) → ReadsBack numberText gap indent value := by
  induction h with
  | string value =>
    intro indent _ fuel rest hfuel
    cases fuel with
    | zero => simp [serialize, jsonQuote] at hfuel
    | succ fuel => exact parseValue_jsonQuote numberText fuel value rest
  | object properties henum hne h ih =>
    intro indent hindent
    refine object_readsBack hgap hindent henum fun property hp => ih property hp _ fun c hc => ?_
    rcases List.mem_append.mp hc with hc | hc
    · exact hindent c hc
    · exact hgap c hc

/-- **A whole text is read back**, with white space after it. -/
theorem parse_forest (numberText : JsString → JsString) {properties : List (JsString × Json)}
    (h : Forest properties) {after : JsString} (hafter : ∀ c ∈ after, isJsonSpace c = true) :
    parse numberText (stringifyIndented (.object properties) ++ after) =
      some (.object properties) := by
  have hgap : ∀ c ∈ ([0x20, 0x20] : JsString), isJsonSpace c = true := by
    simp [isJsonSpace]
  have hread : ReadsBack numberText [0x20, 0x20] [] (.object properties) :=
    object_readsBack hgap (by simp) h.enumerated fun property hp =>
      (h.trees property hp).readsBack numberText hgap _ hgap
  have hlength : (serialize [0x20, 0x20] [] (.object properties)).length ≤
      (serialize [0x20, 0x20] [] (.object properties) ++ after).length + 1 := by
    rw [List.length_append]
    omega
  have hspace : skipSpace after = [] := by
    rw [← List.append_nil after, skipSpace_append hafter]
    rfl
  rw [parse, stringifyIndented, hread _ after hlength]
  exact if_pos hspace

end Json
