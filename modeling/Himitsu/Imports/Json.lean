import Himitsu.Library.JsonTree

/-!
# The JSON importer

Model of `parseJsonSecrets` of `packages/imports/src/index.ts`: an object of strings, numbers and
booleans is flattened, with the segments of a path joined by a delimiter.

* `visit` — the recursive walk; `State` is what it collects.
* `parseJsonSecrets` — the delimiter check, `JSON.parse` and the walk.  The texts of numbers and of
  syntax errors are the engine's and stay parameters.
* `visitProperties_trees` — what the walk collects from an object of strings and objects.

Principal result: `parseJsonSecrets_forest` — such an object is flattened without an issue when its
paths are at most 20 segments long, their segments are clean and their keys are distinct.
-/

set_option autoImplicit false

namespace Himitsu.JsonImport

open JsString

inductive JsonImportIssueCode where
  | invalidJson
  | rootNotObject
  | arrayNotSupported
  | unsupportedType
  | invalidKey
  | keyCollision
  | invalidDelimiter
  | limitExceeded
  deriving DecidableEq, Repr

structure JsonImportEntry where
  key : JsString
  value : JsString
  path : JsString
  deriving DecidableEq, Repr

structure JsonImportIssue where
  path : JsString
  code : JsonImportIssueCode
  message : JsString
  deriving DecidableEq, Repr

structure JsonImportParseResult where
  entries : List JsonImportEntry
  issues : List JsonImportIssue
  delimiter : JsString
  deriving DecidableEq, Repr

/-- `[\s=\u0000-\u001f\u007f]`. -/
def isForbidden (c : UInt16) : Bool := isWhitespace c || c == 0x3D || c ≤ 0x1F || c == 0x7F

/-- `[A-Za-z_$]`. -/
def isNameStart (c : UInt16) : Bool :=
  (0x41 ≤ c && c ≤ 0x5A) || (0x61 ≤ c && c ≤ 0x7A) || c == 0x5F || c == 0x24

/-- `/^[A-Za-z_$][A-Za-z0-9_$]*$/`. -/
def isName : JsString → Bool
  | [] => false
  | c :: rest => isNameStart c && rest.all fun d => isNameStart d || (0x30 ≤ d && d ≤ 0x39)

def jsonPathSegment (segment : JsString) : JsString :=
  if isName segment then segment else 0x5B :: jsonQuote segment ++ [0x5D]

/-! ## The walk -/

/-- The variables that `visit` closes over. -/
structure State where
  keys : List JsString
  entries : List JsonImportEntry
  issues : List JsonImportIssue

def State.initial : State := ⟨[], [], []⟩

def State.report (st : State) (path : JsString) (code : JsonImportIssueCode)
    (message : JsString) : State :=
  { st with issues := st.issues ++ [⟨path, code, message⟩] }

def isInvalidSegment (segment : JsString) : Bool := segment.isEmpty || segment.any isForbidden

section

variable (delimiter : JsString)

/-- A string, a number or a boolean. -/
def State.addValue (st : State) (segments : List JsString) (path value : JsString) : State :=
  let key := delimiter.intercalate segments
  if st.keys.contains key then
    st.report path .keyCollision
      (path ++ ofAscii ": flattened key " ++ key ++ ofAscii " is duplicated")
  else if st.entries.length + 1 > 100 then
    State.report { st with keys := st.keys ++ [key] } path .limitExceeded
      (ofAscii "JSON imports are limited to 100 values")
  else { st with keys := st.keys ++ [key], entries := st.entries ++ [⟨key, value, path⟩] }

/-- The text of a value that is a leaf. -/
def leafText : Json → Option JsString
  | .string value => some value
  | .number text => some text
  | .bool value => some (ofAscii (if value then "true" else "false"))
  | _ => none

mutual

def visit (segments : List JsString) (path : JsString) (depth : Nat) (st : State) (value : Json) :
    State :=
  if depth > 20 then
    st.report path .limitExceeded (path ++ ofAscii ": nesting exceeds 20 levels")
  else
    match value with
    | .array _ => st.report path .arrayNotSupported (path ++ ofAscii ": arrays are not supported")
    | .object properties => visitProperties segments path depth st properties
    | value =>
      match leafText value with
      | none => st.report path .unsupportedType
          (path ++ ofAscii ": expected a string, number, or boolean")
      | some text => st.addValue delimiter segments path text

/-- The loop over `Object.entries(value)`. -/
def visitProperties (segments : List JsString) (path : JsString) (depth : Nat) (st : State) :
    List (JsString × Json) → State
  | [] => st
  | (segment, child) :: properties =>
    let childPath := path ++ 0x2E :: jsonPathSegment segment
    let next :=
      if isInvalidSegment segment then
        st.report childPath .invalidKey (childPath ++ ofAscii
          ": object keys cannot be empty or contain whitespace, controls, or equals")
      else visit (segments ++ [segment]) childPath (depth + 1) st child
    visitProperties segments path depth next properties

end

end

/-! ## The importer -/

def isAcceptedDelimiter (delimiter : JsString) : Bool :=
  1 ≤ delimiter.length && delimiter.length ≤ 10 && !delimiter.any isForbidden

/-- A parse that stops at the whole text. -/
def rejected (delimiter : JsString) (code : JsonImportIssueCode) (message : JsString) :
    JsonImportParseResult :=
  ⟨[], [⟨[0x24], code, message⟩], delimiter⟩

/-- `syntaxMessage` is the message of the `SyntaxError` that `JSON.parse` throws. -/
def parseJsonSecrets (numberText syntaxMessage : JsString → JsString) (source delimiter : JsString) :
    JsonImportParseResult :=
  if !isAcceptedDelimiter delimiter then
    rejected delimiter .invalidDelimiter
      (ofAscii "Delimiter must be 1-10 visible characters without whitespace or equals")
  else
    match Json.parse numberText source with
    | none => rejected delimiter .invalidJson (syntaxMessage source)
    | some (.object properties) =>
      let st := visit delimiter [] [0x24] 0 .initial (.object properties)
      ⟨st.entries, st.issues, delimiter⟩
    | some _ =>
      rejected delimiter .rootNotObject (ofAscii "JSON import must start with an object")

/-! ## Every parse is well formed -/

/-- What the walk keeps: the accepted keys are distinct, clean and at most 100. -/
structure State.WellFormed (st : State) : Prop where
  nodup : st.keys.Nodup
  seen : (st.entries.map (·.key)).Sublist st.keys
  clean : ∀ entry ∈ st.entries, ∀ c ∈ entry.key, isForbidden c = false
  size : st.entries.length ≤ 100

theorem State.WellFormed.initial : State.initial.WellFormed :=
  ⟨List.nodup_nil, .slnil, by simp [State.initial], Nat.zero_le _⟩

theorem State.WellFormed.report {st : State} (h : st.WellFormed) (path : JsString)
    (code : JsonImportIssueCode) (message : JsString) : (st.report path code message).WellFormed :=
  ⟨h.nodup, h.seen, h.clean, h.size⟩

/-- The segments of a path and the delimiter between them have no forbidden unit. -/
theorem clean_intercalate {delimiter : JsString} {segments : List JsString}
    (hdelimiter : ∀ c ∈ delimiter, isForbidden c = false)
    (hsegments : ∀ segment ∈ segments, isInvalidSegment segment = false) :
    ∀ c ∈ delimiter.intercalate segments, isForbidden c = false := by
  have hclean : ∀ segment ∈ segments, ∀ c ∈ segment, isForbidden c = false := by
    intro segment hsegment c hc
    have hvalid := hsegments segment hsegment
    rw [isInvalidSegment, Bool.or_eq_false_iff, List.any_eq_false] at hvalid
    exact Bool.eq_false_of_not_eq_true (hvalid.2 c hc)
  induction segments with
  | nil => exact fun _ hc => absurd hc List.not_mem_nil
  | cons segment segments ih =>
    have ih := ih (fun other hother => hsegments other (List.mem_cons_of_mem _ hother))
      fun other hother => hclean other (List.mem_cons_of_mem _ hother)
    cases segments with
    | nil =>
      rw [List.intercalate_singleton]
      exact hclean segment (List.mem_cons_self ..)
    | cons next segments =>
      rw [List.intercalate_cons_cons]
      intro c hc
      rcases List.mem_append.mp hc with hc | hc
      · rcases List.mem_append.mp hc with hc | hc
        · exact hclean segment (List.mem_cons_self ..) c hc
        · exact hdelimiter c hc
      · exact ih c hc

theorem addValue_wellFormed {delimiter : JsString} {st : State} (h : st.WellFormed)
    (hdelimiter : ∀ c ∈ delimiter, isForbidden c = false) {segments : List JsString}
    (hsegments : ∀ segment ∈ segments, isInvalidSegment segment = false) (path value : JsString) :
    (st.addValue delimiter segments path value).WellFormed := by
  unfold State.addValue
  dsimp only
  split
  · exact h.report _ _ _
  · rename_i hnew
    have hnodup : (st.keys ++ [delimiter.intercalate segments]).Nodup := by
      rw [List.nodup_append]
      refine ⟨h.nodup, List.nodup_singleton _, fun key hkey other hother heq => hnew ?_⟩
      rw [List.contains_iff_mem, ← List.mem_singleton.mp hother, ← heq]
      exact hkey
    split
    · have hadded : State.WellFormed
          { st with keys := st.keys ++ [delimiter.intercalate segments] } :=
        ⟨hnodup, h.seen.trans (List.sublist_append_left _ _), h.clean, h.size⟩
      exact hadded.report _ _ _
    · rename_i hsize
      refine ⟨hnodup, ?_, fun entry hentry => ?_, ?_⟩
      · rw [List.map_append]
        exact h.seen.append (List.Sublist.refl _)
      · rcases List.mem_append.mp hentry with hentry | hentry
        · exact h.clean entry hentry
        · rw [List.mem_singleton.mp hentry]
          exact clean_intercalate hdelimiter hsegments
      · rw [List.length_append, List.length_singleton]
        omega

section

variable {delimiter : JsString}

mutual

theorem visit_wellFormed (hdelimiter : ∀ c ∈ delimiter, isForbidden c = false)
    {segments : List JsString} (hsegments : ∀ segment ∈ segments, isInvalidSegment segment = false)
    (path : JsString) (depth : Nat) {st : State} (h : st.WellFormed) :
    ∀ value, (visit delimiter segments path depth st value).WellFormed
  | .null => by
    unfold visit
    split <;> exact h.report _ _ _
  | .bool value => by
    unfold visit
    split
    · exact h.report _ _ _
    · exact addValue_wellFormed h hdelimiter hsegments _ _
  | .number text => by
    unfold visit
    split
    · exact h.report _ _ _
    · exact addValue_wellFormed h hdelimiter hsegments _ _
  | .string value => by
    unfold visit
    split
    · exact h.report _ _ _
    · exact addValue_wellFormed h hdelimiter hsegments _ _
  | .array items => by
    unfold visit
    split <;> exact h.report _ _ _
  | .object properties => by
    unfold visit
    split
    · exact h.report _ _ _
    · exact visitProperties_wellFormed hdelimiter hsegments path depth h properties

theorem visitProperties_wellFormed (hdelimiter : ∀ c ∈ delimiter, isForbidden c = false)
    {segments : List JsString} (hsegments : ∀ segment ∈ segments, isInvalidSegment segment = false)
    (path : JsString) (depth : Nat) {st : State} (h : st.WellFormed) :
    ∀ properties, (visitProperties delimiter segments path depth st properties).WellFormed
  | [] => by
    rw [visitProperties]
    exact h
  | (segment, child) :: properties => by
    rw [visitProperties]
    refine visitProperties_wellFormed hdelimiter hsegments path depth ?_ properties
    split
    · exact h.report _ _ _
    · rename_i hsegment
      refine visit_wellFormed hdelimiter (fun other hother => ?_) _ _ h child
      rcases List.mem_append.mp hother with hother | hother
      · exact hsegments other hother
      · rw [List.mem_singleton.mp hother]
        exact Bool.eq_false_of_not_eq_true hsegment

end

/-- **What the importer accepts is well formed.** Its entries are at most 100, their keys are
distinct, and no key has a white space, a control or an equals sign. -/
theorem parseJsonSecrets_wellFormed (numberText syntaxMessage : JsString → JsString)
    (source delimiter : JsString) :
    let parsed := parseJsonSecrets numberText syntaxMessage source delimiter
    (parsed.entries.map (·.key)).Nodup ∧ parsed.entries.length ≤ 100 ∧
      ∀ entry ∈ parsed.entries, ∀ c ∈ entry.key, isForbidden c = false := by
  dsimp only
  have hrejected : ∀ code message, ((rejected delimiter code message).entries.map (·.key)).Nodup ∧
      (rejected delimiter code message).entries.length ≤ 100 ∧
        ∀ entry ∈ (rejected delimiter code message).entries, ∀ c ∈ entry.key,
          isForbidden c = false :=
    fun _ _ => ⟨List.nodup_nil, Nat.zero_le _, fun _ hentry => absurd hentry List.not_mem_nil⟩
  unfold parseJsonSecrets
  split
  · exact hrejected _ _
  · rename_i haccepted
    split
    · exact hrejected _ _
    · rename_i properties hparse
      have hdelimiter : ∀ c ∈ delimiter, isForbidden c = false := by
        intro c hc
        refine Bool.eq_false_of_not_eq_true fun hforbidden => haccepted ?_
        rw [isAcceptedDelimiter, List.any_eq_true.mpr ⟨c, hc, hforbidden⟩]
        simp
      have hsegments : ∀ segment ∈ ([] : List JsString), isInvalidSegment segment = false :=
        fun _ hs => absurd hs List.not_mem_nil
      have h := visit_wellFormed hdelimiter hsegments [0x24] 0 State.WellFormed.initial
        (.object properties)
      exact ⟨h.seen.nodup h.nodup, h.size, h.clean⟩
    · exact hrejected _ _

end

/-! ## What the walk collects from a tree -/

/-- The walk has added these keys and values, and nothing to report. -/
structure Collects (st st' : State) (added : List (JsString × JsString)) : Prop where
  issues : st'.issues = st.issues
  entries : st'.entries.map (fun entry => (entry.key, entry.value)) =
    st.entries.map (fun entry => (entry.key, entry.value)) ++ added
  keys : st'.keys = st.keys ++ added.map (·.1)

/-- These keys are new, distinct and not too many. -/
structure Fits (st : State) (added : List (JsString × JsString)) : Prop where
  nodup : (st.keys ++ added.map (·.1)).Nodup
  size : st.entries.length + added.length ≤ 100

theorem Collects.nil (st : State) : Collects st st [] := ⟨rfl, by simp, by simp⟩

theorem Collects.append {st st' st'' : State} {xs ys : List (JsString × JsString)}
    (hx : Collects st st' xs) (hy : Collects st' st'' ys) : Collects st st'' (xs ++ ys) where
  issues := hy.issues.trans hx.issues
  entries := by rw [hy.entries, hx.entries, List.append_assoc]
  keys := by rw [hy.keys, hx.keys, List.map_append, List.append_assoc]

theorem Fits.left {st : State} {xs ys : List (JsString × JsString)} (h : Fits st (xs ++ ys)) :
    Fits st xs := by
  have hnodup := h.nodup
  have hsize := h.size
  rw [List.map_append, ← List.append_assoc] at hnodup
  rw [List.length_append] at hsize
  exact ⟨(List.nodup_append.mp hnodup).1, by omega⟩

theorem Fits.right {st st' : State} {xs ys : List (JsString × JsString)} (h : Fits st (xs ++ ys))
    (hx : Collects st st' xs) : Fits st' ys := by
  have hsize := h.size
  have hlength := congrArg List.length hx.entries
  rw [List.length_append] at hsize
  rw [List.length_append, List.length_map, List.length_map] at hlength
  refine ⟨?_, by omega⟩
  rw [hx.keys, List.append_assoc, ← List.map_append]
  exact h.nodup

section

variable {delimiter : JsString}

/-- The keys and values of leaves below some segments. -/
def flattened (delimiter : JsString) (segments : List JsString)
    (leaves : List (List JsString × JsString)) : List (JsString × JsString) :=
  leaves.map fun leaf => (delimiter.intercalate (segments ++ leaf.1), leaf.2)

theorem flattened_append (segments : List JsString) (xs ys : List (List JsString × JsString)) :
    flattened delimiter segments (xs ++ ys) =
      flattened delimiter segments xs ++ flattened delimiter segments ys := List.map_append

theorem flattened_cons (segments : List JsString) (segment : JsString)
    (leaves : List (List JsString × JsString)) :
    flattened delimiter segments (leaves.map fun leaf => (segment :: leaf.1, leaf.2)) =
      flattened delimiter (segments ++ [segment]) leaves := by
  rw [flattened, flattened, List.map_map]
  refine List.map_congr_left fun leaf _ => ?_
  simp only [Function.comp, List.append_assoc, List.cons_append, List.nil_append]

theorem addValue_collects {st : State} {segments : List JsString} (path value : JsString)
    (h : Fits st [(delimiter.intercalate segments, value)]) :
    Collects st (st.addValue delimiter segments path value)
      [(delimiter.intercalate segments, value)] := by
  have hnew : ¬ st.keys.contains (delimiter.intercalate segments) = true := by
    rw [List.contains_iff_mem]
    intro hmem
    exact (List.nodup_append.mp h.nodup).2.2 _ hmem _ (List.mem_singleton_self _) rfl
  have hsize : ¬ st.entries.length + 1 > 100 := Nat.not_lt.mpr h.size
  rw [State.addValue, if_neg hnew, if_neg hsize]
  exact ⟨rfl, by simp, rfl⟩

/-- The leaves are not too deep, and their segments are accepted. -/
def Clean (depth : Nat) (leaves : List (List JsString × JsString)) : Prop :=
  ∀ leaf ∈ leaves, depth + leaf.1.length ≤ 20 ∧
    ∀ segment ∈ leaf.1, isInvalidSegment segment = false

/-- The walk collects the leaves of a value. -/
def Flattens (delimiter : JsString) (value : Json) : Prop :=
  ∀ segments path depth st, Clean depth value.leaves →
    Fits st (flattened delimiter segments value.leaves) →
    Collects st (visit delimiter segments path depth st value)
      (flattened delimiter segments value.leaves)

theorem visitProperties_trees (segments : List JsString) (path : JsString) (depth : Nat)
    {properties : List (JsString × Json)} (htrees : ∀ property ∈ properties, Json.Tree property.2)
    (h : ∀ property ∈ properties, Flattens delimiter property.2) (st : State)
    (hclean : Clean depth (Json.propertyLeaves properties))
    (hfits : Fits st (flattened delimiter segments (Json.propertyLeaves properties))) :
    Collects st (visitProperties delimiter segments path depth st properties)
      (flattened delimiter segments (Json.propertyLeaves properties)) := by
  induction properties generalizing st with
  | nil => exact .nil st
  | cons property properties ih =>
    obtain ⟨segment, child⟩ := property
    rw [Json.propertyLeaves] at hclean hfits ⊢
    rw [flattened_append, flattened_cons] at hfits ⊢
    have hleaf : ∀ leaf ∈ child.leaves, depth + 1 + leaf.1.length ≤ 20 ∧
        ∀ s ∈ segment :: leaf.1, isInvalidSegment s = false := by
      intro leaf hleaf
      obtain ⟨hdepth, hsegments⟩ := hclean (segment :: leaf.1, leaf.2)
        (List.mem_append_left _ (List.mem_map_of_mem hleaf))
      rw [List.length_cons] at hdepth
      exact ⟨by omega, hsegments⟩
    obtain ⟨leaf, hmem⟩ := (htrees (segment, child) List.mem_cons_self).exists_leaf
    have hsegment : isInvalidSegment segment = false :=
      (hleaf leaf hmem).2 segment List.mem_cons_self
    rw [visitProperties, if_neg (by simp [hsegment])]
    have hchild := h (segment, child) List.mem_cons_self (segments ++ [segment])
      (path ++ 0x2E :: jsonPathSegment segment) (depth + 1) st
      (fun leaf hmem => ⟨(hleaf leaf hmem).1, fun s hs =>
        (hleaf leaf hmem).2 s (List.mem_cons_of_mem _ hs)⟩) hfits.left
    refine hchild.append (ih ?_ ?_ _ ?_ (hfits.right hchild))
    · exact fun property hp => htrees property (List.mem_cons_of_mem _ hp)
    · exact fun property hp => h property (List.mem_cons_of_mem _ hp)
    · exact fun leaf hmem => hclean leaf (List.mem_append_right _ hmem)

theorem Tree.flattens {value : Json} (h : Json.Tree value) : Flattens delimiter value := by
  induction h with
  | string value =>
    intro segments path depth st hclean hfits
    obtain ⟨hdepth, -⟩ := hclean ([], value) (List.mem_singleton_self _)
    rw [List.length_nil] at hdepth
    unfold visit
    rw [if_neg (by omega)]
    have hone : flattened delimiter segments (Json.string value).leaves =
        [(delimiter.intercalate segments, value)] := by
      simp [flattened, Json.leaves]
    rw [hone] at hfits ⊢
    exact addValue_collects path value hfits
  | object properties henum hne h ih =>
    intro segments path depth st hclean hfits
    obtain ⟨leaf, hleaf⟩ := (Json.Tree.object properties henum hne h).exists_leaf
    have hdepth := (hclean leaf hleaf).1
    rw [visit, if_neg (by omega)]
    exact visitProperties_trees segments path depth h ih st hclean hfits

/-- **A flattened object.**  The importer reports nothing, and its entries are the leaves with
their segments joined. -/
theorem parseJsonSecrets_forest (numberText syntaxMessage : JsString → JsString)
    {source : JsString} {properties : List (JsString × Json)}
    (hdelimiter : isAcceptedDelimiter delimiter = true)
    (hparse : Json.parse numberText source = some (.object properties))
    (hforest : Json.Forest properties) (hclean : Clean 0 (Json.propertyLeaves properties))
    (hnodup : ((flattened delimiter [] (Json.propertyLeaves properties)).map (·.1)).Nodup)
    (hsize : (Json.propertyLeaves properties).length ≤ 100) :
    let parsed := parseJsonSecrets numberText syntaxMessage source delimiter
    parsed.issues = [] ∧ parsed.entries.map (fun entry => (entry.key, entry.value)) =
      flattened delimiter [] (Json.propertyLeaves properties) := by
  have hfits : Fits .initial (flattened delimiter [] (Json.propertyLeaves properties)) :=
    ⟨hnodup, by simpa [State.initial, flattened] using hsize⟩
  have hcollects := visitProperties_trees [] [0x24] 0 hforest.trees
    (fun property hp => Tree.flattens (hforest.trees property hp)) .initial hclean hfits
  simp only [parseJsonSecrets, hdelimiter, hparse, Bool.not_true, Bool.false_eq_true, if_false]
  rw [visit, if_neg (Nat.not_lt_zero 20)]
  exact ⟨hcollects.issues, hcollects.entries⟩

end

end Himitsu.JsonImport
