import Himitsu.Library.Json
import Himitsu.Secrets.Validation

/-!
# The export writer

Model of `serializeSecretExport` of `packages/secrets/src/index.ts` in its four forms: dotenv,
shell, flat JSON and nested JSON.

* `SecretRecord` — the argument, a record of string values: its keys are distinct.
* `sortedEntries` — `Object.entries(secrets).sort(…)`; `localeCompare` is the collation of the
  engine and stays a parameter.
* `insertPath` — the walk of one key's segments through the nested object.

Principal result: `sortedEntries_perm`, the sort keeps exactly the entries of the record.
-/

set_option autoImplicit false

namespace Himitsu.Secrets

open JsString

/-- `Readonly<Record<string, string>>`, in enumeration order. -/
structure SecretRecord where
  entries : List (JsString × JsString)
  nodup : (entries.map (·.1)).Nodup

/-- A record whose keys can be written in dotenv and shell form. -/
structure ExportableRecord extends SecretRecord where
  exportable : ∀ entry ∈ entries, isIdentifier entry.1 = true

inductive SecretExportFormat where
  | dotenv
  | json
  | shell
  deriving DecidableEq, Repr

structure ExportOptions where
  nested : Bool
  delimiter : Option JsString
  deriving DecidableEq, Repr

/-- `left.localeCompare(right)`: negative, zero or positive. -/
abbrev LocaleCompare := JsString → JsString → Int

def sortedEntries (localeCompare : LocaleCompare) (secrets : SecretRecord) :
    List (JsString × JsString) :=
  secrets.entries.insertionSort fun left right => localeCompare left.1 right.1 ≤ 0

/-- `join("\n")`, with a final line feed unless there are no entries. -/
def joinLines (lines : List JsString) : JsString :=
  [0x0A].intercalate lines ++ if lines = [] then [] else [0x0A]

/-! ## Dotenv and shell lines -/

def dotenvLine (entry : JsString × JsString) : Except SecretError JsString := do
  let key ← exportableKey entry.1
  .ok (key ++ 0x3D :: jsonQuote entry.2)

/-- `value.replaceAll("'", "'\\''")`. -/
def escapeQuotes : JsString → JsString
  | [] => []
  | c :: rest => (if c = 0x27 then [0x27, 0x5C, 0x27, 0x27] else [c]) ++ escapeQuotes rest

def shellLine (entry : JsString × JsString) : Except SecretError JsString := do
  let key ← exportableKey entry.1
  .ok (ofAscii "export " ++ key ++ 0x3D :: 0x27 :: escapeQuotes entry.2 ++ [0x27])

/-! ## Nested JSON -/

/-- The pieces of `text.split(delimiter)`; `skip` units of a delimiter are still to be passed. -/
def splitFrom (delimiter : JsString) (skip : Nat) : JsString → List JsString
  | [] => [[]]
  | c :: rest =>
    match skip with
    | skip + 1 => splitFrom delimiter skip rest
    | 0 =>
      if delimiter.isPrefixOf (c :: rest) then [] :: splitFrom delimiter (delimiter.length - 1) rest
      else (splitFrom delimiter 0 rest).modifyHead (c :: ·)

/-- `key.split(delimiter)` for a delimiter that is not empty. -/
def splitKey (delimiter key : JsString) : List JsString := splitFrom delimiter 0 key

def emptySegment (key : JsString) : SecretError :=
  ⟨.invalidInput, ofAscii "Secret key " ++ key ++ ofAscii " has an empty nested JSON path segment"⟩

def pathConflict (key : JsString) : SecretError :=
  ⟨.invalidInput, ofAscii "Secret key " ++ key ++ ofAscii " conflicts with another nested JSON path"⟩

/-- The loop over `path.entries()`, from the object `cursor` on. -/
def insertPath (key value : JsString) :
    List JsString → List (JsString × Json) → Except SecretError (List (JsString × Json))
  | [], cursor => .ok cursor
  | [segment], cursor =>
    if Json.hasOwn cursor segment then .error (pathConflict key)
    else .ok (Json.setProperty cursor segment (.string value))
  | segment :: next :: path, cursor =>
    match Json.getProperty cursor segment with
    | none => do
      let child ← insertPath key value (next :: path) []
      .ok (Json.setProperty cursor segment (.object child))
    | some (.object existing) => do
      let child ← insertPath key value (next :: path) existing
      .ok (Json.setProperty cursor segment (.object child))
    | some _ => .error (pathConflict key)

def insertEntry (delimiter : JsString) (root : List (JsString × Json))
    (entry : JsString × JsString) : Except SecretError (List (JsString × Json)) :=
  let path := splitKey delimiter entry.1
  if path.any List.isEmpty then .error (emptySegment entry.1) else insertPath entry.1 entry.2 path root

def nestedObject (delimiter : JsString) (entries : List (JsString × JsString)) :
    Except SecretError Json := do
  if delimiter.length < 1 ∨ delimiter.length > 10 then
    .error ⟨.invalidInput, ofAscii "Nested JSON delimiters must be between 1 and 10 characters"⟩
  else .ok (.object (← entries.foldlM (insertEntry delimiter) []))

/-! ## The writer -/

def serializeSecretExport (localeCompare : LocaleCompare) (secrets : SecretRecord)
    (format : SecretExportFormat) (options : ExportOptions) : Except SecretError JsString :=
  let entries := sortedEntries localeCompare secrets
  match format with
  | .dotenv => joinLines <$> entries.mapM dotenvLine
  | .shell => joinLines <$> entries.mapM shellLine
  | .json =>
    if !options.nested then
      let object := Json.fromEntries (entries.map fun entry => (entry.1, Json.string entry.2))
      .ok (Json.stringifyIndented (.object object) ++ [0x0A])
    else do
      let object ← nestedObject (options.delimiter.getD (ofAscii "__")) entries
      .ok (Json.stringifyIndented object ++ [0x0A])

theorem sortedEntries_perm (localeCompare : LocaleCompare) (secrets : SecretRecord) :
    (sortedEntries localeCompare secrets).Perm secrets.entries :=
  List.perm_insertionSort _ _

theorem sortedEntries_nodup (localeCompare : LocaleCompare) (secrets : SecretRecord) :
    ((sortedEntries localeCompare secrets).map (·.1)).Nodup :=
  (((sortedEntries_perm localeCompare secrets).map _).nodup_iff).mpr secrets.nodup

end Himitsu.Secrets
