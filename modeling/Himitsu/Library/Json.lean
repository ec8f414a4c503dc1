import Himitsu.Library.JsString

/-!
# JSON values and `JSON.stringify`

* `Json` — a JSON value; an object is the list of its properties in enumeration order.
* `setProperty` — assignment to a property of an ordinary object: an existing property keeps
  its place, a new array index goes among the indices in ascending order, any other key goes
  last.
* `serialize` — `SerializeJSONProperty` with a gap; `stringify` and `stringifyIndented` are
  `JSON.stringify(value)` and `JSON.stringify(value, null, 2)`.
-/

set_option autoImplicit false

/-- A JSON value; numbers are kept as the text `String(number)` prints. -/
inductive Json where
  | null
  | bool (value : Bool)
  | number (text : JsString)
  | string (value : JsString)
  | array (items : List Json)
  | object (properties : List (JsString × Json))

namespace Json

open JsString

/-! ## Properties of an ordinary object -/

section Properties

variable {α : Type}

/-- The number of a canonical array index, below `2 ^ 32 - 1`. -/
def arrayIndex (key : JsString) : Option Nat :=
  let digits := key.all fun c => 0x30 ≤ c && c ≤ 0x39
  let value := key.foldl (fun n c => 10 * n + (c.toNat - 0x30)) 0
  if key ≠ [] ∧ digits ∧ (key.head? ≠ some 0x30 ∨ key = [0x30]) ∧ value < 2 ^ 32 - 1 then
    some value
  else none

/-- Whether a new property `key` is enumerated before the existing property `other`. -/
def precedes (key other : JsString) : Bool :=
  match arrayIndex key, arrayIndex other with
  | some i, some j => i < j
  | some _, none => true
  | none, _ => false

def hasOwn (properties : List (JsString × α)) (key : JsString) : Bool :=
  properties.any (·.1 == key)

def getProperty (properties : List (JsString × α)) (key : JsString) : Option α :=
  (properties.find? (·.1 == key)).map (·.2)

def addProperty (key : JsString) (value : α) : List (JsString × α) → List (JsString × α)
  | [] => [(key, value)]
  | property :: rest =>
    if precedes key property.1 then (key, value) :: property :: rest
    else property :: addProperty key value rest

def setProperty (properties : List (JsString × α)) (key : JsString) (value : α) :
    List (JsString × α) :=
  if hasOwn properties key then
    properties.map fun property => if property.1 = key then (key, value) else property
  else addProperty key value properties

/-- `Object.fromEntries`. -/
def fromEntries (entries : List (JsString × α)) : List (JsString × α) :=
  entries.foldl (fun properties entry => setProperty properties entry.1 entry.2) []

end Properties

/-! ## Serialisation -/

/-- The text of an array or object with the given member texts. -/
def wrap (opening closing : UInt16) (gap indent : JsString) (members : List JsString) : JsString :=
  if members = [] then [opening, closing]
  else if gap = [] then opening :: [0x2C].intercalate members ++ [closing]
  else
    opening :: 0x0A :: (indent ++ gap) ++
      ([0x2C, 0x0A] ++ indent ++ gap).intercalate members ++ [0x0A] ++ indent ++ [closing]

mutual

def serialize (gap indent : JsString) : Json → JsString
  | .null => ofAscii "null"
  | .bool value => if value then ofAscii "true" else ofAscii "false"
  | .number text => text
  | .string value => jsonQuote value
  | .array items => wrap 0x5B 0x5D gap indent (serializeItems gap (indent ++ gap) items)
  | .object properties =>
    wrap 0x7B 0x7D gap indent (serializeProperties gap (indent ++ gap) properties)

def serializeItems (gap indent : JsString) : List Json → List JsString
  | [] => []
  | item :: items => serialize gap indent item :: serializeItems gap indent items

def serializeProperties (gap indent : JsString) : List (JsString × Json) → List JsString
  | [] => []
  | (key, value) :: properties =>
    (jsonQuote key ++ 0x3A :: (if gap = [] then [] else [0x20]) ++ serialize gap indent value) ::
      serializeProperties gap indent properties

end

def stringify (value : Json) : JsString := serialize [] [] value

def stringifyIndented (value : Json) : JsString := serialize [0x20, 0x20] [] value

end Json
