import Himitsu.Library.CommandFile
import Himitsu.Library.Scripts
import Himitsu.Secrets.Validation

/-!
# The runner interface of the GitHub Action

Model of `integrations/github-action/src/core.ts`: the inputs of a step, the commands of its log,
and the command files through which it hands variables and outputs to the runner.

* `Environment` — `process.env`.
* `Effect` — what a step does that others can observe, with the files it writes itself.
* `input`, `booleanInput`, `listInput` — the readers of inputs.
* `mask`, `writeKeyValue` — a mask command, and a pair appended to a command file.

Principal result: `refusal_eq_none_iff` — what a pair must be for it to be written.
-/

set_option autoImplicit false

namespace Himitsu.Action

open JsString

abbrev Environment := JsString → Option JsString

inductive Effect where
  | log (line : JsString)
  | append (path content : JsString)
  | write (path content : JsString)
  deriving DecidableEq, Repr

/-- A step fails with the message of the error it throws. -/
abbrev Step := Script Effect JsString

/-- `text.includes(part)`. -/
def includes (text part : JsString) : Bool := text.tails.any part.isPrefixOf

theorem includes_iff {text part : JsString} : includes text part = true ↔ part <:+: text := by
  simp only [includes, List.any_eq_true, List.mem_tails, List.isPrefixOf_iff_prefix,
    List.infix_iff_prefix_suffix]
  exact exists_congr fun _ => and_comm

/-! ## Inputs -/

structure InputOptions where
  required : Bool
  default : Option JsString

def upperAscii (c : UInt16) : UInt16 := if 0x61 ≤ c ∧ c ≤ 0x7A then c - 0x20 else c

/-- The variable of an input, whose name is an ASCII text. -/
def inputKey (name : JsString) : JsString :=
  ofAscii "INPUT_" ++ name.map fun c => if c = 0x20 then 0x5F else upperAscii c

def input (env : Environment) (name : JsString) (options : InputOptions) :
    Except JsString JsString :=
  let value := trim ((env (inputKey name)).getD [])
  if value = [] then
    match options.default with
    | some text => .ok text
    | none =>
      if options.required then .error (ofAscii "Input required and not supplied: " ++ name)
      else .ok []
  else .ok value

def required (env : Environment) (name : String) : Except JsString JsString :=
  input env (ofAscii name) ⟨true, none⟩

def optional (env : Environment) (name : String) : Except JsString JsString :=
  input env (ofAscii name) ⟨false, none⟩

def withDefault (env : Environment) (name text : String) : Except JsString JsString :=
  input env (ofAscii name) ⟨false, some (ofAscii text)⟩

/-- `toLowerCase` is the engine's. -/
def parseBoolean (toLowerCase : JsString → JsString) (name : String) (fallback : Bool)
    (text : JsString) : Except JsString Bool :=
  let value := toLowerCase text
  if value = [] then .ok fallback
  else if ["true", "yes", "1", "on"].any fun word => value == ofAscii word then .ok true
  else if ["false", "no", "0", "off"].any fun word => value == ofAscii word then .ok false
  else .error (ofAscii "Input " ++ ofAscii name ++ ofAscii " must be a boolean, got " ++
    jsonQuote value)

def booleanInput (toLowerCase : JsString → JsString) (env : Environment) (name : String)
    (fallback : Bool) : Except JsString Bool := do
  parseBoolean toLowerCase name fallback (← optional env name)

/-- The parts between commas and line feeds, without surrounding white space and empty ones. -/
def listEntries (text : JsString) : List JsString :=
  ((text.splitOnP fun c => c == 0x0A || c == 0x2C).map trim).filter fun entry => !entry.isEmpty

def listInput (env : Environment) (name : String) : Except JsString (List JsString) := do
  .ok (listEntries (← optional env name))

/-! ## The log -/

def replaceUnit (c : UInt16) (text : JsString) (s : JsString) : JsString :=
  s.flatMap fun d => if d = c then text else [d]

/-- `.replace(/%/g, "%25").replace(/\r/g, "%0D").replace(/\n/g, "%0A")`. -/
def escapeData (value : JsString) : JsString :=
  replaceUnit 0x0A (ofAscii "%0A") (replaceUnit 0x0D (ofAscii "%0D")
    (replaceUnit 0x25 (ofAscii "%25") value))

def info (message : JsString) : Step Unit := Script.emit (.log message)

def warning (message : JsString) : Step Unit :=
  Script.emit (.log (ofAscii "::warning::" ++ escapeData message))

/-- `value.trim() === ""`. -/
def isBlank (value : JsString) : Bool := (trim value).isEmpty

def maskLine (value : JsString) : JsString := ofAscii "::add-mask::" ++ escapeData value

def mask (value : JsString) : Step Unit :=
  if isBlank value then pure () else Script.emit (.log (maskLine value))

/-- A part of a step that only writes lines to the log. -/
def Logs (p : Step Unit) (lines : List JsString) : Prop := ∀ n, p n = ⟨.ok (), lines.map .log, n⟩

theorem logs_pure : Logs (pure ()) [] := fun _ => rfl

theorem logs_info (message : JsString) : Logs (info message) [message] := fun _ => rfl

theorem logs_warning (message : JsString) :
    Logs (warning message) [ofAscii "::warning::" ++ escapeData message] := fun _ => rfl

theorem Logs.bind {p q : Step Unit} {lines lines' : List JsString} (hp : Logs p lines)
    (hq : Logs q lines') : Logs (do p; q) (lines ++ lines') := by
  intro n
  rw [Script.bind_of_ok (hp n), hq n, List.map_append]

/-- **A loop of masks writes a line for each value that is not blank.** -/
theorem logs_masks (values : List JsString) :
    Logs (Script.forEach mask values) ((values.filter fun value => !isBlank value).map maskLine) := by
  intro n
  have hmask : mask = fun value =>
      if !isBlank value then Script.emit (.log (maskLine value)) else pure () := by
    funext value
    unfold mask
    cases isBlank value <;> rfl
  rw [hmask, Script.forEach_emit_filter, List.map_map]
  rfl

/-! ## Command files -/

/-- Sixteen random bytes. -/
abbrev RandomBytes := Vector UInt8 16

def hexOf (byte : UInt8) : JsString :=
  [hexDigit (byte.toUInt16 >>> 4), hexDigit (byte.toUInt16 &&& 0xF)]

def delimiterOf (bytes : RandomBytes) : JsString :=
  ofAscii "ghadelimiter_" ++ bytes.toList.flatMap hexOf

/-- The random bytes a run draws, in order. -/
abbrev Draws := Nat → RandomBytes

/-- A name and a value for a command file. -/
abbrev Pair := JsString × JsString

/-- Why `#writeKeyValue` throws once it has drawn a delimiter, if it does. -/
def refusal (draws : Draws) (i : Nat) (pair : Pair) : Option JsString :=
  let delimiter := delimiterOf (draws i)
  if includes pair.2 delimiter || includes pair.1 delimiter then
    some (ofAscii "Refusing to write " ++ pair.1 ++
      ofAscii ": value collides with the generated delimiter")
  else if pair.1.contains 0x0A || pair.1.contains 0x0D then
    some (ofAscii "Refusing to write an environment name containing a newline: " ++
      jsonQuote pair.1)
  else none

/-- The text appended for a pair; `EOL` is a line feed. -/
def recordOf (draws : Draws) (i : Nat) (pair : Pair) : JsString :=
  CommandFile.recordText pair.1 (delimiterOf (draws i)) pair.2

def GITHUB_ENV : JsString := ofAscii "GITHUB_ENV"

def GITHUB_OUTPUT : JsString := ofAscii "GITHUB_OUTPUT"

def writeKeyValue (env : Environment) (draws : Draws) (fileVariable : JsString) (pair : Pair) :
    Step Unit :=
  let path := (env fileVariable).getD []
  if path = [] then
    Script.fail (fileVariable ++
      ofAscii " is not set. This action must run on a GitHub Actions runner.")
  else
    Script.guarded (refusal draws) (fun i pair => .append path (recordOf draws i pair)) pair

def setOutput (env : Environment) (draws : Draws) (name value : JsString) : Step Unit :=
  writeKeyValue env draws GITHUB_OUTPUT (name, value)

def exportVariable (env : Environment) (draws : Draws) (name value : JsString) : Step Unit :=
  writeKeyValue env draws GITHUB_ENV (name, value)

theorem writeKeyValue_of_set {env : Environment} {fileVariable path : JsString}
    (h : env fileVariable = some path) (hne : path ≠ []) (draws : Draws) :
    writeKeyValue env draws fileVariable =
      Script.guarded (refusal draws) fun i pair => .append path (recordOf draws i pair) := by
  funext pair
  simp only [writeKeyValue, h, Option.getD_some, if_neg hne]

/-! ## Delimiters -/

theorem hexOf_digits (byte : UInt8) :
    ∀ c ∈ hexOf byte, 0x30 ≤ c ∧ c ≤ 0x39 ∨ 0x61 ≤ c ∧ c ≤ 0x66 := by
  have hhigh : byte.toUInt16 >>> 4 < 16 := by
    have hlt := byte.toNat_lt
    rw [UInt16.lt_iff_toNat_lt]
    simp [Nat.shiftRight_eq_div_pow]
    omega
  intro c hc
  simp only [hexOf, List.mem_cons, List.not_mem_nil, or_false] at hc
  rcases hc with rfl | rfl
  · exact hexDigit_range hhigh
  · exact hexDigit_range (nibble_lt _)

theorem delimiterOf_ne_nil (bytes : RandomBytes) : delimiterOf bytes ≠ [] := by
  intro h
  have hlength := congrArg List.length (List.append_eq_nil_iff.mp h).1
  revert hlength
  decide

/-- A delimiter is one line. -/
theorem delimiterOf_line (bytes : RandomBytes) : 0x0A ∉ delimiterOf bytes := by
  unfold delimiterOf
  rw [List.mem_append, not_or]
  refine ⟨by decide, fun h => ?_⟩
  obtain ⟨byte, -, hbyte⟩ := List.mem_flatMap.mp h
  have hdigits := hexOf_digits byte 0x0A hbyte
  revert hdigits
  decide

theorem refusal_eq_none_iff {draws : Draws} {i : Nat} {pair : Pair} :
    refusal draws i pair = none ↔
      ¬delimiterOf (draws i) <:+: pair.1 ∧ ¬delimiterOf (draws i) <:+: pair.2 ∧
        0x0A ∉ pair.1 ∧ 0x0D ∉ pair.1 := by
  simp only [refusal, ← includes_iff]
  cases includes pair.1 (delimiterOf (draws i)) <;>
    cases includes pair.2 (delimiterOf (draws i)) <;> simp

end Himitsu.Action
