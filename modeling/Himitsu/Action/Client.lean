import Himitsu.Action.Core
import Himitsu.Secrets.Export

/-!
# The API client of the GitHub Action

Model of `integrations/github-action/src/himitsu.ts`: the checks of its constructor and the loop over
attempts.

* `Answer` — what one attempt meets: no response, a response with its `data` field, or an error.
* `json` — the first answer that settles a request, within `maxAttempts`.
-/

set_option autoImplicit false

namespace Himitsu.Action

open JsString

inductive ExportFormat where
  | dotenv
  | json
  | shell
  deriving DecidableEq, Repr

structure RuntimeConfig where
  configVersion : Nat
  secrets : Secrets.SecretRecord

structure ExportResult where
  content : JsString
  secretCount : Nat
  deriving DecidableEq, Repr

/-- The `error` field of a response that has a code. -/
structure ErrorDetail where
  message : Option JsString
  requestId : Option JsString
  deriving DecidableEq, Repr

inductive Answer (α : Type) where
  | networkError (cause : JsString)
  | ok (data : Option α)
  | failed (status : Nat) (detail : Option ErrorDetail)

/-- The message of `toError(response)`. -/
def errorMessage (status : Nat) : Option ErrorDetail → JsString
  | none => ofAscii "Himitsu request failed (" ++ ofNat status ++ ofAscii ")"
  | some detail =>
    let message := detail.message.getD (ofAscii "Himitsu request failed")
    match detail.requestId with
    | none => message
    | some id => message ++ ofAscii " (request " ++ id ++ ofAscii ")"

section

variable {α : Type} (answers : Nat → Answer α)

/-- The attempts from `attempt` on, of which `remaining` are left. -/
def attempts : Nat → Nat → Option JsString → Except JsString α
  | 0, _, lastError => .error (lastError.getD (ofAscii "Himitsu request failed"))
  | remaining + 1, attempt, _ =>
    match answers attempt with
    | .networkError cause =>
      attempts remaining (attempt + 1)
        (some (ofAscii "Network error calling Himitsu: " ++ cause))
    | .ok (some data) => .ok data
    | .ok none => .error (ofAscii "API response had no data field")
    | .failed status detail =>
      -- 429 and 5xx may pass; everything else is deterministic.
      if status ≠ 429 ∧ status < 500 then .error (errorMessage status detail)
      else attempts remaining (attempt + 1) (some (errorMessage status detail))

def maxAttempts : Nat := 4

def json : Except JsString α := attempts answers maxAttempts 1 none

end

/-! ## The constructor -/

def isHexDigit (c : UInt16) : Bool := Secrets.isDigit c || (0x61 ≤ c && c ≤ 0x66)

def isBase64UrlUnit (c : UInt16) : Bool := Secrets.isIdentifierPart c || c == 0x2D

/-- `/^himi_[0-9a-f]{16}_[A-Za-z0-9_-]{43}$/`. -/
def tokenPattern (token : JsString) : Bool :=
  token.length == 65 && token.take 5 == ofAscii "himi_" &&
    ((token.drop 5).take 16).all isHexDigit && (token.drop 21).head? == some 0x5F &&
    (token.drop 22).all isBase64UrlUnit

/-- How the API answers the attempts of each request, and how the engine reads a URL. -/
structure Api where
  /-- `new URL(apiUrl).protocol`, or the error that the constructor throws. -/
  protocol : JsString → Except JsString JsString
  runtimeConfig : JsString → JsString → Nat → Answer RuntimeConfig
  exports : JsString → JsString → ExportFormat → Nat → Answer ExportResult

/-- `new HimitsuClient({ apiUrl, token })`. -/
def connect (api : Api) (apiUrl token : JsString) : Except JsString Unit := do
  let protocol ← api.protocol apiUrl
  if protocol ≠ ofAscii "https:" ∧ protocol ≠ ofAscii "http:" then
    .error (ofAscii "api-url must use http or https")
  else if !tokenPattern token then
    .error (ofAscii "token is malformed (expected himi_<16 hex>_<43 chars>)")
  else .ok ()

end Himitsu.Action
