import Himitsu.Library.Utf8

/-!
# Argument checks of the secret service

Model of `SecretError` and the checks of `packages/secrets/src/index.ts`:
`validateSecretKey`, `validateSecretValue`, `validateNotes`, `validateChangeNote` and
`exportableKey`, with their limits and messages.
-/

set_option autoImplicit false

namespace Himitsu.Secrets

open JsString

inductive SecretErrorCode where
  | invalidInput
  | keyConvention
  | valueTooLarge
  | keyExists
  | versionConflict
  | versionNotFound
  | tagNotFound
  | notFound
  deriving DecidableEq, Repr

structure SecretError where
  code : SecretErrorCode
  message : JsString
  deriving DecidableEq, Repr

def MAX_VALUE_BYTES : Nat := 64 * 1024

def MAX_BULK_ITEMS : Nat := 100

def isUpper (c : UInt16) : Bool := 0x41 ≤ c && c ≤ 0x5A

def isLower (c : UInt16) : Bool := 0x61 ≤ c && c ≤ 0x7A

def isDigit (c : UInt16) : Bool := 0x30 ≤ c && c ≤ 0x39

/-! ## Keys -/

/-- After the first letter of `conventionalKey`; an underscore needs a successor. -/
def conventionalRest : JsString → Bool
  | [] => true
  | c :: rest =>
    if isUpper c || isDigit c then conventionalRest rest
    else
      match c, rest with
      | 0x5F, d :: rest' => (isUpper d || isDigit d) && conventionalRest rest'
      | _, _ => false

/-- `conventionalKey`: `/^[A-Z][A-Z0-9]*(?:_[A-Z0-9]+)*$/`. -/
def conventionalKey : JsString → Bool
  | [] => false
  | c :: rest => isUpper c && conventionalRest rest

/-- `[\s=\u0000-\u001f\u007f]`. -/
def forbiddenInKey (c : UInt16) : Bool :=
  isWhitespace c || c == 0x3D || c ≤ 0x1F || c == 0x7F

def validateSecretKey (key : JsString) (allowNonConforming : Bool) :
    Except SecretError JsString :=
  let normalized := trim key
  if normalized.length < 1 ∨ normalized.length > 255 ∨ normalized.any forbiddenInKey then
    .error ⟨.invalidInput,
      ofAscii "Secret keys must be 1-255 characters without whitespace, controls, or equals"⟩
  else if !allowNonConforming && !conventionalKey normalized then
    .error ⟨.keyConvention, ofAscii
      "Secret keys should use UPPERCASE_SNAKE_CASE; explicitly override to retain another format"⟩
  else .ok normalized

/-- What is accepted has no white space in it. -/
theorem units_of_validateSecretKey {key normalized : JsString} {allowNonConforming : Bool}
    (h : validateSecretKey key allowNonConforming = .ok normalized) :
    (1 ≤ normalized.length ∧ normalized.length ≤ 255) ∧
      ∀ c ∈ normalized, forbiddenInKey c = false := by
  simp only [validateSecretKey] at h
  split at h
  · cases h
  · rename_i hlimits
    split at h
    · cases h
    · rw [Except.ok.inj h, not_or, not_or, List.any_eq_true] at hlimits
      refine ⟨by omega, fun c hc => ?_⟩
      exact Bool.not_eq_true _ ▸ fun hforbidden => hlimits.2.2 ⟨c, hc, hforbidden⟩

/-- So it is accepted as it is. -/
theorem validateSecretKey_of_units {key : JsString} (hlength : 1 ≤ key.length ∧ key.length ≤ 255)
    (h : ∀ c ∈ key, forbiddenInKey c = false) : validateSecretKey key true = .ok key := by
  have htrim : trim key = key := trim_of_forall fun c hc => by
    have hunit := h c hc
    simp only [forbiddenInKey, Bool.or_eq_false_iff] at hunit
    exact hunit.1.1.1
  have hany : key.any forbiddenInKey = false := by
    rw [List.any_eq_false]
    exact fun c hc => by rw [h c hc]; exact Bool.false_ne_true
  have hlimits : ¬(key.length < 1 ∨ key.length > 255 ∨ key.any forbiddenInKey = true) := by
    rw [hany, not_or, not_or]
    exact ⟨by omega, by omega, Bool.false_ne_true⟩
  simp only [validateSecretKey, htrim, if_neg hlimits]
  rfl

/-- `[A-Za-z_]`. -/
def isIdentifierStart (c : UInt16) : Bool := isUpper c || isLower c || c == 0x5F

/-- `[A-Za-z0-9_]`. -/
def isIdentifierPart (c : UInt16) : Bool := isIdentifierStart c || isDigit c

/-- `/^[A-Za-z_][A-Za-z0-9_]*$/`. -/
def isIdentifier : JsString → Bool
  | [] => false
  | c :: rest => isIdentifierStart c && rest.all isIdentifierPart

def exportableKey (key : JsString) : Except SecretError JsString :=
  if isIdentifier key then .ok key
  else .error ⟨.invalidInput,
    ofAscii "Secret key " ++ key ++ ofAscii " cannot be represented in dotenv or shell format"⟩

/-! ## Values and notes -/

/-- `validateSecretValue`, which gives the UTF-8 encoding of an accepted value. -/
def validateSecretValue (value : JsString) : Except SecretError (List UInt8) :=
  let encoded := Utf8.encode value
  if encoded.length > MAX_VALUE_BYTES then
    .error ⟨.valueTooLarge, ofAscii "Secret values cannot exceed 64 KiB when UTF-8 encoded"⟩
  else .ok encoded

/-- `validateNotes` and `validateChangeNote` differ in the limit and the name only. -/
def validateText (limit : Nat) (name : JsString) (text : Option JsString) :
    Except SecretError (Option JsString) :=
  match text with
  | none => .ok none
  | some text =>
    let normalized := trim text
    if normalized = [] then .ok none
    else if normalized.length > limit then
      .error ⟨.invalidInput,
        name ++ ofAscii " cannot exceed " ++ ofNat limit ++ ofAscii " characters"⟩
    else .ok (some normalized)

def validateNotes (notes : Option JsString) : Except SecretError (Option JsString) :=
  validateText 4000 (ofAscii "Secret notes") notes

def validateChangeNote (changeNote : Option JsString) : Except SecretError (Option JsString) :=
  validateText 1000 (ofAscii "Change notes") changeNote

end Himitsu.Secrets
