import Himitsu.Secrets.Validation

/-!
# Slugs

The normalization on which `normalizeProjectSlug` and `normalizeEnvironmentSlug` agree.
-/

set_option autoImplicit false

namespace Himitsu.Services

open JsString Secrets

/-- `toLowerCase`, as far as the pattern can tell: U+212A is the only unit outside of ASCII whose
lower case has only characters of the pattern. -/
def lowerUnit (c : UInt16) : UInt16 :=
  if isUpper c then c + 0x20 else if c = 0x212A then 0x6B else c

def isSlugUnit (c : UInt16) : Bool := isLower c || isDigit c

/-- After the first character of a slug; a hyphen needs a successor. -/
def slugRest : JsString → Bool
  | [] => true
  | c :: rest =>
    if isSlugUnit c then slugRest rest
    else
      match c, rest with
      | 0x2D, d :: rest' => isSlugUnit d && slugRest rest'
      | _, _ => false

/-- `/^[a-z0-9]+(?:-[a-z0-9]+)*$/`. -/
def isSlug : JsString → Bool
  | [] => false
  | c :: rest => isSlugUnit c && slugRest rest

/-- The slug of a text, unless the text has none or it is too long. -/
def normalizeSlug (slug : JsString) : Option JsString :=
  let normalized := (trim slug).map lowerUnit
  if isSlug normalized ∧ normalized.length ≤ 80 then some normalized else none

end Himitsu.Services
