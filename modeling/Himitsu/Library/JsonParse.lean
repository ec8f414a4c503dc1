import Himitsu.Library.Json

/-!
# `JSON.parse`

* `parseString` — a string literal after its opening quote.
* `scanNumber` — a number literal; its value's text is that of `String(Number(literal))`,
  which is a parameter.
* `parseValue`, `parseMembers`, `parseItems` — the grammar by recursive descent; each call
  consumes a character, so the length of the text is fuel enough.
* `parse` — the whole text, `none` for a `SyntaxError`.

Principal result: `parseString_quoteUnits` — a quoted string is read back, lone surrogates
included.
-/

set_option autoImplicit false

namespace Json

open JsString

/-! ## Strings -/

def hexDigitValue (c : UInt16) : Option UInt16 :=
  if 0x30 ≤ c ∧ c ≤ 0x39 then some (c - 0x30)
  else if 0x61 ≤ c ∧ c ≤ 0x66 then some (c - 0x57)
  else if 0x41 ≤ c ∧ c ≤ 0x46 then some (c - 0x37)
  else none

/-- The code unit of four hexadecimal digits. -/
def hexUnit (a b c d : UInt16) : Option UInt16 := do
  let a ← hexDigitValue a
  let b ← hexDigitValue b
  let c ← hexDigitValue c
  let d ← hexDigitValue d
  return (a.toNat * 4096 + b.toNat * 256 + c.toNat * 16 + d.toNat).toUInt16

/-- The unit of a single-character escape. -/
def escapedUnit (e : UInt16) : Option UInt16 :=
  if e = 0x2F then some 0x2F else (shortEscapes.find? (·.2 == e)).map (·.1)

def consUnit (c : UInt16) (parsed : Option (JsString × JsString)) :
    Option (JsString × JsString) :=
  parsed.map fun p => (c :: p.1, p.2)

/-- A string literal after its opening quote: its value and the rest of the text. -/
def parseString : JsString → Option (JsString × JsString)
  | [] => none
  | c :: rest =>
    if c = 0x22 then some ([], rest)
    else if c = 0x5C then
      match rest with
      | [] => none
      | e :: rest' =>
        if e = 0x75 then
          match rest' with
          | h₁ :: h₂ :: h₃ :: h₄ :: rest'' =>
            match hexUnit h₁ h₂ h₃ h₄ with
            | some unit => consUnit unit (parseString rest'')
            | none => none
          | _ => none
        else
          match escapedUnit e with
          | some unit => consUnit unit (parseString rest')
          | none => none
    else if c < 0x20 then none
    else consUnit c (parseString rest)

/-! ## Numbers -/

def isDigit (c : UInt16) : Bool := 0x30 ≤ c && c ≤ 0x39

/-- Digits after a mark, which must be followed by at least one digit. -/
def scanDigits (mark text : JsString) : Option (JsString × JsString) :=
  let digits := text.takeWhile isDigit
  if digits = [] then none else some (mark ++ digits, text.dropWhile isDigit)

def scanFraction (text : JsString) : Option (JsString × JsString) :=
  match text with
  | 0x2E :: rest => scanDigits [0x2E] rest
  | _ => some ([], text)

def scanExponent (text : JsString) : Option (JsString × JsString) :=
  match text with
  | c :: rest =>
    if c = 0x65 ∨ c = 0x45 then
      match rest with
      | sign :: rest' =>
        if sign = 0x2B ∨ sign = 0x2D then scanDigits [c, sign] rest' else scanDigits [c] rest
      | [] => none
    else some ([], text)
  | [] => some ([], [])

def scanInteger (text : JsString) : Option (JsString × JsString) :=
  match text with
  | 0x30 :: rest => some ([0x30], rest)
  | _ => scanDigits [] text

/-- A number literal and the rest of the text. -/
def scanNumber (text : JsString) : Option (JsString × JsString) := do
  let (sign, text) :=
    match text with
    | 0x2D :: rest => (([0x2D] : JsString), rest)
    | _ => ([], text)
  let (integer, text) ← scanInteger text
  let (fraction, text) ← scanFraction text
  let (exponent, text) ← scanExponent text
  return (sign ++ integer ++ fraction ++ exponent, text)

/-! ## Values -/

/-- Tab, line feed, carriage return, blank. -/
def isJsonSpace (c : UInt16) : Bool := c == 0x09 || c == 0x0A || c == 0x0D || c == 0x20

def skipSpace (text : JsString) : JsString := text.dropWhile isJsonSpace

/-- A keyword at the head of the text. -/
def keyword (text : JsString) : Option (Json × JsString) :=
  if (ofAscii "null").isPrefixOf text then some (.null, text.drop 4)
  else if (ofAscii "true").isPrefixOf text then some (.bool true, text.drop 4)
  else if (ofAscii "false").isPrefixOf text then some (.bool false, text.drop 5)
  else none

mutual

def parseValue (numberText : JsString → JsString) : Nat → JsString → Option (Json × JsString)
  | 0, _ => none
  | fuel + 1, text =>
    match skipSpace text with
    | [] => none
    | c :: rest =>
      if c = 0x22 then (parseString rest).map fun p => (.string p.1, p.2)
      else if c = 0x7B then
        match skipSpace rest with
        | 0x7D :: rest' => some (.object [], rest')
        | rest' => parseMembers numberText fuel [] rest'
      else if c = 0x5B then
        match skipSpace rest with
        | 0x5D :: rest' => some (.array [], rest')
        | rest' => parseItems numberText fuel [] rest'
      else if c = 0x2D ∨ isDigit c then
        (scanNumber (c :: rest)).map fun p => (.number (numberText p.1), p.2)
      else keyword (c :: rest)

/-- The members of an object, from a key on; a repeated key keeps its place. -/
def parseMembers (numberText : JsString → JsString) :
    Nat → List (JsString × Json) → JsString → Option (Json × JsString)
  | 0, _, _ => none
  | fuel + 1, properties, text =>
    match skipSpace text with
    | 0x22 :: rest =>
      match parseString rest with
      | none => none
      | some (key, rest) =>
        match skipSpace rest with
        | 0x3A :: rest =>
          match parseValue numberText fuel rest with
          | none => none
          | some (value, rest) =>
            match skipSpace rest with
            | 0x2C :: rest =>
              parseMembers numberText fuel (setProperty properties key value) rest
            | 0x7D :: rest => some (.object (setProperty properties key value), rest)
            | _ => none
        | _ => none
    | _ => none

/-- The items of an array, from an item on. -/
def parseItems (numberText : JsString → JsString) :
    Nat → List Json → JsString → Option (Json × JsString)
  | 0, _, _ => none
  | fuel + 1, items, text =>
    match parseValue numberText fuel text with
    | none => none
    | some (item, rest) =>
      match skipSpace rest with
      | 0x2C :: rest => parseItems numberText fuel (items ++ [item]) rest
      | 0x5D :: rest => some (.array (items ++ [item]), rest)
      | _ => none

end

/-- `JSON.parse(text)`, `none` where it throws. -/
def parse (numberText : JsString → JsString) (text : JsString) : Option Json :=
  match parseValue numberText (text.length + 1) text with
  | some (value, rest) => if skipSpace rest = [] then some value else none
  | none => none

/-! ## Reading a quoted string -/

theorem hexDigitValue_hexDigit {n : UInt16} (h : n < 16) : hexDigitValue (hexDigit n) = some n := by
  have hall : ((List.range 16).all fun k =>
      decide (hexDigitValue (hexDigit k.toUInt16) = some k.toUInt16)) = true := by decide
  have hlt : n.toNat < 16 := UInt16.lt_iff_toNat_lt.mp h
  have hn := List.all_eq_true.mp hall n.toNat (List.mem_range.mpr hlt)
  simpa using hn

theorem hexUnit_unicodeEscape (c : UInt16) :
    hexUnit (hexDigit (c >>> 12)) (hexDigit ((c >>> 8) &&& 0xF)) (hexDigit ((c >>> 4) &&& 0xF))
      (hexDigit (c &&& 0xF)) = some c := by
  simp only [hexUnit, hexDigitValue_hexDigit (shiftRight_lt c), hexDigitValue_hexDigit (nibble_lt _),
    Option.bind_eq_bind, Option.bind_some, pure, Option.some.injEq]
  have hlt := c.toNat_lt
  apply UInt16.toNat_inj.mp
  have hmask : ∀ n : Nat, n &&& 15 = n % 16 := fun n => Nat.and_two_pow_sub_one_eq_mod n 4
  simp [Nat.shiftRight_eq_div_pow, hmask]
  omega

theorem escapedUnit_shortEscape {p : UInt16 × UInt16} (h : p ∈ shortEscapes) :
    escapedUnit p.2 = some p.1 ∧ p.2 ≠ 0x75 := by
  have hall : (shortEscapes.all fun p =>
      decide (escapedUnit p.2 = some p.1 ∧ p.2 ≠ 0x75)) = true := by
    decide
  exact of_decide_eq_true (List.all_eq_true.mp hall p h)

theorem parseString_plain {c : UInt16} (hquote : c ≠ 0x22) (hslash : c ≠ 0x5C) (hctl : 0x20 ≤ c)
    (rest : JsString) : parseString (c :: rest) = consUnit c (parseString rest) := by
  rw [parseString.eq_def]
  simp only [if_neg hquote, if_neg hslash, if_neg (UInt16.not_lt.mpr hctl)]

theorem parseString_quoteUnit (c : UInt16) (rest : JsString) :
    parseString (quoteUnit c ++ rest) = consUnit c (parseString rest) := by
  rcases quoteUnit_cases c with ⟨e, he, hq⟩ | ⟨-, -, hq⟩ | ⟨hnot, hle, -, hq⟩
  · obtain ⟨hunit, hu⟩ := escapedUnit_shortEscape he
    rw [hq, List.cons_append, List.cons_append, List.nil_append, parseString.eq_def]
    simp only [if_neg hu, hunit]
    rfl
  · rw [hq]
    unfold unicodeEscape
    simp only [List.cons_append, List.nil_append]
    rw [parseString.eq_def]
    simp only [hexUnit_unicodeEscape]
    rfl
  · simp only [shortEscapes, List.map_cons, List.mem_cons, not_or] at hnot
    rw [hq]
    exact parseString_plain hnot.2.2.2.2.2.1 hnot.2.2.2.2.2.2.1 hle rest

/-- **A quoted string is read back.** -/
theorem parseString_quoteUnits (s rest : JsString) :
    parseString (quoteUnits s ++ 0x22 :: rest) = some (s, rest) := by
  have hclose : parseString (0x22 :: rest) = some ([], rest) := by
    rw [parseString.eq_def]
    rfl
  fun_induction quoteUnits s with
  | case1 => exact hclose
  | case2 c =>
    rw [parseString_quoteUnit, hclose]
    rfl
  | case3 c d s hpair ih =>
    simp only [isHighSurrogate, isLowSurrogate, Bool.and_eq_true, decide_eq_true_eq] at hpair
    rw [List.cons_append, List.cons_append, parseString_plain (by grind) (by grind) (by grind),
      parseString_plain (by grind) (by grind) (by grind), ih]
    rfl
  | case4 c d s hpair ih =>
    rw [List.append_assoc, parseString_quoteUnit, ih]
    rfl

/-! ## Reading an object of strings -/

theorem skipSpace_quote (rest : JsString) : skipSpace (0x22 :: rest) = 0x22 :: rest := rfl

theorem jsonQuote_append (s rest : JsString) :
    jsonQuote s ++ rest = 0x22 :: (quoteUnits s ++ 0x22 :: rest) := by
  simp [jsonQuote]

theorem parseValue_jsonQuote (numberText : JsString → JsString) (fuel : Nat) (s rest : JsString) :
    parseValue numberText (fuel + 1) (jsonQuote s ++ rest) = some (.string s, rest) := by
  rw [jsonQuote_append, parseValue, skipSpace_quote]
  simp only [if_pos, parseString_quoteUnits]
  rfl

/-- A member, up to the text after its value. -/
theorem parseMembers_member (numberText : JsString → JsString) (fuel : Nat)
    (properties : List (JsString × Json)) (key text : JsString) {value : Json} {rest : JsString}
    (h : parseValue numberText fuel text = some (value, rest)) :
    parseMembers numberText (fuel + 1) properties (jsonQuote key ++ 0x3A :: text) =
      match skipSpace rest with
      | 0x2C :: rest => parseMembers numberText fuel (setProperty properties key value) rest
      | 0x7D :: rest => some (.object (setProperty properties key value), rest)
      | _ => none := by
  have hcolon : skipSpace (0x3A :: text) = 0x3A :: text := rfl
  rw [jsonQuote_append, parseMembers, skipSpace_quote]
  simp only [parseString_quoteUnits, hcolon, h]

end Json
