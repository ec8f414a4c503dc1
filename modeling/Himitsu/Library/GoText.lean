import Mathlib

/-!
# Text functions of the Go standard library

Strings are valid Unicode; `String` is then the same as a Go `string`.

* `formatInt`, `parseInt` — `strconv.FormatInt` and `strconv.ParseInt` with base 10 and 64 bits.
* `trimSpace` — `strings.TrimSpace`.
* `sortStrings` — `sort.Strings`; the order of the UTF-8 bytes is that of the code points.
* `quote` — `strconv.Quote`.
* `marshalMap` — `json.Marshal` of a `map[string]string`.

Principal results: `parseInt_formatInt`, `splitOn_intercalate`.
-/

set_option autoImplicit false

namespace GoText

/-! ## Integers -/

def formatDigits (n : Nat) : List Char := Nat.toDigits 10 n

def formatInt (v : Int64) : String :=
  match v.toInt with
  | .ofNat n => String.ofList (formatDigits n)
  | .negSucc n => String.ofList ('-' :: formatDigits (n + 1))

def parseDigits (digits : List Char) : Option Nat :=
  if digits ≠ [] ∧ digits.all Char.isDigit then some (Nat.ofDigitChars 10 digits 0) else none

/-- `none` where the text is no number or out of range. -/
def parseInt (text : String) : Option Int64 :=
  match text.toList with
  | '-' :: digits => do
    let n ← parseDigits digits
    if n ≤ 2 ^ 63 then some (Int64.ofInt (-n)) else none
  | '+' :: digits => do
    let n ← parseDigits digits
    if n < 2 ^ 63 then some (Int64.ofInt n) else none
  | digits => do
    let n ← parseDigits digits
    if n < 2 ^ 63 then some (Int64.ofInt n) else none

theorem parseDigits_formatDigits (n : Nat) : parseDigits (formatDigits n) = some n := by
  have hdigits : (formatDigits n).all Char.isDigit = true :=
    List.all_eq_true.mpr fun c hc =>
      Nat.isDigit_of_mem_toDigits (b := 10) (by omega) (by omega) hc
  rw [parseDigits, if_pos ⟨Nat.toDigits_ne_nil, hdigits⟩, formatDigits,
    Nat.ofDigitChars_ten_toDigits]

/-- A formatted number starts with a digit. -/
theorem formatDigits_cons (n : Nat) :
    ∃ c rest, formatDigits n = c :: rest ∧ c.isDigit = true := by
  obtain ⟨c, rest, h⟩ := List.exists_cons_of_ne_nil (Nat.toDigits_ne_nil (n := n) (b := 10))
  refine ⟨c, rest, h, Nat.isDigit_of_mem_toDigits (n := n) (b := 10) (by omega) (by omega) ?_⟩
  rw [h]
  exact List.mem_cons_self

theorem parseInt_formatInt (v : Int64) : parseInt (formatInt v) = some v := by
  have hlow := Int64.le_toInt v
  have hhigh := Int64.toInt_lt v
  have hv := Int64.ofInt_toInt v
  unfold formatInt
  cases hcase : v.toInt with
  | ofNat n =>
    rw [hcase] at hhigh hv
    obtain ⟨c, rest, hdigits, hc⟩ := formatDigits_cons n
    have hminus : c ≠ '-' := by rintro rfl; cases hc
    have hplus : c ≠ '+' := by rintro rfl; cases hc
    have hparse := parseDigits_formatDigits n
    rw [hdigits] at hparse
    have hn : n < 2 ^ 63 := by
      have : (n : Int) < 2 ^ 63 := hhigh
      omega
    simp only [parseInt, hdigits, String.toList_ofList]
    split
    · rename_i h
      cases h
      exact absurd rfl hminus
    · rename_i h
      cases h
      exact absurd rfl hplus
    · rw [hparse, Option.bind_eq_bind, Option.bind_some, if_pos hn]
      exact congrArg some hv
  | negSucc n =>
    rw [hcase] at hlow hv
    have hn : n + 1 ≤ 2 ^ 63 := by omega
    simp only [parseInt, String.toList_ofList]
    rw [parseDigits_formatDigits, Option.bind_eq_bind, Option.bind_some, if_pos hn]
    exact congrArg some hv

/-! ## Spaces and order -/

/-- `unicode.IsSpace`. -/
def isSpace (r : Char) : Bool :=
  (0x09 ≤ r.toNat && r.toNat ≤ 0x0D) || (0x2000 ≤ r.toNat && r.toNat ≤ 0x200A) ||
    [0x20, 0x85, 0xA0, 0x1680, 0x2028, 0x2029, 0x202F, 0x205F, 0x3000].contains r.toNat

def trimSpace (text : String) : String :=
  String.ofList ((text.toList.dropWhile isSpace).rdropWhile isSpace)

def sortStrings (texts : List String) : List String := texts.insertionSort (· ≤ ·)

/-! ## Lists in one text -/

open String in
/-- `splitOn` with one part begun. -/
theorem splitOnAux_comma (l m r : List Char) (acc : List String) :
    splitOnAux (ofList (l ++ m ++ r)) "," ⟨utf8Len l⟩ ⟨utf8Len l + utf8Len m⟩ 0 acc =
      acc.reverse ++ (List.splitOnPPrepend (· == ',') r m.reverse).map ofList := by
  unfold splitOnAux
  cases r with
  | nil =>
    have hend : Pos.Raw.atEnd (ofList (l ++ m ++ [])) ⟨utf8Len l + utf8Len m⟩ = true := by
      rw [atEnd_iff, rawEndPos_ofList, utf8Len_append, utf8Len_append, Pos.Raw.mk_le_mk]
      exact le_rfl
    rw [if_pos hend]
    simpa using extract_of_valid l m []
  | cons c r =>
    have hend : ¬ Pos.Raw.atEnd (ofList (l ++ m ++ c :: r)) ⟨utf8Len l + utf8Len m⟩ = true := by
      have hc := Char.utf8Size_pos c
      rw [atEnd_iff, rawEndPos_ofList, utf8Len_append, utf8Len_append, utf8Len_cons,
        Pos.Raw.mk_le_mk]
      omega
    have hsep : Pos.Raw.get "," 0 = ',' := by decide
    have hnextSep : Pos.Raw.next "," 0 = ⟨1⟩ := by decide
    have hendSep : Pos.Raw.atEnd "," ⟨1⟩ = true := by decide
    have hget := get_of_valid (l ++ m) (c :: r)
    have hnext := next_of_valid (l ++ m) c r
    have hext := extract_of_valid l m (c :: r)
    rw [utf8Len_append] at hget hnext
    rw [if_neg hend, hsep, hget]
    by_cases hc : c = ','
    · subst hc
      have hrest := splitOnAux_comma (l ++ m ++ [',']) [] r (ofList m :: acc)
      simp only [List.headD_cons, beq_self_eq_true, if_true, hnextSep, hendSep, hnext]
      have hstart : Pos.Raw.unoffsetBy ⟨utf8Len l + utf8Len m + Char.utf8Size ','⟩ ⟨1⟩ =
          ⟨utf8Len l + utf8Len m⟩ := rfl
      rw [hstart, hext]
      simpa [Nat.add_assoc, List.splitOnPPrepend_cons_eq_if] using hrest
    · have hrest := splitOnAux_comma l (m ++ [c]) r acc
      have hne : (c == ',') = false := beq_false_of_ne hc
      simp only [List.headD_cons, hne, Bool.false_eq_true, if_false]
      have hstart : Pos.Raw.unoffsetBy ⟨utf8Len l + utf8Len m⟩ 0 = ⟨utf8Len l + utf8Len m⟩ := rfl
      rw [hstart, hnext]
      simpa [Nat.add_assoc, List.splitOnPPrepend_cons_eq_if, hne] using hrest
termination_by r.length

open String in
theorem splitOn_comma (text : String) :
    text.splitOn "," = (text.toList.splitOnP (· == ',')).map ofList := by
  have h := splitOnAux_comma [] [] text.toList []
  simpa [String.splitOn] using h

/-- `strings.Split` after `strings.Join`. -/
theorem splitOn_intercalate {texts : List String} (hne : texts ≠ [])
    (hfree : ∀ text ∈ texts, ',' ∉ text.toList) : (",".intercalate texts).splitOn "," = texts := by
  have hchars : List.splitOn ',' ([','].intercalate (texts.map String.toList)) =
      texts.map String.toList := by
    refine List.splitOn_intercalate ',' (fun chars hchars => ?_) (by simpa using hne)
    obtain ⟨text, htext, rfl⟩ := List.mem_map.mp hchars
    exact hfree text htext
  rw [splitOn_comma, String.toList_intercalate]
  have hsep : ",".toList = [','] := rfl
  rw [hsep, ← List.splitOn, hchars, List.map_map]
  exact (List.map_congr_left fun text _ => String.ofList_toList).trans (List.map_id _)

/-! ## Quoting -/

/-- `n` in lower-case hexadecimal, at least `width` digits. -/
def hex (width n : Nat) : List Char :=
  let digits := Nat.toDigits 16 n
  List.replicate (width - digits.length) '0' ++ digits

/-- `strconv.IsPrint`; `printable` is the table for the runes from U+0100 on. -/
def isPrint (printable : Char → Bool) (r : Char) : Bool :=
  if r.toNat ≤ 0xFF then
    (0x20 ≤ r.toNat && r.toNat < 0x7F) || (0xA1 ≤ r.toNat && r.toNat != 0xAD)
  else printable r

/-- `strconv.appendEscapedRune`. -/
def quoteRune (printable : Char → Bool) (r : Char) : List Char :=
  if r = '\x22' ∨ r = '\x5c' then ['\x5c', r]
  else if isPrint printable r then [r]
  else match r.toNat with
    | 0x07 => ['\x5c', 'a']
    | 0x08 => ['\x5c', 'b']
    | 0x0C => ['\x5c', 'f']
    | 0x0A => ['\x5c', 'n']
    | 0x0D => ['\x5c', 'r']
    | 0x09 => ['\x5c', 't']
    | 0x0B => ['\x5c', 'v']
    | n =>
      if n < 0x20 ∨ n = 0x7F then '\x5c' :: 'x' :: hex 2 n
      else if n < 0x10000 then '\x5c' :: 'u' :: hex 4 n
      else '\x5c' :: 'U' :: hex 8 n

def quote (printable : Char → Bool) (text : String) : String :=
  String.ofList ('\x22' :: text.toList.flatMap (quoteRune printable) ++ ['\x22'])

/-! ## JSON -/

/-- `encoding/json.appendString`, which escapes HTML. -/
def marshalRune (r : Char) : List Char :=
  if r = '\x22' ∨ r = '\x5c' then ['\x5c', r]
  else match r.toNat with
    | 0x08 => ['\x5c', 'b']
    | 0x0C => ['\x5c', 'f']
    | 0x0A => ['\x5c', 'n']
    | 0x0D => ['\x5c', 'r']
    | 0x09 => ['\x5c', 't']
    | n =>
      if n < 0x20 ∨ r = '<' ∨ r = '>' ∨ r = '&' ∨ n = 0x2028 ∨ n = 0x2029 then
        '\x5c' :: 'u' :: hex 4 n
      else [r]

def marshalString (text : String) : String :=
  String.ofList ('\x22' :: text.toList.flatMap marshalRune ++ ['\x22'])

/-- The keys come in `sortStrings` order. -/
def marshalMap (entries : List (String × String)) : String :=
  let members := (sortStrings (entries.map Prod.fst)).map fun key =>
    marshalString key ++ ":" ++ marshalString ((entries.lookup key).getD "")
  "\x7b" ++ ",".intercalate members ++ "\x7d"

example : marshalMap [("b", "<"), ("a", "1")] =
    "\x7b\x22a\x22:\x221\x22,\x22b\x22:\x22\x5cu003c\x22\x7d" := by
  decide

end GoText
