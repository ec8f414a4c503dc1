import Mathlib

/-!
# Strings of UTF-16 code units

A string value of ECMAScript is a finite sequence of 16-bit code units, surrogates included.
This module fixes that representation and the few operations of the language's own library
that text formats are written with.

* `ofNat`, `decimalValue` — decimal texts of natural numbers.
* `trimStart`, `trimEnd`, `trim` — the white space of `String.prototype.trim` and of `\s`.
* `splitLines` — `split(/\r?\n/)`; `splitLines_unlines` is its inverse law for lines that
  hold no line terminator.
* `isWellFormed` — every surrogate stands in a pair.
* `jsonQuote` — the `QuoteJSONString` operation behind `JSON.stringify`.
-/

set_option autoImplicit false

/-- A string value: UTF-16 code units, lone surrogates allowed. -/
abbrev JsString := List UInt16

namespace JsString

/-- The string of an ASCII literal. -/
def ofAscii (text : String) : JsString := text.toList.map fun c => c.toNat.toUInt16

/-! ## Decimal numbers -/

def decimalDigit (d : Nat) : UInt16 := (0x30 + d).toUInt16

/-- Decimal text of a natural number, as a template literal prints it. -/
def ofNat (n : Nat) : JsString :=
  if n = 0 then [0x30] else (Nat.digits 10 n).reverse.map decimalDigit

/-- The number that a text of decimal digits denotes. -/
def decimalValue (s : JsString) : Nat := s.foldl (fun value c => 10 * value + (c.toNat - 0x30)) 0

theorem decimalDigit_toNat {d : Nat} (h : d < 10) : (decimalDigit d).toNat = 0x30 + d := by
  rw [decimalDigit, Nat.toUInt16_eq, UInt16.toNat_ofNat', Nat.mod_eq_of_lt (by omega)]

theorem decimalValue_append_digit (s : JsString) {d : Nat} (h : d < 10) :
    decimalValue (s ++ [decimalDigit d]) = 10 * decimalValue s + d := by
  rw [decimalValue, List.foldl_append, List.foldl_cons, List.foldl_nil, decimalDigit_toNat h,
    Nat.add_sub_cancel_left]
  rfl

theorem decimalValue_digits {digits : List Nat} (h : ∀ d ∈ digits, d < 10) :
    decimalValue (digits.reverse.map decimalDigit) = Nat.ofDigits 10 digits := by
  induction digits with
  | nil => rfl
  | cons d digits ih =>
    rw [List.reverse_cons, List.map_append, List.map_singleton,
      decimalValue_append_digit _ (h d (by simp)), ih fun e he => h e (by simp [he]),
      Nat.ofDigits_cons]
    omega

theorem decimalValue_ofNat (n : Nat) : decimalValue (ofNat n) = n := by
  unfold ofNat
  split
  · rename_i h
    rw [h]
    rfl
  · rw [decimalValue_digits fun d hd => Nat.digits_lt_base (by omega) hd, Nat.ofDigits_digits]

/-- The text of a positive number has no leading zero. -/
theorem ofNat_eq {n : Nat} (h : n ≠ 0) :
    ∃ c rest, ofNat n = c :: rest ∧ 0x31 ≤ c ∧ c ≤ 0x39 ∧
      ∀ d ∈ rest, 0x30 ≤ d ∧ d ≤ 0x39 := by
  have hdigits : Nat.digits 10 n ≠ [] := Nat.digits_ne_nil_iff_ne_zero.mpr h
  have hlast : (Nat.digits 10 n).getLast hdigits ≠ 0 := Nat.getLast_digit_ne_zero 10 h
  have hlt : ∀ d ∈ Nat.digits 10 n, d < 10 := fun d hd => Nat.digits_lt_base (by omega) hd
  have hsplit := List.dropLast_append_getLast hdigits
  refine ⟨decimalDigit ((Nat.digits 10 n).getLast hdigits),
    (Nat.digits 10 n).dropLast.reverse.map decimalDigit, ?_, ?_, ?_, ?_⟩
  · rw [ofNat, if_neg h]
    conv_lhs => rw [← hsplit]
    rw [List.reverse_append, List.map_append]
    rfl
  · rw [UInt16.le_iff_toNat_le, decimalDigit_toNat (hlt _ (List.getLast_mem hdigits))]
    simp
    omega
  · have hd := hlt _ (List.getLast_mem hdigits)
    rw [UInt16.le_iff_toNat_le, decimalDigit_toNat hd]
    simp
    omega
  · intro c hc
    obtain ⟨d, hd, rfl⟩ := List.mem_map.mp hc
    have hd' := hlt d (List.mem_of_mem_dropLast (List.mem_reverse.mp hd))
    rw [UInt16.le_iff_toNat_le, UInt16.le_iff_toNat_le, decimalDigit_toNat hd']
    simp
    omega

theorem ofNat_injective {m n : Nat} (h : ofNat m = ofNat n) : m = n := by
  rw [← decimalValue_ofNat m, h, decimalValue_ofNat]

theorem ofNat_digits (n : Nat) : ∀ d ∈ ofNat n, 0x30 ≤ d ∧ d ≤ 0x39 := by
  by_cases h : n = 0
  · intro d hd
    rw [h, ofNat, if_pos rfl, List.mem_singleton] at hd
    rw [hd]
    decide
  · obtain ⟨c, rest, hn, hc, hc', hrest⟩ := ofNat_eq h
    intro d hd
    rw [hn] at hd
    rcases List.mem_cons.mp hd with rfl | hd
    · exact ⟨UInt16.le_trans (by decide) hc, hc'⟩
    · exact hrest d hd

/-- A text is determined by its parts around the last occurrence of a unit. -/
theorem append_cons_inj {c : UInt16} {a b s t : JsString} (hs : c ∉ s) (ht : c ∉ t)
    (h : a ++ c :: s = b ++ c :: t) : a = b ∧ s = t := by
  rcases List.append_eq_append_iff.mp h with ⟨m, rfl, hm⟩ | ⟨m, rfl, hm⟩
  · cases m with
    | nil => simpa using hm
    | cons d m =>
      have hin : c ∈ s := by simp [(List.cons.inj hm).2]
      exact absurd hin hs
  · cases m with
    | nil => simpa [eq_comm] using hm
    | cons d m =>
      have hin : c ∈ t := by simp [(List.cons.inj hm).2]
      exact absurd hin ht

/-! ## White space -/

/-- `WhiteSpace` and `LineTerminator` of the language, the class `\s`. -/
def isWhitespace (c : UInt16) : Bool :=
  (0x09 ≤ c && c ≤ 0x0D) || c == 0x20 || c == 0xA0 || c == 0x1680 ||
    (0x2000 ≤ c && c ≤ 0x200A) || c == 0x2028 || c == 0x2029 || c == 0x202F || c == 0x205F ||
    c == 0x3000 || c == 0xFEFF

/-- No printable ASCII character other than the blank is white space. -/
theorem isWhitespace_ascii {c : UInt16} (h : 0x21 ≤ c ∧ c ≤ 0x7E) : isWhitespace c = false := by
  simp only [isWhitespace, Bool.or_eq_false_iff, Bool.and_eq_false_iff, decide_eq_false_iff_not,
    beq_eq_false_iff_ne]
  refine ⟨?_, ?_⟩
  constructorm* _ ∧ _ <;> grind
  grind

def trimStart (s : JsString) : JsString := s.dropWhile isWhitespace

def trimEnd (s : JsString) : JsString := s.rdropWhile isWhitespace

def trim (s : JsString) : JsString := trimEnd (trimStart s)

@[simp] theorem trimStart_nil : trimStart [] = [] := rfl

theorem trimStart_cons_of_not {c : UInt16} {s : JsString} (h : isWhitespace c = false) :
    trimStart (c :: s) = c :: s := by
  simp [trimStart, h]

theorem trimEnd_of_forall {s : JsString} (h : ∀ c ∈ s, isWhitespace c = false) :
    trimEnd s = s := by
  unfold trimEnd
  rw [List.rdropWhile_eq_self_iff]
  intro hne
  simp [h _ (List.getLast_mem hne)]

theorem trimStart_of_forall {s : JsString} (h : ∀ c ∈ s, isWhitespace c = false) :
    trimStart s = s := by
  cases s with
  | nil => rfl
  | cons c s => exact trimStart_cons_of_not (h c (by simp))

theorem trim_of_forall {s : JsString} (h : ∀ c ∈ s, isWhitespace c = false) : trim s = s := by
  unfold trim
  rw [trimStart_of_forall h, trimEnd_of_forall h]

/-! ## Lines -/

/-- `split(/\r?\n/)`. -/
def splitLines : JsString → List JsString
  | [] => [[]]
  | c :: rest =>
    if c = 0x0A then [] :: splitLines rest
    else
      match c, rest with
      | 0x0D, 0x0A :: rest' => [] :: splitLines rest'
      | _, rest => (splitLines rest).modifyHead (c :: ·)

/-- Neither half of a line terminator. -/
def noBreak (c : UInt16) : Bool := c != 0x0A && c != 0x0D

theorem noBreak_of_le {c : UInt16} (h : 0x20 ≤ c) : noBreak c = true := by
  simp only [noBreak, Bool.and_eq_true, bne_iff_ne, ne_eq]
  constructor <;> rintro rfl <;> revert h <;> decide

theorem splitLines_line {line : JsString} (rest : JsString)
    (h : ∀ c ∈ line, noBreak c = true) :
    splitLines (line ++ 0x0A :: rest) = line :: splitLines rest := by
  induction line with
  | nil => simp [splitLines]
  | cons c line ih =>
    have hc : noBreak c = true := h c (by simp)
    simp only [noBreak, Bool.and_eq_true, bne_iff_ne, ne_eq] at hc
    have hline := ih fun d hd => h d (by simp [hd])
    rw [List.cons_append, splitLines, if_neg hc.1, hline]
    · rfl
    · intro _ hcr
      exact absurd hcr hc.2

/-- Each line followed by a line feed. -/
def unlines (lines : List JsString) : JsString := (lines.map (· ++ [0x0A])).flatten

@[simp] theorem unlines_nil : unlines [] = [] := rfl

theorem unlines_cons (line : JsString) (lines : List JsString) :
    unlines (line :: lines) = line ++ 0x0A :: unlines lines := by
  simp [unlines]

/-- **Splitting undoes `unlines`**, up to the empty line after the last line feed. -/
theorem splitLines_unlines (lines : List JsString)
    (h : ∀ line ∈ lines, ∀ c ∈ line, noBreak c = true) :
    splitLines (unlines lines) = lines ++ [[]] := by
  induction lines with
  | nil => rfl
  | cons line lines ih =>
    rw [unlines_cons, splitLines_line _ (h line (by simp)),
      ih fun l hl => h l (by simp [hl])]
    rfl

/-- `lines.join("\n")` with a final line feed, unless there is no line. -/
theorem intercalate_eq_unlines {lines : List JsString} (h : lines ≠ []) :
    [0x0A].intercalate lines ++ [0x0A] = unlines lines := by
  induction lines with
  | nil => exact absurd rfl h
  | cons line lines ih =>
    cases lines with
    | nil => simp [unlines]
    | cons next lines =>
      rw [unlines_cons, ← ih (by simp)]
      simp [List.intercalate, List.intersperse]

/-! ## Surrogates -/

def isHighSurrogate (c : UInt16) : Bool := 0xD800 ≤ c && c ≤ 0xDBFF

def isLowSurrogate (c : UInt16) : Bool := 0xDC00 ≤ c && c ≤ 0xDFFF

def isSurrogate (c : UInt16) : Bool := isHighSurrogate c || isLowSurrogate c

/-- `String.prototype.isWellFormed`: every surrogate stands in a pair. -/
def isWellFormed : JsString → Bool
  | [] => true
  | [c] => !isSurrogate c
  | c :: d :: rest =>
    if isHighSurrogate c && isLowSurrogate d then isWellFormed rest
    else !isSurrogate c && isWellFormed (d :: rest)

/-- `String.prototype.toWellFormed`: a lone surrogate becomes U+FFFD. -/
def toWellFormed : JsString → JsString
  | [] => []
  | [c] => [if isSurrogate c then 0xFFFD else c]
  | c :: d :: rest =>
    if isHighSurrogate c && isLowSurrogate d then c :: d :: toWellFormed rest
    else (if isSurrogate c then 0xFFFD else c) :: toWellFormed (d :: rest)

/-! ## JSON string literals -/

def hexDigit (n : UInt16) : UInt16 := if n < 10 then 0x30 + n else 0x57 + n

/-- `UnicodeEscape`: a reverse solidus, `u` and four lower-case hexadecimal digits. -/
def unicodeEscape (c : UInt16) : JsString :=
  [0x5C, 0x75, hexDigit (c >>> 12), hexDigit ((c >>> 8) &&& 0xF), hexDigit ((c >>> 4) &&& 0xF),
    hexDigit (c &&& 0xF)]

/-- "JSON Single Character Escape Sequences". -/
def shortEscapes : List (UInt16 × UInt16) :=
  [(0x08, 0x62), (0x09, 0x74), (0x0A, 0x6E), (0x0C, 0x66), (0x0D, 0x72), (0x22, 0x22),
    (0x5C, 0x5C)]

/-- What `QuoteJSONString` writes for one code unit that is not half of a pair. -/
def quoteUnit (c : UInt16) : JsString :=
  match shortEscapes.lookup c with
  | some e => [0x5C, e]
  | none => if c < 0x20 || isSurrogate c then unicodeEscape c else [c]

def quoteUnits : JsString → JsString
  | [] => []
  | [c] => quoteUnit c
  | c :: d :: rest =>
    if isHighSurrogate c && isLowSurrogate d then c :: d :: quoteUnits rest
    else quoteUnit c ++ quoteUnits (d :: rest)

/-- `QuoteJSONString`, which is `JSON.stringify` of a string. -/
def jsonQuote (s : JsString) : JsString := 0x22 :: quoteUnits s ++ [0x22]

theorem quoteUnit_cases (c : UInt16) :
    (∃ e, (c, e) ∈ shortEscapes ∧ quoteUnit c = [0x5C, e]) ∨
      (c ∉ shortEscapes.map (·.1) ∧ (c < 0x20 ∨ isSurrogate c = true) ∧
        quoteUnit c = unicodeEscape c) ∨
      (c ∉ shortEscapes.map (·.1) ∧ 0x20 ≤ c ∧ isSurrogate c = false ∧ quoteUnit c = [c]) := by
  unfold quoteUnit
  split
  · rename_i e he
    obtain ⟨l₁, l₂, htable, -⟩ := List.lookup_eq_some_iff.mp he
    exact .inl ⟨e, by simp [htable], rfl⟩
  · rename_i hnone
    have hnot : c ∉ shortEscapes.map (·.1) := by
      intro hmem
      obtain ⟨p, hp, rfl⟩ := List.mem_map.mp hmem
      simpa using List.lookup_eq_none_iff.mp hnone p hp
    split
    · rename_i hctl
      exact .inr (.inl ⟨hnot, by simpa using hctl, rfl⟩)
    · rename_i hctl
      simp only [Bool.or_eq_true, decide_eq_true_eq, not_or, Bool.not_eq_true] at hctl
      exact .inr (.inr ⟨hnot, UInt16.not_lt.mp hctl.1, hctl.2, rfl⟩)

theorem hexDigit_range {n : UInt16} (h : n < 16) :
    0x30 ≤ hexDigit n ∧ hexDigit n ≤ 0x39 ∨ 0x61 ≤ hexDigit n ∧ hexDigit n ≤ 0x66 := by
  unfold hexDigit
  grind

theorem shiftRight_lt (c : UInt16) : c >>> 12 < 16 := by
  rw [UInt16.lt_iff_toNat_lt]
  have hlt := c.toNat_lt
  simp [Nat.shiftRight_eq_div_pow]
  omega

theorem nibble_lt (c : UInt16) : c &&& 0xF < 16 := by
  rw [UInt16.lt_iff_toNat_lt]
  have hle := @Nat.and_le_right c.toNat 15
  simp
  omega

/-- The digits of a `\u` escape are lower-case hexadecimal digits. -/
theorem unicodeEscape_eq (c : UInt16) :
    ∃ digits : JsString, unicodeEscape c = 0x5C :: 0x75 :: digits ∧ digits.length = 4 ∧
      ∀ d ∈ digits, 0x30 ≤ d ∧ d ≤ 0x39 ∨ 0x61 ≤ d ∧ d ≤ 0x66 := by
  refine ⟨_, rfl, rfl, ?_⟩
  intro d hd
  simp only [List.mem_cons, List.not_mem_nil, or_false] at hd
  rcases hd with rfl | rfl | rfl | rfl
  · exact hexDigit_range (shiftRight_lt c)
  · exact hexDigit_range (nibble_lt _)
  · exact hexDigit_range (nibble_lt _)
  · exact hexDigit_range (nibble_lt _)

theorem quoteUnit_noBreak (c : UInt16) : ∀ d ∈ quoteUnit c, noBreak d = true := by
  rcases quoteUnit_cases c with ⟨e, he, hq⟩ | ⟨-, -, hq⟩ | ⟨-, hle, -, hq⟩
  · have htable : (shortEscapes.all fun p => noBreak p.2) = true := by decide
    have hne : noBreak e = true := List.all_eq_true.mp htable _ he
    rw [hq]
    simp [hne, noBreak_of_le (show (0x20 : UInt16) ≤ 0x5C by decide)]
  · obtain ⟨digits, hescape, -, hdigits⟩ := unicodeEscape_eq c
    rw [hq, hescape]
    intro d hd
    rcases List.mem_cons.mp hd with rfl | hd
    · rfl
    rcases List.mem_cons.mp hd with rfl | hd
    · rfl
    have hdigit := hdigits d hd
    exact noBreak_of_le (by grind)
  · intro d hd
    rw [hq, List.mem_singleton] at hd
    exact noBreak_of_le (hd ▸ hle)

/-- A quoted string stays on one line. -/
theorem quoteUnits_noBreak (s : JsString) : ∀ d ∈ quoteUnits s, noBreak d = true := by
  fun_induction quoteUnits s with
  | case1 => simp
  | case2 c => exact quoteUnit_noBreak c
  | case3 c d rest hpair ih =>
    simp only [isHighSurrogate, isLowSurrogate, Bool.and_eq_true, decide_eq_true_eq] at hpair
    intro e he
    rcases List.mem_cons.mp he with rfl | he
    · exact noBreak_of_le (by grind)
    rcases List.mem_cons.mp he with rfl | he
    · exact noBreak_of_le (by grind)
    exact ih e he
  | case4 c d rest hpair ih =>
    intro e he
    rcases List.mem_append.mp he with he | he
    · exact quoteUnit_noBreak c e he
    · exact ih e he

/-! ## Quoting is well formed -/

theorem isWellFormed_cons {c : UInt16} (h : isSurrogate c = false) (s : JsString) :
    isWellFormed (c :: s) = isWellFormed s := by
  cases s with
  | nil => simp [isWellFormed, h]
  | cons d s =>
    have hpair : ¬(isHighSurrogate c && isLowSurrogate d) = true := by
      simp only [isSurrogate, Bool.or_eq_false_iff] at h
      simp [h.1]
    rw [isWellFormed, if_neg hpair, h]
    rfl

theorem replaced_not_surrogate (c : UInt16) :
    isSurrogate (if isSurrogate c then 0xFFFD else c) = false := by
  split
  · decide
  · rename_i h
    simpa using h

theorem isWellFormed_toWellFormed (s : JsString) : isWellFormed (toWellFormed s) = true := by
  fun_induction toWellFormed s with
  | case1 => rfl
  | case2 c => exact isWellFormed_cons (replaced_not_surrogate c) []
  | case3 c d rest hpair ih => rw [isWellFormed, if_pos hpair, ih]
  | case4 c d rest hpair ih => rw [isWellFormed_cons (replaced_not_surrogate c), ih]

theorem toWellFormed_length (s : JsString) : (toWellFormed s).length = s.length := by
  fun_induction toWellFormed s with
  | case1 => rfl
  | case2 c => rfl
  | case3 c d rest hpair ih => simp [ih]
  | case4 c d rest hpair ih => simpa using ih

theorem mem_toWellFormed {s : JsString} {c : UInt16} (h : c ∈ toWellFormed s) :
    c ∈ s ∨ c = 0xFFFD := by
  have hreplaced : ∀ d : UInt16, (if isSurrogate d then 0xFFFD else d) = d ∨
      (if isSurrogate d then 0xFFFD else d) = 0xFFFD := by
    intro d
    split
    · exact .inr rfl
    · exact .inl rfl
  fun_induction toWellFormed s with
  | case1 => exact absurd h List.not_mem_nil
  | case2 d =>
    rw [List.mem_singleton.mp h]
    exact (hreplaced d).imp_left fun heq => by rw [heq]; exact List.mem_singleton_self d
  | case3 d e rest hpair ih =>
    rcases List.mem_cons.mp h with rfl | h
    · exact .inl (List.mem_cons_self ..)
    · rcases List.mem_cons.mp h with rfl | h
      · exact .inl (List.mem_cons_of_mem _ (List.mem_cons_self ..))
      · exact (ih h).imp_left fun h => List.mem_cons_of_mem _ (List.mem_cons_of_mem _ h)
  | case4 d e rest hpair ih =>
    rcases List.mem_cons.mp h with rfl | h
    · exact (hreplaced d).imp_left fun heq => by rw [heq]; exact List.mem_cons_self ..
    · exact (ih h).imp_left fun h => List.mem_cons_of_mem _ h

theorem toWellFormed_of_isWellFormed {s : JsString} (h : isWellFormed s = true) :
    toWellFormed s = s := by
  fun_induction toWellFormed s with
  | case1 => rfl
  | case2 c =>
    have hc : isSurrogate c = false := by simpa [isWellFormed] using h
    rw [hc]
    rfl
  | case3 c d rest hpair ih =>
    rw [isWellFormed, if_pos hpair] at h
    rw [ih h]
  | case4 c d rest hpair ih =>
    rw [isWellFormed, if_neg hpair, Bool.and_eq_true, Bool.not_eq_true'] at h
    rw [ih h.2, h.1]
    rfl

theorem isWellFormed_append {s : JsString} (h : ∀ c ∈ s, isSurrogate c = false) (t : JsString) :
    isWellFormed (s ++ t) = isWellFormed t := by
  induction s with
  | nil => rfl
  | cons c s ih =>
    rw [List.cons_append, isWellFormed_cons (h c (by simp)), ih fun d hd => h d (by simp [hd])]

theorem isSurrogate_ascii {c : UInt16} (h : c ≤ 0x7F) : isSurrogate c = false := by
  simp only [isSurrogate, isHighSurrogate, isLowSurrogate, Bool.or_eq_false_iff,
    Bool.and_eq_false_iff, decide_eq_false_iff_not]
  grind

theorem quoteUnit_not_surrogate (c : UInt16) : ∀ d ∈ quoteUnit c, isSurrogate d = false := by
  rcases quoteUnit_cases c with ⟨e, he, hq⟩ | ⟨-, -, hq⟩ | ⟨-, -, hsur, hq⟩
  · have htable : (shortEscapes.all fun p => !isSurrogate p.2) = true := by decide
    have hne := List.all_eq_true.mp htable _ he
    rw [hq]
    simpa [isSurrogate_ascii (show (0x5C : UInt16) ≤ 0x7F by decide)] using hne
  · obtain ⟨digits, hescape, -, hdigits⟩ := unicodeEscape_eq c
    rw [hq, hescape]
    intro d hd
    apply isSurrogate_ascii
    rcases List.mem_cons.mp hd with rfl | hd
    · decide
    rcases List.mem_cons.mp hd with rfl | hd
    · decide
    have hdigit := hdigits d hd
    grind
  · intro d hd
    rw [hq, List.mem_singleton] at hd
    rw [hd, hsur]

/-- A quoted string is well formed even where the string is not. -/
theorem isWellFormed_jsonQuote (s t : JsString) :
    isWellFormed (jsonQuote s ++ t) = isWellFormed t := by
  have hquote : isSurrogate 0x22 = false := isSurrogate_ascii (by decide)
  have hunits : isWellFormed (quoteUnits s ++ 0x22 :: t) = isWellFormed t := by
    fun_induction quoteUnits s with
    | case1 => exact isWellFormed_cons hquote t
    | case2 c =>
      rw [isWellFormed_append (quoteUnit_not_surrogate c), isWellFormed_cons hquote]
    | case3 c d s hpair ih => rw [List.cons_append, List.cons_append, isWellFormed, if_pos hpair, ih]
    | case4 c d s hpair ih =>
      rw [List.append_assoc, isWellFormed_append (quoteUnit_not_surrogate c), ih]
  rw [jsonQuote, List.append_assoc, List.cons_append, List.singleton_append,
    isWellFormed_cons hquote, hunits]

end JsString
