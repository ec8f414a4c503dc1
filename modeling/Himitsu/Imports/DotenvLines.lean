import Himitsu.Imports.Dotenv

/-!
# Dotenv files of double-quoted values

What the dotenv reader makes of a file whose lines are `KEY="text"`.

* `Quoted text value` — the scanner of quoted values reads `text` as `value`.
* `quotedLine` — the line of one entry.
* `parseLine_quotedLine` — one line.

Principal result: `parseDotenv_quotedLines` — a file of such lines with distinct keys gives one
entry for each line and no issue.
-/

set_option autoImplicit false

namespace Himitsu.Dotenv

open JsString

/-! ## Scanning -/

theorem scanQuoted_plain {c : UInt16} (hslash : c ≠ 0x5C) (hquote : c ≠ 0x22) (rest : JsString) :
    scanQuoted 0x22 (c :: rest) = (c :: (scanQuoted 0x22 rest).1, (scanQuoted 0x22 rest).2) := by
  rw [scanQuoted.eq_def]
  simp only [if_neg hslash, if_neg hquote]

theorem scanQuoted_escape (next : UInt16) (rest : JsString) :
    scanQuoted 0x22 (0x5C :: next :: rest) =
      (unescape 0x22 next ++ (scanQuoted 0x22 rest).1, (scanQuoted 0x22 rest).2) :=
  rfl

theorem scanQuoted_plains {text : JsString} (h : ∀ c ∈ text, c ≠ 0x5C ∧ c ≠ 0x22)
    (rest : JsString) :
    scanQuoted 0x22 (text ++ rest) =
      (text ++ (scanQuoted 0x22 rest).1, (scanQuoted 0x22 rest).2) := by
  induction text with
  | nil => rfl
  | cons c text ih =>
    obtain ⟨hslash, hquote⟩ := h c (by simp)
    rw [List.cons_append, scanQuoted_plain hslash hquote, ih fun d hd => h d (by simp [hd])]
    rfl

/-- Inside double quotes, `text` is read as `value`. -/
def Quoted (text value : JsString) : Prop :=
  ∀ rest, scanQuoted 0x22 (text ++ rest) =
    (value ++ (scanQuoted 0x22 rest).1, (scanQuoted 0x22 rest).2)

theorem Quoted.nil : Quoted [] [] := fun _ => rfl

theorem Quoted.append {text value text' value' : JsString} (h : Quoted text value)
    (h' : Quoted text' value') : Quoted (text ++ text') (value ++ value') := by
  intro rest
  rw [List.append_assoc, h, h', List.append_assoc]

theorem Quoted.closed {text value : JsString} (h : Quoted text value) (trailing : JsString) :
    scanQuoted 0x22 (text ++ 0x22 :: trailing) = (value, some trailing) := by
  have hclose : scanQuoted 0x22 (0x22 :: trailing) = ([], some trailing) := by
    cases trailing <;> rfl
  rw [h, hclose, List.append_nil]

/-! ## Keys -/

/-- What a unit of a key is not. -/
structure KeyUnit (c : UInt16) : Prop where
  notWhitespace : isWhitespace c = false
  noBreak : noBreak c = true
  ne_equals : c ≠ 0x3D
  ne_comment : c ≠ 0x23
  ne_mark : c ≠ 0xFEFF

theorem keyUnit_of_isKeyPart {c : UInt16} (h : isKeyPart c = true) : KeyUnit c := by
  have hrange : 0x30 ≤ c ∧ c ≤ 0x39 ∨ 0x41 ≤ c ∧ c ≤ 0x5A ∨ 0x61 ≤ c ∧ c ≤ 0x7A ∨ c = 0x5F ∨
      c = 0x2E ∨ c = 0x2D := by
    simp only [isKeyPart, isKeyStart, isLetter, isDigit, Bool.or_eq_true, Bool.and_eq_true,
      decide_eq_true_eq, beq_iff_eq] at h
    tauto
  exact ⟨isWhitespace_ascii (by grind), noBreak_of_le (by grind), by grind, by grind, by grind⟩

theorem keyPattern_units {key : JsString} (h : keyPattern key = true) : ∀ c ∈ key, KeyUnit c := by
  cases key with
  | nil => simp
  | cons c rest =>
    simp only [keyPattern, Bool.and_eq_true, List.all_eq_true] at h
    intro d hd
    rcases List.mem_cons.mp hd with rfl | hd
    · exact keyUnit_of_isKeyPart (by simp [isKeyPart, h.1])
    · exact keyUnit_of_isKeyPart (h.2 d hd)

theorem mem_of_prefix_append {p key rest : JsString} {e : UInt16} (h : p <+: key ++ e :: rest)
    (he : e ∉ p) : ∀ c ∈ p, c ∈ key := by
  have hkey : key ++ [e] <+: key ++ e :: rest := ⟨rest, by simp⟩
  rcases Nat.lt_or_ge key.length p.length with hlt | hle
  · have hin : key ++ [e] <+: p := List.prefix_of_prefix_length_le hkey h (by simp; omega)
    exact absurd (hin.subset (by simp)) he
  · exact fun c hc => (List.prefix_of_prefix_length_le h ⟨e :: rest, rfl⟩ hle).subset hc

theorem stripExport_line {key : JsString} (h : ∀ c ∈ key, KeyUnit c) (rest : JsString) :
    stripExport (key ++ 0x3D :: rest) = key ++ 0x3D :: rest := by
  have hnot : ∀ p : JsString, 0x3D ∉ p → (∃ c ∈ p, isWhitespace c = true) →
      p.isPrefixOf (key ++ 0x3D :: rest) = false := by
    intro p he ⟨c, hc, hws⟩
    by_contra hp
    rw [Bool.not_eq_false, List.isPrefixOf_iff_prefix] at hp
    have hkey := (h c (mem_of_prefix_append hp he c hc)).notWhitespace
    rw [hws] at hkey
    cases hkey
  unfold stripExport
  rw [hnot (ofAscii "export ") (by decide) ⟨0x20, by decide, by decide⟩,
    hnot (ofAscii "export\t") (by decide) ⟨0x09, by decide, by decide⟩]
  rfl

theorem idxOf_equals {key : JsString} (h : ∀ c ∈ key, KeyUnit c) (rest : JsString) :
    (key ++ 0x3D :: rest).idxOf? 0x3D = some key.length := by
  induction key with
  | nil => simp [List.idxOf?_cons]
  | cons c key ih =>
    have hc := (h c (by simp)).ne_equals
    rw [List.cons_append, List.idxOf?_cons, ih fun d hd => h d (by simp [hd])]
    simp [hc]

/-! ## One line -/

def quotedLine (key text : JsString) : JsString := key ++ 0x3D :: 0x22 :: (text ++ [0x22])

theorem parseValue_quoted {text value : JsString} (h : Quoted text value)
    (following : List JsString) (index : Nat) (key : JsString) (st : State) :
    parseValue following index key (0x22 :: (text ++ [0x22])) st =
      (st.accept ⟨key, value, index + 1⟩, index) := by
  have hparsed : parseQuoted 0x22 index (text ++ [0x22]) following = ⟨value, index, [], true⟩ := by
    rw [parseQuoted.eq_def, h.closed]
  simp only [parseValue, hparsed]
  simp [isQuote, trim, trimEnd]

/-- **One line.** A quoted line is accepted with the value that its text is read as. -/
theorem parseLine_quotedLine {key text value : JsString} (hkey : keyPattern key = true)
    (htext : Quoted text value) (following : List JsString) (index : Nat) {st : State}
    (hnew : key ∉ st.seen) :
    parseLine (quotedLine key text) following index st =
      (st.accept ⟨key, value, index + 1⟩, index) := by
  have hunits := keyPattern_units hkey
  obtain ⟨c, rest, rfl⟩ : ∃ c rest, key = c :: rest := by
    cases key with
    | nil => simp [keyPattern] at hkey
    | cons c rest => exact ⟨c, rest, rfl⟩
  have hc := hunits c (by simp)
  have hline : trimStart (quotedLine (c :: rest) text) = quotedLine (c :: rest) text :=
    trimStart_cons_of_not hc.notWhitespace
  have hexport : stripExport (quotedLine (c :: rest) text) = quotedLine (c :: rest) text :=
    stripExport_line hunits _
  have hequals : (quotedLine (c :: rest) text).idxOf? 0x3D = some (c :: rest).length :=
    idxOf_equals hunits _
  have htake : (quotedLine (c :: rest) text).take (c :: rest).length = c :: rest :=
    List.take_left
  have hdrop : (quotedLine (c :: rest) text).drop ((c :: rest).length + 1) =
      0x22 :: (text ++ [0x22]) := by
    rw [quotedLine, List.drop_append]
    simp
  have htrim : trim (c :: rest) = c :: rest :=
    trim_of_forall fun d hd => (hunits d hd).notWhitespace
  have hquote : trimStart (0x22 :: (text ++ [0x22])) = 0x22 :: (text ++ [0x22]) :=
    trimStart_cons_of_not (by decide)
  unfold parseLine
  simp only [hline]
  rw [if_neg (by simp [quotedLine, hc.ne_comment])]
  simp only [hexport, hequals, htake, hdrop, htrim, hquote, hkey]
  rw [if_neg (by simp), if_neg hnew, parseValue_quoted htext]

/-! ## The whole file -/

/-- An entry of a file: the key, the text between the quotes, and the value it is read as. -/
structure QuotedEntry where
  key : JsString
  text : JsString
  value : JsString
  pattern : keyPattern key = true
  quoted : Quoted text value
  noBreak : ∀ c ∈ text, noBreak c = true

def QuotedEntry.line (entry : QuotedEntry) : JsString := quotedLine entry.key entry.text

theorem parseFrom_quotedLines (entries : List QuotedEntry) (st : State) (index : Nat)
    (hnodup : (entries.map (·.key)).Nodup) (hnew : ∀ entry ∈ entries, entry.key ∉ st.seen) :
    let final := parseFrom index index st (entries.map QuotedEntry.line ++ [[]])
    final.issues = st.issues ∧
      final.entries.map (fun entry => (entry.key, entry.value)) =
        st.entries.map (fun entry => (entry.key, entry.value)) ++
          entries.map fun entry => (entry.key, entry.value) := by
  induction entries generalizing st index with
  | nil => simp [parseFrom, parseLine]
  | cons entry entries ih =>
    rw [List.map_cons, List.nodup_cons] at hnodup
    have hstep := parseLine_quotedLine entry.pattern entry.quoted
      (entries.map QuotedEntry.line ++ [[]]) index (hnew _ List.mem_cons_self)
    have hrest := ih (st.accept ⟨entry.key, entry.value, index + 1⟩) (index + 1) hnodup.2 (by
      intro other he
      simp only [State.accept, List.mem_cons, not_or]
      refine ⟨?_, hnew other (List.mem_cons_of_mem _ he)⟩
      exact fun heq => hnodup.1 (List.mem_map.mpr ⟨other, he, heq⟩))
    simp only [List.map_cons, List.cons_append, parseFrom, QuotedEntry.line, hstep,
      Nat.lt_irrefl, if_false]
    simpa [State.accept, State.report, QuotedEntry.line] using hrest

theorem QuotedEntry.line_noBreak (entry : QuotedEntry) :
    ∀ c ∈ entry.line, JsString.noBreak c = true := by
  intro c hc
  simp only [line, quotedLine, List.mem_append, List.mem_cons, List.not_mem_nil, or_false] at hc
  rcases hc with hc | rfl | rfl | hc | rfl
  · exact (keyPattern_units entry.pattern c hc).noBreak
  · rfl
  · rfl
  · exact entry.noBreak c hc
  · rfl

theorem stripByteOrderMark_quotedLines (entries : List QuotedEntry) :
    stripByteOrderMark (unlines (entries.map QuotedEntry.line)) =
      unlines (entries.map QuotedEntry.line) := by
  cases entries with
  | nil => rfl
  | cons entry entries =>
    have hunits := keyPattern_units entry.pattern
    have hpattern := entry.pattern
    cases hkey : entry.key with
    | nil => simp [hkey, keyPattern] at hpattern
    | cons c rest =>
      have hc := (hunits c (by simp [hkey])).ne_mark
      simp only [List.map_cons, unlines_cons, QuotedEntry.line, quotedLine, hkey, List.cons_append]
      unfold stripByteOrderMark
      split
      · rename_i heq
        exact absurd (List.cons.inj heq).1 hc
      · rfl

/-- **The whole file.** One entry for each line, with the value its text is read as. -/
theorem parseDotenv_quotedLines (entries : List QuotedEntry)
    (hnodup : (entries.map (·.key)).Nodup) :
    let parsed := parseDotenv (unlines (entries.map QuotedEntry.line))
    parsed.issues = [] ∧
      parsed.entries.map (fun entry => (entry.key, entry.value)) =
        entries.map fun entry => (entry.key, entry.value) := by
  have hlines : ∀ line ∈ entries.map QuotedEntry.line, ∀ c ∈ line, JsString.noBreak c = true := by
    intro line hline
    obtain ⟨entry, -, rfl⟩ := List.mem_map.mp hline
    exact entry.line_noBreak
  have hrun := parseFrom_quotedLines entries .initial 0 hnodup (by simp [State.initial])
  unfold parseDotenv
  rw [stripByteOrderMark_quotedLines, splitLines_unlines _ hlines]
  simpa [State.initial] using hrun

end Himitsu.Dotenv
