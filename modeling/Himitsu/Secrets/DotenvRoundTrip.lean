import Himitsu.Imports.DotenvLines
import Himitsu.Library.Except
import Himitsu.Secrets.Export

/-!
# Reading an exported dotenv file back

The writer escapes a value as a JSON string; the reader undoes escapes with a table of its own.
This module runs the reader on the writer's output.

* `readBack` — the value the reader reports for a written value.  Where the writer uses an
  escape that is not in the reader's table, the reader keeps the escape's own characters.
* `quoted_quoteUnits` — one quoted value: the scanner reads `readBack value`.
* `parseDotenv_serialize` — the whole file: one entry for each record entry, no issue.

Principal result: `dotenv_roundTrips_iff` — an exported record is read back unchanged exactly
when every value is well-formed UTF-16 and its only control characters below U+0020 are tab,
line feed and carriage return.
-/

set_option autoImplicit false

namespace Himitsu.Secrets

open JsString Dotenv

/-! ## One quoted value -/

/-- Units the reader's escape table gives back: not an escape of `\b`, `\f`, `\u`. -/
def readable (c : UInt16) : Bool :=
  !isSurrogate c && (0x20 ≤ c || c == 0x09 || c == 0x0A || c == 0x0D)

/-- Well-formed UTF-16 with no other control character than tab, line feed, carriage return. -/
def dotenvSafe (value : JsString) : Bool :=
  isWellFormed value && value.all fun c => 0x20 ≤ c || c == 0x09 || c == 0x0A || c == 0x0D

def readBackUnit (c : UInt16) : JsString := if readable c then [c] else quoteUnit c

/-- What the reader reports for a value the writer has quoted. -/
def readBack : JsString → JsString
  | [] => []
  | [c] => readBackUnit c
  | c :: d :: rest =>
    if isHighSurrogate c && isLowSurrogate d then c :: d :: readBack rest
    else readBackUnit c ++ readBack (d :: rest)

theorem quoted_unicodeEscape (c : UInt16) : Quoted (unicodeEscape c) (unicodeEscape c) := by
  intro rest
  obtain ⟨digits, hescape, -, hdigits⟩ := unicodeEscape_eq c
  have hplain : ∀ d ∈ digits, d ≠ 0x5C ∧ d ≠ 0x22 := by
    intro d hd
    have hdigit := hdigits d hd
    constructor <;> rintro rfl <;> revert hdigit <;> decide
  rw [hescape, List.cons_append, List.cons_append, scanQuoted_escape, scanQuoted_plains hplain]
  rfl

theorem unescape_shortEscape {p : UInt16 × UInt16} (h : p ∈ shortEscapes) :
    unescape 0x22 p.2 = if readable p.1 then [p.1] else [0x5C, p.2] := by
  have htable : (shortEscapes.all fun p =>
      decide (unescape 0x22 p.2 = if readable p.1 then [p.1] else [0x5C, p.2])) = true := by
    decide
  exact of_decide_eq_true (List.all_eq_true.mp htable p h)

/-- **One unit.** The scanner gives back what `readBackUnit` says. -/
theorem quoted_quoteUnit (c : UInt16) : Quoted (quoteUnit c) (readBackUnit c) := by
  intro rest
  unfold readBackUnit
  rcases quoteUnit_cases c with ⟨e, he, hq⟩ | ⟨hnot, hctl, hq⟩ | ⟨hnot, hle, hsur, hq⟩
  · rw [hq, List.cons_append, List.cons_append, List.nil_append, scanQuoted_escape,
      unescape_shortEscape he]
  · have hunreadable : readable c = false := by
      simp only [shortEscapes, List.map_cons, List.mem_cons, not_or] at hnot
      rcases hctl with hlt | hsur
      · simp [readable, UInt16.not_le.mpr hlt, hnot]
      · simp [readable, hsur]
    rw [hq, hunreadable]
    exact quoted_unicodeEscape c rest
  · have hreadable : readable c = true := by simp [readable, hsur, hle]
    simp only [shortEscapes, List.map_cons, List.mem_cons, not_or] at hnot
    rw [hq, hreadable]
    exact scanQuoted_plain hnot.2.2.2.2.2.2.1 hnot.2.2.2.2.2.1 rest

theorem quoted_pair {c d : UInt16} (h : (isHighSurrogate c && isLowSurrogate d) = true) :
    Quoted [c, d] [c, d] := by
  intro rest
  simp only [isHighSurrogate, isLowSurrogate, Bool.and_eq_true, decide_eq_true_eq] at h
  exact scanQuoted_plains (by
    intro e he
    simp only [List.mem_cons, List.not_mem_nil, or_false] at he
    rcases he with rfl | rfl <;> grind) rest

/-- **One quoted value.** The scanner reads `readBack`. -/
theorem quoted_quoteUnits (value : JsString) : Quoted (quoteUnits value) (readBack value) := by
  fun_induction quoteUnits value with
  | case1 => exact Quoted.nil
  | case2 c => exact quoted_quoteUnit c
  | case3 c d rest hpair ih =>
    rw [readBack, if_pos hpair]
    exact (quoted_pair hpair).append ih
  | case4 c d rest hpair ih =>
    rw [readBack, if_neg hpair]
    exact (quoted_quoteUnit c).append ih

/-! ## When a value is read back unchanged -/

theorem readBackUnit_length (c : UInt16) :
    (readBackUnit c).length = 1 ∧ readable c = true ∨
      1 < (readBackUnit c).length ∧ readable c = false := by
  unfold readBackUnit
  cases hr : readable c with
  | true => exact .inl ⟨rfl, rfl⟩
  | false =>
    refine .inr ⟨?_, rfl⟩
    rw [if_neg (by simp)]
    rcases quoteUnit_cases c with ⟨e, -, hq⟩ | ⟨-, -, hq⟩ | ⟨-, hle, hsur, -⟩
    · simp [hq]
    · obtain ⟨digits, hescape, hlen, -⟩ := unicodeEscape_eq c
      simp [hq, hescape]
    · simp [readable, hle, hsur] at hr

theorem readBackUnit_eq (c : UInt16) : readBackUnit c = [c] ↔ readable c = true := by
  constructor
  · intro h
    rcases readBackUnit_length c with ⟨-, hr⟩ | ⟨hlen, -⟩
    · exact hr
    · simp [h] at hlen
  · intro h
    rw [readBackUnit, if_pos h]

theorem length_le_readBack (value : JsString) : value.length ≤ (readBack value).length := by
  fun_induction readBack value with
  | case1 => simp
  | case2 c =>
    rcases readBackUnit_length c with ⟨hlen, -⟩ | ⟨hlen, -⟩ <;> simp [hlen.le, hlen]
  | case3 c d rest hpair ih => simpa using ih
  | case4 c d rest hpair ih =>
    simp only [List.length_cons, List.length_append] at ih ⊢
    rcases readBackUnit_length c with ⟨hlen, -⟩ | ⟨hlen, -⟩ <;> omega

theorem dotenvSafe_single (c : UInt16) : dotenvSafe [c] = readable c := by
  simp [dotenvSafe, isWellFormed, readable]

theorem dotenvSafe_pair {c d : UInt16} (h : (isHighSurrogate c && isLowSurrogate d) = true)
    (rest : JsString) : dotenvSafe (c :: d :: rest) = dotenvSafe rest := by
  have hc : (0x20 ≤ c) := by
    simp only [isHighSurrogate, Bool.and_eq_true, decide_eq_true_eq] at h
    grind
  have hd : (0x20 ≤ d) := by
    simp only [isLowSurrogate, Bool.and_eq_true, decide_eq_true_eq] at h
    grind
  simp [dotenvSafe, isWellFormed, h, hc, hd]

theorem dotenvSafe_cons {c d : UInt16} (h : ¬(isHighSurrogate c && isLowSurrogate d) = true)
    (rest : JsString) : dotenvSafe (c :: d :: rest) = (readable c && dotenvSafe (d :: rest)) := by
  simp only [dotenvSafe, isWellFormed, if_neg h, List.all_cons, readable]
  grind

/-- **A value survives exactly when it is dotenv-safe**: an escape the reader does not know
comes back longer than the unit it stands for. -/
theorem readBack_eq_iff (value : JsString) : readBack value = value ↔ dotenvSafe value = true := by
  fun_induction readBack value with
  | case1 => simp [dotenvSafe, isWellFormed]
  | case2 c => rw [dotenvSafe_single, readBackUnit_eq]
  | case3 c d rest hpair ih => simpa [dotenvSafe_pair hpair] using ih
  | case4 c d rest hpair ih =>
    rw [dotenvSafe_cons hpair, Bool.and_eq_true, ← ih]
    rcases readBackUnit_length c with ⟨-, hr⟩ | ⟨hlen, hr⟩
    · rw [(readBackUnit_eq c).mpr hr]
      simp [hr]
    · -- the text read for `c` is too long to be followed by the rest
      have hrest := length_le_readBack (d :: rest)
      simp only [hr, Bool.false_eq_true, false_and, iff_false]
      intro heq
      have hlength := congrArg List.length heq
      simp only [List.length_append, List.length_cons] at hlength hrest
      omega

/-! ## One line -/

theorem keyPattern_of_isIdentifier {key : JsString} (h : isIdentifier key = true) :
    keyPattern key = true := by
  have hstart : ∀ c, isIdentifierStart c = true → isKeyStart c = true := by
    intro c hc
    simpa [isKeyStart, isLetter, isIdentifierStart, isUpper, isLower] using hc
  cases key with
  | nil => simp [isIdentifier] at h
  | cons c rest =>
    simp only [isIdentifier, Bool.and_eq_true, List.all_eq_true] at h
    simp only [keyPattern, Bool.and_eq_true, List.all_eq_true]
    refine ⟨hstart c h.1, fun d hd => ?_⟩
    have hpart := h.2 d hd
    simp only [isIdentifierPart, Bool.or_eq_true] at hpart
    rcases hpart with hpart | hpart
    · simp [isKeyPart, hstart d hpart]
    · have hdigit : Dotenv.isDigit d = true := hpart
      simp [isKeyPart, hdigit]

/-- The line the writer prints for one entry. -/
def writtenLine (key value : JsString) : JsString := key ++ 0x3D :: jsonQuote value

theorem dotenvLine_eq {key : JsString} (h : isIdentifier key = true) (value : JsString) :
    dotenvLine (key, value) = .ok (writtenLine key value) := by
  simp [dotenvLine, exportableKey, h, writtenLine, bind, Except.bind]

/-- A written entry as the reader sees it. -/
def writtenEntry (entry : JsString × JsString) (h : isIdentifier entry.1 = true) :
    QuotedEntry where
  key := entry.1
  text := quoteUnits entry.2
  value := readBack entry.2
  pattern := keyPattern_of_isIdentifier h
  quoted := quoted_quoteUnits entry.2
  noBreak := quoteUnits_noBreak entry.2

/-! ## The whole file -/

theorem joinLines_eq (lines : List JsString) : joinLines lines = unlines lines := by
  unfold joinLines
  split
  · rename_i h
    simp [h, List.intercalate]
  · rename_i h
    exact intercalate_eq_unlines h

/-- The text of a dotenv export. -/
theorem serialize_dotenv (localeCompare : LocaleCompare) (secrets : ExportableRecord)
    (options : ExportOptions) :
    serializeSecretExport localeCompare secrets.toSecretRecord .dotenv options =
      .ok (unlines ((sortedEntries localeCompare secrets.toSecretRecord).map
        fun entry => writtenLine entry.1 entry.2)) := by
  have hkeys : ∀ entry ∈ sortedEntries localeCompare secrets.toSecretRecord,
      dotenvLine entry = .ok (writtenLine entry.1 entry.2) := fun entry he =>
    dotenvLine_eq (secrets.exportable entry ((sortedEntries_perm _ _).mem_iff.mp he)) entry.2
  simp only [serializeSecretExport, Except.mapM_eq_ok_of_forall hkeys, Functor.map, Except.map, joinLines_eq]

/-- **The whole file.** One entry for each secret, with the value `readBack` gives. -/
theorem parseDotenv_serialize (localeCompare : LocaleCompare) (secrets : ExportableRecord) :
    let entries := sortedEntries localeCompare secrets.toSecretRecord
    let parsed := parseDotenv (unlines (entries.map fun entry => writtenLine entry.1 entry.2))
    parsed.issues = [] ∧
      parsed.entries.map (fun entry => (entry.key, entry.value)) =
        entries.map fun entry => (entry.1, readBack entry.2) := by
  intro entries
  have hkeys : ∀ entry ∈ entries, isIdentifier entry.1 = true := fun entry he =>
    secrets.exportable entry ((sortedEntries_perm _ _).mem_iff.mp he)
  have hmap : ∀ {α : Type} (f : QuotedEntry → α) (g : JsString × JsString → α),
      (∀ entry h, f (writtenEntry entry h) = g entry) →
      (entries.pmap writtenEntry hkeys).map f = entries.map g := by
    intro α f g hfg
    rw [List.map_pmap, ← List.pmap_eq_map (fun _ _ => True.intro)]
    exact List.pmap_congr_left _ fun entry _ h _ => hfg entry h
  have hfile := parseDotenv_quotedLines (entries.pmap writtenEntry hkeys) (by
    rw [hmap _ (·.1) fun _ _ => rfl]
    exact sortedEntries_nodup localeCompare secrets.toSecretRecord)
  rwa [hmap _ (fun entry => writtenLine entry.1 entry.2) fun _ _ => rfl,
    hmap _ (fun entry => (entry.1, readBack entry.2)) fun _ _ => rfl] at hfile

/-! ## The round trip -/

/-- Reading the exported text back reports no issue and gives exactly the record. -/
def RoundTrips (localeCompare : LocaleCompare) (secrets : ExportableRecord)
    (options : ExportOptions) : Prop :=
  ∃ text, serializeSecretExport localeCompare secrets.toSecretRecord .dotenv options = .ok text ∧
    (parseDotenv text).issues = [] ∧
    ((parseDotenv text).entries.map fun entry => (entry.key, entry.value)).Perm secrets.entries

/-- One secret `A` whose value is the escape character U+001B. -/
def escapeRecord : ExportableRecord where
  entries := [(ofAscii "A", [0x1B])]
  nodup := by simp
  exportable := by decide

/-- The writer prints `A="\u001b"`, and the reader reports the six characters of the escape. -/
theorem escape_not_roundTrips : ¬ RoundTrips (fun _ _ => 0) escapeRecord ⟨false, none⟩ := by
  rintro ⟨text, htext, -, hperm⟩
  rw [serialize_dotenv] at htext
  rw [← Except.ok.inj htext, (parseDotenv_serialize _ escapeRecord).2] at hperm
  exact absurd hperm (by decide)

/-- **The exact condition of the dotenv round trip.** -/
theorem dotenv_roundTrips_iff (localeCompare : LocaleCompare) (secrets : ExportableRecord)
    (options : ExportOptions) :
    RoundTrips localeCompare secrets options ↔
      ∀ entry ∈ secrets.entries, dotenvSafe entry.2 = true := by
  have hperm := sortedEntries_perm localeCompare secrets.toSecretRecord
  obtain ⟨hissues, hentries⟩ := parseDotenv_serialize localeCompare secrets
  unfold RoundTrips
  simp only [serialize_dotenv, Except.ok.injEq, exists_eq_left', hissues, hentries, true_and]
  constructor
  · intro h entry he
    -- the key determines the entry, on both sides of the permutation
    have hread : (entry.1, readBack entry.2) ∈ secrets.entries :=
      h.subset (List.mem_map.mpr ⟨entry, hperm.mem_iff.mpr he, rfl⟩)
    have heq := List.inj_on_of_nodup_map secrets.nodup hread he rfl
    exact (readBack_eq_iff entry.2).mp (congrArg Prod.snd heq)
  · intro h
    have hmap : (sortedEntries localeCompare secrets.toSecretRecord).map
        (fun entry => (entry.1, readBack entry.2)) =
        sortedEntries localeCompare secrets.toSecretRecord := by
      refine (List.map_congr_left ?_).trans (List.map_id _)
      intro entry he
      rw [(readBack_eq_iff entry.2).mpr (h entry (hperm.mem_iff.mp he))]
      rfl
    rw [hmap]
    exact hperm

end Himitsu.Secrets
