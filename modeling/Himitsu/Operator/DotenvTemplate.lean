import Himitsu.Imports.DotenvLines
import Himitsu.Library.Utf8
import Himitsu.Operator.HimitsuSecret

/-!
# Reading a rendered dotenv template back

`renderDotenv` quotes a value with `strconv.Quote`, whose escapes are those of Go string literals;
the dotenv reader of `packages/imports` has a smaller table.  This module runs the reader on the
operator's output.

* `jsText` — a Go string as JavaScript sees it.
* `readRune` — what the reader reports for a quoted rune: the rune itself, or the characters of an
  escape that it does not know.
* `parseDotenv_renderDotenv` — the whole file.

Principal result: `renderDotenv_readable_iff` — a rendered map is read back unchanged exactly when
its values consist of runes that `strconv.IsPrint` accepts, line feeds, carriage returns and tabs.
-/

set_option autoImplicit false

namespace Himitsu.Operator

open GoText JsString Dotenv

/-! ## Go strings in JavaScript -/

def jsRunes (runes : List Char) : JsString := runes.flatMap fun r => Utf8.units r.toNat

def jsText (text : String) : JsString := jsRunes text.toList

@[simp] theorem jsRunes_cons (r : Char) (runes : List Char) :
    jsRunes (r :: runes) = Utf8.units r.toNat ++ jsRunes runes := rfl

theorem jsRunes_append (xs ys : List Char) : jsRunes (xs ++ ys) = jsRunes xs ++ jsRunes ys :=
  List.flatMap_append

theorem char_range (r : Char) : r.toNat < 0xD800 ∨ 0xDFFF < r.toNat ∧ r.toNat < 0x110000 :=
  r.valid

theorem units_ascii {n : Nat} (h : n < 0x80) : Utf8.units n = [n.toUInt16] :=
  if_pos (by omega)

theorem toUInt16_toNat {n : Nat} (h : n < 0x10000) : n.toUInt16.toNat = n := by
  rw [Nat.toUInt16_eq, UInt16.toNat_ofNat', Nat.mod_eq_of_lt h]

/-- The units of a rune that is not ASCII are not ASCII. -/
theorem units_not_ascii {r : Char} (h : 0x80 ≤ r.toNat) : ∀ c ∈ Utf8.units r.toNat, 0x80 ≤ c := by
  intro c hc
  rw [UInt16.le_iff_toNat_le]
  unfold Utf8.units at hc
  have hr := char_range r
  split at hc
  · rename_i hlt
    rw [List.mem_singleton.mp hc, toUInt16_toNat hlt]
    exact h
  · simp only [List.mem_cons, List.not_mem_nil, or_false] at hc
    have h80 : (0x80 : UInt16).toNat = 0x80 := rfl
    rcases hc with rfl | rfl
    · rw [toUInt16_toNat (by omega), h80]
      omega
    · rw [toUInt16_toNat (by omega), h80]
      omega

theorem units_append_inj {r r' : Char} {xs ys : JsString}
    (h : Utf8.units r.toNat ++ xs = Utf8.units r'.toNat ++ ys) : r = r' ∧ xs = ys := by
  have hr := char_range r
  have hr' := char_range r'
  have hval : r.toNat = r'.toNat ∧ xs = ys := by
    unfold Utf8.units at h
    split at h <;> split at h <;> simp only [List.cons_append, List.nil_append, List.cons.injEq] at h
    · have heq := congrArg UInt16.toNat h.1
      rw [toUInt16_toNat (by omega), toUInt16_toNat (by omega)] at heq
      exact ⟨heq, h.2⟩
    · have heq := congrArg UInt16.toNat h.1
      rw [toUInt16_toNat (by omega), toUInt16_toNat (by omega)] at heq
      omega
    · have heq := congrArg UInt16.toNat h.1
      rw [toUInt16_toNat (by omega), toUInt16_toNat (by omega)] at heq
      omega
    · have heq := congrArg UInt16.toNat h.1
      have heq' := congrArg UInt16.toNat h.2.1
      rw [toUInt16_toNat (by omega), toUInt16_toNat (by omega)] at heq heq'
      exact ⟨by omega, h.2.2⟩
  exact ⟨Char.toNat_inj.mp hval.1, hval.2⟩

theorem jsRunes_injective {xs ys : List Char} (h : jsRunes xs = jsRunes ys) : xs = ys := by
  have hne : ∀ r : Char, Utf8.units r.toNat ≠ [] := by
    intro r
    unfold Utf8.units
    split <;> simp
  induction xs generalizing ys with
  | nil =>
    cases ys with
    | nil => rfl
    | cons r ys => exact absurd (List.append_eq_nil_iff.mp h.symm).1 (hne r)
  | cons r xs ih =>
    cases ys with
    | nil => exact absurd (List.append_eq_nil_iff.mp h).1 (hne r)
    | cons r' ys =>
      obtain ⟨rfl, hrest⟩ := units_append_inj h
      rw [ih hrest]

theorem jsText_injective {a b : String} (h : jsText a = jsText b) : a = b :=
  String.toList_inj.mp (jsRunes_injective h)

/-! ## One rune -/

variable (printable : Char → Bool)

/-- Runes whose quoted form the reader undoes. -/
def readableRune (r : Char) : Bool :=
  isPrint printable r || r.toNat == 0x0A || r.toNat == 0x0D || r.toNat == 0x09

/-- What the reader reports for a quoted rune. -/
def readRune (r : Char) : List Char :=
  if readableRune printable r then [r] else quoteRune printable r

/-- The characters of an escape after the reverse solidus. -/
theorem hex_mem {width n : Nat} {c : Char} (h : c ∈ hex width n) :
    c.toNat < 0x80 ∧ 0x30 ≤ c.toNat ∧ c.toNat ≠ 0x5C := by
  have hdigit : ∀ d < 16, (Nat.digitChar d).toNat < 0x80 ∧ 0x30 ≤ (Nat.digitChar d).toNat ∧
      (Nat.digitChar d).toNat ≠ 0x5C := by decide
  have hdigits : ∀ m, ∀ c ∈ Nat.toDigits 16 m,
      c.toNat < 0x80 ∧ 0x30 ≤ c.toNat ∧ c.toNat ≠ 0x5C := by
    intro m
    induction m using Nat.strongRecOn with
    | ind m ih =>
      intro c hc
      rw [Nat.toDigits_eq_if (by omega)] at hc
      split at hc
      · rename_i hlt
        rw [List.mem_singleton.mp hc]
        exact hdigit m hlt
      · rename_i hge
        rcases List.mem_append.mp hc with hc | hc
        · exact ih (m / 16) (Nat.div_lt_self (by omega) (by omega)) c hc
        · rw [List.mem_singleton.mp hc]
          exact hdigit _ (Nat.mod_lt _ (by omega))
  unfold hex at h
  rcases List.mem_append.mp h with h | h
  · rw [List.eq_of_mem_replicate h]
    decide
  · exact hdigits n c h

theorem le_length_hex (width n : Nat) : width ≤ (hex width n).length := by
  unfold hex
  rw [List.length_append, List.length_replicate]
  omega

/-- How a rune is quoted: as it is, behind a reverse solidus, by an escape the reader knows, or by
one that it does not know, which is longer than the rune. -/
inductive QuotedRune (r : Char) : Prop where
  | plain (hprint : isPrint printable r = true) (hne : r.toNat ≠ 0x22 ∧ r.toNat ≠ 0x5C)
    (h : quoteRune printable r = [r])
  | escaped (hr : r.toNat = 0x22 ∨ r.toNat = 0x5C) (h : quoteRune printable r = ['\x5c', r])
  | known (e : Char) (hprint : isPrint printable r = false)
    (hr : (r.toNat, e) ∈ [(0x0A, 'n'), (0x0D, 'r'), (0x09, 't')])
    (h : quoteRune printable r = ['\x5c', e])
  | unknown (e : Char) (digits : List Char) (hreadable : readableRune printable r = false)
    (he : e ∈ ['a', 'b', 'f', 'v', 'x', 'u', 'U'])
    (hdigits : ∀ c ∈ digits, c.toNat < 0x80 ∧ 0x30 ≤ c.toNat ∧ c.toNat ≠ 0x5C)
    (hlong : (Utf8.units r.toNat).length < 2 + digits.length)
    (h : quoteRune printable r = '\x5c' :: e :: digits)

theorem toNat_quote_or_slash {r : Char} :
    (r = '\x22' ∨ r = '\x5c') ↔ r.toNat = 0x22 ∨ r.toNat = 0x5C := by
  rw [← Char.toNat_inj, ← Char.toNat_inj]
  rfl

theorem units_length_le (r : Char) :
    (Utf8.units r.toNat).length ≤ 2 ∧ (r.toNat < 0x10000 → (Utf8.units r.toNat).length = 1) := by
  unfold Utf8.units
  split
  · exact ⟨by simp, fun _ => rfl⟩
  · rename_i h
    exact ⟨by simp, fun hlt => absurd hlt h⟩

theorem quotedRune (r : Char) : QuotedRune printable r := by
  by_cases hspecial : r.toNat = 0x22 ∨ r.toNat = 0x5C
  · exact .escaped hspecial (by rw [quoteRune, if_pos (toNat_quote_or_slash.mpr hspecial)])
  by_cases hprint : isPrint printable r = true
  · exact .plain hprint (not_or.mp hspecial)
      (by rw [quoteRune, if_neg (toNat_quote_or_slash.not.mpr hspecial), if_pos hprint])
  have hunreadable : r.toNat ≠ 0x0A ∧ r.toNat ≠ 0x0D ∧ r.toNat ≠ 0x09 →
      readableRune printable r = false := by
    rintro ⟨hn, hr, ht⟩
    simp only [readableRune, Bool.or_eq_false_iff, beq_eq_false_iff_ne]
    exact ⟨⟨⟨by simpa using hprint, hn⟩, hr⟩, ht⟩
  have hone : r.toNat < 0x10000 → (Utf8.units r.toNat).length = 1 := (units_length_le r).2
  have hshort : r.toNat < 0x10000 → (Utf8.units r.toNat).length < 2 + ([] : List Char).length := by
    intro hlt
    rw [hone hlt]
    decide
  have hq := quoteRune.eq_def printable r
  rw [if_neg (toNat_quote_or_slash.not.mpr hspecial), if_neg hprint] at hq
  rw [Bool.not_eq_true] at hprint
  split at hq
  · rename_i h
    exact .unknown 'a' [] (hunreadable (by omega)) (by decide) (by simp) (hshort (by omega)) hq
  · rename_i h
    exact .unknown 'b' [] (hunreadable (by omega)) (by decide) (by simp) (hshort (by omega)) hq
  · rename_i h
    exact .unknown 'f' [] (hunreadable (by omega)) (by decide) (by simp) (hshort (by omega)) hq
  · rename_i h
    exact .known 'n' hprint (by simp [h]) hq
  · rename_i h
    exact .known 'r' hprint (by simp [h]) hq
  · rename_i h
    exact .known 't' hprint (by simp [h]) hq
  · rename_i h
    exact .unknown 'v' [] (hunreadable (by omega)) (by decide) (by simp) (hshort (by omega)) hq
  · rename_i hbel hbs hff hlf hcr ht hvt
    have hread := hunreadable ⟨hlf, hcr, ht⟩
    have hlen := (units_length_le r).1
    split at hq
    · refine .unknown 'x' (hex 2 r.toNat) hread (by decide) (fun _ => hex_mem) ?_ hq
      have := le_length_hex 2 r.toNat
      omega
    · split at hq
      · refine .unknown 'u' (hex 4 r.toNat) hread (by decide) (fun _ => hex_mem) ?_ hq
        have := le_length_hex 4 r.toNat
        omega
      · refine .unknown 'U' (hex 8 r.toNat) hread (by decide) (fun _ => hex_mem) ?_ hq
        have := le_length_hex 8 r.toNat
        omega

/-! ## Quoted text -/

theorem units_plain {r : Char} (hne : r.toNat ≠ 0x22 ∧ r.toNat ≠ 0x5C) :
    ∀ c ∈ Utf8.units r.toNat, c ≠ 0x5C ∧ c ≠ 0x22 := by
  intro c hc
  by_cases hascii : r.toNat < 0x80
  · rw [units_ascii hascii, List.mem_singleton] at hc
    rw [hc]
    constructor
    · intro heq
      have := congrArg UInt16.toNat heq
      rw [toUInt16_toNat (by omega)] at this
      exact hne.2 this
    · intro heq
      have := congrArg UInt16.toNat heq
      rw [toUInt16_toNat (by omega)] at this
      exact hne.1 this
  · have hle := units_not_ascii (by omega) c hc
    constructor <;> rintro rfl <;> revert hle <;> decide

theorem jsRunes_singleton (r : Char) : jsRunes [r] = Utf8.units r.toNat := by
  rw [jsRunes_cons]
  exact List.append_nil _

theorem quoted_plains {runes : List Char} (h : ∀ r ∈ runes, r.toNat ≠ 0x22 ∧ r.toNat ≠ 0x5C) :
    Quoted (jsRunes runes) (jsRunes runes) := by
  intro rest
  refine scanQuoted_plains (fun c hc => ?_) rest
  obtain ⟨r, hr, hc⟩ := List.mem_flatMap.mp hc
  exact units_plain (h r hr) c hc

/-- **One rune.** The reader reports `readRune`. -/
theorem quoted_quoteRune (r : Char) :
    Quoted (jsRunes (quoteRune printable r)) (jsRunes (readRune printable r)) := by
  have hslash : Utf8.units '\x5c'.toNat = [0x5C] := rfl
  cases quotedRune printable r with
  | plain hprint hne h =>
    rw [readRune, h, ite_self]
    exact quoted_plains fun c hc => List.mem_singleton.mp hc ▸ hne
  | escaped hr h =>
    have hascii : r.toNat < 0x80 := by omega
    have hread : readableRune printable r = true := by
      rcases hr with hr | hr <;> simp [readableRune, isPrint, hr]
    have hunits := units_ascii hascii
    have hunit : r.toNat.toUInt16 = 0x22 ∨ r.toNat.toUInt16 = 0x5C := by
      rcases hr with hr | hr <;> rw [hr]
      · exact .inl rfl
      · exact .inr rfl
    rw [readRune, hread, if_pos rfl, h, jsRunes_cons, jsRunes_singleton, hslash, hunits]
    intro rest
    simp only [List.cons_append, List.nil_append]
    rw [scanQuoted_escape]
    rcases hunit with hunit | hunit <;> rw [hunit] <;> rfl
  | known e hprint hr h =>
    have hread : readableRune printable r = true := by
      simp only [List.mem_cons, Prod.mk.injEq, List.not_mem_nil, or_false] at hr
      rcases hr with ⟨hr, -⟩ | ⟨hr, -⟩ | ⟨hr, -⟩ <;> simp [readableRune, hr]
    rw [readRune, hread, if_pos rfl, h, jsRunes_cons, jsRunes_singleton, jsRunes_singleton, hslash]
    simp only [List.mem_cons, Prod.mk.injEq, List.not_mem_nil, or_false] at hr
    intro rest
    rcases hr with ⟨hr, rfl⟩ | ⟨hr, rfl⟩ | ⟨hr, rfl⟩ <;> rw [hr] <;> exact scanQuoted_escape _ rest
  | unknown e digits hreadable he hdigits hlong h =>
    rw [readRune, hreadable, if_neg (by simp), h, jsRunes_cons, jsRunes_cons, hslash]
    have hunescape : ∃ u : UInt16, Utf8.units e.toNat = [u] ∧ unescape 0x22 u = [0x5C, u] := by
      simp only [List.mem_cons, List.not_mem_nil, or_false] at he
      rcases he with rfl | rfl | rfl | rfl | rfl | rfl | rfl <;> exact ⟨_, rfl, rfl⟩
    obtain ⟨u, hu, hunescape⟩ := hunescape
    have hplain : Quoted (jsRunes digits) (jsRunes digits) := by
      refine quoted_plains fun c hc => ?_
      obtain ⟨-, hle, hne⟩ := hdigits c hc
      exact ⟨by omega, hne⟩
    rw [hu]
    intro rest
    simp only [List.cons_append, List.nil_append]
    rw [scanQuoted_escape, hunescape, hplain]
    rfl

def readRunes (runes : List Char) : List Char := runes.flatMap (readRune printable)

theorem quoted_quoteRunes (runes : List Char) :
    Quoted (jsRunes (runes.flatMap (quoteRune printable))) (jsRunes (readRunes printable runes)) := by
  induction runes with
  | nil => exact Quoted.nil
  | cons r runes ih =>
    rw [readRunes, List.flatMap_cons, List.flatMap_cons, jsRunes_append, jsRunes_append]
    exact (quoted_quoteRune printable r).append ih

/-! ## When a value is read back unchanged -/

theorem readRune_length (r : Char) :
    readRune printable r = [r] ∧ readableRune printable r = true ∨
      (Utf8.units r.toNat).length < (jsRunes (readRune printable r)).length ∧
        readableRune printable r = false := by
  by_cases hread : readableRune printable r = true
  · exact .inl ⟨by rw [readRune, if_pos hread], hread⟩
  · rw [Bool.not_eq_true] at hread
    refine .inr ⟨?_, hread⟩
    rw [readRune, hread, if_neg (by simp)]
    cases quotedRune printable r with
    | plain hprint hne h => simp [readableRune, hprint] at hread
    | escaped hr h =>
      rcases hr with hr | hr <;> simp [readableRune, isPrint, hr] at hread
    | known e hprint hr h =>
      simp only [List.mem_cons, Prod.mk.injEq, List.not_mem_nil, or_false] at hr
      rcases hr with ⟨hr, -⟩ | ⟨hr, -⟩ | ⟨hr, -⟩ <;> simp [readableRune, hr] at hread
    | unknown e digits hreadable he hdigits hlong h =>
      have hlen : ∀ cs : List Char, cs.length ≤ (jsRunes cs).length := by
        intro cs
        induction cs with
        | nil => exact Nat.le_refl 0
        | cons c cs ih =>
          have hpos : 1 ≤ (Utf8.units c.toNat).length := by
            unfold Utf8.units
            split <;> simp
          rw [jsRunes_cons, List.length_append, List.length_cons]
          omega
      have hquoted := hlen (quoteRune printable r)
      rw [h] at hquoted ⊢
      simp only [List.length_cons] at hquoted
      omega

theorem length_le_readRunes (runes : List Char) :
    (jsRunes runes).length ≤ (jsRunes (readRunes printable runes)).length := by
  induction runes with
  | nil => exact Nat.le_refl 0
  | cons r runes ih =>
    rw [readRunes, List.flatMap_cons, jsRunes_append, jsRunes_cons, List.length_append,
      List.length_append]
    rw [readRunes] at ih
    rcases readRune_length printable r with ⟨h, -⟩ | ⟨h, -⟩
    · rw [h, jsRunes_singleton]
      omega
    · omega

/-- **A value survives exactly when all its runes are readable**: an escape that the reader does
not know comes back longer than the rune it stands for. -/
theorem readRunes_eq_iff (runes : List Char) :
    jsRunes (readRunes printable runes) = jsRunes runes ↔
      ∀ r ∈ runes, readableRune printable r = true := by
  induction runes with
  | nil => simp [readRunes]
  | cons r runes ih =>
    rw [readRunes, List.flatMap_cons, jsRunes_append, jsRunes_cons, List.forall_mem_cons, ← ih]
    rcases readRune_length printable r with ⟨h, hread⟩ | ⟨hlong, hread⟩
    · rw [h, jsRunes_singleton, List.append_cancel_left_eq]
      simp [hread, readRunes]
    · have hrest := length_le_readRunes printable runes
      rw [readRunes] at hrest
      simp only [hread, Bool.false_eq_true, false_and, iff_false]
      intro heq
      have hlength := congrArg List.length heq
      rw [List.length_append, List.length_append] at hlength
      omega

/-! ## The whole file -/

/-- A Go map whose keys match the key pattern of the importer. -/
structure ImportableMap where
  entries : List (String × String)
  nodup : (entries.map (·.1)).Nodup
  pattern : ∀ entry ∈ entries, keyPattern (jsText entry.1) = true

/-- The entries in the order of `renderDotenv`. -/
def ImportableMap.sorted (secrets : ImportableMap) : List (String × String) :=
  (sortStrings (secrets.entries.map Prod.fst)).map fun key =>
    (key, (secrets.entries.lookup key).getD "")

theorem ImportableMap.sorted_perm (secrets : ImportableMap) :
    secrets.sorted.Perm secrets.entries := by
  have hkeys : (sortStrings (secrets.entries.map Prod.fst)).Perm (secrets.entries.map Prod.fst) :=
    List.perm_insertionSort _ _
  refine (hkeys.map _).trans ?_
  rw [List.map_map]
  refine List.Perm.of_eq ((List.map_congr_left fun entry hentry => ?_).trans (List.map_id _))
  simp only [Function.comp, AssocList.lookup_of_mem secrets.nodup hentry, Option.getD_some, id]

/-- A quoted value stays on its line. -/
theorem quoteRunes_noBreak (runes : List Char) :
    ∀ c ∈ jsRunes (runes.flatMap (quoteRune printable)), JsString.noBreak c = true := by
  intro c hc
  obtain ⟨q, hq, hc⟩ := List.mem_flatMap.mp hc
  obtain ⟨r, -, hq⟩ := List.mem_flatMap.mp hq
  have hbreak : ∀ q : Char, q.toNat ≠ 0x0A ∧ q.toNat ≠ 0x0D →
      ∀ c ∈ Utf8.units q.toNat, JsString.noBreak c = true := by
    intro q hq c hc
    by_cases hascii : q.toNat < 0x80
    · rw [units_ascii hascii, List.mem_singleton] at hc
      have hnat := toUInt16_toNat (n := q.toNat) (by omega)
      rw [hc]
      simp only [JsString.noBreak, Bool.and_eq_true, bne_iff_ne, ne_eq]
      constructor
      · intro heq
        rw [heq] at hnat
        exact hq.1 hnat.symm
      · intro heq
        rw [heq] at hnat
        exact hq.2 hnat.symm
    · have hle := units_not_ascii (by omega) c hc
      exact noBreak_of_le (UInt16.le_trans (by decide) hle)
  refine hbreak q ?_ c hc
  cases quotedRune printable r with
  | plain hprint hne h =>
    rw [h, List.mem_singleton] at hq
    rw [hq]
    constructor <;> intro heq <;> simp [isPrint, heq] at hprint
  | escaped hr h =>
    simp only [h, List.mem_cons, List.not_mem_nil, or_false] at hq
    rcases hq with rfl | rfl
    · decide
    · omega
  | known e hprint hr h =>
    simp only [List.mem_cons, Prod.mk.injEq, List.not_mem_nil, or_false] at hr
    simp only [h, List.mem_cons, List.not_mem_nil, or_false] at hq
    rcases hq with rfl | rfl
    · decide
    · rcases hr with ⟨-, rfl⟩ | ⟨-, rfl⟩ | ⟨-, rfl⟩ <;> decide
  | unknown e digits hreadable he hdigits hlong h =>
    rw [h] at hq
    rcases List.mem_cons.mp hq with rfl | hq
    · decide
    rcases List.mem_cons.mp hq with rfl | hq
    · simp only [List.mem_cons, List.not_mem_nil, or_false] at he
      rcases he with rfl | rfl | rfl | rfl | rfl | rfl | rfl <;> decide
    · obtain ⟨-, hle, -⟩ := hdigits q hq
      omega

/-- A rendered entry as the reader sees it. -/
def renderedEntry (entry : String × String) (h : keyPattern (jsText entry.1) = true) :
    QuotedEntry where
  key := jsText entry.1
  text := jsRunes (entry.2.toList.flatMap (quoteRune printable))
  value := jsRunes (readRunes printable entry.2.toList)
  pattern := h
  quoted := quoted_quoteRunes printable entry.2.toList
  noBreak := quoteRunes_noBreak printable entry.2.toList

/-- A line of the file as the reader sees it. -/
def renderedLine (entry : String × String) : JsString :=
  quotedLine (jsText entry.1) (jsRunes (entry.2.toList.flatMap (quoteRune printable)))

theorem jsText_line (entry : String × String) :
    jsText (entry.1 ++ "=" ++ quote printable entry.2 ++ "\n") =
      renderedLine printable entry ++ [0x0A] := by
  have hequals : jsRunes "=".toList = [0x3D] := by decide
  have hfeed : jsRunes "\n".toList = [0x0A] := by decide
  have hmark : jsRunes ['\x22'] = [0x22] := by decide
  rw [jsText, String.toList_append, String.toList_append, String.toList_append, jsRunes_append,
    jsRunes_append, jsRunes_append, hequals, hfeed, quote, String.toList_ofList, jsRunes_append,
    jsRunes_cons, ← jsRunes_singleton, hmark]
  simp only [renderedLine, quotedLine, jsText, List.append_assoc, List.cons_append,
    List.nil_append]

theorem jsText_renderDotenv (secrets : ImportableMap) :
    jsText (renderDotenv printable secrets.entries) =
      unlines (secrets.sorted.map (renderedLine printable)) := by
  have hjoin : ∀ texts : List String, jsText (String.join texts) = (texts.map jsText).flatten := by
    intro texts
    rw [jsText, String.toList_join]
    induction texts with
    | nil => rfl
    | cons text texts ih =>
      rw [List.flatMap_cons, jsRunes_append, ih, List.map_cons, List.flatten_cons, jsText]
  rw [renderDotenv, hjoin, ImportableMap.sorted, unlines, List.map_map, List.map_map,
    List.map_map]
  exact congrArg List.flatten (List.map_congr_left fun key _ => jsText_line printable (key, _))

theorem ImportableMap.sorted_pattern (secrets : ImportableMap) :
    ∀ entry ∈ secrets.sorted, keyPattern (jsText entry.1) = true := fun entry h =>
  secrets.pattern entry (secrets.sorted_perm.mem_iff.mp h)

theorem ImportableMap.sorted_nodup (secrets : ImportableMap) :
    (secrets.sorted.map fun entry => jsText entry.1).Nodup := by
  have hkeys : (secrets.sorted.map (·.1)).Nodup :=
    (secrets.sorted_perm.map _).nodup_iff.mpr secrets.nodup
  have hmap := hkeys.map fun _ _ => jsText_injective
  rwa [List.map_map] at hmap

/-- The entries of the file, in order. -/
def ImportableMap.rendered (secrets : ImportableMap) : List QuotedEntry :=
  secrets.sorted.attach.map fun entry =>
    renderedEntry printable entry.1 (secrets.sorted_pattern entry.1 entry.2)

theorem ImportableMap.rendered_map {β : Type} (secrets : ImportableMap) (f : QuotedEntry → β)
    (g : String × String → β)
    (h : ∀ entry hkey, f (renderedEntry printable entry hkey) = g entry) :
    (secrets.rendered printable).map f = secrets.sorted.map g := by
  rw [rendered, List.map_map, ← List.attach_map_val (l := secrets.sorted) (f := g)]
  exact List.map_congr_left fun entry _ => h entry.1 _

/-- **The whole file.** The reader reports no issue and, in the order of the keys, what
`readRunes` makes of each value. -/
theorem parseDotenv_renderDotenv (secrets : ImportableMap) :
    let parsed := parseDotenv (jsText (renderDotenv printable secrets.entries))
    parsed.issues = [] ∧
      parsed.entries.map (fun entry => (entry.key, entry.value)) =
        secrets.sorted.map fun entry =>
          (jsText entry.1, jsRunes (readRunes printable entry.2.toList)) := by
  have hparsed := parseDotenv_quotedLines (secrets.rendered printable) (by
    rw [secrets.rendered_map printable _ (fun entry => jsText entry.1) fun _ _ => rfl]
    exact secrets.sorted_nodup)
  rw [secrets.rendered_map printable QuotedEntry.line (renderedLine printable) fun _ _ => rfl,
    secrets.rendered_map printable (fun entry => (entry.key, entry.value))
      (fun entry => (jsText entry.1, jsRunes (readRunes printable entry.2.toList)))
      fun _ _ => rfl] at hparsed
  rw [jsText_renderDotenv]
  exact hparsed

/-- The reader reports no issue, and its entries are exactly the map. -/
def ReadsBack (secrets : ImportableMap) : Prop :=
  let parsed := parseDotenv (jsText (renderDotenv printable secrets.entries))
  parsed.issues = [] ∧
    (parsed.entries.map fun entry => (entry.key, entry.value)).Perm
      (secrets.entries.map fun entry => (jsText entry.1, jsText entry.2))

/-- **A rendered map is read back unchanged exactly when its values are readable**: every rune is
one that `strconv.IsPrint` accepts, a line feed, a carriage return or a tab. -/
theorem renderDotenv_readable_iff (secrets : ImportableMap) :
    ReadsBack printable secrets ↔
      ∀ entry ∈ secrets.entries, ∀ r ∈ entry.2.toList, readableRune printable r = true := by
  obtain ⟨hissues, hentries⟩ := parseDotenv_renderDotenv printable secrets
  have hsorted := secrets.sorted_perm.map fun entry => (jsText entry.1, jsText entry.2)
  unfold ReadsBack
  simp only [hissues, hentries, true_and]
  constructor
  · intro hperm entry hentry
    -- The keys are distinct, so equal pairs come from one entry.
    have hmem : (jsText entry.1, jsRunes (readRunes printable entry.2.toList)) ∈
        secrets.entries.map fun entry => (jsText entry.1, jsText entry.2) :=
      hperm.mem_iff.mp (List.mem_map_of_mem
        (f := fun entry : String × String =>
          (jsText entry.1, jsRunes (readRunes printable entry.2.toList)))
        (secrets.sorted_perm.mem_iff.mpr hentry))
    obtain ⟨other, hother, heq⟩ := List.mem_map.mp hmem
    obtain ⟨hkey, hvalue⟩ := Prod.mk.inj heq
    have hsame : other = entry := by
      have hlookup := AssocList.lookup_of_mem secrets.nodup hother
      rw [jsText_injective hkey, AssocList.lookup_of_mem secrets.nodup hentry] at hlookup
      exact Prod.ext (jsText_injective hkey) (Option.some.inj hlookup).symm
    rw [hsame] at hvalue
    exact (readRunes_eq_iff printable entry.2.toList).mp hvalue.symm
  · intro hreadable
    have hvalues : (secrets.sorted.map fun entry =>
        (jsText entry.1, jsRunes (readRunes printable entry.2.toList))) =
          secrets.sorted.map fun entry => (jsText entry.1, jsText entry.2) := by
      refine List.map_congr_left fun entry hentry => ?_
      have hvalue := (readRunes_eq_iff printable entry.2.toList).mpr
        (hreadable entry (secrets.sorted_perm.mem_iff.mp hentry))
      rw [hvalue]
      rfl
    rw [hvalues]
    exact hsorted

/-- One key with a value that is the escape character. -/
def escapeMap : ImportableMap where
  entries := [("A", "\x1b")]
  nodup := by decide
  pattern := by decide

/-- The reader reports the four characters `\x1b`. -/
theorem escape_not_readsBack : ¬ ReadsBack (fun _ => true) escapeMap := by
  rintro ⟨-, hperm⟩
  rw [(parseDotenv_renderDotenv (fun _ => true) escapeMap).2] at hperm
  have hread : jsRunes (readRunes (fun _ => true) "\x1b".toList) = jsText "\x1b" :=
    congrArg Prod.snd (List.singleton_perm_singleton.mp hperm)
  have hescape := (readRunes_eq_iff (fun _ => true) "\x1b".toList).mp hread '\x1b' (by decide)
  exact absurd hescape (by decide)

end Himitsu.Operator
