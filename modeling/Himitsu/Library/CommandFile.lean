import Himitsu.Library.JsString

/-!
# Command files

The multi-line form of the files through which a step hands names and values to a workflow runner:
a header line `NAME<<DELIMITER`, the lines of the value, and a line that is the delimiter.

* `splitHeader` — a header line is split at its first `<<`.
* `parse` — the names and values of a file, unless a header is malformed or a value is not closed.
* `recordText` — a name and a value as a writer writes them.
* `IsPlain` — the names that hold no `<<` and do not end in `<`, which are the names a parser can
  give (`parse_plain`).

Principal result: `parse_records` — records whose names are plain and whose delimiters are no lines
of their values are read back, in order.
-/

set_option autoImplicit false

namespace CommandFile

open JsString

/-- `<<`. -/
def separator : JsString := [0x3C, 0x3C]

def splitHeader : JsString → Option (JsString × JsString)
  | [] => none
  | c :: rest =>
    if separator.isPrefixOf (c :: rest) then some ([], rest.tail)
    else (splitHeader rest).map fun header => (c :: header.1, header.2)

/-- A value that is being read. -/
structure Pending where
  name : JsString
  delimiter : JsString
  lines : List JsString

def Pending.value (pending : Pending) : JsString := [0x0A].intercalate pending.lines

/-- What a header line begins: a name and a delimiter, neither of them empty. -/
def header (line : JsString) : Option Pending :=
  match splitHeader line with
  | none => none
  | some (name, delimiter) => if name = [] ∨ delimiter = [] then none else some ⟨name, delimiter, []⟩

/-- The rest of a file: after a value, and in the middle of one. -/
def parseFrom : Option Pending → List JsString → Option (List (JsString × JsString))
  | none, [] => some []
  | some _, [] => none
  | none, line :: rest =>
    if line = [] then parseFrom none rest
    else (header line).bind fun pending => parseFrom (some pending) rest
  | some pending, line :: rest =>
    if line = pending.delimiter then
      (parseFrom none rest).map ((pending.name, pending.value) :: ·)
    else parseFrom (some { pending with lines := pending.lines ++ [line] }) rest

def parse (text : JsString) : Option (List (JsString × JsString)) :=
  parseFrom none (text.splitOn 0x0A)

def recordText (name delimiter value : JsString) : JsString :=
  name ++ separator ++ delimiter ++ 0x0A :: value ++ 0x0A :: delimiter ++ [0x0A]

/-! ## Headers -/

/-- No `<<`, also not together with the first character of a separator. -/
def IsPlain (name : JsString) : Prop := ¬separator <:+: name ++ [0x3C]

theorem isPlain_nil : IsPlain [] := by
  unfold IsPlain
  decide

theorem isPlain_cons {c : UInt16} {name : JsString} :
    IsPlain (c :: name) ↔ ¬separator <+: c :: (name ++ [0x3C]) ∧ IsPlain name := by
  unfold IsPlain
  rw [List.cons_append, List.infix_cons_iff, not_or]

/-- A separator at the end of a plain name is not found earlier. -/
theorem separator_cons_iff (c : UInt16) (name delimiter : JsString) :
    separator <+: c :: (name ++ separator ++ delimiter) ↔
      separator <+: c :: (name ++ [0x3C]) := by
  cases name <;> simp [separator]

theorem splitHeader_append {name : JsString} (h : IsPlain name) (delimiter : JsString) :
    splitHeader (name ++ separator ++ delimiter) = some (name, delimiter) := by
  induction name with
  | nil => rfl
  | cons c name ih =>
    obtain ⟨hc, hname⟩ := isPlain_cons.mp h
    have hfirst : separator.isPrefixOf (c :: (name ++ separator ++ delimiter)) = false := by
      rw [← Bool.not_eq_true, List.isPrefixOf_iff_prefix, separator_cons_iff]
      exact hc
    rw [List.cons_append, List.cons_append, splitHeader, hfirst, ih hname]
    rfl

/-- **A header line gives a plain name.** -/
theorem splitHeader_plain {line name delimiter : JsString}
    (h : splitHeader line = some (name, delimiter)) :
    line = name ++ separator ++ delimiter ∧ IsPlain name := by
  induction line generalizing name with
  | nil => cases h
  | cons c line ih =>
    rw [splitHeader] at h
    split at h
    · rename_i hfirst
      cases h
      obtain ⟨rest, hrest⟩ := List.isPrefixOf_iff_prefix.mp hfirst
      refine ⟨?_, isPlain_nil⟩
      rw [← hrest]
      simp [separator] at hrest ⊢
      simp [← hrest.2]
    · rename_i hfirst
      obtain ⟨found, hfound, heq⟩ := Option.map_eq_some_iff.mp h
      cases heq
      obtain ⟨hline, hplain⟩ := ih hfound
      rw [List.isPrefixOf_iff_prefix, hline, separator_cons_iff] at hfirst
      exact ⟨by rw [hline]; rfl, isPlain_cons.mpr ⟨hfirst, hplain⟩⟩

theorem header_plain {line : JsString} {pending : Pending} (h : header line = some pending) :
    IsPlain pending.name := by
  unfold header at h
  split at h
  · cases h
  · rename_i name delimiter hsplit
    split at h
    · cases h
    · cases h
      exact (splitHeader_plain hsplit).2

/-- **The names that a parser gives are plain.** -/
theorem parseFrom_plain {pending : Option Pending} {lines : List JsString}
    {pairs : List (JsString × JsString)} (hpending : ∀ p ∈ pending, IsPlain p.name)
    (h : parseFrom pending lines = some pairs) : ∀ pair ∈ pairs, IsPlain pair.1 := by
  fun_induction parseFrom pending lines generalizing pairs with
  | case1 =>
    cases h
    simp
  | case2 => cases h
  | case3 rest ih => exact ih (by simp) h
  | case4 line rest hline ih =>
    obtain ⟨begun, hbegun, hrest⟩ := Option.bind_eq_some_iff.mp h
    exact ih begun (by simpa using header_plain hbegun) hrest
  | case5 pending rest ih =>
    obtain ⟨others, hothers, rfl⟩ := Option.map_eq_some_iff.mp h
    intro pair hpair
    rcases List.mem_cons.mp hpair with rfl | hpair
    · exact hpending pending rfl
    · exact ih (by simp) hothers pair hpair
  | case6 pending line rest hline ih => exact ih (by simpa using hpending) h

theorem parse_plain {text : JsString} {pairs : List (JsString × JsString)}
    (h : parse text = some pairs) : ∀ pair ∈ pairs, IsPlain pair.1 :=
  parseFrom_plain (by simp) h

/-! ## Reading records back -/

/-- The lines of a value, up to the delimiter. -/
theorem parseFrom_value (pending : Pending) {lines : List JsString}
    (h : pending.delimiter ∉ lines) (rest : List JsString) :
    parseFrom (some pending) (lines ++ pending.delimiter :: rest) =
      (parseFrom none rest).map
        ((pending.name, [0x0A].intercalate (pending.lines ++ lines)) :: ·) := by
  induction lines generalizing pending with
  | nil => simp [parseFrom, Pending.value]
  | cons line lines ih =>
    rw [List.mem_cons, not_or] at h
    rw [List.cons_append, parseFrom, if_neg (Ne.symm h.1),
      ih { pending with lines := pending.lines ++ [line] } h.2]
    simp

theorem infix_of_mem_intercalate {line : JsString} {lines : List JsString} (h : line ∈ lines) :
    line <:+: [0x0A].intercalate lines := by
  induction lines with
  | nil => cases h
  | cons first lines ih =>
    cases lines with
    | nil =>
      rw [List.mem_singleton] at h
      simp [h]
    | cons second lines =>
      rw [List.intercalate_cons_cons]
      rcases List.mem_cons.mp h with rfl | h
      · exact ⟨[], _, by rw [List.nil_append, List.append_assoc]⟩
      · exact (ih h).trans (List.suffix_append _ _).isInfix

/-- A line of a value is part of it. -/
theorem delimiter_not_line {delimiter value : JsString} (h : ¬delimiter <:+: value) :
    delimiter ∉ value.splitOn 0x0A := by
  intro hmem
  have hinfix := infix_of_mem_intercalate hmem
  rw [List.intercalate_splitOn] at hinfix
  exact h hinfix

/-- A record that a parser reads back. -/
structure Readable (name delimiter value : JsString) : Prop where
  name_ne : name ≠ []
  name_line : 0x0A ∉ name
  plain : IsPlain name
  delimiter_ne : delimiter ≠ []
  delimiter_line : 0x0A ∉ delimiter
  not_in_value : ¬delimiter <:+: value

theorem recordText_splitOn {name delimiter value : JsString} (h : Readable name delimiter value)
    (rest : JsString) :
    (recordText name delimiter value ++ rest).splitOn 0x0A =
      (name ++ separator ++ delimiter) ::
        (value.splitOn 0x0A ++ delimiter :: rest.splitOn 0x0A) := by
  have hheader : (0x0A : UInt16) ∉ name ++ separator ++ delimiter := by
    simp [h.name_line, h.delimiter_line, separator]
  have htext : recordText name delimiter value ++ rest =
      (name ++ separator ++ delimiter) ++ 0x0A :: (value ++ 0x0A :: (delimiter ++ 0x0A :: rest)) := by
    simp [recordText]
  rw [htext, List.splitOn_append_cons_self_of_not_mem hheader, List.splitOn_append_cons_self,
    List.splitOn_append_cons_self_of_not_mem h.delimiter_line]

/-- **One record is read back**, and what follows it is read on its own. -/
theorem parse_record {name delimiter value : JsString} (h : Readable name delimiter value)
    (rest : JsString) :
    parse (recordText name delimiter value ++ rest) = (parse rest).map ((name, value) :: ·) := by
  have hne : name ++ separator ++ delimiter ≠ [] := by simp [h.name_ne]
  have hheader : header (name ++ separator ++ delimiter) = some ⟨name, delimiter, []⟩ := by
    simp only [header, splitHeader_append h.plain, h.name_ne, h.delimiter_ne, or_self, if_false]
  have hvalue := parseFrom_value ⟨name, delimiter, []⟩ (delimiter_not_line h.not_in_value)
    (rest.splitOn 0x0A)
  rw [parse, recordText_splitOn h, parseFrom, if_neg hne, hheader, Option.bind_some, hvalue,
    List.nil_append, List.intercalate_splitOn]
  rfl

/-- A name, a delimiter and a value. -/
abbrev Entry := JsString × JsString × JsString

def recordsText (entries : List Entry) : JsString :=
  (entries.map fun entry => recordText entry.1 entry.2.1 entry.2.2).flatten

/-- **Records are read back**, in order. -/
theorem parse_records {entries : List Entry}
    (h : ∀ entry ∈ entries, Readable entry.1 entry.2.1 entry.2.2) :
    parse (recordsText entries) = some (entries.map fun entry => (entry.1, entry.2.2)) := by
  induction entries with
  | nil => rfl
  | cons entry entries ih =>
    have hrest := ih fun e he => h e (by simp [he])
    rw [recordsText, List.map_cons, List.flatten_cons, parse_record (h entry (by simp))]
    show (parse (recordsText entries)).map _ = _
    rw [hrest]
    rfl

end CommandFile
