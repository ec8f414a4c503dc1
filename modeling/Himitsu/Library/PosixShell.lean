import Himitsu.Library.JsString

/-!
# Tokens of the POSIX shell

The token recognition and the quoting rules of the shell command language (sections 2.2 and 2.3),
as far as they decide which characters of a text are taken literally.

* `Piece` — a character of a word that is literal, or one that asks for an expansion.
* `step`, `lex` — the scanner: unquoted, after a reverse solidus, in single and in double quotes.
* `simpleCommands` — the lines of a text that has no operator, as lists of words.
* `exportOperand` — the command `export NAME=value`.

Principal results: `lex_single`, `lex_apostrophe` — in single quotes every character but the
apostrophe stands for itself, and an apostrophe is written as `'\''`.
-/

set_option autoImplicit false

namespace PosixShell

open JsString

/-- A character of a word after quote removal. -/
inductive Piece where
  | literal (c : UInt16)
  | expansion (c : UInt16)
  deriving DecidableEq, Repr

abbrev Word := List Piece

inductive Token where
  | word (pieces : Word)
  | operator (c : UInt16)
  | newline
  deriving DecidableEq, Repr

/-- Where the scanner stands; the pieces are those of the word begun so far. After a reverse
solidus no word may have begun yet. -/
inductive Mode where
  | blank
  | comment
  | plain (word : Word)
  | escape (word : Option Word)
  | single (word : Word)
  | double (word : Word)
  | doubleEscape (word : Word)

/-! ## Characters -/

def isBlank (c : UInt16) : Bool := c == 0x20 || c == 0x09

/-- `|`, `&`, `;`, `<`, `>`, `(` and `)`. -/
def isOperator (c : UInt16) : Bool :=
  c == 0x7C || c == 0x26 || c == 0x3B || c == 0x3C || c == 0x3E || c == 0x28 || c == 0x29

/-- The dollar sign and the grave accent, which double quotes leave active. -/
def isSubstitution (c : UInt16) : Bool := c == 0x24 || c == 0x60

/-- What a word that is not quoted is expanded at: also `*`, `?`, `[` and `~`. -/
def isExpansion (c : UInt16) : Bool :=
  isSubstitution c || c == 0x2A || c == 0x3F || c == 0x5B || c == 0x7E

/-- What a reverse solidus escapes in double quotes. -/
def isEscapedInDouble (c : UInt16) : Bool := isSubstitution c || c == 0x22 || c == 0x5C

/-! ## The scanner -/

/-- A character outside of quotes after the pieces of a word, if one has begun. -/
def stepPlain (word : Option Word) (c : UInt16) : Mode × List Token :=
  let begun := word.getD []
  let ended := (word.map Token.word).toList
  if c = 0x0A then (.blank, ended ++ [.newline])
  else if isBlank c then (.blank, ended)
  else if isOperator c then (.blank, ended ++ [.operator c])
  else if c = 0x5C then (.escape word, [])
  else if c = 0x27 then (.single begun, [])
  else if c = 0x22 then (.double begun, [])
  else if isExpansion c then (.plain (begun ++ [.expansion c]), [])
  else (.plain (begun ++ [.literal c]), [])

def step : Mode → UInt16 → Mode × List Token
  | .blank, c => if c = 0x23 then (.comment, []) else stepPlain none c
  | .comment, c => if c = 0x0A then (.blank, [.newline]) else (.comment, [])
  | .plain word, c => stepPlain (some word) c
  -- A line feed after a reverse solidus continues the line.
  | .escape none, c => if c = 0x0A then (.blank, []) else (.plain [.literal c], [])
  | .escape (some word), c =>
    if c = 0x0A then (.plain word, []) else (.plain (word ++ [.literal c]), [])
  | .single word, c => if c = 0x27 then (.plain word, []) else (.single (word ++ [.literal c]), [])
  | .double word, c =>
    if c = 0x22 then (.plain word, [])
    else if c = 0x5C then (.doubleEscape word, [])
    else if isSubstitution c then (.double (word ++ [.expansion c]), [])
    else (.double (word ++ [.literal c]), [])
  | .doubleEscape word, c =>
    if c = 0x0A then (.double word, [])
    else if isEscapedInDouble c then (.double (word ++ [.literal c]), [])
    else (.double (word ++ [.literal 0x5C, .literal c]), [])

/-- The tokens at the end of the text, unless it ends in quotes. -/
def finish : Mode → Option (List Token)
  | .blank | .comment => some []
  | .plain word => some [.word word]
  | .escape word => some [.word (word.getD [] ++ [.literal 0x5C])]
  | .single _ | .double _ | .doubleEscape _ => none

def lex (mode : Mode) : JsString → Option (List Token)
  | [] => finish mode
  | c :: rest => (lex (step mode c).1 rest).map ((step mode c).2 ++ ·)

/-! ## Commands -/

/-- A line with a word is a simple command. -/
def endLine (line : List Word) : List (List Word) := if line = [] then [] else [line]

def commandsFrom (line : List Word) : List Token → Option (List (List Word))
  | [] => some (endLine line)
  | .newline :: tokens => (commandsFrom [] tokens).map (endLine line ++ ·)
  | .word word :: tokens => commandsFrom (line ++ [word]) tokens
  | .operator _ :: _ => none

/-- The simple commands of a text; one with an operator is more than a list of simple commands. -/
def simpleCommands (text : JsString) : Option (List (List Word)) :=
  (lex .blank text).bind (commandsFrom [])

/-- The text of a word that nothing is expanded in. -/
def literalText : Word → Option JsString
  | [] => some []
  | .literal c :: rest => (literalText rest).map (c :: ·)
  | .expansion _ :: _ => none

/-- A name, an equals sign and a value. -/
def assignment (text : JsString) : Option (JsString × JsString) :=
  match text.idxOf? 0x3D with
  | none => none
  | some n => some (text.take n, text.drop (n + 1))

/-- `export NAME=value`, where nothing is expanded. -/
def exportOperand : List Word → Option (JsString × JsString)
  | [command, operand] => do
    let command ← literalText command
    let operand ← literalText operand
    if command = ofAscii "export" then assignment operand else none
  | _ => none

theorem assignment_append {name : JsString} (hname : 0x3D ∉ name) (value : JsString) :
    assignment (name ++ 0x3D :: value) = some (name, value) := by
  have hequals : (name ++ 0x3D :: value).idxOf? 0x3D = some name.length := by
    induction name with
    | nil => simp [List.idxOf?_cons]
    | cons c name ih =>
      rw [List.mem_cons, not_or] at hname
      rw [List.cons_append, List.idxOf?_cons, ih hname.2]
      simp [Ne.symm hname.1]
  simp [assignment, hequals]

/-! ## Quoted text -/

theorem literalText_map (text : JsString) : literalText (text.map .literal) = some text := by
  induction text with
  | nil => rfl
  | cons c text ih => rw [List.map_cons, literalText, ih, Option.map_some]

@[simp] theorem lex_cons (mode : Mode) (c : UInt16) (rest : JsString) :
    lex mode (c :: rest) = (lex (step mode c).1 rest).map ((step mode c).2 ++ ·) := rfl

theorem map_nil_append (tokens : Option (List Token)) : tokens.map ([] ++ ·) = tokens := by
  cases tokens <;> rfl

/-- In single quotes a character stands for itself. -/
theorem lex_single {c : UInt16} (hc : c ≠ 0x27) (word : Word) (rest : JsString) :
    lex (.single word) (c :: rest) = lex (.single (word ++ [.literal c])) rest := by
  rw [lex_cons, step, if_neg hc]
  exact map_nil_append _

/-- An apostrophe closes the quotes, is escaped, and opens them again. -/
theorem lex_apostrophe (word : Word) (rest : JsString) :
    lex (.single word) (0x27 :: 0x5C :: 0x27 :: 0x27 :: rest) =
      lex (.single (word ++ [.literal 0x27])) rest := by
  simp [step, stepPlain, isBlank, isOperator]

/-- Characters outside of quotes that stand for themselves. -/
def isPlain (c : UInt16) : Bool :=
  !(c == 0x0A || isBlank c || isOperator c || c == 0x5C || c == 0x27 || c == 0x22 || isExpansion c)

theorem stepPlain_of_isPlain {c : UInt16} (hc : isPlain c = true) (word : Option Word) :
    stepPlain word c = (.plain (word.getD [] ++ [.literal c]), []) := by
  simp only [isPlain, Bool.not_eq_true', Bool.or_eq_false_iff, beq_eq_false_iff_ne] at hc
  obtain ⟨⟨⟨⟨⟨⟨hline, hblank⟩, hoperator⟩, hslash⟩, hsingle⟩, hdouble⟩, hexpansion⟩ := hc
  simp [stepPlain, hline, hblank, hoperator, hslash, hsingle, hdouble, hexpansion]

theorem lex_plain {text : JsString} (htext : ∀ c ∈ text, isPlain c = true) (word : Word)
    (rest : JsString) :
    lex (.plain word) (text ++ rest) = lex (.plain (word ++ text.map .literal)) rest := by
  induction text generalizing word with
  | nil => simp
  | cons c text ih =>
    have hc := stepPlain_of_isPlain (htext c (List.mem_cons_self ..)) (some word)
    rw [List.cons_append, lex_cons, step, hc, map_nil_append,
      ih fun d hd => htext d (List.mem_cons_of_mem _ hd)]
    simp

/-- A word begins with characters that stand for themselves. -/
theorem lex_begin {c : UInt16} {text : JsString} (hcomment : c ≠ 0x23)
    (htext : ∀ d ∈ c :: text, isPlain d = true) (rest : JsString) :
    lex .blank (c :: text ++ rest) = lex (.plain ((c :: text).map .literal)) rest := by
  have hc := stepPlain_of_isPlain (htext c (List.mem_cons_self ..)) none
  rw [List.cons_append, lex_cons, step, if_neg hcomment, hc, map_nil_append]
  exact lex_plain (fun d hd => htext d (List.mem_cons_of_mem _ hd)) [.literal c] rest

/-- A blank ends a word. -/
theorem lex_plain_blank {c : UInt16} (hc : isBlank c = true) (word : Word) (rest : JsString) :
    lex (.plain word) (c :: rest) = (lex .blank rest).map (.word word :: ·) := by
  have hline : c ≠ 0x0A := by
    rintro rfl
    cases hc
  rw [lex_cons, step, stepPlain, if_neg hline, if_pos hc]
  rfl

/-- The end of the line ends a word. -/
theorem lex_plain_newline (word : Word) (rest : JsString) :
    lex (.plain word) (0x0A :: rest) =
      (lex .blank rest).map fun tokens => .word word :: .newline :: tokens :=
  rfl

end PosixShell
