import Himitsu.Library.JsString

/-!
# The dotenv reader

Model of `parseDotenv`, `parseQuoted`, `unquotedValue` and `buildDotenvPreview` of
`packages/imports/src/index.ts`.

* `scanQuoted` — the inner loop of `parseQuoted` over one line, escapes included;
  `parseQuoted` continues on the following lines.
* `parseLine` — one iteration of the loop of `parseDotenv`: the state after it and the index
  of the last line it consumed.  `parseFrom` is the loop; it passes over lines that a quoted
  value has consumed, as the source does by assigning `index`.

Principal results: `parseDotenv_wellFormed` — the entries of every parse have pairwise
distinct keys, and every key satisfies the key pattern.
-/

set_option autoImplicit false

namespace Himitsu.Dotenv

open JsString

structure DotenvEntry where
  key : JsString
  value : JsString
  line : Nat
  deriving DecidableEq, Repr

inductive DotenvIssueCode where
  | invalidAssignment
  | invalidKey
  | duplicateKey
  | unterminatedQuote
  | trailingContent
  deriving DecidableEq, Repr

structure DotenvIssue where
  line : Nat
  code : DotenvIssueCode
  message : JsString
  key : Option JsString
  deriving DecidableEq, Repr

structure DotenvParseResult where
  entries : List DotenvEntry
  issues : List DotenvIssue
  deriving DecidableEq, Repr

/-! ## Keys -/

def isLetter (c : UInt16) : Bool := (0x41 ≤ c && c ≤ 0x5A) || (0x61 ≤ c && c ≤ 0x7A)

def isDigit (c : UInt16) : Bool := 0x30 ≤ c && c ≤ 0x39

/-- `[A-Za-z_]`. -/
def isKeyStart (c : UInt16) : Bool := isLetter c || c == 0x5F

/-- `[A-Za-z0-9_.-]`. -/
def isKeyPart (c : UInt16) : Bool := isKeyStart c || isDigit c || c == 0x2E || c == 0x2D

/-- `keyPattern`: `/^[A-Za-z_][A-Za-z0-9_.-]*$/`. -/
def keyPattern : JsString → Bool
  | [] => false
  | c :: rest => isKeyStart c && rest.all isKeyPart

/-! ## Quoted values -/

/-- What the scanner appends for a reverse solidus followed by `next`. -/
def unescape (quote next : UInt16) : JsString :=
  if next = quote || next = 0x5C then [next]
  else if quote = 0x22 && next = 0x6E then [0x0A]
  else if quote = 0x22 && next = 0x72 then [0x0D]
  else if quote = 0x22 && next = 0x74 then [0x09]
  else [0x5C, next]

/-- The rest of one line inside a quoted value: the units it contributes and, when the quote
closes on this line, the text after it. -/
def scanQuoted (quote : UInt16) : JsString → JsString × Option JsString
  | [] => ([], none)
  | c :: rest =>
    if c = 0x5C then
      match rest with
      | [] => ([0x5C], none)
      | next :: rest' =>
        let scanned := scanQuoted quote rest'
        (unescape quote next ++ scanned.1, scanned.2)
    else if c = quote then ([], some rest)
    else
      let scanned := scanQuoted quote rest
      (c :: scanned.1, scanned.2)

structure QuotedValue where
  value : JsString
  finalLine : Nat
  trailing : JsString
  terminated : Bool
  deriving DecidableEq, Repr

/-- `parseQuoted`, from the line with index `lineIndex`, whose unread part is `text`;
`following` are the lines after it. -/
def parseQuoted (quote : UInt16) (lineIndex : Nat) (text : JsString)
    (following : List JsString) : QuotedValue :=
  let scanned := scanQuoted quote text
  match scanned.2, following with
  | some trailing, _ => ⟨scanned.1, lineIndex, trailing, true⟩
  | none, [] => ⟨scanned.1, lineIndex, [], false⟩
  | none, nextLine :: more =>
    let parsed := parseQuoted quote (lineIndex + 1) nextLine more
    { parsed with value := scanned.1 ++ 0x0A :: parsed.value }
termination_by structural following

/-- The loop of `unquotedValue`, before the final `trimEnd`. -/
def unquotedUnits : JsString → JsString
  | [] => []
  | c :: rest =>
    match c, rest with
    | 0x5C, 0x23 :: rest' => 0x23 :: unquotedUnits rest'
    | 0x23, _ => []
    | c, rest => c :: unquotedUnits rest

def unquotedValue (input : JsString) : JsString := trimEnd (unquotedUnits input)

/-! ## Lines -/

/-- The variables of `parseDotenv` that live across iterations. -/
structure State where
  entries : List DotenvEntry
  issues : List DotenvIssue
  seen : List JsString
  deriving DecidableEq, Repr

def State.initial : State := ⟨[], [], []⟩

def State.report (st : State) (issue : DotenvIssue) : State :=
  { st with issues := st.issues ++ [issue] }

def State.accept (st : State) (entry : DotenvEntry) : State :=
  { st with seen := entry.key :: st.seen, entries := st.entries ++ [entry] }

/-- `Line ${startLine}: ${text}`. -/
def lineMessage (startLine : Nat) (text : JsString) : JsString :=
  ofAscii "Line " ++ ofNat startLine ++ ofAscii ": " ++ text

def issueMessage (startLine : Nat) (key : JsString) : DotenvIssueCode → JsString
  | .invalidAssignment => lineMessage startLine (ofAscii "expected KEY=value")
  | .invalidKey => lineMessage startLine (ofAscii "invalid dotenv key")
  | .duplicateKey => lineMessage startLine (ofAscii "duplicate key " ++ key)
  | .unterminatedQuote => lineMessage startLine (ofAscii "unterminated quoted value for " ++ key)
  | .trailingContent =>
    lineMessage startLine (ofAscii "unexpected content after quoted value for " ++ key)

def issueFor (startLine : Nat) (code : DotenvIssueCode) (key : Option JsString) : DotenvIssue :=
  ⟨startLine, code, issueMessage startLine (key.getD []) code, key⟩

def isQuote (c : UInt16) : Bool := c == 0x22 || c == 0x27 || c == 0x60

/-- `assignment.slice(6).trimStart()` where the line starts with `export` and a blank. -/
def stripExport (assignment : JsString) : JsString :=
  if (ofAscii "export ").isPrefixOf assignment || (ofAscii "export\t").isPrefixOf assignment then
    trimStart (assignment.drop 6)
  else assignment

/-- The part of an iteration after the key has been accepted. -/
def parseValue (following : List JsString) (index : Nat) (key initial : JsString) (st : State) :
    State × Nat :=
  match initial with
  | quote :: text =>
    if isQuote quote then
      let parsed := parseQuoted quote index text following
      if !parsed.terminated then
        (st.report (issueFor (index + 1) .unterminatedQuote (some key)), parsed.finalLine)
      else
        let trailing := trim parsed.trailing
        if trailing ≠ [] ∧ trailing.head? ≠ some 0x23 then
          (st.report (issueFor (index + 1) .trailingContent (some key)), parsed.finalLine)
        else (st.accept ⟨key, parsed.value, index + 1⟩, parsed.finalLine)
    else (st.accept ⟨key, unquotedValue initial, index + 1⟩, index)
  | [] => (st.accept ⟨key, unquotedValue [], index + 1⟩, index)

/-- One iteration of the loop: the state after it and the index of the last consumed line. -/
def parseLine (line : JsString) (following : List JsString) (index : Nat) (st : State) :
    State × Nat :=
  let assignment := trimStart line
  if assignment = [] ∨ assignment.head? = some 0x23 then (st, index)
  else
    let assignment := stripExport assignment
    match assignment.idxOf? 0x3D with
    | none => (st.report (issueFor (index + 1) .invalidAssignment none), index)
    | some equals =>
      let key := trim (assignment.take equals)
      if !keyPattern key then
        (st.report (issueFor (index + 1) .invalidKey (if key = [] then none else some key)), index)
      else if key ∈ st.seen then
        (st.report (issueFor (index + 1) .duplicateKey (some key)), index)
      else parseValue following index key (trimStart (assignment.drop (equals + 1))) st

/-- The loop of `parseDotenv` from line `index`; lines before `resume` are already consumed. -/
def parseFrom (index resume : Nat) (st : State) : List JsString → State
  | [] => st
  | line :: following =>
    if index < resume then parseFrom (index + 1) resume st following
    else
      let (st', finalLine) := parseLine line following index st
      parseFrom (index + 1) (finalLine + 1) st' following

/-- `source.replace(/^\uFEFF/, "")`. -/
def stripByteOrderMark : JsString → JsString
  | 0xFEFF :: rest => rest
  | source => source

def parseDotenv (source : JsString) : DotenvParseResult :=
  let st := parseFrom 0 0 .initial (splitLines (stripByteOrderMark source))
  ⟨st.entries, st.issues⟩

/-! ## Every parse is well formed -/

/-- What the loop keeps: `seen` lists the accepted keys, which are distinct and well formed. -/
structure State.WellFormed (st : State) : Prop where
  seen : ∀ key, key ∈ st.seen ↔ key ∈ st.entries.map (·.key)
  nodup : (st.entries.map (·.key)).Nodup
  pattern : ∀ entry ∈ st.entries, keyPattern entry.key = true

theorem State.WellFormed.initial : State.initial.WellFormed :=
  ⟨by simp [State.initial], by simp [State.initial], by simp [State.initial]⟩

theorem State.WellFormed.report {st : State} (h : st.WellFormed) (issue : DotenvIssue) :
    (st.report issue).WellFormed :=
  ⟨h.seen, h.nodup, h.pattern⟩

theorem State.WellFormed.accept {st : State} (h : st.WellFormed) {entry : DotenvEntry}
    (hkey : keyPattern entry.key = true) (hnew : entry.key ∉ st.seen) :
    (st.accept entry).WellFormed where
  seen key := by simp [State.accept, h.seen, or_comm]
  nodup := by
    rw [h.seen] at hnew
    simp only [State.accept, List.map_append, List.map_cons, List.map_nil]
    refine h.nodup.append (by simp) ?_
    simpa using hnew
  pattern e he := by
    simp only [State.accept, List.mem_append, List.mem_singleton] at he
    rcases he with he | rfl
    · exact h.pattern e he
    · exact hkey

theorem parseValue_wellFormed {st : State} (h : st.WellFormed) {key : JsString}
    (hkey : keyPattern key = true) (hnew : key ∉ st.seen) (following : List JsString)
    (index : Nat) (initial : JsString) :
    (parseValue following index key initial st).1.WellFormed := by
  unfold parseValue
  split
  · split
    · dsimp only
      split
      · exact h.report _
      · split
        · exact h.report _
        · exact h.accept hkey hnew
    · exact h.accept hkey hnew
  · exact h.accept hkey hnew

theorem parseLine_wellFormed {st : State} (h : st.WellFormed) (line : JsString)
    (following : List JsString) (index : Nat) :
    (parseLine line following index st).1.WellFormed := by
  unfold parseLine
  dsimp only
  split
  · exact h
  · split
    · exact h.report _
    · split
      · exact h.report _
      · rename_i hkey
        split
        · exact h.report _
        · rename_i hnew
          exact parseValue_wellFormed h (by simpa using hkey) hnew _ _ _

theorem parseFrom_wellFormed {st : State} (h : st.WellFormed) (lines : List JsString)
    (index resume : Nat) : (parseFrom index resume st lines).WellFormed := by
  induction lines generalizing index resume st with
  | nil => exact h
  | cons line following ih =>
    unfold parseFrom
    split
    · exact ih h _ _
    · exact ih (parseLine_wellFormed h line following index) _ _

/-- **The entries of a parse have distinct keys, each matching the key pattern.** -/
theorem parseDotenv_wellFormed (source : JsString) :
    ((parseDotenv source).entries.map (·.key)).Nodup ∧
      ∀ entry ∈ (parseDotenv source).entries, keyPattern entry.key = true := by
  have h := parseFrom_wellFormed State.WellFormed.initial
    (splitLines (stripByteOrderMark source)) 0 0
  exact ⟨h.nodup, h.pattern⟩

/-! ## Preview -/

inductive Operation where
  | add
  | update
  deriving DecidableEq, Repr

structure DotenvPreviewEntry where
  key : JsString
  line : Nat
  operation : Operation
  deriving DecidableEq, Repr

structure DotenvPreview where
  entries : List DotenvPreviewEntry
  conflicts : List DotenvIssue
  adds : Nat
  updates : Nat
  conflictCount : Nat
  deriving DecidableEq, Repr

def buildDotenvPreview (parsed : DotenvParseResult) (existingKeys : List JsString) :
    DotenvPreview :=
  let entries := parsed.entries.map fun entry =>
    (⟨entry.key, entry.line, if entry.key ∈ existingKeys then .update else .add⟩ :
      DotenvPreviewEntry)
  let adds := (entries.filter (·.operation = .add)).length
  ⟨entries, parsed.issues, adds, entries.length - adds, parsed.issues.length⟩

end Himitsu.Dotenv
