import Himitsu.Imports.Dotenv

/-!
# Rejected assignments of a dotenv file

* `Report`, `readLine` — what one line reports, without its number, and how many of the lines after
  it a quoted value consumes.
* `reports` — the loop of `parseDotenv`: what each line of the file reports, if anything.
* `continuation` — how many lines the quoted value of an assignment goes on for.

Principal result: `localRejection_iff` — a rejected assignment stands for itself only when the lines
that its quoted value goes on for are blank or comments: the loop reads them as lines of the file.
-/

set_option autoImplicit false

namespace Himitsu.Dotenv

open JsString

/-! ## Lines without numbers -/

inductive Report where
  | entry (key value : JsString)
  | issue (code : DotenvIssueCode) (key : Option JsString)
  deriving DecidableEq, Repr

/-- `parseValue`, without the number of the line. -/
def readValue (following : List JsString) (key initial : JsString) : Report × Nat :=
  match initial with
  | quote :: text =>
    if isQuote quote then
      let parsed := parseQuoted quote 0 text following
      if !parsed.terminated then (.issue .unterminatedQuote (some key), parsed.finalLine)
      else
        let trailing := trim parsed.trailing
        if trailing ≠ [] ∧ trailing.head? ≠ some 0x23 then
          (.issue .trailingContent (some key), parsed.finalLine)
        else (.entry key parsed.value, parsed.finalLine)
    else (.entry key (unquotedValue initial), 0)
  | [] => (.entry key (unquotedValue []), 0)

/-- A line that the loop passes over. -/
def isBlankOrComment (line : JsString) : Bool :=
  trimStart line = [] || (trimStart line).head? = some 0x23

/-- `parseLine`, without the number of the line. -/
def readLine (seen : List JsString) (line : JsString) (following : List JsString) :
    Option Report × Nat :=
  if isBlankOrComment line then (none, 0)
  else
    let assignment := stripExport (trimStart line)
    match assignment.idxOf? 0x3D with
    | none => (some (.issue .invalidAssignment none), 0)
    | some equals =>
      let key := trim (assignment.take equals)
      if !keyPattern key then
        (some (.issue .invalidKey (if key = [] then none else some key)), 0)
      else if seen.contains key then (some (.issue .duplicateKey (some key)), 0)
      else
        let value := readValue following key (trimStart (assignment.drop (equals + 1)))
        (some value.1, value.2)

/-- The keys that the loop has seen after a report. -/
def seenAfter (seen : List JsString) : Option Report → List JsString
  | some (.entry key _) => key :: seen
  | _ => seen

/-- What each line reports, if the first `skip` lines are already consumed. -/
def reports (skip : Nat) (seen : List JsString) : List JsString → List (Option Report)
  | [] => []
  | line :: following =>
    match skip with
    | skip + 1 => none :: reports skip seen following
    | 0 =>
      let read := readLine seen line following
      read.1 :: reports read.2 (seenAfter seen read.1) following

/-! ## The loop reports its lines -/

/-- The entries and the issues of reports, of which the first is of line `line`. -/
def collect (line : Nat) : List (Option Report) → DotenvParseResult
  | [] => ⟨[], []⟩
  | none :: rest => collect (line + 1) rest
  | some (.entry key value) :: rest =>
    let result := collect (line + 1) rest
    ⟨⟨key, value, line⟩ :: result.entries, result.issues⟩
  | some (.issue code key) :: rest =>
    let result := collect (line + 1) rest
    ⟨result.entries, issueFor line code key :: result.issues⟩

def State.add (st : State) (line : Nat) : Option Report → State
  | none => st
  | some (.entry key value) => st.accept ⟨key, value, line⟩
  | some (.issue code key) => st.report (issueFor line code key)

theorem State.add_seen (st : State) (line : Nat) (report : Option Report) :
    (st.add line report).seen = seenAfter st.seen report := by
  rcases report with _ | (⟨key, value⟩ | ⟨code, key⟩) <;> rfl

section

variable {quote : UInt16} {text trailing : JsString}

theorem parseQuoted_closed (h : (scanQuoted quote text).2 = some trailing) (index : Nat)
    (following : List JsString) :
    parseQuoted quote index text following = ⟨(scanQuoted quote text).1, index, trailing, true⟩ := by
  rw [parseQuoted.eq_def]
  simp only [h]

theorem parseQuoted_open (h : (scanQuoted quote text).2 = none) (index : Nat) :
    parseQuoted quote index text [] = ⟨(scanQuoted quote text).1, index, [], false⟩ := by
  rw [parseQuoted.eq_def]
  simp only [h]

theorem parseQuoted_next (h : (scanQuoted quote text).2 = none) (index : Nat)
    (nextLine : JsString) (more : List JsString) :
    parseQuoted quote index text (nextLine :: more) =
      { parseQuoted quote (index + 1) nextLine more with
        value := (scanQuoted quote text).1 ++
          0x0A :: (parseQuoted quote (index + 1) nextLine more).value } := by
  rw [parseQuoted.eq_def]
  simp only [h]

end

theorem parseQuoted_shift (quote : UInt16) (index : Nat) (text : JsString)
    (following : List JsString) :
    parseQuoted quote index text following =
      { parseQuoted quote 0 text following with
        finalLine := index + (parseQuoted quote 0 text following).finalLine } := by
  induction following generalizing index text with
  | nil =>
    cases hscan : (scanQuoted quote text).2 with
    | some trailing => rw [parseQuoted_closed hscan, parseQuoted_closed hscan, Nat.add_zero]
    | none => rw [parseQuoted_open hscan, parseQuoted_open hscan, Nat.add_zero]
  | cons nextLine more ih =>
    cases hscan : (scanQuoted quote text).2 with
    | some trailing => rw [parseQuoted_closed hscan, parseQuoted_closed hscan, Nat.add_zero]
    | none =>
      rw [parseQuoted_next hscan, parseQuoted_next hscan, ih (index + 1), ih (0 + 1)]
      simp [Nat.add_assoc]

theorem parseValue_eq (following : List JsString) (index : Nat) (key initial : JsString)
    (st : State) :
    parseValue following index key initial st =
      (st.add (index + 1) (some (readValue following key initial).1),
        index + (readValue following key initial).2) := by
  cases initial with
  | nil => rfl
  | cons quote text =>
    simp only [parseValue, readValue]
    rw [parseQuoted_shift quote index]
    split
    · split
      · rfl
      · split <;> rfl
    · rfl

/-- **One iteration of the loop reports its line.** -/
theorem parseLine_eq (line : JsString) (following : List JsString) (index : Nat) (st : State) :
    parseLine line following index st =
      (st.add (index + 1) (readLine st.seen line following).1,
        index + (readLine st.seen line following).2) := by
  unfold parseLine readLine isBlankOrComment
  simp only [Bool.or_eq_true, decide_eq_true_eq, List.contains_iff_mem]
  split
  · rfl
  cases (stripExport (trimStart line)).idxOf? 0x3D with
  | none => rfl
  | some equals =>
    simp only
    split
    · rfl
    · split
      · rfl
      · rw [parseValue_eq]

theorem parseFrom_eq (lines : List JsString) (index resume : Nat) (st : State) :
    (parseFrom index resume st lines).entries =
        st.entries ++ (collect (index + 1) (reports (resume - index) st.seen lines)).entries ∧
      (parseFrom index resume st lines).issues =
        st.issues ++ (collect (index + 1) (reports (resume - index) st.seen lines)).issues := by
  induction lines generalizing index resume st with
  | nil => simp [parseFrom, reports, collect]
  | cons line following ih =>
    rw [parseFrom]
    split
    · rename_i hskip
      obtain ⟨skip, hskip⟩ : ∃ skip, resume - index = skip + 1 := ⟨resume - index - 1, by omega⟩
      rw [hskip, reports, collect]
      have hrest := ih (index + 1) resume st
      rwa [show resume - (index + 1) = skip by omega] at hrest
    · rename_i hskip
      rw [show resume - index = 0 by omega, parseLine_eq]
      have hrest := ih (index + 1) (index + (readLine st.seen line following).2 + 1)
        (st.add (index + 1) (readLine st.seen line following).1)
      rw [show index + (readLine st.seen line following).2 + 1 - (index + 1) =
        (readLine st.seen line following).2 by omega, State.add_seen] at hrest
      simp only [reports]
      refine ⟨hrest.1.trans ?_, hrest.2.trans ?_⟩ <;>
        rcases (readLine st.seen line following).1 with _ | (⟨key, value⟩ | ⟨code, key⟩) <;>
        simp [State.add, State.accept, State.report, collect]

/-- The lines of a source. -/
def sourceLines (source : JsString) : List JsString := splitLines (stripByteOrderMark source)

/-- What `parseDotenv` makes of the lines of a source. -/
def parseLines (lines : List JsString) : DotenvParseResult :=
  let st := parseFrom 0 0 .initial lines
  ⟨st.entries, st.issues⟩

theorem parseDotenv_eq_parseLines (source : JsString) :
    parseDotenv source = parseLines (sourceLines source) := rfl

/-- **The loop reports its lines.** -/
theorem parseLines_eq (lines : List JsString) : parseLines lines = collect 1 (reports 0 [] lines) := by
  have hrun := parseFrom_eq lines 0 0 .initial
  simp only [State.initial, List.nil_append, Nat.sub_self, Nat.zero_add] at hrun
  show (⟨_, _⟩ : DotenvParseResult) = _
  rw [State.initial, hrun.1, hrun.2]

theorem collect_append (line : Nat) (front back : List (Option Report)) :
    (collect line (front ++ back)).entries =
        (collect line front).entries ++ (collect (line + front.length) back).entries ∧
      (collect line (front ++ back)).issues =
        (collect line front).issues ++ (collect (line + front.length) back).issues := by
  induction front generalizing line with
  | nil => simp [collect]
  | cons report front ih =>
    have hrest := ih (line + 1)
    rw [Nat.add_assoc, Nat.add_comm 1] at hrest
    rcases report with _ | (⟨key, value⟩ | ⟨code, key⟩) <;> simp [collect, hrest]

/-- The lines that have an entry or an issue. -/
def reportedLines (result : DotenvParseResult) : List Nat :=
  result.entries.map (·.line) ++ result.issues.map (·.line)

theorem mem_collect_issues {line : Nat} {rs : List (Option Report)} {issue : DotenvIssue} :
    issue ∈ (collect line rs).issues ↔
      ∃ n code key, rs[n]? = some (some (.issue code key)) ∧ issue = issueFor (line + n) code key := by
  induction rs generalizing line with
  | nil => simp [collect]
  | cons report rs ih =>
    have hshift : ∀ n, line + 1 + n = line + (n + 1) := fun n => by omega
    constructor
    · intro h
      have hcases : (∃ code key, report = some (.issue code key) ∧ issue = issueFor line code key) ∨
          issue ∈ (collect (line + 1) rs).issues := by
        rcases report with _ | (⟨key, value⟩ | ⟨code, key⟩) <;> simp only [collect] at h
        · exact .inr h
        · exact .inr h
        · rcases List.mem_cons.mp h with h | h
          · exact .inl ⟨code, key, rfl, h⟩
          · exact .inr h
      rcases hcases with ⟨code, key, rfl, rfl⟩ | h
      · exact ⟨0, code, key, rfl, rfl⟩
      · obtain ⟨n, code, key, hn, hissue⟩ := ih.mp h
        exact ⟨n + 1, code, key, hn, by rw [hissue, hshift]⟩
    · rintro ⟨n, code, key, hn, rfl⟩
      cases n with
      | zero =>
        obtain rfl := Option.some.inj hn
        exact List.mem_cons_self ..
      | succ n =>
        have hrest : issueFor (line + (n + 1)) code key ∈ (collect (line + 1) rs).issues :=
          ih.mpr ⟨n, code, key, hn, by rw [hshift]⟩
        rcases report with _ | (⟨key, value⟩ | ⟨code, key⟩)
        · exact hrest
        · exact hrest
        · exact List.mem_cons_of_mem _ hrest

theorem mem_reportedLines {line m : Nat} {rs : List (Option Report)} :
    m ∈ reportedLines (collect line rs) ↔
      ∃ n report, rs[n]? = some (some report) ∧ m = line + n := by
  induction rs generalizing line with
  | nil => simp [collect, reportedLines]
  | cons report rs ih =>
    have hcons : m ∈ reportedLines (collect line (report :: rs)) ↔
        ((∃ r, report = some r) ∧ m = line) ∨ m ∈ reportedLines (collect (line + 1) rs) := by
      rcases report with _ | (⟨key, value⟩ | ⟨code, key⟩)
      · simp [collect, reportedLines]
      · simp [collect, reportedLines]
      · simp [collect, reportedLines, issueFor, or_left_comm]
    rw [hcons, ih]
    constructor
    · rintro (⟨⟨r, rfl⟩, rfl⟩ | ⟨n, r, hn, rfl⟩)
      · exact ⟨0, r, rfl, rfl⟩
      · exact ⟨n + 1, r, hn, by omega⟩
    · rintro ⟨n, r, hn, rfl⟩
      cases n with
      | zero => exact .inl ⟨⟨r, Option.some.inj hn⟩, rfl⟩
      | succ n => exact .inr ⟨n, r, hn, by omega⟩

/-! ## What a line consumes -/

/-- How many lines after the first the quoted value of an assignment goes on for. -/
def continuation (line : JsString) (following : List JsString) : Nat :=
  let assignment := stripExport (trimStart line)
  match assignment.idxOf? 0x3D with
  | none => 0
  | some equals =>
    match trimStart (assignment.drop (equals + 1)) with
    | quote :: text => if isQuote quote then (parseQuoted quote 0 text following).finalLine else 0
    | [] => 0

/-- Whether a line is rejected because of its key. -/
def Report.rejectsKey : Report → Bool
  | .issue .invalidKey _ | .issue .duplicateKey _ => true
  | _ => false

/-- A key that was accepted is not rejected for its value. -/
theorem readValue_rejectsKey (following : List JsString) (key initial : JsString) :
    (readValue following key initial).1.rejectsKey = false := by
  cases initial with
  | nil => rfl
  | cons quote text =>
    simp only [readValue]
    split
    · split
      · rfl
      · split <;> rfl
    · rfl

theorem readValue_consumed (following : List JsString) (key : JsString) (quote : UInt16)
    (text : JsString) :
    (readValue following key (quote :: text)).2 =
      if isQuote quote then (parseQuoted quote 0 text following).finalLine else 0 := by
  simp only [readValue]
  split
  · split
    · rfl
    · split <;> rfl
  · rfl

/-- An assignment that is rejected because of its key consumes its first line only. -/
theorem readLine_consumed {seen : List JsString} {line : JsString} {following : List JsString}
    {report : Report} (h : (readLine seen line following).1 = some report) :
    (readLine seen line following).2 =
      if report.rejectsKey then 0 else continuation line following := by
  unfold readLine at h ⊢
  split
  · rename_i hblank
    rw [if_pos hblank] at h
    cases h
  rename_i hblank
  rw [if_neg hblank] at h
  unfold continuation
  cases hequals : (stripExport (trimStart line)).idxOf? 0x3D with
  | none => simp only [hequals, ite_self]
  | some equals =>
    simp only [hequals] at h ⊢
    split
    · rename_i hkey
      rw [if_pos hkey] at h
      cases h
      rfl
    rename_i hkey
    rw [if_neg hkey] at h
    split
    · rename_i hseen
      rw [if_pos hseen] at h
      cases h
      rfl
    rename_i hseen
    rw [if_neg hseen] at h
    have hvalue := Option.some.inj h
    simp only at hvalue ⊢
    rw [← hvalue, readValue_rejectsKey]
    cases trimStart ((stripExport (trimStart line)).drop (equals + 1)) with
    | nil => rfl
    | cons quote text => exact readValue_consumed ..

theorem readLine_none_iff {seen : List JsString} {line : JsString} {following : List JsString} :
    (readLine seen line following).1 = none ↔ isBlankOrComment line = true := by
  unfold readLine
  split
  · rename_i hblank
    simp [hblank]
  · rename_i hblank
    simp only [hblank]
    cases (stripExport (trimStart line)).idxOf? 0x3D with
    | none => simp
    | some equals =>
      simp only
      split
      · simp
      · split <;> simp

/-! ## What lines before others report -/

theorem reports_skipped {skip : Nat} {seen : List JsString} {lines : List JsString} {n : Nat}
    {report : Report} (h : (reports skip seen lines)[n]? = some (some report)) : skip ≤ n := by
  induction lines generalizing skip n with
  | nil => simp [reports] at h
  | cons line following ih =>
    cases skip with
    | zero => exact Nat.zero_le n
    | succ skip =>
      cases n with
      | zero => simp [reports] at h
      | succ n => exact Nat.succ_le_succ (ih h)

/-- A quoted value that ends in some lines does not depend on the lines after them. -/
theorem parseQuoted_local (quote : UInt16) {front : List JsString} (line : JsString)
    (rest : List JsString) {text : JsString}
    (h : (parseQuoted quote 0 text (front ++ line :: rest)).finalLine ≤ front.length)
    (back : List JsString) :
    parseQuoted quote 0 text (front ++ back) = parseQuoted quote 0 text (front ++ line :: rest) := by
  induction front generalizing text with
  | nil =>
    cases hscan : (scanQuoted quote text).2 with
    | some trailing => rw [parseQuoted_closed hscan, parseQuoted_closed hscan]
    | none =>
      rw [List.nil_append, parseQuoted_next hscan, parseQuoted_shift] at h
      simp at h
  | cons next front ih =>
    cases hscan : (scanQuoted quote text).2 with
    | some trailing => rw [parseQuoted_closed hscan, parseQuoted_closed hscan]
    | none =>
      rw [List.cons_append, parseQuoted_next hscan, parseQuoted_shift] at h
      have hrest := @ih next (by simp at h; omega)
      rw [List.cons_append, List.cons_append, parseQuoted_next hscan, parseQuoted_next hscan,
        parseQuoted_shift quote (0 + 1), parseQuoted_shift quote (0 + 1), hrest]

theorem readValue_local {key initial : JsString} {front : List JsString} {next : JsString}
    {rest : List JsString}
    (h : (readValue (front ++ next :: rest) key initial).2 ≤ front.length) (back : List JsString) :
    readValue (front ++ back) key initial = readValue (front ++ next :: rest) key initial := by
  cases initial with
  | nil => rfl
  | cons quote text =>
    rw [readValue_consumed] at h
    simp only [readValue]
    split
    · rename_i hquote
      rw [if_pos hquote] at h
      rw [parseQuoted_local quote next rest h back]
    · rfl

theorem readLine_local {seen : List JsString} {line : JsString} {front : List JsString}
    {next : JsString} {rest : List JsString}
    (h : (readLine seen line (front ++ next :: rest)).2 ≤ front.length) (back : List JsString) :
    readLine seen line (front ++ back) = readLine seen line (front ++ next :: rest) := by
  unfold readLine at h ⊢
  split
  · rfl
  rename_i hblank
  rw [if_neg hblank] at h
  cases hequals : (stripExport (trimStart line)).idxOf? 0x3D with
  | none => simp only [hequals]
  | some equals =>
    simp only [hequals] at h ⊢
    split
    · rfl
    rename_i hkey
    rw [if_neg hkey] at h
    split
    · rfl
    rename_i hseen
    rw [if_neg hseen] at h
    rw [readValue_local h]

/-- The lines before a report report the same before any other lines. -/
theorem reports_front {front : List JsString} {line : JsString} {rest : List JsString}
    {skip : Nat} {seen : List JsString} {report : Report}
    (h : (reports skip seen (front ++ line :: rest))[front.length]? = some (some report)) :
    ∃ before seen', before.length = front.length ∧
      ∀ back, reports skip seen (front ++ back) = before ++ reports 0 seen' back := by
  induction front generalizing skip seen with
  | nil =>
    obtain rfl := Nat.le_zero.mp (reports_skipped h)
    exact ⟨[], seen, rfl, fun back => rfl⟩
  | cons first front ih =>
    cases skip with
    | succ skip =>
      obtain ⟨before, seen', hlength, hback⟩ := @ih skip seen h
      exact ⟨none :: before, seen', by rw [List.length_cons, hlength, List.length_cons],
        fun back => by rw [List.cons_append, reports, hback, List.cons_append]⟩
    | zero =>
      have hafter : (reports (readLine seen first (front ++ line :: rest)).2
          (seenAfter seen (readLine seen first (front ++ line :: rest)).1)
          (front ++ line :: rest))[front.length]? = some (some report) := h
      have hlocal := readLine_local (reports_skipped hafter)
      obtain ⟨before, seen', hlength, hback⟩ := ih hafter
      refine ⟨(readLine seen first (front ++ line :: rest)).1 :: before, seen',
        by rw [List.length_cons, hlength, List.length_cons], fun back => ?_⟩
      rw [List.cons_append, reports, hlocal back, hback, List.cons_append]

/-! ## Rejection -/

/-- What a parse says, up to the numbers of the lines. -/
def entriesOf (result : DotenvParseResult) : List (JsString × JsString) :=
  result.entries.map fun entry => (entry.key, entry.value)

def issuesOf (issues : List DotenvIssue) : List (DotenvIssueCode × Option JsString) :=
  issues.map fun issue => (issue.code, issue.key)

/-- The line with this index is rejected because of its key. -/
def IsRejected (lines : List JsString) (index : Nat) : Prop :=
  ∃ issue ∈ (parseLines lines).issues, issue.line = index + 1 ∧
    (issue.code = .invalidKey ∨ issue.code = .duplicateKey)

/-- The lines that the quoted value of the assignment at an index goes on for. -/
def continuationLines (lines : List JsString) (index : Nat) : List JsString :=
  match lines.drop index with
  | [] => []
  | line :: following => following.take (continuation line following)

/-- The lines without an assignment. -/
def withoutAssignment (lines : List JsString) (index : Nat) : List JsString :=
  lines.take index ++ lines.drop (index + 1 + (continuationLines lines index).length)

/-- A rejected assignment has no effect but its issue. -/
structure RejectedAlone (lines : List JsString) (index : Nat) : Prop where
  entries : entriesOf (parseLines lines) = entriesOf (parseLines (withoutAssignment lines index))
  issues : issuesOf ((parseLines lines).issues.filter (·.line ≠ index + 1)) =
    issuesOf (parseLines (withoutAssignment lines index)).issues

/-- Rejection is local, and nothing is read from inside a value that began on an earlier line. -/
structure LocalRejection (source : JsString) : Prop where
  rejected : ∀ index, IsRejected (sourceLines source) index → RejectedAlone (sourceLines source) index
  outside : ∀ index, index + 1 ∈ reportedLines (parseDotenv source) →
    ∀ line ∈ reportedLines (parseDotenv source), line ≤ index + 1 ∨
      index + 1 + (continuationLines (sourceLines source) index).length < line

/-- The lines that a rejected value goes on for are blank or comments. -/
def Contained (source : JsString) : Prop :=
  ∀ index, IsRejected (sourceLines source) index →
    ∀ line ∈ continuationLines (sourceLines source) index, isBlankOrComment line = true

/-- A line that reports something, between what the lines around it report. -/
structure ReportedAt (lines : List JsString) (index : Nat) (report : Report) (line : JsString)
    (rest : List JsString) (before : List (Option Report)) (seen : List JsString) : Prop where
  drop : lines.drop index = line :: rest
  length : before.length = index
  read : (readLine seen line rest).1 = some report
  front : ∀ back, reports 0 [] (lines.take index ++ back) = before ++ reports 0 seen back

theorem reports_length (skip : Nat) (seen : List JsString) (lines : List JsString) :
    (reports skip seen lines).length = lines.length := by
  induction lines generalizing skip seen with
  | nil => rfl
  | cons line following ih => cases skip <;> simp [reports, ih]

theorem reportedAt {lines : List JsString} {index : Nat} {report : Report}
    (h : (reports 0 [] lines)[index]? = some (some report)) :
    ∃ line rest before seen, ReportedAt lines index report line rest before seen := by
  have hindex : index < lines.length := by
    rw [← reports_length 0 [] lines]
    exact (List.getElem?_eq_some_iff.mp h).1
  obtain ⟨line, rest, hdrop⟩ : ∃ line rest, lines.drop index = line :: rest :=
    ⟨_, _, List.drop_eq_getElem_cons hindex⟩
  have hlines : lines.take index ++ line :: rest = lines := by
    rw [← hdrop, List.take_append_drop]
  have htake : (lines.take index).length = index := List.length_take_of_le hindex.le
  obtain ⟨before, seen, hlength, hfront⟩ := @reports_front (lines.take index) line rest 0 []
    report (by rw [hlines, htake]; exact h)
  rw [htake] at hlength
  refine ⟨line, rest, before, seen, hdrop, hlength, ?_, hfront⟩
  have hall := hfront (line :: rest)
  rw [hlines] at hall
  rw [hall, ← hlength, List.getElem?_append_right (Nat.le_refl _), Nat.sub_self] at h
  exact Option.some.inj h

section

variable {lines : List JsString} {index : Nat} {report : Report} {line : JsString}
  {rest : List JsString} {before : List (Option Report)} {seen : List JsString}

theorem ReportedAt.all (h : ReportedAt lines index report line rest before seen) :
    reports 0 [] lines = before ++ some report ::
      reports (if report.rejectsKey then 0 else continuation line rest)
        (seenAfter seen (some report)) rest := by
  have hall := h.front (lines.drop index)
  rw [List.take_append_drop, h.drop, reports, h.read, readLine_consumed h.read] at hall
  exact hall

theorem ReportedAt.continuationLines_eq (h : ReportedAt lines index report line rest before seen) :
    continuationLines lines index = rest.take (continuation line rest) := by
  rw [continuationLines, h.drop]

theorem ReportedAt.without (h : ReportedAt lines index report line rest before seen) :
    reports 0 [] (withoutAssignment lines index) =
      before ++ reports 0 seen (rest.drop (continuation line rest)) := by
  have hdrop : lines.drop (index + 1 + (continuationLines lines index).length) =
      rest.drop (continuation line rest) := by
    rw [Nat.add_assoc, ← List.drop_drop, h.drop, h.continuationLines_eq, Nat.add_comm 1,
      List.drop_succ_cons, List.length_take]
    rcases Nat.le_total (continuation line rest) rest.length with hle | hle
    · rw [Nat.min_eq_left hle]
    · rw [Nat.min_eq_right hle, List.drop_length, List.drop_of_length_le hle]
  rw [withoutAssignment, hdrop, h.front]

end

theorem isRejected_iff {lines : List JsString} {index : Nat} :
    IsRejected lines index ↔
      ∃ report, (reports 0 [] lines)[index]? = some (some report) ∧ report.rejectsKey = true := by
  unfold IsRejected
  rw [parseLines_eq]
  constructor
  · rintro ⟨issue, hissue, hline, hcode⟩
    obtain ⟨n, code, key, hn, rfl⟩ := mem_collect_issues.mp hissue
    have hindex : n = index := by
      simp only [issueFor] at hline
      omega
    subst hindex
    refine ⟨_, hn, ?_⟩
    rcases hcode with hcode | hcode <;> simp only [issueFor] at hcode <;> rw [hcode] <;> rfl
  · rintro ⟨report, hreport, hrejects⟩
    obtain ⟨code, key, rfl⟩ : ∃ code key, report = .issue code key := by
      cases report with
      | entry key value => cases hrejects
      | issue code key => exact ⟨code, key, rfl⟩
    refine ⟨issueFor (1 + index) code key, mem_collect_issues.mpr ⟨index, code, key, hreport, rfl⟩,
      Nat.add_comm 1 index, ?_⟩
    cases code <;> simp [Report.rejectsKey] at hrejects <;> simp [issueFor]

theorem mem_reportedLines_iff {lines : List JsString} {n : Nat} :
    n + 1 ∈ reportedLines (parseLines lines) ↔
      ∃ report, (reports 0 [] lines)[n]? = some (some report) := by
  rw [parseLines_eq, mem_reportedLines]
  constructor
  · rintro ⟨m, report, hm, heq⟩
    obtain rfl : m = n := by omega
    exact ⟨report, hm⟩
  · rintro ⟨report, hn⟩
    exact ⟨n, report, hn, by omega⟩

/-- Lines of which the first ones report nothing, although none is consumed. -/
theorem blank_of_silent {count : Nat} {seen : List JsString} {lines : List JsString}
    (h : ∀ n < count, ∀ report, (reports 0 seen lines)[n]? ≠ some (some report)) :
    ∀ line ∈ lines.take count, isBlankOrComment line = true := by
  induction count generalizing lines with
  | zero => simp
  | succ count ih =>
    cases lines with
    | nil => simp
    | cons line following =>
      have hnone : (readLine seen line following).1 = none := by
        cases hread : (readLine seen line following).1 with
        | none => rfl
        | some report => exact absurd (by simp [reports, hread]) (h 0 (Nat.succ_pos _) report)
      have hzero : (readLine seen line following).2 = 0 := by
        unfold readLine
        rw [if_pos (readLine_none_iff.mp hnone)]
      intro other hother
      rcases List.mem_cons.mp hother with rfl | hother
      · exact readLine_none_iff.mp hnone
      · refine ih (fun n hn report hreport => h (n + 1) (by omega) report ?_) other hother
        rw [reports, hnone, hzero]
        exact hreport

theorem reports_blank {count : Nat} {seen : List JsString} {lines : List JsString}
    (h : ∀ line ∈ lines.take count, isBlankOrComment line = true) :
    reports 0 seen lines =
      (lines.take count).map (fun _ => none) ++ reports 0 seen (lines.drop count) := by
  induction count generalizing lines with
  | zero => rfl
  | succ count ih =>
    cases lines with
    | nil => rfl
    | cons line following =>
      have hblank := h line (List.mem_cons_self ..)
      have hrest := ih fun other hother => h other (List.mem_cons_of_mem _ hother)
      have hread : readLine seen line following = (none, 0) := by
        unfold readLine
        rw [if_pos hblank]
      rw [reports, hread, List.take_succ_cons, List.map_cons, List.drop_succ_cons,
        List.cons_append]
      exact congrArg (none :: ·) hrest

/-- What the reports of a file say, up to the numbers of the lines. -/
def contents : List (Option Report) → List (JsString × JsString) ×
    List (DotenvIssueCode × Option JsString)
  | [] => ([], [])
  | none :: rest => contents rest
  | some (.entry key value) :: rest => ((key, value) :: (contents rest).1, (contents rest).2)
  | some (.issue code key) :: rest => ((contents rest).1, (code, key) :: (contents rest).2)

theorem contents_collect (line : Nat) (rs : List (Option Report)) :
    entriesOf (collect line rs) = (contents rs).1 ∧
      issuesOf (collect line rs).issues = (contents rs).2 := by
  induction rs generalizing line with
  | nil => exact ⟨rfl, rfl⟩
  | cons report rs ih =>
    obtain ⟨hentries, hissues⟩ := ih (line + 1)
    rcases report with _ | (⟨key, value⟩ | ⟨code, key⟩)
    · exact ⟨hentries, hissues⟩
    · exact ⟨congrArg ((key, value) :: ·) hentries, hissues⟩
    · exact ⟨hentries, congrArg ((code, key) :: ·) hissues⟩

theorem contents_append (front back : List (Option Report)) :
    contents (front ++ back) =
      ((contents front).1 ++ (contents back).1, (contents front).2 ++ (contents back).2) := by
  induction front with
  | nil => rfl
  | cons report front ih =>
    rcases report with _ | (⟨key, value⟩ | ⟨code, key⟩) <;>
      simp [contents, ih]

theorem contents_silent {α : Type} (lines : List α) :
    contents (lines.map fun _ => none) = ([], []) := by
  induction lines with
  | nil => rfl
  | cons line lines ih => exact ih

/-- The issues of other lines than the one with an issue. -/
theorem otherIssues {before after : List (Option Report)} {code : DotenvIssueCode}
    {key : Option JsString} {index : Nat} (hindex : before.length = index) :
    issuesOf ((collect 1 (before ++ some (.issue code key) :: after)).issues.filter
        (·.line ≠ index + 1)) = (contents (before ++ after)).2 := by
  have hbefore : (collect 1 before).issues.filter (·.line ≠ index + 1) =
      (collect 1 before).issues := by
    rw [List.filter_eq_self]
    intro issue hissue
    obtain ⟨n, code, key, hn, rfl⟩ := mem_collect_issues.mp hissue
    have hlt := (List.getElem?_eq_some_iff.mp hn).1
    refine decide_eq_true ?_
    show 1 + n ≠ index + 1
    omega
  have hafter : (collect (1 + index + 1) after).issues.filter (·.line ≠ index + 1) =
      (collect (1 + index + 1) after).issues := by
    rw [List.filter_eq_self]
    intro issue hissue
    obtain ⟨n, code, key, -, rfl⟩ := mem_collect_issues.mp hissue
    refine decide_eq_true ?_
    show 1 + index + 1 + n ≠ index + 1
    omega
  rw [(collect_append 1 before _).2, List.filter_append, hbefore, hindex, collect,
    List.filter_cons_of_neg (by simp [issueFor, Nat.add_comm]), hafter, issuesOf, List.map_append,
    contents_append]
  exact congrArg₂ (· ++ ·) (contents_collect 1 before).2 (contents_collect _ after).2

/-- A rejected assignment whose value goes on for blank lines and comments only. -/
theorem rejectedAlone_of_blank {lines : List JsString} {index : Nat}
    (h : IsRejected lines index)
    (hblank : ∀ line ∈ continuationLines lines index, isBlankOrComment line = true) :
    RejectedAlone lines index := by
  obtain ⟨report, hreport, hrejects⟩ := isRejected_iff.mp h
  obtain ⟨line, rest, before, seen, hat⟩ := reportedAt hreport
  obtain ⟨code, key, rfl⟩ : ∃ code key, report = .issue code key := by
    cases report with
    | entry key value => cases hrejects
    | issue code key => exact ⟨code, key, rfl⟩
  have hall := hat.all
  rw [if_pos hrejects] at hall
  rw [hat.continuationLines_eq] at hblank
  have hcontents : ∀ front, contents (front ++ reports 0 seen rest) =
      contents (front ++ reports 0 seen (rest.drop (continuation line rest))) := by
    intro front
    have hrest : reports 0 seen rest = _ := reports_blank hblank
    rw [hrest, contents_append, contents_append, contents_append, contents_silent]
    simp
  constructor
  · rw [parseLines_eq, parseLines_eq, hall, hat.without, (contents_collect 1 _).1,
      (contents_collect 1 _).1, ← hcontents]
    have hissue : (contents (before ++ some (.issue code key) :: reports 0 seen rest)).1 =
        (contents (before ++ reports 0 seen rest)).1 := by
      rw [contents_append, contents_append, contents]
    exact hissue
  · rw [parseLines_eq, parseLines_eq, hall, hat.without, (contents_collect 1 _).2, ← hcontents]
    exact otherIssues hat.length

/-- **Rejection is local if and only if rejected values go on for blank lines and comments.** -/
theorem localRejection_iff (source : JsString) : LocalRejection source ↔ Contained source := by
  constructor
  · rintro ⟨-, houtside⟩ index hrejected
    obtain ⟨report, hreport, hrejects⟩ := isRejected_iff.mp hrejected
    obtain ⟨line, rest, before, seen, hat⟩ := reportedAt hreport
    have hall := hat.all
    rw [if_pos hrejects] at hall
    rw [hat.continuationLines_eq]
    refine @blank_of_silent _ (seenAfter seen (some report)) _ fun n hn other hother => ?_
    have hline : index + 1 + n + 1 ∈ reportedLines (parseLines (sourceLines source)) := by
      rw [mem_reportedLines_iff]
      refine ⟨other, ?_⟩
      rw [hall, List.getElem?_append_right (by rw [hat.length]; omega), hat.length,
        show index + 1 + n - index = n + 1 by omega]
      exact hother
    have hlt : n < rest.length := by
      rw [← reports_length 0 (seenAfter seen (some report)) rest]
      exact (List.getElem?_eq_some_iff.mp hother).1
    have hcases := houtside index (mem_reportedLines_iff.mpr ⟨report, hreport⟩) _ hline
    rw [hat.continuationLines_eq, List.length_take] at hcases
    omega
  · intro hcontained
    refine ⟨fun index hrejected => rejectedAlone_of_blank hrejected (hcontained index hrejected),
      fun index hindex line hline => ?_⟩
    rw [parseDotenv_eq_parseLines] at hindex hline
    obtain ⟨report, hreport⟩ := mem_reportedLines_iff.mp hindex
    obtain ⟨first, rest, before, seen, hat⟩ := reportedAt hreport
    rcases Nat.lt_or_ge (index + 1) line with hlt | hle
    · obtain ⟨n, rfl⟩ : ∃ n, line = index + 1 + n + 1 := ⟨line - index - 2, by omega⟩
      obtain ⟨other, hother⟩ := mem_reportedLines_iff.mp hline
      rw [hat.all, List.getElem?_append_right (by rw [hat.length]; omega), hat.length,
        show index + 1 + n - index = n + 1 by omega, List.getElem?_cons_succ] at hother
      have hcount : (continuationLines (sourceLines source) index).length ≤ n := by
        by_cases hrejects : report.rejectsKey = true
        · have hblank := hcontained index (isRejected_iff.mpr ⟨report, hreport, hrejects⟩)
          rw [hat.continuationLines_eq] at hblank ⊢
          rw [if_pos hrejects, reports_blank hblank] at hother
          by_contra hn
          rw [List.getElem?_append_left (by rw [List.length_map]; omega), List.getElem?_map] at hother
          cases hline : (rest.take (continuation first rest))[n]? <;> rw [hline] at hother <;>
            cases hother
        · rw [if_neg hrejects] at hother
          rw [hat.continuationLines_eq, List.length_take]
          have hskip := reports_skipped hother
          omega
      exact .inr (by omega)
    · exact .inl hle

/-- The second line is inside the value of a key that the file has already, and becomes an entry. -/
def duplicateWithValue : JsString := ofAscii "A=1\nA='x\nB=2'"

theorem duplicateWithValue_not_local : ¬ LocalRejection duplicateWithValue := by
  intro h
  have hline := h.outside 1 (by decide +kernel) 3 (by decide +kernel)
  revert hline
  decide +kernel

end Himitsu.Dotenv
