import Himitsu.Library.Runs

/-!
# Comma-separated values

The format of RFC 4180 over any alphabet: records end with a line break, which the last one may lack;
fields are separated by commas; a field is quoted, and then holds any units with its quotes doubled,
or it is not, and then holds no quote, comma, CR or LF.

* `Dialect` — the units that the format is made of.
* `step`, `finish`, `parse` — a parser that reads one unit at a time.
* `quoteCell`, `encodeRow`, `encode` — a writer that quotes every field.
* `parse_encode` — what the writer wrote is read back, whatever the fields hold.
-/

set_option autoImplicit false

namespace Csv

open Runs

variable {α : Type} [DecidableEq α]

structure Dialect (α : Type) where
  quote : α
  comma : α
  cr : α
  lf : α
  comma_ne_quote : comma ≠ quote
  cr_ne_quote : cr ≠ quote
  cr_ne_comma : cr ≠ comma

/-! ## The parser -/

/-- Where in a record the parser is; `closing` is after a quote that ends the field or is the first
of two. -/
inductive Mode where
  | start
  | plain
  | quoted
  | closing
  | lineEnd
  deriving DecidableEq, Repr

/-- The records and the fields that have ended, and the field that has not. -/
structure State (α : Type) where
  records : List (List (List α))
  record : List (List α)
  cell : List α
  mode : Mode

def State.endCell (s : State α) (mode : Mode) : State α :=
  { s with record := s.record ++ [s.cell], cell := [], mode := mode }

def State.endRecord (s : State α) : State α :=
  { s with records := s.records ++ [s.record], record := [], mode := .start }

section

variable (d : Dialect α)

/-- A unit that ends a field. -/
def delimiter (s : State α) (c : α) : Option (State α) :=
  if c = d.comma then some (s.endCell .start)
  else if c = d.cr then some (s.endCell .lineEnd)
  else none

/-- A unit outside of quotes. -/
def unquoted (s : State α) (c : α) : Option (State α) :=
  if c = d.comma ∨ c = d.cr then delimiter d s c
  else if c = d.lf then none
  else some { s with cell := s.cell ++ [c], mode := .plain }

def step (s : State α) (c : α) : Option (State α) :=
  match s.mode with
  | .start => if c = d.quote then some { s with mode := .quoted } else unquoted d s c
  | .plain => if c = d.quote then none else unquoted d s c
  | .quoted =>
    if c = d.quote then some { s with mode := .closing }
    else some { s with cell := s.cell ++ [c] }
  | .closing =>
    if c = d.quote then some { s with cell := s.cell ++ [c], mode := .quoted }
    else delimiter d s c
  | .lineEnd => if c = d.lf then some s.endRecord else none

/-- The records at the end of the text. -/
def finish (s : State α) : Option (List (List (List α))) :=
  match s.mode with
  | .quoted | .lineEnd => none
  | .start =>
    -- after a line break there is no further record
    if s.record = [] then some s.records else some (s.records ++ [s.record ++ [s.cell]])
  | .plain | .closing => some (s.records ++ [s.record ++ [s.cell]])

def State.initial : State α := ⟨[], [], [], .start⟩

def parse (text : List α) : Option (List (List (List α))) :=
  (run (step d) .initial text).bind finish

/-! ## The writer -/

def escape (cell : List α) : List α :=
  cell.flatMap fun c => if c = d.quote then [c, c] else [c]

def quoteCell (cell : List α) : List α := d.quote :: escape d cell ++ [d.quote]

def encodeRow (row : List (List α)) : List α := [d.comma].intercalate (row.map (quoteCell d))

def encode (rows : List (List (List α))) : List α :=
  [d.cr, d.lf].intercalate (rows.map (encodeRow d)) ++ [d.cr, d.lf]

end

/-! ## Reading what was written -/

section

variable {d : Dialect α} {s : State α}

theorem run_cons_eq {s' : State α} {c : α} {text : List α} (h : step d s c = some s') :
    run (step d) s (c :: text) = run (step d) s' text := by
  rw [run, h, Option.bind_some]

/-- Inside quotes every unit is read as itself. -/
theorem run_escape (hmode : s.mode = .quoted) (cell : List α) (rest : List α) :
    run (step d) s (escape d cell ++ rest) =
      run (step d) { s with cell := s.cell ++ cell } rest := by
  induction cell generalizing s with
  | nil => rw [List.append_nil]; rfl
  | cons c cell ih =>
    have hnext : ∀ text, run (step d) s ((if c = d.quote then [c, c] else [c]) ++ text) =
        run (step d) { s with cell := s.cell ++ [c] } text := by
      intro text
      by_cases hc : c = d.quote
      · rw [if_pos hc]
        have hfirst : step d s c = some { s with mode := .closing } := by
          rw [step, hmode]
          exact if_pos hc
        have hsecond : step d { s with mode := .closing } c =
            some { s with cell := s.cell ++ [c], mode := .quoted } := if_pos hc
        rw [List.cons_append, List.singleton_append, run_cons_eq hfirst, run_cons_eq hsecond,
          ← hmode]
      · rw [if_neg hc, List.singleton_append]
        refine run_cons_eq ?_
        rw [step, hmode]
        exact if_neg hc
    rw [escape, List.flatMap_cons, List.append_assoc, hnext]
    refine (ih (s := { s with cell := s.cell ++ [c] }) hmode).trans ?_
    simp only [List.append_assoc, List.singleton_append]

/-- A quoted field. -/
theorem run_quoteCell (hmode : s.mode = .start) (cell rest : List α) :
    run (step d) s (quoteCell d cell ++ rest) =
      run (step d) { s with cell := s.cell ++ cell, mode := .closing } rest := by
  have hopen : step d s d.quote = some { s with mode := .quoted } := by
    rw [step, hmode]
    exact if_pos rfl
  rw [quoteCell, List.cons_append, List.cons_append, run_cons_eq hopen, List.append_assoc,
    run_escape rfl, List.singleton_append]
  exact run_cons_eq (if_pos rfl)

/-- A line of quoted fields ends a record. -/
theorem run_encodeRow (records : List (List (List α))) (record : List (List α)) (cell : List α)
    (cells : List (List α)) (rest : List α) :
    run (step d) ⟨records, record, [], .start⟩
        (encodeRow d (cell :: cells) ++ d.cr :: d.lf :: rest) =
      run (step d) ⟨records ++ [record ++ cell :: cells], [], [], .start⟩ rest := by
  induction cells generalizing record cell with
  | nil =>
    rw [encodeRow, List.map_singleton, List.intercalate_singleton, run_quoteCell rfl]
    have hcr : step d ⟨records, record, [] ++ cell, .closing⟩ d.cr =
        some ⟨records, record ++ [cell], [], .lineEnd⟩ := by
      rw [step]
      dsimp only
      rw [if_neg d.cr_ne_quote, delimiter, if_neg d.cr_ne_comma, if_pos rfl]
      rfl
    rw [run_cons_eq hcr]
    exact run_cons_eq (if_pos rfl)
  | cons next cells ih =>
    have hcomma : step d ⟨records, record, [] ++ cell, .closing⟩ d.comma =
        some ⟨records, record ++ [cell], [], .start⟩ := by
      rw [step]
      dsimp only
      rw [if_neg d.comma_ne_quote, delimiter, if_pos rfl]
      rfl
    have hrow : encodeRow d (cell :: next :: cells) =
        quoteCell d cell ++ d.comma :: encodeRow d (next :: cells) := by
      rw [encodeRow, List.map_cons, List.map_cons, List.intercalate_cons_cons, List.append_assoc]
      rfl
    rw [hrow, List.append_assoc, run_quoteCell rfl, List.cons_append, run_cons_eq hcomma, ih,
      List.append_assoc]
    rfl

theorem run_encode (records : List (List (List α))) {row : List (List α)}
    {rows : List (List (List α))} (h : ∀ r ∈ row :: rows, r ≠ []) :
    run (step d) ⟨records, [], [], .start⟩ (encode d (row :: rows)) =
      some ⟨records ++ row :: rows, [], [], .start⟩ := by
  induction rows generalizing records row with
  | nil =>
    obtain ⟨cell, cells, rfl⟩ := List.exists_cons_of_ne_nil (h row (List.mem_cons_self ..))
    rw [encode, List.map_singleton, List.intercalate_singleton, run_encodeRow]
    rfl
  | cons next rows ih =>
    obtain ⟨cell, cells, rfl⟩ := List.exists_cons_of_ne_nil (h row (List.mem_cons_self ..))
    have hlines : encode d ((cell :: cells) :: next :: rows) =
        encodeRow d (cell :: cells) ++ d.cr :: d.lf :: encode d (next :: rows) := by
      rw [encode, List.map_cons, List.map_cons, List.intercalate_cons_cons]
      simp only [List.append_assoc, List.cons_append, List.nil_append, encode, List.map_cons]
    rw [hlines, run_encodeRow, ih _ fun r hr => h r (List.mem_cons_of_mem _ hr),
      List.append_assoc]
    rfl

/-- **What was written is read back**: every record has a field, and there is a record. -/
theorem parse_encode {rows : List (List (List α))} (hrows : rows ≠ []) (h : ∀ r ∈ rows, r ≠ []) :
    parse d (encode d rows) = some rows := by
  obtain ⟨row, rows, rfl⟩ := List.exists_cons_of_ne_nil hrows
  rw [parse, State.initial, run_encode [] h]
  rfl

end

end Csv
