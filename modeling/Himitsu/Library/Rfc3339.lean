import Himitsu.Library.IsoDate

/-!
# RFC 3339 texts

`time.Parse` and `Time.Format` for the layout `time.RFC3339`.

* `read` — the parsed time; a fraction, which the layout does not name, is accepted after the
  seconds, and the hour may have one digit.
* `format` — the text in UTC with whole seconds.

Principal result: `read_format` — reading gives every formatted second back.
-/

set_option autoImplicit false

namespace Rfc3339

open JsString IsoDate

/-- `seconds` since 1970-01-01T00:00:00Z and nanoseconds, with the offset of the zone in seconds. -/
structure Time where
  seconds : Int
  nanos : Nat
  offset : Int
  deriving DecidableEq, Repr

/-! ## Fields -/

def isDigit (c : UInt16) : Bool := 0x30 ≤ c && c ≤ 0x39

/-- Exactly `width` digits. -/
def digits (width : Nat) (text : JsString) : Option (Nat × JsString) :=
  if (text.take width).length = width ∧ (text.take width).all isDigit then
    some (decimalValue (text.take width), text.drop width)
  else none

def literal (c : UInt16) : JsString → Option JsString
  | [] => none
  | d :: rest => if d = c then some rest else none

/-- An hour, which may have one digit only. -/
def hour (text : JsString) : Option (Nat × JsString) := (digits 2 text).or (digits 1 text)

/-- A fraction after a point or a comma; the digits after the ninth are dropped. -/
def fraction (text : JsString) : Nat × JsString :=
  match text with
  | c :: rest =>
    let fractional := rest.takeWhile isDigit
    if (c = 0x2E ∨ c = 0x2C) ∧ fractional ≠ [] then
      (decimalValue (fractional.take 9) * 10 ^ (9 - fractional.length),
        rest.drop fractional.length)
    else (0, text)
  | [] => (0, [])

/-- `Z` or the offset of a zone in seconds, to the end of the text. -/
def zone (text : JsString) : Option Int :=
  match text with
  | [0x5A] => some 0
  | sign :: rest => do
    let (hours, rest) ← digits 2 rest
    let rest ← literal 0x3A rest
    let (minutes, rest) ← digits 2 rest
    if rest = [] ∧ hours ≤ 24 ∧ minutes ≤ 60 then
      if sign = 0x2B then some ((hours * 60 + minutes) * 60 : Nat)
      else if sign = 0x2D then some (-((hours * 60 + minutes) * 60 : Nat))
      else none
    else none
  | [] => none

/-! ## Texts -/

/-- `time.Parse`. -/
def read (text : JsString) : Option Time := do
  let (year, text) ← digits 4 text
  let text ← literal 0x2D text
  let (month, text) ← digits 2 text
  let text ← literal 0x2D text
  let (day, text) ← digits 2 text
  let text ← literal 0x54 text
  let (hour, text) ← hour text
  let text ← literal 0x3A text
  let (minute, text) ← digits 2 text
  let text ← literal 0x3A text
  let (second, text) ← digits 2 text
  let (nanos, text) := fraction text
  let offset ← zone text
  let date : Date := ⟨year, month, day⟩
  -- The calendar has the date.
  if civil (daysFromCivil date) = date ∧ hour < 24 ∧ minute < 60 ∧ second < 60 then
    some ⟨daysFromCivil date * 86400 + (hour * 3600 + minute * 60 + second : Nat) - offset, nanos,
      offset⟩
  else none

/-- The time of day of a number of seconds. -/
def clock (seconds : Nat) : JsString :=
  0x54 :: pad 2 (seconds / 3600) ++ 0x3A :: pad 2 (seconds / 60 % 60) ++
    0x3A :: pad 2 (seconds % 60) ++ [0x5A]

/-- `Time.Format` of a time in UTC, in the years of four digits. -/
def format (seconds : Int) : JsString :=
  let date := civil (seconds / 86400)
  pad 4 date.year.toNat ++ 0x2D :: pad 2 date.month.toNat ++ 0x2D :: pad 2 date.day.toNat ++
    clock (seconds % 86400).toNat

/-- Whether a second lies in the years of four digits. -/
def hasFourDigitYear (seconds : Int) : Bool :=
  0 ≤ (civil (seconds / 86400)).year && (civil (seconds / 86400)).year ≤ 9999

/-- `Time.MarshalJSON` has a text for the time. -/
def Time.marshals (time : Time) : Bool :=
  hasFourDigitYear (time.seconds + time.offset) && time.offset.natAbs < 86400

/-- The time value of the text in ECMAScript, which has milliseconds. -/
def Time.millis (time : Time) : Int := time.seconds * 1000 + (time.nanos / 1000000 : Nat)

/-! ## Reading a formatted text -/

theorem isDigit_decimalDigit {d : Nat} (h : d < 10) : isDigit (decimalDigit d) = true := by
  have hvalue := decimalDigit_toNat h
  simp only [isDigit, Bool.and_eq_true, decide_eq_true_eq, UInt16.le_iff_toNat_le, hvalue]
  show 0x30 ≤ 0x30 + d ∧ 0x30 + d ≤ 0x39
  omega

theorem all_isDigit_pad (width n : Nat) : (pad width n).all isDigit = true := by
  induction width generalizing n with
  | zero => rfl
  | succ width ih =>
    rw [pad, List.all_append, ih, Bool.true_and]
    simp [isDigit_decimalDigit (Nat.mod_lt n (by omega : 0 < 10))]

theorem digits_pad {width n : Nat} (h : n < 10 ^ width) (rest : JsString) :
    digits width (pad width n ++ rest) = some (n, rest) := by
  have htake : (pad width n ++ rest).take width = pad width n := by
    rw [List.take_append_of_le_length (by simp), List.take_of_length_le (by simp)]
  have hdrop : (pad width n ++ rest).drop width = rest := by
    rw [List.drop_append_of_le_length (by simp), List.drop_of_length_le (by simp), List.nil_append]
  rw [digits, htake, hdrop, if_pos ⟨pad_length width n, all_isDigit_pad width n⟩,
    decimalValue_pad h]

theorem hour_pad {n : Nat} (h : n < 100) (rest : JsString) :
    hour (pad 2 n ++ rest) = some (n, rest) := by
  rw [hour, digits_pad (by omega), Option.some_or]

@[simp] theorem literal_cons (c : UInt16) (rest : JsString) :
    literal c (c :: rest) = some rest :=
  if_pos rfl

/-- **Reading gives every formatted second back.** -/
theorem read_format {seconds : Int} (h : hasFourDigitYear seconds = true) :
    read (format seconds) = some ⟨seconds, 0, 0⟩ := by
  simp only [hasFourDigitYear, Bool.and_eq_true, decide_eq_true_eq] at h
  obtain ⟨hdays, hmonth, hmonth', hday, hday'⟩ := civil_spec (seconds / 86400)
  have hclock : (seconds % 86400).toNat < 86400 := by omega
  have hdate : (⟨((civil (seconds / 86400)).year.toNat : Nat),
      ((civil (seconds / 86400)).month.toNat : Nat),
      ((civil (seconds / 86400)).day.toNat : Nat)⟩ : Date) = civil (seconds / 86400) := by
    rw [Int.toNat_of_nonneg h.1, Int.toNat_of_nonneg (by omega), Int.toNat_of_nonneg (by omega)]
  have hzone : zone [0x5A] = some 0 := rfl
  have hfraction : fraction [0x5A] = (0, [0x5A]) := rfl
  simp only [read, format, clock, List.append_assoc, List.cons_append]
  rw [digits_pad (by omega)]
  simp only [Option.bind_eq_bind, Option.bind_some, literal_cons]
  rw [digits_pad (by omega)]
  simp only [Option.bind_some, literal_cons]
  rw [digits_pad (by omega)]
  simp only [Option.bind_some, literal_cons]
  rw [hour_pad (by omega)]
  simp only [Option.bind_some, literal_cons]
  rw [digits_pad (by omega)]
  simp only [Option.bind_some, literal_cons]
  rw [digits_pad (by omega)]
  simp only [Option.bind_some, hfraction, hzone, hdate, hdays]
  rw [if_pos ⟨trivial, by omega, by omega, by omega⟩]
  congr 2
  omega

end Rfc3339
