import Himitsu.Library.JsString

/-!
# ISO date-time texts

Time values are milliseconds since 1970-01-01T00:00:00Z.

* `civil`, `daysFromCivil` — the proleptic Gregorian date of a day number, and back.
* `toISOString` — `Date.prototype.toISOString`.
* `readISOString` — the time value of a text of that format.

Principal result: `readISOString_toISOString` — reading gives every time value of the
language's range back.
-/

set_option autoImplicit false

namespace IsoDate

open JsString

/-! ## Dates -/

structure Date where
  year : Int
  month : Int
  day : Int
  deriving DecidableEq, Repr

/-- Days of a 400-year era before the year `yearOfEra`, which starts on the first of March. -/
def eraDays (yearOfEra : Int) : Int := yearOfEra * 365 + yearOfEra / 4 - yearOfEra / 100

/-- Centuries, then four-year cycles, then years; the last of each may be a day longer. -/
def yearOfEra (dayOfEra : Int) : Int :=
  let century := min 3 (dayOfEra / 36524)
  let dayOfCentury := dayOfEra - century * 36524
  let cycle := dayOfCentury / 1461
  let dayOfCycle := dayOfCentury - cycle * 1461
  100 * century + 4 * cycle + min 3 (dayOfCycle / 365)

/-- Months are counted from March. -/
def monthOfYear (dayOfYear : Int) : Int := (5 * dayOfYear + 2) / 153

def monthDays (month : Int) : Int := (153 * month + 2) / 5

def dateOf (era year dayOfYear : Int) : Date :=
  let month := monthOfYear dayOfYear
  ⟨year + era * 400 + (if month < 10 then 0 else 1), if month < 10 then month + 3 else month - 9,
    dayOfYear - monthDays month + 1⟩

/-- The date of a day number. -/
def civil (days : Int) : Date :=
  let dayOfEra := (days + 719468) % 146097
  let year := yearOfEra dayOfEra
  dateOf ((days + 719468) / 146097) year (dayOfEra - eraDays year)

def daysFromCivil (date : Date) : Int :=
  let year := if date.month ≤ 2 then date.year - 1 else date.year
  let month := if date.month ≤ 2 then date.month + 9 else date.month - 3
  year / 400 * 146097 + (eraDays (year % 400) + (monthDays month + date.day - 1)) - 719468

theorem yearOfEra_spec {dayOfEra : Int} (h : 0 ≤ dayOfEra ∧ dayOfEra < 146097) :
    0 ≤ yearOfEra dayOfEra ∧ yearOfEra dayOfEra < 400 ∧
      0 ≤ dayOfEra - eraDays (yearOfEra dayOfEra) ∧
      dayOfEra - eraDays (yearOfEra dayOfEra) ≤ 365 := by
  simp only [eraDays, yearOfEra]
  obtain ⟨c, hc⟩ : ∃ c, c = min 3 (dayOfEra / 36524) := ⟨_, rfl⟩
  obtain ⟨q, hq⟩ : ∃ q, q = (dayOfEra - c * 36524) / 1461 := ⟨_, rfl⟩
  obtain ⟨r, hr⟩ : ∃ r, r = min 3 ((dayOfEra - c * 36524 - q * 1461) / 365) := ⟨_, rfl⟩
  have hc' : 0 ≤ c ∧ c ≤ 3 ∧ c * 36524 ≤ dayOfEra ∧ dayOfEra ≤ c * 36524 + 36524 ∧
      (c < 3 → dayOfEra < c * 36524 + 36524) := by omega
  have hq' : 0 ≤ q ∧ q ≤ 24 := by omega
  have hr' : 0 ≤ r ∧ r ≤ 3 := by omega
  have hquarter : (100 * c + 4 * q + r) / 4 = 25 * c + q := by omega
  have hcentury : (100 * c + 4 * q + r) / 100 = c := by omega
  rw [← hc, ← hq, ← hr, hquarter, hcentury]
  omega

theorem monthOfYear_spec {dayOfYear : Int} (h : 0 ≤ dayOfYear ∧ dayOfYear ≤ 365) :
    0 ≤ monthOfYear dayOfYear ∧ monthOfYear dayOfYear < 12 ∧
      0 ≤ dayOfYear - monthDays (monthOfYear dayOfYear) ∧
      dayOfYear - monthDays (monthOfYear dayOfYear) < 31 := by
  unfold monthDays monthOfYear
  omega

theorem dateOf_spec (era : Int) {year dayOfYear : Int} (hy : 0 ≤ year ∧ year < 400)
    (hd : 0 ≤ dayOfYear ∧ dayOfYear ≤ 365) :
    daysFromCivil (dateOf era year dayOfYear) =
        era * 146097 + (eraDays year + dayOfYear) - 719468 ∧
      1 ≤ (dateOf era year dayOfYear).month ∧ (dateOf era year dayOfYear).month ≤ 12 ∧
      1 ≤ (dateOf era year dayOfYear).day ∧ (dateOf era year dayOfYear).day ≤ 31 := by
  obtain ⟨hm, hm', hday, hday'⟩ := monthOfYear_spec hd
  have hera : (year + era * 400) / 400 = era := by omega
  have hyear : (year + era * 400) % 400 = year := by omega
  by_cases hlt : monthOfYear dayOfYear < 10
  · have hmonth : ¬ monthOfYear dayOfYear + 3 ≤ 2 := by omega
    simp only [daysFromCivil, dateOf, if_pos hlt, if_neg hmonth, add_zero, hera, hyear,
      add_sub_cancel_right]
    omega
  · have hmonth : monthOfYear dayOfYear - 9 ≤ 2 := by omega
    simp only [daysFromCivil, dateOf, if_neg hlt, if_pos hmonth, add_sub_cancel_right, hera, hyear,
      sub_add_cancel]
    omega

/-- **Day numbers and dates correspond**, and the fields are in range. -/
theorem civil_spec (days : Int) :
    daysFromCivil (civil days) = days ∧ 1 ≤ (civil days).month ∧ (civil days).month ≤ 12 ∧
      1 ≤ (civil days).day ∧ (civil days).day ≤ 31 := by
  have hera : 0 ≤ (days + 719468) % 146097 ∧ (days + 719468) % 146097 < 146097 := by omega
  obtain ⟨hy, hy', hdoy⟩ := yearOfEra_spec hera
  obtain ⟨hdays, hfields⟩ := dateOf_spec ((days + 719468) / 146097) ⟨hy, hy'⟩ hdoy
  refine ⟨?_, hfields⟩
  unfold civil
  dsimp only
  rw [hdays]
  omega

/-! ## Decimal fields -/

/-- `n` in decimal with `width` digits. -/
def pad : Nat → Nat → JsString
  | 0, _ => []
  | width + 1, n => pad width (n / 10) ++ [decimalDigit (n % 10)]

@[simp] theorem pad_length (width n : Nat) : (pad width n).length = width := by
  induction width generalizing n with
  | zero => rfl
  | succ width ih => simp [pad, ih]

theorem decimalValue_pad {width n : Nat} (h : n < 10 ^ width) : decimalValue (pad width n) = n := by
  induction width generalizing n with
  | zero =>
    rw [Nat.pow_zero] at h
    have hzero : n = 0 := by omega
    simp [pad, decimalValue, hzero]
  | succ width ih =>
    rw [Nat.pow_succ] at h
    rw [pad, decimalValue_append_digit _ (by omega), ih (by omega)]
    omega

theorem pad_digits (width n : Nat) : ∀ c ∈ pad width n, 0x30 ≤ c.toNat := by
  induction width generalizing n with
  | zero => simp [pad]
  | succ width ih =>
    intro c hc
    rw [pad, List.mem_append, List.mem_singleton] at hc
    rcases hc with hc | rfl
    · exact ih _ c hc
    · rw [decimalDigit_toNat (by omega)]
      omega

/-! ## Texts -/

/-- Four digits, or a sign and six digits outside of the years 0 to 9999. -/
def yearText (year : Int) : JsString :=
  if 0 ≤ year ∧ year ≤ 9999 then pad 4 year.toNat
  else (if year < 0 then 0x2D else 0x2B) :: pad 6 year.natAbs

/-- The part of the text after the year: `-MM-DDTHH:mm:ss.sssZ`. -/
def clockText (month day time : Nat) : JsString :=
  0x2D :: pad 2 month ++ 0x2D :: pad 2 day ++ 0x54 :: pad 2 (time / 3600000) ++
    0x3A :: pad 2 (time / 60000 % 60) ++ 0x3A :: pad 2 (time / 1000 % 60) ++
    0x2E :: pad 3 (time % 1000) ++ [0x5A]

/-- The range of a time value. -/
def isTimeValue (t : Int) : Bool := -8640000000000000 ≤ t && t ≤ 8640000000000000

def toISOString (t : Int) : JsString :=
  let date := civil (t / 86400000)
  yearText date.year ++ clockText date.month.toNat date.day.toNat (t % 86400000).toNat

def readYear : JsString → Int
  | [] => 0
  | c :: digits =>
    if c = 0x2D then -(decimalValue digits : Int)
    else if c = 0x2B then decimalValue digits
    else decimalValue (c :: digits)

def field (clock : JsString) (start width : Nat) : Nat := decimalValue ((clock.drop start).take width)

/-- The time value that the fields of a text denote. -/
def fieldsValue (text : JsString) : Int :=
  let clock := text.drop (text.length - 20)
  let year := readYear (text.take (text.length - 20))
  daysFromCivil ⟨year, field clock 1 2, field clock 4 2⟩ * 86400000 +
    (field clock 7 2 * 3600000 + field clock 10 2 * 60000 + field clock 13 2 * 1000 +
      field clock 16 3 : Nat)

/-- The time value whose text this is. -/
def readISOString (text : JsString) : Option Int :=
  let t := fieldsValue text
  if isTimeValue t && toISOString t == text then some t else none

theorem readYear_digits {digits : JsString} (h : ∀ c ∈ digits, 0x30 ≤ c.toNat) :
    readYear digits = decimalValue digits := by
  cases digits with
  | nil => rfl
  | cons c digits =>
    have hc := h c (by simp)
    have hminus : c ≠ 0x2D := by
      rintro rfl
      exact absurd hc (by decide)
    have hplus : c ≠ 0x2B := by
      rintro rfl
      exact absurd hc (by decide)
    rw [readYear, if_neg hminus, if_neg hplus]

theorem readYear_yearText {year : Int} (h : -999999 ≤ year ∧ year ≤ 999999) :
    readYear (yearText year) = year := by
  unfold yearText
  split
  · rw [readYear_digits (pad_digits 4 _), decimalValue_pad (by omega)]
    omega
  · have hvalue : decimalValue (pad 6 year.natAbs) = year.natAbs := decimalValue_pad (by omega)
    split
    · simp only [readYear, if_true, hvalue]
      omega
    · have hplus : readYear (0x2B :: pad 6 year.natAbs) = decimalValue (pad 6 year.natAbs) := rfl
      rw [hplus, hvalue]
      omega

theorem clockText_length (month day time : Nat) : (clockText month day time).length = 20 := by
  simp [clockText]

theorem clockText_fields (month day time : Nat) (hmonth : month ≤ 12) (hday : day ≤ 31)
    (htime : time < 86400000) :
    field (clockText month day time) 1 2 = month ∧ field (clockText month day time) 4 2 = day ∧
      field (clockText month day time) 7 2 * 3600000 +
        field (clockText month day time) 10 2 * 60000 +
        field (clockText month day time) 13 2 * 1000 + field (clockText month day time) 16 3 =
          time := by
  have hm : field (clockText month day time) 1 2 = decimalValue (pad 2 month) := rfl
  have hd : field (clockText month day time) 4 2 = decimalValue (pad 2 day) := rfl
  have hh : field (clockText month day time) 7 2 = decimalValue (pad 2 (time / 3600000)) := rfl
  have hmin : field (clockText month day time) 10 2 =
      decimalValue (pad 2 (time / 60000 % 60)) := rfl
  have hs : field (clockText month day time) 13 2 = decimalValue (pad 2 (time / 1000 % 60)) := rfl
  have hms : field (clockText month day time) 16 3 = decimalValue (pad 3 (time % 1000)) := rfl
  rw [hm, hd, hh, hmin, hs, hms, decimalValue_pad (by omega), decimalValue_pad (by omega),
    decimalValue_pad (by omega), decimalValue_pad (by omega), decimalValue_pad (by omega),
    decimalValue_pad (by omega)]
  omega

theorem civil_year {days : Int} (h : -100000000 ≤ days ∧ days ≤ 100000000) :
    -999999 ≤ (civil days).year ∧ (civil days).year ≤ 999999 := by
  have hera : 0 ≤ (days + 719468) % 146097 ∧ (days + 719468) % 146097 < 146097 := by omega
  obtain ⟨hy, hy', -, -⟩ := yearOfEra_spec hera
  simp only [civil, dateOf]
  split <;> omega

theorem fieldsValue_toISOString {t : Int} (h : isTimeValue t = true) :
    fieldsValue (toISOString t) = t := by
  simp only [isTimeValue, Bool.and_eq_true, decide_eq_true_eq] at h
  have hdays : -100000000 ≤ t / 86400000 ∧ t / 86400000 ≤ 100000000 := by omega
  obtain ⟨hcivil, hm, hm', hd, hd'⟩ := civil_spec (t / 86400000)
  have hyear := readYear_yearText (civil_year hdays)
  revert hyear hcivil hm hm' hd hd'
  unfold fieldsValue toISOString
  generalize civil (t / 86400000) = date
  intro hcivil hm hm' hd hd' hyear
  obtain ⟨hfm, hfd, hft⟩ := clockText_fields date.month.toNat date.day.toNat
    (t % 86400000).toNat (by omega) (by omega) (by omega)
  have hlen : (yearText date.year ++
      clockText date.month.toNat date.day.toNat (t % 86400000).toNat).length - 20 =
        (yearText date.year).length := by
    rw [List.length_append, clockText_length, Nat.add_sub_cancel]
  dsimp only
  rw [hlen, List.take_left, List.drop_left, hyear, hfm, hfd, hft]
  have hdate : (⟨date.year, date.month.toNat, date.day.toNat⟩ : Date) = date := by
    rw [Int.toNat_of_nonneg (by omega), Int.toNat_of_nonneg (by omega)]
  rw [hdate, hcivil]
  omega

/-- **Reading gives every time value back.** -/
theorem readISOString_toISOString {t : Int} (h : isTimeValue t = true) :
    readISOString (toISOString t) = some t := by
  simp [readISOString, fieldsValue_toISOString h, h]

end IsoDate
