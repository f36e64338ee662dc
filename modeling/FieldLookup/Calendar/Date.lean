import FieldLookup.Text.Numeral

/-!
Dates of the proleptic Gregorian calendar, their order, their count of days from 1970-01-01 and
their text. Every date lies in the years -262143 to 262142, the range of the outside package
`chrono`. Main statements: `ofParts?_parts` (a date is its three parts) and `ofParts?_eq_some_iff`.
-/
namespace FieldLookup

namespace Calendar

def isLeapYear (year : Int) : Bool := year % 4 = 0 && (year % 100 ≠ 0 || year % 400 = 0)

def daysInMonth (year : Int) (month : Nat) : Nat :=
  if month = 2 then (if isLeapYear year then 29 else 28)
  else if month = 4 ∨ month = 6 ∨ month = 9 ∨ month = 11 then 30
  else 31

def firstYear : Int := -262143

def lastYear : Int := 262142

/-- A year, month and day that name a date. -/
structure IsDate (year : Int) (month day : Nat) : Prop where
  first_le : firstYear ≤ year
  le_last : year ≤ lastYear
  month_pos : 1 ≤ month
  month_le : month ≤ 12
  day_pos : 1 ≤ day
  day_le : day ≤ daysInMonth year month

instance (year : Int) (month day : Nat) : Decidable (IsDate year month day) :=
  decidable_of_iff
    (firstYear ≤ year ∧ year ≤ lastYear ∧ 1 ≤ month ∧ month ≤ 12 ∧ 1 ≤ day ∧
      day ≤ daysInMonth year month)
    ⟨fun ⟨a, b, c, d, e, f⟩ => ⟨a, b, c, d, e, f⟩, fun ⟨a, b, c, d, e, f⟩ => ⟨a, b, c, d, e, f⟩⟩

end Calendar

open Calendar

structure Date where
  year : Int
  month : Nat
  day : Nat
  isDate : IsDate year month day
  deriving DecidableEq, Repr

namespace Date

def ofParts? (year : Int) (month day : Nat) : Option Date :=
  if h : IsDate year month day then some ⟨year, month, day, h⟩ else none

theorem ofParts?_parts (d : Date) : ofParts? d.year d.month d.day = some d := by
  simp [ofParts?, d.isDate]

theorem ofParts?_eq_some_iff {year : Int} {month day : Nat} {d : Date} :
    ofParts? year month day = some d ↔ d.year = year ∧ d.month = month ∧ d.day = day := by
  constructor
  · intro h
    unfold ofParts? at h
    split at h
    · cases h
      exact ⟨rfl, rfl, rfl⟩
    · cases h
  · rintro ⟨rfl, rfl, rfl⟩
    exact ofParts?_parts d

/-- Dates come in the order of year, month, day. -/
def compare (a b : Date) : Ordering :=
  (Ord.compare a.year b.year).then ((Ord.compare a.month b.month).then (Ord.compare a.day b.day))

/-! ## Counting days

A year is counted from March, so that the leap day comes last, and years are grouped into eras of
400 years, which all have 146097 days. -/

/-- Days from 1970-01-01 to the date. -/
def dayNumber (d : Date) : Int :=
  let year := if d.month ≤ 2 then d.year - 1 else d.year
  let era := year / 400
  let yearOfEra := year % 400
  let monthFromMarch : Int := if d.month ≤ 2 then d.month + 9 else d.month - 3
  let dayOfYear := (153 * monthFromMarch + 2) / 5 + (d.day - 1)
  let dayOfEra := yearOfEra * 365 + yearOfEra / 4 - yearOfEra / 100 + dayOfYear
  era * 146097 + dayOfEra - 719468

/-- The date that is so many days after 1970-01-01, if it is in range. -/
def ofDayNumber? (n : Int) : Option Date :=
  let fromMarch := n + 719468
  let era := fromMarch / 146097
  let dayOfEra := fromMarch % 146097
  let yearOfEra := (dayOfEra - dayOfEra / 1460 + dayOfEra / 36524 - dayOfEra / 146096) / 365
  let dayOfYear := dayOfEra - (365 * yearOfEra + yearOfEra / 4 - yearOfEra / 100)
  let monthFromMarch := (5 * dayOfYear + 2) / 153
  let day := dayOfYear - (153 * monthFromMarch + 2) / 5 + 1
  let month := if monthFromMarch < 10 then monthFromMarch + 3 else monthFromMarch - 9
  let year := yearOfEra + era * 400 + (if month ≤ 2 then 1 else 0)
  ofParts? year month.toNat day.toNat

/-! ## Text -/

/-- Years of four digits are written plainly, all others with a sign. -/
def yearChars (year : Int) : List Char :=
  if 0 ≤ year ∧ year ≤ 9999 then Text.Numeral.padded 4 year.natAbs
  else (if year < 0 then '-' else '+') :: Text.Numeral.padded 4 year.natAbs

def chars (d : Date) : List Char :=
  yearChars d.year ++ '-' :: Text.Numeral.padded 2 d.month ++ '-' :: Text.Numeral.padded 2 d.day

def text (d : Date) : String := String.ofList d.chars

end Date

end FieldLookup
