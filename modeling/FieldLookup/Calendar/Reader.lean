import FieldLookup.Calendar.Date
import FieldLookup.Text.Blank

/-!
Reading dates and instants from text. This stands for the parsers of an outside package, `chrono`,
and follows the formats that it documents. A date is read by `%Y-%m-%d`, as `dateOf?_eq_some_iff`
states; an instant is a date and a time of day with an offset from universal time, by RFC 3339, or
without one, by `%Y-%m-%d %H:%M:%S`, and then in universal time. A second may be 60, and is the
first second of the next minute. Each reader takes what it needs from the front of the text and
returns the rest.
-/
namespace FieldLookup.Calendar

open FieldLookup.Text

def takeChar (c : Char) : List Char → Option (List Char)
  | d :: s => if c = d then some s else none
  | [] => none

/-- The longest run of digits at the front, but at most `limit` of them. -/
def digitRun : (limit : Nat) → List Char → List Char × List Char
  | 0, s => ([], s)
  | _ + 1, [] => ([], [])
  | limit + 1, c :: s =>
    if Numeral.isDigit c then
      let (run, rest) := digitRun limit s
      (c :: run, rest)
    else ([], c :: s)

/-- A number of one to `limit` digits. -/
def takeNumber (limit : Nat) (s : List Char) : Option (Nat × List Char) :=
  let (run, rest) := digitRun limit s
  (Numeral.value? run).map (·, rest)

/-- A number of exactly `count` digits. -/
def takeFixed (count : Nat) (s : List Char) : Option (Nat × List Char) :=
  let (run, rest) := digitRun count s
  if run.length = count then (Numeral.value? run).map (·, rest) else none

/-! ## Fields that allow white space in front -/

/-- A year: at most four digits, or a sign and any number of digits. -/
def takeYear (s : List Char) : Option (Int × List Char) :=
  match trimStart s with
  | '-' :: s => (takeNumber s.length s).map fun (n, rest) => (-(n : Int), rest)
  | '+' :: s => (takeNumber s.length s).map fun (n, rest) => ((n : Int), rest)
  | s => (takeNumber 4 s).map fun (n, rest) => ((n : Int), rest)

/-- A number of one or two digits. -/
def takeTwo (s : List Char) : Option (Nat × List Char) := takeNumber 2 (trimStart s)

def takeDate (s : List Char) : Option (Date × List Char) := do
  let (year, s) ← takeYear s
  let s ← takeChar '-' s
  let (month, s) ← takeTwo s
  let s ← takeChar '-' s
  let (day, s) ← takeTwo s
  let date ← Date.ofParts? year month day
  return (date, s)

def dateOf? (s : List Char) : Option Date :=
  match takeDate s with
  | some (date, []) => some date
  | _ => none

/-! ## Instants, in milliseconds from 1970-01-01 -/

/-- Milliseconds of a time of day. -/
def timeOfDay? (hour minute second : Nat) : Option Int :=
  if hour < 24 ∧ minute < 60 ∧ second ≤ 60 then
    some (((hour * 60 + minute) * 60 + second) * 1000 : Nat)
  else none

def instant (date : Date) (time : Int) : Int := date.dayNumber * 86400000 + time

/-- A date and a time of day, with any white space between them. -/
def localInstant? (s : List Char) : Option Int := do
  let (date, s) ← takeDate s
  let (hour, s) ← takeTwo s
  let s ← takeChar ':' s
  let (minute, s) ← takeTwo s
  let s ← takeChar ':' s
  let (second, s) ← takeTwo s
  let time ← timeOfDay? hour minute second
  if s = [] then some (instant date time) else none

/-- The milliseconds of a fraction of a second, with digits after the third dropped. -/
def takeFraction : List Char → Option (Nat × List Char)
  | '.' :: s =>
    let (run, rest) := digitRun s.length s
    (Numeral.value? run).map fun _ =>
      ((Numeral.valueOfDigits ((run ++ ['0', '0', '0']).take 3)), rest)
  | s => some (0, s)

/-- An offset from universal time in minutes: `Z`, or a sign, hours and minutes. -/
def offset? : List Char → Option Int
  | ['Z'] | ['z'] => some 0
  | sign :: s => do
    let negative ← if sign = '+' then some false
      else if sign = '-' ∨ sign = '\u2212' then some true else none
    let (hours, s) ← takeFixed 2 s
    let s ← takeChar ':' s
    let (minutes, s) ← takeFixed 2 s
    if hours < 24 ∧ minutes < 60 ∧ s = [] then
      let total : Int := (hours * 60 + minutes : Nat)
      some (if negative then -total else total)
    else none
  | [] => none

/-- A date and time of fixed width with an offset. -/
def offsetInstant? (s : List Char) : Option Int := do
  let (year, s) ← takeFixed 4 s
  let s ← takeChar '-' s
  let (month, s) ← takeFixed 2 s
  let s ← takeChar '-' s
  let (day, s) ← takeFixed 2 s
  let s ← match s with
    | c :: s => if c = 'T' ∨ c = 't' ∨ c = ' ' then some s else none
    | [] => none
  let (hour, s) ← takeFixed 2 s
  let s ← takeChar ':' s
  let (minute, s) ← takeFixed 2 s
  let s ← takeChar ':' s
  let (second, s) ← takeFixed 2 s
  let (fraction, s) ← takeFraction s
  let offset ← offset? s
  let date ← Date.ofParts? year month day
  let time ← timeOfDay? hour minute second
  return instant date time + fraction - offset * 60000

/-- The date on which an instant falls, in universal time. -/
def dateOfInstant? (milliseconds : Int) : Option Date :=
  Date.ofDayNumber? (milliseconds / 86400000)

end FieldLookup.Calendar
