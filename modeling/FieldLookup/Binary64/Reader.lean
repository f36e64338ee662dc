import FieldLookup.Binary64.Basic
import FieldLookup.Text.Numeral

/-!
Reading a number from its text: an optional sign, then digits with an optional point and exponent,
or a name of infinity or of the value that is no number, in any mixture of cases.
-/
namespace FieldLookup.Binary64

open FieldLookup.Text

/-- The number nearest to `value * Nat.pow 10 exponent`. A number whose first digit stands above the
310th place is infinite and one whose first digit stands below the 330th decimal place is zero, so
the power is computed only in between. -/
def ofDecimal (negative : Bool) (value : Nat) (exponent : Int) : Binary64 :=
  if value = 0 then ofMagnitude negative 0
  else
    let place := exponent + (Numeral.digits value).length
    if 310 < place then infinity negative
    else if place < -330 then ofMagnitude negative 0
    else
      match exponent with
      | .ofNat e => ofRatio negative (value * Nat.pow 10 e) 1
      | .negSucc e => ofRatio negative value (Nat.pow 10 (e + 1))

/-- The digits at the front of a text, and the rest. -/
def spanDigits (s : List Char) : List Char × List Char :=
  (s.takeWhile Numeral.isDigit, s.dropWhile Numeral.isDigit)

/-- An exponent part that fills the whole text; an empty text is exponent 0. -/
def exponent? : List Char → Option Int
  | [] => some 0
  | c :: s => if c = 'e' ∨ c = 'E' then Numeral.intValue? s else none

/-- The fraction digits and the exponent after the integer digits. -/
def tail? : List Char → Option (List Char × Int)
  | '.' :: s =>
    let (fraction, rest) := spanDigits s
    (exponent? rest).map (fraction, ·)
  | s => (exponent? s).map ([], ·)

def lower (c : Char) : Char := if 'A' ≤ c ∧ c ≤ 'Z' then Char.ofNat (c.toNat + 32) else c

/-- A number without its sign. -/
def ofUnsigned? (negative : Bool) (s : List Char) : Option Binary64 :=
  let word := String.ofList (s.map lower)
  if word = "inf" ∨ word = "infinity" then some (infinity negative)
  else if word = "nan" then some nan
  else
    let (whole, rest) := spanDigits s
    (tail? rest).bind fun (fraction, exponent) =>
      (Numeral.value? (whole ++ fraction)).map fun value =>
        ofDecimal negative value (exponent - fraction.length)

def ofChars? : List Char → Option Binary64
  | '-' :: s => ofUnsigned? true s
  | '+' :: s => ofUnsigned? false s
  | s => ofUnsigned? false s

end FieldLookup.Binary64
