import FieldLookup.Binary64.Basic
import FieldLookup.Text.Numeral

/-!
The text of a number: the fewest decimal digits that read back, of those the nearest, a tie upwards,
and written without an exponent. The digits are found on the grids of 1, 2, … 17 digits, where the
two neighbours of the exact value are tried.
-/
namespace FieldLookup.Binary64

open FieldLookup.Text

/-- A positive number `significand * 2 ^ (exponent - 1074)`. -/
structure Dyadic where
  significand : Nat
  exponent : Nat
  deriving DecidableEq, Repr

def dyadic (x : Binary64) : Dyadic :=
  let field := x.magnitude >>> 52
  let fraction := x.magnitude % (1 <<< 52)
  if field = 0 then ⟨fraction, 0⟩ else ⟨1 <<< 52 + fraction, field - 1⟩

/-- Decimal digits `0.d₁d₂…dₙ * 10 ^ point`, as the number that the digits write. -/
structure Decimal where
  value : Nat
  count : Nat
  point : Int
  deriving DecidableEq, Repr

/-- The reals that round to a number, as multiples of `1 / scale`: `centre` is the number itself. -/
structure Interval where
  low : Nat
  centre : Nat
  high : Nat
  scale : Nat
  closed : Bool

/-- In quarters of a unit in the last place: the upper neighbour is half a unit away, and so is the
lower one unless the number is a power of two above the least normal ones. -/
def interval (d : Dyadic) : Interval where
  low :=
    (4 * d.significand - (if d.significand = 1 <<< 52 ∧ d.exponent ≠ 0 then 1 else 2)) <<<
      d.exponent
  centre := (4 * d.significand) <<< d.exponent
  high := (4 * d.significand + 2) <<< d.exponent
  scale := 4 <<< 1074
  closed := d.significand % 2 = 0

/-- Whether `n / den` lies in the interval. -/
def Interval.holds (i : Interval) (n den : Nat) : Bool :=
  if i.closed then i.low * den ≤ n * i.scale && n * i.scale ≤ i.high * den
  else i.low * den < n * i.scale && n * i.scale < i.high * den

/-- The power of ten just above a positive ratio: the least `p` with `num / den < 10 ^ p`. -/
def pointOf (num den : Nat) : Int :=
  if den ≤ num then (Numeral.digits (num / den)).length
  else 1 - (Numeral.digits ((den - 1) / num)).length

/-- The grid of multiples of `10 ^ e`, as a fraction: `up` above, `down` below. -/
def gridScale (e : Int) : Nat × Nat :=
  match e with
  | .ofNat k => (Nat.pow 10 k, 1)
  | .negSucc k => (1, Nat.pow 10 (k + 1))

/-- The best point of a grid in the interval, as a count of grid steps. -/
def hitOn (i : Interval) (e : Int) : Option Nat :=
  let (up, down) := gridScale e
  let below := i.centre * down / (i.scale * up)
  let above := below + 1
  let fits := fun n => i.holds (n * up) down
  let nearer := (2 * below + 1) * (up * i.scale) ≤ 2 * (i.centre * down)
  match fits below, fits above with
  | true, true => some (if nearer then above else below)
  | true, false => some below
  | false, true => some above
  | false, false => none

/-- The first grid with a hit, from `left` grids that are left to try. -/
def firstHit (i : Interval) (point : Int) : (left count : Nat) → Decimal
  | 0, count => ⟨i.centre / i.scale, count, point⟩
  | left + 1, count =>
    match hitOn i (point - count) with
    | some n => ⟨n, count, point⟩
    | none => firstHit i point left (count + 1)

def shortest (d : Dyadic) : Decimal :=
  let i := interval d
  firstHit i (pointOf i.centre i.scale) 17 1

/-- Digits with the point in its place and zeros where digits are missing. -/
def positional (digits : List Char) (point : Int) : List Char :=
  if point ≤ 0 then '0' :: '.' :: List.replicate point.natAbs '0' ++ digits
  else if digits.length ≤ point.toNat then
    digits ++ List.replicate (point.toNat - digits.length) '0'
  else digits.take point.toNat ++ '.' :: digits.drop point.toNat

/-- Zeros at the end of the digits do not count, and a hit that has one digit too many moves the
point. -/
def Decimal.chars (d : Decimal) : List Char :=
  let digits := Numeral.digits d.value
  let point := d.point + (digits.length : Int) - d.count
  let kept := (digits.reverse.dropWhile (· = '0')).reverse
  positional kept point

def text (x : Binary64) : String :=
  if x.isNaN then "NaN"
  else
    let sign := if x.isNegative then "-" else ""
    if x.isInfinite then sign ++ "inf"
    else if x.magnitude = 0 then sign ++ "0"
    else sign ++ String.ofList (shortest x.dyadic).chars

end FieldLookup.Binary64
