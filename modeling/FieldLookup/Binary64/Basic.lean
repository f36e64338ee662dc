/-!
Binary floating-point numbers of 64 bits, by their encoding. A number is compared through its rank,
the encoding of its magnitude with the sign put in front; an exact ratio is rounded to the nearest
number, and of two equally near ones to the one with the even encoding.
-/
namespace FieldLookup

structure Binary64 where
  bits : UInt64
  deriving DecidableEq, Repr

namespace Binary64

/-- The encoding without its sign. -/
def magnitude (x : Binary64) : Nat := x.bits.toNat % (1 <<< 63)

def isNegative (x : Binary64) : Bool := 1 <<< 63 ≤ x.bits.toNat

/-- The magnitude of both infinities; larger ones belong to values that are no number. -/
def infiniteMagnitude : Nat := 2047 <<< 52

def isNaN (x : Binary64) : Bool := infiniteMagnitude < x.magnitude

def isInfinite (x : Binary64) : Bool := x.magnitude = infiniteMagnitude

def ofMagnitude (negative : Bool) (magnitude : Nat) : Binary64 :=
  ⟨UInt64.ofNat (if negative then 1 <<< 63 + magnitude else magnitude)⟩

def nan : Binary64 := ofMagnitude false (infiniteMagnitude + 1 <<< 51)

def infinity (negative : Bool) : Binary64 := ofMagnitude negative infiniteMagnitude

/-- The place of a number in the order of all numbers; both zeros have rank 0. -/
def rank (x : Binary64) : Int := if x.isNegative then -(x.magnitude : Int) else x.magnitude

/-- The order of two numbers; a value that is no number is in no order. -/
def compare? (x y : Binary64) : Option Ordering :=
  if x.isNaN || y.isNaN then none else some (compare x.rank y.rank)

/-- Equality of numbers: zero equals minus zero, and a value that is no number equals nothing. -/
def same (x y : Binary64) : Bool := compare? x y == some .eq

/-- The quotient rounded to the nearest natural number, a half to the even neighbour. -/
def roundDiv (num den : Nat) : Nat :=
  let q := num / den
  let twice := 2 * (num % den)
  if den < twice ∨ (twice = den ∧ q % 2 = 1) then q + 1 else q

/-- The magnitude nearest to a ratio. The ratio is taken in units of the least positive number
`2 ^ -1074`; `k` binary places are dropped so that 53 remain, and a significand that rounds up to
54 places carries into the exponent. -/
def roundedMagnitude (num den : Nat) : Nat :=
  let units := num <<< 1074
  let k := Nat.log2 (units / den) - 52
  min infiniteMagnitude (k <<< 52 + roundDiv units (den <<< k))

def ofRatio (negative : Bool) (num den : Nat) : Binary64 :=
  ofMagnitude negative (roundedMagnitude num den)

def ofInt (n : Int) : Binary64 := ofRatio (n < 0) n.natAbs 1

theorem compare?_isSome_iff {x y : Binary64} :
    (compare? x y).isSome ↔ x.isNaN = false ∧ y.isNaN = false := by
  unfold compare?
  cases x.isNaN <;> cases y.isNaN <;> simp

theorem compare?_swap (x y : Binary64) : compare? y x = (compare? x y).map Ordering.swap := by
  unfold compare?
  cases x.isNaN <;> cases y.isNaN <;> simp [compare, compareOfLessAndEq]
  repeat' split
  all_goals first | rfl | omega

end Binary64

end FieldLookup
