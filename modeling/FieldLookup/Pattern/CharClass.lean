/-!
Classes of characters as lists of closed ranges of code points, in order and with a gap between each
two.
-/
namespace FieldLookup.Pattern

/-- Closed ranges of code points. -/
abbrev CharClass := List (Nat × Nat)

/-- The other case of an ASCII letter. -/
def otherCase? (c : Char) : Option Char :=
  if 'a' ≤ c ∧ c ≤ 'z' then some (Char.ofNat (c.toNat - 32))
  else if 'A' ≤ c ∧ c ≤ 'Z' then some (Char.ofNat (c.toNat + 32))
  else none

namespace CharClass

def lastCode : Nat := 0x10FFFF

def contains (k : CharClass) (c : Char) : Bool := k.any fun r => r.1 ≤ c.toNat && c.toNat ≤ r.2

def any : CharClass := [(0, lastCode)]

def single (c : Char) : CharClass := [(c.toNat, c.toNat)]

def insertByFirst (r : Nat × Nat) : List (Nat × Nat) → List (Nat × Nat)
  | [] => [r]
  | s :: rest => if s.1 < r.1 then s :: insertByFirst r rest else r :: s :: rest

/-- Joins ranges that are in the order of their first code points. -/
def joinSorted : List (Nat × Nat) → CharClass
  | [] => []
  | r :: rest => absorb r rest
where
  absorb (r : Nat × Nat) : List (Nat × Nat) → CharClass
    | [] => [r]
    | s :: rest => if s.1 ≤ r.2 + 1 then absorb (r.1, max r.2 s.2) rest else r :: absorb s rest

/-- The class with exactly the code points of some ranges. -/
def ofRanges (rs : List (Nat × Nat)) : CharClass := joinSorted (rs.foldr insertByFirst [])

/-- The ranges between the ranges of a class, from a code point on. -/
def gapsFrom (start : Nat) : CharClass → CharClass
  | [] => if start ≤ lastCode then [(start, lastCode)] else []
  | (a, b) :: rest =>
    if start < a then (start, a - 1) :: gapsFrom (b + 1) rest else gapsFrom (b + 1) rest

def negate (k : CharClass) : CharClass := gapsFrom 0 k

/-- The part of a range inside another one, moved by a distance. -/
def shifted (r inside : Nat × Nat) (move : Nat → Nat) : List (Nat × Nat) :=
  let a := max r.1 inside.1
  let b := min r.2 inside.2
  if a ≤ b then [(move a, move b)] else []

/-- The ASCII letters of a range in the other case: those of its small letters or, if it has none,
those of its capitals. -/
def otherCases (r : Nat × Nat) : List (Nat × Nat) :=
  match shifted r (97, 122) (· - 32) with
  | [] => shifted r (65, 90) (· + 32)
  | capitals => capitals

/-- The class together with the other cases of each of its ranges. -/
def foldCase (k : CharClass) : CharClass := ofRanges (k ++ k.flatMap otherCases)

/-! ## Named classes -/

def digit : CharClass := [(48, 57)]

def space : CharClass := [(9, 13), (32, 32)]

def word : CharClass := [(48, 57), (65, 90), (95, 95), (97, 122)]

def ofName? : String → Option CharClass
  | "alnum" => some [(48, 57), (65, 90), (97, 122)]
  | "alpha" => some [(65, 90), (97, 122)]
  | "ascii" => some [(0, 127)]
  | "blank" => some [(9, 9), (32, 32)]
  | "cntrl" => some [(0, 31), (127, 127)]
  | "digit" => some digit
  | "graph" => some [(33, 126)]
  | "lower" => some [(97, 122)]
  | "print" => some [(32, 126)]
  | "punct" => some [(33, 47), (58, 64), (91, 96), (123, 126)]
  | "space" => some space
  | "upper" => some [(65, 90)]
  | "word" => some word
  | "xdigit" => some [(48, 57), (65, 70), (97, 102)]
  | _ => none

/-- Every character but a line feed. -/
def notLineFeed : CharClass := negate (single '\n')

/-- Every character but a line feed and a carriage return. -/
def notLineEnd : CharClass := negate [(10, 10), (13, 13)]

end CharClass

end FieldLookup.Pattern
