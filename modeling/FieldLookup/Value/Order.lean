import FieldLookup.Value.Basic

/-!
Comparing values. `compare?` is the comparison of conditions: null and values of different kinds
are in no order, and the two kinds of number compare numerically. `sortCompare` is the comparison of
sorting, in which null comes first and values in no order tie. `same` is equality of values.
-/
namespace FieldLookup.Value

def compareFloats? (a b : Value) : Option Ordering :=
  match a.asFloat?, b.asFloat? with
  | some x, some y => Binary64.compare? x y
  | _, _ => none

def compare? : Value → Value → Option Ordering
  | int a, int b => some (compare a.toInt b.toInt)
  | int a, float b => compareFloats? (int a) (float b)
  | float a, int b => compareFloats? (float a) (int b)
  | float a, float b => Binary64.compare? a b
  | text a, text b => some (compare a b)
  | bool a, bool b => some (compare a.toNat b.toNat)
  | timestamp a, timestamp b => some (compare a.toInt b.toInt)
  | date a, date b => some (Date.compare a b)
  | _, _ => none

def sortCompare : Value → Value → Ordering
  | null, null => .eq
  | null, _ => .lt
  | _, null => .gt
  | a, b => (compare? a b).getD .eq

mutual

/-- Equality, in which zero equals minus zero and a value that is no number equals nothing. -/
def same : Value → Value → Bool
  | null, null => true
  | bool a, bool b => a == b
  | int a, int b => a == b
  | float a, float b => Binary64.same a b
  | text a, text b => a == b
  | timestamp a, timestamp b => a == b
  | date a, date b => a == b
  | list as, list bs => sameList as bs
  | _, _ => false

def sameList : List Value → List Value → Bool
  | [], [] => true
  | a :: as, b :: bs => same a b && sameList as bs
  | _, _ => false

end

theorem compare?_null_left (v : Value) : compare? null v = none := by
  cases v <;> rfl

theorem compare?_null_right (v : Value) : compare? v null = none := by
  cases v <;> rfl

end FieldLookup.Value
