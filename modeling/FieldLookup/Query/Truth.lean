import FieldLookup.Query.Predicate
import FieldLookup.Value.Order

/-!
Truth in three values: true, false and unknown, as strong Kleene logic has them, and the truth of a
single test of a value. Main statements: `not_not` and the laws of `and`.
-/
namespace FieldLookup

/-- `none` is unknown. -/
abbrev Truth := Option Bool

namespace Truth

def not (t : Truth) : Truth := t.map (!·)

/-- False if either is false, and otherwise unknown if either is. -/
def and : Truth → Truth → Truth
  | some false, _ => some false
  | _, some false => some false
  | some true, some true => some true
  | _, _ => none

/-- True if either is true, and otherwise unknown if either is. -/
def or : Truth → Truth → Truth
  | some true, _ => some true
  | _, some true => some true
  | some false, some false => some false
  | _, _ => none

def all (ts : List Truth) : Truth := ts.foldr and (some true)

def any (ts : List Truth) : Truth := ts.foldr or (some false)

@[simp] theorem not_not (t : Truth) : not (not t) = t := by
  cases t <;> simp [not]

theorem and_comm (a b : Truth) : and a b = and b a := by
  rcases a with _ | _ | _ <;> rcases b with _ | _ | _ <;> rfl

theorem and_assoc (a b c : Truth) : and (and a b) c = and a (and b c) := by
  rcases a with _ | _ | _ <;> rcases b with _ | _ | _ <;> rcases c with _ | _ | _ <;> rfl

@[simp] theorem and_self (a : Truth) : and a a = a := by
  rcases a with _ | _ | _ <;> rfl

@[simp] theorem true_and (a : Truth) : and (some true) a = a := by
  rcases a with _ | _ | _ <;> rfl

@[simp] theorem false_and (a : Truth) : and (some false) a = some false := by
  rcases a with _ | _ | _ <;> rfl

theorem not_and (a b : Truth) : not (and a b) = or (not a) (not b) := by
  rcases a with _ | _ | _ <;> rcases b with _ | _ | _ <;> rfl

end Truth

/-! ## Tests of one value -/

/-- Unknown if the values are in no order. -/
def Comparison.test (op : Comparison) (actual v : Value) : Truth :=
  (actual.compare? v).map op.holds

/-- Whether the candidates from here on hold the value; `unknown` tells of a null met before. -/
def memberFrom (actual : Value) (unknown : Bool) : List Value → Truth
  | [] => if unknown then none else some false
  | v :: rest =>
    match actual.compare? v with
    | some .eq => some true
    | none => memberFrom actual (unknown || v.isNull) rest
    | _ => memberFrom actual unknown rest

/-- Nothing is a member of an empty list, and null is not known to be a member of any other. -/
def memberTest (actual : Value) (candidates : List Value) : Truth :=
  if candidates.isEmpty then some false
  else if actual.isNull then none
  else memberFrom actual false candidates

/-- Unknown if a bound is in no order with the value. -/
def betweenTest (actual low high : Value) : Truth :=
  match actual.compare? low, actual.compare? high with
  | some a, some b => some (a.isGE && b.isLE)
  | _, _ => none

/-- Unknown if the value has no calendar date, or the wanted part is in no order with integers. -/
def DatePart.test (part : DatePart) (actual v : Value) : Truth :=
  actual.calendarDate?.bind fun d =>
    (Value.compare? (.int (Int64.ofInt (part.ofDate d))) v).map (·.isEq)

end FieldLookup
