import FieldLookup.Binary64.Basic
import FieldLookup.Calendar.Reader

/-!
Values of attributes and of filter arguments, and the declared types of attributes.
-/
namespace FieldLookup

inductive Value where
  | null
  | bool (b : Bool)
  | int (n : Int64)
  | float (x : Binary64)
  | text (s : String)
  | timestamp (ms : Int64)
  | date (d : Date)
  | list (items : List Value)
  deriving Repr

/-- The declared type of an attribute. -/
inductive ScalarType where
  | bool
  | int
  | float
  | text
  | timestamp
  | date
  deriving DecidableEq, Repr

namespace ScalarType

def name : ScalarType → String
  | bool => "Bool"
  | int => "Int"
  | float => "Float"
  | text => "String"
  | timestamp => "Timestamp"
  | date => "Date"

end ScalarType

namespace Value

mutual

/-- Whether two values are built alike. -/
def decEq : (a b : Value) → Decidable (a = b)
  | null, b => match b with
    | null => isTrue rfl
    | bool _ | int _ | float _ | text _ | timestamp _ | date _ | list _ => isFalse nofun
  | bool a, b => match b with
    | bool b => decidable_of_iff (a = b) (by simp)
    | null | int _ | float _ | text _ | timestamp _ | date _ | list _ => isFalse nofun
  | int a, b => match b with
    | int b => decidable_of_iff (a = b) (by simp)
    | null | bool _ | float _ | text _ | timestamp _ | date _ | list _ => isFalse nofun
  | float a, b => match b with
    | float b => decidable_of_iff (a = b) (by simp)
    | null | bool _ | int _ | text _ | timestamp _ | date _ | list _ => isFalse nofun
  | text a, b => match b with
    | text b => decidable_of_iff (a = b) (by simp)
    | null | bool _ | int _ | float _ | timestamp _ | date _ | list _ => isFalse nofun
  | timestamp a, b => match b with
    | timestamp b => decidable_of_iff (a = b) (by simp)
    | null | bool _ | int _ | float _ | text _ | date _ | list _ => isFalse nofun
  | date a, b => match b with
    | date b => decidable_of_iff (a = b) (by simp)
    | null | bool _ | int _ | float _ | text _ | timestamp _ | list _ => isFalse nofun
  | list as, b => match b with
    | list bs =>
      match decEqItems as bs with
      | isTrue h => isTrue (congrArg list h)
      | isFalse h => isFalse fun e => h (list.inj e)
    | null | bool _ | int _ | float _ | text _ | timestamp _ | date _ => isFalse nofun

def decEqItems : (as bs : List Value) → Decidable (as = bs)
  | [], [] => isTrue rfl
  | [], _ :: _ => isFalse nofun
  | _ :: _, [] => isFalse nofun
  | a :: as, b :: bs =>
    match decEq a b, decEqItems as bs with
    | isTrue h, isTrue hs => isTrue (by rw [h, hs])
    | isFalse h, _ => isFalse fun e => h (List.cons.inj e).1
    | _, isFalse h => isFalse fun e => h (List.cons.inj e).2

end

instance : DecidableEq Value := decEq

def isNull : Value → Bool
  | null => true
  | _ => false

def isList : Value → Bool
  | list _ => true
  | _ => false

def asBool? : Value → Option Bool
  | bool b => some b
  | _ => none

def asInt? : Value → Option Int64
  | int n => some n
  | _ => none

/-- A number as a binary one; an integer too large for 53 places is rounded. -/
def asFloat? : Value → Option Binary64
  | float x => some x
  | int n => some (Binary64.ofInt n.toInt)
  | _ => none

def asText? : Value → Option String
  | text s => some s
  | _ => none

/-- The type of a scalar. -/
def type? : Value → Option ScalarType
  | null | list _ => none
  | bool _ => some .bool
  | int _ => some .int
  | float _ => some .float
  | text _ => some .text
  | timestamp _ => some .timestamp
  | date _ => some .date

/-- The date of a date, or the one on which a timestamp falls. -/
def calendarDate? : Value → Option Date
  | date d => some d
  | timestamp ms => Calendar.dateOfInstant? ms.toInt
  | _ => none

theorem isNull_iff {v : Value} : v.isNull = true ↔ v = null := by
  cases v <;> simp [isNull]

end Value

end FieldLookup
