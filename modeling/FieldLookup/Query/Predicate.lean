import FieldLookup.Query.Path
import FieldLookup.Value.Text

/-!
Conditions on columns, and their text.
-/
namespace FieldLookup

inductive Comparison where
  | eq
  | ne
  | gt
  | lt
  | ge
  | le
  deriving DecidableEq, Repr

namespace Comparison

def symbol : Comparison → String
  | eq => "="
  | ne => "!="
  | gt => ">"
  | lt => "<"
  | ge => ">="
  | le => "<="

def holds : Comparison → Ordering → Bool
  | eq, o => o.isEq
  | ne, o => o.isNe
  | gt, o => o.isGT
  | lt, o => o.isLT
  | ge, o => o.isGE
  | le, o => o.isLE

end Comparison

inductive DatePart where
  | year
  | month
  | day
  deriving DecidableEq, Repr

namespace DatePart

def name : DatePart → String
  | year => "year"
  | month => "month"
  | day => "day"

def ofDate (d : Date) : DatePart → Int
  | year => d.year
  | month => d.month
  | day => d.day

end DatePart

inductive Predicate where
  | compare (column : Column) (op : Comparison) (value : Value)
  | like (column : Column) (pattern : String) (ignoreCase : Bool)
  | regex (column : Column) (pattern : String) (ignoreCase : Bool)
  | oneOf (column : Column) (values : List Value)
  | isNull (column : Column) (expected : Bool)
  | between (column : Column) (low high : Value)
  | datePart (column : Column) (part : DatePart) (value : Value)
  | not (inner : Predicate)
  | and (items : List Predicate)
  deriving Repr

namespace Predicate

/-- All of some predicates: none for no predicate, and a single one unchanged. -/
def all : List Predicate → Option Predicate
  | [] => none
  | [p] => some p
  | ps => some (and ps)

/-- The column that a leaf tests. -/
def column? : Predicate → Option Column
  | compare c _ _ | like c _ _ | regex c _ _ | oneOf c _ | isNull c _ | between c _ _
  | datePart c _ _ => some c
  | not _ | and _ => none

mutual

/-- The leaves from left to right. -/
def leaves : Predicate → List Predicate
  | not inner => inner.leaves
  | and items => leavesOfAll items
  | compare c op v => [compare c op v]
  | like c p i => [like c p i]
  | regex c p i => [regex c p i]
  | oneOf c vs => [oneOf c vs]
  | isNull c e => [isNull c e]
  | between c low high => [between c low high]
  | datePart c part v => [datePart c part v]

def leavesOfAll : List Predicate → List Predicate
  | [] => []
  | p :: rest => p.leaves ++ leavesOfAll rest

end

mutual

def display : Predicate → String
  | compare c op v => c.text ++ " " ++ op.symbol ++ " " ++ v.display
  | like c pattern ignoreCase =>
    c.text ++ (if ignoreCase then " ILIKE '" else " LIKE '") ++ pattern ++ "'"
  | regex c pattern ignoreCase =>
    c.text ++ (if ignoreCase then " ~* '" else " ~ '") ++ pattern ++ "'"
  | oneOf c vs => c.text ++ " IN " ++ (Value.list vs).display
  | isNull c expected => c.text ++ (if expected then " IS NULL" else " IS NOT NULL")
  | between c low high => c.text ++ " BETWEEN " ++ low.display ++ " AND " ++ high.display
  | datePart c part v => "EXTRACT(" ++ part.name ++ " FROM " ++ c.text ++ ") = " ++ v.display
  | not inner => "NOT (" ++ inner.display ++ ")"
  | and items => displayAll items

/-- Each item in parentheses, with `AND` between them. -/
def displayAll : List Predicate → String
  | [] => ""
  | [p] => "(" ++ p.display ++ ")"
  | p :: q :: rest => "(" ++ p.display ++ ") AND " ++ displayAll (q :: rest)

end

end Predicate

end FieldLookup
