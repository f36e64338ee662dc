import FieldLookup.Lookup.Error
import FieldLookup.Pattern.Like
import FieldLookup.Query.Predicate
import FieldLookup.Value.Conversion

/-!
The operators of lookups: their tokens, and the predicate that an operator makes of a column and a
value. Main statement: `ofToken?_token`.
-/
namespace FieldLookup

inductive Operator where
  | eq
  | ne
  | gt
  | lt
  | gte
  | lte
  | exact
  | iexact
  | contains
  | icontains
  | startsWith
  | istartsWith
  | endsWith
  | iendsWith
  | regex
  | iregex
  | isIn
  | isNull
  | range
  | year
  | month
  | day
  deriving DecidableEq, Repr

namespace Operator

def all : List Operator :=
  [eq, ne, gt, lt, gte, lte, exact, iexact, contains, icontains, startsWith, istartsWith, endsWith,
   iendsWith, regex, iregex, isIn, isNull, range, year, month, day]

/-- The token that selects the operator in a key. -/
def token : Operator → String
  | eq => "eq"
  | ne => "ne"
  | gt => "gt"
  | lt => "lt"
  | gte => "gte"
  | lte => "lte"
  | exact => "exact"
  | iexact => "iexact"
  | contains => "contains"
  | icontains => "icontains"
  | startsWith => "startswith"
  | istartsWith => "istartswith"
  | endsWith => "endswith"
  | iendsWith => "iendswith"
  | regex => "regex"
  | iregex => "iregex"
  | isIn => "in"
  | isNull => "isnull"
  | range => "range"
  | year => "year"
  | month => "month"
  | day => "day"

def ofToken? (token : String) : Option Operator := all.find? (·.token = token)

theorem ofToken?_token (op : Operator) : ofToken? op.token = some op := by
  cases op <;> decide

/-- Whether the operator matches a text against a pattern. -/
def isTextual : Operator → Bool
  | iexact | contains | icontains | startsWith | istartsWith | endsWith | iendsWith | regex
  | iregex => true
  | _ => false

def datePart? : Operator → Option DatePart
  | year => some .year
  | month => some .month
  | day => some .day
  | _ => none

/-! ## Values that an operator takes -/

def refuse {α : Type} (op : Operator) (expected : Expected) (v : Value) : Except LookupError α :=
  .error (.invalidValue op.token expected v)

/-- Date parts need a date or timestamp, patterns a text. -/
def ensureColumn (op : Operator) (a : Attribute) (v : Value) : Except LookupError Unit :=
  if op.datePart?.isSome ∧ a.type ≠ .date ∧ a.type ≠ .timestamp then
    op.refuse (.dateColumn a.name a.type) v
  else if op.isTextual ∧ a.type ≠ .text then op.refuse (.textColumn a.name a.type) v
  else .ok ()

/-- The value in the type of the attribute; an integer attribute also takes other numbers. -/
def convertFor? (a : Attribute) (v : Value) : Option Value :=
  (v.convert? a.type).or (if a.type = .int then v.convert? .float else none)

/-- A value that is no list, converted if values are. -/
def scalar (op : Operator) (a : Attribute) (v : Value) (coerce : Bool) :
    Except LookupError Value :=
  if v.isList then op.refuse .single v
  else if coerce then
    match convertFor? a v with
    | some w => .ok w
    | none => op.refuse (.ofType a.type) v
  else .ok v

/-- A scalar that is not null. -/
def bound (op : Operator) (a : Attribute) (v : Value) (coerce : Bool) : Except LookupError Value :=
  if v.isNull then op.refuse .nonNull v else op.scalar a v coerce

/-- The text of a pattern; numbers are written out if values are converted. -/
def text (op : Operator) (v : Value) (coerce : Bool) : Except LookupError String :=
  match v with
  | .text s => .ok s
  | .int _ | .float _ => if coerce then .ok v.display else op.refuse .string v
  | _ => op.refuse .string v

/-! ## Predicates -/

def compareWith (op : Operator) (comparison : Comparison) (c : Column) (a : Attribute) (v : Value)
    (coerce : Bool) : Except LookupError Predicate := do
  return .compare c comparison (← op.bound a v coerce)

/-- A LIKE pattern of the value's text with wildcards around it. -/
def likeWith (op : Operator) (before after : String) (ignoreCase : Bool) (c : Column) (v : Value)
    (coerce : Bool) : Except LookupError Predicate := do
  return .like c (before ++ Pattern.likeLiteral (← op.text v coerce) ++ after) ignoreCase

def regexWith (op : Operator) (ignoreCase : Bool) (c : Column) (v : Value) (coerce : Bool) :
    Except LookupError Predicate := do
  let pattern ← op.text v coerce
  match Pattern.Node.ofText (Pattern.sourceOfRegex pattern ignoreCase) with
  | .ok _ => return .regex c pattern ignoreCase
  | .error cause => op.refuse (.regularExpression cause) v

def memberWith (op : Operator) (c : Column) (a : Attribute) (v : Value) (coerce : Bool) :
    Except LookupError Predicate :=
  match v with
  | .list items => do return .oneOf c (← items.mapM fun item => op.scalar a item coerce)
  | v => op.refuse .list v

def nullWith (op : Operator) (c : Column) (v : Value) (coerce : Bool) :
    Except LookupError Predicate :=
  match v.convert? .bool with
  | some (.bool b) => if coerce || v.asBool?.isSome then .ok (.isNull c b) else op.refuse .boolean v
  | _ => op.refuse .boolean v

def betweenWith (op : Operator) (c : Column) (a : Attribute) (v : Value) (coerce : Bool) :
    Except LookupError Predicate :=
  match v with
  | .list [low, high] => do return .between c (← op.bound a low coerce) (← op.bound a high coerce)
  | v => op.refuse .pair v

def partWith (op : Operator) (part : DatePart) (c : Column) (v : Value) (coerce : Bool) :
    Except LookupError Predicate :=
  match (if coerce then v.convert? .int else v.asInt?.map .int) with
  | some (.int n) => .ok (.datePart c part (.int n))
  | _ => op.refuse .integer v

/-- The predicate for a column and a value. Equality with null asks whether the column is null. -/
def build (op : Operator) (c : Column) (a : Attribute) (v : Value) (coerce : Bool) :
    Except LookupError Predicate := do
  op.ensureColumn a v
  match op with
  | eq | exact => if v.isNull then return .isNull c true else op.compareWith .eq c a v coerce
  | ne => if v.isNull then return .isNull c false else op.compareWith .ne c a v coerce
  | gt => op.compareWith .gt c a v coerce
  | lt => op.compareWith .lt c a v coerce
  | gte => op.compareWith .ge c a v coerce
  | lte => op.compareWith .le c a v coerce
  | iexact => op.likeWith "" "" true c v coerce
  | contains => op.likeWith "%" "%" false c v coerce
  | icontains => op.likeWith "%" "%" true c v coerce
  | startsWith => op.likeWith "" "%" false c v coerce
  | istartsWith => op.likeWith "" "%" true c v coerce
  | endsWith => op.likeWith "%" "" false c v coerce
  | iendsWith => op.likeWith "%" "" true c v coerce
  | regex => op.regexWith false c v coerce
  | iregex => op.regexWith true c v coerce
  | isIn => op.memberWith c a v coerce
  | isNull => op.nullWith c v coerce
  | range => op.betweenWith c a v coerce
  | year => op.partWith .year c v coerce
  | month => op.partWith .month c v coerce
  | day => op.partWith .day c v coerce

end Operator

end FieldLookup
