import FieldLookup.Value.Basic
import FieldLookup.Binary64.Reader

/-!
Converting a value to the type of an attribute. Texts are read, integers widen to numbers and
timestamps, and null stays null.
-/
namespace FieldLookup.Value

/-- Milliseconds, an instant with an offset, or one without. -/
def timestampOf? (s : List Char) : Option Int64 :=
  match Text.Numeral.int64Of? s with
  | some ms => some ms
  | none =>
    match Calendar.offsetInstant? s with
    | some ms => some (Int64.ofInt ms)
    | none => (Calendar.localInstant? s).map Int64.ofInt

/-- The value that a text without blanks at its ends stands for in a type. -/
def read? (s : String) : ScalarType → Option Value
  | .bool =>
    if s = "true" ∨ s = "True" ∨ s = "1" then some (bool true)
    else if s = "false" ∨ s = "False" ∨ s = "0" then some (bool false)
    else none
  | .int => (Text.Numeral.int64Of? s.toList).map int
  | .float => (Binary64.ofChars? s.toList).map float
  | .text => some (text s)
  | .date => (Calendar.dateOf? s.toList).map date
  | .timestamp => (timestampOf? s.toList).map timestamp

def convert? (v : Value) (target : ScalarType) : Option Value :=
  match v, target with
  | null, _ => some null
  | text s, .text => some (text s)
  | text s, target => read? (Text.trim s) target
  | int n, .float => some (float (Binary64.ofInt n.toInt))
  | int n, .timestamp => some (timestamp n)
  | v, target => if v.type? = some target then some v else none

end FieldLookup.Value
