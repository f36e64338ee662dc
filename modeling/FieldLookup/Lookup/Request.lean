import FieldLookup.Lookup.Operator
import FieldLookup.Lookup.Settings
import FieldLookup.Ordered
import FieldLookup.Text.Blank
import FieldLookup.Text.Pieces

/-!
Request parameters as lookups and sort keys. Values stay text until the operator and the column of
their key are known; `convertRaw` then reads them.
-/
namespace FieldLookup

/-- Lookups by key, in the order in which keys were first given. -/
abbrev Lookups := Ordered Value

/-- What a request asks for. -/
structure Request where
  lookups : Lookups
  order : List String

namespace Request

def empty : Request := ⟨Ordered.empty, []⟩

/-- The parameter that holds sort keys. -/
def orderParameter : String := "order_by"

/-- Parameters of a paginator. -/
def pageParameters : List String := ["limit", "offset"]

/-- The parts of a text between commas, without blanks at their ends. -/
def commaParts (raw : String) : List String := (Text.split "," raw).map Text.trim

def nonemptyParts (raw : String) : List String := (commaParts raw).filter fun part => !part.isEmpty

/-- Whether a key is an allowed field, or one followed by the separator. -/
def permits (separator key field : String) : Bool :=
  key = field ||
    (match Text.dropFront? field.toList key.toList with
      | some rest => (Text.dropFront? separator.toList rest).isSome
      | none => false)

/-- The value of a parameter: a list for a key that ends in `in` or `range`, else the text. -/
def rawValue (separator key raw : String) : Except LookupError Value :=
  let last := Text.lastPiece separator key
  if last = "in" then .ok (.list ((nonemptyParts raw).map .text))
  else if last = "range" then
    match commaParts raw with
    | [low, high] => .ok (.list [.text low, .text high])
    | _ => .error (.invalidValue "range" .bounds (.text raw))
  else .ok (.text raw)

def addParameter (separator : String) (allowed : Option (List String)) (f : Request)
    (key raw : String) : Except LookupError Request :=
  if key = orderParameter then .ok { f with order := f.order ++ nonemptyParts raw }
  else if key ∈ pageParameters then .ok f
  else if allowed.all fun fields => fields.any (permits separator key) then do
    return { f with lookups := f.lookups.insert key (← rawValue separator key raw) }
  else .error (.notAllowed key)

/-- Reads parameters one after the other; with a list of allowed fields, no other may be used. -/
def ofParameters (separator : String) (allowed : Option (List String))
    (parameters : List (String × String)) : Except LookupError Request :=
  parameters.foldlM (fun f p => addParameter separator allowed f p.1 p.2) empty

end Request

/-- Texts of parameters that mean null. -/
def nullTexts : List String := ["nil", "none", "None"]

/-- A text of a parameter, read for an operator and a type. -/
def convertText (op : Operator) (type : ScalarType) (s : String) : Value :=
  if op.isTextual then .text s
  else if op = .isNull then ((Value.text s).convert? .bool).getD (.text s)
  else if s ∈ nullTexts then .null
  else if type = .bool ∧ (s = "true" ∨ s = "True") then .bool true
  else if type = .bool ∧ (s = "false" ∨ s = "False") then .bool false
  else .text s

mutual

/-- A value of a parameter, read for an operator and a type. -/
def convertRaw (op : Operator) (type : ScalarType) : Value → Value
  | .list items => .list (convertRawItems op type items)
  | .text s => convertText op type s
  | v => v

def convertRawItems (op : Operator) (type : ScalarType) : List Value → List Value
  | [] => []
  | v :: rest => convertRaw op type v :: convertRawItems op type rest

end

end FieldLookup
