import FieldLookup.Value.Basic
import FieldLookup.Binary64.Shortest

/-!
The text in which a value is shown in conditions and messages.
-/
namespace FieldLookup.Value

mutual

def display : Value → String
  | null => "null"
  | bool true => "true"
  | bool false => "false"
  | int n => Text.Numeral.intText n.toInt
  | float x => x.text
  | text s => "\"" ++ s ++ "\""
  | timestamp ms => "ts:" ++ Text.Numeral.intText ms.toInt
  | date d => d.text
  | list items => "[" ++ displayItems items ++ "]"

/-- Items with a comma and a space between them. -/
def displayItems : List Value → String
  | [] => ""
  | [v] => v.display
  | v :: w :: rest => v.display ++ ", " ++ displayItems (w :: rest)

end

end FieldLookup.Value
