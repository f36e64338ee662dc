import FieldLookup.Pattern.Like
import FieldLookup.Query.Error
import FieldLookup.Query.Truth

/-!
The regular expressions of a condition, read once before rows are tested. Each pattern leaf has a
source; a condition whose sources can all be read gets a table from sources to expressions.
-/
namespace FieldLookup

/-- Expressions by their sources. -/
structure PatternTable where
  entries : List (String × Pattern.Node)

namespace PatternTable

def empty : PatternTable := ⟨[]⟩

def find? (m : PatternTable) (source : String) : Option Pattern.Node := m.entries.lookup source

/-- Reads the source of a pattern, unless it was read before. -/
def add (m : PatternTable) (pattern source : String) : Except QueryError PatternTable :=
  if (m.find? source).isSome then .ok m
  else
    match Pattern.Node.ofText source with
    | .ok node => .ok ⟨m.entries ++ [(source, node)]⟩
    | .error cause => .error (.invalidPattern pattern cause)

/-- A pattern leaf's pattern and source. -/
def patternOf? : Predicate → Option (String × String)
  | .like _ pattern ignoreCase => some (pattern, Pattern.sourceOfLike pattern ignoreCase)
  | .regex _ pattern ignoreCase => some (pattern, Pattern.sourceOfRegex pattern ignoreCase)
  | _ => none

/-- Reads patterns from left to right; the first that cannot be read is the error. -/
def ofPatterns : PatternTable → List (String × String) → Except QueryError PatternTable
  | m, [] => .ok m
  | m, (pattern, source) :: rest => do ofPatterns (← m.add pattern source) rest

def ofCondition (condition : Predicate) : Except QueryError PatternTable :=
  ofPatterns empty (condition.leaves.filterMap patternOf?)

/-- Whether a text matches the expression of a source; unknown for a value that is no text. -/
def test (m : PatternTable) (source : String) (actual : Value) : Truth :=
  actual.asText?.bind fun s => (m.find? source).map fun node => node.occursIn s

end PatternTable

end FieldLookup
