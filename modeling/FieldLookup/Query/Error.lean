import FieldLookup.Pattern.Error
import FieldLookup.Query.Path
import FieldLookup.Store.Basic

/-!
What can go wrong when a query is run, and the text that says so, with or without the explanation of
a pattern that is no expression. The last case is a run that no error ends: its sort gives up, since
the values of the sort keys are in no order.
-/
namespace FieldLookup

inductive QueryError where
  | unknownRelation (id : RelationId)
  | unjoinedPath (path : Path)
  | invalidPattern (pattern : String) (cause : PatternError)
  | noResult
  | multipleResults (count : Nat)
  | rowNotFound (id : RowId)
  | unsortable
  deriving DecidableEq, Repr

namespace QueryError

def describe (explained : Bool) : QueryError → String
  | unknownRelation id => "Unknown relationship: " ++ id.text
  | unjoinedPath path =>
    "Column references path " ++ path.text ++ " which the query does not join"
  | invalidPattern pattern cause =>
    "Invalid pattern '" ++ pattern ++ "'" ++ (if explained then ": " ++ cause.message else "")
  | noResult => "No row was found for one()"
  | multipleResults count =>
    "Multiple rows were found for one(): " ++ Text.Numeral.natText count
  | rowNotFound id => "Row not found: " ++ id.text
  | unsortable => "Sort keys meet values that are in no order"

def message (e : QueryError) : String := e.describe true

def summary (e : QueryError) : String := e.describe false

end QueryError

end FieldLookup
