import FieldLookup.Lookup.Compiler
import FieldLookup.Text.Pieces

/-!
What the outcome of a step is expected to be, and the text that says how it differs, with or without
the explanation of a pattern that is no expression.
-/
namespace FieldLookup

/-- The query after a step and the rows it fetches. -/
structure Reached where
  query : Query
  rows : List Row

abbrev Outcome := Except LookupError Reached

structure Assertion where
  rows : Option Nat := none
  ids : Option (List Int) := none
  ordered : Bool := false
  first : Option Int := none
  joins : Option Nat := none
  predicates : Option Nat := none
  sortKeys : Option Nat := none
  eagerLoads : Option Nat := none
  error : Option String := none
  errorPattern : Option String := none
  status : Option Nat := none
  deriving DecidableEq, Repr

/-- How an outcome differs from what was expected. -/
inductive Mismatch where
  | succeeded
  | failed (e : LookupError)
  | errorText (expected : String) (actual : LookupError)
  | badPattern (cause : PatternError)
  | errorPattern (expected : String) (actual : LookupError)
  | status (expected actual : Nat)
  | shape (what : String) (expected actual : Nat)
  | rowCount (expected actual : Nat) (found : List Int)
  | ids (ordered : Bool) (expected actual : List Int)
  | first (expected : Int) (actual : Option Int)
  deriving DecidableEq, Repr

def idTexts : List Int → String
  | [] => ""
  | [n] => Text.Numeral.intText n
  | n :: m :: rest => Text.Numeral.intText n ++ ", " ++ idTexts (m :: rest)

def idList (ids : List Int) : String := "[" ++ idTexts ids ++ "]"

def firstText : Option Int → String
  | some n => "Some(" ++ Text.Numeral.intText n ++ ")"
  | none => "None"

namespace Mismatch

def describe (explained : Bool) : Mismatch → String
  | succeeded => "expected an error, but step succeeded"
  | failed e => "step failed: " ++ e.describe explained
  | errorText expected actual =>
    "expected error containing '" ++ expected ++ "', got: " ++ actual.describe explained
  | badPattern cause =>
    "invalid regex pattern" ++ (if explained then ": " ++ cause.message else "")
  | errorPattern expected actual =>
    "expected error matching '" ++ expected ++ "', got: " ++ actual.describe explained
  | status expected actual =>
    "expected status " ++ Text.Numeral.natText expected ++ ", got " ++ Text.Numeral.natText actual
  | shape what expected actual =>
    "expected " ++ Text.Numeral.natText expected ++ " " ++ what ++ ", got " ++
      Text.Numeral.natText actual
  | rowCount expected actual found =>
    "expected " ++ Text.Numeral.natText expected ++ " rows, got " ++ Text.Numeral.natText actual ++
      " (" ++ idList found ++ ")"
  | ids ordered expected actual =>
    "expected " ++ (if ordered then "ordered ids" else "ids") ++ " " ++ idList expected ++
      ", got " ++ idList actual
  | first expected actual =>
    "expected first id " ++ Text.Numeral.intText expected ++ ", got " ++ firstText actual

def message (m : Mismatch) : String := m.describe true

def summary (m : Mismatch) : String := m.describe false

end Mismatch

/-- The integers under `id` of some rows. -/
def idsOf (rows : List Row) : List Int :=
  rows.filterMap fun row => ((row.attribute? "id").bind Value.asInt?).map (·.toInt)

namespace Assertion

/-! ## Building -/

def expectRows (a : Assertion) (n : Nat) : Assertion := { a with rows := some n }

/-- Expects ids in any order. -/
def expectIds (a : Assertion) (ids : List Int) : Assertion :=
  { a with ids := some ids, ordered := false }

def expectOrderedIds (a : Assertion) (ids : List Int) : Assertion :=
  { a with ids := some ids, ordered := true }

/-! ## Checking -/

def ensure (ok : Bool) (m : Mismatch) : Except Mismatch Unit := if ok then .ok () else .error m

/-- Whether errors are expected; nothing else is then looked at. -/
def expectsError (a : Assertion) : Bool :=
  a.error.isSome || a.errorPattern.isSome || a.status.isSome

def checkError (a : Assertion) (e : LookupError) : Except Mismatch Unit := do
  match a.error with
  | some expected => ensure (Text.occursIn expected e.message) (.errorText expected e)
  | none => .ok ()
  match a.errorPattern with
  | some pattern =>
    match Pattern.Node.ofText pattern with
    | .ok node => ensure (node.occursIn e.message) (.errorPattern pattern e)
    | .error cause => .error (.badPattern cause)
  | none => .ok ()
  match a.status with
  | some expected => ensure (e.status = expected) (.status expected e.status)
  | none => .ok ()

def checkCount (what : String) (expected : Option Nat) (actual : Nat) : Except Mismatch Unit :=
  match expected with
  | some n => ensure (n = actual) (.shape what n actual)
  | none => .ok ()

def checkShape (a : Assertion) (q : Query) : Except Mismatch Unit := do
  checkCount "joins" a.joins q.joins.length
  checkCount "predicates" a.predicates q.predicates.length
  checkCount "sort keys" a.sortKeys q.order.length
  checkCount "eager loads" a.eagerLoads q.eager.length

def sortedIds (ids : List Int) : List Int := ids.mergeSort (· ≤ ·)

def checkRows (a : Assertion) (rows : List Row) : Except Mismatch Unit := do
  let actual := idsOf rows
  match a.rows with
  | some n => ensure (rows.length = n) (.rowCount n rows.length actual)
  | none => .ok ()
  match a.ids with
  | some expected =>
    let agree := if a.ordered then actual = expected else sortedIds actual = sortedIds expected
    ensure agree (.ids a.ordered expected actual)
  | none => .ok ()
  match a.first with
  | some n => ensure (actual.head? = some n) (.first n actual.head?)
  | none => .ok ()

/-- Accepts an outcome, or says how it differs. -/
def verify (a : Assertion) (outcome : Outcome) : Except Mismatch Unit :=
  if a.expectsError then
    match outcome with
    | .ok _ => .error .succeeded
    | .error e => a.checkError e
  else
    match outcome with
    | .ok reached => do
      a.checkShape reached.query
      a.checkRows reached.rows
    | .error e => .error (.failed e)

end Assertion

end FieldLookup
