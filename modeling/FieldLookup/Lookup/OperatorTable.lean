import FieldLookup.Lookup.Operator
import FieldLookup.Lookup.Settings

/-!
Tables from tokens to operators: the standard one, and the one that settings describe.
-/
namespace FieldLookup

/-- Operators by the tokens that select them. -/
structure OperatorTable where
  tokens : Ordered Operator

namespace OperatorTable

def empty : OperatorTable := ⟨Ordered.empty⟩

def insert (t : OperatorTable) (token : String) (op : Operator) : OperatorTable :=
  ⟨t.tokens.insert token op⟩

def erase (t : OperatorTable) (token : String) : OperatorTable := ⟨t.tokens.erase token⟩

def find? (t : OperatorTable) (token : String) : Option Operator := t.tokens.get? token

def contains (t : OperatorTable) (token : String) : Bool := (t.find? token).isSome

def size (t : OperatorTable) : Nat := t.tokens.size

/-- Every built-in operator under its own token. -/
def standard : OperatorTable := Operator.all.foldl (fun t op => t.insert op.token op) empty

/-- The tokens in order. -/
def sortedTokens (t : OperatorTable) : List String := t.tokens.sorted.map (·.1)

/-- Whether two tables hold the same operators under the same tokens. -/
def same (t u : OperatorTable) : Bool := t.tokens.sorted = u.tokens.sorted

/-- Adds aliases in the order of their names. -/
def addAliases (t : OperatorTable) : List (String × String) → Except LookupError OperatorTable
  | [] => .ok t
  | (name, target) :: rest =>
    match Operator.ofToken? target with
    | some op => (t.insert name op).addAliases rest
    | none => .error (.settings (.unknownTarget name target))

/-- The standard table with the aliases of the settings and without the disabled tokens. -/
def ofSettings (s : Settings) : Except LookupError OperatorTable := do
  let t ← standard.addAliases s.aliases.sorted
  return s.disabled.foldl erase t

end OperatorTable

end FieldLookup
