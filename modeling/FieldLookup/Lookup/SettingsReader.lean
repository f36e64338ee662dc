import FieldLookup.Lookup.Settings
import FieldLookup.Toml.Reader

/-!
Settings from a TOML document. Keys that are missing keep their standard value and other keys are
ignored; a value of another kind is an error.
-/
namespace FieldLookup.Settings

/-- The name of the one entry that a date and time has when a table is expected. -/
def dateTimeEntry : String := "$__toml_private_datetime"

def readText? : Toml → Option String
  | .text s => some s
  | _ => none

def readBool? : Toml → Option Bool
  | .bool b => some b
  | _ => none

def readTexts? : Toml → Option (List String)
  | .array items => items.mapM readText?
  | _ => none

def readTable? : Toml → Option (Ordered String)
  | .table _ es => (es.mapM fun e => (readText? e.2).map (e.1, ·)).map Ordered.ofList
  | .dateTime text => some (Ordered.ofList [(dateTimeEntry, text)])
  | _ => none

/-- The value of a key, or the standard one. -/
def readKey? {α : Type} (read : Toml → Option α) (standard : α) (es : Toml.Entries) (key : String) :
    Option α :=
  match es.lookup key with
  | some v => read v
  | none => some standard

def ofEntries? (es : Toml.Entries) : Option Settings := do
  let separator ← readKey? readText? standard.separator es "separator"
  let aliases ← readKey? readTable? standard.aliases es "operator_aliases"
  let disabled ← readKey? readTexts? standard.disabled es "disabled_operators"
  let coerce ← readKey? readBool? standard.coerce es "coerce_strings"
  return ⟨separator, aliases, disabled, coerce⟩

/-- Settings that are read and valid. -/
def ofToml (source : String) : Except LookupError Settings :=
  match (Toml.ofText? source).bind ofEntries? with
  | none => .error (.settings .unreadable)
  | some s => do
    s.validate
    return s

end FieldLookup.Settings
