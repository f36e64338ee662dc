import FieldLookup.Lookup.Error
import FieldLookup.Ordered

/-!
Settings of a compiler of lookups.
-/
namespace FieldLookup

/-- The separator of keys if no other is set. -/
def standardSeparator : String := "__"

structure Settings where
  separator : String
  /-- Further tokens, each for the operator of a built-in token. -/
  aliases : Ordered String
  /-- Tokens that select nothing. -/
  disabled : List String
  /-- Whether values are converted to the type of the attribute. -/
  coerce : Bool

namespace Settings

def standard : Settings := ⟨standardSeparator, Ordered.empty, [], true⟩

def validate (s : Settings) : Except LookupError Unit :=
  if s.separator.isEmpty then .error (.settings .emptySeparator) else .ok ()

end Settings

end FieldLookup
