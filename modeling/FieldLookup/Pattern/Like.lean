import FieldLookup.Pattern.Reader
import FieldLookup.Pattern.Matcher

/-!
LIKE patterns: `%` stands for any text, `_` for one character, and a backslash makes the next
character literal. A pattern is matched through the source of a regular expression that is anchored
at both ends.
-/
namespace FieldLookup.Pattern

/-- Characters with a meaning in regular expressions. -/
def metaChars : List Char :=
  ['\\', '.', '+', '*', '?', '(', ')', '|', '[', ']', '{', '}', '^', '$', '#', '&', '-', '~']

/-- The source that matches just the character. -/
def quoteChar (c : Char) : List Char := if c ∈ metaChars then ['\\', c] else [c]

def likeBody : List Char → List Char
  | [] => []
  | ['\\'] => quoteChar '\\'
  | '\\' :: c :: s => quoteChar c ++ likeBody s
  | '%' :: s => '.' :: '*' :: likeBody s
  | '_' :: s => '.' :: likeBody s
  | c :: s => quoteChar c ++ likeBody s

/-- The source of a LIKE pattern. -/
def sourceOfLike (pattern : String) (ignoreCase : Bool) : String :=
  (if ignoreCase then "(?is)^" else "(?s)^") ++ String.ofList (likeBody pattern.toList) ++ "$"

/-- The source of a regular expression. -/
def sourceOfRegex (pattern : String) (ignoreCase : Bool) : String :=
  if ignoreCase then "(?i)" ++ pattern else pattern

def quoteWildcards : List Char → List Char
  | [] => []
  | c :: s =>
    if c = '%' ∨ c = '_' ∨ c = '\\' then '\\' :: c :: quoteWildcards s
    else c :: quoteWildcards s

/-- The LIKE pattern that only the text itself matches. -/
def likeLiteral (s : String) : String := String.ofList (quoteWildcards s.toList)

end FieldLookup.Pattern
