/-!
Why a text is no regular expression, and the text that says so.
-/
namespace FieldLookup

inductive PatternError where
  | tooDeep
  | tooLarge
  | unclosedGroup
  | unopenedGroup
  | questionAtEnd
  | lookAround
  | nameMissing
  | nameInvalid
  | nameUnclosed
  | nameEmpty
  | nameRepeated
  | flagsEmpty
  | flagsUnclosed
  | flagUnknown
  | flagRepeated
  | minusRepeated
  | minusLast
  | escapeAtEnd
  | escapeUnknown
  | backReference
  | unicodeClass
  | hexAtEnd
  | hexTooShort
  | hexNoDigit
  | hexNoCharacter
  | bracedHexUnclosed
  | bracedHexEmpty
  | bracedHexNoDigit
  | bracedHexNoCharacter
  | edgeAtEnd
  | edgeUnclosed
  | edgeUnknown
  | nothingToRepeat
  | nothingToCount
  | countAtEnd
  | countNoDigits
  | countTooLarge
  | countUnclosed
  | countUnclosedAfterComma
  | countUnclosedAfterMost
  | countInvalid
  | countReversed
  | classUnclosed
  | classUnclosedAfterNegation
  | classUnclosedAfterBracket
  | classUnclosedAfterItem
  | classUnclosedAfterHyphen
  | classNested
  | classIntersection
  | classDifference
  | classSymmetricDifference
  | classItemInvalid
  | rangeOfClasses
  | rangeReversed
  | other (reason : String)
  deriving DecidableEq, Repr

def PatternError.message : PatternError → String
  | tooDeep => "pattern has too much nesting"
  | tooLarge => "compiled regex exceeded size limit"
  | unclosedGroup => "found open group without closing ')'"
  | unopenedGroup => "found closing ')' without matching '('"
  | questionAtEnd => "expected closing ')', but got end of pattern"
  | lookAround => "look-around is not supported"
  | nameMissing => "expected capture group name, but got end of pattern"
  | nameInvalid => "invalid group name"
  | nameUnclosed => "expected end of capture group name, but got end of pattern"
  | nameEmpty => "empty capture group names are not allowed"
  | nameRepeated => "duplicate capture group name"
  | flagsEmpty => "empty flag directive '(?)' is not allowed"
  | flagsUnclosed => "expected ':' or ')' to end inline flags, but got end of pattern"
  | flagUnknown => "unrecognized inline flag"
  | flagRepeated => "duplicate inline flag is not allowed"
  | minusRepeated => "inline flag negation cannot be repeated"
  | minusLast => "inline flags cannot end with negation directive"
  | escapeAtEnd => "saw start of escape sequence, but saw end of pattern before it finished"
  | escapeUnknown => "unrecognized escape sequence"
  | backReference => "backreferences are not supported"
  | unicodeClass => "Unicode character classes are not supported"
  | hexAtEnd => "expected hexadecimal number, but saw end of pattern first"
  | hexTooShort => "expected fixed length hexadecimal number, but saw end of pattern first"
  | hexNoDigit => "expected fixed length hexadecimal number, but got non-hex digit"
  | hexNoCharacter => "got invalid fixed length hexadecimal number"
  | bracedHexUnclosed =>
    "expected hexadecimal number, but saw end of pattern before closing brace"
  | bracedHexEmpty => "expected hexadecimal number in braces, but got no digits"
  | bracedHexNoDigit => "expected hexadecimal number in braces, but got non-hex digit"
  | bracedHexNoCharacter => "got invalid hexadecimal number in braces"
  | edgeAtEnd => "found start of special word boundary or repetition without an end"
  | edgeUnclosed => "special word boundary assertion is unclosed or has an invalid character"
  | edgeUnknown => "special word boundary assertion is unrecognized"
  | nothingToRepeat => "uncounted repetition operator must be applied to a sub-expression"
  | nothingToCount => "counted repetition operator must be applied to a sub-expression"
  | countAtEnd => "found unclosed counted repetition operator"
  | countNoDigits => "expected decimal number, but found no digits"
  | countTooLarge => "got invalid decimal number"
  | countUnclosed => "found incomplete and unclosed counted repetition operator"
  | countUnclosedAfterComma => "found counted repetition operator with a comma that is unclosed"
  | countUnclosedAfterMost => "found counted repetition with min and max that is unclosed"
  | countInvalid => "expected closing brace for counted repetition, but got something else"
  | countReversed => "found counted repetition with a min bigger than its max"
  | classUnclosed => "found unclosed character class"
  | classUnclosedAfterNegation => "negated character class has no closing bracket"
  | classUnclosedAfterBracket =>
    "character class begins with literal ']' but has no closing bracket"
  | classUnclosedAfterItem => "non-empty character class has no closing bracket"
  | classUnclosedAfterHyphen => "non-empty character class has no closing bracket after dash"
  | classNested => "nested character classes are not supported"
  | classIntersection => "character class intersection is not supported"
  | classDifference => "character class difference is not supported"
  | classSymmetricDifference => "character class symmetric difference is not supported"
  | classItemInvalid => "invalid escape sequence in character class"
  | rangeOfClasses => "character class ranges must start and end with a single character"
  | rangeReversed => "invalid range in character class"
  | other reason => reason

end FieldLookup
