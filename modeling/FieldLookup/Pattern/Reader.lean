import FieldLookup.Pattern.Syntax
import FieldLookup.Text.Blank
import FieldLookup.Text.Letter
import FieldLookup.Text.Numeral

/-!
Reading regular expressions, in the documented syntax of `regex-lite`: literals and escapes, the
point and the anchors, classes in brackets with ranges and with names, the classes and word edges of
ASCII by a letter, groups with and without names, alternation, repetition with bounds, greedy or
lazy, and the flags `i`, `m`, `s`, `U`, `R` and `x`. Look-around, references to groups, Unicode
properties and operations on classes are not part of the language. Each reader takes what it needs
from the front of the text and returns the rest, or says why the text is no expression. What is read
from the source of a LIKE pattern is stated by `Node.ofText_sourceOfLike`.
-/
namespace FieldLookup.Pattern

open FieldLookup.Text

/-- What a reader finds, or why there is no expression. -/
abbrev Reading := Except PatternError

/-- The flags that hold at a place of an expression. -/
structure Flags where
  ignoreCase : Bool
  multiLine : Bool
  dotAll : Bool
  anyLineEnd : Bool
  verbose : Bool
  deriving DecidableEq, Repr

/-- The flags at the start of an expression. -/
def Flags.initial : Flags := ⟨false, false, false, false, false⟩

/-! ## White space and comments of verbose expressions -/

/-- Drops white space and comments; a comment runs from `#` to the end of the line. -/
def dropVerbose : (inComment : Bool) → List Char → List Char
  | _, [] => []
  | true, c :: s => dropVerbose (c ≠ '\n') s
  | false, c :: s =>
    if isBlank c then dropVerbose false s
    else if c = '#' then dropVerbose true s
    else c :: s

def Flags.skip (flags : Flags) (s : List Char) : List Char :=
  if flags.verbose then dropVerbose false s else s

/-- The text after its first character and what may be skipped there. -/
def Flags.next (flags : Flags) (s : List Char) : List Char := flags.skip s.tail

/-- The first character that is neither white space nor the first `#`. -/
def peekVerbose : (seenComment : Bool) → List Char → Option Char
  | _, [] => none
  | seen, c :: s =>
    if isBlank c then peekVerbose seen s
    else if c = '#' ∧ seen = false then peekVerbose true s
    else some c

/-- The character that a hyphen in a class is judged by. -/
def Flags.peek (flags : Flags) (s : List Char) : Option Char :=
  if flags.verbose then (peekVerbose false s).or s.head? else s.head?

/-! ## Literals and escapes -/

/-- A literal character, with both cases when case is ignored. -/
def Flags.literal (flags : Flags) (c : Char) : Node :=
  match otherCase? c with
  | some d =>
    if flags.ignoreCase then
      .oneOf (CharClass.ofRanges (CharClass.single c ++ CharClass.single d))
    else .char c
  | none => .char c

def Flags.dot (flags : Flags) : Node :=
  .oneOf (if flags.dotAll then CharClass.any
    else if flags.anyLineEnd then CharClass.notLineEnd
    else CharClass.notLineFeed)

def Flags.caret (flags : Flags) : Node :=
  .look (if !flags.multiLine then .start
    else if flags.anyLineEnd then .lineStartAny
    else .lineStart)

def Flags.dollar (flags : Flags) : Node :=
  .look (if !flags.multiLine then .stop
    else if flags.anyLineEnd then .lineStopAny
    else .lineStop)

/-- Characters that a backslash makes literal: all of ASCII but letters, digits and `<` and `>`. -/
def isEscapable (c : Char) : Bool :=
  c.toNat < 128 && !c.isAlpha && !Numeral.isDigit c && c ≠ '<' && c ≠ '>'

/-- Exactly `count` more hexadecimal digits, the first of them at the front. -/
def fixedHex (flags : Flags) : (count value : Nat) → List Char → Reading (Nat × List Char)
  | 0, value, s => .ok (value, s)
  | _ + 1, _, [] => .error .hexTooShort
  | count + 1, value, c :: s =>
    match Numeral.hexValue? c with
    | some d => fixedHex flags count (16 * value + d) (flags.skip s)
    | none => .error .hexNoDigit

/-- Hexadecimal digits up to the closing brace, from `left` characters at most. -/
def bracedHex (flags : Flags) : (left : Nat) → (value? : Option Nat) → List Char →
    Reading (Nat × List Char)
  | 0, _, _ | _ + 1, _, [] => .error .bracedHexUnclosed
  | _ + 1, none, '}' :: _ => .error .bracedHexEmpty
  | _ + 1, some value, '}' :: s => .ok (value, flags.skip s)
  | left + 1, value?, c :: s =>
    match Numeral.hexValue? c with
    | some d => bracedHex flags left (some (16 * value?.getD 0 + d)) (flags.skip s)
    | none => .error .bracedHexNoDigit

/-- A literal by its code point; not every number is one. -/
def literalOfCode (flags : Flags) (e : PatternError) : Nat × List Char → Reading (Node × List Char)
  | (code, s) =>
    match Numeral.charOfCode? code with
    | some c => .ok (flags.literal c, s)
    | none => .error e

/-- A code point after `\x`, `\u` or `\U`. -/
def hexLiteral (flags : Flags) (count : Nat) (s : List Char) : Reading (Node × List Char) :=
  match flags.skip s with
  | [] => .error .hexAtEnd
  | '{' :: s => do
    literalOfCode flags .bracedHexNoCharacter (← bracedHex flags (s.length + 1) none (flags.skip s))
  | s => do literalOfCode flags .hexNoCharacter (← fixedHex flags count 0 s)

/-- The letters and hyphens at the front, from `left` characters at most. -/
def edgeName (flags : Flags) : (left : Nat) → List Char → List Char × List Char
  | 0, s => ([], s)
  | _ + 1, [] => ([], [])
  | left + 1, c :: s =>
    if c.isAlpha || c = '-' then
      let (name, rest) := edgeName flags left (flags.skip s)
      (c :: name, rest)
    else ([], c :: s)

/-- The named word edges that may follow `\b` in braces. -/
def edgeOfName? : String → Option Look
  | "start" => some .wordStart
  | "end" => some .wordStop
  | "start-half" => some .wordStartHalf
  | "end-half" => some .wordStopHalf
  | _ => none

/-- What follows `\b`: a name in braces, or else nothing, so that a brace may open a repetition. -/
def wordEdge (flags : Flags) (s : List Char) : Reading (Node × List Char) :=
  match s with
  | '{' :: inner =>
    match flags.skip inner with
    | [] => .error .edgeAtEnd
    | c :: t =>
      if c.isAlpha || c = '-' then
        let (name, rest) := edgeName flags (t.length + 1) (c :: t)
        match rest with
        | '}' :: rest =>
          match edgeOfName? (String.ofList name) with
          | some l => .ok (.look l, rest)
          | none => .error .edgeUnknown
        | _ => .error .edgeUnclosed
      else .ok (.look .wordEdge, s)
  | s => .ok (.look .wordEdge, s)

/-- What a backslash stands for, given the text after it. -/
def escape (flags : Flags) : List Char → Reading (Node × List Char)
  | [] => .error .escapeAtEnd
  | c :: s =>
    match c with
    | 'd' => .ok (.oneOf CharClass.digit, s)
    | 'D' => .ok (.oneOf CharClass.digit.negate, s)
    | 's' => .ok (.oneOf CharClass.space, s)
    | 'S' => .ok (.oneOf CharClass.space.negate, s)
    | 'w' => .ok (.oneOf CharClass.word, s)
    | 'W' => .ok (.oneOf CharClass.word.negate, s)
    | 'p' | 'P' => .error .unicodeClass
    | 'x' => hexLiteral flags 2 s
    | 'u' => hexLiteral flags 4 s
    | 'U' => hexLiteral flags 8 s
    | 'a' => .ok (flags.literal '\x07', s)
    | 'f' => .ok (flags.literal '\x0c', s)
    | 't' => .ok (flags.literal '\t', s)
    | 'n' => .ok (flags.literal '\n', s)
    | 'r' => .ok (flags.literal '\r', s)
    | 'v' => .ok (flags.literal '\x0b', s)
    | 'A' => .ok (.look .start, s)
    | 'z' => .ok (.look .stop, s)
    | 'b' => wordEdge flags s
    | 'B' => .ok (.look .noWordEdge, s)
    | '<' => .ok (.look .wordStart, s)
    | '>' => .ok (.look .wordStop, s)
    | c =>
      if isEscapable c then .ok (flags.literal c, s)
      else if Numeral.isDigit c then .error .backReference
      else .error .escapeUnknown

/-! ## Classes in brackets -/

/-- A class by its name, as in `[:alpha:]`, given the text after the inner bracket. -/
def namedClass (s : List Char) : Option (CharClass × List Char) :=
  match s with
  | ':' :: s =>
    let (negated, s) := match s with
      | '^' :: s => (true, s)
      | s => (false, s)
    let name := s.takeWhile (· ≠ ':')
    match s.dropWhile (· ≠ ':') with
    | ':' :: ']' :: rest =>
      (CharClass.ofName? (String.ofList name)).map fun k => (if negated then k.negate else k, rest)
    | _ => none
  | _ => none

def classItem (flags : Flags) : List Char → Reading (Node × List Char)
  | [] => .error .classUnclosed
  | '\\' :: s => escape flags s
  | c :: s => .ok (.char c, s)

/-- The characters of an item that is no end of a range. -/
def itemClass : Node → Reading CharClass
  | .char c => .ok (CharClass.single c)
  | .oneOf k => .ok k
  | _ => .error .classItemInvalid

def rangeBetween : Node → Node → Reading CharClass
  | .char a, .char b => if a ≤ b then .ok [(a.toNat, b.toNat)] else .error .rangeReversed
  | _, _ => .error .rangeOfClasses

/-- One item or a range of a class. A hyphen makes a range unless a bracket or another hyphen
follows it. -/
def classRange (flags : Flags) (s : List Char) : Reading (CharClass × List Char) := do
  let (first, s) ← classItem flags s
  match flags.skip s with
  | [] => .error .classUnclosedAfterItem
  | '-' :: t =>
    if flags.peek t = some ']' ∨ flags.peek t = some '-' then
      return (← itemClass first, '-' :: t)
    else
      match flags.skip t with
      | [] => .error .classUnclosedAfterHyphen
      | t =>
        let (last, rest) ← classItem flags t
        return (← rangeBetween first last, rest)
  | s => return (← itemClass first, s)

/-- The items of a class up to its closing bracket, from `left` characters at most. -/
def classItems (flags : Flags) : (left : Nat) → CharClass → List Char →
    Reading (CharClass × List Char)
  | 0, _, _ => .error .classUnclosed
  | left + 1, found, s =>
    match flags.skip s with
    | [] => .error .classUnclosed
    | ']' :: rest => .ok (found, rest)
    | '[' :: s =>
      match namedClass s with
      | some (k, rest) => classItems flags left (found ++ k) rest
      | none => .error .classNested
    | '&' :: '&' :: _ => .error .classIntersection
    | '-' :: '-' :: _ => .error .classDifference
    | '~' :: '~' :: _ => .error .classSymmetricDifference
    | s => do
      let (k, rest) ← classRange flags s
      classItems flags left (found ++ k) rest

/-- Hyphens at the front of a class, from `left` characters at most. -/
def leadingHyphens (flags : Flags) : (left : Nat) → CharClass → List Char → CharClass × List Char
  | 0, found, s => (found, s)
  | left + 1, found, '-' :: s =>
    leadingHyphens flags left (found ++ CharClass.single '-') (flags.skip s)
  | _ + 1, found, s => (found, s)

/-- The text, unless it is at its end. -/
def unlessEnd (e : PatternError) (s : List Char) : Reading (List Char) :=
  if s.isEmpty then .error e else .ok s

/-- The start of a class after its opening bracket: whether it is negated, and the items that only
count as such there, which are hyphens and a closing bracket that comes first. -/
def classStart (flags : Flags) (s : List Char) : Reading ((Bool × CharClass) × List Char) := do
  let s ← unlessEnd .classUnclosed (flags.skip s)
  let (negated, s) ← match s with
    | '^' :: s => do pure (true, ← unlessEnd .classUnclosedAfterNegation (flags.skip s))
    | s => pure (false, s)
  let (found, s) := leadingHyphens flags s.length [] s
  let s ← unlessEnd .classUnclosedAfterHyphen s
  match found, s with
  | [], ']' :: s =>
    return ((negated, CharClass.single ']'), ← unlessEnd .classUnclosedAfterBracket (flags.skip s))
  | found, s => return ((negated, found), s)

/-- A class, given the text after its opening bracket. -/
def bracketed (flags : Flags) (s : List Char) : Reading (Node × List Char) := do
  let ((negated, found), s) ← classStart flags s
  let (found, rest) ← classItems flags (s.length + 1) found s
  let k := CharClass.ofRanges found
  let k := if flags.ignoreCase then k.foldCase else k
  return (.oneOf (if negated then k.negate else k), rest)

/-! ## Repetition -/

/-- The digits at the front, from `left` characters at most, with what may be skipped after each. -/
def countDigits (flags : Flags) : (left : Nat) → List Char → List Char × List Char
  | 0, s => ([], s)
  | _ + 1, [] => ([], [])
  | left + 1, c :: s =>
    if Numeral.isDigit c then
      let (run, rest) := countDigits flags left (flags.skip s)
      (c :: run, rest)
    else ([], c :: s)

/-- Drops white space, and comments where they count as such. -/
def dropBlanks (flags : Flags) : (left : Nat) → List Char → List Char
  | 0, s => s
  | _ + 1, [] => []
  | left + 1, c :: s => if isBlank c then dropBlanks flags left (flags.skip s) else c :: s

/-- A count of a repetition: a 32-bit number with white space around it. -/
def repeatCount (flags : Flags) (s : List Char) : Reading (Nat × List Char) :=
  let (run, rest) := countDigits flags s.length (trimStart s)
  match Numeral.value? run with
  | none => .error .countNoDigits
  | some n =>
    if n < UInt32.size then .ok (n, dropBlanks flags rest.length rest) else .error .countTooLarge

/-- The upper bound of a repetition, given the text after the lower one. -/
def repeatMost (flags : Flags) (least : Nat) (s : List Char) :
    Reading (Option Nat × List Char) := do
  match ← unlessEnd .countUnclosed s with
  | ',' :: s =>
    match ← unlessEnd .countUnclosedAfterComma (flags.skip s) with
    | '}' :: s => return (none, '}' :: s)
    | s =>
      let (most, rest) ← repeatCount flags s
      return (some most, ← unlessEnd .countUnclosedAfterMost rest)
  | s => return (some least, s)

/-- The bounds of a repetition in braces, given the text after the opening brace. -/
def repeatBounds (flags : Flags) (s : List Char) : Reading ((Nat × Option Nat) × List Char) := do
  let s ← unlessEnd .countAtEnd (flags.skip s)
  let (least, s) ← repeatCount flags s
  let (most, s) ← repeatMost flags least s
  match s with
  | '}' :: rest =>
    let rest := match flags.skip rest with
      | '?' :: t => t
      | t => t
    if most.all (least ≤ ·) then return ((least, most), rest) else .error .countReversed
  | _ => .error .countInvalid

/-! ## Groups and flags -/

def flagLetters : List Char := ['i', 'm', 's', 'U', 'R', 'x', 'u']

/-- Sets a flag. Two letters change nothing: `U`, which exchanges greedy and lazy repetition, and
`u`, since classes are the same with and without it. -/
def Flags.set (flags : Flags) (c : Char) (on : Bool) : Flags :=
  match c with
  | 'i' => { flags with ignoreCase := on }
  | 'm' => { flags with multiLine := on }
  | 's' => { flags with dotAll := on }
  | 'R' => { flags with anyLineEnd := on }
  | 'x' => { flags with verbose := on }
  | _ => flags

/-- Flags up to a colon or a closing parenthesis: no letter twice, and at most one minus, with a
letter after it. -/
def readFlags (flags : Flags) (on : Bool) (seen : List Char) (afterMinus : Bool) :
    List Char → Reading (Flags × List Char)
  | [] => .error .flagsUnclosed
  | c :: s =>
    if c = ':' ∨ c = ')' then (if afterMinus then .error .minusLast else .ok (flags, c :: s))
    else if c = '-' then
      if on then readFlags flags false seen true s else .error .minusRepeated
    else if c ∉ flagLetters then .error .flagUnknown
    else if c ∈ seen then .error .flagRepeated
    else readFlags (flags.set c on) on (c :: seen) false s

/-- A group name starts with a letter or an underscore; digits, points and brackets may follow. -/
def isNameChar (first : Bool) (c : Char) : Bool :=
  c = '_' || (if first then isAlphabetic c else c ∈ ['.', '[', ']'] || isAlphanumeric c)

/-- The characters of a group name up to its closing bracket. -/
def nameChars (first : Bool) : List Char → Reading (List Char × List Char)
  | [] => .error (if first then .nameMissing else .nameUnclosed)
  | c :: s =>
    if c = '>' then .ok ([], s)
    else if isNameChar first c then do
      let (name, rest) ← nameChars false s
      return (c :: name, rest)
    else .error .nameInvalid

/-- The groups that were opened so far. -/
structure Opened where
  count : Nat
  names : List String

/-- A group name that was not given before. -/
def groupName (opened : Opened) (s : List Char) : Reading (String × List Char) := do
  let (name, rest) ← nameChars true s
  if name.isEmpty then .error .nameEmpty
  else if String.ofList name ∈ opened.names then .error .nameRepeated
  else return (String.ofList name, rest)

/-- How a group starts. -/
inductive Opening where
  | flags (flags : Flags)
  | plain (flags : Flags)
  | capture (name : Option String)

/-- The start of a group, given the text after its parenthesis. -/
def opening (flags : Flags) (opened : Opened) (s : List Char) : Reading (Opening × List Char) :=
  match flags.skip s with
  | '?' :: '=' :: _ | '?' :: '!' :: _ | '?' :: '<' :: '=' :: _ | '?' :: '<' :: '!' :: _ =>
    .error .lookAround
  | '?' :: 'P' :: '<' :: s | '?' :: '<' :: s => do
    let (name, rest) ← groupName opened s
    return (.capture (some name), rest)
  | ['?'] => .error .questionAtEnd
  | '?' :: s => do
    let (flags, rest) ← readFlags flags true [] false s
    match rest with
    | ':' :: rest => return (.plain flags, rest)
    | rest => if rest.length = s.length then .error .flagsEmpty else return (.flags flags, rest)
  | s => .ok (.capture none, s)

/-! ## Expressions -/

/-- What is read of an expression: finished branches and the items of the current one, both with the
last first. -/
structure Partly where
  branches : List Node
  items : List Node

def Partly.start : Partly := ⟨[], []⟩

def Partly.push (p : Partly) (node : Node) : Partly := { p with items := node :: p.items }

def Partly.branch (p : Partly) : Partly := ⟨Node.ofSeq p.items.reverse :: p.branches, []⟩

def Partly.whole (p : Partly) : Node := Node.ofAlt p.branch.branches.reverse

/-- The last item and what is read before it. -/
def Partly.pop (p : Partly) (e : PatternError) : Reading (Node × Partly) :=
  match p.items with
  | [] => .error e
  | node :: items => .ok (node, { p with items := items })

/-- Repeats the last item. -/
def Partly.repeatLast (p : Partly) (least : Nat) (most : Option Nat) : Reading Partly := do
  let (node, before) ← p.pop .nothingToRepeat
  return before.push (Node.repeated least most node)

/-- Repeats the last item as often as the braces say, given the text after the opening brace. -/
def Partly.countLast (p : Partly) (flags : Flags) (s : List Char) :
    Reading (Partly × List Char) := do
  let (node, before) ← p.pop .nothingToCount
  let ((least, most), rest) ← repeatBounds flags s
  return (before.push (Node.repeated least most node), rest)

/-- The text after a mark of lazy repetition, if there is one. -/
def dropLazy : List Char → List Char
  | '?' :: s => s
  | s => s

/-- An expression up to the end of the text or of the group at the given nesting, from `left`
characters at most, with the groups opened so far. -/
def expression : (left nesting : Nat) → Flags → Partly → Opened → List Char →
    Reading ((Node × Opened) × List Char)
  | 0, _, _, _, _, _ => .error .unclosedGroup
  | left + 1, nesting, flags, p, opened, s =>
    let more := fun (p : Partly) s => expression left nesting flags p opened s
    match flags.skip s with
    | [] => .ok ((p.whole, opened), [])
    | c :: s =>
      match c with
      | ')' => if nesting = 0 then .error .unopenedGroup else .ok ((p.whole, opened), ')' :: s)
      | '|' => more p.branch s
      | '(' => do
        let (kind, s) ← opening flags opened s
        let inside := fun (inner : Flags) (opened : Opened) (wrap : Node → Node) =>
          if nesting + 1 ≤ Node.deepest then do
            let ((node, opened), s) ← expression left (nesting + 1) inner Partly.start opened s
            match s with
            | ')' :: s => expression left nesting flags (p.push (wrap node)) opened s
            | _ => .error .unclosedGroup
          else .error .tooDeep
        match kind with
        | .flags flags => expression left nesting flags p opened s.tail
        | .plain inner => inside inner opened id
        | .capture name =>
          let index := opened.count + 1
          inside flags ⟨index, name.toList ++ opened.names⟩ (.group index name)
      | '[' => do
        let (node, s) ← bracketed flags s
        more (p.push node) s
      | '?' => do more (← p.repeatLast 0 (some 1)) (dropLazy s)
      | '*' => do more (← p.repeatLast 0 none) (dropLazy s)
      | '+' => do more (← p.repeatLast 1 none) (dropLazy s)
      | '{' => do
        let (p, s) ← p.countLast flags s
        more p s
      | '\\' => do
        let (node, s) ← escape flags s
        more (p.push node) s
      | '.' => more (p.push flags.dot) s
      | '^' => more (p.push flags.caret) s
      | '$' => more (p.push flags.dollar) s
      | c => more (p.push (flags.literal c)) s

/-- The expression that a text writes. -/
def Node.ofChars (s : List Char) : Reading Node := do
  let ((node, _), _) ← expression (s.length + 1) 0 Flags.initial Partly.start ⟨0, []⟩ s
  node.checked

def Node.ofText (s : String) : Reading Node := Node.ofChars s.toList

end FieldLookup.Pattern
