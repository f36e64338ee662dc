import FieldLookup.Binary64.Reader
import FieldLookup.Calendar.Reader
import FieldLookup.Text.Numeral
import FieldLookup.Text.Pieces
import FieldLookup.Toml.Basic

/-!
Reading TOML documents. This stands for an outside package, `toml`, and follows the grammar of
version 1.0 of the language. Each reader takes what it needs from the front of the text and returns
the rest; a document that breaks a rule anywhere gives nothing.
-/
namespace FieldLookup.Toml

open FieldLookup.Text

/-- Arrays and inline tables may be nested less deep than this, and keys have fewer parts. -/
def depthLimit : Nat := 80

/-! ## White space and comments -/

def isSpace (c : Char) : Bool := c = ' ' || c = '\t'

def skipSpace (s : List Char) : List Char := s.dropWhile isSpace

/-- Characters that may stand in comments and in literal strings. -/
def isPlain (c : Char) : Bool := c = '\t' || (32 ≤ c.toNat && c.toNat ≠ 127)

def newline? : List Char → Option (List Char)
  | '\n' :: s => some s
  | '\r' :: '\n' :: s => some s
  | _ => none

/-- Drops a comment, up to the end of its line. -/
def skipComment : List Char → List Char
  | '#' :: s => s.dropWhile isPlain
  | s => s

/-- White space, a comment and the end of the line or of the document. -/
def lineEnd? (s : List Char) : Option (List Char) :=
  match skipComment (skipSpace s) with
  | [] => some []
  | s => newline? s

/-- White space and ends of lines. -/
def skipLines : (left : Nat) → List Char → List Char
  | 0, s => s
  | left + 1, s =>
    match newline? (skipSpace s) with
    | some rest => skipLines left rest
    | none => skipSpace s

/-- White space, comments and ends of lines, as they may stand between the items of an array. -/
def skipBetween : (left : Nat) → List Char → List Char
  | 0, s => s
  | left + 1, s =>
    let s := skipComment (skipSpace s)
    match newline? s with
    | some rest => skipBetween left rest
    | none => s

/-! ## Strings -/

def charOfHex? (digits : List Char) : Option Char :=
  (digits.foldlM (fun n c => (Numeral.hexValue? c).map fun d => 16 * n + d) 0).bind
    Numeral.charOfCode?

/-- The character that an escape stands for, given the text after the backslash. -/
def escape? : List Char → Option (Char × List Char)
  | 'b' :: s => some ('\x08', s)
  | 't' :: s => some ('\t', s)
  | 'n' :: s => some ('\n', s)
  | 'f' :: s => some ('\x0c', s)
  | 'r' :: s => some ('\r', s)
  | '"' :: s => some ('"', s)
  | '\\' :: s => some ('\\', s)
  | 'u' :: s => if 4 ≤ s.length then (charOfHex? (s.take 4)).map (·, s.drop 4) else none
  | 'U' :: s => if 8 ≤ s.length then (charOfHex? (s.take 8)).map (·, s.drop 8) else none
  | _ => none

def push (c : Char) : List Char × List Char → List Char × List Char
  | (run, rest) => (c :: run, rest)

/-- A string in quotation marks, given the text after the opening one. -/
def basicString : (left : Nat) → List Char → Option (List Char × List Char)
  | 0, _ | _, [] => none
  | left + 1, c :: s =>
    if c = '"' then some ([], s)
    else if c = '\\' then (escape? s).bind fun (c, s) => (basicString left s).map (push c)
    else if isPlain c then (basicString left s).map (push c)
    else none

/-- A string in apostrophes. -/
def literalString : List Char → Option (List Char × List Char)
  | [] => none
  | c :: s =>
    if c = '\'' then some ([], s)
    else if isPlain c then (literalString s).map (push c)
    else none

/-- Closing quotes of a string of several lines: three of them, after at most two that belong to the
string. -/
def closing? (quote : Char) (s : List Char) : Option (List Char × List Char) :=
  let run := (s.takeWhile (· = quote)).length
  if run < 3 then none
  else some (List.replicate (min run 5 - 3) quote, s.drop (min run 5))

/-- A string of several lines in quotation marks. A backslash at the end of a line drops the white
space up to the next character. -/
def longString : (left : Nat) → List Char → Option (List Char × List Char)
  | 0, _ | _, [] => none
  | left + 1, c :: s =>
    match closing? '"' (c :: s) with
    | some found => some found
    | none =>
      if c = '\\' then
        match newline? (skipSpace s) with
        | some rest => longString left (skipLines (rest.length + 1) rest)
        | none => (escape? s).bind fun (c, s) => (longString left s).map (push c)
      else
        match newline? (c :: s) with
        | some rest => (longString left rest).map (push '\n')
        | none => if isPlain c then (longString left s).map (push c) else none

/-- A string of several lines in apostrophes. -/
def longLiteral : (left : Nat) → List Char → Option (List Char × List Char)
  | 0, _ | _, [] => none
  | left + 1, c :: s =>
    match closing? '\'' (c :: s) with
    | some found => some found
    | none =>
      match newline? (c :: s) with
      | some rest => (longLiteral left rest).map (push '\n')
      | none => if isPlain c then (longLiteral left s).map (push c) else none

/-- The text after an end of line that opens a string of several lines. -/
def dropFirstLine (s : List Char) : List Char := (newline? s).getD s

def string? : List Char → Option (List Char × List Char)
  | '"' :: '"' :: '"' :: s => longString (s.length + 1) (dropFirstLine s)
  | '"' :: s => basicString (s.length + 1) s
  | '\'' :: '\'' :: '\'' :: s => longLiteral (s.length + 1) (dropFirstLine s)
  | '\'' :: s => literalString s
  | _ => none

/-! ## Keys -/

def isBare (c : Char) : Bool :=
  c.isAlpha || Numeral.isDigit c || c = '_' || c = '-'

def simpleKey? : List Char → Option (List Char × List Char)
  | '"' :: s => basicString (s.length + 1) s
  | '\'' :: s => literalString s
  | s =>
    match s.takeWhile isBare with
    | [] => none
    | key => some (key, s.dropWhile isBare)

/-- The parts of a key with dots, with white space around them. -/
def keyParts : (left : Nat) → List Char → Option (List String × List Char)
  | 0, _ => none
  | left + 1, s => do
    let (key, rest) ← simpleKey? (skipSpace s)
    match skipSpace rest with
    | '.' :: rest =>
      let (more, rest) ← keyParts left rest
      return (String.ofList key :: more, rest)
    | rest => return ([String.ofList key], rest)

/-- A key as the path to its table and its name there. -/
def key? (s : List Char) : Option ((List String × String) × List Char) := do
  let (parts, rest) ← keyParts (s.length + 1) s
  let name ← parts.getLast?
  if parts.length < depthLimit then some ((parts.dropLast, name), rest) else none

/-! ## Numbers -/

/-- Digits with single underscores between them; the underscores are dropped. -/
def digitRun (isDigit : Char → Bool) : List Char → Option (List Char × List Char)
  | [] => some ([], [])
  | '_' :: c :: s => if isDigit c then (digitRun isDigit s).map (push c) else none
  | '_' :: [] => none
  | c :: s => if isDigit c then (digitRun isDigit s).map (push c) else some ([], c :: s)

/-- At least one digit, then more. -/
def digits? (isDigit : Char → Bool) : List Char → Option (List Char × List Char)
  | [] => none
  | c :: s => if isDigit c then (digitRun isDigit s).map (push c) else none

def sign : List Char → List Char × List Char
  | '+' :: s => (['+'], s)
  | '-' :: s => (['-'], s)
  | s => ([], s)

/-- A decimal integer without zeros in front, with its sign. -/
def decimal? (s : List Char) : Option (List Char × List Char) :=
  let (mark, s) := sign s
  match s with
  | '0' :: s => some (mark ++ ['0'], s)
  | s => (digits? Numeral.isDigit s).map fun (run, rest) => (mark ++ run, rest)

def fraction? : List Char → Option (List Char × List Char)
  | '.' :: s => (digits? Numeral.isDigit s).map (push '.')
  | _ => none

def exponent? : List Char → Option (List Char × List Char)
  | c :: s =>
    if c = 'e' ∨ c = 'E' then
      let (mark, s) := sign s
      (digits? Numeral.isDigit s).map fun (run, rest) => ('e' :: mark ++ run, rest)
    else none
  | [] => none

/-- Whether a fraction or an exponent starts here. -/
def startsTail : List Char → Bool
  | '.' :: _ | 'e' :: _ | 'E' :: _ => true
  | _ => false

/-- A number with a fraction, an exponent or both; it may not round to positive infinity. -/
def float? (s : List Char) : Option (Toml × List Char) := do
  let (whole, s) ← decimal? s
  let (fraction, s) ← match s with
    | '.' :: _ => fraction? s
    | s => some ([], s)
  let (exponent, s) ← if startsTail s then exponent? s else some ([], s)
  if fraction = [] ∧ exponent = [] then none
  let x ← Binary64.ofChars? (whole ++ fraction ++ exponent)
  if x = Binary64.infinity false then none else some (number x, s)

/-- Infinity or the value that is no number. -/
def special? (s : List Char) : Option (Toml × List Char) :=
  let (mark, s) := sign s
  match s with
  | 'i' :: 'n' :: 'f' :: s => some (number (Binary64.infinity (mark = ['-'])), s)
  | 'n' :: 'a' :: 'n' :: s => some (number Binary64.nan, s)
  | _ => none

/-- An integer of 64 bits in digits of a base. -/
def based? (base : Nat) (s : List Char) : Option (Toml × List Char) := do
  let isDigit := fun c => (Numeral.hexValue? c).any (· < base)
  let (run, rest) ← digits? isDigit s
  let n := run.foldl (fun n c => base * n + (Numeral.hexValue? c).getD 0) 0
  let _ ← Numeral.int64OfInt? n
  return (integer n, rest)

def integer? : List Char → Option (Toml × List Char)
  | '0' :: 'x' :: s => based? 16 s
  | '0' :: 'o' :: s => based? 8 s
  | '0' :: 'b' :: s => based? 2 s
  | s => do
    let (run, rest) ← decimal? s
    let n ← Numeral.int64Of? run
    return (integer n.toInt, rest)

/-! ## Dates and times -/

/-- A date, written as it was read. -/
def date? (s : List Char) : Option (List Char × List Char) := do
  let (year, s) ← Calendar.takeFixed 4 s
  let s ← Calendar.takeChar '-' s
  let (month, s) ← Calendar.takeFixed 2 s
  let s ← Calendar.takeChar '-' s
  let (day, s) ← Calendar.takeFixed 2 s
  let date ← Date.ofParts? year month day
  return (date.chars, s)

/-- A fraction of a second, cut after nine digits and without zeros at its end. -/
def second? : List Char → Option (List Char × List Char)
  | '.' :: s =>
    match s.takeWhile Numeral.isDigit with
    | [] => none
    | run =>
      let kept := ((run.take 9).reverse.dropWhile (· = '0')).reverse
      some (if kept = [] then [] else '.' :: kept, s.dropWhile Numeral.isDigit)
  | s => some ([], s)

def time? (s : List Char) : Option (List Char × List Char) := do
  let (hour, s) ← Calendar.takeFixed 2 s
  let s ← Calendar.takeChar ':' s
  let (minute, s) ← Calendar.takeFixed 2 s
  let s ← Calendar.takeChar ':' s
  let (second, s) ← Calendar.takeFixed 2 s
  let _ ← Calendar.timeOfDay? hour minute second
  let (fraction, s) ← second? s
  return (Numeral.padded 2 hour ++ ':' :: Numeral.padded 2 minute ++ ':' ::
    Numeral.padded 2 second ++ fraction, s)

/-- An offset from universal time, or nothing. -/
def offset? : List Char → Option (List Char × List Char)
  | 'Z' :: s | 'z' :: s => some (['Z'], s)
  | c :: s =>
    if c = '+' ∨ c = '-' then do
      let (hours, s) ← Calendar.takeFixed 2 s
      let s ← Calendar.takeChar ':' s
      let (minutes, s) ← Calendar.takeFixed 2 s
      if hours < 24 ∧ minutes < 60 then
        let mark := if hours = 0 ∧ minutes = 0 then '+' else c
        return (mark :: Numeral.padded 2 hours ++ ':' :: Numeral.padded 2 minutes, s)
      else none
    else some ([], c :: s)
  | [] => some ([], [])

/-- The time after a date, if there is one. -/
def timeAfterDate (s : List Char) : Option (List Char × List Char) :=
  match s with
  | c :: t =>
    if c = 'T' ∨ c = 't' ∨ c = ' ' then
      match time? t with
      | some (time, t) => (offset? t).map fun (offset, t) => ('T' :: time ++ offset, t)
      | none => if c = ' ' then some ([], s) else none
    else some ([], s)
  | [] => some ([], [])

def dateTime? (s : List Char) : Option (Toml × List Char) :=
  match date? s with
  | some (date, s) =>
    (timeAfterDate s).map fun (time, s) => (dateTime (String.ofList (date ++ time)), s)
  | none => (time? s).map fun (time, s) => (dateTime (String.ofList time), s)

def startsNumber (c : Char) : Bool := Numeral.isDigit c || c = '+' || c = '-'

/-- A value that holds no other values. -/
def scalar? : List Char → Option (Toml × List Char)
  | 't' :: 'r' :: 'u' :: 'e' :: s => some (bool true, s)
  | 'f' :: 'a' :: 'l' :: 's' :: 'e' :: s => some (bool false, s)
  | s =>
    if s.head?.any startsNumber then
      (dateTime? s).or ((float? s).or ((special? s).or (integer? s)))
    else special? s

/-! ## Values -/

mutual

/-- A value inside `depth` arrays and inline tables, from `left` characters at most. -/
def value? : (left depth : Nat) → List Char → Option (Toml × List Char)
  | 0, _, _ => none
  | left + 1, depth, s =>
    match s with
    | '[' :: t => if depth + 1 < depthLimit then items? left (depth + 1) [] t else none
    | '{' :: t =>
      if depth + 1 < depthLimit then
        match skipSpace t with
        | '}' :: rest => some (table .inline [], rest)
        | t => pairs? left (depth + 1) [] t
      else none
    | '"' :: _ | '\'' :: _ => (string? s).map fun (run, rest) => (.text (String.ofList run), rest)
    | s => scalar? s

/-- The items of an array and its closing bracket. -/
def items? : (left depth : Nat) → List Toml → List Char → Option (Toml × List Char)
  | 0, _, _, _ => none
  | left + 1, depth, found, s =>
    match skipBetween (s.length + 1) s with
    | ']' :: rest => some (array found, rest)
    | s =>
      (value? left depth s).bind fun (v, s) =>
        match skipBetween (s.length + 1) s with
        | ',' :: rest => items? left depth (found ++ [v]) rest
        | ']' :: rest => some (array (found ++ [v]), rest)
        | _ => none

/-- The keys and values of an inline table and its closing brace. -/
def pairs? : (left depth : Nat) → Entries → List Char → Option (Toml × List Char)
  | 0, _, _, _ => none
  | left + 1, depth, found, s =>
    (key? s).bind fun ((path, key), s) =>
      match s with
      | '=' :: s =>
        (value? left depth (skipSpace s)).bind fun (v, s) =>
          (addDotted path key v .inline found).bind fun found =>
            match skipSpace s with
            | ',' :: rest => pairs? left depth found rest
            | '}' :: rest => some (table .inline found, rest)
            | _ => none
      | _ => none

end

/-! ## Documents -/

/-- A key and its value on a line of a document, in the table at a path. -/
def keyLine? (current : List String) (es : Entries) (s : List Char) :
    Option (Entries × List Char) := do
  let ((path, key), s) ← key? s
  let s ← Calendar.takeChar '=' s
  let (v, s) ← value? (s.length + 1) 0 (skipSpace s)
  let s ← lineEnd? s
  let es ← update false (addDotted path key v) current .header es
  return (es, s)

/-- The header of a table or of an element of an array, given the text after its first bracket. -/
def headerLine? (es : Entries) (s : List Char) : Option (List String × Entries × List Char) :=
  match s with
  | '[' :: s => do
    let ((path, key), s) ← key? s
    let s ← dropFront? "]]".toList s
    let s ← lineEnd? s
    return (path ++ [key], ← openElement path key es, s)
  | s => do
    let ((path, key), s) ← key? s
    let s ← dropFront? "]".toList s
    let s ← lineEnd? s
    return (path ++ [key], ← openTable path key es, s)

/-- The rest of a document, in the table at a path, from `left` characters at most. -/
def lines? : (left : Nat) → (current : List String) → Entries → List Char → Option Entries
  | 0, _, _, _ => none
  | left + 1, current, es, s =>
    match skipSpace s with
    | [] => some es
    | '[' :: s => (headerLine? es s).bind fun (current, es, s) => lines? left current es s
    | s =>
      match lineEnd? s with
      | some rest => lines? left current es rest
      | none => (keyLine? current es s).bind fun (es, s) => lines? left current es s

/-- The entries of a document; a byte order mark in front does not count. -/
def ofText? (text : String) : Option Entries :=
  let s := match text.toList with
    | '\uFEFF' :: s => s
    | s => s
  lines? (s.length + 2) [] [] s

end FieldLookup.Toml
