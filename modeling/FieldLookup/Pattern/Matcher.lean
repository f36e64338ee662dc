import FieldLookup.Pattern.PlaceSet
import FieldLookup.Pattern.Syntax

/-!
Searching a text for a regular expression. As `regex-lite` documents it, a search goes by code
points, may start anywhere, and ignores the case of ASCII letters only; which of several matches is
preferred makes no difference to whether there is one. An expression is first located in the text:
each of its characters, classes and conditions becomes the set of places where it holds. `stops`
then takes the places where a match starts to the places where it can stop, and an expression occurs
in a text if some place remains when a match may start anywhere. `Node.occursIn_iff` states this
without the sets.
-/
namespace FieldLookup.Pattern

/-- A text by its characters, each with the places right before it. -/
structure Layout where
  length : Nat
  chars : List (Char × Nat)
  deriving DecidableEq, Repr

namespace Layout

def addPlace (i : Nat) (c : Char) : List (Char × Nat) → List (Char × Nat)
  | [] => [(c, 1 <<< i)]
  | (d, places) :: rest =>
    if d = c then (d, places ||| 1 <<< i) :: rest else (d, places) :: addPlace i c rest

def add (t : Layout) (c : Char) : Layout := ⟨t.length + 1, addPlace t.length c t.chars⟩

def ofChars (s : List Char) : Layout := s.foldl add ⟨0, []⟩

/-- The places before a character that passes a test. -/
def before (t : Layout) (test : Char → Bool) : Nat :=
  t.chars.foldl (fun found (c, places) => if test c then found ||| places else found) 0

/-- The places after a character that passes a test. -/
def after (t : Layout) (test : Char → Bool) : Nat := t.before test <<< 1

def start : Nat := 1

def stop (t : Layout) : Nat := 1 <<< t.length

/-- All places of the text. -/
def every (t : Layout) : Nat := 1 <<< (t.length + 1) - 1

end Layout

def isWord (c : Char) : Bool := CharClass.word.contains c

/-- The places where a condition holds. A carriage return and a line feed after it end one line. -/
def Look.places (t : Layout) : Look → Nat
  | start => Layout.start
  | stop => t.stop
  | lineStart => Layout.start ||| t.after (· = '\n')
  | lineStop => t.stop ||| t.before (· = '\n')
  | lineStartAny =>
    Layout.start ||| t.after (· = '\n') ||| without (t.after (· = '\r')) (t.before (· = '\n'))
  | lineStopAny =>
    t.stop ||| t.before (· = '\r') ||| without (t.before (· = '\n')) (t.after (· = '\r'))
  | wordEdge => t.before isWord ^^^ t.after isWord
  | noWordEdge => without t.every (t.before isWord ^^^ t.after isWord)
  | wordStart => without (t.before isWord) (t.after isWord)
  | wordStop => without (t.after isWord) (t.before isWord)
  | wordStartHalf => without t.every (t.after isWord)
  | wordStopHalf => without t.every (t.before isWord)

/-- An expression located in a text: what it reads and asks is given by sets of places. -/
inductive Located where
  | stay
  | read (places : Nat)
  | ask (places : Nat)
  | run (places : Nat)
  | exactly (k : Nat) (sub : Located)
  | upTo (k : Nat) (sub : Located)
  | seq (subs : List Located)
  | alt (subs : List Located)
  deriving Repr

/-- Any number of repetitions, of which at most as many as the text has places make a difference. -/
def Located.many (t : Layout) : Located → Located
  | read places => run places
  | sub => upTo (t.length + 1) sub

mutual

def Node.locate (t : Layout) : Node → Located
  | .empty => .stay
  | .char c => .read (t.before (· = c))
  | .oneOf k => .read (t.before k.contains)
  | .look l => .ask (l.places t)
  | .times least most sub =>
    let one := sub.locate t
    .seq [.exactly least one,
      match most with
      | none => one.many t
      | some most => .upTo (most - least) one]
  | .group _ _ sub => sub.locate t
  | .seq subs => .seq (locateAll t subs)
  | .alt subs => .alt (locateAll t subs)

def locateAll (t : Layout) : List Node → List Located
  | [] => []
  | sub :: rest => sub.locate t :: locateAll t rest

end

namespace Located

mutual

/-- The places where a match can stop that starts at one of the given places. -/
def stops : Located → Nat → Nat
  | stay, here => here
  | read places, here => (here &&& places) <<< 1
  | ask places, here => here &&& places
  | run places, here => Pattern.run places here
  | exactly k sub, here => iterate sub.stops k here
  | upTo k sub, here => reach sub.stops k here
  | seq subs, here => stopsOfSeq subs here
  | alt subs, here => stopsOfAlt subs here

def stopsOfSeq : List Located → Nat → Nat
  | [], here => here
  | sub :: rest, here => stopsOfSeq rest (sub.stops here)

def stopsOfAlt : List Located → Nat → Nat
  | [], _ => 0
  | sub :: rest, here => sub.stops here ||| stopsOfAlt rest here

end

end Located

/-- Whether the expression matches some part of the text. -/
def Node.occursIn (node : Node) (s : String) : Bool :=
  let t := Layout.ofChars s.toList
  (node.locate t).stops t.every != 0

end FieldLookup.Pattern
