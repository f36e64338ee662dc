import FieldLookup.Pattern.CharClass
import FieldLookup.Pattern.Error

/-!
Regular expressions: their trees, how deep and how large they may be. The modules on patterns stand
for an outside package, `regex-lite`, and follow the rules that it documents. A tree is admitted
within its default limits: the nesting is at most 50, and the machine that a Thompson construction
builds from the tree takes at most ten mebibytes, counted as 32 bytes a state, 8 bytes a range of a
class, 4 bytes a branch, 16 bytes a group and 4 bytes a name with the bytes of the name itself. What
a tree means is said by `Node.Takes`.
-/
namespace FieldLookup.Pattern

/-- Conditions on a place in a text. -/
inductive Look where
  | start
  | stop
  | lineStart
  | lineStop
  | lineStartAny
  | lineStopAny
  | wordEdge
  | noWordEdge
  | wordStart
  | wordStop
  | wordStartHalf
  | wordStopHalf
  deriving DecidableEq, Repr

/-- Regular expressions. Groups are numbered from 1 in the order of their opening parentheses. -/
inductive Node where
  | empty
  | char (c : Char)
  | oneOf (k : CharClass)
  | look (l : Look)
  | times (least : Nat) (most : Option Nat) (sub : Node)
  | group (index : Nat) (name : Option String) (sub : Node)
  | seq (subs : List Node)
  | alt (subs : List Node)
  deriving Repr

namespace Node

/-- Repeating no time matches the empty text and repeating once is the expression itself. -/
def repeated (least : Nat) (most : Option Nat) (sub : Node) : Node :=
  if least = 0 ∧ most = some 0 then empty
  else if least = 1 ∧ most = some 1 then sub
  else times least most sub

def ofSeq : List Node → Node
  | [] => empty
  | [sub] => sub
  | subs => seq subs

def ofAlt : List Node → Node
  | [] => oneOf []
  | [sub] => sub
  | subs => alt subs

mutual

def depth : Node → Nat
  | empty | char _ | oneOf _ | look _ => 0
  | times _ _ sub | group _ _ sub => sub.depth + 1
  | seq subs | alt subs => depthOfAll subs + 1

def depthOfAll : List Node → Nat
  | [] => 0
  | sub :: rest => max sub.depth (depthOfAll rest)

end

mutual

/-- Whether the empty text can match. -/
def nullable : Node → Bool
  | empty | look _ => true
  | char _ | oneOf _ => false
  | times least _ sub => least = 0 || sub.nullable
  | group _ _ sub => sub.nullable
  | seq subs => allNullable subs
  | alt subs => anyNullable subs

def allNullable : List Node → Bool
  | [] => true
  | sub :: rest => sub.nullable && allNullable rest

def anyNullable : List Node → Bool
  | [] => false
  | sub :: rest => sub.nullable || anyNullable rest

end

def stateBytes : Nat := 32

def rangeBytes : Nat := 8

def branchBytes : Nat := 4

/-- A state with two branches. -/
def splitBytes : Nat := stateBytes + 2 * branchBytes

/-- Copies of a machine one after the other; none at all is one empty state. -/
def copiesBytes (count bytes : Nat) : Nat := if count = 0 then stateBytes else count * bytes

mutual

/-- Bytes of the machine for an expression. -/
def bytes : Node → Nat
  | empty | char _ | look _ => stateBytes
  | oneOf k => stateBytes + rangeBytes * k.length
  | group _ _ sub => 2 * stateBytes + sub.bytes
  | times least most sub =>
    match least, most with
    | 0, none =>
      if sub.nullable then sub.bytes + 2 * splitBytes + stateBytes else sub.bytes + splitBytes
    | least + 1, none => (least + 1) * sub.bytes + splitBytes
    | least, some most =>
      if least = 0 ∧ most = 1 then sub.bytes + splitBytes + stateBytes
      else if least = most then copiesBytes least sub.bytes
      else copiesBytes least sub.bytes + stateBytes + (most - least) * (sub.bytes + splitBytes)
  | seq subs => copiesBytes (if subs.isEmpty then 0 else 1) (bytesOfAll subs)
  | alt subs => bytesOfAll subs + 2 * stateBytes + branchBytes * subs.length

def bytesOfAll : List Node → Nat
  | [] => 0
  | sub :: rest => sub.bytes + bytesOfAll rest

end

mutual

/-- The groups of an expression, with their names. -/
def groups : Node → List (Nat × Option String)
  | empty | char _ | oneOf _ | look _ => []
  | group index name sub => (index, name) :: sub.groups
  | times _ _ sub => sub.groups
  | seq subs | alt subs => groupsOfAll subs

def groupsOfAll : List Node → List (Nat × Option String)
  | [] => []
  | sub :: rest => sub.groups ++ groupsOfAll rest

end

def groupBytes : Nat := 16

def nameBytes : Option String → Nat
  | none => 0
  | some name => name.utf8ByteSize + 4

def lastGroup : List (Nat × Option String) → Nat
  | [] => 0
  | (index, _) :: rest => max index (lastGroup rest)

def namesBytes : List (Nat × Option String) → Nat
  | [] => 0
  | (_, name) :: rest => nameBytes name + namesBytes rest

/-- Bytes of the table of groups, which has an entry for each number up to the last. -/
def tableBytes (groups : List (Nat × Option String)) : Nat :=
  groupBytes * (lastGroup groups + 1) + namesBytes groups

/-- Bytes of the machine that runs an expression: the whole of it is a group too, with the number 0,
and one more state accepts. -/
def machineBytes (node : Node) : Nat :=
  node.bytes + 3 * stateBytes + tableBytes node.groups

def deepest : Nat := 50

def largest : Nat := 10 <<< 20

/-- The expression, unless it is too deep or too large. -/
def checked (node : Node) : Except PatternError Node :=
  if deepest < node.depth then .error .tooDeep
  else if largest < node.machineBytes then .error .tooLarge
  else .ok node

end Node

end FieldLookup.Pattern
