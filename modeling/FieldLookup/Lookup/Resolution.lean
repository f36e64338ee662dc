import FieldLookup.Lookup.OperatorTable
import FieldLookup.Query.Basic
import FieldLookup.Text.Pieces

/-!
Resolving the tokens of a key against a schema. A walker takes one token after the other: relations
first, then a column, then at most one operator. It stops after the first error.
-/
namespace FieldLookup

/-- What one token of a key stands for. -/
inductive Step where
  | join (join : Join) (relation : Relation)
  | column (column : Column) (field : Attribute)
  | operator (op : Operator)
  deriving DecidableEq, Repr

/-- Where the resolution of a key stands, with the tokens that are left. -/
inductive Walker where
  | walking (cursor : EntityId) (path : Path) (last : String) (tokens : List String)
  | atColumn (tokens : List String)
  | afterOperator (tokens : List String)
  | done
  deriving DecidableEq, Repr

/-- The setting in which a key is resolved. -/
structure KeyContext where
  schema : Schema
  operators : OperatorTable
  key : String

namespace Walker

/-- The walker at the start of a key. -/
def start (root : EntityId) (key separator : String) : Walker :=
  walking root Path.root key (Text.split separator key)

def size : Walker → Nat
  | walking _ _ _ tokens | atColumn tokens | afterOperator tokens => tokens.length + 1
  | done => 0

def fail (ctx : KeyContext) (token : String) (fault : PathFault) :
    Option (Except LookupError Step × Walker) :=
  some (.error (.malformed ctx.key token fault), done)

/-- The step of a token while relations are followed. -/
def walk (ctx : KeyContext) (cursor : EntityId) (path : Path) (token : String)
    (tokens : List String) : Option (Except LookupError Step × Walker) :=
  if token.isEmpty then fail ctx token .emptySegment
  else
    match ctx.schema.relationFrom? cursor token with
    | some r =>
      let path := path.child r.id
      some (.ok (.join ⟨path, r.id, r.name, r.target⟩ r), walking r.target path token tokens)
    | none =>
      match ctx.schema.attributeOf? cursor token with
      | some a => some (.ok (.column ⟨path, cursor, a.name⟩ a), atColumn tokens)
      | none =>
        let entity := ctx.schema.entityName cursor
        fail ctx token
          (if ctx.operators.contains token then .operatorBeforeColumn entity
          else .noField token entity)

/-- The next step, and the walker after it. -/
def next? (ctx : KeyContext) : Walker → Option (Except LookupError Step × Walker)
  | walking cursor path _ (token :: tokens) => walk ctx cursor path token tokens
  | walking cursor _ last [] => fail ctx last (.endsAtTable (ctx.schema.entityName cursor))
  | atColumn [] => none
  | atColumn (token :: tokens) =>
    match ctx.operators.find? token with
    | some op => some (.ok (.operator op), afterOperator tokens)
    | none => fail ctx token (.unknownOperator token)
  | afterOperator [] => none
  | afterOperator (token :: _) => fail ctx token .afterOperator
  | done => none

theorem size_lt_of_next? {ctx : KeyContext} {w v : Walker} {r : Except LookupError Step}
    (h : w.next? ctx = some (r, v)) : v.size < w.size := by
  unfold next? at h
  split at h
  · unfold walk fail at h
    repeat' split at h
    all_goals cases h; simp [size]
  · cases h
    simp [size]
  · cases h
  · unfold fail at h
    split at h <;> cases h <;> simp [size]
  · cases h
  · cases h
    simp [size]
  · cases h

/-- All steps that are left, and the walker at the end. -/
def run (ctx : KeyContext) (w : Walker) : List (Except LookupError Step) × Walker :=
  match _h : w.next? ctx with
  | none => ([], w)
  | some (r, v) =>
    let (rest, last) := v.run ctx
    (r :: rest, last)
termination_by w.size
decreasing_by exact size_lt_of_next? _h

end Walker

/-- A key that names a column: the joins to it, the column, and the operator if there is one. -/
structure Resolved where
  joins : List Join
  column : Column
  field : Attribute
  operator : Option Operator
  deriving DecidableEq, Repr

namespace Resolved

/-- What was found of a key so far. -/
structure Partly where
  joins : List Join
  terminal : Option (Column × Attribute)
  operator : Option Operator

def Partly.add (p : Partly) : Step → Partly
  | .join j _ => { p with joins := p.joins ++ [j] }
  | .column c a => { p with terminal := some (c, a) }
  | .operator op => { p with operator := some op }

def collect (key : String) (p : Partly) : List (Except LookupError Step) →
    Except LookupError Resolved
  | [] =>
    match p.terminal with
    | some (c, a) => .ok ⟨p.joins, c, a, p.operator⟩
    | none => .error (.malformed key key .columnExpected)
  | .error e :: _ => .error e
  | .ok step :: rest => collect key (p.add step) rest

def ofKey (ctx : KeyContext) (root : EntityId) (separator : String) :
    Except LookupError Resolved :=
  collect ctx.key ⟨[], none, none⟩ ((Walker.start root ctx.key separator).run ctx).1

end Resolved

/-! ## Joins of one call -/

namespace Join

/-- Adds a join, unless its path is there already. -/
def addNew (joins : List Join) (j : Join) : List Join :=
  if joins.any (·.path = j.path) then joins else joins ++ [j]

def addAllNew (joins more : List Join) : List Join := more.foldl addNew joins

end Join

/-- Joins each path that the query does not join yet. -/
def Query.joinAll (q : Query) (joins : List Join) : Query := joins.foldl Query.join q

end FieldLookup
