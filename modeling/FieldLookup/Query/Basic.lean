import FieldLookup.Query.Predicate

/-!
The description of a read: a root entity, joins along paths of relations, predicates that must all
hold, sort keys, eager loads and a slice. Each path is joined once.
-/
namespace FieldLookup

/-- A join along the last relation of a path. -/
structure Join where
  path : Path
  relation : RelationId
  name : String
  target : EntityId
  deriving DecidableEq, Repr

inductive Direction where
  | ascending
  | descending
  deriving DecidableEq, Repr

structure SortKey where
  column : Column
  direction : Direction
  deriving DecidableEq, Repr

/-- A path of relations whose rows are wanted along with the root's; every entity on a chained path
is loaded, not only the last one. -/
structure EagerPath where
  path : Path
  chained : Bool
  deriving DecidableEq, Repr

structure Query where
  root : EntityId
  joins : List Join
  predicates : List Predicate
  order : List SortKey
  eager : List EagerPath
  limit : Option Nat
  offset : Option Nat
  deriving Repr

namespace Query

/-- Every row of an entity. -/
def ofRoot (root : EntityId) : Query := ⟨root, [], [], [], [], none, none⟩

def reaches (q : Query) (path : Path) : Bool := q.joins.any (·.path = path)

/-- All predicates as one. -/
def condition (q : Query) : Option Predicate := Predicate.all q.predicates

def filter (q : Query) (p : Predicate) : Query := { q with predicates := q.predicates ++ [p] }

/-- Adds a join, unless its path is joined already. -/
def join (q : Query) (j : Join) : Query :=
  if q.reaches j.path then q else { q with joins := q.joins ++ [j] }

def thenBy (q : Query) (key : SortKey) : Query := { q with order := q.order ++ [key] }

/-- Adds an eager load, unless the same one is there already. -/
def addEager (q : Query) (load : EagerPath) : Query :=
  if load ∈ q.eager then q else { q with eager := q.eager ++ [load] }

def limitTo (q : Query) (n : Nat) : Query := { q with limit := some n }

def skipping (q : Query) (n : Nat) : Query := { q with offset := some n }

end Query

end FieldLookup
