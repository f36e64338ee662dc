import FieldLookup.Schema.Basic

/-!
Paths of relations from the root of a query, and the columns that they reach. Main statement:
`parent_child`, a child's parent is the path itself.
-/
namespace FieldLookup

/-- The relations to follow from the root, which is the empty path. -/
abbrev Path := List RelationId

namespace Path

def root : Path := []

def child (path : Path) (relation : RelationId) : Path := path ++ [relation]

/-- The path without its last relation; the root is its own parent. -/
def parent (path : Path) : Path := path.dropLast

def textOf : List RelationId → String
  | [] => ""
  | [r] => r.text
  | r :: s :: rest => r.text ++ "." ++ textOf (s :: rest)

def text (path : Path) : String := if path = [] then "root" else textOf path

/-- Paths come in lexicographic order, a front before the whole. -/
def compare : Path → Path → Ordering
  | [], [] => .eq
  | [], _ :: _ => .lt
  | _ :: _, [] => .gt
  | a :: p, b :: q => (Ord.compare a.index b.index).then (compare p q)

@[simp] theorem parent_child (path : Path) (relation : RelationId) :
    (path.child relation).parent = path := by
  simp [child, parent]

end Path

/-- An attribute of the entity that a path reaches. -/
structure Column where
  path : Path
  entity : EntityId
  name : String
  deriving DecidableEq, Repr

def Column.text (c : Column) : String :=
  c.path.text ++ ":" ++ c.entity.text ++ "." ++ c.name

end FieldLookup
