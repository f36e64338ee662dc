import FieldLookup.Ordered
import FieldLookup.Schema.Basic
import FieldLookup.Value.Order

/-!
Rows of attributes and the store that holds them. Rows are only added. One index finds the rows of
an entity, another one those that hold an exact truth value, integer or text under an attribute; all
other look-ups compare the attribute of each row of an entity.
-/
namespace FieldLookup

/-- Identifiers of rows count the insertions from 1. They are numbers of 64 bits, so a store takes
fewer than `2 ^ 64` rows; the count here goes on. -/
structure RowId where
  index : Nat
  deriving DecidableEq, Repr

def RowId.text (id : RowId) : String := "r" ++ Text.Numeral.natText id.index

structure Row where
  id : RowId
  entity : EntityId
  attributes : Ordered Value

namespace Row

def attribute? (r : Row) (name : String) : Option Value := r.attributes.get? name

/-- The value under a name, null if there is none. -/
def value (r : Row) (name : String) : Value := (r.attribute? name).getD .null

end Row

/-- A value that the index finds by itself. -/
inductive ExactValue where
  | bool (b : Bool)
  | int (n : Int64)
  | text (s : String)
  deriving DecidableEq, Repr

def ExactValue.ofValue? : Value → Option ExactValue
  | .bool b => some (bool b)
  | .int n => some (int n)
  | .text s => some (text s)
  | _ => none

structure IndexKey where
  entity : EntityId
  field : String
  value : ExactValue
  deriving DecidableEq, Repr

/-- For each key the rows that have it, in the order of their insertion. -/
abbrev Groups (κ : Type) := List (κ × List RowId)

namespace Groups

variable {κ : Type} [DecidableEq κ]

def add (key : κ) (id : RowId) : Groups κ → Groups κ
  | [] => [(key, [id])]
  | (k, ids) :: rest => if k = key then (k, ids ++ [id]) :: rest else (k, ids) :: add key id rest

def find (groups : Groups κ) (key : κ) : List RowId := (groups.lookup key).getD []

end Groups

/-- Adds a row under each of its attributes that the index keeps. -/
def Groups.addRow (index : Groups IndexKey) (row : Row) : Groups IndexKey :=
  row.attributes.entries.foldl (fun index (name, v) =>
    match ExactValue.ofValue? v with
    | some exact => index.add ⟨row.entity, name, exact⟩ row.id
    | none => index) index

structure Store where
  rows : List Row
  types : Groups EntityId
  index : Groups IndexKey

namespace Store

def empty : Store := ⟨[], [], []⟩

/-- Adds a row and returns its identifier; identifiers count from 1. -/
def insert (s : Store) (entity : EntityId) (attributes : Ordered Value) : RowId × Store :=
  let row : Row := ⟨⟨s.rows.length + 1⟩, entity, attributes⟩
  (row.id, ⟨s.rows ++ [row], s.types.add entity row.id, s.index.addRow row⟩)

def row? (s : Store) (id : RowId) : Option Row := s.rows.find? (·.id = id)

/-- The identifiers of the rows of an entity. -/
def idsOf (s : Store) (entity : EntityId) : List RowId := s.types.find entity

def rowsOf (s : Store) (entity : EntityId) : List Row := (s.idsOf entity).filterMap s.row?

/-- The rows of an entity whose attribute compares equal to a value. -/
def scan (s : Store) (entity : EntityId) (field : String) (v : Value) : List RowId :=
  ((s.rowsOf entity).filter fun r =>
    (r.attribute? field).any fun w => w.compare? v == some .eq).map (·.id)

/-- The rows of an entity that a value leads to under an attribute: exact values are looked up in
the index, null leads nowhere, and any other value is compared. -/
def rowsWith (s : Store) (entity : EntityId) (field : String) (v : Value) : List RowId :=
  if v.isNull then []
  else
    match ExactValue.ofValue? v with
    | some exact => s.index.find ⟨entity, field, exact⟩
    | none => s.scan entity field v

end Store

end FieldLookup
