import FieldLookup.Text.Numeral
import FieldLookup.Value.Basic

/-!
A schema: entities with their attributes, a table of their names, and named relations that lead from
one entity to another by an equality of two attributes.
-/
namespace FieldLookup

/-- Identifiers of entities count what was declared. They are numbers of 32 bits, so a schema has at
most `2 ^ 32` of them; the count here goes on. -/
structure EntityId where
  index : Nat
  deriving DecidableEq, Repr

/-- Identifiers of relations, which are numbers of 32 bits as those of entities are. -/
structure RelationId where
  index : Nat
  deriving DecidableEq, Repr

def EntityId.text (id : EntityId) : String := "t" ++ Text.Numeral.natText id.index

def RelationId.text (id : RelationId) : String := "rel" ++ Text.Numeral.natText id.index

structure Attribute where
  name : String
  type : ScalarType
  nullable : Bool := false
  primaryKey : Bool := false
  deriving DecidableEq, Repr

/-- How many rows of the target a row of the source can lead to. -/
inductive Cardinality where
  | toOne
  | toMany
  deriving DecidableEq, Repr

def Cardinality.inverse : Cardinality → Cardinality
  | toOne => toMany
  | toMany => toOne

/-- A relation from `source` to `target`: a row of the source leads to the rows of the target whose
`remoteKey` equals its `localKey`. -/
structure Relation where
  id : RelationId
  name : String
  source : EntityId
  target : EntityId
  cardinality : Cardinality
  localKey : String
  remoteKey : String
  deriving DecidableEq, Repr

structure Entity where
  id : EntityId
  name : String
  attributes : List Attribute
  relations : List (String × RelationId)
  deriving DecidableEq, Repr

namespace Entity

def attribute? (e : Entity) (name : String) : Option Attribute :=
  e.attributes.find? (·.name = name)

def relation? (e : Entity) (name : String) : Option RelationId := e.relations.lookup name

def primaryKeys (e : Entity) : List Attribute := e.attributes.filter (·.primaryKey)

end Entity

structure Schema where
  entities : List Entity
  names : List (String × EntityId)
  relations : List Relation
  deriving DecidableEq, Repr

namespace Schema

def entity? (s : Schema) (id : EntityId) : Option Entity := s.entities.find? (·.id = id)

/-- What a name stands for in the table of names. -/
def entityId? (s : Schema) (name : String) : Option EntityId := s.names.lookup name

def entityNamed? (s : Schema) (name : String) : Option Entity := do
  let id ← s.entityId? name
  s.entity? id

def relation? (s : Schema) (id : RelationId) : Option Relation := s.relations.find? (·.id = id)

/-- The relation that leaves an entity under a name. -/
def relationFrom? (s : Schema) (entity : EntityId) (name : String) : Option Relation := do
  let e ← s.entity? entity
  let id ← e.relation? name
  s.relation? id

def attributeOf? (s : Schema) (entity : EntityId) (name : String) : Option Attribute := do
  let e ← s.entity? entity
  e.attribute? name

/-- The name by which messages call an entity. -/
def entityName (s : Schema) (id : EntityId) : String :=
  match s.entity? id with
  | some e => e.name
  | none => id.text

end Schema

end FieldLookup
