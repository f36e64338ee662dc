import FieldLookup.Schema.Basic

/-!
A schema under construction. Declarations are checked one by one; a declaration that fails leaves
the draft as it was, but for the identifier that a failed entity has used up. `build` checks what
only the whole schema shows.
-/
namespace FieldLookup

inductive SchemaError where
  | duplicateEntity (name : String)
  | unknownEntity (name : String)
  | duplicateRelation (entity name : String)
  | shadowsAttribute (entity name : String)
  | unknownJoinKey (entity field : String)
  | missingJoinKeys (relation : String)
  | severalPrimaryKeys (entity : String)
  | joinKeyTypes (relation : String) (near far : ScalarType)
  deriving DecidableEq, Repr

def SchemaError.message : SchemaError → String
  | duplicateEntity name => "Duplicate entity name: " ++ name
  | unknownEntity name => "Unknown entity: " ++ name
  | duplicateRelation entity name => "Duplicate relationship " ++ name ++ " on entity " ++ entity
  | shadowsAttribute entity name =>
    "Relationship " ++ name ++ " on entity " ++ entity ++ " shadows an attribute"
  | unknownJoinKey entity field => "Unknown join key " ++ field ++ " on entity " ++ entity
  | missingJoinKeys relation => "Relationship " ++ relation ++ " has no join keys"
  | severalPrimaryKeys entity => "Entity " ++ entity ++ " declares more than one primary key"
  | joinKeyTypes relation near far =>
    "Join keys of relationship " ++ relation ++ " differ in type: " ++ near.name ++ " vs " ++
      far.name

/-- The attributes by which a relation joins. -/
structure JoinKeys where
  cardinality : Cardinality
  near : String
  far : String
  deriving DecidableEq, Repr

/-- A relation as it is declared; `backref` names the inverse relation, if there shall be one. -/
structure RelationDecl where
  source : String
  name : String
  target : String
  keys : Option JoinKeys
  backref : Option String
  deriving DecidableEq, Repr

structure Draft where
  entities : List Entity
  names : List (String × EntityId)
  relations : List Relation
  nextEntity : Nat
  nextRelation : Nat
  deriving DecidableEq, Repr

namespace Draft

def empty : Draft := ⟨[], [], [], 0, 0⟩

def entity? (d : Draft) (id : EntityId) : Option Entity := d.entities.find? (·.id = id)

/-- What a name stands for in the table of names. -/
def entityId? (d : Draft) (name : String) : Option EntityId := d.names.lookup name

def entityNamed? (d : Draft) (name : String) : Option Entity := do
  let id ← d.entityId? name
  d.entity? id

/-- The identifier of the next entity, which is then used up. -/
def reserve (d : Draft) : EntityId × Draft :=
  (⟨d.nextEntity⟩, { d with nextEntity := d.nextEntity + 1 })

/-- Attributes in the order in which their names were first given, each as given last. -/
def putAttribute (a : Attribute) : List Attribute → List Attribute
  | [] => [a]
  | b :: rest => if b.name = a.name then a :: rest else b :: putAttribute a rest

def distinctAttributes (attributes : List Attribute) : List Attribute :=
  attributes.foldl (fun found a => putAttribute a found) []

/-- Declares an entity. -/
def entity (d : Draft) (name : String) (attributes : List Attribute) :
    Except SchemaError EntityId × Draft :=
  let (id, d) := d.reserve
  if (d.entityId? name).isSome then (.error (.duplicateEntity name), d)
  else
    (.ok id,
      { d with
        entities := d.entities ++ [⟨id, name, distinctAttributes attributes, []⟩]
        names := d.names ++ [(name, id)] })

def resolve (d : Draft) (name : String) : Except SchemaError Entity :=
  match d.entityNamed? name with
  | some e => .ok e
  | none => .error (.unknownEntity name)

def checkName (e : Entity) (name : String) : Except SchemaError Unit :=
  if (e.relation? name).isSome then .error (.duplicateRelation e.name name)
  else if (e.attribute? name).isSome then .error (.shadowsAttribute e.name name)
  else .ok ()

def ensureKey (e : Entity) (field : String) : Except SchemaError Unit :=
  if (e.attribute? field).isSome then .ok () else .error (.unknownJoinKey e.name field)

/-- Adds a relation to the table and to the names of its source. -/
def link (d : Draft) (name : String) (source target : EntityId) (cardinality : Cardinality)
    (near far : String) : RelationId × Draft :=
  let id : RelationId := ⟨d.nextRelation⟩
  (id,
    { d with
      entities := d.entities.map fun e =>
        if e.id = source then { e with relations := e.relations ++ [(name, id)] } else e
      relations := d.relations ++ [⟨id, name, source, target, cardinality, near, far⟩]
      nextRelation := d.nextRelation + 1 })

/-- Declares a relation, and its inverse if the declaration names one. -/
def relation (d : Draft) (decl : RelationDecl) : Except SchemaError (RelationId × Draft) := do
  let source ← d.resolve decl.source
  let target ← d.resolve decl.target
  let keys ← match decl.keys with
    | some keys => .ok keys
    | none => .error (.missingJoinKeys decl.name)
  checkName source decl.name
  ensureKey source keys.near
  ensureKey target keys.far
  match decl.backref with
  | none => return d.link decl.name source.id target.id keys.cardinality keys.near keys.far
  | some backref =>
    checkName target backref
    if source.id = target.id ∧ backref = decl.name then
      throw (.duplicateRelation decl.source decl.name)
    let (id, d) := d.link decl.name source.id target.id keys.cardinality keys.near keys.far
    return (id, (d.link backref target.id source.id keys.cardinality.inverse keys.far keys.near).2)

def typeOf (d : Draft) (id : EntityId) (field : String) : Except SchemaError ScalarType :=
  match d.entity? id with
  | none => .error (.unknownEntity id.text)
  | some e =>
    match e.attribute? field with
    | none => .error (.unknownJoinKey e.name field)
    | some a => .ok a.type

def checkPrimaryKeys (e : Entity) : Except SchemaError Unit :=
  if 1 < e.primaryKeys.length then .error (.severalPrimaryKeys e.name) else .ok ()

def checkKeyTypes (d : Draft) (r : Relation) : Except SchemaError Unit := do
  let near ← d.typeOf r.source r.localKey
  let far ← d.typeOf r.target r.remoteKey
  if near = far then .ok () else .error (.joinKeyTypes r.name near far)

def schema (d : Draft) : Schema := ⟨d.entities, d.names, d.relations⟩

/-- The finished schema: no entity has two primary keys, and both keys of a relation have the same
type. What was declared is checked in the order of declaration. In any other order the same drafts
are finished, to the same schema (`build_eq_ok_iff`): only which one of several offenders is named
depends on the order, and nothing is promised of it. -/
def build (d : Draft) : Except SchemaError Schema := do
  d.entities.forM checkPrimaryKeys
  d.relations.forM d.checkKeyTypes
  return d.schema

end Draft

end FieldLookup
