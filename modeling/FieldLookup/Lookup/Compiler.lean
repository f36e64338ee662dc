import FieldLookup.Lookup.Request
import FieldLookup.Lookup.Resolution
import FieldLookup.Query.Page

/-!
Compiling lookups, sort keys and eager loads into queries. A call either extends the query by all
that it was given or fails as a whole.
-/
namespace FieldLookup

structure Compiler where
  schema : Schema
  operators : OperatorTable
  settings : Settings

/-- Whether values come from code or are the texts of a request. -/
inductive ValueOrigin where
  | typed
  | request
  deriving DecidableEq, Repr

/-- What one lookup adds to a query. -/
structure Condition where
  joins : List Join
  predicate : Predicate

namespace Compiler

/-- The compiler with standard settings. -/
def ofSchema (schema : Schema) : Compiler := ⟨schema, OperatorTable.standard, Settings.standard⟩

def ofSettings (schema : Schema) (settings : Settings) : Except LookupError Compiler := do
  settings.validate
  return ⟨schema, ← OperatorTable.ofSettings settings, settings⟩

def context (c : Compiler) (key : String) : KeyContext := ⟨c.schema, c.operators, key⟩

def resolve (c : Compiler) (root : EntityId) (key : String) : Except LookupError Resolved :=
  Resolved.ofKey (c.context key) root c.settings.separator

/-! ## Conditions -/

/-- The condition of one lookup. A key without an operator asks for equality. -/
def condition (c : Compiler) (root : EntityId) (source : ValueOrigin) (key : String) (v : Value) :
    Except LookupError Condition := do
  let r ← c.resolve root key
  let op := r.operator.getD .eq
  let v := match source with
    | .typed => v
    | .request => convertRaw op r.field.type v
  return ⟨r.joins, ← op.build r.column r.field v c.settings.coerce⟩

/-- Adds the conditions of all lookups, or the negation of each. -/
def restrict (c : Compiler) (q : Query) (lookups : Lookups) (negate : Bool) (source : ValueOrigin) :
    Except LookupError Query := do
  let conditions ← lookups.entries.mapM fun (key, v) => c.condition q.root source key v
  let joins := conditions.foldl (fun joins d => Join.addAllNew joins d.joins) []
  let predicates := conditions.map fun d => if negate then .not d.predicate else d.predicate
  return predicates.foldl Query.filter (q.joinAll joins)

def narrow (c : Compiler) (q : Query) (lookups : Lookups) : Except LookupError Query :=
  c.restrict q lookups false .typed

/-- Excludes the rows of each lookup on its own. -/
def exclude (c : Compiler) (q : Query) (lookups : Lookups) : Except LookupError Query :=
  c.restrict q lookups true .typed

/-! ## Order -/

/-- A path and its direction: a minus in front is descending, a plus or nothing ascending. -/
def direction (key : String) : String × Direction :=
  match key.toList with
  | '-' :: path => (String.ofList path, .descending)
  | '+' :: path => (String.ofList path, .ascending)
  | _ => (key, .ascending)

def sortKey (c : Compiler) (root : EntityId) (key : String) :
    Except LookupError (List Join × SortKey) := do
  let (path, direction) := direction key
  let r ← c.resolve root path
  match r.operator with
  | some op => throw (.malformed key op.token .operatorInOrder)
  | none => return (r.joins, ⟨r.column, direction⟩)

/-- Adds sort keys behind those that the query has. -/
def order (c : Compiler) (q : Query) (keys : List String) : Except LookupError Query := do
  let sorts ← keys.mapM (c.sortKey q.root)
  let joins := sorts.foldl (fun joins s => Join.addAllNew joins s.1) []
  return ((sorts.map (·.2)).foldl Query.thenBy q).joinAll joins

/-! ## Eager loads -/

/-- The path of relations that tokens name, from an entity that a path reaches. -/
def relationPath (c : Compiler) (key : String) (cursor : EntityId) (path : Path) :
    List String → Except LookupError Path
  | [] => .ok path
  | token :: tokens =>
    match c.schema.relationFrom? cursor token with
    | some r => c.relationPath key r.target (path.child r.id) tokens
    | none => .error (.malformed key token (.noRelation token (c.schema.entityName cursor)))

/-- Asks for related rows. Without a depth, or if a path has several relations, all are chained. -/
def loadRelated (c : Compiler) (q : Query) (paths : List String) (depth : Option Nat) :
    Except LookupError Query :=
  match depth with
  | some (n + 2) => .error (.invalidOption (.depth (n + 2)))
  | some 0 => .error (.invalidOption (.depth 0))
  | depth => do
    let resolved ← paths.mapM fun key =>
      c.relationPath key q.root Path.root (Text.split c.settings.separator key)
    let chained := depth.isNone || resolved.any (1 < ·.length)
    return resolved.foldl (fun q path => q.addEager ⟨path, chained⟩) q

/-! ## Requests and rows -/

/-- Adds what a request asks for: its lookups, then its sort keys. -/
def apply (c : Compiler) (q : Query) (request : Request) : Except LookupError Query := do
  c.order (← c.restrict q request.lookups false .request) request.order

def liftQuery {α : Type} : Except QueryError α → Except LookupError α
  | .ok a => .ok a
  | .error e => .error (.query e)

/-- The one row that lookups select; it is not found if there is none. -/
def onlyRow (c : Compiler) (store : Store) (q : Query) (lookups : Lookups) :
    Except LookupError Row := do
  let q ← c.narrow q lookups
  match q.one c.schema store with
  | .error .noResult => throw .notFound
  | result => liftQuery result

end Compiler

end FieldLookup
