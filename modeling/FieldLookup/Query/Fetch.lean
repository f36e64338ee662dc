import FieldLookup.Query.Basic
import FieldLookup.Query.PatternTable
import FieldLookup.Query.StableSort

/-!
Running a query over a store. The rows of the root are joined path by path into bindings, which
assign one row to each path; bindings of which the condition is true are kept and sorted, and the
distinct rows of the root among them are sliced.
-/
namespace FieldLookup

/-- Rows by path; the entry of a path that was joined last counts. -/
abbrev Binding := List (Path × RowId)

namespace Binding

def row (b : Binding) (path : Path) : Except QueryError RowId :=
  match b.lookup path with
  | some id => .ok id
  | none => .error (.unjoinedPath path)

end Binding

namespace Store

def row (s : Store) (id : RowId) : Except QueryError Row :=
  match s.row? id with
  | some row => .ok row
  | none => .error (.rowNotFound id)

/-- The value of a column in a binding. -/
def valueAt (s : Store) (b : Binding) (c : Column) : Except QueryError Value := do
  let id ← b.row c.path
  let row ← s.row id
  return row.value c.name

end Store

namespace Query

/-! ## Joins -/

def rootBindings (store : Store) (root : EntityId) : List Binding :=
  (store.rowsOf root).map fun row => [(Path.root, row.id)]

/-- The bindings that a join makes of one binding. -/
def extend (store : Store) (relation : Relation) (join : Join) (b : Binding) :
    Except QueryError (List Binding) := do
  let parent ← b.row join.path.parent
  let row ← store.row parent
  return (store.rowsWith relation.target relation.remoteKey (row.value relation.localKey)).map
    fun target => (join.path, target) :: b

def follow (schema : Schema) (store : Store) (bindings : List Binding) (join : Join) :
    Except QueryError (List Binding) :=
  match schema.relation? join.relation with
  | none => .error (.unknownRelation join.relation)
  | some relation => do return (← bindings.mapM (extend store relation join)).flatten

/-! ## Conditions -/

mutual

/-- The truth of a predicate in a binding. -/
def eval (store : Store) (m : PatternTable) (b : Binding) : Predicate → Except QueryError Truth
  | .compare c op v => return op.test (← store.valueAt b c) v
  | .like c pattern ignoreCase =>
    return m.test (Pattern.sourceOfLike pattern ignoreCase) (← store.valueAt b c)
  | .regex c pattern ignoreCase =>
    return m.test (Pattern.sourceOfRegex pattern ignoreCase) (← store.valueAt b c)
  | .oneOf c vs => return memberTest (← store.valueAt b c) vs
  | .isNull c expected => return some ((← store.valueAt b c).isNull == expected)
  | .between c low high => return betweenTest (← store.valueAt b c) low high
  | .datePart c part v => return part.test (← store.valueAt b c) v
  | .not inner => return (← eval store m b inner).not
  | .and items => evalAll store m b false items

/-- The truth of all predicates from here on, up to the first that is false; `unknown` tells of one
met before that was not known. -/
def evalAll (store : Store) (m : PatternTable) (b : Binding) (unknown : Bool) :
    List Predicate → Except QueryError Truth
  | [] => return if unknown then none else some true
  | p :: rest => do
    match ← eval store m b p with
    | some false => return some false
    | some true => evalAll store m b unknown rest
    | none => evalAll store m b true rest

end

/-- The bindings of which a predicate is true. -/
def keep (store : Store) (m : PatternTable) (p : Predicate) : List Binding →
    Except QueryError (List Binding)
  | [] => .ok []
  | b :: rest => do
    let truth ← eval store m b p
    let kept ← keep store m p rest
    return if truth = some true then b :: kept else kept

/-- The bindings of which the condition of a query is true. -/
def restrict (store : Store) (condition : Option Predicate) (bindings : List Binding) :
    Except QueryError (List Binding) :=
  match condition with
  | none => .ok bindings
  | some p => do keep store (← PatternTable.ofCondition p) p bindings

/-! ## Order -/

def compareKey (key : SortKey) (a b : Value) : Ordering :=
  match key.direction with
  | .ascending => a.sortCompare b
  | .descending => b.sortCompare a

/-- The first key in which the values differ decides. -/
def compareKeys : List SortKey → List Value → List Value → Ordering
  | key :: keys, a :: as, b :: bs => (compareKey key a b).then (compareKeys keys as bs)
  | _, _, _ => .eq

def keyValues (store : Store) (order : List SortKey) (b : Binding) :
    Except QueryError (List Value) :=
  order.mapM fun key => store.valueAt b key.column

/-- The bindings in the order of the sort keys, if their values for these can be sorted. -/
def arrange (store : Store) (order : List SortKey) (bindings : List Binding) :
    Except QueryError (List Binding) :=
  if order.isEmpty then .ok bindings
  else do
    let keyed ← bindings.mapM fun b => return (← keyValues store order b, b)
    match sortBy (fun x y => compareKeys order x.1 y.1) keyed with
    | some sorted => return sorted.map (·.2)
    | none => throw .unsortable

/-! ## Rows -/

/-- The members of a list that were not seen before, each once. -/
def distinctFrom (seen : List RowId) : List RowId → List RowId
  | [] => []
  | id :: rest =>
    if id ∈ seen then distinctFrom seen rest else id :: distinctFrom (id :: seen) rest

/-- The distinct rows of the root. -/
def rootIds (bindings : List Binding) : List RowId :=
  distinctFrom [] (bindings.filterMap (·.lookup Path.root))

/-- The members from an offset on, up to a limit. -/
def slice {α : Type} (offset limit : Option Nat) (xs : List α) : List α :=
  let rest := xs.drop (offset.getD 0)
  match limit with
  | none => rest
  | some n => rest.take n

def joined (schema : Schema) (store : Store) (q : Query) : Except QueryError (List Binding) :=
  q.joins.foldlM (follow schema store) (rootBindings store q.root)

/-- The rows of the root that the query selects, in order. -/
def fetch (schema : Schema) (store : Store) (q : Query) : Except QueryError (List Row) := do
  let bindings ← q.joined schema store
  let bindings ← restrict store q.condition bindings
  let bindings ← arrange store q.order bindings
  return (slice q.offset q.limit (rootIds bindings)).filterMap store.row?

end Query

end FieldLookup
