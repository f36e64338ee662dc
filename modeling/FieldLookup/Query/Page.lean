import FieldLookup.Query.Fetch

/-!
The number of rows that a query selects, its first row and its only row.
-/
namespace FieldLookup.Query

/-- The query without its sort keys, eager loads and slice. -/
def unordered (q : Query) : Query :=
  let joined := q.joins.foldl join (ofRoot q.root)
  q.predicates.foldl filter joined

/-- The number of rows that the query selects without its slice. -/
def count (schema : Schema) (store : Store) (q : Query) : Except QueryError Nat := do
  return (← q.unordered.fetch schema store).length

/-- The first row of the query's slice. -/
def first? (schema : Schema) (store : Store) (q : Query) : Except QueryError (Option Row) := do
  let limit := match q.limit with
    | some n => min n 1
    | none => 1
  return (← (q.limitTo limit).fetch schema store).head?

/-- The row of a query that selects just one. -/
def one (schema : Schema) (store : Store) (q : Query) : Except QueryError Row := do
  match ← q.fetch schema store with
  | [] => throw .noResult
  | [row] => return row
  | rows => throw (.multipleResults rows.length)

end FieldLookup.Query
