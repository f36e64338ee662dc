import FieldLookup.Scenario.Blog
import Mathlib.Data.List.Induction
import Mathlib.Data.List.Perm.Subperm
import Mathlib.Data.List.Sort

/-!
Stores that a run of insertions fills. Main statements: `Store.Filled.coherent`, identifiers count
the rows, and both indices hold for each key just the rows that have it; `Store.Coherent.rowsOf_eq`,
so the rows of an entity are found as by going through all rows; and
`Store.Coherent.exists_of_mem_rowsWith`, a value leads to rows of the store only.
-/
namespace FieldLookup

/-- Whether a row holds the exact value of a key under its attribute. -/
def Row.holds (row : Row) (key : IndexKey) : Bool :=
  row.entity = key.entity ∧ (row.attribute? key.field).bind ExactValue.ofValue? = some key.value

/-- Rows in the order of their identifiers are part of all such rows that hold them. -/
theorem Row.sublist_of_pairwise {rows more : List Row} (hmem : rows ⊆ more)
    (hrows : rows.Pairwise fun r t => r.id.index < t.id.index)
    (hmore : more.Pairwise fun r t => r.id.index < t.id.index) : rows.Sublist more := by
  have hanti : Std.Antisymm fun r t : Row => r.id.index < t.id.index :=
    ⟨fun r t hrt htr => absurd hrt (Nat.lt_asymm htr)⟩
  have hnodup : rows.Nodup :=
    hrows.imp fun hlt heq => absurd (congrArg (·.id.index) heq) (Nat.ne_of_lt hlt)
  exact List.sublist_of_subperm_of_pairwise (hnodup.subperm hmem) hrows hmore

namespace Groups

theorem find_add {κ : Type} [DecidableEq κ] (groups : Groups κ) (key k : κ) (id : RowId) :
    (groups.add key id).find k = if key = k then groups.find k ++ [id] else groups.find k := by
  induction groups with
  | nil =>
    by_cases h : key = k
    · simp [add, find, h]
    · simp [add, find, List.lookup_cons, h, beq_eq_false_iff_ne.mpr (Ne.symm h)]
  | cons entry rest ih =>
    obtain ⟨other, ids⟩ := entry
    unfold add find
    by_cases h : other = key
    · subst h
      by_cases hk : other = k
      · simp [hk]
      · simp [List.lookup_cons, hk, beq_eq_false_iff_ne.mpr (Ne.symm hk)]
    · by_cases hk : k = other
      · simp [h, hk, Ne.symm h]
      · unfold find at ih
        simp only [h, if_false, List.lookup_cons, beq_eq_false_iff_ne.mpr hk, ih]

/-- One attribute adds the identifier of its row to the key that it makes, if it makes one. -/
theorem find_addEntry (index : Groups IndexKey) (entity : EntityId) (id : RowId) (name : String)
    (v : Value) (k : IndexKey) :
    Groups.find (match ExactValue.ofValue? v with
      | some exact => index.add ⟨entity, name, exact⟩ id
      | none => index) k =
      index.find k ++
        if entity = k.entity ∧ name = k.field ∧ ExactValue.ofValue? v = some k.value then [id]
        else [] := by
  obtain ⟨kentity, kfield, kvalue⟩ := k
  cases hv : ExactValue.ofValue? v with
  | none => simp
  | some exact =>
    simp only [find_add, IndexKey.mk.injEq, Option.some.injEq]
    split
    · rfl
    · rw [List.append_nil]

/-- Attributes of distinct names add the identifier of their row once for each key they make. -/
theorem find_addEntries (index : Groups IndexKey) (entity : EntityId) (id : RowId)
    {entries : List (String × Value)} (hnodup : (entries.map (·.1)).Nodup) (k : IndexKey) :
    Groups.find (entries.foldl (fun index (name, v) =>
      match ExactValue.ofValue? v with
      | some exact => index.add ⟨entity, name, exact⟩ id
      | none => index) index) k =
      index.find k ++
        if entity = k.entity ∧
            (entries.lookup k.field).bind ExactValue.ofValue? = some k.value then [id]
        else [] := by
  induction entries generalizing index with
  | nil => simp
  | cons entry rest ih =>
    obtain ⟨name, v⟩ := entry
    obtain ⟨hnew, hrest⟩ := List.nodup_cons.mp hnodup
    rw [List.foldl_cons, ih _ hrest, find_addEntry, List.append_assoc]
    by_cases hname : name = k.field
    · -- no other attribute has the name
      have hnone : rest.lookup k.field = none := Ordered.lookup_eq_none_of_not_mem (hname ▸ hnew)
      simp [hname, hnone]
    · simp [hname, Ordered.lookup_cons, Ne.symm hname]

theorem find_addRow (index : Groups IndexKey) (row : Row) (k : IndexKey) :
    (index.addRow row).find k = index.find k ++ if row.holds k then [row.id] else [] := by
  simp only [Row.holds, decide_eq_true_eq]
  exact find_addEntries index row.entity row.id row.attributes.nodup k

end Groups

namespace Store

/-- The stores that some run of insertions fills. -/
def Filled (s : Store) : Prop :=
  ∃ rows : List (EntityId × Ordered Value),
    s = rows.foldl (fun s row => (s.insert row.1 row.2).2) empty

theorem filled_empty : empty.Filled := ⟨[], rfl⟩

theorem Filled.insert {s : Store} (h : s.Filled) (entity : EntityId) (attributes : Ordered Value) :
    (s.insert entity attributes).2.Filled := by
  obtain ⟨rows, rfl⟩ := h
  exact ⟨rows ++ [(entity, attributes)], by simp⟩

/-- Identifiers count the rows, and both indices agree with them. -/
structure Coherent (s : Store) : Prop where
  ids : s.rows.map (·.id.index) = List.range' 1 s.rows.length
  typed : ∀ entity, s.idsOf entity = (s.rows.filter (·.entity = entity)).map (·.id)
  indexed : ∀ key, s.index.find key = (s.rows.filter (·.holds key)).map (·.id)

theorem Coherent.insert {s : Store} (h : s.Coherent) (entity : EntityId)
    (attributes : Ordered Value) : (s.insert entity attributes).2.Coherent := by
  refine ⟨?_, fun other => ?_, fun key => ?_⟩
  · simp only [Store.insert, List.map_append, h.ids, List.length_append, List.length_singleton,
      List.map_singleton]
    rw [List.range'_1_concat, Nat.add_comm]
  · have htyped := h.typed other
    unfold idsOf at htyped ⊢
    simp only [Store.insert, Groups.find_add, htyped, List.filter_append, List.map_append]
    by_cases hentity : entity = other <;> simp [hentity]
  · simp only [Store.insert, Groups.find_addRow, h.indexed, List.filter_append, List.map_append]
    congr 1
    split
    · next hk => simp [hk]
    · next hk => simp [hk]

theorem Filled.coherent {s : Store} (h : s.Filled) : s.Coherent := by
  obtain ⟨rows, rfl⟩ := h
  induction rows using List.reverseRecOn with
  | nil => exact ⟨rfl, fun _ => rfl, fun _ => rfl⟩
  | append_singleton rows row ih =>
    rw [List.foldl_append]
    exact ih.insert row.1 row.2

variable {s : Store}

/-- Rows come in the order of their identifiers. -/
theorem Coherent.pairwise (h : s.Coherent) :
    s.rows.Pairwise fun r t => r.id.index < t.id.index := by
  have hids : (s.rows.map (·.id.index)).Pairwise (· < ·) := by
    rw [h.ids]
    exact List.pairwise_lt_range'
  exact List.pairwise_map.mp hids

theorem Coherent.nodup (h : s.Coherent) : s.rows.Nodup :=
  h.pairwise.imp fun hlt heq => absurd (congrArg (·.id.index) heq) (Nat.ne_of_lt hlt)

/-- Rows of the store in the order of their identifiers come as they were inserted. -/
theorem Coherent.sublist (h : s.Coherent) {rows : List Row} (hmem : rows ⊆ s.rows)
    (hrows : rows.Pairwise fun r t => r.id.index < t.id.index) : rows.Sublist s.rows :=
  Row.sublist_of_pairwise hmem hrows h.pairwise

theorem Coherent.nodup_ids (h : s.Coherent) : (s.rows.map (·.id)).Nodup :=
  List.pairwise_map.mpr (h.pairwise.imp fun hlt heq =>
    absurd (congrArg RowId.index heq) (Nat.ne_of_lt hlt))

theorem Coherent.eq_of_id_eq (h : s.Coherent) {r t : Row} (hr : r ∈ s.rows) (ht : t ∈ s.rows)
    (hid : r.id = t.id) : r = t :=
  List.inj_on_of_nodup_map h.nodup_ids hr ht hid

theorem Coherent.row?_eq_some_iff (h : s.Coherent) {id : RowId} {row : Row} :
    s.row? id = some row ↔ row ∈ s.rows ∧ row.id = id := by
  constructor
  · intro hrow
    exact ⟨List.mem_of_find?_eq_some hrow, by simpa using List.find?_some hrow⟩
  · rintro ⟨hmem, rfl⟩
    cases hfound : s.row? row.id with
    | none => simpa using List.find?_eq_none.mp hfound row hmem
    | some other =>
      have hid : other.id = row.id := by simpa using List.find?_some hfound
      rw [h.eq_of_id_eq (List.mem_of_find?_eq_some hfound) hmem hid]

/-- Finding the rows of identifiers that have rows keeps the identifiers. -/
theorem Coherent.map_id_filterMap_row? (h : s.Coherent) {ids : List RowId}
    (hids : ∀ id ∈ ids, ∃ row, s.row? id = some row) :
    (ids.filterMap s.row?).map (·.id) = ids := by
  induction ids with
  | nil => rfl
  | cons id ids ih =>
    obtain ⟨row, hrow⟩ := hids id List.mem_cons_self
    rw [List.filterMap_cons_some hrow, List.map_cons, (h.row?_eq_some_iff.mp hrow).2,
      ih fun id hid => hids id (List.mem_cons_of_mem _ hid)]

theorem mem_of_mem_rowsOf {entity : EntityId} {row : Row} (h : row ∈ s.rowsOf entity) :
    row ∈ s.rows := by
  obtain ⟨id, -, hrow⟩ := List.mem_filterMap.mp h
  exact List.mem_of_find?_eq_some hrow

/-- Rows of the store are found again by their identifiers. -/
theorem Coherent.filterMap_row?_map_id (h : s.Coherent) {rows : List Row} (hrows : rows ⊆ s.rows) :
    (rows.map (·.id)).filterMap s.row? = rows := by
  rw [List.filterMap_map]
  refine (List.filterMap_congr fun row hrow => ?_).trans List.filterMap_some
  exact h.row?_eq_some_iff.mpr ⟨hrows hrow, rfl⟩

/-- The index of entities finds the rows that going through all rows finds. -/
theorem Coherent.rowsOf_eq (h : s.Coherent) (entity : EntityId) :
    s.rowsOf entity = s.rows.filter (·.entity = entity) := by
  rw [rowsOf, h.typed]
  exact h.filterMap_row?_map_id List.filter_sublist.subset

theorem Coherent.mem_rowsOf (h : s.Coherent) {entity : EntityId} {row : Row} :
    row ∈ s.rowsOf entity ↔ row ∈ s.rows ∧ row.entity = entity := by
  simp [h.rowsOf_eq]

/-- A value leads to rows in the order of their insertion, to each once. -/
theorem Coherent.rowsWith_sublist (h : s.Coherent) (entity : EntityId) (field : String)
    (v : Value) : (s.rowsWith entity field v).Sublist (s.rows.map (·.id)) := by
  unfold rowsWith
  split
  · exact List.nil_sublist _
  · split
    · rw [h.indexed]
      exact List.filter_sublist.map _
    · rw [scan, h.rowsOf_eq]
      exact (List.filter_sublist.trans List.filter_sublist).map _

/-- A value leads to rows of the store only, and of the entity that was asked for. -/
theorem Coherent.exists_of_mem_rowsWith (h : s.Coherent) {entity : EntityId} {field : String}
    {v : Value} {id : RowId} (hid : id ∈ s.rowsWith entity field v) :
    ∃ row, s.row? id = some row ∧ row.entity = entity := by
  unfold rowsWith at hid
  split at hid
  · cases hid
  · split at hid
    · rw [h.indexed] at hid
      obtain ⟨row, hrow, rfl⟩ := List.mem_map.mp hid
      obtain ⟨hmem, hholds⟩ := List.mem_filter.mp hrow
      exact ⟨row, h.row?_eq_some_iff.mpr ⟨hmem, rfl⟩, (of_decide_eq_true hholds).1⟩
    · obtain ⟨row, hrow, rfl⟩ := List.mem_map.mp hid
      obtain ⟨hmem, hentity⟩ := h.mem_rowsOf.mp (List.mem_of_mem_filter hrow)
      exact ⟨row, h.row?_eq_some_iff.mpr ⟨hmem, rfl⟩, hentity⟩

end Store

/-- Steps that each keep a store filled. -/
theorem Store.Filled.foldl {α : Type} {step : Store → α → Store}
    (hstep : ∀ s a, s.Filled → (step s a).Filled) {s : Store} (h : s.Filled) (as : List α) :
    (as.foldl step s).Filled := by
  induction as generalizing s with
  | nil => exact h
  | cons a as ih => exact ih (hstep s a h)

/-- The store of the blog is filled by the insertions of its rows. -/
theorem Blog.filled_fill (schema : Schema) : (fill schema).Filled := by
  refine Store.Filled.foldl (fun s row hs => ?_) Store.filled_empty rows
  obtain ⟨name, attributes⟩ := row
  dsimp only
  split
  · exact hs.insert ..
  · exact hs

end FieldLookup
