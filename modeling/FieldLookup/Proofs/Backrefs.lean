import FieldLookup.Proofs.Comparability
import FieldLookup.Proofs.Consistency
import FieldLookup.Proofs.IndexedRows
import FieldLookup.Query.Fetch

/-!
Relations and their inverses on the rows of a store. Main statement:
`Schema.backref_leads_back`, where each attribute holds values of its type, joining along a relation
leads from one row to another just if joining along its backref leads back.
-/
namespace FieldLookup

/-! ## Rows that a value leads to -/

theorem Value.isIntForFloat_of_ofType {type : ScalarType} {asked stored : Value}
    (hasked : asked.OfType type) (hstored : stored.OfType type) :
    asked.isIntForFloat stored = false := by
  cases asked with
  | int n =>
    cases stored with
    | float x =>
      -- an integer and a number with a fraction are of different types
      simp only [OfType, type?, reduceCtorEq, false_or, Option.some.injEq] at hasked hstored
      cases hasked.trans hstored.symm
    | _ => rfl
  | _ => rfl

/-- An attribute that is missing compares equal to nothing, as null does. -/
theorem Row.isFound_iff_value {r : Row} {entity : EntityId} {field : String} {v : Value} :
    r.isFound entity field v = true ↔
      r.entity = entity ∧ (r.value field).compare? v = some .eq ∧
        v.isIntForFloat (r.value field) = false := by
  rw [Row.isFound_iff, Row.value]
  cases r.attribute? field with
  | none => simp [Value.compare?_null_left]
  | some w => simp

namespace Store

variable {store : Store} {s t : Row}

theorem Coherent.mem_rowsWith_iff (h : store.Coherent) (ht : t ∈ store.rows) {entity : EntityId}
    {field : String} {v : Value} :
    t.id ∈ store.rowsWith entity field v ↔ t.isFound entity field v = true := by
  rw [h.rowsWith_eq, List.mem_map]
  constructor
  · rintro ⟨r, hr, hid⟩
    obtain ⟨hr, hfound⟩ := List.mem_filter.mp hr
    rwa [← h.eq_of_id_eq hr ht hid]
  · exact fun hfound => ⟨t, List.mem_filter.mpr ⟨ht, hfound⟩, rfl⟩

end Store

/-! ## Joins -/

namespace Query

variable {schema : Schema} {store : Store} {r : Relation} {j : Join} {b : Binding} {s t : Row}

theorem mem_follow_iff (hstore : store.Coherent) (hr : schema.relation? j.relation = some r)
    (hs : s ∈ store.rows) (hb : b.row j.path.parent = .ok s.id) :
    (∃ bs, follow schema store [b] j = .ok bs ∧ (j.path, t.id) :: b ∈ bs) ↔
      t.id ∈ store.rowsWith r.target r.remoteKey (s.value r.localKey) := by
  have hrow : store.row s.id = .ok s := by rw [Store.row, hstore.row?_eq_some_iff.mpr ⟨hs, rfl⟩]
  have hextend : extend store r j b =
      .ok ((store.rowsWith r.target r.remoteKey (s.value r.localKey)).map
        fun target => (j.path, target) :: b) := by
    rw [extend, hb, Checked.ok_bind, hrow]
    rfl
  have hfollow : follow schema store [b] j =
      .ok ((store.rowsWith r.target r.remoteKey (s.value r.localKey)).map
        fun target => (j.path, target) :: b) := by
    rw [follow, hr]
    dsimp only
    rw [Checked.mapM_eq_ok_iff.mpr (.cons hextend .nil), Checked.ok_bind]
    exact congrArg Except.ok (List.append_nil _)
  simp [hfollow]

end Query

/-! ## Inverse relations -/

namespace Schema

variable {schema : Schema} {store : Store} {r r' : Relation} {s t : Row}

/-- The keys of a relation and its inverse are the same two, compared in the other order. -/
theorem Consistent.mem_rowsWith_inverse (hschema : schema.Consistent) (hstore : store.Coherent)
    (htyped : store.Typed schema) (hr : r ∈ schema.relations) (hinverts : r'.Inverts r)
    (hs : s ∈ store.rowsOf r.source) (ht : t ∈ store.rowsOf r.target) :
    t.id ∈ store.rowsWith r.target r.remoteKey (s.value r.localKey) ↔
      s.id ∈ store.rowsWith r'.target r'.remoteKey (t.value r'.localKey) := by
  obtain ⟨hs, hsource⟩ := hstore.mem_rowsOf.mp hs
  obtain ⟨ht, htarget⟩ := hstore.mem_rowsOf.mp ht
  obtain ⟨near, far, hnear, hfar, htypes⟩ := hschema.joins r hr
  have hsvalue := htyped.ofType hs hsource hnear
  have htvalue := htyped.ofType ht htarget hfar
  rw [htypes] at hsvalue
  rw [hstore.mem_rowsWith_iff ht, hstore.mem_rowsWith_iff hs, Row.isFound_iff_value,
    Row.isFound_iff_value, hinverts.target, hinverts.localKey, hinverts.remoteKey,
    Value.isIntForFloat_of_ofType hsvalue htvalue, Value.isIntForFloat_of_ofType htvalue hsvalue,
    Value.compare?_swap (s.value r.localKey)]
  simp only [hsource, htarget, true_and, and_true, Option.map_eq_some_iff]
  constructor
  · rintro ⟨o, ho, heq⟩
    rw [ho, Ordering.swap_eq_eq.mp heq]
  · exact fun h => ⟨.eq, h, rfl⟩

/-- In a built schema a relation that was declared with a backref has an inverse under that name;
and where each attribute holds values of its type, joining along the relation leads from a row of
its source to one of its target just if joining along the inverse leads back. -/
theorem backref_leads_back {declarations : List Declaration}
    (hbuild : (Draft.ofDeclarations declarations).build = .ok schema) (hf : store.Filled)
    (htyped : store.Typed schema) :
    ∀ front decl back id d backref, declarations = front ++ .relation decl :: back →
      (Draft.ofDeclarations front).relation decl = .ok (id, d) → decl.backref = some backref →
        ∃ r r', schema.relation? id = some r ∧
          schema.relationFrom? r.source decl.name = some r ∧
          schema.relationFrom? r.target backref = some r' ∧ r'.source = r.target ∧
          r'.target = r.source ∧
          ∀ s ∈ store.rowsOf r.source, ∀ t ∈ store.rowsOf r.target, ∀ b j b' j',
            j.relation = r.id → b.row j.path.parent = .ok s.id →
            j'.relation = r'.id → b'.row j'.path.parent = .ok t.id →
              ((∃ bs, Query.follow schema store [b] j = .ok bs ∧ (j.path, t.id) :: b ∈ bs) ↔
                ∃ bs, Query.follow schema store [b'] j' = .ok bs ∧
                  (j'.path, s.id) :: b' ∈ bs) := by
  have hschema := (Draft.consistent_ofDeclarations declarations).of_build hbuild
  have hstore := hf.coherent
  rintro front decl back id d backref rfl hok hback
  obtain ⟨r, hr, rfl, hname, -, hinverse⟩ := exists_of_declared hbuild hok
  obtain ⟨r', hr', rfl, hinverts⟩ := hinverse backref hback
  have hfind := hschema.relation?_eq_some_iff.mpr ⟨hr, rfl⟩
  have hfind' := hschema.relation?_eq_some_iff.mpr ⟨hr', rfl⟩
  refine ⟨r, r', hfind, hschema.relationFrom?_eq_some_iff.mpr ⟨hr, rfl, hname⟩,
    hschema.relationFrom?_eq_some_iff.mpr ⟨hr', hinverts.source, rfl⟩, hinverts.source,
    hinverts.target, ?_⟩
  intro s hs t ht b j b' j' hj hb hj' hb'
  rw [Query.mem_follow_iff hstore (hj ▸ hfind) (hstore.mem_rowsOf.mp hs).1 hb,
    Query.mem_follow_iff hstore (hj' ▸ hfind') (hstore.mem_rowsOf.mp ht).1 hb']
  exact hschema.mem_rowsWith_inverse hstore htyped hr hinverts hs ht

/-- The schema that the declarations of a tree build. -/
def tree : Schema where
  entities := [⟨⟨1⟩, "Node", [Blog.key "id", Blog.optional "parent_id" .int],
    [("parent", ⟨0⟩), ("children", ⟨1⟩)]⟩]
  names := [("Node", ⟨1⟩)]
  relations := [⟨⟨0⟩, "parent", ⟨1⟩, ⟨1⟩, .toOne, "parent_id", "id"⟩,
    ⟨⟨1⟩, "children", ⟨1⟩, ⟨1⟩, .toMany, "id", "parent_id"⟩]

theorem build_tree : (Draft.ofDeclarations treeDeclarations).build = .ok tree := rfl

/-- Three nodes, of which the first is the parent of both others. -/
def nodes : Store :=
  [(1, .null), (2, Blog.num 1), (3, Blog.num 1)].foldl (fun store (id, parent) =>
    (store.insert ⟨1⟩ (Ordered.ofList [("id", Blog.num id), ("parent_id", parent)])).2) .empty

theorem filled_nodes : nodes.Filled :=
  ((Store.filled_empty.insert _ _).insert _ _).insert _ _

theorem typed_nodes : nodes.Typed tree := by
  unfold Store.Typed Value.OfType
  decide +kernel

/-- The theorem at a relation of nodes to themselves: one node is the parent of another just if that
is among its children. -/
theorem backref_leads_back_tree :
    (Draft.ofDeclarations treeDeclarations).build = .ok tree ∧ nodes.Filled ∧ nodes.Typed tree ∧
      ∃ r r', tree.relationFrom? r.source "parent" = some r ∧
        tree.relationFrom? r.target "children" = some r' ∧
          ∀ s ∈ nodes.rowsOf r.source, ∀ t ∈ nodes.rowsOf r.target, ∀ b j b' j',
            j.relation = r.id → b.row j.path.parent = .ok s.id →
            j'.relation = r'.id → b'.row j'.path.parent = .ok t.id →
              ((∃ bs, Query.follow tree nodes [b] j = .ok bs ∧ (j.path, t.id) :: b ∈ bs) ↔
                ∃ bs, Query.follow tree nodes [b'] j' = .ok bs ∧ (j'.path, s.id) :: b' ∈ bs) := by
  obtain ⟨r, r', -, hr, hr', -, -, hback⟩ :=
    backref_leads_back build_tree filled_nodes typed_nodes (treeDeclarations.take 4)
      (Blog.toOne "Node" "parent" "Node" "parent_id" "children") [] _ _ _ rfl rfl rfl
  exact ⟨build_tree, filled_nodes, typed_nodes, r, r', hr, hr', hback⟩

example : nodes.rowsWith ⟨1⟩ "id" (Blog.num 1) = [⟨1⟩] ∧
    nodes.rowsWith ⟨1⟩ "parent_id" (Blog.num 1) = [⟨2⟩, ⟨3⟩] := by decide +kernel

end Schema

end FieldLookup
