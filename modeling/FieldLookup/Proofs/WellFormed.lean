import FieldLookup.Proofs.Building
import FieldLookup.Proofs.Composition
import FieldLookup.Proofs.JoinList

/-!
Composed queries are well formed. Main statement: `Query.composed_wellFormed`, whatever the calls
and their order, each join extends a path that is joined before it, and all columns and eager loads
belong to the entities at their paths.
-/
namespace FieldLookup

/-- A column of an entity's attribute, at a path to that entity that is the root or joined. -/
structure Column.Covered (schema : Schema) (root : EntityId) (joins : List Join) (c : Column) :
    Prop where
  reached : Join.Reach joins c.path
  entity : schema.entityAt? root c.path = some c.entity
  found : (schema.attributeOf? c.entity c.name).isSome

/-- The joins of a query are linked, and what it tests, sorts by and loads is there. -/
structure Query.Sound (schema : Schema) (q : Query) : Prop where
  linked : Join.Linked schema q.root q.joins
  leaves : ∀ p ∈ q.predicates, ∀ leaf ∈ p.leaves,
    ∃ c, leaf.IsLeaf c ∧ c.Covered schema q.root q.joins
  order : ∀ key ∈ q.order, key.column.Covered schema q.root q.joins
  eager : ∀ load ∈ q.eager, ∃ e, schema.entityAt? q.root load.path = some e

/-- What a query must satisfy to be run: distinct joins, each behind the join of its parent and
along a relation that leaves the entity there, and columns and eager loads at the paths of their
entities. -/
structure Query.WellFormed (schema : Schema) (q : Query) : Prop where
  distinct : (q.joins.map (·.path)).Nodup
  joins : ∀ front j back, q.joins = front ++ j :: back →
    j.path ≠ Path.root ∧ j.path.getLast? = some j.relation ∧
      (j.path.parent = Path.root ∨ ∃ k ∈ front, k.path = j.path.parent) ∧
      schema.entityAt? q.root j.path = some j.target ∧
      ∃ r, schema.relation? j.relation = some r ∧
        schema.entityAt? q.root j.path.parent = some r.source ∧ r.target = j.target
  columns : ∀ p ∈ q.predicates, ∀ leaf ∈ p.leaves,
    ∃ c, leaf.column? = some c ∧ c.Covered schema q.root q.joins
  order : ∀ key ∈ q.order, key.column.Covered schema q.root q.joins
  eager : ∀ load ∈ q.eager, ∃ e, schema.entityAt? q.root load.path = some e

theorem Column.Covered.mono {schema : Schema} {root : EntityId} {joins more : List Join}
    {c : Column} (h : c.Covered schema root joins)
    (hreach : ∀ path, Join.Reach joins path → Join.Reach more path) :
    c.Covered schema root more :=
  ⟨hreach _ h.reached, h.entity, h.found⟩

/-! ## What a key adds -/

namespace Resolved.Derives

variable {ctx : KeyContext} {root : EntityId} {tokens : List String} {r : Resolved}

theorem chain (h : Derives ctx root tokens r) : Join.Chain ctx.schema root r.joins := by
  obtain ⟨hl, _, _⟩ := h
  exact ⟨_, _, _, hl, rfl⟩

theorem covered (hs : ctx.schema.Declared) (h : Derives ctx root tokens r) :
    r.column.Covered ctx.schema root r.joins := by
  obtain @⟨names, suffix, rs, e, name, field, op, hl, hc, _⟩ := h
  refine ⟨?_, hs.entityAt?_along hl rfl, by simp [hc.found]⟩
  have hreach := Join.reach_along [] Path.root rs (Join.reach_root [])
  rwa [Join.reach_addAllNew, Join.reach_nil] at hreach

end Resolved.Derives

namespace Compiler

variable {c : Compiler} {root : EntityId}

theorem condition_sound (hs : c.schema.Declared) {source : ValueOrigin} {key : String} {v : Value}
    {d : Condition} (h : c.condition root source key v = .ok d) :
    Join.Chain c.schema root d.joins ∧
      ∃ column, d.predicate.IsLeaf column ∧ column.Covered c.schema root d.joins := by
  obtain ⟨r, w, hr, hjoins, hp⟩ := condition_eq_ok h
  have hd := Resolved.ofKey_eq_ok_iff.mp hr
  rw [hjoins]
  exact ⟨hd.chain, r.column, Operator.build_isLeaf hp, hd.covered hs⟩

theorem sortKey_sound (hs : c.schema.Declared) {key : String} {sort : List Join × SortKey}
    (h : c.sortKey root key = .ok sort) :
    Join.Chain c.schema root sort.1 ∧ sort.2.column.Covered c.schema root sort.1 := by
  obtain ⟨r, hr, _, hjoins, hsort⟩ := sortKey_eq_ok h
  have hd := Resolved.ofKey_eq_ok_iff.mp hr
  rw [hjoins, hsort]
  exact ⟨hd.chain, hd.covered hs⟩

theorem relationPath_entityAt? (hs : c.schema.Declared) {key : String} {cursor : EntityId}
    {path found : Path} {tokens : List String}
    (h : c.relationPath key cursor path tokens = .ok found)
    (hpath : c.schema.entityAt? root path = some cursor) :
    ∃ e, c.schema.entityAt? root found = some e := by
  induction tokens generalizing cursor path with
  | nil =>
    cases h
    exact ⟨cursor, hpath⟩
  | cons token tokens ih =>
    unfold relationPath at h
    split at h
    · next r hr =>
      have hid := Schema.relation?_of_relationFrom? hr
      exact ih h (Schema.entityAt?_child hid (by rw [hs.source_eq hr, hpath]))
    · cases h

/-! ## What a call preserves -/

theorem linked_joinsOf (hs : c.schema.Declared) {joins : List Join}
    (h : Join.Linked c.schema root joins) {chains : List (List Join)}
    (hc : ∀ chain ∈ chains, Join.Chain c.schema root chain) :
    Join.Linked c.schema root (Join.addAllNew joins (joinsOf chains)) :=
  h.addAllNew (Join.Linked.nil.addAllNew_chains hs hc)

theorem reach_left {joins : List Join} {path : Path} (chains : List (List Join))
    (h : Join.Reach joins path) : Join.Reach (Join.addAllNew joins (joinsOf chains)) path :=
  (Join.reach_addAllNew ..).mpr (Or.inl h)

theorem reach_joinsOf {chain : List Join} {path : Path} (joins : List Join)
    {chains : List (List Join)} (hc : chain ∈ chains) (h : Join.Reach chain path) :
    Join.Reach (Join.addAllNew joins (joinsOf chains)) path := by
  rcases h with rfl | ⟨j, hj, hp⟩
  · exact Join.reach_root _
  · have hof : Join.Reach (joinsOf chains) path :=
      (Join.reach_addAllNew_chains ..).mpr (Or.inr ⟨chain, hc, j, hj, hp⟩)
    rcases hof with rfl | hof
    · exact Join.reach_root _
    · exact (Join.reach_addAllNew ..).mpr (Or.inr hof)

variable {q q' : Query}

theorem restrict_sound (hs : c.schema.Declared) {lookups : Lookups} {negate : Bool}
    {source : ValueOrigin} (hq : q.Sound c.schema)
    (h : c.restrict q lookups negate source = .ok q') :
    q'.Sound c.schema ∧ q'.root = q.root := by
  obtain ⟨conditions, hc, rfl⟩ := restrict_eq_ok h
  have hsound (d : Condition) (hd : d ∈ conditions) :
      Join.Chain c.schema q.root d.joins ∧
        ∃ column, d.predicate.IsLeaf column ∧ column.Covered c.schema q.root d.joins := by
    obtain ⟨_, _, he⟩ := Checked.exists_of_mem_mapM hc hd
    exact condition_sound hs he
  refine ⟨⟨?_, fun p hp leaf hleaf => ?_, fun key hk => ?_, hq.eager⟩, rfl⟩
  · exact linked_joinsOf hs hq.linked (List.forall_mem_map.mpr fun d hd => (hsound d hd).1)
  · rcases List.mem_append.mp hp with hp | hp
    · obtain ⟨column, hl, hcov⟩ := hq.leaves p hp leaf hleaf
      exact ⟨column, hl, hcov.mono fun path => reach_left _⟩
    · obtain ⟨d, hd, rfl⟩ := List.mem_map.mp hp
      obtain ⟨_, column, hl, hcov⟩ := hsound d hd
      have hself : leaf = d.predicate := by
        have hleaf : leaf ∈ d.predicate.leaves := by cases negate <;> exact hleaf
        rw [hl.leaves] at hleaf
        exact List.mem_singleton.mp hleaf
      exact ⟨column, hself ▸ hl, hcov.mono fun path => reach_joinsOf _ (List.mem_map_of_mem hd)⟩
  · exact (hq.order key hk).mono fun path => reach_left _

theorem order_sound (hs : c.schema.Declared) {keys : List String} (hq : q.Sound c.schema)
    (h : c.order q keys = .ok q') : q'.Sound c.schema ∧ q'.root = q.root := by
  obtain ⟨sorts, hsorts, rfl⟩ := order_eq_ok h
  have hsound (sort : List Join × SortKey) (hsort : sort ∈ sorts) :
      Join.Chain c.schema q.root sort.1 ∧
        sort.2.column.Covered c.schema q.root sort.1 := by
    obtain ⟨_, _, he⟩ := Checked.exists_of_mem_mapM hsorts hsort
    exact sortKey_sound hs he
  refine ⟨⟨?_, fun p hp leaf hleaf => ?_, fun key hk => ?_, hq.eager⟩, rfl⟩
  · exact linked_joinsOf hs hq.linked
      (List.forall_mem_map.mpr fun sort hsort => (hsound sort hsort).1)
  · obtain ⟨column, hl, hcov⟩ := hq.leaves p hp leaf hleaf
    exact ⟨column, hl, hcov.mono fun path => reach_left _⟩
  · rcases List.mem_append.mp hk with hk | hk
    · exact (hq.order key hk).mono fun path => reach_left _
    · obtain ⟨sort, hsort, rfl⟩ := List.mem_map.mp hk
      exact (hsound sort hsort).2.mono fun path => reach_joinsOf _ (List.mem_map_of_mem hsort)

theorem loadRelated_sound (hs : c.schema.Declared) {paths : List String} {depth : Option Nat}
    (hq : q.Sound c.schema) (h : c.loadRelated q paths depth = .ok q') :
    q'.Sound c.schema ∧ q'.root = q.root := by
  obtain ⟨resolved, eager, hr, rfl, hmem⟩ := loadRelated_eq_ok h
  refine ⟨⟨hq.linked, hq.leaves, hq.order, fun load hl => ?_⟩, rfl⟩
  rcases hmem load hl with hl | hl
  · exact hq.eager load hl
  · obtain ⟨_, _, he⟩ := Checked.exists_of_mem_mapM hr hl
    exact relationPath_entityAt? hs he rfl

theorem apply_sound (hs : c.schema.Declared) {request : Request} (hq : q.Sound c.schema)
    (h : c.apply q request = .ok q') : q'.Sound c.schema ∧ q'.root = q.root := by
  obtain ⟨narrowed, hn, h⟩ := Checked.bind_eq_ok_iff.mp h
  obtain ⟨hsound, hroot⟩ := restrict_sound hs hq hn
  obtain ⟨hsound', hroot'⟩ := order_sound hs hsound h
  exact ⟨hsound', hroot'.trans hroot⟩

end Compiler

theorem Call.run_sound {c : Compiler} (hs : c.schema.Declared) {q q' : Query} {call : Call}
    (hq : q.Sound c.schema) (h : call.run c q = .ok q') :
    q'.Sound c.schema ∧ q'.root = q.root := by
  cases call with
  | narrow lookups => exact Compiler.restrict_sound hs hq h
  | exclude lookups => exact Compiler.restrict_sound hs hq h
  | order keys => exact Compiler.order_sound hs hq h
  | loadRelated paths depth => exact Compiler.loadRelated_sound hs hq h
  | apply request => exact Compiler.apply_sound hs hq h
  | limitTo n =>
    cases h
    exact ⟨⟨hq.linked, hq.leaves, hq.order, hq.eager⟩, rfl⟩
  | skipping n =>
    cases h
    exact ⟨⟨hq.linked, hq.leaves, hq.order, hq.eager⟩, rfl⟩

namespace Query

variable {schema : Schema} {root : EntityId} {q : Query}

theorem sound_ofRoot (schema : Schema) (root : EntityId) : (ofRoot root).Sound schema :=
  ⟨Join.Linked.nil, by simp [ofRoot], by simp [ofRoot], by simp [ofRoot]⟩

/-- Every composed query is sound, by induction on its calls. -/
theorem Composed.sound (hs : schema.Declared) (h : Composed schema root q) :
    q.Sound schema ∧ q.root = root := by
  induction h with
  | ofRoot => exact ⟨sound_ofRoot schema root, rfl⟩
  | call c call hc _ hrun ih =>
    subst hc
    obtain ⟨hsound, hroot⟩ := Call.run_sound hs ih.1 hrun
    exact ⟨hsound, hroot.trans ih.2⟩

theorem Sound.wellFormed (h : q.Sound schema) : q.WellFormed schema := by
  refine ⟨h.linked.nodup, fun front j back hsplit => ?_, fun p hp leaf hl => ?_, h.order, h.eager⟩
  · have hfits := h.linked.fits front j back hsplit
    exact ⟨hfits.path_ne_root, hfits.getLast?, hfits.parent, hfits.entityAt?_path, hfits.relation⟩
  · obtain ⟨c, hleaf, hcov⟩ := h.leaves p hp leaf hl
    exact ⟨c, hleaf.column, hcov⟩

/-- Whatever calls compose a query from a root, in whatever order, the query is well formed. -/
theorem composed_wellFormed (hs : schema.Declared) (h : Composed schema root q) :
    q.root = root ∧ q.WellFormed schema :=
  ⟨(h.sound hs).2, (h.sound hs).1.wellFormed⟩

/-- The theorem at a query with two joins, the second behind the first. -/
theorem composed_wellFormed_praised :
    Blog.built.Declared ∧ Composed Blog.built ⟨0⟩ Blog.praised ∧ Blog.praised.joins.length = 2 ∧
      Blog.praised.root = ⟨0⟩ ∧ Blog.praised.WellFormed Blog.built :=
  ⟨Blog.declared_built, Blog.composed_praised, rfl,
    composed_wellFormed Blog.declared_built Blog.composed_praised⟩

end Query

end FieldLookup
