import FieldLookup.Ordered
import FieldLookup.Proofs.Declared
import Mathlib.Data.List.Nodup
import Mathlib.Data.List.Perm.Lattice

/-!
What every run of declarations keeps true of the entities, names and relations of a draft, and what
building adds. Main statements: `Draft.consistent_ofDeclarations`, by induction on the run; and
`Schema.built_consistent`, in a built schema names and identifiers of entities are distinct and the
table of names agrees with them, no name has two meanings on an entity, each relation is listed
once, by its source, and joins attributes of one type, and each inverse that was declared is there.
-/
namespace FieldLookup

/-! ## Names of an entity -/

namespace Entity

/-- The names that mean something on an entity: those of its attributes and its relations. -/
def names (e : Entity) : List String := e.attributes.map (·.name) ++ e.relations.map (·.1)

theorem attribute?_eq_none_iff {e : Entity} {name : String} :
    e.attribute? name = none ↔ name ∉ e.attributes.map (·.name) := by
  simp [attribute?]

theorem relation?_eq_none_iff {e : Entity} {name : String} :
    e.relation? name = none ↔ name ∉ e.relations.map (·.1) := by
  rw [relation?, List.lookup_eq_none_iff, List.mem_map, not_exists]
  exact forall_congr' fun entry => by rw [not_and', bne_iff_ne, ne_comm]; tauto

/-- A name of which nothing is known is none of the entity's names. -/
theorem not_mem_names_iff {e : Entity} {name : String} :
    name ∉ e.names ↔ e.attribute? name = none ∧ e.relation? name = none := by
  rw [names, List.mem_append, not_or, attribute?_eq_none_iff, relation?_eq_none_iff]

/-- The entity after a relation was added to a source: if it is the source, it lists the relation
behind its others. -/
def listing (e : Entity) (source : EntityId) (name : String) (id : RelationId) : Entity :=
  if e.id = source then { e with relations := e.relations ++ [(name, id)] } else e

section

variable (e : Entity) (source : EntityId) (name : String) (id : RelationId)

@[simp] theorem listing_id : (e.listing source name id).id = e.id := by
  unfold listing
  split <;> rfl

@[simp] theorem listing_name : (e.listing source name id).name = e.name := by
  unfold listing
  split <;> rfl

theorem names_listing :
    (e.listing source name id).names = if e.id = source then e.names ++ [name] else e.names := by
  unfold listing
  split <;> simp [names]

theorem relations_listing :
    (e.listing source name id).relations =
      if e.id = source then e.relations ++ [(name, id)] else e.relations := by
  unfold listing
  split <;> rfl

end

end Entity

namespace Draft

theorem map_name_putAttribute (a : Attribute) (attributes : List Attribute) :
    (putAttribute a attributes).map (·.name) =
      if a.name ∈ attributes.map (·.name) then attributes.map (·.name)
      else attributes.map (·.name) ++ [a.name] := by
  induction attributes with
  | nil => rfl
  | cons b rest ih =>
    by_cases h : b.name = a.name
    · simp [putAttribute, h]
    · simp only [putAttribute, h, if_false, List.map_cons, ih, List.mem_cons, Ne.symm h, false_or]
      split <;> rfl

theorem nodup_putAttribute (a : Attribute) {attributes : List Attribute}
    (h : (attributes.map (·.name)).Nodup) : ((putAttribute a attributes).map (·.name)).Nodup := by
  rw [map_name_putAttribute]
  split
  · exact h
  · next hnew => exact List.nodup_append_comm.mp (List.nodup_cons.mpr ⟨hnew, h⟩)

/-- Of several attributes with one name, one is kept. -/
theorem nodup_distinctAttributes (attributes : List Attribute) :
    ((distinctAttributes attributes).map (·.name)).Nodup := by
  have hrun (found : List Attribute) (h : (found.map (·.name)).Nodup) :
      ((attributes.foldl (fun found a => putAttribute a found) found).map (·.name)).Nodup := by
    induction attributes generalizing found with
    | nil => exact h
    | cons a attributes ih => exact ih _ (nodup_putAttribute a h)
  exact hrun [] List.nodup_nil

theorem not_mem_names_of_checkName {e : Entity} {name : String} (h : checkName e name = .ok ()) :
    name ∉ e.names := by
  refine Entity.not_mem_names_iff.mpr ?_
  unfold checkName at h
  split at h
  · cases h
  · next hr =>
    split at h
    · cases h
    · next ha => exact ⟨Option.not_isSome_iff_eq_none.mp ha, Option.not_isSome_iff_eq_none.mp hr⟩

theorem mem_of_resolve {d : Draft} {name : String} {e : Entity} (h : d.resolve name = .ok e) :
    e ∈ d.entities := by
  unfold resolve at h
  split at h
  · next hfound =>
    cases h
    obtain ⟨_, _, hfound⟩ := Option.bind_eq_some_iff.mp hfound
    exact List.mem_of_find?_eq_some hfound
  · cases h

/-- A table that lists each entity under its name. -/
theorem lookup_names_iff {entities : List Entity} (h : (entities.map (·.name)).Nodup)
    {name : String} {id : EntityId} :
    (entities.map fun e => (e.name, e.id)).lookup name = some id ↔
      ∃ e ∈ entities, e.name = name ∧ e.id = id := by
  rw [Ordered.lookup_eq_some_iff (by simpa [Function.comp_def] using h)]
  simp

/-! ## What declarations keep -/

/-- Entities have distinct names, each of which is in the table, and identifiers that were given out
once; on each of them a name has one meaning; and it lists just the relations that leave it. -/
structure Consistent (d : Draft) : Prop extends d.Coherent where
  named : d.names = d.entities.map fun e => (e.name, e.id)
  names : (d.entities.map (·.name)).Nodup
  ids : (d.entities.map (·.id)).Nodup
  reserved : ∀ e ∈ d.entities, e.id.index < d.nextEntity
  relationIds : (d.relations.map (·.id)).Nodup
  sources : ∀ r ∈ d.relations, r.source.index < d.nextEntity
  apart : ∀ e ∈ d.entities, e.names.Nodup
  lists : ∀ e ∈ d.entities,
    e.relations = (d.relations.filter (·.source = e.id)).map fun r => (r.name, r.id)

theorem consistent_empty : empty.Consistent :=
  ⟨coherent_empty, rfl, by simp [empty], by simp [empty], by simp [empty], by simp [empty],
    by simp [empty], by simp [empty], by simp [empty]⟩

theorem Consistent.reserve {d : Draft} (h : d.Consistent) : d.reserve.2.Consistent where
  toCoherent := h.toCoherent.reserve
  named := h.named
  names := h.names
  ids := h.ids
  reserved e he := Nat.lt_succ_of_lt (h.reserved e he)
  relationIds := h.relationIds
  sources r hr := Nat.lt_succ_of_lt (h.sources r hr)
  apart := h.apart
  lists := h.lists

theorem Consistent.entityId?_eq_some_iff {d : Draft} (h : d.Consistent) {name : String}
    {id : EntityId} : d.entityId? name = some id ↔ ∃ e ∈ d.entities, e.name = name ∧ e.id = id := by
  rw [entityId?, h.named]
  exact lookup_names_iff h.names

theorem Consistent.entity {d : Draft} (h : d.Consistent) (name : String)
    (attributes : List Attribute) : (d.entity name attributes).2.Consistent := by
  have hcoherent := h.toCoherent.entity name attributes
  unfold Draft.entity at hcoherent ⊢
  dsimp only at hcoherent ⊢
  split
  · exact h.reserve
  · next hnew =>
    rw [if_neg hnew] at hcoherent
    have hname : name ∉ d.entities.map (·.name) := by
      intro hmem
      obtain ⟨e, he, heq⟩ := List.mem_map.mp hmem
      have hsome : d.entityId? name = some e.id := h.entityId?_eq_some_iff.mpr ⟨e, he, heq, rfl⟩
      exact hnew (Option.isSome_iff_exists.mpr ⟨e.id, hsome⟩)
    have hid : (⟨d.nextEntity⟩ : EntityId) ∉ d.entities.map (·.id) := by
      intro hmem
      obtain ⟨e, he, heq⟩ := List.mem_map.mp hmem
      exact Nat.lt_irrefl _ (heq ▸ h.reserved e he)
    refine ⟨hcoherent, ?_, ?_, ?_, ?_, h.relationIds,
      fun r hr => Nat.lt_succ_of_lt (h.sources r hr), ?_, ?_⟩
    · rw [List.map_append]
      exact congrArg (· ++ [(name, (⟨d.nextEntity⟩ : EntityId))]) h.named
    · rw [List.map_append]
      exact List.nodup_append_comm.mp (List.nodup_cons.mpr ⟨hname, h.names⟩)
    · rw [List.map_append]
      exact List.nodup_append_comm.mp (List.nodup_cons.mpr ⟨hid, h.ids⟩)
    · refine List.forall_mem_append.mpr ⟨fun e he => Nat.lt_succ_of_lt (h.reserved e he), ?_⟩
      exact List.forall_mem_singleton.mpr (Nat.lt_succ_self _)
    · refine List.forall_mem_append.mpr ⟨h.apart, List.forall_mem_singleton.mpr ?_⟩
      simpa [Entity.names] using nodup_distinctAttributes attributes
    · refine List.forall_mem_append.mpr ⟨h.lists, List.forall_mem_singleton.mpr ?_⟩
      -- no relation leaves the entity, whose identifier was not given out before
      have hnone : d.relations.filter (·.source = (⟨d.nextEntity⟩ : EntityId)) = [] := by
        refine List.filter_eq_nil_iff.mpr fun r hr hs => ?_
        have hlt := h.sources r hr
        rw [of_decide_eq_true hs] at hlt
        exact Nat.lt_irrefl _ hlt
      exact (congrArg (List.map fun r => (r.name, r.id)) hnone).symm

/-- A relation with a name that is new on its source. -/
theorem Consistent.link {d : Draft} (h : d.Consistent) {source : Entity}
    (hsource : source ∈ d.entities) {name : String} (hname : name ∉ source.names)
    (target : EntityId) (cardinality : Cardinality) (near far : String) :
    (d.link name source.id target cardinality near far).2.Consistent := by
  have hentities : (d.link name source.id target cardinality near far).2.entities =
      d.entities.map (·.listing source.id name ⟨d.nextRelation⟩) := rfl
  have hid : (⟨d.nextRelation⟩ : RelationId) ∉ d.relations.map (·.id) := by
    intro hmem
    obtain ⟨r, hr, heq⟩ := List.mem_map.mp hmem
    exact Nat.lt_irrefl _ (heq ▸ h.fresh r hr)
  refine ⟨h.toCoherent.link .., ?_, ?_, ?_, ?_, ?_, ?_, ?_, ?_⟩
  · rw [hentities, List.map_map]
    simpa [Function.comp_def, Draft.link] using h.named
  · rw [hentities, List.map_map]
    simpa [Function.comp_def] using h.names
  · rw [hentities, List.map_map]
    simpa [Function.comp_def] using h.ids
  · rw [hentities]
    refine List.forall_mem_map.mpr fun e he => ?_
    rw [Entity.listing_id]
    exact h.reserved e he
  · simp only [Draft.link, List.map_append]
    exact List.nodup_append_comm.mp (List.nodup_cons.mpr ⟨hid, h.relationIds⟩)
  · refine List.forall_mem_append.mpr ⟨h.sources, List.forall_mem_singleton.mpr ?_⟩
    exact h.reserved source hsource
  · rw [hentities]
    refine List.forall_mem_map.mpr fun e he => ?_
    rw [Entity.names_listing]
    split
    · next heq =>
      obtain rfl := List.inj_on_of_nodup_map h.ids he hsource heq
      exact List.nodup_append_comm.mp (List.nodup_cons.mpr ⟨hname, h.apart e he⟩)
    · exact h.apart e he
  · rw [hentities]
    refine List.forall_mem_map.mpr fun e he => ?_
    rw [Entity.relations_listing, Entity.listing_id, h.lists e he]
    simp only [Draft.link, List.filter_append, List.map_append, List.filter_singleton]
    by_cases heq : e.id = source.id
    · simp [heq]
    · simp [heq, Ne.symm heq]

/-- The target as it stands after a link, which may have been to itself: another name that was new
on it still is. -/
theorem exists_target_of_link {d : Draft} {source target : Entity} (htarget : target ∈ d.entities)
    {name other : String} (hother : other ∉ target.names)
    (hself : ¬(source.id = target.id ∧ other = name)) (cardinality : Cardinality)
    (near far : String) :
    ∃ e ∈ (d.link name source.id target.id cardinality near far).2.entities,
      e.id = target.id ∧ other ∉ e.names := by
  refine ⟨target.listing source.id name ⟨d.nextRelation⟩, List.mem_map_of_mem htarget,
    target.listing_id .., ?_⟩
  rw [Entity.names_listing]
  split
  · next heq =>
    rw [List.mem_append, List.mem_singleton, not_or]
    exact ⟨hother, fun hname => hself ⟨heq.symm, hname⟩⟩
  · exact hother

theorem Consistent.relation {d d' : Draft} (h : d.Consistent) {decl : RelationDecl}
    {id : RelationId} (hok : d.relation decl = .ok (id, d')) : d'.Consistent := by
  obtain ⟨source, target, keys, hs, ht, -, hname, -, -, hlinks⟩ := relation_cases hok
  have hsource := mem_of_resolve hs
  have hlinked := h.link hsource (not_mem_names_of_checkName hname) target.id keys.cardinality
    keys.near keys.far
  rcases hlinks with ⟨-, hlink⟩ | ⟨backref, linked, -, hback, hself, hlink, rfl⟩
  · obtain rfl : d' = _ := congrArg Prod.snd hlink
    exact hlinked
  · obtain rfl : linked = _ := congrArg Prod.snd hlink
    obtain ⟨t, hmem, hid, hnew⟩ := exists_target_of_link (mem_of_resolve ht)
      (not_mem_names_of_checkName hback) hself keys.cardinality keys.near keys.far
    have hinverse := hlinked.link hmem hnew source.id keys.cardinality.inverse keys.far keys.near
    rwa [hid] at hinverse

theorem Consistent.declare {d : Draft} (h : d.Consistent) (declaration : Declaration) :
    (d.declare declaration).Consistent := by
  cases declaration with
  | dropped => exact h.reserve
  | entity name attributes => exact h.entity name attributes
  | relation decl =>
    unfold Draft.declare
    dsimp only
    split
    · next hok => exact h.relation hok
    · exact h

theorem Consistent.foldl_declare {d : Draft} (h : d.Consistent) (declarations : List Declaration) :
    (declarations.foldl Draft.declare d).Consistent := by
  induction declarations generalizing d with
  | nil => exact h
  | cons declaration declarations ih => exact ih (h.declare declaration)

/-- Every run of declarations keeps the draft consistent, whichever of them fail. -/
theorem consistent_ofDeclarations (declarations : List Declaration) :
    (ofDeclarations declarations).Consistent :=
  consistent_empty.foldl_declare declarations

/-! ## What is declared stays -/

theorem relations_declare (d : Draft) (declaration : Declaration) :
    d.relations <+: (d.declare declaration).relations := by
  cases declaration with
  | dropped => exact List.prefix_refl _
  | entity name attributes =>
    simp only [declare, entity]
    split <;> exact List.prefix_refl _
  | relation decl =>
    unfold declare
    dsimp only
    split
    · next hok =>
      obtain ⟨source, target, keys, -, -, -, -, -, -, hlinks⟩ := relation_cases hok
      rcases hlinks with ⟨-, hlink⟩ | ⟨backref, linked, -, -, -, hlink, rfl⟩
      · obtain rfl : _ = _ := congrArg Prod.snd hlink
        exact List.prefix_append _ _
      · obtain rfl : linked = _ := congrArg Prod.snd hlink
        exact (List.prefix_append _ _).trans (List.prefix_append _ _)
    · exact List.prefix_refl _

theorem relations_foldl_declare (d : Draft) (declarations : List Declaration) :
    d.relations <+: (declarations.foldl declare d).relations := by
  induction declarations generalizing d with
  | nil => exact List.prefix_refl _
  | cons declaration declarations ih => exact (d.relations_declare declaration).trans (ih _)

end Draft

/-- A relation leads back from where another one leads to, by the same keys. -/
structure Relation.Inverts (r' r : Relation) : Prop where
  source : r'.source = r.target
  target : r'.target = r.source
  localKey : r'.localKey = r.remoteKey
  remoteKey : r'.remoteKey = r.localKey
  cardinality : r'.cardinality = r.cardinality.inverse

namespace Draft

/-- A declared relation is in the table, and with a backref one that inverts it is too. -/
theorem exists_of_relation {d d' : Draft} {decl : RelationDecl} {id : RelationId}
    (h : d.relation decl = .ok (id, d')) :
    ∃ r ∈ d'.relations, r.id = id ∧ r.name = decl.name ∧
      decl.keys = some ⟨r.cardinality, r.localKey, r.remoteKey⟩ ∧
        ∀ backref, decl.backref = some backref →
          ∃ r' ∈ d'.relations, r'.name = backref ∧ r'.Inverts r := by
  obtain ⟨source, target, keys, -, -, hkeys, -, -, -, hlinks⟩ := relation_cases h
  rcases hlinks with ⟨hnone, hlink⟩ | ⟨backref, linked, hback, -, -, hlink, rfl⟩
  · cases hlink
    refine ⟨_, List.mem_append_right _ (List.mem_singleton_self _), rfl, rfl, hkeys, ?_⟩
    exact fun backref hback => by rw [hnone] at hback; cases hback
  · cases hlink
    refine ⟨_, List.mem_append_left _ (List.mem_append_right _ (List.mem_singleton_self _)), rfl,
      rfl, hkeys, fun name hname => ?_⟩
    obtain rfl : backref = name := Option.some.inj (hback.symm.trans hname)
    exact ⟨_, List.mem_append_right _ (List.mem_singleton_self _), rfl, rfl, rfl, rfl, rfl, rfl⟩

/-! ## What building checks -/

theorem length_le_of_checkPrimaryKeys {e : Entity} (h : checkPrimaryKeys e = .ok ()) :
    e.primaryKeys.length ≤ 1 := by
  unfold checkPrimaryKeys at h
  split at h
  · cases h
  · next hle => exact Nat.le_of_not_lt hle

theorem attributeOf?_of_typeOf {d : Draft} {id : EntityId} {field : String} {type : ScalarType}
    (h : d.typeOf id field = .ok type) :
    ∃ a, Schema.attributeOf? d.schema id field = some a ∧ a.type = type := by
  unfold typeOf at h
  split at h
  · cases h
  · next e he =>
    split at h
    · cases h
    · next a ha => exact ⟨a, Option.bind_eq_some_iff.mpr ⟨e, he, ha⟩, Except.ok.inj h⟩

theorem types_of_checkKeyTypes {d : Draft} {r : Relation} (h : d.checkKeyTypes r = .ok ()) :
    ∃ near far,
      Schema.attributeOf? d.schema r.source r.localKey = some near ∧
        Schema.attributeOf? d.schema r.target r.remoteKey = some far ∧
          near.type = far.type := by
  obtain ⟨_, hnear, h⟩ := Checked.bind_eq_ok_iff.mp h
  obtain ⟨_, hfar, h⟩ := Checked.bind_eq_ok_iff.mp h
  obtain ⟨near, hn, rfl⟩ := attributeOf?_of_typeOf hnear
  obtain ⟨far, hf, rfl⟩ := attributeOf?_of_typeOf hfar
  refine ⟨near, far, hn, hf, ?_⟩
  split at h
  · assumption
  · cases h

end Draft

/-! ## Built schemas -/

/-- A key that members of a list do not share finds the one member that has it. -/
theorem find?_eq_some_iff_of_nodup {α κ : Type} [DecidableEq κ] {key : α → κ} {xs : List α}
    (h : (xs.map key).Nodup) {k : κ} {x : α} :
    xs.find? (key · = k) = some x ↔ x ∈ xs ∧ key x = k := by
  constructor
  · intro hfind
    exact ⟨List.mem_of_find?_eq_some hfind, by simpa using List.find?_some hfind⟩
  · rintro ⟨hx, rfl⟩
    cases hfind : xs.find? (key · = key x) with
    | none => simpa using List.find?_eq_none.mp hfind x hx
    | some y =>
      have hkey : key y = key x := by simpa using List.find?_some hfind
      rw [List.inj_on_of_nodup_map h (List.mem_of_find?_eq_some hfind) hx hkey]

namespace Schema

/-- Names and identifiers of entities correspond one to one, as the table of names says; a name has
one meaning on an entity; the relations that an entity lists are those of the table that leave it,
each listed once; the two keys of a relation are attributes of one type; and no entity has two
primary keys. -/
structure Consistent (s : Schema) : Prop where
  named : ∀ name id, s.entityId? name = some id ↔ ∃ e ∈ s.entities, e.name = name ∧ e.id = id
  names : (s.entities.map (·.name)).Nodup
  ids : (s.entities.map (·.id)).Nodup
  relationIds : (s.relations.map (·.id)).Nodup
  apart : ∀ e ∈ s.entities, e.names.Nodup
  lists : ∀ e ∈ s.entities, ∀ name id, e.relation? name = some id ↔
    ∃ r, s.relation? id = some r ∧ r.name = name ∧ r.source = e.id
  once : (s.entities.flatMap fun e => e.relations.map (·.2)).Perm (s.relations.map (·.id))
  joins : ∀ r ∈ s.relations, ∃ near far, s.attributeOf? r.source r.localKey = some near ∧
    s.attributeOf? r.target r.remoteKey = some far ∧ near.type = far.type
  primaryKey : ∀ e ∈ s.entities, e.primaryKeys.length ≤ 1

end Schema

namespace Draft.Consistent

variable {d : Draft} (h : d.Consistent)
include h

theorem relation?_eq_some_iff {e : Entity} (he : e ∈ d.entities) {name : String}
    {id : RelationId} :
    e.relation? name = some id ↔
      ∃ r ∈ d.relations, r.id = id ∧ r.name = name ∧ r.source = e.id := by
  have hnodup : (e.relations.map (·.1)).Nodup := (List.nodup_append.mp (h.apart e he)).2.1
  rw [Entity.relation?, Ordered.lookup_eq_some_iff hnodup, h.lists e he, List.mem_map]
  simp only [List.mem_filter, decide_eq_true_eq, Prod.mk.injEq]
  exact exists_congr fun r => by tauto

theorem mem_map_relations {e : Entity} (he : e ∈ d.entities) {id : RelationId} :
    id ∈ e.relations.map (·.2) ↔ ∃ r ∈ d.relations, r.source = e.id ∧ r.id = id := by
  rw [h.lists e he, List.map_map]
  simp [and_assoc]

/-- Each relation is listed by its source, and by no other entity. -/
theorem listed_perm (hsource : ∀ r ∈ d.relations, ∃ e ∈ d.entities, e.id = r.source) :
    (d.entities.flatMap fun e => e.relations.map (·.2)).Perm (d.relations.map (·.id)) := by
  have hnodup : (d.entities.flatMap fun e => e.relations.map (·.2)).Nodup := by
    refine List.nodup_flatMap.mpr ⟨fun e he => ?_, ?_⟩
    · rw [h.lists e he, List.map_map]
      exact (List.filter_sublist.map _).nodup h.relationIds
    · refine (List.pairwise_map.mp h.ids).imp_of_mem fun {e f} he hf hne id hid hid' => ?_
      obtain ⟨r, hr, hs, rfl⟩ := (h.mem_map_relations he).mp hid
      obtain ⟨t, ht, hs', heq⟩ := (h.mem_map_relations hf).mp hid'
      obtain rfl := List.inj_on_of_nodup_map h.relationIds ht hr heq
      exact hne (hs.symm.trans hs')
  refine (List.perm_ext_iff_of_nodup hnodup h.relationIds).mpr fun id => ?_
  rw [List.mem_flatMap, List.mem_map]
  constructor
  · rintro ⟨e, he, hid⟩
    obtain ⟨r, hr, -, rfl⟩ := (h.mem_map_relations he).mp hid
    exact ⟨r, hr, rfl⟩
  · rintro ⟨r, hr, rfl⟩
    obtain ⟨e, he, hs⟩ := hsource r hr
    exact ⟨e, he, (h.mem_map_relations he).mpr ⟨r, hr, hs.symm, rfl⟩⟩

/-- What the draft keeps and what building checks make the schema consistent. -/
theorem of_build {s : Schema} (hbuild : d.build = .ok s) : s.Consistent := by
  obtain ⟨rfl, hprimary, htypes⟩ := build_eq_ok_iff.mp hbuild
  have hjoins := fun r hr => types_of_checkKeyTypes (htypes r hr)
  refine ⟨fun _ _ => h.entityId?_eq_some_iff, h.names, h.ids, h.relationIds, h.apart,
    fun e he name id => ?_, h.listed_perm ?_, hjoins,
    fun e he => length_le_of_checkPrimaryKeys (hprimary e he)⟩
  · rw [h.relation?_eq_some_iff he]
    simp only [schema, Schema.relation?, find?_eq_some_iff_of_nodup h.relationIds, and_assoc]
  · intro r hr
    obtain ⟨near, -, hnear, -, -⟩ := hjoins r hr
    obtain ⟨e, he, -⟩ := Option.bind_eq_some_iff.mp hnear
    exact ⟨e, (find?_eq_some_iff_of_nodup h.ids).mp he⟩

end Draft.Consistent

namespace Schema

variable {s : Schema}

theorem Declared.consistent (hs : s.Declared) : s.Consistent := by
  obtain ⟨declarations, hbuild⟩ := hs
  exact (Draft.consistent_ofDeclarations declarations).of_build hbuild

theorem Consistent.entity?_eq_some_iff (h : s.Consistent) {id : EntityId} {e : Entity} :
    s.entity? id = some e ↔ e ∈ s.entities ∧ e.id = id :=
  find?_eq_some_iff_of_nodup h.ids

theorem Consistent.relation?_eq_some_iff (h : s.Consistent) {id : RelationId} {r : Relation} :
    s.relation? id = some r ↔ r ∈ s.relations ∧ r.id = id :=
  find?_eq_some_iff_of_nodup h.relationIds

/-- A name on an entity leads along the relation of the table that leaves it under that name. -/
theorem Consistent.relationFrom?_eq_some_iff (h : s.Consistent) {id : EntityId} {name : String}
    {r : Relation} :
    s.relationFrom? id name = some r ↔ r ∈ s.relations ∧ r.source = id ∧ r.name = name := by
  constructor
  · intro hfrom
    obtain ⟨e, he, hfrom⟩ := Option.bind_eq_some_iff.mp hfrom
    obtain ⟨rid, hid, hr⟩ := Option.bind_eq_some_iff.mp hfrom
    obtain ⟨hmem, rfl⟩ := h.entity?_eq_some_iff.mp he
    obtain ⟨r', hr', hname, hsource⟩ := (h.lists e hmem name rid).mp hid
    obtain rfl := Option.some.inj (hr'.symm.trans hr)
    exact ⟨(h.relation?_eq_some_iff.mp hr).1, hsource, hname⟩
  · rintro ⟨hr, rfl, rfl⟩
    obtain ⟨near, -, hnear, -, -⟩ := h.joins r hr
    obtain ⟨e, he, -⟩ := Option.bind_eq_some_iff.mp hnear
    obtain ⟨hmem, hid⟩ := h.entity?_eq_some_iff.mp he
    have hfind := h.relation?_eq_some_iff.mpr ⟨hr, rfl⟩
    have hlisted := (h.lists e hmem r.name r.id).mpr ⟨r, hfind, rfl, hid.symm⟩
    exact Option.bind_eq_some_iff.mpr ⟨e, he, Option.bind_eq_some_iff.mpr ⟨r.id, hlisted, hfind⟩⟩

/-- What a relation was declared with stays in the table, with its inverse if it has a backref. -/
theorem exists_of_declared {front back : List Declaration} {decl : RelationDecl} {id : RelationId}
    {d : Draft} (hbuild : (Draft.ofDeclarations (front ++ .relation decl :: back)).build = .ok s)
    (hok : (Draft.ofDeclarations front).relation decl = .ok (id, d)) :
    ∃ r ∈ s.relations, r.id = id ∧ r.name = decl.name ∧
      decl.keys = some ⟨r.cardinality, r.localKey, r.remoteKey⟩ ∧
        ∀ backref, decl.backref = some backref →
          ∃ r' ∈ s.relations, r'.name = backref ∧ r'.Inverts r := by
  have hstays : d.relations ⊆ s.relations := by
    have hd : (Draft.ofDeclarations front).declare (.relation decl) = d := by
      rw [Draft.declare, hok]
    have hrun : Draft.ofDeclarations (front ++ .relation decl :: back) =
        back.foldl Draft.declare d := by
      rw [Draft.ofDeclarations, List.foldl_append, List.foldl_cons, ← hd, Draft.ofDeclarations]
    rw [(Draft.build_eq_ok_iff.mp hbuild).1, hrun]
    exact (Draft.relations_foldl_declare d back).subset
  obtain ⟨r, hr, hid, hname, hkeys, hinverse⟩ := Draft.exists_of_relation hok
  refine ⟨r, hstays hr, hid, hname, hkeys, fun backref hback => ?_⟩
  obtain ⟨r', hr', hinverts⟩ := hinverse backref hback
  exact ⟨r', hstays hr', hinverts⟩

/-- A schema that is built after any run of declarations, whichever of them fail, is consistent; and
where a relation was declared with a backref, its target leads back under that name. -/
theorem built_consistent {declarations : List Declaration}
    (hbuild : (Draft.ofDeclarations declarations).build = .ok s) :
    s.Consistent ∧
      ∀ front decl back id d backref, declarations = front ++ .relation decl :: back →
        (Draft.ofDeclarations front).relation decl = .ok (id, d) → decl.backref = some backref →
          ∃ r r', s.relation? id = some r ∧ s.relationFrom? r.source decl.name = some r ∧
            decl.keys = some ⟨r.cardinality, r.localKey, r.remoteKey⟩ ∧
              s.relationFrom? r.target backref = some r' ∧ r'.Inverts r := by
  have hs := (Draft.consistent_ofDeclarations declarations).of_build hbuild
  refine ⟨hs, ?_⟩
  rintro front decl back id d backref rfl hok hback
  obtain ⟨r, hr, rfl, hname, hkeys, hinverse⟩ := exists_of_declared hbuild hok
  obtain ⟨r', hr', rfl, hinverts⟩ := hinverse backref hback
  refine ⟨r, r', hs.relation?_eq_some_iff.mpr ⟨hr, rfl⟩, ?_, hkeys, ?_, hinverts⟩
  · exact hs.relationFrom?_eq_some_iff.mpr ⟨hr, rfl, hname⟩
  · exact hs.relationFrom?_eq_some_iff.mpr ⟨hr', hinverts.source, rfl⟩

/-- Nodes of a tree. Before the relation to the parent an entity is dropped, the name of the nodes
is declared again, and so is that of an attribute as a relation. -/
def treeDeclarations : List Declaration :=
  [.dropped, .entity "Node" [Blog.key "id", Blog.optional "parent_id" .int], .entity "Node" [],
   .relation (Blog.toOne "Node" "parent_id" "Node" "parent_id" "children"),
   .relation (Blog.toOne "Node" "parent" "Node" "parent_id" "children")]

/-- The theorem at nodes whose relation to themselves is declared with a backref. -/
theorem built_consistent_tree :
    ∃ s, (Draft.ofDeclarations treeDeclarations).build = .ok s ∧ s.Consistent ∧
      ∃ r r', s.relationFrom? r.source "parent" = some r ∧
        s.relationFrom? r.target "children" = some r' ∧ r'.Inverts r := by
  obtain ⟨s, hbuild⟩ : ∃ s, (Draft.ofDeclarations treeDeclarations).build = .ok s := ⟨_, rfl⟩
  obtain ⟨hs, hinverse⟩ := built_consistent hbuild
  obtain ⟨r, r', -, hr, -, hr', hinverts⟩ :=
    hinverse (treeDeclarations.take 4) (Blog.toOne "Node" "parent" "Node" "parent_id" "children")
      [] _ _ _ rfl rfl rfl
  exact ⟨s, hbuild, hs, r, r', hr, hr', hinverts⟩

end Schema

end FieldLookup
