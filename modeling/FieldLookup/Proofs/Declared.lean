import FieldLookup.Proofs.Checked
import FieldLookup.Scenario.Blog

/-!
Schemas that a run of declarations builds, whether each of them succeeds or fails. Main statement:
`Schema.Declared.source_eq`, a relation found under a name on an entity leaves that entity.
-/
namespace FieldLookup

/-- A declaration made to a draft; an entity may be begun and dropped. -/
inductive Declaration where
  | dropped
  | entity (name : String) (attributes : List Attribute)
  | relation (decl : RelationDecl)

namespace Draft

/-- The draft after a declaration, which need not succeed. -/
def declare (d : Draft) : Declaration → Draft
  | .dropped => d.reserve.2
  | .entity name attributes => (d.entity name attributes).2
  | .relation decl =>
    match d.relation decl with
    | .ok (_, d') => d'
    | .error _ => d

def ofDeclarations (declarations : List Declaration) : Draft := declarations.foldl declare empty

/-- What a declared relation does: a link, and with a backref a second one that inverts it. -/
theorem relation_cases {d d' : Draft} {decl : RelationDecl} {id : RelationId}
    (h : d.relation decl = .ok (id, d')) :
    ∃ source target keys, d.resolve decl.source = .ok source ∧
      d.resolve decl.target = .ok target ∧ decl.keys = some keys ∧
      checkName source decl.name = .ok () ∧ ensureKey source keys.near = .ok () ∧
      ensureKey target keys.far = .ok () ∧
      ((decl.backref = none ∧
          (id, d') = d.link decl.name source.id target.id keys.cardinality keys.near keys.far) ∨
        ∃ backref linked, decl.backref = some backref ∧ checkName target backref = .ok () ∧
          ¬(source.id = target.id ∧ backref = decl.name) ∧
          (id, linked) = d.link decl.name source.id target.id keys.cardinality keys.near keys.far ∧
          d' = (linked.link backref target.id source.id keys.cardinality.inverse keys.far
            keys.near).2) := by
  obtain ⟨source, hsource, h⟩ := Checked.bind_eq_ok_iff.mp h
  obtain ⟨target, htarget, h⟩ := Checked.bind_eq_ok_iff.mp h
  cases hkeys : decl.keys with
  | none =>
    rw [hkeys] at h
    cases h
  | some keys =>
    rw [hkeys] at h
    obtain ⟨_, ⟨⟩, h⟩ := Checked.bind_eq_ok_iff.mp h
    obtain ⟨_, hname, h⟩ := Checked.bind_eq_ok_iff.mp h
    obtain ⟨_, hnear, h⟩ := Checked.bind_eq_ok_iff.mp h
    obtain ⟨_, hfar, h⟩ := Checked.bind_eq_ok_iff.mp h
    refine ⟨source, target, keys, hsource, htarget, rfl, hname, hnear, hfar, ?_⟩
    cases hb : decl.backref with
    | none =>
      rw [hb] at h
      exact Or.inl ⟨rfl, (Except.ok.inj h).symm⟩
    | some backref =>
      rw [hb] at h
      obtain ⟨_, hback, h⟩ := Checked.bind_eq_ok_iff.mp h
      by_cases hself : source.id = target.id ∧ backref = decl.name
      · rw [if_pos hself] at h
        cases h
      · rw [if_neg hself] at h
        cases h
        exact Or.inr ⟨backref, _, rfl, hback, hself, rfl, rfl⟩

/-- Names on an entity stand for relations of the table that leave the entity. -/
structure Coherent (d : Draft) : Prop where
  fresh : ∀ r ∈ d.relations, r.id.index < d.nextRelation
  listed : ∀ e ∈ d.entities, ∀ name id, (name, id) ∈ e.relations →
    ∃ r, d.relations.find? (·.id = id) = some r ∧ r.source = e.id

theorem coherent_empty : empty.Coherent := ⟨by simp [empty], by simp [empty]⟩

theorem Coherent.reserve {d : Draft} (h : d.Coherent) : d.reserve.2.Coherent := ⟨h.fresh, h.listed⟩

theorem Coherent.entity {d : Draft} (h : d.Coherent) (name : String)
    (attributes : List Attribute) : (d.entity name attributes).2.Coherent := by
  unfold Draft.entity
  dsimp only
  split
  · exact h.reserve
  · refine ⟨h.fresh, fun e he name id hn => ?_⟩
    rcases List.mem_append.mp he with he | he
    · exact h.listed e he name id hn
    · rw [List.mem_singleton.mp he] at hn
      cases hn

theorem Coherent.link {d : Draft} (h : d.Coherent) (name : String) (source target : EntityId)
    (cardinality : Cardinality) (near far : String) :
    (d.link name source target cardinality near far).2.Coherent := by
  refine ⟨fun r hr => ?_, fun e he other id hn => ?_⟩
  · rcases List.mem_append.mp hr with hr | hr
    · exact Nat.lt_succ_of_lt (h.fresh r hr)
    · rw [List.mem_singleton.mp hr]
      exact Nat.lt_succ_self _
  · obtain ⟨e₀, he₀, rfl⟩ := List.mem_map.mp he
    -- the name was listed before, and its relation is still found first, or it is the new one
    have hcases : (other, id) ∈ e₀.relations ∨
        e₀.id = source ∧ id = (⟨d.nextRelation⟩ : RelationId) := by
      split at hn
      · next hs =>
        rcases List.mem_append.mp hn with hn | hn
        · exact Or.inl hn
        · cases List.mem_singleton.mp hn
          exact Or.inr ⟨hs, rfl⟩
      · exact Or.inl hn
    have hid : (if e₀.id = source then
        { e₀ with relations := e₀.relations ++ [(name, ⟨d.nextRelation⟩)] }
        else e₀).id = e₀.id := by
      split <;> rfl
    rw [hid]
    rcases hcases with hold | ⟨hs, rfl⟩
    · obtain ⟨r, hr, hsource⟩ := h.listed e₀ he₀ other id hold
      exact ⟨r, by simp [Draft.link, List.find?_append, hr], hsource⟩
    · have hnone : d.relations.find? (·.id = (⟨d.nextRelation⟩ : RelationId)) = none := by
        refine List.find?_eq_none.mpr fun r hr hid => ?_
        have := h.fresh r hr
        simp only [decide_eq_true_eq] at hid
        rw [hid] at this
        exact Nat.lt_irrefl _ this
      exact ⟨_, by simp [Draft.link, List.find?_append, hnone]; rfl, hs.symm⟩

theorem Coherent.declare {d : Draft} (h : d.Coherent) (declaration : Declaration) :
    (d.declare declaration).Coherent := by
  cases declaration with
  | dropped => exact h.reserve
  | entity name attributes => exact h.entity name attributes
  | relation decl =>
    unfold Draft.declare
    dsimp only
    split
    · next id d' hok =>
      obtain ⟨source, target, keys, -, -, -, -, -, -, hlinks⟩ := relation_cases hok
      rcases hlinks with ⟨-, hlink⟩ | ⟨backref, linked, -, -, -, hlink, hd⟩
      · have hd : d' = _ := congrArg Prod.snd hlink
        rw [hd]
        exact h.link ..
      · have hl : linked = _ := congrArg Prod.snd hlink
        rw [hd, hl]
        exact (h.link ..).link ..
    · exact h

theorem coherent_ofDeclarations (declarations : List Declaration) :
    (ofDeclarations declarations).Coherent := by
  have hrun (d : Draft) (hd : d.Coherent) : (declarations.foldl declare d).Coherent := by
    induction declarations generalizing d with
    | nil => exact hd
    | cons declaration declarations ih => exact ih _ (hd.declare declaration)
  exact hrun empty coherent_empty

/-- A draft is finished just if each entity and each relation of it passes its check, in whatever
order they are checked. -/
theorem build_eq_ok_iff {d : Draft} {s : Schema} :
    d.build = .ok s ↔ s = d.schema ∧ (∀ e ∈ d.entities, checkPrimaryKeys e = .ok ()) ∧
      ∀ r ∈ d.relations, d.checkKeyTypes r = .ok () := by
  constructor
  · intro h
    obtain ⟨_, hentities, h⟩ := Checked.bind_eq_ok_iff.mp h
    obtain ⟨_, hrelations, h⟩ := Checked.bind_eq_ok_iff.mp h
    exact ⟨(Except.ok.inj h).symm, Checked.forM_eq_ok_iff.mp hentities,
      Checked.forM_eq_ok_iff.mp hrelations⟩
  · rintro ⟨rfl, hentities, hrelations⟩
    exact Checked.bind_eq_ok_iff.mpr ⟨(), Checked.forM_eq_ok_iff.mpr hentities,
      Checked.bind_eq_ok_iff.mpr ⟨(), Checked.forM_eq_ok_iff.mpr hrelations, rfl⟩⟩

end Draft

namespace Schema

/-- The schemas that some run of declarations builds. -/
def Declared (s : Schema) : Prop :=
  ∃ declarations, (Draft.ofDeclarations declarations).build = .ok s

theorem relation?_id {s : Schema} {id : RelationId} {r : Relation} (h : s.relation? id = some r) :
    r.id = id := by
  simpa using List.find?_some h

/-- A relation found by its name is found by its identifier too. -/
theorem relation?_of_relationFrom? {s : Schema} {e : EntityId} {name : String} {r : Relation}
    (h : s.relationFrom? e name = some r) : s.relation? r.id = some r := by
  obtain ⟨_, _, h⟩ := Option.bind_eq_some_iff.mp h
  obtain ⟨id, _, h⟩ := Option.bind_eq_some_iff.mp h
  rwa [relation?_id h]

/-- A relation found under a name on an entity leaves that entity. -/
theorem Declared.source_eq {s : Schema} (hs : s.Declared) {e : EntityId} {name : String}
    {r : Relation} (h : s.relationFrom? e name = some r) : r.source = e := by
  obtain ⟨declarations, hbuild⟩ := hs
  obtain ⟨entity, hentity, h⟩ := Option.bind_eq_some_iff.mp h
  obtain ⟨id, hid, h⟩ := Option.bind_eq_some_iff.mp h
  rw [(Draft.build_eq_ok_iff.mp hbuild).1] at hentity h
  have hmem : (name, id) ∈ entity.relations := by
    obtain ⟨front, back, hsplit, -⟩ := List.lookup_eq_some_iff.mp hid
    simp [hsplit]
  obtain ⟨r', hr', hsource⟩ := (Draft.coherent_ofDeclarations declarations).listed entity
    (List.mem_of_find?_eq_some hentity) name id hmem
  have he : entity.id = e := by simpa using List.find?_some hentity
  have hr : r' = r := by simpa [relation?, Draft.schema, hr'] using h
  rw [← hr, hsource, he]

end Schema

namespace Blog

def declarations : List Declaration :=
  entities.map (fun e => .entity e.1 e.2) ++ relations.map .relation

/-- The schema that the declarations of the blog build. -/
def built : Schema := (Draft.ofDeclarations declarations).schema

theorem declared_built : built.Declared := ⟨declarations, rfl⟩

end Blog

end FieldLookup
