import FieldLookup.Proofs.Consistency

/-!
Declarations as steps on a draft that stays as they leave it, also where they fail midway. Main
statements: `Drafting.relation_atomic`, a relation is refused before anything is done to the draft;
and `Draft.performed_atomic`, what a run of declarations builds does not depend on the relations
that it declares in vain.
-/
namespace FieldLookup

/-! ## Steps on a draft -/

/-- Steps on a draft that may fail. What was done to the draft before a failure stays done. -/
abbrev Drafting (α : Type) := ExceptT SchemaError (StateM Draft) α

namespace Drafting

section Steps

variable {α β γ : Type}

/-- What a step answers, and the draft that it leaves. -/
def exec (x : Drafting α) (d : Draft) : Except SchemaError α × Draft := (ExceptT.run x).run d

theorem exec_bind (x : Drafting α) (f : α → Drafting β) (d : Draft) :
    (x >>= f).exec d =
      match x.exec d with
      | (.ok a, d') => (f a).exec d'
      | (.error e, d') => (.error e, d') := by
  have hstep : (x >>= f).exec d = (ExceptT.bindCont f (x.exec d).1).run (x.exec d).2 := rfl
  rw [hstep]
  rcases x.exec d with ⟨_ | _, _⟩ <;> rfl

@[simp] theorem exec_pure (a : α) (d : Draft) : exec (pure a) d = (.ok a, d) := rfl

@[simp] theorem exec_throw (e : SchemaError) (d : Draft) :
    exec (throw e : Drafting α) d = (.error e, d) := rfl

@[simp] theorem exec_get_bind (f : Draft → Drafting α) (d : Draft) :
    exec (get >>= f) d = (f d).exec d := rfl

theorem exec_bind_ok {x : Drafting α} {d d' : Draft} {a : α} (h : x.exec d = (.ok a, d'))
    (f : α → Drafting β) : (x >>= f).exec d = (f a).exec d' := by
  rw [exec_bind, h]

theorem exec_bind_error {x : Drafting α} {d d' : Draft} {e : SchemaError}
    (h : x.exec d = (.error e, d')) (f : α → Drafting β) :
    (x >>= f).exec d = (.error e, d') := by
  rw [exec_bind, h]

/-- A step that leaves the draft as it is. -/
def Reads (x : Drafting α) : Prop := ∀ d, (x.exec d).2 = d

/-- A step that never fails. -/
def Certain (x : Drafting α) : Prop := ∀ d, ∃ a d', x.exec d = (.ok a, d')

/-- A step that leaves the draft as it is whenever it fails. -/
def Atomic (x : Drafting α) : Prop := ∀ d d' e, x.exec d = (.error e, d') → d' = d

theorem Certain.bind {x : Drafting α} {f : α → Drafting β} (hx : x.Certain)
    (hf : ∀ a, (f a).Certain) : (x >>= f).Certain := by
  intro d
  obtain ⟨a, d', h⟩ := hx d
  rw [exec_bind, h]
  exact hf a d'

theorem Certain.atomic {x : Drafting α} (hx : x.Certain) : x.Atomic := by
  intro d d' e h
  obtain ⟨a, d'', h'⟩ := hx d
  rw [h] at h'
  cases h'

theorem Reads.bind {x : Drafting α} {f : α → Drafting β} (hx : x.Reads)
    (hf : ∀ a, (f a).Reads) : (x >>= f).Reads := by
  intro d
  have hd := hx d
  rw [exec_bind]
  rcases hx' : x.exec d with ⟨e | a, d'⟩
  · rw [hx'] at hd
    exact hd
  · rw [hx'] at hd
    obtain rfl : d' = d := hd
    exact hf a d'

/-- Reading before an atomic step keeps it atomic. -/
theorem Reads.bind_atomic {x : Drafting α} {f : α → Drafting β} (hx : x.Reads)
    (hf : ∀ a, (f a).Atomic) : (x >>= f).Atomic := by
  intro d d' e h
  have hd := hx d
  rw [exec_bind] at h
  rcases hx' : x.exec d with ⟨e' | a, d''⟩
  · rw [hx'] at h hd
    cases h
    exact hd
  · rw [hx'] at h hd
    obtain rfl : d'' = d := hd
    exact hf a d'' d' e h

/-- The new draft of an answer that holds one, or after an error the old one. -/
def settle (d : Draft) : Except SchemaError (α × Draft) → Except SchemaError α × Draft
  | .ok (a, d') => (.ok a, d')
  | .error e => (.error e, d)

/-- Reading in step with a computation that has no draft to change. -/
theorem exec_bind_map {x : Drafting α} {y : Except SchemaError β} {g : β → α}
    {f : α → Drafting γ} {k : β → Except SchemaError (γ × Draft)} {d : Draft}
    (hx : x.exec d = (y.map g, d))
    (hf : ∀ b, y = .ok b → (f (g b)).exec d = settle d (k b)) :
    (x >>= f).exec d = settle d (y >>= k) := by
  rw [exec_bind, hx]
  cases y with
  | error e => rfl
  | ok b => exact hf b rfl

theorem exec_bind_settle {x : Drafting α} {y : Except SchemaError α} {f : α → Drafting γ}
    {k : α → Except SchemaError (γ × Draft)} {d : Draft} (hx : x.exec d = (y, d))
    (hf : ∀ a, y = .ok a → (f a).exec d = settle d (k a)) :
    (x >>= f).exec d = settle d (y >>= k) := by
  refine exec_bind_map (g := id) ?_ hf
  rw [hx]
  cases y <;> rfl

end Steps

/-! ## Declaring a relation -/

/-- The entity that a name stands for. -/
def idOf (name : String) : Drafting EntityId := do
  match (← get).entityId? name with
  | some id => return id
  | none => throw (.unknownEntity name)

def keysOf (decl : RelationDecl) : Drafting JoinKeys :=
  match decl.keys with
  | some keys => return keys
  | none => throw (.missingJoinKeys decl.name)

/-- Fails if a name already means something on an entity. -/
def checkName (id : EntityId) (name : String) : Drafting Unit := do
  match (← get).entity? id with
  | none => return
  | some e =>
    if (e.relation? name).isSome then throw (.duplicateRelation e.name name)
    if (e.attribute? name).isSome then throw (.shadowsAttribute e.name name)

def ensureKey (id : EntityId) (field : String) : Drafting Unit := do
  match (← get).entity? id with
  | none => throw (.unknownEntity id.text)
  | some e => if (e.attribute? field).isNone then throw (.unknownJoinKey e.name field)

def checkBackref (decl : RelationDecl) (source target : EntityId) : Drafting Unit :=
  match decl.backref with
  | none => return
  | some backref => do
    checkName target backref
    if source = target ∧ backref = decl.name then
      throw (.duplicateRelation decl.source decl.name)

def allocate : Drafting RelationId :=
  modifyGet fun d => (⟨d.nextRelation⟩, { d with nextRelation := d.nextRelation + 1 })

/-- Puts a relation into the table and, in place of any other of its name, on its source. -/
def insert (r : Relation) : Drafting Unit :=
  modify fun d =>
    { d with
      entities := d.entities.map fun e =>
        if e.id = r.source then { e with relations := Ordered.put r.name r.id e.relations } else e
      relations := d.relations ++ [r] }

def link (name : String) (source target : EntityId) (cardinality : Cardinality)
    (near far : String) : Drafting RelationId := do
  let id ← allocate
  insert ⟨id, name, source, target, cardinality, near, far⟩
  return id

def linkBackref (decl : RelationDecl) (source target : EntityId) (keys : JoinKeys) :
    Drafting Unit :=
  match decl.backref with
  | none => return
  | some backref => do
    let _ ← link backref target source keys.cardinality.inverse keys.far keys.near

/-- Declares a relation and its inverse: all checks of both come first. -/
def relation (decl : RelationDecl) : Drafting RelationId := do
  let source ← idOf decl.source
  let target ← idOf decl.target
  let keys ← keysOf decl
  checkName source decl.name
  ensureKey source keys.near
  ensureKey target keys.far
  checkBackref decl source target
  let id ← link decl.name source target keys.cardinality keys.near keys.far
  linkBackref decl source target keys
  return id

/-! ## What each step does -/

theorem exec_keysOf (decl : RelationDecl) (d : Draft) :
    (keysOf decl).exec d =
      (match decl.keys with
        | some keys => .ok keys
        | none => .error (.missingJoinKeys decl.name), d) := by
  unfold keysOf
  cases decl.keys <;> rfl

theorem exec_checkName (id : EntityId) (name : String) (d : Draft) :
    (checkName id name).exec d =
      (match d.entity? id with
        | some e => Draft.checkName e name
        | none => .ok (), d) := by
  unfold checkName Draft.checkName
  rw [exec_get_bind]
  cases d.entity? id with
  | none => rfl
  | some e =>
    by_cases hr : (e.relation? name).isSome
    · simp [hr]
    · by_cases ha : (e.attribute? name).isSome <;> simp [hr, ha]

theorem exec_ensureKey (id : EntityId) (field : String) (d : Draft) :
    (ensureKey id field).exec d =
      (match d.entity? id with
        | some e => Draft.ensureKey e field
        | none => .error (.unknownEntity id.text), d) := by
  unfold ensureKey Draft.ensureKey
  rw [exec_get_bind]
  cases d.entity? id with
  | none => rfl
  | some e => cases h : e.attribute? field <;> simp [h]

/-! ## Checks come first -/

theorem reads_idOf (name : String) : (idOf name).Reads := by
  intro d
  unfold idOf
  rw [exec_get_bind]
  cases d.entityId? name <;> rfl

theorem reads_keysOf (decl : RelationDecl) : (keysOf decl).Reads := by
  intro d
  rw [exec_keysOf]

theorem reads_checkName (id : EntityId) (name : String) : (checkName id name).Reads := by
  intro d
  rw [exec_checkName]

theorem reads_ensureKey (id : EntityId) (field : String) : (ensureKey id field).Reads := by
  intro d
  rw [exec_ensureKey]

theorem reads_checkBackref (decl : RelationDecl) (source target : EntityId) :
    (checkBackref decl source target).Reads := by
  unfold checkBackref
  cases decl.backref with
  | none => exact fun _ => rfl
  | some backref =>
    refine (reads_checkName target backref).bind fun _ => ?_
    split
    · exact fun _ => rfl
    · exact fun _ => rfl

theorem certain_link (name : String) (source target : EntityId) (cardinality : Cardinality)
    (near far : String) : (link name source target cardinality near far).Certain := by
  intro d
  exact ⟨_, _, rfl⟩

theorem certain_linkBackref (decl : RelationDecl) (source target : EntityId) (keys : JoinKeys) :
    (linkBackref decl source target keys).Certain := by
  unfold linkBackref
  cases decl.backref with
  | none => exact fun d => ⟨_, _, rfl⟩
  | some backref => exact Certain.bind (certain_link _ _ _ _ _ _) fun _ d => ⟨_, _, rfl⟩

/-- A relation that is refused leaves the draft as it was. -/
theorem relation_atomic (decl : RelationDecl) : (relation decl).Atomic := by
  unfold relation
  refine (reads_idOf decl.source).bind_atomic fun source => ?_
  refine (reads_idOf decl.target).bind_atomic fun target => ?_
  refine (reads_keysOf decl).bind_atomic fun keys => ?_
  refine (reads_checkName source decl.name).bind_atomic fun _ => ?_
  refine (reads_ensureKey source keys.near).bind_atomic fun _ => ?_
  refine (reads_ensureKey target keys.far).bind_atomic fun _ => ?_
  refine (reads_checkBackref decl source target).bind_atomic fun _ => ?_
  -- No check is left: what follows changes the draft, and cannot fail.
  refine Certain.atomic (Certain.bind (certain_link _ _ _ _ _ _) fun id => ?_)
  exact (certain_linkBackref decl source target keys).bind fun _ d => ⟨id, d, rfl⟩

end Drafting

/-! ## In step with the declaration of the draft -/

namespace Draft.Consistent

variable {d : Draft}

theorem entity?_id (h : d.Consistent) {e : Entity} (he : e ∈ d.entities) :
    d.entity? e.id = some e :=
  (find?_eq_some_iff_of_nodup h.ids).mpr ⟨he, rfl⟩

/-- The table of names leads to the entity that has the name. -/
theorem entityNamed?_eq_some_iff (h : d.Consistent) {name : String} {e : Entity} :
    d.entityNamed? name = some e ↔ e ∈ d.entities ∧ e.name = name := by
  constructor
  · intro hnamed
    obtain ⟨id, hid, he⟩ := Option.bind_eq_some_iff.mp hnamed
    obtain ⟨e', he', hname, rfl⟩ := h.entityId?_eq_some_iff.mp hid
    obtain rfl := Option.some.inj ((h.entity?_id he').symm.trans he)
    exact ⟨he', hname⟩
  · rintro ⟨he, rfl⟩
    have hid : d.entityId? e.name = some e.id := h.entityId?_eq_some_iff.mpr ⟨e, he, rfl, rfl⟩
    exact Option.bind_eq_some_iff.mpr ⟨e.id, hid, h.entity?_id he⟩

theorem exec_idOf (h : d.Consistent) (name : String) :
    (Drafting.idOf name).exec d = ((d.resolve name).map (·.id), d) := by
  unfold Drafting.idOf Draft.resolve
  rw [Drafting.exec_get_bind]
  cases hid : d.entityId? name with
  | none =>
    have hnone : d.entityNamed? name = none := by rw [entityNamed?, hid]; rfl
    rw [hnone]
    rfl
  | some id =>
    obtain ⟨e, he, rfl, rfl⟩ := h.entityId?_eq_some_iff.mp hid
    rw [h.entityNamed?_eq_some_iff.mpr ⟨he, rfl⟩]
    rfl

/-- A name that is new on its source is put behind the others. -/
theorem exec_link (h : d.Consistent) {source : Entity} (hsource : source ∈ d.entities)
    {name : String} (hname : name ∉ source.names) (target : EntityId) (cardinality : Cardinality)
    (near far : String) :
    (Drafting.link name source.id target cardinality near far).exec d =
      (.ok (d.link name source.id target cardinality near far).1,
        (d.link name source.id target cardinality near far).2) := by
  have hput : (d.entities.map fun e =>
      if e.id = source.id then
        { e with relations := Ordered.put name ⟨d.nextRelation⟩ e.relations }
      else e) =
      d.entities.map (·.listing source.id name ⟨d.nextRelation⟩) := by
    refine List.map_congr_left fun e he => ?_
    unfold Entity.listing
    split
    · next hid =>
      obtain rfl := List.inj_on_of_nodup_map h.ids he hsource hid
      rw [Ordered.put_of_not_mem fun hmem => hname (List.mem_append_right _ hmem)]
    · rfl
  have hexec : (Drafting.link name source.id target cardinality near far).exec d =
      (.ok ⟨d.nextRelation⟩,
        { d with
          entities := d.entities.map fun e =>
            if e.id = source.id then
              { e with relations := Ordered.put name ⟨d.nextRelation⟩ e.relations }
            else e
          relations := d.relations ++
            [⟨⟨d.nextRelation⟩, name, source.id, target, cardinality, near, far⟩]
          nextRelation := d.nextRelation + 1 }) := rfl
  rw [hexec, hput]
  rfl

/-- The steps of a declaration do what declaring the relation does. -/
theorem exec_relation (h : d.Consistent) (decl : RelationDecl) :
    (Drafting.relation decl).exec d = Drafting.settle d (d.relation decl) := by
  unfold Drafting.relation Draft.relation
  refine Drafting.exec_bind_map (h.exec_idOf _) fun source hsource => ?_
  refine Drafting.exec_bind_map (h.exec_idOf _) fun target htarget => ?_
  cases hkeys : decl.keys with
  | none => exact Drafting.exec_bind_error (by rw [Drafting.exec_keysOf, hkeys]) _
  | some keys =>
    rw [Drafting.exec_bind_ok (a := keys) (by rw [Drafting.exec_keysOf, hkeys])]
    -- The steps look entities up by identifier, which finds those that the names stand for.
    have hfind := h.entity?_id (mem_of_resolve hsource)
    have hfind' := h.entity?_id (mem_of_resolve htarget)
    refine Drafting.exec_bind_settle (by rw [Drafting.exec_checkName, hfind]) fun _ hname => ?_
    refine Drafting.exec_bind_settle (by rw [Drafting.exec_ensureKey, hfind]) fun _ hnear => ?_
    refine Drafting.exec_bind_settle (by rw [Drafting.exec_ensureKey, hfind']) fun _ hfar => ?_
    have hlink := h.exec_link (mem_of_resolve hsource) (not_mem_names_of_checkName hname) target.id
      keys.cardinality keys.near keys.far
    unfold Drafting.checkBackref Drafting.linkBackref
    cases decl.backref with
    | none =>
      rw [Drafting.exec_bind_ok (Drafting.exec_pure _ _), Drafting.exec_bind_ok hlink]
      rfl
    | some backref =>
      dsimp only
      rw [bind_assoc]
      refine Drafting.exec_bind_settle (by rw [Drafting.exec_checkName, hfind']) fun _ hback => ?_
      by_cases hself : source.id = target.id ∧ backref = decl.name
      · rw [if_pos hself, if_pos hself]
        rfl
      · rw [if_neg hself, if_neg hself]
        rw [Drafting.exec_bind_ok (Drafting.exec_pure _ _), Drafting.exec_bind_ok hlink]
        have hlinked := h.link (mem_of_resolve hsource) (not_mem_names_of_checkName hname)
          target.id keys.cardinality keys.near keys.far
        obtain ⟨linked, hmem, hid, hnew⟩ := exists_target_of_link (mem_of_resolve htarget)
          (not_mem_names_of_checkName hback) hself keys.cardinality keys.near keys.far
        have hinverse := hlinked.exec_link hmem hnew source.id keys.cardinality.inverse keys.far
          keys.near
        rw [hid] at hinverse
        rw [Drafting.exec_bind_ok (Drafting.exec_bind_ok hinverse _)]
        rfl

end Draft.Consistent

/-! ## What is refused -/

/-- The error of a name that already stands for a relation or an attribute. -/
inductive Entity.Clashes (e : Entity) (name : String) : SchemaError → Prop
  | ofRelation : name ∈ e.relations.map (·.1) → Clashes e name (.duplicateRelation e.name name)
  | ofAttribute : name ∈ e.attributes.map (·.name) → Clashes e name (.shadowsAttribute e.name name)

/-- The reasons to refuse a relation, each with the error that states it. -/
inductive Draft.Refuses (d : Draft) (decl : RelationDecl) : SchemaError → Prop
  | source : d.entityNamed? decl.source = none → Refuses d decl (.unknownEntity decl.source)
  | target : d.entityNamed? decl.target = none → Refuses d decl (.unknownEntity decl.target)
  | keys : decl.keys = none → Refuses d decl (.missingJoinKeys decl.name)
  | name {source : Entity} {e : SchemaError} :
      d.entityNamed? decl.source = some source → source.Clashes decl.name e → Refuses d decl e
  | near {source : Entity} {keys : JoinKeys} :
      d.entityNamed? decl.source = some source → decl.keys = some keys →
        keys.near ∉ source.attributes.map (·.name) →
          Refuses d decl (.unknownJoinKey source.name keys.near)
  | far {target : Entity} {keys : JoinKeys} :
      d.entityNamed? decl.target = some target → decl.keys = some keys →
        keys.far ∉ target.attributes.map (·.name) →
          Refuses d decl (.unknownJoinKey target.name keys.far)
  | backref {target : Entity} {backref : String} {e : SchemaError} :
      d.entityNamed? decl.target = some target → decl.backref = some backref →
        target.Clashes backref e → Refuses d decl e
  | itself : decl.source = decl.target → decl.backref = some decl.name →
      Refuses d decl (.duplicateRelation decl.source decl.name)

namespace Draft

theorem resolve_eq_ok_iff {d : Draft} {name : String} {e : Entity} :
    d.resolve name = .ok e ↔ d.entityNamed? name = some e := by
  unfold resolve
  cases d.entityNamed? name <;> simp

theorem resolve_eq_error_iff {d : Draft} {name : String} {error : SchemaError} :
    d.resolve name = .error error ↔
      d.entityNamed? name = none ∧ error = .unknownEntity name := by
  unfold resolve
  cases d.entityNamed? name <;> simp [eq_comm]

theorem clashes_of_checkName {e : Entity} {name : String} {error : SchemaError}
    (h : checkName e name = .error error) : e.Clashes name error := by
  unfold checkName at h
  split at h
  · next hr =>
    cases h
    refine .ofRelation ?_
    by_contra hnot
    simp [Entity.relation?_eq_none_iff.mpr hnot] at hr
  · split at h
    · next ha =>
      cases h
      refine .ofAttribute ?_
      by_contra hnot
      simp [Entity.attribute?_eq_none_iff.mpr hnot] at ha
    · cases h

theorem not_clashes_of_checkName {e : Entity} {name : String} {error : SchemaError}
    (h : checkName e name = .ok ()) : ¬e.Clashes name error := by
  intro hclash
  have hnew := not_mem_names_of_checkName h
  rw [Entity.names, List.mem_append, not_or] at hnew
  cases hclash with
  | ofRelation hmem => exact hnew.2 hmem
  | ofAttribute hmem => exact hnew.1 hmem

theorem ensureKey_eq_ok_iff {e : Entity} {field : String} :
    ensureKey e field = .ok () ↔ field ∈ e.attributes.map (·.name) := by
  have hnone : e.attribute? field = none ↔ field ∉ e.attributes.map (·.name) :=
    Entity.attribute?_eq_none_iff
  unfold ensureKey
  cases h : e.attribute? field with
  | none => simpa [h] using hnone.mp h
  | some a =>
    rw [h] at hnone
    simpa using hnone

theorem ensureKey_eq_error {e : Entity} {field : String} {error : SchemaError}
    (h : ensureKey e field = .error error) :
    field ∉ e.attributes.map (·.name) ∧ error = .unknownJoinKey e.name field := by
  constructor
  · intro hmem
    rw [ensureKey_eq_ok_iff.mpr hmem] at h
    cases h
  · unfold ensureKey at h
    split at h
    · cases h
    · cases h
      rfl

/-- A relation fails for a reason. -/
theorem refuses_of_relation {d : Draft} (hd : d.Consistent) {decl : RelationDecl}
    {error : SchemaError} (h : d.relation decl = .error error) : d.Refuses decl error := by
  rcases Checked.bind_eq_error_iff.mp h with h | ⟨source, hs, h⟩
  · obtain ⟨hnone, rfl⟩ := resolve_eq_error_iff.mp h
    exact .source hnone
  rcases Checked.bind_eq_error_iff.mp h with h | ⟨target, ht, h⟩
  · obtain ⟨hnone, rfl⟩ := resolve_eq_error_iff.mp h
    exact .target hnone
  have hsource := resolve_eq_ok_iff.mp hs
  have htarget := resolve_eq_ok_iff.mp ht
  cases hkeys : decl.keys with
  | none =>
    rw [hkeys] at h
    cases h
    exact .keys hkeys
  | some keys =>
    rw [hkeys] at h
    rcases Checked.bind_eq_error_iff.mp h with h | ⟨_, ⟨⟩, h⟩
    · cases h
    rcases Checked.bind_eq_error_iff.mp h with h | ⟨_, -, h⟩
    · exact .name hsource (clashes_of_checkName h)
    rcases Checked.bind_eq_error_iff.mp h with h | ⟨_, -, h⟩
    · obtain ⟨hmem, rfl⟩ := ensureKey_eq_error h
      exact .near hsource hkeys hmem
    rcases Checked.bind_eq_error_iff.mp h with h | ⟨_, -, h⟩
    · obtain ⟨hmem, rfl⟩ := ensureKey_eq_error h
      exact .far htarget hkeys hmem
    cases hback : decl.backref with
    | none =>
      rw [hback] at h
      cases h
    | some backref =>
      rw [hback] at h
      rcases Checked.bind_eq_error_iff.mp h with h | ⟨_, -, h⟩
      · exact .backref htarget hback (clashes_of_checkName h)
      by_cases hself : source.id = target.id ∧ backref = decl.name
      · rw [if_pos hself] at h
        cases h
        refine .itself ?_ (hself.2 ▸ hback)
        -- One identifier is that of one entity, found under both names.
        obtain ⟨hmem, hname⟩ := hd.entityNamed?_eq_some_iff.mp hsource
        obtain ⟨hmem', hname'⟩ := hd.entityNamed?_eq_some_iff.mp htarget
        rw [← hname, List.inj_on_of_nodup_map hd.ids hmem hmem' hself.1, hname']
      · rw [if_neg hself] at h
        cases h

/-- A relation that there is a reason to refuse fails. -/
theorem Refuses.not_ok {d : Draft} {decl : RelationDecl} {error : SchemaError}
    (h : d.Refuses decl error) (answer : RelationId × Draft) : d.relation decl ≠ .ok answer := by
  intro hok
  obtain ⟨source, target, keys, hs, ht, hkeys, hname, hnear, hfar, hback⟩ := relation_cases hok
  rw [resolve_eq_ok_iff] at hs ht
  cases h with
  | source hnone => simp [hnone] at hs
  | target hnone => simp [hnone] at ht
  | keys hnone => simp [hnone] at hkeys
  | name hsource hclash =>
    obtain rfl : _ = source := Option.some.inj (hsource.symm.trans hs)
    exact not_clashes_of_checkName hname hclash
  | near hsource hkeys' hmem =>
    obtain rfl : _ = source := Option.some.inj (hsource.symm.trans hs)
    obtain rfl : _ = keys := Option.some.inj (hkeys'.symm.trans hkeys)
    exact hmem (ensureKey_eq_ok_iff.mp hnear)
  | far htarget hkeys' hmem =>
    obtain rfl : _ = target := Option.some.inj (htarget.symm.trans ht)
    obtain rfl : _ = keys := Option.some.inj (hkeys'.symm.trans hkeys)
    exact hmem (ensureKey_eq_ok_iff.mp hfar)
  | backref htarget hbackref hclash =>
    rcases hback with ⟨hnone, -⟩ | ⟨name, linked, hbackref', hcheck, -⟩
    · simp [hnone] at hbackref
    · obtain rfl : _ = target := Option.some.inj (htarget.symm.trans ht)
      obtain rfl : _ = name := Option.some.inj (hbackref.symm.trans hbackref')
      exact not_clashes_of_checkName hcheck hclash
  | itself hself hbackref =>
    rcases hback with ⟨hnone, -⟩ | ⟨name, linked, hbackref', -, hdistinct, -⟩
    · simp [hnone] at hbackref
    · obtain rfl : _ = name := Option.some.inj (hbackref.symm.trans hbackref')
      rw [hself, ht] at hs
      obtain rfl : target = source := Option.some.inj hs
      exact hdistinct ⟨rfl, rfl⟩

end Draft

/-! ## Runs of declarations -/

namespace Draft

/-- The draft that a declaration leaves, whether it succeeds or fails. -/
def perform (d : Draft) : Declaration → Draft
  | .dropped => d.reserve.2
  | .entity name attributes => (d.entity name attributes).2
  | .relation decl => ((Drafting.relation decl).exec d).2

def performed (declarations : List Declaration) : Draft := declarations.foldl perform empty

theorem Consistent.perform_eq {d : Draft} (h : d.Consistent) (declaration : Declaration) :
    d.perform declaration = d.declare declaration := by
  cases declaration with
  | dropped => rfl
  | entity name attributes => rfl
  | relation decl =>
    rw [perform, Draft.declare, h.exec_relation]
    cases d.relation decl <;> rfl

theorem performed_eq (declarations : List Declaration) :
    performed declarations = ofDeclarations declarations := by
  have hrun (d : Draft) (hd : d.Consistent) :
      declarations.foldl perform d = declarations.foldl declare d := by
    induction declarations generalizing d with
    | nil => rfl
    | cons declaration declarations ih =>
      rw [List.foldl_cons, List.foldl_cons, hd.perform_eq]
      exact ih _ (hd.declare declaration)
  exact hrun empty consistent_empty

theorem consistent_performed (declarations : List Declaration) :
    (performed declarations).Consistent := by
  rw [performed_eq]
  exact consistent_ofDeclarations declarations

/-- Whether a declaration is that of a relation, and fails. -/
def fails (d : Draft) : Declaration → Bool
  | .relation decl => !((Drafting.relation decl).exec d).1.isOk
  | _ => false

/-- The declarations of a run without those of relations that fail. -/
def withoutFailed (d : Draft) : List Declaration → List Declaration
  | [] => []
  | declaration :: rest =>
    if d.fails declaration then withoutFailed (d.perform declaration) rest
    else declaration :: withoutFailed (d.perform declaration) rest

theorem perform_of_fails {d : Draft} {declaration : Declaration}
    (h : d.fails declaration = true) : d.perform declaration = d := by
  cases declaration with
  | dropped => cases h
  | entity name attributes => cases h
  | relation decl =>
    rcases hexec : (Drafting.relation decl).exec d with ⟨e | id, d'⟩
    · have hd := Drafting.relation_atomic decl d d' e hexec
      rw [perform, hexec, hd]
    · rw [fails, hexec] at h
      cases h

/-- Relations that are declared in vain may as well not be declared. -/
theorem foldl_perform_withoutFailed (d : Draft) (declarations : List Declaration) :
    (withoutFailed d declarations).foldl perform d = declarations.foldl perform d := by
  induction declarations generalizing d with
  | nil => rfl
  | cons declaration declarations ih =>
    rw [withoutFailed, List.foldl_cons]
    split
    · next h =>
      rw [perform_of_fails h]
      exact ih d
    · rw [List.foldl_cons]
      exact ih _

theorem entity_of_error {d d' : Draft} {name : String} {attributes : List Attribute}
    {e : SchemaError} (h : d.entity name attributes = (.error e, d')) :
    d' = { d with nextEntity := d.nextEntity + 1 } := by
  unfold entity at h
  dsimp only at h
  split at h
  · exact (congrArg Prod.snd h).symm
  · cases congrArg Prod.fst h

/-- In every draft that a run of declarations leaves, the declaration of a relation fails just if
there is a reason to refuse it, and then leaves the draft as it is; one of an entity that fails or
is dropped uses up an identifier and changes nothing else. So the run builds the same without the
relations that it declares in vain. -/
theorem performed_atomic (declarations : List Declaration) :
    performed declarations = ofDeclarations declarations ∧
      (∀ decl, (Drafting.relation decl).exec (performed declarations) =
        Drafting.settle (performed declarations) ((performed declarations).relation decl)) ∧
      (∀ decl e d', (Drafting.relation decl).exec (performed declarations) = (.error e, d') →
        d' = performed declarations ∧ (performed declarations).Refuses decl e) ∧
      (∀ decl e, (performed declarations).Refuses decl e → ∃ e',
        (Drafting.relation decl).exec (performed declarations) =
          (.error e', performed declarations)) ∧
      (∀ name attributes e d', (performed declarations).entity name attributes = (.error e, d') →
        d' = { performed declarations with
          nextEntity := (performed declarations).nextEntity + 1 }) ∧
      (performed declarations).perform .dropped =
        { performed declarations with nextEntity := (performed declarations).nextEntity + 1 } ∧
      performed (withoutFailed empty declarations) = performed declarations ∧
      (performed (withoutFailed empty declarations)).build = (performed declarations).build := by
  have hd := consistent_performed declarations
  have hrun := foldl_perform_withoutFailed empty declarations
  refine ⟨performed_eq declarations, hd.exec_relation, ?_, ?_, fun _ _ _ _ => entity_of_error, rfl,
    hrun, congrArg build hrun⟩
  · intro decl e d' h
    refine ⟨Drafting.relation_atomic decl _ _ _ h, refuses_of_relation hd ?_⟩
    rw [hd.exec_relation] at h
    cases hrelation : (performed declarations).relation decl with
    | error e' =>
      rw [hrelation] at h
      cases h
      rfl
    | ok answer =>
      rw [hrelation] at h
      cases h
  · intro decl e hrefuses
    rw [hd.exec_relation]
    cases hrelation : (performed declarations).relation decl with
    | error e' => exact ⟨e', rfl⟩
    | ok answer => exact absurd hrelation (hrefuses.not_ok answer)

/-- The theorem at nodes of which a second entity is declared in vain, and then a relation by the
name of an attribute. -/
theorem performed_atomic_tree :
    (Drafting.relation (Blog.toOne "Node" "parent_id" "Node" "parent_id" "children")).exec
        (performed (Schema.treeDeclarations.take 3)) =
          (.error (.shadowsAttribute "Node" "parent_id"),
            performed (Schema.treeDeclarations.take 3)) ∧
      (performed (Schema.treeDeclarations.take 3)).Refuses
        (Blog.toOne "Node" "parent_id" "Node" "parent_id" "children")
        (.shadowsAttribute "Node" "parent_id") ∧
      (performed (Schema.treeDeclarations.take 2)).entity "Node" [] =
        (.error (.duplicateEntity "Node"), performed (Schema.treeDeclarations.take 3)) ∧
      (performed (Schema.treeDeclarations.take 3)).nextEntity = 3 ∧
      (withoutFailed empty Schema.treeDeclarations).length = 4 ∧
      (performed (withoutFailed empty Schema.treeDeclarations)).build =
        (performed Schema.treeDeclarations).build := by
  have htree := performed_atomic Schema.treeDeclarations
  have hrelation := (performed_atomic (Schema.treeDeclarations.take 3)).2.2.1
    (Blog.toOne "Node" "parent_id" "Node" "parent_id" "children") _ _ rfl
  have hentity := (performed_atomic (Schema.treeDeclarations.take 2)).2.2.2.2.1 "Node" [] _ _ rfl
  exact ⟨rfl, hrelation.2, rfl, congrArg nextEntity hentity, by decide +kernel, htree.2.2.2.2.2.2.2⟩

end Draft

end FieldLookup
