import FieldLookup.Proofs.Batching

/-!
Lookups taken term by term. Main statements: `Assignment.Follows.eq_of_reach`, assignments from one
row of the root agree where both follow relations that lead to one row at most; and
`Query.fetch_term_by_term`, lookups that share only such relations select together what both select
on their own.
-/
namespace FieldLookup

/-- Each row of the source leads to one row of the target at most. -/
def Relation.IsFunctional (store : Store) (r : Relation) : Prop :=
  ∀ row ∈ store.rowsOf r.source,
    ∀ id ∈ store.rowsWith r.target r.remoteKey (row.value r.localKey),
      ∀ other ∈ store.rowsWith r.target r.remoteKey (row.value r.localKey), id = other

/-- The relation of a join leads to one row at most. -/
def Join.IsFunctional (schema : Schema) (store : Store) (j : Join) : Prop :=
  ∀ r, schema.relation? j.relation = some r → r.IsFunctional store

theorem Join.Linked.reach_parent {schema : Schema} {root : EntityId} {joins : List Join}
    (h : Join.Linked schema root joins) {path : Path} (hreach : Join.Reach joins path) :
    Join.Reach joins path.parent := by
  rcases hreach with rfl | ⟨j, hj, rfl⟩
  · exact Join.reach_root joins
  · exact (h.fits_of_mem hj).parent

/-! ## Assignments that agree -/

namespace Assignment

variable {schema : Schema} {store : Store} {root : EntityId} {joins joins' : List Join}
  {a a' : Assignment}

/-- Assignments from one row of the root agree on each path that both reach, by induction on the
path, if the joins of both lead to one row at most. -/
theorem Follows.eq_of_reach (hstore : store.Coherent) (hl : Join.Linked schema root joins)
    (hl' : Join.Linked schema root joins') (h : a.Follows schema store root joins)
    (h' : a'.Follows schema store root joins') (hroot : a Path.root = a' Path.root)
    (hsingle : ∀ j ∈ joins, Join.Reach joins' j.path → j.IsFunctional schema store) {path : Path}
    (hpath : Join.Reach joins path) (hpath' : Join.Reach joins' path) : a path = a' path := by
  induction path using List.reverseRecOn with
  | nil => exact hroot
  | append_singleton front id ih =>
    obtain ⟨j, hj, heq⟩ := hpath.resolve_left (List.concat_ne_nil id front)
    have hparent : j.path.parent = front := heq ▸ Path.parent_child front id
    rw [← heq] at hpath' ⊢
    have hfits := hl.fits_of_mem hj
    have hfront : a j.path.parent = a' j.path.parent := by
      rw [hparent]
      exact ih (hparent ▸ hfits.parent) (hparent ▸ hl'.reach_parent hpath')
    obtain ⟨r, hr, hmem, hid⟩ := h.joined j hj
    obtain ⟨r', hr', hmem', hid'⟩ := h'.joined_of_reach hl' hfits hpath'
    obtain rfl : r = r' := Option.some.inj (hr.symm.trans hr')
    rw [← hfront] at hid'
    have hsource : a j.path.parent ∈ store.rowsOf r.source := by
      obtain ⟨s, hs, hentity, -⟩ := hfits.relation
      obtain rfl : r = s := Option.some.inj (hr.symm.trans hs)
      rw [h.entityAt?_eq hstore hl hfits.parent] at hentity
      exact hstore.mem_rowsOf.mpr ⟨h.stored hfits.parent, Option.some.inj hentity⟩
    exact hstore.eq_of_id_eq hmem hmem' (hsingle j hj hpath' r hr _ hsource _ hid _ hid')

/-- Assignments that agree where both reach a path are parts of one assignment. -/
theorem exists_both
    (h : ∀ path, Join.Reach joins path → Join.Reach joins' path → a path = a' path) :
    ∃ both : Assignment, (∀ path, Join.Reach joins path → both path = a path) ∧
      ∀ path, Join.Reach joins' path → both path = a' path := by
  classical
  refine ⟨fun path => if Join.Reach joins path then a path else a' path, fun path hp => if_pos hp,
    fun path hp' => ?_⟩
  by_cases hp : Join.Reach joins path
  · exact (if_pos hp).trans (h path hp hp')
  · exact if_neg hp

end Assignment

/-! ## Queries that hold what two others hold -/

namespace Query

/-- A query holds just what two others of its root hold. -/
structure Combines (q' q d : Query) : Prop where
  root_left : q.root = q'.root
  root_right : d.root = q'.root
  holds : ∀ part, q'.Holds part ↔ q.Holds part ∨ d.Holds part

variable {schema : Schema} {store : Store} {root : EntityId} {q q' d : Query}

theorem Combines.readable (h : q'.Combines q d) (hq : ∀ p ∈ q.predicates, p.Readable)
    (hd : ∀ p ∈ d.predicates, p.Readable) : ∀ p ∈ q'.predicates, p.Readable :=
  fun p hp => ((h.holds (.predicate p)).mp hp).elim (hq p) (hd p)

/-- A query that holds what two others hold selects what both select, if the joins that these share
lead to one row at most. -/
theorem Combines.selects_iff (h : q'.Combines q d) (hstore : store.Coherent)
    (hq : q.Sound schema) (hd : d.Sound schema) (hq' : q'.Sound schema)
    (hsingle : ∀ j ∈ q.joins, Join.Reach d.joins j.path → j.IsFunctional schema store) {row : Row} :
    q'.Selects schema store row ↔ q.Selects schema store row ∧ d.Selects schema store row := by
  have hl := hq.linked
  have hl' := hd.linked
  constructor
  · intro hrow
    exact ⟨hrow.of_holds hq hq' h.root_left fun part hp => (h.holds part).mpr (Or.inl hp),
      hrow.of_holds hd hq' h.root_right fun part hp => (h.holds part).mpr (Or.inr hp)⟩
  · rintro ⟨⟨a, ha, rfl, htruth⟩, a', ha', hroot, htruth'⟩
    rw [h.root_left] at hl ha
    rw [h.root_right] at hl' ha'
    obtain ⟨both, heq, heq'⟩ := Assignment.exists_both fun path =>
      ha.eq_of_reach hstore hl hl' ha' hroot.symm hsingle
    have hboth := ha.congr hl heq
    have hboth' := ha'.congr hl' heq'
    refine ⟨both, ⟨hboth.root, fun j hj => ?_⟩, heq _ (Join.reach_root _), ?_⟩
    · have hfits := hq'.linked.fits_of_mem hj
      rcases (h.holds (.path j.path)).mp (Or.inr ⟨j, hj, rfl⟩) with hreach | hreach
      · exact hboth.joined_of_reach hl hfits hreach
      · exact hboth'.joined_of_reach hl' hfits hreach
    · refine truth_eq_true_iff.mpr fun p hp => ?_
      rcases (h.holds (.predicate p)).mp hp with hp | hp
      · exact truth_eq_true_iff.mp ((hq.truth_congr heq).trans htruth) p hp
      · exact truth_eq_true_iff.mp ((hd.truth_congr heq').trans htruth') p hp

end Query

/-! ## Calls with the lookups of two others -/

theorem Compiler.order_eq_of_restrict {c : Compiler} {q q' : Query} {lookups : Lookups}
    {negate : Bool} {source : ValueOrigin} (h : c.restrict q lookups negate source = .ok q') :
    q'.order = q.order := by
  obtain ⟨conditions, -, rfl⟩ := restrict_eq_ok h
  rfl

namespace Call

variable {c : Compiler} {q q₁ q₂ : Query} {call : Lookups → Call} {a b : Lookups}

/-- Lookups of two calls that succeed may be given to one call, which holds what both hold. -/
theorem run_append_combines (hcall : call = narrow ∨ call = exclude)
    (h : ∀ key ∈ a.keys, key ∉ b.keys) (h₁ : (call a).run c q = .ok q₁)
    (h₂ : (call b).run c q = .ok q₂) :
    ∃ q', (call (a.append b)).run c q = .ok q' ∧ q'.Combines q₁ q₂ ∧ q'.order = q.order := by
  obtain ⟨negate, hrun⟩ : ∃ negate, ∀ (q : Query) (lookups : Lookups),
      (call lookups).run c q = c.restrict q lookups negate .typed := by
    rcases hcall with rfl | rfl
    · exact ⟨false, fun _ _ => rfl⟩
    · exact ⟨true, fun _ _ => rfl⟩
  rw [hrun, Compiler.restrict_eq_plus] at h₁ h₂
  obtain ⟨d₁, hd₁, rfl⟩ := Checked.map_eq_ok_iff.mp h₁
  obtain ⟨d₂, hd₂, rfl⟩ := Checked.map_eq_ok_iff.mp h₂
  refine ⟨(q.plus d₁).plus d₂, ?_, ⟨rfl, rfl, fun part => ?_⟩, ?_⟩
  · rw [hrun, c.restrict_append q h, c.restrict_eq_plus q, hd₁, Except.map, Checked.ok_bind,
      Compiler.restrict_eq_plus]
    exact congrArg (Except.map _) hd₂
  · simp only [Query.holds_plus]
    tauto
  · have horder₁ : d₁.order = [] := Compiler.order_eq_of_restrict hd₁
    have horder₂ : d₂.order = [] := Compiler.order_eq_of_restrict hd₂
    simp [Query.plus, horder₁, horder₂]

end Call

namespace Query

variable {schema : Schema} {store : Store} {root : EntityId} {q q₁ q₂ : Query} {c : Compiler}
  {call : Lookups → Call} {a b : Lookups}

/-- Lookups that narrow or exclude in one call select just the rows that the lookups of either part
select on their own, in the order of their insertion, if the two parts have no common key and the
relations that both of them join lead to one row at most. -/
theorem fetch_term_by_term (hs : schema.Declared) (hf : store.Filled) (hq : Composed schema root q)
    (horder : q.order = []) (hlimit : q.limit = none) (hoffset : q.offset = none)
    (hc : c.schema = schema) (hcall : call = .narrow ∨ call = .exclude)
    (hkeys : ∀ key ∈ a.keys, key ∉ b.keys) (h₁ : (call a).run c q = .ok q₁)
    (h₂ : (call b).run c q = .ok q₂) (hp₁ : ∀ p ∈ q₁.predicates, p.Readable)
    (hp₂ : ∀ p ∈ q₂.predicates, p.Readable)
    (hsingle : ∀ j ∈ q₁.joins, Join.Reach q₂.joins j.path → j.IsFunctional schema store) :
    ∃ q' rows rows₁ rows₂, (call (a.append b)).run c q = .ok q' ∧
      q'.fetch schema store = .ok rows ∧ q₁.fetch schema store = .ok rows₁ ∧
        q₂.fetch schema store = .ok rows₂ ∧ rows.Sublist store.rows ∧ rows.Nodup ∧
          ∀ row, row ∈ rows ↔ row ∈ rows₁ ∧ row ∈ rows₂ := by
  have hstore := hf.coherent
  obtain ⟨q', h', hcombines, horder'⟩ := Call.run_append_combines hcall hkeys h₁ h₂
  have hadds (lookups : Lookups) : (call lookups).isSlice = false := by
    rcases hcall with rfl | rfl <;> rfl
  have hrefines {lookups : Lookups} {q' : Query} (h : (call lookups).run c q = .ok q') :=
    Compiler.run_refines (hadds lookups) h
  have hsound {lookups : Lookups} {q' : Query} (h : (call lookups).run c q = .ok q') :
      q'.Sound schema := ((Composed.call c _ hc hq h).sound hs).1
  have hfetch {lookups : Lookups} {q' : Query} (h : (call lookups).run c q = .ok q')
      (hp : ∀ p ∈ q'.predicates, p.Readable) :
      ∃ rows, q'.fetch schema store = .ok rows ∧ rows.Nodup ∧
        ∀ row, row ∈ rows ↔ q'.Selects schema store row := by
    have horder : q'.order = [] := by
      rcases hcall with rfl | rfl <;>
        obtain ⟨conditions, -, rfl⟩ := Compiler.restrict_eq_ok h <;>
          exact horder
    obtain ⟨rows, hrows⟩ := (sortable_of_nil horder).exists_fetch hstore (hsound h) hp
    exact ⟨rows, hrows, mem_fetch_iff hstore (hsound h) ((hrefines h).limit.trans hlimit)
      ((hrefines h).offset.trans hoffset) hrows⟩
  obtain ⟨rows, hrows, hnodup, hmem⟩ := hfetch h' (hcombines.readable hp₁ hp₂)
  obtain ⟨rows₁, hrows₁, -, hmem₁⟩ := hfetch h₁ hp₁
  obtain ⟨rows₂, hrows₂, -, hmem₂⟩ := hfetch h₂ hp₂
  refine ⟨q', rows, rows₁, rows₂, h', hrows, hrows₁, hrows₂, ?_, hnodup, fun row => ?_⟩
  · exact sublist_of_fetch hstore (hsound h') (horder'.trans horder)
      ((hrefines h').limit.trans hlimit) ((hrefines h').offset.trans hoffset) hrows
  · rw [hmem, hmem₁, hmem₂]
    exact hcombines.selects_iff hstore (hsound h₁) (hsound h₂) (hsound h') hsingle

end Query

namespace Blog

def essayLookups : Lookups := Ordered.ofList [("blog__name", .text "Essays")]

def ownerLookups : Lookups := Ordered.ofList [("blog__owner__name", .text "zoe")]

/-- Posts of blogs under another name. -/
def outsideEssays : Query :=
  { Query.ofRoot ⟨2⟩ with
    joins := [⟨[⟨2⟩], ⟨2⟩, "blog", ⟨1⟩⟩]
    predicates := [.not (.compare ⟨[⟨2⟩], ⟨1⟩, "name"⟩ .eq (.text "Essays"))] }

/-- Posts of blogs that have an owner, of another name. -/
def owned : Query :=
  { Query.ofRoot ⟨2⟩ with
    joins := [⟨[⟨2⟩], ⟨2⟩, "blog", ⟨1⟩⟩, ⟨[⟨2⟩, ⟨0⟩], ⟨0⟩, "owner", ⟨0⟩⟩]
    predicates := [.not (.compare ⟨[⟨2⟩, ⟨0⟩], ⟨0⟩, "name"⟩ .eq (.text "zoe"))] }

def ownedOutsideEssays : Query :=
  { owned with predicates := outsideEssays.predicates ++ owned.predicates }

theorem functional_blog : ∀ j ∈ outsideEssays.joins, j.IsFunctional built (fill built) := by
  intro j hj r hr
  rw [List.mem_singleton.mp hj] at hr
  have hblog : built.relation? ⟨2⟩ =
      some ⟨⟨2⟩, "blog", ⟨2⟩, ⟨1⟩, .toOne, "blog_id", "id"⟩ := rfl
  obtain rfl := Option.some.inj (hblog.symm.trans hr)
  unfold Relation.IsFunctional
  decide

end Blog

/-- The theorem at posts that two calls exclude through their blogs, of which one has no owner. -/
theorem Query.fetch_term_by_term_owned :
    Blog.built.Declared ∧ (Blog.fill Blog.built).Filled ∧
      Composed Blog.built ⟨2⟩ (ofRoot ⟨2⟩) ∧
        (∀ key ∈ Blog.essayLookups.keys, key ∉ Blog.ownerLookups.keys) ∧
        Call.run (Compiler.ofSchema Blog.built) (ofRoot ⟨2⟩) (.exclude Blog.essayLookups) =
          .ok Blog.outsideEssays ∧
        Call.run (Compiler.ofSchema Blog.built) (ofRoot ⟨2⟩) (.exclude Blog.ownerLookups) =
          .ok Blog.owned ∧
        Blog.ownedOutsideEssays.fetch Blog.built (Blog.fill Blog.built) =
          .ok (((Blog.fill Blog.built).rows.drop 5).take 2) ∧
        ∃ rows₁ rows₂, Blog.outsideEssays.fetch Blog.built (Blog.fill Blog.built) = .ok rows₁ ∧
          Blog.owned.fetch Blog.built (Blog.fill Blog.built) = .ok rows₂ ∧
            ∀ row, row ∈ ((Blog.fill Blog.built).rows.drop 5).take 2 ↔
              row ∈ rows₁ ∧ row ∈ rows₂ := by
  have hkeys : ∀ key ∈ Blog.essayLookups.keys, key ∉ Blog.ownerLookups.keys := by decide
  have h₁ : Call.run (Compiler.ofSchema Blog.built) (ofRoot ⟨2⟩) (.exclude Blog.essayLookups) =
      .ok Blog.outsideEssays := by cbv
  have h₂ : Call.run (Compiler.ofSchema Blog.built) (ofRoot ⟨2⟩) (.exclude Blog.ownerLookups) =
      .ok Blog.owned := by cbv
  have h' : Call.run (Compiler.ofSchema Blog.built) (ofRoot ⟨2⟩)
      (.exclude (Blog.essayLookups.append Blog.ownerLookups)) = .ok Blog.ownedOutsideEssays := by
    cbv
  have hfetch : Blog.ownedOutsideEssays.fetch Blog.built (Blog.fill Blog.built) =
      .ok (((Blog.fill Blog.built).rows.drop 5).take 2) := rfl
  have hp₁ : ∀ p ∈ Blog.outsideEssays.predicates, p.Readable := by
    refine readable_iff.mp fun p h => ?_
    cases h
    exact ⟨_, rfl⟩
  have hp₂ : ∀ p ∈ Blog.owned.predicates, p.Readable := by
    refine readable_iff.mp fun p h => ?_
    cases h
    exact ⟨_, rfl⟩
  obtain ⟨q', rows, rows₁, rows₂, hrun, hrows, hrows₁, hrows₂, -, -, hmem⟩ :=
    fetch_term_by_term Blog.declared_built (Blog.filled_fill Blog.built) .ofRoot rfl rfl rfl rfl
      (Or.inr rfl) hkeys h₁ h₂ hp₁ hp₂ fun j hj _ => Blog.functional_blog j hj
  obtain rfl := Except.ok.inj (hrun.symm.trans h')
  obtain rfl := Except.ok.inj (hrows.symm.trans hfetch)
  exact ⟨Blog.declared_built, Blog.filled_fill Blog.built, .ofRoot, hkeys, h₁, h₂, hfetch, rows₁,
    rows₂, hrows₁, hrows₂, hmem⟩

end FieldLookup
