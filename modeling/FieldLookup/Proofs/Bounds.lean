import FieldLookup.Proofs.Batching
import FieldLookup.Proofs.Comparing

/-!
Ranges and their bounds. Main statements: `betweenTest_eq_true_iff`, a value is known to be in a
range just if it is known to reach the lower bound and not to exceed the upper one; and
`Compiler.range_alike_bounds`, one lookup for a range fetches what two lookups for its bounds do.
-/
namespace FieldLookup

/-! ## Tests -/

theorem betweenTest_eq_true_iff {actual low high : Value} :
    betweenTest actual low high = some true ↔
      Comparison.ge.test actual low = some true ∧ Comparison.le.test actual high = some true := by
  unfold betweenTest Comparison.test Comparison.holds
  cases actual.compare? low <;> cases actual.compare? high <;> simp

/-- Joins that were added bring nothing when they are added again. -/
theorem Join.addAllNew_again (joins more : List Join) :
    addAllNew (addAllNew joins more) more = addAllNew joins more := by
  have hpresent (last : List Join) (h : ∀ j ∈ last, j.path ∈ (addAllNew joins more).map (·.path)) :
      addAllNew (addAllNew joins more) last = addAllNew joins more := by
    induction last with
    | nil => rfl
    | cons j last ih =>
      obtain ⟨hj, hlast⟩ := List.forall_mem_cons.mp h
      change addAllNew (addNew _ j) last = _
      rw [addNew_of_mem hj, ih hlast]
  exact hpresent more fun j hj => mem_map_path_addAllNew.mpr (Or.inr (List.mem_map_of_mem hj))

namespace Query

variable {schema : Schema} {store : Store} {q : Query} {joins : List Join} {c : Column}
  {low high : Value}

/-- Two tests of columns that the same joins lead to. -/
theorem withTest_withTest (q : Query) (joins : List Join) (p p' : Predicate) :
    (q.withTest joins p).withTest joins p' =
      { q.withTest joins p with predicates := q.predicates ++ [p, p'] } := by
  unfold withTest
  dsimp only
  rw [Join.addAllNew_again, List.append_assoc, List.singleton_append]

/-- A range selects what its bounds select together. -/
theorem fetch_withTest_between (hstore : store.Coherent)
    (hq : (q.withTest joins (.between c low high)).Sound schema)
    (hq' : ((q.withTest joins (.compare c .ge low)).withTest joins (.compare c .le high)).Sound
      schema) :
    (q.withTest joins (.between c low high)).fetch schema store =
      ((q.withTest joins (.compare c .ge low)).withTest joins (.compare c .le high)).fetch schema
        store := by
  rw [withTest_withTest] at hq' ⊢
  refine (fetch_congr (q := q.withTest joins (.between c low high)) hstore hq hq' ?_ ?_).symm
  · change PatternTable.patternsOf (q.predicates ++ _) = PatternTable.patternsOf (q.predicates ++ _)
    rw [PatternTable.patternsOf_append, PatternTable.patternsOf_append]
    rfl
  · intro a _
    have htruth : ((q.withTest joins (.compare c .ge low)).withTest joins
        (.compare c .le high)).truth a = some true ↔
          (q.withTest joins (.between c low high)).truth a = some true := by
      rw [truth_withTest_iff, truth_withTest_iff, truth_withTest_iff, and_assoc]
      exact and_congr_right fun _ => betweenTest_eq_true_iff.symm
    rwa [withTest_withTest] at htruth

end Query

namespace Operator

variable {c : Column} {a : Attribute} {low high : Value} {coerce : Bool} {p : Predicate}

/-- A range takes both bounds as a comparison by order takes one. -/
theorem build_range_iff :
    range.build c a (.list [low, high]) coerce = .ok p ↔
      ∃ w w', taken a low coerce = .ok w ∧ taken a high coerce = .ok w' ∧ .between c w w' = p := by
  rw [build, ensureColumn_eq_ok rfl rfl, Checked.ok_bind]
  simp only [betweenWith, bound_eq_taken, Checked.bind_eq_ok_iff, Checked.mapError_eq_ok_iff]
  constructor
  · rintro ⟨w, hw, w', hw', hp⟩
    exact ⟨w, w', hw, hw', Except.ok.inj hp⟩
  · rintro ⟨w, w', hw, hw', rfl⟩
    exact ⟨w, hw, w', hw', rfl⟩

end Operator

namespace Compiler

variable {c : Compiler} {root : EntityId} {q q' : Query} {key ordered within lower upper : String}
  {r : Resolved} {v low high : Value}

/-- A call with one lookup that compares by order. -/
theorem narrow_ordered_iff {op : Operator} {comparison : Comparison}
    (hr : c.resolve q.root key = .ok r) (hnone : r.operator = none)
    (hkey : c.WithOperator key op ordered) (hop : op.comparison? = some comparison)
    (heq : comparison ≠ .eq) (hne : comparison ≠ .ne) :
    c.narrow q (Ordered.empty.insert ordered v) = .ok q' ↔
      ∃ w, Operator.taken r.field v c.settings.coerce = .ok w ∧
        q.withTest r.joins (.compare r.column comparison w) = q' := by
  rw [narrow, restrict_eq_demand (hkey.resolve hr hnone) hop, Comparison.demand_of_order heq hne,
    Checked.mapError_eq_ok_iff, Checked.map_eq_ok_iff]
  simp only [Checked.map_eq_ok_iff, ValueOrigin.supply]
  constructor
  · rintro ⟨_, ⟨w, hw, rfl⟩, hq'⟩
    exact ⟨w, hw, hq'⟩
  · rintro ⟨w, hw, hq'⟩
    exact ⟨_, ⟨w, hw, rfl⟩, hq'⟩

/-- A call with one lookup for a range. -/
theorem narrow_range_iff (hr : c.resolve q.root key = .ok r) (hnone : r.operator = none)
    (hwithin : c.WithOperator key .range within) :
    c.narrow q (Ordered.empty.insert within (.list [low, high])) = .ok q' ↔
      ∃ w w', Operator.taken r.field low c.settings.coerce = .ok w ∧
        Operator.taken r.field high c.settings.coerce = .ok w' ∧
          q.withTest r.joins (.between r.column w w') = q' := by
  rw [narrow, restrict_eq_ok_iff (hwithin.resolve hr hnone)]
  simp only [Option.getD_some, Operator.build_range_iff]
  constructor
  · rintro ⟨_, ⟨w, w', hw, hw', rfl⟩, hq'⟩
    exact ⟨w, w', hw, hw', hq'⟩
  · rintro ⟨w, w', hw, hw', hq'⟩
    exact ⟨_, ⟨w, w', hw, hw', rfl⟩, hq'⟩

/-- A call with two lookups for the bounds of a range is two calls, of which the second finds the
joins of the first. -/
theorem narrow_bounds_iff (hr : c.resolve q.root key = .ok r) (hnone : r.operator = none)
    (hlower : c.WithOperator key .gte lower) (hupper : c.WithOperator key .lte upper) :
    c.narrow q ((Ordered.empty.insert lower low).insert upper high) = .ok q' ↔
      ∃ w w', Operator.taken r.field low c.settings.coerce = .ok w ∧
        Operator.taken r.field high c.settings.coerce = .ok w' ∧
          (q.withTest r.joins (.compare r.column .ge w)).withTest r.joins
            (.compare r.column .le w') = q' := by
  have hkeys : ∀ k ∈ (Ordered.empty.insert lower low).keys,
      k ∉ (Ordered.empty.insert upper high).keys := by
    intro k hk hk'
    rw [List.mem_singleton.mp hk] at hk'
    exact hlower.ne hupper nofun (List.mem_singleton.mp hk')
  have hcalls := c.restrict_append q hkeys false .typed
  change c.narrow q ((Ordered.empty.insert lower low).insert upper high) = _ at hcalls
  rw [hcalls, Checked.bind_eq_ok_iff]
  have hr₁ (w : Value) :
      c.resolve (q.withTest r.joins (.compare r.column .ge w)).root key = .ok r := hr
  constructor
  · rintro ⟨q₁, hq₁, hq'⟩
    obtain ⟨w, hw, rfl⟩ := (narrow_ordered_iff hr hnone hlower rfl nofun nofun).mp hq₁
    obtain ⟨w', hw', rfl⟩ := (narrow_ordered_iff (hr₁ w) hnone hupper rfl nofun nofun).mp hq'
    exact ⟨w, w', hw, hw', rfl⟩
  · rintro ⟨w, w', hw, hw', hq'⟩
    exact ⟨_, (narrow_ordered_iff hr hnone hlower rfl nofun nofun).mpr ⟨w, hw, rfl⟩,
      (narrow_ordered_iff (hr₁ w) hnone hupper rfl nofun nofun).mpr ⟨w', hw', hq'⟩⟩

/-- One lookup for a range and two lookups for its bounds succeed for the same values, and fetch the
same rows in the same order: those that some assignment shows to be in the range, not rows that one
assignment shows to reach the lower bound and another one not to exceed the upper. -/
theorem range_alike_bounds (hs : c.schema.Declared) (hq : Query.Composed c.schema root q)
    (hr : c.resolve root key = .ok r) (hnone : r.operator = none)
    (hwithin : c.WithOperator key .range within) (hlower : c.WithOperator key .gte lower)
    (hupper : c.WithOperator key .lte upper) (low high : Value) :
    Query.FetchAlike c.schema (c.narrow q (Ordered.empty.insert within (.list [low, high])))
      (c.narrow q ((Ordered.empty.insert lower low).insert upper high)) := by
  obtain ⟨hsound, rfl⟩ := hq.sound hs
  refine ⟨?_, fun store hf q₁ q₂ h₁ h₂ => ?_⟩
  · simp only [narrow_range_iff hr hnone hwithin, narrow_bounds_iff hr hnone hlower hupper]
    constructor
    · rintro ⟨_, w, w', hw, hw', -⟩
      exact ⟨_, w, w', hw, hw', rfl⟩
    · rintro ⟨_, w, w', hw, hw', -⟩
      exact ⟨_, w, w', hw, hw', rfl⟩
  · have hsound₁ := (restrict_sound hs hsound h₁).1
    have hsound₂ := (restrict_sound hs hsound h₂).1
    obtain ⟨w, w', hw, hw', rfl⟩ := (narrow_range_iff hr hnone hwithin).mp h₁
    obtain ⟨_, _, hlow, hhigh, rfl⟩ := (narrow_bounds_iff hr hnone hlower hupper).mp h₂
    obtain rfl := Except.ok.inj (hw.symm.trans hlow)
    obtain rfl := Except.ok.inj (hw'.symm.trans hhigh)
    exact Query.fetch_withTest_between hf.coherent hsound₁ hsound₂

/-- The theorem at authors with a post of ten to a hundred views. The first author has one post of
more and another one of less. -/
theorem range_alike_bounds_views :
    Blog.built.Declared ∧ Query.Composed Blog.built ⟨0⟩ (.ofRoot ⟨0⟩) ∧
      (ofSchema Blog.built).resolve ⟨0⟩ "posts__views" = .ok viewsOfPosts ∧
      (ofSchema Blog.built).WithOperator "posts__views" .range "posts__views__range" ∧
      (ofSchema Blog.built).WithOperator "posts__views" .gte "posts__views__gte" ∧
      (ofSchema Blog.built).WithOperator "posts__views" .lte "posts__views__lte" ∧
      authorsOf ((ofSchema Blog.built).narrow (.ofRoot ⟨0⟩)
        (Ordered.empty.insert "posts__views__range" (.list [.int 10, .int 100]))) =
          some [⟨2⟩] ∧
      Query.FetchAlike Blog.built
        ((ofSchema Blog.built).narrow (.ofRoot ⟨0⟩)
          (Ordered.empty.insert "posts__views__range" (.list [.int 10, .int 100])))
        ((ofSchema Blog.built).narrow (.ofRoot ⟨0⟩)
          ((Ordered.empty.insert "posts__views__gte" (.int 10)).insert "posts__views__lte"
            (.int 100))) := by
  have hrange : (ofSchema Blog.built).WithOperator "posts__views" .range "posts__views__range" :=
    withOperator_standard _ (by cbv)
  have hgte : (ofSchema Blog.built).WithOperator "posts__views" .gte "posts__views__gte" :=
    withOperator_standard _ (by cbv)
  have hlte : (ofSchema Blog.built).WithOperator "posts__views" .lte "posts__views__lte" :=
    withOperator_standard _ (by cbv)
  have hnarrow : (ofSchema Blog.built).narrow (.ofRoot ⟨0⟩)
      (Ordered.empty.insert "posts__views__range" (.list [.int 10, .int 100])) =
        .ok (.withTest (.ofRoot ⟨0⟩) viewsOfPosts.joins
          (.between viewsOfPosts.column (.int 10) (.int 100))) :=
    (narrow_range_iff resolve_views rfl hrange).mpr ⟨_, _, rfl, rfl, rfl⟩
  refine ⟨Blog.declared_built, .ofRoot, resolve_views, hrange, hgte, hlte, ?_,
    range_alike_bounds (c := ofSchema Blog.built) Blog.declared_built .ofRoot resolve_views rfl
      hrange hgte hlte (.int 10) (.int 100)⟩
  rw [hnarrow]
  rfl

end Compiler

end FieldLookup
