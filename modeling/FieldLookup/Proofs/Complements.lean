import FieldLookup.Proofs.Comparing

/-!
Comparisons and their complements. Main statements: `Comparison.test_complement`, a complement is
false where the comparison is true and unknown where it is unknown; and
`Compiler.narrow_alike_exclude`, narrowing by one operator fetches what excluding by its complement
does.
-/
namespace FieldLookup

/-! ## Tests and their opposites -/

namespace Comparison

/-- The comparison that holds where another one does not. -/
def complement : Comparison → Comparison
  | eq => ne
  | ne => eq
  | gt => le
  | lt => ge
  | ge => lt
  | le => gt

theorem holds_complement (comparison : Comparison) (o : Ordering) :
    comparison.complement.holds o = !comparison.holds o := by
  cases comparison <;> cases o <;> rfl

/-- Values in no order are unknown to both. -/
theorem test_complement (comparison : Comparison) (actual v : Value) :
    comparison.complement.test actual v = (comparison.test actual v).not := by
  rw [test, test, Truth.not, Option.map_map]
  exact congrArg (Option.map · _) (funext comparison.holds_complement)

end Comparison

namespace Predicate

/-- One predicate has the opposite truth of another, whatever the values of columns. -/
def Opposite (p p' : Predicate) : Prop :=
  ∀ values : Column → Value, p'.truth values = (p.truth values).not

theorem opposite_compare (c : Column) (comparison : Comparison) (v : Value) :
    Opposite (.compare c comparison v) (.compare c comparison.complement v) := by
  intro values
  rw [truth, truth, Comparison.test_complement]

theorem opposite_isNull (c : Column) (expected : Bool) :
    Opposite (.isNull c expected) (.isNull c !expected) := by
  intro values
  rw [truth, truth]
  cases (values c).isNull <;> cases expected <;> rfl

end Predicate

/-! ## Demands -/

namespace Comparison

variable {c : Column} {a : Attribute} {v : Value} {coerce : Bool}

/-- Null is taken by equality and its complement only. -/
theorem demand_null_iff (comparison : Comparison) {p : Predicate} :
    comparison.demand c a .null coerce = .ok p ↔
      ∃ expected, comparison = (if expected then .eq else .ne) ∧ .isNull c expected = p := by
  cases comparison <;> simp [demand, Value.isNull, Operator.taken, Except.map]

/-- A comparison and its complement refuse the same values, for the same reasons, and make opposite
predicates of all others. -/
theorem demand_complement (comparison : Comparison) (c : Column) (a : Attribute) (v : Value)
    (coerce : Bool) :
    (∃ e, comparison.demand c a v coerce = .error e ∧
        comparison.complement.demand c a v coerce = .error e) ∨
      ∃ p p', comparison.demand c a v coerce = .ok p ∧
        comparison.complement.demand c a v coerce = .ok p' ∧ p.Opposite p' ∧
          PatternTable.patternsOf [p] = [] ∧ PatternTable.patternsOf [p'] = [] := by
  cases hv : v.isNull with
  | true =>
    obtain rfl := Value.isNull_iff.mp hv
    cases comparison with
    | eq => exact .inr ⟨_, _, rfl, rfl, Predicate.opposite_isNull c true, rfl, rfl⟩
    | ne => exact .inr ⟨_, _, rfl, rfl, Predicate.opposite_isNull c false, rfl, rfl⟩
    | gt | lt | ge | le => exact .inl ⟨_, rfl, rfl⟩
  | false =>
    rw [demand_of_not_null hv, demand_of_not_null hv]
    cases Operator.taken a v coerce with
    | error e => exact .inl ⟨e, rfl, rfl⟩
    | ok w => exact .inr ⟨_, _, rfl, rfl, Predicate.opposite_compare c comparison w, rfl, rfl⟩

end Comparison

/-! ## Calls -/

namespace Compiler

variable {c : Compiler} {root : EntityId} {q : Query} {key : String} {r : Resolved}

/-- Narrowing by a predicate selects what excluding by its opposite does. -/
theorem fetchAlike_of_opposite (hs : c.schema.Declared) (hq : q.Sound c.schema)
    {lookups lookups' : Lookups} {joins : List Join} {p p' : Predicate}
    (h : c.narrow q lookups = .ok (q.withTest joins p))
    (h' : c.exclude q lookups' = .ok (q.withTest joins (.not p'))) (hopposite : p.Opposite p')
    (hp : PatternTable.patternsOf [p] = []) (hp' : PatternTable.patternsOf [p'] = []) :
    Query.FetchAlike c.schema (c.narrow q lookups) (c.exclude q lookups') := by
  have hsound := (restrict_sound hs hq h).1
  have hsound' := (restrict_sound hs hq h').1
  refine Query.fetchAlike_of_ok h h' fun store hf => ?_
  refine Query.fetch_withTest_congr hf.coherent hsound' hsound hp' hp fun a _ _ => ?_
  rw [Predicate.truth, hopposite a.value, Truth.not_not]

/-- Narrowing by an operator and excluding by the one of the complementary comparison succeed for
the same values, and fetch the same rows in the same order; so do asking for rows that show null
and excluding those that do not. Equality with null and its complement ask for null too, and no
other comparison takes null. -/
theorem narrow_alike_exclude (hs : c.schema.Declared) (hq : Query.Composed c.schema root q)
    (hr : c.resolve root key = .ok r) (hnone : r.operator = none) :
    (∀ op op' comparison key₁ key₂ v, Operator.comparison? op = some comparison →
        Operator.comparison? op' = some comparison.complement → c.WithOperator key op key₁ →
        c.WithOperator key op' key₂ →
          Query.FetchAlike c.schema (c.narrow q (Ordered.empty.insert key₁ v))
            (c.exclude q (Ordered.empty.insert key₂ v))) ∧
      (∀ key₁ key₂ expected, c.WithOperator key .isNull key₁ → c.WithOperator key .isNull key₂ →
        Query.FetchAlike c.schema (c.narrow q (Ordered.empty.insert key₁ (.bool expected)))
          (c.exclude q (Ordered.empty.insert key₂ (.bool !expected)))) ∧
      ∀ op comparison key₁ q', Operator.comparison? op = some comparison →
        c.WithOperator key op key₁ →
          (c.narrow q (Ordered.empty.insert key₁ .null) = .ok q' ↔
            ∃ expected, comparison = (if expected then .eq else .ne) ∧
              q.withTest r.joins (.isNull r.column expected) = q') := by
  obtain ⟨hsound, rfl⟩ := hq.sound hs
  refine ⟨?_, ?_, ?_⟩
  · intro op op' comparison key₁ key₂ v hop hop' hkey₁ hkey₂
    have hnarrow := restrict_eq_demand (q := q) (v := v) (hkey₁.resolve hr hnone) hop false .typed
    have hexclude := restrict_eq_demand (q := q) (v := v) (hkey₂.resolve hr hnone) hop' true .typed
    rcases comparison.demand_complement r.column r.field v c.settings.coerce with
      ⟨e, he, he'⟩ | ⟨p, p', hp, hp', hopposite, hread, hread'⟩
    · exact Query.fetchAlike_of_error (hnarrow.trans (by rw [ValueOrigin.supply, he]; rfl))
        (hexclude.trans (by rw [ValueOrigin.supply, he']; rfl))
    · exact fetchAlike_of_opposite hs hsound
        (hnarrow.trans (by rw [ValueOrigin.supply, hp]; rfl))
        (hexclude.trans (by rw [ValueOrigin.supply, hp']; rfl)) hopposite hread hread'
  · intro key₁ key₂ expected hkey₁ hkey₂
    have hnarrow : c.narrow q (Ordered.empty.insert key₁ (.bool expected)) =
        .ok (q.withTest r.joins (.isNull r.column expected)) :=
      (restrict_eq_ok_iff (hkey₁.resolve hr hnone)).mpr ⟨_, Operator.build_isNull_bool, rfl⟩
    have hexclude : c.exclude q (Ordered.empty.insert key₂ (.bool !expected)) =
        .ok (q.withTest r.joins (.not (.isNull r.column !expected))) :=
      (restrict_eq_ok_iff (hkey₂.resolve hr hnone)).mpr ⟨_, Operator.build_isNull_bool, rfl⟩
    exact fetchAlike_of_opposite hs hsound hnarrow hexclude
      (Predicate.opposite_isNull r.column expected) rfl rfl
  · intro op comparison key₁ q' hop hkey₁
    rw [narrow, restrict_eq_demand (hkey₁.resolve hr hnone) hop, Checked.mapError_eq_ok_iff,
      Checked.map_eq_ok_iff]
    simp only [ValueOrigin.supply, Comparison.demand_null_iff]
    constructor
    · rintro ⟨_, ⟨expected, hexpected, rfl⟩, hq'⟩
      exact ⟨expected, hexpected, hq'⟩
    · rintro ⟨expected, hexpected, hq'⟩
      exact ⟨_, ⟨expected, hexpected, rfl⟩, hq'⟩

/-- The ratings of an author's posts. -/
def ratingsOfPosts : Resolved :=
  ⟨[⟨[⟨5⟩], ⟨5⟩, "posts", ⟨2⟩⟩], ⟨[⟨5⟩], ⟨2⟩, "rating"⟩, Blog.optional "rating" .float, none⟩

/-- The theorem at authors with a post that is rated at least four. The second author has one that
is rated less and one that is not rated. -/
theorem narrow_alike_exclude_rated :
    Blog.built.Declared ∧ Query.Composed Blog.built ⟨0⟩ (.ofRoot ⟨0⟩) ∧
      (ofSchema Blog.built).resolve ⟨0⟩ "posts__rating" = .ok ratingsOfPosts ∧
      Operator.gte.comparison? = some .ge ∧ Operator.lt.comparison? = some .lt ∧
      (ofSchema Blog.built).WithOperator "posts__rating" .gte "posts__rating__gte" ∧
      (ofSchema Blog.built).WithOperator "posts__rating" .lt "posts__rating__lt" ∧
      authorsOf ((ofSchema Blog.built).narrow (.ofRoot ⟨0⟩)
        (Ordered.empty.insert "posts__rating__gte" (.text "4"))) = some [⟨1⟩] ∧
      Query.FetchAlike Blog.built
        ((ofSchema Blog.built).narrow (.ofRoot ⟨0⟩)
          (Ordered.empty.insert "posts__rating__gte" (.text "4")))
        ((ofSchema Blog.built).exclude (.ofRoot ⟨0⟩)
          (Ordered.empty.insert "posts__rating__lt" (.text "4"))) := by
  have htokens : Text.split "__" "posts__rating" = ["posts"] ++ ["rating"] := by cbv
  have hcolumn : Blog.built.NamesColumn ⟨2⟩ "rating" (Blog.optional "rating" .float) :=
    ⟨by decide, rfl, rfl⟩
  have hr : (ofSchema Blog.built).resolve ⟨0⟩ "posts__rating" = .ok ratingsOfPosts :=
    resolve_of_leads (c := ofSchema Blog.built) htokens leads_posts hcolumn
  have hgte : (ofSchema Blog.built).WithOperator "posts__rating" .gte "posts__rating__gte" :=
    withOperator_standard _ (by cbv)
  have hlt : (ofSchema Blog.built).WithOperator "posts__rating" .lt "posts__rating__lt" :=
    withOperator_standard _ (by cbv)
  exact ⟨Blog.declared_built, .ofRoot, hr, rfl, rfl, hgte, hlt, by decide +kernel,
    (narrow_alike_exclude (c := ofSchema Blog.built) Blog.declared_built .ofRoot hr rfl).1
      .gte .lt .ge _ _ (.text "4") rfl rfl hgte hlt⟩

end Compiler

end FieldLookup
