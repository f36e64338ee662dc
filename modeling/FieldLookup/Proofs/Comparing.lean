import FieldLookup.Proofs.SingleLookup

/-!
Lookups that compare a column with one value. Main statements: `Operator.build_eq_demand`, what an
operator builds and why it refuses a value depends on its comparison only; and
`Compiler.exact_is_equality`, a key without an operator asks for what it asks for with `eq` or with
`exact` behind it.
-/
namespace FieldLookup

/-! ## What a comparison demands -/

namespace Operator

/-- The refusal of a value by an operator, with what would have been taken. -/
def refusal (op : Operator) (reason : Expected × Value) : LookupError :=
  .invalidValue op.token reason.1 reason.2

/-- What a value is taken for as a bound, or why it is refused. -/
def taken (a : Attribute) (v : Value) (coerce : Bool) : Except (Expected × Value) Value :=
  if v.isNull then .error (.nonNull, v)
  else if v.isList then .error (.single, v)
  else if coerce then
    match convertFor? a v with
    | some w => .ok w
    | none => .error (.ofType a.type, v)
  else .ok v

theorem bound_eq_taken (op : Operator) (a : Attribute) (v : Value) (coerce : Bool) :
    op.bound a v coerce = (taken a v coerce).mapError op.refusal := by
  unfold bound scalar taken
  split
  · rfl
  · split
    · rfl
    · split
      · cases convertFor? a v <;> rfl
      · rfl

end Operator

/-- The predicate of a comparison with a value, or why there is none. Equality with null asks
whether the column is null. -/
def Comparison.demand (comparison : Comparison) (c : Column) (a : Attribute) (v : Value)
    (coerce : Bool) : Except (Expected × Value) Predicate :=
  if v.isNull ∧ comparison = .eq then .ok (.isNull c true)
  else if v.isNull ∧ comparison = .ne then .ok (.isNull c false)
  else (Operator.taken a v coerce).map (.compare c comparison)

/-- A comparison by order refuses null. -/
theorem Comparison.demand_of_order {comparison : Comparison} (heq : comparison ≠ .eq)
    (hne : comparison ≠ .ne) (c : Column) (a : Attribute) (v : Value) (coerce : Bool) :
    comparison.demand c a v coerce = (Operator.taken a v coerce).map (.compare c comparison) := by
  rw [demand, if_neg (not_and_of_not_right _ heq), if_neg (not_and_of_not_right _ hne)]

theorem Comparison.demand_of_not_null {v : Value} (hv : v.isNull = false) (comparison : Comparison)
    (c : Column) (a : Attribute) (coerce : Bool) :
    comparison.demand c a v coerce = (Operator.taken a v coerce).map (.compare c comparison) := by
  rw [demand, hv, if_neg (by simp), if_neg (by simp)]

namespace Operator

variable {op : Operator} {comparison : Comparison} {c : Column} {a : Attribute} {v : Value}
  {coerce : Bool}

theorem compareWith_eq_taken (op : Operator) (comparison : Comparison) (c : Column) (a : Attribute)
    (v : Value) (coerce : Bool) :
    op.compareWith comparison c a v coerce =
      ((taken a v coerce).map (.compare c comparison)).mapError op.refusal := by
  rw [compareWith, bound_eq_taken]
  cases taken a v coerce <;> rfl

/-- Operators of one comparison build the same predicate, or refuse the same value for the same
reason. -/
theorem build_eq_demand (hop : op.comparison? = some comparison) :
    op.build c a v coerce = (comparison.demand c a v coerce).mapError op.refusal := by
  cases op with
  | eq | exact | ne =>
    cases hop
    rw [build, ensureColumn_eq_ok rfl rfl, Checked.ok_bind, Comparison.demand]
    by_cases hv : v.isNull = true
    · simp only [hv, if_true, true_and, reduceCtorEq, if_false]
      rfl
    · rw [if_neg hv, if_neg (not_and_of_not_left _ hv), if_neg (not_and_of_not_left _ hv)]
      exact compareWith_eq_taken _ _ c a v coerce
  | gt | lt | gte | lte =>
    cases hop
    rw [build, ensureColumn_eq_ok rfl rfl, Checked.ok_bind,
      Comparison.demand_of_order (by simp) (by simp)]
    exact compareWith_eq_taken _ _ c a v coerce
  | _ => cases hop

end Operator

/-! ## Texts of requests -/

mutual

/-- How a text of a request is read depends on whether the operator matches texts or asks for null.
-/
theorem convertRaw_congr {op op' : Operator} (htextual : op.isTextual = op'.isTextual)
    (hnull : op = .isNull ↔ op' = .isNull) (type : ScalarType) (v : Value) :
    convertRaw op type v = convertRaw op' type v := by
  cases v with
  | list items => rw [convertRaw, convertRaw, convertRawItems_congr htextual hnull type items]
  | text s =>
    rw [convertRaw, convertRaw]
    simp only [convertText, htextual, hnull]
  | null | bool _ | int _ | float _ | timestamp _ | date _ => rw [convertRaw, convertRaw] <;> nofun

theorem convertRawItems_congr {op op' : Operator} (htextual : op.isTextual = op'.isTextual)
    (hnull : op = .isNull ↔ op' = .isNull) (type : ScalarType) (items : List Value) :
    convertRawItems op type items = convertRawItems op' type items := by
  cases items with
  | nil => rfl
  | cons v rest =>
    rw [convertRawItems, convertRawItems, convertRaw_congr htextual hnull type v,
      convertRawItems_congr htextual hnull type rest]

end

/-- A value as an operator gets it. -/
def ValueOrigin.supply (source : ValueOrigin) (op : Operator) (type : ScalarType) (v : Value) :
    Value :=
  match source with
  | .typed => v
  | .request => convertRaw op type v

/-- All operators that compare get the same value. -/
theorem ValueOrigin.supply_of_comparison? {op : Operator} {comparison : Comparison}
    (hop : op.comparison? = some comparison) (source : ValueOrigin) (type : ScalarType)
    (v : Value) : source.supply op type v = source.supply .eq type v := by
  cases source with
  | typed => rfl
  | request =>
    have hnull : op = .isNull ↔ Operator.eq = .isNull := by
      refine iff_of_false ?_ nofun
      rintro rfl
      cases hop
    exact convertRaw_congr (Operator.isTextual_of_comparison? hop) hnull type v

/-! ## Calls -/

namespace Compiler

variable {c : Compiler} {q : Query} {key equal exact : String} {r : Resolved} {v : Value}
  {comparison : Comparison}

/-- A call with one lookup that compares adds a test of the column, or refuses what the comparison
refuses. -/
theorem restrict_eq_demand (hr : c.resolve q.root key = .ok r)
    (hop : (r.operator.getD .eq).comparison? = some comparison) (negate : Bool)
    (source : ValueOrigin) :
    c.restrict q (Ordered.empty.insert key v) negate source =
      ((comparison.demand r.column r.field
          (source.supply (r.operator.getD .eq) r.field.type v) c.settings.coerce).map
        fun p => q.withTest r.joins (if negate then .not p else p)).mapError
          (r.operator.getD .eq).refusal := by
  rw [restrict_single, condition_of_resolve hr]
  change ((Operator.build _ _ _ (source.supply _ _ v) _).map _).map _ = _
  rw [Operator.build_eq_demand hop]
  cases comparison.demand r.column r.field _ c.settings.coerce <;> rfl

theorem order_nil (c : Compiler) (q : Query) : c.order q [] = .ok q := by
  rw [order_eq]
  change Except.ok { q with order := q.order ++ [] } = _
  rw [List.append_nil]

/-- A request without sort keys. -/
theorem apply_unsorted (c : Compiler) (q : Query) (lookups : Lookups) :
    c.apply q ⟨lookups, []⟩ = c.restrict q lookups false .request := by
  rw [apply]
  cases c.restrict q lookups false .request with
  | error e => rfl
  | ok q' => exact c.order_nil q'

/-- What a call makes of a lookup that asks for a value of a column. -/
def equality (c : Compiler) (q : Query) (r : Resolved) (v : Value) (negate : Bool)
    (source : ValueOrigin) : Except (Expected × Value) Query :=
  (Comparison.eq.demand r.column r.field (source.supply .eq r.field.type v) c.settings.coerce).map
    fun p => q.withTest r.joins (if negate then .not p else p)

theorem restrict_eq_equality (hr : c.resolve q.root key = .ok r)
    (hop : (r.operator.getD .eq).comparison? = some .eq) (negate : Bool) (source : ValueOrigin) :
    c.restrict q (Ordered.empty.insert key v) negate source =
      (c.equality q r v negate source).mapError (r.operator.getD .eq).refusal := by
  rw [restrict_eq_demand hr hop, ValueOrigin.supply_of_comparison? hop]
  rfl

/-- A key without an operator asks for what it asks for with `eq` or with `exact` behind it: a call
that narrows or excludes by one lookup, or applies a request for one, makes the same query of all
three, or refuses the same value for the same reason. Null asks for the rows that show null. -/
theorem exact_is_equality (hr : c.resolve q.root key = .ok r) (hnone : r.operator = none)
    (hequal : c.WithOperator key .eq equal) (hexact : c.WithOperator key .exact exact) (v : Value) :
    ∃ narrowed excluded applied : Except (Expected × Value) Query,
      (∀ x ∈ [(key, Operator.eq), (equal, .eq), (exact, .exact)],
        c.narrow q (Ordered.empty.insert x.1 v) = narrowed.mapError x.2.refusal ∧
          c.exclude q (Ordered.empty.insert x.1 v) = excluded.mapError x.2.refusal ∧
          c.apply q ⟨Ordered.empty.insert x.1 v, []⟩ = applied.mapError x.2.refusal ∧
          ∀ keys, c.apply q ⟨Ordered.empty.insert x.1 v, keys⟩ =
            (applied.mapError x.2.refusal >>= fun q' => c.order q' keys)) ∧
        (v = .null →
          narrowed = .ok (q.withTest r.joins (.isNull r.column true)) ∧
            excluded = .ok (q.withTest r.joins (.not (.isNull r.column true))) ∧
            applied = .ok (q.withTest r.joins (.isNull r.column true))) := by
  have hcall : ∀ x ∈ [(key, Operator.eq), (equal, .eq), (exact, .exact)], ∀ negate source,
      c.restrict q (Ordered.empty.insert x.1 v) negate source =
        (c.equality q r v negate source).mapError x.2.refusal := by
    have hkey (negate : Bool) (source : ValueOrigin) :
        c.restrict q (Ordered.empty.insert key v) negate source =
          (c.equality q r v negate source).mapError Operator.eq.refusal := by
      have hop : (r.operator.getD .eq).comparison? = some .eq := by rw [hnone]; rfl
      rw [restrict_eq_equality hr hop, hnone]
      rfl
    exact List.forall_mem_cons.mpr ⟨hkey, List.forall_mem_cons.mpr
      ⟨restrict_eq_equality (hequal.resolve hr hnone) rfl,
        List.forall_mem_singleton.mpr (restrict_eq_equality (hexact.resolve hr hnone) rfl)⟩⟩
  refine ⟨c.equality q r v false .typed, c.equality q r v true .typed,
    c.equality q r v false .request, fun x hx => ⟨hcall x hx _ _, hcall x hx _ _, ?_, ?_⟩, ?_⟩
  · rw [apply_unsorted, hcall x hx]
  · intro keys
    rw [apply, hcall x hx]
  · rintro rfl
    exact ⟨rfl, rfl, rfl⟩

/-- The authors that a call selects. -/
def authorsOf (x : Except LookupError Query) : Option (List RowId) :=
  x.toOption.bind fun q =>
    (q.fetch Blog.built (Blog.fill Blog.built)).toOption.map fun rows => rows.map (·.id)

theorem leads_posts : Blog.built.Leads ⟨0⟩ ["posts"]
    [⟨⟨5⟩, "posts", ⟨0⟩, ⟨2⟩, .toMany, "id", "author_id"⟩] ⟨2⟩ :=
  .along (by decide) rfl (.here _)

/-- The views of an author's posts. -/
def viewsOfPosts : Resolved :=
  ⟨[⟨[⟨5⟩], ⟨5⟩, "posts", ⟨2⟩⟩], ⟨[⟨5⟩], ⟨2⟩, "views"⟩, Blog.field "views" .int, none⟩

theorem resolve_views : (ofSchema Blog.built).resolve ⟨0⟩ "posts__views" = .ok viewsOfPosts := by
  have htokens : Text.split "__" "posts__views" = ["posts"] ++ ["views"] := by cbv
  have hcolumn : Blog.built.NamesColumn ⟨2⟩ "views" (Blog.field "views" .int) :=
    ⟨by decide, rfl, rfl⟩
  exact resolve_of_leads (c := ofSchema Blog.built) htokens leads_posts hcolumn

/-- The theorem at authors with posts of just so many views, where a text that is no number is
refused under the operator of each key. -/
theorem exact_is_equality_views :
    (ofSchema Blog.built).resolve ⟨0⟩ "posts__views" = .ok viewsOfPosts ∧
      (ofSchema Blog.built).WithOperator "posts__views" .eq "posts__views__eq" ∧
      (ofSchema Blog.built).WithOperator "posts__views" .exact "posts__views__exact" ∧
      ∃ narrowed : Except (Expected × Value) Query,
        (∀ x ∈ [("posts__views", Operator.eq), ("posts__views__eq", .eq),
            ("posts__views__exact", .exact)],
          (ofSchema Blog.built).narrow (.ofRoot ⟨0⟩) (Ordered.empty.insert x.1 (.text "many")) =
            narrowed.mapError x.2.refusal) ∧
        (ofSchema Blog.built).narrow (.ofRoot ⟨0⟩)
            (Ordered.empty.insert "posts__views__exact" (.text "many")) =
          .error (.invalidValue "exact" (.ofType .int) (.text "many")) := by
  have hequal : (ofSchema Blog.built).WithOperator "posts__views" .eq "posts__views__eq" :=
    withOperator_standard _ (by cbv)
  have hexact : (ofSchema Blog.built).WithOperator "posts__views" .exact "posts__views__exact" :=
    withOperator_standard _ (by cbv)
  obtain ⟨narrowed, _, _, hcalls, -⟩ := exact_is_equality (q := .ofRoot ⟨0⟩) resolve_views rfl
    hequal hexact (.text "many")
  have hrefused := restrict_eq_equality (q := .ofRoot ⟨0⟩) (v := .text "many")
    (hexact.resolve resolve_views rfl) rfl false .typed
  exact ⟨resolve_views, hequal, hexact, narrowed, fun x hx => (hcalls x hx).1,
    hrefused.trans (by rfl)⟩

end Compiler

end FieldLookup
