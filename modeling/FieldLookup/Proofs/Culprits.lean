import FieldLookup.Proofs.CallerFault
import FieldLookup.Proofs.OperatorTokens

/-!
What the error of a malformed key names. Main statement: `Compiler.malformed_culprit`, conditions
and eager loads name a key that they were given and one of its tokens, as sort keys do if they have
no sign and every operator goes by its own token; `sortKey_eq_error_iff` says what sort keys name
otherwise.
-/
namespace FieldLookup.Compiler

variable {c : Compiler} {root : EntityId} {key token : String} {fault : PathFault}

/-! ## Conditions -/

theorem condition_malformed {source : ValueOrigin} {given : String} {v : Value}
    (h : c.condition root source given v = .error (.malformed key token fault)) :
    key = given ∧ token ∈ Text.split c.settings.separator key := by
  rcases Checked.bind_eq_error_iff.mp h with h | ⟨r, -, h⟩
  · obtain ⟨token', htoken, fault', he⟩ := resolve_eq_error h
    cases he
    exact ⟨rfl, htoken⟩
  · rcases Checked.bind_eq_error_iff.mp h with h | ⟨_, -, h⟩
    · -- An operator refuses values only, and never the key.
      obtain ⟨expected, value, he⟩ := Operator.build_refuses h
      cases he
    · cases h

theorem restrict_malformed {q : Query} {lookups : Lookups} {negate : Bool} {source : ValueOrigin}
    (h : c.restrict q lookups negate source = .error (.malformed key token fault)) :
    key ∈ lookups.keys ∧ token ∈ Text.split c.settings.separator key := by
  rcases Checked.bind_eq_error_iff.mp h with h | ⟨_, -, h⟩
  · obtain ⟨entry, hentry, h⟩ := Checked.mapM_eq_error h
    obtain ⟨rfl, htoken⟩ := condition_malformed h
    exact ⟨List.mem_map_of_mem hentry, htoken⟩
  · cases h

/-! ## Eager loads -/

theorem relationPath_malformed {given : String} {cursor : EntityId} {path : Path}
    {tokens : List String}
    (h : c.relationPath given cursor path tokens = .error (.malformed key token fault)) :
    key = given ∧ token ∈ tokens := by
  induction tokens generalizing cursor path with
  | nil => cases h
  | cons first tokens ih =>
    rw [relationPath] at h
    cases hr : c.schema.relationFrom? cursor first with
    | none =>
      rw [hr] at h
      cases h
      simp
    | some r =>
      rw [hr] at h
      obtain ⟨hkey, htoken⟩ := ih h
      exact ⟨hkey, List.mem_cons_of_mem _ htoken⟩

theorem loadRelated_malformed {q : Query} {paths : List String} {depth : Option Nat}
    (h : c.loadRelated q paths depth = .error (.malformed key token fault)) :
    key ∈ paths ∧ token ∈ Text.split c.settings.separator key := by
  unfold loadRelated at h
  split at h
  · cases h
  · cases h
  · rcases Checked.bind_eq_error_iff.mp h with h | ⟨_, -, h⟩
    · obtain ⟨given, hgiven, h⟩ := Checked.mapM_eq_error h
      obtain ⟨rfl, htoken⟩ := relationPath_malformed h
      exact ⟨hgiven, htoken⟩
    · cases h

/-! ## Sort keys -/

/-- The errors of a sort key. One whose path does not resolve is named without its sign. One that
ends in an operator is named as it was given, but its operator by the token of its own. -/
inductive SortFault (c : Compiler) (root : EntityId) (given : String) : LookupError → Prop
  | path {token : String} {fault : PathFault} :
      c.resolve root (direction given).1 = .error (.malformed (direction given).1 token fault) →
        token ∈ Text.split c.settings.separator (direction given).1 →
          SortFault c root given (.malformed (direction given).1 token fault)
  | operator {r : Resolved} {op : Operator} {written : String} :
      c.resolve root (direction given).1 = .ok r → r.operator = some op →
        (Text.split c.settings.separator (direction given).1).getLast? = some written →
          c.operators.find? written = some op →
            SortFault c root given (.malformed given op.token .operatorInOrder)

theorem sortKey_eq_error_iff {given : String} {e : LookupError} :
    c.sortKey root given = .error e ↔ c.SortFault root given e := by
  constructor
  · intro h
    rcases Checked.bind_eq_error_iff.mp h with h | ⟨r, hr, h⟩
    · obtain ⟨token, htoken, fault, rfl⟩ := resolve_eq_error h
      exact .path h htoken
    · split at h
      · next op hop =>
        obtain ⟨written, hlast, hfind⟩ := Resolved.exists_token_of_operator hr hop
        cases h
        exact .operator hr hop hlast hfind
      · cases h
  · intro h
    refine Checked.bind_eq_error_iff.mpr ?_
    cases h with
    | path hr _ => exact Or.inl hr
    | @operator r op _ hr hop =>
      refine Or.inr ⟨r, hr, ?_⟩
      simp only [hop]
      rfl

/-- A sort key without a sign is named as it was given, and an operator that goes by its own token
only is named as it was written. -/
theorem SortFault.names_given {given : String}
    (h : c.SortFault root given (.malformed key token fault))
    (hsign : (direction given).1 = given)
    (hown : ∀ written op, c.operators.find? written = some op → op.token = written) :
    key = given ∧ token ∈ Text.split c.settings.separator key := by
  generalize he : LookupError.malformed key token fault = e at h
  cases h with
  | path _ htoken =>
    cases he
    exact ⟨hsign, htoken⟩
  | operator _ _ hlast hfind =>
    cases he
    refine ⟨rfl, ?_⟩
    rw [hown _ _ hfind, ← hsign]
    exact List.mem_of_getLast? hlast

theorem order_malformed {q : Query} {keys : List String}
    (h : c.order q keys = .error (.malformed key token fault)) :
    ∃ given ∈ keys, c.SortFault q.root given (.malformed key token fault) := by
  rcases Checked.bind_eq_error_iff.mp h with h | ⟨_, -, h⟩
  · obtain ⟨given, hgiven, h⟩ := Checked.mapM_eq_error h
    exact ⟨given, hgiven, sortKey_eq_error_iff.mp h⟩
  · cases h

/-! ## Calls -/

/-- A malformed lookup or eager load is named by the key that was given and one of its tokens. The
error of sort keys is that of one of them, and names it and one of its tokens if no key has a sign
and every operator is found by its own token only. -/
theorem malformed_culprit (c : Compiler) (q : Query) (key token : String) (fault : PathFault) :
    (∀ lookups, c.narrow q lookups = .error (.malformed key token fault) →
        key ∈ lookups.keys ∧ token ∈ Text.split c.settings.separator key) ∧
      (∀ lookups, c.exclude q lookups = .error (.malformed key token fault) →
        key ∈ lookups.keys ∧ token ∈ Text.split c.settings.separator key) ∧
      (∀ paths depth, c.loadRelated q paths depth = .error (.malformed key token fault) →
        key ∈ paths ∧ token ∈ Text.split c.settings.separator key) ∧
      (∀ keys, c.order q keys = .error (.malformed key token fault) →
        ∃ given ∈ keys, c.SortFault q.root given (.malformed key token fault)) ∧
      ∀ keys, (∀ given ∈ keys, (direction given).1 = given) →
        (∀ written op, c.operators.find? written = some op → op.token = written) →
          c.order q keys = .error (.malformed key token fault) →
            key ∈ keys ∧ token ∈ Text.split c.settings.separator key := by
  refine ⟨fun lookups => restrict_malformed, fun lookups => restrict_malformed,
    fun paths depth => loadRelated_malformed, fun keys => order_malformed, ?_⟩
  intro keys hsigns hown h
  obtain ⟨given, hgiven, hfault⟩ := order_malformed h
  obtain ⟨rfl, htoken⟩ := hfault.names_given (hsigns given hgiven) hown
  exact ⟨hgiven, htoken⟩

/-- A misspelt field, in a lookup, as a relation and as a sort key. -/
theorem malformed_culprit_misspelt :
    ("blog__nme" ∈ (Ordered.ofList [("blog__nme", Value.text "x")]).keys ∧
        "nme" ∈ Text.split "__" "blog__nme") ∧
      ("blog__nme" ∈ ["author", "blog__nme"] ∧ "nme" ∈ Text.split "__" "blog__nme") ∧
      "blog__nme" ∈ ["views", "blog__nme"] ∧ "nme" ∈ Text.split "__" "blog__nme" := by
  have hfield := malformed_culprit (ofSchema Blog.built) (Query.ofRoot ⟨2⟩) "blog__nme" "nme"
    (.noField "nme" "Blog")
  have hrelation := malformed_culprit (ofSchema Blog.built) (Query.ofRoot ⟨2⟩) "blog__nme" "nme"
    (.noRelation "nme" "Blog")
  refine ⟨hfield.1 _ (by cbv), hrelation.2.2.1 ["author", "blog__nme"] none (by cbv),
    hfield.2.2.2.2 ["views", "blog__nme"] (by decide +kernel) ?_ (by cbv)⟩
  intro written op hfind
  exact Operator.ofToken?_eq_some_iff.mp ((OperatorTable.find?_standard written).symm.trans hfind)

/-- The error of a sort key may name neither the key that was given nor a token of it: a sign is
taken off, and an operator that an alias finds goes by its own token. -/
theorem order_culprit_not_given :
    (ofSchema Blog.built).order (Query.ofRoot ⟨2⟩) ["-blog"] =
        .error (.malformed "blog" "blog" (.endsAtTable "Blog")) ∧
      "blog" ∉ ["-blog"] ∧
      (do
        let aliases := Ordered.empty.insert "like" "icontains"
        let c ← ofSettings Blog.built { Settings.standard with aliases }
        c.order (Query.ofRoot ⟨2⟩) ["title__like"]) =
          .error (.malformed "title__like" "icontains" .operatorInOrder) ∧
      "icontains" ∉ Text.split "__" "title__like" := by
  refine ⟨by cbv, by decide, by cbv, by decide +kernel⟩

end FieldLookup.Compiler
