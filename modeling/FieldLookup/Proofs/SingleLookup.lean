import FieldLookup.Proofs.Narrowing
import FieldLookup.Proofs.OperatorTokens

/-!
Queries with one more predicate, as a call with a single lookup makes them. Main statements:
`Compiler.restrict_eq_ok_iff`, what such a call adds; `Query.fetch_congr`, queries that differ in
their predicates fetch alike if these have the same patterns and are true of the same assignments;
`Query.mem_fetch_withTest_iff`, the rows of a query with one more predicate; and
`Compiler.resolve_with_operator`, what a key resolves to with an operator behind it.
-/
namespace FieldLookup

namespace PatternTable

/-- The patterns of some predicates, from left to right. -/
def patternsOf (ps : List Predicate) : List (String × String) :=
  (ps.flatMap Predicate.leaves).filterMap patternOf?

theorem patternsOf_append (ps ps' : List Predicate) :
    patternsOf (ps ++ ps') = patternsOf ps ++ patternsOf ps' := by
  rw [patternsOf, List.flatMap_append, List.filterMap_append]
  rfl

theorem ofCondition_eq {ps : List Predicate} {p : Predicate} (h : Predicate.all ps = some p) :
    ofCondition p = ofPatterns empty (patternsOf ps) := by
  match ps, h with
  | [q], h =>
    cases h
    rw [ofCondition, patternsOf, List.flatMap_singleton]
  | q :: r :: rest, h =>
    cases h
    rw [ofCondition, Predicate.leaves, Predicate.leavesOfAll_eq, patternsOf]

theorem exists_ofCondition {q : Query} {m : PatternTable}
    (h : ofPatterns empty (patternsOf q.predicates) = .ok m) :
    ∀ p, q.condition = some p → ∃ m, ofCondition p = .ok m :=
  fun _ hp => ⟨m, (ofCondition_eq hp).trans h⟩

theorem exists_condition_of_error {q : Query} {e : QueryError}
    (h : ofPatterns empty (patternsOf q.predicates) = .error e) :
    ∃ p, q.condition = some p ∧ ofCondition p = .error e := by
  cases hc : q.condition with
  | none =>
    rw [Predicate.eq_nil_of_all_eq_none hc] at h
    cases h
  | some p => exact ⟨p, rfl, (ofCondition_eq hc).trans h⟩

end PatternTable

namespace Query

variable {schema : Schema} {store : Store} {q : Query}

/-- Queries that differ in their predicates fetch alike if these have the same patterns and are true
of the same assignments. -/
theorem fetch_congr (hstore : store.Coherent) (hq : q.Sound schema) {ps : List Predicate}
    (hq' : Sound schema { q with predicates := ps })
    (hpatterns : PatternTable.patternsOf ps = PatternTable.patternsOf q.predicates)
    (htruth : ∀ a : Assignment, a.Follows schema store q.root q.joins →
      (truth { q with predicates := ps } a = some true ↔ q.truth a = some true)) :
    fetch schema store { q with predicates := ps } = q.fetch schema store := by
  cases htable : PatternTable.ofPatterns .empty (PatternTable.patternsOf q.predicates) with
  | error e =>
    obtain ⟨p, hc, ht⟩ := PatternTable.exists_condition_of_error htable
    rw [← hpatterns] at htable
    obtain ⟨p', hc', ht'⟩ :=
      PatternTable.exists_condition_of_error (q := { q with predicates := ps }) htable
    rw [fetch_of_unreadable hstore hq hc ht, fetch_of_unreadable hstore hq' hc' ht']
  | ok m =>
    have hread := PatternTable.exists_ofCondition htable
    rw [← hpatterns] at htable
    have hread' := PatternTable.exists_ofCondition (q := { q with predicates := ps }) htable
    have hchosen : chosen schema store { q with predicates := ps } = q.chosen schema store := by
      refine List.filter_congr fun a ha => ?_
      rw [decide_eq_decide]
      exact htruth a (Assignment.follows_of_mem_all hstore hq.linked ha)
    rw [fetch_eq hstore hq hread, fetch_eq hstore hq' hread', hchosen]
    rfl

/-! ## One more predicate -/

/-- The query with the joins of a column and one more predicate. -/
def withTest (q : Query) (joins : List Join) (p : Predicate) : Query :=
  { q with
    joins := Join.addAllNew q.joins (Compiler.joinsOf [joins])
    predicates := q.predicates ++ [p] }

variable {joins : List Join} {p p' : Predicate}

theorem truth_withTest_iff {a : Assignment} :
    (q.withTest joins p).truth a = some true ↔
      q.truth a = some true ∧ p.truth a.value = some true := by
  rw [truth_eq_true_iff, truth_eq_true_iff, withTest, List.forall_mem_append,
    List.forall_mem_singleton]

/-- Of two predicates without patterns that are true of the same assignments, either may be added.
-/
theorem fetch_withTest_congr (hstore : store.Coherent) (hq : (q.withTest joins p).Sound schema)
    (hq' : (q.withTest joins p').Sound schema)
    (hp : PatternTable.patternsOf [p] = []) (hp' : PatternTable.patternsOf [p'] = [])
    (htruth : ∀ a : Assignment,
      a.Follows schema store (q.withTest joins p).root (q.withTest joins p).joins →
        q.truth a = some true → (p'.truth a.value = some true ↔ p.truth a.value = some true)) :
    (q.withTest joins p').fetch schema store = (q.withTest joins p).fetch schema store := by
  refine fetch_congr (q := q.withTest joins p) hstore hq hq' ?_ fun a ha => ?_
  · change PatternTable.patternsOf (q.predicates ++ [p']) =
      PatternTable.patternsOf (q.predicates ++ [p])
    rw [PatternTable.patternsOf_append, PatternTable.patternsOf_append, hp, hp']
  · change (q.withTest joins p').truth a = some true ↔ _
    rw [truth_withTest_iff, truth_withTest_iff]
    exact and_congr_right fun hq => htruth a ha hq

/-- The rows of a query with one more predicate, without a slice. -/
theorem mem_fetch_withTest_iff (hstore : store.Coherent) (hq : (q.withTest joins p).Sound schema)
    (hlimit : q.limit = none) (hoffset : q.offset = none) {rows : List Row}
    (h : (q.withTest joins p).fetch schema store = .ok rows) (row : Row) :
    row ∈ rows ↔ ∃ a : Assignment,
      a.Follows schema store q.root (q.withTest joins p).joins ∧ a Path.root = row ∧
        q.truth a = some true ∧ p.truth a.value = some true := by
  rw [(mem_fetch_iff hstore hq hlimit hoffset h).2, Selects]
  simp only [truth_withTest_iff]
  rfl

/-- A test of the root's rows keeps those that pass it. -/
theorem mem_fetch_withTest_root_iff (hstore : store.Coherent) (hq : q.Sound schema)
    (hq' : (q.withTest [] p).Sound schema) (hlimit : q.limit = none) (hoffset : q.offset = none)
    {rows rows' : List Row} (h : q.fetch schema store = .ok rows)
    (h' : (q.withTest [] p).fetch schema store = .ok rows') (test : Row → Truth)
    (hp : ∀ a : Assignment, p.truth a.value = test (a Path.root)) (row : Row) :
    row ∈ rows' ↔ row ∈ rows ∧ test row = some true := by
  rw [mem_fetch_withTest_iff hstore hq' hlimit hoffset h',
    (mem_fetch_iff hstore hq hlimit hoffset h).2]
  constructor
  · rintro ⟨a, ha, rfl, htruth, htest⟩
    exact ⟨⟨a, ha, rfl, htruth⟩, hp a ▸ htest⟩
  · rintro ⟨⟨a, ha, rfl, htruth⟩, htest⟩
    exact ⟨a, ha, rfl, htruth, (hp a).trans htest⟩

theorem withTest_refines : (q.withTest joins p).Refines q :=
  ⟨rfl, Join.subset_addAllNew _ _, List.subset_append_left _ _, rfl, rfl⟩

/-- A predicate without patterns does not keep a query from being fetched. -/
theorem exists_fetch_withTest (hstore : store.Coherent) (hq : q.Sound schema)
    (hq' : (q.withTest joins p).Sound schema) (hp : p.Readable)
    (hcomparable : q.Comparable schema store) {rows : List Row}
    (h : q.fetch schema store = .ok rows) :
    ∃ rows', (q.withTest joins p).fetch schema store = .ok rows' := by
  have hreadable := ((exists_fetch_iff hstore hq).mp ⟨rows, h⟩).1
  have hsortable : (q.withTest joins p).Sortable schema store :=
    Or.inr (hcomparable.of_sees (List.Subset.refl _) fun _ _ => withTest_refines.sees)
  refine hsortable.exists_fetch hstore hq' fun p' hp' => ?_
  rcases List.mem_append.mp hp' with hp' | hp'
  · exact hreadable p' hp'
  · exact List.mem_singleton.mp hp' ▸ hp

end Query

namespace Compiler

variable {c : Compiler} {q q' : Query} {root : EntityId} {key key' token : String} {r : Resolved}
  {v : Value} {negate : Bool}

/-- A call with one lookup adds the joins of its column, and a test of the column or its opposite.
-/
theorem restrict_eq_ok_iff (hr : c.resolve q.root key = .ok r) :
    c.restrict q (Ordered.empty.insert key v) negate .typed = .ok q' ↔
      ∃ p, (r.operator.getD .eq).build r.column r.field v c.settings.coerce = .ok p ∧
        q.withTest r.joins (if negate then .not p else p) = q' := by
  rw [restrict_single, condition_of_resolve hr, Checked.map_eq_ok_iff]
  constructor
  · rintro ⟨d, hd, rfl⟩
    obtain ⟨p, hp, rfl⟩ := Checked.map_eq_ok_iff.mp hd
    exact ⟨p, hp, rfl⟩
  · rintro ⟨p, hp, rfl⟩
    exact ⟨⟨r.joins, p⟩, Checked.map_eq_ok_iff.mpr ⟨p, hp, rfl⟩, rfl⟩

/-- One more token, which selects an operator, behind a key without one. -/
theorem resolve_with_operator {op : Operator} (hr : c.resolve root key = .ok r)
    (hnone : r.operator = none)
    (hkey : Text.split c.settings.separator key' = Text.split c.settings.separator key ++ [token])
    (hop : c.operators.find? token = some op) :
    c.resolve root key' = .ok { r with operator := some op } := by
  obtain ⟨tokens, htokens⟩ : ∃ tokens, Text.split c.settings.separator key = tokens := ⟨_, rfl⟩
  have hd : Resolved.Derives (c.context key) root tokens r :=
    htokens ▸ Resolved.ofKey_eq_ok_iff.mp hr
  rw [htokens] at hkey
  obtain ⟨hl, hc, hend⟩ := hd
  cases hend with
  | column =>
    refine @Resolved.ofKey_of_derives (c.context key') _ _ _ ?_
    rw [context, hkey, List.append_assoc, List.cons_append, List.nil_append]
    exact .intro hl hc (.operator hop)
  | operator _ => cases hnone

/-- Names of relations and of a column resolve to the column behind these relations. -/
theorem resolve_of_leads {e : EntityId} {names : List String} {rs : List Relation} {name : String}
    {field : Attribute} (htokens : Text.split c.settings.separator key = names ++ [name])
    (hleads : c.schema.Leads root names rs e) (hcolumn : c.schema.NamesColumn e name field) :
    c.resolve root key =
      .ok ⟨Join.along Path.root rs, ⟨Path.root.along rs, e, name⟩, field, none⟩ := by
  refine Resolved.ofKey_of_derives ?_
  change Resolved.Derives _ _ (Text.split c.settings.separator key) _
  rw [htokens]
  exact .intro hleads hcolumn .column

/-- The tokens of one key are those of another and one that selects an operator. -/
def WithOperator (c : Compiler) (key : String) (op : Operator) (key' : String) : Prop :=
  ∃ token, c.operators.find? token = some op ∧
    Text.split c.settings.separator key' = Text.split c.settings.separator key ++ [token]

theorem WithOperator.resolve {op : Operator} (h : c.WithOperator key op key')
    (hr : c.resolve root key = .ok r) (hnone : r.operator = none) :
    c.resolve root key' = .ok { r with operator := some op } := by
  obtain ⟨token, hop, hkey⟩ := h
  exact resolve_with_operator hr hnone hkey hop

/-- Standard compilers know the operators by their own tokens. -/
theorem withOperator_standard (schema : Schema) {op : Operator} {key' : String}
    (hkey : Text.split "__" key' = Text.split "__" key ++ [op.token]) :
    (ofSchema schema).WithOperator key op key' :=
  ⟨op.token, (OperatorTable.find?_standard _).trans (Operator.ofToken?_token op), hkey⟩

/-- Keys with different operators behind one key differ. -/
theorem WithOperator.ne {op op' : Operator} {key'' : String} (h : c.WithOperator key op key')
    (h' : c.WithOperator key op' key'') (hne : op ≠ op') : key' ≠ key'' := by
  rintro rfl
  obtain ⟨token, hop, hkey⟩ := h
  obtain ⟨token', hop', hkey'⟩ := h'
  rw [hkey, List.append_cancel_left_eq, List.cons.injEq] at hkey'
  rw [← hkey'.1, hop] at hop'
  exact hne (Option.some.inj hop')

end Compiler

namespace Query

/-- Of two calls both or neither succeed, and what they make is fetched alike from every store. -/
def FetchAlike (schema : Schema) (x y : Except LookupError Query) : Prop :=
  ((∃ q, x = .ok q) ↔ ∃ q, y = .ok q) ∧
    ∀ store : Store, store.Filled → ∀ q q', x = .ok q → y = .ok q' →
      q.fetch schema store = q'.fetch schema store

variable {schema : Schema} {x y : Except LookupError Query}

theorem fetchAlike_of_error {e e' : LookupError} (hx : x = .error e) (hy : y = .error e') :
    FetchAlike schema x y := by
  subst hx hy
  exact ⟨iff_of_false nofun nofun, fun _ _ _ _ => nofun⟩

theorem fetchAlike_of_ok {q q' : Query} (hx : x = .ok q) (hy : y = .ok q')
    (h : ∀ store : Store, store.Filled → q.fetch schema store = q'.fetch schema store) :
    FetchAlike schema x y := by
  subst hx hy
  refine ⟨iff_of_true ⟨q, rfl⟩ ⟨q', rfl⟩, fun store hf q₁ q₂ h₁ h₂ => ?_⟩
  cases h₁
  cases h₂
  exact h store hf

end Query

end FieldLookup
